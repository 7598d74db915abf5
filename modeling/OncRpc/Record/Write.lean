import OncRpc.Record.Marker
import OncRpc.Runtime.Error

/-!
# Writing a record

`write_segments` emits one record of a single fragment: a marker and the segments of the payload,
handed to the stream as slices without being put together.  It suspends only inside a vectored
write, so the model splits it there as it does for reads: `FrameWriter.poll` offers slices and
`FrameWriter.resume` takes the count the stream accepted.

A writer is described by the bytes of the frame it has not yet written.  The slices it offers are a
prefix of these (`FrameWriter.slices_isPrefix`), and an accepted count removes exactly that many of
them (`FrameWriter.advance_remaining`), however the stream splits the frame.
-/

namespace OncRpc

open Foundation

/-- The answer of a stream to a vectored write. -/
inductive WriteResult where
  | ok (count : ℕ)
  | error (error : IoError)
  deriving DecidableEq

/-- A frame being written: the marker and the segments, the part the next write starts in, and the
position in that part. -/
structure FrameWriter where
  parts : List Bytes
  index : ℕ
  offset : ℕ
  deriving DecidableEq

/-- Where a frame write stands. -/
inductive FramePoll where
  | done
  | failed (error : RuntimeError)
  /-- It offers slices to the stream. -/
  | await (slices : List Bytes)
  deriving DecidableEq

/-- A payload too large for one fragment. -/
def oversizeError : RuntimeError := .transport "RPC record exceeds single-fragment limit"

/-- A write that made no progress. -/
def zeroWriteError : RuntimeError := .transport "RPC frame write returned zero"

/-- The payload length of a frame, unless it exceeds one fragment. -/
def frameLength (segments : List Bytes) : Except RuntimeError ℕ :=
  segments.foldlM (fun total segment =>
    match (checkedAdd total segment.length).filter (· ≤ maxFragmentLen.toNat) with
    | some total => .ok total
    | none => .error oversizeError) 0

namespace FrameWriter

/-- A frame of which nothing has been written. -/
def new (segments : List Bytes) : Except RuntimeError FrameWriter := do
  let length ← frameLength segments
  return ⟨beBytes (0x80000000 ||| UInt32.ofNat length) :: segments, 0, 0⟩

/-- The slices offered to the stream: what is left of each part, at most 64 nonempty ones. -/
def slices (w : FrameWriter) : List Bytes :=
  match w.parts.drop w.index with
  | [] => []
  | part :: rest => ((part.drop w.offset :: rest).filter (!·.isEmpty)).take 64

/-- Move past the bytes the stream accepted. -/
def advance (w : FrameWriter) (written : ℕ) : FrameWriter :=
  if h : w.index < w.parts.length then
    let available := w.parts[w.index].length - w.offset
    if written < available then { w with offset := w.offset + written }
    else advance { w with index := w.index + 1, offset := 0 } (written - available)
  else w
termination_by w.parts.length - w.index

/-- The state of the write before it next awaits the stream. -/
def poll (w : FrameWriter) : FramePoll :=
  if w.parts.length ≤ w.index then .done
  else if w.slices = [] then .failed zeroWriteError
  else .await w.slices

/-- The answer of the stream to the write. -/
def resume (w : FrameWriter) : WriteResult → Except RuntimeError FrameWriter
  | .ok 0 => .error zeroWriteError
  | .ok written => .ok (w.advance written)
  | .error error =>
    if error.kind = .interrupted then .ok w else .error (.transport error.text)

/-! ## What is left of a frame -/

/-- The bytes of the frame not yet written. -/
def remaining (w : FrameWriter) : Bytes :=
  match w.parts.drop w.index with
  | [] => []
  | part :: rest => part.drop w.offset ++ rest.flatten

/-- Unless the frame is complete, the current part has a byte left. -/
def Settled (w : FrameWriter) : Prop :=
  ∀ h : w.index < w.parts.length, w.offset < w.parts[w.index].length

theorem flatten_filter_nonempty (l : List Bytes) :
    (l.filter (!·.isEmpty)).flatten = l.flatten := by
  induction l with
  | nil => rfl
  | cons a l ih => cases a <;> simp [ih]

variable {w : FrameWriter}

/-- The parts from the current one on. -/
theorem drop_index (h : w.index < w.parts.length) :
    w.parts.drop w.index = w.parts[w.index] :: w.parts.drop (w.index + 1) :=
  List.drop_eq_getElem_cons h

theorem remaining_of_lt (h : w.index < w.parts.length) :
    w.remaining = w.parts[w.index].drop w.offset ++ (w.parts.drop (w.index + 1)).flatten := by
  unfold remaining
  rw [drop_index h]

theorem remaining_of_le (h : w.parts.length ≤ w.index) : w.remaining = [] := by
  unfold remaining
  rw [List.drop_eq_nil_of_le h]

/-- The writer at the start of a part has the whole part and everything after it left. -/
theorem remaining_start (parts : List Bytes) (index : ℕ) :
    remaining ⟨parts, index, 0⟩ = (parts.drop index).flatten := by
  unfold remaining
  cases parts.drop index <;> simp

/-- The slices offered are the first bytes left. -/
theorem slices_isPrefix (w : FrameWriter) : w.slices.flatten <+: w.remaining := by
  unfold slices remaining
  cases w.parts.drop w.index with
  | nil => exact List.nil_prefix
  | cons part rest =>
    simp only
    have hflat : (part.drop w.offset :: rest).flatten = part.drop w.offset ++ rest.flatten := rfl
    rw [← hflat, ← flatten_filter_nonempty (part.drop w.offset :: rest)]
    conv_rhs =>
      rw [← List.take_append_drop 64 ((part.drop w.offset :: rest).filter (!·.isEmpty)),
        List.flatten_append]
    exact List.prefix_append _ _

/-- Every slice offered is nonempty. -/
theorem ne_nil_of_mem_slices {slice : Bytes} (h : slice ∈ w.slices) : slice ≠ [] := by
  unfold slices at h
  cases hd : w.parts.drop w.index with
  | nil => simp [hd] at h
  | cons part rest =>
    rw [hd] at h
    have hmem := List.mem_of_mem_take h
    rw [List.mem_filter] at hmem
    intro hnil
    simp [hnil] at hmem

/-- An offer has at least one byte. -/
theorem slices_flatten_pos (h : w.slices ≠ []) : 0 < w.slices.flatten.length := by
  obtain ⟨slice, rest, hcons⟩ := List.exists_cons_of_ne_nil h
  have hmem : slice ∈ w.slices := by rw [hcons]; simp
  have hslice := ne_nil_of_mem_slices hmem
  have hpos := List.length_pos_iff.mpr hslice
  rw [hcons, List.flatten_cons, List.length_append]
  omega

/-- An accepted count removes that many bytes of what is left, and the writer settles in a part
with a byte left. -/
theorem advance_remaining (w : FrameWriter) (written : ℕ) (h : written ≤ w.remaining.length) :
    (w.advance written).remaining = w.remaining.drop written ∧ (w.advance written).Settled ∧
      (w.advance written).parts = w.parts := by
  induction hn : w.parts.length - w.index using Nat.strong_induction_on generalizing w written with
  | _ n ih =>
    rw [advance]
    simp only
    split_ifs with hlt hwritten
    · -- The count ends inside the current part.
      have hlen : (w.parts[w.index].drop w.offset).length =
        w.parts[w.index].length - w.offset := by simp
      refine ⟨?_, fun _ => by simp only; omega, rfl⟩
      rw [remaining_of_lt hlt, remaining_of_lt (w := { w with offset := w.offset + written }) hlt,
        List.drop_append_of_le_length (by omega), List.drop_drop]
    · have hrest : w.remaining = w.parts[w.index].drop w.offset ++
          remaining { w with index := w.index + 1, offset := 0 } := by
        rw [remaining_of_lt hlt, remaining_start]
      have hlen : w.remaining.length = w.parts[w.index].length - w.offset +
          (remaining { w with index := w.index + 1, offset := 0 }).length := by
        rw [hrest, List.length_append, List.length_drop]
      obtain ⟨h1, h2, h3⟩ := ih (w.parts.length - (w.index + 1)) (by omega)
        { w with index := w.index + 1, offset := 0 }
        (written - (w.parts[w.index].length - w.offset)) (by omega) rfl
      refine ⟨?_, h2, h3⟩
      have hfirst : (w.parts[w.index].drop w.offset).drop written = [] := by
        apply List.drop_eq_nil_of_le
        rw [List.length_drop]
        omega
      rw [h1, hrest, List.drop_append, List.length_drop, hfirst, List.nil_append]
    · refine ⟨?_, fun hlt' => absurd hlt' hlt, rfl⟩
      rw [remaining_of_le (by omega), List.drop_nil]

/-- A settled writer is done exactly when nothing is left. -/
theorem remaining_eq_nil_iff (h : w.Settled) : w.remaining = [] ↔ w.parts.length ≤ w.index := by
  constructor
  · intro hnil
    by_contra hlt
    have hoff := h (by omega)
    have hlen := congrArg List.length hnil
    rw [remaining_of_lt (by omega), List.length_append, List.length_drop, List.length_nil] at hlen
    omega
  · exact remaining_of_le

/-- A settled writer that is not done has slices to offer. -/
theorem slices_ne_nil (h : w.Settled) (hlt : w.index < w.parts.length) : w.slices ≠ [] := by
  have hoff := h hlt
  unfold slices
  rw [drop_index hlt]
  have hne : (w.parts[w.index].drop w.offset).isEmpty = false := by
    rw [List.isEmpty_eq_false_iff, ne_eq, List.drop_eq_nil_iff]
    omega
  simp only [List.filter_cons_of_pos (p := fun x : Bytes => !x.isEmpty)
    (by simp only [hne, Bool.not_false] : (!(w.parts[w.index].drop w.offset).isEmpty) = true)]
  simp

/-- A settled writer never fails before it writes. -/
theorem poll_of_settled (h : w.Settled) :
    (w.poll = .done ∧ w.remaining = []) ∨
      (w.poll = .await w.slices ∧ w.slices ≠ [] ∧ w.remaining ≠ []) := by
  unfold poll
  split_ifs with hle hnil
  · exact .inl ⟨rfl, remaining_of_le hle⟩
  · exact absurd hnil (slices_ne_nil h (by omega))
  · refine .inr ⟨rfl, hnil, ?_⟩
    rw [ne_eq, remaining_eq_nil_iff h]
    exact hle

end FrameWriter

/-! ## Frames -/

/-- The frame of a payload given in segments: one marker and the segments in order. -/
def frame (segments : List Bytes) : Bytes := fragment true segments.flatten

/-- The payload fits one fragment. -/
def FrameFits (segments : List Bytes) : Prop := FragmentFits segments.flatten

/-- The payload length is computed unless it exceeds one fragment. -/
theorem frameLength_eq (segments : List Bytes) :
    frameLength segments =
      if segments.flatten.length < 2 ^ 31 then .ok segments.flatten.length
      else .error oversizeError := by
  suffices h : ∀ total < 2 ^ 31, segments.foldlM (fun total segment =>
      match (checkedAdd total segment.length).filter (· ≤ maxFragmentLen.toNat) with
      | some total => Except.ok total
      | none => .error oversizeError) total =
      if total + segments.flatten.length < 2 ^ 31 then .ok (total + segments.flatten.length)
      else .error oversizeError by
    simpa [frameLength] using h 0 (by decide)
  induction segments with
  | nil =>
    intro total htotal
    rw [List.foldlM_nil, List.flatten_nil, List.length_nil, Nat.add_zero, if_pos htotal]
    rfl
  | cons segment segments ih =>
    intro total htotal
    have hmax : maxFragmentLen.toNat = 2 ^ 31 - 1 := rfl
    rw [List.foldlM_cons, List.flatten_cons, List.length_append]
    by_cases hfit : total + segment.length < 2 ^ 31
    · have hadd : (checkedAdd total segment.length).filter (· ≤ maxFragmentLen.toNat) =
          some (total + segment.length) := by
        rw [checkedAdd, if_pos (by unfold usizeMax; omega), Option.filter_some,
          if_pos (by simp only [hmax, decide_eq_true_eq]; omega)]
      rw [hadd, ← Nat.add_assoc]
      exact ih _ hfit
    · have hadd : (checkedAdd total segment.length).filter (· ≤ maxFragmentLen.toNat) = none := by
        unfold checkedAdd
        split_ifs
        · rw [Option.filter_some, if_neg (by simp only [hmax, decide_eq_true_eq]; omega)]
        · rfl
      rw [hadd, if_neg (by omega)]
      rfl

namespace FrameWriter

/-- A new writer has the whole frame left; a payload that does not fit is refused. -/
theorem new_cases (segments : List Bytes) :
    (FrameFits segments ∧ ∃ w, new segments = .ok w ∧ w.Settled ∧ w.remaining = frame segments) ∨
      (¬ FrameFits segments ∧ new segments = .error oversizeError) := by
  unfold new
  rw [frameLength_eq]
  by_cases hfits : segments.flatten.length < 2 ^ 31
  · rw [if_pos hfits]
    refine .inl ⟨hfits, _, rfl, fun _ => by simp, ?_⟩
    rw [remaining_start, List.drop_zero, List.flatten_cons]
    rfl
  · rw [if_neg hfits]
    exact .inr ⟨hfits, rfl⟩

/-- The stream accepts `written` bytes of the offer. -/
theorem resume_ok {w : FrameWriter} {written : ℕ} (hpos : 0 < written)
    (hle : written ≤ w.slices.flatten.length) :
    ∃ w', w.resume (.ok written) = .ok w' ∧ w'.Settled ∧
      w.remaining = w.slices.flatten.take written ++ w'.remaining := by
  obtain ⟨rest, hrest⟩ := w.slices_isPrefix
  have hlen : written ≤ w.remaining.length := by
    rw [← hrest, List.length_append]
    omega
  obtain ⟨hdrop, hsettled, -⟩ := advance_remaining w written hlen
  refine ⟨w.advance written, ?_, hsettled, ?_⟩
  · cases written with
    | zero => omega
    | succ n => rfl
  · rw [hdrop, ← hrest, List.drop_append_of_le_length hle, ← List.append_assoc,
      List.take_append_drop]

end FrameWriter

/-! ## A frame written without interruption -/

/-- How many bytes of an offer the stream accepts. -/
def acceptedCount (offer : Bytes) (sizes : List ℕ) : ℕ :=
  max 1 (min offer.length (sizes.headD offer.length))

theorem FrameWriter.slices_of_poll {w : FrameWriter} {slices : List Bytes}
    (h : w.poll = .await slices) : slices = w.slices ∧ w.slices ≠ [] := by
  unfold poll at h
  split_ifs at h with hle hnil
  cases h
  exact ⟨rfl, hnil⟩

theorem FrameWriter.acceptedCount_le {w : FrameWriter} (h : w.slices ≠ []) (sizes : List ℕ) :
    acceptedCount w.slices.flatten sizes ≤ w.slices.flatten.length := by
  have := slices_flatten_pos h
  unfold acceptedCount
  omega

/-- Write a frame to a stream that accepts, at each write, as many of the bytes offered as the next
number of `sizes` says, and at least one. -/
def FrameWriter.writeAll (w : FrameWriter) (sizes : List ℕ) : Except RuntimeError Unit × Bytes :=
  match hpoll : w.poll with
  | .done => (.ok (), [])
  | .failed e => (.error e, [])
  | .await slices =>
    let offer := slices.flatten
    match hresume : w.resume (.ok (acceptedCount offer sizes)) with
    | .error e => (.error e, [])
    | .ok w =>
      let (result, written) := w.writeAll sizes.tail
      (result, offer.take (acceptedCount offer sizes) ++ written)
termination_by w.remaining.length
decreasing_by
  obtain ⟨rfl, hne⟩ := slices_of_poll hpoll
  have hpos : 0 < acceptedCount offer sizes := by
    unfold acceptedCount
    omega
  obtain ⟨w', hw', -, hsplit⟩ := resume_ok hpos (acceptedCount_le hne sizes)
  cases hw'.symm.trans hresume
  rw [hsplit, List.length_append, List.length_take]
  have := slices_flatten_pos hne
  omega

/-- A settled writer writes all that is left of its frame. -/
theorem FrameWriter.writeAll_eq {w : FrameWriter} (h : w.Settled) (sizes : List ℕ) :
    w.writeAll sizes = (.ok (), w.remaining) := by
  induction hn : w.remaining.length using Nat.strong_induction_on generalizing w sizes with
  | _ n ih =>
    rw [writeAll]
    split
    · next hpoll =>
      rcases poll_of_settled h with ⟨-, hnil⟩ | ⟨hawait, -⟩
      · rw [hnil]
      · rw [hpoll] at hawait
        cases hawait
    · next e hpoll =>
      rcases poll_of_settled h with ⟨hdone, -⟩ | ⟨hawait, -⟩
      · rw [hpoll] at hdone
        cases hdone
      · rw [hpoll] at hawait
        cases hawait
    · next slices hpoll =>
      obtain ⟨rfl, hne⟩ := slices_of_poll hpoll
      have hpos : 0 < acceptedCount w.slices.flatten sizes := by
        unfold acceptedCount
        omega
      obtain ⟨w', hw', hsettled, hsplit⟩ := resume_ok hpos (acceptedCount_le hne sizes)
      simp only
      split
      · next e hresume => cases hw'.symm.trans hresume
      · next w'' hresume =>
        cases hw'.symm.trans hresume
        have hlt : w'.remaining.length < n := by
          have := slices_flatten_pos hne
          rw [← hn, hsplit, List.length_append, List.length_take]
          omega
        rw [ih _ hlt hsettled sizes.tail rfl, hsplit]

/-- Write the segments of one record. -/
def writeSegments (segments : List Bytes) (sizes : List ℕ) : Except RuntimeError Unit × Bytes :=
  match FrameWriter.new segments with
  | .error e => (.error e, [])
  | .ok w => w.writeAll sizes

/-- An uninterrupted write puts exactly the frame on the stream, or nothing if it does not fit. -/
theorem writeSegments_eq (segments : List Bytes) (sizes : List ℕ) :
    writeSegments segments sizes =
      if segments.flatten.length < 2 ^ 31 then (.ok (), frame segments)
      else (.error oversizeError, []) := by
  unfold writeSegments
  rcases FrameWriter.new_cases segments with ⟨hfits, w, hnew, hsettled, hframe⟩ | ⟨hfits, hnew⟩
  · unfold FrameFits FragmentFits at hfits
    rw [hnew, if_pos hfits, ← hframe]
    exact FrameWriter.writeAll_eq hsettled sizes
  · unfold FrameFits FragmentFits at hfits
    rw [hnew, if_neg hfits]

end OncRpc
