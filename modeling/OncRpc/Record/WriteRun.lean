import OncRpc.Foundation.Transition
import OncRpc.Record.Write

/-!
# A frame write under any answers

The stream may accept any part of what it is offered, nothing at all, report that it was
interrupted, or fail.  `FrameRun` is a call of `write_segments` with what the stream has accepted of
the frame and what it was offered; a run is a list of answers of the stream.

`FrameRun.Writes` is the invariant: what was accepted and what the writer has left make up the
frame.  `vectored_frame_write` draws the conclusions for all runs, with an unbounded number of
segments, offers and interruptions.
-/

namespace OncRpc

open Foundation

/-- A call of `write_segments`: where it stands, what the stream has accepted, and its offers. -/
structure FrameRun where
  writer : Except RuntimeError FrameWriter
  accepted : Bytes
  offers : List (List Bytes)

/-- The bytes of an offer that an answer accepts. -/
def WriteResult.taken (slices : List Bytes) : WriteResult → Bytes
  | .ok count => slices.flatten.take count
  | .error _ => []

/-- A stream accepts no more than it is offered. -/
def WriteResult.fits (slices : List Bytes) : WriteResult → Bool
  | .ok count => count ≤ slices.flatten.length
  | .error _ => true

/-- The stream accepts a byte of the offer, or was interrupted. -/
def WriteResult.goesOn : WriteResult → Bool
  | .ok count => 0 < count
  | .error cause => cause.kind = .interrupted

/-- The stream accepts bytes. -/
def WriteResult.isOk : WriteResult → Bool
  | .ok _ => true
  | .error _ => false

/-- Between one and 64 slices, each of them nonempty. -/
def GoodOffer (slices : List Bytes) : Prop :=
  1 ≤ slices.length ∧ slices.length ≤ 64 ∧ ∀ slice ∈ slices, slice ≠ []

namespace FrameRun

/-- The write before its first offer. -/
def start (segments : List Bytes) : FrameRun := ⟨FrameWriter.new segments, [], []⟩

/-- The stream answers the pending offer. -/
def step (r : FrameRun) (answer : WriteResult) : Option FrameRun :=
  match r.writer with
  | .error _ => none
  | .ok w =>
    match w.poll with
    | .await slices =>
      if answer.fits slices then
        some ⟨w.resume answer, r.accepted ++ answer.taken slices, r.offers ++ [slices]⟩
      else none
    | _ => none

/-- What the call has returned. -/
def result (r : FrameRun) : Option (Except RuntimeError Unit) :=
  match r.writer with
  | .error error => some (.error error)
  | .ok w =>
    match w.poll with
    | .done => some (.ok ())
    | .failed error => some (.error error)
    | .await _ => none

/-- The offer the call waits with. -/
def offer (r : FrameRun) : Option (List Bytes) :=
  match r.writer with
  | .error _ => none
  | .ok w =>
    match w.poll with
    | .await slices => some slices
    | _ => none

/-! ## What a run has written -/

/-- A live writer has left what the stream has not accepted; a failed one has written a part. -/
structure Writes (segments : List Bytes) (r : FrameRun) : Prop where
  live : ∀ w, r.writer = .ok w → w.Settled ∧ r.accepted ++ w.remaining = frame segments
  isPrefix : r.accepted <+: frame segments
  offers : ∀ slices ∈ r.offers, GoodOffer slices

variable {segments : List Bytes} {r t : FrameRun} {answer : WriteResult}

/-- The slices of a writer are a good offer. -/
theorem goodOffer_of_poll {w : FrameWriter} {slices : List Bytes} (h : w.poll = .await slices) :
    GoodOffer slices := by
  obtain ⟨rfl, hne⟩ := FrameWriter.slices_of_poll h
  refine ⟨List.length_pos_iff.mpr hne, ?_, fun slice hslice =>
    FrameWriter.ne_nil_of_mem_slices hslice⟩
  unfold FrameWriter.slices
  split
  · simp
  · exact List.length_take_le _ _

/-- A step of a run: a writer with a pending offer takes an answer to it. -/
theorem step_cases (h : r.step answer = some t) :
    ∃ w slices, r.writer = .ok w ∧ w.poll = .await slices ∧ answer.fits slices = true ∧
      t = ⟨w.resume answer, r.accepted ++ answer.taken slices, r.offers ++ [slices]⟩ := by
  unfold step at h
  rcases hw : r.writer with error | w
  · simp only [hw] at h
    cases h
  · rcases hpoll : w.poll with _ | error | slices
    · simp only [hw, hpoll] at h
      cases h
    · simp only [hw, hpoll] at h
      cases h
    · simp only [hw, hpoll] at h
      split_ifs at h with hfits
      cases h
      exact ⟨w, slices, rfl, hpoll, hfits, rfl⟩

theorem Writes.start (h : FrameFits segments) : Writes segments (.start segments) := by
  rcases FrameWriter.new_cases segments with ⟨-, w, hnew, hsettled, hframe⟩ | ⟨hover, -⟩
  · refine ⟨fun w' hw' => ?_, List.nil_prefix, nofun⟩
    have heq : w' = w := by
      have hboth := hw'.symm.trans hnew
      exact Except.ok.inj hboth
    rw [heq]
    exact ⟨hsettled, hframe⟩
  · exact absurd h hover

/-- An answer other than an accepted count leaves the writer where it was, or fails it. -/
theorem resume_error {w : FrameWriter} {error : IoError} :
    w.resume (.error error) = .ok w ∨
      w.resume (.error error) = .error (.transport error.text) ∧ error.kind ≠ .interrupted := by
  simp only [FrameWriter.resume]
  split_ifs with hkind
  · exact .inl rfl
  · exact .inr ⟨rfl, hkind⟩

/-- What the stream accepts is what the writer no longer has. -/
theorem Writes.resume {w : FrameWriter} {slices : List Bytes} (h : Writes segments r)
    (hw : r.writer = .ok w) (hpoll : w.poll = .await slices) (hfits : answer.fits slices = true) :
    Writes segments
      ⟨w.resume answer, r.accepted ++ answer.taken slices, r.offers ++ [slices]⟩ := by
  obtain ⟨hsettled, hframe⟩ := h.live w hw
  obtain ⟨rfl, hne⟩ := FrameWriter.slices_of_poll hpoll
  have hoffers : ∀ slices ∈ r.offers ++ [w.slices], GoodOffer slices := by
    intro slices hmem
    rcases List.mem_append.mp hmem with hold | hnew
    · exact h.offers slices hold
    · rw [List.mem_singleton.mp hnew]
      exact goodOffer_of_poll hpoll
  rcases answer with count | error
  · have hle : count ≤ w.slices.flatten.length := by simpa [WriteResult.fits] using hfits
    rcases Nat.eq_zero_or_pos count with rfl | hpos
    · refine ⟨fun w' hw' => (nomatch hw'), ?_, hoffers⟩
      have htaken : WriteResult.taken w.slices (.ok 0) = [] := rfl
      rw [htaken, List.append_nil]
      exact h.isPrefix
    · obtain ⟨w', hresume, hsettled', hsplit⟩ := FrameWriter.resume_ok hpos hle
      have hwhole : (r.accepted ++ w.slices.flatten.take count) ++ w'.remaining =
          frame segments := by
        rw [List.append_assoc, ← hsplit, hframe]
      refine ⟨fun w'' hw'' => ?_, ⟨w'.remaining, hwhole⟩, hoffers⟩
      obtain rfl : w' = w'' := Except.ok.inj (hresume.symm.trans hw'')
      exact ⟨hsettled', hwhole⟩
  · have htaken : WriteResult.taken w.slices (.error error) = [] := rfl
    rw [htaken, List.append_nil]
    refine ⟨fun w' hw' => ?_, h.isPrefix, hoffers⟩
    rcases @resume_error w error with hsame | ⟨hfailed, -⟩
    · obtain rfl : w = w' := Except.ok.inj (hsame.symm.trans hw')
      exact ⟨hsettled, hframe⟩
    · cases hfailed.symm.trans hw'

/-- Every run keeps the frame. -/
theorem Writes.of_trace {answers : List WriteResult} (hfits : FrameFits segments)
    (h : Trace step (fun _ _ => True) (.start segments) answers r) : Writes segments r := by
  refine h.runs.invariant (Writes segments) (.start hfits) fun {u a v} hu _ hstep => ?_
  obtain ⟨w, slices, hw, hpoll, hanswer, rfl⟩ := step_cases hstep
  exact hu.resume hw hpoll hanswer

/-! ## How a run ends -/

/-- A live write has ended with the whole frame accepted, or waits with a good offer. -/
theorem Writes.ends (h : Writes segments r) {w : FrameWriter} (hw : r.writer = .ok w) :
    (r.result = some (.ok ()) ∧ r.offer = none ∧ r.accepted = frame segments) ∨
      ∃ slices, r.result = none ∧ r.offer = some slices ∧ GoodOffer slices ∧
        r.accepted.length < (frame segments).length := by
  obtain ⟨hsettled, hframe⟩ := h.live w hw
  rcases FrameWriter.poll_of_settled hsettled with ⟨hdone, hnil⟩ | ⟨hawait, -, hleft⟩
  · left
    rw [hnil, List.append_nil] at hframe
    simp [result, offer, hw, hdone, hframe]
  · right
    refine ⟨w.slices, by simp [result, hw, hawait], by simp [offer, hw, hawait],
      goodOffer_of_poll hawait, ?_⟩
    have hpos := List.length_pos_iff.mpr hleft
    rw [← hframe, List.length_append]
    omega

/-- A failing answer is an accepted count of zero, or an error of the stream. -/
theorem resume_failed {w : FrameWriter} {error : RuntimeError}
    (h : w.resume answer = .error error) :
    (answer = .ok 0 ∧ error = zeroWriteError) ∨
      ∃ cause, answer = .error cause ∧ cause.kind ≠ .interrupted ∧
        error = .transport cause.text := by
  rcases answer with count | cause
  · rcases count with _ | count
    · cases h
      exact .inl ⟨rfl, rfl⟩
    · cases h
  · rcases @resume_error w cause with hsame | ⟨hfailed, hkind⟩
    · cases hsame.symm.trans h
    · cases hfailed.symm.trans h
      exact .inr ⟨cause, rfl, hkind, rfl⟩

/-- A run that has failed failed at its last answer. -/
theorem failed_of_trace {answers : List WriteResult} {error : RuntimeError}
    (hfits : FrameFits segments) (h : Trace step (fun _ _ => True) (.start segments) answers r)
    (hfailed : r.writer = .error error) :
    ∃ earlier last, answers = earlier ++ [last] ∧ ((last = .ok 0 ∧ error = zeroWriteError) ∨
      ∃ cause, last = .error cause ∧ cause.kind ≠ .interrupted ∧
        error = .transport cause.text) := by
  cases h with
  | nil =>
    rcases FrameWriter.new_cases segments with ⟨-, w, hnew, -⟩ | ⟨hover, -⟩
    · cases hnew.symm.trans hfailed
    · exact absurd hfits hover
  | @snoc earlier u _ last h hok hstep =>
    obtain ⟨w, slices, hw, hpoll, hanswer, rfl⟩ := step_cases hstep
    exact ⟨earlier, last, rfl, resume_failed hfailed⟩

/-- A run without failing answers is alive, and each accepting answer has accepted a byte. -/
theorem live_of_trace {answers : List WriteResult} (hfits : FrameFits segments)
    (h : Trace step (fun _ _ => True) (.start segments) answers r)
    (hgood : ∀ answer ∈ answers, answer.goesOn = true) :
    (∃ w, r.writer = .ok w) ∧ answers.countP WriteResult.isOk ≤ r.accepted.length := by
  induction h with
  | nil =>
    rcases FrameWriter.new_cases segments with ⟨-, w, hnew, -⟩ | ⟨hover, -⟩
    · exact ⟨⟨w, hnew⟩, Nat.zero_le _⟩
    · exact absurd hfits hover
  | @snoc earlier u t last h hok hstep ih =>
    obtain ⟨-, hcount⟩ := ih fun answer hmem => hgood answer (List.mem_append_left _ hmem)
    have hlast := hgood last (List.mem_append_right _ (List.mem_singleton.mpr rfl))
    obtain ⟨w, slices, hw, hpoll, hanswer, rfl⟩ := step_cases hstep
    constructor
    · rcases hresume : w.resume last with error | w'
      · rcases resume_failed hresume with ⟨rfl, -⟩ | ⟨cause, rfl, hkind, -⟩
        · cases hlast
        · exact absurd (by simpa [WriteResult.goesOn] using hlast) hkind
      · exact ⟨w', rfl⟩
    · rw [List.countP_append, List.length_append]
      refine Nat.add_le_add hcount ?_
      rcases last with count | cause
      · have hpos : 0 < count := by simpa [WriteResult.goesOn] using hlast
        have hle : count ≤ slices.flatten.length := by simpa [WriteResult.fits] using hanswer
        have hone : List.countP WriteResult.isOk [.ok count] = 1 := rfl
        rw [hone, WriteResult.taken, List.length_take]
        omega
      · simp [WriteResult.isOk]

end FrameRun

/-! ## The frame write -/

/-- A payload that fits one fragment: at every moment the stream has accepted a prefix of the frame
and was offered between one and 64 nonempty slices; the write succeeds exactly with the whole frame,
and it does so once the stream has accepted bytes often enough; it fails only by an error of the
stream, or with the error of a zero count by such a count.  A larger payload fails before anything
is offered. -/
theorem vectored_frame_write (segments : List Bytes) :
    (segments.flatten.length ≤ 2 ^ 31 - 1 → ∀ answers r,
      Trace FrameRun.step (fun _ _ => True) (.start segments) answers r →
        r.accepted <+: beBytes (0x80000000 ||| UInt32.ofNat segments.flatten.length) ++
          segments.flatten ∧
        (∀ slices, slices ∈ r.offers ∨ r.offer = some slices → GoodOffer slices) ∧
        (r.result = some (.ok ()) → r.accepted =
          beBytes (0x80000000 ||| UInt32.ofNat segments.flatten.length) ++ segments.flatten) ∧
        (∀ error, r.result = some (.error error) → ∃ earlier last, answers = earlier ++ [last] ∧
          ((last = .ok 0 ∧ error = zeroWriteError) ∨
            ∃ cause, last = .error cause ∧ cause.kind ≠ .interrupted ∧
              error = .transport cause.text)) ∧
        ((∀ answer ∈ answers, answer.goesOn = true) →
          segments.flatten.length + 4 ≤ answers.countP WriteResult.isOk →
          r.result = some (.ok ()))) ∧
    (2 ^ 31 - 1 < segments.flatten.length →
      (FrameRun.start segments).result = some (.error oversizeError) ∧
      ∀ answers r, Trace FrameRun.step (fun _ _ => True) (.start segments) answers r →
        r.accepted = [] ∧ r.offers = [] ∧ r.offer = none) := by
  constructor
  · intro hlength answers r h
    have hfits : FrameFits segments := by
      unfold FrameFits FragmentFits
      omega
    have hwrites := FrameRun.Writes.of_trace hfits h
    refine ⟨hwrites.isPrefix, ?_, ?_, ?_, ?_⟩
    · rintro slices (hold | hnow)
      · exact hwrites.offers slices hold
      · rcases hw : r.writer with error | w
        · simp [FrameRun.offer, hw] at hnow
        · rcases hwrites.ends hw with ⟨-, hnone, -⟩ | ⟨offered, -, hoffer, hgood, -⟩
          · rw [hnone] at hnow
            cases hnow
          · rw [hoffer] at hnow
            cases hnow
            exact hgood
    · intro hdone
      rcases hw : r.writer with error | w
      · simp [FrameRun.result, hw] at hdone
      · rcases hwrites.ends hw with ⟨-, -, haccepted⟩ | ⟨offered, hpending, -⟩
        · exact haccepted
        · rw [hpending] at hdone
          cases hdone
    · intro error herror
      rcases hw : r.writer with error' | w
      · have hsame : error' = error := by simpa [FrameRun.result, hw] using herror
        exact FrameRun.failed_of_trace hfits h (hsame ▸ hw)
      · rcases hwrites.ends hw with ⟨hdone, -⟩ | ⟨offered, hpending, -⟩
        · rw [hdone] at herror
          cases herror
        · rw [hpending] at herror
          cases herror
    · intro hgood hcount
      obtain ⟨⟨w, hw⟩, haccepted⟩ := FrameRun.live_of_trace hfits h hgood
      rcases hwrites.ends hw with ⟨hdone, -⟩ | ⟨offered, -, -, -, hshort⟩
      · exact hdone
      · have hframe : (frame segments).length = segments.flatten.length + 4 := by
          unfold frame
          rw [fragment_length]
          omega
        omega
  · intro hlength
    have hnew : FrameWriter.new segments = .error oversizeError := by
      rcases FrameWriter.new_cases segments with ⟨hfits, -⟩ | ⟨-, hnew⟩
      · unfold FrameFits FragmentFits at hfits
        omega
      · exact hnew
    refine ⟨by simp [FrameRun.result, FrameRun.start, hnew], fun answers r h => ?_⟩
    have hstart : r = .start segments := by
      cases h.runs using Relation.ReflTransGen.head_induction_on with
      | refl => rfl
      | head hfirst _ =>
        obtain ⟨answer, -, hstep⟩ := hfirst
        obtain ⟨w, slices, hw, -⟩ := FrameRun.step_cases hstep
        cases hnew.symm.trans hw
    rw [hstart]
    exact ⟨rfl, rfl, by simp [FrameRun.offer, FrameRun.start, hnew]⟩

/-- An empty segment and one of two bytes, with a short write inside the marker, an interruption and
a write across the rest. -/
theorem vectored_frame_write_short :
    ∃ r, Trace FrameRun.step (fun _ _ => True) (.start [[], [7, 8]])
        [.ok 3, .error ⟨.interrupted, ""⟩, .ok 3] r ∧
      r.offers.length = 3 ∧ r.accepted = [128, 0, 0, 2, 7, 8] := by
  obtain ⟨r, htrace, hview⟩ := @Trace.exists_of_runList _ _ FrameRun.step (fun _ _ => True)
    (.start [[], [7, 8]]) (fun _ _ => true) [.ok 3, .error ⟨.interrupted, ""⟩, .ok 3] _
    (fun r => (r.result.isSome && r.result.all Except.isOk, r.offers.length)) (true, 3)
    (fun _ _ _ => trivial) (by decide +kernel)
  obtain ⟨hresult, hoffers⟩ := Prod.mk.inj hview
  refine ⟨r, htrace, hoffers, ?_⟩
  have hdone : r.result = some (.ok ()) := by
    rcases hr : r.result with _ | _ | ⟨⟩
    · simp [hr] at hresult
    · simp [hr, Except.isOk, Except.toBool] at hresult
    · rfl
  exact (((vectored_frame_write [[], [7, 8]]).1 (by decide) _ r htrace).2.2.1 hdone).trans
    (by decide)

end OncRpc
