import OncRpc.Foundation.Stream
import OncRpc.Record.Marker
import OncRpc.Runtime.Error

/-!
# The record cursor

`RecordReader` walks one record of a stream without assembling it.  A `read_some` call suspends
only inside a read of the underlying stream, so the model splits it at these points: `poll` says
whether the call is already decided or how many bytes it asks the stream for, and `resume` takes
the stream's answer.  Between the two, other tasks may run or the call may be dropped; the cursor
keeps the partial marker, so nothing is lost.

`CursorAt` describes a cursor by the bytes it has consumed and the payload it has delivered.  Every
answer of the stream keeps this description (`CursorAt.resume_bytes`), with one exception: a marker
that takes the record over its byte limit is consumed and forgotten, which `OverLimit` records.
-/

namespace OncRpc

open Foundation

/-- The cursor over one record. -/
structure RecordReader where
  limits : RecordLimits
  fragments : ℕ
  recordBytes : ℕ
  remaining : ℕ
  last : Bool
  /-- The part of the next marker read so far. -/
  marker : Bytes

/-- Where a `read_some` call stands. -/
inductive ReadSome where
  /-- It returns zero: the record has ended. -/
  | done
  | failed (error : RuntimeError)
  /-- It waits for at most `count` bytes of the stream. -/
  | await (count : ℕ)

/-- What an answer of the stream did to a `read_some` call. -/
inductive Filled where
  /-- A marker was (partly) read; the call goes on. -/
  | more
  | payload (chunk : Bytes)
  | failed (error : RuntimeError)

namespace RecordReader

/-- A cursor at the start of a record. -/
def start (limits : RecordLimits) : RecordReader where
  limits := limits
  fragments := 0
  recordBytes := 0
  remaining := 0
  last := false
  marker := []

/-- A cursor at the start of a record, unless the limits admit none. -/
def new (limits : RecordLimits) : Except RuntimeError RecordReader := do
  limits.validate
  return start limits

/-- The state of a `read_some` call with an output of the given length before it next awaits the
stream. -/
def poll (r : RecordReader) (length : ℕ) : ReadSome :=
  if length = 0 then .failed (.transport "empty RPC read destination")
  else if r.remaining = 0 then
    if r.last then .done
    else if r.fragments = r.limits.maxFragments then .failed fragmentLimitError
    else .await (4 - r.marker.length)
  else .await (min length r.remaining)

/-- Marker bytes arrive; a complete marker opens the next fragment if the record stays within its
limit. -/
def fillMarker (r : RecordReader) (chunk : Bytes) : RecordReader × Filled :=
  let marker := r.marker ++ chunk
  if marker.length < 4 then ({ r with marker := marker }, .more)
  else
    let word := wordOf marker
    let length := (word &&& maxFragmentLen).toNat
    match r.limits.grow r.recordBytes length with
    | none => ({ r with marker := [] }, .failed recordLimitError)
    | some total =>
      ({ r with
          marker := []
          recordBytes := total
          fragments := r.fragments + 1
          remaining := length
          last := word &&& 0x80000000 != 0 }, .more)

/-- The answer of the stream to the read a `read_some` call awaits. -/
def resume (r : RecordReader) (result : ReadResult IoError) : RecordReader × Filled :=
  match result with
  | .error error => (r, .failed (readError error))
  | .eof => (r, .failed .connectionClosed)
  | .bytes chunk =>
    if r.remaining = 0 then r.fillMarker chunk
    else ({ r with remaining := r.remaining - chunk.length }, .payload chunk)

end RecordReader

/-! ## What a cursor has consumed -/

/-- Four bytes are the marker of the flag and length they decode to. -/
theorem markerBytes_of_length {l : Bytes} (hl : l.length = 4) :
    markerBytes (wordOf l &&& 0x80000000 != 0) (wordOf l &&& maxFragmentLen).toNat = l := by
  have h := RecordMarker.encode_decode (wordOf l)
  unfold markerBytes RecordMarker.encodeBytes
  rw [UInt32.ofNat_toNat]
  rw [show (⟨wordOf l &&& 0x80000000 != 0, wordOf l &&& maxFragmentLen⟩ : RecordMarker) =
    RecordMarker.decode (wordOf l) from rfl, h, beBytes_wordOf hl]

theorem low31_lt (w : UInt32) : (w &&& maxFragmentLen).toNat < 2 ^ 31 := by
  rw [show (w &&& maxFragmentLen).toNat = w.toNat % 2 ^ 31 from toNat_and_low31 w]
  exact Nat.mod_lt _ (by decide)

/-- The record is within the limits. -/
def Record.Within (r : Record) (limits : RecordLimits) : Prop :=
  r.fragments ≤ limits.maxFragments ∧ r.bytes.length ≤ limits.maxRecordBytes

/-- The cursor has consumed `taken` from the stream and delivered `payload`. -/
inductive CursorAt (limits : RecordLimits) : RecordReader → Bytes → Bytes → Prop
  /-- Between two fragments, possibly inside the next marker. -/
  | boundary (more : List Bytes) (marker : Bytes) (hfits : ∀ p ∈ more, FragmentFits p)
    (hmarker : marker.length < 4) (hcount : more.length ≤ limits.maxFragments)
    (hopen : marker ≠ [] → more.length < limits.maxFragments)
    (hbytes : (Record.moreBytes more).length ≤ limits.maxRecordBytes) :
    CursorAt limits ⟨limits, more.length, (Record.moreBytes more).length, 0, false, marker⟩
      (Record.moreBytes more ++ marker) more.flatten
  /-- Inside the payload of a fragment. -/
  | inside (more : List Bytes) (last : Bool) (length : ℕ) (got : Bytes)
    (hfits : ∀ p ∈ more, FragmentFits p) (hlength : length < 2 ^ 31) (hgot : got.length < length)
    (hcount : more.length + 1 ≤ limits.maxFragments)
    (hbytes : (Record.moreBytes more).length + 4 + length ≤ limits.maxRecordBytes) :
    CursorAt limits
      ⟨limits, more.length + 1, (Record.moreBytes more).length + 4 + length, length - got.length,
        last, []⟩
      (Record.moreBytes more ++ (markerBytes last length ++ got)) (more.flatten ++ got)
  /-- At the end of the record. -/
  | finished (r : Record) (hr : r.Within limits) :
    CursorAt limits ⟨limits, r.fragments, r.bytes.length, 0, true, []⟩ r.bytes r.data

/-- The consumed bytes end in a marker whose fragment takes the record over its byte limit. -/
def OverLimit (limits : RecordLimits) (taken : Bytes) : Prop :=
  ∃ more last length, (∀ p ∈ more, FragmentFits p) ∧ length < 2 ^ 31 ∧
    more.length < limits.maxFragments ∧ (Record.moreBytes more).length ≤ limits.maxRecordBytes ∧
    limits.maxRecordBytes < (Record.moreBytes more).length + 4 + length ∧
    taken = Record.moreBytes more ++ markerBytes last length

/-- The consumed bytes are as many fragments as the limit allows, none of them the last. -/
def TooManyFragments (limits : RecordLimits) (taken : Bytes) : Prop :=
  ∃ more, (∀ p ∈ more, FragmentFits p) ∧ more.length = limits.maxFragments ∧
    (Record.moreBytes more).length ≤ limits.maxRecordBytes ∧ taken = Record.moreBytes more

namespace CursorAt

variable {limits : RecordLimits} {r : RecordReader} {taken payload : Bytes}

theorem start (limits : RecordLimits) : CursorAt limits (RecordReader.start limits) [] [] :=
  boundary [] [] (by simp) (by simp) (by simp) (by simp) (by simp)

/-- A fragment whose payload is complete: the cursor stands at the next boundary, or at the end of
the record if the fragment was the last. -/
theorem closeFragment (more : List Bytes) (last : Bool) (got : Bytes)
    (hfits : ∀ p ∈ more, FragmentFits p) (hgot : FragmentFits got)
    (hcount : more.length + 1 ≤ limits.maxFragments)
    (hbytes : (Record.moreBytes more).length + 4 + got.length ≤ limits.maxRecordBytes) :
    CursorAt limits
      ⟨limits, more.length + 1, (Record.moreBytes more).length + 4 + got.length, 0, last, []⟩
      (Record.moreBytes more ++ (markerBytes last got.length ++ got)) (more.flatten ++ got) := by
  cases last with
  | true =>
    have hlen : (Record.bytes ⟨more, got, hfits, hgot⟩).length =
        (Record.moreBytes more).length + 4 + got.length := by
      simp only [Record.bytes, List.length_append, fragment_length]
      omega
    have h := @finished limits ⟨more, got, hfits, hgot⟩ ⟨hcount, by omega⟩
    rw [hlen] at h
    exact h
  | false =>
    have hmore : Record.moreBytes (more ++ [got]) =
        Record.moreBytes more ++ (markerBytes false got.length ++ got) := by
      rw [Record.moreBytes_append]
      simp [fragment_eq]
    have hlen : (Record.moreBytes (more ++ [got])).length =
        (Record.moreBytes more).length + 4 + got.length := by
      rw [hmore]
      simp only [List.length_append, markerBytes_length]
      omega
    have h := @boundary limits (more ++ [got]) []
      (by
        intro p hp
        rcases List.mem_append.mp hp with hp | hp
        · exact hfits p hp
        · rw [List.mem_singleton.mp hp]
          exact hgot)
      (by simp) (by simpa using hcount) (by simp) (by omega)
    rw [hlen, hmore] at h
    simpa using h

/-- The only way a cursor has finished. -/
theorem of_poll_done {length : ℕ} (h : CursorAt limits r taken payload)
    (hp : r.poll length = .done) :
    ∃ record : Record, record.Within limits ∧ taken = record.bytes ∧ payload = record.data := by
  cases h with
  | boundary more marker hfits hmarker hcount hopen hbytes =>
    simp only [RecordReader.poll, if_true, Bool.false_eq_true, if_false] at hp
    split_ifs at hp
  | inside more last len got hfits hlength hgot hcount hbytes =>
    simp only [RecordReader.poll, show len - got.length ≠ 0 by omega, if_false] at hp
    split_ifs at hp
  | finished record hr => exact ⟨record, hr, rfl, rfl⟩

/-- A `read_some` call with a nonempty output that fails before it reads has met the fragment
limit. -/
theorem of_poll_failed {length : ℕ} {e : RuntimeError} (hl : length ≠ 0)
    (h : CursorAt limits r taken payload) (hp : r.poll length = .failed e) :
    e = fragmentLimitError ∧ TooManyFragments limits taken := by
  cases h with
  | boundary more marker hfits hmarker hcount hopen hbytes =>
    simp only [RecordReader.poll, hl, if_false, if_true, Bool.false_eq_true] at hp
    split_ifs at hp with hmax
    · cases hp
      have hnil : marker = [] := by
        by_contra hne
        have := hopen hne
        omega
      exact ⟨rfl, more, hfits, hmax, hbytes, by rw [hnil, List.append_nil]⟩
  | inside more last len got hfits hlength hgot hcount hbytes =>
    simp only [RecordReader.poll, hl, show len - got.length ≠ 0 by omega, if_false] at hp
    cases hp
  | finished record hr =>
    simp only [RecordReader.poll, hl, if_false, if_true] at hp
    cases hp

/-- A pending read asks for at least one byte. -/
theorem await_pos {length count : ℕ} (h : CursorAt limits r taken payload) (hl : length ≠ 0)
    (hp : r.poll length = .await count) : 0 < count := by
  cases h with
  | boundary more marker hfits hmarker hcount hopen hbytes =>
    simp only [RecordReader.poll, hl, if_true, Bool.false_eq_true, if_false] at hp
    split_ifs at hp
    simp only [ReadSome.await.injEq] at hp
    omega
  | inside more last len got hfits hlength hgot hcount hbytes =>
    simp only [RecordReader.poll, hl, show len - got.length ≠ 0 by omega, if_false,
      ReadSome.await.injEq] at hp
    omega
  | finished record hr =>
    simp only [RecordReader.poll, hl, if_true, if_false] at hp
    cases hp

/-- A cursor at the start of its record has taken nothing. -/
theorem taken_of_start (h : CursorAt limits (.start limits) taken payload) : taken = [] := by
  generalize hstart : RecordReader.start limits = cursor at h
  cases h with
  | boundary more marker hfits hmarker hcount hopen hbytes =>
    have hmore : 0 = more.length := congrArg RecordReader.fragments hstart
    have hnil : [] = marker := congrArg RecordReader.marker hstart
    rw [List.eq_nil_of_length_eq_zero hmore.symm, ← hnil]
    rfl
  | inside more last length got =>
    have hmore : 0 = more.length + 1 := congrArg RecordReader.fragments hstart
    omega
  | finished record hr =>
    have hlast : false = true := congrArg RecordReader.last hstart
    cases hlast

/-- A cursor that awaits a marker has taken whole fragments and a part of the marker. -/
theorem marker_of_await {length count : ℕ} (h : CursorAt limits r taken payload)
    (hp : r.poll length = .await count) (hr : r.remaining = 0) :
    ∃ more : List Bytes, (∀ p ∈ more, FragmentFits p) ∧
      taken = Record.moreBytes more ++ r.marker := by
  cases h with
  | boundary more marker hfits hmarker hcount hopen hbytes => exact ⟨more, hfits, rfl⟩
  | inside more last length got hfits hlength hgot hcount hbytes =>
    simp only at hr
    omega
  | finished record hrecord =>
    simp only [RecordReader.poll, if_true] at hp
    split_ifs at hp

/-- Bytes from the stream keep the description of the cursor, unless they complete a marker that
takes the record over its limit. -/
theorem resume_bytes {length count : ℕ} {chunk : Bytes} (h : CursorAt limits r taken payload)
    (hp : r.poll length = .await count) (hne : chunk ≠ []) (hle : chunk.length ≤ count) :
    match r.resume (.bytes chunk) with
    | (r', .more) => CursorAt limits r' (taken ++ chunk) payload
    | (r', .payload got) =>
      got = chunk ∧ chunk.length ≤ length ∧ CursorAt limits r' (taken ++ chunk) (payload ++ chunk)
    | (_, .failed e) => e = recordLimitError ∧ OverLimit limits (taken ++ chunk) := by
  have hpos : 0 < chunk.length := List.length_pos_iff.mpr hne
  cases h with
  | boundary more marker hfits hmarker hcount hopen hbytes =>
    simp only [RecordReader.poll, if_true, Bool.false_eq_true, if_false] at hp
    split_ifs at hp with hl hmax
    simp only [ReadSome.await.injEq] at hp
    simp only [RecordReader.resume, RecordReader.fillMarker, if_true, List.append_assoc]
    by_cases h4 : (marker ++ chunk).length < 4
    · rw [if_pos h4]
      exact boundary more (marker ++ chunk) hfits h4 hcount (fun _ => by omega) hbytes
    · rw [if_neg h4]
      have hlen : (marker ++ chunk).length = 4 := by
        simp only [List.length_append] at h4 ⊢
        omega
      have hm := markerBytes_of_length hlen
      have hlow := low31_lt (wordOf (marker ++ chunk))
      rw [RecordLimits.grow_eq]
      by_cases hlim : (Record.moreBytes more).length + 4 +
          (wordOf (marker ++ chunk) &&& maxFragmentLen).toNat ≤ limits.maxRecordBytes
      · rw [if_pos hlim]
        -- An empty fragment is complete at once; any other one opens.
        by_cases hzero : (wordOf (marker ++ chunk) &&& maxFragmentLen).toNat = 0
        · have hclose := @closeFragment limits more
            (wordOf (marker ++ chunk) &&& 0x80000000 != 0) [] hfits
            (by unfold FragmentFits; simp) (by omega) (by simpa [hzero] using hlim)
          rw [hzero] at hm
          simp only [List.length_nil, List.append_nil, hm] at hclose
          simp only [hzero]
          exact hclose
        · have hin := @inside limits more
            (wordOf (marker ++ chunk) &&& 0x80000000 != 0)
            (wordOf (marker ++ chunk) &&& maxFragmentLen).toNat [] hfits hlow
            (by simp only [List.length_nil]; omega) (by omega) hlim
          rw [hm] at hin
          simpa using hin
      · rw [if_neg hlim]
        exact ⟨rfl, more, _, _, hfits, hlow, by omega, hbytes, by omega, by rw [hm]⟩
  | inside more last len got hfits hlength hgot hcount hbytes =>
    have hrem : len - got.length ≠ 0 := by omega
    simp only [RecordReader.poll, hrem, if_false] at hp
    split_ifs at hp with hl
    simp only [ReadSome.await.injEq] at hp
    simp only [RecordReader.resume, hrem, if_false, true_and]
    refine ⟨by omega, ?_⟩
    by_cases hfull : got.length + chunk.length = len
    · have hclose := @closeFragment limits more last (got ++ chunk) hfits
        (by unfold FragmentFits; simp only [List.length_append]; omega)
        hcount (by simp only [List.length_append]; omega)
      simp only [List.length_append, hfull] at hclose
      rw [show len - got.length - chunk.length = 0 by omega]
      simpa using hclose
    · have hin := @inside limits more last len (got ++ chunk) hfits hlength
        (by simp only [List.length_append]; omega) hcount hbytes
      rw [show len - (got ++ chunk).length = len - got.length - chunk.length by
        simp only [List.length_append]; omega] at hin
      simpa using hin
  | finished record hr =>
    simp only [RecordReader.poll, if_true] at hp
    split_ifs at hp

end CursorAt

end OncRpc
