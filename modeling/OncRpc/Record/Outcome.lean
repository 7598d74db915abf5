import OncRpc.Record.Reader

/-!
# How reading a record under limits ends

`RecordOutcome` says, in terms of the stream alone, how a reader that enforces `RecordLimits` may
end and what it leaves unread.  On a stream that starts with a complete record the outcome is
determined (`RecordOutcome.on_record`): the payload when the record is within the limits, and
otherwise the error of the first fragment outside them, of which no payload byte has been taken
(`Exceeds`).

`readToEnd` is the cursor read to the end of its record; its outcome is such an outcome for every
stream, every way the stream splits its bytes, and every choice of output lengths.
-/

namespace OncRpc

open Foundation

/-- The stream ends inside a record. -/
def Truncated (input : Bytes) : Prop :=
  ∃ more tail, (∀ p ∈ more, FragmentFits p) ∧ input = Record.moreBytes more ++ tail ∧
    (tail.length < 4 ∨ ∃ last length got, length < 2 ^ 31 ∧ got.length < length ∧
      tail = markerBytes last length ++ got)

/-- A cursor that awaits more has read a truncated record. -/
theorem CursorAt.truncated {limits : RecordLimits} {r : RecordReader} {taken payload : Bytes}
    {length count : ℕ} (h : CursorAt limits r taken payload) (hp : r.poll length = .await count) :
    Truncated taken := by
  cases h with
  | boundary more marker hfits hmarker hcount hopen hbytes =>
    exact ⟨more, marker, hfits, rfl, .inl hmarker⟩
  | inside more last len got hfits hlength hgot hcount hbytes =>
    exact ⟨more, _, hfits, rfl, .inr ⟨last, len, got, hlength, hgot, rfl⟩⟩
  | finished record hr =>
    simp only [RecordReader.poll, if_true] at hp
    split_ifs at hp

/-- How a reader under limits may end on `input`: its result, and the bytes it leaves. -/
inductive RecordOutcome (limits : RecordLimits) (input : Bytes) :
    Except RuntimeError Bytes → Bytes → Prop
  | complete (r : Record) (rest : Bytes) (hwithin : r.Within limits)
    (hinput : input = r.bytes ++ rest) : RecordOutcome limits input (.ok r.data) rest
  | overLimit (taken rest : Bytes) (hover : OverLimit limits taken)
      (hinput : input = taken ++ rest) :
    RecordOutcome limits input (.error recordLimitError) rest
  | tooMany (taken rest : Bytes) (hmany : TooManyFragments limits taken)
    (hinput : input = taken ++ rest) : RecordOutcome limits input (.error fragmentLimitError) rest
  | truncated (htruncated : Truncated input) :
    RecordOutcome limits input (.error .connectionClosed) []

/-- Where a record leaves its limits: the fragments `before` are within them and the next one is
not.  The bytes taken end before the payload of that fragment. -/
inductive Exceeds (limits : RecordLimits) (r : Record) : RuntimeError → Bytes → Prop
  | bytes (before : List Bytes) (p : Bytes) (post : List Bytes)
    (hsplit : r.payloads = before ++ p :: post) (hcount : before.length < limits.maxFragments)
    (hbefore : (Record.moreBytes before).length ≤ limits.maxRecordBytes)
    (hover : limits.maxRecordBytes < (Record.moreBytes before).length + 4 + p.length) :
    Exceeds limits r recordLimitError
      (Record.moreBytes before ++ markerBytes post.isEmpty p.length)
  | fragments (before : List Bytes) (p : Bytes) (post : List Bytes)
    (hsplit : r.payloads = before ++ p :: post) (hcount : before.length = limits.maxFragments)
    (hbefore : (Record.moreBytes before).length ≤ limits.maxRecordBytes) :
    Exceeds limits r fragmentLimitError (Record.moreBytes before)

namespace Record

theorem payloads_length (r : Record) : r.payloads.length = r.fragments := by
  simp [payloads, fragments]

/-- The size of a record from a split of its fragments. -/
theorem bytes_length_of_split {r : Record} {before post : List Bytes} {p : Bytes}
    (h : r.payloads = before ++ p :: post) :
    r.bytes.length = (moreBytes before).length + 4 + p.length + (moreBytes post).length := by
  have hdata : r.data = r.payloads.flatten := by simp [data, payloads]
  rw [bytes_length, ← payloads_length, hdata, h, moreBytes_length, moreBytes_length]
  simp only [List.length_append, List.length_cons, List.flatten_append, List.flatten_cons]
  omega

/-- The fragments of a record before a given one, and its marker, on the wire. -/
theorem bytes_of_split {r : Record} {before post : List Bytes} {p : Bytes}
    (h : r.payloads = before ++ p :: post) :
    ∃ unread, r.bytes = moreBytes before ++ (markerBytes post.isEmpty p.length ++ unread) := by
  obtain ⟨more, last, hmore, hlast⟩ := r
  simp only [payloads] at h
  rcases List.eq_nil_or_concat post with rfl | ⟨init, q, rfl⟩
  · obtain ⟨rfl, hp⟩ := List.append_inj' h rfl
    cases hp
    exact ⟨p, by simp [bytes, fragment_eq]⟩
  · have h' : more ++ [last] = (before ++ p :: init) ++ [q] := by simpa using h
    obtain ⟨rfl, -⟩ := List.append_inj' h' rfl
    refine ⟨p ++ (moreBytes init ++ fragment true last), ?_⟩
    have hflag : (init.concat q).isEmpty = false := by simp
    rw [hflag]
    simp [bytes, moreBytes_append, fragment_eq]

end Record

namespace Exceeds

variable {limits : RecordLimits} {r : Record} {e : RuntimeError} {taken : Bytes}

/-- A record that leaves its limits somewhere is not within them. -/
theorem not_within (h : Exceeds limits r e taken) : ¬ r.Within limits := by
  rintro ⟨hfragments, hbytes⟩
  cases h with
  | bytes before p post hsplit hcount hbefore hover =>
    have := Record.bytes_length_of_split hsplit
    omega
  | fragments before p post hsplit hcount hbefore =>
    have := r.payloads_length
    rw [hsplit, List.length_append, List.length_cons] at this
    omega

/-- Only bytes of the record have been taken. -/
theorem isPrefix (h : Exceeds limits r e taken) : taken <+: r.bytes := by
  cases h with
  | bytes before p post hsplit hcount hbefore hover =>
    obtain ⟨unread, hunread⟩ := Record.bytes_of_split hsplit
    exact ⟨unread, by rw [hunread, List.append_assoc]⟩
  | fragments before p post hsplit hcount hbefore =>
    obtain ⟨unread, hunread⟩ := Record.bytes_of_split hsplit
    exact ⟨_, hunread.symm⟩

end Exceeds

/-- A truncated stream does not start with a complete record. -/
theorem Truncated.ne_record {r : Record} {rest : Bytes}
    (h : Truncated (r.bytes ++ rest)) : False := by
  obtain ⟨more, tail, hfits, hinput, htail⟩ := h
  obtain ⟨post, hpost, rfl⟩ := Record.more_eq_append hfits hinput.symm
  have hlen : 4 ≤ (Record.moreBytes post ++ (fragment true r.last ++ rest)).length := by
    simp only [List.length_append, fragment_length]
    omega
  rcases htail with hshort | ⟨last, length, got, hlength, hgot, hmark⟩
  · omega
  · cases post with
    | nil =>
      rw [Record.moreBytes_nil, List.nil_append, fragment_eq, List.append_assoc] at hmark
      obtain ⟨-, hl, hpay⟩ := markerBytes_append_inj r.last_fits hlength hmark
      have := congrArg List.length hpay
      rw [List.length_append] at this
      omega
    | cons p post =>
      rw [Record.moreBytes_cons, fragment_eq, List.append_assoc, List.append_assoc] at hmark
      have hp : FragmentFits p := r.more_fits p (by simp [hpost])
      obtain ⟨-, hl, hpay⟩ := markerBytes_append_inj hp hlength hmark
      have := congrArg List.length hpay
      rw [List.length_append] at this
      omega

namespace RecordOutcome

variable {limits : RecordLimits} {input rest : Bytes} {result : Except RuntimeError Bytes}

/-- On a stream that starts with a complete record the outcome is determined. -/
theorem on_record {r : Record} {after : Bytes}
    (h : RecordOutcome limits (r.bytes ++ after) result rest) :
    (r.Within limits ∧ result = .ok r.data ∧ rest = after) ∨
      ∃ e taken, Exceeds limits r e taken ∧ result = .error e ∧ r.bytes ++ after = taken ++ rest :=
        by
  cases h with
  | complete r' _ hwithin hinput =>
    obtain ⟨rfl, rfl⟩ := Record.bytes_append_inj hinput
    exact .inl ⟨hwithin, rfl, rfl⟩
  | overLimit taken _ hover hinput =>
    obtain ⟨more, last, length, hfits, hlength, hcount, hbefore, hlt, rfl⟩ := hover
    obtain ⟨p, post, hsplit, rfl, hlast⟩ := Record.payloads_eq_of_marker hfits hlength
      (by rw [hinput, List.append_assoc])
    have hflag : last = post.isEmpty := by
      rw [Bool.eq_iff_iff, hlast, List.isEmpty_iff]
    exact .inr ⟨_, _, .bytes more p post hsplit hcount hbefore hlt, rfl, by rw [hinput, hflag]⟩
  | tooMany taken _ hmany hinput =>
    obtain ⟨more, hfits, hcount, hbefore, rfl⟩ := hmany
    obtain ⟨post, hpost, -⟩ := Record.more_eq_append hfits hinput.symm
    cases post with
    | nil =>
      exact .inr ⟨_, _, .fragments more r.last [] (by simp [Record.payloads, hpost]) hcount hbefore,
        rfl, hinput⟩
    | cons p post =>
      exact .inr ⟨_, _, .fragments more p (post ++ [r.last]) (by simp [Record.payloads, hpost])
        hcount hbefore, rfl, hinput⟩
  | truncated htruncated => exact (htruncated.ne_record).elim

end RecordOutcome

/-! ## A cursor on a complete record -/

/-- The payload delivered from a stream that starts with a record is the start of its payload. -/
theorem CursorAt.payload_isPrefix {limits : RecordLimits} {r : RecordReader} {record : Record}
    {taken payload left rest : Bytes} (h : CursorAt limits r taken payload)
    (hinput : taken ++ left = record.bytes ++ rest) : payload <+: record.data := by
  cases h with
  | boundary more marker hfits hmarker hcount hopen hbytes =>
    rw [List.append_assoc] at hinput
    obtain ⟨post, hpost, -⟩ := Record.more_eq_append hfits hinput
    exact ⟨post.flatten ++ record.last, by simp [Record.data, hpost]⟩
  | inside more last len got hfits hlength hgot hcount hbytes =>
    simp only [List.append_assoc] at hinput
    obtain ⟨post, hpost, htail⟩ := Record.more_eq_append hfits hinput
    cases post with
    | nil =>
      rw [Record.moreBytes_nil, List.nil_append, fragment_eq, List.append_assoc] at htail
      obtain ⟨-, hlen, hrest⟩ := markerBytes_append_inj hlength record.last_fits htail
      have hpre : got <+: record.last :=
        List.prefix_of_prefix_length_le ⟨left, hrest⟩ (List.prefix_append _ _) (by omega)
      obtain ⟨more', hmore'⟩ := hpre
      exact ⟨more', by simp [Record.data, hpost, ← hmore']⟩
    | cons p post =>
      have hp : FragmentFits p := record.more_fits p (by simp [hpost])
      rw [Record.moreBytes_cons, fragment_eq, List.append_assoc, List.append_assoc] at htail
      obtain ⟨-, hlen, hrest⟩ := markerBytes_append_inj hlength hp htail
      have hpre : got <+: p :=
        List.prefix_of_prefix_length_le ⟨left, hrest⟩ (List.prefix_append _ _) (by omega)
      obtain ⟨more', hmore'⟩ := hpre
      exact ⟨more' ++ (post.flatten ++ record.last), by simp [Record.data, hpost, ← hmore']⟩
  | finished record' hr =>
    obtain ⟨rfl, -⟩ := Record.bytes_append_inj hinput
    exact List.prefix_refl _

section OnRecord

variable {limits : RecordLimits} {record : Record} {rest taken left : Bytes}

/-- A record within the limits meets none of them. -/
theorem Record.Within.not_limit (hwithin : record.Within limits)
    (hinput : record.bytes ++ rest = taken ++ left) :
    ¬ OverLimit limits taken ∧ ¬ TooManyFragments limits taken := by
  constructor
  · intro hover
    rcases (RecordOutcome.overLimit taken left hover hinput).on_record with
      ⟨-, h, -⟩ | ⟨e, taken', hexceeds, -, -⟩
    · cases h
    · exact hexceeds.not_within hwithin
  · intro hmany
    rcases (RecordOutcome.tooMany taken left hmany hinput).on_record with
      ⟨-, h, -⟩ | ⟨e, taken', hexceeds, -, -⟩
    · cases h
    · exact hexceeds.not_within hwithin

/-- What a read of a complete record within the limits can see before the stream answers. -/
theorem CursorAt.poll_on_record {cursor : RecordReader} {payload : Bytes} (wants : ℕ)
    (hwithin : record.Within limits) (hinput : record.bytes ++ rest = taken ++ left)
    (hcursor : CursorAt limits cursor taken payload) (hwants : wants ≠ 0) :
    (cursor.poll wants = .done ∧ payload = record.data) ∨
      ∃ count, cursor.poll wants = .await count := by
  cases hpoll : cursor.poll wants with
  | done =>
    obtain ⟨record', -, rfl, rfl⟩ := hcursor.of_poll_done hpoll
    obtain ⟨rfl, -⟩ := Record.bytes_append_inj hinput
    exact .inl ⟨rfl, rfl⟩
  | failed e =>
    exact absurd (hcursor.of_poll_failed hwants hpoll).2 (hwithin.not_limit hinput).2
  | await count => exact .inr ⟨count, rfl⟩

/-- A read asks for no byte behind the record. -/
theorem CursorAt.await_le {cursor : RecordReader} {payload : Bytes} {wants count : ℕ}
    (hinput : record.bytes ++ rest = taken ++ left) (h : CursorAt limits cursor taken payload)
    (hp : cursor.poll wants = .await count) : taken.length + count ≤ record.bytes.length := by
  cases h with
  | boundary more marker hfits hmarker hcount hopen hbytes =>
    rw [List.append_assoc] at hinput
    obtain ⟨post, hpost, -⟩ := Record.more_eq_append hfits hinput.symm
    simp only [RecordReader.poll, if_true, Bool.false_eq_true, if_false] at hp
    split_ifs at hp
    simp only [ReadSome.await.injEq] at hp
    have hlength : record.bytes.length =
        (Record.moreBytes more).length +
          ((Record.moreBytes post).length + (4 + record.last.length)) := by
      rw [Record.bytes, hpost, Record.moreBytes_append]
      simp only [List.length_append, fragment_length, Nat.add_assoc]
    rw [List.length_append]
    omega
  | inside more last length got hfits hlength hgot hcount hbytes =>
    have hmarker : Record.moreBytes more ++ (markerBytes last length ++ (got ++ left)) =
        record.bytes ++ rest := by
      rw [hinput]
      simp only [List.append_assoc]
    obtain ⟨p, post, hsplit, hlen, -⟩ := Record.payloads_eq_of_marker hfits hlength hmarker
    have hwhole := Record.bytes_length_of_split hsplit
    have hrem : length - got.length ≠ 0 := by omega
    simp only [RecordReader.poll, hrem, if_false] at hp
    split_ifs at hp
    simp only [ReadSome.await.injEq] at hp
    simp only [List.length_append, markerBytes_length]
    omega
  | finished record' hr =>
    simp only [RecordReader.poll, if_true] at hp
    split_ifs at hp

end OnRecord

/-! ## A cursor read to its end -/

/-- The loop of a caller that reads a record to its end; `outputs` are the lengths of the storage
it offers to its calls. -/
inductive ReadToEnd where
  | reading (cursor : RecordReader) (outputs : ℕ → ℕ) (data : Bytes)
  | ended (result : Except RuntimeError Bytes)

namespace ReadToEnd

/-- Where the loop stands. -/
def poll : ReadToEnd → Poll (Except RuntimeError Bytes)
  | .reading cursor outputs data =>
    match cursor.poll (outputs 0) with
    | .done => .ready (.ok data)
    | .failed e => .ready (.error e)
    | .await count => .await count
  | .ended result => .ready result

/-- The stream answers the loop's pending read. -/
def resume : ReadToEnd → ReadResult IoError → ReadToEnd
  | .reading cursor outputs data, result =>
    match cursor.resume result with
    | (cursor, .more) => .reading cursor outputs data
    | (cursor, .payload chunk) => .reading cursor (fun i => outputs (i + 1)) (data ++ chunk)
    | (_, .failed e) => .ended (.error e)
  | .ended result, _ => .ended result

/-- The loop as a task. -/
def task : Task ReadToEnd (Except RuntimeError Bytes) IoError := ⟨poll, resume⟩

theorem task_poll (s : ReadToEnd) : task.poll s = s.poll := rfl

/-- What the loop has taken from the stream. -/
def At (limits : RecordLimits) : ReadToEnd → Bytes → Prop
  | .reading cursor outputs data, taken =>
    CursorAt limits cursor taken data ∧ ∀ i, outputs i ≠ 0
  | .ended result, taken => result = .error recordLimitError ∧ OverLimit limits taken

variable {limits : RecordLimits} {s : ReadToEnd} {taken chunk : Bytes} {count : ℕ}

theorem At.await_pos (h : At limits s taken) (hp : s.poll = .await count) : 0 < count := by
  cases s with
  | reading cursor outputs data =>
    simp only [poll] at hp
    split at hp
    · cases hp
    · cases hp
    · next n hcursor =>
      cases hp
      exact h.1.await_pos (h.2 0) hcursor
  | ended result => cases hp

theorem At.resume_bytes (h : At limits s taken) (hp : s.poll = .await count) (hne : chunk ≠ [])
    (hle : chunk.length ≤ count) : At limits (s.resume (.bytes chunk)) (taken ++ chunk) := by
  cases s with
  | reading cursor outputs data =>
    simp only [poll] at hp
    split at hp
    · cases hp
    · cases hp
    · next n hcursor =>
      cases hp
      have hstep := h.1.resume_bytes hcursor hne hle
      simp only [resume]
      rcases hresume : cursor.resume (.bytes chunk) with ⟨cursor', _ | got | e⟩
      · simp only [hresume] at hstep
        exact ⟨hstep, h.2⟩
      · simp only [hresume] at hstep
        obtain ⟨rfl, -, hat⟩ := hstep
        exact ⟨hat, fun i => h.2 (i + 1)⟩
      · simp only [hresume] at hstep
        obtain ⟨rfl, hover⟩ := hstep
        exact ⟨rfl, hover⟩
  | ended result => cases hp

end ReadToEnd

/-- Read one record to its end: the payload or the error, and what the stream still holds. -/
def readToEnd (limits : RecordLimits) (outputs : ℕ → ℕ) (stream : Stream) :
    Option (Except RuntimeError Bytes) × Bytes :=
  match RecordReader.new limits with
  | .error e => (some (.error e), stream.bytes)
  | .ok cursor =>
    let (state, stream) := ReadToEnd.task.drive (.reading cursor outputs []) stream
    match state.poll with
    | .ready result => (some result, stream.bytes)
    | .await _ => (none, stream.bytes)

/-- Reading a record to its end always comes to an end, and it is an outcome of the stream. -/
theorem readToEnd_outcome {limits : RecordLimits} (hvalid : limits.Valid) {outputs : ℕ → ℕ}
    (houtputs : ∀ i, outputs i ≠ 0) (stream : Stream) :
    ∃ result rest, readToEnd limits outputs stream = (some result, rest) ∧
      RecordOutcome limits stream.bytes result rest := by
  have hnew : RecordReader.new limits = .ok (RecordReader.start limits) := by
    unfold RecordReader.new
    rw [(limits.validate_eq_ok_iff).mpr hvalid]
    rfl
  have hstart : ReadToEnd.At limits (.reading (.start limits) outputs []) [] :=
    ⟨CursorAt.start limits, houtputs⟩
  obtain ⟨taken, hinput, hend⟩ := ReadToEnd.task.drive_spec
    (fun h => h.await_pos) (fun h => h.resume_bytes) hstart stream
  rw [List.nil_append] at hinput
  unfold readToEnd
  rw [hnew]
  rcases hend with ⟨result, hready, hat⟩ | ⟨s, count, hat, hawait, hstate, hrest⟩
  · rw [ReadToEnd.task_poll] at hready
    refine ⟨result, _, by simp only [hready]; rfl, ?_⟩
    generalize (ReadToEnd.task.drive _ stream).1 = state at hready hat
    cases state with
    | reading cursor outputs' data =>
      simp only [ReadToEnd.poll] at hready
      split at hready
      · next hdone =>
        cases hready
        obtain ⟨record, hwithin, rfl, rfl⟩ := hat.1.of_poll_done hdone
        exact .complete record _ hwithin hinput
      · next e hfailed =>
        cases hready
        obtain ⟨rfl, hmany⟩ := hat.1.of_poll_failed (hat.2 0) hfailed
        exact .tooMany taken _ hmany hinput
      · cases hready
    | ended result' =>
      cases hready
      obtain ⟨rfl, hover⟩ := hat
      exact .overLimit taken _ hover hinput
  · -- The stream ended while the loop waited for more.
    cases s with
    | reading cursor outputs' data =>
      refine ⟨.error .connectionClosed, [], ?_, ?_⟩
      · simp only [hstate, hrest]
        rfl
      · rw [hrest, List.append_nil] at hinput
        simp only [ReadToEnd.task_poll, ReadToEnd.poll] at hawait
        split at hawait
        · cases hawait
        · cases hawait
        · next n hcursor =>
          rw [hinput]
          exact .truncated (hat.1.truncated hcursor)
    | ended result' => cases hawait

end OncRpc
