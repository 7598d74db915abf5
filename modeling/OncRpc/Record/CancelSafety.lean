import OncRpc.Foundation.Transition
import OncRpc.Record.Outcome

/-!
# Cancelled reads of a record

The owner of a cursor calls `read_some` and `read_exact` one after the other, with storage of any
length, and may drop a call while the stream is pending.  The stream hands out its bytes in pieces
of any sizes.  `CursorRun` is the cursor with the call in progress, the bytes the stream has not
handed out, and what the completed reads have returned; a run is any sequence of calls, answers and
drops.

`CursorRun.Follows` is the invariant on a stream that starts with a record within the limits: the
cursor has taken a part of the record, and what it has delivered is what the completed reads have
returned.  A dropped call leaves the cursor as it is, so nothing is lost.
-/

namespace OncRpc

open Foundation

/-- A call in progress, with the length of the storage it has left to fill. -/
inductive CursorCall where
  | readSome (length : ℕ)
  | readExact (length : ℕ)
  deriving DecidableEq

/-- The storage that the pending `read_some` of a call is given. -/
def CursorCall.wants : CursorCall → ℕ
  | .readSome length | .readExact length => length

/-- A cursor, the call in progress, and what has been returned. -/
structure CursorRun where
  cursor : RecordReader
  /-- The bytes the stream has not handed out. -/
  unread : Bytes
  call : Option CursorCall
  /-- What the completed `read_some` calls have returned, those of `read_exact` among them; empty
  for a returned zero. -/
  reads : List Bytes
  /-- The errors `read_some` calls have returned. -/
  errors : List RuntimeError
  /-- What the completed `read_exact` calls have returned. -/
  exacts : List (Except RuntimeError Unit)

/-- What can happen to a cursor. -/
inductive CursorAction where
  | readSome (length : ℕ)
  | readExact (length : ℕ)
  /-- The call goes on without the stream. -/
  | turn
  /-- The stream hands out bytes to the pending read. -/
  | deliver (count : ℕ)
  /-- The call is dropped while the stream is pending. -/
  | cancel
  deriving DecidableEq

/-- The storage given to a call is nonempty. -/
def CursorAction.HasRoom : CursorAction → Prop
  | .readSome length | .readExact length => length ≠ 0
  | .turn | .deliver _ | .cancel => True

instance (action : CursorAction) : Decidable action.HasRoom :=
  match action with
  | .readSome length => inferInstanceAs (Decidable (length ≠ 0))
  | .readExact length => inferInstanceAs (Decidable (length ≠ 0))
  | .turn | .deliver _ | .cancel => inferInstanceAs (Decidable True)

namespace CursorRun

/-- A cursor at the start of a record. -/
def start (limits : RecordLimits) (stream : Bytes) : CursorRun :=
  ⟨.start limits, stream, none, [], [], []⟩

/-- A `read_some` call has delivered bytes, or none at the end of the record. -/
def delivered (r : CursorRun) (call : CursorCall) (chunk : Bytes) : CursorRun :=
  let r := { r with call := none, reads := r.reads ++ [chunk] }
  match call with
  | .readSome _ => r
  | .readExact length =>
    if chunk = [] then { r with exacts := r.exacts ++ [.error (recordEof length)] }
    else if length - chunk.length = 0 then { r with exacts := r.exacts ++ [.ok ()] }
    else { r with call := some (.readExact (length - chunk.length)) }

/-- A `read_some` call has failed. -/
def failed (r : CursorRun) (call : CursorCall) (error : RuntimeError) : CursorRun :=
  let r := { r with call := none, errors := r.errors ++ [error] }
  match call with
  | .readSome _ => r
  | .readExact _ => { r with exacts := r.exacts ++ [.error error] }

/-- The answer of the stream to the pending read. -/
def resume (r : CursorRun) (call : CursorCall) (count : ℕ) : CursorRun :=
  match r.cursor.resume (.bytes (r.unread.take count)) with
  | (cursor, .more) => { r with cursor := cursor, unread := r.unread.drop count }
  | (cursor, .payload chunk) =>
    { r with cursor := cursor, unread := r.unread.drop count }.delivered call chunk
  | (cursor, .failed error) =>
    { r with cursor := cursor, unread := r.unread.drop count }.failed call error

/-- One step. -/
def step (r : CursorRun) : CursorAction → Option CursorRun
  | .readSome length =>
    if r.call.isSome then none else some { r with call := some (.readSome length) }
  | .readExact length =>
    if r.call.isSome then none
    else if length = 0 then some { r with exacts := r.exacts ++ [.ok ()] }
    else some { r with call := some (.readExact length) }
  | .turn =>
    r.call.bind fun call =>
      match r.cursor.poll call.wants with
      | .done => some (r.delivered call [])
      | .failed error => some (r.failed call error)
      | .await _ => none
  | .deliver count =>
    r.call.bind fun call =>
      match r.cursor.poll call.wants with
      | .await asked =>
        if 0 < count ∧ count ≤ asked ∧ count ≤ r.unread.length then some (r.resume call count)
        else none
      | _ => none
  | .cancel =>
    r.call.bind fun call =>
      match r.cursor.poll call.wants with
      | .await _ => some { r with call := none }
      | _ => none

/-! ## What a run has delivered -/

/-- A read returns zero exactly if the reads before it have delivered the whole payload. -/
def ZeroAtEnd (data : Bytes) (reads : List Bytes) : Prop :=
  ∀ before chunk after, reads = before ++ chunk :: after → (chunk = [] ↔ before.flatten = data)

/-- The cursor has taken `taken` of the record and `left` is still to come. -/
structure FollowsAt (limits : RecordLimits) (record : Record) (rest taken left : Bytes)
    (r : CursorRun) : Prop where
  cursor : CursorAt limits r.cursor taken r.reads.flatten
  split : record.bytes = taken ++ left
  unread : r.unread = left ++ rest
  room : ∀ call, r.call = some call → call.wants ≠ 0
  errors : r.errors = []
  zero : ZeroAtEnd record.data r.reads
  ended : [] ∈ r.reads → left = []

/-- The run follows the record. -/
def Follows (limits : RecordLimits) (record : Record) (rest : Bytes) (r : CursorRun) : Prop :=
  ∃ taken left, FollowsAt limits record rest taken left r

variable {limits : RecordLimits} {record : Record} {rest taken left : Bytes} {r t : CursorRun}
  {call : CursorCall} {chunk : Bytes}

/-- The stream, split into what was taken of the record and what follows. -/
theorem FollowsAt.input (h : FollowsAt limits record rest taken left r) :
    record.bytes ++ rest = taken ++ (left ++ rest) := by
  rw [h.split, List.append_assoc]

theorem FollowsAt.start (limits : RecordLimits) (record : Record) (rest : Bytes) :
    FollowsAt limits record rest [] record.bytes (.start limits (record.bytes ++ rest)) where
  cursor := CursorAt.start limits
  split := rfl
  unread := rfl
  room := nofun
  errors := rfl
  zero before chunk after h := by simp [CursorRun.start] at h
  ended := nofun

/-- A call begins, goes on or ends, or one of `read_exact` returns. -/
theorem FollowsAt.recall (h : FollowsAt limits record rest taken left r) {next : Option CursorCall}
    {exacts : List (Except RuntimeError Unit)}
    (hnext : ∀ call, next = some call → call.wants ≠ 0) :
    FollowsAt limits record rest taken left { r with call := next, exacts := exacts } :=
  ⟨h.cursor, h.split, h.unread, hnext, h.errors, h.zero, h.ended⟩

/-- One more completed read. -/
theorem ZeroAtEnd.snoc {data chunk : Bytes} {reads : List Bytes} (h : ZeroAtEnd data reads)
    (hnew : chunk = [] ↔ reads.flatten = data) : ZeroAtEnd data (reads ++ [chunk]) := by
  intro before got after hsplit
  rcases List.eq_nil_or_concat after with rfl | ⟨init, last, rfl⟩
  · obtain ⟨rfl, hlast⟩ := List.append_inj' hsplit rfl
    cases hlast
    exact hnew
  · rw [List.concat_eq_append, ← List.cons_append, ← List.append_assoc] at hsplit
    obtain ⟨rfl, -⟩ := List.append_inj' hsplit rfl
    exact h before got init rfl

/-- What `delivered` does besides noting the bytes: a `read_exact` call may go on. -/
theorem delivered_eq (r : CursorRun) (call : CursorCall) (chunk : Bytes) :
    ∃ next exacts, r.delivered call chunk =
        { r with call := next, reads := r.reads ++ [chunk], exacts := exacts } ∧
      ∀ call', next = some call' → call'.wants ≠ 0 := by
  rcases call with length | length
  · exact ⟨none, r.exacts, rfl, nofun⟩
  · simp only [delivered]
    split_ifs with hnil hfull
    · exact ⟨none, _, rfl, nofun⟩
    · exact ⟨none, _, rfl, nofun⟩
    · refine ⟨some (.readExact (length - chunk.length)), r.exacts, rfl, fun call' hcall => ?_⟩
      cases hcall
      exact hfull

/-- Bytes are delivered that follow what was delivered before, or none at the end of the record. -/
theorem FollowsAt.delivered (hcursor : CursorAt limits r.cursor taken (r.reads.flatten ++ chunk))
    (hsplit : record.bytes = taken ++ left) (hunread : r.unread = left ++ rest)
    (herrors : r.errors = []) (hzero : ZeroAtEnd record.data r.reads)
    (hnew : chunk = [] ↔ r.reads.flatten = record.data)
    (hended : [] ∈ r.reads ++ [chunk] → left = []) (call : CursorCall) :
    FollowsAt limits record rest taken left (r.delivered call chunk) := by
  obtain ⟨next, exacts, heq, hnext⟩ := delivered_eq r call chunk
  rw [heq]
  refine ⟨?_, hsplit, hunread, hnext, herrors, hzero.snoc hnew, hended⟩
  simpa using hcursor

/-- The call goes on without the stream: at the end of the record it returns zero. -/
theorem FollowsAt.turn (hwithin : record.Within limits)
    (h : FollowsAt limits record rest taken left r) (hcall : r.call = some call)
    (hstep : r.step .turn = some t) : FollowsAt limits record rest taken left t := by
  have hroom := h.room call hcall
  rcases h.cursor.poll_on_record call.wants hwithin h.input hroom with
    ⟨hdone, hdata⟩ | ⟨asked, hawait⟩
  · simp only [step, hcall, Option.bind_some, hdone, Option.some.injEq] at hstep
    obtain ⟨record', -, rfl, -⟩ := h.cursor.of_poll_done hdone
    obtain ⟨rfl, hrest⟩ := Record.bytes_append_inj h.input
    have hleft : left = [] := by
      have hlen := congrArg List.length hrest
      rw [List.length_append] at hlen
      exact List.eq_nil_of_length_eq_zero (by omega)
    rw [← hstep]
    refine FollowsAt.delivered ?_ h.split h.unread h.errors h.zero ?_ (fun _ => hleft) call
    · rw [List.append_nil]
      exact h.cursor
    · exact ⟨fun _ => hdata, fun _ => rfl⟩
  · simp only [step, hcall, Option.bind_some, hawait] at hstep
    cases hstep

/-- The stream answers the pending read with bytes of the record. -/
theorem FollowsAt.deliver {asked count : ℕ} (hwithin : record.Within limits)
    (h : FollowsAt limits record rest taken left r) (hcall : r.call = some call)
    (hawait : r.cursor.poll call.wants = .await asked) (hpos : 0 < count) (hle : count ≤ asked) :
    FollowsAt limits record rest (taken ++ left.take count) (left.drop count)
      (r.resume call count) := by
  have hroom := h.room call hcall
  -- The bytes asked for are bytes of the record, so there are some left.
  have hasked := h.cursor.await_le h.input hawait
  have hcount : count ≤ left.length := by
    rw [h.split, List.length_append] at hasked
    omega
  have htake : r.unread.take count = left.take count := by
    rw [h.unread, List.take_append_of_le_length hcount]
  have hdrop : r.unread.drop count = left.drop count ++ rest := by
    rw [h.unread, List.drop_append_of_le_length hcount]
  have hlen : (left.take count).length = count := by
    rw [List.length_take]
    omega
  have hne : left.take count ≠ [] := by
    rw [← List.length_pos_iff, hlen]
    exact hpos
  have hsplit : record.bytes = (taken ++ left.take count) ++ left.drop count := by
    rw [List.append_assoc, List.take_append_drop]
    exact h.split
  have hinput : record.bytes ++ rest = (taken ++ left.take count) ++ (left.drop count ++ rest) := by
    rw [hsplit, List.append_assoc]
  have hzero : [] ∉ r.reads := by
    intro hmem
    rw [h.ended hmem, List.length_nil] at hcount
    omega
  have hnext := h.cursor.resume_bytes hawait hne (by omega)
  unfold resume
  rw [htake]
  rcases hresume : r.cursor.resume (.bytes (left.take count)) with ⟨cursor, _ | got | error⟩
  · -- A part of a marker.
    simp only [hresume] at hnext ⊢
    exact ⟨hnext, hsplit, hdrop, h.room, h.errors, h.zero, fun hmem => absurd hmem hzero⟩
  · simp only [hresume] at hnext ⊢
    obtain ⟨rfl, -, hat⟩ := hnext
    refine FollowsAt.delivered (r := { r with cursor := cursor, unread := r.unread.drop count })
      hat hsplit hdrop h.errors h.zero ?_ ?_ call
    · -- Bytes were delivered, so the payload was not complete before.
      refine ⟨fun hnil => absurd hnil hne, fun hdata => ?_⟩
      have hprefix := (hat.payload_isPrefix hinput.symm).length_le
      have hdata' : r.reads.flatten.length = record.data.length := congrArg List.length hdata
      rw [List.length_append] at hprefix
      omega
    · intro hmem
      rcases List.mem_append.mp hmem with hold | hnew
      · exact absurd hold hzero
      · exact absurd (List.mem_singleton.mp hnew).symm hne
  · -- The record is within its limits.
    simp only [hresume] at hnext
    exact absurd hnext.2 (hwithin.not_limit hinput).1

/-- Every step follows the record. -/
theorem Follows.step {action : CursorAction} (hwithin : record.Within limits)
    (h : Follows limits record rest r) (hroom : action.HasRoom) (hstep : r.step action = some t) :
    Follows limits record rest t := by
  obtain ⟨taken, left, h⟩ := h
  rcases action with length | length | _ | count | _
  · simp only [CursorRun.step] at hstep
    split_ifs at hstep
    cases hstep
    refine ⟨taken, left, h.recall fun call hcall => ?_⟩
    cases hcall
    exact hroom
  · simp only [CursorRun.step] at hstep
    split_ifs at hstep with hsome hzero
    · exact absurd hzero hroom
    · cases hstep
      refine ⟨taken, left, h.recall fun call hcall => ?_⟩
      cases hcall
      exact hroom
  · rcases hcall : r.call with _ | call
    · simp [CursorRun.step, hcall] at hstep
    · exact ⟨taken, left, h.turn hwithin hcall hstep⟩
  · rcases hcall : r.call with _ | call
    · simp [CursorRun.step, hcall] at hstep
    · rcases hpoll : r.cursor.poll call.wants with _ | error | asked
      · simp [CursorRun.step, hcall, hpoll] at hstep
      · simp [CursorRun.step, hcall, hpoll] at hstep
      · simp only [CursorRun.step, hcall, Option.bind_some, hpoll] at hstep
        split_ifs at hstep with hcount
        cases hstep
        exact ⟨_, _, h.deliver hwithin hcall hpoll hcount.1 hcount.2.1⟩
  · rcases hcall : r.call with _ | call
    · simp [CursorRun.step, hcall] at hstep
    · rcases hpoll : r.cursor.poll call.wants with _ | error | asked
      · simp [CursorRun.step, hcall, hpoll] at hstep
      · simp [CursorRun.step, hcall, hpoll] at hstep
      · simp only [CursorRun.step, hcall, Option.bind_some, hpoll, Option.some.injEq] at hstep
        rw [← hstep]
        exact ⟨taken, left, h.recall nofun⟩

end CursorRun

/-! ## The completed reads deliver the record -/

/-- On a stream that starts with a record within the limits, whatever calls are made and dropped and
however the stream splits its bytes: no read fails, the completed reads deliver the payload in
order, a read returns zero exactly behind the whole payload, nothing behind the record is taken, and
a call in progress is decided or waits for bytes of the record. -/
theorem cursor_cancel_safety {limits : RecordLimits} {record : Record}
    (hwithin : record.Within limits) (rest : Bytes) {actions : List CursorAction} {r : CursorRun}
    (h : Trace CursorRun.step (fun _ action => action.HasRoom)
      (.start limits (record.bytes ++ rest)) actions r) :
    r.errors = [] ∧ r.reads.flatten <+: record.data ∧
    (∀ before chunk after, r.reads = before ++ chunk :: after →
      (chunk = [] ↔ before.flatten = record.data)) ∧
    ∃ taken left, record.bytes = taken ++ left ∧ r.unread = left ++ rest ∧
      ([] ∈ r.reads → left = []) ∧
      ∀ call, r.call = some call → r.cursor.poll call.wants = .done ∨
        ∃ asked, r.cursor.poll call.wants = .await asked ∧ 0 < asked ∧ asked ≤ left.length := by
  have hfollows : r.Follows limits record rest :=
    h.runs.invariant (CursorRun.Follows limits record rest)
      ⟨[], record.bytes, CursorRun.FollowsAt.start limits record rest⟩
      fun hu hroom hstep => hu.step hwithin hroom hstep
  obtain ⟨taken, left, hat⟩ := hfollows
  refine ⟨hat.errors, hat.cursor.payload_isPrefix hat.input.symm, hat.zero, taken, left, hat.split,
    hat.unread, hat.ended, fun call hcall => ?_⟩
  have hroom := hat.room call hcall
  rcases hat.cursor.poll_on_record call.wants hwithin hat.input hroom with
    ⟨hdone, -⟩ | ⟨asked, hawait⟩
  · exact .inl hdone
  · refine .inr ⟨asked, hawait, hat.cursor.await_pos hroom hawait, ?_⟩
    have hasked := hat.cursor.await_le hat.input hawait
    rw [hat.split, List.length_append] at hasked
    omega

/-- A record of two fragments. -/
def splitRecord : Record where
  more := [[1]]
  last := [2, 3]
  more_fits := by simp [FragmentFits]
  last_fits := by simp [FragmentFits]

/-- The first read is dropped inside the first marker; the later ones deliver everything. -/
theorem cursor_cancel_safety_marker :
    ∃ r, Trace CursorRun.step (fun _ action => action.HasRoom)
        (.start .default (splitRecord.bytes ++ [9]))
        [.readSome 8, .deliver 2, .cancel, .readExact 2, .deliver 2, .deliver 1, .deliver 4,
          .deliver 1, .readSome 8, .deliver 1, .readSome 8, .turn] r ∧
      r.errors = [] ∧ r.reads = [[1], [2], [3], []] ∧ r.unread = [9] := by
  obtain ⟨r, htrace, hview⟩ := @Trace.exists_of_runList _ _ CursorRun.step
    (fun _ action => action.HasRoom)
    (.start .default (splitRecord.bytes ++ [9]))
    (fun _ action => decide action.HasRoom)
    [.readSome 8, .deliver 2, .cancel, .readExact 2, .deliver 2, .deliver 1, .deliver 4,
      .deliver 1, .readSome 8, .deliver 1, .readSome 8, .turn] _ (fun r => r.reads)
    [[1], [2], [3], []] (fun _ _ => of_decide_eq_true) (by decide +kernel)
  obtain ⟨herrors, -, -, taken, left, -, hunread, hended, -⟩ :=
    cursor_cancel_safety ⟨by decide, by decide⟩ [9] htrace
  have hleft : left = [] := hended (by rw [hview]; decide)
  exact ⟨r, htrace, herrors, hview, by rw [hunread, hleft, List.nil_append]⟩

end OncRpc
