import OncRpc.Owned.Buffers
import OncRpc.Owned.Stages
import OncRpc.Record.Outcome

/-!
# The segmented receive of one record

`receiveSegmented` runs the segmented branch of `receive_record` on a stream, for a call that
nobody stops.  `RecordTask.Fed` says what the receive has taken from the stream and what its stage
amounts to; it is kept by every read, whatever its size and wherever the fragments end, if the
description of the stage is kept by every piece it is fed (`KeptByFeed`).
-/

namespace OncRpc

open Foundation Foundation.ReadProgram

/-! ## The receive of a whole record -/

/-- `receive_record` for a segmented call, without competing stops: the transaction id, then the
rest of the record. -/
inductive RecordTask (R : Type) where
  | xid (cursor : RecordReader) (got : Bytes) (target : Target R)
  | receiving (receive : Receive R)

namespace RecordTask

variable {R : Type} [ReplyReceiver R]

/-- Where the receive stands. -/
def poll : RecordTask R → Poll (Option (Except RuntimeError (RpcMessage × ℕ)))
  | .xid cursor got _ => cursor.awaitRead (4 - got.length) (.error (recordEof (4 - got.length)))
  | .receiving receive => receive.poll

/-- The stream answers the pending read. -/
def resume : RecordTask R → ReadResult IoError → RecordTask R
  | .xid cursor got target, result =>
    match cursor.resume result with
    | (cursor, .more) => .xid cursor got target
    | (cursor, .failed e) => .receiving ⟨cursor, .ended (.segmented target) (.error e)⟩
    | (cursor, .payload chunk) =>
      if 4 ≤ (got ++ chunk).length then .receiving
        (Receive.start cursor (got ++ chunk) (.segmented target))
      else .xid cursor (got ++ chunk) target
  | .receiving receive, result => .receiving (receive.resume result)

/-- The receive as a task. -/
def task : Task (RecordTask R) (Option (Except RuntimeError (RpcMessage × ℕ))) IoError :=
  ⟨poll, resume⟩

/-- The task waits where the receive does. -/
theorem task_poll (s : RecordTask R) : task.poll s = s.poll := rfl

/-- The target the receive owns. -/
def target : RecordTask R → Option (Target R)
  | .xid _ _ target => some target
  | .receiving receive =>
    match receive.stage.sender with
    | .segmented target => some target
    | .buffered => none

end RecordTask

/-- Receive one record into a segmented target: what the caller is told, and the target. -/
def receiveSegmented {R : Type} [ReplyReceiver R] (limits : RecordLimits) (target : Target R)
    (stream : Stream) : Option (Except RuntimeError RpcMessage × Target R) :=
  match RecordReader.new limits with
  | .error e => some (.error e, target)
  | .ok cursor =>
    let state := (RecordTask.task.drive (.xid cursor [] target) stream).1
    match state.poll, state.target with
    | .ready (some result), some target => some (segmentedResult result, target)
    | _, _ => none

/-! ## What a receive has taken -/

/-- The payload delivered is part of the bytes taken. -/
theorem CursorAt.payload_length_le {limits : RecordLimits} {r : RecordReader}
    {taken payload : Bytes} (h : CursorAt limits r taken payload) :
    payload.length ≤ limits.maxRecordBytes := by
  cases h with
  | boundary more marker hfits hmarker hcount hopen hbytes =>
    rw [Record.moreBytes_length] at hbytes
    omega
  | inside more last len got hfits hlength hgot hcount hbytes =>
    rw [Record.moreBytes_length] at hbytes
    rw [List.length_append]
    omega
  | finished record hr =>
    have hlen := record.bytes_length
    have hle := hr.2
    omega

/-- A cursor that lets a receive wait waits itself. -/
theorem RecordReader.poll_of_awaitRead {ρ : Type} {cursor : RecordReader} {wants count : ℕ}
    {atEnd : Except RuntimeError ρ} (h : cursor.awaitRead wants atEnd = .await count) :
    cursor.poll wants = .await count := by
  unfold RecordReader.awaitRead at h
  split at h
  · cases h
  · cases h
  · next n hpoll =>
    cases h
    exact hpoll

/-- A receive that waits has a pending read. -/
theorem Receive.pending_of_await {R : Type} {receive : Receive R} {count : ℕ}
    (h : receive.poll = .await count) :
    ∃ wants atEnd, receive.stage.pending = some (wants, atEnd) ∧
      receive.cursor.poll wants = .await count := by
  unfold Receive.poll at h
  split at h
  · next wants atEnd hpending => exact ⟨wants, atEnd, hpending, RecordReader.poll_of_awaitRead h⟩
  · cases h

/-- A description of stages, by the transaction id and the bytes behind it, that holds at the start
with a `Fresh` target and is kept by every piece. -/
structure KeptByFeed {R : Type} [ReplyReceiver R] (limits : RecordLimits) (Fresh : Target R → Prop)
    (Reads : Bytes → Bytes → Stage R → Prop) : Prop where
  start : ∀ {xid target}, xid.length = 4 → Fresh target →
    Reads xid [] (Stage.start xid (.segmented target))
  feed : ∀ {xid after chunk stage}, Reads xid after stage → xid.length = 4 → chunk ≠ [] →
    (xid ++ (after ++ chunk)).length ≤ limits.maxRecordBytes →
    (∀ wants atEnd, stage.pending = some (wants, atEnd) → chunk.length ≤ wants) →
    Reads xid (after ++ chunk) (stage.feed chunk)
  wants_ne_zero : ∀ {xid after stage wants atEnd}, Reads xid after stage →
    stage.pending = some (wants, atEnd) → wants ≠ 0

namespace RecordTask

variable {R : Type} [ReplyReceiver R]

/-- What the receive has taken from the stream, and what its stage amounts to. -/
def Fed (limits : RecordLimits) (Fresh : Target R → Prop)
    (Reads : Bytes → Bytes → Stage R → Prop) : RecordTask R → Bytes → Prop
  | .xid cursor got target, taken =>
    CursorAt limits cursor taken got ∧ got.length < 4 ∧ Fresh target
  | .receiving receive, taken =>
    (OverLimit limits taken ∧
      ∃ sender, receive.stage = .ended sender (.error recordLimitError)) ∨
    ∃ xid after, xid.length = 4 ∧ CursorAt limits receive.cursor taken (xid ++ after) ∧
      Reads xid after receive.stage

variable {limits : RecordLimits} {Fresh : Target R → Prop}
  {Reads : Bytes → Bytes → Stage R → Prop} {s : RecordTask R} {taken chunk : Bytes} {count : ℕ}

namespace Fed

omit [ReplyReceiver R] in
/-- A receive that waits has been fed what it took. -/
theorem of_await {receive : Receive R} (h : Fed limits Fresh Reads (.receiving receive) taken)
    (hp : receive.poll = .await count) :
    ∃ xid after, xid.length = 4 ∧ CursorAt limits receive.cursor taken (xid ++ after) ∧
      Reads xid after receive.stage := by
  obtain ⟨wants, atEnd, hpending, -⟩ := Receive.pending_of_await hp
  rcases h with ⟨-, sender, hended⟩ | hfed
  · rw [hended] at hpending
    cases hpending
  · exact hfed

/-- A read that is awaited asks for bytes. -/
theorem await_pos (hkept : KeptByFeed limits Fresh Reads) (h : Fed limits Fresh Reads s taken)
    (hp : s.poll = .await count) : 0 < count := by
  cases s with
  | xid cursor got target =>
    have hgot := h.2.1
    exact h.1.await_pos (by omega) (RecordReader.poll_of_awaitRead hp)
  | receiving receive =>
    obtain ⟨xid, after, -, hcursor, hreads⟩ := h.of_await hp
    obtain ⟨wants, atEnd, hpending, hawait⟩ := Receive.pending_of_await hp
    exact hcursor.await_pos (hkept.wants_ne_zero hreads hpending) hawait

/-- A receive that waits stands inside a record. -/
theorem truncated (h : Fed limits Fresh Reads s taken) (hp : s.poll = .await count) :
    Truncated taken := by
  cases s with
  | xid cursor got target => exact h.1.truncated (RecordReader.poll_of_awaitRead hp)
  | receiving receive =>
    obtain ⟨xid, after, -, hcursor, -⟩ := h.of_await hp
    obtain ⟨wants, atEnd, -, hawait⟩ := Receive.pending_of_await hp
    exact hcursor.truncated hawait

/-- Bytes of the transaction id. -/
theorem resume_xid (hkept : KeptByFeed limits Fresh Reads) {cursor : RecordReader} {got : Bytes}
    {target : Target R} (h : Fed limits Fresh Reads (.xid cursor got target) taken)
    (hp : (RecordTask.xid cursor got target).poll = .await count) (hne : chunk ≠ [])
    (hle : chunk.length ≤ count) :
    Fed limits Fresh Reads ((RecordTask.xid cursor got target).resume (.bytes chunk))
      (taken ++ chunk) := by
  obtain ⟨hcursor, h4, hfresh⟩ := h
  have hstep := hcursor.resume_bytes (RecordReader.poll_of_awaitRead hp) hne hle
  simp only [resume]
  split at hstep
  · next cursor' heq =>
    rw [heq]
    exact ⟨hstep, h4, hfresh⟩
  · next cursor' got' heq =>
    rw [heq]
    obtain ⟨rfl, hlen, hat⟩ := hstep
    simp only
    split_ifs with hfull
    · -- The transaction id is complete.
      have hxid : (got ++ got').length = 4 := by
        rw [List.length_append] at hfull ⊢
        omega
      rw [Receive.start_eq]
      exact .inr ⟨got ++ got', [], hxid, by rwa [List.append_nil], hkept.start hxid hfresh⟩
    · exact ⟨hat, by omega, hfresh⟩
  · next cursor' e heq =>
    rw [heq]
    obtain ⟨rfl, hover⟩ := hstep
    exact .inl ⟨hover, _, rfl⟩

/-- Bytes of the rest of the record. -/
theorem resume_receiving (hkept : KeptByFeed limits Fresh Reads) {receive : Receive R}
    (h : Fed limits Fresh Reads (.receiving receive) taken) (hp : receive.poll = .await count)
    (hne : chunk ≠ []) (hle : chunk.length ≤ count) :
    Fed limits Fresh Reads (.receiving (receive.resume (.bytes chunk))) (taken ++ chunk) := by
  obtain ⟨xid, after, h4, hcursor, hreads⟩ := h.of_await hp
  obtain ⟨wants, atEnd, hpending, hawait⟩ := Receive.pending_of_await hp
  have hstep := hcursor.resume_bytes hawait hne hle
  unfold Receive.resume
  split at hstep
  · next cursor' heq =>
    rw [heq]
    exact .inr ⟨xid, after, h4, hstep, hreads⟩
  · next cursor' got heq =>
    rw [heq]
    obtain ⟨rfl, hlen, hat⟩ := hstep
    rw [List.append_assoc] at hat
    refine .inr ⟨xid, after ++ got, h4, hat, ?_⟩
    refine hkept.feed hreads h4 hne hat.payload_length_le fun wants' atEnd' hpending' => ?_
    rw [hpending] at hpending'
    cases hpending'
    exact hlen
  · next cursor' e heq =>
    rw [heq]
    obtain ⟨rfl, hover⟩ := hstep
    exact .inl ⟨hover, _, rfl⟩

/-- Bytes of the stream keep what the receive has taken. -/
theorem resume_bytes (hkept : KeptByFeed limits Fresh Reads) (h : Fed limits Fresh Reads s taken)
    (hp : s.poll = .await count) (hne : chunk ≠ []) (hle : chunk.length ≤ count) :
    Fed limits Fresh Reads (s.resume (.bytes chunk)) (taken ++ chunk) := by
  cases s with
  | xid cursor got target => exact h.resume_xid hkept hp hne hle
  | receiving receive => exact h.resume_receiving hkept hp hne hle

/-- A receive of a complete record comes to an end, whatever the sizes of the reads. -/
theorem drive (hkept : KeptByFeed limits Fresh Reads) {target : Target R} (hfresh : Fresh target)
    (record : Record) (rest : Bytes) (sizes : List ℕ) :
    ∃ result taken,
      (task.drive (.xid (.start limits) [] target) ⟨record.bytes ++ rest, sizes⟩).1.poll =
        .ready result ∧
      record.bytes ++ rest =
        taken ++ (task.drive (.xid (.start limits) [] target)
          ⟨record.bytes ++ rest, sizes⟩).2.bytes ∧
      Fed limits Fresh Reads
        (task.drive (.xid (.start limits) [] target) ⟨record.bytes ++ rest, sizes⟩).1 taken := by
  have hstart : Fed limits Fresh Reads (.xid (.start limits) [] target) [] :=
    ⟨CursorAt.start limits, by decide, hfresh⟩
  have hcount {s : RecordTask R} {taken : Bytes} {count : ℕ} (h : Fed limits Fresh Reads s taken)
      (hp : task.poll s = .await count) : 0 < count := h.await_pos hkept hp
  have hstep {s : RecordTask R} {taken chunk : Bytes} {count : ℕ}
      (h : Fed limits Fresh Reads s taken) (hp : task.poll s = .await count) (hne : chunk ≠ [])
      (hle : chunk.length ≤ count) :
      Fed limits Fresh Reads (task.resume s (.bytes chunk)) (taken ++ chunk) :=
    h.resume_bytes hkept hp hne hle
  obtain ⟨taken, hinput, hend⟩ := @Task.drive_spec _ _ _ task (Fed limits Fresh Reads) hcount hstep
    _ _ hstart ⟨record.bytes ++ rest, sizes⟩
  rw [List.nil_append] at hinput
  rcases hend with ⟨result, hready, hfed⟩ | ⟨s, count, hfed, hawait, -, hleft⟩
  · exact ⟨result, taken, hready, hinput, hfed⟩
  · -- The stream cannot end inside a complete record.
    rw [hleft, List.append_nil] at hinput
    have htruncated : Truncated taken := hfed.truncated hawait
    rw [← hinput] at htruncated
    exact htruncated.ne_record.elim

end Fed

end RecordTask

/-! ## The caller's buffers -/

/-- The target after `placed` has been received. -/
structure TargetAt (init : List Bytes) (placed : Bytes) (target : Target Buffers) : Prop where
  payloadLen : target.payloadLen = placed.length
  receiver : BuffersAt init placed target.receiver

section TargetAt

variable {init : List Bytes} {placed chunk : Bytes} {target : Target Buffers} {room : ℕ}

/-- Asking for a range leaves what was placed; without room everything is filled. -/
theorem Supplies.targetAt (h : Supplies (TargetAt init) placed target room) :
    TargetAt init placed target ∧
      (room = 0 ∧ placed.length = init.flatten.length ∨
        0 < room ∧ target.receiver.index < target.receiver.buffers.length ∧
          target.receiver.offset + room = target.receiver.current.length) := by
  obtain ⟨before, ht, hbefore⟩ := h
  obtain ⟨b', room', hbuffer, hat, hroom⟩ := ht.receiver.buffer
  have hsupplied : before.buffer = (⟨b', before.payloadLen⟩, .ok room') := by
    unfold Target.buffer
    rw [show ReplyReceiver.buffer before.receiver = before.receiver.buffer from rfl, hbuffer]
  rw [hsupplied] at hbefore
  cases hbefore
  exact ⟨⟨ht.payloadLen, hat⟩, hroom⟩

/-- A target without room holds what was placed. -/
theorem NoRoom.targetAt {reply : RpcMessage} (h : NoRoom (TargetAt init) reply placed target) :
    TargetAt init placed target ∧
      if reply.isSuccess then placed.length = init.flatten.length else placed = [] := by
  unfold NoRoom at h
  split_ifs at h ⊢ with hs
  · obtain ⟨ht, ⟨-, hfull⟩ | ⟨hpos, -⟩⟩ := h.targetAt
    · exact ⟨ht, hfull⟩
    · exact absurd hpos (lt_irrefl 0)
  · obtain ⟨rfl, ht⟩ := h
    exact ⟨ht, rfl⟩

/-- The caller's buffers take every piece that fits the range they supplied. -/
theorem tracks_targetAt (init : List Bytes) : Tracks False (TargetAt init) where
  counted h := .inr h.payloadLen
  advance := by
    intro placed chunk target target' room hsupplies hne hle hadvance
    have hpos : 0 < chunk.length := List.length_pos_iff.mpr hne
    obtain ⟨ht, ⟨rfl, -⟩ | ⟨-, hlt, hoffset⟩⟩ := hsupplies.targetAt
    · omega
    have hfill := ht.receiver.fill chunk hlt (by omega)
    unfold Target.advance at hadvance
    split at hadvance
    · cases hadvance
    · next total hadd =>
      have htotal : total = target.payloadLen + chunk.length := (checkedAdd_eq_some.mp hadd).1
      cases hadvance
      refine ⟨?_, hfill⟩
      rw [List.length_append, ← ht.payloadLen]
      exact htotal

/-- The caller's buffers refuse nothing. -/
theorem Stage.feedFails_buffers (stage : Stage Buffers) (chunk : Bytes) :
    stage.feedFails chunk = false := by
  have hrange : ∀ target : Target Buffers, rangeFails target = false := by
    intro target
    obtain ⟨room, hroom⟩ : ∃ room, target.receiver.buffer.2 = .ok room := by
      unfold Buffers.buffer
      dsimp only
      split_ifs
      · exact ⟨_, rfl⟩
      · exact ⟨_, rfl⟩
    unfold rangeFails
    rw [show target.buffer.2 = .ok room from hroom]
  cases stage with
  | header target count next got =>
    simp only [feedFails, hrange]
    split
    · exact Bool.and_false _
    · rfl
  | payload target reply length room => exact hrange _
  | assemble | probe | extra | ended | panicked => rfl

/-- What a segmented receive into the caller's buffers amounts to is kept by every piece. -/
theorem keptByFeed_targetAt (limits : RecordLimits) (init : List Bytes) :
    KeptByFeed limits (TargetAt init []) fun xid after stage =>
      StageReads False (TargetAt init) xid after stage ∧ stage.sender.isBuffered = false where
  start h4 ht := by
    refine ⟨StageReads.start h4 ?_, Stage.ofProgram_isBuffered _ _⟩
    rintro target ⟨⟩
    exact ht
  feed h h4 hne hle hfit := by
    refine ⟨h.1.feed (tracks_targetAt init) h4 hne (hle.trans limits.bytes_le) hfit
      (.inr (Stage.feedFails_buffers _ _)), ?_⟩
    rw [Stage.feed_isBuffered]
    exact h.2
  wants_ne_zero h := h.1.wants_ne_zero

end TargetAt

end OncRpc
