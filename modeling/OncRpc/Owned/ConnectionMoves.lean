import OncRpc.Owned.CallMoves
import OncRpc.Owned.Connection

/-!
# What a step of a connection can do

`Conn.Moves` lists the steps of a connection by party, with the state each leads to;
`Conn.moves_of_step` says that there are no others.  The frame lemmas at the start say what the
shared operations leave alone.
-/

namespace OncRpc

open Foundation

variable {R : Type}

namespace Conn

variable {cfg : Config} {s s' : Conn R}

/-! ## Frames -/

section Fail

variable (s) (party : Party) (error : RuntimeError)

/-- Failing a closed connection does nothing. -/
theorem fail_of_closed {error' : RuntimeError} (h : s.closed = some error') :
    s.fail party error = s := by
  simp [fail, h]

/-- Failing an open connection takes its entries. -/
theorem fail_of_open (h : s.closed = none) :
    s.fail party error =
      { s with closed := some error, job := some ⟨party, error, s.pending⟩, pending := ∅ } := by
  simp [fail, h]

/-- A failure leaves the calls. -/
@[simp] theorem fail_calls : (s.fail party error).calls = s.calls := by
  unfold fail
  split_ifs <;> rfl

/-- A failure leaves the number of calls created. -/
@[simp] theorem fail_created : (s.fail party error).created = s.created := by
  unfold fail
  split_ifs <;> rfl

/-- A failure leaves the writer. -/
@[simp] theorem fail_writer : (s.fail party error).writer = s.writer := by
  unfold fail
  split_ifs <;> rfl

/-- A failure leaves the lock of the writer. -/
@[simp] theorem fail_lock : (s.fail party error).lock = s.lock := by
  unfold fail
  split_ifs <;> rfl

/-- A failure leaves what was written. -/
@[simp] theorem fail_writes : (s.fail party error).writes = s.writes := by
  unfold fail
  split_ifs <;> rfl

/-- A failure leaves the reader's phase. -/
@[simp] theorem fail_reader : (s.fail party error).reader = s.reader := by
  unfold fail
  split_ifs <;> rfl

/-- A failure leaves whether the reader was polled. -/
@[simp] theorem fail_polled : (s.fail party error).polled = s.polled := by
  unfold fail
  split_ifs <;> rfl

/-- A failure leaves what the reader consumed. -/
@[simp] theorem fail_consumed : (s.fail party error).consumed = s.consumed := by
  unfold fail
  split_ifs <;> rfl

/-- A failure leaves the closers. -/
@[simp] theorem fail_closers : (s.fail party error).closers = s.closers := by
  unfold fail
  split_ifs <;> rfl

/-- A failure leaves the abort handle. -/
@[simp] theorem fail_abort : (s.fail party error).abort = s.abort := by
  unfold fail
  split_ifs <;> rfl

/-- A failure leaves whether the reader has let go of its half. -/
@[simp] theorem fail_released : (s.fail party error).released = s.released := by
  unfold fail
  split_ifs <;> rfl

/-- A failed connection is closed. -/
theorem fail_closed_isSome : (s.fail party error).closed.isSome = true := by
  unfold fail
  split_ifs with h
  · exact h
  · rfl

end Fail

section Apply

variable (s) (id : ℕ) (effect : Effect)

/-- An effect of a call leaves the other calls' phases. -/
@[simp] theorem apply_calls : (s.apply id effect).calls = s.calls := by
  cases effect <;> simp [apply]

/-- An effect of a call leaves the number of calls created. -/
@[simp] theorem apply_created : (s.apply id effect).created = s.created := by
  cases effect <;> simp [apply]

/-- An effect of a call leaves the reader's phase. -/
@[simp] theorem apply_reader : (s.apply id effect).reader = s.reader := by
  cases effect <;> simp [apply]

/-- An effect of a call leaves whether the reader was polled. -/
@[simp] theorem apply_polled : (s.apply id effect).polled = s.polled := by
  cases effect <;> simp [apply]

/-- An effect of a call leaves what the reader consumed. -/
@[simp] theorem apply_consumed : (s.apply id effect).consumed = s.consumed := by
  cases effect <;> simp [apply]

/-- An effect of a call leaves the closers. -/
@[simp] theorem apply_closers : (s.apply id effect).closers = s.closers := by
  cases effect <;> simp [apply]

/-- An effect of a call leaves whether the reader has let go of its half. -/
@[simp] theorem apply_released : (s.apply id effect).released = s.released := by
  cases effect <;> simp [apply]

end Apply

section Reader

variable (s)

/-- The cleanup changes nothing but the registry. -/
theorem cleanup_eq (token : Option ℕ) (xid : Xid) :
    s.cleanup token xid = { s with pending := (s.cleanup token xid).pending } := by
  unfold cleanup
  split
  · split_ifs <;> rfl
  · rfl

/-- The cleanup erases the entry of the transaction id, or nothing. -/
theorem cleanup_pending (token : Option ℕ) (xid : Xid) :
    (s.cleanup token xid).pending = s.pending ∨
      (s.cleanup token xid).pending = s.pending.erase xid := by
  unfold cleanup
  split
  · split_ifs
    · exact .inr rfl
    · exact .inl rfl
  · exact .inl rfl

/-- The call that loses its sender. -/
def dropped (token : ℕ) : ResponseSender R → Call R
  | .buffered => { s.calls token with senderGone := true }
  | .segmented target => (s.calls token).answer (.segmented target) (.error .connectionClosed)

/-- Dropping the sender of a call changes nothing but that call. -/
theorem dropSender_eq (token : ℕ) (sender : ResponseSender R) :
    s.dropSender token sender =
      { s with calls := Function.update s.calls token (s.dropped token sender) } := by
  cases sender <;> rfl

end Reader

/-! ## The terminal decision -/

/-- The decision on a stopped call. -/
theorem decide_of_stopped {token : ℕ} {error : RuntimeError}
    (h : (s.calls token).control.terminal = some (.error error)) (xid : Xid) (receive : Receive R)
    (received : Except RuntimeError (RpcMessage × ℕ)) :
    s.decide token xid receive received =
      { s with
        calls := Function.update s.calls token
          { s.calls token with
            sent := (s.calls token).sent ++ [receive.stage.sender.reply (.error error)] }
        reader := .draining (some token) xid receive.cursor } := by
  have herror : (s.calls token).control.error = some error := CallControl.error_eq_some.mpr h
  simp only [decide, Call.answer, CallControl.finish_of_error h, herror,
    Option.isSome_some, if_true]

/-- The decision on any other call. -/
theorem decide_of_not_stopped {token : ℕ} (h : (s.calls token).control.error = none) (xid : Xid)
    (receive : Receive R) (received : Except RuntimeError (RpcMessage × ℕ)) :
    s.decide token xid receive received =
      { s with
        calls := Function.update s.calls token
          { s.calls token with
            control := ⟨some (.ok ())⟩
            sent := (s.calls token).sent ++ [receive.stage.sender.reply received] }
        reader := .cleanup (some token) xid (received.map fun _ => ()) } := by
  have herror : CallControl.error ⟨some (.ok ())⟩ = none := rfl
  simp only [decide, Call.answer, CallControl.finish_of_not_error h, herror, Option.isSome_none,
    Bool.false_eq_true, if_false]

/-! ## The reader -/

variable [ReplyReceiver R]

/-- The reads of the reader. -/
inductive ReadMoves (result : ReadResult IoError) : ReaderPhase R → ReaderPhase R → Prop
  | xid {cursor : RecordReader} {got : Bytes} {count : ℕ}
    (hpoll : cursor.poll (4 - got.length) = .await count) (hanswers : answers count result = true) :
    ReadMoves result (.xid cursor got) (xidPhase got (cursor.resume result))
  | receiving {token : ℕ} {xid : Xid} {receive : Receive R} {count : ℕ}
    (hpoll : receive.poll = .await count) (hanswers : answers count result = true) :
    ReadMoves result (.receiving token xid receive) (.receiving token xid (receive.resume result))
  | draining {token : Option ℕ} {xid : Xid} {cursor : RecordReader} {count : ℕ}
    (hpoll : cursor.poll 4096 = .await count) (hanswers : answers count result = true) :
    ReadMoves result (.draining token xid cursor) (drainPhase token xid (cursor.resume result))

/-- What a read does to the reader's phase is one of the moves of a read. -/
theorem readMoves_of_readPhase {result : ReadResult IoError} {phase phase' : ReaderPhase R}
    (h : readPhase result phase = some phase') : ReadMoves result phase phase' := by
  unfold readPhase at h
  split at h
  · split at h
    · next hpoll =>
      split_ifs at h with hanswers
      cases h
      exact .xid hpoll hanswers
    · cases h
  · split at h
    · next hpoll =>
      split_ifs at h with hanswers
      cases h
      exact .receiving hpoll hanswers
    · cases h
  · split at h
    · next hpoll =>
      split_ifs at h with hanswers
      cases h
      exact .draining hpoll hanswers
    · cases h
  · cases h

/-- The reader stops reading the transaction id of a record. -/
def XidFails (cursor : RecordReader) (got : Bytes) (error : RuntimeError) : Prop :=
  cursor.poll (4 - got.length) = .failed error ∨
    cursor.poll (4 - got.length) = .done ∧ error = recordEof (4 - got.length)

/-- How draining a record ends. -/
def Drained (cursor : RecordReader) (result : Except RuntimeError Unit) : Prop :=
  cursor.poll 4096 = .done ∧ result = .ok () ∨
    ∃ error, cursor.poll 4096 = .failed error ∧ result = .error error

/-- The reader comes to the decision on a call that was stopped, or notices the stop. -/
def Decides (receive : Receive R) (action : Action R) : Prop :=
  (action = .turn ∧ ∃ received, receive.poll = .ready (some received)) ∨
    (action = .noticeStop ∧ ∃ count, receive.poll = .await count)

/-- The reader is dropped with the sender it holds. -/
def Unwinds (receive : Receive R) (action : Action R) : Prop :=
  (action = .turn ∧ receive.poll = .ready none) ∨
    (action = .aborted ∧ ∃ count, receive.poll = .await count)

/-- A phase the reader can be aborted in while it has its exit guard and holds no sender. -/
def Abortable (polled : Bool) : ReaderPhase R → Prop
  | .xid .. => polled = true
  | .draining .. | .retiring => True
  | _ => False

/-- The phase after the cleanup. -/
def afterCleanup (cfg : Config) : Except RuntimeError Unit → ReaderPhase R
  | .ok () => .nextRecord cfg
  | .error error => .failing error

/-- The steps of the reader. -/
inductive ReaderMoves (cfg : Config) (s : Conn R) : Action R → Conn R → Prop
  | read {result : ReadResult IoError} {phase : ReaderPhase R}
    (h : ReadMoves result s.reader phase) :
    ReaderMoves cfg s (.read result)
      { s with reader := phase, polled := true, consumed := s.consumed ++ taken result }
  | xidFails {cursor : RecordReader} {got : Bytes} {error : RuntimeError}
    (hreader : s.reader = .xid cursor got) (hfails : XidFails cursor got error)
    (hpolled : s.polled = true) :
    ReaderMoves cfg s .turn { s with reader := .failing error }
  | orphan {cursor : RecordReader} {xid : Bytes} (hreader : s.reader = .lookup cursor xid)
    (hreleased : s.released = true) :
    ReaderMoves cfg s .turn { s with reader := .failing .connectionClosed }
  | take {cursor : RecordReader} {xid : Bytes} {token : ℕ} {sender : ResponseSender R}
    (hreader : s.reader = .lookup cursor xid) (hreleased : s.released = false)
    (hentry : s.pending.lookup (wordOf xid) = some ⟨token, some sender⟩) :
    ReaderMoves cfg s .turn
      { s with
        pending := s.pending.insert (wordOf xid) ⟨token, none⟩
        reader := .receiving token (wordOf xid) (.start cursor xid sender) }
  | taken {cursor : RecordReader} {xid : Bytes} {token : ℕ}
    (hreader : s.reader = .lookup cursor xid) (hreleased : s.released = false)
    (hentry : s.pending.lookup (wordOf xid) = some ⟨token, none⟩) :
    ReaderMoves cfg s .turn { s with reader := .draining (some token) (wordOf xid) cursor }
  | unregistered {cursor : RecordReader} {xid : Bytes} (hreader : s.reader = .lookup cursor xid)
    (hreleased : s.released = false) (hentry : s.pending.lookup (wordOf xid) = none) :
    ReaderMoves cfg s .turn { s with reader := .draining none (wordOf xid) cursor }
  | answer {token : ℕ} {xid : Xid} {receive : Receive R}
    {received : Except RuntimeError (RpcMessage × ℕ)}
    (hreader : s.reader = .receiving token xid receive)
    (hpoll : receive.poll = .ready (some received))
    (hcontrol : (s.calls token).control.error = none) :
    ReaderMoves cfg s .turn
      { s with
        calls := Function.update s.calls token
          { s.calls token with
            control := ⟨some (.ok ())⟩
            sent := (s.calls token).sent ++ [receive.stage.sender.reply received] }
        reader := .cleanup (some token) xid (received.map fun _ => ()) }
  | stopped {token : ℕ} {xid : Xid} {receive : Receive R} {error : RuntimeError}
    {action : Action R} (hreader : s.reader = .receiving token xid receive)
    (hcontrol : (s.calls token).control.terminal = some (.error error))
    (haction : Decides receive action) :
    ReaderMoves cfg s action
      { s with
        calls := Function.update s.calls token
          { s.calls token with
            sent := (s.calls token).sent ++ [receive.stage.sender.reply (.error error)] }
        reader := .draining (some token) xid receive.cursor }
  | unwind {token : ℕ} {xid : Xid} {receive : Receive R} {action : Action R}
    (hreader : s.reader = .receiving token xid receive) (haction : Unwinds receive action)
    (habort : action = .aborted → s.abort = true) :
    ReaderMoves cfg s action { s.dropSender token receive.stage.sender with reader := .exiting }
  | drained {token : Option ℕ} {xid : Xid} {cursor : RecordReader}
    {result : Except RuntimeError Unit} (hreader : s.reader = .draining token xid cursor)
    (hresult : Drained cursor result) :
    ReaderMoves cfg s .turn { s with reader := .cleanup token xid result }
  | cleanup {token : Option ℕ} {xid : Xid} {result : Except RuntimeError Unit}
    (hreader : s.reader = .cleanup token xid result) :
    ReaderMoves cfg s .turn { s.cleanup token xid with reader := afterCleanup cfg result }
  | orphanFails {error : RuntimeError} (hreader : s.reader = .failing error)
    (hreleased : s.released = true) : ReaderMoves cfg s .turn { s with reader := .exiting }
  | fail {error : RuntimeError} (hreader : s.reader = .failing error)
    (hreleased : s.released = false) :
    ReaderMoves cfg s .turn { s.fail .reader error with reader := .retiring }
  | retire (hreader : s.reader = .retiring) (hlock : s.lock = none) :
    ReaderMoves cfg s .turn { s with writer := false, reader := .exiting }
  | orphanExits (hreader : s.reader = .exiting) (hreleased : s.released = true) :
    ReaderMoves cfg s .turn { s with reader := .exited }
  | exit (hreader : s.reader = .exiting) (hreleased : s.released = false) :
    ReaderMoves cfg s .turn { s.fail .reader .connectionClosed with reader := .exitTake }
  | exitTake (hreader : s.reader = .exitTake) :
    ReaderMoves cfg s .turn { s with writer := s.writer && s.lock.isSome, reader := .exited }
  | abort (habort : s.abort = true) (hphase : Abortable s.polled s.reader) :
    ReaderMoves cfg s .aborted { s with reader := .exiting }
  | discard {cursor : RecordReader} {got : Bytes} (habort : s.abort = true)
    (hreader : s.reader = .xid cursor got) (hpolled : s.polled = false) :
    ReaderMoves cfg s .aborted { s with reader := .exited }

/-- Finishing a receive is one of the reader's moves. -/
theorem ReaderMoves.of_decide {token : ℕ} {xid : Xid} {receive : Receive R}
    {received : Except RuntimeError (RpcMessage × ℕ)}
    (hreader : s.reader = .receiving token xid receive)
    (hpoll : receive.poll = .ready (some received)) :
    ReaderMoves cfg s .turn (s.decide token xid receive received) := by
  cases h : (s.calls token).control.error with
  | none =>
    rw [decide_of_not_stopped h]
    exact .answer hreader hpoll h
  | some error =>
    have hterminal := CallControl.error_eq_some.mp h
    rw [decide_of_stopped hterminal]
    exact .stopped hreader hterminal (.inl ⟨rfl, received, hpoll⟩)

/-- Looking a transaction up is one of the reader's moves. -/
theorem ReaderMoves.of_lookup {cursor : RecordReader} {xid : Bytes}
    (hreader : s.reader = .lookup cursor xid) (hreleased : s.released = false) :
    ReaderMoves cfg s .turn (s.lookup cursor xid) := by
  unfold Conn.lookup
  simp only
  split
  · next token sender hentry => exact .take hreader hreleased hentry
  · next token hentry => exact .taken hreader hreleased hentry
  · next hentry => exact .unregistered hreader hreleased hentry

/-- The reader takes no step of its own in the loop of a failure. -/
theorem not_busy_of_turn (h : s.turn cfg = some s') : ¬ s.busy .reader = true := by
  intro hbusy
  simp [turn, hbusy] at h

/-- A step the reader takes on its own is one of the listed ones. -/
theorem readerMoves_of_turn (h : s.turn cfg = some s') : ReaderMoves cfg s .turn s' := by
  have hbusy := not_busy_of_turn h
  unfold turn at h
  rw [if_neg hbusy] at h
  split at h
  · next cursor got hreader =>
    split at h
    · cases h
    next hguard =>
    have hpolled : s.polled = true := by simpa using hguard
    split at h
    · next hpoll =>
      cases h
      exact .xidFails hreader (.inr ⟨hpoll, rfl⟩) hpolled
    · next error hpoll =>
      cases h
      exact .xidFails hreader (.inl hpoll) hpolled
    · cases h
  · next cursor xid hreader =>
    split_ifs at h with hreleased
    · cases h
      exact .orphan hreader hreleased
    · cases h
      exact .of_lookup hreader (by simpa using hreleased)
  · next token xid receive hreader =>
    split at h
    · next received hpoll =>
      cases h
      exact .of_decide hreader hpoll
    · next hpoll =>
      cases h
      exact .unwind hreader (.inl ⟨rfl, hpoll⟩) nofun
    · cases h
  · next token xid cursor hreader =>
    split at h
    · next hpoll =>
      cases h
      exact .drained hreader (.inl ⟨hpoll, rfl⟩)
    · next error hpoll =>
      cases h
      exact .drained hreader (.inr ⟨error, hpoll, rfl⟩)
    · cases h
  · next token xid result hreader =>
    cases h
    exact .cleanup hreader
  · next error hreader =>
    split_ifs at h with hreleased
    · cases h
      exact .orphanFails hreader hreleased
    · cases h
      exact .fail hreader (by simpa using hreleased)
  · next hreader =>
    split_ifs at h with hlock
    cases h
    exact .retire hreader (by simpa using hlock)
  · next hreader =>
    split_ifs at h with hreleased
    · cases h
      exact .orphanExits hreader hreleased
    · cases h
      exact .exit hreader (by simpa using hreleased)
  · next hreader =>
    cases h
    exact .exitTake hreader
  · cases h

/-- Noticing the stop is one of the reader's moves. -/
theorem readerMoves_of_noticeStop (h : s.noticeStop = some s') :
    ReaderMoves cfg s .noticeStop s' := by
  unfold noticeStop at h
  split at h
  · next token xid receive hreader =>
    split at h
    · next count hpoll =>
      obtain ⟨error, herror, rfl⟩ := Option.map_eq_some_iff.mp h
      have hterminal := CallControl.error_eq_some.mp herror
      rw [decide_of_stopped hterminal]
      exact .stopped hreader hterminal (.inr ⟨rfl, count, hpoll⟩)
    · cases h
  · cases h

/-- Being aborted is one of the reader's moves. -/
theorem readerMoves_of_aborted (h : s.aborted = some s') : ReaderMoves cfg s .aborted s' := by
  unfold aborted at h
  split at h
  · cases h
  next hguard =>
  have habort : s.abort = true := by
    by_contra hno
    exact hguard (.inl (by simpa using hno))
  split at h
  · next cursor got hreader =>
    split at h
    · cases h
      split_ifs with hpolled
      · exact .abort habort (by rw [hreader]; exact hpolled)
      · exact .discard habort hreader (by simpa using hpolled)
    · cases h
  · next token xid receive hreader =>
    split at h
    · next count hpoll =>
      cases h
      exact .unwind hreader (.inr ⟨rfl, count, hpoll⟩) fun _ => habort
    · cases h
  · next token xid cursor hreader =>
    split at h
    · cases h
      exact .abort habort (by rw [hreader]; trivial)
    · cases h
  · next hreader =>
    cases h
    exact .abort habort (by rw [hreader]; trivial)
  · cases h

/-! ## All parties -/

/-- The steps of a connection. -/
inductive Moves (cfg : Config) (s : Conn R) : Action R → Conn R → Prop
  | admitCall {request : Request R} {options : CallOptions} {xid : Xid} {segments : List Bytes}
    {sender : ResponseSender R} (hreleased : s.released = false)
    (hprepare : request.prepare cfg = .ok (xid, segments, sender)) :
    Moves cfg s (.admitCall request options)
      { s with
        calls := Function.update s.calls s.created
          { Call.absent with
            xid := xid, segments := segments, sender := sender, options := options,
            phase := .admitted }
        created := s.created + 1 }
  | call {id : ℕ} {action : CallAction} {call : Call R} {effect : Effect}
    (hbusy : s.busy (.call id) = false)
    (h : Call.Moves cfg (s.view id) id (s.calls id) action call effect) :
    Moves cfg s (.call id action)
      { s.apply id effect with calls := Function.update s.calls id call }
  | poll (habort : s.abort = false) : Moves cfg s .poll { s with polled := true }
  | reader {action : Action R} {s' : Conn R} (hbusy : s.busy .reader = false ∨ action = .noticeStop)
    (h : ReaderMoves cfg s action s') : Moves cfg s action s'
  | failNext {job : FailJob R} {xid : Xid} {entry : Pending R} (hjob : s.job = some job)
    (hentry : job.remaining.lookup xid = some entry) :
    Moves cfg s (.failNext xid)
      { s with
        calls := Function.update s.calls entry.token
          (failCall (s.calls entry.token) job.error entry.sender)
        job := some { job with remaining := job.remaining.erase xid } }
  | failDone {job : FailJob R} (hjob : s.job = some job) (hempty : job.remaining.entries = []) :
    Moves cfg s .failDone { s with job := none }
  | close (hreleased : s.released = false) :
    Moves cfg s .close
      { s.fail (.closer s.closers.length) .connectionClosed with closers := s.closers ++ [.abort] }
  | closeAbort {id : ℕ} (hcloser : s.closers[id]? = some .abort) :
    Moves cfg s (.closer id) { s with abort := true, closers := s.closers.set id .take }
  | closeTake {id : ℕ} (hcloser : s.closers[id]? = some .take) :
    Moves cfg s (.closer id)
      { s with writer := s.writer && s.lock.isSome, closers := s.closers.set id .done }
  | release (hreleased : s.released = false) (hunowned : s.unowned = true) :
    Moves cfg s .release { s with released := true, abort := true }

/-- A step of a connection is one of the listed ones. -/
theorem moves_of_step {action : Action R} (h : step cfg s action = some s') :
    Moves cfg s action s' := by
  cases action with
  | admitCall request options =>
    simp only [step, Conn.admitCall] at h
    split_ifs at h with hreleased
    split at h
    · cases h
    · next xid segments sender hprepare =>
      cases h
      exact .admitCall (by simpa using hreleased) hprepare
  | call id action =>
    simp only [step, callStep] at h
    split_ifs at h with hbusy
    obtain ⟨⟨call, effect⟩, hstep, rfl⟩ := Option.map_eq_some_iff.mp h
    exact .call (by simpa using hbusy) (Call.moves_of_step hstep)
  | poll =>
    simp only [step, Conn.poll] at h
    split_ifs at h with hguard
    cases h
    rw [Bool.or_eq_true, not_or, Bool.not_eq_true, Bool.not_eq_true] at hguard
    exact .poll hguard.1
  | read result =>
    simp only [step, Conn.read] at h
    split_ifs at h with hguard
    rw [Bool.or_eq_true, not_or, Bool.not_eq_true] at hguard
    obtain ⟨phase, hphase, rfl⟩ := Option.map_eq_some_iff.mp h
    exact .reader (.inl hguard.1) (.read (readMoves_of_readPhase hphase))
  | turn =>
    exact .reader (.inl (by simpa using not_busy_of_turn h)) (readerMoves_of_turn h)
  | noticeStop => exact .reader (.inr rfl) (readerMoves_of_noticeStop h)
  | aborted =>
    refine .reader (.inl ?_) (readerMoves_of_aborted h)
    by_contra hbusy
    rw [Bool.not_eq_false] at hbusy
    simp [step, aborted, hbusy] at h
  | failNext xid =>
    obtain ⟨job, hjob, hrest⟩ := Option.bind_eq_some_iff.mp h
    obtain ⟨entry, hentry, rfl⟩ := Option.map_eq_some_iff.mp hrest
    exact .failNext hjob hentry
  | failDone =>
    obtain ⟨job, hjob, hrest⟩ := Option.bind_eq_some_iff.mp h
    split_ifs at hrest with hempty
    cases hrest
    exact .failDone hjob (by simpa using hempty)
  | close =>
    simp only [step, Conn.close] at h
    split_ifs at h with hreleased
    cases h
    exact .close (by simpa using hreleased)
  | closer id =>
    simp only [step, closerStep] at h
    split_ifs at h with hbusy
    split at h
    · next hcloser =>
      cases h
      exact .closeAbort hcloser
    · next hcloser =>
      cases h
      exact .closeTake hcloser
    · cases h
  | release =>
    simp only [step, Conn.release] at h
    split_ifs at h with hreleased hunowned
    cases h
    exact .release (by simpa using hreleased) hunowned

end Conn

end OncRpc
