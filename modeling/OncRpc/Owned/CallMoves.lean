import OncRpc.Owned.Call

/-!
# What a call future can do

`Call.Moves` lists every step of a call future with its guard, its result and its effect, and
`Call.moves_of_step` says that there are no others.  The invariants of a connection are proved from
this list and never look into `Call.step`.
-/

namespace OncRpc

open Foundation

variable {R : Type}

namespace Call

/-- A queued call gives up its wait for the writer. -/
inductive GivesUp (cfg : Config) (view : View R) (call : Call R) :
    CallAction → RuntimeError → Prop
  | interrupt {interrupt : Interrupt} {error : RuntimeError}
    (h : call.options.interrupted cfg.defaultCallTimeout interrupt = some error) :
    GivesUp cfg view call (.interrupt interrupt) error
  | closed {error : RuntimeError} (h : view.closed = some error) :
    GivesUp cfg view call .noticeClosed error
  | timeout {duration : ℕ} (h : cfg.writeTimeout = some duration) :
    GivesUp cfg view call .writeTimeout (.writeTimeout duration)

/-- The write of a frame fails. -/
inductive WriteFails (cfg : Config) (view : View R) :
    Except RuntimeError FrameWriter → CallAction → RuntimeError → Prop
  | closed {frame : Except RuntimeError FrameWriter} {error : RuntimeError}
    (h : view.closed = some error) : WriteFails cfg view frame .noticeClosed error
  | timeout {frame : Except RuntimeError FrameWriter} {duration : ℕ}
    (h : cfg.writeTimeout = some duration) :
    WriteFails cfg view frame .writeTimeout (.writeTimeout duration)
  | stream {frame : FrameWriter} {slices : List Bytes} {error : IoError}
    (hpoll : frame.poll = .await slices) (hkind : error.kind ≠ .interrupted) :
    WriteFails cfg view (.ok frame) (.write (.error error)) (.transport error.text)
  | flush {frame : FrameWriter} {error : IoError} (hpoll : frame.poll = .done) :
    WriteFails cfg view (.ok frame) (.flush (.error error)) (.transport error.text)
  | poll {frame : FrameWriter} {error : RuntimeError} (hpoll : frame.poll = .failed error) :
    WriteFails cfg view (.ok frame) .step error
  | oversize {error : RuntimeError} : WriteFails cfg view (.error error) .step error

/-- A call is refused a registration. -/
def RefusedWith (view : View R) (error : RuntimeError) : Prop :=
  view.closed = some error ∨
    view.closed = none ∧ view.entry.isSome = true ∧ error = duplicateXidError

/-- A call that holds the lock cannot write. -/
def CannotWrite (view : View R) (error : RuntimeError) : Prop :=
  view.closed = some error ∨
    view.closed = none ∧ view.writer = false ∧ error = .connectionClosed

/-- The phase awaits the reply. -/
def AwaitsReply (phase : Phase R) : Prop := phase = .waiting ∨ phase = .awaiting

/-- The steps of a call future that is not being stopped. -/
inductive Advances (cfg : Config) (view : View R) (call : Call R) :
    CallAction → Call R → Effect → Prop
  | register (hphase : call.phase = .admitted) (hclosed : view.closed = none)
    (hentry : view.entry = none) : Advances cfg view call .step (call.goto .queued) .register
  | refuse {error : RuntimeError} (hphase : call.phase = .admitted)
    (herror : RefusedWith view error) :
    Advances cfg view call .step (call.goto (.refused error)) .none
  | discard (hphase : call.phase = .admitted) :
    Advances cfg view call .drop (call.goto .discarded) .none
  | lock (hphase : call.phase = .queued) (hfree : view.lockFree = true) :
    Advances cfg view call .lock (call.goto .locked) .lock
  | giveUp {action : CallAction} {error : RuntimeError} (hphase : call.phase = .queued)
    (herror : GivesUp cfg view call action error) :
    Advances cfg view call action (call.stop error .waiting) .none
  | dropWait (hphase : call.phase = .queued ∨ AwaitsReply call.phase) :
    Advances cfg view call .drop (call.stop .cancelled .dropping) .none
  | checkFails {error : RuntimeError} (hphase : call.phase = .locked)
    (herror : CannotWrite view error) :
    Advances cfg view call .step (call.stop error .waiting) .unlock
  | check (hphase : call.phase = .locked) (hclosed : view.closed = none)
    (hwriter : view.writer = true) :
    Advances cfg view call .step (call.goto (.writing (FrameWriter.new call.segments) 0 false))
      .none
  | accept {frame frame' : FrameWriter} {written count : ℕ} {stopped : Bool} {slices : List Bytes}
    (hphase : call.phase = .writing (.ok frame) written stopped)
    (hpoll : frame.poll = .await slices) (hpos : 0 < count)
    (hcount : count ≤ slices.flatten.length) (hresume : frame.resume (.ok count) = .ok frame') :
    Advances cfg view call (.write (.ok count))
      (call.goto (.writing (.ok frame') (written + count) stopped))
      (.accept (slices.flatten.take count))
  | acceptNone {frame : FrameWriter} {written : ℕ} {stopped : Bool} {slices : List Bytes}
    (hphase : call.phase = .writing (.ok frame) written stopped)
    (hpoll : frame.poll = .await slices) :
    Advances cfg view call (.write (.ok 0)) (call.goto (.wrote (.error zeroWriteError) written))
      (.accept [])
  | retry {frame : FrameWriter} {written : ℕ} {stopped : Bool} {slices : List Bytes}
    {error : IoError} (hphase : call.phase = .writing (.ok frame) written stopped)
    (hpoll : frame.poll = .await slices) (hkind : error.kind = .interrupted) :
    Advances cfg view call (.write (.error error))
      (call.goto (.writing (.ok frame) written stopped)) .none
  | writeFails {frame : Except RuntimeError FrameWriter} {written : ℕ} {stopped : Bool}
    {action : CallAction} {error : RuntimeError}
    (hphase : call.phase = .writing frame written stopped)
    (herror : WriteFails cfg view frame action error) :
    Advances cfg view call action (call.goto (.wrote (.error error) written)) .none
  | flush {frame : FrameWriter} {written : ℕ} {stopped : Bool}
    (hphase : call.phase = .writing (.ok frame) written stopped) (hpoll : frame.poll = .done) :
    Advances cfg view call (.flush (.ok ())) (call.goto (.wrote (.ok ()) written)) .none
  | stopUnwritten {frame : Except RuntimeError FrameWriter} {interrupt : Interrupt}
    {error : RuntimeError} (hphase : call.phase = .writing frame 0 false)
    (herror : call.options.interrupted cfg.defaultCallTimeout interrupt = some error) :
    Advances cfg view call (.interrupt interrupt) (call.stop error (.wrote (.error error) 0)) .none
  | stopWritten {frame : Except RuntimeError FrameWriter} {written : ℕ} {interrupt : Interrupt}
    {error : RuntimeError} (hphase : call.phase = .writing frame written false)
    (hwritten : written ≠ 0)
    (herror : call.options.interrupted cfg.defaultCallTimeout interrupt = some error) :
    Advances cfg view call (.interrupt interrupt) (call.stop error (.writing frame written true))
      .none
  | dropWrite {frame : Except RuntimeError FrameWriter} {written : ℕ} {stopped : Bool}
    (hphase : call.phase = .writing frame written stopped) :
    Advances cfg view call .drop (call.goto (.guard false written .drop)) .none
  | settle {result : Except RuntimeError Unit} {written : ℕ}
    (hphase : call.phase = .wrote result written) :
    Advances cfg view call .step (call.settle result written).1 (call.settle result written).2
  | guard {complete : Bool} {written : ℕ} {next : Release}
    (hphase : call.phase = .guard complete written next) :
    Advances cfg view call .step (call.goto (.retire next))
      (if complete = false ∧ written ≠ 0 then .fail interruptedFrameError else .none)
  | retire {next : Release} (hphase : call.phase = .retire next) :
    Advances cfg view call .step (call.goto (.unlock next))
      (if view.closed.isSome then .retire else .none)
  | unlock {next : Release} (hphase : call.phase = .unlock next) :
    Advances cfg view call .step (call.released next) .unlock
  | stopWait {interrupt : Interrupt} {error : RuntimeError} (hphase : call.phase = .waiting)
    (herror : call.options.interrupted cfg.defaultCallTimeout interrupt = some error) :
    Advances cfg view call (.interrupt interrupt) (call.stop error .awaiting) .none
  | receive {reply : Reply R} {rest : List (Reply R)} (hphase : AwaitsReply call.phase)
    (hsent : call.sent = reply :: rest) :
    Advances cfg view call .receive (call.stop .cancelled (.returning reply)) .none
  | lost (hphase : AwaitsReply call.phase) (hsent : call.sent = [])
    (hgone : call.senderGone = true) (hsender : call.sender = .buffered) :
    Advances cfg view call .receive
      (call.stop .cancelled (.returning
        (.buffered (.error (call.control.error.getD .connectionClosed))))) .none
  | panic {target : Target R} (hphase : AwaitsReply call.phase) (hsent : call.sent = [])
    (hgone : call.senderGone = true) (hsender : call.sender = .segmented target) :
    Advances cfg view call .receive (call.stop .cancelled .panicked) .none
  | finish {reply : Reply R} (hphase : call.phase = .returning reply) :
    Advances cfg view call .step (call.goto (.finished reply)) .none
  | dropped (hphase : call.phase = .dropping) :
    Advances cfg view call .step (call.goto .dropped) .none

/-- The steps of a call future. -/
inductive Moves (cfg : Config) (view : View R) (id : ℕ) (call : Call R) :
    CallAction → Call R → Effect → Prop
  | mark {error : RuntimeError} (hstop : call.stopping = some (.mark error)) :
    Moves cfg view id call .step
      { call with control := call.control.stop error, stopping := some (.remove error) } .none
  | answer {error : RuntimeError} {sender : ResponseSender R}
    (hstop : call.stopping = some (.remove error)) (hentry : view.entry = some ⟨id, some sender⟩) :
    Moves cfg view id call .step { call.answer sender (.error error) with stopping := none } .remove
  | remove {error : RuntimeError} (hstop : call.stopping = some (.remove error))
    (hentry : view.entry = some ⟨id, none⟩) :
    Moves cfg view id call .step { call with stopping := none } .remove
  | unlisted {error : RuntimeError} (hstop : call.stopping = some (.remove error))
    (hentry : ∀ entry, view.entry = some entry → entry.token ≠ id) :
    Moves cfg view id call .step { call with stopping := none } .none
  | advance {action : CallAction} {call' : Call R} {effect : Effect}
    (hstop : call.stopping = none) (h : Advances cfg view call action call' effect) :
    Moves cfg view id call action call' effect

variable {cfg : Config} {view : View R} {id : ℕ} {call call' : Call R} {action : CallAction}
  {effect : Effect}

theorem Advances.of_register (hphase : call.phase = .admitted)
    (h : call.register view = (call', effect)) : Advances cfg view call .step call' effect := by
  unfold Call.register at h
  split at h
  · next error hclosed =>
    cases h
    exact .refuse hphase (.inl hclosed)
  · next hclosed =>
    split_ifs at h with hentry
    · cases h
      exact .refuse hphase (.inr ⟨hclosed, hentry, rfl⟩)
    · cases h
      exact .register hphase hclosed (by simpa using hentry)

theorem Advances.of_check (hphase : call.phase = .locked)
    (h : call.check view = (call', effect)) : Advances cfg view call .step call' effect := by
  unfold Call.check at h
  split at h
  · next error hclosed =>
    cases h
    exact .checkFails hphase (.inl hclosed)
  · next hclosed =>
    split_ifs at h with hwriter
    · cases h
      exact .check hphase hclosed hwriter
    · cases h
      exact .checkFails hphase (.inr ⟨hclosed, by simpa using hwriter, rfl⟩)

theorem Advances.of_write {frame : FrameWriter} {written : ℕ} {stopped : Bool}
    {result : WriteResult} (hphase : call.phase = .writing (.ok frame) written stopped)
    (h : call.write frame written stopped result = some (call', effect)) :
    Advances cfg view call (.write result) call' effect := by
  unfold Call.write at h
  split at h
  · next slices count hpoll =>
    split_ifs at h with hcount
    cases h
    rcases count with - | count
    · exact .acceptNone hphase hpoll
    · exact .accept hphase hpoll (Nat.succ_pos count) hcount rfl
  · next slices error hpoll =>
    cases h
    by_cases hkind : error.kind = .interrupted
    · simp only [FrameWriter.resume, hkind, if_true]
      exact .retry hphase hpoll hkind
    · simp only [FrameWriter.resume, hkind, if_false]
      exact .writeFails hphase (.stream hpoll hkind)
  · cases h

theorem Advances.of_writeStep {frame : Except RuntimeError FrameWriter} {written : ℕ}
    {stopped : Bool} (hphase : call.phase = .writing frame written stopped)
    (h : call.writeStep cfg view frame written stopped action = some (call', effect)) :
    Advances cfg view call action call' effect := by
  unfold Call.writeStep at h
  split at h
  · obtain ⟨error, herror, heq⟩ := Option.map_eq_some_iff.mp h
    cases heq
    exact .writeFails hphase (.closed herror)
  · obtain ⟨duration, hduration, heq⟩ := Option.map_eq_some_iff.mp h
    cases heq
    exact .writeFails hphase (.timeout hduration)
  · split_ifs at h with hstopped hwritten
    · obtain ⟨error, herror, heq⟩ := Option.map_eq_some_iff.mp h
      cases heq
      rw [hwritten] at hphase ⊢
      rw [Bool.not_eq_true] at hstopped
      rw [hstopped] at hphase
      exact .stopUnwritten hphase herror
    · obtain ⟨error, herror, heq⟩ := Option.map_eq_some_iff.mp h
      cases heq
      rw [Bool.not_eq_true] at hstopped
      rw [hstopped] at hphase
      exact .stopWritten hphase hwritten herror
  · split at h
    · exact .of_write hphase h
    · cases h
  · next result =>
    split at h
    · split at h
      · next hpoll =>
        cases h
        rcases result with error | ⟨⟨⟩⟩
        · exact .writeFails hphase (.flush hpoll)
        · exact .flush hphase hpoll
      · cases h
    · cases h
  · split at h
    · split at h
      · next hpoll =>
        cases h
        exact .writeFails hphase (.poll hpoll)
      · cases h
    · cases h
      exact .writeFails hphase .oversize
  · cases h
    exact .dropWrite hphase
  · cases h
  · cases h

theorem Advances.of_receive (hphase : AwaitsReply call.phase)
    (h : call.receive.map (·, Effect.none) = some (call', effect)) :
    Advances cfg view call .receive call' effect := by
  obtain ⟨next, hnext, heq⟩ := Option.map_eq_some_iff.mp h
  cases heq
  unfold Call.receive at hnext
  split at hnext
  · next reply rest hsent =>
    cases hnext
    exact .receive hphase hsent
  · next hsent =>
    split_ifs at hnext with hgone
    split at hnext
    · next hsender =>
      cases hnext
      exact .lost hphase hsent hgone hsender
    · next target hsender =>
      cases hnext
      exact .panic hphase hsent hgone hsender

theorem advances_of_advance (h : call.advance cfg view action = some (call', effect)) :
    Advances cfg view call action call' effect := by
  unfold Call.advance at h
  split at h
  · next hphase => exact .of_register hphase (Option.some.inj h)
  · next hphase =>
    cases h
    exact .discard hphase
  · next hphase =>
    split_ifs at h with hfree
    cases h
    exact .lock hphase hfree
  · next hphase =>
    obtain ⟨error, herror, heq⟩ := Option.map_eq_some_iff.mp h
    cases heq
    exact .giveUp hphase (.interrupt herror)
  · next hphase =>
    obtain ⟨error, herror, heq⟩ := Option.map_eq_some_iff.mp h
    cases heq
    exact .giveUp hphase (.closed herror)
  · next hphase =>
    obtain ⟨duration, hduration, heq⟩ := Option.map_eq_some_iff.mp h
    cases heq
    exact .giveUp hphase (.timeout hduration)
  · next hphase => exact .of_check hphase (Option.some.inj h)
  · next hphase => exact .of_writeStep hphase h
  · next hphase =>
    have hmove := @Advances.settle R cfg view call _ _ hphase
    rwa [Option.some.inj h] at hmove
  · next hphase =>
    cases h
    exact .guard hphase
  · next hphase =>
    cases h
    exact .retire hphase
  · next hphase =>
    cases h
    exact .unlock hphase
  · next hphase =>
    obtain ⟨error, herror, heq⟩ := Option.map_eq_some_iff.mp h
    cases heq
    exact .stopWait hphase herror
  · next hphase => exact .of_receive (.inl hphase) h
  · next hphase => exact .of_receive (.inr hphase) h
  · next hphase =>
    cases h
    exact .dropWait (.inl hphase)
  · next hphase =>
    cases h
    exact .dropWait (.inr (.inl hphase))
  · next hphase =>
    cases h
    exact .dropWait (.inr (.inr hphase))
  · next hphase =>
    cases h
    exact .finish hphase
  · next hphase =>
    cases h
    exact .dropped hphase
  · cases h

/-- A step of a call future is one of the listed ones. -/
theorem moves_of_step (h : call.step cfg view id action = some (call', effect)) :
    Moves cfg view id call action call' effect := by
  unfold Call.step at h
  split at h
  · next hstop => exact .advance hstop (advances_of_advance h)
  · next error hstop =>
    split_ifs at h with haction
    cases h
    rw [haction]
    exact .mark hstop
  · next error hstop =>
    split_ifs at h with haction
    rw [haction]
    have h := Option.some.inj h
    unfold Call.remove at h
    split at h
    · next token sender hentry =>
      split_ifs at h with htoken
      · rw [htoken] at hentry
        cases sender with
        | some sender =>
          cases h
          exact .answer hstop hentry
        | none =>
          cases h
          exact .remove hstop hentry
      · cases h
        refine .unlisted hstop fun entry hsome => ?_
        rw [hentry] at hsome
        cases hsome
        exact htoken
    · next hentry =>
      cases h
      refine .unlisted hstop fun entry hsome => ?_
      rw [hentry] at hsome
      cases hsome

end Call

end OncRpc
