import OncRpc.Owned.Ownership

/-!
# The outcome of a call

The parties that can end a call leave their mark in three places: the decision recorded for the
call, the values sent to it, and whether its sender was dropped.  `Tells` lists what one step does
to these.  `OutcomeInv` relates them, over a whole run, to the events that caused them, and
`exactly_once` is the result: a caller takes one outcome, and the decision recorded for its call at
that moment says which.
-/

namespace OncRpc

open Foundation

variable {R : Type}

/-- The outcome a future has taken. -/
def Phase.outcome : Phase R → Option (Reply R)
  | .returning reply | .finished reply => some reply
  | _ => none

/-- The result of a finished call. -/
def Phase.finalResult : Phase R → Option (Except RuntimeError RpcMessage)
  | .finished reply => some reply.result
  | _ => none

/-- The future is over, or only its registration guard is left. -/
def Phase.isEnding : Phase R → Bool
  | .returning _ | .finished _ | .dropping | .dropped | .panicked => true
  | _ => false

/-- The future is over, and so is its registration guard. -/
def Phase.isEnded : Phase R → Bool
  | .finished _ | .dropped => true
  | _ => false

namespace Conn

/-! ## Events -/

/-- A stop is the first decision recorded for a call. -/
def Stops (id : ℕ) (error : RuntimeError) (s : Conn R) (_ : Action R) (s' : Conn R) : Prop :=
  (s.calls id).control.terminal = none ∧ (s'.calls id).control.terminal = some (.error error)

/-- The reader, having received the record it took the call for, is the first to decide the call,
with the reply it computed. -/
def Computes [ReplyReceiver R] (id : ℕ) (reply : Reply R) (s : Conn R) (_ : Action R)
    (s' : Conn R) : Prop :=
  (s.calls id).control.terminal = none ∧ (s'.calls id).control.terminal = some (.ok ()) ∧
    ∃ receive received, s.reader = .receiving id (s.calls id).xid receive ∧
      receive.poll = .ready (some received) ∧ reply = receive.stage.sender.reply received

/-- The reader task ends while it holds the sender of a call. -/
def Ends (id : ℕ) (s : Conn R) (_ : Action R) (s' : Conn R) : Prop :=
  (∃ receive, s.reader = .receiving id (s.calls id).xid receive) ∧ s'.reader = .exiting

/-- A call takes its outcome while a decision, or none, is recorded for it. -/
def Takes (id : ℕ) (reply : Reply R) (decision : Option (Except RuntimeError Unit)) (s : Conn R)
    (_ : Action R) (s' : Conn R) : Prop :=
  (s.calls id).phase.outcome = none ∧ (s'.calls id).phase = .returning reply ∧
    (s.calls id).control.terminal = decision

/-! ## Consistent calls -/

variable {s s' : Conn R}

/-- The decision recorded for a call and the values sent to it fit. -/
structure Consistent (call : Call R) : Prop where
  /-- Before a stopped call removes its entry, a decision is recorded. -/
  marked : ∀ error, call.stopping = some (.remove error) → call.control.terminal.isSome = true
  /-- A result is sent with the step that records it. -/
  answered : call.control.terminal = some (.ok ()) → call.sent ≠ []

/-- A call whose sender is not used up was told nothing. -/
theorem unused {call : Call R} (h : usedUp call = 0) :
    call.sent = [] ∧ call.senderGone = false := by
  unfold usedUp at h
  refine ⟨List.length_eq_zero_iff.mp (by omega), ?_⟩
  by_contra hgone
  rw [Bool.not_eq_false] at hgone
  simp [hgone] at h

/-- A call whose sender is in one of the other places was told nothing. -/
theorem OwnerInv.unused (hown : OwnerInv s) {id : ℕ}
    (hid : (s.calls id).phase.isRegistered = true)
    (hplace : 1 ≤ s.inRegistry id + s.inJob id + s.atReader id) :
    (s.calls id).sent = [] ∧ (s.calls id).senderGone = false := by
  have hone := hown.owner id hid
  unfold owners at hone
  exact Conn.unused (by omega)

/-- A call told nothing has no result recorded. -/
theorem Consistent.cases {call : Call R} (h : Consistent call) (hsent : call.sent = []) :
    call.control.terminal = none ∨ ∃ error, call.control.terminal = some (.error error) := by
  rcases hterminal : call.control.terminal with _ | _ | ⟨⟨⟩⟩
  · exact .inl rfl
  · exact .inr ⟨_, rfl⟩
  · exact absurd hsent (h.answered hterminal)

/-- The call the reader receives for was told nothing. -/
theorem unused_receiving (hreg : RegistryInv s) (hown : OwnerInv s) {id : ℕ} {xid : Xid}
    {receive : Receive R} (hreader : s.reader = .receiving id xid receive) :
    (s.calls id).sent = [] ∧ (s.calls id).senderGone = false := by
  have hplace : s.atReader id = 1 := by simp [atReader, hreader, ReaderPhase.holds]
  exact hown.unused (hreg.receiving _ _ _ hreader).2.1 (by omega)

/-! ## What a step tells -/

variable [ReplyReceiver R] {cfg : Config} {action : Action R}

/-- What a step tells a call. -/
inductive Tells (s : Conn R) (action : Action R) (s' : Conn R) (id : ℕ) : Prop
  | keep (hcontrol : (s'.calls id).control = (s.calls id).control)
    (hsent : (s'.calls id).sent = (s.calls id).sent)
    (hgone : (s'.calls id).senderGone = (s.calls id).senderGone)
  | stop (error : RuntimeError)
    (hcontrol : (s'.calls id).control = (s.calls id).control.stop error)
    (hsent : (s'.calls id).sent = (s.calls id).sent)
    (hgone : (s'.calls id).senderGone = (s.calls id).senderGone)
  | refuse (error first : RuntimeError) (reply : Reply R)
    (hcontrol : (s'.calls id).control = (s.calls id).control.stop error)
    (hfirst : (s'.calls id).control.terminal = some (.error first))
    (hresult : reply.result = .error first)
    (hkind : reply.isBuffered = (s.calls id).sender.isBuffered) (hbefore : (s.calls id).sent = [])
    (hsent : (s'.calls id).sent = [reply]) (hgone : (s'.calls id).senderGone = false)
  | compute (reply : Reply R) (hcomputes : Computes id reply s action s')
    (hkind : reply.isBuffered = (s.calls id).sender.isBuffered) (hbefore : (s.calls id).sent = [])
    (hsent : (s'.calls id).sent = [reply]) (hgone : (s'.calls id).senderGone = false)
  | drop (hends : Ends id s action s') (hkind : (s.calls id).sender.isBuffered = true)
    (hcontrol : (s'.calls id).control = (s.calls id).control)
    (hsent : (s'.calls id).sent = (s.calls id).sent) (hgone : (s'.calls id).senderGone = true)
  | giveBack (reply : Reply R) (hends : Ends id s action s')
    (hopen : (s.calls id).control.terminal = none)
    (hdone : (s'.calls id).control.terminal = some (.ok ()))
    (hresult : reply.result = .error .connectionClosed)
    (hkind : reply.isBuffered = (s.calls id).sender.isBuffered) (hbefore : (s.calls id).sent = [])
    (hsent : (s'.calls id).sent = [reply]) (hgone : (s'.calls id).senderGone = false)

/-- A stop, and an answer with its error, of a call told nothing. -/
theorem Tells.of_refuse {id : ℕ} (error : RuntimeError) {sender : ResponseSender R}
    (hcall : Consistent (s.calls id)) (hsender : sender.isBuffered = (s.calls id).sender.isBuffered)
    (hunused : (s.calls id).sent = [] ∧ (s.calls id).senderGone = false)
    (hcontrol : (s'.calls id).control =
      (((s.calls id).control.stop error).finish (Except.error error : Except _ (RpcMessage × ℕ))).1)
    (hsent : (s'.calls id).sent = (s.calls id).sent ++
      [sender.reply (((s.calls id).control.stop error).finish (.error error)).2])
    (hgone : (s'.calls id).senderGone = (s.calls id).senderGone) : Tells s action s' id := by
  obtain ⟨hnone, hgone'⟩ := hunused
  have hfirst : ∃ first, ((s.calls id).control.stop error).terminal = some (.error first) := by
    rcases hcall.cases hnone with hopen | ⟨first, hstopped⟩
    · exact ⟨error, CallControl.stop_of_none hopen error⟩
    · exact ⟨first, CallControl.stop_terminal hstopped error⟩
  obtain ⟨first, hfirst⟩ := hfirst
  rw [CallControl.finish_of_error hfirst] at hcontrol hsent
  refine .refuse error first (sender.reply (.error first)) hcontrol ?_ ?_ ?_ hnone ?_ ?_
  · rw [hcontrol, hfirst]
  · exact sender.reply_error first
  · rw [ResponseSender.reply_isBuffered, hsender]
  · rw [hsent, hnone, List.nil_append]
  · rw [hgone, hgone']

variable {id : ℕ}

/-- Another call is told nothing. -/
theorem Tells.of_eq (h : s'.calls id = s.calls id) : Tells s action s' id :=
  .keep (by rw [h]) (by rw [h]) (by rw [h])

/-- What a step of the call itself tells it. -/
theorem Tells.of_call {act : CallAction} {call : Call R} {effect : Effect}
    (hreg : RegistryInv s) (hown : OwnerInv s) (hcall : Consistent (s.calls id))
    (h : Call.Moves cfg (s.view id) id (s.calls id) act call effect)
    (hcalls : s'.calls id = call) : Tells s action s' id := by
  cases h with
  | @mark error hstop =>
    refine .stop error ?_ ?_ ?_ <;> rw [hcalls]
  | @answer error sender hstop hentry =>
    have hentry : s.pending.lookup (s.calls id).xid = some ⟨id, some sender⟩ := hentry
    obtain ⟨-, hregistered, hsender⟩ := hreg.entries _ _ hentry
    have hplace : s.inRegistry id = 1 := Registry.held_of_lookup hentry
    obtain ⟨decision, hdecision⟩ := Option.isSome_iff_exists.mp (hcall.marked error hstop)
    have hsame := CallControl.stop_of_some hdecision error
    refine .of_refuse error hcall (congrArg ResponseSender.isBuffered (hsender sender rfl))
      (hown.unused hregistered (by omega)) ?_ ?_ ?_ <;> rw [hcalls]
    · rw [hsame]
      rfl
    · rw [hsame]
      rfl
    · rfl
  | remove hstop hentry | unlisted hstop hentry =>
    refine .keep ?_ ?_ ?_ <;> rw [hcalls]
  | advance hstop h =>
    rw [← hcalls] at h
    refine .keep ?_ ?_ ?_ <;> rw [h.eq_goto]

/-- What a failing connection tells the call whose entry it took. -/
theorem Tells.of_failNext (hreg : RegistryInv s) (hown : OwnerInv s)
    (hcall : Consistent (s.calls id)) {job : FailJob R} {xid : Xid}
    {sender : Option (ResponseSender R)} (hjob : s.job = some job)
    (hentry : job.remaining.lookup xid = some ⟨id, sender⟩)
    (hcalls : s'.calls id = failCall (s.calls id) job.error sender) : Tells s action s' id := by
  cases sender with
  | none => refine .stop job.error ?_ ?_ ?_ <;> rw [hcalls] <;> rfl
  | some sender =>
    obtain ⟨hxid, hregistered, hsender⟩ := hreg.taken job hjob xid _ hentry
    have hplace : s.inJob id = 1 := by
      simp only at hxid
      simp only [inJob, hjob, hxid]
      exact Registry.held_of_lookup hentry
    refine .of_refuse job.error hcall (congrArg ResponseSender.isBuffered (hsender sender rfl))
      (hown.unused hregistered (by omega)) ?_ ?_ ?_ <;> rw [hcalls] <;> rfl

/-- What the end of the reader tells the call it received for. -/
theorem Tells.of_dropped (hreg : RegistryInv s) (hown : OwnerInv s)
    (hcall : Consistent (s.calls id)) {xid : Xid} {receive : Receive R}
    (hreader : s.reader = .receiving id xid receive) (hexit : s'.reader = .exiting)
    (hcalls : s'.calls id = s.dropped id receive.stage.sender) : Tells s action s' id := by
  obtain ⟨hxid, hregistered, hkind⟩ := hreg.receiving _ _ _ hreader
  obtain ⟨hnone, hgone⟩ := unused_receiving hreg hown hreader
  have hends : Ends id s action s' := ⟨⟨receive, by rw [hreader, hxid]⟩, hexit⟩
  cases hsender : receive.stage.sender with
  | buffered =>
    rw [hsender] at hcalls hkind
    refine .drop hends hkind.symm ?_ ?_ ?_ <;> rw [hcalls] <;> rfl
  | segmented target =>
    rw [hsender] at hcalls hkind
    rcases hcall.cases hnone with hopen | ⟨first, hstopped⟩
    · have herror : (s.calls id).control.error = none := by simp [CallControl.error, hopen]
      refine .giveBack _ hends hopen ?_ (ResponseSender.reply_error (.segmented target) _)
        hkind hnone ?_ ?_ <;> rw [hcalls] <;>
        simp only [dropped, Call.answer, CallControl.finish_of_not_error herror]
      · rw [hnone, List.nil_append]
      · exact hgone
    · have hsame := CallControl.stop_of_some hstopped first
      refine .of_refuse first hcall hkind ⟨hnone, hgone⟩ ?_ ?_ ?_ <;> rw [hcalls] <;>
        simp only [dropped, Call.answer, hsame, CallControl.finish_of_error hstopped]

/-- What the reader tells the calls. -/
theorem Tells.of_reader (hreg : RegistryInv s) (hown : OwnerInv s)
    (hcall : Consistent (s.calls id)) (h : ReaderMoves cfg s action s') :
    Tells s action s' id := by
  cases h with
  | @answer token xid receive received hreader hpoll hcontrol =>
    by_cases hid : id = token
    · subst hid
      obtain ⟨hxid, -, hkind⟩ := hreg.receiving _ _ _ hreader
      obtain ⟨hnone, hgone⟩ := unused_receiving hreg hown hreader
      have hopen : (s.calls id).control.terminal = none := by
        rcases hcall.cases hnone with hopen | ⟨first, hstopped⟩
        · exact hopen
        · rw [CallControl.error_eq_some.mpr hstopped] at hcontrol
          cases hcontrol
      refine .compute (receive.stage.sender.reply received)
        ⟨hopen, ?_, receive, received, by rw [hreader, hxid], hpoll, rfl⟩
        (by rw [ResponseSender.reply_isBuffered, hkind]) hnone ?_ ?_ <;>
        simp only [Function.update_self]
      · rw [hnone, List.nil_append]
      · exact hgone
    · exact .of_eq (Function.update_of_ne hid _ _)
  | @stopped token xid receive error _ hreader hcontrol haction =>
    by_cases hid : id = token
    · subst hid
      have hsame := CallControl.stop_of_some hcontrol error
      refine .of_refuse error hcall (hreg.receiving _ _ _ hreader).2.2
        (unused_receiving hreg hown hreader) ?_ ?_ ?_ <;>
        simp only [Function.update_self, hsame, CallControl.finish_of_error hcontrol]
    · exact .of_eq (Function.update_of_ne hid _ _)
  | @unwind token xid receive _ hreader haction habort =>
    rw [dropSender_eq]
    by_cases hid : id = token
    · subst hid
      exact .of_dropped hreg hown hcall hreader rfl (Function.update_self _ _ _)
    · exact .of_eq (Function.update_of_ne hid _ _)
  | cleanup =>
    rw [cleanup_eq]
    exact .of_eq rfl
  | fail | exit =>
    refine .of_eq ?_
    simp only [fail_calls]
  | _ => exact .of_eq rfl

/-- What a step tells a call. -/
theorem Moves.tells (hreg : RegistryInv s) (hown : OwnerInv s)
    (hcall : Consistent (s.calls id)) (h : Moves cfg s action s') : Tells s action s' id := by
  cases h with
  | admitCall hreleased hprepare =>
    by_cases hid : id = s.created
    · have habsent : s.calls id = Call.absent := hreg.fresh id hid.ge
      rw [hid] at habsent ⊢
      refine .keep ?_ ?_ ?_ <;> simp only [Function.update_self, habsent]
    · exact .of_eq (Function.update_of_ne hid _ _)
  | @call token act call effect hbusy h =>
    by_cases hid : id = token
    · subst hid
      exact .of_call hreg hown hcall h (Function.update_self _ _ _)
    · exact .of_eq (Function.update_of_ne hid _ _)
  | reader hbusy h => exact .of_reader hreg hown hcall h
  | @failNext job xid entry hjob hentry =>
    by_cases hid : id = entry.token
    · subst hid
      exact .of_failNext hreg hown hcall hjob hentry (Function.update_self _ _ _)
    · exact .of_eq (Function.update_of_ne hid _ _)
  | close hreleased =>
    refine .of_eq ?_
    simp only [fail_calls]
  | failDone | poll | closeAbort | closeTake | release => exact .of_eq rfl

/-! ## What a step does to a future -/

/-- What a step does to the future of a call. -/
inductive Future (cfg : Config) (s s' : Conn R) (id : ℕ) : Prop
  | still (hphase : (s'.calls id).phase = (s.calls id).phase)
    (hstopping : (s'.calls id).stopping = (s.calls id).stopping)
    (hsender : (s'.calls id).sender = (s.calls id).sender)
  | own (act : CallAction) (call : Call R) (effect : Effect)
    (h : Call.Moves cfg (s.view id) id (s.calls id) act call effect)
    (hcalls : s'.calls id = call) (hpending : s'.pending = (s.apply id effect).pending)
  | new (hnew : Untouched (s'.calls id)) (hphase : (s'.calls id).phase = .admitted)

omit [ReplyReceiver R] in
/-- Whether a call is being stopped is not touched by answering it. -/
theorem unanswering_stopping : Unanswering (Call.stopping : Call R → Option Stopping) :=
  fun _ _ _ _ => rfl

/-- Every move is one of the moves a call may still see. -/
theorem Moves.future (h : Moves cfg s action s') (id : ℕ) : Future cfg s s' id := by
  have hsame : ∀ {s' : Conn R}, s'.calls id = s.calls id → Future cfg s s' id := by
    intro s' hcalls
    refine .still ?_ ?_ ?_ <;> rw [hcalls]
  cases h with
  | admitCall hreleased hprepare =>
    by_cases hid : id = s.created
    · rw [hid]
      refine .new ?_ ?_ <;> simp only [Function.update_self]
      exact ⟨rfl, rfl, rfl, rfl⟩
    · exact hsame (Function.update_of_ne hid _ _)
  | @call token act call effect hbusy h =>
    by_cases hid : id = token
    · subst hid
      exact .own act call effect h (Function.update_self _ _ _) rfl
    · exact hsame (Function.update_of_ne hid _ _)
  | reader hbusy h =>
    exact .still (h.phase_eq id) (h.eq_of_unanswering unanswering_stopping id) (h.later id).sender
  | failNext hjob hentry =>
    exact .still (update_eq Call.phase (failCall_eq unanswering_phase _ _ _) id)
      (update_eq Call.stopping (failCall_eq unanswering_stopping _ _ _) id)
      (update_eq Call.sender (later_failCall _ _ _).sender id)
  | close hreleased =>
    refine hsame ?_
    simp only [fail_calls]
  | failDone | poll | closeAbort | closeTake | release => exact hsame rfl

omit [ReplyReceiver R] in
/-- A future keeps its sender, unless it is new. -/
theorem Future.sender (h : Future cfg s s' id) :
    (s'.calls id).sender = (s.calls id).sender ∨ Untouched (s'.calls id) := by
  cases h with
  | still _ _ hsender => exact .inl hsender
  | own act call effect h hcalls _ =>
    rw [hcalls]
    exact .inl h.later.sender
  | new hnew => exact .inr hnew

omit [ReplyReceiver R] in
/-- A future that goes on is not past the first half of a stop. -/
theorem advances_stopping {view : View R} {call call' : Call R} {act : CallAction}
    {effect : Effect} (hstop : call.stopping = none)
    (h : Call.Advances cfg view call act call' effect) (error : RuntimeError) :
    call'.stopping ≠ some (.remove error) := by
  cases h with
  | @settle result written hphase =>
    rcases result with error | ⟨⟨⟩⟩ <;> simp [Call.settle, Call.goto, hstop]
  | @unlock next hphase =>
    rcases next with ⟨_ | _⟩ | _ <;> simp [Call.released, Call.goto, Call.stop, hstop]
  | _ => simp [Call.goto, Call.stop, hstop]

/-- A decided call stays decided. -/
theorem Tells.isSome (h : Tells s action s' id)
    (hsome : (s.calls id).control.terminal.isSome = true) :
    (s'.calls id).control.terminal.isSome = true := by
  cases h with
  | keep hcontrol | drop _ _ hcontrol => rw [hcontrol, hsome]
  | stop error hcontrol =>
    rw [hcontrol]
    exact CallControl.stop_isSome _ _
  | refuse _ _ _ _ hfirst => rw [hfirst, Option.isSome_some]
  | compute _ hcomputes => rw [hcomputes.2.1, Option.isSome_some]
  | giveBack _ _ _ hdone => rw [hdone, Option.isSome_some]

/-- A step keeps a call consistent. -/
theorem Consistent.step (hcall : Consistent (s.calls id)) (hfuture : Future cfg s s' id)
    (htells : Tells s action s' id) : Consistent (s'.calls id) where
  marked error hstopping := by
    cases hfuture with
    | still hphase hsame =>
      rw [hsame] at hstopping
      exact htells.isSome (hcall.marked error hstopping)
    | own act call effect h hcalls hpending =>
      rw [hcalls] at hstopping ⊢
      cases h with
      | mark hstop => exact CallControl.stop_isSome _ _
      | answer | remove | unlisted => cases hstopping
      | advance hstop h => exact absurd hstopping (advances_stopping hstop h error)
    | new hnew hphase =>
      rw [hnew.1] at hstopping
      cases hstopping
  answered hdone := by
    cases htells with
    | keep hcontrol hsent | drop _ _ hcontrol hsent =>
      rw [hcontrol] at hdone
      rw [hsent]
      exact hcall.answered hdone
    | stop error hcontrol hsent =>
      rw [hcontrol] at hdone
      rw [hsent]
      refine hcall.answered ?_
      cases hterminal : (s.calls id).control.terminal with
      | none =>
        rw [CallControl.stop_of_none hterminal] at hdone
        cases hdone
      | some decision => rwa [CallControl.stop_terminal hterminal] at hdone
    | refuse _ _ reply _ _ _ _ _ hsent | compute reply _ _ _ hsent
    | giveBack reply _ _ _ _ _ _ hsent =>
      rw [hsent]
      exact List.cons_ne_nil _ _

/-! ## The history of an outcome -/

/-- How the outcome of a call came about, by the decision recorded when it was taken. -/
inductive Outcome (cfg : Config) (actions : List (Action R)) (id : ℕ) (reply : Reply R) :
    Option (Except RuntimeError Unit) → Prop
  /-- The first stop decides, with its error. -/
  | stopped {error : RuntimeError}
    (hstops : Happened (step cfg) (initial cfg) actions (Stops id error))
    (hresult : reply.result = .error error) : Outcome cfg actions id reply (some (.error error))
  /-- The reader decides, with what it computed from the record of the call. -/
  | computed (hcomputes : Happened (step cfg) (initial cfg) actions (Computes id reply)) :
    Outcome cfg actions id reply (some (.ok ()))
  /-- The reader task ended while it held the sender. -/
  | ended {decision : Option (Except RuntimeError Unit)}
    (hopen : decision = none ∨ decision = some (.ok ()))
    (hends : Happened (step cfg) (initial cfg) actions (Ends id))
    (hresult : reply.result = .error .connectionClosed) : Outcome cfg actions id reply decision

/-- An outcome stands when more actions follow. -/
theorem Outcome.snoc {actions : List (Action R)} {reply : Reply R}
    {decision : Option (Except RuntimeError Unit)} (h : Outcome cfg actions id reply decision)
    (action : Action R) : Outcome cfg (actions ++ [action]) id reply decision := by
  cases h with
  | stopped hstops hresult => exact .stopped (hstops.snoc action) hresult
  | computed hcomputes => exact .computed (hcomputes.snoc action)
  | ended hopen hends hresult => exact .ended hopen (hends.snoc action) hresult

/-- What was told to a call, and why. -/
structure ToldInv (cfg : Config) (actions : List (Action R)) (s : Conn R) (id : ℕ) : Prop where
  consistent : Consistent (s.calls id)
  stopped : ∀ error, (s.calls id).control.terminal = some (.error error) →
    Happened (step cfg) (initial cfg) actions (Stops id error)
  sent : ∀ reply ∈ (s.calls id).sent, reply.isBuffered = (s.calls id).sender.isBuffered ∧
    (s.calls id).control.terminal.isSome = true ∧
    Outcome cfg actions id reply (s.calls id).control.terminal
  gone : (s.calls id).senderGone = true → (s.calls id).sender.isBuffered = true ∧
    Happened (step cfg) (initial cfg) actions (Ends id)

namespace ToldInv

variable {actions : List (Action R)}

/-- A call nobody touched was told nothing. -/
theorem of_untouched (h : Untouched (s.calls id)) : ToldInv cfg actions s id := by
  obtain ⟨hstopping, hcontrol, hsent, hgone⟩ := h
  have hopen : (s.calls id).control.terminal = none := by rw [hcontrol]; rfl
  refine ⟨⟨fun error h => ?_, fun h => ?_⟩, fun error h => ?_, fun reply h => ?_, fun h => ?_⟩
  · rw [hstopping] at h
    cases h
  · rw [hopen] at h
    cases h
  · rw [hopen] at h
    cases h
  · rw [hsent] at h
    cases h
  · rw [hgone] at h
    cases h

/-- The error of a stopped call is that of its first stop. -/
theorem step_stopped (hinv : ToldInv cfg actions s id)
    (htrace : Trace (Conn.step cfg) (fun _ _ => True) (initial cfg) actions s)
    (hstep : Conn.step cfg s action = some s') (htells : Tells s action s' id)
    (error : RuntimeError) (herror : (s'.calls id).control.terminal = some (.error error)) :
    Happened (Conn.step cfg) (initial cfg) (actions ++ [action]) (Stops id error) := by
  cases hbefore : (s.calls id).control.terminal with
  | none => exact .last htrace hstep ⟨hbefore, herror⟩
  | some decision =>
    -- The decision was recorded earlier, and a recorded decision stays.
    refine (hinv.stopped error ?_).snoc action
    cases htells with
    | keep hcontrol | drop _ _ hcontrol => rwa [hcontrol] at herror
    | stop _ hcontrol | refuse _ _ _ hcontrol =>
      rwa [hcontrol, CallControl.stop_of_some hbefore] at herror
    | compute _ hcomputes =>
      rw [hcomputes.1] at hbefore
      cases hbefore
    | giveBack _ _ hopen =>
      rw [hopen] at hbefore
      cases hbefore

/-- What a call is told has a cause. -/
theorem step_sent (hinv : ToldInv cfg actions s id)
    (htrace : Trace (Conn.step cfg) (fun _ _ => True) (initial cfg) actions s)
    (hstep : Conn.step cfg s action = some s') (htells : Tells s action s' id)
    (reply : Reply R) (hreply : reply ∈ (s'.calls id).sent) :
    reply.isBuffered = (s.calls id).sender.isBuffered ∧
      (s'.calls id).control.terminal.isSome = true ∧
      Outcome cfg (actions ++ [action]) id reply (s'.calls id).control.terminal := by
  have hstopped := hinv.step_stopped htrace hstep htells
  cases htells with
  | keep hcontrol hsent | drop _ _ hcontrol hsent =>
    rw [hsent] at hreply
    obtain ⟨hkind, hsome, houtcome⟩ := hinv.sent reply hreply
    rw [hcontrol]
    exact ⟨hkind, hsome, houtcome.snoc action⟩
  | stop error hcontrol hsent =>
    rw [hsent] at hreply
    obtain ⟨hkind, hsome, houtcome⟩ := hinv.sent reply hreply
    obtain ⟨decision, hdecision⟩ := Option.isSome_iff_exists.mp hsome
    rw [hcontrol, CallControl.stop_of_some hdecision]
    exact ⟨hkind, hsome, houtcome.snoc action⟩
  | refuse error first reply' hcontrol hfirst hresult hkind hbefore hsent =>
    rw [hsent, List.mem_singleton] at hreply
    subst hreply
    rw [hfirst]
    exact ⟨hkind, rfl, .stopped (hstopped first hfirst) hresult⟩
  | compute reply' hcomputes hkind hbefore hsent =>
    rw [hsent, List.mem_singleton] at hreply
    subst hreply
    rw [hcomputes.2.1]
    exact ⟨hkind, rfl, .computed (.last htrace hstep hcomputes)⟩
  | giveBack reply' hends hopen hdone hresult hkind hbefore hsent =>
    rw [hsent, List.mem_singleton] at hreply
    subst hreply
    rw [hdone]
    exact ⟨hkind, rfl, .ended (.inr rfl) (.last htrace hstep hends) hresult⟩

/-- A sender is dropped by the end of the reader. -/
theorem step_gone (hinv : ToldInv cfg actions s id)
    (htrace : Trace (Conn.step cfg) (fun _ _ => True) (initial cfg) actions s)
    (hstep : Conn.step cfg s action = some s') (htells : Tells s action s' id)
    (hgone : (s'.calls id).senderGone = true) : (s.calls id).sender.isBuffered = true ∧
      Happened (Conn.step cfg) (initial cfg) (actions ++ [action]) (Ends id) := by
  cases htells with
  | keep _ _ hsame | stop _ _ _ hsame =>
    rw [hsame] at hgone
    obtain ⟨hkind, hends⟩ := hinv.gone hgone
    exact ⟨hkind, hends.snoc action⟩
  | drop hends hkind => exact ⟨hkind, .last htrace hstep hends⟩
  | refuse _ _ _ _ _ _ _ _ _ hfalse | compute _ _ _ _ _ hfalse
  | giveBack _ _ _ _ _ _ _ _ hfalse =>
    rw [hfalse] at hgone
    cases hgone

/-- A step keeps the invariant. -/
theorem step (hinv : ToldInv cfg actions s id) (hreg : RegistryInv s) (hown : OwnerInv s)
    (htrace : Trace (Conn.step cfg) (fun _ _ => True) (initial cfg) actions s)
    (hstep : Conn.step cfg s action = some s') : ToldInv cfg (actions ++ [action]) s' id := by
  have hmove := moves_of_step hstep
  have htells := hmove.tells hreg hown hinv.consistent
  rcases (hmove.future id).sender with hsender | hnew
  · refine ⟨hinv.consistent.step (hmove.future id) htells,
      hinv.step_stopped htrace hstep htells, ?_, ?_⟩ <;> rw [hsender]
    · exact hinv.step_sent htrace hstep htells
    · exact hinv.step_gone htrace hstep htells
  · exact .of_untouched hnew

/-- Every run satisfies the invariant. -/
theorem of_trace (h : Trace (Conn.step cfg) (fun _ _ => True) (initial cfg) actions s) (id : ℕ) :
    ToldInv cfg actions s id := by
  induction h with
  | nil => exact .of_untouched ⟨rfl, rfl, rfl, rfl⟩
  | snoc htrace _ hstep ih =>
    exact ih.step (RegistryInv.of_reachable htrace.runs) (OwnerInv.of_reachable htrace.runs) htrace
      hstep

end ToldInv

/-! ## Futures that take their outcome -/

section Future

omit [ReplyReceiver R]

variable {view : View R} {call call' : Call R} {act : CallAction} {effect : Effect}

/-- A future takes the value sent to it, or finds its sender gone. -/
theorem advances_outcome (h : Call.Advances cfg view call act call' effect) {reply : Reply R}
    (houtcome : call'.phase.outcome = some reply) :
    call.phase = .returning reply ∨
      call.phase.outcome = none ∧ call'.phase = .returning reply ∧
        (reply ∈ call.sent ∨ call.sent = [] ∧ call.senderGone = true ∧ call.sender = .buffered ∧
          reply = .buffered (.error (call.control.error.getD .connectionClosed))) := by
  have hnone : Call.AwaitsReply call.phase → call.phase.outcome = none := by
    rintro (hphase | hphase) <;> rw [hphase] <;> rfl
  cases h with
  | receive hphase hsent =>
    cases houtcome
    refine .inr ⟨hnone hphase, rfl, .inl ?_⟩
    rw [hsent]
    exact List.mem_cons_self
  | lost hphase hsent hgone hsender =>
    cases houtcome
    exact .inr ⟨hnone hphase, rfl, .inr ⟨hsent, hgone, hsender, rfl⟩⟩
  | finish hphase =>
    cases houtcome
    exact .inl hphase
  | @settle result written hphase => rcases result with error | ⟨⟨⟩⟩ <;> cases houtcome
  | @unlock next hphase => rcases next with ⟨_ | _⟩ | _ <;> cases houtcome
  | _ => cases houtcome

/-- Only a segmented call whose sender is gone panics. -/
theorem advances_panicked (h : Call.Advances cfg view call act call' effect)
    (hphase : call'.phase = .panicked) :
    call.senderGone = true ∧ call.sender.isBuffered = false := by
  cases h with
  | panic _ _ hgone hsender =>
    rw [hsender]
    exact ⟨hgone, rfl⟩
  | @settle result written _ => rcases result with error | ⟨⟨⟩⟩ <;> cases hphase
  | @unlock next _ => rcases next with ⟨_ | _⟩ | _ <;> cases hphase
  | _ => cases hphase

/-- A future that comes to its end is stopped first, and ends after that. -/
theorem advances_isEnding (hstop : call.stopping = none)
    (h : Call.Advances cfg view call act call' effect) (hending : call'.phase.isEnding = true) :
    (call.phase.isEnding = true ∧ call'.stopping = none) ∨
      (call'.stopping ≠ none ∧ call'.phase.isEnded = false) := by
  cases h with
  | receive | lost | panic | dropWait => exact .inr ⟨nofun, rfl⟩
  | finish hphase | dropped hphase =>
    refine .inl ⟨?_, hstop⟩
    rw [hphase]
    rfl
  | @settle result written _ => rcases result with error | ⟨⟨⟩⟩ <;> cases hending
  | @unlock next _ =>
    rcases next with ⟨_ | _⟩ | _
    · cases hending
    · cases hending
    · exact .inr ⟨nofun, rfl⟩
  | _ => cases hending

end Future

omit [ReplyReceiver R] in
/-- A step brings no entry of a call that is not being registered. -/
theorem RegistryStep.entry_of (h : RegistryStep s s') {xid : Xid} {entry : Pending R}
    (hentry : s'.pending.lookup xid = some entry) :
    (∃ before, s.pending.lookup xid = some before ∧ before.token = entry.token) ∨
      (s'.calls entry.token).phase = .queued := by
  cases h with
  | keep _ hpending | next _ _ _ hpending | done _ hpending =>
    rw [hpending] at hentry
    exact .inl ⟨entry, hentry, rfl⟩
  | register id hopen hclosed hphase hphase' hnone hpending =>
    rw [hpending] at hentry
    by_cases hxid : xid = (s.calls id).xid
    · rw [hxid, AList.lookup_insert] at hentry
      cases hentry
      exact .inr hphase'
    · rw [AList.lookup_insert_ne hxid] at hentry
      exact .inl ⟨entry, hentry, rfl⟩
  | take xid' token sender hclosed htaken hpending =>
    rw [hpending] at hentry
    by_cases hxid : xid = xid'
    · rw [hxid, AList.lookup_insert] at hentry
      cases hentry
      rw [hxid]
      exact .inl ⟨_, htaken, rfl⟩
    · rw [AList.lookup_insert_ne hxid] at hentry
      exact .inl ⟨entry, hentry, rfl⟩
  | erase xid' hclosed hpending =>
    rw [hpending] at hentry
    by_cases hxid : xid = xid'
    · rw [hxid, AList.lookup_erase] at hentry
      cases hentry
    · rw [AList.lookup_erase_ne hxid] at hentry
      exact .inl ⟨entry, hentry, rfl⟩
  | fail party error hopen hclosed hpending =>
    rw [hpending, AList.lookup_empty] at hentry
    cases hentry

/-- The registry has no entry of the call. -/
def Unlisted (s : Conn R) (id : ℕ) : Prop :=
  ∀ xid entry, s.pending.lookup xid = some entry → entry.token ≠ id

/-- The outcome of a call is one for its kind of sender, was taken by the call, and has a cause; the
outcome of a segmented call was sent to it, with its receiver. -/
def Explains (cfg : Config) (actions : List (Action R)) (call : Call R) (id : ℕ)
    (reply : Reply R) : Prop :=
  reply.isBuffered = call.sender.isBuffered ∧
    (call.sender.isBuffered = false → reply ∈ call.sent) ∧
    ∃ decision, Happened (step cfg) (initial cfg) actions (Takes id reply decision) ∧
      Outcome cfg actions id reply decision

/-- Where the future of a call is, and why. -/
structure FutureInv (cfg : Config) (actions : List (Action R)) (s : Conn R) (id : ℕ) : Prop where
  taken : ∀ reply, (s.calls id).phase.outcome = some reply →
    Explains cfg actions (s.calls id) id reply
  unpanicked : (s.calls id).phase ≠ .panicked
  ended : (s.calls id).phase.isEnded = true → (s.calls id).stopping = none
  cleared : (s.calls id).phase.isEnding = true → (s.calls id).stopping = none → s.Unlisted id

namespace FutureInv

variable {actions : List (Action R)}

/-- A call that was just admitted. -/
theorem of_admitted (h : (s.calls id).phase = .admitted ∨ (s.calls id).phase = .absent) :
    FutureInv cfg actions s id := by
  rcases h with h | h <;>
    exact ⟨by simp [h, Phase.outcome], by simp [h], by simp [h, Phase.isEnded],
      by simp [h, Phase.isEnding]⟩

/-- What a call was told stays. -/
theorem mem_sent (h : Tells s action s' id) {reply : Reply R} (hreply : reply ∈ (s.calls id).sent) :
    reply ∈ (s'.calls id).sent := by
  cases h with
  | keep _ hsent | stop _ _ hsent | drop _ _ _ hsent => rwa [hsent]
  | refuse _ _ _ _ _ _ _ hbefore | compute _ _ _ hbefore | giveBack _ _ _ _ _ _ hbefore =>
    rw [hbefore] at hreply
    cases hreply

/-- The outcome a future takes has a cause. -/
theorem outcome_of_take (htold : ToldInv cfg actions s id) {reply : Reply R}
    (h : reply ∈ (s.calls id).sent ∨ (s.calls id).sent = [] ∧ (s.calls id).senderGone = true ∧
      (s.calls id).sender = .buffered ∧
      reply = .buffered (.error ((s.calls id).control.error.getD .connectionClosed))) :
    reply.isBuffered = (s.calls id).sender.isBuffered ∧
      ((s.calls id).sender.isBuffered = false → reply ∈ (s.calls id).sent) ∧
      Outcome cfg actions id reply (s.calls id).control.terminal := by
  rcases h with hmem | ⟨hnone, hgone, hsender, rfl⟩
  · obtain ⟨hkind, -, houtcome⟩ := htold.sent reply hmem
    exact ⟨hkind, fun _ => hmem, houtcome⟩
  · rw [hsender]
    refine ⟨rfl, (by intro h; cases h), ?_⟩
    rcases htold.consistent.cases hnone with hopen | ⟨error, hstopped⟩
    · rw [hopen]
      refine .ended (.inl rfl) (htold.gone hgone).2 ?_
      simp [CallControl.error, hopen, Reply.result]
    · rw [hstopped]
      refine .stopped (htold.stopped error hstopped) ?_
      simp [CallControl.error_eq_some.mpr hstopped, Reply.result]

/-- After a step the outcome a call took is explained by the actions. -/
theorem step_taken (hinv : FutureInv cfg actions s id) (htold : ToldInv cfg actions s id)
    (htrace : Trace (Conn.step cfg) (fun _ _ => True) (initial cfg) actions s)
    (hstep : Conn.step cfg s action = some s') (htells : Tells s action s' id)
    (hfuture : Future cfg s s' id) (reply : Reply R)
    (houtcome : (s'.calls id).phase.outcome = some reply) :
    Explains cfg (actions ++ [action]) (s'.calls id) id reply := by
  -- A future that has its outcome keeps it.
  have hkeep : (s.calls id).phase.outcome = some reply →
      (s'.calls id).sender = (s.calls id).sender →
      Explains cfg (actions ++ [action]) (s'.calls id) id reply := by
    intro hbefore hsender
    obtain ⟨hkind, hmem, decision, htakes, hcause⟩ := hinv.taken reply hbefore
    rw [Explains, hsender]
    exact ⟨hkind, fun hsegmented => mem_sent htells (hmem hsegmented), decision,
      htakes.snoc action, hcause.snoc action⟩
  cases hfuture with
  | still hphase hstopping hsender => exact hkeep (by rw [← hphase, houtcome]) hsender
  | own act call effect h hcalls hpending =>
    have hsender : (s'.calls id).sender = (s.calls id).sender := by rw [hcalls, h.later.sender]
    cases h with
    | mark | answer | remove | unlisted =>
      rw [hcalls] at houtcome
      exact hkeep houtcome hsender
    | advance hstop h =>
      rw [hcalls] at houtcome
      rcases advances_outcome h houtcome with hphase | ⟨hnone, hphase, htake⟩
      · exact hkeep (by rw [hphase]; rfl) hsender
      · obtain ⟨hkind, hmem, hcause⟩ := outcome_of_take htold htake
        rw [Explains, hsender]
        refine ⟨hkind, fun hsegmented => mem_sent htells (hmem hsegmented), _,
          .last htrace hstep ⟨hnone, ?_, rfl⟩, hcause.snoc action⟩
        rw [hcalls, hphase]
  | new hnew hphase =>
    rw [hphase] at houtcome
    cases houtcome

/-- A step panics no call. -/
theorem step_unpanicked (hinv : FutureInv cfg actions s id) (htold : ToldInv cfg actions s id)
    (hfuture : Future cfg s s' id) : (s'.calls id).phase ≠ .panicked := by
  cases hfuture with
  | still hphase =>
    rw [hphase]
    exact hinv.unpanicked
  | own act call effect h hcalls hpending =>
    rw [hcalls]
    cases h with
    | mark | answer | remove | unlisted => exact hinv.unpanicked
    | advance hstop h =>
      intro hphase
      obtain ⟨hgone, hsegmented⟩ := advances_panicked h hphase
      rw [(htold.gone hgone).1] at hsegmented
      cases hsegmented
  | new hnew hphase =>
    simp [hphase]

/-- After a step a call that ended is not being stopped. -/
theorem step_ended (hinv : FutureInv cfg actions s id) (hfuture : Future cfg s s' id)
    (hended : (s'.calls id).phase.isEnded = true) : (s'.calls id).stopping = none := by
  cases hfuture with
  | still hphase hstopping =>
    rw [hphase] at hended
    rw [hstopping, hinv.ended hended]
  | own act call effect h hcalls hpending =>
    rw [hcalls] at hended ⊢
    cases h with
    | mark hstop =>
      rw [hinv.ended hended] at hstop
      cases hstop
    | answer | remove | unlisted => rfl
    | advance hstop h =>
      have hending : call.phase.isEnding = true := by
        cases hphase : call.phase <;> rw [hphase] at hended <;> first | rfl | cases hended
      rcases advances_isEnding hstop h hending with ⟨-, hnone⟩ | ⟨-, hfalse⟩
      · exact hnone
      · rw [hfalse] at hended
        cases hended
  | new hnew hphase =>
    rw [hphase] at hended
    cases hended

/-- After a step a call that ends without being stopped is not listed. -/
theorem step_cleared (hinv : FutureInv cfg actions s id) (hreg : RegistryInv s)
    (hmove : Moves cfg s action s') (hending : (s'.calls id).phase.isEnding = true)
    (hstopping : (s'.calls id).stopping = none) : s'.Unlisted id := by
  -- No entry comes to a call that had none and is past its registration.
  have hkeep : s.Unlisted id → s'.Unlisted id := by
    rintro hbefore xid entry hentry rfl
    rcases (hmove.registryStep hreg.idle).entry_of hentry with ⟨before, hold, htoken⟩ | hqueued
    · exact hbefore xid before hold htoken
    · rw [hqueued] at hending
      cases hending
  cases hmove.future id with
  | still hphase hsame =>
    rw [hphase] at hending
    rw [hsame] at hstopping
    exact hkeep (hinv.cleared hending hstopping)
  | own act call effect h hcalls hpending =>
    rw [hcalls] at hending hstopping
    cases h with
    | mark => cases hstopping
    | answer | remove =>
      rintro xid entry hentry rfl
      rw [hpending] at hentry
      simp only [apply] at hentry
      by_cases hxid : xid = (s.calls entry.token).xid
      · rw [hxid, AList.lookup_erase] at hentry
        cases hentry
      · rw [AList.lookup_erase_ne hxid] at hentry
        exact hxid (hreg.entries xid entry hentry).1.symm
    | unlisted hstop hnone =>
      rintro xid entry hentry rfl
      rw [hpending] at hentry
      simp only [apply] at hentry
      rw [← (hreg.entries xid entry hentry).1] at hentry
      exact hnone entry hentry rfl
    | advance hstop h =>
      rcases advances_isEnding hstop h hending with ⟨hbefore, -⟩ | ⟨hne, -⟩
      · exact hkeep (hinv.cleared hbefore hstop)
      · exact absurd hstopping hne
  | new hnew hphase =>
    rw [hphase] at hending
    cases hending

/-- A step keeps the invariant. -/
theorem step (hinv : FutureInv cfg actions s id) (htold : ToldInv cfg actions s id)
    (hreg : RegistryInv s) (hown : OwnerInv s)
    (htrace : Trace (Conn.step cfg) (fun _ _ => True) (initial cfg) actions s)
    (hstep : Conn.step cfg s action = some s') : FutureInv cfg (actions ++ [action]) s' id := by
  have hmove := moves_of_step hstep
  have htells := hmove.tells hreg hown htold.consistent
  have hfuture := hmove.future id
  exact ⟨hinv.step_taken htold htrace hstep htells hfuture, hinv.step_unpanicked htold hfuture,
    hinv.step_ended hfuture, hinv.step_cleared hreg hmove⟩

/-- Every run satisfies the invariant. -/
theorem of_trace (h : Trace (Conn.step cfg) (fun _ _ => True) (initial cfg) actions s) (id : ℕ) :
    FutureInv cfg actions s id := by
  induction h with
  | nil => exact .of_admitted (.inr rfl)
  | snoc htrace _ hstep ih =>
    exact ih.step (.of_trace htrace id) (.of_reachable htrace.runs) (.of_reachable htrace.runs)
      htrace hstep

end FutureInv

/-! ## Exactly once -/

/-- In every reachable state a call was sent at most one value. -/
theorem sent_length_le (h : Reachable cfg s) (id : ℕ) : (s.calls id).sent.length ≤ 1 := by
  cases hregistered : (s.calls id).phase.isRegistered with
  | true =>
    have hone := (OwnerInv.of_reachable h).owner id hregistered
    unfold owners usedUp at hone
    omega
  | false =>
    rw [((RegistryInv.of_reachable h).untouched id hregistered).2.2.1]
    exact Nat.zero_le 1

/-- Exactly-once outcome and ownership.  On every run, for every call: at most one value is ever
sent to its waiter; a finished call took its outcome at one step, and the decision recorded for it
at that step says why it is this one (the error of the first stop; or the reply the reader computed
from the record it took the call for; or a closed connection, if the reader ended while it held the
sender); a segmented call that finishes was handed its receiver, once, and no call comes to miss it;
and a finished or dropped call has no entry left in the registry. -/
theorem exactly_once (cfg : Config) (actions : List (Action R)) (s : Conn R)
    (h : Trace (step cfg) (fun _ _ => True) (initial cfg) actions s) (id : ℕ) :
    (s.calls id).sent.length ≤ 1 ∧
    (∀ reply, (s.calls id).phase = .finished reply →
      ∃ decision, Happened (step cfg) (initial cfg) actions (Takes id reply decision) ∧
        Outcome cfg actions id reply decision) ∧
    (∀ reply, (s.calls id).phase = .finished reply → (s.calls id).sender.isBuffered = false →
      (s.calls id).sent = [reply] ∧ ∃ result target, reply = .segmented result target) ∧
    (s.calls id).phase ≠ .panicked ∧
    ((s.calls id).phase = .dropped ∨ (∃ reply, (s.calls id).phase = .finished reply) →
      ∀ xid entry, s.pending.lookup xid = some entry → entry.token ≠ id) := by
  have hlength := sent_length_le h.runs id
  have hinv := FutureInv.of_trace h id
  refine ⟨hlength, fun reply hphase => ?_, fun reply hphase hsegmented => ?_, hinv.unpanicked,
    fun hphase => ?_⟩
  · exact (hinv.taken reply (by rw [hphase]; rfl)).2.2
  · obtain ⟨hkind, hmem, -⟩ := hinv.taken reply (by rw [hphase]; rfl)
    refine ⟨?_, ?_⟩
    · obtain ⟨reply', hsent⟩ : ∃ reply', (s.calls id).sent = [reply'] :=
        List.length_eq_one_iff.mp (le_antisymm hlength (List.length_pos_of_mem (hmem hsegmented)))
      have hmem := hmem hsegmented
      rw [hsent, List.mem_singleton] at hmem
      rw [hsent, hmem]
    · rw [hsegmented] at hkind
      rcases reply with result | ⟨result, target⟩
      · cases hkind
      · exact ⟨result, target, rfl⟩
  · have hended : (s.calls id).phase.isEnded = true := by
      rcases hphase with hphase | ⟨reply, hphase⟩ <;> rw [hphase] <;> rfl
    have hending : (s.calls id).phase.isEnding = true := by
      rcases hphase with hphase | ⟨reply, hphase⟩ <;> rw [hphase] <;> rfl
    exact hinv.cleared hending (hinv.ended hended)

/-- A segmented call is cancelled while the reader receives its record. -/
theorem exactly_once_cancelled : ∃ (actions : List (Action Buffers)) (s : Conn Buffers)
    (reply : Reply Buffers),
    Trace (step .plain) (fun _ _ => True) (initial .plain) actions s ∧
    (s.calls 0).phase = .finished reply ∧ reply.result = .error .cancelled ∧
    (s.calls 0).sent = [reply] ∧ (∃ result target, reply = .segmented result target) ∧
    (∃ decision, Happened (step .plain) (initial .plain) actions (Takes 0 reply decision) ∧
      Outcome .plain actions 0 reply decision) ∧
    ∀ xid entry, s.pending.lookup xid = some entry → entry.token ≠ 0 := by
  obtain ⟨s, htrace, hseen⟩ := @exists_trace Buffers _ .plain
    [.admitCall (.into ⟨.nullCall 7, []⟩ ⟨[[0, 0]], 0, 0⟩) ⟨true, .none⟩, .call 0 .step,
      .read (.bytes [128, 0, 0, 24]), .read (.bytes [0, 0, 0, 7]), .turn,
      .call 0 (.interrupt .cancelled), .call 0 .step, .noticeStop, .call 0 .step,
      .call 0 .receive, .call 0 .step, .call 0 .step, .call 0 .step] _
    (fun s => ((s.calls 0).phase.finalResult, (s.calls 0).sender.isBuffered))
    (some (.error .cancelled), false) (by decide +kernel)
  obtain ⟨hresult, hsegmented⟩ := Prod.mk.inj hseen
  obtain ⟨-, houtcome, hreceiver, -, hcleared⟩ := exactly_once .plain _ s htrace 0
  unfold Phase.finalResult at hresult
  split at hresult
  · next reply hphase =>
    obtain ⟨hsent, htarget⟩ := hreceiver reply hphase hsegmented
    exact ⟨_, s, reply, htrace, hphase, Option.some.inj hresult, hsent, htarget,
      houtcome reply hphase, hcleared (.inr ⟨reply, hphase⟩)⟩
  · cases hresult

end Conn

end OncRpc
