import OncRpc.Owned.ConnectionMoves

/-!
# The registry of a connection

A call is registered from the moment its entry enters the registry.  `Call.Later` says how a call
may change once it is there: its request stays, a registered call stays registered, and its terminal
decision stays.  `RegistryInv` collects what holds of the registry in every reachable state, and
`closed_is_terminal` is the result: a closed connection stays closed with its first error, has no
entry, and takes none.
-/

namespace OncRpc

open Foundation

variable {R : Type}

/-! ## How a call changes -/

/-- The call has entered the registry. -/
def Phase.isRegistered : Phase R → Bool
  | .absent | .admitted | .refused _ | .discarded => false
  | _ => true

/-- What stays of a call. -/
structure Call.Later (call call' : Call R) : Prop where
  xid : call'.xid = call.xid
  segments : call'.segments = call.segments
  sender : call'.sender = call.sender
  registered : call.phase.isRegistered = true → call'.phase.isRegistered = true
  terminal : ∀ decision, call.control.terminal = some decision →
    call'.control.terminal = some decision

namespace Call

variable {cfg : Config} {view : View R} {id : ℕ} {call call' : Call R} {action : CallAction}
  {effect : Effect}

/-- A call is no later than itself. -/
theorem Later.refl (call : Call R) : call.Later call := ⟨rfl, rfl, rfl, id, fun _ => id⟩

/-- Going on to a phase keeps the call, if it keeps its registration. -/
theorem Later.of_phase {phase : Phase R} {stopping : Option Stopping}
    (h : call.phase.isRegistered = true → phase.isRegistered = true) :
    call.Later { call with phase := phase, stopping := stopping } :=
  ⟨rfl, rfl, rfl, h, fun _ => id⟩

/-- Answering a call keeps it. -/
theorem Later.answer (call : Call R) (sender : ResponseSender R)
    (received : Except RuntimeError (RpcMessage × ℕ)) : call.Later (call.answer sender received) :=
  ⟨rfl, rfl, rfl, id, fun _ h => CallControl.finish_terminal h received⟩

/-- The step of a registration: into the registry, aside, or inside it. -/
theorem Advances.registration (h : Advances cfg view call action call' effect) :
    (call.phase.isRegistered = true ∧ call'.phase.isRegistered = true ∧ effect ≠ .register) ∨
    (call.phase = .admitted ∧ call' = call.goto .queued ∧ effect = .register ∧
      view.closed = none ∧ view.entry = none) ∨
    (call.phase = .admitted ∧ effect = .none ∧
      ∃ phase : Phase R, phase.isRegistered = false ∧ call' = call.goto phase) := by
  cases h with
  | register hphase hclosed hentry => exact .inr (.inl ⟨hphase, rfl, rfl, hclosed, hentry⟩)
  | refuse hphase herror => exact .inr (.inr ⟨hphase, rfl, _, rfl, rfl⟩)
  | discard hphase => exact .inr (.inr ⟨hphase, rfl, _, rfl, rfl⟩)
  | dropWait hphase =>
    refine .inl ⟨?_, rfl, nofun⟩
    rcases hphase with hphase | hphase | hphase <;> rw [hphase] <;> rfl
  | receive hphase _ | lost hphase _ _ _ | panic hphase _ _ _ =>
    refine .inl ⟨?_, rfl, nofun⟩
    rcases hphase with hphase | hphase <;> rw [hphase] <;> rfl
  | @settle result written hphase =>
    refine .inl ⟨by rw [hphase]; rfl, ?_⟩
    rcases result with error | ⟨⟨⟩⟩
    · refine ⟨rfl, ?_⟩
      simp only [Call.settle]
      split_ifs <;> nofun
    · exact ⟨rfl, nofun⟩
  | guard hphase =>
    refine .inl ⟨by rw [hphase]; rfl, rfl, ?_⟩
    split_ifs <;> nofun
  | retire hphase =>
    refine .inl ⟨by rw [hphase]; rfl, rfl, ?_⟩
    split_ifs <;> nofun
  | @unlock next hphase =>
    refine .inl ⟨by rw [hphase]; rfl, ?_, nofun⟩
    rcases next with ⟨_ | _⟩ | _ <;> rfl
  | lock hphase _ | giveUp hphase _ | checkFails hphase _ | check hphase _ _
  | accept hphase _ _ _ _ | acceptNone hphase _ | retry hphase _ _ | writeFails hphase _
  | flush hphase _ | stopUnwritten hphase _ | stopWritten hphase _ _ | dropWrite hphase
  | stopWait hphase _ | finish hphase | dropped hphase =>
    exact .inl ⟨by rw [hphase]; rfl, rfl, nofun⟩

/-- An advance does not remove an entry. -/
theorem Advances.ne_remove (h : Advances cfg view call action call' effect) : effect ≠ .remove := by
  cases h with
  | @settle result written hphase =>
    rcases result with error | ⟨⟨⟩⟩
    · simp only [Call.settle]
      split_ifs <;> nofun
    · nofun
  | guard | retire => split_ifs <;> nofun
  | _ => nofun

/-- Only a registration has the effect of one. -/
theorem Moves.of_register (h : Moves cfg view id call action call' .register) :
    call.phase = .admitted ∧ call' = call.goto .queued ∧ view.closed = none ∧
      view.entry = none := by
  cases h with
  | advance hstop h =>
    rcases h.registration with ⟨-, -, hne⟩ | ⟨hphase, hcall, -, hclosed, hentry⟩ | ⟨-, hne, -⟩
    · exact absurd rfl hne
    · exact ⟨hphase, hcall, hclosed, hentry⟩
    · cases hne

/-- Any other effect on the shared state is the effect of a registered call. -/
theorem Moves.registered (h : Moves cfg view id call action call' effect)
    (hidle : call.phase.isRegistered = false → call.stopping = none) (hnone : effect ≠ .none)
    (hregister : effect ≠ .register) : call'.phase.isRegistered = true := by
  have hstopping : ∀ stopping, call.stopping = some stopping → call.phase.isRegistered = true := by
    intro stopping hstop
    by_contra hno
    rw [hidle (by simpa using hno)] at hstop
    cases hstop
  cases h with
  | mark hstop => exact absurd rfl hnone
  | answer hstop _ => exact hstopping _ hstop
  | remove hstop _ => exact hstopping _ hstop
  | unlisted hstop _ => exact absurd rfl hnone
  | advance hstop h =>
    rcases h.registration with ⟨-, hr, -⟩ | ⟨-, -, heq, -⟩ | ⟨-, heq, -⟩
    · exact hr
    · exact absurd heq hregister
    · exact absurd heq hnone

/-- A step of a call that is not being stopped changes nothing but where the call is. -/
theorem Advances.eq_goto (h : Advances cfg view call action call' effect) :
    call' = { call with phase := call'.phase, stopping := call'.stopping } := by
  cases h with
  | @settle result written hphase => rcases result with error | ⟨⟨⟩⟩ <;> rfl
  | @unlock next hphase => rcases next with ⟨_ | _⟩ | _ <;> rfl
  | _ => rfl

/-- Every move of a call takes it to a later state. -/
theorem Moves.later (h : Moves cfg view id call action call' effect) : call.Later call' := by
  cases h with
  | mark hstop =>
    exact ⟨rfl, rfl, rfl, fun hr => hr, fun _ hd => CallControl.stop_terminal hd _⟩
  | @answer error sender hstop hentry =>
    have hlater := Later.answer call sender (.error error)
    exact ⟨hlater.xid, hlater.segments, hlater.sender, hlater.registered, hlater.terminal⟩
  | remove hstop hentry => exact .of_phase fun hr => hr
  | unlisted hstop hentry => exact .of_phase fun hr => hr
  | advance hstop h =>
    rw [h.eq_goto]
    refine .of_phase fun hr => ?_
    rcases h.registration with ⟨-, hr', -⟩ | ⟨-, rfl, -⟩ | ⟨hphase, -⟩
    · exact hr'
    · rfl
    · rw [hphase] at hr
      cases hr

end Call

namespace Conn

variable [ReplyReceiver R] {cfg : Config} {s s' : Conn R} {action : Action R}

omit [ReplyReceiver R] in
/-- Changing one call beside what is looked at. -/
theorem update_eq {α : Type} (f : Call R → α) {id : ℕ} {call : Call R}
    (h : f call = f (s.calls id)) (id' : ℕ) :
    f (Function.update s.calls id call id') = f (s.calls id') := by
  by_cases heq : id' = id
  · rw [heq, Function.update_self, h]
  · rw [Function.update_of_ne heq]

omit [ReplyReceiver R] in
/-- Changing one call so that it stays keeps every call. -/
theorem later_update {id : ℕ} {call : Call R} (h : (s.calls id).Later call) (id' : ℕ) :
    (s.calls id').Later (Function.update s.calls id call id') := by
  by_cases hid : id' = id
  · rw [hid, Function.update_self]
    exact h
  · rw [Function.update_of_ne hid]
    exact .refl _

omit [ReplyReceiver R] in
/-- A failing connection keeps the calls it answers. -/
theorem later_failCall (call : Call R) (error : RuntimeError)
    (sender : Option (ResponseSender R)) : call.Later (failCall call error sender) := by
  have hstop : call.Later { call with control := call.control.stop error } :=
    ⟨rfl, rfl, rfl, fun hr => hr, fun _ hd => CallControl.stop_terminal hd _⟩
  cases sender with
  | none => exact hstop
  | some sender =>
    refine ⟨rfl, rfl, rfl, fun hr => hr, fun decision hd => ?_⟩
    exact CallControl.finish_terminal (hstop.terminal decision hd) _

omit [ReplyReceiver R] in
/-- Losing its sender keeps a call. -/
theorem later_dropped (token : ℕ) (sender : ResponseSender R) :
    (s.calls token).Later (s.dropped token sender) := by
  cases sender with
  | buffered => exact ⟨rfl, rfl, rfl, fun hr => hr, fun _ hd => hd⟩
  | segmented target => exact .answer _ _ _

/-- A step of the reader keeps every call. -/
theorem ReaderMoves.later (h : ReaderMoves cfg s action s') (id : ℕ) :
    (s.calls id).Later (s'.calls id) := by
  cases h with
  | @answer token xid receive received hreader hpoll hcontrol =>
    refine later_update ?_ id
    refine ⟨rfl, rfl, rfl, fun hr => hr, fun decision hd => ?_⟩
    have herror : decision = .ok () := by
      rcases decision with error | ⟨⟨⟩⟩
      · rw [CallControl.error_eq_some.mpr hd] at hcontrol
        cases hcontrol
      · rfl
    rw [herror]
  | stopped =>
    refine later_update ?_ id
    exact ⟨rfl, rfl, rfl, fun hr => hr, fun _ hd => hd⟩
  | unwind =>
    rw [dropSender_eq]
    exact later_update (later_dropped _ _) id
  | cleanup =>
    rw [cleanup_eq]
    exact .refl _
  | fail | exit =>
    simp only [fail_calls]
    exact .refl _
  | _ => exact .refl _

omit [ReplyReceiver R] in
/-- What does not depend on the decision of a call and on what it was told. -/
def Unanswering {α : Type} (f : Call R → α) : Prop :=
  ∀ call control sent gone,
    f { call with control := control, sent := sent, senderGone := gone } = f call

omit [ReplyReceiver R] in
/-- Answering a call does not move its future. -/
theorem failCall_eq {α : Type} {f : Call R → α} (hf : Unanswering f) (call : Call R)
    (error : RuntimeError) (sender : Option (ResponseSender R)) :
    f (failCall call error sender) = f call := by
  unfold failCall
  cases sender <;> exact hf call _ _ _

/-- The reader does not move the futures of calls. -/
theorem ReaderMoves.eq_of_unanswering (h : ReaderMoves cfg s action s') {α : Type}
    {f : Call R → α} (hf : Unanswering f) (id : ℕ) : f (s'.calls id) = f (s.calls id) := by
  cases h with
  | answer | stopped => exact update_eq f (hf _ _ _ _) id
  | unwind =>
    rw [dropSender_eq]
    refine update_eq f ?_ id
    unfold dropped
    split <;> exact hf (s.calls _) _ _ _
  | cleanup => rw [cleanup_eq]
  | fail | exit => simp only [fail_calls]
  | _ => rfl

omit [ReplyReceiver R] in
/-- The phase of a call is not touched by answering it. -/
theorem unanswering_phase : Unanswering (Call.phase : Call R → Phase R) := fun _ _ _ _ => rfl

/-- The reader does not move the futures of calls. -/
theorem ReaderMoves.phase_eq (h : ReaderMoves cfg s action s') (id : ℕ) :
    (s'.calls id).phase = (s.calls id).phase :=
  h.eq_of_unanswering unanswering_phase id

/-- A step keeps every call that exists. -/
theorem Moves.later (h : Moves cfg s action s') (hfresh : s.calls s.created = Call.absent) {id : ℕ}
    (hid : (s.calls id).phase ≠ .absent) : (s.calls id).Later (s'.calls id) := by
  cases h with
  | admitCall hreleased hprepare =>
    have hne : id ≠ s.created := by
      intro heq
      rw [heq, hfresh] at hid
      exact hid rfl
    simp only [Function.update_of_ne hne]
    exact .refl _
  | call hbusy h => exact later_update h.later id
  | reader hbusy h => exact h.later id
  | failNext hjob hentry => exact later_update (later_failCall _ _ _) id
  | close hreleased =>
    simp only [fail_calls]
    exact .refl _
  | failDone | poll | closeAbort | closeTake | release => exact .refl _

/-! ## What a step does to the registry -/

/-- What a step does to the closed state, the entries, and the loop over the entries taken. -/
inductive RegistryStep (s s' : Conn R) : Prop
  | keep (hclosed : s'.closed = s.closed) (hpending : s'.pending = s.pending)
    (hjob : s'.job = s.job)
  | register (id : ℕ) (hopen : s.closed = none) (hclosed : s'.closed = s.closed)
    (hphase : (s.calls id).phase = .admitted) (hphase' : (s'.calls id).phase = .queued)
    (hentry : s.pending.lookup (s.calls id).xid = none)
    (hpending : s'.pending =
      s.pending.insert (s.calls id).xid ⟨id, some (s.calls id).sender⟩)
    (hjob : s'.job = s.job)
  | take (xid : Xid) (token : ℕ) (sender : ResponseSender R) (hclosed : s'.closed = s.closed)
    (hentry : s.pending.lookup xid = some ⟨token, some sender⟩)
    (hpending : s'.pending = s.pending.insert xid ⟨token, none⟩) (hjob : s'.job = s.job)
  | erase (xid : Xid) (hclosed : s'.closed = s.closed) (hpending : s'.pending = s.pending.erase xid)
    (hjob : s'.job = s.job)
  | fail (party : Party) (error : RuntimeError) (hopen : s.closed = none)
    (hclosed : s'.closed = some error) (hpending : s'.pending = ∅)
    (hjob : s'.job = some ⟨party, error, s.pending⟩)
    (howner : ∀ id, party = .call id → (s'.calls id).phase.isRegistered = true)
  | next (job : FailJob R) (xid : Xid) (hclosed : s'.closed = s.closed)
    (hpending : s'.pending = s.pending) (hjob : s.job = some job)
    (hjob' : s'.job = some { job with remaining := job.remaining.erase xid })
  | done (hclosed : s'.closed = s.closed) (hpending : s'.pending = s.pending)
    (hjob : s'.job = none)

omit [ReplyReceiver R] in
/-- A failing connection takes its entries, unless it had failed. -/
theorem RegistryStep.of_fail (party : Party) (error : RuntimeError)
    (hclosed : s'.closed = (s.fail party error).closed)
    (hpending : s'.pending = (s.fail party error).pending)
    (hjob : s'.job = (s.fail party error).job)
    (howner : ∀ id, party = .call id → (s'.calls id).phase.isRegistered = true) :
    RegistryStep s s' := by
  cases h : s.closed with
  | none =>
    rw [fail_of_open s party error h] at hclosed hpending hjob
    exact .fail party error h hclosed hpending hjob howner
  | some error' =>
    rw [fail_of_closed s party error h] at hclosed hpending hjob
    exact .keep hclosed hpending hjob

/-- A step of the reader on the registry. -/
theorem ReaderMoves.registryStep (h : ReaderMoves cfg s action s') : RegistryStep s s' := by
  cases h with
  | take hreader hreleased hentry => exact .take _ _ _ rfl hentry rfl rfl
  | unwind =>
    rw [dropSender_eq]
    exact .keep rfl rfl rfl
  | @cleanup token xid result hreader =>
    rw [cleanup_eq]
    rcases cleanup_pending s token xid with hkeep | herase
    · exact .keep rfl hkeep rfl
    · exact .erase xid rfl herase rfl
  | fail => exact .of_fail _ _ rfl rfl rfl nofun
  | exit => exact .of_fail _ _ rfl rfl rfl nofun
  | _ => exact .keep rfl rfl rfl

/-- A step of a connection on its registry. -/
theorem Moves.registryStep (h : Moves cfg s action s')
    (hidle : ∀ id, (s.calls id).phase.isRegistered = false → (s.calls id).stopping = none) :
    RegistryStep s s' := by
  cases h with
  | @call id action call effect hbusy h =>
    cases effect with
    | register =>
      obtain ⟨hphase, rfl, hclosed, hentry⟩ := h.of_register
      refine .register id hclosed rfl hphase ?_ hentry rfl rfl
      simp only [Function.update_self]
      rfl
    | remove => exact .erase _ rfl rfl rfl
    | fail error =>
      refine .of_fail (.call id) error rfl rfl rfl fun id' hid => ?_
      cases hid
      simp only [Function.update_self]
      exact h.registered (hidle id) nofun nofun
    | _ => exact .keep rfl rfl rfl
  | reader hbusy h => exact h.registryStep
  | failNext hjob hentry => exact .next _ _ rfl rfl hjob rfl
  | failDone hjob hempty => exact .done rfl rfl rfl
  | close hreleased => exact .of_fail _ _ rfl rfl rfl nofun
  | admitCall | poll | closeAbort | closeTake | release => exact .keep rfl rfl rfl

omit [ReplyReceiver R] in
/-- A closed connection keeps its error. -/
theorem RegistryStep.closed_stays (h : RegistryStep s s') {error : RuntimeError}
    (hclosed : s.closed = some error) : s'.closed = some error := by
  cases h with
  | fail _ _ hopen =>
    rw [hopen] at hclosed
    cases hclosed
  | keep h | register _ _ h | take _ _ _ h | erase _ h | next _ _ h | done h => rw [h, hclosed]

/-- Bytes are accepted only from a registered call. -/
theorem Moves.writes (h : Moves cfg s action s')
    (hidle : ∀ id, (s.calls id).phase.isRegistered = false → (s.calls id).stopping = none) :
    s'.writes = s.writes ∨ ∃ id chunk, s'.writes = s.writes ++ [(id, chunk)] ∧
      (s'.calls id).phase.isRegistered = true := by
  cases h with
  | @call id action call effect hbusy h =>
    cases effect with
    | accept chunk =>
      refine .inr ⟨id, chunk, rfl, ?_⟩
      simp only [Function.update_self]
      exact h.registered (hidle id) nofun nofun
    | fail error => exact .inl (fail_writes s _ _)
    | _ => exact .inl rfl
  | reader hbusy h =>
    refine .inl ?_
    cases h with
    | unwind => rw [dropSender_eq]
    | cleanup => rw [cleanup_eq]
    | fail | exit => simp only [fail_writes]
    | _ => rfl
  | close hreleased => exact .inl (fail_writes s _ _)
  | failNext | failDone | poll | admitCall | closeAbort | closeTake | release => exact .inl rfl

/-! ## The invariant -/

omit [ReplyReceiver R] in
/-- The entry stands under the transaction id of a registered call, with the call's own sender. -/
def Lists (s : Conn R) (xid : Xid) (entry : Pending R) : Prop :=
  (s.calls entry.token).xid = xid ∧ (s.calls entry.token).phase.isRegistered = true ∧
    ∀ sender, entry.sender = some sender → sender = (s.calls entry.token).sender

/-- The reader receives for a registered call, with a sender of its kind. -/
def Serves (s : Conn R) (token : ℕ) (xid : Xid) (receive : Receive R) : Prop :=
  (s.calls token).xid = xid ∧ (s.calls token).phase.isRegistered = true ∧
    receive.stage.sender.isBuffered = (s.calls token).sender.isBuffered

/-- A call that has not entered the registry was touched by nobody. -/
def Untouched (call : Call R) : Prop :=
  call.stopping = none ∧ call.control = .fresh ∧ call.sent = [] ∧ call.senderGone = false

/-- What holds of the registry in every reachable state. -/
structure RegistryInv (s : Conn R) : Prop where
  fresh : ∀ id, s.created ≤ id → s.calls id = Call.absent
  untouched : ∀ id, (s.calls id).phase.isRegistered = false → Untouched (s.calls id)
  entries : ∀ xid entry, s.pending.lookup xid = some entry → s.Lists xid entry
  taken : ∀ job, s.job = some job → ∀ xid entry, job.remaining.lookup xid = some entry →
    s.Lists xid entry
  owner : ∀ job id, s.job = some job → job.owner = .call id →
    (s.calls id).phase.isRegistered = true
  empty : s.closed.isSome = true → s.pending = ∅
  failed : s.job.isSome = true → s.closed.isSome = true
  writes : ∀ write ∈ s.writes, (s.calls write.1).phase.isRegistered = true
  receiving : ∀ token xid receive, s.reader = .receiving token xid receive →
    s.Serves token xid receive

namespace RegistryInv

omit [ReplyReceiver R] in
/-- A call that is not registered is not being stopped. -/
theorem idle (h : RegistryInv s) (id : ℕ) (hid : (s.calls id).phase.isRegistered = false) :
    (s.calls id).stopping = none :=
  (h.untouched id hid).1

omit [ReplyReceiver R] in
/-- A registered call is not absent. -/
theorem ne_absent {phase : Phase R} (h : phase.isRegistered = true) : phase ≠ .absent := by
  rintro rfl
  cases h

/-- A registered call stays registered. -/
theorem stays_registered (hinv : RegistryInv s) (h : Moves cfg s action s') {id : ℕ}
    (hid : (s.calls id).phase.isRegistered = true) : (s'.calls id).phase.isRegistered = true :=
  (h.later (hinv.fresh _ le_rfl) (ne_absent hid)).registered hid

/-- An entry stays listed. -/
theorem stays_listed (hinv : RegistryInv s) (h : Moves cfg s action s') {xid : Xid}
    {entry : Pending R} (hlists : s.Lists xid entry) : s'.Lists xid entry := by
  obtain ⟨hxid, hregistered, hsender⟩ := hlists
  have hlater := h.later (hinv.fresh _ le_rfl) (ne_absent hregistered)
  refine ⟨hlater.xid.trans hxid, hlater.registered hregistered, fun sender hsome => ?_⟩
  rw [hlater.sender]
  exact hsender sender hsome

/-- A call that a step changes was registered and stays so, was refused or discarded, or is new. -/
theorem call_cases (hinv : RegistryInv s) (h : Moves cfg s action s') (id : ℕ) :
    s'.calls id = s.calls id ∨ (s.calls id).phase.isRegistered = true ∨
      ((s.calls id).phase = .admitted ∧ ∃ phase : Phase R, s'.calls id = (s.calls id).goto phase ∧
        (phase.isRegistered = true → s.closed = none)) ∨
      (id = s.created ∧ s'.created = s.created + 1 ∧ Untouched (s'.calls id) ∧
        (s'.calls id).phase = .admitted) := by
  have hupdate : ∀ {token : ℕ} {call : Call R}, (s.calls token).phase.isRegistered = true →
      Function.update s.calls token call id = s.calls id ∨
        (s.calls id).phase.isRegistered = true := by
    intro token call htoken
    by_cases hid : id = token
    · exact .inr (hid ▸ htoken)
    · exact .inl (Function.update_of_ne hid _ _)
  cases h with
  | admitCall hreleased hprepare =>
    by_cases hid : id = s.created
    · refine .inr (.inr (.inr ⟨hid, rfl, ?_⟩))
      simp only [hid, Function.update_self]
      exact ⟨⟨rfl, rfl, rfl, rfl⟩, trivial⟩
    · exact .inl (Function.update_of_ne hid _ _)
  | @call token action call effect hbusy h =>
    by_cases hid : id = token
    · subst hid
      simp only [Function.update_self]
      cases hr : (s.calls id).phase.isRegistered with
      | true => exact .inr (.inl rfl)
      | false =>
        have hidle := hinv.idle id hr
        cases h with
        | advance hstop h =>
          rcases h.registration with
            ⟨hr', -⟩ | ⟨hphase, hcall, -, hopen, -⟩ | ⟨hphase, -, phase, haside, hcall⟩
          · rw [hr] at hr'
            cases hr'
          · exact .inr (.inr (.inl ⟨hphase, _, hcall, fun _ => hopen⟩))
          · refine .inr (.inr (.inl ⟨hphase, phase, hcall, fun hin => ?_⟩))
            rw [haside] at hin
            cases hin
        | mark hstop | answer hstop _ | remove hstop _ | unlisted hstop _ =>
          rw [hidle] at hstop
          cases hstop
    · exact .inl (Function.update_of_ne hid _ _)
  | reader hbusy h =>
    cases h with
    | answer hreader | stopped hreader =>
      exact (hupdate (hinv.receiving _ _ _ hreader).2.1).imp_right .inl
    | unwind hreader =>
      rw [dropSender_eq]
      exact (hupdate (hinv.receiving _ _ _ hreader).2.1).imp_right .inl
    | cleanup =>
      rw [cleanup_eq]
      exact .inl rfl
    | fail | exit =>
      simp only [fail_calls]
      exact .inl trivial
    | _ => exact .inl rfl
  | failNext hjob hentry =>
    exact (hupdate (hinv.taken _ hjob _ _ hentry).2.1).imp_right .inl
  | close hreleased =>
    simp only [fail_calls]
    exact .inl trivial
  | failDone | poll | closeAbort | closeTake | release => exact .inl rfl

/-! ### Preservation -/

/-- A step leaves the calls that were not created absent. -/
theorem step_fresh (hinv : RegistryInv s) (h : Moves cfg s action s') (id : ℕ)
    (hid : s'.created ≤ id) : s'.calls id = Call.absent := by
  have hcreated : s.created ≤ s'.created := by
    cases h with
    | admitCall => exact Nat.le_succ _
    | reader hbusy h =>
      cases h with
      | unwind => rw [dropSender_eq]
      | cleanup => rw [cleanup_eq]
      | fail | exit => simp only [fail_created, le_refl]
      | _ => exact le_rfl
    | call | close => simp only [apply_created, fail_created, le_refl]
    | failNext | failDone | poll | closeAbort | closeTake | release => exact le_rfl
  have habsent := hinv.fresh id (hcreated.trans hid)
  rcases hinv.call_cases h id with heq | hr | ⟨hphase, -⟩ | ⟨heq, hnew, -, -⟩
  · rw [heq, habsent]
  · rw [habsent] at hr
    cases hr
  · rw [habsent] at hphase
    cases hphase
  · omega

/-- After a step a call without registration is untouched. -/
theorem step_untouched (hinv : RegistryInv s) (h : Moves cfg s action s') (id : ℕ)
    (hid : (s'.calls id).phase.isRegistered = false) : Untouched (s'.calls id) := by
  rcases hinv.call_cases h id with heq | hr | ⟨hphase, phase, heq, -⟩ | ⟨-, -, hnew, -⟩
  · rw [heq] at hid ⊢
    exact hinv.untouched id hid
  · rw [hinv.stays_registered h hr] at hid
    cases hid
  · have hold := hinv.untouched id (by rw [hphase]; rfl)
    rw [heq]
    exact hold
  · exact hnew

/-- After a step every entry of the registry is listed. -/
theorem step_entries (hinv : RegistryInv s) (h : Moves cfg s action s') (xid : Xid)
    (entry : Pending R) (hentry : s'.pending.lookup xid = some entry) : s'.Lists xid entry := by
  cases h.registryStep hinv.idle with
  | keep _ hpending | next _ _ _ hpending | done _ hpending =>
    rw [hpending] at hentry
    exact hinv.stays_listed h (hinv.entries xid entry hentry)
  | register id hopen hclosed hphase hphase' hnone hpending =>
    rw [hpending] at hentry
    by_cases hxid : xid = (s.calls id).xid
    · rw [hxid, AList.lookup_insert] at hentry
      cases hentry
      have hlater : (s.calls id).Later (s'.calls id) :=
        h.later (hinv.fresh _ le_rfl) (by rw [hphase]; nofun)
      refine ⟨by rw [hlater.xid, hxid], by rw [hphase']; rfl, fun sender hsender => ?_⟩
      cases hsender
      exact hlater.sender.symm
    · rw [AList.lookup_insert_ne hxid] at hentry
      exact hinv.stays_listed h (hinv.entries xid entry hentry)
  | take xid' token sender hclosed htaken hpending =>
    rw [hpending] at hentry
    by_cases hxid : xid = xid'
    · rw [hxid, AList.lookup_insert] at hentry
      cases hentry
      obtain ⟨hkey, hregistered, -⟩ := hinv.stays_listed h (hinv.entries xid' _ htaken)
      exact ⟨hkey.trans hxid.symm, hregistered, nofun⟩
    · rw [AList.lookup_insert_ne hxid] at hentry
      exact hinv.stays_listed h (hinv.entries xid entry hentry)
  | erase xid' hclosed hpending =>
    rw [hpending] at hentry
    by_cases hxid : xid = xid'
    · rw [hxid, AList.lookup_erase] at hentry
      cases hentry
    · rw [AList.lookup_erase_ne hxid] at hentry
      exact hinv.stays_listed h (hinv.entries xid entry hentry)
  | fail party error hopen hclosed hpending =>
    rw [hpending, AList.lookup_empty] at hentry
    cases hentry

/-- After a step every entry still to be failed is listed. -/
theorem step_taken (hinv : RegistryInv s) (h : Moves cfg s action s') (job : FailJob R)
    (hjob : s'.job = some job) (xid : Xid) (entry : Pending R)
    (hentry : job.remaining.lookup xid = some entry) : s'.Lists xid entry := by
  cases h.registryStep hinv.idle with
  | keep _ _ hsame | register _ _ _ _ _ _ _ hsame | take _ _ _ _ _ _ hsame | erase _ _ _ hsame =>
    rw [hsame] at hjob
    exact hinv.stays_listed h (hinv.taken job hjob xid entry hentry)
  | fail party error hopen hclosed hpending hjob' =>
    rw [hjob'] at hjob
    cases hjob
    exact hinv.stays_listed h (hinv.entries xid entry hentry)
  | next job' xid' hclosed hpending hold hjob' =>
    rw [hjob'] at hjob
    cases hjob
    by_cases hxid : xid = xid'
    · rw [hxid, AList.lookup_erase] at hentry
      cases hentry
    · rw [AList.lookup_erase_ne hxid] at hentry
      exact hinv.stays_listed h (hinv.taken job' hold xid entry hentry)
  | done hclosed hpending hnone =>
    rw [hnone] at hjob
    cases hjob

/-- After a step the call that fails the others is registered. -/
theorem step_owner (hinv : RegistryInv s) (h : Moves cfg s action s') (job : FailJob R) (id : ℕ)
    (hjob : s'.job = some job) (howner : job.owner = .call id) :
    (s'.calls id).phase.isRegistered = true := by
  cases h.registryStep hinv.idle with
  | keep _ _ hsame | register _ _ _ _ _ _ _ hsame | take _ _ _ _ _ _ hsame | erase _ _ _ hsame =>
    rw [hsame] at hjob
    exact hinv.stays_registered h (hinv.owner job id hjob howner)
  | fail party error hopen hclosed hpending hjob' hparty =>
    rw [hjob'] at hjob
    cases hjob
    exact hparty id howner
  | next job' xid' hclosed hpending hold hjob' =>
    rw [hjob'] at hjob
    cases hjob
    exact hinv.stays_registered h (hinv.owner job' id hold howner)
  | done hclosed hpending hnone =>
    rw [hnone] at hjob
    cases hjob

/-- After a step a closed connection has no entries. -/
theorem step_empty (hinv : RegistryInv s) (h : Moves cfg s action s')
    (hclosed : s'.closed.isSome = true) : s'.pending = ∅ := by
  cases h.registryStep hinv.idle with
  | keep hsame hpending | next _ _ hsame hpending | done hsame hpending =>
    rw [hsame] at hclosed
    rw [hpending, hinv.empty hclosed]
  | register id hopen hsame =>
    rw [hsame, hopen] at hclosed
    cases hclosed
  | take xid token sender hsame htaken hpending =>
    rw [hsame] at hclosed
    rw [hinv.empty hclosed, AList.lookup_empty] at htaken
    cases htaken
  | erase xid hsame hpending =>
    rw [hsame] at hclosed
    rw [hpending, hinv.empty hclosed]
    rfl
  | fail party error hopen _ hpending => exact hpending

/-- After a step a connection that is being failed is closed. -/
theorem step_failed (hinv : RegistryInv s) (h : Moves cfg s action s')
    (hjob : s'.job.isSome = true) : s'.closed.isSome = true := by
  cases h.registryStep hinv.idle with
  | keep hclosed _ hsame | register _ _ hclosed _ _ _ _ hsame | take _ _ _ hclosed _ _ hsame
  | erase _ hclosed _ hsame =>
    rw [hsame] at hjob
    rw [hclosed]
    exact hinv.failed hjob
  | fail party error hopen hclosed =>
    rw [hclosed]
    rfl
  | next job xid hclosed _ hold =>
    rw [hclosed]
    exact hinv.failed (by rw [hold]; rfl)
  | done _ _ hnone =>
    rw [hnone] at hjob
    cases hjob

/-- After a step only registered calls have written. -/
theorem step_writes (hinv : RegistryInv s) (h : Moves cfg s action s') (write : ℕ × Bytes)
    (hwrite : write ∈ s'.writes) : (s'.calls write.1).phase.isRegistered = true := by
  rcases h.writes hinv.idle with hsame | ⟨id, chunk, happend, hregistered⟩
  · rw [hsame] at hwrite
    exact hinv.stays_registered h (hinv.writes write hwrite)
  · rw [happend] at hwrite
    rcases List.mem_append.mp hwrite with hold | hnew
    · exact hinv.stays_registered h (hinv.writes write hold)
    · rw [List.mem_singleton.mp hnew]
      exact hregistered

/-- Only the reader changes where the reader is and what it has taken. -/
theorem reader_eq_or (h : Moves cfg s action s') :
    (s'.reader = s.reader ∧ s'.consumed = s.consumed) ∨ ReaderMoves cfg s action s' := by
  cases h with
  | reader hbusy h => exact .inr h
  | call | close =>
    exact .inl ⟨by simp only [apply_reader, fail_reader],
      by simp only [apply_consumed, fail_consumed]⟩
  | admitCall | failNext | failDone | poll | closeAbort | closeTake | release =>
    exact .inl ⟨rfl, rfl⟩

/-- The reader comes to receive for a call by a read, or by its lookup. -/
theorem receiving_cases (h : ReaderMoves cfg s action s') {token : ℕ} {xid : Xid}
    {receive : Receive R} (hreader : s'.reader = .receiving token xid receive) :
    (∃ before result count, action = .read result ∧ s.reader = .receiving token xid before ∧
      before.poll = .await count ∧ answers count result = true ∧ receive = before.resume result ∧
      s' = { s with
        reader := s'.reader, polled := true, consumed := s.consumed ++ Conn.taken result }) ∨
    (∃ cursor bytes sender, s.reader = .lookup cursor bytes ∧ xid = wordOf bytes ∧
      s.pending.lookup xid = some ⟨token, some sender⟩ ∧ receive = .start cursor bytes sender ∧
      s' = { s with reader := s'.reader, pending := s.pending.insert xid ⟨token, none⟩ }) := by
  cases h with
  | @read result phase h =>
    simp only at hreader
    subst hreader
    generalize hbefore : s.reader = before at h
    generalize hafter : ReaderPhase.receiving token xid receive = after at h
    cases h with
    | @xid cursor got count hpoll hanswers =>
      unfold xidPhase at hafter
      split at hafter
      · cases hafter
      · cases hafter
      · split_ifs at hafter
    | @receiving token' xid' before count hpoll hanswers =>
      cases hafter
      exact .inl ⟨before, result, count, rfl, rfl, hpoll, hanswers, rfl, rfl⟩
    | @draining token' xid' cursor count hpoll hanswers =>
      unfold drainPhase at hafter
      split at hafter <;> cases hafter
  | take hlookup hreleased hentry =>
    cases hreader
    exact .inr ⟨_, _, _, hlookup, rfl, hentry, rfl, rfl⟩
  | @cleanup token' xid' result hphase =>
    simp only at hreader
    unfold afterCleanup at hreader
    split at hreader
    · unfold ReaderPhase.nextRecord at hreader
      split at hreader <;> cases hreader
    · cases hreader
  | _ => cases hreader

/-- After a step the receiving reader serves the call it names. -/
theorem step_receiving (hinv : RegistryInv s) (h : Moves cfg s action s') (token : ℕ) (xid : Xid)
    (receive : Receive R) (hreader : s'.reader = .receiving token xid receive) :
    s'.Serves token xid receive := by
  have hstays : ∀ {before : Receive R}, s.Serves token xid before →
      receive.stage.sender.isBuffered = before.stage.sender.isBuffered →
      s'.Serves token xid receive := by
    intro before hserves hkind
    obtain ⟨hxid, hregistered, hsender⟩ := hserves
    have hlater := h.later (hinv.fresh _ le_rfl) (ne_absent hregistered)
    refine ⟨hlater.xid.trans hxid, hlater.registered hregistered, ?_⟩
    rw [hkind, hsender, hlater.sender]
  rcases reader_eq_or h with ⟨hsame, -⟩ | hmove
  · rw [hsame] at hreader
    exact hstays (hinv.receiving token xid receive hreader) rfl
  · rcases receiving_cases hmove hreader with
      ⟨before, result, count, -, hbefore, -, -, rfl, -⟩ |
      ⟨cursor, bytes, sender, -, rfl, hentry, rfl, -⟩
    · exact hstays (hinv.receiving token xid before hbefore) (Receive.resume_isBuffered _ _)
    · obtain ⟨hxid, hregistered, hsender⟩ := hinv.entries _ _ hentry
      refine @hstays (.start cursor bytes sender) ⟨hxid, hregistered, ?_⟩ rfl
      rw [Receive.start_isBuffered, hsender sender rfl]

/-- A step keeps the invariant. -/
theorem step (hinv : RegistryInv s) (h : Moves cfg s action s') : RegistryInv s' where
  fresh := hinv.step_fresh h
  untouched := hinv.step_untouched h
  entries := hinv.step_entries h
  taken := hinv.step_taken h
  owner := hinv.step_owner h
  empty := hinv.step_empty h
  failed := hinv.step_failed h
  writes := hinv.step_writes h
  receiving := hinv.step_receiving h

omit [ReplyReceiver R] in
/-- A new connection satisfies the invariant. -/
theorem initial (cfg : Config) : RegistryInv (Conn.initial cfg : Conn R) where
  fresh _ _ := rfl
  untouched _ _ := ⟨rfl, rfl, rfl, rfl⟩
  entries xid entry h := by
    rw [show (Conn.initial cfg : Conn R).pending = ∅ from rfl, AList.lookup_empty] at h
    cases h
  taken job h := by cases h
  owner job id h := by cases h
  empty h := by cases h
  failed h := by cases h
  writes write h := by cases h
  receiving token xid receive h := by
    rw [show (Conn.initial cfg : Conn R).reader = .nextRecord cfg from rfl,
      ReaderPhase.nextRecord_eq] at h
    cases h

/-- Every reachable state satisfies the invariant. -/
theorem of_reachable (h : Reachable cfg s) : RegistryInv s :=
  h.invariant RegistryInv (initial cfg) fun hinv _ hstep => hinv.step (moves_of_step hstep)

end RegistryInv

end Conn

end OncRpc
