import OncRpc.Owned.Ownership
import OncRpc.Runtime.Admission

/-!
# How long a call stays charged

A call that is admitted holds one permit through two references.  Its future keeps the first until
it returns or is dropped; the second travels with the reply sender through the registry, a failing
connection and the reader.  The permit is given back when the last of the two references goes.

`Leased` is a connection together with its admission counters and these references.  Whoever uses
a reply sender up drops its reference only afterwards, so other tasks can run in between: that drop
is a step of its own, and so is closing the admission of a failing connection.  `LeaseInv` ties the
references to the places of the sender and the counters to the references, and `lease_lifetime` is
the result.
-/

namespace OncRpc

open Foundation

variable {R : Type}

/-! ## Charges and references -/

/-- The charge of a request. -/
def Request.charge (cfg : Config) : Request R → Except RuntimeError ℕ
  | .classic message => messageAdmissionBytes cfg.sizeOfMessage message
  | .into request _ => do
    let (_, charge) ← request.prepare cfg.sizeOfBytes
    sizeOr (checkedAdd charge cfg.sizeOfReceiver) "RPC receiver charge overflow"

/-- The reference to a permit that travels with the reply sender. -/
inductive TargetReference where
  | held
  /-- The sender is used up, and whoever did so is about to drop the reference. -/
  | due
  | gone
  deriving DecidableEq

/-- The permit of a call and the references to it. -/
structure Lease where
  permit : AdmissionPermit
  completion : Bool
  target : TargetReference
  deriving DecidableEq

/-- The action admits a call. -/
def Action.isAdmit : Action R → Bool
  | .admitCall _ _ => true
  | _ => false

/-- The future ended without entering the registry. -/
def Phase.isTurnedAway : Phase R → Bool
  | .refused _ | .discarded => true
  | _ => false

namespace Lease

/-- The lease of a call that does not exist. -/
def none : Lease := ⟨⟨0⟩, false, .gone⟩

/-- Some reference is left. -/
def isHeld (lease : Lease) : Bool := lease.completion || lease.target != .gone

/-- The references after a step of the call: a future that is over has dropped its own, and both if
it never was registered; the reference of a sender that was used up is to be dropped. -/
def after (lease : Lease) (call call' : Call R) : Lease where
  permit := lease.permit
  completion := lease.completion && !call'.phase.isOver
  target :=
    if call'.phase.isTurnedAway then .gone
    else if lease.target = .held ∧ Conn.usedUp call < Conn.usedUp call' then .due
    else lease.target

end Lease

/-! ## The connection with its counters -/

/-- A connection, its admission counters and the references to the permits of its calls. -/
structure Leased (R : Type) where
  conn : Conn R
  admission : AdmissionState
  leases : ℕ → Lease

/-- What can happen. -/
inductive LeaseAction (R : Type) where
  | conn (action : Action R)
  /-- A failing connection closes its admission. -/
  | closeAdmission
  /-- Whoever used the sender of a call up drops its reference. -/
  | dropReference (id : ℕ)

namespace Leased

/-- A new connection with fresh counters. -/
def initial (cfg : Config) (state : AdmissionState) : Leased R where
  conn := .initial cfg
  admission := state
  leases := fun _ => .none

/-- Give back the permits whose last reference went. -/
def giveBack (leases leases' : ℕ → Lease) (ids : List ℕ) (state : AdmissionState) :
    AdmissionState :=
  ids.foldl (fun state id =>
    if (leases id).isHeld && !(leases' id).isHeld then state.release (leases id).permit
    else state) state

/-- The leases follow a step of the connection. -/
def follow (s : Leased R) (conn : Conn R) : Leased R :=
  let leases := fun id => (s.leases id).after (s.conn.calls id) (conn.calls id)
  { conn := conn
    admission := giveBack s.leases leases (List.range s.conn.created) s.admission
    leases := leases }

/-- A call is admitted if its charge can be acquired. -/
def admitCall (cfg : Config) (s : Leased R) (request : Request R) (options : CallOptions) :
    Option (Leased R) :=
  match request.charge cfg with
  | .error _ => none
  | .ok bytes =>
    match s.admission.tryAcquire bytes with
    | (.error _, _) => none
    | (.ok permit, admission) =>
      (s.conn.admitCall cfg request options).map fun conn =>
        { conn := conn
          admission := admission
          leases := Function.update s.leases s.conn.created ⟨permit, true, .held⟩ }

/-- The reference of a used-up sender is dropped. -/
def dropReference (s : Leased R) (id : ℕ) : Option (Leased R) :=
  if (s.leases id).target = .due then
    let leases := Function.update s.leases id { s.leases id with target := .gone }
    some
      { s with
        admission := giveBack s.leases leases (List.range s.conn.created) s.admission
        leases := leases }
  else none

/-- The call is charged. -/
def isCharged (s : Leased R) (id : ℕ) : Bool := (s.leases id).isHeld

/-- The permits that are held, of some calls. -/
def permitsOf (leases : ℕ → Lease) (ids : List ℕ) : List AdmissionPermit :=
  (ids.filter fun id => (leases id).isHeld).map fun id => (leases id).permit

/-- The counters and the permits of the calls that are charged. -/
def charges (s : Leased R) : Admission where
  state := s.admission
  permits := permitsOf s.leases (List.range s.conn.created)

/-- One step.  A failing connection closes its admission before it answers the calls it took. -/
def step [ReplyReceiver R] (cfg : Config) (s : Leased R) : LeaseAction R → Option (Leased R)
  | .conn (.admitCall request options) => s.admitCall cfg request options
  | .conn (.failNext xid) =>
    if s.admission.closed then (s.conn.step cfg (.failNext xid)).map s.follow else none
  | .conn .failDone =>
    if s.admission.closed then (s.conn.step cfg .failDone).map s.follow else none
  | .conn action => (s.conn.step cfg action).map s.follow
  | .closeAdmission =>
    if s.conn.job.isSome then some { s with admission := s.admission.close } else none
  | .dropReference id => s.dropReference id

end Leased

/-! ## What a step does -/

namespace Leased

variable {cfg : Config} {s t : Leased R} {limits : AdmissionLimits}

/-- A step admits a call, follows a step of the connection, closes the admission, or drops the
reference of a used-up sender. -/
theorem step_cases [ReplyReceiver R] {action : LeaseAction R} (h : s.step cfg action = some t) :
    (∃ request options bytes permit, action = .conn (.admitCall request options) ∧
      request.charge cfg = .ok bytes ∧
      s.admission.tryAcquire bytes = (.ok permit, t.admission) ∧
      s.conn.step cfg (.admitCall request options) = some t.conn ∧
      t.leases = Function.update s.leases s.conn.created ⟨permit, true, .held⟩) ∨
    (∃ act conn, action = .conn act ∧ s.conn.step cfg act = some conn ∧ act.isAdmit = false ∧
      t = s.follow conn) ∨
    (action = .closeAdmission ∧ t = { s with admission := s.admission.close }) ∨
    (∃ id, action = .dropReference id ∧ s.dropReference id = some t) := by
  have hfollow : ∀ {act : Action R}, act.isAdmit = false →
      (s.conn.step cfg act).map s.follow = some t → ∃ act' conn, LeaseAction.conn act = .conn act' ∧
        s.conn.step cfg act' = some conn ∧ act'.isAdmit = false ∧ t = s.follow conn := by
    intro act hact hmap
    obtain ⟨conn, hstep, rfl⟩ := Option.map_eq_some_iff.mp hmap
    exact ⟨act, conn, rfl, hstep, hact, rfl⟩
  rcases action with action | _ | id
  · rcases action with ⟨request, options⟩ | _ | _ | _ | _ | _ | xid | _ | _ | _ | _
    · left
      simp only [step, admitCall] at h
      split at h
      · cases h
      · next bytes hcharge =>
        split at h
        · cases h
        · next permit admission hacquire =>
          obtain ⟨conn, hadmit, rfl⟩ := Option.map_eq_some_iff.mp h
          exact ⟨request, options, bytes, permit, rfl, hcharge, hacquire, hadmit, rfl⟩
    all_goals right; left
    case failNext | failDone =>
      simp only [step] at h
      split_ifs at h
      exact hfollow rfl h
    all_goals exact hfollow rfl h
  · simp only [step] at h
    split_ifs at h
    exact .inr (.inr (.inl ⟨rfl, (Option.some.inj h).symm⟩))
  · exact .inr (.inr (.inr ⟨id, rfl, h⟩))

end Leased

/-! ## How the state of a call bears on its lease -/

/-- What a call does not take back: a future that is over, a sender that was used up. -/
structure Call.Ages (call call' : Call R) : Prop where
  finished : call.phase.isOver = true → call'.phase.isOver = true
  turnedAway : call.phase.isTurnedAway = true → call'.phase.isTurnedAway = true
  used : Conn.usedUp call ≤ Conn.usedUp call'

namespace Call.Ages

variable {cfg : Config} {call call' : Call R}

theorem refl (call : Call R) : call.Ages call := ⟨id, id, le_rfl⟩

/-- A call whose future does not move. -/
theorem of_phase (hphase : call'.phase = call.phase)
    (hused : Conn.usedUp call ≤ Conn.usedUp call') : call.Ages call' :=
  ⟨by rw [hphase]; exact id, by rw [hphase]; exact id, hused⟩

/-- Sending a value to a call uses its sender up. -/
theorem used_append (reply : Reply R) (hsent : call'.sent = call.sent ++ [reply])
    (hgone : call'.senderGone = call.senderGone) : Conn.usedUp call ≤ Conn.usedUp call' := by
  simp only [Conn.usedUp, hsent, hgone, List.length_append, List.length_singleton]
  omega

/-- A future that goes on was not over. -/
theorem not_over_of_advances {view : View R} {action : CallAction} {effect : Effect}
    (h : Advances cfg view call action call' effect) : call.phase.isOver = false := by
  cases h with
  | dropWait hphase =>
    rcases hphase with hphase | hphase | hphase <;> rw [hphase] <;> rfl
  | receive hphase | lost hphase | panic hphase =>
    rcases hphase with hphase | hphase <;> rw [hphase] <;> rfl
  | register hphase | refuse hphase | discard hphase | lock hphase | giveUp hphase
  | checkFails hphase | check hphase | accept hphase | acceptNone hphase | retry hphase
  | writeFails hphase | flush hphase | stopUnwritten hphase | stopWritten hphase | dropWrite hphase
  | settle hphase | guard hphase | retire hphase | unlock hphase | stopWait hphase | finish hphase
  | dropped hphase =>
    rw [hphase]
    rfl

/-- A future that was turned away is over. -/
theorem over_of_turnedAway {phase : Phase R} (h : phase.isTurnedAway = true) :
    phase.isOver = true := by
  cases phase <;> first | rfl | cases h

/-- The steps of a call future. -/
theorem of_moves {view : View R} {id : ℕ} {action : CallAction} {effect : Effect}
    (h : Moves cfg view id call action call' effect) : call.Ages call' := by
  cases h with
  | mark | remove | unlisted => exact of_phase rfl le_rfl
  | answer => exact of_phase rfl (used_append _ rfl rfl)
  | advance hstop h =>
    have hrunning := not_over_of_advances h
    refine ⟨fun hover => ?_, fun haway => ?_, ?_⟩
    · rw [hrunning] at hover
      cases hover
    · rw [over_of_turnedAway haway] at hrunning
      cases hrunning
    · rw [h.eq_goto]
      exact le_rfl

end Call.Ages

namespace Conn

/-- The registry, a failing connection or the reader holds the sender of the call. -/
def holdsTarget (s : Conn R) (id : ℕ) : Prop := s.inRegistry id + s.inJob id + s.atReader id ≠ 0

variable {s : Conn R}

/-- A map that holds the sender of a call has an entry for it. -/
theorem lookup_of_held {m : Registry R} {xid : Xid} {id : ℕ} (h : m.held xid id ≠ 0) :
    ∃ sender, m.lookup xid = some ⟨id, some sender⟩ := by
  rcases hentry : m.lookup xid with _ | ⟨token, _ | sender⟩
  · exact absurd (Registry.held_of_none hentry) h
  · exact absurd (Registry.held_of_taken hentry) h
  · obtain rfl : token = id := by
      by_contra hne
      exact h (Registry.held_of_ne hentry hne)
    exact ⟨sender, rfl⟩

/-- The sender of a call is held by somebody from the registration on until it is used up. -/
theorem holdsTarget_iff (hreg : RegistryInv s) (hown : OwnerInv s) (id : ℕ) :
    s.holdsTarget id ↔ (s.calls id).phase.isRegistered = true ∧ usedUp (s.calls id) = 0 := by
  constructor
  · intro hholds
    have hregistered : (s.calls id).phase.isRegistered = true := by
      have hsome : s.inRegistry id ≠ 0 ∨ s.inJob id ≠ 0 ∨ s.atReader id ≠ 0 := by
        unfold holdsTarget at hholds
        omega
      rcases hsome with hin | hin | hin
      · obtain ⟨sender, hentry⟩ := lookup_of_held hin
        exact (hreg.entries _ _ hentry).2.1
      · unfold inJob at hin
        split at hin
        · next job hjob =>
          obtain ⟨sender, hentry⟩ := lookup_of_held hin
          exact (hreg.taken job hjob _ _ hentry).2.1
        · exact absurd rfl hin
      · have hreads : s.reader.holds = some id := by
          by_contra hne
          exact hin (if_neg hne)
        obtain ⟨xid, receive, hreader⟩ := ReaderPhase.of_holds hreads
        exact (hreg.receiving _ _ _ hreader).2.1
    have hone := hown.owner id hregistered
    unfold owners at hone
    unfold holdsTarget at hholds
    exact ⟨hregistered, by omega⟩
  · rintro ⟨hregistered, hused⟩
    have hone := hown.owner id hregistered
    unfold owners at hone
    unfold holdsTarget
    omega

variable [ReplyReceiver R] {cfg : Config} {s' : Conn R} {action : Action R}

omit [ReplyReceiver R] in
/-- Changing one call as it may change. -/
theorem ages_update {token : ℕ} {call : Call R} (h : (s.calls token).Ages call) (id : ℕ) :
    (s.calls id).Ages (Function.update s.calls token call id) := by
  by_cases hid : id = token
  · subst hid
    rwa [Function.update_self]
  · rw [Function.update_of_ne hid]
    exact .refl _

/-- A step of the reader takes nothing back from a call. -/
theorem ReaderMoves.ages (h : ReaderMoves cfg s action s') (id : ℕ) :
    (s.calls id).Ages (s'.calls id) := by
  refine .of_phase (h.phase_eq id) ?_
  cases h with
  | answer | stopped =>
    refine (ages_update (.of_phase ?_ ?_) id).used
    · rfl
    · exact Call.Ages.used_append _ rfl rfl
  | @unwind token xid receive action hreader =>
    rw [dropSender_eq]
    refine (ages_update (.of_phase ?_ ?_) id).used
    · cases receive.stage.sender <;> rfl
    · cases receive.stage.sender with
      | buffered =>
        simp only [dropped, usedUp, if_true]
        split <;> omega
      | segmented target => exact Call.Ages.used_append _ rfl rfl
  | cleanup => rw [cleanup_eq]
  | fail | exit => simp only [fail_calls, le_refl]
  | _ => exact le_rfl

/-- No step takes anything back from a call. -/
theorem Moves.ages (h : Moves cfg s action s') (hfresh : s.calls s.created = Call.absent) (id : ℕ) :
    (s.calls id).Ages (s'.calls id) := by
  cases h with
  | admitCall =>
    refine ages_update ⟨?_, ?_, ?_⟩ id <;> rw [hfresh]
    · nofun
    · nofun
    · exact le_rfl
  | call hbusy h =>
    simp only
    exact ages_update (.of_moves h) id
  | reader hbusy h => exact h.ages id
  | @failNext job xid entry hjob hentry =>
    refine ages_update (.of_phase (failCall_eq unanswering_phase _ _ _) ?_) id
    unfold failCall
    cases entry.sender with
    | none => exact le_rfl
    | some sender => exact Call.Ages.used_append _ rfl rfl
  | close =>
    simp only [fail_calls]
    exact .refl _
  | failDone | poll | closeAbort | closeTake | release => exact .refl _

omit [ReplyReceiver R] in
/-- An admission adds one call that nobody has touched. -/
theorem of_admit {request : Request R} {options : CallOptions}
    (h : s.admitCall cfg request options = some s') :
    s'.created = s.created + 1 ∧ (∀ id ≠ s.created, s'.calls id = s.calls id) ∧
      (s'.calls s.created).phase = .admitted ∧ usedUp (s'.calls s.created) = 0 := by
  unfold admitCall at h
  split_ifs at h
  split at h
  · cases h
  · obtain rfl := Option.some.inj h
    refine ⟨rfl, fun id hid => Function.update_of_ne hid _ _, ?_, ?_⟩ <;>
      simp only [Function.update_self]
    rfl

/-- Only an admission adds a call. -/
theorem Moves.created_eq (h : Moves cfg s action s') (hact : action.isAdmit = false) :
    s'.created = s.created := by
  cases h with
  | admitCall => cases hact
  | reader hbusy h =>
    cases h with
    | unwind => rw [dropSender_eq]
    | cleanup => rw [cleanup_eq]
    | fail | exit => simp only [fail_created]
    | _ => rfl
  | call | close => simp only [apply_created, fail_created]
  | failNext | failDone | poll | closeAbort | closeTake | release => rfl

end Conn

/-! ## The invariant of a lease -/

/-- The references to the permit of a call: the future has its own until it is over, and the other
one is with the sender until that is used up. -/
structure Lease.Fits (lease : Lease) (call : Call R) : Prop where
  completion : lease.completion = !call.phase.isOver
  held : lease.target = .held ↔ call.phase.isTurnedAway = false ∧ Conn.usedUp call = 0
  gone : call.phase.isTurnedAway = true → lease.target = .gone

namespace Lease

variable {lease : Lease} {call call' : Call R}

/-- The references fit the call after every step. -/
theorem Fits.after (h : lease.Fits call) (hages : call.Ages call') :
    (lease.after call call').Fits call' := by
  obtain ⟨hover, haway, hused⟩ := hages
  refine ⟨?_, ?_, fun haway' => if_pos haway'⟩
  · simp only [Lease.after, h.completion]
    cases hp : call.phase.isOver
    · rfl
    · rw [hover hp]
      rfl
  · by_cases haway' : call'.phase.isTurnedAway = true
    · simp [Lease.after, haway']
    · rw [Bool.not_eq_true] at haway'
      have haway₀ : call.phase.isTurnedAway = false := by
        by_contra hcon
        rw [haway (Bool.not_eq_false _ ▸ hcon)] at haway'
        cases haway'
      have hheld : lease.target = .held ↔ Conn.usedUp call = 0 := by simp [h.held, haway₀]
      simp only [Lease.after, haway', Bool.false_eq_true, if_false, true_and, hheld]
      split_ifs with hnow
      · simp only [false_iff]
        omega
      · rw [hheld]
        omega

/-- A permit that is not held stays so. -/
theorem isHeld_of_after (h : (lease.after call call').isHeld = true) : lease.isHeld = true := by
  obtain ⟨permit, completion, target⟩ := lease
  simp only [isHeld, after, Bool.or_eq_true, Bool.and_eq_true, bne_iff_ne, ne_eq] at h ⊢
  rcases h with ⟨hcompletion, -⟩ | htarget
  · exact .inl hcompletion
  · right
    rintro rfl
    split_ifs at htarget with haway hnow
    · exact htarget rfl
    · exact nomatch hnow.1
    · exact htarget rfl

end Lease

/-! ## The counters -/

namespace Admission.Charged

variable {limits : AdmissionLimits} {state : AdmissionState}
  {permits permits' : List AdmissionPermit} {permit : AdmissionPermit}

/-- The order of the permits does not matter. -/
theorem perm (h : Charged limits ⟨state, permits⟩) (hperm : permits.Perm permits') :
    Charged limits ⟨state, permits'⟩ := by
  have hweight : weight ⟨state, permits'⟩ = weight ⟨state, permits⟩ :=
    (hperm.map AdmissionPermit.bytes).sum_eq.symm
  have hlength : permits'.length = permits.length := hperm.length_eq.symm
  refine ⟨h.limits_eq, ?_, ?_, ?_, ?_⟩
  · exact h.calls_eq.trans hlength.symm
  · exact h.bytes_eq.trans hweight.symm
  · exact hlength.le.trans h.calls_le
  · exact hweight.le.trans h.bytes_le

/-- Giving a permit back. -/
theorem release (h : Charged limits ⟨state, permit :: permits⟩) :
    Charged limits ⟨state.release permit, permits⟩ :=
  h.step (show Admission.step ⟨state, permit :: permits⟩ (.drop 0) = _ from rfl)

end Admission.Charged

namespace Leased

variable {cfg : Config} {s t : Leased R} {limits : AdmissionLimits} {state : AdmissionState}
  {leases leases' : ℕ → Lease} {ids : List ℕ}

/-- Giving back the permits whose last reference went leaves the counters charged with the permits
that are still held. -/
theorem charged_giveBack (hsame : ∀ id, (leases' id).permit = (leases id).permit)
    (hless : ∀ id, (leases' id).isHeld = true → (leases id).isHeld = true)
    {rest : List AdmissionPermit}
    (h : Admission.Charged limits ⟨state, rest ++ permitsOf leases ids⟩) :
    Admission.Charged limits ⟨giveBack leases leases' ids state, rest ++ permitsOf leases' ids⟩ :=
      by
  induction ids generalizing state rest with
  | nil => exact h
  | cons id ids ih =>
    rcases hheld : (leases id).isHeld with _ | _
    · have hheld' : (leases' id).isHeld = false := by
        by_contra hcon
        rw [hless id (Bool.not_eq_false _ ▸ hcon)] at hheld
        cases hheld
      simp only [permitsOf, giveBack, List.filter_cons, List.foldl_cons, hheld, hheld',
        Bool.false_and, Bool.false_eq_true, if_false] at h ⊢
      exact ih h
    · rcases hheld' : (leases' id).isHeld with _ | _
      · simp only [permitsOf, giveBack, List.filter_cons, List.foldl_cons, hheld, hheld', if_true,
          Bool.not_false, Bool.and_self, Bool.false_eq_true, if_false, List.map_cons] at h ⊢
        exact ih (h.perm List.perm_middle).release
      · simp only [permitsOf, giveBack, List.filter_cons, List.foldl_cons, hheld, hheld', if_true,
          Bool.not_true, Bool.and_false, Bool.false_eq_true, if_false,
            List.map_cons, hsame id] at h ⊢
        rw [List.append_cons] at h ⊢
        exact ih h

/-- What dropping the reference of a used-up sender does. -/
theorem dropReference_eq {id : ℕ} (h : s.dropReference id = some t) :
    (s.leases id).target = .due ∧
      t = { s with
        admission := giveBack s.leases
          (Function.update s.leases id { s.leases id with target := .gone })
          (List.range s.conn.created) s.admission
        leases := Function.update s.leases id { s.leases id with target := .gone } } := by
  unfold dropReference at h
  split_ifs at h with hdue
  exact ⟨hdue, (Option.some.inj h).symm⟩

/-- A reference that is due to be dropped and goes. -/
theorem update_gone {id : ℕ} (hdue : (leases id).target = .due) (other : ℕ) :
    (Function.update leases id { leases id with target := .gone } other).permit =
        (leases other).permit ∧
      ((Function.update leases id { leases id with target := .gone } other).isHeld = true →
        (leases other).isHeld = true) := by
  by_cases hid : other = id
  · subst hid
    rw [Function.update_self]
    exact ⟨rfl, fun _ => by simp [Lease.isHeld, hdue]⟩
  · rw [Function.update_of_ne hid]
    exact ⟨rfl, fun h => h⟩

variable [ReplyReceiver R]

/-- What holds of the leases of a connection in every reachable state. -/
structure LeaseInv (cfg : Config) (limits : AdmissionLimits) (s : Leased R) : Prop where
  reachable : Conn.Reachable cfg s.conn
  fits : ∀ id < s.conn.created, (s.leases id).Fits (s.conn.calls id)
  charged : Admission.Charged limits s.charges

namespace LeaseInv

/-- A new connection has no lease. -/
theorem initial (cfg : Config) (h : AdmissionState.new limits = .ok state) :
    LeaseInv cfg limits (Leased.initial cfg state : Leased R) where
  reachable := Runs.refl _
  fits := nofun
  charged := (Admission.Charged.start h).1

/-- An admission adds a charged call. -/
theorem step_admit (h : LeaseInv cfg limits s) {request : Request R}
    {options : CallOptions} {bytes : ℕ} {permit : AdmissionPermit}
    (hacquire : s.admission.tryAcquire bytes = (.ok permit, t.admission))
    (hstep : s.conn.step cfg (.admitCall request options) = some t.conn)
    (hleases : t.leases = Function.update s.leases s.conn.created ⟨permit, true, .held⟩) :
    LeaseInv cfg limits t := by
  obtain ⟨hcreated, hcalls, hphase, hused⟩ := Conn.of_admit hstep
  have hnew : (⟨permit, true, .held⟩ : Lease).Fits (t.conn.calls s.conn.created) := by
    refine ⟨?_, ?_, ?_⟩ <;> rw [hphase]
    · rfl
    · simp [hused, Phase.isTurnedAway]
    · nofun
  refine ⟨h.reachable.tail trivial hstep, ?_, ?_⟩
  · intro id hid
    rw [hleases]
    rcases Nat.lt_succ_iff_lt_or_eq.mp (hcreated ▸ hid) with hold | rfl
    · rw [Function.update_of_ne hold.ne, hcalls id hold.ne]
      exact h.fits id hold
    · rwa [Function.update_self]
  · have hpermits : t.charges.permits = s.charges.permits ++ [permit] := by
      simp only [charges, hcreated, hleases, List.range_succ, permitsOf, List.filter_append,
        List.map_append]
      congr 1
      · have hfilter : ∀ id ∈ List.range s.conn.created,
            Function.update s.leases s.conn.created ⟨permit, true, .held⟩ id = s.leases id := by
          intro id hid
          exact Function.update_of_ne (List.mem_range.mp hid).ne _ _
        rw [List.filter_congr fun id hid => by rw [hfilter id hid]]
        refine List.map_congr_left fun id hid => ?_
        rw [hfilter id (List.mem_filter.mp hid).1]
      · simp [Lease.isHeld]
    have hcharges : t.charges = s.charges.acquire bytes := by
      rw [Admission.acquire, show s.charges.state.tryAcquire bytes = _ from hacquire]
      exact congrArg (Admission.mk t.admission) hpermits
    exact hcharges ▸ h.charged.step (show s.charges.step (.acquire bytes) = some _ from rfl)

/-- The leases follow any other step of the connection. -/
theorem step_follow (h : LeaseInv cfg limits s) {action : Action R} {conn : Conn R}
    (hstep : s.conn.step cfg action = some conn) (hact : action.isAdmit = false) :
    LeaseInv cfg limits (s.follow conn) := by
  have hmove := Conn.moves_of_step hstep
  have hcreated := hmove.created_eq hact
  have hregistry := Conn.RegistryInv.of_reachable h.reachable
  refine ⟨h.reachable.tail trivial hstep, ?_, ?_⟩
  · intro id hid
    exact (h.fits id (hcreated ▸ hid)).after (hmove.ages (hregistry.fresh _ le_rfl) id)
  · have hcharged := @charged_giveBack limits s.admission s.leases (s.follow conn).leases
      (List.range s.conn.created) (fun _ => rfl) (fun _ => Lease.isHeld_of_after) [] h.charged
    simp only [charges, follow, hcreated]
    exact hcharged

/-- Dropping the reference of a used-up sender. -/
theorem step_dropReference (h : LeaseInv cfg limits s) {id : ℕ}
    (hstep : s.dropReference id = some t) : LeaseInv cfg limits t := by
  obtain ⟨hdue, rfl⟩ := dropReference_eq hstep
  refine ⟨h.reachable, ?_, ?_⟩
  · intro other hother
    by_cases hid : other = id
    · subst hid
      obtain ⟨hcompletion, hheld, hgone⟩ := h.fits other hother
      simp only [Function.update_self]
      rw [hdue] at hheld
      exact ⟨hcompletion, by simpa using hheld, fun _ => rfl⟩
    · simp only [Function.update_of_ne hid]
      exact h.fits other hother
  · exact @charged_giveBack limits s.admission s.leases _ (List.range s.conn.created)
      (fun other => (update_gone hdue other).1) (fun other => (update_gone hdue other).2)
        [] h.charged

/-- Every step keeps the invariant. -/
theorem step (h : LeaseInv cfg limits s) {action : LeaseAction R}
    (hstep : s.step cfg action = some t) : LeaseInv cfg limits t := by
  rcases step_cases hstep with ⟨request, options, bytes, permit, -, -, hacquire, hadmit, hleases⟩ |
    ⟨act, conn, -, hconn, hact, rfl⟩ | ⟨-, rfl⟩ | ⟨id, -, hdrop⟩
  · exact h.step_admit hacquire hadmit hleases
  · exact h.step_follow hconn hact
  · exact ⟨h.reachable, h.fits, h.charged.step (show s.charges.step .close = some _ from rfl)⟩
  · exact h.step_dropReference hdrop

end LeaseInv

/-! ## The life of a lease -/

/-- A step keeps the permit of a call, and does not charge a call again. -/
theorem lease_step {id : ℕ} {action : LeaseAction R} (hid : id < s.conn.created)
    (hstep : s.step cfg action = some t) :
    id < t.conn.created ∧ (t.leases id).permit = (s.leases id).permit ∧
      (t.isCharged id = true → s.isCharged id = true) := by
  rcases step_cases hstep with ⟨request, options, bytes, permit, -, -, hacquire, hadmit, hleases⟩ |
    ⟨act, conn, -, hconn, hact, rfl⟩ | ⟨-, rfl⟩ | ⟨dropped, -, hdrop⟩
  · obtain ⟨hcreated, -⟩ := Conn.of_admit hadmit
    rw [isCharged, isCharged, hleases, Function.update_of_ne hid.ne]
    exact ⟨by omega, rfl, fun h => h⟩
  · have hcreated := (Conn.moves_of_step hconn).created_eq hact
    exact ⟨hcreated.symm ▸ hid, rfl, Lease.isHeld_of_after⟩
  · exact ⟨hid, rfl, fun h => h⟩
  · obtain ⟨hdue, rfl⟩ := dropReference_eq hdrop
    exact ⟨hid, update_gone hdue id⟩

/-- A run keeps the permit of a call, and does not charge a call again. -/
theorem lease_stays {id : ℕ} (hid : id < s.conn.created)
    (hrun : Runs (step cfg) (fun _ _ => True) s t) :
    id < t.conn.created ∧ (t.leases id).permit = (s.leases id).permit ∧
      (t.isCharged id = true → s.isCharged id = true) := by
  refine hrun.invariant (fun t => id < t.conn.created ∧
    (t.leases id).permit = (s.leases id).permit ∧
      (t.isCharged id = true → s.isCharged id = true)) ⟨hid, rfl, fun h => h⟩ ?_
  rintro u action v ⟨hu, hpermit, hcharged⟩ - hstep
  obtain ⟨hv, hpermit', hcharged'⟩ := lease_step hu hstep
  exact ⟨hv, hpermit'.trans hpermit, fun h => hcharged (hcharged' h)⟩

namespace LeaseInv

/-- The call is charged while its future runs or somebody holds its sender; afterwards at most a
reference that is due to be dropped keeps it charged. -/
theorem isCharged_iff (h : LeaseInv cfg limits s) {id : ℕ} (hid : id < s.conn.created) :
    s.isCharged id = true ↔ (s.conn.calls id).phase.isOver = false ∨ s.conn.holdsTarget id ∨
      (s.leases id).target = .due := by
  obtain ⟨hcompletion, hheld, hgone⟩ := h.fits id hid
  have hholds := Conn.holdsTarget_iff (Conn.RegistryInv.of_reachable h.reachable)
    (Conn.OwnerInv.of_reachable h.reachable) id
  rcases hover : (s.conn.calls id).phase.isOver with _ | _
  · simp [isCharged, Lease.isHeld, hcompletion, hover]
  · -- A future that is over was turned away, or was registered.
    have hwas : (s.conn.calls id).phase.isTurnedAway = false →
        (s.conn.calls id).phase.isRegistered = true := by
      cases hphase : (s.conn.calls id).phase <;> rw [hphase] at hover <;>
        simp [Phase.isTurnedAway, Phase.isRegistered] <;> cases hover
    have htarget : (s.leases id).target = .held ↔ s.conn.holdsTarget id := by
      rw [hheld, hholds]
      constructor
      · rintro ⟨haway, hused⟩
        exact ⟨hwas haway, hused⟩
      · rintro ⟨hregistered, hused⟩
        refine ⟨?_, hused⟩
        cases hphase : (s.conn.calls id).phase <;> rw [hphase] at hregistered <;>
          first | rfl | cases hregistered
    rw [← htarget]
    rcases hcase : (s.leases id).target <;>
      simp [isCharged, Lease.isHeld, hcompletion, hover, hcase]

/-- The counters are the number and the weight of the charged calls. -/
theorem counters (h : LeaseInv cfg limits s) :
    s.admission.calls = ((List.range s.conn.created).filter s.isCharged).length ∧
    s.admission.bytes = (((List.range s.conn.created).filter s.isCharged).map fun id =>
      (s.leases id).permit.bytes).sum := by
  have hcalls : s.admission.calls = s.charges.permits.length := h.charged.calls_eq
  have hbytes : s.admission.bytes = s.charges.weight := h.charged.bytes_eq
  rw [hcalls, hbytes, Admission.weight, charges, permitsOf, List.length_map, List.map_map]
  exact ⟨rfl, rfl⟩

end LeaseInv

end Leased

/-- The slot and the byte charge of a call are held from its admission until its future has ended
and nobody holds its sender any more; then they are given back, once.  What may come in between is
the drop of the reference by whoever used the sender up. -/
theorem lease_lifetime [ReplyReceiver R] (cfg : Config) (limits : AdmissionLimits)
    (state : AdmissionState) (hnew : AdmissionState.new limits = .ok state) (s : Leased R)
    (hrun : Runs (Leased.step cfg) (fun _ _ => True) (.initial cfg state) s) :
    (s.admission.calls = ((List.range s.conn.created).filter s.isCharged).length ∧
      s.admission.bytes = (((List.range s.conn.created).filter s.isCharged).map fun id =>
        (s.leases id).permit.bytes).sum) ∧
    (∀ request options t, s.step cfg (.conn (.admitCall request options)) = some t →
      ∃ bytes, request.charge cfg = .ok bytes ∧ s.conn.created < t.conn.created ∧
        t.isCharged s.conn.created = true ∧ (t.leases s.conn.created).permit = ⟨bytes⟩) ∧
    ∀ id < s.conn.created,
      ((s.conn.calls id).phase.isOver = false ∨ s.conn.holdsTarget id → s.isCharged id = true) ∧
      ((s.conn.calls id).phase.isOver = true → ¬ s.conn.holdsTarget id →
        s.isCharged id = false ∨ ∃ t, s.step cfg (.dropReference id) = some t ∧
          t.conn = s.conn ∧ t.isCharged id = false) ∧
      (∀ t, Runs (Leased.step cfg) (fun _ _ => True) s t → id < t.conn.created ∧
        (t.leases id).permit = (s.leases id).permit ∧
        (s.isCharged id = false → t.isCharged id = false)) ∧
      (∀ xid receive, (s.conn.calls id).phase = .dropped →
        s.conn.reader = .receiving id xid receive → s.isCharged id = true) ∧
      ((s.conn.calls id).phase = .discarded → s.isCharged id = false) := by
  have hinv : Leased.LeaseInv cfg limits s :=
    hrun.invariant _ (Leased.LeaseInv.initial cfg hnew) fun h _ hstep => h.step hstep
  refine ⟨hinv.counters, ?_, ?_⟩
  · intro request options t hstep
    rcases Leased.step_cases hstep with ⟨request', options', bytes, permit, heq, hcharge, hacquire,
      hadmit, hleases⟩ | ⟨act, conn, heq, -, hact, -⟩ | ⟨heq, -⟩ | ⟨id, heq, -⟩
    · cases heq
      obtain ⟨hcreated, -⟩ := Conn.of_admit hadmit
      obtain ⟨rfl, -⟩ := @Admission.acquired_eq s.charges bytes permit t.admission hacquire
      refine ⟨bytes, hcharge, by omega, ?_, ?_⟩
      · rw [Leased.isCharged, hleases, Function.update_self]
        rfl
      · rw [hleases, Function.update_self]
    · cases heq
      cases hact
    · cases heq
    · cases heq
  · intro id hid
    have hiff := hinv.isCharged_iff hid
    refine ⟨?_, ?_, ?_, ?_, ?_⟩
    · rintro (hrunning | hholds)
      · exact hiff.mpr (.inl hrunning)
      · exact hiff.mpr (.inr (.inl hholds))
    · intro hover hfree
      rcases hcharged : s.isCharged id with _ | _
      · exact .inl rfl
      · right
        have hdue : (s.leases id).target = .due := by
          rcases hiff.mp hcharged with hrunning | hholds | hdue
          · rw [hover] at hrunning
            cases hrunning
          · exact absurd hholds hfree
          · exact hdue
        refine ⟨_, if_pos hdue, rfl, ?_⟩
        simp only [Leased.isCharged, Function.update_self]
        simp [Lease.isHeld, (hinv.fits id hid).completion, hover]
    · intro t ht
      obtain ⟨hlt, hpermit, hcharged⟩ := Leased.lease_stays hid ht
      refine ⟨hlt, hpermit, fun hfalse => ?_⟩
      by_contra hcon
      rw [hcharged (Bool.not_eq_false _ ▸ hcon)] at hfalse
      cases hfalse
    · intro xid receive hphase hreader
      refine hiff.mpr (.inr (.inl ?_))
      simp [Conn.holdsTarget, Conn.atReader, hreader, ReaderPhase.holds]
    · intro hphase
      obtain ⟨hcompletion, -, hgone⟩ := hinv.fits id hid
      rw [hphase] at hcompletion hgone
      simp [Leased.isCharged, Lease.isHeld, hcompletion, hgone rfl, Phase.isOver]

/-- A call is dropped while the reader fills its receiver: it stays charged with the 40 bytes of its
request and its marker, beside a second call that was never polled and gave its charge back. -/
theorem lease_lifetime_abandoned : ∃ s : Leased Buffers,
    Runs (Leased.step .plain) (fun _ _ => True) (.initial .plain .unlimited) s ∧
    s.isCharged 0 = true ∧ s.isCharged 1 = false ∧ s.admission.calls = 1 ∧
    s.admission.bytes = 44 := by
  have hseen : (runList (guarded (fun _ _ => true) (Leased.step .plain))
      (.initial .plain .unlimited)
      [.conn (.admitCall (.into ⟨.nullCall 7, []⟩ ⟨[[0, 0]], 0, 0⟩) ⟨true, .none⟩),
        .conn (.admitCall (.classic (.nullCall 8)) ⟨false, .none⟩), .conn (.call 1 .drop),
        .conn (.call 0 .step), .conn (.read (.bytes [128, 0, 0, 24])),
        .conn (.read (.bytes [0, 0, 0, 7])), .conn .turn, .conn (.call 0 .drop),
        .conn (.call 0 .step), .conn (.call 0 .step), .conn (.call 0 .step)]).map
      (fun s : Leased Buffers => (s.conn.created, (s.leases 0).permit, s.conn.reader.holds,
        match (s.conn.calls 1).phase with
        | .discarded => true
        | _ => false)) =
      some (2, ⟨44⟩, some 0, true) := by
    decide +kernel
  obtain ⟨s, htrace, hview⟩ := Trace.exists_of_runList (fun _ _ _ => trivial) hseen
  simp only [Prod.mk.injEq] at hview
  obtain ⟨hcreated, hpermit, hholds, hdiscarded⟩ := hview
  obtain ⟨⟨hcalls, hbytes⟩, -, hlife⟩ :=
    lease_lifetime .plain _ _ AdmissionState.new_unlimited s htrace.runs
  have hfirst : s.isCharged 0 = true := by
    refine (hlife 0 (by omega)).1 (.inr ?_)
    simp [Conn.holdsTarget, Conn.atReader, hholds]
  have hsecond : s.isCharged 1 = false := by
    refine (hlife 1 (by omega)).2.2.2.2 ?_
    split at hdiscarded
    · assumption
    · cases hdiscarded
  have hfilter : (List.range s.conn.created).filter s.isCharged = [0] := by
    simp [hcreated, List.range_succ, hfirst, hsecond]
  refine ⟨s, htrace.runs, hfirst, hsecond, ?_, ?_⟩
  · rw [hcalls, hfilter]
    rfl
  · rw [hbytes, hfilter]
    simp [hpermit]

end OncRpc
