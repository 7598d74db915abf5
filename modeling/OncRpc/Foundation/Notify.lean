import OncRpc.Foundation.Transition
import Mathlib.Data.Nat.Notation
import Mathlib.Logic.Function.Basic
import Mathlib.Tactic.SplitIfs

/-!
# Waiting for a change of shared state

Any number of waiters wait until a check of some shared state succeeds, and any number of changers
update that state.  A waiter creates and enables a notification, then checks, then parks if the
check has failed; a notification wakes it for another round.  A changer updates the state and then,
if the update calls for it, notifies all waiters.  Checks and updates are atomic, and between any
two of these actions everybody else may act.  An enabled notification receives every later call of
`notify_waiters`; nothing else is assumed of it.

`WaitProtocol` is such a loop with its updates.  If only notifying updates make a check succeed
(`WaitProtocol.Announced`), then on no run a parked waiter that nobody has notified misses a state
it waits for (`WaitProtocol.waits_of_runs`): either its check fails, or some changer still owes the
notification of an update.
-/

namespace Foundation

/-! ## Waiters and changers -/

/-- Where a waiter is in its loop.  It waits for a check with the argument `k`. -/
inductive Waiter (κ ρ : Type*) where
  | idle
  /-- It has created its notification. -/
  | created (k : κ)
  /-- It has enabled the notification, which may have arrived, and is about to check. -/
  | enabled (k : κ) (notified : Bool)
  /-- The check has failed and it awaits the notification. -/
  | parked (k : κ) (notified : Bool)
  | returned (result : ρ)
  deriving DecidableEq

/-- A call of `notify_waiters` reaches every waiter with an enabled notification. -/
def Waiter.notify {κ ρ : Type*} : Waiter κ ρ → Waiter κ ρ
  | .enabled k _ => .enabled k true
  | .parked k _ => .parked k true
  | waiter => waiter

/-- A wait loop over shared states `σ`: its check, and the updates of the shared state with whether
a notification follows. -/
structure WaitProtocol (σ κ ρ υ : Type*) where
  /-- What the loop returns in a state, or `none` to park. -/
  check : σ → κ → Option ρ
  /-- An update, if the state allows it, and whether its changer calls `notify_waiters` next. -/
  update : σ → υ → Option (σ × Bool)

/-- The shared state, the waiters, and the changers that are between an update and the notification
that follows it. -/
structure WaitState (σ κ ρ : Type*) where
  shared : σ
  waiters : ℕ → Waiter κ ρ
  owing : ℕ → Bool

/-- What a waiter or a changer can do. -/
inductive WaitAction (κ υ : Type*) where
  /-- A waiter enters its loop and creates a notification. -/
  | call (waiter : ℕ) (k : κ)
  | enable (waiter : ℕ)
  | check (waiter : ℕ)
  /-- A notified waiter starts its loop again. -/
  | wake (waiter : ℕ)
  /-- A waiter is dropped. -/
  | drop (waiter : ℕ)
  | update (changer : ℕ) (u : υ)
  | notify (changer : ℕ)

namespace WaitState

variable {σ κ ρ : Type*}

/-- Nobody waits and nobody owes a notification. -/
def start (shared : σ) : WaitState σ κ ρ := ⟨shared, fun _ => .idle, fun _ => false⟩

/-- A waiter moves on. -/
def put (s : WaitState σ κ ρ) (waiter : ℕ) (phase : Waiter κ ρ) : WaitState σ κ ρ :=
  { s with waiters := Function.update s.waiters waiter phase }

end WaitState

namespace WaitProtocol

variable {σ κ ρ υ : Type*} (p : WaitProtocol σ κ ρ υ)

/-- One step of a waiter or a changer. -/
def step (s : WaitState σ κ ρ) : WaitAction κ υ → Option (WaitState σ κ ρ)
  | .call w k =>
    match s.waiters w with
    | .idle => some (s.put w (.created k))
    | _ => none
  | .enable w =>
    match s.waiters w with
    | .created k => some (s.put w (.enabled k false))
    | _ => none
  | .check w =>
    match s.waiters w with
    | .enabled k notified =>
      match p.check s.shared k with
      | some result => some (s.put w (.returned result))
      | none => some (s.put w (.parked k notified))
    | _ => none
  | .wake w =>
    match s.waiters w with
    | .parked k true => some (s.put w (.created k))
    | _ => none
  | .drop w => some (s.put w .idle)
  | .update c u =>
    if s.owing c then none
    else (p.update s.shared u).map fun (shared, notifies) =>
      { s with shared := shared, owing := Function.update s.owing c notifies }
  | .notify c =>
    if s.owing c then
      some { s with
        waiters := fun w => (s.waiters w).notify
        owing := Function.update s.owing c false }
    else none

/-- The states of all interleavings that start in the shared state `shared`. -/
def Reachable (shared : σ) (s : WaitState σ κ ρ) : Prop :=
  Runs p.step (fun _ _ => True) (.start shared) s

/-- An update that is not announced makes no check succeed that failed before. -/
def Announced : Prop :=
  ∀ s u s' k, p.update s u = some (s', false) → (p.check s' k).isSome → (p.check s k).isSome

/-- A parked waiter that nobody has notified waits for a state that has not come, unless a changer
still owes a notification. -/
def Waits (s : WaitState σ κ ρ) : Prop :=
  ∀ w k, s.waiters w = .parked k false → (p.check s.shared k).isSome → ∃ c, s.owing c = true

/-! ## No notification is lost -/

variable {p} {s t : WaitState σ κ ρ}

/-- A step of one waiter that does not park it keeps the others waiting. -/
theorem Waits.put {w : ℕ} {phase : Waiter κ ρ} (h : p.Waits s)
    (hphase : ∀ k, phase = .parked k false → p.check s.shared k = none) :
    p.Waits (s.put w phase) := by
  intro v k hparked hcheck
  by_cases hv : v = w
  · subst hv
    have hnew : phase = .parked k false := by
      rw [← hparked]
      exact (Function.update_self v phase s.waiters).symm
    have hnone : p.check s.shared k = none := hphase k hnew
    have hsome : (p.check s.shared k).isSome := hcheck
    rw [hnone] at hsome
    cases hsome
  · have hold : s.waiters v = .parked k false := by
      rw [← hparked]
      exact (Function.update_of_ne hv phase s.waiters).symm
    exact h v k hold hcheck

/-- An update keeps the promise: it is announced, or it makes no check succeed. -/
theorem Waits.update {c : ℕ} {u : υ} {shared : σ} {notifies : Bool} (hannounced : p.Announced)
    (h : p.Waits s) (hc : s.owing c = false) (hu : p.update s.shared u = some (shared, notifies)) :
    p.Waits { s with shared := shared, owing := Function.update s.owing c notifies } := by
  intro w k hparked hcheck
  rcases notifies with _ | _
  · have hbefore := hannounced s.shared u shared k hu hcheck
    obtain ⟨d, hd⟩ := h w k hparked hbefore
    have hne : d ≠ c := by
      rintro rfl
      rw [hd] at hc
      cases hc
    exact ⟨d, (Function.update_of_ne hne ..).trans hd⟩
  · exact ⟨c, Function.update_self ..⟩

/-- After a notification every parked waiter is notified. -/
theorem Waits.notify (s : WaitState σ κ ρ) (c : ℕ) :
    p.Waits { s with
      waiters := fun w => (s.waiters w).notify, owing := Function.update s.owing c false } := by
  intro w k hparked
  have hnotify : (s.waiters w).notify = .parked k false := hparked
  rcases hw : s.waiters w with _ | _ | _ | _ | _ <;> rw [hw] at hnotify <;> cases hnotify

/-- What one step of the interleaving keeps. -/
theorem Waits.step (hannounced : p.Announced) {a : WaitAction κ υ} (h : p.Waits s)
    (hstep : p.step s a = some t) : p.Waits t := by
  rcases a with ⟨w, k⟩ | w | w | w | w | ⟨c, u⟩ | c
  · rcases hw : s.waiters w with _ | _ | _ | _ | _ <;>
      simp only [WaitProtocol.step, hw] at hstep <;>
      cases hstep
    exact h.put nofun
  · rcases hw : s.waiters w with _ | _ | _ | _ | _ <;>
      simp only [WaitProtocol.step, hw] at hstep <;>
      cases hstep
    exact h.put nofun
  · rcases hw : s.waiters w with _ | _ | ⟨k, notified⟩ | _ | _ <;>
      simp only [WaitProtocol.step, hw] at hstep <;> try cases hstep
    -- The check is atomic: a waiter parks in a state in which it fails.
    rcases hcheck : p.check s.shared k with _ | result
    · simp only [hcheck] at hstep
      cases hstep
      refine h.put fun k' hk' => ?_
      cases hk'
      exact hcheck
    · simp only [hcheck] at hstep
      cases hstep
      exact h.put nofun
  · rcases hw : s.waiters w with _ | _ | _ | ⟨k, _ | _⟩ | _ <;>
      simp only [WaitProtocol.step, hw] at hstep <;> cases hstep
    exact h.put nofun
  · cases hstep
    exact h.put nofun
  · simp only [WaitProtocol.step] at hstep
    split_ifs at hstep with hc
    obtain ⟨⟨shared, notifies⟩, hu, rfl⟩ := Option.map_eq_some_iff.mp hstep
    exact h.update hannounced (Bool.eq_false_iff.mpr hc) hu
  · simp only [WaitProtocol.step] at hstep
    split_ifs at hstep with hc
    cases hstep
    exact Waits.notify s c

/-- On no run a parked waiter misses the state it waits for. -/
theorem waits_of_runs (hannounced : p.Announced) {shared : σ} (h : p.Reachable shared s) :
    p.Waits s := by
  refine h.invariant (fun s => p.Waits s) ?_ fun hu _ hstep => hu.step hannounced hstep
  intro w k hparked
  cases hparked

end WaitProtocol

end Foundation
