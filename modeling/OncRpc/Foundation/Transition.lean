import Mathlib.Logic.Relation

/-!
# Transition systems with named actions

A system of several parties is a step function on states: an action is refused (`none`) or leads to
one state.  `Runs step ok` relates the ends of the runs all of whose steps satisfy `ok` in the state
they are taken in.  `Runs.invariant` is the induction over runs.  `Trace` keeps the actions of a
run, `Happened` says that one of its steps was of a given kind, and `runList` executes a list of
actions, for concrete runs.
-/

namespace Foundation

open Relation

variable {σ α : Type*} {step : σ → α → Option σ} {ok ok' : σ → α → Prop} {s t u : σ}

/-- Some allowed action leads from `s` to `t`. -/
def StepBy (step : σ → α → Option σ) (ok : σ → α → Prop) (s t : σ) : Prop :=
  ∃ a, ok s a ∧ step s a = some t

/-- A run of allowed steps leads from `s` to `t`. -/
def Runs (step : σ → α → Option σ) (ok : σ → α → Prop) : σ → σ → Prop :=
  ReflTransGen (StepBy step ok)

namespace Runs

theorem refl (s : σ) : Runs step ok s s := ReflTransGen.refl

theorem trans (h : Runs step ok s t) (h' : Runs step ok t u) : Runs step ok s u :=
  ReflTransGen.trans h h'

theorem tail (h : Runs step ok s t) {a : α} (hok : ok t a) (hstep : step t a = some u) :
    Runs step ok s u :=
  ReflTransGen.tail h ⟨a, hok, hstep⟩

/-- A run under stricter conditions is a run under weaker ones. -/
theorem mono (himp : ∀ s a, ok s a → ok' s a) (h : Runs step ok s t) : Runs step ok' s t := by
  refine ReflTransGen.mono (fun u v huv => ?_) s t h
  obtain ⟨a, hok, hstep⟩ := huv
  exact ⟨a, himp u a hok, hstep⟩

/-- What holds at the start of a run and is kept by each of its steps holds at its end. -/
theorem invariant (h : Runs step ok s t) (Inv : σ → Prop) (hinit : Inv s)
    (hstep : ∀ {u a v}, Inv u → ok u a → step u a = some v → Inv v) : Inv t := by
  induction h with
  | refl => exact hinit
  | tail _ hlast ih =>
    obtain ⟨a, hok, hnext⟩ := hlast
    exact hstep ih hok hnext

end Runs

/-! ## The history of a run -/

/-- A run of allowed steps from `s` to `t` by the actions of a list. -/
inductive Trace (step : σ → α → Option σ) (ok : σ → α → Prop) (s : σ) : List α → σ → Prop
  | nil : Trace step ok s [] s
  | snoc {actions : List α} {t u : σ} {a : α} (h : Trace step ok s actions t) (hok : ok t a)
    (hstep : step t a = some u) : Trace step ok s (actions ++ [a]) u

namespace Trace

variable {actions : List α}

/-- Forgetting the actions of a run. -/
theorem runs (h : Trace step ok s actions t) : Runs step ok s t := by
  induction h with
  | nil => exact Runs.refl s
  | snoc _ hok hstep ih => exact ih.tail hok hstep

/-- A run under stricter conditions is a run under weaker ones. -/
theorem mono (himp : ∀ s a, ok s a → ok' s a) (h : Trace step ok s actions t) :
    Trace step ok' s actions t := by
  induction h with
  | nil => exact .nil
  | snoc _ hok hstep ih => exact .snoc ih (himp _ _ hok) hstep

/-- Runs follow one another. -/
theorem append {more : List α} (h : Trace step ok s actions t) (h' : Trace step ok t more u) :
    Trace step ok s (actions ++ more) u := by
  induction h' with
  | nil => rwa [List.append_nil]
  | snoc _ hok hstep ih =>
    rw [← List.append_assoc]
    exact ih.snoc hok hstep

/-- A run by two lists of actions is a run by the first and then one by the second. -/
theorem split {more : List α} (h : Trace step ok s (actions ++ more) u) :
    ∃ t, Trace step ok s actions t ∧ Trace step ok t more u := by
  generalize hall : actions ++ more = all at h
  induction h generalizing more with
  | nil =>
    obtain ⟨rfl, rfl⟩ := List.append_eq_nil_iff.mp hall
    exact ⟨s, .nil, .nil⟩
  | @snoc earlier t v a h hok hstep ih =>
    rcases List.eq_nil_or_concat more with rfl | ⟨more', b, rfl⟩
    · rw [List.append_nil] at hall
      rw [hall]
      exact ⟨v, h.snoc hok hstep, .nil⟩
    · rw [List.concat_eq_append, ← List.append_assoc] at hall
      obtain ⟨hearlier, hlast⟩ := List.append_inj' hall rfl
      cases hlast
      obtain ⟨m, hfirst, hrest⟩ := ih hearlier
      rw [List.concat_eq_append]
      exact ⟨m, hfirst, hrest.snoc hok hstep⟩

/-- The actions of a run determine its end. -/
theorem unique (h : Trace step ok s actions t) (h' : Trace step ok' s actions u) : t = u := by
  induction h generalizing u with
  | nil =>
    generalize hnil : ([] : List α) = actions at h'
    cases h' with
    | nil => rfl
    | snoc => simp at hnil
  | @snoc earlier v w a h hok hstep ih =>
    generalize hall : earlier ++ [a] = actions at h'
    cases h' with
    | nil => simp at hall
    | snoc h' hok' hstep' =>
      obtain ⟨rfl, hlast⟩ := List.append_inj' hall rfl
      cases hlast
      rw [ih h', hstep'] at hstep
      exact (Option.some.inj hstep).symm

/-- A run by one action is a step. -/
theorem of_singleton {a : α} (h : Trace step ok s [a] t) : ok s a ∧ step s a = some t := by
  generalize hall : [a] = actions at h
  cases h with
  | nil => cases hall
  | snoc h hok hstep =>
    obtain ⟨rfl, hlast⟩ := List.append_inj' ((List.nil_append [a]).trans hall) rfl
    cases hlast
    rw [Trace.unique h (Trace.nil : Trace step ok s [] s)] at hok hstep
    exact ⟨hok, hstep⟩

end Trace

/-- Every run has a list of actions. -/
theorem Runs.exists_trace (h : Runs step ok s t) : ∃ actions, Trace step ok s actions t := by
  induction h with
  | refl => exact ⟨[], .nil⟩
  | tail _ hlast ih =>
    obtain ⟨actions, htrace⟩ := ih
    obtain ⟨a, hok, hnext⟩ := hlast
    exact ⟨actions ++ [a], htrace.snoc hok hnext⟩

/-- Among the steps that a list of actions takes from `s` is one of the kind `P`. -/
def Happened (step : σ → α → Option σ) (s : σ) (actions : List α) (P : σ → α → σ → Prop) : Prop :=
  ∃ before a after t u, actions = before ++ a :: after ∧
    Trace step (fun _ _ => True) s before t ∧ step t a = some u ∧ P t a u

namespace Happened

variable {actions : List α} {a : α} {P : σ → α → σ → Prop}

/-- The last step of a run was taken. -/
theorem last (h : Trace step ok s actions t) (hstep : step t a = some u) (hP : P t a u) :
    Happened step s (actions ++ [a]) P :=
  ⟨actions, a, [], t, u, rfl, h.mono fun _ _ _ => trivial, hstep, hP⟩

/-- What happened at the start of a run has happened on the run. -/
theorem append (h : Happened step s actions P) (more : List α) :
    Happened step s (actions ++ more) P := by
  obtain ⟨before, b, after, t, u, rfl, htrace, hstep, hP⟩ := h
  exact ⟨before, b, after ++ more, t, u, by simp, htrace, hstep, hP⟩

/-- What happened on a run has happened on every longer one. -/
theorem snoc (h : Happened step s actions P) (a : α) : Happened step s (actions ++ [a]) P :=
  h.append [a]

/-- A step of a run lies between two runs under the same conditions. -/
theorem on_trace (h : Happened step s actions P) (htrace : Trace step ok s actions t) :
    ∃ before a after u v, actions = before ++ a :: after ∧ Trace step ok s before u ∧ ok u a ∧
      step u a = some v ∧ P u a v ∧ Trace step ok v after t := by
  obtain ⟨before, b, after, u, v, rfl, hbefore, hstep, hP⟩ := h
  obtain ⟨u', hfirst, hrest⟩ := htrace.split
  obtain rfl : u' = u := hfirst.unique hbefore
  rw [← List.singleton_append] at hrest
  obtain ⟨w, hone, hafter⟩ := hrest.split
  obtain ⟨hok, hw⟩ := hone.of_singleton
  rw [hstep] at hw
  cases hw
  exact ⟨before, b, after, u', v, rfl, hfirst, hok, hstep, hP, hafter⟩

end Happened

/-! ## Executing actions -/

/-- Execute actions one after the other. -/
def runList (step : σ → α → Option σ) (s : σ) : List α → Option σ
  | [] => some s
  | a :: rest => (step s a).bind fun t => runList step t rest

/-- An executed list of actions is a run, if the steps executed are allowed steps. -/
theorem Trace.of_runList {step' : σ → α → Option σ} {actions : List α}
    (himp : ∀ {s a t}, step' s a = some t → ok s a ∧ step s a = some t)
    (h : runList step' s actions = some t) : Trace step ok s actions t := by
  induction actions generalizing s with
  | nil =>
    cases h
    exact .nil
  | cons a rest ih =>
    obtain ⟨u, hfirst, hrest⟩ := Option.bind_eq_some_iff.mp h
    obtain ⟨hok, hstep⟩ := himp hfirst
    exact (Trace.nil.snoc hok hstep).append (ih hrest)

/-- Steps that a check lets through. -/
def guarded (check : σ → α → Bool) (step : σ → α → Option σ) (s : σ) (a : α) : Option σ :=
  if check s a then step s a else none

/-- An executed list of checked actions is a run; what is seen of its end is computed. -/
theorem Trace.exists_of_runList {check : σ → α → Bool} {actions : List α} {β : Type*}
    {view : σ → β} {seen : β} (hcheck : ∀ s a, check s a = true → ok s a)
    (h : (runList (guarded check step) s actions).map view = some seen) :
    ∃ t, Trace step ok s actions t ∧ view t = seen := by
  obtain ⟨t, hrun, hview⟩ := Option.map_eq_some_iff.mp h
  refine ⟨t, .of_runList (fun {u a v} hstep => ?_) hrun, hview⟩
  unfold guarded at hstep
  split at hstep
  · next hok => exact ⟨hcheck u a hok, hstep⟩
  · cases hstep

end Foundation
