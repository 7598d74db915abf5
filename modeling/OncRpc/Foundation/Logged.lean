import OncRpc.Foundation.Cursor
import Mathlib.Data.List.Forall2

/-!
# Decoders that keep a log

A `Logged` decoder is a decoder that also keeps a log of what it does on the way, whether it
succeeds or not.  `Logged.erase` forgets the log; `Logged.entries` is the log of a run.  A decoder
that is followed by another logs what both of them do, but the second one only if the first has
succeeded, on what the first has left (`mem_entries_bind`); likewise for repetitions
(`mem_entries_times`, `mem_entries_each`).

`Logged.Sure P d` says that in a run that succeeds every entry has the property `P`.
-/

namespace Foundation

/-- A decoder with the log of its run. -/
def Logged (ε ρ α : Type) : Type := Bytes → List ρ × Option (Except ε α × Bytes)

namespace Logged

variable {ε ρ α β γ : Type}

/-- The decoder without its log. -/
def erase (d : Logged ε ρ α) : Cursor ε α := fun input => (d input).2

/-- The log of a run. -/
def entries (d : Logged ε ρ α) (input : Bytes) : List ρ := (d input).1

/-- A decoder that logs nothing. -/
def lift (d : Cursor ε α) : Logged ε ρ α := fun input => ([], d input)

/-- Log something about the input that is left. -/
def log (f : Bytes → ρ) : Logged ε ρ Unit := fun input => ([f input], some (.ok (), input))

/-- One decoder after the other. -/
protected def bind (d : Logged ε ρ α) (f : α → Logged ε ρ β) : Logged ε ρ β := fun input =>
  match d input with
  | (front, none) => (front, none)
  | (front, some (.error error, rest)) => (front, some (.error error, rest))
  | (front, some (.ok a, rest)) => (front ++ (f a rest).1, (f a rest).2)

instance : Monad (Logged ε ρ) where
  pure a := fun input => ([], some (.ok a, input))
  bind := Logged.bind

/-- A decoder run a number of times. -/
def times (d : Logged ε ρ α) : ℕ → Logged ε ρ (List α)
  | 0 => pure []
  | n + 1 => do
    let a ← d
    let more ← times d n
    return a :: more

/-- One decoder for each element of a list. -/
def each (f : γ → Logged ε ρ α) : List γ → Logged ε ρ (List α)
  | [] => pure []
  | x :: xs => do
    let a ← f x
    let more ← each f xs
    return a :: more

variable {d : Logged ε ρ α} {f : α → Logged ε ρ β} {input rest : Bytes} {r : ρ}

/-! ## Forgetting the log -/

/-- A lifted reader has itself under its log. -/
@[simp] theorem erase_lift (d : Cursor ε α) : (lift d : Logged ε ρ α).erase = d := rfl

/-- An entry of the log reads nothing. -/
@[simp] theorem erase_log (g : Bytes → ρ) :
    (log g : Logged ε ρ Unit).erase = (pure () : Cursor ε Unit) := rfl

/-- A value that is returned reads nothing. -/
@[simp] theorem erase_pure (a : α) :
    (pure a : Logged ε ρ α).erase = (pure a : Cursor ε α) := rfl

/-- The log of a sequence is forgotten part by part. -/
@[simp] theorem erase_bind (d : Logged ε ρ α) (f : α → Logged ε ρ β) :
    (d >>= f).erase = d.erase >>= fun a => (f a).erase := by
  funext input
  change (Logged.bind d f input).2 = Cursor.bind d.erase (fun a => (f a).erase) input
  unfold Logged.bind Cursor.bind erase
  rcases d input with ⟨front, _ | ⟨error | a, rest⟩⟩ <;> rfl

/-- The log of a repetition is forgotten part by part. -/
@[simp] theorem erase_times (d : Logged ε ρ α) (n : ℕ) : (d.times n).erase = d.erase.times n := by
  induction n with
  | zero => rfl
  | succ n ih => rw [times, Cursor.times, erase_bind, funext fun a => erase_bind _ _, ih]; rfl

/-- The log of a list of readers is forgotten part by part. -/
@[simp] theorem erase_each (f : γ → Logged ε ρ α) (xs : List γ) :
    (each f xs).erase = Cursor.each (fun x => (f x).erase) xs := by
  induction xs with
  | nil => rfl
  | cons x xs ih => rw [each, Cursor.each, erase_bind, funext fun a => erase_bind _ _, ih]; rfl

/-! ## What is logged -/

/-- A lifted reader logs nothing. -/
@[simp] theorem entries_lift (d : Cursor ε α) (input : Bytes) :
    (lift d : Logged ε ρ α).entries input = [] := rfl

/-- A log has its one entry. -/
@[simp] theorem entries_log (g : Bytes → ρ) (input : Bytes) :
    (log g : Logged ε ρ Unit).entries input = [g input] := rfl

/-- A value that is returned logs nothing. -/
@[simp] theorem entries_pure (a : α) (input : Bytes) :
    (pure a : Logged ε ρ α).entries input = [] := rfl

/-- A sequence logs what its first part logs, and what its second one does after it. -/
theorem mem_entries_bind : r ∈ (d >>= f).entries input ↔
    r ∈ d.entries input ∨
      ∃ a rest, d.erase input = some (.ok a, rest) ∧ r ∈ (f a).entries rest := by
  change r ∈ (Logged.bind d f input).1 ↔ _
  unfold Logged.bind entries erase
  rcases d input with ⟨front, _ | ⟨error | a, rest⟩⟩
  · simp
  · simp
  · simp only [List.mem_append, Option.some.injEq, Prod.mk.injEq, Except.ok.injEq]
    refine or_congr Iff.rfl ⟨fun h => ⟨a, rest, ⟨rfl, rfl⟩, h⟩, ?_⟩
    rintro ⟨_, _, ⟨rfl, rfl⟩, h⟩
    exact h

/-- What is logged behind a decoder that logs nothing. -/
theorem mem_entries_lift_bind {d : Cursor ε α} : r ∈ (lift d >>= f).entries input ↔
    ∃ a rest, d input = some (.ok a, rest) ∧ r ∈ (f a).entries rest := by
  rw [mem_entries_bind, entries_lift, erase_lift]
  exact or_iff_right List.not_mem_nil

/-- A result computed from what was read is not logged. -/
theorem entries_map (d : Logged ε ρ α) (g : α → β) (input : Bytes) :
    (d >>= fun a => pure (g a)).entries input = d.entries input := by
  change (Logged.bind d _ input).1 = (d input).1
  unfold Logged.bind
  rcases d input with ⟨front, _ | ⟨error | a, rest⟩⟩
  · rfl
  · rfl
  · exact List.append_nil front

/-- Repetitions log what each of them does where those in front have succeeded. -/
theorem mem_entries_times {n : ℕ} : r ∈ (d.times n).entries input ↔
    ∃ k < n, ∃ values rest, d.erase.times k input = some (.ok values, rest) ∧
      r ∈ d.entries rest := by
  induction n generalizing input with
  | zero => simp [times]
  | succ n ih =>
    rw [times, mem_entries_bind]
    constructor
    · rintro (hfirst | ⟨a, mid, ha, hmore⟩)
      · exact ⟨0, Nat.succ_pos n, [], input, rfl, hfirst⟩
      · rw [entries_map] at hmore
        obtain ⟨k, hk, values, rest, hvalues, hr⟩ := ih.mp hmore
        refine ⟨k + 1, Nat.succ_lt_succ hk, a :: values, rest, ?_, hr⟩
        rw [Cursor.times, Cursor.bind_of_ok ha, Cursor.bind_of_ok hvalues]
        rfl
    · rintro ⟨_ | k, hk, values, rest, hvalues, hr⟩
      · obtain ⟨-, rfl⟩ := Cursor.pure_eq_ok_iff.mp hvalues
        exact .inl hr
      · obtain ⟨a, mid, ha, hvalues⟩ := Cursor.bind_eq_ok_iff.mp hvalues
        obtain ⟨more, rest', hmore, hpure⟩ := Cursor.bind_eq_ok_iff.mp hvalues
        obtain ⟨-, rfl⟩ := Cursor.pure_eq_ok_iff.mp hpure
        refine .inr ⟨a, mid, ha, ?_⟩
        rw [entries_map]
        exact ih.mpr ⟨k, Nat.lt_of_succ_lt_succ hk, more, rest, hmore, hr⟩

/-- Repetitions of a decoder that logs nothing. -/
theorem entries_times_lift (d : Cursor ε α) (n : ℕ) (input : Bytes) :
    ((lift d : Logged ε ρ α).times n).entries input = [] := by
  refine List.eq_nil_iff_forall_not_mem.mpr fun r hr => ?_
  obtain ⟨k, -, values, rest, -, hr⟩ := mem_entries_times.mp hr
  exact List.not_mem_nil hr

/-- Decoders one after the other log what each of them does where those in front have succeeded. -/
theorem mem_entries_each {f : γ → Logged ε ρ α} {xs : List γ} : r ∈ (each f xs).entries input ↔
    ∃ before x after values rest, xs = before ++ x :: after ∧
      Cursor.each (fun x => (f x).erase) before input = some (.ok values, rest) ∧
      r ∈ (f x).entries rest := by
  induction xs generalizing input with
  | nil => simp [each]
  | cons x xs ih =>
    rw [each, mem_entries_bind]
    constructor
    · rintro (hfirst | ⟨a, mid, ha, hmore⟩)
      · exact ⟨[], x, xs, [], input, rfl, rfl, hfirst⟩
      · rw [entries_map] at hmore
        obtain ⟨before, y, after, values, rest, rfl, hvalues, hr⟩ := ih.mp hmore
        refine ⟨x :: before, y, after, a :: values, rest, rfl, ?_, hr⟩
        rw [Cursor.each, Cursor.bind_of_ok ha, Cursor.bind_of_ok hvalues]
        rfl
    · rintro ⟨_ | ⟨z, before⟩, y, after, values, rest, hsplit, hvalues, hr⟩
      · obtain ⟨-, rfl⟩ := Cursor.pure_eq_ok_iff.mp hvalues
        obtain ⟨rfl, rfl⟩ := List.cons.inj hsplit
        exact .inl hr
      · obtain ⟨rfl, rfl⟩ := List.cons.inj hsplit
        obtain ⟨a, mid, ha, hvalues⟩ := Cursor.bind_eq_ok_iff.mp hvalues
        obtain ⟨more, rest', hmore, hpure⟩ := Cursor.bind_eq_ok_iff.mp hvalues
        obtain ⟨-, rfl⟩ := Cursor.pure_eq_ok_iff.mp hpure
        refine .inr ⟨a, mid, ha, ?_⟩
        rw [entries_map]
        exact ih.mpr ⟨before, y, after, more, rest, rfl, hmore, hr⟩

/-! ## Runs that succeed -/

/-- In a run that succeeds every entry has the property. -/
def Sure (P : ρ → Prop) (d : Logged ε ρ α) : Prop :=
  ∀ input a rest, d.erase input = some (.ok a, rest) → ∀ r ∈ d.entries input, P r

namespace Sure

variable {P : ρ → Prop}

/-- A lifted reader logs nothing that could fail. -/
protected theorem lift (d : Cursor ε α) : Sure P (lift d : Logged ε ρ α) :=
  fun _ _ _ _ _ hr => absurd hr List.not_mem_nil

/-- A value that is returned logs nothing that could fail. -/
protected theorem pure (a : α) : Sure P (pure a : Logged ε ρ α) :=
  fun _ _ _ _ _ hr => absurd hr List.not_mem_nil

/-- A sequence is sure, if its parts are. -/
protected theorem bind (h : Sure P d) (hf : ∀ a, Sure P (f a)) : Sure P (d >>= f) := by
  intro input b rest hrun r hr
  rw [erase_bind] at hrun
  obtain ⟨a, mid, ha, hb⟩ := Cursor.bind_eq_ok_iff.mp hrun
  rcases mem_entries_bind.mp hr with hfirst | ⟨a', mid', ha', hsecond⟩
  · exact h input a mid ha r hfirst
  · obtain ⟨rfl, rfl⟩ : a' = a ∧ mid' = mid := by
      rw [ha] at ha'
      cases ha'
      exact ⟨rfl, rfl⟩
    exact hf a' mid' b rest hb r hsecond

/-- A function of the value leaves a reader sure. -/
protected theorem map (h : Sure P d) (g : α → β) : Sure P (d >>= fun a => pure (g a)) :=
  h.bind fun a => .pure (g a)

/-- A repetition is sure, if its part is. -/
theorem times (h : Sure P d) (n : ℕ) : Sure P (d.times n) := by
  induction n with
  | zero => exact Sure.pure []
  | succ n ih => exact h.bind fun a => ih.map (List.cons a)

/-- A list of readers is sure, if its members are. -/
theorem each {f : γ → Logged ε ρ α} {xs : List γ} (h : ∀ x ∈ xs, Sure P (f x)) :
    Sure P (Logged.each f xs) := by
  induction xs with
  | nil => exact Sure.pure []
  | cons x xs ih =>
    obtain ⟨hfirst, hrest⟩ := List.forall_mem_cons.mp h
    exact hfirst.bind fun a => (ih hrest).map (List.cons a)

end Sure

end Logged

end Foundation
