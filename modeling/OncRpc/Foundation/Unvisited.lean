import Mathlib.Data.List.Basic

/-!
# What a search has not entered yet

A search over finitely many keys that enters none of them twice comes to an end, because the number
of keys it has not entered goes down.  `unvisited` is that number.
-/

namespace Foundation

variable {κ : Type} [DecidableEq κ] {keys seen seen' : List κ} {x : κ}

/-- How many of the keys a search has not entered. -/
def unvisited (keys seen : List κ) : ℕ := keys.countP fun key => decide (key ∉ seen)

/-- All the keys are the most there can be left. -/
theorem unvisited_le : unvisited keys seen ≤ keys.length := List.countP_le_length

/-- What enters more has less left. -/
theorem unvisited_anti (h : seen ⊆ seen') : unvisited keys seen' ≤ unvisited keys seen := by
  refine List.countP_mono_left fun key _ hkey => ?_
  have hnew : key ∉ seen' := of_decide_eq_true hkey
  exact decide_eq_true fun hold => hnew (h hold)

/-- To enter a key leaves fewer. -/
theorem unvisited_cons_lt (hx : x ∈ keys) (hnew : x ∉ seen) :
    unvisited keys (x :: seen) < unvisited keys seen := by
  obtain ⟨front, back, rfl⟩ := List.append_of_mem hx
  have hfront : unvisited front (x :: seen) ≤ unvisited front seen :=
    unvisited_anti (List.subset_cons_self x seen)
  have hback : unvisited back (x :: seen) ≤ unvisited back seen :=
    unvisited_anti (List.subset_cons_self x seen)
  simp only [unvisited, List.countP_append, List.countP_cons] at hfront hback ⊢
  rw [if_pos (decide_eq_true hnew), if_neg (by simp)]
  omega

end Foundation
