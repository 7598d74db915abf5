import Mathlib.Data.List.Forall2

/-!
# Lists side by side

When the elements of two lists are related pair by pair, every element has a partner.
-/

namespace Foundation

variable {α β : Type} {R S : α → β → Prop} {xs : List α} {ys : List β}

/-- Every element of the left list has a partner. -/
theorem exists_of_mem_left (h : List.Forall₂ R xs ys) {x : α} (hmem : x ∈ xs) :
    ∃ y ∈ ys, R x y := by
  induction h with
  | nil => cases hmem
  | cons hfirst _ ih =>
    rcases List.mem_cons.mp hmem with rfl | hmem
    · exact ⟨_, List.mem_cons_self .., hfirst⟩
    · obtain ⟨y, hy, hrel⟩ := ih hmem
      exact ⟨y, List.mem_cons_of_mem _ hy, hrel⟩

/-- What holds of the pairs of two lists, used where their elements are known. -/
theorem forall₂_imp_of_mem (h : List.Forall₂ R xs ys) (himp : ∀ x ∈ xs, ∀ y ∈ ys, R x y → S x y) :
    List.Forall₂ S xs ys := by
  induction h with
  | nil => exact .nil
  | cons hfirst _ ih =>
    refine .cons (himp _ (List.mem_cons_self ..) _ (List.mem_cons_self ..) hfirst) (ih ?_)
    exact fun x hx y hy => himp x (List.mem_cons_of_mem _ hx) y (List.mem_cons_of_mem _ hy)

/-- Lists side by side with one in which every element has a partner. -/
theorem exists_forall₂ (h : ∀ x ∈ xs, ∃ y, R x y) : ∃ ys, List.Forall₂ R xs ys := by
  induction xs with
  | nil => exact ⟨[], .nil⟩
  | cons x xs ih =>
    obtain ⟨⟨y, hy⟩, hrest⟩ := List.forall_mem_cons.mp h
    obtain ⟨ys, hys⟩ := ih hrest
    exact ⟨y :: ys, .cons hy hys⟩

/-- Pairs over pairs are pairs. -/
theorem forall₂_comp {γ : Type} {S : β → γ → Prop} {T : α → γ → Prop} {zs : List γ}
    (h : List.Forall₂ R xs ys) (h' : List.Forall₂ S ys zs)
    (himp : ∀ x y z, R x y → S y z → T x z) : List.Forall₂ T xs zs := by
  induction h generalizing zs with
  | nil =>
    cases h'
    exact .nil
  | cons hfirst _ ih =>
    cases h' with
    | cons hfirst' hrest' => exact .cons (himp _ _ _ hfirst hfirst') (ih hrest')

/-- Equal pieces make equal texts. -/
theorem flatMap_eq_of_forall₂ {γ : Type} {f : α → List γ} {g : β → List γ}
    (h : List.Forall₂ (fun x y => f x = g y) xs ys) : xs.flatMap f = ys.flatMap g := by
  induction h with
  | nil => rfl
  | cons hfirst _ ih => rw [List.flatMap_cons, List.flatMap_cons, hfirst, ih]

/-- Membership in the concatenation of what was made of each element. -/
theorem mem_flatten_of_forall₂ {R : α → List β → Prop} {yss : List (List β)}
    (h : List.Forall₂ R xs yss) {y : β} :
    y ∈ yss.flatten ↔ ∃ x ∈ xs, ∃ ys, R x ys ∧ ys ∈ yss ∧ y ∈ ys := by
  constructor
  · intro hmem
    obtain ⟨ys, hys, hy⟩ := List.mem_flatten.mp hmem
    obtain ⟨x, hx, hrel⟩ := exists_of_mem_left h.flip hys
    exact ⟨x, hx, ys, hrel, hys, hy⟩
  · rintro ⟨x, -, ys, -, hys, hy⟩
    exact List.mem_flatten.mpr ⟨ys, hys, hy⟩

end Foundation
