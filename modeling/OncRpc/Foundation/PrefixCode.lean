import Mathlib.Data.List.Infix

/-!
# Prefix codes

A prefix code gives every value a word, so that a text can start with the word of one value only.
The words of several values one after the other can then be read back in one way, and whoever has
seen a start of such a text, whatever its length, knows which words it has seen whole.
-/

namespace Foundation

variable {α β : Type} {code : α → List β}

/-- No word is empty, and no text starts with the words of two values. -/
structure PrefixCode (code : α → List β) : Prop where
  ne_nil : ∀ x, code x ≠ []
  unique : ∀ {x y : α} {a b : List β}, code x ++ a = code y ++ b → x = y

namespace PrefixCode

/-- A text is read in one way at its start, and leaves one rest. -/
theorem append_inj (h : PrefixCode code) {x y : α} {a b : List β}
    (heq : code x ++ a = code y ++ b) : x = y ∧ a = b := by
  obtain rfl := h.unique heq
  exact ⟨rfl, List.append_cancel_left heq⟩

/-- Whole words at the start of a text are its first words. -/
theorem isPrefix_of_append (h : PrefixCode code) {xs ys : List α} {rest : List β}
    (heq : xs.flatMap code ++ rest = ys.flatMap code) : xs <+: ys := by
  induction xs generalizing ys with
  | nil => exact List.nil_prefix
  | cons x xs ih =>
    rw [List.flatMap_cons, List.append_assoc] at heq
    cases ys with
    | nil => exact absurd (List.append_eq_nil_iff.mp heq).1 (h.ne_nil x)
    | cons y ys =>
      rw [List.flatMap_cons] at heq
      obtain ⟨rfl, hrest⟩ := h.append_inj heq
      exact (List.prefix_cons_inj x).mpr (ih hrest)

/-- Whole words in what has been seen of a text are its first words. -/
theorem isPrefix_of_seen (h : PrefixCode code) {xs ys : List α} {rest seen : List β}
    (hseen : seen = xs.flatMap code ++ rest) (hpart : seen <+: ys.flatMap code) : xs <+: ys := by
  obtain ⟨unseen, htext⟩ := hpart
  have hwhole : xs.flatMap code ++ (rest ++ unseen) = ys.flatMap code := by
    rw [← htext, hseen, List.append_assoc]
  exact h.isPrefix_of_append hwhole

end PrefixCode

end Foundation
