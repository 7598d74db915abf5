import OncRpc.Foundation.BigEndian

/-!
# Byte parsers and the formats they recognise

A parser consumes a prefix of its input and returns a value with the unread rest, or fails.  Two
notions relate a parser to the relation `R x b` read as "`b` is an encoding of `x`".

* `Inverts p R`: `p` reads one encoding off the front of any input and leaves the rest alone.
* `Covers p R`: `p` reads the whole input, which must be one encoding.

Both are stated as equivalences, so that a proof of either gives soundness and completeness of the
parser at once, and both are closed under sequencing.  A decoder whose fields are followed by a
payload that runs to the end of the input is a chain of `Inverts` steps closed by one `Covers`
step.
-/

namespace Foundation

/-- A parser over byte strings with errors in `ε`. -/
abbrev Parser (ε : Type) := StateT Bytes (Except ε)

namespace Parser

variable {ε α β : Type}

/-- `p` accepts exactly the inputs that start with an encoding of the value it returns, and returns
what follows that encoding. -/
def Inverts (p : Parser ε α) (R : α → Bytes → Prop) : Prop :=
  ∀ input x rest, p input = .ok (x, rest) ↔ ∃ b, R x b ∧ input = b ++ rest

/-- `p` accepts exactly the inputs that are an encoding of the value it returns. -/
def Covers (p : Parser ε α) (R : α → Bytes → Prop) : Prop :=
  ∀ input x rest, p input = .ok (x, rest) ↔ rest = [] ∧ R x input

/-- The relation recognised by two parsers in sequence. -/
def Chain (R : α → Bytes → Prop) (S : α → β → Bytes → Prop) (y : β) (b : Bytes) : Prop :=
  ∃ x b₁ b₂, R x b₁ ∧ S x y b₂ ∧ b = b₁ ++ b₂

/-- A sequence succeeds exactly when both of its steps do. -/
theorem bind_eq_ok {p : Parser ε α} {f : α → Parser ε β} {input rest : Bytes} {y : β} :
    (p >>= f) input = .ok (y, rest) ↔
      ∃ x mid, p input = .ok (x, mid) ∧ f x mid = .ok (y, rest) := by
  change (p input >>= fun q => f q.1 q.2) = .ok (y, rest) ↔ _
  cases p input with
  | error e =>
    simp only [reduceCtorEq, false_and, exists_false, iff_false]
    intro h
    cases h
  | ok q =>
    simp only [Except.ok.injEq]
    constructor
    · intro h
      exact ⟨q.1, q.2, rfl, h⟩
    · rintro ⟨x, mid, hq, hf⟩
      rw [hq]
      exact hf

/-- What a sequence does once its first step has succeeded. -/
theorem bind_of_ok {p : Parser ε α} {f : α → Parser ε β} {input mid : Bytes} {x : α}
    (h : p input = .ok (x, mid)) : (p >>= f) input = f x mid := by
  change (p input >>= fun q => f q.1 q.2) = f x mid
  rw [h]
  rfl

/-- A sequence fails with the error of its first step. -/
theorem bind_of_error {p : Parser ε α} {f : α → Parser ε β} {input : Bytes} {e : ε}
    (h : p input = .error e) : (p >>= f) input = .error e := by
  change (p input >>= fun q => f q.1 q.2) = .error e
  rw [h]
  rfl

/-- Mapping a function over a parser keeps its errors. -/
theorem map_of_error {p : Parser ε α} {input : Bytes} {e : ε} (h : p input = .error e)
    (g : α → β) : (g <$> p) input = .error e :=
  bind_of_error (f := fun x => pure (g x)) h

theorem pure_apply (x : α) (input : Bytes) :
    (pure x : Parser ε α) input = .ok (x, input) := rfl

theorem throw_apply (e : ε) (input : Bytes) :
    (throw e : Parser ε α) input = .error e := rfl

/-- A format parser reads its encoding off the front of any input. -/
theorem Inverts.apply_append {p : Parser ε α} {R : α → Bytes → Prop} (hp : Inverts p R) {x : α}
    {b : Bytes} (hb : R x b) (rest : Bytes) : p (b ++ rest) = .ok (x, rest) :=
  (hp _ _ _).mpr ⟨b, hb, rfl⟩

theorem inverts_pure (x : α) : Inverts (pure x : Parser ε α) (fun y b => y = x ∧ b = []) := by
  intro input y rest
  rw [pure_apply]
  constructor
  · intro h
    cases h
    exact ⟨[], ⟨rfl, rfl⟩, rfl⟩
  · rintro ⟨b, ⟨rfl, rfl⟩, rfl⟩
    rfl

theorem covers_throw (e : ε) : Covers (throw e : Parser ε α) (fun _ _ => False) := by
  intro input y rest
  rw [throw_apply]
  simp

/-- Reading one format after another reads their sequence. -/
theorem Inverts.bind {p : Parser ε α} {f : α → Parser ε β} {R : α → Bytes → Prop}
    {S : α → β → Bytes → Prop} (hp : Inverts p R) (hf : ∀ x, Inverts (f x) (S x)) :
    Inverts (p >>= f) (Chain R S) := by
  intro input y rest
  rw [bind_eq_ok]
  constructor
  · rintro ⟨x, mid, hx, hy⟩
    obtain ⟨b₁, hR, rfl⟩ := (hp _ _ _).mp hx
    obtain ⟨b₂, hS, rfl⟩ := (hf x _ _ _).mp hy
    exact ⟨b₁ ++ b₂, ⟨x, b₁, b₂, hR, hS, rfl⟩, (List.append_assoc _ _ _).symm⟩
  · rintro ⟨b, ⟨x, b₁, b₂, hR, hS, rfl⟩, rfl⟩
    refine ⟨x, b₂ ++ rest, ?_, (hf x).apply_append hS rest⟩
    rw [List.append_assoc]
    exact hp.apply_append hR _

/-- A prefix format followed by one that runs to the end of the input runs to the end. -/
theorem Inverts.bind_covers {p : Parser ε α} {f : α → Parser ε β} {R : α → Bytes → Prop}
    {S : α → β → Bytes → Prop} (hp : Inverts p R) (hf : ∀ x, Covers (f x) (S x)) :
    Covers (p >>= f) (Chain R S) := by
  intro input y rest
  rw [bind_eq_ok]
  constructor
  · rintro ⟨x, mid, hx, hy⟩
    obtain ⟨b₁, hR, rfl⟩ := (hp _ _ _).mp hx
    obtain ⟨rfl, hS⟩ := (hf x _ _ _).mp hy
    exact ⟨rfl, x, b₁, mid, hR, hS, rfl⟩
  · rintro ⟨rfl, x, b₁, b₂, hR, hS, rfl⟩
    exact ⟨x, b₂, hp.apply_append hR b₂, (hf x _ _ _).mpr ⟨rfl, hS⟩⟩

/-- Replacing the recognised relation by an equivalent one. -/
theorem Inverts.congr {p : Parser ε α} {R S : α → Bytes → Prop} (hp : Inverts p R)
    (h : ∀ x b, R x b ↔ S x b) : Inverts p S := by
  intro input x rest
  rw [hp input x rest]
  simp only [h]

/-- Replacing the recognised relation by an equivalent one. -/
theorem Covers.congr {p : Parser ε α} {R S : α → Bytes → Prop} (hp : Covers p R)
    (h : ∀ x b, R x b ↔ S x b) : Covers p S := by
  intro input x rest
  rw [hp input x rest]
  simp only [h]

/-- Applying a function to the value of a parser that runs to the end of the input. -/
theorem Covers.bind_pure {p : Parser ε α} {R : α → Bytes → Prop} (hp : Covers p R) (g : α → β) :
    Covers (p >>= fun x => pure (g x)) (fun y b => ∃ x, y = g x ∧ R x b) := by
  intro input y rest
  rw [bind_eq_ok]
  constructor
  · rintro ⟨x, mid, hx, hy⟩
    obtain ⟨rfl, hR⟩ := (hp _ _ _).mp hx
    cases hy
    exact ⟨rfl, x, rfl, hR⟩
  · rintro ⟨rfl, x, rfl, hR⟩
    exact ⟨x, [], (hp _ _ _).mpr ⟨rfl, hR⟩, rfl⟩

/-- Mapping a function over a parser that runs to the end of the input. -/
theorem Covers.map {p : Parser ε α} {R : α → Bytes → Prop} (hp : Covers p R) (g : α → β) :
    Covers (g <$> p) (fun y b => ∃ x, y = g x ∧ R x b) :=
  hp.bind_pure g

end Parser

end Foundation
