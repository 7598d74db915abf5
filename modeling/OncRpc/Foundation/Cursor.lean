import OncRpc.Foundation.BigEndian
import Mathlib.Data.List.Forall2
import Mathlib.Order.Filter.AtTopBot.Basic

/-!
# Decoders that move a cursor, and encoders

A decoder advances over its input as far as it gets, also when it fails.  Decoders of recursive data
take fuel: without enough of it they have no result at all.  So a decoder of a recursive type is a
family of cursors indexed by fuel, and `Reads d c a` says that with enough fuel it consumes exactly
`c` and returns `a`, whatever follows.  `Writes` is the like notion for encoders.

`Within d bound` says that a decoder which succeeds has consumed at most `bound` bytes, and
`Incremental` that on a part of an encoding it asks for the bytes that are missing.  All four are
closed under sequencing and repetition.
-/

namespace Foundation

open Filter

/-- A decoder: its result, and where it leaves its input; no result without enough fuel. -/
def Cursor (ε α : Type) : Type := Bytes → Option (Except ε α × Bytes)

namespace Cursor

variable {ε α β γ : Type}

/-- The decoder that has no fuel left. -/
def exhausted : Cursor ε α := fun _ => none

/-- Fail and leave the input alone. -/
def fail (error : ε) : Cursor ε α := fun input => some (.error error, input)

/-- One decoder after the other. -/
protected def bind (d : Cursor ε α) (f : α → Cursor ε β) : Cursor ε β := fun input =>
  match d input with
  | none => none
  | some (.error error, rest) => some (.error error, rest)
  | some (.ok a, rest) => f a rest

instance : Monad (Cursor ε) where
  pure a := fun input => some (.ok a, input)
  bind := Cursor.bind

/-- A decoder run a number of times. -/
def times (d : Cursor ε α) : ℕ → Cursor ε (List α)
  | 0 => pure []
  | n + 1 => do
    let a ← d
    let more ← times d n
    return a :: more

/-- One decoder for each element of a list. -/
def each (f : γ → Cursor ε α) : List γ → Cursor ε (List α)
  | [] => pure []
  | x :: xs => do
    let a ← f x
    let more ← each f xs
    return a :: more

variable {d : Cursor ε α} {f : α → Cursor ε β} {input mid rest : Bytes} {a : α} {b : β}

/-- A decoder that does nothing reads nothing. -/
@[simp] theorem pure_apply (a : α) (input : Bytes) :
    (pure a : Cursor ε α) input = some (.ok a, input) := rfl

/-- A decoder that fails reads nothing. -/
@[simp] theorem fail_apply (error : ε) (input : Bytes) :
    (fail error : Cursor ε α) input = some (.error error, input) := rfl

/-- What a sequence does once its first step has succeeded. -/
theorem bind_of_ok (h : d input = some (.ok a, mid)) : (d >>= f) input = f a mid := by
  change Cursor.bind d f input = f a mid
  rw [Cursor.bind, h]

/-- A sequence fails with the error of its first step. -/
theorem bind_of_error {error : ε} (h : d input = some (.error error, mid)) :
    (d >>= f) input = some (.error error, mid) := by
  change Cursor.bind d f input = _
  rw [Cursor.bind, h]

/-- A sequence succeeds exactly when both of its steps do. -/
theorem bind_eq_ok_iff : (d >>= f) input = some (.ok b, rest) ↔
    ∃ a mid, d input = some (.ok a, mid) ∧ f a mid = some (.ok b, rest) := by
  constructor
  · intro h
    change Cursor.bind d f input = _ at h
    unfold Cursor.bind at h
    split at h
    · cases h
    · cases h
    · next a mid hd => exact ⟨a, mid, hd, h⟩
  · rintro ⟨a, mid, hd, hf⟩
    rw [bind_of_ok hd, hf]

/-- A decoder that does nothing returns its value and leaves its input. -/
theorem pure_eq_ok_iff {a' : α} :
    (pure a : Cursor ε α) input = some (.ok a', rest) ↔ a' = a ∧ rest = input := by
  rw [pure_apply, Option.some.injEq, Prod.mk.injEq, Except.ok.injEq]
  exact and_congr eq_comm eq_comm

/-! ## Reading an encoding -/

/-- With enough fuel the decoder consumes exactly `c` and returns `a`. -/
def Reads (d : ℕ → Cursor ε α) (c : Bytes) (a : α) : Prop :=
  ∀ᶠ n in atTop, ∀ rest, d n (c ++ rest) = some (.ok a, rest)

namespace Reads

variable {d : ℕ → Cursor ε α} {c c' : Bytes}

/-- A decoder that takes no fuel. -/
theorem of_forall {d : Cursor ε α} (h : ∀ rest, d (c ++ rest) = some (.ok a, rest)) :
    Reads (fun _ => d) c a :=
  Eventually.of_forall fun _ => h

/-- A decoder that does nothing reads nothing, with any fuel. -/
protected theorem pure (a : α) : Reads (fun _ => (pure a : Cursor ε α)) [] a :=
  of_forall fun _ => rfl

/-- One decoder after the other reads what both read. -/
protected theorem bind {f : ℕ → α → Cursor ε β} (h : Reads d c a)
    (hf : Reads (fun n => f n a) c' b) : Reads (fun n => d n >>= f n) (c ++ c') b := by
  filter_upwards [h, hf] with n hn hfn
  intro rest
  rw [List.append_assoc, bind_of_ok (hn (c' ++ rest)), hfn]

/-- A result computed from what was read. -/
protected theorem map (h : Reads d c a) (g : α → β) :
    Reads (fun n => d n >>= fun a => pure (g a)) c (g a) := by
  have := h.bind (f := fun _ a => pure (g a)) (.pure (g a))
  rwa [List.append_nil] at this

/-- A decoder that uses one unit of fuel to call another. -/
theorem of_succ {d' : ℕ → Cursor ε α} (hd : ∀ n, d' (n + 1) = d n) (h : Reads d c a) :
    Reads d' c a := by
  obtain ⟨N, hN⟩ := eventually_atTop.mp h
  refine eventually_atTop.mpr ⟨N + 1, fun n hn => ?_⟩
  obtain ⟨m, rfl⟩ := Nat.exists_eq_add_of_le' (Nat.one_le_of_lt hn)
  rw [hd]
  exact hN m (Nat.le_of_succ_le_succ hn)

/-- Reading a sequence of encodings. -/
theorem times {encodings : List Bytes} {values : List α}
    (h : List.Forall₂ (Reads d) encodings values) :
    Reads (fun n => (d n).times values.length) encodings.flatten values := by
  induction h with
  | nil => exact .pure []
  | cons hfirst _ ih => exact hfirst.bind (ih.map _)

/-- Reading one encoding after the other, by one decoder each. -/
theorem each_cons {f : ℕ → γ → Cursor ε α} {x : γ} {xs : List γ} {values : List α}
    (h : Reads (fun n => f n x) c a) (hs : Reads (fun n => each (f n) xs) c' values) :
    Reads (fun n => each (f n) (x :: xs)) (c ++ c') (a :: values) :=
  h.bind (hs.map _)

end Reads

/-! ## How much is consumed -/

/-- A decoder that succeeds has consumed at most `bound` bytes. -/
def Within (d : Cursor ε α) (bound : ℕ) : Prop :=
  ∀ input a rest, d input = some (.ok a, rest) →
    ∃ c, input = c ++ rest ∧ c.length ≤ bound

namespace Within

variable {bound bound' : ℕ}

/-- A decoder that does nothing is within any bound. -/
protected theorem pure (a : α) : Within (pure a : Cursor ε α) 0 := by
  intro input a' rest h
  obtain ⟨-, rfl⟩ := pure_eq_ok_iff.mp h
  exact ⟨[], rfl, Nat.le_refl 0⟩

/-- A decoder that fails is within any bound. -/
protected theorem fail (error : ε) (bound : ℕ) : Within (fail error : Cursor ε α) bound := by
  intro input a rest h
  cases h

/-- A decoder out of fuel is within any bound. -/
protected theorem exhausted (bound : ℕ) : Within (exhausted : Cursor ε α) bound := by
  intro input a rest h
  cases h

/-- A decoder within a bound is within a larger one. -/
theorem mono (h : Within d bound) (hle : bound ≤ bound') : Within d bound' := by
  intro input a rest hd
  obtain ⟨c, hc, hlength⟩ := h input a rest hd
  exact ⟨c, hc, hlength.trans hle⟩

/-- One decoder after the other is within the sum of both bounds. -/
protected theorem bind (h : Within d bound) (hf : ∀ a, Within (f a) bound') :
    Within (d >>= f) (bound + bound') := by
  intro input b rest hd
  obtain ⟨a, mid, ha, hb⟩ := bind_eq_ok_iff.mp hd
  obtain ⟨c, rfl, hc⟩ := h input a mid ha
  obtain ⟨c', rfl, hc'⟩ := hf a mid b rest hb
  refine ⟨c ++ c', (List.append_assoc _ _ _).symm, ?_⟩
  rw [List.length_append]
  exact Nat.add_le_add hc hc'

/-- A result computed from what was read. -/
protected theorem map (h : Within d bound) (g : α → β) :
    Within (d >>= fun a => pure (g a)) bound :=
  h.bind fun a => .pure (g a)

/-- A decoder that runs some times is within as many bounds. -/
theorem times (h : Within d bound) (n : ℕ) : Within (d.times n) (n * bound) := by
  induction n with
  | zero => exact (Within.pure []).mono (Nat.zero_le _)
  | succ n ih =>
    have hstep := h.bind fun a => ih.map (List.cons a)
    refine hstep.mono ?_
    rw [Nat.succ_mul, Nat.add_comm]

/-- One decoder for each element of a list, each under a bound of its own. -/
theorem each {f : γ → Cursor ε α} {xs : List γ} {bounds : List ℕ}
    (h : List.Forall₂ (fun x bound => Within (f x) bound) xs bounds) :
    Within (Cursor.each f xs) bounds.sum := by
  induction h with
  | nil => exact Within.pure []
  | cons hfirst _ ih =>
    rw [List.sum_cons]
    exact hfirst.bind fun a => ih.map (List.cons a)

end Within

/-! ## A part of an encoding -/

/-- A decoder that succeeds has read an encoding, which it also reads in front of anything else.  On
a part of the encoding it fails: it leaves the bytes of the field it stands at and reports how many
the field needs, which is more than are left and no more than the encoding has. -/
def Incremental (eof : ℕ → ε) (d : Cursor ε α) : Prop :=
  ∀ input a rest, d input = some (.ok a, rest) →
    ∃ c, input = c ++ rest ∧ (∀ more, d (c ++ more) = some (.ok a, more)) ∧
      ∀ front back, c = front ++ back → back ≠ [] →
        ∃ needed field, d front = some (.error (eof needed), field) ∧ field.length < needed ∧
          needed ≤ field.length + back.length

namespace Incremental

variable {eof : ℕ → ε}

/-- A decoder that does nothing is incremental. -/
protected theorem pure (a : α) : Incremental eof (pure a : Cursor ε α) := by
  intro input a' rest h
  obtain ⟨rfl, rfl⟩ := pure_eq_ok_iff.mp h
  refine ⟨[], rfl, fun _ => rfl, fun front back hsplit hback => ?_⟩
  exact absurd (List.append_eq_nil_iff.mp hsplit.symm).2 hback

/-- A decoder that fails is incremental. -/
protected theorem fail (error : ε) : Incremental eof (fail error : Cursor ε α) := by
  intro input a rest h
  cases h

/-- A decoder out of fuel is incremental. -/
protected theorem exhausted : Incremental eof (exhausted : Cursor ε α) := by
  intro input a rest h
  cases h

/-- One incremental decoder after another is incremental. -/
protected theorem bind (h : Incremental eof d) (hf : ∀ a, Incremental eof (f a)) :
    Incremental eof (d >>= f) := by
  intro input b rest hd
  obtain ⟨a, mid, ha, hb⟩ := bind_eq_ok_iff.mp hd
  obtain ⟨c, rfl, hreads, hpart⟩ := h input a mid ha
  obtain ⟨c', rfl, hreads', hpart'⟩ := hf a mid b rest hb
  refine ⟨c ++ c', (List.append_assoc _ _ _).symm, fun more => ?_,
    fun front back hsplit hback => ?_⟩
  · rw [List.append_assoc, bind_of_ok (hreads _), hreads']
  · rcases List.append_eq_append_iff.mp hsplit with ⟨between, rfl, rfl⟩ | ⟨between, rfl, rfl⟩
    · -- the first step has all it needs
      obtain ⟨needed, field, herror, hlt, hle⟩ := hpart' between back rfl hback
      exact ⟨needed, field, by rw [bind_of_ok (hreads between), herror], hlt, hle⟩
    · rcases between with _ | ⟨byte, between⟩
      · obtain ⟨needed, field, herror, hlt, hle⟩ := hpart' [] c' rfl hback
        refine ⟨needed, field, ?_, hlt, hle⟩
        have hfirst := hreads []
        rw [List.append_nil, List.append_nil] at hfirst
        rw [bind_of_ok hfirst, herror]
      · obtain ⟨needed, field, herror, hlt, hle⟩ :=
          hpart front _ rfl (List.cons_ne_nil byte between)
        refine ⟨needed, field, bind_of_error herror, hlt, hle.trans ?_⟩
        rw [List.length_append]
        omega

/-- A result computed from what was read. -/
protected theorem map (h : Incremental eof d) (g : α → β) :
    Incremental eof (d >>= fun a => pure (g a)) :=
  h.bind fun a => .pure (g a)

/-- A decoder that does the same, except for where it leaves its input when it fails for another
reason. -/
theorem of_agree {d' : Cursor ε α} (h : Incremental eof d)
    (hd : ∀ input, d' input = d input ∨ ∃ error mid mid', d' input = some (.error error, mid) ∧
      d input = some (.error error, mid') ∧ ∀ needed, error ≠ eof needed) :
    Incremental eof d' := by
  have hok {input : Bytes} {a : α} {rest : Bytes} :
      d' input = some (.ok a, rest) ↔ d input = some (.ok a, rest) := by
    rcases hd input with heq | ⟨error, mid, mid', heq', heq, -⟩
    · rw [heq]
    · simp [heq, heq']
  intro input a rest hinput
  obtain ⟨c, hc, hreads, hpart⟩ := h input a rest (hok.mp hinput)
  refine ⟨c, hc, fun more => hok.mpr (hreads more), fun front back hsplit hback => ?_⟩
  obtain ⟨needed, field, herror, hlt, hle⟩ := hpart front back hsplit hback
  refine ⟨needed, field, ?_, hlt, hle⟩
  rcases hd front with heq | ⟨error, mid, mid', -, heq, hne⟩
  · rw [heq, herror]
  · rw [herror] at heq
    cases heq
    exact absurd rfl (hne needed)

/-- An incremental decoder may run any number of times. -/
theorem times (h : Incremental eof d) (n : ℕ) : Incremental eof (d.times n) := by
  induction n with
  | zero => exact Incremental.pure []
  | succ n ih => exact h.bind fun a => ih.map (List.cons a)

/-- An incremental decoder may run for each element of a list. -/
theorem each {f : γ → Cursor ε α} {xs : List γ} (h : ∀ x ∈ xs, Incremental eof (f x)) :
    Incremental eof (Cursor.each f xs) := by
  induction xs with
  | nil => exact Incremental.pure []
  | cons x xs ih =>
    have hrest := ih fun y hy => h y (List.mem_cons_of_mem _ hy)
    exact (h x (List.mem_cons_self ..)).bind fun a => hrest.map (List.cons a)

/-- What a decoder takes is what it accepts as a whole. -/
theorem eq_ok_iff (h : Incremental eof d) : d input = some (.ok a, rest) ↔
    ∃ c, input = c ++ rest ∧ d c = some (.ok a, []) := by
  constructor
  · intro hd
    obtain ⟨c, hc, hreads, -⟩ := h input a rest hd
    have hwhole := hreads []
    rw [List.append_nil] at hwhole
    exact ⟨c, hc, hwhole⟩
  · rintro ⟨c, rfl, hd⟩
    obtain ⟨c', hc, hreads, -⟩ := h c a [] hd
    rw [List.append_nil] at hc
    rw [hc]
    exact hreads rest

/-- Repetitions take what they accept, one after the other. -/
theorem exists_times_iff (h : Incremental eof d) {n : ℕ} :
    (∃ values, d.times n input = some (.ok values, rest)) ↔
      ∃ encodings : List Bytes, input = encodings.flatten ++ rest ∧ encodings.length = n ∧
        ∀ c ∈ encodings, ∃ a, d c = some (.ok a, []) := by
  induction n generalizing input with
  | zero =>
    constructor
    · rintro ⟨values, hvalues⟩
      obtain ⟨-, rfl⟩ := pure_eq_ok_iff.mp hvalues
      exact ⟨[], rfl, rfl, List.forall_mem_nil _⟩
    · rintro ⟨encodings, rfl, hlength, -⟩
      obtain rfl := List.length_eq_zero_iff.mp hlength
      exact ⟨[], rfl⟩
  | succ n ih =>
    constructor
    · rintro ⟨values, hvalues⟩
      obtain ⟨a, mid, ha, hvalues⟩ := bind_eq_ok_iff.mp hvalues
      obtain ⟨more, rest', hmore, hpure⟩ := bind_eq_ok_iff.mp hvalues
      obtain ⟨-, rfl⟩ := pure_eq_ok_iff.mp hpure
      obtain ⟨c, rfl, hc⟩ := h.eq_ok_iff.mp ha
      obtain ⟨encodings, rfl, rfl, hall⟩ := ih.mp ⟨more, hmore⟩
      exact ⟨c :: encodings, (List.append_assoc _ _ _).symm, rfl,
        List.forall_mem_cons.mpr ⟨⟨a, hc⟩, hall⟩⟩
    · rintro ⟨encodings, rfl, hlength, hall⟩
      obtain ⟨c, encodings, rfl⟩ := List.exists_cons_of_length_eq_add_one hlength
      obtain ⟨⟨a, hc⟩, hrest⟩ := List.forall_mem_cons.mp hall
      obtain ⟨more, hmore⟩ := ih.mpr ⟨encodings, rfl, Nat.succ.inj hlength, hrest⟩
      have hfirst (mid : Bytes) : d (c ++ mid) = some (.ok a, mid) :=
        h.eq_ok_iff.mpr ⟨c, rfl, hc⟩
      refine ⟨a :: more, ?_⟩
      rw [Cursor.times, List.flatten_cons, List.append_assoc, bind_of_ok (hfirst _),
        bind_of_ok hmore]
      rfl

/-- Decoders one after the other take what each of them accepts. -/
theorem exists_each_iff {f : γ → Cursor ε α} (h : ∀ x, Incremental eof (f x)) {xs : List γ} :
    (∃ values, Cursor.each f xs input = some (.ok values, rest)) ↔
      ∃ encodings, input = encodings.flatten ++ rest ∧
        List.Forall₂ (fun x c => ∃ a, f x c = some (.ok a, [])) xs encodings := by
  induction xs generalizing input with
  | nil =>
    constructor
    · rintro ⟨values, hvalues⟩
      obtain ⟨-, rfl⟩ := pure_eq_ok_iff.mp hvalues
      exact ⟨[], rfl, .nil⟩
    · rintro ⟨encodings, rfl, hall⟩
      obtain rfl := List.forall₂_nil_left_iff.mp hall
      exact ⟨[], rfl⟩
  | cons x xs ih =>
    constructor
    · rintro ⟨values, hvalues⟩
      obtain ⟨a, mid, ha, hvalues⟩ := bind_eq_ok_iff.mp hvalues
      obtain ⟨more, rest', hmore, hpure⟩ := bind_eq_ok_iff.mp hvalues
      obtain ⟨-, rfl⟩ := pure_eq_ok_iff.mp hpure
      obtain ⟨c, rfl, hc⟩ := (h x).eq_ok_iff.mp ha
      obtain ⟨encodings, rfl, hall⟩ := ih.mp ⟨more, hmore⟩
      exact ⟨c :: encodings, (List.append_assoc _ _ _).symm, .cons ⟨a, hc⟩ hall⟩
    · rintro ⟨encodings, rfl, hall⟩
      obtain ⟨c, encodings, ⟨a, hc⟩, hrest, rfl⟩ := List.forall₂_cons_left_iff.mp hall
      obtain ⟨more, hmore⟩ := ih.mpr ⟨encodings, rfl, hrest⟩
      have hfirst (mid : Bytes) : f x (c ++ mid) = some (.ok a, mid) :=
        (h x).eq_ok_iff.mpr ⟨c, rfl, hc⟩
      refine ⟨a :: more, ?_⟩
      rw [Cursor.each, List.flatten_cons, List.append_assoc, bind_of_ok (hfirst _),
        bind_of_ok hmore]
      rfl

end Incremental

end Cursor

/-! ## Encoders -/

/-- What an encoder appends to its output; nothing without enough fuel. -/
def Write (ε : Type) : Type := Option (Except ε Bytes)

namespace Write

variable {ε γ : Type}

/-- Append bytes. -/
def bytes (b : Bytes) : Write ε := some (.ok b)

/-- Fail. -/
def fail (error : ε) : Write ε := some (.error error)

/-- The encoder that has no fuel left. -/
def exhausted : Write ε := none

/-- One encoder after the other. -/
def andThen (first second : Write ε) : Write ε :=
  match first, second with
  | some (.ok b), some (.ok b') => some (.ok (b ++ b'))
  | some (.ok _), other => other
  | other, _ => other

/-- The encoders of the elements of a list, one after the other. -/
def each (f : γ → Write ε) : List γ → Write ε
  | [] => bytes []
  | x :: xs => (f x).andThen (each f xs)

/-- A sequence succeeds exactly when both of its steps do. -/
theorem andThen_eq_ok_iff {first second : Write ε} {b : Bytes} :
    first.andThen second = some (.ok b) ↔
      ∃ b₁ b₂, first = some (.ok b₁) ∧ second = some (.ok b₂) ∧ b = b₁ ++ b₂ := by
  unfold andThen
  constructor
  · intro h
    rcases first with _ | (error | b₁)
    · cases h
    · cases h
    · rcases second with _ | (error | b₂)
      · cases h
      · cases h
      · exact ⟨b₁, b₂, rfl, rfl, (Except.ok.inj (Option.some.inj h)).symm⟩
  · rintro ⟨b₁, b₂, rfl, rfl, rfl⟩
    rfl

/-- Encoders that do the same on the elements of a list do so on the list. -/
theorem each_congr {f g : γ → Write ε} {xs : List γ} (h : ∀ x ∈ xs, f x = g x) :
    each f xs = each g xs := by
  induction xs with
  | nil => rfl
  | cons x xs ih =>
    obtain ⟨hfirst, hrest⟩ := List.forall_mem_cons.mp h
    rw [each, each, hfirst, ih hrest]

/-! ## Encoders that succeed -/

/-- The encoder appends something. -/
def Succeeds (w : Write ε) : Prop := ∃ b, w = bytes b

/-- Writing bytes succeeds. -/
@[simp] theorem succeeds_bytes (b : Bytes) : Succeeds (bytes b : Write ε) := ⟨b, rfl⟩

/-- An encoder that fails does not succeed. -/
@[simp] theorem not_succeeds_fail (error : ε) : ¬ Succeeds (fail error) := by
  rintro ⟨b, h⟩
  cases h

/-- An encoder out of fuel does not succeed. -/
@[simp] theorem not_succeeds_exhausted : ¬ Succeeds (exhausted : Write ε) := by
  rintro ⟨b, h⟩
  cases h

/-- One encoder after the other succeeds if both do. -/
@[simp] theorem succeeds_andThen {w w' : Write ε} :
    (w.andThen w').Succeeds ↔ w.Succeeds ∧ w'.Succeeds := by
  constructor
  · rintro ⟨b, h⟩
    obtain ⟨b₁, b₂, hfirst, hsecond, -⟩ := andThen_eq_ok_iff.mp h
    exact ⟨⟨b₁, hfirst⟩, b₂, hsecond⟩
  · rintro ⟨⟨b₁, hfirst⟩, b₂, hsecond⟩
    exact ⟨b₁ ++ b₂, andThen_eq_ok_iff.mpr ⟨b₁, b₂, hfirst, hsecond, rfl⟩⟩

/-- An encoder for each element succeeds if it does for all. -/
@[simp] theorem succeeds_each {f : γ → Write ε} {xs : List γ} :
    (each f xs).Succeeds ↔ ∀ x ∈ xs, (f x).Succeeds := by
  induction xs with
  | nil => simp [each]
  | cons x xs ih => rw [each, succeeds_andThen, ih, List.forall_mem_cons]

/-! ## Writing an encoding -/

/-- With enough fuel the encoder appends exactly `b`. -/
def Writes (w : ℕ → Write ε) (b : Bytes) : Prop := ∀ᶠ n in atTop, w n = some (.ok b)

namespace Writes

variable {w w' : ℕ → Write ε} {b b' : Bytes}

/-- Writing bytes writes them, with any fuel. -/
theorem bytes (b : Bytes) : Writes (fun _ => (Write.bytes b : Write ε)) b :=
  Eventually.of_forall fun _ => rfl

/-- One encoder after the other writes what both write. -/
theorem andThen (h : Writes w b) (h' : Writes w' b') :
    Writes (fun n => (w n).andThen (w' n)) (b ++ b') := by
  filter_upwards [h, h'] with n hn hn'
  rw [hn, hn']
  rfl

/-- An encoder that uses one unit of fuel to call another. -/
theorem of_succ (hw : ∀ n, w' (n + 1) = w n) (h : Writes w b) : Writes w' b := by
  obtain ⟨N, hN⟩ := eventually_atTop.mp h
  refine eventually_atTop.mpr ⟨N + 1, fun n hn => ?_⟩
  obtain ⟨m, rfl⟩ := Nat.exists_eq_add_of_le' (Nat.one_le_of_lt hn)
  rw [hw]
  exact hN m (Nat.le_of_succ_le_succ hn)

/-- Writing a sequence of encodings. -/
theorem each {f : ℕ → γ → Write ε} {xs : List γ} {encodings : List Bytes}
    (h : List.Forall₂ (fun x b => Writes (fun n => f n x) b) xs encodings) :
    Writes (fun n => Write.each (f n) xs) encodings.flatten := by
  induction h with
  | nil => exact bytes []
  | cons hfirst _ ih => exact hfirst.andThen ih

end Writes

end Write

end Foundation
