import Mathlib.Data.List.Basic
import Mathlib.Data.Nat.Bitwise
import Mathlib.Tactic.Common

/-!
# Big-endian 32-bit words

A `u32` on the wire is four bytes, most significant first.  `beBytes` and `ofBeBytes` are the two
conversions, stated through natural-number division so that every fact about them is linear
arithmetic.  The second half reads the two bit masks of a 31-bit length word (`&&&` and `|||` with
the top bit) as arithmetic on the same number.
-/

namespace Foundation

/-- A finite byte string. -/
abbrev Bytes := List UInt8

/-- The four big-endian bytes of a 32-bit word. -/
def beBytes (w : UInt32) : Bytes :=
  [UInt8.ofNat (w.toNat / 2 ^ 24), UInt8.ofNat (w.toNat / 2 ^ 16),
    UInt8.ofNat (w.toNat / 2 ^ 8), UInt8.ofNat w.toNat]

/-- The 32-bit word with the given big-endian bytes. -/
def ofBeBytes (a b c d : UInt8) : UInt32 :=
  UInt32.ofNat (a.toNat * 2 ^ 24 + b.toNat * 2 ^ 16 + c.toNat * 2 ^ 8 + d.toNat)

/-- The word formed by the first four bytes of a string; short strings read as zero. -/
def wordOf : Bytes → UInt32
  | a :: b :: c :: d :: _ => ofBeBytes a b c d
  | _ => 0

/-- A word has four bytes. -/
@[simp] theorem beBytes_length (w : UInt32) : (beBytes w).length = 4 := rfl

/-- The value of a word read from four bytes. -/
theorem toNat_ofBeBytes (a b c d : UInt8) :
    (ofBeBytes a b c d).toNat =
      a.toNat * 2 ^ 24 + b.toNat * 2 ^ 16 + c.toNat * 2 ^ 8 + d.toNat := by
  have ha := a.toNat_lt
  have hb := b.toNat_lt
  have hc := c.toNat_lt
  have hd := d.toNat_lt
  unfold ofBeBytes
  rw [UInt32.toNat_ofNat']
  omega

/-- Writing a word and reading it back returns the word. -/
theorem ofBeBytes_beBytes (w : UInt32) :
    ofBeBytes (UInt8.ofNat (w.toNat / 2 ^ 24)) (UInt8.ofNat (w.toNat / 2 ^ 16))
      (UInt8.ofNat (w.toNat / 2 ^ 8)) (UInt8.ofNat w.toNat) = w := by
  have hw := w.toNat_lt
  apply UInt32.toNat_inj.mp
  rw [toNat_ofBeBytes]
  simp only [UInt8.toNat_ofNat']
  omega

/-- Reading four bytes as a word and writing it returns the bytes. -/
theorem beBytes_ofBeBytes (a b c d : UInt8) : beBytes (ofBeBytes a b c d) = [a, b, c, d] := by
  have ha := a.toNat_lt
  have hb := b.toNat_lt
  have hc := c.toNat_lt
  have hd := d.toNat_lt
  simp only [beBytes, List.cons.injEq, and_true, ← UInt8.toNat_inj, UInt8.toNat_ofNat',
    toNat_ofBeBytes]
  omega

/-- The word in front is read off its bytes. -/
@[simp] theorem wordOf_beBytes_append (w : UInt32) (rest : Bytes) :
    wordOf (beBytes w ++ rest) = w := ofBeBytes_beBytes w

/-- A word is read off its bytes. -/
@[simp] theorem wordOf_beBytes (w : UInt32) : wordOf (beBytes w) = w := ofBeBytes_beBytes w

/-- Behind a word the rest follows. -/
@[simp] theorem drop_beBytes_append (w : UInt32) (rest : Bytes) :
    (beBytes w ++ rest).drop 4 = rest := rfl

/-- Any four bytes are the encoding of the word they form. -/
theorem beBytes_wordOf {l : Bytes} (hl : l.length = 4) : beBytes (wordOf l) = l := by
  match l, hl with
  | [a, b, c, d], _ => exact beBytes_ofBeBytes a b c d

/-- Two words with the same bytes are one. -/
theorem beBytes_injective : Function.Injective beBytes := by
  intro v w h
  have hv := wordOf_beBytes v
  rw [h, wordOf_beBytes] at hv
  exact hv.symm

/-- Words in front are compared with what follows. -/
@[simp] theorem beBytes_append_inj {v w : UInt32} {s t : Bytes} :
    beBytes v ++ s = beBytes w ++ t ↔ v = w ∧ s = t := by
  constructor
  · intro h
    obtain ⟨h1, h2⟩ := List.append_inj h (by simp)
    exact ⟨beBytes_injective h1, h2⟩
  · rintro ⟨rfl, rfl⟩
    rfl

/-- A string of at least four bytes starts with the encoding of a word. -/
theorem exists_beBytes_append {l : Bytes} (hl : 4 ≤ l.length) :
    ∃ w, l = beBytes w ++ l.drop 4 := by
  refine ⟨wordOf (l.take 4), ?_⟩
  rw [beBytes_wordOf (by simp [hl]), List.take_append_drop]

/-! ## The top bit and the low 31 bits -/

/-- Masking with the low 31 bits is reduction modulo `2 ^ 31`. -/
theorem toNat_and_low31 (w : UInt32) : (w &&& 0x7fffffff).toNat = w.toNat % 2 ^ 31 := by
  rw [UInt32.toNat_and]
  exact Nat.and_two_pow_sub_one_eq_mod w.toNat 31

/-- The top bit is set exactly when the value is at least `2 ^ 31`. -/
theorem and_top_ne_zero_iff (w : UInt32) : w &&& 0x80000000 ≠ 0 ↔ 2 ^ 31 ≤ w.toNat := by
  have hw := w.toNat_lt
  have hand : (w &&& 0x80000000).toNat = w.toNat &&& 2 ^ 31 := by
    rw [UInt32.toNat_and]
    rfl
  have hbit : w.toNat &&& 2 ^ 31 = if w.toNat.testBit 31 then 2 ^ 31 else 0 := by
    rw [Nat.and_two_pow]
    cases w.toNat.testBit 31 <;> simp
  have htest : w.toNat.testBit 31 = decide (2 ^ 31 ≤ w.toNat) := by
    rw [Nat.testBit_eq_decide_div_mod_eq]
    congr 1
    apply propext
    omega
  rw [ne_eq, ← UInt32.toNat_inj, hand, hbit, htest]
  by_cases h : 2 ^ 31 ≤ w.toNat <;> simp

/-- Setting the top bit of a word below `2 ^ 31` adds `2 ^ 31`. -/
theorem toNat_top_or {w : UInt32} (hw : w.toNat < 2 ^ 31) :
    (0x80000000 ||| w).toNat = 2 ^ 31 + w.toNat := by
  rw [UInt32.toNat_or]
  have h := Nat.two_pow_add_eq_or_of_lt hw 1
  simpa using h.symm

end Foundation
