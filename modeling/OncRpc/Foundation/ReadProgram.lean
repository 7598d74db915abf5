import OncRpc.Foundation.BigEndian

/-!
# Programs of reads

A program that reads a byte string piece by piece into a bounded scratch array, as a tree: each
node fills a number of bytes and continues with them.  `run` gives the program's meaning on a whole
input.

`Ensures` is the program's strongest guarantee in continuation form: no read goes past the array,
and every result satisfies a postcondition on the value and the bytes read for it.
-/

namespace Foundation

/-- A program that reads, with errors `ε` and result `α`. -/
inductive ReadProgram (ε α : Type) where
  | pure (value : α)
  | fail (error : ε)
  /-- The program leaves its scratch array. -/
  | panic
  /-- It fills `count` bytes and goes on with them. -/
  | read (count : ℕ) (next : Bytes → ReadProgram ε α)

namespace ReadProgram

variable {ε α β : Type}

/-- Sequencing. -/
def bind : ReadProgram ε α → (α → ReadProgram ε β) → ReadProgram ε β
  | .pure value, f => f value
  | .fail e, _ => .fail e
  | .panic, _ => .panic
  | .read count next, f => .read count fun chunk => (next chunk).bind f

instance : Monad (ReadProgram ε) where
  pure := .pure
  bind := bind

/-- Sequencing in the monad is that of programs. -/
theorem bind_eq (x : ReadProgram ε α) (f : α → ReadProgram ε β) : x >>= f = x.bind f := rfl

/-- Returning in the monad is that of programs. -/
theorem pure_eq (value : α) : (Pure.pure value : ReadProgram ε α) = .pure value := rfl

/-- Read `count` bytes after the `bytes` already in an array of the given capacity. -/
def fill (capacity : ℕ) (bytes : Bytes) (count : ℕ) : ReadProgram ε Bytes :=
  if bytes.length + count > capacity then .panic
  else if count = 0 then .pure bytes
  else .read count fun chunk => .pure (bytes ++ chunk)

/-- Read one word after the `bytes` already in the array. -/
def word (capacity : ℕ) (bytes : Bytes) : ReadProgram ε (UInt32 × Bytes) := do
  let filled ← fill capacity bytes 4
  return (wordOf (filled.drop bytes.length), filled)

/-- Run a program on an input; the result keeps what it did not read, and `none` is a panic.
A read that meets the end of the input fails with the number of bytes it misses. -/
def run (eof : ℕ → ε) : ReadProgram ε α → Bytes → Option (Except ε (α × Bytes))
  | .pure value, rest => some (.ok (value, rest))
  | .fail e, _ => some (.error e)
  | .panic, _ => none
  | .read count next, rest =>
    if count ≤ rest.length then (next (rest.take count)).run eof (rest.drop count)
    else some (.error (eof (count - rest.length)))

/-- The guarantee of a program: it stays in its array, reads at least one byte at a time, and its
results satisfy `Q` together with the bytes read for them. -/
def Ensures : ReadProgram ε α → (α → Bytes → Prop) → Prop
  | .pure value, Q => Q value []
  | .fail _, _ => True
  | .panic, _ => False
  | .read count next, Q =>
    0 < count ∧ ∀ chunk, chunk.length = count → (next chunk).Ensures fun a c => Q a (chunk ++ c)

/-! ## Runs -/

variable (eof : ℕ → ε)

/-- A returned value reads nothing. -/
@[simp] theorem run_pure (value : α) (rest : Bytes) :
    (ReadProgram.pure value : ReadProgram ε α).run eof rest = some (.ok (value, rest)) := rfl

/-- A failure reads nothing. -/
@[simp] theorem run_fail (e : ε) (rest : Bytes) :
    (ReadProgram.fail e : ReadProgram ε α).run eof rest = some (.error e) := rfl

/-- A read that the input covers. -/
theorem run_read_append {count : ℕ} {next : Bytes → ReadProgram ε α} {chunk : Bytes}
    (h : chunk.length = count) (rest : Bytes) :
    (ReadProgram.read count next).run eof (chunk ++ rest) = (next chunk).run eof rest := by
  rw [run, if_pos (by rw [List.length_append]; omega), List.take_left' h, List.drop_left' h]

/-- Sequencing runs the second program on what the first leaves. -/
theorem run_bind_of_ok {x : ReadProgram ε α} {f : α → ReadProgram ε β} {input rest : Bytes} {a : α}
    (h : x.run eof input = some (.ok (a, rest))) :
    (x.bind f).run eof input = (f a).run eof rest := by
  induction x generalizing input with
  | pure value =>
    simp only [run_pure, Option.some.injEq, Except.ok.injEq, Prod.mk.injEq] at h
    obtain ⟨rfl, rfl⟩ := h
    rfl
  | fail e => simp at h
  | panic => simp [run] at h
  | read count next ih =>
    simp only [run] at h
    split_ifs at h with hle
    · rw [bind, run, if_pos hle]
      exact ih _ h
    · simp at h

/-- A fill reads the bytes it asks for. -/
theorem run_fill {capacity count : ℕ} {bytes chunk : Bytes}
    (hcap : bytes.length + count ≤ capacity) (hlen : chunk.length = count) (rest : Bytes) :
    (fill capacity bytes count : ReadProgram ε Bytes).run eof (chunk ++ rest) =
      some (.ok (bytes ++ chunk, rest)) := by
  unfold fill
  rw [if_neg (by omega)]
  split_ifs with hzero
  · have hnil : chunk = [] := List.length_eq_zero_iff.mp (by omega)
    simp [hnil]
  · rw [run_read_append eof hlen]
    rfl

/-- A word is read off its four bytes. -/
theorem run_word {capacity : ℕ} {bytes : Bytes} (hcap : bytes.length + 4 ≤ capacity) (w : UInt32)
    (rest : Bytes) :
    (word capacity bytes : ReadProgram ε (UInt32 × Bytes)).run eof (beBytes w ++ rest) =
      some (.ok ((w, bytes ++ beBytes w), rest)) := by
  have h := run_fill eof hcap (beBytes_length w) rest
  rw [word, bind_eq, run_bind_of_ok eof h]
  simp [pure_eq]

/-! ## Guarantees -/

variable {eof}

/-- What is ensured may be weakened. -/
theorem Ensures.mono {x : ReadProgram ε α} {Q Q' : α → Bytes → Prop} (h : x.Ensures Q)
    (hQ : ∀ a c, Q a c → Q' a c) : x.Ensures Q' := by
  induction x generalizing Q Q' with
  | pure value => exact hQ _ _ h
  | fail e => trivial
  | panic => exact h
  | read count next ih =>
    exact ⟨h.1, fun chunk hchunk => ih chunk (h.2 chunk hchunk) fun a c => hQ a _⟩

/-- The rule of sequencing. -/
theorem Ensures.bind {x : ReadProgram ε α} {f : α → ReadProgram ε β} {P : α → Bytes → Prop}
    {Q : β → Bytes → Prop} (hx : x.Ensures P)
    (hf : ∀ a c, P a c → (f a).Ensures fun b c' => Q b (c ++ c')) : (x >>= f).Ensures Q := by
  rw [bind_eq]
  induction x generalizing P Q with
  | pure value =>
    rw [ReadProgram.bind]
    simpa using hf _ _ hx
  | fail e => trivial
  | panic => exact hx
  | read count next ih =>
    refine ⟨hx.1, fun chunk hchunk => ih chunk (hx.2 chunk hchunk) fun a c hP => ?_⟩
    simpa [List.append_assoc] using hf a _ hP

/-- A fill ensures that as many bytes are appended as it asks for. -/
theorem ensures_fill {capacity count : ℕ} {bytes : Bytes} (hcap : bytes.length + count ≤ capacity) :
    (fill capacity bytes count : ReadProgram ε Bytes).Ensures
      fun out chunk => out = bytes ++ chunk ∧ chunk.length = count := by
  unfold fill
  rw [if_neg (by omega)]
  split_ifs with hzero
  · exact ⟨by simp, hzero.symm⟩
  · exact ⟨by omega, fun chunk hchunk => ⟨by simp, by simpa using hchunk⟩⟩

/-- A word is that of the four bytes appended. -/
theorem ensures_word {capacity : ℕ} {bytes : Bytes} (hcap : bytes.length + 4 ≤ capacity) :
    (word capacity bytes : ReadProgram ε (UInt32 × Bytes)).Ensures
      fun out chunk => out.2 = bytes ++ chunk ∧ chunk = beBytes out.1 := by
  refine (ensures_fill hcap).bind ?_
  rintro filled chunk ⟨rfl, hlen⟩
  refine ⟨by simp, ?_⟩
  simp only [List.append_nil, List.drop_left]
  exact (beBytes_wordOf hlen).symm

/-- A program with a guarantee never panics, and its results satisfy the guarantee. -/
theorem Ensures.run {x : ReadProgram ε α} {Q : α → Bytes → Prop} (h : x.Ensures Q) (eof : ℕ → ε)
    (input : Bytes) :
    (∃ e, x.run eof input = some (.error e)) ∨
      ∃ a chunk rest, x.run eof input = some (.ok (a, rest)) ∧ input = chunk ++ rest ∧ Q a chunk :=
        by
  induction x generalizing Q input with
  | pure value => exact .inr ⟨value, [], input, rfl, rfl, h⟩
  | fail e => exact .inl ⟨e, rfl⟩
  | panic => exact h.elim
  | read count next ih =>
    simp only [ReadProgram.run]
    split_ifs with hle
    · have hlen : (input.take count).length = count := by
        rw [List.length_take]
        omega
      rcases ih _ (h.2 _ hlen) (input.drop count) with herr | ⟨a, chunk, rest, hrun, hin, hQ⟩
      · exact .inl herr
      · refine .inr ⟨a, input.take count ++ chunk, rest, hrun, ?_, hQ⟩
        rw [List.append_assoc, ← hin, List.take_append_drop]
    · exact .inl ⟨_, rfl⟩

end ReadProgram

end Foundation
