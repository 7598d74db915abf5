import OncRpc.Foundation.BigEndian
import Mathlib.Data.List.Basic

/-!
# Tasks that read a byte stream

A task that suspends only inside reads of a stream is a state with two operations: `poll` says
whether the task is over or how many bytes it asks for, and `resume` takes the answer of the
stream.  `Task.drive` runs a task against a stream that hands out its bytes in pieces of arbitrary
sizes; `Task.drive_spec` is the invariant rule for such runs.
-/

namespace Foundation

/-- The answer of a stream to a read of at least one byte. -/
inductive ReadResult (ε : Type*) where
  | bytes (chunk : Bytes)
  | eof
  | error (error : ε)
  deriving DecidableEq

/-- What a task does next. -/
inductive Poll (ρ : Type*) where
  | ready (result : ρ)
  /-- It waits for at most `count` bytes. -/
  | await (count : ℕ)

/-- A task over a stream, with states `σ` and results `ρ`. -/
structure Task (σ ρ ε : Type*) where
  poll : σ → Poll ρ
  resume : σ → ReadResult ε → σ

/-- A stream: the bytes it will still deliver and the sizes of the pieces it delivers them in. -/
structure Stream where
  bytes : Bytes
  sizes : List ℕ

namespace Stream

/-- How many bytes a read of at most `count` gets. -/
def size (s : Stream) (count : ℕ) : ℕ := max 1 (min count (s.sizes.headD count))

/-- The bytes a read gets. -/
def piece (s : Stream) (count : ℕ) : Bytes := s.bytes.take (s.size count)

/-- The stream after a read. -/
def advance (s : Stream) (count : ℕ) : Stream := ⟨s.bytes.drop (s.size count), s.sizes.tail⟩

theorem piece_append_advance (s : Stream) (count : ℕ) :
    s.piece count ++ (s.advance count).bytes = s.bytes :=
  List.take_append_drop _ _

theorem piece_ne_nil {s : Stream} (count : ℕ) (h : s.bytes ≠ []) : s.piece count ≠ [] := by
  have hsize : s.size count ≠ 0 := by
    unfold size
    omega
  simp [piece, List.take_eq_nil_iff, h, hsize]

theorem piece_length_le {s : Stream} {count : ℕ} (h : 0 < count) :
    (s.piece count).length ≤ count := by
  have hsize : s.size count ≤ count := by
    unfold size
    omega
  exact (List.length_take_le _ _).trans hsize

theorem advance_length_lt {s : Stream} (count : ℕ) (h : s.bytes ≠ []) :
    (s.advance count).bytes.length < s.bytes.length := by
  have hpiece := List.length_pos_iff.mpr (piece_ne_nil count h)
  have hlen := congrArg List.length (s.piece_append_advance count)
  rw [List.length_append] at hlen
  omega

end Stream

namespace Task

variable {σ ρ ε : Type*} (t : Task σ ρ ε)

/-- Run a task until it is over or the stream has ended. -/
def drive (s : σ) (stream : Stream) : σ × Stream :=
  match t.poll s with
  | .ready _ => (s, stream)
  | .await count =>
    if h : stream.bytes = [] then (t.resume s .eof, stream)
    else
      have := Stream.advance_length_lt count h
      drive (t.resume s (.bytes (stream.piece count))) (stream.advance count)
termination_by stream.bytes.length

/-- The invariant rule.  What every piece of the stream preserves holds when the task is over, or
when the end of the stream was its last answer. -/
theorem drive_spec {Inv : σ → Bytes → Prop}
    (hcount : ∀ {s taken count}, Inv s taken → t.poll s = .await count → 0 < count)
    (hstep : ∀ {s taken count chunk}, Inv s taken → t.poll s = .await count → chunk ≠ [] →
      chunk.length ≤ count → Inv (t.resume s (.bytes chunk)) (taken ++ chunk))
    {s : σ} {taken : Bytes} (h : Inv s taken) (stream : Stream) :
    ∃ taken', taken ++ stream.bytes = taken' ++ (t.drive s stream).2.bytes ∧
      ((∃ result, t.poll (t.drive s stream).1 = .ready result ∧ Inv (t.drive s stream).1 taken') ∨
        (∃ s' count, Inv s' taken' ∧ t.poll s' = .await count ∧
          (t.drive s stream).1 = t.resume s' .eof ∧ (t.drive s stream).2.bytes = [])) := by
  induction hn : stream.bytes.length using Nat.strong_induction_on generalizing s taken stream with
  | _ n ih =>
    rw [drive]
    split
    · next result hp => exact ⟨taken, rfl, .inl ⟨result, hp, h⟩⟩
    · next count hp =>
      split
      · next hnil =>
        exact ⟨taken, rfl, .inr ⟨s, count, h, hp, rfl, hnil⟩⟩
      · next hne =>
        have hlt : (stream.advance count).bytes.length < n :=
          hn ▸ Stream.advance_length_lt count hne
        have hnext := hstep h hp (Stream.piece_ne_nil count hne)
          (Stream.piece_length_le (hcount h hp))
        obtain ⟨taken', hbytes, hend⟩ := ih _ hlt hnext (stream.advance count) rfl
        refine ⟨taken', ?_, hend⟩
        rw [← hbytes, List.append_assoc, Stream.piece_append_advance]

end Task

end Foundation
