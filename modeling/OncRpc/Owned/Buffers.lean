import OncRpc.Owned.Receive

/-!
# Filling the caller's buffers

`BuffersAt` says that a set of buffers holds the bytes placed so far in front of its old content.
Asking for the next range keeps it, and storing a chunk that fits the range places the chunk.
-/

namespace OncRpc

open Foundation

namespace Buffers

/-- The buffer at the current position. -/
def current (b : Buffers) : Bytes := b.buffers[b.index]?.getD []

end Buffers

/-- The buffers `init` after `placed` has been written over them. -/
structure BuffersAt (init : List Bytes) (placed : Bytes) (b : Buffers) : Prop where
  lengths : b.buffers.map List.length = init.map List.length
  content : b.buffers.flatten = placed ++ init.flatten.drop placed.length
  position : (b.buffers.take b.index).flatten.length + b.offset = placed.length
  index_le : b.index ≤ b.buffers.length
  offset_le : b.offset ≤ b.current.length

namespace BuffersAt

variable {init : List Bytes} {placed : Bytes} {b : Buffers}

theorem start (init : List Bytes) : BuffersAt init [] ⟨init, 0, 0⟩ where
  lengths := rfl
  content := by simp
  position := by simp
  index_le := Nat.zero_le _
  offset_le := Nat.zero_le _

/-- The buffers around the current position. -/
theorem split (h : b.index < b.buffers.length) :
    b.buffers = b.buffers.take b.index ++ b.current :: b.buffers.drop (b.index + 1) := by
  have hcur : b.current = b.buffers[b.index] := by
    simp [Buffers.current, List.getElem?_eq_getElem h]
  rw [hcur, ← List.drop_eq_getElem_cons h, List.take_append_drop]

/-- Skipping full buffers does not move the position. -/
theorem skipFull (h : BuffersAt init placed b) :
    BuffersAt init placed b.skipFull ∧
      (b.skipFull.index = b.skipFull.buffers.length ∨
        b.skipFull.index < b.skipFull.buffers.length ∧
          b.skipFull.offset < b.skipFull.current.length) := by
  induction hn : b.buffers.length - b.index using Nat.strong_induction_on generalizing b with
  | _ n ih =>
    rw [Buffers.skipFull]
    split_ifs with hfull
    · obtain ⟨hlt, hoffset⟩ := hfull
      refine ih (b.buffers.length - (b.index + 1)) (by omega) ?_ rfl
      refine ⟨h.lengths, h.content, ?_, hlt, Nat.zero_le _⟩
      rw [← h.position]
      have hcur : b.buffers[b.index]?.getD [] = b.buffers[b.index] := by
        simp [List.getElem?_eq_getElem hlt]
      rw [hcur] at hoffset
      simp only [List.take_add_one, List.getElem?_eq_getElem hlt, Option.toList_some,
        List.flatten_append, List.flatten_cons, List.flatten_nil, List.append_nil,
        List.length_append]
      omega
    · refine ⟨h, ?_⟩
      have hle := h.index_le
      have hoff := h.offset_le
      unfold Buffers.current at hoff ⊢
      by_cases hlt : b.index < b.buffers.length
      · exact .inr ⟨hlt, lt_of_le_of_ne hoff fun heq => hfull ⟨hlt, heq⟩⟩
      · exact .inl (by omega)

/-- The capacity of the buffers. -/
theorem flatten_length (h : BuffersAt init placed b) :
    b.buffers.flatten.length = init.flatten.length := by
  rw [List.length_flatten, List.length_flatten, h.lengths]

/-- The next range, or none left when everything is filled. -/
theorem buffer (h : BuffersAt init placed b) :
    ∃ b' room, b.buffer = (b', .ok room) ∧ BuffersAt init placed b' ∧
      (room = 0 ∧ placed.length = init.flatten.length ∨
        0 < room ∧ b'.index < b'.buffers.length ∧ b'.offset + room = b'.current.length) := by
  obtain ⟨hat, hpos⟩ := h.skipFull
  unfold Buffers.buffer
  rcases hpos with hend | ⟨hlt, hoffset⟩
  · refine ⟨b.skipFull, 0, if_pos hend, hat, .inl ⟨rfl, ?_⟩⟩
    have hoff := hat.offset_le
    have hposition := hat.position
    unfold Buffers.current at hoff
    rw [hend, List.getElem?_eq_none (Nat.le_refl _), Option.getD_none, List.length_nil] at hoff
    rw [hend, List.take_length, hat.flatten_length] at hposition
    omega
  · refine ⟨b.skipFull, b.skipFull.current.length - b.skipFull.offset, ?_, hat,
      .inr ⟨by omega, hlt, by omega⟩⟩
    exact if_neg (by omega)

/-- Storing and committing bytes that fit the current range places them. -/
theorem fill (chunk : Bytes) (h : BuffersAt init placed b) (hlt : b.index < b.buffers.length)
    (hroom : b.offset + chunk.length ≤ b.current.length) :
    BuffersAt init (placed ++ chunk) ((b.fill chunk).advance chunk.length).1 := by
  have hcur : b.current = b.buffers[b.index] := by
    simp [Buffers.current, List.getElem?_eq_getElem hlt]
  obtain ⟨hlengths, hcontent, hposition, hindex, hoffset⟩ := h
  -- The content before, and the part of it the chunk replaces.
  have hplaced : placed = (b.buffers.take b.index).flatten ++ b.current.take b.offset ∧
      init.flatten.drop placed.length =
        b.current.drop b.offset ++ (b.buffers.drop (b.index + 1)).flatten := by
    have hsplit := congrArg List.flatten (split hlt)
    rw [List.flatten_append, List.flatten_cons, hcontent] at hsplit
    have hcut : placed ++ init.flatten.drop placed.length =
        ((b.buffers.take b.index).flatten ++ b.current.take b.offset) ++
          (b.current.drop b.offset ++ (b.buffers.drop (b.index + 1)).flatten) := by
      rw [hsplit, List.append_assoc, ← List.append_assoc (b.current.take b.offset),
        List.take_append_drop]
    refine List.append_inj hcut ?_
    rw [List.length_append, List.length_take]
    omega
  have hset : b.buffers.set b.index (b.current.take b.offset ++ chunk ++
      b.current.drop (b.offset + chunk.length)) = b.buffers.take b.index ++
        (b.current.take b.offset ++ chunk ++ b.current.drop (b.offset + chunk.length)) ::
          b.buffers.drop (b.index + 1) :=
    List.set_eq_take_append_cons_drop.trans (if_pos hlt)
  have hlen : (b.current.take b.offset ++ chunk ++
      b.current.drop (b.offset + chunk.length)).length = b.current.length := by
    simp only [List.length_append, List.length_take, List.length_drop]
    omega
  have hbuffers : ((b.fill chunk).advance chunk.length).1.buffers = b.buffers.take b.index ++
      (b.current.take b.offset ++ chunk ++ b.current.drop (b.offset + chunk.length)) ::
        b.buffers.drop (b.index + 1) := hset
  have hidx : ((b.fill chunk).advance chunk.length).1.index = b.index := rfl
  have hoff : ((b.fill chunk).advance chunk.length).1.offset = b.offset + chunk.length := rfl
  have htake : (b.buffers.take b.index).length = b.index := by
    rw [List.length_take]
    omega
  refine ⟨?_, ?_, ?_, ?_, ?_⟩
  · rw [hbuffers, ← hlengths]
    conv_rhs => rw [split hlt]
    simp only [List.map_append, List.map_cons, hlen]
  · have hdrop : init.flatten.drop (placed.length + chunk.length) =
        b.current.drop (b.offset + chunk.length) ++ (b.buffers.drop (b.index + 1)).flatten := by
      rw [← List.drop_drop, hplaced.2, List.drop_append_of_le_length
        (by rw [List.length_drop]; omega), List.drop_drop]
    rw [hbuffers, List.flatten_append, List.flatten_cons, List.length_append, hdrop]
    conv_rhs => rw [hplaced.1]
    simp only [List.append_assoc]
  · rw [hbuffers, hidx, hoff, List.take_left' htake, List.length_append]
    omega
  · rw [hbuffers, hidx, List.length_append, htake]
    simp only [List.length_cons]
    omega
  · rw [Buffers.current, hbuffers, hidx, hoff, List.getElem?_append_right (by omega), htake,
      Nat.sub_self, List.getElem?_cons_zero, Option.getD_some, hlen]
    exact hroom

end BuffersAt

end OncRpc
