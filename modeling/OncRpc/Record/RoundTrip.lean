import OncRpc.Record.Agreement
import OncRpc.Record.Fragment
import Mathlib.Algebra.Order.Floor.Div

/-!
# Fragments are read back

The fragments `fragment_record` cuts a payload into are read back by `read_record` whatever follows
them, and no part of them is taken for a whole record.  Applied again and again, `read_record` takes
a stream apart into messages (`streamMessages`).
-/

namespace OncRpc

open Foundation

/-! ## A record and its parts -/

/-- A proper prefix of a record holds no record. -/
theorem Record.not_startsWith_of_isPrefix {r : Record} {part : Bytes} (h : part <+: r.bytes)
    (hne : part ≠ r.bytes) : ¬ Record.StartsWith part := by
  rintro ⟨other, rest, rfl⟩
  obtain ⟨tail, htail⟩ := h
  rw [List.append_assoc, ← List.append_nil r.bytes] at htail
  obtain ⟨rfl, hnil⟩ := Record.bytes_append_inj htail
  obtain ⟨rfl, -⟩ := List.append_eq_nil_iff.mp hnil
  exact hne (List.append_nil _)

/-- The marker of each fragment has the length of its payload, and the flag on the last one. -/
theorem Record.marker_wire (r : Record) (i : ℕ) (hi : i < r.wire.length) :
    ∃ payload ∈ r.payloads, r.wire[i] = fragment (decide (i + 1 = r.wire.length)) payload ∧
      FragmentFits payload := by
  have hlength : r.wire.length = r.more.length + 1 := by simp [Record.wire]
  by_cases hlast : i < r.more.length
  · refine ⟨r.more[i], List.mem_append_left _ (List.getElem_mem hlast), ?_,
      r.more_fits _ (List.getElem_mem hlast)⟩
    have hflag : decide (i + 1 = r.wire.length) = false := decide_eq_false (by omega)
    rw [hflag]
    simp only [Record.wire, List.getElem_append_left, List.length_map, hlast, List.getElem_map]
  · have hi' : i = r.more.length := by omega
    subst hi'
    refine ⟨r.last, List.mem_append_right _ (List.mem_singleton_self _), ?_, r.last_fits⟩
    have hflag : decide (r.more.length + 1 = r.wire.length) = true := decide_eq_true hlength.symm
    rw [hflag]
    simp [Record.wire]

/-! ## The round trip -/

/-- A payload cut into fragments of at most `n` bytes is read back as it was, from in front of
whatever follows. -/
theorem fragment_record_round_trip (data : Bytes) (n : UInt32) (hpos : 1 ≤ n)
    (hmax : n ≤ maxFragmentLen) :
    ∃ fragments, fragmentRecord data n = .ok fragments ∧
      (∀ rest, readRecord (fragments.flatten ++ rest) =
        .ok (.complete data fragments.flatten.length (max 1 (data.length ⌈/⌉ n.toNat)))) ∧
      (∀ (i : ℕ) (hi : i < fragments.length),
        fragments[i].length =
          4 + (RecordMarker.decodeBytes (fragments[i].take 4)).payloadLen.toNat ∧
        (RecordMarker.decodeBytes (fragments[i].take 4)).payloadLen ≤ n ∧
        ((RecordMarker.decodeBytes (fragments[i].take 4)).lastFragment = true ↔
          i + 1 = fragments.length)) ∧
      ∀ part, part <+: fragments.flatten → part ≠ fragments.flatten →
        readRecord part = .ok .incomplete := by
  have hne : n ≠ 0 := by
    rintro rfl
    exact absurd hpos (by decide)
  obtain ⟨r, hok, hdata, hlengths, hcount⟩ := fragmentRecord_eq hne hmax data
  refine ⟨r.wire, hok, fun rest => ?_, fun i hi => ?_, fun part hpart hproper => ?_⟩
  · have hfragments : r.fragments = max 1 (data.length ⌈/⌉ n.toNat) := by
      have hone : 1 ≤ n.toNat := UInt32.le_iff_toNat_le.mp hpos
      rw [Nat.ceilDiv_eq_add_pred_div, max_comm, Nat.add_sub_assoc hone, ← hcount]
      exact r.payloads_length.symm
    rw [r.wire_flatten, readRecord_record, hdata, hfragments]
  · obtain ⟨payload, hmem, hfragment, hfits⟩ := r.marker_wire i hi
    have hmarker := decodeBytes_take_fragment hfits (decide (i + 1 = r.wire.length)) []
    rw [List.append_nil] at hmarker
    rw [hfragment, hmarker, fragment_length]
    refine ⟨?_, ?_, decide_eq_true_iff⟩
    · rw [toNat_ofNat_length hfits]
    · rw [UInt32.le_iff_toNat_le, toNat_ofNat_length hfits]
      exact hlengths payload hmem
  · rw [r.wire_flatten] at hpart hproper
    exact readRecord_incomplete (Record.not_startsWith_of_isPrefix hpart hproper)

/-- Five bytes in fragments of two. -/
theorem fragment_record_round_trip_five :
    ∃ fragments, fragmentRecord [1, 2, 3, 4, 5] 2 = .ok fragments ∧
      readRecord (fragments.flatten ++ [9]) = .ok (.complete [1, 2, 3, 4, 5] 17 3) := by
  obtain ⟨fragments, hok, hread, -, -⟩ :=
    fragment_record_round_trip [1, 2, 3, 4, 5] 2 (by decide) (by decide)
  refine ⟨fragments, hok, ?_⟩
  have hlength : fragments.flatten.length = 17 := by
    have hwire : fragmentRecord [1, 2, 3, 4, 5] 2 =
        .ok [[0, 0, 0, 2, 1, 2], [0, 0, 0, 2, 3, 4], [128, 0, 0, 1, 5]] := by
      decide +kernel
    rw [hwire] at hok
    cases hok
    rfl
  rw [hread, hlength]
  rfl

/-! ## The messages of a stream -/

/-- A record that was read is not empty, and was there. -/
theorem readRecord_complete {input data : Bytes} {consumed fragments : ℕ}
    (h : readRecord input = .ok (.complete data consumed fragments)) :
    ∃ (r : Record) (rest : Bytes), input = r.bytes ++ rest ∧ data = r.data ∧
      consumed = r.bytes.length := by
  by_cases hstarts : Record.StartsWith input
  · obtain ⟨r, rest, rfl⟩ := hstarts
    rw [readRecord_record] at h
    cases h
    exact ⟨r, rest, rfl, rfl, rfl⟩
  · rw [readRecord_incomplete hstarts] at h
    cases h

theorem Record.bytes_pos (r : Record) : 0 < r.bytes.length := by
  rw [r.bytes_length, Record.fragments]
  omega

/-- The messages of a stream, one record after the other, up to the first that is none. -/
def streamMessages (stream : Bytes) : List RpcMessage :=
  match _h : readRecord stream with
  | .ok (.complete data consumed _) =>
    match RpcMessage.decode data with
    | .ok message => message :: streamMessages (stream.drop consumed)
    | .error _ => []
  | .ok .incomplete | .error _ => []
termination_by stream.length
decreasing_by
  obtain ⟨r, rest, rfl, -, rfl⟩ := readRecord_complete _h
  have hpos := r.bytes_pos
  rw [List.drop_left, List.length_append]
  omega

theorem streamMessages_record (r : Record) (rest : Bytes) :
    streamMessages (r.bytes ++ rest) =
      match RpcMessage.decode r.data with
      | .ok message => message :: streamMessages rest
      | .error _ => [] := by
  rw [streamMessages]
  split
  · next data consumed fragments hread =>
    rw [readRecord_record] at hread
    cases hread
    rw [List.drop_left]
  · next hread =>
    rw [readRecord_record] at hread
    cases hread
  · next hread =>
    rw [readRecord_record] at hread
    cases hread

theorem streamMessages_of_not_startsWith {stream : Bytes} (h : ¬ Record.StartsWith stream) :
    streamMessages stream = [] := by
  rw [streamMessages]
  split
  · next hread =>
    rw [readRecord_incomplete h] at hread
    cases hread
  · rfl
  · rfl

end OncRpc
