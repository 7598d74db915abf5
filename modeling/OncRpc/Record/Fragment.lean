import OncRpc.Record.Marker
import OncRpc.Runtime.Error
import OncRpc.Wire.RoundTrip

/-!
# Writing whole messages

`fragment_record` cuts a payload into fragments of a given length, and `write_rpc_message` encodes
a message and writes it to a stream: a marker and the payload where that fits one fragment, else the
fragments one after the other.  A function that writes is modelled by the buffers it hands to the
stream, in order; what the stream receives is always one complete record whose data is the payload.
-/

namespace OncRpc

open Foundation

/-! ## The functions of the source -/

/-- The pieces of a slice, of the given length except for the last. -/
def chunks (length : ℕ) (data : Bytes) : List Bytes :=
  if h : data = [] ∨ length = 0 then [] else data.take length :: chunks length (data.drop length)
termination_by data.length
decreasing_by
  obtain ⟨hdata, hlength⟩ := not_or.mp h
  have := List.length_pos_iff.mpr hdata
  simp only [List.length_drop]
  omega

/-- The loop of `fragment_record`, from an index on. -/
def fragmentChunks (count : ℕ) : ℕ → List Bytes → Except WireError (List Bytes)
  | _, [] => .ok []
  | idx, chunk :: rest => do
    let marker ← RecordMarker.new (UInt32.ofNat chunk.length) (idx + 1 == count)
    let fragments ← fragmentChunks count (idx + 1) rest
    return (marker.encodeBytes ++ chunk) :: fragments

/-- Cut a payload into fragments. -/
def fragmentRecord (data : Bytes) (maxLen : UInt32) : Except WireError (List Bytes) :=
  if maxLen = 0 then .error .zeroFragmentLength
  else if maxLen > maxFragmentLen then .error (.fragmentLengthTooLarge maxLen)
  else
    let chunkLen := maxLen.toNat
    let fragmentCount := max ((data.length + (chunkLen - 1)) / chunkLen) 1
    if data = [] then do
      let marker ← RecordMarker.new 0 true
      return [marker.encodeBytes]
    else fragmentChunks fragmentCount 0 (chunks chunkLen data)

/-- The buffers a payload is written as. -/
def writeRecordPayload (payload : Bytes) : Except RuntimeError (List Bytes) :=
  if payload.length ≤ maxFragmentLen.toNat then do
    let marker ← (RecordMarker.new (UInt32.ofNat payload.length) true).mapError .wire
    return [marker.encodeBytes, payload]
  else (fragmentRecord payload maxFragmentLen).mapError .wire

/-- The buffers a message is written as. -/
def writeRpcMessage (message : RpcMessage) : Except RuntimeError (List Bytes) := do
  let payload ← message.encode.mapError .wire
  writeRecordPayload payload

/-! ## Chunks -/

section Chunks

variable {length : ℕ} {data : Bytes}

theorem chunks_nil (length : ℕ) : chunks length [] = [] := by
  rw [chunks, dif_pos (.inl rfl)]

theorem chunks_of_ne (hlength : 0 < length) (hdata : data ≠ []) :
    chunks length data = data.take length :: chunks length (data.drop length) := by
  rw [chunks, dif_neg]
  rintro (h | h)
  · exact hdata h
  · omega

/-- Induction over the pieces that are cut off. -/
theorem chunks_induction {P : Bytes → Prop} (hlength : 0 < length) (nil : P [])
    (cut : ∀ data, data ≠ [] → P (data.drop length) → P data) (data : Bytes) : P data := by
  induction hn : data.length using Nat.strong_induction_on generalizing data with
  | _ n ih =>
    by_cases hdata : data = []
    · exact hdata ▸ nil
    · have hpos := List.length_pos_iff.mpr hdata
      refine cut data hdata (ih (data.drop length).length ?_ _ rfl)
      rw [List.length_drop]
      omega

/-- The pieces put together are the slice. -/
theorem chunks_flatten (hlength : 0 < length) (data : Bytes) :
    (chunks length data).flatten = data := by
  induction data using chunks_induction hlength with
  | nil => rw [chunks_nil, List.flatten_nil]
  | cut data hdata ih =>
    rw [chunks_of_ne hlength hdata, List.flatten_cons, ih, List.take_append_drop]

/-- No piece is longer than asked for. -/
theorem length_le_of_mem_chunks (hlength : 0 < length) (data : Bytes) :
    ∀ chunk ∈ chunks length data, chunk.length ≤ length := by
  induction data using chunks_induction hlength with
  | nil => simp [chunks_nil]
  | cut data hdata ih =>
    intro chunk hchunk
    rw [chunks_of_ne hlength hdata] at hchunk
    rcases List.mem_cons.mp hchunk with rfl | hrest
    · exact List.length_take_le _ _
    · exact ih chunk hrest

/-- The number of pieces is the length divided, rounded up. -/
theorem chunks_length (hlength : 0 < length) (data : Bytes) :
    (chunks length data).length = (data.length + (length - 1)) / length := by
  induction data using chunks_induction hlength with
  | nil =>
    rw [chunks_nil, List.length_nil, List.length_nil, Nat.zero_add]
    exact (Nat.div_eq_of_lt (by omega)).symm
  | cut data hdata ih =>
    have hpos := List.length_pos_iff.mpr hdata
    rw [chunks_of_ne hlength hdata, List.length_cons, ih, List.length_drop]
    by_cases hle : data.length ≤ length
    · have hzero : data.length - length + (length - 1) < length := by omega
      have hone : data.length + (length - 1) = length + (data.length - 1) := by omega
      rw [Nat.div_eq_of_lt hzero, hone, Nat.add_div_left _ hlength,
        Nat.div_eq_of_lt (by omega)]
    · have hsum : data.length + (length - 1) = data.length - length + (length - 1) + length := by
        omega
      rw [hsum, Nat.add_div_right _ hlength]

end Chunks

/-! ## Fragments -/

/-- A marker for a length that fits. -/
theorem new_of_fits {payload : Bytes} (h : FragmentFits payload) (last : Bool) :
    RecordMarker.new (UInt32.ofNat payload.length) last =
      .ok ⟨last, UInt32.ofNat payload.length⟩ := by
  have hle : ¬ UInt32.ofNat payload.length > maxFragmentLen := by
    rw [gt_iff_lt, UInt32.lt_iff_toNat_lt, toNat_ofNat_length h]
    unfold FragmentFits at h
    exact Nat.not_lt.mpr (Nat.le_of_lt_succ h)
  rw [RecordMarker.new, if_neg hle]

/-- The fragments of a record, on the wire. -/
def Record.wire (r : Record) : List Bytes := r.more.map (fragment false) ++ [fragment true r.last]

theorem Record.wire_flatten (r : Record) : r.wire.flatten = r.bytes := by
  rw [Record.wire, Record.bytes, Record.moreBytes, List.flatten_append, List.flatten_singleton]

theorem Record.payloads_flatten (r : Record) : r.payloads.flatten = r.data := by
  rw [Record.payloads, Record.data, List.flatten_append, List.flatten_singleton]

/-- The loop turns pieces that fit into the fragments of a record. -/
theorem fragmentChunks_eq {count idx : ℕ} (chunk : Bytes) (rest : List Bytes)
    (hfits : ∀ piece ∈ chunk :: rest, FragmentFits piece)
    (hcount : idx + (chunk :: rest).length = count) :
    ∃ r : Record, fragmentChunks count idx (chunk :: rest) = .ok r.wire ∧
      r.payloads = chunk :: rest := by
  induction rest generalizing chunk idx with
  | nil =>
    have hchunk := hfits chunk (by simp)
    have hlast : (idx + 1 == count) = true := by simpa using hcount
    refine ⟨.single chunk hchunk, ?_, rfl⟩
    rw [fragmentChunks, fragmentChunks, hlast, new_of_fits hchunk]
    rfl
  | cons next rest ih =>
    have hchunk := hfits chunk (by simp)
    have hlast : (idx + 1 == count) = false := by
      simp only [List.length_cons] at hcount
      simp
      omega
    obtain ⟨r, hok, hpayloads⟩ := @ih (idx + 1) next
      (fun piece hpiece => hfits piece (by simp [hpiece])) (by simp at hcount ⊢; omega)
    refine ⟨.cons chunk hchunk r, ?_, ?_⟩
    · rw [fragmentChunks, hlast, new_of_fits hchunk, hok]
      rfl
    · rw [← hpayloads]
      rfl

/-- Cutting a payload gives the fragments of one record with that payload. -/
theorem fragmentRecord_eq {maxLen : UInt32} (hpos : maxLen ≠ 0) (hmax : maxLen ≤ maxFragmentLen)
    (data : Bytes) :
    ∃ r : Record, fragmentRecord data maxLen = .ok r.wire ∧ r.data = data ∧
      (∀ payload ∈ r.payloads, payload.length ≤ maxLen.toNat) ∧
      r.payloads.length = max ((data.length + (maxLen.toNat - 1)) / maxLen.toNat) 1 := by
  have hlength : 0 < maxLen.toNat := by
    rw [Nat.pos_iff_ne_zero]
    exact fun h => hpos (UInt32.toNat_inj.mp h)
  have hbound : maxLen.toNat < 2 ^ 31 := by
    have hle := UInt32.le_iff_toNat_le.mp hmax
    have hconst : maxFragmentLen.toNat = 2 ^ 31 - 1 := rfl
    omega
  rw [fragmentRecord, if_neg hpos, if_neg (by simpa using hmax)]
  by_cases hdata : data = []
  · subst hdata
    refine ⟨.single [] (by simp [FragmentFits]), rfl, rfl,
      by simp [Record.payloads, Record.single], ?_⟩
    rw [List.length_nil, Nat.zero_add, Nat.div_eq_of_lt (by omega)]
    rfl
  · simp only [hdata, if_false]
    have hchunks := chunks_of_ne hlength hdata
    have hcount := chunks_length hlength data
    have hflat := chunks_flatten hlength data
    have hle := length_le_of_mem_chunks hlength data
    have hfits : ∀ piece ∈ chunks maxLen.toNat data, FragmentFits piece := by
      intro piece hpiece
      have hpiece := hle piece hpiece
      unfold FragmentFits
      omega
    rw [hchunks] at hcount hflat hle hfits
    have hmaxCount : max ((data.length + (maxLen.toNat - 1)) / maxLen.toNat) 1 =
        (data.take maxLen.toNat :: chunks maxLen.toNat (data.drop maxLen.toNat)).length := by
      rw [← hcount]
      exact Nat.max_eq_left (by simp)
    obtain ⟨r, hok, hpayloads⟩ := @fragmentChunks_eq
      (max ((data.length + (maxLen.toNat - 1)) / maxLen.toNat) 1) 0 _ _ hfits (by
        rw [Nat.zero_add, hmaxCount])
    rw [hchunks]
    refine ⟨r, hok, ?_, ?_, ?_⟩
    · rw [← r.payloads_flatten, hpayloads, hflat]
    · rw [hpayloads]
      exact hle
    · rw [hpayloads, hmaxCount]

/-! ## Whole messages -/

/-- A payload that fits a fragment is written as one. -/
theorem writeRecordPayload_of_fits {payload : Bytes} (h : FragmentFits payload) :
    ∃ writes, writeRecordPayload payload = .ok writes ∧
      writes.flatten = (Record.single payload h).bytes := by
  have hle : payload.length ≤ maxFragmentLen.toNat := Nat.le_of_lt_succ h
  refine ⟨[markerBytes true payload.length, payload], ?_, ?_⟩
  · rw [writeRecordPayload, if_pos hle, new_of_fits h]
    rfl
  · simp [Record.single, Record.bytes, fragment_eq]

/-- Writing a payload hands one record with that payload to the stream. -/
theorem writeRecordPayload_eq (payload : Bytes) :
    ∃ writes, ∃ r : Record, writeRecordPayload payload = .ok writes ∧
      writes.flatten = r.bytes ∧ r.data = payload := by
  by_cases hle : payload.length ≤ maxFragmentLen.toNat
  · have hfits : FragmentFits payload := Nat.lt_succ_of_le hle
    obtain ⟨writes, hok, hbytes⟩ := writeRecordPayload_of_fits hfits
    exact ⟨writes, .single payload hfits, hok, hbytes, by simp [Record.single, Record.data]⟩
  · obtain ⟨r, hok, hdata, -⟩ :=
      @fragmentRecord_eq maxFragmentLen (by decide) (UInt32.le_refl _) payload
    refine ⟨r.wire, r, ?_, r.wire_flatten, hdata⟩
    rw [writeRecordPayload, if_neg hle, hok]
    rfl

/-- Writing a message hands one record with its encoding to the stream. -/
theorem writeRpcMessage_eq {message : RpcMessage} (h : message.Fits) :
    ∃ writes, ∃ r : Record, writeRpcMessage message = .ok writes ∧ writes.flatten = r.bytes ∧
      message.encode = .ok r.data := by
  obtain ⟨writes, r, hok, hbytes, hdata⟩ := writeRecordPayload_eq message.wire
  have hencode := (message.encode_eq_ok_iff message.wire).mpr ⟨h, rfl⟩
  refine ⟨writes, r, ?_, hbytes, hdata.symm ▸ hencode⟩
  rw [writeRpcMessage, hencode]
  exact hok

end OncRpc
