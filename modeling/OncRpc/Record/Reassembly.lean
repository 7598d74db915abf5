import OncRpc.Record.Outcome

/-!
# The record reassemblers

Four functions of the source turn a fragmented record back into its payload: `read_record` over a
slice, `try_take_record_from_buffer` over a growing buffer, `read_rpc_message_with_limits` over a
stream, and a `RecordReader` read to its end.  Each is modelled as the source has it and described
in terms of the records its input starts with.
-/

namespace OncRpc

open Foundation

/-! ## Reading a slice -/

/-- What `read_record` finds at the start of a slice. -/
inductive RecordRead where
  | incomplete
  | complete (data : Bytes) (consumed fragments : ℕ)
  deriving DecidableEq

/-- The loop of `read_record`. -/
def readRecordFrom (input : Bytes) (offset fragments : ℕ) (record : Bytes) : RecordRead :=
  let remaining := input.drop offset
  if remaining = [] ∧ fragments = 0 then .incomplete
  else if h : remaining.length < 4 then .incomplete
  else
    let marker := RecordMarker.decodeBytes (remaining.take 4)
    let fragmentEnd := 4 + marker.payloadLen.toNat
    if remaining.length < fragmentEnd then .incomplete
    else
      let record := record ++ (remaining.take fragmentEnd).drop 4
      if marker.lastFragment then .complete record (offset + fragmentEnd) (fragments + 1)
      else readRecordFrom input (offset + fragmentEnd) (fragments + 1) record
termination_by input.length - offset
decreasing_by
  simp only [remaining, List.length_drop] at h
  omega

/-- The first record of a slice. -/
def readRecord (input : Bytes) : Except WireError RecordRead := .ok (readRecordFrom input 0 0 [])

/-! ## Taking a record from a buffer -/

/-- The first loop of `try_take_record_from_buffer`: the end of the first record, the number of its
fragments and the size of its payload. -/
def scanRecord (buffer : Bytes) (offset fragments totalPayloadLen : ℕ) : Option (ℕ × ℕ × ℕ) :=
  let remaining := buffer.drop offset
  if remaining = [] then none
  else if h : remaining.length < 4 then none
  else
    let marker := RecordMarker.decodeBytes (remaining.take 4)
    let fragmentLen := marker.payloadLen.toNat
    let consumed := 4 + fragmentLen
    if remaining.length < consumed then none
    else if marker.lastFragment then
      some (offset + consumed, fragments + 1, totalPayloadLen + fragmentLen)
    else scanRecord buffer (offset + consumed) (fragments + 1) (totalPayloadLen + fragmentLen)
termination_by buffer.length - offset
decreasing_by
  simp only [remaining, List.length_drop] at h
  omega

/-- The second loop of `try_take_record_from_buffer`: the payloads of the fragments. -/
def assembleRecord (consumed assembled : Bytes) : Bytes :=
  if h : consumed = [] then assembled
  else
    let marker := RecordMarker.decodeBytes (consumed.take 4)
    let body := consumed.drop 4
    let fragmentLen := marker.payloadLen.toNat
    let assembled := assembled ++ body.take fragmentLen
    if marker.lastFragment then assembled
    else assembleRecord (body.drop fragmentLen) assembled
termination_by consumed.length
decreasing_by
  have := List.length_pos_iff.mpr h
  simp only [List.length_drop]
  omega

/-- Take the first record out of a buffer; the second component is the buffer afterwards. -/
def tryTakeRecordFromBuffer (buffer : Bytes) : Except RuntimeError (Option Bytes) × Bytes :=
  match scanRecord buffer 0 0 0 with
  | none => (.ok none, buffer)
  | some (offset, fragments, _) =>
    if fragments = 1 then (.ok (some ((buffer.take offset).drop 4)), buffer.drop offset)
    else (.ok (some (assembleRecord (buffer.take offset) [])), buffer.drop offset)

/-- Take the first record out of a buffer and decode it. -/
def tryDecodeMessageFromBuffer (buffer : Bytes) :
    Except RuntimeError (Option RpcMessage) × Bytes :=
  match tryTakeRecordFromBuffer buffer with
  | (.error e, buffer) => (.error e, buffer)
  | (.ok none, buffer) => (.ok none, buffer)
  | (.ok (some record), buffer) => (((RpcMessage.decode record).map some).mapError .wire, buffer)

/-! ## Reading a stream under limits -/

/-- Read exactly `count` bytes of a stream; the second component is the stream afterwards. -/
def readExact (count : ℕ) (stream : Bytes) : Except RuntimeError Bytes × Bytes :=
  if count ≤ stream.length then (.ok (stream.take count), stream.drop count)
  else (.error .connectionClosed, [])

/-- The loop of `read_rpc_message_with_limits`, over the fragments it may still read. -/
def readFragments (limits : RecordLimits) :
    ℕ → Bytes → Bytes → Except RuntimeError RpcMessage × Bytes
  | 0, _, stream => (.error fragmentLimitError, stream)
  | n + 1, record, stream =>
    match readExact 4 stream with
    | (.error e, stream) => (.error e, stream)
    | (.ok header, stream) =>
      let marker := wordOf header
      match limits.grow record.length (marker &&& 0x7fffffff).toNat with
      | none => (.error recordLimitError, stream)
      | some total =>
        match readExact (total - (record ++ header).length) stream with
        | (.error e, stream) => (.error e, stream)
        | (.ok payload, stream) =>
          let record := record ++ header ++ payload
          if marker &&& 0x80000000 != 0 then
            match (tryDecodeMessageFromBuffer record).1 with
            | .error e => (.error e, stream)
            | .ok none => (.error .connectionClosed, stream)
            | .ok (some message) => (.ok message, stream)
          else readFragments limits n record stream

/-- Read one message of a stream under limits; the second component is the stream afterwards. -/
def readRpcMessageWithLimits (limits : RecordLimits) (stream : Bytes) :
    Except RuntimeError RpcMessage × Bytes :=
  match limits.validate with
  | .error e => (.error e, stream)
  | .ok () => readFragments limits limits.maxFragments [] stream

/-! ## The head of a stream -/

section HeadFragment

variable {p : Bytes} (hp : FragmentFits p) (last : Bool) (rest : Bytes)

include hp in
/-- The marker at the head of a fragment. -/
theorem decodeBytes_take_fragment :
    RecordMarker.decodeBytes ((fragment last p ++ rest).take 4) =
      ⟨last, UInt32.ofNat p.length⟩ := by
  have htake : (fragment last p ++ rest).take 4 = markerBytes last p.length := by
    rw [fragment_eq, List.append_assoc]
    exact List.take_left' (by simp)
  rw [htake, RecordMarker.decodeBytes, markerBytes, RecordMarker.encodeBytes, wordOf_beBytes,
    RecordMarker.decode_encode]
  rw [toNat_ofNat_length hp]
  exact hp

/-- Behind a fragment the rest follows. -/
theorem drop_fragment : (fragment last p ++ rest).drop (4 + p.length) = rest :=
  List.drop_left' (by simp)

/-- A fragment carries its payload. -/
theorem payload_fragment :
    ((fragment last p ++ rest).take (4 + p.length)).drop 4 = p := by
  rw [List.take_left' (by simp), fragment_eq]
  exact List.drop_left' (by simp)

end HeadFragment

/-- A slice that holds as many bytes as its first marker announces starts with a fragment. -/
theorem exists_fragment {l : Bytes} (h4 : 4 ≤ l.length)
    (hlen : 4 + (RecordMarker.decodeBytes (l.take 4)).payloadLen.toNat ≤ l.length) :
    ∃ last p rest, FragmentFits p ∧ l = fragment last p ++ rest := by
  have htake : (l.take 4).length = 4 := by
    rw [List.length_take]
    omega
  have hmark := markerBytes_of_length htake
  have hlow := low31_lt (wordOf (l.take 4))
  have hpay : (RecordMarker.decodeBytes (l.take 4)).payloadLen =
    wordOf (l.take 4) &&& maxFragmentLen := rfl
  rw [hpay] at hlen
  have hp : ((l.drop 4).take (wordOf (l.take 4) &&& maxFragmentLen).toNat).length =
      (wordOf (l.take 4) &&& maxFragmentLen).toNat := by
    rw [List.length_take, List.length_drop]
    omega
  refine ⟨wordOf (l.take 4) &&& 0x80000000 != 0,
    (l.drop 4).take (wordOf (l.take 4) &&& maxFragmentLen).toNat,
    (l.drop 4).drop (wordOf (l.take 4) &&& maxFragmentLen).toNat, ?_, ?_⟩
  · unfold FragmentFits
    omega
  · rw [fragment_eq, hp, hmark, List.append_assoc, List.take_append_drop, List.take_append_drop]

namespace Record

/-- Records are built by putting fragments in front of a single one. -/
theorem consInduction {P : Record → Prop} (single : ∀ p hp, P (single p hp))
    (cons : ∀ p hp r, P r → P (cons p hp r)) (r : Record) : P r := by
  obtain ⟨more, last, hmore, hlast⟩ := r
  induction more with
  | nil => exact single last hlast
  | cons p more ih =>
    exact cons p (hmore p (by simp)) ⟨more, last, fun q hq => hmore q (by simp [hq]), hlast⟩
      (ih fun q hq => hmore q (by simp [hq]))

/-- A record of one fragment is that fragment. -/
theorem single_bytes (p : Bytes) (hp : FragmentFits p) :
    (single p hp).bytes = fragment true p := by
  simp [single, bytes]

/-- A longer record starts with its first fragment. -/
theorem cons_bytes (p : Bytes) (hp : FragmentFits p) (r : Record) :
    (cons p hp r).bytes = fragment false p ++ r.bytes := by
  simp [cons, bytes]

/-- A record of one fragment carries its payload. -/
theorem single_data (p : Bytes) (hp : FragmentFits p) : (single p hp).data = p := by
  simp [single, data]

/-- A longer record carries the payloads one after another. -/
theorem cons_data (p : Bytes) (hp : FragmentFits p) (r : Record) :
    (cons p hp r).data = p ++ r.data := by
  simp [cons, data]

/-- A record of one fragment has one. -/
theorem single_fragments (p : Bytes) (hp : FragmentFits p) : (single p hp).fragments = 1 := rfl

/-- A longer record has one fragment more. -/
theorem cons_fragments (p : Bytes) (hp : FragmentFits p) (r : Record) :
    (cons p hp r).fragments = r.fragments + 1 := rfl

/-- Whether a stream starts with a complete record. -/
def StartsWith (input : Bytes) : Prop := ∃ (r : Record) (rest : Bytes), input = r.bytes ++ rest

/-- Without a record at its head, a stream has none after a first fragment. -/
theorem StartsWith.of_fragment {last : Bool} {p rest : Bytes} (hp : FragmentFits p)
    (h : ¬ StartsWith (fragment last p ++ rest)) : last = false ∧ ¬ StartsWith rest := by
  cases last with
  | true => exact (h ⟨single p hp, rest, by rw [single_bytes]⟩).elim
  | false =>
    refine ⟨rfl, ?_⟩
    rintro ⟨r, rest', rfl⟩
    exact h ⟨cons p hp r, rest', by rw [cons_bytes, List.append_assoc]⟩

end Record

end OncRpc
