import OncRpc.Xdr.Codec

/-!
# The codecs of the runtime types

`XdrType` are the types the runtime implements its codecs for: words, strings and opaque data, and
vectors, optional data and arrays of any of them.  An implementation of a composite type calls the
one of its element type, with one exception: an array of bytes is opaque data.  The encoder and the
decoder of arrays each look at the element type to find this out.

`xdr_round_trip` says that what is encoded is decoded, from in front of whatever follows, for all
nestings at once.
-/

namespace OncRpc

open Foundation

/-! ## Types and their values -/

/-- The types with codecs in the runtime. -/
inductive XdrType where
  | unit
  | bool
  | i32
  | u32
  | i64
  | u64
  | f32
  | f64
  | u8
  | string
  | bytes
  | vec (element : XdrType)
  | optionBox (element : XdrType)
  | array (element : XdrType) (len : ℕ)
  deriving DecidableEq

namespace XdrType

/-- The values of a type; floating point numbers are their bits. -/
def Carrier : XdrType → Type
  | unit => Unit
  | bool => Bool
  | i32 => Int32
  | u32 => UInt32
  | i64 => Int64
  | u64 => UInt64
  | f32 => UInt32
  | f64 => UInt64
  | u8 => UInt8
  | string => String
  | bytes => Bytes
  | vec element => List element.Carrier
  | optionBox element => Option element.Carrier
  | array element len => Vector element.Carrier len

/-! ## The implementations -/

/-- The first byte of an encoding; the source takes it of the encoding of a byte. -/
def firstByte : XdrWrite → XdrWrite
  | some (.ok (byte :: _)) => .bytes [byte]
  -- The source panics on an empty encoding.
  | some (.ok []) => .exhausted
  | other => other

/-- Bytes that were collected, as opaque data. -/
def opaqueOf : XdrWrite → XdrWrite
  | some (.ok b) => .bytes (writeFixedOpaque b)
  | other => other

/-- The `XdrEncode` implementations. -/
def encodeXdr : (type : XdrType) → type.Carrier → XdrWrite
  | unit, _ => .bytes []
  | bool, b => .bytes (beBytes (boolWord b))
  | i32, x => .bytes (beBytes (Int32.toUInt32 x))
  | u32, x => .bytes (beBytes x)
  | i64, x => .bytes (beBytes64 (Int64.toUInt64 x))
  | u64, x => .bytes (beBytes64 x)
  | f32, bits => .bytes (beBytes bits)
  | f64, bits => .bytes (beBytes64 bits)
  | u8, x => .bytes [x]
  | string, s => .bytes (writeVariableOpaque (stringBytes s))
  | bytes, b => .bytes (writeVariableOpaque b)
  | vec element, values => encodeVec element.encodeXdr values
  | optionBox element, value => encodeOption element.encodeXdr value
  | array element len, values =>
    let values : Vector element.Carrier len := values
    if element = u8 then
      opaqueOf (.each (fun value => firstByte (element.encodeXdr value)) values.toList)
    else .each element.encodeXdr values.toList

/-- Decode one element from each byte. -/
def decodeBytes {α : Type} (d : XdrDecoder α) : Bytes → XdrDecoder (List α)
  | [] => pure []
  | byte :: rest => fun input =>
    match d [byte] with
    | some (.ok value, _) => (do return value :: (← decodeBytes d rest)) input
    | some (.error error, _) => some (.error error, input)
    | none => none

/-- The array of some elements; the source has no array of another length. -/
def tryInto {α : Type} (len : ℕ) (values : List α) : XdrDecoder (Vector α len) :=
  if h : values.length = len then pure ⟨values.toArray, by simpa using h⟩ else Cursor.exhausted

/-- The `XdrDecode` implementations. -/
def decodeXdr : (type : XdrType) → XdrDecoder type.Carrier
  | unit => (pure () : XdrDecoder Unit)
  | bool => decodeBool
  | i32 => readXdrI32
  | u32 => readXdrU32
  | i64 => readXdrI64
  | u64 => readXdrU64
  | f32 => readXdrU32
  | f64 => readXdrU64
  | u8 => readXdrU8
  | string => decodeString
  | bytes => readVariableOpaque
  | vec element => decodeVec element.decodeXdr
  | optionBox element => decodeOption element.decodeXdr
  | array element len =>
    if element = u8 then do
      let b ← readFixedOpaque len
      let values ← decodeBytes element.decodeXdr b
      tryInto len values
    else do
      let values ← decodeFixedArray element.decodeXdr len
      tryInto len values

/-! ## What is asked of a value and of a type -/

/-- Every length in a value fits into a word. -/
def Fits : (type : XdrType) → type.Carrier → Prop
  | string, s => (stringBytes s).length < 2 ^ 32
  | bytes, b => List.length b < 2 ^ 32
  | vec element, values =>
    let values : List element.Carrier := values
    values.length < 2 ^ 32 ∧ ∀ value ∈ values, element.Fits value
  | optionBox element, value =>
    let value : Option element.Carrier := value
    ∀ v ∈ value, element.Fits v
  | array element len, values =>
    let values : Vector element.Carrier len := values
    ∀ value ∈ values.toList, element.Fits value
  | unit, _ | bool, _ | i32, _ | u32, _ | i64, _ | u64, _ | f32, _ | f64, _ | u8, _ => True

/-- A byte occurs as an element of an array only. -/
def Aligned : XdrType → Prop
  | u8 => False
  | array u8 _ => True
  | vec element | optionBox element | array element _ => element.Aligned
  | _ => True

/-! ## The round trip -/

/-- The value has an encoding, of aligned length where the type says so, that is read back. -/
def RoundTrips (type : XdrType) (value : type.Carrier) : Prop :=
  ∃ b, Codes (fun _ => type.encodeXdr) (fun _ => type.decodeXdr) value b ∧
    (type.Aligned → 4 ∣ b.length)

theorem dvd_length_writeFixedOpaque (b : Bytes) : 4 ∣ (writeFixedOpaque b).length := by
  rw [writeFixedOpaque, List.length_append, padding_length, xdrPadding]
  omega

theorem dvd_length_writeVariableOpaque (b : Bytes) : 4 ∣ (writeVariableOpaque b).length := by
  rw [writeVariableOpaque, List.length_append, beBytes_length]
  exact Nat.dvd_add (Nat.dvd_refl 4) (dvd_length_writeFixedOpaque b)

/-- Encodings of aligned length one after the other have one. -/
theorem dvd_length_flatten {encodings : List Bytes} (h : ∀ b ∈ encodings, 4 ∣ b.length) :
    4 ∣ encodings.flatten.length := by
  induction encodings with
  | nil => exact Nat.dvd_zero 4
  | cons b encodings ih =>
    obtain ⟨hfirst, hrest⟩ := List.forall_mem_cons.mp h
    rw [List.flatten_cons, List.length_append]
    exact Nat.dvd_add hfirst (ih hrest)

/-- A value that is written as known bytes and read back from them. -/
theorem RoundTrips.of_bytes {type : XdrType} {value : type.Carrier} {b : Bytes}
    (hwrite : type.encodeXdr value = .bytes b)
    (hread : ∀ rest, type.decodeXdr (b ++ rest) = some (.ok value, rest))
    (halign : type.Aligned → 4 ∣ b.length) : type.RoundTrips value := by
  refine ⟨b, ⟨?_, .of_forall hread⟩, halign⟩
  simp only [hwrite]
  exact .bytes b

/-- The elements of a vector or an array, written one after the other and read one after the
other. -/
theorem RoundTrips.elements {element : XdrType} {values : List element.Carrier}
    (h : ∀ value ∈ values, element.RoundTrips value) :
    ∃ b, Write.Writes (fun _ => Write.each element.encodeXdr values) b ∧
      Cursor.Reads (fun _ => element.decodeXdr.times values.length) b values ∧
      (element.Aligned → 4 ∣ b.length) := by
  obtain ⟨encodings, hwrites, hreads, haligned⟩ := Codes.elements_with h
  refine ⟨encodings.flatten, .each hwrites, .times hreads, fun halign => ?_⟩
  exact dvd_length_flatten fun b hb => haligned b hb halign

theorem tryInto_toList {α : Type} {len : ℕ} (values : Vector α len) :
    tryInto len values.toList = pure values := by
  rw [tryInto, dif_pos values.length_toList]
  rfl

/-! ## Arrays of bytes -/

/-- Collecting the first bytes of the encodings of bytes collects the bytes. -/
theorem each_firstByte (b : Bytes) :
    Write.each (fun byte => firstByte (u8.encodeXdr byte)) b = .bytes b := by
  induction b with
  | nil => rfl
  | cons byte b ih =>
    change (firstByte (u8.encodeXdr byte)).andThen
      (Write.each (fun byte => firstByte (u8.encodeXdr byte)) b) = _
    rw [ih]
    rfl

/-- Decoding a byte from each byte gives the bytes. -/
theorem decodeBytes_u8 (b input : Bytes) :
    decodeBytes u8.decodeXdr b input = some (.ok b, input) := by
  induction b with
  | nil => rfl
  | cons byte b ih =>
    have hbyte : u8.decodeXdr [byte] = some (.ok byte, []) := readXdrU8_singleton byte []
    simp only [decodeBytes, hbyte]
    rw [Cursor.bind_of_ok ih]
    rfl

theorem encodeXdr_array (element : XdrType) (len : ℕ) (values : Vector element.Carrier len) :
    (array element len).encodeXdr values =
      if element = u8 then
        opaqueOf (.each (fun value => firstByte (element.encodeXdr value)) values.toList)
      else .each element.encodeXdr values.toList := rfl

theorem decodeXdr_array_u8 (len : ℕ) :
    (array u8 len).decodeXdr = (do
      let b ← readFixedOpaque len
      let values ← decodeBytes u8.decodeXdr b
      (tryInto len values : XdrDecoder (Vector UInt8 len))) := if_pos rfl

theorem decodeXdr_array_of_ne {element : XdrType} (h : element ≠ u8) (len : ℕ) :
    (array element len).decodeXdr = (do
      let values ← decodeFixedArray element.decodeXdr len
      (tryInto len values : XdrDecoder (Vector element.Carrier len))) := if_neg h

/-- An array of bytes is opaque data. -/
theorem encodeXdr_bytes {len : ℕ} (values : Vector UInt8 len) :
    (array u8 len).encodeXdr values = .bytes (writeFixedOpaque values.toList) := by
  rw [encodeXdr_array u8 len values, if_pos rfl]
  exact congrArg opaqueOf (each_firstByte values.toList)

/-- An array of bytes is read as opaque data. -/
theorem decodeXdr_bytes {len : ℕ} (values : Vector UInt8 len) (rest : Bytes) :
    (array u8 len).decodeXdr (writeFixedOpaque values.toList ++ rest) =
      some (.ok values, rest) := by
  have hread := readFixedOpaque_append (padding_length values.toList.length) rest
  rw [values.length_toList] at hread
  rw [decodeXdr_array_u8, writeFixedOpaque, values.length_toList,
    Cursor.bind_of_ok hread, Cursor.bind_of_ok (decodeBytes_u8 _ rest)]
  exact congrFun (tryInto_toList values) rest

/-- An array of anything else is its elements, one after the other. -/
theorem RoundTrips.array {element : XdrType} {len : ℕ} (values : Vector element.Carrier len)
    (hbyte : element ≠ u8) (h : ∀ value ∈ values.toList, element.RoundTrips value) :
    (array element len).RoundTrips values := by
  obtain ⟨b, hwrites, hreads, haligned⟩ := RoundTrips.elements h
  refine ⟨b, ⟨?_, ?_⟩, fun halign => haligned ?_⟩
  · simp only [encodeXdr_array element len values, if_neg hbyte]
    exact hwrites
  · have hinto : Cursor.Reads (fun _ : ℕ => (tryInto len values.toList : XdrDecoder _)) [] values :=
      by
      rw [tryInto_toList]
      exact .pure _
    have hread := hreads.bind (f := fun _ values => tryInto len values) hinto
    rw [List.append_nil, values.length_toList] at hread
    simp only [decodeXdr_array_of_ne hbyte]
    exact hread
  · cases element with
    | u8 => exact absurd rfl hbyte
    | _ => exact halign

/-! ## The result -/

/-- Every value whose lengths fit round trips: one case for each type. -/
theorem roundTrips (type : XdrType) (value : type.Carrier) (h : type.Fits value) :
    type.RoundTrips value := by
  induction type with
  | unit => exact .of_bytes rfl (fun rest => rfl) fun _ => Nat.dvd_zero 4
  | bool => exact .of_bytes rfl (decodeBool_boolWord value) fun _ => Nat.dvd_refl 4
  | i32 => exact .of_bytes rfl (readXdrI32_beBytes value) fun _ => Nat.dvd_refl 4
  | u32 => exact .of_bytes rfl (readXdrU32_beBytes value) fun _ => Nat.dvd_refl 4
  | i64 => exact .of_bytes rfl (readXdrI64_beBytes64 value) fun _ => ⟨2, rfl⟩
  | u64 => exact .of_bytes rfl (readXdrU64_beBytes64 value) fun _ => ⟨2, rfl⟩
  | f32 => exact .of_bytes rfl (readXdrU32_beBytes value) fun _ => Nat.dvd_refl 4
  | f64 => exact .of_bytes rfl (readXdrU64_beBytes64 value) fun _ => ⟨2, rfl⟩
  | u8 => exact .of_bytes rfl (readXdrU8_singleton value) fun halign => halign.elim
  | string =>
    exact .of_bytes rfl (decodeString_write h) fun _ => dvd_length_writeVariableOpaque _
  | bytes =>
    exact .of_bytes rfl (readVariableOpaque_write h) fun _ => dvd_length_writeVariableOpaque _
  | vec element ih =>
    obtain ⟨hword, hfits⟩ := h
    obtain ⟨b, hwrites, hreads, haligned⟩ :=
      RoundTrips.elements fun value hmem => ih value (hfits value hmem)
    refine ⟨beBytes (lengthWord (List.length value)) ++ b,
      ⟨(Write.Writes.bytes _).andThen hwrites, reads_decodeVec hword hreads⟩, fun halign => ?_⟩
    rw [List.length_append]
    exact Nat.dvd_add (Nat.dvd_refl 4) (haligned halign)
  | optionBox element ih =>
    rcases value with _ | value
    · exact .of_bytes rfl (decodeOption_absent _) fun _ => Nat.dvd_refl 4
    · obtain ⟨b, hcodes, haligned⟩ := ih value (h value rfl)
      refine ⟨beBytes (boolWord true) ++ b,
        ⟨(Write.Writes.bytes _).andThen hcodes.writes, reads_decodeOption_present hcodes.reads⟩,
        fun halign => ?_⟩
      rw [List.length_append]
      exact Nat.dvd_add (Nat.dvd_refl 4) (haligned halign)
  | array element len ih =>
    by_cases hbyte : element = u8
    · -- the case the encoder and the decoder both set apart
      subst hbyte
      exact .of_bytes (encodeXdr_bytes value) (decodeXdr_bytes value) fun _ =>
        dvd_length_writeFixedOpaque _
    · exact .array value hbyte fun other hmem => ih other (h other hmem)

/-- The codecs of the runtime: whatever the nesting of the types, a value whose lengths fit into a
word is encoded, and decoded again from in front of whatever follows; where no byte occurs outside
an array of bytes the length of its encoding is a multiple of four; and an array of bytes is opaque
data of a fixed length with its padding. -/
theorem xdr_round_trip (type : XdrType) (value : type.Carrier) (h : type.Fits value) :
    (∃ encoding, type.encodeXdr value = .bytes encoding ∧
      (∀ rest, type.decodeXdr (encoding ++ rest) = some (.ok value, rest)) ∧
      (type.Aligned → 4 ∣ encoding.length)) ∧
    ∀ (len : ℕ) (values : Vector UInt8 len),
      (array u8 len).encodeXdr values = .bytes (values.toList ++ padding len) := by
  refine ⟨?_, fun len values => ?_⟩
  · obtain ⟨b, hcodes, haligned⟩ := roundTrips type value h
    exact ⟨b, Filter.eventually_const.mp hcodes.writes, Filter.eventually_const.mp hcodes.reads,
      haligned⟩
  · rw [encodeXdr_bytes, writeFixedOpaque, values.length_toList]

/-- An array of three bytes, and nothing. -/
def threeBytes : List (Option (Vector UInt8 3)) := [some #v[1, 2, 3], none]

/-- A vector of optional arrays of three bytes. -/
theorem xdr_round_trip_nested : ∃ encoding,
    (vec (optionBox (array u8 3))).encodeXdr threeBytes = .bytes encoding ∧
      (vec (optionBox (array u8 3))).decodeXdr (encoding ++ [9]) = some (.ok threeBytes, [9]) ∧
      4 ∣ encoding.length := by
  obtain ⟨⟨encoding, hencode, hdecode, haligned⟩, -⟩ := xdr_round_trip
    (vec (optionBox (array u8 3))) threeBytes ⟨by decide, fun _ _ _ _ _ _ => trivial⟩
  exact ⟨encoding, hencode, hdecode [9], haligned trivial⟩

end XdrType

end OncRpc
