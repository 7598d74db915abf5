import OncRpc.Gen.Meaning

/-!
# Decoding a part of an encoding

The decoders of the runtime take the bytes of a field all at once or not at all.  So a generated
decoder that is run on a part of an encoding reports how many bytes it needs for the field it stands
at, and leaves those that are there (`decodeXdr_incremental`).  The receiver of a typed reply relies
on this: it runs the decoder of the metadata on growing parts of the reply.
-/

namespace OncRpc

open Foundation Cursor

variable {α : Type} {d : XdrDecoder α}

/-! ## The codecs of the runtime -/

/-- Bytes are read exactly where they stand at the front. -/
theorem readExactXdr_eq_ok_iff {len : ℕ} {input b rest : Bytes} :
    readExactXdr len input = some (.ok b, rest) ↔ input = b ++ rest ∧ b.length = len := by
  constructor
  · intro h
    obtain ⟨_, mid, hensure, htake⟩ := bind_eq_ok_iff.mp h
    unfold ensureLen at hensure
    split at hensure
    · cases hensure
    · next hlen =>
      cases hensure
      cases htake
      refine ⟨(List.take_append_drop len input).symm, List.length_take_of_le (Nat.not_lt.mp hlen)⟩
  · rintro ⟨rfl, hlen⟩
    exact readExactXdr_append hlen rest

/-- Too few bytes are the end of the input. -/
theorem readExactXdr_of_lt {len : ℕ} {input : Bytes} (h : input.length < len) :
    readExactXdr len input = some (.error (.unexpectedEof len), input) :=
  bind_of_error (if_pos h)

/-- Reading a number of bytes is incremental. -/
theorem incremental_readExactXdr (len : ℕ) :
    Incremental .unexpectedEof (readExactXdr len) := by
  intro input b rest h
  obtain ⟨rfl, rfl⟩ := readExactXdr_eq_ok_iff.mp h
  refine ⟨b, rfl, fun more => readExactXdr_append rfl more, ?_⟩
  rintro front back rfl hback
  have hpos : 0 < back.length := List.length_pos_of_ne_nil hback
  have hlt : front.length < (front ++ back).length := by
    rw [List.length_append]
    omega
  exact ⟨_, front, readExactXdr_of_lt hlt, hlt, (List.length_append ..).le⟩

/-- Reading a number of bytes stays within that number. -/
theorem within_readExactXdr (len : ℕ) : Within (readExactXdr len) len := by
  intro input b rest h
  obtain ⟨rfl, rfl⟩ := readExactXdr_eq_ok_iff.mp h
  exact ⟨b, rfl, le_rfl⟩

/-- The padding is read as bytes whose values do not matter. -/
theorem discardPadding_eq (len : ℕ) :
    discardPadding len = (readExactXdr (xdrPadding len) >>= fun _ => pure () : XdrDecoder Unit) :=
      by
  funext input
  change Cursor.bind (ensureLen _) _ input = Cursor.bind (Cursor.bind (ensureLen _) _) _ input
  unfold Cursor.bind
  rcases ensureLen (xdrPadding len) input with _ | ⟨error | a, rest⟩ <;> rfl

/-- Reading fixed opaque data is incremental. -/
theorem incremental_readFixedOpaque (len : ℕ) :
    Incremental .unexpectedEof (readFixedOpaque len) := by
  refine (incremental_readExactXdr len).bind fun b => ?_
  rw [discardPadding_eq]
  exact ((incremental_readExactXdr _).map fun _ => ()).bind fun _ => .pure b

/-- The length of opaque data with its padding. -/
theorem add_xdrPadding (len : ℕ) : len + xdrPadding len = (len + 3) / 4 * 4 := by
  unfold xdrPadding
  omega

/-- Reading fixed opaque data stays within its padded length. -/
theorem within_readFixedOpaque (len : ℕ) :
    Within (readFixedOpaque len) ((len + 3) / 4 * 4) := by
  rw [← add_xdrPadding]
  refine (within_readExactXdr len).bind fun b => ?_
  rw [discardPadding_eq]
  exact ((within_readExactXdr _).map fun _ => ()).bind fun _ => .pure b

/-- Reading variable opaque data is incremental. -/
theorem incremental_readVariableOpaque : Incremental .unexpectedEof readVariableOpaque :=
  ((incremental_readExactXdr 4).map _).bind fun len => incremental_readFixedOpaque len.toNat

/-- Decoding a string is incremental. -/
theorem incremental_decodeString : Incremental .unexpectedEof decodeString := by
  refine incremental_readVariableOpaque.bind fun b => ?_
  rcases fromUtf8 b with _ | s
  · exact .fail _
  · exact .pure s

/-- Decoding a boolean is incremental. -/
theorem incremental_decodeBool : Incremental .unexpectedEof decodeBool := by
  refine ((incremental_readExactXdr 4).map _).bind fun w => ?_
  split
  · exact .pure false
  split
  · exact .pure true
  · exact .fail _

/-- A check of what was read takes nothing more. -/
theorem within_readXdrU32_bind {f : UInt32 → XdrDecoder α} (hf : ∀ w, Within (f w) 0) :
    Within (readXdrU32 >>= f) 4 :=
  ((within_readExactXdr 4).map _).bind hf

/-- Decoding a boolean stays within a word. -/
theorem within_decodeBool : Within decodeBool 4 := by
  refine within_readXdrU32_bind fun w => ?_
  split
  · exact .pure false
  split
  · exact .pure true
  · exact .fail _ 0

/-- Decoding a `Vec` is incremental, if its elements are. -/
theorem incremental_decodeVec (h : Incremental .unexpectedEof d) :
    Incremental .unexpectedEof (decodeVec d) :=
  ((incremental_readExactXdr 4).map _).bind fun len => h.times len.toNat

/-- Decoding an `Option` is incremental, if its value is. -/
theorem incremental_decodeOption (h : Incremental .unexpectedEof d) :
    Incremental .unexpectedEof (decodeOption d) := by
  refine incremental_decodeBool.bind fun present => ?_
  rcases present with _ | _
  · exact .pure none
  · exact h.map some

/-- Decoding an `Option` stays within a word and its value. -/
theorem within_decodeOption {bound : ℕ} (h : Within d bound) :
    Within (decodeOption d) (4 + bound) := by
  refine within_decodeBool.bind fun present => ?_
  rcases present with _ | _
  · exact (Within.pure none).mono (Nat.zero_le _)
  · exact h.map some

/-- Decoding the length of opaque data is incremental. -/
theorem incremental_decodeOpaqueLength (maximum : ℕ) :
    Incremental .unexpectedEof (decodeOpaqueLength maximum) := by
  refine ((incremental_readExactXdr 4).map _).bind fun len => ?_
  split
  · exact .fail _
  · exact .pure _

/-- Decoding the length of opaque data stays within a word. -/
theorem within_decodeOpaqueLength (maximum : ℕ) : Within (decodeOpaqueLength maximum) 4 := by
  refine within_readXdrU32_bind fun len => ?_
  split
  · exact .fail _ 0
  · exact .pure _

/-- Whether a word can be read depends on the length alone. -/
theorem readXdrU32_cases (input : Bytes) :
    readXdrU32 input = some (.error (.unexpectedEof 4), input) ∨
      ∃ w rest, readXdrU32 input = some (.ok w, rest) := by
  rcases Nat.lt_or_ge input.length 4 with hshort | hlong
  · exact .inl (bind_of_error (readExactXdr_of_lt hshort))
  · have hread : readExactXdr 4 input = some (.ok (input.take 4), input.drop 4) :=
      readExactXdr_eq_ok_iff.mpr ⟨(List.take_append_drop 4 input).symm,
        List.length_take_of_le hlong⟩
    exact .inr ⟨_, _, bind_of_ok hread⟩

/-- Reading opaque data after a look at its length, which leaves the cursor where it is. -/
theorem incremental_checkedOpaque (maximum : ℕ) (g : Bytes → α)
    (hd : ∀ input, d input = match decodeOpaqueLength maximum input with
      | some (.error error, _) => some (.error error, input)
      | _ => (do return g (← readVariableOpaque) : XdrDecoder α) input) :
    Incremental .unexpectedEof d := by
  -- reading the length once is the same, but for where a failed check leaves the cursor
  let once : XdrDecoder α := readXdrU32 >>= fun len =>
    if len.toNat > maximum then fail (.lengthLimit len.toNat maximum)
    else readFixedOpaque len.toNat >>= fun b => pure (g b)
  have honce : Incremental .unexpectedEof once := by
    refine ((incremental_readExactXdr 4).map _).bind fun len => ?_
    split
    · exact .fail _
    · exact (incremental_readFixedOpaque _).map g
  refine honce.of_agree fun input => ?_
  rw [hd]
  rcases readXdrU32_cases input with hword | ⟨w, rest, hword⟩
  · refine .inl ?_
    rw [decodeOpaqueLength, bind_of_error hword, show once input = _ from bind_of_error hword]
  · have honce' : once input = _ := bind_of_ok hword
    rw [decodeOpaqueLength, bind_of_ok hword, honce']
    by_cases hmax : w.toNat > maximum
    · rw [if_pos hmax, if_pos hmax]
      exact .inr ⟨_, input, rest, rfl, rfl, fun needed => nofun⟩
    · rw [if_neg hmax, if_neg hmax]
      refine .inl ?_
      change Cursor.bind (Cursor.bind readXdrU32 _) _ input = Cursor.bind _ _ rest
      unfold Cursor.bind
      rw [hword]

/-! ## Generated decoders -/

variable (items : List RustItem)

/-- The implementations for the types of the runtime. -/
theorem decodeType_incremental {named : String → XdrDecoder Value}
    (h : ∀ name, Incremental .unexpectedEof (named name)) (type : RustType) :
    Incremental .unexpectedEof (decodeType items named type) := by
  induction type with
  | unit => exact .pure _
  | bool => exact incremental_decodeBool.map _
  | i32 | u32 | f32 => exact ((incremental_readExactXdr 4).map _).map _
  | i64 | u64 | f64 => exact ((incremental_readExactXdr 8).map _).map _
  | u8 => exact ((incremental_readExactXdr 1).map _).map _
  | string bound => exact incremental_decodeString.map _
  | bytes bound => exact incremental_readVariableOpaque.map _
  | vec element bound ih => exact (incremental_decodeVec ih).map _
  | optionBox element ih => exact (incremental_decodeOption ih).map _
  | array element len ih =>
    unfold decodeType
    split
    · exact .exhausted
    split
    · exact (incremental_readFixedOpaque _).map _
    · exact (ih.times _).map _
  | named name => exact h name
  | opaqueLength maximum =>
    unfold decodeType
    split
    · exact .exhausted
    · exact (incremental_decodeOpaqueLength _).map _
  | opaqueSegments maximum =>
    unfold decodeType
    split
    · exact .exhausted
    · exact incremental_checkedOpaque _ _ fun _ => rfl

/-- Decoding a field is incremental, if the types are. -/
theorem decodeField_incremental {decode : RustType → XdrDecoder Value}
    (h : ∀ type, Incremental .unexpectedEof (decode type)) (field : RustField) :
    Incremental .unexpectedEof (decodeField items decode field) := by
  unfold decodeField
  split
  · exact h _
  split
  · exact .exhausted
  · exact ((h _).times _).map _

/-- Decoding the field of a variant is incremental, if the types are. -/
theorem decodeVariantField_incremental {decode : RustType → XdrDecoder Value}
    (h : ∀ type, Incremental .unexpectedEof (decode type)) (field : Option RustField) :
    Incremental .unexpectedEof (decodeVariantField items decode field) := by
  rcases field with _ | field
  · exact .pure none
  · exact (decodeField_incremental items h field).map some

/-- The implementation of an item. -/
theorem decodeItem_incremental {decode : RustType → XdrDecoder Value}
    (h : ∀ type, Incremental .unexpectedEof (decode type)) (item : RustItem) :
    Incremental .unexpectedEof (decodeItem items decode item) := by
  rcases item with _ | ⟨_, type⟩ | ⟨_, fields⟩ | ⟨_, variants⟩ | ⟨_, body⟩
  case const => exact .exhausted
  case typeAlias => exact h type
  case struct =>
    have hfields := Incremental.each fun field (_ : field ∈ fields) =>
      decodeField_incremental items h field
    exact hfields.map _
  case enum =>
    refine ((incremental_readExactXdr 4).map _).bind fun x => ?_
    split
    · exact .pure _
    · exact .fail _
  case union =>
    refine (h _).bind fun discriminant => ?_
    unfold decodeArm
    split
    · exact (decodeVariantField_incremental items h _).map _
    split
    · exact (decodeVariantField_incremental items h _).map _
    · exact .fail _
    · exact .exhausted

/-- Decoding a named type is incremental, whatever the fuel. -/
theorem decodeNamed_incremental (fuel : ℕ) (name : String) :
    Incremental .unexpectedEof (decodeNamed items fuel name) := by
  induction fuel generalizing name with
  | zero => exact .exhausted
  | succ fuel ih =>
    unfold decodeNamed
    split
    · exact decodeItem_incremental items (decodeType_incremental items ih) _
    · exact .exhausted

/-- On a part of an encoding a generated decoder asks for what is missing. -/
theorem decodeXdr_incremental (fuel : ℕ) (type : RustType) :
    Incremental .unexpectedEof (decodeXdr items fuel type) :=
  decodeType_incremental items (decodeNamed_incremental items fuel) type

end OncRpc
