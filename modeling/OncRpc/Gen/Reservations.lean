import OncRpc.Auth.AuthSys
import OncRpc.Foundation.Logged
import OncRpc.Gen.Incremental
import Mathlib.Algebra.BigOperators.Group.List.Basic

/-!
# What decoders reserve

The decoder of a vector reads its length and reserves room for as many elements, before it reads any
of them.  Here the decoders of `Meaning` keep a log of this: the length, and how many bytes are left
behind it (`erase_decodeXdrLogged` forgets the log again).

Which lengths a decoder reads is a matter of the bytes.  `Front` says that some bytes stand in front
of a vector in a type: they are complete encodings of all that precedes its length.  So
`reservations_within_iff` can say for which inputs nothing is reserved beyond the bytes that are
left: those in which no length that stands so is larger than the number of bytes behind it.  Among
them are all inputs that are accepted.

Enumerations and numeric discriminants are read through the words `i32` and `u32`.  As in `Meaning`
they are those of the runtime: no generated type has a name of the runtime, or `readItems` has put
it in the place of the word.
-/

namespace OncRpc

open Foundation Cursor

variable (items : List RustItem)

/-! ## Decoders with a log of their reservations -/

/-- Room was reserved for so many elements, with so many bytes left behind the length. -/
structure Reservation where
  element : RustType
  capacity : ℕ
  remaining : ℕ
  deriving DecidableEq

/-- A decoder that logs what it reserves. -/
abbrev LoggedDecoder (α : Type) := Logged XdrError Reservation α

section Logged

variable {α : Type}

/-- Read a vector: its length, room for so many elements, and the elements. -/
def decodeVecLogged (element : RustType) (d : LoggedDecoder α) : LoggedDecoder (List α) := do
  let len ← Logged.lift readXdrU32
  Logged.log fun rest => ⟨element, len.toNat, rest.length⟩
  d.times len.toNat

/-- Read optional data. -/
def decodeOptionLogged (d : LoggedDecoder α) : LoggedDecoder (Option α) := do
  if ← Logged.lift decodeBool then
    let value ← d
    return some value
  else return none

end Logged

/-- The implementations for the types of the runtime. -/
def decodeTypeLogged (named : String → LoggedDecoder Value) : RustType → LoggedDecoder Value
  | .vec element _ => do
    return .vec (← decodeVecLogged element (decodeTypeLogged named element))
  | .optionBox element => do
    return .option (← decodeOptionLogged (decodeTypeLogged named element))
  | .array element len =>
    match arrayLen items len with
    | none => .lift Cursor.exhausted
    | some len =>
      if isByte items element then do
        return .array ((← Logged.lift (readFixedOpaque len)).map .u8)
      else do return .array (← (decodeTypeLogged named element).times len)
  | .named name => named name
  -- No other type has elements.
  | type => .lift (decodeType items (fun _ => Cursor.exhausted) type)

/-- The template of a field. -/
def decodeFieldLogged (decode : RustType → LoggedDecoder Value) (field : RustField) :
    LoggedDecoder Value :=
  match field.decode with
  | .decodeXdr type => decode type
  | .decodeFixedArray element len =>
    match arrayLen items len with
    | none => .lift Cursor.exhausted
    | some len => do return .array (← (decode element).times len)

/-- The field of a variant, if it has one. -/
def decodeVariantFieldLogged (decode : RustType → LoggedDecoder Value) :
    Option RustField → LoggedDecoder (Option Value)
  | some field => do return some (← decodeFieldLogged items decode field)
  | none => pure none

/-- The decoder of a union behind its discriminant. -/
def decodeArmLogged (decode : RustType → LoggedDecoder Value) (body : RustUnion)
    (discriminant : Value) : LoggedDecoder Value :=
  match body.arms.find? fun arm => arm.pattern.covers items discriminant with
  | some arm => do
    return .union arm.variant none (← decodeVariantFieldLogged items decode arm.field)
  | none =>
    match body.fallback with
    | .default field => do
      return .union "Default" (some discriminant) (← decodeVariantFieldLogged items decode field)
    | .invalidEnum => .lift (Cursor.fail (.invalidEnum 0))
    | .none => .lift Cursor.exhausted

/-- The implementation of a generated item. -/
def decodeItemLogged (decode : RustType → LoggedDecoder Value) : RustItem → LoggedDecoder Value
  | .typeAlias _ type => decode type
  | .struct _ fields => do
    return .struct (← Logged.each (decodeFieldLogged items decode) fields)
  | .union _ body => do
    let discriminant ← decode body.decodeType
    decodeArmLogged items decode body discriminant
  -- Enumerations have no elements, and constants no decoder.
  | item => .lift (decodeItem items (fun _ => Cursor.exhausted) item)

/-- The implementation of a named type. -/
def decodeNamedLogged : ℕ → String → LoggedDecoder Value
  | 0, _ => .lift Cursor.exhausted
  | fuel + 1, name =>
    match findType items name with
    | some item => decodeItemLogged items (decodeTypeLogged items (decodeNamedLogged fuel)) item
    | none => .lift Cursor.exhausted

/-- The decoder of a type. -/
def decodeXdrLogged (fuel : ℕ) (type : RustType) : LoggedDecoder Value :=
  decodeTypeLogged items (decodeNamedLogged items fuel) type

/-- What the decoder of a type reserves on an input. -/
def reservations (fuel : ℕ) (type : RustType) (input : Bytes) : List Reservation :=
  (decodeXdrLogged items fuel type).entries input

/-- The encodings of a type are not empty. -/
def TakesBytes (type : RustType) : Prop :=
  ∀ fuel value rest, decodeXdr items fuel type [] ≠ some (.ok value, rest)

/-- No more elements are reserved than bytes are left, if elements take bytes. -/
def Reservation.Within (r : Reservation) : Prop :=
  TakesBytes items r.element → r.capacity ≤ r.remaining

/-! ## Forgetting the log -/

section Erase

variable {α : Type}

/-- Without its log the decoder of a `Vec` is the generated one. -/
theorem erase_decodeVecLogged (element : RustType) (d : LoggedDecoder α) :
    (decodeVecLogged element d).erase = decodeVec d.erase := by
  rw [decodeVecLogged, Logged.erase_bind, Logged.erase_lift, decodeVec]
  refine congrArg (readXdrU32 >>= ·) (funext fun len => ?_)
  rw [Logged.erase_bind, Logged.erase_times]
  rfl

/-- Without its log the decoder of an `Option` is the generated one. -/
theorem erase_decodeOptionLogged (d : LoggedDecoder α) :
    (decodeOptionLogged d).erase = decodeOption d.erase := by
  rw [decodeOptionLogged, Logged.erase_bind, Logged.erase_lift, decodeOption]
  refine congrArg (decodeBool >>= ·) (funext fun present => ?_)
  rcases present with _ | _
  · rfl
  · exact Logged.erase_bind _ _

/-- A result computed from what was read. -/
theorem erase_map {β : Type} (d : LoggedDecoder α) (g : α → β) :
    (d >>= fun a => pure (g a)).erase = d.erase >>= fun a => pure (g a) :=
  Logged.erase_bind _ _

end Erase

variable {items}

/-- Without its log the decoder of a type is the generated one. -/
theorem erase_decodeTypeLogged {named : String → LoggedDecoder Value} (type : RustType) :
    (decodeTypeLogged items named type).erase =
      decodeType items (fun name => (named name).erase) type := by
  induction type with
  | vec element bound ih =>
    rw [decodeTypeLogged, erase_map, erase_decodeVecLogged, ih]
    rfl
  | optionBox element ih =>
    rw [decodeTypeLogged, erase_map, erase_decodeOptionLogged, ih]
    rfl
  | array element len ih =>
    rw [decodeTypeLogged, decodeType]
    rcases arrayLen items len with _ | len
    · rfl
    · dsimp only
      split
      · exact erase_map _ _
      · rw [erase_map, Logged.erase_times, ih]
        rfl
  | _ => rfl

/-- Without its log the decoder of a field is the generated one. -/
theorem erase_decodeFieldLogged (decode : RustType → LoggedDecoder Value) (field : RustField) :
    (decodeFieldLogged items decode field).erase =
      decodeField items (fun type => (decode type).erase) field := by
  unfold decodeFieldLogged decodeField
  rcases field.decode with type | ⟨element, len⟩
  · rfl
  · dsimp only
    rcases arrayLen items len with _ | len
    · rfl
    · dsimp only
      rw [erase_map, Logged.erase_times]
      rfl

/-- Without its log the decoder of a variant's field is the generated one. -/
theorem erase_decodeVariantFieldLogged (decode : RustType → LoggedDecoder Value)
    (field : Option RustField) : (decodeVariantFieldLogged items decode field).erase =
      decodeVariantField items (fun type => (decode type).erase) field := by
  rcases field with _ | field
  · rfl
  · rw [decodeVariantFieldLogged, erase_map, erase_decodeFieldLogged]
    rfl

/-- Without its log the decoder of an arm is the generated one. -/
theorem erase_decodeArmLogged (decode : RustType → LoggedDecoder Value) (body : RustUnion)
    (discriminant : Value) : (decodeArmLogged items decode body discriminant).erase =
      decodeArm items (fun type => (decode type).erase) body discriminant := by
  unfold decodeArmLogged decodeArm
  generalize body.arms.find? _ = found
  rcases found with _ | arm
  · rcases body.fallback with field | _ | _
    · dsimp only
      rw [erase_map, erase_decodeVariantFieldLogged]
    all_goals rfl
  · dsimp only
    rw [erase_map, erase_decodeVariantFieldLogged]

/-- Without its log the decoder of a declared type is the generated one. -/
theorem erase_decodeItemLogged (decode : RustType → LoggedDecoder Value) (item : RustItem) :
    (decodeItemLogged items decode item).erase =
      decodeItem items (fun type => (decode type).erase) item := by
  rcases item with _ | ⟨_, type⟩ | ⟨_, fields⟩ | _ | ⟨_, body⟩
  case struct =>
    rw [decodeItemLogged, erase_map, Logged.erase_each, funext (erase_decodeFieldLogged decode)]
    rfl
  case union =>
    rw [decodeItemLogged, Logged.erase_bind, funext (erase_decodeArmLogged decode body)]
    rfl
  all_goals rfl

/-- Without its log the decoder of a named type is the generated one. -/
theorem erase_decodeNamedLogged (fuel : ℕ) (name : String) :
    (decodeNamedLogged items fuel name).erase = decodeNamed items fuel name := by
  induction fuel generalizing name with
  | zero => rfl
  | succ fuel ih =>
    rw [decodeNamedLogged, decodeNamed]
    rcases findType items name with _ | item
    · rfl
    · dsimp only
      rw [erase_decodeItemLogged, funext erase_decodeTypeLogged, funext ih]

/-- Without its log the decoder is the generated one. -/
theorem erase_decodeXdrLogged (fuel : ℕ) (type : RustType) :
    (decodeXdrLogged items fuel type).erase = decodeXdr items fuel type := by
  rw [decodeXdrLogged, erase_decodeTypeLogged, funext (erase_decodeNamedLogged fuel)]
  rfl

/-! ## What stands in front of a vector -/

variable (items)

/-- Bytes that the decoder of a type accepts as a whole. -/
def Admits (fuel : ℕ) (type : RustType) (b : Bytes) : Prop :=
  ∃ value, decodeXdr items fuel type b = some (.ok value, [])

/-- Bytes that the decoder of a field accepts as a whole. -/
def AcceptsField (fuel : ℕ) (field : RustField) (b : Bytes) : Prop :=
  ∃ value, decodeField items (decodeXdr items fuel) field b = some (.ok value, [])

/-- The field that a union has behind a discriminant. -/
def RustUnion.fieldBehind (body : RustUnion) (discriminant : Value) : Option RustField :=
  match body.arms.find? fun arm => arm.pattern.covers items discriminant with
  | some arm => arm.field
  | none =>
    match body.fallback with
    | .default field => field
    | .invalidEnum | .none => none

/-- What is decoded. -/
inductive DecodeForm where
  | type (type : RustType)
  | field (field : RustField)
  | item (item : RustItem)

/-- The bytes in front of the length of a vector: complete encodings of what precedes it, and the
lengths of the vectors and the marks of the optional data it is in. -/
inductive Front : ℕ → DecodeForm → Bytes → RustType → Prop where
  | vec {fuel : ℕ} {element : RustType} {bound : Option ValueExpr} :
    Front fuel (.type (.vec element bound)) [] element
  | element {fuel : ℕ} {element e : RustType} {bound : Option ValueExpr} {n : UInt32}
      {encodings : List Bytes} {c : Bytes} : encodings.length < n.toNat →
    (∀ b ∈ encodings, Admits items fuel element b) → Front fuel (.type element) c e →
    Front fuel (.type (.vec element bound)) (beBytes n ++ (encodings.flatten ++ c)) e
  | present {fuel : ℕ} {element e : RustType} {c : Bytes} : Front fuel (.type element) c e →
    Front fuel (.type (.optionBox element)) (beBytes (boolWord true) ++ c) e
  | slot {fuel : ℕ} {element e : RustType} {len : ValueExpr} {count : ℕ}
      {encodings : List Bytes} {c : Bytes} : arrayLen items len = some count →
    isByte items element = false → encodings.length < count →
    (∀ b ∈ encodings, Admits items fuel element b) → Front fuel (.type element) c e →
    Front fuel (.type (.array element len)) (encodings.flatten ++ c) e
  | named {fuel : ℕ} {name : String} {item : RustItem} {c : Bytes} {e : RustType} :
    findType items name = some item → Front fuel (.item item) c e →
    Front (fuel + 1) (.type (.named name)) c e
  | decoded {fuel : ℕ} {field : RustField} {type e : RustType} {c : Bytes} :
    field.decode = .decodeXdr type → Front fuel (.type type) c e → Front fuel (.field field) c e
  | fixed {fuel : ℕ} {field : RustField} {element e : RustType} {len : ValueExpr} {count : ℕ}
      {encodings : List Bytes} {c : Bytes} : field.decode = .decodeFixedArray element len →
    arrayLen items len = some count → encodings.length < count →
    (∀ b ∈ encodings, Admits items fuel element b) → Front fuel (.type element) c e →
    Front fuel (.field field) (encodings.flatten ++ c) e
  | typeAlias {fuel : ℕ} {name : String} {type e : RustType} {c : Bytes} :
    Front fuel (.type type) c e → Front fuel (.item (.typeAlias name type)) c e
  | struct {fuel : ℕ} {name : String} {before after : List RustField} {field : RustField}
      {encodings : List Bytes} {c : Bytes} {e : RustType} :
    List.Forall₂ (AcceptsField items fuel) before encodings → Front fuel (.field field) c e →
    Front fuel (.item (.struct name (before ++ field :: after))) (encodings.flatten ++ c) e
  | discriminant {fuel : ℕ} {name : String} {body : RustUnion} {c : Bytes} {e : RustType} :
    Front fuel (.type body.decodeType) c e → Front fuel (.item (.union name body)) c e
  | arm {fuel : ℕ} {name : String} {body : RustUnion} {field : RustField} {d : Value}
      {b c : Bytes} {e : RustType} :
    decodeXdr items fuel body.decodeType b = some (.ok d, []) →
    body.fieldBehind items d = some field → Front fuel (.field field) c e →
    Front fuel (.item (.union name body)) (b ++ c) e

/-- The decoder of a form, with its log. -/
def DecodeForm.logged (fuel : ℕ) : DecodeForm → LoggedDecoder Value
  | .type t => decodeXdrLogged items fuel t
  | .field f => decodeFieldLogged items (decodeXdrLogged items fuel) f
  | .item i => decodeItemLogged items (decodeXdrLogged items fuel) i

variable {items}

/-! ## The words and the marks -/

/-- A word is read exactly from the bytes it is written as. -/
theorem readXdrU32_eq_ok_iff {input rest : Bytes} {w : UInt32} :
    readXdrU32 input = some (.ok w, rest) ↔ input = beBytes w ++ rest := by
  constructor
  · intro h
    obtain ⟨b, mid, hb, hpure⟩ := bind_eq_ok_iff.mp h
    obtain ⟨rfl, rfl⟩ := pure_eq_ok_iff.mp hpure
    obtain ⟨rfl, hlength⟩ := readExactXdr_eq_ok_iff.mp hb
    rw [beBytes_wordOf hlength]
  · rintro rfl
    exact readXdrU32_beBytes w rest

/-- A boolean is read exactly from the word it is written as. -/
theorem decodeBool_eq_ok_iff {input rest : Bytes} {b : Bool} :
    decodeBool input = some (.ok b, rest) ↔ input = beBytes (boolWord b) ++ rest := by
  constructor
  · intro h
    obtain ⟨w, mid, hw, hrest⟩ := bind_eq_ok_iff.mp h
    obtain rfl := readXdrU32_eq_ok_iff.mp hw
    split at hrest
    · next hzero =>
      obtain ⟨rfl, rfl⟩ := pure_eq_ok_iff.mp hrest
      rw [hzero]
      rfl
    split at hrest
    · next hone =>
      obtain ⟨rfl, rfl⟩ := pure_eq_ok_iff.mp hrest
      rw [hone]
      rfl
    · cases hrest
  · rintro rfl
    exact decodeBool_boolWord b rest

/-! ## What is logged -/

variable (items) in
/-- An entry is about a vector behind some bytes of the input. -/
def LoggedAt (fuel : ℕ) (form : DecodeForm) (input : Bytes) (r : Reservation) : Prop :=
  ∃ c n rest, input = c ++ (beBytes n ++ rest) ∧ Front items fuel form c r.element ∧
    r.capacity = n.toNat ∧ r.remaining = rest.length

/-- Bytes in front of an encoding with a vector in it. -/
theorem LoggedAt.append {fuel : ℕ} {form form' : DecodeForm} {front input : Bytes}
    {r : Reservation} (h : LoggedAt items fuel form input r)
    (hfront : ∀ c, Front items fuel form c r.element →
      Front items fuel form' (front ++ c) r.element) :
    LoggedAt items fuel form' (front ++ input) r := by
  obtain ⟨c, n, rest, rfl, hc, hcapacity, hremaining⟩ := h
  exact ⟨front ++ c, n, rest, (List.append_assoc _ _ _).symm, hfront c hc, hcapacity, hremaining⟩

/-- The same bytes in front of a vector, seen from another form. -/
theorem LoggedAt.imp {fuel fuel' : ℕ} {form form' : DecodeForm} {input : Bytes}
    {r : Reservation} (h : LoggedAt items fuel form input r)
    (hfront : ∀ c, Front items fuel form c r.element → Front items fuel' form' c r.element) :
    LoggedAt items fuel' form' input r := by
  obtain ⟨c, n, rest, rfl, hc, hcapacity, hremaining⟩ := h
  exact ⟨c, n, rest, rfl, hfront c hc, hcapacity, hremaining⟩

section Step

variable {fuel : ℕ} {element : RustType} {input : Bytes} {r : Reservation}

/-- An entry in repetitions is one of an element, behind complete elements. -/
theorem mem_entries_elements {count : ℕ} :
    r ∈ ((decodeXdrLogged items fuel element).times count).entries input ↔
      ∃ (encodings : List Bytes) (rest : Bytes), input = encodings.flatten ++ rest ∧
        encodings.length < count ∧ (∀ b ∈ encodings, Admits items fuel element b) ∧
        r ∈ (decodeXdrLogged items fuel element).entries rest := by
  rw [Logged.mem_entries_times, erase_decodeXdrLogged]
  have hincremental := decodeXdr_incremental items fuel element
  constructor
  · rintro ⟨k, hk, values, rest, hvalues, hr⟩
    obtain ⟨encodings, rfl, rfl, haccepts⟩ := hincremental.exists_times_iff.mp ⟨values, hvalues⟩
    exact ⟨encodings, rest, rfl, hk, haccepts, hr⟩
  · rintro ⟨encodings, rest, rfl, hk, haccepts, hr⟩
    obtain ⟨values, hvalues⟩ := hincremental.exists_times_iff.mpr ⟨encodings, rfl, rfl, haccepts⟩
    exact ⟨_, hk, values, rest, hvalues, hr⟩

/-- A vector logs its own length, and what its elements log. -/
theorem mem_entries_decodeVecLogged {α : Type} {d : LoggedDecoder α} :
    r ∈ (decodeVecLogged element d).entries input ↔
      ∃ n rest, input = beBytes n ++ rest ∧
        (r = ⟨element, n.toNat, rest.length⟩ ∨ r ∈ (d.times n.toNat).entries rest) := by
  rw [decodeVecLogged, Logged.mem_entries_lift_bind]
  have hinner (n : UInt32) (rest : Bytes) : (r ∈ Logged.entries (do
        Logged.log fun rest => (⟨element, n.toNat, rest.length⟩ : Reservation)
        d.times n.toNat) rest) ↔
      r = ⟨element, n.toNat, rest.length⟩ ∨ r ∈ (d.times n.toNat).entries rest := by
    rw [Logged.mem_entries_bind, Logged.entries_log, List.mem_singleton, Logged.erase_log]
    refine or_congr Iff.rfl ⟨?_, fun h => ⟨(), rest, rfl, h⟩⟩
    rintro ⟨_, mid, hpure, h⟩
    obtain ⟨-, rfl⟩ := pure_eq_ok_iff.mp hpure
    exact h
  exact exists₂_congr fun n rest => and_congr readXdrU32_eq_ok_iff (hinner n rest)

/-- Optional data logs what it has. -/
theorem mem_entries_decodeOptionLogged {d : LoggedDecoder Value} :
    r ∈ (decodeOptionLogged d).entries input ↔
      ∃ rest, input = beBytes (boolWord true) ++ rest ∧ r ∈ d.entries rest := by
  rw [decodeOptionLogged, Logged.mem_entries_lift_bind]
  constructor
  · rintro ⟨present, rest, hbool, h⟩
    rcases present with _ | _
    · cases h
    · rw [if_pos rfl, Logged.entries_map] at h
      exact ⟨rest, decodeBool_eq_ok_iff.mp hbool, h⟩
  · rintro ⟨rest, hinput, h⟩
    refine ⟨true, rest, decodeBool_eq_ok_iff.mpr hinput, ?_⟩
    rw [if_pos rfl, Logged.entries_map]
    exact h

/-- The logged decoder of a `Vec` type. -/
theorem decodeXdrLogged_vec (bound : Option ValueExpr) :
    decodeXdrLogged items fuel (.vec element bound) =
      decodeVecLogged element (decodeXdrLogged items fuel element) >>= fun values =>
        pure (.vec values) := rfl

/-- The logged decoder of an optional type. -/
theorem decodeXdrLogged_optionBox : decodeXdrLogged items fuel (.optionBox element) =
    decodeOptionLogged (decodeXdrLogged items fuel element) >>= fun value =>
      pure (.option value) := rfl

/-- The logged decoder of a fixed array whose length is known. -/
theorem decodeXdrLogged_array {len : ValueExpr} {count : ℕ}
    (hlen : arrayLen items len = some count) (hbyte : isByte items element = false) :
    decodeXdrLogged items fuel (.array element len) =
      (decodeXdrLogged items fuel element).times count >>= fun values =>
        pure (.array values) := by
  rw [decodeXdrLogged, decodeTypeLogged, hlen]
  dsimp only
  rw [hbyte]
  rfl

/-- A named type logs what its item does. -/
theorem decodeXdrLogged_named {name : String} {item : RustItem}
    (h : findType items name = some item) :
    decodeXdrLogged items (fuel + 1) (.named name) =
      decodeItemLogged items (decodeXdrLogged items fuel) item := by
  change decodeNamedLogged items (fuel + 1) name = _
  rw [decodeNamedLogged, h]
  rfl

/-- A union logs what its discriminant does and what the field behind it does. -/
theorem mem_entries_union {name : String} {body : RustUnion} :
    r ∈ (decodeItemLogged items (decodeXdrLogged items fuel) (.union name body)).entries input ↔
      r ∈ (decodeXdrLogged items fuel body.decodeType).entries input ∨
        ∃ d b rest field, input = b ++ rest ∧
          decodeXdr items fuel body.decodeType b = some (.ok d, []) ∧
          body.fieldBehind items d = some field ∧
          r ∈ (decodeFieldLogged items (decodeXdrLogged items fuel) field).entries rest := by
  have harm (d : Value) (rest : Bytes) :
      (decodeArmLogged items (decodeXdrLogged items fuel) body d).entries rest =
        (decodeVariantFieldLogged items (decodeXdrLogged items fuel)
          (body.fieldBehind items d)).entries rest := by
    unfold decodeArmLogged RustUnion.fieldBehind
    generalize body.arms.find? _ = found
    rcases found with _ | arm
    · rcases body.fallback with field | _ | _
      · exact Logged.entries_map _ _ rest
      all_goals rfl
    · exact Logged.entries_map _ _ rest
  have hincremental := decodeXdr_incremental items fuel body.decodeType
  rw [decodeItemLogged, Logged.mem_entries_bind, erase_decodeXdrLogged]
  refine or_congr Iff.rfl ⟨?_, ?_⟩
  · rintro ⟨d, rest, hd, hr⟩
    obtain ⟨b, rfl, hb⟩ := hincremental.eq_ok_iff.mp hd
    rw [harm] at hr
    rcases hfield : body.fieldBehind items d with _ | field
    · rw [hfield] at hr
      cases hr
    · rw [hfield, decodeVariantFieldLogged, Logged.entries_map] at hr
      exact ⟨d, b, rest, field, rfl, hb, hfield, hr⟩
  · rintro ⟨d, b, rest, field, rfl, hb, hfield, hr⟩
    refine ⟨d, rest, hincremental.eq_ok_iff.mpr ⟨b, rfl, hb⟩, ?_⟩
    rw [harm, hfield, decodeVariantFieldLogged, Logged.entries_map]
    exact hr

/-- A structure logs what its fields do, each behind those in front of it. -/
theorem mem_entries_struct {name : String} {fields : List RustField} :
    r ∈ (decodeItemLogged items (decodeXdrLogged items fuel) (.struct name fields)).entries input ↔
      ∃ before field after encodings rest, fields = before ++ field :: after ∧
        input = encodings.flatten ++ rest ∧
        List.Forall₂ (AcceptsField items fuel) before encodings ∧
        r ∈ (decodeFieldLogged items (decodeXdrLogged items fuel) field).entries rest := by
  have hincremental (field : RustField) :=
    decodeField_incremental items (decodeXdr_incremental items fuel) field
  have herase (field : RustField) :
      (decodeFieldLogged items (decodeXdrLogged items fuel) field).erase =
        decodeField items (decodeXdr items fuel) field := by
    rw [erase_decodeFieldLogged, funext (erase_decodeXdrLogged fuel)]
  rw [decodeItemLogged, Logged.entries_map, Logged.mem_entries_each, funext herase]
  constructor
  · rintro ⟨before, field, after, values, rest, rfl, hvalues, hr⟩
    obtain ⟨encodings, rfl, haccepts⟩ :=
      (Incremental.exists_each_iff hincremental).mp ⟨values, hvalues⟩
    exact ⟨before, field, after, encodings, rest, rfl, rfl, haccepts, hr⟩
  · rintro ⟨before, field, after, encodings, rest, rfl, rfl, haccepts, hr⟩
    obtain ⟨values, hvalues⟩ :=
      (Incremental.exists_each_iff hincremental).mpr ⟨encodings, rfl, haccepts⟩
    exact ⟨before, field, after, values, rest, rfl, hvalues, hr⟩

end Step

/-! ## Every entry is about a vector of the input -/

section Sound

variable {fuel : ℕ} {input : Bytes} {r : Reservation}

/-- What is logged inside a run of elements is logged at a front of the whole form. -/
theorem LoggedAt.of_elements {element : RustType} {count : ℕ} {form : DecodeForm}
    (front : Bytes) (ih : ∀ {input}, r ∈ (decodeXdrLogged items fuel element).entries input →
      LoggedAt items fuel (.type element) input r)
    (h : r ∈ ((decodeXdrLogged items fuel element).times count).entries input)
    (hfront : ∀ (encodings : List Bytes) c, encodings.length < count →
      (∀ b ∈ encodings, Admits items fuel element b) →
      Front items fuel (.type element) c r.element →
      Front items fuel form (front ++ (encodings.flatten ++ c)) r.element) :
    LoggedAt items fuel form (front ++ input) r := by
  obtain ⟨encodings, rest, rfl, hcount, haccepts, hr⟩ := mem_entries_elements.mp h
  have hrest := ih hr
  rw [← List.append_assoc]
  refine hrest.append fun c hc => ?_
  rw [List.append_assoc]
  exact hfront encodings c hcount haccepts hc

/-- An entry of the decoder of a type is about a vector of the input. -/
theorem LoggedAt.of_mem_type
    (hnamed : ∀ {name input}, r ∈ (decodeNamedLogged items fuel name).entries input →
      LoggedAt items fuel (.type (.named name)) input r)
    {type : RustType} (h : r ∈ (decodeXdrLogged items fuel type).entries input) :
    LoggedAt items fuel (.type type) input r := by
  induction type generalizing input with
  | vec element bound ih =>
    rw [decodeXdrLogged_vec, Logged.entries_map] at h
    obtain ⟨n, rest, rfl, rfl | hr⟩ := mem_entries_decodeVecLogged.mp h
    · exact ⟨[], n, rest, rfl, .vec, rfl, rfl⟩
    · exact .of_elements _ ih hr fun encodings c hlt haccepts hc => .element hlt haccepts hc
  | optionBox element ih =>
    rw [decodeXdrLogged_optionBox, Logged.entries_map] at h
    obtain ⟨rest, rfl, hr⟩ := mem_entries_decodeOptionLogged.mp h
    exact (ih hr).append fun c hc => .present hc
  | array element len ih =>
    rcases hlen : arrayLen items len with _ | count
    · rw [decodeXdrLogged, decodeTypeLogged, hlen] at h
      cases h
    · rcases hbyte : isByte items element
      · rw [decodeXdrLogged_array hlen hbyte, Logged.entries_map] at h
        exact .of_elements [] ih h fun encodings c hlt haccepts hc =>
          .slot hlen hbyte hlt haccepts hc
      · rw [decodeXdrLogged, decodeTypeLogged, hlen] at h
        dsimp only at h
        rw [hbyte, if_pos rfl, Logged.entries_map] at h
        cases h
  | named name => exact hnamed h
  | _ => cases h

/-- What is logged inside a field is logged at a front of the field. -/
theorem LoggedAt.of_mem_field
    (htype : ∀ {type input}, r ∈ (decodeXdrLogged items fuel type).entries input →
      LoggedAt items fuel (.type type) input r)
    {field : RustField}
    (h : r ∈ (decodeFieldLogged items (decodeXdrLogged items fuel) field).entries input) :
    LoggedAt items fuel (.field field) input r := by
  unfold decodeFieldLogged at h
  rcases hdecode : field.decode with type | ⟨element, len⟩
  · rw [hdecode] at h
    exact (htype h).imp fun c hc => .decoded hdecode hc
  · rw [hdecode] at h
    rcases hlen : arrayLen items len with _ | count
    · simp only [hlen] at h
      cases h
    · simp only [hlen] at h
      rw [Logged.entries_map] at h
      exact .of_elements [] htype h fun encodings c hlt haccepts hc =>
        .fixed hdecode hlen hlt haccepts hc

/-- What is logged inside a declared type is logged at a front of the declaration. -/
theorem LoggedAt.of_mem_item
    (htype : ∀ {type input}, r ∈ (decodeXdrLogged items fuel type).entries input →
      LoggedAt items fuel (.type type) input r)
    {item : RustItem}
    (h : r ∈ (decodeItemLogged items (decodeXdrLogged items fuel) item).entries input) :
    LoggedAt items fuel (.item item) input r := by
  rcases item with _ | ⟨_, type⟩ | ⟨_, fields⟩ | _ | ⟨_, body⟩
  case typeAlias => exact (htype h).imp fun c hc => .typeAlias hc
  case struct =>
    obtain ⟨before, field, after, encodings, rest, rfl, rfl, haccepts, hr⟩ :=
      mem_entries_struct.mp h
    exact (LoggedAt.of_mem_field htype hr).append fun c hc => .struct haccepts hc
  case union =>
    rcases mem_entries_union.mp h with hfirst | ⟨d, b, rest, field, rfl, hd, hfield, hr⟩
    · exact (htype hfirst).imp fun c hc => .discriminant hc
    · exact (LoggedAt.of_mem_field htype hr).append fun c hc => .arm hd hfield hc
  all_goals cases h

/-- Every entry of the log of a named type stands behind a front of that type. -/
theorem LoggedAt.of_mem_named {name : String}
    (h : r ∈ (decodeNamedLogged items fuel name).entries input) :
    LoggedAt items fuel (.type (.named name)) input r := by
  induction fuel generalizing name input with
  | zero => cases h
  | succ fuel ih =>
    rcases hfound : findType items name with _ | item
    · rw [decodeNamedLogged, hfound] at h
      cases h
    · have hitem : r ∈ (decodeXdrLogged items (fuel + 1) (.named name)).entries input := h
      rw [decodeXdrLogged_named hfound] at hitem
      exact (LoggedAt.of_mem_item (LoggedAt.of_mem_type ih) hitem).imp fun c hc =>
        .named hfound hc

end Sound

/-! ## Every vector of the input has an entry -/

/-- Where a vector stands behind the bytes in front of it, its decoder reserves for it. -/
theorem Front.mem_entries {fuel : ℕ} {form : DecodeForm} {c : Bytes} {e : RustType}
    (h : Front items fuel form c e) (n : UInt32) (rest : Bytes) :
    ⟨e, n.toNat, rest.length⟩ ∈ (form.logged items fuel).entries (c ++ (beBytes n ++ rest)) := by
  induction h with
  | @vec fuel element bound =>
    change _ ∈ (decodeXdrLogged items fuel (.vec element bound)).entries _
    rw [decodeXdrLogged_vec, Logged.entries_map]
    exact mem_entries_decodeVecLogged.mpr ⟨n, rest, rfl, .inl rfl⟩
  | @element fuel element e bound m encodings c hlt haccepts hc ih =>
    change _ ∈ (decodeXdrLogged items fuel (.vec element bound)).entries _
    rw [decodeXdrLogged_vec, Logged.entries_map, List.append_assoc, List.append_assoc]
    exact mem_entries_decodeVecLogged.mpr ⟨m, _, rfl, .inr
      (mem_entries_elements.mpr ⟨encodings, _, rfl, hlt, haccepts, ih⟩)⟩
  | @present fuel element e c hc ih =>
    change _ ∈ (decodeXdrLogged items fuel (.optionBox element)).entries _
    rw [decodeXdrLogged_optionBox, Logged.entries_map, List.append_assoc]
    exact mem_entries_decodeOptionLogged.mpr ⟨_, rfl, ih⟩
  | @slot fuel element e len count encodings c hlen hbyte hlt haccepts hc ih =>
    change _ ∈ (decodeXdrLogged items fuel (.array element len)).entries _
    rw [decodeXdrLogged_array hlen hbyte, Logged.entries_map, List.append_assoc]
    exact mem_entries_elements.mpr ⟨encodings, _, rfl, hlt, haccepts, ih⟩
  | @named fuel name item c e hfound hc ih =>
    change _ ∈ (decodeXdrLogged items (fuel + 1) (.named name)).entries _
    rw [decodeXdrLogged_named hfound]
    exact ih
  | @decoded fuel field type e c hdecode hc ih =>
    change _ ∈ (decodeFieldLogged items (decodeXdrLogged items fuel) field).entries _
    unfold decodeFieldLogged
    rw [hdecode]
    exact ih
  | @fixed fuel field element e len count encodings c hdecode hlen hlt haccepts hc ih =>
    change _ ∈ (decodeFieldLogged items (decodeXdrLogged items fuel) field).entries _
    unfold decodeFieldLogged
    simp only [hdecode, hlen]
    rw [Logged.entries_map, List.append_assoc]
    exact mem_entries_elements.mpr ⟨encodings, _, rfl, hlt, haccepts, ih⟩
  | typeAlias hc ih => exact ih
  | @struct fuel name before after field encodings c e haccepts hc ih =>
    change _ ∈ (decodeItemLogged items (decodeXdrLogged items fuel) (.struct name _)).entries _
    rw [List.append_assoc]
    exact mem_entries_struct.mpr ⟨before, field, after, encodings, _, rfl, rfl, haccepts, ih⟩
  | @discriminant fuel name body c e hc ih =>
    change _ ∈ (decodeItemLogged items (decodeXdrLogged items fuel) (.union name body)).entries _
    exact mem_entries_union.mpr (.inl ih)
  | @arm fuel name body field d b c e hd hfield hc ih =>
    change _ ∈ (decodeItemLogged items (decodeXdrLogged items fuel) (.union name body)).entries _
    rw [List.append_assoc]
    exact mem_entries_union.mpr (.inr ⟨d, b, _, field, rfl, hd, hfield, ih⟩)

/-- What is reserved on an input: room for the lengths of its vectors. -/
theorem mem_reservations_iff {fuel : ℕ} {type : RustType} {input : Bytes} {r : Reservation} :
    r ∈ reservations items fuel type input ↔ LoggedAt items fuel (.type type) input r := by
  constructor
  · exact LoggedAt.of_mem_type LoggedAt.of_mem_named
  · obtain ⟨element, capacity, remaining⟩ := r
    rintro ⟨c, n, rest, rfl, hc, rfl, rfl⟩
    exact hc.mem_entries n rest

/-! ## Inputs that are accepted -/

section Accepted

open Logged (Sure)

/-- So many elements that take bytes take as many bytes. -/
theorem le_length_of_times {fuel : ℕ} {element : RustType} (htakes : TakesBytes items element)
    {n : ℕ} {input rest : Bytes} {values : List Value}
    (h : (decodeXdr items fuel element).times n input = some (.ok values, rest)) :
    n ≤ input.length := by
  have hincremental := decodeXdr_incremental items fuel element
  obtain ⟨encodings, rfl, rfl, haccepts⟩ := hincremental.exists_times_iff.mp ⟨values, h⟩
  have hpos (len : ℕ) (hlen : len ∈ encodings.map List.length) : 1 ≤ len := by
    obtain ⟨b, hb, rfl⟩ := List.mem_map.mp hlen
    obtain ⟨value, hvalue⟩ := haccepts b hb
    refine List.length_pos_of_ne_nil fun hempty => ?_
    rw [hempty] at hvalue
    exact htakes fuel value [] hvalue
  have hsum := List.length_le_sum_of_one_le _ hpos
  rw [List.length_map, ← List.length_flatten] at hsum
  rw [List.length_append]
  omega

/-- A `Vec` reserves within the input, if its elements do. -/
theorem sure_decodeVecLogged {fuel : ℕ} {element : RustType}
    (h : Sure (Reservation.Within items) (decodeXdrLogged items fuel element)) :
    Sure (Reservation.Within items)
      (decodeVecLogged element (decodeXdrLogged items fuel element)) := by
  intro input values rest hrun r hr
  rw [erase_decodeVecLogged, erase_decodeXdrLogged] at hrun
  obtain ⟨n, mid, hword, hvalues⟩ := bind_eq_ok_iff.mp hrun
  obtain rfl := readXdrU32_eq_ok_iff.mp hword
  obtain ⟨n', mid', hinput, rfl | hr⟩ := mem_entries_decodeVecLogged.mp hr
  · obtain ⟨rfl, rfl⟩ := beBytes_append_inj.mp hinput
    exact fun htakes => le_length_of_times htakes hvalues
  · obtain ⟨rfl, rfl⟩ := beBytes_append_inj.mp hinput
    refine h.times _ mid values rest ?_ r hr
    rw [Logged.erase_times, erase_decodeXdrLogged]
    exact hvalues

/-- Every type reserves within the input, if the named types do. -/
theorem sure_decodeTypeLogged {fuel : ℕ}
    (hnamed : ∀ name, Sure (Reservation.Within items) (decodeNamedLogged items fuel name))
    (type : RustType) : Sure (Reservation.Within items) (decodeXdrLogged items fuel type) := by
  induction type with
  | vec element bound ih => exact (sure_decodeVecLogged ih).map _
  | optionBox element ih =>
    refine Sure.map ?_ _
    refine (Sure.lift decodeBool).bind fun present => ?_
    rcases present with _ | _
    · exact .pure none
    · exact ih.map some
  | array element len ih =>
    rw [decodeXdrLogged, decodeTypeLogged]
    split
    · exact .lift _
    split
    · exact (Sure.lift _).map _
    · exact (ih.times _).map _
  | named name => exact hnamed name
  | _ => exact .lift _

/-- Every field reserves within the input, if the types do. -/
theorem sure_decodeFieldLogged {fuel : ℕ}
    (htype : ∀ type, Sure (Reservation.Within items) (decodeXdrLogged items fuel type))
    (field : RustField) :
    Sure (Reservation.Within items)
      (decodeFieldLogged items (decodeXdrLogged items fuel) field) := by
  unfold decodeFieldLogged
  split
  · exact htype _
  split
  · exact .lift _
  · exact ((htype _).times _).map _

/-- Every declared type reserves within the input, if the types do. -/
theorem sure_decodeItemLogged {fuel : ℕ}
    (htype : ∀ type, Sure (Reservation.Within items) (decodeXdrLogged items fuel type))
    (item : RustItem) :
    Sure (Reservation.Within items) (decodeItemLogged items (decodeXdrLogged items fuel) item) := by
  have hfield (field : Option RustField) : Sure (Reservation.Within items)
      (decodeVariantFieldLogged items (decodeXdrLogged items fuel) field) := by
    rcases field with _ | field
    · exact .pure none
    · exact (sure_decodeFieldLogged htype field).map some
  rcases item with _ | ⟨_, type⟩ | ⟨_, fields⟩ | _ | ⟨_, body⟩
  case typeAlias => exact htype type
  case struct =>
    have hfields := Sure.each fun field (_ : field ∈ fields) => sure_decodeFieldLogged htype field
    exact hfields.map _
  case union =>
    refine (htype _).bind fun d => ?_
    unfold decodeArmLogged
    split
    · exact (hfield _).map _
    split
    · exact (hfield _).map _
    · exact .lift _
    · exact .lift _
  all_goals exact .lift _

/-- Every named type reserves within the input, whatever the fuel. -/
theorem sure_decodeNamedLogged (fuel : ℕ) (name : String) :
    Sure (Reservation.Within items) (decodeNamedLogged items fuel name) := by
  induction fuel generalizing name with
  | zero => exact .lift _
  | succ fuel ih =>
    unfold decodeNamedLogged
    split
    · exact sure_decodeItemLogged (sure_decodeTypeLogged ih) _
    · exact .lift _

end Accepted

/-! ## Credentials -/

namespace AuthSys

/-- Read the fields of credentials. -/
def decodeFieldsLogged : LoggedDecoder AuthSys := do
  let stamp ← Logged.lift readXdrU32
  let machineName ← Logged.lift decodeString
  let uid ← Logged.lift readXdrU32
  let gid ← Logged.lift readXdrU32
  let gids ← decodeVecLogged .u32 (Logged.lift readXdrU32)
  return ⟨stamp, machineName, uid, gid, gids⟩

/-- What is reserved for a blob. -/
def reservations (auth : OpaqueAuth) : List Reservation :=
  if auth.flavor ≠ .sys then [] else decodeFieldsLogged.entries auth.body

/-- The bytes in front of the groups: the stamp, the name with its padding, the user and the
group. -/
def Front (c : Bytes) : Prop :=
  ∃ (stamp uid gid : UInt32) (name pad : Bytes), name.length < 2 ^ 32 ∧
    pad.length = xdrPadding name.length ∧ (fromUtf8 name).isSome ∧
    c = beBytes stamp ++ (beBytes (lengthWord name.length) ++ (name ++ pad) ++
      (beBytes uid ++ beBytes gid))

/-- Without its log the decoder is that of the credentials. -/
theorem erase_decodeFieldsLogged : decodeFieldsLogged.erase = decodeFields := by
  simp only [decodeFieldsLogged, Logged.erase_bind, Logged.erase_lift, erase_decodeVecLogged]
  rfl

/-- Variable opaque data is read exactly from its length, its bytes and padding. -/
theorem readVariableOpaque_eq_ok_iff {input b rest : Bytes} :
    readVariableOpaque input = some (.ok b, rest) ↔ b.length < 2 ^ 32 ∧
      ∃ pad : Bytes, pad.length = xdrPadding b.length ∧
        input = beBytes (lengthWord b.length) ++ (b ++ pad) ++ rest := by
  constructor
  · intro h
    obtain ⟨len, mid, hlen, hfixed⟩ := bind_eq_ok_iff.mp h
    obtain rfl := readXdrU32_eq_ok_iff.mp hlen
    obtain ⟨b', mid', hb, hpadding⟩ := bind_eq_ok_iff.mp hfixed
    obtain ⟨rfl, hlength⟩ := readExactXdr_eq_ok_iff.mp hb
    obtain ⟨_, mid'', hpad, hpure⟩ := bind_eq_ok_iff.mp hpadding
    obtain ⟨rfl, rfl⟩ := pure_eq_ok_iff.mp hpure
    rw [discardPadding_eq] at hpad
    obtain ⟨pad, mid₃, hpad, hunit⟩ := bind_eq_ok_iff.mp hpad
    obtain ⟨-, rfl⟩ := pure_eq_ok_iff.mp hunit
    obtain ⟨rfl, hpadLength⟩ := readExactXdr_eq_ok_iff.mp hpad
    have hword : lengthWord b.length = len := by
      rw [lengthWord, hlength, UInt32.ofNat_toNat]
    refine ⟨hlength ▸ len.toNat_lt, pad, hlength ▸ hpadLength, ?_⟩
    rw [hword, List.append_assoc, List.append_assoc]
  · rintro ⟨hlength, pad, hpad, rfl⟩
    rw [readVariableOpaque, List.append_assoc, bind_of_ok (readXdrU32_beBytes _ _),
      toNat_lengthWord hlength]
    exact readFixedOpaque_append hpad rest

/-- A string is read exactly from its length, its UTF-8 bytes and padding. -/
theorem decodeString_eq_ok_iff {input rest : Bytes} {s : String} :
    decodeString input = some (.ok s, rest) ↔ ∃ name pad : Bytes, name.length < 2 ^ 32 ∧
      pad.length = xdrPadding name.length ∧ fromUtf8 name = some s ∧
      input = beBytes (lengthWord name.length) ++ (name ++ pad) ++ rest := by
  constructor
  · intro h
    obtain ⟨name, mid, hname, htext⟩ := bind_eq_ok_iff.mp h
    obtain ⟨hlength, pad, hpad, rfl⟩ := readVariableOpaque_eq_ok_iff.mp hname
    rcases hs : fromUtf8 name with _ | s'
    · rw [hs] at htext
      cases htext
    · rw [hs] at htext
      obtain ⟨rfl, rfl⟩ := pure_eq_ok_iff.mp htext
      exact ⟨name, pad, hlength, hpad, hs, rfl⟩
  · rintro ⟨name, pad, hlength, hpad, hs, rfl⟩
    have hname : readVariableOpaque (beBytes (lengthWord name.length) ++ (name ++ pad) ++ rest) =
        some (.ok name, rest) := readVariableOpaque_eq_ok_iff.mpr ⟨hlength, pad, hpad, rfl⟩
    rw [decodeString, bind_of_ok hname, hs]
    rfl

/-- Room is reserved for the groups, behind the other fields. -/
theorem mem_entries_decodeFieldsLogged {body : Bytes} {r : Reservation} :
    r ∈ decodeFieldsLogged.entries body ↔ ∃ c n rest, body = c ++ (beBytes n ++ rest) ∧
      Front c ∧ r = ⟨.u32, n.toNat, rest.length⟩ := by
  have hgroups (stamp uid gid : UInt32) (name : String) (input : Bytes) :
      (r ∈ Logged.entries (do
        let gids ← decodeVecLogged .u32 (Logged.lift readXdrU32)
        return (⟨stamp, name, uid, gid, gids⟩ : AuthSys)) input) ↔
        ∃ n rest, input = beBytes n ++ rest ∧ r = ⟨.u32, n.toNat, rest.length⟩ := by
    rw [Logged.entries_map, mem_entries_decodeVecLogged]
    refine exists₂_congr fun n rest => and_congr Iff.rfl ?_
    rw [Logged.entries_times_lift]
    exact or_iff_left List.not_mem_nil
  simp only [decodeFieldsLogged, Logged.mem_entries_lift_bind, readXdrU32_eq_ok_iff,
    decodeString_eq_ok_iff, hgroups]
  constructor
  · rintro ⟨stamp, _, rfl, s, _, ⟨name, pad, hlength, hpad, hs, rfl⟩, uid, _, rfl, gid, _, rfl,
      n, rest, rfl, rfl⟩
    refine ⟨_, n, rest, ?_, ⟨stamp, uid, gid, name, pad, hlength, hpad, ?_, rfl⟩, rfl⟩
    · simp only [List.append_assoc]
    · rw [hs]
      rfl
  · rintro ⟨c, n, rest, rfl, ⟨stamp, uid, gid, name, pad, hlength, hpad, hsome, rfl⟩, rfl⟩
    obtain ⟨s, hs⟩ := Option.isSome_iff_exists.mp hsome
    refine ⟨stamp, _, ?_, s, _, ⟨name, pad, hlength, hpad, hs, rfl⟩, uid, _, rfl, gid, _, rfl,
      n, rest, rfl, rfl⟩
    simp only [List.append_assoc]

/-- For credentials nothing is reserved beyond the bytes that are left exactly if the number of
groups is not larger than the number of bytes behind it, where the body gets as far. -/
theorem groups_within_iff (auth : OpaqueAuth) :
    (∀ r ∈ reservations auth, r.capacity ≤ r.remaining) ↔ (auth.flavor = .sys →
      ∀ c n rest, auth.body = c ++ (beBytes n ++ rest) → Front c → n.toNat ≤ rest.length) := by
  unfold reservations
  split
  · next hflavor => exact iff_of_true (List.forall_mem_nil _) fun heq => absurd heq hflavor
  · next hflavor =>
    constructor
    · intro h _ c n rest hbody hc
      exact h _ (mem_entries_decodeFieldsLogged.mpr ⟨c, n, rest, hbody, hc, rfl⟩)
    · intro h r hr
      obtain ⟨c, n, rest, hbody, hc, rfl⟩ := mem_entries_decodeFieldsLogged.mp hr
      exact h (not_not.mp hflavor) c n rest hbody hc

end AuthSys

/-! ## The result -/

/-- On every input the decoder of a type reserves room for at most as many elements as bytes are
left behind their number, if elements take bytes, exactly if no number of elements that stands
behind complete encodings of what precedes it is larger than the number of bytes behind it; an input
that is accepted is such an input.  The same holds for the groups of credentials. -/
theorem reservations_within_iff (items : List RustItem) (fuel : ℕ) (type : RustType)
    (input : Bytes) (auth : OpaqueAuth) :
    ((∀ r ∈ reservations items fuel type input, r.Within items) ↔
      ∀ c element n rest, input = c ++ (beBytes n ++ rest) →
        Front items fuel (.type type) c element → TakesBytes items element →
          n.toNat ≤ rest.length) ∧
    (∀ value rest, decodeXdr items fuel type input = some (.ok value, rest) →
      ∀ r ∈ reservations items fuel type input, r.Within items) ∧
    ((∀ r ∈ AuthSys.reservations auth, r.capacity ≤ r.remaining) ↔ (auth.flavor = .sys →
      ∀ c n rest, auth.body = c ++ (beBytes n ++ rest) → AuthSys.Front c →
        n.toNat ≤ rest.length)) := by
  refine ⟨⟨?_, ?_⟩, ?_, AuthSys.groups_within_iff auth⟩
  · intro h c element n rest hinput hc htakes
    have hmem : ⟨element, n.toNat, rest.length⟩ ∈ reservations items fuel type input :=
      mem_reservations_iff.mpr ⟨c, n, rest, hinput, hc, rfl, rfl⟩
    exact h _ hmem htakes
  · intro h r hr htakes
    obtain ⟨c, n, rest, hinput, hc, hcapacity, hremaining⟩ := mem_reservations_iff.mp hr
    rw [hcapacity, hremaining]
    exact h c r.element n rest hinput hc htakes
  · intro value rest hvalue
    refine sure_decodeTypeLogged (sure_decodeNamedLogged fuel) type input value rest ?_
    rw [erase_decodeXdrLogged, hvalue]

/-- Four bytes ask for room for `2 ^ 32 - 1` numbers, with nothing left behind them. -/
theorem reservation_exceeds :
    ⟨.u32, 2 ^ 32 - 1, 0⟩ ∈ reservations [] 0 (.vec .u32 none) [255, 255, 255, 255] ∧
      ¬ ∀ r ∈ reservations [] 0 (.vec .u32 none) [255, 255, 255, 255], r.Within [] := by
  have hmem : ⟨.u32, 2 ^ 32 - 1, 0⟩ ∈
      reservations [] 0 (.vec .u32 none) [255, 255, 255, 255] :=
    Front.mem_entries (.vec : Front [] 0 (.type (.vec .u32 none)) [] .u32) 0xffffffff []
  refine ⟨hmem, fun h => ?_⟩
  have htakes : TakesBytes [] .u32 := by
    intro fuel value rest hvalue
    cases hvalue
  exact absurd (h _ hmem htakes) (by decide)

end OncRpc
