import OncRpc.Gen.Rust

/-!
# The meaning of generated code

`encodeXdr` and `decodeXdr` are what the codec implementations of generated items do.  An
implementation is found through the type of what is encoded or decoded.  The implementation of a
named type calls those of other names, also its own, so both take fuel: one unit for every name on
the way.  Without enough fuel there is no result; the same stands for code that does not compile,
such as the encoding of a value by the implementation of another type.

The words of the code, such as `u32`, are those of the runtime here.  Where the code hides one of
them with a type of its own, `readItems` puts that type in its place.
-/

namespace OncRpc

open Foundation

variable (items : List RustItem)

/-! ## Encoding -/

/-- The implementations for the types of the runtime; `named` has those of the generated items. -/
def encodeType (named : String → Value → XdrWrite) : RustType → Value → XdrWrite
  | .unit, .unit => .bytes []
  | .bool, .bool b => .bytes (beBytes (boolWord b))
  | .i32, .i32 x => .bytes (beBytes x.toUInt32)
  | .u32, .u32 x => .bytes (beBytes x)
  | .i64, .i64 x => .bytes (beBytes64 x.toUInt64)
  | .u64, .u64 x => .bytes (beBytes64 x)
  | .f32, .f32 bits => .bytes (beBytes bits)
  | .f64, .f64 bits => .bytes (beBytes64 bits)
  | .u8, .u8 x => .bytes [x]
  | .string _, .string s => .bytes (writeVariableOpaque (stringBytes s))
  | .bytes _, .bytes b => .bytes (writeVariableOpaque b)
  | .vec element _, .vec values => encodeVec (encodeType named element) values
  | .optionBox element, .option value => encodeOption (encodeType named element) value
  | .array element _, .array values =>
    -- The source takes the first byte of the encoding of each byte, which has no other.
    if isByte items element then
      (Write.each (encodeType named element) values).andThen (.bytes (padding values.length))
    else Write.each (encodeType named element) values
  | .named name, value => named name value
  | .opaqueSegments maximum, .opaqueSegments owners =>
    match (maximumLen items maximum).map fun maximum => checkedLen maximum owners with
    | some (.ok len) => .bytes (beBytes (lengthWord len) ++ owners.flatten ++ padding len)
    | some (.error error) => .fail error
    | none => .exhausted
  | _, _ => .exhausted

/-- The template of a field, under the implementations `encode`.  The length of a vector is cast to
the `u32` of the runtime, which code that is read by `readItems` does not hide. -/
def encodeField (encode : RustType → Value → XdrWrite) (field : RustField) (value : Value) :
    XdrWrite :=
  match field.encode, field.type, value with
  | .encodeXdr, type, value => encode type value
  | .lenThenEach, .vec element _, .vec values =>
    (Write.bytes (beBytes (lengthWord values.length))).andThen (Write.each (encode element) values)
  | .each, .array element _, .array values => Write.each (encode element) values
  | .writeFixedOpaque, .array _ _, .array values =>
    (Write.each (encode .u8) values).andThen (.bytes (padding values.length))
  | _, _, _ => .exhausted

/-- The fields of a structure, one after the other. -/
def encodeFields (encode : RustType → Value → XdrWrite) : List RustField → List Value → XdrWrite
  | [], [] => .bytes []
  | field :: fields, value :: values =>
    (encodeField encode field value).andThen (encodeFields encode fields values)
  | _, _ => .exhausted

/-- The discriminant of a variant: a number without a type of its own is an `i32`, and constants are
`i64`, both those of the runtime. -/
def encodeLabel : LabelExpr → XdrWrite
  | .bool b => .bytes (beBytes (boolWord b))
  | .variant enumName variant =>
    match enumValue items enumName variant with
    | some value => .bytes (beBytes (Int32.ofInt value).toUInt32)
    | none => .exhausted
  | .value (.number value) => .bytes (beBytes (Int32.ofInt value).toUInt32)
  | .value (.identifier name) =>
    match i64Value items (.identifier name) with
    | some value => .bytes (beBytes64 (Int64.ofInt value).toUInt64)
    | none => .exhausted
  | .discriminant => .exhausted

/-- The discriminant the default variant keeps. -/
def encodeDiscriminant : Value → XdrWrite
  | .bool b => .bytes (beBytes (boolWord b))
  | .i32 x => .bytes (beBytes x.toUInt32)
  | .u32 x => .bytes (beBytes x)
  | _ => .exhausted

/-- The field of a variant, if it has one. -/
def encodeVariantField (encode : RustType → Value → XdrWrite) :
    Option RustField → Option Value → XdrWrite
  | some field, some value => encodeField encode field value
  | none, none => .bytes []
  | _, _ => .exhausted

/-- The implementation of a generated item. -/
def encodeItem (encode : RustType → Value → XdrWrite) : RustItem → Value → XdrWrite
  | .typeAlias _ type, value => encode type value
  | .struct _ fields, .struct values => encodeFields encode fields values
  | .enum name _, .enum variant => encodeLabel items (.variant name variant)
  | .union _ body, .union variant discriminant field =>
    match body.variants.find? fun v => v.name = variant, discriminant with
    | some v, none =>
      if v.isDefault then .exhausted
      else (encodeLabel items v.label).andThen (encodeVariantField encode v.field field)
    | some v, some discriminant =>
      if v.isDefault then
        (encodeDiscriminant discriminant).andThen (encodeVariantField encode v.field field)
      else .exhausted
    | none, _ => .exhausted
  | _, _ => .exhausted

/-- The implementation of a named type. -/
def encodeNamed : ℕ → String → Value → XdrWrite
  | 0, _, _ => .exhausted
  | fuel + 1, name, value =>
    match findType items name with
    | some item => encodeItem items (encodeType items (encodeNamed fuel)) item value
    | none => .exhausted

/-- The encoding of a value. -/
def encodeXdr (fuel : ℕ) (type : RustType) (value : Value) : XdrWrite :=
  encodeType items (encodeNamed items fuel) type value

/-! ## Decoding -/

/-- The implementations for the types of the runtime; `named` has those of the generated items. -/
def decodeType (named : String → XdrDecoder Value) : RustType → XdrDecoder Value
  | .unit => pure .unit
  | .bool => do return .bool (← decodeBool)
  | .i32 => do return .i32 (← readXdrI32)
  | .u32 => do return .u32 (← readXdrU32)
  | .i64 => do return .i64 (← readXdrI64)
  | .u64 => do return .u64 (← readXdrU64)
  | .f32 => do return .f32 (← readXdrU32)
  | .f64 => do return .f64 (← readXdrU64)
  | .u8 => do return .u8 (← readXdrU8)
  | .string _ => do return .string (← decodeString)
  | .bytes _ => do return .bytes (← readVariableOpaque)
  | .vec element _ => do return .vec (← decodeVec (decodeType named element))
  | .optionBox element => do return .option (← decodeOption (decodeType named element))
  | .array element len =>
    match arrayLen items len with
    | none => Cursor.exhausted
    | some len =>
      -- An array of bytes is read as opaque data, and each element from its own byte.
      if isByte items element then do return .array ((← readFixedOpaque len).map .u8)
      else do return .array (← decodeFixedArray (decodeType named element) len)
  | .named name => named name
  | .opaqueLength maximum =>
    match maximumLen items maximum with
    | none => Cursor.exhausted
    | some maximum => do return .opaqueLength (← decodeOpaqueLength maximum)
  | .opaqueSegments maximum =>
    match maximumLen items maximum with
    | none => Cursor.exhausted
    -- The bound is checked on a copy of the cursor.
    | some maximum => fun input =>
      match decodeOpaqueLength maximum input with
      | some (.error error, _) => some (.error error, input)
      | _ => (do return .opaqueSegments [← readVariableOpaque] : XdrDecoder Value) input

/-- The template of a field, under the implementations `decode`. -/
def decodeField (decode : RustType → XdrDecoder Value) (field : RustField) : XdrDecoder Value :=
  match field.decode with
  | .decodeXdr type => decode type
  | .decodeFixedArray element len =>
    match arrayLen items len with
    | none => Cursor.exhausted
    | some len => do return .array (← decodeFixedArray (decode element) len)

/-- A discriminant matches a label. -/
def LabelExpr.covers : LabelExpr → Value → Bool
  | .bool b, .bool b' => b = b'
  | .variant _ x, .enum y => x = y
  | .value e, .i32 x => i64Value items e = some x.toInt
  | .value e, .u32 x => i64Value items e = some (x.toNat : Int)
  | _, _ => false

/-- A discriminant matches a pattern. -/
def LabelPattern.covers : LabelPattern → Value → Bool
  | .expr label, discriminant => label.covers items discriminant
  | .rawVariant enumName variant, .i32 x => enumValue items enumName variant = some x.toInt
  | _, _ => false

/-- The field of a variant, if it has one. -/
def decodeVariantField (decode : RustType → XdrDecoder Value) :
    Option RustField → XdrDecoder (Option Value)
  | some field => do return some (← decodeField items decode field)
  | none => pure none

/-- The decoder of a union behind its discriminant. -/
def decodeArm (decode : RustType → XdrDecoder Value) (body : RustUnion) (discriminant : Value) :
    XdrDecoder Value :=
  match body.arms.find? fun arm => arm.pattern.covers items discriminant with
  | some arm => do return .union arm.variant none (← decodeVariantField items decode arm.field)
  | none =>
    match body.fallback with
    | .default field => do
      return .union "Default" (some discriminant) (← decodeVariantField items decode field)
    | .invalidEnum => Cursor.fail (.invalidEnum 0)
    | .none => Cursor.exhausted

/-- The implementation of a generated item. -/
def decodeItem (decode : RustType → XdrDecoder Value) : RustItem → XdrDecoder Value
  | .typeAlias _ type => decode type
  | .struct _ fields => do return .struct (← Cursor.each (decodeField items decode) fields)
  | .enum _ variants => do
    let x ← readXdrI32
    match variants.find? fun v => i64Value items v.value = some x.toInt with
    | some v => return .enum v.name
    | none => Cursor.fail (.invalidEnum x)
  | .union _ body => do
    let discriminant ← decode body.decodeType
    decodeArm items decode body discriminant
  | .const _ _ => Cursor.exhausted

/-- The implementation of a named type. -/
def decodeNamed : ℕ → String → XdrDecoder Value
  | 0, _ => Cursor.exhausted
  | fuel + 1, name =>
    match findType items name with
    | some item => decodeItem items (decodeType items (decodeNamed fuel)) item
    | none => Cursor.exhausted

/-- The decoder of a type. -/
def decodeXdr (fuel : ℕ) (type : RustType) : XdrDecoder Value :=
  decodeType items (decodeNamed items fuel) type

/-- The decoder of a whole input. -/
def fromXdrBytes (fuel : ℕ) (type : RustType) (input : Bytes) : Option (Except XdrError Value) :=
  match decodeXdr items fuel type input with
  | none => none
  | some (.error error, _) => some (.error error)
  | some (.ok value, []) => some (.ok value)
  | some (.ok _, rest) => some (.error (.trailingBytes rest.length))

end OncRpc
