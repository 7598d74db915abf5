import OncRpc.Gen.Rust

/-!
# The names of the runtime in generated code

Generated code names the types of the runtime by bare words, such as `u32` or `String`.  Where it
defines a type of the same name, the word is that type: after `typedef hyper u32` every `unsigned
int` of a schema is a hyper.

`readItems` puts the types in place that the compiler finds for the words.  Where no type has one of
the `runtimeNames`, it changes nothing (`readItems_eq_self`).
-/

namespace OncRpc

variable (items : List RustItem)

/-! ## Reading -/

/-- The names of types that are found wherever they stand alone. -/
def wordNames : List String := ["bool", "i32", "u32", "i64", "u64", "f32", "f64", "u8", "String"]

/-- The names of generic types, traits, crates and of the type of lengths.  Hardly any code compiles
that hides one of them and uses it. -/
def pathNames : List String :=
  ["usize", "Bytes", "Vec", "Option", "Box", "Result", "From", "XdrEncode", "XdrDecode", "bytes",
    "onc_rpc_xdr"]

/-- The names generated code uses for the types of the runtime. -/
def runtimeNames : List String := wordNames ++ pathNames

/-- A generated type hides what the runtime has under the name. -/
def hides (name : String) : Bool := (findType items name).isSome

/-- The type a word stands for that is the name of a type of the runtime. -/
def readWord (word : String) (type : RustType) : RustType :=
  if hides items word then .named word else type

/-- The maximum of a body.  Without a bound it is written `u32::MAX`; what that is of another type
is left open. -/
def readMaximum : Option ValueExpr → Option (Option ValueExpr)
  | some bound => some (some bound)
  | none => if hides items "u32" then none else some none

/-- A type, with the types its words stand for. -/
def readType : RustType → Option RustType
  | .unit => some .unit
  | .bool => some (readWord items "bool" .bool)
  | .i32 => some (readWord items "i32" .i32)
  | .u32 => some (readWord items "u32" .u32)
  | .i64 => some (readWord items "i64" .i64)
  | .u64 => some (readWord items "u64" .u64)
  | .f32 => some (readWord items "f32" .f32)
  | .f64 => some (readWord items "f64" .f64)
  | .u8 => some (readWord items "u8" .u8)
  | .string bound => some (readWord items "String" (.string bound))
  | .bytes bound => some (.bytes bound)
  | .vec element bound => (readType element).map fun element => .vec element bound
  | .optionBox element => (readType element).map .optionBox
  | .array element len => (readType element).map fun element => .array element len
  | .named name => some (.named name)
  | .opaqueLength maximum => (readMaximum items maximum).map .opaqueLength
  | .opaqueSegments maximum => (readMaximum items maximum).map .opaqueSegments

/-- A template for decoding. -/
def readDecode : DecodeExpr → Option DecodeExpr
  | .decodeXdr type => (readType items type).map .decodeXdr
  | .decodeFixedArray element len =>
    (readType items element).map fun element => .decodeFixedArray element len

/-- A field.  The template of a vector casts its length to `u32`; what a cast to another type does
is left open. -/
def readField (field : RustField) : Option RustField :=
  if field.encode = .lenThenEach ∧ hides items "u32" then none
  else do
    let type ← readType items field.type
    let decode ← readDecode items field.decode
    return { field with type := type, decode := decode }

/-- A field that may be missing. -/
def readVariantField : Option RustField → Option (Option RustField)
  | some field => (readField items field).map some
  | none => some none

/-- A variant of a union. -/
def readVariant (v : RustVariant) : Option RustVariant :=
  (readVariantField items v.field).map fun field => { v with field := field }

/-- An arm of the decoder of a union. -/
def readArm (arm : DecodeArm) : Option DecodeArm :=
  (readVariantField items arm.field).map fun field => { arm with field := field }

/-- What the decoder of a union does with every other discriminant. -/
def readFallback : Fallback → Option Fallback
  | .default field => (readVariantField items field).map .default
  | .invalidEnum => some .invalidEnum
  | .none => some .none

/-- A union.  Its labels are of the types they are written for, so it is left open what a hidden
type of its discriminant does. -/
def readUnion (body : RustUnion) : Option RustUnion :=
  if readType items body.decodeType = some body.decodeType then do
    let variants ← body.variants.mapM (readVariant items)
    let arms ← body.arms.mapM (readArm items)
    let fallback ← readFallback items body.fallback
    return ⟨variants, body.decodeType, arms, fallback⟩
  else none

/-- An item.  Constants are of the type `i64`, and enumerations are cast to `i32`. -/
def readItem : RustItem → Option RustItem
  | .const name value => if hides items "i64" then none else some (.const name value)
  | .typeAlias name type => (readType items type).map (.typeAlias name)
  | .struct name fields => (fields.mapM (readField items)).map (.struct name)
  | .enum name variants => if hides items "i32" then none else some (.enum name variants)
  | .union name body => (readUnion items body).map (.union name)

/-- Generated code, with the types its words stand for. -/
def readItems : Option (List RustItem) :=
  if pathNames.any (hides items) then none else items.mapM (readItem items)

/-! ## Code that hides nothing -/

/-- No generated type has a name of the runtime. -/
def HidesNothing : Prop := ∀ name ∈ items.filterMap RustItem.typeName, name ∉ runtimeNames

variable {items}

/-- Mapping a list of elements that are kept keeps the list. -/
theorem mapM_eq_self {α : Type} {f : α → Option α} {xs : List α} (h : ∀ x ∈ xs, f x = some x) :
    xs.mapM f = some xs := by
  induction xs with
  | nil => rfl
  | cons x xs ih =>
    rw [List.mapM_cons, h x (List.mem_cons_self ..),
      ih fun y hy => h y (List.mem_cons_of_mem x hy)]
    rfl

namespace HidesNothing

/-- A type under a name of the runtime is not found. -/
theorem hides_eq_false (h : HidesNothing items) {name : String} (hname : name ∈ runtimeNames) :
    hides items name = false := by
  by_contra hhides
  obtain ⟨item, hitem⟩ := Option.isSome_iff_exists.mp (eq_true_of_ne_false hhides)
  unfold findType at hitem
  have htype := List.find?_some hitem
  refine h name (List.mem_filterMap.mpr ⟨item, List.mem_of_find?_eq_some hitem, ?_⟩) hname
  exact of_decide_eq_true htype

/-- A word stands for the type of the runtime. -/
theorem readWord_eq (h : HidesNothing items) {word : String} (hword : word ∈ wordNames)
    (type : RustType) : readWord items word type = type := by
  rw [readWord, h.hides_eq_false (List.mem_append_left _ hword), if_neg Bool.false_ne_true]

/-- A maximum is read as it stands. -/
theorem readMaximum_eq (h : HidesNothing items) (maximum : Option ValueExpr) :
    readMaximum items maximum = some maximum := by
  cases maximum with
  | some bound => rfl
  | none => rw [readMaximum, h.hides_eq_false (by decide), if_neg Bool.false_ne_true]

/-- A type is read as it stands. -/
theorem readType_eq (h : HidesNothing items) (type : RustType) :
    readType items type = some type := by
  induction type with
  | bool | i32 | u32 | i64 | u64 | f32 | f64 | u8 | string =>
    exact congrArg some (h.readWord_eq (by decide) _)
  | vec element bound ih | optionBox element ih | array element len ih =>
    rw [readType, ih, Option.map_some]
  | opaqueLength maximum | opaqueSegments maximum =>
    rw [readType, h.readMaximum_eq, Option.map_some]
  | unit | bytes | named => rfl

/-- A field is read as it stands. -/
theorem readField_eq (h : HidesNothing items) (field : RustField) :
    readField items field = some field := by
  have hdecode : readDecode items field.decode = some field.decode := by
    cases field.decode <;> rw [readDecode, h.readType_eq, Option.map_some]
  have hu32 : hides items "u32" = false := h.hides_eq_false (by decide)
  rw [readField, hu32, if_neg (fun hcast => Bool.false_ne_true hcast.2), h.readType_eq, hdecode]
  rfl

/-- A field that may be missing is read as it stands. -/
theorem readVariantField_eq (h : HidesNothing items) (field : Option RustField) :
    readVariantField items field = some field := by
  cases field with
  | none => rfl
  | some field => rw [readVariantField, h.readField_eq, Option.map_some]

/-- A union is read as it stands. -/
theorem readUnion_eq (h : HidesNothing items) (body : RustUnion) :
    readUnion items body = some body := by
  have hvariants : body.variants.mapM (readVariant items) = some body.variants :=
    mapM_eq_self fun v _ => by rw [readVariant, h.readVariantField_eq, Option.map_some]
  have harms : body.arms.mapM (readArm items) = some body.arms :=
    mapM_eq_self fun arm _ => by rw [readArm, h.readVariantField_eq, Option.map_some]
  have hfallback : readFallback items body.fallback = some body.fallback := by
    cases body.fallback with
    | default field => rw [readFallback, h.readVariantField_eq, Option.map_some]
    | invalidEnum | none => rfl
  rw [readUnion, if_pos (h.readType_eq _), hvariants, harms, hfallback]
  rfl

/-- An item is read as it stands. -/
theorem readItem_eq (h : HidesNothing items) (item : RustItem) :
    readItem items item = some item := by
  cases item with
  | const name value =>
    rw [readItem, h.hides_eq_false (by decide), if_neg Bool.false_ne_true]
  | typeAlias name type => rw [readItem, h.readType_eq, Option.map_some]
  | struct name fields =>
    rw [readItem, mapM_eq_self fun field _ => h.readField_eq field, Option.map_some]
  | enum name variants =>
    rw [readItem, h.hides_eq_false (by decide), if_neg Bool.false_ne_true]
  | union name body => rw [readItem, h.readUnion_eq, Option.map_some]

end HidesNothing

/-- Generated code that hides no name of the runtime is read as it stands. -/
theorem readItems_eq_self (h : HidesNothing items) : readItems items = some items := by
  have hpaths : pathNames.any (hides items) = false := by
    rw [List.any_eq_false]
    intro name hname
    rw [h.hides_eq_false (List.mem_append_right _ hname)]
    exact Bool.false_ne_true
  rw [readItems, hpaths, if_neg Bool.false_ne_true]
  exact mapM_eq_self fun item _ => h.readItem_eq item

/-- After a type definition of the name `u32`, a field of the type `u32` is one of that type. -/
example : readItems
    [.typeAlias "u32" .i64,
      .struct "s" [⟨"x", .u32, .encodeXdr, .decodeXdr .u32, .encodeSegments⟩]] =
    some [.typeAlias "u32" .i64, .struct "s" [⟨"x", .named "u32", .encodeXdr,
      .decodeXdr (.named "u32"), .encodeSegments⟩]] := by decide +kernel

end OncRpc
