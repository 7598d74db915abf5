import OncRpc.Gen.Ast
import OncRpc.Xdr.Codec
import Mathlib.Data.List.Perm.Subperm

/-!
# Generated code

What the generator writes is a list of Rust items: constants, aliases, and structures and
enumerations with their codec implementations.  An implementation is a list of templates, one for
each field, and the generator chooses the template for encoding, that for decoding and that for
segmented encoding independently of each other.
-/

namespace OncRpc

open Foundation

/-! ## Types and values -/

/-- The types generated code is about.  The bounds of strings, bytes and vectors are those the
schema declares; Rust's types do not have them, and no codec looks at them. -/
inductive RustType where
  | unit
  | bool
  | i32
  | u32
  | i64
  | u64
  | f32
  | f64
  | u8
  | string (bound : Option ValueExpr)
  | bytes (bound : Option ValueExpr)
  | vec (element : RustType) (bound : Option ValueExpr)
  | optionBox (element : RustType)
  | array (element : RustType) (len : ValueExpr)
  | named (name : String)
  | opaqueLength (maximum : Option ValueExpr)
  | opaqueSegments (maximum : Option ValueExpr)
  deriving DecidableEq

/-- The values of these types.  A float is its bits.  The fields of a structure are in their order;
a variant of a union has its discriminant only if it is the default. -/
inductive Value where
  | unit
  | bool (b : Bool)
  | i32 (x : Int32)
  | u32 (x : UInt32)
  | i64 (x : Int64)
  | u64 (x : UInt64)
  | f32 (bits : UInt32)
  | f64 (bits : UInt64)
  | u8 (x : UInt8)
  | string (s : String)
  | bytes (b : Bytes)
  | vec (values : List Value)
  | option (value : Option Value)
  | array (values : List Value)
  | struct (fields : List Value)
  | enum (variant : String)
  | union (variant : String) (discriminant : Option Value) (field : Option Value)
  | opaqueLength (len : ℕ)
  | opaqueSegments (owners : List Bytes)

/-! ## Templates -/

/-- How a field is encoded. -/
inductive EncodeStmt where
  /-- `x.encode_xdr(output)?` -/
  | encodeXdr
  /-- `(x.len() as u32).encode_xdr(output)?`, then each element of `x`. -/
  | lenThenEach
  /-- Each element of `x`. -/
  | each
  /-- `write_fixed_opaque(output, &x)` -/
  | writeFixedOpaque
  deriving DecidableEq

/-- How a field is decoded. -/
inductive DecodeExpr where
  /-- `<type as XdrDecode>::decode_xdr(input)?` -/
  | decodeXdr (type : RustType)
  /-- `decode_fixed_array::<element, len>(input)?` -/
  | decodeFixedArray (element : RustType) (len : ValueExpr)
  deriving DecidableEq

/-- How a field is encoded in segments. -/
inductive SegmentStmt where
  /-- `encode_xdr_segments(&x, output)?` -/
  | encodeSegments
  /-- `output.opaque(&x, maximum)?` -/
  | opaqueBody (maximum : Option ValueExpr)
  /-- `output.encode(&x)?` -/
  | encode
  /-- Each element of `x`. -/
  | each
  deriving DecidableEq

/-- A field with the templates of its codecs. -/
structure RustField where
  name : String
  type : RustType
  encode : EncodeStmt
  decode : DecodeExpr
  segments : SegmentStmt
  deriving DecidableEq

/-- A label of a union, rendered. -/
inductive LabelExpr where
  | bool (b : Bool)
  /-- `enumName::variant` -/
  | variant (enumName variant : String)
  /-- A number, or the name of a constant. -/
  | value (value : ValueExpr)
  | discriminant
  deriving DecidableEq

/-- A label of a union, rendered as a pattern. -/
inductive LabelPattern where
  | expr (label : LabelExpr)
  /-- `value if value == enumName::variant as i32` -/
  | rawVariant (enumName variant : String)
  deriving DecidableEq

/-- A variant of a union. -/
structure RustVariant where
  name : String
  isDefault : Bool
  label : LabelExpr
  field : Option RustField
  /-- The segmented encoder leaves the field out. -/
  isVoid : Bool
  deriving DecidableEq

/-- An arm of the decoder of a union. -/
structure DecodeArm where
  pattern : LabelPattern
  variant : String
  field : Option RustField
  deriving DecidableEq

/-- What the decoder of a union does with a discriminant that no arm has. -/
inductive Fallback where
  | default (field : Option RustField)
  | invalidEnum
  /-- The arms leave nothing over. -/
  | none
  deriving DecidableEq

/-- A union. -/
structure RustUnion where
  variants : List RustVariant
  decodeType : RustType
  arms : List DecodeArm
  fallback : Fallback
  deriving DecidableEq

/-- An item of generated code. -/
inductive RustItem where
  | const (name : String) (value : ValueExpr)
  | typeAlias (name : String) (type : RustType)
  | struct (name : String) (fields : List RustField)
  | enum (name : String) (variants : List EnumVariant)
  | union (name : String) (body : RustUnion)
  deriving DecidableEq

/-- The name of the type an item defines. -/
def RustItem.typeName : RustItem → Option String
  | .const _ _ => none
  | .typeAlias name _ | .struct name _ | .enum name _ | .union name _ => some name

/-- The item that defines a type. -/
def findType (items : List RustItem) (name : String) : Option RustItem :=
  items.find? fun item => item.typeName = some name

/-- The item that defines a constant. -/
def findConst (items : List RustItem) (name : String) : Option ValueExpr :=
  items.findSome? fun item =>
    match item with
    | .const other value => if other = name then some value else none
    | _ => none

/-! ## Constants -/

/-- The number an expression stands for, through at most that many names. -/
def ValueExpr.resolve (find : String → Option ValueExpr) : ℕ → ValueExpr → Option Int
  | _, .number value => some value
  | 0, .identifier _ => none
  | fuel + 1, .identifier name => (find name).bind (resolve find fuel)

namespace ValueExpr

variable {find : String → Option ValueExpr}

theorem resolve_mono {fuel fuel' : ℕ} (hle : fuel ≤ fuel') {expr : ValueExpr} {x : Int}
    (h : expr.resolve find fuel = some x) : expr.resolve find fuel' = some x := by
  induction fuel generalizing expr fuel' with
  | zero =>
    rcases expr with value | name
    · rcases fuel' with _ | fuel' <;> exact h
    · cases h
  | succ fuel ih =>
    obtain ⟨fuel', rfl⟩ := Nat.exists_eq_add_of_le' hle
    rcases expr with value | name
    · exact h
    · obtain ⟨value, hvalue, hx⟩ := Option.bind_eq_some_iff.mp h
      exact Option.bind_eq_some_iff.mpr ⟨value, hvalue, ih (Nat.le_add_left ..) hx⟩

theorem resolve_unique {fuel fuel' : ℕ} {expr : ValueExpr} {x y : Int}
    (hx : expr.resolve find fuel = some x) (hy : expr.resolve find fuel' = some y) : x = y := by
  have hx' := resolve_mono (Nat.le_max_left fuel fuel') hx
  rw [resolve_mono (Nat.le_max_right fuel fuel') hy] at hx'
  exact (Option.some.inj hx').symm

/-- An expression that stands for a number does so through each name at most once. -/
theorem exists_names {fuel : ℕ} {expr : ValueExpr} {x : Int}
    (h : expr.resolve find fuel = some x) : ∃ names : List String, names.Nodup ∧
      expr.resolve find names.length = some x ∧
      ∀ name ∈ names, (find name).isSome ∧ ∃ y, resolve find names.length (.identifier name) =
        some y := by
  induction fuel generalizing expr with
  | zero => exact ⟨[], List.nodup_nil, h, by simp⟩
  | succ fuel ih =>
    rcases expr with value | name
    · exact ⟨[], List.nodup_nil, h, by simp⟩
    · obtain ⟨value, hvalue, hx⟩ := Option.bind_eq_some_iff.mp h
      obtain ⟨names, hnodup, hnames, hall⟩ := ih hx
      by_cases hmem : name ∈ names
      · -- The way from the value comes back to the name, so the value was not needed.
        obtain ⟨-, y, hy⟩ := hall name hmem
        refine ⟨names, hnodup, ?_, hall⟩
        rw [hy, resolve_unique hy h]
      · have hself : resolve find (names.length + 1) (.identifier name) = some x :=
          Option.bind_eq_some_iff.mpr ⟨value, hvalue, hnames⟩
        refine ⟨name :: names, List.nodup_cons.mpr ⟨hmem, hnodup⟩, hself, ?_⟩
        intro other hother
        rcases List.mem_cons.mp hother with rfl | hother
        · exact ⟨by rw [hvalue]; rfl, x, hself⟩
        · obtain ⟨hsome, y, hy⟩ := hall other hother
          exact ⟨hsome, y, resolve_mono (Nat.le_succ _) hy⟩

end ValueExpr

/-- The value of an expression.  Every name on the way is that of another constant. -/
def i64Value (items : List RustItem) (value : ValueExpr) : Option Int :=
  value.resolve (findConst items) (items.length + 1)

theorem findConst_mem {items : List RustItem} {name : String} (h : (findConst items name).isSome) :
    ∃ value, .const name value ∈ items := by
  obtain ⟨value, hvalue⟩ := Option.isSome_iff_exists.mp h
  obtain ⟨item, hmem, hitem⟩ := List.exists_of_findSome?_eq_some hvalue
  rcases item with ⟨other, v⟩ | _ | _ | _ | _
  · dsimp only at hitem
    split at hitem
    · next heq => exact ⟨v, heq ▸ hmem⟩
    · cases hitem
  all_goals cases hitem

/-- The name of the constant an item defines. -/
def RustItem.constName : RustItem → Option String
  | .const name _ => some name
  | .typeAlias _ _ | .struct _ _ | .enum _ _ | .union _ _ => none

/-- The value of an expression does not depend on the number of names. -/
theorem i64Value_of_resolve {items : List RustItem} {fuel : ℕ} {expr : ValueExpr} {x : Int}
    (h : expr.resolve (findConst items) fuel = some x) : i64Value items expr = some x := by
  obtain ⟨names, hnodup, hx, hall⟩ := ValueExpr.exists_names h
  have hsub : names ⊆ items.filterMap RustItem.constName := by
    intro name hmem
    obtain ⟨value, hvalue⟩ := findConst_mem (hall name hmem).1
    exact List.mem_filterMap.mpr ⟨_, hvalue, rfl⟩
  have hlength : names.length ≤ items.length :=
    (List.subperm_of_subset hnodup hsub).length_le.trans (List.length_filterMap_le ..)
  exact ValueExpr.resolve_mono (hlength.trans (Nat.le_succ _)) hx

/-- The conversion `as usize`. -/
def asUsize (x : Int) : ℕ := (x % 2 ^ 64).toNat

/-- The length of an array. -/
def arrayLen (items : List RustItem) (len : ValueExpr) : Option ℕ :=
  (i64Value items len).map asUsize

/-- The largest length a maximum allows. -/
def maximumLen (items : List RustItem) : Option ValueExpr → Option ℕ
  | some value => (i64Value items value).map asUsize
  | none => some (2 ^ 32 - 1)

/-- The value of a variant of an enumeration. -/
def enumValue (items : List RustItem) (enumName variant : String) : Option Int :=
  match findType items enumName with
  | some (.enum _ variants) =>
    (variants.find? fun v => v.name = variant).bind fun v => i64Value items v.value
  | _ => none

/-- The type is that of bytes, through at most that many aliases. -/
def isU8 (items : List RustItem) : ℕ → RustType → Bool
  | _, .u8 => true
  | fuel + 1, .named name =>
    match findType items name with
    | some (.typeAlias _ type) => isU8 items fuel type
    | _ => false
  | _, _ => false

/-- The check `TypeId::of::<T>() == TypeId::of::<u8>()`. -/
def isByte (items : List RustItem) (type : RustType) : Bool := isU8 items (items.length + 1) type

end OncRpc
