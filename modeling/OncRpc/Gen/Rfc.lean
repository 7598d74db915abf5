import OncRpc.Gen.Emit

/-!
# The standard's encoding

What a schema means, without regard to any generated code: the numbers its constants stand for, the
discriminants its labels stand for, and the encoding of a value of a type (`Schema.Encodes`).  A
schema is well formed if it keeps to the grammar of the standard and its notes.
-/

namespace OncRpc

open Foundation

namespace Schema

variable (schema : Schema)

/-! ## Constants and labels -/

/-- The value a constant is declared with. -/
def findConst (name : String) : Option ValueExpr :=
  schema.items.findSome? fun item =>
    match item with
    | .const decl => if decl.name = name then some decl.value else none
    | _ => none

/-- An expression stands for a number. -/
def Denotes (expr : ValueExpr) (x : Int) : Prop :=
  ∃ fuel, expr.resolve schema.findConst fuel = some x

/-- The schema declares a type. -/
def Declares (name : String) (item : Item) : Prop :=
  item ∈ schema.items ∧ item.typeName = some name

/-- A label of a union over the given discriminant stands for a number. -/
inductive LabelValue : TypeSpec → ValueExpr → Int → Prop where
  | true : LabelValue .bool (.identifier "TRUE") 1
  | false : LabelValue .bool (.identifier "FALSE") 0
  | int {expr : ValueExpr} {x : Int} : schema.Denotes expr x → LabelValue .int expr x
  | unsignedInt {expr : ValueExpr} {x : Int} : schema.Denotes expr x →
    LabelValue .unsignedInt expr x
  | variant {name : String} {body : EnumBody} {v : EnumVariant} {x : Int} :
    schema.Declares name (.enum name body) → v ∈ body.variants → schema.Denotes v.value x →
    LabelValue (.identifier name) (.identifier v.name) x
  | number {name : String} {body : EnumBody} {x : Int} :
    schema.Declares name (.enum name body) → LabelValue (.identifier name) (.number x) x

/-- A value that is kept as the discriminant of a default arm stands for a number. -/
inductive DiscriminantValue : TypeSpec → Value → Int → Prop where
  | bool (b : Bool) : DiscriminantValue .bool (.bool b) (if b then 1 else 0)
  | int (x : Int32) : DiscriminantValue .int (.i32 x) x.toInt
  | unsignedInt (x : UInt32) : DiscriminantValue .unsignedInt (.u32 x) x.toNat
  | enum {name : String} {body : EnumBody} (x : Int32) :
    schema.Declares name (.enum name body) → DiscriminantValue (.identifier name) (.i32 x) x.toInt

/-- A number is not above a declared bound. -/
def Within (bound : Option ValueExpr) (len : ℕ) : Prop :=
  ∀ expr ∈ bound, ∀ x, schema.Denotes expr x → (len : Int) ≤ x

/-! ## The encoding of values -/

/-- The bytes of a number in 32 bits, in two's complement. -/
def intBytes (x : Int) : Bytes := beBytes (UInt32.ofInt x)

/-- The encoding of a value of a declared type. -/
inductive Encodes : TypeSpec → Option DeclaratorModifier → Value → Bytes → Prop where
  | void : Encodes .void none .unit []
  | bool (b : Bool) : Encodes .bool none (.bool b) (intBytes (if b then 1 else 0))
  | int (x : Int32) : Encodes .int none (.i32 x) (intBytes x.toInt)
  | unsignedInt (x : UInt32) : Encodes .unsignedInt none (.u32 x) (beBytes x)
  | hyper (x : Int64) : Encodes .hyper none (.i64 x) (beBytes64 x.toUInt64)
  | unsignedHyper (x : UInt64) : Encodes .unsignedHyper none (.u64 x) (beBytes64 x)
  | float (bits : UInt32) : Encodes .float none (.f32 bits) (beBytes bits)
  | double (bits : UInt64) : Encodes .double none (.f64 bits) (beBytes64 bits)
  | quadruple {b : Bytes} : b.length = 16 → Encodes .quadruple none (.array (b.map .u8)) b
  | fixedOpaque {bound : ValueExpr} {b : Bytes} : schema.Denotes bound b.length →
    Encodes .opaqueData (some (.fixedArray bound)) (.array (b.map .u8)) (b ++ padding b.length)
  | variableOpaque {bound : Option ValueExpr} {b : Bytes} : b.length < 2 ^ 32 →
    schema.Within bound b.length →
    Encodes .opaqueData (some (.variableArray bound)) (.bytes b)
      (intBytes b.length ++ (b ++ padding b.length))
  | string {bound : Option ValueExpr} {s : String} : (stringBytes s).length < 2 ^ 32 →
    schema.Within bound (stringBytes s).length →
    Encodes .string (some (.variableArray bound)) (.string s)
      (intBytes (stringBytes s).length ++ (stringBytes s ++ padding (stringBytes s).length))
  | fixedArray {target : TypeSpec} {bound : ValueExpr} {values : List Value}
    {encodings : List Bytes} : target ≠ .opaqueData → schema.Denotes bound values.length →
    encodings.length = values.length →
    (∀ p ∈ values.zip encodings, Encodes target none p.1 p.2) →
    Encodes target (some (.fixedArray bound)) (.array values) encodings.flatten
  | variableArray {target : TypeSpec} {bound : Option ValueExpr} {values : List Value}
    {encodings : List Bytes} : target ≠ .opaqueData → target ≠ .string →
    values.length < 2 ^ 32 → schema.Within bound values.length →
    encodings.length = values.length →
    (∀ p ∈ values.zip encodings, Encodes target none p.1 p.2) →
    Encodes target (some (.variableArray bound)) (.vec values)
      (intBytes values.length ++ encodings.flatten)
  | absent {target : TypeSpec} : Encodes target (some .optional) (.option none) (intBytes 0)
  | present {target : TypeSpec} {value : Value} {b : Bytes} : Encodes target none value b →
    Encodes target (some .optional) (.option (some value)) (intBytes 1 ++ b)
  | typedef {name : String} {decl : TypedefDecl} {value : Value} {b : Bytes} :
    schema.Declares name (.typedef decl) →
    Encodes decl.target decl.declarator.modifier value b → Encodes (.identifier name) none value b
  | structName {name : String} {body : StructBody} {value : Value} {b : Bytes} :
    schema.Declares name (.struct name body) → Encodes (.struct body) none value b →
    Encodes (.identifier name) none value b
  | enumName {name : String} {body : EnumBody} {value : Value} {b : Bytes} :
    schema.Declares name (.enum name body) → Encodes (.enum body) none value b →
    Encodes (.identifier name) none value b
  | unionName {name : String} {body : UnionBody} {value : Value} {b : Bytes} :
    schema.Declares name (.union name body) → Encodes (.union body) none value b →
    Encodes (.identifier name) none value b
  | enum {body : EnumBody} {v : EnumVariant} {x : Int} : v ∈ body.variants →
    schema.Denotes v.value x → Encodes (.enum body) none (.enum v.name) (intBytes x)
  | struct {body : StructBody} {values : List Value} {encodings : List Bytes} :
    values.length = body.declarations.length → encodings.length = body.declarations.length →
    (∀ p ∈ body.declarations.zip (values.zip encodings),
      Encodes p.1.typeSpec p.1.declarator.modifier p.2.1 p.2.2) →
    Encodes (.struct body) none (.struct values) encodings.flatten
  | caseVoid {body : UnionBody} {arm : UnionArm} {expr : ValueExpr} {x : Int} :
    arm ∈ body.arms → .case expr ∈ arm.labels →
    schema.LabelValue body.discriminant.typeSpec expr x → arm.declaration.typeSpec = .void →
    Encodes (.union body) none (.union (unionVariantName (.case expr)) none none) (intBytes x)
  | caseField {body : UnionBody} {arm : UnionArm} {expr : ValueExpr} {x : Int} {value : Value}
    {b : Bytes} : arm ∈ body.arms → .case expr ∈ arm.labels →
    schema.LabelValue body.discriminant.typeSpec expr x → arm.declaration.typeSpec ≠ .void →
    Encodes arm.declaration.typeSpec arm.declaration.declarator.modifier value b →
    Encodes (.union body) none (.union (unionVariantName (.case expr)) none (some value))
      (intBytes x ++ b)
  | defaultVoid {body : UnionBody} {arm : UnionArm} {discriminant : Value} {x : Int} :
    arm ∈ body.arms → .default ∈ arm.labels →
    schema.DiscriminantValue body.discriminant.typeSpec discriminant x →
    (∀ other ∈ body.arms, ∀ expr, .case expr ∈ other.labels →
      ¬ schema.LabelValue body.discriminant.typeSpec expr x) →
    arm.declaration.typeSpec = .void →
    Encodes (.union body) none (.union "Default" (some discriminant) none) (intBytes x)
  | defaultField {body : UnionBody} {arm : UnionArm} {discriminant value : Value} {x : Int}
    {b : Bytes} : arm ∈ body.arms → .default ∈ arm.labels →
    schema.DiscriminantValue body.discriminant.typeSpec discriminant x →
    (∀ other ∈ body.arms, ∀ expr, .case expr ∈ other.labels →
      ¬ schema.LabelValue body.discriminant.typeSpec expr x) →
    arm.declaration.typeSpec ≠ .void →
    Encodes arm.declaration.typeSpec arm.declaration.declarator.modifier value b →
    Encodes (.union body) none (.union "Default" (some discriminant) (some value))
      (intBytes x ++ b)

end Schema

/-! ## Well-formed schemas -/

/-- A name generated code can refer to: no keyword of Rust, nor the raw form of one, which is no
identifier of a schema. -/
def Usable (name : String) : Prop :=
  name ∉ rustKeywords ∧ ∀ keyword ∈ rustKeywords, name ≠ "r#" ++ keyword

theorem usable_of_check {name : String}
    (h : (rustKeywords.all fun keyword => name ≠ keyword ∧ name ≠ "r#" ++ keyword) = true) :
    Usable name := by
  simp only [List.all_eq_true, decide_eq_true_eq] at h
  exact ⟨fun hmem => (h name hmem).1 rfl, fun keyword hmem => (h keyword hmem).2⟩

/-- The names an expression refers to can be referred to. -/
def ValueExpr.Usable : ValueExpr → Prop
  | .number _ => True
  | .identifier name => OncRpc.Usable name

namespace Schema

variable (schema : Schema)

/-- An expression stands for a length. -/
def Length (expr : ValueExpr) : Prop :=
  expr.Usable ∧ ∃ n : ℕ, n < 2 ^ 63 ∧ schema.Denotes expr n

/-- The grammar has such a declaration. -/
def Legal (target : TypeSpec) : Option DeclaratorModifier → Prop
  | none => target ≠ .opaqueData ∧ target ≠ .string
  | some (.fixedArray bound) => target ≠ .string ∧ target ≠ .void ∧ schema.Length bound
  | some (.variableArray bound) => target ≠ .void ∧ ∀ expr ∈ bound, schema.Length expr
  | some .optional => target ≠ .opaqueData ∧ target ≠ .string ∧ target ≠ .void

/-- The types a discriminant may have. -/
inductive Discriminant : TypeSpec → Prop where
  | bool : Discriminant .bool
  | int : Discriminant .int
  | unsignedInt : Discriminant .unsignedInt
  | enum {name : String} {body : EnumBody} : schema.Declares name (.enum name body) →
    OncRpc.Usable name → Discriminant (.identifier name)

/-- The rules for unions. -/
structure WellFormedUnion (body : UnionBody) : Prop where
  discriminant : schema.Discriminant body.discriminant.typeSpec
  plain : body.discriminant.declarator.modifier = none
  /-- The default label stands alone in its arm. -/
  alone : ∀ arm ∈ body.arms, .default ∈ arm.labels → arm.labels = [.default]
  /-- There is one default arm at most. -/
  once : ∀ arm ∈ body.arms, ∀ other ∈ body.arms, .default ∈ arm.labels → .default ∈ other.labels →
    arm = other
  /-- Every other label is a value of the discriminant. -/
  labels : ∀ arm ∈ body.arms, ∀ expr, .case expr ∈ arm.labels →
    expr.Usable ∧ ∃ x, schema.LabelValue body.discriminant.typeSpec expr x
  /-- No value is listed twice. -/
  distinct : ∀ arm ∈ body.arms, ∀ other ∈ body.arms, ∀ expr expr' x, .case expr ∈ arm.labels →
    .case expr' ∈ other.labels → schema.LabelValue body.discriminant.typeSpec expr x →
    schema.LabelValue body.discriminant.typeSpec expr' x → arm = other ∧ expr = expr'

/-- The type specifiers of the grammar. -/
inductive WellFormedType : TypeSpec → Prop where
  | void : WellFormedType .void
  | bool : WellFormedType .bool
  | int : WellFormedType .int
  | unsignedInt : WellFormedType .unsignedInt
  | hyper : WellFormedType .hyper
  | unsignedHyper : WellFormedType .unsignedHyper
  | float : WellFormedType .float
  | double : WellFormedType .double
  | quadruple : WellFormedType .quadruple
  | opaqueData : WellFormedType .opaqueData
  | string : WellFormedType .string
  | identifier {name : String} {item : Item} : schema.Declares name item → OncRpc.Usable name →
    WellFormedType (.identifier name)
  | enum {body : EnumBody} : (∀ v ∈ body.variants, v.value.Usable) → WellFormedType (.enum body)
  | struct {body : StructBody} :
    (∀ d ∈ body.declarations, schema.Legal d.typeSpec d.declarator.modifier) →
    (∀ d ∈ body.declarations, WellFormedType d.typeSpec) → WellFormedType (.struct body)
  | union {body : UnionBody} : schema.WellFormedUnion body →
    (∀ arm ∈ body.arms, schema.Legal arm.declaration.typeSpec arm.declaration.declarator.modifier) →
    (∀ arm ∈ body.arms, WellFormedType arm.declaration.typeSpec) → WellFormedType (.union body)

/-- The items of the grammar. -/
def WellFormedItem : Item → Prop
  | .const decl => decl.value.Usable
  | .typedef decl => schema.Legal decl.target decl.declarator.modifier ∧
    schema.WellFormedType decl.target
  | .struct _ body => schema.WellFormedType (.struct body)
  | .enum _ body => schema.WellFormedType (.enum body)
  | .union _ body => schema.WellFormedType (.union body)
  | .program _ => True

/-- The schemas of the grammar. -/
def WellFormed : Prop := ∀ item ∈ schema.items, schema.WellFormedItem item

end Schema

end OncRpc
