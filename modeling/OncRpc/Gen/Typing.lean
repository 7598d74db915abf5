import OncRpc.Gen.Meaning

/-!
# Values of generated types

`HasType` says which values a generated type has, among those the standard can encode: every length
fits into a word and is within the bound the schema declares, and the discriminant of a default
variant is none of those the union lists.

`Compiles` has what the compiler demands of enumerations and unions.
-/

namespace OncRpc

open Foundation

variable (items : List RustItem)

/-- A length fits into a word and is within a declared bound. -/
def FitsLength (bound : Option ValueExpr) (len : ℕ) : Prop :=
  len < 2 ^ 32 ∧ ∀ maximum, maximumLen items bound = some maximum → len ≤ maximum

/-- The values of the types of the runtime; `named` has those of the generated items. -/
def typedBy (named : String → Value → Prop) : RustType → Value → Prop
  | .unit, .unit | .bool, .bool _ | .i32, .i32 _ | .u32, .u32 _ | .i64, .i64 _ | .u64, .u64 _
  | .f32, .f32 _ | .f64, .f64 _ | .u8, .u8 _ => True
  | .string bound, .string s => FitsLength items bound (stringBytes s).length
  | .bytes bound, .bytes b => FitsLength items bound b.length
  | .vec element bound, .vec values =>
    FitsLength items bound values.length ∧ ∀ value ∈ values, typedBy named element value
  | .optionBox element, .option value => ∀ v ∈ value, typedBy named element v
  | .array element len, .array values =>
    arrayLen items len = some values.length ∧ ∀ value ∈ values, typedBy named element value
  | .named name, value => named name value
  | _, _ => False

/-- The values of a field of a variant. -/
def typedField (typed : RustType → Value → Prop) : Option RustField → Option Value → Prop
  | none, none => True
  | some field, some value => typed field.type value
  | _, _ => False

/-- The values of an item. -/
def typedItem (typed : RustType → Value → Prop) : RustItem → Value → Prop
  | .typeAlias _ type, value => typed type value
  | .struct _ fields, .struct values =>
    List.Forall₂ (fun field value => typed field.type value) fields values
  | .enum _ variants, .enum variant => ∃ v ∈ variants, v.name = variant
  | .union _ body, .union variant none field =>
    ∃ v ∈ body.variants, v.name = variant ∧ v.isDefault = false ∧ typedField typed v.field field
  | .union _ body, .union variant (some discriminant) field =>
    (∃ v ∈ body.variants, v.name = variant ∧ v.isDefault = true ∧ typedField typed v.field field) ∧
      typed body.decodeType discriminant ∧
      ∀ arm ∈ body.arms, arm.pattern.covers items discriminant = false
  | _, _ => False

/-- The values of a named type, through at most that many names. -/
def typedNamed : ℕ → String → Value → Prop
  | 0, _, _ => False
  | fuel + 1, name, value => ∃ item, findType items name = some item ∧
    typedItem items (typedBy items (typedNamed fuel)) item value

/-- The values of a type. -/
def HasType (type : RustType) (value : Value) : Prop :=
  ∃ fuel, typedBy items (typedNamed items fuel) type value

/-! ## Code that compiles -/

/-- A number is an `i32`. -/
def IsI32 (x : Int) : Prop := -2 ^ 31 ≤ x ∧ x < 2 ^ 31

/-- A pattern has the type of the discriminant; constants are `i64`. -/
def LabelPattern.WellTyped (type : RustType) : LabelPattern → Prop
  | .expr (.bool _) => type = .bool
  | .expr (.value (.number n)) => type = .i32 ∧ IsI32 n ∨ type = .u32 ∧ 0 ≤ n ∧ n < 2 ^ 32
  | .expr (.value (.identifier _)) => type = .i64
  | .expr (.variant enumName variant) =>
    type = .named enumName ∧ ∃ x, enumValue items enumName variant = some x
  | .expr .discriminant => True
  | .rawVariant enumName variant => type = .i32 ∧ ∃ x, enumValue items enumName variant = some x

/-- A literal that is encoded is an `i32`. -/
def LabelExpr.Encodable : LabelExpr → Prop
  | .value (.number n) => IsI32 n
  | _ => True

/-- What the compiler demands of enumerations and unions. -/
structure Compiles : Prop where
  /-- The discriminants of an enumeration are distinct numbers of its representation. -/
  enumValues : ∀ name variants, .enum name variants ∈ items → ∀ v ∈ variants,
    ∃ x, i64Value items v.value = some x ∧ IsI32 x
  enumDistinct : ∀ name variants, .enum name variants ∈ items → ∀ v ∈ variants, ∀ other ∈ variants,
    i64Value items v.value = i64Value items other.value → v = other
  enumNames : ∀ name variants, .enum name variants ∈ items → (variants.map EnumVariant.name).Nodup
  unionNames : ∀ name body, .union name body ∈ items → (body.variants.map RustVariant.name).Nodup
  patterns : ∀ name body, .union name body ∈ items → ∀ arm ∈ body.arms,
    arm.pattern.WellTyped items body.decodeType
  literals : ∀ name body, .union name body ∈ items → ∀ v ∈ body.variants, v.isDefault = false →
    v.label.Encodable

/-! ## Checking that code compiles -/

instance (x : Int) : Decidable (IsI32 x) :=
  inferInstanceAs (Decidable (-2 ^ 31 ≤ x ∧ x < 2 ^ 31))

instance (type : RustType) (pattern : LabelPattern) : Decidable (pattern.WellTyped items type) :=
  match pattern with
  | .expr (.bool _) => inferInstanceAs (Decidable (type = .bool))
  | .expr (.value (.number n)) =>
    inferInstanceAs (Decidable (type = .i32 ∧ IsI32 n ∨ type = .u32 ∧ 0 ≤ n ∧ n < 2 ^ 32))
  | .expr (.value (.identifier _)) => inferInstanceAs (Decidable (type = .i64))
  | .expr (.variant enumName variant) =>
    decidable_of_iff (type = .named enumName ∧ (enumValue items enumName variant).isSome)
      (and_congr Iff.rfl Option.isSome_iff_exists)
  | .expr .discriminant => .isTrue trivial
  | .rawVariant enumName variant =>
    decidable_of_iff (type = .i32 ∧ (enumValue items enumName variant).isSome)
      (and_congr Iff.rfl Option.isSome_iff_exists)

instance (label : LabelExpr) : Decidable label.Encodable :=
  match label with
  | .value (.number n) => inferInstanceAs (Decidable (IsI32 n))
  | .value (.identifier _) | .bool _ | .variant _ _ | .discriminant => .isTrue trivial

/-- The demands on one item, as a check. -/
def RustItem.compiles : RustItem → Bool
  | .enum _ variants =>
    (variants.all fun v => (i64Value items v.value).any fun x => decide (IsI32 x)) &&
      (variants.all fun v => variants.all fun other =>
        !decide (i64Value items v.value = i64Value items other.value) || v = other) &&
      decide (variants.map EnumVariant.name).Nodup
  | .union _ body =>
    decide (body.variants.map RustVariant.name).Nodup &&
      (body.arms.all fun arm => decide (arm.pattern.WellTyped items body.decodeType)) &&
      (body.variants.all fun v => v.isDefault || decide v.label.Encodable)
  | .const _ _ | .typeAlias _ _ | .struct _ _ => true

theorem compiles_of_check (h : items.all (RustItem.compiles items) = true) : Compiles items := by
  have hitem {item : RustItem} (hmem : item ∈ items) : item.compiles items = true :=
    List.all_eq_true.mp h item hmem
  have henum {name : String} {variants : List EnumVariant} (hmem : .enum name variants ∈ items) :
      (∀ v ∈ variants, ∃ x, i64Value items v.value = some x ∧ IsI32 x) ∧
        (∀ v ∈ variants, ∀ other ∈ variants,
          i64Value items v.value = i64Value items other.value → v = other) ∧
        (variants.map EnumVariant.name).Nodup := by
    have hcheck := hitem hmem
    simp only [RustItem.compiles, Bool.and_eq_true, List.all_eq_true, Option.any_eq_true,
      decide_eq_true_eq, Bool.or_eq_true, Bool.not_eq_true', decide_eq_false_iff_not] at hcheck
    obtain ⟨⟨hvalues, hdistinct⟩, hnames⟩ := hcheck
    exact ⟨hvalues, fun v hv other hother heq =>
      (hdistinct v hv other hother).resolve_left (not_not_intro heq), hnames⟩
  have hunion {name : String} {body : RustUnion} (hmem : .union name body ∈ items) :
      (body.variants.map RustVariant.name).Nodup ∧
        (∀ arm ∈ body.arms, arm.pattern.WellTyped items body.decodeType) ∧
        ∀ v ∈ body.variants, v.isDefault = false → v.label.Encodable := by
    have hcheck := hitem hmem
    simp only [RustItem.compiles, Bool.and_eq_true, List.all_eq_true, decide_eq_true_eq,
      Bool.or_eq_true] at hcheck
    obtain ⟨⟨hnames, hpatterns⟩, hliterals⟩ := hcheck
    refine ⟨hnames, hpatterns, fun v hv hdefault => (hliterals v hv).resolve_left ?_⟩
    rw [hdefault]
    decide
  exact {
    enumValues := fun _ _ hmem => (henum hmem).1
    enumDistinct := fun _ _ hmem => (henum hmem).2.1
    enumNames := fun _ _ hmem => (henum hmem).2.2
    unionNames := fun _ _ hmem => (hunion hmem).1
    patterns := fun _ _ hmem => (hunion hmem).2.1
    literals := fun _ _ hmem => (hunion hmem).2.2 }

end OncRpc
