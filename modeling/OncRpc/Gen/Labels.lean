import OncRpc.Gen.Fields
import Mathlib.Data.List.Nodup

/-!
# The discriminants of generated unions

A schema says which number a label stands for; generated code writes the label as an expression when
it encodes, and as a pattern when it decodes.  `UnionSpec.kind` lists the forms the two have, one
for each type of discriminant, and `Stands` says which number a decoded discriminant stands for.  A
pattern covers exactly the discriminants that stand for the number of its label
(`UnionKind.covers_iff`).
-/

namespace OncRpc

open Foundation OwnedLayouts

/-- A schema of the grammar whose code has distinct names and compiles. -/
structure Schema.Compiled (schema : Schema) (items : List RustItem) : Prop where
  wellFormed : schema.WellFormed
  distinct : schema.DistinctNames
  written : schema.Written items
  compiles : Compiles items

variable {schema : Schema} {items : List RustItem} {context : EmitContext} {name : String}
  {body : UnionBody} {u : RustUnion}

/-- In a well formed schema single opaque data is in arrays only. -/
theorem Schema.WellFormed.opaqueArrays (h : schema.WellFormed) : schema.OpaqueArrays := by
  intro decl hmem htarget hmodifier
  have hlegal := (h _ hmem).1
  rw [show decl.declarator.modifier = none from hmodifier] at hlegal
  exact hlegal.1 htarget

/-- No alias of a compiled schema is a byte. -/
theorem Schema.Compiled.noByteAlias (h : schema.Compiled items) : NoByteAlias items :=
  fun _ htype => h.written.isByte_eq_false h.wellFormed.opaqueArrays htype

/-! ## Enumerations -/

/-- The item of a declared enumeration. -/
theorem Schema.Written.findType_enum (h : schema.Written items) {name : String} {body : EnumBody}
    (hdeclares : schema.Declares name (.enum name body)) :
    findType items name = some (.enum name body.variants) := by
  obtain ⟨item, hitem, hfind⟩ := h.own (.inline name (.enum body))
    (List.mem_flatMap.mpr ⟨_, hdeclares.1, List.mem_singleton_self _⟩)
  rw [hfind name rfl, ← Except.ok.inj hitem]

/-- The only member with a property is the one found. -/
theorem find?_of_unique {α : Type} {p : α → Bool} {xs : List α} {x : α} (hmem : x ∈ xs)
    (hx : p x = true) (hunique : ∀ y ∈ xs, p y = true → y = x) : xs.find? p = some x := by
  rcases hfind : xs.find? p with _ | y
  · exact absurd hx (List.find?_eq_none.mp hfind x hmem)
  · rw [hunique y (List.mem_of_find?_eq_some hfind) (List.find?_some hfind)]

/-- A member is found by its image, where the images are distinct. -/
theorem find?_of_nodup {α β : Type} [DecidableEq β] {f : α → β} {xs : List α} {x : α}
    (hnodup : (xs.map f).Nodup) (hmem : x ∈ xs) : xs.find? (fun y => f y = f x) = some x := by
  refine find?_of_unique hmem (decide_eq_true rfl) fun y hy heq => ?_
  exact List.inj_on_of_nodup_map hnodup hy hmem (of_decide_eq_true heq)

/-- The number of a variant in generated code is the one it has in the schema. -/
theorem Schema.Compiled.enumValue_iff (h : schema.Compiled items) {name own : String}
    {variants : List EnumVariant} (hfind : findType items name = some (.enum own variants))
    {v : EnumVariant} (hv : v ∈ variants) (husable : v.value.Usable) {x : Int} :
    enumValue items name v.name = some x ↔ schema.Denotes v.value x := by
  have hvalue : enumValue items name v.name = i64Value items v.value := by
    rw [enumValue, hfind]
    simp only [find?_of_nodup (h.compiles.enumNames _ _ (findType_mem hfind)) hv, Option.bind_some]
  rw [hvalue, h.written.i64Value_iff h.wellFormed husable]

/-- The values of an enumeration are usable in a well formed schema. -/
theorem Schema.WellFormed.usable_of_enum (h : schema.WellFormed) {name : String} {body : EnumBody}
    (hdeclares : schema.Declares name (.enum name body)) {v : EnumVariant}
    (hv : v ∈ body.variants) : v.value.Usable := by
  cases h _ hdeclares.1 with
  | enum husable => exact husable v hv

/-- Every member of an enumeration has a value that fits into a word. -/
theorem Schema.Compiled.enumValue_isI32 (h : schema.Compiled items) {name : String}
    {body : EnumBody} (hdeclares : schema.Declares name (.enum name body)) {v : EnumVariant}
    (hv : v ∈ body.variants) : ∃ x, enumValue items name v.name = some x ∧ IsI32 x := by
  have hfind := h.written.findType_enum hdeclares
  have husable := h.wellFormed.usable_of_enum hdeclares hv
  obtain ⟨y, hy, hi32⟩ := h.compiles.enumValues _ _ (findType_mem hfind) v hv
  refine ⟨y, (h.enumValue_iff hfind hv husable).mpr ?_, hi32⟩
  exact (h.written.i64Value_iff h.wellFormed husable).mp hy

/-! ## The forms of labels -/

/-- A label some arm has. -/
def UnionBody.Lists (body : UnionBody) (expr : ValueExpr) : Prop :=
  ∃ arm ∈ body.arms, .case expr ∈ arm.labels

/-- The expression and the pattern of a label. -/
def EmitContext.Renders (context : EmitContext) (body : UnionBody) (expr : ValueExpr)
    (label : LabelExpr) (pattern : LabelPattern) : Prop :=
  context.renderUnionLabel (.case expr) body.discriminant.typeSpec = label ∧
    context.renderUnionDecodeLabel (.case expr) body.discriminant.typeSpec
      (context.usesRawEnum body) = pattern

/-- A label that is a number. -/
def EmitContext.NumberLabel (context : EmitContext) (body : UnionBody) (expr : ValueExpr) : Prop :=
  ∃ n, expr = .number n ∧ IsI32 n ∧
    context.Renders body expr (.value (.number n)) (.expr (.value (.number n)))

/-- The forms of a union, one for each type of discriminant; with a default arm the discriminant of
an enumeration is decoded as a number. -/
inductive UnionKind (schema : Schema) (items : List RustItem) (context : EmitContext)
    (body : UnionBody) : RustType → Prop where
  | bool : body.discriminant.typeSpec = .bool →
    (∀ expr, body.Lists expr →
      expr = .identifier "TRUE" ∧ context.Renders body expr (.bool true) (.expr (.bool true)) ∨
      expr = .identifier "FALSE" ∧
        context.Renders body expr (.bool false) (.expr (.bool false))) →
    UnionKind schema items context body .bool
  | int : body.discriminant.typeSpec = .int →
    (∀ expr, body.Lists expr → context.NumberLabel body expr) →
    UnionKind schema items context body .i32
  | unsignedInt : body.discriminant.typeSpec = .unsignedInt →
    (∀ expr, body.Lists expr → context.NumberLabel body expr ∧ ∀ n, expr = .number n → 0 ≤ n) →
    UnionKind schema items context body .u32
  | raw {enumName : String} {variants : EnumBody} :
    body.discriminant.typeSpec = .identifier enumName →
    schema.Declares enumName (.enum enumName variants) → Usable enumName →
    (∀ expr, body.Lists expr → context.NumberLabel body expr ∨
      ∃ v ∈ variants.variants, expr = .identifier v.name ∧
        context.Renders body expr (.variant enumName v.name) (.rawVariant enumName v.name)) →
    UnionKind schema items context body .i32
  | enum {enumName : String} {variants : EnumBody} :
    body.discriminant.typeSpec = .identifier enumName →
    schema.Declares enumName (.enum enumName variants) → Usable enumName →
    (∀ arm ∈ body.arms, .default ∉ arm.labels) →
    (∀ expr, body.Lists expr → ∃ v ∈ variants.variants, expr = .identifier v.name ∧
      context.Renders body expr (.variant enumName v.name) (.expr (.variant enumName v.name))) →
    UnionKind schema items context body (.named enumName)

/-- A listed label has an arm of the decoder and a variant. -/
theorem UnionSpec.typed_of_lists (hspec : UnionSpec context name body u)
    (hcompiles : Compiles items) (hmem : .union name u ∈ items)
    (hunion : schema.WellFormedUnion body) {expr : ValueExpr} (hlists : body.Lists expr) :
    (context.renderUnionDecodeLabel (.case expr) body.discriminant.typeSpec
        (context.usesRawEnum body)).WellTyped items u.decodeType ∧
      (context.renderUnionLabel (.case expr) body.discriminant.typeSpec).Encodable := by
  obtain ⟨arm, harm, hlabel⟩ := hlists
  obtain ⟨field, hfield⟩ := hspec.fields arm harm
  have hdefault : .default ∉ arm.labels := by
    intro hin
    rw [hunion.alone arm harm hin] at hlabel
    cases List.mem_singleton.mp hlabel
  constructor
  · exact hcompiles.patterns name u hmem _
      ((hspec.arms _).mpr ⟨arm, harm, hdefault, _, hlabel, field, hfield, rfl⟩)
  · exact hcompiles.literals name u hmem _
      ((hspec.variants _).mpr ⟨arm, harm, _, hlabel, field, hfield, rfl⟩) rfl

/-- Where the discriminant is not raw, labels are matched as they are written. -/
theorem renderUnionDecodeLabel_of_not_raw {label : UnionCaseLabel} {discriminant : TypeSpec}
    {raw : Bool} (h : raw = false) :
    context.renderUnionDecodeLabel label discriminant raw =
      .expr (context.renderUnionLabel label discriminant) := by
  subst h
  rfl

/-- A number as the label of a union that is not over booleans. -/
theorem EmitContext.numberLabel {n : Int} (hi32 : IsI32 n) :
    context.NumberLabel body (.number n) := by
  refine ⟨n, rfl, hi32, rfl, ?_⟩
  unfold renderUnionDecodeLabel
  split <;> rfl

/-- With a plain discriminant every label is a number. -/
theorem UnionSpec.numberLabel (hspec : UnionSpec context name body u) (hcompiles : Compiles items)
    (hmem : .union name u ∈ items) (hunion : schema.WellFormedUnion body)
    (henum : context.enumTypeNameFor body.discriminant.typeSpec = none)
    (hbool : body.discriminant.typeSpec ≠ .bool) (htype : u.decodeType ≠ .bool)
    (htype' : u.decodeType ≠ .i64) {expr : ValueExpr} (hlists : body.Lists expr) :
    context.NumberLabel body expr := by
  obtain ⟨hpattern, hencodable⟩ := hspec.typed_of_lists hcompiles hmem hunion hlists
  rcases expr with n | other
  · exact EmitContext.numberLabel hencodable
  · have hraw : context.usesRawEnum body = false := by
      rw [EmitContext.usesRawEnum, henum]
      exact Bool.and_false _
    rw [renderUnionDecodeLabel_of_not_raw hraw] at hpattern
    have hlabel : context.renderUnionLabel (.case (.identifier other))
        body.discriminant.typeSpec = EmitContext.renderValue (.identifier other) := by
      unfold EmitContext.renderUnionLabel
      split
      · next heq => exact absurd heq hbool
      · next heq => exact absurd heq hbool
      · next heq _ _ =>
        cases heq
        rw [henum]
      · simp_all
      · next heq => cases heq
    rw [hlabel] at hpattern
    unfold EmitContext.renderValue at hpattern
    split at hpattern
    · exact absurd hpattern htype
    · exact absurd hpattern htype
    · exact absurd hpattern htype'

/-- A plain discriminant is decoded as its own type. -/
theorem UnionSpec.decodeType_of_plain (hspec : UnionSpec context name body u)
    (hunion : schema.WellFormedUnion body)
    (henum : context.enumTypeNameFor body.discriminant.typeSpec = none)
    (hdata : body.discriminant.typeSpec ≠ .opaqueData) :
    u.decodeType = rustTypeForBase body.discriminant.typeSpec (hintFor name "discriminant") := by
  obtain ⟨type, htype, hdecode⟩ := hspec.decodeType
  have hraw : context.usesRawEnum body = false := by
    rw [EmitContext.usesRawEnum, henum]
    exact Bool.and_false _
  rw [hdecode, EmitContext.unionDecodeDiscriminantType, hraw]
  rw [hunion.plain] at htype
  simp only [rustTypeForDeclaration] at htype
  exact (Except.ok.inj htype).symm

/-- A label of a union over booleans. -/
theorem EmitContext.renders_bool (hdiscriminant : body.discriminant.typeSpec = .bool)
    {expr : ValueExpr} {x : Int} (h : schema.LabelValue .bool expr x) :
    expr = .identifier "TRUE" ∧ context.Renders body expr (.bool true) (.expr (.bool true)) ∨
      expr = .identifier "FALSE" ∧
        context.Renders body expr (.bool false) (.expr (.bool false)) := by
  have hraw : context.usesRawEnum body = false := by
    rw [EmitContext.usesRawEnum, hdiscriminant]
    exact Bool.and_false _
  cases h with
  | true =>
    refine .inl ⟨rfl, ?_, ?_⟩
    · rw [hdiscriminant]
      rfl
    · rw [renderUnionDecodeLabel_of_not_raw hraw, hdiscriminant]
      rfl
  | false =>
    refine .inr ⟨rfl, ?_, ?_⟩
    · rw [hdiscriminant]
      rfl
    · rw [renderUnionDecodeLabel_of_not_raw hraw, hdiscriminant]
      rfl

/-- The form a union has. -/
theorem UnionSpec.kind (hspec : UnionSpec context name body u) (h : schema.Compiled items)
    (hknows : schema.Knows context) (hmem : .union name u ∈ items)
    (hunion : schema.WellFormedUnion body) :
    UnionKind schema items context body u.decodeType := by
  have hlabel (expr : ValueExpr) (hlists : body.Lists expr) :
      expr.Usable ∧ ∃ x, schema.LabelValue body.discriminant.typeSpec expr x := by
    obtain ⟨arm, harm, hin⟩ := hlists
    exact hunion.labels arm harm expr hin
  have hkind := hunion.discriminant
  generalize hdiscriminant : body.discriminant.typeSpec = discriminant at hkind
  rcases hkind with _ | _ | _ | ⟨hdeclares, husable⟩
  · have henum : context.enumTypeNameFor body.discriminant.typeSpec = none := by
      rw [hdiscriminant]
      rfl
    have htype := hspec.decodeType_of_plain hunion henum (by rw [hdiscriminant]; nofun)
    rw [htype, hdiscriminant]
    refine .bool hdiscriminant fun expr hlists => ?_
    obtain ⟨-, x, hx⟩ := hlabel expr hlists
    rw [hdiscriminant] at hx
    exact EmitContext.renders_bool hdiscriminant hx
  · have henum : context.enumTypeNameFor body.discriminant.typeSpec = none := by
      rw [hdiscriminant]
      rfl
    have htype := hspec.decodeType_of_plain hunion henum (by rw [hdiscriminant]; nofun)
    rw [hdiscriminant] at htype
    have hnumber (expr : ValueExpr) := @UnionSpec.numberLabel schema items context name body u hspec
      h.compiles hmem hunion henum (by rw [hdiscriminant]; nofun) (by rw [htype]; nofun)
      (by rw [htype]; nofun) expr
    rw [htype]
    exact .int hdiscriminant hnumber
  · have henum : context.enumTypeNameFor body.discriminant.typeSpec = none := by
      rw [hdiscriminant]
      rfl
    have htype := hspec.decodeType_of_plain hunion henum (by rw [hdiscriminant]; nofun)
    rw [hdiscriminant] at htype
    have hnumber (expr : ValueExpr) := @UnionSpec.numberLabel schema items context name body u hspec
      h.compiles hmem hunion henum (by rw [hdiscriminant]; nofun) (by rw [htype]; nofun)
      (by rw [htype]; nofun) expr
    refine htype ▸ .unsignedInt hdiscriminant fun expr hlists => ⟨hnumber expr hlists, ?_⟩
    -- The pattern is compared with a `u32`.
    rintro n rfl
    obtain ⟨hpattern, -⟩ := hspec.typed_of_lists h.compiles hmem hunion hlists
    obtain ⟨m, hm, -, -, hrendered⟩ := hnumber _ hlists
    obtain rfl := ValueExpr.number.inj hm
    rw [hrendered, htype] at hpattern
    rcases hpattern with ⟨hbad, -⟩ | ⟨-, hle, -⟩
    · cases hbad
    · exact hle
  · next enumName variants =>
    have henum : context.enumTypeNameFor body.discriminant.typeSpec = some enumName := by
      rw [hdiscriminant, EmitContext.enumTypeNameFor, hknows _ _ hdeclares husable]
    have hraw : context.usesRawEnum body = EmitContext.unionHasDefaultArm body := by
      rw [EmitContext.usesRawEnum, henum]
      exact Bool.and_true _
    obtain ⟨type, htype, hdecode⟩ := hspec.decodeType
    rw [hunion.plain, hdiscriminant] at htype
    obtain rfl := Except.ok.inj htype
    rw [EmitContext.unionDecodeDiscriminantType] at hdecode
    -- A label is a number or a variant of the enumeration.
    have hlabel' (expr : ValueExpr) (hlists : body.Lists expr) :
        (∃ n, expr = .number n) ∨ ∃ v ∈ variants.variants, expr = .identifier v.name ∧
          Usable v.name := by
      obtain ⟨hexpr, x, hx⟩ := hlabel expr hlists
      rw [hdiscriminant] at hx
      cases hx with
      | variant hdeclares' hv _ =>
        have heq := h.distinct.item_eq hdeclares' husable
        rw [h.distinct.item_eq hdeclares husable] at heq
        cases heq
        exact .inr ⟨_, hv, rfl, hexpr⟩
      | number => exact .inl ⟨_, rfl⟩
    have hlabelExpr {v : EnumVariant} (hv : Usable v.name) :
        context.renderUnionLabel (.case (.identifier v.name)) body.discriminant.typeSpec =
          .variant enumName v.name := by
      rw [hdiscriminant] at henum ⊢
      simp only [EmitContext.renderUnionLabel, henum, rustIdent_of_usable hv]
    by_cases hdefault : EmitContext.unionHasDefaultArm body = true
    · rw [hraw, hdefault, if_pos rfl] at hdecode
      rw [hdecode]
      refine .raw hdiscriminant hdeclares husable fun expr hlists => ?_
      rcases hlabel' expr hlists with ⟨n, rfl⟩ | ⟨v, hv, rfl, hvusable⟩
      · exact .inl (EmitContext.numberLabel
          (hspec.typed_of_lists h.compiles hmem hunion hlists).2)
      · refine .inr ⟨v, hv, rfl, hlabelExpr hvusable, ?_⟩
        rw [hraw, hdefault, EmitContext.renderUnionDecodeLabel, if_neg (by decide)]
        simp only [henum, rustIdent_of_usable hvusable]
    · have hfalse := Bool.eq_false_iff.mpr hdefault
      rw [hraw, hfalse, if_neg (by decide)] at hdecode
      rw [hdecode]
      refine .enum hdiscriminant hdeclares husable ?_ fun expr hlists => ?_
      · intro arm harm hin
        exact hdefault (List.any_eq_true.mpr ⟨arm, harm, any_default_iff.mpr hin⟩)
      · rcases hlabel' expr hlists with ⟨n, rfl⟩ | ⟨v, hv, rfl, hvusable⟩
        · obtain ⟨hpattern, -⟩ := hspec.typed_of_lists h.compiles hmem hunion hlists
          rw [renderUnionDecodeLabel_of_not_raw (hraw.trans hfalse), hdecode] at hpattern
          rcases hpattern with ⟨hbad, -⟩ | ⟨hbad, -⟩ <;> cases hbad
        · refine ⟨v, hv, rfl, hlabelExpr hvusable, ?_⟩
          rw [renderUnionDecodeLabel_of_not_raw (hraw.trans hfalse), hlabelExpr hvusable]

/-! ## Numbers -/

/-- A number stands for itself. -/
theorem Schema.denotes_number {n x : Int} : schema.Denotes (.number n) x ↔ x = n := by
  constructor
  · rintro ⟨fuel, h⟩
    rcases fuel with _ | fuel <;> exact (Option.some.inj h).symm
  · rintro rfl
    exact ⟨0, rfl⟩

/-- Cutting a number to a word is the same with and without its sign. -/
theorem ofInt_eq_toUInt32 (x : Int) : UInt32.ofInt x = (Int32.ofInt x).toUInt32 := by
  apply UInt32.toBitVec_inj.mp
  change _ = (Int32.ofInt x).toBitVec
  rw [Int32.toBitVec_ofInt]
  apply BitVec.eq_of_toNat_eq
  rw [BitVec.toNat_ofInt, UInt32.toNat_toBitVec, UInt32.ofInt, UInt32.toNat_ofNat']
  omega

/-- The bytes of a signed word's number are those of the word. -/
theorem intBytes_toInt (x : Int32) : Schema.intBytes x.toInt = beBytes x.toUInt32 := by
  rw [Schema.intBytes, ofInt_eq_toUInt32, Int32.ofInt_toInt]

/-- The bytes of a word's number are those of the word. -/
theorem intBytes_toNat (x : UInt32) : Schema.intBytes x.toNat = beBytes x := by
  have h : UInt32.ofInt x.toNat = x := by
    have hlt := x.toNat_lt
    apply UInt32.toNat_inj.mp
    rw [UInt32.ofInt, UInt32.toNat_ofNat']
    omega
  rw [Schema.intBytes, h]

/-- The bytes of a length are those of its length word. -/
theorem intBytes_ofNat (n : ℕ) : Schema.intBytes n = beBytes (lengthWord n) := by
  have h : UInt32.ofInt n = lengthWord n := by
    apply UInt32.toNat_inj.mp
    rw [UInt32.ofInt, lengthWord, UInt32.toNat_ofNat', UInt32.toNat_ofNat']
    omega
  rw [Schema.intBytes, h]

/-- The bytes of a truth value are those of its word. -/
theorem intBytes_bool (b : Bool) : Schema.intBytes (if b then 1 else 0) = beBytes (boolWord b) := by
  rcases b <;> rfl

/-- A number that fits into a signed word is the number of one. -/
theorem IsI32.exists_toInt {x : Int} (h : IsI32 x) : ∃ y : Int32, y.toInt = x :=
  ⟨Int32.ofInt x, Int32.toInt_ofInt_of_le h.1 h.2⟩

/-! ## What a discriminant stands for -/

/-- The number a discriminant of the given type stands for. -/
def Stands (items : List RustItem) : RustType → Value → Int → Prop
  | .bool, .bool b, x => x = if b then 1 else 0
  | .i32, .i32 y, x => x = y.toInt
  | .u32, .u32 y, x => x = y.toNat
  | .named enumName, .enum variant, x => enumValue items enumName variant = some x
  | _, _, _ => False

/-- The number of a variant, as a label. -/
theorem Schema.Compiled.labelValue_variant_iff (h : schema.Compiled items) {enumName : String}
    {variants : EnumBody} (hdeclares : schema.Declares enumName (.enum enumName variants))
    (husable : Usable enumName) {v : EnumVariant} (hv : v ∈ variants.variants) {x : Int} :
    schema.LabelValue (.identifier enumName) (.identifier v.name) x ↔
      enumValue items enumName v.name = some x := by
  rw [h.enumValue_iff (h.written.findType_enum hdeclares) hv
    (h.wellFormed.usable_of_enum hdeclares hv)]
  constructor
  · intro hlabel
    generalize hexpr : ValueExpr.identifier v.name = expr at hlabel
    cases hlabel with
    | @variant _ other v' _ hdeclares' hv' hdenotes =>
      have heq := h.distinct.item_eq hdeclares' husable
      rw [h.distinct.item_eq hdeclares husable] at heq
      cases heq
      have hname := ValueExpr.identifier.inj hexpr
      have hnodup := h.compiles.enumNames _ _ (findType_mem (h.written.findType_enum hdeclares))
      have hfind := find?_of_nodup hnodup hv
      rw [hname, find?_of_nodup hnodup hv'] at hfind
      rwa [← Option.some.inj hfind]
    | number => cases hexpr
  · exact .variant hdeclares hv

/-- A number as label of an enumeration stands for itself. -/
theorem Schema.labelValue_number_iff {enumName : String} {variants : EnumBody}
    (hdeclares : schema.Declares enumName (.enum enumName variants)) {n x : Int} :
    schema.LabelValue (.identifier enumName) (.number n) x ↔ x = n := by
  constructor
  · intro h
    cases h
    rfl
  · rintro rfl
    exact .number hdeclares

/-- The variant of a number. -/
theorem enumValue_eq_some {enumName variant : String} {x : Int}
    (h : enumValue items enumName variant = some x) :
    ∃ name variants v, findType items enumName = some (.enum name variants) ∧ v ∈ variants ∧
      v.name = variant ∧ i64Value items v.value = some x := by
  unfold enumValue at h
  split at h
  · next name variants hfind =>
    obtain ⟨v, hv, hx⟩ := Option.bind_eq_some_iff.mp h
    refine ⟨name, variants, v, hfind, List.mem_of_find?_eq_some hv, ?_, hx⟩
    simpa using List.find?_some hv
  · cases h

/-- Distinct variants have distinct numbers. -/
theorem Compiles.variant_eq (h : Compiles items) {enumName variant variant' : String} {x : Int}
    (hx : enumValue items enumName variant = some x)
    (hx' : enumValue items enumName variant' = some x) : variant = variant' := by
  obtain ⟨name, variants, v, hfind, hv, rfl, hvalue⟩ := enumValue_eq_some hx
  obtain ⟨_, _, v', hfind', hv', rfl, hvalue'⟩ := enumValue_eq_some hx'
  rw [hfind] at hfind'
  cases hfind'
  rw [h.enumDistinct _ _ (findType_mem hfind) v hv v' hv' (hvalue.trans hvalue'.symm)]

/-- A number covers exactly the discriminants that stand for it. -/
theorem NumberLabel.covers_iff {type : RustType} {n x : Int} {d : Value}
    (htype : type = .i32 ∨ type = .u32) (hstands : Stands items type d x) :
    (LabelPattern.expr (.value (.number n))).covers items d = true ↔ x = n := by
  have hvalue (y : Int) : decide (i64Value items (.number n) = some y) = true ↔ y = n := by
    rw [decide_eq_true_iff, i64Value, ValueExpr.resolve, Option.some.injEq]
    exact eq_comm
  rcases htype with rfl | rfl
  · rcases d
    case i32 y =>
      obtain rfl := hstands
      exact hvalue y.toInt
    all_goals exact hstands.elim
  · rcases d
    case u32 y =>
      obtain rfl := hstands
      exact hvalue y.toNat
    all_goals exact hstands.elim

/-- `TRUE` and `FALSE` stand for one and zero. -/
theorem Schema.labelValue_bool_iff {b : Bool} {x : Int} :
    schema.LabelValue .bool (.identifier (if b then "TRUE" else "FALSE")) x ↔
      x = if b then 1 else 0 := by
  constructor
  · intro h
    generalize hexpr : ValueExpr.identifier (if b then "TRUE" else "FALSE") = expr at h
    rcases b <;> cases h <;> first | rfl | simp at hexpr
  · rintro rfl
    rcases b
    · exact .false
    · exact .true

namespace UnionKind

variable {type : RustType} {d : Value} {x : Int} {expr : ValueExpr}

/-- A pattern covers the discriminants that stand for the number of its label. -/
theorem covers_iff (hkind : UnionKind schema items context body type) (h : schema.Compiled items)
    (hlists : body.Lists expr) (hstands : Stands items type d x) :
    (context.renderUnionDecodeLabel (.case expr) body.discriminant.typeSpec
        (context.usesRawEnum body)).covers items d = true ↔
      schema.LabelValue body.discriminant.typeSpec expr x := by
  cases hkind with
  | bool hdiscriminant hlabels =>
    rcases d
    case bool b =>
      obtain rfl := hstands
      have hcovers (b' : Bool) : (LabelPattern.expr (.bool b')).covers items (.bool b) = true ↔
          (if b then (1 : Int) else 0) = if b' then 1 else 0 := by
        change decide (b' = b) = true ↔ _
        rcases b <;> rcases b' <;> decide
      rcases hlabels expr hlists with ⟨rfl, -, hpattern⟩ | ⟨rfl, -, hpattern⟩
      · rw [hpattern, hdiscriminant, hcovers]
        exact (@Schema.labelValue_bool_iff schema true _).symm
      · rw [hpattern, hdiscriminant, hcovers]
        exact (@Schema.labelValue_bool_iff schema false _).symm
    all_goals exact hstands.elim
  | int hdiscriminant hlabels =>
    obtain ⟨n, rfl, -, -, hpattern⟩ := hlabels expr hlists
    rw [hpattern, NumberLabel.covers_iff (.inl rfl) hstands, hdiscriminant]
    constructor
    · exact fun hx => .int (Schema.denotes_number.mpr hx)
    · intro hlabel
      cases hlabel with
      | int hdenotes => exact Schema.denotes_number.mp hdenotes
  | unsignedInt hdiscriminant hlabels =>
    obtain ⟨n, rfl, -, -, hpattern⟩ := (hlabels expr hlists).1
    rw [hpattern, NumberLabel.covers_iff (.inr rfl) hstands, hdiscriminant]
    constructor
    · exact fun hx => .unsignedInt (Schema.denotes_number.mpr hx)
    · intro hlabel
      cases hlabel with
      | unsignedInt hdenotes => exact Schema.denotes_number.mp hdenotes
  | raw hdiscriminant hdeclares husable hlabels =>
    rcases hlabels expr hlists with ⟨n, rfl, -, -, hpattern⟩ | ⟨v, hv, rfl, -, hpattern⟩
    · rw [hpattern, NumberLabel.covers_iff (.inl rfl) hstands, hdiscriminant,
        Schema.labelValue_number_iff hdeclares]
    · rw [hpattern, hdiscriminant, h.labelValue_variant_iff hdeclares husable hv]
      rcases d
      case i32 y =>
        obtain rfl := hstands
        exact decide_eq_true_iff
      all_goals exact hstands.elim
  | enum hdiscriminant hdeclares husable _ hlabels =>
    obtain ⟨v, hv, rfl, -, hpattern⟩ := hlabels expr hlists
    rw [hpattern, hdiscriminant, h.labelValue_variant_iff hdeclares husable hv]
    rcases d
    case enum variant =>
      constructor
      · intro hcovers
        have heq : v.name = variant := of_decide_eq_true hcovers
        rw [heq]
        exact hstands
      · intro hvalue
        exact decide_eq_true (h.compiles.variant_eq hvalue hstands)
    all_goals exact hstands.elim

/-- A listed label is encoded as its number, and some discriminant stands for it. -/
theorem encodeLabel_eq (hkind : UnionKind schema items context body type)
    (h : schema.Compiled items) (hlists : body.Lists expr)
    (hx : schema.LabelValue body.discriminant.typeSpec expr x) :
    encodeLabel items (context.renderUnionLabel (.case expr) body.discriminant.typeSpec) =
        .bytes (Schema.intBytes x) ∧
      ∃ d, Stands items type d x := by
  have hnumber {n : Int} : encodeLabel items (.value (.number n)) = .bytes (Schema.intBytes n) := by
    rw [encodeLabel, Schema.intBytes, ofInt_eq_toUInt32]
  have hvariant {enumName : String} {variants : EnumBody}
      (hdeclares : schema.Declares enumName (.enum enumName variants)) (husable : Usable enumName)
      {v : EnumVariant} (hv : v ∈ variants.variants)
      (hx : schema.LabelValue (.identifier enumName) (.identifier v.name) x) :
      enumValue items enumName v.name = some x ∧
        encodeLabel items (.variant enumName v.name) = .bytes (Schema.intBytes x) := by
    have hvalue := (h.labelValue_variant_iff hdeclares husable hv).mp hx
    refine ⟨hvalue, ?_⟩
    rw [encodeLabel, hvalue, Schema.intBytes, ofInt_eq_toUInt32]
  cases hkind with
  | bool hdiscriminant hlabels =>
    rw [hdiscriminant] at hx
    rcases hlabels expr hlists with ⟨rfl, hlabel, -⟩ | ⟨rfl, hlabel, -⟩
    · obtain rfl := (@Schema.labelValue_bool_iff schema true x).mp hx
      rw [hlabel]
      exact ⟨rfl, .bool true, rfl⟩
    · obtain rfl := (@Schema.labelValue_bool_iff schema false x).mp hx
      rw [hlabel]
      exact ⟨rfl, .bool false, rfl⟩
  | int hdiscriminant hlabels =>
    obtain ⟨n, rfl, hi32, hlabel, -⟩ := hlabels expr hlists
    rw [hdiscriminant] at hx
    cases hx with
    | int hdenotes =>
      obtain rfl := Schema.denotes_number.mp hdenotes
      obtain ⟨y, rfl⟩ := hi32.exists_toInt
      rw [hlabel]
      exact ⟨hnumber, .i32 y, rfl⟩
  | unsignedInt hdiscriminant hlabels =>
    obtain ⟨⟨n, rfl, hi32, hlabel, -⟩, hnonneg⟩ := hlabels expr hlists
    rw [hdiscriminant] at hx
    cases hx with
    | unsignedInt hdenotes =>
      obtain rfl := Schema.denotes_number.mp hdenotes
      rw [hlabel]
      refine ⟨hnumber, .u32 (UInt32.ofNat x.toNat), ?_⟩
      have hle := hnonneg x rfl
      have hlt := hi32.2
      rw [Stands, UInt32.toNat_ofNat']
      omega
  | raw hdiscriminant hdeclares husable hlabels =>
    rw [hdiscriminant] at hx
    rcases hlabels expr hlists with ⟨n, rfl, hi32, hlabel, -⟩ | ⟨v, hv, rfl, hlabel, -⟩
    · obtain rfl := (Schema.labelValue_number_iff hdeclares).mp hx
      obtain ⟨y, rfl⟩ := hi32.exists_toInt
      rw [hlabel]
      exact ⟨hnumber, .i32 y, rfl⟩
    · obtain ⟨hvalue, hencode⟩ := hvariant hdeclares husable hv hx
      obtain ⟨y, hy, hi32⟩ := h.enumValue_isI32 hdeclares hv
      obtain rfl := Option.some.inj (hvalue.symm.trans hy)
      obtain ⟨y, rfl⟩ := hi32.exists_toInt
      rw [hlabel]
      exact ⟨hencode, .i32 y, rfl⟩
  | enum hdiscriminant hdeclares husable _ hlabels =>
    rw [hdiscriminant] at hx
    obtain ⟨v, hv, rfl, hlabel, -⟩ := hlabels expr hlists
    obtain ⟨hvalue, hencode⟩ := hvariant hdeclares husable hv hx
    rw [hlabel]
    exact ⟨hencode, .enum v.name, hvalue⟩

/-- With a default arm, the discriminants are those the default variant keeps. -/
theorem stands_iff (hkind : UnionKind schema items context body type)
    (hdefault : ∃ arm ∈ body.arms, .default ∈ arm.labels) :
    Stands items type d x ↔ schema.DiscriminantValue body.discriminant.typeSpec d x := by
  cases hkind with
  | bool hdiscriminant _ =>
    rw [hdiscriminant]
    constructor
    · intro hstands
      rcases d
      case bool b =>
        obtain rfl := hstands
        exact .bool b
      all_goals exact hstands.elim
    · intro hvalue
      cases hvalue
      rfl
  | int hdiscriminant _ =>
    rw [hdiscriminant]
    constructor
    · intro hstands
      rcases d
      case i32 y =>
        obtain rfl := hstands
        exact .int y
      all_goals exact hstands.elim
    · intro hvalue
      cases hvalue
      rfl
  | unsignedInt hdiscriminant _ =>
    rw [hdiscriminant]
    constructor
    · intro hstands
      rcases d
      case u32 y =>
        obtain rfl := hstands
        exact .unsignedInt y
      all_goals exact hstands.elim
    · intro hvalue
      cases hvalue
      rfl
  | raw hdiscriminant hdeclares _ _ =>
    rw [hdiscriminant]
    constructor
    · intro hstands
      rcases d
      case i32 y =>
        obtain rfl := hstands
        exact .enum y hdeclares
      all_goals exact hstands.elim
    · intro hvalue
      cases hvalue
      rfl
  | enum _ _ _ hnone _ =>
    obtain ⟨arm, harm, hin⟩ := hdefault
    exact absurd hin (hnone arm harm)

/-- With a default arm, every discriminant stands for a number. -/
theorem exists_stands (hkind : UnionKind schema items context body type)
    (hdefault : ∃ arm ∈ body.arms, .default ∈ arm.labels) {named : String → Value → Prop}
    (htyped : typedBy items named type d) : ∃ x, Stands items type d x := by
  cases hkind with
  | bool =>
    rcases d
    case bool b => exact ⟨_, rfl⟩
    all_goals exact htyped.elim
  | int | raw =>
    rcases d
    case i32 y => exact ⟨_, rfl⟩
    all_goals exact htyped.elim
  | unsignedInt =>
    rcases d
    case u32 y => exact ⟨_, rfl⟩
    all_goals exact htyped.elim
  | enum _ _ _ hnone _ =>
    obtain ⟨arm, harm, hin⟩ := hdefault
    exact absurd hin (hnone arm harm)

end UnionKind

/-- A discriminant that is no enumeration is encoded as the word it stands for. -/
theorem encodeDiscriminant_eq {type : RustType} {d : Value} {x : Int}
    (hstands : Stands items type d x) (hnamed : ∀ enumName, type ≠ .named enumName) :
    encodeDiscriminant d = .bytes (Schema.intBytes x) := by
  unfold Stands at hstands
  split at hstands
  · rw [hstands, intBytes_bool]
    rfl
  · rw [hstands, intBytes_toInt]
    rfl
  · rw [hstands, intBytes_toNat]
    rfl
  · exact absurd rfl (hnamed _)
  · exact hstands.elim

open Cursor in
/-- A discriminant is read from the number it stands for. -/
theorem Stands.reads {type : RustType} {d : Value} {x : Int} (hstands : Stands items type d x)
    (hcompiles : Compiles items) :
    Reads (fun n => decodeXdr items n type) (Schema.intBytes x) d := by
  unfold Stands at hstands
  split at hstands
  · next b =>
    rw [hstands, intBytes_bool]
    exact (Reads.of_forall (decodeBool_boolWord b)).map Value.bool
  · next y =>
    rw [hstands, intBytes_toInt]
    exact (Reads.of_forall (readXdrI32_beBytes y)).map Value.i32
  · next y =>
    rw [hstands, intBytes_toNat]
    exact (Reads.of_forall (readXdrU32_beBytes y)).map Value.u32
  · next enumName variant =>
    obtain ⟨name, variants, v, hfind, hv, rfl, hvalue⟩ := enumValue_eq_some hstands
    have hmem := findType_mem hfind
    obtain ⟨y, hy, hi32⟩ := hcompiles.enumValues _ _ hmem v hv
    obtain rfl := Option.some.inj (hvalue.symm.trans hy)
    obtain ⟨y, rfl⟩ := hi32.exists_toInt
    have hread (decode : RustType → XdrDecoder Value) (rest : Bytes) :
        decodeItem items decode (.enum name variants) (beBytes y.toUInt32 ++ rest) =
          some (.ok (.enum v.name), rest) := by
      rw [decodeItem, bind_of_ok (readXdrI32_beBytes y rest),
        find?_of_unique hv (decide_eq_true hvalue)]
      · rfl
      · intro other hother hsame
        exact hcompiles.enumDistinct _ _ hmem other hother v hv
          ((of_decide_eq_true hsame).trans hvalue.symm)
    rw [intBytes_toInt]
    exact Reads.of_succ (decodeXdr_named hfind) (Filter.Eventually.of_forall fun _ => hread _)
  · exact hstands.elim

end OncRpc
