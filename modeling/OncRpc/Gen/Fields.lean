import OncRpc.Gen.Correspondence

/-!
# Fields, structures and unions

The templates the emitter chooses for a field do what the codecs of its type do (`encodeField_eq`,
`decodeField_eq`), so a structure is encoded and decoded as the list of its fields.  For a union
this module says what variants, arms and fallback its item has.
-/

namespace OncRpc

open Foundation

variable {schema : Schema} {items : List RustItem} {context : EmitContext}

/-! ## Named types -/

/-- A named type is encoded as the item of that name. -/
theorem encodeXdr_named {name : String} {item : RustItem} (h : findType items name = some item)
    (fuel : ℕ) (value : Value) :
    encodeXdr items (fuel + 1) (.named name) value =
      encodeItem items (encodeXdr items fuel) item value := by
  change encodeNamed items (fuel + 1) name value = _
  rw [encodeNamed, h]
  rfl

/-- A named type is decoded as the item of that name. -/
theorem decodeXdr_named {name : String} {item : RustItem} (h : findType items name = some item)
    (fuel : ℕ) :
    decodeXdr items (fuel + 1) (.named name) = decodeItem items (decodeXdr items fuel) item := by
  change decodeNamed items (fuel + 1) name = _
  rw [decodeNamed, h]
  rfl

/-! ## Fields -/

/-- No type but that of bytes is taken for it. -/
def NoByteAlias (items : List RustItem) : Prop :=
  ∀ type : RustType, type ≠ .u8 → isByte items type = false

/-- Only opaque data is written as `u8`. -/
theorem rustTypeForBase_ne_u8 {target : TypeSpec} (h : target ≠ .opaqueData) (hint : String) :
    rustTypeForBase target hint ≠ .u8 := by
  rcases target with _ | _ | _ | _ | _ | _ | _ | _ | _ | _ | _ | _ | _ | _ | _ | _ | _
  case opaqueData => exact absurd rfl h
  all_goals nofun

/-- The parts of a field that is emitted. -/
theorem fieldFor_eq_ok {owner : String} {target : TypeSpec} {declarator : Declarator}
    {field : RustField} (h : context.fieldFor owner target declarator = .ok field) :
    rustTypeForDeclaration target declarator.modifier (hintFor owner declarator.name) =
        .ok field.type ∧
      decodeDeclarationExpr target declarator.modifier (hintFor owner declarator.name) =
        .ok field.decode ∧
      field.encode = emitEncodeDeclaration target declarator.modifier ∧
      field.segments = context.segmentedDeclaration target declarator.modifier := by
  obtain ⟨type, htype, h⟩ := except_bind_eq_ok.mp h
  obtain ⟨decode, hdecode, h⟩ := except_bind_eq_ok.mp h
  cases h
  exact ⟨htype, hdecode, rfl, rfl⟩

/-- A bound is written as it is. -/
theorem renderArrayBound_eq_ok {bound len : ValueExpr} (h : renderArrayBound bound = .ok len) :
    len = bound := by
  rcases bound with value | name
  · change (if 0 ≤ value then _ else _) = _ at h
    split at h
    · exact (Except.ok.inj h).symm
    · cases h
  · exact (Except.ok.inj h).symm

/-- The type and the templates of a declaration. -/
inductive Rendered (target : TypeSpec) (hint : String) :
    Option DeclaratorModifier → RustType → EncodeStmt → DecodeExpr → Prop where
  | plain : Rendered target hint none (rustTypeForBase target hint) .encodeXdr
    (.decodeXdr (rustTypeForBase target hint))
  | bytes (bound : Option ValueExpr) : target = .opaqueData →
    Rendered target hint (some (.variableArray bound)) (.bytes bound) .encodeXdr
      (.decodeXdr (.bytes none))
  | string (bound : Option ValueExpr) : target = .string →
    Rendered target hint (some (.variableArray bound)) (.string bound) .encodeXdr
      (.decodeXdr (.string none))
  | vec (bound : Option ValueExpr) : target ≠ .opaqueData → target ≠ .string →
    Rendered target hint (some (.variableArray bound)) (.vec (rustTypeForBase target hint) bound)
      .lenThenEach (.decodeXdr (.vec (rustTypeForBase target hint) none))
  | fixedOpaque (bound : ValueExpr) : target = .opaqueData →
    Rendered target hint (some (.fixedArray bound)) (.array .u8 bound) .writeFixedOpaque
      (.decodeXdr (.array .u8 bound))
  | array (bound : ValueExpr) : target ≠ .opaqueData →
    Rendered target hint (some (.fixedArray bound)) (.array (rustTypeForBase target hint) bound)
      .each (.decodeFixedArray (rustTypeForBase target hint) bound)
  | optional : Rendered target hint (some .optional) (.optionBox (rustTypeForBase target hint))
    .encodeXdr (.decodeXdr (.optionBox (rustTypeForBase target hint)))

/-- A declaration with a type has its encoder and decoder rendered with it. -/
theorem rustTypeForDeclaration_rendered {target : TypeSpec} {modifier : Option DeclaratorModifier}
    {hint : String} {type : RustType} (h : rustTypeForDeclaration target modifier hint = .ok type) :
    ∃ decode, decodeDeclarationExpr target modifier hint = .ok decode ∧
      Rendered target hint modifier type (emitEncodeDeclaration target modifier) decode := by
  rcases modifier with _ | (bound | bound | _)
  · refine ⟨_, rfl, ?_⟩
    have htype : type = rustTypeForBase target hint := by
      simp only [rustTypeForDeclaration] at h
      split at h <;> exact (Except.ok.inj h).symm
    rw [htype]
    exact .plain
  · obtain ⟨len, hlen, htype⟩ := except_bind_eq_ok.mp h
    obtain rfl := renderArrayBound_eq_ok hlen
    by_cases hdata : target = .opaqueData
    · subst hdata
      obtain rfl := Except.ok.inj htype
      exact ⟨_, except_bind_eq_ok.mpr ⟨len, hlen, rfl⟩, .fixedOpaque len rfl⟩
    · have hencode : emitEncodeDeclaration target (some (.fixedArray len)) = .each := by
        simp only [emitEncodeDeclaration]
      have hdecode : decodeDeclarationExpr target (some (.fixedArray len)) hint =
          .ok (.decodeFixedArray (rustTypeForBase target hint) len) := by
        refine except_bind_eq_ok.mpr ⟨len, hlen, ?_⟩
        split
        · exact absurd rfl hdata
        · rfl
      split at htype
      · exact absurd rfl hdata
      · obtain rfl := Except.ok.inj htype
        rw [hencode]
        exact ⟨_, hdecode, .array len hdata⟩
  · by_cases hdata : target = .opaqueData
    · subst hdata
      obtain rfl := Except.ok.inj h
      exact ⟨_, rfl, .bytes bound rfl⟩
    by_cases hstring : target = .string
    · subst hstring
      obtain rfl := Except.ok.inj h
      exact ⟨_, rfl, .string bound rfl⟩
    simp only [rustTypeForDeclaration] at h
    simp only [decodeDeclarationExpr, emitEncodeDeclaration]
    obtain rfl := Except.ok.inj h
    exact ⟨_, rfl, .vec bound hdata hstring⟩
  · obtain rfl := Except.ok.inj h
    exact ⟨_, rfl, .optional⟩

/-- The type and the templates of a field. -/
theorem fieldFor_rendered {owner : String} {target : TypeSpec} {declarator : Declarator}
    {field : RustField} (h : context.fieldFor owner target declarator = .ok field) :
    Rendered target (hintFor owner declarator.name) declarator.modifier field.type field.encode
      field.decode := by
  obtain ⟨htype, hdecode, hencode, -⟩ := fieldFor_eq_ok h
  obtain ⟨decode, hdecode', hrendered⟩ := rustTypeForDeclaration_rendered htype
  rw [hdecode] at hdecode'
  rwa [← Except.ok.inj hdecode', ← hencode] at hrendered

/-- The template for encoding a field is the codec of its type. -/
theorem encodeField_eq (hbyte : NoByteAlias items) {target : TypeSpec} {hint : String}
    {modifier : Option DeclaratorModifier} {field : RustField}
    (h : Rendered target hint modifier field.type field.encode field.decode) (fuel : ℕ)
    (value : Value) :
    encodeField (encodeXdr items fuel) field value = encodeXdr items fuel field.type value := by
  obtain ⟨name, type, encode, decode, segments⟩ := field
  rcases h with _ | _ | _ | ⟨bound, hdata, hstring⟩ | ⟨bound, hdata⟩ | ⟨bound, hdata⟩ | _
  case vec => rcases value <;> rfl
  case fixedOpaque => rcases value <;> rfl
  case array =>
    have hfalse := hbyte _ (rustTypeForBase_ne_u8 hdata hint)
    rcases value
    case array values =>
      rw [encodeXdr, encodeType, hfalse]
      rfl
    all_goals rfl
  all_goals rfl

/-- The template for decoding a field is the codec of its type. -/
theorem decodeField_eq (hbyte : NoByteAlias items) {target : TypeSpec} {hint : String}
    {modifier : Option DeclaratorModifier} {field : RustField}
    (h : Rendered target hint modifier field.type field.encode field.decode) (fuel : ℕ) :
    decodeField items (decodeXdr items fuel) field = decodeXdr items fuel field.type := by
  obtain ⟨name, type, encode, decode, segments⟩ := field
  rcases h with _ | _ | _ | ⟨bound, hdata, hstring⟩ | ⟨bound, hdata⟩ | ⟨bound, hdata⟩ | _
  case array =>
    have hfalse := hbyte _ (rustTypeForBase_ne_u8 hdata hint)
    rw [decodeXdr, decodeType, hfalse]
    rfl
  all_goals rfl

/-! ## Structures -/

/-- A list is mapped exactly if all its members are. -/
theorem mapM_eq_ok {ε α β : Type} {f : α → Except ε β} {xs : List α} {ys : List β} :
    xs.mapM f = .ok ys ↔ List.Forall₂ (fun x y => f x = .ok y) xs ys := by
  induction xs generalizing ys with
  | nil =>
    rw [List.mapM_nil, List.forall₂_nil_left_iff]
    exact ⟨fun h => (Except.ok.inj h).symm, fun h => h ▸ rfl⟩
  | cons x xs ih =>
    simp only [List.mapM_cons, except_bind_eq_ok, List.forall₂_cons_left_iff]
    constructor
    · rintro ⟨y, hy, more, hmore, h⟩
      exact ⟨y, more, hy, ih.mp hmore, (Except.ok.inj h).symm⟩
    · rintro ⟨y, more, hy, hmore, rfl⟩
      exact ⟨y, hy, more, ih.mpr hmore, rfl⟩

/-- A structure is emitted with the fields of its declarations. -/
theorem structItem_eq_ok {name : String} {body : StructBody} {item : RustItem}
    (h : context.structItem name body = .ok item) :
    ∃ fields, item = .struct name fields ∧
      List.Forall₂ (fun d field => context.fieldFor name d.typeSpec d.declarator = .ok field)
        body.declarations fields := by
  obtain ⟨fields, hfields, hitem⟩ := except_bind_eq_ok.mp h
  exact ⟨fields, (Except.ok.inj hitem).symm, mapM_eq_ok.mp hfields⟩

/-! ## Unions -/

/-- What the item of a union has. -/
structure UnionSpec (context : EmitContext) (name : String) (body : UnionBody) (u : RustUnion) :
    Prop where
  decodeType : ∃ type, rustTypeForDeclaration body.discriminant.typeSpec
      body.discriminant.declarator.modifier (hintFor name "discriminant") = .ok type ∧
    u.decodeType = context.unionDecodeDiscriminantType body type
  variants : ∀ v, v ∈ u.variants ↔ ∃ arm ∈ body.arms, ∃ label ∈ arm.labels, ∃ field,
    context.armField name arm = .ok field ∧ v = {
      name := unionVariantName label
      isDefault := label == .default
      label := context.renderUnionLabel label body.discriminant.typeSpec
      field := field
      isVoid := arm.declaration.typeSpec matches .void }
  arms : ∀ a, a ∈ u.arms ↔ ∃ arm ∈ body.arms, .default ∉ arm.labels ∧ ∃ label ∈ arm.labels,
    ∃ field, context.armField name arm = .ok field ∧ a = {
      pattern := context.renderUnionDecodeLabel label body.discriminant.typeSpec
        (context.usesRawEnum body)
      variant := unionVariantName label
      field := field }
  fields : ∀ arm ∈ body.arms, ∃ field, context.armField name arm = .ok field
  fallback : context.unionFallback name body u.decodeType = .ok u.fallback

/-- The test for a default label finds it. -/
theorem any_default_iff {arm : UnionArm} :
    (arm.labels.any (· == .default)) = true ↔ .default ∈ arm.labels := by
  rw [List.any_eq_true]
  constructor
  · rintro ⟨label, hmem, hlabel⟩
    rwa [← beq_iff_eq.mp hlabel]
  · exact fun hmem => ⟨.default, hmem, rfl⟩

/-- An arm is emitted with one variant for each label. -/
theorem armVariants_eq_ok {owner : String} {discriminant : TypeSpec} {arm : UnionArm}
    {variants : List RustVariant} (h : context.armVariants owner discriminant arm = .ok variants) :
    ∃ field, context.armField owner arm = .ok field ∧ variants = arm.labels.map fun label => {
      name := unionVariantName label
      isDefault := label == .default
      label := context.renderUnionLabel label discriminant
      field := field
      isVoid := arm.declaration.typeSpec matches .void } := by
  obtain ⟨field, hfield, hvariants⟩ := except_bind_eq_ok.mp h
  exact ⟨field, hfield, (Except.ok.inj hvariants).symm⟩

/-- An arm is decoded by one pattern for each label, a default arm by none. -/
theorem armDecodes_eq_ok {owner : String} {body : UnionBody} {arm : UnionArm}
    {arms : List DecodeArm} (h : context.armDecodes owner body arm = .ok arms) :
    .default ∈ arm.labels ∧ arms = [] ∨ .default ∉ arm.labels ∧ ∃ field,
      context.armField owner arm = .ok field ∧ arms = arm.labels.map fun label => {
        pattern := context.renderUnionDecodeLabel label body.discriminant.typeSpec
          (context.usesRawEnum body)
        variant := unionVariantName label
        field := field } := by
  rw [EmitContext.armDecodes] at h
  split at h
  · next hdefault => exact .inl ⟨any_default_iff.mp hdefault, (Except.ok.inj h).symm⟩
  · next hdefault =>
    obtain ⟨field, hfield, harms⟩ := except_bind_eq_ok.mp h
    exact .inr ⟨fun hmem => hdefault (any_default_iff.mpr hmem), field, hfield,
      (Except.ok.inj harms).symm⟩

/-- A union is emitted as its specification says. -/
theorem unionItem_eq_ok {name : String} {body : UnionBody} {item : RustItem}
    (h : context.unionItem name body = .ok item) :
    ∃ u, item = .union name u ∧ UnionSpec context name body u := by
  obtain ⟨type, htype, h⟩ := except_bind_eq_ok.mp h
  obtain ⟨variants, hvariants, h⟩ := except_bind_eq_ok.mp h
  obtain ⟨arms, harms, h⟩ := except_bind_eq_ok.mp h
  obtain ⟨fallback, hfallback, h⟩ := except_bind_eq_ok.mp h
  obtain rfl := Except.ok.inj h
  have hvariants := mapM_eq_ok.mp hvariants
  have harms := mapM_eq_ok.mp harms
  refine ⟨_, rfl, ⟨type, htype, rfl⟩, fun v => ?_, fun a => ?_, fun arm harm => ?_, hfallback⟩
  · rw [mem_flatten_of_forall₂ hvariants]
    constructor
    · rintro ⟨arm, harm, made, hmade, -, hv⟩
      obtain ⟨field, hfield, rfl⟩ := armVariants_eq_ok hmade
      obtain ⟨label, hlabel, rfl⟩ := List.mem_map.mp hv
      exact ⟨arm, harm, label, hlabel, field, hfield, rfl⟩
    · rintro ⟨arm, harm, label, hlabel, field, hfield, rfl⟩
      obtain ⟨made, hmem, hmade⟩ := exists_of_mem_left hvariants harm
      refine ⟨arm, harm, made, hmade, hmem, ?_⟩
      obtain ⟨field', hfield', rfl⟩ := armVariants_eq_ok hmade
      obtain rfl := Except.ok.inj (hfield.symm.trans hfield')
      exact List.mem_map.mpr ⟨label, hlabel, rfl⟩
  · rw [mem_flatten_of_forall₂ harms]
    constructor
    · rintro ⟨arm, harm, made, hmade, -, ha⟩
      rcases armDecodes_eq_ok hmade with ⟨-, rfl⟩ | ⟨hdefault, field, hfield, rfl⟩
      · cases ha
      · obtain ⟨label, hlabel, rfl⟩ := List.mem_map.mp ha
        exact ⟨arm, harm, hdefault, label, hlabel, field, hfield, rfl⟩
    · rintro ⟨arm, harm, hdefault, label, hlabel, field, hfield, rfl⟩
      obtain ⟨made, hmem, hmade⟩ := exists_of_mem_left harms harm
      refine ⟨arm, harm, made, hmade, hmem, ?_⟩
      rcases armDecodes_eq_ok hmade with ⟨hdefault', -⟩ | ⟨-, field', hfield', rfl⟩
      · exact absurd hdefault' hdefault
      · obtain rfl := Except.ok.inj (hfield.symm.trans hfield')
        exact List.mem_map.mpr ⟨label, hlabel, rfl⟩
  · obtain ⟨made, -, hmade⟩ := exists_of_mem_left hvariants harm
    obtain ⟨field, hfield, -⟩ := armVariants_eq_ok hmade
    exact ⟨field, hfield⟩

/-- Only `void` without modifier is written as the unit type. -/
theorem rustTypeForDeclaration_eq_unit {target : TypeSpec} {modifier : Option DeclaratorModifier}
    {hint : String} {type : RustType} (h : rustTypeForDeclaration target modifier hint = .ok type) :
    type = .unit ↔ target = .void ∧ modifier = none := by
  obtain ⟨decode, -, hrendered⟩ := rustTypeForDeclaration_rendered h
  generalize emitEncodeDeclaration target modifier = encode at hrendered
  rcases hrendered with _ | _ | _ | _ | _ | _ | _
  case plain =>
    rcases target with _ | _ | _ | _ | _ | _ | _ | _ | _ | _ | _ | _ | _ | _ | _ | _ | _
    case void => exact ⟨fun _ => ⟨rfl, rfl⟩, fun _ => rfl⟩
    all_goals exact ⟨nofun, fun h => nomatch h.1⟩
  all_goals exact ⟨nofun, fun h => nomatch h.2⟩

/-- The field of an arm is left out if the arm is void. -/
theorem armField_eq_ok {owner : String} {arm : UnionArm} {field : Option RustField}
    (h : context.armField owner arm = .ok field) :
    arm.declaration.typeSpec = .void ∧ arm.declaration.declarator.modifier = none ∧ field = none ∨
    ¬ (arm.declaration.typeSpec = .void ∧ arm.declaration.declarator.modifier = none) ∧
      ∃ f, field = some f ∧
        context.fieldFor owner arm.declaration.typeSpec arm.declaration.declarator = .ok f := by
  obtain ⟨f, hf, hfield⟩ := except_bind_eq_ok.mp h
  obtain ⟨htype, -⟩ := fieldFor_eq_ok hf
  have hunit := rustTypeForDeclaration_eq_unit htype
  have hfield := Except.ok.inj hfield
  by_cases hvoid : f.type = .unit
  · rw [if_pos hvoid] at hfield
    exact .inl ⟨(hunit.mp hvoid).1, (hunit.mp hvoid).2, hfield.symm⟩
  · rw [if_neg hvoid] at hfield
    exact .inr ⟨fun h => hvoid (hunit.mpr h), f, hfield.symm, hf⟩

end OncRpc
