import OncRpc.Gen.Labels

/-!
# Generated codecs

The codecs generated for a well-formed schema write the encodings of the standard and read them
back.  `Schema.Encodes.codes` is an induction on the derivation of an encoding; `HasType.encodes`
finds an encoding for every value of a generated type, by induction on the names its type goes
through.
-/

namespace OncRpc

open Foundation Cursor Write OwnedLayouts

variable {schema : Schema} {items : List RustItem} {context : EmitContext}

/-! ## Declared types -/

/-- A structure that is asked for is found, with its fields and what is inside them. -/
theorem Provided.struct {name : String} {body : StructBody}
    (h : Provided items context ((TypeSpec.struct body).requests name)) :
    ∃ fields, findType items name = some (.struct name fields) ∧
      List.Forall₂ (fun d field => context.fieldFor name d.typeSpec d.declarator = .ok field)
        body.declarations fields ∧
      ∀ d ∈ body.declarations,
        Provided items context (d.typeSpec.requests (hintFor name d.declarator.name)) := by
  rw [TypeSpec.requests_struct] at h
  obtain ⟨item, hitem, hfind⟩ := h (.inline name (.struct body))
    (List.mem_append_right _ (List.mem_singleton_self _))
  obtain ⟨fields, rfl, hfields⟩ := structItem_eq_ok hitem
  refine ⟨fields, hfind name rfl, hfields, fun d hd => h.mono fun request hrequest => ?_⟩
  exact List.mem_append_left _ (List.mem_flatMap.mpr ⟨d, hd, hrequest⟩)

/-- A union that is asked for is found, with its arms and what is inside them. -/
theorem Provided.union {name : String} {body : UnionBody}
    (h : Provided items context ((TypeSpec.union body).requests name)) :
    ∃ u, findType items name = some (.union name u) ∧ UnionSpec context name body u ∧
      ∀ arm ∈ body.arms, Provided items context
        (arm.declaration.typeSpec.requests (hintFor name arm.declaration.declarator.name)) := by
  rw [TypeSpec.requests_union] at h
  obtain ⟨item, hitem, hfind⟩ := h (.inline name (.union body))
    (List.mem_append_right _ (List.mem_singleton_self _))
  obtain ⟨u, rfl, hspec⟩ := unionItem_eq_ok hitem
  refine ⟨u, hfind name rfl, hspec, fun arm harm => h.mono fun request hrequest => ?_⟩
  exact List.mem_append_left _ (List.mem_append_left _ (List.mem_flatMap.mpr ⟨arm, harm, hrequest⟩))

/-- An enumeration that is asked for is found. -/
theorem Provided.enum {name : String} {body : EnumBody}
    (h : Provided items context ((TypeSpec.enum body).requests name)) :
    findType items name = some (.enum name body.variants) := by
  obtain ⟨item, hitem, hfind⟩ := h (.inline name (.enum body)) (List.mem_singleton_self _)
  rw [hfind name rfl, ← Except.ok.inj hitem]

/-- What the items of a schema ask for is found. -/
theorem Schema.Written.provided (h : schema.Written items) {item : Item}
    (hmem : item ∈ schema.items) :
    Provided items schema.context item.requests :=
  h.own.mono fun _ hrequest => List.mem_flatMap.mpr ⟨item, hmem, hrequest⟩

/-- The type stands inside another, or behind a type definition, without a name of its own. -/
def TypeSpec.IsInline : TypeSpec → Prop
  | .enum _ | .struct _ | .union _ => True
  | _ => False

/-- What a type definition asks for: the structure, enumeration or union it is about, under its own
name or under that of a helper behind an alias, or an alias alone. -/
theorem TypedefDecl.requested (decl : TypedefDecl) :
    ∃ hint name, (Item.typedef decl).rustName = some name ∧
      decl.target.requests hint ⊆ decl.requests ∧
      ((decl.target.IsInline ∧ decl.declarator.modifier = none ∧ hint = name ∧
          name = decl.declarator.name) ∨
        name = rustIdent decl.declarator.name ∧
        ∃ inner, .typeAlias name inner decl.declarator.modifier decl.declarator.name ∈
          decl.requests ∧
          rustTypeForDeclaration inner decl.declarator.modifier decl.declarator.name =
            rustTypeForDeclaration decl.target decl.declarator.modifier hint) := by
  obtain ⟨target, ⟨name, modifier⟩⟩ := decl
  rcases modifier with _ | modifier
  · rcases target with _ | _ | _ | _ | _ | _ | _ | _ | _ | _ | _ | _ | body | body | body | _ | _
    case enum | struct | union =>
      exact ⟨name, name, rfl, List.Subset.refl _, .inl ⟨trivial, rfl, rfl, rfl⟩⟩
    all_goals
      exact ⟨name, _, rfl, List.nil_subset _, .inr ⟨rfl, _, List.mem_singleton_self _, rfl⟩⟩
  · rcases target with _ | _ | _ | _ | _ | _ | _ | _ | _ | _ | _ | _ | body | body | body | _ | _
    case enum | struct | union =>
      refine ⟨hintFor name "value", _, rfl, List.subset_append_left .., .inr ⟨rfl, _,
        List.mem_append_right _ (List.mem_singleton_self _), ?_⟩⟩
      rcases modifier <;> rfl
    all_goals
      exact ⟨name, _, rfl, List.nil_subset _, .inr ⟨rfl, _, List.mem_singleton_self _, rfl⟩⟩

/-- What stands for an inner type is its name. -/
theorem rustTypeForDeclaration_inline {target : TypeSpec} (h : target.IsInline) (hint : String) :
    rustTypeForDeclaration target none hint = .ok (.named hint) := by
  rcases target
  case enum | struct | union => rfl
  all_goals exact h.elim

/-- The alias a type definition asks for. -/
theorem Provided.typeAlias {requests : List ItemRequest} (h : Provided items context requests)
    {name hint : String} {target : TypeSpec} {modifier : Option DeclaratorModifier}
    (hmem : .typeAlias name target modifier hint ∈ requests) :
    ∃ type, rustTypeForDeclaration target modifier hint = .ok type ∧
      findType items name = some (.typeAlias name type) := by
  obtain ⟨item, hitem, hfind⟩ := h _ hmem
  obtain ⟨type, htype, hitem⟩ := except_bind_eq_ok.mp hitem
  exact ⟨type, htype, by rw [hfind _ rfl, ← Except.ok.inj hitem]⟩

/-- The type of a type definition: that of the structure, enumeration or union it is about, or an
alias. -/
theorem Schema.Written.typedef (h : schema.Written items) {decl : TypedefDecl}
    (hmem : .typedef decl ∈ schema.items) :
    ∃ hint type name, (Item.typedef decl).rustName = some name ∧
      rustTypeForDeclaration decl.target decl.declarator.modifier hint = .ok type ∧
      Provided items schema.context (decl.target.requests hint) ∧
      ((decl.target.IsInline ∧ decl.declarator.modifier = none ∧ hint = name ∧ type = .named name) ∨
        ∃ own, findType items name = some (.typeAlias own type)) := by
  have hprovided : Provided items schema.context decl.requests := h.provided hmem
  obtain ⟨hint, name, hname, hsub, ⟨hinline, hmodifier, rfl, -⟩ | ⟨-, inner, hin, htype⟩⟩ :=
    decl.requested
  · refine ⟨hint, .named hint, hint, hname, ?_, hprovided.mono hsub,
      .inl ⟨hinline, hmodifier, rfl, rfl⟩⟩
    rw [hmodifier]
    exact rustTypeForDeclaration_inline hinline hint
  · obtain ⟨type, hinner, hfind⟩ := hprovided.typeAlias hin
    exact ⟨hint, type, name, hname, htype ▸ hinner, hprovided.mono hsub, .inr ⟨_, hfind⟩⟩

/-! ## Encodings are written and read -/

/-- A type encodes a value and decodes it again. -/
def CodesAs (items : List RustItem) (type : RustType) (value : Value) (b : Bytes) : Prop :=
  Codes (fun n => encodeXdr items n type) (fun n => decodeXdr items n type) value b

/-- A named type is encoded as the item found under the name. -/
theorem CodesAs.of_findType {name : String} {item : RustItem} {value : Value} {b : Bytes}
    (hfind : findType items name = some item)
    (h : Codes (fun n => encodeItem items (encodeXdr items n) item)
      (fun n => decodeItem items (decodeXdr items n) item) value b) :
    CodesAs items (.named name) value b where
  writes := Writes.of_succ (fun n => encodeXdr_named hfind n value) h.writes
  reads := Reads.of_succ (decodeXdr_named hfind) h.reads

/-- Bytes written one by one are the bytes. -/
theorem each_u8 (n : ℕ) (b : Bytes) :
    Write.each (encodeXdr items n .u8) (b.map .u8) = .bytes b := by
  induction b with
  | nil => rfl
  | cons x b ih =>
    rw [List.map_cons, Write.each, ih]
    rfl

/-- The elements of an array or a vector. -/
theorem codes_elements {type : RustType} {values : List Value} {encodings : List Bytes}
    (hlength : encodings.length = values.length)
    (h : ∀ p ∈ values.zip encodings, CodesAs items type p.1 p.2) :
    Writes (fun n => Write.each (encodeXdr items n type) values) encodings.flatten ∧
      Reads (fun n => (decodeXdr items n type).times values.length) encodings.flatten values := by
  have hall : List.Forall₂ (CodesAs items type) values encodings :=
    List.forall₂_iff_zip.mpr ⟨hlength.symm, fun {a b} hmem => h (a, b) hmem⟩
  exact ⟨Writes.each (hall.imp fun _ _ hcodes => hcodes.writes),
    Reads.times (hall.imp fun _ _ hcodes => hcodes.reads).flip⟩

/-- An array of bytes. -/
theorem codes_byteArray {len : ValueExpr} {b : Bytes} (hlen : arrayLen items len = some b.length) :
    CodesAs items (.array .u8 len) (.array (b.map .u8)) (b ++ padding b.length) where
  writes := by
    have hencode (n : ℕ) : encodeXdr items n (.array .u8 len) (.array (b.map .u8)) =
        (Write.bytes b).andThen (.bytes (padding b.length)) := by
      have hlength : (b.map Value.u8).length = b.length := List.length_map _
      rw [← each_u8 n b, ← hlength]
      rfl
    simp only [hencode]
    exact (Writes.bytes b).andThen (Writes.bytes _)
  reads := by
    have hdecode (n : ℕ) : decodeXdr items n (.array .u8 len) = (do
        return .array ((← readFixedOpaque b.length).map .u8) : XdrDecoder Value) := by
      rw [decodeXdr, decodeType, hlen]
      rfl
    simp only [hdecode]
    have hreads := Reads.of_forall (readFixedOpaque_append (padding_length b.length))
    exact hreads.map fun b => Value.array (b.map .u8)

/-- Any other array. -/
theorem codes_array {element : RustType} {len : ValueExpr} {values : List Value}
    {encodings : List Bytes} (hlen : arrayLen items len = some values.length)
    (hbyte : isByte items element = false) (hlength : encodings.length = values.length)
    (h : ∀ p ∈ values.zip encodings, CodesAs items element p.1 p.2) :
    CodesAs items (.array element len) (.array values) encodings.flatten where
  writes := by
    have hencode (n : ℕ) : encodeXdr items n (.array element len) (.array values) =
        Write.each (encodeXdr items n element) values := by
      rw [encodeXdr, encodeType, hbyte]
      rfl
    simp only [hencode]
    exact (codes_elements hlength h).1
  reads := by
    have hdecode (n : ℕ) : decodeXdr items n (.array element len) = (do
        return .array (← (decodeXdr items n element).times values.length) : XdrDecoder Value) := by
      rw [decodeXdr, decodeType, hlen, hbyte]
      rfl
    simp only [hdecode]
    exact (codes_elements hlength h).2.map _

/-- A vector. -/
theorem codes_vec {element : RustType} {bound : Option ValueExpr} {values : List Value}
    {encodings : List Bytes} (hword : values.length < 2 ^ 32)
    (hlength : encodings.length = values.length)
    (h : ∀ p ∈ values.zip encodings, CodesAs items element p.1 p.2) :
    CodesAs items (.vec element bound) (.vec values)
      (beBytes (lengthWord values.length) ++ encodings.flatten) where
  writes := (Writes.bytes _).andThen (codes_elements hlength h).1
  reads := (reads_decodeVec hword (codes_elements hlength h).2).map _

/-- Optional data. -/
theorem codes_absent {element : RustType} :
    CodesAs items (.optionBox element) (.option none) (beBytes (boolWord false)) where
  writes := Writes.bytes _
  reads := Reads.map (Filter.Eventually.of_forall fun _ => decodeOption_absent _) Value.option

/-- Data that is present is written behind the word for `true`. -/
theorem codes_present {element : RustType} {value : Value} {b : Bytes}
    (h : CodesAs items element value b) :
    CodesAs items (.optionBox element) (.option (some value)) (beBytes (boolWord true) ++ b) where
  writes := (Writes.bytes _).andThen h.writes
  reads := (reads_decodeOption_present h.reads).map Value.option

/-- What holds of the left list and a third one, said of the right list. -/
theorem exists_of_mem_zip {α β γ : Type} {R : α → β → Prop} {P : α → γ → Prop} {xs : List α}
    {ys : List β} (h : List.Forall₂ R xs ys) {zs : List γ} (hP : ∀ p ∈ xs.zip zs, P p.1 p.2) :
    ∀ p ∈ ys.zip zs, ∃ x ∈ xs, R x p.1 ∧ P x p.2 := by
  induction h generalizing zs with
  | nil => simp
  | @cons x y xs ys hfirst _ ih =>
    rcases zs with _ | ⟨z, zs⟩
    · simp
    · intro p hp
      rcases List.mem_cons.mp hp with rfl | hp
      · exact ⟨x, List.mem_cons_self .., hfirst, hP (x, z) (List.mem_cons_self ..)⟩
      · obtain ⟨x', hx', hrel, hprop⟩ := ih (fun q hq => hP q (List.mem_cons_of_mem _ hq)) p hp
        exact ⟨x', List.mem_cons_of_mem _ hx', hrel, hprop⟩

/-- The fields of a structure. -/
theorem codes_fields {fields : List RustField} {values : List Value} {encodings : List Bytes}
    (hvalues : values.length = fields.length) (hencodings : encodings.length = fields.length)
    (h : ∀ p ∈ fields.zip (values.zip encodings),
      Codes (fun n => encodeField (encodeXdr items n) p.1)
        (fun n => decodeField items (decodeXdr items n) p.1) p.2.1 p.2.2) :
    Writes (fun n => encodeFields (encodeXdr items n) fields values) encodings.flatten ∧
      Reads (fun n => each (decodeField items (decodeXdr items n)) fields) encodings.flatten
        values := by
  induction fields generalizing values encodings with
  | nil =>
    obtain rfl := List.length_eq_zero_iff.mp hvalues
    obtain rfl := List.length_eq_zero_iff.mp hencodings
    exact ⟨Writes.bytes [], Reads.pure []⟩
  | cons field fields ih =>
    obtain ⟨value, values, rfl⟩ := List.exists_cons_of_length_eq_add_one hvalues
    obtain ⟨b, encodings, rfl⟩ := List.exists_cons_of_length_eq_add_one hencodings
    have hfirst := h (field, value, b) (List.mem_cons_self ..)
    obtain ⟨hwrites, hreads⟩ := ih (Nat.succ.inj hvalues) (Nat.succ.inj hencodings)
      fun p hp => h p (List.mem_cons_of_mem _ hp)
    exact ⟨hfirst.writes.andThen hwrites, hfirst.reads.each_cons hreads⟩

/-- The length of an array is what its bound denotes. -/
theorem arrayLen_eq (h : schema.Compiled items) {bound : ValueExpr} (hlength : schema.Length bound)
    {n : ℕ} (hn : schema.Denotes bound n) : arrayLen items bound = some n := by
  obtain ⟨husable, m, hm, hdenotes⟩ := hlength
  have heq : (m : Int) = n := hdenotes.unique hn
  rw [arrayLen, (h.written.i64Value_iff h.wellFormed husable).mpr hn, Option.map_some, asUsize]
  congr 1
  omega

/-! ## Unions -/

/-- The field of a variant is written and read. -/
def CodesField (items : List RustItem) (field : Option RustField) (value : Option Value)
    (b : Bytes) : Prop :=
  Codes (fun n => encodeVariantField (encodeXdr items n) field)
    (fun n => decodeVariantField items (decodeXdr items n) field) value b

/-- A missing field is nothing. -/
theorem CodesField.void : CodesField items none none [] where
  writes := Writes.bytes []
  reads := Reads.pure none

/-- A field is encoded as its template says. -/
theorem CodesField.field {field : RustField} {value : Value} {b : Bytes}
    (h : Codes (fun n => encodeField (encodeXdr items n) field)
      (fun n => decodeField items (decodeXdr items n) field) value b) :
    CodesField items (some field) (some value) b where
  writes := h.writes
  reads := h.reads.map some

section Unions

variable {name : String} {body : UnionBody} {u : RustUnion} {arm : UnionArm}
  {field : Option RustField} {value : Option Value} {x : Int} {b : Bytes}

/-- An arm with a case is not that of the default label. -/
theorem UnionSpec.not_default_mem (hunion : schema.WellFormedUnion body) (harm : arm ∈ body.arms)
    {expr : ValueExpr} (hlabel : .case expr ∈ arm.labels) : .default ∉ arm.labels := by
  intro hin
  rw [hunion.alone arm harm hin] at hlabel
  cases List.mem_singleton.mp hlabel

/-- The arm of a listed label is found by the discriminants that stand for its number. -/
theorem UnionSpec.find?_arms (hspec : UnionSpec context name body u) (h : schema.Compiled items)
    (hkind : UnionKind schema items context body u.decodeType)
    (hunion : schema.WellFormedUnion body) (harm : arm ∈ body.arms) {expr : ValueExpr}
    (hlabel : .case expr ∈ arm.labels)
    (hx : schema.LabelValue body.discriminant.typeSpec expr x)
    (hfield : context.armField name arm = .ok field) {d : Value}
    (hstands : Stands items u.decodeType d x) :
    u.arms.find? (fun a => a.pattern.covers items d) = some {
      pattern := context.renderUnionDecodeLabel (.case expr) body.discriminant.typeSpec
        (context.usesRawEnum body)
      variant := unionVariantName (.case expr)
      field := field } := by
  refine find?_of_unique ?_ ?_ ?_
  · exact (hspec.arms _).mpr
      ⟨arm, harm, not_default_mem hunion harm hlabel, _, hlabel, field, hfield, rfl⟩
  · exact (hkind.covers_iff h ⟨arm, harm, hlabel⟩ hstands).mpr hx
  · intro a ha hcovers
    obtain ⟨other, hother, hdefault, label, hin, field', hfield', rfl⟩ := (hspec.arms a).mp ha
    rcases label with expr' | _
    · have hx' := (hkind.covers_iff h ⟨other, hother, hin⟩ hstands).mp hcovers
      obtain ⟨rfl, rfl⟩ := hunion.distinct other hother arm harm expr' expr x hin hlabel hx' hx
      obtain rfl := Except.ok.inj (hfield.symm.trans hfield')
      rfl
    · exact absurd hin hdefault

/-- How a value of a labelled variant is encoded. -/
theorem encodeItem_variant {v : RustVariant} {variant : String}
    (hfound : u.variants.find? (fun w => w.name = variant) = some v)
    (encode : RustType → Value → XdrWrite) :
    encodeItem items encode (.union name u) (.union variant none value) =
      if v.isDefault then .exhausted
      else (encodeLabel items v.label).andThen (encodeVariantField encode v.field value) := by
  rw [encodeItem.eq_def]
  simp only [hfound]

/-- How a value of the default variant is encoded. -/
theorem encodeItem_default {v : RustVariant} {variant : String} {d : Value}
    (hfound : u.variants.find? (fun w => w.name = variant) = some v)
    (encode : RustType → Value → XdrWrite) :
    encodeItem items encode (.union name u) (.union variant (some d) value) =
      if v.isDefault then
        (encodeDiscriminant d).andThen (encodeVariantField encode v.field value)
      else .exhausted := by
  rw [encodeItem.eq_def]
  simp only [hfound]

/-- A variant with a listed label. -/
theorem UnionSpec.codes_case (hspec : UnionSpec context name body u) (h : schema.Compiled items)
    (hknows : schema.Knows context) (hfind : findType items name = some (.union name u))
    (hunion : schema.WellFormedUnion body) (harm : arm ∈ body.arms) {expr : ValueExpr}
    (hlabel : .case expr ∈ arm.labels)
    (hx : schema.LabelValue body.discriminant.typeSpec expr x)
    (hfield : context.armField name arm = .ok field) (hcodes : CodesField items field value b) :
    CodesAs items (.named name) (.union (unionVariantName (.case expr)) none value)
      (Schema.intBytes x ++ b) := by
  have hmem := findType_mem hfind
  have hkind := hspec.kind h hknows hmem hunion
  obtain ⟨hencode, d, hstands⟩ := hkind.encodeLabel_eq h ⟨arm, harm, hlabel⟩ hx
  refine CodesAs.of_findType hfind ⟨?_, ?_⟩
  · -- The variant of that name is the one of the label.
    have hvariant := (hspec.variants _).mpr ⟨arm, harm, _, hlabel, field, hfield, rfl⟩
    have hfound := find?_of_nodup (h.compiles.unionNames _ _ hmem) hvariant
    have hencodeItem (encode : RustType → Value → XdrWrite) :
        encodeItem items encode (.union name u)
          (.union (unionVariantName (.case expr)) none value) =
        (Write.bytes (Schema.intBytes x)).andThen (encodeVariantField encode field value) := by
      rw [encodeItem_variant hfound, ← hencode]
      rfl
    simp only [hencodeItem]
    exact (Writes.bytes _).andThen hcodes.writes
  · have harms := hspec.find?_arms h hkind hunion harm hlabel hx hfield hstands
    have hdecodeArm (decode : RustType → XdrDecoder Value) :
        decodeArm items decode u d = (do
          let value ← decodeVariantField items decode field
          return .union (unionVariantName (.case expr)) none value) := by
      rw [decodeArm, harms]
    refine (hstands.reads h.compiles).bind ?_
    simp only [hdecodeArm]
    exact hcodes.reads.map _

/-- The decoder falls back on the field of the default arm. -/
theorem UnionSpec.fallback_of_default (hspec : UnionSpec context name body u)
    (hunion : schema.WellFormedUnion body) (harm : arm ∈ body.arms)
    (hlabel : .default ∈ arm.labels) (hfield : context.armField name arm = .ok field) :
    u.fallback = .default field := by
  have hfound : body.arms.find? (fun other => other.labels.any (· == .default)) = some arm := by
    refine find?_of_unique harm (any_default_iff.mpr hlabel) fun other hother hdefault => ?_
    exact hunion.once other hother arm harm (any_default_iff.mp hdefault) hlabel
  have hfallback := hspec.fallback
  rw [EmitContext.unionFallback, hfound] at hfallback
  obtain ⟨field', hfield', heq⟩ := except_bind_eq_ok.mp hfallback
  obtain rfl := Except.ok.inj (hfield.symm.trans hfield')
  exact (Except.ok.inj heq).symm

/-- The default variant. -/
theorem UnionSpec.codes_default (hspec : UnionSpec context name body u) (h : schema.Compiled items)
    (hknows : schema.Knows context) (hfind : findType items name = some (.union name u))
    (hunion : schema.WellFormedUnion body) (harm : arm ∈ body.arms)
    (hlabel : .default ∈ arm.labels) {d : Value}
    (hx : schema.DiscriminantValue body.discriminant.typeSpec d x)
    (hunlisted : ∀ other ∈ body.arms, ∀ expr, .case expr ∈ other.labels →
      ¬ schema.LabelValue body.discriminant.typeSpec expr x)
    (hfield : context.armField name arm = .ok field) (hcodes : CodesField items field value b) :
    CodesAs items (.named name) (.union "Default" (some d) value) (Schema.intBytes x ++ b) := by
  have hmem := findType_mem hfind
  have hkind := hspec.kind h hknows hmem hunion
  have hstands := (hkind.stands_iff ⟨arm, harm, hlabel⟩).mpr hx
  refine CodesAs.of_findType hfind ⟨?_, ?_⟩
  · have hvariant := (hspec.variants _).mpr ⟨arm, harm, _, hlabel, field, hfield, rfl⟩
    have hfound := find?_of_nodup (h.compiles.unionNames _ _ hmem) hvariant
    have hdiscriminant : encodeDiscriminant d = .bytes (Schema.intBytes x) := by
      refine encodeDiscriminant_eq hstands fun enumName htype => ?_
      rw [htype] at hkind
      cases hkind with
      | enum _ _ _ hnone _ => exact hnone arm harm hlabel
    have hencodeItem (encode : RustType → Value → XdrWrite) :
        encodeItem items encode (.union name u) (.union "Default" (some d) value) =
        (Write.bytes (Schema.intBytes x)).andThen (encodeVariantField encode field value) := by
      rw [← hdiscriminant]
      exact encodeItem_default hfound encode
    simp only [hencodeItem]
    exact (Writes.bytes _).andThen hcodes.writes
  · have harms : u.arms.find? (fun a => a.pattern.covers items d) = none := by
      refine List.find?_eq_none.mpr fun a ha hcovers => ?_
      obtain ⟨other, hother, hdefault, label, hin, _, _, rfl⟩ := (hspec.arms a).mp ha
      rcases label with expr | _
      · refine hunlisted other hother expr hin ?_
        exact (hkind.covers_iff h ⟨other, hother, hin⟩ hstands).mp hcovers
      · exact hdefault hin
    have hdecodeArm (decode : RustType → XdrDecoder Value) :
        decodeArm items decode u d = (do
          let value ← decodeVariantField items decode field
          return .union "Default" (some d) value) := by
      rw [decodeArm, harms, hspec.fallback_of_default hunion harm hlabel hfield]
    refine (hstands.reads h.compiles).bind ?_
    simp only [hdecodeArm]
    exact hcodes.reads.map _

end Unions

/-! ## The induction -/

/-- The codecs of a type, wherever it stands, agree on a value and its encoding. -/
def CodesEverywhere (schema : Schema) (items : List RustItem) (target : TypeSpec)
    (modifier : Option DeclaratorModifier) (value : Value) (b : Bytes) : Prop :=
  ∀ context hint type, schema.Knows context → Provided items context (target.requests hint) →
    schema.WellFormedType target → schema.Legal target modifier →
    rustTypeForDeclaration target modifier hint = .ok type → CodesAs items type value b

/-- A type without a declarator is encoded by the type that stands for it. -/
theorem CodesEverywhere.base {target : TypeSpec} {value : Value} {b : Bytes}
    (h : CodesEverywhere schema items target none value b) (hknows : schema.Knows context)
    {hint : String} (hprovided : Provided items context (target.requests hint))
    (hwell : schema.WellFormedType target) (hdata : target ≠ .opaqueData)
    (hstring : target ≠ .string) : CodesAs items (rustTypeForBase target hint) value b :=
  h context hint _ hknows hprovided hwell ⟨hdata, hstring⟩ (by simp only [rustTypeForDeclaration])

/-- A field of a structure or of a variant. -/
theorem CodesEverywhere.codes_field {target : TypeSpec} {declarator : Declarator} {value : Value}
    {b : Bytes} (h : CodesEverywhere schema items target declarator.modifier value b)
    (hbyte : NoByteAlias items) (hknows : schema.Knows context) {owner : String}
    (hprovided : Provided items context (target.requests (hintFor owner declarator.name)))
    (hwell : schema.WellFormedType target) (hlegal : schema.Legal target declarator.modifier)
    {field : RustField} (hfield : context.fieldFor owner target declarator = .ok field) :
    Codes (fun n => encodeField (encodeXdr items n) field)
      (fun n => decodeField items (decodeXdr items n) field) value b := by
  have hrendered := fieldFor_rendered hfield
  have hcodes := h context _ field.type hknows hprovided hwell hlegal (fieldFor_eq_ok hfield).1
  constructor
  · simp only [encodeField_eq hbyte hrendered]
    exact hcodes.writes
  · simp only [decodeField_eq hbyte hrendered]
    exact hcodes.reads

/-- The field of an arm. -/
theorem CodesEverywhere.codesField {arm : UnionArm} {value : Value} {b : Bytes}
    (h : CodesEverywhere schema items arm.declaration.typeSpec arm.declaration.declarator.modifier
      value b) (hbyte : NoByteAlias items) (hknows : schema.Knows context) {owner : String}
    (hprovided : Provided items context
      (arm.declaration.typeSpec.requests (hintFor owner arm.declaration.declarator.name)))
    (hwell : schema.WellFormedType arm.declaration.typeSpec)
    (hlegal : schema.Legal arm.declaration.typeSpec arm.declaration.declarator.modifier)
    (hvoid : arm.declaration.typeSpec ≠ .void) {field : Option RustField}
    (hfield : context.armField owner arm = .ok field) : CodesField items field (some value) b := by
  rcases armField_eq_ok hfield with ⟨hbad, -⟩ | ⟨-, f, rfl, hf⟩
  · exact absurd hbad hvoid
  · exact CodesField.field (h.codes_field hbyte hknows hprovided hwell hlegal hf)

/-- A void arm has no field. -/
theorem armField_of_void {arm : UnionArm} {owner : String} {field : Option RustField}
    (hfield : context.armField owner arm = .ok field) (hvoid : arm.declaration.typeSpec = .void)
    (hlegal : schema.Legal arm.declaration.typeSpec arm.declaration.declarator.modifier) :
    field = none := by
  rcases armField_eq_ok hfield with ⟨-, -, hnone⟩ | ⟨hnot, -⟩
  · exact hnone
  · refine absurd ⟨hvoid, ?_⟩ hnot
    rw [hvoid] at hlegal
    rcases hmodifier : arm.declaration.declarator.modifier with _ | (_ | _ | _)
    · rfl
    all_goals simp [hmodifier, Schema.Legal] at hlegal

/-- The encodings of the standard are written and read. -/
theorem Schema.Encodes.codes (hc : schema.Compiled items) {target : TypeSpec}
    {modifier : Option DeclaratorModifier} {value : Value} {b : Bytes}
    (henc : schema.Encodes target modifier value b) :
    CodesEverywhere schema items target modifier value b := by
  have hbyte := hc.noByteAlias
  induction henc with
  | void =>
    intro context hint type _ _ _ _ htype
    obtain rfl := Except.ok.inj htype
    exact ⟨Writes.bytes [], Reads.pure Value.unit⟩
  | bool b =>
    intro context hint type _ _ _ _ htype
    obtain rfl := Except.ok.inj htype
    rw [intBytes_bool]
    exact ⟨Writes.bytes _, (Reads.of_forall (decodeBool_boolWord b)).map Value.bool⟩
  | int x =>
    intro context hint type _ _ _ _ htype
    obtain rfl := Except.ok.inj htype
    rw [intBytes_toInt]
    exact ⟨Writes.bytes _, (Reads.of_forall (readXdrI32_beBytes x)).map Value.i32⟩
  | unsignedInt x =>
    intro context hint type _ _ _ _ htype
    obtain rfl := Except.ok.inj htype
    exact ⟨Writes.bytes _, (Reads.of_forall (readXdrU32_beBytes x)).map Value.u32⟩
  | hyper x =>
    intro context hint type _ _ _ _ htype
    obtain rfl := Except.ok.inj htype
    exact ⟨Writes.bytes _, (Reads.of_forall (readXdrI64_beBytes64 x)).map Value.i64⟩
  | unsignedHyper x =>
    intro context hint type _ _ _ _ htype
    obtain rfl := Except.ok.inj htype
    exact ⟨Writes.bytes _, (Reads.of_forall (readXdrU64_beBytes64 x)).map Value.u64⟩
  | float bits =>
    intro context hint type _ _ _ _ htype
    obtain rfl := Except.ok.inj htype
    exact ⟨Writes.bytes _, (Reads.of_forall (readXdrU32_beBytes bits)).map Value.f32⟩
  | double bits =>
    intro context hint type _ _ _ _ htype
    obtain rfl := Except.ok.inj htype
    exact ⟨Writes.bytes _, (Reads.of_forall (readXdrU64_beBytes64 bits)).map Value.f64⟩
  | @quadruple b hlength =>
    intro context hint type _ _ _ _ htype
    obtain rfl := Except.ok.inj htype
    have hpadding : b ++ padding b.length = b := by
      rw [hlength]
      exact List.append_nil b
    have hcodes := @codes_byteArray items (.number 16) b (by rw [hlength]; rfl)
    rwa [hpadding] at hcodes
  | @fixedOpaque bound b hbound =>
    intro context hint type _ _ _ hlegal htype
    obtain ⟨len, hlen, hinner⟩ := except_bind_eq_ok.mp htype
    obtain rfl := renderArrayBound_eq_ok hlen
    obtain rfl := Except.ok.inj hinner
    exact codes_byteArray (arrayLen_eq hc hlegal.2.2 hbound)
  | variableOpaque hlength hwithin =>
    intro context hint type _ _ _ _ htype
    obtain rfl := Except.ok.inj htype
    rw [intBytes_ofNat]
    exact ⟨Writes.bytes _, (Reads.of_forall (readVariableOpaque_write hlength)).map Value.bytes⟩
  | string hlength hwithin =>
    intro context hint type _ _ _ _ htype
    obtain rfl := Except.ok.inj htype
    rw [intBytes_ofNat]
    exact ⟨Writes.bytes _, (Reads.of_forall (decodeString_write hlength)).map Value.string⟩
  | fixedArray hdata hbound hlength _ ih =>
    intro context hint type hknows hprovided hwell hlegal htype
    obtain ⟨decode, -, hrendered⟩ := rustTypeForDeclaration_rendered htype
    generalize emitEncodeDeclaration _ _ = encode at hrendered
    rcases hrendered with _ | _ | _ | _ | ⟨_, hbad⟩ | _ | _
    · exact absurd hbad hdata
    · refine codes_array (arrayLen_eq hc hlegal.2.2 hbound)
        (hbyte _ (rustTypeForBase_ne_u8 hdata hint)) hlength fun p hp => ?_
      exact (ih p hp).base hknows hprovided hwell hdata hlegal.1
  | variableArray hdata hstring hword hwithin hlength _ ih =>
    intro context hint type hknows hprovided hwell hlegal htype
    obtain ⟨decode, -, hrendered⟩ := rustTypeForDeclaration_rendered htype
    rw [intBytes_ofNat]
    generalize emitEncodeDeclaration _ _ = encode at hrendered
    rcases hrendered with _ | ⟨_, hbad⟩ | ⟨_, hbad⟩ | _ | _ | _ | _
    · exact absurd hbad hdata
    · exact absurd hbad hstring
    · refine codes_vec hword hlength fun p hp => ?_
      exact (ih p hp).base hknows hprovided hwell hdata hstring
  | absent =>
    intro context hint type _ _ _ _ htype
    obtain rfl := Except.ok.inj htype
    exact codes_absent
  | present _ ih =>
    intro context hint type hknows hprovided hwell hlegal htype
    obtain rfl := Except.ok.inj htype
    exact codes_present (ih.base hknows hprovided hwell hlegal.1 hlegal.2.1)
  | @typedef name decl value b hdeclares _ ih =>
    intro context hint type _ _ hwell _ htype
    obtain rfl := Except.ok.inj htype
    obtain ⟨own, inner, rust, hrust, hinner, hprovided, hfound⟩ := hc.written.typedef hdeclares.1
    have husable : Usable name := by
      cases hwell with
      | identifier _ husable => exact husable
    obtain rfl : rust = name :=
      Option.some.inj (hrust.symm.trans (Item.rustName_of_usable hdeclares.2 husable))
    have hwell' := hc.wellFormed _ hdeclares.1
    have hcodes := ih schema.context own inner hc.distinct.knows hprovided hwell'.2 hwell'.1 hinner
    rcases hfound with ⟨-, -, -, rfl⟩ | ⟨aliasName, hfind⟩
    · exact hcodes
    · exact CodesAs.of_findType hfind ⟨hcodes.writes, hcodes.reads⟩
  | structName hdeclares _ ih =>
    intro context hint type _ _ _ _ htype
    obtain rfl := Except.ok.inj htype
    exact ih schema.context _ _ hc.distinct.knows (hc.written.provided hdeclares.1)
      (hc.wellFormed _ hdeclares.1) ⟨nofun, nofun⟩ rfl
  | enumName hdeclares _ ih =>
    intro context hint type _ _ _ _ htype
    obtain rfl := Except.ok.inj htype
    exact ih schema.context _ _ hc.distinct.knows (hc.written.provided hdeclares.1)
      (hc.wellFormed _ hdeclares.1) ⟨nofun, nofun⟩ rfl
  | unionName hdeclares _ ih =>
    intro context hint type _ _ _ _ htype
    obtain rfl := Except.ok.inj htype
    exact ih schema.context _ _ hc.distinct.knows (hc.written.provided hdeclares.1)
      (hc.wellFormed _ hdeclares.1) ⟨nofun, nofun⟩ rfl
  | @enum body v x hv hx =>
    intro context hint type _ hprovided hwell _ htype
    obtain rfl := Except.ok.inj htype
    have hfind := hprovided.enum
    have husable : v.value.Usable := by
      cases hwell with
      | enum husable => exact husable v hv
    have hvalue := (hc.enumValue_iff hfind hv husable).mpr hx
    have hencode (n : ℕ) : encodeXdr items (n + 1) (.named hint) (.enum v.name) =
        .bytes (Schema.intBytes x) := by
      rw [encodeXdr_named hfind, encodeItem, encodeLabel, hvalue, Schema.intBytes,
        ofInt_eq_toUInt32]
    have hstands : Stands items (.named hint) (.enum v.name) x := hvalue
    exact ⟨Writes.of_succ hencode (Writes.bytes _), hstands.reads hc.compiles⟩
  | @struct body values encodings hvalues hencodings _ ih =>
    intro context hint type hknows hprovided hwell _ htype
    obtain rfl := Except.ok.inj htype
    obtain ⟨fields, hfind, hfields, hinner⟩ := hprovided.struct
    obtain ⟨hlegal, hwell⟩ : (∀ d ∈ body.declarations,
        schema.Legal d.typeSpec d.declarator.modifier) ∧
        ∀ d ∈ body.declarations, schema.WellFormedType d.typeSpec := by
      cases hwell with
      | struct hlegal hwell => exact ⟨hlegal, hwell⟩
    have hall := @codes_fields items fields values encodings (hvalues.trans hfields.length_eq)
      (hencodings.trans hfields.length_eq) fun p hp => by
        obtain ⟨d, hd, hfield, hih⟩ := exists_of_mem_zip
          (P := fun d q => CodesEverywhere schema items d.typeSpec d.declarator.modifier q.1 q.2)
          hfields ih p hp
        exact hih.codes_field hbyte hknows (hinner d hd) (hwell d hd) (hlegal d hd) hfield
    exact CodesAs.of_findType hfind ⟨hall.1, hall.2.map Value.struct⟩
  | @caseVoid body arm expr x harm hlabel hx hvoid =>
    intro context hint type hknows hprovided hwell _ htype
    obtain rfl := Except.ok.inj htype
    obtain ⟨u, hfind, hspec, -⟩ := hprovided.union
    cases hwell with
    | union hunion hlegal _ =>
      obtain ⟨field, hfield⟩ := hspec.fields arm harm
      obtain rfl := armField_of_void hfield hvoid (hlegal arm harm)
      have hcodes := hspec.codes_case hc hknows hfind hunion harm hlabel hx hfield .void
      rwa [List.append_nil] at hcodes
  | @caseField body arm expr x value b harm hlabel hx hvoid _ ih =>
    intro context hint type hknows hprovided hwell _ htype
    obtain rfl := Except.ok.inj htype
    obtain ⟨u, hfind, hspec, hinner⟩ := hprovided.union
    cases hwell with
    | union hunion hlegal hwell =>
      obtain ⟨field, hfield⟩ := hspec.fields arm harm
      exact hspec.codes_case hc hknows hfind hunion harm hlabel hx hfield
        (ih.codesField hbyte hknows (hinner arm harm) (hwell arm harm) (hlegal arm harm) hvoid
          hfield)
  | @defaultVoid body arm d x harm hlabel hx hunlisted hvoid =>
    intro context hint type hknows hprovided hwell _ htype
    obtain rfl := Except.ok.inj htype
    obtain ⟨u, hfind, hspec, -⟩ := hprovided.union
    cases hwell with
    | union hunion hlegal _ =>
      obtain ⟨field, hfield⟩ := hspec.fields arm harm
      obtain rfl := armField_of_void hfield hvoid (hlegal arm harm)
      have hcodes := hspec.codes_default hc hknows hfind hunion harm hlabel hx
        hunlisted hfield .void
      rwa [List.append_nil] at hcodes
  | @defaultField body arm d value x b harm hlabel hx hunlisted hvoid _ ih =>
    intro context hint type hknows hprovided hwell _ htype
    obtain rfl := Except.ok.inj htype
    obtain ⟨u, hfind, hspec, hinner⟩ := hprovided.union
    cases hwell with
    | union hunion hlegal hwell =>
      obtain ⟨field, hfield⟩ := hspec.fields arm harm
      exact hspec.codes_default hc hknows hfind hunion harm hlabel hx hunlisted hfield
        (ih.codesField hbyte hknows (hinner arm harm) (hwell arm harm) (hlegal arm harm) hvoid
          hfield)

/-! ## Values have encodings -/

/-- Every value of a type has an encoding. -/
def EncodesTyped (schema : Schema) (items : List RustItem) (typed : RustType → Value → Prop) :
    Prop :=
  ∀ context hint target modifier type value, schema.Knows context →
    Provided items context (target.requests hint) → schema.WellFormedType target →
    schema.Legal target modifier → rustTypeForDeclaration target modifier hint = .ok type →
    typed type value → ∃ b, schema.Encodes target modifier value b

/-- The encodings of the fields of a structure. -/
theorem exists_encodings {α β : Type} {P : α → β → Bytes → Prop} {xs : List α} {ys : List β}
    (h : List.Forall₂ (fun x y => ∃ b, P x y b) xs ys) :
    ∃ encodings : List Bytes, encodings.length = xs.length ∧
      ∀ p ∈ xs.zip (ys.zip encodings), P p.1 p.2.1 p.2.2 := by
  induction h with
  | nil => exact ⟨[], rfl, by simp⟩
  | cons hfirst _ ih =>
    obtain ⟨b, hb⟩ := hfirst
    obtain ⟨encodings, hlength, hall⟩ := ih
    refine ⟨b :: encodings, congrArg Nat.succ hlength, fun p hp => ?_⟩
    rcases List.mem_cons.mp hp with rfl | hp
    · exact hb
    · exact hall p hp

/-- The encodings of the elements of a list. -/
theorem exists_encodings_of_forall {β : Type} {P : β → Bytes → Prop} {ys : List β}
    (h : ∀ y ∈ ys, ∃ b, P y b) :
    ∃ encodings : List Bytes, encodings.length = ys.length ∧
      ∀ p ∈ ys.zip encodings, P p.1 p.2 := by
  induction ys with
  | nil => exact ⟨[], rfl, by simp⟩
  | cons y ys ih =>
    obtain ⟨b, hb⟩ := h y (List.mem_cons_self ..)
    obtain ⟨encodings, hlength, hall⟩ := ih fun y hy => h y (List.mem_cons_of_mem _ hy)
    refine ⟨b :: encodings, congrArg Nat.succ hlength, fun p hp => ?_⟩
    rcases List.mem_cons.mp hp with rfl | hp
    · exact hb
    · exact hall p hp

section Typed

variable {typed : RustType → Value → Prop} {hint : String} {value : Value}

/-- A value of an enumeration has an encoding. -/
theorem EncodesTyped.enum (hc : schema.Compiled items) {body : EnumBody}
    (hprovided : Provided items context ((TypeSpec.enum body).requests hint))
    (hwell : schema.WellFormedType (.enum body))
    (htyped : typedItem items typed (.enum hint body.variants) value) :
    ∃ b, schema.Encodes (.enum body) none value b := by
  rcases value
  case enum variant =>
    obtain ⟨v, hv, rfl⟩ := htyped
    have husable : v.value.Usable := by
      cases hwell with
      | enum husable => exact husable v hv
    obtain ⟨x, hx, -⟩ := hc.compiles.enumValues _ _ (findType_mem hprovided.enum) v hv
    exact ⟨_, .enum hv ((hc.written.i64Value_iff hc.wellFormed husable).mp hx)⟩
  all_goals exact htyped.elim

/-- A value of a structure has an encoding, if the values of its fields do. -/
theorem EncodesTyped.struct (ih : EncodesTyped schema items typed) (hknows : schema.Knows context)
    {body : StructBody} (hwell : schema.WellFormedType (.struct body))
    {fields : List RustField}
    (hfields : List.Forall₂
      (fun d field => context.fieldFor hint d.typeSpec d.declarator = .ok field)
      body.declarations fields)
    (hinner : ∀ d ∈ body.declarations,
      Provided items context (d.typeSpec.requests (hintFor hint d.declarator.name)))
    (htyped : typedItem items typed (.struct hint fields) value) :
    ∃ b, schema.Encodes (.struct body) none value b := by
  rcases value
  case struct values =>
    have hvalues : List.Forall₂ (fun d value => ∃ b,
        schema.Encodes d.typeSpec d.declarator.modifier value b) body.declarations values := by
      cases hwell with
      | struct hlegal hwell =>
        have hboth := List.forall₂_iff_zip.mp htyped
        refine List.forall₂_iff_zip.mpr ⟨hfields.length_eq.trans hboth.1, fun {d value} hmem => ?_⟩
        have hd := (List.of_mem_zip hmem).1
        obtain ⟨field, -, hfield, hvalue⟩ := exists_of_mem_zip
          (P := fun field value => typed field.type value) hfields.flip
          (fun p hp => hboth.2 hp) (d, value) hmem
        exact ih context _ _ _ _ _ hknows (hinner d hd) (hwell d hd) (hlegal d hd)
          (fieldFor_eq_ok hfield).1 hvalue
    obtain ⟨encodings, hlength, hall⟩ := exists_encodings hvalues
    exact ⟨_, .struct hvalues.length_eq.symm hlength hall⟩
  all_goals exact htyped.elim

/-- The field of an arm. -/
theorem EncodesTyped.armField (ih : EncodesTyped schema items typed)
    (hknows : schema.Knows context) {arm : UnionArm} {field : Option RustField}
    (hprovided : Provided items context
      (arm.declaration.typeSpec.requests (hintFor hint arm.declaration.declarator.name)))
    (hwell : schema.WellFormedType arm.declaration.typeSpec)
    (hlegal : schema.Legal arm.declaration.typeSpec arm.declaration.declarator.modifier)
    (hfield : context.armField hint arm = .ok field) {value : Option Value}
    (htyped : typedField typed field value) :
    arm.declaration.typeSpec = .void ∧ value = none ∨
    arm.declaration.typeSpec ≠ .void ∧ ∃ v b, value = some v ∧
      schema.Encodes arm.declaration.typeSpec arm.declaration.declarator.modifier v b := by
  by_cases hvoid : arm.declaration.typeSpec = .void
  · obtain rfl := armField_of_void hfield hvoid hlegal
    rcases value with _ | value
    · exact .inl ⟨hvoid, rfl⟩
    · exact htyped.elim
  · rcases armField_eq_ok hfield with ⟨hbad, -⟩ | ⟨-, f, rfl, hf⟩
    · exact absurd hbad hvoid
    · rcases value with _ | value
      · exact htyped.elim
      · obtain ⟨b, hb⟩ := ih context _ _ _ _ _ hknows hprovided hwell hlegal
          (fieldFor_eq_ok hf).1 htyped
        exact .inr ⟨hvoid, value, b, rfl, hb⟩

/-- A value of a union has an encoding, if the values of its fields do. -/
theorem EncodesTyped.union (ih : EncodesTyped schema items typed) (hc : schema.Compiled items)
    (hknows : schema.Knows context) {named : String → Value → Prop}
    (hnamed : typed = typedBy items named) {body : UnionBody}
    (hwell : schema.WellFormedType (.union body)) {u : RustUnion}
    (hfind : findType items hint = some (.union hint u)) (hspec : UnionSpec context hint body u)
    (hinner : ∀ arm ∈ body.arms, Provided items context
      (arm.declaration.typeSpec.requests (hintFor hint arm.declaration.declarator.name)))
    (htyped : typedItem items typed (.union hint u) value) :
    ∃ b, schema.Encodes (.union body) none value b := by
  obtain ⟨hunion, hlegal, hwell⟩ : schema.WellFormedUnion body ∧
      (∀ arm ∈ body.arms, schema.Legal arm.declaration.typeSpec
        arm.declaration.declarator.modifier) ∧
      ∀ arm ∈ body.arms, schema.WellFormedType arm.declaration.typeSpec := by
    cases hwell with
    | union hunion hlegal hwell => exact ⟨hunion, hlegal, hwell⟩
  have hkind := hspec.kind hc hknows (findType_mem hfind) hunion
  rcases value
  case union variant discriminant field =>
    rcases discriminant with _ | d
    · obtain ⟨v, hv, rfl, hdefault, hfield⟩ := htyped
      obtain ⟨arm, harm, label, hlabel, made, hmade, rfl⟩ := (hspec.variants v).mp hv
      rcases label with expr | _
      · obtain ⟨-, x, hx⟩ := hunion.labels arm harm expr hlabel
        rcases ih.armField hknows (hinner arm harm) (hwell arm harm) (hlegal arm harm) hmade hfield
          with ⟨hvoid, rfl⟩ | ⟨hvoid, value, b, rfl, hb⟩
        · exact ⟨_, .caseVoid harm hlabel hx hvoid⟩
        · exact ⟨_, .caseField harm hlabel hx hvoid hb⟩
      · cases hdefault
    · obtain ⟨⟨v, hv, rfl, hdefault, hfield⟩, hd, hunlisted⟩ := htyped
      obtain ⟨arm, harm, label, hlabel, made, hmade, rfl⟩ := (hspec.variants v).mp hv
      rcases label with expr | _
      · cases hdefault
      · rw [hnamed] at hd
        obtain ⟨x, hstands⟩ := hkind.exists_stands ⟨arm, harm, hlabel⟩ hd
        have hx := (hkind.stands_iff ⟨arm, harm, hlabel⟩).mp hstands
        have hnone (other : UnionArm) (hother : other ∈ body.arms) (expr : ValueExpr)
            (hin : .case expr ∈ other.labels) :
            ¬ schema.LabelValue body.discriminant.typeSpec expr x := by
          intro hvalue
          obtain ⟨field', hfield'⟩ := hspec.fields other hother
          have hcovers := (hkind.covers_iff hc ⟨other, hother, hin⟩ hstands).mpr hvalue
          have hfalse := hunlisted _ ((hspec.arms _).mpr ⟨other, hother,
            UnionSpec.not_default_mem hunion hother hin, _, hin, field', hfield', rfl⟩)
          rw [hcovers] at hfalse
          cases hfalse
        rcases ih.armField hknows (hinner arm harm) (hwell arm harm) (hlegal arm harm) hmade hfield
          with ⟨hvoid, rfl⟩ | ⟨hvoid, value, b, rfl, hb⟩
        · exact ⟨_, .defaultVoid harm hlabel hx hnone hvoid⟩
        · exact ⟨_, .defaultField harm hlabel hx hnone hvoid hb⟩
  all_goals exact htyped.elim

/-- The values of a type without a name of its own. -/
theorem EncodesTyped.inline {fuel : ℕ}
    (ih : EncodesTyped schema items (typedBy items (typedNamed items fuel)))
    (hc : schema.Compiled items) (hknows : schema.Knows context) {target : TypeSpec}
    (hprovided : Provided items context (target.requests hint))
    (hwell : schema.WellFormedType target) (hinline : target.IsInline)
    (htyped : typedNamed items (fuel + 1) hint value) :
    ∃ b, schema.Encodes target none value b := by
  obtain ⟨item, hitem, hvalue⟩ := htyped
  rcases target
  case enum body =>
    obtain rfl := Option.some.inj (hprovided.enum.symm.trans hitem)
    exact EncodesTyped.enum hc hprovided hwell hvalue
  case struct body =>
    obtain ⟨fields, hfind, hfields, hinner⟩ := hprovided.struct
    obtain rfl := Option.some.inj (hfind.symm.trans hitem)
    exact ih.struct hknows hwell hfields hinner hvalue
  case union body =>
    obtain ⟨u, hfind, hspec, hinner⟩ := hprovided.union
    obtain rfl := Option.some.inj (hfind.symm.trans hitem)
    exact ih.union hc hknows rfl hwell hfind hspec hinner hvalue
  all_goals exact hinline.elim

/-- The values of a declared type. -/
theorem EncodesTyped.named {fuel : ℕ}
    (ih : EncodesTyped schema items (typedBy items (typedNamed items fuel)))
    (hc : schema.Compiled items) {name rust : String} {item : Item}
    (hdeclares : schema.Declares name item) (hrust : item.rustName = some rust)
    (htyped : typedNamed items (fuel + 1) rust value) :
    ∃ b, schema.Encodes (.identifier name) none value b ∧ CodesAs items (.named rust) value b := by
  have hknows := hc.distinct.knows
  have hprovided := hc.written.provided hdeclares.1
  have hwell := hc.wellFormed _ hdeclares.1
  rcases item with _ | decl | ⟨own, body⟩ | ⟨own, body⟩ | ⟨own, body⟩ | _
  case struct =>
    obtain rfl := Option.some.inj hrust
    obtain rfl := Option.some.inj hdeclares.2
    obtain ⟨b, hb⟩ := ih.inline hc hknows hprovided hwell trivial htyped
    exact ⟨b, .structName hdeclares hb,
      hb.codes hc _ _ _ hknows hprovided hwell ⟨nofun, nofun⟩ rfl⟩
  case enum =>
    obtain rfl := Option.some.inj hrust
    obtain rfl := Option.some.inj hdeclares.2
    obtain ⟨b, hb⟩ := ih.inline hc hknows hprovided hwell trivial htyped
    exact ⟨b, .enumName hdeclares hb, hb.codes hc _ _ _ hknows hprovided hwell ⟨nofun, nofun⟩ rfl⟩
  case union =>
    obtain rfl := Option.some.inj hrust
    obtain rfl := Option.some.inj hdeclares.2
    obtain ⟨b, hb⟩ := ih.inline hc hknows hprovided hwell trivial htyped
    exact ⟨b, .unionName hdeclares hb,
      hb.codes hc _ _ _ hknows hprovided hwell ⟨nofun, nofun⟩ rfl⟩
  case typedef =>
    obtain ⟨hint, type, other, hother, htype, hinner, hfound⟩ := hc.written.typedef hdeclares.1
    obtain rfl := Option.some.inj (hrust.symm.trans hother)
    rcases hfound with ⟨hinline, hmodifier, rfl, rfl⟩ | ⟨own, hfind⟩
    · obtain ⟨b, hb⟩ := ih.inline hc hknows hinner hwell.2 hinline htyped
      rw [← hmodifier] at hb
      exact ⟨b, .typedef hdeclares hb, hb.codes hc _ _ _ hknows hinner hwell.2 hwell.1 htype⟩
    · obtain ⟨found, hitem, hvalue⟩ := htyped
      obtain rfl := Option.some.inj (hfind.symm.trans hitem)
      obtain ⟨b, hb⟩ := ih _ _ _ _ _ _ hknows hinner hwell.2 hwell.1 htype hvalue
      have hcodes := hb.codes hc _ _ _ hknows hinner hwell.2 hwell.1 htype
      exact ⟨b, .typedef hdeclares hb, CodesAs.of_findType hfind ⟨hcodes.writes, hcodes.reads⟩⟩
  all_goals cases hrust

end Typed

/-- A list of bytes. -/
theorem exists_bytes {named : String → Value → Prop} {values : List Value}
    (h : ∀ value ∈ values, typedBy items named .u8 value) : ∃ b : Bytes, values = b.map .u8 := by
  induction values with
  | nil => exact ⟨[], rfl⟩
  | cons value values ih =>
    obtain ⟨b, rfl⟩ := ih fun value hmem => h value (List.mem_cons_of_mem _ hmem)
    have hfirst := h value (List.mem_cons_self ..)
    rcases value
    case u8 x => exact ⟨x :: b, rfl⟩
    all_goals exact hfirst.elim

/-- The encodings of a base type give those of its declarations. -/
theorem encodesTyped_of_base (hc : schema.Compiled items) {named : String → Value → Prop}
    (hbase : ∀ context hint target value, schema.Knows context →
      Provided items context (target.requests hint) → schema.WellFormedType target →
      target ≠ .opaqueData → target ≠ .string →
      typedBy items named (rustTypeForBase target hint) value →
      ∃ b, schema.Encodes target none value b) :
    EncodesTyped schema items (typedBy items named) := by
  intro context hint target modifier type value hknows hprovided hwell hlegal htype htyped
  have hwithin {bound : Option ValueExpr} {n : ℕ} (hbound : ∀ expr ∈ bound, schema.Length expr)
      (hfits : FitsLength items bound n) : schema.Within bound n := by
    intro expr hexpr x hx
    obtain ⟨husable, m, hm, hdenotes⟩ := hbound expr hexpr
    obtain rfl := hdenotes.unique hx
    have hvalue := (hc.written.i64Value_iff hc.wellFormed husable).mpr hx
    have hmax : maximumLen items bound = some m := by
      rw [hexpr, maximumLen, hvalue, Option.map_some, asUsize]
      congr 1
      omega
    exact Int.ofNat_le.mpr (hfits.2 m hmax)
  have hdenotes {bound : ValueExpr} {n : ℕ} (hbound : schema.Length bound)
      (hlen : arrayLen items bound = some n) : schema.Denotes bound n := by
    obtain ⟨husable, m, hm, hm'⟩ := hbound
    rw [arrayLen_eq hc ⟨husable, m, hm, hm'⟩ hm'] at hlen
    rwa [← Option.some.inj hlen]
  obtain ⟨decode, -, hrendered⟩ := rustTypeForDeclaration_rendered htype
  generalize emitEncodeDeclaration target modifier = encode at hrendered
  cases hrendered with
  | plain => exact hbase context hint target value hknows hprovided hwell hlegal.1 hlegal.2 htyped
  | bytes bound hdata =>
    subst hdata
    rcases value
    case bytes b => exact ⟨_, .variableOpaque htyped.1 (hwithin hlegal.2 htyped)⟩
    all_goals exact htyped.elim
  | string bound hstring =>
    subst hstring
    rcases value
    case string s => exact ⟨_, .string htyped.1 (hwithin hlegal.2 htyped)⟩
    all_goals exact htyped.elim
  | vec bound hdata hstring =>
    rcases value
    case vec values =>
      obtain ⟨hfits, helements⟩ := htyped
      obtain ⟨encodings, hlength, hall⟩ := exists_encodings_of_forall fun value hmem =>
        hbase context hint target value hknows hprovided hwell hdata hstring
          (helements value hmem)
      exact ⟨_, .variableArray hdata hstring hfits.1 (hwithin hlegal.2 hfits) hlength hall⟩
    all_goals exact htyped.elim
  | fixedOpaque bound hdata =>
    subst hdata
    rcases value
    case array values =>
      obtain ⟨hlen, helements⟩ := htyped
      obtain ⟨b, rfl⟩ := exists_bytes helements
      rw [List.length_map] at hlen
      exact ⟨_, .fixedOpaque (hdenotes hlegal.2.2 hlen)⟩
    all_goals exact htyped.elim
  | array bound hdata =>
    rcases value
    case array values =>
      obtain ⟨hlen, helements⟩ := htyped
      obtain ⟨encodings, hlength, hall⟩ := exists_encodings_of_forall fun value hmem =>
        hbase context hint target value hknows hprovided hwell hdata hlegal.1
          (helements value hmem)
      exact ⟨_, .fixedArray hdata (hdenotes hlegal.2.2 hlen) hlength hall⟩
    all_goals exact htyped.elim
  | optional =>
    rcases value
    case option value =>
      rcases value with _ | value
      · exact ⟨_, .absent⟩
      · obtain ⟨b, hb⟩ := hbase context hint target value hknows hprovided hwell hlegal.1
          hlegal.2.1 (htyped value rfl)
        exact ⟨_, .present hb⟩
    all_goals exact htyped.elim

/-- The values of a base type have encodings if those of the names on the way have. -/
theorem exists_encodes_base (hc : schema.Compiled items) {fuel : ℕ}
    (ih : ∀ k, fuel = k + 1 → EncodesTyped schema items (typedBy items (typedNamed items k)))
    {hint : String} {target : TypeSpec} {value : Value} (hknows : schema.Knows context)
    (hprovided : Provided items context (target.requests hint))
    (hwell : schema.WellFormedType target) (hdata : target ≠ .opaqueData)
    (hstring : target ≠ .string)
    (htyped : typedBy items (typedNamed items fuel) (rustTypeForBase target hint) value) :
    ∃ b, schema.Encodes target none value b := by
  have hnamed {name : String} (h : typedNamed items fuel name value) : ∃ k, fuel = k + 1 := by
    rcases fuel with _ | k
    · exact h.elim
    · exact ⟨k, rfl⟩
  cases hwell with
  | void =>
    rcases value
    case unit => exact ⟨_, .void⟩
    all_goals exact htyped.elim
  | bool =>
    rcases value
    case bool b => exact ⟨_, .bool b⟩
    all_goals exact htyped.elim
  | int =>
    rcases value
    case i32 x => exact ⟨_, .int x⟩
    all_goals exact htyped.elim
  | unsignedInt =>
    rcases value
    case u32 x => exact ⟨_, .unsignedInt x⟩
    all_goals exact htyped.elim
  | hyper =>
    rcases value
    case i64 x => exact ⟨_, .hyper x⟩
    all_goals exact htyped.elim
  | unsignedHyper =>
    rcases value
    case u64 x => exact ⟨_, .unsignedHyper x⟩
    all_goals exact htyped.elim
  | float =>
    rcases value
    case f32 x => exact ⟨_, .float x⟩
    all_goals exact htyped.elim
  | double =>
    rcases value
    case f64 x => exact ⟨_, .double x⟩
    all_goals exact htyped.elim
  | quadruple =>
    rcases value
    case array values =>
      obtain ⟨b, rfl⟩ := exists_bytes htyped.2
      refine ⟨b, .quadruple ?_⟩
      have hlen := htyped.1
      rw [List.length_map] at hlen
      exact (Option.some.inj hlen).symm
    all_goals exact htyped.elim
  | opaqueData => exact absurd rfl hdata
  | string => exact absurd rfl hstring
  | identifier hdeclares husable =>
    obtain ⟨k, rfl⟩ := hnamed htyped
    obtain ⟨b, hb, -⟩ := (ih k rfl).named hc hdeclares
      (Item.rustName_of_usable hdeclares.2 husable) htyped
    exact ⟨b, hb⟩
  | enum husable =>
    obtain ⟨k, rfl⟩ := hnamed htyped
    exact (ih k rfl).inline hc hknows hprovided (.enum husable) trivial htyped
  | struct hlegal hinner =>
    obtain ⟨k, rfl⟩ := hnamed htyped
    exact (ih k rfl).inline hc hknows hprovided (.struct hlegal hinner) trivial htyped
  | union hunion hlegal hinner =>
    obtain ⟨k, rfl⟩ := hnamed htyped
    exact (ih k rfl).inline hc hknows hprovided (.union hunion hlegal hinner) trivial htyped

/-- Every value of a generated type has an encoding. -/
theorem Schema.Compiled.encodesTyped (hc : schema.Compiled items) (fuel : ℕ) :
    EncodesTyped schema items (typedBy items (typedNamed items fuel)) := by
  induction fuel with
  | zero =>
    exact encodesTyped_of_base hc fun _ _ _ _ hknows hprovided hwell hdata hstring htyped =>
      exists_encodes_base hc (fun _ h => by cases h) hknows hprovided hwell hdata hstring htyped
  | succ fuel ih =>
    refine encodesTyped_of_base hc fun _ _ _ _ hknows hprovided hwell hdata hstring htyped => ?_
    refine exists_encodes_base hc (fun k h => ?_) hknows hprovided hwell hdata hstring htyped
    obtain rfl := Nat.succ.inj h
    exact ih

/-! ## The result -/

/-- Where no generated type has a name of the runtime, the codecs generated for a declared type
write exactly the encoding of the standard, and read it back from in front of whatever follows. -/
theorem generated_codec (schema : Schema) (generated : Generated) (code : List RustItem)
    (hemit : emitRustTypes schema = .ok generated) (hwell : schema.WellFormed)
    (hnames : schema.DistinctNames) (hruntime : schema.NoRuntimeNames)
    (hread : readItems generated.items = some code) (hcompiles : Compiles code)
    (name rust : String) (item : Item) (hdeclares : schema.Declares name item)
    (hrust : item.rustName = some rust) (value : Value)
    (hvalue : HasType code (.named rust) value) :
    ∃ b, schema.Encodes (.identifier name) none value b ∧
      (∀ᶠ fuel in Filter.atTop, encodeXdr code fuel (.named rust) value = some (.ok b)) ∧
      ∀ᶠ fuel in Filter.atTop, ∀ rest,
        decodeXdr code fuel (.named rust) (b ++ rest) = some (.ok value, rest) := by
  obtain ⟨hwritten, -, -, -⟩ := Schema.written_of_emitRustTypes hemit hnames
  rw [readItems_eq_self (hwritten.hidesNothing hruntime)] at hread
  obtain rfl := Option.some.inj hread
  have hc : schema.Compiled generated.items := ⟨hwell, hnames, hwritten, hcompiles⟩
  obtain ⟨fuel, htyped⟩ := hvalue
  rcases fuel with _ | fuel
  · exact htyped.elim
  · obtain ⟨b, hb, hcodes⟩ := (hc.encodesTyped fuel).named hc hdeclares hrust htyped
    exact ⟨b, hb, hcodes.writes, hcodes.reads⟩

/-! ## An example -/

/-- The status of a read. -/
def readStatus : EnumBody := ⟨[⟨"OK", .number 0⟩, ⟨"AGAIN", .number 1⟩]⟩

/-- An identifier and at most eight bytes of data. -/
def readNode : StructBody where
  declarations := [⟨.int, ⟨"id", none⟩⟩,
    ⟨.opaqueData, ⟨"data", some (.variableArray (some (.identifier "MAX")))⟩⟩]

/-- A node, or a status alone. -/
def readResult : UnionBody where
  discriminant := ⟨.identifier "kind", ⟨"status", none⟩⟩
  arms := [⟨[.case (.identifier "OK")], ⟨.identifier "node", ⟨"node", none⟩⟩⟩,
    ⟨[.default], ⟨.void, ⟨"", none⟩⟩⟩]

/-- The schema of a read. -/
def readSchema : Schema where
  items := [.const ⟨"MAX", .number 8⟩, .enum "kind" readStatus, .struct "node" readNode,
    .union "result" readResult]

/-- The union that is written for `result`. -/
def readResultUnion : RustUnion where
  variants := [⟨"Ok", false, .variant "kind" "OK", some ⟨"node", .named "node", .encodeXdr,
      .decodeXdr (.named "node"), .encodeSegments⟩, false⟩,
    ⟨"Default", true, .discriminant, none, true⟩]
  decodeType := .i32
  arms := [⟨.rawVariant "kind" "OK", "Ok", some ⟨"node", .named "node", .encodeXdr,
    .decodeXdr (.named "node"), .encodeSegments⟩⟩]
  fallback := .default none

/-- The fields that are written for `node`. -/
def readNodeFields : List RustField :=
  [⟨"id", .i32, .encodeXdr, .decodeXdr .i32, .encodeSegments⟩,
    ⟨"data", .bytes (some (.identifier "MAX")), .encodeXdr, .decodeXdr (.bytes none),
      .opaqueBody (some (.identifier "MAX"))⟩]

/-- The schema is emitted with distinct names, none of them a name of the runtime, so that its code
is read as it stands; the code compiles, and has the types above. -/
theorem readSchema_checked :
    readSchema.DistinctNames ∧ readSchema.NoRuntimeNames ∧ (emitRustTypes readSchema).isOk = true ∧
      readItems readSchema.code.items = some readSchema.code.items ∧
      readSchema.code.items.all (RustItem.compiles readSchema.code.items) = true ∧
      findType readSchema.code.items "result" = some (.union "result" readResultUnion) ∧
      findType readSchema.code.items "node" = some (.struct "node" readNodeFields) ∧
      maximumLen readSchema.code.items (some (.identifier "MAX")) = some 8 := by
  unfold Schema.DistinctNames Schema.NoRuntimeNames
  decide +kernel

/-- The constant `MAX` is 8. -/
theorem readSchema_denotes_max : readSchema.Denotes (.identifier "MAX") 8 := ⟨1, rfl⟩

/-- It is well formed. -/
theorem readSchema_wellFormed : readSchema.WellFormed := by
  have hmax : Usable "MAX" := usable_of_check (by decide +kernel)
  have hkind : readSchema.Declares "kind" (.enum "kind" readStatus) := ⟨by simp [readSchema], rfl⟩
  have hnode : readSchema.Declares "node" (.struct "node" readNode) := ⟨by simp [readSchema], rfl⟩
  intro item hmem
  simp only [readSchema, List.mem_cons, List.not_mem_nil, or_false] at hmem
  rcases hmem with rfl | rfl | rfl | rfl
  · trivial
  · refine .enum ?_
    simp [readStatus, ValueExpr.Usable]
  · refine .struct ?_ ?_
    · simp only [readNode, List.mem_cons, List.not_mem_nil, or_false, forall_eq_or_imp, forall_eq]
      refine ⟨⟨nofun, nofun⟩, nofun, ?_⟩
      intro _ hbound
      obtain rfl := Option.some.inj hbound
      exact ⟨hmax, 8, by decide, readSchema_denotes_max⟩
    · simp only [readNode, List.mem_cons, List.not_mem_nil, or_false, forall_eq_or_imp, forall_eq]
      exact ⟨.int, .opaqueData⟩
  · have hlabel : readSchema.LabelValue (.identifier "kind") (.identifier "OK") 0 :=
      @Schema.LabelValue.variant _ _ readStatus ⟨"OK", .number 0⟩ _ hkind (by simp [readStatus])
        ⟨0, rfl⟩
    refine .union ⟨.enum hkind (usable_of_check (by decide +kernel)), rfl, ?_, ?_, ?_, ?_⟩ ?_ ?_
    · simp [readResult]
    · simp [readResult]
    · simp only [readResult, List.mem_cons, List.not_mem_nil, or_false, forall_eq_or_imp,
        forall_eq, UnionCaseLabel.case.injEq, reduceCtorEq, false_implies, implies_true, and_true]
      exact ⟨usable_of_check (by decide +kernel), 0, hlabel⟩
    · simp only [readResult, List.mem_cons, List.not_mem_nil, or_false, forall_eq_or_imp,
        forall_eq, UnionCaseLabel.case.injEq, reduceCtorEq, false_implies, implies_true, and_true]
      rintro _ _ - rfl rfl - -
      exact ⟨trivial, rfl⟩
    · simp [readResult, Schema.Legal]
    · simp only [readResult, List.mem_cons, List.not_mem_nil, or_false, forall_eq_or_imp,
        forall_eq]
      exact ⟨.identifier hnode (usable_of_check (by decide +kernel)), .void⟩

/-- The result of a read, as a value. -/
def readValue : Value := .union "Ok" none (some (.struct [.i32 7, .bytes [1, 2, 3]]))

/-- The value is one of the generated type. -/
theorem readValue_hasType : HasType readSchema.code.items (.named "result") readValue := by
  obtain ⟨-, -, -, -, -, hresult, hnode, hmax⟩ := readSchema_checked
  refine ⟨2, _, hresult, _, List.mem_cons_self .., rfl, rfl, _, hnode, ?_⟩
  refine .cons trivial (.cons ⟨by decide, fun maximum hmaximum => ?_⟩ .nil)
  rw [hmax] at hmaximum
  cases hmaximum
  decide

/-- The value is encoded as the standard says, and read back. -/
theorem generated_codec_readSchema :
    ∃ b, readSchema.Encodes (.identifier "result") none readValue b ∧
      (∀ᶠ fuel in Filter.atTop,
        encodeXdr readSchema.code.items fuel (.named "result") readValue = some (.ok b)) ∧
      ∀ᶠ fuel in Filter.atTop, ∀ rest,
        decodeXdr readSchema.code.items fuel (.named "result") (b ++ rest) =
          some (.ok readValue, rest) := by
  obtain ⟨hnames, hruntime, hemit, hread, hcompiles, -⟩ := readSchema_checked
  exact generated_codec readSchema readSchema.code readSchema.code.items
    (Schema.emitRustTypes_code hemit) readSchema_wellFormed hnames hruntime hread
    (compiles_of_check _ hcompiles) "result" "result" (.union "result" readResult)
    ⟨by simp [readSchema], rfl⟩ rfl readValue readValue_hasType

/-! ## A word that is hidden -/

/-- A structure with one number. -/
def wordStruct : StructBody := ⟨[⟨.unsignedInt, ⟨"x", none⟩⟩]⟩

/-- The structure, after a hyper of the name of a word. -/
def hiddenWordSchema : Schema where
  items := [.typedef ⟨.hyper, ⟨"u32", none⟩⟩, .struct "s" wordStruct]

/-- The code for it, as the compiler reads it. -/
def hiddenWordCode : List RustItem :=
  [.typeAlias "u32" .i64, .struct "s" [⟨"x", .named "u32", .encodeXdr, .decodeXdr (.named "u32"),
    .encodeSegments⟩]]

/-- It is well formed. -/
theorem hiddenWordSchema_wellFormed : hiddenWordSchema.WellFormed := by
  intro item hmem
  simp only [hiddenWordSchema, List.mem_cons, List.not_mem_nil, or_false] at hmem
  rcases hmem with rfl | rfl
  · exact ⟨⟨nofun, nofun⟩, .hyper⟩
  · refine .struct ?_ ?_
    · intro d hd
      obtain rfl := List.mem_singleton.mp hd
      exact ⟨nofun, nofun⟩
    · intro d hd
      obtain rfl := List.mem_singleton.mp hd
      exact .unsignedInt

/-- A hyper has no encoding as the structure. -/
theorem hiddenWordSchema_not_encodes (b : Bytes) :
    ¬ hiddenWordSchema.Encodes (.identifier "s") none (.struct [.i64 5]) b := by
  have hitem {item : Item} (h : hiddenWordSchema.Declares "s" item) :
      item = .struct "s" wordStruct := by
    obtain ⟨hmem, hname⟩ := h
    simp only [hiddenWordSchema, List.mem_cons, List.not_mem_nil, or_false] at hmem
    rcases hmem with rfl | rfl
    · exact absurd hname (by decide)
    · rfl
  intro h
  cases h with
  | typedef hdeclares => cases hitem hdeclares
  | enumName hdeclares => cases hitem hdeclares
  | unionName hdeclares => cases hitem hdeclares
  | structName hdeclares hbody =>
    cases hitem hdeclares
    cases hbody with
    | struct hvalues hencodings hfields =>
      obtain ⟨encoding, rfl⟩ := List.length_eq_one_iff.mp hencodings
      -- Only a number is a value of the type.
      cases hfields _ (List.mem_singleton_self _)

/-- After a type definition of the name `u32`, a number of the type `unsigned int` is written as a
hyper, in eight bytes; the standard has no encoding of such a value, and four bytes for every number
of the type. -/
theorem hidden_word_widens :
    encodeXdr hiddenWordCode 2 (.named "s") (.struct [.i64 5]) =
      some (.ok [0, 0, 0, 0, 0, 0, 0, 5]) ∧
    ¬ ∀ (schema : Schema) (generated : Generated) (code : List RustItem),
      emitRustTypes schema = .ok generated → schema.WellFormed → schema.DistinctNames →
      readItems generated.items = some code → Compiles code →
      ∀ (name rust : String) (item : Item), schema.Declares name item →
      item.rustName = some rust → ∀ value, HasType code (.named rust) value →
      ∃ b, schema.Encodes (.identifier name) none value b ∧
        (∀ᶠ fuel in Filter.atTop, encodeXdr code fuel (.named rust) value = some (.ok b)) ∧
        ∀ᶠ fuel in Filter.atTop, ∀ rest,
          decodeXdr code fuel (.named rust) (b ++ rest) = some (.ok value, rest) := by
  refine ⟨rfl, fun hall => ?_⟩
  have hnames : hiddenWordSchema.DistinctNames := by
    unfold Schema.DistinctNames
    decide +kernel
  obtain ⟨b, hencodes, -, -⟩ := hall hiddenWordSchema hiddenWordSchema.code hiddenWordCode
    (Schema.emitRustTypes_code (by decide +kernel)) hiddenWordSchema_wellFormed hnames
    (by decide +kernel) (compiles_of_check _ (by decide +kernel)) "s" "s" (.struct "s" wordStruct)
    ⟨by simp [hiddenWordSchema], rfl⟩ rfl (.struct [.i64 5])
    ⟨2, _, rfl, .cons ⟨_, rfl, trivial⟩ .nil⟩
  exact hiddenWordSchema_not_encodes b hencodes

end OncRpc
