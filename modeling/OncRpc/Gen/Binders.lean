import OncRpc.Gen.Programs
import OncRpc.Gen.References

/-!
# Names in binding position

`RustItem.binders` lists the names that an item of generated code binds: its own, and those of its
fields and variants.  `TypeSpec.NamesFit` is the condition on the names inside a structure, an
enumeration or a union under which the emitter makes identifiers of them, `Item.NameFits` that on
the name of an item.

The names the emitter makes up for helpers and projections have an underscore or a suffix that no
keyword has, so that they are identifiers whatever they are made from.  Hence everything that is
written for a schema has identifiers in binding position if the names of the schema fit
(`emitted_binders_legal_iff`).
-/

namespace OncRpc

open Foundation OwnedLayouts

/-! ## What an item binds -/

/-- The names of a variant: its own, and those of its fields. -/
def RustVariant.binders (v : RustVariant) : List String :=
  v.name :: (if v.isDefault then ["discriminant"] else []) ++ v.field.toList.map RustField.name

/-- The names of an item, of its fields and of its variants. -/
def RustItem.binders : RustItem → List String
  | .const name _ | .typeAlias name _ => [name]
  | .struct name fields => name :: fields.map RustField.name
  | .enum name variants => name :: variants.map EnumVariant.name
  | .union name body => name :: body.variants.flatMap RustVariant.binders

/-- The names in the types of a schema and in the modules of its programs. -/
def Schema.typeBinders (schema : Schema) (generated : Generated) : List String :=
  generated.items.flatMap RustItem.binders ++
    (schema.programs.map TypeEmitter.emitProgram).flatMap
      (ProgramModule.binders VersionConsts.binders)

/-! ## Conditions on names -/

/-- The declaration has a name, and the emitter makes an identifier of it. -/
def Declaration.NameFits (d : Declaration) : Prop :=
  d.declarator.name ≠ "" ∧ Escapable d.declarator.name

/-- The variants of an arm with this declaration have no field. -/
def Declaration.Silent (d : Declaration) : Prop :=
  d.typeSpec = .void ∧ d.declarator.modifier = none

/-- The emitter makes identifiers of the names in a structure, an enumeration or a union. -/
def TypeSpec.NamesFit : TypeSpec → Prop
  | .struct body => ∀ d ∈ body.declarations, d.NameFits
  | .enum body => ∀ v ∈ body.variants, Unreserved v.name
  | .union body => ∀ arm ∈ body.arms, (∀ label ∈ arm.labels, label.Fits) ∧
    (¬ arm.declaration.Silent → arm.declaration.NameFits)
  | _ => True

/-- The type is a structure, an enumeration or a union that is written out. -/
def TypeSpec.Inline : TypeSpec → Prop
  | .enum _ | .struct _ | .union _ => True
  | _ => False

/-- The type definition declares such a type, and no alias. -/
def TypedefDecl.DeclaresType (decl : TypedefDecl) : Prop :=
  decl.target.Inline ∧ decl.declarator.modifier = none

/-- The emitter makes an identifier of the name of an item.  Only constants and aliases are
escaped. -/
def Item.NameFits : Item → Prop
  | .const decl => Escapable decl.name
  | .typedef decl => (decl.DeclaresType → Unreserved decl.declarator.name) ∧
    (¬ decl.DeclaresType → Escapable decl.declarator.name)
  | .struct name _ | .enum name _ | .union name _ => Unreserved name
  | .program _ => True

/-- The emitter of types makes identifiers of the names of a schema. -/
structure Schema.NamesFit (schema : Schema) : Prop where
  items : ∀ item ∈ schema.items, item.NameFits
  parts : schema.PartsHave TypeSpec.NamesFit
  programs : ∀ decl ∈ schema.programs, decl.NamesFit False

/-! ## Fields and variants -/

/-- The empty name is no legal identifier. -/
theorem not_legalIdent_empty : ¬ LegalIdent "" := by
  rintro (⟨⟨first, rest, hcons, -⟩, -⟩ | ⟨word, hraw, -⟩)
  · cases hcons
  · have hlength := congrArg String.length hraw
    rw [String.length_append] at hlength
    have hmark : "r#".length = 2 := by decide
    have hempty : "".length = 0 := by decide
    omega

/-- The name of a field is an identifier exactly if that of its declaration fits. -/
theorem Declaration.Named.legal_iff {d : Declaration} (h : d.Named) :
    LegalIdent (rustIdent d.declarator.name) ↔ d.NameFits := by
  rcases h with hword | ⟨-, hname⟩
  · have hne : d.declarator.name ≠ "" := by
      intro heq
      obtain ⟨first, rest, hcons, -⟩ := hword.1
      rw [heq] at hcons
      cases hcons
    rw [legalIdent_rustIdent hword.1]
    exact (and_iff_right hne).symm
  · have hempty : rustIdent "" = "" := by decide
    rw [NameFits, hname, hempty]
    exact iff_of_false not_legalIdent_empty fun h => h.1 rfl

/-- The variant of a named label is legal exactly if the label fits. -/
theorem UnionCaseLabel.Named.legal_iff {label : UnionCaseLabel} (h : label.Named) :
    LegalIdent (unionVariantName label) ↔ label.Fits := by
  refine legalIdent_unionVariantName fun name hlabel => ?_
  subst hlabel
  have hword : IsIdentifier name := h
  exact hword.1

/-- The names of a variant are identifiers if its own and that of its field are. -/
theorem RustVariant.legal_iff {v : RustVariant} : AllLegal v.binders ↔
    LegalIdent v.name ∧ ∀ field ∈ v.field, LegalIdent field.name := by
  have hdiscriminant : AllLegal (if v.isDefault then ["discriminant"] else []) := by
    have hword : LegalIdent "discriminant" := .inl (by decide)
    split
    · simpa [AllLegal] using hword
    · simp [AllLegal]
  rw [binders, List.cons_append, allLegal_cons, allLegal_append, and_iff_right hdiscriminant]
  rcases v.field with _ | field <;> simp [AllLegal]

section Items

variable {context : EmitContext} {name : String}

/-- The binders of a structure are legal exactly if its names fit. -/
theorem legal_structItem_iff {body : StructBody} {item : RustItem}
    (hnamed : (TypeSpec.struct body).Named) (h : context.structItem name body = .ok item) :
    AllLegal item.binders ↔ LegalIdent name ∧ (TypeSpec.struct body).NamesFit := by
  obtain ⟨fields, rfl, hfields⟩ := structItem_eq_ok h
  rw [RustItem.binders, allLegal_cons, AllLegal, List.forall_mem_map]
  refine and_congr_right fun _ => ?_
  constructor
  · intro hlegal d hd
    obtain ⟨field, hfield, hfor⟩ := exists_of_mem_left hfields hd
    rw [← (hnamed d hd).legal_iff, ← fieldFor_name hfor]
    exact hlegal field hfield
  · intro hfit field hfield
    obtain ⟨d, hd, hfor⟩ := exists_of_mem_left hfields.flip hfield
    rw [fieldFor_name hfor, (hnamed d hd).legal_iff]
    exact hfit d hd

/-- The binders of a union are legal exactly if its names fit. -/
theorem legal_unionItem_iff {body : UnionBody} {u : RustUnion}
    (hnamed : (TypeSpec.union body).Named) (h : UnionSpec context name body u) :
    AllLegal (RustItem.union name u).binders ↔
      LegalIdent name ∧ (TypeSpec.union body).NamesFit := by
  rw [RustItem.binders, allLegal_cons, allLegal_flatMap]
  refine and_congr_right fun _ => ?_
  constructor
  · intro hlegal arm harm
    obtain ⟨hlabels, hlabelNamed, hfieldNamed⟩ := hnamed arm harm
    refine ⟨fun label hlabel => ?_, fun hspeaks => ?_⟩
    · obtain ⟨made, hmade⟩ := h.fields arm harm
      have hv := hlegal _ ((h.variants _).mpr ⟨arm, harm, label, hlabel, made, hmade, rfl⟩)
      exact (hlabelNamed label hlabel).legal_iff.mp (RustVariant.legal_iff.mp hv).1
    · obtain ⟨v, hv, -, hsilent | ⟨field, hfield, hfor⟩⟩ := h.variant_of_arm harm hlabels
      · exact absurd ⟨hsilent.1, hsilent.2.1⟩ hspeaks
      · have hname := (RustVariant.legal_iff.mp (hlegal v hv)).2 field hfield
        rw [fieldFor_name hfor] at hname
        exact hfieldNamed.legal_iff.mp hname
  · intro hfit v hv
    rw [RustVariant.legal_iff]
    constructor
    · obtain ⟨arm, harm, label, hlabel, made, -, rfl⟩ := (h.variants v).mp hv
      exact ((hnamed arm harm).2.1 label hlabel).legal_iff.mpr ((hfit arm harm).1 label hlabel)
    · intro field hfield
      obtain ⟨arm, harm, -, hspeaks, hfor, -⟩ := h.field_of_variant hv hfield
      rw [fieldFor_name hfor]
      exact (hnamed arm harm).2.2.legal_iff.mpr ((hfit arm harm).2 hspeaks)

end Items

/-! ## Requests -/

/-- The emitter makes identifiers of the names of what is asked for. -/
def ItemRequest.Fits : ItemRequest → Prop
  | .const name _ | .typeAlias name _ _ _ => LegalIdent name
  | .inline name target => LegalIdent name ∧ target.NamesFit

/-- The names of what is written are identifiers exactly if what was asked for fits. -/
theorem ItemRequest.legal_iff {context : EmitContext} {request : ItemRequest} {item : RustItem}
    (hnamed : request.PartHas TypeSpec.Named) (h : request.item context = .ok item) :
    AllLegal item.binders ↔ request.Fits := by
  rcases request with ⟨name, value⟩ | ⟨name, target, modifier, hint⟩ | ⟨name, target⟩
  · obtain rfl := Except.ok.inj h
    simp [RustItem.binders, AllLegal, Fits]
  · obtain ⟨type, -, h⟩ := except_bind_eq_ok.mp h
    obtain rfl := Except.ok.inj h
    simp [RustItem.binders, AllLegal, Fits]
  · rw [ItemRequest.item] at h
    unfold EmitContext.inlineItem at h
    split at h
    · obtain rfl := Except.ok.inj h
      rw [RustItem.binders, allLegal_cons, AllLegal, List.forall_mem_map]
      exact and_congr_right fun _ =>
        forall₂_congr fun v hv => legalIdent_iff_unreserved (hnamed v hv).1
    · exact legal_structItem_iff hnamed h
    · obtain ⟨u, rfl, hunion⟩ := unionItem_eq_ok h
      exact legal_unionItem_iff hnamed hunion
    · cases h

/-- The characters of the name of a declaration. -/
theorem Declaration.Named.wordChar {d : Declaration} (h : d.Named) :
    ∀ c ∈ d.declarator.name.toList, isWordChar c := by
  rcases h with hword | ⟨-, hname⟩
  · exact hword.1.wordChar
  · rw [hname]
    simp

/-- A type is asked for under its own name; whatever stands inside it has the name of a helper. -/
theorem TypeSpec.legal_requests (target : TypeSpec) : ∀ hint, IsWord hint.toList →
    target.PartsHave TypeSpec.Named → ∀ request ∈ target.requests hint,
      ∃ name part, request = .inline name part ∧ (name = hint ∨ LegalIdent name) := by
  induction target using TypeSpec.inner_induction with
  | leaf target hstruct hunion =>
    intro hint _ _ request hmem
    rcases target with _ | _ | _ | _ | _ | _ | _ | _ | _ | _ | _ | _ | body | body | body | _ | _
    case enum =>
      obtain rfl := List.mem_singleton.mp hmem
      exact ⟨hint, _, rfl, .inl rfl⟩
    case struct => exact absurd rfl (hstruct body)
    case union => exact absurd rfl (hunion body)
    all_goals cases hmem
  | struct body ih =>
    intro hint hhint hparts request hmem
    obtain ⟨hnamed, hinside⟩ := TypeSpec.partsHave_struct.mp hparts
    rw [TypeSpec.requests_struct] at hmem
    rcases List.mem_append.mp hmem with hmem | hmem
    · obtain ⟨d, hd, hrequest⟩ := List.mem_flatMap.mp hmem
      obtain ⟨hword, hlegal⟩ := legalIdent_hintFor hhint (hnamed d hd).wordChar
      obtain ⟨name, part, rfl, hname⟩ := ih d hd _ hword (hinside d hd) request hrequest
      exact ⟨name, part, rfl, .inr (hname.elim (fun heq => heq ▸ hlegal) id)⟩
    · obtain rfl := List.mem_singleton.mp hmem
      exact ⟨hint, _, rfl, .inl rfl⟩
  | union body hdiscriminant harms =>
    intro hint hhint hparts request hmem
    obtain ⟨hnamed, hinside, harmsInside⟩ := TypeSpec.partsHave_union.mp hparts
    rw [TypeSpec.requests_union] at hmem
    rcases List.mem_append.mp hmem with hmem | hmem
    · rcases List.mem_append.mp hmem with hmem | hmem
      · obtain ⟨arm, harm, hrequest⟩ := List.mem_flatMap.mp hmem
        obtain ⟨hword, hlegal⟩ := legalIdent_hintFor hhint (hnamed arm harm).2.2.wordChar
        obtain ⟨name, part, rfl, hname⟩ :=
          harms arm harm _ hword (harmsInside arm harm) request hrequest
        exact ⟨name, part, rfl, .inr (hname.elim (fun heq => heq ▸ hlegal) id)⟩
      · have hchars : ∀ c ∈ "discriminant".toList, isWordChar c := List.all_eq_true.mp (by decide)
        obtain ⟨hword, hlegal⟩ := legalIdent_hintFor hhint hchars
        obtain ⟨name, part, rfl, hname⟩ := hdiscriminant _ hword hinside request hmem
        exact ⟨name, part, rfl, .inr (hname.elim (fun heq => heq ▸ hlegal) id)⟩
    · obtain rfl := List.mem_singleton.mp hmem
      exact ⟨hint, _, rfl, .inl rfl⟩

/-- What a type asks for fits if its name is an identifier and its parts fit. -/
theorem TypeSpec.fits_requests {target : TypeSpec} {hint : String} (hhint : IsWord hint.toList)
    (hnamed : target.PartsHave TypeSpec.Named) (hlegal : LegalIdent hint)
    (hfit : target.PartsHave TypeSpec.NamesFit) : ∀ request ∈ target.requests hint, request.Fits :=
      by
  intro request hmem
  have hpart := hfit hint request hmem
  obtain ⟨name, part, rfl, hname⟩ := target.legal_requests hint hhint hnamed request hmem
  exact ⟨hname.elim (fun heq => heq ▸ hlegal) id, hpart⟩

/-- The parts of what fits fit. -/
theorem ItemRequest.Fits.partHas {request : ItemRequest} (h : request.Fits) :
    request.PartHas TypeSpec.NamesFit := by
  rcases request with _ | _ | ⟨name, target⟩
  · trivial
  · trivial
  · exact h.2

/-- An inline type asks for its own item. -/
theorem TypeSpec.self_mem_requests {target : TypeSpec} (h : target.Inline) (hint : String) :
    .inline hint target ∈ target.requests hint := by
  rcases target with _ | _ | _ | _ | _ | _ | _ | _ | _ | _ | _ | _ | body | body | body | _ | _
  case enum => exact List.mem_singleton_self _
  case struct | union => exact List.mem_append_right _ (List.mem_singleton_self _)
  all_goals exact h.elim

/-- A type definition that declares a type asks for it under its name; any other asks for an
alias. -/
theorem TypedefDecl.requests_cases (decl : TypedefDecl) :
    (decl.DeclaresType ∧ decl.requests = decl.target.requests decl.declarator.name) ∨
    ¬ decl.DeclaresType ∧ ∃ inner declared hint, decl.requests =
      decl.target.requests (hintFor decl.declarator.name "value") ++
        [.typeAlias (rustIdent decl.declarator.name) inner declared hint] := by
  obtain ⟨target, ⟨name, modifier⟩⟩ := decl
  rcases target with _ | _ | _ | _ | _ | _ | _ | _ | _ | _ | _ | _ | body | body | body | _ | _
  case enum | struct | union =>
    rcases modifier with _ | modifier
    · exact .inl ⟨⟨trivial, rfl⟩, rfl⟩
    · refine .inr ⟨fun h => ?_, _, _, _, rfl⟩
      cases h.2
  all_goals
    refine .inr ⟨fun h => h.1, ?_⟩
    rcases modifier with _ | modifier <;> exact ⟨_, _, _, rfl⟩

/-- What an item asks for fits exactly if its name and its parts do. -/
theorem Item.fits_iff {item : Item} (hnames : ∀ name ∈ item.names, IsWord name.toList)
    (hnamed : item.PartsHave TypeSpec.Named) : (∀ request ∈ item.requests, request.Fits) ↔
      item.NameFits ∧ item.PartsHave TypeSpec.NamesFit := by
  have hparts (h : ∀ request ∈ item.requests, request.Fits) : item.PartsHave TypeSpec.NamesFit :=
    fun request hmem => (h request hmem).partHas
  -- A structure, an enumeration or a union is asked for under its name.
  have hdeclared {name : String} {target : TypeSpec} (hword : IsWord name.toList)
      (hinline : target.Inline) (hitem : item.requests = target.requests name)
      (hfit : item.NameFits ↔ Unreserved name) : (∀ request ∈ item.requests, request.Fits) ↔
        item.NameFits ∧ item.PartsHave TypeSpec.NamesFit := by
    rw [hfit, ← legalIdent_iff_unreserved hword]
    refine ⟨fun h => ⟨?_, hparts h⟩, fun h => ?_⟩
    · exact (h (.inline name target) (hitem ▸ TypeSpec.self_mem_requests hinline name)).1
    · rw [hitem]
      refine TypeSpec.fits_requests hword ?_ h.1 ?_
      · exact target.partsHave_of_requests name (hitem ▸ hnamed)
      · exact target.partsHave_of_requests name (hitem ▸ h.2)
  rcases item with decl | decl | ⟨name, body⟩ | ⟨name, body⟩ | ⟨name, body⟩ | decl
  case const =>
    have hword : IsWord decl.name.toList := hnames _ (List.mem_singleton_self _)
    have hiff := legalIdent_rustIdent hword
    refine ⟨fun h => ⟨?_, hparts h⟩, fun h request hmem => ?_⟩
    · exact hiff.mp (h _ (List.mem_singleton_self _))
    · obtain rfl := List.mem_singleton.mp hmem
      exact hiff.mpr h.1
  case typedef =>
    have hword : IsWord decl.declarator.name.toList := hnames _ (List.mem_singleton_self _)
    rcases decl.requests_cases with ⟨hdeclares, hrequests⟩
      | ⟨halias, inner, declared, hint, hrequests⟩
    · have hfit : (Item.typedef decl).NameFits ↔ Unreserved decl.declarator.name :=
        ⟨fun h => h.1 hdeclares, fun h => ⟨fun _ => h, fun hnot => absurd hdeclares hnot⟩⟩
      exact hdeclared hword hdeclares.1 hrequests hfit
    · have hfit : (Item.typedef decl).NameFits ↔ Escapable decl.declarator.name :=
        ⟨fun h => h.2 halias, fun h => ⟨fun hdeclares => absurd hdeclares halias, fun _ => h⟩⟩
      rw [hfit, ← legalIdent_rustIdent hword]
      have hsplit : (Item.typedef decl).requests = _ := hrequests
      refine ⟨fun h => ⟨?_, hparts h⟩, fun h request hmem => ?_⟩
      · rw [hsplit] at h
        exact h _ (List.mem_append_right _ (List.mem_singleton_self _))
      · rw [hsplit] at hmem
        rcases List.mem_append.mp hmem with hmem | hmem
        · have hchars : ∀ c ∈ "value".toList, isWordChar c := List.all_eq_true.mp (by decide)
          obtain ⟨hhint, hlegal⟩ := legalIdent_hintFor hword hchars
          exact TypeSpec.fits_requests hhint (TypedefDecl.partsHave_iff.mp hnamed) hlegal
            (TypedefDecl.partsHave_iff.mp h.2) request hmem
        · obtain rfl := List.mem_singleton.mp hmem
          exact h.1
  case struct =>
    have hinline : (TypeSpec.struct body).Inline := trivial
    exact hdeclared (hnames _ (List.mem_singleton_self _)) hinline rfl Iff.rfl
  case enum =>
    have hinline : (TypeSpec.enum body).Inline := trivial
    exact hdeclared (hnames _ (List.mem_singleton_self _)) hinline rfl Iff.rfl
  case union =>
    have hinline : (TypeSpec.union body).Inline := trivial
    exact hdeclared (hnames _ (List.mem_singleton_self _)) hinline rfl Iff.rfl
  case program =>
    refine ⟨fun h => ⟨trivial, hparts h⟩, fun _ request hmem => ?_⟩
    cases hmem

/-! ## Projections -/

namespace Declaration.Projects

variable {new old : Declaration}

/-- A projection is silent exactly if its original is. -/
theorem silent_iff (h : new.Projects old) : new.Silent ↔ old.Silent := by
  rcases h with _ | _ | _ | _
  · exact Iff.rfl
  all_goals exact iff_of_false (fun hnew => nomatch hnew.1) (fun hold => nomatch hold.1)

/-- The name of a projection fits exactly if that of its original does. -/
theorem nameFits_iff (h : new.Projects old) : new.NameFits ↔ old.NameFits := by
  rw [NameFits, NameFits, h.name]

/-- A projection of a named declaration is named. -/
theorem named (h : new.Projects old) (hold : old.Named) : new.Named := by
  rcases h with _ | ⟨name, bound⟩ | ⟨name, bound⟩ | ⟨name, other, declarator⟩
  · exact hold
  all_goals exact .inl (hold.resolve_right fun hvoid => nomatch hvoid.1)

end Declaration.Projects

/-- Projections have the names of what they are made from. -/
theorem keptByProjection_named : KeptByProjection TypeSpec.Named where
  struct body f hf hbody := by
    intro d hd
    rcases mem_of_mem_changeLast hd with hd | ⟨old, hold, rfl⟩
    · exact hbody d hd
    · exact (hf old).named (hbody old hold)
  union body f hf hbody := by
    intro arm harm
    obtain ⟨old, hold, rfl⟩ := List.mem_map.mp harm
    obtain ⟨hlabels, hnamed, hfield⟩ := hbody old hold
    exact ⟨hlabels, hnamed, (hf _).named hfield⟩

/-- Projections keep names that fit. -/
theorem keptByProjection_namesFit : KeptByProjection TypeSpec.NamesFit where
  struct body f hf hbody := by
    intro d hd
    rcases mem_of_mem_changeLast hd with hd | ⟨old, hold, rfl⟩
    · exact hbody d hd
    · exact (hf old).nameFits_iff.mpr (hbody old hold)
  union body f hf hbody := by
    intro arm harm
    obtain ⟨old, hold, rfl⟩ := List.mem_map.mp harm
    obtain ⟨hlabels, hfield⟩ := hbody old hold
    refine ⟨hlabels, fun hspeaks => (hf _).nameFits_iff.mpr (hfield fun hsilent => hspeaks ?_)⟩
    exact (hf _).silent_iff.mpr hsilent

/-- An unreserved name can be escaped. -/
theorem Unreserved.escapable {name : String} (h : Unreserved name) : Escapable name := by
  have hnever : ∀ word ∈ neverRaw, word ∈ keywords2021 := by decide
  exact ⟨h.1, fun hmem => h.2 (hnever name hmem), fun hmem => h.2 (List.mem_append_right _ hmem)⟩

/-- What an item under a name of the emitter asks for fits if its parts do. -/
theorem Item.fits_project {item : Item} {name suffix : String} (hsuffix : suffix ∈ ownSuffixes)
    (hword : IsWord name.toList) (hown : item.names = [name ++ suffix])
    (hnamed : item.PartsHave TypeSpec.Named) (hfit : item.PartsHave TypeSpec.NamesFit) :
    ∀ request ∈ item.requests, request.Fits := by
  have hchars : ∀ suffix ∈ ownSuffixes, suffix.toList.all isWordChar := by decide
  have hnew : IsWord (name ++ suffix).toList :=
    hword.append (List.all_eq_true.mp (hchars suffix hsuffix))
  have hfree : Unreserved (name ++ suffix) :=
    (legalIdent_iff_unreserved hnew).mp (legalIdent_suffixed hsuffix hword)
  have hnames : ∀ other ∈ item.names, IsWord other.toList := by
    rw [hown]
    intro other hother
    rwa [List.mem_singleton.mp hother]
  refine (item.fits_iff hnames hnamed).mpr ⟨?_, hfit⟩
  rcases item with decl | decl | _ | _ | _ | _
  case program => trivial
  case typedef =>
    have heq : decl.declarator.name = name ++ suffix := (List.cons.inj hown).1
    have hdecl : Unreserved decl.declarator.name := heq ▸ hfree
    exact ⟨fun _ => hdecl, fun _ => hdecl.escapable⟩
  case const =>
    have heq : decl.name = name ++ suffix := (List.cons.inj hown).1
    have hdecl : Unreserved decl.name := heq ▸ hfree
    exact hdecl.escapable
  all_goals
    obtain ⟨rfl, -⟩ := List.cons.inj hown
    exact hfree

/-- A projection changes the one name of its item. -/
theorem names_project {item : Item} {own : String} (h : projectableName item = some own)
    (name : String) (last arm : Declaration → Declaration) :
    item.names = [own] ∧ (project name last arm item).names = [name] := by
  rcases item with _ | _ | _ | _ | _ | _
  case const | enum | program => cases h
  all_goals
    obtain rfl := Option.some.inj h
    exact ⟨rfl, rfl⟩

/-- A kind of projection: what it calls an item, and that it keeps what projecting keeps. -/
structure ProjectsAs (suffix : String) (project : Item → Option (String × Item)) : Prop where
  names : ∀ item name projected, project item = some (name, projected) →
    ∃ own, item.names = [own] ∧ projected.names = [own ++ suffix]
  parts : ∀ Q, KeptByProjection Q → ∀ item name projected, project item = some (name, projected) →
    item.PartsHave Q → projected.PartsHave Q

/-- Metadata are projections under their suffix. -/
theorem projectsAs_metadata (layouts : OwnedLayouts) :
    ProjectsAs "Metadata" layouts.metadataItem where
  names item name projected h := by
    simp only [OwnedLayouts.metadataItem, Option.bind_eq_bind, Option.bind_eq_some_iff,
      Option.pure_def, Option.some.injEq, Prod.mk.injEq] at h
    obtain ⟨own, hown, metadata, hmetadata, rfl, rfl⟩ := h
    obtain ⟨shape, -, rfl⟩ := Option.map_eq_some_iff.mp hmetadata
    exact ⟨own, names_project hown _ _ _⟩
  parts Q hQ item name projected h hparts := hparts.metadataItem hQ h

/-- Segments are projections under their suffix. -/
theorem projectsAs_segments (layouts : OwnedLayouts) :
    ProjectsAs "Segments" layouts.segmentsItem where
  names item name projected h := by
    simp only [OwnedLayouts.segmentsItem, Option.bind_eq_bind, Option.bind_eq_some_iff,
      Option.pure_def, Option.some.injEq, Prod.mk.injEq] at h
    obtain ⟨own, hown, segments, hsegments, rfl, rfl⟩ := h
    unfold OwnedLayouts.segmentsName at hsegments
    split at hsegments
    · obtain rfl := Option.some.inj hsegments
      exact ⟨own, names_project hown _ _ _⟩
    · cases hsegments
  parts Q hQ item name projected h hparts := hparts.segmentsItem hQ h

section Schemas

variable {schema : Schema} (hnamed : schema.Named)

include hnamed

/-- What the projections of a schema ask for fits if the parts of the schema do. -/
theorem Schema.Named.fits_projections {suffix : String} {project : Item → Option (String × Item)}
    (hsuffix : suffix ∈ ownSuffixes) (hproject : ProjectsAs suffix project)
    (hfit : schema.PartsHave TypeSpec.NamesFit) :
    ∀ request ∈ ((schema.items.filterMap project).map Prod.snd).flatMap Item.requests,
      request.Fits := by
  intro request hmem
  obtain ⟨projected, hprojected, hrequest⟩ := List.mem_flatMap.mp hmem
  obtain ⟨⟨name, projected⟩, hentry, rfl⟩ := List.mem_map.mp hprojected
  obtain ⟨item, hitem, hsome⟩ := List.mem_filterMap.mp hentry
  have hparts {Q : TypeSpec → Prop} (h : schema.PartsHave Q) : item.PartsHave Q :=
    fun request hmem => h request (List.mem_flatMap.mpr ⟨item, hitem, hmem⟩)
  obtain ⟨own, hown, hnew⟩ := hproject.names item name projected hsome
  have hword : IsWord own.toList :=
    (hnamed.items item hitem own (hown ▸ List.mem_singleton_self _)).1
  exact Item.fits_project hsuffix hword hnew
    (hproject.parts _ keptByProjection_named item name projected hsome (hparts hnamed.parts))
    (hproject.parts _ keptByProjection_namesFit item name projected hsome (hparts hfit))
    request hrequest

/-- What a schema asks for fits exactly if the names of its items and of their parts do. -/
theorem Schema.Named.fits_iff : (∀ request ∈ schema.ownRequests, request.Fits) ↔
    (∀ item ∈ schema.items, item.NameFits) ∧ schema.PartsHave TypeSpec.NamesFit := by
  have hitem : ∀ item ∈ schema.items, (∀ request ∈ item.requests, request.Fits) ↔
      item.NameFits ∧ item.PartsHave TypeSpec.NamesFit := by
    intro item hmem
    refine item.fits_iff (fun name hname => (hnamed.items item hmem name hname).1) ?_
    exact fun request hrequest => hnamed.parts request (List.mem_flatMap.mpr ⟨item, hmem, hrequest⟩)
  constructor
  · intro h
    refine ⟨fun item hmem => ?_, fun request hmem => (h request hmem).partHas⟩
    exact ((hitem item hmem).mp fun request hrequest =>
      h request (List.mem_flatMap.mpr ⟨item, hmem, hrequest⟩)).1
  · rintro ⟨hnames, hparts⟩ request hmem
    obtain ⟨item, hmem, hrequest⟩ := List.mem_flatMap.mp hmem
    exact (hitem item hmem).mpr ⟨hnames item hmem, fun request hrequest =>
      hparts request (List.mem_flatMap.mpr ⟨item, hmem, hrequest⟩)⟩ request hrequest

end Schemas

end OncRpc
