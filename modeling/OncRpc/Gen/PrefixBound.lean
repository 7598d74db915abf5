import OncRpc.Gen.Bound
import OncRpc.Gen.Render
import OncRpc.Gen.Words

/-!
# The bound on the metadata of a schema

When every type of a schema is written under its own name, the decoder of the metadata of a type
consumes no more than the bound the generator writes for it, and a typed receiver takes every valid
reply (`prefix_bound`).  The proof is by induction on the names the layout of a type goes through.
-/

namespace OncRpc

open Foundation Cursor OwnedLayouts

variable {schema : Schema} {items : List RustItem}

/-! ## Names -/

/-- The keywords that are escaped have no underscore and do not end in `a`, and no two of them
differ by the escape. -/
theorem rustKeywords_plain : ∀ word ∈ rustKeywords,
    "r#" ++ word ∉ rustKeywords ∧ '_' ∉ word.toList ∧ word.toList.getLast? ≠ some 'a' := by
  decide +kernel

/-- No name is written as a keyword. -/
theorem rustIdent_notMem_keywords (name : String) : rustIdent name ∉ rustKeywords := by
  unfold rustIdent
  split
  · next hkeyword => exact (rustKeywords_plain name hkeyword).1
  · next hname => exact hname

example : rustIdent "type" = "r#type" ∧ rustIdent "Type" = "Type" := by decide +kernel

/-- The name of a helper is no keyword. -/
theorem hintFor_notMem_keywords (owner field : String) : hintFor owner field ∉ rustKeywords := by
  intro hmem
  refine (rustKeywords_plain _ hmem).2.1 ?_
  simp [hintFor]

/-- The name of metadata is no keyword. -/
theorem metadata_notMem_keywords (name : String) : name ++ "Metadata" ∉ rustKeywords := by
  intro hmem
  refine (rustKeywords_plain _ hmem).2.2 ?_
  simp

/-- What is asked for inside a type has the name of the type, or one made of two. -/
theorem TypeSpec.typeName_of_mem_requests (target : TypeSpec) : ∀ hint, ∀ request ∈
    target.requests hint, ∀ name, request.typeName = some name →
      name = hint ∨ ∃ owner field, name = hintFor owner field := by
  induction target using TypeSpec.inner_induction with
  | leaf target hstruct hunion =>
    intro hint request hmem name hname
    rcases target with _ | _ | _ | _ | _ | _ | _ | _ | _ | _ | _ | _ | body | body | body | _ | _
    case enum =>
      obtain rfl := List.mem_singleton.mp hmem
      exact .inl (Option.some.inj hname).symm
    case struct => exact absurd rfl (hstruct body)
    case union => exact absurd rfl (hunion body)
    all_goals cases hmem
  | struct body ih =>
    intro hint request hmem name hname
    rw [TypeSpec.requests_struct] at hmem
    rcases List.mem_append.mp hmem with hmem | hmem
    · obtain ⟨d, hd, hmem⟩ := List.mem_flatMap.mp hmem
      rcases ih d hd _ request hmem name hname with rfl | hmade
      · exact .inr ⟨_, _, rfl⟩
      · exact .inr hmade
    · obtain rfl := List.mem_singleton.mp hmem
      exact .inl (Option.some.inj hname).symm
  | union body hdiscriminant harms =>
    intro hint request hmem name hname
    rw [TypeSpec.requests_union] at hmem
    rcases List.mem_append.mp hmem with hmem | hmem
    · rcases List.mem_append.mp hmem with hmem | hmem
      · obtain ⟨arm, harm, hmem⟩ := List.mem_flatMap.mp hmem
        rcases harms arm harm _ request hmem name hname with rfl | hmade
        · exact .inr ⟨_, _, rfl⟩
        · exact .inr hmade
      · rcases hdiscriminant _ request hmem name hname with rfl | hmade
        · exact .inr ⟨_, _, rfl⟩
        · exact .inr hmade
    · obtain rfl := List.mem_singleton.mp hmem
      exact .inl (Option.some.inj hname).symm

/-- What is asked for under a keyword is the structure, enumeration or union of an item of that
name. -/
theorem Item.typeName_of_keyword {item : Item} {request : ItemRequest}
    (hmem : request ∈ item.requests) {name : String} (hname : request.typeName = some name)
    (hkeyword : name ∈ rustKeywords) : item.typeName = some name ∧ item.rustName = some name := by
  have hinner (target : TypeSpec) (hint : String) (hmem : request ∈ target.requests hint) :
      hint = name := by
    rcases target.typeName_of_mem_requests hint request hmem name hname with rfl | ⟨_, _, rfl⟩
    · rfl
    · exact absurd hkeyword (hintFor_notMem_keywords _ _)
  have halias {own hint : String} {target : TypeSpec} {modifier : Option DeclaratorModifier}
      (heq : request = .typeAlias (rustIdent own) target modifier hint) : False := by
    subst heq
    obtain rfl := Option.some.inj hname
    exact rustIdent_notMem_keywords own hkeyword
  rcases item with decl | ⟨target, ⟨own, modifier⟩⟩ | ⟨own, body⟩ | ⟨own, body⟩ | ⟨own, body⟩ | decl
  case const =>
    obtain rfl := List.mem_singleton.mp hmem
    cases hname
  case program => cases hmem
  case struct | enum | union =>
    obtain rfl := hinner _ _ hmem
    exact ⟨rfl, rfl⟩
  case typedef =>
    rcases modifier with _ | modifier
    · rcases target with _ | _ | _ | _ | _ | _ | _ | _ | _ | _ | _ | _ | body | body | body | _ | _
      case enum | struct | union =>
        obtain rfl := hinner _ _ hmem
        exact ⟨rfl, rfl⟩
      all_goals exact (halias (List.mem_singleton.mp hmem)).elim
    · rcases target with _ | _ | _ | _ | _ | _ | _ | _ | _ | _ | _ | _ | body | body | body | _ | _
      case enum | struct | union =>
        rcases List.mem_append.mp hmem with hmem | hmem
        · have hhelper := hinner _ _ hmem
          exact absurd (hhelper ▸ hkeyword) (hintFor_notMem_keywords _ _)
        · exact (halias (List.mem_singleton.mp hmem)).elim
      all_goals exact (halias (List.mem_singleton.mp hmem)).elim

/-- A projection has the name of the metadata or of the segmented form it is. -/
theorem Schema.FreshProjections.item_of_mem (h : schema.FreshProjections) {item : Item}
    (hmem : item ∈ schema.projections) {name : String} (hname : item.typeName = some name) :
    (fromSchema schema).item name = none := by
  have hproject {own source : String} {last arm : Declaration → Declaration} {original : Item}
      (hsource : projectableName original = some source)
      (hname : (project own last arm original).typeName = some name) : own = name := by
    rcases original with _ | _ | _ | _ | _ | _
    case typedef | struct | union => exact Option.some.inj hname
    all_goals cases hsource
  unfold Schema.projections at hmem
  rcases List.mem_append.mp hmem with hmem | hmem
  all_goals
    obtain ⟨⟨own, projected⟩, hentry, rfl⟩ := List.mem_map.mp hmem
    obtain ⟨source, -, hsource⟩ := List.mem_filterMap.mp hentry
    simp only [metadataItem, segmentsItem, Option.bind_eq_bind, Option.bind_eq_some_iff] at hsource
    obtain ⟨sourceName, hsourceName, other, -, hprojected⟩ := hsource
    cases hprojected
    dsimp only at hname
    obtain rfl := hproject hsourceName hname
  · exact h.1 _ hentry
  · exact h.2 _ hentry

/-- The name an item declares a constant or a type under. -/
def Item.declaredName : Item → Option String
  | .const decl => some decl.name
  | item => item.typeName

/-- An item that declares a type declares its name. -/
theorem Item.declaredName_of_typeName {item : Item} {name : String}
    (h : item.typeName = some name) :
    item.declaredName = some name := by
  rcases item with _ | _ | _ | _ | _ | _
  case const => cases h
  all_goals exact h

/-- What was written was asked for. -/
theorem Schema.Written.exists_request (h : schema.Written items) {name : String} {item : RustItem}
    (hfind : findType items name = some item) :
    (∃ request ∈ schema.items.flatMap Item.requests, request.typeName = some name) ∨
      ∃ request ∈ schema.projections.flatMap Item.requests, request.typeName = some name := by
  have hname : item.typeName = some name := by simpa using List.find?_some hfind
  obtain ⟨written, projected, rfl, hwritten, hprojected⟩ := h.origin
  rcases List.mem_append.mp (findType_mem hfind) with hmem | hmem
  · obtain ⟨request, hrequest, hitem⟩ := exists_of_mem_left hwritten.flip hmem
    exact .inl ⟨request, hrequest, (ItemRequest.typeName_of_item hitem).symm.trans hname⟩
  · obtain ⟨request, hrequest, hitem⟩ := exists_of_mem_left hprojected.flip hmem
    exact .inr ⟨request, hrequest, (ItemRequest.typeName_of_item hitem).symm.trans hname⟩

/-- A type definition whose name is a keyword is written under another name, and nothing is found
under its own. -/
theorem Schema.Written.findType_eq_none (h : schema.Written items)
    (hfresh : schema.FreshProjections)
    (hdeclared : (schema.items.filterMap Item.declaredName).Nodup) {name : String} {item : Item}
    (hitem : (fromSchema schema).item name = some item) (hrust : item.rustName ≠ some name)
    (hkeyword : name ∈ rustKeywords) : findType items name = none := by
  rcases hfind : findType items name with _ | found
  · rfl
  exfalso
  have hdeclares := Schema.declares_of_item hitem
  rcases h.exists_request hfind with ⟨request, hrequest, hname⟩ | ⟨request, hrequest, hname⟩
  · obtain ⟨other, hother, hmem⟩ := List.mem_flatMap.mp hrequest
    obtain ⟨htype, hown⟩ := Item.typeName_of_keyword hmem hname hkeyword
    obtain rfl := eq_of_filterMap_nodup hdeclared hother hdeclares.1
      (Item.declaredName_of_typeName htype) (Item.declaredName_of_typeName hdeclares.2)
    exact hrust hown
  · obtain ⟨other, hother, hmem⟩ := List.mem_flatMap.mp hrequest
    obtain ⟨htype, -⟩ := Item.typeName_of_keyword hmem hname hkeyword
    rw [hfresh.item_of_mem hother htype] at hitem
    cases hitem

/-! ## Lengths -/

/-- Only a constant asks for a constant. -/
theorem Item.eq_const_of_mem_requests {item : Item} {name : String} {value : ValueExpr}
    (h : .const name value ∈ item.requests) :
    ∃ decl, item = .const decl ∧ rustIdent decl.name = name ∧ decl.value = value := by
  have hinner (target : TypeSpec) (hint : String) : .const name value ∉ target.requests hint := by
    intro hmem
    obtain ⟨_, _, hinline⟩ := target.exists_inline_of_mem hint _ hmem
    cases hinline
  rcases item with decl | decl | ⟨own, body⟩ | ⟨own, body⟩ | ⟨own, body⟩ | decl
  case const =>
    cases List.mem_singleton.mp h
    exact ⟨decl, rfl, rfl, rfl⟩
  case typedef =>
    have hsome := decl.typeName_isSome_of_mem _ h
    cases hsome
  case struct => exact absurd h (hinner (.struct body) own)
  case enum => exact absurd h (hinner (.enum body) own)
  case union => exact absurd h (hinner (.union body) own)
  case program => cases h

/-- A constant that is found is a constant of the schema. -/
theorem Schema.Written.exists_const (h : schema.Written items) {name : String} {value : ValueExpr}
    (hfind : OncRpc.findConst items name = some value) :
    ∃ decl, .const decl ∈ schema.items ∧ rustIdent decl.name = name ∧ decl.value = value := by
  have hmem : .const name value ∈ items := by
    obtain ⟨item, hmem, hitem⟩ := List.exists_of_findSome?_eq_some hfind
    rcases item with ⟨other, v⟩ | _ | _ | _ | _
    · dsimp only at hitem
      split at hitem
      · next heq =>
        cases hitem
        exact heq ▸ hmem
      · cases hitem
    all_goals cases hitem
  have hconst {context : EmitContext} {requests : List ItemRequest} {written : List RustItem}
      (hwritten : List.Forall₂ (fun request item => request.item context = .ok item)
        requests written)
      (hmem : .const name value ∈ written) : .const name value ∈ requests := by
    obtain ⟨request, hrequest, hitem⟩ := exists_of_mem_left hwritten.flip hmem
    have hname := ItemRequest.typeName_of_item hitem
    rcases request with ⟨other, v⟩ | _ | _
    · cases hitem
      exact hrequest
    all_goals cases hname
  obtain ⟨written, projected, rfl, hwritten, hprojected⟩ := h.origin
  rcases List.mem_append.mp hmem with hmem | hmem
  · obtain ⟨item, hitem, hrequest⟩ := List.mem_flatMap.mp (hconst hwritten hmem)
    obtain ⟨decl, rfl, hname, hvalue⟩ := Item.eq_const_of_mem_requests hrequest
    exact ⟨decl, hitem, hname, hvalue⟩
  · obtain ⟨item, hitem, hrequest⟩ := List.mem_flatMap.mp (hconst hprojected hmem)
    obtain ⟨decl, rfl, -, -⟩ := Item.eq_const_of_mem_requests hrequest
    have hsome := Schema.typeName_isSome_of_mem_projections hitem
    cases hsome

/-- A constant that the layouts know is a constant of the schema. -/
theorem Schema.exists_const_of_constant {name : String} {value : ValueExpr}
    (h : (fromSchema schema).constant name = some value) : .const ⟨name, value⟩ ∈ schema.items := by
  obtain ⟨before, after, hentries, -⟩ := List.lookup_eq_some_iff.mp h
  have hmem : (name, value) ∈ schema.constants := by
    have hreverse : (name, value) ∈ (fromSchema schema).constants.reverse := by
      rw [hentries]
      simp
    exact List.mem_reverse.mp hreverse
  obtain ⟨item, hitem, hentry⟩ := List.mem_filterMap.mp hmem
  rcases item with decl | _ | _ | _ | _ | _
  · cases hentry
    exact hitem
  all_goals cases hentry

/-- No constant has a name that is the raw form of a keyword. -/
def Schema.PlainConstants (schema : Schema) : Prop :=
  ∀ decl, .const decl ∈ schema.items → ∀ word ∈ rustKeywords, decl.name ≠ "r#" ++ word

/-- A length that the generator counts is the length in generated code. -/
theorem Schema.Written.lengthsCounted (h : schema.Written items) (hplain : schema.PlainConstants)
    (hdeclared : (schema.items.filterMap Item.declaredName).Nodup) :
    LengthsCounted (fromSchema schema) items := by
  have hconst {name : String} {value value' : ValueExpr}
      (hlayout : (fromSchema schema).constant name = some value)
      (hfind : OncRpc.findConst items name = some value') : value = value' := by
    have hmem := Schema.exists_const_of_constant hlayout
    obtain ⟨decl, hdecl, hname, rfl⟩ := h.exists_const hfind
    have hraw := hplain _ hmem
    have heq : decl.name = name := by
      unfold rustIdent at hname
      split at hname
      · next hkeyword => exact absurd hname.symm (hraw decl.name hkeyword)
      · exact hname
    have hsame := eq_of_filterMap_nodup hdeclared hmem hdecl rfl (congrArg some heq)
    cases hsame
    rfl
  have hnumber {number : Int} {fuel k count : ℕ} {seen : List String} {x : Int}
      (hcount : (fromSchema schema).valueFrom fuel seen (.number number) = some count)
      (hx : ValueExpr.resolve (OncRpc.findConst items) k (.number number) = some x) :
      x = (count : Int) := by
    have hx' : some number = some x := by rcases k with _ | k <;> exact hx
    have hcount' : (if 0 ≤ number then some number.toNat else none) = some count := by
      rcases fuel with _ | fuel <;> exact hcount
    split at hcount'
    · next hpos =>
      rw [← Option.some.inj hcount', ← Option.some.inj hx', Int.toNat_of_nonneg hpos]
    · cases hcount'
  -- through as many names as the generator looks
  have hvalue (fuel : ℕ) : ∀ seen expr count k x,
      (fromSchema schema).valueFrom fuel seen expr = some count →
      expr.resolve (OncRpc.findConst items) k = some x → x = (count : Int) := by
    induction fuel with
    | zero =>
      intro seen expr count k x hcount hx
      rcases expr with number | name
      · exact hnumber hcount hx
      · cases hcount
    | succ fuel ih =>
      intro seen expr count k x hcount hx
      rcases expr with number | name
      · exact hnumber hcount hx
      · rcases k with _ | k
        · cases hx
        rw [valueFrom] at hcount
        split at hcount
        · cases hcount
        · obtain ⟨value, hconstant, hcount⟩ := Option.bind_eq_some_iff.mp hcount
          obtain ⟨value', hfind, hx⟩ := Option.bind_eq_some_iff.mp hx
          obtain rfl := hconst hconstant hfind
          exact ih _ _ _ _ _ hcount hx
  intro bound count len hcount hlen
  obtain ⟨x, hx, rfl⟩ := Option.map_eq_some_iff.mp hlen
  obtain rfl := hvalue _ _ _ _ _ _ hcount hx
  unfold asUsize
  omega

/-! ## Names of a source file -/

/-- The constants of a source file have plain names. -/
theorem Schema.plainConstants {source : String} (h : parseXSource source = some (.ok schema)) :
    schema.PlainConstants := by
  intro decl hdecl word _
  have hname : IsIdentifier decl.name :=
    (Schema.isNamed h).items _ hdecl _ (List.mem_singleton_self _)
  exact hname.1.ne_raw word

/-! ## Named types -/

/-- The projections hide no enumeration. -/
theorem Schema.exists_enum_of_projectionContext
    (hdeclared : (schema.items.filterMap Item.declaredName).Nodup) {name own : String}
    {body : EnumBody}
    (h : (fromSchema schema).projectionContext.namedType name = some (.enum own body)) :
    (fromSchema schema).item name = some (.enum own body) := by
  rw [EmitContext.namedType, projectionContext, List.reverse_append, List.lookup_append] at h
  rcases Option.or_eq_some_iff.mp h with hlookup | ⟨-, hlookup⟩
  · exfalso
    obtain ⟨before, after, hentries, -⟩ := List.lookup_eq_some_iff.mp hlookup
    have hin : (name, Item.enum own body) ∈ before ++ (name, .enum own body) :: after := by simp
    rw [← hentries] at hin
    obtain ⟨⟨source, original⟩, hsource, hentry⟩ := List.mem_flatMap.mp (List.mem_reverse.mp hin)
    obtain ⟨item, hitem, hname⟩ := List.mem_filterMap.mp hsource
    obtain ⟨own', hown', heq⟩ := Option.map_eq_some_iff.mp hname
    cases heq
    -- the item behind the projection is a type definition, a structure or a union
    have hprojectable {projectable : Item}
        (hfound : (fromSchema schema).item source = some projectable)
        (hproject : projectable.typeName = some source →
          projectableName projectable = some source) :
        projectableName original = some source := by
      have hdeclares := Schema.declares_of_item hfound
      obtain rfl := eq_of_filterMap_nodup hdeclared hitem hdeclares.1
        (Item.declaredName_of_typeName hown') (Item.declaredName_of_typeName hdeclares.2)
      exact hproject hown'
    rcases List.mem_append.mp hentry with hmetadata | hsegments
    · obtain ⟨metadata, hin, heq⟩ := List.mem_map.mp hmetadata
      cases heq
      obtain ⟨projectable, hfound, hproject⟩ :=
        exists_projectable_of_metadataName (Option.mem_toList.mp hin)
      cases hprojectable hfound hproject
    · split at hsegments
      · cases hsegments
      · obtain ⟨segments, hin, heq⟩ := List.mem_map.mp hsegments
        cases heq
        obtain ⟨projectable, hfound, hproject⟩ :=
          exists_projectable_of_segmentsName (Option.mem_toList.mp hin)
        cases hprojectable hfound hproject
  · exact hlookup

/-- Metadata of an item of a schema are among its projections. -/
theorem Schema.metadata_mem_projections {item : Item} {name metadata : String}
    (hmem : item ∈ schema.items) (hitem : projectableName item = some name)
    (hname : (fromSchema schema).metadataName name = some metadata) :
    project metadata (fromSchema schema).transform (fun d =>
      if (fromSchema schema).hasBody d then (fromSchema schema).transform d else d) item ∈
        schema.projections := by
  refine List.mem_append_left _ (List.mem_map.mpr ⟨(metadata, _), ?_, rfl⟩)
  exact List.mem_filterMap.mpr ⟨item, hmem, metadataItem_of_name hitem hname⟩

/-- A schema all of whose types are written under their own names, and whose discriminants are
counted. -/
structure Schema.Counted (schema : Schema) (items : List RustItem) : Prop where
  written : schema.Written items
  fresh : schema.FreshProjections
  declared : (schema.items.filterMap Item.declaredName).Nodup
  own : Sized (fromSchema schema) items schema.context (schema.items.flatMap Item.requests)
  projected : Sized (fromSchema schema) items (fromSchema schema).projectionContext
    (schema.projections.flatMap Item.requests)

namespace Schema.Counted

variable (h : schema.Counted items) {named : String → Option Shape} {name : String} {item : Item}
  {shape : Shape}

include h

/-- A declared type without a body. -/
theorem item_free (hnamed : NamesBounded (fromSchema schema) items named)
    (hitem : (fromSchema schema).item name = some item)
    (hshape : (fromSchema schema).itemShape named item = some shape) (hfree : shape.body = false) :
    Bounded items (.named name) shape.prefixBytes := by
  have hdeclares := Schema.declares_of_item hitem
  have hsub : item.requests ⊆ schema.items.flatMap Item.requests :=
    fun request hrequest => List.mem_flatMap.mpr ⟨item, hdeclares.1, hrequest⟩
  rcases item with _ | decl | ⟨own, body⟩ | ⟨own, body⟩ | ⟨own, body⟩ | _
  case const | program => cases hshape
  case struct =>
    obtain rfl := Option.some.inj hdeclares.2
    refine h.own.base hnamed (.struct body) own shape hsub ?_ hfree
    rw [base, bodyFree]
    exact Option.filter_eq_some_iff.mpr ⟨hshape, by simp [hfree]⟩
  case enum =>
    obtain rfl := Option.some.inj hdeclares.2
    cases hshape
    exact Bounded.enum (h.own.provided.mono hsub).enum
  case union =>
    obtain rfl := Option.some.inj hdeclares.2
    refine h.own.base hnamed (.union body) own shape hsub ?_ hfree
    rw [base, bodyFree]
    exact Option.filter_eq_some_iff.mpr ⟨hshape, by simp [hfree]⟩
  case typedef =>
    obtain ⟨hint, rust, hrust, htarget, hasked⟩ := decl.requested
    have htarget : decl.target.requests hint ⊆ schema.items.flatMap Item.requests :=
      List.Subset.trans htarget hsub
    have hbounded {type : RustType}
        (htype : rustTypeForDeclaration decl.target decl.declarator.modifier hint = .ok type) :
        Bounded items type shape.prefixBytes :=
      h.own.declaration hnamed htarget hshape hfree htype
    obtain rfl : decl.declarator.name = name := Option.some.inj hdeclares.2
    rcases hasked with ⟨hinline, hmodifier, rfl, rfl⟩ | ⟨rfl, inner, hin, htype⟩
    · refine hbounded ?_
      rw [hmodifier]
      exact rustTypeForDeclaration_inline hinline _
    · obtain ⟨type, hinner, hfind⟩ := h.own.provided.typeAlias (hsub hin)
      by_cases hkeyword : decl.declarator.name ∈ rustKeywords
      · refine Bounded.of_findType_eq_none ?_ _
        refine h.written.findType_eq_none h.fresh h.declared hitem (fun hsame => ?_) hkeyword
        rw [hsame] at hrust
        exact rustIdent_notMem_keywords _ (Option.some.inj hrust ▸ hkeyword)
      · rw [rustIdent, if_neg hkeyword] at hfind
        exact Bounded.of_findType hfind (hbounded (htype ▸ hinner))

/-- The metadata of a declared type with a body. -/
theorem item_metadata (hnamed : NamesBounded (fromSchema schema) items named)
    (hmetadata : MetadataBounded (fromSchema schema) items named)
    (hknown : ∀ other inner, named other = some inner →
    (fromSchema schema).named other = some inner)
      (hitem : (fromSchema schema).item name = some item)
    (hshape : (fromSchema schema).itemShape named item = some shape) (hbody : shape.body = true)
    (hself : (fromSchema schema).named name = some shape) :
    Bounded items (.named (name ++ "Metadata")) shape.prefixBytes := by
  have hdeclares := Schema.declares_of_item hitem
  have hname := metadataName_of_body hself hbody
  have hprojectable : projectableName item = some name := by
    obtain ⟨other, hother, hproject⟩ := exists_projectable_of_metadataName hname
    obtain rfl := Option.some.inj (hitem.symm.trans hother)
    exact hproject hdeclares.2
  have hsub : (project (name ++ "Metadata") (fromSchema schema).transform (fun d =>
      if (fromSchema schema).hasBody d then (fromSchema schema).transform d else d) item).requests ⊆
        schema.projections.flatMap Item.requests := by
    have hmem := Schema.metadata_mem_projections hdeclares.1 hprojectable hname
    exact fun request hrequest => List.mem_flatMap.mpr ⟨_, hmem, hrequest⟩
  rcases item with _ | decl | ⟨own, body⟩ | ⟨own, body⟩ | ⟨own, body⟩ | _
  case const | enum | program => cases hprojectable
  case typedef =>
    obtain ⟨hint, rust, -, -, hasked⟩ := TypedefDecl.requested
      ⟨((fromSchema schema).transform ⟨decl.target, decl.declarator⟩).typeSpec,
        ⟨name ++ "Metadata",
          ((fromSchema schema).transform ⟨decl.target, decl.declarator⟩).declarator.modifier⟩⟩
    rcases hasked with ⟨hinline, hmodifier, rfl, rfl⟩ | ⟨rfl, inner, hin, htype⟩
    · dsimp only at hmodifier
      have htype := rustTypeForDeclaration_inline hinline (name ++ "Metadata")
      rw [← hmodifier] at htype
      exact Bounded.transform hmetadata hshape hbody htype
    · obtain ⟨type, hinner, hfind⟩ := h.projected.provided.typeAlias (hsub hin)
      rw [rustIdent, if_neg (metadata_notMem_keywords name)] at hfind
      exact Bounded.of_findType hfind (Bounded.transform hmetadata hshape hbody (htype ▸ hinner))
  case struct =>
    rw [itemShape, structure_eq] at hshape
    obtain ⟨shapes, hall, hsum, hany, hfree⟩ := fieldsFrom_eq_some hshape
    rw [hsum, Nat.zero_add]
    refine h.projected.struct hsub (forall₂_changeLast hall ?_ ?_)
    · intro d hd field hfield hdeclaration type htype
      have hrequests := List.Subset.trans (Sized.requests_field_subset (mem_changeLast hd)) hsub
      exact h.projected.declaration hnamed hrequests hdeclaration (hfree field hfield) htype
    · intro d field hd hfield hdeclaration type htype
      have hany : shapes.any Shape.body = true := by
        rw [← hbody, hany]
        rfl
      exact Bounded.transform hmetadata hdeclaration (body_of_getLast? hany hfree hfield) htype
  case union =>
    rw [itemShape] at hshape
    obtain ⟨discriminant, arm, hd, hdfree, harm, hsize, -⟩ := union_eq_some_iff.mp hshape
    obtain ⟨hsize, -⟩ := checkedAdd_eq_some.mp hsize
    rw [hsize]
    obtain ⟨-, -, hall⟩ := armsFrom_eq_some harm
    refine h.projected.union hnamed hsub hd (fun type htype => ?_) fun arm' harm' type htype => ?_
    · have hrequests := List.Subset.trans Sized.requests_discriminant_subset hsub
      exact h.projected.declaration hnamed hrequests hd hdfree htype
    · have hrequests := List.Subset.trans (Sized.requests_arm_subset harm') hsub
      obtain ⟨source, hsource, rfl⟩ := List.mem_map.mp harm'
      obtain ⟨other, hother, hle, -⟩ := hall source hsource
      refine Bounded.mono ?_ hle
      have hhas : (fromSchema schema).hasBody source.declaration = other.body := by
        rw [hasBody, declaration_mono hknown hother]
      dsimp only at htype hrequests
      rw [hhas] at htype hrequests
      rcases hotherBody : other.body with _ | _
      · rw [hotherBody, if_neg Bool.false_ne_true] at htype hrequests
        exact h.projected.declaration hnamed hrequests hother hotherBody htype
      · rw [hotherBody, if_pos rfl] at htype
        exact Bounded.transform hmetadata hother hotherBody htype

/-- A named type, or its metadata, is bounded by its shape. -/
theorem namedFrom (fuel : ℕ) (hfuel : fuel ≤ (fromSchema schema).items.length + 1) :
    ∀ seen name shape, (fromSchema schema).namedFrom fuel seen name = some shape →
      (shape.body = false → Bounded items (.named name) shape.prefixBytes) ∧
      (shape.body = true → Bounded items (.named (name ++ "Metadata")) shape.prefixBytes) := by
  induction fuel with
  | zero =>
    intro seen name shape hshape
    cases hshape
  | succ fuel ih =>
    intro seen name shape hshape
    have ih := ih (Nat.le_of_succ_le hfuel)
    have hself : (fromSchema schema).named name = some shape :=
      namedFrom_mono hfuel (List.nil_subset _) hshape
    rw [OwnedLayouts.namedFrom] at hshape
    split at hshape
    · cases hshape
    obtain ⟨item, hitem, hshape⟩ := Option.bind_eq_some_iff.mp hshape
    have hknown (other : String) (inner : Shape)
        (hinner : (fromSchema schema).namedFrom fuel (name :: seen) other = some inner) :
        (fromSchema schema).named other = some inner :=
      namedFrom_mono (Nat.le_of_succ_le hfuel) (List.nil_subset _) hinner
    have hnamed : NamesBounded (fromSchema schema) items
        ((fromSchema schema).namedFrom fuel (name :: seen)) := by
      refine ⟨fun other inner hinner => (ih _ other inner hinner).1, ?_⟩
      intro other inner own body hinner hother
      have hinner := hknown other inner hinner
      rw [named, OwnedLayouts.namedFrom, if_neg List.not_mem_nil, hother] at hinner
      cases hinner
      rfl
    refine ⟨fun hfree => h.item_free hnamed hitem hshape hfree, fun hbody => ?_⟩
    refine h.item_metadata hnamed (fun other inner hinner hinnerBody => ?_)
      hknown hitem hshape hbody
      hself
    exact ⟨hknown other inner hinner, (ih _ other inner hinner).2 hinnerBody⟩

/-- The metadata of a named type are bounded by its shape. -/
theorem metadata_bounded (hshape : (fromSchema schema).named name = some shape)
    (hbody : shape.body = true) : Bounded items (.named (name ++ "Metadata")) shape.prefixBytes :=
  (h.namedFrom _ le_rfl [] name shape hshape).2 hbody

end Schema.Counted

/-! ## The result -/

/-- What is generated for a schema whose types have distinct names. -/
theorem Schema.counted_of_emitRustTypes {generated : Generated} (hplain : schema.PlainConstants)
    (hdeclared : (schema.items.filterMap Item.declaredName).Nodup) (harrays : schema.OpaqueArrays)
    (hemit : emitRustTypes schema = .ok generated)
    (hnames : schema.DistinctNames)
    (hswitch : ∀ request ∈ schema.requests, request.switchesOnNothing (fromSchema schema) = false) :
    schema.Counted generated.items := by
  obtain ⟨hwritten, hfresh, -, -⟩ := Schema.written_of_emitRustTypes hemit hnames
  have hbyte : NoByteAlias generated.items :=
    fun _ htype => hwritten.isByte_eq_false harrays htype
  have hlengths := hwritten.lengthsCounted hplain hdeclared
  refine ⟨hwritten, hfresh, hdeclared, ⟨hwritten.own, hbyte, hlengths, ?_, ?_⟩,
    ⟨hwritten.projected, hbyte, hlengths, ?_, ?_⟩⟩
  · exact fun name own body henum => ⟨own, body, henum⟩
  · exact fun request hmem => hswitch request (List.mem_append_left _ hmem)
  · exact fun name own body henum =>
      ⟨own, body, Schema.exists_enum_of_projectionContext hdeclared henum⟩
  · exact fun request hmem => hswitch request (List.mem_append_right _ hmem)

/-- The implementation written for metadata has the bound of the shape of the type. -/
theorem exists_shape_of_metadataImpl {layouts : OwnedLayouts} {item : Item} {impl : MetadataImpl}
    (h : layouts.metadataImpl item = some impl) : ∃ name shape,
      layouts.named name = some shape ∧ shape.body = true ∧ impl.name = name ++ "Metadata" ∧
      impl.maxPrefixBytes = shape.prefixBytes := by
  simp only [metadataImpl, Option.bind_eq_bind, Option.bind_eq_some_iff] at h
  obtain ⟨name, -, metadata, hmetadata, shape, hshape, h⟩ := h
  obtain ⟨inner, hinner, rfl⟩ := Option.map_eq_some_iff.mp hmetadata
  obtain ⟨hnamed, hbody⟩ := Option.filter_eq_some_iff.mp hinner
  obtain rfl := Option.some.inj (hshape.symm.trans hnamed)
  refine ⟨name, shape, hshape, hbody, ?_⟩
  split at h
  · obtain ⟨last, -, heq⟩ := Option.bind_eq_some_iff.mp h
    cases heq
    exact ⟨rfl, rfl⟩
  · cases h
    exact ⟨rfl, rfl⟩
  · cases h

/-- If the names of all types that are written are distinct and none is a name of the runtime, and
no union switches on an array of none, the code is read as it stands, the metadata of a type take no
more bytes than the bound written for them, and a typed receiver takes every valid reply. -/
theorem prefix_bound (source : String) (schema : Schema)
    (hparse : parseXSource source = some (.ok schema))
    (hdeclared : (schema.items.filterMap Item.declaredName).Nodup) (harrays : schema.OpaqueArrays)
    (generated : Generated) (hemit : emitRustTypes schema = .ok generated)
    (hnames : schema.DistinctNames) (hruntime : schema.NoRuntimeNames)
    (hswitch : ∀ request ∈ schema.requests, request.switchesOnNothing (fromSchema schema) = false)
    (impl : MetadataImpl) (himpl : impl ∈ generated.metadata) (fuel : ℕ) :
    readItems generated.items = some generated.items ∧
    (∀ input value rest,
      decodeXdr generated.items fuel (.named impl.name) input = some (.ok value, rest) →
        ∃ c, input = c ++ rest ∧ c.length ≤ impl.maxPrefixBytes) ∧
    letI := replyMetadata generated fuel impl
    ∀ (dest : Bytes) (reply : RpcMessage) (chunks : List Bytes) (m : Value) (p body : Bytes),
      reply.isSuccess = true →
      (Stage.begin (XdrReplyReceiver.new (M := Value) dest) reply).Chunked chunks →
      chunks.flatten.length < usizeMax → XdrReplyMetadata.Splits dest chunks.flatten m p body →
      ∃ outcome : TypedReceiveOutcome Value,
        typedReceive dest reply chunks = some outcome ∧ outcome.result = .ok m := by
  have hcounted := Schema.counted_of_emitRustTypes (Schema.plainConstants hparse) hdeclared harrays
    hemit hnames hswitch
  have hwithin : Within (decodeXdr generated.items fuel (.named impl.name)) impl.maxPrefixBytes :=
    by
    obtain ⟨-, -, hmetadata, -⟩ := Schema.written_of_emitRustTypes hemit hnames
    rw [hmetadata] at himpl
    obtain ⟨item, -, hitem⟩ := List.mem_filterMap.mp himpl
    obtain ⟨name, shape, hshape, hbody, hname, hmax⟩ := exists_shape_of_metadataImpl hitem
    rw [hname, hmax]
    exact hcounted.metadata_bounded hshape hbody fuel
  refine ⟨readItems_eq_self (hcounted.written.hidesNothing hruntime), hwithin, ?_⟩
  let _ := replyMetadata generated fuel impl
  intro dest reply chunks m p body hreply hchunked hlen hsplits
  obtain ⟨⟨outcome, houtcome, hok, -⟩, -, -⟩ :=
    direct_receive (replyMetadata_exact hwithin) dest reply hreply chunks hchunked hlen
  exact ⟨outcome, houtcome, (hok m).mpr ⟨p, body, hsplits⟩⟩

/-- The source of the schema of a read. -/
def readSource : String :=
  "const MAX = 8; enum kind \x7b OK = 0, AGAIN = 1 \x7d; " ++
    "struct node \x7b int id; opaque data<MAX>; \x7d; " ++
    "union result switch (kind status) \x7b case OK: node node; default: void; \x7d;"

/-- The implementation of the metadata of the result of a read. -/
def readImpl : MetadataImpl where
  name := "resultMetadata"
  maxPrefixBytes := 12
  opaqueLen := .variants [("Ok", some .opaqueLen), ("Default", none)]

/-- The metadata of the result of a read, behind a status and an identifier. -/
theorem exists_readMetadata : ∃ m,
    decodeXdr readSchema.code.items 3 (.named "resultMetadata")
      [0, 0, 0, 0, 0, 0, 0, 7, 0, 0, 0, 3] = some (.ok m, []) ∧
    opaqueLen readSchema.code 3 (.named "resultMetadata") m = some (some 3) := by
  have hlen : ((decodeXdr readSchema.code.items 3 (.named "resultMetadata")
      [0, 0, 0, 0, 0, 0, 0, 7, 0, 0, 0, 3]).bind fun result =>
        if result.2 = [] then
          result.1.toOption.bind (opaqueLen readSchema.code 3 (.named "resultMetadata"))
        else none) = some (some 3) := by
    decide +kernel
  obtain ⟨⟨result, rest⟩, hdecode, hlen⟩ := Option.bind_eq_some_iff.mp hlen
  have hrest : rest = [] := by
    by_contra hrest
    rw [if_neg hrest] at hlen
    cases hlen
  subst hrest
  rw [if_pos rfl] at hlen
  obtain ⟨m, hm, hthree⟩ := Option.bind_eq_some_iff.mp hlen
  rcases result with error | value
  · cases hm
  · cases hm
    exact ⟨m, hdecode, hthree⟩

/-- The reply to a read is received in pieces: a status, an identifier, and three bytes of data. -/
theorem prefix_bound_readSchema : ∃ m,
    decodeXdr readSchema.code.items 3 (.named "resultMetadata")
      [0, 0, 0, 0, 0, 0, 0, 7, 0, 0, 0, 3] = some (.ok m, []) ∧
    (∃ c : Bytes, [0, 0, 0, 0, 0, 0, 0, 7, 0, 0, 0, 3] = c ++ [] ∧ c.length ≤ 12) ∧
    letI := replyMetadata readSchema.code 3 readImpl
    ∃ outcome : TypedReceiveOutcome Value,
      typedReceive [9, 9, 9, 9] ⟨⟨1⟩, .reply (.accepted ⟨OpaqueAuth.none, .success []⟩)⟩
        [[0, 0, 0, 0], [0, 0, 0, 7], [0, 0, 0, 3], [1, 2, 3], [0]] = some outcome ∧
      outcome.result = .ok m := by
  obtain ⟨m, hdecode, hlen⟩ := exists_readMetadata
  obtain ⟨hnames, hruntime, hemit, -⟩ := readSchema_checked
  have hparse : parseXSource readSource = some (.ok readSchema) :=
    parseXSource_of_chars
      (toList_append_of_eq (toList_append_of_eq (toList_of_eq rfl) (toList_of_eq rfl))
        (toList_of_eq rfl)) (by decide +kernel) rfl
  have hbound := prefix_bound readSource readSchema hparse (by decide +kernel)
    readSchema_wellFormed.opaqueArrays readSchema.code (Schema.emitRustTypes_code hemit) hnames
    hruntime (by decide +kernel) readImpl (by decide +kernel) 3
  refine ⟨m, hdecode, hbound.2.1 _ m [] hdecode, ?_⟩
  let _ := replyMetadata readSchema.code 3 readImpl
  refine hbound.2.2 [9, 9, 9, 9] ⟨⟨1⟩, .reply (.accepted ⟨OpaqueAuth.none, .success []⟩)⟩ _ m
    [0, 0, 0, 0, 0, 0, 0, 7, 0, 0, 0, 3] [1, 2, 3] rfl ?_ (by decide) ?_
  · refine ⟨by decide, ?_, by decide, ?_, by decide, ?_, by decide, ?_, by decide, ?_, trivial⟩
    all_goals exact Stage.fits_of_all (by decide +kernel)
  · refine ⟨by decide, replyMetadata_decodeXdr_eq_ok.mpr hdecode, ?_, by decide⟩
    change 3 = ((opaqueLen readSchema.code 3 (.named "resultMetadata") m).getD none).getD 0
    rw [hlen]
    rfl

/-- Two structures with structures inside.  The first inner structure has the name that is made for
the second in the metadata of `A_b`. -/
def capturedSchema : Schema where
  items := [
    .struct "A" ⟨[⟨.struct ⟨[⟨.hyper, "x", none⟩, ⟨.hyper, "y", none⟩, ⟨.hyper, "z", none⟩]⟩,
      "bMetadata_f", none⟩]⟩,
    .struct "A_b" ⟨[⟨.struct ⟨[⟨.int, "a", none⟩]⟩, "f", none⟩,
      ⟨.opaqueData, "body", some (.variableArray none)⟩]⟩]

/-- Its source. -/
def capturedSource : String :=
  "struct A \x7b struct \x7b hyper x; hyper y; hyper z; \x7d bMetadata_f; \x7d; " ++
    "struct A_b \x7b struct \x7b int a; \x7d f; opaque body<>; \x7d;"

/-- The metadata of `A_b` are decoded with the inner structure of `A` and take 28 bytes; their bound
is 8. -/
theorem captured_metadata_exceed_bound :
    ¬ ∀ (source : String) (schema : Schema), parseXSource source = some (.ok schema) →
      (schema.items.filterMap Item.declaredName).Nodup → schema.OpaqueArrays →
      ∀ generated, emitRustTypes schema = .ok generated → ∀ code,
      readItems generated.items = some code → ∀ impl ∈ generated.metadata,
      ∀ fuel input value rest,
        decodeXdr code fuel (.named impl.name) input = some (.ok value, rest) →
        ∃ c, input = c ++ rest ∧ c.length ≤ impl.maxPrefixBytes := by
  intro hall
  have hparse : parseXSource capturedSource = some (.ok capturedSchema) :=
    parseXSource_of_chars (toList_append_of_eq (toList_of_eq rfl) (toList_of_eq rfl))
      (by decide +kernel) rfl
  have harrays : capturedSchema.OpaqueArrays := by
    intro decl hmem
    simp [capturedSchema] at hmem
  have himpl : ⟨"A_bMetadata", 8, .lastField .opaqueLen⟩ ∈ capturedSchema.code.metadata := by
    decide +kernel
  obtain ⟨value, hvalue⟩ : ∃ value, decodeXdr capturedSchema.code.items 3 (.named "A_bMetadata")
      (List.replicate 28 0) = some (.ok value, []) := by
    have hrest : ((decodeXdr capturedSchema.code.items 3 (.named "A_bMetadata")
        (List.replicate 28 0)).map fun result => (result.1.isOk, result.2)) = some (true, []) := by
      decide +kernel
    obtain ⟨⟨result, rest⟩, hdecode, hresult⟩ := Option.map_eq_some_iff.mp hrest
    rcases result with error | value
    · cases hresult
    · cases hresult
      exact ⟨value, hdecode⟩
  obtain ⟨c, hc, hlen⟩ := hall capturedSource capturedSchema hparse (by decide +kernel) harrays
    capturedSchema.code (Schema.emitRustTypes_code (by decide +kernel)) capturedSchema.code.items
    (by decide +kernel) _ himpl 3 _ value [] hvalue
  have hlength := congrArg List.length hc
  simp at hlength
  simp at hlen
  omega

end OncRpc
