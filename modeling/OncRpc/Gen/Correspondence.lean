import OncRpc.Gen.Output
import OncRpc.Gen.Rfc
import OncRpc.Gen.Typing

/-!
# Schemas and what is generated for them

Names mean the same in a schema and in the code generated for it: a constant has the same value, and
a type the item that was requested for it.
-/

namespace OncRpc

open Foundation OwnedLayouts

variable {schema : Schema} {items : List RustItem}

/-! ## Requests -/

/-- A structure asks for the items of its fields, then for its own. -/
theorem TypeSpec.requests_struct (hint : String) (body : StructBody) :
    (TypeSpec.struct body).requests hint =
      (body.declarations.flatMap fun d => d.typeSpec.requests (hintFor hint d.declarator.name)) ++
        [.inline hint (.struct body)] := by
  obtain ⟨declarations⟩ := body
  rw [TypeSpec.requests, StructBody.requests, fieldRequests_eq]

/-- A union asks for the items of its arms and its discriminant, then for its own. -/
theorem TypeSpec.requests_union (hint : String) (body : UnionBody) :
    (TypeSpec.union body).requests hint =
      ((body.arms.flatMap fun arm =>
        arm.declaration.typeSpec.requests (hintFor hint arm.declaration.declarator.name)) ++
        body.discriminant.typeSpec.requests (hintFor hint "discriminant")) ++
        [.inline hint (.union body)] := by
  obtain ⟨⟨target, declarator⟩, arms⟩ := body
  rw [TypeSpec.requests, UnionBody.requests, armRequests_eq, Declaration.requests]

/-- The requests for a type specifier are structures, enumerations and unions. -/
theorem TypeSpec.exists_inline_of_mem (target : TypeSpec) :
    ∀ hint, ∀ request ∈ target.requests hint,
    ∃ name inner, request = .inline name inner := by
  induction target using TypeSpec.inner_induction with
  | leaf target hstruct hunion =>
    intro hint request hmem
    rcases target with _ | _ | _ | _ | _ | _ | _ | _ | _ | _ | _ | _ | body | body | body | _ | _
    case enum => exact ⟨hint, .enum body, List.mem_singleton.mp hmem⟩
    case struct => exact absurd rfl (hstruct body)
    case union => exact absurd rfl (hunion body)
    all_goals cases hmem
  | struct body ih =>
    intro hint request hmem
    rw [TypeSpec.requests_struct] at hmem
    rcases List.mem_append.mp hmem with hinner | hself
    · obtain ⟨d, hd, hrequest⟩ := List.mem_flatMap.mp hinner
      exact ih d hd _ request hrequest
    · exact ⟨hint, .struct body, List.mem_singleton.mp hself⟩
  | union body hdiscriminant harms =>
    intro hint request hmem
    rw [TypeSpec.requests_union] at hmem
    rcases List.mem_append.mp hmem with hinner | hself
    · rcases List.mem_append.mp hinner with harm | hd
      · obtain ⟨arm, harm, hrequest⟩ := List.mem_flatMap.mp harm
        exact harms arm harm _ request hrequest
      · exact hdiscriminant _ request hd
    · exact ⟨hint, .union body, List.mem_singleton.mp hself⟩

/-- The requests for a type definition define types. -/
theorem TypedefDecl.typeName_isSome_of_mem (decl : TypedefDecl) :
    ∀ request ∈ decl.requests, request.typeName.isSome := by
  intro request hmem
  have hinner (target : TypeSpec) (hint : String) (hmem : request ∈ target.requests hint) :
      request.typeName.isSome := by
    obtain ⟨name, inner, rfl⟩ := target.exists_inline_of_mem hint request hmem
    rfl
  unfold TypedefDecl.requests at hmem
  dsimp only at hmem
  split at hmem
  case h_7 => rw [List.mem_singleton.mp hmem]; rfl
  case h_1 | h_2 | h_3 => exact hinner _ _ hmem
  all_goals
    rcases List.mem_append.mp hmem with hmem | hmem
    · exact hinner _ _ hmem
    · rw [List.mem_singleton.mp hmem]
      rfl

/-! ## Constants -/

/-- The value a request gives to a constant. -/
def ItemRequest.constValue (name : String) : ItemRequest → Option ValueExpr
  | .const other value => if other = name then some value else none
  | .typeAlias _ _ _ _ | .inline _ _ => none

/-- A request for a type declares no constant. -/
theorem ItemRequest.constValue_eq_none {request : ItemRequest} (h : request.typeName.isSome)
    (name : String) : request.constValue name = none := by
  rcases request with _ | _ | _
  · cases h
  · rfl
  · rfl

/-- A constant is found among the items as it is among the requests. -/
theorem findConst_written {context : EmitContext} {requests : List ItemRequest}
    {written : List RustItem} (name : String)
    (h : List.Forall₂ (fun request item => request.item context = .ok item) requests written) :
    findConst written name = requests.findSome? (ItemRequest.constValue name) := by
  induction h with
  | nil => rfl
  | @cons request item requests written hitem _ ih =>
    unfold findConst at ih ⊢
    rw [List.findSome?_cons, List.findSome?_cons, ih]
    rcases request with ⟨other, value⟩ | ⟨other, target, modifier, hint⟩ | ⟨other, target⟩
    · cases hitem
      rfl
    · obtain ⟨type, -, halias⟩ := except_bind_eq_ok.mp hitem
      cases halias
      rfl
    · have hname := ItemRequest.typeName_of_item hitem
      rcases item with _ | _ | _ | _ | _
      · cases hname
      all_goals rfl

/-- The constant an item declares. -/
theorem Item.findSome?_requests (item : Item) {name : String} (husable : Usable name) :
    item.requests.findSome? (ItemRequest.constValue name) =
      match item with
      | .const decl => if decl.name = name then some decl.value else none
      | _ => none := by
  have hnone (requests : List ItemRequest) (h : ∀ request ∈ requests, request.typeName.isSome) :
      requests.findSome? (ItemRequest.constValue name) = none :=
    List.findSome?_eq_none_iff.mpr fun request hmem => ItemRequest.constValue_eq_none
      (h request hmem) _
  have hinner (target : TypeSpec) (hint : String) :
      (target.requests hint).findSome? (ItemRequest.constValue name) = none :=
    hnone _ fun request hmem => by
      obtain ⟨other, inner, rfl⟩ := target.exists_inline_of_mem hint request hmem
      rfl
  rcases item with decl | decl | ⟨other, body⟩ | ⟨other, body⟩ | ⟨other, body⟩ | decl
  · have hiff : rustIdent decl.name = name ↔ decl.name = name := by
      unfold rustIdent
      split
      · next hkeyword =>
        refine ⟨fun h => absurd h.symm (husable.2 _ hkeyword), fun h => ?_⟩
        exact absurd (h ▸ hkeyword) husable.1
      · rfl
    simp only [Item.requests, List.findSome?_cons, ItemRequest.constValue, hiff, List.findSome?_nil]
    split <;> simp_all
  · exact hnone _ decl.typeName_isSome_of_mem
  · exact hinner (.struct body) other
  · exact hinner (.enum body) other
  · exact hinner (.union body) other
  · rfl

/-- A usable constant is found among the requests as among the declarations. -/
theorem findSome?_flatMap_requests (declared : List Item) {name : String}
    (husable : Usable name) :
    (declared.flatMap Item.requests).findSome? (ItemRequest.constValue name) =
      declared.findSome? fun item =>
        match item with
        | .const decl => if decl.name = name then some decl.value else none
        | _ => none := by
  induction declared with
  | nil => rfl
  | cons item declared ih =>
    rw [List.flatMap_cons, List.findSome?_append, ih, item.findSome?_requests husable,
      List.findSome?_cons]
    rcases item with decl | _ | _ | _ | _ | _
    · dsimp only
      split <;> rfl
    all_goals rfl

/-- A projection is a type definition, a structure or a union. -/
theorem Schema.typeName_isSome_of_mem_projections {item : Item} (h : item ∈ schema.projections) :
    item.typeName.isSome := by
  have hproject {name : String} {last arm : Declaration → Declaration} {source : Item}
      {own : String} (hsource : projectableName source = some own) :
      (project name last arm source).typeName.isSome := by
    rcases source with _ | _ | _ | _ | _ | _
    case typedef | struct | union => rfl
    all_goals cases hsource
  unfold Schema.projections at h
  rcases List.mem_append.mp h with h | h
  all_goals
    obtain ⟨⟨name, projected⟩, hmem, rfl⟩ := List.mem_map.mp h
    obtain ⟨source, -, hsource⟩ := List.mem_filterMap.mp hmem
    simp only [metadataItem, segmentsItem, Option.bind_eq_bind, Option.bind_eq_some_iff] at hsource
    obtain ⟨own, hown, other, -, hprojected⟩ := hsource
    cases hprojected
    dsimp only
    exact hproject hown

/-- A constant of a schema is the constant of the code generated for it. -/
theorem Schema.Written.findConst_eq (h : schema.Written items) {name : String}
    (husable : Usable name) : OncRpc.findConst items name = schema.findConst name := by
  obtain ⟨written, projected, rfl, hwritten, hprojected⟩ := h.origin
  have hnone : OncRpc.findConst projected name = none := by
    rw [findConst_written name hprojected, findSome?_flatMap_requests _ husable,
      List.findSome?_eq_none_iff]
    intro item hmem
    have hsome := Schema.typeName_isSome_of_mem_projections hmem
    rcases item with _ | _ | _ | _ | _ | _
    case typedef | struct | enum | union => rfl
    all_goals cases hsome
  unfold OncRpc.findConst at hnone ⊢
  rw [List.findSome?_append, hnone, Option.or_none]
  have hown := findConst_written name hwritten
  unfold OncRpc.findConst at hown
  rw [hown, findSome?_flatMap_requests _ husable]
  rfl

/-- An expression stands for one number. -/
theorem Schema.Denotes.unique {expr : ValueExpr} {x y : Int} (hx : schema.Denotes expr x)
    (hy : schema.Denotes expr y) : x = y := by
  obtain ⟨fuel, hx⟩ := hx
  obtain ⟨fuel', hy⟩ := hy
  exact ValueExpr.resolve_unique hx hy

/-- The values of constants are usable in a well formed schema. -/
theorem Schema.WellFormed.usable_of_findConst (h : schema.WellFormed) {name : String}
    {value : ValueExpr} (hfind : schema.findConst name = some value) : value.Usable := by
  obtain ⟨item, hmem, hitem⟩ := List.exists_of_findSome?_eq_some hfind
  rcases item with decl | _ | _ | _ | _ | _
  · have hwell := h _ hmem
    dsimp only at hitem
    split at hitem
    · cases hitem
      exact hwell
    · cases hitem
  all_goals cases hitem

/-- A usable value resolves over the items as it does over the schema. -/
theorem Schema.Written.resolve_eq (h : schema.Written items) (hwell : schema.WellFormed)
    (fuel : ℕ) {expr : ValueExpr} (husable : expr.Usable) :
    expr.resolve (OncRpc.findConst items) fuel = expr.resolve schema.findConst fuel := by
  induction fuel generalizing expr with
  | zero => rcases expr with _ | _ <;> rfl
  | succ fuel ih =>
    rcases expr with value | name
    · rfl
    · rw [ValueExpr.resolve, ValueExpr.resolve, h.findConst_eq husable]
      rcases hfind : schema.findConst name with _ | value
      · rfl
      · exact ih (hwell.usable_of_findConst hfind)

/-- The value of an expression in generated code is the number it stands for. -/
theorem Schema.Written.i64Value_iff (h : schema.Written items) (hwell : schema.WellFormed)
    {expr : ValueExpr} (husable : expr.Usable) {x : Int} :
    i64Value items expr = some x ↔ schema.Denotes expr x := by
  constructor
  · intro hx
    refine ⟨items.length + 1, ?_⟩
    rw [← h.resolve_eq hwell _ husable]
    exact hx
  · rintro ⟨fuel, hx⟩
    rw [← h.resolve_eq hwell _ husable] at hx
    exact i64Value_of_resolve hx

/-! ## Types -/

/-- The name of the Rust type an item becomes. -/
def Item.rustName : Item → Option String
  | .typedef ⟨.enum _, ⟨name, none⟩⟩ | .typedef ⟨.struct _, ⟨name, none⟩⟩
  | .typedef ⟨.union _, ⟨name, none⟩⟩ => some name
  | .typedef decl => some (rustIdent decl.declarator.name)
  | .struct name _ | .enum name _ | .union name _ => some name
  | .const _ | .program _ => none

/-- A usable name is written as it is. -/
theorem rustIdent_of_usable {name : String} (h : Usable name) : rustIdent name = name :=
  if_neg h.1

/-- The type of a usable name is written under that name. -/
theorem Item.rustName_of_usable {item : Item} {name : String} (h : item.typeName = some name)
    (husable : Usable name) : item.rustName = some name := by
  rcases item with _ | decl | _ | _ | _ | _
  case typedef =>
    have hident := rustIdent_of_usable husable
    obtain rfl : decl.declarator.name = name := Option.some.inj h
    unfold Item.rustName
    split <;> simp_all
  all_goals exact h

/-- The Rust type of an item is among its requests. -/
theorem Item.rustName_mem {item : Item} {name : String} (h : item.rustName = some name) :
    name ∈ item.requests.filterMap ItemRequest.typeName := by
  have hself (target : TypeSpec) (hinline : (∃ body, target = .enum body) ∨
      (∃ body, target = .struct body) ∨ ∃ body, target = .union body) (hint : String) :
      hint ∈ (target.requests hint).filterMap ItemRequest.typeName := by
    refine List.mem_filterMap.mpr ⟨.inline hint target, ?_, rfl⟩
    rcases hinline with ⟨body, rfl⟩ | ⟨body, rfl⟩ | ⟨body, rfl⟩
    · exact List.mem_singleton_self _
    · rw [TypeSpec.requests_struct]
      exact List.mem_append_right _ (List.mem_singleton_self _)
    · rw [TypeSpec.requests_union]
      exact List.mem_append_right _ (List.mem_singleton_self _)
  rcases item with _ | ⟨target, ⟨own, modifier⟩⟩ | ⟨own, body⟩ | ⟨own, body⟩ | ⟨own, body⟩ | _
  case struct => cases h; exact hself _ (.inr (.inl ⟨body, rfl⟩)) _
  case enum => cases h; exact hself _ (.inl ⟨body, rfl⟩) _
  case union => cases h; exact hself _ (.inr (.inr ⟨body, rfl⟩)) _
  case typedef =>
    rcases modifier with _ | modifier
    · rcases target with _ | _ | _ | _ | _ | _ | _ | _ | _ | _ | _ | _ | body | body | body | _ | _
      case enum => cases h; exact hself _ (.inl ⟨body, rfl⟩) _
      case struct => cases h; exact hself _ (.inr (.inl ⟨body, rfl⟩)) _
      case union => cases h; exact hself _ (.inr (.inr ⟨body, rfl⟩)) _
      all_goals cases h; exact List.mem_singleton_self _
    · rcases target with _ | _ | _ | _ | _ | _ | _ | _ | _ | _ | _ | _ | body | body | body | _ | _
      case enum | struct | union =>
        cases h
        rw [Item.requests, TypedefDecl.requests, List.filterMap_append]
        exact List.mem_append_right _ (List.mem_singleton_self _)
      all_goals cases h; exact List.mem_singleton_self _
  all_goals cases h

/-- The names of the declared types are among those asked for, in their order. -/
theorem rustNames_sublist (declared : List Item) :
    (declared.filterMap Item.rustName).Sublist
      ((declared.flatMap Item.requests).filterMap ItemRequest.typeName) := by
  induction declared with
  | nil => exact List.Sublist.slnil
  | cons item declared ih =>
    rw [List.flatMap_cons, List.filterMap_append]
    rcases hname : item.rustName with _ | name
    · rw [List.filterMap_cons_none hname]
      exact ih.trans (List.sublist_append_right ..)
    · rw [List.filterMap_cons_some hname]
      exact (List.singleton_sublist.mpr (Item.rustName_mem hname)).append ih

/-- Members with one image are one, where the images are distinct. -/
theorem eq_of_filterMap_nodup {α β : Type} {f : α → Option β} {xs : List α} {x y : α} {b : β}
    (h : (xs.filterMap f).Nodup) (hx : x ∈ xs) (hy : y ∈ xs) (hfx : f x = some b)
    (hfy : f y = some b) : x = y := by
  induction xs with
  | nil => cases hx
  | cons first xs ih =>
    have htail : (xs.filterMap f).Nodup := h.sublist ((List.sublist_cons_self first xs).filterMap f)
    rcases List.mem_cons.mp hx with rfl | hx'
    · rcases List.mem_cons.mp hy with rfl | hy'
      · rfl
      · rw [List.filterMap_cons_some hfx] at h
        exact absurd (List.mem_filterMap.mpr ⟨y, hy', hfy⟩) (List.nodup_cons.mp h).1
    · rcases List.mem_cons.mp hy with rfl | hy'
      · rw [List.filterMap_cons_some hfy] at h
        exact absurd (List.mem_filterMap.mpr ⟨x, hx', hfx⟩) (List.nodup_cons.mp h).1
      · exact ih htail hx' hy'

/-- An entry that is the only one of its name is found. -/
theorem lookup_of_unique {α : Type} {entries : List (String × α)} {name : String} {a : α}
    (hmem : (name, a) ∈ entries) (hunique : ∀ b, (name, b) ∈ entries → b = a) :
    entries.lookup name = some a := by
  rcases hlookup : entries.lookup name with _ | b
  · have hne := List.lookup_eq_none_iff.mp hlookup (name, a) hmem
    simp at hne
  · obtain ⟨before, after, rfl, -⟩ := List.lookup_eq_some_iff.mp hlookup
    rw [hunique b (by simp)]

/-- An item found under a name declares it. -/
theorem Schema.declares_of_item {name : String} {item : Item}
    (h : (fromSchema schema).item name = some item) : schema.Declares name item := by
  obtain ⟨before, after, hentries, -⟩ := List.lookup_eq_some_iff.mp h
  have hmem : (name, item) ∈ schema.namedTypes := by
    have hreverse : (name, item) ∈ (fromSchema schema).items.reverse := by
      rw [hentries]
      simp
    exact List.mem_reverse.mp hreverse
  obtain ⟨source, hsource, hname⟩ := List.mem_filterMap.mp hmem
  obtain ⟨own, hown, heq⟩ := Option.map_eq_some_iff.mp hname
  cases heq
  exact ⟨hsource, hown⟩

/-- A declared item is found under its name. -/
theorem Schema.DistinctNames.item_eq (h : schema.DistinctNames) {name : String} {item : Item}
    (hdeclares : schema.Declares name item) (husable : Usable name) :
    (fromSchema schema).item name = some item := by
  have hnodup : (schema.items.filterMap Item.rustName).Nodup := by
    refine List.Nodup.sublist ((rustNames_sublist schema.items).trans ?_) h
    rw [Schema.requests, List.filterMap_append]
    exact List.sublist_append_left ..
  refine lookup_of_unique ?_ ?_
  · refine List.mem_reverse.mpr (List.mem_filterMap.mpr ⟨item, hdeclares.1, ?_⟩)
    rw [hdeclares.2]
    rfl
  · intro other hother
    obtain ⟨source, hsource, hname⟩ := List.mem_filterMap.mp (List.mem_reverse.mp hother)
    obtain ⟨own, hown, heq⟩ := Option.map_eq_some_iff.mp hname
    cases heq
    exact eq_of_filterMap_nodup hnodup hsource hdeclares.1 (Item.rustName_of_usable hown husable)
      (Item.rustName_of_usable hdeclares.2 husable)

/-- The emitter knows the declared items by their names. -/
def Schema.Knows (schema : Schema) (context : EmitContext) : Prop :=
  ∀ name item, schema.Declares name item → Usable name → context.namedType name = some item

/-- With distinct names the context of a schema knows its types. -/
theorem Schema.DistinctNames.knows (h : schema.DistinctNames) : schema.Knows schema.context :=
  fun _ _ hdeclares husable => h.item_eq hdeclares husable

/-- A type with metadata is a type definition, a structure or a union. -/
theorem exists_projectable_of_metadataName {layouts : OwnedLayouts} {name metadata : String}
    (h : layouts.metadataName name = some metadata) :
    ∃ item, layouts.item name = some item ∧ (item.typeName = some name →
      projectableName item = some name) := by
  obtain ⟨shape, hshape, -⟩ := Option.map_eq_some_iff.mp h
  obtain ⟨hnamed, hbody⟩ := Option.filter_eq_some_iff.mp hshape
  rw [named, namedFrom, if_neg (List.not_mem_nil)] at hnamed
  obtain ⟨item, hitem, hitemShape⟩ := Option.bind_eq_some_iff.mp hnamed
  refine ⟨item, hitem, fun hname => ?_⟩
  rcases item with _ | _ | _ | _ | _ | _
  case enum =>
    cases hitemShape
    cases hbody
  all_goals exact hname

/-- A type with a segmented form is a type definition, a structure or a union. -/
theorem exists_projectable_of_segmentsName {layouts : OwnedLayouts} {name segments : String}
    (h : layouts.segmentsName name = some segments) :
    ∃ item, layouts.item name = some item ∧ (item.typeName = some name →
      projectableName item = some name) := by
  rw [segmentsName] at h
  split at h
  · next hterminal =>
    rw [terminal, terminalFrom] at hterminal
    simp only [true_or, List.not_mem_nil, not_false_eq_true, and_self, if_true] at hterminal
    split at hterminal
    case h_4 => cases hterminal
    all_goals
      next hitem => exact ⟨_, hitem, id⟩
  · cases h

/-- An item that has a metadata name gets its projection. -/
theorem metadataItem_of_name {layouts : OwnedLayouts} {item : Item} {name metadata : String}
    (hitem : projectableName item = some name)
    (hname : layouts.metadataName name = some metadata) :
    layouts.metadataItem item = some (metadata, project metadata layouts.transform
      (fun d => if layouts.hasBody d then layouts.transform d else d) item) := by
  rw [metadataItem, hitem]
  simp only [Option.bind_eq_bind, Option.bind_some, hname]
  rfl

/-! ## Bytes -/

/-- Only single opaque data is written as `u8`. -/
theorem rustTypeForDeclaration_eq_u8 {target : TypeSpec} {modifier : Option DeclaratorModifier}
    {hint : String} (h : rustTypeForDeclaration target modifier hint = .ok .u8) :
    target = .opaqueData ∧ modifier = none := by
  rcases modifier with _ | (bound | bound | _)
  · refine ⟨?_, rfl⟩
    rcases target with _ | _ | _ | _ | _ | _ | _ | _ | _ | _ | _ | _ | _ | _ | _ | _ | _
    case opaqueData => rfl
    all_goals cases h
  · obtain ⟨len, -, htype⟩ := except_bind_eq_ok.mp h
    split at htype <;> cases htype
  · simp only [rustTypeForDeclaration] at h
    split at h <;> cases h
  · cases h

/-- The aliases a type definition asks for. -/
theorem TypedefDecl.alias_of_mem {decl : TypedefDecl} {name hint : String} {target : TypeSpec}
    {modifier : Option DeclaratorModifier}
    (h : .typeAlias name target modifier hint ∈ decl.requests) :
    modifier = decl.declarator.modifier ∧
      (target = decl.target ∨ ∃ other, target = .identifier other) := by
  have hinner (inner : TypeSpec) (owner : String) :
      .typeAlias name target modifier hint ∉ inner.requests owner := by
    intro hmem
    obtain ⟨_, _, hinline⟩ := inner.exists_inline_of_mem owner _ hmem
    cases hinline
  obtain ⟨own, ⟨ownName, ownModifier⟩⟩ := decl
  unfold TypedefDecl.requests at h
  dsimp only at h ⊢
  split at h
  case h_7 => cases List.mem_singleton.mp h; exact ⟨rfl, .inl rfl⟩
  case h_1 | h_2 | h_3 => exact absurd h (hinner _ _)
  all_goals
    rcases List.mem_append.mp h with h | h
    · exact absurd h (hinner _ _)
    · cases List.mem_singleton.mp h
      exact ⟨rfl, .inr ⟨_, rfl⟩⟩

/-- The declaration has an array declarator if it is about opaque data. -/
def Declaration.OpaqueArray (d : Declaration) : Prop :=
  d.typeSpec = .opaqueData → d.declarator.modifier ≠ none

/-- The transformation leaves arrays of opaque data as they are. -/
theorem transform_opaqueArray {layouts : OwnedLayouts} {d : Declaration} (h : d.OpaqueArray) :
    (layouts.transform d).OpaqueArray := by
  unfold transform
  split
  · intro h
    cases h
  · split
    · intro h
      cases h
    · exact h
  · exact h

/-- The transformation of segments leaves arrays of opaque data as they are. -/
theorem transformSegments_opaqueArray {layouts : OwnedLayouts} {d : Declaration}
    (h : d.OpaqueArray) : (layouts.transformSegments d).OpaqueArray := by
  unfold transformSegments
  split
  · intro h
    cases h
  · split
    · intro h
      cases h
    · exact h
  · exact h

/-- The type definitions of a schema have an array declarator if they are about opaque data. -/
def Schema.OpaqueArrays (schema : Schema) : Prop :=
  ∀ decl, .typedef decl ∈ schema.items → Declaration.OpaqueArray ⟨decl.target, decl.declarator⟩

/-- Single opaque data is in no projection either. -/
theorem Schema.OpaqueArrays.of_mem_projections (h : schema.OpaqueArrays) {decl : TypedefDecl}
    (hmem : .typedef decl ∈ schema.projections) :
    Declaration.OpaqueArray ⟨decl.target, decl.declarator⟩ := by
  have hproject {name : String} {last arm : Declaration → Declaration} {source : Item}
      (hsource : source ∈ schema.items) (hlast : ∀ d : Declaration, d.OpaqueArray →
        (last d).OpaqueArray) (heq : project name last arm source = .typedef decl) :
      Declaration.OpaqueArray ⟨decl.target, decl.declarator⟩ := by
    rcases source with _ | sourceDecl | _ | _ | _ | _
    case typedef =>
      cases heq
      exact hlast _ (h sourceDecl hsource)
    all_goals cases heq
  unfold Schema.projections at hmem
  rcases List.mem_append.mp hmem with hmem | hmem
  all_goals
    obtain ⟨⟨name, projected⟩, hentry, hsnd⟩ := List.mem_map.mp hmem
    obtain ⟨source, hsource, heq⟩ := List.mem_filterMap.mp hentry
    simp only [metadataItem, segmentsItem, Option.bind_eq_bind, Option.bind_eq_some_iff] at heq
    obtain ⟨own, -, other, -, hprojected⟩ := heq
    cases hprojected
    dsimp only at hsnd
  · refine hproject hsource ?_ hsnd
    exact fun d hd => transform_opaqueArray hd
  · refine hproject hsource ?_ hsnd
    exact fun d hd => transformSegments_opaqueArray hd

/-- No alias stands for a byte. -/
theorem Schema.Written.alias_ne_u8 (h : schema.Written items) (hdata : schema.OpaqueArrays)
    {name : String} {type : RustType} (hmem : .typeAlias name type ∈ items) : type ≠ .u8 := by
  rintro rfl
  have hrequest {context : EmitContext} {requests : List ItemRequest} {written : List RustItem}
      (hwritten : List.Forall₂ (fun request item => request.item context = .ok item)
        requests written)
      (hmem : .typeAlias name .u8 ∈ written) :
      ∃ hint, .typeAlias name .opaqueData none hint ∈ requests := by
    obtain ⟨request, hrequest, hitem⟩ := exists_of_mem_left hwritten.flip hmem
    have hname := ItemRequest.typeName_of_item hitem
    rcases request with _ | ⟨other, target, modifier, hint⟩ | ⟨other, inner⟩
    · cases hname
    · obtain ⟨type, htype, halias⟩ := except_bind_eq_ok.mp hitem
      cases halias
      obtain ⟨rfl, rfl⟩ := rustTypeForDeclaration_eq_u8 htype
      exact ⟨hint, hrequest⟩
    · rw [ItemRequest.item] at hitem
      unfold EmitContext.inlineItem at hitem
      split at hitem
      · cases hitem
      · obtain ⟨_, -, heq⟩ := except_bind_eq_ok.mp hitem
        cases heq
      · simp only [EmitContext.unionItem, except_bind_eq_ok] at hitem
        obtain ⟨_, -, _, -, _, -, _, -, heq⟩ := hitem
        cases heq
      · cases hitem
  have hitem {declared : List Item} (hdeclared : ∀ decl, .typedef decl ∈ declared →
      Declaration.OpaqueArray ⟨decl.target, decl.declarator⟩) {hint : String}
      (hmem : .typeAlias name .opaqueData none hint ∈ declared.flatMap Item.requests) : False := by
    obtain ⟨item, hsource, hin⟩ := List.mem_flatMap.mp hmem
    have hnot (inner : TypeSpec) (owner : String) :
        .typeAlias name .opaqueData none hint ∉ inner.requests owner := by
      intro hin
      obtain ⟨_, _, hinline⟩ := inner.exists_inline_of_mem owner _ hin
      cases hinline
    rcases item with _ | decl | ⟨own, body⟩ | ⟨own, body⟩ | ⟨own, body⟩ | _
    · cases List.mem_singleton.mp hin
    · obtain ⟨hmodifier, htarget | ⟨other, hother⟩⟩ := TypedefDecl.alias_of_mem hin
      · exact hdeclared decl hsource htarget.symm hmodifier.symm
      · cases hother
    · exact hnot (.struct body) own hin
    · exact hnot (.enum body) own hin
    · exact hnot (.union body) own hin
    · cases hin
  obtain ⟨written, projected, rfl, hwritten, hprojected⟩ := h.origin
  rcases List.mem_append.mp hmem with hmem | hmem
  · obtain ⟨hint, hin⟩ := hrequest hwritten hmem
    exact hitem hdata hin
  · obtain ⟨hint, hin⟩ := hrequest hprojected hmem
    exact hitem (fun decl hdecl => hdata.of_mem_projections hdecl) hin

/-- A type that is found is one of the items. -/
theorem findType_mem {name : String} {item : RustItem} (h : findType items name = some item) :
    item ∈ items :=
  List.mem_of_find?_eq_some h

/-- Only the type of bytes is the type of bytes. -/
theorem Schema.Written.isByte_eq_false (h : schema.Written items) (hdata : schema.OpaqueArrays)
    {type : RustType} (htype : type ≠ .u8) : isByte items type = false := by
  have haux (fuel : ℕ) : ∀ type, type ≠ .u8 → isU8 items fuel type = false := by
    induction fuel with
    | zero =>
      intro type htype
      rcases type with _ | _ | _ | _ | _ | _ | _ | _ | _ | _ | _ | _ | _ | _ | _ | _ | _
      case u8 => exact absurd rfl htype
      all_goals rfl
    | succ fuel ih =>
      intro type htype
      rcases type with _ | _ | _ | _ | _ | _ | _ | _ | _ | _ | _ | _ | _ | _ | name | _ | _
      case u8 => exact absurd rfl htype
      case named =>
        rw [isU8]
        split
        · next hfind => exact ih _ (h.alias_ne_u8 hdata (findType_mem hfind))
        · rfl
      all_goals rfl
  exact haux _ type htype

end OncRpc
