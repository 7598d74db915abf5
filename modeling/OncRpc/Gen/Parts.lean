import OncRpc.Gen.Capture
import OncRpc.Gen.Correspondence

/-!
# The types inside the types of a schema

`ItemRequest.PartHas` is a property of what a request for a structure, an enumeration or a union is
made from.  `PartsHave` says it of everything inside a type, an item or a schema, whatever the names
under which it is asked for.  A projection of an item has the parts of the item, up to what
`Declaration.Projects` allows, so that a property that this keeps carries over
(`Schema.PartsHave.of_mem`).

What the emitter writes was asked for (`asked_of_emitTypesIn`).  So a property of the parts of a
schema is one of everything that is written for it.
-/

namespace OncRpc

open Foundation OwnedLayouts

/-! ## Parts -/

/-- A property of the structure, enumeration or union that is asked for, if one is. -/
def ItemRequest.PartHas (Q : TypeSpec → Prop) : ItemRequest → Prop
  | .inline _ target => Q target
  | .const _ _ | .typeAlias _ _ _ _ => True

/-- Every structure, enumeration and union in a type has a property, whatever the type is called. -/
def TypeSpec.PartsHave (Q : TypeSpec → Prop) (target : TypeSpec) : Prop :=
  ∀ hint, ∀ request ∈ target.requests hint, request.PartHas Q

/-- The parts of an item have a property. -/
def Item.PartsHave (Q : TypeSpec → Prop) (item : Item) : Prop :=
  ∀ request ∈ item.requests, request.PartHas Q

/-- The parts of a schema have a property. -/
def Schema.PartsHave (Q : TypeSpec → Prop) (schema : Schema) : Prop :=
  ∀ request ∈ schema.ownRequests, request.PartHas Q

variable {Q : TypeSpec → Prop}

/-- The parts of a type do not depend on its name. -/
theorem TypeSpec.partsHave_of_requests (target : TypeSpec) :
    ∀ hint, (∀ request ∈ target.requests hint, request.PartHas Q) → target.PartsHave Q := by
  induction target using TypeSpec.inner_induction with
  | leaf target hstruct hunion =>
    intro hint h hint' request hmem
    rcases target with _ | _ | _ | _ | _ | _ | _ | _ | _ | _ | _ | _ | body | body | body | _ | _
    case enum =>
      obtain rfl := List.mem_singleton.mp hmem
      exact h (.inline hint (.enum body)) (List.mem_singleton_self _)
    case struct => exact absurd rfl (hstruct body)
    case union => exact absurd rfl (hunion body)
    all_goals cases hmem
  | struct body ih =>
    intro hint h hint' request hmem
    rw [TypeSpec.requests_struct] at h hmem
    rcases List.mem_append.mp hmem with hinner | hself
    · obtain ⟨d, hd, hrequest⟩ := List.mem_flatMap.mp hinner
      exact ih d hd _ (fun other hother => h other
        (List.mem_append_left _ (List.mem_flatMap.mpr ⟨d, hd, hother⟩))) _ request hrequest
    · obtain rfl := List.mem_singleton.mp hself
      exact h (.inline hint (.struct body)) (List.mem_append_right _ (List.mem_singleton_self _))
  | union body hdiscriminant harms =>
    intro hint h hint' request hmem
    rw [TypeSpec.requests_union] at h hmem
    rcases List.mem_append.mp hmem with hinner | hself
    · rcases List.mem_append.mp hinner with harm | hd
      · obtain ⟨arm, harm, hrequest⟩ := List.mem_flatMap.mp harm
        exact harms arm harm _ (fun other hother => h other (List.mem_append_left _
          (List.mem_append_left _ (List.mem_flatMap.mpr ⟨arm, harm, hother⟩)))) _ request hrequest
      · exact hdiscriminant _ (fun other hother => h other (List.mem_append_left _
          (List.mem_append_right _ hother))) _ request hd
    · obtain rfl := List.mem_singleton.mp hself
      exact h (.inline hint (.union body)) (List.mem_append_right _ (List.mem_singleton_self _))

namespace TypeSpec

/-- A type without types inside it. -/
theorem partsHave_of_leaf {target : TypeSpec} (h : ∀ hint, target.requests hint = []) :
    target.PartsHave Q := by
  intro hint request hmem
  rw [h hint] at hmem
  cases hmem

/-- An enumeration has no parts but itself. -/
theorem partsHave_enum {body : EnumBody} : (TypeSpec.enum body).PartsHave Q ↔ Q (.enum body) := by
  constructor
  · intro h
    exact h "" (.inline "" (.enum body)) (List.mem_singleton_self _)
  · intro h hint request hmem
    obtain rfl := List.mem_singleton.mp hmem
    exact h

/-- The parts of a structure are itself and those of its fields. -/
theorem partsHave_struct {body : StructBody} : (TypeSpec.struct body).PartsHave Q ↔
    Q (.struct body) ∧ ∀ d ∈ body.declarations, d.typeSpec.PartsHave Q := by
  constructor
  · intro h
    refine ⟨?_, fun d hd => ?_⟩
    · refine h "" (.inline "" (.struct body)) ?_
      rw [TypeSpec.requests_struct]
      exact List.mem_append_right _ (List.mem_singleton_self _)
    · refine d.typeSpec.partsHave_of_requests (hintFor "" d.declarator.name) fun request hmem => ?_
      refine h "" request ?_
      rw [TypeSpec.requests_struct]
      exact List.mem_append_left _ (List.mem_flatMap.mpr ⟨d, hd, hmem⟩)
  · rintro ⟨hself, hinner⟩ hint request hmem
    rw [TypeSpec.requests_struct] at hmem
    rcases List.mem_append.mp hmem with hmem | hmem
    · obtain ⟨d, hd, hrequest⟩ := List.mem_flatMap.mp hmem
      exact hinner d hd _ request hrequest
    · obtain rfl := List.mem_singleton.mp hmem
      exact hself

/-- The parts of a union are itself and those of its discriminant and arms. -/
theorem partsHave_union {body : UnionBody} : (TypeSpec.union body).PartsHave Q ↔
    Q (.union body) ∧ body.discriminant.typeSpec.PartsHave Q ∧
      ∀ arm ∈ body.arms, arm.declaration.typeSpec.PartsHave Q := by
  constructor
  · intro h
    refine ⟨?_, ?_, fun arm harm => ?_⟩
    · refine h "" (.inline "" (.union body)) ?_
      rw [TypeSpec.requests_union]
      exact List.mem_append_right _ (List.mem_singleton_self _)
    · refine partsHave_of_requests _ (hintFor "" "discriminant") fun request hmem => ?_
      refine h "" request ?_
      rw [TypeSpec.requests_union]
      exact List.mem_append_left _ (List.mem_append_right _ hmem)
    · refine partsHave_of_requests _ (hintFor "" arm.declaration.declarator.name)
        fun request hmem => ?_
      refine h "" request ?_
      rw [TypeSpec.requests_union]
      exact List.mem_append_left _
        (List.mem_append_left _ (List.mem_flatMap.mpr ⟨arm, harm, hmem⟩))
  · rintro ⟨hself, hdiscriminant, harms⟩ hint request hmem
    rw [TypeSpec.requests_union] at hmem
    rcases List.mem_append.mp hmem with hinner | hlast
    · rcases List.mem_append.mp hinner with harm | hd
      · obtain ⟨arm, harm, hrequest⟩ := List.mem_flatMap.mp harm
        exact harms arm harm _ request hrequest
      · exact hdiscriminant _ request hd
    · obtain rfl := List.mem_singleton.mp hlast
      exact hself

end TypeSpec

/-- A type definition asks for its alias, if it has one, and for what stands inside its target. -/
theorem TypedefDecl.mem_requests_iff (decl : TypedefDecl) : ∃ hint,
    (hint = decl.declarator.name ∨ hint = hintFor decl.declarator.name "value") ∧
    ∀ request, request ∈ decl.requests ↔ request ∈ decl.target.requests hint ∨
      request ∈ decl.requests ∧
        ∃ inner declared hint',
          request = .typeAlias (rustIdent decl.declarator.name) inner declared hint' := by
  obtain ⟨target, ⟨name, modifier⟩⟩ := decl
  rcases target with _ | _ | _ | _ | _ | _ | _ | _ | _ | _ | _ | _ | body | body | body | _ | _
  case enum | struct | union =>
    rcases modifier with _ | modifier
    · refine ⟨name, .inl rfl, fun request => ⟨.inl, ?_⟩⟩
      rintro (hmem | ⟨hmem, -⟩) <;> exact hmem
    · refine ⟨hintFor name "value", .inr rfl, fun request => ⟨fun hmem => ?_, ?_⟩⟩
      · rcases List.mem_append.mp hmem with hinner | halias
        · exact .inl hinner
        · exact .inr ⟨hmem, _, _, _, List.mem_singleton.mp halias⟩
      · rintro (hinner | ⟨hmem, -⟩)
        · exact List.mem_append_left _ hinner
        · exact hmem
  all_goals
    refine ⟨name, .inl rfl, fun request => ⟨fun hmem => ?_, ?_⟩⟩
    · rcases modifier with _ | modifier <;>
        exact .inr ⟨hmem, _, _, _, List.mem_singleton.mp hmem⟩
    · rintro (hinner | ⟨hmem, -⟩)
      · cases hinner
      · exact hmem

/-- The parts of a `typedef` are those of its target. -/
theorem TypedefDecl.partsHave_iff {decl : TypedefDecl} :
    (Item.typedef decl).PartsHave Q ↔ decl.target.PartsHave Q := by
  obtain ⟨hint, -, hrequests⟩ := decl.mem_requests_iff
  constructor
  · intro h
    refine decl.target.partsHave_of_requests hint fun request hmem => ?_
    exact h request ((hrequests request).mpr (.inl hmem))
  · intro h request hmem
    rcases (hrequests request).mp hmem with hinner | ⟨-, inner, declared, hint', rfl⟩
    · exact h hint request hinner
    · trivial

/-! ## Projections -/

/-- What a projection makes of a declaration: it keeps it, writes the length or several owners for a
variable opaque body, or names another type. -/
inductive Declaration.Projects : Declaration → Declaration → Prop where
  | same (d : Declaration) : Projects d d
  | length (name : String) (bound : Option ValueExpr) :
      Projects ⟨.opaqueLength bound, ⟨name, none⟩⟩
        ⟨.opaqueData, ⟨name, some (.variableArray bound)⟩⟩
  | segments (name : String) (bound : Option ValueExpr) :
      Projects ⟨.opaqueSegments bound, ⟨name, none⟩⟩
        ⟨.opaqueData, ⟨name, some (.variableArray bound)⟩⟩
  | renamed (name other : String) (declarator : Declarator) :
      Projects ⟨.identifier other, declarator⟩ ⟨.identifier name, declarator⟩

namespace Declaration.Projects

variable {layouts : OwnedLayouts} {new old : Declaration}

/-- The transformation of a declaration projects it. -/
theorem transform (d : Declaration) : (layouts.transform d).Projects d := by
  obtain ⟨target, name, modifier⟩ := d
  unfold OwnedLayouts.transform
  split
  · next bound htarget hmodifier =>
    dsimp only at htarget hmodifier
    subst htarget hmodifier
    exact .length name bound
  · next own htarget =>
    dsimp only at htarget
    subst htarget
    split
    · exact .renamed own _ _
    · exact .same _
  · exact .same _

/-- The transformation into segments projects a declaration. -/
theorem transformSegments (d : Declaration) : (layouts.transformSegments d).Projects d := by
  obtain ⟨target, name, modifier⟩ := d
  unfold OwnedLayouts.transformSegments
  split
  · next bound htarget hmodifier =>
    dsimp only at htarget hmodifier
    subst htarget hmodifier
    exact .segments name bound
  · next own htarget =>
    dsimp only at htarget
    subst htarget
    split
    · exact .renamed own _ _
    · exact .same _
  · exact .same _

/-- A projection keeps the name. -/
theorem name (h : new.Projects old) : new.declarator.name = old.declarator.name := by
  rcases h with _ | _ | _ | _ <;> rfl

/-- A projection keeps what its parts have. -/
theorem partsHave (h : new.Projects old) (hold : old.typeSpec.PartsHave Q) :
    new.typeSpec.PartsHave Q := by
  rcases h with _ | _ | _ | _
  · exact hold
  all_goals exact TypeSpec.partsHave_of_leaf fun _ => rfl

end Declaration.Projects

/-- A property of parts that projecting the last field of a structure and the arms of a union
keeps. -/
structure KeptByProjection (Q : TypeSpec → Prop) : Prop where
  struct : ∀ (body : StructBody) (f : Declaration → Declaration), (∀ d, (f d).Projects d) →
    Q (.struct body) → Q (.struct ⟨changeLast f body.declarations⟩)
  union : ∀ (body : UnionBody) (f : Declaration → Declaration), (∀ d, (f d).Projects d) →
    Q (.union body) → Q (.union
      { body with arms := body.arms.map fun arm => { arm with declaration := f arm.declaration } })

/-- What has not been changed at the end of a list is in it. -/
theorem mem_of_mem_changeLast {f : Declaration → Declaration} {ds : List Declaration}
    {d : Declaration} (h : d ∈ changeLast f ds) : d ∈ ds ∨ ∃ old ∈ ds, d = f old := by
  unfold changeLast at h
  split at h
  · next last hlast =>
    rcases List.mem_append.mp h with hfront | hlast'
    · exact .inl (List.mem_of_mem_dropLast hfront)
    · exact .inr ⟨last, List.mem_of_getLast? hlast, List.mem_singleton.mp hlast'⟩
  · cases h

namespace Item.PartsHave

variable {item projected : Item} {layouts : OwnedLayouts} {name : String}

/-- The parts of a projection have what those of the item have. -/
theorem project (hQ : KeptByProjection Q) {last arm : Declaration → Declaration}
    (hlast : ∀ d, (last d).Projects d) (harm : ∀ d, (arm d).Projects d) (name : String)
    (h : item.PartsHave Q) : (OwnedLayouts.project name last arm item).PartsHave Q := by
  rcases item with decl | decl | ⟨own, body⟩ | ⟨own, body⟩ | ⟨own, body⟩ | decl
  case const | enum | program => exact h
  case typedef =>
    refine TypedefDecl.partsHave_iff.mpr ?_
    exact (hlast ⟨decl.target, decl.declarator⟩).partsHave (TypedefDecl.partsHave_iff.mp h)
  case struct =>
    obtain ⟨hself, hinside⟩ :=
      TypeSpec.partsHave_struct.mp (TypeSpec.partsHave_of_requests _ own h)
    refine fun request hmem => (TypeSpec.partsHave_struct.mpr
      ⟨hQ.struct body last hlast hself, fun d hd => ?_⟩) name request hmem
    rcases mem_of_mem_changeLast hd with hd | ⟨old, hold, rfl⟩
    · exact hinside d hd
    · exact (hlast old).partsHave (hinside old hold)
  case union =>
    obtain ⟨hbody, hdiscriminant, harms⟩ :=
      TypeSpec.partsHave_union.mp (TypeSpec.partsHave_of_requests _ own h)
    refine fun request hmem => (TypeSpec.partsHave_union.mpr
      ⟨hQ.union body arm harm hbody, hdiscriminant, fun a ha => ?_⟩) name request hmem
    obtain ⟨old, hold, rfl⟩ := List.mem_map.mp ha
    exact (harm _).partsHave (harms old hold)

/-- Metadata keep what the parts of their item have. -/
theorem metadataItem (hQ : KeptByProjection Q) (h : item.PartsHave Q)
    (hitem : layouts.metadataItem item = some (name, projected)) : projected.PartsHave Q := by
  simp only [OwnedLayouts.metadataItem, Option.bind_eq_bind, Option.bind_eq_some_iff,
    Option.pure_def, Option.some.injEq, Prod.mk.injEq] at hitem
  obtain ⟨own, -, metadata, -, -, rfl⟩ := hitem
  refine h.project hQ Declaration.Projects.transform (fun d => ?_) metadata
  split
  · exact .transform d
  · exact .same d

/-- Segments keep what the parts of their item have. -/
theorem segmentsItem (hQ : KeptByProjection Q) (h : item.PartsHave Q)
    (hitem : layouts.segmentsItem item = some (name, projected)) : projected.PartsHave Q := by
  simp only [OwnedLayouts.segmentsItem, Option.bind_eq_bind, Option.bind_eq_some_iff,
    Option.pure_def, Option.some.injEq, Prod.mk.injEq] at hitem
  obtain ⟨own, -, segments, -, -, rfl⟩ := hitem
  refine h.project hQ Declaration.Projects.transformSegments (fun d => ?_) segments
  split
  · exact .transformSegments d
  · exact .same d

end Item.PartsHave

/-! ## Everything that is written -/

/-- The requests for the metadata of a schema. -/
def Schema.metadataRequests (schema : Schema) (layouts : OwnedLayouts) : List ItemRequest :=
  ((schema.items.filterMap layouts.metadataItem).map Prod.snd).flatMap Item.requests

/-- The requests for the segmented forms of a schema. -/
def Schema.segmentRequests (schema : Schema) (layouts : OwnedLayouts) : List ItemRequest :=
  ((schema.items.filterMap layouts.segmentsItem).map Prod.snd).flatMap Item.requests

/-- The item is asked for with encoders: for a type of the schema, or for a segmented form.
Metadata has no encoders. -/
def Schema.Encoded (schema : Schema) (context : EmitContext) (layouts : OwnedLayouts)
    (item : RustItem) : Prop :=
  (∃ request ∈ schema.ownRequests, request.item context = .ok item) ∨
    ∃ request ∈ schema.segmentRequests layouts, request.item layouts.projectionContext = .ok item

/-- The item is asked for as metadata. -/
def Schema.MetadataOnly (schema : Schema) (layouts : OwnedLayouts) (item : RustItem) : Prop :=
  ∃ request ∈ schema.metadataRequests layouts, request.item layouts.projectionContext = .ok item

section Output

variable {context : EmitContext} {layouts : OwnedLayouts} {checked : List String} {schema : Schema}
  {generated : Generated}

/-- What is written was asked for, and the types of the schema are written if their names are
distinct. -/
theorem asked_of_emitTypesIn (h : emitTypesIn context layouts checked schema = .ok generated) :
    (∀ item ∈ generated.items,
      schema.Encoded context layouts item ∨ schema.MetadataOnly layouts item) ∧
    ((schema.ownRequests.filterMap ItemRequest.helper).Nodup → ∀ request ∈ schema.ownRequests,
      ∃ item ∈ generated.items, request.item context = .ok item) := by
  unfold emitTypesIn at h
  obtain ⟨first, hfirst, h⟩ := except_bind_eq_ok.mp h
  obtain ⟨_, -, h⟩ := except_bind_eq_ok.mp h
  obtain ⟨_, -, h⟩ := except_bind_eq_ok.mp h
  obtain ⟨second, hsecond, h⟩ := except_bind_eq_ok.mp h
  obtain ⟨third, hthird, h⟩ := except_bind_eq_ok.mp h
  obtain rfl := Except.ok.inj h
  obtain ⟨-, own, hown, hownItems⟩ := Asked.rule.emitItems schema.items _ first hfirst
  obtain ⟨hcontext, metadata, hmetadata, hmetadataItems⟩ :=
    Asked.rule.emitProjections schema.items _ second hsecond
  obtain ⟨-, segments, hsegments, hsegmentItems⟩ :=
    Asked.rule.emitProjections schema.items _ third hthird
  rw [List.nil_append] at hown
  have hitems : third.out = own ++ metadata ++ segments := by
    rw [hsegments, hmetadata, ← hown]
  constructor
  · intro item hitem
    change item ∈ third.out at hitem
    rw [hitems] at hitem
    rcases List.mem_append.mp hitem with hitem | hitem
    · rcases List.mem_append.mp hitem with hitem | hitem
      · exact .inl (.inl (hownItems item hitem))
      · exact .inr (hmetadataItems item hitem)
    · obtain ⟨request, hrequest, heq⟩ := hsegmentItems item hitem
      rw [hcontext] at heq
      exact .inl (.inr ⟨request, hrequest, heq⟩)
  · intro hnodup request hrequest
    obtain ⟨written, hout, -, -, hwritten⟩ :=
      Emits.rule.emitItems schema.items _ first hfirst hnodup (by simp)
    obtain ⟨item, hmem, hitem⟩ := exists_of_mem_left hwritten hrequest
    refine ⟨item, ?_, hitem⟩
    change item ∈ third.out
    rw [hitems, ← hown, hout]
    exact List.mem_append_left _ (List.mem_append_left _ hmem)

/-- What the parts of a schema have, those of its projections have. -/
theorem Schema.PartsHave.of_mem (hQ : KeptByProjection Q) (h : schema.PartsHave Q)
    {request : ItemRequest} : request ∈ schema.ownRequests ∨
      request ∈ schema.metadataRequests layouts ∨
      request ∈ schema.segmentRequests layouts → request.PartHas Q := by
  have hitem : ∀ item ∈ schema.items, item.PartsHave Q := fun item hmem request hrequest =>
    h request (List.mem_flatMap.mpr ⟨item, hmem, hrequest⟩)
  rintro (hmem | hmem | hmem)
  · exact h request hmem
  · obtain ⟨projected, hprojected, hrequest⟩ := List.mem_flatMap.mp hmem
    obtain ⟨⟨name, projected⟩, hentry, rfl⟩ := List.mem_map.mp hprojected
    obtain ⟨item, hmem, hproject⟩ := List.mem_filterMap.mp hentry
    exact (hitem item hmem).metadataItem hQ hproject request hrequest
  · obtain ⟨projected, hprojected, hrequest⟩ := List.mem_flatMap.mp hmem
    obtain ⟨⟨name, projected⟩, hentry, rfl⟩ := List.mem_map.mp hprojected
    obtain ⟨item, hmem, hproject⟩ := List.mem_filterMap.mp hentry
    exact (hitem item hmem).segmentsItem hQ hproject request hrequest

end Output

end OncRpc
