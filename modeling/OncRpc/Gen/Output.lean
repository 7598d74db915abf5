import OncRpc.Foundation.Paired
import OncRpc.Gen.Layout
import OncRpc.Gen.Names
import OncRpc.Gen.RuntimeNames

/-!
# What is generated under distinct names

`Schema.requests` lists everything the generator sets out to write for a schema.  When the names are
distinct, the item found under the name of a request is the one the request asks for
(`Written.find`), and the constants are those of the schema.  When none of them is a name of the
runtime, the code is read as it stands (`Written.hidesNothing`).
-/

namespace OncRpc

open Foundation OwnedLayouts

/-- The projections of a schema. -/
def Schema.projections (schema : Schema) : List Item :=
  let layouts := fromSchema schema
  (schema.items.filterMap layouts.metadataItem).map Prod.snd ++
    (schema.items.filterMap layouts.segmentsItem).map Prod.snd

/-- Everything the generator sets out to write for a schema. -/
def Schema.requests (schema : Schema) : List ItemRequest :=
  schema.items.flatMap Item.requests ++ schema.projections.flatMap Item.requests

/-- The names the generator sets out to write types under are distinct. -/
def Schema.DistinctNames (schema : Schema) : Prop :=
  (schema.requests.filterMap ItemRequest.typeName).Nodup

/-- The generator sets out to write no type under a name of the runtime. -/
def Schema.NoRuntimeNames (schema : Schema) : Prop :=
  ∀ name ∈ schema.requests.filterMap ItemRequest.typeName, name ∉ runtimeNames

/-! ## Finding what was written -/

/-- What an item asks for is found under its name. -/
def Provided (items : List RustItem) (context : EmitContext) (requests : List ItemRequest) : Prop :=
  ∀ request ∈ requests, ∃ item, request.item context = .ok item ∧
    ∀ name, request.typeName = some name → findType items name = some item

theorem Provided.mono {items : List RustItem} {context : EmitContext}
    {requests some : List ItemRequest} (h : Provided items context requests)
    (hsub : some ⊆ requests) :
    Provided items context some :=
  fun request hmem => h request (hsub hmem)

/-- An item is found under its name when no other item has it. -/
theorem findType_of_mem {items : List RustItem} {item : RustItem} {name : String}
    (hnodup : (items.filterMap RustItem.typeName).Nodup) (hmem : item ∈ items)
    (hname : item.typeName = some name) : findType items name = some item := by
  induction items with
  | nil => cases hmem
  | cons other items ih =>
    unfold findType
    rw [List.find?_cons]
    split
    · next hother =>
      have hother : other.typeName = some name := of_decide_eq_true hother
      rcases List.mem_cons.mp hmem with rfl | hmem
      · rfl
      · rw [List.filterMap_cons_some hother] at hnodup
        exact absurd (List.mem_filterMap.mpr ⟨item, hmem, hname⟩) (List.nodup_cons.mp hnodup).1
    · next hother =>
      rcases List.mem_cons.mp hmem with rfl | hmem
      · simp [hname] at hother
      · refine ih (hnodup.sublist ?_) hmem
        exact (List.sublist_cons_self other items).filterMap _

/-- Every request written in full is found, when the names are distinct. -/
theorem Provided.of_written {items written : List RustItem} {context : EmitContext}
    {requests : List ItemRequest}
    (hwritten : List.Forall₂ (fun request item => request.item context = .ok item) requests written)
    (hsub : written ⊆ items) (hnodup : (items.filterMap RustItem.typeName).Nodup) :
    Provided items context requests := by
  intro request hmem
  obtain ⟨item, hitem, hrequest⟩ := exists_of_mem_left hwritten hmem
  refine ⟨item, hrequest, fun name hname => ?_⟩
  refine findType_of_mem hnodup (hsub hitem) ?_
  rw [ItemRequest.typeName_of_item hrequest, hname]

/-- What is written has the names of the requests. -/
theorem typeName_written {context : EmitContext} {requests : List ItemRequest}
    {written : List RustItem}
    (h : List.Forall₂ (fun request item => request.item context = .ok item) requests written) :
    written.filterMap RustItem.typeName = requests.filterMap ItemRequest.typeName := by
  induction h with
  | nil => rfl
  | cons hitem _ ih => rw [List.filterMap_cons, List.filterMap_cons, ih,
      ItemRequest.typeName_of_item hitem]

/-! ## Projections -/

section Projections

variable {layouts : OwnedLayouts} {kind : String} {project : Item → Option (String × Item)}

namespace EmitterRule

variable {P : List ItemRequest → (TypeEmitter → Except GeneratorError TypeEmitter) → Prop}
  (rule : EmitterRule P)

include rule

/-- The projection of an item. -/
theorem emitProjection (item : Item) :
    P (((project item).toList.map Prod.snd).flatMap Item.requests)
      fun emitter => emitter.emitProjection layouts kind project item := by
  unfold TypeEmitter.emitProjection
  rcases project item with _ | ⟨name, projected⟩
  · exact rule.nothing
  · rw [show (((some (name, projected)).toList.map Prod.snd).flatMap Item.requests) =
      projected.requests from List.append_nil _]
    by_cases hname : (layouts.item name).isSome
    · simp only [hname, if_true]
      exact rule.failed _ _
    · simp only [hname]
      exact rule.emitItem projected

/-- The projections of items. -/
theorem emitProjections (items : List Item) :
    P (((items.filterMap project).map Prod.snd).flatMap Item.requests)
      fun emitter => emitter.emitProjections layouts kind project items := by
  induction items with
  | nil => exact rule.nothing
  | cons item items ih =>
    have hsplit : ((item :: items).filterMap project).map Prod.snd =
        (project item).toList.map Prod.snd ++ (items.filterMap project).map Prod.snd := by
      rcases hproject : project item with _ | projected
      · rw [List.filterMap_cons_none hproject]
        rfl
      · rw [List.filterMap_cons_some hproject]
        rfl
    rw [hsplit, List.flatMap_append]
    exact rule.andThen (rule.emitProjection item) ih

end EmitterRule

/-- The names of projections are new. -/
theorem TypeEmitter.emitProjections_fresh {items : List Item} {emitter emitter' : TypeEmitter}
    (h : emitter.emitProjections layouts kind project items = .ok emitter') :
    ∀ entry ∈ items.filterMap project, layouts.item entry.1 = none := by
  induction items generalizing emitter with
  | nil => simp
  | cons item items ih =>
    obtain ⟨mid, hitem, hitems⟩ := except_bind_eq_ok.mp h
    intro entry hmem
    obtain ⟨source, hsource, hproject⟩ := List.mem_filterMap.mp hmem
    rcases List.mem_cons.mp hsource with rfl | hsource
    · simp only [TypeEmitter.emitProjection, hproject] at hitem
      split at hitem
      · cases hitem
      · next hnone => exact Option.not_isSome_iff_eq_none.mp hnone
    · exact ih hitems entry (List.mem_filterMap.mpr ⟨source, hsource, hproject⟩)

end Projections

/-! ## The whole output -/

/-- The context in which the items of a schema are emitted. -/
def Schema.context (schema : Schema) : EmitContext := ⟨schema.namedTypes, []⟩

/-- Everything the generator sets out to write is there, and nothing else. -/
structure Schema.Written (schema : Schema) (items : List RustItem) : Prop where
  own : Provided items schema.context (schema.items.flatMap Item.requests)
  projected : Provided items (fromSchema schema).projectionContext
    (schema.projections.flatMap Item.requests)
  origin : ∃ written projected, items = written ++ projected ∧
    List.Forall₂ (fun request item => request.item schema.context = .ok item)
      (schema.items.flatMap Item.requests) written ∧
    List.Forall₂ (fun request item => request.item (fromSchema schema).projectionContext = .ok item)
      (schema.projections.flatMap Item.requests) projected

/-- The names of the projections are new. -/
def Schema.FreshProjections (schema : Schema) : Prop :=
  (∀ entry ∈ schema.items.filterMap (fromSchema schema).metadataItem,
    (fromSchema schema).item entry.1 = none) ∧
  ∀ entry ∈ schema.items.filterMap (fromSchema schema).segmentsItem,
    (fromSchema schema).item entry.1 = none

theorem helper_sublist (requests : List ItemRequest) :
    (requests.filterMap ItemRequest.helper).Sublist (requests.filterMap ItemRequest.typeName) := by
  induction requests with
  | nil => exact List.Sublist.slnil
  | cons request requests ih =>
    rcases request with ⟨name, value⟩ | ⟨name, target, modifier, hint⟩ | ⟨name, target⟩
    · exact ih
    · exact ih.cons name
    · exact ih.cons_cons name

/-- What the generator writes when the names are distinct. -/
theorem Schema.written_of_emitRustTypes {schema : Schema} {generated : Generated}
    (h : emitRustTypes schema = .ok generated)
    (hnames : schema.DistinctNames) :
    schema.Written generated.items ∧ schema.FreshProjections ∧
      generated.metadata = schema.items.filterMap (fromSchema schema).metadataImpl ∧
      generated.conversions = schema.items.filterMap (fromSchema schema).conversionImpl := by
  unfold emitRustTypes at h
  obtain ⟨first, hfirst, h⟩ := except_bind_eq_ok.mp h
  obtain ⟨second, hsecond, h⟩ := except_bind_eq_ok.mp h
  obtain ⟨third, hthird, h⟩ := except_bind_eq_ok.mp h
  cases h
  -- The names of the helpers are distinct, over the three passes together.
  have hnodup := List.Nodup.sublist (helper_sublist schema.requests) hnames
  rw [Schema.requests, List.filterMap_append] at hnodup
  obtain ⟨hownNodup, hprojectedNodup, hdisjoint⟩ := List.nodup_append.mp hnodup
  obtain ⟨written, hout, -, hhelpers, hwritten⟩ :=
    Emits.rule.emitItems schema.items _ first hfirst hownNodup (by simp)
  have hpasses := (Emits.rule.emitProjections schema.items).andThen
    (Emits.rule.emitProjections schema.items) _ third
    (except_bind_eq_ok.mpr ⟨second, hsecond, hthird⟩)
  rw [← List.flatMap_append] at hpasses
  obtain ⟨projected, hout', -, -, hprojected⟩ := hpasses hprojectedNodup (by
    intro name hname hmem
    rcases (hhelpers name).mp hmem with hold | hold
    · cases hold
    · exact hdisjoint name hold name hname rfl)
  have hitems : third.out = written ++ projected := by
    rw [hout']
    exact congrArg (· ++ projected) hout
  have htypes : (third.out.filterMap RustItem.typeName).Nodup := by
    rw [hitems, List.filterMap_append, typeName_written hwritten, typeName_written hprojected,
      ← List.filterMap_append]
    exact hnames
  refine ⟨⟨?_, ?_, written, projected, hitems, hwritten, hprojected⟩,
    ⟨TypeEmitter.emitProjections_fresh hsecond, TypeEmitter.emitProjections_fresh hthird⟩, rfl, rfl⟩
  · exact Provided.of_written hwritten (hitems ▸ List.subset_append_left ..) htypes
  · exact Provided.of_written hprojected (hitems ▸ List.subset_append_right ..) htypes

/-- What is written for a schema hides nothing unless a name it is asked for does. -/
theorem Schema.Written.hidesNothing {schema : Schema} {items : List RustItem}
    (h : schema.Written items) (hnames : schema.NoRuntimeNames) : HidesNothing items := by
  obtain ⟨-, -, written, projected, rfl, hwritten, hprojected⟩ := h
  intro name hname
  refine hnames name ?_
  rw [Schema.requests, List.filterMap_append, ← typeName_written hwritten,
    ← typeName_written hprojected, ← List.filterMap_append]
  exact hname

/-- The code for a schema; nothing where the generator fails. -/
def Schema.code (schema : Schema) : Generated :=
  match emitRustTypes schema with
  | .ok generated => generated
  | .error _ => ⟨[], [], []⟩

theorem Schema.emitRustTypes_code {schema : Schema} (h : (emitRustTypes schema).isOk = true) :
    emitRustTypes schema = .ok schema.code := by
  unfold Schema.code
  rcases hcode : emitRustTypes schema with error | generated
  · rw [hcode] at h
    cases h
  · rfl

end OncRpc
