import OncRpc.Gen.ModuleSet

/-!
# Types that take the name of others

A structure, enumeration or union inside another type gets a name made from those of its
surroundings.  The emitter remembers the names it has written types under and writes no second type
of the same name, whatever the second is made of.  So a type that comes later can find another in
its place.  Aliases are always written.
-/

namespace OncRpc

open Foundation OwnedLayouts

/-! ## What the emitter writes, whatever the names -/

/-- What a step of the emitter adds, whatever the names: every alias, and types under names that are
not remembered. -/
def Extends (requests : List ItemRequest) (step : TypeEmitter → Except GeneratorError TypeEmitter) :
    Prop :=
  ∀ emitter emitter', step emitter = .ok emitter' →
    ∃ new, emitter'.out = emitter.out ++ new ∧
      emitter.emittedHelpers ⊆ emitter'.emittedHelpers ∧
      (∀ item ∈ new, ∀ name, item.typeName = some name →
        name ∉ emitter.emittedHelpers ∨ name ∈ requests.filterMap ItemRequest.aliasName) ∧
      ∀ name ∈ requests.filterMap ItemRequest.aliasName, ∃ type, .typeAlias name type ∈ new

namespace Extends

variable {requests more : List ItemRequest}
  {step next : TypeEmitter → Except GeneratorError TypeEmitter}

theorem nothing : Extends [] .ok := by
  intro emitter emitter' hstep
  obtain rfl := Except.ok.inj hstep
  exact ⟨[], by simp, fun _ hname => hname, by simp, by simp⟩

/-- One step after the other. -/
theorem andThen (h : Extends requests step) (h' : Extends more next) :
    Extends (requests ++ more) (fun emitter => step emitter >>= next) := by
  intro emitter emitter' hstep
  obtain ⟨mid, hmid, hnext⟩ := except_bind_eq_ok.mp hstep
  obtain ⟨new, hout, hnames, hfresh, halias⟩ := h emitter mid hmid
  obtain ⟨new', hout', hnames', hfresh', halias'⟩ := h' mid emitter' hnext
  refine ⟨new ++ new', ?_, fun name hname => hnames' (hnames hname), ?_, ?_⟩
  · rw [hout', hout, List.append_assoc]
  · intro item hitem name hname
    rw [List.filterMap_append, List.mem_append]
    rcases List.mem_append.mp hitem with hitem | hitem
    · rcases hfresh item hitem name hname with hfresh | halias
      · exact .inl hfresh
      · exact .inr (.inl halias)
    · rcases hfresh' item hitem name hname with hfresh | halias
      · exact .inl fun hold => hfresh (hnames hold)
      · exact .inr (.inr halias)
  · intro name hname
    rw [List.filterMap_append, List.mem_append] at hname
    rcases hname with hname | hname
    · obtain ⟨type, htype⟩ := halias name hname
      exact ⟨type, List.mem_append_left _ htype⟩
    · obtain ⟨type, htype⟩ := halias' name hname
      exact ⟨type, List.mem_append_right _ htype⟩

/-- Writing one item that is not remembered. -/
theorem push {request : ItemRequest} (hhelper : request.helper = none) :
    Extends [request] fun emitter => do
      let item ← request.item emitter.context
      return emitter.push item := by
  intro emitter emitter' hstep
  obtain ⟨item, hitem, hpush⟩ := except_bind_eq_ok.mp hstep
  obtain rfl := Except.ok.inj hpush
  refine ⟨[item], rfl, fun _ hname => hname, ?_, ?_⟩
  · intro written hwritten name hname
    obtain rfl := List.mem_singleton.mp hwritten
    rw [ItemRequest.typeName_of_item hitem] at hname
    rcases request with ⟨other, value⟩ | ⟨other, target, modifier, hint⟩ | ⟨other, target⟩
    · simp [ItemRequest.typeName] at hname
    · obtain rfl := Option.some.inj hname
      exact .inr (by simp [ItemRequest.aliasName])
    · simp [ItemRequest.helper] at hhelper
  · intro name hname
    rcases request with ⟨other, value⟩ | ⟨other, target, modifier, hint⟩ | ⟨other, target⟩
    · simp [ItemRequest.aliasName] at hname
    · obtain ⟨type, -, heq⟩ := except_bind_eq_ok.mp hitem
      obtain rfl := Except.ok.inj heq
      obtain rfl : name = other := by simpa [ItemRequest.aliasName] using hname
      exact ⟨type, List.mem_singleton.mpr rfl⟩
    · simp [ItemRequest.helper] at hhelper

/-- Writing an item that is remembered, after those it needs. -/
theorem remember (name : String) (target : TypeSpec) (h : Extends requests step)
    (halias : requests.filterMap ItemRequest.aliasName = []) :
    Extends (requests ++ [.inline name target]) fun emitter =>
      if name ∈ emitter.emittedHelpers then .ok emitter
      else do
        let emitter ← step (emitter.remember name)
        let item ← emitter.context.inlineItem name target
        return emitter.push item := by
  have hnone : (requests ++ [ItemRequest.inline name target]).filterMap ItemRequest.aliasName =
      [] := by
    rw [List.filterMap_append, halias]
    rfl
  intro emitter emitter' hstep
  rw [hnone]
  by_cases hname : name ∈ emitter.emittedHelpers
  · simp only [if_pos hname, Except.ok.injEq] at hstep
    obtain rfl := hstep
    exact ⟨[], by simp, fun _ hold => hold, by simp, by simp⟩
  simp only [if_neg hname] at hstep
  obtain ⟨mid, hmid, hrest⟩ := except_bind_eq_ok.mp hstep
  obtain ⟨item, hitem, hpush⟩ := except_bind_eq_ok.mp hrest
  obtain rfl := Except.ok.inj hpush
  obtain ⟨new, hout, hnames, hfresh, -⟩ := h _ mid hmid
  refine ⟨new ++ [item], ?_, ?_, ?_, by simp⟩
  · rw [TypeEmitter.push, hout, ← List.append_assoc]
    rfl
  · intro other hold
    exact hnames (List.mem_cons_of_mem _ hold)
  · intro written hwritten other hother
    refine .inl ?_
    rcases List.mem_append.mp hwritten with hwritten | hwritten
    · rcases hfresh written hwritten other hother with hfresh | halias'
      · exact fun hold => hfresh (List.mem_cons_of_mem _ hold)
      · simp [halias] at halias'
    · obtain rfl := List.mem_singleton.mp hwritten
      have hrequest : (ItemRequest.inline name target).item mid.context = .ok written := hitem
      rw [ItemRequest.typeName_of_item hrequest] at hother
      obtain rfl := Option.some.inj hother
      exact hname

/-- What a step adds is kept by the ways in which steps are put together. -/
theorem rule : EmitterRule Extends where
  nothing := nothing
  failed _ _ _ _ hstep := by simp at hstep
  andThen := andThen
  push := push
  remember name target := remember name target

end Extends

/-! ## When every type keeps its name -/

/-- The requests for the types a schema declares and for those inside them. -/
def Schema.ownRequests (schema : Schema) : List ItemRequest := schema.items.flatMap Item.requests

/-- The requests for the projections of a schema. -/
def Schema.projectionRequests (schema : Schema) (layouts : OwnedLayouts) : List ItemRequest :=
  ((schema.items.filterMap layouts.metadataItem).map Prod.snd).flatMap Item.requests ++
    ((schema.items.filterMap layouts.segmentsItem).map Prod.snd).flatMap Item.requests

/-- The name of the type inside an alias.  The alias refers to it as to a declared type. -/
def TypedefDecl.helperName (decl : TypedefDecl) : Option String :=
  match decl.target, decl.declarator.modifier with
  | .enum _, some _ | .struct _, some _ | .union _, some _ =>
    some (hintFor decl.declarator.name "value")
  | _, _ => none

/-- The name of the type inside an item that is an alias. -/
def Item.helperName : Item → Option String
  | .typedef decl => decl.helperName
  | .const _ | .struct _ _ | .enum _ _ | .union _ _ | .program _ => none

/-- References to the module's type of that name are looked up among the declared types of all
modules: the module declares it, or it is inside an alias. -/
def LoadedModule.LooksUp (module : LoadedModule) (name : String) : Prop :=
  module.DeclaresType name ∨ name ∈ module.schema.items.filterMap Item.helperName

instance (module : LoadedModule) (name : String) : Decidable (module.LooksUp name) :=
  inferInstanceAs (Decidable (_ ∨ _))

/-- The name of the structure inside the alias `t` of module `a` is written as that of a structure
of module `b`, if `b` declares one of the name. -/
example : qualifyTypeName
    ⟨"a", [⟨"b", ⟨true, ["b.x"]⟩, [], ⟨[.struct "t_value" ⟨[⟨.int, ⟨"q", none⟩⟩]⟩]⟩⟩]⟩
    ⟨"a", ⟨true, ["a.x"]⟩, ["b"], ⟨[.typedef ⟨.struct ⟨[⟨.hyper, ⟨"z", none⟩⟩]⟩,
      ⟨"t", some (.fixedArray (.number 5))⟩⟩]⟩⟩ "t_value" = "crate::b::t_value" := by decide +kernel

end OncRpc
