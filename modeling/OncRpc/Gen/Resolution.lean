import OncRpc.Gen.ModuleNames
import OncRpc.Gen.ModuleSet

/-!
# Names that several modules declare

Where a module refers to a type or a constant that it declares itself, its own declaration is meant.
The emitter looks names up in tables over all modules, in which the last module to declare a name
counts, and it reports no name that two modules declare.  So the reference goes to the module's own
declaration exactly if no later module declares the name as well.
-/

namespace OncRpc

open Foundation OwnedLayouts

/-! ## References -/

/-- A name that a schema refers to. -/
inductive Reference where
  | type (name : String)
  | const (name : String)
  deriving DecidableEq

/-- The constant that a value refers to. -/
def ValueExpr.references : ValueExpr → List Reference
  | .number _ => []
  | .identifier name => [.const name]

/-- The constant that a bound refers to. -/
def DeclaratorModifier.references : DeclaratorModifier → List Reference
  | .fixedArray bound => bound.references
  | .variableArray bound => (bound.map ValueExpr.references).getD []
  | .optional => []

/-- The constant that a label refers to, if it is written as one. -/
def labelReferences (context : EmitContext) (discriminant : TypeSpec) (label : UnionCaseLabel) :
    List Reference :=
  match context.renderUnionLabel label discriminant with
  | .value value => value.references
  | .bool _ | .variant _ _ | .discriminant => []

mutual

/-- The names that a type specifier refers to. -/
def TypeSpec.references (context : EmitContext) (target : TypeSpec) : List Reference :=
  match target with
  | .identifier name => [.type name]
  | .enum body => body.variants.flatMap fun variant => variant.value.references
  | .struct body => body.references context
  | .union body => body.references context
  | _ => []
termination_by structural target

/-- The names that a structure refers to. -/
def StructBody.references (context : EmitContext) (body : StructBody) : List Reference :=
  match body with
  | ⟨declarations⟩ => declarationsReferences context declarations
termination_by structural body

/-- The names that a union refers to. -/
def UnionBody.references (context : EmitContext) (body : UnionBody) : List Reference :=
  match body with
  | ⟨discriminant, arms⟩ =>
    discriminant.references context ++ armsReferences context discriminant.typeSpec arms
termination_by structural body

/-- The names that a declaration refers to. -/
def Declaration.references (context : EmitContext) (declaration : Declaration) : List Reference :=
  match declaration with
  | ⟨target, declarator⟩ =>
    target.references context ++ (declarator.modifier.map DeclaratorModifier.references).getD []
termination_by structural declaration

/-- The names that declarations refer to. -/
def declarationsReferences (context : EmitContext) (declarations : List Declaration) :
    List Reference :=
  match declarations with
  | [] => []
  | declaration :: declarations =>
    declaration.references context ++ declarationsReferences context declarations
termination_by structural declarations

/-- The names that an arm of a union refers to. -/
def armReferences (context : EmitContext) (discriminant : TypeSpec) (arm : UnionArm) :
    List Reference :=
  match arm with
  | ⟨labels, declaration⟩ =>
    labels.flatMap (labelReferences context discriminant) ++ declaration.references context
termination_by structural arm

/-- The names that the arms of a union refer to. -/
def armsReferences (context : EmitContext) (discriminant : TypeSpec) (arms : List UnionArm) :
    List Reference :=
  match arms with
  | [] => []
  | arm :: arms =>
    armReferences context discriminant arm ++ armsReferences context discriminant arms
termination_by structural arms

end

/-- The names that an item refers to. -/
def Item.references (context : EmitContext) : Item → List Reference
  | .const decl => decl.value.references
  | .typedef decl => (Declaration.mk decl.target decl.declarator).references context
  | .struct _ body => body.references context
  | .enum _ body => (TypeSpec.enum body).references context
  | .union _ body => body.references context
  | .program decl =>
    decl.versions.flatMap fun version => version.procedures.flatMap fun procedure =>
    procedure.returnType.references context ++ procedure.argumentType.references context

/-- What the emitter knows about the types of a set of modules. -/
def LoadedSchemaSet.context (loaded : LoadedSchemaSet) : EmitContext :=
  ⟨buildNamedTypesForModules loaded.modules, []⟩

/-- The names that a module refers to. -/
def LoadedModule.references (module : LoadedModule) (loaded : LoadedSchemaSet) : List Reference :=
  module.schema.items.flatMap (Item.references loaded.context)

/-! ## Own declarations -/

/-- Two modules of a list have a property. -/
def HeldTwice (p : LoadedModule → Prop) (modules : List LoadedModule) : Prop :=
  ∃ first second, List.Sublist [first, second] modules ∧ p first ∧ p second

/-- References go to the module's own declarations.  A type or a constant that the module refers to
and declares is written by its own name, and is what the module declares in every table that a
layout decision looks into; so is every type of the module that may have projections.  A name that a
module refers to and does not declare makes the result an error if two modules declare it. -/
structure ResolvesOwn (loaded : LoadedSchemaSet) (result : Except GeneratorError GeneratedOutputs) :
    Prop where
  types : ∀ module ∈ loaded.modules, ∀ name, .type name ∈ module.references loaded →
    module.DeclaresType name → qualifyTypeName loaded module name = name ∧
      loaded.context.namedType name = module.schema.context.namedType name ∧
      (fromModules loaded.modules).item name = (fromSchema module.schema).item name
  projections : ∀ module ∈ loaded.modules, ∀ item ∈ module.schema.items, ∀ name,
    projectableName item = some name →
      (fromModules loaded.modules).item name = (fromSchema module.schema).item name
  consts : ∀ module ∈ loaded.modules, ∀ name, .const name ∈ module.references loaded →
    module.DeclaresConst name → qualifyConstName loaded module name = name ∧
      (fromModules loaded.modules).constant name = (fromSchema module.schema).constant name
  conflicts : ∀ module ∈ loaded.modules, ∀ name,
    (.type name ∈ module.references loaded ∧ ¬ module.DeclaresType name ∧
        HeldTwice (·.DeclaresType name) loaded.modules) ∨
      (.const name ∈ module.references loaded ∧ ¬ module.DeclaresConst name ∧
        HeldTwice (·.DeclaresConst name) loaded.modules) →
    ∃ e, result = .error e

/-- Names are clear.  The last module to declare a type or a constant that a module refers to and
declares has that module's name and the same declaration; it has the same declaration of every type
of the module that may have projections.  No two modules declare a name that a module refers to
without declaring it. -/
structure ClearNames (loaded : LoadedSchemaSet) : Prop where
  types : ∀ module ∈ loaded.modules, ∀ name, .type name ∈ module.references loaded →
    module.DeclaresType name → ∀ last, LastWith (·.DeclaresType name) loaded.modules last →
      last.moduleName = module.moduleName ∧
        (fromSchema last.schema).item name = (fromSchema module.schema).item name
  projections : ∀ module ∈ loaded.modules, ∀ item ∈ module.schema.items, ∀ name,
    projectableName item = some name → ∀ last, LastWith (·.DeclaresType name) loaded.modules last →
      (fromSchema last.schema).item name = (fromSchema module.schema).item name
  consts : ∀ module ∈ loaded.modules, ∀ name, .const name ∈ module.references loaded →
    module.DeclaresConst name → ∀ last, LastWith (·.DeclaresConst name) loaded.modules last →
      last.moduleName = module.moduleName ∧
        (fromSchema last.schema).constant name = (fromSchema module.schema).constant name
  conflicts : ∀ module ∈ loaded.modules, ∀ name,
    (.type name ∈ module.references loaded → ¬ module.DeclaresType name →
        ¬ HeldTwice (·.DeclaresType name) loaded.modules) ∧
      (.const name ∈ module.references loaded → ¬ module.DeclaresConst name →
        ¬ HeldTwice (·.DeclaresConst name) loaded.modules)

/-! ## Looking names up -/

section Lookup

variable {loaded : LoadedSchemaSet} {module last : LoadedModule} {name : String}

/-- The type of a name is that of the last module to declare it. -/
theorem item_fromModules (h : LastWith (·.DeclaresType name) loaded.modules last) :
    (fromModules loaded.modules).item name = (fromSchema last.schema).item name :=
  h.lookup_reverse_flatMap

/-- The constant of a name is that of the last module to declare it. -/
theorem constant_fromModules (h : LastWith (·.DeclaresConst name) loaded.modules last) :
    (fromModules loaded.modules).constant name = (fromSchema last.schema).constant name :=
  h.lookup_reverse_flatMap

/-- A statement about the last module to declare a type says the same of whichever it is. -/
theorem forall_lastWith_iff {p : LoadedModule → Prop} {P : LoadedModule → Prop}
    (h : LastWith p loaded.modules last) :
    (∀ other, LastWith p loaded.modules other → P other) ↔ P last := by
  refine ⟨fun hall => hall last h, fun hlast other hother => ?_⟩
  rwa [hother.unique h]

/-- A type that may have projections is declared. -/
theorem declaresType_of_projectableName {item : Item} (hitem : item ∈ module.schema.items)
    (hname : projectableName item = some name) : module.DeclaresType name := by
  refine List.mem_map.mpr ⟨(name, item), List.mem_filterMap.mpr ⟨item, hitem, ?_⟩, rfl⟩
  rcases item with decl | decl | ⟨other, body⟩ | ⟨other, body⟩ | ⟨other, body⟩ | decl <;>
    simp_all [projectableName, Item.typeName]

/-- A type that a module declares is its own exactly if the last module to declare it has the
module's name and the same declaration. -/
theorem ownType_iff (hmodule : module ∈ loaded.modules) (hname : module.DeclaresType name) :
    (qualifyTypeName loaded module name = name ∧
      loaded.context.namedType name = module.schema.context.namedType name ∧
      (fromModules loaded.modules).item name = (fromSchema module.schema).item name) ↔
    ∀ last, LastWith (·.DeclaresType name) loaded.modules last →
      last.moduleName = module.moduleName ∧
        (fromSchema last.schema).item name = (fromSchema module.schema).item name := by
  obtain ⟨last, hlast⟩ :=
    @LastWith.exists_of_mem _ (·.DeclaresType name) loaded.modules module hmodule hname
  rw [forall_lastWith_iff hlast, qualifyTypeName, qualifyName_eq_self, lookup_buildTypeOwners hlast,
    item_fromModules hlast]
  have hnamed : loaded.context.namedType name = (fromSchema last.schema).item name :=
    item_fromModules hlast
  have hown : module.schema.context.namedType name = (fromSchema module.schema).item name := rfl
  rw [hnamed, hown, and_self]
  simp

/-- A constant that a module declares is its own exactly if the last module to declare it has the
module's name and the same value. -/
theorem ownConst_iff (hmodule : module ∈ loaded.modules) (hname : module.DeclaresConst name) :
    (qualifyConstName loaded module name = name ∧
      (fromModules loaded.modules).constant name = (fromSchema module.schema).constant name) ↔
    ∀ last, LastWith (·.DeclaresConst name) loaded.modules last →
      last.moduleName = module.moduleName ∧
        (fromSchema last.schema).constant name = (fromSchema module.schema).constant name := by
  obtain ⟨last, hlast⟩ :=
    @LastWith.exists_of_mem _ (·.DeclaresConst name) loaded.modules module hmodule hname
  rw [forall_lastWith_iff hlast, qualifyConstName, qualifyName_eq_self,
    lookup_buildConstOwners hlast, constant_fromModules hlast]
  simp

end Lookup

/-- The references of a set of modules for which generation succeeds go to the modules' own
declarations exactly if the names are clear. -/
theorem crossModule_resolution (loaded : LoadedSchemaSet) (text : Generated → String)
    (emitRustStubsForModule : LoadedModule → LoadedSchemaSet → Bool → Bool →
      Except GeneratorError String)
    (options : GenerateOptions) (outputs : GeneratedOutputs)
    (hgenerate : generateRustModuleSet
      (fun module loaded => (emitRustTypesForModule module loaded).map text)
      emitRustStubsForModule loaded options = .ok outputs) :
    ResolvesOwn loaded (generateRustModuleSet
      (fun module loaded => (emitRustTypesForModule module loaded).map text)
      emitRustStubsForModule loaded options) ↔ ClearNames loaded := by
  rw [hgenerate]
  constructor
  · intro h
    refine ⟨?_, ?_, ?_, ?_⟩
    · intro module hmodule name href hname
      exact (ownType_iff hmodule hname).mp (h.types module hmodule name href hname)
    · intro module hmodule item hitem name hname last hlast
      rw [← item_fromModules hlast]
      exact h.projections module hmodule item hitem name hname
    · intro module hmodule name href hname
      exact (ownConst_iff hmodule hname).mp (h.consts module hmodule name href hname)
    · intro module hmodule name
      refine ⟨fun href hname htwice => ?_, fun href hname htwice => ?_⟩
      · obtain ⟨e, he⟩ := h.conflicts module hmodule name (.inl ⟨href, hname, htwice⟩)
        simp at he
      · obtain ⟨e, he⟩ := h.conflicts module hmodule name (.inr ⟨href, hname, htwice⟩)
        simp at he
  · intro h
    refine ⟨?_, ?_, ?_, ?_⟩
    · intro module hmodule name href hname
      exact (ownType_iff hmodule hname).mpr (h.types module hmodule name href hname)
    · intro module hmodule item hitem name hname
      obtain ⟨last, hlast⟩ := @LastWith.exists_of_mem _ (·.DeclaresType name) loaded.modules module
        hmodule (declaresType_of_projectableName hitem hname)
      rw [item_fromModules hlast]
      exact h.projections module hmodule item hitem name hname last hlast
    · intro module hmodule name href hname
      exact (ownConst_iff hmodule hname).mpr (h.consts module hmodule name href hname)
    · rintro module hmodule name (⟨href, hname, htwice⟩ | ⟨href, hname, htwice⟩)
      · exact absurd htwice ((h.conflicts module hmodule name).1 href hname)
      · exact absurd htwice ((h.conflicts module hmodule name).2 href hname)

/-- The last module with a property is the only one if no two modules have it. -/
theorem eq_of_not_heldTwice {p : LoadedModule → Prop} {modules : List LoadedModule}
    {module last : LoadedModule} (h : ¬ HeldTwice p modules) (hlast : LastWith p modules last)
    (hmodule : module ∈ modules) (hp : p module) : last = module := by
  obtain ⟨front, back, rfl, hplast, hback⟩ := hlast
  rcases List.mem_append.mp hmodule with hfront | hrest
  · refine absurd ⟨module, last, ?_, hp, hplast⟩ h
    exact (List.singleton_sublist.mpr hfront).append
      (List.singleton_sublist.mpr List.mem_cons_self)
  · rcases List.mem_cons.mp hrest with rfl | hlater
    · rfl
    · exact absurd hp (hback module hlater)

/-- Names are clear if no two modules declare the same. -/
theorem clearNames_of_once {loaded : LoadedSchemaSet}
    (htypes : ∀ name, ¬ HeldTwice (·.DeclaresType name) loaded.modules)
    (hconsts : ∀ name, ¬ HeldTwice (·.DeclaresConst name) loaded.modules) : ClearNames loaded := by
  refine ⟨?_, ?_, ?_, ?_⟩
  · intro module hmodule name _ hname last hlast
    rw [eq_of_not_heldTwice (htypes name) hlast hmodule hname]
    exact ⟨rfl, rfl⟩
  · intro module hmodule item hitem name hname last hlast
    rw [eq_of_not_heldTwice (htypes name) hlast hmodule
      (declaresType_of_projectableName hitem hname)]
  · intro module hmodule name _ hname last hlast
    rw [eq_of_not_heldTwice (hconsts name) hlast hmodule hname]
    exact ⟨rfl, rfl⟩
  · exact fun module hmodule name => ⟨fun _ _ => htypes name, fun _ _ => hconsts name⟩

/-- A text for the types of a module: their names. -/
def namesText (generated : Generated) : String :=
  "\n".intercalate (generated.items.filterMap RustItem.typeName)

/-- The module of a file with a structure that it refers to and a constant. -/
def baseModule : LoadedModule :=
  ⟨"b", ⟨true, ["b.x"]⟩, [], ⟨[.const ⟨"N", .number 4⟩, .struct "t" ⟨[⟨.hyper, ⟨"x", none⟩⟩]⟩,
    .struct "v" ⟨[⟨.identifier "t", ⟨"g", some (.fixedArray (.identifier "N"))⟩⟩]⟩]⟩⟩

/-- The module of a file that includes the first and refers to its structure. -/
def userModule : LoadedModule :=
  ⟨"a", ⟨true, ["a.x"]⟩, ["b"], ⟨[.struct "u" ⟨[⟨.identifier "t", ⟨"f", none⟩⟩]⟩]⟩⟩

/-- References go to the declarations of the only module that has any. -/
theorem crossModule_resolution_user :
    ∃ outputs, generateRustModuleSet
      (fun module loaded => (emitRustTypesForModule module loaded).map namesText) noStubs
      ⟨"a", [baseModule, userModule]⟩ ⟨none, true, true, true, true⟩ = .ok outputs ∧
    ResolvesOwn ⟨"a", [baseModule, userModule]⟩ (generateRustModuleSet
      (fun module loaded => (emitRustTypesForModule module loaded).map namesText) noStubs
      ⟨"a", [baseModule, userModule]⟩ ⟨none, true, true, true, true⟩) := by
  have hnames : (generateRustModuleSet
      (fun module loaded => (emitRustTypesForModule module loaded).map namesText) noStubs
      ⟨"a", [baseModule, userModule]⟩ ⟨none, true, true, true, true⟩).map
        (fun outputs => outputs.modules.map GeneratedModuleOutput.moduleName) = .ok ["b", "a"] := by
    decide +kernel
  obtain ⟨outputs, houtputs, -⟩ := map_ok_iff.mp hnames
  refine ⟨outputs, houtputs, (crossModule_resolution _ _ _ _ _ houtputs).mpr ?_⟩
  have htwice : ∀ p : LoadedModule → Prop, ¬ (p baseModule ∧ p userModule) →
      ¬ HeldTwice p [baseModule, userModule] := by
    rintro p hp ⟨first, second, hsublist, hfirst, hsecond⟩
    obtain ⟨rfl, hrest⟩ := List.cons.inj (hsublist.eq_of_length rfl)
    obtain ⟨rfl, -⟩ := List.cons.inj hrest
    exact hp ⟨hfirst, hsecond⟩
  have htypes : ∀ name ∈ baseModule.schema.namedTypes.map Prod.fst,
      ¬ userModule.DeclaresType name := by decide +kernel
  have hconsts : ∀ name ∈ baseModule.schema.constants.map Prod.fst,
      ¬ userModule.DeclaresConst name := by decide +kernel
  exact clearNames_of_once (fun name => htwice _ fun h => htypes name h.1 h.2)
    fun name => htwice _ fun h => hconsts name h.1 h.2

/-- The module of a file that includes the first and declares a structure of the same name. -/
def rivalModule : LoadedModule :=
  ⟨"a", ⟨true, ["a.x"]⟩, ["b"], ⟨[.struct "t" ⟨[⟨.int, ⟨"y", none⟩⟩]⟩]⟩⟩

/-- A reference of a module to its own structure goes to that of a later module. -/
theorem reference_redirected :
    qualifyTypeName ⟨"a", [baseModule, rivalModule]⟩ baseModule "t" = "crate::a::t" ∧
    ∃ outputs, generateRustModuleSet
      (fun module loaded => (emitRustTypesForModule module loaded).map namesText) noStubs
      ⟨"a", [baseModule, rivalModule]⟩ ⟨none, true, true, true, true⟩ = .ok outputs ∧
    ¬ ResolvesOwn ⟨"a", [baseModule, rivalModule]⟩ (generateRustModuleSet
      (fun module loaded => (emitRustTypesForModule module loaded).map namesText) noStubs
      ⟨"a", [baseModule, rivalModule]⟩ ⟨none, true, true, true, true⟩) := by
  have hqualified : qualifyTypeName ⟨"a", [baseModule, rivalModule]⟩ baseModule "t" =
      "crate::a::t" := by decide +kernel
  have hnames : (generateRustModuleSet
      (fun module loaded => (emitRustTypesForModule module loaded).map namesText) noStubs
      ⟨"a", [baseModule, rivalModule]⟩ ⟨none, true, true, true, true⟩).map
        (fun outputs => outputs.modules.map GeneratedModuleOutput.moduleName) = .ok ["b", "a"] := by
    decide +kernel
  obtain ⟨outputs, houtputs, -⟩ := map_ok_iff.mp hnames
  refine ⟨hqualified, outputs, houtputs, fun h => ?_⟩
  have hown := (h.types baseModule List.mem_cons_self "t" (by decide +kernel) (by decide +kernel)).1
  rw [hqualified] at hown
  exact absurd hown (by decide)

end OncRpc
