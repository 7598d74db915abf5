import OncRpc.Foundation.LastEntry
import OncRpc.Gen.Modules
import OncRpc.Gen.Output
import Mathlib.Data.List.Sort
import Mathlib.Data.String.Basic

/-!
# The types of a module among others

Each module of a set is generated by itself, but what the emitter knows is gathered from all of
them: the named types, the constants, and for each name the module that owns it.  Every gathering is
a map that is filled module by module, so that the last module to declare a name is the one that
counts.

The items hold names as the schema has them.  Where the output has the name of a declared type or of
a constant, it is written by `qualifyTypeName` or `qualifyConstName`.  So is the name of the type
inside an alias, which no module declares; the names of other inner types are written as they are.
-/

namespace OncRpc

open Foundation

/-! ## What is gathered -/

/-- The named types of the modules. -/
def buildNamedTypesForModules (modules : List LoadedModule) : List (String × Item) :=
  modules.flatMap fun module => module.schema.namedTypes

/-- The module that owns each type. -/
def buildTypeOwners (modules : List LoadedModule) : List (String × String) :=
  modules.flatMap fun module =>
    module.schema.namedTypes.map fun (name, _) => (name, module.moduleName)

/-- The module that owns each constant. -/
def buildConstOwners (modules : List LoadedModule) : List (String × String) :=
  modules.flatMap fun module =>
    module.schema.constants.map fun (name, _) => (name, module.moduleName)

/-- The layouts of the modules. -/
def OwnedLayouts.fromModules (modules : List LoadedModule) : OwnedLayouts where
  items := modules.flatMap fun module => module.schema.namedTypes
  constants := modules.flatMap fun module => module.schema.constants

/-! ## How names are written -/

/-- A name as it is written in a module: with the path of its owner, if that is another module. -/
def qualifyName (owners : List (String × String)) (current name : String) : String :=
  match owners.reverse.lookup name with
  | some owner => if owner ≠ current then "crate::" ++ owner ++ "::" ++ name else name
  | none => name

/-- The name of a type as it is written in a module. -/
def qualifyTypeName (loaded : LoadedSchemaSet) (module : LoadedModule) (name : String) : String :=
  qualifyName (buildTypeOwners loaded.modules) module.moduleName name

/-- The name of a constant as it is written in a module. -/
def qualifyConstName (loaded : LoadedSchemaSet) (module : LoadedModule) (name : String) : String :=
  qualifyName (buildConstOwners loaded.modules) module.moduleName name

/-! ## Generation -/

/-- Check that no projection of these types has the name of a type. -/
def checkProjectionNames (layouts : OwnedLayouts) (kind : String)
    (projectionName : String → Option String) : List String → Except GeneratorError Unit
  | [] => .ok ()
  | name :: names =>
    match projectionName name with
    | none => checkProjectionNames layouts kind projectionName names
    | some projected =>
      if (layouts.item projected).isSome then
        .error (.unsupportedConstruct
          ("generated " ++ kind ++ " name collides with IDL type: " ++ projected))
      else checkProjectionNames layouts kind projectionName names

/-- The code for a schema, from what the emitter knows and the types whose projections are checked
first. -/
def emitTypesIn (context : EmitContext) (layouts : OwnedLayouts) (checked : List String)
    (schema : Schema) : Except GeneratorError Generated := do
  let emitter : TypeEmitter := ⟨context, [], []⟩
  let emitter ← emitter.emitItems schema.items
  checkProjectionNames layouts "metadata" layouts.metadataName checked
  checkProjectionNames layouts "segments" layouts.segmentsName checked
  let emitter := { emitter with context := layouts.projectionContext }
  let emitter ← emitter.emitProjections layouts "metadata" layouts.metadataItem schema.items
  let emitter ← emitter.emitProjections layouts "segments" layouts.segmentsItem schema.items
  return {
    items := emitter.out
    metadata := schema.items.filterMap layouts.metadataImpl
    conversions := schema.items.filterMap layouts.conversionImpl }

/-- The code for a module of a set. -/
def emitRustTypesForModule (module : LoadedModule) (loaded : LoadedSchemaSet) :
    Except GeneratorError Generated :=
  emitTypesIn ⟨buildNamedTypesForModules loaded.modules, []⟩ (.fromModules loaded.modules)
    (((buildTypeOwners loaded.modules).map Prod.fst).insertionSort (· ≤ ·)) module.schema

/-- The module declares a type of that name. -/
def LoadedModule.DeclaresType (module : LoadedModule) (name : String) : Prop :=
  name ∈ module.schema.namedTypes.map Prod.fst

instance (module : LoadedModule) (name : String) : Decidable (module.DeclaresType name) :=
  inferInstanceAs (Decidable (name ∈ module.schema.namedTypes.map Prod.fst))

/-- The module declares a constant of that name. -/
def LoadedModule.DeclaresConst (module : LoadedModule) (name : String) : Prop :=
  name ∈ module.schema.constants.map Prod.fst

instance (module : LoadedModule) (name : String) : Decidable (module.DeclaresConst name) :=
  inferInstanceAs (Decidable (name ∈ module.schema.constants.map Prod.fst))

/-- A name is written without a path exactly if it has no owner or is owned by the module. -/
theorem qualifyName_eq_self {owners : List (String × String)} {current name : String} :
    qualifyName owners current name = name ↔
      owners.reverse.lookup name = none ∨ owners.reverse.lookup name = some current := by
  unfold qualifyName
  rcases howner : owners.reverse.lookup name with _ | owner
  · simp
  dsimp only
  split
  · rename_i hne
    refine iff_of_false (fun heq => ?_) (by simpa using hne)
    have hlength := congrArg String.length heq
    simp only [String.length_append] at hlength
    have hcrate : "crate::".length = 7 := rfl
    omega
  · rename_i heq
    simpa using heq

/-- A type is owned by the last module that declares it. -/
theorem lookup_buildTypeOwners {modules : List LoadedModule} {module : LoadedModule} {name : String}
    (h : LastWith (·.DeclaresType name) modules module) :
    (buildTypeOwners modules).reverse.lookup name = some module.moduleName :=
  h.lookup_reverse_owner LoadedModule.moduleName

/-- A constant is owned by the last module that declares it. -/
theorem lookup_buildConstOwners {modules : List LoadedModule} {module : LoadedModule}
    {name : String} (h : LastWith (·.DeclaresConst name) modules module) :
    (buildConstOwners modules).reverse.lookup name = some module.moduleName :=
  h.lookup_reverse_owner LoadedModule.moduleName

end OncRpc
