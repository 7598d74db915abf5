import OncRpc.Gen.Modules
import OncRpc.Runtime.Error

/-!
# The names of modules

The name of a module is made from the name of its file: the directory and the extension are dropped,
letters are made small, and everything else becomes an underscore.  Files that differ in what is
dropped get the same name.  The root may be given another name; it is then found among the modules
by its old name.

A dependency is named by the path that an include line leads to, a module by the canonical path of
its file.

The texts of types and stubs are left to two functions here.  What is said of names holds for any.
-/

namespace OncRpc

open Foundation Relation

/-- What to generate. -/
structure GenerateOptions where
  moduleName : Option String
  emitTypes : Bool
  emitStubs : Bool
  emitClient : Bool
  emitServer : Bool

/-- What is generated for a module. -/
structure GeneratedModuleOutput where
  moduleName : String
  types : Option String
  stubs : Option String

/-- What is generated. -/
structure GeneratedOutputs where
  rootModule : String
  modules : List GeneratedModuleOutput

/-- An output of nothing but white space is none. -/
def emptyIsNone (output : String) : Option String :=
  if trim output.toList = [] then none else some output

/-- The name that a renamed root gives to a module. -/
def renamed (oldRootName newRootName name : String) : String :=
  if name = oldRootName then newRootName else name

/-- Rename the root: every module and every dependency of its name. -/
def renameRootModule (loaded : LoadedSchemaSet) (newRootName : String) : LoadedSchemaSet where
  rootModule := newRootName
  modules := loaded.modules.map fun module =>
    { module with
      moduleName := renamed loaded.rootModule newRootName module.moduleName
      dependencies := module.dependencies.map (renamed loaded.rootModule newRootName) }

section Generate

variable (emitRustTypesForModule : LoadedModule → LoadedSchemaSet → Except GeneratorError String)
  (emitRustStubsForModule : LoadedModule → LoadedSchemaSet → Bool → Bool →
    Except GeneratorError String)

/-- The types of a module. -/
def moduleTypes (loaded : LoadedSchemaSet) (options : GenerateOptions) (module : LoadedModule) :
    Except GeneratorError (Option String) :=
  if options.emitTypes then (emitRustTypesForModule module loaded).map emptyIsNone else .ok none

/-- The stubs of a module, if it has the name of the root. -/
def moduleStubs (loaded : LoadedSchemaSet) (options : GenerateOptions) (module : LoadedModule) :
    Except GeneratorError (Option String) :=
  if options.emitStubs ∧ module.moduleName = loaded.rootModule then
    (emitRustStubsForModule module loaded options.emitClient options.emitServer).map emptyIsNone
  else .ok none

/-- The outputs of a list of modules. -/
def generateModules (loaded : LoadedSchemaSet) (options : GenerateOptions) :
    List LoadedModule → Except GeneratorError (List GeneratedModuleOutput)
  | [] => .ok []
  | module :: modules => do
    let types ← moduleTypes emitRustTypesForModule loaded options module
    let stubs ← moduleStubs emitRustStubsForModule loaded options module
    let outputs ← generateModules loaded options modules
    return if types.isSome || stubs.isSome then ⟨module.moduleName, types, stubs⟩ :: outputs
      else outputs

/-- The outputs of the modules that have been loaded. -/
def generateRustModuleSet (loaded : LoadedSchemaSet) (options : GenerateOptions) :
    Except GeneratorError GeneratedOutputs := do
  let modules ← generateModules emitRustTypesForModule emitRustStubsForModule loaded options
    loaded.modules
  return ⟨loaded.rootModule, modules⟩

/-- The modules, with the name that the root is given. -/
def namedModules (loaded : LoadedSchemaSet) (options : GenerateOptions) : LoadedSchemaSet :=
  match options.moduleName with
  | none => loaded
  | some name => renameRootModule loaded (sanitizeModuleName name)

/-- Load a file and what it includes, and generate the outputs. -/
def generateFromXFileWithOptions (fs : FileSystem) (load : LoadOptions) (options : GenerateOptions)
    (fuel : ℕ) (path : Path) : Load GeneratedOutputs :=
  match loadModuleSetFromXFileWithOptions fs load fuel path with
  | none => none
  | some (.error e) => some (.error e)
  | some (.ok loaded) =>
    some (generateRustModuleSet emitRustTypesForModule emitRustStubsForModule
      (namedModules loaded options) options)

/-- The files that are written, in order. -/
def writtenFiles (outputs : List GeneratedModuleOutput) : List String :=
  outputs.flatMap fun output =>
    (output.types.map fun _ => output.moduleName ++ ".types.rs").toList ++
      (output.stubs.map fun _ => output.moduleName ++ ".stubs.rs").toList

/-! ## Sound names -/

/-- Files that are distinct have modules of distinct names, no written file is written again, every
dependency is the name of the module of the included file, and only the root has stubs. -/
structure SoundNames (fs : FileSystem) (load : LoadOptions) (options : GenerateOptions)
    (root : Path) (loaded : LoadedSchemaSet) (outputs : GeneratedOutputs) : Prop where
  distinct : ∀ module ∈ loaded.modules, ∀ other ∈ loaded.modules,
    module.moduleName = other.moduleName → module.path = other.path
  files : (writtenFiles outputs.modules).Nodup
  dependencies : ∀ module ∈ loaded.modules, ∀ source, fs.readToString module.path = .ok source →
    List.Forall₂ (fun included name => ∃ includePath, ∃ other ∈ loaded.modules,
      resolveInclude fs load module.path included = some includePath ∧
      fs.canonicalize includePath = .ok other.path ∧ name = other.moduleName)
      (extractIncludes source) module.dependencies
  stubs : ∀ module ∈ loaded.modules, ∀ text,
    moduleStubs emitRustStubsForModule loaded options module = .ok (some text) → module.path = root

end Generate

/-- The files have names that stay apart: no two of them make the same name, none but the root makes
the name that the root is given, and every include line names its file by a path that makes the name
of the file. -/
structure NamesApart (fs : FileSystem) (load : LoadOptions) (options : GenerateOptions)
    (root : Path) : Prop where
  stems : ∀ file other, ReflTransGen (Includes fs load) root file →
    ReflTransGen (Includes fs load) root other →
    moduleNameForPath file none = moduleNameForPath other none → file = other
  given : ∀ name, options.moduleName = some name → ∀ file,
    ReflTransGen (Includes fs load) root file → file ≠ root →
    moduleNameForPath file none ≠ sanitizeModuleName name
  links : ∀ file source included includePath target, ReflTransGen (Includes fs load) root file →
    fs.readToString file = .ok source → included ∈ extractIncludes source →
    resolveInclude fs load file included = some includePath →
    fs.canonicalize includePath = .ok target →
    moduleNameForPath includePath none = moduleNameForPath target none ∨
      target = root ∧
        options.moduleName.map sanitizeModuleName = some (moduleNameForPath includePath none)

/-- The name that a module has in the end. -/
def givenName (options : GenerateOptions) (rootName name : String) : String :=
  match options.moduleName with
  | none => name
  | some given => renamed rootName (sanitizeModuleName given) name

theorem namedModules_eq (loaded : LoadedSchemaSet) (options : GenerateOptions) :
    namedModules loaded options = ⟨givenName options loaded.rootModule loaded.rootModule,
      loaded.modules.map fun module =>
        { module with
          moduleName := givenName options loaded.rootModule module.moduleName
          dependencies := module.dependencies.map (givenName options loaded.rootModule) }⟩ := by
  unfold namedModules givenName
  split
  · simp
  · simp [renameRootModule, renamed]

/-- The root has the name that it is given. -/
theorem givenName_root {options : GenerateOptions} {given : String}
    (h : options.moduleName = some given) (rootName : String) :
    givenName options rootName rootName = sanitizeModuleName given := by
  simp only [givenName, h, renamed, if_true]

/-- A file that makes the name the root is given keeps it. -/
theorem givenName_given {options : GenerateOptions} {given : String}
    (h : options.moduleName = some given) (rootName : String) :
    givenName options rootName (sanitizeModuleName given) = sanitizeModuleName given := by
  simp only [givenName, h, renamed, ite_self]

/-- Names are given as before, but for that of the root. -/
theorem givenName_eq_iff (options : GenerateOptions) (rootName name other : String) :
    givenName options rootName name = givenName options rootName other ↔
      name = other ∨ ∃ given, options.moduleName = some given ∧
        ((name = rootName ∧ other = sanitizeModuleName given) ∨
          (other = rootName ∧ name = sanitizeModuleName given)) := by
  rcases hoption : options.moduleName with _ | given
  · simp [givenName, hoption]
  simp only [givenName, hoption, renamed, Option.some.injEq, exists_eq_left']
  by_cases hname : name = rootName <;> by_cases hother : other = rootName
  · simp [hname, hother]
  · rw [if_pos hname, if_neg hother]
    grind
  · rw [if_neg hname, if_pos hother]
    grind
  · rw [if_neg hname, if_neg hother]
    grind

/-! ## The files that are written -/

section Written

variable {emitRustTypesForModule : LoadedModule → LoadedSchemaSet → Except GeneratorError String}
  {emitRustStubsForModule : LoadedModule → LoadedSchemaSet → Bool → Bool →
    Except GeneratorError String} {loaded : LoadedSchemaSet} {options : GenerateOptions}

/-- The outputs are those of some of the modules, in order. -/
theorem sublist_generateModules {modules : List LoadedModule} {outputs : List GeneratedModuleOutput}
    (h : generateModules emitRustTypesForModule emitRustStubsForModule loaded options modules =
      .ok outputs) :
    List.Sublist (outputs.map GeneratedModuleOutput.moduleName)
      (modules.map LoadedModule.moduleName) := by
  induction modules generalizing outputs with
  | nil =>
    obtain rfl : [] = outputs := by simpa [generateModules] using h
    exact .slnil
  | cons module modules ih =>
    rw [generateModules] at h
    obtain ⟨types, -, h⟩ := except_bind_eq_ok.mp h
    obtain ⟨stubs, -, h⟩ := except_bind_eq_ok.mp h
    obtain ⟨more, hmore, h⟩ := except_bind_eq_ok.mp h
    obtain rfl := Except.ok.inj h
    rw [List.map_cons]
    split
    · exact (ih hmore).cons_cons _
    · exact (ih hmore).cons _

/-- Texts that end in as many characters agree before them and in them. -/
theorem append_inj_of_length {a b c d : String} (h : a ++ c = b ++ d)
    (hlength : c.toList.length = d.toList.length) : a = b ∧ c = d := by
  have hlists : a.toList ++ c.toList = b.toList ++ d.toList := by
    rw [← String.toList_append, ← String.toList_append, h]
  obtain ⟨hfront, hback⟩ := List.append_inj' hlists hlength
  exact ⟨String.toList_injective hfront, String.toList_injective hback⟩

/-- Modules of distinct names are written to distinct files. -/
theorem nodup_writtenFiles {outputs : List GeneratedModuleOutput}
    (h : (outputs.map GeneratedModuleOutput.moduleName).Nodup) : (writtenFiles outputs).Nodup := by
  have hmem : ∀ (output : GeneratedModuleOutput) (file : String),
      file ∈ (output.types.map fun _ => output.moduleName ++ ".types.rs").toList ++
        (output.stubs.map fun _ => output.moduleName ++ ".stubs.rs").toList →
      file = output.moduleName ++ ".types.rs" ∨ file = output.moduleName ++ ".stubs.rs" := by
    intro output file hfile
    rcases List.mem_append.mp hfile with hfile | hfile
    · obtain ⟨_, -, rfl⟩ := Option.map_eq_some_iff.mp (Option.mem_toList.mp hfile)
      exact .inl rfl
    · obtain ⟨_, -, rfl⟩ := Option.map_eq_some_iff.mp (Option.mem_toList.mp hfile)
      exact .inr rfl
  refine List.nodup_flatMap.mpr ⟨fun output _ => ?_, ?_⟩
  · have hne : output.moduleName ++ ".types.rs" ≠ output.moduleName ++ ".stubs.rs" := fun heq =>
      absurd (append_inj_of_length heq (by decide)).2 (by decide)
    rcases output.types with _ | types <;> rcases output.stubs with _ | stubs <;> simp [hne]
  · refine (List.pairwise_map.mp h).imp ?_
    intro first second hne file hfirst hsecond
    have hname : ∀ {c d : String}, first.moduleName ++ c = second.moduleName ++ d →
        c.toList.length = d.toList.length → False := fun heq hlength =>
      hne (append_inj_of_length heq hlength).1
    rcases hmem _ _ hfirst with rfl | rfl <;> rcases hmem _ _ hsecond with heq | heq <;>
      exact hname heq (by decide)

end Written

/-! ## When names are sound -/

section Sound

variable {fs : FileSystem} {load : LoadOptions} {options : GenerateOptions} {root path : Path}
  {fuel : ℕ} {loaded : LoadedSchemaSet}

/-- A module of the files that the root leads to, with the name and the dependencies that it has in
the end. -/
structure FinalModule (fs : FileSystem) (load : LoadOptions) (options : GenerateOptions)
    (root : Path) (module : LoadedModule) : Prop where
  reached : ReflTransGen (Includes fs load) root module.path
  name : module.moduleName =
    givenName options (moduleNameForPath root none) (moduleNameForPath module.path none)
  dependencies : ∃ source, fs.readToString module.path = .ok source ∧
    List.Forall₂ (fun included name => ∃ includePath target,
      resolveInclude fs load module.path included = some includePath ∧
      fs.canonicalize includePath = .ok target ∧
      name = givenName options (moduleNameForPath root none) (moduleNameForPath includePath none))
      (extractIncludes source) module.dependencies

/-- What a load gives: the root's name, and one module for each file that the root leads to. -/
structure FinalModules (fs : FileSystem) (load : LoadOptions) (options : GenerateOptions)
    (root : Path) (loaded : LoadedSchemaSet) : Prop where
  rootModule : loaded.rootModule =
    givenName options (moduleNameForPath root none) (moduleNameForPath root none)
  module : ∀ module ∈ loaded.modules, FinalModule fs load options root module
  reached : ∀ file, ReflTransGen (Includes fs load) root file →
    ∃ module ∈ loaded.modules, module.path = file
  nodup : (loaded.modules.map LoadedModule.path).Nodup

/-- A load gives the final modules once the root has been renamed. -/
theorem finalModules_of_load
    (hcanonical : ∀ p q, fs.canonicalize p = .ok q → fs.canonicalize q = .ok q)
    (hload : loadModuleSetFromXFileWithOptions fs load fuel path = some (.ok loaded))
    (hroot : RootFile fs path root) :
    FinalModules fs load options root (namedModules loaded options) := by
  obtain ⟨rootPath, hpath, hrootPath⟩ := hroot
  have hname : loaded.rootModule = moduleNameForPath root none := by
    obtain ⟨rootPath', final, hpath', -, rfl⟩ := loadModuleSetFromXFileWithOptions_ok.mp hload
    obtain rfl : rootPath = rootPath' := Except.ok.inj (hpath.symm.trans hpath')
    obtain rfl : rootPath = root := Except.ok.inj ((hcanonical _ _ hpath).symm.trans hrootPath)
    rfl
  obtain ⟨root', final, ⟨rootPath', hpath', hrootPath'⟩, hwalk, hmodules⟩ := walk_of_load hload
  obtain ⟨hreach, hnodup, -⟩ := hwalk.complete
  rw [Loading.search, ← hmodules] at hreach hnodup
  obtain rfl : rootPath = rootPath' := Except.ok.inj (hpath.symm.trans hpath')
  obtain rfl : root = root' := Except.ok.inj (hrootPath.symm.trans hrootPath')
  rw [namedModules_eq, hname]
  refine ⟨rfl, fun module hmodule => ?_, fun file hfile => ?_, ?_⟩
  · obtain ⟨before, hbefore, rfl⟩ := List.mem_map.mp hmodule
    obtain ⟨hbeforeName, source, hread, -, hdependencies⟩ := moduleOf_of_load hload before hbefore
    have hmem : before.path ∈ loaded.modules.map LoadedModule.path := List.mem_map_of_mem hbefore
    refine ⟨(hreach _).mp hmem, by rw [hbeforeName], source, hread, ?_⟩
    refine List.forall₂_map_right_iff.mpr (hdependencies.imp ?_)
    rintro included name ⟨includePath, target, hresolve, htarget, rfl⟩
    exact ⟨includePath, target, hresolve, htarget, rfl⟩
  · obtain ⟨module, hmodule, rfl⟩ := List.mem_map.mp ((hreach file).mpr hfile)
    exact ⟨_, List.mem_map_of_mem hmodule, rfl⟩
  · simpa [List.map_map, Function.comp_def] using hnodup

/-- Modules of the same name are the same if names stay apart. -/
theorem NamesApart.path_eq (h : NamesApart fs load options root) {module other : LoadedModule}
    (hmodule : FinalModule fs load options root module)
    (hother : FinalModule fs load options root other)
    (heq : module.moduleName = other.moduleName) : module.path = other.path := by
  rw [hmodule.name, hother.name, givenName_eq_iff] at heq
  rcases heq with heq | ⟨given, hgiven, ⟨hleft, hright⟩ | ⟨hright, hleft⟩⟩
  · exact h.stems _ _ hmodule.reached hother.reached heq
  · rw [h.stems _ _ hmodule.reached .refl hleft]
    by_contra hne
    exact h.given given hgiven _ hother.reached (Ne.symm hne) hright
  · rw [h.stems _ _ hother.reached .refl hright]
    by_contra hne
    exact h.given given hgiven _ hmodule.reached hne hleft

/-- The name of the path that an include line leads to is that of its file if names stay apart. -/
theorem NamesApart.dependency_eq (h : NamesApart fs load options root) {module : LoadedModule}
    (hmodule : FinalModule fs load options root module) {source included : String}
    {includePath target : Path} (hread : fs.readToString module.path = .ok source)
    (hincluded : included ∈ extractIncludes source)
    (hresolve : resolveInclude fs load module.path included = some includePath)
    (htarget : fs.canonicalize includePath = .ok target) :
    givenName options (moduleNameForPath root none) (moduleNameForPath includePath none) =
      givenName options (moduleNameForPath root none) (moduleNameForPath target none) := by
  rw [givenName_eq_iff]
  rcases h.links _ _ _ _ _ hmodule.reached hread hincluded hresolve htarget with heq | ⟨rfl, hgiven⟩
  · exact .inl heq
  · obtain ⟨given, hoption, heq⟩ := Option.map_eq_some_iff.mp hgiven
    exact .inr ⟨given, hoption, .inr ⟨rfl, heq.symm⟩⟩

/-- Sound names stay apart. -/
theorem namesApart_of_sound (hfinal : FinalModules fs load options root loaded)
    (hdistinct : ∀ module ∈ loaded.modules, ∀ other ∈ loaded.modules,
      module.moduleName = other.moduleName → module.path = other.path)
    (hdependencies : ∀ module ∈ loaded.modules, ∀ source,
      fs.readToString module.path = .ok source →
      List.Forall₂ (fun included name => ∃ includePath, ∃ other ∈ loaded.modules,
        resolveInclude fs load module.path included = some includePath ∧
        fs.canonicalize includePath = .ok other.path ∧ name = other.moduleName)
        (extractIncludes source) module.dependencies) :
    NamesApart fs load options root := by
  have hfile : ∀ file other, ReflTransGen (Includes fs load) root file →
      ReflTransGen (Includes fs load) root other →
      givenName options (moduleNameForPath root none) (moduleNameForPath file none) =
        givenName options (moduleNameForPath root none) (moduleNameForPath other none) →
      file = other := by
    intro file other hfile hother heq
    obtain ⟨module, hmodule, rfl⟩ := hfinal.reached file hfile
    obtain ⟨module', hmodule', rfl⟩ := hfinal.reached other hother
    refine hdistinct module hmodule module' hmodule' ?_
    rw [(hfinal.module module hmodule).name, (hfinal.module module' hmodule').name, heq]
  refine ⟨fun file other h h' heq => hfile file other h h' (congrArg _ heq), ?_, ?_⟩
  · intro given hgiven file h hne heq
    refine hne (hfile file root h .refl ?_)
    rw [heq, givenName_given hgiven, givenName_root hgiven]
  · intro file source included includePath target h hread hincluded hresolve htarget
    obtain ⟨module, hmodule, rfl⟩ := hfinal.reached file h
    have hmodule' := hfinal.module module hmodule
    obtain ⟨source', hread', hnames⟩ := hmodule'.dependencies
    obtain rfl : source = source' := Except.ok.inj (hread.symm.trans hread')
    have hdependency := hdependencies module hmodule source hread
    -- the dependency at the place of the include line, as it is made and as it is meant
    obtain ⟨i, hi, rfl⟩ := List.mem_iff_getElem.mp hincluded
    have hi' : i < module.dependencies.length := hnames.length_eq ▸ hi
    obtain ⟨made, _, hmade, _, hname⟩ := (List.forall₂_iff_get.mp hnames).2 i hi hi'
    obtain ⟨meant, other, hother, hmeant, hpath, hname'⟩ :=
      (List.forall₂_iff_get.mp hdependency).2 i hi hi'
    obtain rfl : made = includePath := Option.some.inj (hmade.symm.trans hresolve)
    obtain rfl : meant = made := Option.some.inj (hmeant.symm.trans hresolve)
    obtain rfl : target = other.path := Except.ok.inj (htarget.symm.trans hpath)
    rw [hname, (hfinal.module other hother).name, givenName_eq_iff] at hname'
    rcases hname' with heq | ⟨given, hgiven, ⟨hrootName, hgivenName⟩ | ⟨hrootName, hgivenName⟩⟩
    · exact .inl heq
    · have hroot : other.path = root := by
        refine hfile _ _ (hfinal.module other hother).reached .refl ?_
        rw [hgivenName, givenName_given hgiven, givenName_root hgiven]
      exact .inl (by rw [hrootName, hroot])
    · refine .inr ⟨hfile _ _ (hfinal.module other hother).reached .refl (congrArg _ hrootName), ?_⟩
      rw [hgiven, hgivenName, Option.map_some]

/-- The names of the modules of a set are sound exactly if the names of the files stay apart. -/
theorem soundNames_iff {emitRustTypesForModule : LoadedModule → LoadedSchemaSet →
      Except GeneratorError String}
    {emitRustStubsForModule : LoadedModule → LoadedSchemaSet → Bool → Bool →
      Except GeneratorError String} {outputs : GeneratedOutputs}
    (hfinal : FinalModules fs load options root loaded)
    (hgenerate : generateRustModuleSet emitRustTypesForModule emitRustStubsForModule
      loaded options =
      .ok outputs) :
    SoundNames emitRustStubsForModule fs load options root loaded outputs ↔
      NamesApart fs load options root := by
  refine ⟨fun h => namesApart_of_sound hfinal h.distinct h.dependencies, fun h => ?_⟩
  have hdistinct : ∀ module ∈ loaded.modules, ∀ other ∈ loaded.modules,
      module.moduleName = other.moduleName → module.path = other.path :=
    fun module hmodule other hother =>
      h.path_eq (hfinal.module module hmodule) (hfinal.module other hother)
  refine ⟨hdistinct, ?_, ?_, ?_⟩
  · obtain ⟨modules, hmodules, heq⟩ := except_bind_eq_ok.mp hgenerate
    obtain rfl := Except.ok.inj heq
    have hnames : (loaded.modules.map LoadedModule.moduleName).Nodup := by
      refine List.pairwise_map.mpr ((List.pairwise_map.mp hfinal.nodup).imp_of_mem ?_)
      intro module other hmodule hother hne heq
      exact hne (hdistinct module hmodule other hother heq)
    exact nodup_writtenFiles ((sublist_generateModules hmodules).nodup hnames)
  · intro module hmodule source hread
    have hmodule' := hfinal.module module hmodule
    obtain ⟨source', hread', hnames⟩ := hmodule'.dependencies
    obtain rfl : source = source' := Except.ok.inj (hread.symm.trans hread')
    refine List.forall₂_iff_get.mpr ⟨hnames.length_eq, fun i hi hi' => ?_⟩
    obtain ⟨includePath, target, hresolve, htarget, hname⟩ :=
      (List.forall₂_iff_get.mp hnames).2 i hi hi'
    have hedge : Includes fs load module.path target :=
      includes_of_resolve hread (List.get_mem _ ⟨i, hi⟩) hresolve htarget
    obtain ⟨other, hother, rfl⟩ := hfinal.reached target (hmodule'.reached.tail hedge)
    refine ⟨includePath, other, hother, hresolve, htarget, ?_⟩
    rw [hname, (hfinal.module other hother).name]
    exact h.dependency_eq hmodule' hread (List.get_mem _ _) hresolve htarget
  · intro module hmodule text htext
    obtain ⟨rootModule, hrootModule, hrootPath⟩ := hfinal.reached root .refl
    have hname : module.moduleName = loaded.rootModule := by
      by_contra hne
      rw [moduleStubs, if_neg fun h => hne h.2] at htext
      simp at htext
    have hrootName := (hfinal.module rootModule hrootModule).name
    rw [hrootPath, ← hfinal.rootModule, ← hname] at hrootName
    rw [hdistinct module hmodule rootModule hrootModule hrootName.symm, hrootPath]

/-- The names of the modules are sound exactly if the names of the files stay apart. -/
theorem module_names
    (emitRustTypesForModule : LoadedModule → LoadedSchemaSet → Except GeneratorError String)
    (emitRustStubsForModule : LoadedModule → LoadedSchemaSet → Bool → Bool →
      Except GeneratorError String)
    (fs : FileSystem) (load : LoadOptions) (options : GenerateOptions) (fuel : ℕ) (path root : Path)
    (loaded : LoadedSchemaSet) (outputs : GeneratedOutputs)
    (hcanonical : ∀ p q, fs.canonicalize p = .ok q → fs.canonicalize q = .ok q)
    (hroot : RootFile fs path root)
    (hload : loadModuleSetFromXFileWithOptions fs load fuel path = some (.ok loaded))
    (hgenerate : generateFromXFileWithOptions emitRustTypesForModule emitRustStubsForModule fs load
      options fuel path = some (.ok outputs)) :
    SoundNames emitRustStubsForModule fs load options root (namedModules loaded options) outputs ↔
      NamesApart fs load options root := by
  rw [generateFromXFileWithOptions, hload] at hgenerate
  exact soundNames_iff (finalModules_of_load hcanonical hload hroot) (Option.some.inj hgenerate)

end Sound

-- The names of two files do not stay apart if only their directories do.
example : moduleNameForPath (.ofText "/r/a.x") none = moduleNameForPath (.ofText "/r/s/a.x") none :=
  by decide +kernel

/-- The types of a module that declares one number and nothing else, or nothing. -/
def constTypes (module : LoadedModule) (_ : LoadedSchemaSet) : Except GeneratorError String :=
  match module.schema.items with
  | [.const ⟨name, .number value⟩] =>
    .ok ("pub const " ++ name ++ ": i64 = " ++ toString value ++ ";\n")
  | _ => .ok ""

/-- The stubs of a module without programs. -/
def noStubs (_ : LoadedModule) (_ : LoadedSchemaSet) (_ _ : Bool) : Except GeneratorError String :=
  .ok ""

/-- The names of two files that include each other stay apart if the root is given a third. -/
theorem cycleFiles_namesApart : NamesApart cycleFiles ⟨[]⟩ ⟨some "Root", true, true, true, true⟩
    ⟨true, ["a.x"]⟩ := by
  have hstems : ∀ file ∈ [(⟨true, ["a.x"]⟩ : Path), ⟨true, ["b.x"]⟩],
      ∀ other ∈ [(⟨true, ["a.x"]⟩ : Path), ⟨true, ["b.x"]⟩],
      moduleNameForPath file none = moduleNameForPath other none → file = other := by decide +kernel
  have hgiven : ∀ file ∈ [(⟨true, ["a.x"]⟩ : Path), ⟨true, ["b.x"]⟩],
      moduleNameForPath file none ≠ sanitizeModuleName "Root" := by decide +kernel
  have hlinks : ∀ file ∈ [(⟨true, ["a.x"]⟩ : Path), ⟨true, ["b.x"]⟩],
      ∀ source ∈ (cycleFiles.readToString file).toOption.toList,
      ∀ included ∈ extractIncludes source,
      ∀ includePath ∈ (resolveInclude cycleFiles ⟨[]⟩ file included).toList,
      ∀ target ∈ (cycleFiles.canonicalize includePath).toOption.toList,
      moduleNameForPath includePath none = moduleNameForPath target none := by decide +kernel
  refine ⟨fun file other hfile hother => ?_, ?_, ?_⟩
  · exact hstems file (cycleFiles_reaches hfile) other (cycleFiles_reaches hother)
  · rintro name ⟨rfl⟩ file hfile -
    exact hgiven file (cycleFiles_reaches hfile)
  · intro file source included includePath target hfile hread hincluded hresolve htarget
    exact .inl (hlinks file (cycleFiles_reaches hfile) source (by simp [hread, Except.toOption])
      included hincluded includePath (by simp [hresolve]) target
      (by simp [htarget, Except.toOption]))

/-- The names of two files that include each other are sound. -/
theorem module_names_cycle : ∃ loaded outputs,
    loadModuleSetFromXFileWithOptions cycleFiles ⟨[]⟩ 3 ⟨true, ["a.x"]⟩ = some (.ok loaded) ∧
    generateFromXFileWithOptions constTypes noStubs cycleFiles ⟨[]⟩
      ⟨some "Root", true, true, true, true⟩ 3 ⟨true, ["a.x"]⟩ = some (.ok outputs) ∧
    writtenFiles outputs.modules = ["root.types.rs"] ∧
    SoundNames noStubs cycleFiles ⟨[]⟩ ⟨some "Root", true, true, true, true⟩ ⟨true, ["a.x"]⟩
      (namedModules loaded ⟨some "Root", true, true, true, true⟩) outputs := by
  have hloads : (loadModuleSetFromXFileWithOptions cycleFiles ⟨[]⟩ 3 ⟨true, ["a.x"]⟩).map
      (fun result => result.map LoadedSchemaSet.rootModule) = some (.ok "a") := by decide +kernel
  have hwritten : (generateFromXFileWithOptions constTypes noStubs cycleFiles ⟨[]⟩
      ⟨some "Root", true, true, true, true⟩ 3 ⟨true, ["a.x"]⟩).map
      (fun result => result.map fun outputs => writtenFiles outputs.modules) =
      some (.ok ["root.types.rs"]) := by decide +kernel
  obtain ⟨result, hload, hmap⟩ := Option.map_eq_some_iff.mp hloads
  obtain ⟨loaded, rfl, -⟩ := map_ok_iff.mp hmap
  obtain ⟨result, hgenerate, hmap⟩ := Option.map_eq_some_iff.mp hwritten
  obtain ⟨outputs, rfl, hfiles⟩ := map_ok_iff.mp hmap
  have hcanonical : ∀ p q, cycleFiles.canonicalize p = .ok q → cycleFiles.canonicalize q = .ok q :=
    by
    intro p q hp
    simp only [cycleFiles] at hp ⊢
    split at hp
    · obtain rfl := Except.ok.inj hp
      rw [if_pos ‹_›]
    · simp at hp
  have hroot : RootFile cycleFiles ⟨true, ["a.x"]⟩ ⟨true, ["a.x"]⟩ := by
    refine ⟨⟨true, ["a.x"]⟩, ?_, ?_⟩ <;> simp [cycleFiles]
  exact ⟨loaded, outputs, hload, hgenerate, hfiles, (module_names constTypes noStubs _ _ _ 3 _ _ _ _
    hcanonical hroot hload hgenerate).mpr cycleFiles_namesApart⟩

/-- A file that includes a file of the same name in another directory. -/
def namesakeFiles : FileSystem where
  canonicalize path :=
    if path = ⟨true, ["r", "a.x"]⟩ ∨ path = ⟨true, ["r", "s", "a.x"]⟩ then .ok path
    else .error "not found"
  isFile path := path = ⟨true, ["r", "a.x"]⟩ ∨ path = ⟨true, ["r", "s", "a.x"]⟩
  readToString path :=
    if path = ⟨true, ["r", "a.x"]⟩ then .ok "%#include \"s/a.h\"\nconst A = 1;\n"
    else if path = ⟨true, ["r", "s", "a.x"]⟩ then .ok "const B = 2;\n"
    else .error "not found"

/-- Two files of the same name in different directories are written to the same file. -/
theorem namesakes_overwritten : ∃ loaded outputs,
    loadModuleSetFromXFileWithOptions namesakeFiles ⟨[]⟩ 3 ⟨true, ["r", "a.x"]⟩ =
      some (.ok loaded) ∧
    generateFromXFileWithOptions constTypes noStubs namesakeFiles ⟨[]⟩
      ⟨none, true, true, true, true⟩ 3 ⟨true, ["r", "a.x"]⟩ = some (.ok outputs) ∧
    writtenFiles outputs.modules = ["a.types.rs", "a.types.rs"] ∧
    ¬ SoundNames noStubs namesakeFiles ⟨[]⟩ ⟨none, true, true, true, true⟩ ⟨true, ["r", "a.x"]⟩
      (namedModules loaded ⟨none, true, true, true, true⟩) outputs := by
  have hloads : (loadModuleSetFromXFileWithOptions namesakeFiles ⟨[]⟩ 3 ⟨true, ["r", "a.x"]⟩).map
      (fun result => result.map LoadedSchemaSet.rootModule) = some (.ok "a") := by decide +kernel
  have hwritten : (generateFromXFileWithOptions constTypes noStubs namesakeFiles ⟨[]⟩
      ⟨none, true, true, true, true⟩ 3 ⟨true, ["r", "a.x"]⟩).map
      (fun result => result.map fun outputs => writtenFiles outputs.modules) =
      some (.ok ["a.types.rs", "a.types.rs"]) := by decide +kernel
  obtain ⟨result, hload, hmap⟩ := Option.map_eq_some_iff.mp hloads
  obtain ⟨loaded, rfl, -⟩ := map_ok_iff.mp hmap
  obtain ⟨result, hgenerate, hmap⟩ := Option.map_eq_some_iff.mp hwritten
  obtain ⟨outputs, rfl, hfiles⟩ := map_ok_iff.mp hmap
  refine ⟨loaded, outputs, hload, hgenerate, hfiles, fun h => ?_⟩
  have hnodup := h.files
  rw [hfiles] at hnodup
  exact absurd hnodup (by decide)

end OncRpc
