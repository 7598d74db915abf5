import OncRpc.Foundation.DepthFirst
import OncRpc.Gen.Total
import Mathlib.Data.Finset.Card
import Mathlib.Data.Set.Finite.Basic

/-!
# Loading a file and what it includes

The generator starts at one file and follows its `%#include` lines.  A file is known by its
canonical path.  It becomes a module once all the files it includes have been loaded, unless it has
been entered before.

The file system is fixed while files are loaded: what a path leads to, whether there is a file, and
what the file says.  The recursion is over fuel, the number of files that may be open at once.
-/

namespace OncRpc

open Foundation Relation

/-! ## Paths -/

/-- A path is known by its components.  A dot stands only at the start of a relative path. -/
structure Path where
  absolute : Bool
  components : List String
  deriving DecidableEq

namespace Path

/-- The path that a text is. -/
def ofText (text : String) : Path :=
  let parts := ((text.toList.splitOn '/').filter (· ≠ [])).map String.ofList
  match text.toList.head?, parts with
  | some '/', parts => ⟨true, parts.filter (· ≠ ".")⟩
  | _, "." :: parts => ⟨false, "." :: parts.filter (· ≠ ".")⟩
  | _, parts => ⟨false, parts.filter (· ≠ ".")⟩

/-- The path in an error. -/
def display (path : Path) : String :=
  (if path.absolute then "/" else "") ++ "/".intercalate path.components

/-- The name of the file a path leads to. -/
def fileName (path : Path) : Option String :=
  path.components.getLast?.filter fun name => name ≠ "." && name ≠ ".."

/-- The name of a file without its extension.  A dot at the start does not count. -/
def stemOf (name : String) : String :=
  match name.toList.reverse.dropWhile (· ≠ '.') with
  | [] | [_] => name
  | _ :: stem => String.ofList stem.reverse

/-- The name of the file a path leads to, without its extension. -/
def fileStem (path : Path) : Option String := path.fileName.map stemOf

/-- The path with another extension. -/
def withExtension (path : Path) (extension : String) : Path :=
  match path.fileStem with
  | none => path
  | some stem => { path with components := path.components.dropLast ++ [stem ++ "." ++ extension] }

/-- The directory a path leads to a file in. -/
def parent (path : Path) : Option Path :=
  if path.components = [] then none else some { path with components := path.components.dropLast }

/-- One path after another. -/
def join (path other : Path) : Path :=
  if other.absolute then other
  else if path = ⟨false, []⟩ then other
  else { path with components := path.components ++ other.components.filter (· ≠ ".") }

end Path

/-! ## Module names -/

/-- Every pair of underscores, from the left, made one. -/
def replaceDouble : List Char → List Char
  | '_' :: '_' :: rest => '_' :: replaceDouble rest
  | c :: rest => c :: replaceDouble rest
  | [] => []

/-- Pairs of underscores made one until none is left. -/
def squeeze : ℕ → List Char → List Char
  | 0, name => name
  | fuel + 1, name =>
    if ['_', '_'] <:+: name then squeeze fuel (replaceDouble name) else name

/-- The name of a module. -/
def sanitizeModuleName (name : String) : String :=
  let letters := name.toList.map fun c => if c.isAlphanum then c.toLower else '_'
  let squeezed := squeeze letters.length letters
  String.ofList ((squeezed.dropWhile (· = '_')).rdropWhile (· = '_'))

/-- The name of the module of a file. -/
def moduleNameForPath (path : Path) (overrideName : Option String) : String :=
  match overrideName with
  | some name => sanitizeModuleName name
  | none => sanitizeModuleName (path.fileStem.getD "generated")

-- What is no letter and no digit becomes an underscore, and underscores in a row become one.
example : moduleNameForPath (.ofText "/r/xdr--types.v2.x") none = "xdr_types_v2" := by
  decide +kernel

/-! ## Files -/

/-- The file system, as it is while files are loaded. -/
structure FileSystem where
  canonicalize : Path → Except String Path
  isFile : Path → Bool
  readToString : Path → Except String String

/-- Where included files are looked for. -/
structure LoadOptions where
  includeDirs : List Path

/-- A file that has been loaded. -/
structure LoadedModule where
  moduleName : String
  path : Path
  dependencies : List String
  schema : Schema

/-- The files that have been loaded. -/
structure LoadedSchemaSet where
  rootModule : String
  modules : List LoadedModule

/-- The files that have been entered, and the modules so far. -/
structure Loading where
  visited : List Path
  modules : List LoadedModule

section Load

variable (fs : FileSystem) (options : LoadOptions)

/-- The file that an include line names. -/
def resolveInclude (including : Path) (included : String) : Option Path :=
  let includePath := Path.ofText included
  let includeX := includePath.withExtension "x"
  let basenameX := includePath.fileStem.map fun stem => (Path.ofText stem).withExtension "x"
  let roots := including.parent.toList ++ options.includeDirs
  roots.findSome? fun root =>
    if fs.isFile (root.join includeX) then some (root.join includeX)
    else (basenameX.map root.join).filter fs.isFile

/-- A load: a result or an error, or no result at all if the fuel is used up. -/
abbrev Load (α : Type) : Type := Option (Except GeneratorError α)

/-- Load the files that a file includes, and name them. -/
def loadIncludes (load : Path → Loading → Load Loading) (including : Path) :
    List String → Loading → Load (Loading × List String)
  | [], loading => some (.ok (loading, []))
  | included :: more, loading =>
    match resolveInclude fs options including included with
    | none => some (.error (.includeResolution including.display included))
    | some includePath =>
      match load includePath loading with
      | none => none
      | some (.error e) => some (.error e)
      | some (.ok loading) =>
        match loadIncludes load including more loading with
        | none => none
        | some (.error e) => some (.error e)
        | some (.ok (loading, dependencies)) =>
          some (.ok (loading, moduleNameForPath includePath none :: dependencies))

/-- Load a file and what it includes. -/
def loadModuleSetRecursive : ℕ → Path → Loading → Load Loading
  | 0, _, _ => none
  | fuel + 1, path, loading =>
    match fs.canonicalize path with
    | .error message => some (.error (.io path.display message))
    | .ok canonical =>
      if canonical ∈ loading.visited then some (.ok loading)
      else
        match fs.readToString canonical with
        | .error message => some (.error (.io canonical.display message))
        | .ok source =>
          match loadIncludes fs options (loadModuleSetRecursive fuel) canonical
            (extractIncludes source) ⟨canonical :: loading.visited, loading.modules⟩ with
          | none => none
          | some (.error e) => some (.error e)
          | some (.ok (loading, dependencies)) =>
            match parseSource source with
            | .error e => some (.error e)
            | .ok schema =>
              some (.ok ⟨loading.visited, loading.modules ++
                [⟨moduleNameForPath canonical none, canonical, dependencies, schema⟩]⟩)

/-- Load a file and everything it includes. -/
def loadModuleSetFromXFileWithOptions (fuel : ℕ) (path : Path) : Load LoadedSchemaSet :=
  match fs.canonicalize path with
  | .error message => some (.error (.io path.display message))
  | .ok rootPath =>
    match loadModuleSetRecursive fs options fuel rootPath ⟨[], []⟩ with
    | none => none
    | some (.error e) => some (.error e)
    | some (.ok loading) => some (.ok ⟨moduleNameForPath rootPath none, loading.modules⟩)

/-! ## The include graph -/

/-- The file that an include line of a file leads to, if it can be resolved. -/
def includeTarget (file : Path) (included : String) : Option Path :=
  (resolveInclude fs options file included).bind fun includePath =>
    (fs.canonicalize includePath).toOption

/-- The files that a file includes. -/
def includeTargets (file : Path) : List Path :=
  match fs.readToString file with
  | .error _ => []
  | .ok source => (extractIncludes source).filterMap (includeTarget fs options file)

/-- One file includes another. -/
def Includes : Path → Path → Prop := Edge (includeTargets fs options)

/-- The file that a path leads to once it has been made canonical twice, as the loader does with the
path of the root. -/
def RootFile (path root : Path) : Prop :=
  ∃ rootPath, fs.canonicalize path = .ok rootPath ∧ fs.canonicalize rootPath = .ok root

/-- What has been entered and what has become a module, as a search through the include graph. -/
def Loading.search (loading : Loading) : Search Path :=
  ⟨loading.visited, loading.modules.map LoadedModule.path⟩

variable {fs options} {load : Path → Loading → Load Loading} {loading loading' : Loading}

/-! ## What a load does -/

/-- The includes of a file are loaded one after the other. -/
theorem loadIncludes_cons_ok {file : Path} {included : String} {more dependencies : List String} :
    loadIncludes fs options load file (included :: more) loading =
        some (.ok (loading', dependencies)) ↔
      ∃ includePath middle names, resolveInclude fs options file included = some includePath ∧
        load includePath loading = some (.ok middle) ∧
        loadIncludes fs options load file more middle = some (.ok (loading', names)) ∧
        dependencies = moduleNameForPath includePath none :: names := by
  rw [loadIncludes]
  rcases resolveInclude fs options file included with _ | includePath
  · simp
  rcases hfirst : load includePath loading with _ | e | middle
  · simp [hfirst]
  · simp [hfirst]
  rcases hrest : loadIncludes fs options load file more middle with _ | e | ⟨last, names⟩
  · simp [hfirst, hrest]
  · simp [hfirst, hrest]
  · simp only [hfirst, hrest, Option.some.injEq, Except.ok.injEq, Prod.mk.injEq,
      exists_and_left, exists_eq_left']
    constructor
    · rintro ⟨rfl, rfl⟩
      exact ⟨names, ⟨rfl, rfl⟩, rfl⟩
    · rintro ⟨names, ⟨rfl, rfl⟩, rfl⟩
      exact ⟨rfl, rfl⟩

/-- A file has been entered already, or it is read, what it includes is loaded, and it becomes a
module. -/
theorem loadModuleSetRecursive_ok {fuel : ℕ} {path : Path}
    (h : loadModuleSetRecursive fs options (fuel + 1) path loading = some (.ok loading')) :
    ∃ file, fs.canonicalize path = .ok file ∧
      ((file ∈ loading.visited ∧ loading' = loading) ∨
        (file ∉ loading.visited ∧ ∃ source inner dependencies schema,
          fs.readToString file = .ok source ∧
          loadIncludes fs options (loadModuleSetRecursive fs options fuel) file
            (extractIncludes source) ⟨file :: loading.visited, loading.modules⟩ =
              some (.ok (inner, dependencies)) ∧
          parseSource source = .ok schema ∧
          loading' = ⟨inner.visited, inner.modules ++
            [⟨moduleNameForPath file none, file, dependencies, schema⟩]⟩)) := by
  rw [loadModuleSetRecursive] at h
  rcases hcanonical : fs.canonicalize path with message | file
  · simp [hcanonical] at h
  refine ⟨file, rfl, ?_⟩
  simp only [hcanonical] at h
  split at h
  · exact .inl ⟨‹_›, by simpa using h.symm⟩
  refine .inr ⟨‹_›, ?_⟩
  rcases hread : fs.readToString file with message | source
  · simp [hread] at h
  simp only [hread] at h
  split at h
  · simp at h
  · simp at h
  rename_i inner dependencies hincludes
  rcases hparse : parseSource source with e | schema
  · simp [hparse] at h
  simp only [hparse, Option.some.injEq, Except.ok.injEq] at h
  exact ⟨source, inner, dependencies, schema, rfl, hincludes, hparse, h.symm⟩

/-- A module set is loaded from the path that its root resolves to. -/
theorem loadModuleSetFromXFileWithOptions_ok {fuel : ℕ} {path : Path} {loaded : LoadedSchemaSet} :
    loadModuleSetFromXFileWithOptions fs options fuel path = some (.ok loaded) ↔
      ∃ rootPath final, fs.canonicalize path = .ok rootPath ∧
        loadModuleSetRecursive fs options fuel rootPath ⟨[], []⟩ = some (.ok final) ∧
        loaded = ⟨moduleNameForPath rootPath none, final.modules⟩ := by
  unfold loadModuleSetFromXFileWithOptions
  rcases fs.canonicalize path with message | rootPath
  · simp
  rcases hload : loadModuleSetRecursive fs options fuel rootPath ⟨[], []⟩ with _ | e | final
  · simp [hload]
  · simp [hload]
  · simp [hload, eq_comm]

/-! ## A load is a depth-first search -/

/-- A load that follows the include graph. -/
def Follows (fs : FileSystem) (options : LoadOptions) (load : Path → Loading → Load Loading) :
    Prop :=
  ∀ path loading loading', load path loading = some (.ok loading') →
    ∃ file, fs.canonicalize path = .ok file ∧
      Walk (includeTargets fs options) loading.search [file] loading'.search

/-- The included files are walked through in the order of the include lines. -/
theorem walk_of_loadIncludes (hload : Follows fs options load) {file : Path}
    {includes dependencies : List String}
    (h : loadIncludes fs options load file includes loading = some (.ok (loading', dependencies))) :
    Walk (includeTargets fs options) loading.search
      (includes.filterMap (includeTarget fs options file)) loading'.search := by
  induction includes generalizing loading dependencies with
  | nil =>
    simp only [loadIncludes, Option.some.injEq, Except.ok.injEq, Prod.mk.injEq] at h
    obtain ⟨rfl, -⟩ := h
    exact .nil _
  | cons included more ih =>
    obtain ⟨includePath, middle, names, hresolve, hfirst, hrest, -⟩ := loadIncludes_cons_ok.mp h
    obtain ⟨target, htarget, hwalk⟩ := hload _ _ _ hfirst
    have hhead : includeTarget fs options file included = some target := by
      simp [includeTarget, hresolve, htarget, Except.toOption]
    rw [List.filterMap_cons_some hhead]
    exact hwalk.append (ih hrest)

/-- Loading a file walks through the include graph from the file. -/
theorem follows_loadModuleSetRecursive (fuel : ℕ) :
    Follows fs options (loadModuleSetRecursive fs options fuel) := by
  induction fuel with
  | zero =>
    intro path loading loading' h
    simp [loadModuleSetRecursive] at h
  | succ fuel ih =>
    intro path loading loading' h
    obtain ⟨file, hcanonical, ⟨hseen, rfl⟩ | ⟨hfresh, source, inner, dependencies, schema, hread,
      hincludes, -, rfl⟩⟩ := loadModuleSetRecursive_ok h
    · exact ⟨file, hcanonical, .seen hseen (.nil _)⟩
    have htargets : includeTargets fs options file =
        (extractIncludes source).filterMap (includeTarget fs options file) := by
      simp only [includeTargets, hread]
    have hwalk := walk_of_loadIncludes ih hincludes
    rw [← htargets] at hwalk
    refine ⟨file, hcanonical, .enter hfresh hwalk ?_⟩
    simp only [Loading.search, List.map_append, List.map_cons, List.map_nil]
    exact .nil _

/-! ## Fuel -/

/-- Includes are loaded by every loader that loads more. -/
theorem loadIncludes_mono {load' : Path → Loading → Load Loading}
    (hload : ∀ path loading result, load path loading = some result →
      load' path loading = some result) {file : Path} {includes : List String}
    {result : Except GeneratorError (Loading × List String)}
    (h : loadIncludes fs options load file includes loading = some result) :
    loadIncludes fs options load' file includes loading = some result := by
  induction includes generalizing loading result with
  | nil => exact h
  | cons included more ih =>
    rw [loadIncludes] at h ⊢
    rcases hresolve : resolveInclude fs options file included with _ | includePath
    · rwa [hresolve] at h
    rw [hresolve] at h
    rcases hfirst : load includePath loading with _ | e | middle
    · simp [hfirst] at h
    · simpa [hfirst, hload _ _ _ hfirst] using h
    simp only [hfirst] at h
    simp only [hload _ _ _ hfirst]
    rcases hrest : loadIncludes fs options load file more middle with _ | rest
    · simp [hrest] at h
    · rw [hrest] at h
      rw [ih hrest]
      exact h

/-- More fuel does not change a result. -/
theorem loadModuleSetRecursive_mono {fuel fuel' : ℕ} (hfuel : fuel ≤ fuel') {path : Path}
    {result : Except GeneratorError Loading}
    (h : loadModuleSetRecursive fs options fuel path loading = some result) :
    loadModuleSetRecursive fs options fuel' path loading = some result := by
  induction fuel generalizing fuel' path loading result with
  | zero => simp [loadModuleSetRecursive] at h
  | succ fuel ih =>
    obtain ⟨fuel', rfl⟩ :=
      Nat.exists_eq_add_of_le' (Nat.le_trans (Nat.succ_le_succ (Nat.zero_le _)) hfuel)
    have hle : fuel ≤ fuel' := Nat.le_of_succ_le_succ hfuel
    rw [loadModuleSetRecursive] at h ⊢
    rcases hcanonical : fs.canonicalize path with message | file
    · rwa [hcanonical] at h
    simp only [hcanonical] at h
    dsimp only
    split
    · rwa [if_pos ‹_›] at h
    rw [if_neg ‹_›] at h
    rcases hread : fs.readToString file with message | source
    · rwa [hread] at h
    simp only [hread] at h
    dsimp only
    rcases hincludes : loadIncludes fs options (loadModuleSetRecursive fs options fuel) file
      (extractIncludes source) ⟨file :: loading.visited, loading.modules⟩ with _ | inner
    · simp [hincludes] at h
    · rw [hincludes] at h
      rw [loadIncludes_mono (fun _ _ _ hinner => ih hle hinner) hincludes]
      exact h

/-- A load has a result if the fuel exceeds the number of files that have not been entered. -/
theorem loadModuleSetRecursive_isSome (files : Finset Path)
    (hclosed : ∀ file ∈ files, ∀ target ∈ includeTargets fs options file, target ∈ files) (fuel : ℕ)
    {path : Path} (hpath : ∀ file, fs.canonicalize path = .ok file → file ∈ files)
    (hfuel : (files.filter (· ∉ loading.visited)).card < fuel) :
    loadModuleSetRecursive fs options fuel path loading ≠ none := by
  induction fuel generalizing path loading with
  | zero => simp at hfuel
  | succ fuel ih =>
    rw [loadModuleSetRecursive]
    rcases hcanonical : fs.canonicalize path with message | file
    · simp
    dsimp only
    split
    · simp
    rename_i hfresh
    rcases hread : fs.readToString file with message | source
    · simp
    dsimp only
    have hfile := hpath file hcanonical
    have hincludes : ∀ includes, (∀ included ∈ includes, included ∈ extractIncludes source) →
        ∀ middle : Loading, file ∈ middle.visited → (∀ y ∈ loading.visited, y ∈ middle.visited) →
        loadIncludes fs options (loadModuleSetRecursive fs options fuel) file includes middle ≠
          none := by
      intro includes
      induction includes with
      | nil => simp [loadIncludes]
      | cons included more ihmore =>
        intro hmem middle hentered hkept
        rw [loadIncludes]
        rcases hresolve : resolveInclude fs options file included with _ | includePath
        · simp
        dsimp only
        have htarget : ∀ target, fs.canonicalize includePath = .ok target → target ∈ files := by
          intro target htarget
          refine hclosed file hfile target ?_
          simp only [includeTargets, hread, List.mem_filterMap]
          exact ⟨included, hmem included List.mem_cons_self, by
            simp [includeTarget, hresolve, htarget, Except.toOption]⟩
        have hfewer : (files.filter (· ∉ middle.visited)).card < fuel := by
          refine lt_of_lt_of_le (Finset.card_lt_card ?_) (Nat.le_of_lt_succ hfuel)
          refine Finset.ssubset_iff_subset_ne.mpr ⟨fun y hy => ?_, fun heq => ?_⟩
          · rw [Finset.mem_filter] at hy ⊢
            exact ⟨hy.1, fun hold => hy.2 (hkept y hold)⟩
          · have hmember : file ∈ files.filter (· ∉ middle.visited) := by
              rw [heq, Finset.mem_filter]
              exact ⟨hfile, hfresh⟩
            exact (Finset.mem_filter.mp hmember).2 hentered
        have hfirst := ih htarget hfewer
        rcases hload : loadModuleSetRecursive fs options fuel includePath middle with _ | e | next
        · exact absurd hload hfirst
        · simp
        dsimp only
        obtain ⟨target, -, hwalk⟩ := follows_loadModuleSetRecursive fuel _ _ _ hload
        have hmore := ihmore (fun i hi => hmem i (List.mem_cons_of_mem _ hi)) next
          (hwalk.visited_mono hentered) fun y hy => hwalk.visited_mono (hkept y hy)
        rcases hrest : loadIncludes fs options (loadModuleSetRecursive fs options fuel)
          file more next
          with _ | e | result
        · exact absurd hrest hmore
        · simp
        · simp
    have hall := hincludes (extractIncludes source) (fun _ h => h)
      ⟨file :: loading.visited, loading.modules⟩ List.mem_cons_self
      fun y hy => List.mem_cons_of_mem _ hy
    rcases hload : loadIncludes fs options (loadModuleSetRecursive fs options fuel) file
      (extractIncludes source) ⟨file :: loading.visited, loading.modules⟩ with _ | e | result
    · exact absurd hload hall
    · simp
    · dsimp only
      split <;> simp

/-! ## What a module holds -/

/-- The module of a file: its name is that of the file, its dependencies are the names of the paths
its include lines lead to, and its schema is that of its text. -/
def ModuleOf (fs : FileSystem) (options : LoadOptions) (module : LoadedModule) : Prop :=
  module.moduleName = moduleNameForPath module.path none ∧
    ∃ source, fs.readToString module.path = .ok source ∧ parseSource source = .ok module.schema ∧
      List.Forall₂ (fun included name => ∃ includePath target,
        resolveInclude fs options module.path included = some includePath ∧
        fs.canonicalize includePath = .ok target ∧ name = moduleNameForPath includePath none)
        (extractIncludes source) module.dependencies

/-- The modules a load adds are those of their files. -/
def Adds (fs : FileSystem) (options : LoadOptions) (load : Path → Loading → Load Loading) : Prop :=
  ∀ path loading loading', load path loading = some (.ok loading') →
    ∀ module ∈ loading'.modules, module ∈ loading.modules ∨ ModuleOf fs options module

/-- Loading includes adds modules of the files included. -/
theorem adds_of_loadIncludes (hload : Adds fs options load) (hfollows : Follows fs options load)
    {file : Path} {includes dependencies : List String}
    (h : loadIncludes fs options load file includes loading = some (.ok (loading', dependencies))) :
    (∀ module ∈ loading'.modules, module ∈ loading.modules ∨ ModuleOf fs options module) ∧
      List.Forall₂ (fun included name => ∃ includePath target,
        resolveInclude fs options file included = some includePath ∧
        fs.canonicalize includePath = .ok target ∧ name = moduleNameForPath includePath none)
        includes dependencies := by
  induction includes generalizing loading dependencies with
  | nil =>
    simp only [loadIncludes, Option.some.injEq, Except.ok.injEq, Prod.mk.injEq] at h
    obtain ⟨rfl, rfl⟩ := h
    exact ⟨fun _ hmodule => .inl hmodule, .nil⟩
  | cons included more ih =>
    obtain ⟨includePath, middle, names, hresolve, hfirst, hrest, rfl⟩ := loadIncludes_cons_ok.mp h
    obtain ⟨target, htarget, -⟩ := hfollows _ _ _ hfirst
    obtain ⟨hmodules, hnames⟩ := ih hrest
    refine ⟨fun module hmodule => ?_, .cons ⟨includePath, target, hresolve, htarget, rfl⟩ hnames⟩
    rcases hmodules module hmodule with hmodule | hmodule
    · exact hload _ _ _ hfirst module hmodule
    · exact .inr hmodule

/-- Loading adds modules of files only, whatever the fuel. -/
theorem adds_loadModuleSetRecursive (fuel : ℕ) :
    Adds fs options (loadModuleSetRecursive fs options fuel) := by
  induction fuel with
  | zero =>
    intro path loading loading' h
    simp [loadModuleSetRecursive] at h
  | succ fuel ih =>
    intro path loading loading' h module hmodule
    obtain ⟨file, -, ⟨-, rfl⟩ | ⟨-, source, inner, dependencies, schema, hread, hincludes, hparse,
      rfl⟩⟩ := loadModuleSetRecursive_ok h
    · exact .inl hmodule
    obtain ⟨hinner, hnames⟩ :=
      adds_of_loadIncludes ih (follows_loadModuleSetRecursive fuel) hincludes
    rcases List.mem_append.mp hmodule with hmodule | hmodule
    · exact hinner module hmodule
    · obtain rfl := List.mem_singleton.mp hmodule
      exact .inr ⟨rfl, source, hread, hparse, hnames⟩

/-- Every module that has been loaded is that of its file. -/
theorem moduleOf_of_load {fuel : ℕ} {path : Path} {loaded : LoadedSchemaSet}
    (h : loadModuleSetFromXFileWithOptions fs options fuel path = some (.ok loaded)) :
    ∀ module ∈ loaded.modules, ModuleOf fs options module := by
  obtain ⟨rootPath, final, -, hload, rfl⟩ := loadModuleSetFromXFileWithOptions_ok.mp h
  intro module hmodule
  rcases adds_loadModuleSetRecursive fuel _ _ _ hload module hmodule with hmodule | hmodule
  · simp at hmodule
  · exact hmodule

/-! ## Loading is total, and loads what it should -/

/-- A load walks through the include graph from the file of the root. -/
theorem walk_of_load {fuel : ℕ} {path : Path} {loaded : LoadedSchemaSet}
    (h : loadModuleSetFromXFileWithOptions fs options fuel path = some (.ok loaded)) :
    ∃ root final, RootFile fs path root ∧
      Walk (includeTargets fs options) ⟨[], []⟩ [root] (Loading.search final) ∧
      loaded.modules = final.modules := by
  obtain ⟨rootPath, final, hrootPath, hload, rfl⟩ := loadModuleSetFromXFileWithOptions_ok.mp h
  obtain ⟨root, hroot, hwalk⟩ := follows_loadModuleSetRecursive fuel _ _ _ hload
  exact ⟨root, final, ⟨rootPath, hrootPath, hroot⟩, hwalk, rfl⟩

/-- A load ends if the root leads to finitely many files. -/
theorem load_terminates {path : Path}
    (hfinite : ∀ root, RootFile fs path root →
      {file | ReflTransGen (Includes fs options) root file}.Finite) :
    ∃ fuel result, ∀ fuel' ≥ fuel,
      loadModuleSetFromXFileWithOptions fs options fuel' path = some result := by
  rcases hpath : fs.canonicalize path with message | rootPath
  · exact ⟨0, _, fun fuel' _ => by rw [loadModuleSetFromXFileWithOptions, hpath]⟩
  suffices h : ∃ fuel result, loadModuleSetRecursive fs options fuel rootPath ⟨[], []⟩ =
      some result by
    obtain ⟨fuel, result, hresult⟩ := h
    rcases result with e | final
    · refine ⟨fuel, .error e, fun fuel' hfuel => ?_⟩
      simp only [loadModuleSetFromXFileWithOptions, hpath,
        loadModuleSetRecursive_mono hfuel hresult]
    · refine ⟨fuel, .ok ⟨moduleNameForPath rootPath none, final.modules⟩, fun fuel' hfuel => ?_⟩
      simp only [loadModuleSetFromXFileWithOptions, hpath,
        loadModuleSetRecursive_mono hfuel hresult]
  rcases hroot : fs.canonicalize rootPath with message | root
  · exact ⟨1, _, by rw [loadModuleSetRecursive, hroot]⟩
  have hfiles := hfinite root ⟨rootPath, hpath, hroot⟩
  have hmem : ∀ file, file ∈ hfiles.toFinset ↔ ReflTransGen (Includes fs options) root file :=
    fun file => hfiles.mem_toFinset
  refine ⟨hfiles.toFinset.card + 1, Option.ne_none_iff_exists'.mp ?_⟩
  refine loadModuleSetRecursive_isSome hfiles.toFinset ?_ _ ?_ ?_
  · intro file hfile target htarget
    rw [hmem] at hfile ⊢
    exact hfile.tail htarget
  · intro file hfile
    obtain rfl : root = file := by simpa [hroot] using hfile
    exact (hmem root).mpr .refl
  · exact Nat.lt_succ_of_le (Finset.card_filter_le _ _)

/-- A file that can be loaded: it can be read and parsed, and every include line leads to a file. -/
def Loadable (fs : FileSystem) (options : LoadOptions) (file : Path) : Prop :=
  ∃ source schema, fs.readToString file = .ok source ∧ parseSource source = .ok schema ∧
    ∀ included ∈ extractIncludes source, ∃ includePath target,
      resolveInclude fs options file included = some includePath ∧
      fs.canonicalize includePath = .ok target

/-- A file includes what its include lines resolve to. -/
theorem includes_of_resolve {file includePath target : Path} {source included : String}
    (hread : fs.readToString file = .ok source) (hincluded : included ∈ extractIncludes source)
    (hresolve : resolveInclude fs options file included = some includePath)
    (htarget : fs.canonicalize includePath = .ok target) : Includes fs options file target := by
  simp only [Includes, Edge, includeTargets, hread, List.mem_filterMap]
  refine ⟨included, hincluded, ?_⟩
  simp only [includeTarget, hresolve, Option.bind_some, htarget, Except.toOption]

/-- No file that can be loaded fails, if what it leads to can be loaded. -/
theorem loadModuleSetRecursive_ne_error {root : Path}
    (hloadable : ∀ file, ReflTransGen (Includes fs options) root file → Loadable fs options file)
    (fuel : ℕ) {path file : Path} (hcanonical : fs.canonicalize path = .ok file)
    (hreach : ReflTransGen (Includes fs options) root file) (e : GeneratorError) :
    loadModuleSetRecursive fs options fuel path loading ≠ some (.error e) := by
  induction fuel generalizing path file loading with
  | zero => simp [loadModuleSetRecursive]
  | succ fuel ih =>
    obtain ⟨source, schema, hread, hparse, hlinks⟩ := hloadable file hreach
    have hincludes : ∀ includes, (∀ included ∈ includes, included ∈ extractIncludes source) →
        ∀ middle : Loading, loadIncludes fs options (loadModuleSetRecursive fs options fuel) file
          includes middle ≠ some (.error e) := by
      intro includes
      induction includes with
      | nil => simp [loadIncludes]
      | cons included more ihmore =>
        intro hmem middle
        have hincluded := hmem included List.mem_cons_self
        obtain ⟨includePath, target, hresolve, htarget⟩ := hlinks included hincluded
        have hfirst := @ih middle includePath target htarget
          (hreach.tail (includes_of_resolve hread hincluded hresolve htarget))
        rw [loadIncludes, hresolve]
        dsimp only
        rcases hload : loadModuleSetRecursive fs options fuel includePath middle with _ | e' | next
        · simp
        · rw [hload] at hfirst
          simpa using hfirst
        dsimp only
        have hmore := ihmore (fun i hi => hmem i (List.mem_cons_of_mem _ hi)) next
        rcases hrest : loadIncludes fs options (loadModuleSetRecursive fs options fuel)
          file more next
          with _ | e' | result
        · simp
        · rw [hrest] at hmore
          simpa using hmore
        · simp
    rw [loadModuleSetRecursive, hcanonical]
    dsimp only
    split
    · simp
    rw [hread]
    dsimp only
    have hall := hincludes (extractIncludes source) (fun _ h => h)
      ⟨file :: loading.visited, loading.modules⟩
    rcases hload : loadIncludes fs options (loadModuleSetRecursive fs options fuel) file
      (extractIncludes source) ⟨file :: loading.visited, loading.modules⟩ with _ | e' | result
    · simp
    · rw [hload] at hall
      simpa using hall
    · simp [hparse]

/-- A load succeeds exactly if the root leads to finitely many files, all of which can be loaded. -/
theorem load_succeeds_iff {path : Path} :
    (∃ fuel loaded, loadModuleSetFromXFileWithOptions fs options fuel path = some (.ok loaded)) ↔
      ∃ root, RootFile fs path root ∧
        {file | ReflTransGen (Includes fs options) root file}.Finite ∧
        ∀ file, ReflTransGen (Includes fs options) root file → Loadable fs options file := by
  constructor
  · rintro ⟨fuel, loaded, h⟩
    obtain ⟨root, final, hroot, hwalk, hmodules⟩ := walk_of_load h
    obtain ⟨hreach, -, -⟩ := hwalk.complete
    rw [Loading.search, ← hmodules] at hreach
    refine ⟨root, hroot, ?_, fun file hfile => ?_⟩
    · refine (List.finite_toSet (loaded.modules.map LoadedModule.path)).subset ?_
      intro file hfile
      exact (hreach file).mpr hfile
    · obtain ⟨module, hmodule, rfl⟩ := List.mem_map.mp ((hreach file).mpr hfile)
      obtain ⟨-, source, hread, hparse, hnames⟩ := moduleOf_of_load h module hmodule
      refine ⟨source, module.schema, hread, hparse, fun included hincluded => ?_⟩
      obtain ⟨i, hi, rfl⟩ := List.mem_iff_getElem.mp hincluded
      obtain ⟨includePath, target, hresolve, htarget, -⟩ :=
        (List.forall₂_iff_get.mp hnames).2 i hi (hnames.length_eq ▸ hi)
      exact ⟨includePath, target, hresolve, htarget⟩
  · rintro ⟨root, ⟨rootPath, hpath, hroot⟩, hfinite, hloadable⟩
    have hends : ∀ root', RootFile fs path root' →
        {file | ReflTransGen (Includes fs options) root' file}.Finite := by
      rintro root' ⟨rootPath', hpath', hroot'⟩
      obtain rfl : rootPath = rootPath' := Except.ok.inj (hpath.symm.trans hpath')
      obtain rfl : root = root' := Except.ok.inj (hroot.symm.trans hroot')
      exact hfinite
    obtain ⟨fuel, result, hresult⟩ := load_terminates hends
    have hload := hresult fuel le_rfl
    rcases result with e | loaded
    · rw [loadModuleSetFromXFileWithOptions, hpath] at hload
      dsimp only at hload
      have hne := @loadModuleSetRecursive_ne_error _ _ ⟨[], []⟩ root hloadable fuel
        rootPath root hroot
        .refl e
      rcases hrecursive :
        loadModuleSetRecursive fs options fuel rootPath ⟨[], []⟩ with _ | e' | final
      · simp [hrecursive] at hload
      · simp only [hrecursive, Option.some.injEq, Except.error.injEq] at hload
        exact absurd (hload ▸ hrecursive) hne
      · simp [hrecursive] at hload
    · exact ⟨fuel, loaded, hload⟩

/-- Loading a file ends if the file leads to finitely many others, whatever cycles there are among
them.  If it succeeds, each file that the root leads to is loaded exactly once, by its canonical
path, and the root last; without a cycle every file comes after those it includes. -/
theorem module_loading (fs : FileSystem) (options : LoadOptions) (path : Path) :
    ((∀ root, RootFile fs path root →
        {file | ReflTransGen (Includes fs options) root file}.Finite) →
      ∃ fuel result, ∀ fuel' ≥ fuel,
        loadModuleSetFromXFileWithOptions fs options fuel' path = some result) ∧
    ∀ fuel loaded, loadModuleSetFromXFileWithOptions fs options fuel path = some (.ok loaded) →
      ∃ root, RootFile fs path root ∧
        (∀ file, file ∈ loaded.modules.map LoadedModule.path ↔
          ReflTransGen (Includes fs options) root file) ∧
        (loaded.modules.map LoadedModule.path).Nodup ∧
        (∃ front, loaded.modules.map LoadedModule.path = front ++ [root]) ∧
        ((∀ file, ReflTransGen (Includes fs options) root file →
            ¬ TransGen (Includes fs options) file file) →
          ∀ front file back, loaded.modules.map LoadedModule.path = front ++ file :: back →
            ∀ target, Includes fs options file target → target ∈ front) := by
  refine ⟨load_terminates, fun fuel loaded h => ?_⟩
  obtain ⟨root, final, hroot, hwalk, hmodules⟩ := walk_of_load h
  obtain ⟨hreach, hnodup, hlast⟩ := hwalk.complete
  rw [hmodules]
  exact ⟨root, hroot, hreach, hnodup, hlast, fun hacyclic => hwalk.complete_ordered hacyclic⟩

end Load

/-- Two files that include each other. -/
def cycleFiles : FileSystem where
  canonicalize path :=
    if path = ⟨true, ["a.x"]⟩ ∨ path = ⟨true, ["b.x"]⟩ then .ok path else .error "not found"
  isFile path := path = ⟨true, ["a.x"]⟩ ∨ path = ⟨true, ["b.x"]⟩
  readToString path :=
    if path = ⟨true, ["a.x"]⟩ then .ok "%#include \"b.h\"\nconst A = 1;\n"
    else if path = ⟨true, ["b.x"]⟩ then .ok "%#include \"a.h\"\n"
    else .error "not found"

/-- The two files of the cycle reach no others. -/
theorem cycleFiles_reaches {file : Path}
    (h : ReflTransGen (Includes cycleFiles ⟨[]⟩) ⟨true, ["a.x"]⟩ file) :
    file ∈ [(⟨true, ["a.x"]⟩ : Path), ⟨true, ["b.x"]⟩] := by
  induction h with
  | refl => exact List.mem_cons_self
  | tail _ hedge ih =>
    have htargets : ∀ file ∈ [(⟨true, ["a.x"]⟩ : Path), ⟨true, ["b.x"]⟩],
        ∀ target ∈ includeTargets cycleFiles ⟨[]⟩ file,
          target ∈ [(⟨true, ["a.x"]⟩ : Path), ⟨true, ["b.x"]⟩] := by decide +kernel
    exact htargets _ ih _ hedge

/-- The root of the cycle is its first file. -/
theorem cycleFiles_rootFile {root : Path} (h : RootFile cycleFiles ⟨true, ["a.x"]⟩ root) :
    root = ⟨true, ["a.x"]⟩ := by
  obtain ⟨rootPath, hpath, hroot⟩ := h
  simp only [cycleFiles, true_or, if_true, Except.ok.injEq] at hpath
  subst hpath
  simpa [cycleFiles] using hroot.symm

/-- The cycle has finitely many files. -/
theorem cycleFiles_finite (root : Path) (h : RootFile cycleFiles ⟨true, ["a.x"]⟩ root) :
    {file | ReflTransGen (Includes cycleFiles ⟨[]⟩) root file}.Finite := by
  obtain rfl := cycleFiles_rootFile h
  refine (List.finite_toSet [(⟨true, ["a.x"]⟩ : Path), ⟨true, ["b.x"]⟩]).subset ?_
  intro file hfile
  exact cycleFiles_reaches hfile

/-- Two files that include each other are both loaded. -/
theorem module_loading_cycle :
    (∃ fuel result, ∀ fuel' ≥ fuel,
      loadModuleSetFromXFileWithOptions cycleFiles ⟨[]⟩ fuel' ⟨true, ["a.x"]⟩ = some result) ∧
    ∃ loaded, loadModuleSetFromXFileWithOptions cycleFiles ⟨[]⟩ 3 ⟨true, ["a.x"]⟩ =
      some (.ok loaded) ∧ (loaded.modules.map LoadedModule.path).Nodup ∧
      loaded.modules.map LoadedModule.path = [⟨true, ["b.x"]⟩, ⟨true, ["a.x"]⟩] := by
  obtain ⟨hends, hloads⟩ := module_loading cycleFiles ⟨[]⟩ ⟨true, ["a.x"]⟩
  refine ⟨hends cycleFiles_finite, ?_⟩
  have hpaths : (loadModuleSetFromXFileWithOptions cycleFiles ⟨[]⟩ 3 ⟨true, ["a.x"]⟩).map
      (fun result => result.map fun loaded => loaded.modules.map LoadedModule.path) =
      some (.ok [⟨true, ["b.x"]⟩, ⟨true, ["a.x"]⟩]) := by decide +kernel
  obtain ⟨result, hresult, hmap⟩ := Option.map_eq_some_iff.mp hpaths
  obtain ⟨loaded, rfl, hfiles⟩ := map_ok_iff.mp hmap
  obtain ⟨root, -, -, hnodup, -⟩ := hloads 3 loaded hresult
  exact ⟨loaded, hresult, hnodup, hfiles⟩

end OncRpc
