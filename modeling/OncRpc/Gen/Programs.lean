import OncRpc.Gen.Identifiers
import OncRpc.Gen.MethodNames
import OncRpc.Gen.Words

/-!
# The modules of programs

Both emitters write a module for every program and in it one for every version, with a constant for
each procedure.  The stub emitter puts clients and servers into the module of a version.

The modules are called by the names of the schema in lower case, the constants by the names as they
are, and no keyword is looked at.  `TypeEmitter.emitPrograms_legal_iff` and
`StubEmitter.emitSchema_legal_iff` say when all the names that this puts into the output are
identifiers.
-/

namespace OncRpc

open Foundation

/-! ## What is written -/

/-- The module of a version among the types. -/
structure VersionConsts where
  moduleName : String
  constants : List (String × UInt32)
  deriving DecidableEq

/-- The module of a version among the stubs. -/
structure VersionStubs where
  moduleName : String
  clientName : String
  serviceName : String
  dispatchName : String
  generated : GeneratedVersion
  deriving DecidableEq

/-- The module of a program: its number, and the modules of its versions. -/
structure ProgramModule (α : Type) where
  moduleName : String
  program : UInt32
  versions : List α
  deriving DecidableEq

/-- The programs of a schema. -/
def Schema.programs (schema : Schema) : List ProgramDecl :=
  schema.items.filterMap fun item =>
    match item with
    | .program decl => some decl
    | _ => none

/-- The module of a program among the types. -/
def TypeEmitter.emitProgram (item : ProgramDecl) : ProgramModule VersionConsts where
  moduleName := toSnakeCase item.name
  program := item.number
  versions := item.versions.map fun version => {
    moduleName := toSnakeCase version.name
    constants := ("VERSION", version.number) :: version.procedures.map fun p => (p.name, p.number) }

namespace StubEmitter

variable (emitter : StubEmitter)

/-- The module of a version, with the names of what is in it. -/
def emitVersionModule (version : VersionDecl) : Except GeneratorError VersionStubs := do
  let generated ← emitter.emitVersion version
  return {
    moduleName := toSnakeCase version.name
    clientName := version.name ++ "Client"
    serviceName := version.name ++ "Service"
    dispatchName := version.name ++ "Dispatch"
    generated := generated }

/-- The module of a program among the stubs. -/
def emitProgram (item : ProgramDecl) : Except GeneratorError (ProgramModule VersionStubs) := do
  let versions ← item.versions.mapM emitter.emitVersionModule
  return ⟨toSnakeCase item.name, item.number, versions⟩

/-- The stubs of a schema. -/
def emitSchema (schema : Schema) : Except GeneratorError (List (ProgramModule VersionStubs)) :=
  schema.programs.mapM emitter.emitProgram

end StubEmitter

/-! ## Names in binding position -/

/-- The names in the module of a version among the types. -/
def VersionConsts.binders (version : VersionConsts) : List String :=
  version.moduleName :: version.constants.map Prod.fst

/-- The words of the emitter in every module of clients: those of the modules, of the field and the
constructor of a client, and of the parameters of methods. -/
def clientWords : List String :=
  ["client", "async_client", "T", "A", "B", "new", "argument", "options", "buffer"]

/-- The words of the emitter in every module of servers. -/
def serverWords : List String :=
  ["server", "async_server", "T", "inner", "new", "dispatch", "request", "argument",
    "response", "payload"]

/-- The names in the modules of the clients. -/
def ClientStubs.binders (clientName : String) (stubs : ClientStubs) : List String :=
  clientName :: clientWords ++
    (stubs.client ++ stubs.asyncClient ++ stubs.ownedClient).map ClientMethod.name

/-- The names in the modules of the servers. -/
def ServerStubs.binders (serviceName dispatchName : String) (stubs : ServerStubs) : List String :=
  serviceName :: dispatchName :: serverWords ++
    (stubs.server.service ++ stubs.asyncServer.service).map ServiceMethod.name

/-- The names in the module of a version among the stubs. -/
def VersionStubs.binders (version : VersionStubs) : List String :=
  version.moduleName :: version.generated.constants.map Prod.fst ++
    (version.generated.client.toList.flatMap (ClientStubs.binders version.clientName) ++
      version.generated.server.toList.flatMap
        (ServerStubs.binders version.serviceName version.dispatchName))

/-- The names in the module of a program. -/
def ProgramModule.binders {α : Type} (versionBinders : α → List String) (module : ProgramModule α) :
    List String :=
  module.moduleName :: "PROGRAM" :: module.versions.flatMap versionBinders

/-! ## When they are identifiers -/

/-- The names are identifiers. -/
def AllLegal (names : List String) : Prop := ∀ name ∈ names, LegalIdent name

theorem allLegal_append {names more : List String} :
    AllLegal (names ++ more) ↔ AllLegal names ∧ AllLegal more :=
  List.forall_mem_append

theorem allLegal_cons {name : String} {names : List String} :
    AllLegal (name :: names) ↔ LegalIdent name ∧ AllLegal names :=
  List.forall_mem_cons

theorem allLegal_flatMap {α : Type} {xs : List α} {f : α → List String} :
    AllLegal (xs.flatMap f) ↔ ∀ x ∈ xs, AllLegal (f x) :=
  List.forall_mem_flatMap

/-- The words of the emitter are identifiers. -/
theorem legalIdent_word {word : String}
    (hmem : word ∈ clientWords ++ serverWords ++ ["PROGRAM", "VERSION"]) : LegalIdent word := by
  have hwords : ∀ word ∈ clientWords ++ serverWords ++ ["PROGRAM", "VERSION"], LegalWord word := by
    decide +kernel
  exact .inl (hwords word hmem)

/-- No emitter turns the names of the version into keywords.  The names of its procedures are put in
lower case only where there are `methods`. -/
structure VersionDecl.NamesFit (methods : Prop) (version : VersionDecl) : Prop where
  moduleName : Foldable version.name
  constants : ∀ p ∈ version.procedures, Unreserved p.name
  methodNames : methods → ∀ p ∈ version.procedures, Foldable p.name

/-- No emitter turns the names of the program into keywords. -/
structure ProgramDecl.NamesFit (methods : Prop) (decl : ProgramDecl) : Prop where
  moduleName : Foldable decl.name
  versions : ∀ version ∈ decl.versions, version.NamesFit methods

/-- The methods of a service have the names of the procedures in lower case. -/
theorem StubEmitter.map_name_serviceMethods {emitter : StubEmitter}
    {procedures : List ProcedureDecl} {methods : List ServiceMethod}
    (h : List.Forall₂ (fun p method => emitter.serviceMethod p = .ok method) procedures methods) :
    methods.map ServiceMethod.name = procedures.map fun p => toSnakeCase p.name := by
  induction h with
  | nil => rfl
  | cons hmethod _ ih =>
    obtain ⟨types, -, rfl⟩ := serviceMethod_eq_ok.mp hmethod
    rw [List.map_cons, ih, List.map_cons]

section Versions

variable {emitter : StubEmitter} {version : VersionDecl} {g : GeneratedVersion}
  (hprocedures : ∀ p ∈ version.procedures, IsWord p.name.toList)

include hprocedures

/-- The constants of a version. -/
theorem legal_constants_iff (number : UInt32) : AllLegal
    ((("VERSION", number) :: version.procedures.map fun p => (p.name, p.number)).map Prod.fst) ↔
      ∀ p ∈ version.procedures, Unreserved p.name := by
  have hversion : LegalIdent "VERSION" := legalIdent_word (by decide)
  rw [List.map_cons, List.map_map, allLegal_cons, and_iff_right hversion, AllLegal,
    List.forall_mem_map]
  exact forall₂_congr fun p hp => legalIdent_iff_unreserved (hprocedures p hp)

/-- The ordinary methods of the procedures. -/
theorem legal_ordinaryNames_iff : AllLegal (version.procedures.flatMap StubEmitter.ordinaryNames) ↔
    ∀ p ∈ version.procedures, Foldable p.name := by
  rw [allLegal_flatMap]
  refine forall₂_congr fun p hp => ?_
  have hword := (hprocedures p hp).toSnakeCase
  have hoptions : AllLegal [toSnakeCase p.name ++ "_with_options"] := by
    intro name hmem
    rw [List.mem_singleton.mp hmem]
    exact legalIdent_suffixed (by decide) hword
  rw [StubEmitter.ordinaryNames, allLegal_cons, and_iff_left hoptions,
    legalIdent_toSnakeCase (hprocedures p hp)]

/-- The names of caller-owned methods are identifiers, whatever the procedures are called. -/
theorem legal_ownedNames : AllLegal (version.procedures.flatMap emitter.ownedNames) := by
  rw [allLegal_flatMap]
  intro p hp
  have hword := (hprocedures p hp).toSnakeCase
  have htry : IsWord ("try_" ++ toSnakeCase p.name).toList := by
    have hprefix : IsWord "try_".toList := by decide
    exact hprefix.append hword.wordChar
  have hnames : AllLegal [toSnakeCase p.name ++ "_segmented",
      "try_" ++ toSnakeCase p.name ++ "_segmented", toSnakeCase p.name ++ "_into",
      "try_" ++ toSnakeCase p.name ++ "_into"] := by
    simp only [AllLegal, List.forall_mem_cons, List.not_mem_nil, false_imp_iff,
      implies_true, and_true]
    exact ⟨legalIdent_suffixed (by decide) hword, legalIdent_suffixed (by decide) htry,
      legalIdent_suffixed (by decide) hword, legalIdent_suffixed (by decide) htry⟩
  intro name hname
  refine hnames name ?_
  rcases List.mem_append.mp hname with hname | hname
  · exact List.mem_append_left [_, _] hname
  · split at hname
    · exact List.mem_append_right [_, _] hname
    · cases hname

/-- The names in the modules of the clients are identifiers exactly if no procedure is a keyword in
lower case. -/
theorem legal_client_iff (hversion : IsWord version.name.toList)
    (hemit : emitter.emitVersion version = .ok g) {stubs : ClientStubs}
    (hstubs : g.client = some stubs) :
    AllLegal (stubs.binders (version.name ++ "Client")) ↔
      ∀ p ∈ version.procedures, Foldable p.name := by
  obtain ⟨methods, owned, hmethods, howned, rfl⟩ := emitter.client_of_emitVersion hemit hstubs
  have hordinary := StubEmitter.map_name_clientMethods (mapM_eq_ok.mp hmethods)
  have hownedNames := StubEmitter.map_name_ownedMethods (mapM_eq_ok.mp howned)
  have hname : LegalIdent (version.name ++ "Client") := legalIdent_suffixed (by decide) hversion
  have hwords : AllLegal clientWords := fun word hmem => legalIdent_word (by simp [hmem])
  rw [ClientStubs.binders, List.cons_append, allLegal_cons, allLegal_append, List.map_append,
    List.map_append, hordinary, hownedNames, allLegal_append, allLegal_append,
    legal_ordinaryNames_iff hprocedures]
  exact ⟨fun h => h.2.2.1.1, fun h => ⟨hname, hwords, ⟨h, h⟩, legal_ownedNames hprocedures⟩⟩

/-- The names in the modules of the servers are identifiers exactly if no procedure is a keyword in
lower case. -/
theorem legal_server_iff (hversion : IsWord version.name.toList)
    (hemit : emitter.emitVersion version = .ok g) {stubs : ServerStubs}
    (hstubs : g.server = some stubs) :
    AllLegal (stubs.binders (version.name ++ "Service") (version.name ++ "Dispatch")) ↔
      ∀ p ∈ version.procedures, Foldable p.name := by
  obtain ⟨m, hservice, -, rfl⟩ := emitter.server_of_emitVersion hemit hstubs
  have hnames := StubEmitter.map_name_serviceMethods (mapM_eq_ok.mp hservice)
  have hserviceName : LegalIdent (version.name ++ "Service") :=
    legalIdent_suffixed (by decide) hversion
  have hdispatchName : LegalIdent (version.name ++ "Dispatch") :=
    legalIdent_suffixed (by decide) hversion
  have hwords : AllLegal serverWords := fun word hmem => legalIdent_word (by simp [hmem])
  have hmethods : AllLegal (version.procedures.map fun p => toSnakeCase p.name) ↔
      ∀ p ∈ version.procedures, Foldable p.name := by
    rw [AllLegal, List.forall_mem_map]
    exact forall₂_congr fun p hp => legalIdent_toSnakeCase (hprocedures p hp)
  rw [ServerStubs.binders, List.cons_append, List.cons_append, allLegal_cons, allLegal_cons,
    allLegal_append, List.map_append, hnames, allLegal_append, hmethods]
  exact ⟨fun h => h.2.2.2.1, fun h => ⟨hserviceName, hdispatchName, hwords, h, h⟩⟩

/-- The names in the module of a version among the types. -/
theorem legal_versionConsts_iff (hversion : IsWord version.name.toList) :
    AllLegal (VersionConsts.binders ⟨toSnakeCase version.name,
      ("VERSION", version.number) :: version.procedures.map fun p => (p.name, p.number)⟩) ↔
      version.NamesFit False := by
  rw [VersionConsts.binders, allLegal_cons, legal_constants_iff hprocedures,
    legalIdent_toSnakeCase hversion]
  exact ⟨fun h => ⟨h.1, h.2, False.elim⟩, fun h => ⟨h.moduleName, h.constants⟩⟩

/-- The names in the module of a version among the stubs. -/
theorem legal_versionStubs_iff (hversion : IsWord version.name.toList) {written : VersionStubs}
    (hemit : emitter.emitVersionModule version = .ok written) : AllLegal written.binders ↔
      version.NamesFit (emitter.emitClient = true ∨ emitter.emitServer = true) := by
  obtain ⟨g, hg, hwritten⟩ := except_bind_eq_ok.mp hemit
  obtain rfl := Except.ok.inj hwritten
  obtain ⟨-, hconstants, hclient, hserver⟩ := StubEmitter.emitVersion_eq_ok.mp hg
  have hclientNames :
      AllLegal (g.client.toList.flatMap (ClientStubs.binders (version.name ++ "Client"))) ↔
      (emitter.emitClient = true → ∀ p ∈ version.procedures, Foldable p.name) := by
    rcases hclient with ⟨hon, stubs, -, hstubs⟩ | ⟨hoff, hnone⟩
    · have hiff := legal_client_iff hprocedures hversion hg hstubs
      rw [hstubs, allLegal_flatMap]
      simpa [hon] using hiff
    · rw [hnone, allLegal_flatMap]
      simp [hoff]
  have hserverNames : AllLegal (g.server.toList.flatMap
        (ServerStubs.binders (version.name ++ "Service") (version.name ++ "Dispatch"))) ↔
      (emitter.emitServer = true → ∀ p ∈ version.procedures, Foldable p.name) := by
    rcases hserver with ⟨hon, stubs, -, hstubs⟩ | ⟨hoff, hnone⟩
    · have hiff := legal_server_iff hprocedures hversion hg hstubs
      rw [hstubs, allLegal_flatMap]
      simpa [hon] using hiff
    · rw [hnone, allLegal_flatMap]
      simp [hoff]
  rw [VersionStubs.binders, List.cons_append, allLegal_cons, allLegal_append, allLegal_append,
    hclientNames, hserverNames, legalIdent_toSnakeCase hversion, hconstants,
    legal_constants_iff hprocedures]
  constructor
  · rintro ⟨hmodule, hnames, hclient, hserver⟩
    exact ⟨hmodule, hnames, fun hon => hon.elim hclient hserver⟩
  · intro h
    exact ⟨h.moduleName, h.constants, fun hon => h.methodNames (.inl hon),
      fun hon => h.methodNames (.inr hon)⟩

end Versions

/-- The names in the module of a program, from those in the modules of its versions. -/
theorem ProgramModule.legal_iff {α : Type} {versionBinders : α → List String} {decl : ProgramDecl}
    {methods : Prop} {module : ProgramModule α} (hname : IsWord decl.name.toList)
    (hmodule : module.moduleName = toSnakeCase decl.name)
    (hversions : (∀ written ∈ module.versions, AllLegal (versionBinders written)) ↔
      ∀ version ∈ decl.versions, version.NamesFit methods) :
    AllLegal (module.binders versionBinders) ↔ decl.NamesFit methods := by
  have hprogram : LegalIdent "PROGRAM" := legalIdent_word (by decide)
  rw [ProgramModule.binders, allLegal_cons, allLegal_cons, allLegal_flatMap, hmodule,
    legalIdent_toSnakeCase hname, hversions]
  exact ⟨fun h => ⟨h.1, h.2.2⟩, fun h => ⟨h.moduleName, hprogram, h.versions⟩⟩

section Programs

variable {decl : ProgramDecl} (hnames : ∀ name ∈ decl.names, IsIdentifier name)

include hnames

/-- The names of the versions of a program are words. -/
theorem ProgramDecl.versions_named {version : VersionDecl} (hversion : version ∈ decl.versions) :
    IsWord version.name.toList ∧ ∀ p ∈ version.procedures, IsWord p.name.toList := by
  have hmem {name : String}
      (hname : name ∈ version.name :: version.procedures.map ProcedureDecl.name) :
      IsWord name.toList :=
    (hnames name (List.mem_cons_of_mem _ (List.mem_flatMap.mpr ⟨version, hversion, hname⟩))).1
  exact ⟨hmem (List.mem_cons_self ..),
    fun p hp => hmem (List.mem_cons_of_mem _ (List.mem_map_of_mem hp))⟩

/-- The module of a program among the types. -/
theorem TypeEmitter.emitProgram_legal_iff :
    AllLegal ((TypeEmitter.emitProgram decl).binders VersionConsts.binders) ↔
      decl.NamesFit False := by
  refine ProgramModule.legal_iff (hnames _ (List.mem_cons_self ..)).1 rfl ?_
  rw [TypeEmitter.emitProgram, List.forall_mem_map]
  refine forall₂_congr fun version hversion => ?_
  obtain ⟨hname, hprocedures⟩ := decl.versions_named hnames hversion
  exact legal_versionConsts_iff hprocedures hname

/-- The module of a program among the stubs. -/
theorem StubEmitter.emitProgram_legal_iff {emitter : StubEmitter}
    {module : ProgramModule VersionStubs} (hemit : emitter.emitProgram decl = .ok module) :
    AllLegal (module.binders VersionStubs.binders) ↔
      decl.NamesFit (emitter.emitClient = true ∨ emitter.emitServer = true) := by
  obtain ⟨versions, hversions, hmodule⟩ := except_bind_eq_ok.mp hemit
  obtain rfl := Except.ok.inj hmodule
  refine ProgramModule.legal_iff (hnames _ (List.mem_cons_self ..)).1 rfl ?_
  have hforall := mapM_eq_ok.mp hversions
  constructor
  · intro h version hversion
    obtain ⟨hname, hprocedures⟩ := decl.versions_named hnames hversion
    obtain ⟨written, hwritten, hok⟩ := exists_of_mem_left hforall hversion
    exact (legal_versionStubs_iff hprocedures hname hok).mp (h written hwritten)
  · intro h written hwritten
    obtain ⟨version, hversion, hok⟩ := exists_of_mem_left hforall.flip hwritten
    obtain ⟨hname, hprocedures⟩ := decl.versions_named hnames hversion
    exact (legal_versionStubs_iff hprocedures hname hok).mpr (h version hversion)

end Programs

section Schemas

variable {schema : Schema} (hnamed : schema.Named)

include hnamed

theorem Schema.Named.programs {decl : ProgramDecl} (h : decl ∈ schema.programs) :
    ∀ name ∈ decl.names, IsIdentifier name := by
  obtain ⟨item, hitem, hsome⟩ := List.mem_filterMap.mp h
  rcases item with _ | _ | _ | _ | _ | other
  case program =>
    obtain rfl := Option.some.inj hsome
    exact hnamed.items _ hitem
  all_goals cases hsome

/-- The modules of programs among the types of a schema. -/
theorem TypeEmitter.emitPrograms_legal_iff :
    AllLegal ((schema.programs.map TypeEmitter.emitProgram).flatMap
        (ProgramModule.binders VersionConsts.binders)) ↔
      ∀ decl ∈ schema.programs, decl.NamesFit False := by
  rw [allLegal_flatMap, List.forall_mem_map]
  exact forall₂_congr fun decl hdecl =>
    TypeEmitter.emitProgram_legal_iff (hnamed.programs hdecl)

/-- The stubs of a schema. -/
theorem StubEmitter.emitSchema_legal_iff {emitter : StubEmitter}
    {modules : List (ProgramModule VersionStubs)}
    (hemit : emitter.emitSchema schema = .ok modules) :
    AllLegal (modules.flatMap (ProgramModule.binders VersionStubs.binders)) ↔
      ∀ decl ∈ schema.programs,
        decl.NamesFit (emitter.emitClient = true ∨ emitter.emitServer = true) := by
  have hforall := mapM_eq_ok.mp hemit
  rw [allLegal_flatMap]
  constructor
  · intro h decl hdecl
    obtain ⟨module, hmodule, hok⟩ := exists_of_mem_left hforall hdecl
    exact (StubEmitter.emitProgram_legal_iff (hnamed.programs hdecl) hok).mp (h module hmodule)
  · intro h module hmodule
    obtain ⟨decl, hdecl, hok⟩ := exists_of_mem_left hforall.flip hmodule
    exact (StubEmitter.emitProgram_legal_iff (hnamed.programs hdecl) hok).mpr (h decl hdecl)

end Schemas

end OncRpc
