import OncRpc.Gen.Render
import OncRpc.Gen.Routing

/-!
# The names of client methods

A generated client has a constructor, two ordinary methods for each procedure and, if it is an
asynchronous one, two or four caller-owned ones.  All names are made from those of the procedures by
putting them in lower case and adding prefixes and suffixes.

The emitter collects the constructor and the ordinary methods in a set, and then checks that no
caller-owned method has a name from the set.  The set forgets how often a name was put into it, so
that a clash among the constructor and the ordinary methods passes.  `client_names_distinct_iff`
says when the names of a client are distinct.
-/

namespace OncRpc

open Foundation

/-- The names of the methods of each client are distinct.  The asynchronous client has two
implementations, and the second is for a transport that the first covers as well. -/
structure ClientStubs.NamesDistinct (stubs : ClientStubs) : Prop where
  client : ("new" :: stubs.client.map ClientMethod.name).Nodup
  asyncClient : ("new" :: (stubs.asyncClient ++ stubs.ownedClient).map ClientMethod.name).Nodup

/-- In lower case no procedure is called like the constructor, no two are called alike, and none is
called like another with options. -/
structure VersionDecl.MethodsFree (version : VersionDecl) : Prop where
  constructor : ∀ p ∈ version.procedures, toSnakeCase p.name ≠ "new"
  names : (version.procedures.map fun p => toSnakeCase p.name).Nodup
  withOptions : ∀ p ∈ version.procedures, ∀ q ∈ version.procedures,
    toSnakeCase p.name ≠ toSnakeCase q.name ++ "_with_options"

namespace StubEmitter

variable {emitter : StubEmitter} {version : VersionDecl} {g : GeneratedVersion}

/-- The ordinary methods of a list of procedures have the ordinary names. -/
theorem map_name_clientMethods {procedures : List ProcedureDecl}
    {methods : List (List ClientMethod)}
    (h : List.Forall₂ (fun p own => emitter.clientMethods p = .ok own) procedures methods) :
    methods.flatten.map ClientMethod.name = procedures.flatMap ordinaryNames := by
  induction h with
  | nil => rfl
  | cons hemit _ ih =>
    obtain ⟨types, -, rfl⟩ := clientMethods_eq_ok.mp hemit
    rw [List.flatten_cons, List.map_append, ih, List.flatMap_cons]
    rfl

/-- The caller-owned methods have the caller-owned names. -/
theorem map_name_ownedMethods {procedures : List ProcedureDecl} {methods : List (List ClientMethod)}
    (h : List.Forall₂ (fun p own => emitter.emitOwnedClientMethods p = .ok own)
      procedures methods) :
    methods.flatten.map ClientMethod.name = procedures.flatMap emitter.ownedNames := by
  induction h with
  | nil => rfl
  | cons hemit _ ih =>
    rw [List.flatten_cons, List.map_append, ih, List.flatMap_cons,
      (emitOwnedClientMethods_eq_ok hemit).1]

/-- No method with options is called like the constructor. -/
theorem withOptions_ne_new (name : String) : name ++ "_with_options" ≠ "new" := by
  intro h
  have hlength := congrArg String.length h
  rw [String.length_append] at hlength
  have hsuffix : "_with_options".length = 13 := by decide
  have hnew : "new".length = 3 := by decide
  omega

/-- The names that are taken before any caller-owned method are distinct if they are free. -/
theorem nodup_takenNames_iff : (takenNames version).Nodup ↔ version.MethodsFree := by
  have hordinary : (version.procedures.flatMap ordinaryNames).Nodup ↔
      (version.procedures.map fun p => toSnakeCase p.name).Nodup ∧
        ∀ p ∈ version.procedures, ∀ q ∈ version.procedures,
          toSnakeCase p.name ≠ toSnakeCase q.name ++ "_with_options" := by
    rw [List.nodup_flatMap, ← pairwise_ordinaryNames_iff]
    refine and_iff_right fun p _ => ?_
    exact List.nodup_cons.mpr ⟨fun hmem => ne_withOptions _ (List.mem_singleton.mp hmem),
      List.nodup_singleton _⟩
  have hnew : "new" ∉ version.procedures.flatMap ordinaryNames ↔
      ∀ p ∈ version.procedures, toSnakeCase p.name ≠ "new" := by
    constructor
    · intro hnot p hp hname
      exact hnot (List.mem_flatMap.mpr ⟨p, hp, hname ▸ List.mem_cons_self ..⟩)
    · intro hne hmem
      obtain ⟨p, hp, hname⟩ := List.mem_flatMap.mp hmem
      rcases List.mem_cons.mp hname with hname | hname
      · exact hne p hp hname.symm
      · exact withOptions_ne_new _ (List.mem_singleton.mp hname).symm
  rw [takenNames, List.nodup_cons, hnew, hordinary]
  exact ⟨fun h => ⟨h.1, h.2.1, h.2.2⟩, fun h => ⟨h.constructor, h.names, h.withOptions⟩⟩

/-- The names of a client that is written are distinct exactly if those of the constructor and of
the ordinary methods are. -/
theorem namesDistinct_iff (hemit : emitter.emitVersion version = .ok g) {stubs : ClientStubs}
    (hstubs : g.client = some stubs) : stubs.NamesDistinct ↔ (takenNames version).Nodup := by
  obtain ⟨hfree, -, hclient, -⟩ := emitVersion_eq_ok.mp hemit
  have hon : emitter.emitClient = true := by
    rcases hclient with ⟨hon, -⟩ | ⟨-, hnone⟩
    · exact hon
    · rw [hnone] at hstubs
      cases hstubs
  obtain ⟨hnodup, hdisjoint⟩ := hfree hon
  obtain ⟨methods, owned, hmethods, howned, rfl⟩ := client_of_emitVersion hemit hstubs
  have hordinaryNames := map_name_clientMethods (mapM_eq_ok.mp hmethods)
  have hownedNames := map_name_ownedMethods (mapM_eq_ok.mp howned)
  constructor
  · rintro ⟨hclient, -⟩
    rwa [hordinaryNames] at hclient
  · intro htaken
    refine ⟨by rwa [hordinaryNames], ?_⟩
    rw [List.map_append, hordinaryNames, hownedNames, ← List.cons_append]
    exact List.nodup_append.mpr ⟨htaken, hnodup, fun name hname other hother heq =>
      hdisjoint hother (heq ▸ hname)⟩

end StubEmitter

/-- The names of the methods of the clients of a version are distinct if and only if the names of
its procedures are free. -/
theorem client_names_distinct_iff (emitter : StubEmitter) (version : VersionDecl)
    (g : GeneratedVersion) (hemit : emitter.emitVersion version = .ok g) (stubs : ClientStubs)
    (hstubs : g.client = some stubs) : stubs.NamesDistinct ↔ version.MethodsFree :=
  (StubEmitter.namesDistinct_iff hemit hstubs).trans StubEmitter.nodup_takenNames_iff

/-- The clients of a version; nothing where the emitter fails. -/
def StubEmitter.clientsOf (emitter : StubEmitter) (version : VersionDecl) : Option ClientStubs :=
  (emitter.emitVersion version).toOption.bind GeneratedVersion.client

theorem StubEmitter.exists_of_clientsOf {emitter : StubEmitter} {version : VersionDecl}
    {stubs : ClientStubs} (h : emitter.clientsOf version = some stubs) :
    ∃ g, emitter.emitVersion version = .ok g ∧ g.client = some stubs := by
  obtain ⟨g, hg, hstubs⟩ := Option.bind_eq_some_iff.mp h
  rcases hemit : emitter.emitVersion version with error | g'
  · rw [hemit] at hg
    cases hg
  · rw [hemit] at hg
    exact ⟨g', rfl, (Option.some.inj hg) ▸ hstubs⟩

/-- A version with a procedure to fetch and one to store. -/
def VersionDecl.fetchStore : VersionDecl :=
  ⟨"V1", [⟨.int, "FETCH", .void, 1⟩, ⟨.void, "STORE", .int, 2⟩], 1⟩

/-- Its clients have distinct names. -/
theorem client_names_distinct_fetchStore :
    ∃ stubs, StubEmitter.both.clientsOf .fetchStore = some stubs ∧ stubs.NamesDistinct := by
  have hsome : (StubEmitter.both.clientsOf .fetchStore).isSome = true := by decide +kernel
  obtain ⟨stubs, hstubs⟩ := Option.isSome_iff_exists.mp hsome
  obtain ⟨g, hemit, hclient⟩ := StubEmitter.exists_of_clientsOf hstubs
  have hmethods : VersionDecl.fetchStore.MethodsFree :=
    ⟨by decide +kernel, by decide +kernel, by decide +kernel⟩
  exact ⟨stubs, hstubs,
    (client_names_distinct_iff StubEmitter.both .fetchStore g hemit stubs hclient).mpr hmethods⟩

/-- A version with a procedure that is called like another with options. -/
def VersionDecl.fetchOptions : VersionDecl :=
  ⟨"V1", [⟨.void, "FETCH", .void, 1⟩, ⟨.void, "FETCH_WITH_OPTIONS", .void, 2⟩], 1⟩

/-- A source with this version. -/
def fetchOptionsSource : String :=
  "program TEST \x7b version V1 \x7b void FETCH(void) = 1; void FETCH_WITH_OPTIONS(void) = 2; \x7d = 1;" ++
    " \x7d = 300002;"

/-- The clients of the version are written, and each has two methods of one name. -/
theorem method_with_options_twice :
    parseXSource fetchOptionsSource =
        some (.ok ⟨[.program ⟨"TEST", [.fetchOptions], 300002⟩]⟩) ∧
      ∃ stubs, StubEmitter.both.clientsOf .fetchOptions = some stubs ∧
        stubs.client.map ClientMethod.name = ["fetch", "fetch_with_options", "fetch_with_options",
          "fetch_with_options_with_options"] ∧ ¬ stubs.NamesDistinct := by
  have hparse : parseXSource fetchOptionsSource =
      some (.ok ⟨[.program ⟨"TEST", [.fetchOptions], 300002⟩]⟩) :=
    parseXSource_of_chars (toList_append_of_eq (toList_of_eq rfl) (toList_of_eq rfl))
      (by decide +kernel) rfl
  have hnames : (StubEmitter.both.clientsOf .fetchOptions).map
      (fun stubs => stubs.client.map ClientMethod.name) = some ["fetch", "fetch_with_options",
        "fetch_with_options", "fetch_with_options_with_options"] := by decide +kernel
  obtain ⟨stubs, hstubs, hclient⟩ := Option.map_eq_some_iff.mp hnames
  refine ⟨hparse, stubs, hstubs, hclient, fun hdistinct => ?_⟩
  have hnodup := hdistinct.client
  rw [hclient] at hnodup
  exact absurd hnodup (by decide)

end OncRpc
