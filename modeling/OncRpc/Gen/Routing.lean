import OncRpc.Gen.Stubs
import OncRpc.Gen.Labels
import OncRpc.Gen.Output

/-!
# Stubs that route alike

The generated client of a procedure and the generated dispatchers have to agree on the number of the
procedure, and every number has to reach the method of its own procedure.  The emitter makes sure of
the first by taking both from one declaration.  The second needs distinct numbers, which it does not
check, and distinct method names.  Of the method names it checks only those of the caller-owned
methods, and only when it writes a client.

`stubs_route_alike_iff` says for which versions the stubs are right.
-/

namespace OncRpc

open Foundation

/-! ## The property -/

/-- The compiler accepts the names of the module: no scope defines a name twice. -/
structure GeneratedVersion.Compiles (g : GeneratedVersion) : Prop where
  constants : (g.constants.map Prod.fst).Nodup
  client : ∀ stubs, g.client = some stubs →
    ("new" :: stubs.client.map ClientMethod.name).Nodup ∧
      ("new" :: (stubs.asyncClient ++ stubs.ownedClient).map ClientMethod.name).Nodup
  server : ∀ stubs, g.server = some stubs →
    (stubs.server.service.map ServiceMethod.name).Nodup ∧
      (stubs.asyncServer.service.map ServiceMethod.name).Nodup

/-- A caller-owned method takes the argument of its procedure, in segments if it has such a form,
and gives its reply or the metadata of the reply. -/
def StubEmitter.OwnedTypes (emitter : StubEmitter) (procedure : ProcedureDecl)
    (types : ProcedureTypes) (method : ClientMethod) : Prop :=
  method.argument = ((emitter.segmentsName procedure).map RustType.named).getD types.argument ∧
    (method.reply = types.reply ∨
      (emitter.metadataName procedure).map RustType.named = some method.reply)

/-- Clients send the number of their procedure, dispatchers call the method of the procedure whose
number they get, with the types of the procedure, and know no other numbers. -/
structure GeneratedVersion.RoutesAlike (g : GeneratedVersion) (emitter : StubEmitter)
    (version : VersionDecl) : Prop where
  client : ∀ stubs, g.client = some stubs → ∀ p ∈ version.procedures,
    ∀ methods ∈ [stubs.client, stubs.asyncClient], ∃ types,
      emitter.procedureTypes p = .ok types ∧ ∀ name ∈ StubEmitter.ordinaryNames p, ∃ method,
        resolve ClientMethod.name methods name = some method ∧
        method.argument = types.argument ∧ method.reply = types.reply ∧
        g.sends method = some p.number
  ownedClient : ∀ stubs, g.client = some stubs → ∀ p ∈ version.procedures, ∃ types,
    emitter.procedureTypes p = .ok types ∧ ∀ name ∈ emitter.ownedNames p, ∃ method,
      resolve ClientMethod.name (stubs.asyncClient ++ stubs.ownedClient) name = some method ∧
      emitter.OwnedTypes p types method ∧ g.sends method = some p.number
  ownedMethods : ∀ stubs, g.client = some stubs → ∀ method ∈ stubs.ownedClient,
    ∃ p ∈ version.procedures, method.name ∈ emitter.ownedNames p ∧ g.sends method = some p.number
  server : ∀ stubs, g.server = some stubs → ∀ p ∈ version.procedures,
    ∀ m ∈ [stubs.server, stubs.asyncServer], ∃ types, emitter.procedureTypes p = .ok types ∧
      resolve ServiceMethod.name m.service (toSnakeCase p.name) =
        some ⟨toSnakeCase p.name, types.argument, types.reply⟩ ∧
      ∀ codec service payload, m.dispatch codec service p.number payload =
        DispatchArm.serve ⟨p.number, types.argument, toSnakeCase p.name, types.reply⟩ codec service
          payload
  others : ∀ stubs, g.server = some stubs → ∀ m ∈ [stubs.server, stubs.asyncServer], ∀ number,
    (∀ p ∈ version.procedures, p.number ≠ number) → ∀ codec service payload,
      m.dispatch codec service number payload = .error .procedureUnavailable

namespace StubEmitter

variable (emitter : StubEmitter) (version : VersionDecl)

/-- The names of the methods that are written for a procedure. -/
def methodNames (procedure : ProcedureDecl) : List String :=
  if emitter.emitClient then ordinaryNames procedure ++ emitter.ownedNames procedure
  else if emitter.emitServer then [toSnakeCase procedure.name]
  else []

-- The reply has no metadata, so no method takes a destination.
example : methodNames ⟨none, [], true, true, ⟨[], []⟩⟩ ⟨.int, "FETCH", .int, 1⟩ =
    ["fetch", "fetch_with_options", "fetch_segmented", "try_fetch_segmented"] := by
  decide +kernel

/-- No two procedures have the same number or a method in common. -/
def Unambiguous : Prop :=
  version.procedures.Pairwise fun p q =>
    p.number ≠ q.number ∧ (emitter.methodNames p).Disjoint (emitter.methodNames q)

/-- The stubs of a version are right: what is written routes alike, and a version with two
procedures of the same number, or with names that give the same method, is an error. -/
def StubsRouteAlike : Prop :=
  (∀ g, emitter.emitVersion version = .ok g → g.Compiles → g.RoutesAlike emitter version) ∧
    (¬ emitter.Unambiguous version → ∃ error, emitter.emitVersion version = .error error)

end StubEmitter

/-! ## What is refused -/

/-- The type is declared where it is used. -/
def TypeSpec.isInline : TypeSpec → Bool
  | .enum _ | .struct _ | .union _ => true
  | _ => false

namespace StubEmitter

variable {emitter : StubEmitter} {version : VersionDecl} {p : ProcedureDecl}

/-- A procedure has an inline type. -/
def UsesInline (version : VersionDecl) : Prop :=
  ∃ p ∈ version.procedures, p.argumentType.isInline = true ∨ p.returnType.isInline = true

/-- The names of the caller-owned methods are free and distinct. -/
def OwnedNamesFree (emitter : StubEmitter) (version : VersionDecl) : Prop :=
  (version.procedures.flatMap emitter.ownedNames).Nodup ∧
    (version.procedures.flatMap emitter.ownedNames).Disjoint (takenNames version)

/-- The emitter rejects the version: a stub would have an inline type, or a caller-owned method a
name that is taken. -/
def Refuses (emitter : StubEmitter) (version : VersionDecl) : Prop :=
  ((emitter.emitClient = true ∨ emitter.emitServer = true) ∧ UsesInline version) ∨
    emitter.emitClient = true ∧ ¬ emitter.OwnedNamesFree version

/-- The types of arguments and replies are those that are not inline. -/
theorem procedureRustType_isOk_iff (emitter : StubEmitter) (target : TypeSpec) :
    (∃ type, emitter.procedureRustType target = .ok type) ↔ target.isInline = false := by
  cases target <;> simp [procedureRustType, TypeSpec.isInline]

/-- So are the types of procedures. -/
theorem procedureTypes_isOk_iff (emitter : StubEmitter) (p : ProcedureDecl) :
    (∃ types, emitter.procedureTypes p = .ok types) ↔
      p.argumentType.isInline = false ∧ p.returnType.isInline = false := by
  rw [← emitter.procedureRustType_isOk_iff, ← emitter.procedureRustType_isOk_iff]
  unfold procedureTypes
  simp only [except_bind_eq_ok]
  constructor
  · rintro ⟨types, argument, hargument, reply, hreply, -⟩
    exact ⟨⟨argument, hargument⟩, reply, hreply⟩
  · rintro ⟨⟨argument, hargument⟩, reply, hreply⟩
    exact ⟨_, argument, hargument, reply, hreply, rfl⟩

/-- Taking names one after the other succeeds if they are distinct and none is taken. -/
theorem foldlM_insertOwned_isOk_iff (version : String) (owned names : List String) :
    (∃ result, owned.foldlM (insertOwned version) names = .ok result) ↔
      owned.Nodup ∧ owned.Disjoint names := by
  induction owned generalizing names with
  | nil => simp [pure, Except.pure]
  | cons name owned ih =>
    rw [List.foldlM_cons]
    by_cases hmem : name ∈ names
    · simp [insertOwned, hmem, bind, Except.bind]
    · have hstep : insertOwned version names name = .ok (name :: names) := if_neg hmem
      have hnext : (insertOwned version names name >>= fun names =>
          owned.foldlM (insertOwned version) names) =
            owned.foldlM (insertOwned version) (name :: names) := by
        rw [hstep]
        rfl
      rw [hnext, ih, List.nodup_cons, List.disjoint_cons_left, List.disjoint_cons_right]
      exact ⟨fun h => ⟨⟨h.2.1, h.1⟩, hmem, h.2.2⟩, fun h => ⟨h.1.2, h.1.1, h.2.2⟩⟩

/-- The check of the caller-owned names. -/
theorem validateOwnedMethodNames_isOk_iff :
    emitter.validateOwnedMethodNames version = .ok () ↔ emitter.OwnedNamesFree version := by
  unfold validateOwnedMethodNames OwnedNamesFree
  rw [← foldlM_insertOwned_isOk_iff version.name, except_bind_eq_ok]
  constructor
  · rintro ⟨result, hresult, -⟩
    exact ⟨result, hresult⟩
  · rintro ⟨result, hresult⟩
    exact ⟨result, hresult, rfl⟩

/-- A list of emissions succeeds if each does. -/
theorem mapM_isOk_iff {ε α β : Type} {f : α → Except ε β} {xs : List α} :
    (∃ ys, xs.mapM f = .ok ys) ↔ ∀ x ∈ xs, ∃ y, f x = .ok y := by
  induction xs with
  | nil => simp [pure, Except.pure]
  | cons x xs ih =>
    rw [List.forall_mem_cons, ← ih]
    simp only [List.mapM_cons, except_bind_eq_ok]
    constructor
    · rintro ⟨-, y, hy, ys, hys, -⟩
      exact ⟨⟨y, hy⟩, ys, hys⟩
    · rintro ⟨⟨y, hy⟩, ys, hys⟩
      exact ⟨_, y, hy, ys, hys, rfl⟩

/-- An emission that cannot fail after another. -/
theorem bind_ok_eq_ok {ε α β : Type} {x : Except ε α} {f : α → β} {y : β} :
    (x >>= fun a => .ok (f a)) = .ok y ↔ ∃ a, x = .ok a ∧ y = f a := by
  rw [except_bind_eq_ok]
  simp only [Except.ok.injEq, eq_comm]

/-- The ordinary client methods of a procedure. -/
theorem clientMethods_eq_ok {methods : List ClientMethod} :
    emitter.clientMethods p = .ok methods ↔ ∃ types, emitter.procedureTypes p = .ok types ∧
      methods = [⟨toSnakeCase p.name, .callTyped, p.name, types.argument, types.reply⟩,
        ⟨toSnakeCase p.name ++ "_with_options", .callTypedWithOptions, p.name, types.argument,
          types.reply⟩] :=
  bind_ok_eq_ok

/-- The caller-owned client methods of a procedure. -/
theorem emitOwnedClientMethods_eq_ok {methods : List ClientMethod}
    (h : emitter.emitOwnedClientMethods p = .ok methods) :
    methods.map ClientMethod.name = emitter.ownedNames p ∧
      ∃ types, emitter.procedureTypes p = .ok types ∧
        ∀ method ∈ methods, method.constant = p.name ∧ emitter.OwnedTypes p types method := by
  unfold emitOwnedClientMethods at h
  obtain ⟨types, htypes, h⟩ := except_bind_eq_ok.mp h
  unfold ownedNames OwnedTypes
  cases hmetadata : emitter.metadataName p with
  | none =>
    simp only [hmetadata] at h
    obtain rfl := Except.ok.inj h
    exact ⟨rfl, types, htypes, by simp⟩
  | some metadata =>
    simp only [hmetadata] at h
    obtain rfl := Except.ok.inj h
    exact ⟨rfl, types, htypes, by simp⟩

theorem emitOwnedClientMethods_isOk_iff :
    (∃ methods, emitter.emitOwnedClientMethods p = .ok methods) ↔
      ∃ types, emitter.procedureTypes p = .ok types := by
  unfold emitOwnedClientMethods
  simp only [except_bind_eq_ok]
  constructor
  · rintro ⟨-, types, htypes, -⟩
    exact ⟨types, htypes⟩
  · rintro ⟨types, htypes⟩
    cases emitter.metadataName p with
    | none => exact ⟨_, types, htypes, rfl⟩
    | some metadata => exact ⟨_, types, htypes, rfl⟩

/-- The method of a service. -/
theorem serviceMethod_eq_ok {method : ServiceMethod} :
    emitter.serviceMethod p = .ok method ↔ ∃ types, emitter.procedureTypes p = .ok types ∧
      method = ⟨toSnakeCase p.name, types.argument, types.reply⟩ :=
  bind_ok_eq_ok

/-- The arm of a dispatcher. -/
theorem dispatchArm_eq_ok {arm : DispatchArm} :
    emitter.dispatchArm p = .ok arm ↔ ∃ types, emitter.procedureTypes p = .ok types ∧
      arm = ⟨p.number, types.argument, toSnakeCase p.name, types.reply⟩ :=
  bind_ok_eq_ok

/-- The clients of a version can be written if the types of its procedures can. -/
theorem emitClientStubs_isOk_iff :
    (∃ stubs, emitter.emitClientStubs version = .ok stubs) ↔
      ∀ p ∈ version.procedures, ∃ types, emitter.procedureTypes p = .ok types := by
  have hclient : (∃ methods, version.procedures.mapM emitter.clientMethods = .ok methods) ↔
      ∀ p ∈ version.procedures, ∃ types, emitter.procedureTypes p = .ok types := by
    rw [mapM_isOk_iff]
    refine forall₂_congr fun p _ => ⟨fun ⟨methods, h⟩ => ?_, fun ⟨types, h⟩ => ?_⟩
    · obtain ⟨types, htypes, -⟩ := clientMethods_eq_ok.mp h
      exact ⟨types, htypes⟩
    · exact ⟨_, clientMethods_eq_ok.mpr ⟨types, h, rfl⟩⟩
  constructor
  · rintro ⟨stubs, h⟩
    obtain ⟨methods, hmethods, -⟩ := except_bind_eq_ok.mp h
    exact hclient.mp ⟨methods, hmethods⟩
  · intro h
    obtain ⟨methods, hmethods⟩ := hclient.mpr h
    obtain ⟨owned, howned⟩ := mapM_isOk_iff.mpr fun p hp =>
      emitOwnedClientMethods_isOk_iff.mpr (h p hp)
    refine ⟨_, except_bind_eq_ok.mpr ⟨methods, hmethods, except_bind_eq_ok.mpr ⟨methods, hmethods,
      except_bind_eq_ok.mpr ⟨owned, howned, rfl⟩⟩⟩⟩

/-- So can the servers. -/
theorem emitServerStubs_isOk_iff :
    (∃ stubs, emitter.emitServerStubs version = .ok stubs) ↔
      ∀ p ∈ version.procedures, ∃ types, emitter.procedureTypes p = .ok types := by
  constructor
  · rintro ⟨stubs, h⟩
    obtain ⟨service, hservice, -⟩ := except_bind_eq_ok.mp h
    intro p hp
    obtain ⟨method, hmethod⟩ := mapM_isOk_iff.mp ⟨service, hservice⟩ p hp
    obtain ⟨types, htypes, -⟩ := serviceMethod_eq_ok.mp hmethod
    exact ⟨types, htypes⟩
  · intro h
    obtain ⟨service, hservice⟩ := mapM_isOk_iff.mpr fun p hp => (h p hp).imp' _ fun types htypes =>
      serviceMethod_eq_ok.mpr ⟨types, htypes, rfl⟩
    obtain ⟨arms, harms⟩ := mapM_isOk_iff.mpr fun p hp => (h p hp).imp' _ fun types htypes =>
      dispatchArm_eq_ok.mpr ⟨types, htypes, rfl⟩
    exact ⟨_, except_bind_eq_ok.mpr ⟨service, hservice, except_bind_eq_ok.mpr ⟨arms, harms,
      except_bind_eq_ok.mpr ⟨service, hservice, except_bind_eq_ok.mpr ⟨arms, harms, rfl⟩⟩⟩⟩⟩

/-- No procedure has an inline type. -/
theorem not_usesInline_iff : ¬ UsesInline version ↔
    ∀ p ∈ version.procedures, ∃ types, emitter.procedureTypes p = .ok types := by
  simp only [UsesInline, emitter.procedureTypes_isOk_iff, not_exists, not_and, not_or,
    Bool.not_eq_true]

/-- An optional part of the module. -/
theorem emitIf_eq_ok {α : Type} {on : Bool} {part : Except GeneratorError α} {result : Option α} :
    emitIf on part = .ok result ↔
      (on = true ∧ ∃ a, part = .ok a ∧ result = some a) ∨ on = false ∧ result = none := by
  unfold emitIf
  cases on with
  | false => simp [eq_comm]
  | true =>
    cases part with
    | error e => simp [Except.map]
    | ok a => simp [Except.map, eq_comm]

/-- What is written for a version. -/
theorem emitVersion_eq_ok {g : GeneratedVersion} : emitter.emitVersion version = .ok g ↔
    (emitter.emitClient = true → emitter.OwnedNamesFree version) ∧
    g.constants = ("VERSION", version.number) :: version.procedures.map
      (fun p => (p.name, p.number)) ∧
    ((emitter.emitClient = true ∧ ∃ stubs, emitter.emitClientStubs version = .ok stubs ∧
      g.client = some stubs) ∨ emitter.emitClient = false ∧ g.client = none) ∧
    ((emitter.emitServer = true ∧ ∃ stubs, emitter.emitServerStubs version = .ok stubs ∧
      g.server = some stubs) ∨ emitter.emitServer = false ∧ g.server = none) := by
  obtain ⟨constants, client, server⟩ := g
  have hcheck : (∃ checked, emitIf emitter.emitClient (emitter.validateOwnedMethodNames version) =
      .ok checked) ↔ (emitter.emitClient = true → emitter.OwnedNamesFree version) := by
    rw [← validateOwnedMethodNames_isOk_iff]
    simp only [emitIf_eq_ok]
    cases emitter.emitClient with
    | false => simp
    | true =>
      have hunit : (∃ a, emitter.validateOwnedMethodNames version = .ok a) ↔
          emitter.validateOwnedMethodNames version = .ok () := ⟨fun ⟨(), h⟩ => h, fun h => ⟨(), h⟩⟩
      simpa using hunit
  unfold emitVersion
  rw [← hcheck]
  simp only [except_bind_eq_ok, emitIf_eq_ok]
  constructor
  · rintro ⟨checked, hchecked, client', hclient, server', hserver, h⟩
    obtain ⟨rfl, rfl, rfl⟩ := GeneratedVersion.mk.inj (Except.ok.inj h)
    exact ⟨⟨checked, hchecked⟩, rfl, hclient, hserver⟩
  · rintro ⟨⟨checked, hchecked⟩, rfl, hclient, hserver⟩
    exact ⟨checked, hchecked, client, hclient, server, hserver, rfl⟩

/-- A version is written unless it is refused. -/
theorem emitVersion_isOk_iff :
    (∃ g, emitter.emitVersion version = .ok g) ↔ ¬ emitter.Refuses version := by
  have hinline := @not_usesInline_iff emitter version
  simp only [Refuses, not_or, not_and, not_not]
  constructor
  · rintro ⟨g, hg⟩
    obtain ⟨hfree, -, hclient, hserver⟩ := emitVersion_eq_ok.mp hg
    refine ⟨?_, hfree⟩
    rintro (hon | hon)
    · rcases hclient with ⟨-, stubs, hstubs, -⟩ | ⟨hoff, -⟩
      · exact hinline.mpr (emitClientStubs_isOk_iff.mp ⟨stubs, hstubs⟩)
      · rw [hon] at hoff
        cases hoff
    · rcases hserver with ⟨-, stubs, hstubs, -⟩ | ⟨hoff, -⟩
      · exact hinline.mpr (emitServerStubs_isOk_iff.mp ⟨stubs, hstubs⟩)
      · rw [hon] at hoff
        cases hoff
  · rintro ⟨hnone, hfree⟩
    have hclient : ∃ client, (emitter.emitClient = true ∧ ∃ stubs,
        emitter.emitClientStubs version = .ok stubs ∧ client = some stubs) ∨
          emitter.emitClient = false ∧ client = none := by
      by_cases hon : emitter.emitClient = true
      · obtain ⟨stubs, hstubs⟩ := emitClientStubs_isOk_iff.mpr (hinline.mp (hnone (.inl hon)))
        exact ⟨some stubs, .inl ⟨hon, stubs, hstubs, rfl⟩⟩
      · exact ⟨none, .inr ⟨Bool.not_eq_true _ ▸ hon, rfl⟩⟩
    have hserver : ∃ server, (emitter.emitServer = true ∧ ∃ stubs,
        emitter.emitServerStubs version = .ok stubs ∧ server = some stubs) ∨
          emitter.emitServer = false ∧ server = none := by
      by_cases hon : emitter.emitServer = true
      · obtain ⟨stubs, hstubs⟩ := emitServerStubs_isOk_iff.mpr (hinline.mp (hnone (.inr hon)))
        exact ⟨some stubs, .inl ⟨hon, stubs, hstubs, rfl⟩⟩
      · exact ⟨none, .inr ⟨Bool.not_eq_true _ ▸ hon, rfl⟩⟩
    obtain ⟨client, hclient⟩ := hclient
    obtain ⟨server, hserver⟩ := hserver
    exact ⟨⟨_, client, server⟩, emitVersion_eq_ok.mpr ⟨hfree, rfl, hclient, hserver⟩⟩

end StubEmitter

/-! ## Names and numbers -/

/-- A name that is defined once means its definition. -/
theorem resolve_of_nodup {α : Type} {key : α → String} {scope : List α} {a : α}
    (hnodup : (scope.map key).Nodup) (hmem : a ∈ scope) : resolve key scope (key a) = some a := by
  have hfilter : scope.filter (fun b => key b = key a) = [a] := by
    have hall : ∀ b ∈ scope.filter (fun b => key b = key a), b = a := fun b hb => by
      obtain ⟨hb, hkey⟩ := List.mem_filter.mp hb
      exact List.inj_on_of_nodup_map hnodup hb hmem (of_decide_eq_true hkey)
    have hself : a ∈ scope.filter (fun b => key b = key a) :=
      List.mem_filter.mpr ⟨hmem, decide_eq_true rfl⟩
    have hdistinct : (scope.filter (fun b => key b = key a)).Nodup :=
      (List.Nodup.of_map key hnodup).filter _
    rcases hlist : scope.filter (fun b => key b = key a) with _ | ⟨b, rest⟩
    · rw [hlist] at hself
      cases hself
    · rw [hlist] at hall hdistinct
      obtain rfl := hall b (List.mem_cons_self ..)
      rcases rest with _ | ⟨c, rest⟩
      · rfl
      · obtain rfl := hall c (List.mem_cons_of_mem _ (List.mem_cons_self ..))
        exact absurd (List.mem_cons_self ..) (List.nodup_cons.mp hdistinct).1
  unfold resolve
  rw [hfilter]

section Routes

variable {emitter : StubEmitter} {version : VersionDecl} {g : GeneratedVersion} {p : ProcedureDecl}

/-- A method that names the constant of a procedure sends its number. -/
theorem GeneratedVersion.Compiles.sends (h : g.Compiles)
    (hconstants : g.constants =
      ("VERSION", version.number) :: version.procedures.map fun p => (p.name, p.number))
    (hp : p ∈ version.procedures) {method : ClientMethod} (hmethod : method.constant = p.name) :
    g.sends method = some p.number := by
  have hmem : (p.name, p.number) ∈ g.constants := by
    rw [hconstants]
    exact List.mem_cons_of_mem _ (List.mem_map.mpr ⟨p, hp, rfl⟩)
  unfold GeneratedVersion.sends
  rw [hmethod, resolve_of_nodup h.constants hmem]
  rfl

/-- A client of a version has the two ordinary methods of each procedure. -/
theorem resolve_client {methods : List (List ClientMethod)} (hp : p ∈ version.procedures)
    (hmethods : version.procedures.mapM emitter.clientMethods = .ok methods)
    (hnodup : (methods.flatten.map ClientMethod.name).Nodup) :
    ∃ types, emitter.procedureTypes p = .ok types ∧ ∀ name ∈ StubEmitter.ordinaryNames p,
      ∃ method, resolve ClientMethod.name methods.flatten name = some method ∧
        method.constant = p.name ∧ method.argument = types.argument ∧
        method.reply = types.reply := by
  obtain ⟨own, hown, hemit⟩ := exists_of_mem_left (mapM_eq_ok.mp hmethods) hp
  obtain ⟨types, htypes, rfl⟩ := StubEmitter.clientMethods_eq_ok.mp hemit
  refine ⟨types, htypes, fun name hname => ?_⟩
  rcases List.mem_cons.mp hname with rfl | hname
  · exact ⟨_, resolve_of_nodup hnodup (List.mem_flatten.mpr ⟨_, hown, List.mem_cons_self ..⟩), rfl,
      rfl, rfl⟩
  · obtain rfl := List.mem_singleton.mp hname
    exact ⟨_, resolve_of_nodup hnodup (List.mem_flatten.mpr
      ⟨_, hown, List.mem_cons_of_mem _ (List.mem_cons_self ..)⟩), rfl, rfl, rfl⟩

/-- The asynchronous client of a version has the caller-owned methods of each procedure. -/
theorem resolve_ownedClient {asyncClient : List ClientMethod} {methods : List (List ClientMethod)}
    (hp : p ∈ version.procedures)
    (hmethods : version.procedures.mapM emitter.emitOwnedClientMethods = .ok methods)
    (hnodup : ((asyncClient ++ methods.flatten).map ClientMethod.name).Nodup) :
    ∃ types, emitter.procedureTypes p = .ok types ∧ ∀ name ∈ emitter.ownedNames p,
      ∃ method, resolve ClientMethod.name (asyncClient ++ methods.flatten) name = some method ∧
        method.constant = p.name ∧ emitter.OwnedTypes p types method := by
  obtain ⟨own, hown, hemit⟩ := exists_of_mem_left (mapM_eq_ok.mp hmethods) hp
  obtain ⟨hnames, types, htypes, hall⟩ := StubEmitter.emitOwnedClientMethods_eq_ok hemit
  refine ⟨types, htypes, fun name hname => ?_⟩
  rw [← hnames] at hname
  obtain ⟨method, hmethod, rfl⟩ := List.mem_map.mp hname
  have hmem : method ∈ asyncClient ++ methods.flatten :=
    List.mem_append_right _ (List.mem_flatten.mpr ⟨own, hown, hmethod⟩)
  exact ⟨method, resolve_of_nodup hnodup hmem, hall method hmethod⟩

/-- A service of a version has the method of each procedure. -/
theorem resolve_service {service : List ServiceMethod} {types : ProcedureTypes}
    (hp : p ∈ version.procedures) (htypes : emitter.procedureTypes p = .ok types)
    (hservice : version.procedures.mapM emitter.serviceMethod = .ok service)
    (hnodup : (service.map ServiceMethod.name).Nodup) :
    resolve ServiceMethod.name service (toSnakeCase p.name) =
      some ⟨toSnakeCase p.name, types.argument, types.reply⟩ := by
  obtain ⟨own, hown, hemit⟩ := exists_of_mem_left (mapM_eq_ok.mp hservice) hp
  obtain ⟨types', htypes', rfl⟩ := StubEmitter.serviceMethod_eq_ok.mp hemit
  obtain rfl := Except.ok.inj (htypes.symm.trans htypes')
  exact resolve_of_nodup hnodup hown

/-- The arms have the numbers of the procedures. -/
theorem map_number_arms {arms : List DispatchArm} {procedures : List ProcedureDecl}
    (harms : List.Forall₂ (fun p arm => emitter.dispatchArm p = .ok arm) procedures arms) :
    arms.map DispatchArm.number = procedures.map ProcedureDecl.number := by
  induction harms with
  | nil => rfl
  | cons hemit _ ih =>
    obtain ⟨types, -, rfl⟩ := StubEmitter.dispatchArm_eq_ok.mp hemit
    rw [List.map_cons, List.map_cons, ih]

/-- A dispatcher runs the arm of the procedure whose number it gets, if the numbers are distinct. -/
theorem dispatch_eq_serve {m : ServerModule} {types : ProcedureTypes} (hp : p ∈ version.procedures)
    (htypes : emitter.procedureTypes p = .ok types)
    (harms : version.procedures.mapM emitter.dispatchArm = .ok m.arms)
    (hnumbers : (version.procedures.map ProcedureDecl.number).Nodup) (codec : StubCodec)
    (service : StubService) (payload : Bytes) :
    m.dispatch codec service p.number payload =
      DispatchArm.serve ⟨p.number, types.argument, toSnakeCase p.name, types.reply⟩ codec service
        payload := by
  have hall := mapM_eq_ok.mp harms
  obtain ⟨arm, harm, hemit⟩ := exists_of_mem_left hall hp
  obtain ⟨types', htypes', rfl⟩ := StubEmitter.dispatchArm_eq_ok.mp hemit
  obtain rfl := Except.ok.inj (htypes.symm.trans htypes')
  have hfind := find?_of_nodup ((map_number_arms hall).symm ▸ hnumbers) harm
  unfold ServerModule.dispatch
  rw [hfind]

/-- A dispatcher has no procedure for any other number. -/
theorem dispatch_other {m : ServerModule} {number : UInt32}
    (harms : version.procedures.mapM emitter.dispatchArm = .ok m.arms)
    (hother : ∀ p ∈ version.procedures, p.number ≠ number) (codec : StubCodec)
    (service : StubService) (payload : Bytes) :
    m.dispatch codec service number payload = .error .procedureUnavailable := by
  have hnone : m.arms.find? (fun arm => arm.number = number) = none := by
    rw [List.find?_eq_none]
    intro arm harm heq
    have hmem := List.mem_map_of_mem (f := DispatchArm.number) harm
    rw [map_number_arms (mapM_eq_ok.mp harms)] at hmem
    obtain ⟨p, hp, hnumber⟩ := List.mem_map.mp hmem
    exact hother p hp (hnumber.trans (of_decide_eq_true heq))
  unfold ServerModule.dispatch
  rw [hnone]

/-- The clients that are written. -/
theorem StubEmitter.client_of_emitVersion (hemit : emitter.emitVersion version = .ok g)
    {stubs : ClientStubs} (hstubs : g.client = some stubs) : ∃ methods owned,
      version.procedures.mapM emitter.clientMethods = .ok methods ∧
      version.procedures.mapM emitter.emitOwnedClientMethods = .ok owned ∧
      stubs = ⟨methods.flatten, methods.flatten, owned.flatten⟩ := by
  obtain ⟨-, -, hclient, -⟩ := emitVersion_eq_ok.mp hemit
  rcases hclient with ⟨-, stubs', hok, hsome⟩ | ⟨-, hnone⟩
  · obtain rfl := Option.some.inj (hstubs.symm.trans hsome)
    obtain ⟨client, hclient, hok⟩ := except_bind_eq_ok.mp hok
    obtain ⟨asyncClient, hasync, hok⟩ := except_bind_eq_ok.mp hok
    obtain ⟨owned, howned, hok⟩ := except_bind_eq_ok.mp hok
    -- Both clients are written from the same data.
    obtain rfl := Except.ok.inj (hclient.symm.trans hasync)
    exact ⟨client, owned, hclient, howned, (Except.ok.inj hok).symm⟩
  · rw [hnone] at hstubs
    cases hstubs

/-- The servers that are written. -/
theorem StubEmitter.server_of_emitVersion (hemit : emitter.emitVersion version = .ok g)
    {stubs : ServerStubs} (hstubs : g.server = some stubs) : ∃ m : ServerModule,
      version.procedures.mapM emitter.serviceMethod = .ok m.service ∧
      version.procedures.mapM emitter.dispatchArm = .ok m.arms ∧ stubs = ⟨m, m⟩ := by
  obtain ⟨-, -, -, hserver⟩ := emitVersion_eq_ok.mp hemit
  rcases hserver with ⟨-, stubs', hok, hsome⟩ | ⟨-, hnone⟩
  · obtain rfl := Option.some.inj (hstubs.symm.trans hsome)
    obtain ⟨service, hservice, hok⟩ := except_bind_eq_ok.mp hok
    obtain ⟨arms, harms, hok⟩ := except_bind_eq_ok.mp hok
    obtain ⟨asyncService, hasyncService, hok⟩ := except_bind_eq_ok.mp hok
    obtain ⟨asyncArms, hasyncArms, hok⟩ := except_bind_eq_ok.mp hok
    obtain rfl := Except.ok.inj (hservice.symm.trans hasyncService)
    obtain rfl := Except.ok.inj (harms.symm.trans hasyncArms)
    exact ⟨⟨service, arms⟩, hservice, harms, (Except.ok.inj hok).symm⟩
  · rw [hnone] at hstubs
    cases hstubs

/-- What is written routes alike, if the numbers are distinct. -/
theorem GeneratedVersion.Compiles.routesAlike (h : g.Compiles)
    (hemit : emitter.emitVersion version = .ok g)
    (hnumbers : (version.procedures.map ProcedureDecl.number).Nodup) :
    g.RoutesAlike emitter version := by
  obtain ⟨-, hconstants, -, -⟩ := StubEmitter.emitVersion_eq_ok.mp hemit
  refine ⟨?_, ?_, ?_, ?_, ?_⟩
  · intro stubs hstubs p hp methods hmethods
    obtain ⟨hnodup, -⟩ := h.client stubs hstubs
    obtain ⟨client, owned, hclient, -, rfl⟩ := StubEmitter.client_of_emitVersion hemit hstubs
    obtain ⟨types, htypes, hall⟩ := resolve_client hp hclient (List.nodup_cons.mp hnodup).2
    have hmethods : methods = client.flatten := by simpa using hmethods
    subst hmethods
    refine ⟨types, htypes, fun name hname => ?_⟩
    obtain ⟨method, hresolve, hconstant, hargument, hreply⟩ := hall name hname
    exact ⟨method, hresolve, hargument, hreply, h.sends hconstants hp hconstant⟩
  · intro stubs hstubs p hp
    obtain ⟨-, hnodup⟩ := h.client stubs hstubs
    obtain ⟨client, owned, -, howned, rfl⟩ := StubEmitter.client_of_emitVersion hemit hstubs
    obtain ⟨types, htypes, hall⟩ := resolve_ownedClient hp howned (List.nodup_cons.mp hnodup).2
    refine ⟨types, htypes, fun name hname => ?_⟩
    obtain ⟨method, hresolve, hconstant, hown⟩ := hall name hname
    exact ⟨method, hresolve, hown, h.sends hconstants hp hconstant⟩
  · intro stubs hstubs method hmethod
    obtain ⟨client, owned, -, howned, rfl⟩ := StubEmitter.client_of_emitVersion hemit hstubs
    obtain ⟨methods, hmethods, hmem⟩ := List.mem_flatten.mp hmethod
    obtain ⟨p, hp, hemit⟩ := exists_of_mem_left (mapM_eq_ok.mp howned).flip hmethods
    obtain ⟨hnames, types, -, hall⟩ := StubEmitter.emitOwnedClientMethods_eq_ok hemit
    refine ⟨p, hp, ?_, h.sends hconstants hp (hall method hmem).1⟩
    rw [← hnames]
    exact List.mem_map_of_mem hmem
  · intro stubs hstubs p hp m hm
    obtain ⟨hnodup, -⟩ := h.server stubs hstubs
    obtain ⟨m', hservice, harms, rfl⟩ := StubEmitter.server_of_emitVersion hemit hstubs
    have hm : m = m' := by simpa using hm
    subst hm
    obtain ⟨own, -, hown⟩ := exists_of_mem_left (mapM_eq_ok.mp harms) hp
    obtain ⟨types, htypes, -⟩ := StubEmitter.dispatchArm_eq_ok.mp hown
    exact ⟨types, htypes, resolve_service hp htypes hservice hnodup,
      dispatch_eq_serve hp htypes harms hnumbers⟩
  · intro stubs hstubs m hm number hother
    obtain ⟨m', -, harms, rfl⟩ := StubEmitter.server_of_emitVersion hemit hstubs
    have hm : m = m' := by simpa using hm
    subst hm
    exact dispatch_other harms hother

end Routes

/-! ## Which stubs are right -/

namespace StubEmitter

/-- The numbers and the method names of a version are distinct. -/
structure Distinct (emitter : StubEmitter) (version : VersionDecl) : Prop where
  numbers : (version.procedures.map ProcedureDecl.number).Nodup
  names : emitter.emitClient = true ∨ emitter.emitServer = true →
    (version.procedures.map fun p => toSnakeCase p.name).Nodup
  withOptions : emitter.emitClient = true → ∀ p ∈ version.procedures, ∀ q ∈ version.procedures,
    toSnakeCase p.name ≠ toSnakeCase q.name ++ "_with_options"

variable {emitter : StubEmitter} {version : VersionDecl}

/-- Two procedures have no ordinary method in common if their names differ and neither is named like
the other with options. -/
theorem disjoint_ordinaryNames_iff {p q : ProcedureDecl} :
    (ordinaryNames p).Disjoint (ordinaryNames q) ↔ toSnakeCase p.name ≠ toSnakeCase q.name ∧
      toSnakeCase p.name ≠ toSnakeCase q.name ++ "_with_options" ∧
      toSnakeCase q.name ≠ toSnakeCase p.name ++ "_with_options" := by
  have hsuffix : toSnakeCase p.name ++ "_with_options" = toSnakeCase q.name ++ "_with_options" ↔
      toSnakeCase p.name = toSnakeCase q.name := String.append_left_inj _
  simp only [ordinaryNames, List.disjoint_cons_left, List.disjoint_nil_left, List.mem_cons,
    List.not_mem_nil, or_false, not_or, and_true, ne_eq, hsuffix,
    @eq_comm _ (toSnakeCase p.name ++ "_with_options") (toSnakeCase q.name)]
  exact ⟨fun h => ⟨h.1.1, h.1.2, h.2.1⟩, fun h => ⟨⟨h.1, h.2.1⟩, h.2.2, h.1⟩⟩

/-- No name is its own with options. -/
theorem ne_withOptions (name : String) : name ≠ name ++ "_with_options" := by
  intro h
  have hlength := congrArg String.length h
  rw [String.length_append] at hlength
  have hpos : "_with_options".length = 13 := by decide
  omega

/-- Where the caller-owned names are free, two procedures of a client have a method in common only
if they have an ordinary one in common. -/
theorem OwnedNamesFree.pairwise_iff (h : emitter.OwnedNamesFree version)
    (hclient : emitter.emitClient = true) :
    version.procedures.Pairwise
      (fun p q => (emitter.methodNames p).Disjoint (emitter.methodNames q)) ↔
      version.procedures.Pairwise fun p q => (ordinaryNames p).Disjoint (ordinaryNames q) := by
  obtain ⟨hnodup, hfree⟩ := h
  have howned : version.procedures.Pairwise fun p q =>
      (emitter.ownedNames p).Disjoint (emitter.ownedNames q) := (List.nodup_flatMap.mp hnodup).2
  have hmixed : ∀ p ∈ version.procedures, ∀ q ∈ version.procedures,
      (emitter.ownedNames p).Disjoint (ordinaryNames q) := by
    intro p hp q hq name hname hname'
    refine hfree (List.mem_flatMap.mpr ⟨p, hp, hname⟩) (List.mem_cons_of_mem _ ?_)
    exact List.mem_flatMap.mpr ⟨q, hq, hname'⟩
  have hnames : ∀ p, emitter.methodNames p = ordinaryNames p ++ emitter.ownedNames p := fun p => by
    rw [methodNames, if_pos hclient]
  simp only [hnames, List.disjoint_append_left, List.disjoint_append_right]
  constructor
  · intro hall
    exact hall.imp fun h => h.1.1
  · intro hordinary
    refine (List.pairwise_and_iff.mpr ⟨hordinary, howned⟩).imp_of_mem ?_
    intro p q hp hq hpq
    exact ⟨⟨hpq.1, hmixed p hp q hq⟩, fun _ h h' => hmixed q hq p hp h' h, hpq.2⟩

/-- The ordinary methods of a client are distinct. -/
theorem pairwise_ordinaryNames_iff (procedures : List ProcedureDecl) :
    procedures.Pairwise (fun p q => (ordinaryNames p).Disjoint (ordinaryNames q)) ↔
      (procedures.map fun p => toSnakeCase p.name).Nodup ∧ ∀ p ∈ procedures, ∀ q ∈ procedures,
        toSnakeCase p.name ≠ toSnakeCase q.name ++ "_with_options" := by
  simp only [disjoint_ordinaryNames_iff, List.pairwise_and_iff, List.Nodup, List.pairwise_map]
  constructor
  · rintro ⟨hnames, hleft, hright⟩
    refine ⟨hnames, fun p hp q hq => ?_⟩
    exact hleft.forall_of_forall_of_flip (fun p _ => ne_withOptions _) hright hp hq
  · rintro ⟨hnames, hall⟩
    refine ⟨hnames, ?_, ?_⟩
    · exact List.pairwise_of_forall_mem_list hall
    · exact List.pairwise_of_forall_mem_list fun p hp q hq => hall q hq p hp

/-- Where the caller-owned names are free, a version is unambiguous if its numbers and names are
distinct. -/
theorem unambiguous_iff (hfree : emitter.emitClient = true → emitter.OwnedNamesFree version) :
    emitter.Unambiguous version ↔ emitter.Distinct version := by
  have hnumbers : version.procedures.Pairwise (fun p q => p.number ≠ q.number) ↔
      (version.procedures.map ProcedureDecl.number).Nodup := by
    rw [List.Nodup, List.pairwise_map]
  rw [Unambiguous, List.pairwise_and_iff, hnumbers]
  by_cases hclient : emitter.emitClient = true
  · rw [(hfree hclient).pairwise_iff hclient, pairwise_ordinaryNames_iff]
    exact ⟨fun h => ⟨h.1, fun _ => h.2.1, fun _ => h.2.2⟩,
      fun h => ⟨h.numbers, h.names (.inl hclient), h.withOptions hclient⟩⟩
  · by_cases hserver : emitter.emitServer = true
    · have hnames : ∀ p, emitter.methodNames p = [toSnakeCase p.name] := fun p => by
        rw [methodNames, if_neg hclient, if_pos hserver]
      simp only [hnames, List.disjoint_singleton, List.mem_singleton]
      constructor
      · rintro ⟨h, hdisjoint⟩
        refine ⟨h, fun _ => ?_, fun h => absurd h hclient⟩
        rw [List.Nodup, List.pairwise_map]
        exact hdisjoint.imp fun h => fun heq => h heq.symm
      · intro h
        refine ⟨h.numbers, ?_⟩
        have hdistinct := h.names (.inr hserver)
        rw [List.Nodup, List.pairwise_map] at hdistinct
        exact hdistinct.imp fun h => fun heq => h heq.symm
    · have hnames : ∀ p, emitter.methodNames p = [] := fun p => by
        rw [methodNames, if_neg hclient, if_neg hserver]
      simp only [hnames, List.disjoint_nil_left]
      constructor
      · rintro ⟨h, -⟩
        exact ⟨h, fun hon => absurd hon (not_or.mpr ⟨hclient, hserver⟩), fun h => absurd h hclient⟩
      · intro h
        exact ⟨h.numbers, List.pairwise_of_forall_mem_list fun _ _ _ _ => trivial⟩

end StubEmitter

/-- The stubs of a version are right if and only if it is refused, for an inline type or for the
name of a caller-owned method, or its numbers are distinct, its names are distinct in lower case,
and no name is another with options. -/
theorem stubs_route_alike_iff (emitter : StubEmitter) (version : VersionDecl) :
    emitter.StubsRouteAlike version ↔ emitter.Refuses version ∨ emitter.Distinct version := by
  by_cases hrefuses : emitter.Refuses version
  · have herror : ∀ g, emitter.emitVersion version ≠ .ok g := fun g hg =>
      StubEmitter.emitVersion_isOk_iff.mp ⟨g, hg⟩ hrefuses
    refine iff_of_true ⟨fun g hg => absurd hg (herror g), fun _ => ?_⟩ (.inl hrefuses)
    rcases hemit : emitter.emitVersion version with error | g
    · exact ⟨error, rfl⟩
    · exact absurd hemit (herror g)
  · obtain ⟨g, hg⟩ := StubEmitter.emitVersion_isOk_iff.mpr hrefuses
    obtain ⟨hfree, -⟩ := StubEmitter.emitVersion_eq_ok.mp hg
    have hiff := StubEmitter.unambiguous_iff hfree
    constructor
    · rintro ⟨-, hambiguous⟩
      refine .inr (hiff.mp (not_not.mp fun h => ?_))
      obtain ⟨error, herror⟩ := hambiguous h
      rw [hg] at herror
      cases herror
    · intro h
      have hdistinct := h.resolve_left hrefuses
      exact ⟨fun g hg hcompiles => hcompiles.routesAlike hg hdistinct.numbers,
        fun h => absurd (hiff.mpr hdistinct) h⟩

/-- A version with two procedures of the number 1. -/
def VersionDecl.twoOnes : VersionDecl :=
  ⟨"V", [⟨.void, "A", .void, 1⟩, ⟨.void, "B", .void, 1⟩], 1⟩

/-- An emitter of clients and servers for a single schema. -/
def StubEmitter.both : StubEmitter := ⟨none, [], true, true, ⟨[], []⟩⟩

/-- Two procedures of the number 1 are written without an error; the code compiles, and the number
of the second calls the method of the first. -/
theorem second_procedure_unreachable :
    (∃ g stubs, StubEmitter.both.emitVersion .twoOnes = .ok g ∧ g.Compiles ∧ g.server = some stubs ∧
      ∀ codec service payload, stubs.server.dispatch codec service 1 payload =
        DispatchArm.serve ⟨1, .unit, "a", .unit⟩ codec service payload) ∧
    ¬ StubEmitter.both.StubsRouteAlike .twoOnes := by
  have hseen : (StubEmitter.both.emitVersion .twoOnes).toOption.map (fun g =>
      (g.constants.map Prod.fst, g.client.map fun stubs => (stubs.client.map ClientMethod.name,
        (stubs.asyncClient ++ stubs.ownedClient).map ClientMethod.name), g.server)) =
      some (["VERSION", "A", "B"], some (["a", "a_with_options", "b", "b_with_options"],
        ["a", "a_with_options", "b", "b_with_options", "a_segmented", "try_a_segmented",
          "b_segmented", "try_b_segmented"]),
        some ⟨⟨[⟨"a", .unit, .unit⟩, ⟨"b", .unit, .unit⟩],
          [⟨1, .unit, "a", .unit⟩, ⟨1, .unit, "b", .unit⟩]⟩,
          ⟨[⟨"a", .unit, .unit⟩, ⟨"b", .unit, .unit⟩],
          [⟨1, .unit, "a", .unit⟩, ⟨1, .unit, "b", .unit⟩]⟩⟩) := by decide +kernel
  obtain ⟨g, hg, hview⟩ := Option.map_eq_some_iff.mp hseen
  obtain ⟨hconstants, hview⟩ := Prod.mk.inj hview
  obtain ⟨hclient, hserver⟩ := Prod.mk.inj hview
  have hemit : StubEmitter.both.emitVersion .twoOnes = .ok g := by
    rcases hresult : StubEmitter.both.emitVersion .twoOnes with error | g'
    · rw [hresult] at hg
      cases hg
    · rw [hresult] at hg
      rw [Option.some.inj hg]
  refine ⟨⟨g, _, hemit, ⟨by rw [hconstants]; decide, ?_, ?_⟩, hserver,
    fun codec service payload => rfl⟩, ?_⟩
  · intro stubs hstubs
    rw [hstubs] at hclient
    obtain ⟨hnames, hasync⟩ := Prod.mk.inj (Option.some.inj hclient)
    rw [hnames, hasync]
    exact ⟨by decide, by decide⟩
  · intro stubs hstubs
    obtain rfl := Option.some.inj (hstubs.symm.trans hserver)
    exact ⟨by decide, by decide⟩
  · rintro ⟨-, hambiguous⟩
    obtain ⟨error, herror⟩ := hambiguous fun h =>
      (List.pairwise_cons.mp h).1 ⟨.void, "B", .void, 1⟩ (List.mem_singleton.mpr rfl) |>.1 rfl
    rw [hemit] at herror
    cases herror

end OncRpc
