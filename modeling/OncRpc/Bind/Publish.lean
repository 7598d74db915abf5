import OncRpc.Bind.Rpcbind

/-!
# Publishing the programs of a server

A server with several programs sets one mapping after the other, and unsets them one after the other
when it is done.  Both loops stop at a call that fails, and neither looks at the truth value of an
answer; a publication that fails is left as it is.  So publishing is all or nothing only if rpcbind
answers in certain ways, which `PublishesCleanly` and `CleansUp` spell out.

`Rpcbind.requests` are the calls one of the loops makes, with their answers.  `updatePrograms_spec`
says what a loop returns and what it leaves standing in terms of them; the rest is read off from it.

The servers that block connect with the client that blocks, from inside a function that is polled.
Where a task of a runtime polls it, connecting panics, and no call is made.
-/

namespace OncRpc

open Foundation

/-! ## The functions of the source -/

/-- What a server is configured with as to rpcbind. -/
structure ServerConfig where
  autoPublish : Bool
  rpcbindAddr : Option SocketAddr
  serviceName : Option String

/-- The owner under which programs are published unless another is given. -/
def defaultOwner : String := "oncrpc-rs"

/-- What is published, and where. -/
structure PublicationInfo where
  rpcbindAddr : SocketAddr
  serviceAddr : SocketAddr
  owner : String
  programs : List Program

/-- What a server publishes, if it does. -/
def publicationInfo (config : ServerConfig) (serviceAddr : SocketAddr) (programs : List Program) :
    Except BindError (Option PublicationInfo) :=
  if !config.autoPublish then .ok none
  else match config.rpcbindAddr with
  | none => .error .missingRpcbindAddress
  | some rpcbindAddr => do
    let serviceAddr ← checkedServiceAddr serviceAddr
    return some ⟨rpcbindAddr, serviceAddr, config.serviceName.getD defaultOwner, programs⟩

/-- Update the mappings of programs one after the other. -/
def updatePrograms
    (update : SocketAddr → ProgramVersion → String → World → Except BindError Bool × World)
    (info : PublicationInfo) : List Program → World → Except BindError Unit × World
  | [], w => (.ok (), w)
  | program :: programs, w =>
    match update info.serviceAddr ⟨program.number, program.version⟩ info.owner w with
    | (.error error, w) => (.error error, w)
    | (.ok _, w) => updatePrograms update info programs w

/-- Connect to rpcbind and update the mappings of the programs published. -/
def forPrograms (connect : SocketAddr → World → Ending (Except BindError Unit) × World)
    (update : SocketAddr → ProgramVersion → String → World → Except BindError Bool × World)
    (info : PublicationInfo) (w : World) : Ending (Except BindError Unit) × World :=
  match connect info.rpcbindAddr w with
  | (.panicked, w) => (.panicked, w)
  | (.returned (.error error), w) => (.returned (.error error), w)
  | (.returned (.ok ()), w) =>
    let (result, w) := updatePrograms update info info.programs w
    (.returned result, w)

namespace Rpcbind

variable (r : Rpcbind)

/-- Publishes the programs of a TCP server over the asynchronous transport. -/
def publishTcpProgramsAsync : PublicationInfo → World → Ending (Except BindError Unit) × World :=
  forPrograms (AsyncRpcbindClient.connect r) (AsyncRpcbindClient.registerTcp r)

/-- Unpublishes the programs of a TCP server over the asynchronous transport. -/
def unpublishTcpProgramsAsync : PublicationInfo → World → Ending (Except BindError Unit) × World :=
  forPrograms (AsyncRpcbindClient.connect r) (AsyncRpcbindClient.unregisterTcp r)

/-- Publishes the programs of a TCP server over the blocking transport. -/
def publishTcpPrograms : PublicationInfo → World → Ending (Except BindError Unit) × World :=
  forPrograms (RpcbindClient.connect r) (RpcbindClient.registerTcp r)

/-- Unpublishes the programs of a TCP server over the blocking transport. -/
def unpublishTcpPrograms : PublicationInfo → World → Ending (Except BindError Unit) × World :=
  forPrograms (RpcbindClient.connect r) (RpcbindClient.unregisterTcp r)

/-- Publishes the programs of a UDP server over the asynchronous transport. -/
def publishUdpProgramsAsync : PublicationInfo → World → Ending (Except BindError Unit) × World :=
  forPrograms (AsyncRpcbindClient.connect r) (AsyncRpcbindClient.registerUdp r)

/-- Unpublishes the programs of a UDP server over the asynchronous transport. -/
def unpublishUdpProgramsAsync : PublicationInfo → World → Ending (Except BindError Unit) × World :=
  forPrograms (AsyncRpcbindClient.connect r) (AsyncRpcbindClient.unregisterUdp r)

/-- Publishes the programs of a UDP server over the blocking transport. -/
def publishUdpPrograms : PublicationInfo → World → Ending (Except BindError Unit) × World :=
  forPrograms (RpcbindClient.connect r) (RpcbindClient.registerUdp r)

/-- Unpublishes the programs of a UDP server over the blocking transport. -/
def unpublishUdpPrograms : PublicationInfo → World → Ending (Except BindError Unit) × World :=
  forPrograms (RpcbindClient.connect r) (RpcbindClient.unregisterUdp r)

end Rpcbind

/-- A server that is bound: its configuration, the address it listens on, and its programs. -/
structure BoundServer where
  config : ServerConfig
  localAddr : Except String SocketAddr
  programs : List Program

/-- What a server publishes, if it does. -/
def BoundServer.publication (server : BoundServer) : Except BindError (Option PublicationInfo) := do
  let localAddr ← server.localAddr.mapError .serverTransport
  publicationInfo server.config localAddr server.programs

/-- Serve between publishing and unpublishing; `served` is how serving ends. -/
def BoundServer.withRpcbind (server : BoundServer)
    (publish unpublish : PublicationInfo → World → Ending (Except BindError Unit) × World)
    (served : Except String Unit) (w : World) : Ending (Except BindError Unit) × World :=
  match server.publication with
  | .error error => (.returned (.error error), w)
  | .ok none => (.returned (served.mapError .serverTransport), w)
  | .ok (some info) =>
    match publish info w with
    | (.panicked, w) => (.panicked, w)
    | (.returned (.error error), w) => (.returned (.error error), w)
    | (.returned (.ok ()), w) =>
      match unpublish info w with
      | (.panicked, w) => (.panicked, w)
      | (.returned unpublished, w) =>
        (.returned (do served.mapError .serverTransport; unpublished), w)

namespace TokioAsyncServerTransport

/-- Serves one TCP connection between publishing and unpublishing, over async transports. -/
def acceptOnceWithRpcbind (r : Rpcbind) (server : BoundServer) :
    Except String Unit → World → Ending (Except BindError Unit) × World :=
  server.withRpcbind r.publishTcpProgramsAsync r.unpublishTcpProgramsAsync

/-- Serves TCP connections between publishing and unpublishing, over async transports. -/
def serveWithRpcbind (r : Rpcbind) (server : BoundServer) :
    Except String Unit → World → Ending (Except BindError Unit) × World :=
  server.withRpcbind r.publishTcpProgramsAsync r.unpublishTcpProgramsAsync

end TokioAsyncServerTransport

namespace TokioServerTransport

/-- Serves one TCP connection; publishing and unpublishing block. -/
def acceptOnceWithRpcbind (r : Rpcbind) (server : BoundServer) :
    Except String Unit → World → Ending (Except BindError Unit) × World :=
  server.withRpcbind r.publishTcpPrograms r.unpublishTcpPrograms

/-- Serves TCP connections; publishing and unpublishing block. -/
def serveWithRpcbind (r : Rpcbind) (server : BoundServer) :
    Except String Unit → World → Ending (Except BindError Unit) × World :=
  server.withRpcbind r.publishTcpPrograms r.unpublishTcpPrograms

end TokioServerTransport

namespace TokioAsyncUdpServerTransport

/-- Answers one datagram between publishing and unpublishing, over async transports. -/
def acceptOnceWithRpcbind (r : Rpcbind) (server : BoundServer) :
    Except String Unit → World → Ending (Except BindError Unit) × World :=
  server.withRpcbind r.publishUdpProgramsAsync r.unpublishUdpProgramsAsync

/-- Answers datagrams between publishing and unpublishing, over async transports. -/
def serveWithRpcbind (r : Rpcbind) (server : BoundServer) :
    Except String Unit → World → Ending (Except BindError Unit) × World :=
  server.withRpcbind r.publishUdpProgramsAsync r.unpublishUdpProgramsAsync

end TokioAsyncUdpServerTransport

namespace TokioUdpServerTransport

/-- Answers one datagram; publishing and unpublishing block. -/
def acceptOnceWithRpcbind (r : Rpcbind) (server : BoundServer) :
    Except String Unit → World → Ending (Except BindError Unit) × World :=
  server.withRpcbind r.publishUdpPrograms r.unpublishUdpPrograms

/-- Answers datagrams; publishing and unpublishing block. -/
def serveWithRpcbind (r : Rpcbind) (server : BoundServer) :
    Except String Unit → World → Ending (Except BindError Unit) × World :=
  server.withRpcbind r.publishUdpPrograms r.unpublishUdpPrograms

end TokioUdpServerTransport

/-! ## What a loop does -/

namespace Rpcbind

/-- The calls a loop makes from the given number on, each with its answer: one for each program, up
to the first that fails. -/
def requests (r : Rpcbind) : ℕ → List Program → List (Program × Answer)
  | _, [] => []
  | k, program :: programs =>
    (program, r.answer k) ::
      if (r.answer k).isFailure then [] else r.requests (k + 1) programs

variable {r : Rpcbind} {k : ℕ}

/-- After a reply the requests go on with the next program. -/
theorem requests_replied {value : Bool} (h : r.answer k = .replied value) (program : Program)
    (programs : List Program) :
    r.requests k (program :: programs) =
      (program, .replied value) :: r.requests (k + 1) programs := by
  rw [requests, h]
  rfl

/-- A failed request is the last one. -/
theorem requests_failed {error : RuntimeError} {carriedOut : Bool}
    (h : r.answer k = .failed error carriedOut) (program : Program) (programs : List Program) :
    r.requests k (program :: programs) = [(program, .failed error carriedOut)] := by
  rw [requests, h]
  rfl

/-- One of the calls fails. -/
def Fails (requests : List (Program × Answer)) : Prop :=
  ∃ request ∈ requests, request.2.isFailure = true

/-- None of the calls changes the mappings. -/
def Idle (requests : List (Program × Answer)) : Prop :=
  ∀ request ∈ requests, request.2.applied = false

end Rpcbind

/-- The mapping of a program that is published. -/
def PublicationInfo.mapping (info : PublicationInfo) (netid : SocketAddr → String)
    (program : Program) : Rpcb :=
  Rpcb.forNetid netid ⟨program.number, program.version⟩ info.serviceAddr info.owner

/-- Mappings of two programs have one key only if the programs are one. -/
theorem PublicationInfo.mapping_sameKey (info : PublicationInfo) (netid : SocketAddr → String)
    (a b : Program) : (info.mapping netid a).SameKey (info.mapping netid b) ↔ a = b := by
  obtain ⟨number, version⟩ := a
  obtain ⟨number', version'⟩ := b
  simp [PublicationInfo.mapping, Rpcb.forNetid, Rpcb.SameKey]

/-- The mappings after some calls. -/
def BindProcedure.applyAll (procedure : BindProcedure) (info : PublicationInfo)
    (netid : SocketAddr → String) (requests : List (Program × Answer)) (standing : List Rpcb) :
    List Rpcb :=
  requests.foldl (fun standing request =>
    if request.2.applied then procedure.apply (info.mapping netid request.1) standing
    else standing) standing

/-- The requests are carried out one by one. -/
theorem BindProcedure.applyAll_cons (procedure : BindProcedure) (info : PublicationInfo)
    (netid : SocketAddr → String) (request : Program × Answer)
    (requests : List (Program × Answer)) (standing : List Rpcb) :
    procedure.applyAll info netid (request :: requests) standing =
      procedure.applyAll info netid requests (if request.2.applied then
        procedure.apply (info.mapping netid request.1) standing else standing) := rfl

/-- What a loop comes to, in terms of its calls. -/
theorem updatePrograms_spec (r : Rpcbind) (netid : SocketAddr → String)
    (procedure : BindProcedure) (info : PublicationInfo)
    (hchecked : checkedServiceAddr info.serviceAddr = .ok info.serviceAddr)
    (programs : List Program) (connects calls : ℕ) (standing : List Rpcb) :
    ∃ result calls', updatePrograms (r.update (Rpcb.forNetid netid) procedure) info programs
        ⟨connects, calls, standing⟩ = (result, ⟨connects, calls',
          procedure.applyAll info netid (r.requests calls programs) standing⟩) ∧
      ((∃ error, result = .error error) ↔ Rpcbind.Fails (r.requests calls programs)) ∧
      (result = .ok () → calls' = calls + programs.length) := by
  induction programs generalizing calls standing with
  | nil => exact ⟨.ok (), calls, rfl, by simp [Rpcbind.Fails, Rpcbind.requests], fun _ => rfl⟩
  | cons program programs ih =>
    rcases hanswer : r.answer calls with value | ⟨error, carriedOut⟩
    · obtain ⟨result, calls', hrest, hfails, hcalls⟩ := ih (calls + 1) (if value then
        procedure.apply (info.mapping netid program) standing else standing)
      refine ⟨result, calls', ?_, ?_, fun hok => ?_⟩
      · rw [updatePrograms, Rpcbind.requests_replied hanswer, BindProcedure.applyAll_cons]
        simp only [Rpcbind.update, hchecked, Rpcbind.callTyped, hanswer]
        exact hrest
      · rw [hfails, Rpcbind.requests_replied hanswer]
        simp [Rpcbind.Fails, Answer.isFailure]
      · rw [hcalls hok, List.length_cons]
        omega
    · refine ⟨.error (.runtime error), calls + 1, ?_, ?_, nofun⟩
      · rw [updatePrograms, Rpcbind.requests_failed hanswer, BindProcedure.applyAll_cons]
        simp only [Rpcbind.update, hchecked, Rpcbind.callTyped, hanswer]
        rfl
      · simp [Rpcbind.requests_failed hanswer, Rpcbind.Fails, Answer.isFailure]

/-! ## What is left standing -/

variable {info : PublicationInfo} {netid : SocketAddr → String}

/-- The programs of the mappings that stand after setting: one for each call that took effect. -/
theorem exists_standing_set_iff {requests : List (Program × Answer)} {standing : List Rpcb}
    {program : Program} :
    (∃ mapping ∈ BindProcedure.set.applyAll info netid requests standing,
      (info.mapping netid program).SameKey mapping) ↔
      (∃ mapping ∈ standing, (info.mapping netid program).SameKey mapping) ∨
        ∃ request ∈ requests, request.2.applied = true ∧ request.1 = program := by
  induction requests generalizing standing with
  | nil => simp [BindProcedure.applyAll]
  | cons request requests ih =>
    rw [BindProcedure.applyAll_cons, ih]
    by_cases happlied : request.2.applied = true
    · rw [if_pos happlied]
      have hset : (∃ mapping ∈ BindProcedure.set.apply (info.mapping netid request.1) standing,
          (info.mapping netid program).SameKey mapping) ↔
          (∃ mapping ∈ standing, (info.mapping netid program).SameKey mapping) ∨
            request.1 = program := by
        simp only [BindProcedure.apply, List.mem_cons, List.mem_filter, decide_eq_true_eq,
          exists_eq_or_imp, PublicationInfo.mapping_sameKey]
        constructor
        · rintro (rfl | ⟨mapping, ⟨hmem, -⟩, hsame⟩)
          · exact .inr rfl
          · exact .inl ⟨mapping, hmem, hsame⟩
        · rintro (⟨mapping, hmem, hsame⟩ | rfl)
          · by_cases hkey : (info.mapping netid request.1).SameKey mapping
            · exact .inl ((info.mapping_sameKey netid _ _).mp (hsame.trans hkey.symm))
            · exact .inr ⟨mapping, ⟨hmem, hkey⟩, hsame⟩
          · exact .inl rfl
      rw [hset]
      simp only [List.mem_cons, exists_eq_or_imp, happlied, true_and, or_assoc]
    · rw [if_neg happlied]
      simp only [List.mem_cons, exists_eq_or_imp, happlied, Bool.false_eq_true, false_and, false_or]

/-- A mapping that stands after setting is one of a call that took effect, or stood before. -/
theorem standing_of_set {requests : List (Program × Answer)} {standing : List Rpcb}
    {mapping : Rpcb} (h : mapping ∈ BindProcedure.set.applyAll info netid requests standing) :
    mapping ∈ standing ∨ ∃ request ∈ requests, request.2.applied = true ∧
      mapping = info.mapping netid request.1 := by
  induction requests generalizing standing with
  | nil => exact .inl h
  | cons request requests ih =>
    rw [BindProcedure.applyAll_cons] at h
    rcases ih h with hmem | ⟨other, hother, hfound⟩
    · split_ifs at hmem with happlied
      · rcases List.mem_cons.mp hmem with rfl | hmem
        · exact .inr ⟨request, List.mem_cons_self .., happlied, rfl⟩
        · exact .inl (List.mem_filter.mp hmem).1
      · exact .inl hmem
    · exact .inr ⟨other, List.mem_cons_of_mem _ hother, hfound⟩

/-- A mapping stands after unsetting unless a call that took effect has removed it. -/
theorem mem_unset_iff {requests : List (Program × Answer)} {standing : List Rpcb} {mapping : Rpcb} :
    mapping ∈ BindProcedure.unset.applyAll info netid requests standing ↔ mapping ∈ standing ∧
      ∀ request ∈ requests, request.2.applied = true →
        ¬ (info.mapping netid request.1).SameKey mapping := by
  induction requests generalizing standing with
  | nil => simp [BindProcedure.applyAll]
  | cons request requests ih =>
    rw [BindProcedure.applyAll_cons, ih, List.forall_mem_cons, ← and_assoc]
    by_cases happlied : request.2.applied = true
    · simp [happlied, BindProcedure.apply]
    · simp [happlied]

/-- Nothing stands after setting exactly if no call took effect. -/
theorem set_eq_nil_iff {requests : List (Program × Answer)} :
    BindProcedure.set.applyAll info netid requests [] = [] ↔ Rpcbind.Idle requests := by
  constructor
  · intro hnil request hrequest
    by_contra happlied
    obtain ⟨mapping, hmem, -⟩ := exists_standing_set_iff.mpr
      (.inr ⟨request, hrequest, eq_true_of_ne_false happlied, rfl⟩)
    rw [hnil] at hmem
    cases hmem
  · intro hidle
    refine List.eq_nil_iff_forall_not_mem.mpr fun mapping hmem => ?_
    rcases standing_of_set hmem with hnil | ⟨request, hrequest, happlied, -⟩
    · cases hnil
    · rw [hidle request hrequest] at happlied
      cases happlied

/-- Nothing stands after setting and unsetting exactly if each program whose setting took effect was
unset. -/
theorem unset_set_eq_nil_iff {sets unsets : List (Program × Answer)} :
    BindProcedure.unset.applyAll info netid unsets
      (BindProcedure.set.applyAll info netid sets []) = [] ↔
      ∀ set ∈ sets, set.2.applied = true →
        ∃ unset ∈ unsets, unset.2.applied = true ∧ unset.1 = set.1 := by
  constructor
  · intro hnil set hset happlied
    obtain ⟨mapping, hmem, hsame⟩ := exists_standing_set_iff.mpr (.inr ⟨set, hset, happlied, rfl⟩)
    by_contra hmissing
    have hstands : mapping ∈ BindProcedure.unset.applyAll info netid unsets
        (BindProcedure.set.applyAll info netid sets []) := by
      refine mem_unset_iff.mpr ⟨hmem, fun unset hunset heffect hkey => hmissing ?_⟩
      exact ⟨unset, hunset, heffect,
        (info.mapping_sameKey netid _ _).mp (hkey.trans hsame.symm)⟩
    rw [hnil] at hstands
    cases hstands
  · intro hall
    refine List.eq_nil_iff_forall_not_mem.mpr fun mapping hmem => ?_
    obtain ⟨hstood, hkept⟩ := mem_unset_iff.mp hmem
    rcases standing_of_set hstood with hnil | ⟨set, hset, happlied, rfl⟩
    · cases hnil
    · obtain ⟨unset, hunset, heffect, hsame⟩ := hall set hset happlied
      exact hkept unset hunset heffect ((info.mapping_sameKey netid _ _).mpr hsame)

/-! ## When publishing is all or nothing -/

/-- Publishing returns without an error only if every program was set, and leaves nothing behind if
it ends in another way. -/
def AllOrNothing (r : Rpcbind) (info : PublicationInfo)
    (publish : PublicationInfo → World → Ending (Except BindError Unit) × World) : Prop :=
  ((publish info .initial).1 = .returned (.ok ()) →
    ∀ i < info.programs.length, r.answer i = .replied true) ∧
  ((publish info .initial).1 ≠ .returned (.ok ()) → (publish info .initial).2.standing = [])

/-- If serving between publishing and unpublishing returns, it leaves nothing behind. -/
def LeavesNothing (ended : Ending (Except BindError Unit) × World) : Prop :=
  ∀ result, ended.1 = .returned result → ended.2.standing = []

namespace Rpcbind

variable (connecting : ℕ → SocketAddr → Ending (Except RuntimeError Unit))

/-- Publishing does not get to its first call, or every call is answered with true, or one of them
fails and none has taken effect. -/
def PublishesCleanly (r : Rpcbind) (info : PublicationInfo) : Prop :=
  (∃ error, checkedServiceAddr info.serviceAddr = .error error) ∨
  connecting 0 info.rpcbindAddr ≠ .returned (.ok ()) ∨
  (∀ i < info.programs.length, r.answer i = .replied true) ∨
  Fails (r.requests 0 info.programs) ∧ Idle (r.requests 0 info.programs)

/-- Connecting panics before the first call; or a call that sets fails and none has taken effect; or
none fails, and connecting again panics or each program whose setting took effect is unset. -/
def CleansUp (r : Rpcbind) (info : PublicationInfo) : Prop :=
  connecting 0 info.rpcbindAddr = .panicked ∨
  Fails (r.requests 0 info.programs) ∧ Idle (r.requests 0 info.programs) ∨
  ¬ Fails (r.requests 0 info.programs) ∧ (connecting 1 info.rpcbindAddr = .panicked ∨
    ∀ set ∈ r.requests 0 info.programs, set.2.applied = true →
      ∃ unset ∈ r.requests info.programs.length info.programs,
        unset.2.applied = true ∧ unset.1 = set.1)

/-- Every connection to rpcbind is established, and every client that needs a runtime gets it. -/
def Reachable (r : Rpcbind) : Prop :=
  ∀ n, r.startRuntime n = .ok () ∧ ∀ addr, r.connect n addr = .ok ()

/-- While rpcbind can be reached, connecting a client that blocks is established or panics. -/
theorem Reachable.connectBlocking {r : Rpcbind} (h : r.Reachable) (n : ℕ) (addr : SocketAddr) :
    r.connectBlocking n addr = .returned (.ok ()) ∨ r.connectBlocking n addr = .panicked := by
  rw [Rpcbind.connectBlocking, (h n).1]
  split_ifs
  · exact .inr rfl
  · exact .inl (congrArg Ending.returned ((h n).2 addr))

/-- While rpcbind can be reached, connecting a client that does not block is established. -/
theorem Reachable.connectAsync {r : Rpcbind} (h : r.Reachable) (n : ℕ) (addr : SocketAddr) :
    r.connectAsync n addr = .returned (.ok ()) :=
  congrArg Ending.returned ((h n).2 addr)

/-- All calls are answered with true exactly if the calls made are. -/
theorem requests_replied_iff {r : Rpcbind} {k : ℕ} {programs : List Program} :
    (∀ request ∈ r.requests k programs, request.2 = .replied true) ↔
      ∀ i < programs.length, r.answer (k + i) = .replied true := by
  induction programs generalizing k with
  | nil => simp [requests]
  | cons program programs ih =>
    have hsplit : (∀ i < (program :: programs).length, r.answer (k + i) = .replied true) ↔
        r.answer k = .replied true ∧
          ∀ i < programs.length, r.answer (k + 1 + i) = .replied true := by
      constructor
      · intro h
        refine ⟨h 0 (Nat.succ_pos _), fun i hi => ?_⟩
        rw [Nat.add_right_comm]
        exact h (i + 1) (Nat.succ_lt_succ hi)
      · rintro ⟨hfirst, hrest⟩ (_ | i) hi
        · exact hfirst
        · rw [← Nat.add_assoc, Nat.add_right_comm]
          exact hrest i (Nat.lt_of_succ_lt_succ hi)
    rw [hsplit, ← ih]
    rcases hanswer : r.answer k with value | ⟨error, carriedOut⟩
    · rw [requests_replied hanswer, List.forall_mem_cons]
    · rw [requests_failed hanswer]
      simp

/-- Where all calls are answered, none fails. -/
theorem not_fails_of_replied {requests : List (Program × Answer)}
    (h : ∀ request ∈ requests, request.2 = .replied true) : ¬ Fails requests := by
  rintro ⟨request, hrequest, hfailure⟩
  rw [h request hrequest] at hfailure
  cases hfailure

end Rpcbind

/-- A service address that passes the check is left as it is. -/
theorem checkedServiceAddr_eq {addr checked : SocketAddr}
    (h : checkedServiceAddr addr = .ok checked) : checked = addr := by
  unfold checkedServiceAddr at h
  split at h
  · split_ifs at h
    exact (Except.ok.inj h).symm
  · split_ifs at h
    exact (Except.ok.inj h).symm

section Publishing

variable {connecting : ℕ → SocketAddr → Ending (Except RuntimeError Unit)}

/-- What publishing comes to once it is connected. -/
theorem forPrograms_spec (r : Rpcbind) (netid : SocketAddr → String) (procedure : BindProcedure)
    (info : PublicationInfo)
    (hchecked : checkedServiceAddr info.serviceAddr = .ok info.serviceAddr)
    (connects calls : ℕ) (standing : List Rpcb)
    (hconnect : connecting connects info.rpcbindAddr = .returned (.ok ())) :
    ∃ result calls', forPrograms (connectTo connecting)
        (r.update (Rpcb.forNetid netid) procedure) info ⟨connects, calls, standing⟩ =
          (.returned result, ⟨connects + 1, calls',
            procedure.applyAll info netid (r.requests calls info.programs) standing⟩) ∧
      ((∃ error, result = .error error) ↔ Rpcbind.Fails (r.requests calls info.programs)) ∧
      (result = .ok () → calls' = calls + info.programs.length) := by
  obtain ⟨result, calls', hloop, hspec⟩ := updatePrograms_spec r netid procedure info hchecked
    info.programs (connects + 1) calls standing
  refine ⟨result, calls', ?_, hspec⟩
  simp only [forPrograms, connectTo, hconnect, Except.mapError, hloop]

/-- Publishing from where connecting panics panics, and asks for nothing. -/
theorem forPrograms_panicked
    {update : SocketAddr → ProgramVersion → String → World → Except BindError Bool × World}
    {info : PublicationInfo} {w : World}
    (hconnect : connecting w.connects info.rpcbindAddr = .panicked) :
    forPrograms (connectTo connecting) update info w =
      (.panicked, { w with connects := w.connects + 1 }) := by
  simp only [forPrograms, connectTo, hconnect]

/-- A loop for a service without an address of its own asks for nothing. -/
theorem updatePrograms_unspecified {r : Rpcbind} {netid : SocketAddr → String}
    {procedure : BindProcedure} {info : PublicationInfo} {error : BindError}
    (hchecked : checkedServiceAddr info.serviceAddr = .error error) (w : World) :
    updatePrograms (r.update (Rpcb.forNetid netid) procedure) info info.programs w =
      (if info.programs = [] then .ok () else .error error, w) := by
  rcases hprograms : info.programs with _ | ⟨program, programs⟩
  · rfl
  · rw [updatePrograms, Rpcbind.update, hchecked]
    rfl

/-- Publishing is all or nothing exactly under the condition. -/
theorem allOrNothing_iff (r : Rpcbind) (netid : SocketAddr → String) (info : PublicationInfo) :
    AllOrNothing r info (forPrograms (connectTo connecting) (r.update (Rpcb.forNetid netid) .set)) ↔
      r.PublishesCleanly connecting info := by
  have hinit : World.initial = ⟨0, 0, []⟩ := rfl
  rcases hconnect : connecting 0 info.rpcbindAddr with (error | ⟨⟩) | _
  · refine iff_of_true ?_ (.inr (.inl (by rw [hconnect]; nofun)))
    have hpublish : forPrograms (connectTo connecting) (r.update (Rpcb.forNetid netid) .set) info
        .initial = (.returned (.error (.runtime error)), ⟨1, 0, []⟩) := by
      simp only [forPrograms, connectTo, hinit, hconnect, Except.mapError]
    rw [AllOrNothing, hpublish]
    exact ⟨nofun, fun _ => rfl⟩
  · rcases hchecked : checkedServiceAddr info.serviceAddr with error | addr
    · refine iff_of_true ?_ (.inl ⟨error, hchecked⟩)
      have hpublish : forPrograms (connectTo connecting) (r.update (Rpcb.forNetid netid) .set) info
          .initial =
            (.returned (if info.programs = [] then .ok () else .error error), ⟨1, 0, []⟩) := by
        simp only [forPrograms, connectTo, hinit, hconnect, Except.mapError,
          updatePrograms_unspecified hchecked]
      rw [AllOrNothing, hpublish]
      refine ⟨fun hok i hi => ?_, fun _ => rfl⟩
      split_ifs at hok with hnil
      · rw [hnil] at hi
        cases hi
      · cases hok
    · obtain rfl := checkedServiceAddr_eq hchecked
      obtain ⟨result, calls, hpublish, hfails, -⟩ :=
        forPrograms_spec r netid .set info hchecked 0 0 [] hconnect
      have hreplied : (∀ request ∈ r.requests 0 info.programs, request.2 = .replied true) ↔
          ∀ i < info.programs.length, r.answer (0 + i) = .replied true :=
        Rpcbind.requests_replied_iff
      simp only [Nat.zero_add] at hreplied
      rw [AllOrNothing, hinit, hpublish, ← hreplied]
      simp only [set_eq_nil_iff]
      rw [Rpcbind.PublishesCleanly, ← hreplied]
      simp only [hchecked, hconnect, reduceCtorEq, exists_false, false_or, ne_eq,
        not_true_eq_false]
      rcases result with error | ⟨⟩
      · have hfail := hfails.mp ⟨error, rfl⟩
        constructor
        · rintro ⟨-, hidle⟩
          exact .inr ⟨hfail, hidle nofun⟩
        · rintro (hall | ⟨-, hidle⟩)
          · exact absurd hfail (Rpcbind.not_fails_of_replied hall)
          · exact ⟨nofun, fun _ => hidle⟩
      · have hfine : ¬ Rpcbind.Fails (r.requests 0 info.programs) := by
          intro hfail
          obtain ⟨error, herror⟩ := hfails.mpr hfail
          cases herror
        constructor
        · rintro ⟨hall, -⟩
          exact .inl (hall rfl)
        · rintro (hall | ⟨hfail, -⟩)
          · exact ⟨fun _ => hall, fun hne => absurd rfl hne⟩
          · exact absurd hfail hfine
  · refine iff_of_true ?_ (.inr (.inl (by rw [hconnect]; nofun)))
    rw [AllOrNothing, forPrograms_panicked (w := .initial) hconnect]
    exact ⟨nofun, fun _ => rfl⟩

end Publishing

/-- What is published has an address of its own. -/
theorem BoundServer.checked_of_publication {server : BoundServer} {info : PublicationInfo}
    (h : server.publication = .ok (some info)) :
    checkedServiceAddr info.serviceAddr = .ok info.serviceAddr := by
  unfold BoundServer.publication at h
  rcases haddr : server.localAddr with text | addr
  · rw [haddr] at h
    cases h
  · rw [haddr] at h
    have hinfo : publicationInfo server.config addr server.programs = .ok (some info) := h
    unfold publicationInfo at hinfo
    split at hinfo
    · cases hinfo
    rcases hrpcbind : server.config.rpcbindAddr with _ | rpcbindAddr
    · rw [hrpcbind] at hinfo
      cases hinfo
    · rcases hchecked : checkedServiceAddr addr with error | checked
      · rw [hrpcbind, hchecked] at hinfo
        cases hinfo
      · rw [hrpcbind, hchecked] at hinfo
        cases hinfo
        obtain rfl := checkedServiceAddr_eq hchecked
        exact hchecked

/-- Where connecting is established or panics, serving between publishing and unpublishing leaves
nothing behind exactly under the condition. -/
theorem withRpcbind_iff (r : Rpcbind) (netid : SocketAddr → String) (server : BoundServer)
    (served : Except String Unit)
    {connecting : ℕ → SocketAddr → Ending (Except RuntimeError Unit)}
    (hconnecting : ∀ n addr,
      connecting n addr = .returned (.ok ()) ∨ connecting n addr = .panicked) :
    LeavesNothing (server.withRpcbind
      (forPrograms (connectTo connecting) (r.update (Rpcb.forNetid netid) .set))
      (forPrograms (connectTo connecting) (r.update (Rpcb.forNetid netid) .unset))
      served .initial) ↔
      ∀ info, server.publication = .ok (some info) → r.CleansUp connecting info := by
  unfold BoundServer.withRpcbind
  rcases hpublication : server.publication with error | (_ | info)
  · exact iff_of_true (fun _ _ => rfl) nofun
  · exact iff_of_true (fun _ _ => rfl) nofun
  have hone : (∀ other, Except.ok (some info) = Except.ok (ε := BindError) (some other) →
      r.CleansUp connecting other) ↔ r.CleansUp connecting info := by
    constructor
    · intro h
      exact h info rfl
    · rintro h other ⟨⟩
      exact h
  rw [hone]
  have hinit : World.initial = ⟨0, 0, []⟩ := rfl
  rcases hconnecting 0 info.rpcbindAddr with hconnect | hconnect
  · have hchecked := server.checked_of_publication hpublication
    obtain ⟨result, calls, hpublish, hfails, hcalls⟩ :=
      forPrograms_spec r netid .set info hchecked 0 0 [] hconnect
    simp only [hinit, hpublish, Nat.zero_add]
    rcases result with error | ⟨⟩
    · have hfail := hfails.mp ⟨error, rfl⟩
      simp [LeavesNothing, set_eq_nil_iff, Rpcbind.CleansUp, hfail, hconnect]
    · have hfine : ¬ Rpcbind.Fails (r.requests 0 info.programs) := by
        intro hfail
        obtain ⟨error, herror⟩ := hfails.mpr hfail
        cases herror
      obtain rfl := hcalls rfl
      rcases hconnecting 1 info.rpcbindAddr with hagain | hagain
      · obtain ⟨unpublished, calls', hunpublish, -⟩ := forPrograms_spec r netid .unset info
          hchecked 1 (0 + info.programs.length)
          (BindProcedure.set.applyAll info netid (r.requests 0 info.programs) []) hagain
        simp only [Nat.zero_add] at hunpublish ⊢
        simp [LeavesNothing, hunpublish, unset_set_eq_nil_iff, Rpcbind.CleansUp, hfine, hconnect,
          hagain]
      · simp only [forPrograms_panicked (w := ⟨1, _, _⟩) hagain]
        exact iff_of_true nofun (.inr (.inr ⟨hfine, .inl hagain⟩))
  · simp only [forPrograms_panicked (w := .initial) hconnect]
    exact iff_of_true nofun (.inl hconnect)

/-! ## The result -/

/-- The transports of a server. -/
inductive ServerTransport where
  | tcp
  | asyncTcp
  | udp
  | asyncUdp

/-- How a client of a transport connects to rpcbind. -/
def ServerTransport.connecting (r : Rpcbind) :
    ServerTransport → ℕ → SocketAddr → Ending (Except RuntimeError Unit)
  | .tcp => r.connectBlocking
  | .asyncTcp => r.connectAsync
  | .udp => r.connectBlocking
  | .asyncUdp => r.connectAsync

/-- How a transport publishes programs. -/
def ServerTransport.publish (r : Rpcbind) :
    ServerTransport → PublicationInfo → World → Ending (Except BindError Unit) × World
  | .tcp => r.publishTcpPrograms
  | .asyncTcp => r.publishTcpProgramsAsync
  | .udp => r.publishUdpPrograms
  | .asyncUdp => r.publishUdpProgramsAsync

/-- How a transport accepts once between publishing and unpublishing. -/
def ServerTransport.acceptOnce (r : Rpcbind) (server : BoundServer) :
    ServerTransport → Except String Unit → World → Ending (Except BindError Unit) × World
  | .tcp => TokioServerTransport.acceptOnceWithRpcbind r server
  | .asyncTcp => TokioAsyncServerTransport.acceptOnceWithRpcbind r server
  | .udp => TokioUdpServerTransport.acceptOnceWithRpcbind r server
  | .asyncUdp => TokioAsyncUdpServerTransport.acceptOnceWithRpcbind r server

/-- How a transport serves between publishing and unpublishing. -/
def ServerTransport.serve (r : Rpcbind) (server : BoundServer) :
    ServerTransport → Except String Unit → World → Ending (Except BindError Unit) × World
  | .tcp => TokioServerTransport.serveWithRpcbind r server
  | .asyncTcp => TokioAsyncServerTransport.serveWithRpcbind r server
  | .udp => TokioUdpServerTransport.serveWithRpcbind r server
  | .asyncUdp => TokioAsyncUdpServerTransport.serveWithRpcbind r server

/-- While rpcbind can be reached, connecting a client of a transport is established or panics. -/
theorem ServerTransport.connecting_of_reachable {r : Rpcbind} (h : r.Reachable)
    (transport : ServerTransport) (n : ℕ) (addr : SocketAddr) :
    transport.connecting r n addr = .returned (.ok ()) ∨
      transport.connecting r n addr = .panicked := by
  cases transport with
  | tcp => exact h.connectBlocking n addr
  | asyncTcp => exact .inl (h.connectAsync n addr)
  | udp => exact h.connectBlocking n addr
  | asyncUdp => exact .inl (h.connectAsync n addr)

/-- Publication, over every transport, whatever rpcbind answers and whichever thread connects:
publishing is all or nothing exactly if it publishes cleanly, and accepting once and serving, while
rpcbind can be reached, leave nothing registered when they return exactly if they clean up. -/
theorem rpcbind_publication (r : Rpcbind) (transport : ServerTransport) :
    (∀ info, AllOrNothing r info (transport.publish r) ↔
      r.PublishesCleanly (transport.connecting r) info) ∧
    ∀ (server : BoundServer) (served : Except String Unit),
      ((r.Reachable → LeavesNothing (transport.acceptOnce r server served .initial)) ↔
        (r.Reachable → ∀ info, server.publication = .ok (some info) →
          r.CleansUp (transport.connecting r) info)) ∧
      ((r.Reachable → LeavesNothing (transport.serve r server served .initial)) ↔
        (r.Reachable → ∀ info, server.publication = .ok (some info) →
          r.CleansUp (transport.connecting r) info)) := by
  obtain ⟨netid, hpublish, haccept, hserve⟩ : ∃ netid : SocketAddr → String,
      transport.publish r = forPrograms (connectTo (transport.connecting r))
        (r.update (Rpcb.forNetid netid) .set) ∧
      (∀ server, transport.acceptOnce r server = server.withRpcbind
        (forPrograms (connectTo (transport.connecting r)) (r.update (Rpcb.forNetid netid) .set))
        (forPrograms (connectTo (transport.connecting r))
          (r.update (Rpcb.forNetid netid) .unset))) ∧
      ∀ server, transport.serve r server = server.withRpcbind
        (forPrograms (connectTo (transport.connecting r)) (r.update (Rpcb.forNetid netid) .set))
        (forPrograms (connectTo (transport.connecting r))
          (r.update (Rpcb.forNetid netid) .unset)) := by
    rcases transport with _ | _ | _ | _
    · exact ⟨tcpNetid, rfl, fun _ => rfl, fun _ => rfl⟩
    · exact ⟨tcpNetid, rfl, fun _ => rfl, fun _ => rfl⟩
    · exact ⟨udpNetid, rfl, fun _ => rfl, fun _ => rfl⟩
    · exact ⟨udpNetid, rfl, fun _ => rfl, fun _ => rfl⟩
  refine ⟨fun info => ?_, fun server served => ⟨?_, ?_⟩⟩
  · rw [hpublish]
    exact allOrNothing_iff r netid info
  · rw [haccept]
    exact imp_congr_right fun hreachable => withRpcbind_iff r netid server served
      (transport.connecting_of_reachable hreachable)
  · rw [hserve]
    exact imp_congr_right fun hreachable => withRpcbind_iff r netid server served
      (transport.connecting_of_reachable hreachable)

/-- Two programs of a server. -/
def twoPrograms : List Program := [⟨200001, 1⟩, ⟨200002, 1⟩]

/-- A server with the two programs on the loopback address. -/
def twoProgramServer : BoundServer where
  config := ⟨true, some (.v4 0x7f000001 111), none⟩
  localAddr := .ok (.v4 0x7f000001 4040)
  programs := twoPrograms

/-- Publishing two programs succeeds although rpcbind refuses the second; and where setting the
second fails, accepting once returns with the first left registered. -/
theorem published_without_answer :
    (∃ r : Rpcbind, r.Reachable ∧ r.answer 1 = .replied false ∧
      (r.publishTcpProgramsAsync
        ⟨.v4 0x7f000001 111, .v4 0x7f000001 4040, defaultOwner, twoPrograms⟩ .initial).1 =
          .returned (.ok ())) ∧
    ∃ r : Rpcbind, r.Reachable ∧ ∃ error,
      (TokioAsyncServerTransport.acceptOnceWithRpcbind r twoProgramServer (.ok ())
        .initial).1 = .returned (.error error) ∧
      (TokioAsyncServerTransport.acceptOnceWithRpcbind r twoProgramServer (.ok ())
        .initial).2.standing.map Rpcb.program = [200001] := by
  refine ⟨⟨⟨fun _ => .ok (), fun _ => true, fun _ _ => .ok (), fun k => .replied (k != 1)⟩,
      fun _ => ⟨rfl, fun _ => rfl⟩, rfl, ?_⟩,
    ⟨⟨fun _ => .ok (), fun _ => true, fun _ _ => .ok (),
      fun k => if k = 1 then .failed .connectionClosed false else .replied true⟩,
      fun _ => ⟨rfl, fun _ => rfl⟩, .runtime .connectionClosed, ?_, ?_⟩⟩
  · decide +kernel
  · decide +kernel
  · decide +kernel

end OncRpc
