import OncRpc.Foundation.Future
import OncRpc.Server.Dispatch

/-!
# Which dispatcher answers a call

A server resolves a call by its program and its version together.  `Server.registerAll` is a server
after any number of `register` calls: the first dispatcher of a program and version stays.
`AsyncServer` is the other implementation, whose dispatchers are futures.

`version_resolution` says what both reply.  A version that is not registered is as good as a program
that is not registered: the reply does not tell which versions there are (`versions_untold`).
-/

namespace OncRpc

open Foundation

variable {Ω : Type}

/-! ## Asynchronous dispatchers -/

/-- A dispatcher whose result has to be awaited. -/
abbrev AsyncDispatch (Ω : Type) := RequestContext → Future Ω (Except DispatchError ResponsePayload)

/-- A server with asynchronous dispatchers. -/
structure AsyncServer (Ω : Type) where
  dispatchers : AList fun _ : Program => AsyncDispatch Ω

namespace AsyncServer

/-- A server without dispatchers. -/
def empty : AsyncServer Ω := ⟨∅⟩

/-- Add a dispatcher for a program that has none. -/
def register (server : AsyncServer Ω) (program : Program) (dispatch : AsyncDispatch Ω) :
    Except ServerError (AsyncServer Ω) :=
  match server.dispatchers.lookup program with
  | some _ => .error (.duplicateRegistration program)
  | none => .ok ⟨server.dispatchers.insert program dispatch⟩

/-- The transaction id, the request and the dispatcher of a call. -/
def resolveDispatch (server : AsyncServer Ω) (message : RpcMessage)
    (peerAddr : Option SocketAddr) :
    Except ServerError (Xid × RequestContext × Option (AsyncDispatch Ω)) :=
  match message.body with
  | .reply _ => .error .unexpectedReplyMessage
  | .call call =>
    let request : RequestContext :=
      { xid := message.xid, program := call.program, procedure := call.procedure,
        peerAddr := peerAddr, credentials := call.credentials, verifier := call.verifier,
        payload := call.payload }
    .ok (message.xid, request, server.dispatchers.lookup (.from call.program))

/-- The reply to a message. -/
def handleMessageWithPeerAddr (server : AsyncServer Ω) (message : RpcMessage)
    (peerAddr : Option SocketAddr) : Future Ω (Except ServerError RpcMessage) :=
  match server.resolveDispatch message peerAddr with
  | .error error => .ready (.error error)
  | .ok (xid, request, some dispatch) =>
    (dispatch request).map fun result =>
      let body := match result with
        | .ok response => successReply response
        | .error .procedureUnavailable => procedureUnavailableReply
        | .error .garbageArgs => garbageArgsReply
        | .error .systemError => systemErrorReply
      .ok ⟨xid, .reply body⟩
  | .ok (xid, _, none) => .ready (.ok ⟨xid, .reply programUnavailableReply⟩)

/-- The server after a sequence of `register` calls; a refused one changes nothing. -/
def registerAll (server : AsyncServer Ω) (registrations : List (Program × AsyncDispatch Ω)) :
    AsyncServer Ω :=
  registrations.foldl (fun server registration =>
    match server.register registration.1 registration.2 with
    | .ok server => server
    | .error _ => server) server

end AsyncServer

/-- The server after a sequence of `register` calls; a refused one changes nothing. -/
def Server.registerAll (server : Server Ω) (registrations : List (Program × Dispatch Ω)) :
    Server Ω :=
  registrations.foldl (fun server registration =>
    match server.register registration.1 registration.2 with
    | .ok server => server
    | .error _ => server) server

/-! ## Registries -/

section Registries

variable {D : Type}

/-- The dispatchers after a registration. -/
def registered (dispatchers : AList fun _ : Program => D) (registration : Program × D) :
    AList fun _ : Program => D :=
  match dispatchers.lookup registration.1 with
  | some _ => dispatchers
  | none => dispatchers.insert registration.1 registration.2

/-- The first entry of a list is looked at first. -/
theorem lookup_entry_cons (entry : Program × D) (rest : List (Program × D)) (program : Program) :
    (entry :: rest).lookup program =
      bif program == entry.1 then some entry.2 else rest.lookup program := by
  obtain ⟨key, value⟩ := entry
  rw [List.lookup_cons]
  cases program == key <;> rfl

theorem lookup_registered (dispatchers : AList fun _ : Program => D) (registration : Program × D)
    (program : Program) :
    (registered dispatchers registration).lookup program =
      ((dispatchers.lookup program).or ([registration].lookup program)) := by
  unfold registered
  by_cases heq : program = registration.1
  · subst heq
    have hfound : [registration].lookup registration.1 = some registration.2 :=
      List.lookup_cons_self
    rcases hentry : dispatchers.lookup registration.1 with _ | dispatch
    · rw [hfound]
      simp [AList.lookup_insert]
    · simp [hentry]
  · have hnone : [registration].lookup program = none := by
      obtain ⟨key, value⟩ := registration
      exact List.lookup_eq_none_iff.mpr (by simpa using heq)
    rcases hentry : dispatchers.lookup registration.1 with _ | dispatch
    · simp [AList.lookup_insert_ne heq, hnone]
    · simp [hnone]

/-- The first dispatcher registered for a program and version is the one that is found. -/
theorem lookup_foldl_registered (registrations : List (Program × D))
    (dispatchers : AList fun _ : Program => D) (program : Program) :
    (registrations.foldl registered dispatchers).lookup program =
      ((dispatchers.lookup program).or (registrations.lookup program)) := by
  induction registrations generalizing dispatchers with
  | nil => simp
  | cons registration rest ih =>
    rw [List.foldl_cons, ih, lookup_registered, Option.or_assoc]
    congr 1
    rcases hsame : program == registration.1 with _ | _ <;> simp [lookup_entry_cons, hsame]

theorem lookup_eq_none_iff_notMem {registrations : List (Program × D)} {program : Program} :
    registrations.lookup program = none ↔ program ∉ registrations.map Prod.fst := by
  rw [List.lookup_eq_none_iff]
  constructor
  · intro h hmem
    obtain ⟨registration, hregistration, rfl⟩ := List.mem_map.mp hmem
    simpa using h registration hregistration
  · intro h registration hregistration
    have hne : program ≠ registration.1 := by
      rintro rfl
      exact h (List.mem_map_of_mem hregistration)
    simpa using hne

/-- A registry that is filled one registration after the other finds the first dispatcher that was
registered for a program and version. -/
theorem lookup_foldl {S : Type} (dispatchers : S → AList fun _ : Program => D)
    (register : S → Program × D → S)
    (hregister : ∀ registry registration,
      dispatchers (register registry registration) = registered (dispatchers registry) registration)
    (empty : S) (hempty : dispatchers empty = ∅) (registrations : List (Program × D))
    (program : Program) :
    (dispatchers (registrations.foldl register empty)).lookup program =
      registrations.lookup program := by
  have hfold : dispatchers (registrations.foldl register empty) =
      registrations.foldl registered (dispatchers empty) := by
    clear hempty
    induction registrations generalizing empty with
    | nil => rfl
    | cons registration rest ih => rw [List.foldl_cons, ih, hregister, List.foldl_cons]
  rw [hfold, hempty, lookup_foldl_registered]
  rfl

end Registries

/-- A server finds the first dispatcher that was registered for a program and version. -/
theorem Server.lookup_registerAll (registrations : List (Program × Dispatch Ω))
    (program : Program) :
    ((Server.empty.registerAll registrations).dispatchers).lookup program =
      registrations.lookup program := by
  refine lookup_foldl Server.dispatchers _ (fun server registration => ?_) Server.empty rfl
    registrations program
  simp only [Server.register, registered]
  rcases server.dispatchers.lookup registration.1 with _ | dispatch <;> rfl

/-- So does one with asynchronous dispatchers. -/
theorem AsyncServer.lookup_registerAll (registrations : List (Program × AsyncDispatch Ω))
    (program : Program) :
    ((AsyncServer.empty.registerAll registrations).dispatchers).lookup program =
      registrations.lookup program := by
  refine lookup_foldl AsyncServer.dispatchers _ (fun server registration => ?_)
    AsyncServer.empty rfl
    registrations program
  simp only [AsyncServer.register, registered]
  rcases server.dispatchers.lookup registration.1 with _ | dispatch <;> rfl

/-! ## Replies -/

/-- The body of the reply to a call that was dispatched. -/
def dispatchReply : Except DispatchError ResponsePayload → ReplyBody
  | .ok response => successReply response
  | .error .procedureUnavailable => procedureUnavailableReply
  | .error .garbageArgs => garbageArgsReply
  | .error .systemError => systemErrorReply

/-- A dispatcher never says that its program is not there. -/
theorem dispatchReply_ne_programUnavailable (result : Except DispatchError ResponsePayload) :
    dispatchReply result ≠ programUnavailableReply := by
  rcases result with (_ | _ | _) | response <;>
    simp [dispatchReply, programUnavailableReply, procedureUnavailableReply, garbageArgsReply,
      systemErrorReply, successReply]

/-- The request a dispatcher is given for a call. -/
def CallBody.request (call : CallBody) (xid : Xid) (peerAddr : Option SocketAddr) :
    RequestContext where
  xid := xid
  program := call.program
  procedure := call.procedure
  peerAddr := peerAddr
  credentials := call.credentials
  verifier := call.verifier
  payload := call.payload

theorem Server.handle_call (server : Server Ω) (world : Ω) (xid : Xid) (call : CallBody)
    (peerAddr : Option SocketAddr) :
    server.handleMessageWithPeerAddr world ⟨xid, .call call⟩ peerAddr =
      .ok ⟨xid, .reply (match server.dispatchers.lookup (.from call.program) with
        | some dispatch => dispatchReply (dispatch world (call.request xid peerAddr))
        | none => programUnavailableReply)⟩ := by
  unfold Server.handleMessageWithPeerAddr Server.resolveDispatch
  simp only [bind, Except.bind, pure, Except.pure]
  rcases hlookup : server.dispatchers.lookup (.from call.program) with _ | dispatch
  · simp only [hlookup]
  · simp only [hlookup, CallBody.request]
    unfold dispatchReply
    rfl

theorem AsyncServer.handle_call (server : AsyncServer Ω) (xid : Xid) (call : CallBody)
    (peerAddr : Option SocketAddr) :
    server.handleMessageWithPeerAddr ⟨xid, .call call⟩ peerAddr =
      match server.dispatchers.lookup (.from call.program) with
      | some dispatch => (dispatch (call.request xid peerAddr)).map fun result =>
          .ok ⟨xid, .reply (dispatchReply result)⟩
      | none => .ready (.ok ⟨xid, .reply programUnavailableReply⟩) := by
  unfold AsyncServer.handleMessageWithPeerAddr AsyncServer.resolveDispatch
  simp only
  rcases hlookup : server.dispatchers.lookup (.from call.program) with _ | dispatch
  · simp only [hlookup]
  · simp only [hlookup, CallBody.request]
    unfold dispatchReply
    rfl

/-- The asynchronous dispatcher comes to what the other one returns, whatever the world is like
while it is awaited. -/
def Dispatch.Awaits (dispatch : Dispatch (List Ω)) (async : AsyncDispatch Ω) : Prop :=
  ∀ request worlds result, (async request).output worlds = some result →
    dispatch worlds request = result

/-- Two sequences of registrations, of the same programs with dispatchers that do the same. -/
def RegisterAlike (registrations : List (Program × Dispatch (List Ω)))
    (async : List (Program × AsyncDispatch Ω)) : Prop :=
  List.Forall₂ (fun one other => one.1 = other.1 ∧ Dispatch.Awaits one.2 other.2)
    registrations async

theorem RegisterAlike.lookup {registrations : List (Program × Dispatch (List Ω))}
    {async : List (Program × AsyncDispatch Ω)} (h : RegisterAlike registrations async)
    (program : Program) :
    (registrations.lookup program = none ∧ async.lookup program = none) ∨
      ∃ one other, registrations.lookup program = some one ∧ async.lookup program = some other ∧
        one.Awaits other := by
  induction h with
  | nil => exact .inl ⟨rfl, rfl⟩
  | @cons first second _ _ hfirst _ ih =>
    obtain ⟨hprogram, hawaits⟩ := hfirst
    rcases hsame : program == first.1 with _ | _
    · have hother : (program == second.1) = false := hprogram ▸ hsame
      simpa only [lookup_entry_cons, hsame, hother, cond_false] using ih
    · have hother : (program == second.1) = true := hprogram ▸ hsame
      refine .inr ⟨first.2, second.2, ?_, ?_, hawaits⟩
      · simp only [lookup_entry_cons, hsame, cond_true]
      · simp only [lookup_entry_cons, hother, cond_true]

/-- The resolution of a call, for every server reachable by `register` calls: the reply keeps the
transaction id; if the program is registered in the version of the call, the reply is that of its
first dispatcher; and it says that the program is unavailable exactly if that version is not
registered, whatever other versions are.  The two kinds of servers agree, as far as their
dispatchers do: a reply that the asynchronous one comes to is the reply of the other one, and it
replies at once where there is no dispatcher. -/
theorem version_resolution (registrations : List (Program × Dispatch (List Ω)))
    (async : List (Program × AsyncDispatch Ω)) (halike : RegisterAlike registrations async)
    (xid : Xid) (call : CallBody) (peerAddr : Option SocketAddr) (worlds : List Ω) :
    ∃ body, (Server.empty.registerAll registrations).handleMessageWithPeerAddr worlds
        ⟨xid, .call call⟩ peerAddr = .ok ⟨xid, .reply body⟩ ∧
      (∀ dispatch, registrations.lookup (.from call.program) = some dispatch →
        body = dispatchReply (dispatch worlds (call.request xid peerAddr))) ∧
      (body = programUnavailableReply ↔
        Program.from call.program ∉ registrations.map Prod.fst) ∧
      (∀ reply, ((AsyncServer.empty.registerAll async).handleMessageWithPeerAddr
        ⟨xid, .call call⟩ peerAddr).output worlds = some reply → reply = .ok ⟨xid, .reply body⟩) ∧
      (Program.from call.program ∉ registrations.map Prod.fst →
        (AsyncServer.empty.registerAll async).handleMessageWithPeerAddr ⟨xid, .call call⟩ peerAddr =
          .ready (.ok ⟨xid, .reply programUnavailableReply⟩)) := by
  rw [Server.handle_call, AsyncServer.handle_call, Server.lookup_registerAll,
    AsyncServer.lookup_registerAll]
  refine ⟨_, rfl, ?_⟩
  rcases halike.lookup (.from call.program) with ⟨hone, hother⟩
    | ⟨one, other, hone, hother, hawaits⟩
  · refine ⟨fun dispatch hdispatch => ?_, ?_, fun reply hreply => ?_, fun _ => ?_⟩
    · rw [hone] at hdispatch
      cases hdispatch
    · rw [hone]
      exact ⟨fun _ => lookup_eq_none_iff_notMem.mp hone, fun _ => rfl⟩
    · rw [hother] at hreply
      simp only [Future.output_ready, Option.some.injEq] at hreply
      rw [← hreply, hone]
    · rw [hother]
  · have hregistered : Program.from call.program ∈ registrations.map Prod.fst := by
      by_contra habsent
      rw [lookup_eq_none_iff_notMem.mpr habsent] at hone
      cases hone
    refine ⟨fun dispatch hdispatch => ?_, ?_, fun reply hreply => ?_, fun habsent => ?_⟩
    · rw [hone] at hdispatch ⊢
      cases hdispatch
      rfl
    · rw [hone]
      exact ⟨fun heq => absurd heq (dispatchReply_ne_programUnavailable _),
        fun habsent => absurd hregistered habsent⟩
    · rw [hother] at hreply
      simp only [Future.output_map] at hreply
      obtain ⟨result, hresult, rfl⟩ := Option.map_eq_some_iff.mp hreply
      rw [hone]
      simp only [hawaits _ _ _ hresult]
    · exact absurd hregistered habsent

/-- A dispatcher that answers every call with nothing. -/
def nothingDispatch : Dispatch (List Unit) := fun _ _ => .ok ⟨.none, []⟩

/-- A program in its versions 1 and 3. -/
def twoVersions : List (Program × Dispatch (List Unit)) :=
  [(⟨100, 1⟩, nothingDispatch), (⟨100, 3⟩, nothingDispatch)]

/-- A call of that program in version 2. -/
def versionTwoCall : CallBody := ⟨2, ⟨100, 2⟩, 0, .none, .none, []⟩

/-- Versions 1 and 3 of a program are registered; a call of version 2 is told that the program is
unavailable, and not that its versions reach from 1 to 3. -/
theorem versions_untold :
    (Server.empty.registerAll twoVersions).handleMessageWithPeerAddr [] ⟨7, .call versionTwoCall⟩
        none = .ok ⟨7, .reply programUnavailableReply⟩ ∧
      programUnavailableReply ≠ .accepted ⟨.none, .programMismatch ⟨1, 3⟩⟩ ∧
      twoVersions.map Prod.fst = [⟨100, 1⟩, ⟨100, 3⟩] ∧
      versionTwoCall.program = ⟨100, 2⟩ := by
  refine ⟨?_, by decide, rfl, rfl⟩
  rw [Server.handle_call, Server.lookup_registerAll]
  rfl

/-- A call of version 3 is answered by its dispatcher, on both kinds of servers. -/
theorem version_resolution_three :
    (Server.empty.registerAll twoVersions).handleMessageWithPeerAddr []
        ⟨7, .call { versionTwoCall with program := ⟨100, 3⟩ }⟩ none =
      .ok ⟨7, .reply (successReply ⟨.none, []⟩)⟩ := by
  have halike : RegisterAlike twoVersions
      [(⟨100, 1⟩, fun _ => .ready (.ok ⟨.none, []⟩)),
        (⟨100, 3⟩, fun _ => .ready (.ok ⟨.none, []⟩))] := by
    refine .cons ⟨rfl, ?_⟩ (.cons ⟨rfl, ?_⟩ .nil) <;> intro request worlds result hresult <;>
      exact Option.some.inj ((Future.output_ready _ worlds).symm.trans hresult)
  obtain ⟨body, hreply, hbody, -⟩ := version_resolution twoVersions _ halike 7
    { versionTwoCall with program := ⟨100, 3⟩ } none []
  rw [hreply, hbody nothingDispatch rfl]
  rfl

end OncRpc
