import OncRpc.Server.Replies
import OncRpc.Tls.Probe
import Mathlib.Data.List.Infix

/-!
# Upgrading a connection of a server

A connection starts in the clear.  Until a client asks for TLS the loop answers every message
itself, or, unless the mode of the server insists on TLS, goes over to plain service.  When a probe
arrives the server confirms it, hands the stream to the TLS acceptor, and serves what the acceptor
delivers.

`StartTlsConn.step` is one step of such a connection.  `startTls_guards` says what a server that
insists on TLS does with clear text: whatever the peer sends and however it is cut into reads, none
of it reaches a dispatcher or survives the handshake, and the confirmation is the last thing written
in the clear.
-/

namespace OncRpc

open Foundation

variable {Ω : Type}

/-! ## What is served -/

/-- When a server uses TLS. -/
inductive TlsMode where
  | disabled
  | allowed
  | required
  | mutualAuthRequired
  deriving DecidableEq

/-- The mode admits no call in the clear. -/
def TlsMode.insists : TlsMode → Bool
  | .required | .mutualAuthRequired => true
  | .disabled | .allowed => false

/-- The text of a read error says that the peer left without a closing alert. -/
def isTlsCloseWithoutNotify (message : String) : Bool :=
  decide ("close_notify".toList <:+: message.toList)

/-- The loops `serve_sync_split` and `serve_async_split`: the flavor of a probe is refused, and a
peer that leaves without a closing alert is no error. -/
def Service.split (server : Server Ω) : Service Ω where
  server := server
  peerAddr := none
  intercept := fun message =>
    if (authTlsRequest message).isSome then some (authTlsBadCredReply message.xid) else none
  fails := .runtime
  readFails := fun error =>
    if isTlsCloseWithoutNotify error.text then .ok ()
    else .error (.runtime (.transport error.text))

/-! ## The connection -/

/-- What is left to do after a reply in the clear. -/
inductive AfterReply where
  | handshake
  | goOn (buffer : Bytes)
  | leave

/-- What the served bytes travel over. -/
inductive Channel where
  | clear
  | tls
  deriving DecidableEq

/-- Where a connection is. -/
inductive StartTlsPhase where
  /-- About to look for a message in the buffer. -/
  | decoding (buffer : Bytes)
  /-- Waiting for the stream. -/
  | reading (buffer : Bytes)
  /-- Writing a reply in the clear, with the buffers that are left of it. -/
  | writing (left : List Bytes) (next : AfterReply)
  /-- The acceptor has the stream. -/
  | accepting
  | serving (channel : Channel) (conn : ServerConn)
  | ended (result : Except TlsError Unit)

/-- The state of a connection. -/
structure StartTlsConn where
  phase : StartTlsPhase
  /-- The bytes read in the clear before an upgrade. -/
  clearInput : Bytes
  /-- The bytes the stream accepted in the clear before an upgrade. -/
  clearOutput : Bytes

/-- What can happen on a connection. -/
inductive StartTlsAction (Ω : Type) where
  | decode
  | read (result : ReadResult IoError)
  /-- The stream accepts bytes of the reply being written. -/
  | accept (count : ℕ)
  /-- The buffer being written is used up. -/
  | next
  | flush
  | fail (error : IoError)
  /-- The acceptor is done. -/
  | handshake (result : Except String Unit)
  /-- A step of the service that follows. -/
  | serve (action : ServerAction Ω)

namespace StartTlsConn

/-- A connection before its first read. -/
def initial : StartTlsConn where
  phase := .decoding []
  clearInput := []
  clearOutput := []

/-- Start to write a reply in the clear. -/
def reply (s : StartTlsConn) (message : RpcMessage) (next : AfterReply) : StartTlsConn :=
  match writeRpcMessage message with
  | .error error => { s with phase := .ended (.error (.runtime error)) }
  | .ok left => { s with phase := .writing left next }

/-- What the loop does with a message in the clear; `buffer` is what follows it. -/
def receive (mode : TlsMode) (s : StartTlsConn) (message : RpcMessage) (buffer : Bytes) :
    StartTlsConn :=
  match authTlsRequest message with
  | some .probe =>
    match startTlsOkReply message.xid with
    | .error error => { s with phase := .ended (.error (.runtime error)) }
    | .ok confirmation => s.reply confirmation .handshake
  | some .invalid => s.reply (authTlsBadCredReply message.xid) (.goOn buffer)
  | none =>
    if mode.insists then s.reply (authTlsBadCredReply message.xid) .leave
    else { s with
      phase := .serving .clear { ServerConn.initial buffer with loop := .spawning message buffer } }

/-- Take a message out of the buffer. -/
def decode (mode : TlsMode) (s : StartTlsConn) : Option StartTlsConn :=
  match s.phase with
  | .decoding buffer =>
    match tryDecodeMessageFromBuffer buffer with
    | (.error error, _) => some { s with phase := .ended (.error (.runtime error)) }
    | (.ok none, buffer) => some { s with phase := .reading buffer }
    | (.ok (some message), buffer) => some (s.receive mode message buffer)
  | _ => none

/-- The stream answers a read. -/
def read (s : StartTlsConn) (result : ReadResult IoError) : Option StartTlsConn :=
  match s.phase, result with
  | .reading buffer, .bytes chunk =>
    if chunk = [] then none
    else some { s with
      phase := .decoding (buffer ++ chunk), clearInput := s.clearInput ++ chunk }
  | .reading _, .eof => some { s with phase := .ended (.ok ()) }
  | .reading _, .error error =>
    some { s with phase := .ended (.error (.runtime (.transport error.text))) }
  | _, _ => none

/-- The stream accepts bytes of a reply. -/
def accept (s : StartTlsConn) (count : ℕ) : Option StartTlsConn :=
  match s.phase with
  | .writing (buffer :: left) next =>
    if 0 < count ∧ count ≤ buffer.length then
      some { s with
        phase := .writing (buffer.drop count :: left) next
        clearOutput := s.clearOutput ++ buffer.take count }
    else none
  | _ => none

/-- Go on to the next buffer of a reply. -/
def next (s : StartTlsConn) : Option StartTlsConn :=
  match s.phase with
  | .writing ([] :: left) next => some { s with phase := .writing left next }
  | _ => none

/-- A reply is written. -/
def flush (s : StartTlsConn) : Option StartTlsConn :=
  match s.phase with
  | .writing [] .handshake => some { s with phase := .accepting }
  | .writing [] (.goOn buffer) => some { s with phase := .decoding buffer }
  | .writing [] .leave => some { s with phase := .ended (.ok ()) }
  | _ => none

/-- The stream does not take a reply. -/
def fail (s : StartTlsConn) (error : IoError) : Option StartTlsConn :=
  match s.phase with
  | .writing _ _ => some { s with phase := .ended (.error (.runtime (.transport error.text))) }
  | _ => none

/-- The acceptor is done.  What the loop had buffered is gone: the service starts without it. -/
def handshake (s : StartTlsConn) (result : Except String Unit) : Option StartTlsConn :=
  match s.phase, result with
  | .accepting, .ok () => some { s with phase := .serving .tls (.initial []) }
  | .accepting, .error text => some { s with phase := .ended (.error (.handshake text)) }
  | _, _ => none

/-- A step of the service. -/
def serve (server : Server Ω) (s : StartTlsConn) (action : ServerAction Ω) : Option StartTlsConn :=
  match s.phase with
  | .serving channel conn =>
    (conn.step (.split server) action).map fun conn => { s with phase := .serving channel conn }
  | _ => none

/-- One step of `serve_starttls_sync_connection` or `serve_starttls_async_connection`. -/
def step (server : Server Ω) (mode : TlsMode) (s : StartTlsConn) :
    StartTlsAction Ω → Option StartTlsConn
  | .decode => s.decode mode
  | .read result => s.read result
  | .accept count => s.accept count
  | .next => s.next
  | .flush => s.flush
  | .fail error => s.fail error
  | .handshake result => s.handshake result
  | .serve action => s.serve server action

/-- The messages that were handed on to be served. -/
def dispatched (s : StartTlsConn) : List RpcMessage :=
  match s.phase with
  | .serving _ conn => conn.workers.map Worker.message
  | _ => []

/-- The bytes written in the clear. -/
def clearWritten (s : StartTlsConn) : Bytes :=
  match s.phase with
  | .serving .clear conn => s.clearOutput ++ conn.output
  | _ => s.clearOutput

end StartTlsConn

/-! ## What is written in the clear -/

/-- The frames of denials, one after the other. -/
def denialFrames (denied : List Xid) : Bytes :=
  (denied.map fun xid => frameOf (authTlsBadCredReply xid)).flatten

theorem denialFrames_snoc (denied : List Xid) (xid : Xid) :
    denialFrames (denied ++ [xid]) = denialFrames denied ++ frameOf (authTlsBadCredReply xid) := by
  simp [denialFrames]

/-- Only denials were written in the clear, and perhaps a confirmation after them; the last reply
may be cut short. -/
def ClearReplies (output : Bytes) : Prop :=
  ∃ denied xid confirmation, startTlsOkReply xid = .ok confirmation ∧
    output <+: denialFrames denied ++ frameOf confirmation

theorem ClearReplies.of_isPrefix {output : Bytes} {denied : List Xid}
    (h : output <+: denialFrames denied) : ClearReplies output :=
  ⟨denied, 0, _, startTlsOkReply_eq 0, h.trans (List.prefix_append _ _)⟩

theorem ClearReplies.of_denials {output : Bytes} {denied : List Xid}
    (h : output = denialFrames denied) : ClearReplies output := by
  subst h
  exact .of_isPrefix (List.prefix_refl _)

/-- What a reply in the clear is, by what is left to do after it. -/
def AfterReply.Follows : AfterReply → RpcMessage → Prop
  | .handshake, message => ∃ xid, startTlsOkReply xid = .ok message
  | .goOn _, message | .leave, message => ∃ xid, message = authTlsBadCredReply xid

theorem clearReplies_of_follows {next : AfterReply} {message : RpcMessage} {output : Bytes}
    {denied : List Xid} (hfollows : next.Follows message)
    (h : output <+: denialFrames denied ++ frameOf message) : ClearReplies output := by
  cases next with
  | handshake =>
    obtain ⟨xid, hok⟩ := hfollows
    exact ⟨denied, xid, message, hok, h⟩
  | goOn buffer =>
    obtain ⟨xid, rfl⟩ := hfollows
    exact .of_isPrefix (denialFrames_snoc denied xid ▸ h)
  | leave =>
    obtain ⟨xid, rfl⟩ := hfollows
    exact .of_isPrefix (denialFrames_snoc denied xid ▸ h)

/-- The state of a connection whose server insists on TLS: what has been written in the clear, and
that the service, once it runs, has started from nothing and over TLS. -/
inductive StartTlsPhase.Guarded (server : Server Ω) (output : Bytes) : StartTlsPhase → Prop
  | decoding {buffer : Bytes} (denied : List Xid) (houtput : output = denialFrames denied) :
    Guarded server output (.decoding buffer)
  | reading {buffer : Bytes} (denied : List Xid) (houtput : output = denialFrames denied) :
    Guarded server output (.reading buffer)
  | writing {left : List Bytes} {next : AfterReply} (denied : List Xid) (message : RpcMessage)
    (hfollows : next.Follows message)
    (houtput : output ++ left.flatten = denialFrames denied ++ frameOf message) :
    Guarded server output (.writing left next)
  | accepting (hclear : ClearReplies output) : Guarded server output .accepting
  | serving {conn : ServerConn} (hclear : ClearReplies output)
    (hrun : Runs (ServerConn.step (.split server)) (fun _ _ => True) (.initial []) conn) :
    Guarded server output (.serving .tls conn)
  | ended {result : Except TlsError Unit} (hclear : ClearReplies output) :
    Guarded server output (.ended result)

namespace StartTlsConn

variable {server : Server Ω} {mode : TlsMode} {s s' : StartTlsConn} {action : StartTlsAction Ω}

/-- The state of the connection is guarded. -/
def Guarded (server : Server Ω) (s : StartTlsConn) : Prop :=
  s.phase.Guarded server s.clearOutput

theorem Guarded.initial (server : Server Ω) : initial.Guarded server :=
  .decoding [] rfl

/-- Starting to write a reply. -/
theorem Guarded.reply {denied : List Xid} (houtput : s.clearOutput = denialFrames denied)
    {message : RpcMessage} {next : AfterReply} (hfollows : next.Follows message) :
    (s.reply message next).Guarded server := by
  unfold StartTlsConn.reply
  split
  · next error hwrite =>
    exact .ended (.of_denials houtput)
  · next left hwrite =>
    refine .writing denied message hfollows ?_
    rw [frameOf, hwrite]
    exact congrArg (· ++ left.flatten) houtput

/-- Whatever a message in the clear is, a server that insists on TLS replies to it itself. -/
theorem Guarded.receive (hmode : mode.insists = true) {denied : List Xid}
    (houtput : s.clearOutput = denialFrames denied) (message : RpcMessage) (buffer : Bytes) :
    (s.receive mode message buffer).Guarded server := by
  unfold StartTlsConn.receive
  split
  · rw [startTlsOkReply_eq]
    exact .reply houtput ⟨message.xid, startTlsOkReply_eq message.xid⟩
  · exact .reply houtput ⟨message.xid, rfl⟩
  · rw [if_pos hmode]
    exact .reply houtput ⟨message.xid, rfl⟩

/-- Every step of a server that insists on TLS keeps the connection guarded. -/
theorem Guarded.step (hmode : mode.insists = true) (h : s.Guarded server)
    (hstep : s.step server mode action = some s') : s'.Guarded server := by
  obtain ⟨phase, input, output⟩ := s
  unfold Guarded at h
  cases h with
  | @decoding buffer denied houtput =>
    cases action with
    | decode =>
      simp only [StartTlsConn.step, decode] at hstep
      split at hstep
      · cases hstep
        exact .ended (.of_denials houtput)
      · cases hstep
        exact .reading denied houtput
      · cases hstep
        exact .receive hmode houtput _ _
    | _ => cases hstep
  | @reading buffer denied houtput =>
    cases action with
    | read result =>
      simp only [StartTlsConn.step, read] at hstep
      split at hstep
      · split_ifs at hstep
        cases hstep
        exact .decoding denied houtput
      · cases hstep
        exact .ended (.of_denials houtput)
      · cases hstep
        exact .ended (.of_denials houtput)
      · cases hstep
    | _ => cases hstep
  | @writing left next denied message hfollows houtput =>
    have hclear : ClearReplies output :=
      clearReplies_of_follows hfollows ⟨left.flatten, houtput⟩
    cases action with
    | accept count =>
      simp only [StartTlsConn.step, accept] at hstep
      split at hstep
      · next buffer left' next' hphase =>
        cases hphase
        split_ifs at hstep
        cases hstep
        refine .writing denied message hfollows ?_
        rw [← houtput, List.flatten_cons, List.flatten_cons, List.append_assoc]
        rw [← List.append_assoc (List.take _ _), List.take_append_drop]
      · cases hstep
    | next =>
      simp only [StartTlsConn.step, StartTlsConn.next] at hstep
      split at hstep
      · next left' next' hphase =>
        cases hphase
        cases hstep
        exact .writing denied message hfollows houtput
      · cases hstep
    | flush =>
      simp only [StartTlsConn.step, flush] at hstep
      split at hstep
      · cases hstep
        exact .accepting hclear
      · next buffer hphase =>
        cases hphase
        cases hstep
        obtain ⟨xid, rfl⟩ := hfollows
        refine .decoding (denied ++ [xid]) ?_
        rw [denialFrames_snoc, ← houtput]
        simp
      · cases hstep
        exact .ended hclear
      · cases hstep
    | fail error =>
      cases hstep
      exact .ended hclear
    | _ => cases hstep
  | accepting hclear =>
    cases action with
    | handshake result =>
      rcases result with text | ⟨⟩
      · cases hstep
        exact .ended hclear
      · cases hstep
        exact .serving hclear (.refl _)
    | _ => cases hstep
  | @serving conn hclear hrun =>
    cases action with
    | serve action =>
      obtain ⟨conn', hconn, rfl⟩ := Option.map_eq_some_iff.mp hstep
      exact .serving hclear (hrun.tail trivial hconn)
    | _ => cases hstep
  | ended hclear => cases action <;> cases hstep

/-- What a guarded connection has written in the clear. -/
theorem Guarded.clearReplies (h : s.Guarded server) : ClearReplies s.clearOutput := by
  obtain ⟨phase, input, output⟩ := s
  unfold Guarded at h
  cases h with
  | decoding denied houtput => exact .of_denials houtput
  | reading denied houtput => exact .of_denials houtput
  | writing denied message hfollows houtput => exact clearReplies_of_follows hfollows ⟨_, houtput⟩
  | accepting hclear => exact hclear
  | serving hclear hrun => exact hclear
  | ended hclear => exact hclear

/-- A guarded connection does not serve in the clear. -/
theorem Guarded.clearWritten_eq (h : s.Guarded server) : s.clearWritten = s.clearOutput := by
  unfold StartTlsConn.clearWritten
  split
  · next conn hphase =>
    rw [Guarded, hphase] at h
    cases h
  · rfl

end StartTlsConn

/-! ## After the confirmation -/

/-- Nothing is written in the clear any more. -/
def StartTlsPhase.leftClear : StartTlsPhase → Bool
  | .accepting | .serving .tls _ | .ended _ => true
  | _ => false

namespace StartTlsConn

variable {server : Server Ω} {mode : TlsMode} {s s' t : StartTlsConn} {action : StartTlsAction Ω}

theorem leftClear_step (h : s.phase.leftClear = true)
    (hstep : s.step server mode action = some s') :
    s'.phase.leftClear = true ∧ s'.clearWritten = s.clearWritten := by
  obtain ⟨phase, input, output⟩ := s
  rcases phase with buffer | buffer | ⟨left, next⟩ | _ | ⟨channel, conn⟩ | result
  · cases h
  · cases h
  · cases h
  · cases action with
    | handshake result =>
      rcases result with text | ⟨⟩
      · cases hstep
        exact ⟨rfl, rfl⟩
      · cases hstep
        exact ⟨rfl, rfl⟩
    | _ => cases hstep
  · cases channel with
    | clear => cases h
    | tls =>
      cases action with
      | serve action =>
        obtain ⟨conn', -, rfl⟩ := Option.map_eq_some_iff.mp hstep
        exact ⟨rfl, rfl⟩
      | _ => cases hstep
  · cases action <;> cases hstep

/-- From the handshake on nothing is written in the clear. -/
theorem clearWritten_of_leftClear (h : s.phase.leftClear = true)
    (hrun : Runs (StartTlsConn.step server mode) (fun _ _ => True) s t) :
    t.clearWritten = s.clearWritten := by
  refine (hrun.invariant (fun t => t.phase.leftClear = true ∧ t.clearWritten = s.clearWritten)
    ⟨h, rfl⟩ ?_).2
  intro u action v hu _ hstep
  obtain ⟨hleft, hsame⟩ := leftClear_step hu.1 hstep
  exact ⟨hleft, hsame.trans hu.2⟩

end StartTlsConn

/-! ## The guard -/

/-- Every message a connection has decoded stands in a record of the bytes it was given. -/
theorem ServerConn.Decoded.exists_record {service : Service Ω} {start : Bytes} {s : ServerConn}
    (h : s.Decoded service start) {message : RpcMessage} (hmem : message ∈ s.messages) :
    ∃ before after, ∃ r : Record, start ++ s.input = before ++ r.bytes ++ after ∧
      RpcMessage.decode r.data = .ok message := by
  obtain ⟨records, rest, hbytes, hdecode, -⟩ := h.records
  obtain ⟨hlength, hget⟩ := List.forall₂_iff_get.mp hdecode
  obtain ⟨i, hi, rfl⟩ := List.getElem_of_mem hmem
  have hi' : i < records.length := hlength ▸ hi
  obtain ⟨r, hr, hmessage⟩ : ∃ r ∈ records, RpcMessage.decode r.data = .ok s.messages[i] :=
    ⟨records[i], List.getElem_mem hi', hget i hi' hi⟩
  obtain ⟨earlier, later, rfl⟩ := List.append_of_mem hr
  refine ⟨(earlier.map Record.bytes).flatten, (later.map Record.bytes).flatten ++ rest, r, ?_,
    hmessage⟩
  rw [hbytes]
  simp

/-- A server that insists on TLS, in every state it can reach: it serves nothing but what the TLS
acceptor delivers, starting from an empty buffer, so that no message from the clear is dispatched
and none is left over after the handshake; and in the clear it has written denials and after them at
most one confirmation, from where on nothing is written in the clear. -/
theorem startTls_guards (server : Server Ω) (mode : TlsMode)
    (hmode : mode = .required ∨ mode = .mutualAuthRequired) (s : StartTlsConn)
    (hrun : Runs (StartTlsConn.step server mode) (fun _ _ => True) .initial s) :
    (∀ message ∈ s.dispatched, ∃ conn before after, ∃ r : Record, s.phase = .serving .tls conn ∧
      conn.input = before ++ r.bytes ++ after ∧ RpcMessage.decode r.data = .ok message) ∧
    (∀ channel conn, s.phase = .serving channel conn → channel = .tls ∧
      Runs (ServerConn.step (.split server)) (fun _ _ => True) (.initial []) conn) ∧
    ClearReplies s.clearWritten ∧
    (s.phase.leftClear = true → ∀ t,
      Runs (StartTlsConn.step server mode) (fun _ _ => True) s t →
        t.clearWritten = s.clearWritten) := by
  have hinsists : mode.insists = true := by
    rcases hmode with rfl | rfl <;> rfl
  have hguarded : s.Guarded server :=
    hrun.invariant (StartTlsConn.Guarded server) (.initial server)
      fun hu _ hstep => hu.step hinsists hstep
  refine ⟨?_, ?_, ?_, fun hleft t ht => StartTlsConn.clearWritten_of_leftClear hleft ht⟩
  · intro message hmem
    unfold StartTlsConn.dispatched at hmem
    split at hmem
    · next channel conn hphase =>
      rw [StartTlsConn.Guarded, hphase] at hguarded
      cases hguarded with
      | serving hclear hconn =>
        have hdecoded : conn.Decoded (.split server) [] :=
          hconn.invariant (ServerConn.Decoded (.split server) []) (.initial (.split server) [])
            fun hu _ hstep => hu.step hstep
        obtain ⟨before, after, r, hinput, hdecode⟩ :=
          hdecoded.exists_record (List.mem_append_left _ hmem)
        exact ⟨conn, before, after, r, hphase, hinput, hdecode⟩
    · cases hmem
  · intro channel conn hphase
    rw [StartTlsConn.Guarded, hphase] at hguarded
    cases hguarded with
    | serving hclear hconn => exact ⟨rfl, hconn⟩
  · rw [hguarded.clearWritten_eq]
    exact hguarded.clearReplies

/-- The record of a probe. -/
def probeRecord : Bytes := (callRecord 1).set 31 7

/-- A probe with a call right behind it in the clear, and another call over TLS: only the latter is
dispatched. -/
theorem startTls_guards_pipelined : ∃ s : StartTlsConn,
    Runs (StartTlsConn.step (Server.empty : Server Unit) .required) (fun _ _ => True) .initial s ∧
      s.clearInput = probeRecord ++ callRecord 7 ∧
      s.dispatched.map RpcMessage.xid = [9] ∧ s.clearWritten.length = 36 ∧
      ClearReplies s.clearWritten ∧
      ∀ message ∈ s.dispatched, ∃ conn before after, ∃ r : Record,
        s.phase = .serving .tls conn ∧ conn.input = before ++ r.bytes ++ after ∧
          RpcMessage.decode r.data = .ok message := by
  have hseen : (runList (guarded (fun _ _ => true)
      (StartTlsConn.step (Server.empty : Server Unit) .required)) .initial
      [.decode, .read (.bytes (probeRecord ++ callRecord 7)), .decode, .accept 4, .next, .accept 32,
        .next, .flush, .handshake (.ok ()), .serve .decode, .serve (.read (.bytes (callRecord 9))),
        .serve .decode, .serve .spawn]).map
      (fun s => (s.clearInput, s.dispatched.map RpcMessage.xid, s.clearWritten.length)) =
        some (probeRecord ++ callRecord 7, [9], 36) := by
    decide +kernel
  obtain ⟨s, htrace, hview⟩ := @Trace.exists_of_runList _ _ _ (fun _ _ => True) _ _ _ _ _ _
    (fun _ _ _ => trivial) hseen
  simp only [Prod.mk.injEq] at hview
  obtain ⟨hinput, hxids, hlength⟩ := hview
  obtain ⟨hdispatched, -, hclear, -⟩ :=
    startTls_guards (Server.empty : Server Unit) .required (.inl rfl) s htrace.runs
  exact ⟨s, htrace.runs, hinput, hxids, hlength, hclear, hdispatched⟩

end OncRpc
