import OncRpc.Tls.StartTls

/-!
# A server that does not use TLS

A server whose mode is `TlsMode.disabled` runs the same loop as any other server that can upgrade.
The loop looks at the mode only when an ordinary message arrives; a probe it confirms in every mode,
and hands the stream to the TLS acceptor.  As long as no probe comes before the first ordinary
message (`NoProbe`), the connection stays in the clear: calls with the flavor of a probe are
refused, by the loop and by the service after it, and all others are served.

`StartTlsPhase.Plain` says this of one state; `disabled_stays_clear` says it of every run.
-/

namespace OncRpc

open Foundation

variable {Ω : Type}

/-! ## The condition -/

namespace StartTlsConn

/-- The loop does not take a probe out of its buffer. -/
def NoProbe (s : StartTlsConn) : StartTlsAction Ω → Prop
  | .decode => ∀ buffer message rest, s.phase = .decoding buffer →
    tryDecodeMessageFromBuffer buffer = (.ok (some message), rest) →
      authTlsRequest message ≠ some .probe
  | _ => True

/-- The stream takes what the workers of the service write to it. -/
def Takes (_ : StartTlsConn) : StartTlsAction Ω → Prop
  | .serve action => action.fails = false
  | _ => True

/-- The steps of the service meet a condition of their own. -/
def Admits (ok : ServerConn → ServerAction Ω → Prop) (_ : StartTlsConn) :
    StartTlsAction Ω → Prop
  | .serve action => ∀ conn, ok conn action
  | _ => True

end StartTlsConn

/-! ## The replies of the service -/

/-- The reply a worker has computed. -/
def WorkerPhase.reply : WorkerPhase → Option RpcMessage
  | .locking reply | .writing reply _ | .releasing (.ok reply) | .done (some (.ok reply)) =>
    some reply
  | _ => none

/-- A worker that has a reply has one the service gives to its message. -/
structure Worker.Computes (service : Service Ω) (worker : Worker) : Prop where
  handling : worker.phase = .handling → service.intercept worker.message = none
  answers : ∀ reply, worker.phase.reply = some reply → service.Answers worker.message reply

/-- A step of a worker keeps its reply, whether the stream takes it or not. -/
theorem Worker.Computes.step {service : Service Ω} {worker : Worker} {free : Bool}
    {action : WorkerAction Ω} {phase : WorkerPhase} {effect : ServerConn.WriterEffect}
    (h : worker.Computes service)
    (hphase : ServerConn.workerPhase service free worker.message worker.phase action =
      some (phase, effect)) :
    Worker.Computes service { worker with phase := phase } := by
  obtain ⟨message, before⟩ := worker
  obtain ⟨hhandling, hanswers⟩ := h
  simp only [ServerConn.workerPhase] at hphase hhandling hanswers ⊢
  split at hphase
  · split at hphase
    · next world reply hreply =>
      cases hphase
      refine ⟨by simp, fun other hother => ?_⟩
      cases hother
      exact .inr ⟨hhandling rfl, _, hreply⟩
    · cases hphase
      exact ⟨by simp, by simp [WorkerPhase.reply]⟩
  · split_ifs at hphase
    split at hphase
    · cases hphase
      exact ⟨by simp, hanswers⟩
    · cases hphase
      exact ⟨by simp, by simp [WorkerPhase.reply]⟩
  · split_ifs at hphase
    cases hphase
    exact ⟨by simp, hanswers⟩
  · cases hphase
    exact ⟨by simp, hanswers⟩
  · cases hphase
    exact ⟨by simp, hanswers⟩
  · cases hphase
    exact ⟨by simp, by simp [WorkerPhase.reply]⟩
  · next result =>
    cases hphase
    rcases result with error | reply
    · exact ⟨by simp, by simp [WorkerPhase.reply]⟩
    · exact ⟨by simp, hanswers⟩
  · cases hphase

namespace ServerConn

variable {service : Service Ω} {s : ServerConn} {start : Bytes}

/-- Every worker of a run that starts with a buffer has a reply of the service. -/
theorem computes_of_runs
    (hrun : Runs (ServerConn.step service) (fun _ _ => True) (.initial start) s) :
    ∀ worker ∈ s.workers, worker.Computes service := by
  have hinv := hrun.invariant
    (fun s => s.Decoded service start ∧ ∀ worker ∈ s.workers, worker.Computes service)
    ⟨.initial service start, fun _ hmem => absurd hmem List.not_mem_nil⟩ ?_
  · exact hinv.2
  intro u action v hu _ hstep
  obtain ⟨hdecoded, hcomputes⟩ := hu
  refine ⟨hdecoded.step hstep, ?_⟩
  rcases step_shape hstep with ⟨-, -, hsame | ⟨message, buffer, hloop, hnew⟩ |
    ⟨message, reply, hreply, hnew⟩⟩ |
    ⟨-, -, id, worker, act, phase, effect, -, hworker, hphase, rfl⟩
  · rwa [hsame]
  · rw [hnew]
    intro worker hmem
    rcases List.mem_append.mp hmem with hold | hlast
    · exact hcomputes worker hold
    · rw [List.mem_singleton.mp hlast]
      exact ⟨fun _ => hdecoded.waiting message (by rw [hloop]; rfl), by simp [WorkerPhase.reply]⟩
  · rw [hnew]
    intro worker hmem
    rcases List.mem_append.mp hmem with hold | hlast
    · exact hcomputes worker hold
    · rw [List.mem_singleton.mp hlast]
      refine ⟨by simp, fun other hother => ?_⟩
      cases hother
      exact .inl hreply
  · intro other hmem
    rcases List.mem_or_eq_of_mem_set hmem with hold | rfl
    · exact hcomputes other hold
    · exact (hcomputes worker (List.mem_of_getElem? hworker)).step hphase

end ServerConn

/-- The service over a split stream refuses the flavor of a probe and serves everything else. -/
theorem Service.split_answers_iff {server : Server Ω} {message reply : RpcMessage} :
    (Service.split server).Answers message reply ↔
      (authTlsRequest message ≠ none ∧ reply = authTlsBadCredReply message.xid) ∨
      (authTlsRequest message = none ∧
        ∃ world, server.handleMessageWithPeerAddr world message none = .ok reply) := by
  unfold Service.Answers Service.split
  rcases hrequest : authTlsRequest message with _ | request
  · simp [hrequest]
  · simp [hrequest, eq_comm]

/-- The replies of such a service can be encoded if those of the server can. -/
theorem Service.split_fits {server : Server Ω} (hbounded : server.Bounded)
    {message reply : RpcMessage} (h : (Service.split server).Answers message reply) :
    reply.Fits := by
  rcases Service.split_answers_iff.mp h with ⟨-, rfl⟩ | ⟨-, world, hreply⟩
  · trivial
  · exact Server.fits_of_handleMessage hbounded hreply

/-! ## The state of a connection in the clear -/

/-- What a loop has taken out of its input are the records of calls it refused. -/
structure Refused (input rest : Bytes) (refused : List RpcMessage) : Prop where
  records : ∃ records : List Record, input = (records.map Record.bytes).flatten ++ rest ∧
    List.Forall₂ (fun r message => RpcMessage.decode r.data = .ok message) records refused
  invalid : ∀ message ∈ refused, authTlsRequest message = some .invalid

/-- The denials of the calls a loop refused. -/
def denials (refused : List RpcMessage) : Bytes := denialFrames (refused.map RpcMessage.xid)

theorem denials_snoc (refused : List RpcMessage) (message : RpcMessage) :
    denials (refused ++ [message]) =
      denials refused ++ frameOf (authTlsBadCredReply message.xid) := by
  rw [denials, List.map_append]
  exact denialFrames_snoc _ _

theorem Refused.nil : Refused [] [] [] := ⟨⟨[], rfl, .nil⟩, by simp⟩

/-- One more call is refused. -/
theorem Refused.snoc {input left : Bytes} {refused : List RpcMessage} {r : Record}
    {message : RpcMessage} (h : Refused input (r.bytes ++ left) refused)
    (hdecode : RpcMessage.decode r.data = .ok message)
    (hinvalid : authTlsRequest message = some .invalid) :
    Refused input left (refused ++ [message]) := by
  obtain ⟨⟨records, hinput, hdecoded⟩, hrefused⟩ := h
  refine ⟨⟨records ++ [r], ?_, List.rel_append hdecoded (.cons hdecode .nil)⟩, ?_⟩
  · rw [hinput]
    simp
  · intro other hother
    rcases List.mem_append.mp hother with hold | hlast
    · exact hrefused other hold
    · rwa [List.mem_singleton.mp hlast]

/-- More input arrives. -/
theorem Refused.more {input rest : Bytes} {refused : List RpcMessage}
    (h : Refused input rest refused) (chunk : Bytes) :
    Refused (input ++ chunk) (rest ++ chunk) refused := by
  obtain ⟨⟨records, hinput, hdecoded⟩, hrefused⟩ := h
  refine ⟨⟨records, ?_, hdecoded⟩, hrefused⟩
  rw [hinput, List.append_assoc]

/-- The service of a connection as the loop hands it over: the first ordinary message waits for its
worker, and what follows it is in the buffer. -/
def ServerConn.handedOver (first : RpcMessage) (buffer : Bytes) : ServerConn :=
  { ServerConn.initial buffer with loop := .spawning first buffer }

/-- A connection that stays in the clear: the calls refused so far have each got a denial, and the
service started with the first message that is not refused. -/
inductive StartTlsPhase.Plain (server : Server Ω) (ok : ServerConn → ServerAction Ω → Prop)
    (input output : Bytes) : StartTlsPhase → Prop
  | decoding {buffer : Bytes} (refused : List RpcMessage) (hrefused : Refused input buffer refused)
    (houtput : output = denials refused) : Plain server ok input output (.decoding buffer)
  | reading {buffer : Bytes} (refused : List RpcMessage) (hrefused : Refused input buffer refused)
    (houtput : output = denials refused) : Plain server ok input output (.reading buffer)
  | writing {left : List Bytes} {buffer : Bytes} (refused : List RpcMessage) (message : RpcMessage)
    (hrefused : Refused input buffer (refused ++ [message]))
    (houtput : output ++ left.flatten = denials (refused ++ [message])) :
    Plain server ok input output (.writing left (.goOn buffer))
  | serving {conn : ServerConn} (refused : List RpcMessage) (r : Record) (first : RpcMessage)
    (buffer : Bytes) (hrefused : Refused input (r.bytes ++ buffer) refused)
    (hdecode : RpcMessage.decode r.data = .ok first) (hordinary : authTlsRequest first = none)
    (houtput : output = denials refused)
    (hrun : Runs (ServerConn.step (.split server)) ok (.handedOver first buffer) conn) :
    Plain server ok input output (.serving .clear conn)
  | ended {result : Except TlsError Unit} (refused : List RpcMessage) (rest : Bytes)
    (hrefused : Refused input rest refused) (houtput : output <+: denials refused) :
    Plain server ok input output (.ended result)

namespace StartTlsConn

variable {server : Server Ω} {s s' : StartTlsConn} {action : StartTlsAction Ω}
  {ok : ServerConn → ServerAction Ω → Prop}

/-- The connection stays in the clear. -/
def Plain (server : Server Ω) (ok : ServerConn → ServerAction Ω → Prop) (s : StartTlsConn) : Prop :=
  s.phase.Plain server ok s.clearInput s.clearOutput

theorem Plain.initial (server : Server Ω) (ok : ServerConn → ServerAction Ω → Prop) :
    initial.Plain server ok :=
  .decoding [] .nil rfl

/-- A message that is no probe is refused, or the service starts with it. -/
theorem Plain.receive {refused : List RpcMessage} {r : Record} {message : RpcMessage}
    {buffer : Bytes} (hrefused : Refused s.clearInput (r.bytes ++ buffer) refused)
    (houtput : s.clearOutput = denials refused)
    (hdecode : RpcMessage.decode r.data = .ok message)
    (hprobe : authTlsRequest message ≠ some .probe) :
    (s.receive .disabled message buffer).Plain server ok := by
  unfold StartTlsConn.receive
  split
  · next hrequest => exact absurd hrequest hprobe
  · next hrequest =>
    have hall := hrefused.snoc hdecode hrequest
    unfold StartTlsConn.reply
    split
    · next error hwrite =>
      refine .ended _ buffer hall ?_
      rw [denials_snoc, houtput]
      exact List.prefix_append _ _
    · next left hwrite =>
      refine .writing refused message hall ?_
      rw [denials_snoc, frameOf, hwrite]
      exact congrArg (· ++ left.flatten) houtput
  · next hrequest =>
    exact .serving refused r message buffer hrefused hdecode hrequest houtput (.refl _)

/-- Every step that takes no probe keeps the connection in the clear. -/
theorem Plain.step (h : s.Plain server ok) (hprobe : s.NoProbe action) (hok : s.Admits ok action)
    (hstep : s.step server .disabled action = some s') : s'.Plain server ok := by
  obtain ⟨phase, input, output⟩ := s
  unfold Plain at h
  cases h with
  | @decoding buffer refused hrefused houtput =>
    cases action with
    | decode =>
      simp only [StartTlsConn.step, decode] at hstep
      split at hstep
      · cases hstep
        exact .ended refused buffer hrefused ⟨[], by simpa using houtput⟩
      · next left hfound =>
        cases hstep
        obtain ⟨-, rfl⟩ | ⟨_, _, hsome, -⟩ := tryDecodeMessageFromBuffer_ok hfound
        · exact .reading refused hrefused houtput
        · cases hsome
      · next message left hfound =>
        cases hstep
        have hnone := hprobe buffer message left rfl hfound
        obtain ⟨hnothing, -⟩ | ⟨message', r, hsome, rfl, hdecode⟩ :=
          tryDecodeMessageFromBuffer_ok hfound
        · cases hnothing
        · cases hsome
          exact .receive hrefused houtput hdecode hnone
    | _ => cases hstep
  | @reading buffer refused hrefused houtput =>
    cases action with
    | read result =>
      simp only [StartTlsConn.step, read] at hstep
      split at hstep
      · next buffer' chunk hphase =>
        cases hphase
        split_ifs at hstep
        cases hstep
        exact .decoding refused (hrefused.more _) houtput
      · cases hstep
        exact .ended refused buffer hrefused ⟨[], by simpa using houtput⟩
      · cases hstep
        exact .ended refused buffer hrefused ⟨[], by simpa using houtput⟩
      · cases hstep
    | _ => cases hstep
  | @writing left buffer refused message hrefused houtput =>
    cases action with
    | accept count =>
      simp only [StartTlsConn.step, accept] at hstep
      split at hstep
      · next first left' next' hphase =>
        cases hphase
        split_ifs at hstep
        cases hstep
        refine .writing refused message hrefused ?_
        rw [← houtput, List.flatten_cons, List.flatten_cons, List.append_assoc]
        rw [← List.append_assoc (List.take _ _), List.take_append_drop]
      · cases hstep
    | next =>
      simp only [StartTlsConn.step, StartTlsConn.next] at hstep
      split at hstep
      · next left' next' hphase =>
        cases hphase
        cases hstep
        exact .writing refused message hrefused houtput
      · cases hstep
    | flush =>
      simp only [StartTlsConn.step, flush] at hstep
      split at hstep
      · next hphase => cases hphase
      · next buffer' hphase =>
        cases hphase
        cases hstep
        exact .decoding _ hrefused (by simpa using houtput)
      · next hphase => cases hphase
      · cases hstep
    | fail error =>
      cases hstep
      exact .ended _ buffer hrefused ⟨left.flatten, houtput⟩
    | _ => cases hstep
  | @serving conn refused r first buffer hrefused hdecode hordinary houtput hrun =>
    cases action with
    | serve action =>
      obtain ⟨conn', hconn, rfl⟩ := Option.map_eq_some_iff.mp hstep
      exact .serving refused r first buffer hrefused hdecode hordinary houtput
        (hrun.tail (hok conn) hconn)
    | _ => cases hstep
  | ended => cases action <;> cases hstep

/-- What is written in front of the service are denials of the calls refused. -/
theorem Plain.written (h : s.Plain server ok) : ∃ refused rest,
    Refused s.clearInput rest refused ∧ s.clearOutput <+: denials refused ∧
      ((∀ left next, s.phase ≠ .writing left next) → (∀ result, s.phase ≠ .ended result) →
        s.clearOutput = denials refused) := by
  obtain ⟨phase, input, output⟩ := s
  unfold Plain at h
  cases h with
  | decoding refused hrefused houtput =>
    exact ⟨refused, _, hrefused, ⟨[], by simpa using houtput⟩, fun _ _ => houtput⟩
  | reading refused hrefused houtput =>
    exact ⟨refused, _, hrefused, ⟨[], by simpa using houtput⟩, fun _ _ => houtput⟩
  | writing refused message hrefused houtput =>
    exact ⟨_, _, hrefused, ⟨_, houtput⟩, fun hphase => absurd rfl (hphase _ _)⟩
  | serving refused r first buffer hrefused hdecode hordinary houtput hrun =>
    exact ⟨refused, _, hrefused, ⟨[], by simpa using houtput⟩, fun _ _ => houtput⟩
  | ended refused rest hrefused houtput =>
    exact ⟨refused, rest, hrefused, houtput, fun _ hphase => absurd rfl (hphase _)⟩

end StartTlsConn

/-- The service in the clear runs as if it had taken the first message out of its buffer itself. -/
theorem ServerConn.runs_handedOver {server : Server Ω} {ok : ServerConn → ServerAction Ω → Prop}
    {r : Record} {first : RpcMessage} {buffer : Bytes} {conn : ServerConn}
    (hdecode : RpcMessage.decode r.data = .ok first) (hordinary : authTlsRequest first = none)
    (hok : ok (.initial (r.bytes ++ buffer)) .decode)
    (hrun : Runs (ServerConn.step (.split server)) ok (.handedOver first buffer) conn) :
    Runs (ServerConn.step (.split server)) ok (.initial (r.bytes ++ buffer)) conn := by
  refine Runs.trans ((Runs.refl _).tail hok ?_) hrun
  have hfound := tryDecodeMessageFromBuffer_record r buffer
  rw [decodeRecord_eq_ok_iff.mpr hdecode] at hfound
  have hintercept : (Service.split server).intercept first = none := by
    simp [Service.split, hordinary]
  simp only [ServerConn.step, ServerConn.decode, ServerConn.initial, hfound, Except.map,
    hintercept]
  rfl

/-! ## The result -/

/-- A server that does not use TLS, in every run whose steps take no probe in front of the first
ordinary message: the acceptor never has the stream; what is written before the service are denials
of the calls with the flavor of a probe, one for each; the service starts in the clear with the
first ordinary message, each of its workers has a denial for a call with that flavor and the
server's reply for any other; and the stream has received whole frames of these replies, all of them
once the workers are over.  A probe starts the confirmation. -/
theorem disabled_stays_clear (server : Server Ω) (s : StartTlsConn)
    (hrun : Runs (StartTlsConn.step server .disabled) StartTlsConn.NoProbe .initial s) :
    s.phase ≠ .accepting ∧ (∀ conn, s.phase ≠ .serving .tls conn) ∧
    (∃ refused rest, Refused s.clearInput rest refused ∧ s.clearOutput <+: denials refused ∧
      ((∀ left next, s.phase ≠ .writing left next) → (∀ result, s.phase ≠ .ended result) →
        s.clearOutput = denials refused)) ∧
    (∀ conn, s.phase = .serving .clear conn →
      (∃ (refused : List RpcMessage) (r : Record) (first : RpcMessage) (buffer : Bytes),
        Refused s.clearInput (r.bytes ++ buffer) refused ∧ RpcMessage.decode r.data = .ok first ∧
        authTlsRequest first = none ∧ s.clearOutput = denials refused ∧
        Runs (ServerConn.step (.split server)) (fun _ _ => True) (.handedOver first buffer) conn) ∧
      ∀ worker ∈ conn.workers, ∀ reply, worker.phase.reply = some reply →
        (authTlsRequest worker.message ≠ none → reply = authTlsBadCredReply worker.message.xid) ∧
        (authTlsRequest worker.message = none →
          ∃ world, server.handleMessageWithPeerAddr world worker.message none = .ok reply)) ∧
    (server.Bounded → Runs (StartTlsConn.step server .disabled)
        (fun s action => s.NoProbe action ∧ s.Takes action) .initial s →
      ∀ conn, s.phase = .serving .clear conn → ∃ (order : List ℕ) (tail : Bytes), order.Nodup ∧
        conn.output = (order.map conn.frameAt).flatten ++ tail ∧
        (∀ id ∈ order, conn.AnswersAt (.split server) id (conn.frameAt id)) ∧
        (tail = [] ∨ ∃ id ∉ order, ∃ left, conn.AnswersAt (.split server) id (tail ++ left)) ∧
        (conn.Finished → tail = [] ∧ ∀ id message call, conn.messages[id]? = some message →
          message.body = .call call → id ∈ order)) ∧
    ∀ (u v : StartTlsConn) (action : StartTlsAction Ω), ¬ u.NoProbe action →
      u.step server .disabled action = some v → ∃ xid confirmation left,
        startTlsOkReply xid = .ok confirmation ∧ writeRpcMessage confirmation = .ok left ∧
          v.phase = .writing left .handshake := by
  have hplain : s.Plain server (fun _ _ => True) := by
    refine hrun.invariant (StartTlsConn.Plain server fun _ _ => True) (.initial server _) ?_
    intro u action v hu hprobe hstep
    refine hu.step hprobe ?_ hstep
    cases action <;> simp [StartTlsConn.Admits]
  refine ⟨?_, ?_, hplain.written, ?_, ?_, ?_⟩
  · intro hphase
    rw [StartTlsConn.Plain, hphase] at hplain
    cases hplain
  · intro conn hphase
    rw [StartTlsConn.Plain, hphase] at hplain
    cases hplain
  · intro conn hphase
    rw [StartTlsConn.Plain, hphase] at hplain
    cases hplain with
    | serving refused r first buffer hrefused hdecode hordinary houtput hconn =>
      refine ⟨⟨refused, r, first, buffer, hrefused, hdecode, hordinary, houtput, hconn⟩, ?_⟩
      intro worker hworker reply hreply
      have hall := ServerConn.runs_handedOver hdecode hordinary trivial hconn
      have hanswers := (ServerConn.computes_of_runs hall worker hworker).answers reply hreply
      rcases Service.split_answers_iff.mp hanswers with ⟨hrequest, hdenied⟩ | ⟨hrequest, hserved⟩
      · exact ⟨fun _ => hdenied, fun hnone => absurd hnone hrequest⟩
      · exact ⟨fun hsome => absurd hrequest hsome, fun _ => hserved⟩
  · intro hbounded hwrites conn hphase
    have htaken : s.Plain server ServerConn.Writes := by
      refine hwrites.invariant (StartTlsConn.Plain server ServerConn.Writes) (.initial server _) ?_
      rintro u action v hu ⟨hprobe, htakes⟩ hstep
      refine hu.step hprobe ?_ hstep
      cases action with
      | serve action => exact fun _ => htakes
      | _ => trivial
    rw [StartTlsConn.Plain, hphase] at htaken
    cases htaken with
    | serving refused r first buffer hrefused hdecode hordinary houtput hconn =>
      have hall := ServerConn.runs_handedOver hdecode hordinary
        (show ServerConn.Writes _ .decode from rfl) hconn
      exact (ServerConn.ServerInv.of_runs (fun _ _ => Service.split_fits hbounded) hall).answered
  · intro u v action hprobe hstep
    cases action with
    | decode =>
      simp only [StartTlsConn.NoProbe, not_forall, not_not] at hprobe
      obtain ⟨buffer, message, rest, hphase, hfound, hrequest⟩ := hprobe
      simp only [StartTlsConn.step, StartTlsConn.decode, hphase, hfound, Option.some.injEq] at hstep
      subst hstep
      obtain ⟨confirmation, left, r, hok, hleft, -⟩ := startTlsOkReply_record message.xid
      refine ⟨message.xid, confirmation, left, hok, hleft, ?_⟩
      simp only [StartTlsConn.receive, hrequest, hok, StartTlsConn.reply, hleft]
    | _ => exact absurd trivial hprobe

/-- The record of a call with the flavor of a probe that is none: its procedure is one. -/
def badProbeRecord : Bytes := probeRecord.set 27 1

/-- What `NoProbe` asks for, checked on a step. -/
def seesNoProbe (s : StartTlsConn) (action : StartTlsAction Unit) : Bool :=
  match s.phase, action with
  | .decoding buffer, .decode =>
    match tryDecodeMessageFromBuffer buffer with
    | (.ok (some message), _) => decide (authTlsRequest message ≠ some .probe)
    | _ => true
  | _, _ => true

/-- A connection without a probe: a bad probe, a call, and another bad probe. -/
theorem disabled_stays_clear_call : ∃ s : StartTlsConn,
    Runs (StartTlsConn.step (Server.empty : Server Unit) .disabled)
      StartTlsConn.NoProbe .initial s ∧
      s.phase ≠ .accepting ∧ s.dispatched.map RpcMessage.xid = [7, 1] := by
  have hseen : (runList (guarded seesNoProbe
      (StartTlsConn.step (Server.empty : Server Unit) .disabled)) .initial
      [.decode, .read (.bytes (badProbeRecord ++ callRecord 7 ++ badProbeRecord)), .decode,
        .accept 4, .next, .accept 20, .next, .flush, .decode, .serve .spawn, .serve .decode]).map
      (fun s => s.dispatched.map RpcMessage.xid) = some [7, 1] := by
    decide +kernel
  obtain ⟨s, htrace, hview⟩ := @Trace.exists_of_runList _ _ _ StartTlsConn.NoProbe _ _ _ _ _ _
    (fun s action hcheck => by
      cases action with
      | decode =>
        intro buffer message rest hphase hfound
        simpa [seesNoProbe, hphase, hfound] using hcheck
      | _ => trivial) hseen
  obtain ⟨hacceptor, -⟩ := disabled_stays_clear (Server.empty : Server Unit) s htrace.runs
  exact ⟨s, htrace.runs, hacceptor, hview⟩

/-- The acceptor has the stream. -/
def hasAcceptor (s : StartTlsConn) : Bool :=
  match s.phase with
  | .accepting => true
  | _ => false

/-- A probe to a server that does not use TLS: it is confirmed, and the acceptor has the stream. -/
theorem disabled_confirms_probe : ∃ (s : StartTlsConn) (confirmation : RpcMessage),
    Runs (StartTlsConn.step (Server.empty : Server Unit) .disabled) (fun _ _ => True) .initial s ∧
      s.clearInput = probeRecord ∧ startTlsOkReply 1 = .ok confirmation ∧
      s.clearOutput = frameOf confirmation ∧ s.phase = .accepting := by
  have hseen : (runList (guarded (fun _ _ => true)
      (StartTlsConn.step (Server.empty : Server Unit) .disabled)) .initial
      [.decode, .read (.bytes probeRecord), .decode, .accept 4, .next, .accept 32, .next,
        .flush]).map
      (fun s => (s.clearInput, s.clearOutput, hasAcceptor s)) = some (probeRecord,
          frameOf ⟨1, .reply (.accepted ⟨⟨.none, startTlsToken⟩, .success []⟩)⟩, true) := by
    decide +kernel
  obtain ⟨s, htrace, hview⟩ := @Trace.exists_of_runList _ _ _ (fun _ _ => True) _ _ _ _ _ _
    (fun _ _ _ => trivial) hseen
  simp only [Prod.mk.injEq] at hview
  obtain ⟨hinput, houtput, hphase⟩ := hview
  refine ⟨s, _, htrace.runs, hinput, startTlsOkReply_eq 1, houtput, ?_⟩
  unfold hasAcceptor at hphase
  split at hphase
  · next haccepting => exact haccepting
  · cases hphase

end OncRpc
