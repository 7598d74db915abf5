import OncRpc.Foundation.Paired
import OncRpc.Server.Connection
import Mathlib.Algebra.Order.Group.Multiset
import Mathlib.Data.List.Perm.Basic

/-!
# Serving datagrams

A server socket is served either by a loop or by callers that each take one datagram.  The loop gets
a worker permit first and then waits for a datagram; a caller does it the other way round.  Each
datagram goes to a task of its own, which holds the permit until it ends: it decodes the message,
has it dispatched and sends the reply to the sender of the datagram.  What goes wrong in a task is
reported to a caller, and to nobody where the loop has spawned it.

`UdpServer.step` is one step of one of these parties.  The loop takes the transport by value, so it
does not begin before every caller is done; a caller or the loop may be dropped wherever it waits.

The invariant `UdpServer.Served` counts permits and datagrams: every permit is free, with the loop
or with a running task, and no two tasks, callers or replies have one datagram between them.
-/

namespace OncRpc

open Foundation

variable {Ω : Type}

/-! ## The parties -/

/-- How the handling of a datagram fails; `ServerTransportError` with its dispatch failures. -/
inductive UdpServerError where
  | transport (error : ServerTransportError)
  | server (error : ServerError)
  deriving DecidableEq

/-- What is left of a datagram in the buffer it is received into. -/
def recvUdpDatagram (datagram : Bytes) : Bytes := datagram.take 65536

/-- The message of a datagram. -/
def decodeRpcMessageDatagram (datagram : Bytes) : Except RuntimeError RpcMessage :=
  (RpcMessage.decode datagram).mapError .wire

-- A datagram that ends behind the transaction id.
example : decodeRpcMessageDatagram [0, 0, 0, 7] = .error (.wire (.unexpectedEof 4 0)) := by
  decide +kernel

/-- The datagram of a message. -/
def encodeRpcMessageDatagram (message : RpcMessage) : Except RuntimeError Bytes :=
  message.encode.mapError .wire

/-- Where a task is. -/
inductive UdpTaskPhase where
  | spawned
  /-- The dispatcher runs. -/
  | handling (message : RpcMessage)
  /-- The reply is being sent. -/
  | sending (payload : Bytes)
  /-- Over; without a result if the dispatcher panicked. -/
  | done (result : Option (Except UdpServerError Unit))
  deriving DecidableEq

/-- A task and the datagram it was spawned for. -/
structure UdpTask where
  peer : SocketAddr
  datagram : Bytes
  phase : UdpTaskPhase

/-- What makes a task go on. -/
inductive UdpTaskAction (Ω : Type) where
  | decode
  /-- The dispatcher returns. -/
  | handle (world : Ω)
  | panic
  /-- The socket answers its send. -/
  | sent (result : Except IoError Unit)

/-- Where the loop is. -/
inductive UdpServeLoop where
  | idle
  /-- Waiting for a permit. -/
  | acquiring
  /-- Waiting for a datagram, with a permit. -/
  | receiving
  | stopped (error : UdpServerError)
  | dropped
  deriving DecidableEq

/-- Where a caller that takes one datagram is. -/
inductive UdpAccept where
  | receiving
  /-- Waiting for a permit, with a datagram. -/
  | acquiring (peer : SocketAddr) (datagram : Bytes)
  /-- Waiting for its task. -/
  | waiting (task : ℕ)
  | returned (result : Except UdpServerError Unit)
  | dropped

/-- The state of a server socket. -/
structure UdpServer where
  permits : ℕ
  loop : UdpServeLoop
  accepts : List UdpAccept
  tasks : List UdpTask
  /-- The datagrams taken from the socket. -/
  received : List (SocketAddr × Bytes)
  /-- The datagrams the socket took. -/
  output : List (SocketAddr × Bytes)

/-- What can happen at a server socket. -/
inductive UdpServerAction (Ω : Type) where
  | serve
  | acceptOnce
  /-- The loop is granted a permit. -/
  | acquire
  | receive (peer : SocketAddr) (datagram : Bytes)
  | receiveError (error : IoError)
  | dropLoop
  /-- A caller is granted a permit. -/
  | acquireOnce (id : ℕ)
  | receiveOnce (id : ℕ) (peer : SocketAddr) (datagram : Bytes)
  | receiveErrorOnce (id : ℕ) (error : IoError)
  /-- A caller sees its task end. -/
  | returnOnce (id : ℕ)
  | dropOnce (id : ℕ)
  | task (id : ℕ) (action : UdpTaskAction Ω)

/-- The permits of a server. -/
def workerThreadsPermits (workerThreads : ℕ) : ℕ := max workerThreads 1

/-! ## Tasks -/

namespace UdpTask

/-- One step of a task. -/
def step (server : Server Ω) (task : UdpTask) : UdpTaskAction Ω → Option UdpTaskPhase
  | .decode =>
    match task.phase with
    | .spawned =>
      match decodeRpcMessageDatagram task.datagram with
      | .error error => some (.done (some (.error (.transport (mapRuntimeError error)))))
      | .ok message => some (.handling message)
    | _ => none
  | .handle world =>
    match task.phase with
    | .handling message =>
      match server.handleMessageWithPeerAddr world message (some task.peer) with
      | .error error => some (.done (some (.error (.server error))))
      | .ok reply =>
        match encodeRpcMessageDatagram reply with
        | .error error => some (.done (some (.error (.transport (.runtime error)))))
        | .ok payload => some (.sending payload)
    | _ => none
  | .panic =>
    match task.phase with
    | .handling _ => some (.done none)
    | _ => none
  | .sent result =>
    match task.phase with
    | .sending _ => some (.done (some (result.mapError fun error => .transport (.io error.text))))
    | _ => none

/-- A task that runs holds a permit. -/
def isRunning (task : UdpTask) : Bool :=
  match task.phase with
  | .done _ => false
  | _ => true

/-- What a task that goes on to a phase gives to the socket. -/
def delivers (task : UdpTask) : UdpTaskPhase → List (SocketAddr × Bytes)
  | .done (some (.ok ())) =>
    match task.phase with
    | .sending payload => [(task.peer, payload)]
    | _ => []
  | _ => []

/-- The sender of the datagram of a task, and the datagram. -/
def origin (task : UdpTask) : SocketAddr × Bytes := (task.peer, task.datagram)

end UdpTask

/-! ## The loop and the callers -/

/-- The permits the loop holds. -/
def UdpServeLoop.held : UdpServeLoop → ℕ
  | .receiving => 1
  | _ => 0

/-- The datagram a caller holds. -/
def UdpAccept.holding : UdpAccept → Option (SocketAddr × Bytes)
  | .acquiring peer datagram => some (peer, datagram)
  | _ => none

/-- The datagrams callers hold. -/
def UdpAccept.holdings (accepts : List UdpAccept) : Multiset (SocketAddr × Bytes) :=
  Multiset.ofList (accepts.filterMap UdpAccept.holding)

/-- A caller is done. -/
def UdpAccept.isOver : UdpAccept → Bool
  | .returned _ | .dropped => true
  | _ => false

/-- The datagrams that are taken from the socket. -/
def UdpServerAction.taken : UdpServerAction Ω → List (SocketAddr × Bytes)
  | .receive peer datagram | .receiveOnce _ peer datagram => [(peer, recvUdpDatagram datagram)]
  | _ => []

/-- What ends the loop. -/
def UdpServerAction.stopsLoop : UdpServerAction Ω → Prop
  | .receiveError _ | .dropLoop => True
  | _ => False

namespace UdpServer

/-- A server socket that has just been bound. -/
def initial (workerThreads : ℕ) : UdpServer :=
  ⟨workerThreadsPermits workerThreads, .idle, [], [], [], []⟩

variable (s : UdpServer)

/-- A task for a datagram. -/
def spawn (peer : SocketAddr) (datagram : Bytes) : UdpServer :=
  { s with tasks := s.tasks ++ [⟨peer, datagram, .spawned⟩] }

/-- A caller goes on. -/
def goOnce (id : ℕ) (accept : UdpAccept) : UdpServer :=
  { s with accepts := s.accepts.set id accept }

/-- One step of the loop. -/
def loopStep : UdpServerAction Ω → Option UdpServer
  | .serve =>
    match s.loop with
    | .idle => if s.accepts.all UdpAccept.isOver then some { s with loop := .acquiring } else none
    | _ => none
  | .acquire =>
    match s.loop with
    | .acquiring =>
      if 0 < s.permits then some { s with loop := .receiving, permits := s.permits - 1 } else none
    | _ => none
  | .receive peer datagram =>
    match s.loop with
    | .receiving =>
      some { s.spawn peer (recvUdpDatagram datagram) with
        loop := .acquiring, received := s.received ++ [(peer, recvUdpDatagram datagram)] }
    | _ => none
  | .receiveError error =>
    match s.loop with
    | .receiving =>
      some { s with loop := .stopped (.transport (.io error.text)), permits := s.permits + 1 }
    | _ => none
  | .dropLoop =>
    match s.loop with
    | .acquiring => some { s with loop := .dropped }
    | .receiving => some { s with loop := .dropped, permits := s.permits + 1 }
    | _ => none
  | _ => none

/-- One step of a caller. -/
def onceStep : UdpServerAction Ω → Option UdpServer
  | .acceptOnce =>
    match s.loop with
    | .idle => some { s with accepts := s.accepts ++ [.receiving] }
    | _ => none
  | .receiveOnce id peer datagram =>
    match s.accepts[id]? with
    | some .receiving =>
      some { s.goOnce id (.acquiring peer (recvUdpDatagram datagram)) with
        received := s.received ++ [(peer, recvUdpDatagram datagram)] }
    | _ => none
  | .receiveErrorOnce id error =>
    match s.accepts[id]? with
    | some .receiving => some (s.goOnce id (.returned (.error (.transport (.io error.text)))))
    | _ => none
  | .acquireOnce id =>
    match s.accepts[id]? with
    | some (.acquiring peer datagram) =>
      if 0 < s.permits then
        some { (s.goOnce id (.waiting s.tasks.length)).spawn peer datagram with
          permits := s.permits - 1 }
      else none
    | _ => none
  | .returnOnce id =>
    match s.accepts[id]? with
    | some (.waiting task) =>
      match (s.tasks[task]?).map UdpTask.phase with
      | some (.done (some result)) => some (s.goOnce id (.returned result))
      | some (.done none) =>
        some (s.goOnce id (.returned (.error (.transport (.io "server runtime terminated")))))
      | _ => none
    | _ => none
  | .dropOnce id =>
    match s.accepts[id]? with
    | some accept => if accept.isOver then none else some (s.goOnce id .dropped)
    | none => none
  | _ => none

/-- A task goes on; when it ends, it gives back its permit. -/
def goTask (id : ℕ) (task : UdpTask) (phase : UdpTaskPhase) : UdpServer :=
  { s with
    tasks := s.tasks.set id { task with phase := phase }
    permits := if ({ task with phase := phase } : UdpTask).isRunning then s.permits
      else s.permits + 1
    output := s.output ++ task.delivers phase }

/-- One step of a task. -/
def taskStep (server : Server Ω) (id : ℕ) (action : UdpTaskAction Ω) : Option UdpServer :=
  match s.tasks[id]? with
  | none => none
  | some task => (task.step server action).map (s.goTask id task)

/-- One step at a server socket. -/
def step (server : Server Ω) (s : UdpServer) (action : UdpServerAction Ω) : Option UdpServer :=
  match action with
  | .task id action => s.taskStep server id action
  | .serve | .acquire | .receive .. | .receiveError _ | .dropLoop => s.loopStep action
  | .acceptOnce | .receiveOnce .. | .receiveErrorOnce .. | .acquireOnce _ | .returnOnce _
  | .dropOnce _ => s.onceStep action

end UdpServer

/-! ## What a step can do -/

/-- A datagram is an answer to what a task was spawned for. -/
def UdpTask.Answers (server : Server Ω) (task : UdpTask) (payload : Bytes) : Prop :=
  ∃ message world reply, decodeRpcMessageDatagram task.datagram = .ok message ∧
    server.handleMessageWithPeerAddr world message (some task.peer) = .ok reply ∧
    encodeRpcMessageDatagram reply = .ok payload

/-- What a step of a task does: where it goes on, and what it gives to the socket. -/
inductive UdpTaskMoves (server : Server Ω) (task : UdpTask) :
    UdpTaskPhase → List (SocketAddr × Bytes) → Prop
  | accept {message : RpcMessage} (h : task.phase = .spawned)
    (hdecode : decodeRpcMessageDatagram task.datagram = .ok message) :
    UdpTaskMoves server task (.handling message) []
  | reply {message reply : RpcMessage} {world : Ω} {payload : Bytes}
    (h : task.phase = .handling message)
    (hreply : server.handleMessageWithPeerAddr world message (some task.peer) = .ok reply)
    (hencode : encodeRpcMessageDatagram reply = .ok payload) :
    UdpTaskMoves server task (.sending payload) []
  | deliver {payload : Bytes} (h : task.phase = .sending payload) :
    UdpTaskMoves server task (.done (some (.ok ()))) [(task.peer, payload)]
  /-- It ends without having sent anything. -/
  | fail {result : Option (Except UdpServerError Unit)} (h : task.isRunning = true)
    (hfailed : result ≠ some (.ok ())) : UdpTaskMoves server task (.done result) []

/-- What a step at a server socket does. -/
inductive UdpServerMoves (server : Server Ω) (s : UdpServer) : UdpServer → Prop
  | task (id : ℕ) {task : UdpTask} {phase : UdpTaskPhase} {sent : List (SocketAddr × Bytes)}
    (h : s.tasks[id]? = some task) (hmove : UdpTaskMoves server task phase sent) :
    UdpServerMoves server s
      { s with
        tasks := s.tasks.set id { task with phase := phase }
        permits := if ({ task with phase := phase } : UdpTask).isRunning then s.permits
          else s.permits + 1
        output := s.output ++ sent }
  /-- The loop or a caller goes on, and no datagram with it. -/
  | control {loop : UdpServeLoop} {accepts : List UdpAccept} {permits : ℕ}
    (hpermits : permits + loop.held = s.permits + s.loop.held)
    (hheld : UdpAccept.holdings accepts ≤ UdpAccept.holdings s.accepts) :
    UdpServerMoves server s { s with loop := loop, accepts := accepts, permits := permits }
  | take (id : ℕ) (peer : SocketAddr) (datagram : Bytes)
    (h : s.accepts[id]? = some .receiving) :
    UdpServerMoves server s { s.goOnce id (.acquiring peer datagram) with
      received := s.received ++ [(peer, datagram)] }
  | spawn (peer : SocketAddr) (datagram : Bytes) (h : s.loop = .receiving) :
    UdpServerMoves server s { s.spawn peer datagram with
      loop := .acquiring, received := s.received ++ [(peer, datagram)] }
  | spawnOnce (id : ℕ) (peer : SocketAddr) (datagram : Bytes)
    (h : s.accepts[id]? = some (.acquiring peer datagram)) (hfree : 0 < s.permits) :
    UdpServerMoves server s { (s.goOnce id (.waiting s.tasks.length)).spawn peer datagram with
      permits := s.permits - 1 }

/-- A step of a task is one of these. -/
theorem UdpTask.moves_of_step {server : Server Ω} {task : UdpTask} {action : UdpTaskAction Ω}
    {phase : UdpTaskPhase} (h : task.step server action = some phase) :
    UdpTaskMoves server task phase (task.delivers phase) := by
  obtain ⟨peer, datagram, current⟩ := task
  rcases action with _ | world | _ | result
  · rcases current with _ | _ | _ | _ <;> simp only [UdpTask.step, reduceCtorEq] at h
    rcases hdecode : decodeRpcMessageDatagram datagram with error | message
    · simp only [hdecode, Option.some.injEq] at h
      subst h
      exact .fail rfl (by simp)
    · simp only [hdecode, Option.some.injEq] at h
      subst h
      exact .accept rfl hdecode
  · rcases current with _ | message | _ | _ <;> simp only [UdpTask.step, reduceCtorEq] at h
    rcases hreply : server.handleMessageWithPeerAddr world message (some peer) with error | reply
    · simp only [hreply, Option.some.injEq] at h
      subst h
      exact .fail rfl (by simp)
    · rcases hencode : encodeRpcMessageDatagram reply with error | payload
      · simp only [hreply, hencode, Option.some.injEq] at h
        subst h
        exact .fail rfl (by simp)
      · simp only [hreply, hencode, Option.some.injEq] at h
        subst h
        exact .reply rfl hreply hencode
  · rcases current with _ | message | _ | _ <;> simp only [UdpTask.step, reduceCtorEq] at h
    simp only [Option.some.injEq] at h
    subst h
    exact .fail rfl (by simp)
  · rcases current with _ | _ | payload | _ <;> simp only [UdpTask.step, reduceCtorEq] at h
    simp only [Option.some.injEq] at h
    subst h
    rcases result with error | ⟨⟨⟩⟩
    · exact .fail rfl (by simp [Except.mapError])
    · exact .deliver rfl

namespace UdpServer

variable {server : Server Ω} {s t : UdpServer}

/-- What is held by several accepts is held by one or by the others. -/
theorem holdings_cons (accept : UdpAccept) (accepts : List UdpAccept) :
    UdpAccept.holdings (accept :: accepts) =
      Multiset.ofList accept.holding.toList + UdpAccept.holdings accepts := by
  unfold UdpAccept.holdings
  rw [List.filterMap_cons, Multiset.coe_add]
  rcases accept.holding with _ | held <;> rfl

/-- What is held does not depend on the order of the accepts. -/
theorem holdings_perm {accepts accepts' : List UdpAccept} (h : accepts.Perm accepts') :
    UdpAccept.holdings accepts = UdpAccept.holdings accepts' :=
  Multiset.coe_eq_coe.mpr (h.filterMap UdpAccept.holding)

/-- What the callers hold before and after one of them goes on. -/
theorem exists_holdings_set {accepts : List UdpAccept} {id : ℕ} {accept : UdpAccept}
    (h : accepts[id]? = some accept) (next : UdpAccept) :
    ∃ rest, UdpAccept.holdings accepts = Multiset.ofList accept.holding.toList + rest ∧
      UdpAccept.holdings (accepts.set id next) = Multiset.ofList next.holding.toList + rest := by
  obtain ⟨hlt, rfl⟩ := List.getElem?_eq_some_iff.mp h
  refine ⟨UdpAccept.holdings (accepts.eraseIdx id), ?_, ?_⟩
  · rw [← holdings_perm (List.getElem_cons_eraseIdx_perm hlt), holdings_cons]
  · rw [holdings_perm (List.set_perm_cons_eraseIdx hlt next), holdings_cons]

/-- A caller that goes on without taking a datagram. -/
theorem moves_goOnce {id : ℕ} {accept next : UdpAccept} (h : s.accepts[id]? = some accept)
    (hnext : next.holding = none) : UdpServerMoves server s (s.goOnce id next) := by
  refine .control rfl ?_
  obtain ⟨rest, hbefore, hafter⟩ := exists_holdings_set h next
  rw [hbefore, hafter, hnext]
  exact add_le_add_left (Multiset.zero_le _) rest

/-- Every step is one of these. -/
theorem moves_of_step {action : UdpServerAction Ω} (h : step server s action = some t) :
    UdpServerMoves server s t := by
  have hsame : UdpAccept.holdings s.accepts ≤ UdpAccept.holdings s.accepts := le_rfl
  cases action with
  | serve =>
    rcases hloop : s.loop with _ | _ | _ | _ | _ <;>
      simp only [step, loopStep, hloop, reduceCtorEq] at h
    split_ifs at h
    obtain rfl := Option.some.inj h
    exact .control (by rw [hloop]; rfl) hsame
  | acquire =>
    rcases hloop : s.loop with _ | _ | _ | _ | _ <;>
      simp only [step, loopStep, hloop, reduceCtorEq] at h
    split_ifs at h with hfree
    obtain rfl := Option.some.inj h
    refine .control ?_ hsame
    rw [hloop]
    exact Nat.sub_add_cancel hfree
  | receive peer datagram =>
    rcases hloop : s.loop with _ | _ | _ | _ | _ <;>
      simp only [step, loopStep, hloop, reduceCtorEq] at h
    obtain rfl := Option.some.inj h
    exact .spawn peer _ hloop
  | receiveError error =>
    rcases hloop : s.loop with _ | _ | _ | _ | _ <;>
      simp only [step, loopStep, hloop, reduceCtorEq] at h
    obtain rfl := Option.some.inj h
    exact .control (by rw [hloop]; rfl) hsame
  | dropLoop =>
    rcases hloop : s.loop with _ | _ | _ | _ | _ <;>
      simp only [step, loopStep, hloop, reduceCtorEq] at h
    all_goals
      obtain rfl := Option.some.inj h
      exact .control (by rw [hloop]; rfl) hsame
  | acceptOnce =>
    rcases hloop : s.loop with _ | _ | _ | _ | _ <;>
      simp only [step, onceStep, hloop, reduceCtorEq] at h
    obtain rfl := Option.some.inj h
    refine .control (by rw [hloop]) ?_
    have hnew : (s.accepts ++ [UdpAccept.receiving]).Perm (.receiving :: s.accepts) :=
      List.perm_append_singleton ..
    rw [holdings_perm hnew, holdings_cons]
    exact (zero_add (UdpAccept.holdings s.accepts)).le
  | receiveOnce id peer datagram =>
    rcases haccept : s.accepts[id]? with _ | _ | _ | _ | _ | _ <;>
      simp only [step, onceStep, haccept, reduceCtorEq] at h
    obtain rfl := Option.some.inj h
    exact .take id peer _ haccept
  | receiveErrorOnce id error =>
    rcases haccept : s.accepts[id]? with _ | _ | _ | _ | _ | _ <;>
      simp only [step, onceStep, haccept, reduceCtorEq] at h
    obtain rfl := Option.some.inj h
    exact moves_goOnce haccept rfl
  | acquireOnce id =>
    rcases haccept : s.accepts[id]? with _ | _ | ⟨peer, datagram⟩ | _ | _ | _ <;>
      simp only [step, onceStep, haccept, reduceCtorEq] at h
    split_ifs at h with hfree
    obtain rfl := Option.some.inj h
    exact .spawnOnce id peer datagram haccept hfree
  | returnOnce id =>
    rcases haccept : s.accepts[id]? with _ | _ | _ | task | _ | _ <;>
      simp only [step, onceStep, haccept, reduceCtorEq] at h
    split at h
    · obtain rfl := Option.some.inj h
      exact moves_goOnce haccept rfl
    · obtain rfl := Option.some.inj h
      exact moves_goOnce haccept rfl
    · simp at h
  | dropOnce id =>
    rcases haccept : s.accepts[id]? with _ | accept
    · simp [step, onceStep, haccept] at h
    · simp only [step, onceStep, haccept] at h
      split_ifs at h
      obtain rfl := Option.some.inj h
      exact moves_goOnce haccept rfl
  | task id action =>
    rcases htask : s.tasks[id]? with _ | task
    · simp [step, taskStep, htask] at h
    · simp only [step, taskStep, htask] at h
      obtain ⟨phase, hphase, rfl⟩ := Option.map_eq_some_iff.mp h
      exact .task id htask (UdpTask.moves_of_step hphase)

/-! ## The invariant -/

/-- The tasks that have sent their replies, in the order of the replies. -/
structure Delivered (server : Server Ω) (tasks : List UdpTask) (ids : List ℕ)
    (output : List (SocketAddr × Bytes)) : Prop where
  nodup : ids.Nodup
  complete : ∀ id task, tasks[id]? = some task → task.phase = .done (some (.ok ())) → id ∈ ids
  replies : List.Forall₂ (fun id sent => ∃ task, tasks[id]? = some task ∧
    task.phase = .done (some (.ok ())) ∧ sent.1 = task.peer ∧ task.Answers server sent.2) ids output

/-- What a task has computed so far. -/
structure Computes (server : Server Ω) (task : UdpTask) : Prop where
  message : ∀ message, task.phase = .handling message →
    decodeRpcMessageDatagram task.datagram = .ok message
  payload : ∀ payload, task.phase = .sending payload → task.Answers server payload

/-- The permits are where they belong, no datagram is served twice, and the replies are answers. -/
structure Served (server : Server Ω) (permits : ℕ) (s : UdpServer) : Prop where
  permits : s.permits + s.loop.held + s.tasks.countP UdpTask.isRunning = permits
  datagrams : Multiset.ofList (s.tasks.map UdpTask.origin) + UdpAccept.holdings s.accepts ≤
    Multiset.ofList s.received
  computes : ∀ task ∈ s.tasks, Computes server task
  delivered : ∃ ids, Delivered server s.tasks ids s.output

/-- A task that goes on was running, and does not send twice. -/
theorem isRunning_of_taskMoves {task : UdpTask} {phase : UdpTaskPhase}
    {sent : List (SocketAddr × Bytes)} (h : UdpTaskMoves server task phase sent) :
    task.isRunning = true := by
  unfold UdpTask.isRunning
  cases h with
  | accept h | reply h | deliver h => rw [h]
  | fail h => exact h

/-- A task still computes its answer after a move. -/
theorem Computes.move {task : UdpTask} {phase : UdpTaskPhase} {sent : List (SocketAddr × Bytes)}
    (h : Computes server task) (hmove : UdpTaskMoves server task phase sent) :
    Computes server { task with phase := phase } := by
  cases hmove with
  | accept _ hdecode =>
    refine ⟨fun message heq => ?_, fun payload heq => by cases heq⟩
    cases heq
    exact hdecode
  | @reply message reply world payload hphase hreply hencode =>
    refine ⟨fun message heq => (by cases heq), fun payload heq => ?_⟩
    cases heq
    exact ⟨message, world, reply, h.message message hphase, hreply, hencode⟩
  | deliver | fail =>
    exact ⟨fun message heq => (by cases heq), fun payload heq => by cases heq⟩

/-- The tasks that have sent their replies are the same ones. -/
theorem Delivered.mono {tasks tasks' : List UdpTask} {ids : List ℕ}
    {output : List (SocketAddr × Bytes)} (h : Delivered server tasks ids output)
    (hkeep : ∀ (id : ℕ) (task : UdpTask), tasks[id]? = some task →
      task.phase = .done (some (.ok ())) →
      tasks'[id]? = some task)
    (hnew : ∀ (id : ℕ) (task : UdpTask), tasks'[id]? = some task →
      task.phase = .done (some (.ok ())) →
      tasks[id]? = some task) : Delivered server tasks' ids output := by
  refine ⟨h.nodup, fun id task htask hdone => h.complete id task (hnew id task htask hdone) hdone,
    h.replies.imp fun id sent hsent => ?_⟩
  obtain ⟨task, htask, hdone, hpeer, hanswers⟩ := hsent
  exact ⟨task, hkeep id task htask hdone, hdone, hpeer, hanswers⟩

/-- A new task leaves what was delivered. -/
theorem Delivered.spawn {tasks : List UdpTask} {ids : List ℕ} {output : List (SocketAddr × Bytes)}
    (h : Delivered server tasks ids output) (peer : SocketAddr) (datagram : Bytes) :
    Delivered server (tasks ++ [⟨peer, datagram, .spawned⟩]) ids output := by
  refine h.mono (fun id task htask _ => ?_) fun id task htask hdone => ?_
  · obtain ⟨hlt, -⟩ := List.getElem?_eq_some_iff.mp htask
    rwa [List.getElem?_append_left hlt]
  · rw [List.getElem?_append] at htask
    split_ifs at htask with hlt
    · exact htask
    · obtain rfl := List.mem_singleton.mp (List.mem_of_getElem? htask)
      cases hdone

/-- A task that is not over goes on without sending. -/
theorem Delivered.set {tasks : List UdpTask} {ids : List ℕ} {output : List (SocketAddr × Bytes)}
    {id : ℕ} {task next : UdpTask} (h : Delivered server tasks ids output)
    (htask : tasks[id]? = some task) (hrunning : task.isRunning = true)
    (hnext : next.phase ≠ .done (some (.ok ()))) :
    Delivered server (tasks.set id next) ids output := by
  obtain ⟨hlt, -⟩ := List.getElem?_eq_some_iff.mp htask
  refine h.mono (fun other found hfound hdone => ?_) fun other found hfound hdone => ?_
  · have hne : id ≠ other := by
      rintro rfl
      obtain rfl : task = found := Option.some.inj (htask.symm.trans hfound)
      simp [UdpTask.isRunning, hdone] at hrunning
    rwa [List.getElem?_set_ne hne]
  · by_cases heq : id = other
    · subst heq
      rw [List.getElem?_set_self hlt] at hfound
      obtain rfl := Option.some.inj hfound
      exact absurd hdone hnext
    · rwa [List.getElem?_set_ne heq] at hfound

/-- A task sends its reply and is over. -/
theorem Delivered.snoc {tasks : List UdpTask} {ids : List ℕ} {output : List (SocketAddr × Bytes)}
    {id : ℕ} {task : UdpTask} {payload : Bytes} (h : Delivered server tasks ids output)
    (htask : tasks[id]? = some task) (hrunning : task.isRunning = true)
    (hanswers : task.Answers server payload) :
    Delivered server (tasks.set id { task with phase := .done (some (.ok ())) }) (ids ++ [id])
      (output ++ [(task.peer, payload)]) := by
  obtain ⟨hlt, -⟩ := List.getElem?_eq_some_iff.mp htask
  have hnotMem : id ∉ ids := by
    intro hmem
    obtain ⟨sent, -, found, hfound, hdone, -⟩ := exists_of_mem_left h.replies hmem
    obtain rfl : task = found := Option.some.inj (htask.symm.trans hfound)
    simp [UdpTask.isRunning, hdone] at hrunning
  have hother : ∀ other, id ≠ other →
      (tasks.set id { task with phase := .done (some (.ok ())) })[other]? = tasks[other]? :=
    fun other hne => List.getElem?_set_ne hne
  refine ⟨?_, fun other found hfound hdone => ?_, ?_⟩
  · rw [List.nodup_append]
    refine ⟨h.nodup, List.nodup_singleton id, fun other hmem last hlast heq => ?_⟩
    rw [List.mem_singleton.mp hlast] at heq
    exact hnotMem (heq ▸ hmem)
  · by_cases heq : id = other
    · exact heq ▸ List.mem_append_right ids (List.mem_singleton_self id)
    · rw [hother other heq] at hfound
      exact List.mem_append_left [id] (h.complete other found hfound hdone)
  · refine List.rel_append ?_ (.cons ?_ .nil)
    · refine forall₂_imp_of_mem h.replies fun other hmem sent _ hsent => ?_
      obtain ⟨found, hfound, hrest⟩ := hsent
      have hne : id ≠ other := fun heq => hnotMem (heq ▸ hmem)
      exact ⟨found, (hother other hne).trans hfound, hrest⟩
    · exact ⟨_, List.getElem?_set_self hlt, rfl, rfl, hanswers⟩

/-- The number of running tasks before and after one of them goes on. -/
theorem exists_countP_set {tasks : List UdpTask} {id : ℕ} {task : UdpTask}
    (h : tasks[id]? = some task) (next : UdpTask) :
    ∃ others, tasks.countP UdpTask.isRunning = others + (if task.isRunning then 1 else 0) ∧
      (tasks.set id next).countP UdpTask.isRunning =
        others + (if next.isRunning then 1 else 0) := by
  obtain ⟨hlt, rfl⟩ := List.getElem?_eq_some_iff.mp h
  refine ⟨(tasks.eraseIdx id).countP UdpTask.isRunning, ?_, ?_⟩
  · rw [← (List.getElem_cons_eraseIdx_perm hlt).countP_eq, List.countP_cons]
  · rw [(List.set_perm_cons_eraseIdx hlt next).countP_eq, List.countP_cons]

/-- The invariant holds of a server that was just started. -/
theorem Served.initial (server : Server Ω) (workerThreads : ℕ) :
    Served server (workerThreadsPermits workerThreads) (.initial workerThreads) where
  permits := rfl
  datagrams := le_rfl
  computes task hmem := absurd hmem List.not_mem_nil
  delivered := ⟨[], List.nodup_nil, by intro id task htask; simp [UdpServer.initial] at htask, .nil⟩

/-- A new task computes nothing yet. -/
theorem computes_spawned (peer : SocketAddr) (datagram : Bytes) :
    Computes server ⟨peer, datagram, .spawned⟩ :=
  ⟨fun message heq => (by cases heq), fun payload heq => by cases heq⟩

/-- Every move keeps the invariant. -/
theorem Served.move {permits : ℕ} (h : Served server permits s)
    (hmove : UdpServerMoves server s t) :
    Served server permits t := by
  obtain ⟨ids, hdelivered⟩ := h.delivered
  have hspawn : ∀ peer datagram, ∀ task ∈ s.tasks ++ [⟨peer, datagram, .spawned⟩],
      Computes server task := by
    intro peer datagram task hmem
    rcases List.mem_append.mp hmem with hold | hlast
    · exact h.computes task hold
    · exact List.mem_singleton.mp hlast ▸ computes_spawned peer datagram
  cases hmove with
  | @task id task phase sent htask hmove =>
    have hrunning := isRunning_of_taskMoves hmove
    have hcomputes := h.computes task (List.mem_of_getElem? htask)
    obtain ⟨hlt, hget⟩ := List.getElem?_eq_some_iff.mp htask
    refine ⟨?_, ?_, fun other hmem => ?_, ?_⟩
    · obtain ⟨others, hbefore, hafter⟩ := exists_countP_set htask { task with phase := phase }
      have hpermits := h.permits
      rw [hbefore, hrunning, if_pos rfl] at hpermits
      simp only [hafter]
      split_ifs <;> omega
    · have hsame : (s.tasks.set id { task with phase := phase }).map UdpTask.origin =
          s.tasks.map UdpTask.origin := by
        have hlt' : id < (s.tasks.map UdpTask.origin).length := by simpa using hlt
        have horigin : ({ task with phase := phase } : UdpTask).origin =
            (s.tasks.map UdpTask.origin)[id] := by
          rw [List.getElem_map, hget]
          rfl
        rw [List.map_set, horigin, List.set_getElem_self]
      simp only [hsame]
      exact h.datagrams
    · rcases List.mem_or_eq_of_mem_set hmem with hold | rfl
      · exact h.computes other hold
      · exact hcomputes.move hmove
    · cases hmove with
      | deliver hphase => exact ⟨_, hdelivered.snoc htask hrunning (hcomputes.payload _ hphase)⟩
      | accept | reply =>
        rw [List.append_nil]
        exact ⟨ids, hdelivered.set htask hrunning (by simp)⟩
      | fail _ hfailed =>
        rw [List.append_nil]
        exact ⟨ids, hdelivered.set htask hrunning (by simpa using hfailed)⟩
  | control hpermits hheld =>
    refine ⟨?_, ?_, h.computes, ids, hdelivered⟩
    · have := h.permits
      simp only
      omega
    · exact (add_le_add_right hheld _).trans h.datagrams
  | take id peer datagram haccept =>
    refine ⟨h.permits, ?_, h.computes, ids, hdelivered⟩
    obtain ⟨rest, hbefore, hafter⟩ := exists_holdings_set haccept (.acquiring peer datagram)
    have hdatagrams := h.datagrams
    simp only [goOnce]
    rw [hafter, ← Multiset.coe_add]
    rw [hbefore] at hdatagrams
    calc Multiset.ofList (s.tasks.map UdpTask.origin) + ({(peer, datagram)} + rest)
        = Multiset.ofList (s.tasks.map UdpTask.origin) + (0 + rest) + {(peer, datagram)} := by
          rw [zero_add, add_comm {(peer, datagram)} rest, add_assoc]
      _ ≤ Multiset.ofList s.received + {(peer, datagram)} := add_le_add_left hdatagrams _
  | spawn peer datagram hloop =>
    refine ⟨?_, ?_, hspawn peer datagram, ids, hdelivered.spawn peer datagram⟩
    · have hpermits := h.permits
      have hone : [(⟨peer, datagram, .spawned⟩ : UdpTask)].countP UdpTask.isRunning = 1 := rfl
      rw [hloop] at hpermits
      simp only [UdpServer.spawn, List.countP_append, hone, UdpServeLoop.held] at hpermits ⊢
      omega
    · simp only [UdpServer.spawn, List.map_append]
      rw [← Multiset.coe_add, ← Multiset.coe_add, add_right_comm]
      exact add_le_add_left h.datagrams _
  | spawnOnce id peer datagram haccept hfree =>
    refine ⟨?_, ?_, hspawn peer datagram, ids, hdelivered.spawn peer datagram⟩
    · have hpermits := h.permits
      have hone : [(⟨peer, datagram, .spawned⟩ : UdpTask)].countP UdpTask.isRunning = 1 := rfl
      simp only [UdpServer.spawn, goOnce, List.countP_append, hone]
      omega
    · obtain ⟨rest, hbefore, hafter⟩ := exists_holdings_set haccept (.waiting s.tasks.length)
      have hdatagrams := h.datagrams
      rw [hbefore] at hdatagrams
      simp only [UdpServer.spawn, goOnce, List.map_append]
      rw [hafter, ← Multiset.coe_add, add_assoc]
      refine le_trans (le_of_eq ?_) hdatagrams
      simp [UdpTask.origin, UdpAccept.holding]

/-- The invariant holds in every run. -/
theorem Served.of_runs {workerThreads : ℕ}
    (h : Runs (step server) (fun _ _ => True) (.initial workerThreads) s) :
    Served server (workerThreadsPermits workerThreads) s :=
  h.invariant (Served server _) (.initial server workerThreads)
    fun hu _ hstep => hu.move (moves_of_step hstep)

/-! ## Tasks come to their end -/

/-- The steps that serve the datagram of a peer: no other datagram is received, and nothing fails or
is dropped. -/
def Serves (peer : SocketAddr) (datagram : Bytes) (_ : UdpServer) : UdpServerAction Ω → Prop
  | .acquire | .task _ .decode | .task _ (.handle _) | .task _ (.sent (.ok ())) => True
  | .receive sender bytes => sender = peer ∧ bytes = datagram
  | _ => False

/-- A task is over and everything else as before. -/
structure Freed (s t : UdpServer) : Prop where
  loop : t.loop = s.loop
  permits : t.permits = s.permits + 1
  received : t.received = s.received
  output : s.output <+: t.output

section Finish

variable {peer owner : SocketAddr} {datagram bytes payload : Bytes} {id : ℕ}

/-- One step of a task that is there. -/
theorem taskStep_eq {task : UdpTask} {action : UdpTaskAction Ω} {phase : UdpTaskPhase}
    (htask : s.tasks[id]? = some task) (hphase : task.step server action = some phase) :
    step server s (.task id action) = some (s.goTask id task phase) := by
  simp only [step, taskStep, htask, hphase, Option.map_some]

/-- A task that moves is in its new phase. -/
theorem tasks_goTask {task : UdpTask} (htask : s.tasks[id]? = some task) (phase : UdpTaskPhase) :
    (s.goTask id task phase).tasks[id]? = some { task with phase := phase } := by
  obtain ⟨hlt, -⟩ := List.getElem?_eq_some_iff.mp htask
  exact List.getElem?_set_self hlt

/-- A task that ends after it has gone on. -/
theorem Freed.of_goTask {task : UdpTask} {phase : UdpTaskPhase}
    (h : Freed (s.goTask id task phase) t)
    (hrunning : ({ task with phase := phase } : UdpTask).isRunning = true := by rfl) :
    Freed s t where
  loop := h.loop
  permits := by rw [h.permits, goTask, if_pos hrunning]
  received := h.received
  output := (List.prefix_append ..).trans h.output

/-- A task that is sending is over once the socket has taken its reply. -/
theorem exists_finish_sending (server : Server Ω) (peer : SocketAddr) (datagram : Bytes)
    (htask : s.tasks[id]? = some ⟨owner, bytes, .sending payload⟩) :
    ∃ t, Runs (step server) (Serves peer datagram) s t ∧ Freed s t ∧
      t.output = s.output ++ [(owner, payload)] := by
  have hstep : (⟨owner, bytes, .sending payload⟩ : UdpTask).step server (.sent (.ok ())) =
      some (.done (some (.ok ()))) := rfl
  have hnext := taskStep_eq htask hstep
  exact ⟨_, (Runs.refl s).tail (a := .task id (.sent (.ok ()))) trivial hnext,
    ⟨rfl, rfl, rfl, List.prefix_append ..⟩, rfl⟩

/-- A task whose dispatcher returns comes to its end; if there is a reply, it is sent. -/
theorem exists_finish_handling (server : Server Ω) (peer : SocketAddr) (datagram : Bytes)
    {message : RpcMessage} (world : Ω)
    (htask : s.tasks[id]? = some ⟨owner, bytes, .handling message⟩) :
    ∃ t, Runs (step server) (Serves peer datagram) s t ∧ Freed s t ∧
      ∀ reply payload, server.handleMessageWithPeerAddr world message (some owner) = .ok reply →
        encodeRpcMessageDatagram reply = .ok payload →
        t.output = s.output ++ [(owner, payload)] := by
  rcases hreply : server.handleMessageWithPeerAddr world message (some owner) with error | reply
  · have hstep : (⟨owner, bytes, .handling message⟩ : UdpTask).step server (.handle world) =
        some (.done (some (.error (.server error)))) := by
      simp only [UdpTask.step, hreply]
    exact ⟨_, (Runs.refl s).tail (a := .task id (.handle world)) trivial (taskStep_eq htask hstep),
      ⟨rfl, rfl, rfl, List.prefix_append ..⟩, fun reply payload h => by cases h⟩
  rcases hencode : encodeRpcMessageDatagram reply with error | payload
  · have hstep : (⟨owner, bytes, .handling message⟩ : UdpTask).step server (.handle world) =
        some (.done (some (.error (.transport (.runtime error))))) := by
      simp only [UdpTask.step, hreply, hencode]
    refine ⟨_, (Runs.refl s).tail (a := .task id (.handle world)) trivial (taskStep_eq htask hstep),
      ⟨rfl, rfl, rfl, List.prefix_append ..⟩, fun reply' payload hreply' hpayload => ?_⟩
    obtain rfl := Except.ok.inj hreply'
    rw [hencode] at hpayload
    cases hpayload
  · have hstep : (⟨owner, bytes, .handling message⟩ : UdpTask).step server (.handle world) =
        some (.sending payload) := by
      simp only [UdpTask.step, hreply, hencode]
    obtain ⟨t, hruns, hfreed, houtput⟩ :=
      exists_finish_sending server peer datagram (tasks_goTask htask (.sending payload))
    refine ⟨t, ((Runs.refl s).tail (a := .task id (.handle world)) trivial
      (taskStep_eq htask hstep)).trans hruns, hfreed.of_goTask,
      fun reply' payload' hreply' hpayload => ?_⟩
    obtain rfl := Except.ok.inj hreply'
    obtain rfl := Except.ok.inj (hencode.symm.trans hpayload)
    rw [houtput]
    exact congrArg (· ++ [(owner, payload)]) (List.append_nil s.output)

/-- A new task comes to its end; if its datagram has an answer, that is sent. -/
theorem exists_finish_spawned (server : Server Ω) (peer : SocketAddr) (datagram : Bytes) (world : Ω)
    (htask : s.tasks[id]? = some ⟨owner, bytes, .spawned⟩) :
    ∃ t, Runs (step server) (Serves peer datagram) s t ∧ Freed s t ∧
      ∀ message reply payload, decodeRpcMessageDatagram bytes = .ok message →
        server.handleMessageWithPeerAddr world message (some owner) = .ok reply →
        encodeRpcMessageDatagram reply = .ok payload →
        t.output = s.output ++ [(owner, payload)] := by
  rcases hdecode : decodeRpcMessageDatagram bytes with error | message
  · have hstep : (⟨owner, bytes, .spawned⟩ : UdpTask).step server .decode =
        some (.done (some (.error (.transport (mapRuntimeError error))))) := by
      simp only [UdpTask.step, hdecode]
    exact ⟨_, (Runs.refl s).tail (a := .task id .decode) trivial (taskStep_eq htask hstep),
      ⟨rfl, rfl, rfl, List.prefix_append ..⟩, fun message reply payload h => by cases h⟩
  · have hstep : (⟨owner, bytes, .spawned⟩ : UdpTask).step server .decode =
        some (.handling message) := by
      simp only [UdpTask.step, hdecode]
    obtain ⟨t, hruns, hfreed, houtput⟩ :=
      exists_finish_handling server peer datagram world (tasks_goTask htask (.handling message))
    refine ⟨t, ((Runs.refl s).tail (a := .task id .decode) trivial
      (taskStep_eq htask hstep)).trans hruns, hfreed.of_goTask,
      fun message' reply payload hmessage hreply hpayload => ?_⟩
    obtain rfl := Except.ok.inj hmessage
    rw [houtput reply payload hreply hpayload]
    exact congrArg (· ++ [(owner, payload)]) (List.append_nil s.output)

/-- A running task comes to its end. -/
theorem exists_finish (server : Server Ω) (peer : SocketAddr) (datagram : Bytes) (world : Ω)
    {task : UdpTask} (htask : s.tasks[id]? = some task) (hrunning : task.isRunning = true) :
    ∃ t, Runs (step server) (Serves peer datagram) s t ∧ Freed s t := by
  obtain ⟨owner, bytes, phase⟩ := task
  cases phase with
  | spawned =>
    obtain ⟨t, hruns, hfreed, -⟩ := exists_finish_spawned server peer datagram world htask
    exact ⟨t, hruns, hfreed⟩
  | handling message =>
    obtain ⟨t, hruns, hfreed, -⟩ := exists_finish_handling server peer datagram world htask
    exact ⟨t, hruns, hfreed⟩
  | sending payload =>
    obtain ⟨t, hruns, hfreed, -⟩ := exists_finish_sending server peer datagram htask
    exact ⟨t, hruns, hfreed⟩
  | done result => simp [UdpTask.isRunning] at hrunning

end Finish

/-! ## A loop that serves -/

/-- The loop has not stopped. -/
def IsServing (s : UdpServer) : Prop := s.loop = .acquiring ∨ s.loop = .receiving

/-- A waiting loop gets to its socket: if all permits are taken, some task is about to end. -/
theorem exists_receiving {permits : ℕ} (hserved : Served server permits s) (hpos : 0 < permits)
    (hserving : s.IsServing) (peer : SocketAddr) (datagram : Bytes) (world : Ω) :
    ∃ t, Runs (step server) (Serves peer datagram) s t ∧ t.loop = .receiving ∧
      t.received = s.received ∧ s.output <+: t.output := by
  have hacquire : ∀ u : UdpServer, u.loop = .acquiring → 0 < u.permits →
      step server u .acquire =
        some { u with loop := .receiving, permits := u.permits - 1 } := by
    intro u hloop hfree
    simp only [step, loopStep, hloop, if_pos hfree]
  rcases hserving with hloop | hloop
  · by_cases hfree : 0 < s.permits
    · exact ⟨_, (Runs.refl s).tail (a := .acquire) trivial (hacquire s hloop hfree), rfl, rfl,
        List.prefix_rfl⟩
    · have hpermits := hserved.permits
      rw [hloop] at hpermits
      have hrunning : 0 < s.tasks.countP UdpTask.isRunning := by
        simp only [UdpServeLoop.held] at hpermits
        omega
      obtain ⟨task, hmem, hrunning⟩ := List.countP_pos_iff.mp hrunning
      obtain ⟨id, htask⟩ := List.mem_iff_getElem?.mp hmem
      obtain ⟨t, hruns, hfreed⟩ := exists_finish server peer datagram world htask hrunning
      have hnext := hacquire t (hfreed.loop.trans hloop) (by rw [hfreed.permits]; omega)
      exact ⟨_, hruns.tail (a := .acquire) trivial hnext, rfl, hfreed.received, hfreed.output⟩
  · exact ⟨s, Runs.refl s, hloop, rfl, List.prefix_rfl⟩

/-- What a step of a caller leaves alone. -/
theorem keeps_of_onceStep {action : UdpServerAction Ω} (h : s.onceStep action = some t) :
    t.loop = s.loop ∧ t.received = s.received ++ action.taken ∧ t.output = s.output := by
  have hnone : ∀ u : UdpServer, u.loop = s.loop → u.received = s.received → u.output = s.output →
      u.loop = s.loop ∧ u.received = s.received ++ [] ∧ u.output = s.output :=
    fun u hloop hreceived houtput => ⟨hloop, hreceived.trans (List.append_nil _).symm, houtput⟩
  cases action with
  | acceptOnce =>
    rcases hloop : s.loop with _ | _ | _ | _ | _ <;>
      simp only [onceStep, hloop, reduceCtorEq] at h
    obtain rfl := Option.some.inj h
    exact hloop ▸ hnone _ rfl rfl rfl
  | receiveOnce id peer datagram =>
    rcases haccept : s.accepts[id]? with _ | _ | _ | _ | _ | _ <;>
      simp only [onceStep, haccept, reduceCtorEq] at h
    obtain rfl := Option.some.inj h
    exact ⟨rfl, rfl, rfl⟩
  | receiveErrorOnce id error =>
    rcases haccept : s.accepts[id]? with _ | _ | _ | _ | _ | _ <;>
      simp only [onceStep, haccept, reduceCtorEq] at h
    obtain rfl := Option.some.inj h
    exact hnone _ rfl rfl rfl
  | acquireOnce id =>
    rcases haccept : s.accepts[id]? with _ | _ | _ | _ | _ | _ <;>
      simp only [onceStep, haccept, reduceCtorEq] at h
    split_ifs at h
    obtain rfl := Option.some.inj h
    exact hnone _ rfl rfl rfl
  | returnOnce id =>
    rcases haccept : s.accepts[id]? with _ | _ | _ | _ | _ | _ <;>
      simp only [onceStep, haccept, reduceCtorEq] at h
    split at h
    · obtain rfl := Option.some.inj h
      exact hnone _ rfl rfl rfl
    · obtain rfl := Option.some.inj h
      exact hnone _ rfl rfl rfl
    · simp at h
  | dropOnce id =>
    rcases haccept : s.accepts[id]? with _ | accept
    · simp [onceStep, haccept] at h
    · simp only [onceStep, haccept] at h
      split_ifs at h
      obtain rfl := Option.some.inj h
      exact hnone _ rfl rfl rfl
  | serve | acquire | receive | receiveError | dropLoop | task => simp [onceStep] at h

/-- What a step of the loop leaves alone; unless it ends the loop, that goes on serving. -/
theorem keeps_of_loopStep {action : UdpServerAction Ω} (h : s.loopStep action = some t) :
    t.received = s.received ++ action.taken ∧ t.output = s.output ∧
      (¬ action.stopsLoop → t.IsServing) := by
  have hnil : s.received = s.received ++ [] := (List.append_nil _).symm
  cases action with
  | serve =>
    rcases hloop : s.loop with _ | _ | _ | _ | _ <;>
      simp only [loopStep, hloop, reduceCtorEq] at h
    split_ifs at h
    obtain rfl := Option.some.inj h
    exact ⟨hnil, rfl, fun _ => .inl rfl⟩
  | acquire =>
    rcases hloop : s.loop with _ | _ | _ | _ | _ <;>
      simp only [loopStep, hloop, reduceCtorEq] at h
    split_ifs at h
    obtain rfl := Option.some.inj h
    exact ⟨hnil, rfl, fun _ => .inr rfl⟩
  | receive peer datagram =>
    rcases hloop : s.loop with _ | _ | _ | _ | _ <;>
      simp only [loopStep, hloop, reduceCtorEq] at h
    obtain rfl := Option.some.inj h
    exact ⟨rfl, rfl, fun _ => .inl rfl⟩
  | receiveError error =>
    rcases hloop : s.loop with _ | _ | _ | _ | _ <;>
      simp only [loopStep, hloop, reduceCtorEq] at h
    obtain rfl := Option.some.inj h
    exact ⟨hnil, rfl, fun hgoes => absurd trivial hgoes⟩
  | dropLoop =>
    rcases hloop : s.loop with _ | _ | _ | _ | _ <;>
      simp only [loopStep, hloop, reduceCtorEq] at h
    all_goals
      obtain rfl := Option.some.inj h
      exact ⟨hnil, rfl, fun hgoes => absurd trivial hgoes⟩
  | acceptOnce | receiveOnce | receiveErrorOnce | acquireOnce | returnOnce | dropOnce | task =>
    simp [loopStep] at h

/-- What a step of a task leaves alone, and what it gives to the socket. -/
theorem keeps_of_taskStep {id : ℕ} {action : UdpTaskAction Ω}
    (h : s.taskStep server id action = some t) :
    t.loop = s.loop ∧ t.received = s.received ∧ (t.output = s.output ∨
      ∃ task payload, action = .sent (.ok ()) ∧ s.tasks[id]? = some task ∧
        task.phase = .sending payload ∧ t.output = s.output ++ [(task.peer, payload)]) := by
  unfold taskStep at h
  rcases htask : s.tasks[id]? with _ | task
  · simp [htask] at h
  simp only [htask] at h
  obtain ⟨phase, hphase, rfl⟩ := Option.map_eq_some_iff.mp h
  refine ⟨rfl, rfl, ?_⟩
  obtain ⟨peer, datagram, current⟩ := task
  rcases hdelivers : (⟨peer, datagram, current⟩ : UdpTask).delivers phase with _ | ⟨sent, more⟩
  · left
    rw [goTask, hdelivers]
    exact List.append_nil _
  · right
    rcases phase with _ | _ | _ | _ | error | ⟨⟨⟩⟩ <;>
      simp only [UdpTask.delivers, reduceCtorEq] at hdelivers
    rcases current with _ | _ | payload | _ <;> simp only [reduceCtorEq] at hdelivers
    rcases action with _ | _ | _ | result <;> simp only [UdpTask.step, reduceCtorEq] at hphase
    rcases result with error | ⟨⟨⟩⟩
    · simp [Except.mapError] at hphase
    · exact ⟨_, payload, rfl, rfl, rfl, rfl⟩

/-- A step is one of the loop, of a caller or of a task. -/
theorem step_cases {action : UdpServerAction Ω} (h : UdpServer.step server s action = some t) :
    s.loopStep action = some t ∨ s.onceStep action = some t ∨
      ∃ id act, action = .task id act ∧ s.taskStep server id act = some t := by
  cases action with
  | serve | acquire | receive | receiveError | dropLoop => exact .inl h
  | acceptOnce | receiveOnce | receiveErrorOnce | acquireOnce | returnOnce | dropOnce =>
    exact .inr (.inl h)
  | task id act => exact .inr (.inr ⟨id, act, rfl, h⟩)

/-- A step that does not end the loop leaves it serving. -/
theorem IsServing.step {action : UdpServerAction Ω} (h : s.IsServing)
    (hgoes : ¬ action.stopsLoop) (hstep : UdpServer.step server s action = some t) :
    t.IsServing := by
  have hsame : t.loop = s.loop → t.IsServing := by
    intro hloop
    unfold IsServing
    rw [hloop]
    exact h
  rcases step_cases hstep with hloop | honce | ⟨id, act, -, htask⟩
  · exact (keeps_of_loopStep hloop).2.2 hgoes
  · exact hsame (keeps_of_onceStep honce).1
  · exact hsame (keeps_of_taskStep htask).1

/-- The datagrams taken from the socket. -/
theorem received_of_step {action : UdpServerAction Ω}
    (hstep : UdpServer.step server s action = some t) :
    t.received = s.received ++ action.taken := by
  rcases step_cases hstep with hloop | honce | ⟨id, act, rfl, htask⟩
  · exact (keeps_of_loopStep hloop).1
  · exact (keeps_of_onceStep honce).2.1
  · exact (keeps_of_taskStep htask).2.1.trans (List.append_nil _).symm

/-- The datagrams the socket took. -/
theorem output_of_step {action : UdpServerAction Ω}
    (hstep : UdpServer.step server s action = some t) :
    t.output = s.output ∨ ∃ id task payload, action = .task id (.sent (.ok ())) ∧
      s.tasks[id]? = some task ∧ task.phase = .sending payload ∧
      t.output = s.output ++ [(task.peer, payload)] := by
  rcases step_cases hstep with hloop | honce | ⟨id, act, rfl, htask⟩
  · exact .inl (keeps_of_loopStep hloop).2.1
  · exact .inl (keeps_of_onceStep honce).2.2
  · rcases (keeps_of_taskStep htask).2.2 with hsame | ⟨task, payload, rfl, hget, hphase, houtput⟩
    · exact .inl hsame
    · exact .inr ⟨id, task, payload, rfl, hget, hphase, houtput⟩

end UdpServer

/-! ## A server socket -/

/-- On every run at a server socket: a permit is free, with the loop, or with a running task, so no
more datagrams are in work than there are worker threads; no two tasks have one received datagram
between them; and each reply that was sent is the answer of a task of its own to its datagram, sent
to the sender of that. -/
theorem udp_server_runs {server : Server Ω} {workerThreads : ℕ} {s : UdpServer}
    (h : Runs (UdpServer.step server) (fun _ _ => True) (.initial workerThreads) s) :
    s.permits + s.loop.held + s.tasks.countP UdpTask.isRunning =
      workerThreadsPermits workerThreads ∧
    Multiset.ofList (s.tasks.map UdpTask.origin) ≤ Multiset.ofList s.received ∧
    ∃ ids : List ℕ, ids.Nodup ∧ List.Forall₂ (fun id sent => ∃ task, s.tasks[id]? = some task ∧
      sent.1 = task.peer ∧ task.Answers server sent.2) ids s.output := by
  have hserved := UdpServer.Served.of_runs h
  obtain ⟨ids, hdelivered⟩ := hserved.delivered
  refine ⟨hserved.permits, (Multiset.le_add_right _ _).trans hserved.datagrams, ids,
    hdelivered.nodup, hdelivered.replies.imp fun id sent hsent => ?_⟩
  obtain ⟨task, htask, -, hpeer, hanswers⟩ := hsent
  exact ⟨task, htask, hpeer, hanswers⟩

/-- A loop that serves goes on until its socket fails or it is dropped, whatever datagrams arrive,
and from every state it comes to serve any datagram that has an answer: one more datagram is
received, and its answer is sent. -/
theorem udp_server_answers {server : Server Ω} {workerThreads : ℕ} {s : UdpServer}
    (h : Runs (UdpServer.step server) (fun _ _ => True) (.initial workerThreads) s)
    (hserving : s.IsServing) :
    (∀ t, Runs (UdpServer.step server)
      (fun _ action => ¬ action.stopsLoop) s t → t.IsServing) ∧
    ∀ peer datagram payload,
      (⟨peer, recvUdpDatagram datagram, .spawned⟩ : UdpTask).Answers server payload →
      ∃ t more, Runs (UdpServer.step server) (UdpServer.Serves peer datagram) s t ∧
        t.received = s.received ++ [(peer, recvUdpDatagram datagram)] ∧
        t.output = s.output ++ more ++ [(peer, payload)] ∧ t.IsServing := by
  refine ⟨fun t hruns => hruns.invariant UdpServer.IsServing hserving
    fun hu hok hstep => hu.step hok hstep, fun peer datagram payload hanswers => ?_⟩
  obtain ⟨message, world, reply, hdecode, hreply, hencode⟩ := hanswers
  have hpos : 0 < workerThreadsPermits workerThreads :=
    Nat.lt_of_lt_of_le one_pos (le_max_right _ _)
  obtain ⟨u, hfirst, hloop, hreceived, more, houtput⟩ := UdpServer.exists_receiving
    (UdpServer.Served.of_runs h) hpos hserving peer datagram world
  -- The loop takes the datagram, and its task runs to its end.
  have hreceive : UdpServer.step server u (.receive peer datagram) = some
      { u.spawn peer (recvUdpDatagram datagram) with
        loop := .acquiring, received := u.received ++ [(peer, recvUdpDatagram datagram)] } := by
    simp only [UdpServer.step, UdpServer.loopStep, hloop]
  have htask : (u.tasks ++ [(⟨peer, recvUdpDatagram datagram, .spawned⟩ : UdpTask)])[
      u.tasks.length]? = some ⟨peer, recvUdpDatagram datagram, .spawned⟩ := by simp
  obtain ⟨t, hlast, hfreed, hsent⟩ := UdpServer.exists_finish_spawned server peer datagram world
    (s := { u.spawn peer (recvUdpDatagram datagram) with
      loop := .acquiring, received := u.received ++ [(peer, recvUdpDatagram datagram)] }) htask
  refine ⟨t, more, (hfirst.tail (a := .receive peer datagram) ⟨rfl, rfl⟩ hreceive).trans hlast,
    ?_, ?_, .inl hfreed.loop⟩
  · rw [hfreed.received, hreceived]
  · rw [hsent message reply payload hdecode hreply hencode, houtput]
    rfl

/-! ## A call of an unknown program -/

/-- The datagram of a call of a program that is not there. -/
def strayDatagram : Bytes :=
  [0, 0, 0, 7, 0, 0, 0, 0, 0, 0, 0, 2, 0, 0, 0, 3, 0, 0, 0, 1, 0, 0, 0, 0, 0, 0, 0, 0, 0, 0, 0, 0,
    0, 0, 0, 0, 0, 0, 0, 0]

/-- The datagram of the reply to it. -/
def strayReply : Bytes :=
  [0, 0, 0, 7, 0, 0, 0, 1, 0, 0, 0, 0, 0, 0, 0, 0, 0, 0, 0, 0, 0, 0, 0, 1]

/-- The loop answers the call and then takes a malformed datagram. -/
def strayActions : List (UdpServerAction Unit) :=
  [.serve, .acquire, .receive (.v4 1 700) strayDatagram, .task 0 .decode, .task 0 (.handle ()),
    .task 0 (.sent (.ok ())), .acquire, .receive (.v4 2 700) [0, 0], .task 1 .decode]

/-- A run in which one of two datagrams is answered. -/
theorem exists_stray_run :
    ∃ s, Trace (UdpServer.step (Server.empty : Server Unit)) (fun _ _ => True) (.initial 0)
      strayActions s ∧ (s.output, s.loop) = ([(.v4 1 700, strayReply)], .acquiring) :=
  @Trace.exists_of_runList _ _ _ _ _ (fun _ _ => true) _ _
    (fun s : UdpServer => (s.output, s.loop)) _ (fun _ _ _ => trivial) (by decide +kernel)

/-- The invariants, in the run that answers one of two datagrams. -/
theorem udp_server_runs_stray :
    ∃ s : UdpServer, s.output = [(.v4 1 700, strayReply)] ∧
      s.permits + s.loop.held + s.tasks.countP UdpTask.isRunning = 1 := by
  obtain ⟨s, htrace, hview⟩ := exists_stray_run
  exact ⟨s, congrArg Prod.fst hview, (udp_server_runs htrace.runs).1⟩

/-- Progress, in the run that answers one of two datagrams. -/
theorem udp_server_answers_stray :
    ∃ t : UdpServer, ∃ more, t.output =
      [(.v4 1 700, strayReply)] ++ more ++ [(.v6 1 111 0 0, strayReply)] := by
  obtain ⟨s, htrace, hview⟩ := exists_stray_run
  have hserving : s.IsServing := .inl (congrArg Prod.snd hview)
  have hanswers : (⟨.v6 1 111 0 0, recvUdpDatagram strayDatagram, .spawned⟩ : UdpTask).Answers
      (Server.empty : Server Unit) strayReply := by
    refine ⟨⟨7, .call ⟨2, ⟨3, 1⟩, 0, .none, .none, []⟩⟩, (),
      ⟨7, .reply programUnavailableReply⟩, ?_, ?_, ?_⟩ <;> decide +kernel
  obtain ⟨t, more, -, -, houtput, -⟩ := (udp_server_answers htrace.runs hserving).2
    (.v6 1 111 0 0) strayDatagram strayReply hanswers
  rw [show s.output = [(.v4 1 700, strayReply)] from congrArg Prod.fst hview] at houtput
  exact ⟨t, more, houtput⟩

end OncRpc
