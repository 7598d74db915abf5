import OncRpc.Server.Connection

/-!
# The replies of a server

Whatever the order in which the workers of a connection run, the stream receives whole records one
after the other, one for each call that was decoded, with the reply computed for that call.

`Decoded` relates the workers to the records read from the stream, `WorkerInv` says what a worker
writes, and `OutputInv` what the stream has received: the frames of the workers that are through, in
some order, and then a part of the frame of the one that holds the writer.  `server_replies` puts
the three together.
-/

namespace OncRpc

open Foundation

variable {Ω : Type}

/-! ## What is sent -/

/-- The reply the worker has written whole. -/
def WorkerPhase.sent : WorkerPhase → Option RpcMessage
  | .releasing (.ok reply) | .done (some (.ok reply)) => some reply
  | _ => none

/-- The worker holds the writer. -/
def WorkerPhase.holdsWriter : WorkerPhase → Bool
  | .writing _ _ | .releasing _ => true
  | _ => false

/-- The worker is over. -/
def WorkerPhase.isDone : WorkerPhase → Bool
  | .done _ => true
  | _ => false

/-- The bytes a reply is written as. -/
def frameOf (reply : RpcMessage) : Bytes :=
  match writeRpcMessage reply with
  | .ok writes => writes.flatten
  | .error _ => []

/-- The reply a service gives to a message. -/
def Service.Answers (service : Service Ω) (message reply : RpcMessage) : Prop :=
  service.intercept message = some reply ∨
    service.intercept message = none ∧ ∃ world,
      service.server.handleMessageWithPeerAddr world message service.peerAddr = .ok reply

/-- The step is the stream's failure to take bytes. -/
def ServerAction.fails : ServerAction Ω → Bool
  | .worker _ (.fail _) => true
  | _ => false

namespace ServerConn

/-- The phase of a worker. -/
def phaseOf (s : ServerConn) (id : ℕ) : Option WorkerPhase := (s.workers[id]?).map Worker.phase

/-- The reply a worker has written whole. -/
def sentBy (s : ServerConn) (id : ℕ) : Option RpcMessage := (s.phaseOf id).bind WorkerPhase.sent

/-- The frame of a worker that is through. -/
def frameAt (s : ServerConn) (id : ℕ) : Bytes := ((s.sentBy id).map frameOf).getD []

/-- The stream takes what is written to it. -/
def Writes (_ : ServerConn) (action : ServerAction Ω) : Prop := action.fails = false

/-! ## What a step does -/

/-- The steps of a worker, without those of a stream that fails. -/
inductive WorkerMoves (service : Service Ω) (lock : Option ℕ) (message : RpcMessage) :
    WorkerPhase → WorkerPhase → WriterEffect → Prop
  | handled {world : Ω} {reply : RpcMessage}
    (hreply : service.server.handleMessageWithPeerAddr world message service.peerAddr = .ok reply) :
    WorkerMoves service lock message .handling (.locking reply) .none
  | refused {world : Ω} {error : ServerError}
    (herror : service.server.handleMessageWithPeerAddr world message service.peerAddr =
      .error error) : WorkerMoves service lock message .handling (.done none) .none
  | locked {reply : RpcMessage} {left : List Bytes} (hfree : lock = none)
    (hleft : writeRpcMessage reply = .ok left) :
    WorkerMoves service lock message (.locking reply) (.writing reply left) .lock
  | unwritable {reply : RpcMessage} {error : RuntimeError} (hfree : lock = none)
    (herror : writeRpcMessage reply = .error error) :
    WorkerMoves service lock message (.locking reply) (.releasing (.error error)) .lock
  | accepted {reply : RpcMessage} {buffer : Bytes} {left : List Bytes} {count : ℕ} :
    WorkerMoves service lock message (.writing reply (buffer :: left))
      (.writing reply (buffer.drop count :: left)) (.accept (buffer.take count))
  | next {reply : RpcMessage} {left : List Bytes} :
    WorkerMoves service lock message (.writing reply ([] :: left)) (.writing reply left) .none
  | flushed {reply : RpcMessage} :
    WorkerMoves service lock message (.writing reply []) (.releasing (.ok reply)) .none
  | released {result : Except RuntimeError RpcMessage} :
    WorkerMoves service lock message (.releasing result) (.done (some result)) .unlock

variable {service : Service Ω} {s s' : ServerConn} {action : ServerAction Ω}

theorem workerMoves_of_phase {message : RpcMessage} {phase phase' : WorkerPhase}
    {act : WorkerAction Ω} {effect : WriterEffect} (hact : ∀ error, act ≠ .fail error)
    (h : workerPhase service s.lock.isNone message phase act = some (phase', effect)) :
    WorkerMoves service s.lock message phase phase' effect := by
  unfold workerPhase at h
  split at h
  · split at h
    · next hreply =>
      cases h
      exact .handled hreply
    · next herror =>
      cases h
      exact .refused herror
  · split_ifs at h with hfree
    rw [Option.isNone_iff_eq_none] at hfree
    split at h
    · next hleft =>
      cases h
      exact .locked hfree hleft
    · next herror =>
      cases h
      exact .unwritable hfree herror
  · split_ifs at h
    cases h
    exact .accepted
  · cases h
    exact .next
  · cases h
    exact .flushed
  · exact absurd rfl (hact _)
  · cases h
    exact .released
  · cases h

/-- A step of the loop adds at most a worker that has written nothing; any other step is one of a
worker, whether the stream takes what it writes or not. -/
theorem step_shape (h : s.step service action = some s') :
    (s'.lock = s.lock ∧ s'.output = s.output ∧
      (s'.workers = s.workers ∨
        (∃ message buffer, s.loop = .spawning message buffer ∧
          s'.workers = s.workers ++ [⟨message, .handling⟩]) ∨
        ∃ message reply, service.intercept message = some reply ∧
          s'.workers = s.workers ++ [⟨message, .locking reply⟩])) ∨
    (s'.loop = s.loop ∧ s'.input = s.input ∧ ∃ id worker act phase effect,
      action = .worker id act ∧ s.workers[id]? = some worker ∧
      workerPhase service s.lock.isNone worker.message worker.phase act = some (phase, effect) ∧
      s' = { s.apply id effect with workers := s.workers.set id { worker with phase := phase } }) :=
        by
  rcases action with _ | _ | _ | result | ⟨id, act⟩
  · left
    simp only [step, decode] at h
    split at h
    · split at h
      · cases h
        exact ⟨rfl, rfl, .inl rfl⟩
      · cases h
        exact ⟨rfl, rfl, .inl rfl⟩
      · split at h
        · next reply hreply =>
          cases h
          exact ⟨rfl, rfl, .inr (.inr ⟨_, reply, hreply, rfl⟩)⟩
        · cases h
          exact ⟨rfl, rfl, .inl rfl⟩
    · cases h
  · left
    simp only [step, spawn] at h
    split at h
    · next hloop =>
      cases h
      exact ⟨rfl, rfl, .inr (.inl ⟨_, _, hloop, rfl⟩)⟩
    · cases h
  · left
    simp only [step, resume] at h
    split at h
    · split at h
      · cases h
        exact ⟨rfl, rfl, .inl rfl⟩
      · cases h
        exact ⟨rfl, rfl, .inl rfl⟩
      · cases h
    · cases h
  · left
    simp only [step, read] at h
    split at h
    · split_ifs at h
      cases h
      exact ⟨rfl, rfl, .inl rfl⟩
    · cases h
      exact ⟨rfl, rfl, .inl rfl⟩
    · cases h
      exact ⟨rfl, rfl, .inl rfl⟩
    · cases h
  · right
    simp only [step, workerStep] at h
    obtain ⟨worker, hworker, hmap⟩ := Option.bind_eq_some_iff.mp h
    obtain ⟨⟨phase, effect⟩, hphase, rfl⟩ := Option.map_eq_some_iff.mp hmap
    refine ⟨?_, ?_, id, worker, act, phase, effect, rfl, hworker, hphase, rfl⟩
    · cases effect <;> rfl
    · cases effect <;> rfl

/-- The steps of a stream that takes what is written to it. -/
theorem step_cases (hok : s.Writes action) (h : s.step service action = some s') :
    (s'.lock = s.lock ∧ s'.output = s.output ∧
      (s'.workers = s.workers ∨
        (∃ message buffer, s.loop = .spawning message buffer ∧
          s'.workers = s.workers ++ [⟨message, .handling⟩]) ∨
        ∃ message reply, service.intercept message = some reply ∧
          s'.workers = s.workers ++ [⟨message, .locking reply⟩])) ∨
    (s'.loop = s.loop ∧ s'.input = s.input ∧ ∃ id worker phase effect,
      s.workers[id]? = some worker ∧
      WorkerMoves service s.lock worker.message worker.phase phase effect ∧
      s' = { s.apply id effect with workers := s.workers.set id { worker with phase := phase } }) :=
        by
  rcases step_shape h with hloop | ⟨hloop, hinput, id, worker, act, phase, effect, rfl, hworker,
    hphase, hset⟩
  · exact .inl hloop
  · have hact : ∀ error, act ≠ .fail error := by
      rintro error rfl
      cases hok
    exact .inr ⟨hloop, hinput, id, worker, phase, effect, hworker, workerMoves_of_phase hact hphase,
      hset⟩

end ServerConn

/-! ## Where the messages come from -/

/-- The bytes the loop has read and not decoded. -/
def LoopPhase.buffer : LoopPhase → Option Bytes
  | .decoding buffer | .spawning _ buffer | .replying _ buffer | .reading buffer => some buffer
  | .ended _ => none

/-- The message that waits for a worker. -/
def LoopPhase.waiting : LoopPhase → Option RpcMessage
  | .spawning message _ => some message
  | _ => none

namespace ServerConn

variable {service : Service Ω} {s s' : ServerConn} {action : ServerAction Ω} {start : Bytes}

/-- The messages that were decoded, in order. -/
def messages (s : ServerConn) : List RpcMessage :=
  s.workers.map Worker.message ++ s.loop.waiting.toList

/-- What was handed to the loop and read from the stream is the records of the messages, and then
the buffer. -/
structure Decoded (service : Service Ω) (start : Bytes) (s : ServerConn) : Prop where
  records : ∃ (records : List Record) (rest : Bytes),
    start ++ s.input = (records.map Record.bytes).flatten ++ rest ∧
    List.Forall₂ (fun r message => RpcMessage.decode r.data = .ok message) records s.messages ∧
    ∀ buffer, s.loop.buffer = some buffer → buffer = rest
  waiting : ∀ message, s.loop.waiting = some message → service.intercept message = none

theorem Decoded.initial (service : Service Ω) (start : Bytes) :
    Decoded service start (ServerConn.initial start) := by
  refine ⟨⟨[], start, by simp [ServerConn.initial], .nil, ?_⟩, nofun⟩
  intro buffer hbuffer
  exact (Option.some.inj hbuffer).symm

/-- A loop that keeps its messages and its buffer. -/
theorem Decoded.keep (h : Decoded service start s) (hmessages : s'.messages = s.messages)
    (hinput : s'.input = s.input)
    (hbuffer : ∀ buffer, s'.loop.buffer = some buffer → s.loop.buffer = some buffer)
    (hwaiting : ∀ message, s'.loop.waiting = some message → s.loop.waiting = some message) :
    Decoded service start s' := by
  obtain ⟨⟨records, rest, hbytes, hdecode, hrest⟩, hnone⟩ := h
  refine ⟨⟨records, rest, ?_, ?_, fun buffer hb => hrest buffer (hbuffer buffer hb)⟩,
    fun message hm => hnone message (hwaiting message hm)⟩
  · rw [hinput, hbytes]
  · rw [hmessages]
    exact hdecode

/-- A loop that decodes one more message. -/
theorem Decoded.more (h : Decoded service start s) {buffer left : Bytes} {message : RpcMessage}
    {r : Record} (hloop : s.loop.buffer = some buffer) (hbuffer : buffer = r.bytes ++ left)
    (hmessage : RpcMessage.decode r.data = .ok message)
    (hmessages : s'.messages = s.messages ++ [message]) (hinput : s'.input = s.input)
    (hleft : s'.loop.buffer = some left)
    (hwaiting : ∀ message, s'.loop.waiting = some message → service.intercept message = none) :
    Decoded service start s' := by
  obtain ⟨⟨records, rest, hbytes, hdecode, hrest⟩, -⟩ := h
  refine ⟨⟨records ++ [r], left, ?_, ?_, ?_⟩, hwaiting⟩
  · rw [hinput, hbytes, ← hrest buffer hloop, hbuffer]
    simp
  · rw [hmessages]
    exact List.rel_append hdecode (.cons hmessage .nil)
  · intro buffer' hb
    rw [hleft] at hb
    exact (Option.some.inj hb).symm

/-- The message of a worker is the one decoded under its number. -/
theorem message_of_worker (s : ServerConn) {id : ℕ} {worker : Worker}
    (h : s.workers[id]? = some worker) : s.messages[id]? = some worker.message := by
  obtain ⟨hlt, hget⟩ := List.getElem?_eq_some_iff.mp h
  rw [messages, List.getElem?_append_left (by simpa using hlt), List.getElem?_map, h]
  rfl

/-- A worker keeps its message. -/
theorem map_message_set {workers : List Worker} {id : ℕ} {worker : Worker} {phase : WorkerPhase}
    (h : workers[id]? = some worker) :
    (workers.set id { worker with phase := phase }).map Worker.message =
      workers.map Worker.message := by
  obtain ⟨hlt, hget⟩ := List.getElem?_eq_some_iff.mp h
  have hlt' : id < (workers.map Worker.message).length := by simpa using hlt
  have hmessage : worker.message = (workers.map Worker.message)[id] := by
    rw [List.getElem_map, hget]
  rw [List.map_set]
  simp only [hmessage, List.set_getElem_self]

/-- Every step keeps the relation. -/
theorem Decoded.step (h : Decoded service start s) (hstep : s.step service action = some s') :
    Decoded service start s' := by
  rcases action with _ | _ | _ | result | ⟨id, act⟩
  · simp only [ServerConn.step, decode] at hstep
    split at hstep
    · next buffer hloop =>
      have hbuffer : s.loop.buffer = some buffer := by rw [hloop]; rfl
      split at hstep
      · cases hstep
        exact h.keep (by simp [messages, hloop, LoopPhase.waiting]) rfl (by intros; contradiction)
          (by intros; contradiction)
      · next left hfound =>
        cases hstep
        rcases tryDecodeMessageFromBuffer_ok hfound with ⟨-, rfl⟩ | ⟨_, _, hsome, -⟩
        · refine h.keep (by simp [messages, hloop, LoopPhase.waiting]) rfl ?_
            (by intros; contradiction)
          intro buffer' hb
          rwa [hloop]
        · cases hsome
      · next message left hfound =>
        rcases tryDecodeMessageFromBuffer_ok hfound with ⟨hnone, -⟩
          | ⟨message', r, hsome, heq, hdecode⟩
        · cases hnone
        · cases hsome
          split at hstep
          · cases hstep
            refine h.more hbuffer heq hdecode ?_ rfl rfl (by intros; contradiction)
            simp [messages, hloop, LoopPhase.waiting]
          · next hnone =>
            cases hstep
            refine h.more hbuffer heq hdecode ?_ rfl rfl ?_
            · simp [messages, hloop, LoopPhase.waiting]
            · intro other hother
              cases hother
              exact hnone
    · cases hstep
  · simp only [ServerConn.step, spawn] at hstep
    split at hstep
    · next message buffer hloop =>
      cases hstep
      refine h.keep ?_ rfl ?_ (by intros; contradiction)
      · simp [messages, hloop, LoopPhase.waiting]
      · intro buffer' hb
        rwa [hloop]
    · cases hstep
  · simp only [ServerConn.step, resume] at hstep
    split at hstep
    · next id buffer hloop =>
      split at hstep
      · cases hstep
        refine h.keep (by simp [messages, hloop, LoopPhase.waiting]) rfl ?_
          (by intros; contradiction)
        intro buffer' hb
        rwa [hloop]
      · cases hstep
        exact h.keep (by simp [messages, hloop, LoopPhase.waiting]) rfl (by intros; contradiction)
          (by intros; contradiction)
      · cases hstep
    · cases hstep
  · simp only [ServerConn.step, read] at hstep
    split at hstep
    · next buffer chunk hloop =>
      split_ifs at hstep
      cases hstep
      obtain ⟨⟨records, rest, hbytes, hdecode, hrest⟩, -⟩ := h
      refine ⟨⟨records, rest ++ chunk, ?_, ?_, ?_⟩, by intros; contradiction⟩
      · rw [← List.append_assoc, hbytes, List.append_assoc]
      · simpa [messages, hloop, LoopPhase.waiting] using hdecode
      · intro buffer' hb
        rw [← hrest buffer (by rw [hloop]; rfl)]
        exact (Option.some.inj hb).symm
    · next hloop =>
      cases hstep
      exact h.keep (by simp [messages, hloop, LoopPhase.waiting]) rfl (by intros; contradiction)
        (by intros; contradiction)
    · next hloop =>
      cases hstep
      refine h.keep (by simp [messages, hloop, LoopPhase.waiting]) rfl (by intros; contradiction)
        (by intros; contradiction)
    · cases hstep
  · simp only [ServerConn.step, workerStep] at hstep
    obtain ⟨worker, hworker, hmap⟩ := Option.bind_eq_some_iff.mp hstep
    obtain ⟨⟨phase, effect⟩, -, rfl⟩ := Option.map_eq_some_iff.mp hmap
    have hloop : (s.apply id effect).loop = s.loop := by cases effect <;> rfl
    have hinput : (s.apply id effect).input = s.input := by cases effect <;> rfl
    refine h.keep ?_ hinput (fun buffer hb => hloop ▸ hb) (fun message hm => hloop ▸ hm)
    simp only [messages, hloop, map_message_set hworker]

end ServerConn

/-! ## What a worker writes -/

/-- A worker writes the reply to its message, and nothing if its message is a reply. -/
def Worker.Serves (service : Service Ω) (worker : Worker) : Prop :=
  match worker.phase with
  | .handling => service.intercept worker.message = none
  | .locking reply | .writing reply _ | .releasing (.ok reply) | .done (some (.ok reply)) =>
    service.Answers worker.message reply
  | .releasing (.error _) | .done (some (.error _)) => False
  | .done none =>
    service.intercept worker.message = none ∧ ∃ body, worker.message.body = .reply body

namespace ServerConn

variable {service : Service Ω} {s s' : ServerConn} {action : ServerAction Ω} {start : Bytes}

/-- A step of a worker keeps what it writes. -/
theorem WorkerMoves.serves {lock : Option ℕ} {worker : Worker} {phase : WorkerPhase}
    {effect : WriterEffect}
    (hfits : ∀ message reply, service.Answers message reply → reply.Fits)
    (hworker : worker.Serves service)
    (h : WorkerMoves service lock worker.message worker.phase phase effect) :
    Worker.Serves service { worker with phase := phase } := by
  obtain ⟨message, before⟩ := worker
  simp only at h
  cases h with
  | handled hreply => exact .inr ⟨hworker, _, hreply⟩
  | refused herror =>
    exact ⟨hworker, Server.handleMessageWithPeerAddr_error_iff.mp ⟨_, herror⟩⟩
  | unwritable hfree herror =>
    obtain ⟨writes, -, hwrites, -⟩ := writeRpcMessage_eq (hfits _ _ hworker)
    rw [hwrites] at herror
    cases herror
  | @released result =>
    cases result with
    | ok reply => exact hworker
    | error error => exact hworker
  | locked | accepted | next | flushed => exact hworker

/-- What every worker writes, over a step of the connection. -/
theorem serves_step (hfits : ∀ message reply, service.Answers message reply → reply.Fits)
    (hdecoded : Decoded service start s) (h : ∀ worker ∈ s.workers, worker.Serves service)
    (hok : s.Writes action) (hstep : s.step service action = some s') :
    ∀ worker ∈ s'.workers, worker.Serves service := by
  rcases step_cases hok hstep with ⟨-, -, hsame | ⟨message, buffer, hloop, hnew⟩ |
    ⟨message, reply, hreply, hnew⟩⟩ | ⟨-, -, id, worker, phase, effect, hworker, hmove, rfl⟩
  · rwa [hsame]
  · rw [hnew]
    intro worker hmem
    rcases List.mem_append.mp hmem with hold | hlast
    · exact h worker hold
    · rw [List.mem_singleton.mp hlast]
      exact hdecoded.waiting message (by rw [hloop]; rfl)
  · rw [hnew]
    intro worker hmem
    rcases List.mem_append.mp hmem with hold | hlast
    · exact h worker hold
    · rw [List.mem_singleton.mp hlast]
      exact .inl hreply
  · intro other hmem
    rcases List.mem_or_eq_of_mem_set hmem with hold | rfl
    · exact h other hold
    · exact hmove.serves hfits (h worker (List.mem_of_getElem? hworker))

end ServerConn

/-- The reply a worker has sent is the reply to its message. -/
theorem Worker.answers_of_sent {service : Service Ω} {worker : Worker} {reply : RpcMessage}
    (h : worker.Serves service) (hsent : worker.phase.sent = some reply) :
    service.Answers worker.message reply := by
  obtain ⟨message, phase⟩ := worker
  rcases phase with _ | _ | _ | (_ | _) | (_ | _ | _)
  all_goals cases hsent
  all_goals exact h

/-- A worker for a call that is over has sent a reply. -/
theorem Worker.sent_of_isDone {service : Service Ω} {worker : Worker} {call : CallBody}
    (h : worker.Serves service) (hdone : worker.phase.isDone = true)
    (hcall : worker.message.body = .call call) : worker.phase.sent.isSome = true := by
  obtain ⟨message, phase⟩ := worker
  rcases phase with _ | _ | _ | _ | (_ | _ | reply)
  all_goals try cases hdone
  · obtain ⟨-, body, hbody⟩ := h
    rw [show message.body = _ from hcall] at hbody
    cases hbody
  · exact h.elim
  · rfl

/-! ## What the stream receives -/

/-- The worker is inside its frame. -/
def WorkerPhase.isWriting : WorkerPhase → Bool
  | .writing _ _ => true
  | _ => false

/-- What a worker inside its frame is writing. -/
theorem WorkerPhase.of_isWriting {phase : WorkerPhase} (h : phase.isWriting = true) :
    ∃ reply left, phase = .writing reply left := by
  cases phase with
  | writing reply left => exact ⟨reply, left, rfl⟩
  | _ => cases h

namespace ServerConn

variable {service : Service Ω} {s s' : ServerConn} {action : ServerAction Ω} {id : ℕ}

/-- The worker that holds the lock is the one that writes or is about to release it. -/
def LockInv (s : ServerConn) : Prop :=
  ∀ id, (∃ phase, s.phaseOf id = some phase ∧ phase.holdsWriter = true) ↔ s.lock = some id

/-- The stream received the frames of the workers that are through, and then what the worker inside
its frame has written so far. -/
structure Received (s : ServerConn) (order : List ℕ) (tail : Bytes) : Prop where
  nodup : order.Nodup
  through : ∀ id, id ∈ order ↔ (s.sentBy id).isSome = true
  output : s.output = (order.map s.frameAt).flatten ++ tail
  inside : ∀ id reply left, s.phaseOf id = some (.writing reply left) →
    frameOf reply = tail ++ left.flatten
  outside : (∀ id phase, s.phaseOf id = some phase → phase.isWriting = false) → tail = []

/-- The reply of a worker after one of them changed its phase. -/
theorem sentBy_update {phase : WorkerPhase}
    (h : s'.phaseOf = Function.update s.phaseOf id (some phase)) :
    s'.sentBy = Function.update s.sentBy id phase.sent := by
  funext other
  by_cases hother : other = id
  · subst hother
    simp [sentBy, h]
  · simp [sentBy, h, Function.update_of_ne hother]

/-- The worker that has sent a reply. -/
theorem worker_of_sent (s : ServerConn) (h : (s.sentBy id).isSome = true) :
    ∃ worker reply, s.workers[id]? = some worker ∧ worker.phase.sent = some reply := by
  obtain ⟨reply, hreply⟩ := Option.isSome_iff_exists.mp h
  obtain ⟨phase, hphase, hsent⟩ := Option.bind_eq_some_iff.mp hreply
  obtain ⟨worker, hworker, rfl⟩ := Option.map_eq_some_iff.mp hphase
  exact ⟨worker, reply, hworker, hsent⟩

/-- A worker that has sent the same before and after. -/
theorem sentBy_same {phase : WorkerPhase}
    (h : s'.phaseOf = Function.update s.phaseOf id (some phase))
    (hsent : phase.sent = s.sentBy id) : s'.sentBy = s.sentBy := by
  rw [sentBy_update h, hsent, Function.update_eq_self]

theorem frameAt_congr (h : s'.sentBy = s.sentBy) : s'.frameAt = s.frameAt := by
  funext other
  simp only [frameAt, h]

/-- A step outside of all frames that adds nothing to what was sent. -/
theorem Received.quiet {order : List ℕ} {tail : Bytes} (h : s.Received order tail)
    {phase : WorkerPhase} (hphase : s'.phaseOf = Function.update s.phaseOf id (some phase))
    (hsent : phase.sent = s.sentBy id) (houtput : s'.output = s.output)
    (hbefore : ∀ phase, s.phaseOf id = some phase → phase.isWriting = false)
    (hafter : phase.isWriting = false) : s'.Received order tail := by
  have hsame := sentBy_same hphase hsent
  refine ⟨h.nodup, ?_, ?_, ?_, ?_⟩
  · rw [hsame]
    exact h.through
  · rw [houtput, frameAt_congr hsame]
    exact h.output
  · intro other reply left hother
    by_cases hid : other = id
    · rw [hphase, hid, Function.update_self] at hother
      rw [Option.some.inj hother] at hafter
      cases hafter
    · rw [hphase, Function.update_of_ne hid] at hother
      exact h.inside other reply left hother
  · intro hnone
    refine h.outside fun other phase' hother => ?_
    by_cases hid : other = id
    · exact hbefore phase' (hid ▸ hother)
    · refine hnone other phase' ?_
      rwa [hphase, Function.update_of_ne hid]

/-- The phase of a worker that does not hold the writer. -/
theorem LockInv.not_holds (h : s.LockInv) {other : ℕ} {phase : WorkerPhase}
    (hother : s.phaseOf other = some phase) (hne : s.lock ≠ some other) :
    phase.holdsWriter = false := by
  by_contra hholds
  exact hne ((h other).mp ⟨phase, hother, Bool.not_eq_false _ ▸ hholds⟩)

theorem holdsWriter_of_isWriting {phase : WorkerPhase} (h : phase.holdsWriter = false) :
    phase.isWriting = false := by
  cases phase <;> first | rfl | cases h

/-- The lock after one worker changed its phase. -/
theorem LockInv.update (h : s.LockInv) {phase : WorkerPhase}
    (hphase : s'.phaseOf = Function.update s.phaseOf id (some phase))
    (hothers : ∀ other, other ≠ id → (s'.lock = some other ↔ s.lock = some other))
    (hown : phase.holdsWriter = true ↔ s'.lock = some id) : s'.LockInv := by
  intro other
  by_cases hid : other = id
  · subst hid
    rw [hphase, Function.update_self]
    constructor
    · rintro ⟨phase', heq, hholds⟩
      rw [← Option.some.inj heq] at hholds
      exact hown.mp hholds
    · intro hlock
      exact ⟨phase, rfl, hown.mpr hlock⟩
  · rw [hphase, Function.update_of_ne hid, h other]
    exact (hothers other hid).symm

/-- A step inside a frame, or into one, while no other worker is inside its own. -/
theorem Received.write {order : List ℕ} {tail chunk : Bytes} (h : s.Received order tail)
    {reply : RpcMessage} {left : List Bytes}
    (hphase : s'.phaseOf = Function.update s.phaseOf id (some (.writing reply left)))
    (hsent : s.sentBy id = none) (houtput : s'.output = s.output ++ chunk)
    (hframe : frameOf reply = tail ++ chunk ++ left.flatten)
    (hothers : ∀ other, other ≠ id → ∀ phase, s.phaseOf other = some phase →
      phase.isWriting = false) : s'.Received order (tail ++ chunk) := by
  have hsame := sentBy_same hphase hsent.symm
  refine ⟨h.nodup, ?_, ?_, ?_, ?_⟩
  · rw [hsame]
    exact h.through
  · rw [houtput, h.output, frameAt_congr hsame, List.append_assoc]
  · intro other reply' left' hother
    by_cases hid : other = id
    · rw [hphase, hid, Function.update_self] at hother
      cases hother
      exact hframe
    · rw [hphase, Function.update_of_ne hid] at hother
      cases hothers other hid _ hother
  · intro hnone
    cases hnone id _ (by rw [hphase, Function.update_self])

/-- The step out of a frame. -/
theorem Received.leave {order : List ℕ} {tail : Bytes} (h : s.Received order tail)
    {reply : RpcMessage} (hbefore : s.phaseOf id = some (.writing reply []))
    (hphase : s'.phaseOf = Function.update s.phaseOf id (some (.releasing (.ok reply))))
    (houtput : s'.output = s.output)
    (hothers : ∀ other, other ≠ id → ∀ phase, s.phaseOf other = some phase →
      phase.isWriting = false) : s'.Received (order ++ [id]) [] := by
  have hsent : s'.sentBy = Function.update s.sentBy id (some reply) := sentBy_update hphase
  have hnone : s.sentBy id = none := by rw [sentBy, hbefore]; rfl
  have hfresh : id ∉ order := by
    rw [h.through, hnone]
    exact Bool.false_ne_true
  have hframe := h.inside id reply [] hbefore
  have hframes : order.map s'.frameAt = order.map s.frameAt := by
    refine List.map_congr_left fun other hother => ?_
    have hne : other ≠ id := fun heq => hfresh (heq ▸ hother)
    simp only [frameAt, hsent, Function.update_of_ne hne]
  refine ⟨?_, ?_, ?_, ?_, fun _ => rfl⟩
  · rw [List.nodup_append]
    refine ⟨h.nodup, List.nodup_singleton id, ?_⟩
    intro other hother last hlast
    rw [List.mem_singleton.mp hlast]
    exact fun heq => hfresh (heq ▸ hother)
  · intro other
    rw [List.mem_append, List.mem_singleton, hsent]
    by_cases hid : other = id
    · subst hid
      simp
    · rw [Function.update_of_ne hid, h.through]
      simp [hid]
  · have hown : s'.frameAt id = tail := by
      simpa [frameAt, hsent, Function.update_self] using hframe
    rw [houtput, h.output]
    simp [hframes, hown]
  · intro other reply' left' hother
    by_cases hid : other = id
    · rw [hphase, hid, Function.update_self] at hother
      cases hother
    · rw [hphase, Function.update_of_ne hid] at hother
      cases hothers other hid _ hother

/-- What the stream received is described by some order of the workers that are through. -/
def OutputInv (s : ServerConn) : Prop := s.LockInv ∧ ∃ order tail, s.Received order tail

/-- A step of a worker: the lock, the frames and the part of a frame that the stream received. -/
theorem OutputInv.worker (h : s.OutputInv) {worker : Worker} {phase : WorkerPhase}
    {effect : WriterEffect} (hworker : s.phaseOf id = some worker.phase)
    (hmove : WorkerMoves service s.lock worker.message worker.phase phase effect)
    (hphase : s'.phaseOf = Function.update s.phaseOf id (some phase))
    (hlock : s'.lock = (s.apply id effect).lock)
    (houtput : s'.output = (s.apply id effect).output) : s'.OutputInv := by
  obtain ⟨hlocked, order, tail, hreceived⟩ := h
  have hsent : s.sentBy id = worker.phase.sent := by rw [sentBy, hworker]; rfl
  have hown := hlocked id
  simp only [hworker, Option.some.injEq, exists_eq_left'] at hown
  -- While one worker is inside its frame, no other is.
  have hsole : worker.phase.holdsWriter = true → ∀ other, other ≠ id → ∀ phase',
      s.phaseOf other = some phase' → phase'.isWriting = false := by
    intro hholds other hne phase' hother
    refine holdsWriter_of_isWriting (hlocked.not_holds hother ?_)
    rw [hown.mp hholds]
    exact fun heq => hne (Option.some.inj heq).symm
  obtain ⟨message, before⟩ := worker
  simp only at hmove hworker hsent hown hsole
  have hbefore : before.isWriting = false → ∀ phase', s.phaseOf id = some phase' →
      phase'.isWriting = false := by
    intro hfalse phase' hphase'
    rw [hworker] at hphase'
    exact Option.some.inj hphase' ▸ hfalse
  cases hmove with
  | handled hreply | refused herror =>
    refine ⟨hlocked.update hphase (fun other _ => by rw [hlock]; rfl) ?_, order, tail,
      hreceived.quiet hphase hsent.symm houtput (hbefore rfl) rfl⟩
    rw [hlock]
    exact hown
  | @released result =>
    have hheld : s.lock = some id := hown.mp rfl
    refine ⟨hlocked.update hphase (fun other hne => ?_) ?_, order, tail,
      hreceived.quiet hphase (hsent.symm ▸ ?_) houtput (hbefore rfl) rfl⟩
    · rw [hlock, hheld]
      simpa [apply] using hne.symm
    · rw [hlock]
      exact ⟨nofun, nofun⟩
    · cases result <;> rfl
  | unwritable hfree herror =>
    refine ⟨hlocked.update hphase (fun other hne => ?_) ?_, order, tail,
      hreceived.quiet hphase hsent.symm houtput (hbefore rfl) rfl⟩
    · rw [hlock, hfree]
      simpa [apply] using hne.symm
    · rw [hlock]
      exact ⟨fun _ => rfl, fun _ => rfl⟩
  | @locked reply left hfree hleft =>
    have hidle : ∀ other phase', s.phaseOf other = some phase' → phase'.isWriting = false := by
      intro other phase' hother
      refine holdsWriter_of_isWriting (hlocked.not_holds hother ?_)
      rw [hfree]
      nofun
    have htail := hreceived.outside hidle
    refine ⟨hlocked.update hphase (fun other hne => ?_) ?_, order, tail ++ [],
      hreceived.write hphase hsent ?_ ?_ fun other _ => hidle other⟩
    · rw [hlock, hfree]
      simpa [apply] using hne.symm
    · rw [hlock]
      exact ⟨fun _ => rfl, fun _ => rfl⟩
    · rw [houtput, List.append_nil]
      rfl
    · rw [htail, frameOf, hleft]
      rfl
  | @accepted reply buffer left count =>
    have hframe := hreceived.inside id reply (buffer :: left) hworker
    refine ⟨hlocked.update hphase (fun other _ => by rw [hlock]; rfl) ?_, order,
      tail ++ buffer.take count, hreceived.write hphase hsent houtput ?_ (hsole rfl)⟩
    · rw [hlock]
      exact hown
    · rw [hframe, List.flatten_cons, List.flatten_cons, List.append_assoc,
        ← List.append_assoc (buffer.take count), List.take_append_drop]
  | @next reply left =>
    have hframe := hreceived.inside id reply ([] :: left) hworker
    refine ⟨hlocked.update hphase (fun other _ => by rw [hlock]; rfl) ?_, order, tail ++ [],
      hreceived.write hphase hsent ?_ ?_ (hsole rfl)⟩
    · rw [hlock]
      exact hown
    · rw [houtput, List.append_nil]
      rfl
    · rw [hframe, List.flatten_cons, List.nil_append, List.append_nil]
  | @flushed reply =>
    refine ⟨hlocked.update hphase (fun other _ => by rw [hlock]; rfl) ?_, order ++ [id], [],
      hreceived.leave hworker hphase houtput (hsole rfl)⟩
    rw [hlock]
    exact hown

/-- The phases after a worker was added. -/
theorem phaseOf_append {worker : Worker} (h : s'.workers = s.workers ++ [worker]) :
    s'.phaseOf = Function.update s.phaseOf s.workers.length (some worker.phase) := by
  funext other
  by_cases hother : other = s.workers.length
  · rw [hother, Function.update_self, phaseOf, h, List.getElem?_concat_length]
    rfl
  · rw [Function.update_of_ne hother, phaseOf, phaseOf, h]
    rcases Nat.lt_or_gt_of_ne hother with hlt | hgt
    · rw [List.getElem?_append_left hlt]
    · have hout : s.workers.length + 1 ≤ other := hgt
      rw [List.getElem?_eq_none (by simpa using hout), List.getElem?_eq_none (by omega)]

/-- The phases after a step of a worker. -/
theorem phaseOf_set {worker : Worker} {phase : WorkerPhase} (h : s.workers[id]? = some worker)
    (hworkers : s'.workers = s.workers.set id { worker with phase := phase }) :
    s'.phaseOf = Function.update s.phaseOf id (some phase) := by
  obtain ⟨hlt, -⟩ := List.getElem?_eq_some_iff.mp h
  funext other
  by_cases hother : other = id
  · rw [hother, Function.update_self, phaseOf, hworkers, List.getElem?_set_self hlt]
    rfl
  · rw [Function.update_of_ne hother, phaseOf, phaseOf, hworkers,
      List.getElem?_set_ne (Ne.symm hother)]

/-- A worker that was just added has sent nothing. -/
theorem OutputInv.append (h : s.OutputInv) {worker : Worker}
    (hworkers : s'.workers = s.workers ++ [worker]) (hsent : worker.phase.sent = none)
    (hholds : worker.phase.holdsWriter = false) (hlock : s'.lock = s.lock)
    (houtput : s'.output = s.output) : s'.OutputInv := by
  obtain ⟨hlocked, order, tail, hreceived⟩ := h
  have hphase := phaseOf_append hworkers
  have hnew : s.phaseOf s.workers.length = none := by
    rw [phaseOf, List.getElem?_eq_none le_rfl]
    rfl
  refine ⟨hlocked.update hphase (fun other _ => by rw [hlock]) ?_, order, tail,
    hreceived.quiet hphase ?_ houtput ?_ (holdsWriter_of_isWriting hholds)⟩
  · rw [hlock, ← hlocked s.workers.length, hnew, hholds]
    simp
  · rw [hsent, sentBy, hnew]
    rfl
  · intro phase hbefore
    rw [hnew] at hbefore
    cases hbefore

/-- Every step keeps the description of what the stream received. -/
theorem OutputInv.step (h : s.OutputInv) (hok : s.Writes action)
    (hstep : s.step service action = some s') : s'.OutputInv := by
  rcases step_cases hok hstep with ⟨hlock, houtput, hsame | ⟨message, buffer, -, hnew⟩ |
    ⟨message, reply, -, hnew⟩⟩ | ⟨-, -, id, worker, phase, effect, hworker, hmove, rfl⟩
  · have hphase : s'.phaseOf = s.phaseOf := by
      funext other
      rw [phaseOf, phaseOf, hsame]
    have hsent : s'.sentBy = s.sentBy := by
      funext other
      rw [sentBy, sentBy, hphase]
    obtain ⟨hlocked, order, tail, hnodup, hthrough, hbytes, hinside, houtside⟩ := h
    refine ⟨?_, order, tail, hnodup, ?_, ?_, ?_, ?_⟩
    · rw [LockInv, hphase, hlock]
      exact hlocked
    · rwa [hsent]
    · rwa [houtput, frameAt_congr hsent]
    · rwa [hphase]
    · rwa [hphase]
  · exact h.append hnew rfl rfl hlock houtput
  · exact h.append hnew rfl rfl hlock houtput
  · refine OutputInv.worker h ?_ hmove (phaseOf_set hworker rfl) rfl rfl
    rw [phaseOf, hworker]
    rfl

/-- Nothing was received at first. -/
theorem OutputInv.initial (start : Bytes) : (ServerConn.initial start).OutputInv := by
  refine ⟨fun id => ⟨?_, nofun⟩, [], [], List.nodup_nil, ?_, rfl, nofun, fun _ => rfl⟩
  · rintro ⟨phase, hphase, -⟩
    cases hphase
  · intro id
    exact ⟨nofun, nofun⟩

end ServerConn

/-! ## The replies -/

/-- The bytes of a reply that fits are one record with its encoding. -/
theorem frameOf_eq {reply : RpcMessage} (h : reply.Fits) :
    ∃ r : Record, frameOf reply = r.bytes ∧ reply.encode = .ok r.data := by
  obtain ⟨writes, r, hwrites, hbytes, hencode⟩ := writeRpcMessage_eq h
  refine ⟨r, ?_, hencode⟩
  rw [frameOf, hwrites]
  exact hbytes

/-- What holds of a connection in every reachable state. -/
structure ServerConn.ServerInv (service : Service Ω) (start : Bytes) (s : ServerConn) : Prop where
  decoded : s.Decoded service start
  serves : ∀ worker ∈ s.workers, worker.Serves service
  output : s.OutputInv

/-- The invariant holds in every run in which the stream takes what is written. -/
theorem ServerConn.ServerInv.of_runs {service : Service Ω} {start : Bytes} {s : ServerConn}
    (hfits : ∀ message reply, service.Answers message reply → reply.Fits)
    (hrun : Runs (ServerConn.step service) ServerConn.Writes (.initial start) s) :
    s.ServerInv service start := by
  refine hrun.invariant (ServerConn.ServerInv service start)
    ⟨.initial service start, fun _ hmem => absurd hmem List.not_mem_nil, .initial start⟩ ?_
  intro u action v hu hok hstep
  exact ⟨hu.decoded.step hstep, ServerConn.serves_step hfits hu.decoded hu.serves hok hstep,
    hu.output.step hok hstep⟩

/-- A plain connection answers a call with the reply of the server, and nothing else. -/
theorem Service.tcp_answers {server : Server Ω} {peerAddr : SocketAddr} {message reply : RpcMessage}
    (h : (Service.tcp server peerAddr).Answers message reply) :
    ∃ world, server.handleMessageWithPeerAddr world message (some peerAddr) = .ok reply := by
  rcases h with hsome | ⟨-, hreply⟩
  · exact nomatch (show (none : Option RpcMessage) = some reply from hsome)
  · exact hreply

/-- Every worker is over and no message waits for one. -/
def ServerConn.Finished (s : ServerConn) : Prop :=
  (∀ worker ∈ s.workers, worker.phase.isDone = true) ∧ s.loop.waiting = none

/-- The reply goes to a call that was decoded, and its frame is one record. -/
def ServerConn.RepliesTo (server : Server Ω) (peerAddr : SocketAddr) (s : ServerConn) (id : ℕ)
    (frame : Bytes) : Prop :=
  ∃ message call world reply, ∃ r : Record, s.messages[id]? = some message ∧
    message.body = .call call ∧
    server.handleMessageWithPeerAddr world message (some peerAddr) = .ok reply ∧
    reply.xid = message.xid ∧ reply.encode = .ok r.data ∧ frame = r.bytes

/-- The frame is that of a reply the service gives to the message with the given number. -/
def ServerConn.AnswersAt (service : Service Ω) (s : ServerConn) (id : ℕ) (frame : Bytes) : Prop :=
  ∃ message reply, s.messages[id]? = some message ∧ service.Answers message reply ∧
    frame = frameOf reply

/-- What the stream has received, in the terms of the messages. -/
theorem ServerConn.ServerInv.answered {service : Service Ω} {start : Bytes} {s : ServerConn}
    (hinv : s.ServerInv service start) :
    ∃ (order : List ℕ) (tail : Bytes), order.Nodup ∧
      s.output = (order.map s.frameAt).flatten ++ tail ∧
      (∀ id ∈ order, s.AnswersAt service id (s.frameAt id)) ∧
      (tail = [] ∨ ∃ id ∉ order, ∃ left, s.AnswersAt service id (tail ++ left)) ∧
      (s.Finished → tail = [] ∧ ∀ id message call, s.messages[id]? = some message →
        message.body = .call call → id ∈ order) := by
  obtain ⟨-, order, tail, hreceived⟩ := hinv.output
  refine ⟨order, tail, hreceived.nodup, hreceived.output, ?_, ?_, ?_⟩
  · intro id hid
    obtain ⟨worker, reply, hworker, hsent⟩ := s.worker_of_sent ((hreceived.through id).mp hid)
    have hframe : s.frameAt id = frameOf reply := by
      simp [ServerConn.frameAt, ServerConn.sentBy, ServerConn.phaseOf, hworker, hsent]
    exact ⟨worker.message, reply, s.message_of_worker hworker,
      Worker.answers_of_sent (hinv.serves worker (List.mem_of_getElem? hworker)) hsent, hframe⟩
  · by_cases hwriting : ∃ id reply left, s.phaseOf id = some (.writing reply left)
    · obtain ⟨id, reply, left, hphase⟩ := hwriting
      right
      refine ⟨id, ?_, left.flatten, ?_⟩
      · rw [hreceived.through, ServerConn.sentBy, hphase]
        exact Bool.false_ne_true
      · rw [← hreceived.inside id reply left hphase]
        obtain ⟨worker, hworker, hphase⟩ := Option.map_eq_some_iff.mp hphase
        have hserves := hinv.serves worker (List.mem_of_getElem? hworker)
        rw [Worker.Serves, hphase] at hserves
        exact ⟨worker.message, reply, s.message_of_worker hworker, hserves, rfl⟩
    · left
      refine hreceived.outside fun id phase hphase => ?_
      by_contra hinside
      obtain ⟨reply, left, rfl⟩ := WorkerPhase.of_isWriting (Bool.not_eq_false _ ▸ hinside)
      exact hwriting ⟨id, reply, left, hphase⟩
  · rintro ⟨hdone, hwaiting⟩
    have hmessages : s.messages = s.workers.map Worker.message := by
      rw [ServerConn.messages, hwaiting]
      exact List.append_nil _
    refine ⟨?_, fun id message call hmessage hcall => ?_⟩
    · refine hreceived.outside fun id phase hphase => ?_
      obtain ⟨worker, hworker, rfl⟩ := Option.map_eq_some_iff.mp hphase
      have hover := hdone worker (List.mem_of_getElem? hworker)
      cases hcase : worker.phase <;> rw [hcase] at hover <;> first | rfl | cases hover
    · rw [hmessages, List.getElem?_map] at hmessage
      obtain ⟨worker, hworker, rfl⟩ := Option.map_eq_some_iff.mp hmessage
      have hmem := List.mem_of_getElem? hworker
      rw [hreceived.through, ServerConn.sentBy, ServerConn.phaseOf, hworker]
      exact Worker.sent_of_isDone (hinv.serves worker hmem) (hdone worker hmem) hcall

/-- A frame of a plain connection replies to its message. -/
theorem ServerConn.AnswersAt.repliesTo {server : Server Ω} (hbounded : server.Bounded)
    {peerAddr : SocketAddr} {s : ServerConn} {id : ℕ} {frame : Bytes}
    (h : s.AnswersAt (.tcp server peerAddr) id frame) : s.RepliesTo server peerAddr id frame := by
  obtain ⟨message, reply, hmessage, hanswers, rfl⟩ := h
  obtain ⟨world, hreply⟩ := Service.tcp_answers hanswers
  obtain ⟨hxid, call, hcall⟩ := Server.xid_of_handleMessage hreply
  obtain ⟨r, hbytes, hencode⟩ := frameOf_eq (Server.fits_of_handleMessage hbounded hreply)
  exact ⟨message, call, world, reply, r, hmessage, hcall, hreply, hxid, hencode, hbytes⟩

/-- The invariant over every run, for a server whose replies can be encoded. -/
theorem ServerConn.ServerInv.of_writes {server : Server Ω} (hbounded : server.Bounded)
    {peerAddr : SocketAddr} {s : ServerConn}
    (hrun : Runs (ServerConn.step (.tcp server peerAddr)) ServerConn.Writes (.initial []) s) :
    s.ServerInv (.tcp server peerAddr) [] := by
  refine .of_runs (fun message reply h => ?_) hrun
  obtain ⟨world, hreply⟩ := Service.tcp_answers h
  exact Server.fits_of_handleMessage hbounded hreply

/-- What the stream of a plain connection has received. -/
theorem ServerConn.ServerInv.replies {server : Server Ω} (hbounded : server.Bounded)
    {peerAddr : SocketAddr} {s : ServerConn} (hinv : s.ServerInv (.tcp server peerAddr) []) :
    ∃ (order : List ℕ) (tail : Bytes), order.Nodup ∧
      s.output = (order.map s.frameAt).flatten ++ tail ∧
      (∀ id ∈ order, s.RepliesTo server peerAddr id (s.frameAt id)) ∧
      (tail = [] ∨ ∃ id ∉ order, ∃ left, s.RepliesTo server peerAddr id (tail ++ left)) ∧
      (s.Finished → tail = [] ∧ ∀ id, id ∈ order ↔
        ∃ message call, s.messages[id]? = some message ∧ message.body = .call call) := by
  obtain ⟨order, tail, hnodup, houtput, hanswers, htail, hfinished⟩ := hinv.answered
  have hreplies : ∀ id ∈ order, s.RepliesTo server peerAddr id (s.frameAt id) :=
    fun id hid => (hanswers id hid).repliesTo hbounded
  refine ⟨order, tail, hnodup, houtput, hreplies, ?_, fun hover => ?_⟩
  · rcases htail with hnil | ⟨id, hid, left, hanswer⟩
    · exact .inl hnil
    · exact .inr ⟨id, hid, left, hanswer.repliesTo hbounded⟩
  · obtain ⟨hnil, hall⟩ := hfinished hover
    refine ⟨hnil, fun id => ⟨fun hid => ?_, ?_⟩⟩
    · obtain ⟨message, call, -, -, -, hmessage, hcall, -⟩ := hreplies id hid
      exact ⟨message, call, hmessage, hcall⟩
    · rintro ⟨message, call, hmessage, hcall⟩
      exact hall id message call hmessage hcall

/-- The replies of a connection: the stream has received whole records one after the other, each
with the reply computed for a call of its own, and perhaps a part of one more; when all workers are
over there is one for every call that was decoded, and nothing else. -/
theorem server_replies (server : Server Ω) (hbounded : server.Bounded) (peerAddr : SocketAddr)
    (s : ServerConn)
    (hrun : Runs (ServerConn.step (.tcp server peerAddr)) ServerConn.Writes (.initial []) s) :
    (∃ (records : List Record) (rest : Bytes),
      s.input = (records.map Record.bytes).flatten ++ rest ∧
      List.Forall₂ (fun r message => RpcMessage.decode r.data = .ok message) records s.messages) ∧
    ∃ (order : List ℕ) (tail : Bytes), order.Nodup ∧
      s.output = (order.map s.frameAt).flatten ++ tail ∧
      (∀ id ∈ order, s.RepliesTo server peerAddr id (s.frameAt id)) ∧
      (tail = [] ∨ ∃ id ∉ order, ∃ left, s.RepliesTo server peerAddr id (tail ++ left)) ∧
      (s.Finished → tail = [] ∧ ∀ id, id ∈ order ↔
        ∃ message call, s.messages[id]? = some message ∧ message.body = .call call) := by
  have hinv := ServerConn.ServerInv.of_writes hbounded hrun
  refine ⟨?_, hinv.replies hbounded⟩
  obtain ⟨records, rest, hbytes, hmessages, -⟩ := hinv.decoded.records
  exact ⟨records, rest, hbytes, hmessages⟩

/-- The record of a call without arguments, with a small transaction id. -/
def callRecord (xid : UInt8) : Bytes :=
  [128, 0, 0, 40, 0, 0, 0, xid, 0, 0, 0, 0, 0, 0, 0, 2, 0, 0, 0, 3, 0, 0, 0, 1, 0, 0, 0, 0,
    0, 0, 0, 0, 0, 0, 0, 0, 0, 0, 0, 0, 0, 0, 0, 0]

/-- The steps of a worker that writes a reply of 24 bytes. -/
def replySteps (id : ℕ) : List (ServerAction Unit) :=
  [.worker id .lock, .worker id (.accept 4), .worker id .next, .worker id (.accept 10),
    .worker id (.accept 14), .worker id .next, .worker id .flush, .worker id .release]

/-- Two calls to a server without programs, the second of which is answered first. -/
theorem server_replies_unavailable : ∃ s : ServerConn,
    Runs (ServerConn.step (.tcp (Server.empty : Server Unit) (.v4 0 0))) ServerConn.Writes
      (.initial []) s ∧ s.output.length = 56 ∧
    ∃ order : List ℕ, order.Perm [0, 1] ∧ s.output = (order.map s.frameAt).flatten := by
  have hseen : (runList
      (guarded (fun _ action => !action.fails)
        (ServerConn.step (.tcp (Server.empty : Server Unit) (.v4 0 0)))) (.initial [])
      ([.decode, .read (.bytes (callRecord 7 ++ callRecord 8)), .decode, .spawn, .decode, .spawn,
        .worker 0 (.handle ()), .worker 1 (.handle ())] ++ replySteps 1 ++ replySteps 0)).map
      (fun s => (s.output.length, s.workers.all (·.phase.isDone), s.loop.waiting.isNone,
        s.messages.map RpcMessage.isReply)) = some (56, true, true, [false, false]) := by
    decide +kernel
  obtain ⟨s, htrace, hview⟩ := @Trace.exists_of_runList _ _ _ ServerConn.Writes _ _ _ _ _ _
    (fun _ _ hcheck => by simpa [ServerConn.Writes] using hcheck) hseen
  simp only [Prod.mk.injEq] at hview
  obtain ⟨hlength, hdone, hwaiting, hcalls⟩ := hview
  obtain ⟨-, order, tail, hnodup, houtput, -, -, hfinished⟩ := server_replies
    (Server.empty : Server Unit) (by rintro program dispatch ⟨⟩) (.v4 0 0) s htrace.runs
  obtain ⟨rfl, horder⟩ :=
    hfinished ⟨List.all_eq_true.mp hdone, Option.isNone_iff_eq_none.mp hwaiting⟩
  refine ⟨s, htrace.runs, hlength, order, ?_, by simpa using houtput⟩
  rw [List.perm_ext_iff_of_nodup hnodup (by decide)]
  intro id
  rw [horder]
  have hcall : ∀ message ∈ s.messages, ∃ call, message.body = .call call := by
    intro message hmem
    have hfalse : message.isReply ∈ [false, false] := hcalls ▸ List.mem_map_of_mem hmem
    unfold RpcMessage.isReply at hfalse
    split at hfalse
    · next call hbody => exact ⟨call, hbody⟩
    · simp at hfalse
  have htwo : s.messages.length = 2 := by
    rw [← List.length_map RpcMessage.isReply, hcalls]
    rfl
  constructor
  · rintro ⟨message, call, hmessage, -⟩
    obtain ⟨hlt, -⟩ := List.getElem?_eq_some_iff.mp hmessage
    rw [htwo] at hlt
    simp only [List.mem_cons, List.not_mem_nil, or_false]
    omega
  · intro hid
    have hlt : id < s.messages.length := by
      simp only [List.mem_cons, List.not_mem_nil, or_false] at hid
      omega
    obtain ⟨call, hbody⟩ := hcall _ (List.getElem_mem hlt)
    exact ⟨_, call, List.getElem?_eq_getElem hlt, hbody⟩

end OncRpc
