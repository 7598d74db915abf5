import OncRpc.Record.RoundTrip
import OncRpc.Server.Replies

/-!
# The reads of a server do not matter

The stream hands its bytes to the loop of a connection in pieces of any size, so a record may arrive
in parts, and several records at once.  `Located` says where the loop is in the bytes read so far:
they are the records of the messages it has dispatched, and then what its buffer holds.  So these
messages are the first ones of every stream that starts with the bytes (`Served`), hence those of
the stream (`streamMessages`), whatever the pieces are and however the workers run beside the loop.
-/

namespace OncRpc

open Foundation

variable {Ω : Type}

/-- The bytes a read hands to the loop. -/
def ServerAction.chunk : ServerAction Ω → Option Bytes
  | .read (.bytes chunk) => some chunk
  | _ => none

/-- Decoding fails only on a whole record that is no message. -/
theorem tryDecodeMessageFromBuffer_error {buffer left : Bytes} {error : RuntimeError}
    (h : tryDecodeMessageFromBuffer buffer = (.error error, left)) :
    ∃ (r : Record) (rest : Bytes) (e : WireError), buffer = r.bytes ++ rest ∧
      RpcMessage.decode r.data = .error e ∧ error = .wire e := by
  by_cases hstarts : Record.StartsWith buffer
  · obtain ⟨r, rest, rfl⟩ := hstarts
    rw [tryDecodeMessageFromBuffer_record] at h
    obtain ⟨hdecode, rfl⟩ := Prod.mk.inj h
    unfold decodeRecord at hdecode
    cases hmessage : RpcMessage.decode r.data with
    | error e =>
      rw [hmessage] at hdecode
      cases hdecode
      exact ⟨r, rest, e, rfl, hmessage, rfl⟩
    | ok message =>
      rw [hmessage] at hdecode
      cases hdecode
  · rw [tryDecodeMessageFromBuffer_none hstarts] at h
    cases h

/-- Decoding finds nothing only where there is no whole record. -/
theorem not_startsWith_of_decode_none {buffer left : Bytes}
    (h : tryDecodeMessageFromBuffer buffer = (.ok none, left)) : ¬ Record.StartsWith buffer := by
  rintro ⟨r, rest, rfl⟩
  rw [tryDecodeMessageFromBuffer_record] at h
  obtain ⟨hdecode, -⟩ := Prod.mk.inj h
  cases hmessage : decodeRecord r.data <;> rw [hmessage] at hdecode <;> cases hdecode

/-- Records that are messages come first in their stream. -/
theorem streamMessages_records {records : List Record} {messages : List RpcMessage}
    (h : List.Forall₂ (fun r message => RpcMessage.decode r.data = .ok message) records messages)
    (rest : Bytes) :
    streamMessages ((records.map Record.bytes).flatten ++ rest) = messages ++ streamMessages rest :=
      by
  induction h with
  | nil => rfl
  | @cons r message records messages hdecode _ ih =>
    rw [List.map_cons, List.flatten_cons, List.append_assoc, streamMessages_record, hdecode]
    simp only [ih, List.cons_append]

namespace ServerConn

/-! ## What the loop has made of its input -/

/-- How the loop stands to the bytes it has not dispatched; on a plain connection it writes no reply
of its own. -/
def LoopAt (rest : Bytes) : LoopPhase → Prop
  | .decoding buffer | .spawning _ buffer => buffer = rest
  | .replying _ _ => False
  | .reading buffer => buffer = rest ∧ ¬ Record.StartsWith rest
  | .ended (.ok ()) | .ended (.error (.io _)) => ¬ Record.StartsWith rest
  | .ended (.error (.wire error)) =>
    ∃ (r : Record) (left : Bytes), rest = r.bytes ++ left ∧ RpcMessage.decode r.data = .error error
  | .ended (.error (.runtime _)) => False

/-- The messages are the first ones of every stream that starts with the input. -/
structure Served (s : ServerConn) (rest : Bytes) : Prop where
  taken : ∀ future, streamMessages (s.input ++ future) =
    s.messages ++ streamMessages (rest ++ future)
  loop : LoopAt rest s.loop

/-- The input is the records of the messages, and then the bytes the loop has not dispatched. -/
structure Located (s : ServerConn) (records : List Record) (rest : Bytes) : Prop where
  input : s.input = (records.map Record.bytes).flatten ++ rest
  decoded : List.Forall₂ (fun r message => RpcMessage.decode r.data = .ok message) records
    s.messages
  loop : LoopAt rest s.loop

variable {server : Server Ω} {peerAddr : SocketAddr} {s s' : ServerConn} {action : ServerAction Ω}
  {rest : Bytes} {records : List Record}

theorem Located.initial : Located (.initial []) [] [] := ⟨rfl, .nil, rfl⟩

/-- The messages of the records come first in every stream that starts with the input. -/
theorem Located.served (h : Located s records rest) : Served s rest := by
  refine ⟨fun future => ?_, h.loop⟩
  rw [h.input, List.append_assoc]
  exact streamMessages_records h.decoded _

/-- A step that leaves the messages and the input alone. -/
theorem Located.keep (h : Located s records rest) (hmessages : s'.messages = s.messages)
    (hinput : s'.input = s.input) (hloop : LoopAt rest s'.loop) : Located s' records rest := by
  refine ⟨hinput.trans h.input, ?_, hloop⟩
  rw [hmessages]
  exact h.decoded

/-- A step of the decoder. -/
theorem Located.decode (h : Located s records rest)
    (hstep : s.decode (.tcp server peerAddr) = some s') :
    ∃ records' rest', Located s' records' rest' := by
  unfold ServerConn.decode at hstep
  split at hstep
  · next buffer hloop =>
    have hbuffer : buffer = rest := by
      have hat := h.loop
      rwa [hloop] at hat
    subst hbuffer
    split at hstep
    · next error left hfound =>
      cases hstep
      obtain ⟨r, rest', e, rfl, hdecode, rfl⟩ := tryDecodeMessageFromBuffer_error hfound
      refine ⟨records, _, h.keep (by simp [messages, hloop, LoopPhase.waiting]) rfl ?_⟩
      exact ⟨r, rest', rfl, hdecode⟩
    · next left hfound =>
      cases hstep
      have hnone := not_startsWith_of_decode_none hfound
      obtain ⟨-, rfl⟩ | ⟨_, _, hsome, -⟩ := tryDecodeMessageFromBuffer_ok hfound
      · exact ⟨records, left,
          h.keep (by simp [messages, hloop, LoopPhase.waiting]) rfl ⟨rfl, hnone⟩⟩
      · cases hsome
    · next message left hfound =>
      cases hstep
      obtain ⟨hnone, -⟩ | ⟨message', r, hsome, hbuffer, hdecode⟩ :=
        tryDecodeMessageFromBuffer_ok hfound
      · cases hnone
      · cases hsome
        have hmessages : s.messages = s.workers.map Worker.message := by
          simp [messages, hloop, LoopPhase.waiting]
        refine ⟨records ++ [r], left, ?_, ?_, rfl⟩
        · rw [h.input, hbuffer]
          simp
        · have hall := List.rel_append h.decoded (.cons hdecode .nil)
          rwa [hmessages] at hall
  · cases hstep

/-- A read. -/
theorem Located.read (h : Located s records rest) {result : ReadResult IoError}
    (hstep : s.read (.tcp server peerAddr) result = some s') :
    ∃ rest', Located s' records rest' := by
  unfold ServerConn.read at hstep
  split at hstep
  · next buffer chunk hloop =>
    split_ifs at hstep
    cases hstep
    have hat := h.loop
    rw [hloop] at hat
    obtain ⟨rfl, -⟩ := hat
    have hdecoded := h.decoded
    rw [messages, hloop] at hdecoded
    refine ⟨buffer ++ chunk, ?_, hdecoded, rfl⟩
    rw [h.input, List.append_assoc]
  · next buffer hloop =>
    cases hstep
    have hat := h.loop
    rw [hloop] at hat
    exact ⟨rest, h.keep (by simp [messages, hloop, LoopPhase.waiting]) rfl hat.2⟩
  · next buffer error hloop =>
    cases hstep
    have hat := h.loop
    rw [hloop] at hat
    exact ⟨rest, h.keep (by simp [messages, hloop, LoopPhase.waiting]) rfl hat.2⟩
  · cases hstep

/-- Every step keeps the relation, those of the workers too. -/
theorem Located.step (h : Located s records rest)
    (hstep : s.step (.tcp server peerAddr) action = some s') :
    ∃ records' rest', Located s' records' rest' := by
  rcases action with _ | _ | _ | result | ⟨id, act⟩
  · exact h.decode hstep
  · simp only [ServerConn.step, spawn] at hstep
    split at hstep
    · next message buffer hloop =>
      cases hstep
      have hat := h.loop
      rw [hloop] at hat
      exact ⟨records, rest, h.keep (by simp [messages, hloop, LoopPhase.waiting]) rfl hat⟩
    · cases hstep
  · simp only [ServerConn.step, resume] at hstep
    split at hstep
    · next id buffer hloop =>
      have hat := h.loop
      rw [hloop] at hat
      exact hat.elim
    · cases hstep
  · exact ⟨records, h.read hstep⟩
  · simp only [ServerConn.step, workerStep] at hstep
    obtain ⟨worker, hworker, hmap⟩ := Option.bind_eq_some_iff.mp hstep
    obtain ⟨⟨phase, effect⟩, -, rfl⟩ := Option.map_eq_some_iff.mp hmap
    have hloop : (s.apply id effect).loop = s.loop := by cases effect <;> rfl
    have hinput : (s.apply id effect).input = s.input := by cases effect <;> rfl
    refine ⟨records, rest, h.keep ?_ hinput ?_⟩
    · simp only [messages, hloop, map_message_set hworker]
    · simp only [hloop]
      exact h.loop

/-- Where the loop is in its input, in every run. -/
theorem Located.of_runs (h : Runs (ServerConn.step (.tcp server peerAddr)) (fun _ _ => True)
    (.initial []) s) : ∃ records rest, Located s records rest := by
  refine h.invariant (fun s => ∃ records rest, Located s records rest) ⟨[], [], .initial⟩ ?_
  rintro u action v ⟨records, rest, hu⟩ - hstep
  exact hu.step hstep

/-- What the loop has made of its input, in every run. -/
theorem Served.of_runs (h : Runs (ServerConn.step (.tcp server peerAddr)) (fun _ _ => True)
    (.initial []) s) : ∃ rest, Served s rest := by
  obtain ⟨records, rest, hlocated⟩ := Located.of_runs h
  exact ⟨rest, hlocated.served⟩

/-- A step takes from the stream what it reads, and nothing else. -/
theorem input_of_step {service : Service Ω} (h : s.step service action = some s') :
    s'.input = s.input ++ action.chunk.getD [] := by
  rcases action with _ | _ | _ | result | ⟨id, act⟩
  · simp only [step, decode] at h
    split at h
    · split at h
      · cases h
        exact (List.append_nil _).symm
      · cases h
        exact (List.append_nil _).symm
      · split at h
        · cases h
          exact (List.append_nil _).symm
        · cases h
          exact (List.append_nil _).symm
    · cases h
  · simp only [step, spawn] at h
    split at h
    · cases h
      exact (List.append_nil _).symm
    · cases h
  · simp only [step, resume] at h
    split at h
    · split at h
      · cases h
        exact (List.append_nil _).symm
      · cases h
        exact (List.append_nil _).symm
      · cases h
    · cases h
  · simp only [step, read] at h
    split at h
    · split_ifs at h
      cases h
      rfl
    · cases h
      exact (List.append_nil _).symm
    · cases h
      exact (List.append_nil _).symm
    · cases h
  · simp only [step, workerStep] at h
    obtain ⟨worker, -, hmap⟩ := Option.bind_eq_some_iff.mp h
    obtain ⟨⟨phase, effect⟩, -, rfl⟩ := Option.map_eq_some_iff.mp hmap
    cases effect <;> exact (List.append_nil _).symm

/-- The input of a connection is what its reads handed to it. -/
theorem input_of_trace {actions : List (ServerAction Ω)}
    (h : Trace (ServerConn.step (.tcp server peerAddr)) (fun _ _ => True) (.initial []) actions s) :
    s.input = (actions.filterMap ServerAction.chunk).flatten := by
  induction h with
  | nil => rfl
  | @snoc actions t u a h _ hstep ih =>
    rw [input_of_step hstep, ih, List.filterMap_append, List.flatten_append]
    rcases hchunk : a.chunk with _ | chunk
    · simp [hchunk]
    · simp [hchunk]

/-! ## The loop gets through its stream -/

/-- The loop has stopped at a record that is no message. -/
def Rejects (s : ServerConn) : Prop := ∃ error, s.loop = .ended (.error (.wire error))

/-- The loop takes out of its buffer what there is, without a read. -/
theorem exists_drain (server : Server Ω) (peerAddr : SocketAddr) (buffer : Bytes) (s : ServerConn)
    (hloop : s.loop = .decoding buffer) :
    ∃ actions t, Trace (ServerConn.step (.tcp server peerAddr)) (fun _ _ => True) s actions t ∧
      actions.filterMap ServerAction.chunk = [] ∧ (t.Rejects ∨ ∃ left, t.loop = .reading left) := by
  induction hn : buffer.length using Nat.strong_induction_on generalizing buffer s with
  | _ n ih =>
    rcases hfound : tryDecodeMessageFromBuffer buffer with ⟨error | (_ | message), left⟩
    · obtain ⟨r, rest, e, -, -, rfl⟩ := tryDecodeMessageFromBuffer_error hfound
      refine ⟨[.decode], { s with loop := .ended (.error (.wire e)) }, ?_, rfl, .inl ⟨e, rfl⟩⟩
      refine Trace.snoc Trace.nil trivial ?_
      simp only [ServerConn.step, ServerConn.decode, hloop, hfound]
      rfl
    · refine ⟨[.decode], { s with loop := .reading left }, ?_, rfl, .inr ⟨left, rfl⟩⟩
      refine Trace.snoc Trace.nil trivial ?_
      simp only [ServerConn.step, ServerConn.decode, hloop, hfound]
    · obtain ⟨hnone, -⟩ | ⟨_, r, -, hbuffer, -⟩ := tryDecodeMessageFromBuffer_ok hfound
      · cases hnone
      · have hlt : left.length < n := by
          rw [← hn, hbuffer, List.length_append]
          have := r.bytes_pos
          omega
        obtain ⟨actions, t, htrace, hreads, hend⟩ := ih left.length hlt left
          { s with workers := s.workers ++ [⟨message, .handling⟩], loop := .decoding left } rfl rfl
        have hdecode : s.step (.tcp server peerAddr) .decode =
            some { s with loop := .spawning message left } := by
          simp only [ServerConn.step, ServerConn.decode, hloop, hfound]
          rfl
        have hfirst : Trace (ServerConn.step (.tcp server peerAddr)) (fun _ _ => True) s
            ([] ++ [.decode]) _ := Trace.nil.snoc trivial hdecode
        have hspawn := hfirst.snoc trivial
          (show ServerConn.step (.tcp server peerAddr) _ .spawn = some _ from rfl)
        refine ⟨[.decode, .spawn] ++ actions, t, hspawn.append htrace, ?_, hend⟩
        · rw [List.filterMap_append, hreads]
          rfl

/-- From a loop about to read, the stream can hand over its pieces one after the other. -/
theorem exists_run (server : Server Ω) (peerAddr : SocketAddr) (chunks : List Bytes)
    (hchunks : ∀ chunk ∈ chunks, chunk ≠ []) (s : ServerConn) (buffer : Bytes)
    (hloop : s.loop = .decoding buffer) :
    ∃ actions t, Trace (ServerConn.step (.tcp server peerAddr)) (fun _ _ => True) s actions t ∧
      actions.filterMap ServerAction.chunk <+: chunks ∧
      (t.Rejects ∨ t.loop = .ended (.ok ()) ∧ actions.filterMap ServerAction.chunk = chunks) := by
  induction chunks generalizing s buffer with
  | nil =>
    obtain ⟨actions, t, htrace, hreads, hend⟩ := exists_drain server peerAddr buffer s hloop
    rcases hend with hrejects | ⟨left, hreading⟩
    · exact ⟨actions, t, htrace, by rw [hreads], .inl hrejects⟩
    · refine ⟨actions ++ [.read .eof], { t with loop := .ended (.ok ()) },
        htrace.snoc trivial ?_, ?_, .inr ⟨rfl, ?_⟩⟩
      · simp only [ServerConn.step, ServerConn.read, hreading]
      · rw [List.filterMap_append, hreads]
        exact List.nil_prefix
      · rw [List.filterMap_append, hreads]
        rfl
  | cons chunk chunks ih =>
    obtain ⟨actions, t, htrace, hreads, hend⟩ := exists_drain server peerAddr buffer s hloop
    rcases hend with hrejects | ⟨left, hreading⟩
    · exact ⟨actions, t, htrace, by rw [hreads]; exact List.nil_prefix, .inl hrejects⟩
    · have hread : t.step (.tcp server peerAddr) (.read (.bytes chunk)) =
          some { t with loop := .decoding (left ++ chunk), input := t.input ++ chunk } := by
        simp only [ServerConn.step, ServerConn.read, hreading, if_neg (hchunks chunk (by simp))]
      obtain ⟨more, u, hmore, hprefix, hend⟩ := ih
        (fun other hother => hchunks other (List.mem_cons_of_mem _ hother))
        { t with loop := .decoding (left ++ chunk), input := t.input ++ chunk } _ rfl
      have hall : ((actions ++ [ServerAction.read (.bytes chunk)]) ++ more).filterMap
          ServerAction.chunk =
          chunk :: more.filterMap ServerAction.chunk := by
        rw [List.filterMap_append, List.filterMap_append, hreads]
        rfl
      refine ⟨(actions ++ [.read (.bytes chunk)]) ++ more, u,
        (htrace.snoc trivial hread).append hmore, ?_, ?_⟩
      · rw [hall]
        exact List.prefix_cons_inj chunk |>.mpr hprefix
      · rw [hall]
        exact hend.imp_right fun hdone => ⟨hdone.1, by rw [hdone.2]⟩

end ServerConn

/-! ## The result -/

/-- However a stream is cut into pieces, a plain connection dispatches the messages of the stream up
to the first record that is none; and it gets there. -/
theorem server_chunking (server : Server Ω) (peerAddr : SocketAddr) (chunks : List Bytes)
    (hchunks : ∀ chunk ∈ chunks, chunk ≠ []) :
    (∀ actions s, Trace (ServerConn.step (.tcp server peerAddr)) (fun _ _ => True) (.initial [])
      actions s → actions.filterMap ServerAction.chunk <+: chunks →
      s.messages <+: streamMessages chunks.flatten ∧
      (s.Rejects → s.messages = streamMessages chunks.flatten) ∧
      (s.loop = .ended (.ok ()) → actions.filterMap ServerAction.chunk = chunks →
        s.messages = streamMessages chunks.flatten)) ∧
    ∃ actions s, Trace (ServerConn.step (.tcp server peerAddr)) (fun _ _ => True) (.initial [])
      actions s ∧ actions.filterMap ServerAction.chunk <+: chunks ∧
      (s.Rejects ∨ s.loop = .ended (.ok ()) ∧ actions.filterMap ServerAction.chunk = chunks) := by
  refine ⟨fun actions s htrace hreads => ?_, ?_⟩
  · obtain ⟨rest, hserved⟩ := ServerConn.Served.of_runs htrace.runs
    obtain ⟨later, rfl⟩ := hreads
    have htaken := hserved.taken later.flatten
    rw [ServerConn.input_of_trace htrace, ← List.flatten_append] at htaken
    rw [htaken]
    refine ⟨List.prefix_append _ _, ?_, ?_⟩
    · rintro ⟨error, hloop⟩
      have hat := hserved.loop
      rw [hloop] at hat
      obtain ⟨r, left, rfl, hdecode⟩ := hat
      rw [List.append_assoc, streamMessages_record, hdecode, List.append_nil]
    · intro hloop hall
      obtain rfl : later = [] := List.self_eq_append_right.mp hall
      have hat := hserved.loop
      rw [hloop] at hat
      rw [List.flatten_nil, List.append_nil, streamMessages_of_not_startsWith hat, List.append_nil]
  · exact ServerConn.exists_run server peerAddr chunks hchunks (.initial []) [] rfl

/-- A call that arrives in two pieces, the first of them a part of its marker. -/
theorem server_chunking_call : ∃ actions s,
    Trace (ServerConn.step (.tcp (Server.empty : Server Unit) (.v4 0 0)))
      (fun _ _ => True) (.initial []) actions s ∧
    s.messages = streamMessages [(callRecord 7).take 3, (callRecord 7).drop 3].flatten := by
  obtain ⟨hall, actions, s, htrace, hreads, hend⟩ := server_chunking (Server.empty : Server Unit)
    (.v4 0 0) [(callRecord 7).take 3, (callRecord 7).drop 3] (by decide)
  refine ⟨actions, s, htrace, ?_⟩
  obtain ⟨-, hrejects, hended⟩ := hall actions s htrace hreads
  rcases hend with hstopped | ⟨hloop, hread⟩
  · exact hrejects hstopped
  · exact hended hloop hread

end OncRpc
