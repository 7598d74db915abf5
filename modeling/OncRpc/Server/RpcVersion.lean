import OncRpc.Server.Chunking
import OncRpc.Wire.RoundTrip

/-!
# Calls of another RPC version

A call starts with its transaction id, its kind and the version of the protocol.  The decoder
refuses every version but the second, and it refuses it as it refuses bytes that are no message at
all: the loop of a connection ends there.  The server has no reply for such a call, and what follows
it in the stream is never looked at.  The calls in front of it are not affected: their workers go on
after the loop is over.

`Located.reaches` compares where the loop is with where the refused record is.  The rest of the
module reads it off for the messages, the end of the loop and the replies.
-/

namespace OncRpc

open Foundation Foundation.Parser

variable {Ω : Type}

/-! ## The refused record -/

/-- The record is a call of the given RPC version. -/
def Record.CallsWith (r : Record) (xid version : UInt32) : Prop :=
  ∃ body, r.data =
    beBytes xid ++ (beBytes MessageType.call.number ++ (beBytes version ++ body))

/-- The record is a message. -/
def Record.IsMessage (r : Record) : Prop := ∃ message, RpcMessage.decode r.data = .ok message

/-- A call of another version is refused for its version, whatever follows. -/
theorem Record.CallsWith.decode {r : Record} {xid version : UInt32} (h : r.CallsWith xid version)
    (hversion : version ≠ rpcVersion2) :
    RpcMessage.decode r.data = .error (.unsupportedRpcVersion version) := by
  obtain ⟨body, hdata⟩ := h
  have hcall : decodeCallBody (beBytes version ++ body) =
      .error (.unsupportedRpcVersion version) := by
    unfold decodeCallBody
    rw [bind_of_ok (inverts_readU32.apply_append rfl _), if_pos hversion]
    rfl
  have hparse : RpcMessage.parse r.data = .error (.unsupportedRpcVersion version) := by
    unfold RpcMessage.parse
    rw [hdata, bind_of_ok (inverts_readU32.apply_append rfl _),
      bind_of_ok (inverts_readU32.apply_append rfl _),
      bind_of_ok (convert_of_ok ((MessageType.tryFrom_eq_ok_iff _ _).mpr rfl) _)]
    exact bind_of_error (map_of_error hcall MessageBody.call)
  rw [RpcMessage.decode, hparse]
  rfl

/-- A call of another version is no message. -/
theorem Record.CallsWith.not_isMessage {r : Record} {xid version : UInt32}
    (h : r.CallsWith xid version) (hversion : version ≠ rpcVersion2) : ¬ r.IsMessage := by
  rintro ⟨message, hmessage⟩
  rw [h.decode hversion] at hmessage
  cases hmessage

/-! ## Where the loop is -/

/-- Of two ways to take a stream apart into records, the one that takes messages only does not get
past the first record that is none. -/
theorem Record.messages_stop {r : Record} (hr : ¬ r.IsMessage) {records before : List Record}
    {messages : List RpcMessage} {rest later : Bytes} (hrecords : List.Forall₂
      (fun x message => RpcMessage.decode x.data = .ok message) records messages)
    (h : (records.map Record.bytes).flatten ++ rest =
      (before.map Record.bytes).flatten ++ (r.bytes ++ later)) :
    ∃ more, before = records ++ more ∧
      rest = (more.map Record.bytes).flatten ++ (r.bytes ++ later) := by
  induction hrecords generalizing before with
  | nil => exact ⟨before, rfl, h⟩
  | @cons x message records messages hmessage _ ih =>
    rw [List.map_cons, List.flatten_cons, List.append_assoc] at h
    rcases before with _ | ⟨b, before⟩
    · obtain ⟨rfl, -⟩ := Record.bytes_append_inj h
      exact absurd ⟨message, hmessage⟩ hr
    · rw [List.map_cons, List.flatten_cons, List.append_assoc] at h
      obtain ⟨rfl, htail⟩ := Record.bytes_append_inj h
      obtain ⟨more, rfl, hrest⟩ := ih htail
      exact ⟨more, rfl, hrest⟩

/-- The records of a stream in front of one that is no message have all its messages. -/
theorem streamMessages_stop {r : Record} (hr : ¬ r.IsMessage) (before : List Record)
    (later : Bytes) :
    streamMessages ((before.map Record.bytes).flatten ++ (r.bytes ++ later)) =
      streamMessages (before.map Record.bytes).flatten := by
  induction before with
  | nil =>
    have hnil : ¬ Record.StartsWith [] := by
      rintro ⟨x, rest, hx⟩
      have hpos := x.bytes_pos
      have hlength := congrArg List.length hx
      rw [List.length_nil, List.length_append] at hlength
      omega
    rw [List.map_nil, List.flatten_nil, List.nil_append, streamMessages_record,
      streamMessages_of_not_startsWith hnil]
    cases hdecode : RpcMessage.decode r.data with
    | error error => rfl
    | ok message => exact absurd ⟨message, hdecode⟩ hr
  | cons b before ih =>
    rw [List.map_cons, List.flatten_cons, List.append_assoc, streamMessages_record,
      streamMessages_record, ih]

namespace ServerConn

variable {server : Server Ω} {peerAddr : SocketAddr} {s : ServerConn} {rest : Bytes}
  {records before : List Record} {r : Record} {later future : Bytes}

/-- The loop has not got past a record that is no message. -/
theorem Located.reaches (h : Located s records rest) (hr : ¬ r.IsMessage)
    (hstream : s.input ++ future = (before.map Record.bytes).flatten ++ (r.bytes ++ later)) :
    ∃ more, before = records ++ more ∧
      rest ++ future = (more.map Record.bytes).flatten ++ (r.bytes ++ later) := by
  refine Record.messages_stop hr h.decoded ?_
  rw [← hstream, h.input, List.append_assoc]

/-- The messages dispatched are first ones of those in front of the record. -/
theorem Located.messages_prefix (h : Located s records rest) (hr : ¬ r.IsMessage)
    (hstream : s.input ++ future = (before.map Record.bytes).flatten ++ (r.bytes ++ later)) :
    s.messages <+: streamMessages (before.map Record.bytes).flatten := by
  have htaken := h.served.taken future
  rw [hstream, streamMessages_stop hr] at htaken
  rw [htaken]
  exact List.prefix_append _ _

/-- Where the loop stops at a record, it is the refused one or one in front of it. -/
theorem Located.stops (h : Located s records rest) (hr : ¬ r.IsMessage)
    (hstream : s.input ++ future = (before.map Record.bytes).flatten ++ (r.bytes ++ later))
    {error : WireError} (hloop : s.loop = .ended (.error (.wire error))) :
    s.messages = streamMessages (before.map Record.bytes).flatten ∧
      ((∀ x ∈ before, x.IsMessage) → RpcMessage.decode r.data = .error error) := by
  obtain ⟨more, rfl, hrest⟩ := h.reaches hr hstream
  have hat := h.loop
  rw [hloop] at hat
  obtain ⟨x, left, rfl, hx⟩ := hat
  rw [List.map_append, List.flatten_append, streamMessages_records h.decoded]
  rcases more with _ | ⟨m, more⟩
  · rw [List.append_assoc] at hrest
    obtain ⟨rfl, -⟩ := Record.bytes_append_inj hrest
    refine ⟨?_, fun _ => hx⟩
    have hnil := streamMessages_stop hr [] []
    rw [List.map_nil, List.flatten_nil, List.nil_append, streamMessages_record, hx] at hnil
    rw [List.map_nil, List.flatten_nil, ← hnil, List.append_nil]
  · rw [List.map_cons, List.flatten_cons, List.append_assoc, List.append_assoc] at hrest
    obtain ⟨rfl, -⟩ := Record.bytes_append_inj hrest
    refine ⟨?_, fun hbefore => ?_⟩
    · rw [List.map_cons, List.flatten_cons, streamMessages_record, hx, List.append_nil]
    · obtain ⟨message, hmessage⟩ := hbefore x (by simp)
      rw [hmessage] at hx
      cases hx

/-- A loop that has read the record does not wait for more, nor ends as if the stream were over. -/
theorem Located.startsWith (h : Located s records rest) (hr : ¬ r.IsMessage)
    (hstream : s.input = (before.map Record.bytes).flatten ++ (r.bytes ++ later)) :
    Record.StartsWith rest := by
  have hnone : s.input ++ [] = (before.map Record.bytes).flatten ++ (r.bytes ++ later) := by
    rw [List.append_nil, hstream]
  obtain ⟨more, -, hrest⟩ := h.reaches hr hnone
  rw [List.append_nil] at hrest
  rcases more with _ | ⟨m, more⟩
  · exact ⟨r, later, hrest⟩
  · rw [List.map_cons, List.flatten_cons, List.append_assoc] at hrest
    exact ⟨m, _, hrest⟩

/-- A loop that is over and has read the record has stopped at a record. -/
theorem Located.rejects (h : Located s records rest) (hr : ¬ r.IsMessage)
    (hstream : s.input = (before.map Record.bytes).flatten ++ (r.bytes ++ later))
    {result : Except ServerTransportError Unit} (hloop : s.loop = .ended result) : s.Rejects := by
  have hstarts := h.startsWith hr hstream
  have hat := h.loop
  rw [hloop] at hat
  rcases result with (text | error | error) | ⟨⟨⟩⟩
  · exact absurd hstarts hat
  · exact ⟨error, hloop⟩
  · exact hat.elim
  · exact absurd hstarts hat

end ServerConn

/-! ## The result -/

/-- A call of another RPC version ends the connection: whatever the pieces of its stream, the
messages dispatched are those in front of it, the loop stops with the version as its error, the
replies written are replies to those messages, one for each call among them, and nothing behind it
is served. -/
theorem unsupported_version_ends (server : Server Ω) (peerAddr : SocketAddr) (before : List Record)
    (r : Record) (xid version : UInt32) (later : Bytes) (hcall : r.CallsWith xid version)
    (hversion : version ≠ rpcVersion2) (chunks : List Bytes)
    (hchunks : ∀ chunk ∈ chunks, chunk ≠ [])
    (hstream : chunks.flatten = (before.map Record.bytes).flatten ++ (r.bytes ++ later)) :
    (∀ actions s, Trace (ServerConn.step (.tcp server peerAddr)) (fun _ _ => True) (.initial [])
      actions s → actions.filterMap ServerAction.chunk <+: chunks →
      s.messages <+: streamMessages (before.map Record.bytes).flatten ∧
      (s.Rejects → s.messages = streamMessages (before.map Record.bytes).flatten) ∧
      ((∀ x ∈ before, x.IsMessage) → ∀ error, s.loop = .ended (.error (.wire error)) →
        error = .unsupportedRpcVersion version) ∧
      (actions.filterMap ServerAction.chunk = chunks → (∀ left, s.loop ≠ .reading left) ∧
        ∀ result, s.loop = .ended result → s.Rejects)) ∧
    (server.Bounded → ∀ actions s, Trace (ServerConn.step (.tcp server peerAddr))
      ServerConn.Writes (.initial []) actions s → actions.filterMap ServerAction.chunk <+: chunks →
      ∃ (order : List ℕ) (tail : Bytes), order.Nodup ∧
        s.output = (order.map s.frameAt).flatten ++ tail ∧
        (∀ id ∈ order, s.RepliesTo server peerAddr id (s.frameAt id)) ∧
        (tail = [] ∨ ∃ id ∉ order, ∃ left, s.RepliesTo server peerAddr id (tail ++ left)) ∧
        (s.Finished → s.Rejects → tail = [] ∧ ∀ id, id ∈ order ↔ ∃ message call,
          (streamMessages (before.map Record.bytes).flatten)[id]? = some message ∧
            message.body = .call call)) ∧
    ∃ actions s, Trace (ServerConn.step (.tcp server peerAddr)) (fun _ _ => True) (.initial [])
      actions s ∧ actions.filterMap ServerAction.chunk <+: chunks ∧ s.Rejects := by
  have hr := hcall.not_isMessage hversion
  have hfuture : ∀ actions s, Trace (ServerConn.step (.tcp server peerAddr)) (fun _ _ => True)
      (.initial []) actions s → actions.filterMap ServerAction.chunk <+: chunks →
      ∃ future, s.input ++ future = (before.map Record.bytes).flatten ++ (r.bytes ++ later) := by
    rintro actions s htrace ⟨later, hlater⟩
    refine ⟨later.flatten, ?_⟩
    rw [ServerConn.input_of_trace htrace, ← List.flatten_append, hlater, hstream]
  have hall : ∀ actions s, Trace (ServerConn.step (.tcp server peerAddr)) (fun _ _ => True)
      (.initial []) actions s → actions.filterMap ServerAction.chunk = chunks →
      s.input = (before.map Record.bytes).flatten ++ (r.bytes ++ later) := by
    intro actions s htrace hreads
    rw [ServerConn.input_of_trace htrace, hreads, hstream]
  refine ⟨fun actions s htrace hreads => ?_, fun hbounded actions s htrace hreads => ?_, ?_⟩
  · obtain ⟨records, rest, hlocated⟩ := ServerConn.Located.of_runs htrace.runs
    obtain ⟨future, hinput⟩ := hfuture actions s htrace hreads
    refine ⟨hlocated.messages_prefix hr hinput, ?_, fun hbefore error hloop => ?_, fun hread =>
      ⟨fun left hloop => ?_, fun result hloop => ?_⟩⟩
    · rintro ⟨error, hloop⟩
      exact (hlocated.stops hr hinput hloop).1
    · have hdecode := (hlocated.stops hr hinput hloop).2 hbefore
      rw [hcall.decode hversion] at hdecode
      cases hdecode
      rfl
    · have hat := hlocated.loop
      rw [hloop] at hat
      exact hat.2 (hlocated.startsWith hr (hall actions s htrace hread))
    · exact hlocated.rejects hr (hall actions s htrace hread) hloop
  · have hplain : Trace (ServerConn.step (.tcp server peerAddr)) (fun _ _ => True) (.initial [])
        actions s := htrace.mono fun _ _ _ => trivial
    obtain ⟨records, rest, hlocated⟩ := ServerConn.Located.of_runs hplain.runs
    obtain ⟨future, hinput⟩ := hfuture actions s hplain hreads
    obtain ⟨order, tail, hnodup, houtput, hreplies, htail, hfinished⟩ :=
      (ServerConn.ServerInv.of_writes hbounded htrace.runs).replies hbounded
    refine ⟨order, tail, hnodup, houtput, hreplies, htail, ?_⟩
    rintro hover ⟨error, hloop⟩
    rw [← (hlocated.stops hr hinput hloop).1]
    exact hfinished hover
  · obtain ⟨actions, s, htrace, hreads, hend⟩ :=
      ServerConn.exists_run server peerAddr chunks hchunks (.initial []) [] rfl
    refine ⟨actions, s, htrace, hreads, ?_⟩
    rcases hend with hrejects | ⟨hloop, hread⟩
    · exact hrejects
    · obtain ⟨records, rest, hlocated⟩ := ServerConn.Located.of_runs htrace.runs
      exact hlocated.rejects hr (hall actions s htrace hread) hloop

theorem thirdVersion_fits (xid : UInt32) :
    FragmentFits (beBytes xid ++ (beBytes MessageType.call.number ++ (beBytes 3 ++ []))) := by
  simp [FragmentFits]

/-- A call of version three as a record. -/
def thirdVersion (xid : UInt32) : Record where
  more := []
  last := beBytes xid ++ (beBytes MessageType.call.number ++ (beBytes 3 ++ []))
  more_fits := List.forall_mem_nil _
  last_fits := thirdVersion_fits xid

theorem thirdVersion_callsWith (xid : UInt32) : (thirdVersion xid).CallsWith xid 3 := ⟨[], rfl⟩

/-- A call of version three in front of another call, in two pieces. -/
theorem unsupported_version_ends_third : ∃ actions s,
    Trace (ServerConn.step (.tcp (Server.empty : Server Unit) (.v4 0 0))) (fun _ _ => True)
      (.initial []) actions s ∧ s.Rejects ∧ s.messages = [] := by
  obtain ⟨hall, -, actions, s, htrace, hreads, hrejects⟩ := unsupported_version_ends
    (Server.empty : Server Unit) (.v4 0 0) [] (thirdVersion 7) 7 3 (callRecord 8)
    (thirdVersion_callsWith 7) (by decide)
    [(thirdVersion 7).bytes ++ (callRecord 8).take 3, (callRecord 8).drop 3] (by decide) (by decide)
  obtain ⟨hwritten, -⟩ := hall actions s htrace hreads
  refine ⟨actions, s, htrace, hrejects, ?_⟩
  rw [List.map_nil, List.flatten_nil, streamMessages_of_not_startsWith] at hwritten
  · exact List.prefix_nil.mp hwritten
  · rintro ⟨x, rest, hx⟩
    have hpos := x.bytes_pos
    have hlength := congrArg List.length hx
    rw [List.length_nil, List.length_append] at hlength
    omega

/-- A connection that reads a call of version three and a good call behind it comes to its end with
nothing dispatched and nothing written: the first gets no reply, and neither does the second. -/
theorem third_version_unanswered : ∃ s : ServerConn,
    Runs (ServerConn.step (.tcp (Server.empty : Server Unit) (.v4 0 0))) ServerConn.Writes
      (.initial []) s ∧
    s.input = (thirdVersion 7).bytes ++ callRecord 8 ∧ s.output = [] ∧ s.messages = [] ∧
    s.loop = .ended (.error (.wire (.unsupportedRpcVersion 3))) ∧
    ∀ action, s.step (.tcp (Server.empty : Server Unit) (.v4 0 0)) action = none := by
  have hfound : tryDecodeMessageFromBuffer ([] ++ ((thirdVersion 7).bytes ++ callRecord 8)) =
      (.error (.wire (.unsupportedRpcVersion 3)), callRecord 8) := by
    rw [List.nil_append, tryDecodeMessageFromBuffer_record, decodeRecord,
      (thirdVersion_callsWith 7).decode (by decide)]
    rfl
  have hempty : tryDecodeMessageFromBuffer [] = (.ok none, []) := by decide +kernel
  have hwaits : Runs (ServerConn.step (.tcp (Server.empty : Server Unit) (.v4 0 0)))
      ServerConn.Writes (.initial []) { ServerConn.initial [] with loop := .reading [] } := by
    refine (Runs.refl _).tail (show ServerConn.Writes _ .decode from rfl) ?_
    simp only [ServerConn.step, ServerConn.decode, ServerConn.initial, hempty]
  have hread : Runs (ServerConn.step (.tcp (Server.empty : Server Unit) (.v4 0 0)))
      ServerConn.Writes (.initial []) { ServerConn.initial [] with
        loop := .decoding ([] ++ ((thirdVersion 7).bytes ++ callRecord 8))
        input := [] ++ ((thirdVersion 7).bytes ++ callRecord 8) } :=
    hwaits.tail (show ServerConn.Writes _
      (.read (.bytes ((thirdVersion 7).bytes ++ callRecord 8))) from rfl) rfl
  refine ⟨{ ServerConn.initial [] with
    loop := .ended (.error (.wire (.unsupportedRpcVersion 3)))
    input := (thirdVersion 7).bytes ++ callRecord 8 },
    hread.tail (show ServerConn.Writes _ .decode from rfl) ?_, rfl, rfl, rfl, rfl, ?_⟩
  · simp only [ServerConn.step, ServerConn.decode, hfound]
    rfl
  · rintro (_ | _ | _ | result | ⟨id, act⟩) <;> rfl

end OncRpc
