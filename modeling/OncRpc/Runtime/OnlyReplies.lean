import OncRpc.Owned.Correlation
import OncRpc.Udp.Registry

/-!
# What a transport returns

A call that ends well ends with a message of the peer.  On a connection the reader has either put
the whole record together and looked at its kind, or read the envelope word by word and stopped at a
message type that is not a reply; both ways it gets a reply with the transaction id that named the
call, even where the reader has lost the boundaries of records (`Conn.reply_of_finished`).

The reader of a datagram socket decodes the message, looks its transaction id up, and sends it on
without looking at its kind.  A call of the peer whose transaction id is in flight is returned as if
it were the reply (`peer_call_returned`).  `transports_return_replies` says that this is the only
way for it to happen.
-/

namespace OncRpc

open Foundation Foundation.ReadProgram

variable {R : Type}

/-- The message is a reply under a transaction id. -/
def RpcMessage.IsReplyTo (key : Xid) (message : RpcMessage) : Prop :=
  message.isReply = true ∧ message.xid = key

/-! ## The two receive paths of a connection -/

/-- A piece of payload is no longer than the storage offered for it. -/
theorem RecordReader.payload_le_wants {cursor cursor' : RecordReader} {wants count : ℕ}
    {result : ReadResult IoError} {got : Bytes} (hpoll : cursor.poll wants = .await count)
    (hanswers : Conn.answers count result = true)
    (hresume : cursor.resume result = (cursor', .payload got)) : got.length ≤ wants := by
  cases result with
  | eof | error => cases hresume
  | bytes chunk =>
    obtain ⟨-, hle⟩ := Conn.answers_bytes.mp hanswers
    unfold RecordReader.resume at hresume
    simp only at hresume
    split_ifs at hresume with hremaining
    · unfold RecordReader.fillMarker at hresume
      simp only at hresume
      split_ifs at hresume
      · cases hresume
      · split at hresume <;> cases hresume
    · cases hresume
      unfold RecordReader.poll at hpoll
      rw [if_neg hremaining] at hpoll
      split_ifs at hpoll
      cases hpoll
      exact hle.trans (Nat.min_le_left _ _)

/-- Whatever the stage of a receive makes of the rest of its record, a message it ends with is a
reply under the transaction id. -/
def StageReplies (key : Xid) : Stage R → Prop
  | .assemble bytes => ∃ xid rest, xid.length = 4 ∧ key = wordOf xid ∧ bytes = xid ++ rest
  | .header _ count next got => got.length < count ∧
    ∀ chunk, chunk.length = count → (next chunk).Ensures fun message _ => message.IsReplyTo key
  | .payload _ reply _ _ | .probe _ reply _ _ | .extra _ reply _ _ => reply.IsReplyTo key
  | .ended _ result => ∀ value, result = .ok value → value.1.IsReplyTo key
  | .panicked _ => True

namespace StageReplies

/-- A receive that has failed has no reply. -/
theorem ended_error {R : Type} {key : Xid} (sender : ResponseSender R) (error : RuntimeError) :
    StageReplies key (Stage.ended sender (.error error)) := by
  intro value heq
  cases heq

variable {key : Xid} {stage : Stage R} {chunk : Bytes}

/-- The envelope of a record is that of a reply. -/
theorem ensures_replyHeader {xid : Bytes} (h4 : xid.length = 4) :
    (replyHeader xid).Ensures fun message _ => message.IsReplyTo (wordOf xid) := by
  refine (replyHeader_ensures h4).mono fun message chunk hmessage => ?_
  obtain ⟨hdecode, rest, hchunk⟩ := hmessage
  refine ⟨?_, RpcMessage.xid_of_decode h4 hdecode⟩
  obtain ⟨-, -, hwire⟩ := (RpcMessage.decode_eq_ok_iff_wire _ _).mp hdecode
  obtain ⟨xid', body⟩ := message
  cases body with
  | reply reply => rfl
  | call call =>
    -- A call has message type zero where the envelope has one.
    rw [hchunk, ← beBytes_wordOf h4] at hwire
    simp [RpcMessage.wire, MessageType.number] at hwire

/-- A record that was put together. -/
theorem of_assembled {bytes xid rest : Bytes} (h4 : xid.length = 4) (hbytes : bytes = xid ++ rest)
    {value : RpcMessage × ℕ} (h : assembled bytes = .ok value) :
    value.1.IsReplyTo (wordOf xid) := by
  unfold assembled at h
  split at h
  · cases h
  · next message hdecode =>
    split_ifs at h with hreply
    cases h
    rw [hbytes] at hdecode
    exact ⟨hreply, RpcMessage.xid_of_decode h4 hdecode⟩

/-- The record ends where the stage reads. -/
theorem atEnd (h : StageReplies key stage) {wants : ℕ} {value : RpcMessage × ℕ}
    (hpending : stage.pending = some (wants, .ok value)) : value.1.IsReplyTo key := by
  cases stage with
  | assemble bytes =>
    obtain ⟨xid, rest, h4, rfl, hbytes⟩ := h
    simp only [Stage.pending, Option.some.injEq, Prod.mk.injEq] at hpending
    exact of_assembled h4 hbytes hpending.2
  | header => cases hpending
  | payload target reply length room | probe target reply success length =>
    cases hpending
    exact h
  | extra target reply success count =>
    simp only [Stage.pending, Option.some.injEq, Prod.mk.injEq, overrun] at hpending
    have hresult := hpending.2
    split_ifs at hresult
    cases hresult
    exact h
  | ended | panicked => cases hpending

variable [ReplyReceiver R]

theorem nextRange {target : Target R} {reply : RpcMessage} (h : reply.IsReplyTo key)
    (length : ℕ) : StageReplies key (Stage.nextRange target reply length) := by
  unfold Stage.nextRange
  split
  · nofun
  · exact h
  · exact h

theorem ofProgram {target : Target R} {program : Envelope RpcMessage}
    (h : program.Ensures fun message _ => message.IsReplyTo key) :
    StageReplies key (Stage.ofProgram target program) := by
  cases program with
  | pure reply =>
    simp only [Stage.ofProgram]
    split_ifs
    · exact nextRange h 0
    · exact h
  | fail error => exact ended_error _ error
  | panic => trivial
  | read count next => exact h

/-- The stage before the rest of the record arrives. -/
theorem start {xid : Bytes} (h4 : xid.length = 4) (cursor : RecordReader)
    (sender : ResponseSender R) :
    StageReplies (wordOf xid) (Receive.start cursor xid sender).stage := by
  cases sender with
  | buffered => exact ⟨xid, [], h4, rfl, (List.append_nil xid).symm⟩
  | segmented target => exact ofProgram (ensures_replyHeader h4)

/-- A piece of the record arrives. -/
theorem feed (h : StageReplies key stage)
    (hfit : ∀ wants atEnd, stage.pending = some (wants, atEnd) → chunk.length ≤ wants) :
    StageReplies key (stage.feed chunk) := by
  cases stage with
  | assemble bytes =>
    obtain ⟨xid, rest, h4, hkey, rfl⟩ := h
    exact ⟨xid, rest ++ chunk, h4, hkey, by rw [List.append_assoc]⟩
  | header target count next got =>
    obtain ⟨hlt, hensures⟩ := h
    have hle := hfit _ _ rfl
    simp only [Stage.feed]
    split_ifs with hfull
    · have hcount : (got ++ chunk).length = count := by
        rw [List.length_append] at hfull ⊢
        omega
      exact ofProgram (hensures _ hcount)
    · exact ⟨by omega, hensures⟩
  | payload target reply length room =>
    simp only [Stage.feed]
    split
    · exact ended_error _ _
    · exact nextRange h _
  | probe | extra | ended | panicked => exact h

/-- The stream answers the read of a receive. -/
theorem resume {receive : Receive R} {result : ReadResult IoError} {count : ℕ}
    (h : StageReplies key receive.stage) (hpoll : receive.poll = .await count)
    (hanswers : Conn.answers count result = true) :
    StageReplies key (receive.resume result).stage := by
  obtain ⟨wants, atEnd, hpending, hawait⟩ := Receive.pending_of_await hpoll
  unfold Receive.resume
  split
  · exact h
  · nofun
  · next cursor got heq =>
    refine h.feed fun wants' atEnd' hpending' => ?_
    rw [hpending] at hpending'
    cases hpending'
    exact RecordReader.payload_le_wants hawait hanswers heq

end StageReplies

namespace Conn

/-- A receive that is over with a message has a reply. -/
theorem isReplyTo_of_ready {key : Xid} {receive : Receive R} {value : RpcMessage × ℕ}
    (h : StageReplies key receive.stage) (hpoll : receive.poll = .ready (some (.ok value))) :
    value.1.IsReplyTo key := by
  unfold Receive.poll at hpoll
  split at hpoll
  · next wants atEnd hpending =>
    unfold RecordReader.awaitRead at hpoll
    split at hpoll
    · cases hpoll
      exact h.atEnd hpending
    · cases hpoll
    · cases hpoll
  · cases hstage : receive.stage with
    | ended sender result =>
      rw [hstage] at h hpoll
      cases hpoll
      exact h value rfl
    | _ =>
      rw [hstage] at hpoll
      cases hpoll

/-- The message of a reply is the one that was received. -/
theorem received_of_result {sender : ResponseSender R}
    {received : Except RuntimeError (RpcMessage × ℕ)} {message : RpcMessage}
    (h : (sender.reply received).result = .ok message) :
    ∃ value, received = .ok value ∧ message = value.1 := by
  cases received with
  | error error =>
    rw [ResponseSender.reply_error] at h
    cases h
  | ok value =>
    refine ⟨value, rfl, ?_⟩
    cases sender with
    | buffered =>
      cases h
      rfl
    | segmented target =>
      simp only [ResponseSender.reply, Reply.result, segmentedResult] at h
      split_ifs at h
      cases h
      rfl

/-- The reader has taken four bytes for a transaction id, and receives a reply under it. -/
def ReaderReplies : ReaderPhase R → Prop
  | .xid _ got => got.length < 4
  | .lookup _ xid => xid.length = 4
  | .receiving _ key receive => StageReplies key receive.stage
  | _ => True

theorem ReaderReplies.nextRecord (cfg : Config) :
    ReaderReplies (ReaderPhase.nextRecord cfg : ReaderPhase R) := by
  rw [ReaderPhase.nextRecord_eq]
  exact Nat.zero_lt_succ 3

variable [ReplyReceiver R] {cfg : Config} {s s' : Conn R} {action : Action R}

/-- The stream answers the reader. -/
theorem ReaderReplies.read {result : ReadResult IoError} {phase phase' : ReaderPhase R}
    (h : ReaderReplies phase) (hmove : ReadMoves result phase phase') : ReaderReplies phase' := by
  cases hmove with
  | @xid cursor got count hpoll hanswers =>
    have hgot : got.length < 4 := h
    unfold xidPhase
    split
    · exact h
    · trivial
    · next cursor' chunk heq =>
      have hle := RecordReader.payload_le_wants hpoll hanswers heq
      split_ifs with hfull
      · rw [List.length_append] at hfull
        simp only [ReaderReplies, List.length_append]
        omega
      · simpa [ReaderReplies] using hfull
  | @receiving token key receive count hpoll hanswers => exact StageReplies.resume h hpoll hanswers
  | draining =>
    unfold drainPhase
    split <;> trivial

/-- A step keeps this. -/
theorem ReaderReplies.step (h : ReaderReplies s.reader) (hmove : Moves cfg s action s') :
    ReaderReplies s'.reader := by
  rcases RegistryInv.reader_eq_or hmove with ⟨hsame, -⟩ | hmove
  · rwa [hsame]
  · cases hmove with
    | read hread => exact h.read hread
    | take hreader =>
      rw [hreader] at h
      exact StageReplies.start h _ _
    | @cleanup token key result hreader =>
      rcases result with error | ⟨⟨⟩⟩
      · trivial
      · exact ReaderReplies.nextRecord cfg
    | _ => trivial

theorem ReaderReplies.of_reachable (h : Reachable cfg s) : ReaderReplies s.reader :=
  h.invariant (fun t => ReaderReplies t.reader) (.nextRecord cfg)
    fun ht _ hstep => ht.step (moves_of_step hstep)

/-- A call on a connection that ended with a message ended with a reply under its own transaction
id. -/
theorem reply_of_finished {actions : List (Action R)}
    (h : Trace (step cfg) (fun _ _ => True) (initial cfg) actions s) {id : ℕ} {reply : Reply R}
    {message : RpcMessage} (hphase : (s.calls id).phase = .finished reply)
    (hok : reply.result = .ok message) : message.IsReplyTo (s.calls id).xid := by
  have hinv := FutureInv.of_trace h id
  obtain ⟨-, -, decision, -, houtcome⟩ := hinv.taken reply (by rw [hphase]; rfl)
  cases houtcome with
  | stopped _ hresult | ended _ _ hresult =>
    rw [hok] at hresult
    cases hresult
  | computed hcomputes =>
    obtain ⟨before, action, after, t, u, -, hbefore, -, hstep, hevent, hafter⟩ :=
      hcomputes.on_trace h
    obtain ⟨-, -, receive, received, hreader, hpoll, rfl⟩ := hevent
    obtain ⟨value, rfl, rfl⟩ := received_of_result hok
    have hreplies := ReaderReplies.of_reachable hbefore.runs
    rw [hreader] at hreplies
    have hreg := RegistryInv.of_reachable hbefore.runs
    have hregistered := (hreg.receiving id _ receive hreader).2.1
    -- The call keeps its transaction id to the end of the run.
    obtain ⟨hxid, -⟩ := runs_keep hreg hregistered
      (((Runs.refl t).tail trivial hstep).trans hafter.runs)
    rw [hxid]
    exact isReplyTo_of_ready hreplies hpoll

end Conn

/-! ## The reader of a datagram socket -/

namespace UdpClient

/-- The reader does not look up a call of the peer under a transaction id that is in flight. -/
def NoPeerCall (s : UdpClient) (action : UdpAction) : Prop :=
  action = .lookup → ∀ message, s.reader = .decoded message → message.isReply = false →
    s.pending.lookup message.xid = none

/-- On a run without such a step, a call that ended with a message ended with a reply under its own
transaction id. -/
theorem reply_of_ended {cfg : UdpConfig} {actions : List UdpAction} {s : UdpClient}
    (h : Trace (step cfg) NoPeerCall UdpClient.initial actions s) {id : ℕ} {message : RpcMessage}
    (hended : (s.calls id).phase = .ended (some (.ok message))) :
    message.IsReplyTo (s.calls id).request.xid := by
  have hplain : Trace (step cfg) (fun _ _ => True) UdpClient.initial actions s :=
    h.mono fun _ _ _ => trivial
  have hinv := Registered.of_runs hplain.runs
  have hchannel := hinv.outcome id message (.inr hended)
  refine ⟨?_, hinv.channel id message hchannel⟩
  obtain ⟨before, action, after, u, v, -, -, hquiet, hstep, hmatches, -⟩ :=
    ((Matched.of_trace hplain).channel id message hchannel).on_trace h
  obtain ⟨hreader, hentry, hfound⟩ := hmatches
  -- The step at which the message was matched is a lookup.
  have hlookup : action = .lookup := by
    cases action with
    | lookup => rfl
    | call request options =>
      cases hstep
      exact absurd (hreader.symm.trans hfound) nofun
    | step other act =>
      rw [(keeps_of_callMoves (moves_of_callStep hstep)).1, hreader] at hfound
      cases hfound
    | datagram | receiveError | answer | takeAll | failNext | failDone | abortReader =>
      simp only [step, readerStep, hreader] at hstep
      cases hstep
  by_contra hcall
  rw [hquiet hlookup message hreader (by simpa using hcall)] at hentry
  cases hentry

end UdpClient

/-! ## All transports -/

/-- Whenever a built-in transport completes a call with a message, the message is a reply under the
transaction id of the request: on a connection always, for both kinds of calls, whatever the peer
sends; on a datagram socket on every run on which the reader does not match a call of the peer with
a transaction id in flight. -/
theorem transports_return_replies [ReplyReceiver R] :
    (∀ (cfg : Config) (actions : List (Action R)) (s : Conn R),
      Trace (Conn.step cfg) (fun _ _ => True) (Conn.initial cfg) actions s →
      ∀ id reply message, (s.calls id).phase = .finished reply → reply.result = .ok message →
        message.isReply = true ∧ message.xid = (s.calls id).xid) ∧
    ∀ (cfg : UdpConfig) (actions : List UdpAction) (s : UdpClient),
      Trace (UdpClient.step cfg) UdpClient.NoPeerCall .initial actions s →
      ∀ id message, (s.calls id).phase = .ended (some (.ok message)) →
        message.isReply = true ∧ message.xid = (s.calls id).request.xid :=
  ⟨fun _ _ _ htrace _ _ _ hphase hok => Conn.reply_of_finished htrace hphase hok,
    fun _ _ _ htrace _ _ hended => UdpClient.reply_of_ended htrace hended⟩

/-- A call of the peer with transaction id 7. -/
def peerCall : RpcMessage := ⟨7, .call ⟨2, ⟨3, 1⟩, 0, .none, .none, []⟩⟩

/-- A call is sent, and the peer sends a call of its own under the same transaction id. -/
def peerCallSteps : List UdpAction :=
  [.call ⟨7, .call ⟨2, ⟨9, 1⟩, 4, .none, .none, []⟩⟩ ⟨false, .none⟩, .step 0 .register,
    .step 0 (.sent (.ok ())),
    .datagram [0, 0, 0, 7, 0, 0, 0, 0, 0, 0, 0, 2, 0, 0, 0, 3, 0, 0, 0, 1, 0, 0, 0, 0, 0, 0, 0, 0,
      0, 0, 0, 0, 0, 0, 0, 0, 0, 0, 0, 0],
    .lookup, .answer, .step 0 .receive, .step 0 .unregister]

/-- The call is completed with the call of the peer. -/
theorem peer_call_returned : ∃ s : UdpClient,
    Trace (UdpClient.step ⟨none, none⟩) (fun _ _ => True) .initial peerCallSteps s ∧
      (s.calls 0).phase = .ended (some (.ok peerCall)) ∧ peerCall.isReply = false := by
  obtain ⟨s, htrace, hended⟩ := @Trace.exists_of_runList _ _ (UdpClient.step ⟨none, none⟩)
    (fun _ _ => True) .initial (fun _ _ => true) peerCallSteps _ (fun s => (s.calls 0).phase)
    (.ended (some (.ok peerCall))) (fun _ _ _ => trivial) (by decide +kernel)
  exact ⟨s, htrace, hended, rfl⟩

/-- The reader has no message of a call. -/
def readsReply (s : UdpClient) : Bool :=
  match s.reader with
  | .decoded message => message.isReply
  | _ => true

/-- A reply is returned as such. -/
theorem transports_return_replies_early : ∃ s : UdpClient,
    (s.calls 0).phase = .ended (some (.ok earlyReply)) ∧ earlyReply.isReply = true ∧
      earlyReply.xid = (s.calls 0).request.xid := by
  obtain ⟨s, htrace, hended⟩ := @Trace.exists_of_runList _ _ (UdpClient.step ⟨none, none⟩)
    UdpClient.NoPeerCall .initial
    (fun s _ => readsReply s)
    earlySteps _ (fun s => (s.calls 0).phase) (.ended (some (.ok earlyReply)))
    (fun s action hcheck _ message hreader hcall => by simp [readsReply, hreader, hcall] at hcheck)
    (by decide +kernel)
  exact ⟨s, hended, (@transports_return_replies Buffers _).2 _ _ s htrace 0 earlyReply hended⟩

end OncRpc
