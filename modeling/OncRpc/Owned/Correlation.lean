import OncRpc.Owned.Outcome
import OncRpc.Owned.Sync

/-!
# Which record answers a call

The reader takes a call by the transaction id at the start of a record, and what it computes for the
call is computed from the rest of that record.  `reply_correlation` follows a reply back to it: on a
run without a misread, a call that finished with a reply was looked up, while it was registered, by
the transaction id of one whole record of the stream, and the reply is the decoding of that record.
Records that nobody is registered for change no call and no entry.

After a misread the reader may take payload for records (`reply_from_payload`).
-/

namespace OncRpc

open Foundation

variable {R : Type}

/-- The reader takes this step. -/
def Action.isReader : Action R → Bool
  | .read _ | .turn | .noticeStop | .aborted => true
  | _ => false

/-- A message that starts with a transaction id has it. -/
theorem RpcMessage.xid_of_decode {xid rest : Bytes} {m : RpcMessage} (h4 : xid.length = 4)
    (h : RpcMessage.decode (xid ++ rest) = .ok m) : m.xid = wordOf xid := by
  obtain ⟨-, -, hwire⟩ := (RpcMessage.decode_eq_ok_iff_wire _ _).mp h
  unfold RpcMessage.wire at hwire
  obtain ⟨hxid, -⟩ := List.append_inj hwire (by rw [h4, beBytes_length])
  rw [hxid, wordOf_beBytes]

namespace Conn

variable [ReplyReceiver R] {cfg : Config} {s s' : Conn R} {action : Action R}
  {actions : List (Action R)}

/-! ## Events -/

/-- The reader, after whole records of the stream, looks the transaction id of the next record up
and takes a registered call for it. -/
def LooksUp (id : ℕ) (key : Xid) (records : List Record) (s : Conn R) (_ : Action R)
    (s' : Conn R) : Prop :=
  (∃ cursor xid taken, s.reader = .lookup cursor xid ∧ key = wordOf xid ∧
    s.consumed = records.flatMap Record.bytes ++ taken) ∧
  (s.calls id).phase.isRegistered = true ∧
  s.pending.lookup key = some ⟨id, some (s.calls id).sender⟩ ∧
  ∃ receive, s'.reader = .receiving id key receive

/-- The reader computes the reply of a call: after whole records of the stream it has taken the
record `r`, whose payload it was fed in pieces. -/
def Completes (id : ℕ) (reply : Reply R) (records : List Record) (r : Record) (xid : Bytes)
    (chunks : List Bytes) (s : Conn R) (action : Action R) (s' : Conn R) : Prop :=
  Computes id reply s action s' ∧ s.consumed = records.flatMap Record.bytes ++ r.bytes ∧
    ∃ receive, s.reader = .receiving id (s.calls id).xid receive ∧
      receive.stage = Stage.after (s.calls id).sender xid chunks

/-! ## The history of a receive -/

/-- The reader is in step, and the call it receives for was looked up for the current record. -/
def Traced (cfg : Config) (actions : List (Action R)) (s : Conn R) : Prop :=
  ∃ (records : List Record) (taken : Bytes), (∀ r ∈ records, r.Within cfg.limits) ∧
    s.consumed = records.flatMap Record.bytes ++ taken ∧
    ReaderAt True cfg.limits s.calls taken s.reader ∧
    ∀ id key receive, s.reader = .receiving id key receive →
      Happened (step cfg) (initial cfg) actions (LooksUp id key records)

/-- A step that does not misread keeps the history. -/
theorem Traced.step (hinv : Traced cfg actions s) (hreg : RegistryInv s)
    (htrace : Trace (Conn.step cfg) (fun t a => ¬ Misreads cfg t a) (initial cfg) actions s)
    (hclean : ¬ Misreads cfg s action) (hstep : Conn.step cfg s action = some s') :
    Traced cfg (actions ++ [action]) s' := by
  have hmove := moves_of_step hstep
  obtain ⟨records, taken, hrecords, hconsumed, hat, hlooked⟩ := hinv
  cases hreturns : s.returns action with
  | true =>
    obtain ⟨hsame, token, key, result, hreader, hreader'⟩ := returns_cases hmove hreturns
    rw [hreader] at hat
    have hnot : ∀ id key receive, s'.reader ≠ .receiving id key receive := by
      intro id key' receive heq
      have hholds := (@afterCleanup_holds R cfg result).1
      rw [← hreader', heq] at hholds
      cases hholds
    rcases result with error | ⟨⟨⟩⟩
    · refine ⟨records, taken, hrecords, by rw [hsame, hconsumed], ?_, ?_⟩
      · rw [hreader']
        trivial
      · intro id key' receive heq
        exact absurd heq (hnot id key' receive)
    · obtain ⟨r, hwithin, rfl⟩ := hat
      refine ⟨records ++ [r], [], ?_, ?_, ?_, ?_⟩
      · intro r' hr'
        rcases List.mem_append.mp hr' with hr' | hr'
        · exact hrecords r' hr'
        · rw [List.mem_singleton.mp hr']
          exact hwithin
      · rw [hsame, hconsumed]
        simp
      · rw [hreader']
        exact readerAt_nextRecord cfg _
      · intro id key' receive heq
        exact absurd heq (hnot id key' receive)
  | false =>
    obtain ⟨chunk, hchunk, hat'⟩ := readerAt_step hreg hmove hat hrecords hconsumed hclean hreturns
      (.inl trivial)
    refine ⟨records, taken ++ chunk, hrecords, ?_, hat', ?_⟩
    · rw [hchunk, hconsumed, List.append_assoc]
    · intro id key receive hreader'
      rcases RegistryInv.reader_eq_or hmove with ⟨hsame, -⟩ | hmove'
      · rw [hsame] at hreader'
        exact (hlooked id key receive hreader').snoc action
      · rcases RegistryInv.receiving_cases hmove' hreader' with
          ⟨before, result, count, -, hbefore, -⟩ | ⟨cursor, bytes, sender, hlookup, hkey, hentry, -⟩
        · exact (hlooked id key before hbefore).snoc action
        · obtain ⟨-, hregistered, hsender⟩ := hreg.entries _ _ hentry
          refine .last htrace hstep ⟨⟨cursor, bytes, taken, hlookup, hkey, hconsumed⟩, hregistered,
            ?_, receive, hreader'⟩
          rw [hentry, ← hsender sender rfl]

/-- Every run without a misread has the history. -/
theorem Traced.of_trace
    (h : Trace (Conn.step cfg) (fun t a => ¬ Misreads cfg t a) (initial cfg) actions s) :
    Traced cfg actions s := by
  induction h with
  | nil =>
    refine ⟨[], [], nofun, rfl, readerAt_nextRecord cfg _, ?_⟩
    intro id key receive hreader
    rw [show (initial cfg : Conn R).reader = .nextRecord cfg from rfl, ReaderPhase.nextRecord_eq]
      at hreader
    cases hreader
  | snoc htrace hclean hstep ih =>
    exact ih.step (.of_reachable (htrace.runs.mono fun _ _ _ => trivial)) htrace hclean hstep

/-! ## Records for nobody -/

/-- The reader consumes a record that nobody is registered for. -/
def Skips (s : Conn R) (key : Xid) : Prop :=
  (∃ cursor xid, s.reader = .lookup cursor xid ∧ key = wordOf xid ∧ s.pending.lookup key = none) ∨
  (∃ cursor, s.reader = .draining none key cursor) ∨ ∃ result, s.reader = .cleanup none key result

theorem readerMoves_of_isReader (hreader : action.isReader = true)
    (hstep : step cfg s action = some s') : ReaderMoves cfg s action s' := by
  cases moves_of_step hstep with
  | reader hbusy h => exact h
  | _ => cases hreader

/-- A step of the reader on a record for nobody changes no call and no entry, and the reader goes on
with the record, is done with it, or is at its end. -/
theorem Skips.reader {key : Xid} (hskips : s.Skips key) (h : ReaderMoves cfg s action s') :
    s'.calls = s.calls ∧ s'.pending = s.pending ∧
      (s'.Skips key ∨ s'.reader = .nextRecord cfg ∨ (∃ error, s'.reader = .failing error) ∨
        s'.reader = .exiting) := by
  rcases hskips with ⟨cursor, xid, hreader, hkey, hnone⟩ | ⟨cursor, hreader⟩ | ⟨result, hreader⟩
  · cases h with
    | read h =>
      rw [hreader] at h
      cases h
    | orphan => exact ⟨rfl, rfl, .inr (.inr (.inl ⟨_, rfl⟩))⟩
    | take hreader' _ hentry | taken hreader' _ hentry =>
      rw [hreader] at hreader'
      cases hreader'
      rw [← hkey, hnone] at hentry
      cases hentry
    | unregistered hreader' =>
      rw [hreader] at hreader'
      cases hreader'
      exact ⟨rfl, rfl, .inl (.inr (.inl ⟨cursor, by rw [hkey]⟩))⟩
    | abort _ hphase =>
      rw [hreader] at hphase
      exact hphase.elim
    | xidFails h | answer h | stopped h | unwind h | drained h | cleanup h | orphanFails h | fail h
    | retire h | orphanExits h | exit h | exitTake h | discard habort h =>
      rw [hreader] at h
      cases h
  · cases h with
    | @read result phase h =>
      refine ⟨rfl, rfl, .inl ?_⟩
      rw [hreader] at h
      cases h with
      | draining hpoll hanswers =>
        unfold drainPhase
        split
        · exact .inr (.inr ⟨_, rfl⟩)
        · exact .inr (.inl ⟨_, rfl⟩)
        · exact .inr (.inl ⟨_, rfl⟩)
    | drained hreader' =>
      rw [hreader] at hreader'
      cases hreader'
      exact ⟨rfl, rfl, .inl (.inr (.inr ⟨_, rfl⟩))⟩
    | abort => exact ⟨rfl, rfl, .inr (.inr (.inr rfl))⟩
    | xidFails h | orphan h | take h | taken h | unregistered h | answer h | stopped h | unwind h
    | cleanup h | orphanFails h | fail h | retire h | orphanExits h | exit h | exitTake h
    | discard habort h =>
      rw [hreader] at h
      cases h
  · cases h with
    | read h =>
      rw [hreader] at h
      cases h
    | cleanup hreader' =>
      rw [hreader] at hreader'
      cases hreader'
      refine ⟨rfl, rfl, .inr ?_⟩
      rcases result with error | ⟨⟨⟩⟩
      · exact .inr (.inl ⟨error, rfl⟩)
      · exact .inl rfl
    | abort _ hphase =>
      rw [hreader] at hphase
      exact hphase.elim
    | xidFails h | orphan h | take h | taken h | unregistered h | answer h | stopped h | unwind h
    | drained h | orphanFails h | fail h | retire h | orphanExits h | exit h | exitTake h
    | discard habort h =>
      rw [hreader] at h
      cases h

/-! ## Reply correlation -/

/-- A reply the reader computed is the decoding of the record it took. -/
theorem completes_of_computes {id : ℕ} {reply : Reply R} {message : RpcMessage}
    (hcomputes : Computes id reply s action s') (hok : reply.result = .ok message)
    {records : List Record} {taken : Bytes}
    (hconsumed : s.consumed = records.flatMap Record.bytes ++ taken)
    (hat : ReaderAt True cfg.limits s.calls taken s.reader) :
    ∃ (r : Record) (xid : Bytes) (chunks : List Bytes) (m : RpcMessage), r.Within cfg.limits ∧
      r.data = xid ++ chunks.flatten ∧ xid.length = 4 ∧ wordOf xid = (s.calls id).xid ∧
      RpcMessage.decode r.data = .ok m ∧ m.isReply = true ∧
      message = (if reply.isBuffered then m else m.header) ∧
      Completes id reply records r xid chunks s action s' := by
  have hcopy := hcomputes
  obtain ⟨-, -, receive, received, hreader, hpoll, rfl⟩ := hcopy
  have hvalue : ∃ value, received = .ok value ∧ message = value.1 := by
    cases received with
    | error error =>
      rw [ResponseSender.reply_error] at hok
      cases hok
    | ok value =>
      refine ⟨value, rfl, ?_⟩
      cases hsender : receive.stage.sender with
      | buffered =>
        rw [hsender] at hok
        cases hok
        rfl
      | segmented target =>
        rw [hsender] at hok
        simp only [ResponseSender.reply, Reply.result, segmentedResult] at hok
        split_ifs at hok
        cases hok
        rfl
  obtain ⟨value, rfl, rfl⟩ := hvalue
  rw [hreader] at hat
  obtain ⟨xid, chunks, r, h4, hkey, hwithin, rfl, hdata, hstage, hreads, wants, hpending⟩ :=
    ReceiveAt.of_ready_ok hat hpoll
  obtain ⟨m, hdecode, hreply, hmessage⟩ := hreads.decode_of_pending h4 hpending
  rw [← hdata] at hdecode
  refine ⟨r, xid, chunks, m, hwithin, hdata, h4, hkey.symm, hdecode, hreply, ?_, hcomputes,
    hconsumed, receive, hreader, hstage⟩
  rw [ResponseSender.reply_isBuffered]
  exact hmessage

/-- A registered call keeps its transaction id and its sender over a run. -/
theorem runs_keep {id : ℕ} (hreg : RegistryInv s) (hid : (s.calls id).phase.isRegistered = true)
    (h : Runs (step cfg) (fun _ _ => True) s s') :
    (s'.calls id).xid = (s.calls id).xid ∧ (s'.calls id).sender = (s.calls id).sender := by
  refine (h.invariant (fun t => RegistryInv t ∧ (t.calls id).phase.isRegistered = true ∧
    (t.calls id).xid = (s.calls id).xid ∧ (t.calls id).sender = (s.calls id).sender)
    ⟨hreg, hid, rfl, rfl⟩ ?_).2.2
  rintro t a u ⟨hreg, hid, hxid, hsender⟩ - hstep
  have hmove := moves_of_step hstep
  have hlater := hmove.later (hreg.fresh _ le_rfl) (RegistryInv.ne_absent hid)
  exact ⟨hreg.step hmove, hlater.registered hid, hlater.xid.trans hxid,
    hlater.sender.trans hsender⟩

/-- Reply correlation, on runs without a misread.  A call that finished with a reply was answered
from one whole record `r` of the stream, which follows other whole records and is within the limits:
the record bears the transaction id of the call; the reader looked that transaction id up, and found
the call registered, after the records before `r`; what it fed to the call is the rest of `r`; and
the reply is the decoding of `r` (its envelope, for a segmented call).  A step of the reader on a
record that nobody is registered for changes no call and no entry. -/
theorem reply_correlation (cfg : Config) (actions : List (Action R)) (s : Conn R)
    (h : Trace (step cfg) (fun t a => ¬ Misreads cfg t a) (initial cfg) actions s) :
    (∀ id reply message, (s.calls id).phase = .finished reply → reply.result = .ok message →
      ∃ (records : List Record) (r : Record) (xid : Bytes) (chunks : List Bytes) (m : RpcMessage),
        (∀ r' ∈ records, r'.Within cfg.limits) ∧ r.Within cfg.limits ∧
        r.data = xid ++ chunks.flatten ∧ xid.length = 4 ∧ wordOf xid = (s.calls id).xid ∧
        RpcMessage.decode r.data = .ok m ∧ m.isReply = true ∧ m.xid = (s.calls id).xid ∧
        message = (if (s.calls id).sender.isBuffered then m else m.header) ∧
        Happened (step cfg) (initial cfg) actions (LooksUp id (s.calls id).xid records) ∧
        Happened (step cfg) (initial cfg) actions (Completes id reply records r xid chunks)) ∧
    (∀ key action s', s.Skips key → action.isReader = true → step cfg s action = some s' →
      s'.calls = s.calls ∧ s'.pending = s.pending ∧
        (s'.Skips key ∨ s'.reader = .nextRecord cfg ∨ (∃ error, s'.reader = .failing error) ∨
          s'.reader = .exiting)) := by
  refine ⟨?_, fun key action s' hskips hreader hstep => ?_⟩
  swap
  · exact hskips.reader (readerMoves_of_isReader hreader hstep)
  intro id reply message hphase hok
  have hinv := FutureInv.of_trace (h.mono fun _ _ _ => trivial) id
  obtain ⟨hkind, -, decision, -, houtcome⟩ := hinv.taken reply (by rw [hphase]; rfl)
  cases houtcome with
  | stopped _ hresult | ended _ _ hresult =>
    rw [hok] at hresult
    cases hresult
  | computed hcomputes =>
    obtain ⟨before, action, after, t, u, hactions, hbefore, -, hstep, hevent, hafter⟩ :=
      hcomputes.on_trace h
    have hreg := RegistryInv.of_reachable (hbefore.runs.mono fun _ _ _ => trivial)
    obtain ⟨records, taken, hrecords, hconsumed, hat, hlooked⟩ := Traced.of_trace hbefore
    obtain ⟨r, xid, chunks, m, hwithin, hdata, h4, hkey, hdecode, hreply, hmessage, hcompletes⟩ :=
      completes_of_computes hevent hok hconsumed hat
    obtain ⟨-, -, receive, received, hreader, -⟩ := hevent
    have hregistered := (hreg.receiving id _ receive hreader).2.1
    -- From the event on, the call keeps its transaction id.
    have hrest : Runs (step cfg) (fun _ _ => True) t s :=
      ((Runs.refl t).tail trivial hstep).trans (hafter.runs.mono fun _ _ _ => trivial)
    obtain ⟨hxid, -⟩ := runs_keep hreg hregistered hrest
    rw [← hxid] at hkey
    have hmxid := RpcMessage.xid_of_decode h4 (hdata ▸ hdecode)
    refine ⟨records, r, xid, chunks, m, hrecords, hwithin, hdata, h4, hkey, hdecode, hreply,
      hmxid.trans hkey, ?_, ?_, ?_⟩
    · rw [← hkind]
      exact hmessage
    · rw [hactions, hxid]
      exact (hlooked id _ receive hreader).append _
    · exact ⟨before, action, after, t, u, hactions, hbefore.mono fun _ _ _ => trivial, hstep,
        hcompletes⟩

/-- The call the reader receives for is stopped. -/
def receivesStopped (s : Conn R) : Bool :=
  match s.reader with
  | .receiving token _ _ => (s.calls token).control.error.isSome
  | _ => false

omit [ReplyReceiver R] in
theorem not_misreads_of_check (h : s.receivesStopped = false) : ¬ Misreads cfg s action := by
  rintro ⟨-, token, key, receive, hreader, hstopped, -⟩
  simp [receivesStopped, hreader, hstopped] at h

/-- A call is answered by the record that bears its transaction id. -/
theorem reply_correlation_answered : ∃ (actions : List (Action Buffers)) (s : Conn Buffers),
    Trace (step .plain) (fun t a => ¬ Misreads .plain t a) (initial .plain) actions s ∧
    (s.calls 0).phase.finalResult = some (.ok (.nullReply 7)) ∧
    ∃ r : Record, r.Within .default ∧ RpcMessage.decode r.data = .ok (.nullReply 7) := by
  obtain ⟨s, htrace, hseen⟩ := @Trace.exists_of_runList _ _ (step .plain)
    (fun t a => ¬ Misreads .plain t a) (initial .plain : Conn Buffers)
    (fun t _ => !t.receivesStopped)
    ([.admitCall (.classic (.nullCall 7)) ⟨false, .none⟩] ++ sendSteps 0 44 ++ replyReads 7 ++
      takeSteps 0)
    _ (fun s => ((s.calls 0).phase.finalResult, (s.calls 0).sender.isBuffered))
    (some (.ok (.nullReply 7)), true)
    (fun t a hcheck => not_misreads_of_check (by rwa [Bool.not_eq_true'] at hcheck))
    (by decide +kernel)
  obtain ⟨hresult, hbuffered⟩ := Prod.mk.inj hseen
  refine ⟨_, s, htrace, hresult, ?_⟩
  unfold Phase.finalResult at hresult
  split at hresult
  · next reply hphase =>
    obtain ⟨records, r, xid, chunks, m, -, hwithin, -, -, -, hdecode, -, -, hmessage, -⟩ :=
      (reply_correlation .plain _ s htrace).1 0 reply _ hphase (Option.some.inj hresult)
    rw [hbuffered, if_pos rfl] at hmessage
    rw [hmessage]
    exact ⟨r, hwithin, hdecode⟩
  · cases hresult

/-- A call is cancelled after a marker took its record over the byte limit, and before the reader
decides: the reader goes on inside the payload of that record, and answers another call from it.
The stream has not given one whole record. -/
theorem reply_from_payload : ∃ s : Conn Buffers, Reachable .plain s ∧
    (s.calls 1).phase.finalResult = some (.ok (.nullReply 8)) ∧
    ¬ ∃ (records : List Record) (r : Record) (rest : Bytes),
      s.consumed = records.flatMap Record.bytes ++ (r.bytes ++ rest) := by
  obtain ⟨s, hs, hseen⟩ := @exists_reachable Buffers _ .plain
    ([.admitCall (.classic (.nullCall 7)) ⟨true, .none⟩,
      .admitCall (.classic (.nullCall 8)) ⟨false, .none⟩, .call 0 .step] ++ sendSteps 1 44 ++
      [.read (.bytes [0, 0, 0, 4]), .read (.bytes [0, 0, 0, 7]), .turn,
        .read (.bytes [127, 255, 255, 255]), .call 0 (.interrupt .cancelled), .call 0 .step, .turn,
        .read (.bytes [128, 0, 0, 0]), .turn, .turn] ++ replyReads 8 ++ takeSteps 1)
    _ (fun s => ((s.calls 1).phase.finalResult, s.consumed))
    (some (.ok (.nullReply 8)), Record.moreBytes [[0, 0, 0, 7]] ++
      (markerBytes false (2 ^ 31 - 1) ++ ([128, 0, 0, 0, 128, 0, 0, 24, 0, 0, 0, 8] ++
        [0, 0, 0, 1, 0, 0, 0, 0, 0, 0, 0, 0, 0, 0, 0, 0, 0, 0, 0, 0])))
    (by decide +kernel)
  obtain ⟨hresult, hconsumed⟩ := Prod.mk.inj hseen
  refine ⟨s, hs, hresult, ?_⟩
  rintro ⟨records, r, rest, hstream⟩
  -- The first whole record would start with the record that is over the limit.
  obtain ⟨first, tail, hfirst⟩ : ∃ (first : Record) (tail : Bytes),
    s.consumed = first.bytes ++ tail := by
    cases records with
    | nil => exact ⟨r, rest, hstream⟩
    | cons first records =>
      exact ⟨first, records.flatMap Record.bytes ++ (r.bytes ++ rest), by simp [hstream]⟩
  rw [hconsumed] at hfirst
  obtain ⟨p, post, hpayloads, hlength, -⟩ := Record.payloads_eq_of_marker
    (by simp [FragmentFits]) (by decide) hfirst
  have hsize := Record.bytes_length_of_split hpayloads
  have htotal := congrArg List.length hfirst
  simp only [List.length_append, hsize, hlength, markerBytes_length, List.length_cons,
    List.length_nil] at htotal
  omega

end Conn

end OncRpc
