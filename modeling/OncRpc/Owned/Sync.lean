import OncRpc.Owned.ReceiveAgreement
import OncRpc.Owned.Registry

/-!
# Staying in step with the stream

Between two records the reader must have taken whole records from the stream: a cursor that starts
elsewhere takes payload for a fragment marker.  `ReaderAt` describes every phase of the reader by
the bytes it has taken of the current record, and `readerAt_step` carries the description through
every step of every party, with one exception.  A marker that takes the record over its byte limit
is consumed and forgotten; if the call is stopped after that, but before the reader decides, the
reader drains the record from a cursor that no longer stands at a fragment boundary (`Misreads`).

Without such a step `receive_record` returns `Ok` on exactly one complete record
(`receive_record_synchronised`); with one it may not (`receive_record_misreads`).
-/

namespace OncRpc

open Foundation

variable {R : Type} [ReplyReceiver R]

/-! ## What the reader has taken of the current record -/

/-- The reader's `receive_record` is about to return `Ok`. -/
def ReaderPhase.isOk : ReaderPhase R → Bool
  | .cleanup _ _ (.ok ()) => true
  | _ => false

/-- The reader receives for a call. -/
def ReaderPhase.isReceiving : ReaderPhase R → Bool
  | .receiving .. => true
  | _ => false

/-- The cursor the reader reads with. -/
def ReaderPhase.cursor : ReaderPhase R → Option RecordReader
  | .xid cursor _ | .lookup cursor _ | .draining _ _ cursor => some cursor
  | .receiving _ _ receive => some receive.cursor
  | _ => none

/-- Bytes answer a read if there are some, and not more than it asks for. -/
theorem Conn.answers_bytes {count : ℕ} {chunk : Bytes} :
    Conn.answers count (.bytes chunk) = true ↔ chunk ≠ [] ∧ chunk.length ≤ count := by
  simp [Conn.answers]

/-- The stream answers a receive with bytes, and no callback of the receiver fails on them. -/
def Conn.Delivers (receive : Receive R) : ReadResult IoError → Prop
  | .bytes chunk => receive.stage.feedFails chunk = false
  | .eof | .error _ => False

/-- What a receive has taken: the transaction id and the pieces it was fed, or more of the record
than its result still depends on.  A `lenient` description admits failures of the stream and of the
receiver. -/
inductive ReceiveAt (lenient : Prop) (limits : RecordLimits) (sender : ResponseSender R)
    (key : Xid) (receive : Receive R) (taken : Bytes) : Prop
  | reads (xid : Bytes) (chunks : List Bytes) (hlength : xid.length = 4) (hkey : key = wordOf xid)
    (hcursor : CursorAt limits receive.cursor taken (xid ++ chunks.flatten))
    (hstage : receive.stage = Stage.after sender xid chunks)
    (hreads : StageReads lenient (Counted lenient) xid chunks.flatten receive.stage)
  | failed (hlenient : lenient) (payload : Bytes) (sender' : ResponseSender R)
    (error : RuntimeError) (hcursor : CursorAt limits receive.cursor taken payload)
    (hstage : receive.stage = .ended sender' (.error error))
  | overLimit (sender' : ResponseSender R) (error : RuntimeError) (hover : OverLimit limits taken)
    (hstage : receive.stage = .ended sender' (.error error))

/-- What the reader has taken of the current record.  In its last phases it takes nothing. -/
def ReaderAt (lenient : Prop) (limits : RecordLimits) (calls : ℕ → Call R) (taken : Bytes) :
    ReaderPhase R → Prop
  | .xid cursor got => got.length < 4 ∧ CursorAt limits cursor taken got
  | .lookup cursor xid => xid.length = 4 ∧ CursorAt limits cursor taken xid
  | .receiving token key receive => ReceiveAt lenient limits (calls token).sender key receive taken
  | .draining _ _ cursor => ∃ payload, CursorAt limits cursor taken payload
  | .cleanup _ _ (.ok ()) => ∃ r : Record, r.Within limits ∧ taken = r.bytes
  | .cleanup _ _ (.error _) | .failing _ | .retiring | .exiting | .exitTake | .exited => True

namespace ReceiveAt

variable {lenient : Prop} {limits : RecordLimits} {sender : ResponseSender R} {key : Xid}
  {receive : Receive R} {taken : Bytes}

/-- A receive that awaits the stream has been fed what it took. -/
theorem of_await (h : ReceiveAt lenient limits sender key receive taken) {count : ℕ}
    (hpoll : receive.poll = .await count) :
    ∃ xid chunks, xid.length = 4 ∧ key = wordOf xid ∧
      CursorAt limits receive.cursor taken (xid ++ chunks.flatten) ∧
      receive.stage = Stage.after sender xid chunks ∧
      StageReads lenient (Counted lenient) xid chunks.flatten receive.stage := by
  obtain ⟨wants, atEnd, hpending, -⟩ := Receive.pending_of_await hpoll
  cases h with
  | reads xid chunks hlength hkey hcursor hstage hreads =>
    exact ⟨xid, chunks, hlength, hkey, hcursor, hstage, hreads⟩
  | failed _ _ _ _ _ hstage | overLimit _ _ _ hstage =>
    rw [hstage] at hpending
    cases hpending

/-- A receive with a result has taken a whole record. -/
theorem of_ready_ok (h : ReceiveAt lenient limits sender key receive taken) {value : RpcMessage × ℕ}
    (hpoll : receive.poll = .ready (some (.ok value))) :
    ∃ (xid : Bytes) (chunks : List Bytes) (r : Record), xid.length = 4 ∧ key = wordOf xid ∧
      r.Within limits ∧ taken = r.bytes ∧ r.data = xid ++ chunks.flatten ∧
      receive.stage = Stage.after sender xid chunks ∧
      StageReads lenient (Counted lenient) xid chunks.flatten receive.stage ∧
      ∃ wants, receive.stage.pending = some (wants, .ok value) := by
  unfold Receive.poll at hpoll
  cases h with
  | reads xid chunks hlength hkey hcursor hstage hreads =>
    split at hpoll
    · next wants atEnd hpending =>
      unfold RecordReader.awaitRead at hpoll
      split at hpoll
      · next hdone =>
        obtain ⟨r, hwithin, htaken, hdata⟩ := hcursor.of_poll_done hdone
        cases hpoll
        exact ⟨xid, chunks, r, hlength, hkey, hwithin, htaken, hdata.symm, hstage, hreads, wants,
          hpending⟩
      · cases hpoll
      · cases hpoll
    · cases hend : receive.stage with
      | ended sender' result =>
        rw [hend] at hpoll hreads
        obtain ⟨error, rfl, -⟩ := hreads
        cases hpoll
      | _ =>
        rw [hend] at hpoll
        cases hpoll
  | failed _ _ _ _ _ hstage | overLimit _ _ _ hstage =>
    rw [hstage] at hpoll
    cases hpoll

/-- An answer of the stream keeps what the receive has taken. -/
theorem resume (h : ReceiveAt lenient limits sender key receive taken) {count : ℕ}
    {result : ReadResult IoError} (hpoll : receive.poll = .await count)
    (hanswers : Conn.answers count result = true)
    (hsteady : lenient ∨ Conn.Delivers receive result) :
    ReceiveAt lenient limits sender key (receive.resume result) (taken ++ Conn.taken result) := by
  obtain ⟨xid, chunks, hlength, hkey, hcursor, hstage, hreads⟩ := h.of_await hpoll
  obtain ⟨wants, atEnd, hpending, hawait⟩ := Receive.pending_of_await hpoll
  cases result with
  | eof | error =>
    rw [Conn.taken, List.append_nil]
    exact .failed (hsteady.resolve_right id) _ _ _ hcursor rfl
  | bytes chunk =>
    obtain ⟨hne, hle⟩ := Conn.answers_bytes.mp hanswers
    have hstep := hcursor.resume_bytes hawait hne hle
    simp only [Receive.resume, Conn.taken]
    split at hstep
    · next cursor' heq =>
      rw [heq]
      exact .reads xid chunks hlength hkey hstep hstage hreads
    · next cursor' got heq =>
      obtain ⟨rfl, hfit, hat⟩ := hstep
      rw [heq]
      refine .reads xid (chunks ++ [got]) hlength hkey ?_ ?_ ?_
      · simpa using hat
      · rw [Stage.after_concat, ← hstage]
      · rw [List.flatten_append, List.flatten_singleton]
        refine hreads.feed (tracks_counted lenient) hlength hne ?_ ?_ hsteady
        · rw [← List.append_assoc]
          exact hat.payload_length_le.trans limits.bytes_le
        · intro wants' atEnd' hpending'
          rw [hpending] at hpending'
          cases hpending'
          exact hfit
    · next cursor' error heq =>
      rw [heq]
      exact .overLimit _ _ hstep.2 rfl

end ReceiveAt

namespace Conn

variable {lenient : Prop} {cfg : Config} {s s' : Conn R} {action : Action R} {taken : Bytes}

/-- The reader decides on a stopped call after the last marker it took has brought the record over
its byte limit. -/
def Misreads (cfg : Config) (s : Conn R) (action : Action R) : Prop :=
  action = .turn ∧ ∃ token key receive, s.reader = .receiving token key receive ∧
    (s.calls token).control.error.isSome = true ∧
    ∃ (records : List Record) (taken : Bytes), (∀ r ∈ records, r.Within cfg.limits) ∧
      s.consumed = records.flatMap Record.bytes ++ taken ∧ OverLimit cfg.limits taken

/-- A sender whose target has received nothing yet. -/
def FreshTarget (sender : ResponseSender R) : Prop :=
  ∀ target, sender = .segmented target → target.payloadLen = 0

/-- The stream and the receiver do not fail in this step, and no target was used before. -/
def Steady (s : Conn R) (action : Action R) : Prop :=
  (∀ result, action = .read result → ∀ token key receive,
    s.reader = .receiving token key receive → Delivers receive result) ∧
  ∀ id, FreshTarget (s.calls id).sender

/-- The step in which the reader's `receive_record` returns. -/
def returns (s : Conn R) (action : Action R) : Bool :=
  match action, s.reader with
  | .turn, .cleanup .. => true
  | _, _ => false

/-! ## What one step takes -/

/-- An answer of the stream keeps the description of the reader. -/
theorem ReadMoves.readerAt {result : ReadResult IoError} {phase phase' : ReaderPhase R}
    {limits : RecordLimits} {calls : ℕ → Call R} (h : ReadMoves result phase phase')
    (hat : ReaderAt lenient limits calls taken phase)
    (hsteady : lenient ∨ ∀ token key receive, phase = .receiving token key receive →
      Delivers receive result) :
    ReaderAt lenient limits calls (taken ++ Conn.taken result) phase' := by
  cases h with
  | @xid cursor got count hpoll hanswers =>
    obtain ⟨hgot, hcursor⟩ := hat
    cases result with
    | eof | error => trivial
    | bytes chunk =>
      obtain ⟨hne, hle⟩ := answers_bytes.mp hanswers
      have hstep := hcursor.resume_bytes hpoll hne hle
      split at hstep
      · next cursor' heq =>
        rw [heq]
        exact ⟨hgot, hstep⟩
      · next cursor' chunk' heq =>
        obtain ⟨rfl, hle, hcursor'⟩ := hstep
        rw [heq, xidPhase]
        split_ifs with hfull
        · refine ⟨?_, hcursor'⟩
          rw [List.length_append] at hfull ⊢
          omega
        · exact ⟨not_le.mp hfull, hcursor'⟩
      · next cursor' error heq =>
        rw [heq]
        trivial
  | receiving hpoll hanswers =>
    exact hat.resume hpoll hanswers (hsteady.imp_right fun h => h _ _ _ rfl)
  | @draining token key cursor count hpoll hanswers =>
    obtain ⟨payload, hcursor⟩ := hat
    cases result with
    | eof | error => trivial
    | bytes chunk =>
      obtain ⟨hne, hle⟩ := answers_bytes.mp hanswers
      have hstep := hcursor.resume_bytes hpoll hne hle
      split at hstep
      · next cursor' heq =>
        rw [heq]
        exact ⟨payload, hstep⟩
      · next cursor' chunk' heq =>
        rw [heq]
        exact ⟨_, hstep.2.2⟩
      · next cursor' error heq =>
        rw [heq]
        trivial

/-- A step that does not stop or answer the call the reader receives for keeps the description. -/
theorem readerAt_congr (hreg : RegistryInv s) (h : Moves cfg s action s')
    (hreader : s'.reader = s.reader) (hat : ReaderAt lenient cfg.limits s.calls taken s.reader) :
    ReaderAt lenient cfg.limits s'.calls taken s'.reader := by
  rw [hreader]
  cases hphase : s.reader with
  | receiving token key receive =>
    rw [hphase] at hat
    have hregistered := (hreg.receiving token key receive hphase).2.1
    have hlater := h.later (hreg.fresh _ le_rfl) (RegistryInv.ne_absent hregistered)
    simp only [ReaderAt, hlater.sender]
    exact hat
  | cleanup token key result =>
    rw [hphase] at hat
    rcases result with error | ⟨⟨⟩⟩ <;> exact hat
  | _ =>
    rw [hphase] at hat
    exact hat

/-- The reader stays in step with the stream, unless it misreads. -/
theorem readerAt_reader (hreg : RegistryInv s) (h : ReaderMoves cfg s action s')
    (hat : ReaderAt lenient cfg.limits s.calls taken s.reader)
    (hclean : ∀ token key receive, action = .turn → s.reader = .receiving token key receive →
      (s.calls token).control.error.isSome = true → ¬ OverLimit cfg.limits taken)
    (hreturns : s.returns action = false) (hsteady : lenient ∨ s.Steady action) :
    ∃ chunk, s'.consumed = s.consumed ++ chunk ∧
      ReaderAt lenient cfg.limits s'.calls (taken ++ chunk) s'.reader := by
  have hstays : ∀ {t : Conn R}, t.consumed = s.consumed →
      ReaderAt lenient cfg.limits t.calls taken t.reader →
      ∃ chunk, t.consumed = s.consumed ++ chunk ∧
        ReaderAt lenient cfg.limits t.calls (taken ++ chunk) t.reader := by
    intro t hconsumed hat'
    refine ⟨[], ?_, ?_⟩
    · rw [hconsumed, List.append_nil]
    · rwa [List.append_nil]
  cases h with
  | @read result phase h =>
    exact ⟨Conn.taken result, rfl, h.readerAt hat (hsteady.imp_right fun h => h.1 result rfl)⟩
  | @take cursor xid token sender hreader hreleased hentry =>
    rw [hreader] at hat
    obtain ⟨hlength, hcursor⟩ := hat
    refine hstays rfl ?_
    have hsender : sender = (s.calls token).sender := (hreg.entries _ _ hentry).2.2 sender rfl
    simp only [Receive.start_eq, hsender]
    refine .reads xid [] hlength rfl ?_ rfl ?_
    · simpa using hcursor
    · exact .start hlength fun target heq => hsteady.imp_right fun h => h.2 token target heq
  | taken hreader | unregistered hreader =>
    rw [hreader] at hat
    exact hstays rfl ⟨_, hat.2⟩
  | @answer token key receive received hreader hpoll hcontrol =>
    refine hstays rfl ?_
    rw [hreader] at hat
    cases received with
    | error error => trivial
    | ok value =>
      obtain ⟨xid, chunks, r, -, -, hwithin, htaken, -⟩ := hat.of_ready_ok hpoll
      exact ⟨r, hwithin, htaken⟩
  | @stopped token key receive error _ hreader hcontrol haction =>
    refine hstays rfl ?_
    have hat' := hat
    rw [hreader] at hat'
    rcases haction with ⟨rfl, -⟩ | ⟨-, count, hpoll⟩
    · -- The reader comes to its decision by itself: its position is lost only by a misread.
      have hstopped : (s.calls token).control.error.isSome = true := by
        rw [CallControl.error_eq_some.mpr hcontrol]
        rfl
      cases hat' with
      | reads xid chunks hlength hkey hcursor hstage hreads => exact ⟨_, hcursor⟩
      | failed _ payload sender' error' hcursor hstage => exact ⟨payload, hcursor⟩
      | overLimit sender' error' hover hstage =>
        exact absurd hover (hclean token key receive rfl hreader hstopped)
    · obtain ⟨xid, chunks, -, -, hcursor, -⟩ := hat'.of_await hpoll
      exact ⟨_, hcursor⟩
  | unwind =>
    rw [dropSender_eq]
    exact hstays rfl trivial
  | @drained token key cursor result hreader hresult =>
    refine hstays rfl ?_
    rw [hreader] at hat
    obtain ⟨payload, hcursor⟩ := hat
    rcases hresult with ⟨hdone, rfl⟩ | ⟨error, -, rfl⟩
    · obtain ⟨r, hwithin, htaken, -⟩ := hcursor.of_poll_done hdone
      exact ⟨r, hwithin, htaken⟩
    · trivial
  | cleanup hreader =>
    simp [returns, hreader] at hreturns
  | fail | exit =>
    refine hstays ?_ trivial
    simp only [fail_consumed]
  | xidFails | orphan | orphanFails | retire | orphanExits | exitTake | abort | discard =>
    exact hstays rfl trivial

/-- When `receive_record` returns, the reader starts on the next record, or fails. -/
theorem returns_cases (h : Moves cfg s action s') (hreturns : s.returns action = true) :
    s'.consumed = s.consumed ∧ ∃ token key result, s.reader = .cleanup token key result ∧
      s'.reader = afterCleanup cfg result := by
  cases h with
  | reader hbusy h =>
    cases h with
    | @cleanup token key result hreader =>
      rw [cleanup_eq]
      exact ⟨rfl, token, key, result, hreader, rfl⟩
    | xidFails hreader | orphan hreader | take hreader | taken hreader | unregistered hreader
    | answer hreader | drained hreader | orphanFails hreader | fail hreader | retire hreader
    | orphanExits hreader | exit hreader | exitTake hreader =>
      simp [returns, hreader] at hreturns
    | stopped hreader _ haction | unwind hreader haction =>
      rcases haction with ⟨rfl, -⟩ | ⟨rfl, -⟩
      · simp [returns, hreader] at hreturns
      · cases hreturns
    | read | abort | discard => cases hreturns
  | _ => cases hreturns

/-! ## Whole runs -/

/-- The reader has taken whole records within the limits, and of the current one what its phase
says. -/
def InStep (cfg : Config) (s : Conn R) : Prop :=
  ∃ (records : List Record) (taken : Bytes), (∀ r ∈ records, r.Within cfg.limits) ∧
    s.consumed = records.flatMap Record.bytes ++ taken ∧
    ReaderAt True cfg.limits s.calls taken s.reader

/-- The reader at the start of a record has taken nothing of it. -/
theorem readerAt_nextRecord (cfg : Config) (calls : ℕ → Call R) :
    ReaderAt lenient cfg.limits calls [] (.nextRecord cfg) := by
  rw [ReaderPhase.nextRecord_eq]
  exact ⟨by decide, CursorAt.start cfg.limits⟩

/-- A step inside `receive_record` takes bytes of the current record only. -/
theorem readerAt_step (hreg : RegistryInv s) (h : Moves cfg s action s')
    (hat : ReaderAt lenient cfg.limits s.calls taken s.reader) {records : List Record}
    (hrecords : ∀ r ∈ records, r.Within cfg.limits)
    (hconsumed : s.consumed = records.flatMap Record.bytes ++ taken)
    (hclean : ¬ Misreads cfg s action) (hreturns : s.returns action = false)
    (hsteady : lenient ∨ s.Steady action) :
    ∃ chunk, s'.consumed = s.consumed ++ chunk ∧
      ReaderAt lenient cfg.limits s'.calls (taken ++ chunk) s'.reader := by
  rcases RegistryInv.reader_eq_or h with ⟨hreader, hsame⟩ | hmove
  · refine ⟨[], ?_, ?_⟩
    · rw [hsame, List.append_nil]
    · rw [List.append_nil]
      exact readerAt_congr hreg h hreader hat
  · refine readerAt_reader hreg hmove hat ?_ hreturns hsteady
    intro token key receive haction hreader hstopped hover
    exact hclean ⟨haction, token, key, receive, hreader, hstopped, records, taken, hrecords,
      hconsumed, hover⟩

/-- A step that does not misread keeps the reader in step. -/
theorem InStep.step (hin : InStep cfg s) (hreg : RegistryInv s) (h : Moves cfg s action s')
    (hclean : ¬ Misreads cfg s action) : InStep cfg s' := by
  obtain ⟨records, taken, hrecords, hconsumed, hat⟩ := hin
  cases hreturns : s.returns action with
  | false =>
    obtain ⟨chunk, hchunk, hat'⟩ := readerAt_step hreg h hat hrecords hconsumed
      hclean hreturns (.inl trivial)
    refine ⟨records, taken ++ chunk, hrecords, ?_, hat'⟩
    rw [hchunk, hconsumed, List.append_assoc]
  | true =>
    obtain ⟨hsame, token, key, result, hreader, hreader'⟩ := returns_cases h hreturns
    rw [hreader] at hat
    rcases result with error | ⟨⟨⟩⟩
    · refine ⟨records, taken, hrecords, by rw [hsame, hconsumed], ?_⟩
      rw [hreader']
      trivial
    · obtain ⟨r, hwithin, rfl⟩ := hat
      refine ⟨records ++ [r], [], ?_, ?_, ?_⟩
      · intro r' hr'
        rcases List.mem_append.mp hr' with hr' | hr'
        · exact hrecords r' hr'
        · rw [List.mem_singleton.mp hr']
          exact hwithin
      · rw [hsame, hconsumed]
        simp
      · rw [hreader']
        exact readerAt_nextRecord cfg _

/-- A run without a misread keeps the reader in step. -/
theorem InStep.of_runs (h : Runs (Conn.step cfg) (fun t a => ¬ Misreads cfg t a) (initial cfg) s) :
    InStep cfg s := by
  refine (h.invariant (fun s => RegistryInv s ∧ InStep cfg s) ⟨RegistryInv.initial cfg, ?_⟩ ?_).2
  · exact ⟨[], [], nofun, rfl, readerAt_nextRecord cfg _⟩
  · rintro t a u ⟨hreg, hin⟩ hclean hstep
    have hmove := moves_of_step hstep
    exact ⟨hreg.step hmove, hin.step hreg hmove hclean⟩

/-! ## Retiring the connection -/

/-- The reader takes nothing more; once it has come past its failure, the connection is closed, or
nobody owns it. -/
def Retires (s : Conn R) : Prop :=
  match s.reader with
  | .cleanup _ _ (.error _) | .failing _ | .exiting => True
  | .retiring | .exitTake | .exited => s.closed.isSome = true ∨ s.released = true
  | _ => False

/-- A closed connection, or one that nobody owns, stays so. -/
theorem shut_stays (hreg : RegistryInv s) (h : Moves cfg s action s')
    (hshut : s.closed.isSome = true ∨ s.released = true) :
    s'.closed.isSome = true ∨ s'.released = true := by
  rcases hshut with hclosed | hreleased
  · obtain ⟨error, hsome⟩ := Option.isSome_iff_exists.mp hclosed
    rw [(h.registryStep hreg.idle).closed_stays hsome]
    exact .inl rfl
  · refine .inr ?_
    cases h with
    | reader hbusy h =>
      cases h with
      | unwind => rw [dropSender_eq, hreleased]
      | cleanup => rw [cleanup_eq, hreleased]
      | fail | exit => simp only [fail_released, hreleased]
      | _ => exact hreleased
    | call => simp only [apply_released, hreleased]
    | close => simp only [fail_released, hreleased]
    | release => rfl
    | admitCall | failNext | failDone | poll | closeAbort | closeTake => exact hreleased

/-- A reader that has failed takes nothing more and retires the connection. -/
theorem Retires.step (hretires : s.Retires) (hreg : RegistryInv s) (h : Moves cfg s action s') :
    s'.consumed = s.consumed ∧ s'.Retires := by
  unfold Retires at hretires ⊢
  rcases RegistryInv.reader_eq_or h with ⟨hreader, hsame⟩ | hmove
  · refine ⟨hsame, ?_⟩
    rw [hreader]
    split at hretires
    · trivial
    · trivial
    · trivial
    · exact shut_stays hreg h hretires
    · exact shut_stays hreg h hretires
    · exact shut_stays hreg h hretires
    · exact hretires.elim
  · have hshut := shut_stays hreg h
    cases hmove with
    | @read result phase hread =>
      generalize s.reader = before at hread hretires
      cases hread <;> exact hretires.elim
    | xidFails hreader | orphan hreader | take hreader | taken hreader | unregistered hreader
    | answer hreader | stopped hreader | unwind hreader | drained hreader
    | discard habort hreader =>
      rw [hreader] at hretires
      exact hretires.elim
    | @cleanup token key result hreader =>
      rw [hreader] at hretires
      rw [cleanup_eq]
      rcases result with error | ⟨⟨⟩⟩
      · exact ⟨rfl, trivial⟩
      · exact hretires.elim
    | fail | exit =>
      simp only [fail_consumed, true_and]
      exact .inl (fail_closed_isSome s _ _)
    | orphanExits hreader hreleased => exact ⟨rfl, .inr hreleased⟩
    | exitTake hreader =>
      rw [hreader] at hretires
      exact ⟨rfl, hshut hretires⟩
    | orphanFails | retire | abort => exact ⟨rfl, trivial⟩

/-- From a failed reader on, nothing more is taken, on any run. -/
theorem Retires.runs (hretires : s.Retires) (hreg : RegistryInv s)
    (h : Runs (Conn.step cfg) (fun _ _ => True) s s') :
    s'.consumed = s.consumed ∧ s'.Retires := by
  refine (h.invariant (fun t => RegistryInv t ∧ t.consumed = s.consumed ∧ t.Retires)
    ⟨hreg, rfl, hretires⟩ ?_).2
  rintro t a u ⟨hreg, hsame, hretires⟩ - hstep
  have hmove := moves_of_step hstep
  obtain ⟨hconsumed, hretires'⟩ := hretires.step hreg hmove
  exact ⟨hreg.step hmove, hconsumed.trans hsame, hretires'⟩

/-! ## Record synchronisation -/

/-- Bytes that a reader in step takes for a marker follow whole fragments of the record. -/
theorem marker_at_boundary {phase phase' : ReaderPhase R} {result : ReadResult IoError}
    {limits : RecordLimits} {calls : ℕ → Call R} {cursor : RecordReader}
    (hat : ReaderAt True limits calls taken phase) (h : ReadMoves result phase phase')
    (hcursor : phase.cursor = some cursor) (hremaining : cursor.remaining = 0) :
    ∃ more : List Bytes, (∀ p ∈ more, FragmentFits p) ∧
      taken = Record.moreBytes more ++ cursor.marker := by
  cases h with
  | xid hpoll =>
    cases hcursor
    exact hat.2.marker_of_await hpoll hremaining
  | receiving hpoll =>
    cases hcursor
    obtain ⟨wants, atEnd, -, hawait⟩ := Receive.pending_of_await hpoll
    obtain ⟨xid, chunks, -, -, hat', -⟩ := hat.of_await hpoll
    exact hat'.marker_of_await hawait hremaining
  | draining hpoll =>
    cases hcursor
    obtain ⟨payload, hat'⟩ := hat
    exact hat'.marker_of_await hpoll hremaining

/-- The reader at the start of a record has taken whole records. -/
theorem InStep.at_start (hin : InStep cfg s) (hstart : s.reader = .nextRecord cfg) :
    ∃ records : List Record, (∀ r ∈ records, r.Within cfg.limits) ∧
      s.consumed = records.flatMap Record.bytes := by
  obtain ⟨records, taken, hrecords, hconsumed, hat⟩ := hin
  rw [hstart, ReaderPhase.nextRecord_eq] at hat
  refine ⟨records, hrecords, ?_⟩
  rw [hconsumed, hat.2.taken_of_start, List.append_nil]

/-- Receive-side synchronisation, on runs without a misread.  Let `receive_record` start in a state
`u` of such a run and not return before `s`.  Before `u` whole records within the limits were taken.
Whenever the stream answers a read for a marker, the bytes taken since `u` are whole fragments of
one record and the part of the marker read so far.  If `receive_record` is about to return `Ok` in
`s`, the bytes taken since `u` are exactly one record, which is within the limits.  If it is about
to return an error, or did, nothing more is taken on any later run, and the connection is
retired. -/
theorem receive_record_synchronised (cfg : Config) (u s : Conn R)
    (hu : Runs (step cfg) (fun t a => ¬ Misreads cfg t a) (initial cfg) u)
    (hstart : u.reader = .nextRecord cfg)
    (hrun : Runs (step cfg) (fun t a => ¬ Misreads cfg t a ∧ t.returns a = false) u s) :
    (∃ records : List Record, (∀ r ∈ records, r.Within cfg.limits) ∧
      u.consumed = records.flatMap Record.bytes) ∧
    (∀ result s' cursor, step cfg s (.read result) = some s' → s.reader.cursor = some cursor →
      cursor.remaining = 0 → ∃ more : List Bytes, (∀ p ∈ more, FragmentFits p) ∧
        s.consumed = u.consumed ++ (Record.moreBytes more ++ cursor.marker)) ∧
    (∀ token key, s.reader = .cleanup token key (.ok ()) →
      ∃ r : Record, r.Within cfg.limits ∧ s.consumed = u.consumed ++ r.bytes) ∧
    (∀ error, (∃ token key, s.reader = .cleanup token key (.error error)) ∨
      s.reader = .failing error →
      ∀ s', Runs (step cfg) (fun _ _ => True) s s' → s'.consumed = s.consumed ∧ s'.Retires) := by
  have hin := InStep.of_runs hu
  obtain ⟨records, hrecords, hconsumed⟩ := hin.at_start hstart
  have hreg := RegistryInv.of_reachable (hu.mono fun _ _ _ => trivial)
  obtain ⟨hreg', taken, htaken, hat⟩ := hrun.invariant
    (fun t => RegistryInv t ∧ ∃ taken, t.consumed = u.consumed ++ taken ∧
      ReaderAt True cfg.limits t.calls taken t.reader)
    ⟨hreg, [], by rw [List.append_nil], by rw [hstart]; exact readerAt_nextRecord cfg _⟩
    (by
      rintro t a v ⟨hreg, taken, htaken, hat⟩ ⟨hclean, hreturns⟩ hstep
      have hmove := moves_of_step hstep
      rw [hconsumed] at htaken
      obtain ⟨chunk, hchunk, hat'⟩ := readerAt_step hreg hmove hat hrecords htaken hclean hreturns
        (.inl trivial)
      refine ⟨hreg.step hmove, taken ++ chunk, ?_, hat'⟩
      rw [hchunk, htaken, hconsumed, List.append_assoc])
  refine ⟨⟨records, hrecords, hconsumed⟩, ?_, ?_, ?_⟩
  · intro result s' cursor hstep hcursor hremaining
    cases moves_of_step hstep with
    | reader hbusy h =>
      cases h with
      | read h =>
        obtain ⟨more, hfits, hmore⟩ := marker_at_boundary hat h hcursor hremaining
        exact ⟨more, hfits, by rw [htaken, hmore]⟩
      | stopped _ _ haction => rcases haction with ⟨h, -⟩ | ⟨h, -⟩ <;> cases h
      | unwind _ haction => rcases haction with ⟨h, -⟩ | ⟨h, -⟩ <;> cases h
  · intro token key hreader
    rw [hreader] at hat
    obtain ⟨r, hwithin, rfl⟩ := hat
    exact ⟨r, hwithin, htaken⟩
  · intro error hreader s' hafter
    refine Retires.runs ?_ hreg' hafter
    rcases hreader with ⟨token, key, hreader⟩ | hreader <;> rw [Retires, hreader] <;> trivial

/-- A record for nobody is drained. -/
theorem receive_record_synchronised_drained : ∃ s : Conn Buffers,
    Runs (step .plain) (fun t a => ¬ Misreads .plain t a ∧ t.returns a = false) (initial .plain) s ∧
    s.reader.isOk = true ∧ ∃ r : Record, r.Within .default ∧ s.consumed = r.bytes := by
  obtain ⟨s, htrace, hseen⟩ := @Trace.exists_of_runList _ _ (step .plain)
    (fun t a => ¬ Misreads .plain t a ∧ t.returns a = false) (initial .plain : Conn Buffers)
    (fun t a => !t.reader.isReceiving && !t.returns a)
    [.read (.bytes [128, 0, 0, 6]), .read (.bytes [0, 0, 0, 9]), .turn,
      .read (.bytes [1, 2]), .turn]
    _ (fun s => s.reader.isOk) true
    (by
      intro t a hcheck
      rw [Bool.and_eq_true, Bool.not_eq_true', Bool.not_eq_true'] at hcheck
      refine ⟨?_, hcheck.2⟩
      rintro ⟨-, token, key, receive, hreader, -⟩
      rw [hreader] at hcheck
      cases hcheck.1)
    (by decide +kernel)
  obtain ⟨-, -, hok, -⟩ := receive_record_synchronised .plain _ s (Runs.refl _) rfl htrace.runs
  refine ⟨s, htrace.runs, hseen, ?_⟩
  cases hreader : s.reader with
  | cleanup token key result =>
    rcases result with error | ⟨⟨⟩⟩
    · rw [hreader] at hseen
      cases hseen
    · exact hok token key hreader
  | _ =>
    rw [hreader] at hseen
    cases hseen

/-- A marker takes a record over its byte limit, the call is cancelled before the reader decides,
and four payload bytes are then read as the marker of a last, empty fragment: `receive_record`
returns `Ok`, but the bytes it took are not a record within the limits. -/
theorem receive_record_misreads : ∃ s : Conn Buffers,
    Runs (step .plain) (fun t a => t.returns a = false) (initial .plain) s ∧
    s.reader.isOk = true ∧ ¬ ∃ r : Record, r.Within .default ∧ s.consumed = r.bytes := by
  obtain ⟨s, htrace, hseen⟩ := @Trace.exists_of_runList _ _ (step .plain)
    (fun t a => t.returns a = false) (initial .plain : Conn Buffers) (fun t a => !t.returns a)
    [.admitCall (.classic (.nullCall 7)) ⟨true, .none⟩, .call 0 .step, .read (.bytes [0, 0, 0, 4]),
      .read (.bytes [0, 0, 0, 7]), .turn, .read (.bytes [127, 255, 255, 255]),
      .call 0 (.interrupt .cancelled), .call 0 .step, .turn, .read (.bytes [128, 0, 0, 0]), .turn]
    _ (fun s => (s.reader.isOk, s.consumed))
    (true, Record.moreBytes [[0, 0, 0, 7]] ++ (markerBytes false (2 ^ 31 - 1) ++ [128, 0, 0, 0]))
    (fun t a hcheck => by rwa [Bool.not_eq_true'] at hcheck) (by decide +kernel)
  obtain ⟨hok, hconsumed⟩ := Prod.mk.inj hseen
  refine ⟨s, htrace.runs, hok, ?_⟩
  rintro ⟨r, -, hbytes⟩
  -- The second fragment of such a record would have more bytes than were taken.
  rw [hconsumed] at hbytes
  obtain ⟨p, post, hpayloads, hlength, -⟩ := @Record.payloads_eq_of_marker r [[0, 0, 0, 7]] false
    (2 ^ 31 - 1) [128, 0, 0, 0] [] (by simp [FragmentFits]) (by decide)
    (by rw [hbytes, List.append_nil])
  have hsize := Record.bytes_length_of_split hpayloads
  rw [← hbytes, hlength] at hsize
  simp only [List.length_append, markerBytes_length, List.length_cons, List.length_nil] at hsize
  omega

end Conn

end OncRpc
