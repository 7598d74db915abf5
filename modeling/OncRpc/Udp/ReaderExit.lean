import OncRpc.Udp.Registry

/-!
# After the reader of a datagram transport has failed

When the socket fails, the reader takes all entries out of the registry, fails them one by one, and
exits.  `UdpClient.Attended` says that until then somebody has the sender of every call that waits:
the registry or the reader.  So the calls registered before the entries are taken are all answered.

Nothing tells the transport that its reader is gone.  A call that registers later is put into the
registry as before, and nobody will take it out: `udp_reader_exit` says that a run ends well exactly
as long as no call registers after the entries were taken, and `udp_late_call` is a run where one
does.
-/

namespace OncRpc

open Foundation

namespace UdpClient

variable {cfg : UdpConfig} {s t : UdpClient} {id : ℕ}

/-- A call is registered and waits for a value that has not come. -/
def Waits (s : UdpClient) (id : ℕ) : Prop :=
  ((s.calls id).phase = .sending ∨ (s.calls id).phase = .waiting) ∧ received (s.calls id) = none

/-- Nobody is registered, and no call waits for a value. -/
def Settled (s : UdpClient) : Prop :=
  s.pending = ∅ ∧ ∀ id, ¬ s.Waits id

/-- No call that can be sent registers in this step. -/
def NoLateCall (s : UdpClient) (action : UdpAction) : Prop :=
  ∀ id, action = .step id .register → ∀ bytes, (s.calls id).request.encode ≠ .ok bytes

/-! ## Who has the sender of a call -/

/-- The registry or the reader has the sender of every call that waits. -/
def Attended (s : UdpClient) : Prop :=
  ∀ id, s.Waits id → ∃ xid, s.pending.lookup xid = some id ∨ s.ReaderHolds xid id

theorem Attended.initial : Attended initial := by
  rintro id ⟨hphase | hphase, -⟩ <;> cases hphase

/-- A call without a value in its channel. -/
theorem channel_of_received {call : UdpCall} (h : received call = none) : call.channel = none := by
  unfold received at h
  split at h
  · cases h
  · next hchannel => exact hchannel

/-- A call whose phase alone has changed waits for the same value. -/
theorem waits_of_goto {phase : UdpPhase} (h : (s.goto id phase).Waits id) :
    (phase = .sending ∨ phase = .waiting) ∧ received (s.calls id) = none := by
  unfold Waits at h
  rw [goto, put_calls_self] at h
  exact h

/-- A call that the reader sends a value to does not wait for one. -/
theorem not_waits_of_send (s : UdpClient) (id : ℕ) (result : Except RuntimeError RpcMessage) :
    ¬ (s.send id result).Waits id := by
  rintro ⟨-, hnone⟩
  have hchannel := channel_of_received hnone
  rw [send, put_calls_self] at hchannel
  cases hchannel

/-- A call that is not touched waits as before. -/
theorem Waits.of_calls (h : t.Waits id) (hcalls : t.calls id = s.calls id) : s.Waits id := by
  unfold Waits at h ⊢
  rwa [hcalls] at h

/-- A step of one call leaves the senders of the others where they are. -/
theorem Attended.other {other : ℕ} {xid : Xid} (hmove : UdpCallMoves s id t) (hne : other ≠ id)
    (h : s.pending.lookup xid = some other ∨ s.ReaderHolds xid other) :
    t.pending.lookup xid = some other ∨ t.ReaderHolds xid other := by
  refine h.imp (lookup_of_callMoves hmove hne) fun hholds => ?_
  unfold ReaderHolds at hholds ⊢
  rwa [(keeps_of_callMoves hmove).1]

/-- What a step of a call keeps. -/
theorem Attended.call (h : Attended s) (hmove : UdpCallMoves s id t) : Attended t := by
  intro other hwaits
  by_cases hne : other = id
  swap
  · obtain ⟨xid, hattended⟩ := h other (hwaits.of_calls ((keeps_of_callMoves hmove).2.1 other hne))
    exact ⟨xid, Attended.other hmove hne hattended⟩
  subst hne
  cases hmove with
  | advance hadvance =>
    obtain ⟨hphase, hnone⟩ := waits_of_goto hwaits
    cases hadvance with
    | leave => rcases hphase with hphase | hphase <;> cases hphase
    | sent hsending => exact h other ⟨.inl hsending, hnone⟩
    | decided => rcases hphase with hphase | hphase <;> cases hphase
  | register hphase hfree =>
    exact ⟨(s.calls other).request.xid, .inl (AList.lookup_insert _)⟩
  | unregister hphase =>
    -- Its guard has run, so the call has ended.
    obtain ⟨hphase', -⟩ := hwaits
    unfold unregister at hphase'
    simp only at hphase'
    split_ifs at hphase' <;> simp [goto] at hphase'

/-- What a step keeps. -/
theorem Attended.move (h : Attended s) (hmove : UdpMoves s t) : Attended t := by
  cases hmove with
  | create request options =>
    intro id hwaits
    by_cases hne : id = s.created
    · subst hne
      rcases hwaits.1 with hphase | hphase <;> simp at hphase
    · exact h id (hwaits.of_calls (put_calls_of_ne hne s _))
  | call id hcall => exact h.call hcall
  | read hfound hanswering =>
    intro id hwaits
    obtain ⟨xid, hentry | ⟨message, hreader, -⟩ | ⟨remaining, error, hreader, hentry⟩⟩ :=
      h id hwaits
    · exact ⟨xid, .inl hentry⟩
    · exact absurd hreader (hfound id message)
    · rw [hanswering remaining error hreader, AList.lookup_empty] at hentry
      cases hentry
  | @lookup other message hreader hentry =>
    intro id hwaits
    obtain ⟨xid, hpending | ⟨message', hreader', -⟩ | ⟨remaining, error, hreader', -⟩⟩ :=
      h id hwaits
    · by_cases hxid : xid = message.xid
      · rw [hxid, hentry] at hpending
        cases hpending
        exact ⟨message.xid, .inr (.inl ⟨message, rfl, rfl⟩)⟩
      · exact ⟨xid, .inl ((AList.lookup_erase_ne hxid).trans hpending)⟩
    · rw [hreader] at hreader'
      cases hreader'
    · rw [hreader] at hreader'
      cases hreader'
  | @answer other message hreader =>
    intro id hwaits
    have hne : id ≠ other := by
      rintro rfl
      exact not_waits_of_send s id (.ok message) hwaits
    obtain ⟨xid, hpending | ⟨message', hreader', -⟩ | ⟨remaining, error, hreader', -⟩⟩ :=
      h id (hwaits.of_calls (put_calls_of_ne hne s _))
    · exact ⟨xid, .inl hpending⟩
    · rw [hreader] at hreader'
      cases hreader'
      exact absurd rfl hne
    · rw [hreader] at hreader'
      cases hreader'
  | @takeAll error hreader =>
    intro id hwaits
    obtain ⟨xid, hpending | ⟨message', hreader', -⟩ | ⟨remaining, error, hreader', -⟩⟩ :=
      h id hwaits
    · exact ⟨xid, .inr (.inr ⟨s.pending, error, rfl, hpending⟩)⟩
    · rw [hreader] at hreader'
      cases hreader'
    · rw [hreader] at hreader'
      cases hreader'
  | @failNext key other remaining error hreader hentry =>
    intro id hwaits
    have hne : id ≠ other := by
      rintro rfl
      exact not_waits_of_send s id (.error error) hwaits
    obtain ⟨xid, hpending | ⟨message', hreader', -⟩ | ⟨remaining', error', hreader', hheld⟩⟩ :=
      h id (hwaits.of_calls (put_calls_of_ne hne s _))
    · exact ⟨xid, .inl hpending⟩
    · rw [hreader] at hreader'
      cases hreader'
    · rw [hreader] at hreader'
      cases hreader'
      have hxid : xid ≠ key := by
        rintro rfl
        rw [hentry] at hheld
        exact hne (Option.some.inj hheld).symm
      exact ⟨xid, .inr (.inr ⟨_, error, rfl, (AList.lookup_erase_ne hxid).trans hheld⟩)⟩

theorem Attended.of_runs (h : Runs (step cfg) (fun _ _ => True) UdpClient.initial s) : Attended s :=
  h.invariant Attended .initial fun hu _ hstep => hu.move (moves_of_step hstep)

/-! ## After the entries were taken -/

/-- The reader has taken the entries out of the registry, and nobody has registered since. -/
def Drained (s : UdpClient) : Prop :=
  s.pending = ∅ ∧ ((∃ remaining error, s.reader = .answering remaining error) ∨ s.reader = .exited)

/-- A call that does not register leaves the registry, or takes an entry out of it. -/
theorem pending_of_callStep {action : UdpCallAction} (h : s.callStep cfg id action = some t)
    (haction : action ≠ .register) :
    t.pending = s.pending ∨ t.pending = s.pending.erase (s.calls id).request.xid := by
  cases moves_of_callStep h with
  | advance => exact .inl rfl
  | unregister =>
    unfold unregister
    simp only
    split_ifs
    · exact .inr rfl
    · exact .inl rfl
  | register hphase =>
    unfold callStep at h
    rw [hphase] at h
    cases action with
    | register => exact absurd rfl haction
    | cancelledEarly =>
      simp only at h
      split_ifs at h
      exact .inl (congrArg pending (Option.some.inj h)).symm
    | drop => exact .inl (congrArg pending (Option.some.inj h)).symm
    | _ => cases h

theorem Drained.call {action : UdpCallAction} (h : s.Drained)
    (hquiet : NoLateCall s (.step id action)) (hstep : s.callStep cfg id action = some t) :
    t.Drained := by
  obtain ⟨hempty, hreader⟩ := h
  refine ⟨?_, by rwa [(keeps_of_callMoves (moves_of_callStep hstep)).1]⟩
  by_cases haction : action = .register
  · subst haction
    rcases hphase : (s.calls id).phase with _ | _ | _ | _ | _ | _ <;>
      simp only [callStep, hphase] at hstep <;> cases hstep
    unfold register
    rcases hencode : (s.calls id).request.encode with error | bytes
    · exact hempty
    · exact absurd hencode (hquiet id rfl bytes)
  · rcases pending_of_callStep hstep haction with hsame | herase
    · rw [hsame, hempty]
    · rw [herase, hempty]
      rfl

/-- While no call registers, the registry stays empty. -/
theorem Drained.step {action : UdpAction} (h : s.Drained) (hquiet : NoLateCall s action)
    (hstep : UdpClient.step cfg s action = some t) : t.Drained := by
  obtain ⟨hempty, hreader⟩ := h
  cases action with
  | call request options =>
    cases hstep
    exact ⟨hempty, hreader⟩
  | step id action => exact Drained.call ⟨hempty, hreader⟩ hquiet hstep
  | failNext xid =>
    rcases hreader with ⟨remaining, error, hreader⟩ | hreader <;>
      simp only [UdpClient.step, readerStep, hreader] at hstep
    · obtain ⟨other, -, rfl⟩ := Option.map_eq_some_iff.mp hstep
      exact ⟨hempty, .inl ⟨_, _, rfl⟩⟩
    · cases hstep
  | failDone =>
    rcases hreader with ⟨remaining, error, hreader⟩ | hreader <;>
      simp only [UdpClient.step, readerStep, hreader] at hstep
    · split_ifs at hstep
      cases hstep
      exact ⟨hempty, .inr rfl⟩
    · cases hstep
  | datagram | receiveError | lookup | answer | takeAll | abortReader =>
    rcases hreader with ⟨remaining, error, hreader⟩ | hreader <;>
      simp only [UdpClient.step, readerStep, hreader] at hstep <;> cases hstep

theorem Drained.of_takeAll (h : UdpClient.step cfg s .takeAll = some t) : t.Drained := by
  rcases hreader : s.reader with _ | _ | _ | error | _ | _ <;>
    simp only [UdpClient.step, readerStep, hreader] at h <;> cases h
  exact ⟨rfl, .inl ⟨_, _, rfl⟩⟩

theorem Drained.of_runs (h : s.Drained) (hruns : Runs (UdpClient.step cfg) NoLateCall s t) :
    t.Drained :=
  hruns.invariant Drained h fun hu hquiet hstep => hu.step hquiet hstep

/-- A registry without entries and a reader that has exited leave nobody waiting. -/
theorem Drained.settled (h : s.Drained) (hattended : Attended s) (hexited : s.reader = .exited) :
    s.Settled := by
  refine ⟨h.1, fun id hwaits => ?_⟩
  obtain ⟨xid, hentry | ⟨message, hreader, -⟩ | ⟨remaining, error, hreader, -⟩⟩ :=
    hattended id hwaits
  · rw [h.1, AList.lookup_empty] at hentry
    cases hentry
  · rw [hexited] at hreader
    cases hreader
  · rw [hexited] at hreader
    cases hreader

/-- Whoever registers is registered, or finds somebody registered. -/
theorem not_settled_of_register {bytes : Bytes} (hencode : (s.calls id).request.encode = .ok bytes)
    (hstep : UdpClient.step cfg s (.step id .register) = some t) : ¬ t.Settled := by
  rintro ⟨hempty, -⟩
  have hpending : (t.pending.lookup (s.calls id).request.xid).isSome = true := by
    simp only [UdpClient.step, callStep] at hstep
    rcases hphase : (s.calls id).phase with _ | _ | _ | _ | _ | _ <;>
      simp only [hphase] at hstep <;> cases hstep
    unfold register
    simp only [hencode]
    split_ifs with hentry
    · exact hentry
    · simp [AList.lookup_insert]
  rw [hempty, AList.lookup_empty] at hpending
  cases hpending

/-- A call that nothing can interrupt waits for a value and nobody can send it one. -/
structure Stranded (cfg : UdpConfig) (s : UdpClient) (id : ℕ) : Prop where
  reader : s.reader = .exited
  phase : (s.calls id).phase = .waiting
  nothing : received (s.calls id) = none
  uninterrupted : ∀ interrupt,
    (s.calls id).options.interrupted cfg.defaultCallTimeout interrupt = none

/-- A call that is not touched stays stranded. -/
theorem Stranded.of_calls (h : s.Stranded cfg id) (hreader : t.reader = s.reader)
    (hcalls : t.calls id = s.calls id) : t.Stranded cfg id := by
  obtain ⟨hexited, hphase, hnothing, huninterrupted⟩ := h
  refine ⟨hreader.trans hexited, ?_, ?_, ?_⟩ <;> rw [hcalls]
  · exact hphase
  · exact hnothing
  · exact huninterrupted

/-- Only dropping its future ends the wait of a stranded call. -/
theorem Stranded.step {action : UdpAction} (h : s.Stranded cfg id) (hinv : Registered s)
    (hdrop : action ≠ .step id .drop) (hstep : UdpClient.step cfg s action = some t) :
    t.Stranded cfg id := by
  cases action with
  | call request options =>
    cases hstep
    have hlt : id < s.created := hinv.lt_created (by rw [h.phase]; nofun)
    exact h.of_calls rfl (put_calls_of_ne hlt.ne s _)
  | step other act =>
    have hmove : UdpCallMoves s other t := moves_of_callStep hstep
    obtain ⟨hreader, hcalls, -⟩ := keeps_of_callMoves hmove
    by_cases hne : id = other
    swap
    · exact h.of_calls hreader (hcalls id hne)
    subst hne
    simp only [UdpClient.step, callStep, h.phase] at hstep
    cases act with
    | receive =>
      rw [h.nothing] at hstep
      cases hstep
    | interrupt interrupt =>
      simp only [h.uninterrupted interrupt] at hstep
      cases hstep
    | drop => exact absurd rfl hdrop
    | _ => cases hstep
  | datagram | receiveError | lookup | answer | takeAll | failNext | failDone | abortReader =>
    simp only [UdpClient.step, readerStep, h.reader] at hstep
    cases hstep

/-- A stranded call waits until its future is dropped. -/
theorem Stranded.of_runs (h : s.Stranded cfg id) (hinv : Registered s)
    (hruns : Runs (UdpClient.step cfg) (fun _ action => action ≠ .step id .drop) s t) :
    t.Stranded cfg id := by
  have hboth : Registered t ∧ t.Stranded cfg id :=
    hruns.invariant (fun u => Registered u ∧ u.Stranded cfg id) ⟨hinv, h⟩
      fun hu hdrop hstep => ⟨hu.1.move (moves_of_step hstep), hu.2.step hu.1 hdrop hstep⟩
  exact hboth.2

end UdpClient

/-! ## The exit of the reader -/

/-- A run on which the reader's receive has failed, the entries were taken, and all of them were
answered.  If no call registers after the entries were taken, nobody is registered at its end and no
call waits for a value.  If a call registers then, somebody stays registered. -/
theorem udp_reader_exit {cfg : UdpConfig} {before after : List UdpAction} {u v s : UdpClient}
    (hbefore : Trace (UdpClient.step cfg) (fun _ _ => True) .initial before u)
    (htake : UdpClient.step cfg u .takeAll = some v)
    (hafter : Trace (UdpClient.step cfg) (fun _ _ => True) v after s)
    (hexited : s.reader = .exited) :
    (Trace (UdpClient.step cfg) UdpClient.NoLateCall v after s → s.Settled) ∧
    ∀ action t, UdpClient.step cfg s action = some t → ¬ UdpClient.NoLateCall s action →
      ¬ t.Settled := by
  refine ⟨fun hquiet => ?_, fun action t hstep hlate => ?_⟩
  · have hruns : Runs (UdpClient.step cfg) (fun _ _ => True) .initial s :=
      (hbefore.runs.tail trivial htake).trans hafter.runs
    have hdrained := (UdpClient.Drained.of_takeAll htake).of_runs hquiet.runs
    exact hdrained.settled (UdpClient.Attended.of_runs hruns) hexited
  · obtain ⟨id, rfl, bytes, hencode⟩ : ∃ id, action = .step id .register ∧
        ∃ bytes, (s.calls id).request.encode = .ok bytes := by
      simpa [UdpClient.NoLateCall] using hlate
    exact UdpClient.not_settled_of_register hencode hstep

/-- The socket refuses, and the reader exits while nobody is registered. -/
def refusedSteps : List UdpAction :=
  [.receiveError ⟨.other, "Connection refused"⟩, .takeAll, .failDone]

/-- A call on another clone of the transport. -/
def lateSteps : List UdpAction :=
  [.call ⟨7, .call ⟨2, ⟨3, 1⟩, 0, .none, .none, []⟩⟩ ⟨false, .none⟩, .step 0 .register,
    .step 0 (.sent (.ok ()))]

/-- The steps up to the exit of the reader, and what they lead to. -/
theorem exists_refused_run : ∃ u v s,
    Trace (UdpClient.step ⟨none, none⟩) (fun _ _ => True) .initial
      [.receiveError ⟨.other, "Connection refused"⟩] u ∧
    UdpClient.step ⟨none, none⟩ u .takeAll = some v ∧
    Trace (UdpClient.step ⟨none, none⟩) UdpClient.NoLateCall v [.failDone] s ∧
    s.reader = .exited := by
  refine ⟨_, _, _, .snoc .nil trivial rfl, rfl, .snoc .nil ?_ rfl, rfl⟩
  rintro id ⟨⟩

/-- After that run nobody waits. -/
theorem udp_reader_exit_refused : ∃ s : UdpClient, s.reader = .exited ∧ s.Settled := by
  obtain ⟨u, v, s, hbefore, htake, hafter, hexited⟩ := exists_refused_run
  exact ⟨s, hexited, (udp_reader_exit hbefore htake (hafter.mono fun _ _ _ => trivial) hexited).1
    hafter⟩

/-- A call made after the reader has exited is registered, and waits for ever. -/
theorem udp_late_call : ∃ s : UdpClient,
    Trace (UdpClient.step ⟨none, none⟩) (fun _ _ => True) .initial (refusedSteps ++ lateSteps) s ∧
      s.pending.lookup 7 = some 0 ∧ s.Waits 0 ∧ ¬ s.Settled ∧
      ∀ t, Runs (UdpClient.step ⟨none, none⟩) (fun _ action => action ≠ .step 0 .drop) s t →
        t.Waits 0 := by
  obtain ⟨s, htrace, hseen⟩ := @Trace.exists_of_runList _ _ (UdpClient.step ⟨none, none⟩)
    (fun _ _ => True) .initial (fun _ _ => true) (refusedSteps ++ lateSteps) _
    (fun s => (s.pending.lookup 7, (s.calls 0).phase, (s.calls 0).options,
      (UdpClient.received (s.calls 0)).isNone, s.reader matches .exited))
    (some 0, .waiting, ⟨false, .none⟩, true, true) (fun _ _ _ => trivial) (by decide +kernel)
  simp only [Prod.mk.injEq] at hseen
  obtain ⟨hpending, hphase, hoptions, hnone, hreader⟩ := hseen
  have hnothing : UdpClient.received (s.calls 0) = none := Option.isNone_iff_eq_none.mp hnone
  have hwaits : s.Waits 0 := ⟨.inr hphase, hnothing⟩
  have hexited : s.reader = .exited := by
    rcases hcase : s.reader with _ | _ | _ | _ | _ | _ <;> simp [hcase] at hreader
    rfl
  have hstranded : s.Stranded ⟨none, none⟩ 0 := by
    refine ⟨hexited, hphase, hnothing, fun interrupt => ?_⟩
    rw [hoptions]
    cases interrupt <;> rfl
  refine ⟨s, htrace, hpending, hwaits, fun hsettled => hsettled.2 0 hwaits, fun t hruns => ?_⟩
  have ht := hstranded.of_runs (UdpClient.Registered.of_runs htrace.runs) hruns
  exact ⟨.inr ht.phase, ht.nothing⟩

end OncRpc
