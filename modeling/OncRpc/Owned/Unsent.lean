import OncRpc.Owned.Registry

/-!
# Calls that fail before their first byte

A call that fails before the stream has accepted a byte of its frame leaves the peer as it was, so
it need not concern the other calls.  `send_segments` classifies by the kind of the error: a
cancellation, a deadline or a write timeout leaves the connection alone; every other error fails it.

`Call.Harmless` is the invariant of an unsent call: the error its write ended with is of these
kinds, or it is that of a closed connection.  There are two exceptions.  A classic request is not
measured before it is admitted, so that one which exceeds a fragment is found out under the lock,
and a stream may accept no byte without an error.
-/

namespace OncRpc

open Foundation

variable {R : Type}

/-! ## What the stream answers -/

/-- The stream reports an I/O error to the call. -/
def CallAction.isIoError : CallAction → Bool
  | .write (.error _) | .flush (.error _) => true
  | _ => false

/-- The stream accepts no byte of an offer. -/
def CallAction.isZeroWrite : CallAction → Bool
  | .write (.ok 0) => true
  | _ => false

namespace Call

/-- A call of whose frame no byte was accepted does no harm: its frame can be written, and an error
its write ended with is one that leaves the connection alone, or the connection is closed
already. -/
def Harmless (closed : Bool) (call : Call R) : Prop :=
  match call.phase with
  | .writing frame written _ => written = 0 ∧ ∃ w, frame = .ok w ∧ w.Settled
  | .wrote result written =>
    written = 0 ∧ ∀ error, result = .error error → error.isSoft = true ∨ closed = true
  | .guard _ written _ => written = 0
  | _ => True

variable {cfg : Config} {view : View R} {id : ℕ} {call call' : Call R} {action : CallAction}
  {effect : Effect} {closed : Bool}

/-- Closing the connection keeps a call harmless. -/
theorem Harmless.close {closed' : Bool} (h : call.Harmless closed)
    (hmono : closed = true → closed' = true) (hphase : call'.phase = call.phase) :
    call'.Harmless closed' := by
  unfold Harmless at h ⊢
  rw [hphase]
  split
  · next hp =>
    rw [hp] at h
    exact h
  · next hp =>
    rw [hp] at h
    exact ⟨h.1, fun error herror => (h.2 error herror).imp_right hmono⟩
  · next hp =>
    rw [hp] at h
    exact h
  · trivial

/-- An interrupt leaves the connection alone. -/
theorem isSoft_of_interrupted {options : CallOptions} {default : Option ℕ} {interrupt : Interrupt}
    {error : RuntimeError} (h : options.interrupted default interrupt = some error) :
    error.isSoft = true := by
  cases interrupt with
  | cancelled =>
    unfold CallOptions.interrupted at h
    split_ifs at h
    cases h
    rfl
  | deadline =>
    obtain ⟨timeout, -, rfl⟩ := Option.map_eq_some_iff.mp h
    rfl

/-- A step of a call that stays unsent keeps it harmless, and fails only a closed connection. -/
theorem Moves.harmless (h : Moves cfg view id call action call' effect)
    (hfits : FrameFits call.segments) (hinv : call.Harmless view.closed.isSome)
    (hio : action.isIoError = false) (hzero : action.isZeroWrite = false)
    (hunsent : ∀ chunk, effect = .accept chunk → chunk = []) :
    call'.Harmless view.closed.isSome ∧
      ∀ error, effect = .fail error → view.closed.isSome = true := by
  cases h with
  | mark | answer | remove | unlisted => exact ⟨hinv.close (fun h => h) rfl, by simp⟩
  | advance hstop h =>
    cases h with
    | check hphase hclosed hwriter =>
      refine ⟨?_, by simp⟩
      rcases FrameWriter.new_cases call.segments with ⟨-, w, hnew, hsettled, -⟩ | ⟨hover, -⟩
      · exact ⟨rfl, w, hnew, hsettled⟩
      · exact absurd hfits hover
    | @accept frame frame' written count stopped slices hphase hpoll hpos hcount hresume =>
      have hnil := hunsent _ rfl
      obtain ⟨rfl, hne⟩ := FrameWriter.slices_of_poll hpoll
      have hlen := congrArg List.length hnil
      rw [List.length_take, Nat.min_eq_left hcount, List.length_nil] at hlen
      omega
    | acceptNone hphase hpoll => cases hzero
    | retry hphase hpoll hkind => cases hio
    | @writeFails frame written stopped action error hphase herror =>
      refine ⟨?_, by simp⟩
      unfold Harmless at hinv
      rw [hphase] at hinv
      obtain ⟨hwritten, w, rfl, hsettled⟩ := hinv
      refine ⟨hwritten, fun error' heq => ?_⟩
      cases heq
      cases herror with
      | closed hclosed => exact .inr (by rw [hclosed]; rfl)
      | timeout => exact .inl rfl
      | stream => cases hio
      | flush => cases hio
      | poll hfailed =>
        rcases FrameWriter.poll_of_settled hsettled with ⟨hdone, -⟩ | ⟨hawait, -⟩
        · rw [hfailed] at hdone
          cases hdone
        · rw [hfailed] at hawait
          cases hawait
    | @flush frame written stopped hphase hpoll =>
      unfold Harmless at hinv
      rw [hphase] at hinv
      exact ⟨⟨hinv.1, by simp⟩, by simp⟩
    | stopUnwritten hphase herror =>
      refine ⟨⟨rfl, fun error heq => ?_⟩, by simp⟩
      cases heq
      exact .inl (isSoft_of_interrupted herror)
    | stopWritten hphase hwritten =>
      unfold Harmless at hinv
      rw [hphase] at hinv
      exact absurd hinv.1 hwritten
    | dropWrite hphase =>
      unfold Harmless at hinv
      rw [hphase] at hinv
      exact ⟨hinv.1, by simp⟩
    | @settle result written hphase =>
      unfold Harmless at hinv
      rw [hphase] at hinv
      obtain ⟨hwritten, hsoft⟩ := hinv
      unfold Call.settle
      rcases result with error | ⟨⟨⟩⟩
      · refine ⟨hwritten, fun error' hfail => ?_⟩
        rcases hsoft error rfl with hsoft | hclosed
        · simp only [if_pos (And.intro hwritten hsoft)] at hfail
          cases hfail
        · exact hclosed
      · exact ⟨hwritten, by simp⟩
    | @guard complete written next hphase =>
      unfold Harmless at hinv
      rw [hphase] at hinv
      refine ⟨trivial, fun error hfail => ?_⟩
      rw [if_neg (fun h => h.2 hinv)] at hfail
      cases hfail
    | retire hphase =>
      refine ⟨trivial, fun error hfail => ?_⟩
      split_ifs at hfail
    | @unlock next hphase =>
      refine ⟨?_, by simp⟩
      rcases next with (error | ⟨⟨⟩⟩) | _ <;> trivial
    | _ => exact ⟨trivial, by simp⟩

/-- A call registers where nobody is registered, and removes only its own entry. -/
theorem Moves.of_registry (h : Moves cfg view id call action call' effect) :
    (effect = .register → view.entry = none) ∧
      (effect = .remove → ∃ sender, view.entry = some ⟨id, sender⟩) := by
  cases h with
  | mark | unlisted => exact ⟨nofun, nofun⟩
  | answer _ hentry | remove _ hentry => exact ⟨nofun, fun _ => ⟨_, hentry⟩⟩
  | advance hstop h =>
    cases h with
    | register _ _ hentry => exact ⟨fun _ => hentry, nofun⟩
    | @settle result written hphase =>
      unfold Call.settle
      rcases result with error | ⟨⟨⟩⟩
      · simp only
        split_ifs <;> exact ⟨nofun, nofun⟩
      · exact ⟨nofun, nofun⟩
    | guard | retire => split_ifs <;> exact ⟨nofun, nofun⟩
    | _ => exact ⟨nofun, nofun⟩

end Call

namespace Conn

/-! ## Unsent calls of a connection -/

/-- No byte of the frame of the call was accepted. -/
def Unsent (s : Conn R) (id : ℕ) : Prop := ∀ chunk, (id, chunk) ∈ s.writes → chunk = []

/-- The stream reports no I/O error to the call in this step. -/
def Spares (id : ℕ) (action : Action R) : Prop :=
  ∀ act, action = .call id act → act.isIoError = false

/-- If the call is admitted in this step and is a classic one, its message fits one fragment; and
the stream does not accept zero bytes of it. -/
def Sends (id : ℕ) (s : Conn R) (action : Action R) : Prop :=
  (∀ message options, action = .admitCall (.classic message) options → s.created = id →
    ∀ encoded, message.encode = .ok encoded → encoded.length < 2 ^ 31) ∧
  ∀ act, action = .call id act → act.isZeroWrite = false

variable [ReplyReceiver R] {cfg : Config} {s s' : Conn R} {action : Action R} {id : ℕ}

/-- Accepted bytes stay accepted. -/
theorem Moves.mem_writes (h : Moves cfg s action s') {write : ℕ × Bytes} (hmem : write ∈ s.writes) :
    write ∈ s'.writes := by
  cases h with
  | @call id act call effect hbusy h =>
    cases effect with
    | accept chunk => exact List.mem_append_left _ hmem
    | fail error => simpa only [apply, fail_writes] using hmem
    | _ => exact hmem
  | reader hbusy h =>
    cases h with
    | unwind => rwa [dropSender_eq]
    | cleanup => rwa [cleanup_eq]
    | fail | exit => simpa only [fail_writes] using hmem
    | _ => exact hmem
  | close => simpa only [fail_writes] using hmem
  | admitCall | failNext | failDone | poll | closeAbort | closeTake | release => exact hmem

omit [ReplyReceiver R] in
/-- The segments of an admitted request fit one fragment, if it is not too large a classic one. -/
theorem fits_of_prepare {request : Request R} {xid : Xid} {segments : List Bytes}
    {sender : ResponseSender R} (h : request.prepare cfg = .ok (xid, segments, sender))
    (hclassic : ∀ message, request = .classic message →
      ∀ encoded, message.encode = .ok encoded → encoded.length < 2 ^ 31) : FrameFits segments := by
  cases request with
  | classic message =>
    simp only [Request.prepare, RpcMessage.segments, except_bind_eq_ok, mapError_eq_ok, pure,
      Except.pure, Except.ok.injEq, Prod.mk.injEq] at h
    obtain ⟨segs, ⟨charge, -, encoded, hencoded, rfl⟩, -, rfl, -⟩ := h
    have hlen := hclassic message rfl encoded hencoded
    simpa [FrameFits, FragmentFits] using hlen
  | into request receiver =>
    simp only [Request.prepare, except_bind_eq_ok, pure, Except.pure, Except.ok.injEq,
      Prod.mk.injEq] at h
    obtain ⟨⟨header, charge⟩, hprepare, -, -, -, rfl, -⟩ := h
    obtain ⟨-, -, hlen, -⟩ := prepare_eq_ok_iff.mp hprepare
    simpa [FrameFits, FragmentFits] using hlen

/-- The frame of the call can be written, and it does no harm while it is unsent. -/
structure UnsentInv (id : ℕ) (s : Conn R) : Prop where
  fits : FrameFits (s.calls id).segments
  harmless : s.Unsent id → (s.calls id).Harmless s.closed.isSome

/-- The future of a call moves by its own steps only. -/
theorem Moves.phase_eq_of_ne (h : Moves cfg s action s') (hfresh : s.calls s.created = Call.absent)
    (hne : ∀ act, action ≠ .call id act) (hid : (s.calls id).phase ≠ .absent) :
    (s'.calls id).phase = (s.calls id).phase := by
  cases h with
  | admitCall =>
    have hid' : id ≠ s.created := by
      rintro rfl
      rw [hfresh] at hid
      exact hid rfl
    simp only [Function.update_of_ne hid']
  | @call id' act call effect hbusy h =>
    have hid' : id ≠ id' := by
      rintro rfl
      exact hne act rfl
    simp only [Function.update_of_ne hid']
  | reader hbusy h => exact h.phase_eq id
  | @failNext job xid entry =>
    exact update_eq (s := s) Call.phase
      (failCall_eq unanswering_phase (s.calls entry.token) job.error entry.sender) id
  | close => simp only [fail_calls]
  | failDone | poll | closeAbort | closeTake | release => rfl

omit [ReplyReceiver R] in
/-- What a step of the call does while it stays unsent. -/
theorem UnsentInv.own_step (hinv : UnsentInv id s) {act : CallAction}
    {call : Call R} {effect : Effect}
    (h : Call.Moves cfg (s.view id) id (s.calls id) act call effect) (hio : act.isIoError = false)
    (hzero : act.isZeroWrite = false)
    (hunsent : Unsent { s.apply id effect with calls := Function.update s.calls id call } id) :
    call.Harmless s.closed.isSome ∧ (s.apply id effect).closed = s.closed ∧
      (s.apply id effect).job = s.job := by
  have hbefore : s.Unsent id := by
    intro chunk hmem
    refine hunsent chunk ?_
    cases effect with
    | accept chunk' => exact List.mem_append_left _ hmem
    | fail error => simpa only [apply, fail_writes] using hmem
    | _ => exact hmem
  have haccept : ∀ chunk, effect = .accept chunk → chunk = [] := by
    rintro chunk rfl
    exact hunsent chunk (List.mem_append_right _ (List.mem_singleton.mpr rfl))
  obtain ⟨hharmless, hfail⟩ :=
    h.harmless hinv.fits (hinv.harmless hbefore) hio hzero haccept
  refine ⟨hharmless, ?_⟩
  cases effect with
  | fail error =>
    obtain ⟨error', hclosed⟩ := Option.isSome_iff_exists.mp (hfail error rfl)
    have hsame : s.fail (.call id) error = s := s.fail_of_closed _ _ hclosed
    simp only [apply, hsame, and_self]
  | _ => exact ⟨rfl, rfl⟩

/-- A step that creates a call admits its request. -/
theorem Moves.admits_of_created (h : Moves cfg s action s')
    (hcreated : s'.created = s.created + 1) :
    ∃ request options xid sender, action = .admitCall request options ∧
      request.prepare cfg = .ok (xid, (s'.calls s.created).segments, sender) := by
  cases h with
  | @admitCall request options xid segments sender hreleased hprepare =>
    refine ⟨request, options, xid, sender, rfl, ?_⟩
    simp only [Function.update_self]
    exact hprepare
  | call => simp only [apply_created] at hcreated; omega
  | reader hbusy h =>
    have hsame : s'.created = s.created := by
      cases h with
      | unwind => rw [dropSender_eq]
      | cleanup => rw [cleanup_eq]
      | fail | exit => simp only [fail_created]
      | _ => rfl
    omega
  | close => simp only [fail_created] at hcreated; omega
  | failNext | failDone | poll | closeAbort | closeTake | release => simp only at hcreated; omega

/-- Every step keeps the call harmless while it is unsent. -/
theorem UnsentInv.step (hinv : UnsentInv id s) (hreg : RegistryInv s) (h : Moves cfg s action s')
    (hspares : Spares id action) (hsends : Sends id s action) : UnsentInv id s' := by
  have hclosed : s.closed.isSome = true → s'.closed.isSome = true := by
    intro hsome
    obtain ⟨error, hclosed⟩ := Option.isSome_iff_exists.mp hsome
    rw [(h.registryStep hreg.idle).closed_stays hclosed]
    rfl
  have hunsent : s'.Unsent id → s.Unsent id := fun h' chunk hmem => h' chunk (h.mem_writes hmem)
  by_cases hown : ∃ act, action = .call id act
  · obtain ⟨act, rfl⟩ := hown
    cases h with
    | call hbusy h =>
      refine ⟨?_, fun hstill => ?_⟩
      · simp only [Function.update_self, h.later.segments]
        exact hinv.fits
      · obtain ⟨hharmless, hsame, -⟩ :=
          hinv.own_step h (hspares act rfl) (hsends.2 act rfl) hstill
        simp only [Function.update_self, hsame]
        exact hharmless
    | reader hbusy h =>
      cases h with
      | stopped _ _ haction => rcases haction with ⟨h, -⟩ | ⟨h, -⟩ <;> cases h
      | unwind _ haction => rcases haction with ⟨h, -⟩ | ⟨h, -⟩ <;> cases h
  · have hne : ∀ act, action ≠ .call id act := fun act heq => hown ⟨act, heq⟩
    by_cases hid : (s.calls id).phase = .absent
    · -- The call is new, or it still does not exist.
      rcases hreg.call_cases h id with heq | hr | ⟨hphase, -⟩ | ⟨rfl, hcreated, -, hphase⟩
      · refine ⟨heq ▸ hinv.fits, fun _ => ?_⟩
        unfold Call.Harmless
        rw [heq, hid]
        trivial
      · rw [hid] at hr
        cases hr
      · rw [hid] at hphase
        cases hphase
      · refine ⟨?_, fun _ => ?_⟩
        · obtain ⟨request, options, xid, sender, rfl, hprepare⟩ := h.admits_of_created hcreated
          refine fits_of_prepare hprepare fun message heq encoded hencoded => ?_
          exact hsends.1 message options (by rw [heq]) rfl encoded hencoded
        · unfold Call.Harmless
          rw [hphase]
          trivial
    · have hlater := h.later (hreg.fresh _ le_rfl) hid
      refine ⟨hlater.segments ▸ hinv.fits, fun hstill => ?_⟩
      exact (hinv.harmless (hunsent hstill)).close hclosed
        (h.phase_eq_of_ne (hreg.fresh _ le_rfl) hne hid)

/-- The call is harmless while it is unsent, on every run in which its request fits. -/
theorem UnsentInv.of_runs (h : Runs (Conn.step cfg) (fun t a => Spares id a ∧ Sends id t a)
    (initial cfg) s) : RegistryInv s ∧ UnsentInv id s := by
  refine h.invariant (fun t => RegistryInv t ∧ UnsentInv id t)
    ⟨RegistryInv.initial cfg, show ([] : List Bytes).flatten.length < 2 ^ 31 by decide,
      fun _ => trivial⟩ ?_
  rintro t a u ⟨hreg, hinv⟩ ⟨hspares, hsends⟩ hstep
  have hmove := moves_of_step hstep
  exact ⟨hreg.step hmove, hinv.step hreg hmove hspares hsends⟩

omit [ReplyReceiver R] in
/-- The entries of other calls are left alone by a step that registers the call or removes its
entry. -/
theorem lookup_apply_iff {act : CallAction} {call : Call R} {effect : Effect}
    (h : Call.Moves cfg (s.view id) id (s.calls id) act call effect)
    (hfail : ∀ error, effect = .fail error → s.closed.isSome = true) (xid : Xid) (entry : Pending R)
    (hother : entry.token ≠ id) :
    (s.apply id effect).pending.lookup xid = some entry ↔ s.pending.lookup xid = some entry := by
  obtain ⟨hregister, hremove⟩ := h.of_registry
  cases effect with
  | register =>
    have hnone : s.pending.lookup (s.calls id).xid = none := hregister rfl
    by_cases hxid : xid = (s.calls id).xid
    · rw [hxid, hnone]
      simp only [apply, AList.lookup_insert]
      constructor
      · intro heq
        cases heq
        exact absurd rfl hother
      · intros; contradiction
    · simp only [apply, AList.lookup_insert_ne hxid]
  | remove =>
    obtain ⟨sender, hentry⟩ := hremove rfl
    have hsome : s.pending.lookup (s.calls id).xid = some ⟨id, sender⟩ := hentry
    by_cases hxid : xid = (s.calls id).xid
    · rw [hxid, hsome]
      simp only [apply, AList.lookup_erase]
      constructor
      · intros; contradiction
      · intro heq
        cases heq
        exact absurd rfl hother
    · simp only [apply, AList.lookup_erase_ne hxid]
  | fail error =>
    obtain ⟨error', hclosed⟩ := Option.isSome_iff_exists.mp (hfail error rfl)
    simp only [apply, s.fail_of_closed _ _ hclosed]
  | none | lock | unlock | accept | retire => rfl

/-- A call that fails before a byte of its frame is accepted, without an I/O error, concerns nobody
else: on runs in which a classic request of the call fits one fragment and the stream accepts no
empty writes from it, no step that leaves the call unsent closes the connection or starts to fail
it, changes another call, or changes the registration of another call. -/
theorem unsent_failures_local (cfg : Config) (id : ℕ) (s s' : Conn R) (act : CallAction)
    (hrun : Runs (step cfg) (fun t a => Spares id a ∧ Sends id t a) (initial cfg) s)
    (hspares : Spares id (.call id act : Action R)) (hsends : Sends id s (.call id act))
    (hstep : step cfg s (.call id act) = some s') (hunsent : s'.Unsent id) :
    s'.closed = s.closed ∧ s'.job = s.job ∧ (∀ id', id' ≠ id → s'.calls id' = s.calls id') ∧
      ∀ xid entry, entry.token ≠ id →
        (s'.pending.lookup xid = some entry ↔ s.pending.lookup xid = some entry) := by
  obtain ⟨-, hinv⟩ := UnsentInv.of_runs hrun
  cases moves_of_step hstep with
  | @call _ _ call effect hbusy h =>
    obtain ⟨-, hclosed, hjob⟩ := hinv.own_step h (hspares act rfl) (hsends.2 act rfl) hunsent
    refine ⟨hclosed, hjob, fun id' hne => Function.update_of_ne hne _ _, ?_⟩
    refine lookup_apply_iff h fun error heq => ?_
    subst heq
    rw [← hclosed]
    exact fail_closed_isSome s _ _
  | reader hbusy h =>
    cases h with
    | stopped _ _ haction => rcases haction with ⟨h, -⟩ | ⟨h, -⟩ <;> cases h
    | unwind _ haction => rcases haction with ⟨h, -⟩ | ⟨h, -⟩ <;> cases h

/-- The step is no I/O error and no empty write, and a classic call that it admits is shorter than
2^31 bytes once encoded. -/
def sparesAndSends : Action R → Bool
  | .call _ act => !act.isIoError && !act.isZeroWrite
  | .admitCall (.classic message) _ =>
    match message.encode with
    | .ok encoded => encoded.length < 2 ^ 31
    | .error _ => true
  | _ => true

omit [ReplyReceiver R] in
theorem of_sparesAndSends (id : ℕ) (h : sparesAndSends action = true) :
    Spares id action ∧ Sends id s action := by
  refine ⟨?_, ?_, ?_⟩
  · rintro act rfl
    simp only [sparesAndSends, Bool.and_eq_true, Bool.not_eq_true'] at h
    exact h.1
  · rintro message options rfl - encoded hencoded
    simp only [sparesAndSends, hencoded, decide_eq_true_eq] at h
    exact h
  · rintro act rfl
    simp only [sparesAndSends, Bool.and_eq_true, Bool.not_eq_true'] at h
    exact h.2

/-- A call is cancelled before its first byte; the step that classifies the error leaves the
connection open. -/
theorem unsent_failures_local_cancelled : ∃ s s' : Conn Buffers,
    Runs (step .plain) (fun t a => Spares 0 a ∧ Sends 0 t a) (initial .plain) s ∧
    step .plain s (.call 0 .step) = some s' ∧ s'.Unsent 0 ∧ s.closed = none ∧ s'.closed = none := by
  obtain ⟨s, htrace, hseen⟩ := @Trace.exists_of_runList _ _ (step .plain)
    (fun t a => Spares 0 a ∧ Sends 0 t a) (initial .plain : Conn Buffers)
    (fun _ a => sparesAndSends a)
    [.admitCall (.classic (.nullCall 7)) ⟨true, .none⟩, .call 0 .step, .call 0 .lock, .call 0 .step,
      .call 0 (.interrupt .cancelled), .call 0 .step, .call 0 .step]
    _ (fun s => (s.closed, (step .plain s (.call 0 .step)).map Conn.writes)) (none, some [])
    (fun t a hcheck => of_sparesAndSends 0 hcheck) (by decide +kernel)
  obtain ⟨hclosed, hnext⟩ := Prod.mk.inj hseen
  obtain ⟨s', hstep, hwrites⟩ := Option.map_eq_some_iff.mp hnext
  have hunsent : s'.Unsent 0 := by
    intro chunk hmem
    rw [hwrites] at hmem
    cases hmem
  obtain ⟨hspares, hsends⟩ := @of_sparesAndSends Buffers s (.call 0 .step) 0 rfl
  obtain ⟨hsame, -⟩ :=
    unsent_failures_local .plain 0 s s' .step htrace.runs hspares hsends hstep hunsent
  exact ⟨s, s', htrace.runs, hstep, hunsent, hclosed, hsame.trans hclosed⟩

/-- A classic call whose arguments alone exceed a fragment is admitted. -/
theorem large_prepare {payload : Bytes} (hlarge : 2 ^ 31 ≤ payload.length)
    (hmax : payload.length ≤ 2 ^ 32) : ∃ encoded, ¬ FrameFits [encoded] ∧
      (Request.classic ((RpcMessage.nullCall 7).withPayload payload) : Request Buffers).prepare
        .plain = .ok (7, [encoded], .buffered) := by
  obtain ⟨header, hheader, hlen⟩ :
      ∃ header, (RpcMessage.nullCall 7).encode = .ok header ∧ header.length = 40 :=
    ⟨_, rfl, rfl⟩
  have hencode := encode_withPayload (m := RpcMessage.nullCall 7) rfl rfl payload
  rw [hheader] at hencode
  have hlen' : (header ++ payload).length = 40 + payload.length := by
    rw [List.length_append, hlen]
  have hadmit := messageAdmissionBytes_eq 0 hencode (by
    rw [hlen']
    unfold usizeMax
    omega)
  refine ⟨header ++ payload, ?_, ?_⟩
  · unfold FrameFits FragmentFits
    rw [List.flatten_singleton, hlen']
    omega
  · simp only [Request.prepare, RpcMessage.segments, Config.plain, hadmit, hencode]
    rfl

/-- A request that was admitted, but exceeds a fragment, closes the connection. -/
theorem oversize_closes {request : Request Buffers} {xid : Xid} {segments : List Bytes}
    {sender : ResponseSender Buffers}
    (hprepare : request.prepare .plain = .ok (xid, segments, sender))
    (hover : ¬ FrameFits segments) : ∃ s s' : Conn Buffers,
      Runs (step .plain) (fun _ a => Spares 0 a) (initial .plain) s ∧
      step .plain s (.call 0 .step) = some s' ∧ s'.Unsent 0 ∧ s.closed = none ∧
      s'.closed = some oversizeError := by
  have hnew : FrameWriter.new segments = .error oversizeError := by
    rcases FrameWriter.new_cases segments with ⟨hfits, -⟩ | ⟨-, hnew⟩
    · exact absurd hfits hover
    · exact hnew
  obtain ⟨s, htrace, hseen⟩ := @Trace.exists_of_runList _ _ (step .plain)
    (fun _ a => Spares 0 a) (initial .plain : Conn Buffers) (fun _ a => match a with
      | .call _ act => !act.isIoError
      | _ => true)
    [.admitCall request ⟨false, .none⟩, .call 0 .step, .call 0 .lock, .call 0 .step, .call 0 .step]
    _ (fun s => (s.closed, (step .plain s (.call 0 .step)).map fun s' => (s'.writes, s'.closed)))
    (none, some ([], some oversizeError)) (by
      rintro t a hcheck act rfl
      simpa using hcheck) (by
      simp [runList, guarded, step, admitCall, hprepare, callStep, initial, busy,
        Call.step, Call.absent, Call.advance, Call.register, view, apply, Call.goto, hnew,
          Call.check, Call.writeStep, Call.settle,
        RuntimeError.isSoft, fail, CallAction.isIoError, oversizeError])
  obtain ⟨hclosed, hnext⟩ := Prod.mk.inj hseen
  obtain ⟨s', hstep, hwrites⟩ := Option.map_eq_some_iff.mp hnext
  obtain ⟨hwrites, hclosed'⟩ := Prod.mk.inj hwrites
  refine ⟨s, s', htrace.runs, hstep, ?_, hclosed, hclosed'⟩
  intro chunk hmem
  rw [hwrites] at hmem
  cases hmem

/-- A classic call with arguments of 2 GiB: no byte of it is accepted and the stream reports no
error, but the connection is closed. -/
theorem large_call_closes : ∃ s s' : Conn Buffers,
    (∃ encoded, (Request.classic ((RpcMessage.nullCall 7).withPayload (List.replicate (2 ^ 31) 0)) :
      Request Buffers).prepare .plain = .ok (7, [encoded], .buffered)) ∧
    Runs (step .plain) (fun _ a => Spares 0 a) (initial .plain) s ∧
    step .plain s (.call 0 .step) = some s' ∧ s'.Unsent 0 ∧ s.closed = none ∧
    s'.closed = some oversizeError := by
  obtain ⟨encoded, hover, hprepare⟩ := @large_prepare (List.replicate (2 ^ 31) 0)
    (by rw [List.length_replicate]) (by rw [List.length_replicate]; decide)
  obtain ⟨s, s', hrun⟩ := oversize_closes hprepare hover
  exact ⟨s, s', ⟨encoded, hprepare⟩, hrun⟩

end Conn

end OncRpc
