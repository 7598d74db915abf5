import OncRpc.Owned.Registry

/-!
# Closed is terminal

Whoever closes a connection first decides its error.  From then on the registry is empty, no call
enters it, and no call that had not entered it writes a byte.  A transaction id that is in flight
refuses a second registration and keeps its entry.
-/

namespace OncRpc

open Foundation

variable {R : Type} [ReplyReceiver R]

namespace Conn

variable {cfg : Config} {s s' : Conn R} {action : Action R}

/-- Once closed, a call that is not registered never is. -/
theorem RegistryInv.stays_unregistered (hinv : RegistryInv s) (h : Moves cfg s action s')
    (hclosed : s.closed.isSome = true) {id : ℕ}
    (hid : (s.calls id).phase.isRegistered = false) :
    (s'.calls id).phase.isRegistered = false := by
  rcases hinv.call_cases h id with heq | hr | ⟨-, phase, heq, hopen⟩ | ⟨-, -, -, hphase⟩
  · rw [heq, hid]
  · rw [hid] at hr
    cases hr
  · rw [heq]
    by_contra hin
    rw [hopen ((Bool.not_eq_false _).mp hin)] at hclosed
    cases hclosed
  · rw [hphase]
    rfl

/-- A run from a reachable state keeps the registry invariant, the first error of a closed
connection, and the calls it shut out. -/
theorem runs_closed (hinv : RegistryInv s) {error : RuntimeError} (hclosed : s.closed = some error)
    (h : Runs (step cfg) (fun _ _ => True) s s') :
    RegistryInv s' ∧ s'.closed = some error ∧
      ∀ id, (s.calls id).phase.isRegistered = false → (s'.calls id).phase.isRegistered = false := by
  refine h.invariant (fun t => RegistryInv t ∧ t.closed = some error ∧
    ∀ id, (s.calls id).phase.isRegistered = false → (t.calls id).phase.isRegistered = false)
    ⟨hinv, hclosed, fun _ hid => hid⟩ ?_
  rintro t action u ⟨hinv, hclosed, hcalls⟩ - hstep
  have hmove := moves_of_step hstep
  refine ⟨hinv.step hmove, (hmove.registryStep hinv.idle).closed_stays hclosed, fun id hid => ?_⟩
  exact hinv.stays_unregistered hmove (by rw [hclosed]; rfl) (hcalls id hid)

omit [ReplyReceiver R] in
/-- A call that is not registered has no entry and wrote nothing. -/
theorem RegistryInv.unregistered (hinv : RegistryInv s) {id : ℕ}
    (hid : (s.calls id).phase.isRegistered = false) :
    (∀ xid entry, s.pending.lookup xid = some entry → entry.token ≠ id) ∧
      ∀ chunk, (id, chunk) ∉ s.writes := by
  constructor
  · rintro xid entry hentry rfl
    have hr := (hinv.entries xid entry hentry).2.1
    rw [hid] at hr
    cases hr
  · intro chunk hmem
    have hr := hinv.writes _ hmem
    rw [hid] at hr
    cases hr

/-- A second registration of a transaction id in flight is refused and changes nothing else. -/
theorem RegistryInv.step_duplicate (hinv : RegistryInv s) {id : ℕ} {entry : Pending R}
    (hphase : (s.calls id).phase = .admitted)
    (hentry : s.pending.lookup (s.calls id).xid = some entry) :
    Conn.step cfg s (.call id .step) = some { s with
      calls := Function.update s.calls id ((s.calls id).goto (.refused duplicateXidError)) } := by
  have hopen : s.closed = none := by
    by_contra hclosed
    rw [hinv.empty (Option.isSome_iff_ne_none.mpr hclosed), AList.lookup_empty] at hentry
    cases hentry
  have hbusy : s.busy (.call id) = false := by
    cases hjob : s.job with
    | none => simp [busy, hjob]
    | some job =>
      have hclosed := hinv.failed (by rw [hjob]; rfl)
      rw [hopen] at hclosed
      cases hclosed
  have hidle : (s.calls id).stopping = none := hinv.idle id (by rw [hphase]; rfl)
  have hview : (s.view id).closed = none ∧ (s.view id).entry = some entry := ⟨hopen, hentry⟩
  simp [Conn.step, callStep, hbusy, Call.step, hidle, Call.advance, hphase, Call.register, hview,
    apply]

/-- Closed is terminal.  In every reachable state: the error of a closed connection is kept in every
later state; a closed connection has no entry; a call that was not registered when the connection
closed never has an entry and never writes a byte; and registering a transaction id that is pending
is refused and changes nothing but the refused call. -/
theorem closed_is_terminal (cfg : Config) (s : Conn R) (h : Reachable cfg s) :
    (∀ error s', s.closed = some error → Runs (step cfg) (fun _ _ => True) s s' →
      s'.closed = some error) ∧
    (s.closed.isSome = true → s.pending = ∅) ∧
    (∀ id s', s.closed.isSome = true → (s.calls id).phase.isRegistered = false →
      Runs (step cfg) (fun _ _ => True) s s' →
      (∀ xid entry, s'.pending.lookup xid = some entry → entry.token ≠ id) ∧
        ∀ chunk, (id, chunk) ∉ s'.writes) ∧
    (∀ id entry, (s.calls id).phase = .admitted →
      s.pending.lookup (s.calls id).xid = some entry →
      step cfg s (.call id .step) = some { s with
        calls := Function.update s.calls id ((s.calls id).goto (.refused duplicateXidError)) }) :=
          by
  have hinv := RegistryInv.of_reachable h
  refine ⟨?_, hinv.empty, ?_, ?_⟩
  · intro error s' hclosed hrun
    exact (runs_closed hinv hclosed hrun).2.1
  · intro id s' hclosed hid hrun
    obtain ⟨error, herror⟩ := Option.isSome_iff_exists.mp hclosed
    obtain ⟨hinv', -, hstays⟩ := runs_closed hinv herror hrun
    exact hinv'.unregistered (hstays id hid)
  · intro id entry hphase hentry
    exact hinv.step_duplicate hphase hentry

/-- A call is in flight when the connection is closed; another one is admitted afterwards. -/
theorem closed_is_terminal_admitted_late : ∃ s : Conn Buffers, Reachable .plain s ∧
    s.closed = some .connectionClosed ∧ s.pending = ∅ ∧
    ∀ s', Runs (step .plain) (fun _ _ => True) s s' → s'.closed = some .connectionClosed ∧
      ∀ chunk, (1, chunk) ∉ s'.writes := by
  obtain ⟨s, hs, hseen⟩ := @exists_reachable Buffers _ .plain
    [.admitCall (.classic (.nullCall 7)) ⟨false, .none⟩, .call 0 .step, .close,
      .admitCall (.classic (.nullCall 8)) ⟨false, .none⟩] _
    (fun s => (s.closed, (s.calls 1).phase.isRegistered)) (some .connectionClosed, false)
    (by decide +kernel)
  obtain ⟨hclosed, hphase⟩ := Prod.mk.inj hseen
  obtain ⟨hstays, hempty, hshut, -⟩ := closed_is_terminal .plain s hs
  have hsome : s.closed.isSome = true := by rw [hclosed]; rfl
  refine ⟨s, hs, hclosed, hempty hsome, fun s' hrun => ⟨hstays _ s' hclosed hrun, ?_⟩⟩
  exact (hshut 1 s' hsome hphase hrun).2

end Conn

end OncRpc
