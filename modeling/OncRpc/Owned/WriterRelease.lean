import OncRpc.Owned.FrameIntegrity

/-!
# The release of the writer

Four places drop the writer of a closed connection.  A frame guard does it under the lock it holds,
and the reader of a broken record waits for the lock.  `close` and the exit guard of the reader only
try the lock, and leave the writer to its holder.  A holder with a frame guard takes care of it,
unless the guard has already looked; a holder that has no guard yet finds the connection closed and
returns.  A reader that was aborted before its first poll has no exit guard, and does not try.

`Conn.Answerable` is the invariant: as long as a closed connection has its writer, somebody is still
to drop it.  It is kept by every step but a last try that fails on such a holder (`Conn.Tidy`).
-/

namespace OncRpc

open Foundation

variable {R : Type}

/-- The call holds a frame guard that has not yet looked whether the connection is closed. -/
def Phase.inFrame : Phase R → Bool
  | .writing .. | .wrote .. | .guard .. | .retire _ => true
  | _ => false

/-- A call with a frame guard holds the lock. -/
theorem Phase.holdsLock_of_inFrame {phase : Phase R} (h : phase.inFrame = true) :
    phase.holdsLock = true := by
  cases phase <;> first | rfl | cases h

namespace Call

variable {cfg : Config} {view : View R} {id : ℕ} {call call' : Call R} {action : CallAction}
  {effect : Effect}

/-- A call with a frame guard keeps it, or drops it after looking at the connection. -/
theorem Moves.inFrame (h : Moves cfg view id call action call' effect)
    (hin : call.phase.inFrame = true) :
    (call'.phase.inFrame = true ∧ effect ≠ .lock ∧ effect ≠ .unlock) ∨
      effect = (if view.closed.isSome then .retire else .none) := by
  cases h with
  | mark | answer | remove | unlisted => exact .inl ⟨hin, nofun, nofun⟩
  | advance hstop h =>
    cases h with
    | accept | acceptNone | retry | writeFails | flush | stopUnwritten | stopWritten | dropWrite =>
      exact .inl ⟨rfl, nofun, nofun⟩
    | @settle result written hphase =>
      left
      unfold Call.settle
      rcases result with error | ⟨⟨⟩⟩
      · refine ⟨rfl, ?_⟩
        simp only
        split_ifs <;> exact ⟨nofun, nofun⟩
      · exact ⟨rfl, nofun, nofun⟩
    | guard hphase =>
      refine .inl ⟨rfl, ?_⟩
      split_ifs <;> exact ⟨nofun, nofun⟩
    | retire => exact .inr rfl
    | register hphase | refuse hphase | discard hphase | lock hphase | giveUp hphase
    | checkFails hphase | check hphase | unlock hphase | stopWait hphase | finish hphase
    | dropped hphase =>
      rw [hphase] at hin
      cases hin
    | dropWait hphase =>
      rcases hphase with hphase | hphase | hphase <;>
      · rw [hphase] at hin
        cases hin
    | receive hphase | lost hphase | panic hphase =>
      rcases hphase with hphase | hphase <;>
      · rw [hphase] at hin
        cases hin

/-- A call fails the connection under the lock, and has a frame guard then. -/
theorem Moves.of_fail (h : Moves cfg view id call action call' effect) {error : RuntimeError}
    (hfail : effect = .fail error) :
    call.phase.holdsLock = true ∧ call'.phase.inFrame = true := by
  cases h with
  | mark | answer | remove | unlisted => cases hfail
  | advance hstop h =>
    cases h with
    | @settle result written hphase =>
      rw [hphase]
      refine ⟨rfl, ?_⟩
      unfold Call.settle
      rcases result with error' | ⟨⟨⟩⟩ <;> rfl
    | guard hphase =>
      rw [hphase]
      exact ⟨rfl, rfl⟩
    | retire => split_ifs at hfail
    | _ => cases hfail

/-- A call releases the lock only if it holds it, and takes it only if it is free. -/
theorem Moves.of_lock (h : Moves cfg view id call action call' effect) :
    (effect = .unlock → call.phase.holdsLock = true) ∧ (effect = .lock → view.lockFree = true) := by
  cases h with
  | mark | answer | remove | unlisted => exact ⟨nofun, nofun⟩
  | advance hstop h =>
    cases h with
    | lock hphase hfree => exact ⟨nofun, fun _ => hfree⟩
    | checkFails hphase | unlock hphase =>
      rw [hphase]
      exact ⟨fun _ => rfl, nofun⟩
    | @settle result written hphase =>
      rw [hphase]
      refine ⟨fun _ => rfl, fun hlock => ?_⟩
      unfold Call.settle at hlock
      rcases result with error' | ⟨⟨⟩⟩
      · simp only at hlock
        split_ifs at hlock
      · cases hlock
    | guard hphase | retire hphase =>
      rw [hphase]
      refine ⟨fun _ => rfl, fun hlock => ?_⟩
      split_ifs at hlock
    | _ => exact ⟨nofun, nofun⟩

end Call

namespace Conn

variable {cfg : Config} {s s' : Conn R} {action : Action R}

/-! ## Who drops the writer -/

/-- The lock is held by a call whose frame guard is still to look at the connection. -/
def Guarded (s : Conn R) : Prop :=
  ∃ id, s.lock = some id ∧ (s.calls id).phase.inFrame = true

/-- The reader has an exit guard that is still to be dropped. -/
def ReaderGuarded (s : Conn R) : Prop := s.polled = true ∧ s.reader ≠ .exited

/-- The step tries the lock to drop the writer, and nobody tries after it. -/
def LastTry (s : Conn R) (action : Action R) : Prop :=
  (∃ id, action = .closer id ∧ s.closers[id]? = some .take ∧ ¬ s.ReaderGuarded ∧
    ∀ i closing, i ≠ id → s.closers[i]? = some closing → closing = .done) ∨
  (action = .turn ∧ s.reader = .exitTake ∧ ∀ closing ∈ s.closers, closing = .done)

/-- If the step is the last try to drop a writer, the lock is free, or its holder has a frame guard
that is still to look at the connection. -/
def Tidy (s : Conn R) (action : Action R) : Prop :=
  s.writer = true → LastTry s action → s.lock = none ∨ s.Guarded

/-- Somebody is still to drop the writer of a closed connection. -/
def Answerable (s : Conn R) : Prop :=
  s.released = false → s.closed.isSome = true → s.writer = true →
    s.ReaderGuarded ∨ (∃ closing ∈ s.closers, closing ≠ .done) ∨ s.Guarded

/-- A reader that was not polled has not read anything, and leaves nothing when it is dropped. -/
def UnpolledInv (s : Conn R) : Prop :=
  s.polled = false → (∃ cursor got, s.reader = .xid cursor got) ∨ s.reader = .exited

/-- A frame guard stays while its holder and the lock do. -/
theorem Guarded.keep (h : s.Guarded) (hlock : s'.lock = s.lock)
    (hphase : ∀ id, (s.calls id).phase.inFrame = true → (s'.calls id).phase.inFrame = true) :
    s'.Guarded := by
  obtain ⟨id, hid, hin⟩ := h
  exact ⟨id, hlock.trans hid, hphase id hin⟩

namespace UnpolledInv

/-- A new connection satisfies the invariant. -/
theorem initial (cfg : Config) : UnpolledInv (Conn.initial cfg : Conn R) := by
  intro _
  rw [show (Conn.initial cfg : Conn R).reader = .nextRecord cfg from rfl, ReaderPhase.nextRecord_eq]
  exact .inl ⟨_, _, rfl⟩

variable [ReplyReceiver R]

/-- A step of the reader keeps the invariant. -/
theorem reader (hinv : UnpolledInv s) (h : ReaderMoves cfg s action s') : UnpolledInv s' := by
  intro hpolled
  cases h with
  | read => cases hpolled
  | xidFails hreader hfails hpolled' =>
    simp only at hpolled
    rw [hpolled'] at hpolled
    cases hpolled
  | orphanExits | exitTake | discard => exact .inr rfl
  | abort habort hphase =>
    simp only at hpolled
    rcases hinv hpolled with ⟨cursor, got, hreader⟩ | hreader
    · rw [hreader, hpolled] at hphase
      cases hphase
    · rw [hreader] at hphase
      exact hphase.elim
  | unwind hreader =>
    rw [dropSender_eq] at hpolled
    rcases hinv hpolled with ⟨cursor, got, hxid⟩ | hexited
    · rw [hreader] at hxid
      cases hxid
    · rw [hreader] at hexited
      cases hexited
  | cleanup hreader =>
    rw [cleanup_eq] at hpolled
    rcases hinv hpolled with ⟨cursor, got, hxid⟩ | hexited
    · rw [hreader] at hxid
      cases hxid
    · rw [hreader] at hexited
      cases hexited
  | orphan hreader | take hreader | taken hreader | unregistered hreader | answer hreader
  | stopped hreader | drained hreader | orphanFails hreader | fail hreader | retire hreader
  | exit hreader =>
    simp only [fail_polled] at hpolled
    rcases hinv hpolled with ⟨cursor, got, hxid⟩ | hexited
    · rw [hreader] at hxid
      cases hxid
    · rw [hreader] at hexited
      cases hexited

/-- Every step keeps the invariant. -/
theorem step (hinv : UnpolledInv s) (h : Moves cfg s action s') : UnpolledInv s' := by
  cases h with
  | reader hbusy h => exact hinv.reader h
  | poll => exact nofun
  | call =>
    intro hpolled
    simp only [apply_polled] at hpolled
    simpa only [apply_reader] using hinv hpolled
  | close =>
    intro hpolled
    simp only [fail_polled] at hpolled
    simpa only [fail_reader] using hinv hpolled
  | admitCall | failNext | failDone | closeAbort | closeTake | release => exact hinv

end UnpolledInv

namespace Answerable

/-- A step of a call. -/
theorem call (hinv : Answerable s) (hline : LineInv s) {id : ℕ} {act : CallAction} {call : Call R}
    {effect : Effect} (h : Call.Moves cfg (s.view id) id (s.calls id) act call effect) :
    Answerable { s.apply id effect with calls := Function.update s.calls id call } := by
  by_cases hfail : ∃ error, effect = .fail error
  · -- The call closes the connection under the lock.
    obtain ⟨error, rfl⟩ := hfail
    obtain ⟨hholds, hin⟩ := h.of_fail rfl
    intro _ _ _
    refine .inr (.inr ⟨id, ?_, ?_⟩)
    · simp only [apply, fail_lock]
      exact (hline.holder id).mp hholds
    · simp only [Function.update_self, hin]
  · have hclosed : (s.apply id effect).closed = s.closed := by
      cases effect with
      | fail error => exact absurd ⟨error, rfl⟩ hfail
      | _ => rfl
    have hwriter : (s.apply id effect).writer = true → s.writer = true ∧ effect ≠ .retire := by
      intro htrue
      cases effect with
      | retire => cases htrue
      | fail error => exact absurd ⟨error, rfl⟩ hfail
      | _ => exact ⟨htrue, by simp⟩
    intro hreleased hsome htrue
    simp only [apply_released] at hreleased
    simp only [hclosed] at hsome
    obtain ⟨hbefore, hretire⟩ := hwriter htrue
    rcases hinv hreleased hsome hbefore with hreader | hcloser | ⟨holder, hlock, hin⟩
    · exact .inl (by simpa only [ReaderGuarded, apply_polled, apply_reader] using hreader)
    · exact .inr (.inl (by simpa only [apply_closers] using hcloser))
    · refine .inr (.inr ?_)
      have hholds := (hline.holder holder).mp (Phase.holdsLock_of_inFrame hin)
      obtain ⟨hunlock, htake⟩ := h.of_lock
      by_cases hid : holder = id
      · subst hid
        rcases h.inFrame hin with ⟨hin', hnotLock, hnotUnlock⟩ | heffect
        · refine ⟨holder, ?_, by simp only [Function.update_self, hin']⟩
          cases effect with
          | lock => exact absurd rfl hnotLock
          | unlock => exact absurd rfl hnotUnlock
          | fail error => exact absurd ⟨error, rfl⟩ hfail
          | _ => exact hlock
        · -- The guard finds the connection closed.
          have hview : (s.view holder).closed.isSome = true := hsome
          rw [if_pos hview] at heffect
          exact absurd heffect hretire
      · refine ⟨holder, ?_, by simp only [Function.update_of_ne hid, hin]⟩
        cases effect with
        | lock =>
          have hfree : s.lock.isNone = true := htake rfl
          rw [hlock] at hfree
          cases hfree
        | unlock =>
          have hself := (hline.holder id).mp (hunlock rfl)
          rw [hlock] at hself
          exact absurd (Option.some.inj hself) hid
        | fail error => exact absurd ⟨error, rfl⟩ hfail
        | _ => exact hlock

/-- A `close` that has not yet tried the lock is still to drop the writer. -/
theorem of_closer (closing : Closing) (hmem : closing ∈ s.closers) (hne : closing ≠ .done) :
    Answerable s :=
  fun _ _ _ => .inr (.inl ⟨closing, hmem, hne⟩)

variable [ReplyReceiver R]

/-- A reader that reads has not exited. -/
theorem ne_exited_of_read {result : ReadResult IoError} {phase phase' : ReaderPhase R}
    (h : ReadMoves result phase phase') : phase' ≠ .exited := by
  cases h with
  | xid =>
    unfold xidPhase
    split
    · nofun
    · nofun
    · split_ifs <;> nofun
  | receiving => nofun
  | draining =>
    unfold drainPhase
    split <;> nofun

/-- A step of the reader. -/
theorem reader (hinv : Answerable s) (hunpolled : UnpolledInv s)
    (h : ReaderMoves cfg s action s') (htidy : Tidy s action) : Answerable s' := by
  -- A reader with an exit guard is still to drop the writer.
  have hstays : s'.polled = true → s'.reader ≠ .exited → Answerable s' :=
    fun hpolled hne _ _ _ => .inl ⟨hpolled, hne⟩
  have hpolled : (∀ cursor got, s.reader ≠ .xid cursor got) → s.reader ≠ .exited →
      s.polled = true := by
    intro hxid hexited
    by_contra hno
    rcases hunpolled (by simpa using hno) with ⟨cursor, got, hreader⟩ | hreader
    · exact hxid cursor got hreader
    · exact hexited hreader
  cases h with
  | read h => exact hstays rfl (ne_exited_of_read h)
  | xidFails hreader hfails hdone => exact hstays hdone nofun
  | @cleanup token xid result hreader =>
    refine hstays ?_ ?_
    · rw [cleanup_eq]
      exact hpolled (by rw [hreader]; nofun) (by rw [hreader]; nofun)
    · rcases result with error | ⟨⟨⟩⟩
      · nofun
      · simp only [afterCleanup, ReaderPhase.nextRecord_eq]
        nofun
  | exitTake hreader =>
    intro _ _ hwriter
    obtain ⟨htrue, hsome⟩ := Bool.and_eq_true_iff.mp hwriter
    by_cases hdone : ∀ closing ∈ s.closers, closing = .done
    · rcases htidy htrue (.inr ⟨rfl, hreader, hdone⟩) with hnone | hguarded
      · rw [hnone] at hsome
        cases hsome
      · exact .inr (.inr hguarded)
    · push Not at hdone
      exact .inr (.inl hdone)
  | orphanExits hreader hreleased =>
    intro hfalse
    rw [hreleased] at hfalse
    cases hfalse
  | discard habort hreader hno =>
    intro hreleased hclosed hwriter
    rcases hinv hreleased hclosed hwriter with ⟨hyes, -⟩ | hothers
    · rw [hno] at hyes
      cases hyes
    · exact .inr hothers
  | abort habort hphase =>
    refine hstays ?_ nofun
    cases hreader : s.reader with
    | xid cursor got =>
      rw [hreader] at hphase
      exact hphase
    | draining | retiring => exact hpolled (by rw [hreader]; nofun) (by rw [hreader]; nofun)
    | _ =>
      rw [hreader] at hphase
      exact hphase.elim
  | unwind hreader =>
    refine hstays ?_ nofun
    rw [dropSender_eq]
    exact hpolled (by rw [hreader]; nofun) (by rw [hreader]; nofun)
  | orphan hreader | take hreader | taken hreader | unregistered hreader | answer hreader
  | stopped hreader | drained hreader | orphanFails hreader | fail hreader | retire hreader
  | exit hreader =>
    refine hstays ?_ nofun
    simp only [fail_polled]
    exact hpolled (by rw [hreader]; nofun) (by rw [hreader]; nofun)

/-- Every step keeps the writer of a closed connection answerable, if it is tidy. -/
theorem step (hinv : Answerable s) (hreg : RegistryInv s) (hline : LineInv s)
    (hunpolled : UnpolledInv s) (h : Moves cfg s action s') (htidy : Tidy s action) :
    Answerable s' := by
  have hcarry : s'.released = s.released → s'.closed = s.closed → s'.writer = s.writer →
      (s.ReaderGuarded → s'.ReaderGuarded) → s'.closers = s.closers → s'.lock = s.lock →
      (∀ id, (s.calls id).phase.inFrame = true → (s'.calls id).phase.inFrame = true) →
      Answerable s' := by
    intro hreleased hclosed hwriter hreader hclosers hlock hphase hopen hsome htrue
    rw [hreleased] at hopen
    rw [hclosed] at hsome
    rw [hwriter] at htrue
    rw [hclosers]
    exact (hinv hopen hsome htrue).imp hreader fun h => h.imp_right fun h => h.keep hlock hphase
  cases h with
  | admitCall =>
    refine hcarry rfl rfl rfl id rfl rfl fun id hin => ?_
    have hne : id ≠ s.created := by
      rintro rfl
      rw [hreg.fresh _ le_rfl] at hin
      cases hin
    simp only [Function.update_of_ne hne, hin]
  | call hbusy h => exact hinv.call hline h
  | poll => exact hcarry rfl rfl rfl (fun h => ⟨rfl, h.2⟩) rfl rfl fun id hin => hin
  | reader hbusy h => exact hinv.reader hunpolled h htidy
  | @failNext job xid entry hjob hentry =>
    refine hcarry rfl rfl rfl id rfl rfl fun id hin => ?_
    have hphase := update_eq (s := s) Call.phase
      (failCall_eq unanswering_phase (s.calls entry.token) job.error entry.sender) id
    simp only [hphase, hin]
  | failDone => exact hcarry rfl rfl rfl id rfl rfl fun id hin => hin
  | close =>
    exact of_closer .abort (List.mem_append_right _ (List.mem_singleton.mpr rfl)) nofun
  | @closeAbort id hcloser =>
    obtain ⟨hlt, -⟩ := List.getElem?_eq_some_iff.mp hcloser
    exact of_closer .take (List.mem_set hlt _) nofun
  | @closeTake id hcloser =>
    intro _ _ hwriter
    obtain ⟨htrue, hsome⟩ := Bool.and_eq_true_iff.mp hwriter
    by_cases hreader : s.ReaderGuarded
    · exact .inl hreader
    by_cases hdone : ∀ i closing, i ≠ id → s.closers[i]? = some closing → closing = .done
    · rcases htidy htrue (.inl ⟨id, rfl, hcloser, hreader, hdone⟩) with hnone | hguarded
      · rw [hnone] at hsome
        cases hsome
      · exact .inr (.inr hguarded)
    · push Not at hdone
      obtain ⟨i, closing, hne, hi, hnot⟩ := hdone
      have hset : (s.closers.set id .done)[i]? = some closing := by
        rw [List.getElem?_set_ne hne.symm]
        exact hi
      exact .inr (.inl ⟨closing, List.mem_of_getElem? hset, hnot⟩)
  | release =>
    intro hfalse
    cases hfalse

/-- Every run of tidy steps keeps the writer of a closed connection answerable. -/
theorem of_runs (h : Runs (Conn.step cfg) Tidy (initial cfg) s) : Answerable s := by
  refine (h.invariant (fun t => RegistryInv t ∧ LineInv t ∧ UnpolledInv t ∧ Answerable t)
    ⟨RegistryInv.initial cfg, LineInv.initial cfg, UnpolledInv.initial cfg, fun _ hclosed => ?_⟩
    ?_).2.2.2
  · cases hclosed
  · rintro t a u ⟨hreg, hline, hunpolled, hinv⟩ htidy hstep
    have hmove := moves_of_step hstep
    exact ⟨hreg.step hmove, hline.step hreg hmove, hunpolled.step hmove,
      hinv.step hreg hline hunpolled hmove htidy⟩

end Answerable

/-! ## The writer of a closed connection -/

/-- The connection is closed and still owned, the reader task has exited, no `close` is in progress,
and nobody holds the writer lock. -/
def Settled (s : Conn R) : Prop :=
  s.closed.isSome = true ∧ s.released = false ∧ s.reader = .exited ∧
    (∀ closing ∈ s.closers, closing = .done) ∧ s.lock = none

/-- On runs in which every last try to drop the writer finds the lock free or held by a call whose
frame guard is still to look, a closed connection that has come to rest has no writer. -/
theorem writer_released [ReplyReceiver R] (cfg : Config) (s : Conn R)
    (h : Runs (step cfg) Tidy (initial cfg) s) (hsettled : s.Settled) : s.writer = false := by
  obtain ⟨hclosed, hreleased, hreader, hclosers, hlock⟩ := hsettled
  by_contra hwriter
  rcases Answerable.of_runs h hreleased hclosed (by simpa using hwriter) with
    ⟨-, hne⟩ | ⟨closing, hmem, hne⟩ | ⟨id, hid, -⟩
  · exact hne hreader
  · exact hne (hclosers closing hmem)
  · rw [hlock] at hid
    cases hid

/-- What decides whether a connection has come to rest, and its writer. -/
def restView (s : Conn R) : (Bool × Bool × Bool) × List Closing × Option ℕ × Bool :=
  ((s.closed.isSome, s.released, match s.reader with | .exited => true | _ => false),
    s.closers, s.lock, s.writer)

theorem settled_of_restView {s : Conn R} {closers : List Closing} {writer : Bool}
    (h : s.restView = ((true, false, true), closers, none, writer))
    (hdone : ∀ closing ∈ closers, closing = .done) : s.Settled ∧ s.writer = writer := by
  simp only [restView, Prod.mk.injEq] at h
  obtain ⟨⟨hclosed, hreleased, hreader⟩, hclosers, hlock, hwriter⟩ := h
  refine ⟨⟨hclosed, hreleased, ?_, hclosers ▸ hdone, hlock⟩, hwriter⟩
  cases hphase : s.reader with
  | exited => rfl
  | _ =>
    rw [hphase] at hreader
    cases hreader

/-- A connection without calls is closed, and its reader is aborted. -/
theorem writer_released_idle : ∃ s : Conn Buffers,
    Runs (step .plain) Tidy (initial .plain) s ∧ s.Settled ∧ s.writer = false := by
  obtain ⟨s, htrace, hseen⟩ := @Trace.exists_of_runList _ _ (step .plain) Tidy
    (initial .plain : Conn Buffers) (fun t _ => t.lock.isNone)
    [.poll, .close, .failDone, .closer 0, .closer 0, .aborted, .turn, .turn]
    _ restView ((true, false, true), [.done], none, false)
    (fun t _ hfree _ _ => .inl (Option.isNone_iff_eq_none.mp hfree)) (by decide +kernel)
  obtain ⟨hsettled, -⟩ := settled_of_restView hseen (by decide)
  exact ⟨s, htrace.runs, hsettled, writer_released .plain s htrace.runs hsettled⟩

/-- A call has just got the lock when `close` and then the exit of the reader try it.  It finds the
connection closed and releases the lock, and the writer stays. -/
theorem writer_not_released : ∃ s : Conn Buffers,
    Reachable .plain s ∧ s.Settled ∧ s.writer = true := by
  obtain ⟨s, hs, hseen⟩ := @exists_reachable Buffers _ .plain
    [.poll, .admitCall (.classic (.nullCall 7)) ⟨false, .none⟩, .call 0 .step, .call 0 .lock,
      .close, .failNext 7, .failDone, .closer 0, .closer 0, .aborted, .turn, .turn, .call 0 .step]
    _ restView ((true, false, true), [.done], none, true) (by decide +kernel)
  obtain ⟨hsettled, hwriter⟩ := settled_of_restView hseen (by decide)
  exact ⟨s, hs, hsettled, hwriter⟩

end Conn

end OncRpc
