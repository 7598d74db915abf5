import OncRpc.Owned.Registry

/-!
# The frames on the wire

The bytes the stream accepts are the frames of distinct calls, one after the other, and then at most
a part of one more frame.  The part is being written by the call that holds the writer lock, or it
was abandoned; then the connection is closed before the lock is released, and no byte follows.

`LineInv` is the invariant behind this: who holds the lock, and which part of its frame a call has
written at each point of its send (`Progress`).  `Stuck` says that nothing can be written any more.
-/

namespace OncRpc

open Foundation

variable {R : Type}

/-! ## The lock and the frame of a call -/

/-- The call holds the writer lock. -/
def Phase.holdsLock : Phase R → Bool
  | .locked | .writing .. | .wrote .. | .guard .. | .retire _ | .unlock _ => true
  | _ => false

/-- The call is done with the writer. -/
def Phase.isPast : Phase R → Bool
  | .waiting | .awaiting | .returning _ | .finished _ | .dropping | .dropped | .panicked => true
  | _ => false

/-- The call is writing its frame. -/
def Phase.isWriting : Phase R → Bool
  | .writing .. => true
  | _ => false

/-- The frame guard of the call has not been dropped. -/
def Phase.ownsFrame : Phase R → Bool
  | .writing .. | .wrote .. | .guard .. => true
  | _ => false

/-- The effect leaves the lock and the accepted bytes alone. -/
def Effect.isQuiet : Effect → Bool
  | .lock | .unlock | .accept _ => false
  | _ => true

/-- `pre` begins the frame of the segments, which exists unless `pre` is empty. -/
def FramePart (segments : List Bytes) (pre : Bytes) : Prop :=
  pre <+: frame segments ∧ (pre ≠ [] → FrameFits segments)

/-- A call in the phase has written `pre` of its frame. -/
def Progress (closed : Bool) (segments : List Bytes) (pre : Bytes) : Phase R → Prop
  | .locked => pre = []
  | .writing (.error _) written _ => pre = [] ∧ written = 0
  | .writing (.ok w) written _ =>
    w.Settled ∧ FrameFits segments ∧ frame segments = pre ++ w.remaining ∧ written = pre.length
  | .wrote result written =>
    FramePart segments pre ∧ written = pre.length ∧ (result = .ok () → pre = frame segments)
  | .guard complete written _ =>
    FramePart segments pre ∧ written = pre.length ∧ (complete = true → pre = frame segments)
  | .retire _ | .unlock _ =>
    FramePart segments pre ∧ (pre = [] ∨ pre = frame segments ∨ closed = true)
  | _ => False

/-- Nothing is a part of every frame. -/
theorem FramePart.nil (segments : List Bytes) : FramePart segments [] :=
  ⟨List.nil_prefix, fun h => absurd rfl h⟩

/-- What a call that still writes has written is a part of its frame. -/
theorem Progress.part {closed : Bool} {segments : List Bytes} {pre : Bytes} {phase : Phase R}
    (h : Progress closed segments pre phase) : FramePart segments pre := by
  cases phase with
  | locked => exact h ▸ FramePart.nil segments
  | writing frame written stopped =>
    cases frame with
    | error e => exact h.1 ▸ FramePart.nil segments
    | ok w => exact ⟨⟨w.remaining, h.2.2.1.symm⟩, fun _ => h.2.1⟩
  | wrote | guard | retire | unlock => exact h.1
  | _ => exact h.elim

/-- A call that writes counts what it has written. -/
theorem Progress.written {closed : Bool} {segments : List Bytes} {pre : Bytes}
    {frame : Except RuntimeError FrameWriter} {written : ℕ} {stopped : Bool}
    (h : Progress closed segments pre (.writing frame written stopped : Phase R)) :
    written = pre.length := by
  cases frame with
  | error e => rw [h.1, h.2, List.length_nil]
  | ok w => exact h.2.2.2

/-- Closing the connection keeps the progress of a call. -/
theorem Progress.close {closed closed' : Bool} {segments : List Bytes} {pre : Bytes}
    {phase : Phase R} (h : Progress closed segments pre phase)
    (hmono : closed = true → closed' = true) : Progress closed' segments pre phase := by
  cases phase with
  | retire | unlock => exact ⟨h.1, h.2.imp_right (Or.imp_right hmono)⟩
  | writing frame => cases frame <;> exact h
  | _ => exact h

namespace Conn

/-- The bytes the stream accepted. -/
def accepted (s : Conn R) : Bytes := (s.writes.map Prod.snd).flatten

/-- The part of a frame after the complete ones: nothing, what the holder of the lock has written,
or what a call left behind when the connection was closed. -/
inductive Tail (s : Conn R) (done : List ℕ) (tail : Bytes) : Prop
  | free (hlock : s.lock = none) (htail : tail = [])
  | held (id : ℕ) (hlock : s.lock = some id)
    (hprogress : Progress s.closed.isSome (s.calls id).segments tail (s.calls id).phase)
  | abandoned (id : ℕ) (hid : id ∉ done) (hpast : (s.calls id).phase.isPast = true)
    (hpart : FramePart (s.calls id).segments tail) (hproper : tail ≠ frame (s.calls id).segments)
    (hne : tail ≠ []) (hclosed : s.closed.isSome = true)
    (hlock : ∀ holder, s.lock = some holder → (s.calls holder).phase = .locked)

/-- The accepted bytes are the frames of the calls `done`, then `tail`. -/
structure Frames (s : Conn R) (done : List ℕ) (tail : Bytes) : Prop where
  nodup : done.Nodup
  past : ∀ id ∈ done, (s.calls id).phase.isPast = true
  fits : ∀ id ∈ done, FrameFits (s.calls id).segments
  bytes : s.accepted = (done.map fun id => frame (s.calls id).segments).flatten ++ tail

/-- The writer of a connection. -/
structure LineInv (s : Conn R) : Prop where
  holder : ∀ id, (s.calls id).phase.holdsLock = true ↔ s.lock = some id
  wire : ∃ done tail, s.Frames done tail ∧ s.Tail done tail

/-! ## Steps beside the writer -/

/-- The step leaves the writer alone: no call comes or goes in its send. -/
structure Quiet (s s' : Conn R) : Prop where
  lock : s'.lock = s.lock
  writes : s'.writes = s.writes
  closed : s.closed.isSome = true → s'.closed.isSome = true
  holds : ∀ id, (s'.calls id).phase.holdsLock = (s.calls id).phase.holdsLock
  held : ∀ id, (s.calls id).phase.holdsLock = true → (s'.calls id).phase = (s.calls id).phase
  past : ∀ id, (s.calls id).phase.isPast = true → (s'.calls id).phase.isPast = true
  segments : ∀ id, (s.calls id).phase ≠ .absent → (s'.calls id).segments = (s.calls id).segments

variable {s s' : Conn R}

/-- A call past writing is not absent. -/
theorem ne_absent_of_isPast {phase : Phase R} (h : phase.isPast = true) : phase ≠ .absent := by
  rintro rfl
  cases h

/-- A call that holds the lock is not absent. -/
theorem ne_absent_of_holdsLock {phase : Phase R} (h : phase.holdsLock = true) :
    phase ≠ .absent := by
  rintro rfl
  cases h

/-- The frames stay while their calls do. -/
theorem Frames.keep {done : List ℕ} {tail chunk : Bytes} (h : s.Frames done tail)
    (hpast : ∀ id ∈ done, (s'.calls id).phase.isPast = true)
    (hsegments : ∀ id ∈ done, (s'.calls id).segments = (s.calls id).segments)
    (hbytes : s'.accepted = s.accepted ++ chunk) : s'.Frames done (tail ++ chunk) := by
  refine ⟨h.nodup, hpast, fun id hid => ?_, ?_⟩
  · rw [hsegments id hid]
    exact h.fits id hid
  · have hframes : done.map (fun id => frame (s'.calls id).segments) =
        done.map fun id => frame (s.calls id).segments := by
      refine List.map_congr_left fun id hid => ?_
      rw [hsegments id hid]
    rw [hbytes, h.bytes, hframes, List.append_assoc]

/-- The frames stay while other calls and no bytes come. -/
theorem Frames.same {done : List ℕ} {tail : Bytes} (h : s.Frames done tail)
    (hcalls : ∀ id ∈ done, s'.calls id = s.calls id) (hbytes : s'.accepted = s.accepted) :
    s'.Frames done tail := by
  have hkeep : s'.Frames done (tail ++ []) := by
    refine h.keep (fun id hid => ?_) (fun id hid => ?_) (hbytes.trans (List.append_nil _).symm)
    · rw [hcalls id hid]
      exact h.past id hid
    · rw [hcalls id hid]
  rwa [List.append_nil] at hkeep

/-- One more frame is complete. -/
theorem Frames.complete {done : List ℕ} {id : ℕ} (h : s.Frames done (frame (s.calls id).segments))
    (hdone : id ∉ done) (hpast : (s.calls id).phase.isPast = true)
    (hfits : FrameFits (s.calls id).segments) : s.Frames (done ++ [id]) [] := by
  refine ⟨?_, fun id' hid => ?_, fun id' hid => ?_, ?_⟩
  · refine List.nodup_append.mpr ⟨h.nodup, List.nodup_singleton id, ?_⟩
    intro a ha b hb heq
    rw [List.mem_singleton.mp hb] at heq
    exact hdone (heq ▸ ha)
  · rcases List.mem_append.mp hid with hid | hid
    · exact h.past id' hid
    · rw [List.mem_singleton.mp hid]
      exact hpast
  · rcases List.mem_append.mp hid with hid | hid
    · exact h.fits id' hid
    · rw [List.mem_singleton.mp hid]
      exact hfits
  · rw [h.bytes]
    simp

/-- A quiet step keeps the invariant of the line. -/
theorem LineInv.quiet (hinv : LineInv s) (h : Quiet s s') : LineInv s' := by
  refine ⟨fun id => ?_, ?_⟩
  · rw [h.holds, h.lock]
    exact hinv.holder id
  · obtain ⟨done, tail, hframes, htail⟩ := hinv.wire
    have hkeep := hframes.keep (fun id hid => h.past id (hframes.past id hid))
      (fun id hid => h.segments id (ne_absent_of_isPast (hframes.past id hid)))
      (by rw [accepted, h.writes]; exact (List.append_nil _).symm)
    rw [List.append_nil] at hkeep
    refine ⟨done, tail, hkeep, ?_⟩
    cases htail with
    | free hlock hnil => exact .free (h.lock.trans hlock) hnil
    | held id hlock hprogress =>
      have hholds := (hinv.holder id).mpr hlock
      refine .held id (h.lock.trans hlock) ?_
      rw [h.held id hholds, h.segments id (ne_absent_of_holdsLock hholds)]
      exact hprogress.close h.closed
    | abandoned id hid hpast hpart hproper hne hclosed hlock =>
      have hsegments := h.segments id (ne_absent_of_isPast hpast)
      refine .abandoned id hid (h.past id hpast) ?_ ?_ hne (h.closed hclosed) ?_
      · rw [hsegments]
        exact hpart
      · rw [hsegments]
        exact hproper
      · intro holder hholder
        rw [h.lock] at hholder
        rw [h.held holder ((hinv.holder holder).mpr hholder)]
        exact hlock holder hholder

/-! ## Steps of the holder of the lock -/

section Holder

variable {id : ℕ} {call : Call R}

/-- A part of a frame left behind stays behind, while its call does. -/
theorem Tail.keep_abandoned {done : List ℕ} {tail : Bytes} {id' : ℕ}
    (hsame : s'.calls id' = s.calls id') (hid : id' ∉ done)
    (hpast : (s.calls id').phase.isPast = true) (hpart : FramePart (s.calls id').segments tail)
    (hproper : tail ≠ frame (s.calls id').segments) (hne : tail ≠ [])
    (hclosed : s'.closed.isSome = true)
    (hlock : ∀ holder, s'.lock = some holder → (s'.calls holder).phase = .locked) :
    s'.Tail done tail := by
  rw [← hsame] at hpast hpart hproper
  exact .abandoned id' hid hpast hpart hproper hne hclosed hlock

/-- Calls that are done with the writer are not the holder of the lock. -/
theorem ne_of_isPast {id' : ℕ} (hholds : (s.calls id).phase.holdsLock = true)
    (hpast : (s.calls id').phase.isPast = true) : id' ≠ id := by
  rintro rfl
  cases hphase : (s.calls id').phase <;> rw [hphase] at hholds hpast <;>
    cases hholds <;> cases hpast

variable (hinv : LineInv s) (hcalls : s'.calls = Function.update s.calls id call)
  (hsegments : call.segments = (s.calls id).segments)

include hcalls in
/-- The call that moves is in its new state. -/
theorem calls_self : s'.calls id = call := by
  rw [hcalls, Function.update_self]

include hcalls in
/-- The other calls stay. -/
theorem calls_of_ne {id' : ℕ} (h : id' ≠ id) : s'.calls id' = s.calls id' := by
  rw [hcalls, Function.update_of_ne h]

include hinv hcalls hsegments

/-- A call outside its send goes on outside it. -/
theorem LineInv.outside (hlock : s'.lock = s.lock) (hwrites : s'.writes = s.writes)
    (hclosed : s'.closed = s.closed) (hbefore : (s.calls id).phase.holdsLock = false)
    (hafter : call.phase.holdsLock = false)
    (hpast : (s.calls id).phase.isPast = true → call.phase.isPast = true) : LineInv s' := by
  have hself := calls_self hcalls
  refine hinv.quiet ⟨hlock, hwrites, fun h => by rw [hclosed]; exact h, fun id' => ?_,
    fun id' hid => ?_, fun id' hid => ?_, fun id' hid => ?_⟩
  all_goals
    by_cases heq : id' = id
    · subst heq
      simp_all
    · rw [calls_of_ne hcalls heq]
      try exact hid

/-- The holder of the lock goes on with its send and may write bytes of its frame. -/
theorem LineInv.inside (chunk : Bytes) (hlock : s'.lock = s.lock)
    (haccepted : s'.accepted = s.accepted ++ chunk)
    (hbefore : (s.calls id).phase.holdsLock = true) (hafter : call.phase.holdsLock = true)
    (hopen : (s.calls id).phase = .locked → s.closed = none)
    (hprogress : ∀ pre, Progress s.closed.isSome call.segments pre (s.calls id).phase →
      Progress s'.closed.isSome call.segments (pre ++ chunk) call.phase) : LineInv s' := by
  have hholder : s.lock = some id := (hinv.holder id).mp hbefore
  have hself := calls_self hcalls
  refine ⟨fun id' => ?_, ?_⟩
  · rw [hlock, ← hinv.holder id']
    by_cases heq : id' = id
    · rw [heq, hself, hafter, hbefore]
    · rw [calls_of_ne hcalls heq]
  · obtain ⟨done, tail, hframes, htail⟩ := hinv.wire
    have hsame : ∀ id' ∈ done, s'.calls id' = s.calls id' := fun id' hid =>
      calls_of_ne hcalls (ne_of_isPast hbefore (hframes.past id' hid))
    refine ⟨done, tail ++ chunk, hframes.keep (fun id' hid => ?_) (fun id' hid => ?_) haccepted, ?_⟩
    · rw [hsame id' hid]
      exact hframes.past id' hid
    · rw [hsame id' hid]
    · cases htail with
      | free hfree _ =>
        rw [hholder] at hfree
        cases hfree
      | held id' hid hold =>
        rw [hholder] at hid
        cases hid
        refine .held id (hlock.trans hholder) ?_
        rw [← hsegments] at hold
        rw [hself]
        exact hprogress tail hold
      | abandoned id' _ _ _ _ _ hsome hlocked =>
        rw [hopen (hlocked id hholder)] at hsome
        cases hsome

/-- The holder of the lock goes on with its send, without a byte. -/
theorem LineInv.still (hlock : s'.lock = s.lock) (hwrites : s'.writes = s.writes)
    (hbefore : (s.calls id).phase.holdsLock = true) (hafter : call.phase.holdsLock = true)
    (hopen : (s.calls id).phase = .locked → s.closed = none)
    (hprogress : ∀ pre, Progress s.closed.isSome call.segments pre (s.calls id).phase →
      Progress s'.closed.isSome call.segments pre call.phase) : LineInv s' := by
  refine hinv.inside hcalls hsegments [] hlock ?_ hbefore hafter hopen fun pre hpre => ?_
  · rw [accepted, hwrites]
    exact (List.append_nil _).symm
  · rw [List.append_nil]
    exact hprogress pre hpre

/-- A call takes the free lock. -/
theorem LineInv.lock (hfree : s.lock = none) (hlock : s'.lock = some id)
    (hwrites : s'.writes = s.writes) (hclosed : s'.closed = s.closed)
    (hbefore : (s.calls id).phase.isPast = false) (hafter : call.phase = .locked) :
    LineInv s' := by
  have hself := calls_self hcalls
  have hne : ∀ id', (s.calls id').phase.isPast = true → id' ≠ id := by
    rintro id' hpast rfl
    rw [hpast] at hbefore
    cases hbefore
  refine ⟨fun id' => ?_, ?_⟩
  · rw [hlock]
    by_cases heq : id' = id
    · rw [heq, hself, hafter]
      simp [Phase.holdsLock]
    · rw [calls_of_ne hcalls heq, hinv.holder id', hfree]
      simp [Ne.symm heq]
  · obtain ⟨done, tail, hframes, htail⟩ := hinv.wire
    have hsame : ∀ id' ∈ done, s'.calls id' = s.calls id' := fun id' hid =>
      calls_of_ne hcalls (hne id' (hframes.past id' hid))
    refine ⟨done, tail, hframes.same hsame (by rw [accepted, hwrites]; rfl), ?_⟩
    cases htail with
    | free _ hnil =>
      refine .held id hlock ?_
      rw [hself, hafter]
      exact hnil
    | held id' hid _ =>
      rw [hfree] at hid
      cases hid
    | abandoned id' hid hpast hpart hproper hproper' hsome _ =>
      refine .keep_abandoned (calls_of_ne hcalls (hne id' hpast)) hid hpast hpart hproper hproper'
        (by rw [hclosed]; exact hsome) fun holder hholder => ?_
      rw [hlock] at hholder
      cases hholder
      rw [hself, hafter]

/-- The holder releases the lock: its frame is complete, or untouched, or the connection is
closed. -/
theorem LineInv.unlock (hlock : s'.lock = none) (hwrites : s'.writes = s.writes)
    (hclosed : s'.closed = s.closed) (hbefore : (s.calls id).phase.holdsLock = true)
    (hafter : call.phase.isPast = true)
    (hprogress : ∀ pre, Progress s.closed.isSome call.segments pre (s.calls id).phase →
      pre = [] ∨ pre = frame call.segments ∨ s.closed.isSome = true) : LineInv s' := by
  have hholder : s.lock = some id := (hinv.holder id).mp hbefore
  have hself := calls_self hcalls
  have hnot : call.phase.holdsLock = false := by
    cases hphase : call.phase <;> rw [hphase] at hafter <;> first | rfl | cases hafter
  have hnobody : ∀ holder, s'.lock = some holder → (s'.calls holder).phase = .locked := by
    intro holder hsome
    rw [hlock] at hsome
    cases hsome
  refine ⟨fun id' => ?_, ?_⟩
  · rw [hlock]
    by_cases heq : id' = id
    · rw [heq, hself, hnot]
      simp
    · rw [calls_of_ne hcalls heq, hinv.holder id', hholder]
      simp [Ne.symm heq]
  · obtain ⟨done, tail, hframes, htail⟩ := hinv.wire
    have hdone : id ∉ done := fun hid => ne_of_isPast hbefore (hframes.past id hid) rfl
    have hframes' : s'.Frames done tail :=
      hframes.same (fun id' hid => calls_of_ne hcalls (ne_of_isPast hbefore (hframes.past id' hid)))
        (by rw [accepted, hwrites]; rfl)
    cases htail with
    | free hfree _ =>
      rw [hholder] at hfree
      cases hfree
    | held id' hid hold =>
      rw [hholder] at hid
      cases hid
      rw [← hsegments] at hold
      have hpart := hold.part
      rw [← hself] at hafter hpart
      by_cases hnil : tail = []
      · exact ⟨done, tail, hframes', .free hlock hnil⟩
      by_cases hfull : tail = frame (s'.calls id).segments
      · -- The frame is complete: it joins the others.
        rw [hfull] at hframes'
        exact ⟨done ++ [id], [], hframes'.complete hdone hafter (hpart.2 hnil), .free hlock rfl⟩
      · refine ⟨done, tail, hframes', .abandoned id hdone hafter hpart hfull hnil ?_ hnobody⟩
        rw [hself] at hfull
        rw [hclosed]
        exact ((hprogress tail hold).resolve_left hnil).resolve_left hfull
    | abandoned id' hid hpast hpart hproper hne hsome _ =>
      exact ⟨done, tail, hframes', .keep_abandoned
        (calls_of_ne hcalls (ne_of_isPast hbefore hpast)) hid hpast hpart hproper hne
        (by rw [hclosed]; exact hsome) hnobody⟩

end Holder

/-! ## Every step -/

/-- A step that changes no phase and does not touch the writer. -/
theorem Quiet.of_phases (hlock : s'.lock = s.lock) (hwrites : s'.writes = s.writes)
    (hclosed : s.closed.isSome = true → s'.closed.isSome = true)
    (hphase : ∀ id, (s'.calls id).phase = (s.calls id).phase)
    (hsegments : ∀ id, (s'.calls id).segments = (s.calls id).segments) : Quiet s s' := by
  refine ⟨hlock, hwrites, hclosed, fun id => ?_, fun id _ => hphase id, fun id hid => ?_,
    fun id _ => hsegments id⟩
  · rw [hphase id]
  · rw [hphase id]
    exact hid

variable [ReplyReceiver R] {cfg : Config} {action : Action R}

/-- The reader changes no phase and does not write. -/
theorem ReaderMoves.quiet (h : ReaderMoves cfg s action s') : Quiet s s' := by
  have hmono : s.closed.isSome = true → s'.closed.isSome = true := by
    intro hsome
    obtain ⟨error, herror⟩ := Option.isSome_iff_exists.mp hsome
    rw [h.registryStep.closed_stays herror]
    rfl
  have hsegments : ∀ id, (s'.calls id).segments = (s.calls id).segments := fun id =>
    (h.later id).segments
  have hphase := h.phase_eq
  cases h with
  | unwind =>
    rw [dropSender_eq] at hmono hsegments hphase ⊢
    exact .of_phases rfl rfl hmono hphase hsegments
  | cleanup =>
    rw [cleanup_eq] at hmono hsegments hphase ⊢
    exact .of_phases rfl rfl hmono hphase hsegments
  | fail | exit => exact .of_phases (fail_lock _ _ _) (fail_writes _ _ _) hmono hphase hsegments
  | _ => exact .of_phases rfl rfl hmono hphase hsegments

omit [ReplyReceiver R] in
/-- A quiet effect leaves the lock and what was written. -/
theorem apply_quiet (id : ℕ) {effect : Effect} (h : effect.isQuiet = true) :
    (s.apply id effect).lock = s.lock ∧ (s.apply id effect).writes = s.writes := by
  cases effect with
  | fail error => exact ⟨fail_lock _ _ _, fail_writes _ _ _⟩
  | lock | unlock | accept => cases h
  | _ => exact ⟨rfl, rfl⟩

omit [ReplyReceiver R] in
/-- A step of a call that is not being stopped. -/
theorem LineInv.advance (hinv : LineInv s) {id : ℕ} {act : CallAction} {call : Call R}
    {effect : Effect} (h : Call.Advances cfg (s.view id) (s.calls id) act call effect) :
    LineInv { s.apply id effect with calls := Function.update s.calls id call } := by
  have hsegments : call.segments = (s.calls id).segments := by rw [h.eq_goto]
  cases h with
  | register hphase | refuse hphase | discard hphase =>
    refine hinv.outside rfl hsegments rfl rfl rfl ?_ rfl ?_ <;> rw [hphase]
    · rfl
    · intros; contradiction
  | giveUp hphase | stopWait hphase | finish hphase | dropped hphase =>
    refine hinv.outside rfl hsegments rfl rfl rfl ?_ rfl fun _ => rfl
    rw [hphase]
    rfl
  | dropWait hphase =>
    refine hinv.outside rfl hsegments rfl rfl rfl ?_ rfl fun _ => rfl
    rcases hphase with hphase | hphase | hphase <;> rw [hphase] <;> rfl
  | receive hphase | lost hphase | panic hphase =>
    refine hinv.outside rfl hsegments rfl rfl rfl ?_ rfl fun _ => rfl
    rcases hphase with hphase | hphase <;> rw [hphase] <;> rfl
  | lock hphase hfree =>
    refine hinv.lock rfl hsegments (by simpa [view] using hfree) rfl rfl rfl ?_ rfl
    rw [hphase]
    rfl
  | checkFails hphase =>
    refine hinv.unlock rfl hsegments rfl rfl rfl (by rw [hphase]; rfl) rfl fun pre hpre => ?_
    rw [hphase] at hpre
    exact .inl hpre
  | check hphase hclosed =>
    refine hinv.still rfl hsegments rfl rfl (by rw [hphase]; rfl) rfl (fun _ => hclosed)
      fun pre hpre => ?_
    rw [hphase] at hpre
    rw [show pre = [] from hpre]
    simp only [Call.goto]
    rcases FrameWriter.new_cases (s.calls id).segments with ⟨hfits, w, hw, hsettled, hrem⟩ | ⟨-, hw⟩
    · rw [hw]
      exact ⟨hsettled, hfits, hrem.symm, rfl⟩
    · rw [hw]
      exact ⟨rfl, rfl⟩
  | @accept frame frame' written count stopped slices hphase hpoll hpos hcount hresume =>
    refine hinv.inside rfl hsegments (slices.flatten.take count) rfl ?_
      (by rw [hphase]; rfl) rfl (by rw [hphase]; intros; contradiction) fun pre hpre => ?_
    · simp [accepted, apply]
    · rw [hphase] at hpre
      obtain ⟨hsettled, hfits, hframe, hwritten⟩ := hpre
      obtain ⟨rfl, -⟩ := FrameWriter.slices_of_poll hpoll
      obtain ⟨w', hw', hsettled', hsplit⟩ := FrameWriter.resume_ok hpos hcount
      rw [hw'] at hresume
      cases hresume
      refine ⟨hsettled', hfits, ?_, ?_⟩
      · rw [hframe, hsplit, List.append_assoc]
      · rw [hwritten, List.length_append, List.length_take, Nat.min_eq_left hcount]
  | acceptNone hphase hpoll =>
    refine hinv.inside rfl hsegments [] rfl ?_ (by rw [hphase]; rfl) rfl
      (by rw [hphase]; intros; contradiction) fun pre hpre => ?_
    · simp [accepted, apply]
    · rw [hphase] at hpre
      rw [List.append_nil]
      exact ⟨hpre.part, hpre.written, by intros; contradiction⟩
  | retry hphase =>
    refine hinv.still rfl hsegments rfl rfl (by rw [hphase]; rfl) rfl
      (by rw [hphase]; intros; contradiction)
      fun pre hpre => ?_
    rw [hphase] at hpre
    exact hpre
  | writeFails hphase | stopUnwritten hphase | dropWrite hphase =>
    refine hinv.still rfl hsegments rfl rfl (by rw [hphase]; rfl) rfl
      (by rw [hphase]; intros; contradiction)
      fun pre hpre => ?_
    rw [hphase] at hpre
    exact ⟨hpre.part, hpre.written, by intros; contradiction⟩
  | flush hphase hpoll =>
    refine hinv.still rfl hsegments rfl rfl (by rw [hphase]; rfl) rfl
      (by rw [hphase]; intros; contradiction)
      fun pre hpre => ?_
    rw [hphase] at hpre
    refine ⟨hpre.part, hpre.written, fun _ => ?_⟩
    rcases FrameWriter.poll_of_settled hpre.1 with ⟨-, hnil⟩ | ⟨hawait, -⟩
    · rw [hpre.2.2.1, hnil, List.append_nil]
    · rw [hpoll] at hawait
      cases hawait
  | @stopWritten frame written interrupt error hphase hwritten herror =>
    refine hinv.still rfl hsegments rfl rfl (by rw [hphase]; rfl) rfl
      (by rw [hphase]; intros; contradiction)
      fun pre hpre => ?_
    rw [hphase] at hpre
    cases frame <;> exact hpre
  | @settle result written hphase =>
    rcases result with error | ⟨⟨⟩⟩
    · have hquiet : ((s.calls id).settle (.error error) written).2.isQuiet = true := by
        simp only [Call.settle]
        split_ifs <;> rfl
      obtain ⟨hlock, hwrites⟩ := apply_quiet (s := s) id hquiet
      refine hinv.still rfl hsegments hlock hwrites (by rw [hphase]; rfl) rfl
        (by rw [hphase]; intros; contradiction) fun pre hpre => ?_
      rw [hphase] at hpre
      exact ⟨hpre.1, hpre.2.1, by intros; contradiction⟩
    · refine hinv.still rfl hsegments rfl rfl (by rw [hphase]; rfl) rfl
        (by rw [hphase]; intros; contradiction)
        fun pre hpre => ?_
      rw [hphase] at hpre
      exact ⟨hpre.1, hpre.2.1, fun _ => hpre.2.2 rfl⟩
  | @guard complete written next hphase =>
    have hquiet : (if complete = false ∧ written ≠ 0 then Effect.fail interruptedFrameError
        else .none).isQuiet = true := by
      split_ifs <;> rfl
    obtain ⟨hlock, hwrites⟩ := apply_quiet (s := s) id hquiet
    refine hinv.still rfl hsegments hlock hwrites (by rw [hphase]; rfl) rfl
      (by rw [hphase]; intros; contradiction) fun pre hpre => ?_
    rw [hphase] at hpre
    obtain ⟨hpart, hwritten, hcomplete⟩ := hpre
    refine ⟨hpart, ?_⟩
    cases complete with
    | true => exact .inr (.inl (hcomplete rfl))
    | false =>
      by_cases hzero : written = 0
      · exact .inl (List.length_eq_zero_iff.mp (hwritten.symm.trans hzero))
      · refine .inr (.inr ?_)
        simp only [hzero, ne_eq, not_false_eq_true, and_self, if_true, apply]
        exact fail_closed_isSome _ _ _
  | @retire next hphase =>
    have hsame : ∀ closed, (s.apply id (if closed = true then .retire else .none)).closed =
        s.closed ∧
        (s.apply id (if closed = true then .retire else .none)).lock = s.lock ∧
        (s.apply id (if closed = true then .retire else .none)).writes = s.writes := by
      intro closed
      split_ifs <;> exact ⟨rfl, rfl, rfl⟩
    refine hinv.still rfl hsegments (hsame _).2.1 (hsame _).2.2 (by rw [hphase]; rfl) rfl
      (by rw [hphase]; intros; contradiction) fun pre hpre => ?_
    rw [hphase] at hpre
    rw [(hsame _).1]
    exact hpre
  | @unlock next hphase =>
    refine hinv.unlock rfl hsegments rfl rfl rfl (by rw [hphase]; rfl) ?_ fun pre hpre => ?_
    · rcases next with ⟨_ | _⟩ | _ <;> rfl
    · rw [hphase] at hpre
      exact hpre.2

omit [ReplyReceiver R] in
/-- Stopping a call leaves the writer alone; every other step of a call is an advance. -/
theorem quiet_or_advances {id : ℕ} {act : CallAction} {call : Call R} {effect : Effect}
    (h : Call.Moves cfg (s.view id) id (s.calls id) act call effect) :
    Quiet s { s.apply id effect with calls := Function.update s.calls id call } ∨
      Call.Advances cfg (s.view id) (s.calls id) act call effect := by
  have hquiet : ∀ {effect : Effect} {call : Call R}, (effect = .none ∨ effect = .remove) →
      call.phase = (s.calls id).phase → call.segments = (s.calls id).segments →
      Quiet s { s.apply id effect with calls := Function.update s.calls id call } := by
    rintro effect call (rfl | rfl) hphase hsegments
    · exact .of_phases rfl rfl (fun h => h) (update_eq Call.phase hphase)
        (update_eq Call.segments hsegments)
    · exact .of_phases rfl rfl (fun h => h) (update_eq Call.phase hphase)
        (update_eq Call.segments hsegments)
  cases h with
  | mark => exact .inl (hquiet (.inl rfl) rfl rfl)
  | answer => exact .inl (hquiet (.inr rfl) rfl rfl)
  | remove => exact .inl (hquiet (.inr rfl) rfl rfl)
  | unlisted => exact .inl (hquiet (.inl rfl) rfl rfl)
  | advance _ h => exact .inr h

/-- A step of a connection leaves the writer alone, or is the advance of a call. -/
theorem Moves.quiet_or (hreg : RegistryInv s) (h : Moves cfg s action s') :
    Quiet s s' ∨ ∃ id act call effect,
      Call.Advances cfg (s.view id) (s.calls id) act call effect ∧
        s' = { s.apply id effect with calls := Function.update s.calls id call } := by
  cases h with
  | admitCall hreleased hprepare =>
    have habsent := hreg.fresh s.created le_rfl
    refine .inl ⟨rfl, rfl, fun h => h, fun id => ?_, fun id hid => ?_, fun id hid => ?_,
      fun id hid => ?_⟩ <;>
      by_cases heq : id = s.created
    · simp only [heq, Function.update_self, habsent]
      rfl
    · simp only [Function.update_of_ne heq]
    · rw [heq, habsent] at hid
      cases hid
    · simp only [Function.update_of_ne heq]
    · rw [heq, habsent] at hid
      cases hid
    · simp only [Function.update_of_ne heq]
      exact hid
    · rw [heq, habsent] at hid
      exact absurd rfl hid
    · simp only [Function.update_of_ne heq]
  | call hbusy h =>
    rcases quiet_or_advances h with hquiet | hadvance
    · exact .inl hquiet
    · exact .inr ⟨_, _, _, _, hadvance, rfl⟩
  | reader hbusy h => exact .inl h.quiet
  | @failNext job xid entry hjob hentry =>
    refine .inl (.of_phases rfl rfl (fun h => h) (fun id => ?_) fun id => ?_)
    · exact update_eq Call.phase (failCall_eq unanswering_phase _ _ _) id
    · exact (later_update (later_failCall _ _ _) id).segments
  | close hreleased =>
    refine .inl (.of_phases (fail_lock _ _ _) (fail_writes _ _ _)
      (fun _ => fail_closed_isSome _ _ _) (fun id => ?_) fun id => ?_) <;>
      simp only [fail_calls]
  | failDone | poll | closeAbort | closeTake | release =>
    exact .inl (.of_phases rfl rfl (fun h => h) (fun _ => rfl) fun _ => rfl)

namespace LineInv

/-- A step keeps the invariant. -/
theorem step (hinv : LineInv s) (hreg : RegistryInv s) (h : Moves cfg s action s') :
    LineInv s' := by
  rcases h.quiet_or hreg with hquiet | ⟨id, act, call, effect, hadvance, rfl⟩
  · exact hinv.quiet hquiet
  · exact hinv.advance hadvance

omit [ReplyReceiver R] in
/-- On a new connection nothing was written and the lock is free. -/
theorem initial (cfg : Config) : LineInv (Conn.initial cfg : Conn R) := by
  refine ⟨fun id => by simp [Conn.initial, Call.absent, Phase.holdsLock], [], [], ?_, .free rfl rfl⟩
  exact ⟨List.nodup_nil, nofun, nofun, rfl⟩

/-- Every reachable state satisfies the invariant. -/
theorem of_reachable (h : Reachable cfg s) : LineInv s := by
  refine (h.invariant (fun s => RegistryInv s ∧ LineInv s)
    ⟨RegistryInv.initial cfg, LineInv.initial cfg⟩ ?_).2
  rintro t action u ⟨hreg, hinv⟩ - hstep
  have hmove := moves_of_step hstep
  exact ⟨hreg.step hmove, hinv.step hreg hmove⟩

end LineInv

/-! ## Nothing follows an abandoned frame -/

/-- The call gives a part of a frame up. -/
def Doomed : Phase R → Prop
  | .wrote (.error _) written => written ≠ 0
  | .guard false written _ => written ≠ 0
  | _ => False

/-- Nothing can be written any more: the connection is closed and nobody writes, or the holder of
the lock is about to close it. -/
def Stuck (s : Conn R) : Prop :=
  (s.closed.isSome = true ∧ ∀ id, (s.calls id).phase.isWriting = false) ∨
    ∃ id, s.lock = some id ∧ Doomed (s.calls id).phase

omit [ReplyReceiver R] in
/-- A call that writes holds the lock. -/
theorem holdsLock_of_isWriting {phase : Phase R} (h : phase.isWriting = true) :
    phase.holdsLock = true := by
  cases phase <;> first | rfl | cases h

omit [ReplyReceiver R] in
/-- A quiet step starts no writing. -/
theorem Quiet.isWriting (h : Quiet s s') {id : ℕ} (hid : (s.calls id).phase.isWriting = false) :
    (s'.calls id).phase.isWriting = false := by
  by_contra hwriting
  rw [Bool.not_eq_false] at hwriting
  have hholds := holdsLock_of_isWriting hwriting
  rw [h.holds] at hholds
  rw [h.held id hholds, hid] at hwriting
  cases hwriting

omit [ReplyReceiver R] in
/-- On a closed connection a call does not begin to write. -/
theorem not_writing_of_closed {view : View R} {call call' : Call R} {act : CallAction}
    {effect : Effect} (h : Call.Advances cfg view call act call' effect)
    (hclosed : view.closed.isSome = true) (hphase : call.phase.isWriting = false) :
    call'.phase.isWriting = false ∧ ∀ chunk, effect ≠ .accept chunk := by
  cases h with
  | check _ hopen =>
    rw [hopen] at hclosed
    cases hclosed
  | accept hwriting | acceptNone hwriting | retry hwriting | stopWritten hwriting =>
    rw [hwriting] at hphase
    cases hphase
  | @settle result written hwrote =>
    rcases result with error | ⟨⟨⟩⟩
    · refine ⟨rfl, fun chunk => ?_⟩
      simp only [Call.settle]
      split_ifs <;> simp
    · exact ⟨rfl, by simp [Call.settle]⟩
  | guard | retire =>
    refine ⟨rfl, fun chunk => ?_⟩
    split_ifs <;> simp
  | @unlock next hunlock => rcases next with ⟨_ | _⟩ | _ <;> exact ⟨rfl, by simp⟩
  | _ => exact ⟨rfl, by simp⟩

omit [ReplyReceiver R] in
/-- While the lock is taken, a call outside its send stays outside. -/
theorem outside_of_locked {view : View R} {call call' : Call R} {act : CallAction}
    {effect : Effect} (h : Call.Advances cfg view call act call' effect)
    (hfree : view.lockFree = false) (hphase : call.phase.holdsLock = false) :
    effect.isQuiet = true := by
  cases h with
  | lock _ hlock =>
    rw [hlock] at hfree
    cases hfree
  | register | refuse | discard | giveUp | dropWait | stopWait | receive | lost | panic | finish
  | dropped => rfl
  | checkFails h | check h | accept h | acceptNone h | retry h | writeFails h | flush h
  | stopUnwritten h | stopWritten h | dropWrite h | settle h | guard h | retire h | unlock h =>
    rw [h] at hphase
    cases hphase

omit [ReplyReceiver R] in
/-- Only accepted bytes are written. -/
theorem apply_writes {id : ℕ} {effect : Effect} (h : ∀ chunk, effect ≠ .accept chunk) :
    (s.apply id effect).writes = s.writes := by
  cases effect with
  | fail error => exact fail_writes _ _ _
  | accept chunk => exact absurd rfl (h chunk)
  | _ => rfl

omit [ReplyReceiver R] in
/-- A call does not open a closed connection. -/
theorem apply_closed {id : ℕ} {effect : Effect} (h : s.closed.isSome = true) :
    (s.apply id effect).closed.isSome = true := by
  cases effect with
  | fail error => exact fail_closed_isSome _ _ _
  | _ => exact h

omit [ReplyReceiver R] in
/-- The holder of the lock gives its frame up: it closes the connection before it lets go. -/
theorem Stuck.advance_doomed (hinv : LineInv s) {id : ℕ} (hlock : s.lock = some id)
    (hdoomed : Doomed (s.calls id).phase) {act : CallAction} {call : Call R} {effect : Effect}
    (h : Call.Advances cfg (s.view id) (s.calls id) act call effect) :
    Stuck { s.apply id effect with calls := Function.update s.calls id call } ∧
      (s.apply id effect).writes = s.writes := by
  have hothers : ∀ id', id' ≠ id → (s.calls id').phase.isWriting = false := by
    intro id' hne
    by_contra hwriting
    rw [Bool.not_eq_false] at hwriting
    have hheld := (hinv.holder id').mp (holdsLock_of_isWriting hwriting)
    rw [hlock] at hheld
    exact hne (Option.some.inj hheld).symm
  cases hphase : (s.calls id).phase with
  | wrote result written =>
    rw [hphase] at hdoomed
    rcases result with error | ⟨⟨⟩⟩
    · cases h with
      | settle hwrote =>
        rw [hphase] at hwrote
        cases hwrote
        have hfail : ((s.calls id).settle (.error error) written).2 = .fail error := by
          simp only [Call.settle]
          exact if_neg fun hsoft => hdoomed hsoft.1
        rw [hfail]
        refine ⟨.inr ⟨id, (fail_lock _ _ _).trans hlock, ?_⟩, fail_writes _ _ _⟩
        simp only [Function.update_self]
        exact hdoomed
      | dropWait hwait =>
        rw [hphase] at hwait
        rcases hwait with hwait | hwait | hwait <;> cases hwait
      | receive hwait | lost hwait | panic hwait =>
        rw [hphase] at hwait
        rcases hwait with hwait | hwait <;> cases hwait
      | register hwait | refuse hwait | discard hwait | lock hwait | giveUp hwait
      | checkFails hwait | check hwait | accept hwait | acceptNone hwait | retry hwait
      | writeFails hwait | flush hwait | stopUnwritten hwait | stopWritten hwait | dropWrite hwait
      | guard hwait | retire hwait | unlock hwait | stopWait hwait | finish hwait
      | dropped hwait =>
        rw [hphase] at hwait
        cases hwait
    · exact hdoomed.elim
  | guard complete written next =>
    rw [hphase] at hdoomed
    cases complete with
    | true => exact hdoomed.elim
    | false =>
      cases h with
      | guard hguard =>
        rw [hphase] at hguard
        cases hguard
        rw [if_pos ⟨rfl, hdoomed⟩]
        refine ⟨.inl ⟨fail_closed_isSome _ _ _, fun id' => ?_⟩, fail_writes _ _ _⟩
        by_cases heq : id' = id
        · simp only [heq, Function.update_self]
          rfl
        · simp only [Function.update_of_ne heq]
          exact hothers id' heq
      | dropWait hwait =>
        rw [hphase] at hwait
        rcases hwait with hwait | hwait | hwait <;> cases hwait
      | receive hwait | lost hwait | panic hwait =>
        rw [hphase] at hwait
        rcases hwait with hwait | hwait <;> cases hwait
      | register hwait | refuse hwait | discard hwait | lock hwait | giveUp hwait
      | checkFails hwait | check hwait | accept hwait | acceptNone hwait | retry hwait
      | writeFails hwait | flush hwait | stopUnwritten hwait | stopWritten hwait | dropWrite hwait
      | settle hwait | retire hwait | unlock hwait | stopWait hwait | finish hwait
      | dropped hwait =>
        rw [hphase] at hwait
        cases hwait
  | _ =>
    rw [hphase] at hdoomed
    exact hdoomed.elim

/-- Nothing is written any more, and that stays so. -/
theorem Stuck.step (h : Stuck s) (hinv : LineInv s) (hreg : RegistryInv s)
    (hmove : Moves cfg s action s') : Stuck s' ∧ s'.writes = s.writes := by
  rcases hmove.quiet_or hreg with hquiet | ⟨id, act, call, effect, hadvance, rfl⟩
  · refine ⟨?_, hquiet.writes⟩
    rcases h with ⟨hclosed, hnobody⟩ | ⟨id, hlock, hdoomed⟩
    · exact .inl ⟨hquiet.closed hclosed, fun id => hquiet.isWriting (hnobody id)⟩
    · refine .inr ⟨id, hquiet.lock.trans hlock, ?_⟩
      rw [hquiet.held id ((hinv.holder id).mpr hlock)]
      exact hdoomed
  · rcases h with ⟨hclosed, hnobody⟩ | ⟨holder, hlock, hdoomed⟩
    · obtain ⟨hnot, haccept⟩ := not_writing_of_closed hadvance hclosed (hnobody id)
      refine ⟨.inl ⟨apply_closed hclosed, fun id' => ?_⟩, apply_writes haccept⟩
      by_cases heq : id' = id
      · simp only [heq, Function.update_self]
        exact hnot
      · simp only [Function.update_of_ne heq]
        exact hnobody id'
    · by_cases heq : id = holder
      · subst heq
        exact Stuck.advance_doomed hinv hlock hdoomed hadvance
      · have hfree : (s.view id).lockFree = false := by simp [view, hlock]
        have hout : (s.calls id).phase.holdsLock = false := by
          by_contra hholds
          have hheld := (hinv.holder id).mp ((Bool.not_eq_false _).mp hholds)
          rw [hlock] at hheld
          exact heq (Option.some.inj hheld).symm
        obtain ⟨hkeep, hwrites⟩ := apply_quiet (s := s) id (outside_of_locked hadvance hfree hout)
        refine ⟨.inr ⟨holder, hkeep.trans hlock, ?_⟩, hwrites⟩
        simp only [Function.update_of_ne (Ne.symm heq)]
        exact hdoomed

/-- Nothing is written on any run from such a state. -/
theorem Stuck.runs (h : Stuck s) (hinv : LineInv s) (hreg : RegistryInv s)
    (hrun : Runs (Conn.step cfg) (fun _ _ => True) s s') : s'.writes = s.writes := by
  refine (hrun.invariant (fun t => Stuck t ∧ LineInv t ∧ RegistryInv t ∧ t.writes = s.writes)
    ⟨h, hinv, hreg, rfl⟩ ?_).2.2.2
  rintro t action u ⟨hstuck, hinv, hreg, hwrites⟩ - hstep
  have hmove := moves_of_step hstep
  obtain ⟨hstuck', hsame⟩ := hstuck.step hinv hreg hmove
  exact ⟨hstuck', hinv.step hreg hmove, hreg.step hmove, hsame.trans hwrites⟩

/-! ## The result -/

omit [ReplyReceiver R] in
/-- A part of a frame whose call does not write it any more is never followed by a byte. -/
theorem LineInv.stuck_of_part (hinv : LineInv s) {id : ℕ} {tail : Bytes}
    (hlock : s.lock = some id)
    (hprogress : Progress s.closed.isSome (s.calls id).segments tail (s.calls id).phase)
    (hne : tail ≠ []) (hproper : tail ≠ frame (s.calls id).segments)
    (hnot : (s.calls id).phase.isWriting = false) :
    Stuck s ∧ ((s.calls id).phase.ownsFrame = false → s.closed.isSome = true) := by
  have hnobody : ∀ id', (s.calls id').phase.isWriting = false := by
    intro id'
    by_contra hwriting
    rw [Bool.not_eq_false] at hwriting
    have hheld := (hinv.holder id').mp (holdsLock_of_isWriting hwriting)
    rw [hlock] at hheld
    cases hheld
    rw [hwriting] at hnot
    cases hnot
  have hlen : tail.length ≠ 0 := fun h => hne (List.length_eq_zero_iff.mp h)
  cases hphase : (s.calls id).phase with
  | wrote result written =>
    rw [hphase] at hprogress
    obtain ⟨-, hwritten, hok⟩ := hprogress
    refine ⟨.inr ⟨id, hlock, ?_⟩, nofun⟩
    rw [hphase]
    rcases result with error | ⟨⟨⟩⟩
    · exact fun h => hlen (hwritten ▸ h)
    · exact absurd (hok rfl) hproper
  | guard complete written next =>
    rw [hphase] at hprogress
    obtain ⟨-, hwritten, hcomplete⟩ := hprogress
    refine ⟨.inr ⟨id, hlock, ?_⟩, nofun⟩
    rw [hphase]
    cases complete with
    | false => exact fun h => hlen (hwritten ▸ h)
    | true => exact absurd (hcomplete rfl) hproper
  | retire next | unlock next =>
    rw [hphase] at hprogress
    have hclosed := (hprogress.2.resolve_left hne).resolve_left hproper
    exact ⟨.inl ⟨hclosed, hnobody⟩, fun _ => hclosed⟩
  | locked =>
    rw [hphase] at hprogress
    exact absurd hprogress hne
  | writing =>
    rw [hphase] at hnot
    cases hnot
  | _ =>
    rw [hphase] at hprogress
    exact hprogress.elim

/-- The frames on the wire.  In every reachable state the accepted bytes are the complete frames of
distinct calls, followed by nothing or by a proper part of the frame of one more call.  That call is
writing it, or no byte is accepted in any later state; and once its frame guard is dropped, the
connection is closed. -/
theorem frame_integrity (cfg : Config) (s : Conn R) (h : Reachable cfg s) :
    ∃ (done : List ℕ) (tail : Bytes), done.Nodup ∧
      (∀ id ∈ done, FrameFits (s.calls id).segments) ∧
      s.accepted = (done.map fun id => frame (s.calls id).segments).flatten ++ tail ∧
      (tail = [] ∨ ∃ id, id ∉ done ∧ FrameFits (s.calls id).segments ∧
        tail <+: frame (s.calls id).segments ∧ tail ≠ frame (s.calls id).segments ∧
        ((s.calls id).phase.isWriting = true ∨
          (∀ s', Runs (step cfg) (fun _ _ => True) s s' → s'.writes = s.writes) ∧
            ((s.calls id).phase.ownsFrame = false → s.closed.isSome = true))) := by
  have hreg := RegistryInv.of_reachable h
  have hinv := LineInv.of_reachable h
  obtain ⟨done, tail, hframes, htail⟩ := hinv.wire
  cases htail with
  | free hlock hnil =>
    exact ⟨done, tail, hframes.nodup, hframes.fits, hframes.bytes, .inl hnil⟩
  | abandoned id hid hpast hpart hproper hne hclosed hlocked =>
    refine ⟨done, tail, hframes.nodup, hframes.fits, hframes.bytes, .inr ⟨id, hid, hpart.2 hne,
      hpart.1, hproper, .inr ⟨fun s' hrun => ?_, fun _ => hclosed⟩⟩⟩
    refine Stuck.runs (.inl ⟨hclosed, fun id' => ?_⟩) hinv hreg hrun
    by_contra hwriting
    rw [Bool.not_eq_false] at hwriting
    have hheld := (hinv.holder id').mp (holdsLock_of_isWriting hwriting)
    rw [hlocked id' hheld] at hwriting
    cases hwriting
  | held id hlock hprogress =>
    have hdone : id ∉ done := fun hid =>
      ne_of_isPast ((hinv.holder id).mpr hlock) (hframes.past id hid) rfl
    have hpart := hprogress.part
    by_cases hnil : tail = []
    · exact ⟨done, tail, hframes.nodup, hframes.fits, hframes.bytes, .inl hnil⟩
    by_cases hfull : tail = frame (s.calls id).segments
    · -- The frame is complete, whatever its call still does.
      rw [hfull] at hframes hnil
      refine ⟨done ++ [id], [], ?_, ?_, ?_, .inl rfl⟩
      · exact List.nodup_append.mpr ⟨hframes.nodup, List.nodup_singleton id,
          fun a ha b hb heq => hdone (List.mem_singleton.mp hb ▸ heq ▸ ha)⟩
      · intro id' hid
        rcases List.mem_append.mp hid with hid | hid
        · exact hframes.fits id' hid
        · rw [List.mem_singleton.mp hid]
          exact hpart.2 (hfull ▸ hnil)
      · rw [hframes.bytes]
        simp
    · refine ⟨done, tail, hframes.nodup, hframes.fits, hframes.bytes, .inr ⟨id, hdone,
        hpart.2 hnil, hpart.1, hfull, ?_⟩⟩
      cases hwriting : (s.calls id).phase.isWriting with
      | true => exact .inl rfl
      | false =>
        obtain ⟨hstuck, hclosed⟩ := hinv.stuck_of_part hlock hprogress hnil hfull hwriting
        exact .inr ⟨fun s' hrun => hstuck.runs hinv hreg hrun, hclosed⟩

/-- A call is dropped after ten bytes of its frame. -/
theorem frame_integrity_dropped_call : ∃ s : Conn Buffers, Reachable .plain s ∧
    s.accepted.length = 10 ∧ s.closed = some interruptedFrameError ∧
    ∃ (done : List ℕ) (tail : Bytes), done.Nodup ∧
      s.accepted = (done.map fun id => frame (s.calls id).segments).flatten ++ tail := by
  obtain ⟨s, hs, hseen⟩ := @exists_reachable Buffers _ .plain
    [.admitCall (.classic (.nullCall 7)) ⟨false, .none⟩, .call 0 .step,
      .call 0 .lock, .call 0 .step, .call 0 (.write (.ok 10)), .call 0 .drop, .call 0 .step,
        .failNext 7, .failDone,
      .call 0 .step, .call 0 .step] _
    (fun s => (s.accepted.length, s.closed)) (10, some interruptedFrameError) (by decide +kernel)
  obtain ⟨hlength, hclosed⟩ := Prod.mk.inj hseen
  obtain ⟨done, tail, hnodup, -, hbytes, -⟩ := frame_integrity .plain s hs
  exact ⟨s, hs, hlength, hclosed, done, tail, hnodup, hbytes⟩

end Conn

end OncRpc
