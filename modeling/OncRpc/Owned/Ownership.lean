import OncRpc.Owned.Registry

/-!
# Who owns the answer to a call

From its registration on, the sender of a call is in exactly one place: in the registry, with a
connection that is failing, with the reader, or used up, by a value sent or by a drop.  `OwnerInv`
counts these places.  A call is therefore answered at most once, and never twice by two parties.
-/

namespace OncRpc

open Foundation

variable {R : Type}

/-! ## Places -/

/-- How many senders of a call a map holds under a transaction id. -/
def Registry.held (m : Registry R) (xid : Xid) (id : ℕ) : ℕ :=
  match m.lookup xid with
  | some ⟨token, some _⟩ => if token = id then 1 else 0
  | _ => 0

namespace Registry

variable {m : Registry R} {xid xid' : Xid} {id token : ℕ} {sender : ResponseSender R}

/-- An entry with its sender is held by its call. -/
theorem held_of_lookup (h : m.lookup xid = some ⟨id, some sender⟩) : m.held xid id = 1 := by
  simp [held, h]

/-- A missing entry is held by no call. -/
theorem held_of_none (h : m.lookup xid = none) : m.held xid id = 0 := by
  simp [held, h]

/-- An entry whose sender is taken is held by no call. -/
theorem held_of_taken (h : m.lookup xid = some ⟨token, none⟩) : m.held xid id = 0 := by
  simp [held, h]

/-- An entry of another call is not held by this one. -/
theorem held_of_ne {entry : Pending R} (h : m.lookup xid = some entry) (hne : entry.token ≠ id) :
    m.held xid id = 0 := by
  obtain ⟨token, _ | sender⟩ := entry
  · exact held_of_taken h
  · simp only at hne
    simp [held, h, hne]

/-- An empty registry holds nothing. -/
@[simp] theorem held_empty : (∅ : Registry R).held xid id = 0 :=
  held_of_none (AList.lookup_empty xid)

/-- What a registry holds for an identifier depends on its entry alone. -/
theorem held_congr {m' : Registry R} (h : m'.lookup xid = m.lookup xid) :
    m'.held xid id = m.held xid id := by
  simp only [held, h]

/-- An entry of another call put where the call has none. -/
theorem held_insert_other {entry : Pending R} (hne : entry.token ≠ id) (h : m.held xid' id = 0) :
    held (m.insert xid' entry) xid id = m.held xid id := by
  by_cases hxid : xid = xid'
  · rw [hxid, h, held_of_ne (AList.lookup_insert m) hne]
  · exact held_congr (AList.lookup_insert_ne hxid)

/-- An entry erased where the call has none. -/
theorem held_erase_other (h : m.held xid' id = 0) :
    held (m.erase xid') xid id = m.held xid id := by
  by_cases hxid : xid = xid'
  · rw [hxid, h, held_of_none (AList.lookup_erase xid' m)]
  · exact held_congr (AList.lookup_erase_ne hxid)

end Registry

/-- The call and transaction id the reader is finishing with. -/
def ReaderPhase.served : ReaderPhase R → Option (ℕ × Xid)
  | .draining (some token) key _ | .cleanup (some token) key _ => some (token, key)
  | _ => none

/-- The call whose sender the reader holds. -/
def ReaderPhase.holds : ReaderPhase R → Option ℕ
  | .receiving token _ _ => some token
  | _ => none

/-- A reader that holds a sender is receiving. -/
theorem ReaderPhase.of_holds {phase : ReaderPhase R} {token : ℕ} (h : phase.holds = some token) :
    ∃ key receive, phase = .receiving token key receive := by
  cases phase with
  | receiving token' key receive =>
    cases h
    exact ⟨key, receive, rfl⟩
  | _ => cases h

namespace Conn

/-- The sender of the call is in the registry. -/
def inRegistry (s : Conn R) (id : ℕ) : ℕ := s.pending.held (s.calls id).xid id

/-- A failing connection took the sender of the call. -/
def inJob (s : Conn R) (id : ℕ) : ℕ :=
  match s.job with
  | some job => job.remaining.held (s.calls id).xid id
  | none => 0

/-- The reader holds the sender of the call. -/
def atReader (s : Conn R) (id : ℕ) : ℕ := if s.reader.holds = some id then 1 else 0

/-- The sender of the call is used up. -/
def usedUp (call : Call R) : ℕ := call.sent.length + if call.senderGone then 1 else 0

/-- The places the sender of a call is in. -/
def owners (s : Conn R) (id : ℕ) : ℕ :=
  s.inRegistry id + s.inJob id + s.atReader id + usedUp (s.calls id)

/-- The sender of every registered call is in one place, and the reader does not clean an entry up
that still has its sender. -/
structure OwnerInv (s : Conn R) : Prop where
  owner : ∀ id, (s.calls id).phase.isRegistered = true → s.owners id = 1
  served : ∀ token xid, s.reader.served = some (token, xid) →
    (s.calls token).phase.isRegistered = true ∧
      ∀ sender, s.pending.lookup xid ≠ some ⟨token, some sender⟩

variable {s s' : Conn R}

/-! ## What keeps the places -/

/-- A call whose four places stay. -/
theorem owners_congr {id : ℕ} (hregistry : s'.inRegistry id = s.inRegistry id)
    (hjob : s'.inJob id = s.inJob id) (hreader : s'.atReader id = s.atReader id)
    (hused : usedUp (s'.calls id) = usedUp (s.calls id)) : s'.owners id = s.owners id := by
  simp only [owners, hregistry, hjob, hreader, hused]

/-- What the registry holds for a call depends on the entries and its identifier. -/
theorem inRegistry_congr {id : ℕ} (hpending : s'.pending = s.pending)
    (hxid : (s'.calls id).xid = (s.calls id).xid) : s'.inRegistry id = s.inRegistry id := by
  simp only [inRegistry, hpending, hxid]

/-- What a failing party holds for a call depends on its work and the identifier. -/
theorem inJob_congr {id : ℕ} (hjob : s'.job = s.job)
    (hxid : (s'.calls id).xid = (s.calls id).xid) : s'.inJob id = s.inJob id := by
  simp only [inJob, hjob, hxid]

/-- What the reader holds depends on its phase. -/
theorem atReader_congr (hreader : s'.reader.holds = s.reader.holds) (id : ℕ) :
    s'.atReader id = s.atReader id := by
  simp only [atReader, hreader]

/-- A call that no entry names is in no map. -/
theorem held_eq_zero {m : Registry R} {id : ℕ}
    (h : ∀ xid entry, m.lookup xid = some entry → entry.token ≠ id) (xid : Xid) :
    m.held xid id = 0 := by
  cases hentry : m.lookup xid with
  | none => exact Registry.held_of_none hentry
  | some entry => exact Registry.held_of_ne hentry (h xid entry hentry)

/-- Failing a connection moves the senders from the registry to the loop. -/
theorem owners_fail (hinv : RegistryInv s) (party : Party) (error : RuntimeError) (id : ℕ) :
    (s.fail party error).owners id = s.owners id := by
  cases hclosed : s.closed with
  | some error' => rw [fail_of_closed s party error hclosed]
  | none =>
    have hjob : s.job = none := by
      by_contra hsome
      have hfailed := hinv.failed (Option.isSome_iff_ne_none.mpr hsome)
      rw [hclosed] at hfailed
      cases hfailed
    rw [fail_of_open s party error hclosed]
    simp only [owners, inRegistry, inJob, atReader, hjob, Registry.held_empty]
    omega

/-- A call that keeps its transaction id and what was sent to it. -/
theorem owners_update (s : Conn R) {token : ℕ} {call : Call R}
    (hxid : call.xid = (s.calls token).xid) (hused : usedUp call = usedUp (s.calls token))
    (id : ℕ) : owners { s with calls := Function.update s.calls token call } id = s.owners id := by
  have hxids : (Function.update s.calls token call id).xid = (s.calls id).xid :=
    update_eq Call.xid hxid id
  exact owners_congr (inRegistry_congr rfl hxids) (inJob_congr rfl hxids) (atReader_congr rfl id)
    (update_eq usedUp hused id)

/-- Another call keeps its places, if the maps lose nothing of it. -/
theorem owners_other {token id : ℕ} {call : Call R}
    (hcalls : s'.calls = Function.update s.calls token call) (hne : id ≠ token)
    (hpending : ∀ xid, s'.pending.held xid id = s.pending.held xid id)
    (hjob : s'.inJob id = s.inJob id) (hreader : s'.atReader id = s.atReader id) :
    s'.owners id = s.owners id := by
  have hsame : s'.calls id = s.calls id := by rw [hcalls, Function.update_of_ne hne]
  refine owners_congr ?_ hjob hreader (by rw [hsame])
  simp only [inRegistry, hsame, hpending]

/-! ## Steps of a call -/

variable {cfg : Config} {id : ℕ}

/-- Answering a call whose sender was in the registry. -/
theorem owners_answer (hown : OwnerInv s) {token : ℕ}
    {sender : ResponseSender R} {call : Call R}
    (hentry : s.pending.lookup (s.calls token).xid = some ⟨token, some sender⟩)
    (hxid : call.xid = (s.calls token).xid)
    (hused : usedUp call = usedUp (s.calls token) + 1) (id : ℕ)
    (hid : (s.calls id).phase.isRegistered = true) :
    owners { s with
      pending := s.pending.erase (s.calls token).xid
      calls := Function.update s.calls token call } id = 1 := by
  by_cases heq : id = token
  · subst heq
    have hone := hown.owner id hid
    have hbefore : s.inRegistry id = 1 := Registry.held_of_lookup hentry
    have hafter : Registry.held (s.pending.erase (s.calls id).xid) (s.calls id).xid id = 0 :=
      Registry.held_of_none (AList.lookup_erase _ _)
    simp only [owners, inRegistry, inJob, atReader, Function.update_self, hxid, hused, hafter]
    simp only [owners, hbefore, inJob, atReader] at hone
    omega
  · rw [← hown.owner id hid]
    refine owners_other rfl heq (fun xid => ?_) (inJob_congr rfl ?_) (atReader_congr rfl id)
    · exact Registry.held_erase_other (Registry.held_of_ne hentry (Ne.symm heq))
    · simp only [Function.update_of_ne heq]

/-- Removing the entry of a call whose sender was taken. -/
theorem owners_remove {token : ℕ} {call : Call R}
    (hentry : s.pending.lookup (s.calls token).xid = some ⟨token, none⟩)
    (hxid : call.xid = (s.calls token).xid) (hused : usedUp call = usedUp (s.calls token))
    (id : ℕ) :
    owners { s with
      pending := s.pending.erase (s.calls token).xid
      calls := Function.update s.calls token call } id = s.owners id := by
  have hxids : (Function.update s.calls token call id).xid = (s.calls id).xid :=
    update_eq Call.xid hxid id
  refine owners_congr ?_ (inJob_congr rfl hxids) (atReader_congr rfl id)
    (update_eq usedUp hused id)
  simp only [inRegistry, hxids]
  exact Registry.held_erase_other (Registry.held_of_taken hentry)

/-- Registering a call. -/
theorem owners_register (hown : OwnerInv s) (hreg : RegistryInv s) {token : ℕ} {call : Call R}
    (hphase : (s.calls token).phase = .admitted)
    (hentry : s.pending.lookup (s.calls token).xid = none)
    (hcall : call = (s.calls token).goto .queued) (id : ℕ)
    (hid : id = token ∨ (s.calls id).phase.isRegistered = true) :
    owners { s with
      pending := s.pending.insert (s.calls token).xid ⟨token, some (s.calls token).sender⟩
      calls := Function.update s.calls token call } id = 1 := by
  have hunregistered : (s.calls token).phase.isRegistered = false := by
    rw [hphase]
    rfl
  by_cases heq : id = token
  · subst heq
    obtain ⟨-, -, hsent, hgone⟩ := hreg.untouched id hunregistered
    have hjob : s.inJob id = 0 := by
      unfold inJob
      split
      · next job hjob =>
        refine held_eq_zero (fun xid entry hin => ?_) _
        rintro rfl
        have hr := (hreg.taken job hjob xid entry hin).2.1
        rw [hunregistered] at hr
        cases hr
      · rfl
    have hreader : s.atReader id = 0 := by
      refine if_neg fun hholds => ?_
      obtain ⟨xid, receive, hreader⟩ := ReaderPhase.of_holds hholds
      have hr := (hreg.receiving _ _ _ hreader).2.1
      rw [hunregistered] at hr
      cases hr
    have hafter : Registry.held (s.pending.insert (s.calls id).xid ⟨id, some (s.calls id).sender⟩)
        (s.calls id).xid id = 1 := Registry.held_of_lookup (AList.lookup_insert _)
    simp only [inJob] at hjob
    simp only [atReader] at hreader
    simp only [owners, inRegistry, inJob, atReader, Function.update_self, hcall, Call.goto, hafter,
      hjob, hreader, usedUp, hsent, hgone]
    rfl
  · rw [← hown.owner id (hid.resolve_left heq)]
    refine owners_other rfl heq (fun xid => ?_) (inJob_congr rfl ?_) (atReader_congr rfl id)
    · exact Registry.held_insert_other (Ne.symm heq) (Registry.held_of_none hentry)
    · simp only [Function.update_of_ne heq]

/-- Any other effect of a call keeps the places. -/
theorem owners_apply (hreg : RegistryInv s) (token : ℕ) {effect : Effect}
    (hregister : effect ≠ .register) (hremove : effect ≠ .remove) (id : ℕ) :
    (s.apply token effect).owners id = s.owners id := by
  cases effect with
  | register => exact absurd rfl hregister
  | remove => exact absurd rfl hremove
  | fail error => exact owners_fail hreg _ _ id
  | none | lock | unlock | accept | retire => rfl

/-- A step of a call keeps the places of every registered call. -/
theorem owners_call (hown : OwnerInv s) (hreg : RegistryInv s) {token : ℕ} {act : CallAction}
    {call : Call R} {effect : Effect}
    (h : Call.Moves cfg (s.view token) token (s.calls token) act call effect) (id : ℕ)
    (hid : (Function.update s.calls token call id).phase.isRegistered = true) :
    owners { s.apply token effect with calls := Function.update s.calls token call } id = 1 := by
  have hsame : call.phase = (s.calls token).phase → (s.calls id).phase.isRegistered = true := by
    intro hphase
    have hphases := update_eq (s := s) Call.phase hphase id
    rwa [hphases] at hid
  cases h with
  | mark hstop | unlisted hstop hentry =>
    refine Eq.trans ?_ (hown.owner id (hsame rfl))
    refine owners_update s ?_ ?_ id <;> rfl
  | answer hstop hentry =>
    refine owners_answer hown hentry ?_ ?_ id (hsame rfl)
    · rfl
    · simp only [usedUp, Call.answer, List.length_append, List.length_singleton]
      exact Nat.add_right_comm _ _ _
  | remove hstop hentry =>
    refine Eq.trans ?_ (hown.owner id (hsame rfl))
    refine owners_remove hentry ?_ ?_ id <;> rfl
  | advance hstop h =>
    rcases h.registration with ⟨hbefore, -, hregister⟩ | ⟨hphase, hcall, rfl, -, hentry⟩ |
      ⟨hphase, rfl, phase, haside, hcall⟩
    · have hone : (s.calls id).phase.isRegistered = true := by
        by_cases heq : id = token
        · rw [heq]
          exact hbefore
        · rwa [Function.update_of_ne heq] at hid
      have hupdate := @owners_update R (s.apply token effect) token call
        (by rw [apply_calls, h.eq_goto]) (by rw [apply_calls, h.eq_goto]; rfl) id
      rw [apply_calls, owners_apply hreg token hregister h.ne_remove id] at hupdate
      exact hupdate.trans (hown.owner id hone)
    · refine owners_register hown hreg hphase hentry hcall id ?_
      by_cases heq : id = token
      · exact .inl heq
      · rw [Function.update_of_ne heq] at hid
        exact .inr hid
    · have hne : id ≠ token := by
        rintro rfl
        rw [Function.update_self, hcall] at hid
        rw [show ((s.calls id).goto phase).phase = phase from rfl, haside] at hid
        cases hid
      rw [Function.update_of_ne hne] at hid
      rw [← hown.owner id hid]
      exact owners_other rfl hne (fun _ => rfl)
        (inJob_congr rfl (by simp only [Function.update_of_ne hne])) (atReader_congr rfl id)

/-! ## Steps of the reader and of a failing connection -/

/-- The reader takes a sender from the registry. -/
theorem owners_take (hown : OwnerInv s) (hreg : RegistryInv s) {xid : Xid} {token : ℕ}
    {sender : ResponseSender R} {receive : Receive R} (hnot : s.reader.holds = none)
    (hentry : s.pending.lookup xid = some ⟨token, some sender⟩) (id : ℕ)
    (hid : (s.calls id).phase.isRegistered = true) :
    owners { s with
      pending := s.pending.insert xid ⟨token, none⟩
      reader := .receiving token xid receive } id = 1 := by
  have hxid : (s.calls token).xid = xid := (hreg.entries _ _ hentry).1
  have hone := hown.owner id hid
  by_cases heq : id = token
  · subst heq
    have hbefore : s.inRegistry id = 1 := by
      rw [inRegistry, hxid]
      exact Registry.held_of_lookup hentry
    have hafter : Registry.held (s.pending.insert xid ⟨id, none⟩) xid id = 0 :=
      Registry.held_of_taken (AList.lookup_insert _)
    have hreader : s.atReader id = 0 := if_neg (by rw [hnot]; nofun)
    simp only [owners, hbefore, hreader, inJob] at hone
    simp only [owners, inRegistry, inJob, atReader, ReaderPhase.holds, hxid, hafter, if_true]
    simp only [hxid] at hone
    omega
  · rw [← hone]
    have hreader : atReader { s with
        pending := s.pending.insert xid ⟨token, none⟩
        reader := .receiving token xid receive } id = s.atReader id := by
      refine (if_neg fun h => heq ?_).trans (if_neg (by rw [hnot]; nofun)).symm
      exact (Option.some.inj h).symm
    refine owners_congr ?_ rfl hreader rfl
    exact Registry.held_insert_other (Ne.symm heq) (Registry.held_of_ne hentry (Ne.symm heq))

/-- The reader uses up the sender it holds. -/
theorem owners_use (hown : OwnerInv s) {token : ℕ} {xid : Xid} {receive : Receive R}
    (hreader : s.reader = .receiving token xid receive) {call : Call R} {phase : ReaderPhase R}
    (hphase : phase.holds = none) (hxid : call.xid = (s.calls token).xid)
    (hused : usedUp (s.calls token) = 0 → usedUp call = 1) (id : ℕ)
    (hid : (s.calls id).phase.isRegistered = true) :
    owners { s with calls := Function.update s.calls token call, reader := phase } id = 1 := by
  have hone := hown.owner id hid
  have hafter : ∀ id, atReader { s with
      calls := Function.update s.calls token call, reader := phase } id = 0 := by
    intro id
    exact if_neg (by rw [hphase]; nofun)
  by_cases heq : id = token
  · subst heq
    have hbefore : s.atReader id = 1 := by
      simp [atReader, hreader, ReaderPhase.holds]
    simp only [owners, hbefore] at hone
    have hcall := hused (by omega)
    have hpending : s.inRegistry id = 0 := by omega
    have hjob : s.inJob id = 0 := by omega
    rw [owners, hafter id]
    simp only [inRegistry, inJob] at hpending hjob
    simp only [inRegistry, inJob, Function.update_self, hxid, hpending, hjob, hcall]
  · rw [← hone]
    have hbefore : s.atReader id = 0 := by
      simp [atReader, hreader, ReaderPhase.holds, Ne.symm heq]
    refine owners_other rfl heq (fun _ => rfl) (inJob_congr rfl ?_) ?_
    · simp only [Function.update_of_ne heq]
    · rw [hafter id, hbefore]

/-- A failing connection answers a call it took. -/
theorem owners_failNext (hown : OwnerInv s) (hreg : RegistryInv s) {job : FailJob R} {xid : Xid}
    {entry : Pending R} (hjob : s.job = some job) (hentry : job.remaining.lookup xid = some entry)
    (id : ℕ) (hid : (s.calls id).phase.isRegistered = true) :
    owners { s with
      calls := Function.update s.calls entry.token
        (failCall (s.calls entry.token) job.error entry.sender)
      job := some { job with remaining := job.remaining.erase xid } } id = 1 := by
  have hxid : (s.calls entry.token).xid = xid := (hreg.taken job hjob xid entry hentry).1
  have hone := hown.owner id hid
  obtain ⟨token, sender⟩ := entry
  simp only at hxid ⊢
  by_cases heq : id = token
  · subst heq
    have hcall : (failCall (s.calls id) job.error sender).xid = (s.calls id).xid :=
      (later_failCall _ _ _).xid
    have hafter : Registry.held (job.remaining.erase xid) xid id = 0 :=
      Registry.held_of_none (AList.lookup_erase _ _)
    simp only [owners, inJob, hjob, hxid] at hone
    simp only [owners, inRegistry, inJob, atReader, Function.update_self, hcall, hxid, hafter]
    simp only [inRegistry, atReader, hxid] at hone
    cases sender with
    | none =>
      have hbefore : job.remaining.held xid id = 0 := Registry.held_of_taken hentry
      rw [hbefore] at hone
      exact hone
    | some sender =>
      have hbefore : job.remaining.held xid id = 1 := Registry.held_of_lookup hentry
      have hused : usedUp (failCall (s.calls id) job.error (some sender)) =
          usedUp (s.calls id) + 1 := by
        simp only [usedUp, failCall, Call.answer, List.length_append, List.length_singleton]
        exact Nat.add_right_comm _ _ _
      rw [hbefore] at hone
      rw [hused]
      omega
  · rw [← hone]
    refine owners_other rfl heq (fun _ => rfl) ?_ (atReader_congr rfl id)
    simp only [inJob, hjob, Function.update_of_ne heq]
    exact Registry.held_erase_other (Registry.held_of_ne hentry (Ne.symm heq))

/-- A phase of the reader that holds the same sender. -/
theorem owners_reader {phase : ReaderPhase R} (h : phase.holds = s.reader.holds) (polled : Bool)
    (consumed : Bytes) (id : ℕ) :
    owners { s with reader := phase, polled := polled, consumed := consumed } id = s.owners id :=
  owners_congr rfl rfl (atReader_congr h id) rfl

variable [ReplyReceiver R] {action : Action R}

/-- Reading a record keeps the sender the reader holds and the call it finishes with. -/
theorem ReadMoves.holds {result : ReadResult IoError} {phase phase' : ReaderPhase R}
    (h : ReadMoves result phase phase') :
    phase'.holds = phase.holds ∧ ∀ served, phase'.served = some served →
      phase.served = some served := by
  cases h with
  | xid hpoll hanswers =>
    unfold xidPhase
    split
    · exact ⟨rfl, nofun⟩
    · exact ⟨rfl, nofun⟩
    · split_ifs <;> exact ⟨rfl, nofun⟩
  | receiving hpoll hanswers => exact ⟨rfl, nofun⟩
  | @draining token key cursor count hpoll hanswers =>
    unfold drainPhase
    split
    · exact ⟨rfl, fun _ h => by cases token <;> exact h⟩
    · exact ⟨rfl, fun _ h => by cases token <;> exact h⟩
    · exact ⟨rfl, fun _ h => by cases token <;> exact h⟩

omit [ReplyReceiver R] in
/-- The reader starts the next record, or fails, with nothing in its hands. -/
theorem afterCleanup_holds (cfg : Config) (result : Except RuntimeError Unit) :
    (afterCleanup cfg result : ReaderPhase R).holds = none ∧
      (afterCleanup cfg result : ReaderPhase R).served = none := by
  unfold afterCleanup
  split
  · rw [ReaderPhase.nextRecord_eq]
    exact ⟨rfl, rfl⟩
  · exact ⟨rfl, rfl⟩

omit [ReplyReceiver R] in
/-- Cleaning up after a record loses no sender. -/
theorem owners_cleanup (hown : OwnerInv s) {token : Option ℕ} {xid : Xid}
    {result : Except RuntimeError Unit} (hreader : s.reader = .cleanup token xid result) (id : ℕ) :
    owners { s.cleanup token xid with reader := afterCleanup cfg result } id = s.owners id := by
  have hholds : (afterCleanup cfg result : ReaderPhase R).holds = s.reader.holds := by
    rw [hreader, (afterCleanup_holds cfg result).1]
    rfl
  have hheld : (s.cleanup token xid).pending = s.pending ∨
      (s.cleanup token xid).pending = s.pending.erase xid ∧ ∀ id, s.pending.held xid id = 0 := by
    unfold cleanup
    split
    · next token entry hentry =>
      split_ifs with hcond
      · refine .inr ⟨rfl, fun id => ?_⟩
        obtain ⟨entryToken, sender⟩ := entry
        cases sender with
        | none => exact Registry.held_of_taken hentry
        | some sender =>
          have hserved := (hown.served token xid (by rw [hreader]; rfl)).2 sender
          rw [hentry, show entryToken = token from hcond.2] at hserved
          exact absurd rfl hserved
      · exact .inl rfl
    · exact .inl rfl
  rw [cleanup_eq]
  refine owners_congr ?_ rfl (atReader_congr hholds id) rfl
  rcases hheld with hsame | ⟨herase, hzero⟩
  · simp only [inRegistry, hsame]
  · simp only [inRegistry, herase]
    exact Registry.held_erase_other (hzero id)

omit [ReplyReceiver R] in
/-- A value sent to a call uses its sender up. -/
theorem usedUp_append {call call' : Call R} (h : usedUp call = 0) (reply : Reply R)
    (hsent : call'.sent = call.sent ++ [reply]) (hgone : call'.senderGone = call.senderGone) :
    usedUp call' = 1 := by
  unfold usedUp at h ⊢
  rw [hsent, hgone, List.length_append, List.length_singleton]
  omega

omit [ReplyReceiver R] in
/-- Losing its sender uses the sender up. -/
theorem usedUp_dropped (token : ℕ) (sender : ResponseSender R)
    (h : usedUp (s.calls token) = 0) : usedUp (s.dropped token sender) = 1 := by
  have hsent : (s.calls token).sent.length = 0 := by
    unfold usedUp at h
    omega
  have hgone : (s.calls token).senderGone = false := by
    by_contra hgone
    rw [Bool.not_eq_false] at hgone
    simp [usedUp, hgone] at h
  cases sender <;> simp [usedUp, dropped, Call.answer, hsent, hgone]

/-- A step of the reader keeps the places of every registered call. -/
theorem owners_readerMoves (hown : OwnerInv s) (hreg : RegistryInv s)
    (h : ReaderMoves cfg s action s') (id : ℕ) (hid : (s.calls id).phase.isRegistered = true) :
    s'.owners id = 1 := by
  have hone := hown.owner id hid
  have hquiet : ∀ {phase : ReaderPhase R}, s.reader.holds = none → phase.holds = none →
      owners { s with reader := phase } id = 1 := by
    intro phase hbefore hafter
    rw [← hone]
    exact owners_reader (hafter.trans hbefore.symm) s.polled s.consumed id
  cases h with
  | read h =>
    rw [← hone]
    exact owners_reader h.holds.1 _ _ id
  | take hreader hreleased hentry =>
    exact owners_take hown hreg (by rw [hreader]; rfl) hentry id hid
  | answer hreader hpoll hcontrol =>
    refine owners_use hown hreader ?_ ?_ (fun hzero => ?_) id hid
    · rfl
    · rfl
    · exact usedUp_append hzero _ rfl rfl
  | stopped hreader hcontrol haction =>
    refine owners_use hown hreader ?_ ?_ (fun hzero => ?_) id hid
    · rfl
    · rfl
    · exact usedUp_append hzero _ rfl rfl
  | unwind hreader haction habort =>
    rw [dropSender_eq]
    exact owners_use hown hreader rfl (later_dropped _ _).xid (usedUp_dropped _ _) id hid
  | cleanup hreader => exact (owners_cleanup hown hreader id).trans hone
  | fail hreader hreleased =>
    rw [← hone, ← owners_fail hreg .reader _ id]
    exact owners_reader (by rw [fail_reader, hreader]; rfl) _ _ id
  | exit hreader hreleased =>
    rw [← hone, ← owners_fail hreg .reader .connectionClosed id]
    exact owners_reader (by rw [fail_reader, hreader]; rfl) _ _ id
  | xidFails hreader | orphan hreader | taken hreader | unregistered hreader | drained hreader
  | orphanFails hreader | orphanExits hreader | discard habort hreader =>
    exact hquiet (by rw [hreader]; rfl) rfl
  | retire hreader | exitTake hreader =>
    rw [← hone]
    exact owners_reader (by rw [hreader]; rfl) s.polled s.consumed id
  | abort habort hphase =>
    refine hquiet ?_ rfl
    cases hreader : s.reader <;> rw [hreader] at hphase <;> first | rfl | exact hphase.elim

namespace OwnerInv

/-- The reader comes to finish with a call it was already finishing with, or whose sender it held or
found taken. -/
theorem served_cases (h : ReaderMoves cfg s action s') {token : ℕ} {xid : Xid}
    (hserved : s'.reader.served = some (token, xid)) :
    (s.reader.served = some (token, xid) ∨ (∃ receive, s.reader = .receiving token xid receive) ∨
      s.pending.lookup xid = some ⟨token, none⟩) ∧ s'.pending = s.pending := by
  cases h with
  | read h => exact ⟨.inl (h.holds.2 _ hserved), rfl⟩
  | taken hreader hreleased hentry =>
    cases hserved
    exact ⟨.inr (.inr hentry), rfl⟩
  | answer hreader | stopped hreader =>
    cases hserved
    exact ⟨.inr (.inl ⟨_, hreader⟩), rfl⟩
  | @drained token' key cursor result hreader hresult =>
    refine ⟨.inl ?_, rfl⟩
    rw [hreader]
    cases token' <;> exact hserved
  | cleanup hreader =>
    rw [show (ReaderPhase.served _) = _ from (afterCleanup_holds cfg _).2] at hserved
    cases hserved
  | _ => cases hserved

/-- After a step the call that is served has no sender in the registry. -/
theorem step_served (hown : OwnerInv s) (hreg : RegistryInv s) (h : Moves cfg s action s')
    (token : ℕ) (xid : Xid) (hserved : s'.reader.served = some (token, xid)) :
    (s'.calls token).phase.isRegistered = true ∧
      ∀ sender, s'.pending.lookup xid ≠ some ⟨token, some sender⟩ := by
  rcases RegistryInv.reader_eq_or h with ⟨hsame, -⟩ | hmove
  · rw [hsame] at hserved
    obtain ⟨hregistered, hnone⟩ := hown.served token xid hserved
    refine ⟨hreg.stays_registered h hregistered, fun sender hentry => ?_⟩
    cases h.registryStep hreg.idle with
    | keep _ hpending | next _ _ _ hpending | done _ hpending =>
      rw [hpending] at hentry
      exact hnone sender hentry
    | register id hopen hclosed hphase hphase' hfree hpending =>
      rw [hpending] at hentry
      by_cases hxid : xid = (s.calls id).xid
      · rw [hxid, AList.lookup_insert] at hentry
        cases hentry
        rw [hphase] at hregistered
        cases hregistered
      · rw [AList.lookup_insert_ne hxid] at hentry
        exact hnone sender hentry
    | take xid' token' sender' hclosed htaken hpending =>
      rw [hpending] at hentry
      by_cases hxid : xid = xid'
      · rw [hxid, AList.lookup_insert] at hentry
        cases hentry
      · rw [AList.lookup_insert_ne hxid] at hentry
        exact hnone sender hentry
    | erase xid' hclosed hpending =>
      rw [hpending] at hentry
      by_cases hxid : xid = xid'
      · rw [hxid, AList.lookup_erase] at hentry
        cases hentry
      · rw [AList.lookup_erase_ne hxid] at hentry
        exact hnone sender hentry
    | fail party error hopen hclosed hpending =>
      rw [hpending, AList.lookup_empty] at hentry
      cases hentry
  · obtain ⟨hcases, hpending⟩ := served_cases hmove hserved
    rw [hpending]
    rcases hcases with hold | ⟨receive, hreader⟩ | hentry
    · obtain ⟨hregistered, hnone⟩ := hown.served token xid hold
      exact ⟨hreg.stays_registered h hregistered, hnone⟩
    · obtain ⟨hxid, hregistered, -⟩ := hreg.receiving token xid receive hreader
      refine ⟨hreg.stays_registered h hregistered, fun sender hentry => ?_⟩
      -- The sender would be in two places.
      have hone := hown.owner token hregistered
      have hheld : s.inRegistry token = 1 := by
        rw [inRegistry, hxid]
        exact Registry.held_of_lookup hentry
      have hreads : s.atReader token = 1 := by simp [atReader, hreader, ReaderPhase.holds]
      rw [owners, hheld, hreads] at hone
      omega
    · refine ⟨hreg.stays_registered h (hreg.entries _ _ hentry).2.1, fun sender hsome => ?_⟩
      rw [hentry] at hsome
      cases hsome

/-- After a step every registered call has exactly one owner of its sender. -/
theorem step_owner (hown : OwnerInv s) (hreg : RegistryInv s) (h : Moves cfg s action s') (id : ℕ)
    (hid : (s'.calls id).phase.isRegistered = true) : s'.owners id = 1 := by
  cases h with
  | admitCall hreleased hprepare =>
    have hne : id ≠ s.created := by
      rintro rfl
      simp only [Function.update_self] at hid
      cases hid
    simp only [Function.update_of_ne hne] at hid
    rw [← hown.owner id hid]
    exact owners_other rfl hne (fun _ => rfl)
      (inJob_congr rfl (by simp only [Function.update_of_ne hne])) (atReader_congr rfl id)
  | call hbusy h => exact owners_call hown hreg h id hid
  | reader hbusy hmove =>
    rw [hmove.phase_eq id] at hid
    exact owners_readerMoves hown hreg hmove id hid
  | @failNext job xid entry hjob hentry =>
    have hphase := update_eq (s := s) Call.phase
      (failCall_eq unanswering_phase (s.calls entry.token) job.error entry.sender) id
    simp only at hid
    rw [hphase] at hid
    exact owners_failNext hown hreg hjob hentry id hid
  | @failDone job hjob hempty =>
    rw [← hown.owner id hid]
    refine owners_congr rfl ?_ rfl rfl
    have hnone : job.remaining.lookup (s.calls id).xid = none := by
      rw [AList.lookup_eq_none, AList.mem_keys, AList.keys, hempty]
      exact List.not_mem_nil
    simp only [inJob, hjob, Registry.held_of_none hnone]
  | close hreleased =>
    simp only [fail_calls] at hid
    rw [← hown.owner id hid, ← owners_fail hreg (.closer s.closers.length) .connectionClosed id]
    rfl
  | poll | closeAbort | closeTake | release =>
    rw [← hown.owner id hid]
    rfl

/-- A step keeps the invariant. -/
theorem step (hown : OwnerInv s) (hreg : RegistryInv s) (h : Moves cfg s action s') :
    OwnerInv s' :=
  ⟨hown.step_owner hreg h, hown.step_served hreg h⟩

omit [ReplyReceiver R] in
/-- On a new connection no call is registered. -/
theorem initial (cfg : Config) : OwnerInv (Conn.initial cfg : Conn R) := by
  refine ⟨nofun, fun token xid hserved => ?_⟩
  rw [show (Conn.initial cfg : Conn R).reader = .nextRecord cfg from rfl,
    ReaderPhase.nextRecord_eq] at hserved
  cases hserved

/-- Every reachable state satisfies the invariant. -/
theorem of_reachable (h : Reachable cfg s) : OwnerInv s := by
  refine (h.invariant (fun s => RegistryInv s ∧ OwnerInv s)
    ⟨RegistryInv.initial cfg, OwnerInv.initial cfg⟩ ?_).2
  rintro t action u ⟨hreg, hown⟩ - hstep
  have hmove := moves_of_step hstep
  exact ⟨hreg.step hmove, hown.step hreg hmove⟩

end OwnerInv

end Conn

end OncRpc
