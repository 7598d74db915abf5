import OncRpc.Udp.Transport

/-!
# The registry of a datagram transport

`UdpMoves` says what a step can do.  From it follow the invariant `UdpClient.Registered`, which says
who holds the sender of a call, and the two facts about whole runs: a call that has ended stays as
it is, and a message in the channel of a call was matched with it while it was registered.

`udp_registry` puts these together.  A message is matched when the reader looks it up, not when it
receives the datagram: `udp_early_datagram` is a run in which a call gets a message that the reader
had received before the call was registered.
-/

namespace OncRpc

open Foundation

/-! ## What a step can do -/

/-- The call is registered, or its guard has still to look for its entry. -/
def UdpPhase.isRegistered : UdpPhase → Bool
  | .sending | .waiting | .ending _ => true
  | .absent | .entered | .ended _ => false

/-- How a call goes on by itself. -/
inductive UdpAdvances (call : UdpCall) : UdpPhase → Prop
  /-- It ends before it has registered. -/
  | leave (outcome : UdpOutcome) (h : call.phase = .entered)
    (hfailed : ∀ message, outcome ≠ some (.ok message)) : UdpAdvances call (.ended outcome)
  | sent (h : call.phase = .sending) : UdpAdvances call .waiting
  /-- Its outcome is decided; a message is the one in its channel. -/
  | decided (outcome : UdpOutcome) (h : call.phase = .sending ∨ call.phase = .waiting)
    (hchannel : ∀ message, outcome = some (.ok message) → call.channel = some (.ok message)) :
    UdpAdvances call (.ending outcome)

/-- What a step of one call does. -/
inductive UdpCallMoves (s : UdpClient) (id : ℕ) : UdpClient → Prop
  | advance {phase : UdpPhase} (h : UdpAdvances (s.calls id) phase) :
    UdpCallMoves s id (s.goto id phase)
  | register (h : (s.calls id).phase = .entered)
    (hfree : s.pending.lookup (s.calls id).request.xid = none) :
    UdpCallMoves s id { s.goto id .sending with
      pending := s.pending.insert (s.calls id).request.xid id }
  | unregister {outcome : UdpOutcome} (h : (s.calls id).phase = .ending outcome) :
    UdpCallMoves s id (s.unregister id outcome)

/-- What a step of the transport does. -/
inductive UdpMoves (s : UdpClient) : UdpClient → Prop
  | create (request : RpcMessage) (options : CallOptions) :
    UdpMoves s { s.put s.created ⟨request, options, .entered, none, false⟩ with
      created := s.created + 1 }
  | call (id : ℕ) {t : UdpClient} (h : UdpCallMoves s id t) : UdpMoves s t
  /-- The reader goes on without the registry and without holding a call. -/
  | read {reader : UdpReader} (h : ∀ id message, s.reader ≠ .found id message)
    (h' : ∀ remaining error, s.reader = .answering remaining error → remaining = ∅)
    (hfound : ∀ id message, reader ≠ .found id message)
    (hanswering : ∀ remaining error, reader ≠ .answering remaining error) :
    UdpMoves s { s with reader := reader }
  | lookup (id : ℕ) {message : RpcMessage} (h : s.reader = .decoded message)
    (hentry : s.pending.lookup message.xid = some id) :
    UdpMoves s { s with pending := s.pending.erase message.xid, reader := .found id message }
  | answer (id : ℕ) {message : RpcMessage} (h : s.reader = .found id message) :
    UdpMoves s { s.send id (.ok message) with reader := .receiving }
  | takeAll {error : RuntimeError} (h : s.reader = .failing error) :
    UdpMoves s { s with pending := ∅, reader := .answering s.pending error }
  | failNext (xid : Xid) (id : ℕ) {remaining : PendingMap} {error : RuntimeError}
    (h : s.reader = .answering remaining error) (hentry : remaining.lookup xid = some id) :
    UdpMoves s { s.send id (.error error) with reader := .answering (remaining.erase xid) error }

namespace UdpClient

variable {cfg : UdpConfig} {s t : UdpClient} {id : ℕ}

/-- A step of a call advances it, registers it or unregisters it. -/
theorem moves_of_callStep {action : UdpCallAction} (h : s.callStep cfg id action = some t) :
    UdpCallMoves s id t := by
  unfold callStep at h
  split at h
  · next hphase =>
    split_ifs at h
    cases h
    exact .advance (.leave _ hphase (by simp))
  · next hphase =>
    cases h
    unfold register
    rcases (s.calls id).request.encode with error | bytes
    · exact .advance (.leave _ hphase (by simp))
    · simp only
      split_ifs with hentry
      · exact .advance (.leave _ hphase (by simp))
      · exact .register hphase (Option.not_isSome_iff_eq_none.mp hentry)
  · next hphase =>
    cases h
    exact .advance (.leave _ hphase (by simp))
  · next hphase =>
    cases h
    exact .advance (.sent hphase)
  · next hphase =>
    cases h
    exact .advance (.decided _ (.inl hphase) (by simp))
  · next hphase =>
    obtain ⟨duration, -, rfl⟩ := Option.map_eq_some_iff.mp h
    exact .advance (.decided _ (.inl hphase) (by simp))
  · next hphase =>
    obtain ⟨result, hresult, rfl⟩ := Option.map_eq_some_iff.mp h
    refine .advance (.decided _ (.inr hphase) fun message hmessage => ?_)
    cases hmessage
    unfold received at hresult
    rcases hchannel : (s.calls id).channel with _ | value
    · simp only [hchannel] at hresult
      split_ifs at hresult
      cases hresult
    · simp only [hchannel] at hresult
      exact hresult
  · next hphase =>
    obtain ⟨error, -, rfl⟩ := Option.map_eq_some_iff.mp h
    exact .advance (.decided _ (.inl hphase) (by simp))
  · next hphase =>
    obtain ⟨error, -, rfl⟩ := Option.map_eq_some_iff.mp h
    exact .advance (.decided _ (.inr hphase) (by simp))
  · next hphase =>
    cases h
    exact .advance (.decided _ (.inl hphase) (by simp))
  · next hphase =>
    cases h
    exact .advance (.decided _ (.inr hphase) (by simp))
  · next hphase =>
    cases h
    exact .unregister hphase
  · cases h

/-- A step of the reader. -/
theorem moves_of_readerStep {action : UdpAction} (h : s.readerStep action = some t) :
    UdpMoves s t := by
  cases action with
  | datagram bytes =>
    rcases hreader : s.reader with _ | _ | _ | _ | _ | _ <;>
      simp only [readerStep, hreader] at h <;> cases h
    have hsame : UdpMoves s s :=
      @UdpMoves.read s s.reader (by simp [hreader]) (by simp [hreader]) (by simp [hreader])
        (by simp [hreader])
    unfold datagram
    split_ifs
    · exact hsame
    · split
      · exact hsame
      · exact .read (by simp [hreader]) (by simp [hreader]) (by simp) (by simp)
  | receiveError error =>
    rcases hreader : s.reader with _ | _ | _ | _ | _ | _ <;>
      simp only [readerStep, hreader] at h <;> cases h
    exact .read (by simp [hreader]) (by simp [hreader]) (by simp) (by simp)
  | lookup =>
    rcases hreader : s.reader with _ | message | _ | _ | _ | _ <;>
      simp only [readerStep, hreader] at h <;> try cases h
    rcases hentry : s.pending.lookup message.xid with _ | id <;> simp only [hentry] at h <;> cases h
    · exact .read (by simp [hreader]) (by simp [hreader]) (by simp) (by simp)
    · exact .lookup id hreader hentry
  | answer =>
    rcases hreader : s.reader with _ | _ | ⟨id, message⟩ | _ | _ | _ <;>
      simp only [readerStep, hreader] at h <;> cases h
    exact .answer id hreader
  | takeAll =>
    rcases hreader : s.reader with _ | _ | _ | error | _ | _ <;>
      simp only [readerStep, hreader] at h <;> cases h
    exact .takeAll hreader
  | failNext xid =>
    rcases hreader : s.reader with _ | _ | _ | _ | ⟨remaining, error⟩ | _ <;>
      simp only [readerStep, hreader] at h <;> try cases h
    obtain ⟨id, hentry, rfl⟩ := Option.map_eq_some_iff.mp h
    exact .failNext xid id hreader hentry
  | failDone =>
    rcases hreader : s.reader with _ | _ | _ | _ | ⟨remaining, error⟩ | _ <;>
      simp only [readerStep, hreader] at h <;> try cases h
    split_ifs at h with hempty
    cases h
    have hnil : remaining = ∅ := AList.ext (List.isEmpty_iff.mp hempty)
    refine .read (by simp [hreader]) (fun remaining' error' hanswering => ?_) (by simp) (by simp)
    rw [hreader] at hanswering
    cases hanswering
    exact hnil
  | abortReader =>
    rcases hreader : s.reader with _ | _ | _ | _ | _ | _ <;>
      simp only [readerStep, hreader] at h <;> cases h
    exact .read (by simp [hreader]) (by simp [hreader]) (by simp) (by simp)
  | call | step => cases h

/-- Every step is one of these. -/
theorem moves_of_step {action : UdpAction} (h : step cfg s action = some t) : UdpMoves s t := by
  cases action with
  | call request options =>
    cases h
    exact .create request options
  | step id action => exact .call id (moves_of_callStep h)
  | datagram | receiveError | lookup | answer | takeAll | failNext | failDone | abortReader =>
    simp only [step] at h
    exact moves_of_readerStep h

/-! ## Who holds a call -/

/-- The reader has taken the sender of a call out of the registry. -/
def ReaderHolds (s : UdpClient) (xid : Xid) (id : ℕ) : Prop :=
  (∃ message, s.reader = .found id message ∧ message.xid = xid) ∨
    ∃ remaining error, s.reader = .answering remaining error ∧ remaining.lookup xid = some id

/-- An entry of the registry belongs to a call in flight that has no answer; so does what the reader
has taken out.  An outcome that is a message is the value of the channel, under the call's own
transaction id. -/
structure Registered (s : UdpClient) : Prop where
  fresh : ∀ id, s.created ≤ id → (s.calls id).phase = .absent
  entry : ∀ xid id, s.pending.lookup xid = some id → (s.calls id).request.xid = xid ∧
    (s.calls id).channel = none ∧ (s.calls id).phase.isRegistered = true
  held : ∀ xid id, s.ReaderHolds xid id → (s.calls id).request.xid = xid ∧
    (s.calls id).channel = none ∧ s.pending.lookup xid ≠ some id ∧
    (s.calls id).phase ≠ .absent ∧ (s.calls id).phase ≠ .entered
  unsent : ∀ id, (s.calls id).phase = .absent ∨ (s.calls id).phase = .entered →
    (s.calls id).channel = none
  outcome : ∀ id message, (s.calls id).phase = .ending (some (.ok message)) ∨
    (s.calls id).phase = .ended (some (.ok message)) → (s.calls id).channel = some (.ok message)
  channel : ∀ id message, (s.calls id).channel = some (.ok message) →
    message.xid = (s.calls id).request.xid

/-- The invariant holds of a new client. -/
theorem Registered.initial : Registered initial where
  fresh _ _ := rfl
  entry xid id h := by
    rw [show UdpClient.initial.pending = ∅ from rfl, AList.lookup_empty] at h
    cases h
  held xid id h := by
    rcases h with ⟨message, h, -⟩ | ⟨remaining, error, h, -⟩ <;> cases h
  unsent _ _ := rfl
  outcome id message h := by
    rcases h with h | h <;> cases h
  channel id message h := by cases h

/-- A call in another phase than the first two exists. -/
theorem Registered.lt_created (h : Registered s) (hid : (s.calls id).phase ≠ .absent) :
    id < s.created := by
  by_contra hle
  exact hid (h.fresh id (Nat.le_of_not_lt hle))

/-- The call that is put is in its new state. -/
@[simp] theorem put_calls_self (s : UdpClient) (id : ℕ) (call : UdpCall) :
    (s.put id call).calls id = call := Function.update_self ..

/-- The other calls stay. -/
theorem put_calls_of_ne {other : ℕ} (hne : other ≠ id) (s : UdpClient) (call : UdpCall) :
    (s.put id call).calls other = s.calls other := Function.update_of_ne hne ..

/-- A call moves on to a later phase. -/
theorem Registered.put {call : UdpCall} (h : Registered s)
    (hlive : (s.calls id).phase ≠ .absent) (hrequest : call.request = (s.calls id).request)
    (hchannel : call.channel = (s.calls id).channel)
    (hlater : call.phase ≠ .absent ∧ call.phase ≠ .entered)
    (hentry : ∀ xid, s.pending.lookup xid = some id → call.phase.isRegistered = true)
    (houtcome : ∀ message, call.phase = .ending (some (.ok message)) ∨
      call.phase = .ended (some (.ok message)) → call.channel = some (.ok message)) :
    Registered (s.put id call) where
  fresh other hother := by
    have hne : other ≠ id := by
      have hlt := h.lt_created hlive
      rintro rfl
      exact absurd hlt (Nat.not_lt.mpr hother)
    rw [put_calls_of_ne hne]
    exact h.fresh other hother
  entry xid other hother := by
    obtain ⟨hxid, hnone, hphase⟩ := h.entry xid other hother
    by_cases hne : other = id
    · subst hne
      rw [put_calls_self, hrequest, hchannel]
      exact ⟨hxid, hnone, hentry xid hother⟩
    · rw [put_calls_of_ne hne]
      exact ⟨hxid, hnone, hphase⟩
  held xid other hother := by
    obtain ⟨hxid, hnone, hpending, habsent, hentered⟩ := h.held xid other hother
    by_cases hne : other = id
    · subst hne
      rw [put_calls_self, hrequest, hchannel]
      exact ⟨hxid, hnone, hpending, hlater⟩
    · rw [put_calls_of_ne hne]
      exact ⟨hxid, hnone, hpending, habsent, hentered⟩
  unsent other hother := by
    by_cases hne : other = id
    · subst hne
      rw [put_calls_self] at hother
      rcases hother with habsent | hentered
      · exact absurd habsent hlater.1
      · exact absurd hentered hlater.2
    · rw [put_calls_of_ne hne] at hother ⊢
      exact h.unsent other hother
  outcome other message hother := by
    by_cases hne : other = id
    · subst hne
      rw [put_calls_self] at hother ⊢
      exact houtcome message hother
    · rw [put_calls_of_ne hne] at hother ⊢
      exact h.outcome other message hother
  channel other message hother := by
    by_cases hne : other = id
    · subst hne
      rw [put_calls_self] at hother ⊢
      rw [hchannel] at hother
      rw [hrequest]
      exact h.channel other message hother
    · rw [put_calls_of_ne hne] at hother ⊢
      exact h.channel other message hother

/-- A new call. -/
theorem Registered.create (h : Registered s) (request : RpcMessage) (options : CallOptions) :
    Registered { s.put s.created ⟨request, options, .entered, none, false⟩ with
      created := s.created + 1 } := by
  have habsent : (s.calls s.created).phase = .absent := h.fresh _ (Nat.le_refl _)
  have hother : ∀ id, (s.calls id).phase ≠ .absent →
      (s.put s.created ⟨request, options, .entered, none, false⟩).calls id = s.calls id := by
    intro id hid
    refine put_calls_of_ne ?_ s _
    rintro rfl
    exact hid habsent
  refine ⟨fun id hid => ?_, fun xid id hid => ?_, fun xid id hid => ?_, fun id hid => ?_,
    fun id message hid => ?_, fun id message hid => ?_⟩
  · have hlt : s.created + 1 ≤ id := hid
    rw [show ({ s.put s.created ⟨request, options, .entered, none, false⟩ with
      created := s.created + 1 } : UdpClient).calls id = s.calls id from
        put_calls_of_ne (by omega) s _]
    exact h.fresh id (by omega)
  · obtain ⟨hxid, hnone, hphase⟩ := h.entry xid id hid
    have hne : (s.calls id).phase ≠ .absent := by
      intro habsent'
      rw [habsent'] at hphase
      cases hphase
    have heq := hother id hne
    simp only [heq]
    exact ⟨hxid, hnone, hphase⟩
  · obtain ⟨hxid, hnone, hpending, hne, hentered⟩ := h.held xid id hid
    have heq := hother id hne
    simp only [heq]
    exact ⟨hxid, hnone, hpending, hne, hentered⟩
  · by_cases hne : id = s.created
    · subst hne
      simp
    · have heq := put_calls_of_ne hne s ⟨request, options, .entered, none, false⟩
      simp only [heq] at hid ⊢
      exact h.unsent id hid
  · by_cases hne : id = s.created
    · subst hne
      simp at hid
    · have heq := put_calls_of_ne hne s ⟨request, options, .entered, none, false⟩
      simp only [heq] at hid ⊢
      exact h.outcome id message hid
  · by_cases hne : id = s.created
    · subst hne
      simp at hid
    · have heq := put_calls_of_ne hne s ⟨request, options, .entered, none, false⟩
      simp only [heq] at hid ⊢
      exact h.channel id message hid

/-- The registry loses entries and the reader takes over some of them. -/
theorem Registered.take {pending : PendingMap} {reader : UdpReader} (h : Registered s)
    (hpending : ∀ xid id, pending.lookup xid = some id → s.pending.lookup xid = some id)
    (hreader : ∀ xid id, ({ s with pending := pending, reader := reader } : UdpClient).ReaderHolds
      xid id → pending.lookup xid ≠ some id ∧
        (s.ReaderHolds xid id ∨ s.pending.lookup xid = some id)) :
    Registered { s with pending := pending, reader := reader } where
  fresh := h.fresh
  entry xid id hid := h.entry xid id (hpending xid id hid)
  held xid id hid := by
    obtain ⟨hfree, hheld | hentry⟩ := hreader xid id hid
    · obtain ⟨hxid, hnone, -, hphase⟩ := h.held xid id hheld
      exact ⟨hxid, hnone, hfree, hphase⟩
    · obtain ⟨hxid, hnone, hphase⟩ := h.entry xid id hentry
      refine ⟨hxid, hnone, hfree, ?_, ?_⟩ <;> intro heq <;>
        rw [show (s.calls id).phase = _ from heq] at hphase <;> cases hphase
  unsent := h.unsent
  outcome := h.outcome
  channel := h.channel

/-- The reader sends a value to a call that it holds and no longer holds it. -/
theorem Registered.send {reader : UdpReader} {xid : Xid} {result : Except RuntimeError RpcMessage}
    (h : Registered s) (hheld : s.ReaderHolds xid id)
    (hresult : ∀ message, result = .ok message → message.xid = xid)
    (hreader : ∀ xid' id', ({ s with reader := reader } : UdpClient).ReaderHolds xid' id' →
      s.ReaderHolds xid' id' ∧ xid' ≠ xid) :
    Registered { s.send id result with reader := reader } := by
  obtain ⟨hxid, hnone, hfree, habsent, hentered⟩ := h.held xid id hheld
  -- Other calls keep everything; this one gets a value that nobody else refers to.
  have hother : ∀ other, other ≠ id → (s.send id result).calls other = s.calls other :=
    fun other hne => put_calls_of_ne hne s _
  have hself : (s.send id result).calls id = { s.calls id with channel := some result } :=
    put_calls_self s id _
  have hne_of_xid : ∀ other, (s.calls other).request.xid ≠ xid → other ≠ id := by
    rintro other hne rfl
    exact hne hxid
  refine ⟨fun other hle => ?_, fun xid' other hentry => ?_, fun xid' other hholds => ?_,
    fun other hphase => ?_, fun other message hphase => ?_, fun other message hchannel => ?_⟩
  · have hne : other ≠ id := by
      rintro rfl
      exact habsent (h.fresh other hle)
    simp only [hother other hne]
    exact h.fresh other hle
  · obtain ⟨hxid', hnone', hphase'⟩ := h.entry xid' other hentry
    have hne : other ≠ id := by
      rintro rfl
      rw [hxid] at hxid'
      rw [hxid'] at hfree
      exact hfree hentry
    simp only [hother other hne]
    exact ⟨hxid', hnone', hphase'⟩
  · obtain ⟨hheld', hne'⟩ := hreader xid' other hholds
    obtain ⟨hxid', hnone', hfree', hphase'⟩ := h.held xid' other hheld'
    have hne := hne_of_xid other (by rw [hxid']; exact hne')
    simp only [hother other hne]
    exact ⟨hxid', hnone', hfree', hphase'⟩
  · by_cases hne : other = id
    · subst hne
      simp only [hself] at hphase
      rcases hphase with h1 | h1
      · exact absurd h1 habsent
      · exact absurd h1 hentered
    · simp only [hother other hne] at hphase ⊢
      exact h.unsent other hphase
  · by_cases hne : other = id
    · subst hne
      simp only [hself] at hphase
      rw [h.outcome other message hphase] at hnone
      cases hnone
    · simp only [hother other hne] at hphase ⊢
      exact h.outcome other message hphase
  · by_cases hne : other = id
    · subst hne
      simp only [hself, Option.some.injEq] at hchannel ⊢
      rw [hresult message hchannel, hxid]
    · simp only [hother other hne] at hchannel ⊢
      exact h.channel other message hchannel

/-- A call puts itself into the registry. -/
theorem Registered.insert {xid : Xid} (h : Registered s) (hxid : (s.calls id).request.xid = xid)
    (hnone : (s.calls id).channel = none) (hphase : (s.calls id).phase.isRegistered = true)
    (hheld : ∀ xid', ¬ s.ReaderHolds xid' id) :
    Registered { s with pending := s.pending.insert xid id } where
  fresh := h.fresh
  entry xid' other hother := by
    by_cases heq : xid' = xid
    · rw [heq, AList.lookup_insert] at hother
      cases hother
      exact ⟨hxid.trans heq.symm, hnone, hphase⟩
    · rw [AList.lookup_insert_ne heq] at hother
      exact h.entry xid' other hother
  held xid' other hother := by
    obtain ⟨hxid', hnone', hfree', hphase'⟩ := h.held xid' other hother
    refine ⟨hxid', hnone', fun hentry => ?_, hphase'⟩
    by_cases heq : xid' = xid
    · rw [heq, AList.lookup_insert] at hentry
      cases hentry
      exact hheld xid' hother
    · rw [AList.lookup_insert_ne heq] at hentry
      exact hfree' hentry
  unsent := h.unsent
  outcome := h.outcome
  channel := h.channel

/-- What a step of a call keeps. -/
theorem Registered.call (h : Registered s) (hmove : UdpCallMoves s id t) : Registered t := by
  cases hmove with
  | advance hadvance =>
    cases hadvance with
    | leave outcome hphase hfailed =>
      refine h.put (by rw [hphase]; simp) rfl rfl ⟨by simp, by simp⟩ (fun xid hentry => ?_) ?_
      · have hregistered := (h.entry xid id hentry).2.2
        rw [hphase] at hregistered
        cases hregistered
      · rintro message (hok | hok)
        · cases hok
        · cases hok
          exact absurd rfl (hfailed message)
    | sent hphase =>
      refine h.put (by rw [hphase]; simp) rfl rfl ⟨by simp, by simp⟩ (fun _ _ => rfl) ?_
      rintro message (hok | hok) <;> cases hok
    | decided outcome hphase hchannel =>
      refine h.put ?_ rfl rfl ⟨by simp, by simp⟩ (fun _ _ => rfl) ?_
      · rcases hphase with hphase | hphase <;> rw [hphase] <;> simp
      · rintro message (hok | hok)
        · cases hok
          exact hchannel message rfl
        · cases hok
  | register hphase hfree =>
    have hgoto : Registered (s.goto id .sending) := by
      refine h.put (by rw [hphase]; simp) rfl rfl ⟨by simp, by simp⟩ (fun _ _ => rfl) ?_
      rintro message (hok | hok) <;> cases hok
    have hself : (s.goto id .sending).calls id = { s.calls id with phase := .sending } :=
      put_calls_self s id _
    refine hgoto.insert (by rw [hself]) ?_ (by rw [hself]; rfl) fun xid' hholds => ?_
    · rw [hself]
      exact h.unsent id (.inr hphase)
    · exact (h.held xid' id hholds).2.2.2.2 hphase
  | @unregister outcome hphase =>
    have hlive : (s.calls id).phase ≠ .absent := by rw [hphase]; simp
    have houtcome : ∀ message, UdpPhase.ended outcome = .ending (some (.ok message)) ∨
        UdpPhase.ended outcome = .ended (some (.ok message)) →
        (s.calls id).channel = some (.ok message) := by
      rintro message (hok | hok)
      · cases hok
      · cases hok
        exact h.outcome id message (.inl hphase)
    unfold unregister
    simp only
    split_ifs with hown
    · have htaken : Registered { s with pending := s.pending.erase (s.calls id).request.xid } := by
        refine h.take (fun xid other hother => ?_) fun xid other hholds => ?_
        · by_cases heq : xid = (s.calls id).request.xid
          · rw [heq, AList.lookup_erase] at hother
            cases hother
          · rwa [AList.lookup_erase_ne heq] at hother
        · refine ⟨fun hentry => ?_, .inl hholds⟩
          by_cases heq : xid = (s.calls id).request.xid
          · rw [heq, AList.lookup_erase] at hentry
            cases hentry
          · rw [AList.lookup_erase_ne heq] at hentry
            exact (h.held xid other hholds).2.2.1 hentry
      refine htaken.put hlive rfl rfl ⟨by simp, by simp⟩ (fun xid hentry => ?_) houtcome
      have hxid := (htaken.entry xid id hentry).1
      rw [← hxid, AList.lookup_erase] at hentry
      cases hentry
    · refine h.put hlive rfl rfl ⟨by simp, by simp⟩ (fun xid hentry => ?_) houtcome
      have hxid := (h.entry xid id hentry).1
      rw [← hxid] at hentry
      exact absurd hentry hown

/-- What a step keeps. -/
theorem Registered.move (h : Registered s) (hmove : UdpMoves s t) : Registered t := by
  cases hmove with
  | create request options => exact h.create request options
  | call id hcall => exact h.call hcall
  | read hfound hanswering hfound' hanswering' =>
    refine h.take (fun _ _ hid => hid) fun xid id hholds => ?_
    rcases hholds with ⟨message, hreader, -⟩ | ⟨remaining, error, hreader, -⟩
    · exact absurd hreader (hfound' id message)
    · exact absurd hreader (hanswering' remaining error)
  | @lookup id message hreader hentry =>
    refine h.take (fun xid other hother => ?_) fun xid other hholds => ?_
    · by_cases heq : xid = message.xid
      · rw [heq, AList.lookup_erase] at hother
        cases hother
      · rwa [AList.lookup_erase_ne heq] at hother
    · rcases hholds with ⟨message', hreader', rfl⟩ | ⟨remaining, error, hreader', -⟩
      · cases hreader'
        exact ⟨by rw [AList.lookup_erase]; simp, .inr hentry⟩
      · cases hreader'
  | @answer id message hreader =>
    refine h.send (.inl ⟨message, hreader, rfl⟩) (fun message' hok => ?_) fun xid' id' hholds => ?_
    · cases hok
      rfl
    · rcases hholds with ⟨message', hreader', -⟩ | ⟨remaining, error, hreader', -⟩ <;>
        cases hreader'
  | @takeAll error hreader =>
    refine h.take (fun xid other hother => ?_) fun xid other hholds => ?_
    · rw [AList.lookup_empty] at hother
      cases hother
    · refine ⟨by rw [AList.lookup_empty]; simp, .inr ?_⟩
      rcases hholds with ⟨message, hreader', -⟩ | ⟨remaining, error, hreader', hentry⟩
      · cases hreader'
      · cases hreader'
        exact hentry
  | @failNext xid id remaining error hreader hentry =>
    refine h.send (.inr ⟨remaining, error, hreader, hentry⟩) (by simp) fun xid' id' hholds => ?_
    rcases hholds with ⟨message, hreader', -⟩ | ⟨remaining', error', hreader', hentry'⟩
    · cases hreader'
    · cases hreader'
      by_cases heq : xid' = xid
      · rw [heq, AList.lookup_erase] at hentry'
        cases hentry'
      · rw [AList.lookup_erase_ne heq] at hentry'
        exact ⟨.inr ⟨remaining, error, hreader, hentry'⟩, heq⟩

/-- The invariant holds in every run. -/
theorem Registered.of_runs (h : Runs (step cfg) (fun _ _ => True) UdpClient.initial s) :
    Registered s :=
  h.invariant Registered .initial fun hu _ hstep => hu.move (moves_of_step hstep)

/-! ## Calls that have ended -/

/-- A step of one call leaves the others, the reader and all channels alone. -/
theorem keeps_of_callMoves (h : UdpCallMoves s id t) :
    t.reader = s.reader ∧ (∀ other, other ≠ id → t.calls other = s.calls other) ∧
      (t.calls id).channel = (s.calls id).channel := by
  cases h with
  | advance hadvance =>
    exact ⟨rfl, fun other hne => put_calls_of_ne hne s _, by rw [goto, put_calls_self]⟩
  | register hphase hfree =>
    exact ⟨rfl, fun other hne => put_calls_of_ne hne s _, by simp [goto]⟩
  | unregister hphase =>
    unfold unregister
    simp only
    split_ifs
    · exact ⟨rfl, fun other hne => put_calls_of_ne hne s _, by simp⟩
    · exact ⟨rfl, fun other hne => put_calls_of_ne hne s _, by rw [goto, put_calls_self]⟩

/-- A call that has ended takes no step. -/
theorem not_ended_of_callMoves {outcome : UdpOutcome} (h : UdpCallMoves s id t) :
    (s.calls id).phase ≠ .ended outcome := by
  intro hended
  cases h with
  | advance hadvance =>
    cases hadvance with
    | leave _ hphase => rw [hphase] at hended; cases hended
    | sent hphase => rw [hphase] at hended; cases hended
    | decided _ hphase =>
      rcases hphase with hphase | hphase <;> rw [hphase] at hended <;> cases hended
  | register hphase => rw [hphase] at hended; cases hended
  | unregister hphase => rw [hphase] at hended; cases hended

/-- A value in a channel leaves the phase of its call alone. -/
theorem send_phase (s : UdpClient) (id other : ℕ) (result : Except RuntimeError RpcMessage) :
    ((s.send id result).calls other).phase = (s.calls other).phase := by
  unfold send
  by_cases hne : other = id
  · subst hne
    rw [put_calls_self]
  · rw [put_calls_of_ne hne]

/-- An outcome stays. -/
theorem ended_move {outcome : UdpOutcome} (hinv : Registered s) (hmove : UdpMoves s t)
    (h : (s.calls id).phase = .ended outcome) : (t.calls id).phase = .ended outcome := by
  cases hmove with
  | create request options =>
    have hne : id ≠ s.created := by
      rintro rfl
      rw [hinv.fresh _ (Nat.le_refl _)] at h
      cases h
    have heq := put_calls_of_ne hne s ⟨request, options, .entered, none, false⟩
    simpa only [heq] using h
  | call other hcall =>
    have hne : id ≠ other := by
      rintro rfl
      exact not_ended_of_callMoves hcall h
    rw [(keeps_of_callMoves hcall).2.1 id hne]
    exact h
  | read | lookup | takeAll => exact h
  | answer other hreader => exact (send_phase s other id _).trans h
  | failNext xid other hreader hentry => exact (send_phase s other id _).trans h

/-- A call that has ended stays so with its outcome. -/
theorem ended_of_runs {outcome : UdpOutcome} (hinv : Registered s)
    (h : (s.calls id).phase = .ended outcome) (hruns : Runs (step cfg) (fun _ _ => True) s t) :
    (t.calls id).phase = .ended outcome := by
  have hboth : Registered t ∧ (t.calls id).phase = .ended outcome :=
    hruns.invariant (fun u => Registered u ∧ (u.calls id).phase = .ended outcome) ⟨hinv, h⟩
      fun hu _ hstep =>
        ⟨hu.1.move (moves_of_step hstep), ended_move hu.1 (moves_of_step hstep) hu.2⟩
  exact hboth.2

/-! ## Where a message comes from -/

/-- The reader looks a message up and finds the call registered under its transaction id. -/
def Matches (id : ℕ) (message : RpcMessage) (u : UdpClient) (_ : UdpAction) (v : UdpClient) :
    Prop :=
  u.reader = .decoded message ∧ u.pending.lookup message.xid = some id ∧
    v.reader = .found id message

/-- The messages that the reader has for a call and that are in its channel were matched with it. -/
structure Matched (cfg : UdpConfig) (actions : List UdpAction) (s : UdpClient) : Prop where
  found : ∀ id message, s.reader = .found id message →
    Happened (step cfg) UdpClient.initial actions (Matches id message)
  channel : ∀ id message, (s.calls id).channel = some (.ok message) →
    Happened (step cfg) UdpClient.initial actions (Matches id message)

/-- What a step adds to the history. -/
theorem Matched.step {actions : List UdpAction} {action : UdpAction}
    (htrace : Trace (step cfg) (fun _ _ => True) UdpClient.initial actions s)
    (h : Matched cfg actions s) (hstep : UdpClient.step cfg s action = some t) :
    Matched cfg (actions ++ [action]) t := by
  have hfound : ∀ id message, s.reader = .found id message →
      Happened (UdpClient.step cfg) UdpClient.initial (actions ++ [action]) (Matches id message) :=
    fun id message hreader => (h.found id message hreader).snoc action
  have hchannel : ∀ id message, (s.calls id).channel = some (.ok message) →
      Happened (UdpClient.step cfg) UdpClient.initial (actions ++ [action]) (Matches id message) :=
    fun id message hsent => (h.channel id message hsent).snoc action
  have hmove := moves_of_step hstep
  cases hmove with
  | create request options =>
    refine ⟨hfound, fun id message hsent => ?_⟩
    by_cases hne : id = s.created
    · subst hne
      simp at hsent
    · have heq := put_calls_of_ne hne s ⟨request, options, .entered, none, false⟩
      simp only [heq] at hsent
      exact hchannel id message hsent
  | call other hcall =>
    obtain ⟨hreader, hcalls, hown⟩ := keeps_of_callMoves hcall
    refine ⟨fun id message hid => hfound id message (hreader ▸ hid), fun id message hsent => ?_⟩
    by_cases hne : id = other
    · subst hne
      exact hchannel id message (hown ▸ hsent)
    · rw [hcalls id hne] at hsent
      exact hchannel id message hsent
  | read _ _ hnot => exact ⟨fun id message hid => absurd hid (hnot id message), hchannel⟩
  | @lookup other message hreader hentry =>
    refine ⟨fun id message' hid => ?_, hchannel⟩
    cases hid
    exact Happened.last htrace hstep ⟨hreader, hentry, rfl⟩
  | @answer other message hreader =>
    refine ⟨(by simp), fun id message' hsent => ?_⟩
    by_cases hne : id = other
    · subst hne
      have hself := put_calls_self s id { s.calls id with channel := some (.ok message) }
      simp only [send, hself, Option.some.injEq, Except.ok.injEq] at hsent
      rw [← hsent]
      exact hfound id message hreader
    · have heq := put_calls_of_ne hne s { s.calls other with channel := some (.ok message) }
      simp only [send, heq] at hsent
      exact hchannel id message' hsent
  | takeAll => exact ⟨(by simp), hchannel⟩
  | @failNext xid other remaining error hreader hentry =>
    refine ⟨(by simp), fun id message hsent => ?_⟩
    by_cases hne : id = other
    · subst hne
      simp [send] at hsent
    · have heq := put_calls_of_ne hne s { s.calls other with channel := some (.error error) }
      simp only [send, heq] at hsent
      exact hchannel id message hsent

/-- Every outcome is matched by a datagram of the run. -/
theorem Matched.of_trace {actions : List UdpAction}
    (h : Trace (UdpClient.step cfg) (fun _ _ => True) UdpClient.initial actions s) :
    Matched cfg actions s := by
  induction h with
  | nil => exact ⟨by intros; contradiction, by intros; contradiction⟩
  | snoc htrace _ hstep ih => exact ih.step htrace hstep

/-- A step of one call leaves the entries of the others in the registry. -/
theorem lookup_of_callMoves {xid : Xid} {other : ℕ} (h : UdpCallMoves s id t) (hne : other ≠ id)
    (hentry : s.pending.lookup xid = some other) : t.pending.lookup xid = some other := by
  cases h with
  | advance => exact hentry
  | register hphase hfree =>
    have hxid : xid ≠ (s.calls id).request.xid := by
      rintro rfl
      rw [hfree] at hentry
      cases hentry
    exact (AList.lookup_insert_ne hxid).trans hentry
  | unregister hphase =>
    unfold unregister
    simp only
    split_ifs with hown
    · have hxid : xid ≠ (s.calls id).request.xid := by
        rintro rfl
        rw [hown] at hentry
        exact hne (Option.some.inj hentry).symm
      exact (AList.lookup_erase_ne hxid).trans hentry
    · exact hentry

end UdpClient

/-! ## The registry -/

/-- On every run: a call that has ended has no entry in the registry and keeps its outcome; if the
outcome is a message, it has the call's own transaction id and the reader looked it up while the
call was registered.  No step of a call removes the entry of another one, and a malformed datagram
changes nothing. -/
theorem udp_registry {cfg : UdpConfig} {actions : List UdpAction} {s : UdpClient}
    (h : Trace (UdpClient.step cfg) (fun _ _ => True) .initial actions s) :
    (∀ id outcome, (s.calls id).phase = .ended outcome →
      (∀ message, outcome = some (.ok message) → message.xid = (s.calls id).request.xid ∧
        Happened (UdpClient.step cfg) .initial actions (UdpClient.Matches id message)) ∧
      (∀ xid, s.pending.lookup xid ≠ some id) ∧
      ∀ t, Runs (UdpClient.step cfg) (fun _ _ => True) s t →
        (t.calls id).phase = .ended outcome) ∧
    (∀ id action t, UdpClient.step cfg s (.step id action) = some t → ∀ xid other, other ≠ id →
      s.pending.lookup xid = some other → t.pending.lookup xid = some other) ∧
    ∀ bytes t, (∀ message, RpcMessage.decode (bytes.take UdpClient.bufferSize) ≠ .ok message) →
      UdpClient.step cfg s (.datagram bytes) = some t → t = s := by
  have hinv := UdpClient.Registered.of_runs h.runs
  refine ⟨fun id outcome hended => ⟨fun message hmessage => ?_, fun xid hentry => ?_,
    fun t hruns => UdpClient.ended_of_runs hinv hended hruns⟩, fun id action t hstep xid other hne
    hentry => ?_, fun bytes t hmalformed hstep => ?_⟩
  · rw [hmessage] at hended
    have hchannel := hinv.outcome id message (.inr hended)
    exact ⟨hinv.channel id message hchannel,
      (UdpClient.Matched.of_trace h).channel id message hchannel⟩
  · have hregistered := (hinv.entry xid id hentry).2.2
    rw [hended] at hregistered
    cases hregistered
  · exact UdpClient.lookup_of_callMoves (UdpClient.moves_of_callStep hstep) hne hentry
  · simp only [UdpClient.step, UdpClient.readerStep] at hstep
    split at hstep
    · cases hstep
      unfold UdpClient.datagram
      split_ifs
      · rfl
      · split
        · rfl
        · next message hdecode => exact absurd hdecode (hmalformed message)
    · cases hstep

/-! ## A datagram before the call -/

/-- The reader receives a message while the call is registered under its transaction id. -/
def UdpClient.Arrives (id : ℕ) (message : RpcMessage) (u : UdpClient) (action : UdpAction)
    (v : UdpClient) : Prop :=
  ∃ bytes, action = .datagram bytes ∧ v.reader = .decoded message ∧
    u.pending.lookup message.xid = some id

/-- A reply to a call with transaction id 7, and its datagram. -/
def earlyReply : RpcMessage := ⟨7, .reply (.accepted ⟨.none, .success []⟩)⟩

/-- The reader receives the reply; a call with its transaction id registers; the reader looks the
reply up. -/
def earlySteps : List UdpAction :=
  [.datagram [0, 0, 0, 7, 0, 0, 0, 1, 0, 0, 0, 0, 0, 0, 0, 0, 0, 0, 0, 0, 0, 0, 0, 0],
    .call ⟨7, .call ⟨2, ⟨3, 1⟩, 0, .none, .none, []⟩⟩ ⟨false, .none⟩, .step 0 .register, .lookup,
    .answer, .step 0 (.sent (.ok ())), .step 0 .receive, .step 0 .unregister]

/-- A run in which the datagram arrives before the call waits for it. -/
theorem exists_early_run :
    ∃ s, Trace (UdpClient.step ⟨none, none⟩) (fun _ _ => True) .initial earlySteps s ∧
      (s.calls 0).phase = .ended (some (.ok earlyReply)) :=
  @Trace.exists_of_runList _ _ _ _ _ (fun _ _ => true) _ _ _ _ (fun _ _ _ => trivial)
    (by decide +kernel)

/-- A call can end with a message that the reader received before the call was registered. -/
theorem udp_early_datagram :
    ∃ s, Trace (UdpClient.step ⟨none, none⟩) (fun _ _ => True) .initial earlySteps s ∧
      (s.calls 0).phase = .ended (some (.ok earlyReply)) ∧
      ¬ Happened (UdpClient.step ⟨none, none⟩) .initial earlySteps
        (UdpClient.Arrives 0 earlyReply) := by
  obtain ⟨s, htrace, hended⟩ := exists_early_run
  refine ⟨s, htrace, hended, ?_⟩
  rintro ⟨before, action, after, u, v, hsplit, hbefore, -, bytes, rfl, -, hentry⟩
  rcases before with _ | ⟨first, before⟩
  · -- The only datagram comes first, when nobody is registered.
    have hu : u = .initial := hbefore.unique (.nil : Trace _ (fun _ _ => True) _ [] _)
    rw [hu, show UdpClient.initial.pending = ∅ from rfl, AList.lookup_empty] at hentry
    cases hentry
  · have hmem : UdpAction.datagram bytes ∈ earlySteps.tail := by
      rw [hsplit]
      simp
    simp [earlySteps] at hmem

/-- The call of that run has the message it was matched with, and its entry is gone. -/
theorem udp_registry_early :
    ∃ s : UdpClient, (s.calls 0).phase = .ended (some (.ok earlyReply)) ∧
      Happened (UdpClient.step ⟨none, none⟩) .initial earlySteps
        (UdpClient.Matches 0 earlyReply) ∧ s.pending.lookup 7 ≠ some 0 := by
  obtain ⟨s, htrace, hended⟩ := exists_early_run
  obtain ⟨hmessage, hgone, -⟩ := (udp_registry htrace).1 0 _ hended
  exact ⟨s, hended, (hmessage earlyReply rfl).2, hgone 7⟩

end OncRpc
