import OncRpc.Foundation.Notify
import OncRpc.Runtime.Admission
import OncRpc.Owned.Connection

/-!
# The wait loops of the runtime

Four loops wait for a change of shared state by registering with a `Notify`, checking, and parking:
for room under the admission limits, for the stop of a call, for the end of a connection, and for a
cancellation.  Each is given by what it checks and by the updates of the state it looks at, with the
updates whose tasks call `notify_waiters` next; the order of registering, checking and parking, and
that of updating and notifying, is that of `Foundation.WaitProtocol`.

`no_lost_wakeup` says of each of them, for any number of waiters and changers and every
interleaving, that a parked waiter is notified, waits for something that has not happened, or is
about to be notified.
-/

namespace OncRpc

open Foundation

/-! ## The loops -/

/-- A waiter for capacity returns unless the connection is at capacity. -/
def AdmissionState.readiness (s : AdmissionState) (bytes : ℕ) :
    Option (Except AdmissionError Unit) :=
  match s.check bytes with
  | .ok () => some (.ok ())
  | .error .atCapacity => none
  | .error error => some (.error error)

/-- The tasks that drop a permit or close the admission notify the waiters; those that acquire a
permit do not. -/
def AdmissionAction.notifies : AdmissionAction → Bool
  | .acquire _ => false
  | .drop _ | .close => true

/-- Wait until a request of a given weight may be admitted. -/
def Admission.waitForCapacity :
    WaitProtocol Admission ℕ (Except AdmissionError Unit) AdmissionAction where
  check a bytes := a.state.readiness bytes
  update a action := (a.step action).map (·, action.notifies)

/-- What decides a call. -/
inductive ControlUpdate where
  | stop (error : RuntimeError)
  | finish (result : Except RuntimeError Unit)

/-- Wait until a call is stopped.  Only the stop that records its error notifies. -/
def CallControl.stopped : WaitProtocol CallControl Unit RuntimeError ControlUpdate where
  check control _ := control.error
  update control
    | .stop error => some (control.stop error, control.terminal.isNone)
    | .finish result => some ((control.finish result).1, false)

/-- The critical section of a failing connection: the first error stays. -/
def failClosed (closed : Option RuntimeError) (error : RuntimeError) : Option RuntimeError :=
  if closed.isSome then closed else some error

/-- Wait until a connection is closed.  The task that closes it notifies, once it has failed the
pending calls. -/
def OwnedRpcTransport.waitClosed :
    WaitProtocol (Option RuntimeError) Unit Unit RuntimeError where
  check closed _ := if closed.isSome then some () else none
  update closed error := some (failClosed closed error, closed.isNone)

/-- A request to cancel local processing. -/
structure CallCancellation where
  isCancelled : Bool

/-- Wait until a cancellation is requested.  Only the first request notifies. -/
def CallCancellation.cancelled : WaitProtocol CallCancellation Unit Unit Unit where
  check token _ := if token.isCancelled then some () else none
  update token _ := some (⟨true⟩, !token.isCancelled)

/-- The connection fails as its closed state does. -/
theorem Conn.fail_closed {R : Type} (s : Conn R) (party : Party) (error : RuntimeError) :
    (s.fail party error).closed = failClosed s.closed error := by
  unfold Conn.fail failClosed
  split_ifs <;> rfl

/-! ## Only announced updates end a wait -/

/-- A state has capacity for a waiter exactly if its check does not fail for lack of it. -/
theorem AdmissionState.readiness_isSome {s : AdmissionState} {bytes : ℕ} :
    (s.readiness bytes).isSome = true ↔ s.check bytes ≠ .error .atCapacity := by
  unfold readiness
  rcases s.check bytes with (_ | _ | _ | _ | _) | ⟨⟩ <;> simp

/-- An acquired permit leaves no more capacity than there was. -/
theorem AdmissionState.readiness_of_tryAcquire {s : AdmissionState} {bytes weight : ℕ}
    (h : ((s.tryAcquire weight).2.readiness bytes).isSome = true) :
    (s.readiness bytes).isSome = true := by
  unfold tryAcquire at h
  rcases hcheck : s.check weight with error | ⟨⟩
  · simpa only [hcheck] using h
  · obtain ⟨hopen, hcalls, hbytes⟩ := fits_of_check hcheck
    simp only [hcheck] at h
    rw [readiness_isSome] at h ⊢
    intro hfull
    apply h
    have hmaxCalls := s.limits.calls_le
    have hmaxBytes := s.limits.bytes_le
    have hcalls' : wrappingAdd s.calls 1 = s.calls + 1 := wrappingAdd_eq (by omega)
    have hbytes' : wrappingAdd s.bytes weight = s.bytes + weight := wrappingAdd_eq (by omega)
    rw [check_of_open hopen] at hfull
    rw [check_of_open (show ({ s with
      calls := wrappingAdd s.calls 1, bytes := wrappingAdd s.bytes weight } :
        AdmissionState).closed = false from hopen)]
    split_ifs at hfull with hlarge hroom
    · cases hfull
    · rw [if_neg hlarge, if_pos]
      simp only [hcalls', hbytes']
      omega

theorem Admission.waitForCapacity_announced : Admission.waitForCapacity.Announced := by
  intro a action b bytes hupdate hready
  obtain ⟨c, hstep, hpair⟩ := Option.map_eq_some_iff.mp hupdate
  obtain ⟨rfl, hquiet⟩ := Prod.mk.inj hpair
  rcases action with weight | index | _
  · -- Only an attempt to acquire is not announced.
    have hc : c.state = (a.state.tryAcquire weight).2 := by
      cases hstep
      unfold Admission.acquire
      split <;> next heq => rw [heq]
    have hready' : (c.state.readiness bytes).isSome = true := hready
    rw [hc] at hready'
    exact AdmissionState.readiness_of_tryAcquire hready'
  · cases hquiet
  · cases hquiet

theorem CallControl.stopped_announced : CallControl.stopped.Announced := by
  intro control update control' _ hupdate herror
  rcases update with error | result
  · obtain ⟨rfl, hquiet⟩ := Prod.mk.inj (Option.some.inj hupdate)
    have hdecided : control.terminal.isSome = true := by simpa using hquiet
    obtain ⟨decision, hdecision⟩ := Option.isSome_iff_exists.mp hdecided
    have hsame : control.stop error = control := stop_of_some hdecision error
    have herror' : (control.stop error).error.isSome := herror
    rwa [hsame] at herror'
  · obtain ⟨rfl, -⟩ := Prod.mk.inj (Option.some.inj hupdate)
    have herror' : (control.finish result).1.error.isSome := herror
    rcases hcontrol : control.error with _ | error
    · rw [finish_of_not_error hcontrol] at herror'
      cases herror'
    · exact congrArg Option.isSome hcontrol

theorem OwnedRpcTransport.waitClosed_announced : OwnedRpcTransport.waitClosed.Announced := by
  intro closed error closed' _ hupdate hclosed
  obtain ⟨rfl, hquiet⟩ := Prod.mk.inj (Option.some.inj hupdate)
  have hsome : closed.isSome = true := by simpa using hquiet
  simp [waitClosed, hsome]

theorem CallCancellation.cancelled_announced : CallCancellation.cancelled.Announced := by
  intro token _ token' _ hupdate _
  obtain ⟨rfl, hquiet⟩ := Prod.mk.inj (Option.some.inj hupdate)
  have hset : token.isCancelled = true := by simpa using hquiet
  simp [cancelled, hset]

/-! ## No wake-up is lost -/

/-- In every state of every interleaving of each of the four loops, a parked waiter that has not
been notified waits for something that has not happened, unless a changer is between its update and
its call of `notify_waiters`. -/
theorem no_lost_wakeup :
    (∀ a s, Admission.waitForCapacity.Reachable a s → Admission.waitForCapacity.Waits s) ∧
    (∀ control s, CallControl.stopped.Reachable control s → CallControl.stopped.Waits s) ∧
    (∀ closed s, OwnedRpcTransport.waitClosed.Reachable closed s →
      OwnedRpcTransport.waitClosed.Waits s) ∧
    ∀ token s, CallCancellation.cancelled.Reachable token s → CallCancellation.cancelled.Waits s :=
      by
  refine ⟨fun a s h => ?_, fun control s h => ?_, fun closed s h => ?_, fun token s h => ?_⟩
  · exact WaitProtocol.waits_of_runs Admission.waitForCapacity_announced h
  · exact WaitProtocol.waits_of_runs CallControl.stopped_announced h
  · exact WaitProtocol.waits_of_runs OwnedRpcTransport.waitClosed_announced h
  · exact WaitProtocol.waits_of_runs CallCancellation.cancelled_announced h

/-- A waiter has parked when the cancellation is requested; the requester still owes it the
notification. -/
theorem no_lost_wakeup_parked :
    ∃ s, CallCancellation.cancelled.Reachable ⟨false⟩ s ∧ s.waiters 0 = .parked () false ∧
      s.shared.isCancelled = true ∧ ∃ c, s.owing c = true := by
  obtain ⟨s, htrace, hview⟩ := @Trace.exists_of_runList _ _ CallCancellation.cancelled.step
    (fun _ _ => True) (.start ⟨false⟩) (fun _ _ => true) [.call 0 (), .enable 0, .check 0,
      .update 0 ()] _ (fun s => (s.waiters 0, s.shared.isCancelled)) (.parked () false, true)
    (fun _ _ _ => trivial) (by decide)
  obtain ⟨hparked, hset⟩ := Prod.mk.inj hview
  refine ⟨s, htrace.runs, hparked, hset, ?_⟩
  refine no_lost_wakeup.2.2.2 ⟨false⟩ s htrace.runs 0 () hparked ?_
  simp [CallCancellation.cancelled, hset]

end OncRpc
