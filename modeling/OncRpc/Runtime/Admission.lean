import OncRpc.Foundation.Transition
import OncRpc.Runtime.Error
import Mathlib.Algebra.BigOperators.Group.List.Basic
import Mathlib.Data.List.InsertIdx

/-!
# Admission of calls

A connection admits a bounded number of calls with a bounded sum of byte weights.  The two counters
live behind one lock, so `tryAcquire`, the drop of a permit and `close` are each one step;
`Admission` is the counters together with the permits that are alive, whichever tasks own them, and
a run is any interleaving of the three.

`Admission.Charged` is the invariant that couples the counters to the permits.
`admission_conserved` says what it gives over all runs: no drift, no wrap-around, and refusals for
exactly the stated reasons.
-/

namespace OncRpc

open Foundation

/-! ## Limits and refusals -/

/-- The largest number of admitted calls and the largest sum of their byte weights. -/
structure AdmissionLimits where
  maxCalls : ℕ
  maxBytes : ℕ
  calls_le : maxCalls ≤ usizeMax := by decide
  bytes_le : maxBytes ≤ usizeMax := by decide
  deriving DecidableEq

theorem AdmissionLimits.default_calls_le : 1024 ≤ usizeMax := by decide

theorem AdmissionLimits.default_bytes_le : 128 * 1024 * 1024 ≤ usizeMax := by decide

/-- The limits a caller gets by default. -/
def AdmissionLimits.default : AdmissionLimits where
  maxCalls := 1024
  maxBytes := 128 * 1024 * 1024
  calls_le := default_calls_le
  bytes_le := default_bytes_le

/-- Why a request is not admitted. -/
inductive AdmissionError where
  | atCapacity
  | tooLarge (required limit : ℕ)
  | closed
  | invalidLimits
  | invalidRequest (error : RuntimeError)
  deriving DecidableEq, Repr

/-- A refusal that can turn into an admission when other calls finish. -/
def AdmissionError.isRetryable : AdmissionError → Bool
  | .atCapacity => true
  | _ => false

/-! ## The counters -/

/-- What the lock protects. -/
structure AdmissionState where
  limits : AdmissionLimits
  calls : ℕ
  bytes : ℕ
  closed : Bool
  deriving DecidableEq

/-- The owner of one admitted call and its byte weight. -/
structure AdmissionPermit where
  bytes : ℕ
  deriving DecidableEq

namespace AdmissionState

/-- Whether a request is admitted. -/
def check (s : AdmissionState) (bytes : ℕ) : Except AdmissionError Unit :=
  if s.closed then .error .closed
  else if s.limits.maxBytes < bytes then .error (.tooLarge bytes s.limits.maxBytes)
  else if (checkedAdd s.calls 1).all (s.limits.maxCalls < ·) ∨
      (checkedAdd s.bytes bytes).all (s.limits.maxBytes < ·) then .error .atCapacity
  else .ok ()

/-- Counters for given limits; a zero limit is refused. -/
def new (limits : AdmissionLimits) : Except AdmissionError AdmissionState :=
  if limits.maxCalls = 0 ∨ limits.maxBytes = 0 then .error .invalidLimits
  else .ok ⟨limits, 0, 0, false⟩

/-- The counters of a connection without explicit limits. -/
def unlimited : AdmissionState where
  limits := { maxCalls := usizeMax, maxBytes := usizeMax }
  calls := 0
  bytes := 0
  closed := false

/-- Reserve a call slot and a byte weight. -/
def tryAcquire (s : AdmissionState) (bytes : ℕ) :
    Except AdmissionError AdmissionPermit × AdmissionState :=
  match s.check bytes with
  | .error error => (.error error, s)
  | .ok () =>
    (.ok ⟨bytes⟩, { s with calls := wrappingAdd s.calls 1, bytes := wrappingAdd s.bytes bytes })

/-- Give back what a permit holds. -/
def release (s : AdmissionState) (permit : AdmissionPermit) : AdmissionState :=
  { s with calls := wrappingSub s.calls 1, bytes := wrappingSub s.bytes permit.bytes }

/-- Admit nothing from now on. -/
def close (s : AdmissionState) : AdmissionState := { s with closed := true }

@[simp] theorem release_closed (s : AdmissionState) (permit : AdmissionPermit) :
    (s.release permit).closed = s.closed := by
  rw [release]

/-- The compatibility limits are accepted. -/
theorem new_unlimited : new unlimited.limits = .ok unlimited := rfl

end AdmissionState

/-! ## The permits that are alive -/

/-- The counters and the live permits of all tasks. -/
structure Admission where
  state : AdmissionState
  permits : List AdmissionPermit

/-- What a task can do. -/
inductive AdmissionAction where
  | acquire (bytes : ℕ)
  /-- A live permit is dropped. -/
  | drop (index : ℕ)
  | close
  deriving DecidableEq

namespace Admission

/-- No permit is alive at the start. -/
def start (state : AdmissionState) : Admission := ⟨state, []⟩

/-- The sum of the weights of the live permits. -/
def weight (a : Admission) : ℕ := (a.permits.map AdmissionPermit.bytes).sum

/-- A task tries to acquire a permit, and owns it if it gets one. -/
def acquire (a : Admission) (bytes : ℕ) : Admission :=
  match a.state.tryAcquire bytes with
  | (.ok permit, state) => ⟨state, a.permits ++ [permit]⟩
  | (.error _, state) => ⟨state, a.permits⟩

/-- One step of some task. -/
def step (a : Admission) : AdmissionAction → Option Admission
  | .acquire bytes => some (a.acquire bytes)
  | .drop index =>
    (a.permits[index]?).map fun permit => ⟨a.state.release permit, a.permits.eraseIdx index⟩
  | .close => some { a with state := a.state.close }

/-- The counters are those of the live permits and within the limits. -/
structure Charged (limits : AdmissionLimits) (a : Admission) : Prop where
  limits_eq : a.state.limits = limits
  calls_eq : a.state.calls = a.permits.length
  bytes_eq : a.state.bytes = a.weight
  calls_le : a.permits.length ≤ limits.maxCalls
  bytes_le : a.weight ≤ limits.maxBytes

end Admission

/-! ## The check -/

namespace AdmissionState

variable {s : AdmissionState} {bytes : ℕ}

/-- With exact counters a checked addition exceeds a limit exactly when the plain one does. -/
theorem all_checkedAdd_iff {a b limit : ℕ} (h : limit ≤ usizeMax) :
    (checkedAdd a b).all (limit < ·) = true ↔ limit < a + b := by
  unfold checkedAdd
  split_ifs with hfit
  · simp
  · simp only [Option.all_none, true_iff]
    omega

/-- A closed connection admits nothing. -/
theorem check_of_closed (h : s.closed = true) : s.check bytes = .error .closed := by
  rw [check, if_pos h]

/-- An open connection refuses a request that is too large even alone, then one that does not fit
beside the calls it has. -/
theorem check_of_open (h : s.closed = false) :
    s.check bytes =
      if s.limits.maxBytes < bytes then .error (.tooLarge bytes s.limits.maxBytes)
      else if s.limits.maxCalls < s.calls + 1 ∨ s.limits.maxBytes < s.bytes + bytes then
        .error .atCapacity
      else .ok () := by
  simp only [check, h, Bool.false_eq_true, if_false, all_checkedAdd_iff s.limits.calls_le,
    all_checkedAdd_iff s.limits.bytes_le]

/-- What is admitted fits. -/
theorem fits_of_check (h : s.check bytes = .ok ()) :
    s.closed = false ∧ s.calls + 1 ≤ s.limits.maxCalls ∧ s.bytes + bytes ≤ s.limits.maxBytes := by
  rcases hclosed : s.closed with _ | _
  · rw [check_of_open hclosed] at h
    split_ifs at h with hlarge hfull
    push Not at hfull
    exact ⟨rfl, hfull⟩
  · rw [check_of_closed hclosed] at h
    cases h

/-- An attempt to acquire is refused without a trace, or adds the call to the counters. -/
theorem tryAcquire_cases (s : AdmissionState) (bytes : ℕ) :
    (∃ error, s.check bytes = .error error ∧ s.tryAcquire bytes = (.error error, s)) ∨
    (s.check bytes = .ok () ∧ s.tryAcquire bytes =
      (.ok ⟨bytes⟩, { s with calls := s.calls + 1, bytes := s.bytes + bytes })) := by
  rcases hcheck : s.check bytes with error | _
  · exact .inl ⟨error, rfl, by rw [tryAcquire, hcheck]⟩
  · obtain ⟨-, hcalls, hbytes⟩ := fits_of_check hcheck
    have hmaxCalls := s.limits.calls_le
    have hmaxBytes := s.limits.bytes_le
    refine .inr ⟨rfl, ?_⟩
    rw [tryAcquire, hcheck]
    simp only [wrappingAdd_eq (hcalls.trans hmaxCalls), wrappingAdd_eq (hbytes.trans hmaxBytes)]

end AdmissionState

/-! ## Conservation -/

namespace Admission

variable {limits : AdmissionLimits} {a b : Admission} {bytes : ℕ}

/-- Dropping a permit takes its weight out of the sum. -/
theorem weight_eraseIdx {permit : AdmissionPermit} {index : ℕ}
    (h : a.permits[index]? = some permit) :
    permit.bytes + ((a.permits.eraseIdx index).map AdmissionPermit.bytes).sum = a.weight := by
  obtain ⟨hlt, hget⟩ := List.getElem?_eq_some_iff.mp h
  have hlt' : index < (a.permits.map AdmissionPermit.bytes).length := by simpa using hlt
  have hsum := List.add_sum_eraseIdx hlt' fun _ _ => AddCommute.all _ _
  rwa [List.getElem_map, hget, List.eraseIdx_map] at hsum

/-- A live permit is part of the sum. -/
theorem bytes_le_weight {permit : AdmissionPermit} (h : permit ∈ a.permits) :
    permit.bytes ≤ a.weight := by
  obtain ⟨index, hget⟩ := List.mem_iff_getElem?.mp h
  rw [← weight_eraseIdx hget]
  exact Nat.le_add_right _ _

/-- What an attempt to acquire does to charged counters: nothing, or it adds a permit that fits. -/
theorem acquire_cases (h : Charged limits a) (bytes : ℕ) :
    a.acquire bytes = a ∨
    (a.state.closed = false ∧ a.permits.length + 1 ≤ limits.maxCalls ∧
      a.weight + bytes ≤ limits.maxBytes ∧
      a.acquire bytes =
        ⟨{ a.state with calls := a.permits.length + 1, bytes := a.weight + bytes },
          a.permits ++ [⟨bytes⟩]⟩) := by
  rcases a.state.tryAcquire_cases bytes with ⟨error, -, hres⟩ | ⟨hcheck, hres⟩
  · left
    rw [acquire, hres]
  · obtain ⟨hopen, hcalls, hbytes⟩ := AdmissionState.fits_of_check hcheck
    rw [h.limits_eq, h.calls_eq] at hcalls
    rw [h.limits_eq, h.bytes_eq] at hbytes
    refine .inr ⟨hopen, hcalls, hbytes, ?_⟩
    rw [acquire, hres, h.calls_eq, h.bytes_eq]

/-- What a drop does to charged counters. -/
theorem release_eq (h : Charged limits a) {permit : AdmissionPermit} (hmem : permit ∈ a.permits) :
    1 ≤ a.state.calls ∧ permit.bytes ≤ a.state.bytes ∧
    a.state.release permit =
      { a.state with calls := a.permits.length - 1, bytes := a.weight - permit.bytes } := by
  have hone : 1 ≤ a.permits.length := List.length_pos_of_mem hmem
  have hbytes := bytes_le_weight hmem
  have hcallsMax := h.calls_le.trans limits.calls_le
  have hbytesMax := h.bytes_le.trans limits.bytes_le
  rw [AdmissionState.release, h.calls_eq, h.bytes_eq, wrappingSub_eq hone hcallsMax,
    wrappingSub_eq hbytes hbytesMax]
  exact ⟨hone, hbytes, rfl⟩

/-- Every step keeps the counters charged. -/
theorem Charged.step {action : AdmissionAction} (h : Charged limits a)
    (hstep : a.step action = some b) : Charged limits b := by
  rcases action with bytes | index | _
  · obtain rfl : a.acquire bytes = b := Option.some.inj hstep
    rcases acquire_cases h bytes with heq | ⟨-, hcalls, hbytes, heq⟩
    · rwa [heq]
    · rw [heq]
      exact ⟨h.limits_eq, by simp, by simp [weight], by simpa using hcalls,
        by simpa [weight] using hbytes⟩
  · obtain ⟨permit, hget, rfl⟩ := Option.map_eq_some_iff.mp hstep
    obtain ⟨hlt, -⟩ := List.getElem?_eq_some_iff.mp hget
    have hsum := weight_eraseIdx hget
    have hlen := List.length_eraseIdx_of_lt hlt
    obtain ⟨-, -, heq⟩ := release_eq h (List.mem_of_getElem? hget)
    rw [heq]
    refine ⟨h.limits_eq, hlen.symm, ?_, ?_, ?_⟩
    · exact Nat.sub_eq_of_eq_add (hsum.symm.trans (Nat.add_comm _ _))
    · exact (List.length_eraseIdx_le _ _).trans h.calls_le
    · exact (Nat.le_add_left _ _).trans (hsum.le.trans h.bytes_le)
  · obtain rfl : { a with state := a.state.close } = b := Option.some.inj hstep
    exact ⟨h.limits_eq, h.calls_eq, h.bytes_eq, h.calls_le, h.bytes_le⟩

/-- Fresh counters are charged. -/
theorem Charged.start {state : AdmissionState} (h : AdmissionState.new limits = .ok state) :
    Charged limits (start state) ∧ state.closed = false := by
  unfold AdmissionState.new at h
  split_ifs at h
  obtain rfl := Except.ok.inj h
  exact ⟨⟨rfl, rfl, rfl, Nat.zero_le _, Nat.zero_le _⟩, rfl⟩

/-- A closed connection stays closed, and its permits only go away one by one. -/
theorem closed_step {action : AdmissionAction} (h : a.state.closed = true)
    (hstep : a.step action = some b) :
    b.state.closed = true ∧ (b.permits = a.permits ∨ ∃ index, action = .drop index ∧
      index < a.permits.length ∧ b.permits = a.permits.eraseIdx index) := by
  rcases action with bytes | index | _
  · obtain rfl : a.acquire bytes = b := Option.some.inj hstep
    have hrefused : a.acquire bytes = a := by
      rw [acquire, AdmissionState.tryAcquire, AdmissionState.check_of_closed h]
    rw [hrefused]
    exact ⟨h, .inl rfl⟩
  · obtain ⟨permit, hget, rfl⟩ := Option.map_eq_some_iff.mp hstep
    obtain ⟨hlt, -⟩ := List.getElem?_eq_some_iff.mp hget
    refine ⟨?_, .inr ⟨index, rfl, hlt, rfl⟩⟩
    rwa [AdmissionState.release_closed]
  · obtain rfl : { a with state := a.state.close } = b := Option.some.inj hstep
    exact ⟨rfl, .inl rfl⟩

/-- Whatever happens after closing, nothing is acquired and only drops take permits away. -/
theorem closed_runs (h : a.state.closed = true)
    (hrun : Runs Admission.step (fun _ _ => True) a b) :
    b.state.closed = true ∧ b.permits.Sublist a.permits := by
  refine hrun.invariant (fun b => b.state.closed = true ∧ b.permits.Sublist a.permits)
    ⟨h, .refl _⟩ ?_
  intro u action v hu _ hstep
  obtain ⟨hclosed, hpermits⟩ := closed_step hu.1 hstep
  refine ⟨hclosed, ?_⟩
  rcases hpermits with heq | ⟨index, -, -, heq⟩
  · exact heq ▸ hu.2
  · exact heq ▸ (List.eraseIdx_sublist _ _).trans hu.2

/-- A refused request leaves no trace. -/
theorem refused_eq {error : AdmissionError} {next : AdmissionState}
    (h : a.state.tryAcquire bytes = (.error error, next)) :
    next = a.state ∧ a.step (.acquire bytes) = some a := by
  rcases a.state.tryAcquire_cases bytes with ⟨_, -, hres⟩ | ⟨-, hres⟩
  · rw [hres] at h
    cases h
    exact ⟨rfl, congrArg some (by rw [acquire, hres])⟩
  · rw [hres] at h
    cases h

/-- An admitted request is added to the counters, which do not wrap around. -/
theorem acquired_eq {permit : AdmissionPermit} {next : AdmissionState}
    (hres : a.state.tryAcquire bytes = (.ok permit, next)) :
    permit = ⟨bytes⟩ ∧ a.state.calls + 1 ≤ usizeMax ∧ a.state.bytes + bytes ≤ usizeMax ∧
      next = { a.state with calls := a.state.calls + 1, bytes := a.state.bytes + bytes } := by
  rcases a.state.tryAcquire_cases bytes with ⟨_, -, hcase⟩ | ⟨hcheck, hcase⟩
  · rw [hcase] at hres
    cases hres
  · obtain ⟨-, hcalls, hbytes⟩ := AdmissionState.fits_of_check hcheck
    rw [hcase] at hres
    cases hres
    exact ⟨rfl, hcalls.trans a.state.limits.calls_le, hbytes.trans a.state.limits.bytes_le, rfl⟩

/-- The answer to a request while the connection is open. -/
theorem Charged.answer (h : Charged limits a) (hopen : a.state.closed = false) (bytes : ℕ) :
    (a.state.tryAcquire bytes).1 =
      if limits.maxBytes < bytes then .error (.tooLarge bytes limits.maxBytes)
      else if a.permits.length + 1 ≤ limits.maxCalls ∧ a.weight + bytes ≤ limits.maxBytes then
        .ok ⟨bytes⟩
      else .error .atCapacity := by
  have hcheck := @AdmissionState.check_of_open _ bytes hopen
  rw [h.limits_eq, h.calls_eq, h.bytes_eq] at hcheck
  simp only [AdmissionState.tryAcquire, hcheck]
  split_ifs <;> first | rfl | omega

end Admission

/-- Admission accounting is conserved over every interleaving: the counters are the number and the
weight of the live permits, within the limits and without wrapping around; a refusal changes
nothing and has exactly the stated reason; after closing nothing is acquired, and the permits stay
charged until they are dropped. -/
theorem admission_conserved (limits : AdmissionLimits) (state : AdmissionState)
    (hnew : AdmissionState.new limits = .ok state) (a : Admission)
    (hrun : Runs Admission.step (fun _ _ => True) (.start state) a) :
    (a.state.calls = a.permits.length ∧ a.state.bytes = a.weight ∧
      a.state.calls ≤ limits.maxCalls ∧ a.state.bytes ≤ limits.maxBytes) ∧
    (∀ bytes permit next, a.state.tryAcquire bytes = (.ok permit, next) →
      permit = ⟨bytes⟩ ∧ a.state.calls + 1 ≤ usizeMax ∧ a.state.bytes + bytes ≤ usizeMax ∧
      next = { a.state with calls := a.state.calls + 1, bytes := a.state.bytes + bytes }) ∧
    (∀ permit ∈ a.permits, 1 ≤ a.state.calls ∧ permit.bytes ≤ a.state.bytes ∧
      a.state.release permit =
        { a.state with calls := a.state.calls - 1, bytes := a.state.bytes - permit.bytes }) ∧
    (∀ bytes error next, a.state.tryAcquire bytes = (.error error, next) →
      next = a.state ∧ a.step (.acquire bytes) = some a) ∧
    (a.state.closed = false → ∀ bytes,
      ((∃ required limit, (a.state.tryAcquire bytes).1 = .error (.tooLarge required limit)) ↔
        limits.maxBytes < bytes) ∧
      ((a.state.tryAcquire bytes).1 = .error .atCapacity ↔ bytes ≤ limits.maxBytes ∧
        ¬ (a.permits.length + 1 ≤ limits.maxCalls ∧ a.weight + bytes ≤ limits.maxBytes)) ∧
      ((a.state.tryAcquire bytes).1 = .ok ⟨bytes⟩ ↔
        a.permits.length + 1 ≤ limits.maxCalls ∧ a.weight + bytes ≤ limits.maxBytes)) ∧
    (∃ b, a.step .close = some b ∧ b.state.closed = true ∧ b.permits = a.permits) ∧
    (a.state.closed = true → ∀ b, Runs Admission.step (fun _ _ => True) a b →
      (∀ bytes, b.state.tryAcquire bytes = (.error .closed, b.state)) ∧
      b.permits.Sublist a.permits ∧
      ∀ action c, b.step action = some c → (∀ index, action ≠ .drop index) →
        c.permits = b.permits) := by
  have hcharged : Admission.Charged limits a :=
    hrun.invariant _ (Admission.Charged.start hnew).1 fun h _ hstep => h.step hstep
  refine ⟨?_, ?_, ?_, ?_, ?_, ?_, ?_⟩
  · exact ⟨hcharged.calls_eq, hcharged.bytes_eq, hcharged.calls_eq.le.trans hcharged.calls_le,
      hcharged.bytes_eq.le.trans hcharged.bytes_le⟩
  · intro bytes permit next hres
    exact Admission.acquired_eq hres
  · intro permit hmem
    rw [hcharged.calls_eq, hcharged.bytes_eq]
    obtain ⟨hcalls, hbytes, heq⟩ := Admission.release_eq hcharged hmem
    exact ⟨hcharged.calls_eq ▸ hcalls, hcharged.bytes_eq ▸ hbytes, heq⟩
  · intro bytes error next hres
    exact Admission.refused_eq hres
  · intro hopen bytes
    rw [hcharged.answer hopen bytes]
    refine ⟨?_, ?_, ?_⟩ <;> split_ifs <;> simp <;> omega
  · exact ⟨_, rfl, rfl, rfl⟩
  · intro hclosed b hb
    obtain ⟨hclosed', hsub⟩ := Admission.closed_runs hclosed hb
    refine ⟨?_, hsub, ?_⟩
    · intro bytes
      rw [AdmissionState.tryAcquire, AdmissionState.check_of_closed hclosed']
    · intro action c hstep hdrop
      obtain ⟨-, heq | ⟨index, hact, -⟩⟩ := Admission.closed_step hclosed' hstep
      · exact heq
      · exact absurd hact (hdrop index)

/-- Under the limits of a connection without explicit ones, after two calls were dropped, one call
can hold the largest weight of all. -/
theorem admission_conserved_unlimited :
    ∃ a, Runs Admission.step (fun _ _ => True) (.start .unlimited) a ∧
      a.permits = [⟨usizeMax⟩] ∧ a.state.bytes = usizeMax ∧
      (a.state.tryAcquire 1).1 = .error .atCapacity := by
  have hseen : (runList (guarded (fun _ _ => true) Admission.step) (.start .unlimited)
      [.acquire 1, .acquire 7, .drop 0, .drop 0, .acquire usizeMax]).map
        (fun a => (a.permits, a.state.closed)) = some ([⟨usizeMax⟩], false) := by
    decide +kernel
  obtain ⟨a, htrace, hview⟩ := Trace.exists_of_runList (fun _ _ _ => trivial) hseen
  obtain ⟨hpermits, hopen⟩ := Prod.mk.inj hview
  obtain ⟨⟨-, hbytes, -⟩, -, -, -, hopened, -⟩ :=
    admission_conserved _ _ AdmissionState.new_unlimited a htrace.runs
  refine ⟨a, htrace.runs, hpermits, ?_, ?_⟩
  · rw [hbytes, Admission.weight, hpermits]
    rfl
  · obtain ⟨-, hcap, -⟩ := hopened hopen 1
    rw [hcap, Admission.weight, hpermits]
    decide +kernel

end OncRpc
