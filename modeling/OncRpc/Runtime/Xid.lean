import OncRpc.Foundation.Transition
import OncRpc.Runtime.Error
import Mathlib.Data.List.Nodup

/-!
# Transaction ids

All clients of a connection draw their transaction ids from one atomic counter.  A call of
`allocate_xid` loads the counter and tries to exchange the value it has seen for the next one, until
the exchange succeeds or the value is the last one.  Any number of calls run beside each other;
`XidAllocator.step` is one step of one of them.  All operations on the counter are relaxed: a load,
or an exchange that fails, may report any value the counter has had, and an exchange may fail for no
reason.

`XidAllocator.Counts` is the invariant: the ids handed out are the numbers below the counter.
-/

namespace OncRpc

open Foundation

/-- The error of a call that finds no id left. -/
def xidExhausted : RuntimeError :=
  .transport "RPC XID space exhausted; replace the client connection"

/-- Where a call of `allocate_xid` is. -/
inductive XidPhase where
  | idle
  /-- It is about to exchange the value it has seen. -/
  | trying (current : UInt32)
  | done (result : Except RuntimeError Xid)
  deriving DecidableEq

/-- The counter, the calls, and the exchanges that succeeded, with the call of each. -/
structure XidAllocator where
  counter : UInt32
  calls : ℕ → XidPhase
  log : List (ℕ × Xid)

/-- What can happen. -/
inductive XidAction where
  | load (call : ℕ) (observed : UInt32)
  /-- The exchange succeeds. -/
  | exchange (call : ℕ)
  /-- The exchange fails. -/
  | refuse (call : ℕ) (observed : UInt32)
  /-- The value seen has no successor. -/
  | exhaust (call : ℕ)

namespace XidAllocator

/-- A new counter. -/
def new : XidAllocator := ⟨1, fun _ => .idle, []⟩

/-- The ids handed out, in the order of the exchanges. -/
def allocated (s : XidAllocator) : List Xid := s.log.map Prod.snd

/-- A call is in another phase. -/
def put (s : XidAllocator) (call : ℕ) (phase : XidPhase) : XidAllocator :=
  { s with calls := Function.update s.calls call phase }

/-- A value the counter has had. -/
def Held (s : XidAllocator) (value : UInt32) : Prop := 1 ≤ value ∧ value ≤ s.counter

instance (s : XidAllocator) (value : UInt32) : Decidable (s.Held value) :=
  inferInstanceAs (Decidable (1 ≤ value ∧ value ≤ s.counter))

/-- The largest number of 32 bits. -/
def maxWord : UInt32 := 0xffffffff

/-- One step of a call. -/
def step (s : XidAllocator) : XidAction → Option XidAllocator
  | .load call observed =>
    if s.calls call = .idle ∧ s.Held observed then some (s.put call (.trying observed)) else none
  | .exchange call =>
    match s.calls call with
    | .trying current =>
      if current ≠ maxWord ∧ s.counter = current then
        some { s.put call (.done (.ok current)) with
          counter := current + 1
          log := s.log ++ [(call, current)] }
      else none
    | _ => none
  | .refuse call observed =>
    match s.calls call with
    | .trying current =>
      if current ≠ maxWord ∧ s.Held observed then some (s.put call (.trying observed)) else none
    | _ => none
  | .exhaust call =>
    match s.calls call with
    | .trying current =>
      if current = maxWord then some (s.put call (.done (.error xidExhausted))) else none
    | _ => none

/-! ## What a step does -/

variable {s t : XidAllocator} {action : XidAction}

/-- A step lets a call see a value, hands out the value of the counter, or ends a call that has seen
the last value. -/
theorem step_cases (h : s.step action = some t) :
    (∃ call observed, (∀ result, s.calls call ≠ .done result) ∧ s.Held observed ∧
      t = s.put call (.trying observed)) ∨
    (∃ call, s.calls call = .trying s.counter ∧ s.counter ≠ maxWord ∧
      t = { s.put call (.done (.ok s.counter)) with
        counter := s.counter + 1
        log := s.log ++ [(call, s.counter)] }) ∨
    ∃ call, s.calls call = .trying maxWord ∧ t = s.put call (.done (.error xidExhausted)) := by
  rcases action with ⟨call, observed⟩ | call | ⟨call, observed⟩ | call
  · simp only [step] at h
    split_ifs at h with hload
    cases h
    refine .inl ⟨call, observed, fun result => ?_, hload.2, rfl⟩
    rw [hload.1]
    nofun
  · simp only [step] at h
    split at h
    · next current hcall =>
      split_ifs at h with hexchange
      cases h
      obtain ⟨hne, rfl⟩ := hexchange
      exact .inr (.inl ⟨call, hcall, hne, rfl⟩)
    · cases h
  · simp only [step] at h
    split at h
    · next current hcall =>
      split_ifs at h with hrefuse
      cases h
      refine .inl ⟨call, observed, fun result => ?_, hrefuse.2, rfl⟩
      rw [hcall]
      nofun
    · cases h
  · simp only [step] at h
    split at h
    · next current hcall =>
      split_ifs at h with hlast
      cases h
      exact .inr (.inr ⟨call, hlast ▸ hcall, rfl⟩)
    · cases h

/-- The call that is put is in its new phase. -/
theorem put_calls_self (s : XidAllocator) (call : ℕ) (phase : XidPhase) :
    (s.put call phase).calls call = phase := by
  unfold put
  exact Function.update_self ..

/-- The other calls stay. -/
theorem put_calls_of_ne {call other : ℕ} (h : other ≠ call) (s : XidAllocator) (phase : XidPhase) :
    (s.put call phase).calls other = s.calls other := by
  unfold put
  exact Function.update_of_ne h ..

/-! ## The invariant -/

/-- The ids handed out are the numbers below the counter. -/
structure Counts (s : XidAllocator) : Prop where
  counter : s.counter.toNat = s.log.length + 1
  log : s.allocated = (List.range s.log.length).map fun i => UInt32.ofNat (i + 1)
  trying : ∀ call current, s.calls call = .trying current → s.Held current
  owners : ∀ call xid, s.calls call = .done (.ok xid) ↔ (call, xid) ∈ s.log
  exhausted : ∀ call error, s.calls call = .done (.error error) →
    error = xidExhausted ∧ s.counter = maxWord

/-- The invariant holds of a new allocator. -/
theorem Counts.new : Counts .new where
  counter := rfl
  log := rfl
  trying := nofun
  owners := fun _ _ => ⟨nofun, nofun⟩
  exhausted := nofun

/-- A call that is not over sees a value. -/
theorem Counts.see (h : s.Counts) {call : ℕ} {observed : UInt32}
    (hcall : ∀ result, s.calls call ≠ .done result) (hheld : s.Held observed) :
    (s.put call (.trying observed)).Counts where
  counter := h.counter
  log := h.log
  trying := by
    intro other current hother
    by_cases heq : other = call
    · subst heq
      simp only [put_calls_self] at hother
      cases hother
      exact hheld
    · simp only [put_calls_of_ne heq] at hother
      exact h.trying other current hother
  owners := by
    intro other xid
    by_cases heq : other = call
    · subst heq
      rw [put_calls_self]
      refine ⟨nofun, fun hmem => absurd ((h.owners other xid).mpr hmem) (hcall _)⟩
    · rw [put_calls_of_ne heq]
      exact h.owners other xid
  exhausted := by
    intro other error hother
    by_cases heq : other = call
    · subst heq
      simp only [put_calls_self] at hother
      cases hother
    · simp only [put_calls_of_ne heq] at hother
      exact h.exhausted other error hother

/-- A call that has seen the last value ends. -/
theorem Counts.fail (h : s.Counts) {call : ℕ} (hcall : s.calls call = .trying maxWord) :
    (s.put call (.done (.error xidExhausted))).Counts where
  counter := h.counter
  log := h.log
  trying := by
    intro other current hother
    by_cases heq : other = call
    · subst heq
      simp only [put_calls_self] at hother
      cases hother
    · simp only [put_calls_of_ne heq] at hother
      exact h.trying other current hother
  owners := by
    intro other xid
    by_cases heq : other = call
    · subst heq
      rw [put_calls_self]
      refine (iff_of_false nofun ?_)
      intro hmem
      rw [(h.owners other xid).mpr hmem] at hcall
      cases hcall
    · rw [put_calls_of_ne heq]
      exact h.owners other xid
  exhausted := by
    intro other error hother
    by_cases heq : other = call
    · subst heq
      simp only [put_calls_self] at hother
      cases hother
      refine ⟨rfl, UInt32.le_antisymm ?_ (h.trying other maxWord hcall).2⟩
      rw [UInt32.le_iff_toNat_le]
      exact Nat.le_of_lt_succ s.counter.toNat_lt
    · simp only [put_calls_of_ne heq] at hother
      exact h.exhausted other error hother

/-- A word that is not the last one is below it. -/
theorem toNat_lt_maxWord {value : UInt32} (h : value ≠ maxWord) : value.toNat < 2 ^ 32 - 1 := by
  have hlt := value.toNat_lt
  have hne : value.toNat ≠ 2 ^ 32 - 1 := fun heq => h (UInt32.toNat_inj.mp heq)
  omega

/-- A call exchanges the value of the counter. -/
theorem Counts.succeed (h : s.Counts) {call : ℕ} (hcall : s.calls call = .trying s.counter)
    (hne : s.counter ≠ maxWord) :
    Counts { s.put call (.done (.ok s.counter)) with
      counter := s.counter + 1
      log := s.log ++ [(call, s.counter)] } := by
  have hlt := toNat_lt_maxWord hne
  have hnext : (s.counter + 1).toNat = s.counter.toNat + 1 := by
    rw [UInt32.toNat_add]
    exact Nat.mod_eq_of_lt (by change s.counter.toNat + 1 < 2 ^ 32; omega)
  refine ⟨?_, ?_, ?_, ?_, ?_⟩
  · rw [hnext, h.counter]
    simp
  · have hvalue : s.counter = UInt32.ofNat (s.log.length + 1) := by
      rw [← h.counter, UInt32.ofNat_toNat]
    have hlog : s.log.map Prod.snd = (List.range s.log.length).map fun i => UInt32.ofNat (i + 1) :=
      h.log
    rw [allocated, List.map_append, hlog, List.length_append, List.length_singleton,
      List.range_succ, List.map_append, List.map_singleton, List.map_singleton, hvalue]
  · intro other current hother
    by_cases heq : other = call
    · subst heq
      simp only [put_calls_self] at hother
      cases hother
    · simp only [put_calls_of_ne heq] at hother
      obtain ⟨hone, hle⟩ := h.trying other current hother
      refine ⟨hone, ?_⟩
      rw [UInt32.le_iff_toNat_le] at hle ⊢
      rw [hnext]
      omega
  · intro other xid
    rw [List.mem_append, List.mem_singleton]
    by_cases heq : other = call
    · subst heq
      simp only [put_calls_self]
      rw [← h.owners, hcall]
      constructor
      · intro hdone
        cases hdone
        exact .inr rfl
      · rintro (hold | hnew)
        · cases hold
        · cases hnew
          rfl
    · simp only [put_calls_of_ne heq]
      rw [h.owners]
      refine ⟨.inl, ?_⟩
      rintro (hold | hnew)
      · exact hold
      · cases hnew
        exact absurd rfl heq
  · intro other error hother
    by_cases heq : other = call
    · subst heq
      simp only [put_calls_self] at hother
      cases hother
    · simp only [put_calls_of_ne heq] at hother
      exact absurd (h.exhausted other error hother).2 hne

/-- Every step keeps the invariant. -/
theorem Counts.step (h : s.Counts) (hstep : s.step action = some t) : t.Counts := by
  rcases step_cases hstep with ⟨call, observed, hcall, hheld, rfl⟩ | ⟨call, hcall, hne, rfl⟩ |
    ⟨call, hcall, rfl⟩
  · exact h.see hcall hheld
  · exact h.succeed hcall hne
  · exact h.fail hcall

/-! ## Later states -/

/-- What a state has left behind stays. -/
structure Grows (s t : XidAllocator) : Prop where
  counter : s.counter ≤ t.counter
  log : s.log <+: t.log
  done : ∀ call result, s.calls call = .done result → t.calls call = .done result

/-- A state has grown from itself. -/
theorem Grows.refl (s : XidAllocator) : s.Grows s :=
  ⟨UInt32.le_refl _, List.prefix_rfl, fun _ _ h => h⟩

/-- Growing is transitive. -/
theorem Grows.trans {u : XidAllocator} (h : s.Grows t) (h' : t.Grows u) : s.Grows u :=
  ⟨UInt32.le_trans h.counter h'.counter, h.log.trans h'.log,
    fun call result hcall => h'.done call result (h.done call result hcall)⟩

/-- A call that is not over goes on to another phase. -/
theorem done_put {call : ℕ} {phase : XidPhase} (hcall : ∀ result, s.calls call ≠ .done result)
    (other : ℕ) (result : Except RuntimeError Xid) (h : s.calls other = .done result) :
    (s.put call phase).calls other = .done result := by
  have heq : other ≠ call := by
    rintro rfl
    exact hcall result h
  rw [put_calls_of_ne heq, h]

/-- Every step grows the state. -/
theorem Grows.of_step (hstep : s.step action = some t) : s.Grows t := by
  rcases step_cases hstep with ⟨call, observed, hcall, hheld, rfl⟩ | ⟨call, hcall, hne, rfl⟩ |
    ⟨call, hcall, rfl⟩
  · exact ⟨UInt32.le_refl _, List.prefix_rfl, done_put hcall⟩
  · refine ⟨?_, List.prefix_append _ _, done_put fun result => by rw [hcall]; nofun⟩
    have hlt := toNat_lt_maxWord hne
    rw [UInt32.le_iff_toNat_le, UInt32.toNat_add]
    exact (Nat.le_succ _).trans_eq
      (Nat.mod_eq_of_lt (by change s.counter.toNat + 1 < 2 ^ 32; omega)).symm
  · exact ⟨UInt32.le_refl _, List.prefix_rfl, done_put fun result => by rw [hcall]; nofun⟩

/-- A run keeps the invariant and what was there. -/
theorem Counts.runs (h : s.Counts) (hrun : Runs XidAllocator.step (fun _ _ => True) s t) :
    t.Counts ∧ s.Grows t := by
  refine hrun.invariant (fun u => u.Counts ∧ s.Grows u) ⟨h, .refl s⟩ ?_
  rintro u action v ⟨hcounts, hgrows⟩ - hstep
  exact ⟨hcounts.step hstep, hgrows.trans (.of_step hstep)⟩

/-! ## The result -/

/-- The identifiers handed out are distinct. -/
theorem Counts.nodup (h : s.Counts) : s.allocated.Nodup := by
  rw [h.log]
  refine List.nodup_range.map_on ?_
  intro i hi j hj heq
  have hlt := s.counter.toNat_lt
  rw [h.counter] at hlt
  rw [List.mem_range] at hi hj
  have hnat := congrArg UInt32.toNat heq
  rw [UInt32.toNat_ofNat_of_lt' (by change i + 1 < 2 ^ 32; omega),
    UInt32.toNat_ofNat_of_lt' (by change j + 1 < 2 ^ 32; omega)] at hnat
  omega

/-- The last word is never handed out. -/
theorem Counts.ne_maxWord (h : s.Counts) {xid : Xid} (hmem : xid ∈ s.allocated) :
    xid ≠ maxWord := by
  rintro rfl
  rw [h.log] at hmem
  obtain ⟨i, hi, heq⟩ := List.mem_map.mp hmem
  have hlt := s.counter.toNat_lt
  rw [h.counter] at hlt
  rw [List.mem_range] at hi
  have hnat := congrArg UInt32.toNat heq
  rw [UInt32.toNat_ofNat_of_lt' (by change i + 1 < 2 ^ 32; omega)] at hnat
  have hmax : maxWord.toNat = 2 ^ 32 - 1 := rfl
  omega

/-- Two calls never get the same id. -/
theorem Counts.unique (h : s.Counts) {call call' : ℕ} {xid : Xid}
    (hcall : s.calls call = .done (.ok xid)) (hcall' : s.calls call' = .done (.ok xid)) :
    call = call' := by
  have hmem := (h.owners call xid).mp hcall
  have hmem' := (h.owners call' xid).mp hcall'
  exact congrArg Prod.fst (List.inj_on_of_nodup_map h.nodup hmem hmem' rfl)

end XidAllocator

open XidAllocator in
/-- The ids handed out are 1, 2, 3 and so on, each to one call; the counter never goes back; and
once a call has found no id left none is handed out any more. -/
theorem xid_allocation (s : XidAllocator)
    (hrun : Runs XidAllocator.step (fun _ _ => True) .new s) :
    s.allocated = (List.range s.allocated.length).map (fun i => UInt32.ofNat (i + 1)) ∧
    s.allocated.Nodup ∧ (∀ xid ∈ s.allocated, xid ≠ maxWord) ∧
    (∀ call xid, s.calls call = .done (.ok xid) → xid ∈ s.allocated) ∧
    (∀ call call' xid, s.calls call = .done (.ok xid) → s.calls call' = .done (.ok xid) →
      call = call') ∧
    s.counter.toNat = s.allocated.length + 1 ∧
    (∀ t, Runs XidAllocator.step (fun _ _ => True) s t →
      s.counter ≤ t.counter ∧ s.allocated <+: t.allocated) ∧
    ∀ call error, s.calls call = .done (.error error) →
      error = xidExhausted ∧ ∀ t, Runs XidAllocator.step (fun _ _ => True) s t →
        t.allocated = s.allocated ∧ ∀ other result, t.calls other = .done result →
          s.calls other = .done result ∨ result = .error xidExhausted := by
  have hcounts := (Counts.new.runs hrun).1
  have hlength : s.allocated.length = s.log.length := List.length_map ..
  refine ⟨?_, hcounts.nodup, fun xid => hcounts.ne_maxWord, fun call xid hcall => ?_,
    fun call call' xid => hcounts.unique, ?_, fun t ht => ?_, fun call error hcall => ?_⟩
  · rw [hlength]
    exact hcounts.log
  · exact List.mem_map.mpr ⟨_, (hcounts.owners call xid).mp hcall, rfl⟩
  · rw [hlength]
    exact hcounts.counter
  · have hgrows := (hcounts.runs ht).2
    exact ⟨hgrows.counter, hgrows.log.map _⟩
  · obtain ⟨herror, hmax⟩ := hcounts.exhausted call error hcall
    refine ⟨herror, fun t ht => ?_⟩
    obtain ⟨htcounts, hgrows⟩ := hcounts.runs ht
    -- The counter is at its end, so the log has no room to grow.
    have hlog : s.log = t.log := by
      refine hgrows.log.eq_of_length ?_
      have hle := hgrows.log.length_le
      have hs := hcounts.counter
      have ht := htcounts.counter
      have hlt := t.counter.toNat_lt
      have hmax : s.counter.toNat = 2 ^ 32 - 1 := by rw [hmax]; rfl
      omega
    refine ⟨by rw [allocated, allocated, hlog], fun other result hother => ?_⟩
    rcases result with error' | xid
    · exact .inr (by rw [(htcounts.exhausted other error' hother).1])
    · exact .inl ((hcounts.owners other xid).mpr (hlog ▸ (htcounts.owners other xid).mp hother))

/-- Two calls that see the same value; the second has to try again. -/
theorem xid_allocation_two : ∃ s, Runs XidAllocator.step (fun _ _ => True) .new s ∧
    s.allocated = [1, 2] ∧ s.counter.toNat = 3 := by
  have hseen : (runList (guarded (fun _ _ => true) XidAllocator.step) .new
      [.load 0 1, .load 1 1, .exchange 0, .refuse 1 2, .exchange 1]).map
      (fun s => s.allocated) = some [1, 2] := by
    decide +kernel
  obtain ⟨s, htrace, hview⟩ := @Trace.exists_of_runList _ _ _ (fun _ _ => True) _ _ _ _ _ _
    (fun _ _ _ => trivial) hseen
  obtain ⟨-, -, -, -, -, hcounter, -, -⟩ := xid_allocation s htrace.runs
  refine ⟨s, htrace.runs, hview, ?_⟩
  rw [hcounter, hview]
  rfl

end OncRpc
