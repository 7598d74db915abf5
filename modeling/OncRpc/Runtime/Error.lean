import OncRpc.Wire.Codec

/-!
# Runtime errors and machine sizes

The error type shared by the client runtime, the errors a byte stream reports, and the checked
`usize` arithmetic of the size computations.  `usize` is 64 bits wide.
-/

namespace OncRpc

/-- The errors of the XDR layer. -/
inductive XdrError where
  | lengthLimit (length maximum : ℕ)
  | unexpectedEof (needed : ℕ)
  | invalidBool (value : UInt32)
  | invalidEnum (value : Int32)
  | invalidUtf8 (text : String)
  | trailingBytes (count : ℕ)
  deriving DecidableEq, Repr

/-- The errors of the client runtime; durations are in nanoseconds. -/
inductive RuntimeError where
  | cancelled
  | callTimeout (duration : ℕ)
  | writeTimeout (duration : ℕ)
  | unsupportedCancellation
  | transport (text : String)
  | connectionClosed
  | wire (error : WireError)
  | xidMismatch (expected actual : Xid)
  | unexpectedCallMessage
  | programUnavailable
  | programMismatch (range : VersionRange)
  | procedureUnavailable
  | garbageArgs
  | systemError
  | rpcMismatch (range : VersionRange)
  | authError (stat : AuthStat)
  | encode (error : XdrError)
  | decode (error : XdrError)
  deriving DecidableEq, Repr

/-- The kinds of stream errors the runtime tells apart. -/
inductive IoErrorKind where
  | unexpectedEof
  | interrupted
  | other
  deriving DecidableEq, Repr

/-- An error reported by a byte stream. -/
structure IoError where
  kind : IoErrorKind
  text : String
  deriving DecidableEq, Repr

/-- The runtime error of a failed stream read. -/
def readError (error : IoError) : RuntimeError :=
  if error.kind = .unexpectedEof then .connectionClosed else .transport error.text

/-- The error of a read that meets the end of the record. -/
def recordEof (missing : ℕ) : RuntimeError := .wire (.unexpectedEof missing 0)

/-- A sequence of two fallible steps succeeds when both do. -/
theorem except_bind_eq_ok {ε α β : Type} {x : Except ε α} {f : α → Except ε β} {y : β} :
    (x >>= f) = .ok y ↔ ∃ a, x = .ok a ∧ f a = .ok y := by
  cases x <;> simp [bind, Except.bind]

theorem mapError_eq_ok {ε ε' α : Type} {x : Except ε α} {f : ε → ε'} {a : α} :
    x.mapError f = .ok a ↔ x = .ok a := by
  cases x <;> simp [Except.mapError]

/-! ## Checked sizes -/

/-- The largest `usize`. -/
def usizeMax : ℕ := 2 ^ 64 - 1

/-- Addition of sizes, unless it overflows. -/
def checkedAdd (a b : ℕ) : Option ℕ := if a + b ≤ usizeMax then some (a + b) else none

/-- Multiplication of sizes, unless it overflows. -/
def checkedMul (a b : ℕ) : Option ℕ := if a * b ≤ usizeMax then some (a * b) else none

theorem checkedAdd_eq_some {a b n : ℕ} :
    checkedAdd a b = some n ↔ n = a + b ∧ a + b ≤ usizeMax := by
  unfold checkedAdd
  split_ifs with h <;> simp [h, eq_comm]

theorem checkedMul_eq_some {a b n : ℕ} :
    checkedMul a b = some n ↔ n = a * b ∧ a * b ≤ usizeMax := by
  unfold checkedMul
  split_ifs with h <;> simp [h, eq_comm]

/-- Unchecked addition of sizes, which wraps around. -/
def wrappingAdd (a b : ℕ) : ℕ := (a + b) % 2 ^ 64

/-- Unchecked subtraction of sizes, which wraps around. -/
def wrappingSub (a b : ℕ) : ℕ := (a + 2 ^ 64 - b) % 2 ^ 64

theorem wrappingAdd_eq {a b : ℕ} (h : a + b ≤ usizeMax) : wrappingAdd a b = a + b :=
  Nat.mod_eq_of_lt (Nat.lt_succ_of_le h : a + b < usizeMax + 1)

theorem wrappingSub_eq {a b : ℕ} (h : b ≤ a) (ha : a ≤ usizeMax) : wrappingSub a b = a - b := by
  have hshift : a + 2 ^ 64 - b = a - b + 2 ^ 64 := by omega
  rw [wrappingSub, hshift, Nat.add_mod_right]
  exact Nat.mod_eq_of_lt (by unfold usizeMax at ha; omega)

/-! ## Record limits -/

/-- Bounds on one assembled record, markers included. -/
structure RecordLimits where
  maxRecordBytes : ℕ
  maxFragments : ℕ
  bytes_le : maxRecordBytes ≤ usizeMax := by decide
  fragments_le : maxFragments ≤ usizeMax := by decide

/-- The limits of a connection that sets none. -/
def RecordLimits.default : RecordLimits where
  maxRecordBytes := 128 * 1024 * 1024
  maxFragments := 1024

/-- The limits admit at least an empty record. -/
def RecordLimits.Valid (limits : RecordLimits) : Prop :=
  4 ≤ limits.maxRecordBytes ∧ limits.maxFragments ≠ 0

/-- Refuse limits that leave room for no record. -/
def RecordLimits.validate (limits : RecordLimits) : Except RuntimeError Unit :=
  if limits.maxRecordBytes < 4 ∨ limits.maxFragments = 0 then
    .error (.transport "invalid RPC record limits")
  else .ok ()

/-- Validation accepts exactly the valid limits. -/
theorem RecordLimits.validate_eq_ok_iff (limits : RecordLimits) :
    limits.validate = .ok () ↔ limits.Valid := by
  unfold RecordLimits.validate RecordLimits.Valid
  split_ifs with h
  · simp only [false_iff]
    omega
  · simp only [true_iff]
    omega

/-- The size of a record after one more fragment, if it is within the limit. -/
def RecordLimits.grow (limits : RecordLimits) (total length : ℕ) : Option ℕ :=
  ((checkedAdd total 4).bind fun n => checkedAdd n length).filter (· ≤ limits.maxRecordBytes)

/-- Overflow cannot happen below the limit, so the check is the plain comparison. -/
theorem RecordLimits.grow_eq (limits : RecordLimits) (total length : ℕ) :
    limits.grow total length =
      if total + 4 + length ≤ limits.maxRecordBytes then some (total + 4 + length) else none := by
  have hmax := limits.bytes_le
  unfold RecordLimits.grow checkedAdd
  by_cases h : total + 4 + length ≤ limits.maxRecordBytes
  · rw [if_pos (by omega), Option.bind_some, if_pos (by omega), if_pos h]
    simp [h]
  · rw [if_neg h]
    by_cases h4 : total + 4 ≤ usizeMax
    · rw [if_pos h4, Option.bind_some]
      by_cases hl : total + 4 + length ≤ usizeMax
      · rw [if_pos hl]
        simp only [Option.filter_some, h, decide_false, Bool.false_eq_true, if_false]
      · rw [if_neg hl]
        rfl
    · rw [if_neg h4]
      rfl

/-- A record that exceeds the byte limit. -/
def recordLimitError : RuntimeError := .transport "RPC record exceeds configured limit"

/-- A record with more fragments than the limit. -/
def fragmentLimitError : RuntimeError := .transport "RPC record has too many fragments"

end OncRpc
