import OncRpc.Xdr.Codec
import Mathlib.Data.List.Forall2

/-!
# `AUTH_SYS` credentials

The body of an `AUTH_SYS` blob has a stamp, the name of the machine, a user, a group and more
groups.  Two limits are checked on the value, before it is written and after it has been read: the
name has at most 255 bytes, and there are at most 16 more groups.  The blob has a limit of its own,
400 bytes for any flavor, which is checked on the encoding.

`AuthSys.length_body_le` compares the three: a value within its limits has a body of at most 340
bytes.
-/

namespace OncRpc

open Foundation

/-- The most bytes the name of a machine has. -/
def authSysMaxMachineName : ℕ := 255

/-- The most groups there are besides the first. -/
def authSysMaxGids : ℕ := 16

/-- The credentials of a user of a machine. -/
structure AuthSys where
  stamp : UInt32
  machineName : String
  uid : UInt32
  gid : UInt32
  gids : List UInt32
  deriving DecidableEq, Repr

/-- The errors of the credentials. -/
inductive AuthError where
  | machineNameTooLong
  | tooManyAuxiliaryGroups
  | unsupportedFlavor (flavor : AuthFlavor)
  | wire (error : WireError)
  | xdr (error : XdrError)
  deriving DecidableEq, Repr

namespace AuthSys

/-- Refuse a value beyond a limit. -/
def validate (value : AuthSys) : Except AuthError Unit :=
  if authSysMaxMachineName < (stringBytes value.machineName).length then
    .error .machineNameTooLong
  else if authSysMaxGids < value.gids.length then .error .tooManyAuxiliaryGroups
  else .ok ()

/-- What is written for a value. -/
def encodeFields (value : AuthSys) : XdrWrite :=
  (Write.bytes (beBytes value.stamp)).andThen <|
    (Write.bytes (writeVariableOpaque (stringBytes value.machineName))).andThen <|
      (Write.bytes (beBytes value.uid)).andThen <|
        (Write.bytes (beBytes value.gid)).andThen <|
          encodeVec (fun w => .bytes (beBytes w)) value.gids

/-- The blob of a value. -/
def toOpaqueAuth (value : AuthSys) : Option (Except AuthError OpaqueAuth) :=
  match value.validate with
  | .error error => some (.error error)
  | .ok () =>
    match value.encodeFields with
    | none => none
    | some (.error error) => some (.error (.xdr error))
    | some (.ok encoded) => some ((OpaqueAuth.new .sys encoded).mapError .wire)

/-- Read the fields of a value. -/
def decodeFields : XdrDecoder AuthSys := do
  let stamp ← readXdrU32
  let machineName ← decodeString
  let uid ← readXdrU32
  let gid ← readXdrU32
  let gids ← decodeVec readXdrU32
  return ⟨stamp, machineName, uid, gid, gids⟩

/-- The value of a blob. -/
def fromOpaqueAuth (auth : OpaqueAuth) : Option (Except AuthError AuthSys) :=
  if auth.flavor ≠ .sys then some (.error (.unsupportedFlavor auth.flavor))
  else match decodeFields auth.body with
  | none => none
  | some (.error error, _) => some (.error (.xdr error))
  | some (.ok value, input) =>
    if input ≠ [] then some (.error (.xdr (.trailingBytes input.length)))
    else some (value.validate.map fun _ => value)

/-- The value is within both limits. -/
structure WithinLimits (value : AuthSys) : Prop where
  name : (stringBytes value.machineName).length ≤ authSysMaxMachineName
  gids : value.gids.length ≤ authSysMaxGids

/-! ## What is written -/

/-- The bytes of a value. -/
def body (value : AuthSys) : Bytes :=
  beBytes value.stamp ++ (writeVariableOpaque (stringBytes value.machineName) ++
    (beBytes value.uid ++ (beBytes value.gid ++
      (beBytes (lengthWord value.gids.length) ++ (value.gids.map beBytes).flatten))))

variable {value : AuthSys}

theorem validate_eq_ok_iff : value.validate = .ok () ↔ value.WithinLimits := by
  unfold validate
  constructor
  · intro h
    split at h
    · cases h
    split at h
    · cases h
    exact ⟨Nat.not_lt.mp ‹_›, Nat.not_lt.mp ‹_›⟩
  · rintro ⟨hname, hgids⟩
    rw [if_neg (Nat.not_lt.mpr hname), if_neg (Nat.not_lt.mpr hgids)]

/-- Words one after the other. -/
theorem each_beBytes (words : List UInt32) :
    (Write.each (fun w => .bytes (beBytes w)) words : XdrWrite) =
      .bytes (words.map beBytes).flatten := by
  induction words with
  | nil => rfl
  | cons w words ih =>
    rw [Write.each, ih]
    rfl

/-- Writing a value cannot fail. -/
theorem encodeFields_eq (value : AuthSys) : value.encodeFields = .bytes value.body := by
  rw [encodeFields, encodeVec, each_beBytes]
  rfl

theorem length_flatten_beBytes (words : List UInt32) :
    (words.map beBytes).flatten.length = 4 * words.length := by
  induction words with
  | nil => rfl
  | cons w words ih =>
    rw [List.map_cons, List.flatten_cons, List.length_append, ih, beBytes_length, List.length_cons]
    omega

/-- The two limits of the value leave room under the limit of the blob. -/
theorem length_body_le (h : value.WithinLimits) : value.body.length ≤ 340 := by
  have hname : (stringBytes value.machineName).length ≤ 255 := h.name
  have hgids : value.gids.length ≤ 16 := h.gids
  have hpadding : xdrPadding (stringBytes value.machineName).length +
      (stringBytes value.machineName).length ≤ 256 := by
    unfold xdrPadding
    omega
  have hgroups := length_flatten_beBytes value.gids
  simp only [body, writeVariableOpaque, writeFixedOpaque, List.length_append, beBytes_length,
    padding_length]
  omega

theorem new_body (h : value.WithinLimits) :
    OpaqueAuth.new .sys value.body = .ok ⟨.sys, value.body⟩ := by
  have hlength := length_body_le h
  have hfits : ¬ value.body.length > maxAuthBytes := Nat.not_lt.mpr (hlength.trans (by decide))
  unfold OpaqueAuth.new validateAuthLen
  rw [if_neg hfits]
  rfl

/-- A value within its limits is written. -/
theorem toOpaqueAuth_of_withinLimits (h : value.WithinLimits) :
    value.toOpaqueAuth = some (.ok ⟨.sys, value.body⟩) := by
  unfold toOpaqueAuth
  rw [validate_eq_ok_iff.mpr h, encodeFields_eq]
  simp only [Write.bytes, new_body h]
  rfl

/-- A value beyond a limit is refused before anything is written. -/
theorem toOpaqueAuth_of_validate {error : AuthError} (h : value.validate = .error error) :
    value.toOpaqueAuth = some (.error error) := by
  unfold toOpaqueAuth
  rw [h]

/-! ## What is read -/

/-- Words behind their number are read back. -/
theorem decodeVec_words {words : List UInt32} (h : words.length < 2 ^ 32) (rest : Bytes) :
    decodeVec readXdrU32
        (beBytes (lengthWord words.length) ++ (words.map beBytes).flatten ++ rest) =
      some (.ok words, rest) := by
  have hwords : List.Forall₂ (Cursor.Reads fun _ => readXdrU32) (words.map beBytes) words :=
    List.forall₂_map_left_iff.mpr
      (List.forall₂_same.mpr fun w _ => .of_forall (readXdrU32_beBytes w))
  exact Filter.eventually_const.mp (reads_decodeVec h (.times hwords)) rest

/-- The bytes of a value are read back, whatever follows. -/
theorem decodeFields_body (h : value.WithinLimits) (rest : Bytes) :
    decodeFields (value.body ++ rest) = some (.ok value, rest) := by
  have hname : (stringBytes value.machineName).length < 2 ^ 32 :=
    h.name.trans_lt (by decide)
  have hgids : value.gids.length < 2 ^ 32 := h.gids.trans_lt (by decide)
  unfold decodeFields body
  simp only [List.append_assoc]
  rw [Cursor.bind_of_ok (readXdrU32_beBytes value.stamp _),
    Cursor.bind_of_ok (decodeString_write hname _),
    Cursor.bind_of_ok (readXdrU32_beBytes value.uid _),
    Cursor.bind_of_ok (readXdrU32_beBytes value.gid _)]
  simp only [← List.append_assoc]
  rw [Cursor.bind_of_ok (decodeVec_words hgids rest)]
  rfl

/-- A blob whose body is read to its end and within the limits is accepted. -/
theorem fromOpaqueAuth_of_read {auth : OpaqueAuth} (hflavor : auth.flavor = .sys)
    (hread : decodeFields auth.body = some (.ok value, [])) (h : value.WithinLimits) :
    fromOpaqueAuth auth = some (.ok value) := by
  rw [fromOpaqueAuth, if_neg (not_not.mpr hflavor), hread]
  dsimp only
  rw [if_neg (not_not.mpr rfl), validate_eq_ok_iff.mpr h]
  rfl

/-- The value of the blob of a value. -/
theorem fromOpaqueAuth_body (h : value.WithinLimits) :
    fromOpaqueAuth ⟨.sys, value.body⟩ = some (.ok value) := by
  have hread := decodeFields_body h []
  rw [List.append_nil] at hread
  exact fromOpaqueAuth_of_read rfl hread h

/-- Only a value within its limits is accepted. -/
theorem withinLimits_of_fromOpaqueAuth {auth : OpaqueAuth}
    (h : fromOpaqueAuth auth = some (.ok value)) : value.WithinLimits := by
  unfold fromOpaqueAuth at h
  split at h
  · cases h
  split at h
  · cases h
  · cases h
  · next read input hread =>
    split at h
    · cases h
    rcases hvalid : read.validate with error | ⟨⟨⟩⟩
    · rw [hvalid] at h
      cases h
    · rw [hvalid] at h
      cases h
      exact validate_eq_ok_iff.mp hvalid

/-! ## The result -/

/-- Credentials are written exactly if they are within both limits, and never refused for the size
of their blob; what is written is read back.  What is accepted is within both limits, and writing it
again gives a blob of the same value. -/
theorem auth_sys_round_trip (value : AuthSys) :
    ((∃ auth, value.toOpaqueAuth = some (.ok auth)) ↔
      (stringBytes value.machineName).length ≤ 255 ∧ value.gids.length ≤ 16) ∧
    (∃ result, value.toOpaqueAuth = some result ∧ ∀ error, result ≠ .error (.wire error)) ∧
    (∀ auth, value.toOpaqueAuth = some (.ok auth) → fromOpaqueAuth auth = some (.ok value)) ∧
    ∀ auth, fromOpaqueAuth auth = some (.ok value) →
      ((stringBytes value.machineName).length ≤ 255 ∧ value.gids.length ≤ 16) ∧
        ∃ again, value.toOpaqueAuth = some (.ok again) ∧
          fromOpaqueAuth again = some (.ok value) := by
  have hwritten {auth : OpaqueAuth} (h : value.toOpaqueAuth = some (.ok auth)) :
      value.WithinLimits := by
    rcases hvalid : value.validate with error | ⟨⟨⟩⟩
    · rw [toOpaqueAuth_of_validate hvalid] at h
      cases h
    · exact validate_eq_ok_iff.mp hvalid
  refine ⟨⟨?_, ?_⟩, ?_, ?_, ?_⟩
  · rintro ⟨auth, h⟩
    exact ⟨(hwritten h).name, (hwritten h).gids⟩
  · rintro ⟨hname, hgids⟩
    exact ⟨_, toOpaqueAuth_of_withinLimits ⟨hname, hgids⟩⟩
  · by_cases hlimits : value.WithinLimits
    · refine ⟨_, toOpaqueAuth_of_withinLimits hlimits, fun error h => ?_⟩
      cases h
    · rcases hvalid : value.validate with error | ⟨⟨⟩⟩
      · refine ⟨_, toOpaqueAuth_of_validate hvalid, fun wireError h => ?_⟩
        cases h
        unfold validate at hvalid
        split_ifs at hvalid <;> cases hvalid
      · exact absurd (validate_eq_ok_iff.mp hvalid) hlimits
  · intro auth h
    have hlimits := hwritten h
    rw [toOpaqueAuth_of_withinLimits hlimits] at h
    cases h
    exact fromOpaqueAuth_body hlimits
  · intro auth h
    have hlimits := withinLimits_of_fromOpaqueAuth h
    exact ⟨⟨hlimits.name, hlimits.gids⟩, _, toOpaqueAuth_of_withinLimits hlimits,
      fromOpaqueAuth_body hlimits⟩

end AuthSys

end OncRpc
