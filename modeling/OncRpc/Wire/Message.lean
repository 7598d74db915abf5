import OncRpc.Foundation.Parser

/-!
# ONC RPC messages

The data model of `onc-rpc-wire`: transaction ids, authentication blobs, call and reply bodies, and
the discriminants that select between them.  Each enumeration comes with the number that stands for
it on the wire (`number`) and the conversion back (`ofNumber` where every number has a meaning,
`tryFrom` where unknown numbers are an error).

`AuthFlavor` and `AuthStat` keep unknown numbers in an `unknown` constructor, so a number that has
a name also has a second, non-canonical spelling; `IsCanonical` singles out the spelling that
`ofNumber` produces.
-/

namespace OncRpc

open Foundation

/-- The only RPC version spoken. -/
def rpcVersion2 : UInt32 := 2

/-- The largest authentication body. -/
def maxAuthBytes : ℕ := 400

/-- The largest payload of one record fragment. -/
def maxFragmentLen : UInt32 := 0x7fffffff

/-- A transaction id. -/
abbrev Xid := UInt32

/-- A procedure number. -/
abbrev Procedure := UInt32

/-- A program and the version of it that is called. -/
structure ProgramVersion where
  program : UInt32
  version : UInt32
  deriving DecidableEq, Repr

/-- A range of supported versions. -/
structure VersionRange where
  low : UInt32
  high : UInt32
  deriving DecidableEq, Repr

/-- The errors of the wire codec. -/
inductive WireError where
  | unexpectedEof (needed remaining : ℕ)
  | fragmentLengthTooLarge (length : UInt32)
  | zeroFragmentLength
  | unsupportedRpcVersion (version : UInt32)
  | invalidMessageType (value : UInt32)
  | invalidReplyStat (value : UInt32)
  | invalidAcceptStat (value : UInt32)
  | invalidRejectStat (value : UInt32)
  | authBodyTooLong (length : ℕ)
  | nonZeroXdrPadding
  | trailingBytes (count : ℕ)
  deriving DecidableEq, Repr

/-! ## Authentication -/

/-- An authentication flavor. -/
inductive AuthFlavor where
  | none
  | sys
  | short
  | dh
  | rpcSecGss
  | unknown (value : UInt32)
  deriving DecidableEq, Repr

namespace AuthFlavor

/-- The wire number of a flavor. -/
def number : AuthFlavor → UInt32
  | none => 0
  | sys => 1
  | short => 2
  | dh => 3
  | rpcSecGss => 6
  | unknown value => value

/-- The flavor with a given wire number. -/
def ofNumber (value : UInt32) : AuthFlavor :=
  if value = 0 then none
  else if value = 1 then sys
  else if value = 2 then short
  else if value = 3 then dh
  else if value = 6 then rpcSecGss
  else unknown value

/-- The number has a named constructor. -/
def IsNamed (value : UInt32) : Prop :=
  value = 0 ∨ value = 1 ∨ value = 2 ∨ value = 3 ∨ value = 6

/-- No named number is spelled `unknown`. -/
def IsCanonical (flavor : AuthFlavor) : Prop :=
  ∀ value, flavor = unknown value → ¬ IsNamed value

/-- Reading the number of a flavor gives its canonical spelling. -/
theorem ofNumber_eq_iff (value : UInt32) (flavor : AuthFlavor) :
    ofNumber value = flavor ↔ flavor.IsCanonical ∧ flavor.number = value := by
  constructor
  · rintro rfl
    unfold ofNumber IsCanonical IsNamed number
    split_ifs <;> simp_all
  · rintro ⟨hc, rfl⟩
    cases flavor with
    | unknown value =>
      have hv := hc value rfl
      simp only [IsNamed, not_or] at hv
      simp [ofNumber, number, hv]
    | _ => rfl

end AuthFlavor

/-- The status of a rejected authentication. -/
inductive AuthStat where
  | ok
  | badCred
  | rejectedCred
  | badVerf
  | rejectedVerf
  | tooWeak
  | invalidResp
  | failed
  | kerbGeneric
  | timeExpire
  | ticketFile
  | decode
  | netAddr
  | rpcSecGssCredProblem
  | rpcSecGssCtxProblem
  | unknown (value : UInt32)
  deriving DecidableEq, Repr

namespace AuthStat

/-- The wire number of a status. -/
def number : AuthStat → UInt32
  | ok => 0
  | badCred => 1
  | rejectedCred => 2
  | badVerf => 3
  | rejectedVerf => 4
  | tooWeak => 5
  | invalidResp => 6
  | failed => 7
  | kerbGeneric => 8
  | timeExpire => 9
  | ticketFile => 10
  | decode => 11
  | netAddr => 12
  | rpcSecGssCredProblem => 13
  | rpcSecGssCtxProblem => 14
  | unknown value => value

/-- The status with a given wire number. -/
def ofNumber (value : UInt32) : AuthStat :=
  if value = 0 then ok
  else if value = 1 then badCred
  else if value = 2 then rejectedCred
  else if value = 3 then badVerf
  else if value = 4 then rejectedVerf
  else if value = 5 then tooWeak
  else if value = 6 then invalidResp
  else if value = 7 then failed
  else if value = 8 then kerbGeneric
  else if value = 9 then timeExpire
  else if value = 10 then ticketFile
  else if value = 11 then decode
  else if value = 12 then netAddr
  else if value = 13 then rpcSecGssCredProblem
  else if value = 14 then rpcSecGssCtxProblem
  else unknown value

/-- The number has a named constructor. -/
def IsNamed (value : UInt32) : Prop :=
  value ∈ ([0, 1, 2, 3, 4, 5, 6, 7, 8, 9, 10, 11, 12, 13, 14] : List UInt32)

/-- No named number is spelled `unknown`. -/
def IsCanonical (stat : AuthStat) : Prop :=
  ∀ value, stat = unknown value → ¬ IsNamed value

/-- A number without a name reads as itself. -/
theorem ofNumber_of_not_isNamed {value : UInt32} (h : ¬ IsNamed value) :
    ofNumber value = unknown value := by
  simp only [IsNamed, List.mem_cons, List.not_mem_nil, or_false, not_or] at h
  simp only [ofNumber, h, if_false]

/-- A named number reads as its constructor. -/
theorem ofNumber_of_isNamed {value : UInt32} (h : IsNamed value) :
    (ofNumber value).number = value ∧ ∀ other, ofNumber value ≠ unknown other := by
  simp only [IsNamed, List.mem_cons, List.not_mem_nil, or_false] at h
  rcases h with rfl | rfl | rfl | rfl | rfl | rfl | rfl | rfl | rfl | rfl | rfl | rfl | rfl |
    rfl | rfl <;> exact ⟨rfl, fun _ h => AuthStat.noConfusion h⟩

/-- Reading the number of a status gives its canonical spelling. -/
theorem ofNumber_eq_iff (value : UInt32) (stat : AuthStat) :
    ofNumber value = stat ↔ stat.IsCanonical ∧ stat.number = value := by
  constructor
  · rintro rfl
    by_cases h : IsNamed value
    · obtain ⟨h1, h2⟩ := ofNumber_of_isNamed h
      exact ⟨fun other ho => absurd ho (h2 other), h1⟩
    · rw [ofNumber_of_not_isNamed h]
      refine ⟨fun other ho => ?_, rfl⟩
      cases ho
      exact h
  · rintro ⟨hc, rfl⟩
    cases stat with
    | unknown value => exact ofNumber_of_not_isNamed (hc value rfl)
    | _ => rfl

end AuthStat

/-- An authentication blob: a flavor and an opaque body. -/
structure OpaqueAuth where
  flavor : AuthFlavor
  body : Bytes
  deriving DecidableEq, Repr

/-- The blob of `AUTH_NONE`. -/
def OpaqueAuth.none : OpaqueAuth := ⟨.none, []⟩

/-! ## Discriminants -/

/-- Call or reply. -/
inductive MessageType where
  | call
  | reply
  deriving DecidableEq, Repr

namespace MessageType

/-- The wire number of a message type. -/
def number : MessageType → UInt32
  | call => 0
  | reply => 1

/-- The message type with a given wire number. -/
def tryFrom (value : UInt32) : Except WireError MessageType :=
  if value = 0 then .ok call
  else if value = 1 then .ok reply
  else .error (.invalidMessageType value)

end MessageType

/-- Whether the server accepted the call. -/
inductive ReplyStat where
  | messageAccepted
  | messageDenied
  deriving DecidableEq, Repr

namespace ReplyStat

/-- The wire number of a reply status. -/
def number : ReplyStat → UInt32
  | messageAccepted => 0
  | messageDenied => 1

/-- The reply status with a given wire number. -/
def tryFrom (value : UInt32) : Except WireError ReplyStat :=
  if value = 0 then .ok messageAccepted
  else if value = 1 then .ok messageDenied
  else .error (.invalidReplyStat value)

end ReplyStat

/-- How an accepted call ended. -/
inductive AcceptStat where
  | success
  | programUnavailable
  | programMismatch
  | procedureUnavailable
  | garbageArgs
  | systemError
  deriving DecidableEq, Repr

namespace AcceptStat

/-- The wire number of an accept status. -/
def number : AcceptStat → UInt32
  | success => 0
  | programUnavailable => 1
  | programMismatch => 2
  | procedureUnavailable => 3
  | garbageArgs => 4
  | systemError => 5

/-- The accept status with a given wire number. -/
def tryFrom (value : UInt32) : Except WireError AcceptStat :=
  if value = 0 then .ok success
  else if value = 1 then .ok programUnavailable
  else if value = 2 then .ok programMismatch
  else if value = 3 then .ok procedureUnavailable
  else if value = 4 then .ok garbageArgs
  else if value = 5 then .ok systemError
  else .error (.invalidAcceptStat value)

end AcceptStat

/-- Why a call was denied. -/
inductive RejectStat where
  | rpcMismatch
  | authError
  deriving DecidableEq, Repr

namespace RejectStat

/-- The wire number of a reject status. -/
def number : RejectStat → UInt32
  | rpcMismatch => 0
  | authError => 1

/-- The reject status with a given wire number. -/
def tryFrom (value : UInt32) : Except WireError RejectStat :=
  if value = 0 then .ok rpcMismatch
  else if value = 1 then .ok authError
  else .error (.invalidRejectStat value)

end RejectStat

/-! ## Messages -/

/-- The body of a call. -/
structure CallBody where
  rpcVersion : UInt32
  program : ProgramVersion
  procedure : Procedure
  credentials : OpaqueAuth
  verifier : OpaqueAuth
  payload : Bytes
  deriving DecidableEq, Repr

/-- The result of an accepted call. -/
inductive AcceptedStatus where
  | success (results : Bytes)
  | programUnavailable
  | programMismatch (range : VersionRange)
  | procedureUnavailable
  | garbageArgs
  | systemError
  deriving DecidableEq, Repr

/-- A reply to an accepted call. -/
structure AcceptedReply where
  verifier : OpaqueAuth
  status : AcceptedStatus
  deriving DecidableEq, Repr

/-- A reply to a denied call. -/
inductive RejectedReply where
  | rpcMismatch (range : VersionRange)
  | authError (stat : AuthStat)
  deriving DecidableEq, Repr

/-- The body of a reply. -/
inductive ReplyBody where
  | accepted (reply : AcceptedReply)
  | denied (reply : RejectedReply)
  deriving DecidableEq, Repr

/-- The body of a message. -/
inductive MessageBody where
  | call (body : CallBody)
  | reply (body : ReplyBody)
  deriving DecidableEq, Repr

/-- An RPC message. -/
structure RpcMessage where
  xid : Xid
  body : MessageBody
  deriving DecidableEq, Repr

/-- The message is a reply. -/
def RpcMessage.isReply (m : RpcMessage) : Bool :=
  match m.body with
  | .call _ => false
  | .reply _ => true

end OncRpc
