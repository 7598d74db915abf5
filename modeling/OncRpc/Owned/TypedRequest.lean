import OncRpc.Owned.Exchange
import OncRpc.Owned.Refusal
import OncRpc.Xdr.Segments

/-!
# The requests of typed calls

A typed call encodes its argument into segments, and sends them behind an envelope without payload.
What goes to the server is the message of the classic call that has the ordinary encoding of the
argument as its payload.
-/

namespace OncRpc

open Foundation

variable {R : Type}

/-- An argument: a value of one of the types that the runtime has codecs for. -/
abbrev XdrArgument : Type := Σ type : XdrType, type.Carrier

/-- Its segments. -/
instance : XdrEncodeSegments XdrArgument where
  toXdrSegments argument := argument.1.toXdrSegments argument.2

/-- The envelope of a call, with the payload, is the message of the call with the payload. -/
theorem withPayload_build (config : ClientConfig) (xid : Xid) (program : ProgramVersion)
    (procedure : Procedure) (options : TypedCallOptions) (payload : Bytes) :
    (buildRequestMessageWithOptions config xid (.new program procedure []) options).withPayload
        payload =
      buildRequestMessageWithOptions config xid (.new program procedure payload) options := rfl

namespace AsyncClient

/-- The request of a call has the next transaction id, if there is one left. -/
theorem segmentedRequest_eq (c : AsyncClient R) (program : ProgramVersion) (procedure : Procedure)
    (payload : List Bytes) (options : TypedCallOptions) :
    c.segmentedRequest program procedure payload options =
      if c.nextXid = XidAllocator.maxWord then (.error xidExhausted, c)
      else
        (.ok ⟨buildRequestMessageWithOptions c.config c.nextXid (.new program procedure []) options,
          payload⟩, { c with nextXid := c.nextXid + 1 }) := by
  unfold segmentedRequest allocateXid
  split_ifs <;> rfl

/-- Building the request of a typed call, for every argument of the runtime's types.  The request
has the next transaction id, its segments are the ordinary encoding of the argument with every
opaque body that is not empty as a segment of its own, and it sends the message of the classic call
with that encoding, from which the argument is read back if its lengths fit.  Otherwise the argument
has a length that does not fit, or the ids are used up, and the client is as it was. -/
theorem typed_request (c : AsyncClient R) (program : ProgramVersion) (procedure : Procedure)
    (options : TypedCallOptions) (type : XdrType) (value : type.Carrier) :
    (∃ request payload,
      c.encodeRequest program procedure (⟨type, value⟩ : XdrArgument) options =
        (.ok request, { c with nextXid := c.nextXid + 1 }) ∧
      type.encodeXdr value = .bytes payload ∧
      (∀ segment ∈ request.payload, segment ≠ []) ∧ (type.bodies value).Sublist request.payload ∧
      (∀ receiver : R, (Request.into request receiver).message =
        buildRequestMessageWithOptions c.config c.nextXid (.new program procedure payload)
          options) ∧
      (type.Fits value → ∀ rest, type.decodeXdr (payload ++ rest) = some (.ok value, rest))) ∨
    (∃ len, 2 ^ 32 ≤ len ∧ ¬ type.Fits value ∧
      c.encodeRequest program procedure (⟨type, value⟩ : XdrArgument) options =
        (.error (.encode (.lengthLimit len (2 ^ 32 - 1))), c)) ∨
    (c.nextXid = XidAllocator.maxWord ∧
      c.encodeRequest program procedure (⟨type, value⟩ : XdrArgument) options =
        (.error xidExhausted, c)) := by
  have hargument : XdrEncodeSegments.toXdrSegments (⟨type, value⟩ : XdrArgument) =
      type.toXdrSegments value := rfl
  unfold encodeRequest
  rw [hargument]
  rcases type.segments_of_value value with ⟨segments, hsegments, hencode, hne, hkept⟩ | hrefused
  · simp only [hsegments, segmentedRequest_eq]
    by_cases hlast : c.nextXid = XidAllocator.maxWord
    · exact .inr (.inr ⟨hlast, if_pos hlast⟩)
    · refine .inl ⟨_, segments.flatten, if_neg hlast, hencode, hne, hkept, fun receiver => ?_,
        fun hfits rest => ?_⟩
      · exact withPayload_build c.config c.nextXid program procedure options segments.flatten
      · obtain ⟨b, hcodes, -⟩ := type.roundTrips value hfits
        have hwrites := Filter.eventually_const.mp hcodes.writes
        rw [hencode] at hwrites
        obtain rfl := Except.ok.inj (Option.some.inj hwrites)
        exact Filter.eventually_const.mp hcodes.reads rest
  · obtain ⟨len, hlen, hsegments, hfits⟩ := hrefused
    simp only [hsegments]
    exact .inr (.inl ⟨len, hlen, hfits, rfl⟩)

end AsyncClient

end OncRpc
