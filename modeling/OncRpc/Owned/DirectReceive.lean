import OncRpc.Owned.TypedReceive

/-!
# Direct receive of an opaque value

A receive into an `XdrReplyReceiver` is driven by the reads of a record: each read fills a part of
the range the receiver supplied.  `ReceiverAt` describes a receiver by the bytes it has consumed, in
whatever pieces they came.  Over a payload that starts with decodable metadata the receiver asks for
no byte behind the metadata until it has decoded them (`Within`).
-/

namespace OncRpc

open Foundation

/-! ## The receive of a payload -/

section Drive

variable {R : Type} [ReplyReceiver R]

/-- The result of a receive if the record ends here. -/
def Stage.resultAtEnd (stage : Stage R) : Option (Except RuntimeError (RpcMessage × ℕ)) :=
  match stage.pending with
  | some (_, atEnd) => some atEnd
  | none => stage.outcome

/-- The chunks answer the reads of a receive one after the other: none is empty or larger than the
storage offered.  A receive that is over reads nothing more. -/
def Stage.Chunked : Stage R → List Bytes → Prop
  | _, [] => True
  | stage, chunk :: chunks =>
    chunk ≠ [] ∧ (∀ wants atEnd, stage.pending = some (wants, atEnd) → chunk.length ≤ wants) ∧
      (stage.feed chunk).Chunked chunks

/-- The receive of a successful reply, once its envelope is decoded. -/
def Stage.begin (receiver : R) (reply : RpcMessage) : Stage R :=
  .nextRange ⟨receiver, 0⟩ reply 0

end Drive

variable {M : Type} [XdrReplyMetadata M]

/-- What a typed call completes with if the record ends here. -/
def Stage.typedOutcome (stage : Stage (XdrReplyReceiver M)) (reply : RpcMessage) :
    Option (TypedReceiveOutcome M) :=
  match stage.resultAtEnd, stage.sender with
  | some received, .segmented target =>
    some (target.receiver.finish
      ((segmentedResult received).bind fun header => handleReply reply.xid header))
  | _, _ => none

/-- Receive the payload of a successful reply, in chunks, and complete the typed call. -/
def typedReceive (dest : Bytes) (reply : RpcMessage) (chunks : List Bytes) :
    Option (TypedReceiveOutcome M) :=
  (chunks.foldl Stage.feed (.begin (XdrReplyReceiver.new dest) reply)).typedOutcome reply

/-- The length of the opaque value of a result, zero if it has none. -/
def XdrReplyMetadata.valueLen (m : M) : ℕ := (opaqueLen m).getD 0

open XdrReplyMetadata (valueLen)

/-- What is assumed of the decoder of metadata.  On a part of decodable metadata it reports that the
field it stands at is incomplete: it leaves the bytes of the field that are there, and the number of
bytes it needs exceeds them by no more than what the metadata still have.  Decodable metadata do not
exceed the bound of their type. -/
structure XdrReplyMetadata.Exact (M : Type) [XdrReplyMetadata M] : Prop where
  incomplete : ∀ {front back : Bytes} {m : M}, decodeXdr (front ++ back) = (.ok m, []) → back ≠ [] →
    ∃ needed field, decodeXdr (M := M) front = (.error (.unexpectedEof needed), field) ∧
      field.length < needed ∧ needed ≤ field.length + back.length
  bound : ∀ {p : Bytes} {m : M}, decodeXdr p = (.ok m, []) → p.length ≤ maxPrefixBytes M

/-! ## Writing over a part of a slice -/

/-- Writing behind a front leaves it as it is. -/
theorem overwrite_append (front back chunk : Bytes) :
    overwrite (front ++ back) front.length chunk = front ++ chunk ++ back.drop chunk.length := by
  unfold overwrite
  rw [List.take_left, ← List.drop_drop, List.drop_left]

/-- What is written and what stands in front of it. -/
theorem overwrite_take {slice chunk : Bytes} {offset : ℕ} (h : offset ≤ slice.length) :
    (overwrite slice offset chunk).take (offset + chunk.length) = slice.take offset ++ chunk := by
  have hlen : (slice.take offset ++ chunk).length = offset + chunk.length := by
    rw [List.length_append, List.length_take]
    omega
  rw [overwrite, ← hlen, List.take_left]

/-- Writing in a slice keeps its length. -/
theorem overwrite_length {slice chunk : Bytes} {offset : ℕ}
    (h : offset + chunk.length ≤ slice.length) :
    (overwrite slice offset chunk).length = slice.length := by
  simp only [overwrite, List.length_append, List.length_take, List.length_drop]
  omega

/-- Writing two pieces, one behind the other, is writing them together. -/
theorem overwrite_overwrite {slice first second : Bytes} {offset : ℕ}
    (h : offset + first.length ≤ slice.length) :
    overwrite (overwrite slice offset first) (offset + first.length) second =
      overwrite slice offset (first ++ second) := by
  have hle : offset ≤ slice.length := by omega
  have hlen : (slice.take offset ++ first).length = offset + first.length := by
    rw [List.length_append, List.length_take]
    omega
  have hback : overwrite slice offset first =
      (slice.take offset ++ first) ++ slice.drop (offset + first.length) := rfl
  rw [hback, ← hlen, overwrite_append, hlen, List.drop_drop]
  simp only [overwrite, List.append_assoc, List.length_append, Nat.add_assoc]

/-- Writing zeros over zeros changes nothing. -/
theorem overwrite_zeros {n k j : ℕ} (h : k + j ≤ n) :
    overwrite (List.replicate n 0) k (List.replicate j 0) = List.replicate n 0 := by
  unfold overwrite
  rw [List.take_replicate, List.length_replicate, List.drop_replicate, Nat.min_eq_left (by omega),
    List.replicate_append_replicate, List.replicate_append_replicate]
  congr 1
  omega

/-- There are at most three bytes of padding. -/
theorem xdrPadding_le (len : ℕ) : xdrPadding len ≤ 3 := by
  unfold xdrPadding
  omega

/-- Bytes none of which is different from zero are zeros. -/
theorem eq_zeros_of_any {chunk : Bytes} (h : chunk.any (· != 0) = false) :
    chunk = List.replicate chunk.length 0 := by
  refine List.eq_replicate_of_mem fun b hb => ?_
  by_contra hne
  have hany : chunk.any (· != 0) = true := List.any_eq_true.mpr ⟨b, hb, by simpa using hne⟩
  rw [h] at hany
  exact absurd hany (by decide)

/-! ## What a receiver has consumed -/

/-- The receiver has consumed the given bytes: a part of the metadata, or the metadata and parts of
the opaque value and of its padding. -/
inductive ReceiverAt (dest : Bytes) : Bytes → XdrReplyReceiver M → Prop
  | metadata (scratch : Bytes) (used target : ℕ)
    (hscratch : scratch.length = XdrReplyMetadata.maxPrefixBytes M) (hused : used ≤ scratch.length)
    (htarget : target ≤ scratch.length) :
    ReceiverAt dest (scratch.take used) ⟨dest, scratch, used, target, none, 0, 0, [0, 0, 0], 0⟩
  | data (p body : Bytes) (zeros : ℕ) (m : M) (scratch : Bytes) (used target : ℕ)
    (hp : XdrReplyMetadata.decodeXdr p = (.ok m, []))
    (hfits : valueLen m ≤ dest.length)
    (hbody : body.length ≤ valueLen m)
    (hzeros : zeros ≤ xdrPadding (valueLen m))
    (hfull : zeros ≠ 0 → body.length = valueLen m) :
    ReceiverAt dest (p ++ body ++ List.replicate zeros 0)
      ⟨body ++ dest.drop body.length, scratch, used, target, some m,
        valueLen m, body.length, [0, 0, 0], zeros⟩

namespace XdrReplyReceiver

/-- The receiver has decoded its metadata or waits for bytes of them. -/
def Parsed (r : XdrReplyReceiver M) : Prop :=
  r.metadata = none → r.used < r.target

/-- A receiver that has its metadata, or waits for bytes of them, does not decode. -/
theorem Parsed.parsePrefix {r : XdrReplyReceiver M} (h : r.Parsed) :
    r.parsePrefix = (r, .ok ()) := by
  unfold XdrReplyReceiver.parsePrefix
  refine if_pos ?_
  rcases hm : r.metadata with _ | m
  · exact .inr (h hm)
  · exact .inl rfl

/-- Bytes of the metadata go to the scratch array. -/
theorem store_metadata {r : XdrReplyReceiver M} (h : r.metadata = none) (chunk : Bytes) :
    r.range = r.target - r.used ∧ (r.fill chunk).advance chunk.length =
      parsePrefix { r with
        scratch := overwrite r.scratch r.used chunk, used := r.used + chunk.length } := by
  have hnone : r.metadata.isNone = true := by simp [h]
  unfold range fill
  rw [if_pos hnone, if_pos hnone]
  exact ⟨rfl, if_pos hnone⟩

/-- Bytes of the value go to the destination. -/
theorem store_data {r : XdrReplyReceiver M} {m : M} (h : r.metadata = some m)
    (hdata : r.dataUsed < r.dataLen) (chunk : Bytes) :
    r.range = r.dataLen - r.dataUsed ∧ (r.fill chunk).advance chunk.length =
      ({ r with
        buffer := overwrite r.buffer r.dataUsed chunk, dataUsed := r.dataUsed + chunk.length },
        .ok ()) := by
  have hsome : ¬ r.metadata.isNone = true := by simp [h]
  unfold range fill
  rw [if_neg hsome, if_neg hsome, if_pos hdata, if_pos hdata]
  exact ⟨rfl, (if_neg hsome).trans (if_pos hdata)⟩

/-- The bytes behind the value are checked. -/
theorem store_padding {r : XdrReplyReceiver M} {m : M} (h : r.metadata = some m)
    (hdata : ¬ r.dataUsed < r.dataLen) (chunk : Bytes) :
    r.range = xdrPadding r.dataLen - r.paddingUsed ∧ (r.fill chunk).advance chunk.length =
      let r' := { r with
        padding := overwrite r.padding r.paddingUsed chunk,
        paddingUsed := r.paddingUsed + chunk.length }
      if (r'.padding.take r'.paddingUsed).any (· != 0) then
        (r', .error (.transport "nonzero XDR opaque padding"))
      else (r', .ok ()) := by
  have hsome : ¬ r.metadata.isNone = true := by simp [h]
  unfold range fill
  rw [if_neg hsome, if_neg hsome, if_neg hdata, if_neg hdata]
  exact ⟨rfl, (if_neg hsome).trans (if_neg hdata)⟩

end XdrReplyReceiver

namespace ReceiverAt

variable {dest consumed chunk : Bytes} {r r' : XdrReplyReceiver M}

theorem new (dest : Bytes) : ReceiverAt dest [] (XdrReplyReceiver.new dest : XdrReplyReceiver M) :=
  @metadata M _ dest (List.replicate (XdrReplyMetadata.maxPrefixBytes M) 0) 0 0 (by simp)
    (Nat.zero_le _) (Nat.zero_le _)

/-- Decoding the metadata consumes nothing. -/
theorem parsePrefix (h : ReceiverAt dest consumed r) :
    (∃ r', r.parsePrefix = (r', .ok ()) ∧ ReceiverAt dest consumed r' ∧ r'.Parsed) ∨
      ∃ r' e, r.parsePrefix = (r', .error e) := by
  cases h with
  | metadata scratch used target hscratch hused htarget =>
    unfold XdrReplyReceiver.parsePrefix
    by_cases hwait : used < target
    · left
      refine ⟨_, if_pos (.inr hwait), metadata scratch used target hscratch hused htarget, ?_⟩
      exact fun _ => hwait
    · rw [if_neg (by simp [hwait])]
      rcases hdecode : XdrReplyMetadata.decodeXdr (M := M) (scratch.take used) with
        ⟨error | m, input⟩
      · rcases error with _ | needed | _ | _ | _ | _
        case unexpectedEof =>
          simp only
          rcases hadd : checkedAdd used (max (needed - input.length) 1) with _ | target'
          · exact .inr ⟨_, _, rfl⟩
          · obtain ⟨rfl, -⟩ := checkedAdd_eq_some.mp hadd
            simp only
            split_ifs with hbound
            · exact .inr ⟨_, _, rfl⟩
            · refine .inl ⟨_, rfl, metadata scratch used _ hscratch hused (by omega), fun _ => ?_⟩
              simp only
              omega
        all_goals exact .inr ⟨_, _, rfl⟩
      · simp only
        split_ifs with hinput hlarge
        · exact .inr ⟨_, _, rfl⟩
        · exact .inr ⟨_, _, rfl⟩
        · have hnil : input = [] := not_not.mp hinput
          rw [hnil] at hdecode
          have hdata := @data M _ dest (scratch.take used) [] 0 m scratch used target hdecode
            (Nat.le_of_not_lt hlarge) (Nat.zero_le _) (Nat.zero_le _) (fun h => absurd rfl h)
          refine .inl ⟨_, rfl, ?_, by intro h; cases h⟩
          rw [List.append_nil, List.replicate_zero, List.append_nil] at hdata
          exact hdata
  | data p body zeros m scratch used target hp hfits hbody hzeros hfull =>
    left
    refine ⟨_, if_pos (.inl rfl), ?_, by intro h; cases h⟩
    exact data p body zeros m scratch used target hp hfits hbody hzeros hfull

/-- The check of the padding received. -/
theorem padding_any {zeros : ℕ} (hzeros : zeros ≤ 3) :
    ((overwrite [0, 0, 0] zeros chunk).take (zeros + chunk.length)).any (· != 0) =
      chunk.any (· != 0) := by
  rw [overwrite_take (by simpa using hzeros), List.any_append]
  have htake : ([0, 0, 0] : Bytes).take zeros = List.replicate zeros 0 := by
    rw [show ([0, 0, 0] : Bytes) = List.replicate 3 0 from rfl, List.take_replicate,
      Nat.min_eq_left hzeros]
  rw [htake, List.any_replicate]
  simp

/-- Bytes stored in the range supplied are consumed, if they are not refused. -/
theorem store (h : ReceiverAt dest consumed r) (hparsed : r.Parsed)
    (hfits : chunk.length ≤ r.range) :
    (∃ r', (r.fill chunk).advance chunk.length = (r', .ok ()) ∧
        ReceiverAt dest (consumed ++ chunk) r' ∧ r'.Parsed) ∨
      ∃ r' e, (r.fill chunk).advance chunk.length = (r', .error e) := by
  cases h with
  | metadata scratch used target hscratch hused htarget =>
    have hfit : chunk.length ≤ target - used := hfits
    have hlt : used < target := hparsed rfl
    have hat := @metadata M _ dest (overwrite scratch used chunk) (used + chunk.length) target
      ((overwrite_length (by omega)).trans hscratch) (by rw [overwrite_length (by omega)]; omega)
      (by rw [overwrite_length (by omega)]; omega)
    rw [overwrite_take hused] at hat
    exact hat.parsePrefix
  | data p body zeros m scratch used target hp hdest hbody hzeros hfull =>
    by_cases hroom : body.length < valueLen m
    · obtain ⟨hrange, hstore⟩ := @XdrReplyReceiver.store_data M _ ⟨body ++ dest.drop body.length,
        scratch, used, target, some m, valueLen m, body.length, [0, 0, 0], zeros⟩ m rfl hroom chunk
      rw [hrange] at hfits
      simp only at hfits
      have hnone : zeros = 0 := by
        by_contra hne
        exact absurd (hfull hne) (by omega)
      have hat := @data M _ dest p (body ++ chunk) 0 m scratch used target hp hdest
        (by rw [List.length_append]; omega) (Nat.zero_le _) (fun hne => absurd rfl hne)
      refine .inl ⟨_, hstore, ?_, by intro h; cases h⟩
      simp only
      rw [overwrite_append, List.drop_drop, hnone]
      simpa using hat
    · obtain ⟨hrange, hstore⟩ := @XdrReplyReceiver.store_padding M _ ⟨body ++ dest.drop body.length,
        scratch, used, target, some m, valueLen m, body.length, [0, 0, 0], zeros⟩ m rfl hroom chunk
      rw [hrange] at hfits
      have hpad := xdrPadding_le (valueLen m)
      simp only at hfits hstore
      rw [padding_any (by omega)] at hstore
      rw [hstore]
      by_cases hany : chunk.any (· != 0) = true
      · rw [if_pos hany]
        exact .inr ⟨_, _, rfl⟩
      · have hchunk := eq_zeros_of_any (Bool.eq_false_iff.mpr hany)
        have hover : overwrite [0, 0, 0] zeros chunk = [0, 0, 0] := by
          rw [hchunk]
          exact @overwrite_zeros 3 zeros chunk.length (by omega)
        have hat := @data M _ dest p body (zeros + chunk.length)
          m scratch used target hp hdest hbody
          (by omega) (fun _ => by omega)
        rw [List.replicate_add, ← hchunk, ← List.append_assoc] at hat
        rw [if_neg hany, hover]
        exact .inl ⟨_, rfl, hat, by intro h; cases h⟩

end ReceiverAt

/-- A receiver without metadata has consumed what stands in its scratch array. -/
theorem ReceiverAt.used_of_none {dest consumed : Bytes} {r : XdrReplyReceiver M}
    (h : ReceiverAt dest consumed r) (hnone : r.metadata = none) : consumed.length = r.used := by
  cases h with
  | metadata scratch used target hscratch hused htarget => exact List.length_take_of_le hused
  | data => cases hnone

/-! ## What a receive has consumed -/

/-- The receive has consumed the given bytes. -/
inductive TypedAt (dest : Bytes) (reply : RpcMessage) :
    Bytes → Stage (XdrReplyReceiver M) → Prop
  | payload {consumed : Bytes} {r : XdrReplyReceiver M} (hr : ReceiverAt dest consumed r)
    (hparsed : r.Parsed) (hroom : 0 < r.range) :
    TypedAt dest reply consumed (.payload ⟨r, consumed.length⟩ reply consumed.length r.range)
  | probe {consumed : Bytes} {r : XdrReplyReceiver M} (hr : ReceiverAt dest consumed r)
    (hparsed : r.Parsed) (hroom : r.range = 0) :
    TypedAt dest reply consumed (.probe ⟨r, consumed.length⟩ reply true consumed.length)
  | extra {consumed : Bytes} (target : Target (XdrReplyReceiver M)) (count : ℕ) :
    TypedAt dest reply consumed (.extra target reply true count)
  | ended {consumed : Bytes} (target : Target (XdrReplyReceiver M)) (e : RuntimeError) :
    TypedAt dest reply consumed (.ended (.segmented target) (.error e))

namespace TypedAt

variable {dest consumed chunk : Bytes} {reply : RpcMessage} {stage : Stage (XdrReplyReceiver M)}

/-- A receive that has its metadata, or waits for bytes of them, goes on with the range it has. -/
theorem nextRange_of_parsed {r : XdrReplyReceiver M} (hparsed : r.Parsed) (payloadLen length : ℕ) :
    Stage.nextRange ⟨r, payloadLen⟩ reply length =
      if r.range = 0 then .probe ⟨r, payloadLen⟩ reply true length
      else .payload ⟨r, payloadLen⟩ reply length r.range := by
  have hbuffer : Target.buffer (⟨r, payloadLen⟩ : Target (XdrReplyReceiver M)) =
      (⟨r, payloadLen⟩, .ok r.range) := by
    unfold Target.buffer
    simp only [ReplyReceiver.buffer, XdrReplyReceiver.nextRange, hparsed.parsePrefix]
  unfold Stage.nextRange
  rw [hbuffer]
  rcases r.range with _ | room
  · rfl
  · rfl

/-- The next range is asked for. -/
theorem of_parsed {r : XdrReplyReceiver M} (hr : ReceiverAt dest consumed r) (hparsed : r.Parsed) :
    TypedAt dest reply consumed (Stage.nextRange ⟨r, consumed.length⟩ reply consumed.length) := by
  rw [nextRange_of_parsed hparsed]
  split_ifs with hroom
  · exact .probe hr hparsed hroom
  · exact .payload hr hparsed (Nat.pos_of_ne_zero hroom)

/-- The receive begins with an attempt to decode. -/
theorem begin_eq {r : XdrReplyReceiver M}
    (h : (XdrReplyReceiver.new dest).parsePrefix = (r, .ok ())) (hparsed : r.Parsed) :
    Stage.begin (XdrReplyReceiver.new dest) reply = Stage.nextRange ⟨r, 0⟩ reply 0 := by
  unfold Stage.begin Stage.nextRange Target.buffer
  simp only [ReplyReceiver.buffer, XdrReplyReceiver.nextRange, h, hparsed.parsePrefix]

/-- A receive begins with nothing consumed. -/
theorem begin (dest : Bytes) (reply : RpcMessage) :
    TypedAt dest reply [] (Stage.begin (XdrReplyReceiver.new dest : XdrReplyReceiver M) reply) := by
  rcases (ReceiverAt.new (M := M) dest).parsePrefix with ⟨r, hparse, hr, hparsed⟩ | ⟨r, e, hparse⟩
  · rw [begin_eq hparse hparsed]
    exact of_parsed hr hparsed
  · unfold Stage.begin Stage.nextRange Target.buffer
    simp only [ReplyReceiver.buffer, XdrReplyReceiver.nextRange, hparse]
    exact .ended _ e

/-- Bytes that the receiver takes are followed by its next range. -/
theorem feed_of_store {r r' : XdrReplyReceiver M}
    (hstore : (r.fill chunk).advance chunk.length = (r', .ok ()))
    (hlen : consumed.length + chunk.length ≤ usizeMax) :
    Stage.feed (.payload ⟨r, consumed.length⟩ reply consumed.length r.range) chunk =
      Stage.nextRange ⟨r', (consumed ++ chunk).length⟩ reply (consumed ++ chunk).length := by
  have hadd : checkedAdd consumed.length chunk.length = some (consumed ++ chunk).length :=
    checkedAdd_eq_some.mpr ⟨List.length_append, hlen⟩
  have hadvance : ReplyReceiver.advance (ReplyReceiver.fill r chunk) chunk.length =
    (r', .ok ()) := hstore
  simp only [Stage.feed, Target.fill, Target.advance, hadd, hadvance, List.length_append]

/-- Bytes that the receiver refuses end the receive. -/
theorem feed_of_refused {r r' : XdrReplyReceiver M} {e : RuntimeError}
    (hstore : (r.fill chunk).advance chunk.length = (r', .error e))
    (hlen : consumed.length + chunk.length ≤ usizeMax) :
    Stage.feed (.payload ⟨r, consumed.length⟩ reply consumed.length r.range) chunk =
      .ended (.segmented ⟨r', (consumed ++ chunk).length⟩) (.error e) := by
  have hadd : checkedAdd consumed.length chunk.length = some (consumed ++ chunk).length :=
    checkedAdd_eq_some.mpr ⟨List.length_append, hlen⟩
  have hadvance : ReplyReceiver.advance (ReplyReceiver.fill r chunk) chunk.length =
    (r', .error e) := hstore
  simp only [Stage.feed, Target.fill, Target.advance, hadd, hadvance]

/-- The bytes of a read are consumed. -/
theorem feed (h : TypedAt dest reply consumed stage)
    (hfits : ∀ wants atEnd, stage.pending = some (wants, atEnd) → chunk.length ≤ wants)
    (hlen : consumed.length + chunk.length ≤ usizeMax) :
    TypedAt dest reply (consumed ++ chunk) (stage.feed chunk) := by
  cases h with
  | @payload r hr hparsed hroom =>
    rcases hr.store hparsed (hfits _ _ rfl) with ⟨r', hstore, hr', hparsed'⟩ | ⟨r', e, hstore⟩
    · rw [feed_of_store hstore hlen]
      exact of_parsed hr' hparsed'
    · rw [feed_of_refused hstore hlen]
      exact .ended _ e
  | probe hr hparsed hroom => exact .extra _ _
  | extra target count => exact .extra _ _
  | ended target e => exact .ended _ _

/-- The bytes of all reads are consumed. -/
theorem foldl_feed {chunks : List Bytes} (h : TypedAt dest reply consumed stage)
    (hchunked : stage.Chunked chunks)
    (hlen : (consumed ++ chunks.flatten).length ≤ usizeMax) :
    TypedAt dest reply (consumed ++ chunks.flatten) (chunks.foldl Stage.feed stage) := by
  induction chunks generalizing consumed stage with
  | nil => simpa using h
  | cons chunk chunks ih =>
    obtain ⟨-, hfits, hrest⟩ := hchunked
    rw [List.flatten_cons, ← List.append_assoc] at hlen ⊢
    refine ih (h.feed hfits ?_) hrest hlen
    rw [List.length_append, List.length_append] at hlen
    omega

end TypedAt

/-! ## How a receive ends -/

/-- The payload is metadata, an opaque value of the length they give, and zeros up to a multiple of
four, and the destination has room for the value. -/
def XdrReplyMetadata.Splits (dest payload : Bytes) (m : M) (p body : Bytes) : Prop :=
  payload = p ++ body ++ List.replicate (xdrPadding body.length) 0 ∧
    decodeXdr p = (.ok m, []) ∧ body.length = valueLen m ∧ body.length ≤ dest.length

/-- A receiver that has consumed a payload completes with the metadata exactly if it has consumed
the value and its padding too. -/
theorem ReceiverAt.finish {dest consumed : Bytes} {r : XdrReplyReceiver M}
    (h : ReceiverAt dest consumed r) (hparsed : r.Parsed) :
    (r.range = 0 ∧ ∃ m p body, XdrReplyMetadata.Splits dest consumed m p body ∧
        r.finish (.ok ()) = ⟨.ok m, body ++ dest.drop body.length, body.length⟩) ∨
      (0 < r.range ∧ ∃ e, (r.finish (.ok ())).result = .error e) := by
  unfold XdrReplyReceiver.finish
  simp only [hparsed.parsePrefix]
  cases h with
  | metadata scratch used target hscratch hused htarget =>
    right
    obtain ⟨hrange, -⟩ := @XdrReplyReceiver.store_metadata M _
      ⟨dest, scratch, used, target, none, 0, 0, [0, 0, 0], 0⟩ rfl []
    have hlt : used < target := hparsed rfl
    rw [hrange]
    have hempty : ¬ ((0 : ℕ) ≠ 0 ∨ 0 ≠ xdrPadding 0) := by decide
    exact ⟨Nat.sub_pos_of_lt hlt, .transport "truncated XDR result metadata", if_neg hempty⟩
  | data p body zeros m scratch used target hp hdest hbody hzeros hfull =>
    by_cases hroom : body.length < valueLen m
    · obtain ⟨hrange, -⟩ := @XdrReplyReceiver.store_data M _ ⟨body ++ dest.drop body.length,
        scratch, used, target, some m, valueLen m, body.length, [0, 0, 0], zeros⟩ m rfl hroom []
      rw [hrange]
      exact .inr ⟨Nat.sub_pos_of_lt hroom, _, if_pos (.inl (Nat.ne_of_lt hroom))⟩
    · obtain ⟨hrange, -⟩ := @XdrReplyReceiver.store_padding M _ ⟨body ++ dest.drop body.length,
        scratch, used, target, some m, valueLen m, body.length, [0, 0, 0], zeros⟩ m rfl hroom []
      rw [hrange]
      simp only
      have hbody' : body.length = valueLen m := by omega
      by_cases hpad : zeros < xdrPadding (valueLen m)
      · exact .inr ⟨Nat.sub_pos_of_lt hpad, _, if_pos (.inr (Nat.ne_of_lt hpad))⟩
      · have hzeros' : zeros = xdrPadding body.length := by
          rw [hbody']
          omega
        refine .inl ⟨by omega, m, p, body, ⟨by rw [hzeros'], hp, hbody', by omega⟩, ?_⟩
        rw [if_neg (by omega)]

/-- If a receive that has consumed a payload is completed, its result is the metadata exactly if it
waits for nothing more. -/
theorem TypedAt.typedOutcome {dest payload : Bytes} {reply : RpcMessage}
    {stage : Stage (XdrReplyReceiver M)} (h : TypedAt dest reply payload stage)
    (hreply : reply.isSuccess = true) (hlen : payload.length < usizeMax) :
    ∃ outcome, stage.typedOutcome reply = some outcome ∧
      ((∃ m p body, XdrReplyMetadata.Splits dest payload m p body ∧
          outcome = ⟨.ok m, body ++ dest.drop body.length, body.length⟩) ∨
        ((∀ target success length, stage ≠ .probe target reply success length) ∧
          ∃ e, outcome.result = .error e)) := by
  have htaken : ((segmentedResult (.ok (reply, payload.length))).bind
      fun header => handleReply reply.xid header) = .ok () := by
    have hsegmented : segmentedResult (.ok (reply, payload.length)) = .ok reply :=
      if_pos (Nat.ne_of_lt hlen)
    rw [hsegmented]
    exact handleReply_of_isSuccess hreply
  cases h with
  | @payload r hr hparsed hroom =>
    refine ⟨r.finish (.ok ()), ?_, ?_⟩
    · simp only [Stage.typedOutcome, Stage.resultAtEnd, Stage.pending, Stage.sender, htaken]
    · rcases hr.finish hparsed with ⟨hzero, -⟩ | ⟨-, herror⟩
      · omega
      · exact .inr ⟨(by intro _ _ _ h; cases h), herror⟩
  | @probe r hr hparsed hroom =>
    refine ⟨r.finish (.ok ()), ?_, ?_⟩
    · simp only [Stage.typedOutcome, Stage.resultAtEnd, Stage.pending, Stage.sender, htaken]
    · rcases hr.finish hparsed with ⟨-, hsplits⟩ | ⟨hpos, -⟩
      · exact .inl hsplits
      · omega
  | extra target count => exact ⟨_, rfl, .inr ⟨(by intro _ _ _ h; cases h), _, rfl⟩⟩
  | ended target e => exact ⟨_, rfl, .inr ⟨(by intro _ _ _ h; cases h), _, rfl⟩⟩

/-! ## Over a payload that starts with metadata -/

section Front

variable {dest payload consumed chunk p : Bytes} {m : M} {reply : RpcMessage}

/-- As long as the receiver has not decoded its metadata it asks for no byte behind them. -/
def XdrReplyReceiver.Within (p : Bytes) (r : XdrReplyReceiver M) : Prop :=
  r.metadata = none → r.target ≤ p.length

/-- No payload starts with metadata in two ways. -/
theorem XdrReplyMetadata.Exact.unique (hM : XdrReplyMetadata.Exact M) {p' : Bytes} {m' : M}
    (hp : decodeXdr p = (.ok m, [])) (hp' : decodeXdr p' = (.ok m', []))
    (hfront : p <+: payload) (hfront' : p' <+: payload) : p = p' ∧ m = m' := by
  have key : ∀ {q q' : Bytes} {n n' : M}, decodeXdr q = (.ok n, []) → decodeXdr q' = (.ok n', []) →
      q <+: q' → q = q' := by
    rintro q q' n n' hq hq' ⟨back, rfl⟩
    by_contra hne
    have hback : back ≠ [] := by
      rintro rfl
      exact hne (List.append_nil q).symm
    obtain ⟨needed, field, herror, -⟩ := hM.incomplete hq' hback
    rw [hq] at herror
    cases herror
  have heq : p = p' := by
    rcases List.prefix_or_prefix_of_prefix hfront hfront' with hle | hle
    · exact key hp hp' hle
    · exact (key hp' hp hle).symm
  subst heq
  rw [hp] at hp'
  cases hp'
  exact ⟨rfl, rfl⟩

/-- Over a part of the metadata, the receiver asks for more of them; it decodes them once they are
complete, and refuses them only if the destination is too small. -/
theorem ReceiverAt.parsePrefix_within (hM : XdrReplyMetadata.Exact M) {r : XdrReplyReceiver M}
    (h : ReceiverAt dest consumed r) (hnone : r.metadata = none)
    (hp : XdrReplyMetadata.decodeXdr p = (.ok m, [])) (hfront : consumed <+: p)
    (hwithin : r.Within p) (hlen : p.length ≤ usizeMax) :
    (∃ r', r.parsePrefix = (r', .ok ()) ∧ r'.Within p) ∨
      (dest.length < valueLen m ∧ ∃ r' e, r.parsePrefix = (r', .error e)) := by
  cases h with
  | data => cases hnone
  | metadata scratch used target hscratch hused htarget =>
    unfold XdrReplyReceiver.parsePrefix
    by_cases hwait : used < target
    · exact .inl ⟨_, if_pos (.inr hwait), hwithin⟩
    rw [if_neg (by simp [hwait])]
    obtain ⟨back, hback⟩ := hfront
    simp only
    by_cases hnil : back = []
    · -- the metadata are complete
      rw [hnil, List.append_nil] at hback
      rw [hback, hp]
      simp only
      rw [if_neg (by simp)]
      by_cases hlarge : dest.length < valueLen m
      · exact .inr ⟨hlarge, _, _, if_pos hlarge⟩
      · exact .inl ⟨_, if_neg hlarge, by intro h; cases h⟩
    · -- a field is incomplete
      rw [← hback] at hp
      obtain ⟨needed, field, herror, hlt, hneeded⟩ := hM.incomplete hp hnil
      have hused' : (scratch.take used).length = used := List.length_take_of_le hused
      have hsum : used + back.length = p.length := by
        rw [← hback, List.length_append, hused']
      have hbound := hM.bound hp
      rw [hback] at hbound
      have hadd : checkedAdd used (max (needed - field.length) 1) =
          some (used + (needed - field.length)) :=
        checkedAdd_eq_some.mpr ⟨by omega, by omega⟩
      simp only [herror, hadd]
      rw [if_neg (by omega)]
      refine .inl ⟨_, rfl, fun _ => ?_⟩
      simp only
      omega

/-- A payload that splits is as long as its parts. -/
theorem XdrReplyMetadata.Splits.length {body : Bytes} (h : Splits dest payload m p body) :
    payload.length = p.length + valueLen m + xdrPadding (valueLen m) := by
  obtain ⟨rfl, -, hbody, -⟩ := h
  simp only [List.length_append, List.length_replicate, hbody]

/-- The bytes behind the value of a payload that splits are zeros. -/
theorem XdrReplyMetadata.Splits.padding_zero {body body' : Bytes} {zeros : ℕ}
    (h : Splits dest payload m p body) (hbody' : body'.length = valueLen m)
    (hfront : p ++ body' ++ List.replicate zeros 0 ++ chunk <+: payload) :
    chunk.any (· != 0) = false := by
  obtain ⟨rfl, -, hbody, -⟩ := h
  rw [List.append_assoc, List.append_assoc, List.append_assoc,
    List.prefix_append_right_inj] at hfront
  obtain ⟨back, hback⟩ := hfront
  rw [List.append_assoc] at hback
  obtain ⟨-, htail⟩ := List.append_inj hback (hbody'.trans hbody.symm)
  rw [Bool.eq_false_iff]
  intro hany
  obtain ⟨b, hb, hne⟩ := List.any_eq_true.mp hany
  have hmem : b ∈ List.replicate (xdrPadding body.length) (0 : UInt8) := by
    rw [← htail]
    exact List.mem_append_left _ (List.mem_append_right _ hb)
  rw [List.eq_of_mem_replicate hmem] at hne
  exact absurd hne (by decide)

/-- Stored bytes do not make the receiver ask for bytes behind the metadata, and those of a payload
that splits are not refused. -/
theorem ReceiverAt.store_within (hM : XdrReplyMetadata.Exact M) {r : XdrReplyReceiver M}
    (h : ReceiverAt dest consumed r) (hparsed : r.Parsed) (hfits : chunk.length ≤ r.range)
    (hp : XdrReplyMetadata.decodeXdr p = (.ok m, [])) (hfront : p <+: payload)
    (hnext : consumed ++ chunk <+: payload) (hwithin : r.Within p)
    (hlen : payload.length ≤ usizeMax) :
    (∃ r', (r.fill chunk).advance chunk.length = (r', .ok ()) ∧ r'.Within p) ∨
      ((∀ body, ¬ XdrReplyMetadata.Splits dest payload m p body) ∧
        ∃ r' e, (r.fill chunk).advance chunk.length = (r', .error e)) := by
  cases h with
  | metadata scratch used target hscratch hused htarget =>
    obtain ⟨hrange, hstore⟩ := @XdrReplyReceiver.store_metadata M _
      ⟨dest, scratch, used, target, none, 0, 0, [0, 0, 0], 0⟩ rfl chunk
    rw [hrange] at hfits
    rw [hstore]
    simp only at hfits ⊢
    have hlt : used < target := hparsed rfl
    have htarget' : target ≤ p.length := hwithin rfl
    have hat := @metadata M _ dest (overwrite scratch used chunk) (used + chunk.length) target
      ((overwrite_length (by omega)).trans hscratch) (by rw [overwrite_length (by omega)]; omega)
      (by rw [overwrite_length (by omega)]; omega)
    rw [overwrite_take hused] at hat
    have hpart : scratch.take used ++ chunk <+: p := by
      refine List.prefix_of_prefix_length_le hnext hfront ?_
      rw [List.length_append, List.length_take]
      omega
    rcases hat.parsePrefix_within hM rfl hp hpart (fun _ => htarget')
      (hfront.length_le.trans hlen) with hok | ⟨hsmall, herror⟩
    · exact .inl hok
    · refine .inr ⟨fun body hsplits => ?_, herror⟩
      obtain ⟨-, -, hbody, hdest⟩ := hsplits
      omega
  | data p' body zeros m' scratch used target hp' hdest hbody hzeros hfull =>
    by_cases hroom : body.length < valueLen m'
    · obtain ⟨-, hstore⟩ := @XdrReplyReceiver.store_data M _ ⟨body ++ dest.drop body.length,
        scratch, used, target, some m', valueLen m', body.length, [0, 0, 0], zeros⟩
          m' rfl hroom chunk
      exact .inl ⟨_, hstore, by intro h; cases h⟩
    · obtain ⟨hrange, hstore⟩ := @XdrReplyReceiver.store_padding M _ ⟨body ++ dest.drop body.length,
        scratch, used, target, some m', valueLen m', body.length, [0, 0, 0], zeros⟩
          m' rfl hroom chunk
      have hpad := xdrPadding_le (valueLen m')
      simp only at hstore
      rw [padding_any (by omega)] at hstore
      rw [hstore]
      by_cases hany : chunk.any (· != 0) = true
      · rw [if_pos hany]
        refine .inr ⟨fun body' hsplits => ?_, _, _, rfl⟩
        have hfront' : p' <+: payload := by
          refine List.IsPrefix.trans ?_ hnext
          rw [List.append_assoc, List.append_assoc]
          exact List.prefix_append _ _
        obtain ⟨rfl, rfl⟩ := hM.unique hp hp' hfront hfront'
        have hzero := hsplits.padding_zero (by omega) hnext
        rw [hzero] at hany
        exact absurd hany (by decide)
      · rw [if_neg hany]
        exact .inl ⟨_, rfl, by intro h; cases h⟩

/-- The receive reads the payload or probes for its end. -/
def Stage.Live (stage : Stage (XdrReplyReceiver M)) : Prop :=
  (∃ target reply length room, stage = .payload target reply length room) ∨
    ∃ target reply success length, stage = .probe target reply success length

/-- The receive asks for no byte behind the metadata until it has decoded them, and is not over
early if the payload splits. -/
structure OnFront (dest payload p : Bytes) (m : M) (stage : Stage (XdrReplyReceiver M)) : Prop where
  within : ∀ target reply length room, stage = .payload target reply length room →
    target.receiver.Within p
  live : ∀ body, XdrReplyMetadata.Splits dest payload m p body → stage.Live

namespace OnFront

/-- The next range of a receiver is as its target. -/
theorem of_parsed {r : XdrReplyReceiver M} (hparsed : r.Parsed) (hwithin : r.Within p)
    (payloadLen length : ℕ) :
    OnFront dest payload p m (Stage.nextRange ⟨r, payloadLen⟩ reply length) := by
  rw [TypedAt.nextRange_of_parsed hparsed]
  split_ifs with hroom
  · exact ⟨(by intro _ _ _ _ h; cases h), fun _ _ => .inr ⟨_, _, _, _, rfl⟩⟩
  · refine ⟨fun target reply' length' room h => ?_, fun _ _ => .inl ⟨_, _, _, _, rfl⟩⟩
    cases h
    exact hwithin

/-- The receive begins by asking for metadata. -/
theorem begin (reply : RpcMessage) (hM : XdrReplyMetadata.Exact M)
    (hp : XdrReplyMetadata.decodeXdr p = (.ok m, [])) (hfront : p <+: payload)
    (hlen : payload.length ≤ usizeMax) :
    OnFront dest payload p m (Stage.begin (XdrReplyReceiver.new dest) reply) := by
  have hnew := ReceiverAt.new (M := M) dest
  rcases hnew.parsePrefix_within hM rfl hp (List.nil_prefix) (fun _ => Nat.zero_le _)
    (hfront.length_le.trans hlen) with ⟨r, hparse, hwithin⟩ | ⟨hsmall, r, e, hparse⟩
  · rcases hnew.parsePrefix with ⟨r', hparse', -, hparsed⟩ | ⟨r', e, hparse'⟩
    · rw [hparse] at hparse'
      cases hparse'
      rw [TypedAt.begin_eq hparse hparsed]
      exact of_parsed hparsed hwithin _ _
    · rw [hparse] at hparse'
      cases hparse'
  · have hended : Stage.begin (XdrReplyReceiver.new dest) reply =
        .ended (.segmented ⟨r, 0⟩) (.error e) := by
      unfold Stage.begin Stage.nextRange Target.buffer
      simp only [ReplyReceiver.buffer, XdrReplyReceiver.nextRange, hparse]
    rw [hended]
    refine ⟨(by intro _ _ _ _ h; cases h), fun body hsplits => ?_⟩
    obtain ⟨-, -, hbody, hdest⟩ := hsplits
    omega

/-- The bytes of a read keep the receive on the front of the payload. -/
theorem feed {stage : Stage (XdrReplyReceiver M)} (hM : XdrReplyMetadata.Exact M)
    (hp : XdrReplyMetadata.decodeXdr p = (.ok m, [])) (hfront : p <+: payload)
    (hlen : payload.length ≤ usizeMax) (h : OnFront dest payload p m stage)
    (hat : TypedAt dest reply consumed stage) (hne : chunk ≠ [])
    (hfits : ∀ wants atEnd, stage.pending = some (wants, atEnd) → chunk.length ≤ wants)
    (hnext : consumed ++ chunk <+: payload) : OnFront dest payload p m (stage.feed chunk) := by
  cases hat with
  | @payload r hr hparsed hroom =>
    have hsum : consumed.length + chunk.length ≤ usizeMax := by
      rw [← List.length_append]
      exact hnext.length_le.trans hlen
    have hwithin := h.within _ _ _ _ rfl
    rcases hr.store_within hM hparsed (hfits _ _ rfl) hp hfront hnext hwithin hlen with
      ⟨r', hstore, hwithin'⟩ | ⟨hno, r', e, hstore⟩
    · rcases hr.store hparsed (hfits _ _ rfl) with ⟨r'', hstore', -, hparsed'⟩ | ⟨r'', e, hstore'⟩
      · rw [hstore] at hstore'
        cases hstore'
        rw [TypedAt.feed_of_store hstore hsum]
        exact of_parsed hparsed' hwithin' _ _
      · rw [hstore] at hstore'
        cases hstore'
    · rw [TypedAt.feed_of_refused hstore hsum]
      exact ⟨(by intro _ _ _ _ h; cases h), fun body hsplits => absurd hsplits (hno body)⟩
  | @probe r hr hparsed hroom =>
    refine ⟨(by intro _ _ _ _ h; cases h), fun body hsplits => ?_⟩
    rcases hr.finish hparsed with ⟨-, m', p', body', hsplits', -⟩ | ⟨hpos, -⟩
    · -- everything is consumed already
      have hconsumed : consumed <+: payload := (List.prefix_append _ _).trans hnext
      have hfront' : p' <+: payload := by
        refine List.IsPrefix.trans ?_ hconsumed
        rw [hsplits'.1, List.append_assoc]
        exact List.prefix_append _ _
      obtain ⟨rfl, rfl⟩ := hM.unique hp hsplits'.2.1 hfront hfront'
      have hle := hnext.length_le
      rw [List.length_append, hsplits'.length, hsplits.length] at hle
      exact absurd (List.eq_nil_of_length_eq_zero (by omega)) hne
    · omega
  | extra target count =>
    refine ⟨(by intro _ _ _ _ h; cases h), fun body hsplits => ?_⟩
    rcases h.live body hsplits with ⟨_, _, _, _, heq⟩ | ⟨_, _, _, _, heq⟩ <;> cases heq
  | ended target e =>
    refine ⟨(by intro _ _ _ _ h; cases h), fun body hsplits => ?_⟩
    rcases h.live body hsplits with ⟨_, _, _, _, heq⟩ | ⟨_, _, _, _, heq⟩ <;> cases heq

/-- The reads of a payload keep the receive on its front. -/
theorem foldl_feed {stage : Stage (XdrReplyReceiver M)} {chunks : List Bytes}
    (hM : XdrReplyMetadata.Exact M)
    (hp : XdrReplyMetadata.decodeXdr p = (.ok m, [])) (hfront : p <+: payload)
    (hlen : payload.length ≤ usizeMax) (h : OnFront dest payload p m stage)
    (hat : TypedAt dest reply consumed stage) (hchunked : stage.Chunked chunks)
    (hnext : consumed ++ chunks.flatten <+: payload) :
    OnFront dest payload p m (chunks.foldl Stage.feed stage) := by
  induction chunks generalizing consumed stage with
  | nil => exact h
  | cons chunk chunks ih =>
    obtain ⟨hne, hfits, hrest⟩ := hchunked
    rw [List.flatten_cons, ← List.append_assoc] at hnext
    have hnext' : consumed ++ chunk <+: payload := (List.prefix_append _ _).trans hnext
    have hsum : consumed.length + chunk.length ≤ usizeMax := by
      rw [← List.length_append]
      exact hnext'.length_le.trans hlen
    exact ih (h.feed hM hp hfront hlen hat hne hfits hnext') (hat.feed hfits hsum) hrest hnext

end OnFront

end Front

end OncRpc
