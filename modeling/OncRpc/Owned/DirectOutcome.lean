import OncRpc.Owned.DirectReceive

/-!
# The outcome of a direct receive

The stream answers the reads of a record with pieces of any size.  Two pieces stored one after the
other are as good as stored together, so every way to cut a payload into reads comes to the same as
reading it byte by byte, and `direct_receive` says when a typed call completes with a value.
-/

namespace OncRpc

open Foundation
open XdrReplyMetadata (valueLen)

variable {M : Type} [XdrReplyMetadata M]

/-! ## The pieces in which a payload comes -/

section Pieces

variable {dest consumed chunk : Bytes} {reply : RpcMessage}
    {stage stage' : Stage (XdrReplyReceiver M)}

/-- Two bytes strings stored one after the other are as good as stored together. -/
theorem ReceiverAt.store_append {r : XdrReplyReceiver M} (h : ReceiverAt dest consumed r)
    (hparsed : r.Parsed) {first second : Bytes} (hfits : (first ++ second).length ≤ r.range)
    (hne : second ≠ []) :
    (∃ r', (r.fill first).advance first.length = (r', .ok ()) ∧ r'.Parsed ∧
        second.length ≤ r'.range ∧ (r'.fill second).advance second.length =
          (r.fill (first ++ second)).advance (first ++ second).length) ∨
      ∃ r₁ r₂ e, (r.fill first).advance first.length = (r₁, .error e) ∧
        (r.fill (first ++ second)).advance (first ++ second).length = (r₂, .error e) ∧
        r₁.buffer = r₂.buffer ∧ r₁.dataUsed = r₂.dataUsed := by
  have hpos : 0 < second.length := List.length_pos_of_ne_nil hne
  rw [List.length_append] at hfits
  cases h with
  | metadata scratch used target hscratch hused htarget =>
    obtain ⟨hrange, hfirst⟩ := @XdrReplyReceiver.store_metadata M _
      ⟨dest, scratch, used, target, none, 0, 0, [0, 0, 0], 0⟩ rfl first
    obtain ⟨-, hboth⟩ := @XdrReplyReceiver.store_metadata M _
      ⟨dest, scratch, used, target, none, 0, 0, [0, 0, 0], 0⟩ rfl (first ++ second)
    obtain ⟨hrange', hsecond⟩ := @XdrReplyReceiver.store_metadata M _
      ⟨dest, overwrite scratch used first, used + first.length, target, none, 0, 0, [0, 0, 0], 0⟩
        rfl
      second
    rw [hrange] at hfits
    simp only at hfits hrange' hsecond hboth
    have hwait : XdrReplyReceiver.Parsed (⟨dest, overwrite scratch used first, used + first.length,
        target, none, 0, 0, [0, 0, 0], 0⟩ : XdrReplyReceiver M) := fun _ => by
      simp only
      omega
    refine .inl ⟨_, hfirst.trans hwait.parsePrefix, hwait, by rw [hrange']; omega, ?_⟩
    rw [hsecond, hboth, overwrite_overwrite (by omega), List.length_append, Nat.add_assoc]
  | data p body zeros m scratch used target hp hdest hbody hzeros hfull =>
    by_cases hroom : body.length < valueLen m
    · obtain ⟨hrange, hfirst⟩ := @XdrReplyReceiver.store_data M _ ⟨body ++ dest.drop body.length,
        scratch, used, target, some m, valueLen m, body.length, [0, 0, 0], zeros⟩ m rfl hroom first
      obtain ⟨-, hboth⟩ := @XdrReplyReceiver.store_data M _ ⟨body ++ dest.drop body.length,
        scratch, used, target, some m, valueLen m, body.length, [0, 0, 0], zeros⟩ m rfl hroom
        (first ++ second)
      rw [hrange] at hfits
      simp only at hfits hfirst hboth
      obtain ⟨hrange', hsecond⟩ := @XdrReplyReceiver.store_data M _
        ⟨overwrite (body ++ dest.drop body.length) body.length first, scratch, used, target, some m,
          valueLen m, body.length + first.length, [0, 0, 0], zeros⟩ m rfl
        (show body.length + first.length < valueLen m by omega) second
      simp only at hrange' hsecond
      refine .inl ⟨_, hfirst, nofun, by rw [hrange']; omega, ?_⟩
      rw [hsecond, hboth, overwrite_overwrite ?_, List.length_append, Nat.add_assoc]
      rw [List.length_append, List.length_drop]
      omega
    · obtain ⟨hrange, hfirst⟩ := @XdrReplyReceiver.store_padding M _ ⟨body ++ dest.drop body.length,
        scratch, used, target, some m, valueLen m, body.length, [0, 0, 0], zeros⟩ m rfl hroom first
      obtain ⟨-, hboth⟩ := @XdrReplyReceiver.store_padding M _ ⟨body ++ dest.drop body.length,
        scratch, used, target, some m, valueLen m, body.length, [0, 0, 0], zeros⟩ m rfl hroom
        (first ++ second)
      rw [hrange] at hfits
      have hpad := xdrPadding_le (valueLen m)
      simp only at hfits hfirst hboth
      rw [padding_any (by omega)] at hfirst
      by_cases hany : first.any (· != 0) = true
      · rw [if_pos hany] at hfirst
        rw [padding_any (by omega), if_pos (by rw [List.any_append, hany, Bool.true_or])] at hboth
        exact .inr ⟨_, _, _, hfirst, hboth, rfl, rfl⟩
      · rw [if_neg hany] at hfirst
        obtain ⟨hrange', hsecond⟩ := @XdrReplyReceiver.store_padding M _
          ⟨body ++ dest.drop body.length, scratch, used, target, some m, valueLen m, body.length,
            overwrite [0, 0, 0] zeros first, zeros + first.length⟩ m rfl hroom second
        simp only at hrange' hsecond
        refine .inl ⟨_, hfirst, nofun, by rw [hrange']; omega, ?_⟩
        rw [hsecond, hboth, overwrite_overwrite (by simp; omega), List.length_append, Nat.add_assoc]

/-- Two stages from which a typed call completes alike. -/
def Stage.Same (stage stage' : Stage (XdrReplyReceiver M)) : Prop :=
  stage = stage' ∨ ∃ t t' e, stage = .ended (.segmented t) (.error e) ∧
    stage' = .ended (.segmented t') (.error e) ∧ t.receiver.buffer = t'.receiver.buffer ∧
      t.receiver.dataUsed = t'.receiver.dataUsed

namespace Stage.Same

omit [XdrReplyMetadata M] in
theorem trans {stage'' : Stage (XdrReplyReceiver M)} (h : stage.Same stage')
    (h' : stage'.Same stage'') : stage.Same stage'' := by
  rcases h with rfl | ⟨t, t', e, rfl, rfl, hbuffer, hused⟩
  · exact h'
  · rcases h' with rfl | ⟨u, u', e', heq, rfl, hbuffer', hused'⟩
    · exact .inr ⟨t, t', e, rfl, rfl, hbuffer, hused⟩
    · cases heq
      exact .inr ⟨t, u', e, rfl, rfl, hbuffer.trans hbuffer', hused.trans hused'⟩

theorem foldl_feed (h : stage.Same stage') (chunks : List Bytes) :
    (chunks.foldl Stage.feed stage).Same (chunks.foldl Stage.feed stage') := by
  induction chunks generalizing stage stage' with
  | nil => exact h
  | cons chunk chunks ih =>
    refine ih ?_
    rcases h with rfl | ⟨t, t', e, rfl, rfl, hsame⟩
    · exact .inl rfl
    · exact .inr ⟨t, t', e, rfl, rfl, hsame⟩

/-- A typed call completes alike. -/
theorem typedOutcome (h : stage.Same stage') (reply : RpcMessage) :
    stage.typedOutcome reply = stage'.typedOutcome reply := by
  rcases h with rfl | ⟨t, t', e, rfl, rfl, hbuffer, hused⟩
  · rfl
  · have hfinish : t.receiver.finish (.error e) = t'.receiver.finish (.error e) := by
      simp only [XdrReplyReceiver.finish, hbuffer, hused]
    exact congrArg some hfinish

end Stage.Same

/-- Two reads one after the other are as good as one. -/
theorem TypedAt.feed_append {first second : Bytes} (h : TypedAt dest reply consumed stage)
    (hfits : ∀ wants atEnd, stage.pending = some (wants, atEnd) →
      (first ++ second).length ≤ wants)
    (hlen : consumed.length + (first ++ second).length ≤ usizeMax) (hfirst : first ≠ [])
    (hsecond : second ≠ []) :
    (stage.feed (first ++ second)).Same ((stage.feed first).feed second) ∧
      ∀ wants atEnd, (stage.feed first).pending = some (wants, atEnd) → second.length ≤ wants := by
  have hpos : 0 < first.length := List.length_pos_of_ne_nil hfirst
  have hpos' : 0 < second.length := List.length_pos_of_ne_nil hsecond
  have hadd : (first ++ second).length = first.length + second.length := List.length_append
  cases h with
  | @payload r hr hparsed hroom =>
    rcases hr.store_append hparsed (hfits _ _ rfl) hsecond with
      ⟨r', hstore, hparsed', hroom', hboth⟩ | ⟨r₁, r₂, e, hstore, hboth, hbuffer, hused⟩
    · have hnext : Stage.feed (.payload ⟨r, consumed.length⟩ reply consumed.length r.range) first =
          .payload ⟨r', (consumed ++ first).length⟩ reply (consumed ++ first).length r'.range := by
        rw [TypedAt.feed_of_store hstore (by omega), TypedAt.nextRange_of_parsed hparsed',
          if_neg (by omega)]
      rw [hnext]
      refine ⟨.inl ?_, fun wants atEnd hpending => ?_⟩
      · have hsum : (consumed ++ first).length + second.length ≤ usizeMax := by
          rw [List.length_append]
          omega
        rcases hresult : (r'.fill second).advance second.length with ⟨r'', e | ⟨⟨⟩⟩⟩
        · rw [TypedAt.feed_of_refused hresult hsum,
            TypedAt.feed_of_refused (hboth.symm.trans hresult) hlen, List.append_assoc]
        · rw [TypedAt.feed_of_store hresult hsum,
            TypedAt.feed_of_store (hboth.symm.trans hresult) hlen, List.append_assoc]
      · cases hpending
        exact hroom'
    · rw [TypedAt.feed_of_refused hstore (by omega), TypedAt.feed_of_refused hboth hlen]
      exact ⟨.inr ⟨_, _, e, rfl, rfl, hbuffer.symm, hused.symm⟩, by intros; contradiction⟩
  | probe hr hparsed hroom =>
    have hone := hfits _ _ rfl
    omega
  | extra target count =>
    have hwants := hfits _ _ rfl
    refine ⟨.inl ?_, fun wants atEnd hpending => ?_⟩
    · simp only [Stage.feed, hadd, Nat.add_assoc]
    · cases hpending
      omega
  | ended target e => exact ⟨.inl rfl, by intros; contradiction⟩

/-- A read is as good as reads of its single bytes. -/
theorem TypedAt.feed_bytes (h : TypedAt dest reply consumed stage) (hne : chunk ≠ [])
    (hfits : ∀ wants atEnd, stage.pending = some (wants, atEnd) → chunk.length ≤ wants)
    (hlen : consumed.length + chunk.length ≤ usizeMax) :
    (stage.feed chunk).Same ((chunk.map fun b => [b]).foldl Stage.feed stage) := by
  induction chunk generalizing consumed stage with
  | nil => exact absurd rfl hne
  | cons b rest ih =>
    by_cases hrest : rest = []
    · rw [hrest]
      exact .inl rfl
    · have hcons : b :: rest = [b] ++ rest := rfl
      rw [hcons] at hfits hlen ⊢
      obtain ⟨hsame, hfits'⟩ := h.feed_append hfits hlen (by simp) hrest
      rw [List.length_append] at hlen
      have hnext := @TypedAt.feed M _ dest consumed [b] reply stage h
        (fun wants atEnd hpending => by
        have hle := hfits wants atEnd hpending
        rw [List.length_append] at hle
        omega) (by omega)
      refine hsame.trans (ih hnext hrest hfits' ?_)
      rw [List.length_append]
      omega

/-- The reads of a payload are as good as reads of its single bytes. -/
theorem TypedAt.foldl_feed_bytes {chunks : List Bytes} (h : TypedAt dest reply consumed stage)
    (hchunked : stage.Chunked chunks) (hlen : (consumed ++ chunks.flatten).length ≤ usizeMax) :
    (chunks.foldl Stage.feed stage).Same
      ((chunks.flatten.map fun b => [b]).foldl Stage.feed stage) := by
  induction chunks generalizing consumed stage with
  | nil => exact .inl rfl
  | cons chunk chunks ih =>
    obtain ⟨hne, hfits, hrest⟩ := hchunked
    rw [List.flatten_cons, ← List.append_assoc] at hlen
    have hsum : consumed.length + chunk.length ≤ usizeMax := by
      rw [List.length_append, List.length_append] at hlen
      omega
    rw [List.foldl_cons, List.flatten_cons, List.map_append, List.foldl_append]
    exact (ih (h.feed hfits hsum) hrest hlen).trans
      ((h.feed_bytes hne hfits hsum).foldl_feed _)

end Pieces

/-! ## Direct receive -/

/-- A receive that answers some reads answers the first of them. -/
theorem Stage.Chunked.left {R : Type} [ReplyReceiver R] {stage : Stage R} {done rest : List Bytes}
    (h : stage.Chunked (done ++ rest)) : stage.Chunked done := by
  induction done generalizing stage with
  | nil => trivial
  | cons chunk done ih => exact ⟨h.1, h.2.1, ih h.2.2⟩

/-- A receiver that stays on the front of a payload that splits has consumed all of it only if it
wants nothing more. -/
theorem ReceiverAt.range_eq_zero (hM : XdrReplyMetadata.Exact M)
    {dest payload p body : Bytes} {m : M} {r : XdrReplyReceiver M} (h : ReceiverAt dest payload r)
    (hparsed : r.Parsed) (hwithin : r.Within p)
    (hsplits : XdrReplyMetadata.Splits dest payload m p body) :
    r.range = 0 := by
  have hlen := hsplits.length
  obtain ⟨heq, hp, -, -⟩ := hsplits
  cases h with
  | metadata scratch used target hscratch hused htarget =>
    have hlt : used < target := hparsed rfl
    have htarget' : target ≤ p.length := hwithin rfl
    rw [List.length_take] at hlen
    omega
  | data p' body' zeros m' scratch used target hp' hdest hbody hzeros hfull =>
    have hfront : p <+: p' ++ body' ++ List.replicate zeros 0 := by
      rw [heq, List.append_assoc]
      exact List.prefix_append _ _
    have hfront' : p' <+: p' ++ body' ++ List.replicate zeros 0 := by
      rw [List.append_assoc]
      exact List.prefix_append _ _
    obtain ⟨rfl, rfl⟩ := hM.unique hp hp' hfront hfront'
    rw [List.length_append, List.length_append, List.length_replicate] at hlen
    have hbody' : ¬ body'.length < valueLen m := by omega
    obtain ⟨hrange, -⟩ := @XdrReplyReceiver.store_padding M _ ⟨body' ++ dest.drop body'.length,
      scratch, used, target, some m, valueLen m, body'.length, [0, 0, 0], zeros⟩ m rfl hbody' []
    rw [hrange]
    simp only
    omega

/-- A payload splits in one way. -/
theorem XdrReplyMetadata.Exact.splits_unique (hM : XdrReplyMetadata.Exact M)
    {dest payload p body p' body' : Bytes} {m m' : M} (h : Splits dest payload m p body)
    (h' : Splits dest payload m' p' body') : m = m' ∧ body = body' := by
  obtain ⟨heq, hp, hbody, -⟩ := h
  obtain ⟨heq', hp', hbody', -⟩ := h'
  have hfront : p <+: payload := by
    rw [heq, List.append_assoc]
    exact List.prefix_append _ _
  have hfront' : p' <+: payload := by
    rw [heq', List.append_assoc]
    exact List.prefix_append _ _
  obtain ⟨rfl, rfl⟩ := hM.unique hp hp' hfront hfront'
  refine ⟨rfl, ?_⟩
  rw [heq, List.append_assoc, List.append_assoc, List.append_cancel_left_eq] at heq'
  exact (List.append_inj heq' (hbody.trans hbody'.symm)).1

/-- A typed call completes, however its reply is cut into reads, and completes alike.  Its result is
the metadata exactly if the payload is their encoding, followed by the value and its padding, and
the destination has room.  The value stands at the front of the destination then, and the rest is as
before.  Until the metadata are decoded no byte behind them is asked for. -/
theorem direct_receive (hM : XdrReplyMetadata.Exact M) (dest : Bytes) (reply : RpcMessage)
    (hreply : reply.isSuccess = true) (chunks : List Bytes)
    (hchunked : (Stage.begin (XdrReplyReceiver.new (M := M) dest) reply).Chunked chunks)
    (hlen : chunks.flatten.length < usizeMax) :
    (∃ outcome : TypedReceiveOutcome M, typedReceive dest reply chunks = some outcome ∧
      (∀ m, outcome.result = .ok m ↔
        ∃ p body, XdrReplyMetadata.Splits dest chunks.flatten m p body) ∧
      ∀ (m : M) p body, XdrReplyMetadata.Splits dest chunks.flatten m p body →
        outcome.buffer = body ++ dest.drop body.length ∧ outcome.payloadLen = body.length) ∧
    (∀ chunks', (Stage.begin (XdrReplyReceiver.new (M := M) dest) reply).Chunked chunks' →
      chunks'.flatten = chunks.flatten →
        typedReceive (M := M) dest reply chunks' = typedReceive dest reply chunks) ∧
    ∀ p rest (m : M), chunks.flatten = p ++ rest → XdrReplyMetadata.decodeXdr p = (.ok m, []) →
      ∀ done after target length room, chunks = done ++ after →
        done.foldl Stage.feed (Stage.begin (XdrReplyReceiver.new (M := M) dest) reply) =
          .payload target reply length room →
        target.receiver.metadata = none → done.flatten.length + room ≤ p.length := by
  have hbegin := TypedAt.begin (M := M) dest reply
  have hat := hbegin.foldl_feed hchunked (by simpa using hlen.le)
  rw [List.nil_append] at hat
  refine ⟨?_, ?_, ?_⟩
  · obtain ⟨outcome, houtcome, hends⟩ := hat.typedOutcome hreply hlen
    have hback : ∀ (m : M) p body, XdrReplyMetadata.Splits dest chunks.flatten m p body →
        outcome = ⟨.ok m, body ++ dest.drop body.length, body.length⟩ := by
      intro m p body hsplits
      have hfront : p <+: chunks.flatten := by
        rw [hsplits.1, List.append_assoc]
        exact List.prefix_append _ _
      have hon := (OnFront.begin reply hM hsplits.2.1 hfront hlen.le).foldl_feed hM
        hsplits.2.1 hfront hlen.le hbegin hchunked (by simp)
      rcases hends with ⟨m', p', body', hsplits', rfl⟩ | ⟨hno, -⟩
      · obtain ⟨rfl, rfl⟩ := hM.splits_unique hsplits hsplits'
        rfl
      · -- a receive that is not over has consumed the payload, so it probes for the end
        exfalso
        have hlive := hon.live body hsplits
        generalize List.foldl Stage.feed (Stage.begin (XdrReplyReceiver.new (M := M) dest) reply)
          chunks = stage at hat hno hon hlive
        cases hat with
        | @payload r hr hparsed hroom =>
          have hzero := hr.range_eq_zero hM hparsed (hon.within _ _ _ _ rfl) hsplits
          omega
        | probe hr hparsed hroom => exact hno _ _ _ rfl
        | extra target count =>
          rcases hlive with ⟨_, _, _, _, heq⟩ | ⟨_, _, _, _, heq⟩ <;> cases heq
        | ended target e =>
          rcases hlive with ⟨_, _, _, _, heq⟩ | ⟨_, _, _, _, heq⟩ <;> cases heq
    refine ⟨outcome, houtcome, fun m => ⟨fun hok => ?_, ?_⟩, ?_⟩
    · rcases hends with ⟨m', p, body, hsplits, rfl⟩ | ⟨-, e, herror⟩
      · cases hok
        exact ⟨p, body, hsplits⟩
      · rw [herror] at hok
        cases hok
    · rintro ⟨p, body, hsplits⟩
      rw [hback m p body hsplits]
    · intro m p body hsplits
      rw [hback m p body hsplits]
      exact ⟨rfl, rfl⟩
  · intro chunks' hchunked' heq
    have hsame := hbegin.foldl_feed_bytes hchunked (by simpa using hlen.le)
    have hsame' := hbegin.foldl_feed_bytes hchunked' (by rw [heq]; simpa using hlen.le)
    rw [heq] at hsame'
    unfold typedReceive
    rw [hsame.typedOutcome, hsame'.typedOutcome]
  · intro p rest m hpayload hp done after target length room hsplit hstage hnone
    have hfront : p <+: chunks.flatten := ⟨rest, hpayload.symm⟩
    have hdone : done.flatten <+: chunks.flatten := by
      rw [hsplit, List.flatten_append]
      exact List.prefix_append _ _
    have hchunked' : (Stage.begin (XdrReplyReceiver.new (M := M) dest) reply).Chunked done :=
      (hsplit ▸ hchunked : Stage.Chunked _ (done ++ after)).left
    have hon := (OnFront.begin reply hM hp hfront hlen.le).foldl_feed hM hp hfront hlen.le
      hbegin hchunked' (by simpa using hdone)
    have hat' := hbegin.foldl_feed hchunked' (by simpa using (hdone.length_le.trans hlen.le))
    rw [hstage] at hon hat'
    have hwithin := hon.within _ _ _ _ rfl
    rw [List.nil_append] at hat'
    cases hat' with
    | @payload r hr hparsed hroom =>
      have htarget := hwithin hnone
      obtain ⟨hrange, -⟩ := XdrReplyReceiver.store_metadata hnone []
      rw [hrange]
      have hlt := hparsed hnone
      have hused := hr.used_of_none hnone
      simp only at htarget ⊢
      omega

/-- The metadata of a result that is one opaque value: its length. -/
structure LengthMetadata where
  len : UInt32

instance : XdrReplyMetadata LengthMetadata where
  decodeXdr input :=
    if input.length < 4 then (.error (.unexpectedEof 4), input)
    else (.ok ⟨wordOf (input.take 4)⟩, input.drop 4)
  maxPrefixBytes := 4
  opaqueLen m := some m.len.toNat

/-- A length is all there or incomplete. -/
theorem LengthMetadata.exact : XdrReplyMetadata.Exact LengthMetadata where
  incomplete {front back m} h hback := by
    have hpos : 0 < back.length := List.length_pos_of_ne_nil hback
    simp only [XdrReplyMetadata.decodeXdr] at h ⊢
    split_ifs at h with hshort
    · cases h
    · have hdrop : (front ++ back).drop 4 = [] := (Prod.mk.inj h).2
      have hle := List.drop_eq_nil_iff.mp hdrop
      rw [List.length_append] at hle hshort
      have hfront : front.length < 4 := by omega
      exact ⟨4, front, if_pos hfront, hfront, by omega⟩
  bound {p m} h := by
    simp only [XdrReplyMetadata.decodeXdr] at h
    split_ifs at h with hshort
    · cases h
    · exact List.drop_eq_nil_iff.mp (Prod.mk.inj h).2

/-- Whether a read fits the storage offered can be evaluated. -/
theorem Stage.fits_of_all {R : Type} [ReplyReceiver R] {stage : Stage R} {chunk : Bytes}
    (h : (stage.pending.map Prod.fst).all (fun wants => chunk.length ≤ wants) = true) :
    ∀ wants atEnd, stage.pending = some (wants, atEnd) → chunk.length ≤ wants := by
  intro wants atEnd hpending
  rw [hpending] at h
  simpa using h

/-- Two bytes with their length and padding, in four reads, and a destination of three bytes. -/
theorem direct_receive_two_bytes :
    ∃ outcome : TypedReceiveOutcome LengthMetadata,
      typedReceive [9, 9, 9] ⟨⟨1⟩, .reply (.accepted ⟨OpaqueAuth.none, .success []⟩)⟩
        [[0, 0], [0, 2], [7, 8], [0, 0]] = some outcome ∧
      outcome.result = .ok ⟨2⟩ ∧ outcome.buffer = [7, 8, 9] := by
  have hchunked : (Stage.begin (XdrReplyReceiver.new (M := LengthMetadata) [9, 9, 9])
      ⟨⟨1⟩, .reply (.accepted ⟨OpaqueAuth.none, .success []⟩)⟩).Chunked
        [[0, 0], [0, 2], [7, 8], [0, 0]] := by
    refine ⟨by decide, ?_, by decide, ?_, by decide, ?_, by decide, ?_, trivial⟩
    all_goals exact Stage.fits_of_all (by decide +kernel)
  have hsplits : XdrReplyMetadata.Splits (M := LengthMetadata) [9, 9, 9]
      [[0, 0], [0, 2], [7, 8], [0, 0]].flatten ⟨2⟩ [0, 0, 0, 2] [7, 8] :=
    ⟨by decide, by rfl, by decide, by decide⟩
  obtain ⟨⟨outcome, houtcome, hok, hbuffer⟩, -, -⟩ := direct_receive LengthMetadata.exact [9, 9, 9]
    ⟨⟨1⟩, .reply (.accepted ⟨OpaqueAuth.none, .success []⟩)⟩ rfl _ hchunked (by decide)
  exact ⟨outcome, houtcome, (hok ⟨2⟩).mpr ⟨_, _, hsplits⟩, (hbuffer _ _ _ hsplits).1⟩

end OncRpc
