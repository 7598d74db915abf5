import OncRpc.Record.Reassembly

/-!
# The reassemblers agree

Each reassembler is run along the fragments of the record its input starts with: one lemma for a
fragment at the head of the input, one for an input that does not hold a whole fragment, and the
result for a whole record by induction on its fragments.
-/

namespace OncRpc

open Foundation

/-- The input does not start with a whole fragment. -/
def NoFragment (l : Bytes) : Prop := ∀ last p rest, FragmentFits p → l ≠ fragment last p ++ rest

/-- An input without a whole fragment is shorter than a marker or than what the marker announces. -/
theorem NoFragment.length_lt {l : Bytes} (h : NoFragment l) (h4 : ¬ l.length < 4) :
    l.length < 4 + (RecordMarker.decodeBytes (l.take 4)).payloadLen.toNat := by
  by_contra hlen
  obtain ⟨last, p, rest, hp, hl⟩ := exists_fragment (l := l) (by omega) (by omega)
  exact h last p rest hp hl

/-! ## Reading a slice -/

section ReadRecord

variable {input : Bytes} {offset fragments : ℕ} {record : Bytes}

/-- The scanning reader takes one fragment. -/
theorem readRecordFrom_fragment {last : Bool} {p rest : Bytes} (hp : FragmentFits p)
    (h : input.drop offset = fragment last p ++ rest) :
    readRecordFrom input offset fragments record =
      if last then .complete (record ++ p) (offset + (4 + p.length)) (fragments + 1)
      else readRecordFrom input (offset + (4 + p.length)) (fragments + 1) (record ++ p) := by
  have hlen : (fragment last p ++ rest).length = 4 + p.length + rest.length := by simp
  have hne : ¬ (fragment last p ++ rest = [] ∧ fragments = 0) := by
    rintro ⟨hnil, -⟩
    rw [hnil, List.length_nil] at hlen
    omega
  rw [readRecordFrom]
  simp only [h, hne, if_false, show ¬ (fragment last p ++ rest).length < 4 by omega, dite_false,
    decodeBytes_take_fragment hp, toNat_ofNat_length hp, payload_fragment,
    show ¬ (fragment last p ++ rest).length < 4 + p.length by omega]

/-- Without a whole fragment the scanning reader waits. -/
theorem readRecordFrom_short (h : NoFragment (input.drop offset)) :
    readRecordFrom input offset fragments record = .incomplete := by
  rw [readRecordFrom]
  by_cases h4 : (input.drop offset).length < 4
  · simp only [h4, dite_true]
    split_ifs <;> rfl
  · simp only [h4, dite_false, h.length_lt h4, if_true]
    split_ifs <;> rfl

/-- The loop on an input that goes on with a record. -/
theorem readRecordFrom_record (r : Record) (rest : Bytes)
    (h : input.drop offset = r.bytes ++ rest) :
    readRecordFrom input offset fragments record =
      .complete (record ++ r.data) (offset + r.bytes.length) (fragments + r.fragments) := by
  induction r using Record.consInduction generalizing offset fragments record with
  | single p hp =>
    rw [Record.single_bytes] at h
    rw [readRecordFrom_fragment hp h, if_pos rfl, Record.single_bytes, Record.single_data,
      Record.single_fragments, fragment_length]
  | cons p hp r ih =>
    rw [Record.cons_bytes, List.append_assoc] at h
    have hdrop : input.drop (offset + (4 + p.length)) = r.bytes ++ rest := by
      rw [← List.drop_drop, h, drop_fragment]
    rw [readRecordFrom_fragment hp h, if_neg (by simp), ih hdrop, Record.cons_bytes,
      Record.cons_data, Record.cons_fragments, List.length_append, fragment_length,
      List.append_assoc]
    congr 1 <;> omega

/-- The loop on an input that does not go on with a record. -/
theorem readRecordFrom_incomplete (h : ¬ Record.StartsWith (input.drop offset)) :
    readRecordFrom input offset fragments record = .incomplete := by
  induction hn : (input.drop offset).length using Nat.strong_induction_on
    generalizing offset fragments record with
  | _ n ih =>
    by_cases hfrag : NoFragment (input.drop offset)
    · exact readRecordFrom_short hfrag
    · unfold NoFragment at hfrag
      push Not at hfrag
      obtain ⟨last, p, rest, hp, hl⟩ := hfrag
      rw [hl] at h hn
      obtain ⟨rfl, hrest⟩ := Record.StartsWith.of_fragment hp h
      have hdrop : input.drop (offset + (4 + p.length)) = rest := by
        rw [← List.drop_drop, hl, drop_fragment]
      rw [readRecordFrom_fragment hp hl, if_neg (by simp)]
      refine ih rest.length ?_ (by rw [hdrop]; exact hrest) (by rw [hdrop])
      rw [← hn, List.length_append, fragment_length]
      omega

end ReadRecord

/-- `read_record` finds exactly the record its input starts with. -/
theorem readRecord_record (r : Record) (rest : Bytes) :
    readRecord (r.bytes ++ rest) = .ok (.complete r.data r.bytes.length r.fragments) := by
  rw [readRecord, readRecordFrom_record r rest (by rw [List.drop_zero])]
  simp

/-- Without a whole record the scanning reader waits. -/
theorem readRecord_incomplete {input : Bytes} (h : ¬ Record.StartsWith input) :
    readRecord input = .ok .incomplete := by
  rw [readRecord, readRecordFrom_incomplete (by rwa [List.drop_zero])]

/-! ## Taking a record from a buffer -/

section TakeRecord

variable {buffer : Bytes} {offset fragments total : ℕ}

/-- The scan passes one fragment. -/
theorem scanRecord_fragment {last : Bool} {p rest : Bytes} (hp : FragmentFits p)
    (h : buffer.drop offset = fragment last p ++ rest) :
    scanRecord buffer offset fragments total =
      if last then some (offset + (4 + p.length), fragments + 1, total + p.length)
      else scanRecord buffer (offset + (4 + p.length)) (fragments + 1) (total + p.length) := by
  have hlen : (fragment last p ++ rest).length = 4 + p.length + rest.length := by simp
  have hne : ¬ fragment last p ++ rest = [] := by
    intro hnil
    rw [hnil, List.length_nil] at hlen
    omega
  rw [scanRecord]
  simp only [h, hne, if_false, show ¬ (fragment last p ++ rest).length < 4 by omega, dite_false,
    decodeBytes_take_fragment hp, toNat_ofNat_length hp,
    show ¬ (fragment last p ++ rest).length < 4 + p.length by omega]

/-- Without a whole fragment the scan finds no record. -/
theorem scanRecord_short (h : NoFragment (buffer.drop offset)) :
    scanRecord buffer offset fragments total = none := by
  rw [scanRecord]
  by_cases h4 : (buffer.drop offset).length < 4
  · simp only [h4, dite_true]
    split_ifs <;> rfl
  · simp only [h4, dite_false, h.length_lt h4, if_true]
    split_ifs <;> rfl

/-- The scan of a buffer that goes on with a record. -/
theorem scanRecord_record (r : Record) (rest : Bytes) (h : buffer.drop offset = r.bytes ++ rest) :
    scanRecord buffer offset fragments total =
      some (offset + r.bytes.length, fragments + r.fragments, total + r.data.length) := by
  induction r using Record.consInduction generalizing offset fragments total with
  | single p hp =>
    rw [Record.single_bytes] at h
    rw [scanRecord_fragment hp h, if_pos rfl, Record.single_bytes, Record.single_data,
      Record.single_fragments, fragment_length]
  | cons p hp r ih =>
    rw [Record.cons_bytes, List.append_assoc] at h
    have hdrop : buffer.drop (offset + (4 + p.length)) = r.bytes ++ rest := by
      rw [← List.drop_drop, h, drop_fragment]
    rw [scanRecord_fragment hp h, if_neg (by simp), ih hdrop, Record.cons_bytes,
      Record.cons_data, Record.cons_fragments, List.length_append, fragment_length,
      List.length_append]
    simp only [Option.some.injEq, Prod.mk.injEq]
    omega

/-- The scan of a buffer that does not go on with a record. -/
theorem scanRecord_none (h : ¬ Record.StartsWith (buffer.drop offset)) :
    scanRecord buffer offset fragments total = none := by
  induction hn : (buffer.drop offset).length using Nat.strong_induction_on
    generalizing offset fragments total with
  | _ n ih =>
    by_cases hfrag : NoFragment (buffer.drop offset)
    · exact scanRecord_short hfrag
    · unfold NoFragment at hfrag
      push Not at hfrag
      obtain ⟨last, p, rest, hp, hl⟩ := hfrag
      rw [hl] at h hn
      obtain ⟨rfl, hrest⟩ := Record.StartsWith.of_fragment hp h
      have hdrop : buffer.drop (offset + (4 + p.length)) = rest := by
        rw [← List.drop_drop, hl, drop_fragment]
      rw [scanRecord_fragment hp hl, if_neg (by simp)]
      refine ih rest.length ?_ (by rw [hdrop]; exact hrest) (by rw [hdrop])
      rw [← hn, List.length_append, fragment_length]
      omega

/-- The assembly takes the payload of one fragment. -/
theorem assembleRecord_fragment {last : Bool} {p rest assembled : Bytes} (hp : FragmentFits p) :
    assembleRecord (fragment last p ++ rest) assembled =
      if last then assembled ++ p else assembleRecord rest (assembled ++ p) := by
  have hne : ¬ fragment last p ++ rest = [] := by
    intro hnil
    have := congrArg List.length hnil
    simp at this
  have hbody : (fragment last p ++ rest).drop 4 = p ++ rest := by
    rw [fragment_eq, List.append_assoc]
    exact List.drop_left' (by simp)
  rw [assembleRecord]
  simp only [hne, dite_false, decodeBytes_take_fragment hp, toNat_ofNat_length hp, hbody,
    List.take_left, List.drop_left]

/-- The fragments of a record are put together in order. -/
theorem assembleRecord_record (r : Record) (assembled : Bytes) :
    assembleRecord r.bytes assembled = assembled ++ r.data := by
  induction r using Record.consInduction generalizing assembled with
  | single p hp =>
    rw [Record.single_bytes, ← List.append_nil (fragment true p), assembleRecord_fragment hp,
      if_pos rfl, Record.single_data]
  | cons p hp r ih =>
    rw [Record.cons_bytes, assembleRecord_fragment hp, if_neg (by simp), ih, Record.cons_data,
      List.append_assoc]

end TakeRecord

/-- A buffer that starts with a record loses exactly that record, on both paths. -/
theorem tryTakeRecordFromBuffer_record (r : Record) (rest : Bytes) :
    tryTakeRecordFromBuffer (r.bytes ++ rest) = (.ok (some r.data), rest) := by
  rw [tryTakeRecordFromBuffer, scanRecord_record r rest (by rw [List.drop_zero])]
  simp only [Nat.zero_add, List.take_left, List.drop_left, assembleRecord_record, List.nil_append]
  split_ifs with h
  · -- The fast path drops the only marker.
    obtain ⟨more, last, hmore, hlast⟩ := r
    have hnil : more = [] := List.length_eq_zero_iff.mp (by simpa [Record.fragments] using h)
    subst hnil
    have hdrop : (Record.bytes ⟨[], last, hmore, hlast⟩).drop 4 = last := by
      rw [Record.bytes, Record.moreBytes_nil, List.nil_append, fragment_eq]
      exact List.drop_left' (by simp)
    rw [hdrop, Record.data, List.flatten_nil, List.nil_append]
  · rfl

/-- Without a whole record nothing is taken from the buffer. -/
theorem tryTakeRecordFromBuffer_none {buffer : Bytes} (h : ¬ Record.StartsWith buffer) :
    tryTakeRecordFromBuffer buffer = (.ok none, buffer) := by
  rw [tryTakeRecordFromBuffer, scanRecord_none (by rwa [List.drop_zero])]

/-! ## Reading a stream under limits -/

/-- The message in a payload. -/
def decodeRecord (data : Bytes) : Except RuntimeError RpcMessage :=
  (RpcMessage.decode data).mapError .wire

/-- The data of a record decode exactly as a message does. -/
theorem decodeRecord_eq_ok_iff {data : Bytes} {message : RpcMessage} :
    decodeRecord data = .ok message ↔ RpcMessage.decode data = .ok message := by
  unfold decodeRecord
  cases RpcMessage.decode data with
  | error error => simp [Except.mapError]
  | ok decoded => simp [Except.mapError]

/-- A whole record is taken and decoded. -/
theorem tryDecodeMessageFromBuffer_record (r : Record) (rest : Bytes) :
    tryDecodeMessageFromBuffer (r.bytes ++ rest) = ((decodeRecord r.data).map some, rest) := by
  simp only [tryDecodeMessageFromBuffer, tryTakeRecordFromBuffer_record, decodeRecord]
  cases RpcMessage.decode r.data <;> rfl

/-- Without a whole record nothing is decoded. -/
theorem tryDecodeMessageFromBuffer_none {buffer : Bytes} (h : ¬ Record.StartsWith buffer) :
    tryDecodeMessageFromBuffer buffer = (.ok none, buffer) := by
  simp only [tryDecodeMessageFromBuffer, tryTakeRecordFromBuffer_none h]

/-- Decoding from a buffer either leaves it alone or takes its first record, which is the
message. -/
theorem tryDecodeMessageFromBuffer_ok {buffer left : Bytes} {found : Option RpcMessage}
    (h : tryDecodeMessageFromBuffer buffer = (.ok found, left)) :
    (found = none ∧ left = buffer) ∨ ∃ message, ∃ r : Record, found = some message ∧
      buffer = r.bytes ++ left ∧ RpcMessage.decode r.data = .ok message := by
  by_cases hstarts : Record.StartsWith buffer
  · obtain ⟨r, rest, rfl⟩ := hstarts
    rw [tryDecodeMessageFromBuffer_record] at h
    obtain ⟨hdecode, rfl⟩ := Prod.mk.inj h
    cases hmessage : decodeRecord r.data with
    | error error =>
      rw [hmessage] at hdecode
      cases hdecode
    | ok message =>
      rw [hmessage] at hdecode
      exact .inr ⟨message, r, (Except.ok.inj hdecode).symm, rfl, decodeRecord_eq_ok_iff.mp hmessage⟩
  · rw [tryDecodeMessageFromBuffer_none hstarts] at h
    cases h
    exact .inl ⟨rfl, rfl⟩

/-- Enough bytes are read off the stream. -/
theorem readExact_eq {count : ℕ} {stream : Bytes} (h : count ≤ stream.length) :
    readExact count stream = (.ok (stream.take count), stream.drop count) := if_pos h

/-- Too few bytes are a closed connection. -/
theorem readExact_short {count : ℕ} {stream : Bytes} (h : stream.length < count) :
    readExact count stream = (.error .connectionClosed, []) := if_neg (by omega)

/-- The loop of the stream reader, from a state in which it has read the fragments `more`. -/
theorem readFragments_outcome {limits : RecordLimits} (n : ℕ) (more : List Bytes)
    (hfits : ∀ p ∈ more, FragmentFits p)
    (hbytes : (Record.moreBytes more).length ≤ limits.maxRecordBytes)
    (hn : more.length + n = limits.maxFragments) (stream : Bytes) :
    ∃ result rest, RecordOutcome limits (Record.moreBytes more ++ stream) result rest ∧
      readFragments limits n (Record.moreBytes more) stream = (result.bind decodeRecord, rest) := by
  induction n generalizing more stream with
  | zero =>
    exact ⟨_, stream, .tooMany _ _ ⟨more, hfits, by omega, hbytes, rfl⟩ rfl, rfl⟩
  | succ n ih =>
    rw [readFragments]
    by_cases h4 : stream.length < 4
    · rw [readExact_short h4]
      exact ⟨_, _, .truncated ⟨more, stream, hfits, rfl, .inl h4⟩, rfl⟩
    · rw [readExact_eq (by omega)]
      have htake : (stream.take 4).length = 4 := by
        rw [List.length_take]
        omega
      have hmark := markerBytes_of_length htake
      have hlow := low31_lt (wordOf (stream.take 4))
      have hsplit := List.take_append_drop 4 stream
      -- The fragment the marker announces.
      generalize hflag : (wordOf (stream.take 4) &&& 0x80000000 != 0) = last at hmark
      generalize hlength : (wordOf (stream.take 4) &&& maxFragmentLen).toNat = length at hmark hlow
      rw [← hmark] at hsplit
      generalize hbody : stream.drop 4 = body at hsplit
      have hgrow : limits.grow (Record.moreBytes more).length
          (wordOf (stream.take 4) &&& 0x7fffffff).toNat =
          if (Record.moreBytes more).length + 4 + length ≤ limits.maxRecordBytes then
            some ((Record.moreBytes more).length + 4 + length) else none := by
        rw [RecordLimits.grow_eq]
        exact hlength ▸ rfl
      simp only [hgrow]
      by_cases hlim : (Record.moreBytes more).length + 4 + length ≤ limits.maxRecordBytes
      · rw [if_pos hlim]
        have hcount : (Record.moreBytes more).length + 4 + length -
            (Record.moreBytes more ++ stream.take 4).length = length := by
          rw [List.length_append, htake]
          omega
        simp only [hcount]
        by_cases hshort : body.length < length
        · rw [readExact_short hshort, ← hsplit]
          exact ⟨_, _, .truncated ⟨more, _, hfits, rfl, .inr ⟨last, length, body, hlow, hshort,
            rfl⟩⟩, rfl⟩
        · rw [readExact_eq (by omega)]
          have hplen : (body.take length).length = length := by
            rw [List.length_take]
            omega
          have hpfits : FragmentFits (body.take length) := by
            unfold FragmentFits
            omega
          have hfrag : fragment last (body.take length) = stream.take 4 ++ body.take length := by
            rw [fragment_eq, hplen, hmark]
          have hstream : stream = fragment last (body.take length) ++ body.drop length := by
            rw [fragment_eq, hplen, List.append_assoc, List.take_append_drop, hsplit]
          simp only [hflag, List.append_assoc, ← hfrag]
          cases last with
          | true =>
            have hrecord := tryDecodeMessageFromBuffer_record
              ⟨more, body.take length, hfits, hpfits⟩ []
            rw [List.append_nil, Record.bytes] at hrecord
            rw [if_pos rfl, hrecord]
            refine ⟨_, body.drop length, .complete ⟨more, body.take length, hfits, hpfits⟩ _
              ⟨by simp only [Record.fragments]; omega, ?_⟩ ?_, ?_⟩
            · simp only [Record.bytes, List.length_append, fragment_length, hplen]
              omega
            · rw [Record.bytes, List.append_assoc, ← hstream]
            · simp only [Except.bind]
              cases decodeRecord _ <;> rfl
          | false =>
            have hmore : Record.moreBytes (more ++ [body.take length]) =
                Record.moreBytes more ++ fragment false (body.take length) := by
              rw [Record.moreBytes_append]
              simp
            rw [if_neg (by simp), ← hmore]
            obtain ⟨result, rest, houtcome, heq⟩ := ih (more ++ [body.take length])
              (by
                intro p hp
                rcases List.mem_append.mp hp with hp | hp
                · exact hfits p hp
                · rw [List.mem_singleton.mp hp]
                  exact hpfits)
              (by
                rw [hmore, List.length_append, fragment_length, hplen]
                omega)
              (by
                rw [List.length_append, List.length_singleton]
                omega)
              (body.drop length)
            refine ⟨result, rest, ?_, heq⟩
            rw [hmore, List.append_assoc, ← hstream] at houtcome
            exact houtcome
      · rw [if_neg hlim]
        refine ⟨_, _, .overLimit (Record.moreBytes more ++ markerBytes last length) body
          ⟨more, last, length, hfits, hlow, by omega, hbytes, by omega, rfl⟩ ?_, rfl⟩
        rw [List.append_assoc, hsplit]

/-- The stream reader under limits always returns, and its result is an outcome of the stream. -/
theorem readRpcMessageWithLimits_outcome {limits : RecordLimits} (hvalid : limits.Valid)
    (stream : Bytes) :
    ∃ result rest, RecordOutcome limits stream result rest ∧
      readRpcMessageWithLimits limits stream = (result.bind decodeRecord, rest) := by
  rw [readRpcMessageWithLimits, (limits.validate_eq_ok_iff).mpr hvalid]
  exact readFragments_outcome limits.maxFragments [] (by simp) (by simp) (by simp) stream

/-! ## Agreement -/

/-- An error of the record limits. -/
def IsLimitError (e : RuntimeError) : Prop := e = recordLimitError ∨ e = fragmentLimitError

/-- A record that is too large is refused with an error of a limit. -/
theorem Exceeds.isLimitError {limits : RecordLimits} {r : Record} {e : RuntimeError} {taken : Bytes}
    (h : Exceeds limits r e taken) : IsLimitError e := by
  cases h with
  | bytes => exact .inl rfl
  | fragments => exact .inr rfl

/-- A reader that was given a stream starting with the record `r`, ended with `result` and left
`left` unread, has enforced the limits on `r`. -/
structure EnforcesLimits {α : Type} (limits : RecordLimits) (r : Record) (rest : Bytes)
    (result : Except RuntimeError α) (left : Bytes) : Prop where
  /-- A limit error is returned exactly for a record outside the limits. -/
  error_iff : (∃ e, result = .error e ∧ IsLimitError e) ↔
    limits.maxFragments < r.fragments ∨ limits.maxRecordBytes < 4 * r.fragments + r.data.length
  /-- It is returned before any payload byte of the offending fragment has been taken. -/
  early : ∀ e, result = .error e → IsLimitError e →
    ∃ taken, Exceeds limits r e taken ∧ r.bytes ++ rest = taken ++ left
  /-- No byte past the end of the record is read. -/
  stays : ∃ unread, unread <:+ r.bytes ∧ left = unread ++ rest

/-- The errors of decoding are not errors of the limits. -/
theorem not_isLimitError_of_decode {data : Bytes} {e : RuntimeError}
    (h : decodeRecord data = .error e) : ¬ IsLimitError e := by
  unfold decodeRecord at h
  cases hdecode : RpcMessage.decode data with
  | ok m =>
    rw [hdecode] at h
    cases h
  | error w =>
    rw [hdecode] at h
    cases h
    rintro (h | h) <;> cases h

/-- An outcome on a complete record enforces the limits, whatever is then done with the payload. -/
theorem RecordOutcome.enforcesLimits {α : Type} {limits : RecordLimits} {r : Record}
    {rest left : Bytes} {result : Except RuntimeError Bytes} {f : Bytes → Except RuntimeError α}
    (hf : ∀ data e, f data = .error e → ¬ IsLimitError e)
    (h : RecordOutcome limits (r.bytes ++ rest) result left) :
    EnforcesLimits limits r rest (result.bind f) left := by
  have hlen := r.bytes_length
  rcases h.on_record with ⟨⟨hfragments, hbytes⟩, rfl, rfl⟩ | ⟨e, taken, hexceeds, rfl, htaken⟩
  · refine ⟨⟨?_, by omega⟩, ?_, [], List.nil_suffix, rfl⟩
    · rintro ⟨e, he, hlimit⟩
      exact (hf _ _ he hlimit).elim
    · intro e he hlimit
      exact (hf _ _ he hlimit).elim
  · have hout : ¬ r.Within limits := hexceeds.not_within
    unfold Record.Within at hout
    refine ⟨⟨fun _ => by omega, fun _ => ⟨e, rfl, hexceeds.isLimitError⟩⟩, ?_, ?_⟩
    · intro e' he' hlimit
      cases he'
      exact ⟨taken, hexceeds, htaken⟩
    · obtain ⟨unread, hunread⟩ := hexceeds.isPrefix
      refine ⟨unread, ⟨taken, hunread⟩, ?_⟩
      rw [← hunread, List.append_assoc] at htaken
      exact (List.append_cancel_left htaken).symm

/-- All reassemblers obtain the same payload and consume the same bytes of a complete record within
the limits; taking a record from a buffer removes exactly that record or nothing; and the two
readers under limits refuse exactly the records outside them, before the payload of the offending
fragment and without leaving the record. -/
theorem reassemblers_agree {limits : RecordLimits} (hvalid : limits.Valid) (input : Bytes) :
    (∀ (r : Record) (rest : Bytes), input = r.bytes ++ rest → r.Within limits →
      readRecord input = .ok (.complete r.data r.bytes.length r.fragments) ∧
      tryTakeRecordFromBuffer input = (.ok (some r.data), rest) ∧
      readRpcMessageWithLimits limits input = (decodeRecord r.data, rest) ∧
      ∀ (outputs : ℕ → ℕ) (sizes : List ℕ), (∀ i, outputs i ≠ 0) →
        readToEnd limits outputs ⟨input, sizes⟩ = (some (.ok r.data), rest)) ∧
    (∀ taken left, tryTakeRecordFromBuffer input = (taken, left) →
      (taken = .ok none ∧ left = input ∧ ¬ Record.StartsWith input) ∨
      ∃ r : Record, taken = .ok (some r.data) ∧ input = r.bytes ++ left) ∧
    (∀ (r : Record) (rest : Bytes), input = r.bytes ++ rest →
      EnforcesLimits limits r rest (readRpcMessageWithLimits limits input).1
        (readRpcMessageWithLimits limits input).2 ∧
      ∀ (outputs : ℕ → ℕ) (sizes : List ℕ), (∀ i, outputs i ≠ 0) →
        ∃ result left, readToEnd limits outputs ⟨input, sizes⟩ = (some result, left) ∧
          EnforcesLimits limits r rest result left) := by
  refine ⟨?_, ?_, ?_⟩
  · rintro r rest rfl hwithin
    refine ⟨readRecord_record r rest, tryTakeRecordFromBuffer_record r rest, ?_, ?_⟩
    · obtain ⟨result, left, houtcome, heq⟩ := readRpcMessageWithLimits_outcome hvalid
        (r.bytes ++ rest)
      rcases houtcome.on_record with ⟨-, rfl, rfl⟩ | ⟨e, taken, hexceeds, -, -⟩
      · exact heq
      · exact (hexceeds.not_within hwithin).elim
    · intro outputs sizes houtputs
      obtain ⟨result, left, heq, houtcome⟩ := readToEnd_outcome hvalid houtputs
        ⟨r.bytes ++ rest, sizes⟩
      rcases houtcome.on_record with ⟨-, rfl, rfl⟩ | ⟨e, taken, hexceeds, -, -⟩
      · exact heq
      · exact (hexceeds.not_within hwithin).elim
  · intro taken left htake
    by_cases hstart : Record.StartsWith input
    · obtain ⟨r, rest, rfl⟩ := hstart
      rw [tryTakeRecordFromBuffer_record] at htake
      cases htake
      exact .inr ⟨r, rfl, rfl⟩
    · rw [tryTakeRecordFromBuffer_none hstart] at htake
      cases htake
      exact .inl ⟨rfl, rfl, hstart⟩
  · rintro r rest rfl
    refine ⟨?_, ?_⟩
    · obtain ⟨result, left, houtcome, heq⟩ := readRpcMessageWithLimits_outcome hvalid
        (r.bytes ++ rest)
      rw [heq]
      exact houtcome.enforcesLimits fun data e => not_isLimitError_of_decode
    · intro outputs sizes houtputs
      obtain ⟨result, left, heq, houtcome⟩ := readToEnd_outcome hvalid houtputs
        ⟨r.bytes ++ rest, sizes⟩
      refine ⟨result, left, heq, ?_⟩
      have h := houtcome.enforcesLimits (f := Except.ok) (by simp)
      rwa [show result.bind Except.ok = result by cases result <;> rfl] at h

/-- A record of two fragments, under the default limits. -/
theorem reassemblers_agree_two_fragments :
    RecordLimits.default.Valid ∧
      readRecord [0, 0, 0, 2, 1, 2, 128, 0, 0, 1, 3, 9] = .ok (.complete [1, 2, 3] 11 2) ∧
      readToEnd .default (fun _ => 2) ⟨[0, 0, 0, 2, 1, 2, 128, 0, 0, 1, 3, 9], [3, 1]⟩ =
        (some (.ok [1, 2, 3]), [9]) := by
  have hvalid : RecordLimits.default.Valid := by
    unfold RecordLimits.Valid
    decide
  have hagree := (reassemblers_agree hvalid [0, 0, 0, 2, 1, 2, 128, 0, 0, 1, 3, 9]).1
    (Record.cons [1, 2] (by unfold FragmentFits; decide)
      (Record.single [3] (by unfold FragmentFits; decide))) [9] (by decide)
    (by unfold Record.Within; decide)
  exact ⟨hvalid, hagree.1, hagree.2.2.2 (fun _ => 2) [3, 1] fun _ => by decide⟩

end OncRpc
