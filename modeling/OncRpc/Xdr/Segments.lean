import OncRpc.Xdr.RoundTrip

/-!
# Segmented encodings

A value is encoded without copying its opaque data: the encoder groups what lies between the opaque
bodies, and keeps each body as a segment of its own.  A length that does not fit into a word is
refused here, where the ordinary codec cuts it off.

`segments_of_value` says for all nestings of types that the segments of a value are its ordinary
encoding, cut into pieces.
-/

namespace OncRpc

open Foundation

/-! ## The ordinary codec -/

namespace XdrType

/-- The ordinary codec writes every value: it cuts off a length that does not fit. -/
theorem succeeds_encodeXdr (type : XdrType) (value : type.Carrier) :
    (type.encodeXdr value).Succeeds := by
  induction type with
  | vec element ih =>
    exact Write.succeeds_andThen.mpr
      ⟨Write.succeeds_bytes _, Write.succeeds_each.mpr fun other _ => ih other⟩
  | optionBox element ih =>
    rcases value with _ | value
    · exact Write.succeeds_bytes _
    · exact Write.succeeds_andThen.mpr ⟨Write.succeeds_bytes _, ih value⟩
  | array element len ih =>
    by_cases hbyte : element = u8
    · subst hbyte
      exact ⟨_, encodeXdr_bytes value⟩
    · rw [encodeXdr_array element len value, if_neg hbyte, Write.succeeds_each]
      exact fun other _ => ih other
  | _ => exact Write.succeeds_bytes _

/-- So there is something to append. -/
theorem isSome_encodeXdr (type : XdrType) (value : type.Carrier) :
    Option.isSome (type.encodeXdr value) = true := by
  obtain ⟨b, hb⟩ := succeeds_encodeXdr type value
  rw [hb]
  rfl

end XdrType

/-! ## The encoder -/

/-- The segments of a value, and the adjacent control fields behind them. -/
structure SegmentEncoder where
  control : Bytes
  segments : List Bytes
  deriving DecidableEq

namespace SegmentEncoder

/-- An encoder that has nothing. -/
def default : SegmentEncoder := ⟨[], []⟩

/-- Append a control value. -/
def encode (s : SegmentEncoder) (type : XdrType) (value : type.Carrier) :
    Except XdrError SegmentEncoder :=
  (Option.get (type.encodeXdr value) (XdrType.isSome_encodeXdr type value)).map fun b =>
    { s with control := s.control ++ b }

/-- Append segments. -/
def extend (s : SegmentEncoder) (segments : List Bytes) : SegmentEncoder :=
  { s with segments := s.segments ++ segments }

/-- Make a segment of the control fields. -/
def flush (s : SegmentEncoder) : SegmentEncoder :=
  if s.control = [] then s else { (s.extend [s.control]) with control := [] }

/-- Append the padding behind a body. -/
def pad (s : SegmentEncoder) (len : ℕ) : SegmentEncoder :=
  if xdrPadding len = 0 then s else s.extend [padding len]

/-- Append an opaque value, under a declared maximum; the source's name is a word of the
language here. -/
def opaqueBody (s : SegmentEncoder) (value : Bytes) (maximum : Option ℕ) :
    Except XdrError SegmentEncoder :=
  let maximum := min (maximum.getD (2 ^ 32 - 1)) (2 ^ 32 - 1)
  if maximum < value.length then .error (.lengthLimit value.length maximum)
  else do
    let s ← s.encode .u32 (lengthWord value.length)
    let s := s.flush
    let s := if value = [] then s else s.extend [value]
    return s.pad value.length

/-- Append several owners as one opaque value. -/
def opaqueSegments (s : SegmentEncoder) (maximum : ℕ) (owners : List Bytes) :
    Except XdrError SegmentEncoder := do
  let len ← checkedLen maximum owners
  let s ← s.encode .u32 (lengthWord len)
  let s := s.flush
  let s := s.extend (owners.filter (· ≠ []))
  return s.pad len

/-- The segments, with the control fields behind them as the last one. -/
def finish (s : SegmentEncoder) : List Bytes := s.flush.segments

end SegmentEncoder

namespace XdrType

/-- The `XdrEncodeSegments` implementations. -/
def encodeXdrSegments :
    (type : XdrType) → type.Carrier → SegmentEncoder → Except XdrError SegmentEncoder
  | bytes, b, s => s.opaqueBody b none
  | vec element, values, s =>
    let values : List element.Carrier := values
    if values.length < 2 ^ 32 then do
      let s ← s.encode u32 (lengthWord values.length)
      values.foldlM (fun s value => element.encodeXdrSegments value s) s
    else .error (.lengthLimit values.length (2 ^ 32 - 1))
  | optionBox element, value, s => do
    let value : Option element.Carrier := value
    let s ← s.encode bool value.isSome
    match value with
    | some value => element.encodeXdrSegments value s
    | none => return s
  | array element len, values, s =>
    if element = u8 then s.encode (array element len) values
    else
      let values : Vector element.Carrier len := values
      values.toList.foldlM (fun s value => element.encodeXdrSegments value s) s
  | type, value, s => s.encode type value

/-- The segments of a value. -/
def toXdrSegments (type : XdrType) (value : type.Carrier) : Except XdrError (List Bytes) := do
  let s ← type.encodeXdrSegments value .default
  return s.finish

-- An empty body leaves only its length.
example : (vec bytes).toXdrSegments ([[1, 2, 3], []] : List Bytes) =
    .ok [[0, 0, 0, 2, 0, 0, 0, 3], [1, 2, 3], [0], [0, 0, 0, 0]] := rfl

/-- The opaque bodies in a value, but for empty ones. -/
def bodies : (type : XdrType) → type.Carrier → List Bytes
  | bytes, b => if List.isEmpty b then [] else [b]
  | vec element, values =>
    let values : List element.Carrier := values
    values.flatMap element.bodies
  | optionBox element, value =>
    let value : Option element.Carrier := value
    value.elim [] element.bodies
  | array element len, values =>
    let values : Vector element.Carrier len := values
    values.toList.flatMap element.bodies
  | _, _ => []

end XdrType

/-! ## What is appended -/

namespace SegmentEncoder

variable {s s' s'' : SegmentEncoder} {b b' : Bytes} {kept kept' : List Bytes}

/-- What has been encoded so far. -/
def content (s : SegmentEncoder) : Bytes := s.segments.flatten ++ s.control

/-- From one encoder to the other some bytes were appended, and some of the new segments, none of
which is empty, are the given ones. -/
structure Appends (s s' : SegmentEncoder) (b : Bytes) (kept : List Bytes) : Prop where
  content : s'.content = s.content ++ b
  segments : ∃ added, s'.segments = s.segments ++ added ∧ kept.Sublist added ∧
    ∀ segment ∈ added, segment ≠ []

/-- Appending goes on after appending. -/
theorem Appends.trans (h : Appends s s' b kept) (h' : Appends s' s'' b' kept') :
    Appends s s'' (b ++ b') (kept ++ kept') := by
  obtain ⟨added, hsegments, hkept, hne⟩ := h.segments
  obtain ⟨added', hsegments', hkept', hne'⟩ := h'.segments
  refine ⟨?_, added ++ added', ?_, hkept.append hkept', ?_⟩
  · rw [h'.content, h.content, List.append_assoc]
  · rw [hsegments', hsegments, List.append_assoc]
  · intro segment hmem
    rcases List.mem_append.mp hmem with hmem | hmem
    · exact hne segment hmem
    · exact hne' segment hmem

/-- Nothing is appended by doing nothing. -/
theorem Appends.refl (s : SegmentEncoder) : Appends s s [] [] :=
  ⟨(List.append_nil _).symm, [], (List.append_nil _).symm, .refl _, fun _ hmem => by cases hmem⟩

/-- A control value goes behind the control fields. -/
theorem encode_of_bytes {type : XdrType} {value : type.Carrier}
    (h : type.encodeXdr value = .bytes b) :
    s.encode type value = .ok { s with control := s.control ++ b } := by
  have hget : Option.get (type.encodeXdr value) (XdrType.isSome_encodeXdr type value) = .ok b := by
    simp only [h]
    rfl
  rw [encode, hget]
  rfl

/-- A length. -/
theorem encode_u32 (s : SegmentEncoder) (w : UInt32) :
    s.encode .u32 w = .ok { s with control := s.control ++ beBytes w } := encode_of_bytes rfl

/-- A flag. -/
theorem encode_bool (s : SegmentEncoder) (flag : Bool) :
    s.encode .bool flag = .ok { s with control := s.control ++ beBytes (boolWord flag) } :=
  encode_of_bytes rfl

/-- Bytes written to the control segment are appended. -/
theorem appends_control (s : SegmentEncoder) (b : Bytes) :
    Appends s { s with control := s.control ++ b } b [] := by
  refine ⟨?_, [], (List.append_nil _).symm, .refl _, fun _ hmem => by cases hmem⟩
  simp only [content, List.append_assoc]

/-- A flush appends nothing. -/
theorem appends_flush (s : SegmentEncoder) : Appends s s.flush [] [] := by
  unfold flush
  split
  · exact .refl s
  · next hcontrol =>
    refine ⟨?_, [s.control], rfl, List.nil_sublist _, ?_⟩
    · simp [content, extend]
    · intro segment hmem
      rwa [List.mem_singleton.mp hmem]

/-- After a flush the control segment is empty. -/
@[simp] theorem control_flush (s : SegmentEncoder) : s.flush.control = [] := by
  unfold flush
  split
  · next hcontrol => exact hcontrol
  · rfl

/-- Extending by nothing changes nothing. -/
theorem extend_nil (s : SegmentEncoder) : s.extend [] = s := by
  rw [extend, List.append_nil]

/-- Segments go behind the segments, once the control fields are one. -/
theorem appends_extend {segments : List Bytes} (hcontrol : s.control = [])
    (hne : ∀ segment ∈ segments, segment ≠ []) :
    Appends s (s.extend segments) segments.flatten segments := by
  refine ⟨?_, segments, rfl, .refl _, hne⟩
  simp [content, extend, hcontrol]

/-- Padding is appended behind a flush. -/
theorem appends_pad (hcontrol : s.control = []) (len : ℕ) :
    Appends s (s.pad len) (padding len) [] := by
  unfold pad
  split
  · next hzero =>
    rw [padding, hzero]
    exact .refl s
  · next hpos =>
    have hne : padding len ≠ [] := fun hnil => hpos (by rw [← padding_length, hnil]; rfl)
    refine ⟨?_, [padding len], rfl, List.nil_sublist _, fun segment hmem => ?_⟩
    · simp [content, extend, hcontrol]
    · rwa [List.mem_singleton.mp hmem]

/-- The owners of a body, between its length and its padding. -/
theorem appends_owners (s : SegmentEncoder) (owners : List Bytes) (len : ℕ) :
    Appends s
      ((({ s with control := s.control ++ beBytes (lengthWord len) } : SegmentEncoder).flush.extend
        (owners.filter (· ≠ []))).pad len)
      (beBytes (lengthWord len) ++ (owners.flatten ++ padding len)) (owners.filter (· ≠ [])) := by
  have hflatten : (owners.filter (· ≠ [])).flatten = owners.flatten := by
    induction owners with
    | nil => rfl
    | cons owner owners ih => by_cases hnil : owner = [] <;> simp_all
  have hne : ∀ owner ∈ owners.filter (· ≠ []), owner ≠ [] := fun owner hmem =>
    of_decide_eq_true (List.mem_filter.mp hmem).2
  have hword := (appends_control s (beBytes (lengthWord len))).trans (appends_flush _)
  have howners := hword.trans (appends_extend (control_flush _) hne)
  rw [hflatten] at howners
  have hpad := fun hcontrol => howners.trans (appends_pad hcontrol len)
  simpa only [List.append_nil, List.nil_append, List.append_assoc] using hpad (control_flush _)

/-- All that was encoded is in the segments. -/
theorem flatten_finish (s : SegmentEncoder) : s.finish.flatten = s.content := by
  have hcontent := (appends_flush s).content
  rwa [content, control_flush, List.append_nil, List.append_nil] at hcontent

end SegmentEncoder

/-! ## One case for each type -/

namespace XdrType

open SegmentEncoder (Appends appends_control appends_owners encode_of_bytes encode_u32 encode_bool
  flatten_finish)

/-- A value is encoded as by the ordinary codec, with its opaque bodies among the segments, or it is
refused for a length that does not fit. -/
def Segmented (type : XdrType) (value : type.Carrier) : Prop :=
  ∀ s : SegmentEncoder,
    (∃ s' b, type.encodeXdrSegments value s = .ok s' ∧ type.encodeXdr value = .bytes b ∧
      Appends s s' b (type.bodies value)) ∨
    ∃ len, 2 ^ 32 ≤ len ∧
      type.encodeXdrSegments value s = .error (.lengthLimit len (2 ^ 32 - 1)) ∧ ¬ type.Fits value

/-- A control value. -/
theorem Segmented.control {type : XdrType} {value : type.Carrier}
    (hencode : ∀ s, type.encodeXdrSegments value s = s.encode type value)
    (hbodies : type.bodies value = []) : type.Segmented value := by
  intro s
  obtain ⟨b, hb⟩ := succeeds_encodeXdr type value
  refine .inl ⟨{ s with control := s.control ++ b }, b, ?_, hb, ?_⟩
  · rw [hencode]
    exact encode_of_bytes hb
  · rw [hbodies]
    exact appends_control s b

/-- Opaque data. -/
theorem Segmented.opaqueBody (value : Bytes) : bytes.Segmented value := by
  intro s
  change (∃ s' b, s.opaqueBody value none = .ok s' ∧ _) ∨ ∃ len, _ ∧ s.opaqueBody value none = _ ∧ _
  unfold SegmentEncoder.opaqueBody
  simp only [Option.getD_none, min_self]
  split
  · next hlen =>
    refine .inr ⟨value.length, by omega, rfl, fun hfits => ?_⟩
    have hlt : value.length < 2 ^ 32 := hfits
    omega
  · rw [encode_u32]
    refine .inl ⟨_, writeVariableOpaque value, rfl, rfl, ?_⟩
    have hkeep : ∀ t : SegmentEncoder, (if value = [] then t else t.extend [value]) =
        t.extend ([value].filter (· ≠ [])) := by
      intro t
      by_cases hnil : value = [] <;> simp [hnil, SegmentEncoder.extend_nil]
    have hbodies : bytes.bodies value = [value].filter (· ≠ []) := by
      rcases value with _ | ⟨byte, rest⟩ <;> rfl
    have happends := appends_owners s [value] value.length
    rw [List.flatten_singleton] at happends
    rw [hkeep, hbodies]
    exact happends

section Elements

variable {element : XdrType}

/-- The elements of a vector or an array, one after the other. -/
theorem Segmented.each {values : List element.Carrier}
    (h : ∀ value ∈ values, element.Segmented value) (s : SegmentEncoder) :
    (∃ s' b, values.foldlM (fun s value => element.encodeXdrSegments value s) s = .ok s' ∧
      Write.each element.encodeXdr values = .bytes b ∧
      Appends s s' b (values.flatMap element.bodies)) ∨
    ∃ len, 2 ^ 32 ≤ len ∧
      values.foldlM (fun s value => element.encodeXdrSegments value s) s =
        .error (.lengthLimit len (2 ^ 32 - 1)) ∧
      ∃ value ∈ values, ¬ element.Fits value := by
  induction values generalizing s with
  | nil => exact .inl ⟨s, [], rfl, rfl, .refl s⟩
  | cons value values ih =>
    obtain ⟨hfirst, hrest⟩ := List.forall_mem_cons.mp h
    rw [List.foldlM_cons]
    rcases hfirst s with ⟨s₁, b, hencode, hb, happends⟩ | ⟨len, hlen, hencode, hfits⟩
    · rw [hencode]
      rcases ih hrest s₁ with ⟨s', b', hencode', hb', happends'⟩ | ⟨len, hlen, hencode', hfits⟩
      · refine .inl ⟨s', b ++ b', hencode', ?_, happends.trans happends'⟩
        rw [Write.each, hb, hb']
        rfl
      · obtain ⟨other, hmem, hfits⟩ := hfits
        exact .inr ⟨len, hlen, hencode', other, List.mem_cons_of_mem _ hmem, hfits⟩
    · rw [hencode]
      exact .inr ⟨len, hlen, rfl, value, List.mem_cons_self .., hfits⟩

/-- A vector. -/
theorem Segmented.vec {values : List element.Carrier}
    (h : ∀ value ∈ values, element.Segmented value) : (vec element).Segmented values := by
  intro s
  have hunfold : (XdrType.vec element).encodeXdrSegments values s =
      if values.length < 2 ^ 32 then do
        let s ← s.encode u32 (lengthWord values.length)
        values.foldlM (fun s value => element.encodeXdrSegments value s) s
      else .error (.lengthLimit values.length (2 ^ 32 - 1)) := rfl
  rw [hunfold]
  split
  · rw [encode_u32]
    have hword := appends_control s (beBytes (lengthWord values.length))
    rcases Segmented.each h _ with ⟨s', b, hencode, hb, happends⟩ | ⟨len, hlen, hencode, hfits⟩
    · refine .inl ⟨s', _, hencode, ?_, hword.trans happends⟩
      change encodeVec element.encodeXdr values = _
      rw [encodeVec, hb]
      rfl
    · obtain ⟨other, hmem, hother⟩ := hfits
      exact .inr ⟨len, hlen, hencode, fun hfits => hother (hfits.2 other hmem)⟩
  · next hlen => exact .inr ⟨values.length, by omega, rfl, fun hfits => hlen hfits.1⟩

/-- An array of anything but bytes. -/
theorem Segmented.array {len : ℕ} {values : Vector element.Carrier len} (hbyte : element ≠ u8)
    (h : ∀ value ∈ values.toList, element.Segmented value) :
    (array element len).Segmented values := by
  intro s
  have hunfold : (XdrType.array element len).encodeXdrSegments values s =
      if element = u8 then s.encode (XdrType.array element len) values
      else values.toList.foldlM (fun s value => element.encodeXdrSegments value s) s := rfl
  rw [hunfold, if_neg hbyte, encodeXdr_array element len values, if_neg hbyte]
  rcases Segmented.each h s with hok | ⟨len, hlen, hencode, other, hmem, hother⟩
  · exact .inl hok
  · exact .inr ⟨len, hlen, hencode, fun hfits => hother (hfits other hmem)⟩

end Elements

/-- Every value is encoded so: one case for each type. -/
theorem segmented (type : XdrType) (value : type.Carrier) : type.Segmented value := by
  induction type with
  | bytes => exact .opaqueBody value
  | vec element ih => exact .vec fun other _ => ih other
  | optionBox element ih =>
    intro s
    rcases value with _ | value
    · refine .inl ⟨_, beBytes (boolWord false), ?_, rfl, appends_control s _⟩
      change (do let s ← s.encode bool false; return s) = _
      rw [encode_bool]
    · have hunfold : (optionBox element).encodeXdrSegments (some value) s =
          (do let s ← s.encode bool true; element.encodeXdrSegments value s) := rfl
      have hflag := appends_control s (beBytes (boolWord true))
      rw [hunfold, encode_bool]
      rcases ih value _ with ⟨s', b, hencode, hb, happends⟩ | ⟨len, hlen, hencode, hother⟩
      · refine .inl ⟨s', _, hencode, ?_, hflag.trans happends⟩
        change (Write.bytes _).andThen (element.encodeXdr value) = _
        rw [hb]
        rfl
      · exact .inr ⟨len, hlen, hencode, fun hfits => hother (hfits value rfl)⟩
  | array element len ih =>
    by_cases hbyte : element = u8
    · -- the bytes of an array go with the control fields
      subst hbyte
      refine .control (fun s => rfl) ?_
      exact List.flatMap_eq_nil_iff.mpr fun _ _ => rfl
    · exact .array hbyte fun other _ => ih other
  | _ => exact .control (fun s => rfl) rfl

/-- The segments of a value are its ordinary encoding cut into pieces, whatever the nesting of the
types: none of them is empty, and every opaque body in the value that is not empty is one of its
own, in order.  The only values without segments have a length that does not fit into a word. -/
theorem segments_of_value (type : XdrType) (value : type.Carrier) :
    (∃ segments, type.toXdrSegments value = .ok segments ∧
      type.encodeXdr value = .bytes segments.flatten ∧ (∀ segment ∈ segments, segment ≠ []) ∧
      (type.bodies value).Sublist segments) ∨
    ∃ len, 2 ^ 32 ≤ len ∧
      type.toXdrSegments value = .error (.lengthLimit len (2 ^ 32 - 1)) ∧ ¬ type.Fits value := by
  rcases segmented type value .default with
    ⟨s, b, hencode, hb, happends⟩ | ⟨len, hlen, hencode, hfits⟩
  · left
    obtain ⟨added, hsegments, hkept, hne⟩ :=
      (happends.trans (SegmentEncoder.appends_flush s)).segments
    have hfinish : s.finish = added := hsegments
    refine ⟨s.finish, ?_, ?_, ?_, ?_⟩
    · rw [toXdrSegments, hencode]
      rfl
    · rw [flatten_finish, happends.content]
      exact hb
    · rwa [hfinish]
    · rwa [List.append_nil, ← hfinish] at hkept
  · refine .inr ⟨len, hlen, ?_, hfits⟩
    rw [toXdrSegments, hencode]
    rfl

end XdrType

end OncRpc
