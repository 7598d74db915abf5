import OncRpc.Wire.Message

/-!
# Record marking

A message travels over a stream as a record: one or more fragments, each a four-byte marker
followed by that many payload bytes.  The marker holds the payload length in its low 31 bits and a
flag for the last fragment in its top bit.

`RecordMarker` is the marker of the source.  `Record` is the abstract side: the payloads of the
fragments, with the bound that makes each of them expressible, so that `Record.bytes` is always a
well-framed record and `Record.data` the payload every reassembler must produce.
-/

namespace OncRpc

open Foundation

/-- The marker in front of a fragment. -/
structure RecordMarker where
  lastFragment : Bool
  payloadLen : UInt32
  deriving DecidableEq, Repr

namespace RecordMarker

/-- A marker, unless the length does not fit in 31 bits. -/
def new (payloadLen : UInt32) (lastFragment : Bool) : Except WireError RecordMarker :=
  if payloadLen > maxFragmentLen then .error (.fragmentLengthTooLarge payloadLen)
  else .ok ⟨lastFragment, payloadLen⟩

/-- The word of a marker. -/
def encode (marker : RecordMarker) : UInt32 :=
  (if marker.lastFragment then 0x80000000 else 0) ||| marker.payloadLen

/-- The four bytes of a marker. -/
def encodeBytes (marker : RecordMarker) : Bytes := beBytes marker.encode

/-- The marker a word stands for. -/
def decode (word : UInt32) : RecordMarker where
  lastFragment := word &&& 0x80000000 != 0
  payloadLen := word &&& maxFragmentLen

/-- The marker four bytes stand for. -/
def decodeBytes (header : Bytes) : RecordMarker := decode (wordOf header)

/-- The payload length of a decoded marker. -/
theorem decode_payloadLen (word : UInt32) :
    (decode word).payloadLen.toNat = word.toNat % 2 ^ 31 :=
  toNat_and_low31 word

/-- The last-fragment flag of a decoded marker. -/
theorem decode_lastFragment (word : UInt32) :
    (decode word).lastFragment = decide (2 ^ 31 ≤ word.toNat) := by
  rw [Bool.eq_iff_iff]
  simp only [decode, bne_iff_ne, decide_eq_true_eq]
  exact and_top_ne_zero_iff word

/-- The word of a marker whose length fits. -/
theorem toNat_encode {marker : RecordMarker} (h : marker.payloadLen.toNat < 2 ^ 31) :
    marker.encode.toNat = (if marker.lastFragment then 2 ^ 31 else 0) + marker.payloadLen.toNat :=
      by
  unfold encode
  cases marker.lastFragment with
  | true => simpa using toNat_top_or h
  | false => simp

/-- Decoding the word of a marker whose length fits gives the marker back. -/
theorem decode_encode {marker : RecordMarker} (h : marker.payloadLen.toNat < 2 ^ 31) :
    decode marker.encode = marker := by
  obtain ⟨last, len⟩ := marker
  have hlen := decode_payloadLen (encode ⟨last, len⟩)
  have hlast := decode_lastFragment (encode ⟨last, len⟩)
  rw [toNat_encode h] at hlen hlast
  simp only at h hlen hlast
  have h1 : (decode (encode ⟨last, len⟩)).payloadLen = len := by
    apply UInt32.toNat_inj.mp
    cases last <;> simp only [Bool.false_eq_true, if_true, if_false] at hlen <;> omega
  have h2 : (decode (encode ⟨last, len⟩)).lastFragment = last := by
    rw [hlast]
    cases last
    · simp only [Bool.false_eq_true, if_false, decide_eq_false_iff_not]
      omega
    · simp
  calc decode (encode ⟨last, len⟩)
      = ⟨(decode (encode ⟨last, len⟩)).lastFragment,
          (decode (encode ⟨last, len⟩)).payloadLen⟩ := rfl
    _ = ⟨last, len⟩ := by rw [h1, h2]

/-- Every word is the word of the marker it decodes to. -/
theorem encode_decode (word : UInt32) : (decode word).encode = word := by
  have hw := word.toNat_lt
  have hlen := decode_payloadLen word
  apply UInt32.toNat_inj.mp
  rw [toNat_encode (by omega), decode_lastFragment, hlen]
  by_cases h : 2 ^ 31 ≤ word.toNat
  · simp only [h, decide_true, if_true]
    omega
  · simp only [h, decide_false, Bool.false_eq_true, if_false]
    omega

end RecordMarker

/-! ## Fragments and records -/

/-- One fragment on the wire. -/
def fragment (last : Bool) (payload : Bytes) : Bytes :=
  RecordMarker.encodeBytes ⟨last, UInt32.ofNat payload.length⟩ ++ payload

/-- The payload length is expressible in a marker. -/
def FragmentFits (payload : Bytes) : Prop := payload.length < 2 ^ 31

@[simp] theorem fragment_length (last : Bool) (payload : Bytes) :
    (fragment last payload).length = 4 + payload.length := by
  simp [fragment, RecordMarker.encodeBytes]

/-- The length in the marker of a fragment that fits. -/
theorem toNat_ofNat_length {payload : Bytes} (h : FragmentFits payload) :
    (UInt32.ofNat payload.length).toNat = payload.length := by
  rw [UInt32.toNat_ofNat']
  unfold FragmentFits at h
  omega

/-- A record as its fragments: the payloads before the last one, and the last. -/
structure Record where
  more : List Bytes
  last : Bytes
  more_fits : ∀ payload ∈ more, FragmentFits payload
  last_fits : FragmentFits last

namespace Record

/-- The fragments before the last one, on the wire. -/
def moreBytes (more : List Bytes) : Bytes := (more.map (fragment false)).flatten

/-- The record on the wire. -/
def bytes (r : Record) : Bytes := moreBytes r.more ++ fragment true r.last

/-- The payload of the record. -/
def data (r : Record) : Bytes := r.more.flatten ++ r.last

/-- The number of fragments. -/
def fragments (r : Record) : ℕ := r.more.length + 1

@[simp] theorem moreBytes_nil : moreBytes [] = [] := rfl

@[simp] theorem moreBytes_cons (payload : Bytes) (more : List Bytes) :
    moreBytes (payload :: more) = fragment false payload ++ moreBytes more := rfl

theorem moreBytes_append (a b : List Bytes) : moreBytes (a ++ b) = moreBytes a ++ moreBytes b := by
  simp [moreBytes]

/-- Each fragment adds a marker to its payload. -/
theorem moreBytes_length (more : List Bytes) :
    (moreBytes more).length = 4 * more.length + more.flatten.length := by
  induction more with
  | nil => rfl
  | cons payload more ih =>
    simp only [moreBytes_cons, List.length_append, fragment_length, ih, List.length_cons,
      List.flatten_cons]
    omega

/-- The bytes of a record are its markers and its payload. -/
theorem bytes_length (r : Record) : r.bytes.length = 4 * r.fragments + r.data.length := by
  simp only [bytes, List.length_append, moreBytes_length, fragment_length, fragments, data]
  omega

/-- A record of a single fragment. -/
def single (payload : Bytes) (h : FragmentFits payload) : Record where
  more := []
  last := payload
  more_fits := by simp
  last_fits := h

/-- Another fragment in front of a record. -/
def cons (payload : Bytes) (h : FragmentFits payload) (r : Record) : Record where
  more := payload :: r.more
  last := r.last
  more_fits := by
    intro p hp
    rcases List.mem_cons.mp hp with rfl | hp
    · exact h
    · exact r.more_fits p hp
  last_fits := r.last_fits

/-! ## Framing is unambiguous -/

/-- The payloads of all fragments. -/
def payloads (r : Record) : List Bytes := r.more ++ [r.last]

end Record

/-- The bytes of a marker. -/
def markerBytes (last : Bool) (length : ℕ) : Bytes :=
  RecordMarker.encodeBytes ⟨last, UInt32.ofNat length⟩

@[simp] theorem markerBytes_length (last : Bool) (length : ℕ) :
    (markerBytes last length).length = 4 := rfl

theorem fragment_eq (last : Bool) (payload : Bytes) :
    fragment last payload = markerBytes last payload.length ++ payload := rfl

/-- A marker determines its flag and its length. -/
theorem markerBytes_append_inj {last last' : Bool} {length length' : ℕ} {a b : Bytes}
    (hl : length < 2 ^ 31) (hl' : length' < 2 ^ 31)
    (h : markerBytes last length ++ a = markerBytes last' length' ++ b) :
    last = last' ∧ length = length' ∧ a = b := by
  have hn : (UInt32.ofNat length).toNat = length := by
    rw [UInt32.toNat_ofNat']
    omega
  have hn' : (UInt32.ofNat length').toNat = length' := by
    rw [UInt32.toNat_ofNat']
    omega
  obtain ⟨hword, hab⟩ := beBytes_append_inj.mp h
  have hdecode := congrArg RecordMarker.decode hword
  rw [RecordMarker.decode_encode (by rw [hn]; exact hl),
    RecordMarker.decode_encode (by rw [hn']; exact hl')] at hdecode
  simp only [RecordMarker.mk.injEq] at hdecode
  refine ⟨hdecode.1, ?_, hab⟩
  rw [← hn, hdecode.2, hn']

/-- A fragment determines its flag, its payload and what follows it. -/
theorem fragment_append_inj {last last' : Bool} {p p' a b : Bytes} (hp : FragmentFits p)
    (hp' : FragmentFits p') (h : fragment last p ++ a = fragment last' p' ++ b) :
    last = last' ∧ p = p' ∧ a = b := by
  rw [fragment_eq, fragment_eq, List.append_assoc, List.append_assoc] at h
  obtain ⟨hlast, hlength, hrest⟩ := markerBytes_append_inj hp hp' h
  obtain ⟨hpp, hab⟩ := List.append_inj hrest hlength
  exact ⟨hlast, hpp, hab⟩

namespace Record

/-- Fragments without the last flag at the head of a stream that starts with a record are the first
fragments of that record. -/
theorem more_eq_append {r : Record} {more : List Bytes} {tail rest : Bytes}
    (hmore : ∀ p ∈ more, FragmentFits p) (h : moreBytes more ++ tail = r.bytes ++ rest) :
    ∃ post, r.more = more ++ post ∧ tail = moreBytes post ++ (fragment true r.last ++ rest) := by
  obtain ⟨rmore, rlast, hrmore, hrlast⟩ := r
  simp only [bytes, List.append_assoc] at h ⊢
  induction more generalizing rmore with
  | nil => exact ⟨rmore, rfl, h⟩
  | cons p more ih =>
    have hp : FragmentFits p := hmore p (by simp)
    rw [moreBytes_cons, List.append_assoc] at h
    cases rmore with
    | nil =>
      rw [moreBytes_nil, List.nil_append] at h
      have hflag := (fragment_append_inj hp hrlast h).1
      cases hflag
    | cons q rmore =>
      rw [moreBytes_cons, List.append_assoc] at h
      obtain ⟨-, hpq, hrest⟩ := fragment_append_inj hp (hrmore q (by simp)) h
      obtain ⟨post, hpost, htail⟩ := ih (fun x hx => hmore x (by simp [hx])) rmore
        (fun x hx => hrmore x (by simp [hx])) hrest
      exact ⟨post, by rw [hpost, hpq, List.cons_append], htail⟩

/-- The next marker after some fragments of a record belongs to one of its other fragments. -/
theorem payloads_eq_of_marker {r : Record} {more : List Bytes} {last : Bool} {length : ℕ}
    {tail rest : Bytes} (hmore : ∀ p ∈ more, FragmentFits p) (hlength : length < 2 ^ 31)
    (h : moreBytes more ++ (markerBytes last length ++ tail) = r.bytes ++ rest) :
    ∃ p post, r.payloads = more ++ p :: post ∧ p.length = length ∧ (last = true ↔ post = []) := by
  obtain ⟨post, hpost, htail⟩ := more_eq_append hmore h
  cases post with
  | nil =>
    rw [moreBytes_nil, List.nil_append, fragment_eq, List.append_assoc] at htail
    obtain ⟨hlast, hlen, -⟩ := markerBytes_append_inj hlength r.last_fits htail
    refine ⟨r.last, [], by simp [payloads, hpost], hlen.symm, by simp [hlast]⟩
  | cons p post =>
    have hp : FragmentFits p := r.more_fits p (by simp [hpost])
    rw [moreBytes_cons, fragment_eq, List.append_assoc, List.append_assoc] at htail
    obtain ⟨hlast, hlen, -⟩ := markerBytes_append_inj hlength hp htail
    refine ⟨p, post ++ [r.last], by simp [payloads, hpost], hlen.symm, by simp [hlast]⟩

/-- At most one record is a prefix of a stream. -/
theorem bytes_append_inj {r r' : Record} {a b : Bytes} (h : r.bytes ++ a = r'.bytes ++ b) :
    r = r' ∧ a = b := by
  have h' : moreBytes r.more ++ (fragment true r.last ++ a) = r'.bytes ++ b := by
    rw [← h, bytes, List.append_assoc]
  obtain ⟨post, hpost, htail⟩ := more_eq_append r.more_fits h'
  cases post with
  | nil =>
    rw [moreBytes_nil, List.nil_append] at htail
    obtain ⟨-, hlast, hab⟩ := fragment_append_inj r.last_fits r'.last_fits htail
    obtain ⟨more, last, hmore, hfits⟩ := r
    obtain ⟨more', last', hmore', hfits'⟩ := r'
    simp only [List.append_nil] at hpost hlast hab
    subst hpost hlast
    exact ⟨rfl, hab⟩
  | cons p post =>
    have hp : FragmentFits p := r'.more_fits p (by simp [hpost])
    rw [moreBytes_cons, List.append_assoc] at htail
    have hflag := (fragment_append_inj r.last_fits hp htail).1
    cases hflag

end Record

end OncRpc
