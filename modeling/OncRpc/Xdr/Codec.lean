import OncRpc.Foundation.Cursor
import OncRpc.Runtime.Error

/-!
# The XDR codecs of the runtime

The encoders and decoders every generated codec is built from: words, opaque data with its padding,
strings, vectors, optional data and arrays.  They are generic in the codec of the element type.

The second half says what each of them reads and writes.
-/

namespace OncRpc

open Foundation

/-- A decoder of XDR data. -/
abbrev XdrDecoder (α : Type) := Cursor XdrError α

/-- What an encoder of XDR data appends. -/
abbrev XdrWrite := Write XdrError

/-! ## Words -/

/-- Fail unless that many bytes are left. -/
def ensureLen (len : ℕ) : XdrDecoder Unit := fun input =>
  if input.length < len then some (.error (.unexpectedEof len), input) else some (.ok (), input)

/-- Take bytes off the input. -/
def takeBytes (len : ℕ) : XdrDecoder Bytes := fun input =>
  some (.ok (input.take len), input.drop len)

/-- Read exactly that many bytes. -/
def readExactXdr (len : ℕ) : XdrDecoder Bytes := do
  ensureLen len
  takeBytes len

/-- The bytes of a double word, most significant first. -/
def beBytes64 (w : UInt64) : Bytes :=
  beBytes (UInt32.ofNat (w.toNat / 2 ^ 32)) ++ beBytes (UInt32.ofNat (w.toNat % 2 ^ 32))

/-- The double word of the leading eight bytes. -/
def wordOf64 (b : Bytes) : UInt64 :=
  UInt64.ofNat ((wordOf b).toNat * 2 ^ 32 + (wordOf (b.drop 4)).toNat)

/-- Read a word. -/
def readXdrU32 : XdrDecoder UInt32 := do
  let b ← readExactXdr 4
  return wordOf b

/-- Read a signed word. -/
def readXdrI32 : XdrDecoder Int32 := do
  let b ← readExactXdr 4
  return (wordOf b).toInt32

/-- Read a double word. -/
def readXdrU64 : XdrDecoder UInt64 := do
  let b ← readExactXdr 8
  return wordOf64 b

/-- Read a signed double word. -/
def readXdrI64 : XdrDecoder Int64 := do
  let b ← readExactXdr 8
  return (wordOf64 b).toInt64

/-- Read a byte. -/
def readXdrU8 : XdrDecoder UInt8 := do
  let b ← readExactXdr 1
  return b.headD 0

/-- Read a boolean. -/
def decodeBool : XdrDecoder Bool := do
  let w ← readXdrU32
  if w = 0 then return false
  else if w = 1 then return true
  else Cursor.fail (.invalidBool w)

/-- The word of a boolean. -/
def boolWord (b : Bool) : UInt32 := if b then 1 else 0

/-! ## Opaque data and strings -/

/-- Skip the padding of a field. -/
def discardPadding (len : ℕ) : XdrDecoder Unit := do
  ensureLen (xdrPadding len)
  let _ ← takeBytes (xdrPadding len)
  return ()

/-- Read opaque data of a fixed length. -/
def readFixedOpaque (len : ℕ) : XdrDecoder Bytes := do
  let b ← readExactXdr len
  discardPadding len
  return b

/-- Read opaque data behind its length. -/
def readVariableOpaque : XdrDecoder Bytes := do
  let len ← readXdrU32
  readFixedOpaque len.toNat

/-- The padding behind a field. -/
def padding (len : ℕ) : Bytes := List.replicate (xdrPadding len) 0

/-- Opaque data of a fixed length. -/
def writeFixedOpaque (b : Bytes) : Bytes := b ++ padding b.length

/-- The word of a length: what does not fit is cut off. -/
def lengthWord (len : ℕ) : UInt32 := UInt32.ofNat len

/-- Opaque data behind its length. -/
def writeVariableOpaque (b : Bytes) : Bytes := beBytes (lengthWord b.length) ++ writeFixedOpaque b

/-- The bytes of a string. -/
def stringBytes (s : String) : Bytes := s.toUTF8.data.toList

/-- The string of some bytes. -/
def fromUtf8 (b : Bytes) : Option String := String.fromUTF8? ⟨b.toArray⟩

/-- Read a string. -/
def decodeString : XdrDecoder String := do
  let b ← readVariableOpaque
  match fromUtf8 b with
  | some s => return s
  -- The source adds the text of the standard library.
  | none => Cursor.fail (.invalidUtf8 "")

/-! ## Composite data -/

variable {α : Type}

/-- Read a vector: its length, and so many elements. -/
def decodeVec (d : XdrDecoder α) : XdrDecoder (List α) := do
  let len ← readXdrU32
  d.times len.toNat

/-- Write a vector. -/
def encodeVec (e : α → XdrWrite) (values : List α) : XdrWrite :=
  (Write.bytes (beBytes (lengthWord values.length))).andThen (Write.each e values)

/-- Read optional data. -/
def decodeOption (d : XdrDecoder α) : XdrDecoder (Option α) := do
  if ← decodeBool then
    let value ← d
    return some value
  else return none

/-- Write optional data. -/
def encodeOption (e : α → XdrWrite) : Option α → XdrWrite
  | some value => (Write.bytes (beBytes (boolWord true))).andThen (e value)
  | none => Write.bytes (beBytes (boolWord false))

/-- Read as many elements as an array has. -/
def decodeFixedArray (d : XdrDecoder α) (len : ℕ) : XdrDecoder (List α) := d.times len

/-- The combined length of the owners of a body, unless it is above the maximum. -/
def checkedLenFrom (maximum : ℕ) : ℕ → List Bytes → Except XdrError ℕ
  | len, [] => .ok len
  | len, owner :: owners =>
    if 2 ^ 64 ≤ len + owner.length then .error (.lengthLimit (2 ^ 64 - 1) maximum)
    else if maximum < len + owner.length then .error (.lengthLimit (len + owner.length) maximum)
    else checkedLenFrom maximum (len + owner.length) owners

/-- The combined length of the owners of a body, under a declared maximum. -/
def checkedLen (maximum : ℕ) (owners : List Bytes) : Except XdrError ℕ :=
  checkedLenFrom (min maximum (2 ^ 32 - 1)) 0 owners

/-- Read the length of a body, under a declared maximum. -/
def decodeOpaqueLength (maximum : ℕ) : XdrDecoder ℕ := do
  let len ← readXdrU32
  if len.toNat > maximum then Cursor.fail (.lengthLimit len.toNat maximum)
  else return len.toNat

/-! ## What is read and written -/

/-- The length check passes where enough bytes are left. -/
theorem ensureLen_of_le {len : ℕ} {input : Bytes} (h : len ≤ input.length) :
    ensureLen len input = some (.ok (), input) := if_neg (Nat.not_lt.mpr h)

/-- The bytes at the front are taken. -/
theorem takeBytes_append {len : ℕ} {b : Bytes} (h : b.length = len) (rest : Bytes) :
    takeBytes len (b ++ rest) = some (.ok b, rest) := by
  rw [takeBytes, ← h, List.take_left, List.drop_left]

/-- The bytes at the front are read. -/
theorem readExactXdr_append {len : ℕ} {b : Bytes} (h : b.length = len) (rest : Bytes) :
    readExactXdr len (b ++ rest) = some (.ok b, rest) := by
  rw [readExactXdr, Cursor.bind_of_ok (ensureLen_of_le (by simp [← h])), takeBytes_append h]

/-- A written word is read back. -/
theorem readXdrU32_beBytes (w : UInt32) (rest : Bytes) :
    readXdrU32 (beBytes w ++ rest) = some (.ok w, rest) := by
  rw [readXdrU32, Cursor.bind_of_ok (readExactXdr_append (beBytes_length w) rest),
    Cursor.pure_apply, wordOf_beBytes]

/-- A written signed word is read back. -/
theorem readXdrI32_beBytes (x : Int32) (rest : Bytes) :
    readXdrI32 (beBytes x.toUInt32 ++ rest) = some (.ok x, rest) := by
  rw [readXdrI32, Cursor.bind_of_ok (readExactXdr_append (beBytes_length _) rest),
    Cursor.pure_apply, wordOf_beBytes, Int32.toInt32_toUInt32]

/-- A double word has eight bytes. -/
@[simp] theorem beBytes64_length (w : UInt64) : (beBytes64 w).length = 8 := rfl

/-- A double word is the one its bytes stand for. -/
theorem wordOf64_beBytes64 (w : UInt64) : wordOf64 (beBytes64 w) = w := by
  have hlt := w.toNat_lt
  have hhigh : (UInt32.ofNat (w.toNat / 2 ^ 32)).toNat = w.toNat / 2 ^ 32 := by
    rw [UInt32.toNat_ofNat_of_lt']
    show _ < 2 ^ 32
    omega
  have hlow : (UInt32.ofNat (w.toNat % 2 ^ 32)).toNat = w.toNat % 2 ^ 32 := by
    rw [UInt32.toNat_ofNat_of_lt']
    show _ < 2 ^ 32
    omega
  unfold wordOf64 beBytes64
  rw [wordOf_beBytes_append, drop_beBytes_append, wordOf_beBytes, hhigh, hlow, Nat.mul_comm,
    Nat.div_add_mod, UInt64.ofNat_toNat]

/-- A written double word is read back. -/
theorem readXdrU64_beBytes64 (w : UInt64) (rest : Bytes) :
    readXdrU64 (beBytes64 w ++ rest) = some (.ok w, rest) := by
  rw [readXdrU64, Cursor.bind_of_ok (readExactXdr_append (beBytes64_length w) rest),
    Cursor.pure_apply, wordOf64_beBytes64]

/-- A written signed double word is read back. -/
theorem readXdrI64_beBytes64 (x : Int64) (rest : Bytes) :
    readXdrI64 (beBytes64 x.toUInt64 ++ rest) = some (.ok x, rest) := by
  rw [readXdrI64, Cursor.bind_of_ok (readExactXdr_append (beBytes64_length _) rest),
    Cursor.pure_apply, wordOf64_beBytes64, Int64.toInt64_toUInt64]

/-- A byte is read back. -/
theorem readXdrU8_singleton (x : UInt8) (rest : Bytes) :
    readXdrU8 ([x] ++ rest) = some (.ok x, rest) := by
  rw [readXdrU8, Cursor.bind_of_ok (readExactXdr_append (show [x].length = 1 from rfl) rest)]
  rfl

/-- A written boolean is read back. -/
theorem decodeBool_boolWord (b : Bool) (rest : Bytes) :
    decodeBool (beBytes (boolWord b) ++ rest) = some (.ok b, rest) := by
  rw [decodeBool, Cursor.bind_of_ok (readXdrU32_beBytes _ rest)]
  cases b <;> rfl

/-- The padding has the length that fills up a word. -/
theorem padding_length (len : ℕ) : (padding len).length = xdrPadding len :=
  List.length_replicate

/-- Padding at the front is discarded, whatever its bytes. -/
theorem discardPadding_append {len : ℕ} {pad : Bytes} (h : pad.length = xdrPadding len)
    (rest : Bytes) : discardPadding len (pad ++ rest) = some (.ok (), rest) := by
  rw [discardPadding, Cursor.bind_of_ok (ensureLen_of_le (by simp [← h])),
    Cursor.bind_of_ok (takeBytes_append h rest)]
  rfl

/-- Reading opaque data takes it with its padding, whatever the padding is. -/
theorem readFixedOpaque_append {b pad : Bytes} (h : pad.length = xdrPadding b.length)
    (rest : Bytes) : readFixedOpaque b.length (b ++ pad ++ rest) = some (.ok b, rest) := by
  rw [readFixedOpaque, List.append_assoc, Cursor.bind_of_ok (readExactXdr_append rfl _),
    Cursor.bind_of_ok (discardPadding_append h rest)]
  rfl

/-- A length that fits into a word is the number of its length word. -/
theorem toNat_lengthWord {len : ℕ} (h : len < 2 ^ 32) : (lengthWord len).toNat = len := by
  rw [lengthWord, UInt32.toNat_ofNat_of_lt' h]

/-- Written variable opaque data is read back. -/
theorem readVariableOpaque_write {b : Bytes} (h : b.length < 2 ^ 32) (rest : Bytes) :
    readVariableOpaque (writeVariableOpaque b ++ rest) = some (.ok b, rest) := by
  rw [readVariableOpaque, writeVariableOpaque, List.append_assoc,
    Cursor.bind_of_ok (readXdrU32_beBytes _ _), toNat_lengthWord h, writeFixedOpaque]
  exact readFixedOpaque_append (padding_length _) rest

/-- The bytes of a string are its UTF-8. -/
theorem fromUtf8_stringBytes (s : String) : fromUtf8 (stringBytes s) = some s :=
  dif_pos s.isValidUTF8

/-- A written string is read back. -/
theorem decodeString_write {s : String} (h : (stringBytes s).length < 2 ^ 32) (rest : Bytes) :
    decodeString (writeVariableOpaque (stringBytes s) ++ rest) = some (.ok s, rest) := by
  rw [decodeString, Cursor.bind_of_ok (readVariableOpaque_write h rest), fromUtf8_stringBytes]
  rfl

/-! ## Composite data -/

open Cursor Write

variable {e : ℕ → α → XdrWrite} {d : ℕ → XdrDecoder α}

/-- An encoder and a decoder agree on a value and its encoding. -/
structure Codes (e : ℕ → α → XdrWrite) (d : ℕ → XdrDecoder α) (value : α) (b : Bytes) : Prop where
  writes : Writes (fun n => e n value) b
  reads : Reads d b value

/-- The elements of a list have encodings with a property all encodings of the elements have. -/
theorem Codes.elements_with {P : Bytes → Prop} {values : List α}
    (h : ∀ value ∈ values, ∃ b, Codes e d value b ∧ P b) :
    ∃ encodings, List.Forall₂ (fun value b => Writes (fun n => e n value) b) values encodings ∧
      List.Forall₂ (Reads d) encodings values ∧ ∀ b ∈ encodings, P b := by
  induction values with
  | nil => exact ⟨[], .nil, .nil, by intros; contradiction⟩
  | cons value values ih =>
    obtain ⟨b, hb, hP⟩ := h value (by simp)
    obtain ⟨encodings, hwrites, hreads, hall⟩ := ih fun value hmem => h value (by simp [hmem])
    exact ⟨b :: encodings, .cons hb.writes hwrites, .cons hb.reads hreads,
      List.forall_mem_cons.mpr ⟨hP, hall⟩⟩

/-- Elements that have a code are written one after another and read back. -/
theorem Codes.elements {values : List α} (h : ∀ value ∈ values, ∃ b, Codes e d value b) :
    ∃ encodings, List.Forall₂ (fun value b => Writes (fun n => e n value) b) values encodings ∧
      List.Forall₂ (Reads d) encodings values := by
  obtain ⟨encodings, hwrites, hreads, -⟩ :=
    Codes.elements_with (P := fun _ => True) fun value hmem =>
    (h value hmem).imp fun b hb => ⟨hb, trivial⟩
  exact ⟨encodings, hwrites, hreads⟩

/-- A `Vec` is read behind its length word, if its elements are. -/
theorem reads_decodeVec {values : List α} {b : Bytes} (hword : values.length < 2 ^ 32)
    (h : Reads (fun n => (d n).times values.length) b values) :
    Reads (fun n => decodeVec (d n)) (beBytes (lengthWord values.length) ++ b) values := by
  refine (Reads.of_forall (readXdrU32_beBytes (lengthWord values.length))).bind ?_
  simp only [toNat_lengthWord hword]
  exact h

/-- A zero word is read as an absent value. -/
theorem decodeOption_absent (d : XdrDecoder α) (rest : Bytes) :
    decodeOption d (beBytes (boolWord false) ++ rest) = some (.ok none, rest) := by
  rw [decodeOption, bind_of_ok (decodeBool_boolWord false rest)]
  rfl

/-- A present value is read behind its one word, if the value is. -/
theorem reads_decodeOption_present {value : α} {b : Bytes} (h : Reads d b value) :
    Reads (fun n => decodeOption (d n)) (beBytes (boolWord true) ++ b) (some value) :=
  (Reads.of_forall (decodeBool_boolWord true)).bind (h.map some)

end OncRpc
