import OncRpc.Owned.RecordStage
import OncRpc.Owned.DirectOutcome

/-!
# Replies that do not fit

A receiver can lack room in two ways.  It can supply an empty range: then `receive_record` drains
the rest of the record, fails the call and returns `Ok`.  Or a callback can fail: then
`receive_record` returns the error, and the reader retires the connection.  The buffers of
`call_segmented` and `XdrDecodeReceiver` do the first; `XdrReplyReceiver` does the second.
-/

namespace OncRpc

open Foundation

/-! ## Receivers with a capacity -/

section Bounded

variable {R : Type} [ReplyReceiver R]

/-- A receiver that refuses nothing and takes so many bytes.  `Holds n` says that it has received
`n` bytes, `Offers n room` that it has supplied a range of `room` more. -/
structure BoundedReceiver (R : Type) [ReplyReceiver R] (capacity : ℕ) where
  Holds : ℕ → R → Prop
  Offers : ℕ → ℕ → R → Prop
  buffer : ∀ {n : ℕ} {r : R}, Holds n r → ∃ r' room, ReplyReceiver.buffer r = (r', .ok room) ∧
    Offers n room r' ∧ n + room ≤ capacity ∧ (room = 0 → n = capacity)
  store : ∀ {n room : ℕ} {r : R} {chunk : Bytes}, Offers n room r → 0 < room →
    chunk.length ≤ room → ∃ r', ReplyReceiver.advance (ReplyReceiver.fill r chunk) chunk.length =
      (r', .ok ()) ∧ Holds (n + chunk.length) r'

variable {capacity : ℕ} {reply : RpcMessage}

namespace BoundedReceiver

/-- The receive of a payload of which `n` bytes have come. -/
inductive At (b : BoundedReceiver R capacity) (reply : RpcMessage) : ℕ → Stage R → Prop
  | payload {n room : ℕ} {r : R} (hoffers : b.Offers n room r) (hroom : 0 < room)
    (hle : n + room ≤ capacity) : At b reply n (.payload ⟨r, n⟩ reply n room)
  | probe {n : ℕ} (target : Target R) (hfull : n = capacity) :
    At b reply n (.probe target reply true n)
  | extra {n : ℕ} (target : Target R) (count : ℕ) (hover : capacity < n) :
    At b reply n (.extra target reply true count)

variable {b : BoundedReceiver R capacity} {n : ℕ} {stage : Stage R} {chunk : Bytes}

/-- The next range, or the probe when the receiver is full. -/
theorem At.nextRange (reply : RpcMessage) {r : R} (h : b.Holds n r) :
    b.At reply n (Stage.nextRange ⟨r, n⟩ reply n) := by
  obtain ⟨r', room, hbuffer, hoffers, hle, hzero⟩ := b.buffer h
  have htarget : Target.buffer (⟨r, n⟩ : Target R) = (⟨r', n⟩, .ok room) := by
    unfold Target.buffer
    rw [hbuffer]
  unfold Stage.nextRange
  rw [htarget]
  rcases room with _ | room
  · exact .probe _ (hzero rfl)
  · exact .payload hoffers (Nat.succ_pos room) hle

/-- A piece of the payload. -/
theorem At.feed (h : b.At reply n stage) (hne : chunk ≠ [])
    (hfits : ∀ wants atEnd, stage.pending = some (wants, atEnd) → chunk.length ≤ wants)
    (hlen : n + chunk.length ≤ usizeMax) : b.At reply (n + chunk.length) (stage.feed chunk) := by
  have hpos : 0 < chunk.length := List.length_pos_of_ne_nil hne
  cases h with
  | payload hoffers hroom hle =>
    obtain ⟨r', hadvance, hholds⟩ := b.store hoffers hroom (hfits _ _ rfl)
    have hadd : checkedAdd n chunk.length = some (n + chunk.length) :=
      checkedAdd_eq_some.mpr ⟨rfl, hlen⟩
    simp only [Stage.feed, Target.fill, Target.advance, hadd, hadvance]
    exact nextRange reply hholds
  | probe target hfull => exact .extra target 1 (by omega)
  | extra target count hover => exact .extra target _ (by omega)

/-- The pieces of the payload. -/
theorem At.foldl_feed {chunks : List Bytes} (h : b.At reply n stage)
    (hchunked : stage.Chunked chunks) (hlen : n + chunks.flatten.length ≤ usizeMax) :
    b.At reply (n + chunks.flatten.length) (chunks.foldl Stage.feed stage) := by
  induction chunks generalizing n stage with
  | nil => exact h
  | cons chunk chunks ih =>
    obtain ⟨hne, hfits, hrest⟩ := hchunked
    rw [List.flatten_cons, List.length_append, ← Nat.add_assoc] at hlen ⊢
    exact ih (h.feed hne hfits (by omega)) hrest hlen

end BoundedReceiver

end Bounded

/-- The capacity of the buffers of a segmented call. -/
def Buffers.bounded (init : List Bytes) : BoundedReceiver Buffers init.flatten.length where
  Holds n b := ∃ placed, placed.length = n ∧ BuffersAt init placed b
  Offers n room b := (∃ placed, placed.length = n ∧ BuffersAt init placed b) ∧
    (0 < room → b.index < b.buffers.length ∧ b.offset + room = b.current.length)
  buffer := by
    rintro n b ⟨placed, rfl, hat⟩
    obtain ⟨b', room, hbuffer, hat', hroom⟩ := hat.buffer
    refine ⟨b', room, hbuffer, ⟨⟨placed, rfl, hat'⟩, fun hpos => ?_⟩, ?_, fun hzero => ?_⟩
    · rcases hroom with ⟨rfl, -⟩ | ⟨-, hlt, hoffset⟩
      · exact absurd hpos (Nat.lt_irrefl 0)
      · exact ⟨hlt, hoffset⟩
    · rcases hroom with ⟨rfl, hfull⟩ | ⟨-, hlt, hoffset⟩
      · omega
      · have hsplit := congrArg List.length (congrArg List.flatten (BuffersAt.split hlt))
        have hposition := hat'.position
        rw [List.flatten_append, List.flatten_cons, List.length_append, List.length_append,
          hat'.flatten_length] at hsplit
        omega
    · rcases hroom with ⟨-, hfull⟩ | ⟨hpos, -⟩
      · exact hfull
      · omega
  store := by
    rintro n room b chunk ⟨⟨placed, rfl, hat⟩, hoffers⟩ hroom hle
    obtain ⟨hlt, hoffset⟩ := hoffers hroom
    exact ⟨_, rfl, placed ++ chunk, List.length_append, hat.fill chunk hlt (by omega)⟩

/-- The capacity of the destination of a receive that decodes at the end. -/
def XdrDecodeReceiver.bounded (dest : Bytes) : BoundedReceiver XdrDecodeReceiver dest.length where
  Holds n r := r.used = n ∧ r.buffer.length = dest.length ∧ n ≤ dest.length
  Offers n room r := r.used = n ∧ r.buffer.length = dest.length ∧ n + room = dest.length
  buffer := by
    rintro n r ⟨rfl, hlen, hle⟩
    refine ⟨r, r.buffer.length - r.used, rfl, ⟨rfl, hlen, ?_⟩, ?_, fun hzero => ?_⟩
    all_goals omega
  store := by
    rintro n room r chunk ⟨rfl, hlen, hsum⟩ hroom hle
    have hover : (overwrite r.buffer r.used chunk).length = r.buffer.length :=
      overwrite_length (by omega)
    exact ⟨_, rfl, rfl, hover.trans hlen, by omega⟩

/-! ## A receiver that refuses -/

section Refuses

open XdrReplyMetadata (valueLen)

variable {M : Type} [XdrReplyMetadata M] {dest consumed payload chunk p : Bytes} {m : M}
  {reply : RpcMessage} {stage : Stage (XdrReplyReceiver M)}

/-- A receiver whose destination is too small for the value never has the metadata. -/
theorem ReceiverAt.metadata_none (hM : XdrReplyMetadata.Exact M) {r : XdrReplyReceiver M}
    (h : ReceiverAt dest consumed r) (hp : XdrReplyMetadata.decodeXdr p = (.ok m, []))
    (hfront : p <+: payload) (hpart : consumed <+: payload) (hsmall : dest.length < valueLen m) :
    r.metadata = none := by
  cases h with
  | metadata => rfl
  | data p' body zeros m' scratch used target hp' hdest =>
    have hfront' : p' <+: payload := by
      refine List.IsPrefix.trans ?_ hpart
      rw [List.append_assoc]
      exact List.prefix_append _ _
    obtain ⟨rfl, rfl⟩ := hM.unique hp hp' hfront hfront'
    omega

/-- The receive of a payload whose value does not fit: it waits for metadata, or it was refused. -/
inductive Refuses : Stage (XdrReplyReceiver M) → Prop
  | payload {r : XdrReplyReceiver M} {payloadLen length room : ℕ} {reply : RpcMessage}
    (hnone : r.metadata = none) : Refuses (.payload ⟨r, payloadLen⟩ reply length room)
  | ended (target : Target (XdrReplyReceiver M)) (e : RuntimeError) :
    Refuses (.ended (.segmented target) (.error e))

namespace Refuses

/-- A receiver without metadata asks for them. -/
theorem of_parsed {r : XdrReplyReceiver M} (hparsed : r.Parsed) (hnone : r.metadata = none)
    (payloadLen length : ℕ) : Refuses (Stage.nextRange ⟨r, payloadLen⟩ reply length) := by
  obtain ⟨hrange, -⟩ := XdrReplyReceiver.store_metadata hnone []
  have hlt := hparsed hnone
  rw [TypedAt.nextRange_of_parsed hparsed, if_neg (by omega)]
  exact .payload hnone

/-- The receive begins without metadata. -/
theorem begin (reply : RpcMessage) (hM : XdrReplyMetadata.Exact M)
    (hp : XdrReplyMetadata.decodeXdr p = (.ok m, [])) (hfront : p <+: payload)
    (hsmall : dest.length < valueLen m) :
    Refuses (Stage.begin (XdrReplyReceiver.new (M := M) dest) reply) := by
  rcases (ReceiverAt.new (M := M) dest).parsePrefix with ⟨r, hparse, hr, hparsed⟩ | ⟨r, e, hparse⟩
  · rw [TypedAt.begin_eq hparse hparsed]
    exact of_parsed hparsed (hr.metadata_none hM hp hfront List.nil_prefix hsmall) _ _
  · unfold Stage.begin Stage.nextRange Target.buffer
    simp only [ReplyReceiver.buffer, XdrReplyReceiver.nextRange, hparse]
    exact .ended _ e

/-- A piece of the payload. -/
theorem feed (hM : XdrReplyMetadata.Exact M) (hp : XdrReplyMetadata.decodeXdr p = (.ok m, []))
    (hfront : p <+: payload) (hsmall : dest.length < valueLen m) (h : Refuses stage)
    (hat : TypedAt dest reply consumed stage)
    (hfits : ∀ wants atEnd, stage.pending = some (wants, atEnd) → chunk.length ≤ wants)
    (hpart : consumed ++ chunk <+: payload) (hlen : payload.length ≤ usizeMax) :
    Refuses (stage.feed chunk) := by
  cases hat with
  | payload hr hparsed hroom =>
    have hsum : consumed.length + chunk.length ≤ usizeMax := by
      rw [← List.length_append]
      exact hpart.length_le.trans hlen
    rcases hr.store hparsed (hfits _ _ rfl) with ⟨r', hstore, hr', hparsed'⟩ | ⟨r', e, hstore⟩
    · rw [TypedAt.feed_of_store hstore hsum]
      exact of_parsed hparsed' (hr'.metadata_none hM hp hfront hpart hsmall) _ _
    · rw [TypedAt.feed_of_refused hstore hsum]
      exact .ended _ e
  | probe => cases h
  | extra => cases h
  | ended target e => exact .ended target e

/-- The pieces of the payload. -/
theorem foldl_feed {chunks : List Bytes} (hM : XdrReplyMetadata.Exact M)
    (hp : XdrReplyMetadata.decodeXdr p = (.ok m, [])) (hfront : p <+: payload)
    (hsmall : dest.length < valueLen m) (h : Refuses stage)
    (hat : TypedAt dest reply consumed stage) (hchunked : stage.Chunked chunks)
    (hpart : consumed ++ chunks.flatten <+: payload) (hlen : payload.length ≤ usizeMax) :
    Refuses (chunks.foldl Stage.feed stage) := by
  induction chunks generalizing consumed stage with
  | nil => exact h
  | cons chunk chunks ih =>
    obtain ⟨-, hfits, hrest⟩ := hchunked
    rw [List.flatten_cons, ← List.append_assoc] at hpart
    have hpart' : consumed ++ chunk <+: payload := (List.prefix_append _ _).trans hpart
    have hsum : consumed.length + chunk.length ≤ usizeMax := by
      rw [← List.length_append]
      exact hpart'.length_le.trans hlen
    exact ih (h.feed hM hp hfront hsmall hat hfits hpart' hlen) (hat.feed hfits hsum) hrest hpart

end Refuses

/-- A receive of metadata whose value does not fit is refused, before the payload is at its end. -/
theorem typed_refused (hM : XdrReplyMetadata.Exact M) {chunks : List Bytes}
    (hp : XdrReplyMetadata.decodeXdr p = (.ok m, [])) (hfront : p <+: payload)
    (hsmall : dest.length < valueLen m)
    (hchunked : (Stage.begin (XdrReplyReceiver.new (M := M) dest) reply).Chunked chunks)
    (hpart : chunks.flatten <+: payload) (hlen : payload.length ≤ usizeMax)
    (hover : (chunks.foldl Stage.feed (Stage.begin (XdrReplyReceiver.new (M := M) dest)
      reply)).pending = none ∨ chunks.flatten = payload) :
    ∃ target e, chunks.foldl Stage.feed (Stage.begin (XdrReplyReceiver.new (M := M) dest) reply) =
      .ended (.segmented target) (.error e) := by
  have hbegin := TypedAt.begin (M := M) dest reply
  have hat := hbegin.foldl_feed hchunked (by simpa using hpart.length_le.trans hlen)
  have hon := (OnFront.begin reply hM hp hfront hlen).foldl_feed hM hp hfront hlen hbegin
    hchunked (by simpa using hpart)
  have hrefuses := (Refuses.begin reply hM hp hfront hsmall).foldl_feed hM hp hfront
    hsmall hbegin hchunked (by simpa using hpart) hlen
  rw [List.nil_append] at hat
  generalize List.foldl Stage.feed (Stage.begin (XdrReplyReceiver.new (M := M) dest) reply)
    chunks = stage at hat hon hrefuses hover
  cases hat with
  | payload hr hparsed hroom =>
    rcases hover with hnone | hall
    · cases hnone
    · -- The receiver waits for metadata that it has.
      have hnone := hr.metadata_none hM hp hfront hpart hsmall
      have hlt := hparsed hnone
      have htarget := hon.within _ _ _ _ rfl hnone
      have hused := hr.used_of_none hnone
      have hle := hfront.length_le
      rw [hall] at hused
      simp only at htarget
      omega
  | probe => cases hrefuses
  | extra => cases hrefuses
  | ended target e => exact ⟨target, e, rfl⟩

end Refuses

/-! ## Isolation -/

/-- The payload of a record within the limits is shorter than the sentinel. -/
theorem RpcMessage.payload_length_lt {limits : RecordLimits} {record : Record} {m : RpcMessage}
    (hwithin : record.Within limits) (hdecode : RpcMessage.decode record.data = .ok m) :
    m.payload.length < usizeMax := by
  obtain ⟨-, -, hwire⟩ := (RpcMessage.decode_eq_ok_iff_wire _ _).mp hdecode
  have hlen := congrArg List.length hwire
  rw [m.wire_eq_header_append, List.length_append] at hlen
  have hbytes := record.bytes_length
  have hle := hwithin.2
  have hmax := limits.bytes_le
  have hfragments : record.fragments = record.more.length + 1 := rfl
  omega

section Isolation

variable {R : Type} [ReplyReceiver R]

/-- After the reader is done with the record, it stands at the start of the next record, the
connection is open if it was, and no other call and no other registration has changed. -/
def Conn.GoesOn (cfg : Config) (s : Conn R) (token : ℕ) (key : Xid) : Prop :=
  ∃ s₁ s₂, s.turn cfg = some s₁ ∧ s₁.turn cfg = some s₂ ∧ s₂.reader = .nextRecord cfg ∧
    s₂.closed = s.closed ∧ (∀ id, id ≠ token → s₂.calls id = s.calls id) ∧
    ∀ xid, xid ≠ key → s₂.pending.lookup xid = s.pending.lookup xid

/-- Only the call fails: `receive_record` takes the whole record and returns `Ok`, but the call is
told an error, and the connection goes on. -/
def Isolates (cfg : Config) (receiver : R) (record : Record) (rest : Bytes) (sizes : List ℕ) :
    Prop :=
  ∃ receive left value e,
    RecordTask.task.drive (.xid (.start cfg.limits) [] ⟨receiver, 0⟩)
      ⟨record.bytes ++ rest, sizes⟩ =
      (.receiving receive, left) ∧ left.bytes = rest ∧
    receive.poll = .ready (some (.ok value)) ∧ segmentedResult (.ok value) = .error e ∧
    ∀ (s : Conn R) (token : ℕ) (key : Xid), s.reader = .receiving token key receive →
      s.busy .reader = false → (s.calls token).control.error = none → s.GoesOn cfg token key

/-- A record that was received is followed by the next one. -/
theorem Conn.goesOn_of_ok {cfg : Config} {s : Conn R} {token : ℕ} {key : Xid} {receive : Receive R}
    {value : RpcMessage × ℕ} (hreader : s.reader = .receiving token key receive)
    (hbusy : s.busy .reader = false) (hcontrol : (s.calls token).control.error = none)
    (hpoll : receive.poll = .ready (some (.ok value))) : s.GoesOn cfg token key := by
  have hfinish := CallControl.finish_of_not_error hcontrol (.ok value)
  have hdecide : (s.decide token key receive (.ok value)).reader =
      .cleanup (some token) key (.ok ()) := by
    simp only [decide, hfinish, CallControl.error]
    rfl
  have hfirst : s.turn cfg = some (s.decide token key receive (.ok value)) := by
    simp only [turn, hbusy, hreader, hpoll]
    rfl
  have hbusy' : (s.decide token key receive (.ok value)).busy .reader = false := hbusy
  have hsecond : (s.decide token key receive (.ok value)).turn cfg =
      some { (s.decide token key receive (.ok value)).cleanup (some token) key with
        reader := .nextRecord cfg } := by
    simp only [turn, hbusy', hdecide]
    rfl
  refine ⟨_, _, hfirst, hsecond, rfl, ?_, ?_, ?_⟩
  · rw [cleanup_eq]
    rfl
  · intro id hne
    rw [cleanup_eq]
    exact Function.update_of_ne hne _ _
  · intro xid hne
    rcases cleanup_pending (s.decide token key receive (.ok value)) (some token) key with h | h
    · simp only [h]
      rfl
    · simp only [h]
      exact AList.lookup_erase_ne hne

/-- A receiver with a capacity isolates every reply that exceeds it. -/
theorem BoundedReceiver.isolates {capacity : ℕ} (b : BoundedReceiver R capacity) {receiver : R}
    (hnew : b.Holds 0 receiver) {cfg : Config} {record : Record} {m : RpcMessage}
    (hwithin : record.Within cfg.limits) (hdecode : RpcMessage.decode record.data = .ok m)
    (hs : m.isSuccess = true) (hexceeds : capacity < m.payload.length) (rest : Bytes)
    (sizes : List ℕ) : Isolates cfg receiver record rest sizes := by
  obtain ⟨receive, chunks, left, hdrive, hchunked, hstage, hpart, hover⟩ :=
    RecordTask.drive_record receiver hwithin hdecode hs rest sizes
  have hsize := RpcMessage.payload_length_lt hwithin hdecode
  have hat := (BoundedReceiver.At.nextRange m.header hnew).foldl_feed hchunked
    (by have hle := hpart.length_le; omega)
  rw [Nat.zero_add] at hat
  have hfold : chunks.foldl Stage.feed (Stage.nextRange ⟨receiver, 0⟩ m.header 0) = receive.stage :=
    hstage.symm
  rw [hfold] at hat
  generalize receive.stage = stage at hat hover
  cases hat with
  | payload hoffers hroom hle =>
    rcases hover with hnone | ⟨hall, -⟩
    · cases hnone
    · rw [hall] at hle
      omega
  | probe target hfull =>
    rcases hover with hnone | ⟨hall, -⟩
    · cases hnone
    · rw [hall] at hfull
      omega
  | extra target count hmore =>
    rcases hover with hnone | ⟨-, hleft, wants, atEnd, hpending, hpoll⟩
    · cases hnone
    · cases hpending
      refine ⟨receive, left, (m.header, usizeMax), _, hdrive, hleft, hpoll, rfl, ?_⟩
      intro s token key hreader hbusy hcontrol
      exact Conn.goesOn_of_ok hreader hbusy hcontrol hpoll

end Isolation

/-! ## The receivers of the library -/

/-- The receivers the library provides, with the caller's storage. -/
inductive LibraryReceiver where
  /-- The buffers of `call_segmented`. -/
  | buffers (init : List Bytes)
  /-- `XdrDecodeReceiver`. -/
  | decode (dest : Bytes)
  /-- `XdrReplyReceiver`. -/
  | direct (dest : Bytes)

namespace LibraryReceiver

open XdrReplyMetadata (valueLen)

variable (M : Type) [XdrReplyMetadata M]

/-- The receiver reads metadata first. -/
def isDirect : LibraryReceiver → Bool
  | .buffers _ | .decode _ => false
  | .direct _ => true

/-- The result does not fit the caller's storage: all of it, or the opaque value that follows the
metadata. -/
def Exceeds : LibraryReceiver → Bytes → Prop
  | .buffers init, payload => init.flatten.length < payload.length
  | .decode dest, payload => dest.length < payload.length
  | .direct dest, payload => ∃ p rest, ∃ m : M, payload = p ++ rest ∧
    XdrReplyMetadata.decodeXdr p = (.ok m, []) ∧ dest.length < valueLen m

/-- Only the call of the receiver fails. -/
def Isolates (cfg : Config) (record : Record) (rest : Bytes) (sizes : List ℕ) :
    LibraryReceiver → Prop
  | .buffers init => OncRpc.Isolates cfg (⟨init, 0, 0⟩ : Buffers) record rest sizes
  | .decode dest => OncRpc.Isolates cfg (XdrDecodeReceiver.new dest) record rest sizes
  | .direct dest => OncRpc.Isolates cfg (XdrReplyReceiver.new (M := M) dest) record rest sizes

variable {M}

/-- A direct receiver does not isolate a value that exceeds its destination. -/
theorem not_isolates_direct (hM : XdrReplyMetadata.Exact M) {cfg : Config} {record : Record}
    {message : RpcMessage} {dest : Bytes} (hwithin : record.Within cfg.limits)
    (hdecode : RpcMessage.decode record.data = .ok message) (hs : message.isSuccess = true)
    (hexceeds : (direct dest).Exceeds M message.payload) (rest : Bytes) (sizes : List ℕ) :
    ¬ (direct dest).Isolates M cfg record rest sizes := by
  obtain ⟨p, back, m, hpayload, hp, hsmall⟩ := hexceeds
  obtain ⟨receive, chunks, left, hdrive, hchunked, hstage, hpart, hover⟩ :=
    RecordTask.drive_record (XdrReplyReceiver.new (M := M) dest) hwithin hdecode hs rest sizes
  rw [hstage] at hover
  obtain ⟨target, e, hended⟩ := typed_refused hM hp ⟨back, hpayload.symm⟩ hsmall hchunked hpart
    (RpcMessage.payload_length_lt hwithin hdecode).le (hover.imp_right And.left)
  rintro ⟨receive', left', value, e', hdrive', -, hpoll, -⟩
  rw [hdrive] at hdrive'
  cases hdrive'
  rw [hended] at hstage
  simp only [Receive.poll, hstage, Stage.pending, Stage.outcome] at hpoll
  cases hpoll

/-- A reply that does not fit the caller's storage fails only its call exactly if the receiver is
not a direct one. -/
theorem caller_capacity (hM : XdrReplyMetadata.Exact M) (cfg : Config) (receiver : LibraryReceiver)
    (record : Record) (hwithin : record.Within cfg.limits) (message : RpcMessage)
    (hdecode : RpcMessage.decode record.data = .ok message) (hs : message.isSuccess = true)
    (hexceeds : receiver.Exceeds M message.payload) (rest : Bytes) (sizes : List ℕ) :
    receiver.Isolates M cfg record rest sizes ↔ receiver.isDirect = false := by
  rcases receiver with init | dest | dest
  · refine ⟨fun _ => rfl, fun _ => ?_⟩
    exact (Buffers.bounded init).isolates ⟨[], rfl, BuffersAt.start init⟩
      hwithin hdecode hs hexceeds
      rest sizes
  · refine ⟨fun _ => rfl, fun _ => ?_⟩
    exact (XdrDecodeReceiver.bounded dest).isolates ⟨rfl, rfl, Nat.zero_le _⟩ hwithin hdecode hs
      hexceeds rest sizes
  · refine ⟨fun h => ?_, nofun⟩
    exact absurd h (not_isolates_direct hM hwithin hdecode hs hexceeds rest sizes)

/-- A successful reply with a value of two bytes. -/
def twoByteReply : Record :=
  Record.single [0, 0, 0, 5, 0, 0, 0, 1, 0, 0, 0, 0, 0, 0, 0, 0, 0, 0, 0, 0, 0, 0, 0, 0,
    0, 0, 0, 2, 7, 8, 0, 0] (by unfold FragmentFits; decide)

theorem twoByteReply_decode : RpcMessage.decode twoByteReply.data =
    .ok ⟨5, .reply (.accepted ⟨.none, .success [0, 0, 0, 2, 7, 8, 0, 0]⟩)⟩ := by
  decide

theorem twoByteReply_within : twoByteReply.Within Config.plain.limits := by
  unfold Record.Within
  decide

/-- Two buffers of three bytes are drained past. -/
theorem caller_capacity_buffers :
    (buffers [[9], [9, 9]]).Isolates LengthMetadata Config.plain twoByteReply [128] [3] := by
  have hexceeds : ([[9], [9, 9]] : List Bytes).flatten.length < 8 := by decide
  exact (caller_capacity LengthMetadata.exact Config.plain (buffers [[9], [9, 9]])
    twoByteReply twoByteReply_within _ twoByteReply_decode rfl hexceeds [128] [3]).mpr rfl

/-- A direct receiver with a destination of one byte refuses a value of two bytes, and
`receive_record` returns the error. -/
theorem direct_capacity_retires :
    twoByteReply.Within Config.plain.limits ∧
    (direct [9]).Exceeds LengthMetadata [0, 0, 0, 2, 7, 8, 0, 0] ∧
    ¬ (direct [9]).Isolates LengthMetadata Config.plain twoByteReply [] [] := by
  have hexceeds : (direct [9]).Exceeds LengthMetadata [0, 0, 0, 2, 7, 8, 0, 0] :=
    ⟨[0, 0, 0, 2], [7, 8, 0, 0], ⟨2⟩, rfl, by rfl, by decide⟩
  exact ⟨twoByteReply_within, hexceeds, not_isolates_direct LengthMetadata.exact twoByteReply_within
    twoByteReply_decode rfl hexceeds [] []⟩

end LibraryReceiver

end OncRpc
