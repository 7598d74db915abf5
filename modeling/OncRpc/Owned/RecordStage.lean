import OncRpc.Owned.DirectReceive
import OncRpc.Owned.Sync

/-!
# Receiving a successful reply, for any receiver

`receive_record` reads the envelope of a reply from a scratch array before it asks the receiver for
a range.  So on a record that is a successful reply, what it does to the receiver is the receive of
the payload alone: `Receives` says this for each state, and `RecordTask.drive_record` for the whole
record, however it is framed and read.
-/

namespace OncRpc

open Foundation Foundation.ReadProgram

variable {R : Type} [ReplyReceiver R]

/-! ## The envelope and the payload -/

/-- How a receive that has taken `xid` and `after` has come to its stage: it is in the envelope, or
it has read the envelope of a successful reply and received the rest, or the record is no successful
reply, whatever follows. -/
inductive Receives (receiver : R) (xid : Bytes) : Bytes → Stage R → Prop
  | header {after : Bytes} (count : ℕ) (next : Bytes → Envelope RpcMessage) (got : Bytes)
    (hensures : ∀ chunk, chunk.length = count → (next chunk).Ensures fun _ _ => True)
    (hrun : ∀ future, (replyHeader xid).run recordEof (after ++ future) =
      (ReadProgram.read count next).run recordEof (got ++ future)) :
    Receives receiver xid after (.header ⟨receiver, 0⟩ count next got)
  | payload {after : Bytes} (reply : RpcMessage) (chunks : List Bytes) (hs : reply.isSuccess = true)
    (hchunked : (Stage.begin receiver reply).Chunked chunks)
    (hheader : HeaderIs xid after reply chunks.flatten) :
    Receives receiver xid after (chunks.foldl Stage.feed (Stage.begin receiver reply))
  | other {after : Bytes} {stage : Stage R}
    (hother : ∀ future reply tail, (replyHeader xid).run recordEof (after ++ future) =
      some (.ok (reply, tail)) → reply.isSuccess = false) :
    Receives receiver xid after stage

/-- The chunks of a receive and one more. -/
theorem Stage.Chunked.concat {stage : Stage R} {chunks : List Bytes} {chunk : Bytes}
    (h : stage.Chunked chunks) (hne : chunk ≠ [])
    (hfits : ∀ wants atEnd, (chunks.foldl Stage.feed stage).pending = some (wants, atEnd) →
      chunk.length ≤ wants) : stage.Chunked (chunks ++ [chunk]) := by
  induction chunks generalizing stage with
  | nil => exact ⟨hne, hfits, trivial⟩
  | cons first chunks ih => exact ⟨h.1, h.2.1, ih h.2.2 hfits⟩

namespace Receives

variable {receiver : R} {xid after chunk : Bytes} {stage : Stage R}

/-- The stage of an envelope program that is about to go on. -/
theorem ofProgram {program : Envelope RpcMessage} (hensures : program.Ensures fun _ _ => True)
    (hrun : ∀ future, (replyHeader xid).run recordEof (after ++ future) =
      program.run recordEof future) :
    Receives receiver xid after (Stage.ofProgram ⟨receiver, 0⟩ program) := by
  cases program with
  | pure reply =>
    have hheader : HeaderIs xid after reply [] := by
      intro future
      rw [hrun future]
      rfl
    simp only [Stage.ofProgram]
    split_ifs with hs
    · exact .payload reply [] hs trivial hheader
    · refine .other fun future reply' tail hok => ?_
      rw [hheader future] at hok
      cases hok
      exact Bool.eq_false_iff.mpr hs
  | fail error =>
    refine .other fun future reply tail hok => ?_
    rw [hrun future] at hok
    cases hok
  | panic => exact hensures.elim
  | read count next =>
    refine .header count next [] hensures.2 fun future => ?_
    rw [hrun future]
    rfl

/-- A receive starts in the envelope. -/
theorem start (h4 : xid.length = 4) (receiver : R) :
    Receives receiver xid [] (Stage.start xid (.segmented ⟨receiver, 0⟩)) :=
  ofProgram ((replyHeader_ensures h4).mono fun _ _ _ => trivial) fun _ => rfl

/-- A further piece of the record. -/
theorem feed (h : Receives receiver xid after stage) (hne : chunk ≠ [])
    (hfits : ∀ wants atEnd, stage.pending = some (wants, atEnd) → chunk.length ≤ wants) :
    Receives receiver xid (after ++ chunk) (stage.feed chunk) := by
  have hpos : 0 < chunk.length := List.length_pos_of_ne_nil hne
  cases h with
  | header count next got hensures hrun =>
    have hle : chunk.length ≤ count - got.length := hfits _ _ rfl
    simp only [Stage.feed]
    split_ifs with hfull
    · have hcount : (got ++ chunk).length = count := by
        rw [List.length_append] at hfull ⊢
        omega
      refine ofProgram (hensures _ hcount) fun future => ?_
      rw [List.append_assoc, hrun, ← List.append_assoc, run_read_append _ hcount]
    · refine .header count next (got ++ chunk) hensures fun future => ?_
      rw [List.append_assoc, hrun, List.append_assoc]
  | payload reply chunks hs hchunked hheader =>
    have hnext := @Receives.payload R _ receiver xid (after ++ chunk) reply (chunks ++ [chunk]) hs
      (hchunked.concat hne hfits) (fun future => by
        rw [List.append_assoc, hheader, List.flatten_append, List.flatten_singleton,
          List.append_assoc])
    rwa [List.foldl_append] at hnext
  | other hother =>
    refine .other fun future reply tail hok => ?_
    rw [List.append_assoc] at hok
    exact hother _ reply tail hok

end Receives

/-! ## The receive of a whole record -/

/-- A successful reply is a reply. -/
theorem RpcMessage.isReply_of_isSuccess {m : RpcMessage} (h : m.isSuccess = true) :
    m.isReply = true := by
  unfold RpcMessage.isSuccess at h
  split at h
  · next hbody => simp only [RpcMessage.isReply, hbody]
  · cases h

/-- The header of a successful reply is one. -/
theorem RpcMessage.header_isSuccess (m : RpcMessage) : m.header.isSuccess = m.isSuccess := by
  obtain ⟨xid, body⟩ := m
  rcases body with call | ⟨verifier, status⟩ | denied
  · rfl
  · cases status <;> rfl
  · rfl

namespace RecordTask

/-- What a receive has taken from the stream and how it has come to its stage. -/
abbrev Follows (limits : RecordLimits) (receiver : R) : RecordTask R → Bytes → Prop :=
  Fed limits (· = ⟨receiver, 0⟩) fun xid after stage =>
    StageReads True (Counted True) xid after stage ∧ Receives receiver xid after stage

/-- How a receive has come to its stage is kept by every piece. -/
theorem keptByFeed_receives (limits : RecordLimits) (receiver : R) :
    KeptByFeed limits (· = ⟨receiver, 0⟩) fun xid after stage =>
      StageReads True (Counted True) xid after stage ∧ Receives receiver xid after stage where
  start := by
    rintro xid target h4 rfl
    exact ⟨StageReads.start h4 fun _ _ => .inl trivial, .start h4 receiver⟩
  feed h h4 hne hle hfit :=
    ⟨h.1.feed (tracks_counted True) h4 hne (hle.trans limits.bytes_le) hfit (.inl trivial),
      h.2.feed hne hfit⟩
  wants_ne_zero h := h.1.wants_ne_zero

/-- A receive of a successful reply that is over: it has read the envelope and received the payload,
or a part of the payload if the receiver refused it. -/
theorem Follows.ends {limits : RecordLimits} {receiver : R} {s : RecordTask R} {record : Record}
    {rest taken left : Bytes} {m : RpcMessage}
    {result : Option (Except RuntimeError (RpcMessage × ℕ))} (hwithin : record.Within limits)
    (hdecode : RpcMessage.decode record.data = .ok m) (hs : m.isSuccess = true)
    (hinput : record.bytes ++ rest = taken ++ left) (h : Follows limits receiver s taken)
    (hready : s.poll = .ready result) :
    ∃ receive chunks, s = .receiving receive ∧ (Stage.begin receiver m.header).Chunked chunks ∧
      receive.stage = chunks.foldl Stage.feed (Stage.begin receiver m.header) ∧
      chunks.flatten <+: m.payload ∧
      (receive.stage.pending = none ∨ chunks.flatten = m.payload ∧ left = rest ∧
        ∃ wants atEnd, receive.stage.pending = some (wants, atEnd) ∧
          receive.poll = .ready (some atEnd)) := by
  have hreply : m.isReply = true := RpcMessage.isReply_of_isSuccess hs
  obtain ⟨after', hdata', hrun'⟩ := envelope_of_decode hdecode hreply
  cases s with
  | xid cursor got target =>
    obtain ⟨hcursor, h4, -⟩ := h
    rcases hcursor.poll_on_record (4 - got.length) hwithin hinput (by omega) with
      ⟨-, rfl⟩ | ⟨count, hawait⟩
    · rw [hdata', List.length_append, beBytes_length] at h4
      omega
    · simp only [poll, RecordReader.awaitRead, hawait] at hready
      cases hready
  | receiving receive =>
    rcases h with ⟨hover, -⟩ | ⟨xid, after, h4, hcursor, hreads, hreceives⟩
    · exact absurd hover (hwithin.not_limit hinput).1
    obtain ⟨unread, hdata⟩ := hcursor.payload_isPrefix hinput.symm
    have hsplit : xid ++ (after ++ unread) = beBytes m.xid ++ after' := by
      rw [← List.append_assoc, hdata, hdata']
    obtain ⟨rfl, rfl⟩ := List.append_inj hsplit (by rw [h4, beBytes_length])
    obtain ⟨cursor, stage⟩ := receive
    simp only at hreads hreceives hcursor
    -- A read that is over has seen the end of the record.
    have hend : ∀ wants atEnd, stage.pending = some (wants, atEnd) → unread = [] ∧ left = rest ∧
        Receive.poll ⟨cursor, stage⟩ = .ready (some atEnd) := by
      intro wants atEnd hpending
      rcases hpoll : cursor.poll wants with _ | e | count
      · obtain ⟨record', -, rfl, hdata''⟩ := hcursor.of_poll_done hpoll
        obtain ⟨rfl, rfl⟩ := Record.bytes_append_inj hinput
        rw [← hdata'', List.append_right_eq_self] at hdata
        refine ⟨hdata, rfl, ?_⟩
        simp only [Receive.poll, hpending, RecordReader.awaitRead, hpoll]
      · exact absurd (hcursor.of_poll_failed (hreads.wants_ne_zero hpending) hpoll).2
          (hwithin.not_limit hinput).2
      · simp only [poll, Receive.poll, hpending, RecordReader.awaitRead, hpoll] at hready
        cases hready
    cases hreceives with
    | header count next got hensures hrun =>
      obtain ⟨rfl, -⟩ := hend _ _ rfl
      have hlt := hreads.2.1
      rw [hrun, ReadProgram.run, if_neg (by simpa using hlt)] at hrun'
      cases hrun'
    | payload reply chunks hsucc hchunked hheader =>
      rw [hheader unread] at hrun'
      simp only [Option.some.injEq, Except.ok.injEq, Prod.mk.injEq] at hrun'
      obtain ⟨rfl, hpayload⟩ := hrun'
      refine ⟨_, chunks, rfl, hchunked, rfl, ⟨unread, hpayload⟩, ?_⟩
      rcases hpending : Stage.pending (chunks.foldl Stage.feed (Stage.begin receiver m.header)) with
        _ | ⟨wants, atEnd⟩
      · exact .inl rfl
      · obtain ⟨rfl, hleft, hpoll⟩ := hend _ _ hpending
        rw [List.append_nil] at hpayload
        exact .inr ⟨hpayload, hleft, wants, atEnd, rfl, hpoll⟩
    | other hother =>
      have hfalse := hother unread _ _ hrun'
      rw [m.header_isSuccess, hs] at hfalse
      cases hfalse

/-- The receive of a successful reply comes to an end. -/
theorem drive_record {limits : RecordLimits} (receiver : R) {record : Record} {m : RpcMessage}
    (hwithin : record.Within limits) (hdecode : RpcMessage.decode record.data = .ok m)
    (hs : m.isSuccess = true) (rest : Bytes) (sizes : List ℕ) :
    ∃ receive chunks left,
      task.drive (.xid (.start limits) [] ⟨receiver, 0⟩) ⟨record.bytes ++ rest, sizes⟩ =
        (.receiving receive, left) ∧
      (Stage.begin receiver m.header).Chunked chunks ∧
      receive.stage = chunks.foldl Stage.feed (Stage.begin receiver m.header) ∧
      chunks.flatten <+: m.payload ∧
      (receive.stage.pending = none ∨ chunks.flatten = m.payload ∧ left.bytes = rest ∧
        ∃ wants atEnd, receive.stage.pending = some (wants, atEnd) ∧
          receive.poll = .ready (some atEnd)) := by
  obtain ⟨result, taken, hready, hinput, hfollows⟩ :=
    Fed.drive (keptByFeed_receives limits receiver) rfl record rest sizes
  obtain ⟨receive, chunks, hstate, hchunked, hstage, hpart, hover⟩ :=
    Follows.ends hwithin hdecode hs hinput hfollows hready
  exact ⟨receive, chunks, _, Prod.ext hstate rfl, hchunked, hstage, hpart, hover⟩

end RecordTask

end OncRpc
