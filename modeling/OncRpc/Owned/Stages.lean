import OncRpc.Owned.Control

/-!
# What the stages of a receive mean

A receive is fed its record in pieces.  `Stage.after` is the stage it has then reached, and
`StageReads` says what that stage amounts to, for any kind of call and any receiver: which bytes
were put together, or which envelope the record has, whatever follows.  What is known of the target
that was given the payload is a parameter `Holds`; `Tracks` says which descriptions are kept by
every piece (`StageReads.feed`).

A receiver may refuse a callback; `feedFails` says when.  Descriptions that do not care are
`lenient`.
-/

namespace OncRpc

open Foundation Foundation.ReadProgram

variable {R : Type} [ReplyReceiver R]

namespace Stage

/-- The stage before the rest of the record arrives. -/
def start (xid : Bytes) : ResponseSender R → Stage R
  | .buffered => .assemble xid
  | .segmented target => ofProgram target (replyHeader xid)

/-- The stage once the rest of the record has arrived in pieces. -/
def after (sender : ResponseSender R) (xid : Bytes) (chunks : List Bytes) : Stage R :=
  chunks.foldl feed (start xid sender)

/-- One more piece is fed to the stage reached. -/
theorem after_concat (sender : ResponseSender R) (xid : Bytes) (chunks : List Bytes)
    (chunk : Bytes) :
    after sender xid (chunks ++ [chunk]) = (after sender xid chunks).feed chunk := by
  simp [after]

/-! ## Callbacks that fail -/

/-- The receiver refuses to supply a range. -/
def rangeFails (target : Target R) : Bool :=
  match target.buffer.2 with
  | .error _ => true
  | .ok _ => false

/-- A callback of the receiver fails when the stage is fed a piece. -/
def feedFails : Stage R → Bytes → Bool
  | .header target count next got, chunk =>
    match next (got ++ chunk) with
    | .pure reply => count ≤ (got ++ chunk).length && reply.isSuccess && rangeFails target
    | _ => false
  | .payload target _ _ _, chunk =>
    match ReplyReceiver.advance (target.fill chunk).receiver chunk.length with
    | (_, .error _) => true
    | (receiver, .ok ()) => rangeFails ⟨receiver, target.payloadLen + chunk.length⟩
  | _, _ => false

end Stage

/-- A receive starts at the stage of its sender. -/
theorem Receive.start_eq (cursor : RecordReader) (xid : Bytes) (sender : ResponseSender R) :
    Receive.start cursor xid sender = ⟨cursor, Stage.start xid sender⟩ := by
  cases sender <;> rfl

/-! ## What is known of the target -/

/-- The target has supplied a range of `room` bytes behind `placed`. -/
def Supplies (Holds : Bytes → Target R → Prop) (placed : Bytes) (target : Target R)
    (room : ℕ) : Prop :=
  ∃ before, Holds placed before ∧ before.buffer = (target, .ok room)

/-- The target takes no more of the reply: that of a success is full, that of any other reply is
not used. -/
def NoRoom (Holds : Bytes → Target R → Prop) (reply : RpcMessage) (placed : Bytes)
    (target : Target R) : Prop :=
  if reply.isSuccess then Supplies Holds placed target 0 else placed = [] ∧ Holds [] target

/-- A target that takes no more has taken the payload of a success, or none. -/
theorem NoRoom.success_or_nil {Holds : Bytes → Target R → Prop} {reply : RpcMessage}
    {placed : Bytes} {target : Target R} (h : NoRoom Holds reply placed target) :
    reply.isSuccess = true ∨ placed = [] := by
  unfold NoRoom at h
  split_ifs at h with hs
  · exact .inl hs
  · exact .inr h.1

/-- The target has counted its payload, or the description is lenient. -/
def Counted (lenient : Prop) (placed : Bytes) (target : Target R) : Prop :=
  lenient ∨ target.payloadLen = placed.length

/-- A description of targets that counts the payload and is kept by every piece that fits the range
supplied. -/
structure Tracks (lenient : Prop) (Holds : Bytes → Target R → Prop) : Prop where
  counted : ∀ {placed target}, Holds placed target → Counted lenient placed target
  advance : ∀ {placed chunk target target' room}, Supplies Holds placed target room → chunk ≠ [] →
    chunk.length ≤ room → (target.fill chunk).advance chunk.length = (target', .ok ()) →
    Holds (placed ++ chunk) target'

/-- Asking for a range counts nothing. -/
theorem Supplies.counted {lenient : Prop} {Holds : Bytes → Target R → Prop} {placed : Bytes}
    {target : Target R} {room : ℕ} (h : Supplies Holds placed target room)
    (hcounted : ∀ {target}, Holds placed target → Counted lenient placed target) :
    Counted lenient placed target := by
  obtain ⟨before, hbefore, hbuffer⟩ := h
  have hlen : target.payloadLen = before.payloadLen :=
    congrArg (fun t => t.1.payloadLen) hbuffer.symm
  exact (hcounted hbefore).imp_right hlen.trans

/-- Counting the payload is kept by every piece. -/
theorem tracks_counted (lenient : Prop) : Tracks lenient (Counted (R := R) lenient) where
  counted h := h
  advance := by
    intro placed chunk target target' room hroom _ _ hadvance
    refine (hroom.counted id).imp_right fun hlen => ?_
    unfold Target.advance at hadvance
    split at hadvance
    · cases hadvance
    · next total hadd =>
      have htotal : total = target.payloadLen + chunk.length := (checkedAdd_eq_some.mp hadd).1
      rw [List.length_append, ← hlen, ← htotal]
      exact congrArg (fun t => t.1.payloadLen) hadvance.symm

/-! ## Meaning -/

/-- Whatever follows, the record has the envelope `reply`, followed by `tail`. -/
def HeaderIs (xid after : Bytes) (reply : RpcMessage) (tail : Bytes) : Prop :=
  ∀ future, (replyHeader xid).run recordEof (after ++ future) = some (.ok (reply, tail ++ future))

/-- What a stage means for a record that has given `xid` and `after` so far. -/
def StageReads (lenient : Prop) (Holds : Bytes → Target R → Prop) (xid after : Bytes) :
    Stage R → Prop
  | .assemble bytes => bytes = xid ++ after
  | .header target count next got =>
    Holds [] target ∧ got.length < count ∧
      (∀ chunk, chunk.length = count → (next chunk).Ensures fun _ _ => True) ∧
      ∀ future, (replyHeader xid).run recordEof (after ++ future) =
        (ReadProgram.read count next).run recordEof (got ++ future)
  | .payload target reply length room =>
    ∃ placed, Supplies Holds placed target room ∧ reply.isSuccess = true ∧
      length = placed.length ∧ 0 < room ∧ HeaderIs xid after reply placed
  | .probe target reply success length =>
    ∃ placed, success = reply.isSuccess ∧ length = placed.length ∧
      NoRoom Holds reply placed target ∧ HeaderIs xid after reply placed
  | .extra target reply success count =>
    ∃ placed extra, success = reply.isSuccess ∧ count = extra.length ∧ extra ≠ [] ∧
      NoRoom Holds reply placed target ∧ HeaderIs xid after reply (placed ++ extra)
  | .ended _ result =>
    ∃ error, result = .error error ∧
      (lenient ∨ ∀ future, (replyHeader xid).run recordEof (after ++ future) = some (.error error))
  | .panicked _ => False

namespace StageReads

variable {lenient : Prop} {Holds : Bytes → Target R → Prop} {xid after placed chunk : Bytes}
  {target : Target R} {reply : RpcMessage}

/-- The next range of the destination, or the probe when it is full. -/
theorem nextRange (hholds : Holds placed target) (hs : reply.isSuccess = true)
    (hheader : HeaderIs xid after reply placed)
    (hrange : lenient ∨ Stage.rangeFails target = false) {length : ℕ}
    (hlength : length = placed.length) :
    StageReads lenient Holds xid after (Stage.nextRange target reply length) := by
  unfold Stage.nextRange
  rcases hbuffer : target.buffer with ⟨target', error | room⟩
  · refine ⟨error, rfl, .inl (hrange.resolve_right ?_)⟩
    simp [Stage.rangeFails, hbuffer]
  · have hsupplies : Supplies Holds placed target' room := ⟨target, hholds, hbuffer⟩
    cases room with
    | zero => exact ⟨placed, hs.symm, hlength, by rwa [NoRoom, if_pos hs], hheader⟩
    | succ room => exact ⟨placed, hsupplies, hs, hlength, Nat.succ_pos room, hheader⟩

/-- The stage of an envelope program that is about to go on. -/
theorem ofProgram {program : Envelope RpcMessage} (hholds : Holds [] target)
    (hensures : program.Ensures fun _ _ => True)
    (hrun : ∀ future, (replyHeader xid).run recordEof (after ++ future) =
      program.run recordEof future)
    (hrange : ∀ reply, program = .pure reply → reply.isSuccess = true →
      lenient ∨ Stage.rangeFails target = false) :
    StageReads lenient Holds xid after (Stage.ofProgram target program) := by
  cases program with
  | pure reply =>
    have hheader : HeaderIs xid after reply [] := by
      intro future
      rw [hrun future]
      rfl
    simp only [Stage.ofProgram]
    split_ifs with hs
    · exact nextRange hholds hs hheader (hrange reply rfl hs) rfl
    · exact ⟨[], by simpa using hs, rfl, by rw [NoRoom, if_neg hs]; exact ⟨rfl, hholds⟩, hheader⟩
  | fail error =>
    refine ⟨error, rfl, .inr fun future => ?_⟩
    rw [hrun future]
    rfl
  | panic => exact hensures.elim
  | read count next =>
    refine ⟨hholds, hensures.1, hensures.2, fun future => ?_⟩
    rw [hrun future]
    rfl

/-- The stage before the rest of the record arrives. -/
theorem start (h4 : xid.length = 4) {sender : ResponseSender R}
    (hholds : ∀ target, sender = .segmented target → Holds [] target) :
    StageReads lenient Holds xid [] (Stage.start xid sender) := by
  cases sender with
  | buffered => exact (List.append_nil xid).symm
  | segmented target =>
    refine ofProgram (hholds target rfl) ?_ (fun _ => rfl) ?_
    · exact (replyHeader_ensures h4).mono fun _ _ _ => trivial
    · intro reply hpure
      exact absurd hpure (by simp [replyHeader, ReadProgram.word, ReadProgram.fill, h4,
        envelopeCapacity, ReadProgram.bind_eq, ReadProgram.bind])

/-- Payload bytes are written to the destination. -/
theorem feed_payload (htracks : Tracks lenient Holds) (h4 : xid.length = 4) {length room : ℕ}
    (hsupplies : Supplies Holds placed target room) (hs : reply.isSuccess = true)
    (hlength : length = placed.length)
    (hheader : HeaderIs xid (after ++ chunk) reply (placed ++ chunk)) (hne : chunk ≠ [])
    (hfit : chunk.length ≤ room) (hbound : (xid ++ (after ++ chunk)).length ≤ usizeMax)
    (hcallback : lenient ∨ (Stage.payload target reply length room).feedFails chunk = false) :
    StageReads lenient Holds xid (after ++ chunk)
      ((Stage.payload target reply length room).feed chunk) := by
  -- The payload placed is part of the record, so its length is a machine size.
  have hsize : placed.length + chunk.length ≤ usizeMax := by
    have hwire := congrArg List.length (replyHeader_sound h4 (hheader [])).2.2.2.2
    simp only [List.length_append, List.length_nil, Nat.add_zero] at hwire hbound
    omega
  have hfill : (target.fill chunk).payloadLen = target.payloadLen := rfl
  have hkept := fun target' => @htracks.advance placed chunk target target' room hsupplies hne hfit
  simp only [Stage.feed, Target.advance, hfill] at hkept ⊢
  cases hadd : checkedAdd target.payloadLen chunk.length with
  | none =>
    refine ⟨_, rfl, .inl ((hsupplies.counted htracks.counted).resolve_right fun heq => ?_)⟩
    rw [heq, show checkedAdd placed.length chunk.length = some (placed.length + chunk.length) from
      if_pos hsize] at hadd
    cases hadd
  | some total =>
    have htotal : total = target.payloadLen + chunk.length := (checkedAdd_eq_some.mp hadd).1
    rcases hadvance : ReplyReceiver.advance (target.fill chunk).receiver chunk.length with
      ⟨receiver, error | ⟨⟨⟩⟩⟩
    · refine ⟨error, rfl, .inl (hcallback.resolve_right ?_)⟩
      simp [Stage.feedFails, hadvance]
    · simp only [hadd, hadvance] at hkept
      refine nextRange (hkept _ rfl) hs hheader ?_ (by rw [hlength, List.length_append])
      refine hcallback.imp_right fun hfine => ?_
      simp only [Stage.feedFails, hadvance] at hfine
      rwa [htotal]

/-- A further piece of the record keeps the meaning of the stage. -/
theorem feed (htracks : Tracks lenient Holds) {stage : Stage R}
    (h : StageReads lenient Holds xid after stage) (h4 : xid.length = 4) (hne : chunk ≠ [])
    (hbound : (xid ++ (after ++ chunk)).length ≤ usizeMax)
    (hfit : ∀ wants atEnd, stage.pending = some (wants, atEnd) → chunk.length ≤ wants)
    (hcallback : lenient ∨ stage.feedFails chunk = false) :
    StageReads lenient Holds xid (after ++ chunk) (stage.feed chunk) := by
  have hpos : 0 < chunk.length := List.length_pos_iff.mpr hne
  cases stage with
  | assemble bytes =>
    simp only [StageReads] at h
    simp only [Stage.feed, StageReads, h, List.append_assoc]
  | header target count next got =>
    obtain ⟨hholds, hlt, hensures, hrun⟩ := h
    have hle := hfit _ _ rfl
    simp only [Stage.feed]
    split_ifs with hfull
    · have hcount : (got ++ chunk).length = count := by
        rw [List.length_append] at hfull ⊢
        omega
      refine ofProgram hholds (hensures _ hcount) (fun future => ?_) fun reply hpure hs => ?_
      · rw [List.append_assoc, hrun, ← List.append_assoc, run_read_append _ hcount]
      · refine hcallback.imp_right fun hfine => ?_
        simpa only [Stage.feedFails, hpure, hfull, decide_true, hs, Bool.true_and] using hfine
    · refine ⟨hholds, by omega, hensures, fun future => ?_⟩
      rw [List.append_assoc, hrun, List.append_assoc]
  | payload target reply length room =>
    obtain ⟨placed, hsupplies, hs, hlength, -, hheader⟩ := h
    refine feed_payload htracks h4 hsupplies hs hlength (fun future => ?_) hne (hfit _ _ rfl)
      hbound hcallback
    rw [List.append_assoc, hheader, List.append_assoc]
  | probe target reply success length =>
    obtain ⟨placed, hs, hlength, hroom, hheader⟩ := h
    have hle : chunk.length ≤ 1 := hfit _ _ rfl
    refine ⟨placed, chunk, hs, by omega, hne, hroom, fun future => ?_⟩
    rw [List.append_assoc, hheader, List.append_assoc]
  | extra target reply success count =>
    obtain ⟨placed, extra, hs, hcount, hextra, hroom, hheader⟩ := h
    refine ⟨placed, extra ++ chunk, hs, by rw [hcount, List.length_append], by simp [hextra],
      hroom, fun future => ?_⟩
    rw [List.append_assoc, hheader]
    simp only [List.append_assoc]
  | ended sender result =>
    obtain ⟨error, hresult, hcause⟩ := h
    refine ⟨error, hresult, hcause.imp_right fun hrun future => ?_⟩
    rw [List.append_assoc, hrun]
  | panicked target => exact h.elim

/-- A pending read offers storage. -/
theorem wants_ne_zero {stage : Stage R} {wants : ℕ}
    {atEnd : Except RuntimeError (RpcMessage × ℕ)} (h : StageReads lenient Holds xid after stage)
    (hpending : stage.pending = some (wants, atEnd)) : wants ≠ 0 := by
  cases stage with
  | header target count next got =>
    cases hpending
    have hlt := h.2.1
    omega
  | payload target reply length room =>
    cases hpending
    obtain ⟨placed, -, -, -, hpos, -⟩ := h
    omega
  | assemble | probe | extra =>
    cases hpending
    decide
  | ended | panicked => cases hpending

end StageReads

end OncRpc
