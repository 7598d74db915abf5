import OncRpc.Owned.Receive

/-!
# The terminal decision of a call

Each call carries a `CallControl` that the caller, the reader and a failing connection share.  It
records one decision: an error (`stop`) or that a result was taken (`finish`).  The first decision
stays (`CallControl.stop_terminal`, `CallControl.finish_terminal`), and `finish` hands every later
party the recorded error in place of its own result.
-/

namespace OncRpc

open Foundation

/-- The single terminal decision of a call. -/
structure CallControl where
  terminal : Option (Except RuntimeError Unit)

namespace CallControl

/-- No decision yet. -/
def fresh : CallControl := ⟨none⟩

/-- Record an error, unless a decision is recorded. -/
def stop (control : CallControl) (error : RuntimeError) : CallControl :=
  if control.terminal.isSome then control else ⟨some (.error error)⟩

/-- The recorded error. -/
def error (control : CallControl) : Option RuntimeError :=
  match control.terminal with
  | some (.error error) => some error
  | _ => none

/-- Record success and keep the result, unless an error is recorded. -/
def finish {α : Type} (control : CallControl) (result : Except RuntimeError α) :
    CallControl × Except RuntimeError α :=
  match control.terminal with
  | some (.error error) => (control, .error error)
  | _ => (⟨some (.ok ())⟩, result)

variable {control : CallControl} {α : Type}

theorem error_eq_some {error : RuntimeError} :
    control.error = some error ↔ control.terminal = some (.error error) := by
  rcases control with ⟨_ | _ | _⟩ <;> simp [CallControl.error]

/-- Stopping an undecided call records the error. -/
theorem stop_of_none (h : control.terminal = none) (error : RuntimeError) :
    (control.stop error).terminal = some (.error error) := by
  simp [stop, h]

/-- Stopping a decided call changes nothing. -/
theorem stop_of_some {decision : Except RuntimeError Unit} (h : control.terminal = some decision)
    (error : RuntimeError) : control.stop error = control := by
  simp [stop, h]

/-- A stopped call is decided. -/
theorem stop_isSome (control : CallControl) (error : RuntimeError) :
    (control.stop error).terminal.isSome = true := by
  cases h : control.terminal <;> simp [stop, h]

/-- A recorded decision survives a stop. -/
theorem stop_terminal {decision : Except RuntimeError Unit} (h : control.terminal = some decision)
    (error : RuntimeError) : (control.stop error).terminal = some decision := by
  rw [stop_of_some h, h]

/-- Finishing a stopped call gives the recorded error. -/
theorem finish_of_error {error : RuntimeError} (h : control.terminal = some (.error error))
    (result : Except RuntimeError α) : control.finish result = (control, .error error) := by
  simp [finish, h]

/-- Finishing any other call keeps the result. -/
theorem finish_of_not_error (h : control.error = none) (result : Except RuntimeError α) :
    control.finish result = (⟨some (.ok ())⟩, result) := by
  rcases control with ⟨_ | _ | _⟩ <;> simp_all [finish, CallControl.error]

/-- A recorded decision survives a finish. -/
theorem finish_terminal {decision : Except RuntimeError Unit}
    (h : control.terminal = some decision) (result : Except RuntimeError α) :
    (control.finish result).1.terminal = some decision := by
  rcases decision with error | ⟨⟨⟩⟩ <;> simp [finish, h]

end CallControl

/-! ## What a call is told -/

/-- The value sent to the waiter of a call.  A segmented call gets its receive target back. -/
inductive Reply (R : Type) where
  | buffered (result : Except RuntimeError RpcMessage)
  | segmented (result : Except RuntimeError RpcMessage) (target : Target R)

variable {R : Type}

/-- The result part of a reply. -/
def Reply.result : Reply R → Except RuntimeError RpcMessage
  | .buffered result | .segmented result _ => result

/-- The value a sender sends for what was received. -/
def ResponseSender.reply (sender : ResponseSender R)
    (received : Except RuntimeError (RpcMessage × ℕ)) : Reply R :=
  match sender with
  | .buffered => .buffered (received.map Prod.fst)
  | .segmented target => .segmented (segmentedResult received) target

/-- The sender gives no receiver back. -/
def ResponseSender.isBuffered : ResponseSender R → Bool
  | .buffered => true
  | .segmented _ => false

/-- The reply gives no receiver back. -/
def Reply.isBuffered : Reply R → Bool
  | .buffered _ => true
  | .segmented .. => false

@[simp] theorem ResponseSender.reply_isBuffered (sender : ResponseSender R)
    (received : Except RuntimeError (RpcMessage × ℕ)) :
    (sender.reply received).isBuffered = sender.isBuffered := by
  cases sender <;> rfl

/-- An error is passed on as it is. -/
@[simp] theorem ResponseSender.reply_error (sender : ResponseSender R) (error : RuntimeError) :
    (sender.reply (.error error)).result = .error error := by
  cases sender <;> rfl

/-! ## The kind of a sender -/

section Kind

variable [ReplyReceiver R]

theorem Stage.nextRange_isBuffered (target : Target R) (reply : RpcMessage) (length : ℕ) :
    (Stage.nextRange target reply length).sender.isBuffered = false := by
  unfold Stage.nextRange
  split <;> rfl

theorem Stage.ofProgram_isBuffered (target : Target R) (program : Envelope RpcMessage) :
    (Stage.ofProgram target program).sender.isBuffered = false := by
  unfold Stage.ofProgram
  split
  · split_ifs
    · exact nextRange_isBuffered _ _ _
    · rfl
  · rfl
  · rfl
  · rfl

/-- Received bytes do not change the kind of the sender. -/
theorem Stage.feed_isBuffered (stage : Stage R) (chunk : Bytes) :
    (stage.feed chunk).sender.isBuffered = stage.sender.isBuffered := by
  cases stage with
  | header target count next got =>
    simp only [Stage.feed]
    split_ifs
    · exact ofProgram_isBuffered _ _
    · rfl
  | payload target reply length room =>
    simp only [Stage.feed]
    split
    · rfl
    · exact nextRange_isBuffered _ _ _
  | assemble | probe | extra | ended | panicked => rfl

/-- An answer of the stream does not change the kind of the sender. -/
theorem Receive.resume_isBuffered (receive : Receive R)
    (result : ReadResult IoError) :
    (receive.resume result).stage.sender.isBuffered = receive.stage.sender.isBuffered := by
  unfold Receive.resume
  split
  · rfl
  · rfl
  · exact Stage.feed_isBuffered _ _

/-- A receive starts with the sender it was given. -/
theorem Receive.start_isBuffered (cursor : RecordReader) (xid : Bytes)
    (sender : ResponseSender R) :
    (Receive.start cursor xid sender).stage.sender.isBuffered = sender.isBuffered := by
  cases sender with
  | buffered => rfl
  | segmented target => exact Stage.ofProgram_isBuffered _ _

end Kind

end OncRpc
