import Mathlib.Data.List.Basic

/-!
# Futures

A future is ready with its value, or has to be polled again; what a poll finds may depend on the
state of the world at that moment.  `Future.output` is what a future comes to when it is polled in a
sequence of worlds, if they are enough.  `Future.map` is the future that awaits another one and goes
on with its value.
-/

namespace Foundation

/-- A future with a value of `α`, in a world `Ω`. -/
inductive Future (Ω α : Type) where
  | ready (value : α)
  | pending (poll : Ω → Future Ω α)

namespace Future

variable {Ω α β : Type}

/-- What the future comes to, when it is polled in these worlds one after the other. -/
def output : Future Ω α → List Ω → Option α
  | .ready value, _ => some value
  | .pending _, [] => none
  | .pending poll, world :: worlds => (poll world).output worlds

/-- Await a future and go on with its value. -/
def map (f : α → β) : Future Ω α → Future Ω β
  | .ready value => .ready (f value)
  | .pending poll => .pending fun world => (poll world).map f

@[simp] theorem output_ready (value : α) (worlds : List Ω) :
    (Future.ready value).output worlds = some value := by
  unfold output
  rfl

/-- Awaiting a future takes as long as the future does. -/
theorem output_map (f : α → β) (future : Future Ω α) (worlds : List Ω) :
    (future.map f).output worlds = (future.output worlds).map f := by
  induction future generalizing worlds with
  | ready value => simp [map]
  | pending poll ih =>
    cases worlds with
    | nil => rfl
    | cons world worlds => exact ih world worlds

end Future

end Foundation
