import TapeLang.Machine.Run

/-!
# Sessions

A session is a series of actions on one machine. Runs carry the step counter and the unread input
on; the other actions look at the tape, change it, or set the limit. An action that fails leaves
the machine as its effect says, and the session goes on from there.
-/

namespace TapeLang

/-- What can be done to a machine in a session. -/
inductive Action
  /-- Run a program where the last run stopped. -/
  | run (p : Program)
  /-- Move the pointer. -/
  | move (delta : Int)
  /-- Put a value into the current cell. -/
  | assign (value : Int)
  /-- Add to the current cell. -/
  | add (n : Int)
  /-- Multiply the current cell. -/
  | scale (n : Int)
  /-- Read the current cell. -/
  | look
  /-- Set the step limit. -/
  | setLimit (limit : Option Int)
  /-- Replace the tape. -/
  | replace (tape : Tape)
  deriving DecidableEq, Repr

/-- The outcome of an action. -/
structure Response where
  /-- The machine after the action. -/
  machine : Machine
  /-- The value that was asked for. -/
  value : Option Int := none
  /-- The error with which the action failed. -/
  error : Option RunError := none
  deriving DecidableEq, Repr

/-- The response that shows an effect. -/
def Response.ofEffect : Effect → Response
  | .done m => ⟨m, none, none⟩
  | .failed e m => ⟨m, none, some e⟩

/-- Perform an action; a run may take at most `fuel` steps. -/
def Action.perform (bound : Option Nat) (fuel : Nat) (m : Machine) : Action → Response
  | run p =>
    let ending := p.run bound fuel m
    ⟨ending.machine, none, ending.error?⟩
  | move delta => .ofEffect (m.move delta)
  | assign value => .ofEffect (m.assign value)
  | add n => .ofEffect (m.update (· + n))
  | scale n => .ofEffect (m.update (· * n))
  | look =>
    match m.tape.current? with
    | some v => ⟨m, some v, none⟩
    | none => ⟨m, none, some (m.tape.cause .unreadable)⟩
  | setLimit limit => ⟨{ m with limit }, none, none⟩
  | replace tape => ⟨{ m with tape }, none, none⟩

end TapeLang
