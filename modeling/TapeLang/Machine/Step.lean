import TapeLang.Machine.Basic

/-!
# Steps

A running program is a `Config`: what is left of the innermost block, the loops that have been
entered around it, and the machine. `Config.advance` performs one counted step: an instruction, or
the test at the end of a loop body that decides whether the body runs again. Nothing else happens
between two steps, so the number of steps is the length of the run, and a limit or a bound can
only strike at a step.
-/

namespace TapeLang

/-- A loop that has been entered. -/
structure Frame where
  /-- The body of the loop. -/
  body : Program
  /-- What follows the loop in its own block. -/
  rest : Program
  deriving DecidableEq, Repr

/-- A running program. -/
structure Config where
  /-- What is left of the innermost block. -/
  block : Program
  /-- The loops entered around it, innermost first. -/
  frames : List Frame := []
  /-- The machine it runs on. -/
  machine : Machine
  deriving DecidableEq, Repr

/-- The instruction that a step has completed. -/
inductive Mark
  /-- A command. -/
  | command (c : Command)
  /-- A whole loop. -/
  | loop
  deriving DecidableEq, Repr

/-- The character of a mark: a loop shows its closing bracket. -/
def Mark.char : Mark → Char
  | command c => c.char
  | loop => ']'

/-- The outcome of one step. -/
inductive Step
  /-- No step was left to do on this machine. -/
  | finished (m : Machine)
  /-- The step succeeded, and may have completed an instruction. -/
  | next (mark : Option Mark) (c : Config)
  /-- The step failed and left this machine behind. -/
  | failed (e : RunError) (m : Machine)
  deriving DecidableEq, Repr

/-- Whether one more loop around these frames would be too many. Counting loops idealises the bound
of the runtime, which counts pending calls (`Limits`). -/
def isFull (bound : Option Nat) (frames : List Frame) : Bool :=
  match bound with
  | none => false
  | some b => b ≤ frames.length

/-- Whether the next step reads a line that is not there yet. -/
def Config.awaitsLine (c : Config) : Bool :=
  match c.block with
  | .command .input _ _ => c.machine.input.isEmpty
  | _ => false

/-- One counted step, with a bound on the number of loops entered at the same time. -/
def Config.advance (bound : Option Nat) : Config → Step
  | ⟨.nil, [], m⟩ => .finished m
  | ⟨.nil, f :: outer, m⟩ =>
    -- The end of a loop body: the guard is tested again, at the cell where the pointer now is.
    match m.tick with
    | .failed e m => .failed e m
    | .done m =>
      match m.tape.current? with
      | none => .failed (m.tape.cause .unreadable) m
      | some v =>
        if v = 0 then .next (some .loop) ⟨f.rest, outer, m⟩
        else .next none ⟨f.body, f :: outer, m⟩
  | ⟨.command c _ rest, frames, m⟩ =>
    match m.tick with
    | .failed e m => .failed e m
    | .done m =>
      match m.perform c with
      | .failed e m => .failed e m
      | .done m => .next (some (.command c)) ⟨rest, frames, m⟩
  | ⟨.loop body _ rest, frames, m⟩ =>
    -- A skipped loop is complete at once, and needs no room among the frames.
    match m.tick with
    | .failed e m => .failed e m
    | .done m =>
      match m.tape.current? with
      | none => .failed (m.tape.cause .unreadable) m
      | some v =>
        if v = 0 then .next (some .loop) ⟨rest, frames, m⟩
        else if isFull bound frames then .failed .tooDeep m
        else .next none ⟨body, ⟨body, rest⟩ :: frames, m⟩
  | ⟨.foreign name _, _, m⟩ =>
    match m.tick with
    | .failed e m => .failed e m
    | .done m => .failed (.foreign name) m

end TapeLang
