import TapeLang.Machine.Step

/-!
# Runs

A run iterates the step. Programs need not end, so a run is given the number of steps that it may
take; one that has not ended by then says so (`Ending.unfinished`), and that is not an error of
the program. `Config.runTraced` also records every instruction that completes.
-/

namespace TapeLang

/-- How a run of some number of steps stands. -/
inductive Ending
  /-- The program has ended. -/
  | finished (m : Machine)
  /-- The program has failed. -/
  | failed (e : RunError) (m : Machine)
  /-- More steps are needed. -/
  | unfinished (c : Config)
  deriving DecidableEq, Repr

/-- The machine at the end of a run. -/
def Ending.machine : Ending → Machine
  | finished m => m
  | failed _ m => m
  | unfinished c => c.machine

/-- The error with which a run has failed. -/
def Ending.error? : Ending → Option RunError
  | failed e _ => some e
  | finished _ | unfinished _ => none

/-- Do at most `fuel` steps. -/
def Config.run (bound : Option Nat) (fuel : Nat) (c : Config) : Ending :=
  match fuel with
  | 0 =>
    match c with
    | ⟨.nil, [], m⟩ => .finished m
    | c => .unfinished c
  | fuel + 1 =>
    match c.advance bound with
    | .finished m => .finished m
    | .failed e m => .failed e m
    | .next _ c => c.run bound fuel

/-- One line of a trace: an instruction that has completed, and what the machine then shows. -/
structure TraceEntry where
  /-- The instruction. -/
  mark : Mark
  /-- The pointer. -/
  pointer : Int
  /-- The value of the current cell. -/
  value : Int
  /-- The step counter. -/
  steps : Nat
  deriving DecidableEq, Repr

/-- The line that a completed instruction adds to a trace. -/
def TraceEntry.ofMachine (mark : Mark) (m : Machine) : TraceEntry :=
  ⟨mark, m.tape.pointer, m.tape.current?.getD 0, m.steps⟩

/-- Do at most `fuel` steps and add every completed instruction to the trace. -/
def Config.runTraced (bound : Option Nat) (fuel : Nat) (trace : Array TraceEntry) (c : Config) :
    Array TraceEntry × Ending :=
  match fuel with
  | 0 => (trace, c.run bound 0)
  | fuel + 1 =>
    match c.advance bound with
    | .finished m => (trace, .finished m)
    | .failed e m => (trace, .failed e m)
    | .next none c => c.runTraced bound fuel trace
    | .next (some mark) c =>
      c.runTraced bound fuel (trace.push (TraceEntry.ofMachine mark c.machine))

namespace Program

/-- Run a program on a machine for at most `fuel` steps. -/
def run (bound : Option Nat) (fuel : Nat) (p : Program) (m : Machine) : Ending :=
  Config.run bound fuel ⟨p, [], m⟩

/-- Run a program and trace it. -/
def runTraced (bound : Option Nat) (fuel : Nat) (p : Program) (m : Machine) :
    Array TraceEntry × Ending :=
  Config.runTraced bound fuel #[] ⟨p, [], m⟩

/-- Run a program, and end its output with a line feed if it succeeds. -/
def runClosed (bound : Option Nat) (fuel : Nat) (p : Program) (m : Machine) : Ending :=
  match p.run bound fuel m with
  | .finished m => .finished m.close
  | ending => ending

end Program

end TapeLang
