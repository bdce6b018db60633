import TapeLang.Machine.Run
import TapeLang.Program.Reader
import TapeLang.RunConfig.Basic

/-!
# Evaluating texts

A text is read as a program and run under a configuration on a blank tape, with a text as its
input. The answer is everything that the program has written, and the line feed that ends a
complete run.
-/

namespace TapeLang

/-- Why an evaluation gives no text. -/
inductive EvalError
  /-- The text is no program. -/
  | parse (e : ParseError)
  /-- The tape that the configuration asks for cannot be made. -/
  | tape (e : BadTapeSize)
  /-- The run has failed. -/
  | run (e : RunError)
  /-- The run needs more steps than it was given. -/
  | unfinished
  deriving DecidableEq, Repr

/-- What a caller sees of an evaluation that gives no text, if that is an error of the language. -/
def EvalError.failure? : EvalError → Option Failure
  | parse e => some e.failure
  | run e => e.failure?
  | tape _ | unfinished => none

/-- The machine on which a program is run under a configuration. -/
def RunConfig.machine (hasRoom : Nat → Bool) (config : RunConfig)
    (input : List (List Text.CodePoint)) : Except BadTapeSize Machine :=
  match Tape.blank? hasRoom config.tapeSize with
  | .ok tape => .ok { tape, input, limit := config.stepLimit }
  | .error e => .error e

/-- Read and run a text for at most `fuel` steps. -/
def evaluate (bounds : Limits) (fuel : Nat) (text : List Char) (config : RunConfig)
    (input : List Text.CodePoint) : Except EvalError (List Char) :=
  match Program.ofTextWithin bounds.reading text with
  | .error e => .error (.parse e)
  | .ok p =>
    match config.machine bounds.hasRoom (Text.lines input) with
    | .error e => .error (.tape e)
    | .ok m =>
      match p.runClosed (some bounds.running) fuel m with
      | .finished m => .ok m.output
      | .failed e _ => .error (.run e)
      | .unfinished _ => .error .unfinished

end TapeLang
