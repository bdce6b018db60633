import TapeLang.Tape
import TapeLang.Text.Lines

/-!
# Machines and their effects

A machine is everything that a running program can see or change: the tape, the lines of input
that nobody has read yet, the step counter with its limit, and the record of what has happened on
the streams. The effects of the commands are functions from machines to an `Effect`: a failing
effect also leaves a machine behind, because a step that fails has been counted, and a read that
cannot be stored has taken its line.

The error of an effect is a cause (`RunError`). What a caller sees of it is not for the machine to
decide, which stands the same whatever becomes of the message.
-/

namespace TapeLang

/-- What happens on the streams of a machine. -/
inductive Event
  /-- A character is written. -/
  | write (c : Char)
  /-- The output is flushed. -/
  | flush
  /-- A line is read; past the end of the input it is empty. -/
  | readLine (line : List Text.CodePoint)
  deriving DecidableEq, Repr

/-- The characters that an event writes. -/
def Event.written : Event → List Char
  | write c => [c]
  | flush | readLine _ => []

/-- A tape with its streams and its step counter. -/
structure Machine where
  /-- The tape. -/
  tape : Tape
  /-- The lines that have not been read yet, each with its line break. -/
  input : List (List Text.CodePoint) := []
  /-- The number of steps counted so far. -/
  steps : Nat := 0
  /-- The greatest number of steps allowed; any integer can be set. -/
  limit : Option Int := none
  /-- What has happened on the streams, oldest first. -/
  events : Array Event := #[]
  deriving DecidableEq, Repr

/-- What becomes of a machine. -/
inductive Effect
  /-- The machine after a success. -/
  | done (m : Machine)
  /-- The error, and the machine that it leaves behind. -/
  | failed (e : RunError) (m : Machine)
  deriving DecidableEq, Repr

/-- Whether a value is the number of a character: the surrogates are none. -/
def isCodePoint (value : Int) : Bool :=
  0 ≤ value && value ≤ 0x10FFFF && !(0xD800 ≤ value && value ≤ 0xDFFF)

/-- The first code point of a line behind which all line breaks are dropped; zero if nothing is
left. -/
def lineValue (line : List Text.CodePoint) : Int :=
  match Text.chomp line with
  | [] => 0
  | c :: _ => c.val

namespace Machine

/-- All characters written so far. -/
def output (m : Machine) : List Char :=
  m.events.toList.flatMap Event.written

/-- Record an event. -/
def record (m : Machine) (e : Event) : Machine :=
  { m with events := m.events.push e }

@[simp]
theorem output_record (m : Machine) (e : Event) :
    (m.record e).output = m.output ++ e.written := by
  simp [output, record]

/-- Count one step, and fail if the counter has then passed the limit. -/
def tick (m : Machine) : Effect :=
  match m.limit with
  | none => .done { m with steps := m.steps + 1 }
  | some l =>
    if l < (m.steps : Int) + 1 then .failed (.stepLimit l) { m with steps := m.steps + 1 }
    else .done { m with steps := m.steps + 1 }

/-- Apply a function to the current cell. -/
def update (m : Machine) (f : Int → Int) : Effect :=
  match m.tape.slot? with
  | none => .failed (m.tape.cause .unreadable) m
  | some i => .done { m with tape := m.tape.modify i f }

/-- Put a value into the current cell. -/
def assign (m : Machine) (value : Int) : Effect :=
  match m.tape.slot? with
  | none => .failed (m.tape.cause .unwritable) m
  | some i => .done { m with tape := m.tape.set i value }

/-- Move the pointer. -/
def move (m : Machine) (delta : Int) : Effect :=
  match m.tape.move delta with
  | .ok tape => .done { m with tape }
  | .error e => .failed e m

/-- Write the current cell as a character. -/
def write (m : Machine) : Effect :=
  match m.tape.current? with
  | none => .failed (m.tape.cause .unreadable) m
  | some v =>
    if isCodePoint v then .done (m.record (.write (Char.ofNat v.toNat)))
    else .failed (.badCell v m.tape.pointer) m

/-- Flush the output, since the program may have prompted, and read the next line. The value read
comes with the machine. -/
def takeLine (m : Machine) : Int × Machine :=
  match m.input with
  | [] => (0, (m.record .flush).record (.readLine []))
  | line :: rest =>
    (lineValue line, { (m.record .flush).record (.readLine line) with input := rest })

/-- Read a line and store its first character. -/
def read (m : Machine) : Effect :=
  match m.takeLine with
  | (value, m) => m.assign value

/-- The effect of a command, without the step that it costs. -/
def perform (m : Machine) : Command → Effect
  | .increment => m.update (· + 1)
  | .decrement => m.update (· - 1)
  | .right => m.move 1
  | .left => m.move (-1)
  | .output => m.write
  | .input => m.read

/-- The end of a complete run: a line feed is written and the output flushed. -/
def close (m : Machine) : Machine :=
  (m.record (.write '\n')).record .flush

end Machine

end TapeLang
