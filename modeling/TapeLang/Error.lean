import TapeLang.Program.Basic
import TapeLang.Value.Basic

/-!
# Errors

`ParseError` and `RunError` are the causes for which reading and running stop. `Failure` is the
form in which a caller sees the errors of the language itself: each cause but four has one, and
`Failure.message` is the only place that words them. The other four causes mean that the caller
has handed over something that is no valid machine or program: a tape whose pointer denotes no
cell or is too far away to be counted, and an instruction of an unknown kind.

An error of the language is worded when it is made. If its message would show an integer that cannot
be written, the wording fails, and a caller sees that failure in place of the error: `failure?` is
what is left for the caller to see, and `errorClass` tells the two apart.
-/

namespace TapeLang

/-- The two directions in which the pointer moves. -/
inductive Direction
  /-- Towards the first cell. -/
  | left
  /-- Towards the last cell. -/
  | right
  deriving DecidableEq, Repr

/-- The word for a direction. -/
def Direction.word : Direction → String
  | left => "left"
  | right => "right"

/-- The activities for which loops can be nested too deeply. -/
inductive Stage
  /-- Reading a program. -/
  | parse
  /-- Running a program. -/
  | execute
  deriving DecidableEq, Repr

/-- The word for a stage. -/
def Stage.word : Stage → String
  | parse => "parse"
  | execute => "execute"

/-- The kinds of errors. -/
inductive FailureKind
  /-- An error with no particulars. -/
  | general
  /-- Brackets do not balance. -/
  | unbalancedLoop
  /-- The pointer would leave the tape. -/
  | pointerOutOfBounds
  /-- Too many steps. -/
  | stepLimitExceeded
  /-- A cell is no character. -/
  | cellValue
  /-- Loops are nested too deeply. -/
  | nestingTooDeep
  deriving DecidableEq, Repr

namespace FailureKind

/-- The name of a kind. -/
def name : FailureKind → String
  | general => "BFError"
  | unbalancedLoop => "UnbalancedLoop"
  | pointerOutOfBounds => "PointerOutOfBounds"
  | stepLimitExceeded => "StepLimitExceeded"
  | cellValue => "CellValueError"
  | nestingTooDeep => "NestingTooDeep"

/-- The names of the particulars of a kind. -/
def particulars : FailureKind → List String
  | general => []
  | unbalancedLoop => ["line", "col"]
  | pointerOutOfBounds => ["pointer", "tape_size", "direction"]
  | stepLimitExceeded => ["limit"]
  | cellValue => ["value", "pointer"]
  | nestingTooDeep => ["stage"]

end FailureKind

/-- The errors of the language as a caller sees them, or raises them on its own account. The errors
that reading and running make have integers and words as particulars; a caller who raises an error
may give anything. -/
inductive Failure
  /-- An error with no particulars. -/
  | general (message : String)
  /-- The brackets of a text do not balance; the place is shown if both coordinates are given. -/
  | unbalancedLoop (message : String) (line col : Value)
  /-- The pointer would leave the tape. -/
  | pointerOutOfBounds (pointer tapeSize direction : Value)
  /-- More steps were counted than the limit allows. -/
  | stepLimitExceeded (limit : Value)
  /-- The current cell is no character. -/
  | cellValue (value pointer : Value)
  /-- Loops are nested too deeply for this stage. -/
  | nestingTooDeep (stage : Value)
  deriving DecidableEq, Repr

namespace Failure

/-- The message that an unbalanced loop has if it is given no other. -/
def unbalanced : String := "unbalanced loop"

/-- The kind of an error. -/
def kind : Failure → FailureKind
  | general _ => .general
  | unbalancedLoop _ _ _ => .unbalancedLoop
  | pointerOutOfBounds _ _ _ => .pointerOutOfBounds
  | stepLimitExceeded _ => .stepLimitExceeded
  | cellValue _ _ => .cellValue
  | nestingTooDeep _ => .nestingTooDeep

/-- The name of the kind of an error. -/
def name (f : Failure) : String :=
  f.kind.name

/-- The wording of an error. -/
def message : Failure → String
  | general message => message
  | unbalancedLoop message line col =>
    if line = .null || col = .null then message
    else "line " ++ line.plain ++ " col " ++ col.plain ++ ": " ++ message
  | pointerOutOfBounds pointer tapeSize direction =>
    "pointer out of bounds: cannot move " ++ direction.plain ++ " from cell " ++ pointer.plain ++
      " (tape size " ++ tapeSize.plain ++ ")"
  | stepLimitExceeded limit => "step limit exceeded: " ++ limit.plain
  | cellValue value pointer =>
    "cell " ++ pointer.plain ++ " holds " ++ value.plain ++ ", which is not a valid code point"
  | nestingTooDeep stage => "loop nesting too deep to " ++ stage.plain

/-- The particulars of an error, in the order of their names. -/
def values : Failure → List Value
  | general _ => []
  | unbalancedLoop _ line col => [line, col]
  | pointerOutOfBounds pointer tapeSize direction => [pointer, tapeSize, direction]
  | stepLimitExceeded limit => [limit]
  | cellValue value pointer => [value, pointer]
  | nestingTooDeep stage => [stage]

/-- The particulars of an error with their names. -/
def particulars (f : Failure) : List (String × Value) :=
  f.kind.particulars.zip f.values

/-- The particulars that the message shows. -/
def shown : Failure → List Value
  | general _ => []
  | unbalancedLoop _ line col => if line = .null || col = .null then [] else [line, col]
  | pointerOutOfBounds pointer tapeSize direction => [direction, pointer, tapeSize]
  | stepLimitExceeded limit => [limit]
  | cellValue value pointer => [pointer, value]
  | nestingTooDeep stage => [stage]

/-- Whether the message can be written. -/
def isWritable (f : Failure) : Bool :=
  f.shown.all Value.isWritable

end Failure

/-- The classes of errors that reading, running and making a tape can end with. -/
inductive ErrorClass
  /-- The errors of the language of one kind. -/
  | language (kind : FailureKind)
  /-- An index denotes nothing. -/
  | index
  /-- Something is not of the kind that is needed. -/
  | type
  /-- A value is out of its range. -/
  | value
  /-- A number is too large for an index. -/
  | overflow
  /-- There is no memory. -/
  | memory
  deriving DecidableEq, Repr

/-- The name of a class. -/
def ErrorClass.name : ErrorClass → String
  | language kind => kind.name
  | index => "IndexError"
  | type => "TypeError"
  | value => "ValueError"
  | overflow => "OverflowError"
  | memory => "MemoryError"

/-- Why a text is no program. -/
inductive ParseError
  /-- A closing bracket at this place closes nothing. -/
  | stray (place : Span)
  /-- The opening bracket at this place is never closed. -/
  | unclosed (place : Span)
  /-- Too many brackets are open. -/
  | tooDeep
  deriving DecidableEq, Repr

/-- What a caller sees of a text that is no program. -/
def ParseError.failure : ParseError → Failure
  | stray place =>
    .unbalancedLoop "unbalanced loop: ']' has no matching '['" (.int place.line)
      (.int place.col)
  | unclosed place =>
    .unbalancedLoop "unbalanced loop: '[' is never closed" (.int place.line)
      (.int place.col)
  | tooDeep => .nestingTooDeep (.text Stage.parse.word.toList)

/-- Why a run stops before its end. -/
inductive RunError
  /-- The pointer would leave a tape of this size. -/
  | offTape (pointer : Int) (tapeSize : Nat) (direction : Direction)
  /-- The step counter has passed the limit. -/
  | stepLimit (limit : Int)
  /-- The value of the current cell is no character. -/
  | badCell (value pointer : Int)
  /-- Too many loops are entered at the same time. -/
  | tooDeep
  /-- The pointer denotes no cell that could be read. -/
  | unreadable
  /-- The pointer denotes no cell that could be assigned. -/
  | unwritable
  /-- The pointer is no index of any tape. -/
  | unindexable
  /-- The instruction is of an unknown kind. -/
  | foreign (name : String)
  deriving DecidableEq, Repr

/-- The complaint about a number that no index can hold. -/
def indexOverflow : String :=
  "cannot fit 'int' into an index-sized integer"

namespace RunError

/-- The error of the language for a cause; there is none for the four causes that lie with the
caller. -/
def meant? : RunError → Option Failure
  | offTape pointer tapeSize direction =>
    some (.pointerOutOfBounds (.int pointer) (.int tapeSize) (.text direction.word.toList))
  | stepLimit limit => some (.stepLimitExceeded (.int limit))
  | badCell value pointer => some (.cellValue (.int value) (.int pointer))
  | tooDeep => some (.nestingTooDeep (.text Stage.execute.word.toList))
  | unreadable | unwritable | unindexable | foreign _ => none

/-- The error of the language that a caller sees: the one meant, if its message can be written. -/
def failure? (e : RunError) : Option Failure :=
  e.meant?.filter Failure.isWritable

/-- The class of what a caller sees. -/
def errorClass (e : RunError) : ErrorClass :=
  match e with
  | unreadable | unwritable | unindexable => .index
  | foreign _ => .type
  | offTape .. | stepLimit _ | badCell .. | tooDeep =>
    -- Where the message cannot be written, that is what a caller sees.
    match e.failure? with
    | some f => .language f.kind
    | none => .value

/-- The wording of what a caller sees. -/
def message : RunError → String
  | unreadable => "list index out of range"
  | unwritable => "list assignment index out of range"
  | unindexable => indexOverflow
  | foreign name => s!"unknown instruction: {name}"
  | e => (e.failure?.map Failure.message).getD Text.unwritable

end RunError

end TapeLang
