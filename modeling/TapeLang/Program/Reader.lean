import TapeLang.Error
import TapeLang.Limits

/-!
# Reading programs

A text is read in one pass from left to right. The reader holds the place of the next character,
the instructions of the innermost open block, and the blocks around it that still wait for their
closing bracket. Characters that are neither commands nor brackets are comments.

`Program.ofTextWithin` is the whole of reading: it refuses a closing bracket that closes nothing, a
text that ends inside a loop, and the bracket that makes the nesting reach the bound, whichever
comes first. Source texts are lists of characters: a text may also hold surrogates, but these are
comments like every other character that is no command.
-/

namespace TapeLang

/-- A loop whose closing bracket has not come yet. -/
structure OpenLoop where
  /-- The place of its opening bracket. -/
  place : Span
  /-- What stands before it in its own block, last instruction first. -/
  before : Program
  deriving DecidableEq, Repr

/-- What a reader knows after some part of a text. -/
structure Reader where
  /-- The place of the next character. -/
  place : Span
  /-- The instructions of the innermost open block, last instruction first. -/
  block : Program
  /-- The loops that are open, innermost first. -/
  opened : List OpenLoop
  deriving DecidableEq, Repr

namespace Reader

/-- Nothing has been read yet. -/
def start : Reader := ⟨Span.start, .nil, []⟩

/-- Read one character. Counting open brackets idealises the bound of the runtime, which counts
pending calls (`Limits`): next to the bound it may also give up at a bracket that is closed or at a
comment. -/
def feed (bound : Nat) (r : Reader) (c : Char) : Except ParseError Reader :=
  match Command.ofChar? c with
  | some cmd => .ok ⟨r.place.next c, .command cmd (some r.place) r.block, r.opened⟩
  | none =>
    if c = '[' then
      if bound ≤ r.opened.length + 1 then .error .tooDeep
      else .ok ⟨r.place.next c, .nil, ⟨r.place, r.block⟩ :: r.opened⟩
    else if c = ']' then
      match r.opened with
      | [] => .error (.stray r.place)
      -- The loop goes back to the block in which it was opened, with the place of its bracket.
      | l :: outer => .ok ⟨r.place.next c, .loop r.block.reverse (some l.place) l.before, outer⟩
    else .ok ⟨r.place.next c, r.block, r.opened⟩

/-- Read a text. -/
def feedAll (bound : Nat) (r : Reader) (text : List Char) : Except ParseError Reader :=
  match text with
  | [] => .ok r
  | c :: rest =>
    match r.feed bound c with
    | .ok r' => r'.feedAll bound rest
    | .error e => .error e

/-- The text is over: no loop may be open. -/
def finish (r : Reader) : Except ParseError Program :=
  match r.opened with
  | [] => .ok r.block.reverse
  | l :: _ => .error (.unclosed l.place)

end Reader

namespace Program

/-- The program that a text denotes, if loops nest less than `bound` deep. -/
def ofTextWithin (bound : Nat) (text : List Char) : Except ParseError Program :=
  match Reader.start.feedAll bound text with
  | .ok r => r.finish
  | .error e => .error e

/-- The program that a text denotes. -/
def ofText (text : List Char) : Except ParseError Program :=
  ofTextWithin Limits.sample.reading text

end Program

end TapeLang
