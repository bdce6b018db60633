/-!
# Programs of the tape language

The language has six commands and a loop. A `Program` is a sequence of instructions whose loops
carry their bodies; it is one inductive type, so that every function on programs recurses on the
data. Instructions remember where they were read (`Span`), and equality of programs (`same`) does
not look at that.

A program may also hold *foreign* instructions: nodes of some other kind that a caller has put
into the tree. They count as instructions, and nothing can run or print them.
-/

namespace TapeLang

/-- The commands that are not brackets. -/
inductive Command
  /-- Add one to the current cell. -/
  | increment
  /-- Subtract one from the current cell. -/
  | decrement
  /-- Move one cell to the right. -/
  | right
  /-- Move one cell to the left. -/
  | left
  /-- Write the current cell as a character. -/
  | output
  /-- Read a line and store its first character. -/
  | input
  deriving DecidableEq, Repr, Inhabited

namespace Command

/-- The character that stands for a command in source text. -/
def char : Command → Char
  | increment => '+'
  | decrement => '-'
  | right => '>'
  | left => '<'
  | output => '.'
  | input => ','

/-- The command that a character stands for. -/
def ofChar? (c : Char) : Option Command :=
  if c = '+' then some increment
  else if c = '-' then some decrement
  else if c = '>' then some right
  else if c = '<' then some left
  else if c = '.' then some output
  else if c = ',' then some input
  else none

@[simp]
theorem ofChar?_char (c : Command) : ofChar? c.char = some c := by
  cases c <;> rfl

/-- A character stands for at most one command, and that command is written as this character. -/
theorem char_of_ofChar? {ch : Char} {c : Command} (h : ofChar? ch = some c) : c.char = ch := by
  unfold ofChar? at h
  grind [char]

end Command

/-- A place in a source text: lines and columns count from one, columns count characters. -/
structure Span where
  /-- The line of the text. -/
  line : Nat
  /-- The column in that line. -/
  col : Nat
  deriving DecidableEq, Repr, Inhabited

namespace Span

/-- The place of the first character of a text. -/
def start : Span := ⟨1, 1⟩

/-- The place after a character: a line feed, and nothing else, starts a new line. -/
def next (s : Span) (c : Char) : Span :=
  if c = '\n' then ⟨s.line + 1, 1⟩ else ⟨s.line, s.col + 1⟩

end Span

/-- A sequence of instructions, first instruction outermost. -/
inductive Program
  /-- The empty sequence. -/
  | nil
  /-- A command and what follows it. -/
  | command (c : Command) (span : Option Span) (rest : Program)
  /-- A loop with its body, and what follows it. -/
  | loop (body : Program) (span : Option Span) (rest : Program)
  /-- An instruction of a kind unknown to the language, known by its name only. -/
  | foreign (name : String) (rest : Program)
  deriving DecidableEq, Repr, Inhabited

/-- Why a name is no name of a kind of instructions. -/
inductive BadKindName
  /-- It holds the null character. -/
  | nullCharacter
  deriving DecidableEq, Repr

/-- The wording of the error. -/
def BadKindName.message : BadKindName → String
  | nullCharacter => "type name must not contain null characters"

namespace Program

/-- A foreign instruction of the kind with a name, and what follows it. -/
def foreign? (name : String) (rest : Program) : Except BadKindName Program :=
  if name.toList.contains '\x00' then .error .nullCharacter else .ok (foreign name rest)

/-- The instructions of one program followed by those of another. -/
def append : Program → Program → Program
  | nil, q => q
  | command c s rest, q => command c s (rest.append q)
  | loop b s rest, q => loop b s (rest.append q)
  | foreign n rest, q => foreign n (rest.append q)

instance : Append Program := ⟨append⟩

@[simp]
theorem nil_append (p : Program) : nil ++ p = p := rfl

@[simp]
theorem command_append (c : Command) (s : Option Span) (p q : Program) :
    command c s p ++ q = command c s (p ++ q) := rfl

@[simp]
theorem loop_append (b : Program) (s : Option Span) (p q : Program) :
    loop b s p ++ q = loop b s (p ++ q) := rfl

@[simp]
theorem foreign_append (n : String) (p q : Program) :
    foreign n p ++ q = foreign n (p ++ q) := rfl

@[simp]
theorem append_nil (p : Program) : p ++ nil = p := by
  induction p <;> simp_all

theorem append_assoc (p q r : Program) : p ++ q ++ r = p ++ (q ++ r) := by
  induction p <;> simp_all

/-- `p.reverseAppend q` puts the instructions of `p` in reverse order before `q`; loop bodies stay
as they are. -/
def reverseAppend : Program → Program → Program
  | nil, q => q
  | command c s rest, q => rest.reverseAppend (command c s q)
  | loop b s rest, q => rest.reverseAppend (loop b s q)
  | foreign n rest, q => rest.reverseAppend (foreign n q)

/-- The instructions in reverse order; loop bodies stay as they are. -/
def reverse (p : Program) : Program :=
  p.reverseAppend nil

theorem reverseAppend_eq (p q : Program) : p.reverseAppend q = p.reverse ++ q := by
  induction p generalizing q with
  | nil => rfl
  | command c s rest ih =>
    rw [reverse, reverseAppend, reverseAppend, ih, ih (command c s nil), append_assoc]
    rfl
  | loop b s rest _ ih =>
    rw [reverse, reverseAppend, reverseAppend, ih, ih (loop b s nil), append_assoc]
    rfl
  | foreign n rest ih =>
    rw [reverse, reverseAppend, reverseAppend, ih, ih (foreign n nil), append_assoc]
    rfl

/-- A program of commands only, without places. -/
def ofCommands (cs : List Command) : Program :=
  cs.foldr (fun c rest => command c none rest) nil

/-- The program without its places. -/
def bare : Program → Program
  | nil => nil
  | command c _ rest => command c none rest.bare
  | loop b _ rest => loop b.bare none rest.bare
  | foreign n rest => foreign n rest.bare

/-- Whether the program and all its loop bodies are free of foreign instructions. -/
def native : Program → Bool
  | nil => true
  | command _ _ rest => rest.native
  | loop b _ rest => b.native && rest.native
  | foreign _ _ => false

/-- Equality of programs: the same instructions in the same order, wherever they were read.
A foreign instruction equals no other instruction. -/
def same : Program → Program → Bool
  | nil, nil => true
  | command c _ p, command d _ q => c = d && p.same q
  | loop b _ p, loop d _ q => b.same d && p.same q
  | _, _ => false

/-- Equality of programs, as far as it can be found out when loops may be compared at most `bound`
deep: the first difference decides, and nothing behind it is looked at. -/
def sameWithin (bound : Nat) : Program → Program → Option Bool
  | nil, nil => some true
  | command c _ p, command d _ q => if c = d then p.sameWithin bound q else some false
  | loop b _ p, loop d _ q =>
    match bound with
    | 0 => none
    | inner + 1 =>
      match b.sameWithin inner d with
      | some true => p.sameWithin bound q
      | result => result
  | _, _ => some false

end Program

end TapeLang
