import TapeLang.Program.Measure

/-!
# Constructor notation

A program as a term of constructors: `Program(instructions=(Loop(body=(IncValue(),)),))`. A
sequence is a tuple, which is written with a comma behind its only element, and as `()` if it is
empty. Places are not shown.
-/

namespace TapeLang

/-- The name of a command's constructor. -/
def Command.constructorName : Command → List Char
  | increment => "IncValue".toList
  | decrement => "DecValue".toList
  | right => "IncPointer".toList
  | left => "DecPointer".toList
  | output => "Output".toList
  | input => "Input".toList

namespace Program

/-- A tuple of terms: a single element is followed by a comma. -/
def tuple : List (List Char) → List Char
  | [] => "()".toList
  | [x] => '(' :: x ++ ",)".toList
  | x :: xs => '(' :: x ++ xs.flatMap (", ".toList ++ ·) ++ [')']

/-- The terms of the instructions. -/
def terms : Program → List (List Char)
  | nil => []
  | command c _ rest => (c.constructorName ++ "()".toList) :: rest.terms
  | loop b _ rest => ("Loop(body=".toList ++ tuple b.terms ++ [')']) :: rest.terms
  | foreign name rest => (name.toList ++ "()".toList) :: rest.terms

/-- The program as a term. -/
def term (p : Program) : List Char :=
  "Program(instructions=".toList ++ tuple p.terms ++ [')']

/-- The term of a program that is nested at most `bound` deep. -/
def termWithin (bound : Nat) (p : Program) : Option (List Char) :=
  if p.depth ≤ bound then some p.term else none

end Program

end TapeLang
