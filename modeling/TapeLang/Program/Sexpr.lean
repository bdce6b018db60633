import TapeLang.Program.Basic

/-!
# Symbolic expressions

The instruction tree as a symbolic expression: `(program inc (loop dec right))`. Every
instruction is one word or one parenthesised loop, and single blanks stand between items.
`itemsWithin` makes the item of each instruction and calls itself for the items of each loop; it
stops at the first instruction of an unknown kind, and where a loop is nested too deeply for another
call.
-/

namespace TapeLang

/-- The word for a command. -/
def Command.word : Command → List Char
  | increment => ['i', 'n', 'c']
  | decrement => ['d', 'e', 'c']
  | right => ['r', 'i', 'g', 'h', 't']
  | left => ['l', 'e', 'f', 't']
  | output => ['o', 'u', 't']
  | input => ['i', 'n']

/-- Why a program cannot be printed as a symbolic expression. -/
inductive SexprError
  /-- An instruction is of an unknown kind, which has this name. -/
  | unknown (name : String)
  /-- Loops are nested too deeply. -/
  | tooDeep
  deriving DecidableEq, Repr

/-- The wording of the error, if it has one. -/
def SexprError.message : SexprError → Option String
  | unknown name => some s!"unknown instruction: {name}"
  | tooDeep => none

namespace Program

/-- The instructions as items, each with a blank before it; a loop is its items in parentheses
behind the word `loop`. Foreign instructions are left out. -/
def items : Program → List Char
  | nil => []
  | command c _ rest => ' ' :: c.word ++ rest.items
  | loop b _ rest => ' ' :: '(' :: 'l' :: 'o' :: 'o' :: 'p' :: (b.items ++ ')' :: rest.items)
  | foreign _ rest => rest.items

/-- The program as a symbolic expression. -/
def sexpr (p : Program) : List Char :=
  '(' :: 'p' :: 'r' :: 'o' :: 'g' :: 'r' :: 'a' :: 'm' :: (p.items ++ [')'])

/-- The item of a loop whose body has these items. -/
def loopItem (body : List (List Char)) : List Char :=
  match List.intercalate [' '] body with
  | [] => "(loop)".toList
  | joined => "(loop ".toList ++ joined ++ [')']

/-- The items of the instructions, with loops nested at most `bound` deep. -/
def itemsWithin (bound : Nat) : Program → Except SexprError (List (List Char))
  | nil => .ok []
  | command c _ rest => do
    let behind ← rest.itemsWithin bound
    return c.word :: behind
  | loop b _ rest =>
    match bound with
    | 0 => .error .tooDeep
    | inner + 1 => do
      let body ← b.itemsWithin inner
      let behind ← rest.itemsWithin bound
      return loopItem body :: behind
  | foreign name _ => .error (.unknown name)

/-- Print a program as a symbolic expression, with loops nested at most `bound` deep. -/
def sexprWithin (bound : Nat) (p : Program) : Except SexprError (List Char) := do
  let items ← p.itemsWithin bound
  return "(program".toList ++ items.flatMap (' ' :: ·) ++ [')']

end Program

end TapeLang
