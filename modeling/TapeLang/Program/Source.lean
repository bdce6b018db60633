import TapeLang.Program.Measure

/-!
# Canonical source text

A program without foreign instructions is written with the eight command characters and nothing
else. `sourceWithin` looks up the character of each instruction and calls itself for the body of
each loop; it stops at the first instruction whose kind is not listed, and where a loop is nested
too deeply for another call.
-/

namespace TapeLang

/-- Why a program cannot be written as source text. -/
inductive SourceError
  /-- The kind of an instruction, with this name, is not listed among those that have a character.
  The error holds nothing but the kind that was looked up. -/
  | unlisted (name : String)
  /-- Loops are nested too deeply. -/
  | tooDeep
  deriving DecidableEq, Repr

namespace Program

/-- The canonical source text; foreign instructions are left out. -/
def source : Program → List Char
  | nil => []
  | command c _ rest => c.char :: rest.source
  | loop b _ rest => '[' :: b.source ++ ']' :: rest.source
  | foreign _ rest => rest.source

@[simp]
theorem source_append (p q : Program) : (p ++ q).source = p.source ++ q.source := by
  induction p <;> simp_all [source]

/-- Write the canonical source text, with loops nested at most `bound` deep. -/
def sourceWithin (bound : Nat) : Program → Except SourceError (List Char)
  | nil => .ok []
  | command c _ rest => do
    let behind ← rest.sourceWithin bound
    return c.char :: behind
  | loop b _ rest =>
    match bound with
    | 0 => .error .tooDeep
    | inner + 1 => do
      let body ← b.sourceWithin inner
      let behind ← rest.sourceWithin bound
      return '[' :: body ++ ']' :: behind
  | foreign name _ => .error (.unlisted name)

end Program

end TapeLang
