import TapeLang.Text.Path

/-!
# Places

A place in the tree of directories, said by the names that lead to it. Paths are walked step by
step: a single point stays (`Place.step`), two points lead up, and every other name leads down.
-/

namespace TapeLang

open Text (pathSteps pathRoot)

/-- A place in the tree of directories. -/
structure Place where
  /-- Whether it is found from the root, and not from the starting directory. -/
  fromRoot : Bool := false
  /-- How many directories it is above the starting directory before the names lead down. -/
  above : Nat := 0
  /-- The names that lead down to it, the last one first. -/
  names : List (List Char) := []
  deriving DecidableEq, Repr

namespace Place

/-- The root. -/
def root : Place :=
  { fromRoot := true }

/-- The place from which a path starts when a directory is the current one. -/
def origin (current : Place) (path : List Char) : Place :=
  if (pathRoot path).isEmpty then current else root

/-- The place of the directory around a place; the root is around itself. -/
def parent (p : Place) : Place :=
  match p.names with
  | _ :: names => { p with names }
  | [] => if p.fromRoot then p else { p with above := p.above + 1 }

/-- The place of a name in a directory. -/
def child (p : Place) (name : List Char) : Place :=
  { p with names := name :: p.names }

/-- The place to which one step leads. -/
def step (p : Place) (name : List Char) : Place :=
  if name = Text.hereName then p
  else if name = Text.aboveName then p.parent
  else p.child name

/-- The place to which a path leads from the starting directory if all its steps are
directories. -/
def ofPath (path : List Char) : Place :=
  (pathSteps path).foldl step (origin {} path)

/-- Whether another place is below this one. -/
def isAbove (p q : Place) : Bool :=
  p.fromRoot = q.fromRoot && p.above = q.above && p.names ≠ q.names &&
    p.names.isSuffixOf q.names

/-- This place and those of the directories around it, up to where the names begin. -/
def outward (p : Place) : List Place :=
  go p.names
where
  /-- The places to which some of the names lead. -/
  go : List (List Char) → List Place
    | [] => [{ p with names := [] }]
    | name :: names => { p with names := name :: names } :: go names

/-- The number of bytes of the names that lead down, each with its slash. -/
def byteLength (p : Place) : Nat :=
  p.names.foldr (fun name total => Text.byteLength name + 1 + total) 0

end Place

end TapeLang
