/-!
# Paths

A path is a text with slashes. Its names are the parts between the slashes that are not empty, and
its steps are the names that lead somewhere, which a single point does not. Lengths count the
bytes of the text in UTF-8.
-/

namespace TapeLang.Text

/-- The parts of a path between its slashes. -/
def pathParts (path : List Char) : List (List Char) :=
  path.foldr (fun c parts =>
    match c, parts with
    | '/', parts => [] :: parts
    | c, part :: parts => (c :: part) :: parts
    | c, [] => [[c]]) [[]]

/-- The name by which a directory calls itself. -/
def hereName : List Char := ['.']

/-- The name by which a directory calls the one around it. -/
def aboveName : List Char := ['.', '.']

/-- The parts of a path that name something. -/
def pathNames (path : List Char) : List (List Char) :=
  (pathParts path).filter fun part => !part.isEmpty

/-- The names in a path that lead somewhere. -/
def pathSteps (path : List Char) : List (List Char) :=
  (pathNames path).filter fun name => name ≠ hereName

/-- The slashes with which a path begins, if it begins at the root: two stay two. -/
def pathRoot (path : List Char) : List Char :=
  match path.takeWhile (· = '/') with
  | ['/', '/'] => ['/', '/']
  | '/' :: _ => ['/']
  | _ => []

/-- A path in its shortest spelling. -/
def normalPath (path : List Char) : List Char :=
  match pathRoot path ++ List.intercalate ['/'] (pathSteps path) with
  | [] => hereName
  | path => path

/-- The number of bytes of a text in UTF-8. -/
def byteLength (text : List Char) : Nat :=
  text.foldr (fun c total => c.utf8Size + total) 0

/-- The greatest number of bytes of a path. -/
def maxPathBytes : Nat := 4095

/-- The greatest number of bytes of a name in a path. -/
def maxNameBytes : Nat := 255

/-- Whether a name in a path is too long. -/
def isLongName (name : List Char) : Bool :=
  maxNameBytes < byteLength name

/-- Whether a path is too long, whatever its names. -/
def isLongPath (path : List Char) : Bool :=
  maxPathBytes < byteLength path

end TapeLang.Text
