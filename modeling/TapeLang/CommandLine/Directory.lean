import TapeLang.Place

/-!
# Files

What a command can find at a path: a file with its bytes, or a directory. A path is walked step by
step (`Directory.find?`): every step but the last has to lead to a directory, and above the
starting directory there are only directories.
-/

namespace TapeLang.CommandLine

open Text (pathSteps)

/-- Something at a path. -/
inductive FileEntry
  /-- A file with these bytes. -/
  | file (bytes : List UInt8)
  /-- A directory. -/
  | directory
  deriving DecidableEq, Repr

/-- The files and directories that a command can reach, by their paths. -/
structure Directory where
  /-- Paths and what is there. -/
  entries : List (List Char × FileEntry) := []
  deriving DecidableEq, Repr

/-- The answer to the question what is at a path. -/
inductive Lookup
  /-- This is there. -/
  | found (e : FileEntry)
  /-- Nothing is there. -/
  | nothing
  /-- The path, or a name in it, is too long to be asked about. -/
  | tooLong
  deriving DecidableEq, Repr

namespace Directory

/-- What is at a place. What has something below it is a directory. -/
def at? (d : Directory) (p : Place) : Option FileEntry :=
  if p.names.isEmpty then some .directory
  else
    match d.entries.find? fun e => Place.ofPath e.1 = p with
    | some e => some e.2
    | none =>
      if d.entries.any fun e => p.isAbove (Place.ofPath e.1) then some .directory else none

/-- Walk on from a place. -/
def walk (d : Directory) (p : Place) : List (List Char) → Lookup
  | [] =>
    match d.at? p with
    | some e => .found e
    | none => .nothing
  | name :: rest =>
    match d.at? p with
    | some .directory =>
      if Text.isLongName name then .tooLong else d.walk (p.step name) rest
    | _ => .nothing

/-- What is at a path. -/
def find? (d : Directory) (path : List Char) : Lookup :=
  if path.contains '\x00' then .nothing
  else if Text.isLongPath (Text.normalPath path) then .tooLong
  else d.walk (Place.origin {} path) (pathSteps path)

end Directory

end TapeLang.CommandLine
