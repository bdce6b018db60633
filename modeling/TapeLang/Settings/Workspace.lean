import TapeLang.Place
import TapeLang.Settings.Environment

/-!
# Workspaces

A run configuration can be given by environment variables, and these can be filled from settings
files. A workspace holds the variables and the files: one settings file may be common to all
directories, and every directory may have one of its own. Among those the nearest one is looked for,
from the current directory upwards.
-/

namespace TapeLang

/-- Where settings come from. -/
structure Workspace where
  /-- The environment variables. -/
  environment : Environment := {}
  /-- The text of the settings file that is common to all directories. -/
  common : Option (List Char) := none
  /-- The files in the directories, by their places. -/
  files : List (Place × List Char) := []
  /-- The places of the directories that are known, beside the starting directory and those
  above it. -/
  directories : List Place := []
  /-- The current directory. -/
  current : Place := {}
  /-- The number of bytes in the path of the starting directory. -/
  startBytes : Nat := 16
  deriving DecidableEq, Repr

namespace Workspace

/-- The name of settings files. -/
def fileName : List Char := ".env".toList

/-- The place of the settings file in the current directory. -/
def localPlace (w : Workspace) : Place :=
  w.current.child fileName

/-- The text of the settings file in the current directory. -/
def localFile (w : Workspace) : Option (List Char) :=
  w.files.lookup w.localPlace

/-- The text of the nearest settings file, from the current directory upwards. -/
def nearestFile (w : Workspace) : Option (List Char) :=
  w.current.outward.findSome? fun p => w.files.lookup (p.child fileName)

/-- The text of the one settings file that counts: the common one if there is one, else the nearest
one. -/
def activeFile (w : Workspace) : Option (List Char) :=
  w.common.or w.nearestFile

/-- The number of bytes in the path of the current directory. -/
def currentBytes (w : Workspace) : Nat :=
  (if w.current.fromRoot then 0 else w.startBytes) + w.current.byteLength

/-- The workspace with another settings file, or none, in the current directory. -/
def withFile (w : Workspace) (text : Option (List Char)) : Workspace :=
  let others := w.files.filter fun file => file.1 ≠ w.localPlace
  { w with files := (text.map fun text => (w.localPlace, text)).toList ++ others }

end Workspace

end TapeLang
