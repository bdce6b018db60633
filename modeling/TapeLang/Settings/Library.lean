import TapeLang.Settings.Workspace

/-!
# Libraries of settings files

Settings files are found, read and loaded by a library. `FileLibrary` is what such a library offers,
and `FileLibrary.Lawful` is what is known of every one of them. How the text of a file binds names
to values is left to the library; that it fills no variable that is set is not.
-/

namespace TapeLang

/-- Why settings files cannot be found or loaded. -/
inductive FileError
  /-- The path of the current directory is too long for a search to start there. -/
  | lostStart
  /-- A variable cannot be set. -/
  | badVariable (e : VariableError)
  deriving DecidableEq, Repr

/-- The wording of an error. -/
def FileError.message : FileError → String
  | lostStart => "Starting path not found"
  | badVariable e => e.message

/-- What a library of settings files offers. -/
structure FileLibrary where
  /-- The text of the file, if there is one, to which a search from the current directory leads. -/
  find : Workspace → Except FileError (Option (List Char))
  /-- What a text binds to a name if it is loaded into an environment. -/
  bound : Environment → List Char → List Char → Option (List Char)
  /-- The environment after a file, if there is one, has been loaded into it, and what has kept some
  of it from being loaded. -/
  load : Environment → Option (List Char) → Environment × Option FileError

/-- What is known of a library of settings files. -/
structure FileLibrary.Lawful (files : FileLibrary) : Prop where
  /-- A search that succeeds leads to the nearest file, from the current directory upwards. -/
  find_nearest : ∀ w file, files.find w = .ok file → file = w.nearestFile
  /-- A variable that is set keeps its value, whether or not the file can be loaded. -/
  load_keeps : ∀ env file name value, env.get? name = some value →
    (files.load env file).1.get? name = some value
  /-- If the file can be loaded, every other variable has the value that the file binds to it. -/
  load_fills : ∀ env file, (files.load env file).2 = none → ∀ name, env.get? name = none →
    (files.load env file).1.get? name = file.bind fun text => files.bound env text name

end TapeLang
