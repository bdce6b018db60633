import TapeLang.Settings.Load

/-!
# Changes of a workspace

What can happen to a workspace between loads: variables are set and removed, settings files are
written and removed, and directories are made and entered. `Change.apply` says what a workspace is
after a change, or why the change fails.
-/

namespace TapeLang

/-- What can happen to a workspace. -/
inductive Change
  /-- A variable is set. -/
  | setVariable (name value : List Char)
  /-- A variable is removed. -/
  | unsetVariable (name : List Char)
  /-- The settings file of the current directory is written. -/
  | writeFile (text : List Char)
  /-- The settings file of the current directory is removed. -/
  | removeFile
  /-- The common settings file is written. -/
  | writeCommonFile (text : List Char)
  /-- A directory is made and becomes the current one. -/
  | enterDirectory (path : List Char)
  /-- The settings are loaded. -/
  | load (overrides : Fields)
  deriving DecidableEq, Repr

/-- Why a change fails. -/
inductive ChangeError
  /-- A variable cannot be set. -/
  | badVariable (e : VariableError)
  /-- A path leads nowhere. -/
  | missing (path : List Char)
  /-- Something is already at a path. -/
  | taken (path : List Char)
  /-- A path leads through a file. -/
  | throughFile (path : List Char)
  /-- A path is too long. -/
  | tooLong (path : List Char)
  /-- A path holds the null character. -/
  | nullCharacter
  deriving DecidableEq, Repr

/-- The wording of an error. -/
def ChangeError.message : ChangeError → String
  | badVariable e => e.message
  | missing path => about "[Errno 2] No such file or directory" path
  | taken path => about "[Errno 17] File exists" path
  | throughFile path => about "[Errno 20] Not a directory" path
  | tooLong path => about "[Errno 36] File name too long" path
  | nullCharacter => VariableError.nullCharacter.message
where
  /-- A complaint about a path. -/
  about (complaint : String) (path : List Char) : String :=
    complaint ++ ": " ++ String.ofList (Text.quoted path)

namespace Workspace

/-- Whether there is a directory at a place. What is around the starting directory and the root
are directories. -/
def hasDirectory (w : Workspace) (p : Place) : Bool :=
  p.names.isEmpty || w.directories.contains p

/-- Whether there is a file at a place. -/
def hasFile (w : Workspace) (p : Place) : Bool :=
  (w.files.lookup p).isSome

/-- The place at which a directory can be made: every name but the last has to lead to a directory,
and the last one has to be new. -/
def vacancy (w : Workspace) (path : List Char) :
    Place → List (List Char) → Except ChangeError Place
  | _, [] => .error (.taken path)
  | p, [name] =>
    if name = Text.hereName || name = Text.aboveName then .error (.taken path)
    else if Text.isLongName name then .error (.tooLong path)
    else if w.hasDirectory (p.child name) || w.hasFile (p.child name) then .error (.taken path)
    else .ok (p.child name)
  | p, name :: rest =>
    let next := p.step name
    if Text.isLongName name then .error (.tooLong path)
    else if w.hasDirectory next then w.vacancy path next rest
    else if w.hasFile next then .error (.throughFile path)
    else .error (.missing path)

/-- Make a directory, and enter it. -/
def enterDirectory (w : Workspace) (path : List Char) : Except ChangeError Workspace :=
  if path.contains '\x00' then .error .nullCharacter
  else if path.isEmpty then .error (.missing path)
  else if Text.isLongPath path then .error (.tooLong path)
  else
    (w.vacancy path (w.current.origin path) (Text.pathNames path)).map fun p =>
      { w with directories := p :: w.directories, current := p }

/-- Remove the settings file of the current directory, which has to be there. -/
def removeFile (w : Workspace) : Except ChangeError Workspace :=
  match w.localFile with
  | some _ => .ok (w.withFile none)
  | none => .error (.missing fileName)

end Workspace

/-- The workspace after a change, and what a load with these libraries has given. -/
def Change.apply (files : FileLibrary) (records : RecordLibrary) (w : Workspace) :
    Change → Except ChangeError (Workspace × Option (Except LoadError records.Record))
  | setVariable name value =>
    match w.environment.set? name value with
    | .ok environment => .ok ({ w with environment }, none)
    | .error e => .error (.badVariable e)
  | unsetVariable name => .ok ({ w with environment := w.environment.unset name }, none)
  | writeFile text => .ok (w.withFile (some text), none)
  | removeFile => w.removeFile.map fun w => (w, none)
  | writeCommonFile text => .ok ({ w with common := some text }, none)
  | enterDirectory path => (w.enterDirectory path).map fun w => (w, none)
  | load overrides =>
    let (w, result) := w.loadWith files records overrides
    .ok (w, some result)

end TapeLang
