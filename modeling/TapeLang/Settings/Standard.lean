import TapeLang.Settings.DotEnv
import TapeLang.Settings.Expansion
import TapeLang.Settings.Load

/-!
# The library of settings files of the executable

The executable loads settings with a library that reads texts as `DotEnv.read` says, and with
records that are dictionaries. A variable of its own keeps all files from being loaded, a search
cannot start where the path of the current directory is too long, and the first variable that cannot
be set ends the loading of a file.
-/

namespace TapeLang

namespace Environment

/-- The variable that keeps settings files from being read. -/
def disablingVariable : List Char :=
  "PYTHON_DOTENV_DISABLED".toList

/-- A character in lower case; the long s is an s. -/
def foldCase (c : Char) : Char :=
  if c = 'ſ' then 's' else c.toLower

/-- Whether settings files are not read: the variable for that says yes, in upper or lower case. -/
def disablesFiles (env : Environment) : Bool :=
  match env.get? disablingVariable with
  | some value =>
    ["1".toList, "true".toList, "t".toList, "yes".toList, "y".toList].contains
      (value.map foldCase)
  | none => false

end Environment

namespace Workspace

/-- Whether the search for a settings file would have to start where it cannot. -/
def isLost (w : Workspace) : Bool :=
  w.common.isNone && Text.maxPathBytes < w.currentBytes

end Workspace

namespace FileLibrary

/-- The statements of a file, if there is one, that count in an environment: none if files are not
loaded. -/
def statements (env : Environment) (file : Option (List Char)) : List Statement :=
  if env.disablesFiles then []
  else
    match file with
    | some text => DotEnv.read text
    | none => []

/-- What a file binds in an environment. -/
def bindings (env : Environment) (file : Option (List Char)) : Bindings :=
  .ofPairs env (DotEnv.pairs (statements env file))

/-- The library of the executable. -/
def standard : FileLibrary where
  find w := if Text.maxPathBytes < w.currentBytes then .error .lostStart else .ok w.nearestFile
  bound env text name := ((bindings env (some text)).lookup name).join
  load env file :=
    let (env, e) := env.fill (bindings env file)
    (env, e.map .badVariable)

end FileLibrary

namespace Workspace

/-- The statements of the active settings file; none if settings files are not loaded. -/
def statements (w : Workspace) : List Statement :=
  FileLibrary.statements w.environment w.activeFile

/-- What the active settings file binds. -/
def bindings (w : Workspace) : Bindings :=
  FileLibrary.bindings w.environment w.activeFile

/-- The workspace after the active settings file has been loaded, and why one of its variables
cannot be set. -/
def filled (w : Workspace) : Workspace × Option VariableError :=
  let (environment, e) := w.environment.fill w.bindings
  ({ w with environment }, e)

/-- Load the settings as a configuration. -/
def load (w : Workspace) (overrides : Fields) : Workspace × Except LoadError RunConfig :=
  let (w, result) := w.loadWith .standard .standard overrides
  (w, result.map fun r => (RunConfig.ofRecord? .standard r).getD {})

end Workspace

end TapeLang
