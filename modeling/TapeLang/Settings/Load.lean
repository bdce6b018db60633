import TapeLang.RunConfig.Basic
import TapeLang.Settings.Library

/-!
# Loading settings

Variables that are not set are filled from one settings file: the common one if there is one, else
the one to which a search leads. A value given directly (an override) then comes before the
variable, and the variable before the default.
-/

namespace TapeLang

/-- The variable for the size of the tape. -/
def tapeSizeVariable : List Char :=
  "BFLITE_TAPE_SIZE".toList

/-- The variable for the step limit. -/
def stepLimitVariable : List Char :=
  "BFLITE_STEP_LIMIT".toList

/-- The overrides that give a value. -/
def Fields.given (overrides : Fields) : Fields :=
  overrides.filter fun f => f.2 ≠ .null

namespace Environment

/-- The value that a variable offers to a field; blanks around it are dropped, and a blank value
offers nothing. -/
def offer (env : Environment) (variableName : List Char) : Option Value :=
  match (env.get? variableName).map Text.strip with
  | none | some [] => none
  | some value => some (.text value)

/-- The value offered for a field by an override or else by a variable. -/
def offerFor (env : Environment) (overrides : Fields) (field : String)
    (variableName : List Char) : Fields :=
  ((overrides.given.get? field).or (env.offer variableName)).toList.map fun v => (field, v)

/-- Everything that is offered for a configuration: first the known fields, then the others in
their order. -/
def offers (env : Environment) (overrides : Fields) : Fields :=
  env.offerFor overrides RunConfig.tapeSizeField tapeSizeVariable ++
    env.offerFor overrides RunConfig.stepLimitField stepLimitVariable ++
    overrides.given.filter fun f =>
      f.1 ≠ RunConfig.tapeSizeField && f.1 ≠ RunConfig.stepLimitField

end Environment

/-- Why settings cannot be loaded. -/
inductive LoadError
  /-- The variables cannot be filled. -/
  | file (e : FileError)
  /-- The configuration is refused. -/
  | issues (issues : List Issue)
  deriving DecidableEq, Repr

namespace Workspace

variable (files : FileLibrary) (records : RecordLibrary)

/-- The text of the settings file to load, if there is one. A search takes place only if there is no
common file. -/
def fileToLoad (w : Workspace) : Except FileError (Option (List Char)) :=
  match w.common with
  | some text => .ok (some text)
  | none => files.find w

/-- The workspace in which the variables that were not set are filled, and what has kept some of
them from being filled. -/
def fillVariables (w : Workspace) : Workspace × Option FileError :=
  match w.fileToLoad files with
  | .error e => (w, some e)
  | .ok file =>
    let (environment, e) := files.load w.environment file
    ({ w with environment }, e)

/-- Load the settings with these libraries. The variables are filled whether or not a configuration
is made. -/
def loadWith (w : Workspace) (overrides : Fields) :
    Workspace × Except LoadError records.Record :=
  match w.fillVariables files with
  | (w, some e) => (w, .error (.file e))
  | (w, none) =>
    (w, (records.make RunConfig.schema (w.environment.offers overrides)).mapError .issues)

variable {files records}

/-- A load is the filling of the variables, and then the making of a record. -/
theorem loadWith_eq (w : Workspace) (overrides : Fields) :
    w.loadWith files records overrides =
      ((w.fillVariables files).1, match (w.fillVariables files).2 with
        | some e => .error (.file e)
        | none => (records.make RunConfig.schema
            ((w.fillVariables files).1.environment.offers overrides)).mapError .issues) := by
  rw [loadWith]
  cases w.fillVariables files with
  | mk w' e => cases e <;> rfl

end Workspace

end TapeLang
