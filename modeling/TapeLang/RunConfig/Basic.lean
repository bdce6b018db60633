import TapeLang.RunConfig.Dictionary
import TapeLang.Tape

/-!
# Run configurations

A run configuration says on how large a tape a program runs and how many steps it may take. It is a
record (`RunConfig.schema`) with a field for each: values of any kind may be offered for them, they
are converted to integers, and every field that cannot be accepted is reported. A configuration
never changes afterwards. `RunConfig.ofFields` makes one with the library of records that the
executable goes by.
-/

namespace TapeLang

namespace Value

/-- Whether a value equals the number zero. -/
def isZero : Value → Bool
  | bool b => !b
  | int n => n = 0
  | binary b => b.isZero
  | null | infinite _ | undefined | text _ | list _ | record _ => false

/-- Whether a value stands for the absence of a limit: no value, a number that equals zero, or one
of three words, blanks around it and upper case aside. -/
def isUnlimited : Value → Bool
  | null => true
  | text cs =>
    let word := (Text.strip cs).map Char.toLower
    word = [] || word = ['n', 'o', 'n', 'e'] || word = ['0']
  | v => v.isZero

/-- A value that stands for the absence of a limit becomes no value. -/
def withoutLimit (v : Value) : Value :=
  if v.isUnlimited then .null else v

end Value

/-- How a program is run. -/
structure RunConfig where
  /-- The number of cells of the tape. -/
  tapeSize : Int := Tape.standardSize
  /-- The number of steps allowed. -/
  stepLimit : Option Int := none
  deriving DecidableEq, Repr

namespace RunConfig

/-- The name of the field for the size of the tape. -/
def tapeSizeField : String := "tape_size"

/-- The name of the field for the step limit. -/
def stepLimitField : String := "step_limit"

/-- The field for the size of the tape. -/
def tapeSizeSchema : FieldSchema where
  name := tapeSizeField
  default := .int Tape.standardSize
  optional := false
  least := 1
  prepare := id

/-- The field for the step limit. -/
def stepLimitSchema : FieldSchema where
  name := stepLimitField
  default := .null
  optional := true
  least := 1
  prepare := Value.withoutLimit

/-- The schema of run configurations. -/
def schema : Schema where
  name := "RunConfig"
  fields := [tapeSizeSchema, stepLimitSchema]
  frozen := true
  forbidsOthers := true
  distinct := by decide
  isPublic := by decide

/-- The value that stands for a limit in a record. -/
def limitValue (limit : Option Int) : Value :=
  (limit.map Value.int).getD .null

/-- The values of the two fields of a configuration. -/
def values (c : RunConfig) : Value × Value :=
  (.int c.tapeSize, limitValue c.stepLimit)

/-- The configuration that a record holds, if it holds the numbers of one. -/
def ofRecord? (records : RecordLibrary) (r : records.Record) : Option RunConfig :=
  match records.get r tapeSizeField, records.get r stepLimitField with
  | .ok (.int tapeSize), .ok .null => some ⟨tapeSize, none⟩
  | .ok (.int tapeSize), .ok (.int stepLimit) => some ⟨tapeSize, some stepLimit⟩
  | _, _ => none

/-- The configuration that some named values describe. Each record of the schema holds the numbers
of a configuration, so there is always one to be read. -/
def ofFields (fields : Fields) : Except (List Issue) RunConfig :=
  (RecordLibrary.standard.make schema fields).map fun r =>
    (ofRecord? RecordLibrary.standard r).getD {}

end RunConfig

end TapeLang
