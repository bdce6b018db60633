import TapeLang.Value.Basic

/-!
# Schemas of records

A record holds values under the names of fields, and its schema says which fields these are. Records
are made, read and changed by a library. `RecordLibrary` is what such a library offers, and
`RecordLibrary.Lawful` is what is known of every one of them: how offered values are checked against
a schema (`Schema.issues`), what a record then holds (`FieldSchema.outcome`), and that a frozen one
stays as it is. How a value is converted to an integer is left to the library, apart from integers.
-/

namespace TapeLang

/-- What is wrong with a field. -/
inductive IssueKind
  /-- The value is of a kind that stands for no integer. -/
  | notInt
  /-- The text does not spell an integer. -/
  | notIntText
  /-- The number is too large for its kind. -/
  | tooLarge
  /-- The number has a fractional part. -/
  | fractional
  /-- The number is infinite or undefined. -/
  | notFinite
  /-- The integer is less than this one. -/
  | tooSmall (least : Int)
  /-- There is no such field. -/
  | unknownField
  /-- The record cannot be changed. -/
  | frozen
  deriving DecidableEq, Repr

namespace IssueKind

/-- The code of an issue. -/
def code : IssueKind → String
  | notInt => "int_type"
  | notIntText => "int_parsing"
  | tooLarge => "int_parsing_size"
  | fractional => "int_from_float"
  | notFinite => "finite_number"
  | tooSmall _ => "greater_than_equal"
  | unknownField => "extra_forbidden"
  | frozen => "frozen_instance"

/-- The wording of an issue. -/
def message : IssueKind → String
  | notInt => "Input should be a valid integer"
  | notIntText => "Input should be a valid integer, unable to parse string as an integer"
  | tooLarge => "Unable to parse input string as an integer, exceeded maximum size"
  | fractional => "Input should be a valid integer, got a number with a fractional part"
  | notFinite => "Input should be a finite number"
  | tooSmall least => s!"Input should be greater than or equal to {least}"
  | unknownField => "Extra inputs are not permitted"
  | frozen => "Instance is frozen"

end IssueKind

/-- Something wrong with one field. -/
structure Issue where
  /-- The name of the field. -/
  field : String
  /-- What is wrong. -/
  kind : IssueKind
  /-- The value offered. -/
  input : Value
  deriving DecidableEq, Repr

/-- The issue of an outcome, if there is one. -/
def issueOf : Except Issue α → List Issue
  | .ok _ => []
  | .error issue => [issue]

/-- Named values, in the order in which they are offered; no name occurs twice. -/
abbrev Fields := List (String × Value)

/-- The value offered under a name. -/
def Fields.get? (fields : Fields) (name : String) : Option Value :=
  (fields.find? fun f => f.1 = name).map Prod.snd

/-! ## Fields -/

/-- The schema of a field that holds an integer. -/
structure FieldSchema where
  /-- The name of the field. -/
  name : String
  /-- What the field holds if nothing is offered for it; this is not checked. -/
  default : Value
  /-- Whether the field may also hold no value. -/
  optional : Bool
  /-- The least integer that the field may hold. -/
  least : Int
  /-- What becomes of an offered value before anything else is done with it. -/
  prepare : Value → Value

namespace FieldSchema

variable (toInt : Value → Except IssueKind Int) (f : FieldSchema)

/-- What the field holds if a value is offered for it, or what is wrong with the value. -/
def accept (v : Value) : Except IssueKind Value :=
  if f.optional && f.prepare v = .null then .ok .null
  else
    match toInt (f.prepare v) with
    | .ok n => if n < f.least then .error (.tooSmall f.least) else .ok (.int n)
    | .error kind => .error kind

/-- What the field holds in a record that is made from these values, or what is wrong with the one
that is offered for it. -/
def outcome (given : Fields) : Except Issue Value :=
  match given.get? f.name with
  | none => .ok f.default
  | some v =>
    match f.accept toInt v with
    | .ok w => .ok w
    | .error kind => .error ⟨f.name, kind, f.prepare v⟩

end FieldSchema

/-! ## Records -/

/-- Whether a name is private to a record. -/
def isPrivateName (name : String) : Bool :=
  name.toList.head? = some '_'

/-- The schema of a record. -/
structure Schema where
  /-- The name of the schema. -/
  name : String
  /-- The fields, in the order in which they are declared. -/
  fields : List FieldSchema
  /-- Whether a record stays as it is. -/
  frozen : Bool
  /-- Whether other names than those of the fields are refused. -/
  forbidsOthers : Bool
  /-- No two fields have the same name. -/
  distinct : (fields.map FieldSchema.name).Nodup
  /-- The name of no field is private. -/
  isPublic : ∀ f ∈ fields, isPrivateName f.name = false

namespace Schema

variable (toInt : Value → Except IssueKind Int) (s : Schema)

/-- Whether a field has this name. -/
def declares (name : String) : Bool :=
  s.fields.any fun f => f.name = name

/-- One issue for every value under a name that no field has, if such names are refused. -/
def unknown (given : Fields) : List Issue :=
  if s.forbidsOthers then
    (given.filter fun g => !s.declares g.1).map fun g => ⟨g.1, .unknownField, g.2⟩
  else []

/-- All that is wrong with some named values: first what is wrong with the fields, in the order in
which they are declared, and then the names that no field has, in the order in which they are
offered. -/
def issues (given : Fields) : List Issue :=
  (s.fields.flatMap fun f => issueOf (f.outcome toInt given)) ++ s.unknown given

end Schema

/-- Why something under a name cannot be read or assigned. -/
inductive AccessError
  /-- What is given as the name, of the kind given, is no text. -/
  | notName (kindWord : String)
  /-- The record is frozen. -/
  | frozen (issue : Issue)
  /-- There is no such field. -/
  | noField (name : String)
  /-- The value, of the kind given, is no class. -/
  | notClass (kindWord : String)
  /-- The value, of the kind given, is no dictionary. -/
  | notDictionary (kindWord : String)
  /-- Nothing can be read under this name. -/
  | lost (name : String)
  /-- What has the name is computed. -/
  | noSetter (name : String)
  /-- What has the name cannot be written. -/
  | notWritable (name : String)
  deriving DecidableEq, Repr

/-- The wording of an error, for a record of a schema with this name; that of a frozen record is
that of its issue. -/
def AccessError.message (schemaName : String) : AccessError → String
  | notName kind => s!"attribute name must be string, not '{kind}'"
  | frozen issue => issue.kind.message
  | noField name => "\"" ++ schemaName ++ "\" object has no field \"" ++ name ++ "\""
  | notClass kind => s!"__class__ must be set to a class, not '{kind}' object"
  | notDictionary kind => s!"__dict__ must be set to a dictionary, not a '{kind}'"
  | lost name => s!"'{schemaName}' object has no attribute '{name}'"
  | noSetter name => s!"property '{name}' of '{schemaName}' object has no setter"
  | notWritable name => s!"attribute '{name}' of '{schemaName}' objects is not writable"

/-- What a library of records offers. -/
structure RecordLibrary where
  /-- The records. -/
  Record : Type
  /-- The integer that a value stands for. -/
  toInt : Value → Except IssueKind Int
  /-- The record of a schema that is made from named values. -/
  make : Schema → Fields → Except (List Issue) Record
  /-- What is read under a name. -/
  get : Record → String → Except AccessError Value
  /-- The record of a schema after an assignment, and why the assignment fails. -/
  assign : Schema → Record → String → Value → Record × Option AccessError

/-- What is known of a library of records. -/
structure RecordLibrary.Lawful (records : RecordLibrary) : Prop where
  /-- An integer stands for itself. -/
  toInt_int : ∀ n, records.toInt (.int n) = .ok n
  /-- A record is refused just if something is wrong, and then all that is wrong is reported. -/
  make_error_iff : ∀ s given issues, records.make s given = .error issues ↔
    issues ≠ [] ∧ issues = s.issues records.toInt given
  /-- A record that has been made holds for each field what has come of it. -/
  get_make : ∀ s given r, records.make s given = .ok r → ∀ f ∈ s.fields, ∀ v,
    f.outcome records.toInt given = .ok v → records.get r f.name = .ok v
  /-- Assigning to a field of a frozen record fails, and leaves the record as it is. -/
  assign_frozen : ∀ s, s.frozen = true → ∀ r, ∀ f ∈ s.fields, ∀ v,
    records.assign s r f.name v = (r, some (.frozen ⟨f.name, .frozen, v⟩))
  /-- A field of any other record can be assigned, and then holds the value. -/
  assign_open : ∀ s, s.frozen = false → ∀ r, ∀ f ∈ s.fields, ∀ v,
    (records.assign s r f.name v).2 = none ∧
      records.get (records.assign s r f.name v).1 f.name = .ok v

end TapeLang
