import TapeLang.RunConfig.IntText
import TapeLang.RunConfig.Schema

/-!
# Records that are dictionaries

A library of records in which a record is a dictionary from names to values
(`RecordLibrary.standard`). A value is converted to an integer as leniently as its kind allows. A
name that begins with an underscore is private: a caller may note something under it, and that is no
part of the record. Some private names are reserved for what every record has already, and they are
refused for reasons of their own; only the dictionary can be replaced as a whole.
-/

namespace TapeLang

namespace Value

/-- A fraction has to be less than this, apart from its sign. -/
def fractionBound : Int := 0x8000000000000000

/-- The integer that a value stands for: a truth value is zero or one, a fraction has to be whole
and not too large, and a text is read leniently. -/
def toInt : Value → Except IssueKind Int
  | null | list _ | record _ => .error .notInt
  | bool b => .ok (if b then 1 else 0)
  | int n => .ok n
  | binary b =>
    match b.toInt? with
    | some n => if -fractionBound < n ∧ n < fractionBound then .ok n else .error .tooLarge
    | none => .error .fractional
  | infinite _ | undefined => .error .notFinite
  | text cs =>
    match IntText.ofLenient cs with
    | .ok n => .ok n
    | .error .malformed => .error .notIntText
    | .error .tooLong => .error .tooLarge

end Value

/-- What a reserved name stands for. -/
inductive Reserved
  /-- The class of a record. -/
  | kind
  /-- The dictionary that holds the fields of a record. -/
  | dictionary
  /-- Something computed from a record. -/
  | computed
  /-- Something about a record that cannot be written. -/
  | readOnly
  deriving DecidableEq, Repr

namespace Reserved

/-- The reserved names, and what they stand for. -/
def names : List (String × Reserved) :=
  [("__class__", kind), ("__dict__", dictionary), ("__fields__", computed),
    ("__fields_set__", computed), ("__weakref__", readOnly)]

/-- What a name stands for, if it is reserved. -/
def ofName? (name : String) : Option Reserved :=
  (names.find? fun entry => entry.1 = name).map Prod.snd

end Reserved

namespace Fields

/-- Put a value under a name, which keeps its place if it is there. -/
def put (name : String) (value : Value) : Fields → Fields
  | [] => [(name, value)]
  | f :: rest => if f.1 = name then (name, value) :: rest else f :: put name value rest

/-- What can be read under a name. -/
def read (fields : Fields) (name : String) : Except AccessError Value :=
  match fields.get? name with
  | some v => .ok v
  | none => .error (.lost name)

/-- Assign a value to a reserved name. -/
def assignReserved (fields : Fields) (name : String) (value : Value) :
    Reserved → Fields × Option AccessError
  | .kind => (fields, some (.notClass value.kindWord))
  | .dictionary =>
    match value with
    | .record entries => (entries.toList, none)
    | value => (fields, some (.notDictionary value.kindWord))
  | .computed => (fields, some (.noSetter name))
  | .readOnly => (fields, some (.notWritable name))

/-- Assign a value to a name of a record of this schema. A note under a private name that is not
reserved leaves the fields as they are. -/
def assign (s : Schema) (fields : Fields) (name : String) (value : Value) :
    Fields × Option AccessError :=
  if isPrivateName name then
    match Reserved.ofName? name with
    | none => (fields, none)
    | some reserved => fields.assignReserved name value reserved
  else if s.frozen then (fields, some (.frozen ⟨name, .frozen, value⟩))
  else if s.declares name then (fields.put name value, none)
  else (fields, some (.noField name))

/-- Assign a value to what is given as a name. -/
def assignAny (s : Schema) (fields : Fields) (name value : Value) :
    Fields × Option AccessError :=
  match name with
  | .text cs => fields.assign s (String.ofList cs) value
  | name => (fields, some (.notName name.kindWord))

end Fields

/-- The field with what has come of it, unless something is wrong. -/
def FieldSchema.entryOf? (f : FieldSchema) (given : Fields) : Option (String × Value) :=
  (f.outcome Value.toInt given).toOption.map fun v => (f.name, v)

/-- Make a record from named values, or say all that is wrong with them. -/
def Schema.make (s : Schema) (given : Fields) : Except (List Issue) Fields :=
  match s.issues Value.toInt given with
  | [] => .ok (s.fields.filterMap fun f => f.entryOf? given)
  | issues => .error issues

/-- The records that are dictionaries. -/
def RecordLibrary.standard : RecordLibrary where
  Record := Fields
  toInt := Value.toInt
  make := Schema.make
  get := Fields.read
  assign := Fields.assign

end TapeLang
