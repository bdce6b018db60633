import TapeLang.Error

/-!
# Raising errors by name

A caller may raise an error of the language on its own account: it names the kind, and gives a
message and particulars by their names. Each kind says what it takes and what it needs.
`FailureKind.raiseNamed` makes the error, or says what is wrong with what it was given: first a
name that stands for no kind, then a particular that is not taken, then a message that is not
taken, then particulars that are missing, and last an integer that the message cannot show.
-/

namespace TapeLang

/-- Particulars by their names; no name occurs twice. -/
abbrev Particulars := List (String × Value)

/-- The particular given under a name. -/
def Particulars.get (given : Particulars) (name : String) : Value :=
  (given.lookup name).getD .null

/-- Why an error cannot be raised. -/
inductive RaiseError
  /-- This kind takes no particulars. -/
  | takesNone (kind : FailureKind)
  /-- This kind takes no particular of this name. -/
  | unexpected (kind : FailureKind) (name : String)
  /-- Something is given twice. -/
  | repeated (kind : FailureKind) (name : String)
  /-- This kind takes no message; so many of its particulars are given. -/
  | takesNoMessage (kind : FailureKind) (given : Nat)
  /-- Particulars that this kind needs are missing. -/
  | missing (kind : FailureKind) (names : List String)
  /-- Nothing has this name. -/
  | unknownName (name : String)
  /-- What has the name given is no kind of error but something else. -/
  | notKind (word : String)
  /-- The message would show an integer that cannot be written. -/
  | unwritable
  deriving DecidableEq, Repr

namespace FailureKind

/-- All kinds. -/
def all : List FailureKind :=
  [general, unbalancedLoop, pointerOutOfBounds, stepLimitExceeded, cellValue, nestingTooDeep]

/-- The kind with this name. -/
def named? (name : String) : Option FailureKind :=
  all.find? fun kind => kind.name = name

/-- The particulars that a kind needs. -/
def needed : FailureKind → List String
  | unbalancedLoop => []
  | kind => kind.particulars

/-- Whether a kind takes a message. -/
def takesMessage : FailureKind → Bool
  | general | unbalancedLoop => true
  | pointerOutOfBounds | stepLimitExceeded | cellValue | nestingTooDeep => false

/-- The name under which a message can be given among the particulars. -/
def messageName : String := "message"

/-- The name of the error itself, which nobody can give. -/
def selfName : String := "self"

/-- What is wrong with a name among the particulars. -/
def objection? (kind : FailureKind) (hasMessage : Bool) (name : String) : Option RaiseError :=
  if name = selfName then some (.repeated kind name)
  else if kind.takesMessage && name = messageName then
    if hasMessage then some (.repeated kind name) else none
  else if kind.particulars.contains name then none
  else some (.unexpected kind name)

/-- What is wrong with a message and particulars. -/
def check (kind : FailureKind) (hasMessage : Bool) (given : Particulars) :
    Except RaiseError Unit :=
  let missing := kind.needed.filter fun name => (given.lookup name).isNone
  if kind = general then
    if given.isEmpty then .ok () else .error (.takesNone kind)
  else
    match given.findSome? fun g => kind.objection? hasMessage g.1 with
    | some e => .error e
    | none =>
      if hasMessage && !kind.takesMessage then .error (.takesNoMessage kind given.length)
      else if missing.isEmpty then .ok ()
      else .error (.missing kind missing)

/-- The error made of a message and particulars that have been checked. -/
def build (kind : FailureKind) (message : Option Value) (given : Particulars) : Failure :=
  match kind with
  | general => .general ((message.map Value.plain).getD "")
  | unbalancedLoop =>
    let message := (message.or (given.lookup messageName)).map Value.plain
    .unbalancedLoop (message.getD Failure.unbalanced) (given.get "line") (given.get "col")
  | pointerOutOfBounds =>
    .pointerOutOfBounds (given.get "pointer") (given.get "tape_size") (given.get "direction")
  | stepLimitExceeded => .stepLimitExceeded (given.get "limit")
  | cellValue => .cellValue (given.get "value") (given.get "pointer")
  | nestingTooDeep => .nestingTooDeep (given.get "stage")

/-- Raise an error of a kind. -/
def raise (kind : FailureKind) (message : Option Value) (given : Particulars) :
    Except RaiseError Failure :=
  match kind.check message.isSome given with
  | .error e => .error e
  | .ok () =>
    let f := kind.build message given
    let text := message.or (given.lookup messageName)
    if f.isWritable && text.all Value.isWritable then .ok f else .error .unwritable

/-- Names beside those of the kinds that stand for something, and the words for what that is. -/
def otherNames : List (String × String) :=
  [("__name__", "str"), ("__file__", "str"), ("__cached__", "str"), ("__package__", "str"),
    ("__doc__", "NoneType"), ("__dict__", "dict"), ("__builtins__", "dict"),
    ("__annotations__", "dict"), ("__spec__", "ModuleSpec"), ("__loader__", "SourceFileLoader"),
    ("annotations", "_Feature")]

/-- Raise an error of the kind with a name. -/
def raiseNamed (name : String) (message : Option Value) (given : Particulars) :
    Except RaiseError Failure :=
  match named? name, otherNames.lookup name with
  | some kind, _ => kind.raise message given
  | none, some word => .error (.notKind word)
  | none, none => .error (.unknownName name)

end FailureKind

namespace RaiseError

/-- Names in single quotes, as a list in a sentence. -/
def enumeration (names : List String) : String :=
  match names.map fun name => "'" ++ name ++ "'" with
  | [] => ""
  | [a] => a
  | [a, b] => a ++ " and " ++ b
  | several => String.intercalate ", " several.dropLast ++ ", and " ++ several.getLastD ""

/-- The ending of a noun that is counted. -/
def plural (n : Nat) : String :=
  if n = 1 then "" else "s"

/-- The complaint of the part of a kind that makes its errors. -/
def complaint (kind : FailureKind) (text : String) : String :=
  kind.name ++ ".__init__() " ++ text

/-- The wording of an error. -/
def message : RaiseError → String
  | takesNone kind => kind.name ++ "() takes no keyword arguments"
  | unexpected kind name => complaint kind s!"got an unexpected keyword argument '{name}'"
  | repeated kind name => complaint kind s!"got multiple values for argument '{name}'"
  | takesNoMessage kind 0 =>
    complaint kind "takes 1 positional argument but 2 were given"
  | takesNoMessage kind given =>
    complaint kind (s!"takes 1 positional argument but 2 positional arguments (and {given} " ++
      "keyword-only argument" ++ plural given ++ ") were given")
  | missing kind names =>
    let count := names.length
    complaint kind (s!"missing {count} required keyword-only argument" ++ plural count ++ ": " ++
      enumeration names)
  | unknownName name => s!"module 'bflite.errors' has no attribute '{name}'"
  | notKind word => s!"'{word}' object is not callable"
  | unwritable => Text.unwritable

end RaiseError

end TapeLang
