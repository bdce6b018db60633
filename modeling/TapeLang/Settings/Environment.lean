/-!
# Environment variables

The variables that settings are taken from and settings files fill. A variable has a name and a
value; neither may hold the null character, and the name may not hold an equals sign nor be empty.
-/

namespace TapeLang

/-- The environment variables, each at most once. -/
structure Environment where
  /-- Names and values. -/
  entries : List (List Char × List Char) := []
  deriving DecidableEq, Repr

/-- Why a variable cannot be set. -/
inductive VariableError
  /-- The name or the value holds the null character. -/
  | nullCharacter
  /-- The name holds an equals sign. -/
  | badName
  /-- The name is empty. -/
  | noName
  deriving DecidableEq, Repr

/-- The wording of an error. -/
def VariableError.message : VariableError → String
  | nullCharacter => "embedded null byte"
  | badName => "illegal environment variable name"
  | noName => "[Errno 22] Invalid argument"

namespace Environment

/-- The value of a variable; an empty value is a value. -/
def get? (env : Environment) (name : List Char) : Option (List Char) :=
  (env.entries.find? fun v => v.1 = name).map Prod.snd

/-- Remove a variable. -/
def unset (env : Environment) (name : List Char) : Environment :=
  ⟨env.entries.filter fun v => v.1 ≠ name⟩

/-- Give a variable a value. -/
def set (env : Environment) (name value : List Char) : Environment :=
  ⟨(name, value) :: (env.unset name).entries⟩

/-- What keeps a variable from being set. -/
def obstacle? (name value : List Char) : Option VariableError :=
  if name.contains '\x00' || value.contains '\x00' then some .nullCharacter
  else if name.contains '=' then some .badName
  else if name.isEmpty then some .noName
  else none

/-- Give a variable a value, if it can be set. -/
def set? (env : Environment) (name value : List Char) : Except VariableError Environment :=
  match obstacle? name value with
  | some e => .error e
  | none => .ok (env.set name value)

/-- Give variables that are not set their values, one after the other; a name without a value is
passed over. The first variable that cannot be set ends it. -/
def fill (env : Environment) :
    List (List Char × Option (List Char)) → Environment × Option VariableError
  | [] => (env, none)
  | (_, none) :: rest => env.fill rest
  | (name, some value) :: rest =>
    match env.get? name, env.set? name value with
    | some _, _ => env.fill rest
    | none, .error e => (env, some e)
    | none, .ok env => env.fill rest

end Environment

end TapeLang
