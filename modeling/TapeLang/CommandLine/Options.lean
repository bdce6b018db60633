import TapeLang.Text.Digit
import TapeLang.Text.Quoted

/-!
# Options and operands

How the arguments of a command are told apart. An option is known by one of its spellings, or by
the beginning of a long spelling that no other option shares; its value stands behind an equals
sign or is the next argument. Everything behind `--` is an operand, and so is an argument that
begins with a dash but looks like a negative number or holds a space. Operands come in one group:
those behind a later option are left over, as are unknown options.

`scan` turns arguments into a list of occurrences in their order. What comes first decides which
of several errors is reported, so the occurrences before an error are kept (`Scan.ending`).
-/

namespace TapeLang.CommandLine

/-- An argument. It consists of characters: what no text stands for is left out. -/
abbrev Arg := List Char

/-- An option: `key` tells the options of a command apart. -/
structure OptionSpec (κ : Type) where
  /-- Which option this is. -/
  key : κ
  /-- Its spellings; a spelling with one dash is one letter long and takes no value. -/
  spellings : List Arg
  /-- Whether it takes a value. -/
  takesValue : Bool

/-- The name of an option in messages. -/
def OptionSpec.label {κ : Type} (spec : OptionSpec κ) : Arg :=
  List.intercalate ['/'] spec.spellings

/-- What is wrong with some arguments. -/
inductive UsageError
  /-- The beginning of a spelling fits several options. -/
  | ambiguous (arg : Arg) (candidates : List Arg)
  /-- An option comes without its value. -/
  | missingValue (label : Arg)
  /-- An option that takes no value comes with one. -/
  | unusedValue (label value : Arg)
  /-- A value is no integer. -/
  | badInt (label value : Arg)
  /-- Nothing is at the path. -/
  | noSuchPath (label path : Arg)
  /-- A value is none of those allowed. -/
  | badChoice (label value : Arg) (choices : List Arg)
  /-- An argument is missing. -/
  | missing (label : Arg)
  /-- Arguments are left over. -/
  | unrecognized (args : List Arg)
  deriving DecidableEq, Repr

namespace UsageError

/-- The wording of an error. -/
def message : UsageError → List Char
  | ambiguous arg candidates =>
    "ambiguous option: ".toList ++ arg ++ " could match ".toList ++
      List.intercalate ", ".toList candidates
  | missingValue label => argument label "expected one argument".toList
  | unusedValue label value =>
    argument label ("ignored explicit argument ".toList ++ Text.quoted value)
  | badInt label value => argument label ("invalid int value: ".toList ++ Text.quoted value)
  | noSuchPath label path => argument label ("path not found: ".toList ++ path)
  | badChoice label value choices =>
    argument label ("invalid choice: ".toList ++ Text.quoted value ++ " (choose from ".toList ++
      List.intercalate ", ".toList (choices.map Text.quoted) ++ ")".toList)
  | missing label => "the following arguments are required: ".toList ++ label
  | unrecognized args =>
    "unrecognized arguments: ".toList ++ List.intercalate [' '] args
where
  /-- A complaint about one argument. -/
  argument (label complaint : List Char) : List Char :=
    "argument ".toList ++ label ++ ": ".toList ++ complaint

end UsageError

/-- What an argument is. -/
inductive ArgKind (κ : Type)
  /-- An operand. -/
  | operand
  /-- The mark behind which there are only operands. -/
  | separator
  /-- An option, maybe with a value attached to it. -/
  | option (spec : OptionSpec κ) (spelling : Arg) (attached : Option Arg)
  /-- It looks like an option, and there is none like it. -/
  | unknown

/-! ## Telling arguments apart -/

/-- Whether some characters are digits of any script. -/
def allDigits (text : List Char) : Bool :=
  text.all fun c => (Text.digit? c).isSome

/-- Whether an argument looks like a negative number: a dash, digits, and maybe a point with
digits behind it. A line feed may follow. -/
def isNegativeNumber (arg : Arg) : Bool :=
  let arg := if arg.getLast? = some '\n' then arg.dropLast else arg
  match arg with
  | '-' :: number =>
    let whole := number.takeWhile (· ≠ '.')
    match number.dropWhile (· ≠ '.') with
    | [] => !whole.isEmpty && allDigits whole
    | _ :: fraction => allDigits whole && !fraction.isEmpty && allDigits fraction
  | _ => false

section

variable {κ : Type}

/-- The part of an argument before its first equals sign, and the value behind it. -/
def splitValue (arg : Arg) : Arg × Option Arg :=
  match arg.dropWhile (· ≠ '=') with
  | [] => (arg, none)
  | _ :: value => (arg.takeWhile (· ≠ '='), some value)

/-- The option with this spelling. -/
def spelled? (specs : List (OptionSpec κ)) (spelling : Arg) : Option (OptionSpec κ) :=
  specs.find? fun spec => spec.spellings.contains spelling

/-- How an argument can be read as one of the spellings of an option: as the beginning of a long
spelling, or as a letter with its value. -/
def readAs (arg : Arg) (spec : OptionSpec κ) (spelling : Arg) :
    Option (OptionSpec κ × Arg × Option Arg) :=
  if arg.take 2 = ['-', '-'] then
    let (beginning, attached) := splitValue arg
    if beginning.isPrefixOf spelling then some (spec, spelling, attached) else none
  else if spelling = arg.take 2 then some (spec, spelling, some (arg.drop 2))
  else if arg.isPrefixOf spelling then some (spec, spelling, none)
  else none

/-- All ways to read an argument as an abbreviated option. -/
def candidates (specs : List (OptionSpec κ)) (arg : Arg) :
    List (OptionSpec κ × Arg × Option Arg) :=
  specs.flatMap fun spec => spec.spellings.filterMap (readAs arg spec)

/-- What an argument is that is no known option by its beginning either. -/
def classifyRest (arg : Arg) : ArgKind κ :=
  if isNegativeNumber arg || arg.contains ' ' then .operand else .unknown

/-- What an argument is that begins with a dash and is longer than that. -/
def classifyDashed (specs : List (OptionSpec κ)) (arg : Arg) : Except UsageError (ArgKind κ) :=
  match spelled? specs arg with
  | some spec => .ok (.option spec arg none)
  | none =>
    match splitValue arg with
    | (beginning, some attached) =>
      match spelled? specs beginning with
      | some spec => .ok (.option spec beginning (some attached))
      | none => abbreviated
    | (_, none) => abbreviated
where
  /-- An argument that is no complete spelling. -/
  abbreviated : Except UsageError (ArgKind κ) :=
    match candidates specs arg with
    | [] => .ok (classifyRest arg)
    | [(spec, spelling, attached)] => .ok (.option spec spelling attached)
    | several => .error (.ambiguous arg (several.map fun c => c.2.1))

/-- What an argument is. -/
def classify (specs : List (OptionSpec κ)) (arg : Arg) : Except UsageError (ArgKind κ) :=
  match arg with
  | '-' :: _ :: _ => classifyDashed specs arg
  | _ => .ok .operand

/-- What each argument is, up to the separator and behind it. -/
def classifyAll (specs : List (OptionSpec κ)) :
    List Arg → Except UsageError (List (Arg × ArgKind κ))
  | [] => .ok []
  | arg :: rest =>
    if arg = ['-', '-'] then .ok ((arg, .separator) :: rest.map fun a => (a, .operand))
    else
      match classify specs arg, classifyAll specs rest with
      | .ok kind, .ok kinds => .ok ((arg, kind) :: kinds)
      | .error e, _ => .error e
      | _, .error e => .error e

/-! ## Occurrences -/

/-- Something that has been found among the arguments. -/
inductive Occurrence (κ : Type)
  /-- An option without a value. -/
  | flag (key : κ)
  /-- An option with its value; it is lost if it is the separator. -/
  | value (spec : OptionSpec κ) (value : Option Arg)
  /-- The operands. -/
  | operands (args : List Arg)

/-- The result of a scan. -/
structure Scan (κ : Type) where
  /-- What has been found, in the order of the arguments. -/
  occurrences : List (Occurrence κ)
  /-- The arguments left over, or the error at which the scan has stopped. -/
  ending : Except UsageError (List Arg)

namespace Scan

/-- A scan that has found something before. -/
def found (occurrence : Occurrence κ) (s : Scan κ) : Scan κ :=
  { s with occurrences := occurrence :: s.occurrences }

/-- A scan that has left arguments over before. -/
def leftOver (args : List Arg) (s : Scan κ) : Scan κ :=
  { s with ending := s.ending.map (args ++ ·) }

/-- A scan that has stopped. -/
def stopped (e : UsageError) : Scan κ :=
  ⟨[], .error e⟩

end Scan

/-- The flags of an argument of a dash and letters, when the first letter is that of `spec`: every
further letter has to be a flag too. If one is not, the argument as a whole is refused. -/
def readFlags (specs : List (OptionSpec κ)) (spec : OptionSpec κ) :
    Arg → Except UsageError (List κ)
  | [] => .error (.unusedValue spec.label [])
  | c :: rest =>
    match spelled? specs ['-', c], rest with
    | none, _ => .error (.unusedValue spec.label (c :: rest))
    | some next, [] => .ok [spec.key, next.key]
    | some next, rest => (readFlags specs next rest).map (spec.key :: ·)

/-- A flag, maybe with something attached, which has to be further flags. -/
def scanFlag (specs : List (OptionSpec κ)) (spec : OptionSpec κ) (spelling : Arg) :
    Option Arg → Scan κ
  | none => ⟨[.flag spec.key], .ok []⟩
  | some attached =>
    if spelling.take 2 = ['-', '-'] then .stopped (.unusedValue spec.label attached)
    else
      match readFlags specs spec attached with
      | .ok keys => ⟨keys.map .flag, .ok []⟩
      | .error e => .stopped e

/-- A value attached to its option: the separator is taken out of it like out of the operands. -/
def attachedValue (value : Arg) : Option Arg :=
  if value = ['-', '-'] then none else some value

/-- Two scans, one behind the other. -/
def Scan.append (first : Scan κ) (second : Scan κ) : Scan κ :=
  match first.ending with
  | .error e => ⟨first.occurrences, .error e⟩
  | .ok args => ⟨first.occurrences ++ second.occurrences, second.ending.map (args ++ ·)⟩

/-- Where a scan stands with its operands. -/
inductive Operands
  /-- No operand has come yet. -/
  | awaited
  /-- These operands have come, the last one first, and more may follow. -/
  | coming (args : List Arg)
  /-- The operands are complete, or none are taken. -/
  | closed

/-- The operands of a group: the first separator among them is no operand. -/
def group (args : List Arg) : List Arg :=
  args.erase ['-', '-']

/-- The group of operands that ends here, if one does. -/
def Operands.close (operands : Operands) (s : Scan κ) : Scan κ :=
  match operands with
  | .coming args => s.found (.operands (group args.reverse))
  | .awaited | .closed => s

/-- Where a scan stands behind an option. -/
def Operands.afterOption : Operands → Operands
  | .coming _ => .closed
  | operands => operands

/-- Scan arguments whose kinds are known. -/
def scanKinds (specs : List (OptionSpec κ)) (operands : Operands) :
    List (Arg × ArgKind κ) → Scan κ
  | [] =>
    match operands with
    | .awaited => ⟨[.operands []], .ok []⟩
    | operands => operands.close ⟨[], .ok []⟩
  | (arg, .operand) :: rest | (arg, .separator) :: rest =>
    match operands with
    | .awaited => scanKinds specs (.coming [arg]) rest
    | .coming args => scanKinds specs (.coming (arg :: args)) rest
    | .closed => (scanKinds specs .closed rest).leftOver [arg]
  | (arg, .unknown) :: rest =>
    operands.close ((scanKinds specs operands.afterOption rest).leftOver [arg])
  | (_, .option spec spelling attached) :: rest =>
    operands.close <|
      -- A value that is not attached has to be the next argument, and that has to be an operand.
      if spec.takesValue then
        match attached, rest with
        | some value, rest =>
          (scanKinds specs operands.afterOption rest).found (.value spec (attachedValue value))
        | none, (value, .operand) :: rest' =>
          (scanKinds specs operands.afterOption rest').found (.value spec (some value))
        | none, _ => .stopped (.missingValue spec.label)
      else
        (scanFlag specs spec spelling attached).append
          (scanKinds specs operands.afterOption rest)

/-- Scan the arguments of a command, which may take operands. -/
def scan (specs : List (OptionSpec κ)) (takesOperands : Bool) (args : List Arg) : Scan κ :=
  match classifyAll specs args with
  | .ok kinds => scanKinds specs (if takesOperands then .awaited else .closed) kinds
  | .error e => .stopped e

end

end TapeLang.CommandLine
