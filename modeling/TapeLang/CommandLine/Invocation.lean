import TapeLang.CommandLine.Directory
import TapeLang.CommandLine.IntArgument
import TapeLang.CommandLine.Options
import TapeLang.Samples

/-!
# Invocations

What the user asks for: a verb, the source of the program, and settings. `Invocation.ofArgs` reads
it off the arguments, or says what is wrong with them and which command complains.
-/

namespace TapeLang.CommandLine

/-- The name under which the program complains. -/
def programName : List Char :=
  "bflite".toList

/-- What can be done. -/
inductive Verb
  /-- Run a program. -/
  | run
  /-- Print the instruction tree of a program. -/
  | parse
  /-- List the bundled programs. -/
  | samples
  deriving DecidableEq, Repr

namespace Verb

/-- All verbs. -/
def all : List Verb :=
  [run, parse, samples]

/-- The word for a verb. -/
def word : Verb → Arg
  | run => "run".toList
  | parse => "parse".toList
  | samples => "samples".toList

/-- Whether a verb takes the source of a program. -/
def takesSource : Verb → Bool
  | run | parse => true
  | samples => false

end Verb

/-- The options of all verbs. -/
inductive Key
  /-- Show help. -/
  | help
  /-- Read the program from a file. -/
  | file
  /-- Take a bundled program. -/
  | sample
  /-- Report details. -/
  | debug
  /-- The number of cells of the tape. -/
  | tapeSize
  /-- The number of steps allowed. -/
  | stepLimit
  deriving DecidableEq, Repr

/-- The option that shows help. -/
def helpOption : OptionSpec Key :=
  ⟨.help, ["-h".toList, "--help".toList], false⟩

/-- The options for the source of a program. -/
def sourceOptions : List (OptionSpec Key) :=
  [⟨.file, ["--file".toList], true⟩, ⟨.sample, ["--sample".toList], true⟩,
    ⟨.debug, ["--debug".toList], false⟩]

/-- The options for the configuration of a run. -/
def configOptions : List (OptionSpec Key) :=
  [⟨.tapeSize, ["--tape-size".toList], true⟩, ⟨.stepLimit, ["--step-limit".toList], true⟩]

/-- The options of a verb. -/
def Verb.options : Verb → List (OptionSpec Key)
  | run => helpOption :: sourceOptions ++ configOptions
  | parse => helpOption :: sourceOptions
  | samples => [helpOption]

/-- Why there is nothing to do. -/
inductive Stop
  /-- The user wants help, on a verb if one is named. -/
  | help (verb : Option Verb)
  /-- The arguments are wrong, as a verb complains if one is named. -/
  | usage (verb : Option Verb) (e : UsageError)
  /-- A path is too long to be asked about. -/
  | longPath (path : Arg)
  deriving DecidableEq, Repr

/-- What is known of the value of an option. -/
inductive Setting (α : Type)
  /-- The option is not given. -/
  | absent
  /-- The option is given, and its value is lost. -/
  | lost
  /-- The option is given with this value. -/
  | value (a : α)
  deriving DecidableEq, Repr

/-- What has been selected by options and operands. -/
structure Selection where
  /-- The operands, which together are the program text. -/
  operands : List Arg := []
  /-- The path of a file with the program text. -/
  file : Setting Arg := .absent
  /-- A bundled program. -/
  sample : Setting Sample := .absent
  /-- Whether details are reported. -/
  debug : Bool := false
  /-- The size of the tape. -/
  tapeSize : Setting Int := .absent
  /-- The step limit. -/
  stepLimit : Setting Int := .absent
  deriving DecidableEq, Repr

/-- What the user asks for. -/
structure Invocation where
  /-- What to do. -/
  verb : Verb
  /-- What to do it with. -/
  selection : Selection
  deriving DecidableEq, Repr

/-- Note that the value of an option is lost. -/
def Selection.lose (s : Selection) : Key → Selection
  | .file => { s with file := .lost }
  | .sample => { s with sample := .lost }
  | .tapeSize => { s with tapeSize := .lost }
  | .stepLimit => { s with stepLimit := .lost }
  | .help | .debug => s

/-- Take the value of an option; `look` says what is at a path. -/
def Selection.take (look : Arg → Lookup) (verb : Verb) (s : Selection) (spec : OptionSpec Key)
    (value : Arg) : Except Stop Selection :=
  let wrong (e : UsageError) : Except Stop Selection := .error (.usage (some verb) e)
  match spec.key with
  | .file =>
    match look value with
    | .found _ => .ok { s with file := .value value }
    | .nothing => wrong (.noSuchPath spec.label value)
    | .tooLong => .error (.longPath value)
  | .sample =>
    match Sample.named (String.ofList value) with
    | .ok sample => .ok { s with sample := .value sample }
    | .error _ =>
      wrong (.badChoice spec.label value (Sample.all.map fun sample => sample.name.toList))
  | .tapeSize =>
    match readInt value with
    | some n => .ok { s with tapeSize := .value n }
    | none => wrong (.badInt spec.label value)
  | .stepLimit =>
    match readInt value with
    | some n => .ok { s with stepLimit := .value n }
    | none => wrong (.badInt spec.label value)
  | .help | .debug => .ok s

/-- Go through the occurrences in their order; the first complaint, or the wish for help, ends
it. -/
def Selection.collect (look : Arg → Lookup) (verb : Verb) (s : Selection) :
    List (Occurrence Key) → Except Stop Selection
  | [] => .ok s
  | .flag .help :: _ => .error (.help (some verb))
  | .flag .debug :: rest => collect look verb { s with debug := true } rest
  | .flag _ :: rest => collect look verb s rest
  | .operands args :: rest => collect look verb { s with operands := args } rest
  | .value spec none :: rest => collect look verb (s.lose spec.key) rest
  | .value spec (some value) :: rest =>
    match s.take look verb spec value with
    | .ok s => collect look verb s rest
    | .error stop => .error stop

/-- The invocation of a verb with its arguments, when other arguments have been left over before
it. -/
def Invocation.ofVerb (look : Arg → Lookup) (verb : Verb) (leftOver args : List Arg) :
    Except Stop Invocation :=
  let scanned := scan verb.options verb.takesSource args
  match Selection.collect look verb {} scanned.occurrences with
  | .error stop => .error stop
  | .ok selection =>
    match scanned.ending with
    | .error e => .error (.usage (some verb) e)
    | .ok more =>
      match leftOver ++ more with
      | [] => .ok ⟨verb, selection⟩
      | args => .error (.usage none (.unrecognized args))

/-- The name of the argument that holds the verb. -/
def verbLabel : Arg :=
  "cmd".toList

/-- The invocation whose verb is this word. -/
def Invocation.ofWord (look : Arg → Lookup) (leftOver : List Arg) (word : Arg) (args : List Arg) :
    Except Stop Invocation :=
  match Verb.all.find? fun verb => verb.word = word with
  | some verb => Invocation.ofVerb look verb leftOver args
  | none => .error (.usage none (.badChoice verbLabel word (Verb.all.map Verb.word)))

/-- Look for the verb: unknown options before it are left over. -/
def Invocation.seekVerb (look : Arg → Lookup) (leftOver : List Arg) :
    List Arg → Except Stop Invocation
  | [] => .error (.usage none (.missing verbLabel))
  | arg :: rest =>
    if arg = ['-', '-'] then
      if rest.isEmpty then .error (.usage none (.missing verbLabel))
      else Invocation.ofWord look leftOver arg rest
    else
      match classify [helpOption] arg with
      | .ok .operand | .ok .separator => Invocation.ofWord look leftOver arg rest
      | .ok .unknown => Invocation.seekVerb look (leftOver ++ [arg]) rest
      | .ok (.option spec spelling attached) =>
        match (scanFlag [helpOption] spec spelling attached).ending with
        | .ok _ => .error (.help none)
        | .error e => .error (.usage none e)
      | .error e => .error (.usage none e)

/-- The invocation that some arguments stand for. -/
def Invocation.ofArgs (look : Arg → Lookup) (args : List Arg) : Except Stop Invocation :=
  Invocation.seekVerb look [] args

namespace Stop

/-- The name of the command that complains. -/
def complainer : Option Verb → List Char
  | none => programName
  | some verb => programName ++ ' ' :: verb.word

/-- The line on what is wrong with the arguments. -/
def complaint (verb : Option Verb) (e : UsageError) : List Char :=
  complainer verb ++ ": error: ".toList ++ e.message

/-- The help on a verb, or on all of them. -/
def helpText (verb : Option Verb) : List Char :=
  let options := match verb with
    | none => [helpOption]
    | some verb => verb.options
  let words := match verb with
    | none => List.intercalate ['|'] (Verb.all.map Verb.word)
    | some verb => if verb.takesSource then "[PROGRAM ...]".toList else []
  "usage: ".toList ++ complainer verb ++
    options.flatMap (fun o => " [".toList ++ o.label ++ [']']) ++ ' ' :: words

end Stop

end TapeLang.CommandLine
