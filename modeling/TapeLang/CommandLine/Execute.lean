import TapeLang.CommandLine.Invocation
import TapeLang.Evaluate
import TapeLang.Program.Measure
import TapeLang.Program.Sexpr
import TapeLang.RunConfig.Report
import TapeLang.Settings.Standard
import TapeLang.Text.Utf8

/-!
# Executing an invocation

From arguments, environment and files to what is printed. `Request.plan` does everything but run
a program: it ends either in a report or in a `Job`, a program ready to run. `Request.execute`
also runs the job, with a text as standard input, and reports on it.
-/

namespace TapeLang.CommandLine

/-- A fault that no report is worded for. -/
inductive Fault
  /-- The instruction tree is nested too deeply to be printed. -/
  | overflow
  /-- The instruction tree holds an instruction of an unknown kind. -/
  | unknownKind (name : String)
  /-- A file is not UTF-8. -/
  | undecodable (e : Text.Utf8Error)
  /-- A directory cannot be read as a file. -/
  | isDirectory (path : List Char)
  /-- A path is too long to be asked about. -/
  | longPath (path : List Char)
  /-- The only source selected is a file whose path is lost. -/
  | lostFile
  /-- The only source selected is a bundled program whose name is lost. -/
  | lostSample
  /-- The variables cannot be filled from a settings file. -/
  | settings (e : FileError)
  /-- The tape cannot be made. -/
  | tape (e : BadTapeSize)
  /-- A run has failed for a cause that no program text has. -/
  | run (e : RunError)
  deriving DecidableEq, Repr

/-- The wording of a fault, if it has one. -/
def Fault.message : Fault → Option String
  | overflow => SexprError.message .tooDeep
  | unknownKind name => SexprError.message (.unknown name)
  | undecodable e => some e.message
  | isDirectory path => some (about "[Errno 21] Is a directory" path)
  | longPath path => some (about "[Errno 36] File name too long" path)
  | lostFile => some "'list' object has no attribute 'read_text'"
  | lostSample => some "unhashable type: 'list'"
  | settings e => some e.message
  | tape e => some e.message
  | run e => some e.message
where
  /-- A complaint about a path. -/
  about (complaint : String) (path : List Char) : String :=
    complaint ++ ": " ++ String.ofList (Text.quoted (Text.normalPath path))

/-- How an invocation ends. -/
inductive Exit
  /-- With a status. -/
  | status (code : Nat)
  /-- With a fault. -/
  | fault (f : Fault)
  /-- Not within the steps allowed. -/
  | unfinished
  deriving DecidableEq, Repr

/-- What an invocation prints, and how it ends. -/
structure Report where
  /-- What is written to standard output. -/
  stdout : List Char := []
  /-- The lines written to standard error. -/
  stderr : List (List Char) := []
  /-- How it ends. -/
  ending : Exit
  deriving DecidableEq, Repr

/-- What an invocation is given. -/
structure Request where
  /-- The arguments. -/
  args : List Arg
  /-- The environment variables. -/
  environment : Environment := {}
  /-- The settings file that is common to all directories. -/
  common : Option (List UInt8) := none
  /-- The files that can be reached from the current directory. -/
  directory : Directory := {}
  /-- The settings files in the directories above the current one. -/
  above : List (Option (List UInt8)) := []
  deriving DecidableEq, Repr

/-- A program ready to run. -/
structure Job where
  /-- The program. -/
  program : Program
  /-- How to run it. -/
  config : RunConfig
  /-- Whether details are reported. -/
  debug : Bool
  deriving DecidableEq, Repr

/-- What remains to be done. -/
inductive Plan
  /-- Nothing. -/
  | report (r : Report)
  /-- Run a program; these lines have been written to standard error. -/
  | job (log : List (List Char)) (j : Job)
  deriving DecidableEq, Repr

/-! ## Lines on standard error -/

/-- A line that is written only if details are wanted, on behalf of some part. -/
def detailOf (debug : Bool) (part : String) (message : String) : List (List Char) :=
  if debug then [("DEBUG " ++ part ++ ": " ++ message).toList] else []

/-- A line on what the program itself does, written only if details are wanted. -/
def detail (debug : Bool) (part : String) (message : String) : List (List Char) :=
  detailOf debug (String.ofList programName ++ "." ++ part) message

/-- The part that reads settings files. -/
def settingsPart : String :=
  "dotenv.main"

/-- The line on a broken statement of a settings file. -/
def brokenLine (line : Nat) : List Char :=
  ("WARNING " ++ settingsPart ++
    s!": python-dotenv could not parse statement starting at line {line}").toList

/-- The lines on the settings files that are written before settings are loaded. -/
def settingsLines (debug : Bool) (w : Workspace) : List (List Char) :=
  if w.environment.disablesFiles then
    detailOf debug settingsPart
      "python-dotenv: .env loading disabled by PYTHON_DOTENV_DISABLED environment variable"
  else (DotEnv.brokenLines w.statements).map brokenLine

/-- The line on an error. -/
def errorLine (message : String) : List Char :=
  "error: ".toList ++ message.toList

/-- The detail on a program that has been read. -/
def parsedDetail (debug : Bool) (text : List Char) (p : Program) : List (List Char) :=
  let chars := text.length
  let instructions := p.length
  detail debug "parser" s!"parsed {chars} chars into {instructions} top-level instructions"

/-- The report on an error of the language while a program is read or run. -/
def failureLines (debug : Bool) (f : Failure) : List (List Char) :=
  detail debug "cli" ("run aborted: " ++ f.name) ++ [errorLine f.message]

/-! ## Planning -/

namespace Request

/-- The bytes of the settings file that applies. -/
def settingsFile (r : Request) : Option (List UInt8) :=
  match r.common with
  | some bytes => some bytes
  | none =>
    match r.directory.find? Workspace.fileName with
    | .found (.file bytes) => some bytes
    | _ => r.above.findSome? id

/-- The workspace from which settings are loaded. A file that is not read may hold anything. -/
def workspace (r : Request) : Except Text.Utf8Error Workspace :=
  match r.environment.disablesFiles, r.settingsFile with
  | false, some bytes =>
    (Text.decode bytes).map fun text =>
      { environment := r.environment, common := some text }
  | _, _ => .ok { environment := r.environment }

/-- The complaint about a selection that does not name exactly one source. -/
def noSingleSource : String :=
  "give exactly one of PROGRAM, --file or --sample"

/-- The report with which an invocation fails. -/
def failing (stderr : List (List Char)) : Report :=
  { stderr, ending := .status 1 }

/-- The report with which a fault ends an invocation. -/
def faulty (stderr : List (List Char)) (f : Fault) : Report :=
  { stderr, ending := .fault f }

/-- The text in a file that has been found before. -/
def fileText (r : Request) (path : List Char) : Except Report (List Char) :=
  match r.directory.find? path with
  | .found (.file bytes) =>
    match Text.decode bytes with
    | .ok text => .ok (Text.unifyBreaks text)
    | .error e => .error (faulty [] (.undecodable e))
  | _ => .error (faulty [] (.isDirectory path))

/-- The text of the program, read from the only source selected. -/
def sourceText (r : Request) (s : Selection) : Except Report (List Char) :=
  match s.operands, s.file, s.sample with
  | operands@(_ :: _), .absent, .absent => .ok operands.flatten
  | [], .value path, .absent => r.fileText path
  | [], .lost, .absent => .error (faulty [] .lostFile)
  | [], .absent, .value sample => .ok sample.text
  | [], .absent, .lost => .error (faulty [] .lostSample)
  | _, _, _ => .error (failing [errorLine noSingleSource])

/-- Print the instruction tree of a text. -/
def planParse (bounds : Limits) (debug : Bool) (text : List Char) : Report :=
  match Program.ofTextWithin bounds.reading text with
  | .error e => failing [errorLine e.failure.message]
  | .ok p =>
    let stderr := parsedDetail debug text p
    match p.sexprWithin bounds.printing with
    | .ok tree => { stdout := tree ++ ['\n'], stderr, ending := .status 0 }
    | .error .tooDeep => faulty stderr .overflow
    | .error (.unknown name) => faulty stderr (.unknownKind name)

/-- The value that an option gives to a field. -/
def optionValue : Setting Int → Value
  | .absent => .null
  | .lost => .emptyList
  | .value n => .int n

/-- The values that options override. -/
def overrides (s : Selection) : Fields :=
  [(RunConfig.tapeSizeField, optionValue s.tapeSize),
    (RunConfig.stepLimitField, optionValue s.stepLimit)]

/-- The line on a configuration that is refused. -/
def refusalLine (issues : List Issue) : List Char :=
  "invalid configuration: ".toList ++ (RunConfig.report issues).toList

/-- Load the settings and read a text as the program to run. -/
def planRun (bounds : Limits) (r : Request) (s : Selection) (text : List Char) : Plan :=
  match r.workspace with
  | .error e => .report (faulty [] (.undecodable e))
  | .ok w =>
    let log := settingsLines s.debug w
    match (w.load (overrides s)).2 with
    | .error (.file e) => .report (faulty log (.settings e))
    | .error (.issues issues) => .report (failing (log ++ [refusalLine issues]))
    | .ok config =>
      match Program.ofTextWithin bounds.reading text with
      | .error e => .report (failing (log ++ failureLines s.debug e.failure))
      | .ok p => .job (log ++ parsedDetail s.debug text p) ⟨p, config, s.debug⟩

/-- The report on a stop before anything is done. -/
def stopReport : Stop → Report
  | .help verb => { stdout := Stop.helpText verb ++ ['\n'], ending := .status 0 }
  | .usage verb e => { stderr := [Stop.complaint verb e], ending := .status 2 }
  | .longPath path => faulty [] (.longPath path)

/-- The report that lists the bundled programs. -/
def sampleList : Report :=
  { stdout := Sample.all.flatMap fun s => s.name.toList ++ ['\n'], ending := .status 0 }

/-- Do everything but run a program. -/
def plan (bounds : Limits) (r : Request) : Plan :=
  match Invocation.ofArgs r.directory.find? r.args with
  | .error stop => .report (stopReport stop)
  | .ok ⟨.samples, _⟩ => .report sampleList
  | .ok ⟨.parse, s⟩ =>
    match r.sourceText s with
    | .error report => .report report
    | .ok text => .report (planParse bounds s.debug text)
  | .ok ⟨.run, s⟩ =>
    match r.sourceText s with
    | .error report => .report report
    | .ok text => r.planRun bounds s text

end Request

/-! ## Running -/

namespace Job

/-- The detail written before a run. -/
def startLines (j : Job) : List (List Char) :=
  let size := j.config.tapeSize
  let limit := match j.config.stepLimit with
    | some l => toString l
    | none => "None"
  detail j.debug "interpreter" s!"run start: tape_size={size} step_limit={limit}"

/-- The lines written after a run, and how it ends. -/
def conclusion (j : Job) : Ending → List (List Char) × Exit
  | .finished m =>
    let steps := m.steps
    let pointer := m.tape.pointer
    (detail j.debug "interpreter" s!"run done: {steps} steps, pointer={pointer}", .status 0)
  | .failed e _ =>
    match e.failure? with
    | some f => (failureLines j.debug f, .status 1)
    | none => ([], .fault (.run e))
  | .unfinished _ => ([], .unfinished)

end Job

namespace Request

/-- Carry out a request for at most `fuel` steps, with a text as standard input. -/
def execute (bounds : Limits) (fuel : Nat) (r : Request) (stdin : List Char) : Report :=
  match r.plan bounds with
  | .report report => report
  | .job log j =>
    let log := log ++ j.startLines
    let lines := Text.lines (Text.codePoints (Text.unifyBreaks stdin))
    match j.config.machine bounds.hasRoom lines with
    | .error e => faulty log (.tape e)
    | .ok m =>
      let ending := j.program.runClosed (some bounds.running) fuel m
      let (lines, exit) := j.conclusion ending
      { stdout := ending.machine.output, stderr := log ++ lines, ending := exit }

end Request

end TapeLang.CommandLine
