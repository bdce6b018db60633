import TapeLang.CommandLine.Execute

/-!
# The program

The command line on the real streams and files. Lines of input are read when the program asks for
them, and characters are written as they come; everything else is decided elsewhere.
-/

namespace TapeLang.CommandLine

/-- What is at a path, if it can be opened. -/
def entryAt (path : String) : IO (Option FileEntry) := do
  match ← (IO.FS.Handle.mk path .read).toBaseIO with
  | .error _ => return none
  | .ok handle =>
    match ← handle.readBinToEnd.toBaseIO with
    | .ok bytes => return some (.file bytes.toList)
    | .error _ => return some .directory

/-- The bytes of a file, if it can be read. -/
def bytesAt (path : String) : IO (Option (List UInt8)) := do
  match ← entryAt path with
  | some (.file bytes) => return some bytes
  | _ => return none

/-- A path and the paths of the directories through which it leads. -/
def pathsTo (path : List Char) : List (List Char) :=
  let steps := Text.pathSteps path
  (List.range steps.length).map fun n =>
    Text.pathRoot path ++ List.intercalate ['/'] (steps.take (n + 1))

/-- The paths that some arguments may name: an argument, or the part behind its equals sign. -/
def candidatePaths (args : List String) : List (List Char) :=
  Workspace.fileName :: args.flatMap fun arg =>
    match splitValue arg.toList with
    | (_, some value) => pathsTo arg.toList ++ pathsTo value
    | (_, none) => pathsTo arg.toList

/-- The variables that matter for a settings file: those of the configuration, and all that the
file binds or refers to. -/
def mentionedVariables (file : Option (List UInt8)) : List (List Char) :=
  let statements := match file.map Text.decode with
    | some (.ok text) => DotEnv.read text
    | _ => []
  Environment.disablingVariable :: tapeSizeVariable :: stepLimitVariable ::
    (DotEnv.pairs statements).flatMap fun p =>
      p.1 :: ((p.2.map referencesIn).getD []).map Reference.name

/-- The number of directories above the current one in which a settings file is looked for. -/
def levels : Nat := 40

/-- The request that some arguments make in this environment. -/
def gather (args : List String) : IO Request := do
  let mut entries : List (List Char × FileEntry) := []
  for path in candidatePaths args do
    if let some entry ← entryAt (String.ofList path) then
      entries := entries ++ [(path, entry)]
  let mut above : List (Option (List UInt8)) := []
  let mut up := ""
  for _ in List.range levels do
    up := up ++ "../"
    above := above ++ [← bytesAt (up ++ ".env")]
  let request : Request := { args := args.map String.toList, directory := ⟨entries⟩, above }
  let mut environment : Environment := {}
  for name in mentionedVariables request.settingsFile do
    if let some value ← IO.getEnv (String.ofList name) then
      environment := environment.set name value.toList
  return { request with environment }

/-- Show what has happened on the streams, and forget it. -/
def showEvents (stdout : IO.FS.Stream) (m : Machine) : IO Machine := do
  for event in m.events do
    match event with
    | .write c => stdout.putStr c.toString
    | .flush => stdout.flush
    | .readLine _ => pure ()
  return { m with events := #[] }

/-- Run a program on the real streams. -/
partial def runOnStreams (bound : Option Nat) (stdin stdout : IO.FS.Stream) (c : Config) :
    IO Ending := do
  let c ← if c.awaitsLine then do
      stdout.flush
      let line ← stdin.getLine
      let text := Text.codePoints (Text.unifyBreaks line.toList)
      pure { c with machine.input := Text.lines text }
    else pure c
  match c.advance bound with
  | .finished m => return .finished (← showEvents stdout m.close)
  | .failed e m => return .failed e (← showEvents stdout m)
  | .next _ c =>
    let machine ← showEvents stdout c.machine
    runOnStreams bound stdin stdout { c with machine }

/-- Print the lines of a report, and give the status with which the program exits. -/
def conclude (stderr : IO.FS.Stream) (lines : List (List Char)) (exit : Exit) : IO UInt32 := do
  for line in lines do
    stderr.putStrLn (String.ofList line)
  match exit with
  | .status code => return code.toUInt32
  | .fault f =>
    stderr.putStrLn (f.message.getD "nesting too deep")
    return 1
  | .unfinished => return 1

end TapeLang.CommandLine

open TapeLang TapeLang.CommandLine in
/-- The command line. -/
def main (args : List String) : IO UInt32 := do
  let stdin ← IO.getStdin
  let stdout ← IO.getStdout
  let stderr ← IO.getStderr
  let bounds := Limits.sample
  match (← gather args).plan bounds with
  | .report report =>
    stdout.putStr (String.ofList report.stdout)
    stdout.flush
    conclude stderr report.stderr report.ending
  | .job log job =>
    for line in log ++ job.startLines do
      stderr.putStrLn (String.ofList line)
    match job.config.machine bounds.hasRoom [] with
    | .error e => conclude stderr [] (.fault (.tape e))
    | .ok m =>
      let ending ← runOnStreams (some bounds.running) stdin stdout ⟨job.program, [], m⟩
      let (lines, exit) := job.conclusion ending
      conclude stderr lines exit
