import TapeLang.CommandLine.Execute
import TapeLang.Proofs.CommandLine.Arguments
import TapeLang.Proofs.Evaluate
import TapeLang.Proofs.Machine.Safety
import TapeLang.Proofs.RunConfig.Valid
import TapeLang.Proofs.Settings.Standard

/-!
# Ways to run a text

A program can be run on a machine, with or without the line feed that ends a complete run; its text
can be run under a configuration (`runText`) or evaluated; and a command can be given it. All these
ways agree (`routes_agree`).

* `Request.Unset`: the settings of a command say nothing about the run.
* `Request.Runs`: a command that is to run a text, and `Request.Runs.plan_eq`: what it plans to do.
-/

namespace TapeLang

/-- Read a text and run it under a configuration. -/
def runText (bounds : Limits) (fuel : Nat) (text : List Char) (config : RunConfig)
    (input : List Text.CodePoint) : Except EvalError Ending :=
  match Program.ofTextWithin bounds.reading text with
  | .error e => .error (.parse e)
  | .ok p =>
    match config.machine bounds.hasRoom (Text.lines input) with
    | .error e => .error (.tape e)
    | .ok m => .ok (p.runClosed (some bounds.running) fuel m)

/-- Evaluating a text is running it and looking at what it has written. -/
theorem evaluate_eq (bounds : Limits) (fuel : Nat) (text : List Char) (config : RunConfig)
    (input : List Text.CodePoint) :
    evaluate bounds fuel text config input =
      (runText bounds fuel text config input).bind Ending.answer := by
  unfold evaluate runText
  cases Program.ofTextWithin bounds.reading text with
  | error e => rfl
  | ok p =>
    cases config.machine bounds.hasRoom (Text.lines input) with
    | error e => rfl
    | ok m => rfl

/-- Where there is no carriage return, the line breaks are as they should be. -/
theorem Text.unifyBreaks_eq_self {text : List Char} (h : '\r' ∉ text) :
    unifyBreaks text = text := by
  induction text with
  | nil => rfl
  | cons c rest ih =>
    have hc : c ≠ '\r' := fun heq => h (heq ▸ List.mem_cons_self)
    have hrest := ih fun hmem => h (List.mem_cons_of_mem c hmem)
    rw [unifyBreaks, if_neg hc, hrest]
    rintro rest' rfl
    exact absurd rfl hc

namespace CommandLine

/-! ## Settings -/

/-- The settings can be loaded without a complaint, and offer no value for a field. -/
def Request.Unset (r : Request) : Prop :=
  ∃ w, r.workspace = .ok w ∧ settingsLines false w = [] ∧ w.filled.2 = none ∧
    w.filled.1.environment.offer tapeSizeVariable = none ∧
    w.filled.1.environment.offer stepLimitVariable = none

/-- The settings say nothing if there is no settings file and no variable is set for a field. -/
theorem Request.unset_of_get? {r : Request} (hfile : r.settingsFile = none)
    (hsize : r.environment.get? tapeSizeVariable = none)
    (hlimit : r.environment.get? stepLimitVariable = none) : r.Unset := by
  have hworkspace : r.workspace = .ok { environment := r.environment } := by
    rw [Request.workspace, hfile]
    cases r.environment.disablesFiles <;> rfl
  have hstatements : Workspace.statements { environment := r.environment } = [] :=
    Workspace.statements_of_no_file _ rfl
  have hfilled : Workspace.filled { environment := r.environment } =
      ({ environment := r.environment }, none) := Workspace.filled_of_no_file _ rfl
  refine ⟨_, hworkspace, ?_, ?_, ?_, ?_⟩
  · rw [settingsLines, hstatements]
    split <;> rfl
  · rw [hfilled]
  · rw [hfilled, Environment.offer, hsize]
    rfl
  · rw [hfilled, Environment.offer, hlimit]
    rfl

/-- A workspace of a command starts in a directory where a search can start. -/
theorem Request.isLost_workspace {r : Request} {w : Workspace} (h : r.workspace = .ok w) :
    w.isLost = false := by
  unfold Request.workspace at h
  split at h
  · next bytes _ _ =>
    cases htext : Text.decode bytes with
    | error e => simp [htext, Except.map] at h
    | ok text =>
      simp only [htext, Except.map, Except.ok.injEq] at h
      subst h
      rfl
  · cases h
    rfl

/-- A configuration whose numbers are natural. -/
def naturalConfig (n : Nat) (l : Option Nat) : RunConfig :=
  ⟨n, l.map fun k : Nat => (k : Int)⟩

/-- A command runs a text that it is given in pieces, on so many cells and under this limit: its
flags say so, and its settings say nothing. -/
structure Request.Runs (r : Request) (flags : List RunFlag) (pieces : List Arg) (n : Nat)
    (l : Option Nat) : Prop where
  /-- The arguments are the flags and the pieces. -/
  args_eq : r.args = runArgs flags pieces
  /-- The flags are for the size, for the limit if there is one, and maybe for details. -/
  flags_eq : flags.filter (· ≠ .debug) = .tapeSize n :: (l.map .stepLimit).toList
  /-- No number has too many digits. -/
  readable : ∀ flag ∈ flags, flag.Readable
  /-- The tape has a cell. -/
  one_le_size : 1 ≤ n
  /-- A limit allows a step. -/
  one_le_limit : ∀ k, l = some k → 1 ≤ k
  /-- The settings say nothing. -/
  unset : r.Unset

namespace Request

/-- Settings that say nothing leave the run to the flags. -/
theorem load_overrides {r : Request} {w : Workspace} (hw : r.workspace = .ok w)
    (hfilled : w.filled.2 = none)
    (hsize : w.filled.1.environment.offer tapeSizeVariable = none)
    (hlimit : w.filled.1.environment.offer stepLimitVariable = none) {n : Nat} {l : Option Nat}
    (hvalid : (naturalConfig n l).Valid) {s : Selection} (hn : s.tapeSize = .value n)
    (hl : s.stepLimit = (l.map fun k : Nat => Setting.value (k : Int)).getD .absent) :
    (w.load (overrides s)).2 = .ok (naturalConfig n l) := by
  have hoffers : w.filled.1.environment.offers (overrides s) = (naturalConfig n l).toFields := by
    rw [Environment.offers, Environment.offerFor, Environment.offerFor, hsize, hlimit, overrides,
      hn, hl]
    cases l <;>
      simp [optionValue, Fields.given, Fields.get?, RunConfig.toFields, RunConfig.tapeSizeField,
        RunConfig.stepLimitField, naturalConfig]
  rw [w.load_of_found _ (isLost_workspace hw), hfilled, hoffers,
    RunConfig.ofFields_toFields hvalid]
  rfl

namespace Runs

variable {r : Request} {flags : List RunFlag} {pieces : List Arg} {n : Nat} {l : Option Nat}

theorem valid (hr : r.Runs flags pieces n l) : (naturalConfig n l).Valid := by
  refine ⟨Int.ofNat_le.2 hr.one_le_size, fun k hk => ?_⟩
  obtain ⟨k', hk', rfl⟩ := Option.map_eq_some_iff.1 hk
  exact Int.ofNat_le.2 (hr.one_le_limit k' hk')

/-- The command reads its text and runs it under these numbers. What it has written to standard
error until then are details. -/
theorem plan_eq (hr : r.Runs flags pieces n l) (hpieces : pieces ≠ []) (bounds : Limits) :
    ∃ log, (.debug ∉ flags → log = []) ∧
      r.plan bounds =
        match Program.ofTextWithin bounds.reading pieces.flatten with
        | .error e => .report (failing (log ++ failureLines (flags.contains .debug) e.failure))
        | .ok p =>
          .job (log ++ parsedDetail (flags.contains .debug) pieces.flatten p)
            ⟨p, naturalConfig n l, flags.contains .debug⟩ := by
  obtain ⟨w, hw, hquiet, hfilled, hsize, hlimit⟩ := hr.unset
  let limit : Setting Int := (l.map fun k : Nat => Setting.value (k : Int)).getD .absent
  let debug := flags.contains .debug
  let s : Selection := { flags.foldl RunFlag.select {} with operands := pieces }
  have hselect : s =
      { operands := pieces, tapeSize := .value n, stepLimit := limit, debug := debug } := by
    simp only [s, limit, debug]
    rw [RunFlag.foldl_select, hr.flags_eq]
    cases l <;> simp [RunFlag.select]
  have hload : (w.load (overrides s)).2 = .ok (naturalConfig n l) :=
    load_overrides hw hfilled hsize hlimit hr.valid (by rw [hselect]) (by rw [hselect])
  -- There are operands and no other source, so the operands are the text.
  have hsource : r.sourceText s = .ok pieces.flatten := by
    rw [hselect, sourceText]
    cases pieces with
    | nil => exact absurd rfl hpieces
    | cons a rest => rfl
  have hplan : r.plan bounds = r.planRun bounds s pieces.flatten := by
    rw [plan, hr.args_eq, Invocation.ofArgs_run _ _ hr.readable]
    simp only [s] at hsource ⊢
    simp only [hsource]
  have hdebug : s.debug = debug := by rw [hselect]
  refine ⟨settingsLines s.debug w, fun hnot => ?_, ?_⟩
  · have hfalse : s.debug = false := by simpa [hdebug, debug] using hnot
    rw [hfalse, hquiet]
  · rw [hplan, planRun, hw]
    simp only [hload, hdebug]
    cases Program.ofTextWithin bounds.reading pieces.flatten <;> rfl

section Reports

variable {bounds : Limits} {text input : List Char} {p : Program}

/-- A text that is no program is refused. -/
theorem execute_of_parse_error (hr : r.Runs flags [text] n l) {e : ParseError}
    (hparse : Program.ofTextWithin bounds.reading text = .error e) (fuel : Nat) :
    (r.execute bounds fuel input).stdout = [] ∧
      (r.execute bounds fuel input).ending = .status 1 ∧
      (.debug ∉ flags →
        (r.execute bounds fuel input).stderr = [errorLine e.failure.message]) := by
  obtain ⟨log, hquiet, hplan⟩ := hr.plan_eq (List.cons_ne_nil text []) bounds
  rw [List.flatten_singleton, hparse] at hplan
  refine ⟨by rw [execute, hplan]; rfl, by rw [execute, hplan]; rfl, fun hnot => ?_⟩
  have hdebug : flags.contains .debug = false := by simpa using hnot
  rw [execute, hplan, hquiet hnot, hdebug]
  rfl

/-- If the tape cannot be made, that is how the command ends. -/
theorem execute_of_tape_error (hr : r.Runs flags [text] n l)
    (hparse : Program.ofTextWithin bounds.reading text = .ok p) {e : BadTapeSize}
    (hinput : '\r' ∉ input)
    (hmachine : (naturalConfig n l).machine bounds.hasRoom (Text.lines (Text.codePoints input)) =
      .error e) (fuel : Nat) :
    (r.execute bounds fuel input).stdout = [] ∧
      (r.execute bounds fuel input).ending = .fault (.tape e) := by
  obtain ⟨log, -, hplan⟩ := hr.plan_eq (List.cons_ne_nil text []) bounds
  rw [List.flatten_singleton, hparse] at hplan
  simp only [execute, hplan, Text.unifyBreaks_eq_self hinput, hmachine]
  exact ⟨rfl, rfl⟩

/-- What the program has written is on standard output, and what there is to say about the end of
the run is said. -/
theorem execute_of_run (hr : r.Runs flags [text] n l)
    (hparse : Program.ofTextWithin bounds.reading text = .ok p) {m : Machine}
    (hinput : '\r' ∉ input)
    (hmachine : (naturalConfig n l).machine bounds.hasRoom (Text.lines (Text.codePoints input)) =
      .ok m) {fuel : Nat} {o : Ending} (ho : p.runClosed (some bounds.running) fuel m = o) :
    (r.execute bounds fuel input).stdout = o.machine.output ∧
      (r.execute bounds fuel input).ending =
        (Job.conclusion ⟨p, naturalConfig n l, flags.contains .debug⟩ o).2 ∧
      (.debug ∉ flags → (r.execute bounds fuel input).stderr =
        (Job.conclusion ⟨p, naturalConfig n l, false⟩ o).1) := by
  obtain ⟨log, hquiet, hplan⟩ := hr.plan_eq (List.cons_ne_nil text []) bounds
  rw [List.flatten_singleton, hparse] at hplan
  simp only [execute, hplan, Text.unifyBreaks_eq_self hinput, hmachine, ho]
  refine ⟨trivial, trivial, fun hnot => ?_⟩
  have hdebug : flags.contains .debug = false := by simpa using hnot
  -- Nothing has been written to standard error before the run.
  rw [hquiet hnot, hdebug]
  rfl

end Reports

end Runs

/-- A command whose flags cannot all be read does nothing. -/
theorem execute_unreadable {bounds : Limits} {fuel : Nat} {r : Request}
    {flags : List RunFlag} {pieces : List Arg} {stdin : List Char}
    (h : ∃ flag ∈ flags, ¬ flag.Readable) (hargs : r.args = runArgs flags pieces) :
    (r.execute bounds fuel stdin).stdout = [] ∧
      (r.execute bounds fuel stdin).ending = .status 2 := by
  obtain ⟨e, he⟩ := Invocation.ofArgs_unreadable r.directory.find? pieces h
  have hplan : r.plan bounds = .report (stopReport (.usage (some .run) e)) := by
    rw [plan, hargs, he]
  rw [execute, hplan]
  exact ⟨rfl, rfl⟩

end Request

/-! ## Agreement -/

/-- All ways to run a text agree: running its program on a machine, with the line feed that ends a
complete run, running the text and evaluating it under a configuration, and giving it to a command.
They refuse the same texts, write the same, and end alike: with a tape that cannot be made, with an
error of the language, or with the complaint that this error cannot be worded, which the command
does not report on. Details that the command is asked for are written to standard error and change
nothing else. -/
theorem routes_agree (bounds : Limits) (fuel : Nat) {text stdin : List Char} {n : Nat}
    {l : Option Nat} {flags : List RunFlag} {r : Request} (hr : r.Runs flags [text] n l)
    (hstdin : '\r' ∉ stdin) :
    let config := naturalConfig n l
    let input := Text.codePoints stdin
    let report := r.execute bounds fuel stdin
    (∀ e, Program.ofTextWithin bounds.reading text = .error e →
      runText bounds fuel text config input = .error (.parse e) ∧
      evaluate bounds fuel text config input = .error (.parse e) ∧
      report.stdout = [] ∧ report.ending = .status 1 ∧
      (.debug ∉ flags → report.stderr = [errorLine e.failure.message])) ∧
    ∀ p, Program.ofTextWithin bounds.reading text = .ok p →
      (∀ e, Tape.blank? bounds.hasRoom n = .error e →
        runText bounds fuel text config input = .error (.tape e) ∧
        evaluate bounds fuel text config input = .error (.tape e) ∧
        report.stdout = [] ∧ report.ending = .fault (.tape e)) ∧
      ∀ t, Tape.blank? bounds.hasRoom n = .ok t →
        let m : Machine := { tape := t, input := Text.lines input, limit := config.stepLimit }
        (∀ m', p.run (some bounds.running) fuel m = .finished m' →
          p.runClosed (some bounds.running) fuel m = .finished m'.close ∧
          runText bounds fuel text config input = .ok (.finished m'.close) ∧
          m'.close.output = m'.output ++ ['\n'] ∧
          evaluate bounds fuel text config input = .ok (m'.output ++ ['\n']) ∧
          report.stdout = m'.output ++ ['\n'] ∧ report.ending = .status 0 ∧
          (.debug ∉ flags → report.stderr = [])) ∧
        (∀ e m', p.run (some bounds.running) fuel m = .failed e m' →
          p.runClosed (some bounds.running) fuel m = .failed e m' ∧
          runText bounds fuel text config input = .ok (.failed e m') ∧
          evaluate bounds fuel text config input = .error (.run e) ∧
          report.stdout = m'.output ∧
          ((∃ f, e.failure? = some f) ∧ report.ending = .status 1 ∧
              (.debug ∉ flags → report.stderr = [errorLine e.message]) ∨
            e.Unwordable ∧ report.ending = .fault (.run e))) ∧
        ∀ c, p.run (some bounds.running) fuel m = .unfinished c →
          runText bounds fuel text config input = .ok (.unfinished c) ∧
          evaluate bounds fuel text config input = .error .unfinished ∧
          report.ending = .unfinished := by
  intro config input report
  refine ⟨fun e hparse => ?_, fun p hparse => ⟨fun e htape => ?_, fun t htape => ?_⟩⟩
  -- Nothing has been made yet when a text is refused.
  · have htext : runText bounds fuel text config input = .error (.parse e) := by
      rw [runText, hparse]
    exact ⟨htext, by rw [evaluate_eq, htext]; rfl, hr.execute_of_parse_error hparse fuel⟩
  · have hblank : Tape.blank? bounds.hasRoom config.tapeSize = .error e := htape
    have hmachine : config.machine bounds.hasRoom (Text.lines input) = .error e := by
      rw [RunConfig.machine, hblank]
    have htext : runText bounds fuel text config input = .error (.tape e) := by
      rw [runText, hparse, hmachine]
    exact ⟨htext, by rw [evaluate_eq, htext]; rfl,
      hr.execute_of_tape_error hparse hstdin hmachine fuel⟩
  · intro m
    have hblank : Tape.blank? bounds.hasRoom config.tapeSize = .ok t := htape
    have hmachine : config.machine bounds.hasRoom (Text.lines input) = .ok m := by
      rw [RunConfig.machine, hblank]
    have htext : runText bounds fuel text config input =
        .ok (p.runClosed (some bounds.running) fuel m) := by
      rw [runText, hparse, hmachine]
    -- Every way looks at the same closed run, so this run is split by its end.
    refine ⟨fun m' hrun => ?_, fun e m' hrun => ?_, fun c hrun => ?_⟩
    · have hclosed : p.runClosed (some bounds.running) fuel m = .finished m'.close := by
        rw [Program.runClosed, hrun]
      obtain ⟨hstdout, hending, hstderr⟩ := hr.execute_of_run hparse hstdin hmachine hclosed
      rw [hclosed] at htext
      refine ⟨hclosed, htext, m'.output_close, ?_, ?_, hending, hstderr⟩
      · rw [evaluate_eq, htext]
        exact congrArg Except.ok m'.output_close
      · exact hstdout.trans m'.output_close
    · have hclosed : p.runClosed (some bounds.running) fuel m = .failed e m' := by
        rw [Program.runClosed, hrun]
      obtain ⟨hstdout, hending, hstderr⟩ := hr.execute_of_run hparse hstdin hmachine hclosed
      simp only [Job.conclusion] at hending hstderr
      rw [hclosed] at htext
      refine ⟨hclosed, htext, by rw [evaluate_eq, htext]; rfl, hstdout, ?_⟩
      -- What was read from a text has no foreign instruction.
      have hnative := Program.native_of_ofTextWithin hparse
      rcases Program.seen_of_run (Tape.inRange_of_blank? htape) hrun with ⟨f, hf, -⟩ |
        ⟨-, hforeign⟩ | hunwordable
      · rw [hf] at hending hstderr
        rw [RunError.message_of_failure? hf]
        exact Or.inl ⟨⟨f, hf⟩, hending, hstderr⟩
      · rw [hnative] at hforeign
        cases hforeign
      · rw [hunwordable.failure?_eq_none] at hending
        exact Or.inr ⟨hunwordable, hending⟩
    · have hclosed : p.runClosed (some bounds.running) fuel m = .unfinished c := by
        rw [Program.runClosed, hrun]
      obtain ⟨-, hending, -⟩ := hr.execute_of_run hparse hstdin hmachine hclosed
      rw [hclosed] at htext
      exact ⟨htext, by rw [evaluate_eq, htext]; rfl, hending⟩

/-- A text that writes one character, under a limit that it does not reach. -/
theorem routes_agree_one_character :
    let flags : List RunFlag := [.tapeSize 1, .stepLimit 9]
    let r : Request := { args := runArgs flags [['+', '.']] }
    r.Runs flags [['+', '.']] 1 (some 9) ∧ '\r' ∉ ([] : List Char) ∧
      evaluate .sample 2 ['+', '.'] (naturalConfig 1 (some 9)) [] = .ok ['\x01', '\n'] ∧
      (r.execute .sample 2 []).stdout = ['\x01', '\n'] ∧
      (r.execute .sample 2 []).stderr = [] ∧ (r.execute .sample 2 []).ending = .status 0 := by
  intro flags r
  have hreadable : ∀ flag ∈ flags, flag.Readable := by
    intro flag hflag
    rcases List.mem_cons.1 hflag with rfl | hflag
    · show (Nat.toDigits 10 1).length ≤ Text.maxDigits
      decide
    · rw [List.mem_singleton.1 hflag]
      show (Nat.toDigits 10 9).length ≤ Text.maxDigits
      decide
  have hr : r.Runs flags [['+', '.']] 1 (some 9) :=
    { args_eq := rfl
      flags_eq := by decide
      readable := hreadable
      one_le_size := Nat.le_refl 1
      one_le_limit := by rintro k ⟨⟩; decide
      unset := Request.unset_of_get? (by decide +kernel) rfl rfl }
  have hinput : '\r' ∉ ([] : List Char) := List.not_mem_nil
  obtain ⟨p, hp⟩ : ∃ p, Program.ofTextWithin Limits.sample.reading ['+', '.'] = .ok p :=
    ⟨_, rfl⟩
  obtain ⟨m', hrun, houtput⟩ : ∃ m', p.run (some Limits.sample.running) 2
      { tape := ⟨#[0], 0⟩, limit := some 9 } = .finished m' ∧ m'.output = ['\x01'] := by
    cases hp
    exact ⟨_, rfl, by decide⟩
  have hagree := ((routes_agree .sample 2 hr hinput).2 p hp).2 ⟨#[0], 0⟩ rfl
  obtain ⟨-, -, -, heval, hstdout, hending, hstderr⟩ := hagree.1 m' hrun
  rw [houtput] at heval hstdout
  exact ⟨hr, hinput, heval, hstdout, hstderr (by decide), hending⟩

/-- A limit of more digits than the command reads is a wrong use of it, although the text could be
evaluated under this limit. -/
theorem long_limit_refused :
    1 ≤ 10 ^ Text.maxDigits ∧
      evaluate .sample 0 [] (naturalConfig 1 (some (10 ^ Text.maxDigits))) [] = .ok ['\n'] ∧
      (Request.execute .sample 0
        { args := runArgs [.tapeSize 1, .stepLimit (10 ^ Text.maxDigits)] [[]] } []).ending =
        .status 2 := by
  have heval : ∀ l, evaluate .sample 0 [] (naturalConfig 1 l) [] = .ok ['\n'] := fun _ => rfl
  refine ⟨Nat.one_le_pow _ _ (by decide), heval _, ?_⟩
  refine (Request.execute_unreadable ⟨.stepLimit (10 ^ Text.maxDigits), by simp, fun h => ?_⟩ rfl).2
  exact absurd ((Nat.length_toDigits_le_iff (by decide) (by decide)).1 h) (Nat.lt_irrefl _)

end CommandLine

end TapeLang
