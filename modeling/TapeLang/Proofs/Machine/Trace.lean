import TapeLang.Proofs.Machine.Leads
import TapeLang.Proofs.Machine.Safety
import TapeLang.Proofs.Program.Bare

/-!
# Traces

A trace lists the instructions that a run has completed. Loops, failing steps and the counting of
steps do nothing to the tape or the streams, so a run does what the commands of its trace do when
they stand in a row, and nothing else.

* `Config.trace`: the trace of a run as a list, and `Config.runTraced_eq`, that it is the trace
  recorded along the run.
* `Config.trace_induction`: induction along a run and its trace.
* `Config.performAll_trace`: the commands of its trace take a machine to where the run has left it.
* `Config.exists_step_of_entry`: each entry of a trace is made by a step of the run.
* `Program.straightLine_trace`: every run, finished or not, is the straight-line run of its trace.
-/

namespace TapeLang

/-! ## What a trace lists -/

/-- The command that a mark stands for; a loop is none. -/
def Mark.command? : Mark → Option Command
  | command d => some d
  | loop => none

/-- The command that an entry is about. -/
def TraceEntry.command? (e : TraceEntry) : Option Command :=
  e.mark.command?

/-- The commands that a trace lists, the loops left out. -/
def commands (trace : List TraceEntry) : List Command :=
  trace.filterMap TraceEntry.command?

/-- What a completed instruction, if there is one, adds to a trace. -/
def entriesOf (mark : Option Mark) (m : Machine) : List TraceEntry :=
  (mark.map fun k => TraceEntry.ofMachine k m).toList

@[simp]
theorem commands_append (xs ys : List TraceEntry) :
    commands (xs ++ ys) = commands xs ++ commands ys :=
  List.filterMap_append

@[simp]
theorem commands_entriesOf_command (d : Command) (m : Machine) :
    commands (entriesOf (some (.command d)) m) = [d] := rfl

@[simp]
theorem commands_entriesOf_loop (m : Machine) : commands (entriesOf (some .loop) m) = [] := rfl

/-- The commands in a row are written as the characters of the trace that are no brackets. -/
theorem source_ofCommands_commands (trace : List TraceEntry) :
    (Program.ofCommands (commands trace)).source =
      (trace.map fun e => e.mark.char).filter (· ≠ ']') := by
  induction trace with
  | nil => rfl
  | cons e rest ih =>
    obtain ⟨mark, pointer, value, steps⟩ := e
    cases mark with
    | command d =>
      have hd : d.char ≠ ']' := d.char_ne_closing
      rw [List.map_cons, List.filter_cons_of_pos (by simp [Mark.char, hd]), ← ih]
      rfl
    | loop =>
      rw [List.map_cons, List.filter_cons_of_neg (by simp [Mark.char]), ← ih]
      rfl

namespace Config

variable {bound : Option Nat} (c : Config)

/-- The instructions that at most `fuel` steps complete, in their order. -/
def trace (bound : Option Nat) (fuel : Nat) (c : Config) : List TraceEntry :=
  match fuel with
  | 0 => []
  | fuel + 1 =>
    match c.advance bound with
    | .next mark c' => entriesOf mark c'.machine ++ c'.trace bound fuel
    | .finished _ | .failed _ _ => []

/-- The trace is what a run records, and recording does not change the run. -/
theorem runTraced_eq (fuel : Nat) (before : Array TraceEntry) :
    c.runTraced bound fuel before =
      (before ++ (c.trace bound fuel).toArray, c.run bound fuel) := by
  induction fuel generalizing c before with
  | zero => simp [runTraced, trace]
  | succ fuel ih =>
    rw [runTraced, trace, run]
    cases c.advance bound with
    | finished m => simp
    | failed e m => simp
    | next mark c' =>
      cases mark with
      | none => simp [ih, entriesOf]
      | some k => simp [ih, entriesOf]

variable {c} {c' : Config} {mark : Option Mark}

theorem trace_of_next (h : c.advance bound = .next mark c') (n : Nat) :
    c.trace bound (n + 1) = entriesOf mark c'.machine ++ c'.trace bound n := by
  rw [trace, h]

/-- Induction along a run and its trace, for relations between the machine at the start, the trace
and the machine left behind. A run stops where it is or has counted a step that fails; a step that
succeeds puts what it completes in front of the rest of the trace. -/
theorem trace_induction {P : Machine → List TraceEntry → Machine → Prop}
    (hstop : ∀ m, P m [] m) (hfailed : ∀ m, P m [] m.counted)
    (hnext : ∀ {c c' : Config} {mark : Option Mark} {trace : List TraceEntry} {m : Machine},
      c.advance bound = .next mark c' → P c'.machine trace m →
      P c.machine (entriesOf mark c'.machine ++ trace) m)
    (hrange : c.machine.tape.InRange) (n : Nat) :
    P c.machine (c.trace bound n) (c.run bound n).machine := by
  induction n generalizing c with
  | zero =>
    rw [machine_run_zero]
    exact hstop c.machine
  | succ n ih =>
    cases hstep : c.advance bound with
    | finished m =>
      obtain ⟨hdone, rfl⟩ := (advance_eq_finished_iff c).1 hstep
      rw [run_of_done c hdone, trace, hstep]
      exact hstop c.machine
    | failed e m =>
      -- A failing step has been counted and has changed nothing else.
      obtain ⟨rfl, -⟩ := advance_failed hrange hstep
      rw [run_of_failed c hstep, trace, hstep]
      exact hfailed c.machine
    | next mark c' =>
      rw [trace_of_next hstep, run_of_next c hstep]
      exact hnext hstep (ih (inRange_of_next hrange hstep))

/-! ## The commands of a trace -/

/-- A step does to tape and streams what the command that it completes does, and nothing if it
completes none. -/
theorem performAll_entriesOf (h : c.advance bound = .next mark c') (steps : Nat)
    (limit : Option Int) :
    (c.machine.withCounter steps limit).performAll (commands (entriesOf mark c'.machine)) =
      .done (c'.machine.withCounter steps limit) := by
  rcases c.next_cases h with ⟨d, rfl, hperform⟩ | ⟨rfl, -, hm⟩ | ⟨rfl, hm⟩
  · -- The command was performed on the counted machine; with the counter set it is the same one.
    have heffect := c.machine.counted.perform_withCounter steps limit d
    rw [hperform] at heffect
    rw [commands_entriesOf_command, Machine.performAll,
      show c.machine.withCounter steps limit = c.machine.counted.withCounter steps limit from rfl,
      heffect]
    rfl
  · rw [commands_entriesOf_loop, hm]
    rfl
  · rw [hm]
    rfl

/-- The commands of its trace take a machine to where the run has left it. -/
theorem performAll_trace (bound : Option Nat) (hrange : c.machine.tape.InRange) (steps : Nat)
    (limit : Option Int) (n : Nat) :
    (c.machine.withCounter steps limit).performAll (commands (c.trace bound n)) =
      .done ((c.run bound n).machine.withCounter steps limit) := by
  apply trace_induction (P := fun m trace m' =>
    (m.withCounter steps limit).performAll (commands trace) =
      .done (m'.withCounter steps limit)) _ _ _ hrange n
  · intro m
    rfl
  · intro m
    rfl
  · intro c c' mark trace m hstep htrace
    rw [commands_append, Machine.performAll_append, performAll_entriesOf hstep steps limit]
    exact htrace

/-! ## The entries of a trace -/

/-- Each entry of a trace is made by a step of the run, and shows the machine behind this step. -/
theorem exists_step_of_entry {n : Nat} {before after : List TraceEntry} {e : TraceEntry}
    (h : c.trace bound n = before ++ e :: after) :
    ∃ k c₁ c₂, c.run bound k = .unfinished c₁ ∧ c₁.advance bound = .next (some e.mark) c₂ ∧
      e = .ofMachine e.mark c₂.machine ∧ c.trace bound (k + 1) = before ++ [e] := by
  induction n generalizing c before with
  | zero => simp [trace] at h
  | succ n ih =>
    cases hstep : c.advance bound with
    | finished m => simp [trace, hstep] at h
    | failed e' m => simp [trace, hstep] at h
    | next mark c' =>
      rw [trace_of_next hstep] at h
      -- What a shorter run from the next configuration shows, this run shows one step later.
      have hlater : ∀ {before' : List TraceEntry}, c'.trace bound n = before' ++ e :: after →
          before = entriesOf mark c'.machine ++ before' →
          ∃ k c₁ c₂, c.run bound k = .unfinished c₁ ∧
            c₁.advance bound = .next (some e.mark) c₂ ∧ e = .ofMachine e.mark c₂.machine ∧
            c.trace bound (k + 1) = before ++ [e] := by
        intro before' htrace hbefore
        obtain ⟨k, c₁, c₂, hrun, hnext, he, hshort⟩ := ih htrace
        refine ⟨k + 1, c₁, c₂, by rw [run_of_next c hstep, hrun], hnext, he, ?_⟩
        rw [trace_of_next hstep, hshort, hbefore, List.append_assoc]
      cases mark with
      | none => exact hlater h rfl
      | some k =>
        cases before with
        | nil =>
          -- The entry is the one that the first step makes.
          obtain ⟨rfl, -⟩ := List.cons.inj h
          have hdone : ¬ c.Done := not_done_of_next c hstep
          exact ⟨0, c, c', run_zero c hdone, hstep, rfl, by rw [trace_of_next hstep]; rfl⟩
        | cons first before' =>
          obtain ⟨rfl, htail⟩ := List.cons.inj h
          exact hlater htail rfl

/-- The entries of a trace come behind the step at which the run begins, and no two of them belong
to the same step. -/
theorem rising_steps_trace (hrange : c.machine.tape.InRange) (n : Nat) :
    (∀ e ∈ c.trace bound n, c.machine.steps < e.steps) ∧
      (c.trace bound n).Pairwise fun e e' => e.steps < e'.steps := by
  apply trace_induction (P := fun m trace _ =>
    (∀ e ∈ trace, m.steps < e.steps) ∧ trace.Pairwise fun e e' => e.steps < e'.steps) _ _ _ hrange n
  · intro m
    exact ⟨by simp, List.Pairwise.nil⟩
  · intro m
    exact ⟨by simp, List.Pairwise.nil⟩
  · intro c c' mark trace m hstep htrace
    obtain ⟨hlater, hrising⟩ := htrace
    obtain ⟨hsteps, -⟩ := c.counter_of_next hstep
    have hbehind : ∀ e ∈ trace, c.machine.steps < e.steps := by
      intro e he
      have hlt := hlater e he
      omega
    cases mark with
    | none => exact ⟨hbehind, hrising⟩
    | some k =>
      -- The entry in front shows the counter behind this step, and all others come later.
      have hfront : c.machine.steps < (TraceEntry.ofMachine k c'.machine).steps :=
        Nat.lt_of_lt_of_eq (Nat.lt_succ_self _) hsteps.symm
      exact ⟨List.forall_mem_cons.2 ⟨hfront, hbehind⟩, List.pairwise_cons.2 ⟨hlater, hrising⟩⟩

/-- Each entry shows the machine to which the commands up to it lead. -/
theorem performAll_entry (hrange : c.machine.tape.InRange) {n : Nat}
    {before after : List TraceEntry} {e : TraceEntry}
    (h : c.trace bound n = before ++ e :: after) (steps : Nat) (limit : Option Int) :
    ∃ m' : Machine, (c.machine.withCounter steps limit).performAll (commands (before ++ [e])) =
        .done (m'.withCounter steps limit) ∧
      m'.tape.pointer = e.pointer ∧ m'.tape.current? = some e.value := by
  obtain ⟨k, c₁, c₂, hrun, hnext, he, htrace⟩ := exists_step_of_entry h
  have hmachine : (c.run bound (k + 1)).machine = c₂.machine := by
    rw [run_add, hrun]
    exact (congrArg Ending.machine (run_of_next c₁ hnext 0)).trans (c₂.machine_run_zero bound)
  have hcommands := performAll_trace bound hrange steps limit (k + 1)
  rw [htrace, hmachine] at hcommands
  obtain ⟨v, hv⟩ := Tape.exists_current?
    (inRange_of_next (inRange_of_unfinished hrange hrun) hnext)
  refine ⟨c₂.machine, hcommands, (congrArg TraceEntry.pointer he).symm, ?_⟩
  rw [hv, congrArg TraceEntry.value he, TraceEntry.ofMachine, hv]
  rfl

/-- A loop is complete when the current cell is zero. -/
theorem value_of_loop {n : Nat} {before after : List TraceEntry} {e : TraceEntry}
    (h : c.trace bound n = before ++ e :: after) (hmark : e.mark = .loop) : e.value = 0 := by
  obtain ⟨k, c₁, c₂, -, hnext, he, -⟩ := exists_step_of_entry h
  rw [hmark] at hnext
  rw [congrArg TraceEntry.value he, TraceEntry.ofMachine, guard_zero_of_next c₁ hnext]
  rfl

/-- The completion of a loop does not move the pointer: it is where the entry before has shown it,
or where the run has begun. -/
theorem pointer_of_loop (hrange : c.machine.tape.InRange) {n : Nat}
    {before after : List TraceEntry} {e : TraceEntry}
    (h : c.trace bound n = before ++ e :: after) (hmark : e.mark = .loop) :
    e.pointer = (before.getLast?.map TraceEntry.pointer).getD c.machine.tape.pointer := by
  have hsame : commands (before ++ [e]) = commands before := by
    simp [commands, TraceEntry.command?, hmark, Mark.command?]
  obtain ⟨m', hcommands, hpointer, -⟩ := performAll_entry hrange h 0 none
  rw [hsame] at hcommands
  -- The commands up to the loop are those up to the entry before it, so both show one machine.
  rcases List.eq_nil_or_concat before with rfl | ⟨init, last, rfl⟩
  · have hm : c.machine.withCounter 0 none = m'.withCounter 0 none := Effect.done.inj hcommands
    rw [← hpointer]
    exact (congrArg (fun m => m.tape.pointer) hm).symm
  · rw [List.concat_eq_append] at h hcommands ⊢
    rw [List.append_assoc] at h
    obtain ⟨m'', hcommands', hpointer', -⟩ := performAll_entry hrange h 0 none
    rw [hcommands] at hcommands'
    have hm : m'.withCounter 0 none = m''.withCounter 0 none := Effect.done.inj hcommands'
    rw [List.getLast?_concat, Option.map_some, Option.getD_some, ← hpointer, ← hpointer']
    exact congrArg (fun m => m.tape.pointer) hm

end Config

/-! ## Straight-line runs -/

/-- Commands in a row take one machine to another if nothing limits their number, whatever the bound
on loops. Only the counters of the machines do not matter. -/
def StraightLine (ds : List Command) (m m' : Machine) : Prop :=
  ∀ bound : Option Nat, ∃ fuel steps, ∀ k, fuel ≤ k →
    (Program.ofCommands ds).run bound k { m with limit := none } =
      .finished (m'.withCounter steps none)

theorem straightLine_of_performAll {ds : List Command} {m m' : Machine}
    (h : (m.withCounter m.steps none).performAll ds = .done (m'.withCounter m.steps none)) :
    StraightLine ds m m' := by
  intro bound
  have hleads : (Program.ofCommands ds).Leads bound 0 (m.withCounter m.steps none)
      (m'.withCounter m.steps none) := .ofCommands h
  exact hleads.run (fun _ _ => Nat.zero_le _) rfl

namespace Program

theorem runTraced_eq (bound : Option Nat) (p : Program) (m : Machine) (n : Nat) :
    p.runTraced bound n m =
      ((Config.trace bound n ⟨p, [], m⟩).toArray, p.run bound n m) := by
  rw [runTraced, Config.runTraced_eq, Array.empty_append]
  rfl

/-- Every run is the straight-line run of its own trace. Wherever a run stands, whether it has
finished, has failed or goes on, the commands that it has completed, in a row and without a limit,
lead from the same machine to the same tape, streams and input. Each entry of the trace shows the
machine behind the commands up to it; a loop is complete at a zero cell where the entry before it
has left the pointer; and the counter rises from entry to entry. -/
theorem straightLine_trace (bound : Option Nat) (p : Program) {m : Machine} (h : m.tape.InRange)
    (n : Nat) :
    let trace := (p.runTraced bound n m).1.toList
    (p.runTraced bound n m).2 = p.run bound n m ∧
    (ofCommands (commands trace)).source =
      (trace.map fun e => e.mark.char).filter (· ≠ ']') ∧
    StraightLine (commands trace) m (p.run bound n m).machine ∧
    (∀ before e after, trace = before ++ e :: after →
      (∃ m', StraightLine (commands (before ++ [e])) m m' ∧
        m'.tape.pointer = e.pointer ∧ m'.tape.current? = some e.value) ∧
      (e.mark = .loop → e.value = 0 ∧
        e.pointer = (before.getLast?.map TraceEntry.pointer).getD m.tape.pointer)) ∧
    trace.Pairwise fun e e' => e.steps < e'.steps := by
  -- Everything is said of the trace as a list, which comes from the steps one by one.
  rw [runTraced_eq]
  refine ⟨rfl, source_ofCommands_commands _, ?_, fun before e after htrace => ⟨?_, fun hmark => ?_⟩,
    (Config.rising_steps_trace (c := ⟨p, [], m⟩) h n).2⟩
  · exact straightLine_of_performAll
      (Config.performAll_trace (c := ⟨p, [], m⟩) bound h m.steps none n)
  · obtain ⟨m', hcommands, hshown⟩ :=
      Config.performAll_entry (c := ⟨p, [], m⟩) h htrace m.steps none
    exact ⟨m', straightLine_of_performAll hcommands, hshown⟩
  · exact ⟨Config.value_of_loop htrace hmark,
      Config.pointer_of_loop (c := ⟨p, [], m⟩) h htrace hmark⟩

/-- A run that empties its cell in a loop and then fails at the left edge has done what its two
completed commands do in a row, and has left behind what they leave. -/
theorem straightLine_trace_left_edge :
    let p : Program := .command .increment none
      (.loop (.command .decrement none .nil) none (.command .left none .nil))
    let m : Machine := { tape := ⟨#[0], 0⟩ }
    m.tape.InRange ∧ (p.run none 5 m).error? = some (.offTape 0 1 .left) ∧
      (p.runTraced none 5 m).1 =
        #[⟨.command .increment, 0, 1, 1⟩, ⟨.command .decrement, 0, 0, 3⟩, ⟨.loop, 0, 0, 4⟩] ∧
      StraightLine [.increment, .decrement] m (p.run none 5 m).machine := by
  intro p m
  have hrange : m.tape.InRange := by decide
  obtain ⟨-, -, hline, -⟩ := straightLine_trace none p hrange 5
  exact ⟨hrange, by decide, by decide, hline⟩

end Program

end TapeLang
