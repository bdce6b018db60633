import Mathlib.Data.List.DropRight
import TapeLang.Proofs.Machine.Input
import TapeLang.Proofs.Machine.Transcript

/-!
# What a run sees of its input

A run sees one number of each line, and nothing of a line that it has not come to. So two runs whose
texts give the same numbers as far as they are read cannot be told apart, unless by the lines
themselves.

* `Text.inputValue`: the number that a text gives to the `k`-th `,`.
* `Config.values_run`: what the completed `,` have stored.
* `Config.valueAhead_run`: a run has taken as many lines as it has completed `,`.
* `Machine.veiled`: a machine without its lines, those read and those to come.
* `Config.run_alike`: texts that give the same numbers lead to the same run, apart from the lines.
* `Program.sees_line_starts`: the three statements on the run of a program.
-/

namespace TapeLang

/-! ## What a text gives -/

namespace Text

/-- The number that a text gives to the `k`-th `,`, counted from zero. The text is cut at its line
feeds, all breaks at the end of the `k`-th piece are dropped, and the number is the first code point
left; it is zero if none is left or if there is no such piece. The line feed that the cut
takes away is a break at the end of its piece, which would be dropped as well. -/
def inputValue (text : List CodePoint) (k : Nat) : Int :=
  match ((text.splitOn lineFeed).getD k []).rdropWhile isBreak with
  | [] => 0
  | c :: _ => c.val

theorem chomp_cons_congr (c : CodePoint) {line line' : List CodePoint}
    (h : chomp line = chomp line') :
    chomp (c :: line) = chomp (c :: line') := by
  rw [chomp, chomp, h]

theorem chomp_concat (line : List CodePoint) (c : CodePoint) :
    chomp (line ++ [c]) = if isBreak c then chomp line else line ++ [c] := by
  induction line with
  | nil => rfl
  | cons a line ih =>
    rw [List.cons_append, chomp, ih]
    -- Behind anything but a break nothing is dropped, so the first character does not matter.
    by_cases hbreak : isBreak c = true
    · rw [if_pos hbreak, if_pos hbreak]
      rfl
    · rw [if_neg hbreak, if_neg hbreak]
      cases line <;> rfl

/-- Dropping the breaks at the end of a line is dropping from its end as long as there are any. -/
theorem chomp_eq_rdropWhile (line : List CodePoint) : chomp line = line.rdropWhile isBreak := by
  induction line using List.reverseRecOn with
  | nil => rfl
  | append_singleton line c ih => rw [chomp_concat, List.rdropWhile_concat, ih]

/-- A first code point is a cut, or it goes in front of the first piece. -/
theorem splitOn_cons_cases (c : CodePoint) (text : List CodePoint) :
    c = lineFeed ∧ (c :: text).splitOn lineFeed = [] :: text.splitOn lineFeed ∨
      c ≠ lineFeed ∧ ∃ piece pieces, text.splitOn lineFeed = piece :: pieces ∧
        (c :: text).splitOn lineFeed = (c :: piece) :: pieces := by
  obtain ⟨piece, pieces, hpieces⟩ :=
    List.exists_cons_of_ne_nil (List.splitOnP_ne_nil (· == lineFeed) text)
  simp only [List.splitOn, List.splitOnP_cons_eq_if_modifyHead, beq_iff_eq, hpieces]
  by_cases hcut : c = lineFeed
  · exact Or.inl ⟨hcut, if_pos hcut⟩
  · exact Or.inr ⟨hcut, piece, pieces, rfl, if_neg hcut⟩

/-- Without the breaks at their ends, the lines of a text are its pieces between line feeds. -/
theorem chomp_lines (text : List CodePoint) (k : Nat) :
    chomp ((lines text).getD k []) = chomp ((text.splitOn lineFeed).getD k []) := by
  induction text generalizing k with
  | nil => cases k <;> rfl
  | cons c text ih =>
    rcases splitOn_cons_cases c text with ⟨rfl, hsplit⟩ | ⟨hc, piece, pieces, htext, hsplit⟩
    · rw [lines, if_pos rfl, hsplit]
      cases k with
      | zero => rfl
      | succ k => exact ih k
    · -- The code point goes in front of the first line as well, if there is one.
      rw [htext] at ih
      rw [lines, if_neg hc, hsplit]
      cases hlines : lines text with
      | nil | cons line rest =>
        rw [hlines] at ih
        cases k with
        | zero => exact chomp_cons_congr c (ih 0)
        | succ k => exact ih (k + 1)

/-- The values of the lines of a text are its numbers. -/
theorem lineValue_lines (text : List CodePoint) (k : Nat) :
    lineValue ((lines text).getD k []) = inputValue text k := by
  have hkept : chomp ((lines text).getD k []) =
      ((text.splitOn lineFeed).getD k []).rdropWhile isBreak := by
    rw [chomp_lines, chomp_eq_rdropWhile]
  cases hpiece : ((text.splitOn lineFeed).getD k []).rdropWhile isBreak with
  | nil | cons c rest =>
    rw [hpiece] at hkept
    simp only [lineValue, inputValue, hkept, hpiece]

theorem lineFeed_not_mem_piece {text piece : List CodePoint} (h : piece ∈ text.splitOn lineFeed) :
    lineFeed ∉ piece := by
  induction text generalizing piece with
  | nil =>
    rw [List.splitOn_nil, List.mem_singleton] at h
    exact h ▸ List.not_mem_nil
  | cons c text ih =>
    rcases splitOn_cons_cases c text with ⟨-, hsplit⟩ | ⟨hc, first, pieces, htext, hsplit⟩
    · rw [hsplit] at h
      rcases List.mem_cons.1 h with rfl | hmem
      · exact List.not_mem_nil
      · exact ih hmem
    · rw [htext] at ih
      rw [hsplit] at h
      rcases List.mem_cons.1 h with rfl | hmem
      · rw [List.mem_cons, not_or]
        exact ⟨hc.symm, ih List.mem_cons_self⟩
      · exact ih (List.mem_cons_of_mem _ hmem)

/-- A text never gives the number of a line feed. -/
theorem inputValue_ne_lineFeed (text : List CodePoint) (k : Nat) : inputValue text k ≠ 10 := by
  intro hten
  rw [inputValue] at hten
  split at hten
  · cases hten
  · next c rest hkept =>
    have hc : c = lineFeed := Fin.val_inj.1 (Int.ofNat_inj.1 hten)
    -- What is left of a piece is a beginning of it, so the piece would hold a line feed.
    have hmem : lineFeed ∈ (text.splitOn lineFeed).getD k [] := by
      refine (List.rdropWhile_prefix isBreak _).subset ?_
      rw [hkept, hc]
      exact List.mem_cons_self
    rw [List.getD_eq_getElem?_getD] at hmem
    cases hpiece : (text.splitOn lineFeed)[k]? with
    | none => simp [hpiece] at hmem
    | some piece =>
      rw [hpiece, Option.getD_some] at hmem
      exact lineFeed_not_mem_piece (List.mem_of_getElem? hpiece) hmem

end Text

/-! ## What a run stores -/

theorem completions_entriesOf_of_ne {d : Command} {mark : Option Mark}
    (h : mark ≠ some (.command d)) (m : Machine) : completions d (entriesOf mark m) = [] := by
  cases mark with
  | none => rfl
  | some k => exact completions_cons_of_ne (fun hk => h (congrArg some hk)) []

namespace Machine

variable (m : Machine)

/-- The value of the `k`-th line that is left, counted from zero; zero if there is none. -/
def valueAhead (k : Nat) : Int :=
  lineValue (m.input.getD k [])

theorem takeLine_eq : m.takeLine =
    (m.valueAhead 0, { (m.record .flush).record (.readLine (m.input.headD [])) with
      input := m.input.tail }) := by
  unfold takeLine valueAhead
  -- Past the end an empty line is read, whose value is zero.
  cases hinput : m.input with
  | nil => simp [record, hinput, lineValue, Text.chomp]
  | cons line rest => rfl

/-- A `,` puts the value of the next line into the current cell, and changes no other one. -/
theorem perform_input {m : Machine} (h : m.tape.InRange) :
    ∃ m', m.perform .input = .done m' ∧
      m'.tape = m.tape.set m.tape.pointer.toNat (m.valueAhead 0) := by
  simp only [perform, read, takeLine_eq, assign, record, Tape.slot?_of_inRange h]
  exact ⟨_, rfl, rfl⟩

end Machine

namespace Config

variable {bound : Option Nat} {c c' : Config} {mark : Option Mark}

/-- A step leaves the lines that it does not read. -/
theorem input_of_next (h : c.advance bound = .next mark c') :
    c'.machine.input =
      c.machine.input.drop (completions .input (entriesOf mark c'.machine)).length := by
  rcases c.next_cases h with ⟨d, rfl, hperform⟩ | ⟨rfl, -, hm⟩ | ⟨rfl, hm⟩
  · rw [(Machine.events_perform hperform).2]
    cases d with
    | input => exact List.drop_one.symm
    | increment | decrement | right | left | output => rfl
  · rw [hm]
    rfl
  · rw [hm]
    rfl

/-- What is ahead behind a step was as much further ahead as the step reads lines. -/
theorem valueAhead_of_next (h : c.advance bound = .next mark c') (k : Nat) :
    c'.machine.valueAhead k = c.machine.valueAhead
      ((completions .input (entriesOf mark c'.machine)).length + k) := by
  simp only [Machine.valueAhead, input_of_next h, List.getD_eq_getElem?_getD, List.getElem?_drop]

/-- A `,` that the limit allows is performed, and stores the value of the next line. -/
theorem advance_of_read (bound : Option Nat) (hrange : c.machine.tape.InRange) {s : Option Span}
    {rest : Program}
    (hblock : c.block = .command .input s rest)
    (hlimit : ∀ l, c.machine.limit = some l → (c.machine.steps : Int) + 1 ≤ l) :
    ∃ m', c.advance bound = .next (some (.command .input)) ⟨rest, c.frames, m'⟩ ∧
      m'.tape = c.machine.tape.set c.machine.tape.pointer.toNat (c.machine.valueAhead 0) := by
  obtain ⟨block, frames, m⟩ := c
  obtain rfl : block = .command .input s rest := hblock
  obtain ⟨m', hread, htape⟩ := Machine.perform_input (m := m.counted) hrange
  refine ⟨m', ?_, htape⟩
  rw [advance_of_tick _ (fun hdone => by cases hdone.1) (m.tick_eq_done hlimit)]
  simp only [onMachine, act, hread]

/-- Behind a `,` the current cell holds the value of the line that it has read. -/
theorem value_of_read (hrange : c.machine.tape.InRange)
    (h : c.advance bound = .next (some (.command .input)) c') :
    c'.machine.tape.current? = some (c.machine.valueAhead 0) := by
  rcases c.next_cases h with ⟨d, hd, hperform⟩ | ⟨hloop, -⟩ | ⟨hnone, -⟩
  · cases hd
    obtain ⟨m', hread, htape⟩ := Machine.perform_input (m := c.machine.counted) hrange
    rw [hread, Effect.done.injEq] at hperform
    rw [← hperform, htape]
    exact Tape.current?_set (t := c.machine.tape) hrange _
  · cases hloop
  · cases hnone

/-- What is ahead behind a run was as much further ahead as the run has completed `,`. -/
theorem valueAhead_run (bound : Option Nat) (hrange : c.machine.tape.InRange) (n k : Nat) :
    (c.run bound n).machine.valueAhead k =
      c.machine.valueAhead ((completions .input (c.trace bound n)).length + k) := by
  apply trace_induction (P := fun m trace m' =>
    m'.valueAhead k = m.valueAhead ((completions .input trace).length + k)) _ _ _ hrange n
  · intro m
    exact congrArg m.valueAhead (Nat.zero_add k).symm
  · intro m
    exact congrArg m.valueAhead (Nat.zero_add k).symm
  · intro c c' mark trace m hstep htrace
    rw [htrace, valueAhead_of_next hstep, completions_append, List.length_append, Nat.add_assoc]

/-- The `,` that a run completes store the values of its lines, in their order. -/
theorem values_run (bound : Option Nat) (hrange : c.machine.tape.InRange) (n : Nat) :
    (completions .input (c.trace bound n)).map TraceEntry.value =
      (List.range (completions .input (c.trace bound n)).length).map c.machine.valueAhead := by
  refine trace_induction (P := fun m trace _ => m.tape.InRange →
    (completions .input trace).map TraceEntry.value =
      (List.range (completions .input trace).length).map m.valueAhead) ?_ ?_ ?_ hrange n hrange
  · intro m _
    rfl
  · intro m _
    rfl
  · intro c c' mark trace m hstep htrace hrange
    have hahead := valueAhead_of_next hstep
    rw [completions_append, List.map_append, List.length_append,
      htrace (inRange_of_next hrange hstep)]
    by_cases hread : mark = some (.command .input)
    · -- The new entry shows the value of the first line, and the others are one line further on.
      subst hread
      have hentry : completions .input (entriesOf (some (.command .input)) c'.machine) =
          [.ofMachine (.command .input) c'.machine] := rfl
      have hvalue : (TraceEntry.ofMachine (.command .input) c'.machine).value =
          c.machine.valueAhead 0 := by
        rw [TraceEntry.ofMachine, value_of_read hrange hstep, Option.getD_some]
      rw [hentry] at hahead ⊢
      rw [List.range_add, List.map_append, List.map_map, List.map_singleton, hvalue]
      exact congrArg _ (List.map_congr_left fun k _ => hahead k)
    · rw [completions_entriesOf_of_ne hread] at hahead ⊢
      simpa using fun k _ => hahead k

end Config

/-! ## What a run does not see -/

/-- The event without the text of a line. -/
def Event.veiled : Event → Event
  | readLine _ => readLine []
  | write c => write c
  | flush => flush

@[simp]
theorem Event.written_veiled (e : Event) : e.veiled.written = e.written := by
  cases e <;> rfl

namespace Machine

variable (m : Machine)

/-- The machine without its lines: those that are left are taken away, and of those that have been
read the texts are forgotten. -/
def veiled : Machine :=
  { m with input := [], events := m.events.map Event.veiled }

/-- Without its lines a machine has written the same. -/
theorem output_veiled : m.veiled.output = m.output := by
  simp [output, veiled, List.flatMap_map]

theorem record_veiled (e : Event) : (m.record e).veiled = m.veiled.record e.veiled := by
  simp [record, veiled]

theorem update_veiled (f : Int → Int) : m.veiled.update f = (m.update f).map veiled := by
  simp only [update, veiled]
  split <;> rfl

theorem assign_veiled (v : Int) : m.veiled.assign v = (m.assign v).map veiled := by
  simp only [assign, veiled]
  split <;> rfl

theorem move_veiled (delta : Int) : m.veiled.move delta = (m.move delta).map veiled := by
  simp only [move, veiled]
  split <;> rfl

theorem write_veiled : m.veiled.write = m.write.map veiled := by
  rw [write, write, show m.veiled.tape = m.tape from rfl]
  split
  · rfl
  · split
    · rw [Effect.map, record_veiled]
      rfl
    · rfl

theorem takeLine_veiled : m.takeLine.2.veiled = m.veiled.takeLine.2 := by
  rw [takeLine_eq, takeLine_eq]
  simp [record, veiled, Event.veiled]

/-- Apart from the lines, a `,` does the same with one value whatever its line was. -/
theorem read_veiled : m.read.map veiled = m.veiled.takeLine.2.assign (m.valueAhead 0) := by
  rw [read, ← takeLine_veiled, assign_veiled, takeLine_eq]

theorem perform_veiled {d : Command} (h : d ≠ .input) :
    m.veiled.perform d = (m.perform d).map veiled := by
  cases d with
  | increment => exact m.update_veiled _
  | decrement => exact m.update_veiled _
  | right => exact m.move_veiled 1
  | left => exact m.move_veiled (-1)
  | output => exact m.write_veiled
  | input => exact absurd rfl h

/-- The limit strikes two machines that are alike apart from their lines at the same time. -/
theorem tick_alike {m₁ m₂ : Machine} (h : m₁.veiled = m₂.veiled) :
    (∃ l, m₁.tick = .failed (.stepLimit l) m₁.counted ∧
      m₂.tick = .failed (.stepLimit l) m₂.counted) ∨
    m₁.tick = .done m₁.counted ∧ m₂.tick = .done m₂.counted := by
  obtain ⟨-, -, hsteps, hlimit, -⟩ := Machine.mk.inj h
  by_cases hover : ∃ l, m₁.limit = some l ∧ l < (m₁.steps : Int) + 1
  · obtain ⟨l, hl, hlt⟩ := hover
    exact Or.inl ⟨l, m₁.tick_eq_failed hl hlt,
      m₂.tick_eq_failed (hlimit.symm.trans hl) (by rwa [← hsteps])⟩
  · have hbelow : ∀ l, m₁.limit = some l → (m₁.steps : Int) + 1 ≤ l := fun l hl =>
      Int.not_lt.1 fun hlt => hover ⟨l, hl, hlt⟩
    exact Or.inr ⟨m₁.tick_eq_done hbelow, m₂.tick_eq_done (by rwa [← hlimit, ← hsteps])⟩

/-- Machines that are alike apart from their lines are so behind a command, unless it is a `,` that
stores different values. -/
theorem perform_alike {m₁ m₂ : Machine} (h : m₁.veiled = m₂.veiled) (d : Command)
    (hread : ∀ m, m₁.perform d = .done m → d = .input → m₁.valueAhead 0 = m₂.valueAhead 0) :
    (m₁.perform d).map veiled = (m₂.perform d).map veiled := by
  by_cases hd : d = .input
  · subst hd
    cases hperform : m₁.perform .input with
    | done m =>
      rw [← hperform, perform, perform, read_veiled, read_veiled, h, hread m hperform rfl]
    | failed e m =>
      -- There is no cell to store it in, whatever the value would be.
      have hslot : m₁.tape.slot? = none := by
        simp only [perform, read, takeLine_eq, assign, record] at hperform
        split at hperform
        · assumption
        · cases hperform
      have hsame : ∀ v w, m₂.veiled.takeLine.2.assign v = m₂.veiled.takeLine.2.assign w := by
        intro v w
        have hslot₂ : m₂.veiled.takeLine.2.tape.slot? = none := by
          rw [takeLine_eq, ← h]
          exact hslot
        rw [assign, assign, hslot₂]
      rw [← hperform, perform, perform, read_veiled, read_veiled, h]
      exact hsame _ _
  · rw [← perform_veiled m₁ hd, ← perform_veiled m₂ hd, h]

end Machine

/-- The configuration on a machine without its lines. -/
def Config.veiled (c : Config) : Config :=
  c.onMachine c.machine.veiled

/-- The outcome of a step without the lines of its machine. -/
def Step.veiled (o : Step) : Step :=
  o.map Config.veiled Machine.veiled

/-- How a run stands, without the lines of its machine. -/
def Ending.veiled (o : Ending) : Ending :=
  o.map Config.veiled Machine.veiled

/-- Without its lines a run has written the same. -/
theorem Ending.output_veiled (o : Ending) : o.veiled.machine.output = o.machine.output := by
  cases o <;> exact Machine.output_veiled _

namespace Config

variable {bound : Option Nat} {c₁ c₂ : Config}

theorem done_iff_of_veiled (h : c₁.veiled = c₂.veiled) : c₁.Done ↔ c₂.Done := by
  obtain ⟨hblock, hframes, -⟩ := Config.mk.inj h
  rw [Done, Done, hblock, hframes]

/-- What a step does once it has been counted does not depend on the lines, unless it is a `,` that
stores different values. -/
theorem act_alike (h : c₁.veiled = c₂.veiled)
    (hread : ∀ c, c₁.act bound = .next (some (.command .input)) c →
      c₁.machine.valueAhead 0 = c₂.machine.valueAhead 0) :
    (c₁.act bound).veiled = (c₂.act bound).veiled := by
  obtain ⟨block, frames, m₁⟩ := c₁
  obtain ⟨block₂, frames₂, m₂⟩ := c₂
  obtain ⟨rfl, rfl, hm⟩ : block = block₂ ∧ frames = frames₂ ∧ m₁.veiled = m₂.veiled := by
    simpa [veiled, onMachine] using h
  -- Every choice is made on the tape, and the tapes are the same.
  have htape : m₁.tape = m₂.tape := (Machine.mk.inj hm).1
  cases block with
  | nil =>
    cases frames with
    | nil => exact congrArg Step.finished hm
    | cons f outer =>
      simp only [act, htape]
      split
      · simp only [Step.veiled, Step.map, hm]
      · split <;> simp only [Step.veiled, Step.map, veiled, onMachine, hm]
  | command d s rest =>
    -- Only `,` looks at the lines, and then both store the same value.
    have hperform : (m₁.perform d).map Machine.veiled = (m₂.perform d).map Machine.veiled := by
      refine Machine.perform_alike hm d fun m hdone hd => ?_
      subst hd
      exact hread ⟨rest, frames, m⟩ (by simp only [act, hdone])
    cases h₁ : m₁.perform d <;> cases h₂ : m₂.perform d <;>
      simp only [h₁, h₂, Effect.map, Effect.failed.injEq, Effect.done.injEq, reduceCtorEq]
        at hperform
    · simp only [act, h₁, h₂, Step.veiled, Step.map, veiled, onMachine, hperform]
    · simp only [act, h₁, h₂, Step.veiled, Step.map, hperform]
  | loop b s rest =>
    simp only [act, htape]
    split
    · simp only [Step.veiled, Step.map, hm]
    · split
      · simp only [Step.veiled, Step.map, veiled, onMachine, hm]
      · split <;> simp only [Step.veiled, Step.map, veiled, onMachine, hm]
  | foreign n rest => simp only [act, Step.veiled, Step.map, hm]

/-- Configurations that are alike apart from their lines are so behind a step, unless it is a `,`
that stores different values. -/
theorem advance_alike (h : c₁.veiled = c₂.veiled)
    (hread : ∀ c, c₁.advance bound = .next (some (.command .input)) c →
      c₁.machine.valueAhead 0 = c₂.machine.valueAhead 0) :
    (c₁.advance bound).veiled = (c₂.advance bound).veiled := by
  obtain ⟨hblock, hframes, hm⟩ := Config.mk.inj h
  by_cases hdone : c₁.Done
  · rw [advance_of_done c₁ hdone, advance_of_done c₂ ((done_iff_of_veiled h).1 hdone)]
    exact congrArg Step.finished hm
  · have hdone₂ : ¬ c₂.Done := mt (done_iff_of_veiled h).2 hdone
    have hcounted : c₁.machine.counted.veiled = c₂.machine.counted.veiled :=
      congrArg Machine.counted hm
    rcases Machine.tick_alike hm with ⟨l, htick₁, htick₂⟩ | ⟨htick₁, htick₂⟩
    · rw [advance_eq c₁ bound hdone, htick₁, advance_eq c₂ bound hdone₂, htick₂]
      exact congrArg (Step.failed (.stepLimit l)) hcounted
    · rw [advance_of_tick c₁ hdone htick₁] at hread ⊢
      rw [advance_of_tick c₂ hdone₂ htick₂]
      exact act_alike ((Config.mk.injEq ..).mpr ⟨hblock, hframes, hcounted⟩) hread

/-- Texts that give the same values, as far as they are read, lead to the same run and the same
trace, apart from the lines. -/
theorem run_alike (h : c₁.veiled = c₂.veiled) (n : Nat)
    (hagree : ∀ k < (completions .input (c₁.trace bound n)).length,
      c₁.machine.valueAhead k = c₂.machine.valueAhead k) :
    (c₁.run bound n).veiled = (c₂.run bound n).veiled ∧ c₁.trace bound n = c₂.trace bound n := by
  -- The values that agree are counted from where the two runs stand, so both may be anywhere.
  induction n generalizing c₁ c₂ with
  | zero =>
    refine ⟨?_, rfl⟩
    by_cases hdone : c₁.Done
    · rw [run_of_done c₁ hdone, run_of_done c₂ ((done_iff_of_veiled h).1 hdone)]
      exact congrArg Ending.finished (Config.mk.inj h).2.2
    · rw [run_zero c₁ hdone, run_zero c₂ (mt (done_iff_of_veiled h).2 hdone)]
      exact congrArg Ending.unfinished h
  | succ n ih =>
    -- If a `,` is completed, its value is the first of those that agree.
    have hread : ∀ c, c₁.advance bound = .next (some (.command .input)) c →
        c₁.machine.valueAhead 0 = c₂.machine.valueAhead 0 := by
      intro c hnext
      refine hagree 0 ?_
      rw [trace_of_next hnext, completions_append, List.length_append]
      exact Nat.lt_add_right _ Nat.one_pos
    -- Steps that agree are of one kind.
    have hstep := advance_alike h hread
    cases h₁ : c₁.advance bound <;> cases h₂ : c₂.advance bound <;>
      simp only [h₁, h₂, Step.veiled, Step.map, Step.finished.injEq, Step.next.injEq,
        Step.failed.injEq, reduceCtorEq] at hstep
    · rw [run, h₁, run, h₂, trace, h₁, trace, h₂]
      exact ⟨congrArg Ending.finished hstep, rfl⟩
    · next mark c₁' mark' c₂' =>
      obtain ⟨rfl, hc⟩ := hstep
      have hentries : entriesOf mark c₁'.machine.veiled = entriesOf mark c₂'.machine.veiled :=
        congrArg (entriesOf mark) (Config.mk.inj hc).2.2
      change entriesOf mark c₁'.machine = entriesOf mark c₂'.machine at hentries
      -- A step that completes a `,` uses up the first of the values that agree, any other one none.
      have hlater : ∀ k < (completions .input (c₁'.trace bound n)).length,
          c₁'.machine.valueAhead k = c₂'.machine.valueAhead k := by
        intro k hk
        rw [valueAhead_of_next h₁, valueAhead_of_next h₂, ← hentries]
        refine hagree _ ?_
        rw [trace_of_next h₁, completions_append, List.length_append]
        exact Nat.add_lt_add_left hk _
      obtain ⟨hrun, htrace⟩ := ih hc hlater
      rw [run_of_next c₁ h₁, run_of_next c₂ h₂, trace_of_next h₁, trace_of_next h₂]
      exact ⟨hrun, by rw [hentries, htrace]⟩
    · obtain ⟨rfl, hm⟩ := hstep
      rw [run, h₁, run, h₂, trace, h₁, trace, h₂]
      exact ⟨congrArg (Ending.failed _) hm, rfl⟩

end Config

/-- The machine with a text as its input. -/
def Machine.given (m : Machine) (text : List Text.CodePoint) : Machine :=
  { m with input := Text.lines text }

theorem Machine.valueAhead_given (m : Machine) (text : List Text.CodePoint) (k : Nat) :
    (m.given text).valueAhead k = Text.inputValue text k :=
  Text.lineValue_lines text k

namespace Program

variable (bound : Option Nat) (p : Program) (m : Machine)

/-- The entries of the `,` that a run on a text completes. -/
def reads (text : List Text.CodePoint) (n : Nat) : List TraceEntry :=
  completions .input (p.runTraced bound n (m.given text)).1.toList

theorem reads_eq (text : List Text.CodePoint) (n : Nat) : p.reads bound m text n =
    completions .input (Config.trace bound n ⟨p, [], m.given text⟩) := by
  rw [reads, runTraced_eq]

/-- A run sees its text only through the numbers that this gives. If the pointer is on the tape, the
`k`-th `,` that a run executes stores the `k`-th number of the text, whatever was executed before:
the entries of these `,` show the numbers in their order, and wherever the run stands in front of a
`,` and the limit allows a step, this step puts the next number into the current cell. No such
number is that of a line feed. Two texts that give the same numbers as far as they are read lead
to the same run, apart from the lines: how it stands, its tape, its pointer, its counter, its output
and its trace are the same. -/
theorem sees_line_starts :
    (m.tape.InRange → ∀ text n,
      (p.reads bound m text n).map TraceEntry.value =
        (List.range (p.reads bound m text n).length).map (Text.inputValue text) ∧
      ∀ c s rest, p.run bound n (m.given text) = .unfinished c → c.block = .command .input s rest →
        (∀ l, c.machine.limit = some l → (c.machine.steps : Int) + 1 ≤ l) →
        ∃ m', c.advance bound = .next (some (.command .input)) ⟨rest, c.frames, m'⟩ ∧
          m'.tape = c.machine.tape.set c.machine.tape.pointer.toNat
            (Text.inputValue text (p.reads bound m text n).length)) ∧
    (∀ text k, Text.inputValue text k ≠ 10) ∧
    ∀ text text' n,
      (∀ k < (p.reads bound m text n).length,
        Text.inputValue text k = Text.inputValue text' k) →
      (p.run bound n (m.given text')).veiled = (p.run bound n (m.given text)).veiled ∧
      (p.run bound n (m.given text')).machine.output =
        (p.run bound n (m.given text)).machine.output ∧
      (p.runTraced bound n (m.given text')).1 = (p.runTraced bound n (m.given text)).1 := by
  refine ⟨fun hrange text n => ⟨?_, ?_⟩, Text.inputValue_ne_lineFeed, fun text text' n hagree => ?_⟩
  · rw [reads_eq, Config.values_run bound (c := ⟨p, [], m.given text⟩) hrange n]
    exact List.map_congr_left fun k _ => m.valueAhead_given text k
  · intro c s rest hrun hblock hlimit
    -- The value that is next when the run has come so far is the next one of the text.
    have hc : c.machine.tape.InRange :=
      Config.inRange_of_unfinished (c := ⟨p, [], m.given text⟩) hrange hrun
    have hahead : (Ending.unfinished c).machine.valueAhead 0 =
        (m.given text).valueAhead (p.reads bound m text n).length := by
      rw [reads_eq, ← hrun]
      exact Config.valueAhead_run (c := ⟨p, [], m.given text⟩) bound hrange n 0
    obtain ⟨m', hnext, htape⟩ := Config.advance_of_read bound hc hblock hlimit
    refine ⟨m', hnext, ?_⟩
    rw [htape, ← m.valueAhead_given, ← hahead]
    rfl
  -- Apart from the lines both runs start from the same configuration.
  · have halike : Config.veiled ⟨p, [], m.given text⟩ = Config.veiled ⟨p, [], m.given text'⟩ := rfl
    have hahead : ∀ k < (completions .input (Config.trace bound n ⟨p, [], m.given text⟩)).length,
        (m.given text).valueAhead k = (m.given text').valueAhead k := by
      intro k hk
      rw [← reads_eq] at hk
      rw [m.valueAhead_given, m.valueAhead_given, hagree k hk]
    obtain ⟨hrun, htrace⟩ := Config.run_alike halike n hahead
    refine ⟨hrun.symm, ?_, by rw [runTraced_eq, runTraced_eq, htrace]⟩
    rw [← Ending.output_veiled, ← Ending.output_veiled (p.run bound n (m.given text))]
    exact congrArg (fun o => o.machine.output) hrun.symm

/-- Three lines with breaks of all kinds, one of them empty and one with a break in front, are read
past their end. Of another text that has the same numbers in its first two lines and not in the
third, a run that reads two lines sees no difference. -/
theorem sees_line_starts_breaks :
    let p : Program := .ofCommands [.input, .output, .right, .input]
    let q : Program := .ofCommands [.input, .input, .input, .input]
    let m : Machine := { tape := ⟨#[0, 0], 0⟩ }
    let text := Text.codePoints "bc\r\n\n\rd".toList
    let text' := Text.codePoints "b\n\r\r\nz".toList
    m.tape.InRange ∧
      (q.reads none m text 4).map TraceEntry.value = [98, 0, 13, 0] ∧
      (p.reads none m text 4).length = 2 ∧
      (∀ k < 2, Text.inputValue text k = Text.inputValue text' k) ∧
      Text.inputValue text 2 ≠ Text.inputValue text' 2 ∧
      (p.run none 4 (m.given text')).veiled = (p.run none 4 (m.given text)).veiled := by
  intro p q m text text'
  have hrange : m.tape.InRange := by decide
  have hcount : (p.reads none m text 4).length = 2 := by decide
  have hagree : ∀ k < 2, Text.inputValue text k = Text.inputValue text' k := by decide
  obtain ⟨hvalues, -⟩ := (sees_line_starts none q m).1 hrange text 4
  obtain ⟨-, -, hsame⟩ := sees_line_starts none p m
  refine ⟨hrange, ?_, hcount, hagree, by decide, (hsame text text' 4 (hcount ▸ hagree)).1⟩
  rw [hvalues]
  decide

end Program

end TapeLang
