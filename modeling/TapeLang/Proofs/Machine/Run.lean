import Mathlib.Data.List.Infix
import Mathlib.Order.Basic
import TapeLang.Machine.Run

/-!
# Steps and runs

What every step does, said once. A step that has anything to do is counted first
(`Config.advance_eq`); what it does then is `Config.act`, which neither sees nor changes the counter
(`Config.act_withCounter`). All commands are covered by `Machine.perform_withCounter`.

* `Config.run_add`: a run goes on where a shorter run has stopped.
* `Config.run_map_until_done`, `Config.run_map`: a map of configurations that goes along with every
  step goes along with runs.
* `Config.advance_preserves`, `Config.run_preserves`: what every command preserves is preserved by
  steps, and what every step preserves is preserved by runs.
* `Config.exists_step_of_failed`: a run that fails does so at one of its steps.
-/

namespace TapeLang

/-! ## Maps of outcomes -/

/-- Change the machine that an effect leaves behind. -/
def Effect.map (g : Machine → Machine) : Effect → Effect
  | done m => .done (g m)
  | failed e m => .failed e (g m)

/-- The machine that an effect leaves behind. -/
def Effect.machine : Effect → Machine
  | done m => m
  | failed _ m => m

/-- The machine that a step leaves behind. -/
def Step.machine : Step → Machine
  | finished m => m
  | next _ c => c.machine
  | failed _ m => m

/-- What a step does to the machine. -/
def Step.effect : Step → Effect
  | finished m => .done m
  | next _ c => .done c.machine
  | failed e m => .failed e m

theorem Step.machine_effect (o : Step) : o.effect.machine = o.machine := by
  cases o <;> rfl

/-- Change the configuration to which a step leads, and the machine with which it ends. -/
def Step.map (f : Config → Config) (g : Machine → Machine) : Step → Step
  | finished m => .finished (g m)
  | next mark c => .next mark (f c)
  | failed e m => .failed e (g m)

/-- Change the configuration at which a run stands, and the machine with which it ends. -/
def Ending.map (f : Config → Config) (g : Machine → Machine) : Ending → Ending
  | finished m => .finished (g m)
  | failed e m => .failed e (g m)
  | unfinished c => .unfinished (f c)

/-- The run has ended, with an error or without. -/
def Ending.Ended : Ending → Prop
  | finished _ | failed _ _ => True
  | unfinished _ => False

instance (o : Ending) : Decidable o.Ended := by
  cases o <;> unfold Ending.Ended <;> infer_instance

/-- Two runs stand alike: both have ended or neither has, with the same error if there is one, and
the machine of the first is that of the second, changed as said. What is left to do may differ. -/
structure Ending.Agrees (g : Machine → Machine) (o o' : Ending) : Prop where
  /-- Both have ended, or neither has. -/
  ended_iff : o.Ended ↔ o'.Ended
  /-- They have failed with the same error, or not at all. -/
  error_eq : o.error? = o'.error?
  /-- Their machines differ as said. -/
  machine_eq : o.machine = g o'.machine

theorem Ending.agrees_finished (g : Machine → Machine) (m : Machine) :
    (Ending.finished (g m)).Agrees g (.finished m) :=
  ⟨Iff.rfl, rfl, rfl⟩

theorem Ending.agrees_failed (g : Machine → Machine) (e : RunError) (m : Machine) :
    (Ending.failed e (g m)).Agrees g (.failed e m) :=
  ⟨Iff.rfl, rfl, rfl⟩

theorem Ending.agrees_unfinished {g : Machine → Machine} {c c' : Config}
    (h : c.machine = g c'.machine) : (Ending.unfinished c).Agrees g (.unfinished c') :=
  ⟨Iff.rfl, rfl, h⟩

/-! ## Characters -/

/-- A number that is a code point is the number of the character made from it. -/
theorem toNat_ofNat_of_isCodePoint {v : Int} (h : isCodePoint v = true) :
    ((Char.ofNat v.toNat).toNat : Int) = v := by
  simp only [isCodePoint, Bool.and_eq_true, Bool.not_eq_true', Bool.and_eq_false_iff,
    decide_eq_true_eq, decide_eq_false_iff_not] at h
  have hvalid : v.toNat.isValidChar := by
    unfold Nat.isValidChar
    omega
  have hnumber : (Char.ofNat v.toNat).toNat = v.toNat := by
    rw [Char.ofNat, dif_pos hvalid]
    rfl
  omega

/-- The code points that can be written are the characters. -/
theorem isCodePoint_val (c : Text.CodePoint) : isCodePoint c.val = !Text.isSurrogate c := by
  have hlt := c.isLt
  rw [Bool.eq_iff_iff, Bool.not_eq_true', ← Bool.not_eq_true]
  simp only [isCodePoint, Text.isSurrogate, Bool.and_eq_true, Bool.not_eq_true',
    Bool.and_eq_false_iff, decide_eq_true_eq, decide_eq_false_iff_not]
  omega

/-! ## The counter -/

namespace Machine

variable (m : Machine)

/-- The machine with its step counter raised by one. -/
def counted : Machine :=
  { m with steps := m.steps + 1 }

/-- The machine with another step counter and another limit. -/
def withCounter (steps : Nat) (limit : Option Int) : Machine :=
  { m with steps, limit }

/-- Below the limit a step is only counted. -/
theorem tick_eq_done (h : ∀ l, m.limit = some l → (m.steps : Int) + 1 ≤ l) :
    m.tick = .done m.counted := by
  unfold tick
  split
  · rfl
  · next l hl => exact if_neg (Int.not_lt.2 (h l hl))

/-- Without a limit a step is only counted. -/
theorem tick_of_unlimited (h : m.limit = none) : m.tick = .done m.counted :=
  m.tick_eq_done (by simp [h])

/-- Past the limit a step fails, and is counted all the same. -/
theorem tick_eq_failed {l : Int} (hl : m.limit = some l) (h : l < (m.steps : Int) + 1) :
    m.tick = .failed (.stepLimit l) m.counted := by
  simp only [tick, hl, if_pos h, counted]

/-- The only question to a step is whether the limit lets the counter go up by one. -/
theorem tick_cases :
    (∃ l, m.limit = some l ∧ l < (m.steps : Int) + 1 ∧
      m.tick = .failed (.stepLimit l) m.counted) ∨ m.tick = .done m.counted := by
  by_cases hlimit : ∀ l, m.limit = some l → (m.steps : Int) + 1 ≤ l
  · exact Or.inr (m.tick_eq_done hlimit)
  · simp only [not_forall, Int.not_le] at hlimit
    obtain ⟨l, hl, hover⟩ := hlimit
    exact Or.inl ⟨l, hl, hover, m.tick_eq_failed hl hover⟩

section Operations

variable (steps : Nat) (limit : Option Int)

theorem update_withCounter (f : Int → Int) :
    (m.withCounter steps limit).update f =
      (m.update f).map fun m => m.withCounter steps limit := by
  simp only [update, withCounter]
  split <;> rfl

theorem assign_withCounter (value : Int) :
    (m.withCounter steps limit).assign value =
      (m.assign value).map fun m => m.withCounter steps limit := by
  simp only [assign, withCounter]
  split <;> rfl

theorem move_withCounter (delta : Int) :
    (m.withCounter steps limit).move delta =
      (m.move delta).map fun m => m.withCounter steps limit := by
  simp only [move, withCounter]
  split <;> rfl

theorem write_withCounter :
    (m.withCounter steps limit).write = m.write.map fun m => m.withCounter steps limit := by
  simp only [write, withCounter]
  split
  · rfl
  · split <;> rfl

theorem takeLine_withCounter :
    (m.withCounter steps limit).takeLine =
      (m.takeLine.1, m.takeLine.2.withCounter steps limit) := by
  cases h : m.input <;> simp [takeLine, withCounter, record, h]

/-- A command neither sees nor changes the counter. -/
theorem perform_withCounter (c : Command) :
    (m.withCounter steps limit).perform c =
      (m.perform c).map fun m => m.withCounter steps limit := by
  cases c with
  | increment => exact m.update_withCounter steps limit _
  | decrement => exact m.update_withCounter steps limit _
  | right => exact m.move_withCounter steps limit 1
  | left => exact m.move_withCounter steps limit (-1)
  | output => exact m.write_withCounter steps limit
  | input =>
    -- The line is taken before it is known whether it can be stored.
    rw [perform, read, takeLine_withCounter]
    exact m.takeLine.2.assign_withCounter steps limit m.takeLine.1

end Operations

/-- A step is counted whether the limit lets it go on or not. -/
theorem machine_tick : m.tick.machine = m.counted := by
  rcases m.tick_cases with ⟨l, -, -, htick⟩ | htick <;> rw [htick] <;> rfl

/-- A command leaves the counter as it is. -/
theorem perform_counter (c : Command) :
    (m.perform c).machine.steps = m.steps ∧ (m.perform c).machine.limit = m.limit := by
  -- Set the counter to what it is: the effect then has the same counter, whatever it is.
  have h := m.perform_withCounter m.steps m.limit c
  rw [show m.withCounter m.steps m.limit = m from rfl] at h
  rw [h]
  cases m.perform c <;> exact ⟨rfl, rfl⟩

/-! ## The output -/

/-- Nothing is written between two machines, or the character whose number the current cell of the
first one holds. -/
def WritesCell (m m' : Machine) : Prop :=
  m'.output = m.output ∨
    ∃ ch : Char, m.tape.current? = some (ch.toNat : Int) ∧ isCodePoint ch.toNat = true ∧
      m'.output = m.output ++ [ch]

theorem WritesCell.output_grows {m m' : Machine} (h : m.WritesCell m') :
    m.output <+: m'.output := by
  rcases h with h | ⟨ch, -, -, h⟩
  · rw [h]
  · exact ⟨[ch], h.symm⟩

theorem output_update (f : Int → Int) : (m.update f).machine.output = m.output := by
  unfold update
  split <;> rfl

theorem output_assign (value : Int) : (m.assign value).machine.output = m.output := by
  unfold assign
  split <;> rfl

theorem output_move (delta : Int) : (m.move delta).machine.output = m.output := by
  unfold move
  split <;> rfl

theorem output_takeLine : m.takeLine.2.output = m.output := by
  unfold takeLine
  split <;> simp [output, record, Event.written]

theorem output_close : m.close.output = m.output ++ ['\n'] := by
  simp [close, Event.written]

/-- The current cell is written as the character of this very number, or nothing is written. -/
theorem writesCell_write : m.WritesCell m.write.machine := by
  unfold write
  split
  · exact Or.inl rfl
  · next v hv =>
    split
    · next hcode =>
      have hnumber := toNat_ofNat_of_isCodePoint hcode
      refine Or.inr ⟨Char.ofNat v.toNat, by rw [hnumber, hv], by rw [hnumber, hcode], ?_⟩
      simp [Effect.machine, Event.written]
    · exact Or.inl rfl

/-- A command writes the current cell or nothing. -/
theorem writesCell_perform (c : Command) : m.WritesCell (m.perform c).machine := by
  cases c with
  | increment => exact Or.inl (m.output_update _)
  | decrement => exact Or.inl (m.output_update _)
  | right => exact Or.inl (m.output_move 1)
  | left => exact Or.inl (m.output_move (-1))
  | output => exact m.writesCell_write
  | input =>
    left
    rw [perform, read, output_assign, output_takeLine]

end Machine

/-! ## Steps -/

/-- The room for loops is a matter of the number of frames only. -/
theorem isFull_congr {bound : Option Nat} {frames frames' : List Frame}
    (h : frames.length = frames'.length) : isFull bound frames = isFull bound frames' := by
  cases bound with
  | none => rfl
  | some n => rw [isFull, isFull, h]

namespace Config

variable {bound : Option Nat} (c : Config)

/-- Nothing is left to do. -/
def Done : Prop :=
  c.block = .nil ∧ c.frames = []

instance : Decidable c.Done := by
  unfold Done
  infer_instance

/-- The configuration on another machine. -/
def onMachine (m : Machine) : Config :=
  { c with machine := m }

/-- The configuration with another step counter and another limit. -/
def withCounter (steps : Nat) (limit : Option Int) : Config :=
  c.onMachine (c.machine.withCounter steps limit)

/-- What a step does once it has been counted. -/
def act (bound : Option Nat) : Config → Step
  | ⟨.nil, [], m⟩ => .finished m
  | ⟨.nil, f :: outer, m⟩ =>
    match m.tape.current? with
    | none => .failed (m.tape.cause .unreadable) m
    | some v =>
      if v = 0 then .next (some .loop) ⟨f.rest, outer, m⟩
      else .next none ⟨f.body, f :: outer, m⟩
  | ⟨.command c _ rest, frames, m⟩ =>
    match m.perform c with
    | .failed e m => .failed e m
    | .done m => .next (some (.command c)) ⟨rest, frames, m⟩
  | ⟨.loop body _ rest, frames, m⟩ =>
    match m.tape.current? with
    | none => .failed (m.tape.cause .unreadable) m
    | some v =>
      if v = 0 then .next (some .loop) ⟨rest, frames, m⟩
      else if isFull bound frames then .failed .tooDeep m
      else .next none ⟨body, ⟨body, rest⟩ :: frames, m⟩
  | ⟨.foreign name _, _, m⟩ => .failed (.foreign name) m

theorem advance_of_done (h : c.Done) : c.advance bound = .finished c.machine := by
  obtain ⟨block, frames, m⟩ := c
  obtain ⟨rfl, rfl⟩ := h
  rfl

/-- A step that has anything to do is counted, and then it acts. -/
theorem advance_eq (bound : Option Nat) (h : ¬ c.Done) :
    c.advance bound =
      match c.machine.tick with
      | .failed e m => .failed e m
      | .done m => (c.onMachine m).act bound := by
  obtain ⟨block, frames, m⟩ := c
  cases block with
  | nil =>
    cases frames with
    | nil => exact absurd ⟨rfl, rfl⟩ h
    | cons f outer => rfl
  | command d s rest => rfl
  | loop b s rest => rfl
  | foreign n rest => rfl

/-- A step that the limit allows acts on the counted machine. -/
theorem advance_of_tick {m : Machine} (h : ¬ c.Done) (htick : c.machine.tick = .done m) :
    c.advance bound = (c.onMachine m).act bound := by
  rw [advance_eq c bound h, htick]

/-- The outcome of a step neither sees nor changes the counter. -/
theorem act_withCounter (bound : Option Nat) (steps : Nat) (limit : Option Int) :
    (c.withCounter steps limit).act bound =
      (c.act bound).map (fun c => c.withCounter steps limit)
        fun m => m.withCounter steps limit := by
  obtain ⟨block, frames, m⟩ := c
  cases block with
  | nil =>
    cases frames with
    | nil => rfl
    | cons f outer =>
      simp only [withCounter, onMachine, act, Machine.withCounter]
      split
      · rfl
      · split <;> rfl
  | command d s rest =>
    simp only [withCounter, onMachine, act, Machine.perform_withCounter]
    cases m.perform d <;> rfl
  | loop b s rest =>
    simp only [withCounter, onMachine, act, Machine.withCounter]
    split
    · rfl
    · split
      · rfl
      · split <;> rfl
  | foreign n rest => rfl

theorem act_counter (bound : Option Nat) :
    (c.act bound).machine.steps = c.machine.steps ∧
      (c.act bound).machine.limit = c.machine.limit := by
  -- Set the counter to what it is: the outcome then has the same counter, whatever it is.
  have h := c.act_withCounter bound c.machine.steps c.machine.limit
  rw [show c.withCounter c.machine.steps c.machine.limit = c from rfl] at h
  rw [h]
  cases c.act bound <;> exact ⟨rfl, rfl⟩

/-- Once it has been counted, a step performs a command, or it leaves the machine as it is. -/
theorem act_cases (bound : Option Nat) :
    (c.act bound).machine = c.machine ∨ ∃ d, c.machine.perform d = (c.act bound).effect := by
  obtain ⟨block, frames, m⟩ := c
  cases block with
  | nil =>
    left
    cases frames with
    | nil => rfl
    | cons f outer =>
      simp only [act]
      split
      · rfl
      · split <;> rfl
  | command d s rest =>
    refine Or.inr ⟨d, ?_⟩
    simp only [act]
    cases m.perform d <;> rfl
  | loop b s rest =>
    left
    simp only [act]
    split
    · rfl
    · split
      · rfl
      · split <;> rfl
  | foreign n rest => exact Or.inl rfl

/-- A step that was counted does not end the program: this is found out when nothing is left. -/
theorem act_ne_finished (h : ¬ c.Done) (m : Machine) : c.act bound ≠ .finished m := by
  obtain ⟨block, frames, m'⟩ := c
  cases block with
  | nil =>
    cases frames with
    | nil => exact absurd ⟨rfl, rfl⟩ h
    | cons f outer =>
      simp only [act]
      split
      · simp
      · split <;> simp
  | command d s rest =>
    simp only [act]
    split <;> simp
  | loop b s rest =>
    simp only [act]
    split
    · simp
    · split
      · simp
      · split <;> simp
  | foreign n rest => simp [act]

/-- A step ends the program just when nothing is left to do. -/
theorem advance_eq_finished_iff {m : Machine} :
    c.advance bound = .finished m ↔ c.Done ∧ c.machine = m := by
  by_cases h : c.Done
  · simp [advance_of_done c h, h]
  · rw [advance_eq c bound h]
    cases c.machine.tick with
    | failed e m' => simp [h]
    | done m' => simp [h, act_ne_finished (c.onMachine m') h]

/-- What a step that has anything to do can be: one that the limit forbids, or one that is counted
and then acts. -/
theorem advance_cases (bound : Option Nat) (h : ¬ c.Done) :
    (∃ l, c.machine.limit = some l ∧ l < (c.machine.steps : Int) + 1 ∧
      c.advance bound = .failed (.stepLimit l) c.machine.counted) ∨
    c.advance bound = (c.onMachine c.machine.counted).act bound := by
  rw [advance_eq c bound h]
  rcases c.machine.tick_cases with ⟨l, hl, hover, htick⟩ | htick
  · rw [htick]
    exact Or.inl ⟨l, hl, hover, rfl⟩
  · rw [htick]
    exact Or.inr rfl

/-- A step that has anything to do is counted, whether it succeeds or not. -/
theorem counter_advance (bound : Option Nat) (h : ¬ c.Done) :
    (c.advance bound).machine.steps = c.machine.steps + 1 ∧
      (c.advance bound).machine.limit = c.machine.limit := by
  rcases c.advance_cases bound h with ⟨l, -, -, hfail⟩ | hact
  · rw [hfail]
    exact ⟨rfl, rfl⟩
  · rw [hact]
    exact (c.onMachine c.machine.counted).act_counter bound

theorem not_done_of_next {c' : Config} {mark : Option Mark} (h : c.advance bound = .next mark c') :
    ¬ c.Done := by
  intro hdone
  rw [advance_of_done c hdone] at h
  cases h

theorem not_done_of_failed {e : RunError} {m : Machine} (h : c.advance bound = .failed e m) :
    ¬ c.Done := by
  intro hdone
  rw [advance_of_done c hdone] at h
  cases h

theorem counter_of_next {c' : Config} {mark : Option Mark} (h : c.advance bound = .next mark c') :
    c'.machine.steps = c.machine.steps + 1 ∧ c'.machine.limit = c.machine.limit := by
  have hcounter := c.counter_advance bound (not_done_of_next c h)
  rwa [h] at hcounter

/-- A step that succeeds acts on the counted machine. -/
theorem act_of_next {c' : Config} {mark : Option Mark} (h : c.advance bound = .next mark c') :
    (c.onMachine c.machine.counted).act bound = .next mark c' := by
  rcases c.advance_cases bound (not_done_of_next c h) with ⟨l, -, -, hfail⟩ | hact
  · rw [hfail] at h
    cases h
  · rw [← hact, h]

/-- What a step that succeeds can be. It has been counted, and then a command has been performed, or
a loop is over because the current cell is zero, or the body of a loop begins. -/
theorem next_cases {c' : Config} {mark : Option Mark} (h : c.advance bound = .next mark c') :
    (∃ d, mark = some (.command d) ∧ c.machine.counted.perform d = .done c'.machine) ∨
    (mark = some .loop ∧ c.machine.tape.current? = some 0 ∧ c'.machine = c.machine.counted) ∨
    mark = none ∧ c'.machine = c.machine.counted := by
  have hact := c.act_of_next h
  obtain ⟨block, frames, m⟩ := c
  -- A guard is tested at the end of a body and in front of a loop; both tests come out alike.
  cases block with
  | nil =>
    cases frames with
    | nil => cases hact
    | cons f outer =>
      simp only [onMachine, act] at hact
      split at hact
      · cases hact
      · next v hv =>
        split at hact
        · next hzero =>
          cases hact
          exact Or.inr (Or.inl ⟨rfl, hzero ▸ hv, rfl⟩)
        · cases hact
          exact Or.inr (Or.inr ⟨rfl, rfl⟩)
  | command d s rest =>
    simp only [onMachine, act] at hact
    split at hact
    · cases hact
    · next m' hperform =>
      cases hact
      exact Or.inl ⟨d, rfl, hperform⟩
  | loop b s rest =>
    simp only [onMachine, act] at hact
    split at hact
    · cases hact
    · next v hv =>
      split at hact
      · next hzero =>
        cases hact
        exact Or.inr (Or.inl ⟨rfl, hzero ▸ hv, rfl⟩)
      · split at hact
        · cases hact
        · cases hact
          exact Or.inr (Or.inr ⟨rfl, rfl⟩)
  | foreign n rest => cases hact

/-- The step that leaves a loop leaves it with its guard at zero. -/
theorem guard_zero_of_next {c' : Config} (h : c.advance bound = .next (some .loop) c') :
    c'.machine.tape.current? = some 0 := by
  rcases c.next_cases h with ⟨d, hd, -⟩ | ⟨-, hzero, hm⟩ | ⟨hnone, -⟩
  · cases hd
  · rw [hm]
    exact hzero
  · cases hnone

/-- What holds between equal machines and is brought about by every command, whatever the counter
is, is brought about by every step. -/
theorem advance_preserves {R : Machine → Machine → Prop} (hrefl : ∀ m, R m m)
    (hcounted : ∀ {m m'}, R m.counted m' → R m m') (hperform : ∀ m d, R m (m.perform d).machine)
    (bound : Option Nat) : R c.machine (c.advance bound).machine := by
  by_cases h : c.Done
  · rw [advance_of_done c h]
    exact hrefl c.machine
  · rcases c.advance_cases bound h with ⟨l, -, -, hfail⟩ | hact
    · rw [hfail]
      exact hcounted (hrefl c.machine.counted)
    · rw [hact]
      apply hcounted
      rcases (c.onMachine c.machine.counted).act_cases bound with hsame | ⟨d, hd⟩
      · rw [hsame]
        exact hrefl c.machine.counted
      · rw [← Step.machine_effect, ← hd]
        exact hperform c.machine.counted d

/-- A step writes the current cell or nothing. -/
theorem writesCell_advance (bound : Option Nat) :
    c.machine.WritesCell (c.advance bound).machine :=
  c.advance_preserves (fun _ => Or.inl rfl) (fun h => h) Machine.writesCell_perform bound

/-! ## Runs -/

theorem run_of_done (h : c.Done) (n : Nat) : c.run bound n = .finished c.machine := by
  cases n with
  | zero =>
    obtain ⟨block, frames, m⟩ := c
    obtain ⟨rfl, rfl⟩ := h
    rfl
  | succ n => rw [run, advance_of_done c h]

theorem run_zero (h : ¬ c.Done) : c.run bound 0 = .unfinished c := by
  obtain ⟨block, frames, m⟩ := c
  cases block with
  | nil =>
    cases frames with
    | nil => exact absurd ⟨rfl, rfl⟩ h
    | cons f outer => rfl
  | command d s rest => rfl
  | loop b s rest => rfl
  | foreign n rest => rfl

/-- Before its first step a run stands where it begins. -/
theorem machine_run_zero (bound : Option Nat) : (c.run bound 0).machine = c.machine := by
  by_cases h : c.Done
  · rw [run_of_done c h]
    rfl
  · rw [run_zero c h]
    rfl

theorem run_of_next {c' : Config} {mark : Option Mark} (h : c.advance bound = .next mark c')
    (n : Nat) : c.run bound (n + 1) = c'.run bound n := by
  rw [run, h]

theorem run_of_failed {e : RunError} {m : Machine} (h : c.advance bound = .failed e m)
    (n : Nat) : c.run bound (n + 1) = .failed e m := by
  rw [run, h]

/-- Configurations that take the same step go the same way. -/
theorem run_of_advance_eq {c c' : Config} (h : c.advance bound = c'.advance bound) (k : Nat) :
    c.run bound (k + 1) = c'.run bound (k + 1) := by
  rw [run, run, h]

/-- A run goes on where a shorter run has stopped. -/
theorem run_add (bound : Option Nat) (n k : Nat) :
    c.run bound (n + k) =
      match c.run bound n with
      | .unfinished c' => c'.run bound k
      | o => o := by
  induction n generalizing c with
  | zero =>
    -- A program that has nothing left to do ends even if it is given no step.
    rw [Nat.zero_add]
    by_cases h : c.Done
    · rw [run_of_done c h, run_of_done c h]
    · rw [run_zero c h]
  | succ n ih =>
    rw [Nat.add_right_comm]
    cases h : c.advance bound with
    | finished m =>
      obtain ⟨hdone, -⟩ := (advance_eq_finished_iff c).1 h
      rw [run_of_done c hdone, run_of_done c hdone]
    | next mark c' => rw [run_of_next c h, run_of_next c h, ih]
    | failed e m => rw [run_of_failed c h, run_of_failed c h]

/-- Once a run has ended, it stays as it is. -/
theorem run_of_ended {n k : Nat} (h : (c.run bound n).Ended) (hk : n ≤ k) :
    c.run bound k = c.run bound n := by
  obtain ⟨d, rfl⟩ := Nat.exists_eq_add_of_le hk
  rw [run_add]
  cases ho : c.run bound n with
  | finished m => rfl
  | failed e m => rfl
  | unfinished c' => simp [ho, Ending.Ended] at h

/-- As long as a run has not ended, it counts every step. -/
theorem counter_of_unfinished {c' : Config} {n : Nat} (h : c.run bound n = .unfinished c') :
    c'.machine.steps = c.machine.steps + n ∧ c'.machine.limit = c.machine.limit := by
  induction n generalizing c with
  | zero =>
    by_cases hdone : c.Done
    · simp [run_of_done c hdone] at h
    · rw [run_zero c hdone, Ending.unfinished.injEq] at h
      simp [h]
  | succ n ih =>
    cases hstep : c.advance bound with
    | finished m => simp [run, hstep] at h
    | failed e m => simp [run, hstep] at h
    | next mark c₁ =>
      rw [run_of_next c hstep] at h
      obtain ⟨hsteps, hlimit⟩ := ih c₁ h
      obtain ⟨hsteps₁, hlimit₁⟩ := counter_of_next c hstep
      exact ⟨by omega, hlimit.trans hlimit₁⟩

theorem not_done_of_unfinished {c' : Config} {n : Nat} (h : c.run bound n = .unfinished c') :
    ¬ c'.Done := by
  intro hdone
  -- Going on for no step at all would end the run.
  have hadd := c.run_add bound n 0
  rw [Nat.add_zero, h] at hadd
  simp [run_of_done c' hdone] at hadd

/-- What every step preserves of the machine is preserved by runs. -/
theorem run_preserves {R : Machine → Machine → Prop} (hrefl : ∀ m, R m m)
    (htrans : ∀ {m₁ m₂ m₃}, R m₁ m₂ → R m₂ m₃ → R m₁ m₃)
    (hstep : ∀ c : Config, R c.machine (c.advance bound).machine) (n : Nat) :
    R c.machine (c.run bound n).machine := by
  induction n generalizing c with
  | zero =>
    rw [machine_run_zero]
    exact hrefl _
  | succ n ih =>
    have h := hstep c
    rw [run]
    cases ho : c.advance bound with
    | finished m => rwa [ho] at h
    | failed e m => rwa [ho] at h
    | next mark c' =>
      rw [ho] at h
      exact htrans h (ih c')

/-- What every step preserves as long as the program goes on holds wherever the run stands. -/
theorem invariant_of_unfinished {I : Config → Prop}
    (hstep : ∀ {c c' : Config} {mark : Option Mark},
      I c → c.advance bound = .next mark c' → I c')
    {c c' : Config} {n : Nat} (hc : I c) (h : c.run bound n = .unfinished c') : I c' := by
  induction n generalizing c with
  | zero =>
    by_cases hdone : c.Done
    · simp [run_of_done c hdone] at h
    · rw [run_zero c hdone, Ending.unfinished.injEq] at h
      exact h ▸ hc
  | succ n ih =>
    cases hnext : c.advance bound with
    | finished m => simp [run, hnext] at h
    | failed e m => simp [run, hnext] at h
    | next mark c₁ =>
      rw [run_of_next c hnext] at h
      exact ih (hstep hc hnext) h

/-- A run that fails does so at one of its steps. -/
theorem exists_step_of_failed {e : RunError} {m : Machine} {n : Nat}
    (h : c.run bound n = .failed e m) :
    ∃ k c', k < n ∧ c.run bound k = .unfinished c' ∧ c'.advance bound = .failed e m := by
  induction n generalizing c with
  | zero =>
    by_cases hdone : c.Done
    · simp [run_of_done c hdone] at h
    · simp [run_zero c hdone] at h
  | succ n ih =>
    cases hstep : c.advance bound with
    | finished m' => simp [run, hstep] at h
    | failed e' m' =>
      rw [run_of_failed c hstep, Ending.failed.injEq] at h
      obtain ⟨rfl, rfl⟩ := h
      exact ⟨0, c, Nat.succ_pos n, run_zero c (not_done_of_failed c hstep), hstep⟩
    | next mark c₁ =>
      rw [run_of_next c hstep] at h
      obtain ⟨k, c', hk, hrun, hfail⟩ := ih c₁ h
      exact ⟨k + 1, c', Nat.succ_lt_succ hk, by rw [run_of_next c hstep, hrun], hfail⟩

/-- A run that has not ended goes on by one step. -/
theorem run_succ_of_unfinished {c c₁ c' : Config} {mark : Option Mark} {n : Nat}
    (hrun : c.run bound n = .unfinished c₁) (hstep : c₁.advance bound = .next mark c') :
    c.run bound (n + 1) = c'.run bound 0 := by
  rw [run_add, hrun]
  exact run_of_next c₁ hstep 0

/-- A run that goes on has come to where it stands by one of its steps. -/
theorem exists_step_of_unfinished {c c' : Config} {n : Nat}
    (h : c.run bound (n + 1) = .unfinished c') :
    ∃ c₁ mark, c.run bound n = .unfinished c₁ ∧ c₁.advance bound = .next mark c' := by
  rw [run_add] at h
  cases hrun : c.run bound n with
  | finished m => simp [hrun] at h
  | failed e m => simp [hrun] at h
  | unfinished c₁ =>
    simp only [hrun] at h
    cases hstep : c₁.advance bound with
    | finished m => simp [run, hstep] at h
    | failed e m => simp [run, hstep] at h
    | next mark c₂ =>
      rw [run_of_next c₁ hstep] at h
      by_cases hdone : c₂.Done
      · simp [run_of_done c₂ hdone] at h
      · rw [run_zero c₂ hdone, Ending.unfinished.injEq] at h
        exact ⟨c₁, mark, rfl, by rw [hstep, h]⟩

/-- A run never takes back a counted step. -/
theorem steps_le_run (bound : Option Nat) (n : Nat) :
    c.machine.steps ≤ (c.run bound n).machine.steps := by
  refine run_preserves (R := fun m m' => m.steps ≤ m'.steps) c (fun _ => Nat.le_refl _)
    Nat.le_trans (fun c => ?_) n
  by_cases h : c.Done
  · rw [advance_of_done c h]
    exact Nat.le_refl _
  · rw [(c.counter_advance bound h).1]
    exact Nat.le_succ _

/-- A map of configurations that goes along with every step goes along with runs, until everything
is done. From there on the run is one of what the map then leaves to do, with the steps that are
left. Of the configurations on the way something may be known that every step preserves. -/
theorem run_map_until_done {bound' : Option Nat} {f : Config → Config} {g : Machine → Machine}
    {I : Config → Prop}
    (hkeeps : ∀ {c c' : Config} {mark : Option Mark}, I c → c.advance bound = .next mark c' → I c')
    (hstep : ∀ c, I c → ¬ c.Done → (f c).advance bound' = (c.advance bound).map f g)
    {c : Config} (hc : I c) (n : Nat) :
    (f c).run bound' n =
      match c.run bound n with
      | .finished m => (f ⟨.nil, [], m⟩).run bound' (n - (m.steps - c.machine.steps))
      | .failed e m => .failed e (g m)
      | .unfinished c' => .unfinished (f c') := by
  -- Once everything is done, no step is spent on finding this out.
  have hdone : ∀ (c : Config) (n : Nat), c.Done → (f c).run bound' n =
      (f ⟨.nil, [], c.machine⟩).run bound' (n - (c.machine.steps - c.machine.steps)) := by
    rintro ⟨block, frames, m⟩ n ⟨rfl, rfl⟩
    rw [Nat.sub_self, Nat.sub_zero]
  induction n generalizing c with
  | zero =>
    by_cases h : c.Done
    · rw [run_of_done c h]
      exact hdone c 0 h
    · -- The step tells on both sides alike that something is left to do.
      have hf : ¬ (f c).Done := by
        intro hf
        have hmapped := hstep c hc h
        rw [advance_of_done (f c) hf] at hmapped
        cases ho : c.advance bound with
        | finished m => exact h ((advance_eq_finished_iff c).1 ho).1
        | next mark c' => simp [ho, Step.map] at hmapped
        | failed e m => simp [ho, Step.map] at hmapped
      rw [run_zero c h, run_zero (f c) hf]
  | succ n ih =>
    by_cases h : c.Done
    · rw [run_of_done c h]
      exact hdone c (n + 1) h
    have hmapped := hstep c hc h
    cases hnext : c.advance bound with
    | finished m => exact absurd ((advance_eq_finished_iff c).1 hnext).1 h
    | failed e m =>
      rw [hnext] at hmapped
      rw [run_of_failed c hnext, run_of_failed (f c) hmapped]
    | next mark c' =>
      rw [hnext] at hmapped
      rw [run_of_next c hnext, run_of_next (f c) hmapped, ih (hkeeps hc hnext)]
      cases hrun : c'.run bound n with
      | failed e m => rfl
      | unfinished c'' => rfl
      | finished m =>
        -- The first step is one of those that the whole run has counted.
        have hle := c'.steps_le_run bound n
        rw [hrun] at hle
        obtain ⟨hsteps, -⟩ := c.counter_of_next hnext
        have hleft : n - (m.steps - c'.machine.steps) = n + 1 - (m.steps - c.machine.steps) := by
          simp only [Ending.machine] at hle
          omega
        simp only [hleft]

/-- A map of configurations that goes along with every step goes along with runs. -/
theorem run_map {bound' : Option Nat} {f : Config → Config} {g : Machine → Machine}
    (hstep : ∀ c, (f c).advance bound' = (c.advance bound).map f g) (n : Nat) :
    (f c).run bound' n = (c.run bound n).map f g := by
  rw [run_map_until_done (I := fun _ => True) (fun _ _ => trivial) (fun c _ _ => hstep c) trivial n]
  cases hrun : c.run bound n with
  | failed e m => rfl
  | unfinished c' => rfl
  | finished m =>
    -- What is done stays done under the map.
    have hdone := hstep ⟨.nil, [], m⟩
    rw [advance_of_done ⟨.nil, [], m⟩ ⟨rfl, rfl⟩] at hdone
    obtain ⟨hf, hm⟩ := (advance_eq_finished_iff _).1 hdone
    show (f ⟨.nil, [], m⟩).run bound' _ = .finished (g m)
    rw [run_of_done _ hf, hm]

/-- A run keeps the limit. -/
theorem limit_run (bound : Option Nat) (n : Nat) :
    (c.run bound n).machine.limit = c.machine.limit := by
  refine run_preserves (R := fun m m' => m'.limit = m.limit) c (fun _ => rfl)
    (fun h h' => h'.trans h) (fun c => ?_) n
  by_cases h : c.Done
  · rw [advance_of_done c h]
    rfl
  · exact (c.counter_advance bound h).2

/-- A run that has anything to do and is given a step counts one. -/
theorem steps_lt_run (bound : Option Nat) (h : ¬ c.Done) (n : Nat) :
    c.machine.steps < (c.run bound (n + 1)).machine.steps := by
  have hcounter := (c.counter_advance bound h).1
  cases hstep : c.advance bound with
  | finished m => exact absurd ((advance_eq_finished_iff c).1 hstep).1 h
  | failed e m =>
    rw [hstep] at hcounter
    rw [run_of_failed c hstep]
    exact Nat.lt_of_succ_le (Nat.le_of_eq hcounter.symm)
  | next mark c' =>
    rw [hstep] at hcounter
    rw [run_of_next c hstep]
    exact Nat.lt_of_succ_le (hcounter.symm.trans_le (c'.steps_le_run bound n))

/-- A run counts no more steps than it was given. -/
theorem steps_run_le (bound : Option Nat) (n : Nat) :
    (c.run bound n).machine.steps ≤ c.machine.steps + n := by
  induction n generalizing c with
  | zero =>
    rw [machine_run_zero]
    exact Nat.le_refl _
  | succ n ih =>
    by_cases h : c.Done
    · rw [run_of_done c h]
      exact Nat.le_add_right _ _
    · have hcounter := (c.counter_advance bound h).1
      cases hstep : c.advance bound with
      | finished m => exact absurd ((advance_eq_finished_iff c).1 hstep).1 h
      | failed e m =>
        rw [hstep] at hcounter
        rw [run_of_failed c hstep]
        have hm : (Ending.failed e m).machine.steps = c.machine.steps + 1 := hcounter
        omega
      | next mark c' =>
        obtain ⟨hsteps, -⟩ := counter_of_next c hstep
        have hrest := ih c'
        rw [run_of_next c hstep]
        omega

/-- A run only adds to the output. -/
theorem output_run (n : Nat) : c.machine.output <+: (c.run bound n).machine.output :=
  run_preserves (R := fun m m' => m.output <+: m'.output) c (fun _ => List.prefix_rfl)
    List.IsPrefix.trans (fun c => (c.writesCell_advance bound).output_grows) n

/-- What a shorter run has written is the beginning of what a longer run writes. -/
theorem output_run_mono (bound : Option Nat) {n k : Nat} (h : n ≤ k) :
    (c.run bound n).machine.output <+: (c.run bound k).machine.output := by
  obtain ⟨d, rfl⟩ := Nat.exists_eq_add_of_le h
  rw [run_add]
  cases c.run bound n with
  | finished m => exact List.prefix_rfl
  | failed e m => exact List.prefix_rfl
  | unfinished c' => exact c'.output_run d

end Config

end TapeLang
