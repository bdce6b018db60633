import TapeLang.Proofs.Machine.Counting

/-!
# Pointers off the tape

A caller may hand over a machine whose pointer is on no cell. A move brings it onto the tape if it
stands right in front of the first cell or right behind the last one, and from there on the run is a
safe one. Until then a negative pointer counts the cells from the end of the tape, and any other
access fails and changes nothing.

* `Machine.Settles`: what every step does to such a pointer, or to one that is on the tape.
* `Config.advance_pointedAt`: a step at a negative pointer is a step at the cell that it counts to.
* `Config.advance_missed`: a step that needs a cell where the pointer counts to none.
* `Config.StepsOffTape`: all that a step can do as long as the pointer is off the tape.
* `Program.runs_off_tape`: the run of a program from such a machine.
-/

namespace TapeLang

/-! ## Pointers -/

/-- Put the pointer somewhere else. -/
def Tape.pointedAt (t : Tape) (i : Int) : Tape :=
  { t with pointer := i }

/-- The error as it reads if the pointer is somewhere else. -/
def RunError.pointedAt (i : Int) : RunError → RunError
  | badCell value _ => .badCell value i
  | e => e

/-- The machine with its pointer somewhere else. -/
def Machine.pointedAt (m : Machine) (i : Int) : Machine :=
  { m with tape := m.tape.pointedAt i }

/-- The effect with the pointer somewhere else. -/
def Effect.pointedAt (i : Int) : Effect → Effect
  | done m => .done (m.pointedAt i)
  | failed e m => .failed (e.pointedAt i) (m.pointedAt i)

/-- The configuration with the pointer somewhere else. -/
def Config.pointedAt (c : Config) (i : Int) : Config :=
  c.onMachine (c.machine.pointedAt i)

/-- The step with the pointer somewhere else. -/
def Step.pointedAt (i : Int) : Step → Step
  | finished m => .finished (m.pointedAt i)
  | next mark c => .next mark (c.pointedAt i)
  | failed e m => .failed (e.pointedAt i) (m.pointedAt i)

/-- The error is one of an index: the pointer denotes no cell, or it is no index at all. -/
def RunError.isIndexError : RunError → Bool
  | unreadable | unwritable | unindexable => true
  | offTape _ _ _ | stepLimit _ | badCell _ _ | tooDeep | foreign _ => false

/-- How a command complains if it needs a cell and there is none; a move needs none. -/
def Command.complaint? : Command → Option RunError
  | right | left => none
  | increment | decrement | output => some .unreadable
  | input => some .unwritable

/-- How the next step complains if it needs a cell and there is none: a loop and the end of its body
look at the guard. -/
def Config.complaint? (c : Config) : Option RunError :=
  match c.block, c.frames with
  | .nil, [] => none
  | .nil, _ :: _ => some .unreadable
  | .command d _ _, _ => d.complaint?
  | .loop _ _ _, _ => some .unreadable
  | .foreign _ _, _ => none

/-- The machine behind a step that has missed its cell. The step has been counted; if it was to
store a line, the output has been flushed and the line has been taken. -/
def Config.missed (c : Config) : Machine :=
  match c.block with
  | .command .input _ _ =>
    { c.machine.counted with
      input := c.machine.input.tail
      events := (c.machine.events.push .flush).push (.readLine (c.machine.input.headD [])) }
  | _ => c.machine.counted

namespace Tape

variable {t : Tape}

/-- The move brings the pointer onto the tape. -/
def Heals (t : Tape) (d : Command) : Prop :=
  0 < t.size ∧ (d = .right ∧ t.pointer = -1 ∨ d = .left ∧ t.pointer = t.size)

instance (t : Tape) (d : Command) : Decidable (t.Heals d) := by
  unfold Heals
  infer_instance

/-- From off the tape, a move that heals is one whose target is on the tape. -/
theorem heals_iff (h : ¬ t.InRange) {d : Command} (hd : d.shift ≠ 0) :
    t.Heals d ↔ 0 ≤ t.pointer + d.shift ∧ t.pointer + d.shift < t.size := by
  unfold InRange at h
  cases d with
  | right | left =>
    simp only [Heals, Command.shift, reduceCtorEq, true_and, false_and, or_false, false_or]
    omega
  | increment | decrement | output | input => exact absurd rfl hd

/-- The position is on the tape, and it is that of the cell that the pointer denotes. -/
structure SameCell (t : Tape) (i : Int) : Prop where
  /-- The position is on the tape. -/
  inRange : (t.pointedAt i).InRange
  /-- The pointer denotes the cell there. -/
  slot?_eq : (t.pointedAt i).slot? = t.slot?

/-- A negative pointer counts the cells from the end of the tape. -/
theorem sameCell (hneg : t.pointer < 0) (hcell : 0 ≤ t.pointer + t.size) :
    t.SameCell (t.pointer + t.size) := by
  have hrange : (t.pointedAt (t.pointer + t.size)).InRange := by
    refine ⟨hcell, ?_⟩
    show t.pointer + t.size < t.size
    omega
  refine ⟨hrange, ?_⟩
  rw [slot?_of_inRange hrange, slot?, if_neg (Int.not_le.2 hneg), if_pos hcell]
  rfl

theorem SameCell.slot? {i : Int} (h : t.SameCell i) : t.slot? = some i.toNat :=
  h.slot?_eq.symm.trans (slot?_of_inRange h.inRange)

theorem SameCell.current?_eq {i : Int} (h : t.SameCell i) :
    (t.pointedAt i).current? = t.current? := by
  rw [Tape.current?, Tape.current?, h.slot?_eq]
  rfl

/-- A pointer denotes no cell if it is behind the tape, or so far in front of it that there are not
as many cells to count from the end. -/
theorem slot?_eq_none (h : t.pointer + t.size < 0 ∨ t.size ≤ t.pointer) : t.slot? = none := by
  unfold slot?
  split
  · -- A pointer that counts from the front is behind the last cell.
    exact if_neg (by omega)
  · -- A pointer that counts from the end comes to no cell in front of the first one.
    exact if_neg (by omega)

/-- Without a cell there is no value. -/
theorem current?_eq_none (h : t.slot? = none) : t.current? = none := by
  rw [current?, h]

/-- A miss is worded for what was to be done, unless the pointer is no index at all. -/
theorem message_cause (t : Tape) (e : RunError) :
    (t.cause e).message =
      if -indexBound ≤ t.pointer ∧ t.pointer < indexBound then e.message else indexOverflow := by
  unfold cause
  split <;> rfl

end Tape

/-! ## Commands -/

namespace Machine

variable {m m' : Machine} {d : Command} {i : Int}

/-- The tape keeps its length, and its pointer, unless a move has brought that onto the tape. -/
structure Settles (m m' : Machine) : Prop where
  /-- The tape is as long as before. -/
  size_eq : m'.tape.size = m.tape.size
  /-- The pointer is where it was, or on the tape. -/
  pointer_eq_or : m'.tape.pointer = m.tape.pointer ∨ m'.tape.InRange

theorem Settles.refl (m : Machine) : m.Settles m :=
  ⟨rfl, Or.inl rfl⟩

theorem Settles.inRange (h : m.Settles m') (hm : m.tape.InRange) : m'.tape.InRange := by
  rcases h.pointer_eq_or with hpointer | hrange
  · unfold Tape.InRange
    rw [hpointer, h.size_eq]
    exact hm
  · exact hrange

theorem Settles.trans {m₁ m₂ m₃ : Machine} (h : m₁.Settles m₂) (h' : m₂.Settles m₃) :
    m₁.Settles m₃ := by
  refine ⟨h'.size_eq.trans h.size_eq, ?_⟩
  rcases h'.pointer_eq_or with hpointer | hrange
  · rcases h.pointer_eq_or with hfirst | hrange
    · exact Or.inl (hpointer.trans hfirst)
    · exact Or.inr (h'.inRange hrange)
  · exact Or.inr hrange

/-- The commands that move do nothing else. -/
theorem perform_of_shift (m : Machine) (hd : d.shift ≠ 0) : m.perform d = m.move d.shift := by
  cases d with
  | right | left => rfl
  | increment | decrement | output | input => exact absurd rfl hd

theorem tape_takeLine (m : Machine) : m.takeLine.2.tape = m.tape := by
  unfold takeLine
  split <;> rfl

/-- The other commands leave the pointer where it is. -/
theorem pointer_perform (m : Machine) (hd : d.shift = 0) :
    (m.perform d).machine.tape.pointer = m.tape.pointer ∧
      (m.perform d).machine.tape.size = m.tape.size := by
  cases d with
  | right | left => cases hd
  | increment | decrement =>
    simp only [perform, update]
    split
    · exact ⟨rfl, rfl⟩
    · exact ⟨rfl, Tape.size_modify _ _⟩
  | output =>
    simp only [perform, write]
    split
    · exact ⟨rfl, rfl⟩
    · split <;> exact ⟨rfl, rfl⟩
  | input =>
    simp only [perform, read, assign, ← m.tape_takeLine]
    split
    · exact ⟨rfl, rfl⟩
    · exact ⟨rfl, Tape.size_set _ _⟩

theorem settles_perform (m : Machine) (d : Command) : m.Settles (m.perform d).machine := by
  by_cases hd : d.shift = 0
  · obtain ⟨hpointer, hsize⟩ := m.pointer_perform hd
    exact ⟨hsize, Or.inl hpointer⟩
  · -- A move is the only way to another position, and its target is on the tape.
    rw [perform_of_shift m hd, move]
    cases hmove : m.tape.move d.shift with
    | error e => exact Settles.refl m
    | ok t =>
      obtain ⟨rfl, hrange⟩ := Tape.move_eq_ok_iff.1 hmove
      exact ⟨rfl, Or.inr hrange⟩

/-- A command that fails leaves the tape as it is. -/
theorem tape_of_perform_failed {e : RunError} (h : m.perform d = .failed e m') :
    m'.tape = m.tape := by
  cases d with
  | right | left => rw [(move_failed h).1]
  | increment | decrement =>
    simp only [perform, update] at h
    split at h <;> cases h
    rfl
  | output =>
    simp only [perform, write] at h
    split at h
    · cases h
      rfl
    · split at h <;> cases h
      rfl
  | input =>
    -- A line has been taken, but not from the tape.
    simp only [perform, read, assign] at h
    split at h <;> cases h
    exact m.tape_takeLine

/-- A move off the tape heals or fails. -/
theorem perform_move (h : ¬ m.tape.InRange) (hd : d.shift ≠ 0) :
    m.perform d =
      if m.tape.Heals d then .done (m.pointedAt (m.tape.pointer + d.shift))
      else .failed (.offTape m.tape.pointer m.tape.size (Tape.direction d.shift)) m := by
  rw [perform_of_shift m hd, move, Tape.move]
  by_cases hheals : m.tape.Heals d
  · rw [if_pos hheals, if_pos ((Tape.heals_iff h hd).1 hheals)]
    rfl
  · rw [if_neg hheals, if_neg (mt (Tape.heals_iff h hd).2 hheals)]

theorem assign_pointedAt (h : m.tape.SameCell i) (value : Int) :
    m.assign value = ((m.pointedAt i).assign value).pointedAt m.tape.pointer := by
  have hthere : (m.pointedAt i).tape.slot? = some i.toNat := Tape.slot?_of_inRange h.inRange
  simp only [assign, h.slot?, hthere]
  rfl

theorem tick_pointedAt (m : Machine) (i : Int) : (m.pointedAt i).tick = m.tick.pointedAt i := by
  unfold tick pointedAt
  cases m.limit with
  | none => rfl
  | some l =>
    dsimp only
    split <;> rfl

theorem takeLine_pointedAt (m : Machine) (i : Int) :
    (m.pointedAt i).takeLine = (m.takeLine.1, m.takeLine.2.pointedAt i) := by
  obtain ⟨tape, input, steps, limit, events⟩ := m
  cases input <;> rfl

/-- What is done to the current cell is the same wherever the pointer counts from. -/
theorem perform_pointedAt (h : m.tape.SameCell i) (hd : d.shift = 0) :
    m.perform d = ((m.pointedAt i).perform d).pointedAt m.tape.pointer := by
  cases d with
  | right | left => cases hd
  | increment | decrement =>
    have hthere : (m.pointedAt i).tape.slot? = some i.toNat := Tape.slot?_of_inRange h.inRange
    simp only [perform, update, h.slot?, hthere]
    rfl
  | output =>
    obtain ⟨v, hv⟩ := Tape.exists_current? h.inRange
    have hthere : (m.pointedAt i).tape.current? = some v := hv
    simp only [perform, write, hthere, h.current?_eq.symm.trans hv]
    split <;> rfl
  | input =>
    -- The line is taken without a look at the tape.
    have hline : m.takeLine.2.tape.SameCell i := m.tape_takeLine ▸ h
    rw [perform, perform, read, read, takeLine_pointedAt]
    show m.takeLine.2.assign m.takeLine.1 = _
    rw [assign_pointedAt hline, tape_takeLine]

/-- A command that needs a cell where the pointer denotes none complains. -/
theorem perform_missed (hnone : m.tape.slot? = none) {e : RunError} (he : d.complaint? = some e) :
    m.perform d = .failed (m.tape.cause e) (if d = .input then m.takeLine.2 else m) := by
  cases d with
  | right | left => cases he
  | increment | decrement =>
    cases he
    simp only [perform, update, hnone]
    rfl
  | output =>
    cases he
    simp only [perform, write, Tape.current?_eq_none hnone]
    rfl
  | input =>
    cases he
    simp only [perform, read, assign, tape_takeLine, hnone, if_true]

end Machine

/-! ## Steps -/

namespace Config

variable {bound : Option Nat} {c c' : Config} {m : Machine} {e : RunError} {i : Int}
  {mark : Option Mark}

theorem settles_advance (c : Config) (bound : Option Nat) :
    c.machine.Settles (c.advance bound).machine :=
  c.advance_preserves Machine.Settles.refl (fun h => ⟨h.size_eq, h.pointer_eq_or⟩)
    Machine.settles_perform bound

/-- Wherever the pointer is at the start, the tape keeps its length, and the pointer stays there
until it is on the tape. -/
theorem settles_run (c : Config) (bound : Option Nat) (n : Nat) :
    c.machine.Settles (c.run bound n).machine :=
  c.run_preserves Machine.Settles.refl Machine.Settles.trans
    (fun c => c.settles_advance bound) n

/-- A step that fails leaves the tape as it is. -/
theorem tape_of_failed (h : c.advance bound = .failed e m) : m.tape = c.machine.tape := by
  rcases c.advance_cases bound (not_done_of_failed c h) with ⟨l, -, -, hfail⟩ | hact
  · rw [hfail, Step.failed.injEq] at h
    rw [← h.2]
    rfl
  · have hfail := hact.symm.trans h
    rcases (c.onMachine c.machine.counted).act_cases bound with hsame | ⟨d, hd⟩
    · rw [hfail] at hsame
      have hm : m = c.machine.counted := hsame
      rw [hm]
      rfl
    · rw [hfail] at hd
      exact Machine.tape_of_perform_failed (m := c.machine.counted) hd

/-- On the tape no step misses its cell. -/
theorem isIndexError_of_failed (hrange : c.machine.tape.InRange)
    (h : c.advance bound = .failed e m) : e.isIndexError = false := by
  rcases (advance_failed hrange h).2 with ⟨l, -, -, rfl⟩ | ⟨d, s, rest, -, hd⟩ |
    ⟨b, s, rest, -, rfl⟩ | ⟨name, rest, -, rfl⟩
  · rfl
  · rcases (Machine.perform_failed (m := c.machine.counted) hrange hd).2 with ⟨-, -, rfl⟩ |
      ⟨-, -, rfl⟩ | ⟨-, v, -, -, rfl⟩ <;> rfl
  · rfl
  · rfl

/-- A run whose pointer is on the tape has missed no cell since. -/
theorem isIndexError_of_run {n : Nat} (hrange : (c.run bound n).machine.tape.InRange)
    (h : (c.run bound n).error? = some e) : e.isIndexError = false := by
  cases hrun : c.run bound n with
  | finished m => simp [hrun, Ending.error?] at h
  | unfinished c' => simp [hrun, Ending.error?] at h
  | failed e' m =>
    rw [hrun] at h hrange
    obtain rfl : e' = e := Option.some.inj h
    obtain ⟨k, c', -, -, hstep⟩ := exists_step_of_failed c hrun
    -- The failing step has found the pointer where it has left it.
    refine isIndexError_of_failed ?_ hstep
    rw [← tape_of_failed hstep]
    exact hrange

theorem act_pointedAt (h : c.machine.tape.SameCell i)
    (hstays : ∀ d s rest, c.block = .command d s rest → d.shift = 0) :
    c.act bound = ((c.pointedAt i).act bound).pointedAt c.machine.tape.pointer := by
  obtain ⟨block, frames, m⟩ := c
  -- The guards show the same value on both sides.
  obtain ⟨v, hv⟩ := Tape.exists_current? h.inRange
  have hhere : m.tape.current? = some v := h.current?_eq.symm.trans hv
  have hthere : (m.pointedAt i).tape.current? = some v := hv
  cases block with
  | nil =>
    cases frames with
    | nil => rfl
    | cons f outer =>
      simp only [pointedAt, onMachine, act, hhere, hthere]
      split <;> rfl
  | command d s rest =>
    simp only [pointedAt, onMachine, act, Machine.perform_pointedAt h (hstays d s rest rfl)]
    cases (m.pointedAt i).perform d <;> rfl
  | loop b s rest =>
    simp only [pointedAt, onMachine, act, hhere, hthere]
    split
    · rfl
    · split <;> rfl
  | foreign name rest => rfl

/-- A step that does not move the pointer is the same wherever this counts from. -/
theorem advance_pointedAt (h : c.machine.tape.SameCell i)
    (hstays : ∀ d s rest, c.block = .command d s rest → d.shift = 0) :
    c.advance bound = ((c.pointedAt i).advance bound).pointedAt c.machine.tape.pointer := by
  by_cases hdone : c.Done
  · rw [advance_of_done c hdone, advance_of_done (c.pointedAt i) hdone]
    rfl
  · rw [advance_eq c bound hdone, advance_eq (c.pointedAt i) bound hdone]
    -- A step is counted without a look at the tape.
    have htick : (c.pointedAt i).machine.tick = c.machine.tick.pointedAt i :=
      c.machine.tick_pointedAt i
    rw [htick]
    rcases c.machine.tick_cases with ⟨l, -, -, hm⟩ | hm
    · rw [hm]
      rfl
    · rw [hm]
      exact act_pointedAt (c := c.onMachine c.machine.counted) h hstays

theorem missed_command (d : Command) (s : Option Span) (rest : Program) (frames : List Frame)
    (m : Machine) : missed ⟨.command d s rest, frames, m⟩ =
      if d = .input then m.counted.takeLine.2 else m.counted := by
  cases d with
  | increment | decrement | right | left | output => rfl
  | input =>
    obtain ⟨tape, input, steps, limit, events⟩ := m
    cases input <;> rfl

/-- A complaint about a missed cell is an index error, also where the pointer is no index. -/
theorem isIndexError_cause (he : c.complaint? = some e) (t : Tape) :
    (t.cause e).isIndexError = true := by
  have hmiss : e = .unreadable ∨ e = .unwritable := by
    obtain ⟨block, frames, m⟩ := c
    cases block with
    | nil =>
      cases frames with
      | nil => cases he
      | cons f outer =>
        cases he
        exact Or.inl rfl
    | command d s rest => cases d <;> cases he <;> simp
    | loop b s rest =>
      cases he
      exact Or.inl rfl
    | foreign name rest => cases he
  unfold Tape.cause
  rcases hmiss with rfl | rfl <;> split <;> rfl

/-- A missed cell costs nothing but a step, and a line if one was to be stored. -/
theorem missed_eq (c : Config) :
    c.missed.tape = c.machine.tape ∧ c.missed.output = c.machine.output := by
  unfold missed
  split
  · refine ⟨rfl, ?_⟩
    simp [Machine.output, Event.written]
  · exact ⟨rfl, rfl⟩

/-- A step that needs a cell where the pointer denotes none complains, and changes nothing but the
counter and, if it was to store a line, the streams. -/
theorem advance_missed (hnone : c.machine.tape.slot? = none) (he : c.complaint? = some e)
    (hlimit : ∀ l, c.machine.limit = some l → (c.machine.steps : Int) + 1 ≤ l) :
    c.advance bound = .failed (c.machine.tape.cause e) c.missed := by
  have htick := c.machine.tick_eq_done hlimit
  obtain ⟨block, frames, m⟩ := c
  have hcurrent : m.counted.tape.current? = none := Tape.current?_eq_none hnone
  cases block with
  | nil =>
    cases frames with
    | nil => cases he
    | cons f outer =>
      cases he
      rw [advance_of_tick _ (by simp [Done]) htick]
      simp only [onMachine, act, hcurrent]
      rfl
  | command d s rest =>
    have hperform := Machine.perform_missed (m := m.counted) hnone he
    rw [advance_of_tick _ (by simp [Done]) htick, missed_command]
    simp only [onMachine, act, hperform]
    rfl
  | loop b s rest =>
    cases he
    rw [advance_of_tick _ (by simp [Done]) htick]
    simp only [onMachine, act, hcurrent]
    rfl
  | foreign name rest => cases he

/-- What a step that the limit allows can do as long as the pointer is off the tape. -/
structure StepsOffTape (bound : Option Nat) (c : Config) : Prop where
  /-- A move that heals brings the pointer onto the tape, and does nothing else. -/
  heals : ∀ d s rest, c.block = .command d s rest → c.machine.tape.Heals d →
    c.advance bound = .next (some (.command d))
      ⟨rest, c.frames, c.machine.counted.pointedAt (c.machine.tape.pointer + d.shift)⟩
  /-- Every other move fails, and names the pointer where it is, unless its number is too long to be
  written. -/
  fails : ∀ d s rest, c.block = .command d s rest → d.shift ≠ 0 → ¬ c.machine.tape.Heals d →
    c.advance bound = .failed
      (.offTape c.machine.tape.pointer c.machine.tape.size (Tape.direction d.shift))
      c.machine.counted ∧
    (RunError.offTape c.machine.tape.pointer c.machine.tape.size (Tape.direction d.shift)).ShowsIff
      (.pointerOutOfBounds (.int c.machine.tape.pointer) (.int c.machine.tape.size)
        (.text (Tape.direction d.shift).word.toList))
      (c.machine.tape.pointer.natAbs < 10 ^ Text.maxDigits ∧
        c.machine.tape.size < 10 ^ Text.maxDigits)
  /-- Nothing else moves the pointer. -/
  stays : ∀ mark c', c.advance bound = .next mark c' →
    c'.machine.tape.pointer = c.machine.tape.pointer ∨
      ∃ d, mark = some (.command d) ∧ c.machine.tape.Heals d ∧ c'.machine.tape.InRange
  /-- If the pointer is negative and counts to a cell from the end of the tape, everything but a
  move is done to this cell, as it would be if the pointer counted to it from the front; the pointer
  and what an error says of it stay as they are. -/
  wraps : c.machine.tape.pointer < 0 → 0 ≤ c.machine.tape.pointer + c.machine.tape.size →
    (∀ d s rest, c.block = .command d s rest → d.shift = 0) →
    let there := c.pointedAt (c.machine.tape.pointer + c.machine.tape.size)
    there.machine.tape.InRange ∧
      c.advance bound = (there.advance bound).pointedAt c.machine.tape.pointer
  /-- If the pointer counts to no cell, whatever needs one complains, and has changed neither the
  tape nor the output. -/
  misses : c.machine.tape.pointer + c.machine.tape.size < 0 ∨
      c.machine.tape.size ≤ c.machine.tape.pointer →
    ∀ e, c.complaint? = some e →
      c.advance bound = .failed (c.machine.tape.cause e) c.missed ∧
        (c.machine.tape.cause e).isIndexError = true ∧
        c.missed.tape = c.machine.tape ∧ c.missed.output = c.machine.output ∧
        (c.machine.tape.cause e).message =
          if -indexBound ≤ c.machine.tape.pointer ∧ c.machine.tape.pointer < indexBound
          then e.message else indexOverflow

/-- A step either leaves the pointer where it is, or it is a move that heals. -/
theorem pointer_of_next (h : ¬ c.machine.tape.InRange) (hnext : c.advance bound = .next mark c') :
    c'.machine.tape.pointer = c.machine.tape.pointer ∨
      ∃ d, mark = some (.command d) ∧ c.machine.tape.Heals d ∧ c'.machine.tape.InRange := by
  rcases c.next_cases hnext with ⟨d, hmark, hperform⟩ | ⟨-, -, hm⟩ | ⟨-, hm⟩
  · by_cases hd : d.shift = 0
    · have hkept := (c.machine.counted.pointer_perform hd).1
      rw [hperform] at hkept
      exact Or.inl hkept
    · rw [Machine.perform_of_shift _ hd, Machine.move] at hperform
      split at hperform
      · next t hmove =>
        obtain ⟨rfl, hrange⟩ := Tape.move_eq_ok_iff.1 hmove
        rw [Effect.done.injEq] at hperform
        rw [← hperform]
        exact Or.inr ⟨d, hmark, (Tape.heals_iff h hd).2 hrange, hrange⟩
      · cases hperform
  · rw [hm]
    exact Or.inl rfl
  · rw [hm]
    exact Or.inl rfl

theorem advance_move (h : ¬ c.machine.tape.InRange) {d : Command} {s : Option Span} {rest : Program}
    (hblock : c.block = .command d s rest) (hd : d.shift ≠ 0)
    (hlimit : ∀ l, c.machine.limit = some l → (c.machine.steps : Int) + 1 ≤ l) :
    c.advance bound =
      if c.machine.tape.Heals d then .next (some (.command d))
        ⟨rest, c.frames, c.machine.counted.pointedAt (c.machine.tape.pointer + d.shift)⟩
      else .failed
        (.offTape c.machine.tape.pointer c.machine.tape.size (Tape.direction d.shift))
        c.machine.counted := by
  obtain ⟨block, frames, m⟩ := c
  obtain rfl : block = .command d s rest := hblock
  have hperform := Machine.perform_move (m := m.counted) h hd
  rw [advance_of_tick _ (by simp [Done]) (m.tick_eq_done hlimit)]
  simp only [onMachine, act, hperform]
  by_cases hheals : m.counted.tape.Heals d
  · rw [if_pos hheals, if_pos (show m.tape.Heals d from hheals)]
    rfl
  · rw [if_neg hheals, if_neg (show ¬ m.tape.Heals d from hheals)]
    rfl

theorem stepsOffTape (h : ¬ c.machine.tape.InRange)
    (hlimit : ∀ l, c.machine.limit = some l → (c.machine.steps : Int) + 1 ≤ l) :
    c.StepsOffTape bound where
  heals d s rest hblock hheals := by
    have hd : d.shift ≠ 0 := by
      rcases hheals.2 with ⟨rfl, -⟩ | ⟨rfl, -⟩ <;> decide
    rw [advance_move h hblock hd hlimit, if_pos hheals]
  fails d s rest hblock hd hheals := by
    rw [advance_move h hblock hd hlimit, if_neg hheals]
    exact ⟨rfl, RunError.offTape_showsIff _ _ _⟩
  stays mark c' hnext := pointer_of_next h hnext
  wraps hneg hcell hstays := by
    have hsame := Tape.sameCell hneg hcell
    exact ⟨hsame.inRange, advance_pointedAt hsame hstays⟩
  misses hout e he :=
    ⟨advance_missed (Tape.slot?_eq_none hout) he hlimit, isIndexError_cause he _, c.missed_eq.1,
      c.missed_eq.2, c.machine.tape.message_cause e⟩

/-- Once the pointer is on the tape, it stays there. -/
theorem inRange_run_of_le {n k : Nat} (h : (c.run bound n).machine.tape.InRange) (hk : n ≤ k) :
    (c.run bound k).machine.tape.InRange := by
  obtain ⟨d, rfl⟩ := Nat.exists_eq_add_of_le hk
  rw [run_add]
  cases hrun : c.run bound n with
  | finished m => rwa [hrun] at h
  | failed e m => rwa [hrun] at h
  | unfinished c' =>
    rw [hrun] at h
    exact (c'.settles_run bound d).inRange h

end Config

/-! ## Runs -/

namespace Program

/-- A run whose pointer is off the tape at the start. The tape keeps its length, and at every moment
the pointer is where it was or on the tape. Once it is on the tape, it stays there, and no index
error has arisen or will. Until then every step that the limit allows is as `Config.StepsOffTape`
says. -/
theorem runs_off_tape (bound : Option Nat) (p : Program) {m : Machine} (h : ¬ m.tape.InRange) :
    (∀ n, (p.run bound n m).machine.tape.size = m.tape.size ∧
      ((p.run bound n m).machine.tape.pointer = m.tape.pointer ∨
        (p.run bound n m).machine.tape.InRange)) ∧
    (∀ n, (p.run bound n m).machine.tape.InRange → ∀ k, n ≤ k →
      (p.run bound k m).machine.tape.InRange ∧
        ∀ e, (p.run bound k m).error? = some e → e.isIndexError = false) ∧
    (∀ n c, p.run bound n m = .unfinished c → c.machine.tape.pointer = m.tape.pointer →
      (∀ l, m.limit = some l → (c.machine.steps : Int) + 1 ≤ l) → c.StepsOffTape bound) ∧
    RunError.unreadable.message = "list index out of range" ∧
    RunError.unwritable.message = "list assignment index out of range" ∧
    RunError.unindexable.message = "cannot fit 'int' into an index-sized integer" := by
  have hsettles := fun n => Config.settles_run ⟨p, [], m⟩ bound n
  refine ⟨fun n => ⟨(hsettles n).size_eq, (hsettles n).pointer_eq_or⟩,
    fun n hrange k hk => ?_, fun n c hrun hpointer hlimit => ?_, rfl, rfl, rfl⟩
  · have hlater := Config.inRange_run_of_le (c := ⟨p, [], m⟩) hrange hk
    exact ⟨hlater, fun e => Config.isIndexError_of_run hlater⟩
  · obtain ⟨-, hkept⟩ := Config.counter_of_unfinished _ hrun
    refine Config.stepsOffTape ?_ fun l hl => hlimit l (hkept.symm.trans hl)
    -- The pointer is where it was, on a tape that is as long as it was.
    have hsize := (hsettles n).size_eq
    rw [show Config.run bound n ⟨p, [], m⟩ = .unfinished c from hrun] at hsize
    have hsize' : c.machine.tape.size = m.tape.size := hsize
    unfold Tape.InRange at h ⊢
    rwa [hpointer, hsize']

/-- From a pointer in front of the first cell the last one is counted up; then the pointer moves
onto the tape, where a cell is missed no more. -/
theorem runs_off_tape_last_cell :
    let p : Program := .ofCommands [.increment, .right, .left]
    let m : Machine := { tape := ⟨#[65, 0], -1⟩ }
    ¬ m.tape.InRange ∧ Config.StepsOffTape none ⟨p, [], m⟩ ∧
      (p.run none 1 m).machine.tape = ⟨#[65, 1], -1⟩ ∧
      (p.run none 2 m).machine.tape = ⟨#[65, 1], 0⟩ ∧
      (p.run none 3 m).error? = some (.offTape 0 2 .left) ∧
      (p.run none 3 m).machine.tape.InRange ∧
      (RunError.offTape 0 2 .left).isIndexError = false := by
  intro p m
  have h : ¬ m.tape.InRange := by decide
  obtain ⟨-, hstays, hsteps, -⟩ := runs_off_tape none p h
  have herror : (p.run none 3 m).error? = some (.offTape 0 2 .left) := by decide
  have hrange := hstays 2 (by decide) 3 (by decide)
  exact ⟨h, hsteps 0 ⟨p, [], m⟩ rfl rfl (by simp [m]), by decide, by decide, herror, hrange.1,
    hrange.2 _ herror⟩

/-- Where a pointer is no index at all, a miss is not worded as one: the pointer is too large, and
not only off the tape. Where its number is too long to be written, a caller does not see of a move
that the pointer is off the tape. -/
theorem unindexable_pointer :
    (let p : Program := .ofCommands [.increment]
    let m : Machine := { tape := ⟨#[0], 0x8000000000000000⟩ }
    ¬ m.tape.InRange ∧ m.tape.size ≤ m.tape.pointer ∧
      p.run none 1 m = .failed .unindexable m.counted ∧
      RunError.unindexable.message ≠ "list index out of range") ∧
    let p : Program := .ofCommands [.right]
    let pointer : Int := -10 ^ Text.maxDigits
    let m : Machine := { tape := ⟨#[0], pointer⟩ }
    ¬ m.tape.InRange ∧ p.run none 1 m = .failed (.offTape pointer 1 .right) m.counted ∧
      (RunError.offTape pointer 1 .right).failure? = none ∧
      (RunError.offTape pointer 1 .right).errorClass = .value := by
  refine ⟨⟨by decide, by decide, by decide, by decide⟩, ?_⟩
  intro p pointer m
  obtain ⟨hneg, hdigits⟩ : pointer < 0 ∧ ¬ pointer.natAbs < 10 ^ Text.maxDigits :=
    Text.neg_pow_unwritable
  clear_value pointer
  have hrange : ¬ m.tape.InRange := fun h => absurd h.1 (Int.not_le.2 hneg)
  have hheals : ¬ m.tape.Heals .right := by
    rintro ⟨-, ⟨-, hone⟩ | ⟨hleft, -⟩⟩
    · have hpointer : pointer = -1 := hone
      rw [hpointer] at hdigits
      exact hdigits (Nat.one_lt_pow (by decide) (by decide))
    · cases hleft
  have hsteps : Config.StepsOffTape none ⟨p, [], m⟩ := Config.stepsOffTape hrange (by simp [m])
  obtain ⟨hfailed, hshows⟩ := hsteps.fails .right none .nil rfl (by decide) hheals
  obtain ⟨hnone, hclass, -⟩ := hshows.hidden fun h => hdigits h.1
  exact ⟨hrange, Config.run_of_failed _ hfailed 0, hnone, hclass⟩

end Program

end TapeLang
