import TapeLang.Proofs.Machine.Safety

/-!
# What errors tell

A run that fails does so at one step, and this step has been counted but has changed nothing else.
So an error can be read against the machine that it leaves behind: the position, the size, the value
and the limit that it carries are those of this machine, and what it complains about is the case
there.

* `Machine.Blocks`: what keeps a command from being performed, and `Config.advance_failed_iff`, that
  nothing else does within the limit.
* `RunError.Describes`: an error fits the machine and the instruction at which it arose.
* `Program.error_describes`: every error of a run does.
-/

namespace TapeLang

/-- The value is the number of no character: it is negative, too large, or that of a surrogate. -/
def NoCharacter (v : Int) : Prop :=
  v < 0 ∨ 0x10FFFF < v ∨ 0xD800 ≤ v ∧ v ≤ 0xDFFF

theorem isCodePoint_eq_false_iff {v : Int} : isCodePoint v = false ↔ NoCharacter v := by
  simp only [isCodePoint, NoCharacter, Bool.and_eq_false_iff, Bool.not_eq_false',
    Bool.and_eq_true, decide_eq_true_eq, decide_eq_false_iff_not]
  omega

/-! ## What a command needs -/

namespace Machine

/-- What keeps a command from being performed: an edge of the tape, or a current cell that is no
character. -/
def Blocks (m : Machine) : Command → Prop
  | .right => m.tape.pointer + 1 = m.tape.size
  | .left => m.tape.pointer = 0
  | .output => ∃ v, m.tape.current? = some v ∧ NoCharacter v
  | .increment | .decrement | .input => False

variable {m : Machine} {d : Command}

theorem blocks_of_perform_failed (h : m.tape.InRange) {e : RunError} {m' : Machine}
    (hf : m.perform d = .failed e m') : m.Blocks d := by
  rcases (perform_failed h hf).2 with ⟨rfl, hedge, -⟩ | ⟨rfl, hedge, -⟩ | ⟨rfl, v, hv, hcode, -⟩
  · exact hedge
  · exact hedge
  · exact ⟨v, hv, isCodePoint_eq_false_iff.1 hcode⟩

theorem Blocks.perform_failed (h : m.Blocks d) : ∃ e m', m.perform d = .failed e m' := by
  cases d with
  | right =>
    have hout : ¬ (0 ≤ m.tape.pointer + 1 ∧ m.tape.pointer + 1 < m.tape.size) := by
      rw [show m.tape.pointer + 1 = m.tape.size from h]
      omega
    exact ⟨_, m, by rw [perform, move, Tape.move, if_neg hout]⟩
  | left =>
    have hout : ¬ (0 ≤ m.tape.pointer + -1 ∧ m.tape.pointer + -1 < m.tape.size) := by
      rw [show m.tape.pointer = 0 from h]
      omega
    exact ⟨_, m, by rw [perform, move, Tape.move, if_neg hout]⟩
  | output =>
    obtain ⟨v, hv, hno⟩ := h
    have hcode : isCodePoint v = false := isCodePoint_eq_false_iff.2 hno
    refine ⟨.badCell v m.tape.pointer, m, ?_⟩
    rw [perform, write, hv]
    simp only [hcode]
    rfl
  | increment => exact h.elim
  | decrement => exact h.elim
  | input => exact h.elim

end Machine

/-! ## What an error tells -/

/-- The error fits a machine that was to go on with this block: it tells the pointer, the size of
the tape, the current cell or the limit of this machine, and the first instruction of the block
could not be done on it for the reason given. -/
def RunError.Describes (e : RunError) (block : Program) (m : Machine) : Prop :=
  match e with
  | offTape i size d =>
    i = m.tape.pointer ∧ size = m.tape.size ∧
      (d = .right ∧ i = size - 1 ∧ (∃ s rest, block = .command .right s rest) ∨
        d = .left ∧ i = 0 ∧ ∃ s rest, block = .command .left s rest)
  | badCell v i =>
    i = m.tape.pointer ∧ m.tape.current? = some v ∧ NoCharacter v ∧
      ∃ s rest, block = .command .output s rest
  | stepLimit l => m.limit = some l ∧ l < m.steps
  | tooDeep => ∃ b s rest, block = .loop b s rest
  | foreign name => ∃ rest, block = .foreign name rest
  | unreadable | unwritable | unindexable => False

namespace Config

variable {bound : Option Nat} {c : Config} {e : RunError} {m : Machine}

/-- The error of a failing step fits the machine that it leaves behind. -/
theorem describes_of_advance (h : c.machine.tape.InRange) (hf : c.advance bound = .failed e m) :
    e.Describes c.block m := by
  obtain ⟨rfl, hcause⟩ := advance_failed h hf
  rcases hcause with ⟨l, hl, hover, rfl⟩ | ⟨d, s, rest, hblock, hd⟩ | ⟨b, s, rest, hblock, rfl⟩ |
    ⟨name, rest, hblock, rfl⟩
  · -- The limit was compared with the counter as it is behind the step.
    exact ⟨hl, by simpa [Machine.counted] using hover⟩
  · rcases (Machine.perform_failed (m := c.machine.counted) h hd).2 with ⟨rfl, hedge, rfl⟩ |
      ⟨rfl, hedge, rfl⟩ | ⟨rfl, v, hv, hcode, rfl⟩
    · exact ⟨rfl, rfl, Or.inl ⟨rfl, by omega, s, rest, hblock⟩⟩
    · exact ⟨rfl, rfl, Or.inr ⟨rfl, hedge, s, rest, hblock⟩⟩
    · exact ⟨rfl, hv, isCodePoint_eq_false_iff.1 hcode, s, rest, hblock⟩
  · exact ⟨b, s, rest, hblock⟩
  · exact ⟨rest, hblock⟩

/-- A command whose step is within the limit fails just if the machine blocks it. -/
theorem advance_failed_iff (h : c.machine.tape.InRange) {d : Command} {s : Option Span}
    {rest : Program} (hblock : c.block = .command d s rest)
    (hlimit : ∀ l, c.machine.limit = some l → (c.machine.steps : Int) + 1 ≤ l) :
    (∃ e m, c.advance bound = .failed e m) ↔ c.machine.Blocks d := by
  obtain ⟨block, frames, m⟩ := c
  obtain rfl : block = .command d s rest := hblock
  -- The step is counted, and counting has no part in what blocks a command.
  have hstep : advance bound ⟨.command d s rest, frames, m⟩ =
      act bound ⟨.command d s rest, frames, m.counted⟩ :=
    advance_of_tick ⟨.command d s rest, frames, m⟩ (by simp [Done]) (m.tick_eq_done hlimit)
  have hsame : m.Blocks d ↔ m.counted.Blocks d := by
    cases d <;> exact Iff.rfl
  rw [hstep, hsame]
  constructor
  · rintro ⟨e, m', hf⟩
    cases hd : m.counted.perform d with
    | done m₁ => simp [act, hd] at hf
    | failed e₁ m₁ => exact Machine.blocks_of_perform_failed (m := m.counted) h hd
  · intro hblocks
    obtain ⟨e, m', hd⟩ := hblocks.perform_failed
    exact ⟨e, m', by rw [act, hd]⟩

end Config

namespace Program

/-- Errors describe the state that they leave behind. If a run fails, then at its last step, which
has changed nothing but the counter; the error fits the machine left behind, with the limit that was
set, and what was written before stays written. Conversely, a command whose step is within the limit
fails only at an edge of the tape that it would cross or at a cell that is no character. -/
theorem error_describes (bound : Option Nat) (p : Program) {m : Machine} (h : m.tape.InRange) :
    (∀ n e m', p.run bound n m = .failed e m' →
      ∃ k c, k < n ∧ p.run bound k m = .unfinished c ∧ c.advance bound = .failed e m' ∧
        m' = c.machine.counted ∧ m'.limit = m.limit ∧ e.Describes c.block m' ∧
        ∀ j ≤ k, (p.run bound j m).machine.output <+: m'.output) ∧
    ∀ k c d s rest, p.run bound k m = .unfinished c → c.block = .command d s rest →
      (∀ l, m.limit = some l → (c.machine.steps : Int) + 1 ≤ l) →
      ((∃ e m', c.advance bound = .failed e m') ↔ c.machine.Blocks d) := by
  refine ⟨fun n e m' hf => ?_, fun k c d s rest hrun hblock hlimit => ?_⟩
  -- The failing step is the last one, and says all there is to say.
  · obtain ⟨k, c, hk, hrun, hstep⟩ := Config.exists_step_of_failed _ hf
    have hrange := Config.inRange_of_unfinished h hrun
    obtain ⟨hm, -⟩ := Config.advance_failed hrange hstep
    obtain ⟨-, hlimit⟩ := Config.counter_of_unfinished _ hrun
    refine ⟨k, c, hk, hrun, hstep, hm, ?_, Config.describes_of_advance hrange hstep,
      fun j hj => ?_⟩
    · rw [hm]
      exact hlimit
    · have hgrown := Config.output_run_mono ⟨p, [], m⟩ bound hj
      rw [show Config.run bound k ⟨p, [], m⟩ = .unfinished c from hrun] at hgrown
      rw [hm]
      exact hgrown
  · obtain ⟨-, hlimit'⟩ := Config.counter_of_unfinished _ hrun
    refine Config.advance_failed_iff (Config.inRange_of_unfinished h hrun) hblock fun l hl => ?_
    exact hlimit l (hlimit'.symm.trans hl)

/-- A run that writes, counts its cell below zero and writes again fails with an error that fits the
machine left behind; at its first step nothing blocks the command. -/
theorem error_describes_negative_cell :
    let p : Program := .ofCommands [.output, .decrement, .output]
    let m : Machine := { tape := ⟨#[0], 0⟩ }
    m.tape.InRange ∧
      p.run none 3 m = .failed (.badCell (-1) 0) (p.run none 3 m).machine ∧
      (∃ block, (RunError.badCell (-1) 0).Describes block (p.run none 3 m).machine) ∧
      ((∃ e m', Config.advance none ⟨p, [], m⟩ = .failed e m') ↔ m.Blocks .output) := by
  intro p m
  have hrange : m.tape.InRange := by decide
  have hfail : p.run none 3 m = .failed (.badCell (-1) 0) (p.run none 3 m).machine := by decide
  obtain ⟨herror, hconverse⟩ := error_describes none p hrange
  obtain ⟨k, c, -, -, -, -, -, hdescribes, -⟩ := herror 3 _ _ hfail
  exact ⟨hrange, hfail, ⟨c.block, hdescribes⟩,
    hconverse 0 ⟨p, [], m⟩ .output none _ rfl rfl (by simp [m])⟩

end Program

end TapeLang
