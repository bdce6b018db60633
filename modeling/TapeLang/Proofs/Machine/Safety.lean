import TapeLang.Evaluate
import TapeLang.Proofs.Error
import TapeLang.Proofs.Machine.Run
import TapeLang.Proofs.Program.RoundTrip
import TapeLang.Proofs.RunConfig.Valid

/-!
# Safe runs

On a tape whose pointer is on a cell, the pointer never leaves the cells and the tape never changes
its length. So every access finds its cell, and what is left of the errors is said step by step.

* `Config.keepsRange_run`: the pointer stays on the tape along every run.
* `Config.advance_failed`: what a failing step can have failed for, and what it has left behind.
* `RunError.seen_cases`: a caller sees an error of the language, a complaint about something
  foreign, or that the message of the error cannot be written.
* `run_safe`: no run on such a tape misses a cell, and every evaluation ends with its text
  or with an error of the language, if its tape can be made and the message can be written.
-/

namespace TapeLang

/-! ## Tapes -/

namespace Tape

variable {t : Tape}

@[simp]
theorem size_modify (i : Nat) (f : Int → Int) : (t.modify i f).size = t.size :=
  Array.size_modify

@[simp]
theorem size_set (i : Nat) (v : Int) : (t.set i v).size = t.size :=
  Array.size_setIfInBounds

/-- A pointer in range counts fewer cells than there are. -/
theorem InRange.toNat_lt (h : t.InRange) : t.pointer.toNat < t.cells.size := by
  obtain ⟨hlow, hhigh⟩ := h
  rw [size] at hhigh
  omega

/-- The current cell is there if the pointer is in range. -/
theorem exists_current? (h : t.InRange) : ∃ v, t.current? = some v := by
  have hbound := h.toNat_lt
  refine ⟨t.cells[t.pointer.toNat], ?_⟩
  rw [current?, slot?_of_inRange h]
  exact Array.getElem?_eq_getElem hbound

/-- A value that has been put into the current cell is there. -/
theorem current?_set (h : t.InRange) (v : Int) :
    (t.set t.pointer.toNat v).current? = some v := by
  rw [current?, slot?_of_inRange (h.set _ v)]
  exact Array.getElem?_setIfInBounds_self_of_lt h.toNat_lt

/-- A move that fails has its target off the tape. -/
theorem move_eq_error {delta : Int} {e : RunError} (h : t.move delta = .error e) :
    ¬ (0 ≤ t.pointer + delta ∧ t.pointer + delta < t.size) ∧
      e = .offTape t.pointer t.size (direction delta) := by
  unfold move at h
  split at h
  · cases h
  · next hout =>
    cases h
    exact ⟨hout, rfl⟩

end Tape

/-! ## Commands -/

namespace Machine

variable {m m' : Machine}

/-- If the pointer of the first machine is in range, so is that of the second one, on as long a
tape. -/
def KeepsRange (m m' : Machine) : Prop :=
  m.tape.InRange → m'.tape.InRange ∧ m'.tape.size = m.tape.size

theorem KeepsRange.refl (m : Machine) : m.KeepsRange m :=
  fun h => ⟨h, rfl⟩

theorem KeepsRange.trans {m₁ m₂ m₃ : Machine} (h : m₁.KeepsRange m₂) (h' : m₂.KeepsRange m₃) :
    m₁.KeepsRange m₃ := by
  intro hrange
  obtain ⟨hrange₂, hsize₂⟩ := h hrange
  obtain ⟨hrange₃, hsize₃⟩ := h' hrange₂
  exact ⟨hrange₃, hsize₃.trans hsize₂⟩

theorem keepsRange_update (f : Int → Int) : m.KeepsRange (m.update f).machine := by
  intro h
  rw [update, Tape.slot?_of_inRange h]
  exact ⟨h.modify _ _, Tape.size_modify _ _⟩

theorem keepsRange_assign (v : Int) : m.KeepsRange (m.assign v).machine := by
  intro h
  rw [assign, Tape.slot?_of_inRange h]
  exact ⟨h.set _ _, Tape.size_set _ _⟩

theorem keepsRange_move (delta : Int) : m.KeepsRange (m.move delta).machine := by
  intro h
  rw [move]
  cases hmove : m.tape.move delta with
  | error e => exact ⟨h, rfl⟩
  | ok t =>
    obtain ⟨heq, hrange⟩ := Tape.move_eq_ok_iff.1 hmove
    exact ⟨hrange, by rw [heq]; rfl⟩

theorem keepsRange_write : m.KeepsRange m.write.machine := by
  unfold write
  split
  · exact KeepsRange.refl m
  · split <;> exact KeepsRange.refl m

theorem keepsRange_takeLine : m.KeepsRange m.takeLine.2 := by
  unfold takeLine
  split <;> exact KeepsRange.refl m

/-- A command keeps the pointer in range, whether it succeeds or not. -/
theorem keepsRange_perform (d : Command) : m.KeepsRange (m.perform d).machine := by
  cases d with
  | increment => exact keepsRange_update _
  | decrement => exact keepsRange_update _
  | right => exact keepsRange_move 1
  | left => exact keepsRange_move (-1)
  | output => exact keepsRange_write
  | input => exact keepsRange_takeLine.trans (keepsRange_assign _)

theorem move_failed {delta : Int} {e : RunError} (h : m.move delta = .failed e m') :
    m' = m ∧ m.tape.move delta = .error e := by
  unfold move at h
  split at h
  · cases h
  · next hmove =>
    cases h
    exact ⟨rfl, hmove⟩

/-- A command fails at an edge of the tape or at a cell that is no character, and has then changed
nothing. -/
theorem perform_failed (h : m.tape.InRange) {d : Command} {e : RunError}
    (hf : m.perform d = .failed e m') :
    m' = m ∧
      (d = .right ∧ m.tape.pointer + 1 = m.tape.size ∧
          e = .offTape m.tape.pointer m.tape.size .right ∨
        d = .left ∧ m.tape.pointer = 0 ∧ e = .offTape m.tape.pointer m.tape.size .left ∨
        d = .output ∧ ∃ v, m.tape.current? = some v ∧ isCodePoint v = false ∧
          e = .badCell v m.tape.pointer) := by
  have hslot := Tape.slot?_of_inRange h
  obtain ⟨hlow, hhigh⟩ := h
  cases d with
  | increment | decrement =>
    simp only [perform, update, hslot] at hf
    cases hf
  | right =>
    -- The pointer was on the tape, so a target off it is the one behind the last cell.
    obtain ⟨hm, hmove⟩ := move_failed hf
    obtain ⟨hout, he⟩ := Tape.move_eq_error hmove
    exact ⟨hm, Or.inl ⟨rfl, by omega, he⟩⟩
  | left =>
    obtain ⟨hm, hmove⟩ := move_failed hf
    obtain ⟨hout, he⟩ := Tape.move_eq_error hmove
    exact ⟨hm, Or.inr (Or.inl ⟨rfl, by omega, he⟩)⟩
  | output =>
    obtain ⟨v, hv⟩ := Tape.exists_current? ⟨hlow, hhigh⟩
    simp only [perform, write, hv] at hf
    split at hf
    · cases hf
    · next hcode =>
      cases hf
      exact ⟨rfl, Or.inr (Or.inr ⟨rfl, v, hv, by simpa using hcode, rfl⟩)⟩
  | input =>
    -- The line has been taken from the machine, but its tape is the same.
    have hline : m.takeLine.2.tape.slot? = some m.tape.pointer.toNat := by
      unfold takeLine
      split <;> exact hslot
    simp only [perform, read, assign, hline] at hf
    cases hf

end Machine

/-! ## Steps and runs -/

namespace Config

variable {bound : Option Nat} {c c' : Config} {m : Machine} {e : RunError} {mark : Option Mark}

/-- A step keeps the pointer in range, whether it succeeds or not. -/
theorem keepsRange_advance (c : Config) : c.machine.KeepsRange (c.advance bound).machine :=
  c.advance_preserves Machine.KeepsRange.refl (fun h => h)
    (fun _ => Machine.keepsRange_perform) bound

theorem inRange_of_next (hrange : c.machine.tape.InRange) (h : c.advance bound = .next mark c') :
    c'.machine.tape.InRange := by
  have hkept : c.machine.KeepsRange (c.advance bound).machine := c.keepsRange_advance
  rw [h] at hkept
  exact (hkept hrange).1

/-- The pointer stays in range along a run, and the tape keeps its length. -/
theorem keepsRange_run (c : Config) (n : Nat) : c.machine.KeepsRange (c.run bound n).machine :=
  run_preserves (R := Machine.KeepsRange) c Machine.KeepsRange.refl Machine.KeepsRange.trans
    keepsRange_advance n

theorem inRange_of_unfinished {n : Nat} (h : c.machine.tape.InRange)
    (hrun : c.run bound n = .unfinished c') : c'.machine.tape.InRange := by
  have hrange : (c.run bound n).machine.tape.InRange := (c.keepsRange_run n h).1
  rwa [hrun] at hrange

/-- Once it has been counted, a step fails with a failing command, at a loop too many or at a
foreign instruction, and leaves the machine behind as it was. -/
theorem act_failed (h : c.machine.tape.InRange) (hf : c.act bound = .failed e m) :
    m = c.machine ∧
      ((∃ d s rest, c.block = .command d s rest ∧ c.machine.perform d = .failed e c.machine) ∨
        (∃ b s rest, c.block = .loop b s rest ∧ e = .tooDeep) ∨
        ∃ name rest, c.block = .foreign name rest ∧ e = .foreign name) := by
  obtain ⟨block, frames, m'⟩ := c
  -- The pointer is on a cell, so no test of a guard fails.
  obtain ⟨v, hv⟩ := Tape.exists_current? h
  cases block with
  | nil =>
    cases frames with
    | nil => cases hf
    | cons f outer =>
      simp only [act, hv] at hf
      split at hf <;> cases hf
  | command d s rest =>
    cases hd : m'.perform d with
    | done m₁ => simp [act, hd] at hf
    | failed e₁ m₁ =>
      simp only [act, hd, Step.failed.injEq] at hf
      obtain ⟨rfl, rfl⟩ := hf
      obtain ⟨rfl, -⟩ := Machine.perform_failed h hd
      exact ⟨rfl, Or.inl ⟨d, s, rest, rfl, hd⟩⟩
  | loop b s rest =>
    simp only [act, hv] at hf
    split at hf
    · cases hf
    · split at hf
      · cases hf
        exact ⟨rfl, Or.inr (Or.inl ⟨b, s, rest, rfl, rfl⟩)⟩
      · cases hf
  | foreign n rest =>
    cases hf
    exact ⟨rfl, Or.inr (Or.inr ⟨n, rest, rfl, rfl⟩)⟩

/-- A failing step is counted and changes nothing else. It has passed the limit, or it has failed
for what it was to do. -/
theorem advance_failed (h : c.machine.tape.InRange) (hf : c.advance bound = .failed e m) :
    m = c.machine.counted ∧
      ((∃ l, c.machine.limit = some l ∧ l < (c.machine.steps : Int) + 1 ∧ e = .stepLimit l) ∨
        (∃ d s rest, c.block = .command d s rest ∧
          c.machine.counted.perform d = .failed e c.machine.counted) ∨
        (∃ b s rest, c.block = .loop b s rest ∧ e = .tooDeep) ∨
        ∃ name rest, c.block = .foreign name rest ∧ e = .foreign name) := by
  rcases c.advance_cases bound (not_done_of_failed c hf) with ⟨l, hl, hover, hfail⟩ | hact
  · rw [hfail, Step.failed.injEq] at hf
    obtain ⟨rfl, rfl⟩ := hf
    exact ⟨rfl, Or.inl ⟨l, hl, hover, rfl⟩⟩
  · rw [hact] at hf
    obtain ⟨hm, hcause⟩ := act_failed (c := c.onMachine c.machine.counted) h hf
    exact ⟨hm, Or.inr hcause⟩

/-- Nothing that is left to do is foreign. -/
structure Native (c : Config) : Prop where
  /-- What is left of the innermost block is native. -/
  block : c.block.native = true
  /-- The loops around it and what follows them are native. -/
  frames : ∀ f ∈ c.frames, f.body.native = true ∧ f.rest.native = true

theorem Native.act (hc : c.Native) (h : c.act bound = .next mark c') : c'.Native := by
  obtain ⟨block, frames, m⟩ := c
  obtain ⟨hblock, hframes⟩ := hc
  cases block with
  | nil =>
    cases frames with
    | nil => cases h
    | cons f outer =>
      simp only [List.mem_cons, forall_eq_or_imp] at hframes
      simp only [Config.act] at h
      split at h
      · cases h
      · split at h
        · cases h
          exact ⟨hframes.1.2, hframes.2⟩
        · cases h
          exact ⟨hframes.1.1, by simpa using hframes⟩
  | command d s rest =>
    simp only [Config.act] at h
    split at h
    · cases h
    · cases h
      exact ⟨hblock, hframes⟩
  | loop b s rest =>
    rw [Program.native, Bool.and_eq_true] at hblock
    simp only [Config.act] at h
    split at h
    · cases h
    · split at h
      · cases h
        exact ⟨hblock.2, hframes⟩
      · split at h
        · cases h
        · cases h
          exact ⟨hblock.1, by simpa using ⟨hblock, hframes⟩⟩
  | foreign n rest => cases h

theorem Native.advance (hc : c.Native) (h : c.advance bound = .next mark c') : c'.Native := by
  exact Native.act (c := c.onMachine c.machine.counted) ⟨hc.block, hc.frames⟩ (c.act_of_next h)

end Config

/-! ## Errors of runs -/

namespace RunError

/-- The kinds of errors of the language that a run can end with. -/
def kinds : List FailureKind :=
  [.pointerOutOfBounds, .cellValue, .stepLimitExceeded, .nestingTooDeep]

/-- An error of the language is meant, and its message would show an integer that cannot be
written: a caller sees a complaint about this integer. -/
def Unwordable (e : RunError) : Prop :=
  e.errorClass = .value ∧ ∃ f, e.meant? = some f ∧ f.isWritable = false

variable {e : RunError} {f : Failure}

theorem Unwordable.failure?_eq_none (h : e.Unwordable) : e.failure? = none := by
  obtain ⟨-, f, hmeant, hunwritable⟩ := h
  exact ((showsIff_of_meant hmeant).hidden (Bool.eq_false_iff.1 hunwritable)).1

theorem kind_mem_kinds (h : e.meant? = some f) : f.kind ∈ kinds := by
  cases e <;> cases h <;> simp [kinds, Failure.kind]

/-- Of an error of the language a caller sees that error, unless it cannot be worded. -/
theorem seen_cases (h : e.meant? = some f) :
    (e.failure? = some f ∧ e.errorClass = .language f.kind) ∨ e.Unwordable := by
  have hshows := showsIff_of_meant h
  by_cases hf : f.isWritable = true
  · exact Or.inl (hshows.shown hf)
  · exact Or.inr ⟨(hshows.hidden hf).2.1, f, h, Bool.not_eq_true _ ▸ hf⟩

end RunError

namespace Program

variable {bound : Option Nat} {p : Program} {m m' : Machine} {e : RunError} {n : Nat}

/-- A run that fails on a tape whose pointer is in range has met an edge of the tape, a cell that is
no character, the limit, a loop too many, or a foreign instruction of the program. -/
theorem error_of_run (h : m.tape.InRange) (hf : p.run bound n m = .failed e m') :
    (∃ i s d, e = .offTape i s d) ∨ (∃ v i, e = .badCell v i) ∨ (∃ l, e = .stepLimit l) ∨
      e = .tooDeep ∨ (∃ name, e = .foreign name) ∧ p.native = false := by
  obtain ⟨k, c, -, hrun, hstep⟩ := Config.exists_step_of_failed _ hf
  have hrange := Config.inRange_of_unfinished h hrun
  rcases (Config.advance_failed hrange hstep).2 with ⟨l, -, -, rfl⟩ | ⟨d, s, rest, -, hd⟩ |
    ⟨b, s, rest, -, rfl⟩ | ⟨name, rest, hblock, rfl⟩
  · exact Or.inr (Or.inr (Or.inl ⟨l, rfl⟩))
  · rcases (Machine.perform_failed (m := c.machine.counted) hrange hd).2 with ⟨-, -, rfl⟩ |
      ⟨-, -, rfl⟩ | ⟨-, v, -, -, rfl⟩
    · exact Or.inl ⟨_, _, _, rfl⟩
    · exact Or.inl ⟨_, _, _, rfl⟩
    · exact Or.inr (Or.inl ⟨_, _, rfl⟩)
  · exact Or.inr (Or.inr (Or.inr (Or.inl rfl)))
  · refine Or.inr (Or.inr (Or.inr (Or.inr ⟨⟨name, rfl⟩, ?_⟩)))
    -- A native program would not have come to a foreign instruction.
    by_contra hnative
    have hstart : Config.Native ⟨p, [], m⟩ := ⟨by simpa using hnative, by simp⟩
    have hleft := (Config.invariant_of_unfinished Config.Native.advance hstart hrun).block
    rw [hblock] at hleft
    cases hleft

/-- So the error that is meant is one of the language, unless the program has a foreign
instruction. -/
theorem meant_of_run (h : m.tape.InRange) (hf : p.run bound n m = .failed e m') :
    (∃ f, e.meant? = some f) ∨ e.errorClass = .type ∧ p.native = false := by
  rcases error_of_run h hf with ⟨i, s, d, rfl⟩ | ⟨v, i, rfl⟩ | ⟨l, rfl⟩ | rfl |
    ⟨⟨name, rfl⟩, hforeign⟩
  · exact Or.inl ⟨_, rfl⟩
  · exact Or.inl ⟨_, rfl⟩
  · exact Or.inl ⟨_, rfl⟩
  · exact Or.inl ⟨_, rfl⟩
  · exact Or.inr ⟨rfl, hforeign⟩

/-- What a caller sees of a run that fails on a tape whose pointer is in range. -/
theorem seen_of_run (h : m.tape.InRange) (hf : p.run bound n m = .failed e m') :
    (∃ f, e.failure? = some f ∧ f.kind ∈ RunError.kinds) ∨
      e.errorClass = .type ∧ p.native = false ∨ e.Unwordable := by
  rcases meant_of_run h hf with ⟨f, hmeant⟩ | hforeign
  · rcases RunError.seen_cases hmeant with ⟨hseen, -⟩ | hunwordable
    · exact Or.inl ⟨f, hseen, RunError.kind_mem_kinds hmeant⟩
    · exact Or.inr (Or.inr hunwordable)
  · exact Or.inr (Or.inl hforeign)

end Program

/-! ## Errors of evaluations -/

/-- A tape that cannot be made although it would have a cell has more cells than an index can count,
or than there is memory for. -/
theorem Tape.error_of_blank? {hasRoom : Nat → Bool} {size : Int} {b : BadTapeSize}
    (hsize : 1 ≤ size) (h : blank? hasRoom size = .error b) :
    b = .unindexable ∧ indexBound ≤ size ∨ b = .noRoom ∧ hasRoom size.toNat = false := by
  unfold blank? at h
  split at h
  · omega
  · split at h
    · next hindex =>
      cases h
      exact Or.inl ⟨rfl, hindex⟩
    · split at h
      · cases h
      · next hroom =>
        cases h
        exact Or.inr ⟨rfl, by simpa using hroom⟩

/-- The machine of a configuration has its pointer in range, or its tape cannot be made. -/
theorem RunConfig.machine_cases (hasRoom : Nat → Bool) (config : RunConfig)
    (input : List (List Text.CodePoint)) :
    (∃ b, Tape.blank? hasRoom config.tapeSize = .error b ∧
        config.machine hasRoom input = .error b) ∨
      ∃ t, Tape.blank? hasRoom config.tapeSize = .ok t ∧ t.InRange ∧
        config.machine hasRoom input = .ok { tape := t, input, limit := config.stepLimit } := by
  unfold machine
  cases hblank : Tape.blank? hasRoom config.tapeSize with
  | error b => exact Or.inl ⟨b, rfl, rfl⟩
  | ok t => exact Or.inr ⟨t, rfl, Tape.inRange_of_blank? hblank, rfl⟩

/-- An evaluation that gives no text needs more steps, or ends with an error of the language or one
that cannot be worded, or its tape cannot be made. -/
theorem error_of_evaluate {bounds : Limits} {fuel : Nat} {text : List Char}
    {config : RunConfig} {input : List Text.CodePoint} {e : EvalError}
    (h : evaluate bounds fuel text config input = .error e) :
    e = .unfinished ∨ (∃ f, e.failure? = some f) ∨ (∃ r, e = .run r ∧ r.Unwordable) ∨
      ∃ b, Tape.blank? bounds.hasRoom config.tapeSize = .error b ∧ e = .tape b := by
  unfold evaluate at h
  split at h
  · cases h
    exact Or.inr (Or.inl ⟨_, rfl⟩)
  · next p hp =>
    rcases config.machine_cases bounds.hasRoom (Text.lines input) with ⟨b, hblank, hmachine⟩ |
      ⟨t, -, hrange, hmachine⟩
    · rw [hmachine] at h
      cases h
      exact Or.inr (Or.inr (Or.inr ⟨b, hblank, rfl⟩))
    · simp only [hmachine, Program.runClosed] at h
      cases hrun : p.run (some bounds.running) fuel
          { tape := t, input := Text.lines input, limit := config.stepLimit } with
      | finished m =>
        rw [hrun] at h
        cases h
      | failed e' m =>
        rw [hrun] at h
        cases h
        rcases Program.seen_of_run hrange hrun with ⟨f, hf, -⟩ | ⟨-, hforeign⟩ | hunwordable
        · exact Or.inr (Or.inl ⟨f, hf⟩)
        -- What has been read from a text has no foreign instruction.
        · rw [Program.native_of_ofTextWithin hp] at hforeign
          cases hforeign
        · exact Or.inr (Or.inr (Or.inl ⟨e', rfl, hunwordable⟩))
      | unfinished c =>
        rw [hrun] at h
        cases h
        exact Or.inl rfl

/-- On a tape whose pointer is in range no run misses a cell. The pointer stays in range and the
tape keeps its length, at every moment and in what an error leaves behind; the run can only fail at
an edge of the tape, at a cell that is no character, at its limit, at a loop too many, or at a
foreign instruction if the program has one; what a caller sees of that is the error of the language
for it, a complaint about the foreign instruction, or about an integer of too many digits that the
message of the error would show; and each step writes nothing or the character whose number the
current cell holds. So an evaluation under a valid configuration ends with its text or with an error
of the language, unless the message of the error cannot be written, or the tape has more cells than
an index can count or than there is memory for. -/
theorem run_safe :
    (∀ (bound : Option Nat) (p : Program) (m : Machine), m.tape.InRange →
      (∀ n, (p.run bound n m).machine.tape.InRange ∧
        (p.run bound n m).machine.tape.size = m.tape.size) ∧
      (∀ n e, (p.run bound n m).error? = some e →
        ((∃ i s d, e = .offTape i s d) ∨ (∃ v i, e = .badCell v i) ∨ (∃ l, e = .stepLimit l) ∨
          e = .tooDeep ∨ (∃ name, e = .foreign name) ∧ p.native = false) ∧
        ((∃ f, e.failure? = some f ∧ f.kind ∈ RunError.kinds) ∨
          e.errorClass = .type ∧ p.native = false ∨ e.Unwordable)) ∧
      ∀ n c, p.run bound n m = .unfinished c → c.machine.WritesCell (c.advance bound).machine) ∧
    ∀ (bounds : Limits) (fuel : Nat) (text : List Char) (config : RunConfig)
      (input : List Text.CodePoint) (e : EvalError), config.Valid →
      evaluate bounds fuel text config input = .error e →
      e = .unfinished ∨ (∃ f, e.failure? = some f) ∨ (∃ r, e = .run r ∧ r.Unwordable) ∨
        (e = .tape .unindexable ∧ indexBound ≤ config.tapeSize) ∨
        e = .tape .noRoom ∧ bounds.hasRoom config.tapeSize.toNat = false := by
  refine ⟨fun bound p m h => ⟨fun n => ?_, fun n e he => ?_, fun n c _ => ?_⟩,
    fun bounds fuel text config input e hconfig he => ?_⟩
  · exact Config.keepsRange_run ⟨p, [], m⟩ n h
  · cases hrun : p.run bound n m with
    | finished m' =>
      rw [hrun] at he
      cases he
    | failed e' m' =>
      rw [hrun] at he
      cases he
      exact ⟨Program.error_of_run h hrun, Program.seen_of_run h hrun⟩
    | unfinished c =>
      rw [hrun] at he
      cases he
  · exact c.writesCell_advance bound
  · rcases error_of_evaluate he with hfuel | hfailure | hunwordable | ⟨b, hblank, rfl⟩
    · exact Or.inl hfuel
    · exact Or.inr (Or.inl hfailure)
    · exact Or.inr (Or.inr (Or.inl hunwordable))
    · rcases Tape.error_of_blank? hconfig.one_le_tapeSize hblank with ⟨rfl, hsize⟩ | ⟨rfl, hroom⟩
      · exact Or.inr (Or.inr (Or.inr (Or.inl ⟨rfl, hsize⟩)))
      · exact Or.inr (Or.inr (Or.inr (Or.inr ⟨rfl, hroom⟩)))

/-- A run that writes and then meets the left edge leaves its pointer in range, and the evaluation
of such a text fails with an error of the language. -/
theorem run_safe_left_edge :
    let p : Program := .ofCommands [.output, .left]
    let m : Machine := { tape := ⟨#[65, 0], 0⟩ }
    m.tape.InRange ∧ (p.run none 2 m).error? = some (.offTape 0 2 .left) ∧
      (p.run none 2 m).machine.tape.InRange ∧ (p.run none 2 m).machine.tape.size = 2 ∧
      (⟨1, none⟩ : RunConfig).Valid ∧
      evaluate .sample 1 ['<'] ⟨1, none⟩ [] = .error (.run (.offTape 0 1 .left)) ∧
      ∃ f, (EvalError.run (.offTape 0 1 .left)).failure? = some f := by
  intro p m
  have hrange : m.tape.InRange := by decide
  have hvalid : (⟨1, none⟩ : RunConfig).Valid := ⟨by decide, by simp⟩
  have heval : evaluate .sample 1 ['<'] ⟨1, none⟩ [] = .error (.run (.offTape 0 1 .left)) := rfl
  obtain ⟨hruns, hevals⟩ := run_safe
  obtain ⟨hkept, hsize⟩ := (hruns none p m hrange).1 2
  refine ⟨hrange, by decide, hkept, hsize, hvalid, heval, ?_⟩
  rcases hevals _ _ _ _ _ _ hvalid heval with h | h | ⟨r, h, hunwordable⟩ | ⟨h, -⟩ | ⟨h, -⟩
  · cases h
  · exact h
  · cases h
    exact absurd hunwordable.1 (by decide)
  · cases h
  · cases h

/-- A cell that cannot be written is no character, and a complaint about its number is all that a
caller sees. -/
theorem Program.unwordable_of_output {v : Int} (h : Text.isWritable v = false) :
    (Program.ofCommands [.output]).run none 1 { tape := ⟨#[v], 0⟩ } =
        .failed (.badCell v 0) { tape := ⟨#[v], 0⟩, steps := 1 } ∧
      (RunError.badCell v 0).Unwordable := by
  have hcode : isCodePoint v = false := by
    rw [← Bool.not_eq_true, isCodePoint]
    simp only [Bool.and_eq_true, decide_eq_true_eq]
    rintro ⟨⟨hlow, hhigh⟩, -⟩
    -- The numbers of characters are small, and could all be written.
    rw [Text.isWritable_of_natAbs_le (by omega)] at h
    cases h
  have hmeant : (RunError.badCell v 0).meant? = some (.cellValue (.int v) (.int 0)) := rfl
  have hunwritable : (Failure.cellValue (.int v) (.int 0)).isWritable = false := by
    simp [Failure.isWritable, Failure.shown, Value.isWritable, h]
  refine ⟨?_, (RunError.seen_cases hmeant).resolve_left fun hseen => ?_⟩
  · simp [Program.ofCommands, Program.run, Config.run, Config.advance, Machine.tick,
      Machine.perform, Machine.write, Tape.current?, Tape.slot?, Tape.size, hcode]
  · have hwritable := (RunError.failure?_eq_some_iff.1 hseen.1).2
    rw [hunwritable] at hwritable
    cases hwritable

/-- A valid configuration may ask for more cells than any index could count: then not even the empty
text is evaluated, and the error is none of the language. Nor is the error of a run that comes to a
cell with a number of too many digits. -/
theorem evaluate_unindexable :
    ((⟨0x8000000000000000, none⟩ : RunConfig).Valid ∧
      evaluate .sample 1 [] ⟨0x8000000000000000, none⟩ [] = .error (.tape .unindexable) ∧
      EvalError.tape .unindexable ≠ .unfinished ∧
      (EvalError.tape .unindexable).failure? = none) ∧
    let m : Machine := { tape := ⟨#[-10 ^ Text.maxDigits], 0⟩ }
    m.tape.InRange ∧ ∃ e, ((Program.ofCommands [.output]).run none 1 m).error? = some e ∧
      e.errorClass = .value := by
  obtain ⟨hrun, hclass, -⟩ := Program.unwordable_of_output Text.isWritable_neg_pow
  refine ⟨⟨⟨by decide, by simp⟩, rfl, by decide, rfl⟩, ⟨by decide, Int.one_pos⟩,
    .badCell (-10 ^ Text.maxDigits) 0, ?_, hclass⟩
  rw [hrun]
  rfl

end TapeLang
