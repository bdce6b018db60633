import Mathlib.Data.List.Forall2
import TapeLang.Proofs.Machine.Run

/-!
# Loops that are never entered

The body of a loop is looked at when the loop is entered, and not before. To see whether a loop is
ever entered, put an instruction into its body that nothing can run: a run that does not fail at
this instruction is the same as it is with any other body.

* `Outline`: a program with one marked loop whose body is left open.
* `Program.Swapped`, `Config.Swapped`: programs and configurations that differ in the bodies of some
  loops.
* `Config.advance_swapped`: a step of two such configurations.
* `Config.run_swapped`: their runs.
* `Outline.run_fill_of_unentered`: the body of a loop that is never entered has no influence.
-/

namespace TapeLang

/-! ## Programs with an open loop -/

/-- A program with one loop in it that is marked, and whose body is left open. -/
inductive Outline
  /-- The marked loop is somewhere behind a command. -/
  | command (c : Command) (span : Option Span) (rest : Outline)
  /-- The marked loop is somewhere behind a loop. -/
  | loop (body : Program) (span : Option Span) (rest : Outline)
  /-- The marked loop is somewhere in the body of a loop. -/
  | inside (body : Outline) (span : Option Span) (rest : Program)
  /-- The marked loop is somewhere behind an instruction of an unknown kind. -/
  | foreign (name : String) (rest : Outline)
  /-- The marked loop, and what follows it. -/
  | marked (span : Option Span) (rest : Program)
  deriving DecidableEq, Repr

/-- The program with this body in the marked loop. -/
def Outline.fill : Outline → Program → Program
  | command c s rest, b => .command c s (rest.fill b)
  | loop body s rest, b => .loop body s (rest.fill b)
  | inside body s rest, b => .loop (body.fill b) s rest
  | foreign name rest, b => .foreign name (rest.fill b)
  | marked s rest, b => .loop b s rest

/-! ## Swapped bodies -/

/-- The programs differ at most in the bodies of some loops, which are the first given body in the
one program and the second in the other. -/
inductive Program.Swapped (a b : Program) : Program → Program → Prop
  /-- Both programs are at their end. -/
  | nil : Swapped a b .nil .nil
  /-- Both programs begin with the same command. -/
  | command (c : Command) (s : Option Span) {p q : Program} (hrest : Swapped a b p q) :
      Swapped a b (.command c s p) (.command c s q)
  /-- Both programs begin with a loop, and the bodies differ at most in the same way. -/
  | loop {p q p' q' : Program} (s : Option Span) (hbody : Swapped a b p q)
      (hrest : Swapped a b p' q') : Swapped a b (.loop p s p') (.loop q s q')
  /-- Both programs begin with the same instruction of an unknown kind. -/
  | foreign (name : String) {p q : Program} (hrest : Swapped a b p q) :
      Swapped a b (.foreign name p) (.foreign name q)
  /-- Both programs begin with a loop, and the bodies are the given ones. -/
  | marked (s : Option Span) {p q : Program} (hrest : Swapped a b p q) :
      Swapped a b (.loop a s p) (.loop b s q)

theorem Program.Swapped.refl (a b p : Program) : Swapped a b p p := by
  induction p with
  | nil => exact .nil
  | command c s rest ih => exact .command c s ih
  | loop body s rest ihbody ihrest => exact .loop s ihbody ihrest
  | foreign name rest ih => exact .foreign name ih

theorem Outline.swapped_fill (o : Outline) (a b : Program) :
    Program.Swapped a b (o.fill a) (o.fill b) := by
  induction o with
  | command c s rest ih => exact .command c s ih
  | loop body s rest ih => exact .loop s (.refl a b body) ih
  | inside body s rest ih => exact .loop s ih (.refl a b rest)
  | foreign name rest ih => exact .foreign name ih
  | marked s rest => exact .marked s (.refl a b rest)

/-- The loops entered differ at most in the bodies of loops that they hold. -/
structure Frame.Swapped (a b : Program) (f f' : Frame) : Prop where
  /-- So do their bodies. -/
  body : Program.Swapped a b f.body f'.body
  /-- So does what follows them. -/
  rest : Program.Swapped a b f.rest f'.rest

/-- The configurations differ at most in the bodies of some loops that have not been entered. -/
structure Config.Swapped (a b : Program) (c c' : Config) : Prop where
  /-- So does what is left of the innermost block. -/
  block : Program.Swapped a b c.block c'.block
  /-- So do the loops around it. -/
  frames : List.Forall₂ (Frame.Swapped a b) c.frames c'.frames
  /-- The machines are the same. -/
  machine_eq : c'.machine = c.machine

/-- What the same step can be where the bodies of some loops have been swapped for a single
instruction of a kind that nothing can run. -/
inductive Step.Swapped (kind : String) (b : Program) : Step → Step → Prop
  /-- No step is left to do. -/
  | finished (m : Machine) : Swapped kind b (.finished m) (.finished m)
  /-- Both steps fail alike. -/
  | failed (e : RunError) (m : Machine) : Swapped kind b (.failed e m) (.failed e m)
  /-- Both steps succeed alike. -/
  | next (mark : Option Mark) {c c' : Config} (h : c.Swapped (.foreign kind .nil) b c') :
      Swapped kind b (.next mark c) (.next mark c')
  /-- A loop is entered whose body has been swapped. -/
  | entered (mark : Option Mark) {c c' : Config} (hblock : c.block = .foreign kind .nil)
      (hnot : ¬ c'.Done) (hmachine : c'.machine = c.machine) :
      Swapped kind b (.next mark c) (.next mark c')

namespace Config

variable {bound : Option Nat} {kind : String} {a b : Program} {c c' : Config} {m : Machine}

theorem Swapped.done_iff (h : c.Swapped a b c') : c.Done ↔ c'.Done := by
  obtain ⟨block, frames, m⟩ := c
  obtain ⟨block', frames', m'⟩ := c'
  obtain ⟨hblock, hframes, -⟩ := h
  cases hblock with
  | nil => cases hframes <;> simp [Done]
  | command _ _ _ => simp [Done]
  | loop _ _ _ => simp [Done]
  | foreign _ _ => simp [Done]
  | marked _ _ => simp [Done]

theorem Swapped.onMachine (h : c.Swapped a b c') (m : Machine) :
    (c.onMachine m).Swapped a b (c'.onMachine m) :=
  ⟨h.block, h.frames, rfl⟩

/-- A step looks at the body of a loop when it enters the loop, and not before. -/
theorem act_swapped (h : c.Swapped (.foreign kind .nil) b c') :
    Step.Swapped kind b (c.act bound) (c'.act bound) := by
  obtain ⟨block, frames, m⟩ := c
  obtain ⟨block', frames', m'⟩ := c'
  obtain ⟨hblock, hframes, hmachine⟩ := h
  obtain rfl : m' = m := hmachine
  have hfull : isFull bound frames = isFull bound frames' := isFull_congr hframes.length_eq
  cases hblock with
  | nil =>
    cases hframes with
    | nil => exact .finished m'
    | cons hf houter =>
      simp only [act]
      split
      · exact .failed _ _
      · split
        · exact .next _ ⟨hf.rest, houter, rfl⟩
        · exact .next _ ⟨hf.body, .cons hf houter, rfl⟩
  | command d s hrest =>
    simp only [act]
    split
    · exact .failed _ _
    · exact .next _ ⟨hrest, hframes, rfl⟩
  | loop s hbody hrest =>
    simp only [act, hfull]
    split
    · exact .failed _ _
    · split
      · exact .next _ ⟨hrest, hframes, rfl⟩
      · split
        · exact .failed _ _
        · exact .next _ ⟨hbody, .cons ⟨hbody, hrest⟩ hframes, rfl⟩
  | foreign name hrest => exact .failed _ _
  | marked s hrest =>
    -- The one loop whose body matters, and only if its guard is not zero and there is room for it.
    simp only [act, hfull]
    split
    · exact .failed _ _
    · split
      · exact .next _ ⟨hrest, hframes, rfl⟩
      · split
        · exact .failed _ _
        · exact .entered none rfl (by simp [Done]) rfl

theorem advance_swapped (h : c.Swapped (.foreign kind .nil) b c') :
    Step.Swapped kind b (c.advance bound) (c'.advance bound) := by
  by_cases hdone : c.Done
  · rw [advance_of_done c hdone, advance_of_done c' (h.done_iff.1 hdone), h.machine_eq]
    exact .finished c.machine
  · rw [advance_eq c bound hdone, advance_eq c' bound (mt h.done_iff.2 hdone), h.machine_eq]
    cases c.machine.tick with
    | failed e m => exact .failed e m
    | done m => exact act_swapped (h.onMachine m)

/-- In front of an instruction that nothing can run there is one more step to count, which may be
one too many; nothing else can happen. -/
theorem agrees_of_foreign (hblock : c.block = .foreign kind .nil) (hnot : ¬ c'.Done)
    (hmachine : c'.machine = c.machine) {n : Nat}
    (hrun : (c.run bound n).error? ≠ some (.foreign kind)) :
    (c'.run bound n).Agrees id (c.run bound n) := by
  have hnot' : ¬ c.Done := by simp [Done, hblock]
  cases n with
  | zero =>
    rw [run_zero c hnot', run_zero c' hnot]
    exact Ending.agrees_unfinished hmachine
  | succ n =>
    rcases c.machine.tick_cases with ⟨l, -, -, htick⟩ | htick
    · -- The limit strikes here, whatever the instruction.
      have hfail : c.advance bound = .failed (.stepLimit l) c.machine.counted := by
        rw [advance_eq c bound hnot', htick]
      have hfail' : c'.advance bound = .failed (.stepLimit l) c.machine.counted := by
        rw [advance_eq c' bound hnot, hmachine, htick]
      rw [run_of_failed c hfail, run_of_failed c' hfail']
      exact Ending.agrees_failed id _ _
    · have hfail : c.advance bound = .failed (.foreign kind) c.machine.counted := by
        rw [advance_of_tick c hnot' htick]
        obtain ⟨block, frames, m⟩ := c
        obtain rfl : block = .foreign kind .nil := hblock
        rfl
      rw [run_of_failed c hfail] at hrun
      exact absurd rfl hrun

/-- A run that does not come to the swapped body of a loop does not depend on it. -/
theorem run_swapped {n : Nat} (h : c.Swapped (.foreign kind .nil) b c')
    (hrun : (c.run bound n).error? ≠ some (.foreign kind)) :
    (c'.run bound n).Agrees id (c.run bound n) := by
  induction n generalizing c c' with
  | zero =>
    by_cases hdone : c.Done
    · rw [run_of_done c hdone, run_of_done c' (h.done_iff.1 hdone), h.machine_eq]
      exact Ending.agrees_finished id c.machine
    · rw [run_zero c hdone, run_zero c' (mt h.done_iff.2 hdone)]
      exact Ending.agrees_unfinished h.machine_eq
  | succ n ih =>
    have hstep : Step.Swapped kind b (c.advance bound) (c'.advance bound) := advance_swapped h
    rw [run] at hrun
    rw [run, run]
    generalize c.advance bound = o, c'.advance bound = o' at hstep hrun ⊢
    -- Either the steps are alike, or the marked loop is entered and only its body is left.
    cases hstep with
    | finished m => exact Ending.agrees_finished id m
    | failed e m => exact Ending.agrees_failed id e m
    | next mark hnext => exact ih hnext hrun
    | entered mark hblock hnot hmachine => exact agrees_of_foreign hblock hnot hmachine hrun

end Config

/-! ## The marked loop -/

namespace Outline

/-- The body of a loop that is never entered has no influence. If a run does not fail at the
instruction that nothing can run when this is all that the marked loop holds, then with every body
in its place the run stands the same, whatever the tape, the input, the limit and the bound are: it
has ended or not, with the same error or with none, and it leaves the same machine. -/
theorem run_fill_of_unentered (bound : Option Nat) (o : Outline) (kind : String) (m : Machine)
    (n : Nat) (h : ((o.fill (.foreign kind .nil)).run bound n m).error? ≠ some (.foreign kind))
    (b : Program) :
    ((o.fill b).run bound n m).Agrees id ((o.fill (.foreign kind .nil)).run bound n m) :=
  Config.run_swapped ⟨o.swapped_fill (.foreign kind .nil) b, .nil, rfl⟩ h

/-- A loop that is met twice and skipped both times, in a loop that makes two turns; and the same
loop where its guard is not zero, but the limit strikes at the first step behind the guard. -/
theorem run_fill_of_unentered_two_turns :
    let o : Outline := .inside (.command .decrement none (.command .right none
      (.marked none (.command .left none .nil)))) none .nil
    let b : Program := .loop (.command .left none .nil) none (.foreign "Move" .nil)
    let m (v : Int) (limit : Int) : Machine := { tape := ⟨#[2, v], 0⟩, limit := some limit }
    let run (b : Program) (m : Machine) := (o.fill b).run (some 2) 20 m
    let halt : Program := .foreign "Halt" .nil
    (run halt (m 0 11)).error? ≠ some (.foreign "Halt") ∧
      (run b (m 0 11)).Agrees id (run halt (m 0 11)) ∧
      (run b (m 0 11)).machine.tape = ⟨#[0, 0], 0⟩ ∧
      (run halt (m 1 4)).error? ≠ some (.foreign "Halt") ∧
      (run b (m 1 4)).Agrees id (run halt (m 1 4)) ∧
      (run b (m 1 4)).error? = some (.stepLimit 4) := by
  intro o b m run halt
  have hskipped : (run halt (m 0 11)).error? ≠ some (.foreign "Halt") := by decide
  have hstruck : (run halt (m 1 4)).error? ≠ some (.foreign "Halt") := by decide
  have hagrees := run_fill_of_unentered (some 2) o "Halt" (m 0 11) 20 hskipped b
  have hagrees' := run_fill_of_unentered (some 2) o "Halt" (m 1 4) 20 hstruck b
  refine ⟨hskipped, hagrees, ?_, hstruck, hagrees', ?_⟩
  · rw [hagrees.machine_eq]
    decide
  · rw [hagrees'.error_eq]
    decide

end Outline

end TapeLang
