import Mathlib.Data.Nat.Find
import TapeLang.Proofs.Machine.Run

/-!
# The bound on entered loops

A bound on the number of loops that are entered at the same time only cuts a run short. It is looked
at when a loop is entered and nowhere else, so a skipped loop is free however deep it is, and loops
that are left again do not add up. This is about the idealised bound of `isFull`, which counts loops
and not the pending calls of a runtime.

* `Config.advance_some`: a step under a bound is the step without one, unless that step enters a
  loop too many (`Step.cut`).
* `Config.run_some_of_staysWithin` and `Config.run_some_of_lt`: so is a run, up to the first such
  step, and from there on it has failed.
* `Program.nesting_bound_cuts`: what becomes of a run under a bound.
-/

namespace TapeLang

/-- What is left of a step under a bound: it fails if it leads to more than `b` entered loops, and
then leaves behind the machine that it would have led to. -/
def Step.cut (b : Nat) : Step → Step
  | finished m => .finished m
  | next mark c => if b < c.frames.length then .failed .tooDeep c.machine else .next mark c
  | failed e m => .failed e m

theorem Step.cut_next_of_le {b : Nat} {c : Config} (h : c.frames.length ≤ b) (mark : Option Mark) :
    (Step.next mark c).cut b = .next mark c :=
  if_neg (Nat.not_lt.2 h)

theorem Step.cut_next_of_lt {b : Nat} {c : Config} (h : b < c.frames.length) (mark : Option Mark) :
    (Step.next mark c).cut b = .failed .tooDeep c.machine :=
  if_pos h

namespace Config

variable {bound : Option Nat} {b : Nat} {c c' : Config} {mark : Option Mark}

/-! ## Steps -/

/-- Only a step that enters a loop puts one more loop around what is left to do. -/
theorem enters_of_next (h : c.advance bound = .next mark c')
    (hlt : c.frames.length < c'.frames.length) :
    ∃ body s rest, c.block = .loop body s rest ∧
      c' = ⟨body, ⟨body, rest⟩ :: c.frames, c.machine.counted⟩ := by
  have hact := c.act_of_next h
  obtain ⟨block, frames, m⟩ := c
  cases block with
  | nil =>
    cases frames with
    | nil => cases hact
    | cons f outer =>
      -- The test behind a body leaves the loop or stays in it.
      simp only [onMachine, act] at hact
      split at hact
      · cases hact
      · split at hact
        · cases hact
          simp only [List.length_cons] at hlt
          omega
        · cases hact
          exact absurd hlt (Nat.lt_irrefl _)
  | command d s rest =>
    simp only [onMachine, act] at hact
    split at hact
    · cases hact
    · cases hact
      exact absurd hlt (Nat.lt_irrefl _)
  | loop body s rest =>
    simp only [onMachine, act] at hact
    split at hact
    · cases hact
    · split at hact
      · cases hact
        exact absurd hlt (Nat.lt_irrefl _)
      · split at hact
        · cases hact
        · cases hact
          exact ⟨body, s, rest, rfl, rfl⟩
  | foreign n rest => cases hact

/-- The action of a step under a bound is the action without one, cut at the bound. -/
theorem act_some (h : c.frames.length ≤ b) : c.act (some b) = (c.act none).cut b := by
  obtain ⟨block, frames, m⟩ := c
  simp only at h
  cases block with
  | nil =>
    cases frames with
    | nil => rfl
    | cons f outer =>
      simp only [act]
      split
      · rfl
      · split
        · rw [Step.cut_next_of_le (Nat.le_of_succ_le h)]
        · rw [Step.cut_next_of_le h]
  | command d s rest =>
    simp only [act]
    split
    · rfl
    · rw [Step.cut_next_of_le h]
  | loop body s rest =>
    have hroom : isFull none frames = false := rfl
    simp only [act, hroom, Bool.false_eq_true, if_false]
    split
    · rfl
    · split
      · rw [Step.cut_next_of_le h]
      -- The loop is entered, and with it one more is entered than there were.
      · by_cases hfull : b ≤ frames.length
        · have hbound : isFull (some b) frames = true := decide_eq_true hfull
          rw [if_pos hbound, Step.cut_next_of_lt (Nat.lt_succ_of_le hfull)]
        · have hbound : ¬ isFull (some b) frames = true := by simpa [isFull] using hfull
          rw [if_neg hbound, Step.cut_next_of_le (Nat.succ_le_of_lt (Nat.not_le.1 hfull))]
  | foreign n rest => rfl

/-- A step under a bound is the step without one, cut at the bound. -/
theorem advance_some (h : c.frames.length ≤ b) : c.advance (some b) = (c.advance none).cut b := by
  by_cases hdone : c.Done
  · rw [advance_of_done c hdone, advance_of_done c hdone, Step.cut]
  · rw [advance_eq c (some b) hdone, advance_eq c none hdone]
    cases c.machine.tick with
    | failed e m => rfl
    | done m => exact act_some (c := c.onMachine m) h

/-! ## Runs -/

/-- Without a bound, no more than `b` loops are entered at the same time during the first `n` steps.
-/
def StaysWithin (b n : Nat) (c : Config) : Prop :=
  ∀ k ≤ n, ∀ c', c.run none k = .unfinished c' → c'.frames.length ≤ b

theorem staysWithin_zero (h : c.frames.length ≤ b) : c.StaysWithin b 0 := by
  intro k hk c' hrun
  obtain rfl : k = 0 := Nat.le_zero.1 hk
  by_cases hdone : c.Done
  · rw [run_of_done c hdone] at hrun
    cases hrun
  · rw [run_zero c hdone, Ending.unfinished.injEq] at hrun
    exact hrun ▸ h

theorem StaysWithin.of_next {n : Nat} (h : c.StaysWithin b (n + 1))
    (hstep : c.advance none = .next mark c') : c'.StaysWithin b n := by
  intro k hk c'' hrun
  refine h (k + 1) (Nat.succ_le_succ hk) c'' ?_
  rw [run_of_next c hstep, hrun]

/-- A run that stays within the bound stands within it: if the program has ended, all its loops have
been left. -/
theorem StaysWithin.length_le {n : Nat} (h : c.StaysWithin b n) : c.frames.length ≤ b := by
  by_cases hdone : c.Done
  · rw [hdone.2]
    exact Nat.zero_le b
  · exact h 0 (Nat.zero_le n) c (run_zero c hdone)

/-- As long as it stays within a bound, a run goes the same way under this bound as without one. -/
theorem run_some_of_staysWithin {n : Nat} (h : c.StaysWithin b n) :
    c.run (some b) n = c.run none n := by
  induction n generalizing c with
  | zero =>
    by_cases hdone : c.Done
    · rw [run_of_done c hdone, run_of_done c hdone]
    · rw [run_zero c hdone, run_zero c hdone]
  | succ n ih =>
    -- The configuration itself is within the bound, so its step is the same.
    have hstep := advance_some h.length_le
    cases hnext : c.advance none with
    | finished m =>
      obtain ⟨hdone, -⟩ := (advance_eq_finished_iff c).1 hnext
      rw [run_of_done c hdone, run_of_done c hdone]
    | failed e m =>
      rw [hnext] at hstep
      rw [run_of_failed c hnext, run_of_failed c hstep]
    | next mark c' =>
      have hrest := h.of_next hnext
      rw [hnext, Step.cut_next_of_le hrest.length_le] at hstep
      rw [run_of_next c hnext, run_of_next c hstep, ih hrest]

/-- A run under a bound fails at the first step that leads out of it. -/
theorem run_some_of_lt {n k : Nat} {c₁ : Config} (h : c.StaysWithin b k)
    (hrun : c.run none k = .unfinished c₁) (hnext : c₁.advance none = .next mark c')
    (hdeep : b < c'.frames.length) (hn : k < n) :
    c.run (some b) n = .failed .tooDeep c'.machine := by
  obtain ⟨d, rfl⟩ := Nat.exists_eq_add_of_lt hn
  have hstep := advance_some (h k (Nat.le_refl k) c₁ hrun)
  rw [hnext, Step.cut_next_of_lt hdeep] at hstep
  rw [Nat.add_assoc, run_add, run_some_of_staysWithin h, hrun]
  exact run_of_failed c₁ hstep d

/-- A run that does not stay within a bound has a first step that leads out of it: with `b` loops
entered it enters one more. -/
theorem exists_first_entry (hc : c.frames.length ≤ b) (h : ∃ n, ¬ c.StaysWithin b n) :
    ∃ k c₁ body s rest, c.StaysWithin b k ∧ c.run none k = .unfinished c₁ ∧
      c₁.frames.length = b ∧ c₁.block = .loop body s rest ∧
      ∃ mark, c₁.advance none =
        .next mark ⟨body, ⟨body, rest⟩ :: c₁.frames, c₁.machine.counted⟩ := by
  classical
  -- The least number of steps that leads out of the bound is not zero.
  obtain ⟨k, hk⟩ : ∃ k, Nat.find h = k + 1 := by
    refine Nat.exists_eq_succ_of_ne_zero fun hzero => ?_
    have hout := Nat.find_spec h
    rw [hzero] at hout
    exact hout (staysWithin_zero hc)
  have hbefore : c.StaysWithin b k := by
    by_contra hout
    exact Nat.find_min h (hk ▸ Nat.lt_succ_self k) hout
  obtain ⟨c', hrun, hdeep⟩ : ∃ c', c.run none (k + 1) = .unfinished c' ∧ b < c'.frames.length := by
    by_contra hnone
    refine hk ▸ Nat.find_spec h <| fun j hj c' hrun => ?_
    rcases Nat.le_succ_iff.1 hj with hj | rfl
    · exact hbefore j hj c' hrun
    · exact Nat.not_lt.1 fun hlt => hnone ⟨c', hrun, hlt⟩
  obtain ⟨c₁, mark, hrun₁, hstep⟩ := exists_step_of_unfinished hrun
  have hle := hbefore k (Nat.le_refl k) c₁ hrun₁
  obtain ⟨body, s, rest, hblock, rfl⟩ := enters_of_next hstep (Nat.lt_of_le_of_lt hle hdeep)
  exact ⟨k, c₁, body, s, rest, hbefore, hrun₁, Nat.le_antisymm hle (Nat.le_of_lt_succ hdeep),
    hblock,
    mark, hstep⟩

end Config

namespace Program

/-- A bound on entered loops only cuts a run short. As long as a run without a bound has no more
than `b` loops entered at the same time, the run under the bound goes the same way, to whatever end
or error. If there are ever more, there is a first step at which a loop is entered inside of `b`
others. There the run under the bound fails as too deep, and it leaves behind the very machine on
which the run without a bound goes on inside of this loop. -/
theorem nesting_bound_cuts (b : Nat) (p : Program) (m : Machine) :
    (∀ n, Config.StaysWithin b n ⟨p, [], m⟩ → p.run (some b) n m = p.run none n m) ∧
    ((∃ n, ¬ Config.StaysWithin b n ⟨p, [], m⟩) →
      ∃ k c body s rest m',
        Config.StaysWithin b k ⟨p, [], m⟩ ∧
        p.run none k m = .unfinished c ∧ c.frames.length = b ∧ c.block = .loop body s rest ∧
        p.run none (k + 1) m = .unfinished ⟨body, ⟨body, rest⟩ :: c.frames, m'⟩ ∧
        ∀ n, k < n → p.run (some b) n m = .failed .tooDeep m') ∧
    RunError.tooDeep.failure? =
      some (.nestingTooDeep (.text ['e', 'x', 'e', 'c', 'u', 't', 'e'])) := by
  refine ⟨fun n h => Config.run_some_of_staysWithin h, fun h => ?_, rfl⟩
  obtain ⟨k, c, body, s, rest, hwithin, hrun, hlength, hblock, mark, hstep⟩ :=
    Config.exists_first_entry (Nat.zero_le b) h
  refine ⟨k, c, body, s, rest, c.machine.counted, hwithin, hrun, hlength, hblock, ?_,
    fun n hn => ?_⟩
  · -- Inside of a loop the program has not ended, so the run stands there.
    rw [show p.run none (k + 1) m = _ from Config.run_succ_of_unfinished hrun hstep]
    exact Config.run_zero _ fun hdone => by cases hdone.2
  · refine Config.run_some_of_lt hwithin hrun hstep ?_ hn
    exact Nat.lt_succ_of_le (Nat.le_of_eq hlength.symm)

/-- Two nested loops behind a `.`, under a bound of one: on a cell that is not zero the outer loop
is entered, and the inner one is one too many. On a cell that is zero both are skipped, and even a
bound of zero changes nothing. -/
theorem nesting_bound_cuts_two_loops :
    let p : Program := .command .output none
      (.loop (.loop (.command .decrement none .nil) none .nil) none .nil)
    let m : Machine := { tape := ⟨#[65], 0⟩ }
    let m₀ : Machine := { tape := ⟨#[0], 0⟩ }
    (∃ n, ¬ Config.StaysWithin 1 n ⟨p, [], m⟩) ∧
      (∃ k m', ∀ n, k < n → p.run (some 1) n m = .failed .tooDeep m') ∧
      (p.run (some 1) 3 m).machine.output = ['A'] ∧
      Config.StaysWithin 0 1 ⟨p, [], m₀⟩ ∧ p.run (some 0) 1 m₀ = p.run none 1 m₀ := by
  intro p m m₀
  have hdeep : ¬ Config.StaysWithin 1 3 ⟨p, [], m⟩ := fun h =>
    absurd (h 3 (Nat.le_refl 3) _ rfl) (by decide)
  have hflat : Config.StaysWithin 0 1 ⟨p, [], m₀⟩ := by
    intro k hk c hrun
    match k with
    | 0 | 1 =>
      cases hrun
      decide
  obtain ⟨k, -, -, -, -, m', -, -, -, -, -, hfail⟩ := (nesting_bound_cuts 1 p m).2.1 ⟨3, hdeep⟩
  exact ⟨⟨3, hdeep⟩, ⟨k, m', hfail⟩, by decide, hflat, (nesting_bound_cuts 0 p m₀).1 1 hflat⟩

end Program

end TapeLang
