import Mathlib.Order.Bounds.Defs
import TapeLang.Proofs.Error
import TapeLang.Proofs.Machine.Run

/-!
# Step limits

A limit on the number of steps only cuts a run short. Up to the last step that it allows, a run
goes the same way as without a limit (`Config.run_withLimit_of_le`). If it has not ended by then,
its next step fails (`Config.run_withLimit_of_lt`).

* `Program.limit_cuts_short`: what becomes of a run under each limit.

The error of a run that is cut off names the limit, and any integer can be one. If it has more
digits than can be written, a caller does not see that the limit has struck, but a complaint about
the digits (`Program.unwritable_limit`).
-/

namespace TapeLang

/-! ## Setting a limit -/

/-- The machine with another limit. -/
def Machine.withLimit (m : Machine) (limit : Option Int) : Machine :=
  { m with limit }

/-- The configuration with another limit. -/
def Config.withLimit (c : Config) (limit : Option Int) : Config :=
  c.onMachine (c.machine.withLimit limit)

/-- The ending with another limit. -/
def Ending.withLimit (o : Ending) (limit : Option Int) : Ending :=
  o.map (fun c => c.withLimit limit) fun m => m.withLimit limit

theorem Ending.error?_withLimit (o : Ending) (limit : Option Int) :
    (o.withLimit limit).error? = o.error? := by
  cases o <;> rfl

/-! ## Errors other than the limit -/

/-- No fault of the pointer is a fault of the limit. -/
theorem Tape.cause_ne_stepLimit (t : Tape) {e : RunError} {l : Int} (he : e ≠ .stepLimit l) :
    t.cause e ≠ .stepLimit l := by
  unfold cause
  split
  · exact he
  · simp

/-- No command fails because of a limit. -/
theorem Machine.perform_ne_stepLimit {m m' : Machine} {d : Command} {e : RunError} {l : Int}
    (h : m.perform d = .failed e m') : e ≠ .stepLimit l := by
  have hread := m.tape.cause_ne_stepLimit (e := .unreadable) (l := l) (by simp)
  -- A command fails for a missing cell, at an edge or at a cell that is no character.
  cases d with
  | increment | decrement =>
    simp only [perform, update] at h
    split at h
    · cases h
      exact hread
    · cases h
  | right | left =>
    simp only [perform, move, Tape.move] at h
    split at h
    · cases h
    · next hmove =>
      split at hmove
      · cases hmove
      · cases hmove
        cases h
        simp
  | output =>
    simp only [perform, write] at h
    split at h
    · cases h
      exact hread
    · split at h
      · cases h
      · cases h
        simp
  | input =>
    simp only [perform, read, assign] at h
    split at h
    · cases h
      exact Tape.cause_ne_stepLimit _ (by simp)
    · cases h

namespace Config

variable {bound : Option Nat} (c : Config)

/-- Once a step has been counted, it does not fail because of a limit. -/
theorem act_ne_stepLimit {e : RunError} {m : Machine} {l : Int}
    (h : c.act bound = .failed e m) : e ≠ .stepLimit l := by
  obtain ⟨block, frames, m'⟩ := c
  have hread := m'.tape.cause_ne_stepLimit (e := .unreadable) (l := l) (by simp)
  cases block with
  | nil =>
    cases frames with
    | nil => cases h
    | cons f outer =>
      simp only [act] at h
      split at h
      · cases h
        exact hread
      · split at h <;> cases h
  | command d s rest =>
    simp only [act] at h
    split at h
    · next hperform =>
      cases h
      exact Machine.perform_ne_stepLimit hperform
    · cases h
  | loop b s rest =>
    simp only [act] at h
    split at h
    · cases h
      exact hread
    · split at h
      · cases h
      · split at h
        · cases h
          simp
        · cases h
  | foreign n rest =>
    cases h
    simp

/-- A run without a limit does not fail because of one. -/
theorem error_ne_stepLimit (hlimit : c.machine.limit = none) (n : Nat) (l : Int) :
    (c.run bound n).error? ≠ some (.stepLimit l) := by
  induction n generalizing c with
  | zero =>
    by_cases h : c.Done
    · simp [run_of_done c h, Ending.error?]
    · simp [run_zero c h, Ending.error?]
  | succ n ih =>
    by_cases h : c.Done
    · simp [run_of_done c h, Ending.error?]
    · -- Without a limit no step is forbidden, so it is only the action that can fail.
      have hact : c.advance bound = (c.onMachine c.machine.counted).act bound := by
        rcases c.advance_cases bound h with ⟨l', hl', -⟩ | hact
        · rw [hlimit] at hl'
          cases hl'
        · exact hact
      cases hstep : c.advance bound with
      | finished m => simp [run, hstep, Ending.error?]
      | failed e m =>
        rw [run_of_failed c hstep, Ending.error?, Ne, Option.some.injEq]
        rw [hact] at hstep
        exact act_ne_stepLimit _ hstep
      | next mark c' =>
        rw [run_of_next c hstep]
        exact ih c' ((counter_of_next c hstep).2.trans hlimit)

/-! ## Below the limit -/

/-- Once a step has been counted, the limit does not matter any more. -/
theorem act_withLimit (limit : Option Int) :
    (c.withLimit limit).act bound =
      (c.act bound).map (fun c => c.withLimit limit) fun m => m.withLimit limit := by
  -- The action keeps the counter, so setting it along with the limit does no harm.
  have h := c.act_withCounter bound c.machine.steps limit
  rw [show c.withCounter c.machine.steps limit = c.withLimit limit from rfl] at h
  have hsteps := (c.act_counter bound).1
  rw [h, ← hsteps]
  cases c.act bound <;> rfl

/-- A step that the limit allows goes the same way as without a limit. -/
theorem advance_withLimit (bound : Option Nat) (hlimit : c.machine.limit = none) {l : Int}
    (h : ¬ c.Done → (c.machine.steps : Int) + 1 ≤ l) :
    (c.withLimit (some l)).advance bound =
      (c.advance bound).map (fun c => c.withLimit (some l)) fun m => m.withLimit (some l) := by
  by_cases hdone : c.Done
  · rw [advance_of_done c hdone, advance_of_done (c.withLimit (some l)) hdone]
    rfl
  · have hbelow : ∀ l', (c.withLimit (some l)).machine.limit = some l' →
        ((c.withLimit (some l)).machine.steps : Int) + 1 ≤ l' := by
      intro l' hl'
      cases hl'
      exact h hdone
    rw [advance_eq c bound hdone, advance_eq (c.withLimit (some l)) bound hdone,
      Machine.tick_eq_done _ hbelow, c.machine.tick_of_unlimited hlimit]
    exact (c.onMachine c.machine.counted).act_withLimit (some l)

/-- As long as the limit allows, a run goes the same way as without a limit. -/
theorem run_withLimit_of_le (bound : Option Nat) (hlimit : c.machine.limit = none) {l : Int}
    {n : Nat} (hn : n ≤ (l - c.machine.steps).toNat) :
    (c.withLimit (some l)).run bound n = (c.run bound n).withLimit (some l) := by
  induction n generalizing c with
  | zero =>
    by_cases h : c.Done
    · rw [run_of_done c h, run_of_done (c.withLimit (some l)) h]
      rfl
    · rw [run_zero c h, run_zero (c.withLimit (some l)) h]
      rfl
  | succ n ih =>
    have hstep := c.advance_withLimit bound hlimit (l := l) (by omega)
    cases hc : c.advance bound with
    | finished m =>
      obtain ⟨hdone, -⟩ := (advance_eq_finished_iff c).1 hc
      rw [run_of_done c hdone, run_of_done (c.withLimit (some l)) hdone]
      rfl
    | failed e m =>
      rw [hc] at hstep
      rw [run_of_failed c hc, run_of_failed (c.withLimit (some l)) hstep]
      rfl
    | next mark c' =>
      -- The step has used up one of those that the limit allows.
      obtain ⟨hsteps, hlimit'⟩ := counter_of_next c hc
      rw [hc] at hstep
      rw [run_of_next c hc, run_of_next (c.withLimit (some l)) hstep]
      exact ih c' (hlimit'.trans hlimit) (by omega)

/-! ## Past the limit -/

/-- A run that the limit has cut off or that has ended before. -/
theorem run_withLimit_of_lt (hlimit : c.machine.limit = none) {l : Int} {n : Nat}
    (hn : (l - c.machine.steps).toNat < n) :
    (c.withLimit (some l)).run bound n =
      match c.run bound (l - c.machine.steps).toNat with
      | .unfinished c' =>
        .failed (.stepLimit l)
          (c'.machine.withCounter ((max l c.machine.steps).toNat + 1) (some l))
      | o => o.withLimit (some l) := by
  -- Run as far as the limit allows, and then on.
  obtain ⟨d, rfl⟩ := Nat.exists_eq_add_of_lt hn
  have hle := c.run_withLimit_of_le bound hlimit (Nat.le_refl (l - c.machine.steps).toNat)
  rw [Nat.add_assoc, run_add, hle]
  cases ho : c.run bound (l - c.machine.steps).toNat with
  | finished m => rfl
  | failed e m => rfl
  | unfinished c' =>
    have hdone := c.not_done_of_unfinished ho
    obtain ⟨hsteps, -⟩ := c.counter_of_unfinished ho
    -- All the steps that the limit allows have been counted, so the next one is one too many.
    have hover : l < ((c'.withLimit (some l)).machine.steps : Int) + 1 := by
      change l < (c'.machine.steps : Int) + 1
      omega
    have hfail := (c'.withLimit (some l)).advance_eq bound hdone
    rw [Machine.tick_eq_failed _ rfl hover] at hfail
    have hcount : c'.machine.steps + 1 = (max l c.machine.steps).toNat + 1 := by omega
    refine (run_of_failed _ hfail d).trans ?_
    rw [← hcount]
    rfl

/-- Every run under a limit ends. -/
theorem ended_withLimit (hlimit : c.machine.limit = none) {l : Int} {n : Nat}
    (hn : (l - c.machine.steps).toNat < n) : ((c.withLimit (some l)).run bound n).Ended := by
  rw [run_withLimit_of_lt c hlimit hn]
  cases c.run bound (l - c.machine.steps).toNat <;> trivial

/-- A run that the limit has ended has written what the run without a limit had written by then. -/
theorem output_withLimit (hlimit : c.machine.limit = none) {l : Int} {n : Nat}
    (hn : ((c.withLimit (some l)).run bound n).Ended) :
    ((c.withLimit (some l)).run bound n).machine.output =
      (c.run bound (l - c.machine.steps).toNat).machine.output := by
  -- It does not matter when the run is looked at, so look at it past the limit.
  have hlater := run_of_ended (c.withLimit (some l)) hn
    (Nat.le_add_right n ((l - c.machine.steps).toNat + 1))
  rw [← hlater, run_withLimit_of_lt c hlimit (by omega)]
  cases c.run bound (l - c.machine.steps).toNat <;> rfl

/-- A higher limit only lets a run write more. -/
theorem output_withLimit_mono (hlimit : c.machine.limit = none) {l l' : Int} (hl : l ≤ l')
    {n n' : Nat} (hn : ((c.withLimit (some l)).run bound n).Ended)
    (hn' : ((c.withLimit (some l')).run bound n').Ended) :
    ((c.withLimit (some l)).run bound n).machine.output <+:
      ((c.withLimit (some l')).run bound n').machine.output := by
  rw [output_withLimit c hlimit hn, output_withLimit c hlimit hn']
  exact c.output_run_mono bound (by omega)

/-! ## The number of steps -/

/-- The run ends, with an error or without, after this number of counted steps. -/
def EndsAfter (bound : Option Nat) (c : Config) (n : Nat) : Prop :=
  ∃ fuel, (c.run bound fuel).Ended ∧ (c.run bound fuel).machine.steps = c.machine.steps + n

/-- A run that ends after some number of steps has ended once it was given as many. -/
theorem EndsAfter.ended {c : Config} {n : Nat} (h : c.EndsAfter bound n) :
    (c.run bound n).Ended := by
  obtain ⟨fuel, hended, hsteps⟩ := h
  rcases Nat.le_total fuel n with hle | hle
  · rwa [run_of_ended c hended hle]
  · obtain ⟨d, rfl⟩ := Nat.exists_eq_add_of_le hle
    cases ho : c.run bound n with
    | finished m => trivial
    | failed e m => trivial
    | unfinished c' =>
      have hdone := c.not_done_of_unfinished ho
      obtain ⟨hcount, -⟩ := c.counter_of_unfinished ho
      rw [run_add, ho] at hsteps hended
      cases d with
      | zero =>
        simp only [run_zero c' hdone, Ending.Ended] at hended
      | succ d =>
        -- One more step than the run has would have been counted.
        have hmore := c'.steps_lt_run bound hdone d
        dsimp only at hsteps
        omega

/-- A run that ends after some number of steps has not ended before. -/
theorem EndsAfter.not_ended {c : Config} {n k : Nat} (h : c.EndsAfter bound n) (hk : k < n) :
    ¬ (c.run bound k).Ended := by
  intro hended
  obtain ⟨fuel, hfuel, hsteps⟩ := h
  -- Both runs have ended, so they are the same, but the shorter one cannot have counted so far.
  have hlater := run_of_ended c hended (Nat.le_add_left k fuel)
  rw [run_of_ended c hfuel (Nat.le_add_right fuel k)] at hlater
  have hle := c.steps_run_le bound k
  rw [← hlater] at hle
  omega

/-- A run that never ends has not ended after any number of steps. -/
theorem not_ended_of_endless {c : Config} (h : ∀ n, ¬ c.EndsAfter bound n) (k : Nat) :
    ¬ (c.run bound k).Ended := by
  intro hended
  have hle := c.steps_le_run bound k
  exact h _ ⟨k, hended, (Nat.add_sub_of_le hle).symm⟩

/-- Under this limit the run fails at the first step that the limit forbids, and leaves everything
but the counter as it was before that step. -/
def CutOff (bound : Option Nat) (c : Config) (l : Int) : Prop :=
  ∃ c', c.run bound (l - c.machine.steps).toNat = .unfinished c' ∧
    ∀ fuel, (l - c.machine.steps).toNat < fuel →
      (c.withLimit (some l)).run bound fuel =
        .failed (.stepLimit l)
          (c'.machine.withCounter ((max l c.machine.steps).toNat + 1) (some l))

/-- Under this limit the run does not fail because of the limit. -/
def Survives (bound : Option Nat) (c : Config) (l : Int) : Prop :=
  ∀ fuel, ((c.withLimit (some l)).run bound fuel).error? ≠ some (.stepLimit l)

variable {c}

/-- A limit that allows all the steps of a run changes nothing. -/
theorem EndsAfter.run_withLimit {n : Nat} (h : c.EndsAfter bound n)
    (hlimit : c.machine.limit = none) {l : Int} (hl : n = 0 ∨ c.machine.steps + n ≤ l)
    (fuel : Nat) :
    (c.withLimit (some l)).run bound fuel = (c.run bound fuel).withLimit (some l) := by
  by_cases hfuel : fuel ≤ (l - c.machine.steps).toNat
  · exact run_withLimit_of_le c bound hlimit hfuel
  -- Past the limit the run has ended before the limit was reached, and stays as it was.
  · have hended : (c.run bound (l - c.machine.steps).toNat).Ended := by
      rw [run_of_ended c h.ended (show n ≤ (l - c.machine.steps).toNat by omega)]
      exact h.ended
    rw [run_withLimit_of_lt c hlimit (Nat.lt_of_not_le hfuel),
      run_of_ended c hended (Nat.le_of_not_le hfuel)]
    cases ho : c.run bound (l - c.machine.steps).toNat with
    | finished m => rfl
    | failed e m => rfl
    | unfinished c' =>
      rw [ho] at hended
      exact hended.elim

/-- A run that has not ended when the limit is reached is cut off. -/
theorem cutOff_of_not_ended (hlimit : c.machine.limit = none) {l : Int}
    (h : ¬ (c.run bound (l - c.machine.steps).toNat).Ended) : c.CutOff bound l := by
  cases ho : c.run bound (l - c.machine.steps).toNat with
  | finished m =>
    rw [ho] at h
    exact absurd trivial h
  | failed e m =>
    rw [ho] at h
    exact absurd trivial h
  | unfinished c' =>
    refine ⟨c', ho, fun fuel hfuel => ?_⟩
    rw [run_withLimit_of_lt c hlimit hfuel, ho]

/-- A limit that forbids a step of a run cuts it off. -/
theorem EndsAfter.cutOff {n : Nat} (h : c.EndsAfter bound n) (hlimit : c.machine.limit = none)
    {l : Int} (hl : ¬ (n = 0 ∨ c.machine.steps + n ≤ l)) : c.CutOff bound l :=
  cutOff_of_not_ended hlimit (h.not_ended (by omega))

/-- A run does not survive a limit that cuts it off. -/
theorem CutOff.not_survives {l : Int} (h : c.CutOff bound l) : ¬ c.Survives bound l := by
  obtain ⟨c', -, hfail⟩ := h
  intro hsurvives
  have hnot := hsurvives ((l - c.machine.steps).toNat + 1)
  rw [hfail _ (Nat.lt_succ_self _)] at hnot
  exact hnot rfl

/-- The least limit that a run from the counter zero survives is its number of steps. -/
theorem EndsAfter.isLeast {n : Nat} (h : c.EndsAfter bound n) (hlimit : c.machine.limit = none)
    (hsteps : c.machine.steps = 0) : IsLeast {l : Nat | c.Survives bound l} n := by
  constructor
  · intro fuel
    rw [h.run_withLimit hlimit (by omega), Ending.error?_withLimit]
    exact error_ne_stepLimit c hlimit fuel n
  · intro l hsurvives
    by_contra hl
    exact (h.cutOff hlimit (by omega)).not_survives hsurvives

end Config

namespace Program

/-- A step limit only cuts a run short. If the run without a limit ends after `n` steps, then a
limit that allows them changes nothing, and any other cuts the run off, as every limit does if the
run never ends. So a higher limit only adds to the output, and the number of steps is the least
limit that a run from the counter zero survives. Of a run that is cut off a caller sees that the
limit is exceeded, with this limit, just if it has no more digits than can be written. -/
theorem limit_cuts_short (bound : Option Nat) (p : Program) (m : Machine) :
    (∀ n, Config.EndsAfter bound ⟨p, [], m.withLimit none⟩ n →
      (∀ l : Int, n = 0 ∨ m.steps + n ≤ l → ∀ fuel,
        p.run bound fuel (m.withLimit (some l)) =
          (p.run bound fuel (m.withLimit none)).withLimit (some l)) ∧
      (∀ l : Int, ¬ (n = 0 ∨ m.steps + n ≤ l) →
        Config.CutOff bound ⟨p, [], m.withLimit none⟩ l) ∧
      (m.steps = 0 → IsLeast {l : Nat | Config.Survives bound ⟨p, [], m.withLimit none⟩ l} n)) ∧
    ((∀ n, ¬ Config.EndsAfter bound ⟨p, [], m.withLimit none⟩ n) →
      ∀ l : Int, Config.CutOff bound ⟨p, [], m.withLimit none⟩ l) ∧
    (∀ l : Int, ∃ fuel, (p.run bound fuel (m.withLimit (some l))).Ended) ∧
    (∀ l l' : Int, l ≤ l' → ∀ fuel fuel',
      (p.run bound fuel (m.withLimit (some l))).Ended →
      (p.run bound fuel' (m.withLimit (some l'))).Ended →
      (p.run bound fuel (m.withLimit (some l))).machine.output <+:
        (p.run bound fuel' (m.withLimit (some l'))).machine.output) ∧
    ∀ l : Int, (RunError.stepLimit l).ShowsIff (.stepLimitExceeded (.int l))
      (l.natAbs < 10 ^ Text.maxDigits) := by
  refine ⟨fun n h => ⟨fun l hl fuel => ?_, fun l hl => ?_, fun hsteps => ?_⟩, fun h l => ?_,
    fun l => ?_, fun l l' hl fuel fuel' hended hended' => ?_, RunError.stepLimit_showsIff⟩
  · exact h.run_withLimit rfl hl fuel
  · exact h.cutOff rfl hl
  · exact h.isLeast rfl hsteps
  · exact Config.cutOff_of_not_ended rfl (Config.not_ended_of_endless h _)
  · exact ⟨_, Config.ended_withLimit ⟨p, [], m.withLimit none⟩ rfl (Nat.lt_succ_self _)⟩
  · exact Config.output_withLimit_mono ⟨p, [], m.withLimit none⟩ rfl hl hended hended'

/-- Counting down from two takes five steps, no less than five allow it, and a limit below zero
forbids its first step, which a caller sees. -/
theorem limit_cuts_short_countdown :
    let p : Program := .loop (.command .decrement none .nil) none .nil
    let m : Machine := { tape := ⟨#[2], 0⟩ }
    IsLeast {l : Nat | Config.Survives none ⟨p, [], m⟩ l} 5 ∧
      Config.CutOff none ⟨p, [], m⟩ (-1) ∧
      (RunError.stepLimit (-1)).failure? = some (.stepLimitExceeded (.int (-1))) := by
  intro p m
  have h : Config.EndsAfter none ⟨p, [], m⟩ 5 := ⟨5, by decide, by decide⟩
  obtain ⟨hends, -, -, -, hshows⟩ := limit_cuts_short none p m
  obtain ⟨-, hcut, hleast⟩ := hends 5 h
  have hdigits : (-1 : Int).natAbs < 10 ^ Text.maxDigits := Nat.one_lt_pow (by decide) (by decide)
  exact ⟨hleast rfl, hcut (-1) (by decide), ((hshows (-1)).shown hdigits).1⟩

/-- A run that the limit does not allow a single step fails at once. It counts this step, and
changes nothing else. -/
theorem run_at_limit {bound : Option Nat} {p : Program} {m : Machine} (hp : p ≠ .nil) {l : Int}
    (hlimit : m.limit = some l) (hl : l ≤ m.steps) (n : Nat) :
    p.run bound (n + 1) m = .failed (.stepLimit l) { m with steps := m.steps + 1 } := by
  have hdone : ¬ (⟨p, [], m⟩ : Config).Done := fun hdone => hp hdone.1
  refine Config.run_of_failed ⟨p, [], m⟩ ?_ n
  rw [Config.advance_eq _ bound hdone, m.tick_eq_failed hlimit (Int.lt_add_one_iff.2 hl)]
  rfl

/-- A limit of too many digits forbids a step like any other one below zero, but a caller does not
see that the limit has been exceeded. -/
theorem unwritable_limit :
    let p : Program := .ofCommands [.increment]
    let m : Machine := { tape := ⟨#[0], 0⟩ }
    let l : Int := -10 ^ Text.maxDigits
    Config.EndsAfter none ⟨p, [], m⟩ 1 ∧ ¬ (1 = 0 ∨ (m.steps : Int) + 1 ≤ l) ∧
      p.run none 1 (m.withLimit (some l)) =
        .failed (.stepLimit l) { m.withLimit (some l) with steps := 1 } ∧
      (RunError.stepLimit l).failure? = none ∧ (RunError.stepLimit l).errorClass = .value := by
  intro p m l
  obtain ⟨hneg, hdigits⟩ : l < 0 ∧ ¬ l.natAbs < 10 ^ Text.maxDigits := Text.neg_pow_unwritable
  -- What else the limit is does not matter, and is not to be computed.
  clear_value l
  obtain ⟨hnone, hclass, -⟩ := (RunError.stepLimit_showsIff l).hidden hdigits
  have hbelow : ¬ ((m.steps : Int) + 1 ≤ l) := by
    show ¬ ((0 : Int) + 1 ≤ l)
    omega
  exact ⟨⟨1, by decide, by decide⟩, fun h => h.elim (by decide) hbelow,
    run_at_limit (m := m.withLimit (some l)) (by simp [p, ofCommands]) rfl (Int.le_of_lt hneg) 0,
    hnone, hclass⟩

end Program

end TapeLang
