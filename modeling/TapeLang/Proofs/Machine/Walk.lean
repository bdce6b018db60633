import TapeLang.Proofs.Machine.Leads
import TapeLang.Proofs.Machine.Limit

/-!
# Walking the tree

What a program does, read off its tree: a block does its instructions one after the other, and a
loop walks its body as long as the guard says so. `Walks` states this without configurations, frames
or fuel. A loop whose body does nothing may walk for ever, but under a step limit every walk comes
to its end, because the test behind each turn of a loop is counted.

* `Walks.comesTo`: the steps of a run do what a walk says.
* `exists_walks`: under a limit there is a walk, by induction on the steps that are left and, where
  as many are left, for blocks before turns.
* `Program.ends_under_limit`: so under a limit every run ends, within a known number of steps.
-/

namespace TapeLang

/-- What there is to walk. -/
inductive Task
  /-- The instructions of a block. -/
  | block (p : Program)
  /-- The turns of a loop with this body, beginning with the test of its guard. -/
  | turns (body : Program)

/-- `Walks bound k t m o`: with `k` loops entered around it, the task takes the machine to this
effect. -/
inductive Walks (bound : Option Nat) : Nat → Task → Machine → Effect → Prop
  /-- Nothing is left in the block. -/
  | nil {k m} : Walks bound k (.block .nil) m (.done m)
  /-- The limit forbids the next instruction. -/
  | forbidden {k p m e m'} : p ≠ .nil → m.tick = .failed e m' →
      Walks bound k (.block p) m (.failed e m')
  /-- A command is performed. -/
  | command {k d s rest m m₁ m₂ o} : m.tick = .done m₁ → m₁.perform d = .done m₂ →
      Walks bound k (.block rest) m₂ o → Walks bound k (.block (.command d s rest)) m o
  /-- A command fails. -/
  | commandFailed {k d s rest m m₁ e m₂} : m.tick = .done m₁ → m₁.perform d = .failed e m₂ →
      Walks bound k (.block (.command d s rest)) m (.failed e m₂)
  /-- A foreign instruction is met. -/
  | foreign {k name rest m m₁} : m.tick = .done m₁ →
      Walks bound k (.block (.foreign name rest)) m (.failed (.foreign name) m₁)
  /-- A loop has made its turns. -/
  | loop {k b s rest m m₁ m₂ o} : m.tick = .done m₁ → Walks bound k (.turns b) m₁ (.done m₂) →
      Walks bound k (.block rest) m₂ o → Walks bound k (.block (.loop b s rest)) m o
  /-- A loop fails at one of its turns. -/
  | loopFailed {k b s rest m m₁ e m₂} : m.tick = .done m₁ →
      Walks bound k (.turns b) m₁ (.failed e m₂) →
      Walks bound k (.block (.loop b s rest)) m (.failed e m₂)
  /-- The guard cannot be tested. -/
  | unreadable {k b m} : m.tape.current? = none →
      Walks bound k (.turns b) m (.failed (m.tape.cause .unreadable) m)
  /-- The guard is zero. -/
  | guardZero {k b m} : m.tape.current? = some 0 → Walks bound k (.turns b) m (.done m)
  /-- The body is to be entered, and this is one loop too many. -/
  | tooDeep {k b m v n} : m.tape.current? = some v → v ≠ 0 → bound = some n → n ≤ k →
      Walks bound k (.turns b) m (.failed .tooDeep m)
  /-- The body fails. -/
  | bodyFailed {k b m v e m₁} : m.tape.current? = some v → v ≠ 0 →
      (∀ n, bound = some n → k < n) → Walks bound (k + 1) (.block b) m (.failed e m₁) →
      Walks bound k (.turns b) m (.failed e m₁)
  /-- The limit forbids the test behind the body. -/
  | retestForbidden {k b m v m₁ e m₂} : m.tape.current? = some v → v ≠ 0 →
      (∀ n, bound = some n → k < n) → Walks bound (k + 1) (.block b) m (.done m₁) →
      m₁.tick = .failed e m₂ → Walks bound k (.turns b) m (.failed e m₂)
  /-- The body is walked, and behind it the test is counted and the loop goes on. -/
  | turn {k b m v m₁ m₂ o} : m.tape.current? = some v → v ≠ 0 →
      (∀ n, bound = some n → k < n) → Walks bound (k + 1) (.block b) m (.done m₁) →
      m₁.tick = .done m₂ → Walks bound k (.turns b) m₂ o → Walks bound k (.turns b) m o

/-! ## Walks and steps -/

namespace Config

variable {bound : Option Nat} {c c₁ : Config} {next : Machine → Config} {o : Effect}

/-- The steps from a configuration have this effect; after a success the run goes on with the
configuration that is said to be next. -/
def ComesTo (bound : Option Nat) (c : Config) (next : Machine → Config) : Effect → Prop
  | .done m => Reaches bound c (next m)
  | .failed e m => ∃ c', Reaches bound c c' ∧ c'.advance bound = .failed e m

theorem ComesTo.trans (hreaches : Reaches bound c c₁) (h : c₁.ComesTo bound next o) :
    c.ComesTo bound next o := by
  cases o with
  | done m => exact Relation.ReflTransGen.trans hreaches h
  | failed e m =>
    obtain ⟨c', hrest, hfail⟩ := h
    exact ⟨c', hreaches.trans hrest, hfail⟩

theorem ComesTo.of_next {mark : Option Mark} (hstep : c.advance bound = .next mark c₁)
    (h : c₁.ComesTo bound next o) : c.ComesTo bound next o :=
  h.trans (.single ⟨mark, hstep⟩)

theorem comesTo_of_failed {e : RunError} {m : Machine} (h : c.advance bound = .failed e m) :
    c.ComesTo bound next (.failed e m) :=
  ⟨c, .refl, h⟩

variable {b rest : Program} {s : Option Span} {frames : List Frame} {m m₁ : Machine}

/-- A loop that is met is counted, and then its guard is tested. -/
theorem advance_loop (htick : m.tick = .done m₁) :
    advance bound ⟨.loop b s rest, frames, m⟩ = act bound ⟨.loop b none rest, frames, m₁⟩ :=
  advance_of_tick ⟨.loop b s rest, frames, m⟩ (by simp [Done]) htick

/-- A body is entered if the guard is not zero and there is room for one more loop. -/
theorem act_loop_of_ne_zero {v : Int} (hcurrent : m.tape.current? = some v) (hv : v ≠ 0)
    (hroom : ∀ n, bound = some n → frames.length < n) :
    act bound ⟨.loop b s rest, frames, m⟩ = .next none ⟨b, ⟨b, rest⟩ :: frames, m⟩ := by
  have hfull : isFull bound frames = false := isFull_eq_false hroom
  simp only [act, hcurrent, if_neg hv, hfull]
  rfl

/-- A loop whose guard is not zero is entered, or it is one too many. -/
theorem advance_loop_of_ne_zero {v : Int} (hlimit : m.limit = none)
    (hcurrent : m.tape.current? = some v) (hv : v ≠ 0) :
    advance bound ⟨.loop b s rest, frames, m⟩ =
      if isFull bound frames then .failed .tooDeep m.counted
      else .next none ⟨b, ⟨b, rest⟩ :: frames, m.counted⟩ := by
  have hguard : m.counted.tape.current? = some v := hcurrent
  rw [advance_loop (m.tick_of_unlimited hlimit)]
  simp only [act, hguard, if_neg hv]

/-- A loop whose guard is zero is skipped. -/
theorem advance_loop_of_zero (hlimit : m.limit = none) (hcurrent : m.tape.current? = some 0) :
    advance bound ⟨.loop b s rest, frames, m⟩ = .next (some .loop) ⟨rest, frames, m.counted⟩ := by
  have hguard : m.counted.tape.current? = some 0 := hcurrent
  rw [advance_loop (m.tick_of_unlimited hlimit)]
  simp only [act, hguard, if_true]

end Config

/-- The steps of a run do what a walk says. A block is walked where it stands; the turns of a loop
are walked from every configuration whose step tests the guard of this loop, which is the one in
front of the loop as well as the one behind its body. -/
def Task.ComesTo (bound : Option Nat) (k : Nat) (m : Machine) (o : Effect) : Task → Prop
  | block p => ∀ frames : List Frame, frames.length = k →
      Config.ComesTo bound ⟨p, frames, m⟩ (fun m' => ⟨.nil, frames, m'⟩) o
  | turns b => ∀ (frames : List Frame) (rest : Program) (c : Config), frames.length = k →
      c.advance bound = Config.act bound ⟨.loop b none rest, frames, m⟩ →
      c.ComesTo bound (fun m' => ⟨rest, frames, m'⟩) o

namespace Walks

variable {bound : Option Nat} {k : Nat} {t : Task} {m : Machine} {o : Effect}

/-- The steps of a run do what a walk says. -/
theorem comesTo (h : Walks bound k t m o) : t.ComesTo bound k m o := by
  -- One case for each rule; what a rule assumes has been turned into steps already.
  induction h with
  | nil =>
    intro frames _
    exact .refl
  | @forbidden k p m e m' hp htick =>
    intro frames _
    have hdone : ¬ Config.Done ⟨p, frames, m⟩ := fun hdone => hp hdone.1
    refine Config.comesTo_of_failed ?_
    rw [Config.advance_eq _ bound hdone, htick]
  | @command k d s rest m m₁ m₂ o htick hperform _ ih =>
    intro frames hk
    have hstep : Config.advance bound ⟨.command d s rest, frames, m⟩ =
        .next (some (.command d)) ⟨rest, frames, m₂⟩ := by
      simp only [Config.advance, htick, hperform]
    exact (ih frames hk).of_next hstep
  | @commandFailed k d s rest m m₁ e m₂ htick hperform =>
    intro frames _
    refine Config.comesTo_of_failed ?_
    simp only [Config.advance, htick, hperform]
  | @foreign k name rest m m₁ htick =>
    intro frames _
    refine Config.comesTo_of_failed ?_
    simp only [Config.advance, htick]
  | @loop k b s rest m m₁ m₂ o htick _ _ ihTurns ihRest =>
    intro frames hk
    -- The turns begin here with the test in front of the loop, and lead to the rest of the block.
    have hturns := ihTurns frames rest _ hk (Config.advance_loop (s := s) htick)
    exact (ihRest frames hk).trans hturns
  | @loopFailed k b s rest m m₁ e m₂ htick _ ihTurns =>
    intro frames hk
    exact ihTurns frames rest _ hk (Config.advance_loop (s := s) htick)
  | unreadable hcurrent =>
    intro frames rest c _ hc
    refine Config.comesTo_of_failed ?_
    simp only [hc, Config.act, hcurrent]
  | guardZero hcurrent =>
    intro frames rest c _ hc
    refine .single ⟨some .loop, ?_⟩
    simp only [hc, Config.act, hcurrent, if_true]
  | tooDeep hcurrent hv hbound hn =>
    intro frames rest c hk hc
    have hfull : isFull bound frames = true := by
      simpa [isFull, hbound, hk] using hn
    refine Config.comesTo_of_failed ?_
    simp only [hc, Config.act, hcurrent, if_neg hv, hfull, if_true]
  | @bodyFailed k b m v e m₁ hcurrent hv hroom _ ih =>
    intro frames rest c hk hc
    have henter := hc.trans (Config.act_loop_of_ne_zero hcurrent hv (hk ▸ hroom))
    -- Inside of the body this loop is one more frame. A failure there is one of the whole loop,
    -- whatever would have come next.
    obtain ⟨c', hreaches, hfail⟩ :=
      (ih (⟨b, rest⟩ :: frames) (by simp [hk])).of_next henter
    exact ⟨c', hreaches, hfail⟩
  | @retestForbidden k b m v m₁ e m₂ hcurrent hv hroom _ htick ih =>
    intro frames rest c hk hc
    have henter := hc.trans (Config.act_loop_of_ne_zero hcurrent hv (hk ▸ hroom))
    have hbody := (ih (⟨b, rest⟩ :: frames) (by simp [hk])).of_next henter
    refine Config.ComesTo.trans hbody (Config.comesTo_of_failed ?_)
    simp only [Config.advance, htick]
  | @turn k b m v m₁ m₂ o hcurrent hv hroom _ htick _ ihBody ihTurns =>
    intro frames rest c hk hc
    have henter := hc.trans (Config.act_loop_of_ne_zero hcurrent hv (hk ▸ hroom))
    have hbody := (ihBody (⟨b, rest⟩ :: frames) (by simp [hk])).of_next henter
    -- Behind the body the guard is tested as in front of the loop, on the counted machine.
    have hfull : isFull bound frames = false := isFull_eq_false (hk ▸ hroom)
    have hretest : Config.advance bound ⟨.nil, ⟨b, rest⟩ :: frames, m₁⟩ =
        Config.act bound ⟨.loop b none rest, frames, m₂⟩ := by
      rw [Config.advance_end_of_body (s := none) hfull]
      exact Config.advance_loop htick
    exact (ihTurns frames rest _ hk hretest).trans hbody

end Walks

/-! ## The counter -/

/-- The counter of the second machine is not behind that of the first, and the limit is the same. -/
structure Machine.Later (m m' : Machine) : Prop where
  /-- No step is taken back. -/
  steps_le : m.steps ≤ m'.steps
  /-- The limit stays. -/
  limit_eq : m'.limit = m.limit

namespace Machine.Later

variable {m m₁ m₂ : Machine} {o : Effect}

theorem refl : m.Later m :=
  ⟨Nat.le_refl _, rfl⟩

theorem trans (h : m.Later m₁) (h₁ : m₁.Later m₂) : m.Later m₂ :=
  ⟨h.steps_le.trans h₁.steps_le, h₁.limit_eq.trans h.limit_eq⟩

theorem of_tick (h : m.tick = o) : m.Later o.machine := by
  rw [← h, machine_tick]
  exact ⟨Nat.le_succ _, rfl⟩

theorem of_perform {d : Command} (h : m.perform d = o) : m.Later o.machine := by
  have hcounter := m.perform_counter d
  rw [h] at hcounter
  exact ⟨Nat.le_of_eq hcounter.1.symm, hcounter.2⟩

end Machine.Later

namespace Walks

variable {bound : Option Nat} {k : Nat} {t : Task} {m : Machine} {o : Effect}

/-- A walk takes back no step and keeps the limit. -/
theorem later (h : Walks bound k t m o) : m.Later o.machine := by
  induction h with
  | nil | unreadable | guardZero | tooDeep => exact .refl
  | forbidden _ htick => exact .of_tick htick
  | foreign htick =>
    have hcounted := Machine.Later.of_tick htick
    exact hcounted
  | commandFailed htick hperform => exact (Machine.Later.of_tick htick).trans (.of_perform hperform)
  | command htick hperform _ ih =>
    exact (Machine.Later.of_tick htick).trans ((Machine.Later.of_perform hperform).trans ih)
  | loop htick _ _ ihTurns ihRest =>
    exact (Machine.Later.of_tick htick).trans (ihTurns.trans ihRest)
  | loopFailed htick _ ihTurns => exact (Machine.Later.of_tick htick).trans ihTurns
  | bodyFailed _ _ _ _ ih => exact ih
  | retestForbidden _ _ _ _ htick ih => exact ih.trans (.of_tick htick)
  | turn _ _ _ _ htick _ ihBody ihTurns =>
    exact ihBody.trans ((Machine.Later.of_tick htick).trans ihTurns)

end Walks

/-! ## Under a limit -/

section UnderLimit

variable {bound : Option Nat} {m : Machine} {l : Int}

/-- The number of steps that the limit still allows. -/
def Machine.stepsLeft (l : Int) (m : Machine) : Nat :=
  (l - m.steps).toNat

/-- What is forbidden or counted: if the limit lets a step go on, less of them are left. -/
theorem Machine.tick_stepsLeft (hlimit : m.limit = some l) :
    (∃ e m', m.tick = .failed e m') ∨ ∃ m₁, m.tick = .done m₁ ∧ m₁.limit = some l ∧
      m₁.stepsLeft l < m.stepsLeft l := by
  by_cases hallowed : (m.steps : Int) + 1 ≤ l
  · refine Or.inr ⟨m.counted, m.tick_eq_done fun l' hl' => ?_, hlimit, ?_⟩
    · rw [hlimit, Option.some.injEq] at hl'
      exact hl' ▸ hallowed
    · have hsteps : m.counted.steps = m.steps + 1 := rfl
      unfold stepsLeft
      omega
  · exact Or.inl ⟨_, _, m.tick_eq_failed hlimit (Int.not_le.1 hallowed)⟩

/-- No more steps are left later. -/
theorem Machine.Later.stepsLeft_le {m' : Machine} (h : m.Later m') :
    m'.stepsLeft l ≤ m.stepsLeft l := by
  have hsteps := h.steps_le
  unfold stepsLeft
  omega

/-- If everything can be walked from where less steps are left, every block can be walked: its first
instruction is counted. -/
theorem exists_walks_block (hlimit : m.limit = some l)
    (hless : ∀ (k : Nat) (t : Task) (m' : Machine), m'.limit = some l →
      m'.stepsLeft l < m.stepsLeft l → ∃ o, Walks bound k t m' o) (k : Nat) (p : Program) :
    ∃ o, Walks bound k (.block p) m o := by
  rcases Machine.tick_stepsLeft hlimit with ⟨e, m', htick⟩ | ⟨m₁, htick, hlimit₁, hleft⟩
  -- The limit forbids the first instruction, if there is one.
  · cases p with
    | nil => exact ⟨_, .nil⟩
    | command d s rest => exact ⟨_, .forbidden (by simp) htick⟩
    | loop b s rest => exact ⟨_, .forbidden (by simp) htick⟩
    | foreign name rest => exact ⟨_, .forbidden (by simp) htick⟩
  · -- Whatever the first instruction does, the rest of the block comes later.
    have hrest : ∀ (rest : Program) (m₂ : Machine), m₁.Later m₂ →
        ∃ o, Walks bound k (.block rest) m₂ o := fun rest m₂ hlater =>
      hless k (.block rest) m₂ (hlater.limit_eq.trans hlimit₁)
        (Nat.lt_of_le_of_lt hlater.stepsLeft_le hleft)
    cases p with
    | nil => exact ⟨_, .nil⟩
    | command d s rest =>
      cases hperform : m₁.perform d with
      | failed e m₂ => exact ⟨_, .commandFailed htick hperform⟩
      | done m₂ =>
        obtain ⟨o, ho⟩ := hrest rest m₂ (.of_perform hperform)
        exact ⟨o, .command htick hperform ho⟩
    | loop b s rest =>
      obtain ⟨o₁, hturns⟩ := hless k (.turns b) m₁ hlimit₁ hleft
      cases o₁ with
      | failed e m₂ => exact ⟨_, .loopFailed htick hturns⟩
      | done m₂ =>
        obtain ⟨o, ho⟩ := hrest rest m₂ hturns.later
        exact ⟨o, .loop htick hturns ho⟩
    | foreign name rest => exact ⟨_, .foreign htick⟩

/-- If everything can be walked from where less steps are left, the turns of every loop can be
walked. The body may do nothing, but behind it the guard is tested again, and this is counted. -/
theorem exists_walks_turns (hlimit : m.limit = some l)
    (hless : ∀ (k : Nat) (t : Task) (m' : Machine), m'.limit = some l →
      m'.stepsLeft l < m.stepsLeft l → ∃ o, Walks bound k t m' o) (k : Nat) (b : Program) :
    ∃ o, Walks bound k (.turns b) m o := by
  cases hcurrent : m.tape.current? with
  | none => exact ⟨_, .unreadable hcurrent⟩
  | some v =>
    by_cases hv : v = 0
    · exact ⟨_, .guardZero (hv ▸ hcurrent)⟩
    by_cases hroom : ∀ n, bound = some n → k < n
    -- The body may leave as many steps as there were; it is the test behind it that takes one.
    · obtain ⟨o₁, hbody⟩ := exists_walks_block hlimit hless (k + 1) b
      cases o₁ with
      | failed e m₁ => exact ⟨_, .bodyFailed hcurrent hv hroom hbody⟩
      | done m₁ =>
        have hlimit₁ : m₁.limit = some l := hbody.later.limit_eq.trans hlimit
        rcases Machine.tick_stepsLeft hlimit₁ with ⟨e, m₂, htick⟩ | ⟨m₂, htick, hlimit₂, hleft⟩
        · exact ⟨_, .retestForbidden hcurrent hv hroom hbody htick⟩
        · obtain ⟨o, ho⟩ := hless k (.turns b) m₂ hlimit₂
            (Nat.lt_of_lt_of_le hleft hbody.later.stepsLeft_le)
          exact ⟨o, .turn hcurrent hv hroom hbody htick ho⟩
    · simp only [not_forall, Nat.not_lt] at hroom
      obtain ⟨n, hn, hle⟩ := hroom
      exact ⟨_, .tooDeep hcurrent hv hn hle⟩

/-- Under a limit everything can be walked. -/
theorem exists_walks (bound : Option Nat) (k : Nat) (t : Task) (hlimit : m.limit = some l) :
    ∃ o, Walks bound k t m o := by
  -- On the steps that are left; a block comes before the turns of a loop with as many left.
  induction hn : m.stepsLeft l using Nat.strong_induction_on generalizing k t m with
  | h n ih =>
    have hless : ∀ (k : Nat) (t : Task) (m' : Machine), m'.limit = some l →
        m'.stepsLeft l < m.stepsLeft l → ∃ o, Walks bound k t m' o :=
      fun k t m' hlimit' hlt => ih _ (hn ▸ hlt) k t hlimit' rfl
    cases t with
    | block p => exact exists_walks_block hlimit hless k p
    | turns b => exact exists_walks_turns hlimit hless k b

end UnderLimit

/-! ## Runs under a limit -/

/-- How a run stands that has had this effect. -/
def Effect.ending : Effect → Ending
  | done m => .finished m
  | failed e m => .failed e m

/-- A run ends as a walk of its program says. -/
theorem Walks.exists_run {bound : Option Nat} {p : Program} {m : Machine} {o : Effect}
    (h : Walks bound 0 (.block p) m o) : ∃ n, p.run bound n m = o.ending := by
  have hcomes := h.comesTo [] rfl
  cases o with
  | done m' =>
    obtain ⟨n, hrun⟩ := Config.Reaches.exists_run hcomes
    exact ⟨n + 0, (hrun 0).trans (Config.run_of_done _ ⟨rfl, rfl⟩ 0)⟩
  | failed e m' =>
    obtain ⟨c, hreaches, hfail⟩ := hcomes
    obtain ⟨n, hrun⟩ := hreaches.exists_run
    exact ⟨n + 1, (hrun 1).trans (Config.run_of_failed c hfail 0)⟩

namespace Program

/-- Under a step limit every run ends, whatever the program, the machine, the counter at the start
and the limit. Its program has a walk, and a run with one step more than the limit allows has ended
as this walk says, having counted no more steps than these. As long as a run goes on, every step of
it has been counted, so no turn of a loop goes by without one, and the limit has allowed them all.
-/
theorem ends_under_limit (bound : Option Nat) (p : Program) (m : Machine) (s : Nat) (l : Int) :
    let start := m.withCounter s (some l)
    let fuel := (l - s).toNat + 1
    (∃ o, Walks bound 0 (.block p) start o ∧
      (∀ n, fuel ≤ n → p.run bound n start = o.ending) ∧
      s ≤ o.machine.steps ∧ o.machine.steps ≤ s + fuel) ∧
    ∀ n c, p.run bound n start = .unfinished c → c.machine.steps = s + n ∧ n < fuel := by
  intro start fuel
  have hended : ∀ n, fuel ≤ n → (p.run bound n start).Ended := fun n hn =>
    Config.ended_withLimit ⟨p, [], m.withCounter s none⟩ rfl (Nat.lt_of_succ_le hn)
  constructor
  · obtain ⟨o, hwalk⟩ := exists_walks bound 0 (.block p) (m := start) (l := l) rfl
    obtain ⟨j, hj⟩ := hwalk.exists_run
    -- The run has ended both after `fuel` steps and after as many as the walk took.
    have hjended : (p.run bound j start).Ended := by
      rw [hj]
      cases o <;> trivial
    have hrun : ∀ n, fuel ≤ n → p.run bound n start = o.ending := fun n hn =>
      calc p.run bound n start
          = p.run bound (n + j) start :=
            (Config.run_of_ended _ (hended n hn) (Nat.le_add_right n j)).symm
        _ = p.run bound j start := Config.run_of_ended _ hjended (Nat.le_add_left j n)
        _ = o.ending := hj
    have hmachine : o.ending.machine = o.machine := by cases o <;> rfl
    refine ⟨o, hwalk, hrun, hwalk.later.steps_le, ?_⟩
    have hle : (p.run bound fuel start).machine.steps ≤ s + fuel :=
      Config.steps_run_le ⟨p, [], start⟩ bound fuel
    rwa [hrun fuel (Nat.le_refl _), hmachine] at hle
  · intro n c hrun
    refine ⟨(Config.counter_of_unfinished _ hrun).1, Nat.lt_of_not_le fun hle => ?_⟩
    have hend := hended n hle
    rw [hrun] at hend
    exact hend

/-- A loop whose body does nothing turns until the limit is reached. -/
theorem ends_under_limit_empty_body :
    let p : Program := .loop .nil none .nil
    let m : Machine := { tape := ⟨#[1], 0⟩ }
    (∃ o : Effect, Walks none 0 (.block p) (m.withCounter 0 (some 3)) o ∧
      o.ending = .failed (.stepLimit 3) (m.withCounter 4 (some 3))) ∧
    ∃ c, p.run none 2 (m.withCounter 0 (some 3)) = .unfinished c ∧ c.machine.steps = 2 := by
  intro p m
  obtain ⟨⟨o, hwalk, hrun, -⟩, hgoing⟩ := ends_under_limit none p m 0 3
  refine ⟨⟨o, hwalk, ?_⟩, ?_⟩
  · rw [← hrun 4 (by decide)]
    decide
  · have hstands : p.run none 2 (m.withCounter 0 (some 3)) =
        .unfinished ⟨.nil, [⟨.nil, .nil⟩], m.withCounter 2 (some 3)⟩ := by decide
    exact ⟨_, hstands, (hgoing 2 _ hstands).1⟩

end Program

end TapeLang
