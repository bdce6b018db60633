import TapeLang.Proofs.Machine.Nesting
import TapeLang.Proofs.Machine.Walk
import TapeLang.Proofs.Session

/-!
# Loops and their first turn

A loop whose guard is not zero can be unrolled: it does what its body does and then what the loop
does, with one step more for being met. A loop whose guard is zero costs a step and does nothing,
and this is so for every loop that directly follows another one, because a loop is only left when
its guard is zero.

* `Config.run_inside`: what a block does wherever it stands, with something behind it and loops
  around it.
* `Config.agrees_unrolled`: the run of a loop beside the run of its body and the loop.
* `Program.guard_zero_of_finished`: the current cell behind a loop.
* `Program.loop_laws`: the laws of loops.
-/

namespace TapeLang

namespace Config

variable {bound : Option Nat} {c : Config} {m : Machine}

/-! ## A step more on the counter -/

/-- The configuration with its step counter raised by one. -/
def counted (c : Config) : Config :=
  c.onMachine c.machine.counted

theorem act_counted (c : Config) (bound : Option Nat) :
    c.counted.act bound = (c.act bound).map counted Machine.counted := by
  -- The action keeps the counter, so raising it before or behind the action is the same.
  have h := c.act_withCounter bound (c.machine.steps + 1) c.machine.limit
  obtain ⟨hsteps, hlimit⟩ := c.act_counter bound
  rw [show c.counted = c.withCounter (c.machine.steps + 1) c.machine.limit from rfl, h, ← hsteps,
    ← hlimit]
  cases c.act bound <;> rfl

/-- Without a limit a step does not look at the counter. -/
theorem advance_counted (hlimit : c.machine.limit = none) :
    c.counted.advance bound = (c.advance bound).map counted Machine.counted := by
  by_cases h : c.Done
  · rw [advance_of_done c h, advance_of_done c.counted h]
    rfl
  · have htick : c.machine.tick = .done c.machine.counted := c.machine.tick_of_unlimited hlimit
    have htick' : c.counted.machine.tick = .done c.machine.counted.counted :=
      c.machine.counted.tick_of_unlimited hlimit
    rw [advance_of_tick c h htick, advance_of_tick c.counted h htick']
    exact act_counted (c.onMachine c.machine.counted) bound

/-- Without a limit a run does not look at the counter. -/
theorem run_counted (hlimit : c.machine.limit = none) (n : Nat) :
    c.counted.run bound n = (c.run bound n).map counted Machine.counted := by
  have hstep : ∀ c : Config, c.machine.limit = none → ¬ c.Done →
      c.counted.advance bound = (c.advance bound).map counted Machine.counted :=
    fun _ hc _ => advance_counted hc
  rw [run_map_until_done (fun hc hnext => (counter_of_next _ hnext).2.trans hc) hstep hlimit n]
  cases c.run bound n with
  | finished m => exact run_of_done ⟨.nil, [], m.counted⟩ ⟨rfl, rfl⟩ _
  | failed e m => rfl
  | unfinished c' => rfl

/-- A run that has ended has kept the limit. -/
theorem limit_of_finished {n : Nat} (h : c.run bound n = .finished m) :
    m.limit = c.machine.limit := by
  have hkept := c.limit_run bound n
  rwa [h] at hkept

theorem agrees_counted (hlimit : c.machine.limit = none) (n : Nat) :
    (c.counted.run bound n).Agrees Machine.counted (c.run bound n) := by
  rw [run_counted hlimit]
  cases c.run bound n with
  | finished m => exact Ending.agrees_finished _ m
  | failed e m => exact Ending.agrees_failed _ e m
  | unfinished c' => exact Ending.agrees_unfinished rfl

/-! ## Blocks inside of loops -/

/-- The bound that is left for the loops inside of these frames. -/
def roomIn (bound : Option Nat) (frames : List Frame) : Option Nat :=
  bound.map (· - frames.length)

@[simp]
theorem roomIn_nil (bound : Option Nat) : roomIn bound [] = bound := by
  cases bound <;> rfl

/-- The configuration inside of more loops. -/
def within (c : Config) (outer : List Frame) : Config :=
  ⟨c.block, c.frames ++ outer, c.machine⟩

theorem isFull_append (frames outer : List Frame) :
    isFull bound (frames ++ outer) = isFull (roomIn bound outer) frames := by
  cases bound with
  | none => rfl
  | some b =>
    simp only [isFull, roomIn, Option.map_some, List.length_append, decide_eq_decide]
    omega

/-- Until everything is done, a step does not look at the loops around. -/
theorem act_within (outer : List Frame) (h : ¬ c.Done) :
    (c.within outer).act bound = (c.act (roomIn bound outer)).map (·.within outer) id := by
  obtain ⟨block, frames, m⟩ := c
  -- Where a step asks how many loops are around it, the room is less by the outer ones.
  cases block with
  | nil =>
    cases frames with
    | nil => exact absurd ⟨rfl, rfl⟩ h
    | cons f inner =>
      simp only [within, List.cons_append, act]
      split
      · rfl
      · split <;> rfl
  | command d s rest =>
    simp only [within, act]
    cases m.perform d <;> rfl
  | loop b s rest =>
    simp only [within, act, isFull_append]
    split
    · rfl
    · split
      · rfl
      · split <;> rfl
  | foreign n rest => rfl

theorem advance_within (outer : List Frame) (h : ¬ c.Done) :
    (c.within outer).advance bound = (c.advance (roomIn bound outer)).map (·.within outer) id := by
  have houter : ¬ (c.within outer).Done := fun hdone =>
    h ⟨hdone.1, (List.append_eq_nil_iff.1 hdone.2).1⟩
  rw [advance_eq c _ h, advance_eq (c.within outer) bound houter,
    show (c.within outer).machine = c.machine from rfl]
  cases c.machine.tick with
  | failed e m => rfl
  | done m => exact act_within (c := c.onMachine m) outer h

/-- A block does the same wherever it stands. If it comes to its end, what is behind it goes on from
there with the steps that are left. -/
theorem run_inside (bound : Option Nat) (p q : Program) (frames : List Frame) (m : Machine)
    (n : Nat) :
    run bound n ⟨p ++ q, frames, m⟩ =
      match p.run (roomIn bound frames) n m with
      | .finished m' => run bound (n - (m'.steps - m.steps)) ⟨q, frames, m'⟩
      | .failed e m' => .failed e m'
      | .unfinished c => .unfinished ((c.followedBy q).within frames) := by
  have hstep : ∀ c : Config, ¬ c.Done → ((c.followedBy q).within frames).advance bound =
      (c.advance (roomIn bound frames)).map (fun c => (c.followedBy q).within frames) id := by
    intro c h
    rw [advance_within frames (not_done_followedBy q h), advance_followedBy q _ h]
    cases c.advance (roomIn bound frames) <;> rfl
  exact run_map_until_done (I := fun _ => True) (f := fun c => (c.followedBy q).within frames)
    (g := id) (fun _ _ => trivial) (fun c _ => hstep c) (c := ⟨p, [], m⟩) trivial n

/-- When a block has come to its end, what is behind it goes on. -/
theorem run_inside_of_finished {p : Program} {frames : List Frame} {m m' : Machine} {n : Nat}
    (h : p.run (roomIn bound frames) n m = .finished m') (q : Program) (k : Nat) :
    run bound (m'.steps - m.steps + k) ⟨p ++ q, frames, m⟩ = run bound k ⟨q, frames, m'⟩ := by
  have hlast : p.run (roomIn bound frames) (m'.steps - m.steps) m = .finished m' :=
    run_of_finished (c := ⟨p, [], m⟩) h
  have hended : (p.run (roomIn bound frames) (m'.steps - m.steps) m).Ended := by
    rw [hlast]
    trivial
  have hlater : p.run (roomIn bound frames) (m'.steps - m.steps + k) m = .finished m' :=
    (run_of_ended ⟨p, [], m⟩ hended (Nat.le_add_right _ k)).trans hlast
  rw [run_inside, hlater]
  simp only [Nat.add_sub_cancel_left]

/-- Until a block has come to its end, what is behind it does not matter. -/
theorem agrees_inside {p : Program} {frames : List Frame} {m : Machine} {n : Nat}
    (h : ∀ m', p.run (roomIn bound frames) n m ≠ .finished m') (q q' : Program) :
    (run bound n ⟨p ++ q, frames, m⟩).Agrees id (run bound n ⟨p ++ q', frames, m⟩) := by
  rw [run_inside, run_inside]
  cases hrun : p.run (roomIn bound frames) n m with
  | finished m' => exact absurd hrun (h m')
  | failed e m' => exact Ending.agrees_failed id e m'
  | unfinished c => exact Ending.agrees_unfinished rfl

/-! ## The first turn of a loop -/

/-- The runs stand alike but for a step more in the first one, which is inside of no fewer loops. -/
structure StepAhead (o o' : Ending) : Prop extends o.Agrees Machine.counted o' where
  /-- The first one is inside of no fewer loops. -/
  frames_le : ∀ c', o' = .unfinished c' →
    ∃ c, o = .unfinished c ∧ c'.frames.length ≤ c.frames.length

variable {b rest : Program} {s : Option Span} {frames : List Frame} {v : Int}

/-- What the step can be that meets a loop: the guard is zero, and the loop is skipped, or there is
room for the loop, and it is entered. -/
theorem loop_cases {c' : Config} {mark : Option Mark}
    (h : advance bound ⟨.loop b s rest, frames, m⟩ = .next mark c') :
    (m.tape.current? = some 0 ∧ c' = ⟨rest, frames, m.counted⟩) ∨
      (isFull bound frames = false ∧ c' = ⟨b, ⟨b, rest⟩ :: frames, m.counted⟩) := by
  have hact := act_of_next _ h
  simp only [onMachine, act] at hact
  split at hact
  · cases hact
  · next v hcurrent =>
    split at hact
    · next hv =>
      cases hact
      exact Or.inl ⟨hv ▸ hcurrent, rfl⟩
    · split at hact
      · cases hact
      · next hroom =>
        cases hact
        exact Or.inr ⟨by simpa using hroom, rfl⟩

/-- Behind its body a loop goes on as if it were met there, with a step more on the counter. -/
theorem stepAhead_end_of_body (hlimit : m.limit = none) (k : Nat) :
    StepAhead (run none k ⟨.nil, ⟨b, rest⟩ :: frames, m.counted⟩)
      (run none k ⟨.loop b s rest, frames, m⟩) := by
  cases k with
  | zero =>
    -- No step is left: the one run stands inside of the loop, and the other one in front of it.
    rw [run_zero _ (by simp [Done]), run_zero _ (by simp [Done])]
    refine ⟨Ending.agrees_unfinished rfl, fun c' hc' => ⟨_, rfl, ?_⟩⟩
    cases hc'
    exact Nat.le_succ _
  | succ k =>
    have htest : advance none ⟨.nil, ⟨b, rest⟩ :: frames, m.counted⟩ =
        advance none (counted ⟨.loop b s rest, frames, m⟩) := advance_end_of_body rfl
    rw [run_of_advance_eq htest]
    refine ⟨agrees_counted hlimit (k + 1), fun c' hc' => ⟨c'.counted, ?_, Nat.le_refl _⟩⟩
    rw [run_counted hlimit, hc']
    rfl

/-- A loop whose guard is not zero does what its body and the loop do one after the other, and
counts one step more. -/
theorem stepAhead_unrolled (hlimit : m.limit = none) (hcurrent : m.tape.current? = some v)
    (hv : v ≠ 0) (n : Nat) :
    StepAhead (run none (n + 1) ⟨.loop b s rest, frames, m⟩)
      (run none n ⟨b ++ .loop b s rest, frames, m⟩) := by
  -- The loop is entered. In it, as in front of it, the body is a block with something behind it.
  have henter : advance none ⟨.loop b s rest, frames, m⟩ =
      .next none ⟨b ++ .nil, ⟨b, rest⟩ :: frames, m.counted⟩ := by
    rw [Program.append_nil]
    exact advance_loop_of_ne_zero hlimit hcurrent hv
  have hbody : b.run none n m.counted = (b.run none n m).map counted Machine.counted :=
    run_counted (c := ⟨b, [], m⟩) hlimit n
  rw [run_of_next _ henter, run_inside, run_inside]
  show StepAhead (match b.run none n m.counted with
    | .finished m' => _
    | .failed e m' => _
    | .unfinished c => _) (match b.run none n m with
    | .finished m' => _
    | .failed e m' => _
    | .unfinished c => _)
  rw [hbody]
  cases hrun : b.run none n m with
  | finished m' =>
    have hlimit' : m'.limit = none := (limit_of_finished (c := ⟨b, [], m⟩) hrun).trans hlimit
    have hsteps : m'.counted.steps - m.counted.steps = m'.steps - m.steps :=
      Nat.succ_sub_succ _ _
    simp only [Ending.map, hsteps]
    exact stepAhead_end_of_body hlimit' _
  | failed e m' =>
    exact ⟨Ending.agrees_failed _ e m', fun c' hc' => by cases hc'⟩
  | unfinished c =>
    refine ⟨Ending.agrees_unfinished rfl, fun c' hc' => ⟨_, rfl, ?_⟩⟩
    cases hc'
    simp only [within, followedBy, counted, onMachine, List.length_append, length_followedBy,
      List.length_cons]
    omega

/-- A run that does not fail at its bound on entered loops stays within it. -/
theorem staysWithin_of_error_ne {B n : Nat} (hc : c.frames.length ≤ B)
    (h : (c.run (some B) n).error? ≠ some .tooDeep) : c.StaysWithin B n := by
  by_contra hout
  obtain ⟨k, c₁, body, t, rest, hwithin, hrun, hlength, -, mark, hstep⟩ :=
    exists_first_entry hc ⟨n, hout⟩
  -- The first loop too many is entered within the steps of the run, and there the run fails.
  have hk : k < n := by
    by_contra hle
    exact hout fun j hj => hwithin j (hj.trans (Nat.not_lt.1 hle))
  apply h
  rw [run_some_of_lt hwithin hrun hstep (Nat.lt_succ_of_le (Nat.le_of_eq hlength.symm)) hk]
  rfl

/-- A loop whose guard is not zero does what its body and the loop do one after the other, and
counts one step more, unless it meets a loop too many. -/
theorem agrees_unrolled (hlimit : m.limit = none) (hcurrent : m.tape.current? = some v) (hv : v ≠ 0)
    (hnested : ∀ n, (run bound n ⟨.loop b s rest, frames, m⟩).error? ≠ some .tooDeep) (n : Nat) :
    (run bound (n + 1) ⟨.loop b s rest, frames, m⟩).Agrees Machine.counted
      (run bound n ⟨b ++ .loop b s rest, frames, m⟩) := by
  have hahead : ∀ n, StepAhead (run none (n + 1) ⟨.loop b s rest, frames, m⟩)
      (run none n ⟨b ++ .loop b s rest, frames, m⟩) := stepAhead_unrolled hlimit hcurrent hv
  cases bound with
  | none => exact (hahead n).toAgrees
  | some B =>
    -- The loop itself could be entered, so the bound leaves room for one more than there are.
    have hroom : frames.length ≤ B := by
      by_contra hfull
      apply hnested 1
      have hbound : isFull (some B) frames = true := decide_eq_true (Nat.le_of_not_le hfull)
      have hstep : advance (some B) ⟨.loop b s rest, frames, m⟩ = .failed .tooDeep m.counted := by
        rw [advance_loop_of_ne_zero hlimit hcurrent hv, if_pos hbound]
      rw [run_of_failed _ hstep]
      rfl
    have hloop : StaysWithin B (n + 1) ⟨.loop b s rest, frames, m⟩ :=
      staysWithin_of_error_ne hroom (hnested (n + 1))
    -- Its body and the loop are never inside of more loops than the loop is a step later.
    have hunrolled : StaysWithin B n ⟨b ++ .loop b s rest, frames, m⟩ := by
      intro k hk c' hrun
      obtain ⟨c, hrun', hle⟩ := (hahead k).frames_le c' hrun
      exact hle.trans (hloop (k + 1) (Nat.succ_le_succ hk) c hrun')
    rw [run_some_of_staysWithin hloop, run_some_of_staysWithin hunrolled]
    exact (hahead n).toAgrees

end Config

/-! ## Behind a loop -/

namespace Program

variable {bound : Option Nat} {b p : Program} {s : Option Span} {m m' : Machine} {n : Nat}

/-- A run that begins inside of a loop and ends comes to the loop again, with no more steps left. -/
theorem exists_run_of_body (hroom : isFull bound [] = false)
    (h : Config.run bound n ⟨b, [⟨b, .nil⟩], m⟩ = .finished m') :
    ∃ m₁ k, k ≤ n ∧ (loop b s .nil).run bound k m₁ = .finished m' := by
  rw [← append_nil b, Config.run_inside, append_nil] at h
  cases hrun : b.run (Config.roomIn bound [⟨b, .nil⟩]) n m with
  | failed e m₁ => simp [hrun] at h
  | unfinished c => simp [hrun] at h
  | finished m₁ =>
    simp only [hrun] at h
    cases hleft : n - (m₁.steps - m.steps) with
    | zero =>
      rw [hleft, Config.run_zero _ (by simp [Config.Done])] at h
      cases h
    | succ k =>
      have htest : Config.advance bound ⟨.nil, [⟨b, .nil⟩], m₁⟩ =
          Config.advance bound ⟨loop b s .nil, [], m₁⟩ := Config.advance_end_of_body hroom
      rw [hleft, Config.run_of_advance_eq htest] at h
      exact ⟨m₁, k + 1, by omega, h⟩

/-- A loop is left when its guard is zero, however many turns it has made. -/
theorem guard_zero_of_loop (h : (loop b s .nil).run bound n m = .finished m') :
    m'.tape.current? = some 0 := by
  -- Behind its first turn the loop is where it was, and it has fewer steps left.
  induction n using Nat.strong_induction_on generalizing m with
  | h n ih =>
    cases n with
    | zero => cases h
    | succ n =>
      cases hnext : Config.advance bound ⟨loop b s .nil, [], m⟩ with
      | finished m₁ => cases ((Config.advance_eq_finished_iff _).1 hnext).1.1
      | failed e m₁ => simp [run, Config.run, hnext] at h
      | next mark c =>
        rw [run, Config.run_of_next _ hnext] at h
        rcases Config.loop_cases hnext with ⟨hzero, rfl⟩ | ⟨hroom, rfl⟩
        · rw [Config.run_of_done _ ⟨rfl, rfl⟩, Ending.finished.injEq] at h
          rw [← h]
          exact hzero
        · obtain ⟨m₁, k, hk, hrun⟩ := exists_run_of_body (s := s) hroom h
          exact ih k (Nat.lt_succ_of_le hk) hrun

/-- A program whose last instruction is a loop ends with its current cell at zero. -/
theorem guard_zero_of_finished (h : (p ++ loop b s .nil).run bound n m = .finished m') :
    m'.tape.current? = some 0 := by
  rw [run_append] at h
  cases hrun : p.run bound n m with
  | finished m₁ =>
    rw [hrun] at h
    exact guard_zero_of_loop h
  | failed e m₁ => simp [hrun] at h
  | unfinished c => simp [hrun] at h

/-- Behind a block that ends with a loop another loop is skipped, which takes a step. -/
theorem agrees_behind_loop {frames : List Frame} (hlimit : m.limit = none)
    (h : (p ++ loop b s .nil).run (Config.roomIn bound frames) n m = .finished m') (c q : Program)
    (t : Option Span) (k : Nat) :
    (Config.run bound (m'.steps - m.steps + (k + 1))
        ⟨(p ++ loop b s .nil) ++ loop c t q, frames, m⟩).Agrees Machine.counted
      (Config.run bound (m'.steps - m.steps + k) ⟨(p ++ loop b s .nil) ++ q, frames, m⟩) := by
  have hlimit' : m'.limit = none :=
    (Config.limit_of_finished (c := ⟨p ++ loop b s .nil, [], m⟩) h).trans hlimit
  have hskip : Config.advance bound ⟨loop c t q, frames, m'⟩ =
      .next (some .loop) (Config.counted ⟨q, frames, m'⟩) :=
    Config.advance_loop_of_zero hlimit' (guard_zero_of_finished h)
  rw [Config.run_inside_of_finished h, Config.run_inside_of_finished h, Config.run_of_next _ hskip]
  exact Config.agrees_counted (c := ⟨q, frames, m'⟩) hlimit' k

/-- The laws of loops. If the guard is not zero, a loop does the same as its body and the loop one
after the other, for ever, to an end or to an error, and counts exactly one step more. If the guard
is zero, it counts one step and changes nothing else. Wherever a loop has been left the guard is
zero; so in every block, whatever loops are open around it, a loop that directly follows another one
counts one step more if it is met, and changes nothing else. -/
theorem loop_laws (bound : Option Nat) (b : Program) (s : Option Span) (m : Machine) :
    (m.limit = none → ∀ v, m.tape.current? = some v → v ≠ 0 →
      (∀ n, ((loop b s .nil).run bound n m).error? ≠ some .tooDeep) →
      ∀ n, ((loop b s .nil).run bound (n + 1) m).Agrees Machine.counted
        ((b ++ loop b s .nil).run bound n m)) ∧
    (m.limit = none → m.tape.current? = some 0 →
      ∀ n, (loop b s .nil).run bound (n + 1) m = .finished m.counted) ∧
    ((∀ p n m', (p ++ loop b s .nil).run bound n m = .finished m' →
        m'.tape.current? = some 0) ∧
      ∀ c c', Config.advance bound c = .next (some .loop) c' →
        c'.machine.tape.current? = some 0) ∧
    (m.limit = none → ∀ (p c q : Program) (t : Option Span) (frames : List Frame),
      let front := p ++ loop b s .nil
      let room := Config.roomIn bound frames
      let both : Config := ⟨front ++ loop c t q, frames, m⟩
      let one : Config := ⟨front ++ q, frames, m⟩
      (∀ n, (∀ m', front.run room n m ≠ .finished m') →
        (both.run bound n).Agrees id (one.run bound n)) ∧
      ∀ n m', front.run room n m = .finished m' → ∀ k,
        (both.run bound (m'.steps - m.steps + (k + 1))).Agrees Machine.counted
          (one.run bound (m'.steps - m.steps + k))) := by
  refine ⟨fun hlimit v hcurrent hv hnested n => ?_, fun hlimit hcurrent n => ?_,
    ⟨fun p n m' h => guard_zero_of_finished h, fun c c' => Config.guard_zero_of_next c⟩,
    fun hlimit p c q t frames => ?_⟩
  · exact Config.agrees_unrolled hlimit hcurrent hv hnested n
  · rw [run, Config.run_of_next _ (Config.advance_loop_of_zero hlimit hcurrent)]
    exact Config.run_of_done _ ⟨rfl, rfl⟩ n
  · intro front room both one
    refine ⟨fun n hnot => Config.agrees_inside hnot (loop c t q) q, fun n m' h k => ?_⟩
    exact agrees_behind_loop hlimit h c q t k

/-- A loop that counts two down, and the same loop in front of another one, under a bound that
leaves room for one loop. -/
theorem loop_laws_countdown :
    let b : Program := .command .decrement none .nil
    let c : Program := .command .increment none .nil
    let q : Program := .command .output none .nil
    let m (v : Int) : Machine := { tape := ⟨#[v], 0⟩ }
    (m 2).tape.current? = some 2 ∧ (m 0).tape.current? = some 0 ∧
      (∀ n, ((loop b none .nil).run (some 1) n (m 2)).error? ≠ some .tooDeep) ∧
      ((loop b none .nil).run (some 1) 5 (m 2)).Agrees Machine.counted
        ((b ++ loop b none .nil).run (some 1) 4 (m 2)) ∧
      (loop b none .nil).run (some 1) 1 (m 0) = .finished (m 0).counted ∧
      (∃ m', (loop b none .nil).run (some 1) 5 (m 2) = .finished m' ∧
        m'.tape.current? = some 0) ∧
      ((loop b none (loop c none q)).run (some 1) 7 (m 2)).Agrees Machine.counted
        ((loop b none q).run (some 1) 6 (m 2)) := by
  intro b c q m
  have hcurrent : (m 2).tape.current? = some 2 := by decide
  have hzero : (m 0).tape.current? = some 0 := by decide
  have hended : ((loop b none .nil).run (some 1) 5 (m 2)).Ended := by decide
  have hnested : ∀ n, ((loop b none .nil).run (some 1) n (m 2)).error? ≠ some .tooDeep := by
    intro n
    rcases Nat.lt_or_ge n 5 with hn | hn
    · have hshort : ∀ n < 5, ((loop b none .nil).run (some 1) n (m 2)).error? ≠ some .tooDeep := by
        decide
      exact hshort n hn
    · rw [run, Config.run_of_ended _ hended hn]
      decide
  have hrun : (loop b none .nil).run (some 1) 5 (m 2) =
      .finished { m 0 with steps := 5 } := by decide
  obtain ⟨hunrolled, -, ⟨hguard, -⟩, hbehind⟩ := loop_laws (some 1) b none (m 2)
  obtain ⟨-, hskip, -⟩ := loop_laws (some 1) b none (m 0)
  exact ⟨hcurrent, hzero, hnested, hunrolled rfl 2 hcurrent (by decide) hnested 4,
    hskip rfl hzero 0, ⟨_, hrun, hguard .nil 5 _ hrun⟩,
    (hbehind rfl .nil c q none []).2 5 _ hrun 1⟩

end Program

end TapeLang
