import Mathlib.Logic.Relation
import TapeLang.Program.Measure
import TapeLang.Proofs.Machine.Run

/-!
# From machine to machine

What a part of a program does, said without the rest of it: `p.Leads bound room m m'` says that the
program `p` takes the machine `m` to the machine `m'`, whatever follows it and whatever loops are
open around it, as long as `room` more of them may be open. The counter is left out of it, so this
is about runs without a limit.

* `Leads.append`: parts one after the other.
* `Leads.ofCommands`: commands in a row are judged by their effects.
* `Leads.loop_skip`, `Leads.loop_turn`: a loop is skipped, or its body runs and the loop is there
  again.
* `Leads.countdown`: a loop that counts a cell down.
* `Leads.run`: what a whole program leads to is where its run ends.

A part of a program may also end in an error, `p.Fails bound room m e m'`. It does so where a first
piece leads to a second one that fails (`Leads.append_fails`), inside of a loop (`Fails.loop_body`),
or in a later turn of one (`Fails.loop_turn`), and the run of the whole program fails alike
(`Fails.run`).
-/

namespace TapeLang

namespace Machine

/-- The effect of commands in a row, up to the first one that fails. -/
def performAll (m : Machine) : List Command → Effect
  | [] => .done m
  | d :: ds =>
    match m.perform d with
    | .done m' => m'.performAll ds
    | .failed e m' => .failed e m'

theorem performAll_append (m : Machine) (ds ds' : List Command) :
    m.performAll (ds ++ ds') =
      match m.performAll ds with
      | .done m' => m'.performAll ds'
      | .failed e m' => .failed e m' := by
  induction ds generalizing m with
  | nil => rfl
  | cons d ds ih =>
    rw [List.cons_append, performAll, performAll]
    cases m.perform d with
    | done m' => exact ih m'
    | failed e m' => rfl

end Machine

theorem isFull_eq_false {bound : Option Nat} {frames : List Frame}
    (h : ∀ n, bound = some n → frames.length < n) : isFull bound frames = false := by
  cases bound with
  | none => rfl
  | some n => simpa [isFull] using h n rfl

namespace Config

variable {bound : Option Nat} {c c' : Config}

/-- Some number of steps takes one configuration to another. -/
def Reaches (bound : Option Nat) : Config → Config → Prop :=
  Relation.ReflTransGen fun c c' => ∃ mark, c.advance bound = .next mark c'

theorem Reaches.exists_run (h : Reaches bound c c') :
    ∃ n, ∀ k, c.run bound (n + k) = c'.run bound k := by
  -- From the front, because a run takes its first step first.
  induction h using Relation.ReflTransGen.head_induction_on with
  | refl => exact ⟨0, fun k => by rw [Nat.zero_add]⟩
  | head hstep _ ih =>
    obtain ⟨mark, hstep⟩ := hstep
    obtain ⟨n, hrun⟩ := ih
    refine ⟨n + 1, fun k => ?_⟩
    rw [Nat.add_right_comm, run_of_next _ hstep, hrun]

/-- At the end of its body a loop is where it was before it, but for the room that it needed. -/
theorem advance_end_of_body {b rest : Program} {s : Option Span} {frames : List Frame} {m : Machine}
    (h : isFull bound frames = false) :
    advance bound ⟨.nil, ⟨b, rest⟩ :: frames, m⟩ = advance bound ⟨.loop b s rest, frames, m⟩ := by
  simp [advance, h]

/-- A loop with a cell that is not zero is entered, if there is room for it. -/
theorem reaches_body {b rest : Program} {s : Option Span} {frames : List Frame} {m : Machine}
    {v : Int} (hfull : isFull bound frames = false) (hcurrent : m.tape.current? = some v)
    (hv : v ≠ 0) (steps : Nat) :
    Reaches bound ⟨.loop b s rest, frames, m.withCounter steps none⟩
      ⟨b, ⟨b, rest⟩ :: frames, m.withCounter (steps + 1) none⟩ := by
  refine .single ⟨none, ?_⟩
  simp [advance, Machine.tick, Machine.withCounter, hcurrent, hv, hfull]

end Config

namespace Program

variable {bound : Option Nat} {room room' : Nat} {p q b : Program} {s : Option Span}
  {m m' m₁ m₂ : Machine}

/-- The program takes one machine to another, wherever it stands, if `room` more loops may be open
there. Only the counters of the machines do not matter. -/
def Leads (bound : Option Nat) (room : Nat) (p : Program) (m m' : Machine) : Prop :=
  ∀ (frames : List Frame) (rest : Program) (steps : Nat),
    (∀ n, bound = some n → frames.length + room ≤ n) →
    ∃ steps', Config.Reaches bound ⟨p ++ rest, frames, m.withCounter steps none⟩
      ⟨rest, frames, m'.withCounter steps' none⟩

namespace Leads

theorem nil : Leads bound room .nil m m :=
  fun _ _ steps _ => ⟨steps, .refl⟩

theorem append (hp : p.Leads bound room m m₁) (hq : q.Leads bound room m₁ m₂) :
    (p ++ q).Leads bound room m m₂ := by
  intro frames rest steps hroom
  obtain ⟨steps₁, hfirst⟩ := hp frames (q ++ rest) steps hroom
  obtain ⟨steps₂, hsecond⟩ := hq frames rest steps₁ hroom
  rw [append_assoc]
  exact ⟨steps₂, hfirst.trans hsecond⟩

theorem mono (h : p.Leads bound room m m') (hle : room ≤ room') : p.Leads bound room' m m' :=
  fun frames rest steps hroom =>
    h frames rest steps fun n hn => (Nat.add_le_add_left hle _).trans (hroom n hn)

theorem command {d : Command} (h : m.perform d = .done m') :
    (Program.command d s .nil).Leads bound room m m' := by
  intro frames rest steps _
  refine ⟨steps + 1, Relation.ReflTransGen.single ⟨some (.command d), ?_⟩⟩
  have hperform : (m.withCounter (steps + 1) none).perform d =
      .done (m'.withCounter (steps + 1) none) := by
    rw [Machine.perform_withCounter, h]
    rfl
  simp only [command_append, nil_append, Config.advance, Machine.tick, Machine.withCounter]
  simp only [Machine.withCounter] at hperform
  rw [hperform]

/-- Commands in a row lead to where their effects do. -/
theorem ofCommands {ds : List Command} (h : m.performAll ds = .done m') :
    (Program.ofCommands ds).Leads bound room m m' := by
  induction ds generalizing m with
  | nil =>
    cases h
    exact nil
  | cons d ds ih =>
    cases hd : m.perform d with
    | done m₁ =>
      rw [Machine.performAll, hd] at h
      exact append (command (s := none) hd) (ih h)
    | failed e m₁ => simp [Machine.performAll, hd] at h

/-- A loop is skipped if the current cell is zero. -/
theorem loop_skip (h : m.tape.current? = some 0) : (loop b s .nil).Leads bound room m m := by
  intro frames rest steps _
  refine ⟨steps + 1, Relation.ReflTransGen.single ⟨some .loop, ?_⟩⟩
  simp [Config.advance, Machine.tick, Machine.withCounter, h]

/-- If the current cell is not zero, the body of a loop runs, and then the loop does what it would
do if it were met there. -/
theorem through_body {v : Int} (hcurrent : m.tape.current? = some v) (hv : v ≠ 0)
    (hbody : b.Leads bound room m m₁) (s : Option Span) (frames : List Frame) (rest : Program)
    (steps : Nat) (hroom : ∀ n, bound = some n → frames.length + (room + 1) ≤ n) :
    ∃ steps₁ c, Config.Reaches bound ⟨loop b s rest, frames, m.withCounter steps none⟩ c ∧
      c.advance bound =
        Config.advance bound ⟨loop b s rest, frames, m₁.withCounter steps₁ none⟩ := by
  have hfull : isFull bound frames = false := isFull_eq_false fun n hn => by
    have hn := hroom n hn
    omega
  -- Inside of the loop one more is open, so the body has one less than the loop had room for.
  obtain ⟨steps₁, hthrough⟩ := hbody (⟨b, rest⟩ :: frames) .nil (steps + 1) fun n hn => by
    have hn := hroom n hn
    simp only [List.length_cons]
    omega
  rw [append_nil] at hthrough
  exact ⟨steps₁, _, (Config.reaches_body hfull hcurrent hv steps).trans hthrough,
    Config.advance_end_of_body hfull⟩

/-- A loop leads where it leads behind one turn. -/
theorem loop_turn {v : Int} (hcurrent : m.tape.current? = some v) (hv : v ≠ 0)
    (hbody : b.Leads bound room m m₁) (hloop : (loop b s .nil).Leads bound (room + 1) m₁ m₂) :
    (loop b s .nil).Leads bound (room + 1) m m₂ := by
  intro frames rest steps hroom
  obtain ⟨steps₁, c, hthrough, hsame⟩ :=
    hbody.through_body hcurrent hv s frames rest steps hroom
  obtain ⟨steps₂, hout⟩ := hloop frames rest steps₁ hroom
  refine ⟨steps₂, hthrough.trans ?_⟩
  rcases Relation.ReflTransGen.cases_head hout with hnone | ⟨c', ⟨mark, hstep⟩, hrest⟩
  -- The loop does not end without a step, since a block is never as long as its rest.
  · have hlength := congrArg (fun c => c.block.length) hnone
    simp [length] at hlength
  · exact .head ⟨mark, hsame.trans hstep⟩ hrest

/-- A loop whose body counts the current cell down by one turns as often as this cell says. -/
theorem countdown (f : Nat → Machine) (hcurrent : ∀ k, (f k).tape.current? = some (k : Int))
    (hbody : ∀ k, b.Leads bound room (f (k + 1)) (f k)) (k : Nat) :
    (loop b s .nil).Leads bound (room + 1) (f k) (f 0) := by
  induction k with
  | zero => exact loop_skip (hcurrent 0)
  | succ k ih => exact loop_turn (hcurrent (k + 1)) (by omega) (hbody k) ih

/-- A run without a limit ends where its program leads. -/
theorem run (h : p.Leads bound room m m') (hroom : ∀ n, bound = some n → room ≤ n)
    (hlimit : m.limit = none) :
    ∃ n steps, ∀ k, n ≤ k → p.run bound k m = .finished (m'.withCounter steps none) := by
  obtain ⟨steps, hreaches⟩ := h [] .nil m.steps (by simpa using hroom)
  obtain ⟨n, hrun⟩ := hreaches.exists_run
  refine ⟨n, steps, fun k hk => ?_⟩
  obtain ⟨j, rfl⟩ := Nat.exists_eq_add_of_le hk
  have hm : m.withCounter m.steps none = m := by rw [← hlimit]; rfl
  rw [append_nil, hm] at hrun
  exact (hrun j).trans (Config.run_of_done _ ⟨rfl, rfl⟩ j)

end Leads

/-! ## Failing -/

/-- The program fails with this error, wherever it stands, if `room` more loops may be open there,
and leaves this machine behind. Only the counters of the machines do not matter. -/
def Fails (bound : Option Nat) (room : Nat) (p : Program) (m : Machine) (e : RunError)
    (m' : Machine) : Prop :=
  ∀ (frames : List Frame) (rest : Program) (steps : Nat),
    (∀ n, bound = some n → frames.length + room ≤ n) →
    ∃ c steps', Config.Reaches bound ⟨p ++ rest, frames, m.withCounter steps none⟩ c ∧
      c.advance bound = .failed e (m'.withCounter steps' none)

variable {e : RunError}

/-- What fails behind a part that leads there makes the whole fail. -/
theorem Leads.append_fails (hp : p.Leads bound room m m₁) (hq : q.Fails bound room m₁ e m₂) :
    (p ++ q).Fails bound room m e m₂ := by
  intro frames rest steps hroom
  obtain ⟨steps₁, hfirst⟩ := hp frames (q ++ rest) steps hroom
  obtain ⟨c, steps₂, hsecond, hfail⟩ := hq frames rest steps₁ hroom
  rw [append_assoc]
  exact ⟨c, steps₂, hfirst.trans hsecond, hfail⟩

namespace Fails

/-- Behind a part that fails nothing is run any more. -/
theorem append (hp : p.Fails bound room m e m') (q : Program) :
    (p ++ q).Fails bound room m e m' := by
  intro frames rest steps hroom
  rw [append_assoc]
  exact hp frames (q ++ rest) steps hroom

theorem command {d : Command} (h : m.perform d = .failed e m') :
    (Program.command d s .nil).Fails bound room m e m' := by
  intro frames rest steps _
  have hperform : (m.withCounter (steps + 1) none).perform d =
      .failed e (m'.withCounter (steps + 1) none) := by
    rw [Machine.perform_withCounter, h]
    rfl
  refine ⟨_, steps + 1, .refl, ?_⟩
  simp only [command_append, nil_append, Config.advance, Machine.tick, Machine.withCounter]
  simp only [Machine.withCounter] at hperform
  rw [hperform]

/-- A loop fails if it is entered and its body fails. -/
theorem loop_body {v : Int} (hcurrent : m.tape.current? = some v) (hv : v ≠ 0)
    (hbody : b.Fails bound room m e m') : (loop b s .nil).Fails bound (room + 1) m e m' := by
  intro frames rest steps hroom
  have hfull : isFull bound frames = false := isFull_eq_false fun n hn => by
    have hn := hroom n hn
    omega
  obtain ⟨c, steps', hthrough, hfail⟩ :=
    hbody (⟨b, rest⟩ :: frames) .nil (steps + 1) fun n hn => by
      have hn := hroom n hn
      simp only [List.length_cons]
      omega
  rw [append_nil] at hthrough
  exact ⟨c, steps', (Config.reaches_body hfull hcurrent hv steps).trans hthrough, hfail⟩

/-- A loop fails if it fails behind one turn. -/
theorem loop_turn {v : Int} (hcurrent : m.tape.current? = some v) (hv : v ≠ 0)
    (hbody : b.Leads bound room m m₁) (hloop : (loop b s .nil).Fails bound (room + 1) m₁ e m₂) :
    (loop b s .nil).Fails bound (room + 1) m e m₂ := by
  intro frames rest steps hroom
  obtain ⟨steps₁, c, hthrough, hsame⟩ :=
    hbody.through_body hcurrent hv s frames rest steps hroom
  obtain ⟨c', steps₂, hout, hfail⟩ := hloop frames rest steps₁ hroom
  rcases Relation.ReflTransGen.cases_head hout with rfl | ⟨c₁, ⟨mark, hstep⟩, hrest⟩
  -- The failing step may be the very test of the loop.
  · exact ⟨c, steps₂, hthrough, hsame.trans hfail⟩
  · have hturn : Config.Reaches bound c c' := .head ⟨mark, hsame.trans hstep⟩ hrest
    exact ⟨c', steps₂, hthrough.trans hturn, hfail⟩

/-- A run without a limit fails as its program does. -/
theorem run (h : p.Fails bound room m e m') (hroom : ∀ n, bound = some n → room ≤ n)
    (hlimit : m.limit = none) :
    ∃ n steps, ∀ k, n ≤ k → p.run bound k m = .failed e (m'.withCounter steps none) := by
  obtain ⟨c, steps, hreaches, hfail⟩ := h [] .nil m.steps (by simpa using hroom)
  obtain ⟨n, hrun⟩ := hreaches.exists_run
  refine ⟨n + 1, steps, fun k hk => ?_⟩
  obtain ⟨j, rfl⟩ := Nat.exists_eq_add_of_le hk
  have hm : m.withCounter m.steps none = m := by rw [← hlimit]; rfl
  rw [append_nil, hm] at hrun
  rw [Nat.add_assoc, Nat.add_comm 1 j]
  exact (hrun (j + 1)).trans (Config.run_of_failed _ hfail j)

end Fails

end Program

end TapeLang
