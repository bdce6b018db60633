import Mathlib.Algebra.BigOperators.Group.List.Basic
import Mathlib.Tactic.Ring
import TapeLang.Proofs.Evaluate
import TapeLang.Proofs.Machine.Safety
import TapeLang.Proofs.Machine.Walk

/-!
# Counting loops

Commands that only add and move change each cell by a number that does not depend on the tape: what
they add at the distance of this cell from where they start (`addedAt`). If they come back to where
they have started and count that cell down by one, a loop around them multiplies. Cells do not
wrap around, so it never ends if the cell is negative at the start.

* `Config.run_moving`: what such commands do to a tape, in closed form.
* `Config.run_turns`: what some number of turns of the loop does, and how many steps it takes.
* `Program.counting_loop`: the tape, the streams and the counter behind the loop, or that there is
  no such end.
-/

namespace TapeLang

/-! ## Commands that add and move -/

namespace Command

/-- How far a command moves the pointer. -/
def shift : Command → Int
  | right => 1
  | left => -1
  | increment | decrement | output | input => 0

/-- What a command adds to the current cell. -/
def amount : Command → Int
  | increment => 1
  | decrement => -1
  | right | left | output | input => 0

/-- Whether a command leaves the streams alone. -/
def isSilent : Command → Bool
  | increment | decrement | right | left => true
  | output | input => false

end Command

/-- How far commands in a row move the pointer. -/
def displacement (ds : List Command) : Int :=
  (ds.map Command.shift).sum

/-- What commands in a row add to the cell at a distance from where they start. -/
def addedAt : List Command → Int → Int
  | [], _ => 0
  | d :: ds, distance => (if distance = 0 then d.amount else 0) + addedAt ds (distance - d.shift)

@[simp]
theorem displacement_nil : displacement [] = 0 := rfl

@[simp]
theorem displacement_cons (d : Command) (ds : List Command) :
    displacement (d :: ds) = d.shift + displacement ds := by
  simp [displacement]

/-- Commands that only add and move, come back to where they have started, and count the cell there
down by one. -/
structure CountsDown (ds : List Command) : Prop where
  /-- The commands only add and move. -/
  silent : ∀ d ∈ ds, d.isSilent = true
  /-- The pointer comes back. -/
  back : displacement ds = 0
  /-- The cell at the start is counted down. -/
  down : addedAt ds 0 = -1

/-- Nothing is added where the commands do not come. -/
theorem addedAt_eq_zero {ds : List Command} {distance : Int}
    (h : ∀ before, before <+: ds → displacement before ≠ distance) : addedAt ds distance = 0 := by
  induction ds generalizing distance with
  | nil => rfl
  | cons d ds ih =>
    have hhere : distance ≠ 0 := fun heq => h [] List.nil_prefix heq.symm
    have hthere : addedAt ds (distance - d.shift) = 0 := ih fun before hbefore heq =>
      h (d :: before) ((List.prefix_cons_inj d).2 hbefore) (by rw [displacement_cons]; omega)
    rw [addedAt, if_neg hhere, hthere, Int.add_zero]

namespace Tape

variable {t : Tape} {d : Command} {ds : List Command}

/-- The pointer stays on the tape while it is moved by commands in a row. -/
def Holds (t : Tape) (ds : List Command) : Prop :=
  ∀ before, before <+: ds →
    0 ≤ t.pointer + displacement before ∧ t.pointer + displacement before < t.size

instance (t : Tape) (ds : List Command) : Decidable (t.Holds ds) :=
  decidable_of_iff (∀ before ∈ ds.inits,
    0 ≤ t.pointer + displacement before ∧ t.pointer + displacement before < t.size) <| by
    simp only [List.mem_inits, Holds]

/-- The tape with `n` times what some commands add, and the pointer as many cells away as said. -/
def grown (t : Tape) (ds : List Command) (n : Int) (delta : Int) : Tape :=
  ⟨t.cells.mapIdx fun j x => x + n * addedAt ds (j - t.pointer), t.pointer + delta⟩

@[simp]
theorem size_grown (n delta : Int) : (t.grown ds n delta).size = t.size :=
  Array.size_mapIdx

/-- A cell that has grown. -/
theorem getElem?_grown (n delta : Int) (j : Nat) :
    (t.grown ds n delta).cells[j]? =
      t.cells[j]?.map fun x => x + n * addedAt ds (j - t.pointer) := by
  simp [grown, Array.getElem?_mapIdx]

theorem InRange.grown (h : t.InRange) (n : Int) : (t.grown ds n 0).InRange := by
  simpa [InRange, Tape.grown, size] using h

/-- The current cell grows by what is added at no distance. -/
theorem current?_grown (h : t.InRange) (n : Int) :
    (t.grown ds n 0).current? = t.current?.map fun x => x + n * addedAt ds 0 := by
  have hpointer : (t.grown ds n 0).pointer = t.pointer := Int.add_zero t.pointer
  have hdistance : (t.pointer.toNat : Int) - t.pointer = 0 := by
    rw [Int.toNat_of_nonneg h.1, Int.sub_self]
  simp only [current?, slot?_of_inRange h, slot?_of_inRange (h.grown n), hpointer,
    getElem?_grown, hdistance]

/-- Commands that count down leave so much less in the current cell. -/
theorem current?_grown_of_countsDown (hds : CountsDown ds) (h : t.InRange) {v : Int}
    (hcurrent : t.current? = some v) (n : Nat) : (t.grown ds n 0).current? = some (v - n) := by
  rw [current?_grown h, hcurrent, hds.down, Option.map_some, Int.mul_neg_one]
  rfl

/-- If nothing is added, at most the pointer is another one. -/
theorem grown_eq_of_nothing {n : Int} (h : ∀ distance, n * addedAt ds distance = 0) (delta : Int) :
    t.grown ds n delta = { t with pointer := t.pointer + delta } := by
  obtain ⟨cells, pointer⟩ := t
  simp only [grown, h, Int.add_zero, mk.injEq, and_true]
  exact Array.ext_getElem? fun j => by simp [Array.getElem?_mapIdx]

/-- Before anything is added the tape is the one at the start. -/
theorem grown_zero (t : Tape) (ds : List Command) : t.grown ds 0 0 = t := by
  rw [grown_eq_of_nothing (fun _ => Int.zero_mul _), Int.add_zero]

/-- Once more is one time more, if the pointer comes back. -/
theorem grown_grown (n : Int) : (t.grown ds n 0).grown ds 1 0 = t.grown ds (n + 1) 0 := by
  obtain ⟨cells, pointer⟩ := t
  simp only [grown, Int.add_zero, mk.injEq, and_true]
  refine Array.ext_getElem? fun j => ?_
  simp only [Array.getElem?_mapIdx, Option.map_map]
  refine congrArg (fun f => Option.map f cells[j]?) (funext fun x => ?_)
  simp only [Function.comp]
  ring

/-- What a command does, and then what the others do, is what they all do. -/
theorem grown_cons (d : Command) (ds : List Command) :
    (t.grown [d] 1 d.shift).grown ds 1 (displacement ds) =
      t.grown (d :: ds) 1 (displacement (d :: ds)) := by
  obtain ⟨cells, pointer⟩ := t
  simp only [grown, displacement_cons, mk.injEq]
  refine ⟨Array.ext_getElem? fun j => ?_, by omega⟩
  simp only [Array.getElem?_mapIdx, Option.map_map]
  refine congrArg (fun f => Option.map f cells[j]?) (funext fun x => ?_)
  -- The commands behind the first one start where it leaves the pointer.
  have hstart : (j : Int) - (pointer + d.shift) = j - pointer - d.shift := by omega
  simp only [Function.comp, addedAt, hstart]
  ring

/-- Adding to the current cell is growing by a single command. -/
theorem modify_eq_grown (h : t.InRange) (hd : d.shift = 0) :
    t.modify t.pointer.toNat (· + d.amount) = t.grown [d] 1 d.shift := by
  obtain ⟨cells, pointer⟩ := t
  obtain ⟨hlow, -⟩ := h
  simp only [modify, grown, hd, Int.add_zero, mk.injEq, and_true]
  refine Array.ext_getElem? fun j => ?_
  rw [Array.getElem?_modify, Array.getElem?_mapIdx]
  have hhere : (j : Int) - pointer = 0 ↔ pointer.toNat = j := by
    change 0 ≤ pointer at hlow
    omega
  simp only [addedAt, hhere]
  split <;> simp

/-- Moving the pointer is growing by nothing. -/
theorem withPointer_eq_grown (hd : d.amount = 0) :
    { t with pointer := t.pointer + d.shift } = t.grown [d] 1 d.shift :=
  (grown_eq_of_nothing (fun _ => by simp [addedAt, hd]) d.shift).symm

theorem Holds.inRange (h : t.Holds ds) : t.InRange := by
  simpa [InRange] using h [] List.nil_prefix

theorem Holds.tail (h : t.Holds (d :: ds)) : (t.grown [d] 1 d.shift).Holds ds := by
  intro before hbefore
  have hall := h (d :: before) ((List.prefix_cons_inj d).2 hbefore)
  rw [displacement_cons] at hall
  rw [size_grown]
  simpa only [grown, Int.add_assoc] using hall

/-- A tape that has grown in place holds the commands that it held before. -/
theorem Holds.grown (h : t.Holds ds) (n : Int) : (t.grown ds n 0).Holds ds := by
  intro before hbefore
  simpa [Tape.grown, size] using h before hbefore

end Tape

namespace Machine

variable {m : Machine} {d : Command}

/-- The machine on another tape, some steps further. -/
def further (m : Machine) (tape : Tape) (n : Nat) : Machine :=
  { m with tape, steps := m.steps + n }

theorem further_further (tape tape' : Tape) (n n' : Nat) :
    (m.further tape n).further tape' n' = m.further tape' (n + n') := by
  simp [further, Nat.add_assoc]

/-- Without a limit a step is only counted. -/
theorem tick_further (hlimit : m.limit = none) : m.tick = .done (m.further m.tape 1) :=
  m.tick_of_unlimited hlimit

/-- A command that adds or moves does so. -/
theorem perform_moving (hd : d.isSilent = true) (h : m.tape.InRange)
    (hthere : 0 ≤ m.tape.pointer + d.shift ∧ m.tape.pointer + d.shift < m.tape.size) :
    m.perform d = .done (m.further (m.tape.grown [d] 1 d.shift) 0) := by
  cases d with
  | increment | decrement =>
    rw [← Tape.modify_eq_grown h rfl]
    simp only [perform, update, Tape.slot?_of_inRange h]
    rfl
  | right | left =>
    rw [← Tape.withPointer_eq_grown rfl]
    have hmove := Tape.move_eq_ok_iff.2 ⟨rfl, hthere⟩
    simp only [Command.shift] at hmove
    simp only [perform, move, hmove]
    rfl
  | output | input => simp [Command.isSilent] at hd

end Machine

namespace Config

variable {bound : Option Nat} {ds : List Command} {m : Machine} {rest : Program}
  {frames : List Frame} {s : Option Span}

/-- A command that adds or moves takes one step. -/
theorem advance_moving {d : Command} (hd : d.isSilent = true) (hlimit : m.limit = none)
    (h : m.tape.InRange)
    (hthere : 0 ≤ m.tape.pointer + d.shift ∧ m.tape.pointer + d.shift < m.tape.size) :
    advance bound ⟨.command d s rest, frames, m⟩ =
      .next (some (.command d)) ⟨rest, frames, m.further (m.tape.grown [d] 1 d.shift) 1⟩ := by
  have hperform := Machine.perform_moving (m := m.further m.tape 1) hd h hthere
  simp only [advance, Machine.tick_further hlimit, hperform]
  rfl

/-- Commands that add and move take a step each. -/
theorem run_moving (hsilent : ∀ d ∈ ds, d.isSilent = true) (hlimit : m.limit = none)
    (h : m.tape.Holds ds) (k : Nat) :
    run bound (ds.length + k) ⟨.ofCommands ds ++ rest, frames, m⟩ =
      run bound k
        ⟨rest, frames, m.further (m.tape.grown ds 1 (displacement ds)) ds.length⟩ := by
  induction ds generalizing m with
  | nil =>
    have hsame : m.tape.grown [] 1 0 = m.tape := by
      rw [Tape.grown_eq_of_nothing (fun _ => Int.mul_zero 1), Int.add_zero]
    rw [displacement_nil, hsame, List.length_nil, Nat.zero_add]
    rfl
  | cons d ds ih =>
    have hthere := h [d] (by simp)
    rw [displacement_cons, displacement_nil, Int.add_zero] at hthere
    -- The others start where the first command leaves the pointer, on the tape that it leaves.
    have hstep : advance bound ⟨.command d none (.ofCommands ds ++ rest), frames, m⟩ = _ :=
      advance_moving (hsilent d List.mem_cons_self) hlimit h.inRange hthere
    have hrest := ih (m := m.further (m.tape.grown [d] 1 d.shift) 1)
      (fun d' hd' => hsilent d' (List.mem_cons_of_mem d hd')) hlimit h.tail
    rw [List.length_cons, Nat.add_right_comm]
    refine (run_of_next _ hstep _).trans (hrest.trans ?_)
    rw [Machine.further_further, Nat.add_comm 1]
    exact congrArg (fun t => run bound k ⟨rest, frames, m.further t _⟩) (Tape.grown_cons d ds)

/-- A loop is entered if its guard is not zero and there is room for it. -/
theorem advance_enter {b : Program} (hlimit : m.limit = none)
    (hroom : ∀ n, bound = some n → frames.length < n) {v : Int}
    (hcurrent : m.tape.current? = some v) (hv : v ≠ 0) :
    advance bound ⟨.loop b s rest, frames, m⟩ =
      .next none ⟨b, ⟨b, rest⟩ :: frames, m.further m.tape 1⟩ := by
  rw [advance_loop_of_ne_zero hlimit hcurrent hv, isFull_eq_false hroom]
  rfl

/-- A loop is skipped if its guard is zero. -/
theorem advance_skip {b : Program} (hlimit : m.limit = none) (hcurrent : m.tape.current? = some 0) :
    advance bound ⟨.loop b s rest, frames, m⟩ =
      .next (some .loop) ⟨rest, frames, m.further m.tape 1⟩ :=
  advance_loop_of_zero hlimit hcurrent

/-- One turn of a loop. -/
theorem run_turn (hds : CountsDown ds) (hlimit : m.limit = none) (h : m.tape.Holds ds)
    (hroom : ∀ n, bound = some n → frames.length < n) {v : Int}
    (hcurrent : m.tape.current? = some v)
    (hv : v ≠ 0) (k : Nat) :
    run bound (ds.length + 1 + (k + 1)) ⟨.loop (.ofCommands ds) s rest, frames, m⟩ =
      run bound (k + 1) ⟨.loop (.ofCommands ds) s rest, frames,
        m.further (m.tape.grown ds 1 0) (ds.length + 1)⟩ := by
  have henter : advance bound ⟨.loop (.ofCommands ds) s rest, frames, m⟩ = _ :=
    advance_enter hlimit hroom hcurrent hv
  have hbody : run bound (ds.length + (k + 1)) ⟨.ofCommands ds ++ .nil,
      ⟨.ofCommands ds, rest⟩ :: frames, m.further m.tape 1⟩ = _ :=
    run_moving (m := m.further m.tape 1) hds.silent hlimit h (k + 1)
  rw [Program.append_nil, hds.back, Machine.further_further, Nat.add_comm 1] at hbody
  -- The test behind the body does what the loop does in front of it.
  have htest : advance bound ⟨.nil, ⟨.ofCommands ds, rest⟩ :: frames,
      m.further (m.tape.grown ds 1 0) (ds.length + 1)⟩ =
      advance bound ⟨.loop (.ofCommands ds) s rest, frames, _⟩ :=
    advance_end_of_body (isFull_eq_false hroom)
  have hfuel : ds.length + 1 + (k + 1) = ds.length + (k + 1) + 1 := by omega
  rw [hfuel, run_of_next _ henter, hbody]
  exact run_of_advance_eq htest k

/-- Some number of turns of a loop, as long as its guard does not become zero. -/
theorem run_turns (hds : CountsDown ds) (hlimit : m.limit = none) (h : m.tape.Holds ds)
    (hroom : ∀ n, bound = some n → frames.length < n) {v : Int}
    (hcurrent : m.tape.current? = some v)
    {n : Nat} (hv : ∀ i : Nat, i < n → v ≠ i) (k : Nat) :
    run bound (n * (ds.length + 1) + (k + 1)) ⟨.loop (.ofCommands ds) s rest, frames, m⟩ =
      run bound (k + 1) ⟨.loop (.ofCommands ds) s rest, frames,
        m.further (m.tape.grown ds n 0) (n * (ds.length + 1))⟩ := by
  induction n generalizing k with
  | zero =>
    rw [Nat.zero_mul, Nat.zero_add]
    exact congrArg (fun t => run bound (k + 1) ⟨_, frames, m.further t 0⟩)
      (Tape.grown_zero m.tape ds).symm
  | succ n ih =>
    have hfirst := ih (fun i hi => hv i (Nat.lt_succ_of_lt hi)) (ds.length + 1 + k)
    -- After `n` turns the guard has been counted down by `n`, and this is not yet zero.
    have hguard := Tape.current?_grown_of_countsDown hds h.inRange hcurrent n
    have hnot : v - n ≠ 0 := fun heq => hv n (Nat.lt_succ_self n) (by omega)
    have hlast : run bound (ds.length + 1 + (k + 1))
        ⟨.loop (.ofCommands ds) s rest, frames, _⟩ = _ :=
      run_turn (m := m.further (m.tape.grown ds n 0) (n * (ds.length + 1)))
        hds hlimit (h.grown n) hroom hguard hnot k
    have hfuel : (n + 1) * (ds.length + 1) + (k + 1) =
        n * (ds.length + 1) + (ds.length + 1 + k + 1) := by ring
    have hmachine : (m.further (m.tape.grown ds n 0) (n * (ds.length + 1))).further
        ((m.tape.grown ds n 0).grown ds 1 0) (ds.length + 1) =
        m.further (m.tape.grown ds (n + 1 : Nat) 0) ((n + 1) * (ds.length + 1)) := by
      rw [Machine.further_further, Tape.grown_grown, Nat.succ_mul]
      rfl
    rw [hfuel, hfirst]
    exact hlast.trans (congrArg (fun m => run bound (k + 1) ⟨_, frames, m⟩) hmachine)

/-- A program that ends without its places ends alike with them. -/
theorem run_of_bare {c : Config} {n : Nat} (h : c.bare.run bound n = .finished m) :
    c.run bound n = .finished m := by
  rw [run_bare] at h
  cases ho : c.run bound n with
  | finished m' =>
    rw [ho] at h
    exact h
  | failed e m' => simp [ho, Ending.map] at h
  | unfinished c' => simp [ho, Ending.map] at h

/-- A run has ended with the places of its program if and only if it has ended without them. -/
theorem ended_bare {c : Config} {n : Nat} : (c.bare.run bound n).Ended ↔ (c.run bound n).Ended := by
  rw [run_bare]
  cases c.run bound n <;> rfl

end Config

/-! ## The loop -/

namespace Program

variable {bound : Option Nat} {ds : List Command} {b : Program} {s : Option Span} {m : Machine}
  {v : Int}

theorem bare_loop (hb : b.bare = .ofCommands ds) :
    Config.bare ⟨loop b s .nil, [], m⟩ = ⟨loop (.ofCommands ds) none .nil, [], m⟩ := by
  rw [Config.bare, bare, hb]
  rfl

/-- A loop that counts down to zero ends there. -/
theorem run_countdown (hroom : ∀ n, bound = some n → 0 < n) (hds : CountsDown ds)
    (hb : b.bare = .ofCommands ds) (hlimit : m.limit = none) (h : m.tape.Holds ds) {n : Nat}
    (hcurrent : m.tape.current? = some (n : Int)) (k : Nat) :
    (loop b s .nil).run bound (n * (ds.length + 1) + (k + 1)) m =
      .finished (m.further (m.tape.grown ds n 0) (n * (ds.length + 1) + 1)) := by
  have hturns : Config.run bound (n * (ds.length + 1) + (k + 1))
      ⟨.loop (.ofCommands ds) none .nil, [], m⟩ = _ :=
    Config.run_turns hds hlimit h hroom hcurrent (fun i hi => by omega) k
  have hguard : (m.tape.grown ds n 0).current? = some 0 := by
    rw [Tape.current?_grown_of_countsDown hds h.inRange hcurrent, Int.sub_self]
  have hskip : Config.advance bound ⟨.loop (.ofCommands ds) none .nil, [],
      m.further (m.tape.grown ds n 0) (n * (ds.length + 1))⟩ = _ :=
    Config.advance_skip hlimit hguard
  rw [Config.run_of_next _ hskip, Config.run_of_done ⟨.nil, [], _⟩ ⟨rfl, rfl⟩,
    Machine.further_further] at hturns
  refine Config.run_of_bare ?_
  rw [bare_loop hb]
  exact hturns

/-- A loop whose guard is negative at the start is never left. -/
theorem not_ended_of_negative (hroom : ∀ n, bound = some n → 0 < n) (hds : CountsDown ds)
    (hb : b.bare = .ofCommands ds) (hlimit : m.limit = none) (h : m.tape.Holds ds)
    (hcurrent : m.tape.current? = some v) (hv : v < 0) (fuel : Nat) :
    ¬ ((loop b s .nil).run bound fuel m).Ended := by
  intro hended
  rw [run, ← Config.ended_bare, bare_loop hb] at hended
  have hturns : Config.run bound (fuel * (ds.length + 1) + (0 + 1))
      ⟨.loop (.ofCommands ds) none .nil, [], m⟩ = _ :=
    Config.run_turns hds hlimit h hroom hcurrent (fun i _ => by omega) 0
  have hguard := Tape.current?_grown_of_countsDown hds h.inRange hcurrent fuel
  have henter : Config.advance bound ⟨.loop (.ofCommands ds) none .nil, [],
      m.further (m.tape.grown ds fuel 0) (fuel * (ds.length + 1))⟩ = _ :=
    Config.advance_enter hlimit hroom hguard (by omega)
  rw [Config.run_of_next _ henter, Config.run_zero _ (by simp [Config.Done])] at hturns
  -- After as many turns as the run had steps it would have ended, but the loop is entered again.
  have hlong : fuel ≤ fuel * (ds.length + 1) + (0 + 1) :=
    (Nat.le_mul_of_pos_right fuel (Nat.succ_pos ds.length)).trans (Nat.le_add_right _ _)
  have hstill := Config.run_of_ended _ hended hlong
  rw [← hstill, hturns] at hended
  exact hended

/-- A loop around commands that only add and move, come back to where they have started, and count
that cell down by one. If the cell is not negative, the loop ends: the cell is zero, every other one
has grown by as many times what the commands add there as the cell said, and each turn has taken a
step for each command and one for the test. If the cell is negative, the loop exceeds every
limit. -/
theorem counting_loop (hbound : bound ≠ some 0) (hds : CountsDown ds)
    (hb : b.bare = .ofCommands ds) (s : Option Span) (hlimit : m.limit = none)
    (h : m.tape.Holds ds) (hcurrent : m.tape.current? = some v) :
    (0 ≤ v → ∃ m',
      (∀ fuel, 1 + v.toNat * (ds.length + 1) ≤ fuel →
        (loop b s .nil).run bound fuel m = .finished m') ∧
      (∀ fuel, fuel < 1 + v.toNat * (ds.length + 1) →
        ¬ ((loop b s .nil).run bound fuel m).Ended) ∧
      m'.steps = m.steps + (1 + v.toNat * (ds.length + 1)) ∧
      m'.input = m.input ∧ m'.events = m.events ∧ m'.tape.pointer = m.tape.pointer ∧
      (∀ j : Nat, m'.tape.cells[j]? = m.tape.cells[j]?.map fun x =>
        if j = m.tape.pointer then 0 else x + v * addedAt ds (j - m.tape.pointer)) ∧
      ∀ j : Nat, (∀ before, before <+: ds → m.tape.pointer + displacement before ≠ j) →
        m'.tape.cells[j]? = m.tape.cells[j]?) ∧
    (v < 0 → (∀ fuel, ¬ ((loop b s .nil).run bound fuel m).Ended) ∧
      ∀ (l : Int) (fuel : Nat), (l - m.steps).toNat < fuel → ∃ m',
        (loop b s .nil).run bound fuel (m.withLimit (some l)) = .failed (.stepLimit l) m') := by
  have hroom : ∀ n, bound = some n → 0 < n := fun n hn =>
    Nat.pos_of_ne_zero fun heq => hbound (heq ▸ hn)
  refine ⟨fun hv => ?_, fun hv => ?_⟩
  · obtain ⟨n, rfl⟩ := Int.eq_ofNat_of_zero_le hv
    rw [Int.toNat_natCast, Nat.add_comm 1]
    have hrun : ∀ fuel, n * (ds.length + 1) + 1 ≤ fuel → (loop b s .nil).run bound fuel m =
        .finished (m.further (m.tape.grown ds n 0) (n * (ds.length + 1) + 1)) := by
      intro fuel hle
      obtain ⟨k, rfl⟩ := Nat.exists_eq_add_of_le hle
      rw [Nat.add_assoc, Nat.add_comm 1]
      exact run_countdown hroom hds hb hlimit h hcurrent k
    have hexact : Config.EndsAfter bound ⟨loop b s .nil, [], m⟩ (n * (ds.length + 1) + 1) := by
      have hlast := hrun _ (Nat.le_refl _)
      rw [run] at hlast
      exact ⟨_, by rw [hlast]; trivial, by rw [hlast]; rfl⟩
    refine ⟨_, hrun, fun fuel hlt => hexact.not_ended hlt, rfl, rfl, rfl, Int.add_zero _,
      fun j => ?_, fun j hj => ?_⟩
    · refine (Tape.getElem?_grown (n : Int) 0 j).trans ?_
      by_cases hj : (j : Int) = m.tape.pointer
      -- The current cell has been as large as it has been counted down.
      · have hcell : m.tape.cells[j]? = some (n : Int) := by
          rw [← hcurrent, Tape.current?, Tape.slot?_of_inRange h.inRange, ← hj, Int.toNat_natCast]
        rw [hcell, hj, Int.sub_self, hds.down]
        simp
      · simp [hj]
    -- The pointer never comes to the cell, so nothing is added to it in any turn.
    · refine (Tape.getElem?_grown (n : Int) 0 j).trans ?_
      rw [addedAt_eq_zero (fun before hbefore heq => hj before hbefore (by omega))]
      simp
  · have hendless := not_ended_of_negative (s := s) hroom hds hb hlimit h hcurrent hv
    refine ⟨hendless, fun l fuel hfuel => ?_⟩
    obtain ⟨c, -, hcut⟩ := Config.cutOff_of_not_ended (c := ⟨loop b s .nil, [], m⟩) hlimit
      (hendless (l - m.steps).toNat)
    exact ⟨_, hcut fuel hfuel⟩

/-- A loop that moves twice the current cell to the next one, which takes nineteen steps if the cell
is three and never ends if it is negative. -/
theorem counting_loop_doubles :
    let ds : List Command := [.decrement, .right, .increment, .increment, .left]
    let p : Program := .loop (.ofCommands ds) none .nil
    let m (v : Int) : Machine := { tape := ⟨#[v, 1], 0⟩ }
    CountsDown ds ∧ (m 3).tape.Holds ds ∧ (m (-1)).tape.Holds ds ∧
      (∃ m', p.run (some 1) 19 (m 3) = .finished m' ∧ m'.steps = 19 ∧
        m'.tape.cells[0]? = some 0 ∧ m'.tape.cells[1]? = some 7) ∧
      (¬ (p.run (some 1) 18 (m 3)).Ended) ∧
      ∃ m', p.run (some 1) 100 ((m (-1)).withLimit (some 99)) = .failed (.stepLimit 99) m' := by
  intro ds p m
  have hds : CountsDown ds := ⟨by decide, by decide, by decide⟩
  have hb : (Program.ofCommands ds).bare = .ofCommands ds := rfl
  have hpositive : (m 3).tape.Holds ds := by decide
  have hnegative : (m (-1)).tape.Holds ds := by decide
  have hbound : some 1 ≠ some 0 := by decide
  obtain ⟨m', hrun, hshort, hsteps, -, -, -, hcells, -⟩ :=
    (counting_loop hbound hds hb none rfl hpositive (v := 3) (by decide)).1 (by decide)
  have hendless :=
    (counting_loop hbound hds hb none rfl hnegative (v := -1) (by decide)).2 (by decide)
  refine ⟨hds, hpositive, hnegative, ⟨m', hrun 19 (by decide), hsteps, ?_, ?_⟩,
    hshort 18 (by decide), hendless.2 99 100 (by decide)⟩
  · rw [hcells]
    decide
  · rw [hcells]
    decide

end Program

end TapeLang
