import TapeLang.Proofs.Machine.Safety

/-!
# Runs on a larger tape

A run works relative to its pointer, so it neither sees nor touches cells that it does not come to.
Put more cells before and behind a tape (`Tape.embed`): every step does the same on the larger tape
as long as it does not fail at an edge of the smaller one that is no edge any more.

* `Config.advance_embed`: one step on both tapes.
* `Config.run_embed`: a run on both tapes.
* `Program.frame_law`: what the larger run does, also when the smaller one has met an edge.
-/

namespace TapeLang

/-! ## Embedding -/

/-- The tape with more cells before its own and behind them, and the pointer on the same cell. -/
def Tape.embed (left right : List Int) (t : Tape) : Tape :=
  ⟨left.toArray ++ t.cells ++ right.toArray, left.length + t.pointer⟩

/-- The error as it reads on the larger tape. -/
def RunError.embed (left right : List Int) : RunError → RunError
  | badCell value pointer => .badCell value (left.length + pointer)
  | offTape pointer size d =>
    .offTape (left.length + pointer) (left.length + size + right.length) d
  | e => e

/-- The machine on the larger tape. -/
def Machine.embed (left right : List Int) (m : Machine) : Machine :=
  { m with tape := m.tape.embed left right }

/-- The effect on the larger tape. -/
def Effect.embed (left right : List Int) : Effect → Effect
  | done m => .done (m.embed left right)
  | failed e m => .failed (e.embed left right) (m.embed left right)

/-- The configuration on the larger tape. -/
def Config.embed (left right : List Int) (c : Config) : Config :=
  c.onMachine (c.machine.embed left right)

/-- The step on the larger tape. -/
def Step.embed (left right : List Int) : Step → Step
  | finished m => .finished (m.embed left right)
  | next mark c => .next mark (c.embed left right)
  | failed e m => .failed (e.embed left right) (m.embed left right)

/-- The ending on the larger tape. -/
def Ending.embed (left right : List Int) : Ending → Ending
  | finished m => .finished (m.embed left right)
  | failed e m => .failed (e.embed left right) (m.embed left right)
  | unfinished c => .unfinished (c.embed left right)

/-- The error is one of an edge where the larger tape has more cells. -/
def RunError.Outgrown (left right : List Int) : RunError → Prop
  | offTape _ _ .left => left ≠ []
  | offTape _ _ .right => right ≠ []
  | _ => False

variable {left right : List Int}

/-! ## Tapes -/

namespace Tape

variable {t : Tape}

@[simp]
theorem size_embed : (t.embed left right).size = left.length + t.size + right.length := by
  simp [embed, size, Nat.add_assoc]

theorem InRange.embed (h : t.InRange) : (t.embed left right).InRange := by
  obtain ⟨hlow, hhigh⟩ := h
  rw [InRange, size_embed]
  simp only [Tape.embed]
  push_cast
  omega

/-- The pointer denotes the same cell, which is now further from the front. -/
theorem slot?_embed (h : t.InRange) :
    (t.embed left right).slot? = some (left.length + t.pointer.toNat) := by
  have hlow := h.1
  rw [slot?_of_inRange h.embed, Option.some.injEq]
  simp only [embed]
  omega

theorem current?_embed (h : t.InRange) : (t.embed left right).current? = t.current? := by
  have hlt : t.pointer.toNat < t.cells.size := by
    obtain ⟨hlow, hhigh⟩ := h
    rw [size] at hhigh
    omega
  rw [current?, current?, slot?_embed h, slot?_of_inRange h]
  simp [embed, hlt, Nat.lt_add_right]

theorem modify_embed {i : Nat} (hi : i < t.size) (f : Int → Int) :
    (t.embed left right).modify (left.length + i) f = (t.modify i f).embed left right := by
  rw [size] at hi
  simp only [modify, embed, mk.injEq, and_true]
  apply Array.ext
  · simp
  · intro j hj _
    simp only [Array.getElem_modify, Array.getElem_append]
    grind

theorem set_eq_modify (i : Nat) (v : Int) : t.set i v = t.modify i fun _ => v := by
  simp only [set, modify, mk.injEq, and_true]
  apply Array.ext
  · simp
  · intro j hj _
    rw [Array.getElem_modify, Array.getElem_setIfInBounds]

theorem set_embed {i : Nat} (hi : i < t.size) (v : Int) :
    (t.embed left right).set (left.length + i) v = (t.set i v).embed left right := by
  rw [set_eq_modify, set_eq_modify, modify_embed hi]

/-- A move that stays on the smaller tape is the same on the larger one. -/
theorem move_embed_ok {t' : Tape} {delta : Int} (h : t.move delta = .ok t') :
    (t.embed left right).move delta = .ok (t'.embed left right) := by
  obtain ⟨rfl, hrange⟩ := move_eq_ok_iff.1 h
  refine move_eq_ok_iff.2 ⟨?_, hrange.embed⟩
  simp [embed, Int.add_assoc]

/-- A move by one that fails does so on the larger tape too, if that ends at the same edge. -/
theorem move_embed_error (h : t.InRange) {delta : Int} (hdelta : delta = 1 ∨ delta = -1)
    {e : RunError} (hmove : t.move delta = .error e) (hedge : ¬ e.Outgrown left right) :
    (t.embed left right).move delta = .error (e.embed left right) := by
  obtain ⟨hlow, hhigh⟩ := h
  obtain ⟨hout, rfl⟩ := move_eq_error hmove
  -- A move by one can only miss the tape at the edge it goes to, and no cell was added there.
  have hsame : ¬ (0 ≤ (t.embed left right).pointer + delta ∧
      (t.embed left right).pointer + delta < (t.embed left right).size) := by
    rw [size_embed]
    simp only [embed]
    push_cast
    rcases hdelta with rfl | rfl
    · have hright : right = [] := by simpa [RunError.Outgrown, direction] using hedge
      simp only [hright, List.length_nil]
      omega
    · have hleft : left = [] := by simpa [RunError.Outgrown, direction] using hedge
      simp only [hleft, List.length_nil]
      omega
  rw [move, if_neg hsame, size_embed]
  rfl

end Tape

/-! ## Commands -/

namespace Machine

variable {m : Machine}

@[simp]
theorem output_embed : (m.embed left right).output = m.output := rfl

theorem tick_embed : (m.embed left right).tick = m.tick.embed left right := by
  cases hlimit : m.limit with
  | none => simp [tick, embed, hlimit, Effect.embed]
  | some l =>
    by_cases hover : l < (m.steps : Int) + 1
    · simp [tick, embed, hlimit, hover, Effect.embed, RunError.embed]
    · simp [tick, embed, hlimit, hover, Effect.embed]

theorem output_of_tick {m' : Machine} (h : m.tick = .done m') : m'.output = m.output := by
  rcases m.tick_cases with ⟨l, -, -, htick⟩ | htick
  · rw [htick] at h
    cases h
  · rw [htick] at h
    cases h
    rfl

theorem update_embed (h : m.tape.InRange) (f : Int → Int) :
    (m.embed left right).update f = (m.update f).embed left right := by
  have hlt : m.tape.pointer.toNat < m.tape.size := by
    obtain ⟨hlow, hhigh⟩ := h
    omega
  have hslot : (m.embed left right).tape.slot? = some (left.length + m.tape.pointer.toNat) :=
    Tape.slot?_embed h
  rw [update, update, hslot, Tape.slot?_of_inRange h]
  simp only [Effect.embed, embed, Tape.modify_embed hlt]

theorem assign_embed (h : m.tape.InRange) (v : Int) :
    (m.embed left right).assign v = (m.assign v).embed left right := by
  have hlt : m.tape.pointer.toNat < m.tape.size := by
    obtain ⟨hlow, hhigh⟩ := h
    omega
  have hslot : (m.embed left right).tape.slot? = some (left.length + m.tape.pointer.toNat) :=
    Tape.slot?_embed h
  rw [assign, assign, hslot, Tape.slot?_of_inRange h]
  simp only [Effect.embed, embed, Tape.set_embed hlt]

theorem write_embed (h : m.tape.InRange) :
    (m.embed left right).write = m.write.embed left right := by
  obtain ⟨v, hv⟩ := Tape.exists_current? h
  have hcurrent : (m.embed left right).tape.current? = some v :=
    (Tape.current?_embed h).trans hv
  rw [write, write, hcurrent, hv]
  dsimp only
  split <;> rfl

theorem takeLine_embed :
    (m.embed left right).takeLine = (m.takeLine.1, m.takeLine.2.embed left right) := by
  cases h : m.input <;> simp [takeLine, embed, record, h]

theorem move_embed (h : m.tape.InRange) {delta : Int} (hdelta : delta = 1 ∨ delta = -1)
    (hedge : ∀ e m', m.move delta = .failed e m' → ¬ e.Outgrown left right) :
    (m.embed left right).move delta = (m.move delta).embed left right := by
  rw [move, move]
  cases hmove : m.tape.move delta with
  | ok t =>
    have hlarge : (m.embed left right).tape.move delta = .ok (t.embed left right) :=
      Tape.move_embed_ok hmove
    rw [hlarge]
    rfl
  | error e =>
    have hlarge : (m.embed left right).tape.move delta = .error (e.embed left right) :=
      Tape.move_embed_error h hdelta hmove (hedge e m (by rw [move, hmove]))
    rw [hlarge]
    rfl

/-- A command does the same on the larger tape, unless it fails at an edge that is none there. -/
theorem perform_embed (h : m.tape.InRange) {d : Command}
    (hedge : ∀ e m', m.perform d = .failed e m' → ¬ e.Outgrown left right) :
    (m.embed left right).perform d = (m.perform d).embed left right := by
  cases d with
  | increment => exact update_embed h _
  | decrement => exact update_embed h _
  | right => exact move_embed h (Or.inl rfl) hedge
  | left => exact move_embed h (Or.inr rfl) hedge
  | output => exact write_embed h
  | input =>
    rw [perform, read, takeLine_embed]
    exact assign_embed (keepsRange_takeLine h).1 m.takeLine.1

end Machine

/-! ## Steps and runs -/

namespace Config

variable {bound : Option Nat} {c : Config}

theorem act_embed (h : c.machine.tape.InRange)
    (hedge : ∀ e m, c.act bound = .failed e m → ¬ e.Outgrown left right) :
    (c.embed left right).act bound = (c.act bound).embed left right := by
  obtain ⟨block, frames, m⟩ := c
  obtain ⟨v, hv⟩ := Tape.exists_current? h
  have hcurrent : (m.embed left right).tape.current? = some v :=
    (Tape.current?_embed h).trans hv
  cases block with
  | nil =>
    cases frames with
    | nil => rfl
    | cons f outer =>
      simp only [embed, onMachine, act, hv, hcurrent]
      split <;> rfl
  | command d s rest =>
    have hperform : (m.embed left right).perform d = (m.perform d).embed left right :=
      Machine.perform_embed h fun e m' hd => hedge e m' (by simp only [act, hd])
    simp only [embed, onMachine, act, hperform]
    cases m.perform d <;> rfl
  | loop b s rest =>
    -- Both tapes show the loop the same value.
    simp only [embed, onMachine, act, hv, hcurrent]
    split
    · rfl
    · split <;> rfl
  | foreign n rest => rfl

/-- A step does the same on the larger tape, unless it fails at an edge that is none there. -/
theorem advance_embed (h : c.machine.tape.InRange)
    (hedge : ∀ e m, c.advance bound = .failed e m → ¬ e.Outgrown left right) :
    (c.embed left right).advance bound = (c.advance bound).embed left right := by
  by_cases hdone : c.Done
  · rw [advance_of_done c hdone, advance_of_done (c.embed left right) hdone]
    rfl
  · have htick : (c.embed left right).machine.tick = c.machine.tick.embed left right :=
      Machine.tick_embed
    rw [advance_eq c bound hdone] at hedge ⊢
    rw [advance_eq (c.embed left right) bound hdone, htick]
    rcases c.machine.tick_cases with ⟨l, -, -, hm⟩ | hm
    · rw [hm]
      rfl
    · rw [hm] at hedge ⊢
      exact act_embed (c := c.onMachine c.machine.counted) h hedge

/-- A run does the same on the larger tape, unless it fails at an edge that is none there. -/
theorem run_embed (h : c.machine.tape.InRange) {n : Nat}
    (hedge : ∀ e, (c.run bound n).error? = some e → ¬ e.Outgrown left right) :
    (c.embed left right).run bound n = (c.run bound n).embed left right := by
  induction n generalizing c with
  | zero =>
    by_cases hdone : c.Done
    · rw [run_of_done c hdone, run_of_done (c.embed left right) hdone]
      rfl
    · rw [run_zero c hdone, run_zero (c.embed left right) hdone]
      rfl
  | succ n ih =>
    cases hc : c.advance bound with
    | finished m =>
      obtain ⟨hdone, -⟩ := (advance_eq_finished_iff c).1 hc
      rw [run_of_done c hdone, run_of_done (c.embed left right) hdone]
      rfl
    | failed e m =>
      rw [run_of_failed c hc] at hedge ⊢
      -- This is the error of the run, so it is none that the larger tape would not have.
      have hstep : (c.embed left right).advance bound = (c.advance bound).embed left right := by
        refine advance_embed h fun e' m' he => ?_
        rw [hc, Step.failed.injEq] at he
        exact he.1 ▸ hedge e rfl
      rw [hc] at hstep
      exact run_of_failed _ hstep n
    | next mark c' =>
      rw [run_of_next c hc] at hedge ⊢
      have hstep : (c.embed left right).advance bound = (c.advance bound).embed left right := by
        refine advance_embed h fun e' m' he => ?_
        rw [hc] at he
        cases he
      rw [hc] at hstep
      have hrange : c'.machine.tape.InRange := by
        have hkept : (c.advance bound).machine.tape.InRange := (c.keepsRange_advance h).1
        rwa [hc] at hkept
      exact (run_of_next _ hstep n).trans (ih hrange hedge)

/-- A run that fails at an edge comes to its failing step on the larger tape too, and when that step
has been counted there, the machine is the one that the failure has left behind. -/
theorem exists_embed_of_offTape (left right : List Int) (h : c.machine.tape.InRange) {n : Nat}
    {i : Int} {s : Nat} {d : Direction} {m : Machine}
    (hf : c.run bound n = .failed (.offTape i s d) m) :
    ∃ k c', k < n ∧ c.run bound k = .unfinished c' ∧
      (c.embed left right).run bound k = .unfinished (c'.embed left right) ∧
      (c'.embed left right).machine.tick = .done (m.embed left right) := by
  obtain ⟨k, c', hk, hrun, hstep⟩ := exists_step_of_failed c hf
  have hlarge : (c.embed left right).run bound k = (c.run bound k).embed left right := by
    refine run_embed h fun e he => ?_
    rw [hrun] at he
    cases he
  rw [hrun] at hlarge
  refine ⟨k, c', hk, hrun, hlarge, Machine.tick_embed.trans ?_⟩
  -- The step has not failed at the limit, so it was counted, and so it is on the larger tape.
  obtain ⟨hm, -⟩ := advance_failed (inRange_of_unfinished h hrun) hstep
  rcases c'.machine.tick_cases with ⟨l, -, -, htick⟩ | htick
  · rw [advance_eq c' bound (c.not_done_of_unfinished hrun), htick] at hstep
    cases hstep
  · rw [htick, hm]
    rfl

end Config

/-! ## Blank tapes -/

/-- A blank tape is a part of every larger one, and cells are missing only behind it. -/
theorem Tape.eq_embed_of_blank? {hasRoom hasRoom' : Nat → Bool} {size size' : Int} {t t' : Tape}
    (h : blank? hasRoom size = .ok t) (h' : blank? hasRoom' size' = .ok t') (hle : size ≤ size') :
    t' = t.embed [] (List.replicate (size' - size).toNat 0) := by
  obtain ⟨hpos, -, -, rfl⟩ := blank?_eq_ok_iff.1 h
  obtain ⟨-, -, -, rfl⟩ := blank?_eq_ok_iff.1 h'
  have hsize : size'.toNat = size.toNat + (size' - size).toNat := by omega
  simp [embed, hsize, Array.replicate_append_replicate]

namespace Program

/-- A run on a blank tape is the same on every larger one, unless it fails at an edge that is none
there. -/
theorem run_of_blank? {bound : Option Nat} {p : Program} {n : Nat} {m : Machine}
    {hasRoom hasRoom' : Nat → Bool} {size size' : Int} {t t' : Tape}
    (ht : Tape.blank? hasRoom size = .ok t) (ht' : Tape.blank? hasRoom' size' = .ok t')
    (hle : size ≤ size') (hedge : ∀ e, (p.run bound n { m with tape := t }).error? = some e →
      ¬ e.Outgrown [] (List.replicate (size' - size).toNat 0)) :
    p.run bound n { m with tape := t' } =
      (p.run bound n { m with tape := t }).embed [] (List.replicate (size' - size).toNat 0) := by
  rw [Tape.eq_embed_of_blank? ht ht' hle]
  exact Config.run_embed (c := ⟨p, [], { m with tape := t }⟩) (Tape.inRange_of_blank? ht) hedge

/-- A run that ends on a blank tape ends on every larger one, and writes the same. -/
theorem finished_of_blank? {bound : Option Nat} {p : Program} {n : Nat} {m m' : Machine}
    {hasRoom hasRoom' : Nat → Bool} {size size' : Int} {t t' : Tape}
    (ht : Tape.blank? hasRoom size = .ok t) (ht' : Tape.blank? hasRoom' size' = .ok t')
    (hle : size ≤ size')
    (h : p.run bound n { m with tape := t } = .finished m') :
    ∃ m₁, p.run bound n { m with tape := t' } = .finished m₁ ∧ m₁.output = m'.output := by
  have hlarge := run_of_blank? ht ht' hle fun e he => by
    rw [h] at he
    cases he
  rw [h] at hlarge
  exact ⟨_, hlarge, m'.output_embed⟩

/-- A run that meets a bad cell on a blank tape meets it on every larger one. -/
theorem badCell_of_blank? {bound : Option Nat} {p : Program} {n : Nat} {m m' : Machine} {v i : Int}
    {hasRoom hasRoom' : Nat → Bool} {size size' : Int} {t t' : Tape}
    (ht : Tape.blank? hasRoom size = .ok t) (ht' : Tape.blank? hasRoom' size' = .ok t')
    (hle : size ≤ size')
    (h : p.run bound n { m with tape := t } = .failed (.badCell v i) m') :
    ∃ m₁, p.run bound n { m with tape := t' } = .failed (.badCell v i) m₁ := by
  have hlarge := run_of_blank? ht ht' hle fun e he => by
    rw [h] at he
    cases he
    exact id
  rw [h] at hlarge
  exact ⟨_, by simpa [Ending.embed, RunError.embed] using hlarge⟩

/-- A run does not see or touch cells that it does not come to. If it does not fail at an edge, it
has the same outcome on the same tape with any cells before and behind it: the same output, input
and counter, the same cells in the same place, and the same error with the same value. If it fails
at an edge, the run on the larger tape comes to the machine that the failure has left behind, and
from there on only adds to its output. If cells are added behind the tape only, a failure at the
left edge stays the same too, but for the size of the tape that it tells; so it is with blank tapes
of different sizes. -/
theorem frame_law (bound : Option Nat) (p : Program) (m : Machine) (h : m.tape.InRange)
    (left right : List Int) :
    (∀ n, (∀ i s d, (p.run bound n m).error? ≠ some (.offTape i s d)) →
      p.run bound n (m.embed left right) = (p.run bound n m).embed left right) ∧
    (∀ n i s d m', p.run bound n m = .failed (.offTape i s d) m' →
      ∃ k c, k < n ∧ p.run bound k m = .unfinished c ∧
        p.run bound k (m.embed left right) = .unfinished (c.embed left right) ∧
        (c.embed left right).machine.tick = .done (m'.embed left right) ∧
        ∀ n', k ≤ n' → m'.output <+: (p.run bound n' (m.embed left right)).machine.output) ∧
    (∀ n, (∀ i s, (p.run bound n m).error? ≠ some (.offTape i s .right)) →
      p.run bound n (m.embed [] right) = (p.run bound n m).embed [] right) ∧
    ∀ (hasRoom : Nat → Bool) (size size' : Int) (t t' : Tape), Tape.blank? hasRoom size = .ok t →
      Tape.blank? hasRoom size' = .ok t' → size ≤ size' → ∀ n,
      (∀ i s, (p.run bound n { m with tape := t }).error? ≠ some (.offTape i s .right)) →
      p.run bound n { m with tape := t' } =
        (p.run bound n { m with tape := t }).embed []
          (List.replicate (size' - size).toNat 0) := by
  -- Behind the tape only the right edge moves.
  have hbehind : ∀ (m : Machine) (right : List Int), m.tape.InRange → ∀ n,
      (∀ i s, (p.run bound n m).error? ≠ some (.offTape i s .right)) →
      p.run bound n (m.embed [] right) = (p.run bound n m).embed [] right := by
    intro m right h n hedge
    refine Config.run_embed (c := ⟨p, [], m⟩) h fun e he houtgrown => ?_
    cases e with
    | offTape i s d =>
      cases d with
      | left => exact houtgrown rfl
      | right => exact hedge i s he
    | _ => exact houtgrown
  refine ⟨fun n hedge => ?_, fun n i s d m' hf => ?_, hbehind m right h,
    fun _ size size' t t' ht ht' hle n hedge => ?_⟩
  · refine Config.run_embed (c := ⟨p, [], m⟩) h fun e he houtgrown => ?_
    cases e with
    | offTape i s d => exact hedge i s d he
    | _ => exact houtgrown
  · obtain ⟨k, c, hk, hrun, hlarge, htick⟩ :=
      Config.exists_embed_of_offTape (c := ⟨p, [], m⟩) left right h hf
    refine ⟨k, c, hk, hrun, hlarge, htick, fun n' hn' => ?_⟩
    obtain ⟨j, rfl⟩ := Nat.exists_eq_add_of_le hn'
    have hlater := Config.run_add (Config.embed left right ⟨p, [], m⟩) bound k j
    rw [hlarge] at hlater
    have houtput : (m'.embed left right).output = (c.embed left right).machine.output :=
      Machine.output_of_tick htick
    change (m'.embed left right).output <+:
      ((Config.embed left right ⟨p, [], m⟩).run bound (k + j)).machine.output
    rw [hlater, houtput]
    exact (c.embed left right).output_run j
  · rw [Tape.eq_embed_of_blank? ht ht' hle]
    exact hbehind { m with tape := t } _ (Tape.inRange_of_blank? ht) n hedge

/-- A loop that empties the only cell empties it among other cells too; and a program that writes
and leaves that cell on the right writes no less where there is more on the right. -/
theorem frame_law_single_cell :
    let empty : Program := .loop (.command .decrement none .nil) none .nil
    let leave : Program := .ofCommands [.output, .right, .output]
    let m : Machine := { tape := ⟨#[1], 0⟩ }
    m.tape.InRange ∧
      (∀ i s d, (empty.run none 3 m).error? ≠ some (.offTape i s d)) ∧
      empty.run none 3 (m.embed [5] [6]) = .finished { tape := ⟨#[5, 0, 6], 1⟩, steps := 3 } ∧
      leave.run none 3 m = .failed (.offTape 0 1 .right) (leave.run none 3 m).machine ∧
      (leave.run none 3 m).machine.output <+:
        (leave.run none 3 (m.embed [5] [6])).machine.output := by
  intro empty leave m
  have hrange : m.tape.InRange := by decide
  have hempty : empty.run none 3 m = .finished { tape := ⟨#[0], 0⟩, steps := 3 } := by decide
  have hleave : leave.run none 3 m =
      .failed (.offTape 0 1 .right) (leave.run none 3 m).machine := by
    decide
  have hnone : ∀ i s d, (empty.run none 3 m).error? ≠ some (.offTape i s d) := by
    intro i s d
    rw [hempty]
    simp [Ending.error?]
  have hsame := (frame_law none empty m hrange [5] [6]).1 3 hnone
  obtain ⟨k, c, hk, -, -, -, hprefix⟩ :=
    (frame_law none leave m hrange [5] [6]).2.1 3 0 1 .right _ hleave
  refine ⟨hrange, hnone, ?_, hleave, hprefix 3 (Nat.le_of_lt hk)⟩
  rw [hsame, hempty]
  rfl

end Program

end TapeLang
