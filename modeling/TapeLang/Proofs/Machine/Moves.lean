import TapeLang.Proofs.Machine.OutOfRange

/-!
# Moves by many cells

A move by any number of cells is checked once, at its target; the same way done by commands is
checked at every cell. Both ask for the same: that there is room between the pointer and the last
cell in the direction of the move (`Tape.room`).

* `Tape.move_eq`: a move succeeds just if it is no longer than the room.
* `Config.advance_unit`: a command that moves takes one cell of the room, or stops at the edge.
* `Program.run_units`: such commands in a row, by induction on their number.
* `Program.unit_moves_agree`: the two ways compared, and moves one after the other.
-/

namespace TapeLang

/-! ## Directions -/

namespace Direction

/-- The command that moves in a direction. -/
def command : Direction → Command
  | left => .left
  | right => .right

/-- By how much the pointer changes on the way to the next cell in a direction. -/
def unit (dir : Direction) : Int :=
  dir.command.shift

/-- Moves by some cells in a direction are moves in this direction. -/
theorem direction_unit_mul (dir : Direction) {k : Nat} (hk : 0 < k) :
    Tape.direction (dir.unit * k) = dir := by
  cases dir with
  | left =>
    simp only [unit, command, Command.shift]
    exact if_neg (by omega)
  | right =>
    simp only [unit, command, Command.shift]
    exact if_pos (by omega)

/-- A move goes as many cells as its amount says, in its direction. -/
theorem unit_mul_natAbs (delta : Int) : (Tape.direction delta).unit * delta.natAbs = delta := by
  unfold Tape.direction
  split
  · simp only [unit, command, Command.shift]
    omega
  · simp only [unit, command, Command.shift]
    omega

end Direction

/-! ## Room -/

namespace Tape

variable {t t' t'' : Tape} {dir : Direction}

/-- The position of the last cell in a direction. -/
def edge (t : Tape) : Direction → Int
  | .left => 0
  | .right => t.size - 1

/-- The number of cells between the pointer and the edge in a direction. -/
def room (t : Tape) : Direction → Nat
  | .left => t.pointer.toNat
  | .right => (t.size - 1 - t.pointer).toNat

/-- Behind all of its room the pointer is at the edge. -/
theorem pointer_add_room (h : t.InRange) (dir : Direction) :
    t.pointer + dir.unit * t.room dir = t.edge dir := by
  obtain ⟨hlow, hhigh⟩ := h
  cases dir with
  | left =>
    simp only [Direction.unit, Direction.command, Command.shift, room, edge]
    omega
  | right =>
    simp only [Direction.unit, Direction.command, Command.shift, room, edge]
    omega

/-- Without room the pointer is at the edge already. -/
theorem edge_eq_pointer (h : t.InRange) (hroom : ¬ 1 ≤ t.room dir) : t.edge dir = t.pointer := by
  have hedge := pointer_add_room h dir
  rw [Nat.lt_one_iff.1 (not_le.1 hroom), Nat.cast_zero, Int.mul_zero, Int.add_zero] at hedge
  exact hedge.symm

/-- Some cells further the pointer is on the tape just if there was room for them. -/
theorem inRange_pointedAt_iff (h : t.InRange) (dir : Direction) (k : Nat) :
    (t.pointedAt (t.pointer + dir.unit * k)).InRange ↔ k ≤ t.room dir := by
  obtain ⟨hlow, hhigh⟩ := h
  have hsize : (t.pointedAt (t.pointer + dir.unit * k)).size = t.size := rfl
  rw [InRange, hsize]
  cases dir with
  | left =>
    simp only [pointedAt, Direction.unit, Direction.command, Command.shift, room]
    omega
  | right =>
    simp only [pointedAt, Direction.unit, Direction.command, Command.shift, room]
    omega

/-- One cell further there is room for one cell less. -/
theorem room_pointedAt (h : t.InRange) (hroom : 1 ≤ t.room dir) :
    (t.pointedAt (t.pointer + dir.unit)).room dir + 1 = t.room dir := by
  obtain ⟨hlow, hhigh⟩ := h
  have hsize : (t.pointedAt (t.pointer + dir.unit)).size = t.size := rfl
  cases dir with
  | left =>
    simp only [pointedAt, Direction.unit, Direction.command, Command.shift, room] at hroom ⊢
    omega
  | right =>
    simp only [room, hsize] at hroom ⊢
    simp only [pointedAt, Direction.unit, Direction.command, Command.shift]
    omega

/-- A move succeeds just if it goes no further than there is room. -/
theorem move_eq (h : t.InRange) (dir : Direction) (k : Nat) :
    t.move (dir.unit * k) =
      if k ≤ t.room dir then .ok (t.pointedAt (t.pointer + dir.unit * k))
      else .error (.offTape t.pointer t.size dir) := by
  have htarget : (0 ≤ t.pointer + dir.unit * k ∧ t.pointer + dir.unit * k < t.size) ↔
      k ≤ t.room dir := inRange_pointedAt_iff h dir k
  unfold move
  by_cases hk : k ≤ t.room dir
  · rw [if_pos (htarget.2 hk), if_pos hk]
    rfl
  · have hpos : 0 < k := Nat.zero_lt_of_lt (not_le.1 hk)
    rw [if_neg (mt htarget.1 hk), if_neg hk, dir.direction_unit_mul hpos]

/-- Two moves that succeed are one move by both amounts. -/
theorem move_add {a b : Int} (h : t.move a = .ok t') (h' : t'.move b = .ok t'') :
    t.move (a + b) = .ok t'' := by
  -- Only targets are checked, and the last target is the same.
  obtain ⟨rfl, -⟩ := move_eq_ok_iff.1 h
  obtain ⟨rfl, hrange⟩ := move_eq_ok_iff.1 h'
  exact move_eq_ok_iff.2 ⟨by rw [Int.add_assoc], hrange⟩

/-- A move that succeeds is taken back by the opposite move. -/
theorem move_neg (hrange : t.InRange) {delta : Int} (h : t.move delta = .ok t') :
    t'.move (-delta) = .ok t := by
  obtain ⟨rfl, -⟩ := move_eq_ok_iff.1 h
  -- The target of the way back is where the pointer was, so it is on the tape by assumption.
  refine move_eq_ok_iff.2 ⟨?_, hrange⟩
  rw [Int.add_neg_cancel_right]

end Tape

/-! ## Commands in a row -/

theorem Machine.move_eq_done_iff {m m' : Machine} {delta : Int} :
    m.move delta = .done m' ↔ ∃ t, m.tape.move delta = .ok t ∧ m' = { m with tape := t } := by
  unfold move
  cases hmove : m.tape.move delta with
  | ok t => simp [eq_comm]
  | error e => simp

/-- A command that moves takes one cell of the room. If there is none, it fails at the edge. -/
theorem Config.advance_unit (bound : Option Nat) {m : Machine} (h : m.tape.InRange)
    (htick : m.tick = .done m.counted) (dir : Direction) (s : Option Span) (rest : Program)
    (frames : List Frame) :
    advance bound ⟨.command dir.command s rest, frames, m⟩ =
      if 1 ≤ m.tape.room dir then
        .next (some (.command dir.command))
          ⟨rest, frames, m.further (m.tape.pointedAt (m.tape.pointer + dir.unit)) 1⟩
      else .failed (.offTape (m.tape.edge dir) m.tape.size dir) m.counted := by
  have hshift : dir.command.shift ≠ 0 := by
    cases dir <;> decide
  have hmove := Tape.move_eq h dir 1
  rw [Nat.cast_one, Int.mul_one] at hmove
  rw [advance_of_tick _ (by simp [Done]) htick]
  simp only [onMachine, act, Machine.perform_of_shift m.counted hshift, Machine.move]
  rw [show m.counted.tape.move dir.command.shift = _ from hmove]
  by_cases hroom : 1 ≤ m.tape.room dir
  · rw [if_pos hroom, if_pos hroom]
    rfl
  · rw [if_neg hroom, if_neg hroom, Tape.edge_eq_pointer h hroom]

namespace Program

variable {bound : Option Nat} {m : Machine}

/-- The move by an amount, done by commands. -/
def unitMoves (delta : Int) : Program :=
  .ofCommands (List.replicate delta.natAbs (Tape.direction delta).command)

/-- Commands that move, one after the other. They succeed if there is room for all of them, and
otherwise the pointer comes to the edge, and the next of them fails there. -/
theorem run_units (bound : Option Nat) (h : m.tape.InRange) (dir : Direction) {k : Nat}
    (hlimit : ∀ l, m.limit = some l → (m.steps : Int) + k ≤ l) (n : Nat) :
    (ofCommands (List.replicate k dir.command)).run bound (k + n) m =
      if k ≤ m.tape.room dir then
        .finished (m.further (m.tape.pointedAt (m.tape.pointer + dir.unit * k)) k)
      else .failed (.offTape (m.tape.edge dir) m.tape.size dir)
        (m.further (m.tape.pointedAt (m.tape.edge dir)) (m.tape.room dir + 1)) := by
  -- The first command changes the machine, and with it the room that the others have.
  induction k generalizing m with
  | zero =>
    rw [if_pos (Nat.zero_le _), Nat.cast_zero, Int.mul_zero, Int.add_zero]
    exact Config.run_of_done _ ⟨rfl, rfl⟩ _
  | succ k ih =>
    have htick : m.tick = .done m.counted := m.tick_eq_done fun l hl => by
      have hl := hlimit l hl
      omega
    have hstep := Config.advance_unit bound h htick dir none
      (ofCommands (List.replicate k dir.command)) []
    rw [Nat.add_right_comm]
    by_cases hroom : 1 ≤ m.tape.room dir
    · rw [if_pos hroom] at hstep
      -- The others start one cell further, with one cell less before them.
      let m' := m.further (m.tape.pointedAt (m.tape.pointer + dir.unit)) 1
      have hrange : m'.tape.InRange := by
        have htarget := (Tape.inRange_pointedAt_iff h dir 1).2 hroom
        rwa [Nat.cast_one, Int.mul_one] at htarget
      have hleft : m'.tape.room dir + 1 = m.tape.room dir := Tape.room_pointedAt h hroom
      have hedge : m'.tape.edge dir = m.tape.edge dir := by
        cases dir <;> rfl
      have hrest := ih (m := m') hrange fun l hl => by
        have hl := hlimit l hl
        have hsteps : m'.steps = m.steps + 1 := rfl
        omega
      refine (Config.run_of_next _ hstep _).trans (hrest.trans ?_)
      rw [← hleft, hedge]
      by_cases hk : k ≤ m'.tape.room dir
      · have hpointer : m.tape.pointer + dir.unit + dir.unit * k =
            m.tape.pointer + dir.unit * (k + 1 : Nat) := by
          push_cast
          ring
        rw [if_pos hk, if_pos (Nat.succ_le_succ hk), Machine.further_further, Nat.add_comm 1]
        exact congrArg (fun i => Ending.finished (m.further (m.tape.pointedAt i) (k + 1))) hpointer
      · rw [if_neg hk, if_neg (mt Nat.le_of_succ_le_succ hk), Machine.further_further,
          Nat.add_comm 1]
        rfl
    -- The pointer is at the edge, where already the first command fails.
    · rw [if_neg hroom] at hstep
      rw [if_neg fun hk => hroom (Nat.le_of_add_left_le hk), Nat.lt_one_iff.1 (not_le.1 hroom),
        Tape.edge_eq_pointer h hroom]
      rw [Tape.edge_eq_pointer h hroom] at hstep
      exact Config.run_of_failed _ hstep _

/-- A run stands where a move by an amount would, but for the steps that it has counted. -/
structure MovesAlike (m : Machine) (delta : Int) (ending : Ending) : Prop where
  /-- The move succeeds just if the run does. -/
  succeeds_iff : (∃ m', m.move delta = .done m') ↔ ∃ m', ending = .finished m'
  /-- If they succeed, both have moved the pointer by the amount, and left all else as it was. -/
  done : ∀ m', m.move delta = .done m' →
    m' = { m with tape := ⟨m.tape.cells, m.tape.pointer + delta⟩ } ∧
      ending = .finished { m' with steps := m.steps + delta.natAbs }
  /-- If they fail, the move has changed nothing and names the pointer as it was, while the run has
  come to the last cell in its direction and names that. The direction and the size of the tape are
  the same in both errors. -/
  failed : ∀ e m', m.move delta = .failed e m' →
    m' = m ∧ e = .offTape m.tape.pointer m.tape.size (Tape.direction delta) ∧
      ∃ m'', ending =
          .failed (.offTape m''.tape.pointer m.tape.size (Tape.direction delta)) m'' ∧
        m''.tape = ⟨m.tape.cells, if 0 < delta then m.tape.size - 1 else 0⟩ ∧
        m''.input = m.input ∧ m''.events = m.events

/-- The moves of a run by an amount, which the limit allows. -/
theorem movesAlike_run (h : m.tape.InRange) {delta : Int}
    (hlimit : ∀ l, m.limit = some l → (m.steps : Int) + delta.natAbs ≤ l) {n : Nat}
    (hn : delta.natAbs ≤ n) : MovesAlike m delta ((unitMoves delta).run bound n m) := by
  let dir := Tape.direction delta
  have hdelta : dir.unit * delta.natAbs = delta := Direction.unit_mul_natAbs delta
  have hedge : m.tape.edge dir = if 0 < delta then (m.tape.size : Int) - 1 else 0 := by
    show m.tape.edge (Tape.direction delta) = _
    unfold Tape.direction
    split <;> rfl
  -- Both the move and the run are told by whether there is room for the amount.
  have hmove := Tape.move_eq h dir delta.natAbs
  obtain ⟨k, rfl⟩ := Nat.exists_eq_add_of_le hn
  have hrun := run_units bound h dir hlimit k
  rw [hdelta] at hmove hrun
  rw [show (unitMoves delta).run bound (delta.natAbs + k) m = _ from hrun]
  by_cases hroom : delta.natAbs ≤ m.tape.room dir
  · rw [if_pos hroom] at hmove ⊢
    have hdone : m.move delta =
        .done { m with tape := m.tape.pointedAt (m.tape.pointer + delta) } := by
      rw [Machine.move, hmove]
    refine ⟨iff_of_true ⟨_, hdone⟩ ⟨_, rfl⟩, fun m' hm' => ?_, fun e m' hm' => ?_⟩
    · cases hdone.symm.trans hm'
      exact ⟨rfl, rfl⟩
    · cases hdone.symm.trans hm'
  · rw [if_neg hroom] at hmove ⊢
    have hfailed : m.move delta = .failed (.offTape m.tape.pointer m.tape.size dir) m := by
      rw [Machine.move, hmove]
    refine ⟨iff_of_false ?_ ?_, fun m' hm' => ?_, fun e m' hm' => ?_⟩
    · rintro ⟨m', hm'⟩
      cases hfailed.symm.trans hm'
    · rintro ⟨m', hm'⟩
      cases hm'
    · cases hfailed.symm.trans hm'
    · cases hfailed.symm.trans hm'
      have htape : m.tape.pointedAt (m.tape.edge dir) =
          ⟨m.tape.cells, if 0 < delta then m.tape.size - 1 else 0⟩ := by
        rw [hedge]
        rfl
      exact ⟨rfl, rfl, m.further (m.tape.pointedAt (m.tape.edge dir)) (m.tape.room dir + 1), rfl,
        htape, rfl, rfl⟩

/-- A move by any amount agrees with as many moves by one cell. They succeed alike and lead to the
same tape; if they fail, the move leaves everything as it was, and the others stop at the edge. Two
moves that succeed are one move by both amounts, and a move that succeeds is taken back by the
opposite one. -/
theorem unit_moves_agree {m : Machine} (h : m.tape.InRange) :
    (∀ (bound : Option Nat) (delta : Int) (n : Nat),
      (∀ l, m.limit = some l → (m.steps : Int) + delta.natAbs ≤ l) → delta.natAbs ≤ n →
      MovesAlike m delta ((unitMoves delta).run bound n m)) ∧
    (∀ a b m₁ m₂, m.move a = .done m₁ → m₁.move b = .done m₂ → m.move (a + b) = .done m₂) ∧
    ∀ a m₁, m.move a = .done m₁ → m₁.move (-a) = .done m := by
  refine ⟨fun bound delta n hlimit hn => movesAlike_run h hlimit hn, fun a b m₁ m₂ ha hb => ?_,
    fun a m₁ ha => ?_⟩
  · obtain ⟨t₁, hfirst, rfl⟩ := Machine.move_eq_done_iff.1 ha
    obtain ⟨t₂, hsecond, rfl⟩ := Machine.move_eq_done_iff.1 hb
    exact Machine.move_eq_done_iff.2 ⟨t₂, Tape.move_add hfirst hsecond, rfl⟩
  · obtain ⟨t₁, hfirst, rfl⟩ := Machine.move_eq_done_iff.1 ha
    exact Machine.move_eq_done_iff.2 ⟨m.tape, Tape.move_neg h hfirst, rfl⟩

/-- From the middle of three cells there is room for one cell to the right, and not for two. -/
theorem unit_moves_agree_three_cells :
    let m : Machine := { tape := ⟨#[5, 6, 7], 1⟩, limit := some 2 }
    let m' : Machine := { m with tape := ⟨#[5, 6, 7], 2⟩ }
    m.tape.InRange ∧
      m.move 1 = .done m' ∧ (unitMoves 1).run none 2 m = .finished { m' with steps := 1 } ∧
      m.move 2 = .failed (.offTape 1 3 .right) m ∧
      (∃ m'', (unitMoves 2).run none 2 m = .failed (.offTape m''.tape.pointer 3 .right) m'' ∧
        m''.tape = ⟨#[5, 6, 7], 2⟩) ∧
      m'.move (-1) = .done m ∧ m.move (1 + -2) = .done { m with tape := ⟨#[5, 6, 7], 0⟩ } := by
  intro m m'
  have h : m.tape.InRange := by decide
  obtain ⟨halike, hadd, hback⟩ := unit_moves_agree h
  have hlimit : ∀ k : Nat, k ≤ 2 → ∀ l, m.limit = some l → (m.steps : Int) + k ≤ l := by
    rintro k hk l hl
    cases hl
    show (0 : Int) + k ≤ 2
    omega
  have hone : m.move 1 = .done m' := by decide
  have htwo : m.move 2 = .failed (.offTape 1 3 .right) m := by decide
  have hleft : m'.move (-2) = .done { m with tape := ⟨#[5, 6, 7], 0⟩ } := by decide
  obtain ⟨-, hrun⟩ := (halike none 1 2 (hlimit 1 (by decide)) (by decide)).done m' hone
  obtain ⟨-, -, m'', hstop, htape, -⟩ :=
    (halike none 2 2 (hlimit 2 (by decide)) (by decide)).failed _ m htwo
  exact ⟨h, hone, hrun, htwo, ⟨m'', hstop, htape⟩, hback 1 m' hone, hadd 1 (-2) m' _ hone hleft⟩

end Program

end TapeLang
