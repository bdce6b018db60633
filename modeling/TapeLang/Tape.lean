import TapeLang.Error

/-!
# The tape

A tape is a row of cells, each holding an integer of any size, and a pointer. A tape made by
`Tape.blank?` has its pointer on a cell (`InRange`), and every move keeps that. A caller may also
build a tape by hand whose pointer is somewhere else: `slot?` says which cell such a pointer
denotes, counting negative pointers from the end of the tape.
-/

namespace TapeLang

/-- A row of cells with a pointer. -/
structure Tape where
  /-- The values of the cells. -/
  cells : Array Int
  /-- The position of the current cell. -/
  pointer : Int := 0
  deriving DecidableEq, Repr

/-- Why a tape of the size asked for cannot be made. -/
inductive BadTapeSize
  /-- It would have no cell. -/
  | tooSmall (requested : Int)
  /-- No index could count its cells. -/
  | unindexable
  /-- There is no room for its cells. -/
  | noRoom
  deriving DecidableEq, Repr

namespace BadTapeSize

/-- The wording of the error. -/
def message : BadTapeSize → String
  | tooSmall requested =>
    if Text.isWritable requested then s!"tape_size must be >= 1, got {requested}"
    else Text.unwritable
  | unindexable => indexOverflow
  | noRoom => ""

/-- The class of the error; that of a message that cannot be written is the same. -/
def errorClass : BadTapeSize → ErrorClass
  | tooSmall _ => .value
  | unindexable => .overflow
  | noRoom => .memory

end BadTapeSize

/-- Indices reach from the negative of this number up to the number before it. -/
def indexBound : Int := 0x8000000000000000

namespace Tape

/-- The number of cells of a tape if none is asked for. -/
def standardSize : Int := 30000

/-- The number of cells. -/
def size (t : Tape) : Nat :=
  t.cells.size

/-- The pointer is on a cell of the tape, counted from the front. -/
def InRange (t : Tape) : Prop :=
  0 ≤ t.pointer ∧ t.pointer < t.size

instance (t : Tape) : Decidable t.InRange := by
  unfold InRange
  infer_instance

/-- A tape of zeros with the pointer on its first cell, if there is memory for it. -/
def blank? (hasRoom : Nat → Bool) (size : Int) : Except BadTapeSize Tape :=
  if size < 1 then .error (.tooSmall size)
  else if indexBound ≤ size then .error .unindexable
  else if hasRoom size.toNat then .ok ⟨Array.replicate size.toNat 0, 0⟩
  else .error .noRoom

/-- The cell that the pointer denotes: a pointer that is not negative counts from the front, a
negative one from the end, where `-1` is the last cell. -/
def slot? (t : Tape) : Option Nat :=
  if 0 ≤ t.pointer then
    if t.pointer < t.size then some t.pointer.toNat else none
  else if 0 ≤ t.pointer + t.size then some (t.pointer + t.size).toNat
  else none

/-- The value of the current cell. -/
def current? (t : Tape) : Option Int :=
  match t.slot? with
  | some i => t.cells[i]?
  | none => none

/-- The cause for which a pointer that denotes no cell makes an access fail: the given one, unless
the pointer is no index at all. -/
def cause (t : Tape) (e : RunError) : RunError :=
  if -indexBound ≤ t.pointer ∧ t.pointer < indexBound then e else .unindexable

/-- Apply a function to a cell, counted from the front. -/
def modify (t : Tape) (i : Nat) (f : Int → Int) : Tape :=
  { t with cells := t.cells.modify i f }

/-- Put a value into a cell, counted from the front. -/
def set (t : Tape) (i : Nat) (value : Int) : Tape :=
  { t with cells := t.cells.setIfInBounds i value }

/-- The direction of a move; a move by nothing that fails counts as one to the left. -/
def direction (delta : Int) : Direction :=
  if 0 < delta then .right else .left

/-- Move the pointer by any number of cells at once: the target has to be on the tape. -/
def move (t : Tape) (delta : Int) : Except RunError Tape :=
  if 0 ≤ t.pointer + delta ∧ t.pointer + delta < t.size then
    .ok { t with pointer := t.pointer + delta }
  else .error (.offTape t.pointer t.size (direction delta))

/-- The cells before position `n` that are not zero, with their positions, before those already
found. -/
def nonzeroBefore (t : Tape) : Nat → List (Nat × Int) → List (Nat × Int)
  | 0, found => found
  | n + 1, found =>
    match t.cells[n]?.getD 0 with
    | 0 => t.nonzeroBefore n found
    | v => t.nonzeroBefore n ((n, v) :: found)

/-- The cells that are not zero, with their positions, by rising position. -/
def nonzero (t : Tape) : List (Nat × Int) :=
  t.nonzeroBefore t.size []

/-- On a tape whose pointer is in range, the pointer denotes the cell it counts. -/
theorem slot?_of_inRange {t : Tape} (h : t.InRange) : t.slot? = some t.pointer.toNat := by
  simp [slot?, h.1, h.2]

/-- What a blank tape is, and that its size can be asked for. -/
theorem blank?_eq_ok_iff {hasRoom : Nat → Bool} {size : Int} {t : Tape} :
    blank? hasRoom size = .ok t ↔
      1 ≤ size ∧ size < indexBound ∧ hasRoom size.toNat = true ∧
        t = ⟨Array.replicate size.toNat 0, 0⟩ := by
  unfold blank?
  split
  · simp only [reduceCtorEq, false_iff]
    omega
  · split
    · simp only [reduceCtorEq, false_iff]
      omega
    · split
      · next hsmall hlarge hroom =>
        simp only [Except.ok.injEq, hroom, true_and]
        constructor
        · rintro rfl
          exact ⟨by omega, by omega, rfl⟩
        · rintro ⟨-, -, rfl⟩
          rfl
      · next hroom => simp [hroom]

/-- A blank tape has its pointer in range. -/
theorem inRange_of_blank? {hasRoom : Nat → Bool} {size : Int} {t : Tape}
    (h : blank? hasRoom size = .ok t) : t.InRange := by
  obtain ⟨hpos, -, -, rfl⟩ := blank?_eq_ok_iff.1 h
  simp only [InRange, Tape.size, Array.size_replicate]
  omega

/-- A move that succeeds changes nothing but the pointer. -/
theorem move_eq_ok_iff {t t' : Tape} {delta : Int} :
    t.move delta = .ok t' ↔ t' = { t with pointer := t.pointer + delta } ∧ t'.InRange := by
  unfold move
  split
  · rename_i h
    constructor
    · intro heq
      cases heq
      exact ⟨rfl, h⟩
    · rintro ⟨rfl, _⟩
      rfl
  · rename_i h
    constructor
    · intro heq
      cases heq
    · rintro ⟨rfl, hrange⟩
      exact absurd hrange h

/-- Changing a cell keeps the pointer in range. -/
theorem InRange.modify {t : Tape} (h : t.InRange) (i : Nat) (f : Int → Int) :
    (t.modify i f).InRange := by
  simpa [InRange, Tape.modify, Tape.size] using h

/-- Assigning a cell keeps the pointer in range. -/
theorem InRange.set {t : Tape} (h : t.InRange) (i : Nat) (value : Int) :
    (t.set i value).InRange := by
  simpa [InRange, Tape.set, Tape.size] using h

end Tape

end TapeLang
