import TapeLang.Program.Basic

/-!
# Measures of programs

The number of top-level instructions (`length`), of instructions that are not loops (`leaves`), of
loops (`loops`), and the deepest loop nesting (`depth`). A walk over a program calls itself for the
body of each loop, and that only up to some depth: `leavesWithin` and `depthWithin` give nothing if
they meet a loop for which no call is left.
-/

namespace TapeLang

namespace Program

/-- The number of top-level instructions. -/
def length : Program → Nat
  | nil => 0
  | command _ _ rest => rest.length + 1
  | loop _ _ rest => rest.length + 1
  | foreign _ rest => rest.length + 1

/-- The number of instructions other than loops, those in loop bodies and foreign ones included. -/
def leaves : Program → Nat
  | nil => 0
  | command _ _ rest => rest.leaves + 1
  | loop b _ rest => b.leaves + rest.leaves
  | foreign _ rest => rest.leaves + 1

/-- The number of loops, those in loop bodies included. -/
def loops : Program → Nat
  | nil => 0
  | command _ _ rest => rest.loops
  | loop b _ rest => b.loops + rest.loops + 1
  | foreign _ rest => rest.loops

/-- The deepest loop nesting; zero for straight-line code. -/
def depth : Program → Nat
  | nil => 0
  | command _ _ rest => rest.depth
  | loop b _ rest => max (b.depth + 1) rest.depth
  | foreign _ rest => rest.depth

@[simp]
theorem length_append (p q : Program) : (p ++ q).length = p.length + q.length := by
  induction p <;> simp_all [length] <;> omega

@[simp]
theorem leaves_append (p q : Program) : (p ++ q).leaves = p.leaves + q.leaves := by
  induction p <;> simp_all [leaves] <;> omega

@[simp]
theorem loops_append (p q : Program) : (p ++ q).loops = p.loops + q.loops := by
  induction p with
  | nil => simp [loops]
  | command c s rest ih => simpa [loops] using ih
  | loop b s rest _ ih =>
    simp only [loop_append, loops, ih]
    omega
  | foreign n rest ih => simpa [loops] using ih

@[simp]
theorem depth_append (p q : Program) : (p ++ q).depth = max p.depth q.depth := by
  induction p with
  | nil => simp [depth]
  | command c s rest ih => simpa [depth] using ih
  | loop b s rest _ ih => simp only [loop_append, depth, ih, Nat.max_assoc]
  | foreign n rest ih => simpa [depth] using ih

/-- Count the leaves, with loops nested at most `bound` deep. -/
def leavesWithin (bound : Nat) : Program → Option Nat
  | nil => some 0
  | command _ _ rest => do
    let behind ← rest.leavesWithin bound
    return behind + 1
  | loop b _ rest =>
    match bound with
    | 0 => none
    | inner + 1 => do
      let body ← b.leavesWithin inner
      let behind ← rest.leavesWithin bound
      return body + behind
  | foreign _ rest => do
    let behind ← rest.leavesWithin bound
    return behind + 1

/-- Find the depth, with loops nested at most `bound` deep. -/
def depthWithin (bound : Nat) : Program → Option Nat
  | nil => some 0
  | command _ _ rest => rest.depthWithin bound
  | loop b _ rest =>
    match bound with
    | 0 => none
    | inner + 1 => do
      let body ← b.depthWithin inner
      let behind ← rest.depthWithin bound
      return max (body + 1) behind
  | foreign _ rest => rest.depthWithin bound

end Program

end TapeLang
