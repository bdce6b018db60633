import TapeLang.Program.Sexpr
import TapeLang.Program.Source

/-!
# Where walks over a program stop

The two printers and the two measures walk over a program independently of each other. Each comes to
the instructions in the order of the text, and stops at a loop for which no call is left; the
printers also stop at a foreign instruction, each with an error of its own.

* `Program.obstacle?`: the first instruction at which a printer has to stop.
* `Program.sourceWithin_eq`, `Program.sexprWithin_eq`: both printers stop there, and print a program
  that has no such instruction.
* `Program.leavesWithin_eq`, `Program.depthWithin_eq`: the measures stop in a program that is nested
  too deeply, and nowhere else.
-/

namespace TapeLang

/-- What a printer cannot go past. -/
inductive Obstacle
  /-- An instruction is of an unknown kind. -/
  | foreign (name : String)
  /-- A loop is nested too deeply. -/
  | tooDeep
  deriving DecidableEq

/-- The error of the writer of source text at an obstacle. -/
def Obstacle.sourceError : Obstacle → SourceError
  | foreign name => .unlisted name
  | tooDeep => .tooDeep

/-- The error of the printer of symbolic expressions at an obstacle. -/
def Obstacle.sexprError : Obstacle → SexprError
  | foreign name => .unknown name
  | tooDeep => .tooDeep

namespace Program

/-- The first obstacle in the order of the text, when loops may nest at most `bound` deep. -/
def obstacle? (bound : Nat) : Program → Option Obstacle
  | nil => none
  | command _ _ rest => rest.obstacle? bound
  | loop b _ rest =>
    match bound with
    | 0 => some .tooDeep
    | inner + 1 => (b.obstacle? inner).or (rest.obstacle? bound)
  | foreign name _ => some (.foreign name)

/-! ## Source text -/

/-- Source text is written up to the first obstacle. -/
theorem sourceWithin_eq (bound : Nat) (p : Program) :
    p.sourceWithin bound =
      match p.obstacle? bound with
      | some o => .error o.sourceError
      | none => .ok p.source := by
  induction p generalizing bound with
  | nil => rfl
  | command c s rest ih =>
    rw [sourceWithin, obstacle?, ih]
    cases rest.obstacle? bound <;> rfl
  | loop b s rest ihb ih =>
    cases bound with
    | zero => rfl
    | succ inner =>
      rw [sourceWithin, obstacle?, ihb, ih]
      -- The body comes first, so its obstacle is met before those behind the loop.
      cases b.obstacle? inner with
      | some o => rfl
      | none => cases rest.obstacle? (inner + 1) <;> rfl
  | foreign name rest _ => rfl

/-! ## Symbolic expressions -/

/-- The items of the instructions, one for each. -/
def itemList : Program → List (List Char)
  | nil => []
  | command c _ rest => c.word :: rest.itemList
  | loop b _ rest => loopItem b.itemList :: rest.itemList
  | foreign _ rest => rest.itemList

theorem loopItem_ne_nil (body : List (List Char)) : loopItem body ≠ [] := by
  unfold loopItem
  split <;> simp

theorem itemList_ne_nil {p : Program} {item : List Char} (h : item ∈ p.itemList) : item ≠ [] := by
  induction p with
  | nil => cases h
  | command c s rest ih =>
    rcases List.mem_cons.1 h with rfl | hrest
    · cases c <;> exact List.cons_ne_nil _ _
    · exact ih hrest
  | loop b s rest _ ih =>
    rcases List.mem_cons.1 h with rfl | hrest
    · exact loopItem_ne_nil _
    · exact ih hrest
  | foreign name rest ih => exact ih h

/-- Putting a blank between texts leaves out the blank in front of the first one. -/
theorem blank_cons_intercalate (first : List Char) (others : List (List Char)) :
    ' ' :: List.intercalate [' '] (first :: others) =
      (first :: others).flatMap (' ' :: ·) := by
  induction others generalizing first with
  | nil => simp
  | cons second others ih =>
    rw [List.flatMap_cons, ← ih second]
    simp [List.intercalate]

/-- A loop without items has no blank in it, so the case in which the joined items are empty is no
exception: a blank stands in front of each item. -/
theorem loopItem_eq {body : List (List Char)} (h : ∀ item ∈ body, item ≠ []) :
    loopItem body = "(loop".toList ++ (body.flatMap (' ' :: ·) ++ [')']) := by
  cases body with
  | nil => rfl
  | cons first others =>
    rw [← blank_cons_intercalate]
    unfold loopItem
    split
    · next hempty =>
      have hfirst : first = [] := by
        cases first with
        | nil => rfl
        | cons c cs => cases others <;> simp [List.intercalate] at hempty
      exact absurd hfirst (h first List.mem_cons_self)
    · rfl

/-- The items of a program are its list of items with a blank in front of each. -/
theorem flatMap_itemList (p : Program) : p.itemList.flatMap (' ' :: ·) = p.items := by
  induction p with
  | nil => rfl
  | command c s rest ih => rw [itemList, List.flatMap_cons, ih, items]
  | loop b s rest ihb ih =>
    rw [itemList, List.flatMap_cons, ih, items, loopItem_eq fun _ => itemList_ne_nil, ihb]
    simp
  | foreign name rest ih => exact ih

theorem itemsWithin_eq (bound : Nat) (p : Program) :
    p.itemsWithin bound =
      match p.obstacle? bound with
      | some o => .error o.sexprError
      | none => .ok p.itemList := by
  induction p generalizing bound with
  | nil => rfl
  | command c s rest ih =>
    rw [itemsWithin, obstacle?, ih]
    cases rest.obstacle? bound <;> rfl
  | loop b s rest ihb ih =>
    cases bound with
    | zero => rfl
    | succ inner =>
      rw [itemsWithin, obstacle?, ihb, ih]
      cases b.obstacle? inner with
      | some o => rfl
      | none => cases rest.obstacle? (inner + 1) <;> rfl
  | foreign name rest _ => rfl

/-- Symbolic expressions are printed up to the first obstacle. -/
theorem sexprWithin_eq (bound : Nat) (p : Program) :
    p.sexprWithin bound =
      match p.obstacle? bound with
      | some o => .error o.sexprError
      | none => .ok p.sexpr := by
  rw [sexprWithin, itemsWithin_eq]
  cases p.obstacle? bound with
  | some o => rfl
  | none =>
    have htext : "(program".toList ++ p.itemList.flatMap (' ' :: ·) ++ [')'] = p.sexpr := by
      rw [flatMap_itemList, List.append_assoc]
      rfl
    exact congrArg Except.ok htext

/-! ## Nesting -/

variable {p : Program} {bound : Nat}

theorem depth_loop_le_succ_iff {b rest : Program} {s : Option Span} {inner : Nat} :
    (loop b s rest).depth ≤ inner + 1 ↔ b.depth ≤ inner ∧ rest.depth ≤ inner + 1 := by
  rw [depth, Nat.max_le, Nat.add_le_add_iff_right]

theorem not_depth_loop_le_zero {b rest : Program} {s : Option Span} :
    ¬ (loop b s rest).depth ≤ 0 := by
  rw [depth, Nat.max_le]
  exact fun h => Nat.not_succ_le_zero _ h.1

/-- Printing meets no obstacle in a native program that is not nested too deeply. -/
theorem obstacle?_eq_none_iff : p.obstacle? bound = none ↔ p.native = true ∧ p.depth ≤ bound := by
  induction p generalizing bound with
  | nil => simp [obstacle?, native, depth]
  | command c s rest ih => rw [obstacle?, native, depth, ih]
  | loop b s rest ihb ih =>
    cases bound with
    | zero => simp [obstacle?, depth]
    | succ inner =>
      rw [obstacle?, Option.or_eq_none_iff, ihb, ih, native, Bool.and_eq_true,
        depth_loop_le_succ_iff]
      exact and_and_and_comm
  | foreign n rest _ => simp [obstacle?, native]

/-- The only obstacle in a native program is that it is nested too deeply. -/
theorem eq_tooDeep_of_obstacle? {o : Obstacle} (hnative : p.native = true)
    (h : p.obstacle? bound = some o) : o = .tooDeep := by
  induction p generalizing bound with
  | nil => cases h
  | command c s rest ih => exact ih hnative h
  | loop b s rest ihb ih =>
    rw [native, Bool.and_eq_true] at hnative
    cases bound with
    | zero =>
      cases h
      rfl
    | succ inner =>
      rcases Option.or_eq_some_iff.1 h with hbody | ⟨-, hrest⟩
      · exact ihb hnative.1 hbody
      · exact ih hnative.2 hrest
  | foreign n rest _ => cases hnative

theorem sourceWithin_eq_ok (hnative : p.native = true) (hdepth : p.depth ≤ bound) :
    p.sourceWithin bound = .ok p.source := by
  rw [sourceWithin_eq, obstacle?_eq_none_iff.2 ⟨hnative, hdepth⟩]

theorem sexprWithin_eq_ok (hnative : p.native = true) (hdepth : p.depth ≤ bound) :
    p.sexprWithin bound = .ok p.sexpr := by
  rw [sexprWithin_eq, obstacle?_eq_none_iff.2 ⟨hnative, hdepth⟩]

/-! ## Measures -/

/-- Counting leaves succeeds just if the program is not nested too deeply. -/
theorem leavesWithin_eq (bound : Nat) (p : Program) :
    p.leavesWithin bound = if p.depth ≤ bound then some p.leaves else none := by
  induction p generalizing bound with
  | nil => simp [leavesWithin, depth, leaves]
  | command c s rest ih | foreign name rest ih =>
    rw [leavesWithin, ih, depth]
    split <;> rfl
  | loop b s rest ihb ih =>
    cases bound with
    | zero => rw [if_neg not_depth_loop_le_zero, leavesWithin]
    | succ inner =>
      simp only [leavesWithin, ihb, ih, depth_loop_le_succ_iff]
      by_cases hbody : b.depth ≤ inner
      · by_cases hrest : rest.depth ≤ inner + 1 <;> simp [hbody, hrest, leaves]
      · simp [hbody]

/-- So does finding the depth. -/
theorem depthWithin_eq (bound : Nat) (p : Program) :
    p.depthWithin bound = if p.depth ≤ bound then some p.depth else none := by
  induction p generalizing bound with
  | nil => simp [depthWithin, depth]
  | command c s rest ih | foreign name rest ih => rw [depthWithin, ih, depth]
  | loop b s rest ihb ih =>
    cases bound with
    | zero => rw [if_neg not_depth_loop_le_zero, depthWithin]
    | succ inner =>
      simp only [depthWithin, ihb, ih, depth_loop_le_succ_iff]
      by_cases hbody : b.depth ≤ inner
      · by_cases hrest : rest.depth ≤ inner + 1 <;> simp [hbody, hrest, depth]
      · simp [hbody]

theorem leavesWithin_of_le (h : p.depth ≤ bound) : p.leavesWithin bound = some p.leaves := by
  rw [leavesWithin_eq, if_pos h]

theorem depthWithin_of_le (h : p.depth ≤ bound) : p.depthWithin bound = some p.depth := by
  rw [depthWithin_eq, if_pos h]

end Program

end TapeLang
