import TapeLang.Program.Source
import TapeLang.Proofs.Text.Brackets

/-!
# Programs without their places

Two programs are equal if they hold the same instructions, wherever these were read. `same` decides
this, and on native programs it says that the bare programs are one and the same
(`same_eq_true_iff`).

The text of a program is balanced (`balanced_source`), and its nesting is the nesting of the program
(`depth_lt_iff`).
-/

namespace TapeLang

theorem Command.char_ne_opening (c : Command) : c.char ≠ '[' := by
  cases c <;> decide

theorem Command.char_ne_closing (c : Command) : c.char ≠ ']' := by
  cases c <;> decide

namespace Program

/-! ## Bare programs -/

@[simp]
theorem depth_bare (p : Program) : p.bare.depth = p.depth := by
  induction p <;> simp_all [bare, depth]

@[simp]
theorem bare_bare (p : Program) : p.bare.bare = p.bare := by
  induction p <;> simp_all [bare]

theorem source_bare (p : Program) : p.bare.source = p.source := by
  induction p <;> simp_all [bare, source]

/-- Programs are equal if one of them is native and they differ in their places only. -/
theorem same_eq_true_iff {p q : Program} :
    p.same q = true ↔ p.native = true ∧ p.bare = q.bare := by
  induction p generalizing q with
  | nil => cases q <;> simp [same, native, bare]
  | command c s rest ih => cases q <;> simp [same, native, bare, ih, and_left_comm]
  | loop b s rest ihb ih =>
    cases q with
    | loop b' s' rest' => simp [same, native, bare, ihb, ih, and_assoc, and_left_comm]
    | _ => simp [same, native, bare]
  | foreign n rest _ => cases q <;> simp [same, native]

/-- As far as programs can be compared, comparing finds out whether they are equal. -/
theorem sameWithin_eq {p q : Program} {n : Nat} (h : p.depth ≤ n) :
    p.sameWithin n q = some (p.same q) := by
  induction p generalizing n q with
  | nil => cases q <;> rfl
  | command c s rest ih =>
    cases q with
    | command d t rest' =>
      rw [sameWithin, same, ih h]
      split <;> simp [*]
    | _ => rfl
  | loop b s rest ihb ih =>
    cases q with
    | loop d t rest' =>
      rw [depth] at h
      obtain ⟨inner, rfl⟩ := Nat.exists_eq_succ_of_ne_zero (n := n) (by omega)
      have hbody := ihb (q := d) (show b.depth ≤ inner by omega)
      rw [sameWithin, same, hbody]
      cases b.same d with
      | false => rfl
      | true => exact ih (by omega)
    | _ => rfl
  | foreign n rest _ => cases q <;> rfl

/-! ## Reversed programs -/

theorem reverseAppend_reverseAppend (p q r : Program) :
    (p.reverseAppend q).reverseAppend r = q.reverseAppend (p ++ r) := by
  induction p generalizing q with
  | nil => rfl
  | command c s rest ih => exact ih _
  | loop b s rest _ ih => exact ih _
  | foreign n rest ih => exact ih _

/-- A block that was collected backwards is turned round at its end. -/
@[simp]
theorem reverse_reverseAppend_nil (p : Program) : (p.reverseAppend nil).reverse = p := by
  rw [reverse, reverseAppend_reverseAppend, append_nil, reverseAppend]

theorem reverse_command (c : Command) (s : Option Span) (p : Program) :
    (command c s p).reverse = p.reverse ++ command c s nil := by
  rw [reverse, reverseAppend, reverseAppend_eq]

theorem reverse_loop (b : Program) (s : Option Span) (p : Program) :
    (loop b s p).reverse = p.reverse ++ loop b s nil := by
  rw [reverse, reverseAppend, reverseAppend_eq]

@[simp]
theorem native_append (p q : Program) : (p ++ q).native = (p.native && q.native) := by
  induction p <;> simp_all [native, Bool.and_assoc]

@[simp]
theorem native_reverse (p : Program) : p.reverse.native = p.native := by
  induction p with
  | nil => rfl
  | command c s rest ih => simp [reverse_command, native, ih]
  | loop b s rest _ ih => simp [reverse_loop, native, ih, Bool.and_comm]
  | foreign n rest _ =>
    rw [reverse, reverseAppend, reverseAppend_eq, native_append]
    simp [native]

/-! ## The text of a program -/

open Text

/-- The text of a program closes exactly the brackets that it opens. -/
theorem balanced_source (p : Program) : Balanced p.source := by
  induction p with
  | nil => exact balanced_nil
  | command c s rest ih =>
    exact (balanced_singleton c.char_ne_opening c.char_ne_closing).append ih
  | loop b s rest ihb ih =>
    have htext := ihb.bracketed.append ih
    rwa [List.cons_append, List.append_assoc, List.singleton_append] at htext
  | foreign n rest ih => exact ih

/-- A program is nested as deeply as its text. -/
theorem depth_lt_iff {n : Nat} (hn : 0 < n) (p : Program) :
    p.depth < n ↔ NestedBelow n p.source := by
  -- A loop is judged by its body at a bound that is lower by one.
  induction p generalizing n with
  | nil => simpa [depth, source] using ⟨fun _ => nestedBelow_nil hn, fun _ => hn⟩
  | command c s rest ih =>
    rw [depth, source, nestedBelow_cons_of_ne c.char_ne_opening c.char_ne_closing, ih hn]
  | loop b s rest ihb ih =>
    obtain ⟨m, rfl⟩ := Nat.exists_eq_succ_of_ne_zero hn.ne'
    rw [depth, source, List.cons_append, nestedBelow_bracketed b.balanced_source, ← ih hn]
    -- A bound of one leaves no room for any loop, whatever stands in it.
    rcases Nat.eq_zero_or_pos m with rfl | hm
    · have hfull : ¬ NestedBelow 0 b.source := fun h => absurd h.pos (Nat.lt_irrefl 0)
      simp [hfull]
    · rw [← ihb hm]
      omega
  | foreign n rest ih => rw [depth, source, ih hn]

end Program

end TapeLang
