import Mathlib.Algebra.Order.Ring.Int
import Mathlib.Data.List.Induction
import Mathlib.Data.List.Infix
import Mathlib.Tactic.Push
import TapeLang.Program.Basic

/-!
# Brackets in a text

What can be said about the loops of a text by counting its brackets: how many of them its beginnings
leave open, and where this first goes wrong. Comments do not matter to any of it.

* `balance text`: the opening brackets of `text` less its closing ones.
* `NoStray text` and `NestedBelow n text` bound the balance of every beginning from below and from
  above; a `Balanced` text closes exactly what it opens.
* `exists_first_offence`: a text that breaks one of the bounds has a first bracket that does so.
* `code text`: the text without its comments, with the same balance at all of its beginnings.
-/

namespace TapeLang.Text

/-! ## Statements about all beginnings of a text -/

section Beginnings

variable {α : Type} {P : List α → Prop} {xs ys : List α} {x : α}

theorem forall_prefix_concat :
    (∀ u, u <+: xs ++ [x] → P u) ↔ (∀ u, u <+: xs → P u) ∧ P (xs ++ [x]) := by
  simp only [List.prefix_concat_iff]
  constructor
  · intro h
    exact ⟨fun u hu => h u (Or.inr hu), h _ (Or.inl rfl)⟩
  · rintro ⟨h, hlast⟩ u (rfl | hu)
    · exact hlast
    · exact h u hu

theorem forall_prefix_cons :
    (∀ u, u <+: x :: xs → P u) ↔ P [] ∧ ∀ u, u <+: xs → P (x :: u) := by
  simp only [List.prefix_cons_iff]
  constructor
  · intro h
    exact ⟨h _ (Or.inl rfl), fun u hu => h _ (Or.inr ⟨u, rfl, hu⟩)⟩
  · rintro ⟨hnil, h⟩ u (rfl | ⟨v, rfl, hv⟩)
    · exact hnil
    · exact h v hv

theorem forall_prefix_append :
    (∀ u, u <+: xs ++ ys → P u) ↔ (∀ u, u <+: xs → P u) ∧ ∀ u, u <+: ys → P (xs ++ u) := by
  -- The property moves along with the front of the text, so it must not be fixed.
  induction xs generalizing P with
  | nil =>
    simp only [List.nil_append, List.prefix_nil, forall_eq]
    exact ⟨fun h => ⟨h [] List.nil_prefix, h⟩, And.right⟩
  | cons x xs ih =>
    rw [List.cons_append, forall_prefix_cons, ih, forall_prefix_cons, and_assoc]
    rfl

/-- A property of beginnings that the empty one has, but not all have, is lost at some first
character. -/
theorem exists_first_not (hnil : P []) (h : ¬ ∀ u, u <+: xs → P u) :
    ∃ before x after, xs = before ++ x :: after ∧ (∀ u, u <+: before → P u) ∧
      ¬ P (before ++ [x]) := by
  -- A reader comes from the front, so the text grows at its end.
  induction xs using List.reverseRecOn with
  | nil => exact absurd (by simpa using hnil) h
  | append_singleton xs x ih =>
    by_cases hxs : ∀ u, u <+: xs → P u
    -- Either the new character is the first to spoil it, or an earlier one was.
    · exact ⟨xs, x, [], rfl, hxs, fun hx => h (forall_prefix_concat.2 ⟨hxs, hx⟩)⟩
    · obtain ⟨before, y, after, rfl, hbefore, hy⟩ := ih hxs
      exact ⟨before, y, after ++ [x], by simp, hbefore, hy⟩

end Beginnings

/-! ## Balance -/

/-- The opening brackets of a text less its closing ones. -/
def balance (text : List Char) : Int :=
  (text.count '[' : Int) - text.count ']'

@[simp]
theorem balance_nil : balance [] = 0 := rfl

@[simp]
theorem balance_append (s t : List Char) : balance (s ++ t) = balance s + balance t := by
  simp only [balance, List.count_append]
  omega

@[simp]
theorem balance_opening (t : List Char) : balance ('[' :: t) = balance t + 1 := by
  simp [balance]
  omega

@[simp]
theorem balance_closing (t : List Char) : balance (']' :: t) = balance t - 1 := by
  simp [balance]
  omega

/-- Characters other than brackets leave the balance alone. -/
theorem balance_cons_of_ne {c : Char} (hopening : c ≠ '[') (hclosing : c ≠ ']') (t : List Char) :
    balance (c :: t) = balance t := by
  simp [balance, hopening, hclosing]

/-- Only a closing bracket brings the balance below zero. -/
theorem eq_closing_of_balance_lt {t : List Char} {c : Char} (hpart : 0 ≤ balance t)
    (hwhole : balance (t ++ [c]) < 0) : c = ']' ∧ balance t = 0 := by
  rw [balance_append] at hwhole
  -- Any other character leaves the balance where it is or raises it.
  have hopening : c ≠ '[' := by
    rintro rfl
    rw [balance_opening, balance_nil] at hwhole
    omega
  have hclosing : c = ']' := by
    by_contra hne
    rw [balance_cons_of_ne hopening hne, balance_nil] at hwhole
    omega
  subst hclosing
  rw [balance_closing, balance_nil] at hwhole
  exact ⟨rfl, by omega⟩

/-- Only an opening bracket brings the balance up to a bound. -/
theorem eq_opening_of_le_balance {n : Int} {t : List Char} {c : Char} (hpart : balance t < n)
    (hwhole : n ≤ balance (t ++ [c])) : c = '[' ∧ balance t + 1 = n := by
  rw [balance_append] at hwhole
  have hclosing : c ≠ ']' := by
    rintro rfl
    rw [balance_closing, balance_nil] at hwhole
    omega
  have hopening : c = '[' := by
    by_contra hne
    rw [balance_cons_of_ne hne hclosing, balance_nil] at hwhole
    omega
  subst hopening
  rw [balance_opening, balance_nil] at hwhole
  exact ⟨rfl, by omega⟩

/-- No beginning of the text closes more than it opens. -/
def NoStray (text : List Char) : Prop :=
  ∀ u, u <+: text → 0 ≤ balance u

/-- Every beginning of the text leaves fewer than `n` brackets open. -/
def NestedBelow (n : Nat) (text : List Char) : Prop :=
  ∀ u, u <+: text → balance u < n

instance (text : List Char) : Decidable (NoStray text) :=
  decidable_of_iff (∀ u ∈ text.inits, 0 ≤ balance u) (by simp only [List.mem_inits, NoStray])

instance (n : Nat) (text : List Char) : Decidable (NestedBelow n text) :=
  decidable_of_iff (∀ u ∈ text.inits, balance u < n) (by simp only [List.mem_inits, NestedBelow])

/-- The text closes exactly the brackets that it opens. -/
structure Balanced (text : List Char) : Prop where
  /-- Nothing is closed before it is opened. -/
  noStray : NoStray text
  /-- Nothing is left open. -/
  settled : balance text = 0

instance (text : List Char) : Decidable (Balanced text) :=
  decidable_of_iff (NoStray text ∧ balance text = 0)
    ⟨fun h => ⟨h.1, h.2⟩, fun h => ⟨h.noStray, h.settled⟩⟩

theorem NoStray.balance_nonneg {t : List Char} (h : NoStray t) : 0 ≤ balance t :=
  h t List.prefix_rfl

theorem noStray_concat {t : List Char} {c : Char} :
    NoStray (t ++ [c]) ↔ NoStray t ∧ 0 ≤ balance (t ++ [c]) :=
  forall_prefix_concat

theorem nestedBelow_concat {n : Nat} {t : List Char} {c : Char} :
    NestedBelow n (t ++ [c]) ↔ NestedBelow n t ∧ balance (t ++ [c]) < n :=
  forall_prefix_concat

theorem noStray_nil : NoStray [] := by
  simp [NoStray]

theorem nestedBelow_nil {n : Nat} (h : 0 < n) : NestedBelow n [] := by
  simpa [NestedBelow] using h

theorem balanced_nil : Balanced [] :=
  ⟨noStray_nil, rfl⟩

/-- One balanced text after another is balanced. -/
theorem NoStray.append {s t : List Char} (hs : NoStray s) (ht : NoStray t) : NoStray (s ++ t) := by
  refine forall_prefix_append.2 ⟨hs, fun u hu => ?_⟩
  have hwhole := hs.balance_nonneg
  have hpart := ht u hu
  rw [balance_append]
  omega

theorem Balanced.append {s t : List Char} (hs : Balanced s) (ht : Balanced t) :
    Balanced (s ++ t) where
  noStray := hs.noStray.append ht.noStray
  settled := by rw [balance_append, hs.settled, ht.settled, add_zero]

/-- A single character that is no bracket is balanced. -/
theorem balanced_singleton {c : Char} (hopening : c ≠ '[') (hclosing : c ≠ ']') :
    Balanced [c] := by
  have hzero : balance [c] = 0 := balance_cons_of_ne hopening hclosing []
  refine ⟨forall_prefix_cons.2 ⟨le_rfl, fun u hu => ?_⟩, hzero⟩
  rw [List.prefix_nil.1 hu, hzero]

/-- A pair of brackets around a balanced text is balanced. -/
theorem Balanced.bracketed {t : List Char} (h : Balanced t) : Balanced ('[' :: (t ++ [']'])) := by
  constructor
  · refine forall_prefix_cons.2 ⟨le_rfl, forall_prefix_concat.2 ⟨fun u hu => ?_, ?_⟩⟩
    · have hinner := h.noStray u hu
      rw [balance_opening]
      omega
    · simp [h.settled]
  · simp [h.settled]

theorem NestedBelow.pos {n : Nat} {t : List Char} (h : NestedBelow n t) : 0 < n := by
  have hnil := h [] List.nil_prefix
  rw [balance_nil] at hnil
  omega

/-- Characters other than brackets do not nest. -/
theorem nestedBelow_cons_of_ne {n : Nat} {c : Char} (hopening : c ≠ '[') (hclosing : c ≠ ']')
    {t : List Char} : NestedBelow n (c :: t) ↔ NestedBelow n t := by
  rw [NestedBelow, forall_prefix_cons]
  simp only [balance_cons_of_ne hopening hclosing]
  exact ⟨And.right, fun h => ⟨h [] List.nil_prefix, h⟩⟩

/-- A pair of brackets nests what stands inside of it one deeper. -/
theorem nestedBelow_bracketed {n : Nat} {s t : List Char} (hs : Balanced s) :
    NestedBelow (n + 1) ('[' :: (s ++ ']' :: t)) ↔ NestedBelow n s ∧ NestedBelow (n + 1) t := by
  rw [NestedBelow, forall_prefix_cons, forall_prefix_append, forall_prefix_cons]
  simp only [balance_opening, balance_closing, balance_append, balance_nil, hs.settled]
  -- Inside the pair the balance is one higher; behind it, it is back where it was.
  constructor
  · rintro ⟨-, hinner, -, houter⟩
    refine ⟨fun u hu => ?_, fun u hu => ?_⟩
    · have hdepth := hinner u hu
      push_cast at hdepth
      omega
    · have hdepth := houter u hu
      omega
  · rintro ⟨hinner, houter⟩
    have hpos := hinner.pos
    refine ⟨by omega, fun u hu => ?_, by push_cast; omega, fun u hu => ?_⟩
    · have hdepth := hinner u hu
      push_cast
      omega
    · have hdepth := houter u hu
      omega

/-- The first closing bracket of a text that closes nothing stands behind a balanced text. -/
theorem exists_first_stray {text : List Char} (h : ¬ NoStray text) :
    ∃ before after, text = before ++ ']' :: after ∧ Balanced before := by
  obtain ⟨before, c, after, rfl, hbefore, hc⟩ :=
    exists_first_not (P := fun u => 0 ≤ balance u) le_rfl h
  have hpart : 0 ≤ balance before := hbefore before List.prefix_rfl
  have hclosing := eq_closing_of_balance_lt hpart (not_le.1 hc)
  exact ⟨before, after, by rw [hclosing.1], hbefore, hclosing.2⟩

/-- A text is clean, or there is a first bracket that closes nothing or goes too deep. -/
theorem exists_first_offence {n : Nat} (hn : 0 < n) (text : List Char) :
    (NoStray text ∧ NestedBelow n text) ∨
      ∃ before c after, text = before ++ c :: after ∧ NoStray before ∧ NestedBelow n before ∧
        (c = ']' ∧ balance before = 0 ∨ c = '[' ∧ balance before + 1 = n) := by
  by_cases h : ∀ u, u <+: text → 0 ≤ balance u ∧ balance u < n
  · exact Or.inl ⟨fun u hu => (h u hu).1, fun u hu => (h u hu).2⟩
  -- The bounds are looked at together, so that the first character to break either is found.
  · have hnil : 0 ≤ balance [] ∧ balance [] < n := by simpa using hn
    obtain ⟨before, c, after, rfl, hbefore, hc⟩ := exists_first_not hnil h
    refine Or.inr ⟨before, c, after, rfl, fun u hu => (hbefore u hu).1,
      fun u hu => (hbefore u hu).2, ?_⟩
    obtain ⟨hlow, hhigh⟩ := hbefore before List.prefix_rfl
    rcases not_and_or.1 hc with hc | hc
    · exact Or.inl (eq_closing_of_balance_lt hlow (not_le.1 hc))
    · exact Or.inr (eq_opening_of_le_balance hhigh (not_lt.1 hc))

/-! ## Comments -/

/-- The eight characters that are no comments. -/
def isCode (c : Char) : Bool :=
  c ∈ ['+', '-', '>', '<', '.', ',', '[', ']']

/-- The text without its comments. -/
def code (text : List Char) : List Char :=
  text.filter isCode

/-- A character is no comment if it stands for a command or is a bracket. -/
theorem isCode_iff {c : Char} :
    isCode c = true ↔ (Command.ofChar? c).isSome = true ∨ c = '[' ∨ c = ']' := by
  simp only [isCode, Command.ofChar?, List.mem_cons, List.not_mem_nil, or_false, decide_eq_true_eq]
  constructor
  · rintro (rfl | rfl | rfl | rfl | rfl | rfl | rfl | rfl) <;> decide
  · rintro (h | rfl | rfl)
    · grind
    · decide
    · decide

@[simp]
theorem isCode_char (c : Command) : isCode c.char = true :=
  isCode_iff.2 (Or.inl (by simp))

@[simp]
theorem code_append (s t : List Char) : code (s ++ t) = code s ++ code t :=
  List.filter_append s t

theorem code_opening (t : List Char) : code ('[' :: t) = '[' :: code t :=
  List.filter_cons_of_pos (by decide)

theorem code_closing (t : List Char) : code (']' :: t) = ']' :: code t :=
  List.filter_cons_of_pos (by decide)

@[simp]
theorem balance_code (text : List Char) : balance (code text) = balance text := by
  rw [balance, balance, code, List.count_filter (by decide), List.count_filter (by decide)]

/-- A statement about the balance of all beginnings does not see comments. -/
theorem forall_prefix_code {P : Int → Prop} {text : List Char} :
    (∀ u, u <+: code text → P (balance u)) ↔ ∀ u, u <+: text → P (balance u) := by
  constructor
  · intro h u hu
    rw [← balance_code]
    exact h _ (hu.filter isCode)
  · intro h u hu
    -- A beginning of the filtered text is a beginning that was filtered.
    obtain ⟨v, hv, rfl⟩ := List.prefix_filter_iff.1 hu
    rw [← code, balance_code]
    exact h v hv

theorem noStray_code {text : List Char} : NoStray (code text) ↔ NoStray text :=
  forall_prefix_code

theorem nestedBelow_code {n : Nat} {text : List Char} :
    NestedBelow n (code text) ↔ NestedBelow n text :=
  forall_prefix_code (P := fun b => b < n)

end TapeLang.Text
