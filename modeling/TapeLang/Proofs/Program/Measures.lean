import Mathlib.Order.Bounds.Defs
import TapeLang.Proofs.Program.Foreign
import TapeLang.Proofs.Program.RoundTrip

/-!
# Measures of a program and of its text

What is counted in a program can be counted in its text: the leaves are its commands, the loops its
opening brackets, the depth is the greatest number of brackets that are open anywhere, and the
instructions at the top are those that stand where none is open. Comments do not count, so this
holds of every text that is read as the program, and of its canonical text.

* `Text.outermost`: how many instructions of a text stand where no bracket is open.
* `Program.MeasuredBy`: the four measures of a program are those of a text.
* `Program.measuredBy_source`: a program is measured by its own text, by induction on the program.
* `Program.measures_of_text`: texts that are read, and programs that are written.
-/

namespace TapeLang

namespace Text

variable {text : List Char}

/-! ## The top level of a text -/

/-- The number of instructions in a text that stand where no bracket is open, when `level` brackets
have been opened in front of the text. A closing bracket is no instruction of its own. -/
def outermost (level : Int) (text : List Char) : Nat :=
  (text.inits.zip text).countP fun (before, c) =>
    isCode c && c ≠ ']' && level + balance before = 0

theorem balance_cons (c : Char) (t : List Char) : balance (c :: t) = balance [c] + balance t :=
  balance_append [c] t

theorem outermost_nil (level : Int) : outermost level [] = 0 := rfl

theorem outermost_cons (level : Int) (c : Char) (t : List Char) :
    outermost level (c :: t) = outermost (level + balance [c]) t +
      if isCode c = true ∧ c ≠ ']' ∧ level = 0 then 1 else 0 := by
  rw [outermost, List.inits_cons, List.zip_cons_cons, List.countP_cons, List.zip_map_left,
    List.countP_map, outermost]
  congr 1
  -- The characters of `t` are counted as before, with `c` in front of all that is before them.
  · apply List.countP_congr
    rintro ⟨u, d⟩ -
    simp [balance_cons c u, ← Int.add_assoc]
  · simp [and_assoc]

theorem outermost_command (level : Int) (c : Command) (t : List Char) :
    outermost level (c.char :: t) = outermost level t + if level = 0 then 1 else 0 := by
  have hbalance : balance [c.char] = 0 :=
    balance_cons_of_ne c.char_ne_opening c.char_ne_closing []
  simp [outermost_cons, hbalance, c.char_ne_closing]

theorem outermost_opening (level : Int) (t : List Char) :
    outermost level ('[' :: t) = outermost (level + 1) t + if level = 0 then 1 else 0 := by
  simp [outermost_cons, isCode]

theorem outermost_closing (level : Int) (t : List Char) :
    outermost level (']' :: t) = outermost (level - 1) t := by
  simp [outermost_cons, Int.sub_eq_add_neg]

/-- The instructions of two texts, one behind the other. -/
theorem outermost_append (level : Int) (s t : List Char) :
    outermost level (s ++ t) = outermost level s + outermost (level + balance s) t := by
  induction s generalizing level with
  | nil => simp [outermost_nil]
  | cons c s ih =>
    rw [List.cons_append, outermost_cons, outermost_cons, ih, balance_cons c s, Int.add_assoc]
    omega

/-! ## Comments do not count -/

/-- Characters that are no comments are counted alike with and without the comments. -/
theorem countP_code {q : Char → Bool} (hq : ∀ c, q c = true → isCode c = true)
    (text : List Char) : (code text).countP q = text.countP q := by
  rw [code, List.countP_filter]
  refine List.countP_congr fun c _ => ?_
  simpa using hq c

theorem outermost_code (level : Int) (text : List Char) :
    outermost level (code text) = outermost level text := by
  induction text generalizing level with
  | nil => rfl
  | cons c text ih =>
    rw [outermost_cons, ← ih]
    by_cases hcode : isCode c = true
    · rw [code, List.filter_cons_of_pos hcode, outermost_cons, code]
    -- A comment is counted nowhere, and leaves all brackets as they are.
    · have hbalance : balance [c] = 0 := by
        rw [← balance_code, code, List.filter_cons_of_neg hcode, List.filter_nil, balance_nil]
      rw [code, List.filter_cons_of_neg hcode, ← code, hbalance, Int.add_zero,
        if_neg fun h => hcode h.1, Nat.add_zero]

/-- The beginnings of a text reach the same balances without its comments. -/
theorem image_balance_code (text : List Char) :
    balance '' {u | u <+: code text} = balance '' {u | u <+: text} := by
  ext b
  have hmissed : (∀ u, u <+: code text → balance u ≠ b) ↔ ∀ u, u <+: text → balance u ≠ b :=
    forall_prefix_code (P := (· ≠ b))
  simpa using not_congr hmissed

/-- The least bound on the balance of all beginnings is the greatest of their balances. -/
theorem isGreatest_balance {d : Nat} (h : ∀ n : Nat, 0 < n → (d < n ↔ NestedBelow n text)) :
    IsGreatest (balance '' {u | u <+: text}) (d : Int) := by
  have hupper : NestedBelow (d + 1) text := (h (d + 1) d.succ_pos).1 d.lt_succ_self
  refine ⟨?_, ?_⟩
  · rcases Nat.eq_zero_or_pos d with rfl | hpos
    · exact ⟨[], List.nil_prefix, rfl⟩
    -- At the bound itself some beginning fails to stay below, and it cannot go beyond.
    · have hreached : ¬ NestedBelow d text := fun hbelow =>
        Nat.lt_irrefl d ((h d hpos).2 hbelow)
      obtain ⟨u, hu, hle⟩ : ∃ u, u <+: text ∧ (d : Int) ≤ balance u := by
        simpa [NestedBelow] using hreached
      have hlt := hupper u hu
      exact ⟨u, hu, by omega⟩
  · rintro b ⟨u, hu, rfl⟩
    have hlt := hupper u hu
    omega

end Text

namespace Program

open Text

variable {p : Program} {bound : Nat} {text : List Char}

/-- The measures of a program are what is counted in a text. -/
structure MeasuredBy (text : List Char) (p : Program) : Prop where
  /-- A leaf for each of the six characters that stand for commands. -/
  leaves : p.leaves = text.countP (· ∈ ['+', '-', '>', '<', '.', ','])
  /-- A loop for each opening bracket. -/
  loops : p.loops = text.count '['
  /-- The depth is the greatest number of brackets that a beginning leaves open. -/
  depth : IsGreatest (balance '' {u | u <+: text}) (p.depth : Int)
  /-- The instructions at the top are those in front of which no bracket is open. -/
  length : p.length = outermost 0 text

/-- A program that is measured by a text without its comments is measured by that text. -/
theorem MeasuredBy.of_code (h : p.MeasuredBy (code text)) : p.MeasuredBy text where
  leaves := by
    rw [h.leaves, countP_code fun c hc => ?_]
    -- The six characters are among the eight that are no comments.
    simp only [isCode, List.mem_cons, decide_eq_true_eq] at hc ⊢
    tauto
  loops := h.loops.trans (List.count_filter (by decide))
  depth := image_balance_code text ▸ h.depth
  length := by rw [h.length, outermost_code]

/-! ## The text of a program -/

theorem leaves_eq_countP_source (hnative : p.native = true) :
    p.leaves = p.source.countP (· ∈ ['+', '-', '>', '<', '.', ',']) := by
  induction p with
  | nil => rfl
  | command c s rest ih =>
    have hchar : c.char ∈ ['+', '-', '>', '<', '.', ','] := by cases c <;> decide
    rw [leaves, source, List.countP_cons, if_pos (by simpa using hchar), ih hnative]
  | loop b s rest ihb ih =>
    rw [native, Bool.and_eq_true] at hnative
    -- The brackets of the loop are none of the six characters.
    simp [leaves, source, ihb hnative.1, ih hnative.2]
  | foreign n rest _ => simp [native] at hnative

theorem loops_eq_count_source (p : Program) : p.loops = p.source.count '[' := by
  induction p with
  | nil => rfl
  | command c s rest ih => rw [loops, source, List.count_cons_of_ne c.char_ne_opening, ih]
  | loop b s rest ihb ih =>
    simp [loops, source, ihb, ih]
  | foreign n rest ih => exact ih

/-- The text of a program behind some open brackets has instructions at the top only if there are
none of these. -/
theorem outermost_source (hnative : p.native = true) {level : Int} (hlevel : 0 ≤ level) :
    outermost level p.source = if level = 0 then p.length else 0 := by
  -- Inside of a loop the level is higher by one, and never zero.
  induction p generalizing level with
  | nil => simp [source, length, outermost_nil]
  | command c s rest ih =>
    rw [source, outermost_command, ih hnative hlevel, length]
    split <;> rfl
  | loop b s rest ihb ih =>
    rw [native, Bool.and_eq_true] at hnative
    have hbody : outermost (level + 1) b.source = 0 := by
      rw [ihb hnative.1 (by omega), if_neg (by omega)]
    -- The body closes what it opens, so behind the loop the level is what it was in front of it.
    rw [source, List.cons_append, outermost_opening, outermost_append, hbody, Nat.zero_add,
      b.balanced_source.settled, Int.add_zero, outermost_closing, Int.add_sub_cancel,
      ih hnative.2 hlevel, length]
    split <;> rfl
  | foreign n rest _ => simp [native] at hnative

/-- A program is measured by its own text. -/
theorem measuredBy_source (hnative : p.native = true) : p.MeasuredBy p.source where
  leaves := leaves_eq_countP_source hnative
  loops := p.loops_eq_count_source
  depth := isGreatest_balance fun _ hn => depth_lt_iff hn p
  length := by rw [outermost_source hnative le_rfl, if_pos rfl]

/-- What is read from a text is measured by that text. -/
theorem measuredBy_of_ofTextWithin (h : ofTextWithin bound text = .ok p) : p.MeasuredBy text := by
  have hsource := measuredBy_source (native_of_ofTextWithin h)
  rw [source_of_ofTextWithin h] at hsource
  exact hsource.of_code

/-- The measures of a program are those of its text, whether the program was read from the text or
is written as the text: leaves are commands, loops are opening brackets, the depth is the greatest
balance of a beginning, and the length counts what stands where no bracket is open. Walks find the
measures out in every program that was read, and in every native one that can be written. -/
theorem measures_of_text (bounds : Limits) (hreading : 0 < bounds.reading)
    (hwalking : bounds.reading ≤ bounds.walking + 1) :
    (∀ (text : List Char) (p : Program), ofTextWithin bounds.reading text = .ok p →
      p.MeasuredBy text ∧ p.leavesWithin bounds.walking = some p.leaves ∧
        p.depthWithin bounds.walking = some p.depth) ∧
    ∀ p : Program, p.native = true →
      p.MeasuredBy p.source ∧
      (p.depth ≤ bounds.walking → p.sourceWithin bounds.walking = .ok p.source ∧
        p.leavesWithin bounds.walking = some p.leaves ∧
        p.depthWithin bounds.walking = some p.depth) := by
  refine ⟨fun text p h => ?_, fun p hnative => ⟨measuredBy_source hnative, fun hdepth => ?_⟩⟩
  · have hdepth := depth_lt_of_ofTextWithin hreading h
    exact ⟨measuredBy_of_ofTextWithin h, leavesWithin_of_le (by omega),
      depthWithin_of_le (by omega)⟩
  · exact ⟨sourceWithin_eq_ok hnative hdepth, leavesWithin_of_le hdepth, depthWithin_of_le hdepth⟩

/-- A loop in a loop, with two comments, measured when it is read and when it is written. -/
theorem measures_of_text_two_deep :
    let text : List Char := ['+', 'x', '[', '>', '[', '-', ']', '\n', ']', '.']
    let p : Program := .command .input none (.loop (.command .output none .nil) none .nil)
    0 < Limits.sample.reading ∧
      Limits.sample.reading ≤ Limits.sample.walking + 1 ∧
      (∃ q, ofText text = .ok q ∧ q.leavesWithin Limits.sample.walking = some 4 ∧ q.loops = 2 ∧
        IsGreatest (balance '' {u | u <+: text}) (2 : Int) ∧ q.length = 3) ∧
      p.sourceWithin Limits.sample.walking = .ok [',', '[', '.', ']'] ∧
      p.leavesWithin Limits.sample.walking = some 2 ∧
      IsGreatest (balance '' {u | u <+: [',', '[', '.', ']']}) (1 : Int) := by
  intro text p
  have hreading : 0 < Limits.sample.reading := by decide
  have hwalking : Limits.sample.reading ≤ Limits.sample.walking + 1 := by decide
  obtain ⟨hread, hwritten⟩ := measures_of_text .sample hreading hwalking
  obtain ⟨q, hq, hdepth⟩ : ∃ q, ofText text = .ok q ∧ q.depth = 2 := ⟨_, rfl, rfl⟩
  obtain ⟨hmeasured, hleaves, -⟩ := hread text q hq
  have hcommands : q.leaves = 4 := hmeasured.leaves.trans (by decide)
  obtain ⟨hpmeasured, hpwithin⟩ := hwritten p rfl
  obtain ⟨hpsource, hpleaves, -⟩ := hpwithin (by decide)
  have hgreatest := hmeasured.depth
  rw [hdepth] at hgreatest
  exact ⟨hreading, hwalking, ⟨q, hq, hleaves.trans (congrArg some hcommands),
    hmeasured.loops.trans (by decide), hgreatest, hmeasured.length.trans (by decide)⟩,
    hpsource, hpleaves, hpmeasured.depth⟩

end Program

end TapeLang
