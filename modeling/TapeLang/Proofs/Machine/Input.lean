import TapeLang.Machine.Basic

/-!
# What a program reads

A program sees its input one code point per line: the first one that is left when the breaks at the
end of the line are dropped (`Text.inputPoint`). A machine that has read some lines goes on with the
next code point of its text (`Machine.takeLine_of_drop`).
-/

namespace TapeLang

namespace Text

/-- The code point that reading a text gives for the `k`-th time, counted from zero: the first one
of the `k`-th line behind which all breaks are dropped, and zero if there is none. -/
def inputPoint (text : List CodePoint) (k : Nat) : CodePoint :=
  (chomp ((lines text).getD k [])).headD 0

/-- Behind its last line a text gives nothing. -/
theorem inputPoint_of_length_le {text : List CodePoint} {k : Nat} (h : (lines text).length ≤ k) :
    inputPoint text k = 0 := by
  simp [inputPoint, h, chomp]

end Text

theorem lineValue_eq (line : List Text.CodePoint) :
    lineValue line = ((Text.chomp line).headD 0).val := by
  unfold lineValue
  split
  · next h =>
    rw [h]
    rfl
  · next c rest h => rw [h, List.headD_cons]

/-- When some lines of a text have been taken, taking a line gives its next code point. -/
theorem Machine.takeLine_of_drop {m : Machine} {text : List Text.CodePoint} {k : Nat}
    (h : m.input = (Text.lines text).drop k) :
    m.takeLine.1 = (Text.inputPoint text k).val ∧
      m.takeLine.2.input = (Text.lines text).drop (k + 1) := by
  unfold takeLine
  split
  · next hnone =>
    have hk : (Text.lines text).length ≤ k := List.drop_eq_nil_iff.1 (h.symm.trans hnone)
    rw [Text.inputPoint_of_length_le hk, List.drop_eq_nil_of_le (Nat.le_succ_of_le hk)]
    exact ⟨rfl, hnone⟩
  · next line rest hsome =>
    have hdrop := h.symm.trans hsome
    have hline : (Text.lines text)[k]? = some line := by
      rw [← List.head?_drop, hdrop, List.head?_cons]
    refine ⟨?_, ?_⟩
    · rw [Text.inputPoint, List.getD_eq_getElem?_getD, hline, Option.getD_some, lineValue_eq]
    · rw [← List.tail_drop, hdrop, List.tail_cons]

end TapeLang
