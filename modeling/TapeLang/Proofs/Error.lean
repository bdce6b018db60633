import Mathlib.Algebra.Group.Int.Defs
import Mathlib.Algebra.Group.Nat.Defs
import TapeLang.Error

/-!
# Integers that cannot be written

An integer can be written if it lies below the first power of ten that has too many digits
(`Text.isWritable_iff`). An error of the language whose message would show a longer one is never
seen: what is seen in its place is the complaint about that integer (`RunError.ShowsIff`).
-/

namespace TapeLang

namespace Text

theorem fits_iff (digits n : Nat) : fits digits n = true ↔ n < 10 ^ digits := by
  induction digits generalizing n with
  | zero => simp [fits]
  | succ digits ih =>
    have hpos : 0 < 10 ^ digits := Nat.pow_pos (by decide)
    simp only [fits, Bool.or_eq_true, decide_eq_true_eq, ih, Nat.pow_succ]
    omega

theorem isWritable_iff (n : Int) : isWritable n = true ↔ n.natAbs < 10 ^ maxDigits :=
  fits_iff maxDigits n.natAbs

/-- Integers that count what a machine can hold are written without ado. -/
theorem isWritable_of_natAbs_le {n : Int} (h : n.natAbs ≤ 0x8000000000000000) :
    isWritable n = true := by
  have hlarge : 0x8000000000000000 < 10 ^ maxDigits :=
    Nat.lt_of_lt_of_le (show 0x8000000000000000 < 10 ^ 19 by decide)
      (Nat.pow_le_pow_right (by decide) (by decide))
  exact (isWritable_iff n).2 (Nat.lt_of_le_of_lt h hlarge)

/-- The first integer below zero that is too long. -/
theorem neg_pow_unwritable :
    (-10 ^ maxDigits : Int) < 0 ∧ ¬ (-10 ^ maxDigits : Int).natAbs < 10 ^ maxDigits := by
  have hten : (10 : Int).natAbs = 10 := rfl
  refine ⟨Int.neg_neg_of_pos (Int.pow_pos (by decide)), ?_⟩
  rw [Int.natAbs_neg, Int.natAbs_pow, hten]
  exact Nat.lt_irrefl (10 ^ maxDigits)

theorem isWritable_neg_pow : isWritable (-10 ^ maxDigits) = false :=
  Bool.eq_false_iff.2 (mt (isWritable_iff _).1 neg_pow_unwritable.2)

example : isWritable (-120) = true := by decide

end Text

namespace RunError

/-- The error of the language is seen just if its message can be written. -/
theorem failure?_eq_some_iff {e : RunError} {f : Failure} :
    e.failure? = some f ↔ e.meant? = some f ∧ f.isWritable = true := by
  rw [failure?, Option.filter_eq_some_iff]

/-- What a caller sees is an error of the language just if it is of such a class. -/
theorem errorClass_eq_language_iff {e : RunError} {kind : FailureKind} :
    e.errorClass = .language kind ↔ ∃ f, e.failure? = some f ∧ f.kind = kind := by
  unfold errorClass
  split
  iterate 4
    · constructor
      · intro h
        cases h
      · rintro ⟨f, hf, -⟩
        cases hf
  all_goals
    cases h : failure? _ <;> simp

/-- A caller sees this error of the language just if the condition holds, and otherwise the
complaint about an integer that cannot be written. -/
structure ShowsIff (e : RunError) (f : Failure) (condition : Prop) : Prop where
  /-- The error can be worded. -/
  shown : condition → e.failure? = some f ∧ e.errorClass = .language f.kind
  /-- The wording of the error has failed. -/
  hidden : ¬ condition → e.failure? = none ∧ e.errorClass = .value ∧ e.message = Text.unwritable

theorem message_of_meant {e : RunError} {f : Failure} (h : e.meant? = some f) :
    e.message = (e.failure?.map Failure.message).getD Text.unwritable := by
  cases e with
  | offTape _ _ _ => rfl
  | stepLimit _ => rfl
  | badCell _ _ => rfl
  | tooDeep => rfl
  | unreadable | unwritable | unindexable | foreign _ => cases h

/-- The error that a caller sees is worded as such. -/
theorem message_of_failure? {e : RunError} {f : Failure} (h : e.failure? = some f) :
    e.message = f.message := by
  rw [message_of_meant (failure?_eq_some_iff.1 h).1, h, Option.map_some, Option.getD_some]

theorem showsIff_of_meant {e : RunError} {f : Failure} (h : e.meant? = some f) :
    e.ShowsIff f (f.isWritable = true) where
  shown hwritable := by
    have hseen := failure?_eq_some_iff.2 ⟨h, hwritable⟩
    exact ⟨hseen, errorClass_eq_language_iff.2 ⟨f, hseen, rfl⟩⟩
  hidden hunwritable := by
    have hnone : e.failure? = none := by
      rw [failure?, h, Option.filter_some, if_neg hunwritable]
    refine ⟨hnone, ?_, ?_⟩
    · unfold errorClass
      rw [hnone]
      cases e <;> first | rfl | cases h
    · rw [message_of_meant h, hnone, Option.map_none, Option.getD_none]

/-- The limit is shown if it has no more digits than can be written. -/
theorem stepLimit_showsIff (limit : Int) :
    (stepLimit limit).ShowsIff (.stepLimitExceeded (.int limit))
      (limit.natAbs < 10 ^ Text.maxDigits) := by
  have h := showsIff_of_meant (e := stepLimit limit) rfl
  simpa [Failure.isWritable, Failure.shown, Value.isWritable, Text.isWritable_iff] using h

/-- The pointer and the size of the tape are shown if they have no more digits than can be written.
-/
theorem offTape_showsIff (pointer : Int) (tapeSize : Nat) (direction : Direction) :
    (offTape pointer tapeSize direction).ShowsIff
      (.pointerOutOfBounds (.int pointer) (.int tapeSize) (.text direction.word.toList))
      (pointer.natAbs < 10 ^ Text.maxDigits ∧ tapeSize < 10 ^ Text.maxDigits) := by
  have h := showsIff_of_meant (e := offTape pointer tapeSize direction) rfl
  simpa [Failure.isWritable, Failure.shown, Value.isWritable, Text.isWritable_iff] using h

end RunError

end TapeLang
