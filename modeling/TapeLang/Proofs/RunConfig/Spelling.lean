import TapeLang.Proofs.RunConfig.IntText
import TapeLang.Proofs.Settings.Loading

/-!
# Spellings of a number

A text in lenient spelling is used for its number alone (`RunConfig.verdict_tapeSize`,
`RunConfig.verdict_stepLimit`), except for zero as a step limit: that is recognised before the text
is read, so a zero is no limit in one spelling and refused in all others
(`Value.toLimit_text_of_zero`).
-/

namespace TapeLang

/-! ## Conversions -/

namespace Value

variable {s : List Char} {n : Int}

theorem ofLenient_of_toInt (h : (text s).toInt = .ok n) : IntText.ofLenient s = .ok n := by
  rw [toInt] at h
  split at h
  · next m hm =>
    cases h
    exact hm
  · cases h
  · cases h

theorem toInt_of_ofLenient (h : IntText.ofLenient s = .ok n) : (text s).toInt = .ok n := by
  rw [toInt, h]

/-- As a tape size, a text is used for its number alone. -/
theorem toPositive_text (h : (text s).toInt = .ok n) :
    (text s).toPositive = (int n).toPositive := by
  rw [toPositive, h, toPositive, toInt]

/-- Of all texts that are read as an integer, a single zero is the only one that is recognised as no
limit. -/
theorem isUnlimited_text_iff (h : (text s).toInt = .ok n) :
    (text s).isUnlimited = true ↔ Text.strip s = ['0'] := by
  have hread := ofLenient_of_toInt h
  have hstripped := IntText.ofLenient_strip hread
  have hlower : (Text.strip s).map Char.toLower = Text.strip s := by
    have hspelling := IntText.isSpelling_of_ofLenient hread
    rw [← IntText.strip_of_ofLenient hread] at hspelling
    exact (List.map_congr_left fun c hc => IntText.toLower_of_isSpelling (hspelling c hc)).trans
      (List.map_id _)
  -- Of the three words for no limit, two are not read as integers.
  have hempty : Text.strip s ≠ [] := IntText.strip_ne_nil hread
  have hnone : Text.strip s ≠ ['n', 'o', 'n', 'e'] := by
    intro heq
    rw [heq] at hstripped
    cases hstripped
  simp [isUnlimited, hlower, hempty, hnone]

/-- As a step limit, a text is used for its number alone, unless that is zero and the text spells it
with more than a single zero. -/
theorem toLimit_text (h : (text s).toInt = .ok n) (hzero : n ≠ 0 ∨ Text.strip s = ['0']) :
    (text s).toLimit = (int n).toLimit := by
  have hunlimited : (text s).isUnlimited = (int n).isUnlimited := by
    have hint : (int n).isUnlimited = decide (n = 0) := rfl
    rw [Bool.eq_iff_iff, isUnlimited_text_iff h, hint, decide_eq_true_iff]
    constructor
    · intro hsingle
      have hread := IntText.ofLenient_strip (ofLenient_of_toInt h)
      rw [hsingle] at hread
      exact (Except.ok.inj hread).symm
    · exact fun hn => hzero.resolve_left (not_not_intro hn)
  rw [toLimit, toLimit, hunlimited, toPositive_text h]

/-- In any other spelling, zero is refused as a step limit for being too small. -/
theorem toLimit_text_of_zero (h : (text s).toInt = .ok 0) (hspelling : Text.strip s ≠ ['0']) :
    (text s).toLimit = .error (.tooSmall 1) := by
  have hlimited : (text s).isUnlimited = false :=
    Bool.eq_false_iff.2 fun hunlimited => hspelling ((isUnlimited_text_iff h).1 hunlimited)
  rw [toLimit, hlimited, toPositive, h]
  rfl

end Value

/-! ## Verdicts -/

/-- What an issue complains about: a field and what is wrong with it, whatever its value is. -/
def Issue.complaint (issue : Issue) : String × IssueKind :=
  (issue.field, issue.kind)

namespace RunConfig

variable {fields fields' : Fields} {s : List Char} {n : Int}

/-- The configuration that some named values describe, or the complaints about them. -/
def verdict (fields : Fields) : Except (List (String × IssueKind)) RunConfig :=
  (ofFields fields).mapError (List.map Issue.complaint)

/-- Outcomes with the same complaints are the same success, or failures that are complained about in
the same way. -/
theorem mapError_cases {α ε ε' : Type} {f : ε → ε'} {a b : Except ε α}
    (h : a.mapError f = b.mapError f) :
    (∃ x, a = .ok x ∧ b = .ok x) ∨ ∃ e e', a = .error e ∧ b = .error e' ∧ f e = f e' := by
  cases a with
  | ok x =>
    cases b with
    | ok y => exact .inl ⟨x, rfl, congrArg Except.ok (Except.ok.inj h).symm⟩
    | error e' => cases h
  | error e =>
    cases b with
    | ok y => cases h
    | error e' => exact .inr ⟨e, e', rfl, rfl, Except.error.inj h⟩

/-- Two verdicts are the same if the fields are converted alike and the other names are. -/
theorem verdict_congr
    (hsize : (convert fields tapeSizeField Tape.standardSize Value.toPositive).mapError
        Issue.complaint =
      (convert fields' tapeSizeField Tape.standardSize Value.toPositive).mapError Issue.complaint)
    (hlimit : (convert fields stepLimitField none Value.toLimit).mapError Issue.complaint =
      (convert fields' stepLimitField none Value.toLimit).mapError Issue.complaint)
    (hunknown : (unknownFields fields).map Issue.complaint =
      (unknownFields fields').map Issue.complaint) :
    verdict fields = verdict fields' := by
  rw [verdict, verdict, ofFields_eq, ofFields_eq]
  rcases mapError_cases hsize with ⟨size, hs, hs'⟩ | ⟨i, i', hs, hs', hi⟩ <;>
    rcases mapError_cases hlimit with ⟨limit, hl, hl'⟩ | ⟨j, j', hl, hl', hj⟩ <;>
    rw [hs, hs', hl, hl']
  · -- Both fields are converted, and only other names are complained about.
    cases hu : unknownFields fields with
    | nil =>
      rw [hu] at hunknown
      rw [List.map_eq_nil_iff.1 hunknown.symm]
    | cons issue rest =>
      cases hu' : unknownFields fields' with
      | nil => simp [hu, hu'] at hunknown
      | cons issue' rest' =>
        rw [hu, hu'] at hunknown
        simp [Except.mapError, issueOf, hunknown]
  · simp [Except.mapError, issueOf, hj, hunknown]
  · simp [Except.mapError, issueOf, hi, hunknown]
  · simp [Except.mapError, issueOf, hi, hj, hunknown]

/-- What the conversion of a field complains about depends on the outcome of the conversion only, so
a value may be replaced by another one that is converted alike. -/
theorem convert_replace {α : Type} {name : String} {v v' : Value} (before after : Fields)
    (other : String) (default : α) {conversion : Value → Except IssueKind α}
    (h : name = other → conversion v = conversion v') :
    (convert (before ++ (name, v) :: after) other default conversion).mapError Issue.complaint =
      (convert (before ++ (name, v') :: after) other default conversion).mapError
        Issue.complaint := by
  unfold convert
  rw [Fields.get?_append, Fields.get?_append]
  -- An earlier value under the name comes first, whatever the later one is.
  cases before.get? other with
  | some w => rfl
  | none =>
    by_cases hname : name = other
    · have hfirst : ∀ w, Fields.get? ((name, w) :: after) other = some w := fun w => by
        simp [Fields.get?, hname]
      rw [hfirst, hfirst, Option.none_or, Option.none_or]
      simp only [h hname]
      cases conversion v' <;> rfl
    · have hrest : ∀ w, Fields.get? ((name, w) :: after) other = after.get? other := fun w => by
        simp [Fields.get?, hname]
      rw [hrest, hrest]

/-- The complaints about other names do not depend on values. -/
theorem unknownFields_replace {name : String} {v v' : Value} (before after : Fields) :
    (unknownFields (before ++ (name, v) :: after)).map Issue.complaint =
      (unknownFields (before ++ (name, v') :: after)).map Issue.complaint := by
  simp only [unknownFields, List.filter_append, List.filter_cons]
  split <;> simp [Issue.complaint]

/-- A text is as good a tape size as the integer that it is read as. -/
theorem verdict_tapeSize (h : (Value.text s).toInt = .ok n) (before after : Fields) :
    verdict (before ++ (tapeSizeField, .text s) :: after) =
      verdict (before ++ (tapeSizeField, .int n) :: after) :=
  verdict_congr (convert_replace before after _ _ fun _ => Value.toPositive_text h)
    (convert_replace before after _ _ fun hname => absurd hname (by decide))
    (unknownFields_replace before after)

/-- A text is as good a step limit as the integer that it is read as, unless that is zero and the
text spells it with more than a single zero. -/
theorem verdict_stepLimit (h : (Value.text s).toInt = .ok n)
    (hzero : n ≠ 0 ∨ Text.strip s = ['0']) (before after : Fields) :
    verdict (before ++ (stepLimitField, .text s) :: after) =
      verdict (before ++ (stepLimitField, .int n) :: after) :=
  verdict_congr (convert_replace before after _ _ fun hname => absurd hname (by decide))
    (convert_replace before after _ _ fun _ => Value.toLimit_text h hzero)
    (unknownFields_replace before after)

end RunConfig

end TapeLang
