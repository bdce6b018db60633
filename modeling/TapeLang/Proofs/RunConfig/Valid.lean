import TapeLang.Proofs.RunConfig.Records
import TapeLang.RunConfig.Basic

/-!
# Valid configurations

Which configurations can be made from named values.

* `RunConfig.ofFields_eq`: making a configuration is the conversion of two values, one for each
  field, if no other is offered.
* `RunConfig.valid_iff`: just those can be made that ask for a cell at least and, if they set a
  limit, for a step at least. Each of them is made from its own two numbers
  (`RunConfig.ofFields_toFields`).
-/

namespace TapeLang

namespace Value

/-- The integer that a value stands for, if it is at least one. -/
def toPositive (v : Value) : Except IssueKind Int :=
  match v.toInt with
  | .ok n => if n < 1 then .error (.tooSmall 1) else .ok n
  | .error e => .error e

/-- The limit that a value stands for. -/
def toLimit (v : Value) : Except IssueKind (Option Int) :=
  if v.isUnlimited then .ok none else v.toPositive.map some

/-- A number that is accepted as positive is at least one. -/
theorem one_le_of_toPositive {v : Value} {n : Int} (h : v.toPositive = .ok n) : 1 ≤ n := by
  unfold toPositive at h
  split at h
  · split at h
    · cases h
    · next hn =>
      cases h
      exact Int.not_lt.1 hn
  · cases h

theorem toPositive_int {n : Int} (h : 1 ≤ n) : (int n).toPositive = .ok n := by
  rw [toPositive, toInt]
  exact if_neg (Int.not_lt.2 h)

/-- A limit that is accepted allows a step. -/
theorem one_le_of_toLimit {v : Value} {l : Int} (h : v.toLimit = .ok (some l)) : 1 ≤ l := by
  unfold toLimit at h
  split at h
  · cases h
  · cases hv : v.toPositive with
    | error e => simp [hv, Except.map] at h
    | ok n =>
      simp only [hv, Except.map, Except.ok.injEq, Option.some.injEq] at h
      exact h ▸ one_le_of_toPositive hv

theorem toLimit_int {l : Int} (h : 1 ≤ l) : (int l).toLimit = .ok (some l) := by
  have hlimited : (int l).isUnlimited = false := by
    simp only [isUnlimited, isZero, decide_eq_false_iff_not]
    omega
  rw [toLimit, hlimited, toPositive_int h]
  rfl

end Value

namespace RunConfig

/-! ## Conversions -/

/-- Convert the value offered for a field; a field that is not offered has its default. -/
def convert {α : Type} (fields : Fields) (name : String) (default : α)
    (conversion : Value → Except IssueKind α) : Except Issue α :=
  match fields.get? name with
  | none => .ok default
  | some v =>
    match conversion v with
    | .ok a => .ok a
    | .error kind => .error ⟨name, kind, v⟩

/-- One issue for every value under an unknown name. -/
def unknownFields (fields : Fields) : List Issue :=
  (fields.filter fun f => f.1 ≠ tapeSizeField && f.1 ≠ stepLimitField).map fun f =>
    ⟨f.1, .unknownField, f.2⟩

theorem fields_schema : schema.fields = [tapeSizeSchema, stepLimitSchema] := rfl

theorem tapeSizeSchema_mem : tapeSizeSchema ∈ schema.fields := List.mem_cons_self

theorem stepLimitSchema_mem : stepLimitSchema ∈ schema.fields :=
  List.mem_cons_of_mem _ List.mem_cons_self

theorem unknown_schema (fields : Fields) : schema.unknown fields = unknownFields fields := by
  show (fields.filter fun g => !schema.declares g.1).map _ = _
  have hdeclares : ∀ name, (!schema.declares name) =
      (decide (name ≠ tapeSizeField) && decide (name ≠ stepLimitField)) := by
    intro name
    simp [Schema.declares, schema, tapeSizeSchema, stepLimitSchema, eq_comm]
  simp only [hdeclares, unknownFields]

theorem accept_tapeSize (v : Value) :
    tapeSizeSchema.accept Value.toInt v = v.toPositive.map Value.int := by
  have hprepare : tapeSizeSchema.prepare v = v := rfl
  rw [FieldSchema.accept, hprepare, Value.toPositive]
  cases v.toInt with
  | error kind => rfl
  | ok n => by_cases hn : n < 1 <;> simp [hn, Except.map, tapeSizeSchema]

theorem prepare_stepLimit {v : Value} (h : v.isUnlimited = false) :
    stepLimitSchema.prepare v = v := by
  show v.withoutLimit = v
  rw [Value.withoutLimit, h]
  rfl

theorem accept_stepLimit (v : Value) :
    stepLimitSchema.accept Value.toInt v = v.toLimit.map limitValue := by
  rw [FieldSchema.accept, Value.toLimit]
  cases h : v.isUnlimited with
  | true =>
    have hnull : stepLimitSchema.prepare v = .null := if_pos h
    rw [hnull]
    rfl
  | false =>
    have hnull : v ≠ .null := by
      rintro rfl
      cases h
    rw [prepare_stepLimit h, Value.toPositive]
    cases v.toInt with
    | error kind => simp [hnull, Except.map]
    | ok n => by_cases hn : n < 1 <;> simp [hnull, hn, Except.map, stepLimitSchema, limitValue]

/-- What comes of a field is what its value is converted to. A value that is refused has not been
prepared to be another one. -/
theorem outcome_eq_convert {α : Type} {f : FieldSchema} {default : α}
    {conversion : Value → Except IssueKind α} {ofResult : α → Value} (fields : Fields)
    (hdefault : f.default = ofResult default)
    (haccept : ∀ v, f.accept Value.toInt v = (conversion v).map ofResult)
    (hprepare : ∀ v kind, conversion v = .error kind → f.prepare v = v) :
    f.outcome Value.toInt fields =
      (convert fields f.name default conversion).map ofResult := by
  rw [FieldSchema.outcome, convert]
  cases fields.get? f.name with
  | none =>
    rw [hdefault]
    rfl
  | some v =>
    simp only [haccept]
    cases hv : conversion v with
    | ok a => rfl
    | error kind =>
      rw [hprepare v kind hv]
      rfl

theorem outcome_tapeSize (fields : Fields) :
    tapeSizeSchema.outcome Value.toInt fields =
      (convert fields tapeSizeField Tape.standardSize Value.toPositive).map Value.int :=
  outcome_eq_convert fields rfl accept_tapeSize fun _ _ _ => rfl

theorem outcome_stepLimit (fields : Fields) :
    stepLimitSchema.outcome Value.toInt fields =
      (convert fields stepLimitField none Value.toLimit).map limitValue := by
  refine outcome_eq_convert fields rfl accept_stepLimit fun v kind hv => ?_
  refine prepare_stepLimit (Bool.eq_false_iff.2 fun hunlimited => ?_)
  rw [Value.toLimit, if_pos hunlimited] at hv
  cases hv

theorem issueOf_map {α β : Type} (f : α → β) (r : Except Issue α) :
    issueOf (r.map f) = issueOf r := by
  cases r <;> rfl

theorem issues_schema (fields : Fields) :
    schema.issues Value.toInt fields =
      issueOf (convert fields tapeSizeField Tape.standardSize Value.toPositive) ++
        issueOf (convert fields stepLimitField none Value.toLimit) ++ unknownFields fields := by
  rw [Schema.issues, fields_schema, List.flatMap_cons, List.flatMap_cons, List.flatMap_nil,
    List.append_nil, outcome_tapeSize, outcome_stepLimit, issueOf_map, issueOf_map, unknown_schema]

/-- A configuration is refused just if something is wrong, and then all that is wrong is reported.
-/
theorem ofFields_eq_error_iff {fields : Fields} {issues : List Issue} :
    ofFields fields = .error issues ↔ issues ≠ [] ∧ issues = schema.issues Value.toInt fields := by
  rw [← Schema.make_eq_error_iff]
  show (schema.make fields).map _ = .error issues ↔ _
  cases schema.make fields <;> simp [Except.map]

/-- Making a configuration is converting the two values that are offered for its fields, and
refusing all others. -/
theorem ofFields_eq (fields : Fields) :
    ofFields fields =
      match convert fields tapeSizeField Tape.standardSize Value.toPositive,
        convert fields stepLimitField none Value.toLimit, unknownFields fields with
      | .ok tapeSize, .ok stepLimit, [] => .ok ⟨tapeSize, stepLimit⟩
      | tapeSize, stepLimit, unknown =>
        .error (issueOf tapeSize ++ issueOf stepLimit ++ unknown) := by
  have hissues := issues_schema fields
  show (schema.make fields).map _ = _
  cases hsize : convert fields tapeSizeField Tape.standardSize Value.toPositive with
  | error issue =>
    rw [hsize] at hissues
    rw [Schema.make, hissues]
    rfl
  | ok size =>
    cases hlimit : convert fields stepLimitField none Value.toLimit with
    | error issue =>
      rw [hsize, hlimit] at hissues
      rw [Schema.make, hissues]
      rfl
    | ok limit =>
      cases hunknown : unknownFields fields with
      | cons issue rest =>
        rw [hsize, hlimit, hunknown] at hissues
        rw [Schema.make, hissues]
        rfl
      | nil =>
        rw [hsize, hlimit, hunknown] at hissues
        have hentries : (schema.fields.filterMap fun f => f.entryOf? fields) =
            [(tapeSizeField, .int size), (stepLimitField, limitValue limit)] := by
          have hfirst : tapeSizeSchema.entryOf? fields = some (tapeSizeField, .int size) := by
            rw [FieldSchema.entryOf?, outcome_tapeSize, hsize]
            rfl
          have hsecond : stepLimitSchema.entryOf? fields =
              some (stepLimitField, limitValue limit) := by
            rw [FieldSchema.entryOf?, outcome_stepLimit, hlimit]
            rfl
          simp only [fields_schema, List.filterMap_cons, hfirst, hsecond, List.filterMap_nil]
        rw [Schema.make, hissues, hentries]
        cases limit <;> rfl

/-! ## Valid configurations -/

variable {config : RunConfig} {fields : Fields}

/-- The tape has a cell, and a limit allows a step. -/
structure Valid (config : RunConfig) : Prop where
  /-- The tape has a cell. -/
  one_le_tapeSize : 1 ≤ config.tapeSize
  /-- A limit, if there is one, allows a step. -/
  one_le_stepLimit : ∀ l, config.stepLimit = some l → 1 ≤ l

/-- A field that is not offered has its default, and any other the value it is converted to. -/
theorem convert_cases {α : Type} {name : String} {default a : α}
    {conversion : Value → Except IssueKind α}
    (h : convert fields name default conversion = .ok a) :
    a = default ∨ ∃ v, conversion v = .ok a := by
  unfold convert at h
  split at h
  · cases h
    exact Or.inl rfl
  · next v _ =>
    split at h
    · next hv =>
      cases h
      exact Or.inr ⟨v, hv⟩
    · cases h

/-- A configuration that has been made is valid. -/
theorem valid_of_ofFields (h : ofFields fields = .ok config) : config.Valid := by
  rw [ofFields_eq] at h
  split at h
  · next tapeSize stepLimit hsize hlimit _ =>
    cases h
    constructor
    · rcases convert_cases hsize with rfl | ⟨v, hv⟩
      · show 1 ≤ Tape.standardSize
        decide
      · exact Value.one_le_of_toPositive hv
    · rintro l rfl
      rcases convert_cases hlimit with hnone | ⟨v, hv⟩
      · cases hnone
      · exact Value.one_le_of_toLimit hv
  · cases h

/-- The numbers of a configuration under the names of their fields. -/
def toFields (config : RunConfig) : Fields :=
  (tapeSizeField, .int config.tapeSize) ::
    (config.stepLimit.map fun l => (stepLimitField, Value.int l)).toList

/-- A valid configuration is made from its numbers. -/
theorem ofFields_toFields (h : config.Valid) : ofFields config.toFields = .ok config := by
  obtain ⟨size, limit⟩ := config
  have hsize : (Value.int size).toPositive = .ok size := Value.toPositive_int h.one_le_tapeSize
  cases limit with
  | none =>
    simp [ofFields_eq, toFields, convert, Fields.get?, unknownFields, hsize, tapeSizeField,
      stepLimitField]
  | some l =>
    have hlimit : (Value.int l).toLimit = .ok (some l) :=
      Value.toLimit_int (h.one_le_stepLimit l rfl)
    simp [ofFields_eq, toFields, convert, Fields.get?, unknownFields, hsize, hlimit, tapeSizeField,
      stepLimitField]

/-- The valid configurations are those that can be made. -/
theorem valid_iff : config.Valid ↔ ∃ fields, ofFields fields = .ok config :=
  ⟨fun h => ⟨_, ofFields_toFields h⟩, fun ⟨_, h⟩ => valid_of_ofFields h⟩

end RunConfig

end TapeLang
