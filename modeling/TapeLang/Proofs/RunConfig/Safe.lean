import Mathlib.Algebra.Field.Rat
import Mathlib.Algebra.GroupWithZero.Basic
import TapeLang.Proofs.CommandLine.Routes
import TapeLang.Proofs.Settings.Loading
import TapeLang.Proofs.RunConfig.Records

/-!
# Safe configurations

A configuration that has been made asks for a cell at least and for no limit that forbids every
step, it can be made again from what it holds, and nothing that is assigned to its fields changes
it. So no run under it is refused its tape for having no cell. All this holds with any lawful
library of records.

* `Value.isUnlimited_iff`: the values that ask for no limit, with numbers compared as numbers.
* `RunConfig.exists_config`: what a record of the schema holds.
* `RunConfig.exists_remade`: what is made from the two values that it holds.
* `RunConfig.accepted_safe`: all of this together.
-/

namespace TapeLang

/-! ## Values without a limit -/

/-- The number that a fraction is. -/
def Binary.number (b : Binary) : ℚ :=
  (if b.negative then -1 else 1) * b.significand * 2 ^ b.exponent

/-- A fraction is zero if its significand is. -/
theorem Binary.isZero_iff (b : Binary) : b.isZero = true ↔ b.number = 0 := by
  have hsign : (if b.negative then (-1 : ℚ) else 1) ≠ 0 := by
    split <;> decide
  have hpower : (2 : ℚ) ^ b.exponent ≠ 0 := zpow_ne_zero _ two_ne_zero
  rw [isZero, decide_eq_true_iff, number, mul_eq_zero_iff_right hpower,
    mul_eq_zero_iff_left hsign, Nat.cast_eq_zero]

namespace Value

/-- The number that a value is, if it is one; truth values count as zero and one. -/
def number? : Value → Option ℚ
  | bool b => some (if b then 1 else 0)
  | int n => some n
  | binary b => some b.number
  | null | infinite _ | undefined | text _ | list _ | record _ => none

theorem isZero_iff (v : Value) : v.isZero = true ↔ v.number? = some 0 := by
  cases v with
  | bool b => cases b <;> simp [isZero, number?]
  | int n => simp [isZero, number?]
  | binary b => simpa [isZero, number?] using b.isZero_iff
  | _ => simp [isZero, number?]

/-- The value asks for no limit: it is no value at all, a number that equals zero, or one of three
words, blanks around it and upper case aside. -/
def AsksForNoLimit (v : Value) : Prop :=
  v = null ∨ v.number? = some 0 ∨
    ∃ cs, v = text cs ∧
      (Text.strip cs).map Char.toLower ∈ [[], ['n', 'o', 'n', 'e'], ['0']]

theorem isUnlimited_iff (v : Value) : v.isUnlimited = true ↔ v.AsksForNoLimit := by
  have hzero := v.isZero_iff
  cases v with
  | text cs => simp [isUnlimited, AsksForNoLimit, number?, or_assoc]
  | null => simp [isUnlimited, AsksForNoLimit]
  | _ => simpa [isUnlimited, AsksForNoLimit] using hzero

end Value

/-! ## Records of the schema -/

namespace RunConfig

variable {toInt : Value → Except IssueKind Int} {records : RecordLibrary} {given : Fields}

/-- A tape size that is accepted is an integer, and at least one. -/
theorem tapeSize_of_accept {v w : Value} (h : tapeSizeSchema.accept toInt v = .ok w) :
    ∃ n, w = .int n ∧ 1 ≤ n := by
  rcases FieldSchema.accept_cases h with ⟨-, hoptional, -⟩ | ⟨-, n, hw, hn⟩
  · cases hoptional
  · exact ⟨n, hw, hn⟩

/-- A limit that is accepted is none if none is asked for, and else an integer that is at least
one. -/
theorem stepLimit_of_accept {v w : Value} (h : stepLimitSchema.accept toInt v = .ok w) :
    v.isUnlimited = true ∧ w = .null ∨ v.isUnlimited = false ∧ ∃ l, w = .int l ∧ 1 ≤ l := by
  -- What asks for no limit is prepared to be no value, and nothing else is.
  have hprepare : stepLimitSchema.prepare v = .null ↔ v.isUnlimited = true := by
    cases hunlimited : v.isUnlimited with
    | true => simp [stepLimitSchema, Value.withoutLimit, hunlimited]
    | false =>
      rw [prepare_stepLimit hunlimited]
      refine ⟨?_, fun hfalse => absurd hfalse Bool.false_ne_true⟩
      rintro rfl
      cases hunlimited
  rcases FieldSchema.accept_cases h with ⟨hnull, -, hw⟩ | ⟨hsome, l, hw, hl⟩
  · exact .inl ⟨hprepare.1 hnull, hw⟩
  · exact .inr ⟨Bool.eq_false_iff.2 fun hunlimited => hsome ⟨rfl, hprepare.2 hunlimited⟩, l, hw, hl⟩

/-- What comes of the tape size is an integer, and at least one. -/
theorem tapeSize_of_outcome {w : Value} (h : tapeSizeSchema.outcome toInt given = .ok w) :
    ∃ n, w = .int n ∧ 1 ≤ n := by
  have htakes := FieldSchema.takes_of_outcome h
  cases hv : given.get? tapeSizeSchema.name with
  | none =>
    rw [hv] at htakes
    exact ⟨Tape.standardSize, htakes, by decide⟩
  | some v =>
    rw [hv] at htakes
    exact tapeSize_of_accept htakes

/-- What comes of the step limit is an integer that is at least one, or nothing: that just if none
was offered or what was offered asks for none. -/
theorem stepLimit_of_outcome {w : Value} (h : stepLimitSchema.outcome toInt given = .ok w) :
    (w = .null ∨ ∃ l, w = .int l ∧ 1 ≤ l) ∧
      (w = .null ↔ ∀ v, given.get? stepLimitField = some v → v.AsksForNoLimit) := by
  have htakes := FieldSchema.takes_of_outcome h
  have hname : stepLimitSchema.name = stepLimitField := rfl
  rw [hname] at htakes
  cases hv : given.get? stepLimitField with
  | none =>
    rw [hv] at htakes
    have hw : w = .null := htakes
    simp [hw]
  | some v =>
    rw [hv] at htakes
    simp only [Option.some.injEq, forall_eq', ← Value.isUnlimited_iff]
    rcases stepLimit_of_accept htakes with ⟨hunlimited, hw⟩ | ⟨hlimited, l, hw, hl⟩
    · exact ⟨.inl hw, by simp [hw, hunlimited]⟩
    · exact ⟨.inr ⟨l, hw, hl⟩, by simp [hw, hlimited]⟩

/-- A record of the schema holds the two values of a valid configuration. It has no limit just if
none was offered or what was offered asks for none. -/
theorem exists_config (h : records.Lawful) {r : records.Record}
    (hmade : records.make schema given = .ok r) :
    ∃ config : RunConfig, config.Valid ∧
      records.get r tapeSizeField = .ok config.values.1 ∧
      records.get r stepLimitField = .ok config.values.2 ∧
      (config.stepLimit = none ↔
        ∀ v, given.get? stepLimitField = some v → v.AsksForNoLimit) := by
  obtain ⟨size, hsize, hgetSize⟩ := h.exists_get_of_make hmade tapeSizeSchema_mem
  obtain ⟨limit, hlimit, hgetLimit⟩ := h.exists_get_of_make hmade stepLimitSchema_mem
  obtain ⟨n, rfl, hn⟩ := tapeSize_of_outcome hsize
  obtain ⟨hkind, hnone⟩ := stepLimit_of_outcome hlimit
  rcases hkind with rfl | ⟨l, rfl, hl⟩
  · exact ⟨⟨n, none⟩, ⟨hn, by simp⟩, hgetSize, hgetLimit, by simpa using hnone⟩
  · refine ⟨⟨n, some l⟩, ⟨hn, ?_⟩, hgetSize, hgetLimit, by simpa using hnone⟩
    rintro l' ⟨⟩
    exact hl

/-- The configuration that a record holds is read from it. -/
theorem ofRecord?_eq {r : records.Record} {config : RunConfig}
    (hsize : records.get r tapeSizeField = .ok config.values.1)
    (hlimit : records.get r stepLimitField = .ok config.values.2) :
    ofRecord? records r = some config := by
  obtain ⟨n, limit⟩ := config
  rw [ofRecord?, hsize, hlimit]
  cases limit <;> rfl

theorem accept_int (h : records.Lawful) {f : FieldSchema} {n : Int} (hn : f.least ≤ n)
    (hprepare : f.prepare (.int n) = .int n) : f.accept records.toInt (.int n) = .ok (.int n) := by
  rw [FieldSchema.accept, hprepare, h.toInt_int]
  simp [Int.not_lt.2 hn]

/-- The two values of a valid configuration are accepted as they are. -/
theorem outcome_values (h : records.Lawful) {config : RunConfig} (hvalid : config.Valid) :
    let again : Fields := [(tapeSizeField, config.values.1), (stepLimitField, config.values.2)]
    tapeSizeSchema.outcome records.toInt again = .ok config.values.1 ∧
      stepLimitSchema.outcome records.toInt again = .ok config.values.2 := by
  obtain ⟨n, limit⟩ := config
  intro again
  have hn : (1 : Int) ≤ n := hvalid.one_le_tapeSize
  have hsize : tapeSizeSchema.accept records.toInt (.int n) = .ok (.int n) := accept_int h hn rfl
  have hlimit : stepLimitSchema.accept records.toInt (limitValue limit) =
      .ok (limitValue limit) := by
    cases limit with
    | none => rfl
    | some l =>
      have hl : (1 : Int) ≤ l := hvalid.one_le_stepLimit l rfl
      have hlimited : (Value.int l).isUnlimited = false := by
        simp only [Value.isUnlimited, Value.isZero, decide_eq_false_iff_not]
        omega
      exact accept_int h hl (prepare_stepLimit hlimited)
  have hgetSize : again.get? tapeSizeSchema.name = some (.int n) := rfl
  have hgetLimit : again.get? stepLimitSchema.name = some (limitValue limit) := rfl
  constructor
  · rw [FieldSchema.outcome, hgetSize]
    dsimp only
    rw [hsize]
    rfl
  · rw [FieldSchema.outcome, hgetLimit]
    dsimp only
    rw [hlimit]
    rfl

/-- A valid configuration is made again from its two values. -/
theorem exists_remade (h : records.Lawful) {config : RunConfig} (hvalid : config.Valid) :
    ∃ r, records.make schema
        [(tapeSizeField, config.values.1), (stepLimitField, config.values.2)] = .ok r ∧
      records.get r tapeSizeField = .ok config.values.1 ∧
      records.get r stepLimitField = .ok config.values.2 := by
  obtain ⟨hsize, hlimit⟩ := outcome_values h hvalid
  -- Both values are accepted as they are and there is no other, so nothing is wrong.
  have hnone : schema.issues records.toInt
      [(tapeSizeField, config.values.1), (stepLimitField, config.values.2)] = [] := by
    refine Schema.issues_eq_nil_iff.2 ⟨fun f hf => ?_, rfl⟩
    rw [fields_schema, List.mem_cons, List.mem_singleton] at hf
    rcases hf with rfl | rfl
    · exact ⟨_, hsize⟩
    · exact ⟨_, hlimit⟩
  obtain ⟨r, hmade⟩ := h.exists_make hnone
  exact ⟨r, hmade, h.get_make _ _ r hmade _ tapeSizeSchema_mem _ hsize,
    h.get_make _ _ r hmade _ stepLimitSchema_mem _ hlimit⟩

/-- The names of the two fields. -/
def fieldNames : List String := [tapeSizeField, stepLimitField]

/-- A name of a field is that of its schema. -/
theorem exists_mem_schema {name : String} (h : name ∈ fieldNames) :
    ∃ f ∈ schema.fields, f.name = name := by
  rw [fieldNames, List.mem_cons, List.mem_singleton] at h
  rcases h with rfl | rfl
  · exact ⟨_, tapeSizeSchema_mem, rfl⟩
  · exact ⟨_, stepLimitSchema_mem, rfl⟩

end RunConfig

/-! ## Runs -/

/-- A complete run keeps the limit of its machine. -/
theorem Program.limit_runClosed {bound : Option Nat} (p : Program) (fuel : Nat) (m : Machine) :
    (p.runClosed bound fuel m).machine.limit = m.limit := by
  have hrun : (p.run bound fuel m).machine.limit = m.limit :=
    Config.limit_run ⟨p, [], m⟩ bound fuel
  rw [runClosed]
  cases h : p.run bound fuel m with
  | finished m' =>
    rw [h] at hrun
    exact hrun
  | failed e m' =>
    rw [h] at hrun
    exact hrun
  | unfinished c =>
    rw [h] at hrun
    exact hrun

/-- A tape of at least one cell is never refused for having none. -/
theorem Tape.blank?_ne_tooSmall {hasRoom : Nat → Bool} {size : Int} (h : 1 ≤ size) (n : Int) :
    blank? hasRoom size ≠ .error (.tooSmall n) := by
  intro hblank
  rw [blank?, if_neg (Int.not_lt.2 h)] at hblank
  split at hblank
  · cases hblank
  · split at hblank <;> cases hblank

section

variable {bounds : Limits} {fuel : Nat} {text : List Char} {input : List Text.CodePoint}
  {config : RunConfig}

/-- A run under a valid configuration is not refused a tape for having no cell. -/
theorem RunConfig.Valid.runText_ne_tooSmall (h : config.Valid) (n : Int) :
    runText bounds fuel text config input ≠ .error (.tape (.tooSmall n)) := by
  intro hrun
  unfold runText at hrun
  split at hrun
  · cases hrun
  · rcases config.machine_cases bounds.hasRoom (Text.lines input) with ⟨b, hblank, hmachine⟩ |
      ⟨t, -, -, hmachine⟩
    · rw [hmachine] at hrun
      cases hrun
      exact Tape.blank?_ne_tooSmall h.one_le_tapeSize n hblank
    · rw [hmachine] at hrun
      cases hrun

/-- An evaluation that is refused its tape is a run that is. -/
theorem runText_of_evaluate {b : BadTapeSize}
    (h : evaluate bounds fuel text config input = .error (.tape b)) :
    runText bounds fuel text config input = .error (.tape b) := by
  rw [evaluate_eq] at h
  cases hrun : runText bounds fuel text config input with
  | error e =>
    rw [hrun] at h
    cases h
    rfl
  | ok o =>
    rw [hrun] at h
    cases o <;> cases h

/-- A run has the limit of its configuration. -/
theorem limit_of_runText {o : Ending} (h : runText bounds fuel text config input = .ok o) :
    o.machine.limit = config.stepLimit := by
  unfold runText at h
  split at h
  · cases h
  · next p _ =>
    rcases config.machine_cases bounds.hasRoom (Text.lines input) with ⟨b, -, hmachine⟩ |
      ⟨t, -, -, hmachine⟩
    · rw [hmachine] at h
      cases h
    · rw [hmachine] at h
      cases h
      rw [Program.limit_runClosed]

end

namespace RunConfig

/-- What a configuration that has been made is like, whatever it was made from. The values under its
two fields are plain integers unless there is no limit; its tape has a cell, and its limit, if there
is one, allows a step. The same is made again from these two values, and assigning to its fields
fails and leaves it as it is. So no run and no evaluation is refused its tape for having no cell,
and all runs have a limit that allows a step, or none. There is no limit if none was offered, or if
what was offered asks for none. Where no configuration is made, the issues are those of the tape
size alone, then those of the step limit alone, then one for each other name. -/
theorem accepted_safe {records : RecordLibrary} (hrecords : records.Lawful) (given : Fields) :
    (∀ r, records.make schema given = .ok r →
      ∃ config : RunConfig,
        ofRecord? records r = some config ∧
        (records.get r tapeSizeField = .ok (.int config.tapeSize) ∧ 1 ≤ config.tapeSize) ∧
        (records.get r stepLimitField = .ok .null ∧ config.stepLimit = none ∨
          ∃ l, records.get r stepLimitField = .ok (.int l) ∧ config.stepLimit = some l ∧ 1 ≤ l) ∧
        (∀ v w, records.get r tapeSizeField = .ok v → records.get r stepLimitField = .ok w →
          ∃ r', records.make schema [(tapeSizeField, v), (stepLimitField, w)] = .ok r' ∧
            ∀ name ∈ fieldNames, records.get r' name = records.get r name) ∧
        (∀ name ∈ fieldNames, ∀ v,
          records.assign schema r name v = (r, some (.frozen ⟨name, .frozen, v⟩))) ∧
        (∀ bounds fuel text input,
          (∀ n, runText bounds fuel text config input ≠ .error (.tape (.tooSmall n))) ∧
          (∀ n, evaluate bounds fuel text config input ≠ .error (.tape (.tooSmall n))) ∧
          ∀ o, runText bounds fuel text config input = .ok o →
            o.machine.limit = config.stepLimit ∧ ∀ l, o.machine.limit = some l → 0 < l) ∧
        (config.stepLimit = none ↔
          ∀ v, given.get? stepLimitField = some v → v.AsksForNoLimit)) ∧
    ∀ refused, records.make schema given = .error refused ↔
      refused ≠ [] ∧
        refused = records.reported schema (given.only tapeSizeField) ++
          records.reported schema (given.only stepLimitField) ++
          (given.filter fun f => f.1 ∉ fieldNames).map fun f => ⟨f.1, .unknownField, f.2⟩ := by
  constructor
  · intro r hmade
    obtain ⟨config, hvalid, hsize, hlimit, hnone⟩ := exists_config hrecords hmade
    refine ⟨config, ofRecord?_eq hsize hlimit, ⟨hsize, hvalid.one_le_tapeSize⟩, ?_,
      fun v w hv hw => ?_, fun name hname v => ?_,
      fun bounds fuel text input => ⟨?_, fun n he => ?_, fun o ho => ?_⟩, hnone⟩
    · cases hconfig : config.stepLimit with
      | none =>
        rw [values, hconfig] at hlimit
        exact .inl ⟨hlimit, rfl⟩
      | some l =>
        rw [values, hconfig] at hlimit
        exact .inr ⟨l, hlimit, rfl, hvalid.one_le_stepLimit l hconfig⟩
    · obtain rfl : config.values.1 = v := Except.ok.inj (hsize.symm.trans hv)
      obtain rfl : config.values.2 = w := Except.ok.inj (hlimit.symm.trans hw)
      obtain ⟨r', hremade, hsize', hlimit'⟩ := exists_remade hrecords hvalid
      refine ⟨r', hremade, fun name hname => ?_⟩
      rw [fieldNames, List.mem_cons, List.mem_singleton] at hname
      rcases hname with rfl | rfl
      · rw [hsize, hsize']
      · rw [hlimit, hlimit']
    · obtain ⟨f, hf, rfl⟩ := exists_mem_schema hname
      exact hrecords.assign_frozen schema rfl r f hf v
    · exact hvalid.runText_ne_tooSmall
    · exact hvalid.runText_ne_tooSmall n (runText_of_evaluate he)
    · have hkept : o.machine.limit = config.stepLimit := limit_of_runText ho
      exact ⟨hkept, fun l hl => hvalid.one_le_stepLimit l (hkept.symm.trans hl)⟩
  -- What is wrong is a list of issues for any fields, and a refusal if that is not empty.
  · intro refused
    have hunknown : ((given.filter fun f => f.1 ∉ fieldNames).map fun f =>
        (⟨f.1, .unknownField, f.2⟩ : Issue)) = schema.unknown given := by
      simp [unknown_schema, unknownFields, fieldNames]
    rw [hunknown, hrecords.reported_eq, hrecords.reported_eq, hrecords.make_error_iff,
      Schema.issues_eq_only, fields_schema, List.flatMap_cons, List.flatMap_singleton]
    exact Iff.rfl

/-- A truth value is a tape size and a word may stand for no limit. A fraction, a negative limit and
a name that is none are refused in this order, although they were offered in another. -/
theorem accepted_safe_word_for_none :
    let accepted : Fields := [(stepLimitField, .text [' ', 'N', 'o', 'n', 'e']),
      (tapeSizeField, .bool true)]
    let made : Fields := [(tapeSizeField, .int 1), (stepLimitField, .null)]
    let half : Value := .binary ⟨false, 1, -1⟩
    let refused : Fields := [("stdin", .null), (stepLimitField, .int (-1)), (tapeSizeField, half)]
    let records : RecordLibrary := .standard
    records.Lawful ∧ records.make schema accepted = .ok made ∧
      records.assign schema made tapeSizeField (.int 2) =
        (made, some (.frozen ⟨tapeSizeField, .frozen, .int 2⟩)) ∧
      (∃ config, ofRecord? records made = some config ∧ config.stepLimit = none ∧
        ∀ n, evaluate .sample 9 ['+'] config [] ≠ .error (.tape (.tooSmall n))) ∧
      records.make schema refused = .error [⟨tapeSizeField, .fractional, half⟩,
        ⟨stepLimitField, .tooSmall 1, .int (-1)⟩, ⟨"stdin", .unknownField, .null⟩] := by
  intro accepted made half refused records
  have hrecords : records.Lawful := RecordLibrary.standard_lawful
  have hmade : records.make schema accepted = .ok made := rfl
  have hrefused : records.make schema refused = .error [⟨tapeSizeField, .fractional, half⟩,
      ⟨stepLimitField, .tooSmall 1, .int (-1)⟩, ⟨"stdin", .unknownField, .null⟩] := by
    exact ((accepted_safe hrecords refused).2 _).2 ⟨by decide, rfl⟩
  obtain ⟨config, hconfig, -, -, -, hfrozen, hruns, hnone⟩ :=
    (accepted_safe hrecords accepted).1 made hmade
  have hasks : ∀ v, accepted.get? stepLimitField = some v → v.AsksForNoLimit := by
    intro v hv
    have hword : Value.text [' ', 'N', 'o', 'n', 'e'] = v := Option.some.inj hv
    exact hword ▸ (Value.isUnlimited_iff _).1 (by decide)
  exact ⟨hrecords, hmade, hfrozen tapeSizeField (by decide) (.int 2),
    ⟨config, hconfig, hnone.2 hasks, (hruns .sample 9 ['+'] []).2.1⟩, hrefused⟩

end RunConfig

end TapeLang
