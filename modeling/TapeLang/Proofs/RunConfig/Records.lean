import Mathlib.Data.List.Nodup
import TapeLang.RunConfig.Dictionary

/-!
# Records of a library

What follows for the records of any lawful library.

* `FieldSchema.accept_cases`: what comes of a value that a field accepts.
* `Schema.issues_eq_only`: what is wrong with some named values is what is wrong with the value of
  each field alone, and then the names that no field has.
* `RecordLibrary.Lawful.exists_get_of_make`: a record holds what has come of every field.
* `RecordLibrary.standard_lawful`: the library of dictionaries is lawful.
-/

namespace TapeLang

/-! ## Schemas -/

theorem FieldSchema.accept_cases {toInt : Value → Except IssueKind Int} {f : FieldSchema}
    {v w : Value} (h : f.accept toInt v = .ok w) :
    f.prepare v = .null ∧ f.optional = true ∧ w = .null ∨
      ¬ (f.optional = true ∧ f.prepare v = .null) ∧ ∃ n, w = .int n ∧ f.least ≤ n := by
  rw [accept] at h
  split at h
  · next hnone =>
    rw [Bool.and_eq_true, decide_eq_true_iff] at hnone
    exact .inl ⟨hnone.2, hnone.1, (Except.ok.inj h).symm⟩
  · next hsome =>
    rw [Bool.and_eq_true, decide_eq_true_iff] at hsome
    split at h
    · next n _ =>
      split at h
      · cases h
      · next hn => exact .inr ⟨hsome, n, (Except.ok.inj h).symm, Int.not_lt.1 hn⟩
    · cases h

theorem issueOf_eq_nil_iff {α : Type} {r : Except Issue α} :
    issueOf r = [] ↔ ∃ a, r = .ok a := by
  cases r <;> simp [issueOf]

namespace Schema

variable {toInt : Value → Except IssueKind Int} {s : Schema} {given : Fields}

/-- Nothing is wrong just if something has come of every field and no other name is refused. -/
theorem issues_eq_nil_iff :
    s.issues toInt given = [] ↔
      (∀ f ∈ s.fields, ∃ v, f.outcome toInt given = .ok v) ∧ s.unknown given = [] := by
  rw [issues, List.append_eq_nil_iff, List.flatMap_eq_nil_iff]
  simp only [issueOf_eq_nil_iff]

/-- A value under a name that no field has is reported if such names are refused. -/
theorem mem_unknown (hforbids : s.forbidsOthers = true) {name : String} {v : Value}
    (hgiven : (name, v) ∈ given) (hname : s.declares name = false) :
    ⟨name, .unknownField, v⟩ ∈ s.unknown given := by
  rw [unknown, if_pos hforbids]
  refine List.mem_map.2 ⟨(name, v), List.mem_filter.2 ⟨hgiven, ?_⟩, rfl⟩
  rw [hname]
  rfl

theorem declares_of_mem {f : FieldSchema} (h : f ∈ s.fields) : s.declares f.name = true :=
  List.any_eq_true.2 ⟨f, h, decide_eq_true rfl⟩

end Schema

namespace Fields

/-- The values under one name only. -/
def only (fields : Fields) (name : String) : Fields :=
  fields.filter fun f => f.1 = name

theorem get?_only_self (fields : Fields) (name : String) :
    (fields.only name).get? name = fields.get? name := by
  rw [get?, only, List.find?_filter, get?]
  simp

theorem get?_only_of_ne (fields : Fields) {name other : String} (h : other ≠ name) :
    (fields.only name).get? other = none := by
  rw [get?, only, List.find?_filter, Option.map_eq_none_iff, List.find?_eq_none]
  rintro f - hf
  simp only [decide_eq_true_eq] at hf
  exact h (hf.2.symm.trans hf.1)

end Fields

namespace FieldSchema

variable {toInt : Value → Except IssueKind Int} {f : FieldSchema}

theorem outcome_only_self (given : Fields) :
    f.outcome toInt (given.only f.name) = f.outcome toInt given := by
  rw [outcome, outcome, Fields.get?_only_self]

theorem outcome_only_of_ne (given : Fields) {name : String} (h : f.name ≠ name) :
    f.outcome toInt (given.only name) = .ok f.default := by
  rw [outcome, Fields.get?_only_of_ne given h]

/-- If only the value of one field is looked at, only its issue is left. -/
theorem flatMap_issueOf_only (given : Fields) {fields : List FieldSchema}
    (hdistinct : (fields.map FieldSchema.name).Nodup) (hf : f ∈ fields) :
    (fields.flatMap fun g => issueOf (g.outcome toInt (given.only f.name))) =
      issueOf (f.outcome toInt given) := by
  -- On the fields: only one of them has the name, the others are offered nothing.
  induction fields with
  | nil => cases hf
  | cons g rest ih =>
    obtain ⟨hfresh, hrest⟩ := List.nodup_cons.1 hdistinct
    rw [List.flatMap_cons]
    rcases List.mem_cons.1 hf with rfl | hmem
    · have hothers :
          (rest.flatMap fun g => issueOf (g.outcome toInt (given.only f.name))) = [] := by
        refine List.flatMap_eq_nil_iff.2 fun g hg => ?_
        have hname : g.name ≠ f.name := fun h => hfresh (h ▸ List.mem_map_of_mem hg)
        rw [outcome_only_of_ne given hname]
        rfl
      rw [hothers, List.append_nil, outcome_only_self]
    · have hname : g.name ≠ f.name := fun h => hfresh (h ▸ List.mem_map_of_mem hmem)
      rw [outcome_only_of_ne given hname, ih hrest hmem]
      rfl

end FieldSchema

namespace Schema

variable {toInt : Value → Except IssueKind Int} {s : Schema}

/-- A field alone is no unknown name. -/
theorem unknown_only (given : Fields) {f : FieldSchema} (hf : f ∈ s.fields) :
    s.unknown (given.only f.name) = [] := by
  rw [unknown]
  split
  · rw [Fields.only, List.filter_filter, List.map_eq_nil_iff, List.filter_eq_nil_iff]
    rintro g - hg
    rw [Bool.and_eq_true, decide_eq_true_iff] at hg
    rw [hg.2, declares_of_mem hf] at hg
    exact absurd hg.1 (by decide)
  · rfl

theorem issues_only (given : Fields) {f : FieldSchema} (hf : f ∈ s.fields) :
    s.issues toInt (given.only f.name) = issueOf (f.outcome toInt given) := by
  rw [issues, unknown_only given hf, List.append_nil,
    FieldSchema.flatMap_issueOf_only given s.distinct hf]

/-- What is wrong with some named values is what is wrong with the value of each field alone, and
then the names that no field has. -/
theorem issues_eq_only (given : Fields) :
    s.issues toInt given =
      (s.fields.flatMap fun f => s.issues toInt (given.only f.name)) ++ s.unknown given := by
  have hfields : (s.fields.flatMap fun f => s.issues toInt (given.only f.name)) =
      s.fields.flatMap fun f => issueOf (f.outcome toInt given) :=
    List.flatMap_congr fun f hf => issues_only given hf
  rw [hfields, issues]

end Schema

/-! ## Lawful libraries -/

/-- What is reported if a record is made from some named values: nothing if that succeeds. -/
def RecordLibrary.reported (records : RecordLibrary) (s : Schema) (given : Fields) : List Issue :=
  match records.make s given with
  | .ok _ => []
  | .error issues => issues

namespace RecordLibrary.Lawful

variable {records : RecordLibrary} {s : Schema} {given : Fields}

/-- Nothing is wrong with the values from which a record has been made. -/
theorem issues_of_make (h : records.Lawful) {r : records.Record}
    (hmade : records.make s given = .ok r) : s.issues records.toInt given = [] := by
  -- A record that is made is not refused, and it would be if anything were wrong.
  by_contra hne
  have hrefused := (h.make_error_iff s given _).2 ⟨hne, rfl⟩
  rw [hmade] at hrefused
  cases hrefused

/-- All that is wrong is reported. -/
theorem reported_eq (h : records.Lawful) :
    records.reported s given = s.issues records.toInt given := by
  rw [reported]
  cases hmade : records.make s given with
  | ok r => exact (h.issues_of_make hmade).symm
  | error issues => exact ((h.make_error_iff s given issues).1 hmade).2

/-- A record is made if nothing is wrong. -/
theorem exists_make (h : records.Lawful) (hnone : s.issues records.toInt given = []) :
    ∃ r, records.make s given = .ok r := by
  cases hmade : records.make s given with
  | ok r => exact ⟨r, rfl⟩
  | error issues =>
    obtain ⟨hne, rfl⟩ := (h.make_error_iff s given issues).1 hmade
    exact absurd hnone hne

/-- A record holds what has come of each field. -/
theorem exists_get_of_make (h : records.Lawful) {r : records.Record}
    (hmade : records.make s given = .ok r) {f : FieldSchema} (hf : f ∈ s.fields) :
    ∃ v, f.outcome records.toInt given = .ok v ∧ records.get r f.name = .ok v := by
  obtain ⟨v, hv⟩ := (Schema.issues_eq_nil_iff.1 (h.issues_of_make hmade)).1 f hf
  exact ⟨v, hv, h.get_make s given r hmade f hf v hv⟩

end RecordLibrary.Lawful

/-! ## Dictionaries -/

namespace Fields

theorem get?_cons (name : String) (v : Value) (rest : Fields) (other : String) :
    get? ((name, v) :: rest) other = if name = other then some v else rest.get? other := by
  rw [get?, List.find?_cons, get?]
  by_cases h : name = other <;> simp [h]

/-- What has been put under a name is read there. -/
theorem read_put (name : String) (value : Value) (fields : Fields) :
    (fields.put name value).read name = .ok value := by
  have hget : (fields.put name value).get? name = some value := by
    induction fields with
    | nil => rw [put, get?_cons, if_pos rfl]
    | cons f rest ih =>
      rw [put]
      split
      · rw [get?_cons, if_pos rfl]
      · next hname => rw [get?_cons, if_neg hname, ih]
  rw [read, hget]

end Fields

/-- The name of an entry is that of its field. -/
theorem FieldSchema.fst_of_entryOf {f : FieldSchema} {given : Fields} {e : String × Value}
    (h : f.entryOf? given = some e) : e.1 = f.name := by
  obtain ⟨v, -, rfl⟩ := Option.map_eq_some_iff.1 h
  rfl

/-- In the entries of fields with different names, each field finds its own. -/
theorem FieldSchema.get?_entries {f : FieldSchema} {given : Fields} {v : Value}
    (hv : f.outcome Value.toInt given = .ok v) {fields : List FieldSchema}
    (hdistinct : (fields.map FieldSchema.name).Nodup) (hf : f ∈ fields) :
    Fields.get? (fields.filterMap fun g => g.entryOf? given) f.name = some v := by
  induction fields with
  | nil => cases hf
  | cons g rest ih =>
    obtain ⟨hfresh, hrest⟩ := List.nodup_cons.1 hdistinct
    rcases List.mem_cons.1 hf with rfl | hmem
    · have hentry : f.entryOf? given = some (f.name, v) := by
        rw [entryOf?, hv]
        rfl
      rw [List.filterMap_cons, hentry, Fields.get?_cons, if_pos rfl]
    -- Another field comes first; its entry, if it has one, is under another name.
    · have hname : g.name ≠ f.name := fun h => hfresh (h ▸ List.mem_map_of_mem hmem)
      rw [List.filterMap_cons]
      cases hentry : g.entryOf? given with
      | none => exact ih hrest hmem
      | some e =>
        obtain ⟨name, w⟩ := e
        obtain rfl : name = g.name := fst_of_entryOf hentry
        rw [Fields.get?_cons, if_neg hname, ih hrest hmem]

namespace Schema

variable {s : Schema} {given fields : Fields}

theorem make_eq_error_iff {issues : List Issue} :
    s.make given = .error issues ↔ issues ≠ [] ∧ issues = s.issues Value.toInt given := by
  rw [make]
  cases s.issues Value.toInt given with
  | nil => simp
  | cons issue rest =>
    simp only [Except.error.injEq]
    constructor
    · rintro rfl
      exact ⟨List.cons_ne_nil _ _, rfl⟩
    · exact fun h => h.2.symm

/-- The dictionary that has been made holds what has come of each field. -/
theorem read_of_make (hmade : s.make given = .ok fields) {f : FieldSchema} (hf : f ∈ s.fields)
    {v : Value} (hv : f.outcome Value.toInt given = .ok v) : fields.read f.name = .ok v := by
  rw [make] at hmade
  split at hmade
  · cases hmade
    rw [Fields.read, FieldSchema.get?_entries hv s.distinct hf]
  · cases hmade

theorem assign_frozen (hs : s.frozen = true) (fields : Fields) {f : FieldSchema} (hf : f ∈ s.fields)
    (v : Value) : fields.assign s f.name v = (fields, some (.frozen ⟨f.name, .frozen, v⟩)) := by
  rw [Fields.assign, s.isPublic f hf, hs]
  rfl

theorem assign_open (hs : s.frozen = false) (fields : Fields) {f : FieldSchema} (hf : f ∈ s.fields)
    (v : Value) : fields.assign s f.name v = (fields.put f.name v, none) := by
  rw [Fields.assign, s.isPublic f hf, hs, declares_of_mem hf]
  rfl

end Schema

/-- The library of dictionaries is lawful. -/
theorem RecordLibrary.standard_lawful : RecordLibrary.standard.Lawful where
  toInt_int _ := rfl
  make_error_iff _ _ _ := Schema.make_eq_error_iff
  get_make _ _ _ hmade _ hf _ hv := Schema.read_of_make hmade hf hv
  assign_frozen _ hs fields _ hf v := Schema.assign_frozen hs fields hf v
  assign_open s hs fields f hf v := by
    have hassign : standard.assign s fields f.name v = (Fields.put f.name v fields, none) :=
      Schema.assign_open hs fields hf v
    rw [hassign]
    exact ⟨rfl, Fields.read_put f.name v fields⟩

end TapeLang
