import TapeLang.Proofs.Settings.Standard
import TapeLang.Settings.Change

/-!
# Loading settings

What a load of the settings does, whatever has happened before, with any lawful libraries of
settings files and of records. It fills the variables that are not set from one file, in the same
way for all overrides and even if it then fails, and its result takes each field from the override,
the variable or the default, in this order.

* `Workspace.LoadLaws`: the laws of a load, and `Workspace.loadLaws`: they hold in every workspace.
* `Workspace.after`: what a history of changes makes of a workspace. A variable that is set keeps
  its value until it is set or removed (`Workspace.get?_after`).
* `Workspace.settings_precedence`: both together.
-/

namespace TapeLang

/-! ## Overrides -/

namespace Fields

theorem get?_append (first second : Fields) (field : String) :
    get? (first ++ second) field = (get? first field).or (get? second field) := by
  rw [get?, List.find?_append, get?, get?]
  cases first.find? fun f => f.1 = field <;> rfl

/-- Overrides without a value do not matter. -/
theorem given_given (overrides : Fields) : overrides.given.given = overrides.given := by
  simp [given]

end Fields

namespace Environment

variable {env : Environment} {overrides : Fields}

theorem get?_offerFor (field : String) (variableName : List Char) (other : String) :
    (env.offerFor overrides field variableName).get? other =
      if field = other then (overrides.given.get? field).or (env.offer variableName) else none := by
  rw [offerFor]
  cases (overrides.given.get? field).or (env.offer variableName) <;>
    by_cases h : field = other <;> simp [Fields.get?, h]

theorem filter_offerFor {field : String} (variableName : List Char)
    {p : String × Value → Bool} (h : ∀ v, p (field, v) = false) :
    (env.offerFor overrides field variableName).filter p = [] := by
  refine List.filter_eq_nil_iff.2 fun f hf => ?_
  obtain ⟨v, -, rfl⟩ := List.mem_map.1 hf
  rw [h]
  exact Bool.false_ne_true

/-- Under the name of a field there is what has been offered for it. -/
theorem get?_offers (env : Environment) (overrides : Fields) :
    (env.offers overrides).get? RunConfig.tapeSizeField =
        (overrides.given.get? RunConfig.tapeSizeField).or (env.offer tapeSizeVariable) ∧
      (env.offers overrides).get? RunConfig.stepLimitField =
        (overrides.given.get? RunConfig.stepLimitField).or (env.offer stepLimitVariable) := by
  have hnames : RunConfig.tapeSizeField ≠ RunConfig.stepLimitField := by decide
  have hothers : ∀ field, field = RunConfig.tapeSizeField ∨ field = RunConfig.stepLimitField →
      Fields.get? (overrides.given.filter fun f =>
        f.1 ≠ RunConfig.tapeSizeField && f.1 ≠ RunConfig.stepLimitField) field = none := by
    intro field hfield
    rw [Fields.get?, Option.map_eq_none_iff, List.find?_eq_none]
    intro f hf
    have hunknown := (List.mem_filter.1 hf).2
    simp only [ne_eq, Bool.and_eq_true, decide_eq_true_eq] at hunknown ⊢
    rcases hfield with rfl | rfl
    · exact hunknown.1
    · exact hunknown.2
  constructor
  -- An offer for one field is none for the other.
  · rw [offers, Fields.get?_append, Fields.get?_append, get?_offerFor, get?_offerFor, if_pos rfl,
      if_neg hnames.symm, hothers _ (.inl rfl), Option.or_none, Option.or_none]
  · rw [offers, Fields.get?_append, Fields.get?_append, get?_offerFor, get?_offerFor, if_pos rfl,
      if_neg hnames, hothers _ (.inr rfl), Option.none_or, Option.or_none]

/-- The names that are not known are those of the overrides. -/
theorem unknownFields_offers (env : Environment) (overrides : Fields) :
    RunConfig.unknownFields (env.offers overrides) = RunConfig.unknownFields overrides.given := by
  rw [RunConfig.unknownFields, offers, List.filter_append, List.filter_append,
    filter_offerFor _ (by simp), filter_offerFor _ (by simp), List.filter_filter,
    RunConfig.unknownFields]
  simp

end Environment

/-! ## Records -/

/-- What a field holds if nothing is chosen for it, which is its default, and else if what is chosen
is accepted. -/
def FieldSchema.Takes (toInt : Value → Except IssueKind Int) (f : FieldSchema)
    (chosen : Option Value) (v : Value) : Prop :=
  match chosen with
  | none => v = f.default
  | some c => f.accept toInt c = .ok v

theorem FieldSchema.takes_of_outcome {toInt : Value → Except IssueKind Int} {f : FieldSchema}
    {given : Fields} {v : Value} (h : f.outcome toInt given = .ok v) :
    f.Takes toInt (given.get? f.name) v := by
  rw [outcome] at h
  unfold Takes
  cases hgiven : given.get? f.name with
  | none =>
    rw [hgiven] at h
    exact (Except.ok.inj h).symm
  | some c =>
    rw [hgiven] at h
    cases haccept : f.accept toInt c with
    | error kind => simp [haccept] at h
    | ok w =>
      simp only [haccept, Except.ok.injEq] at h
      rw [← h]
      exact haccept

/-- A record that has been made takes every field from what was offered. -/
theorem RecordLibrary.Lawful.exists_takes {records : RecordLibrary} (h : records.Lawful)
    {s : Schema} {given : Fields} {r : records.Record} (hmade : records.make s given = .ok r)
    {f : FieldSchema} (hf : f ∈ s.fields) :
    ∃ v, records.get r f.name = .ok v ∧ f.Takes records.toInt (given.get? f.name) v := by
  obtain ⟨v, hv, hget⟩ := h.exists_get_of_make hmade hf
  exact ⟨v, hget, FieldSchema.takes_of_outcome hv⟩

/-! ## Loads -/

namespace Workspace

variable {files : FileLibrary} {records : RecordLibrary} (w : Workspace) (overrides : Fields)

/-- The common file comes before all others. Without it the file in the first of the directories
from the current one upwards counts, and none lies nearer. -/
theorem activeFile_eq_some_iff {text : List Char} :
    w.activeFile = some text ↔
      w.common = some text ∨ w.common = none ∧
        ∃ nearer p farther, w.current.outward = nearer ++ p :: farther ∧
          (∀ q ∈ nearer, w.files.lookup (q.child fileName) = none) ∧
          w.files.lookup (p.child fileName) = some text := by
  rw [activeFile, Option.or_eq_some_iff, nearestFile, List.findSome?_eq_some_iff]
  refine or_congr_right (and_congr_right fun _ => ?_)
  constructor
  · rintro ⟨nearer, p, farther, hplaces, hfile, hnearer⟩
    exact ⟨nearer, p, farther, hplaces, hnearer, hfile⟩
  · rintro ⟨nearer, p, farther, hplaces, hnearer, hfile⟩
    exact ⟨nearer, p, farther, hplaces, hfile, hnearer⟩

/-- The file to load, if there is a way to it, is the active one. -/
theorem fileToLoad_eq (hfiles : files.Lawful) {file : Option (List Char)}
    (h : w.fileToLoad files = .ok file) : file = w.activeFile := by
  rw [fileToLoad] at h
  rw [activeFile]
  cases hcommon : w.common with
  | some text =>
    rw [hcommon] at h
    cases h
    rfl
  | none =>
    rw [hcommon] at h
    rw [Option.none_or]
    exact hfiles.find_nearest w file h

/-- Filling the variables changes nothing else. -/
theorem fillVariables_frame :
    (w.fillVariables files).1 =
      { w with environment := (w.fillVariables files).1.environment } := by
  rw [fillVariables]
  cases w.fileToLoad files <;> rfl

/-- A variable that is set is not filled, be it that something fails. -/
theorem get?_fillVariables_of_set (hfiles : files.Lawful) {name value : List Char}
    (h : w.environment.get? name = some value) :
    (w.fillVariables files).1.environment.get? name = some value := by
  rw [fillVariables]
  cases w.fileToLoad files with
  | error e => exact h
  | ok file => exact hfiles.load_keeps w.environment file name value h

/-- Any other variable is filled from the active file. -/
theorem get?_fillVariables (hfiles : files.Lawful) (hfilled : (w.fillVariables files).2 = none)
    {name : List Char} (h : w.environment.get? name = none) :
    (w.fillVariables files).1.environment.get? name =
      w.activeFile.bind fun text => files.bound w.environment text name := by
  rw [fillVariables] at hfilled ⊢
  cases hfile : w.fileToLoad files with
  | error e =>
    rw [hfile] at hfilled
    cases hfilled
  | ok file =>
    rw [hfile] at hfilled
    rw [← w.fileToLoad_eq hfiles hfile]
    exact hfiles.load_fills w.environment file hfilled name h

/-- What a load chooses for a field: the override or, if there is none, what the variable offers. -/
def chosen (files : FileLibrary) (field : String) (variableName : List Char) : Option Value :=
  (overrides.given.get? field).or
    ((w.fillVariables files).1.environment.offer variableName)

/-- What a load of the settings does and gives. -/
structure LoadLaws (files : FileLibrary) (records : RecordLibrary) : Prop where
  /-- The common file counts if there is one, else the one in the first of the directories from the
  current one upwards that holds one; no other file is looked at. -/
  active : ∀ text, w.activeFile = some text ↔
    w.common = some text ∨ w.common = none ∧
      ∃ nearer p farther, w.current.outward = nearer ++ p :: farther ∧
        (∀ q ∈ nearer, w.files.lookup (q.child fileName) = none) ∧
        w.files.lookup (p.child fileName) = some text
  /-- What the load does to the workspace does not depend on the overrides. -/
  uniform : ∀ others,
    (w.loadWith files records others).1 = (w.loadWith files records overrides).1
  /-- The load changes nothing but the variables. -/
  frame : (w.loadWith files records overrides).1 =
    { w with environment := (w.loadWith files records overrides).1.environment }
  /-- A variable that is set keeps its value, even if an empty one. -/
  keeps : ∀ name value, w.environment.get? name = some value →
    (w.loadWith files records overrides).1.environment.get? name = some value
  /-- Any other variable is filled from the file that counts, whether or not a record is made. -/
  fills : (w.fillVariables files).2 = none → ∀ name, w.environment.get? name = none →
    (w.loadWith files records overrides).1.environment.get? name =
      w.activeFile.bind fun text => files.bound w.environment text name
  /-- If the library of files fails, so does the load. -/
  fails : ∀ e, (w.fillVariables files).2 = some e →
    (w.loadWith files records overrides).2 = .error (.file e)
  /-- Else the result is made from what is chosen for each field and from the overrides with unknown
  names. -/
  result : (w.fillVariables files).2 = none →
    ∃ given : Fields,
      (w.loadWith files records overrides).2 =
        (records.make RunConfig.schema given).mapError .issues ∧
      given.get? RunConfig.tapeSizeField =
        w.chosen overrides files RunConfig.tapeSizeField tapeSizeVariable ∧
      given.get? RunConfig.stepLimitField =
        w.chosen overrides files RunConfig.stepLimitField stepLimitVariable ∧
      RunConfig.schema.unknown given = RunConfig.schema.unknown overrides.given
  /-- A record that is made holds what is chosen for a field, or the default. -/
  accepts : ∀ r, (w.loadWith files records overrides).2 = .ok r →
    (∃ v, records.get r RunConfig.tapeSizeField = .ok v ∧
      RunConfig.tapeSizeSchema.Takes records.toInt
        (w.chosen overrides files RunConfig.tapeSizeField tapeSizeVariable) v) ∧
    ∃ v, records.get r RunConfig.stepLimitField = .ok v ∧
      RunConfig.stepLimitSchema.Takes records.toInt
        (w.chosen overrides files RunConfig.stepLimitField stepLimitVariable) v
  /-- An override with a value is refused if its name is unknown. -/
  rejects : (w.fillVariables files).2 = none → ∀ field value, (field, value) ∈ overrides →
    value ≠ .null → RunConfig.schema.declares field = false →
    ∃ issues, (w.loadWith files records overrides).2 = .error (.issues issues) ∧
      ⟨field, .unknownField, value⟩ ∈ issues
  /-- An override without a value does not matter, whatever its name. -/
  ignores : w.loadWith files records overrides.given = w.loadWith files records overrides

theorem loadLaws (hfiles : files.Lawful) (hrecords : records.Lawful) :
    w.LoadLaws overrides files records where
  active _ := w.activeFile_eq_some_iff
  uniform others := by rw [loadWith_eq, loadWith_eq]
  frame := by
    rw [loadWith_eq]
    exact w.fillVariables_frame
  keeps name value h := by
    rw [loadWith_eq]
    exact w.get?_fillVariables_of_set hfiles h
  fills hfilled name h := by
    rw [loadWith_eq]
    exact w.get?_fillVariables hfiles hfilled h
  fails e he := by rw [loadWith_eq, he]
  result hfilled := by
    -- What is chosen for the fields is what the environment behind the filling offers.
    obtain ⟨hsize, hlimit⟩ :=
      Environment.get?_offers (w.fillVariables files).1.environment overrides
    refine ⟨_, ?_, hsize, hlimit, ?_⟩
    · rw [loadWith_eq, hfilled]
    · rw [RunConfig.unknown_schema, Environment.unknownFields_offers, RunConfig.unknown_schema]
  accepts r hr := by
    obtain ⟨hsize, hlimit⟩ :=
      Environment.get?_offers (w.fillVariables files).1.environment overrides
    rw [loadWith_eq] at hr
    split at hr
    · cases hr
    · cases hmade : records.make RunConfig.schema
        ((w.fillVariables files).1.environment.offers overrides) with
      | error issues => simp [hmade, Except.mapError] at hr
      | ok made =>
        simp only [hmade, Except.mapError, Except.ok.injEq] at hr
        rw [chosen, chosen, ← hsize, ← hlimit, ← hr]
        exact ⟨hrecords.exists_takes hmade RunConfig.tapeSizeSchema_mem,
          hrecords.exists_takes hmade RunConfig.stepLimitSchema_mem⟩
  rejects hfilled field value hmem hvalue hfield := by
    -- An override with a value is offered as it is, and so its name is found to be unknown.
    have hissue : ⟨field, .unknownField, value⟩ ∈ RunConfig.schema.issues records.toInt
        ((w.fillVariables files).1.environment.offers overrides) := by
      refine List.mem_append_right _ ?_
      rw [RunConfig.unknown_schema, Environment.unknownFields_offers, ← RunConfig.unknown_schema]
      have hgiven : (field, value) ∈ overrides.given :=
        List.mem_filter.2 ⟨hmem, by simpa using hvalue⟩
      exact Schema.mem_unknown rfl hgiven hfield
    refine ⟨_, ?_, hissue⟩
    rw [loadWith_eq, hfilled]
    dsimp only
    rw [(hrecords.make_error_iff _ _ _).2 ⟨List.ne_nil_of_mem hissue, rfl⟩]
    rfl
  ignores := by
    have hoffers : (w.fillVariables files).1.environment.offers overrides.given =
        (w.fillVariables files).1.environment.offers overrides := by
      simp only [Environment.offers, Environment.offerFor, Fields.given_given]
    rw [loadWith_eq, loadWith_eq, hoffers]

end Workspace

/-! ## Histories -/

/-- Whether a change sets or removes a variable on its own account. -/
def Change.touches (name : List Char) : Change → Bool
  | setVariable other _ | unsetVariable other => other = name
  | writeFile _ | removeFile | writeCommonFile _ | enterDirectory _ | load _ => false

namespace Workspace

variable {files : FileLibrary} {records : RecordLibrary} {w w' : Workspace}
  {name value : List Char}

/-- The workspace after changes. A change that fails leaves it as it is. -/
def after (files : FileLibrary) (records : RecordLibrary) (w : Workspace)
    (changes : List Change) : Workspace :=
  changes.foldl (fun w c => match c.apply files records w with
    | .ok (w', _) => w'
    | .error _ => w) w

theorem environment_enterDirectory {path : List Char} (h : w.enterDirectory path = .ok w') :
    w'.environment = w.environment := by
  unfold enterDirectory at h
  split at h
  · cases h
  split at h
  · cases h
  split at h
  · cases h
  · cases hplace : w.vacancy path (w.current.origin path) (Text.pathNames path) with
    | error e => simp [hplace, Except.map] at h
    | ok p =>
      rw [hplace] at h
      cases h
      rfl

theorem environment_removeFile (h : w.removeFile = .ok w') : w'.environment = w.environment := by
  unfold removeFile at h
  split at h <;> cases h
  rfl

/-- A change that does not touch a variable leaves it as it is if it is set. -/
theorem get?_apply (hfiles : files.Lawful) {c : Change}
    {result : Option (Except LoadError records.Record)} (hc : c.touches name = false)
    (h : w.environment.get? name = some value)
    (happly : c.apply files records w = .ok (w', result)) :
    w'.environment.get? name = some value := by
  cases c with
  | setVariable other v =>
    have hother : name ≠ other := by simpa [Change.touches, eq_comm] using hc
    rw [Change.apply] at happly
    split at happly
    · next env henv =>
      cases happly
      rw [← (Environment.set?_eq_ok_iff.1 henv).2, Environment.get?_set, if_neg hother, h]
    · cases happly
  | unsetVariable other =>
    have hother : name ≠ other := by simpa [Change.touches, eq_comm] using hc
    cases happly
    exact (Environment.get?_unset _ _ _).trans ((if_neg hother).trans h)
  | writeFile text | writeCommonFile text =>
    cases happly
    exact h
  | removeFile =>
    cases hremove : w.removeFile with
    | error e => simp [Change.apply, hremove, Except.map] at happly
    | ok w₁ =>
      simp only [Change.apply, hremove, Except.map, Except.ok.injEq, Prod.mk.injEq] at happly
      rw [← happly.1, environment_removeFile hremove, h]
  | enterDirectory path =>
    cases henter : w.enterDirectory path with
    | error e => simp [Change.apply, henter, Except.map] at happly
    | ok w₁ =>
      simp only [Change.apply, henter, Except.map, Except.ok.injEq, Prod.mk.injEq] at happly
      rw [← happly.1, environment_enterDirectory henter, h]
  | load overrides =>
    cases happly
    -- Only here the library comes in: it is known to keep what is set.
    show (w.loadWith files records overrides).1.environment.get? name = some value
    rw [loadWith_eq]
    exact w.get?_fillVariables_of_set hfiles h

/-- A variable that is set keeps its value until it is touched. -/
theorem get?_after (hfiles : files.Lawful) {changes : List Change}
    (hchanges : ∀ c ∈ changes, c.touches name = false)
    (h : w.environment.get? name = some value) :
    (w.after files records changes).environment.get? name = some value := by
  induction changes generalizing w with
  | nil => exact h
  | cons c rest ih =>
    have hrest := fun c' hc' => hchanges c' (List.mem_cons_of_mem c hc')
    rw [after, List.foldl_cons]
    -- A change that fails is skipped.
    cases happly : c.apply files records w with
    | error e => exact ih hrest h
    | ok p => exact ih hrest (get?_apply hfiles (hchanges c List.mem_cons_self) h happly)

/-- A variable that is set has its new value, and one that is removed has none. -/
theorem get?_after_touch (files : FileLibrary) (records : RecordLibrary) (w : Workspace)
    (name value : List Char) :
    (Environment.obstacle? name value = none →
      (w.after files records [.setVariable name value]).environment.get? name = some value) ∧
    (w.after files records [.unsetVariable name]).environment.get? name = none := by
  constructor
  · intro hfree
    have hset : w.environment.set? name value = .ok (w.environment.set name value) :=
      Environment.set?_eq_ok_iff.2 ⟨hfree, rfl⟩
    simp only [after, List.foldl_cons, List.foldl_nil, Change.apply, hset]
    rw [Environment.get?_set, if_pos rfl]
  · exact (Environment.get?_unset _ _ _).trans (if_pos rfl)

/-- Settings are resolved in one order, whatever has happened before: a load follows its laws, and a
variable that is set, be it by a load, keeps its value until it is set or removed on its own
account. -/
theorem settings_precedence {files : FileLibrary} (hfiles : files.Lawful) {records : RecordLibrary}
    (hrecords : records.Lawful) (w : Workspace) (history : List Change) (overrides : Fields) :
    (w.after files records history).LoadLaws overrides files records ∧
    ∀ name value, (w.after files records history).environment.get? name = some value →
      (∀ later, (∀ c ∈ later, c.touches name = false) →
        ((w.after files records history).after files records later).environment.get? name =
          some value) ∧
      (∀ other, Environment.obstacle? name other = none →
        ((w.after files records history).after files records
          [.setVariable name other]).environment.get? name = some other) ∧
      ((w.after files records history).after files records
        [.unsetVariable name]).environment.get? name = none := by
  refine ⟨loadLaws _ overrides hfiles hrecords,
    fun name value h => ⟨fun later hlater => get?_after hfiles hlater h, ?_⟩⟩
  exact ⟨fun other => (get?_after_touch files records _ name other).1,
    (get?_after_touch files records _ name value).2⟩

/-- A workspace with this settings file in the current directory, and nothing else. -/
def holding (text : String) : Workspace :=
  withFile {} (some text.toList)

/-- A variable that a load has filled keeps its value when the file is removed. -/
theorem settings_precedence_removed_file :
    let w := holding "BFLITE_TAPE_SIZE=5"
    let loaded := w.after .standard .standard [.load []]
    FileLibrary.standard.Lawful ∧ RecordLibrary.standard.Lawful ∧
      w.environment.get? tapeSizeVariable = none ∧
      loaded.environment.get? tapeSizeVariable = some ['5'] ∧
      (loaded.after .standard .standard [.removeFile, .load []]).environment.get?
        tapeSizeVariable = some ['5'] := by
  intro w loaded
  have hfiles : FileLibrary.standard.Lawful := FileLibrary.standard_lawful
  have hrecords : RecordLibrary.standard.Lawful := RecordLibrary.standard_lawful
  have hunset : w.environment.get? tapeSizeVariable = none := rfl
  have hfilled : loaded.environment.get? tapeSizeVariable = some ['5'] := by
    show ((holding "BFLITE_TAPE_SIZE=5").after .standard .standard
      [.load []]).environment.get? tapeSizeVariable = some ['5']
    decide +kernel
  have hkept :=
    ((settings_precedence hfiles hrecords w [.load []] []).2 tapeSizeVariable ['5'] hfilled).1
  exact ⟨hfiles, hrecords, hunset, hfilled, hkept [.removeFile, .load []] (by decide)⟩

/-- An override without a value is not refused, although its name is unknown. -/
theorem unknown_override_ignored :
    RunConfig.schema.declares "bogus" = false ∧
      (load {} [("bogus", .null)]).2 = .ok {} :=
  ⟨by decide, rfl⟩

end Workspace

end TapeLang
