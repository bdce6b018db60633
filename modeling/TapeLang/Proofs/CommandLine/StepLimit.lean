import TapeLang.Proofs.CommandLine.Sources
import TapeLang.Proofs.RunConfig.Safe
import TapeLang.Proofs.RunConfig.Spelling

/-!
# Step limits from a variable or an option

A step limit can be given by a variable, in lenient spelling, or by an option, in decimal digits.
A command does the same with both, unless the number is zero and the variable spells it with more
than a single zero (`Request.spellings_agree`).

* `Invocation.ofArgs_limit`: the option in front of all other arguments does nothing but to set a
  limit if no later option does.
* `load_alike`: loading under a limit from the variable and from the option, in settings that agree
  otherwise (`AgreeBesideLimit`).
* `PlainSettings`: settings files for which the variable can be left out.
-/

namespace TapeLang.CommandLine

/-! ## Integers as arguments -/

/-- An integer as an argument: its digits, behind a dash if it is negative. -/
def decimal : Int → Arg
  | .ofNat k => Nat.toDigits 10 k
  | .negSucc k => '-' :: Nat.toDigits 10 (k + 1)

theorem readInt_decimal {n : Int} (h : n.natAbs < 10 ^ Text.maxDigits) :
    readInt (decimal n) = some n := by
  have hlength : ∀ k, k < 10 ^ Text.maxDigits → (Nat.toDigits 10 k).length ≤ Text.maxDigits :=
    fun k hk => (Nat.length_toDigits_le_iff (by decide) (by decide)).2 hk
  cases n with
  | ofNat k => exact readInt_of_length_le (hlength k h)
  | negSucc k =>
    have hspaces : ∀ c ∈ '-' :: Nat.toDigits 10 (k + 1), Text.isSpace c = false :=
      List.forall_mem_cons.2 ⟨by decide, fun c hc =>
        Text.isSpace_of_isDigit (Nat.isDigit_of_mem_toDigits (by decide) (by decide) hc)⟩
    rw [decimal, readInt, Text.trimBy_eq_self hspaces]
    simp only [readNatural_toDigits, if_neg (Nat.not_lt.2 (hlength (k + 1) h))]
    rfl

section

variable {κ : Type} {specs : List (OptionSpec κ)}

/-- A dash with digits behind it is an operand, if the letters of the options are no digits. -/
theorem classify_negative
    (hspecs : ∀ spec ∈ specs, ∀ w ∈ spec.spellings, w[1]?.any Char.isDigit = false)
    {digits : List Char} (hne : digits ≠ []) (hdigits : ∀ c ∈ digits, c.isDigit = true) :
    classify specs ('-' :: digits) = .ok .operand := by
  obtain ⟨d, ds, rfl⟩ := List.exists_cons_of_ne_nil hne
  have hd : d.isDigit = true := hdigits d List.mem_cons_self
  have hother : ∀ c, c.isDigit = false → ∀ e ∈ d :: ds, e ≠ c := fun c hc e he =>
    Text.ne_of_isDigit (hdigits e he) hc
  -- No spelling begins like this.
  have hletter : ∀ spec ∈ specs, ∀ w ∈ spec.spellings, w[1]? ≠ some d := by
    intro spec hspec w hw hsecond
    have hnone := hspecs spec hspec w hw
    rw [hsecond, Option.any_some, hd] at hnone
    cases hnone
  have hspelled : spelled? specs ('-' :: d :: ds) = none := by
    refine List.find?_eq_none.2 fun spec hspec hw => ?_
    exact hletter spec hspec _ (List.contains_iff_mem.1 hw) rfl
  have hvalue : splitValue ('-' :: d :: ds) = ('-' :: d :: ds, none) := by
    have hequals : ('-' :: d :: ds).dropWhile (· ≠ '=') = [] := by
      refine List.dropWhile_eq_nil_iff.2 fun e he => ?_
      rcases List.mem_cons.1 he with rfl | he
      · decide
      · simpa using hother '=' (by decide) e he
    rw [splitValue, hequals]
  have hcandidates : candidates specs ('-' :: d :: ds) = [] := by
    refine List.flatMap_eq_nil_iff.2 fun spec hspec => List.filterMap_eq_nil_iff.2 fun w hw => ?_
    have hlong : ('-' :: d :: ds).take 2 ≠ ['-', '-'] := fun heq =>
      hother '-' (by decide) d List.mem_cons_self (List.cons.inj (List.cons.inj heq).2).1
    have hshort : w ≠ ('-' :: d :: ds).take 2 := by
      rintro rfl
      exact hletter spec hspec _ hw rfl
    have hprefix : ('-' :: d :: ds).isPrefixOf w = false := by
      refine Bool.eq_false_iff.2 fun hbegins => ?_
      obtain ⟨rest, rfl⟩ := List.isPrefixOf_iff_prefix.1 hbegins
      exact hletter spec hspec _ hw rfl
    rw [readAs, if_neg hlong, if_neg hshort, hprefix]
    rfl
  have hnumber : isNegativeNumber ('-' :: d :: ds) = true := by
    have hlast : ('-' :: d :: ds).getLast? ≠ some '\n' := fun hlast => by
      rcases List.mem_cons.1 (List.mem_of_getLast? hlast) with heq | he
      · exact absurd heq (by decide)
      · exact hother '\n' (by decide) _ he rfl
    have hpoint : ∀ e ∈ d :: ds, (decide (e ≠ '.')) = true := fun e he => by
      simpa using hother '.' (by decide) e he
    have hall : allDigits (d :: ds) = true := List.all_eq_true.2 fun e he => by
      rw [Text.digit?_of_isDigit (hdigits e he)]
      rfl
    simp only [isNegativeNumber, if_neg hlast, List.takeWhile_eq_self_iff.2 hpoint,
      List.dropWhile_eq_nil_iff.2 hpoint, hall]
    rfl
  rw [classify, classifyDashed, hspelled, hvalue, classifyDashed.abbreviated, hcandidates,
    classifyRest, hnumber]
  rfl

/-! ## An option in front -/

/-- An option with its value in front of other arguments is found before what is found among them,
unless these are refused before anything is found. -/
theorem Given.Fits.scan_cons {spec : OptionSpec κ} {word v : Arg}
    (h : Fits specs ⟨spec, word, some v⟩) (rest : List Arg) :
    scan specs true (word :: v :: rest) = (scan specs true rest).found (.value spec (some v)) ∨
      ∃ e, scan specs true rest = .stopped e ∧
        scan specs true (word :: v :: rest) = .stopped e := by
  have hword : word ≠ ['-', '-'] := h.word_ne
  have hvalue : v ≠ ['-', '-'] := h.value_ne v rfl
  cases hrest : classifyAll specs rest with
  | error e =>
    have hall : classifyAll specs (word :: v :: rest) = .error e := by
      rw [classifyAll, if_neg hword, h.classify_word, classifyAll, if_neg hvalue,
        h.classify_value v rfl, hrest]
    exact .inr ⟨e, by rw [scan, hrest], by rw [scan, hall]⟩
  | ok kinds =>
    have hall : classifyAll specs (word :: v :: rest) =
        .ok ((word, .option spec word none) :: (v, .operand) :: kinds) := by
      rw [classifyAll, if_neg hword, h.classify_word, classifyAll, if_neg hvalue,
        h.classify_value v rfl, hrest]
    have htakes : spec.takesValue = true := h.takesValue
    left
    rw [scan, hall, scan, hrest]
    simp only [if_true]
    rw [scanKinds, htakes]
    rfl

end

/-- The option for a step limit. -/
def limitSpec : OptionSpec Key :=
  ⟨.stepLimit, ["--step-limit".toList], true⟩

/-- The arguments that give a step limit. -/
def limitArgs (n : Int) : List Arg :=
  ["--step-limit".toList, decimal n]

theorem fits_limit (n : Int) :
    Given.Fits Verb.run.options ⟨limitSpec, "--step-limit".toList, some (decimal n)⟩ := by
  have hdigits : ∀ k, ∀ c ∈ Nat.toDigits 10 k, c.isDigit = true := fun k c hc =>
    Nat.isDigit_of_mem_toDigits (by decide) (by decide) hc
  refine ⟨by simp, rfl, rfl, ?value_ne, ?classify_value⟩
  case value_ne =>
    intro v hv hdash
    obtain rfl : decimal n = v := Option.some.inj hv
    cases n with
    | ofNat k =>
      have hdashes : Nat.toDigits 10 k = ['-', '-'] := hdash
      exact RunFlag.dash_not_mem_toDigits k (hdashes ▸ List.mem_cons_self)
    | negSucc k =>
      have hsecond : Nat.toDigits 10 (k + 1) = ['-'] := (List.cons.inj hdash).2
      exact RunFlag.dash_not_mem_toDigits (k + 1) (hsecond ▸ List.mem_cons_self)
  case classify_value =>
    intro v hv
    obtain rfl : decimal n = v := Option.some.inj hv
    cases n with
    | ofNat k => exact RunFlag.classify_toDigits _ k
    | negSucc k => exact classify_negative (by decide) Nat.toDigits_ne_nil (hdigits (k + 1))

namespace Selection

variable {look : Arg → Lookup} {verb : Verb} {s : Selection} {n : Int}

/-- The selection with this step limit, unless it has one. -/
def orLimit (n : Int) (s : Selection) : Selection :=
  match s.stepLimit with
  | .absent => { s with stepLimit := .value n }
  | .lost | .value _ => s

/-- No option but that for the limit looks at the limit. -/
theorem take_orLimit (spec : OptionSpec Key) (value : Arg) :
    (s.orLimit n).take look verb spec value = (s.take look verb spec value).map (orLimit n) := by
  obtain ⟨operands, file, sample, debug, tapeSize, limit⟩ := s
  unfold take
  cases spec.key with
  | file => cases look value <;> cases limit <;> rfl
  | sample => cases Sample.named (String.ofList value) <;> cases limit <;> rfl
  | tapeSize => cases readInt value <;> cases limit <;> rfl
  | stepLimit => cases readInt value <;> cases limit <;> rfl
  | help | debug => rfl

theorem lose_orLimit (key : Key) : (s.orLimit n).lose key = (s.lose key).orLimit n := by
  obtain ⟨operands, file, sample, debug, tapeSize, limit⟩ := s
  cases key <;> cases limit <;> rfl

/-- A limit that is set before others counts only if none of them is. -/
theorem collect_orLimit (found : List (Occurrence Key)) :
    collect look verb (s.orLimit n) found = (collect look verb s found).map (orLimit n) := by
  induction found generalizing s with
  | nil => rfl
  | cons o rest ih =>
    cases o with
    | flag key =>
      cases key with
      | help => rfl
      | debug =>
        have hdebug : { s.orLimit n with debug := true } =
            ({ s with debug := true } : Selection).orLimit n := by
          obtain ⟨operands, file, sample, debug, tapeSize, limit⟩ := s
          cases limit <;> rfl
        rw [collect, hdebug]
        exact ih
      | file | sample | tapeSize | stepLimit => exact ih
    | operands args =>
      have hoperands : { s.orLimit n with operands := args } =
          ({ s with operands := args } : Selection).orLimit n := by
        obtain ⟨operands, file, sample, debug, tapeSize, limit⟩ := s
        cases limit <;> rfl
      rw [collect, hoperands]
      exact ih
    | value spec value =>
      cases value with
      | none =>
        rw [collect, lose_orLimit]
        exact ih
      | some value =>
        rw [collect, take_orLimit, collect]
        cases s.take look verb spec value with
        | error stop => rfl
        | ok s' => exact ih

end Selection

variable {n : Int}

/-- The option for a step limit in front of all other arguments of a run does nothing but to set a
limit if no later option does. -/
theorem Invocation.ofArgs_limit (look : Arg → Lookup) (hn : n.natAbs < 10 ^ Text.maxDigits)
    (args : List Arg) :
    (∃ s, ofArgs look (Verb.run.word :: args) = .ok ⟨.run, s⟩ ∧
      ofArgs look (Verb.run.word :: (limitArgs n ++ args)) = .ok ⟨.run, s.orLimit n⟩) ∨
    ∃ stop, ofArgs look (Verb.run.word :: args) = .error stop ∧
      ofArgs look (Verb.run.word :: (limitArgs n ++ args)) = .error stop := by
  have hverb : ∀ args, ofArgs look (Verb.run.word :: args) = ofVerb look .run [] args :=
    fun args => rfl
  have hoption : limitArgs n ++ args = "--step-limit".toList :: decimal n :: args := rfl
  rw [hverb, hverb, hoption, ofVerb, ofVerb, Verb.takesSource]
  rcases (fits_limit n).scan_cons args with hfound | ⟨e, hstopped, hstopped'⟩
  -- The option is found first, so all others are collected on top of it.
  · rw [hfound]
    have hcollect : Selection.collect look .run {}
        ((scan Verb.run.options true args).found
            (.value limitSpec (some (decimal n)))).occurrences =
        (Selection.collect look .run {} (scan Verb.run.options true args).occurrences).map
          (Selection.orLimit n) := by
      rw [← Selection.collect_orLimit]
      simp only [Scan.found, Selection.collect, Selection.take, limitSpec, readInt_decimal hn]
      rfl
    rw [hcollect]
    cases Selection.collect look .run {} (scan Verb.run.options true args).occurrences with
    | error stop => exact .inr ⟨stop, rfl, rfl⟩
    | ok s =>
      simp only [Scan.found, Except.map, List.nil_append]
      cases (scan Verb.run.options true args).ending with
      | error e => exact .inr ⟨_, rfl, rfl⟩
      | ok more =>
        cases more with
        | nil => exact .inl ⟨s, rfl, rfl⟩
        | cons arg rest => exact .inr ⟨_, rfl, rfl⟩
  · rw [hstopped, hstopped']
    exact .inr ⟨_, rfl, rfl⟩

/-! ## Loading under a limit -/

/-- The value that a setting gives to a field. -/
def Setting.given? : Setting Int → Option Value
  | .absent => none
  | .lost => some .emptyList
  | .value n => some (.int n)

/-- What is offered for a configuration by options and variables. -/
theorem offers_overrides (env : Environment) (s : Selection) :
    env.offers (Request.overrides s) =
      (s.tapeSize.given?.or (env.offer tapeSizeVariable)).toList.map
          (fun v => (RunConfig.tapeSizeField, v)) ++
        (s.stepLimit.given?.or (env.offer stepLimitVariable)).toList.map
          fun v => (RunConfig.stepLimitField, v) := by
  obtain ⟨operands, file, sample, debug, size, limit⟩ := s
  cases size <;> cases limit <;>
    simp [Environment.offers, Environment.offerFor, Fields.given, Fields.get?, Request.overrides,
      Request.optionValue, Setting.given?, Value.emptyList, RunConfig.tapeSizeField,
      RunConfig.stepLimitField]

section

variable {env env' : Environment} {text : List Char}

/-- A variable that is read as an integer is as good as an option that gives it, unless it spells
zero with more than a single zero. Another option for the limit comes before both. -/
theorem verdict_offers (h : env.offer stepLimitVariable = some (.text text))
    (hread : (Value.text text).toInt = .ok n) (hzero : n ≠ 0 ∨ Text.strip text = ['0'])
    (hsize : env.offer tapeSizeVariable = env'.offer tapeSizeVariable) (s : Selection) :
    RunConfig.verdict (env.offers (Request.overrides s)) =
      RunConfig.verdict (env'.offers (Request.overrides (s.orLimit n))) := by
  rw [offers_overrides, offers_overrides, hsize]
  obtain ⟨operands, file, sample, debug, size, limit⟩ := s
  cases limit with
  | absent =>
    have hverdict := RunConfig.verdict_stepLimit hread hzero
      ((size.given?.or (env'.offer tapeSizeVariable)).toList.map
        fun v => (RunConfig.tapeSizeField, v)) []
    simp only [Selection.orLimit, Setting.given?, h, Option.none_or, Option.some_or]
    exact hverdict
  | lost => rfl
  | value l => rfl

end

/-- Two workspaces hold the same settings but for the step limit. -/
structure AgreeBesideLimit (w w' : Workspace) : Prop where
  /-- The same is said about their settings files. -/
  lines : ∀ debug, settingsLines debug w = settingsLines debug w'
  /-- The same keeps their files from being filled in. -/
  obstacle : w.filled.2 = w'.filled.2
  /-- The same is then offered for the size of the tape. -/
  offer : w.filled.1.environment.offer tapeSizeVariable =
    w'.filled.1.environment.offer tapeSizeVariable

theorem AgreeBesideLimit.refl (w : Workspace) : AgreeBesideLimit w w :=
  ⟨fun _ => rfl, rfl, rfl⟩

/-- Two loads give the same, or both refuse the configuration with the same complaints. -/
def LoadAlike (a b : Except LoadError RunConfig) : Prop :=
  a = b ∨ ∃ issues issues', issues.map Issue.complaint = issues'.map Issue.complaint ∧
    a = .error (.issues issues) ∧ b = .error (.issues issues')

section

variable {w w' : Workspace} {text : List Char}

/-- A variable that is set offers its value, whatever a settings file binds to it. -/
theorem offer_filled (h : w.environment.get? stepLimitVariable = some text)
    (hne : Text.strip text ≠ []) :
    w.filled.1.environment.offer stepLimitVariable = some (.text (Text.strip text)) := by
  rw [Environment.offer, w.get?_filled, h, Option.some_or, Option.map_some]
  split
  · next hnone => cases hnone
  · next hnil => exact absurd (Option.some.inj hnil) hne
  · next value _ hvalue =>
    obtain rfl : Text.strip text = value := Option.some.inj hvalue
    rfl

/-- Loading under a limit from a variable does the same as loading under one from an option. -/
theorem load_alike (hlost : w.isLost = false) (hlost' : w'.isLost = false)
    (hagree : AgreeBesideLimit w w') (h : w.environment.get? stepLimitVariable = some text)
    (hread : (Value.text text).toInt = .ok n) (hzero : n ≠ 0 ∨ Text.strip text = ['0'])
    (s : Selection) :
    LoadAlike (w.load (Request.overrides s)).2 (w'.load (Request.overrides (s.orLimit n))).2 := by
  -- A variable is trimmed before it is offered, so the trimmed text has to spell the same number.
  have hlenient : IntText.ofLenient text = .ok n := Value.ofLenient_of_toInt hread
  have hoffer := offer_filled h (IntText.strip_ne_nil hlenient)
  have hverdict := verdict_offers hoffer
    (Value.toInt_of_ofLenient (IntText.ofLenient_strip hlenient))
    (by rwa [IntText.strip_strip hlenient]) hagree.offer s
  rw [w.load_of_found _ hlost, w'.load_of_found _ hlost', hagree.obstacle]
  cases w'.filled.2 with
  | some e => exact .inl rfl
  | none =>
    dsimp only
    rcases RunConfig.mapError_cases hverdict with ⟨config, hload, hload'⟩ |
      ⟨issues, issues', hload, hload', hsame⟩
    · rw [hload, hload']
      exact .inl rfl
    · rw [hload, hload']
      exact .inr ⟨issues, issues', hsame, rfl, rfl⟩

/-- A variable that spells zero with more than a single zero is refused, unless the limit is
overridden. -/
theorem load_refused (hlost : w.isLost = false) (hfilled : w.filled.2 = none)
    (h : w.environment.get? stepLimitVariable = some text)
    (hread : (Value.text text).toInt = .ok 0) (hspelling : Text.strip text ≠ ['0'])
    {overrides : Fields} (hgiven : overrides.given.get? RunConfig.stepLimitField = none) :
    ∃ issues, (w.load overrides).2 = .error (.issues issues) ∧
      ⟨RunConfig.stepLimitField, .tooSmall 1, .text (Text.strip text)⟩ ∈ issues := by
  have hlenient : IntText.ofLenient text = .ok 0 := Value.ofLenient_of_toInt hread
  have hrefused : (Value.text (Text.strip text)).toLimit = .error (.tooSmall 1) :=
    Value.toLimit_text_of_zero (Value.toInt_of_ofLenient (IntText.ofLenient_strip hlenient))
      (by rwa [IntText.strip_strip hlenient])
  -- The stripped value of the variable is what is offered, as nothing overrides it.
  let fields := w.filled.1.environment.offers overrides
  have hoffered : fields.get? RunConfig.stepLimitField = some (.text (Text.strip text)) := by
    rw [(Environment.get?_offers _ _).2, hgiven, Option.none_or,
      offer_filled h (IntText.strip_ne_nil hlenient)]
  have hmem : ⟨RunConfig.stepLimitField, .tooSmall 1, .text (Text.strip text)⟩ ∈
      RunConfig.schema.issues Value.toInt fields := by
    simp [RunConfig.issues_schema, RunConfig.convert, hoffered, hrefused, issueOf]
  refine ⟨_, ?_, hmem⟩
  rw [w.load_of_found _ hlost, hfilled]
  dsimp only
  rw [RunConfig.ofFields_eq_error_iff.2 ⟨List.ne_nil_of_mem hmem, rfl⟩]
  rfl

end

/-! ## Commands under a limit -/

/-- Two reports are the same, or both are on configurations that are refused with the same
complaints. -/
def Report.AlikeRefusals (a b : Report) : Prop :=
  a = b ∨ ∃ log issues issues', issues.map Issue.complaint = issues'.map Issue.complaint ∧
    a = Request.failing (log ++ [Request.refusalLine issues]) ∧
    b = Request.failing (log ++ [Request.refusalLine issues'])

namespace Request

variable {bounds : Limits} {r r' : Request} {w w' : Workspace}

theorem environment_workspace (h : r.workspace = .ok w) : w.environment = r.environment := by
  unfold workspace at h
  split at h
  · next bytes _ _ =>
    cases htext : Text.decode bytes with
    | error e => simp [htext, Except.map] at h
    | ok text =>
      simp only [htext, Except.map, Except.ok.injEq] at h
      rw [← h]
  · cases h
    rfl

/-- Where loads are alike, so is what is done with a text. -/
theorem planRun_alike_of_load {s s' : Selection} (hw : r.workspace = .ok w)
    (hw' : r'.workspace = .ok w') (hdebug : s'.debug = s.debug)
    (hlines : settingsLines s.debug w = settingsLines s.debug w')
    (hload : LoadAlike (w.load (overrides s)).2 (w'.load (overrides s')).2) (fuel : Nat)
    (stdin text : List Char) :
    ((r.planRun bounds s text).execute bounds fuel stdin).AlikeRefusals
      ((r'.planRun bounds s' text).execute bounds fuel stdin) := by
  rw [planRun, planRun, hw, hw']
  simp only [hdebug, hlines]
  rcases hload with hload | ⟨issues, issues', hsame, hload, hload'⟩
  · rw [hload]
    exact .inl rfl
  · rw [hload, hload']
    exact .inr ⟨_, issues, issues', hsame, rfl, rfl⟩

theorem sourceText_orLimit (hdirectory : r'.directory = r.directory) (s : Selection) :
    r'.sourceText (s.orLimit n) = r.sourceText s := by
  obtain ⟨operands, file, sample, debug, size, limit⟩ := s
  unfold sourceText fileText
  rw [hdirectory]
  cases limit <;> rfl

theorem debug_orLimit (s : Selection) : (s.orLimit n).debug = s.debug := by
  obtain ⟨operands, file, sample, debug, size, limit⟩ := s
  cases limit <;> rfl

/-- A run under a limit from a variable and a run under one from an option, in settings that agree
otherwise. -/
theorem execute_alike {args : List Arg} {text : List Char}
    (hsettings : (∃ w w', r.workspace = .ok w ∧ r'.workspace = .ok w' ∧ AgreeBesideLimit w w') ∨
      ∃ e, r.workspace = .error e ∧ r'.workspace = .error e)
    (hdirectory : r'.directory = r.directory)
    (hargs : r.args = Verb.run.word :: args)
    (hargs' : r'.args = Verb.run.word :: (limitArgs n ++ args))
    (h : r.environment.get? stepLimitVariable = some text)
    (hread : (Value.text text).toInt = .ok n) (hzero : n ≠ 0 ∨ Text.strip text = ['0'])
    (fuel : Nat) (stdin : List Char) :
    (r.execute bounds fuel stdin).AlikeRefusals (r'.execute bounds fuel stdin) := by
  have hdigits : Text.maxDigits = IntText.maxDigits := rfl
  have hn : n.natAbs < 10 ^ Text.maxDigits := by
    rw [hdigits]
    exact IntText.natAbs_lt_of_ofLenient (Value.ofLenient_of_toInt hread)
  rw [execute_eq, execute_eq, plan, plan, hdirectory, hargs, hargs']
  -- Arguments, source and settings are refused alike, in this order; if none is, the loads decide.
  rcases Invocation.ofArgs_limit r.directory.find? hn args with ⟨s, hs, hs'⟩ |
    ⟨stop, hs, hs'⟩
  · rw [hs, hs']
    dsimp only
    rw [sourceText_orLimit hdirectory]
    cases r.sourceText s with
    | error report => exact .inl rfl
    | ok source =>
      dsimp only
      rcases hsettings with ⟨w, w', hw, hw', hagree⟩ | ⟨e, he, he'⟩
      · have hget : w.environment.get? stepLimitVariable = some text := by
          rw [environment_workspace hw, h]
        exact planRun_alike_of_load hw hw' (debug_orLimit s) (hagree.lines s.debug)
          (load_alike (isLost_workspace hw) (isLost_workspace hw') hagree hget hread hzero s)
          fuel stdin source
      · rw [planRun, planRun, he, he']
        exact .inl rfl
  · rw [hs, hs']
    exact .inl rfl

/-! ### Without the variable -/

/-- The workspace without the variable for the step limit. -/
def unsetLimit (w : Workspace) : Workspace :=
  { w with environment := w.environment.unset stepLimitVariable }

/-- The request without the variable for the step limit. -/
def withoutVariable (r : Request) : Request :=
  { r with environment := r.environment.unset stepLimitVariable }

/-- The settings file does not refer to the variable for the step limit, nor does it bind a value to
it that no variable can have. -/
structure PlainSettings (w : Workspace) : Prop where
  /-- No value refers to the variable. -/
  references : ∀ p ∈ DotEnv.pairs w.statements, ∀ value, p.2 = some value →
    ∀ reference ∈ referencesIn value, reference.name ≠ stepLimitVariable
  /-- The variable could be filled in. -/
  bindable : ∀ value, (stepLimitVariable, some value) ∈ w.bindings →
    Environment.obstacle? stepLimitVariable value = none

theorem disablesFiles_unset (env : Environment) :
    (env.unset stepLimitVariable).disablesFiles = env.disablesFiles := by
  have hname : Environment.disablingVariable ≠ stepLimitVariable := by decide
  rw [Environment.disablesFiles, Environment.get?_unset, if_neg hname,
    Environment.disablesFiles]

theorem workspace_withoutVariable : r.withoutVariable.workspace = r.workspace.map unsetLimit := by
  have hfile : r.withoutVariable.settingsFile = r.settingsFile := rfl
  have hdisables : r.withoutVariable.environment.disablesFiles = r.environment.disablesFiles :=
    disablesFiles_unset r.environment
  rw [workspace, workspace, hfile, hdisables]
  split
  · next bytes _ _ => cases Text.decode bytes <;> rfl
  · rfl

/-- Without the variable for the step limit the settings are the same but for the step limit. -/
theorem agreeBesideLimit_unsetLimit (h : PlainSettings w) :
    AgreeBesideLimit w (unsetLimit w) := by
  have hdisables : (unsetLimit w).environment.disablesFiles = w.environment.disablesFiles :=
    disablesFiles_unset w.environment
  have hstatements : (unsetLimit w).statements = w.statements := by
    unfold Workspace.statements FileLibrary.statements
    rw [hdisables]
    rfl
  -- No value that is bound refers to the variable, so none changes with it.
  have hbindings : (unsetLimit w).bindings = w.bindings := by
    show Bindings.ofPairs _ (DotEnv.pairs (unsetLimit w).statements) =
      Bindings.ofPairs _ (DotEnv.pairs w.statements)
    rw [hstatements]
    refine Bindings.ofPairs_congr fun p hp value hvalue reference hreference => ?_
    rw [unsetLimit, Environment.get?_unset,
      if_neg (h.references p hp value hvalue reference hreference)]
  -- A binding to the variable itself is filled in only when it is not set, but never in vain.
  have hfillable : ∀ b ∈ w.bindings,
      (unsetLimit w).environment.fillable b = w.environment.fillable b := fun b hb =>
    Environment.fillable_unset fun value heq => h.bindable value (heq ▸ hb)
  refine ⟨fun debug => ?_, ?_, ?_⟩
  · rw [settingsLines, settingsLines, hdisables, hstatements]
  · rw [Workspace.snd_filled, Workspace.snd_filled, hbindings,
      Environment.firstObstacle?_congr hfillable]
  · have hname : tapeSizeVariable ≠ stepLimitVariable := by decide
    have hsize : (unsetLimit w).environment.get? tapeSizeVariable =
        w.environment.get? tapeSizeVariable := by
      rw [unsetLimit, Environment.get?_unset, if_neg hname]
    rw [Environment.offer, Environment.offer, Workspace.get?_filled, Workspace.get?_filled,
      hbindings, hsize, Environment.filledIn_congr hfillable]

/-- The settings of a request with and without the variable. -/
theorem settings_withoutVariable (h : ∀ w, r.workspace = .ok w → PlainSettings w) :
    (∃ w w', r.workspace = .ok w ∧ r.withoutVariable.workspace = .ok w' ∧
      AgreeBesideLimit w w') ∨
    ∃ e, r.workspace = .error e ∧ r.withoutVariable.workspace = .error e := by
  rw [workspace_withoutVariable]
  cases hw : r.workspace with
  | error e => exact .inr ⟨e, rfl, rfl⟩
  | ok w => exact .inl ⟨w, unsetLimit w, rfl, rfl, agreeBesideLimit_unsetLimit (h w hw)⟩

/-- Without a settings file nothing refers to the variable. -/
theorem plainSettings_of_no_file (hfile : r.settingsFile = none) (hw : r.workspace = .ok w) :
    PlainSettings w := by
  have hworkspace : r.workspace = .ok { environment := r.environment } := by
    rw [workspace, hfile]
    cases r.environment.disablesFiles <;> rfl
  obtain rfl : { environment := r.environment } = w := Except.ok.inj (hworkspace.symm.trans hw)
  constructor
  · intro p hp
    rw [Workspace.statements_of_no_file _ rfl] at hp
    cases hp
  · intro value hvalue
    rw [Workspace.bindings_of_no_file _ rfl] at hvalue
    cases hvalue

/-- A number means the same in every spelling, with one exception: zero as a step limit. A text that
is read as an integer is as good a tape size as that integer, whatever else is offered. It is as
good a step limit, and in the variable for the step limit it does for a command what the option with
the decimal digits of the number does, given in addition or instead, unless the number is zero and
the text spells it with more than a single zero. Then the text is refused for being too small, in
the variable too, while the number itself stands for no limit. -/
theorem spellings_agree {text : List Char} {n : Int} (h : (Value.text text).toInt = .ok n) :
    (∀ before after : Fields,
      RunConfig.verdict (before ++ (RunConfig.tapeSizeField, .text text) :: after) =
        RunConfig.verdict (before ++ (RunConfig.tapeSizeField, .int n) :: after)) ∧
    (n ≠ 0 ∨ Text.strip text = ['0'] →
      (∀ before after : Fields,
        RunConfig.verdict (before ++ (RunConfig.stepLimitField, .text text) :: after) =
          RunConfig.verdict (before ++ (RunConfig.stepLimitField, .int n) :: after)) ∧
      ∀ (bounds : Limits) (fuel : Nat) (r : Request) (args : List Arg) (stdin : List Char),
        r.environment.get? stepLimitVariable = some text →
        let byVariable : Request := { r with args := Verb.run.word :: args }
        let byOption : Request := { r with args := Verb.run.word :: (limitArgs n ++ args) }
        (byVariable.execute bounds fuel stdin).AlikeRefusals
            (byOption.execute bounds fuel stdin) ∧
          ((∀ w, r.workspace = .ok w → PlainSettings w) →
            (byVariable.execute bounds fuel stdin).AlikeRefusals
              (byOption.withoutVariable.execute bounds fuel stdin))) ∧
    (n = 0 → Text.strip text ≠ ['0'] →
      RunConfig.ofFields [(RunConfig.stepLimitField, .text text)] =
          .error [⟨RunConfig.stepLimitField, .tooSmall 1, .text text⟩] ∧
        RunConfig.ofFields [(RunConfig.stepLimitField, .int n)] =
          .ok ⟨Tape.standardSize, none⟩ ∧
        ∀ (w : Workspace) (overrides : Fields), w.isLost = false → w.filled.2 = none →
          w.environment.get? stepLimitVariable = some text →
          overrides.given.get? RunConfig.stepLimitField = none →
          ∃ issues, (w.load overrides).2 = .error (.issues issues) ∧
            ⟨RunConfig.stepLimitField, .tooSmall 1, .text (Text.strip text)⟩ ∈ issues) := by
  refine ⟨RunConfig.verdict_tapeSize h, fun hzero => ⟨RunConfig.verdict_stepLimit h hzero, ?_⟩, ?_⟩
  · intro bounds fuel r args stdin hget byVariable byOption
    refine ⟨?_, fun hplain => ?_⟩
    -- The option is given in addition: the variable is the same for both commands.
    · have hsettings : (∃ w w', byVariable.workspace = .ok w ∧ byOption.workspace = .ok w' ∧
          AgreeBesideLimit w w') ∨
          ∃ e, byVariable.workspace = .error e ∧ byOption.workspace = .error e := by
        cases hw : r.workspace with
        | error e => exact .inr ⟨e, hw, hw⟩
        | ok w => exact .inl ⟨w, w, hw, hw, .refl w⟩
      exact execute_alike hsettings rfl rfl rfl hget h hzero fuel stdin
    -- The option is given instead: one of the commands does not have the variable.
    · have hsettings : (∃ w w', byVariable.workspace = .ok w ∧
          byOption.withoutVariable.workspace = .ok w' ∧ AgreeBesideLimit w w') ∨
          ∃ e, byVariable.workspace = .error e ∧ byOption.withoutVariable.workspace = .error e :=
        settings_withoutVariable (r := byOption) hplain
      exact execute_alike hsettings rfl rfl rfl hget h hzero fuel stdin
  · rintro rfl hspelling
    have hrefused : (Value.text text).toLimit = .error (.tooSmall 1) :=
      Value.toLimit_text_of_zero h hspelling
    refine ⟨?_, rfl, fun w overrides hlost hfilled hget hgiven =>
      load_refused hlost hfilled hget h hspelling hgiven⟩
    simp [RunConfig.ofFields_eq, RunConfig.convert, Fields.get?, RunConfig.unknownFields,
      issueOf, hrefused, RunConfig.stepLimitField, RunConfig.tapeSizeField]

/-- Seven in another spelling, given by the variable and by the option, and two zeros in a row. -/
theorem spellings_agree_seven :
    let seven : List Char := [' ', '+', '0', '_', '7', '.', '0']
    let zero : List Char := ['0', '0']
    let r : Request := { args := [], environment := ⟨[(stepLimitVariable, seven)]⟩ }
    let byVariable : Request := { r with args := Verb.run.word :: ["+".toList] }
    let byOption : Request := { r with args := Verb.run.word :: (limitArgs 7 ++ ["+".toList]) }
    (Value.text seven).toInt = .ok 7 ∧ r.environment.get? stepLimitVariable = some seven ∧
      (byVariable.execute .sample 9 []).AlikeRefusals (byOption.execute .sample 9 []) ∧
      (byVariable.execute .sample 9 []).AlikeRefusals
        (byOption.withoutVariable.execute .sample 9 []) ∧
      (Value.text zero).toInt = .ok 0 ∧ Text.strip zero ≠ ['0'] ∧
      RunConfig.ofFields [(RunConfig.stepLimitField, .text zero)] =
        .error [⟨RunConfig.stepLimitField, .tooSmall 1, .text zero⟩] := by
  intro seven zero r byVariable byOption
  have hseven : (Value.text seven).toInt = .ok 7 := by decide
  have hzero : (Value.text zero).toInt = .ok 0 := by decide
  have hspelling : Text.strip zero ≠ ['0'] := by decide
  have hget : r.environment.get? stepLimitVariable = some seven := rfl
  have hplain : ∀ w, r.workspace = .ok w → PlainSettings w := fun w =>
    plainSettings_of_no_file rfl
  obtain ⟨-, hlimits, -⟩ := spellings_agree hseven
  obtain ⟨-, hcommands⟩ := hlimits (.inl (by decide))
  obtain ⟨haddition, hinstead⟩ := hcommands .sample 9 r ["+".toList] [] hget
  obtain ⟨-, -, hrefused⟩ := spellings_agree hzero
  exact ⟨hseven, hget, haddition, hinstead hplain, hzero, hspelling, (hrefused rfl hspelling).1⟩

/-- Zero as a step limit does not mean the same in every spelling: one zero is no limit, and neither
is the number, but other spellings are refused, in the variable too, where the option with the same
digits is not. -/
theorem zero_spelled_otherwise_refused :
    let w (text : List Char) : Workspace := { environment := ⟨[(stepLimitVariable, text)]⟩ }
    (∀ text ∈ [['0', '0'], ['+', '0'], ['-', '0'], ['0', '.', '0']],
      (Value.text text).toInt = .ok 0 ∧
        RunConfig.ofFields [(RunConfig.stepLimitField, .text text)] =
          .error [⟨RunConfig.stepLimitField, .tooSmall 1, .text text⟩] ∧
        ((w text).load []).2 =
          .error (.issues [⟨RunConfig.stepLimitField, .tooSmall 1, .text text⟩])) ∧
      RunConfig.ofFields [(RunConfig.stepLimitField, .int 0)] = .ok ⟨Tape.standardSize, none⟩ ∧
      RunConfig.ofFields [(RunConfig.stepLimitField, .text ['0'])] =
        .ok ⟨Tape.standardSize, none⟩ ∧
      readInt ['0', '0'] = some 0 ∧
      ((w ['0', '0']).load [(RunConfig.stepLimitField, .int 0)]).2 =
        .ok ⟨Tape.standardSize, none⟩ := by
  decide

end Request

end TapeLang.CommandLine
