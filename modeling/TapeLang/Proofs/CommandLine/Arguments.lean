import TapeLang.CommandLine.Invocation

/-!
# Arguments that are read as they were meant

An option is given by its spelling and, if it takes a value, by that value as the next argument
(`Given`). Options given like this, a separator and operands are found again in this order
(`scan_arguments`), and so is what a user asks for who wants to run a program
(`Invocation.ofArgs_run`). Numbers are written in decimal digits, which are read back up to the
greatest number of digits (`readInt_toDigits`).
-/

namespace TapeLang

/-! ## Digits -/

namespace Text

theorem trimEndBy_eq_self {drop : Char → Bool} {text : List Char}
    (h : ∀ c ∈ text, drop c = false) : trimEndBy drop text = text := by
  induction text with
  | nil => rfl
  | cons c rest ih =>
    have hc : drop c = false := h c List.mem_cons_self
    have hrest := ih fun d hd => h d (List.mem_cons_of_mem c hd)
    rw [trimEndBy, hrest]
    cases rest with
    | nil => simp [hc]
    | cons d rest => rfl

theorem trimBy_eq_self {drop : Char → Bool} {text : List Char}
    (h : ∀ c ∈ text, drop c = false) : trimBy drop text = text := by
  have hfront : text.dropWhile drop = text := by
    cases text with
    | nil => rfl
    | cons c rest => exact List.dropWhile_cons_of_neg (by simp [h c List.mem_cons_self])
  rw [trimBy, hfront, trimEndBy_eq_self h]

variable {c : Char}

theorem digit?_of_isDigit (h : c.isDigit = true) : digit? c = some (c.toNat - '0'.toNat) := by
  have hrange : 48 ≤ c.toNat ∧ c.toNat ≤ 57 := Char.isDigit_iff_toNat.1 h
  have hbelow : c.toNat < 48 + 10 := by omega
  obtain ⟨others, hzeros⟩ : ∃ others, zeros = 48 :: others := ⟨_, rfl⟩
  simp only [digit?, hzeros, List.find?_cons, hrange.1, hbelow, decide_true, Bool.and_self,
    Option.map_some]
  rfl

theorem isSpace_of_isDigit (h : c.isDigit = true) : isSpace c = false := by
  have hrange : 48 ≤ c.toNat ∧ c.toNat ≤ 57 := Char.isDigit_iff_toNat.1 h
  simp only [isSpace, Bool.or_eq_false_iff, Bool.and_eq_false_iff, decide_eq_false_iff_not]
  omega

end Text

namespace CommandLine

theorem readDigits_eq_ofDigitChars {text : List Char} (h : ∀ c ∈ text, c.isDigit = true)
    (hne : text ≠ []) (read : Nat) (afterDigit : Bool) :
    readDigits read afterDigit text = some (Nat.ofDigitChars 10 text read) := by
  induction text generalizing read afterDigit with
  | nil => exact absurd rfl hne
  | cons c rest ih =>
    have hc : c.isDigit = true := h c List.mem_cons_self
    have hunderscore : c ≠ '_' := by
      rintro rfl
      exact absurd hc (by decide)
    rw [readDigits, if_neg hunderscore, Text.digit?_of_isDigit hc, Nat.ofDigitChars_cons]
    cases rest with
    | nil => rfl
    | cons d rest => exact ih (fun e he => h e (List.mem_cons_of_mem c he)) (by simp) _ true

theorem readNatural_toDigits (n : Nat) :
    readNatural (Nat.toDigits 10 n) =
      if Text.maxDigits < (Nat.toDigits 10 n).length then none else some n := by
  have hdigits : ∀ c ∈ Nat.toDigits 10 n, c.isDigit = true := fun c hc =>
    Nat.isDigit_of_mem_toDigits (by decide) (by decide) hc
  have hfilter : (Nat.toDigits 10 n).filter (· ≠ '_') = Nat.toDigits 10 n := by
    refine List.filter_eq_self.2 fun c hc => ?_
    have hne : c ≠ '_' := fun heq => Nat.underscore_not_in_toDigits (heq ▸ hc)
    simpa using hne
  rw [readNatural, hfilter, readDigits_eq_ofDigitChars hdigits Nat.toDigits_ne_nil,
    Nat.ofDigitChars_ten_toDigits]

/-- Decimal digits are read as their number, unless there are too many of them. -/
theorem readInt_toDigits (n : Nat) :
    readInt (Nat.toDigits 10 n) =
      if Text.maxDigits < (Nat.toDigits 10 n).length then none else some (n : Int) := by
  have hdigits : ∀ c ∈ Nat.toDigits 10 n, c.isDigit = true := fun c hc =>
    Nat.isDigit_of_mem_toDigits (by decide) (by decide) hc
  rw [readInt, Text.trimBy_eq_self fun c hc => Text.isSpace_of_isDigit (hdigits c hc)]
  split
  -- Digits have no sign before them.
  · next rest hsign =>
    have hbad := hdigits '-' (hsign ▸ List.mem_cons_self)
    exact absurd hbad (by decide)
  · next rest hsign =>
    have hbad := hdigits '+' (hsign ▸ List.mem_cons_self)
    exact absurd hbad (by decide)
  · rw [readNatural_toDigits]
    split <;> rfl

theorem readInt_of_length_le {n : Nat} (h : (Nat.toDigits 10 n).length ≤ Text.maxDigits) :
    readInt (Nat.toDigits 10 n) = some (n : Int) := by
  rw [readInt_toDigits, if_neg (Nat.not_lt.2 h)]

theorem readInt_of_lt_length {n : Nat} (h : Text.maxDigits < (Nat.toDigits 10 n).length) :
    readInt (Nat.toDigits 10 n) = none := by
  rw [readInt_toDigits, if_pos h]

/-! ## Options -/

/-- An option as a user gives it. -/
structure Given (κ : Type) where
  /-- The option. -/
  spec : OptionSpec κ
  /-- Its spelling. -/
  word : Arg
  /-- The next argument, if the option takes a value. -/
  value : Option Arg

namespace Given

variable {κ : Type} {specs : List (OptionSpec κ)} {g : Given κ}

/-- The arguments that give the option. -/
def args (g : Given κ) : List Arg :=
  g.word :: g.value.toList

/-- What these arguments are. -/
def kinds (g : Given κ) : List (Arg × ArgKind κ) :=
  (g.word, .option g.spec g.word none) :: (g.value.map fun v => (v, .operand)).toList

/-- What is to be found among the arguments. -/
def occurrence (g : Given κ) : Occurrence κ :=
  match g.value with
  | none => .flag g.spec.key
  | some v => .value g.spec (some v)

/-- Among these options, the word is a spelling of the option, and its value is no option. -/
structure Fits (specs : List (OptionSpec κ)) (g : Given κ) : Prop where
  /-- The word is no separator. -/
  word_ne : g.word ≠ ['-', '-']
  /-- The word is a spelling of the option. -/
  classify_word : classify specs g.word = .ok (.option g.spec g.word none)
  /-- The option has a value if it takes one. -/
  takesValue : g.spec.takesValue = g.value.isSome
  /-- The value is no separator. -/
  value_ne : ∀ v, g.value = some v → v ≠ ['-', '-']
  /-- The value is no option. -/
  classify_value : ∀ v, g.value = some v → classify specs v = .ok .operand

theorem Fits.classifyAll_args (h : g.Fits specs) {rest : List Arg}
    {kinds : List (Arg × ArgKind κ)} (hrest : classifyAll specs rest = .ok kinds) :
    classifyAll specs (g.args ++ rest) = .ok (g.kinds ++ kinds) := by
  cases hvalue : g.value with
  | none =>
    simp only [args, Given.kinds, hvalue, Option.toList_none, Option.map_none, List.cons_append,
      List.nil_append]
    rw [classifyAll, if_neg h.word_ne, h.classify_word, hrest]
  | some v =>
    have hsecond : classifyAll specs (v :: rest) = .ok ((v, .operand) :: kinds) := by
      rw [classifyAll, if_neg (h.value_ne v hvalue), h.classify_value v hvalue, hrest]
    simp only [args, Given.kinds, hvalue, Option.toList_some, Option.map_some, List.cons_append,
      List.nil_append]
    rw [classifyAll, if_neg h.word_ne, h.classify_word, hsecond]

theorem Fits.scanKinds_kinds (h : g.Fits specs) {rest : List (Arg × ArgKind κ)}
    {occurrences : List (Occurrence κ)}
    (hrest : scanKinds specs .awaited rest = ⟨occurrences, .ok []⟩) :
    scanKinds specs .awaited (g.kinds ++ rest) = ⟨g.occurrence :: occurrences, .ok []⟩ := by
  have htakes := h.takesValue
  cases hvalue : g.value with
  | none =>
    rw [hvalue, Option.isSome_none] at htakes
    have hflag : scanKinds specs .awaited ((g.word, .option g.spec g.word none) :: rest) =
        (scanFlag specs g.spec g.word none).append (scanKinds specs .awaited rest) := by
      rw [scanKinds.eq_def]
      simp only [htakes, Operands.close, Operands.afterOption, Bool.false_eq_true, if_false]
    simp only [Given.kinds, Given.occurrence, hvalue, Option.map_none, Option.toList_none,
      List.cons_append, List.nil_append]
    rw [hflag, hrest]
    rfl
  | some v =>
    rw [hvalue, Option.isSome_some] at htakes
    simp only [Given.kinds, Given.occurrence, hvalue, Option.map_some, Option.toList_some,
      List.cons_append, List.nil_append]
    rw [scanKinds, htakes]
    simp only [Operands.close, Operands.afterOption, hrest]
    rfl

end Given

section

variable {κ : Type} {specs : List (OptionSpec κ)}

/-- Behind the separator there are operands only, and they come in one group. -/
theorem scanKinds_operands (args pieces : List Arg) :
    scanKinds specs (.coming args) (pieces.map fun a => (a, .operand)) =
      ⟨[.operands (group (args.reverse ++ pieces))], .ok []⟩ := by
  induction pieces generalizing args with
  | nil =>
    rw [List.append_nil]
    rfl
  | cons piece rest ih =>
    rw [List.map_cons, scanKinds, ih, List.reverse_cons, List.append_assoc, List.singleton_append]

/-- Options that fit, the separator and operands are found again in this order. -/
theorem scan_arguments {given : List (Given κ)} (h : ∀ g ∈ given, g.Fits specs)
    (pieces : List Arg) :
    scan specs true (given.flatMap Given.args ++ ['-', '-'] :: pieces) =
      ⟨given.map Given.occurrence ++ [.operands pieces], .ok []⟩ := by
  have hclassify : classifyAll specs (given.flatMap Given.args ++ ['-', '-'] :: pieces) =
      .ok (given.flatMap Given.kinds ++
        (['-', '-'], .separator) :: pieces.map fun a => (a, .operand)) := by
    induction given with
    | nil =>
      rw [List.flatMap_nil, List.nil_append, classifyAll, if_pos rfl]
      rfl
    | cons g rest ih =>
      have hrest := ih fun g' hg' => h g' (List.mem_cons_of_mem g hg')
      rw [List.flatMap_cons, List.append_assoc,
        (h g List.mem_cons_self).classifyAll_args hrest, List.flatMap_cons, List.append_assoc]
  have hscan : scanKinds specs .awaited (given.flatMap Given.kinds ++
      (['-', '-'], .separator) :: pieces.map fun a => (a, .operand)) =
      ⟨given.map Given.occurrence ++ [.operands pieces], .ok []⟩ := by
    clear hclassify
    induction given with
    | nil =>
      rw [List.flatMap_nil, List.nil_append, scanKinds, scanKinds_operands]
      -- The separator is the first one in the group, and goes.
      rw [List.reverse_singleton, List.singleton_append, group, List.erase_cons_head]
      rfl
    | cons g rest ih =>
      have hrest := ih fun g' hg' => h g' (List.mem_cons_of_mem g hg')
      rw [List.flatMap_cons, List.append_assoc,
        (h g List.mem_cons_self).scanKinds_kinds hrest]
      rfl
  rw [scan, hclassify]
  exact hscan

end

/-! ## Running a program -/

/-- An option of a run that does not say where its program comes from. -/
inductive RunFlag
  /-- Details are wanted. -/
  | debug
  /-- The tape is to have so many cells. -/
  | tapeSize (n : Nat)
  /-- So many steps are allowed. -/
  | stepLimit (l : Nat)
  deriving DecidableEq, Repr

namespace RunFlag

/-- How a flag is given. -/
def given : RunFlag → Given Key
  | debug => ⟨⟨.debug, ["--debug".toList], false⟩, "--debug".toList, none⟩
  | tapeSize n =>
    ⟨⟨.tapeSize, ["--tape-size".toList], true⟩, "--tape-size".toList, some (Nat.toDigits 10 n)⟩
  | stepLimit l =>
    ⟨⟨.stepLimit, ["--step-limit".toList], true⟩, "--step-limit".toList, some (Nat.toDigits 10 l)⟩

/-- What is selected by a flag. -/
def select (s : Selection) : RunFlag → Selection
  | debug => { s with debug := true }
  | tapeSize n => { s with tapeSize := .value n }
  | stepLimit l => { s with stepLimit := .value l }

/-- The number in the flag, if there is one, has no more digits than are read. -/
def Readable : RunFlag → Prop
  | debug => True
  | tapeSize n | stepLimit n => (Nat.toDigits 10 n).length ≤ Text.maxDigits

theorem dash_not_mem_toDigits (n : Nat) : '-' ∉ Nat.toDigits 10 n := by
  intro hmem
  have hdigit : ('-' : Char).isDigit = true :=
    Nat.isDigit_of_mem_toDigits (by decide) (by decide) hmem
  exact absurd hdigit (by decide)

theorem classify_toDigits {κ : Type} (specs : List (OptionSpec κ)) (n : Nat) :
    classify specs (Nat.toDigits 10 n) = .ok .operand := by
  unfold classify
  split
  · next hdash => exact absurd (hdash ▸ List.mem_cons_self) (dash_not_mem_toDigits n)
  · rfl

theorem given_fits (flag : RunFlag) : flag.given.Fits Verb.run.options := by
  have hvalue : ∀ v, flag.given.value = some v → ∃ n, v = Nat.toDigits 10 n := by
    intro v hv
    cases flag with
    | debug => cases hv
    | tapeSize n | stepLimit n => exact ⟨n, (Option.some.inj hv).symm⟩
  refine ⟨?word_ne, ?classify_word, ?takesValue, ?value_ne, ?classify_value⟩
  case word_ne => cases flag <;> simp [given]
  case classify_word => cases flag <;> rfl
  case takesValue => cases flag <;> rfl
  -- A value is made of digits, and any option begins with a dash.
  case value_ne =>
    intro v hv hdash
    obtain ⟨n, rfl⟩ := hvalue v hv
    exact dash_not_mem_toDigits n (hdash ▸ List.mem_cons_self)
  case classify_value =>
    intro v hv
    obtain ⟨n, rfl⟩ := hvalue v hv
    exact classify_toDigits _ n

theorem take_of_readable {look : Arg → Lookup} {verb : Verb} {s : Selection} {flag : RunFlag}
    (h : flag.Readable) (rest : List (Occurrence Key)) :
    Selection.collect look verb s (flag.given.occurrence :: rest) =
      Selection.collect look verb (select s flag) rest := by
  cases flag with
  | debug => rfl
  | tapeSize n | stepLimit n =>
    have hread : readInt (Nat.toDigits 10 n) = some (n : Int) := readInt_of_length_le h
    simp only [Given.occurrence, given, Selection.collect, Selection.take, hread, select]

theorem take_of_not_readable {look : Arg → Lookup} {verb : Verb} {s : Selection}
    {flag : RunFlag} (h : ¬ flag.Readable) (rest : List (Occurrence Key)) :
    ∃ e, Selection.collect look verb s (flag.given.occurrence :: rest) =
      .error (.usage (some verb) e) := by
  cases flag with
  | debug => exact absurd trivial h
  | tapeSize n | stepLimit n =>
    have hread : readInt (Nat.toDigits 10 n) = none := readInt_of_lt_length (Nat.not_le.1 h)
    simp only [Given.occurrence, given, Selection.collect, Selection.take, hread]
    exact ⟨_, rfl⟩

/-- One flag after the other is taken into the selection. -/
theorem collect_given {look : Arg → Lookup} {verb : Verb} {flags : List RunFlag}
    (h : ∀ flag ∈ flags, flag.Readable) (s : Selection) (rest : List (Occurrence Key)) :
    Selection.collect look verb s ((flags.map given).map Given.occurrence ++ rest) =
      Selection.collect look verb (flags.foldl select s) rest := by
  induction flags generalizing s with
  | nil => rfl
  | cons flag flags ih =>
    have hrest := ih (fun f hf => h f (List.mem_cons_of_mem flag hf)) (select s flag)
    exact (take_of_readable (h flag List.mem_cons_self) _).trans hrest

/-- A flag that cannot be read is refused, whatever comes behind it. -/
theorem collect_unreadable {look : Arg → Lookup} {verb : Verb} {flags : List RunFlag}
    (h : ∃ flag ∈ flags, ¬ flag.Readable) (s : Selection) (rest : List (Occurrence Key)) :
    ∃ e, Selection.collect look verb s ((flags.map given).map Given.occurrence ++ rest) =
      .error (.usage (some verb) e) := by
  obtain ⟨bad, hmem, hbad⟩ := h
  induction flags generalizing s with
  | nil => cases hmem
  | cons flag flags ih =>
    by_cases hflag : flag.Readable
    · have hrest : bad ∈ flags := by
        rcases List.mem_cons.1 hmem with rfl | hrest
        · exact absurd hflag hbad
        · exact hrest
      obtain ⟨e, he⟩ := ih (select s flag) hrest
      exact ⟨e, (take_of_readable hflag _).trans he⟩
    · exact take_of_not_readable hflag _

/-- Whether details were wanted before does not matter to what else is selected. -/
theorem foldl_select_withDebug (flags : List RunFlag) (s : Selection) (before after : Bool) :
    { flags.foldl select { s with debug := before } with debug := after } =
      { flags.foldl select s with debug := after } := by
  induction flags generalizing s before with
  | nil => rfl
  | cons flag flags ih =>
    cases flag with
    | debug => rfl
    | tapeSize n => exact ih (select s (.tapeSize n)) before
    | stepLimit l => exact ih (select s (.stepLimit l)) before

/-- The wish for details may stand anywhere among the flags. -/
theorem foldl_select (flags : List RunFlag) (s : Selection) :
    flags.foldl select s =
      { (flags.filter (· ≠ debug)).foldl select s with
        debug := s.debug || flags.contains debug } := by
  induction flags generalizing s with
  | nil => simp
  | cons flag flags ih =>
    rw [List.foldl_cons, ih]
    cases flag with
    | debug =>
      -- The filter drops this flag, and the mark it sets is set at the end instead.
      have hsame := foldl_select_withDebug (flags.filter (· ≠ debug)) s true true
      simpa [select] using hsame
    | tapeSize n => simp [select]
    | stepLimit l => simp [select]

end RunFlag

/-- The arguments with which a program is run: flags, the separator, and the text in pieces. -/
def runArgs (flags : List RunFlag) (pieces : List Arg) : List Arg :=
  Verb.run.word :: ((flags.map RunFlag.given).flatMap Given.args ++ ['-', '-'] :: pieces)

variable (look : Arg → Lookup) {flags : List RunFlag} (pieces : List Arg)

theorem scan_runArgs :
    scan Verb.run.options true ((flags.map RunFlag.given).flatMap Given.args ++
      ['-', '-'] :: pieces) =
      ⟨(flags.map RunFlag.given).map Given.occurrence ++ [.operands pieces], .ok []⟩ := by
  refine scan_arguments (fun g hg => ?_) pieces
  obtain ⟨flag, -, rfl⟩ := List.mem_map.1 hg
  exact flag.given_fits

/-- What the user asks for with these arguments. -/
theorem Invocation.ofArgs_run (h : ∀ flag ∈ flags, flag.Readable) :
    Invocation.ofArgs look (runArgs flags pieces) =
      .ok ⟨.run, { flags.foldl RunFlag.select {} with operands := pieces }⟩ := by
  have hverb : Invocation.ofArgs look (runArgs flags pieces) =
      Invocation.ofVerb look .run []
        ((flags.map RunFlag.given).flatMap Given.args ++ ['-', '-'] :: pieces) := rfl
  simp only [hverb, Invocation.ofVerb, Verb.takesSource, scan_runArgs, RunFlag.collect_given h,
    Selection.collect, List.append_nil]

/-- A number with too many digits is a wrong use of the command. -/
theorem Invocation.ofArgs_unreadable (h : ∃ flag ∈ flags, ¬ flag.Readable) :
    ∃ e, Invocation.ofArgs look (runArgs flags pieces) = .error (.usage (some .run) e) := by
  have hverb : Invocation.ofArgs look (runArgs flags pieces) =
      Invocation.ofVerb look .run []
        ((flags.map RunFlag.given).flatMap Given.args ++ ['-', '-'] :: pieces) := rfl
  have hcollect : ∃ e, Selection.collect look .run {}
      ((flags.map RunFlag.given).map Given.occurrence ++ [.operands pieces]) =
      .error (.usage (some .run) e) :=
    RunFlag.collect_unreadable h {} _
  obtain ⟨e, he⟩ := hcollect
  refine ⟨e, ?_⟩
  simp only [hverb, Invocation.ofVerb, Verb.takesSource, scan_runArgs, he]

end CommandLine

end TapeLang
