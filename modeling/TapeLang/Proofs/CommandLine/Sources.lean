import TapeLang.Proofs.CommandLine.Routes
import TapeLang.Proofs.CommandLine.Scanning
import TapeLang.Proofs.Program.Sexpr
import TapeLang.Proofs.Text.Utf8

/-!
# Sources of a program text

A command can be given a program text as operands, cut into pieces in any way, in a file, or as the
name of a bundled program. It does the same with all of them (`Request.sources_agree`). A file may
spell its line breaks with carriage returns, which are line feeds when it has been read: then the
place of a bracket can be another one.

* `Request.plan_of_source`: the source decides about nothing but the text.
* `Report.Alike`: reports that agree except for the place of a bracket.
-/

namespace TapeLang

open Text

/-! ## Line breaks -/

/-- A line break is a comment, however it is spelled. -/
theorem Text.code_unifyBreaks (text : List Char) : code (unifyBreaks text) = code text := by
  fun_induction unifyBreaks text with
  | case1 rest ih => exact ih
  | case2 c rest _ ih =>
    split
    · next hc =>
      subst hc
      exact ih
    · simp only [code, List.filter_cons] at ih ⊢
      rw [ih]
  | case3 => rfl

theorem ReadAlike.cases {x y : Except ParseError Program} (h : ReadAlike x y) :
    (∃ p q, x = .ok p ∧ y = .ok q ∧ p.bare = q.bare) ∨
      ∃ e e', x = .error e ∧ y = .error e' ∧ e.SameKind e' := by
  cases x with
  | ok p =>
    cases y with
    | ok q => exact .inl ⟨p, q, rfl, rfl, (Program.same_eq_true_iff.1 h).2⟩
    | error e => exact h.elim
  | error e =>
    cases y with
    | ok q => exact h.elim
    | error e' => exact .inr ⟨e, e', rfl, rfl, h⟩

/-- Texts with the same code are read as programs that differ in their places only, or refused for
the same reason. -/
theorem ofTextWithin_of_code_eq {bound : Nat} (hbound : 0 < bound) {t u : List Char}
    (h : code t = code u) :
    (∃ p q, Program.ofTextWithin bound t = .ok p ∧ Program.ofTextWithin bound u = .ok q ∧
      p.bare = q.bare) ∨
    ∃ e e', Program.ofTextWithin bound t = .error e ∧ Program.ofTextWithin bound u = .error e' ∧
      e.SameKind e' := by
  have ht := readAlike_code hbound t
  rw [h] at ht
  -- Both texts are compared with their code.
  rcases ht.cases with ⟨c, p, hc, hp, hcp⟩ | ⟨f, e, hf, he, hfe⟩ <;>
    rcases (readAlike_code hbound u).cases with ⟨c', q, hc', hq, hcq⟩ | ⟨f', e', hf', he', hfe'⟩
  · obtain rfl : c = c' := Except.ok.inj (hc.symm.trans hc')
    exact .inl ⟨p, q, hp, hq, hcp.symm.trans hcq⟩
  · cases hc.symm.trans hf'
  · cases hf.symm.trans hc'
  · obtain rfl : f = f' := Except.error.inj (hf.symm.trans hf')
    have hkind : e.SameKind e' := by
      cases f <;> cases e <;> cases e' <;> trivial
    exact .inr ⟨e, e', he, he', hkind⟩

/-- A carriage return makes no line of its own, and a line feed does. -/
example : Program.ofText ['\r', ']'] = .error (.stray ⟨1, 2⟩) ∧
    Program.ofText (unifyBreaks ['\r', ']']) = .error (.stray ⟨2, 1⟩) := by
  decide

/-- What is left to do does not matter to what has been written. -/
theorem Ending.output_bare (o : Ending) :
    (o.map Config.bare id).machine.output = o.machine.output := by
  cases o <;> rfl

namespace CommandLine

/-! ## What is written -/

theorem parsedDetail_quiet (text : List Char) (p : Program) : parsedDetail false text p = [] := by
  rw [parsedDetail, detail, detailOf, if_neg Bool.false_ne_true]

theorem failureLines_quiet (f : Failure) : failureLines false f = [errorLine f.message] := by
  rw [failureLines, detail, detailOf, if_neg Bool.false_ne_true, List.nil_append]

/-- Neither the program nor what is left of it matters to what is said about the end of its run. -/
theorem Job.conclusion_bare (p q : Program) (config : RunConfig) (debug : Bool) (o : Ending) :
    Job.conclusion ⟨q, config, debug⟩ (o.map Config.bare id) =
      Job.conclusion ⟨p, config, debug⟩ o := by
  cases o <;> rfl

/-! ## Selections -/

/-- Whether an occurrence says where the program text comes from. -/
def Occurrence.choosesSource : Occurrence Key → Bool
  | .flag _ => false
  | .value spec _ => spec.key = .file || spec.key = .sample
  | .operands _ => true

namespace Selection

variable {look : Arg → Lookup} {verb : Verb} {s : Selection} {operands : List Arg}
  {file : Setting Arg} {sample : Setting Sample}

/-- The selection with another source. -/
def withSource (operands : List Arg) (file : Setting Arg) (sample : Setting Sample)
    (s : Selection) : Selection :=
  { s with operands, file, sample }

/-- One part of the occurrences is gone through after the other. -/
theorem collect_append (xs ys : List (Occurrence Key)) :
    collect look verb s (xs ++ ys) =
      (collect look verb s xs).bind fun s' => collect look verb s' ys := by
  fun_induction collect look verb s xs <;> simp_all [collect, Except.bind]

/-- An option that is not about the source does the same with any. -/
theorem take_withSource {spec : OptionSpec Key} (hfile : spec.key ≠ .file)
    (hsample : spec.key ≠ .sample) (value : Arg) :
    (s.withSource operands file sample).take look verb spec value =
      (s.take look verb spec value).map (withSource operands file sample) := by
  unfold take
  split
  · contradiction
  · contradiction
  · split <;> rfl
  · split <;> rfl
  · rfl
  · rfl

theorem lose_withSource {key : Key} (hfile : key ≠ .file) (hsample : key ≠ .sample) :
    (s.withSource operands file sample).lose key =
      (s.lose key).withSource operands file sample := by
  cases key <;> first | rfl | contradiction

/-- Occurrences that are not about the source do the same with any. -/
theorem collect_withSource {found : List (Occurrence Key)}
    (h : ∀ o ∈ found, o.choosesSource = false) :
    collect look verb (s.withSource operands file sample) found =
      (collect look verb s found).map (withSource operands file sample) := by
  induction found generalizing s with
  | nil => rfl
  | cons o rest ih =>
    have ho := h o List.mem_cons_self
    have hrest := fun s' => ih (s := s') fun o' ho' => h o' (List.mem_cons_of_mem o ho')
    cases o with
    | flag key =>
      cases key with
      | help => rfl
      | debug => exact hrest { s with debug := true }
      | file | sample | tapeSize | stepLimit => exact hrest s
    | operands args => cases ho
    | value spec value =>
      obtain ⟨hfile, hsample⟩ : spec.key ≠ .file ∧ spec.key ≠ .sample := by
        simpa [Occurrence.choosesSource] using ho
      cases value with
      | none => rw [collect, lose_withSource hfile hsample, hrest, collect]
      | some value =>
        rw [collect, take_withSource hfile hsample, collect]
        cases s.take look verb spec value with
        | error stop => rfl
        | ok s' => exact hrest s'

/-- One occurrence that says where the program text comes from, among others that do not. -/
theorem collect_insert {before after : List (Occurrence Key)} {o : Occurrence Key}
    (hbefore : ∀ o' ∈ before, o'.choosesSource = false)
    (hafter : ∀ o' ∈ after, o'.choosesSource = false)
    (ho : ∀ s : Selection, collect look verb (s.withSource [] .absent .absent) [o] =
      .ok (s.withSource operands file sample)) :
    collect look verb {} (before ++ o :: after) =
      (collect look verb {} (before ++ after)).map (withSource operands file sample) := by
  -- Nothing has been said about the source before.
  have hstart : collect look verb {} before =
      (collect look verb {} before).map (withSource [] .absent .absent) :=
    collect_withSource (s := {}) hbefore
  rw [← List.singleton_append, collect_append, collect_append]
  cases hs : collect look verb {} before with
  | error stop => rfl
  | ok s =>
    rw [hs] at hstart
    have hnone : s = s.withSource [] .absent .absent := Except.ok.inj hstart
    have hchosen : collect look verb s [o] = .ok (s.withSource operands file sample) := by
      rw [hnone]
      exact ho s
    simp only [Except.bind, collect_append, hchosen]
    exact collect_withSource hafter

theorem debug_lose (s : Selection) (key : Key) : (s.lose key).debug = s.debug := by
  cases key <;> rfl

theorem debug_take {spec : OptionSpec Key} {value : Arg} {s' : Selection}
    (h : s.take look verb spec value = .ok s') : s'.debug = s.debug := by
  unfold take at h
  split at h <;> (try split at h) <;> cases h <;> rfl

/-- Details are reported only if they are wanted. -/
theorem debug_of_collect {found : List (Occurrence Key)} {s' : Selection}
    (h : collect look verb s found = .ok s') (hquiet : .flag .debug ∉ found) :
    s'.debug = s.debug := by
  induction found generalizing s with
  | nil =>
    cases h
    rfl
  | cons o rest ih =>
    have hrest := fun s (h : collect look verb s rest = .ok s') =>
      ih h fun hmem => hquiet (List.mem_cons_of_mem o hmem)
    cases o with
    | flag key =>
      cases key with
      | help => cases h
      | debug => exact absurd List.mem_cons_self hquiet
      | file | sample | tapeSize | stepLimit => exact hrest s h
    | operands args => exact hrest { s with operands := args } h
    | value spec value =>
      cases value with
      | none => exact (hrest _ h).trans (debug_lose s spec.key)
      | some value =>
        rw [collect] at h
        split at h
        · next s₁ htake => exact (hrest _ h).trans (debug_take htake)
        · cases h

end Selection

/-! ## Reports -/

/-- The same lines but for the place in the last one, which is on a loop that is not balanced. -/
def AlikeButPlace (lines lines' : List (List Char)) : Prop :=
  ∃ (log : List (List Char)) (message : String) (place place' : Span),
    lines = log ++
      [errorLine (Failure.unbalancedLoop message (.int place.line) (.int place.col)).message] ∧
    lines' = log ++
      [errorLine (Failure.unbalancedLoop message (.int place'.line) (.int place'.col)).message]

/-- The same output and ending, and the same lines but for the place of a bracket unless details are
wanted. -/
structure Report.Alike (debug : Bool) (a b : Report) : Prop where
  /-- The same is written to standard output. -/
  stdout : a.stdout = b.stdout
  /-- They end alike. -/
  ending : a.ending = b.ending
  /-- The lines differ at most in the place of a bracket. -/
  stderr : debug = false → a.stderr = b.stderr ∨ AlikeButPlace a.stderr b.stderr

theorem Report.Alike.refl (debug : Bool) (a : Report) : a.Alike debug a :=
  ⟨rfl, rfl, fun _ => .inl rfl⟩

/-- Carry out what remains to be done. -/
def Plan.execute (bounds : Limits) (fuel : Nat) (stdin : List Char) : Plan → Report
  | .report done => done
  | .job log j =>
    match j.config.machine bounds.hasRoom
        (Text.lines (Text.codePoints (Text.unifyBreaks stdin))) with
    | .error e => Request.faulty (log ++ j.startLines) (.tape e)
    | .ok m =>
      let ending := j.program.runClosed (some bounds.running) fuel m
      { stdout := ending.machine.output
        stderr := log ++ j.startLines ++ (j.conclusion ending).1
        ending := (j.conclusion ending).2 }

namespace Request

variable {bounds : Limits} {r : Request} {verb : Verb} {s : Selection}

theorem execute_eq (bounds : Limits) (fuel : Nat) (r : Request) (stdin : List Char) :
    r.execute bounds fuel stdin = (r.plan bounds).execute bounds fuel stdin := by
  rw [execute]
  cases r.plan bounds <;> rfl

/-- What a verb plans to do with a text. -/
def planText (bounds : Limits) (r : Request) (verb : Verb) (s : Selection)
    (text : List Char) : Plan :=
  match verb with
  | .run => r.planRun bounds s text
  | .parse => .report (planParse bounds s.debug text)
  | .samples => .report sampleList

/-- The source decides about nothing but the text. -/
theorem plan_of_source (hverb : verb.takesSource = true) {args : List Arg}
    {found sourced : List (Occurrence Key)} {operands : List Arg} {file : Setting Arg}
    {sample : Setting Sample} {text : List Char}
    (hscan : scan verb.options true args = ⟨sourced, .ok []⟩)
    (hcollect : Selection.collect r.directory.find? verb {} sourced =
      (Selection.collect r.directory.find? verb {} found).map
        (Selection.withSource operands file sample))
    (htext : ∀ s : Selection, r.sourceText (s.withSource operands file sample) = .ok text) :
    plan bounds { r with args := verb.word :: args } =
      match Selection.collect r.directory.find? verb {} found with
      | .error stop => .report (stopReport stop)
      | .ok s => r.planText bounds verb s text := by
  -- Choosing a source adds nothing to what the other arguments select.
  have hargs : Invocation.ofArgs r.directory.find? (verb.word :: args) =
      (Selection.collect r.directory.find? verb {} sourced).map fun s => ⟨verb, s⟩ := by
    have hword : Invocation.ofArgs r.directory.find? (verb.word :: args) =
        Invocation.ofVerb r.directory.find? verb [] args := by
      cases verb <;> rfl
    rw [hword, Invocation.ofVerb, hverb, hscan]
    cases Selection.collect r.directory.find? verb {} sourced <;> rfl
  rw [plan, hargs, hcollect]
  cases Selection.collect r.directory.find? verb {} found with
  | error stop => rfl
  | ok s =>
    have hsource : sourceText { r with args := verb.word :: args }
        (s.withSource operands file sample) = .ok text := htext s
    cases verb with
    | run =>
      simp only [Except.map, hsource]
      rfl
    | parse =>
      simp only [Except.map, hsource]
      rfl
    | samples => cases hverb

/-! ### The same code -/

/-- A text of the same code is refused with the same line but for the place of a bracket. -/
theorem errorLine_alike {e e' : ParseError} (h : e.SameKind e') (log : List (List Char)) :
    log ++ [errorLine e.failure.message] = log ++ [errorLine e'.failure.message] ∨
      AlikeButPlace (log ++ [errorLine e.failure.message])
        (log ++ [errorLine e'.failure.message]) := by
  cases e with
  | stray place =>
    cases e' with
    | stray place' => exact .inr ⟨log, _, place, place', rfl, rfl⟩
    | _ => exact h.elim
  | unclosed place =>
    cases e' with
    | unclosed place' => exact .inr ⟨log, _, place, place', rfl, rfl⟩
    | _ => exact h.elim
  | tooDeep =>
    cases e' with
    | tooDeep => exact .inl rfl
    | _ => exact h.elim

/-- Texts of the same code print the same tree. -/
theorem planParse_alike (hreading : 0 < bounds.reading) (debug : Bool) {t u : List Char}
    (h : code t = code u) : (planParse bounds debug t).Alike debug (planParse bounds debug u) := by
  rcases ofTextWithin_of_code_eq hreading h with ⟨p, q, hp, hq, hbare⟩ | ⟨e, e', he, he', hkind⟩
  · have hprint : p.sexprWithin bounds.printing = q.sexprWithin bounds.printing := by
      rw [← Program.sexprWithin_bare, hbare, Program.sexprWithin_bare]
    have hquiet : debug = false → parsedDetail debug t p = parsedDetail debug u q := by
      rintro rfl
      rw [parsedDetail_quiet, parsedDetail_quiet]
    simp only [planParse, hp, hq, hprint, faulty]
    cases q.sexprWithin bounds.printing with
    | ok tree => exact ⟨rfl, rfl, fun hdebug => .inl (hquiet hdebug)⟩
    | error e => cases e <;> dsimp only <;> exact ⟨rfl, rfl, fun hdebug => .inl (hquiet hdebug)⟩
  · have hlines := errorLine_alike hkind []
    simp only [List.nil_append] at hlines
    simp only [planParse, he, he']
    exact ⟨rfl, rfl, fun _ => hlines⟩

/-- Programs that differ in their places only are run alike. -/
theorem job_alike {p q : Program} (hbare : p.bare = q.bare) {log log' : List (List Char)}
    (config : RunConfig) {debug : Bool} (hlog : debug = false → log = log') (fuel : Nat)
    (stdin : List Char) :
    ((Plan.job log ⟨p, config, debug⟩).execute bounds fuel stdin).Alike debug
      ((Plan.job log' ⟨q, config, debug⟩).execute bounds fuel stdin) := by
  simp only [Plan.execute]
  cases config.machine bounds.hasRoom (lines (codePoints (unifyBreaks stdin))) with
  | error e =>
    dsimp only [faulty]
    refine ⟨rfl, rfl, fun hdebug => .inl ?_⟩
    rw [hlog hdebug]
    rfl
  | ok m =>
    dsimp only
    -- The runs stand alike but for what is left to be done.
    have hrun : (p.runClosed (some bounds.running) fuel m).map Config.bare id =
        (q.runClosed (some bounds.running) fuel m).map Config.bare id := by
      rw [← Program.runClosed_bare, hbare, Program.runClosed_bare]
    generalize p.runClosed (some bounds.running) fuel m = o at hrun ⊢
    generalize q.runClosed (some bounds.running) fuel m = o' at hrun ⊢
    have houtput : o.machine.output = o'.machine.output := by
      rw [← Ending.output_bare, hrun, Ending.output_bare]
    have hconclusion :=
      calc Job.conclusion ⟨p, config, debug⟩ o
        _ = Job.conclusion ⟨q, config, debug⟩ (o.map Config.bare id) :=
          (Job.conclusion_bare p q config debug o).symm
        _ = Job.conclusion ⟨q, config, debug⟩ (o'.map Config.bare id) := by rw [hrun]
        _ = Job.conclusion ⟨q, config, debug⟩ o' := Job.conclusion_bare q q config debug o'
    rw [houtput, hconclusion]
    refine ⟨rfl, rfl, fun hdebug => .inl ?_⟩
    rw [hlog hdebug]
    rfl

/-- Texts of the same code are run alike. -/
theorem planRun_alike (hreading : 0 < bounds.reading) (fuel : Nat) (stdin : List Char)
    {t u : List Char} (h : code t = code u) :
    ((r.planRun bounds s t).execute bounds fuel stdin).Alike s.debug
      ((r.planRun bounds s u).execute bounds fuel stdin) := by
  -- What fails before the text is read fails for both texts.
  unfold planRun
  split
  · exact .refl _ _
  split
  · exact .refl _ _
  · exact .refl _ _
  · next log config _ =>
    rcases ofTextWithin_of_code_eq hreading h with ⟨p, q, hp, hq, hbare⟩ | ⟨e, e', he, he', hkind⟩
    · rw [hp, hq]
      refine job_alike hbare config (fun hdebug => ?_) fuel stdin
      rw [hdebug, parsedDetail_quiet, parsedDetail_quiet]
    · rw [he, he']
      refine ⟨rfl, rfl, fun hdebug => ?_⟩
      dsimp only [failing]
      rw [hdebug, failureLines_quiet, failureLines_quiet]
      exact errorLine_alike hkind _

theorem planText_alike (hreading : 0 < bounds.reading) (fuel : Nat) (stdin : List Char)
    {t u : List Char} (h : code t = code u) :
    ((r.planText bounds verb s t).execute bounds fuel stdin).Alike s.debug
      ((r.planText bounds verb s u).execute bounds fuel stdin) := by
  cases verb with
  | run => exact planRun_alike hreading fuel stdin h
  | parse => exact planParse_alike hreading s.debug h
  | samples => exact .refl _ _

/-! ### Operands, files and bundled programs -/

section

variable {found : List (Occurrence Key)} {args : List Arg} {text : List Char}

/-- The operands are the source. -/
theorem plan_of_operands (hverb : verb.takesSource = true)
    (hscan : scan verb.options false args = ⟨found, .ok []⟩)
    (hfree : ∀ o ∈ found, o.choosesSource = false) {pieces : List Arg} (hpieces : pieces ≠ []) :
    plan bounds { r with args := verb.word :: (args ++ ['-', '-'] :: pieces) } =
      match Selection.collect r.directory.find? verb {} found with
      | .error stop => .report (stopReport stop)
      | .ok s => r.planText bounds verb s pieces.flatten := by
  have hcollect : Selection.collect r.directory.find? verb {} (found ++ [.operands pieces]) =
      (Selection.collect r.directory.find? verb {} (found ++ [])).map
        (Selection.withSource pieces .absent .absent) :=
    Selection.collect_insert hfree (by simp) fun s => rfl
  rw [List.append_nil] at hcollect
  refine plan_of_source hverb (scan_separated hscan pieces) hcollect fun s => ?_
  cases pieces with
  | nil => exact absurd rfl hpieces
  | cons piece rest => rfl

/-- The arguments are these options and another one. -/
def Adds (verb : Verb) (found : List (Occurrence Key)) (o : Occurrence Key) (args : List Arg) :
    Prop :=
  ∃ before after, before ++ after = found ∧
    scan verb.options false args = ⟨before ++ o :: after, .ok []⟩

/-- What an argument is that holds a value behind an option for the source. -/
theorem classify_attached (hverb : verb.takesSource = true) {spec : OptionSpec Key}
    (hspec : spec ∈ sourceOptions) (value : Arg) :
    classify verb.options (spec.label ++ '=' :: value) =
      .ok (.option spec spec.label (some value)) := by
  simp only [sourceOptions, List.mem_cons, List.not_mem_nil, or_false] at hspec
  rcases hspec with rfl | rfl | rfl <;> cases verb <;> first | rfl | cases hverb

/-- Such an argument can be put before the others. -/
theorem adds_attached (hverb : verb.takesSource = true) {spec : OptionSpec Key}
    (hspec : spec ∈ sourceOptions) (htakes : spec.takesValue = true) {value : Arg}
    (hvalue : value ≠ ['-', '-']) (hscan : scan verb.options false args = ⟨found, .ok []⟩) :
    Adds verb found (.value spec (some value)) ((spec.label ++ '=' :: value) :: args) := by
  have hne : spec.label ++ '=' :: value ≠ ['-', '-'] := by
    simp only [sourceOptions, List.mem_cons, List.not_mem_nil, or_false] at hspec
    rcases hspec with rfl | rfl | rfl <;> nofun
  refine ⟨[], found, rfl, ?_⟩
  rw [scan] at hscan ⊢
  rw [classifyAll, if_neg hne, classify_attached hverb hspec]
  split at hscan
  · next kinds hkinds =>
    simp only [hkinds, Bool.false_eq_true, if_false] at hscan ⊢
    rw [scanKinds, htakes]
    simp only [if_true, Operands.close, Operands.afterOption, hscan, attachedValue, if_neg hvalue]
    rfl
  · cases hscan

/-- An option names the source. -/
theorem plan_of_option (hverb : verb.takesSource = true) {o : Occurrence Key}
    (hargs : Adds verb found o args) (hfree : ∀ o ∈ found, o.choosesSource = false)
    (file : Setting Arg) (sample : Setting Sample)
    (ho : ∀ s : Selection,
      Selection.collect r.directory.find? verb (s.withSource [] .absent .absent) [o] =
        .ok (s.withSource [] file sample))
    (htext : ∀ s : Selection, r.sourceText (s.withSource [] file sample) = .ok text) :
    plan bounds { r with args := verb.word :: args } =
      match Selection.collect r.directory.find? verb {} found with
      | .error stop => .report (stopReport stop)
      | .ok s => r.planText bounds verb s text := by
  obtain ⟨before, after, rfl, hscan⟩ := hargs
  refine plan_of_source hverb (scan_alone hscan) ?_ htext
  rw [Selection.collect_append, Selection.collect_insert
    (fun o' ho' => hfree o' (List.mem_append_left after ho'))
    (fun o' ho' => hfree o' (List.mem_append_right before ho')) ho]
  -- There are no operands, which is what has been selected anyway.
  cases Selection.collect r.directory.find? verb {} (before ++ after) <;> rfl

/-- A file is the source. -/
theorem plan_of_file (hverb : verb.takesSource = true) {spec : OptionSpec Key} {path : Arg}
    (hargs : Adds verb found (.value spec (some path)) args) (hkey : spec.key = .file)
    (hfree : ∀ o ∈ found, o.choosesSource = false)
    (hpath : r.directory.find? path = .found (.file (encode text))) :
    plan bounds { r with args := verb.word :: args } =
      match Selection.collect r.directory.find? verb {} found with
      | .error stop => .report (stopReport stop)
      | .ok s => r.planText bounds verb s (unifyBreaks text) := by
  refine plan_of_option hverb hargs hfree (.value path) .absent (fun s => ?_) fun s => ?_
  · simp only [Selection.collect, Selection.take, hkey, hpath]
    rfl
  · have hfile : r.sourceText (s.withSource [] (.value path) .absent) = r.fileText path := rfl
    rw [hfile, fileText, hpath]
    simp only [decode_encode]

/-- A bundled program is the source. -/
theorem plan_of_sample (hverb : verb.takesSource = true) {spec : OptionSpec Key} {name : Arg}
    (hargs : Adds verb found (.value spec (some name)) args) (hkey : spec.key = .sample)
    (hfree : ∀ o ∈ found, o.choosesSource = false) {sample : Sample}
    (hname : Sample.named (String.ofList name) = .ok sample) :
    plan bounds { r with args := verb.word :: args } =
      match Selection.collect r.directory.find? verb {} found with
      | .error stop => .report (stopReport stop)
      | .ok s => r.planText bounds verb s sample.text := by
  refine plan_of_option hverb hargs hfree .absent (.value sample) (fun s => ?_) fun s => rfl
  simp only [Selection.collect, Selection.take, hkey, hname]
  rfl

/-- A command does the same with a text in pieces, in a file and as a bundled program: it writes the
same to standard output and ends alike. How the text is cut into pieces does not matter at all. If
no details are wanted, it writes the same to standard error, but if the text holds a carriage return
the place of a bracket that is not balanced may be another one when it was read from a file. -/
theorem sources_agree (bounds : Limits) (hreading : 0 < bounds.reading) (fuel : Nat)
    (r : Request) (stdin : List Char) (hverb : verb.takesSource = true) {flags : List Arg}
    (hflags : scan verb.options false flags = ⟨found, .ok []⟩)
    (hfree : ∀ o ∈ found, o.choosesSource = false) {pieces : List Arg} (hpieces : pieces ≠ []) :
    let report (args : List Arg) := execute bounds fuel { r with args := verb.word :: args } stdin
    let given := report (flags ++ ['-', '-'] :: pieces)
    (∀ args spec path, Adds verb found (.value spec (some path)) args → spec.key = .file →
      r.directory.find? path = .found (.file (encode pieces.flatten)) →
      let filed := report args
      filed.stdout = given.stdout ∧ filed.ending = given.ending ∧
      ('\r' ∉ pieces.flatten → filed = given) ∧
      (.flag .debug ∉ found →
        filed.stderr = given.stderr ∨ AlikeButPlace filed.stderr given.stderr)) ∧
    (∀ args spec name sample, Adds verb found (.value spec (some name)) args →
      spec.key = .sample → Sample.named (String.ofList name) = .ok sample →
      sample.text = pieces.flatten → report args = given) ∧
    ∀ pieces' : List Arg, pieces' ≠ [] → pieces'.flatten = pieces.flatten →
      report (flags ++ ['-', '-'] :: pieces') = given := by
  intro report given
  have hgiven : given = _ := execute_eq bounds fuel _ stdin
  rw [plan_of_operands hverb hflags hfree hpieces] at hgiven
  refine ⟨?_, ?_, ?_⟩
  · intro args spec path hargs hkey hpath filed
    have hfiled : filed = _ := execute_eq bounds fuel _ stdin
    rw [plan_of_file hverb hargs hkey hfree hpath] at hfiled
    have hsame : '\r' ∉ pieces.flatten → filed = given := by
      intro hbreak
      rw [hfiled, hgiven, unifyBreaks_eq_self hbreak]
    cases hcollect : Selection.collect r.directory.find? verb {} found with
    | error stop =>
      simp only [hcollect] at hfiled hgiven
      rw [hfiled, hgiven]
      exact ⟨rfl, rfl, fun _ => rfl, fun _ => .inl rfl⟩
    | ok s =>
      simp only [hcollect] at hfiled hgiven
      -- Reading the file has changed comments only.
      have halike : filed.Alike s.debug given := by
        rw [hfiled, hgiven]
        exact planText_alike hreading fuel stdin (code_unifyBreaks pieces.flatten)
      refine ⟨halike.stdout, halike.ending, hsame, fun hquiet => halike.stderr ?_⟩
      exact Selection.debug_of_collect hcollect hquiet
  · intro args spec name sample hargs hkey hname htext
    have hsampled : report args = _ := execute_eq bounds fuel _ stdin
    rw [plan_of_sample hverb hargs hkey hfree hname, htext] at hsampled
    rw [hsampled, hgiven]
  · intro pieces' hpieces' hflatten
    have hother : report (flags ++ ['-', '-'] :: pieces') = _ := execute_eq bounds fuel _ stdin
    rw [plan_of_operands hverb hflags hfree hpieces', hflatten] at hother
    rw [hother, hgiven]

/-- A bundled program under a number of cells, in three pieces, one of them empty, in one piece, in
a file and by its name. -/
theorem sources_agree_echo :
    let text := Sample.echo.text
    let pieces : List Arg := [text.take 1, [], text.drop 1]
    let flags : List Arg := ["--tape-size".toList, "7".toList]
    let r : Request := { args := [], directory := ⟨[(['p'], .file (encode text))]⟩ }
    let report (args : List Arg) :=
      execute .sample 9 { r with args := "run".toList :: args } ['a', '\n']
    pieces.flatten = text ∧ '\r' ∉ text ∧
      report ("--file=p".toList :: flags) = report (flags ++ ['-', '-'] :: pieces) ∧
      report ("--sample=echo".toList :: flags) = report (flags ++ ['-', '-'] :: pieces) ∧
      report (flags ++ ['-', '-'] :: [text]) = report (flags ++ ['-', '-'] :: pieces) := by
  intro text pieces flags r report
  let found : List (Occurrence Key) :=
    [.value ⟨.tapeSize, ["--tape-size".toList], true⟩ (some "7".toList)]
  have hverb : Verb.run.takesSource = true := rfl
  have hflags : scan Verb.run.options false flags = ⟨found, .ok []⟩ := rfl
  have hfree : ∀ o ∈ found, o.choosesSource = false := by decide
  have hpieces : pieces ≠ [] := by decide
  have htext : pieces.flatten = text := by decide
  have hbreak : '\r' ∉ text := by decide
  have hpath : r.directory.find? ['p'] = .found (.file (encode pieces.flatten)) := by
    rw [htext]
    rfl
  have hfile : Adds .run found (.value sourceOptions[0] (some ['p']))
      ("--file=p".toList :: flags) :=
    adds_attached hverb (by simp) rfl (by decide) hflags
  have hsample : Adds .run found (.value sourceOptions[1] (some "echo".toList))
      ("--sample=echo".toList :: flags) :=
    adds_attached hverb (by simp) rfl (by decide) hflags
  obtain ⟨hfiled, hsampled, hcut⟩ :=
    sources_agree .sample (by decide) 9 r ['a', '\n'] hverb hflags hfree hpieces
  refine ⟨htext, hbreak, ?_, ?_, ?_⟩
  · exact (hfiled _ _ _ hfile rfl hpath).2.2.1 (htext ▸ hbreak)
  · exact hsampled _ _ _ .echo hsample rfl rfl htext.symm
  · exact hcut [text] (by simp) (List.flatten_singleton.trans htext.symm)

end

end Request

end CommandLine

end TapeLang
