import TapeLang.Proofs.CommandLine.Sources

/-!
# Deep nesting and the instruction tree

A program that is nested too deeply is refused with an error of the language when it is read, but
not when its tree is printed. Reading has a greater bound than printing, so a command that is to
print the tree of a text can end with a fault: it does so exactly for the texts in the gap between
the two bounds (`Request.parse_outcomes`), and there is a gap exactly if the bounds are two or more
apart (`Program.printable_iff`).
-/

namespace TapeLang

open Text

/-! ## Programs of some depth -/

namespace Program

/-- Loops around each other, this many. -/
def nested : Nat → Program
  | 0 => nil
  | n + 1 => loop (nested n) none nil

theorem depth_nested (n : Nat) : (nested n).depth = n := by
  induction n with
  | zero => rfl
  | succ n ih => rw [nested, depth, ih, depth, Nat.max_zero]

theorem native_nested (n : Nat) : (nested n).native = true := by
  induction n with
  | zero => rfl
  | succ n ih => rw [nested, native, ih, native, Bool.and_self]

theorem source_nested (n : Nat) :
    (nested n).source = List.replicate n '[' ++ List.replicate n ']' := by
  induction n with
  | zero => rfl
  | succ n ih =>
    rw [nested, source, ih, source, List.replicate_succ, List.replicate_succ', List.cons_append,
      List.cons_append, List.append_assoc]

/-- There is a text for every depth below the bound. -/
theorem exists_ofTextWithin_nested {bound n : Nat} (h : n < bound) :
    ∃ p, ofTextWithin bound (nested n).source = .ok p ∧ p.depth = n := by
  obtain ⟨p, hp, hbare⟩ := ofTextWithin_source (native_nested n) (by rwa [depth_nested])
  exact ⟨p, hp, by rw [← depth_bare, hbare, depth_bare, depth_nested]⟩

/-- Whatever is read can be printed just if printing reaches the greatest depth that reading lets
through. -/
theorem printable_iff {reading printing : Nat} (hreading : 0 < reading) :
    (∀ text p, ofTextWithin reading text = .ok p → p.depth ≤ printing) ↔
      reading ≤ printing + 1 := by
  constructor
  · intro h
    obtain ⟨p, hp, hdepth⟩ := exists_ofTextWithin_nested (Nat.sub_lt hreading Nat.one_pos)
    have hle := h _ p hp
    omega
  · intro h text p hp
    have hlt := depth_lt_of_ofTextWithin hreading hp
    omega

/-- The tree of a program that has been read is printed unless the program is nested too deeply. -/
theorem sexprWithin_of_ofTextWithin {reading printing : Nat} {text : List Char} {p : Program}
    (h : ofTextWithin reading text = .ok p) :
    p.sexprWithin printing = if p.depth ≤ printing then .ok p.sexpr else .error .tooDeep := by
  have hnative := native_of_ofTextWithin h
  rw [sexprWithin_eq]
  split
  · next o hobstacle =>
    have hdeep : ¬ p.depth ≤ printing := fun hdepth => by
      rw [obstacle?_eq_none_iff.2 ⟨hnative, hdepth⟩] at hobstacle
      cases hobstacle
    rw [if_neg hdeep, eq_tooDeep_of_obstacle? hnative hobstacle, Obstacle.sexprError]
  · next hobstacle => rw [if_pos (obstacle?_eq_none_iff.1 hobstacle).2]

/-- A text can be read and not be printed if it is balanced and its nesting lies between the two
bounds. -/
theorem exists_deeper_iff {reading printing : Nat} (hreading : 0 < reading) {text : List Char} :
    (∃ p, ofTextWithin reading text = .ok p ∧ printing < p.depth) ↔
      Balanced text ∧ NestedBelow reading text ∧ ¬ NestedBelow (printing + 1) text := by
  -- The depth of a program is the nesting of its text.
  have hdepth : ∀ p, ofTextWithin reading text = .ok p →
      (printing < p.depth ↔ ¬ NestedBelow (printing + 1) text) := by
    intro p hp
    rw [← nestedBelow_code, ← source_of_ofTextWithin hp, ← depth_lt_iff (Nat.succ_pos printing),
      Nat.lt_succ_iff, Nat.not_le]
  constructor
  · rintro ⟨p, hp, hdeep⟩
    obtain ⟨hbalanced, hnested⟩ := balanced_of_ofTextWithin hreading hp
    exact ⟨hbalanced, hnested, (hdepth p hp).1 hdeep⟩
  · rintro ⟨hbalanced, hnested, hdeep⟩
    obtain ⟨p, hp⟩ := exists_ofTextWithin hbalanced hnested
    exact ⟨p, hp, (hdepth p hp).2 hdeep⟩

end Program

namespace CommandLine

namespace Request

variable {bounds : Limits}

/-- What a command does that is to print the tree of a text. -/
theorem execute_parse (bounds : Limits) (fuel : Nat) (r : Request) (src stdin : List Char) :
    execute bounds fuel { r with args := [Verb.parse.word, ['-', '-'], src] } stdin =
      match Program.ofTextWithin bounds.reading src with
      | .error e => failing [errorLine e.failure.message]
      | .ok p =>
        if p.depth ≤ bounds.printing then { stdout := p.sexpr ++ ['\n'], ending := .status 0 }
        else faulty [] .overflow := by
  have hscan : scan Verb.parse.options false [] = ⟨[], .ok []⟩ := rfl
  have hplan : plan bounds { r with args := [Verb.parse.word, ['-', '-'], src] } =
      .report (planParse bounds false [src].flatten) :=
    plan_of_operands (r := r) rfl hscan nofun (List.cons_ne_nil src [])
  rw [List.flatten_singleton] at hplan
  rw [execute_eq, hplan, Plan.execute, planParse]
  cases hread : Program.ofTextWithin bounds.reading src with
  | error e => rfl
  | ok p =>
    by_cases hdepth : p.depth ≤ bounds.printing
    · simp only [Program.sexprWithin_of_ofTextWithin hread, if_pos hdepth]
      rfl
    · simp only [Program.sexprWithin_of_ofTextWithin hread, if_neg hdepth]
      rfl

/-- A command that is to print the tree of a text prints it, or reports that the brackets do not
balance or that loops are nested too deeply to be read, unless the text can be read and is nested
more deeply than can be printed: then it ends with a fault, and reports nothing. -/
theorem parse_outcomes (hreading : 0 < bounds.reading) (fuel : Nat) (r : Request)
    (src stdin : List Char) :
    let report := execute bounds fuel { r with args := [Verb.parse.word, ['-', '-'], src] } stdin
    ((report.ending = .status 0 ∧ report.stderr = [] ∧
        ∃ p, Program.ofTextWithin bounds.reading src = .ok p ∧
          report.stdout = p.sexpr ++ ['\n']) ∨
      (report.ending = .status 1 ∧ report.stdout = [] ∧
        ∃ e, Program.ofTextWithin bounds.reading src = .error e ∧
          report.stderr = [errorLine e.failure.message] ∧
          (e.failure.kind = .unbalancedLoop ∨ e.failure.kind = .nestingTooDeep)) ∨
      report = faulty [] .overflow) ∧
    (report.ending = .fault .overflow ↔
      Balanced src ∧ NestedBelow bounds.reading src ∧ ¬ NestedBelow (bounds.printing + 1) src) := by
  intro report
  have hreport : report = _ := execute_parse bounds fuel r src stdin
  -- Said of the program that is read instead of the text.
  rw [← Program.exists_deeper_iff hreading]
  cases hread : Program.ofTextWithin bounds.reading src with
  | error e =>
    simp only [hread] at hreport
    rw [hreport]
    refine ⟨.inr (.inl ⟨rfl, rfl, e, rfl, rfl, ?_⟩), nofun, nofun⟩
    cases e with
    | stray place | unclosed place => exact .inl rfl
    | tooDeep => exact .inr rfl
  | ok p =>
    simp only [hread] at hreport
    rw [hreport]
    by_cases hdepth : p.depth ≤ bounds.printing
    · rw [if_pos hdepth]
      refine ⟨.inl ⟨rfl, rfl, p, rfl, rfl⟩, nofun, ?_⟩
      rintro ⟨q, ⟨⟩, hdeep⟩
      exact absurd hdepth (Nat.not_le.2 hdeep)
    · rw [if_neg hdepth]
      exact ⟨.inr (.inr rfl), fun _ => ⟨p, rfl, Nat.lt_of_not_le hdepth⟩, fun _ => rfl⟩

/-- Two loops around each other, where both can be read and only one can be printed. -/
theorem parse_outcomes_two_loops :
    let bounds : Limits := { Limits.sample with reading := 3, printing := 1 }
    0 < bounds.reading ∧
      execute bounds 0 { args := ["parse".toList, "--".toList, "[[]]".toList] } [] =
        faulty [] .overflow := by
  intro bounds
  have hreading : 0 < bounds.reading := by decide
  obtain ⟨hcases, hfault⟩ := parse_outcomes hreading 0 { args := [] } "[[]]".toList []
  have hending := hfault.2 ⟨by decide, by decide, by decide⟩
  refine ⟨hreading, ?_⟩
  rcases hcases with ⟨hstatus, -⟩ | ⟨hstatus, -⟩ | hreport
  · cases hstatus.symm.trans hending
  · cases hstatus.symm.trans hending
  · exact hreport

/-- There is a text of every depth between the bounds whose tree cannot be printed. -/
theorem execute_parse_nested {n : Nat} (hprinting : bounds.printing < n)
    (hreading : n < bounds.reading) (fuel : Nat) (r : Request) (stdin : List Char) :
    execute bounds fuel
      { r with args := [Verb.parse.word, ['-', '-'],
        List.replicate n '[' ++ List.replicate n ']'] } stdin = faulty [] .overflow := by
  obtain ⟨p, hp, hdepth⟩ := Program.exists_ofTextWithin_nested hreading
  rw [Program.source_nested] at hp
  rw [execute_parse, hp]
  exact if_neg (by omega)

/-- Under the sample limits a text of seven hundred loops around each other can be read, and the
command that is to print its tree does not end with a status. -/
theorem parse_without_status :
    ¬ ∃ code, (execute .sample 0
      { args := ["parse".toList, "--".toList,
        List.replicate 700 '[' ++ List.replicate 700 ']'] } []).ending = .status code := by
  have hprinting : Limits.sample.printing < 700 := by decide
  have hreading : 700 < Limits.sample.reading := by decide
  have hreport := execute_parse_nested hprinting hreading 0 { args := [] } []
  rintro ⟨code, hstatus⟩
  cases hstatus.symm.trans (congrArg Report.ending hreport)

end Request

end CommandLine

end TapeLang
