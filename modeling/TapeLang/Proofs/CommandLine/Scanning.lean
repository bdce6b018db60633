import TapeLang.Proofs.CommandLine.Arguments

/-!
# Options before and without operands

Arguments that are options and their values, and nothing else, are found alike whether operands are
taken or not, and whatever comes behind them.

* `scan_separated`: the options come first, and the operands stand behind the separator.
* `scan_alone`: the options come without operands.
-/

namespace TapeLang.CommandLine

variable {κ : Type} {specs : List (OptionSpec κ)} {args : List Arg}
  {kinds : List (Arg × ArgKind κ)} {found : List (Occurrence κ)}

/-! ## What arguments are -/

theorem classifyAll_cons_eq_ok {arg : Arg} (hne : arg ≠ ['-', '-'])
    (h : classifyAll specs (arg :: args) = .ok kinds) :
    ∃ kind rest, classify specs arg = .ok kind ∧ classifyAll specs args = .ok rest ∧
      kinds = (arg, kind) :: rest := by
  rw [classifyAll, if_neg hne] at h
  split at h
  · next kind rest hkind hrest =>
    cases h
    exact ⟨kind, rest, hkind, hrest, rfl⟩
  · cases h
  · cases h

/-- Arguments without a separator are what they are, whatever comes behind them. -/
theorem classifyAll_append (h : classifyAll specs args = .ok kinds) (hfree : ['-', '-'] ∉ args)
    {args' : List Arg} {kinds' : List (Arg × ArgKind κ)}
    (h' : classifyAll specs args' = .ok kinds') :
    classifyAll specs (args ++ args') = .ok (kinds ++ kinds') := by
  induction args generalizing kinds with
  | nil =>
    cases h
    exact h'
  | cons arg args ih =>
    have hne : arg ≠ ['-', '-'] := fun heq => hfree (heq ▸ List.mem_cons_self)
    obtain ⟨kind, rest, hkind, hrest, rfl⟩ := classifyAll_cons_eq_ok hne h
    have htail := ih hrest fun hmem => hfree (List.mem_cons_of_mem _ hmem)
    rw [List.cons_append, classifyAll, if_neg hne, hkind, htail]
    rfl

/-- A separator among the arguments is found as such. -/
theorem separator_mem (h : classifyAll specs args = .ok kinds) (hmem : ['-', '-'] ∈ args) :
    (['-', '-'], .separator) ∈ kinds := by
  induction args generalizing kinds with
  | nil => cases hmem
  | cons arg args ih =>
    by_cases harg : arg = ['-', '-']
    · rw [classifyAll, if_pos harg, harg] at h
      cases h
      exact List.mem_cons_self
    · obtain ⟨kind, rest, -, hrest, rfl⟩ := classifyAll_cons_eq_ok harg h
      have hlater : ['-', '-'] ∈ args := by
        rcases List.mem_cons.1 hmem with heq | hlater
        · exact absurd heq.symm harg
        · exact hlater
      exact List.mem_cons_of_mem _ (ih hrest hlater)

/-! ## Complete options -/

/-- Arguments of these kinds are options with the values they take, among which these occurrences
are found. -/
inductive Complete (specs : List (OptionSpec κ)) :
    List (Arg × ArgKind κ) → List (Occurrence κ) → Prop
  /-- There are no arguments. -/
  | nil : Complete specs [] []
  /-- One or more flags. -/
  | flags {word spelling : Arg} {spec : OptionSpec κ} {attached : Option Arg}
      {flags found : List (Occurrence κ)} {rest : List (Arg × ArgKind κ)}
      (htakes : spec.takesValue = false)
      (hflags : scanFlag specs spec spelling attached = ⟨flags, .ok []⟩)
      (hrest : Complete specs rest found) :
      Complete specs ((word, .option spec spelling attached) :: rest) (flags ++ found)
  /-- An option with its value attached. -/
  | attached {word spelling value : Arg} {spec : OptionSpec κ} {found : List (Occurrence κ)}
      {rest : List (Arg × ArgKind κ)} (htakes : spec.takesValue = true)
      (hrest : Complete specs rest found) :
      Complete specs ((word, .option spec spelling (some value)) :: rest)
        (.value spec (attachedValue value) :: found)
  /-- An option with its value as the next argument. -/
  | next {word spelling value : Arg} {spec : OptionSpec κ} {found : List (Occurrence κ)}
      {rest : List (Arg × ArgKind κ)} (htakes : spec.takesValue = true)
      (hrest : Complete specs rest found) :
      Complete specs ((word, .option spec spelling none) :: (value, .operand) :: rest)
        (.value spec (some value) :: found)

namespace Scan

theorem exists_of_found_eq {s : Scan κ} {o : Occurrence κ} {ending : Except UsageError (List Arg)}
    (h : s.found o = ⟨found, ending⟩) : ∃ rest, s = ⟨rest, ending⟩ ∧ found = o :: rest := by
  cases h
  exact ⟨_, rfl, rfl⟩

/-- If two scans leave nothing over, neither of them does. -/
theorem exists_of_append_eq {first second : Scan κ}
    (h : first.append second = ⟨found, .ok []⟩) :
    ∃ before after, first = ⟨before, .ok []⟩ ∧ second = ⟨after, .ok []⟩ ∧
      found = before ++ after := by
  obtain ⟨before, ending⟩ := first
  obtain ⟨after, ending'⟩ := second
  cases ending with
  | error e => cases h
  | ok args =>
    cases ending' with
    | error e => cases h
    | ok more =>
      obtain ⟨rfl, hending⟩ := Scan.mk.inj h
      obtain ⟨rfl, rfl⟩ := List.append_eq_nil_iff.1 (Except.ok.inj hending)
      exact ⟨before, after, rfl, rfl, rfl⟩

theorem append_of_ok (before : List (Occurrence κ)) (s : Scan κ) :
    Scan.append ⟨before, .ok []⟩ s = ⟨before ++ s.occurrences, s.ending⟩ := by
  obtain ⟨after, ending⟩ := s
  cases ending <;> rfl

/-- What has been left over stays left over. -/
theorem ending_leftOver_ne (arg : Arg) (s : Scan κ) : (s.leftOver [arg]).ending ≠ .ok [] := by
  intro h
  cases hending : s.ending <;> simp [leftOver, hending, Except.map] at h

end Scan

/-- If no operands are taken and nothing is left over, the arguments are complete options. -/
theorem complete_of_scanKinds (h : scanKinds specs .closed kinds = ⟨found, .ok []⟩) :
    Complete specs kinds found := by
  generalize hclosed : Operands.closed = operands at h
  fun_induction scanKinds specs operands kinds generalizing found with
  | case1 | case3 | case4 | case6 | case7 => cases hclosed
  | case2 operands =>
    subst hclosed
    cases h
    exact .nil
  -- Operands and unknown options are left over.
  | case5 | case8 => exact absurd (congrArg Scan.ending h) (Scan.ending_leftOver_ne _ _)
  | case9 operands =>
    subst hclosed
    exact absurd (congrArg Scan.ending h) (Scan.ending_leftOver_ne _ _)
  | case10 operands word spec spelling attached rest ihvalue ihflag =>
    subst hclosed
    simp only [Operands.close, Operands.afterOption, forall_const] at h ihvalue ihflag
    split at h
    · next htakes =>
      split at h
      · obtain ⟨found, hrest, rfl⟩ := Scan.exists_of_found_eq h
        exact .attached htakes (ihvalue hrest)
      · obtain ⟨found, hrest, rfl⟩ := Scan.exists_of_found_eq h
        exact .next htakes (ihvalue hrest)
      · cases h
    · next htakes =>
      obtain ⟨flags, found, hflags, hrest, rfl⟩ := Scan.exists_of_append_eq h
      exact .flags (Bool.eq_false_iff.2 htakes) hflags (ihflag hrest)

namespace Complete

/-- Complete options are found before whatever comes behind them. -/
theorem scanKinds_append (h : Complete specs kinds found) (rest : List (Arg × ArgKind κ)) :
    scanKinds specs .awaited (kinds ++ rest) =
      ⟨found ++ (scanKinds specs .awaited rest).occurrences,
        (scanKinds specs .awaited rest).ending⟩ := by
  induction h with
  | nil => rfl
  | @flags word spelling spec attached flags found later htakes hflags hlater ih =>
    have hword : scanKinds specs .awaited
        ((word, .option spec spelling attached) :: (later ++ rest)) =
        (scanFlag specs spec spelling attached).append
          (scanKinds specs .awaited (later ++ rest)) := by
      rw [scanKinds.eq_def]
      simp only [htakes, Operands.close, Operands.afterOption, Bool.false_eq_true, if_false]
    rw [List.cons_append, hword, hflags, ih, Scan.append_of_ok, List.append_assoc]
  | attached htakes hlater ih =>
    rw [List.cons_append, scanKinds, htakes]
    simp only [Operands.close, Operands.afterOption, ih]
    rfl
  | next htakes hlater ih =>
    rw [List.cons_append, List.cons_append, scanKinds, htakes]
    simp only [Operands.close, Operands.afterOption, ih]
    rfl

theorem separator_not_mem (h : Complete specs kinds found) (arg : Arg) :
    (arg, .separator) ∉ kinds := by
  induction h <;> simp_all

end Complete

/-! ## Options and operands -/

/-- Arguments that are complete options. -/
theorem exists_of_scan_eq (h : scan specs false args = ⟨found, .ok []⟩) :
    ∃ kinds, classifyAll specs args = .ok kinds ∧ Complete specs kinds found := by
  rw [scan] at h
  split at h
  · next kinds hkinds => exact ⟨kinds, hkinds, complete_of_scanKinds h⟩
  · cases h

/-- Options that are complete without operands are found before the operands behind the
separator. -/
theorem scan_separated (h : scan specs false args = ⟨found, .ok []⟩) (pieces : List Arg) :
    scan specs true (args ++ ['-', '-'] :: pieces) = ⟨found ++ [.operands pieces], .ok []⟩ := by
  obtain ⟨kinds, hkinds, hcomplete⟩ := exists_of_scan_eq h
  have hfree : ['-', '-'] ∉ args := fun hmem =>
    hcomplete.separator_not_mem _ (separator_mem hkinds hmem)
  have hpieces : classifyAll specs (['-', '-'] :: pieces) =
      .ok ((['-', '-'], .separator) :: pieces.map fun a => (a, .operand)) := by
    rw [classifyAll, if_pos rfl]
  have hscan : scanKinds specs .awaited
      ((['-', '-'], .separator) :: pieces.map fun a => (a, .operand)) =
      ⟨[.operands pieces], .ok []⟩ := by
    rw [scanKinds, scanKinds_operands]
    -- The separator is the first one in the group, and goes.
    rw [List.reverse_singleton, List.singleton_append, group, List.erase_cons_head]
  rw [scan, classifyAll_append hkinds hfree hpieces]
  simp only [if_true, hcomplete.scanKinds_append, hscan]

/-- Options that are complete are found alike where operands may come and none do. -/
theorem scan_alone (h : scan specs false args = ⟨found, .ok []⟩) :
    scan specs true args = ⟨found ++ [.operands []], .ok []⟩ := by
  obtain ⟨kinds, hkinds, hcomplete⟩ := exists_of_scan_eq h
  have happend := hcomplete.scanKinds_append []
  rw [List.append_nil] at happend
  rw [scan, hkinds]
  exact happend

end TapeLang.CommandLine
