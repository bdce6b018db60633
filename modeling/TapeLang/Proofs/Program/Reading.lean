import TapeLang.Program.Reader
import TapeLang.Proofs.Text.Matching

/-!
# What reading accepts, and which bracket it blames

A reader that has come through some part of a text knows the place behind it and the places of the
brackets that are open there (`Reader.Follows`). It comes through exactly the texts without a stray
bracket that stay below the nesting bound (`Reader.exists_feedAll`), and the first character that
spoils this decides the error.

`Program.ofTextWithin_outcome_iff` puts this together: each of the four outcomes of reading is
characterised by the balance of the beginnings of the text.
-/

namespace TapeLang

open Text

/-! ## Places -/

/-- The place behind a text: its lines are counted by line feeds, and its columns by the characters
behind the last of them. -/
def Span.after (text : List Char) : Span :=
  ⟨text.count '\n' + 1, (text.reverse.takeWhile (· ≠ '\n')).length + 1⟩

theorem Span.after_concat (text : List Char) (c : Char) :
    Span.after (text ++ [c]) = (Span.after text).next c := by
  by_cases h : c = '\n'
  · simp [Span.after, Span.next, h]
  · simp [Span.after, Span.next, h]

namespace Reader

/-! ## Single characters -/

variable {bound : Nat} {r : Reader} {c : Char}

theorem feed_command {cmd : Command} (h : Command.ofChar? c = some cmd) :
    r.feed bound c = .ok ⟨r.place.next c, .command cmd (some r.place) r.block, r.opened⟩ := by
  simp [feed, h]

theorem feed_comment (h : isCode c = false) :
    r.feed bound c = .ok ⟨r.place.next c, r.block, r.opened⟩ := by
  have hcode : ¬ ((Command.ofChar? c).isSome = true ∨ c = '[' ∨ c = ']') := by
    rw [← isCode_iff, h]
    decide
  simp only [not_or, Bool.not_eq_true, Option.isSome_eq_false_iff, Option.isNone_iff_eq_none]
    at hcode
  obtain ⟨hcommand, hopening, hclosing⟩ := hcode
  simp [feed, hcommand, hopening, hclosing]

theorem feed_opening (h : r.opened.length + 1 < bound) :
    r.feed bound '[' = .ok ⟨r.place.next '[', .nil, ⟨r.place, r.block⟩ :: r.opened⟩ := by
  simp [feed, Command.ofChar?, Nat.not_le.2 h]

theorem feed_opening_of_le (h : bound ≤ r.opened.length + 1) :
    r.feed bound '[' = .error .tooDeep := by
  simp [feed, Command.ofChar?, h]

theorem feed_closing {l : OpenLoop} {outer : List OpenLoop} (h : r.opened = l :: outer) :
    r.feed bound ']' =
      .ok ⟨r.place.next ']', .loop r.block.reverse (some l.place) l.before, outer⟩ := by
  simp [feed, Command.ofChar?, h]

theorem feed_closing_of_nil (h : r.opened = []) :
    r.feed bound ']' = .error (.stray r.place) := by
  simp [feed, Command.ofChar?, h]

/-- All that reading a character can do. -/
theorem feed_cases {r' : Reader} (h : r.feed bound c = .ok r') :
    (∃ cmd, Command.ofChar? c = some cmd ∧
      r' = ⟨r.place.next c, .command cmd (some r.place) r.block, r.opened⟩) ∨
    (c = '[' ∧ r.opened.length + 1 < bound ∧
      r' = ⟨r.place.next '[', .nil, ⟨r.place, r.block⟩ :: r.opened⟩) ∨
    (c = ']' ∧ ∃ l outer, r.opened = l :: outer ∧
      r' = ⟨r.place.next ']', .loop r.block.reverse (some l.place) l.before, outer⟩) ∨
    (isCode c = false ∧ r' = ⟨r.place.next c, r.block, r.opened⟩) := by
  by_cases hcode : isCode c = true
  · rcases isCode_iff.1 hcode with hcommand | rfl | rfl
    · obtain ⟨cmd, hcmd⟩ := Option.isSome_iff_exists.1 hcommand
      rw [feed_command hcmd, Except.ok.injEq] at h
      exact Or.inl ⟨cmd, hcmd, h.symm⟩
    · by_cases hroom : r.opened.length + 1 < bound
      · rw [feed_opening hroom, Except.ok.injEq] at h
        exact Or.inr (Or.inl ⟨rfl, hroom, h.symm⟩)
      · simp [feed_opening_of_le (Nat.not_lt.1 hroom)] at h
    · cases hopened : r.opened with
      | nil => simp [feed_closing_of_nil hopened] at h
      | cons l outer =>
        rw [feed_closing hopened, Except.ok.injEq] at h
        exact Or.inr (Or.inr (Or.inl ⟨rfl, l, outer, rfl, h.symm⟩))
  · rw [feed_comment (by simpa using hcode), Except.ok.injEq] at h
    exact Or.inr (Or.inr (Or.inr ⟨by simpa using hcode, h.symm⟩))

/-- Reading two texts one after the other is reading them as one. -/
theorem feedAll_append {r' : Reader} {s : List Char} (h : r.feedAll bound s = .ok r')
    (t : List Char) : r.feedAll bound (s ++ t) = r'.feedAll bound t := by
  induction s generalizing r with
  | nil =>
    rw [feedAll, Except.ok.injEq] at h
    rw [List.nil_append, h]
  | cons c s ih =>
    rw [feedAll] at h
    rw [List.cons_append, feedAll]
    cases hc : r.feed bound c with
    | error e => simp [hc] at h
    | ok r₁ =>
      rw [hc] at h
      exact ih h

/-- The first character that cannot be read decides, whatever follows it. -/
theorem feedAll_append_of_error {r' : Reader} {e : ParseError} {s : List Char}
    (h : r.feedAll bound s = .ok r') (hc : r'.feed bound c = .error e) (t : List Char) :
    r.feedAll bound (s ++ c :: t) = .error e := by
  rw [feedAll_append h, feedAll, hc]

/-- What every character keeps holds of all that has been read. -/
theorem feedAll_induction {I : List Char → Reader → Prop}
    (hstep : ∀ {s : List Char} {r₁ r₂ : Reader} {c : Char}, I s r₁ → r₁.feed bound c = .ok r₂ →
      I (s ++ [c]) r₂)
    {r' : Reader} {s t : List Char} (hr : I s r) (h : r.feedAll bound t = .ok r') :
    I (s ++ t) r' := by
  induction t generalizing r s with
  | nil =>
    rw [feedAll, Except.ok.injEq] at h
    rwa [List.append_nil, ← h]
  | cons c t ih =>
    rw [feedAll] at h
    cases hc : r.feed bound c with
    | error e => simp [hc] at h
    | ok r₁ =>
      rw [hc] at h
      simpa using ih (hstep hr hc) h

/-! ## What a reader knows -/

/-- What a reader knows about the text that it has come through. -/
structure Follows (text : List Char) (r : Reader) : Prop where
  /-- It stands behind the text. -/
  place : r.place = Span.after text
  /-- Its open loops are the brackets that the text leaves open. -/
  openers : ∃ outer, LeavesOpen text outer ∧ r.opened.map OpenLoop.place = outer.map Span.after

theorem follows_start : Reader.start.Follows [] :=
  ⟨rfl, [], .balanced balanced_nil, rfl⟩

namespace Follows

variable {text : List Char}

theorem length_opened (h : r.Follows text) : (r.opened.length : Int) = balance text := by
  obtain ⟨outer, hopen, hplaces⟩ := h.openers
  have hlength : r.opened.length = outer.length := by
    simpa using congrArg List.length hplaces
  rw [hlength, hopen.length_eq]

theorem next_place (h : r.Follows text) (c : Char) :
    r.place.next c = Span.after (text ++ [c]) := by
  rw [h.place, Span.after_concat]

/-- Characters other than brackets only move the reader on. -/
theorem move (h : r.Follows text) (hopening : c ≠ '[') (hclosing : c ≠ ']') (block : Program) :
    (⟨r.place.next c, block, r.opened⟩ : Reader).Follows (text ++ [c]) := by
  obtain ⟨outer, hopen, hplaces⟩ := h.openers
  exact ⟨h.next_place c, outer, hopen.append (balanced_singleton hopening hclosing), hplaces⟩

/-- A character that spoils nothing can be read. -/
theorem exists_feed (h : r.Follows text) (hlow : 0 ≤ balance (text ++ [c]))
    (hhigh : balance (text ++ [c]) < bound) :
    ∃ r', r.feed bound c = .ok r' ∧ r'.Follows (text ++ [c]) := by
  obtain ⟨outer, hopen, hplaces⟩ := h.openers
  have hlength := h.length_opened
  rw [balance_append] at hlow hhigh
  by_cases hopening : c = '['
  -- The bound on the balance is the bound on the open loops.
  · subst hopening
    rw [balance_opening, balance_nil] at hhigh
    refine ⟨_, feed_opening (by omega), h.next_place '[', text :: outer,
      .bracket hopen balanced_nil, ?_⟩
    simp [h.place, hplaces]
  by_cases hclosing : c = ']'
  -- The balance stays above zero, so a bracket is open, and its body joins the block before it.
  · subst hclosing
    rw [balance_closing, balance_nil] at hlow
    cases hopen with
    | balanced hbalanced =>
      have hzero := hbalanced.settled
      omega
    | @bracket before inner outer hbefore hinner =>
      have hne : r.opened ≠ [] := by
        rintro heq
        simp [heq] at hplaces
      obtain ⟨l, loops, hopened⟩ := List.exists_cons_of_ne_nil hne
      rw [hopened, List.map_cons, List.map_cons, List.cons.injEq] at hplaces
      refine ⟨_, feed_closing hopened, h.next_place ']', outer, ?_, hplaces.2⟩
      rw [List.append_assoc, List.cons_append]
      exact hbefore.append hinner.bracketed
  -- What is left are commands and comments, which keep the same loops open.
  by_cases hcode : isCode c = true
  · rcases isCode_iff.1 hcode with hcommand | heq | heq
    · obtain ⟨cmd, hcmd⟩ := Option.isSome_iff_exists.1 hcommand
      exact ⟨_, feed_command hcmd, h.move hopening hclosing _⟩
    · exact absurd heq hopening
    · exact absurd heq hclosing
  · exact ⟨_, feed_comment (by simpa using hcode), h.move hopening hclosing _⟩

/-- A closing bracket is stray where nothing is open. -/
theorem feed_stray (h : r.Follows text) (hzero : balance text = 0) :
    r.feed bound ']' = .error (.stray (Span.after text)) := by
  have hlength := h.length_opened
  rw [feed_closing_of_nil (List.length_eq_zero_iff.1 (by omega)), h.place]

/-- An opening bracket is refused where it makes the nesting reach the bound. -/
theorem feed_deep (h : r.Follows text) (hdeep : balance text + 1 = bound) :
    r.feed bound '[' = .error .tooDeep := by
  have hlength := h.length_opened
  exact feed_opening_of_le (by omega)

end Follows

/-- A reader comes through every text that has no stray bracket and stays below the bound. -/
theorem exists_feedAll {text : List Char} (hstray : NoStray text)
    (hnested : NestedBelow bound text) :
    ∃ r, Reader.start.feedAll bound text = .ok r ∧ r.Follows text := by
  -- The invariant speaks of the text read so far, which grows at its end.
  induction text using List.reverseRecOn with
  | nil => exact ⟨_, rfl, follows_start⟩
  | append_singleton text c ih =>
    obtain ⟨hstray, hlow⟩ := noStray_concat.1 hstray
    obtain ⟨hnested, hhigh⟩ := nestedBelow_concat.1 hnested
    obtain ⟨r, hr, hfollows⟩ := ih hstray hnested
    obtain ⟨r', hr', hfollows'⟩ := hfollows.exists_feed hlow hhigh
    refine ⟨r', ?_, hfollows'⟩
    rw [feedAll_append hr, feedAll, hr']
    rfl

end Reader

/-! ## The four outcomes -/

namespace Program

variable {bound : Nat} {text before : List Char}

/-- A text that a reader comes through is judged at its end. -/
theorem ofTextWithin_of_feedAll {r : Reader} (h : Reader.start.feedAll bound text = .ok r) :
    ofTextWithin bound text = r.finish := by
  rw [ofTextWithin, h]

/-- What is read from a text is what its reader has collected when no loop is open. -/
theorem exists_feedAll_of_ok {p : Program} (h : ofTextWithin bound text = .ok p) :
    ∃ r, Reader.start.feedAll bound text = .ok r ∧ r.opened = [] ∧ p = r.block.reverse := by
  cases hread : Reader.start.feedAll bound text with
  | error e => simp [ofTextWithin, hread] at h
  | ok r =>
    rw [ofTextWithin_of_feedAll hread, Reader.finish] at h
    cases hopened : r.opened with
    | nil =>
      rw [hopened, Except.ok.injEq] at h
      exact ⟨r, rfl, hopened, h.symm⟩
    | cons l outer => simp [hopened] at h

theorem ofTextWithin_of_stray (hstray : NoStray before) (hnested : NestedBelow bound before)
    (hzero : balance before = 0) (after : List Char) :
    ofTextWithin bound (before ++ ']' :: after) = .error (.stray (Span.after before)) := by
  obtain ⟨r, hr, hfollows⟩ := Reader.exists_feedAll hstray hnested
  rw [ofTextWithin, Reader.feedAll_append_of_error hr (hfollows.feed_stray hzero)]

theorem ofTextWithin_of_deep (hstray : NoStray before) (hnested : NestedBelow bound before)
    (hdeep : balance before + 1 = bound) (after : List Char) :
    ofTextWithin bound (before ++ '[' :: after) = .error .tooDeep := by
  obtain ⟨r, hr, hfollows⟩ := Reader.exists_feedAll hstray hnested
  rw [ofTextWithin, Reader.feedAll_append_of_error hr (hfollows.feed_deep hdeep)]

theorem ofTextWithin_of_open (hstray : NoStray text) (hnested : NestedBelow bound text)
    (hopen : 0 < balance text) :
    ∃ i, LastUnclosed text i ∧
      ofTextWithin bound text = .error (.unclosed (Span.after (text.take i))) := by
  obtain ⟨r, hr, hfollows⟩ := Reader.exists_feedAll hstray hnested
  obtain ⟨outer, hleaves, hplaces⟩ := hfollows.openers
  -- The reader's innermost loop and the last bracket without a partner are the same bracket.
  cases outer with
  | nil =>
    have hlength := hleaves.length_eq
    rw [List.length_nil] at hlength
    omega
  | cons before outer =>
    refine ⟨before.length, hleaves.lastUnclosed, ?_⟩
    cases hopened : r.opened with
    | nil => simp [hopened] at hplaces
    | cons l loops =>
      rw [hopened, List.map_cons, List.map_cons, List.cons.injEq] at hplaces
      rw [ofTextWithin_of_feedAll hr, Reader.finish, hopened, hleaves.take_eq, ← hplaces.1]

theorem exists_ofTextWithin (htext : Balanced text) (hnested : NestedBelow bound text) :
    ∃ p, ofTextWithin bound text = .ok p := by
  obtain ⟨r, hr, hfollows⟩ := Reader.exists_feedAll htext.noStray hnested
  have hlength := hfollows.length_opened
  rw [htext.settled] at hlength
  have hnil : r.opened = [] := List.length_eq_zero_iff.1 (by omega)
  exact ⟨r.block.reverse, by rw [ofTextWithin_of_feedAll hr, Reader.finish, hnil]⟩

/-- Every text meets one of four fates. -/
theorem ofTextWithin_cases (hbound : 0 < bound) (text : List Char) :
    (∃ before after, text = before ++ ']' :: after ∧ NoStray before ∧ NestedBelow bound before ∧
      balance before = 0 ∧ ofTextWithin bound text = .error (.stray (Span.after before))) ∨
    (∃ before after, text = before ++ '[' :: after ∧ NoStray before ∧ NestedBelow bound before ∧
      balance before + 1 = bound ∧ ofTextWithin bound text = .error .tooDeep) ∨
    (NoStray text ∧ NestedBelow bound text ∧ 0 < balance text ∧ ∃ i, LastUnclosed text i ∧
      ofTextWithin bound text = .error (.unclosed (Span.after (text.take i)))) ∨
    (Balanced text ∧ NestedBelow bound text ∧ ∃ p, ofTextWithin bound text = .ok p) := by
  -- Either the reader comes through, and the last balance decides, or a first bracket stops it.
  rcases exists_first_offence hbound text with ⟨hstray, hnested⟩ | hoffence
  · rcases hstray.balance_nonneg.lt_or_eq with hopen | hzero
    · exact Or.inr (Or.inr (Or.inl
        ⟨hstray, hnested, hopen, ofTextWithin_of_open hstray hnested hopen⟩))
    · have htext : Balanced text := ⟨hstray, hzero.symm⟩
      exact Or.inr (Or.inr (Or.inr ⟨htext, hnested, exists_ofTextWithin htext hnested⟩))
  · obtain ⟨before, c, after, rfl, hstray, hnested, ⟨rfl, hzero⟩ | ⟨rfl, hdeep⟩⟩ := hoffence
    · exact Or.inl ⟨before, after, rfl, hstray, hnested, hzero,
        ofTextWithin_of_stray hstray hnested hzero after⟩
    · exact Or.inr (Or.inl ⟨before, after, rfl, hstray, hnested, hdeep,
        ofTextWithin_of_deep hstray hnested hdeep after⟩)

/-- What can be read is balanced and stays below the nesting bound. -/
theorem balanced_of_ofTextWithin (hbound : 0 < bound) {p : Program}
    (h : ofTextWithin bound text = .ok p) : Balanced text ∧ NestedBelow bound text := by
  rcases ofTextWithin_cases hbound text with ⟨_, _, _, _, _, _, hr⟩ | ⟨_, _, _, _, _, _, hr⟩ |
    ⟨_, _, _, _, _, hr⟩ | ⟨hbalanced, hnested, -⟩
  · cases h.symm.trans hr
  · cases h.symm.trans hr
  · cases h.symm.trans hr
  · exact ⟨hbalanced, hnested⟩

/-- Reading accepts exactly the balanced texts that stay below the nesting bound. Of the others it
blames the first closing bracket that closes nothing, or the first opening one that reaches the
bound, whichever comes first, and if there is neither, the last opening bracket without a partner.
A caller sees the place and the kind of the bracket. -/
theorem ofTextWithin_outcome_iff (hbound : 0 < bound) (text : List Char) :
    (∀ place, ofTextWithin bound text = .error (.stray place) ↔
      ∃ before after, text = before ++ ']' :: after ∧ NoStray before ∧ NestedBelow bound before ∧
        balance before = 0 ∧ place = Span.after before) ∧
    (ofTextWithin bound text = .error .tooDeep ↔
      ∃ before after, text = before ++ '[' :: after ∧ NoStray before ∧ NestedBelow bound before ∧
        balance before + 1 = bound) ∧
    (∀ place, ofTextWithin bound text = .error (.unclosed place) ↔
      NoStray text ∧ NestedBelow bound text ∧ 0 < balance text ∧
        ∃ i, LastUnclosed text i ∧ place = Span.after (text.take i)) ∧
    ((∃ p, ofTextWithin bound text = .ok p) ↔
      NoStray text ∧ NestedBelow bound text ∧ balance text = 0) ∧
    (∀ place, (ParseError.stray place).failure =
      .unbalancedLoop "unbalanced loop: ']' has no matching '['" (.int place.line)
        (.int place.col)) ∧
    (∀ place, (ParseError.unclosed place).failure =
      .unbalancedLoop "unbalanced loop: '[' is never closed" (.int place.line)
        (.int place.col)) ∧
    ParseError.tooDeep.failure = .nestingTooDeep (.text ['p', 'a', 'r', 's', 'e']) := by
  refine ⟨fun place => ⟨fun h => ?_, ?_⟩, ⟨fun h => ?_, ?_⟩, fun place => ⟨fun h => ?_, ?_⟩,
    ⟨fun h => ?_, ?_⟩, fun _ => rfl, fun _ => rfl, rfl⟩
  -- A result determines which of the four cases has occurred.
  · rcases ofTextWithin_cases hbound text with ⟨before, after, htext, hs, hn, hz, hr⟩ |
      ⟨_, _, _, _, _, _, hr⟩ | ⟨_, _, _, _, _, hr⟩ | ⟨_, _, _, hr⟩
    · rw [hr, Except.error.injEq, ParseError.stray.injEq] at h
      exact ⟨before, after, htext, hs, hn, hz, h.symm⟩
    all_goals simp [hr] at h
  · rintro ⟨before, after, rfl, hs, hn, hz, rfl⟩
    exact ofTextWithin_of_stray hs hn hz after
  · rcases ofTextWithin_cases hbound text with ⟨_, _, _, _, _, _, hr⟩ |
      ⟨before, after, htext, hs, hn, hd, -⟩ | ⟨_, _, _, _, _, hr⟩ | ⟨_, _, _, hr⟩
    · simp [hr] at h
    · exact ⟨before, after, htext, hs, hn, hd⟩
    all_goals simp [hr] at h
  · rintro ⟨before, after, rfl, hs, hn, hd⟩
    exact ofTextWithin_of_deep hs hn hd after
  · rcases ofTextWithin_cases hbound text with ⟨_, _, _, _, _, _, hr⟩ |
      ⟨_, _, _, _, _, _, hr⟩ | ⟨hs, hn, hopen, i, hi, hr⟩ | ⟨_, _, _, hr⟩
    · simp [hr] at h
    · simp [hr] at h
    · rw [hr, Except.error.injEq, ParseError.unclosed.injEq] at h
      exact ⟨hs, hn, hopen, i, hi, h.symm⟩
    · simp [hr] at h
  · rintro ⟨hs, hn, hopen, i, hi, rfl⟩
    obtain ⟨j, hj, hr⟩ := ofTextWithin_of_open hs hn hopen
    rw [hr, hi.unique hj]
  · obtain ⟨p, hp⟩ := h
    rcases ofTextWithin_cases hbound text with ⟨_, _, _, _, _, _, hr⟩ |
      ⟨_, _, _, _, _, _, hr⟩ | ⟨_, _, _, _, _, hr⟩ | ⟨htext, hn, -⟩
    · simp [hr] at hp
    · simp [hr] at hp
    · simp [hr] at hp
    · exact ⟨htext.noStray, hn, htext.settled⟩
  · rintro ⟨hs, hn, hz⟩
    exact exists_ofTextWithin ⟨hs, hz⟩ hn

/-- A stray bracket on the second line is blamed before the two that are never closed. -/
theorem ofTextWithin_outcome_iff_second_line :
    0 < 2 ∧ ofTextWithin 2 ['[', '.', ']', '\n', '+', ']', '[', '['] = .error (.stray ⟨2, 2⟩) :=
  ⟨by decide, ((ofTextWithin_outcome_iff (by decide) _).1 _).2
    ⟨['[', '.', ']', '\n', '+'], ['[', '['], rfl, by decide, by decide, by decide, by decide⟩⟩

end Program

end TapeLang
