import Mathlib.Data.List.Chain
import TapeLang.Program.Sexpr
import TapeLang.Proofs.Program.RoundTrip

/-!
# Symbolic expressions lose nothing

The symbolic expression of a program can be read back. The reader comes from the end of the text: a
closing parenthesis begins a block at its end, a blank ends a word, and an opening parenthesis finds
all of its loop behind it.

* `Program.ofSexpr?_sexpr`: what is read from the text of a native program is the program without
  its places.
* `Program.sexpr_inj`, `Program.source_inj`: equal texts are those of equal programs.
* `Program.WellSet`: how the text is set, and which words stand in it.
* `Program.sexpr_lossless`: the two together, for the printers with their bounds.
-/

namespace TapeLang

/-! ## Printing without places -/

namespace Program

theorem items_bare (p : Program) : p.bare.items = p.items := by
  induction p <;> simp_all [bare, items]

theorem obstacle?_bare (p : Program) (bound : Nat) :
    p.bare.obstacle? bound = p.obstacle? bound := by
  induction p generalizing bound with
  | nil => rfl
  | command c s rest ih => exact ih bound
  | loop b s rest ihb ih =>
    cases bound with
    | zero => rfl
    | succ inner => rw [bare, obstacle?, obstacle?, ihb, ih]
  | foreign n rest _ => rfl

/-- Printing does not look at places. -/
theorem sexprWithin_bare (p : Program) (bound : Nat) :
    p.bare.sexprWithin bound = p.sexprWithin bound := by
  rw [sexprWithin_eq, sexprWithin_eq, obstacle?_bare, sexpr, sexpr, items_bare]

end Program

/-! ## Words -/

/-- The command that a word stands for. -/
def Command.ofWord? (w : List Char) : Option Command :=
  [increment, decrement, right, left, output, input].find? fun c => c.word = w

theorem Command.ofWord?_word (c : Command) : ofWord? c.word = some c := by
  cases c <;> rfl

/-- The word in front of the body of a loop. -/
def loopWord : List Char :=
  ['l', 'o', 'o', 'p']

/-- The word in front of a program. -/
def programWord : List Char :=
  ['p', 'r', 'o', 'g', 'r', 'a', 'm']

namespace Text

/-- The characters between words: blanks and parentheses. -/
def isGap (c : Char) : Bool :=
  c = ' ' || c = '(' || c = ')'

/-- The words of a text, in their order. -/
def words (text : List Char) : List (List Char) :=
  (text.splitOnP isGap).filter (· ≠ [])

/-- The words of a text that stand for commands, in their order. -/
def commandWords (text : List Char) : List (List Char) :=
  (words text).filter fun w => (Command.ofWord? w).isSome

/-- A text that is a single word. -/
structure IsWord (w : List Char) : Prop where
  /-- Something is there. -/
  ne_nil : w ≠ []
  /-- No gap is in it. -/
  no_gap : ∀ c ∈ w, isGap c = false

theorem isWord_iff {w : List Char} : IsWord w ↔ w ≠ [] ∧ w.all (fun c => !isGap c) = true := by
  simp only [List.all_eq_true, Bool.not_eq_eq_eq_not, Bool.not_true]
  exact ⟨fun h => ⟨h.ne_nil, h.no_gap⟩, fun h => ⟨h.1, h.2⟩⟩

instance (w : List Char) : Decidable (IsWord w) :=
  decidable_of_iff _ isWord_iff.symm

theorem isWord_word (c : Command) : IsWord c.word := by
  cases c <;> decide

theorem isWord_loopWord : IsWord loopWord := by
  decide

theorem isWord_programWord : IsWord programWord := by
  decide

/-- A text in parentheses. -/
def enclosed (text : List Char) : List Char :=
  '(' :: text ++ [')']

end Text

open Text

namespace Program

theorem items_loop (b : Program) (s : Option Span) (rest : Program) :
    (loop b s rest).items = ' ' :: (enclosed (loopWord ++ b.items) ++ rest.items) := by
  simp [items, enclosed, loopWord]

theorem sexpr_eq (p : Program) : p.sexpr = enclosed (programWord ++ p.items) := by
  simp [sexpr, enclosed, programWord]

/-! A symbolic expression is read, and looked at, from its end. So each item is seen in front of the
text behind it. -/

theorem items_command_append (c : Command) (s : Option Span) (rest : Program) (text : List Char) :
    (command c s rest).items ++ text = ' ' :: (c.word ++ (rest.items ++ text)) := by
  simp [items]

theorem items_loop_append (b : Program) (s : Option Span) (rest : Program) (text : List Char) :
    (loop b s rest).items ++ text =
      ' ' :: '(' :: (loopWord ++ (b.items ++ ')' :: (rest.items ++ text))) := by
  simp [items_loop, enclosed]

theorem sexpr_eq_append (p : Program) :
    p.sexpr = '(' :: (programWord ++ (p.items ++ [')'])) := by
  simp [sexpr_eq, enclosed]

end Program

/-! ## Reading back -/

/-- What a reader that comes from the end of a text has: the part of the word that it is in, and the
blocks behind it, those of the loops around it after those of the loops in it. -/
structure SexprReader where
  /-- The part of the word. -/
  word : List Char
  /-- The blocks. -/
  blocks : List Program
  deriving DecidableEq

namespace SexprReader

/-- At a blank a command is complete, unless a loop stands there. -/
def endWord (r : SexprReader) : Option SexprReader :=
  match r.word, r.blocks with
  | [], _ => some r
  | w, block :: outer => (Command.ofWord? w).map fun c => ⟨[], .command c none block :: outer⟩
  | _, [] => none

/-- At an opening parenthesis a loop is complete. -/
def endLoop (r : SexprReader) : Option SexprReader :=
  match r.blocks with
  | body :: block :: outer =>
    if r.word = loopWord then some ⟨[], .loop body none block :: outer⟩ else none
  | _ => none

/-- At a closing parenthesis a block comes to its end. -/
def startBlock (r : SexprReader) : Option SexprReader :=
  match r.word with
  | [] => some ⟨[], .nil :: r.blocks⟩
  | _ => none

/-- Come to a character. -/
def feed (c : Char) (r : SexprReader) : Option SexprReader :=
  if c = ' ' then r.endWord
  else if c = '(' then r.endLoop
  else if c = ')' then r.startBlock
  else some ⟨c :: r.word, r.blocks⟩

/-- Come from the end of a text to its beginning. -/
def read : List Char → Option SexprReader
  | [] => some ⟨[], []⟩
  | c :: text => (read text).bind (feed c)

end SexprReader

/-- The program that a symbolic expression shows. -/
def Program.ofSexpr? : List Char → Option Program
  | '(' :: text =>
    match SexprReader.read text with
    | some ⟨word, [p]⟩ => if word = programWord then some p else none
    | _ => none
  | _ => none

namespace SexprReader

variable {text w : List Char} {r : SexprReader} {block : Program} {outer : List Program}

/-- Letters are collected. -/
theorem read_word (hw : ∀ c ∈ w, isGap c = false) (h : read text = some r) :
    read (w ++ text) = some ⟨w ++ r.word, r.blocks⟩ := by
  induction w with
  | nil => exact h
  | cons c w ih =>
    obtain ⟨hc, hw⟩ := List.forall_mem_cons.1 hw
    simp only [isGap, Bool.or_eq_false_iff, decide_eq_false_iff_not] at hc
    rw [List.cons_append, read, ih hw, Option.bind_some, feed, if_neg hc.1.1, if_neg hc.1.2,
      if_neg hc.2]
    rfl

/-- Items are read as what they show, in front of what has been read before. -/
theorem read_items {p : Program} (hnative : p.native = true)
    (h : read text = some ⟨[], block :: outer⟩) :
    read (p.items ++ text) = some ⟨[], (p.bare ++ block) :: outer⟩ := by
  induction p generalizing text block outer with
  | nil => exact h
  | command c s rest ih =>
    have hword := read_word (isWord_word c).no_gap (ih hnative h)
    have hcommand : endWord ⟨c.word ++ [], (rest.bare ++ block) :: outer⟩ =
        some ⟨[], .command c none (rest.bare ++ block) :: outer⟩ := by
      cases c <;> rfl
    rw [Program.items_command_append, read, hword]
    exact hcommand
  | loop b s rest ihb ih =>
    rw [Program.native, Bool.and_eq_true] at hnative
    -- Behind the loop, its closing parenthesis, its body, and its word.
    have hclosing : read (')' :: (rest.items ++ text)) =
        some ⟨[], .nil :: (rest.bare ++ block) :: outer⟩ := by
      rw [read, ih hnative.2 h]
      rfl
    have hbody := ihb hnative.1 hclosing
    have hword := read_word isWord_loopWord.no_gap hbody
    rw [Program.append_nil] at hword
    have hopening : read ('(' :: (loopWord ++ (b.items ++ ')' :: (rest.items ++ text)))) =
        some ⟨[], .loop b.bare none (rest.bare ++ block) :: outer⟩ := by
      rw [read, hword]
      rfl
    rw [Program.items_loop_append, read, hopening]
    rfl
  | foreign name rest _ => cases hnative

end SexprReader

namespace Program

variable {p q : Program}

/-- The symbolic expression of a native program is read as the program without its places. -/
theorem ofSexpr?_sexpr (hnative : p.native = true) : ofSexpr? p.sexpr = some p.bare := by
  have hend : SexprReader.read [')'] = some ⟨[], [.nil]⟩ := rfl
  have hitems := SexprReader.read_items hnative hend
  have hword := SexprReader.read_word isWord_programWord.no_gap hitems
  rw [sexpr_eq_append, ofSexpr?, hword, append_nil, List.append_nil]
  exact if_pos rfl

/-- Programs have the same symbolic expression if they differ in their places only. -/
theorem sexpr_inj (hp : p.native = true) (hq : q.native = true) :
    p.sexpr = q.sexpr ↔ p.bare = q.bare := by
  constructor
  · intro htext
    have hread := ofSexpr?_sexpr hp
    rw [htext, ofSexpr?_sexpr hq] at hread
    exact (Option.some.inj hread).symm
  · intro hbare
    rw [sexpr, sexpr, ← items_bare p, hbare, items_bare q]

/-- Programs have the same source text if they differ in their places only. -/
theorem source_inj (hp : p.native = true) (hq : q.native = true) :
    p.source = q.source ↔ p.bare = q.bare := by
  constructor
  · intro htext
    -- Read both texts where there is room for either program.
    have hdepth : p.depth < max p.depth q.depth + 1 := Nat.lt_succ_of_le (Nat.le_max_left _ _)
    have hdepth' : q.depth < max p.depth q.depth + 1 := Nat.lt_succ_of_le (Nat.le_max_right _ _)
    obtain ⟨r, hread, hbare⟩ := ofTextWithin_source hp hdepth
    obtain ⟨r', hread', hbare'⟩ := ofTextWithin_source hq hdepth'
    rw [htext, hread', Except.ok.injEq] at hread
    rw [← hbare, ← hbare', hread]
  · intro hbare
    rw [← source_bare p, hbare, source_bare q]

end Program

/-! ## Parentheses -/

namespace Text

variable {s t w : List Char} {c : Char}

/-- The parentheses of a text match: no beginning closes more of them than it opens, and the whole
text closes as many as it opens. -/
structure Matched (text : List Char) : Prop where
  /-- No beginning closes more than it opens. -/
  count_le : ∀ u, u <+: text → u.count ')' ≤ u.count '('
  /-- The text closes as many as it opens. -/
  count_eq : text.count ')' = text.count '('

/-- A word holds no parentheses. -/
theorem IsWord.count_eq_zero (h : IsWord w) (hc : isGap c = true) : w.count c = 0 :=
  List.count_eq_zero.2 fun hmem => by simp [h.no_gap c hmem] at hc

theorem Matched.nil : Matched [] :=
  ⟨fun u hu => by simp [List.prefix_nil.1 hu], rfl⟩

theorem Matched.blank : Matched [' '] := by
  refine ⟨forall_prefix_cons.2 ⟨Nat.le_refl 0, fun u hu => ?_⟩, rfl⟩
  simp [List.prefix_nil.1 hu]

theorem IsWord.matched (h : IsWord w) : Matched w := by
  refine ⟨fun u hu => ?_, ?_⟩
  · have hnone : u.count ')' = 0 := List.count_eq_zero.2 fun hmem =>
      List.count_eq_zero.1 (h.count_eq_zero (c := ')') rfl) (hu.subset hmem)
    rw [hnone]
    exact Nat.zero_le _
  · rw [h.count_eq_zero rfl, h.count_eq_zero rfl]

theorem Matched.append (hs : Matched s) (ht : Matched t) : Matched (s ++ t) := by
  refine ⟨forall_prefix_append.2 ⟨hs.count_le, fun u hu => ?_⟩, ?_⟩
  · rw [List.count_append, List.count_append, hs.count_eq]
    exact Nat.add_le_add_left (ht.count_le u hu) _
  · rw [List.count_append, List.count_append, hs.count_eq, ht.count_eq]

theorem Matched.enclosed (ht : Matched t) : Matched (enclosed t) := by
  have hwhole := ht.count_eq
  refine ⟨?_, by simp [Text.enclosed, hwhole]⟩
  unfold Text.enclosed
  rw [List.cons_append, forall_prefix_cons, forall_prefix_concat]
  -- A beginning has opened one more than that of the text inside; only the whole closes it.
  refine ⟨Nat.le_refl 0, fun u hu => ?_, ?_⟩
  · rw [List.count_cons_of_ne (by decide), List.count_cons_self]
    exact Nat.le_succ_of_le (ht.count_le u hu)
  · simp [hwhole]

end Text

namespace Program

theorem matched_items (p : Program) : Matched p.items := by
  induction p with
  | nil => exact .nil
  | command c s rest ih => exact Matched.blank.append ((isWord_word c).matched.append ih)
  | loop b s rest ihb ih =>
    rw [items_loop]
    exact Matched.blank.append ((isWord_loopWord.matched.append ihb).enclosed.append ih)
  | foreign name rest ih => exact ih

/-- One parenthesis opens for each loop. -/
theorem count_items (p : Program) : p.items.count '(' = p.loops := by
  induction p with
  | nil => rfl
  | command c s rest ih =>
    have hword : c.word.count '(' = 0 := (isWord_word c).count_eq_zero rfl
    simp [items, loops, hword, ih]
  | loop b s rest ihb ih =>
    have hword : loopWord.count '(' = 0 := rfl
    simp [items_loop, enclosed, loops, hword, ihb, ih]
  | foreign name rest ih => exact ih

end Program

/-! ## Blanks -/

namespace Text

variable {t w : List Char}

/-- The second character may follow the first one: no blank follows a blank or an opening
parenthesis, and no closing parenthesis follows a blank. -/
def MayFollow (a b : Char) : Prop :=
  (b = ' ' → a ≠ ' ' ∧ a ≠ '(') ∧ (a = ' ' → b ≠ ')')

/-- The text can stand behind an item: it goes on with a blank or a closing parenthesis, and every
character in it may stand where it does. -/
structure StandsBehind (t : List Char) : Prop where
  /-- It goes on with a blank or a closing parenthesis. -/
  head : ∃ c rest, t = c :: rest ∧ (c = ' ' ∨ c = ')')
  /-- Every character may stand where it does. -/
  chain : t.IsChain MayFollow

/-- In front of anything but a gap any character may stand. -/
theorem mayFollow_of_not_gap {a b : Char} (hb : isGap b = false) : MayFollow a b := by
  simp only [isGap, Bool.or_eq_false_iff, decide_eq_false_iff_not] at hb
  exact ⟨fun h => absurd h hb.1.1, fun _ => hb.2⟩

theorem StandsBehind.word (ht : StandsBehind t) (hw : IsWord w) : (w ++ t).IsChain MayFollow := by
  obtain ⟨hne, hgap⟩ := hw
  induction w with
  | nil => exact absurd rfl hne
  | cons a w ih =>
    obtain ⟨ha, hgap⟩ := List.forall_mem_cons.1 hgap
    cases w with
    | nil =>
      -- The last letter stands in front of the text.
      obtain ⟨⟨c, rest, rfl, hc⟩, hchain⟩ := ht
      simp only [isGap, Bool.or_eq_false_iff, decide_eq_false_iff_not] at ha
      have hlast : MayFollow a c := ⟨fun _ => ⟨ha.1.1, ha.1.2⟩, fun h => absurd h ha.1.1⟩
      exact List.isChain_cons_cons.2 ⟨hlast, hchain⟩
    | cons b w =>
      have hb : isGap b = false := hgap b List.mem_cons_self
      exact List.isChain_cons_cons.2 ⟨mayFollow_of_not_gap hb, ih (List.cons_ne_nil b w) hgap⟩

/-- A word with a character in front of it that is no word's. -/
theorem StandsBehind.cons_word (ht : StandsBehind t) (hw : IsWord w) (a : Char) :
    (a :: (w ++ t)).IsChain MayFollow := by
  have hchain := ht.word hw
  obtain ⟨b, w, rfl⟩ := List.exists_cons_of_ne_nil hw.ne_nil
  exact List.isChain_cons_cons.2
    ⟨mayFollow_of_not_gap (hw.no_gap b List.mem_cons_self), hchain⟩

theorem standsBehind_closing : StandsBehind [')'] :=
  ⟨⟨')', [], rfl, Or.inr rfl⟩, List.isChain_singleton _⟩

theorem StandsBehind.closing (ht : StandsBehind t) : StandsBehind (')' :: t) := by
  obtain ⟨⟨c, rest, rfl, hc⟩, hchain⟩ := ht
  refine ⟨⟨')', _, rfl, Or.inr rfl⟩, List.isChain_cons_cons.2 ⟨?_, hchain⟩⟩
  rcases hc with rfl | rfl <;> exact ⟨by decide, by decide⟩

end Text

namespace Program

theorem standsBehind_items {t : List Char} (p : Program) (ht : StandsBehind t) :
    StandsBehind (p.items ++ t) := by
  induction p generalizing t with
  | nil => exact ht
  | command c s rest ih =>
    refine ⟨⟨' ', _, rfl, Or.inl rfl⟩, ?_⟩
    rw [items_command_append]
    exact (ih ht).cons_word (isWord_word c) ' '
  | loop b s rest ihb ih =>
    rw [items_loop_append]
    refine ⟨⟨' ', _, rfl, Or.inl rfl⟩, List.isChain_cons_cons.2 ⟨⟨by decide, by decide⟩, ?_⟩⟩
    -- From the end: what is behind the loop, its closing parenthesis, its body, and its word.
    exact (ihb (ih ht).closing).cons_word isWord_loopWord '('
  | foreign name rest ih => exact ih ht

theorem isChain_sexpr (p : Program) : p.sexpr.IsChain MayFollow := by
  rw [sexpr_eq_append]
  exact (p.standsBehind_items standsBehind_closing).cons_word isWord_programWord '('

/-- Around each blank of a symbolic expression there is something else on both sides, and neither an
opening parenthesis in front of it nor a closing one behind it. -/
theorem blanks_sexpr {p : Program} {front after : List Char}
    (h : p.sexpr = front ++ ' ' :: after) :
    (∃ before a, front = before ++ [a] ∧ a ≠ ' ' ∧ a ≠ '(') ∧
      ∃ b rest, after = b :: rest ∧ b ≠ ' ' ∧ b ≠ ')' := by
  have hchain := h ▸ p.isChain_sexpr
  constructor
  · -- The first character is an opening parenthesis.
    rcases List.eq_nil_or_concat front with rfl | ⟨before, a, rfl⟩
    · cases h
    · rw [List.concat_eq_append] at hchain ⊢
      refine ⟨before, a, rfl, ?_⟩
      rw [List.append_assoc, List.singleton_append, List.isChain_append_cons_cons] at hchain
      exact hchain.2.1.1 rfl
  · cases after with
    | nil =>
      -- The last character is a closing parenthesis.
      rw [sexpr_eq, enclosed] at h
      have hlast : [')'] = [' '] := (List.append_inj' h rfl).2
      cases hlast
    | cons b rest =>
      rw [List.isChain_append_cons_cons] at hchain
      refine ⟨b, rest, rfl, fun hb => ?_, hchain.2.1.2 rfl⟩
      exact (hchain.2.1.1 hb).1 rfl

end Program

/-! ## Words of a program -/

namespace Text

variable {t w : List Char} {c : Char}

theorem words_append_gap (hc : isGap c = true) (s t : List Char) :
    words (s ++ c :: t) = words s ++ words t := by
  rw [words, List.splitOnP_append_cons s t hc, List.filter_append]
  rfl

theorem words_gap (hc : isGap c = true) (t : List Char) : words (c :: t) = words t := by
  have hcut := words_append_gap hc [] t
  rwa [List.nil_append, show words [] = [] by decide, List.nil_append] at hcut

theorem IsWord.words_eq (h : IsWord w) : words w = [w] := by
  rw [words, List.splitOnP_eq_singleton h.no_gap]
  simp [h.ne_nil]

theorem StandsBehind.words_word (ht : StandsBehind t) (hw : IsWord w) :
    words (w ++ t) = w :: words t := by
  obtain ⟨⟨c, rest, rfl, hc⟩, -⟩ := ht
  have hgap : isGap c = true := by
    rcases hc with rfl | rfl <;> rfl
  rw [words_append_gap hgap, hw.words_eq, words_gap hgap]
  rfl

theorem commandWords_gap (hc : isGap c = true) (t : List Char) :
    commandWords (c :: t) = commandWords t := by
  rw [commandWords, commandWords, words_gap hc]

theorem StandsBehind.commandWords_word (ht : StandsBehind t) (hw : IsWord w) :
    commandWords (w ++ t) =
      if (Command.ofWord? w).isSome then w :: commandWords t else commandWords t := by
  rw [commandWords, ht.words_word hw, List.filter_cons]
  rfl

end Text

namespace Program

/-- The commands of a program, those in its loops included, in the order of the text. -/
def leafCommands : Program → List Command
  | nil => []
  | command c _ rest => c :: rest.leafCommands
  | loop b _ rest => b.leafCommands ++ rest.leafCommands
  | foreign _ rest => rest.leafCommands

theorem length_leafCommands {p : Program} (hnative : p.native = true) :
    p.leafCommands.length = p.leaves := by
  induction p with
  | nil => rfl
  | command c s rest ih => rw [leafCommands, leaves, List.length_cons, ih hnative]
  | loop b s rest ihb ih =>
    rw [native, Bool.and_eq_true] at hnative
    rw [leafCommands, leaves, List.length_append, ihb hnative.1, ih hnative.2]
  | foreign name rest _ => cases hnative

/-- Of the words of items, those that stand for commands are the words of the commands. -/
theorem commandWords_items {t : List Char} (p : Program) (ht : StandsBehind t) :
    commandWords (p.items ++ t) = p.leafCommands.map Command.word ++ commandWords t := by
  induction p generalizing t with
  | nil => rfl
  | command c s rest ih =>
    have hbehind := rest.standsBehind_items ht
    rw [items_command_append, commandWords_gap rfl, hbehind.commandWords_word (isWord_word c),
      Command.ofWord?_word, ih ht]
    rfl
  | loop b s rest ihb ih =>
    -- The word of the loop itself stands for no command.
    have hclosing := (rest.standsBehind_items ht).closing
    have hbehind := b.standsBehind_items hclosing
    rw [items_loop_append, commandWords_gap rfl, commandWords_gap rfl,
      hbehind.commandWords_word isWord_loopWord, if_neg (by decide), ihb hclosing,
      commandWords_gap rfl, ih ht, leafCommands, List.map_append, List.append_assoc]
  | foreign name rest ih => exact ih ht

theorem commandWords_sexpr (p : Program) :
    commandWords p.sexpr = p.leafCommands.map Command.word := by
  have hbehind := p.standsBehind_items standsBehind_closing
  rw [sexpr_eq_append, commandWords_gap rfl, hbehind.commandWords_word isWord_programWord,
    if_neg (by decide), p.commandWords_items standsBehind_closing]
  exact List.append_nil _

/-- The texts of the instructions, one for each: a command is its word, and a loop the word `loop`
and the texts of its body, with a blank between any two of them, in parentheses. -/
def itemTexts : Program → List (List Char)
  | nil => []
  | command c _ rest => c.word :: rest.itemTexts
  | loop b _ rest => enclosed ([' '].intercalate (loopWord :: b.itemTexts)) :: rest.itemTexts
  | foreign _ rest => rest.itemTexts

/-- Items behind a word, each with a blank before it, are the word and the items with a blank
between any two. -/
theorem append_items (p : Program) (w : List Char) :
    w ++ p.items = [' '].intercalate (w :: p.itemTexts) := by
  induction p generalizing w with
  | nil => simp [items, itemTexts, List.intercalate_singleton]
  | command c s rest ih =>
    rw [itemTexts, List.intercalate_cons_cons, ← ih, items]
    simp
  | loop b s rest ihb ih =>
    rw [itemTexts, List.intercalate_cons_cons, ← ih, ← ihb, items_loop]
    simp
  | foreign name rest ih => exact ih w

/-- How the symbolic expression of a program is set. -/
structure WellSet (p : Program) (text : List Char) : Prop where
  /-- It is the word `program` and the texts of the instructions, with a blank between any two of
  them, in parentheses. -/
  joined : text = enclosed ([' '].intercalate (programWord :: p.itemTexts))
  /-- Its parentheses match. -/
  matched : Matched text
  /-- One parenthesis opens for each loop, and one for the program. -/
  count_opening : text.count '(' = p.loops + 1
  /-- In front of a blank there is neither a blank nor an opening parenthesis, and behind it neither
  a blank nor a closing one. -/
  blanks : ∀ front after, text = front ++ ' ' :: after →
    (∃ before a, front = before ++ [a] ∧ a ≠ ' ' ∧ a ≠ '(') ∧
      ∃ b rest, after = b :: rest ∧ b ≠ ' ' ∧ b ≠ ')'
  /-- The words of it that stand for commands are those of the commands of the program, in their
  order. -/
  words : commandWords text = p.leafCommands.map Command.word
  /-- There are as many of them as the program has instructions that are no loops. -/
  leaves : (commandWords text).length = p.leaves

theorem wellSet_sexpr {p : Program} (hnative : p.native = true) : p.WellSet p.sexpr where
  joined := by rw [sexpr_eq, append_items]
  matched := by
    rw [sexpr_eq]
    exact (isWord_programWord.matched.append p.matched_items).enclosed
  count_opening := by
    rw [sexpr_eq_append, List.count_cons_self, List.count_append, List.count_append, count_items,
      isWord_programWord.count_eq_zero rfl, Nat.zero_add]
    rfl
  blanks _ _ h := blanks_sexpr h
  words := p.commandWords_sexpr
  leaves := by rw [commandWords_sexpr, List.length_map, length_leafCommands hnative]

/-! ## Printers -/

/-- The program is native, and all printers and the comparison get to the bottom of it. -/
structure Fits (bounds : Limits) (p : Program) : Prop where
  /-- The program is native. -/
  native : p.native = true
  /-- It can be printed as a symbolic expression. -/
  depth_le_printing : p.depth ≤ bounds.printing
  /-- Its source text can be written. -/
  depth_le_walking : p.depth ≤ bounds.walking
  /-- It can be compared. -/
  depth_le_comparing : p.depth ≤ bounds.comparing

/-- The symbolic expression of a program loses nothing. Every native program that is not nested too
deeply is printed, the text is read back as an equal program, and it is set as `WellSet` says. So
two programs have the same symbolic expression just if they are equal, and just if they have the
same source text. -/
theorem sexpr_lossless (bounds : Limits) :
    (∀ p : Program, p.native = true → p.depth ≤ bounds.printing →
      ∃ text, p.sexprWithin bounds.printing = .ok text ∧
        (∃ q, ofSexpr? text = some q ∧ p.same q = true) ∧ p.WellSet text) ∧
    ∀ p q : Program, p.Fits bounds → q.Fits bounds →
      (p.sexprWithin bounds.printing = q.sexprWithin bounds.printing ↔
        p.sameWithin bounds.comparing q = some true) ∧
      (p.sameWithin bounds.comparing q = some true ↔
        p.sourceWithin bounds.walking = q.sourceWithin bounds.walking) := by
  refine ⟨fun p hnative hdepth => ?_, fun p q hp hq => ?_⟩
  · have hsame : p.same p.bare = true := same_eq_true_iff.2 ⟨hnative, p.bare_bare.symm⟩
    exact ⟨p.sexpr, sexprWithin_eq_ok hnative hdepth, ⟨p.bare, ofSexpr?_sexpr hnative, hsame⟩,
      wellSet_sexpr hnative⟩
  · have hequal : p.sameWithin bounds.comparing q = some true ↔ p.bare = q.bare := by
      rw [sameWithin_eq hp.depth_le_comparing, Option.some.injEq, same_eq_true_iff]
      exact and_iff_right hp.native
    rw [hequal, sexprWithin_eq_ok hp.native hp.depth_le_printing,
      sexprWithin_eq_ok hq.native hq.depth_le_printing, Except.ok.injEq,
      sourceWithin_eq_ok hp.native hp.depth_le_walking,
      sourceWithin_eq_ok hq.native hq.depth_le_walking, Except.ok.injEq]
    exact ⟨sexpr_inj hp.native hq.native, (source_inj hp.native hq.native).symm⟩

/-- A loop without a body, read from a text and made without one, and a loop with a body. -/
theorem sexpr_lossless_empty_loop :
    let p : Program := .loop .nil (some ⟨1, 1⟩) (.command .input (some ⟨1, 3⟩) .nil)
    let q : Program := .loop .nil none (.command .input none .nil)
    let r : Program := .loop (.command .input none .nil) none .nil
    p.Fits .sample ∧ q.Fits .sample ∧ r.Fits .sample ∧
      p.sexprWithin Limits.sample.printing = .ok ("(program (loop) in)".toList) ∧
      (∃ o, ofSexpr? "(program (loop) in)".toList = some o ∧ p.same o = true) ∧
      p.sexprWithin Limits.sample.printing = q.sexprWithin Limits.sample.printing ∧
      p.sourceWithin Limits.sample.walking ≠ r.sourceWithin Limits.sample.walking := by
  intro p q r
  have hp : p.Fits .sample := ⟨rfl, by decide, by decide, by decide⟩
  have hq : q.Fits .sample := ⟨rfl, by decide, by decide, by decide⟩
  have hr : r.Fits .sample := ⟨rfl, by decide, by decide, by decide⟩
  obtain ⟨hprint, hinj⟩ := sexpr_lossless .sample
  have htext : p.sexprWithin Limits.sample.printing =
      .ok ("(program (loop) in)".toList) := by decide
  obtain ⟨text, hsexpr, hread, -⟩ := hprint p hp.native hp.depth_le_printing
  obtain rfl : text = "(program (loop) in)".toList := Except.ok.inj (hsexpr.symm.trans htext)
  have hequal : p.sameWithin Limits.sample.comparing q = some true := by decide
  have hdifferent : p.sameWithin Limits.sample.comparing r ≠ some true := by decide
  exact ⟨hp, hq, hr, htext, hread, (hinj p q hp hq).1.2 hequal,
    fun hsource => hdifferent ((hinj p r hp hr).2.2 hsource)⟩

end Program

end TapeLang
