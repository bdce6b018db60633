import TapeLang.Limits
import TapeLang.Program.Term
import TapeLang.Proofs.Program.Bare

/-!
# Terms show what equality compares

The term of a program can be read back. The reader comes from the front of the text and keeps, for
every parenthesis that is open, the name in front of it and the instructions before that name. When
the parenthesis closes, the name says what to do with what stood in it.

* `Program.terms_bare`, `Program.sameWithin_bare`: terms and comparisons do not look at places.
* `Program.ofTerm?_term`: what is read from the term of a native program is the program without its
  places.
* `Program.terms_inj`, `Program.term_inj`: equal terms are those of equal programs.
* `Program.WellShown`: how the term shows each sequence of instructions.
* `Program.term_lossless`: the whole of it, for terms and comparisons with their bounds.
-/

namespace TapeLang

namespace Program

/-! ## Places -/

theorem terms_bare (p : Program) : p.bare.terms = p.terms := by
  induction p with
  | nil => rfl
  | command c s rest ih => rw [bare, terms, terms, ih]
  | loop b s rest ihb ih => rw [bare, terms, terms, ihb, ih]
  | foreign name rest ih => rw [bare, terms, terms, ih]

theorem term_bare (p : Program) : p.bare.term = p.term := by
  unfold term
  rw [terms_bare]

/-- Terms do not show places. -/
theorem termWithin_bare (p : Program) (bound : Nat) :
    p.bare.termWithin bound = p.termWithin bound := by
  rw [termWithin, termWithin, depth_bare, term_bare]

/-- Comparing does not look at places, wherever it ends. -/
theorem sameWithin_bare (p q : Program) (bound : Nat) :
    p.bare.sameWithin bound q.bare = p.sameWithin bound q := by
  induction p generalizing bound q with
  | nil => cases q <;> rfl
  | command c s rest ih =>
    cases q with
    | command d t rest' => rw [bare, bare, sameWithin, sameWithin, ih]
    | nil | loop _ _ _ | foreign _ _ => rfl
  | loop b s rest ihb ih =>
    cases q with
    | loop d t rest' =>
      cases bound with
      | zero => rfl
      | succ inner => rw [bare, bare, sameWithin, sameWithin, ihb, ih]
    | nil | command _ _ _ | foreign _ _ => rfl
  -- A foreign instruction differs from whatever it is compared with.
  | foreign n rest _ => cases q <;> rfl

/-! ## Tuples -/

/-- What stands between two terms in a row. -/
def separator : List Char :=
  [',', ' ']

/-- Terms behind a first one, each with a separator before it. -/
theorem append_flatMap_separator (x : List Char) (xs : List (List Char)) :
    x ++ xs.flatMap (separator ++ ·) = separator.intercalate (x :: xs) := by
  induction xs generalizing x with
  | nil => rw [List.flatMap_nil, List.append_nil, List.intercalate_singleton]
  | cons y ys ih =>
    rw [List.intercalate_cons_cons, ← ih, List.flatMap_cons, List.append_assoc, List.append_assoc]

/-- A tuple is set in parentheses, with a separator between any two terms and a comma behind an only
one. -/
theorem tuple_eq (xs : List (List Char)) :
    tuple xs = '(' :: (separator.intercalate xs ++
      ((if xs.length = 1 then [','] else []) ++ [')'])) := by
  match xs with
  | [] => rfl
  | [x] =>
    rw [List.intercalate_singleton]
    rfl
  | x :: y :: ys =>
    have hlength : (x :: y :: ys).length ≠ 1 := by simp
    rw [if_neg hlength, ← append_flatMap_separator]
    simp [tuple, separator]

/-! ## Sequences of instructions -/

theorem length_terms (p : Program) : p.terms.length = p.length := by
  induction p with
  | nil => rfl
  | command c s rest ih => rw [terms, length, List.length_cons, ih]
  | loop b s rest _ ih => rw [terms, length, List.length_cons, ih]
  | foreign name rest ih => rw [terms, length, List.length_cons, ih]

/-- The bodies of all loops of a program, those in loop bodies included. -/
def bodies : Program → List Program
  | nil => []
  | command _ _ rest => rest.bodies
  | loop b _ rest => b :: (b.bodies ++ rest.bodies)
  | foreign _ rest => rest.bodies

/-- The term of a loop, by the tuple of its body. -/
def loopTerm (tuple : List Char) : List Char :=
  "Loop(body=".toList ++ tuple ++ [')']

/-- A reader of a call comes to its name, to the parenthesis, and to the keyword of its argument. -/
theorem call_append {call name keyword : List Char} (h : call = name ++ '(' :: keyword)
    (tuple text : List Char) :
    call ++ tuple ++ [')'] ++ text = name ++ '(' :: (keyword ++ (tuple ++ ')' :: text)) := by
  simp only [h, List.append_assoc, List.cons_append, List.nil_append]

theorem loopTerm_append (tuple text : List Char) :
    loopTerm tuple ++ text = "Loop".toList ++ '(' :: ("body=".toList ++ (tuple ++ ')' :: text)) :=
  call_append (by simp) tuple text

theorem term_append (p : Program) (text : List Char) :
    p.term ++ text =
      "Program".toList ++ '(' :: ("instructions=".toList ++ (tuple p.terms ++ ')' :: text)) :=
  call_append (by simp) (tuple p.terms) text

/-- Each term ends with a closing parenthesis. -/
theorem eq_concat_of_mem_terms {p : Program} {x : List Char} (h : x ∈ p.terms) :
    ∃ front, x = front ++ [')'] := by
  induction p with
  | nil => cases h
  | command c s rest ih =>
    rcases List.mem_cons.1 h with rfl | h
    · exact ⟨c.constructorName ++ ['('], by simp⟩
    · exact ih h
  | loop b s rest _ ih =>
    rcases List.mem_cons.1 h with rfl | h
    · exact ⟨_, rfl⟩
    · exact ih h
  | foreign name rest ih =>
    rcases List.mem_cons.1 h with rfl | h
    · exact ⟨name.toList ++ ['('], by simp⟩
    · exact ih h

/-- So do terms in a row. -/
theorem intercalate_eq_concat {xs : List (List Char)} (hne : xs ≠ [])
    (h : ∀ x ∈ xs, ∃ front, x = front ++ [')']) :
    ∃ front, separator.intercalate xs = front ++ [')'] := by
  induction xs with
  | nil => exact absurd rfl hne
  | cons x xs ih =>
    obtain ⟨hx, hxs⟩ := List.forall_mem_cons.1 h
    cases xs with
    | nil => rwa [List.intercalate_singleton]
    | cons y ys =>
      -- The last of the terms is one of those behind the first.
      obtain ⟨front, hfront⟩ := ih (List.cons_ne_nil y ys) hxs
      refine ⟨x ++ separator ++ front, ?_⟩
      rw [List.intercalate_cons_cons, hfront, List.append_assoc _ front]

/-- How the instructions of a program are set as a tuple. -/
structure SetAsTuple (p : Program) (tuple : List Char) : Prop where
  /-- They stand in parentheses, with a comma and a blank between any two of them, and with a comma
  behind an only one. -/
  joined : tuple = '(' :: (separator.intercalate p.terms ++
    ((if p.length = 1 then [','] else []) ++ [')']))
  /-- Nothing else is in the parentheses just if there is no instruction. -/
  eq_empty_iff : tuple = ['(', ')'] ↔ p.length = 0
  /-- A comma is in front of the closing parenthesis just if there is exactly one instruction. -/
  comma_iff : [',', ')'] <:+ tuple ↔ p.length = 1

theorem setAsTuple (p : Program) : p.SetAsTuple (tuple p.terms) := by
  have hjoined := tuple_eq p.terms
  rw [length_terms] at hjoined
  suffices hshape : (tuple p.terms = ['(', ')'] ↔ p.length = 0) ∧
      ([',', ')'] <:+ tuple p.terms ↔ p.length = 1) from ⟨hjoined, hshape.1, hshape.2⟩
  by_cases hzero : p.length = 0
  · have hterms : p.terms = [] := List.length_eq_zero_iff.1 (p.length_terms.trans hzero)
    rw [hterms, hzero]
    decide
  -- In front of what is behind the terms there is the closing parenthesis of the last one.
  have hne : p.terms ≠ [] := by
    intro hterms
    exact hzero (p.length_terms.symm.trans (congrArg List.length hterms))
  obtain ⟨front, hfront⟩ := intercalate_eq_concat hne fun x => eq_concat_of_mem_terms
  rw [hfront] at hjoined
  have hfull : tuple p.terms ≠ ['(', ')'] := by
    intro hempty
    have hlength := congrArg List.length (hjoined.symm.trans hempty)
    simp only [List.length_cons, List.length_append, List.length_nil] at hlength
    omega
  refine ⟨iff_of_false hfull hzero, ?_⟩
  by_cases hone : p.length = 1
  · refine iff_of_true ⟨'(' :: (front ++ [')']), ?_⟩ hone
    rw [hjoined, if_pos hone]
    rfl
  · refine iff_of_false ?_ hone
    rintro ⟨before, hbefore⟩
    rw [hjoined, if_neg hone, List.append_assoc, ← List.cons_append] at hbefore
    have hlast : [',', ')'] = [')', ')'] := List.append_inj_right' hbefore rfl
    cases hlast

/-- Each term stands among the terms in a row. -/
theorem infix_intercalate {x : List Char} {xs : List (List Char)} (h : x ∈ xs) :
    x <:+: separator.intercalate xs := by
  induction xs with
  | nil => cases h
  | cons y ys ih =>
    cases ys with
    | nil =>
      rw [List.intercalate_singleton]
      exact List.mem_singleton.1 h ▸ List.infix_rfl
    | cons z zs =>
      rw [List.intercalate_cons_cons]
      rcases List.mem_cons.1 h with rfl | h
      · rw [List.append_assoc]
        exact (List.prefix_append _ _).isInfix
      · exact (ih h).trans (List.suffix_append _ _).isInfix

theorem infix_tuple {x : List Char} {xs : List (List Char)} (h : x ∈ xs) : x <:+: tuple xs := by
  refine (infix_intercalate h).trans ?_
  rw [tuple_eq]
  exact List.infix_cons (List.prefix_append _ _).isInfix

/-- The body of each loop stands as a tuple in one of the terms. -/
theorem exists_term_of_mem_bodies {p b : Program} (h : b ∈ p.bodies) :
    ∃ x ∈ p.terms, loopTerm (tuple b.terms) <:+: x := by
  induction p with
  | nil => cases h
  | command c s rest ih =>
    obtain ⟨x, hx, hinfix⟩ := ih h
    exact ⟨x, List.mem_cons_of_mem _ hx, hinfix⟩
  | loop body s rest ihb ih =>
    rcases List.mem_cons.1 h with rfl | h
    · exact ⟨_, List.mem_cons_self, List.infix_rfl⟩
    rcases List.mem_append.1 h with h | h
    · -- The loop is in the body of this one, whose tuple holds all terms of the body.
      obtain ⟨x, hx, hinfix⟩ := ihb h
      refine ⟨loopTerm (tuple body.terms), List.mem_cons_self, hinfix.trans ?_⟩
      exact (infix_tuple hx).trans (List.infix_append _ _ _)
    · obtain ⟨x, hx, hinfix⟩ := ih h
      exact ⟨x, List.mem_cons_of_mem _ hx, hinfix⟩
  | foreign name rest ih =>
    obtain ⟨x, hx, hinfix⟩ := ih h
    exact ⟨x, List.mem_cons_of_mem _ hx, hinfix⟩

/-- How the term of a program shows its sequences of instructions. -/
structure WellShown (p : Program) (text : List Char) : Prop where
  /-- The program itself is shown as a tuple, which is all that the term holds. -/
  whole : ∃ tuple, text = "Program(instructions=".toList ++ tuple ++ [')'] ∧ p.SetAsTuple tuple
  /-- The body of each loop is shown as a tuple, wherever the loop is. -/
  inner : ∀ b ∈ p.bodies, ∃ tuple,
    "Loop(body=".toList ++ tuple ++ [')'] <:+: text ∧ b.SetAsTuple tuple

theorem wellShown_term (p : Program) : p.WellShown p.term where
  whole := ⟨tuple p.terms, rfl, p.setAsTuple⟩
  inner b hb := by
    obtain ⟨x, hx, hinfix⟩ := exists_term_of_mem_bodies hb
    refine ⟨tuple b.terms, hinfix.trans ((infix_tuple hx).trans ?_), b.setAsTuple⟩
    exact List.infix_append _ _ _

end Program

/-! ## Reading back -/

/-- The command that the name of a constructor stands for. -/
def Command.ofConstructorName? (name : List Char) : Option Command :=
  [increment, decrement, right, left, output, input].find? fun c => c.constructorName = name

/-- What a reader has after some part of a term. -/
structure TermReader where
  /-- The letters of the name that it is in. -/
  name : List Char
  /-- The instructions of the innermost open parenthesis. -/
  block : Program
  /-- For each open parenthesis, innermost first, the name in front of it and the instructions
  before that name. -/
  opened : List (List Char × Program)

namespace TermReader

/-- The names that only hand on what stands in their parentheses. -/
def carriers : List (List Char) :=
  ["Program".toList, "instructions=".toList, "body=".toList]

/-- What becomes of the instructions `before` a name when the parenthesis behind it closes, with the
instructions `inside` in it. -/
def close (name : List Char) (before inside : Program) : Option Program :=
  if name ∈ carriers then some inside
  else if name = "Loop".toList then some (before ++ .loop inside none .nil)
  else (Command.ofConstructorName? name).map fun c => before ++ .command c none .nil

/-- Come to a character. -/
def feed (r : TermReader) (c : Char) : Option TermReader :=
  if c = '(' then some ⟨[], .nil, (r.name, r.block) :: r.opened⟩
  else if c = ')' then
    match r.opened with
    | [] => none
    | (name, before) :: outer => (close name before r.block).map fun block => ⟨[], block, outer⟩
  -- Separators stand behind a closed parenthesis, where no name has begun.
  else if c = ',' ∨ c = ' ' then some r
  else some ⟨r.name ++ [c], r.block, r.opened⟩

/-- Read a text. -/
def read (r : TermReader) : List Char → Option TermReader
  | [] => some r
  | c :: text => (r.feed c).bind fun r' => r'.read text

/-- The characters that no name has. -/
def isMark (c : Char) : Bool :=
  c = '(' || c = ')' || c = ',' || c = ' '

variable {r r' : TermReader} {text w x : List Char} {xs : List (List Char)}

/-- Letters are collected. -/
theorem read_name (hw : w.any isMark = false) (r : TermReader) (text : List Char) :
    r.read (w ++ text) = read ⟨r.name ++ w, r.block, r.opened⟩ text := by
  induction w generalizing r with
  | nil => rw [List.nil_append, List.append_nil]
  | cons c w ih =>
    rw [List.any_cons, Bool.or_eq_false_iff] at hw
    obtain ⟨hc, hw⟩ := hw
    simp only [isMark, Bool.or_eq_false_iff, decide_eq_false_iff_not] at hc
    rw [List.cons_append, read, feed, if_neg hc.1.1.1, if_neg hc.1.1.2,
      if_neg (not_or.2 ⟨hc.1.2, hc.2⟩), Option.bind_some, ih hw, List.append_assoc,
      List.singleton_append]

theorem read_opening (r : TermReader) (text : List Char) :
    r.read ('(' :: text) = read ⟨[], .nil, (r.name, r.block) :: r.opened⟩ text := rfl

/-- A closing parenthesis is read as what the name in front of the parenthesis makes of it. -/
theorem read_closing {name : List Char} {before inside block : Program}
    (h : close name before inside = some block) (opened : List (List Char × Program))
    (text : List Char) :
    read ⟨[], inside, (name, before) :: opened⟩ (')' :: text) = read ⟨[], block, opened⟩ text := by
  have hfeed : feed ⟨[], inside, (name, before) :: opened⟩ ')' = some ⟨[], block, opened⟩ := by
    simp [feed, h]
  rw [read, hfeed, Option.bind_some]

theorem read_separator (r : TermReader) (text : List Char) :
    r.read (Program.separator ++ text) = r.read text := rfl

/-- The first of the terms in a row is read, and then the others. -/
theorem read_intercalate_cons (hx : ∀ text, r.read (x ++ text) = r'.read text) :
    r.read (Program.separator.intercalate (x :: xs) ++ text) =
      r'.read (Program.separator.intercalate xs ++ text) := by
  -- A separator stands behind the first only if there are others.
  cases xs with
  | nil => rw [List.intercalate_singleton, hx, List.intercalate_nil, List.nil_append]
  | cons y ys =>
    rw [List.intercalate_cons_cons, List.append_assoc, List.append_assoc, hx, read_separator]

/-- A tuple is read as what the name in front of it makes of its terms. -/
theorem read_tuple {p block : Program}
    (hterms : ∀ opened text,
      read ⟨[], .nil, opened⟩ (Program.separator.intercalate p.terms ++ text) =
        read ⟨[], p.bare, opened⟩ text)
    (h : close r.name r.block p.bare = some block) (text : List Char) :
    r.read (Program.tuple p.terms ++ text) = read ⟨[], block, r.opened⟩ text := by
  rw [Program.tuple_eq, List.cons_append, read_opening, List.append_assoc, hterms,
    List.append_assoc]
  -- A comma behind an only term is passed over.
  split
  · exact read_closing h r.opened text
  · exact read_closing h r.opened text

/-- Terms in a row are read as the instructions that they show, behind those that have been read
before. -/
theorem read_terms {p : Program} (hnative : p.native = true) (block : Program)
    (opened : List (List Char × Program)) (text : List Char) :
    read ⟨[], block, opened⟩ (Program.separator.intercalate p.terms ++ text) =
      read ⟨[], block ++ p.bare, opened⟩ text := by
  -- In a body the reader starts anew, so nothing that it has may be fixed.
  induction p generalizing block opened text with
  | nil =>
    rw [Program.bare, Program.append_nil]
    rfl
  | command c s rest ih =>
    have hname : c.constructorName.any isMark = false := by
      cases c <;> rfl
    -- Nothing is in the parentheses, so it is the name alone that says which command this is.
    have hclose : close c.constructorName block .nil = some (block ++ .command c none .nil) := by
      cases c <;> rfl
    have hfirst : ∀ text, read ⟨[], block, opened⟩ (c.constructorName ++ "()".toList ++ text) =
        read ⟨[], block ++ .command c none .nil, opened⟩ text := by
      intro text
      rw [List.append_assoc, read_name hname]
      exact read_closing hclose opened text
    rw [Program.terms, read_intercalate_cons hfirst, ih hnative, Program.append_assoc]
    rfl
  | loop b s rest ihb ih =>
    rw [Program.native, Bool.and_eq_true] at hnative
    -- The body is read with no instructions in front of it, and with two more open parentheses.
    have hfirst : ∀ text,
        read ⟨[], block, opened⟩ (Program.loopTerm (Program.tuple b.terms) ++ text) =
          read ⟨[], block ++ .loop b.bare none .nil, opened⟩ text := by
      intro text
      rw [Program.loopTerm_append, read_name rfl, read_opening, read_name rfl,
        read_tuple (ihb hnative.1 .nil) rfl]
      exact read_closing rfl opened text
    rw [show (Program.loop b s rest).terms = Program.loopTerm (Program.tuple b.terms) :: rest.terms
      from rfl, read_intercalate_cons hfirst, ih hnative.2, Program.append_assoc]
    rfl
  | foreign name rest _ => cases hnative

end TermReader

/-- The program that a term shows. -/
def Program.ofTerm? (text : List Char) : Option Program :=
  match TermReader.read ⟨[], .nil, []⟩ text with
  -- The whole of a text is read when nothing is open and no name is left without a parenthesis.
  | some ⟨[], p, []⟩ => some p
  | _ => none

namespace Program

variable {p q : Program}

/-- The term of a native program is read as the program without its places. -/
theorem ofTerm?_term (hnative : p.native = true) : ofTerm? p.term = some p.bare := by
  have hread : TermReader.read ⟨[], .nil, []⟩ p.term = some ⟨[], p.bare, []⟩ := by
    rw [← p.term.append_nil, term_append, TermReader.read_name rfl, TermReader.read_opening,
      TermReader.read_name rfl,
      TermReader.read_tuple (TermReader.read_terms hnative .nil) rfl]
    exact TermReader.read_closing rfl [] []
  rw [ofTerm?, hread]

/-- Programs have the same term if they differ in their places only. -/
theorem term_inj (hp : p.native = true) (hq : q.native = true) :
    p.term = q.term ↔ p.bare = q.bare := by
  constructor
  · intro htext
    have hread := ofTerm?_term hp
    rw [htext, ofTerm?_term hq] at hread
    exact (Option.some.inj hread).symm
  · intro hbare
    rw [← term_bare p, hbare, term_bare q]

/-- The terms of their instructions, one by one, are the same for these programs and no others. -/
theorem terms_inj (hp : p.native = true) (hq : q.native = true) :
    p.terms = q.terms ↔ p.bare = q.bare := by
  constructor
  · intro hterms
    refine (term_inj hp hq).1 ?_
    unfold term
    rw [hterms]
  · intro hbare
    rw [← terms_bare p, hbare, terms_bare q]

theorem termWithin_eq_some {bound : Nat} (hdepth : p.depth ≤ bound) :
    p.termWithin bound = some p.term :=
  if_pos hdepth

/-- Terms show exactly what equality compares. Every native program that is not nested too deeply
has a term; it is read back as an equal program, and it shows the program as `WellShown` says.
Places matter neither to the term of a program nor to what comparing it finds out. So two programs,
or two sequences of instructions, are shown alike just if they are equal. -/
theorem term_lossless (bounds : Limits) :
    (∀ p : Program, p.native = true → p.depth ≤ bounds.showing →
      ∃ text, p.termWithin bounds.showing = some text ∧
        (∃ q, ofTerm? text = some q ∧ p.same q = true) ∧ p.WellShown text) ∧
    (∀ p p' : Program, p.bare = p'.bare → ∀ bound,
      p.termWithin bound = p'.termWithin bound ∧
        ∀ q q' : Program, q.bare = q'.bare → p.sameWithin bound q = p'.sameWithin bound q') ∧
    (∀ p q : Program, p.native = true → q.native = true →
      (p.terms = q.terms ↔ p.same q = true)) ∧
    ∀ p q : Program, p.native = true → q.native = true →
      p.depth ≤ bounds.showing → p.depth ≤ bounds.comparing →
      (p.termWithin bounds.showing = q.termWithin bounds.showing ↔
        p.sameWithin bounds.comparing q = some true) := by
  have hplaces : ∀ p p' : Program, p.bare = p'.bare → ∀ bound,
      p.termWithin bound = p'.termWithin bound := by
    intro p p' hbare bound
    rw [← termWithin_bare p, hbare, termWithin_bare p']
  refine ⟨fun p hnative hdepth => ?_, fun p p' hbare bound => ⟨hplaces p p' hbare bound, ?_⟩,
    fun p q hp hq => ?_, fun p q hp hq hshowing hcomparing => ?_⟩
  · have hsame : p.same p.bare = true := same_eq_true_iff.2 ⟨hnative, p.bare_bare.symm⟩
    exact ⟨p.term, termWithin_eq_some hdepth, ⟨p.bare, ofTerm?_term hnative, hsame⟩,
      p.wellShown_term⟩
  · intro q q' hbare'
    rw [← sameWithin_bare p, hbare, hbare', sameWithin_bare p']
  · rw [terms_inj hp hq, same_eq_true_iff, and_iff_right hp]
  · rw [sameWithin_eq hcomparing, Option.some.injEq, same_eq_true_iff, and_iff_right hp]
    constructor
    · intro htext
      -- The other program has a term, so it is not nested too deeply either.
      rw [termWithin_eq_some hshowing, termWithin] at htext
      split at htext
      · exact (term_inj hp hq).1 (Option.some.inj htext)
      · cases htext
    · intro hbare
      exact hplaces p q hbare bounds.showing

/-- A loop with one instruction in its body, read from a text and made without one, and a loop with
two instructions. -/
theorem term_lossless_one_each :
    let p : Program := .loop (.command .increment (some ⟨1, 2⟩) .nil) (some ⟨1, 1⟩) .nil
    let q : Program := .loop (.command .increment none .nil) none .nil
    let r : Program := .loop (.command .increment none (.command .increment none .nil)) none .nil
    p.native = true ∧ q.native = true ∧ r.native = true ∧ p.depth ≤ 240 ∧
      p.termWithin 240 = some ("Program(instructions=(Loop(body=(IncValue(),)),))".toList) ∧
      (∃ o, ofTerm? "Program(instructions=(Loop(body=(IncValue(),)),))".toList = some o ∧
        p.same o = true) ∧
      p.termWithin 240 = q.termWithin 240 ∧ p.termWithin 240 ≠ r.termWithin 240 := by
  intro p q r
  have hdepth : p.depth ≤ 240 := by decide
  obtain ⟨hprint, -, -, hinj⟩ := term_lossless .sample
  have hterm : p.termWithin 240 =
      some ("Program(instructions=(Loop(body=(IncValue(),)),))".toList) := by
    decide +kernel
  obtain ⟨text, htext, hread, -⟩ := hprint p rfl hdepth
  obtain rfl := Option.some.inj (htext.symm.trans hterm)
  have hequal : p.sameWithin 240 q = some true := by decide
  have hdifferent : p.sameWithin 240 r ≠ some true := by decide
  exact ⟨rfl, rfl, rfl, hdepth, hterm, hread, (hinj p q rfl rfl hdepth hdepth).2 hequal,
    fun h => hdifferent ((hinj p r rfl rfl hdepth hdepth).1 h)⟩

end Program

end TapeLang
