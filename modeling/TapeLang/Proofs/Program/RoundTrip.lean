import TapeLang.Proofs.Program.Bare
import TapeLang.Proofs.Program.Printers
import TapeLang.Proofs.Program.Reading

/-!
# Writing and reading are inverse

* `ofTextWithin_source`: the text of a native program is read as that program.
* `source_of_ofTextWithin`: what is read from a text is written as that text without its comments.
* `readAlike_code`: comments never matter. A text and the same text without its comments
  are read as equal programs, or refused for the same reason.

The first statement follows the program, and the second one the text: a reader has written down what
it has come through (`Reader.written`).
-/

namespace TapeLang

open Text

/-! ## Reading what was written -/

/-- A reader takes the text of a program for the program, and puts it into the open block. -/
theorem Reader.feedAll_source {bound : Nat} {p : Program} (hnative : p.native = true) (r : Reader)
    (hroom : r.opened.length + p.depth < bound) :
    ∃ (q : Program) (place : Span), q.bare = p.bare ∧
      r.feedAll bound p.source = .ok ⟨place, q.reverseAppend r.block, r.opened⟩ := by
  -- The reader may have anything open and collected: inside of a loop it has.
  induction p generalizing r with
  | nil => exact ⟨.nil, r.place, rfl, rfl⟩
  | command c s rest ih =>
    obtain ⟨q, place, hq, hread⟩ := ih hnative
      ⟨r.place.next c.char, .command c (some r.place) r.block, r.opened⟩ hroom
    refine ⟨.command c (some r.place) q, place, by rw [Program.bare, Program.bare, hq], ?_⟩
    rw [Program.source, feedAll, feed_command (Command.ofChar?_char c)]
    exact hread
  | loop b s rest ihb ih =>
    rw [Program.native, Bool.and_eq_true] at hnative
    rw [Program.depth] at hroom
    have hopening : r.opened.length + 1 < bound := by omega
    obtain ⟨body, place, hbody, hread⟩ := ihb hnative.1
      ⟨r.place.next '[', .nil, ⟨r.place, r.block⟩ :: r.opened⟩
      (by simp only [List.length_cons]; omega)
    obtain ⟨q, place', hq, hread'⟩ := ih hnative.2
      ⟨place.next ']', .loop body (some r.place) r.block, r.opened⟩ (by simp only; omega)
    refine ⟨.loop body (some r.place) q, place', by rw [Program.bare, Program.bare, hbody, hq], ?_⟩
    -- Through the opening bracket, the body, the closing bracket, and on to the rest.
    rw [Program.source, List.cons_append, feedAll, feed_opening hopening]
    change feedAll bound _ (b.source ++ ']' :: rest.source) = _
    rw [feedAll_append hread, feedAll, feed_closing rfl, Program.reverse_reverseAppend_nil]
    exact hread'
  | foreign n rest _ => simp [Program.native] at hnative

namespace Program

variable {bound : Nat} {p : Program} {text : List Char}

/-- The text of a native program is read as that program. -/
theorem ofTextWithin_source (hnative : p.native = true) (hdepth : p.depth < bound) :
    ∃ q, ofTextWithin bound p.source = .ok q ∧ q.bare = p.bare := by
  obtain ⟨q, place, hq, hread⟩ := Reader.start.feedAll_source hnative (by
    simpa [Reader.start] using hdepth)
  refine ⟨q, ?_, hq⟩
  rw [ofTextWithin_of_feedAll hread]
  exact congrArg Except.ok (reverse_reverseAppend_nil q)

end Program

/-! ## Writing what was read -/

namespace Reader

/-- The text of the blocks around the innermost open one, with the brackets that are open. -/
def writtenAround : List OpenLoop → List Char
  | [] => []
  | l :: outer => writtenAround outer ++ l.before.reverse.source ++ ['[']

/-- The text of all that a reader has collected. -/
def written (r : Reader) : List Char :=
  writtenAround r.opened ++ r.block.reverse.source

/-- All that a reader has collected is native. -/
def Native (r : Reader) : Prop :=
  r.block.native = true ∧ ∀ l ∈ r.opened, l.before.native = true

variable {bound : Nat} {r r' : Reader} {text : List Char}

/-- A character is written down unless it is a comment. -/
theorem written_feed {c : Char} (h : r.feed bound c = .ok r') :
    r'.written = r.written ++ code [c] := by
  rcases feed_cases h with ⟨cmd, hcmd, rfl⟩ | ⟨rfl, -, rfl⟩ | ⟨rfl, l, outer, hopened, rfl⟩ |
    ⟨hcomment, rfl⟩
  · have hchar := Command.char_of_ofChar? hcmd
    subst hchar
    simp [written, Program.reverse_command, Program.source, code]
  · rw [code_opening]
    simp [written, writtenAround, Program.reverse, Program.reverseAppend, Program.source, code]
  -- The block that is closed was written behind the open bracket, and now stands in the loop.
  · rw [code_closing]
    simp [written, writtenAround, hopened, Program.reverse_loop, Program.source, code]
  · simp [written, code, hcomment]

theorem Native.feed {c : Char} (hr : r.Native) (h : r.feed bound c = .ok r') : r'.Native := by
  obtain ⟨hblock, hopened⟩ := hr
  rcases feed_cases h with ⟨cmd, -, rfl⟩ | ⟨-, -, rfl⟩ | ⟨-, l, outer, heq, rfl⟩ | ⟨-, rfl⟩
  · exact ⟨hblock, hopened⟩
  · exact ⟨rfl, by simpa using ⟨hblock, hopened⟩⟩
  · rw [heq] at hopened
    simp only [List.mem_cons, forall_eq_or_imp] at hopened
    exact ⟨by simp [Program.native, hblock, hopened.1], hopened.2⟩
  · exact ⟨hblock, hopened⟩

/-- A reader has written down the text that it has come through, and collected nothing foreign. -/
theorem written_feedAll (h : Reader.start.feedAll bound text = .ok r) :
    r.written = code text ∧ r.Native := by
  have hstart : Reader.start.written = code [] ∧ Reader.start.Native := by
    exact ⟨rfl, rfl, by simp [Reader.start]⟩
  refine feedAll_induction (I := fun s r => r.written = code s ∧ r.Native) ?_ hstart h
  rintro s r₁ r₂ c ⟨hwritten, hnative⟩ hc
  refine ⟨?_, hnative.feed hc⟩
  rw [written_feed hc, hwritten, code_append]

end Reader

namespace Program

variable {bound : Nat} {p : Program} {text : List Char}

/-- What is read from a text is written as that text without its comments. -/
theorem source_of_ofTextWithin (h : ofTextWithin bound text = .ok p) : p.source = code text := by
  obtain ⟨r, hr, hopened, rfl⟩ := exists_feedAll_of_ok h
  -- With no loop open, the reader has written down its one block and nothing else.
  obtain ⟨hwritten, -⟩ := Reader.written_feedAll hr
  rwa [Reader.written, hopened, Reader.writtenAround, List.nil_append] at hwritten

theorem native_of_ofTextWithin (h : ofTextWithin bound text = .ok p) : p.native = true := by
  obtain ⟨r, hr, -, rfl⟩ := exists_feedAll_of_ok h
  rw [native_reverse]
  exact (Reader.written_feedAll hr).2.1

/-- What is read stays below the nesting bound. -/
theorem depth_lt_of_ofTextWithin (hbound : 0 < bound) (h : ofTextWithin bound text = .ok p) :
    p.depth < bound := by
  rw [depth_lt_iff hbound, source_of_ofTextWithin h, nestedBelow_code]
  rcases ofTextWithin_cases hbound text with ⟨_, _, _, _, _, _, hr⟩ |
    ⟨_, _, _, _, _, _, hr⟩ | ⟨_, _, _, _, _, hr⟩ | ⟨-, hnested, -⟩
  · simp [hr] at h
  · simp [hr] at h
  · simp [hr] at h
  · exact hnested

end Program

/-! ## Comments -/

/-- Two texts are refused for the same reason, possibly at different places. -/
def ParseError.SameKind : ParseError → ParseError → Prop
  | .stray _, .stray _ => True
  | .unclosed _, .unclosed _ => True
  | .tooDeep, .tooDeep => True
  | _, _ => False

/-- Two texts are read as equal programs, or refused for the same reason. -/
def ReadAlike : Except ParseError Program → Except ParseError Program → Prop
  | .ok p, .ok q => p.same q = true
  | .error e, .error e' => e.SameKind e'
  | _, _ => False

/-- Deleting the comments of a text changes nothing but places. -/
theorem readAlike_code {bound : Nat} (hbound : 0 < bound) (text : List Char) :
    ReadAlike (Program.ofTextWithin bound (code text)) (Program.ofTextWithin bound text) := by
  -- The three refusals depend on balances, which comments leave alone.
  rcases Program.ofTextWithin_cases hbound text with ⟨before, after, rfl, hs, hn, hz, hr⟩ |
    ⟨before, after, rfl, hs, hn, hd, hr⟩ | ⟨hs, hn, hopen, i, -, hr⟩ | ⟨-, -, p, hr⟩
  · rw [hr, code_append, code_closing, Program.ofTextWithin_of_stray (noStray_code.2 hs)
      (nestedBelow_code.2 hn) (by rwa [balance_code])]
    trivial
  · rw [hr, code_append, code_opening, Program.ofTextWithin_of_deep (noStray_code.2 hs)
      (nestedBelow_code.2 hn) (by rwa [balance_code])]
    trivial
  · obtain ⟨j, -, hcode⟩ := Program.ofTextWithin_of_open (noStray_code.2 hs)
      (nestedBelow_code.2 hn) (by rwa [balance_code])
    rw [hr, hcode]
    trivial
  -- The text without comments is the text of the program that was read.
  · obtain ⟨q, hq, hbare⟩ := Program.ofTextWithin_source (Program.native_of_ofTextWithin hr)
      (Program.depth_lt_of_ofTextWithin hbound hr)
    rw [Program.source_of_ofTextWithin hr] at hq
    rw [hr, hq]
    exact Program.same_eq_true_iff.2 ⟨Program.native_of_ofTextWithin hq, hbare⟩

end TapeLang
