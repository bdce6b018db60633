/-!
# Lines of a text

A text that a program reads is a series of code points: most of them are characters, but a text may
also hold surrogates, which are none. It is cut into lines after every line feed. `unifyBreaks` is
what a reader of text files does before that: the other two spellings of a line break become line
feeds. What comes from a file, an argument or a variable has been decoded, and consists of
characters.
-/

namespace TapeLang.Text

/-- A code point: the number of a character, or a surrogate. -/
abbrev CodePoint := Fin 0x110000

/-- Numerals can be code points. -/
instance CodePoint.neZero : @NeZero Nat Zero.ofOfNat0 0x110000 :=
  ⟨by decide⟩

/-- The number of a character. -/
def codePoint (c : Char) : CodePoint :=
  ⟨c.toNat, by
    rcases c.valid with h | ⟨-, h⟩
    · exact Nat.lt_trans h (by decide)
    · exact h⟩

/-- Whether a code point is no character. -/
def isSurrogate (c : CodePoint) : Bool :=
  0xD800 ≤ c.val && c.val ≤ 0xDFFF

/-- The code points of a text without surrogates. -/
def codePoints (text : List Char) : List CodePoint :=
  text.map codePoint

/-- The code point of a line feed. -/
def lineFeed : CodePoint := 10

/-- The code point of a carriage return. -/
def carriageReturn : CodePoint := 13

/-- The pieces of a text, each up to and including its line feed; a last piece without one is a
line if it is not empty. -/
def lines : List CodePoint → List (List CodePoint)
  | [] => []
  | c :: rest =>
    if c = lineFeed then [c] :: lines rest
    else
      match lines rest with
      | [] => [[c]]
      | l :: ls => (c :: l) :: ls

/-- Cutting a text into lines loses nothing. -/
theorem flatten_lines (text : List CodePoint) : (lines text).flatten = text := by
  induction text with
  | nil => rfl
  | cons c rest ih =>
    rw [lines]
    split
    · simp [ih]
    · cases h : lines rest with
      | nil => simp [h] at ih; simp [ih]
      | cons l ls => simp [h] at ih; simp [ih]

/-- Whether a code point belongs to a line break. -/
def isBreak (c : CodePoint) : Bool :=
  c = carriageReturn || c = lineFeed

/-- Drop the line breaks, however many, at the end of a line. -/
def chomp : List CodePoint → List CodePoint
  | [] => []
  | c :: rest =>
    match chomp rest with
    | [] => if isBreak c then [] else [c]
    | kept => c :: kept

/-- Every carriage return, with the line feed behind it if there is one, becomes a line feed. -/
def unifyBreaks : List Char → List Char
  | '\r' :: '\n' :: rest => '\n' :: unifyBreaks rest
  | c :: rest => (if c = '\r' then '\n' else c) :: unifyBreaks rest
  | [] => []

theorem codePoint_val (c : Char) : (codePoint c).val = c.toNat := rfl

/-- A text without surrogates is known by its code points. -/
theorem codePoints_injective {text text' : List Char} (h : codePoints text = codePoints text') :
    text = text' := by
  have hinj : ∀ c c', codePoint c = codePoint c' → c = c' := by
    intro c c' hc
    have hnumber : c.toNat = c'.toNat := congrArg (fun p : CodePoint => p.val) hc
    exact Char.toNat_inj.1 hnumber
  exact (List.map_inj_right hinj).1 h

/-- A code point that is no surrogate is the one of a character. -/
theorem codePoint_ofNat {c : CodePoint} (h : isSurrogate c = false) :
    codePoint (Char.ofNat c.val) = c := by
  have hvalid : c.val.isValidChar := by
    have hlt := c.isLt
    rw [← Bool.not_eq_true, isSurrogate] at h
    simp only [Bool.and_eq_true, decide_eq_true_eq] at h
    unfold Nat.isValidChar
    omega
  refine Fin.ext ?_
  rw [codePoint_val, Char.ofNat, dif_pos hvalid]
  rfl

end TapeLang.Text
