/-!
# Blanks

Two sets of blank characters. `isSpace` is the Unicode property White_Space. `isBlank` adds the
four information separators, U+001C to U+001F.
-/

namespace TapeLang.Text

/-- The characters of the Unicode property White_Space. -/
def isSpace (c : Char) : Bool :=
  let n := c.toNat
  (0x09 ≤ n && n ≤ 0x0D) || n = 0x20 || n = 0x85 || n = 0xA0 || n = 0x1680 ||
    (0x2000 ≤ n && n ≤ 0x200A) || n = 0x2028 || n = 0x2029 || n = 0x202F || n = 0x205F ||
    n = 0x3000

/-- White space and the information separators. -/
def isBlank (c : Char) : Bool :=
  isSpace c || (0x1C ≤ c.toNat && c.toNat ≤ 0x1F)

/-- Drop the characters of a class at the end of a text. -/
def trimEndBy (drop : Char → Bool) : List Char → List Char
  | [] => []
  | c :: rest =>
    match trimEndBy drop rest with
    | [] => if drop c then [] else [c]
    | kept => c :: kept

/-- Drop the characters of a class at both ends of a text. -/
def trimBy (drop : Char → Bool) (text : List Char) : List Char :=
  trimEndBy drop (text.dropWhile drop)

/-- Drop the blanks at both ends of a text. -/
def strip (text : List Char) : List Char :=
  trimBy isBlank text

/-- White space is blank. -/
theorem isBlank_of_isSpace {c : Char} (h : isSpace c = true) : isBlank c = true := by
  simp [isBlank, h]

end TapeLang.Text
