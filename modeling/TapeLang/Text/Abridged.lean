import TapeLang.Text.Utf8

/-!
# Abridged text

A long text is shown by its beginning and its end. Lengths count the bytes of UTF-8, and no
character is cut.
-/

namespace TapeLang.Text

/-- The first characters of a text that fit into some number of bytes. -/
def takeBytes (room : Nat) : List Char → List Char
  | [] => []
  | c :: rest =>
    let size := (encodeChar c).length
    if size ≤ room then c :: takeBytes (room - size) rest else []

/-- A text of more than fifty bytes keeps what fits into its first twenty-five and its last
twenty-four bytes. -/
def abridge (text : List Char) : List Char :=
  if (encode text).length ≤ 50 then text
  else takeBytes 25 text ++ "...".toList ++ (takeBytes 24 text.reverse).reverse

end TapeLang.Text
