import TapeLang.Program.Basic

/-!
# Listings

All instructions of a program in the order of its text, each with its character, its place and
the number of loops around it.
-/

namespace TapeLang

/-- One line of a listing. -/
structure ListingEntry where
  /-- The character of the instruction; a loop shows its opening bracket. -/
  char : Char
  /-- Where it was read. -/
  place : Option Span
  /-- The number of loops around it. -/
  depth : Nat
  deriving DecidableEq, Repr

namespace Program

/-- The instructions in the order of the text, when `depth` loops surround the program. Foreign
instructions have no character and are left out. -/
def listingFrom (depth : Nat) : Program → List ListingEntry
  | nil => []
  | command c s rest => ⟨c.char, s, depth⟩ :: rest.listingFrom depth
  | loop b s rest => ⟨'[', s, depth⟩ :: (b.listingFrom (depth + 1) ++ rest.listingFrom depth)
  | foreign _ rest => rest.listingFrom depth

/-- The instructions in the order of the text. -/
def listing (p : Program) : List ListingEntry :=
  p.listingFrom 0

end Program

end TapeLang
