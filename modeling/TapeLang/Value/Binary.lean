/-!
# Binary fractions

A binary fraction is a significand times a power of two, with a sign, so that there are two zeros.
It is written with the fewest digits that lead back to it (`Binary.shortest`): a decimal leads
back to the fraction nearest to it, and of two that are equally near to the one whose significand
is even. Significands have at most 53 bits, and exponents are at least -1074.
-/

namespace TapeLang

/-- A number in decimal digits: `digits` times ten to the power of `exponent`. -/
structure Decimal where
  /-- The digits, read as one number. -/
  digits : Nat
  /-- The power of ten that the last digit counts. -/
  exponent : Int
  deriving DecidableEq, Repr, Inhabited

namespace Decimal

/-- The digits of a number that is smaller than one or has a fraction, with a point among them:
`point` is the number of digits before the point, and negative if zeros follow it. -/
def positional (digits : List Char) (point : Int) : List Char :=
  if point ≤ 0 then '0' :: '.' :: List.replicate (-point).toNat '0' ++ digits
  else if digits.length ≤ point.toNat then
    digits ++ List.replicate (point.toNat - digits.length) '0' ++ ['.', '0']
  else digits.take point.toNat ++ '.' :: digits.drop point.toNat

/-- The digits of a number with a point behind the first one, and a power of ten. -/
def scientific (digits : List Char) (power : Int) : List Char :=
  let fraction := digits.drop 1
  let places := Nat.toDigits 10 power.natAbs
  digits.take 1 ++ (if fraction.isEmpty then [] else '.' :: fraction) ++
    'e' :: (if power < 0 then '-' else '+') :: List.replicate (2 - places.length) '0' ++ places

/-- A decimal as a text: numbers from a ten-thousandth up to sixteen digits before the point have
no power of ten. -/
def shown (d : Decimal) : List Char :=
  let digits := Nat.toDigits 10 d.digits
  let point := digits.length + d.exponent
  if -4 < point ∧ point ≤ 16 then positional digits point else scientific digits (point - 1)

end Decimal

/-- A binary fraction. -/
structure Binary where
  /-- Whether it has a minus sign. -/
  negative : Bool
  /-- The significand. -/
  significand : Nat
  /-- The power of two that the significand counts. -/
  exponent : Int
  deriving DecidableEq, Repr, Inhabited

namespace Binary

/-- Whether a fraction is zero, with or without a sign. -/
def isZero (b : Binary) : Bool :=
  b.significand = 0

/-- The integer that a fraction is, if it is whole. -/
def toInt? (b : Binary) : Option Int :=
  let unit := Nat.pow 2 (-b.exponent).toNat
  if b.significand % unit = 0 then
    let n : Nat := b.significand / unit * Nat.pow 2 b.exponent.toNat
    some (if b.negative then -n else n)
  else none

/-! ## Shortest digits

Distances are counted in quarters of the last place, so that the points halfway to the neighbours
are whole numbers. -/

/-- The least exponent. -/
def leastExponent : Int := -1074

/-- The least significand of full length. -/
def leastFull : Nat := 0x10000000000000

/-- The distance to the point halfway to the neighbour below. The neighbour is nearer if a power
of two lies between. -/
def halfBelow (b : Binary) : Nat :=
  if b.significand = leastFull ∧ leastExponent < b.exponent then 1 else 2

/-- The distance to the point halfway to the neighbour above. -/
def halfAbove : Nat := 2

/-- What one unit of a decimal with this exponent counts, in the common unit. -/
def decimalUnit (b : Binary) (exponent : Int) : Nat :=
  Nat.pow 10 exponent.toNat * Nat.pow 2 (2 - b.exponent).toNat

/-- What a quarter of the last place counts, in the common unit. -/
def quarter (b : Binary) (exponent : Int) : Nat :=
  Nat.pow 10 (-exponent).toNat * Nat.pow 2 (b.exponent - 2).toNat

/-- Whether a decimal leads back to a fraction, signs aside. -/
def leadsBack (b : Binary) (d : Decimal) : Bool :=
  let here := d.digits * b.decimalUnit d.exponent
  let low := (4 * b.significand - b.halfBelow) * b.quarter d.exponent
  let high := (4 * b.significand + halfAbove) * b.quarter d.exponent
  if b.significand % 2 = 0 then low ≤ here && here ≤ high else low < here && here < high

/-- The decimal with this exponent that is nearest to a fraction among those that lead back to it;
of two that are equally near it is the even one. -/
def nearest? (b : Binary) (exponent : Int) : Option Decimal :=
  let unit := b.decimalUnit exponent
  let here := 4 * b.significand * b.quarter exponent
  let below : Decimal := ⟨here / unit, exponent⟩
  let above : Decimal := ⟨here / unit + 1, exponent⟩
  match b.leadsBack below, b.leadsBack above with
  | false, false => none
  | true, false => some below
  | false, true => some above
  | true, true =>
    let rest := here % unit
    if 2 * rest < unit then some below
    else if unit < 2 * rest then some above
    else if below.digits % 2 = 0 then some below
    else some above

/-- The first decimal that leads back to a fraction, if exponents are tried from this one downwards
and at most as many as `fuel`. -/
def shortestFrom (b : Binary) : (fuel : Nat) → (exponent : Int) → Decimal
  | 0, exponent => ⟨0, exponent⟩
  | fuel + 1, exponent =>
    match b.nearest? exponent with
    | some d => d
    | none => b.shortestFrom fuel (exponent - 1)

/-- The shortest decimal that leads back to a fraction other than zero. The greatest fraction is
less than ten to the power of 309, and no fraction needs an exponent less than -324. -/
def shortest (b : Binary) : Decimal :=
  b.shortestFrom 634 309

/-- A fraction as a text. -/
def shown (b : Binary) : List Char :=
  (if b.negative then ['-'] else []) ++
    if b.isZero then ['0', '.', '0'] else b.shortest.shown

end Binary

end TapeLang
