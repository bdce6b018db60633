import TapeLang.Text.Blank
import TapeLang.Text.Digit

/-!
# Integers in lenient spelling

Which texts stand for an integer. `ofCanonical` reads the canonical spelling: an optional minus
sign, then digits without a leading zero. `ofLenient` cleans a text that is not spelled so: it
trims white space, drops a plus sign, leading zeros and a fraction of zeros, and takes out
underscores between digits. Digits are ASCII digits, and there may not be too many of them, neither
as the text is given nor once it is cleaned.
-/

namespace TapeLang.IntText

/-- Why a text stands for no integer. -/
inductive Refusal
  /-- It is not spelled as one. -/
  | malformed
  /-- It begins with too many digits, whatever comes behind them. -/
  | tooLong
  deriving DecidableEq, Repr

/-- The greatest number of digits of an integer, its sign aside. -/
def maxDigits : Nat := 4300

/-- The number that a row of digits stands for; nothing if some character is no digit. -/
def value? (digits : List Char) : Option Nat :=
  digits.foldlM (fun n c => (Text.asciiDigit? c).map fun d => 10 * n + d) 0

/-- A number without a leading zero and of at most `maxDigits` digits. -/
def natural : List Char → Except Refusal Nat
  | [] => .error .malformed
  | ['0'] => .ok 0
  | '0' :: _ => .error .malformed
  | text =>
    if maxDigits < (text.takeWhile fun c => (Text.asciiDigit? c).isSome).length then .error .tooLong
    else
      match value? text with
      | some n => .ok n
      | none => .error .malformed

/-- An integer in canonical spelling. -/
def ofCanonical : List Char → Except Refusal Int
  | '-' :: digits => (natural digits).map fun n => -(n : Int)
  | digits => (natural digits).map fun n => (n : Int)

/-! ## Cleaning -/

/-- Drop the zeros behind a leading zero, and underscores among them, up to the first other digit
or a minus sign. If a fraction or the end comes first, the character before it is kept, which has
to be a zero to make a number. Other characters are refused. -/
def dropZeros (last : Char) : List Char → Option (List Char)
  | [] => some [last]
  | c :: rest =>
    if c = '0' || c = '_' then dropZeros c rest
    else if ('1' ≤ c ∧ c ≤ '9') ∨ c = '-' then some (c :: rest)
    else if c = '.' then some (last :: c :: rest)
    else none

/-- A text that begins like a number, without its leading zeros. -/
def dropLeadingZeros : List Char → Option (List Char)
  | [] => none
  | c :: rest =>
    if c = '0' then dropZeros c rest
    else if ('1' ≤ c ∧ c ≤ '9') ∨ c = '-' then some (c :: rest)
    else none

/-- Cut off a fraction of one or more zeros. -/
def dropZeroFraction (text : List Char) : List Char :=
  match text.dropWhile (· ≠ '.') with
  | [] => text
  | _ :: fraction =>
    if !fraction.isEmpty && fraction.all (· = '0') then text.takeWhile (· ≠ '.') else text

/-- Whether two underscores stand side by side. -/
def hasDoubleUnderscore : List Char → Bool
  | '_' :: '_' :: _ => true
  | _ :: rest => hasDoubleUnderscore rest
  | [] => false

/-- Take out single underscores, unless one stands at an end. -/
def dropUnderscores (text : List Char) : List Char :=
  if text.head? = some '_' || text.getLast? = some '_' || hasDoubleUnderscore text then text
  else text.filter (· ≠ '_')

/-- A text without a sign, cleaned. Underscores go last, so that one beside the point or at an end
is still there to be refused. -/
def cleanUnsigned (text : List Char) : Option (List Char) :=
  (dropLeadingZeros text).map fun text => dropUnderscores (dropZeroFraction text)

/-- A text cleaned; nothing comes of one that no cleaning can make canonical. -/
def clean (text : List Char) : Option (List Char) :=
  match Text.trimBy Text.isSpace text with
  | '+' :: '-' :: _ => none
  | '+' :: rest => cleanUnsigned rest
  | '-' :: rest => (cleanUnsigned rest).map ('-' :: ·)
  | rest => cleanUnsigned rest

/-- The integer that a text stands for in lenient spelling. Only a text that begins with too many
digits as it is given is too long; one that shows them when it is cleaned is malformed. -/
def ofLenient (text : List Char) : Except Refusal Int :=
  match ofCanonical text with
  | .error .malformed =>
    match (clean text).map ofCanonical with
    | some (.ok n) => .ok n
    | _ => .error .malformed
  | result => result

end TapeLang.IntText
