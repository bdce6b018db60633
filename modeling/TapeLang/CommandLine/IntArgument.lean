import TapeLang.Text.Blank
import TapeLang.Text.Digit

/-!
# Integers on the command line

An integer argument has white space around it, a sign, and digits of any script with single
underscores between them. Numbers of more than `Text.maxDigits` digits are refused.
-/

namespace TapeLang.CommandLine

/-- Read digits on: `read` is the number so far, and `afterDigit` says whether a digit came last,
behind which an underscore or the end may stand. -/
def readDigits (read : Nat) (afterDigit : Bool) : List Char → Option Nat
  | [] => if afterDigit then some read else none
  | c :: rest =>
    if c = '_' then (if afterDigit then readDigits read false rest else none)
    else
      match Text.digit? c with
      | some d => readDigits (10 * read + d) true rest
      | none => none

/-- The number that a text without a sign stands for. -/
def readNatural (text : List Char) : Option Nat :=
  if Text.maxDigits < (text.filter (· ≠ '_')).length then none else readDigits 0 false text

/-- The integer that an argument stands for. -/
def readInt (text : List Char) : Option Int :=
  match Text.trimBy Text.isSpace text with
  | '-' :: digits => (readNatural digits).map fun n => -(n : Int)
  | '+' :: digits => (readNatural digits).map fun n => (n : Int)
  | digits => (readNatural digits).map fun n => (n : Int)

end TapeLang.CommandLine
