import TapeLang.Text.Blank
import TapeLang.Text.Lines

/-!
# Settings files

A settings file binds names to values, one statement after the other. A statement is a comment, or
a name with or without a value; `export` may stand before the name, blanks may stand around the
equals sign, and a note may follow. Values may be quoted, and a quoted value may hold escapes and
line breaks. A statement that breaks these rules is skipped to the end of its line.

`DotEnv.read` cuts a text into statements. What the bindings mean together, and what references in
them stand for, is said by `Bindings.ofPairs`.
-/

namespace TapeLang

/-- A statement of a settings file. -/
inductive Statement
  /-- A comment, or blanks at the end. -/
  | empty
  /-- A name, and a value if an equals sign follows. -/
  | binding (name : List Char) (value : Option (List Char))
  /-- A statement that breaks the rules. The line is that of the first character behind the
  statement before it, even if blank lines follow there. -/
  | broken (line : Nat)
  deriving DecidableEq, Repr

namespace DotEnv

/-- Blanks within a line. -/
def isInlineBlank (c : Char) : Bool :=
  Text.isBlank c && c ≠ '\n'

/-- What follows the current line. -/
def nextLine (text : List Char) : List Char :=
  (text.dropWhile (· ≠ '\n')).drop 1

/-! ## Names -/

/-- Drop the word `export` if blanks follow it. -/
def dropExport : List Char → List Char
  | 'e' :: 'x' :: 'p' :: 'o' :: 'r' :: 't' :: c :: rest =>
    if isInlineBlank c then rest.dropWhile isInlineBlank
    else 'e' :: 'x' :: 'p' :: 'o' :: 'r' :: 't' :: c :: rest
  | text => text

/-- Whether a character may stand in a name that is not quoted. -/
def isNameChar (c : Char) : Bool :=
  c ≠ '=' && c ≠ '#' && !Text.isBlank c

/-- The name at the beginning of a text, and what follows it; a comment has none. -/
def readName : List Char → Option (Option (List Char) × List Char)
  | '#' :: rest => some (none, '#' :: rest)
  | '\'' :: rest =>
    match rest.takeWhile (· ≠ '\''), rest.dropWhile (· ≠ '\'') with
    | name@(_ :: _), _ :: rest => some (some name, rest)
    | _, _ => none
  | text =>
    match text.takeWhile isNameChar with
    | [] => none
    | name => some (some name, text.dropWhile isNameChar)

/-! ## Values -/

/-- The text up to the closing quote, and what follows that. The character behind a backslash, be
it a quote or a line break, does not close. -/
def readQuoted (quote : Char) : List Char → Option (List Char × List Char)
  | [] => none
  | '\\' :: c :: rest => (readQuoted quote rest).map fun r => ('\\' :: c :: r.1, r.2)
  | c :: rest =>
    if c = quote then some ([], rest)
    else if c = '\\' then none
    else (readQuoted quote rest).map fun r => (c :: r.1, r.2)

/-- The escapes of a value in single quotes. -/
def singleEscape? (c : Char) : Option Char :=
  if c = '\\' || c = '\'' then some c else none

/-- The escapes of a value in double quotes. -/
def doubleEscape? (c : Char) : Option Char :=
  if c = '\\' || c = '\'' || c = '"' then some c
  else if c = 'a' then some '\x07'
  else if c = 'b' then some '\x08'
  else if c = 'f' then some '\x0c'
  else if c = 'n' then some '\n'
  else if c = 'r' then some '\r'
  else if c = 't' then some '\t'
  else if c = 'v' then some '\x0b'
  else none

/-- Replace the escapes of a value; a backslash that begins none stays. -/
def unescape (escape? : Char → Option Char) : List Char → List Char
  | '\\' :: c :: rest =>
    match escape? c with
    | some d => d :: unescape escape? rest
    | none => '\\' :: unescape escape? (c :: rest)
  | c :: rest => c :: unescape escape? rest
  | [] => []

/-- Cut off a note: blanks, a number sign, and all that follows. -/
def cutNote : List Char → List Char
  | [] => []
  | c :: rest =>
    if Text.isBlank c && (rest.dropWhile Text.isBlank).head? = some '#' then []
    else c :: cutNote rest

/-- A value without quotes: the rest of the line without a note, and what follows it. -/
def readBare (text : List Char) : List Char × List Char :=
  (Text.strip (cutNote (text.takeWhile (· ≠ '\n'))), text.dropWhile (· ≠ '\n'))

/-- The value behind an equals sign, and what follows it. The failure says where reading has
stopped. -/
def readValue (text : List Char) : Except (List Char) (List Char × List Char) :=
  match text.dropWhile isInlineBlank with
  | '\'' :: rest =>
    match readQuoted '\'' rest with
    | some (value, after) => .ok (unescape singleEscape? value, after)
    | none => .error ('\'' :: rest)
  | '"' :: rest =>
    match readQuoted '"' rest with
    | some (value, after) => .ok (unescape doubleEscape? value, after)
    | none => .error ('"' :: rest)
  -- The blanks before a bare value count, because a note needs them.
  | _ => .ok (readBare text)

/-! ## Statements -/

/-- What follows the end of a statement: only blanks and a comment may come before the line break.
The failure says where reading has stopped. -/
def endStatement (text : List Char) : Except (List Char) (List Char) :=
  let text := text.dropWhile isInlineBlank
  let text := if text.head? = some '#' then text.dropWhile (· ≠ '\n') else text
  match text with
  | [] => .ok []
  | c :: rest => if c = '\n' then .ok rest else .error text

/-- The value of a statement, whose name has been read, and what follows the statement. -/
def readBinding (text : List Char) : Except (List Char) (Option (List Char) × List Char) :=
  match text.dropWhile isInlineBlank with
  | '=' :: rest =>
    match readValue rest with
    | .ok (value, after) => (endStatement after).map fun after => (some value, after)
    | .error stopped => .error stopped
  | text => (endStatement text).map fun after => (none, after)

/-- The first statement of a text that begins at a line, and what follows it. -/
def readStatement (line : Nat) (text : List Char) : Statement × List Char :=
  match text.dropWhile Text.isBlank with
  | [] => (.empty, [])
  | text =>
    let text := dropExport text
    match readName text with
    | none => (.broken line, nextLine text)
    | some (name, after) =>
      match name, readBinding after with
      | some name, .ok (value, after) => (.binding name value, after)
      | none, .ok (_, after) => (.empty, after)
      | _, .error stopped => (.broken line, nextLine stopped)

/-- The statements of the end of a text, at most as many as `fuel`; `last` is the last line of the
whole text, so that the line breaks still to come tell where a statement begins. -/
def readStatements (last : Nat) (fuel : Nat) (text : List Char) : List Statement :=
  match fuel, text with
  | 0, _ => []
  | _, [] => []
  | fuel + 1, text =>
    let (statement, rest) := readStatement (last - text.count '\n') text
    statement :: readStatements last fuel rest

/-- A text without the mark with which its encoding may begin. -/
def dropMark : List Char → List Char
  | '\ufeff' :: rest => rest
  | text => text

/-- The statements of a settings file. Every statement takes at least one character, so there are
at most as many as characters. -/
def read (text : List Char) : List Statement :=
  let text := Text.unifyBreaks (dropMark text)
  readStatements (text.count '\n' + 1) text.length text

/-- The names and values of a file, in their order. -/
def pairs (file : List Statement) : List (List Char × Option (List Char)) :=
  file.filterMap fun
    | .binding name value => some (name, value)
    | .empty | .broken _ => none

/-- The lines of the broken statements of a file. -/
def brokenLines (file : List Statement) : List Nat :=
  file.filterMap fun
    | .broken line => some line
    | .empty | .binding _ _ => none

end DotEnv

end TapeLang
