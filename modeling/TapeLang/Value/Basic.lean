import TapeLang.Text.Digit
import TapeLang.Text.Quoted
import TapeLang.Value.Binary

/-!
# Values

A caller may hand over values of any kind: as the fields of a run configuration, and as the
particulars of an error. `Value.shown` writes a value so that its kind can be told, and
`Value.plain` writes it as a part of a message, where a text stands for itself. Neither can be done
if the value holds an integer of too many digits (`Value.isWritable`).
-/

namespace TapeLang

mutual

/-- A value. -/
inductive Value
  /-- No value. -/
  | null
  /-- A truth value. -/
  | bool (b : Bool)
  /-- An integer. -/
  | int (n : Int)
  /-- A binary fraction. -/
  | binary (b : Binary)
  /-- What stands for a number that is too large for a binary fraction. -/
  | infinite (negative : Bool)
  /-- What stands for a number that is undefined. -/
  | undefined
  /-- A text. -/
  | text (cs : List Char)
  /-- A list. -/
  | list (items : Items)
  /-- Values under names. -/
  | record (entries : Entries)
  deriving DecidableEq, Repr, Inhabited

/-- The items of a list. -/
inductive Items
  /-- No items. -/
  | nil
  /-- An item and those behind it. -/
  | cons (item : Value) (rest : Items)
  deriving DecidableEq, Repr, Inhabited

/-- The entries of a record, no two of which have the same name. -/
inductive Entries
  /-- No entries. -/
  | nil
  /-- An entry and those behind it. -/
  | cons (name : String) (value : Value) (rest : Entries)
  deriving DecidableEq, Repr, Inhabited

end

/-- The names of a record with their values. -/
def Entries.toList : Entries → List (String × Value)
  | nil => []
  | cons name value rest => (name, value) :: rest.toList

namespace Value

/-- A list without items. -/
def emptyList : Value := list .nil

/-- The word for the kind of a value. -/
def kindWord : Value → String
  | null => "NoneType"
  | bool _ => "bool"
  | int _ => "int"
  | binary _ | infinite _ | undefined => "float"
  | text _ => "str"
  | list _ => "list"
  | record _ => "dict"

end Value

/-- Texts in a row, with a comma and a blank between them. -/
def commaSeparated (texts : List (List Char)) : List Char :=
  List.intercalate [',', ' '] texts

mutual

/-- A value as a text that tells its kind. -/
def Value.shown : Value → List Char
  | .null => "None".toList
  | .bool b => (if b then "True" else "False").toList
  | .int n => (toString n).toList
  | .binary b => b.shown
  | .infinite negative => (if negative then "-inf" else "inf").toList
  | .undefined => "nan".toList
  | .text cs => Text.quoted cs
  | .list items => '[' :: commaSeparated items.shown ++ [']']
  | .record entries => '\x7b' :: commaSeparated entries.shown ++ ['\x7d']

/-- The items of a list as texts. -/
def Items.shown : Items → List (List Char)
  | .nil => []
  | .cons item rest => item.shown :: rest.shown

/-- The entries of a record as texts. -/
def Entries.shown : Entries → List (List Char)
  | .nil => []
  | .cons name value rest => (Text.quoted name.toList ++ ':' :: ' ' :: value.shown) :: rest.shown

end

/-- A value as a part of a message. -/
def Value.plain : Value → String
  | .text cs => String.ofList cs
  | value => String.ofList value.shown

mutual

/-- Whether a value can be written: every integer in it can. -/
def Value.isWritable : Value → Bool
  | .int n => Text.isWritable n
  | .list items => items.areWritable
  | .record entries => entries.areWritable
  | .null | .bool _ | .binary _ | .infinite _ | .undefined | .text _ => true

/-- Whether all items of a list can be written. -/
def Items.areWritable : Items → Bool
  | .nil => true
  | .cons item rest => item.isWritable && rest.areWritable

/-- Whether all values of a record can be written. -/
def Entries.areWritable : Entries → Bool
  | .nil => true
  | .cons _ value rest => value.isWritable && rest.areWritable

end

end TapeLang
