import TapeLang.Text.Quoted

/-!
# Sample programs

The texts of the bundled programs, known by name.
-/

namespace TapeLang

/-- The bundled programs, by rising name. -/
inductive Sample
  /-- One character is read and written. -/
  | echo
  /-- A greeting. -/
  | helloWorld
  /-- A signature. -/
  | jabh
  /-- A program that prints itself. -/
  | quine
  /-- A substitution cipher. -/
  | rot13
  deriving DecidableEq, Repr

/-- A name that no bundled program has. -/
structure UnknownSample where
  /-- The name. -/
  name : String
  deriving DecidableEq, Repr

namespace Sample

/-- All bundled programs, by rising name. -/
def all : List Sample :=
  [echo, helloWorld, jabh, quine, rot13]

/-- The name of a bundled program. -/
def name : Sample → String
  | echo => "echo"
  | helloWorld => "hello-world"
  | jabh => "jabh"
  | quine => "quine"
  | rot13 => "rot13"

/-- Prints `Hello World!` and a line feed. -/
def helloWorldText : String :=
    "++++++++++[>+++++++>++++++++++>+++>+<<<<-]>++.>+.+++++++..+++.>++.<<+++++++++++++++.>.++" ++
    "+.------.--------.>+.>."

/-- Reads a line and writes its first character. -/
def echoText : String :=
    ",."

/-- Prints `Just another brainfuck hacker,`. The text between the last brackets is a comment,
which stands in a loop that is never entered. -/
def jabhText : String :=
    "+++[>+++++<-]>[>+>+++>+>++>+++++>++<[++<]>---]>->-.[>++>+<<--]>--.--.+.>>>++.<<.<------." ++
    "+.+++++.>>-.<++++.<--.>>>.<<---.<.-->-.>+.[+++++.---<]>>[.--->]<<.<+.++.++>+++[.<][http:" ++
    "//www.hevanet.com/cristofd/brainfuck/]<."

/-- Prints its own text. -/
def quineText : String :=
    "->++>+++>+>+>+++>>>>>>>>>>>>>>>>>>>>+>+>++>+++>++>>+++>+>>>>>>>>>>>>>>>>>>>>>>>>>>>>>>>>" ++
    ">+>+>>+++>>+++>>>>>+++>+>>>>>>>>>++>+++>+++>+>>+++>>>+++>+>++>+++>>>+>+>++>+++>+>+>>+++>" ++
    ">>>>>>+>+>>>+>+>++>+++>+++>+>>+++>>>+++>+>++>+++>++>>+>+>++>+++>+>+>>+++>>>>>+++>+>>>>>+" ++
    "+>+++>+++>+>>+++>>>+++>+>+++>+>>+++>>+++>>++[[>>+[>]++>++[<]<-]>+[>]<+<+++[<]<+]>+[>]+++" ++
    "+>++[[<++++++++++++++++>-]<+++++++++.<]"

/-- Reads one character per line and prints its ROT13 counterpart; an empty line ends the program.
The character is counted down through a cascade of nested loops, the next of which is entered as
long as something is left of it. -/
def rot13Text : String :=
    ",[>+<-[>+<-[>+<-[>+<-[>+<-[>+<-[>+<-[>+<-[>+<-[>+<-[>+<-[>+<-[>+<-[>+<-[>+<-[>+<-[>+<-[>" ++
    "+<-[>+<-[>+<-[>+<-[>+<-[>+<-[>+<-[>+<-[>+<-[>+<-[>+<-[>+<-[>+<-[>+<-[>+<-[>+<-[>+<-[>+<-" ++
    "[>+<-[>+<-[>+<-[>+<-[>+<-[>+<-[>+<-[>+<-[>+<-[>+<-[>+<-[>+<-[>+<-[>+<-[>+<-[>+<-[>+<-[>+" ++
    "<-[>+<-[>+<-[>+<-[>+<-[>+<-[>+<-[>+<-[>+<-[>+<-[>+<-[>+<-[>++++++++++++++<-[>+<-[>+<-[>+" ++
    "<-[>+<-[>+<-[>+<-[>+<-[>+<-[>+<-[>+<-[>+<-[>+<-[>>+++++[<----->-]<<-[>+<-[>+<-[>+<-[>+<-" ++
    "[>+<-[>+<-[>+<-[>+<-[>+<-[>+<-[>+<-[>+<-[>++++++++++++++<-[>+<-[>+<-[>+<-[>+<-[>+<-[>+++" ++
    "+++++++++++<-[>+<-[>+<-[>+<-[>+<-[>+<-[>+<-[>+<-[>+<-[>+<-[>+<-[>+<-[>+<-[>>+++++[<-----" ++
    ">-]<<-[>+<-[>+<-[>+<-[>+<-[>+<-[>+<-[>+<-[>+<-[>+<-[>+<-[>+<-[>+<-[>++++++++++++++<-[>+<" ++
    "-]]]]]]]]]]]]]]]]]]]]]]]]]]]]]]]]]]]]]]]]]]]]]]]]]]]]]]]]]]]]]]]]]]]]]]]]]]]]]]]]]]]]]]]" ++
    "]]]]]]]]]]]]]]]]]]]]]]]]]]]]]]]]]]]]>.[-]<,]"

/-- The text of a bundled program. -/
def text : Sample → List Char
  | echo => echoText.toList
  | helloWorld => helloWorldText.toList
  | jabh => jabhText.toList
  | quine => quineText.toList
  | rot13 => rot13Text.toList

/-- The bundled program of a name. -/
def named (name : String) : Except UnknownSample Sample :=
  match all.find? fun s => s.name = name with
  | some s => .ok s
  | none => .error ⟨name⟩

end Sample

/-- The wording of the error. -/
def UnknownSample.message (e : UnknownSample) : String :=
  let known := String.intercalate ", " (Sample.all.map Sample.name)
  let shown := String.ofList (Text.quoted e.name.toList)
  s!"unknown sample {shown} (known: {known})"

end TapeLang
