import TapeLang.Text.Quoted

/-!
# UTF-8

Reading and writing UTF-8. `decode` accepts exactly the shortest forms of the characters, and says
of the first fault where it begins, how many bytes belong to it, and of which kind it is: a byte
that can begin no character, a byte that cannot continue the character begun, or the end of the
data inside a character.
-/

namespace TapeLang.Text

/-- The kinds of faults in UTF-8 data. -/
inductive Utf8Fault
  /-- No character begins with this byte. -/
  | invalidStart
  /-- The byte behind these does not continue the character. -/
  | invalidContinuation
  /-- The data end inside a character. -/
  | unexpectedEnd
  deriving DecidableEq, Repr

/-- The wording of a fault. -/
def Utf8Fault.message : Utf8Fault → String
  | invalidStart => "invalid start byte"
  | invalidContinuation => "invalid continuation byte"
  | unexpectedEnd => "unexpected end of data"

/-- The first fault of some data. -/
structure Utf8Error where
  /-- The position of its first byte. -/
  start : Nat
  /-- The bytes that belong to it. -/
  bytes : List UInt8
  /-- Its kind. -/
  fault : Utf8Fault
  deriving DecidableEq, Repr

/-- The wording of an error: a single byte is shown, several bytes are named by their positions. -/
def Utf8Error.message (e : Utf8Error) : String :=
  let reason := e.fault.message
  let first := e.start
  match e.bytes with
  | [b] =>
    let shown := String.ofList (hex 2 b.toNat)
    s!"'utf-8' codec can't decode byte 0x{shown} in position {first}: {reason}"
  | bytes =>
    let last := first + bytes.length - 1
    s!"'utf-8' codec can't decode bytes in position {first}-{last}: {reason}"

/-- How a character goes on behind its first byte. -/
structure Utf8Lead where
  /-- The bits of the first byte. -/
  bits : Nat
  /-- The least and the greatest second byte. -/
  second : Nat × Nat
  /-- The number of bytes behind the second. -/
  more : Nat

/-- What the first byte of a character of several bytes says. The ranges of second bytes leave out
longer forms of smaller characters, surrogates, and numbers past the last character. -/
def utf8Lead? (b : Nat) : Option Utf8Lead :=
  if 0xC2 ≤ b ∧ b ≤ 0xDF then some ⟨b - 0xC0, (0x80, 0xBF), 0⟩
  else if b = 0xE0 then some ⟨b - 0xE0, (0xA0, 0xBF), 1⟩
  else if b = 0xED then some ⟨b - 0xE0, (0x80, 0x9F), 1⟩
  else if 0xE1 ≤ b ∧ b ≤ 0xEF then some ⟨b - 0xE0, (0x80, 0xBF), 1⟩
  else if b = 0xF0 then some ⟨b - 0xF0, (0x90, 0xBF), 2⟩
  else if 0xF1 ≤ b ∧ b ≤ 0xF3 then some ⟨b - 0xF0, (0x80, 0xBF), 2⟩
  else if b = 0xF4 then some ⟨b - 0xF0, (0x80, 0x8F), 2⟩
  else none

/-- The least and the greatest byte of each further place of a character. -/
def Utf8Lead.ranges (l : Utf8Lead) : List (Nat × Nat) :=
  l.second :: List.replicate l.more (0x80, 0xBF)

/-- A character whose further bytes are still to be read. -/
structure Utf8Pending where
  /-- The position of its first byte. -/
  start : Nat
  /-- The bytes read, last byte first. -/
  bytes : List UInt8
  /-- The bits read. -/
  bits : Nat
  /-- The ranges of the bytes still to come. -/
  ranges : List (Nat × Nat)

/-- Read UTF-8 data from a position on, inside a character if one is pending. -/
def decodeFrom (position : Nat) (pending : Option Utf8Pending) :
    List UInt8 → Except Utf8Error (List Char)
  | [] =>
    match pending with
    | none => .ok []
    | some p => .error ⟨p.start, p.bytes.reverse, .unexpectedEnd⟩
  | b :: rest =>
    match pending with
    | none =>
      if b.toNat < 0x80 then
        (decodeFrom (position + 1) none rest).map (Char.ofNat b.toNat :: ·)
      else
        match utf8Lead? b.toNat with
        | none => .error ⟨position, [b], .invalidStart⟩
        | some l => decodeFrom (position + 1) (some ⟨position, [b], l.bits, l.ranges⟩) rest
    | some p =>
      match p.ranges with
      | [] => .error ⟨p.start, p.bytes.reverse, .unexpectedEnd⟩
      | (least, greatest) :: ranges =>
        if least ≤ b.toNat ∧ b.toNat ≤ greatest then
          let bits := p.bits * 64 + (b.toNat - 0x80)
          match ranges with
          | [] => (decodeFrom (position + 1) none rest).map (Char.ofNat bits :: ·)
          | _ => decodeFrom (position + 1) (some ⟨p.start, b :: p.bytes, bits, ranges⟩) rest
        else .error ⟨p.start, p.bytes.reverse, .invalidContinuation⟩

/-- The text that some bytes stand for. -/
def decode (bytes : List UInt8) : Except Utf8Error (List Char) :=
  decodeFrom 0 none bytes

/-- The bytes of a character. -/
def encodeChar (c : Char) : List UInt8 :=
  let n := c.toNat
  if n < 0x80 then [UInt8.ofNat n]
  else if n < 0x800 then [UInt8.ofNat (0xC0 + n / 64), UInt8.ofNat (0x80 + n % 64)]
  else if n < 0x10000 then
    [UInt8.ofNat (0xE0 + n / 4096), UInt8.ofNat (0x80 + n / 64 % 64), UInt8.ofNat (0x80 + n % 64)]
  else
    [UInt8.ofNat (0xF0 + n / 262144), UInt8.ofNat (0x80 + n / 4096 % 64),
      UInt8.ofNat (0x80 + n / 64 % 64), UInt8.ofNat (0x80 + n % 64)]

/-- The bytes of a text. -/
def encode (text : List Char) : List UInt8 :=
  text.flatMap encodeChar

end TapeLang.Text
