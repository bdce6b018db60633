/-!
# Limits of the runtime

What a caller can be denied although nothing is wrong with a program: every activity that follows
the nesting of loops gives up at some depth, and there is memory for some tapes only. Where this
happens is not for the language to say, so everything that depends on it is given a `Limits`.

Depth is counted in loops. The runtime counts the calls of its own that are pending, and helpers
that are called inside of a loop count among them, so a bound in loops is an idealisation: within a
few loops of the bound the runtime may also give up at a command, in a check or while it makes
another error.
-/

namespace TapeLang

/-- Where the runtime gives up. -/
structure Limits where
  /-- Reading a text: this many open brackets are too many. -/
  reading : Nat
  /-- Running: no more than this many loops are entered at the same time. -/
  running : Nat
  /-- Printing as a symbolic expression. -/
  printing : Nat
  /-- Counting, and writing canonical source text. -/
  walking : Nat
  /-- Writing as a term. -/
  showing : Nat
  /-- Comparing with another program. -/
  comparing : Nat
  /-- Whether there is memory for a tape of so many cells. -/
  hasRoom : Nat → Bool

/-- Sample limits, by which the executable goes: of the size that the runtime has, but not exactly
those of any one version of it, or of any one caller. -/
def Limits.sample : Limits where
  reading := 990
  running := 490
  printing := 330
  walking := 990
  showing := 240
  comparing := 240
  hasRoom cells := cells ≤ 0x200000000

end TapeLang
