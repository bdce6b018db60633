import Mathlib.Data.Nat.Find
import Mathlib.Order.Bounds.Basic
import TapeLang.Proofs.Evaluate
import TapeLang.Proofs.Machine.Frame
import TapeLang.Proofs.Machine.Input
import TapeLang.Proofs.Machine.Leads
import TapeLang.Samples

/-!
# The substitution cipher

The sample `rot13` turns the first code point of every line into its ROT13 counterpart, up to the
first line that has none, or to the first one that begins with a surrogate, which cannot be written
(`rot13_lines`).

Its text is one loop around a cascade of 123 more, each inside of the last (`Rot13.cascade`). A loop
of the cascade counts the code point down by one and adds to the second cell; as most of them add
one, the second cell follows the number that was counted down, but where the alphabet is halved or
ends it goes up by 14 or down by 25. The innermost loop copies whatever is left (`Rot13.cascaded`).

Three cells suffice for all this, and on a larger tape the program does the same.
-/

namespace TapeLang

open Text (CodePoint codePoint codePoints inputPoint isSurrogate)

/-- The ROT13 counterpart of a code point: letters of the first half of the alphabet and letters of
the second half trade places, and every other code point stays. -/
def rot13 (c : CodePoint) : CodePoint :=
  if codePoint 'A' ≤ c ∧ c ≤ codePoint 'M' ∨ codePoint 'a' ≤ c ∧ c ≤ codePoint 'm' then c + 13
  else if codePoint 'N' ≤ c ∧ c ≤ codePoint 'Z' ∨ codePoint 'n' ≤ c ∧ c ≤ codePoint 'z' then c - 13
  else c

namespace Rot13

open Program (Leads Fails)

/-! ## The program -/

/-- What one loop of the cascade does before it goes on to the next. -/
inductive Rung
  /-- The sum goes on with the character. -/
  | plain
  /-- The sum goes up to the second half of the alphabet. -/
  | rise
  /-- The sum goes down to the first half of the alphabet. -/
  | fall
  deriving DecidableEq, Repr

/-- What is added to the second cell when one is taken from the first. -/
def Rung.shift : Rung → Int
  | plain => 1
  | rise => 14
  | fall => -25

/-- Five are taken from the second cell and one from the third. -/
def takeFive : List Command :=
  [.left, .decrement, .decrement, .decrement, .decrement, .decrement, .right, .decrement]

def Rung.program : Rung → Program
  | plain => .ofCommands [.right, .increment, .left, .decrement]
  | rise =>
    .ofCommands ([Command.right] ++ List.replicate 14 Command.increment ++
      [Command.left, Command.decrement])
  | fall =>
    .ofCommands [.right, .right, .increment, .increment, .increment, .increment, .increment] ++
      (.loop (.ofCommands takeFive) none .nil ++ .ofCommands [.left, .left, .decrement])

/-- Loops inside of each other, the last of which adds one as long as there is something to count
down. -/
def cascade : List Rung → Program
  | [] => Rung.plain.program
  | r :: rest => r.program ++ .loop (cascade rest) none .nil

/-- The rungs behind the first one. The second cell runs ahead of the character from `A` on, is
behind it from `N` on, and level again behind `Z`, and so with the small letters. -/
def rungs : List Rung :=
  [(63, Rung.rise), (12, Rung.fall), (12, Rung.rise), (5, Rung.rise), (12, Rung.fall),
    (12, Rung.rise)].flatMap fun (n, jump) => List.replicate n .plain ++ [jump]

/-- The loop that empties the current cell. -/
def drain : Program :=
  .loop (.ofCommands [.decrement]) none .nil

/-- One turn of the outermost loop: the counterpart of the character in the first cell is made in
the second cell, written and deleted, and a line is read. -/
def turn : Program :=
  cascade (.plain :: rungs) ++
    (.ofCommands [.right, .output] ++ (drain ++ .ofCommands [.left, .input]))

def program : Program :=
  .ofCommands [.input] ++ .loop turn none .nil

theorem native_program : program.native = true := by
  decide +kernel

theorem depth_program : program.depth = 124 := by
  decide +kernel

/-! ## Its text -/

theorem source_cascade (rs : List Rung) :
    (cascade rs).source =
      rs.flatMap (fun r => r.program.source ++ ['[']) ++
        (Rung.plain.program.source ++ List.replicate rs.length ']') := by
  induction rs with
  | nil => simp [cascade]
  | cons r rest ih => simp [cascade, Program.source, ih, List.replicate_succ']

/-- The text of the program, with the cascade written out. -/
def text : List Char :=
  [',', '['] ++ ((Rung.plain :: rungs).flatMap (fun r => r.program.source ++ ['[']) ++
    (Rung.plain.program.source ++ List.replicate (rungs.length + 1) ']')) ++
    ['>', '.', '[', '-', ']', '<', ',', ']']

theorem source_program : program.source = text := by
  have hrest : (Program.ofCommands [.right, .output] ++
      (drain ++ .ofCommands [.left, .input])).source = ['>', '.', '[', '-', ']', '<', ','] := rfl
  have hprogram : program.source = [',', '['] ++ turn.source ++ [']'] := by
    simp only [program, Program.ofCommands, Program.source_append, Program.source]
    rfl
  rw [hprogram, turn, Program.source_append, hrest, source_cascade, text]
  simp only [List.length_cons, List.append_assoc, List.cons_append, List.nil_append]

/-- A row of the listing of the text. -/
def row (k : Nat) : List Char :=
  (text.drop (88 * k)).take 88

set_option maxRecDepth 4000 in
/-- The bundled text is the text of the program. -/
theorem text_rot13 : Sample.text .rot13 = program.source := by
  -- Row by row, because comparing strings of this length at once takes too long.
  have hrows : Sample.rot13Text = String.ofList (row 0) ++ String.ofList (row 1) ++
      String.ofList (row 2) ++ String.ofList (row 3) ++ String.ofList (row 4) ++
      String.ofList (row 5) ++ String.ofList (row 6) ++ String.ofList (row 7) ++
      String.ofList (row 8) ++ String.ofList (row 9) :=
    rfl
  have htext : row 0 ++ row 1 ++ row 2 ++ row 3 ++ row 4 ++ row 5 ++ row 6 ++ row 7 ++ row 8 ++
      row 9 = text := by
    decide +kernel
  rw [Sample.text, hrows, source_program, ← htext]
  simp only [String.toList_append, String.toList_ofList]

/-! ## The cascade -/

/-- What the cascade adds to the second cell for a number in the first. -/
def cascaded : List Rung → Nat → Int
  | _, 0 => 0
  | [], v => v
  | r :: rest, v + 1 => r.shift + cascaded rest v

@[simp]
theorem cascaded_nil (v : Nat) : cascaded [] v = v := by
  cases v <;> rfl

/-- Behind the last rung the second cell follows the number. -/
theorem cascaded_add (rs : List Rung) (k : Nat) :
    cascaded rs (rs.length + k) = (rs.map Rung.shift).sum + k := by
  induction rs with
  | nil => simp
  | cons r rest ih =>
    rw [List.length_cons, Nat.add_right_comm, cascaded, ih]
    simp [Int.add_assoc]

/-- Behind the last letter a code point is its own counterpart. -/
theorem rot13_eq_self {c : CodePoint} (hc : 'z'.toNat < c.val) : rot13 c = c := by
  have hbehind : ∀ d : Char, d.toNat ≤ 'z'.toNat → ¬ c ≤ codePoint d := by
    intro d hd hle
    have hle : c.val ≤ d.toNat := hle
    omega
  unfold rot13
  rw [if_neg, if_neg]
  · rintro (h | h)
    · exact hbehind 'Z' (by decide) h.2
    · exact hbehind 'z' (by decide) h.2
  · rintro (h | h)
    · exact hbehind 'M' (by decide) h.2
    · exact hbehind 'm' (by decide) h.2

/-- The cascade makes the counterpart of every code point. -/
theorem cascaded_eq (c : CodePoint) : cascaded (.plain :: rungs) c.val = (rot13 c).val := by
  rcases Nat.lt_or_ge 'z'.toNat c.val with hc | hc
  · -- All rungs are gone down, and what they have added is what they have taken away.
    obtain ⟨k, hk⟩ := Nat.exists_eq_add_of_le hc
    have hlength : (Rung.plain :: rungs).length = 123 := rfl
    have hshifts : ((Rung.plain :: rungs).map Rung.shift).sum = 123 := by decide +kernel
    have hall := cascaded_add (.plain :: rungs) k
    rw [hlength, hshifts] at hall
    rw [rot13_eq_self hc, hk]
    exact hall
  · have hsmall : ∀ n ≤ 'z'.toNat,
        cascaded (.plain :: rungs) n = (rot13 (Fin.ofNat 0x110000 n)).val := by
      decide +kernel
    rw [hsmall c.val hc, Fin.ofNat_val_eq_self]

/-- Letters have letters for counterparts, so surrogates are made from surrogates only. -/
theorem isSurrogate_rot13 (c : CodePoint) : isSurrogate (rot13 c) = isSurrogate c := by
  rcases Nat.lt_or_ge 'z'.toNat c.val with hc | hc
  · rw [rot13_eq_self hc]
  · have hsmall : ∀ n ≤ 'z'.toNat, isSurrogate (rot13 (Fin.ofNat 0x110000 n)) = false ∧
        isSurrogate (Fin.ofNat 0x110000 n) = false := by
      decide +kernel
    obtain ⟨hrot, hself⟩ := hsmall c.val hc
    rw [Fin.ofNat_val_eq_self] at hrot hself
    rw [hrot, hself]

theorem val_of_isSurrogate {c : CodePoint} (h : isSurrogate c = true) : 0xD800 ≤ c.val := by
  simp only [isSurrogate, Bool.and_eq_true, decide_eq_true_eq] at h
  exact h.1

theorem rot13_of_isSurrogate {c : CodePoint} (h : isSurrogate c = true) : rot13 c = c :=
  rot13_eq_self (Nat.lt_of_lt_of_le (by decide) (val_of_isSurrogate h))

/-- The machine on three cells with these values, and the pointer on one of them. -/
def onCells (m : Machine) (a b c pointer : Int) : Machine :=
  { m with tape := ⟨#[a, b, c], pointer⟩ }

variable (bound : Option Nat) (m : Machine)

@[simp]
theorem update_first (f : Int → Int) (a b c : Int) :
    (onCells m a b c 0).update f = .done (onCells m (f a) b c 0) := rfl

@[simp]
theorem update_second (f : Int → Int) (a b c : Int) :
    (onCells m a b c 1).update f = .done (onCells m a (f b) c 1) := rfl

@[simp]
theorem update_third (f : Int → Int) (a b c : Int) :
    (onCells m a b c 2).update f = .done (onCells m a b (f c) 2) := rfl

@[simp]
theorem move_onCells {pointer delta : Int} (h : 0 ≤ pointer + delta ∧ pointer + delta < 3)
    (a b c : Int) :
    (onCells m a b c pointer).move delta = .done (onCells m a b c (pointer + delta)) := by
  simp [Machine.move, Tape.move, Tape.size, onCells, h]

theorem takeFive_leads (v sum : Int) (k : Nat) :
    (Program.loop (.ofCommands takeFive) none .nil).Leads bound 1 (onCells m v (sum + 5 * k) k 2)
      (onCells m v sum 0 2) := by
  have hturn : ∀ k : Nat, (Program.ofCommands takeFive).Leads bound 0
      (onCells m v (sum + 5 * (k + 1 : Nat)) (k + 1 : Nat) 2) (onCells m v (sum + 5 * k) k 2) := by
    intro k
    have hfive : sum + 5 * ((k : Int) + 1) - 1 - 1 - 1 - 1 - 1 = sum + 5 * k := by omega
    refine Leads.ofCommands ?_
    simp [takeFive, Machine.performAll, Machine.perform, hfive]
  have hloop := Leads.countdown (s := none) (fun k => onCells m v (sum + 5 * k) k 2) (fun _ => rfl)
    hturn k
  simpa using hloop

theorem plain_leads (room v : Nat) (sum : Int) :
    Rung.plain.program.Leads bound room (onCells m (v + 1 : Nat) sum 0 0)
      (onCells m v (sum + 1) 0 0) := by
  refine Leads.ofCommands ?_
  simp [Machine.performAll, Machine.perform]

/-- A rung takes one from the first cell and adds its shift to the second. -/
theorem rung_leads (r : Rung) (v : Nat) (sum : Int) :
    r.program.Leads bound 1 (onCells m (v + 1 : Nat) sum 0 0)
      (onCells m v (sum + r.shift) 0 0) := by
  cases r with
  | plain => exact plain_leads bound m 1 v sum
  | rise =>
    have heffect : (onCells m (v + 1 : Nat) sum 0 0).performAll ([Command.right] ++
        List.replicate 14 Command.increment ++ [Command.left, Command.decrement]) =
        .done (onCells m v (sum + 14) 0 0) := by
      simp [Machine.performAll, Machine.perform, List.replicate, Int.add_assoc]
    exact Leads.ofCommands heffect
  | fall =>
    -- The third cell counts the five turns that take five each.
    have hthird : (onCells m (v + 1 : Nat) sum 0 0).performAll
        [.right, .right, .increment, .increment, .increment, .increment, .increment] =
        .done (onCells m (v + 1 : Nat) (sum - 25 + 5 * (5 : Nat)) (5 : Nat) 2) := by
      simp [Machine.performAll, Machine.perform]
    have hback : (onCells m (v + 1 : Nat) (sum - 25) 0 2).performAll [.left, .left, .decrement] =
        .done (onCells m v (sum - 25) 0 0) := by
      simp [Machine.performAll, Machine.perform]
    exact (Leads.ofCommands hthird).append
      ((takeFive_leads bound m (v + 1 : Nat) (sum - 25) 5).append (Leads.ofCommands hback))

/-- A block of the cascade goes down its rung, and the loop behind it does the rest. -/
theorem cascade_cons_leads {r : Rung} {rest : List Rung}
    (hloop : ∀ (v : Nat) (sum : Int), (Program.loop (cascade rest) none .nil).Leads bound
      (rest.length + 1) (onCells m v sum 0 0) (onCells m 0 (sum + cascaded rest v) 0 0))
    (v : Nat) (sum : Int) :
    (cascade (r :: rest)).Leads bound (rest.length + 1) (onCells m (v + 1 : Nat) sum 0 0)
      (onCells m 0 (sum + cascaded (r :: rest) (v + 1)) 0 0) := by
  have hrung := (rung_leads bound m r v sum).mono (Nat.le_add_left 1 rest.length)
  rw [cascaded, ← Int.add_assoc]
  exact hrung.append (hloop v (sum + r.shift))

/-- A loop of the cascade counts the first cell down to zero. -/
theorem cascade_leads (rs : List Rung) (v : Nat) (sum : Int) :
    (Program.loop (cascade rs) none .nil).Leads bound (rs.length + 1) (onCells m v sum 0 0)
      (onCells m 0 (sum + cascaded rs v) 0 0) := by
  induction rs generalizing v sum with
  | nil =>
    -- The innermost loop turns until nothing is left. What both cells add up to stays the same.
    have hturn : ∀ k : Nat, (cascade []).Leads bound 0
        (onCells m (k + 1 : Nat) (sum + v - (k + 1 : Nat)) 0 0)
        (onCells m k (sum + v - k) 0 0) := by
      intro k
      have hsum : sum + v - (k + 1 : Nat) + 1 = sum + v - k := by omega
      rw [← hsum]
      exact plain_leads bound m 0 k _
    have hloop := Leads.countdown (s := none) (fun k => onCells m k (sum + v - k) 0 0)
      (fun _ => rfl) hturn v
    simpa using hloop
  | cons r rest ih =>
    -- Any other loop leaves nothing to its second turn.
    have hskip : ∀ sum, (Program.loop (cascade (r :: rest)) none .nil).Leads bound
        (rest.length + 2) (onCells m 0 sum 0 0) (onCells m 0 sum 0 0) :=
      fun _ => Leads.loop_skip rfl
    cases v with
    | zero => simpa [cascaded] using hskip sum
    | succ v =>
      exact Leads.loop_turn (v := (v + 1 : Nat)) rfl (by omega)
        (cascade_cons_leads bound m ih v sum) (hskip _)

theorem drain_leads (k : Nat) :
    drain.Leads bound 1 (onCells m 0 k 0 1) (onCells m 0 0 0 1) := by
  refine Leads.countdown (fun k => onCells m 0 k 0 1) (fun _ => rfl) (fun k => ?_) k
  refine Leads.ofCommands ?_
  simp [Machine.performAll, Machine.perform]

/-! ## Lines -/

theorem read_onCells (a b c : Int) :
    (onCells m a b c 0).read = .done (onCells m.takeLine.2 m.takeLine.1 b c 0) := by
  cases h : m.input <;>
    simp [Machine.read, Machine.takeLine, Machine.assign, Machine.record, Tape.slot?, Tape.set,
      Tape.size, onCells, h]

/-- The second cell is written if it has the number of a character, and is refused if it has that of
a surrogate. -/
theorem write_onCells (a c : Int) (p : CodePoint) :
    (onCells m a p.val c 1).write =
      if isSurrogate p then .failed (.badCell p.val 1) (onCells m a p.val c 1)
      else .done (onCells (m.record (.write (Char.ofNat p.val))) a p.val c 1) := by
  have hcurrent : (onCells m a p.val c 1).tape.current? = some (p.val : Int) := rfl
  rw [Machine.write, hcurrent]
  simp only [isCodePoint_val, Int.toNat_natCast]
  cases isSurrogate p <;> rfl

/-- The cascade and the move behind it put the counterpart of the code point under the pointer. -/
theorem counterpart_leads {c : CodePoint} (hc : c ≠ 0) :
    (cascade (.plain :: rungs) ++ .ofCommands [.right]).Leads bound (rungs.length + 1)
      (onCells m c.val 0 0 0) (onCells m 0 (rot13 c).val 0 1) := by
  obtain ⟨v, hv⟩ := Nat.exists_eq_add_one_of_ne_zero
    (fun hzero : c.val = 0 => hc (Fin.ext hzero))
  have hcons := cascade_cons_leads bound m (r := .plain) (cascade_leads bound m rungs) v 0
  rw [← hv, Int.zero_add, cascaded_eq] at hcons
  have hright : (onCells m 0 (rot13 c).val 0 0).perform .right =
      .done (onCells m 0 (rot13 c).val 0 1) := rfl
  exact hcons.append (Leads.command hright)

/-- A turn consists of what makes the counterpart, the output, and the rest. -/
theorem turn_eq :
    turn = (cascade (.plain :: rungs) ++ .ofCommands [.right]) ++
      (.ofCommands [.output] ++ (drain ++ .ofCommands [.left, .input])) := by
  rw [turn, Program.append_assoc]
  rfl

/-- A turn writes the counterpart of its code point, if that is a character, and leaves the cells as
they were but for the code point of the next line. -/
theorem turn_leads {input : List CodePoint} {k : Nat}
    (hinput : m.input = (Text.lines input).drop (k + 1)) (hne : inputPoint input k ≠ 0)
    (hchar : isSurrogate (inputPoint input k) = false) :
    ∃ m', turn.Leads bound (rungs.length + 1) (onCells m (inputPoint input k).val 0 0 0)
        (onCells m' (inputPoint input (k + 1)).val 0 0 0) ∧
      m'.input = (Text.lines input).drop (k + 2) ∧
      m'.output = m.output ++ [Char.ofNat (rot13 (inputPoint input k)).val] := by
  let p := rot13 (inputPoint input k)
  let m₁ := m.record (.write (Char.ofNat p.val))
  obtain ⟨hvalue, hlines⟩ := Machine.takeLine_of_drop (m := m₁) hinput
  have hwrite : (onCells m 0 p.val 0 1).perform .output = .done (onCells m₁ 0 p.val 0 1) := by
    rw [Machine.perform, write_onCells, isSurrogate_rot13, hchar]
    rfl
  have hleft : (onCells m₁ 0 0 0 1).perform .left = .done (onCells m₁ 0 0 0 0) := rfl
  have hread : (onCells m₁ 0 0 0 0).perform .input =
      .done (onCells m₁.takeLine.2 (inputPoint input (k + 1)).val 0 0 0) := by
    rw [Machine.perform, read_onCells, hvalue]
  -- The cell that is drained holds the code point of the counterpart.
  have hdrain := (drain_leads bound m₁ p.val).mono (Nat.le_add_left 1 rungs.length)
  refine ⟨m₁.takeLine.2, ?_, hlines, ?_⟩
  · rw [turn_eq]
    exact (counterpart_leads bound m hne).append ((Leads.command hwrite).append
      (hdrain.append ((Leads.command hleft).append (Leads.command hread))))
  · rw [Machine.output_takeLine, Machine.output_record]
    rfl

/-- A turn fails at the output if its code point is a surrogate. -/
theorem turn_fails {c : CodePoint} (hc : isSurrogate c = true) :
    turn.Fails bound (rungs.length + 1) (onCells m c.val 0 0 0) (.badCell c.val 1)
      (onCells m 0 c.val 0 1) := by
  have hne : c ≠ 0 := by
    rintro rfl
    cases hc
  have hcounterpart := counterpart_leads bound m hne
  rw [rot13_of_isSurrogate hc] at hcounterpart
  have hwrite : (onCells m 0 c.val 0 1).perform .output =
      .failed (.badCell c.val 1) (onCells m 0 c.val 0 1) := by
    rw [Machine.perform, write_onCells, hc]
    rfl
  rw [turn_eq]
  exact hcounterpart.append_fails ((Fails.command hwrite).append _)

theorem inputPoint_ne_zero {input : List CodePoint} {k : Nat} (h : inputPoint input k ≠ 0) :
    ((inputPoint input k).val : Int) ≠ 0 :=
  fun hzero => h (Fin.ext (Int.ofNat_inj.1 hzero))

/-- From the `k`-th line on, the next `d` lines begin with a character. -/
def CharactersAhead (input : List CodePoint) (k d : Nat) : Prop :=
  ∀ i < d, inputPoint input (k + i) ≠ 0 ∧ isSurrogate (inputPoint input (k + i)) = false

theorem CharactersAhead.behind_next {input : List CodePoint} {k d : Nat}
    (h : CharactersAhead input k (d + 1)) : CharactersAhead input (k + 1) d := by
  intro i hi
  rw [Nat.add_right_comm]
  exact h (i + 1) (Nat.succ_lt_succ hi)

theorem charactersAhead_zero {input : List CodePoint} {d : Nat} :
    CharactersAhead input 0 d ↔
      ∀ k < d, inputPoint input k ≠ 0 ∧ isSurrogate (inputPoint input k) = false := by
  simp [CharactersAhead]

/-- When a line has been read, the loop goes through the lines up to the first one without a
character. -/
theorem loop_leads {input : List CodePoint} {k d : Nat}
    (hinput : m.input = (Text.lines input).drop (k + 1)) (hsome : CharactersAhead input k d)
    (hend : inputPoint input (k + d) = 0) :
    ∃ m', (Program.loop turn none .nil).Leads bound (rungs.length + 2)
        (onCells m (inputPoint input k).val 0 0 0) (onCells m' 0 0 0 0) ∧
      m'.output = m.output ++
        (List.range d).map fun i => Char.ofNat (rot13 (inputPoint input (k + i))).val := by
  induction d generalizing k m with
  | zero =>
    have hzero : inputPoint input k = 0 := hend
    rw [hzero]
    exact ⟨m, Leads.loop_skip rfl, by simp⟩
  | succ d ih =>
    obtain ⟨hne, hchar⟩ := hsome 0 (Nat.succ_pos d)
    obtain ⟨m₁, hturn, hlines, hwritten⟩ := turn_leads bound m hinput hne hchar
    -- Behind the turn, the next line has been read.
    obtain ⟨m', hrest, houtput⟩ := ih m₁ hlines hsome.behind_next (by rwa [Nat.add_right_comm])
    refine ⟨m', Leads.loop_turn rfl (inputPoint_ne_zero hne) hturn hrest, ?_⟩
    rw [houtput, hwritten, List.range_succ_eq_map]
    simp [Nat.add_right_comm, Nat.add_assoc, Function.comp_def]

/-- If it comes to a surrogate first, it fails there. -/
theorem loop_fails {input : List CodePoint} {k d : Nat}
    (hinput : m.input = (Text.lines input).drop (k + 1)) (hsome : CharactersAhead input k d)
    (hend : isSurrogate (inputPoint input (k + d)) = true) :
    ∃ m', (Program.loop turn none .nil).Fails bound (rungs.length + 2)
      (onCells m (inputPoint input k).val 0 0 0) (.badCell (inputPoint input (k + d)).val 1)
      m' := by
  -- On the number of lines before the one that begins with a surrogate.
  induction d generalizing k m with
  | zero =>
    have hhigh := val_of_isSurrogate hend
    have hne : ((inputPoint input k).val : Int) ≠ 0 := by
      rw [Nat.add_zero] at hhigh
      omega
    exact ⟨_, Fails.loop_body rfl hne (turn_fails bound m hend)⟩
  | succ d ih =>
    obtain ⟨hne, hchar⟩ := hsome 0 (Nat.succ_pos d)
    obtain ⟨m₁, hturn, hlines, -⟩ := turn_leads bound m hinput hne hchar
    obtain ⟨m', hrest⟩ := ih m₁ hlines hsome.behind_next (by rwa [Nat.add_right_comm])
    rw [Nat.add_right_comm] at hrest
    exact ⟨m', Fails.loop_turn rfl (inputPoint_ne_zero hne) hturn hrest⟩

/-- The first line is read in front of the loop. -/
theorem first_leads (input : List CodePoint) (hinput : m.input = Text.lines input) :
    ∃ m', (Program.ofCommands [.input]).Leads bound (rungs.length + 2) (onCells m 0 0 0 0)
        (onCells m' (inputPoint input 0).val 0 0 0) ∧
      m'.input = (Text.lines input).drop 1 ∧ m'.output = m.output := by
  obtain ⟨hvalue, hlines⟩ := Machine.takeLine_of_drop (k := 0) hinput
  have hread := read_onCells m 0 0 0
  rw [hvalue] at hread
  exact ⟨_, Leads.command hread, hlines, m.output_takeLine⟩

/-! ## Evaluation -/

theorem evaluate_rot13 {bounds : Limits} (hreading : 124 < bounds.reading) {size : Int} {t : Tape}
    (ht : Tape.blank? bounds.hasRoom size = .ok t) (input : List CodePoint) (fuel : Nat) :
    evaluate bounds fuel (Sample.text .rot13) ⟨size, none⟩ input =
      (program.runClosed (some bounds.running) fuel
        { tape := t, input := Text.lines input }).answer := by
  have hdepth : program.depth < bounds.reading := by rwa [depth_program]
  have hmachine : RunConfig.machine bounds.hasRoom ⟨size, none⟩ (Text.lines input) =
      .ok { tape := t, input := Text.lines input } := by
    rw [RunConfig.machine, ht]
  rw [text_rot13, evaluate_source native_program hdepth hmachine]

/-- The three cells on which all this happens. -/
theorem blank_three : Tape.blank? (fun _ => true) 3 = .ok ⟨#[0, 0, 0], 0⟩ := rfl

/-- The lines up to the first one without a character are written and the run ends, if none of them
begins with a surrogate. -/
theorem evaluate_lines {bounds : Limits} (hreading : 124 < bounds.reading)
    (hrunning : 124 ≤ bounds.running) {size : Int} {t : Tape} (hsize : 3 ≤ size)
    (ht : Tape.blank? bounds.hasRoom size = .ok t) {input : List CodePoint} {n : Nat}
    (hsome : CharactersAhead input 0 n) (hend : inputPoint input n = 0) :
    ∃ fuel, ∀ fuel', fuel ≤ fuel' →
      evaluate bounds fuel' (Sample.text .rot13) ⟨size, none⟩ input =
        .ok ((List.range n).map (fun k => Char.ofNat (rot13 (inputPoint input k)).val) ++
          ['\n']) := by
  let m : Machine := { tape := t, input := Text.lines input }
  obtain ⟨m₁, hfirst, hlines, hnone⟩ := first_leads (some bounds.running) m input rfl
  obtain ⟨m', hloop, houtput⟩ := loop_leads (some bounds.running) m₁ hlines hsome
    (by rwa [Nat.zero_add])
  have hleads : program.Leads (some bounds.running) (rungs.length + 2) (onCells m 0 0 0 0)
      (onCells m' 0 0 0 0) := hfirst.append hloop
  obtain ⟨fuel, steps, hrun⟩ := hleads.run (by rintro b ⟨⟩; exact hrunning) rfl
  refine ⟨fuel, fun fuel' hfuel => ?_⟩
  -- The three cells are a blank tape, which may as well be a larger one.
  obtain ⟨m₂, hfinished, hsame⟩ :=
    Program.finished_of_blank? blank_three ht hsize (hrun fuel' hfuel)
  have hwritten : m'.output =
      (List.range n).map fun k => Char.ofNat (rot13 (inputPoint input k)).val := by
    have hblank : m₁.output = [] := hnone
    simpa [hblank] using houtput
  rw [evaluate_rot13 hreading ht, Program.answer_of_finished (m := m) hfinished, hsame]
  exact congrArg (fun output => Except.ok (output ++ ['\n'])) hwritten

/-- The run fails at the first line that begins with a surrogate, if it comes to it. -/
theorem evaluate_surrogate {bounds : Limits} (hreading : 124 < bounds.reading)
    (hrunning : 124 ≤ bounds.running) {size : Int} {t : Tape} (hsize : 3 ≤ size)
    (ht : Tape.blank? bounds.hasRoom size = .ok t) {input : List CodePoint} {n : Nat}
    (hsome : CharactersAhead input 0 n) (hend : isSurrogate (inputPoint input n) = true) :
    ∃ fuel, ∀ fuel', fuel ≤ fuel' →
      evaluate bounds fuel' (Sample.text .rot13) ⟨size, none⟩ input =
        .error (.run (.badCell (inputPoint input n).val 1)) := by
  let m : Machine := { tape := t, input := Text.lines input }
  obtain ⟨m₁, hfirst, hlines, -⟩ := first_leads (some bounds.running) m input rfl
  obtain ⟨m', hloop⟩ := loop_fails (some bounds.running) m₁ hlines hsome
    (by rwa [Nat.zero_add])
  rw [Nat.zero_add] at hloop
  have hfails : program.Fails (some bounds.running) (rungs.length + 2) (onCells m 0 0 0 0)
      (.badCell (inputPoint input n).val 1) m' := hfirst.append_fails hloop
  obtain ⟨fuel, steps, hrun⟩ := hfails.run (by rintro b ⟨⟩; exact hrunning) rfl
  refine ⟨fuel, fun fuel' hfuel => ?_⟩
  obtain ⟨m₂, hfailed⟩ := Program.badCell_of_blank? blank_three ht hsize (hrun fuel' hfuel)
  rw [evaluate_rot13 hreading ht]
  exact Program.answer_of_failed (m := m) hfailed

end Rot13

open Rot13 in
/-- The sample `rot13` computes ROT13, whatever it is given: on three cells or more and without a
limit it writes the counterparts of the first code points of the lines, up to the first line that
has none, and ends without an error. Only a surrogate cannot be written: if one of these lines
begins with one, the run fails there. -/
theorem rot13_lines {bounds : Limits} (hreading : 124 < bounds.reading)
    (hrunning : 124 ≤ bounds.running) {size : Int} {t : Tape} (hsize : 3 ≤ size)
    (ht : Tape.blank? bounds.hasRoom size = .ok t) (input : List CodePoint) :
    ∃ n, IsLeast {k | inputPoint input k = 0} n ∧
      ((∀ k < n, isSurrogate (inputPoint input k) = false) →
        ∃ output, codePoints output = (List.range n).map (fun k => rot13 (inputPoint input k)) ∧
          ∃ fuel, ∀ fuel', fuel ≤ fuel' →
            evaluate bounds fuel' (Sample.text .rot13) ⟨size, none⟩ input =
              .ok (output ++ ['\n'])) ∧
      ∀ k < n, isSurrogate (inputPoint input k) = true →
        (∀ j < k, isSurrogate (inputPoint input j) = false) →
        ∃ fuel, ∀ fuel', fuel ≤ fuel' →
          evaluate bounds fuel' (Sample.text .rot13) ⟨size, none⟩ input =
            .error (.run (.badCell (inputPoint input k).val 1)) := by
  have hexists : ∃ k, inputPoint input k = 0 :=
    ⟨_, Text.inputPoint_of_length_le (Nat.le_refl (Text.lines input).length)⟩
  classical
  refine ⟨Nat.find hexists, ⟨Nat.find_spec hexists, fun k hk => Nat.find_min' hexists hk⟩,
    fun hchars => ?_, fun k hk hsurrogate hbefore => ?_⟩
  · refine ⟨_, ?_, evaluate_lines hreading hrunning hsize ht
      (charactersAhead_zero.2 fun k hk => ⟨Nat.find_min hexists hk, hchars k hk⟩)
      (Nat.find_spec hexists)⟩
    rw [codePoints, List.map_map]
    refine List.map_congr_left fun k hk => Text.codePoint_ofNat ?_
    rw [isSurrogate_rot13]
    exact hchars k (List.mem_range.1 hk)
  · exact evaluate_surrogate hreading hrunning hsize ht
      (charactersAhead_zero.2 fun j hj =>
        ⟨Nat.find_min hexists (Nat.lt_trans hj hk), hbefore j hj⟩) hsurrogate

/-- A letter of either half, each at the beginning of a line. -/
theorem rot13_lines_two_letters :
    124 < Limits.sample.reading ∧ 124 ≤ Limits.sample.running ∧
      (3 : Int) ≤ 3 ∧ Tape.blank? Limits.sample.hasRoom 3 = .ok ⟨#[0, 0, 0], 0⟩ ∧
      ∃ fuel, ∀ fuel', fuel ≤ fuel' →
        evaluate .sample fuel' (Sample.text .rot13) ⟨3, none⟩
          (codePoints ['A', '!', '\n', 'z']) = .ok ['N', 'm', '\n'] := by
  have hreading : 124 < Limits.sample.reading := by decide
  have hrunning : 124 ≤ Limits.sample.running := by decide
  have hcells : Tape.blank? Limits.sample.hasRoom 3 = .ok ⟨#[0, 0, 0], 0⟩ := rfl
  obtain ⟨n, hn, hlines, -⟩ := rot13_lines hreading hrunning (Int.le_refl 3) hcells
    (codePoints ['A', '!', '\n', 'z'])
  have htwo : IsLeast {k | inputPoint (codePoints ['A', '!', '\n', 'z']) k = 0} 2 := by
    refine ⟨by decide, fun k hk => Nat.le_of_not_lt fun hlt => ?_⟩
    have hsome : ∀ k < 2, inputPoint (codePoints ['A', '!', '\n', 'z']) k ≠ 0 := by decide
    exact hsome k hlt hk
  rw [hn.unique htwo] at hlines
  obtain ⟨output, hcodes, heval⟩ := hlines (by decide)
  have houtput : output = ['N', 'm'] := by
    exact Text.codePoints_injective (hcodes.trans (by decide))
  subst houtput
  exact ⟨hreading, hrunning, Int.le_refl 3, hcells, heval⟩

/-- No text comes from the sample on a tape whose cells no index could count, and none if the first
line begins with a surrogate. -/
theorem rot13_exceptions :
    ((3 : Int) ≤ 0x8000000000000000 ∧
      Tape.blank? Limits.sample.hasRoom 0x8000000000000000 = .error .unindexable ∧
      ¬ ∃ fuel output, evaluate .sample fuel (Sample.text .rot13) ⟨0x8000000000000000, none⟩
        (codePoints ['a', '\n']) = .ok output) ∧
    ¬ ∃ fuel output, ∀ fuel', fuel ≤ fuel' →
      evaluate .sample fuel' (Sample.text .rot13) ⟨3, none⟩ [0xD800, 10] = .ok output := by
  refine ⟨⟨by decide, rfl, ?_⟩, ?_⟩
  · rintro ⟨fuel, output, heval⟩
    have hdepth : Rot13.program.depth < Limits.sample.reading := by
      rw [Rot13.depth_program]
      decide
    obtain ⟨q, hread, -⟩ := Program.ofTextWithin_source Rot13.native_program hdepth
    rw [Rot13.text_rot13, evaluate, hread] at heval
    cases heval
  · rintro ⟨fuel, output, heval⟩
    have hcells : Tape.blank? Limits.sample.hasRoom 3 = .ok ⟨#[0, 0, 0], 0⟩ := rfl
    have hreading : 124 < Limits.sample.reading := by decide
    have hrunning : 124 ≤ Limits.sample.running := by decide
    -- The first line begins with a surrogate, so there is no line before it.
    have hend : isSurrogate (inputPoint [0xD800, 10] 0) = true := by decide
    obtain ⟨fuel', hfails⟩ := Rot13.evaluate_surrogate hreading hrunning (Int.le_refl 3) hcells
      (fun k hk => absurd hk k.not_lt_zero) hend
    have hboth := (heval _ (Nat.le_max_left fuel fuel')).symm.trans
      (hfails _ (Nat.le_max_right fuel fuel'))
    cases hboth

end TapeLang
