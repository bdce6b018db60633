import TapeLang.Proofs.Machine.Run
import TapeLang.Proofs.Program.RoundTrip
import TapeLang.Proofs.Text.Matching

/-!
# Running a text without reading it

The flat machine runs a text of command characters as it stands. It holds a position in the text,
and each bracket leads behind its partner. The programs that are read from texts are run in the
same way, step by step.

* `Located`: what is left to do in a configuration stands in the text at some position.
* `Flat.step_agrees`: from there, the flat machine takes the same step as the configuration.
* `Flat.run_code`: so a run of the flat machine is a run of the program that the text denotes.
-/

namespace TapeLang

open Text

/-! ## The flat machine -/

/-- How a run stands, whatever is left to do. -/
inductive Outcome
  /-- The program has ended. -/
  | finished (m : Machine)
  /-- The program has failed. -/
  | failed (e : RunError) (m : Machine)
  /-- More steps are needed. -/
  | running (m : Machine)
  deriving DecidableEq

/-- How a run of a program stands. -/
def Ending.outcome : Ending → Outcome
  | finished m => .finished m
  | failed e m => .failed e m
  | unfinished c => .running c.machine

namespace Flat

/-- The outcome of one step of the flat machine. -/
inductive Step
  /-- No character was left. -/
  | finished (m : Machine)
  /-- The step succeeded, and the next character stands at this position. -/
  | next (i : Nat) (m : Machine)
  /-- The step failed. -/
  | failed (e : RunError) (m : Machine)
  deriving DecidableEq

/-- Where the bracket at `i` leads when the current cell is `v`. -/
def target (text : List Char) (i : Nat) (v : Int) : Nat :=
  if text[i]? = some '[' then
    if v = 0 then (closing? text i).elim text.length (· + 1) else i + 1
  else
    if v = 0 then i + 1 else (opening? text i).elim text.length (· + 1)

/-- Do what the character at `i` says, once the step has been counted. -/
def act (text : List Char) (i : Nat) (c : Char) (m : Machine) : Step :=
  match Command.ofChar? c with
  | some d =>
    match m.perform d with
    | .failed e m => .failed e m
    | .done m => .next (i + 1) m
  | none =>
    match m.tape.current? with
    | none => .failed (m.tape.cause .unreadable) m
    | some v => .next (target text i v) m

/-- One counted step: the character at `i` is a command or a bracket. -/
def step (text : List Char) (i : Nat) (m : Machine) : Step :=
  match text[i]? with
  | none => .finished m
  | some c =>
    match m.tick with
    | .failed e m => .failed e m
    | .done m => act text i c m

/-- Do at most `fuel` steps from position `i`. -/
def run (text : List Char) (fuel : Nat) (i : Nat) (m : Machine) : Outcome :=
  match fuel with
  | 0 => if i < text.length then .running m else .finished m
  | fuel + 1 =>
    match step text i m with
    | .finished m => .finished m
    | .failed e m => .failed e m
    | .next i m => run text fuel i m

variable {text : List Char} {i j : Nat} {m : Machine}

/-- A command is followed by the next character. -/
theorem act_command (d : Command) :
    act text i d.char m =
      match m.perform d with
      | .failed e m => .failed e m
      | .done m => .next (i + 1) m := by
  rw [act, Command.ofChar?_char]

/-- A bracket leads to where its target says, if the current cell can be read. -/
theorem act_bracket {c : Char} (hc : Command.ofChar? c = none) :
    act text i c m =
      match m.tape.current? with
      | none => .failed (m.tape.cause .unreadable) m
      | some v => .next (target text i v) m := by
  rw [act, hc]

theorem target_opening (h : Matches text i j) (v : Int) :
    target text i v = if v = 0 then j + 1 else i + 1 := by
  rw [target, if_pos h.2.1, closing?_eq_some_iff.2 h, Option.elim_some]

theorem target_closing (h : Matches text i j) (v : Int) :
    target text j v = if v = 0 then j + 1 else i + 1 := by
  rw [target, h.2.2.1, if_neg (by decide), opening?_eq_some_iff.2 h, Option.elim_some]

end Flat

/-! ## Programs in a text -/

/-- The text holds `s` from position `i` up to position `k`. -/
def Spells (text : List Char) (i : Nat) (s : List Char) (k : Nat) : Prop :=
  ∃ before after, text = before ++ (s ++ after) ∧ before.length = i ∧ i + s.length = k

namespace Spells

variable {text s t : List Char} {c : Char} {i k : Nat}

theorem head (h : Spells text i (c :: s) k) : text[i]? = some c := by
  obtain ⟨before, after, rfl, rfl, -⟩ := h
  simp

theorem tail (h : Spells text i (c :: s) k) : Spells text (i + 1) s k := by
  obtain ⟨before, after, rfl, rfl, rfl⟩ := h
  refine ⟨before ++ [c], after, by simp, by simp, ?_⟩
  rw [List.length_cons]
  omega

theorem split (h : Spells text i (s ++ t) k) :
    Spells text i s (i + s.length) ∧ Spells text (i + s.length) t k := by
  obtain ⟨before, after, rfl, rfl, rfl⟩ := h
  refine ⟨⟨before, t ++ after, by simp, rfl, rfl⟩, before ++ s, after, by simp, by simp, ?_⟩
  rw [List.length_append]
  omega

/-- Brackets around a balanced text belong together. -/
theorem matches_of_balanced (hs : Balanced s) (h : Spells text i ('[' :: (s ++ ']' :: t)) k) :
    Matches text i (i + 1 + s.length) := by
  obtain ⟨before, after, rfl, rfl, -⟩ := h
  exact matches_iff.2 ⟨before, s, t ++ after, by simp, hs, rfl, rfl⟩

end Spells

/-- A native program stands in the text from position `i` up to position `k`, and leaves room for
the loops around it. -/
structure Sits (bound : Nat) (text : List Char) (p : Program) (around i k : Nat) : Prop where
  /-- All instructions can be written. -/
  native : p.native = true
  /-- The loops around the program and those in it are not too many. -/
  room : p.depth + around ≤ bound
  /-- The text of the program stands there. -/
  spelled : Spells text i p.source k

namespace Sits

variable {bound : Nat} {text : List Char} {p b : Program} {s : Option Span} {around i k : Nat}

/-- The empty program takes no room in a text. -/
theorem nil (h : Sits bound text .nil around i k) : i = k := by
  obtain ⟨-, -, -, -, -, -, hlength⟩ := h
  exact hlength

theorem command {d : Command} (h : Sits bound text (.command d s p) around i k) :
    text[i]? = some d.char ∧ Sits bound text p around (i + 1) k :=
  ⟨h.spelled.head, h.native, h.room, h.spelled.tail⟩

/-- A loop stands between two matching brackets. -/
theorem loop (h : Sits bound text (.loop b s p) around i k) :
    ∃ j, Matches text i j ∧ around < bound ∧ Sits bound text b (around + 1) (i + 1) j ∧
      Sits bound text p around (j + 1) k := by
  obtain ⟨hnative, hroom, hspelled⟩ := h
  rw [Program.native, Bool.and_eq_true] at hnative
  rw [Program.depth] at hroom
  rw [Program.source, List.cons_append] at hspelled
  -- The text of a loop is a bracket, the body, a bracket, and the rest.
  obtain ⟨hbody, hrest⟩ := hspelled.tail.split
  exact ⟨i + 1 + b.source.length, hspelled.matches_of_balanced b.balanced_source, by omega,
    ⟨hnative.1, by omega, hbody⟩, hnative.2, by omega, hrest.tail⟩

end Sits

/-- The loops that have been entered stand around position `k` of the text, where the body of the
innermost one ends. -/
def Encloses (bound : Nat) (text : List Char) (k : Nat) : List Frame → Prop
  | [] => k = text.length
  | f :: outer =>
    ∃ i k', Matches text i k ∧ Sits bound text f.body (outer.length + 1) (i + 1) k ∧
      Sits bound text f.rest outer.length (k + 1) k' ∧ Encloses bound text k' outer

/-- What is left to do in a configuration stands in the text at position `i`. -/
def Located (bound : Nat) (text : List Char) (i : Nat) (c : Config) : Prop :=
  ∃ k, Sits bound text c.block c.frames.length i k ∧ Encloses bound text k c.frames

namespace Located

variable {bound : Nat} {text : List Char} {i : Nat} {c : Config}

/-- Where nothing is left to do, the text is over. -/
theorem eq_length_of_done (h : Located bound text i c) (hdone : c.Done) : i = text.length := by
  obtain ⟨block, frames, m⟩ := c
  obtain ⟨rfl, rfl⟩ := hdone
  obtain ⟨k, hsits, hend⟩ := h
  exact hsits.nil.trans hend

end Located

/-- A step of the flat machine and a step of a configuration have the same effect, and lead to the
same place. -/
def Agrees (bound : Nat) (text : List Char) : Flat.Step → Step → Prop
  | .finished m, .finished m' => m = m'
  | .failed e m, .failed e' m' => e = e' ∧ m = m'
  | .next i m, .next _ c => m = c.machine ∧ Located bound text i c
  | _, _ => False

namespace Flat

variable {bound : Nat} {text : List Char} {i : Nat} {c : Config}

/-- Where something is left to do there is a character, and it says what is done. -/
theorem act_agrees (h : Located bound text i c) (hdone : ¬ c.Done) :
    ∃ ch, text[i]? = some ch ∧
      Agrees bound text (act text i ch c.machine) (c.act (some bound)) := by
  obtain ⟨block, frames, m⟩ := c
  obtain ⟨k, hsits, hend⟩ := h
  cases block with
  | nil =>
    cases frames with
    | nil => exact absurd ⟨rfl, rfl⟩ hdone
    | cons f outer =>
      -- The body is over, so the position is that of the closing bracket.
      obtain rfl := hsits.nil
      obtain ⟨j, k', hmatch, hbody, hrest, houter⟩ := hend
      refine ⟨']', hmatch.2.2.1, ?_⟩
      rw [act_bracket (by decide), Config.act]
      cases m.tape.current? with
      | none => exact ⟨rfl, rfl⟩
      | some v =>
        simp only [target_closing hmatch]
        -- Out of the loop to what follows it, or back to its body with the same loops around it.
        by_cases hv : v = 0
        · rw [if_pos hv, if_pos hv]
          exact ⟨rfl, k', hrest, houter⟩
        · rw [if_neg hv, if_neg hv]
          exact ⟨rfl, i, hbody, j, k', hmatch, hbody, hrest, houter⟩
  | command d s rest =>
    obtain ⟨hchar, hsits⟩ := hsits.command
    refine ⟨d.char, hchar, ?_⟩
    rw [act_command, Config.act]
    cases m.perform d with
    | failed e m => exact ⟨rfl, rfl⟩
    | done m => exact ⟨rfl, k, hsits, hend⟩
  | loop b s rest =>
    obtain ⟨j, hmatch, hroom, hbody, hrest⟩ := hsits.loop
    refine ⟨'[', hmatch.2.1, ?_⟩
    have hfull : isFull (some bound) frames = false := by
      simpa [isFull] using hroom
    rw [act_bracket (by decide), Config.act, hfull]
    cases m.tape.current? with
    | none => exact ⟨rfl, rfl⟩
    | some v =>
      simp only [target_opening hmatch]
      -- Over the loop to what follows it, or into its body with one more loop around it.
      by_cases hv : v = 0
      · rw [if_pos hv, if_pos hv]
        exact ⟨rfl, k, hrest, hend⟩
      · rw [if_neg hv, if_neg hv]
        exact ⟨rfl, j, hbody, i, k, hmatch, hbody, hrest, hend⟩
  | foreign n rest =>
    -- No text denotes a foreign instruction.
    have hnative := hsits.native
    simp [Program.native] at hnative

/-- The flat machine takes the same step as the configuration that stands in its text. -/
theorem step_agrees (h : Located bound text i c) :
    Agrees bound text (step text i c.machine) (c.advance (some bound)) := by
  by_cases hdone : c.Done
  · have hover : text[i]? = none := by
      rw [h.eq_length_of_done hdone]
      exact List.getElem?_eq_none (Nat.le_refl _)
    rw [step, hover, Config.advance_of_done c hdone]
    rfl
  · obtain ⟨ch, hch, -⟩ := act_agrees h hdone
    rw [step, hch, Config.advance_eq c (some bound) hdone]
    cases c.machine.tick with
    | failed e m => exact ⟨rfl, rfl⟩
    | done m =>
      -- Counting the step has changed the machine, but not the place.
      have hm : Located bound text i (c.onMachine m) := h
      obtain ⟨ch', hch', hagrees⟩ := act_agrees hm hdone
      obtain rfl := Option.some.inj (hch.symm.trans hch')
      exact hagrees

/-- A run of the flat machine is a run of the configuration that stands in its text. -/
theorem run_eq_outcome (h : Located bound text i c) (fuel : Nat) :
    run text fuel i c.machine = (c.run (some bound) fuel).outcome := by
  induction fuel generalizing i c with
  | zero =>
    by_cases hdone : c.Done
    · rw [run, h.eq_length_of_done hdone, if_neg (Nat.lt_irrefl _), Config.run_of_done c hdone]
      rfl
    · obtain ⟨ch, hch, -⟩ := act_agrees h hdone
      rw [run, if_pos (List.getElem?_eq_some_iff.1 hch).1, Config.run_zero c hdone]
      rfl
  | succ fuel ih =>
    -- The two steps agree, so it is enough to look at the cases in which both come out alike.
    have hstep := step_agrees h
    rw [run, Config.run]
    cases hconfig : c.advance (some bound) with
    | finished m =>
      rw [hconfig] at hstep
      cases hflat : step text i c.machine <;> rw [hflat] at hstep
      · exact congrArg Outcome.finished hstep
      · exact hstep.elim
      · exact hstep.elim
    | next mark c' =>
      rw [hconfig] at hstep
      cases hflat : step text i c.machine <;> rw [hflat] at hstep
      · exact hstep.elim
      · obtain ⟨rfl, hlocated⟩ := hstep
        exact ih hlocated
      · exact hstep.elim
    | failed e m =>
      rw [hconfig] at hstep
      cases hflat : step text i c.machine <;> rw [hflat] at hstep
      · exact hstep.elim
      · exact hstep.elim
      · obtain ⟨rfl, rfl⟩ := hstep
        rfl

/-- The flat machine on a balanced text without its comments, and the program that the text denotes,
have the same outcome after any number of steps, on any machine. So one of them ends just when the
other does, with the same error or none, and leaves the same machine behind. -/
theorem run_code (bounds : Limits) (htext : Balanced text)
    (hreading : NestedBelow bounds.reading text)
    (hrunning : NestedBelow (bounds.running + 1) text) :
    (∀ i, (code text)[i]? = some '[' → ∃ j, Matches (code text) i j) ∧
    ∃ p, Program.ofTextWithin bounds.reading text = .ok p ∧
      ∀ (m : Machine) (fuel : Nat),
        run (code text) fuel 0 m = (p.run (some bounds.running) fuel m).outcome := by
  obtain ⟨p, hp⟩ := Program.exists_ofTextWithin htext hreading
  have hsource := Program.source_of_ofTextWithin hp
  have hdepth : p.depth < bounds.running + 1 := by
    rw [Program.depth_lt_iff (Nat.succ_pos _), hsource, nestedBelow_code]
    exact hrunning
  -- The program is written as the text without its comments, so it stands in it from end to end.
  refine ⟨fun i hi => ?_, p, hp, fun m fuel => ?_⟩
  · have hcode : Balanced (code text) := hsource ▸ p.balanced_source
    exact hcode.exists_matches hi
  · have hspelled : Spells (code text) 0 p.source (code text).length :=
      ⟨[], [], by simp [hsource], rfl, by simp [hsource]⟩
    have hsits : Sits bounds.running (code text) p 0 0 (code text).length :=
      ⟨Program.native_of_ofTextWithin hp, Nat.le_of_lt_succ hdepth, hspelled⟩
    have hlocated : Located bounds.running (code text) 0 ⟨p, [], m⟩ := ⟨_, hsits, rfl⟩
    exact run_eq_outcome hlocated fuel

/-- At the sample limits, a commented loop that empties a cell is run alike by both. -/
theorem run_code_countdown :
    let text := ['+', '[', 'x', '-', ']']
    Balanced text ∧ NestedBelow Limits.sample.reading text ∧
      NestedBelow (Limits.sample.running + 1) text ∧
      ∃ p, Program.ofText text = .ok p ∧
        run ['+', '[', '-', ']'] 4 0 { tape := ⟨#[0], 0⟩ } =
          (p.run (some Limits.sample.running) 4 { tape := ⟨#[0], 0⟩ }).outcome := by
  intro text
  have htext : Balanced text := by decide
  have hreading : NestedBelow Limits.sample.reading text := by decide
  have hrunning : NestedBelow (Limits.sample.running + 1) text := by decide
  obtain ⟨-, p, hp, hrun⟩ := run_code .sample htext hreading hrunning
  exact ⟨htext, hreading, hrunning, p, hp, hrun _ 4⟩

end Flat

end TapeLang
