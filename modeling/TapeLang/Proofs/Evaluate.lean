import TapeLang.Evaluate
import TapeLang.Proofs.Machine.Run
import TapeLang.Proofs.Program.RoundTrip

/-!
# Evaluating without places

A run never looks at the places of the instructions that it runs (`Config.run_bare`), so programs
that differ in their places only are run alike.

* `evaluate_code`: deleting the comments of a text changes no evaluation, except for the place of
  an unbalanced bracket.
* `Program.source_inverse`: writing and reading are inverse, and comments never matter.
-/

namespace TapeLang

open Text

/-! ## Runs of bare programs -/

/-- The frame without places. -/
def Frame.bare (f : Frame) : Frame :=
  ⟨f.body.bare, f.rest.bare⟩

namespace Config

/-- The configuration without places. -/
def bare (c : Config) : Config :=
  ⟨c.block.bare, c.frames.map Frame.bare, c.machine⟩

variable {bound : Option Nat} (c : Config)

/-- A step does not look at places. -/
theorem advance_bare : c.bare.advance bound = (c.advance bound).map bare id := by
  obtain ⟨block, frames, m⟩ := c
  have hfull : isFull bound (frames.map Frame.bare) = isFull bound frames :=
    isFull_congr (List.length_map Frame.bare)
  cases block with
  | nil =>
    cases frames with
    | nil => rfl
    | cons f outer =>
      simp only [bare, Program.bare, List.map_cons, advance]
      split
      · rfl
      · split
        · rfl
        · split <;> rfl
  | command d s rest =>
    simp only [bare, Program.bare, advance]
    split
    · rfl
    · split <;> rfl
  | loop b s rest =>
    simp only [bare, Program.bare, advance, hfull]
    split
    · rfl
    · split
      · rfl
      · split
        · rfl
        · split <;> rfl
  | foreign n rest =>
    simp only [bare, Program.bare, advance]
    split <;> rfl

/-- A run does not look at places. -/
theorem run_bare (fuel : Nat) : c.bare.run bound fuel = (c.run bound fuel).map bare id :=
  run_map c (fun c => c.advance_bare) fuel

end Config

namespace Program

variable {bound : Option Nat} {p q : Program}

/-- A complete run does not look at places. -/
theorem runClosed_bare (fuel : Nat) (m : Machine) :
    p.bare.runClosed bound fuel m = (p.runClosed bound fuel m).map Config.bare id := by
  have hrun : p.bare.run bound fuel m = (p.run bound fuel m).map Config.bare id :=
    Config.run_bare ⟨p, [], m⟩ fuel
  rw [runClosed, runClosed, hrun]
  cases p.run bound fuel m <;> rfl

end Program

/-! ## Comments -/

/-- What an evaluation answers if its run stands so. -/
def Ending.answer : Ending → Except EvalError (List Char)
  | finished m => .ok m.output
  | failed e _ => .error (.run e)
  | unfinished _ => .error .unfinished

/-- What is left to do does not matter to the answer. -/
theorem Ending.answer_map (o : Ending) (f : Config → Config) : (o.map f id).answer = o.answer := by
  cases o <;> rfl

/-- A run that ends gives what it has written, and a line feed. -/
theorem Program.answer_of_finished {bound : Option Nat} {p : Program} {fuel : Nat} {m m' : Machine}
    (h : p.run bound fuel m = .finished m') :
    (p.runClosed bound fuel m).answer = .ok (m'.output ++ ['\n']) := by
  rw [runClosed, h]
  exact congrArg Except.ok m'.output_close

theorem Program.answer_of_failed {bound : Option Nat} {p : Program} {fuel : Nat} {m m' : Machine}
    {e : RunError} (h : p.run bound fuel m = .failed e m') :
    (p.runClosed bound fuel m).answer = .error (.run e) := by
  rw [runClosed, h]
  rfl

/-- Programs that differ in their places only give the same answer. -/
theorem Program.answer_of_bare_eq {bound : Option Nat} {p q : Program} (h : p.bare = q.bare)
    (fuel : Nat) (m : Machine) :
    (p.runClosed bound fuel m).answer = (q.runClosed bound fuel m).answer := by
  rw [← Ending.answer_map _ Config.bare, ← Program.runClosed_bare, h, Program.runClosed_bare,
    Ending.answer_map]

/-- Two evaluations give the same text or the same error, apart from the place of a bracket. -/
def EvalAlike : Except EvalError (List Char) → Except EvalError (List Char) → Prop
  | .error (.parse e), .error (.parse e') => e.SameKind e'
  | a, b => a = b

@[refl]
theorem EvalAlike.refl (a : Except EvalError (List Char)) : EvalAlike a a := by
  cases a with
  | ok text => rfl
  | error e =>
    cases e with
    | parse e => cases e <;> trivial
    | _ => rfl

/-- Deleting the comments of a text changes no evaluation. -/
theorem evaluate_code {bounds : Limits} (hreading : 0 < bounds.reading) (fuel : Nat)
    (text : List Char) (config : RunConfig) (input : List CodePoint) :
    EvalAlike (evaluate bounds fuel (code text) config input)
      (evaluate bounds fuel text config input) := by
  -- Both texts are refused or both are read, and what is read differs in places only.
  have halike := readAlike_code hreading text
  rw [evaluate, evaluate]
  cases hcode : Program.ofTextWithin bounds.reading (code text) with
  | error e =>
    cases htext : Program.ofTextWithin bounds.reading text with
    | error e' =>
      rw [hcode, htext] at halike
      exact halike
    | ok q =>
      rw [hcode, htext] at halike
      exact halike.elim
  | ok p =>
    cases htext : Program.ofTextWithin bounds.reading text with
    | error e' =>
      rw [hcode, htext] at halike
      exact halike.elim
    | ok q =>
      rw [hcode, htext] at halike
      have hbare : p.bare = q.bare := (Program.same_eq_true_iff.1 halike).2
      -- A tape that cannot be made is refused before anything is run.
      cases config.machine bounds.hasRoom (lines input) with
      | error e => exact EvalAlike.refl _
      | ok m =>
        have hanswer : (p.runClosed (some bounds.running) fuel m).answer =
            (q.runClosed (some bounds.running) fuel m).answer :=
          Program.answer_of_bare_eq hbare fuel m
        change EvalAlike (p.runClosed (some bounds.running) fuel m).answer
          (q.runClosed (some bounds.running) fuel m).answer
        rw [hanswer]

/-! ## Writing and reading -/

/-- The text of a program is evaluated by running the program. -/
theorem evaluate_source {bounds : Limits} {p : Program} (hnative : p.native = true)
    (hdepth : p.depth < bounds.reading) {config : RunConfig} {input : List CodePoint} {m : Machine}
    (hm : config.machine bounds.hasRoom (lines input) = .ok m) (fuel : Nat) :
    evaluate bounds fuel p.source config input =
      (p.runClosed (some bounds.running) fuel m).answer := by
  obtain ⟨q, hread, hbare⟩ := Program.ofTextWithin_source hnative hdepth
  rw [← Program.answer_of_bare_eq hbare, evaluate, hread, hm]
  rfl

namespace Program

/-- Writing and reading are inverse, and comments never matter: the text of a native program is
read as an equal program, what is read from a text is written as that text without its comments,
and a text is read and evaluated like the same text without its comments. -/
theorem source_inverse (bounds : Limits) (hreading : 0 < bounds.reading)
    (hwalking : bounds.reading ≤ bounds.walking + 1) :
    (∀ p : Program, p.native = true → p.depth < bounds.reading →
      ∃ q, p.sourceWithin bounds.walking = .ok p.source ∧
        ofTextWithin bounds.reading p.source = .ok q ∧ q.same p = true ∧
        (p.depth ≤ bounds.comparing → q.sameWithin bounds.comparing p = some true)) ∧
    (∀ (text : List Char) (p : Program), ofTextWithin bounds.reading text = .ok p →
      p.sourceWithin bounds.walking = .ok (code text)) ∧
    ∀ text : List Char,
      ReadAlike (ofTextWithin bounds.reading (code text)) (ofTextWithin bounds.reading text) ∧
      ∀ (fuel : Nat) (config : RunConfig) (input : List CodePoint),
        EvalAlike (evaluate bounds fuel (code text) config input)
          (evaluate bounds fuel text config input) := by
  refine ⟨fun p hnative hdepth => ?_, fun text p h => ?_,
    fun text => ⟨?_, fun fuel config input => ?_⟩⟩
  -- What is read again has the same instructions at other places.
  · obtain ⟨q, hread, hbare⟩ := ofTextWithin_source hnative hdepth
    have hsame : q.same p = true := same_eq_true_iff.2 ⟨native_of_ofTextWithin hread, hbare⟩
    refine ⟨q, sourceWithin_eq_ok hnative (by omega), hread, hsame, fun hcomparing => ?_⟩
    rw [sameWithin_eq (by rwa [← depth_bare, hbare, depth_bare]), hsame]
  · have hdepth := depth_lt_of_ofTextWithin hreading h
    rw [sourceWithin_eq_ok (native_of_ofTextWithin h) (by omega), source_of_ofTextWithin h]
  · exact readAlike_code hreading text
  · exact evaluate_code hreading fuel text config input

/-- At the sample limits, a loop is written and read back, and a comment in its text is lost
without a trace. -/
theorem source_inverse_commented_loop :
    let p : Program := .loop (.command .decrement none .nil) none .nil
    0 < Limits.sample.reading ∧
      Limits.sample.reading ≤ Limits.sample.walking + 1 ∧
      (∃ q, ofText ['[', '-', ']'] = .ok q ∧ q.same p = true) ∧
      ReadAlike (ofText ['[', '-', ']']) (ofText ['[', 'x', '-', '\n', ']']) ∧
      EvalAlike (evaluate .sample 9 ['[', '-', ']'] ⟨2, none⟩ [])
        (evaluate .sample 9 ['[', 'x', '-', '\n', ']'] ⟨2, none⟩ []) := by
  intro p
  have hreading : 0 < Limits.sample.reading := by decide
  have hwalking : Limits.sample.reading ≤ Limits.sample.walking + 1 := by decide
  obtain ⟨hwrite, -, hcomments⟩ := source_inverse .sample hreading hwalking
  obtain ⟨q, -, hread, hsame, -⟩ := hwrite p rfl (by decide)
  obtain ⟨halike, heval⟩ := hcomments ['[', 'x', '-', '\n', ']']
  have hcode : code ['[', 'x', '-', '\n', ']'] = ['[', '-', ']'] := by decide
  rw [hcode] at halike heval
  exact ⟨hreading, hwalking, ⟨q, hread, hsame⟩, halike, heval 9 ⟨2, none⟩ []⟩

end Program

end TapeLang
