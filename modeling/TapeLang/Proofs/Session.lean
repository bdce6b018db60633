import TapeLang.Proofs.Machine.Limit
import TapeLang.Session

/-!
# Sessions and runs in a row

A run leaves everything in the machine that the next run needs, so two runs in a row do what one run
of both programs does. The other actions of a session do not meddle with this: they change the tape
or the limit, and nothing else.

* `Config.followedBy`: a configuration with another program behind everything that is left to do.
* `Config.run_followedBy`, `Program.run_append`: a run of one program and then another, as one
  equation.
* `Action.tapeOnly_perform`: an action on the tape changes nothing else, and nothing at all if it
  fails.
* `Machine.steps_after`: the counter of a series of actions.
* `Program.runs_compose`: what becomes of runs and other actions in a session.
-/

namespace TapeLang

/-! ## One program behind another -/

/-- What is left of a block if the program `q` follows the outermost one: under frames it is the
same, and the outermost block has `q` behind it. -/
def Program.followedBy (block q : Program) : List Frame → Program
  | [] => block ++ q
  | _ :: _ => block

/-- The frames if the program `q` follows the outermost block. -/
def Frame.followedBy (q : Program) : List Frame → List Frame
  | [] => []
  | f :: outer => ⟨f.body, f.rest.followedBy q outer⟩ :: followedBy q outer

@[simp]
theorem length_followedBy (q : Program) (frames : List Frame) :
    (Frame.followedBy q frames).length = frames.length := by
  induction frames with
  | nil => rfl
  | cons f outer ih => rw [Frame.followedBy, List.length_cons, ih, List.length_cons]

/-- What follows the outermost block makes no loop one too many. -/
theorem isFull_followedBy (bound : Option Nat) (q : Program) (frames : List Frame) :
    isFull bound (Frame.followedBy q frames) = isFull bound frames :=
  isFull_congr (length_followedBy q frames)

namespace Config

variable {bound : Option Nat} (c : Config) (q : Program)

/-- The configuration with the program `q` behind everything that is left to do. -/
def followedBy : Config :=
  ⟨c.block.followedBy q c.frames, Frame.followedBy q c.frames, c.machine⟩

variable {c}

theorem not_done_followedBy (h : ¬ c.Done) : ¬ (c.followedBy q).Done := by
  obtain ⟨block, frames, m⟩ := c
  rintro ⟨hblock, hframes⟩
  cases frames with
  | nil =>
    refine h ⟨?_, rfl⟩
    cases block with
    | nil => rfl
    | command d s rest => cases hblock
    | loop b s rest => cases hblock
    | foreign n rest => cases hblock
  | cons f outer => cases hframes

/-- Until everything is done, a step does not look at what follows. -/
theorem act_followedBy (h : ¬ c.Done) :
    (c.followedBy q).act bound = (c.act bound).map (fun c => c.followedBy q) id := by
  obtain ⟨block, frames, m⟩ := c
  cases block with
  | nil =>
    cases frames with
    | nil => exact absurd ⟨rfl, rfl⟩ h
    | cons f outer =>
      -- What is left of the block around a loop has `q` behind it just if no other loop is open.
      simp only [followedBy, Program.followedBy, Frame.followedBy, act]
      split
      · rfl
      · split <;> rfl
  | command d s rest =>
    have hblock : (Program.command d s rest).followedBy q frames =
        .command d s (rest.followedBy q frames) := by
      cases frames <;> rfl
    simp only [followedBy, hblock, act]
    cases m.perform d <;> rfl
  | loop b s rest =>
    have hblock : (Program.loop b s rest).followedBy q frames =
        .loop b s (rest.followedBy q frames) := by
      cases frames <;> rfl
    simp only [followedBy, hblock, act, isFull_followedBy]
    split
    · rfl
    · split
      · rfl
      · split <;> rfl
  | foreign n rest => cases frames <;> rfl

/-- Until everything is done, a counted step does not look at what follows either. -/
theorem advance_followedBy (bound : Option Nat) (h : ¬ c.Done) :
    (c.followedBy q).advance bound = (c.advance bound).map (fun c => c.followedBy q) id := by
  have hmachine : (c.followedBy q).machine = c.machine := rfl
  rw [advance_eq c bound h, advance_eq (c.followedBy q) bound (not_done_followedBy q h), hmachine]
  cases c.machine.tick with
  | failed e m => rfl
  | done m => exact act_followedBy (c := c.onMachine m) q h

/-- A run goes the same way whatever follows, and when everything is done, it goes on as a run of
what follows, with the steps that are left. -/
theorem run_followedBy (n : Nat) :
    (c.followedBy q).run bound n =
      match c.run bound n with
      | .finished m => q.run bound (n - (m.steps - c.machine.steps)) m
      | .failed e m => .failed e m
      | .unfinished c' => .unfinished (c'.followedBy q) := by
  have hmapped := run_map_until_done (I := fun _ => True) (f := fun c => c.followedBy q) (g := id)
    (fun _ _ => trivial) (fun c _ h => advance_followedBy q bound h) (c := c) trivial n
  rw [hmapped]
  rfl

/-- A run that ends the program has done so once it has counted its last step. -/
theorem run_of_finished {n : Nat} {m : Machine} (h : c.run bound n = .finished m) :
    c.run bound (m.steps - c.machine.steps) = .finished m := by
  have hle := c.steps_le_run bound n
  rw [h] at hle
  have hends : c.EndsAfter bound (m.steps - c.machine.steps) :=
    ⟨n, by rw [h]; trivial, by rw [h]; exact (Nat.add_sub_of_le hle).symm⟩
  rcases Nat.le_total n (m.steps - c.machine.steps) with hn | hn
  · rw [run_of_ended c (by rw [h]; trivial) hn, h]
  · rw [← run_of_ended c hends.ended hn, h]

/-- When a run has ended, what follows runs on the machine that it has left. -/
theorem run_followedBy_of_finished {n : Nat} {m : Machine} (h : c.run bound n = .finished m)
    (k : Nat) :
    (c.followedBy q).run bound (m.steps - c.machine.steps + k) = q.run bound k m := by
  have hlast := run_of_finished h
  have hended : (c.run bound (m.steps - c.machine.steps)).Ended := by
    rw [hlast]
    trivial
  rw [run_followedBy, run_of_ended c hended (Nat.le_add_right _ k), hlast]
  simp only [Nat.add_sub_cancel_left]

end Config

/-! ## Other actions -/

/-- From the first machine to the second one only the tape has changed, and nothing at all if there
was a failure. -/
structure Machine.TapeOnly (m m' : Machine) (failure : Prop) : Prop where
  /-- The counter, the limit, the input and the events are the same. -/
  rest_eq : m' = { m with tape := m'.tape }
  /-- After a failure the tape is the same, too. -/
  unchanged : failure → m' = m

namespace Machine

variable {m : Machine}

theorem TapeOnly.refl (m : Machine) (failure : Prop) : m.TapeOnly m failure :=
  ⟨rfl, fun _ => rfl⟩

theorem TapeOnly.withTape (m : Machine) (tape : Tape) {failure : Prop} (h : ¬ failure) :
    m.TapeOnly { m with tape } failure :=
  ⟨rfl, fun hfailure => absurd hfailure h⟩

theorem tapeOnly_update (f : Int → Int) :
    m.TapeOnly (m.update f).machine (∀ m', m.update f ≠ .done m') := by
  unfold update
  split
  · exact .refl m _
  · exact .withTape m _ fun h => h _ rfl

theorem tapeOnly_assign (v : Int) :
    m.TapeOnly (m.assign v).machine (∀ m', m.assign v ≠ .done m') := by
  unfold assign
  split
  · exact .refl m _
  · exact .withTape m _ fun h => h _ rfl

theorem tapeOnly_move (delta : Int) :
    m.TapeOnly (m.move delta).machine (∀ m', m.move delta ≠ .done m') := by
  unfold move
  split
  · exact .withTape m _ fun h => h _ rfl
  · exact .refl m _

/-- The machine on a blank tape, or as it is if there is none of this size, with the reason. -/
def renew (hasRoom : Nat → Bool) (m : Machine) (size : Int) : Machine × Option BadTapeSize :=
  match Tape.blank? hasRoom size with
  | .ok tape => ({ m with tape }, none)
  | .error e => (m, some e)

theorem tapeOnly_renew (hasRoom : Nat → Bool) (size : Int) :
    m.TapeOnly (m.renew hasRoom size).1 ((m.renew hasRoom size).2 ≠ none) := by
  unfold renew
  split
  · exact .withTape m _ fun h => h rfl
  · exact .refl m _

/-- The machine behind a series of actions. Each of them begins where the one before it has left the
machine, with a failure or without. -/
def after (bound : Option Nat) (fuel : Nat) (m : Machine) (actions : List Action) : Machine :=
  actions.foldl (fun m a => (a.perform bound fuel m).machine) m

end Machine

namespace Action

variable {bound : Option Nat} {fuel : Nat} {m : Machine}

/-- The action works on the tape: it neither runs a program nor sets the limit. -/
def onTape : Action → Bool
  | run _ | setLimit _ => false
  | move _ | assign _ | add _ | scale _ | look | replace _ => true

theorem tapeOnly_ofEffect {o : Effect} (h : m.TapeOnly o.machine (∀ m', o ≠ .done m')) :
    m.TapeOnly (Response.ofEffect o).machine ((Response.ofEffect o).error ≠ none) := by
  cases o with
  | done m' => exact ⟨h.rest_eq, fun hnone => absurd rfl hnone⟩
  | failed e m' => exact ⟨h.rest_eq, fun _ => h.unchanged fun m'' => by simp⟩

/-- An action on the tape changes nothing else. -/
theorem tapeOnly_perform {a : Action} (h : a.onTape = true) :
    m.TapeOnly (a.perform bound fuel m).machine ((a.perform bound fuel m).error ≠ none) := by
  cases a with
  | run p => cases h
  | setLimit limit => cases h
  | move delta => exact tapeOnly_ofEffect (Machine.tapeOnly_move delta)
  | assign v => exact tapeOnly_ofEffect (Machine.tapeOnly_assign v)
  | add n => exact tapeOnly_ofEffect (Machine.tapeOnly_update _)
  | scale n => exact tapeOnly_ofEffect (Machine.tapeOnly_update _)
  | look =>
    simp only [perform]
    split <;> exact .refl m _
  | replace tape => exact .withTape m tape fun hnone => hnone rfl

/-- Only a run changes the counter. -/
theorem steps_perform {a : Action} (h : ∀ p, a ≠ .run p) :
    (a.perform bound fuel m).machine.steps = m.steps := by
  cases htape : a.onTape with
  | true =>
    rw [(tapeOnly_perform htape).rest_eq]
  | false =>
    cases a with
    | run p => exact absurd rfl (h p)
    | setLimit limit => rfl
    | move _ | assign _ | add _ | scale _ | look | replace _ => cases htape

/-- No action takes a counted step back. -/
theorem steps_le_perform (a : Action) : m.steps ≤ (a.perform bound fuel m).machine.steps := by
  by_cases h : ∃ p, a = .run p
  · obtain ⟨p, rfl⟩ := h
    exact Config.steps_le_run ⟨p, [], m⟩ bound fuel
  · rw [steps_perform fun p hp => h ⟨p, hp⟩]

end Action

/-- The counter never falls in a session, and it stays as it is without runs. -/
theorem Machine.steps_after (bound : Option Nat) (fuel : Nat) (m : Machine)
    (actions : List Action) :
    m.steps ≤ (m.after bound fuel actions).steps ∧
      ((∀ a ∈ actions, ∀ p, a ≠ .run p) → (m.after bound fuel actions).steps = m.steps) := by
  induction actions generalizing m with
  | nil => exact ⟨Nat.le_refl _, fun _ => rfl⟩
  | cons a actions ih =>
    obtain ⟨hle, heq⟩ := ih (a.perform bound fuel m).machine
    refine ⟨a.steps_le_perform.trans hle, fun hruns => ?_⟩
    obtain ⟨ha, hrest⟩ := List.forall_mem_cons.1 hruns
    exact (heq hrest).trans (Action.steps_perform ha)

namespace Program

/-- The run of two programs in a row is told by how the run of the first one stands. -/
theorem run_append (bound : Option Nat) (p q : Program) (m : Machine) (n : Nat) :
    (p ++ q).run bound n m =
      match p.run bound n m with
      | .finished m' => q.run bound (n - (m'.steps - m.steps)) m'
      | .failed e m' => .failed e m'
      | .unfinished c => .unfinished (c.followedBy q) :=
  Config.run_followedBy (c := ⟨p, [], m⟩) q n

/-- Runs of one session compose, whatever has happened to the machine before. If a run of `p` fails,
the run of `p ++ q` fails in the same way; if it ends, the run of `p ++ q` goes on just as a run of
`q` after it, and writes what the two write one after the other; as long as it goes on, so does that
of `p ++ q`. The counter never falls in a session and is changed by runs only; a run that begins
when the limit is reached fails, counts one step and changes nothing else, and a caller sees that
the limit is exceeded just if the limit has no more digits than can be written; whatever is done to
the tape between the runs changes nothing else, and nothing at all if it fails. -/
theorem runs_compose (bound : Option Nat) (p q : Program) (m : Machine) :
    (∀ n e m', p.run bound n m = .failed e m' → (p ++ q).run bound n m = .failed e m') ∧
    (∀ n m', p.run bound n m = .finished m' → ∀ k,
      (p ++ q).run bound (m'.steps - m.steps + k) m = q.run bound k m' ∧
      ∃ out out', m'.output = m.output ++ out ∧
        (q.run bound k m').machine.output = m'.output ++ out' ∧
        ((p ++ q).run bound (m'.steps - m.steps + k) m).machine.output =
          m.output ++ (out ++ out')) ∧
    (∀ n c, p.run bound n m = .unfinished c →
      (p ++ q).run bound n m = .unfinished (c.followedBy q)) ∧
    (∀ fuel actions, m.steps ≤ (m.after bound fuel actions).steps ∧
      ((∀ a ∈ actions, ∀ r, a ≠ .run r) → (m.after bound fuel actions).steps = m.steps)) ∧
    (p ≠ .nil → ∀ l, m.limit = some l → l ≤ m.steps →
      (∀ n, p.run bound (n + 1) m = .failed (.stepLimit l) { m with steps := m.steps + 1 }) ∧
      (RunError.stepLimit l).ShowsIff (.stepLimitExceeded (.int l))
        (l.natAbs < 10 ^ Text.maxDigits)) ∧
    (∀ fuel (a : Action), a.onTape = true →
      m.TapeOnly (a.perform bound fuel m).machine ((a.perform bound fuel m).error ≠ none)) ∧
    (∀ f, m.TapeOnly (m.update f).machine (∀ m', m.update f ≠ .done m')) ∧
    ∀ hasRoom size, m.TapeOnly (m.renew hasRoom size).1 ((m.renew hasRoom size).2 ≠ none) := by
  refine ⟨fun n e m' h => ?_, fun n m' h k => ?_, fun n c h => ?_,
    fun fuel => m.steps_after bound fuel,
    fun hp l hlimit hl => ⟨run_at_limit hp hlimit hl, RunError.stepLimit_showsIff l⟩,
    fun fuel a => Action.tapeOnly_perform, Machine.tapeOnly_update, Machine.tapeOnly_renew⟩
  · rw [run_append, h]
  -- A run only adds to the output, so what each run has written is what it has added.
  · have hboth : (p ++ q).run bound (m'.steps - m.steps + k) m = q.run bound k m' :=
      Config.run_followedBy_of_finished (c := ⟨p, [], m⟩) q h k
    obtain ⟨out, hout⟩ : m.output <+: (p.run bound n m).machine.output :=
      Config.output_run ⟨p, [], m⟩ n
    obtain ⟨out', hout'⟩ : m'.output <+: (q.run bound k m').machine.output :=
      Config.output_run ⟨q, [], m'⟩ k
    rw [h] at hout
    refine ⟨hboth, out, out', hout.symm, hout'.symm, ?_⟩
    rw [hboth, ← hout', ← List.append_assoc, hout]
    rfl
  · rw [run_append, h]

/-- On the last cell, to which a negative pointer leads, two runs come to the limit together: the
second one begins when it is reached. A run that fails there at once fails whatever follows. -/
theorem runs_compose_negative_pointer :
    let p : Program := .ofCommands [.increment, .output]
    let q : Program := .ofCommands [.output]
    let r : Program := .ofCommands [.left]
    let m : Machine := { tape := ⟨#[0, 64], -1⟩, steps := 2, limit := some 4 }
    let m' : Machine :=
      { tape := ⟨#[0, 65], -1⟩, steps := 4, limit := some 4, events := #[.write 'A'] }
    p.run none 2 m = .finished m' ∧
      (p ++ q).run none 3 m = .failed (.stepLimit 4) { m' with steps := 5 } ∧
      r.run none 1 m = .failed (.offTape (-1) 2 .left) { m with steps := 3 } ∧
      (r ++ q).run none 1 m = .failed (.offTape (-1) 2 .left) { m with steps := 3 } ∧
      (m.after none 9 [.assign 7, .run p, .move 3, .look]).tape = ⟨#[0, 8], -1⟩ := by
  intro p q r m m'
  have hp : p.run none 2 m = .finished m' := by decide
  have hr : r.run none 1 m = .failed (.offTape (-1) 2 .left) { m with steps := 3 } := by decide
  obtain ⟨-, hfinished, -⟩ := runs_compose none p q m
  obtain ⟨-, -, -, -, hlimit, -⟩ := runs_compose none q p m'
  obtain ⟨hfailed, -⟩ := runs_compose none r q m
  refine ⟨hp, ?_, hr, hfailed 1 _ _ hr, by decide⟩
  exact (hfinished 2 m' hp 1).1.trans ((hlimit (by decide) 4 rfl (by decide)).1 0)

/-- A session whose limit has too many digits: a run begins when this limit is reached, and fails,
but a caller does not see that the limit has been exceeded. -/
theorem unwritable_limit_in_session :
    let p : Program := .ofCommands [.increment]
    let l : Int := -10 ^ Text.maxDigits
    let m : Machine := { tape := ⟨#[0], 0⟩, limit := some l }
    p ≠ .nil ∧ l ≤ m.steps ∧
      ∃ e, (Action.perform none 1 m (.run p)).error = some e ∧
        (Action.perform none 1 m (.run p)).machine = { m with steps := 1 } ∧
        e.failure? = none ∧ e.errorClass = .value := by
  intro p l m
  obtain ⟨hneg, hdigits⟩ : l < 0 ∧ ¬ l.natAbs < 10 ^ Text.maxDigits := Text.neg_pow_unwritable
  clear_value l
  obtain ⟨hnone, hclass, -⟩ := (RunError.stepLimit_showsIff l).hidden hdigits
  have hp : p ≠ .nil := by simp [p, ofCommands]
  have hrun : p.run none 1 m = .failed (.stepLimit l) { m with steps := m.steps + 1 } :=
    run_at_limit hp rfl (Int.le_of_lt hneg) 0
  refine ⟨hp, Int.le_of_lt hneg, .stepLimit l, ?_, ?_, hnone, hclass⟩
  · simp only [Action.perform, hrun, Ending.error?]
  · simp only [Action.perform, hrun, Ending.machine]
    rfl

end Program

end TapeLang
