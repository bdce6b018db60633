import TapeLang.Proofs.Machine.Trace

/-!
# Transcripts

What happens on the streams of a run can be told from its trace and the lines of its input: a
completed `.` writes the cell that its entry shows, a completed `,` flushes and reads the next line,
and nothing else touches the streams. So a law on the events of all runs is a law on transcripts,
and is proved by induction on the trace.

* `Prompted`: lines are read right after a flush, and only then is there a flush.
* `Config.events_run`: the events of a run are the transcript of its trace.
* `Program.recorded_events`: after a success the line feed and the flush that close it are added.
* `Program.stream_protocol`: the protocol that the streams of every run obey.
-/

namespace TapeLang

/-! ## Prompts -/

/-- Each line is read right after a flush, and right after each flush a line is read; but a flush
may be the last event if `ends` holds. -/
structure Prompted (ends : Prop) (events : List Event) : Prop where
  /-- A line is read after a flush. -/
  flushed : ∀ before line after, events = before ++ .readLine line :: after →
    before.getLast? = some .flush
  /-- After a flush a line is read, or nothing happens any more. -/
  read : ∀ before after, events = before ++ .flush :: after →
    (∃ line, after.head? = some (.readLine line)) ∨ after = [] ∧ ends

namespace Prompted

variable {ends : Prop} {events : List Event}

theorem nil : Prompted ends [] where
  flushed := by simp
  read := by simp

theorem flush (h : ends) : Prompted ends [.flush] where
  flushed before line after hsplit := by
    rcases List.cons_eq_append_iff.1 hsplit with ⟨-, hhead⟩ | ⟨before', -, hrest⟩
    · cases hhead
    · simp at hrest
  read before after hsplit := by
    rcases List.cons_eq_append_iff.1 hsplit with ⟨-, hhead⟩ | ⟨before', -, hrest⟩
    · exact Or.inr ⟨(List.cons.inj hhead).2, h⟩
    · simp at hrest

theorem cons_write (h : Prompted ends events) (c : Char) : Prompted ends (.write c :: events) where
  flushed before line after hsplit := by
    rcases List.cons_eq_append_iff.1 hsplit with ⟨-, hhead⟩ | ⟨before', rfl, hrest⟩
    · cases hhead
    · rw [List.getLast?_cons, h.flushed before' line after hrest, Option.getD_some]
  read before after hsplit := by
    rcases List.cons_eq_append_iff.1 hsplit with ⟨-, hhead⟩ | ⟨before', -, hrest⟩
    · cases hhead
    · exact h.read before' after hrest

theorem cons_readLine (h : Prompted ends events) (line : List Text.CodePoint) :
    Prompted ends (.flush :: .readLine line :: events) where
  flushed before line' after hsplit := by
    rcases List.cons_eq_append_iff.1 hsplit with ⟨-, hhead⟩ | ⟨before', rfl, hsplit'⟩
    · cases hhead
    rcases List.cons_eq_append_iff.1 hsplit' with ⟨rfl, -⟩ | ⟨before'', rfl, hrest⟩
    -- It is the line that is new, and the new flush stands before it.
    · rfl
    · rw [List.getLast?_cons, List.getLast?_cons, h.flushed before'' line' after hrest]
      rfl
  read before after hsplit := by
    rcases List.cons_eq_append_iff.1 hsplit with ⟨-, hhead⟩ | ⟨before', -, hsplit'⟩
    -- It is the flush that is new, and the new line is read behind it.
    · obtain ⟨-, rfl⟩ := List.cons.inj hhead
      exact Or.inl ⟨line, rfl⟩
    rcases List.cons_eq_append_iff.1 hsplit' with ⟨-, hhead⟩ | ⟨before'', -, hrest⟩
    · cases hhead
    · exact h.read before'' after hrest

/-- The last event is a flush only where it may be one. -/
theorem ends_of_getLast? (h : Prompted ends events) (hlast : events.getLast? = some .flush) :
    ends := by
  obtain ⟨before, hsplit⟩ := List.getLast?_eq_some_iff.1 hlast
  rcases h.read before [] hsplit with ⟨line, hline⟩ | ⟨-, hends⟩
  · cases hline
  · exact hends

end Prompted

/-! ## Transcripts -/

/-- The line that an event reads. -/
def Event.line? : Event → Option (List Text.CodePoint)
  | readLine line => some line
  | write _ | flush => none

/-- What an instruction does on the streams, told from the entry of its completion and the lines
that have not been read yet. -/
def TraceEntry.events (e : TraceEntry) (lines : List (List Text.CodePoint)) : List Event :=
  match e.mark with
  | .command .output => [.write (Char.ofNat e.value.toNat)]
  | .command .input => [.flush, .readLine (lines.headD [])]
  | _ => []

/-- The lines that are left when an instruction is complete. -/
def TraceEntry.linesLeft (e : TraceEntry) (lines : List (List Text.CodePoint)) :
    List (List Text.CodePoint) :=
  match e.mark with
  | .command .input => lines.tail
  | _ => lines

/-- What the instructions of a trace do on the streams when they are given these lines. -/
def transcript : List TraceEntry → List (List Text.CodePoint) → List Event
  | [], _ => []
  | e :: trace, lines => e.events lines ++ transcript trace (e.linesLeft lines)

/-- The entries at which a command has been completed. -/
def completions (d : Command) (trace : List TraceEntry) : List TraceEntry :=
  trace.filter fun e => e.mark = .command d

theorem completions_cons_of_eq {d : Command} {e : TraceEntry} (h : e.mark = .command d)
    (trace : List TraceEntry) : completions d (e :: trace) = e :: completions d trace :=
  List.filter_cons_of_pos (decide_eq_true h)

theorem completions_cons_of_ne {d : Command} {e : TraceEntry} (h : e.mark ≠ .command d)
    (trace : List TraceEntry) : completions d (e :: trace) = completions d trace :=
  List.filter_cons_of_neg (by simpa using h)

@[simp]
theorem completions_append (d : Command) (xs ys : List TraceEntry) :
    completions d (xs ++ ys) = completions d xs ++ completions d ys :=
  List.filter_append _ _

/-- The lines read in a transcript are the first lines that it was given, one for each completed
`,`; past the last line they are empty. -/
theorem lines_transcript (trace : List TraceEntry) (lines : List (List Text.CodePoint)) :
    (transcript trace lines).filterMap Event.line? =
      (List.range (completions .input trace).length).map fun k => lines.getD k [] := by
  induction trace generalizing lines with
  | nil => rfl
  | cons e trace ih =>
    rw [transcript, List.filterMap_append, ih]
    by_cases hinput : e.mark = .command .input
    · -- The first line is read here, and what comes later counts the lines from the second one.
      have hline : (e.events lines).filterMap Event.line? = [lines.getD 0 []] := by
        rw [TraceEntry.events, hinput]
        cases lines <;> rfl
      have hlater : ∀ k, (e.linesLeft lines).getD k [] = lines.getD (k + 1) [] := by
        intro k
        rw [TraceEntry.linesLeft, hinput]
        cases lines <;> rfl
      rw [completions_cons_of_eq hinput, hline, List.length_cons, List.range_succ_eq_map,
        List.map_cons, List.map_map]
      simp only [hlater]
      rfl
    -- No other entry reads a line or takes one away.
    · have hline : (e.events lines).filterMap Event.line? = [] := by
        unfold TraceEntry.events
        split
        · rfl
        · next h => exact absurd h hinput
        · rfl
      have hsame : e.linesLeft lines = lines := by
        unfold TraceEntry.linesLeft
        split
        · next h => exact absurd h hinput
        · rfl
      rw [completions_cons_of_ne hinput, hline, hsame, List.nil_append]

/-- The characters written in a transcript are those of the cells at the completed `.`. -/
theorem written_transcript (trace : List TraceEntry) (lines : List (List Text.CodePoint)) :
    (transcript trace lines).flatMap Event.written =
      (completions .output trace).map fun e => Char.ofNat e.value.toNat := by
  induction trace generalizing lines with
  | nil => rfl
  | cons e trace ih =>
    rw [transcript, List.flatMap_append, ih]
    unfold TraceEntry.events
    split
    · next houtput =>
      rw [completions_cons_of_eq houtput]
      rfl
    · next hinput =>
      rw [completions_cons_of_ne (by simp [hinput])]
      rfl
    · next hother _ =>
      rw [completions_cons_of_ne hother]
      rfl

/-- Behind a transcript everything is prompted that was so without it. -/
theorem prompted_transcript {ends : Prop} {events : List Event} (h : Prompted ends events)
    (trace : List TraceEntry) (lines : List (List Text.CodePoint)) :
    Prompted ends (transcript trace lines ++ events) := by
  induction trace generalizing lines with
  | nil => exact h
  | cons e trace ih =>
    rw [transcript, List.append_assoc]
    have hrest := ih (e.linesLeft lines)
    unfold TraceEntry.events
    split
    · exact hrest.cons_write _
    · exact hrest.cons_readLine _
    · exact hrest

/-! ## Runs and transcripts -/

namespace Machine

variable {m m' : Machine} {d : Command}

/-- A command that is performed does on the streams what its entry tells, and leaves the lines that
its entry says are left. -/
theorem events_perform (h : m.perform d = .done m') :
    m'.events.toList =
        m.events.toList ++ (TraceEntry.ofMachine (.command d) m').events m.input ∧
      m'.input = (TraceEntry.ofMachine (.command d) m').linesLeft m.input := by
  cases d with
  | increment | decrement =>
    simp only [perform, update] at h
    split at h
    · cases h
    · cases h
      exact ⟨(List.append_nil _).symm, rfl⟩
  | right | left =>
    simp only [perform, move] at h
    split at h
    · cases h
      exact ⟨(List.append_nil _).symm, rfl⟩
    · cases h
  | output =>
    simp only [perform, write] at h
    split at h
    · cases h
    · next v hv =>
      split at h
      · cases h
        -- Writing does not change the cell, so the entry behind it still shows what was written.
        have hshown : (TraceEntry.ofMachine (.command .output)
            (m.record (.write (Char.ofNat v.toNat)))).value = v := by
          simp [TraceEntry.ofMachine, record, hv]
        refine ⟨?_, rfl⟩
        rw [TraceEntry.events, hshown]
        simp [record, TraceEntry.ofMachine]
      · cases h
  | input =>
    simp only [perform, read, assign] at h
    split at h
    · cases h
    · cases h
      cases hlines : m.input <;>
        simp [takeLine, hlines, record, TraceEntry.events, TraceEntry.linesLeft,
          TraceEntry.ofMachine]

/-- Only a character is written. -/
theorem isCodePoint_of_perform_output (h : m.perform .output = .done m') :
    isCodePoint (TraceEntry.ofMachine (.command .output) m').value = true := by
  simp only [perform, write] at h
  split at h
  · cases h
  · next v hv =>
    split at h
    · next hcode =>
      cases h
      have hshown : (m.record (.write (Char.ofNat v.toNat))).tape.current? = some v := hv
      rwa [TraceEntry.ofMachine, hshown]
    · cases h

end Machine

namespace Config

variable {bound : Option Nat} {c c' : Config} {mark : Option Mark}

/-- A step does on the streams what the instruction that it completes does. -/
theorem events_of_next (h : c.advance bound = .next mark c') (trace : List TraceEntry) :
    c'.machine.events.toList ++ transcript trace c'.machine.input =
      c.machine.events.toList ++
        transcript (entriesOf mark c'.machine ++ trace) c.machine.input := by
  rcases c.next_cases h with ⟨d, rfl, hperform⟩ | ⟨rfl, -, hm⟩ | ⟨rfl, hm⟩
  · obtain ⟨hevents, hinput⟩ := Machine.events_perform hperform
    rw [hevents, hinput, List.append_assoc]
    rfl
  · rw [hm]
    rfl
  · rw [hm]
    rfl

/-- The events of a run are the transcript of its trace. -/
theorem events_run (bound : Option Nat) (hrange : c.machine.tape.InRange) (n : Nat) :
    (c.run bound n).machine.events.toList =
      c.machine.events.toList ++ transcript (c.trace bound n) c.machine.input := by
  apply trace_induction (P := fun m trace m' =>
    m'.events.toList = m.events.toList ++ transcript trace m.input) _ _ _ hrange n
  · intro m
    exact (List.append_nil _).symm
  · intro m
    exact (List.append_nil _).symm
  · intro c c' mark trace m hstep htrace
    exact htrace.trans (events_of_next hstep trace)

/-- Where a `.` has been completed, the current cell holds a character. -/
theorem isCodePoint_of_mem_completions {n : Nat} {e : TraceEntry}
    (h : e ∈ completions .output (c.trace bound n)) : isCodePoint e.value = true := by
  obtain ⟨hmem, hmark⟩ := List.mem_filter.1 h
  obtain ⟨before, after, hsplit⟩ := List.append_of_mem hmem
  obtain ⟨k, c₁, c₂, -, hnext, he, -⟩ := exists_step_of_entry hsplit
  rw [of_decide_eq_true hmark] at hnext he
  rcases c₁.next_cases hnext with ⟨d, hd, hperform⟩ | ⟨hloop, -⟩ | ⟨hnone, -⟩
  · cases hd
    rw [he]
    exact Machine.isCodePoint_of_perform_output hperform
  · cases hloop
  · cases hnone

end Config

/-! ## Recordings -/

/-- The program has ended without an error. -/
def Ending.succeeded : Ending → Bool
  | finished _ => true
  | failed _ _ | unfinished _ => false

/-- The events of a closed run are the transcript of its trace and, after a success, the line feed
and the flush that close it. -/
theorem Program.events_runClosed (bound : Option Nat) (p : Program) {m : Machine}
    (hrange : m.tape.InRange) (n : Nat) :
    (p.runClosed bound n m).machine.events.toList =
      m.events.toList ++ transcript (p.runTraced bound n m).1.toList m.input ++
        if (p.runClosed bound n m).succeeded then [.write '\n', .flush] else [] := by
  -- Before it is closed the run has done on the streams what the transcript says.
  have hevents : (p.run bound n m).machine.events.toList =
      m.events.toList ++ transcript (p.runTraced bound n m).1.toList m.input := by
    rw [runTraced_eq]
    exact Config.events_run (c := ⟨p, [], m⟩) bound hrange n
  rw [← hevents, runClosed]
  cases p.run bound n m with
  | finished m' => simp [Ending.succeeded, Ending.machine, Machine.close, Machine.record]
  | failed e m' => simp [Ending.succeeded]
  | unfinished c => simp [Ending.succeeded]

/-- What is recorded of a program that is run under a configuration. -/
structure Recording where
  /-- What happens on the streams, oldest first. -/
  events : List Event
  /-- The instructions that are completed, oldest first. -/
  trace : List TraceEntry
  /-- How the run stands, unless its tape cannot be made. -/
  ending : Except BadTapeSize Ending

/-- The program has been run to its end without an error. -/
def Recording.succeeded (r : Recording) : Bool :=
  match r.ending with
  | .ok o => o.succeeded
  | .error _ => false

namespace Program

/-- Run a program under a configuration on a blank tape, with a line feed at the end of a complete
run, and record this. Nothing is run if the tape cannot be made. -/
def recorded (hasRoom : Nat → Bool) (bound : Option Nat) (fuel : Nat) (p : Program)
    (config : RunConfig) (lines : List (List Text.CodePoint)) : Recording :=
  match config.machine hasRoom lines with
  | .error e => { events := [], trace := [], ending := .error e }
  | .ok m =>
    { events := (p.runClosed bound fuel m).machine.events.toList
      trace := (p.runTraced bound fuel m).1.toList
      ending := .ok (p.runClosed bound fuel m) }

variable (hasRoom : Nat → Bool) (bound : Option Nat) (fuel : Nat) (p : Program)
  (config : RunConfig) (lines : List (List Text.CodePoint))

/-- The events of a recording are the transcript of its trace, and its closing after a success. -/
theorem recorded_events :
    (p.recorded hasRoom bound fuel config lines).events =
      transcript (p.recorded hasRoom bound fuel config lines).trace lines ++
        if (p.recorded hasRoom bound fuel config lines).succeeded then [.write '\n', .flush]
        else [] := by
  unfold recorded
  rcases config.machine_cases hasRoom lines with ⟨b, -, hmachine⟩ | ⟨t, -, hrange, hmachine⟩
  · rw [hmachine]
    rfl
  · rw [hmachine]
    exact p.events_runClosed bound hrange fuel

/-- Only cells that hold characters are written. -/
theorem isCodePoint_of_recorded {e : TraceEntry}
    (h : e ∈ completions .output (p.recorded hasRoom bound fuel config lines).trace) :
    isCodePoint e.value = true := by
  unfold recorded at h
  cases hmachine : config.machine hasRoom lines with
  | error b =>
    rw [hmachine] at h
    cases h
  | ok m =>
    simp only [hmachine, runTraced_eq] at h
    exact Config.isCodePoint_of_mem_completions h

/-- The protocol of the streams. Every line is read right after a flush, and every flush is followed
by reading a line, unless it is the last event of a successful run. Each completed `,` reads one
line, in the order of the lines and empty past the last of them. Each completed `.` writes one
character, whose number is the cell it was at, and nothing else is written but the line feed that
ends a successful run. The last event is a flush just if the run has succeeded, and it then comes
right behind this line feed. A tape size below one is refused before anything happens. -/
theorem stream_protocol (hasRoom : Nat → Bool) (bound : Option Nat) (fuel : Nat) (p : Program)
    (config : RunConfig) (lines : List (List Text.CodePoint)) :
    let r := p.recorded hasRoom bound fuel config lines
    Prompted (r.succeeded = true) r.events ∧
    r.events.filterMap Event.line? =
      (List.range (completions .input r.trace).length).map (fun k => lines.getD k []) ∧
    (∃ text : List Char,
      r.events.flatMap Event.written = text ++ (if r.succeeded then ['\n'] else []) ∧
      text.map (fun ch => (ch.toNat : Int)) = (completions .output r.trace).map TraceEntry.value ∧
      ∀ e ∈ completions .output r.trace, isCodePoint e.value = true) ∧
    (r.events.getLast? = some .flush ↔ r.succeeded = true) ∧
    (r.succeeded = true → ∃ before, r.events = before ++ [.write '\n', .flush]) ∧
    (config.tapeSize < 1 →
      r.ending = .error (.tooSmall config.tapeSize) ∧ r.events = []) := by
  intro r
  have hevents : r.events =
      transcript r.trace lines ++ if r.succeeded then [.write '\n', .flush] else [] :=
    p.recorded_events hasRoom bound fuel config lines
  -- The closing line feed with its flush is all that stands behind the transcript.
  have hprompted : Prompted (r.succeeded = true) r.events := by
    rw [hevents]
    refine prompted_transcript ?_ r.trace lines
    split
    · next hsucceeded => exact (Prompted.flush hsucceeded).cons_write '\n'
    · exact .nil
  have hclosed : r.succeeded = true → r.events = transcript r.trace lines ++
      [.write '\n', .flush] := fun hsucceeded => by rw [hevents, if_pos hsucceeded]
  have hcode : ∀ e ∈ completions .output r.trace, isCodePoint e.value = true := fun e he =>
    p.isCodePoint_of_recorded hasRoom bound fuel config lines he
  have hwritten : r.events.flatMap Event.written =
      ((completions .output r.trace).map fun e => Char.ofNat e.value.toNat) ++
        if r.succeeded then ['\n'] else [] := by
    rw [hevents, List.flatMap_append, written_transcript]
    split <;> rfl
  refine ⟨hprompted, ?_, ⟨_, hwritten, ?_, hcode⟩, ⟨hprompted.ends_of_getLast?, ?_⟩,
    fun hsucceeded => ⟨_, hclosed hsucceeded⟩, fun hsize => ?_⟩
  · rw [hevents, List.filterMap_append, lines_transcript]
    split <;> simp [Event.line?]
  · rw [List.map_map]
    exact List.map_congr_left fun e he => toNat_ofNat_of_isCodePoint (hcode e he)
  · intro hsucceeded
    rw [hclosed hsucceeded, List.getLast?_append]
    rfl
  -- Without a tape there is no machine, and nothing has happened yet.
  · have hmachine : config.machine hasRoom lines = .error (.tooSmall config.tapeSize) := by
      rw [RunConfig.machine, Tape.blank?, if_pos hsize]
    have hr : r = { events := [], trace := [], ending := .error (.tooSmall config.tapeSize) } := by
      change p.recorded hasRoom bound fuel config lines = _
      rw [recorded, hmachine]
    rw [hr]
    exact ⟨rfl, rfl⟩

/-- A program that echoes lines until an empty one: of two lines it writes the first characters, and
a third line is read past the end. -/
theorem stream_protocol_echo :
    let p : Program := .command .input none
      (.loop (.ofCommands [.output, .input]) none .nil)
    let first := Text.codePoints ['h', 'i', '\n']
    let second := Text.codePoints ['o']
    let r := p.recorded Limits.sample.hasRoom none 20 ⟨1, none⟩ [first, second]
    r.events = [.flush, .readLine first, .write 'h', .flush, .readLine second, .write 'o', .flush,
      .readLine [], .write '\n', .flush] ∧
    r.succeeded = true ∧ Prompted (r.succeeded = true) r.events ∧
    (p.recorded Limits.sample.hasRoom none 20 ⟨0, none⟩ []).events = [] := by
  intro p first second r
  obtain ⟨hprompted, -⟩ := stream_protocol Limits.sample.hasRoom none 20 p ⟨1, none⟩ [first, second]
  obtain ⟨-, -, -, -, -, hrefused⟩ := stream_protocol Limits.sample.hasRoom none 20 p ⟨0, none⟩ []
  exact ⟨by decide, by decide, hprompted, (hrefused (by decide)).2⟩

end Program

end TapeLang
