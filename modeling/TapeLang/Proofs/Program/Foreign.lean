import TapeLang.Limits
import TapeLang.Proofs.Program.Printers

/-!
# Foreign instructions

A caller may have put nodes into a program that are no instructions of the language. Both printers
stop at the first of them, in the order of the text, and at nothing else in a program that is not
nested too deeply. Measures do not stop: a foreign node counts as a leaf, and has no depth.

* `Program.nodes`: all nodes of a program in pre-order.
* `Program.obstacle?_of_le`: what printing stops at is the first foreign node.
* `Program.printers_reject_alike`: the printers and the measures together.
-/

namespace TapeLang

/-- A node of a program, without what stands in it or behind it. -/
inductive Node
  /-- A command. -/
  | command (c : Command)
  /-- A loop. -/
  | loop
  /-- A node of an unknown kind with this name. -/
  | foreign (name : String)
  deriving DecidableEq

/-- The name of the kind of a foreign node. -/
def Node.foreignName? : Node → Option String
  | command _ | loop => none
  | foreign name => some name

namespace Program

/-- All nodes in pre-order: a loop comes before its body, and the body before what follows the
loop. -/
def nodes : Program → List Node
  | nil => []
  | command c _ rest => .command c :: rest.nodes
  | loop b _ rest => .loop :: (b.nodes ++ rest.nodes)
  | foreign name rest => .foreign name :: rest.nodes

/-- The program without its foreign nodes, in loop bodies too. -/
def withoutForeign : Program → Program
  | nil => nil
  | command c s rest => command c s rest.withoutForeign
  | loop b s rest => loop b.withoutForeign s rest.withoutForeign
  | foreign _ rest => rest.withoutForeign

variable {p : Program} {bound : Nat}

/-- The name of the first foreign node in pre-order. -/
def firstForeign? (p : Program) : Option String :=
  p.nodes.findSome? Node.foreignName?

/-! ## Measures -/

/-- Every node but a loop is a leaf. -/
theorem leaves_eq_length_filter (p : Program) :
    p.leaves = (p.nodes.filter (· ≠ .loop)).length := by
  induction p with
  | nil => rfl
  | command c s rest ih => simpa [leaves, nodes] using ih
  | loop b s rest ihb ih => simp [leaves, nodes, ihb, ih]
  | foreign name rest ih => simpa [leaves, nodes] using ih

theorem depth_withoutForeign (p : Program) : p.withoutForeign.depth = p.depth := by
  induction p <;> simp_all [withoutForeign, depth]

/-! ## Printers -/

/-- What printing stops at, in a program that is not nested too deeply, is the first foreign
node. -/
theorem obstacle?_of_le (h : p.depth ≤ bound) :
    p.obstacle? bound = p.firstForeign?.map .foreign := by
  induction p generalizing bound with
  | nil => rfl
  | command c s rest ih => exact ih h
  | loop b s rest ihb ih =>
    cases bound with
    | zero => exact absurd h not_depth_loop_le_zero
    | succ inner =>
      obtain ⟨hbody, hrest⟩ := depth_loop_le_succ_iff.1 h
      -- The body is searched first, and what follows the loop only if nothing was found there.
      have hfirst : (loop b s rest).firstForeign? = b.firstForeign?.or rest.firstForeign? :=
        List.findSome?_append
      rw [obstacle?, ihb hbody, ih hrest, hfirst]
      cases b.firstForeign? <;> rfl
  | foreign name rest _ => rfl

theorem sexprWithin_of_le (h : p.depth ≤ bound) :
    p.sexprWithin bound =
      match p.firstForeign? with
      | some name => .error (.unknown name)
      | none => .ok p.sexpr := by
  rw [sexprWithin_eq, obstacle?_of_le h]
  cases p.firstForeign? <;> rfl

theorem sourceWithin_of_le (h : p.depth ≤ bound) :
    p.sourceWithin bound =
      match p.firstForeign? with
      | some name => .error (.unlisted name)
      | none => .ok p.source := by
  rw [sourceWithin_eq, obstacle?_of_le h]
  cases p.firstForeign? <;> rfl

/-- A program has a first foreign node if it has any. -/
theorem exists_firstForeign?_iff :
    (∃ name, p.firstForeign? = some name) ↔ ∃ name, .foreign name ∈ p.nodes := by
  rw [← Option.isSome_iff_exists, firstForeign?, List.findSome?_isSome_iff]
  constructor
  · rintro ⟨node, hnode, hname⟩
    cases node with
    | command c => cases hname
    | loop => cases hname
    | foreign name => exact ⟨name, hnode⟩
  · rintro ⟨name, hname⟩
    exact ⟨_, hname, rfl⟩

/-- Both printers refuse the same programs, among those that are not nested too deeply: the ones
with a foreign node anywhere in them. The printer of symbolic expressions complains of an unknown
instruction and names the kind of the first foreign node in pre-order; the writer of source text
fails to look the same kind up. All other programs they print. No measure refuses such a program:
every node but a loop is a leaf, be it foreign or not, and the depth is that of the program without
its foreign nodes. -/
theorem printers_reject_alike (bounds : Limits) (p : Program)
    (hprinting : p.depth ≤ bounds.printing) (hwalking : p.depth ≤ bounds.walking) :
    (∀ name, p.sexprWithin bounds.printing = .error (.unknown name) ↔
      p.firstForeign? = some name) ∧
    ((∃ name, p.sexprWithin bounds.printing = .error (.unknown name)) ↔
      ∃ name, .foreign name ∈ p.nodes) ∧
    ((∃ text, p.sexprWithin bounds.printing = .ok text) ↔ ¬ ∃ name, .foreign name ∈ p.nodes) ∧
    (∀ name, p.sourceWithin bounds.walking = .error (.unlisted name) ↔
      p.firstForeign? = some name) ∧
    ((∃ name, p.sourceWithin bounds.walking = .error (.unlisted name)) ↔
      ∃ name, .foreign name ∈ p.nodes) ∧
    ((∃ text, p.sourceWithin bounds.walking = .ok text) ↔ ¬ ∃ name, .foreign name ∈ p.nodes) ∧
    p.leavesWithin bounds.walking = some (p.nodes.filter (· ≠ .loop)).length ∧
    p.depthWithin bounds.walking = some p.depth ∧
    p.withoutForeign.depthWithin bounds.walking = some p.depth := by
  rw [sexprWithin_of_le hprinting, sourceWithin_of_le hwalking, ← exists_firstForeign?_iff,
    leavesWithin_of_le hwalking, depthWithin_of_le hwalking, leaves_eq_length_filter,
    depthWithin_of_le (by rwa [depth_withoutForeign]), depth_withoutForeign]
  cases p.firstForeign? with
  | none => simp
  | some name => simp

/-- Two foreign nodes, of which the one in the inner loop comes first. -/
theorem printers_reject_alike_inner_first :
    let p : Program := .loop (.command .output none
      (.loop (.foreign "Nop" .nil) none .nil)) none (.foreign "Halt" .nil)
    p.depth ≤ Limits.sample.printing ∧ p.depth ≤ Limits.sample.walking ∧
      p.sexprWithin Limits.sample.printing = .error (.unknown "Nop") ∧
      p.sourceWithin Limits.sample.walking = .error (.unlisted "Nop") ∧
      p.leavesWithin Limits.sample.walking = some 3 ∧
      p.depthWithin Limits.sample.walking = some 2 := by
  intro p
  have hprinting : p.depth ≤ Limits.sample.printing := by decide
  have hwalking : p.depth ≤ Limits.sample.walking := by decide
  obtain ⟨hunknown, -, -, hunlisted, -, -, hleaves, hdepth, -⟩ :=
    printers_reject_alike .sample p hprinting hwalking
  exact ⟨hprinting, hwalking, (hunknown "Nop").2 rfl, (hunlisted "Nop").2 rfl, hleaves, hdepth⟩

end Program

end TapeLang
