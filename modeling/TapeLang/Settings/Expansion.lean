import TapeLang.Settings.Environment

/-!
# References to variables

A value in a settings file may refer to variables: a dollar sign with a name in braces stands for
the value of a variable, and a default may follow the name behind a colon and a dash. A reference
sees the environment first, then what the same file has bound before it. The values put in are not
looked at again.
-/

namespace TapeLang

/-- A reference to a variable. -/
structure Reference where
  /-- The name of the variable. -/
  name : List Char
  /-- What is put in if there is no such variable. -/
  default : List Char
  deriving DecidableEq, Repr

/-- Names and values in the order in which the names came first, each with its last value. -/
abbrev Bindings := List (List Char × Option (List Char))

namespace Bindings

/-- Bind a name: a name that is bound already keeps its place. -/
def put (name : List Char) (value : Option (List Char)) : Bindings → Bindings
  | [] => [(name, value)]
  | (other, old) :: rest =>
    if other = name then (name, value) :: rest else (other, old) :: put name value rest

end Bindings

namespace Reference

/-- Whether a character may stand in the name of a reference. -/
def isNameChar (c : Char) : Bool :=
  c ≠ '}' && c ≠ ':'

/-- Whether a character may stand in the default of a reference. -/
def isDefaultChar (c : Char) : Bool :=
  c ≠ '}'

/-- The reference at the beginning of a text, and what follows it. -/
def read? : List Char → Option (Reference × List Char)
  | '$' :: '{' :: rest =>
    match rest.dropWhile isNameChar with
    | '}' :: after => some (⟨rest.takeWhile isNameChar, []⟩, after)
    | ':' :: '-' :: default =>
      match default.dropWhile isDefaultChar with
      | _ :: after => some (⟨rest.takeWhile isNameChar, default.takeWhile isDefaultChar⟩, after)
      | [] => none
    | _ => none
  | _ => none

/-- A reference takes at least one character. -/
theorem length_lt_of_read? {text after : List Char} {r : Reference}
    (h : read? text = some (r, after)) : after.length < text.length := by
  unfold read? at h
  split at h
  · rename_i rest
    have hname := (List.dropWhile_suffix isNameChar (l := rest)).length_le
    split at h
    · rename_i after' heq
      rw [heq] at hname
      simp only [Option.some.injEq, Prod.mk.injEq] at h
      simp only [List.length_cons] at hname ⊢
      rw [← h.2]
      omega
    · rename_i default heq
      rw [heq] at hname
      have hdefault := (List.dropWhile_suffix isDefaultChar (l := default)).length_le
      split at h
      · rename_i c after' heq'
        rw [heq'] at hdefault
        simp only [Option.some.injEq, Prod.mk.injEq] at h
        simp only [List.length_cons] at hname hdefault ⊢
        rw [← h.2]
        omega
      · cases h
    · cases h
  · cases h

/-- The value that a reference stands for: the environment comes before the bindings, and a name
that is bound to no value stands for nothing. -/
def resolve (env : Environment) (bound : Bindings) (r : Reference) : List Char :=
  match env.get? r.name, bound.lookup r.name with
  | some value, _ => value
  | none, some value => value.getD []
  | none, none => r.default

end Reference

/-- The references in a text. -/
def referencesIn (text : List Char) : List Reference :=
  match h : Reference.read? text with
  | some (r, after) =>
    have := Reference.length_lt_of_read? h
    r :: referencesIn after
  | none =>
    match text with
    | [] => []
    | _ :: rest => referencesIn rest
  termination_by text.length

/-- Put in the values of all references of a text. -/
def expand (env : Environment) (bound : Bindings) (text : List Char) : List Char :=
  match h : Reference.read? text with
  | some (r, after) =>
    have := Reference.length_lt_of_read? h
    r.resolve env bound ++ expand env bound after
  | none =>
    match text with
    | [] => []
    | c :: rest => c :: expand env bound rest
  termination_by text.length

/-- Bind names to values, one after the other, with the references of every value put in. -/
def Bindings.ofPairs (env : Environment) (pairs : List (List Char × Option (List Char))) :
    Bindings :=
  pairs.foldl (fun bound p => bound.put p.1 (p.2.map (expand env bound))) []

end TapeLang
