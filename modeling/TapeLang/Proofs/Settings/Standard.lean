import TapeLang.Proofs.RunConfig.Valid
import TapeLang.Proofs.Settings.Environment
import TapeLang.Settings.Standard

/-!
# Loading with the library of the executable

The library with which the executable loads settings files is lawful
(`FileLibrary.standard_lawful`). What it does is said outright, too: where the search for a file can
start, a load fills in what the active file binds (`Workspace.load_of_found`), and where it cannot,
a load changes nothing (`Workspace.load_of_lost`).
-/

namespace TapeLang

namespace FileLibrary

/-- Without a file there are no statements. -/
theorem statements_none (env : Environment) : statements env none = [] := by
  rw [statements]
  split <;> rfl

/-- Without a file nothing is bound. -/
theorem bindings_none (env : Environment) : bindings env none = [] := by
  rw [bindings, statements_none]
  rfl

theorem distinct_bindings (env : Environment) (file : Option (List Char)) :
    (bindings env file).Distinct :=
  Bindings.distinct_ofPairs _ _

end FileLibrary

/-- The library of the executable is lawful. -/
theorem FileLibrary.standard_lawful : FileLibrary.standard.Lawful where
  find_nearest w file h := by
    simp only [standard] at h
    split at h <;> cases h
    rfl
  load_keeps env file name value h := by
    show (env.fill (bindings env file)).1.get? name = some value
    rw [Environment.get?_fill (distinct_bindings env file), h, Option.some_or]
  load_fills env file hloaded name h := by
    have hfree : (env.fill (bindings env file)).2 = none := Option.map_eq_none_iff.1 hloaded
    rw [Environment.snd_fill (distinct_bindings env file)] at hfree
    show (env.fill (bindings env file)).1.get? name = _
    rw [Environment.get?_fill (distinct_bindings env file), h, Option.none_or,
      Environment.filledIn_eq_self hfree]
    cases file with
    | some text => rfl
    | none =>
      rw [bindings_none]
      rfl

namespace Workspace

variable (w : Workspace) (overrides : Fields)

theorem fileToLoad_of_lost (h : w.isLost = true) :
    w.fileToLoad .standard = .error .lostStart := by
  rw [isLost, Bool.and_eq_true, Option.isNone_iff_eq_none, decide_eq_true_iff] at h
  rw [fileToLoad, h.1]
  exact if_pos h.2

theorem fileToLoad_of_found (h : w.isLost = false) :
    w.fileToLoad .standard = .ok w.activeFile := by
  rw [fileToLoad, activeFile]
  cases hcommon : w.common with
  | some text => rfl
  | none =>
    have hstart : ¬ Text.maxPathBytes < w.currentBytes := by
      simpa [isLost, hcommon] using h
    exact if_neg hstart

theorem load_of_lost (h : w.isLost = true) :
    w.load overrides = (w, .error (.file .lostStart)) := by
  have hfill : w.fillVariables .standard = (w, some .lostStart) := by
    rw [fillVariables, w.fileToLoad_of_lost h]
  rw [load, loadWith_eq, hfill]
  rfl

theorem load_of_found (h : w.isLost = false) :
    w.load overrides =
      (w.filled.1, match w.filled.2 with
        | some e => .error (.file (.badVariable e))
        | none =>
          (RunConfig.ofFields (w.filled.1.environment.offers overrides)).mapError .issues) := by
  have hfill : w.fillVariables .standard = (w.filled.1, w.filled.2.map .badVariable) := by
    rw [fillVariables, w.fileToLoad_of_found h]
    rfl
  rw [load, loadWith_eq, hfill, RunConfig.ofFields]
  cases w.filled.2 with
  | some e => rfl
  | none =>
    cases RecordLibrary.standard.make RunConfig.schema
      (w.filled.1.environment.offers overrides) <;> rfl

/-- A variable that is set keeps its value, and any other one has the value that is filled in. -/
theorem get?_filled (name : List Char) :
    w.filled.1.environment.get? name =
      (w.environment.get? name).or ((w.environment.filledIn w.bindings).lookup name).join :=
  Environment.get?_fill (FileLibrary.distinct_bindings _ _) name

theorem statements_of_no_file (h : w.activeFile = none) : w.statements = [] := by
  rw [statements, h, FileLibrary.statements_none]

theorem bindings_of_no_file (h : w.activeFile = none) : w.bindings = [] := by
  rw [bindings, h, FileLibrary.bindings_none]

/-- Without a file nothing is filled in. -/
theorem filled_of_no_file (h : w.activeFile = none) : w.filled = (w, none) := by
  rw [filled, w.bindings_of_no_file h]
  rfl

/-- What keeps the active file from being loaded is in the way of its first binding that cannot be
filled in. -/
theorem snd_filled : w.filled.2 = w.environment.firstObstacle? w.bindings :=
  Environment.snd_fill (FileLibrary.distinct_bindings _ _)

end Workspace

end TapeLang
