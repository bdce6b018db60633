import Mathlib.Data.List.Basic
import Mathlib.Data.List.TakeWhile
import TapeLang.Settings.Expansion

/-!
# Reading and filling variables

What an environment holds after a change (`get?_set`, `get?_unset`) and after it has been filled
(`get?_fill`, `snd_fill`): filling goes through bindings in their order as long as they can be
filled in, and touches no variable that is set.
-/

namespace TapeLang

namespace Environment

variable {env : Environment} {name value : List Char}

theorem get?_unset (env : Environment) (name other : List Char) :
    (env.unset name).get? other = if other = name then none else env.get? other := by
  obtain ⟨entries⟩ := env
  simp only [get?, unset]
  induction entries with
  | nil => simp
  | cons v rest ih =>
    rw [List.filter_cons, List.find?_cons]
    by_cases hv : v.1 = name
    · rw [if_neg (by simpa using hv), ih]
      by_cases hother : other = name
      · rw [if_pos hother, if_pos hother]
      · rw [if_neg hother, if_neg hother, decide_eq_false fun h => hother (h.symm.trans hv)]
    · rw [if_pos (by simpa using hv), List.find?_cons]
      by_cases hother : v.1 = other
      · rw [decide_eq_true hother, if_neg (hother ▸ hv)]
      · rw [decide_eq_false hother]
        exact ih

theorem get?_set (env : Environment) (name value other : List Char) :
    (env.set name value).get? other = if other = name then some value else env.get? other := by
  rw [get?, set, List.find?_cons]
  by_cases h : name = other
  · simp [h]
  · have hunset := get?_unset env name other
    rw [if_neg (Ne.symm h), get?] at hunset
    rw [if_neg (Ne.symm h), decide_eq_false h]
    exact hunset

theorem set?_eq_ok_iff {env' : Environment} :
    env.set? name value = .ok env' ↔ obstacle? name value = none ∧ env.set name value = env' := by
  unfold set?
  split <;> simp_all

theorem set?_eq_error_iff {e : VariableError} :
    env.set? name value = .error e ↔ obstacle? name value = some e := by
  unfold set?
  split <;> simp_all

/-! ## Filling -/

/-- Whether a binding can be filled in: it has no value, or its variable is set, or can be. -/
def fillable (env : Environment) (b : List Char × Option (List Char)) : Bool :=
  match b.2 with
  | none => true
  | some value => (env.get? b.1).isSome || (obstacle? b.1 value).isNone

/-- Setting one variable does not matter to the others. -/
theorem fillable_set {b : List Char × Option (List Char)} (h : b.1 ≠ name) :
    (env.set name value).fillable b = env.fillable b := by
  rw [fillable, fillable, get?_set, if_neg h]

/-- The part of the bindings that is filled in. -/
def filledIn (env : Environment) (bound : Bindings) : Bindings :=
  bound.takeWhile env.fillable

/-- What is in the way of the first binding that cannot be filled in. -/
def firstObstacle? (env : Environment) (bound : Bindings) : Option VariableError :=
  (bound.find? fun b => !env.fillable b).bind fun b => b.2.bind (obstacle? b.1)

/-- If nothing is in the way, all of the bindings are filled in. -/
theorem filledIn_eq_self {bound : Bindings} (h : env.firstObstacle? bound = none) :
    env.filledIn bound = bound := by
  have hfillable : ∀ b ∈ bound, env.fillable b = true := by
    cases hfirst : bound.find? fun b => !env.fillable b with
    | none => simpa using hfirst
    | some c =>
      have hblocked : env.fillable c = false := by simpa using List.find?_some hfirst
      rw [firstObstacle?, hfirst, Option.bind_some] at h
      -- What has no value can always be filled in.
      cases hvalue : c.2 with
      | none => simp [fillable, hvalue] at hblocked
      | some value =>
        rw [hvalue, Option.bind_some] at h
        simp [fillable, hvalue, h] at hblocked
  exact List.takeWhile_eq_self_iff.2 hfillable

/-- What is filled in depends on the environment only through what can be filled in. -/
theorem filledIn_congr {env' : Environment} {bound : Bindings}
    (h : ∀ b ∈ bound, env.fillable b = env'.fillable b) :
    env.filledIn bound = env'.filledIn bound := by
  induction bound with
  | nil => rfl
  | cons b rest ih =>
    have hrest := ih fun b' hb' => h b' (List.mem_cons_of_mem b hb')
    rw [filledIn, filledIn] at hrest
    rw [filledIn, filledIn, List.takeWhile_cons, List.takeWhile_cons, h b List.mem_cons_self, hrest]

theorem firstObstacle?_congr {env' : Environment} {bound : Bindings}
    (h : ∀ b ∈ bound, env.fillable b = env'.fillable b) :
    env.firstObstacle? bound = env'.firstObstacle? bound := by
  induction bound with
  | nil => rfl
  | cons b rest ih =>
    have hrest := ih fun b' hb' => h b' (List.mem_cons_of_mem b hb')
    rw [firstObstacle?, firstObstacle?] at hrest
    rw [firstObstacle?, firstObstacle?, List.find?_cons, List.find?_cons, h b List.mem_cons_self]
    split
    · rfl
    · exact hrest

theorem filledIn_set {bound : Bindings} (h : ∀ b ∈ bound, b.1 ≠ name) :
    (env.set name value).filledIn bound = env.filledIn bound :=
  filledIn_congr fun b hb => fillable_set (h b hb)

theorem firstObstacle?_set {bound : Bindings} (h : ∀ b ∈ bound, b.1 ≠ name) :
    (env.set name value).firstObstacle? bound = env.firstObstacle? bound :=
  firstObstacle?_congr fun b hb => fillable_set (h b hb)

/-- Removing a variable does not matter to what can be filled in, unless the variable itself could
then not be set. -/
theorem fillable_unset {b : List Char × Option (List Char)}
    (h : ∀ value, b = (name, some value) → obstacle? name value = none) :
    (env.unset name).fillable b = env.fillable b := by
  obtain ⟨other, value⟩ := b
  cases value with
  | none => rfl
  | some value =>
    rw [fillable, fillable]
    dsimp only
    rw [get?_unset]
    split
    · next hname =>
      obtain rfl : other = name := hname
      simp [h value rfl]
    · rfl

end Environment

/-- No name is bound twice. -/
def Bindings.Distinct (bound : Bindings) : Prop :=
  (bound.map Prod.fst).Nodup

theorem Bindings.distinct_nil : Bindings.Distinct [] :=
  List.nodup_nil

theorem Bindings.distinct_cons {b : List Char × Option (List Char)} {rest : Bindings} :
    Bindings.Distinct (b :: rest) ↔ (∀ b' ∈ rest, b'.1 ≠ b.1) ∧ Bindings.Distinct rest := by
  rw [Distinct, List.map_cons, List.nodup_cons, Distinct]
  simp only [List.mem_map, not_exists, not_and, ne_eq]

namespace Environment

variable {env : Environment} {bound : Bindings}

theorem lookup_filledIn_eq_none {name : List Char} (h : ∀ b ∈ bound, b.1 ≠ name) :
    (env.filledIn bound).lookup name = none := by
  refine List.lookup_eq_none_iff.2 fun b hb => ?_
  simpa using (h b ((List.takeWhile_prefix _).subset hb)).symm

theorem lookup_filledIn_cons {first : List Char} {value : Option (List Char)}
    (h : env.fillable (first, value) = true) (name : List Char) :
    (env.filledIn ((first, value) :: bound)).lookup name =
      if name = first then some value else (env.filledIn bound).lookup name := by
  rw [filledIn, List.takeWhile_cons, if_pos h, List.lookup_cons, filledIn]
  by_cases hname : name = first
  · rw [if_pos hname, beq_iff_eq.2 hname]
  · rw [if_neg hname, beq_eq_false_iff_ne.2 hname]

/-- A variable that is set keeps its value; any other one has the value that is bound to it in the
part of the bindings that is filled in. -/
theorem get?_fill (h : bound.Distinct) (name : List Char) :
    (env.fill bound).1.get? name = (env.get? name).or ((env.filledIn bound).lookup name).join := by
  fun_induction fill env bound with
  | case1 env => simp [filledIn]
  -- A name is bound to no value: nothing is filled in, here or by a later binding.
  | case2 env first rest ih =>
    obtain ⟨hfresh, hrest⟩ := Bindings.distinct_cons.1 h
    rw [ih hrest, lookup_filledIn_cons rfl]
    split
    · next hname => rw [hname, lookup_filledIn_eq_none hfresh, Option.join_none, Option.join_some]
    · rfl
  -- The variable is set.
  | case3 env first value rest old hold ih =>
    have hfillable : env.fillable (first, some value) = true := by simp [fillable, hold]
    rw [ih (Bindings.distinct_cons.1 h).2, lookup_filledIn_cons hfillable]
    split
    · next hname => rw [hname, hold, Option.some_or, Option.some_or]
    · rfl
  -- The variable cannot be set: this binding ends the part that is filled in.
  | case4 env first value rest e he hnone =>
    have hobstacle := set?_eq_error_iff.1 he
    have hstop : env.filledIn ((first, some value) :: rest) = [] := by
      simp [filledIn, fillable, hnone, hobstacle]
    simp [hstop]
  -- The variable is set now, and no later binding looks at it.
  | case5 env first value rest env' henv hnone ih =>
    obtain ⟨hfresh, hrest⟩ := Bindings.distinct_cons.1 h
    obtain ⟨hobstacle, rfl⟩ := set?_eq_ok_iff.1 henv
    have hfillable : env.fillable (first, some value) = true := by simp [fillable, hobstacle]
    rw [ih hrest, lookup_filledIn_cons hfillable, get?_set, filledIn_set hfresh]
    split
    · next hname => rw [hname, hnone, Option.some_or, Option.none_or, Option.join_some]
    · rfl

/-- Filling ends with what is in the way of the first binding that cannot be filled in. -/
theorem snd_fill (h : bound.Distinct) : (env.fill bound).2 = env.firstObstacle? bound := by
  fun_induction fill env bound with
  | case1 env => rfl
  | case2 env first rest ih =>
    rw [ih (Bindings.distinct_cons.1 h).2]
    rfl
  | case3 env first value rest old hold ih =>
    rw [ih (Bindings.distinct_cons.1 h).2]
    simp [firstObstacle?, fillable, hold]
  | case4 env first value rest e he hnone =>
    simp [firstObstacle?, fillable, hnone, set?_eq_error_iff.1 he]
  | case5 env first value rest env' henv hnone ih =>
    obtain ⟨hfresh, hrest⟩ := Bindings.distinct_cons.1 h
    obtain ⟨hobstacle, rfl⟩ := set?_eq_ok_iff.1 henv
    rw [ih hrest, firstObstacle?_set hfresh]
    simp [firstObstacle?, fillable, hobstacle]

end Environment

/-! ## Bindings of a file -/

namespace Bindings

theorem mem_put {name : List Char} {value : Option (List Char)} {bound : Bindings}
    {b : List Char × Option (List Char)} (h : b ∈ put name value bound) :
    b.1 = name ∨ b ∈ bound := by
  induction bound with
  | nil => exact .inl (congrArg Prod.fst (List.mem_singleton.1 h))
  | cons b' rest ih =>
    rw [put] at h
    split at h <;> rcases List.mem_cons.1 h with rfl | hrest
    · exact .inl rfl
    · exact .inr (List.mem_cons_of_mem _ hrest)
    · exact .inr List.mem_cons_self
    · exact (ih hrest).imp_right (List.mem_cons_of_mem _)

theorem distinct_put {bound : Bindings} (h : bound.Distinct) (name : List Char)
    (value : Option (List Char)) : (put name value bound).Distinct := by
  induction bound with
  | nil => exact distinct_cons.2 ⟨nofun, distinct_nil⟩
  | cons b rest ih =>
    obtain ⟨hfresh, hrest⟩ := distinct_cons.1 h
    rw [put]
    split
    · next hname => exact distinct_cons.2 ⟨hname ▸ hfresh, hrest⟩
    · next hname =>
      refine distinct_cons.2 ⟨fun b' hb' => ?_, ih hrest⟩
      rcases mem_put hb' with heq | hmem
      · exact heq ▸ Ne.symm hname
      · exact hfresh b' hmem

/-- A file binds no name twice: the last value counts. -/
theorem distinct_ofPairs (env : Environment) (pairs : List (List Char × Option (List Char))) :
    (ofPairs env pairs).Distinct := by
  -- Binding one name after the other never binds a name twice.
  have hfold : ∀ bound : Bindings, bound.Distinct →
      Distinct (pairs.foldl (fun bound p => bound.put p.1 (p.2.map (expand env bound))) bound) := by
    induction pairs with
    | nil => exact fun _ h => h
    | cons p rest ih => exact fun bound h => ih _ (distinct_put h _ _)
  exact hfold [] distinct_nil

/-- A value is expanded through the variables that it refers to. -/
theorem expand_congr {env env' : Environment} (bound : Bindings) {text : List Char}
    (h : ∀ r ∈ referencesIn text, env.get? r.name = env'.get? r.name) :
    expand env bound text = expand env' bound text := by
  fun_induction expand env bound text with
  | case1 text r after hread _ ih =>
    -- A reference is read: both sides resolve it, and go on behind it.
    have hreferences : referencesIn text = r :: referencesIn after := by
      rw [referencesIn]
      split
      · next hread' =>
        cases hread.symm.trans hread'
        rfl
      · next hnone => cases hread.symm.trans hnone
    have hexpand : expand env' bound text = r.resolve env' bound ++ expand env' bound after := by
      rw [expand]
      split
      · next hread' =>
        cases hread.symm.trans hread'
        rfl
      · next hnone => cases hread.symm.trans hnone
    rw [hreferences] at h
    obtain ⟨hr, hafter⟩ := List.forall_mem_cons.1 h
    rw [hexpand, ih hafter, Reference.resolve, Reference.resolve, hr]
  | case2 =>
    rw [expand]
    rfl
  | case3 c rest hnone ih =>
    -- No reference begins here, so the character stays on both sides.
    have hreferences : referencesIn (c :: rest) = referencesIn rest := by
      rw [referencesIn]
      split
      · next hread => cases hnone.symm.trans hread
      · rfl
    have hexpand : expand env' bound (c :: rest) = c :: expand env' bound rest := by
      rw [expand]
      split
      · next hread => cases hnone.symm.trans hread
      · rfl
    rw [hreferences] at h
    rw [hexpand, ih h]

/-- What a file binds depends on the environment only through the variables that it refers to. -/
theorem ofPairs_congr {env env' : Environment} {pairs : List (List Char × Option (List Char))}
    (h : ∀ p ∈ pairs, ∀ value, p.2 = some value →
      ∀ r ∈ referencesIn value, env.get? r.name = env'.get? r.name) :
    ofPairs env pairs = ofPairs env' pairs := by
  refine List.foldl_ext _ _ _ fun bound p hp => ?_
  have hvalue : p.2.map (expand env bound) = p.2.map (expand env' bound) :=
    Option.map_congr fun value hvalue => expand_congr bound (h p hp value hvalue)
  rw [hvalue]

end Bindings

end TapeLang
