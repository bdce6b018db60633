import TapeLang.Proofs.Text.Brackets

/-!
# Matching brackets

Which brackets of a text belong together, and which are left open at its end.

* `Matches text i j`: the bracket at `i` opens what the bracket at `j` closes, because what stands
  between them is balanced. A bracket has at most one partner (`Matches.right_unique`,
  `Matches.left_unique`), so that the partners can be searched for (`closing?`, `opening?`).
* `LastUnclosed text i`: the bracket at `i` is the last opening one without a partner.
* `LeavesOpen text outer`: what stands before each of the brackets that `text` leaves open,
  innermost first. The head of this list stands before the last bracket without a partner
  (`LeavesOpen.lastUnclosed`).
-/

namespace TapeLang.Text

/-- The bracket at `i` opens what the bracket at `j` closes. -/
def Matches (text : List Char) (i j : Nat) : Prop :=
  i < j ∧ text[i]? = some '[' ∧ text[j]? = some ']' ∧
    Balanced ((text.drop (i + 1)).take (j - (i + 1)))

instance (text : List Char) (i j : Nat) : Decidable (Matches text i j) := by
  unfold Matches
  infer_instance

/-- Matching brackets cut a text into three parts, and the middle one is balanced. -/
theorem matches_iff {text : List Char} {i j : Nat} :
    Matches text i j ↔ ∃ before inner after,
      text = before ++ '[' :: (inner ++ ']' :: after) ∧ Balanced inner ∧
        before.length = i ∧ before.length + 1 + inner.length = j := by
  constructor
  · rintro ⟨hlt, hi, hj, hinner⟩
    -- Cut the text at both brackets; what is dropped behind the first is cut again.
    obtain ⟨hi', hopening⟩ := List.getElem?_eq_some_iff.1 hi
    obtain ⟨hj', hclosing⟩ := List.getElem?_eq_some_iff.1 hj
    refine ⟨text.take i, _, text.drop (j + 1), ?_, hinner, ?_, ?_⟩
    · have hsplit : (text.drop (i + 1)).drop (j - (i + 1)) = ']' :: text.drop (j + 1) := by
        rw [List.drop_drop, Nat.add_sub_cancel' hlt, List.drop_eq_getElem_cons hj', hclosing]
      rw [← hsplit, List.take_append_drop, ← hopening, ← List.drop_eq_getElem_cons hi',
        List.take_append_drop]
    · simp only [List.length_take]
      omega
    · simp only [List.length_take, List.length_drop]
      omega
  · rintro ⟨before, inner, after, rfl, hinner, rfl, rfl⟩
    refine ⟨by omega, by simp, ?_, ?_⟩
    · rw [List.getElem?_append_right (by omega), show before.length + 1 + inner.length -
        before.length = inner.length + 1 by omega, List.getElem?_cons_succ]
      simp
    · have hinside : (before ++ '[' :: (inner ++ ']' :: after)).drop (before.length + 1) =
          inner ++ ']' :: after := by
        simp [List.drop_append]
      rw [hinside, Nat.add_sub_cancel_left, List.take_left]
      exact hinner

/-- What stands before matching brackets only moves them. -/
theorem Matches.append_left {text : List Char} {i j : Nat} (h : Matches text i j)
    (front : List Char) : Matches (front ++ text) (front.length + i) (front.length + j) := by
  obtain ⟨before, inner, after, rfl, hinner, rfl, rfl⟩ := matches_iff.1 h
  refine matches_iff.2 ⟨front ++ before, inner, after, by simp, hinner, by simp, ?_⟩
  simp only [List.length_append]
  omega

/-! ## Uniqueness -/

/-- Behind a balanced text the next closing bracket closes something outside of it. -/
private theorem not_balanced_of_stray {inner after : List Char} (h : Balanced inner) :
    ¬ NoStray (inner ++ ']' :: after) := by
  intro hstray
  have hbelow := hstray (inner ++ [']']) ⟨after, by simp⟩
  simp [h.settled] at hbelow

/-- An opening bracket has at most one partner. -/
theorem Matches.right_unique {text : List Char} {i j k : Nat} (hj : Matches text i j)
    (hk : Matches text i k) : j = k := by
  -- The nearer of two partners would be a stray bracket between the farther one and the opening.
  wlog hlt : j < k generalizing j k
  · rcases Nat.lt_trichotomy j k with h | h | h
    · exact absurd h hlt
    · exact h
    · exact (this hk hj h).symm
  exfalso
  obtain ⟨before, inner, after, rfl, hinner, rfl, rfl⟩ := matches_iff.1 hj
  obtain ⟨before', inner', after', heq, hinner', hlen, rfl⟩ := matches_iff.1 hk
  obtain ⟨rfl, htail⟩ := List.append_inj heq hlen.symm
  have htail := (List.cons.inj htail).2
  have hprefix : inner ++ [']'] <+: inner' := by
    have hnear : inner ++ [']'] <+: inner ++ ']' :: after := ⟨after, by simp⟩
    have hfar : inner' <+: inner ++ ']' :: after := ⟨']' :: after', htail.symm⟩
    refine List.prefix_of_prefix_length_le hnear hfar ?_
    simp only [List.length_append, List.length_singleton]
    omega
  obtain ⟨rest, rfl⟩ := hprefix
  rw [List.append_assoc] at hinner'
  exact not_balanced_of_stray hinner hinner'.noStray

/-- A closing bracket has at most one partner. -/
theorem Matches.left_unique {text : List Char} {i j k : Nat} (hi : Matches text i k)
    (hj : Matches text j k) : i = j := by
  -- The farther of two partners would be left open by the nearer one.
  wlog hlt : i < j generalizing i j
  · rcases Nat.lt_trichotomy i j with h | h | h
    · exact absurd h hlt
    · exact h
    · exact (this hj hi h).symm
  exfalso
  obtain ⟨before, inner, after, rfl, hinner, rfl, rfl⟩ := matches_iff.1 hi
  obtain ⟨before', inner', after', heq, hinner', rfl, hlen⟩ := matches_iff.1 hj
  have hfront : before ++ '[' :: inner = before' ++ '[' :: inner' := by
    have hcut : (before ++ '[' :: inner) ++ ']' :: after =
        (before' ++ '[' :: inner') ++ ']' :: after' := by
      simpa using heq
    refine (List.append_inj hcut ?_).1
    simp only [List.length_append, List.length_cons]
    omega
  have hprefix : before ++ ['['] <+: before' := by
    have hfar : before ++ ['['] <+: before ++ '[' :: inner := ⟨inner, by simp⟩
    have hnear : before' <+: before ++ '[' :: inner := ⟨'[' :: inner', hfront.symm⟩
    refine List.prefix_of_prefix_length_le hfar hnear ?_
    simpa using Nat.succ_le_of_lt hlt
  obtain ⟨rest, rfl⟩ := hprefix
  -- The front part of the larger inside would then be short of one opening bracket.
  have hsplit : inner = rest ++ '[' :: inner' := by simpa using hfront
  have hrest := hinner.noStray rest ⟨'[' :: inner', hsplit.symm⟩
  have hwhole := hinner.settled
  rw [hsplit, balance_append, balance_opening, hinner'.settled] at hwhole
  omega

/-! ## Partners by search -/

/-- A search among the first numbers finds the only one of its kind. -/
private theorem find?_range_eq_some_iff {P : Nat → Prop} [DecidablePred P] {n j : Nat}
    (hlt : ∀ i, P i → i < n) (hunique : ∀ i k, P i → P k → i = k) :
    ((List.range n).find? fun i => P i) = some j ↔ P j := by
  constructor
  · intro h
    simpa using List.find?_some h
  · intro h
    obtain ⟨k, hk⟩ : ∃ k, ((List.range n).find? fun i => P i) = some k := by
      rw [← Option.isSome_iff_exists, List.find?_isSome]
      exact ⟨j, List.mem_range.2 (hlt j h), by simpa using h⟩
    have hfound : P k := by simpa using List.find?_some hk
    rw [hk, hunique k j hfound h]

/-- The bracket that closes what the bracket at `i` opens. -/
def closing? (text : List Char) (i : Nat) : Option Nat :=
  (List.range text.length).find? fun j => Matches text i j

/-- The bracket that opens what the bracket at `j` closes. -/
def opening? (text : List Char) (j : Nat) : Option Nat :=
  (List.range text.length).find? fun i => Matches text i j

theorem Matches.lt_length {text : List Char} {i j : Nat} (h : Matches text i j) :
    j < text.length :=
  (List.getElem?_eq_some_iff.1 h.2.2.1).1

theorem closing?_eq_some_iff {text : List Char} {i j : Nat} :
    closing? text i = some j ↔ Matches text i j :=
  find?_range_eq_some_iff (fun _ h => h.lt_length) fun _ _ hj hk => hj.right_unique hk

theorem opening?_eq_some_iff {text : List Char} {i j : Nat} :
    opening? text j = some i ↔ Matches text i j :=
  find?_range_eq_some_iff (fun _ h => h.1.trans h.lt_length) fun _ _ hi hk => hi.left_unique hk

/-- In a balanced text every opening bracket has a partner. -/
theorem Balanced.exists_matches {text : List Char} (h : Balanced text) {i : Nat}
    (hi : text[i]? = some '[') : ∃ j, Matches text i j := by
  obtain ⟨hi', hopening⟩ := List.getElem?_eq_some_iff.1 hi
  have hsplit : text = text.take i ++ '[' :: text.drop (i + 1) := by
    rw [← hopening, ← List.drop_eq_getElem_cons hi', List.take_append_drop]
  -- Behind the bracket the balance has to come down below zero again.
  have hstray : ¬ NoStray (text.drop (i + 1)) := by
    intro hnone
    have hbefore := h.noStray _ (List.take_prefix i text)
    have hbehind := hnone.balance_nonneg
    have hwhole := h.settled
    rw [hsplit, balance_append, balance_opening] at hwhole
    omega
  obtain ⟨inner, after, hbehind, hinner⟩ := exists_first_stray hstray
  refine ⟨_, matches_iff.2 ⟨text.take i, inner, after, ?_, hinner, ?_, rfl⟩⟩
  · rw [← hbehind, ← hsplit]
  · simpa using hi'.le

/-! ## Brackets that are left open -/

/-- The bracket at `i` is the last opening one without a partner. -/
def LastUnclosed (text : List Char) (i : Nat) : Prop :=
  (text[i]? = some '[' ∧ ∀ j, ¬ Matches text i j) ∧
    ∀ k, i < k → text[k]? = some '[' → ∃ j, Matches text k j

/-- There is only one last opening bracket without a partner. -/
theorem LastUnclosed.unique {text : List Char} {i j : Nat} (hi : LastUnclosed text i)
    (hj : LastUnclosed text j) : i = j := by
  rcases Nat.lt_trichotomy i j with h | h | h
  · obtain ⟨k, hk⟩ := hi.2 j h hj.1.1
    exact absurd hk (hj.1.2 k)
  · exact h
  · obtain ⟨k, hk⟩ := hj.2 i h hi.1.1
    exact absurd hk (hi.1.2 k)

/-- What stands before each of the brackets that a text leaves open, innermost first. -/
inductive LeavesOpen : List Char → List (List Char) → Prop
  /-- A balanced text leaves nothing open. -/
  | balanced {text : List Char} : Balanced text → LeavesOpen text []
  /-- A bracket stays open if what follows it is balanced. -/
  | bracket {before text : List Char} {outer : List (List Char)} :
      LeavesOpen before outer → Balanced text →
        LeavesOpen (before ++ '[' :: text) (before :: outer)

theorem LeavesOpen.append {text inner : List Char} {outer : List (List Char)}
    (h : LeavesOpen text outer) (hinner : Balanced inner) : LeavesOpen (text ++ inner) outer := by
  cases h with
  | balanced htext => exact .balanced (htext.append hinner)
  | bracket hbefore htext =>
    rw [List.append_assoc, List.cons_append]
    exact .bracket hbefore (htext.append hinner)

/-- As many brackets are open as the balance says. -/
theorem LeavesOpen.length_eq {text : List Char} {outer : List (List Char)}
    (h : LeavesOpen text outer) : (outer.length : Int) = balance text := by
  induction h with
  | balanced htext => simp [htext.settled]
  | bracket _ htext ih =>
    rw [balance_append, balance_opening, htext.settled, ← ih, List.length_cons]
    omega

theorem LeavesOpen.take_eq {text before : List Char} {outer : List (List Char)}
    (h : LeavesOpen text (before :: outer)) : text.take before.length = before := by
  cases h with
  | bracket _ _ => rw [List.take_left]

/-- The innermost open bracket is the last one without a partner. -/
theorem LeavesOpen.lastUnclosed {text before : List Char} {outer : List (List Char)}
    (h : LeavesOpen text (before :: outer)) : LastUnclosed text before.length := by
  cases h with
  | @bracket _ inner _ _ hinner =>
    refine ⟨⟨by simp, fun j hj => ?_⟩, fun k hk hopening => ?_⟩
    -- A partner would be a stray bracket in the balanced rest.
    · obtain ⟨before', inner', after, heq, hinner', hlen, -⟩ := matches_iff.1 hj
      obtain ⟨-, htail⟩ := List.append_inj heq hlen.symm
      rw [(List.cons.inj htail).2] at hinner
      exact not_balanced_of_stray hinner' hinner.noStray
    -- A later opening bracket stands in the balanced rest, and has its partner there.
    · obtain ⟨d, rfl⟩ : ∃ d, k = (before ++ ['[']).length + d :=
        ⟨k - (before.length + 1), by
          simp only [List.length_append, List.length_singleton]
          omega⟩
      have happend : before ++ '[' :: inner = (before ++ ['[']) ++ inner := by simp
      rw [happend] at hopening ⊢
      rw [List.getElem?_append_right (by omega), Nat.add_sub_cancel_left] at hopening
      obtain ⟨j, hj⟩ := hinner.exists_matches hopening
      exact ⟨_, hj.append_left (before ++ ['['])⟩

end TapeLang.Text
