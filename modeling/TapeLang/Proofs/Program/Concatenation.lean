import TapeLang.Proofs.Program.Places

/-!
# One text behind another

Reading goes along with concatenation: behind another text, a text is read as the same instructions,
whose places move along (`Span.behind`). A reader that resumes in the middle of a text is not looked
at for this. The listing of a text behind another is the listing of that text, moved
(`Text.listing_append`), and the listing tells the program.

* `Program.mapPlaces`: the program with its places moved.
* `Program.reading_concatenates`: one text behind another, a pair of brackets around a text, and any
  text behind one with a stray bracket.
-/

namespace TapeLang

open Text

/-! ## Places behind a text -/

/-- Where a place of a text is when `before` stands before the text: all lines move down by the line
feeds of `before`, and the columns of the first line move by the characters behind the last of
them. -/
def Span.behind (before : List Char) (s : Span) : Span :=
  if s.line = 1 then
    ⟨1 + before.count '\n', s.col + (before.reverse.takeWhile (· ≠ '\n')).length⟩
  else ⟨s.line + before.count '\n', s.col⟩

namespace Span

variable {before text : List Char} {s : Span}

/-- Moving goes along with going on by one character. -/
theorem behind_next (h : s.line ≠ 0) (c : Char) :
    (s.next c).behind before = (s.behind before).next c := by
  by_cases hfirst : s.line = 1 <;> by_cases hc : c = '\n'
  · simp only [behind, next, hfirst, hc, if_true, Nat.reduceAdd, Nat.reduceEqDiff, if_false,
      Span.mk.injEq, and_true]
    omega
  · simp only [behind, next, hfirst, hc, if_true, if_false, Span.mk.injEq, true_and]
    omega
  -- Behind the first line, a line feed does not lead back to it.
  · have hlater : ¬ s.line + 1 = 1 := by omega
    simp only [behind, next, hfirst, hc, hlater, if_true, if_false, Span.mk.injEq, and_true]
    omega
  · simp only [behind, next, hfirst, hc, if_false]

theorem line_after_ne (text : List Char) : (after text).line ≠ 0 :=
  Nat.succ_ne_zero _

/-- The place behind a text moves to the place behind both texts. -/
theorem behind_after (before text : List Char) :
    (after text).behind before = after (before ++ text) := by
  induction text using List.reverseRecOn with
  | nil => simp [after, behind, Nat.add_comm]
  | append_singleton text c ih =>
    rw [after_concat, behind_next (line_after_ne text), ih, ← List.append_assoc, after_concat]

end Span

/-- What stands behind a text is listed as it is listed alone, at places that have moved and inside
of the loops that the text leaves open. -/
theorem Text.listing_append (before text : List Char) :
    listing (before ++ text) =
      listing before ++ (listing text).map fun x =>
        (x.1, x.2.1.map (Span.behind before), balance before + x.2.2) := by
  induction text using List.reverseRecOn with
  | nil => simp [listing, charactersAfter]
  | append_singleton text c ih =>
    rw [← List.append_assoc, listing_concat, ih, listing_concat, List.map_append,
      List.append_assoc]
    split
    · simp [Span.behind_after]
    · rfl

/-! ## Programs whose places move -/

namespace Program

variable {bound : Nat} {a b text : List Char} {p q : Program}

/-- The program with its places changed, those in loop bodies included. -/
def mapPlaces (f : Span → Span) : Program → Program
  | nil => nil
  | command c s rest => command c (s.map f) (rest.mapPlaces f)
  | loop b s rest => loop (b.mapPlaces f) (s.map f) (rest.mapPlaces f)
  | foreign n rest => foreign n (rest.mapPlaces f)

theorem bare_mapPlaces (f : Span → Span) (p : Program) : (p.mapPlaces f).bare = p.bare := by
  induction p <;> simp_all [mapPlaces, bare]

@[simp]
theorem native_mapPlaces (f : Span → Span) (p : Program) : (p.mapPlaces f).native = p.native := by
  induction p <;> simp_all [mapPlaces, native]

/-- Places do not matter to equality. -/
theorem same_mapPlaces (f : Span → Span) (hnative : p.native = true) :
    (p.mapPlaces f).same p = true :=
  same_eq_true_iff.2 ⟨by rw [native_mapPlaces, hnative], bare_mapPlaces f p⟩

/-- The listing moves along with the places, and with the loops around the program. -/
theorem listingFrom_mapPlaces (f : Span → Span) (p : Program) (depth outer : Nat) :
    (p.mapPlaces f).listingFrom (outer + depth) =
      (p.listingFrom depth).map fun e => ⟨e.char, e.place.map f, outer + e.depth⟩ := by
  induction p generalizing depth with
  | nil => rfl
  | command c s rest ih => rw [mapPlaces, listingFrom, ih, listingFrom, List.map_cons]
  | loop b s rest ihb ih =>
    rw [mapPlaces, listingFrom, ih, listingFrom, List.map_cons, List.map_append, Nat.add_assoc, ihb]
  | foreign n rest ih => exact ih depth

/-- The listing of a program whose places have moved, inside of so many loops, as it is compared
with that of a text. -/
theorem shown_listingFrom_mapPlaces (f : Span → Span) (p : Program) (outer : Nat) :
    ((p.mapPlaces f).listingFrom outer).map ListingEntry.shown =
      (p.listing.map ListingEntry.shown).map
        fun x => (x.1, x.2.1.map f, (outer : Int) + x.2.2) := by
  have hmoved := listingFrom_mapPlaces f p 0 outer
  rw [Nat.add_zero] at hmoved
  rw [hmoved, listing, List.map_map, List.map_map]
  refine List.map_congr_left fun e _ => ?_
  simp [ListingEntry.shown]

/-! ## Listings of programs that were read -/

theorem listing_of_ofTextWithin (h : ofTextWithin bound text = .ok p) :
    p.listing.map ListingEntry.shown = Text.listing text := by
  obtain ⟨r, hr, hopened, rfl⟩ := exists_feedAll_of_ok h
  -- With no loop open, the reader has listed its one block and nothing else.
  have hlisted := (Reader.lists_feedAll hr).listed
  rwa [Reader.listed, hopened, Reader.listedAround, List.nil_append] at hlisted

/-- What an entry shows tells the entry. -/
theorem shown_injective : Function.Injective ListingEntry.shown := by
  rintro ⟨c, s, d⟩ ⟨c', s', d'⟩ h
  simp only [ListingEntry.shown, Prod.mk.injEq, Nat.cast_inj] at h
  obtain ⟨rfl, rfl, rfl⟩ := h
  rfl

/-- A text is read as the only program with the listing of the text. -/
theorem ofTextWithin_of_listing (htext : Balanced text) (hnested : NestedBelow bound text)
    (hnative : p.native = true) (hlisting : p.listing.map ListingEntry.shown = Text.listing text) :
    ofTextWithin bound text = .ok p := by
  obtain ⟨q, hq⟩ := exists_ofTextWithin htext hnested
  have hsame : p.listing = q.listing :=
    List.map_injective_iff.2 shown_injective (hlisting.trans (listing_of_ofTextWithin hq).symm)
  rw [hq, eq_of_listing_eq hnative (native_of_ofTextWithin hq) hsame]

/-! ## Concatenation -/

/-- Behind a balanced text, a text nests as deeply as it does alone. -/
theorem nestedBelow_append (ha : Balanced a) (hna : NestedBelow bound a)
    (hnb : NestedBelow bound b) : NestedBelow bound (a ++ b) := by
  refine forall_prefix_append.2 ⟨hna, fun u hu => ?_⟩
  have hpart := hnb u hu
  rw [balance_append, ha.settled, zero_add]
  exact hpart

theorem ofTextWithin_append (hbound : 0 < bound) (ha : ofTextWithin bound a = .ok p)
    (hb : ofTextWithin bound b = .ok q) :
    ofTextWithin bound (a ++ b) = .ok (p ++ q.mapPlaces (Span.behind a)) := by
  obtain ⟨hbalanced, hna⟩ := balanced_of_ofTextWithin hbound ha
  obtain ⟨hbalanced', hnb⟩ := balanced_of_ofTextWithin hbound hb
  refine ofTextWithin_of_listing (hbalanced.append hbalanced')
    (nestedBelow_append hbalanced hna hnb) ?_ ?_
  · rw [native_append, native_mapPlaces, native_of_ofTextWithin ha, native_of_ofTextWithin hb]
    rfl
  · rw [listing, listingFrom_append, List.map_append, shown_listingFrom_mapPlaces,
      Text.listing_append, ← listing_of_ofTextWithin ha, ← listing_of_ofTextWithin hb,
      hbalanced.settled, Nat.cast_zero]
    rfl

/-- A pair of brackets around a text makes a loop of it. -/
theorem ofTextWithin_bracketed (hbound : 0 < bound) (ha : ofTextWithin bound a = .ok p)
    (hroom : p.depth + 1 < bound) :
    ofTextWithin bound ('[' :: (a ++ [']'])) =
      .ok (.loop (p.mapPlaces (Span.behind ['['])) (some Span.start) .nil) := by
  obtain ⟨hbalanced, -⟩ := balanced_of_ofTextWithin hbound ha
  have hnative := native_of_ofTextWithin ha
  obtain ⟨inner, rfl⟩ : ∃ inner, bound = inner + 1 := ⟨bound - 1, by omega⟩
  -- The text nests as deeply as its program, which leaves room for one more loop.
  have hnested : NestedBelow inner a := by
    have hpos : 0 < inner := by omega
    rw [← nestedBelow_code, ← source_of_ofTextWithin ha, ← depth_lt_iff hpos]
    omega
  refine ofTextWithin_of_listing hbalanced.bracketed
    ((nestedBelow_bracketed hbalanced).2 ⟨hnested, nestedBelow_nil hbound⟩) ?_ ?_
  · simp [native, hnative]
  · have hopening : Text.listing ['['] = [('[', some Span.start, 0)] := by decide
    have hclosing : Text.listing [']'] = [] := by decide
    have htext : '[' :: (a ++ [']']) = ['['] ++ (a ++ [']']) := rfl
    rw [htext, Text.listing_append, Text.listing_append, hopening, hclosing,
      ← listing_of_ofTextWithin ha, List.map_nil, List.append_nil, listing, listingFrom,
      List.map_cons, List.map_append, shown_listingFrom_mapPlaces]
    simp [listingFrom, ListingEntry.shown, balance]

end Program

/-- What a reader refuses stays refused, whatever comes behind it. -/
theorem Reader.feedAll_append_error {bound : Nat} {r : Reader} {e : ParseError} {s : List Char}
    (h : r.feedAll bound s = .error e) (t : List Char) : r.feedAll bound (s ++ t) = .error e := by
  induction s generalizing r with
  | nil => cases h
  | cons c s ih =>
    rw [feedAll] at h
    rw [List.cons_append, feedAll]
    cases hc : r.feed bound c with
    | error e' =>
      rw [hc] at h
      exact h
    | ok r' =>
      rw [hc] at h
      exact ih h

namespace Program

variable {bound : Nat} {a : List Char} {place : Span}

/-- A stray bracket is blamed while the text is read, and not at its end. -/
theorem feedAll_of_stray (h : ofTextWithin bound a = .error (.stray place)) :
    Reader.start.feedAll bound a = .error (.stray place) := by
  rw [ofTextWithin] at h
  cases hread : Reader.start.feedAll bound a with
  | error e =>
    rw [hread] at h
    exact congrArg Except.error (Except.error.inj h)
  | ok r =>
    rw [hread] at h
    cases hopened : r.opened <;> simp [Reader.finish, hopened] at h

/-- Reading goes along with concatenation. If two texts can be read, so can the second behind the
first: first come the instructions of the first, at the places that they have, and then those of
the second, at places that have moved as `Span.behind` says. A text in brackets is read as one loop
whose body equals what the text is read as, if one more loop does not nest too deeply. And a stray
bracket is blamed at its place, whatever comes behind the text. -/
theorem reading_concatenates (hbound : 0 < bound) (a b : List Char) :
    (∀ p q, ofTextWithin bound a = .ok p → ofTextWithin bound b = .ok q →
      ofTextWithin bound (a ++ b) = .ok (p ++ q.mapPlaces (Span.behind a))) ∧
    (∀ p, ofTextWithin bound a = .ok p → p.depth + 1 < bound →
      ofTextWithin bound ('[' :: (a ++ [']'])) =
        .ok (.loop (p.mapPlaces (Span.behind ['['])) (some Span.start) .nil) ∧
      (p.mapPlaces (Span.behind ['['])).same p = true) ∧
    ∀ place, ofTextWithin bound a = .error (.stray place) →
      ofTextWithin bound (a ++ b) = .error (.stray place) := by
  refine ⟨fun p q ha hb => ofTextWithin_append hbound ha hb, fun p ha hroom => ?_,
    fun place ha => ?_⟩
  · exact ⟨ofTextWithin_bracketed hbound ha hroom, same_mapPlaces _ (native_of_ofTextWithin ha)⟩
  · rw [ofTextWithin, Reader.feedAll_append_error (feedAll_of_stray ha)]

/-- A loop and a comment over two lines, and behind them a command, then a loop on the next line.
The columns move on the line that they share, and nowhere else. -/
theorem reading_concatenates_shared_line :
    let a := ['[', '-', ']', '\n', '!']
    let b := ['>', '\n', '[', '.', ']']
    let p : Program := .loop (.command .decrement (some ⟨1, 2⟩) .nil) (some ⟨1, 1⟩) .nil
    let q : Program := .command .right (some ⟨1, 1⟩)
      (.loop (.command .output (some ⟨2, 2⟩) .nil) (some ⟨2, 1⟩) .nil)
    0 < 3 ∧ ofTextWithin 3 a = .ok p ∧ ofTextWithin 3 b = .ok q ∧
      ofTextWithin 3 (a ++ b) = .ok (.loop (.command .decrement (some ⟨1, 2⟩) .nil) (some ⟨1, 1⟩)
        (.command .right (some ⟨2, 2⟩)
          (.loop (.command .output (some ⟨3, 2⟩) .nil) (some ⟨3, 1⟩) .nil))) ∧
      p.depth + 1 < 3 ∧
      ofTextWithin 3 ('[' :: (a ++ [']'])) = .ok (.loop
        (.loop (.command .decrement (some ⟨1, 3⟩) .nil) (some ⟨1, 2⟩) .nil) (some ⟨1, 1⟩) .nil) ∧
      ofTextWithin 3 ['\n', ']'] = .error (.stray ⟨2, 1⟩) ∧
      ofTextWithin 3 (['\n', ']'] ++ b) = .error (.stray ⟨2, 1⟩) := by
  intro a b p q
  have hbound : 0 < 3 := by decide
  have ha : ofTextWithin 3 a = .ok p := by decide
  have hb : ofTextWithin 3 b = .ok q := by decide
  have hroom : p.depth + 1 < 3 := by decide
  have hstray : ofTextWithin 3 ['\n', ']'] = .error (.stray ⟨2, 1⟩) := by decide
  obtain ⟨hjoined, hbracketed, -⟩ := reading_concatenates hbound a b
  exact ⟨hbound, ha, hb, hjoined p q ha hb, hroom, (hbracketed p ha hroom).1, hstray,
    (reading_concatenates hbound ['\n', ']'] b).2.2 _ hstray⟩

end Program

end TapeLang
