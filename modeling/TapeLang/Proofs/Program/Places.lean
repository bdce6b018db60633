import TapeLang.Program.Listing
import TapeLang.Proofs.Program.RoundTrip

/-!
# Where instructions stand

The listing of a program that was read is the listing of its text: the same characters at the same
places and depths, found by going through the text once and without building any tree.

* `Text.listing`: the characters of a text that begin an instruction, each with the place behind
  what stands before it and the balance of that.
* `Reader.listed`: the listing of all that a reader has collected, which grows by one entry with
  each such character (`Reader.listed_feed`).
* `Program.eq_of_listing_eq`: a listing tells the program.
* `Program.listing_exact`: so the text of a program tells everything about it.
-/

namespace TapeLang

namespace Text

/-! ## Listings of texts -/

/-- The characters that begin an instruction: those of the commands, and the opening bracket. -/
def beginsInstruction (c : Char) : Bool :=
  c ∈ ['+', '-', '>', '<', '.', ',', '[']

/-- Each character of a text with what stands before it, when `before` stands before the text. -/
def charactersAfter (before : List Char) : List Char → List (List Char × Char)
  | [] => []
  | c :: rest => (before, c) :: charactersAfter (before ++ [c]) rest

/-- The characters of a text that begin an instruction, each with the place behind what stands
before it and the number of brackets that this leaves open. -/
def listing (text : List Char) : List (Char × Option Span × Int) :=
  ((charactersAfter [] text).filter fun x => beginsInstruction x.2).map fun x =>
    (x.2, some (Span.after x.1), balance x.1)

theorem charactersAfter_append (before s t : List Char) :
    charactersAfter before (s ++ t) =
      charactersAfter before s ++ charactersAfter (before ++ s) t := by
  induction s generalizing before with
  | nil => rw [List.nil_append, charactersAfter, List.nil_append, List.append_nil]
  | cons c s ih => simp [charactersAfter, ih]

/-- A character behind a text is listed if it begins an instruction. -/
theorem listing_concat (text : List Char) (c : Char) :
    listing (text ++ [c]) =
      listing text ++
        if beginsInstruction c then [(c, some (Span.after text), balance text)] else [] := by
  cases h : beginsInstruction c <;> simp [listing, charactersAfter_append, charactersAfter, h]

theorem beginsInstruction_char (d : Command) : beginsInstruction d.char = true := by
  cases d <;> decide

/-- Comments begin nothing. -/
theorem beginsInstruction_of_comment {c : Char} (h : isCode c = false) :
    beginsInstruction c = false := by
  rw [isCode, decide_eq_false_iff_not] at h
  rw [beginsInstruction, decide_eq_false_iff_not]
  intro hmem
  apply h
  -- All that begins an instruction is code; what else is code is the closing bracket.
  simp only [List.mem_cons, List.not_mem_nil, or_false] at hmem ⊢
  tauto

end Text

open Text

/-! ## Listings of programs -/

/-- What an entry shows, with the depth as an integer that can be compared with a balance. -/
def ListingEntry.shown (e : ListingEntry) : Char × Option Span × Int :=
  (e.char, e.place, e.depth)

namespace Program

@[simp]
theorem listingFrom_append (depth : Nat) (p q : Program) :
    (p ++ q).listingFrom depth = p.listingFrom depth ++ q.listingFrom depth := by
  induction p with
  | nil => rfl
  | command d s rest ih => simp [listingFrom, ih]
  | loop b s rest _ ih => simp [listingFrom, ih]
  | foreign n rest ih => simpa [listingFrom] using ih

/-- What follows a block in a listing stands outside of it: it begins with an entry of a lower
depth, or there is nothing. -/
def OutsideOf (depth : Nat) (entries : List ListingEntry) : Prop :=
  ∀ e ∈ entries.head?, e.depth < depth

theorem outsideOf_nil (depth : Nat) : OutsideOf depth [] := by
  simp [OutsideOf]

theorem OutsideOf.ne_cons {depth : Nat} {entries : List ListingEntry}
    (h : OutsideOf depth entries) (c : Char) (s : Option Span) (rest : List ListingEntry) :
    entries ≠ ⟨c, s, depth⟩ :: rest := by
  rintro rfl
  exact absurd (h _ rfl) (Nat.lt_irrefl depth)

/-- What follows the body of a loop is the rest of the block around it, or stands outside of that
block too. -/
theorem outsideOf_listingFrom {depth : Nat} {entries : List ListingEntry}
    (h : OutsideOf depth entries) (rest : Program) :
    OutsideOf (depth + 1) (rest.listingFrom depth ++ entries) := by
  induction rest with
  | nil =>
    intro e he
    have hlower := h e he
    omega
  | command d s rest _ => simp [OutsideOf, listingFrom]
  | loop b s rest _ _ => simp [OutsideOf, listingFrom]
  | foreign n rest ih => exact ih

/-- In front of entries that stand outside, a listing tells its program and where it ends. -/
theorem eq_of_listingFrom_append {p q : Program} (hp : p.native = true) (hq : q.native = true)
    {depth : Nat} {xs ys : List ListingEntry} (hxs : OutsideOf depth xs) (hys : OutsideOf depth ys)
    (h : p.listingFrom depth ++ xs = q.listingFrom depth ++ ys) : p = q ∧ xs = ys := by
  -- What follows is arbitrary, because a body is followed by the rest of the block around it.
  induction p generalizing q depth xs ys with
  | nil =>
    cases q with
    | nil => exact ⟨rfl, h⟩
    | command d s rest => exact absurd h (hxs.ne_cons d.char s _)
    | loop b s rest => exact absurd h (hxs.ne_cons '[' s _)
    | foreign n rest => cases hq
  | command d s rest ih =>
    cases q with
    | nil => exact absurd h.symm (hys.ne_cons d.char s _)
    | command d' s' rest' =>
      rw [native] at hp hq
      simp only [listingFrom, List.cons_append, List.cons.injEq, ListingEntry.mk.injEq] at h
      obtain ⟨⟨hchar, rfl, -⟩, htail⟩ := h
      -- A character stands for one command only.
      have hcommand : d = d' := by
        have hread := congrArg Command.ofChar? hchar
        simpa using hread
      obtain ⟨hrest, hxy⟩ := ih hp hq hxs hys htail
      exact ⟨by rw [hcommand, hrest], hxy⟩
    | loop b s' rest' =>
      simp only [listingFrom, List.cons_append, List.cons.injEq, ListingEntry.mk.injEq] at h
      exact absurd h.1.1 d.char_ne_opening
    | foreign n rest' => cases hq
  | loop b s rest ihb ih =>
    cases q with
    | nil => exact absurd h.symm (hys.ne_cons '[' s _)
    | command d s' rest' =>
      simp only [listingFrom, List.cons_append, List.cons.injEq, ListingEntry.mk.injEq] at h
      exact absurd h.1.1.symm d.char_ne_opening
    | loop b' s' rest' =>
      rw [native, Bool.and_eq_true] at hp hq
      simp only [listingFrom, List.cons_append, List.append_assoc, List.cons.injEq,
        ListingEntry.mk.injEq] at h
      obtain ⟨⟨-, rfl, -⟩, htail⟩ := h
      -- The bodies end where the depth falls, and then the rests are compared.
      obtain ⟨hbody, hbehind⟩ := ihb hp.1 hq.1 (outsideOf_listingFrom hxs rest)
        (outsideOf_listingFrom hys rest') htail
      obtain ⟨hrest, hxy⟩ := ih hp.2 hq.2 hxs hys hbehind
      exact ⟨by rw [hbody, hrest], hxy⟩
    | foreign n rest' => cases hq
  | foreign n rest _ => cases hp

/-- A listing tells its program, if nothing in it is foreign. -/
theorem eq_of_listing_eq {p q : Program} (hp : p.native = true) (hq : q.native = true)
    (h : p.listing = q.listing) : p = q := by
  refine (eq_of_listingFrom_append hp hq (outsideOf_nil 0) (outsideOf_nil 0) ?_).1
  rw [List.append_nil, List.append_nil]
  exact h

end Program

/-! ## What a reader lists -/

namespace Reader

/-- The listing of the blocks around the innermost open one, with the loops that are open. -/
def listedAround : List OpenLoop → List ListingEntry
  | [] => []
  | l :: outer =>
    listedAround outer ++ l.before.reverse.listingFrom outer.length ++
      [⟨'[', some l.place, outer.length⟩]

/-- The listing of all that a reader has collected. -/
def listed (r : Reader) : List ListingEntry :=
  listedAround r.opened ++ r.block.reverse.listingFrom r.opened.length

variable {bound : Nat} {r r' : Reader} {c : Char} {text : List Char}

/-- A character that begins an instruction is listed where the reader stands, inside of the loops
that are open there; any other character leaves the listing as it is. -/
theorem listed_feed (h : r.feed bound c = .ok r') :
    r'.listed =
      r.listed ++ if beginsInstruction c then [⟨c, some r.place, r.opened.length⟩] else [] := by
  rcases feed_cases h with ⟨d, hd, rfl⟩ | ⟨rfl, -, rfl⟩ | ⟨rfl, l, outer, hopened, rfl⟩ |
    ⟨hcomment, rfl⟩
  · have hchar := Command.char_of_ofChar? hd
    subst hchar
    rw [if_pos (beginsInstruction_char d)]
    simp [listed, Program.reverse_command, Program.listingFrom]
  · rw [if_pos (by decide)]
    simp [listed, listedAround, Program.reverse, Program.reverseAppend, Program.listingFrom]
  · -- The body was listed behind its open bracket, one deeper than the block that it now joins.
    rw [if_neg (by decide)]
    simp [listed, listedAround, hopened, Program.reverse_loop, Program.listingFrom]
  · rw [if_neg (by simp [beginsInstruction_of_comment hcomment])]
    simp [listed]

/-- As many loops are open as the balance of the text says. -/
theorem length_opened_feed (h : r.feed bound c = .ok r')
    (hr : (r.opened.length : Int) = balance text) :
    (r'.opened.length : Int) = balance (text ++ [c]) := by
  rcases feed_cases h with ⟨d, hd, rfl⟩ | ⟨rfl, -, rfl⟩ | ⟨rfl, l, outer, hopened, rfl⟩ |
    ⟨hcomment, rfl⟩
  · have hchar := Command.char_of_ofChar? hd
    subst hchar
    simpa [balance_cons_of_ne d.char_ne_opening d.char_ne_closing] using hr
  · simpa using hr
  · simp only [hopened, List.length_cons] at hr
    simp only [balance_append, balance_closing, balance_nil]
    omega
  · have hopening : c ≠ '[' := by
      rintro rfl
      cases hcomment
    have hclosing : c ≠ ']' := by
      rintro rfl
      cases hcomment
    simpa [balance_cons_of_ne hopening hclosing] using hr

theorem place_feed (h : r.feed bound c = .ok r') : r'.place = r.place.next c := by
  rcases feed_cases h with ⟨d, -, rfl⟩ | ⟨rfl, -, rfl⟩ | ⟨rfl, l, outer, -, rfl⟩ | ⟨-, rfl⟩ <;> rfl

/-- What a reader knows about the text that it has come through. -/
structure Lists (text : List Char) (r : Reader) : Prop where
  /-- It stands behind the text. -/
  place : r.place = Span.after text
  /-- As many loops are open as the balance of the text says. -/
  depth : (r.opened.length : Int) = balance text
  /-- It has listed what the text lists. -/
  listed : r.listed.map ListingEntry.shown = listing text

theorem Lists.feed (hr : r.Lists text) (h : r.feed bound c = .ok r') : r'.Lists (text ++ [c]) where
  place := by rw [place_feed h, hr.place, Span.after_concat]
  depth := length_opened_feed h hr.depth
  listed := by
    rw [listed_feed h, listing_concat, List.map_append, hr.listed]
    by_cases hbegins : beginsInstruction c = true
    · -- The new entry shows where the reader stands, which is behind the text.
      simp [hbegins, ListingEntry.shown, hr.place, hr.depth]
    · simp [hbegins]

theorem lists_feedAll (h : Reader.start.feedAll bound text = .ok r) : r.Lists text := by
  have hstart : Reader.start.Lists [] := ⟨rfl, rfl, rfl⟩
  exact feedAll_induction (I := Lists) Lists.feed hstart h

end Reader

namespace Program

/-- The places of what was read are exact. The listing of a program that was read from a text shows
the characters of the text that begin an instruction, in their order and each once. Each is at the
place behind what stands before it, where only a line feed begins a new line, and it is inside of as
many loops as that leaves open. No other program has this listing. -/
theorem listing_exact {bound : Nat} {text : List Char} {p : Program}
    (h : ofTextWithin bound text = .ok p) :
    p.listing.map ListingEntry.shown = Text.listing text ∧
      ∀ q : Program, q.native = true → q.listing = p.listing → q = p := by
  obtain ⟨r, hr, hopened, hp⟩ := exists_feedAll_of_ok h
  constructor
  · -- With no loop open, the reader has listed its one block and nothing else.
    have hlisted := (Reader.lists_feedAll hr).listed
    rw [Reader.listed, hopened, Reader.listedAround, List.nil_append, ← hp] at hlisted
    exact hlisted
  · intro q hq hlisting
    exact eq_of_listing_eq hq (native_of_ofTextWithin h) hlisting

/-- A carriage return does not begin a line, and a bracket on the third line closes the loop of the
second one. -/
theorem listing_exact_three_lines :
    let text := ['a', '\r', '\n', '+', '[', '>', '\n', ']', ',']
    let p : Program := .command .increment (some ⟨2, 1⟩)
      (.loop (.command .right (some ⟨2, 3⟩) .nil) (some ⟨2, 2⟩)
        (.command .input (some ⟨3, 2⟩) .nil))
    ofTextWithin 2 text = .ok p ∧
      Text.listing text = [('+', some ⟨2, 1⟩, 0), ('[', some ⟨2, 2⟩, 0), ('>', some ⟨2, 3⟩, 1),
        (',', some ⟨3, 2⟩, 0)] ∧
      ∀ q : Program, q.native = true → q.listing = p.listing → q = p := by
  intro text p
  have hread : ofTextWithin 2 text = .ok p := by decide
  obtain ⟨hlisting, hunique⟩ := listing_exact hread
  exact ⟨hread, hlisting.symm, hunique⟩

end Program

end TapeLang
