import Mathlib.Algebra.Group.Nat.Defs
import Mathlib.Data.List.TakeWhile
import Mathlib.Order.Basic
import TapeLang.Proofs.CommandLine.Arguments
import TapeLang.RunConfig.IntText

/-!
# Texts that are read as integers

What is known of a text in lenient spelling, whatever integer it is read as.

* `IntText.isSpelling_of_ofLenient`: what such a text consists of.
* `IntText.ofLenient_strip`: blanks around it do not matter to the integer. A text that has been
  trimmed may be canonical, so what is canonical has to be clean (`IntText.clean_of_ofCanonical`),
  and what has too many digits has to keep them (`IntText.clean_of_tooLong`).
* `IntText.natAbs_lt_of_ofLenient`: no integer that is read has too many digits.
-/

namespace TapeLang

/-! ## Trimming -/

namespace Text

variable {drop : Char → Bool}

/-- What is dropped at the end of a text is of the class. -/
theorem exists_trimEndBy (drop : Char → Bool) (text : List Char) :
    ∃ dropped, text = trimEndBy drop text ++ dropped ∧ ∀ c ∈ dropped, drop c = true := by
  induction text with
  | nil => exact ⟨[], rfl, nofun⟩
  | cons c rest ih =>
    obtain ⟨dropped, hrest, hdropped⟩ := ih
    rw [trimEndBy]
    split
    · next hnil =>
      rw [hnil, List.nil_append] at hrest
      subst hrest
      split
      · next hc => exact ⟨c :: rest, rfl, List.forall_mem_cons.2 ⟨hc, hdropped⟩⟩
      · exact ⟨rest, rfl, hdropped⟩
    · exact ⟨dropped, congrArg (c :: ·) hrest, hdropped⟩

theorem trimEndBy_append {dropped : List Char} (h : ∀ c ∈ dropped, drop c = true)
    (text : List Char) : trimEndBy drop (text ++ dropped) = trimEndBy drop text := by
  induction text with
  | nil =>
    induction dropped with
    | nil => rfl
    | cons c rest ih =>
      obtain ⟨hc, hrest⟩ := List.forall_mem_cons.1 h
      have hnil : trimEndBy drop rest = [] := ih hrest
      simp only [List.nil_append, trimEndBy, hnil, hc, if_true]
  | cons c rest ih => rw [List.cons_append, trimEndBy, trimEndBy, ih]

/-- If nothing of a larger class is left when a smaller one has been trimmed, trimming the larger
class does the same. -/
theorem trimBy_eq_trimBy {larger smaller : Char → Bool} {text : List Char}
    (h : ∀ c, smaller c = true → larger c = true)
    (hleft : ∀ c ∈ trimBy smaller text, larger c = false) :
    trimBy larger text = trimBy smaller text := by
  obtain ⟨behind, htext, hbehind⟩ := exists_trimEndBy smaller (text.dropWhile smaller)
  have hparts : text = text.takeWhile smaller ++ (trimBy smaller text ++ behind) := by
    rw [trimBy, ← htext, List.takeWhile_append_dropWhile]
  have hbefore : ∀ c ∈ text.takeWhile smaller, larger c = true := fun c hc =>
    h c (List.mem_takeWhile_imp hc)
  -- All that the smaller class drops in front, the larger one does too.
  have hfront : text.dropWhile larger = (trimBy smaller text ++ behind).dropWhile larger := by
    rw [hparts, List.dropWhile_append_of_pos hbefore, ← hparts]
  rw [trimBy, hfront]
  cases hkept : trimBy smaller text with
  | nil =>
    rw [List.nil_append, List.dropWhile_eq_nil_iff.2 fun c hc => h c (hbehind c hc)]
    rfl
  | cons c rest =>
    rw [hkept] at hleft
    have hc : larger c = false := hleft c List.mem_cons_self
    rw [List.cons_append, List.dropWhile_cons_of_neg (by simp [hc]), ← List.cons_append,
      trimEndBy_append fun d hd => h d (hbehind d hd), trimEndBy_eq_self hleft]

theorem ne_of_isDigit {c d : Char} (hc : c.isDigit = true) (hd : d.isDigit = false) : c ≠ d := by
  rintro rfl
  rw [hc] at hd
  cases hd

theorem isDigit_of_asciiDigit? {c : Char} {d : Nat} (h : asciiDigit? c = some d) :
    c.isDigit = true ∧ d < 10 := by
  unfold asciiDigit? at h
  split at h
  · next hc =>
    obtain ⟨hlow, hhigh⟩ := hc
    have hlow' : 48 ≤ c.toNat := hlow
    have hhigh' : c.toNat ≤ 57 := hhigh
    have hd : c.toNat - 48 = d := Option.some.inj h
    exact ⟨Char.isDigit_iff_toNat.2 ⟨hlow', hhigh'⟩, by omega⟩
  · cases h

end Text

namespace IntText

variable {text cleaned : List Char} {c : Char} {n : Int}

/-! ## Canonical spelling -/

/-- A row of characters that is read as a number is one of digits, and the number has no more
digits than the row. -/
theorem value?_eq_some {digits : List Char} {before k : Nat}
    (h : digits.foldlM (fun n c => (Text.asciiDigit? c).map fun d => 10 * n + d) before = some k) :
    (∀ c ∈ digits, c.isDigit = true) ∧ k < (before + 1) * 10 ^ digits.length := by
  induction digits generalizing before with
  | nil =>
    obtain rfl : before = k := Option.some.inj h
    exact ⟨nofun, by simp⟩
  | cons c rest ih =>
    rw [List.foldlM_cons] at h
    obtain ⟨next, hnext, hrest⟩ := Option.bind_eq_some_iff.1 h
    obtain ⟨d, hd, rfl⟩ := Option.map_eq_some_iff.1 hnext
    obtain ⟨hdigit, hlt⟩ := Text.isDigit_of_asciiDigit? hd
    obtain ⟨hdigits, hk⟩ := ih hrest
    refine ⟨List.forall_mem_cons.2 ⟨hdigit, hdigits⟩, hk.trans_le ?_⟩
    rw [List.length_cons, Nat.pow_succ', ← Nat.mul_assoc]
    exact Nat.mul_le_mul_right _ (by omega)

/-- A number in canonical spelling: digits without a leading zero, and not too many. -/
structure Plain (text : List Char) : Prop where
  /-- There are digits only. -/
  isDigit : ∀ c ∈ text, c.isDigit = true
  /-- The first digit is no zero, unless it is the only one. -/
  head : text = ['0'] ∨ ∃ c rest, text = c :: rest ∧ c ≠ '0'
  /-- There are not too many digits. -/
  length_le : text.length ≤ maxDigits

/-- A text that begins with too many digits, the first of which is no zero. -/
def BeginsLong (text : List Char) : Prop :=
  ∃ c digits rest, text = c :: digits ++ rest ∧ c ≠ '0' ∧
    (∀ d ∈ c :: digits, d.isDigit = true) ∧ maxDigits < (c :: digits).length

theorem range_of_isDigit (h : c.isDigit = true) (hne : c ≠ '0') : '1' ≤ c ∧ c ≤ '9' := by
  have hrange : 48 ≤ c.toNat ∧ c.toNat ≤ 57 := Char.isDigit_iff_toNat.1 h
  have hne' : c.toNat ≠ 48 := fun heq => hne (Char.toNat_inj.1 heq)
  have hlow : 49 ≤ c.toNat := by omega
  exact ⟨hlow, hrange.2⟩

theorem asciiDigit?_isSome_iff : (Text.asciiDigit? c).isSome = true ↔ c.isDigit = true := by
  constructor
  · intro h
    obtain ⟨d, hd⟩ := Option.isSome_iff_exists.1 h
    exact (Text.isDigit_of_asciiDigit? hd).1
  · intro h
    have hrange : '0' ≤ c ∧ c ≤ '9' := Char.isDigit_iff_toNat.1 h
    rw [Text.asciiDigit?, if_pos hrange]
    rfl

/-- The digits at the beginning of a text. -/
theorem takeWhile_asciiDigit?_eq (text : List Char) :
    text.takeWhile (fun c => (Text.asciiDigit? c).isSome) = text.takeWhile Char.isDigit := by
  have hdigit : (fun c => (Text.asciiDigit? c).isSome) = Char.isDigit :=
    funext fun c => Bool.eq_iff_iff.2 asciiDigit?_isSome_iff
  rw [hdigit]

theorem plain_of_natural {k : Nat} (h : natural text = .ok k) :
    Plain text ∧ k < 10 ^ maxDigits := by
  unfold natural at h
  split at h
  · cases h
  · cases h
    exact ⟨⟨List.forall_mem_singleton.2 rfl, .inl rfl, by decide⟩, Nat.pow_pos (by decide)⟩
  · cases h
  · next hnil _ hzero =>
    rw [takeWhile_asciiDigit?_eq] at h
    split at h
    · cases h
    · next hlength =>
      split at h
      · next k' hvalue =>
        cases h
        obtain ⟨hdigits, hk⟩ := value?_eq_some hvalue
        rw [List.takeWhile_eq_self_iff.2 hdigits, Nat.not_lt] at hlength
        rw [Nat.zero_add, Nat.one_mul] at hk
        refine ⟨⟨hdigits, .inr ?_, hlength⟩,
          hk.trans_le (Nat.pow_le_pow_right (by decide) hlength)⟩
        cases text with
        | nil => exact absurd rfl hnil
        | cons c rest => exact ⟨c, rest, rfl, fun heq => hzero rest (heq ▸ rfl)⟩
      · cases h

theorem beginsLong_of_natural (h : natural text = .error .tooLong) : BeginsLong text := by
  unfold natural at h
  split at h
  · cases h
  · cases h
  · cases h
  · next hnil _ hzero =>
    rw [takeWhile_asciiDigit?_eq] at h
    split at h
    · next hlength =>
      have hparts : text = text.takeWhile Char.isDigit ++ text.dropWhile Char.isDigit :=
        List.takeWhile_append_dropWhile.symm
      have hdigits : ∀ d ∈ text.takeWhile Char.isDigit, d.isDigit = true := fun d hd =>
        List.mem_takeWhile_imp hd
      cases hrow : text.takeWhile Char.isDigit with
      | nil =>
        rw [hrow] at hlength
        exact absurd hlength (Nat.not_lt_zero _)
      | cons c digits =>
        rw [hrow] at hparts hdigits hlength
        refine ⟨c, digits, _, hparts, fun heq => ?_, hdigits, hlength⟩
        exact hzero _ (heq ▸ hparts)
    · split at h <;> cases h

theorem natural_of_beginsLong (h : BeginsLong text) : natural text = .error .tooLong := by
  obtain ⟨c, digits, rest, rfl, hc, hdigits, hlength⟩ := h
  unfold natural
  split
  · next hnil => cases hnil
  · next hzero => exact absurd (List.cons.inj hzero).1 hc
  · next hzero => exact absurd (List.cons.inj hzero).1 hc
  · rw [takeWhile_asciiDigit?_eq, List.takeWhile_append_of_pos hdigits,
      if_pos (hlength.trans_le (by simp))]

theorem map_eq_ok_iff {r : Except Refusal Nat} {f : Nat → Int} :
    r.map f = .ok n ↔ ∃ k, r = .ok k ∧ f k = n := by
  cases r <;> simp [Except.map]

theorem map_eq_error_iff {r : Except Refusal Nat} {f : Nat → Int} {e : Refusal} :
    r.map f = .error e ↔ r = .error e := by
  cases r <;> simp [Except.map]

/-- An integer is spelled canonically as a number, maybe behind a minus sign. -/
theorem ofCanonical_cases {result : Except Refusal Int} (h : ofCanonical text = result) :
    (∃ digits, text = '-' :: digits ∧ (natural digits).map (fun k : Nat => -(k : Int)) = result) ∨
      (∀ digits, text ≠ '-' :: digits) ∧
        (natural text).map (fun k : Nat => (k : Int)) = result := by
  subst h
  unfold ofCanonical
  split
  · next digits =>
    refine .inl ⟨digits, rfl, ?_⟩
    cases natural digits <;> rfl
  · next hsign =>
    refine .inr ⟨hsign, ?_⟩
    cases natural text <;> rfl

theorem Plain.ne_cons (h : Plain text) (hc : c.isDigit = false) (rest : List Char) :
    text ≠ c :: rest := by
  rintro rfl
  exact Text.ne_of_isDigit (h.isDigit c List.mem_cons_self) hc rfl

theorem BeginsLong.ne_cons (h : BeginsLong text) (hc : c.isDigit = false) (rest : List Char) :
    text ≠ c :: rest := by
  obtain ⟨d, digits, rest', rfl, -, hdigits, -⟩ := h
  intro heq
  exact Text.ne_of_isDigit (hdigits d List.mem_cons_self) hc (List.cons.inj heq).1

/-- What is canonical is a number, maybe behind a minus sign, and not too large. -/
theorem plain_of_ofCanonical (h : ofCanonical text = .ok n) :
    n.natAbs < 10 ^ maxDigits ∧ ((∃ digits, text = '-' :: digits ∧ Plain digits) ∨ Plain text) := by
  rcases ofCanonical_cases h with ⟨digits, rfl, hn⟩ | ⟨-, hn⟩
  · obtain ⟨k, hk, rfl⟩ := map_eq_ok_iff.1 hn
    obtain ⟨hplain, hlt⟩ := plain_of_natural hk
    exact ⟨by simpa using hlt, .inl ⟨digits, rfl, hplain⟩⟩
  · obtain ⟨k, hk, rfl⟩ := map_eq_ok_iff.1 hn
    obtain ⟨hplain, hlt⟩ := plain_of_natural hk
    exact ⟨by simpa using hlt, .inr hplain⟩

theorem beginsLong_of_ofCanonical (h : ofCanonical text = .error .tooLong) :
    (∃ digits, text = '-' :: digits ∧ BeginsLong digits) ∨ BeginsLong text := by
  rcases ofCanonical_cases h with ⟨digits, rfl, hn⟩ | ⟨-, hn⟩
  · exact .inl ⟨digits, rfl, beginsLong_of_natural (map_eq_error_iff.1 hn)⟩
  · exact .inr (beginsLong_of_natural (map_eq_error_iff.1 hn))

theorem ofCanonical_of_beginsLong (h : BeginsLong text) :
    ofCanonical text = .error .tooLong := by
  rcases ofCanonical_cases (rfl : ofCanonical text = _) with ⟨digits, hsign, -⟩ | ⟨-, hresult⟩
  · exact absurd hsign (h.ne_cons rfl digits)
  · rw [← hresult, natural_of_beginsLong h]
    rfl

/-! ## Cleaning -/

theorem dropLeadingZeros_of_ne (hdigit : c.isDigit = true) (hne : c ≠ '0') (rest : List Char) :
    dropLeadingZeros (c :: rest) = some (c :: rest) := by
  rw [dropLeadingZeros, if_neg hne, if_pos (.inl (range_of_isDigit hdigit hne))]

/-- A number in canonical spelling is clean. -/
theorem Plain.cleanUnsigned (h : Plain text) : cleanUnsigned text = some text := by
  have hzeros : dropLeadingZeros text = some text := by
    rcases h.head with rfl | ⟨c, rest, rfl, hne⟩
    · rfl
    · exact dropLeadingZeros_of_ne (h.isDigit c List.mem_cons_self) hne rest
  have hfraction : dropZeroFraction text = text := by
    have hpoint : text.dropWhile (· ≠ '.') = [] := List.dropWhile_eq_nil_iff.2 fun c hc => by
      simpa using Text.ne_of_isDigit (d := '.') (h.isDigit c hc) rfl
    rw [dropZeroFraction, hpoint]
  have hunderscores : dropUnderscores text = text := by
    rw [dropUnderscores]
    split
    · rfl
    · refine List.filter_eq_self.2 fun c hc => ?_
      simpa using Text.ne_of_isDigit (d := '_') (h.isDigit c hc) rfl
  rw [IntText.cleanUnsigned, hzeros, Option.map_some, hfraction, hunderscores]

/-- A fraction does not begin before the end of the digits in front. -/
theorem exists_dropZeroFraction {digits : List Char} (h : ∀ d ∈ digits, d.isDigit = true)
    (rest : List Char) : ∃ rest', dropZeroFraction (digits ++ rest) = digits ++ rest' := by
  unfold dropZeroFraction
  split
  · exact ⟨rest, rfl⟩
  · split
    · refine ⟨rest.takeWhile (· ≠ '.'), List.takeWhile_append_of_pos fun d hd => ?_⟩
      simpa using Text.ne_of_isDigit (d := '.') (h d hd) rfl
    · exact ⟨rest, rfl⟩

/-- Underscores are not taken out of the digits in front. -/
theorem exists_dropUnderscores {digits : List Char} (h : ∀ d ∈ digits, d.isDigit = true)
    (rest : List Char) : ∃ rest', dropUnderscores (digits ++ rest) = digits ++ rest' := by
  rw [dropUnderscores]
  split
  · exact ⟨rest, rfl⟩
  · refine ⟨rest.filter (· ≠ '_'), ?_⟩
    rw [List.filter_append, List.filter_eq_self.2 fun d hd => ?_]
    simpa using Text.ne_of_isDigit (d := '_') (h d hd) rfl

/-- A text that begins with too many digits still does so when it has been cleaned. -/
theorem BeginsLong.cleanUnsigned (h : BeginsLong text) :
    ∃ cleaned, cleanUnsigned text = some cleaned ∧ BeginsLong cleaned := by
  obtain ⟨c, digits, rest, rfl, hc, hdigits, hlength⟩ := h
  have hzeros : dropLeadingZeros (c :: digits ++ rest) = some (c :: digits ++ rest) :=
    dropLeadingZeros_of_ne (hdigits c List.mem_cons_self) hc (digits ++ rest)
  obtain ⟨behind, hfraction⟩ := exists_dropZeroFraction hdigits rest
  obtain ⟨left, hunderscores⟩ := exists_dropUnderscores hdigits behind
  refine ⟨c :: digits ++ left, ?_, c, digits, left, rfl, hc, hdigits, hlength⟩
  rw [IntText.cleanUnsigned, hzeros, Option.map_some, hfraction, hunderscores]

/-- A text without white space around it that begins with no sign. -/
theorem clean_unsigned (htrim : Text.trimBy Text.isSpace text = text)
    (hsign : ∀ c, c.isDigit = false → ∀ rest, text ≠ c :: rest) :
    clean text = cleanUnsigned text := by
  rw [clean, htrim]
  split
  · exact absurd rfl (hsign '+' rfl _)
  · exact absurd rfl (hsign '+' rfl _)
  · exact absurd rfl (hsign '-' rfl _)
  · rfl

theorem clean_negative (htrim : Text.trimBy Text.isSpace ('-' :: text) = '-' :: text) :
    clean ('-' :: text) = (cleanUnsigned text).map ('-' :: ·) := by
  rw [clean, htrim]
  rfl

/-- The characters of integers in lenient spelling, white space aside. -/
def isSpelling (c : Char) : Bool :=
  c.isDigit || ['-', '+', '_', '.'].contains c

theorem isSpelling_of_isDigit (h : c.isDigit = true) : isSpelling c = true := by
  simp [isSpelling, h]

theorem isSpelling_cases (h : isSpelling c = true) :
    c.isDigit = true ∨ c = '-' ∨ c = '+' ∨ c = '_' ∨ c = '.' := by
  simpa [isSpelling] using h

/-- No such character is blank. -/
theorem isBlank_of_isSpelling (h : isSpelling c = true) : Text.isBlank c = false := by
  rcases isSpelling_cases h with hdigit | rfl | rfl | rfl | rfl
  · have hrange : 48 ≤ c.toNat ∧ c.toNat ≤ 57 := Char.isDigit_iff_toNat.1 hdigit
    rw [Text.isBlank, Text.isSpace_of_isDigit hdigit]
    simp only [Bool.false_or, Bool.and_eq_false_iff, decide_eq_false_iff_not]
    omega
  all_goals rfl

theorem trim_of_isSpelling (h : ∀ c ∈ text, isSpelling c = true) :
    Text.trimBy Text.isSpace text = text := by
  refine Text.trimBy_eq_self fun c hc => Bool.eq_false_iff.2 fun hspace => ?_
  have hblank := isBlank_of_isSpelling (h c hc)
  rw [Text.isBlank_of_isSpace hspace] at hblank
  cases hblank

/-- No such character has a case. -/
theorem toLower_of_isSpelling (h : isSpelling c = true) : c.toLower = c := by
  rcases isSpelling_cases h with hdigit | rfl | rfl | rfl | rfl
  · have hrange : 48 ≤ c.toNat ∧ c.toNat ≤ 57 := Char.isDigit_iff_toNat.1 hdigit
    refine dif_neg fun hupper => ?_
    have hlow : 65 ≤ c.toNat := hupper.1
    omega
  all_goals rfl

theorem isSpelling_of_dropZeros {last : Char} (h : dropZeros last text = some cleaned)
    (hcleaned : ∀ c ∈ cleaned, isSpelling c = true) : ∀ c ∈ text, isSpelling c = true := by
  -- What is dropped are zeros and underscores, and what is left is part of the cleaned text.
  induction text generalizing last with
  | nil => exact nofun
  | cons c rest ih =>
    rw [dropZeros] at h
    split at h
    · next hc =>
      refine List.forall_mem_cons.2 ⟨?_, ih h⟩
      simp only [Bool.or_eq_true, decide_eq_true_eq] at hc
      rcases hc with rfl | rfl <;> decide
    · split at h
      · cases h
        exact hcleaned
      · split at h
        · cases h
          exact fun d hd => hcleaned d (List.mem_cons_of_mem _ hd)
        · cases h

theorem isSpelling_of_dropLeadingZeros (h : dropLeadingZeros text = some cleaned)
    (hcleaned : ∀ c ∈ cleaned, isSpelling c = true) : ∀ c ∈ text, isSpelling c = true := by
  unfold dropLeadingZeros at h
  split at h
  · cases h
  · split at h
    · next hc => exact List.forall_mem_cons.2 ⟨hc ▸ by decide, isSpelling_of_dropZeros h hcleaned⟩
    · split at h
      · cases h
        exact hcleaned
      · cases h

theorem isSpelling_of_dropZeroFraction
    (h : ∀ c ∈ dropZeroFraction text, isSpelling c = true) : ∀ c ∈ text, isSpelling c = true := by
  unfold dropZeroFraction at h
  split at h
  · exact h
  · next point fraction hpoint =>
    split at h
    · next hzeros =>
      simp only [Bool.and_eq_true, List.all_eq_true, decide_eq_true_eq] at hzeros
      have hparts : text = text.takeWhile (· ≠ '.') ++ point :: fraction := by
        rw [← hpoint, List.takeWhile_append_dropWhile]
      have hpoint' : point = '.' := by
        have hhead := List.head?_dropWhile_not (· ≠ '.') text
        rw [hpoint] at hhead
        simpa using hhead
      rw [hparts]
      refine List.forall_mem_append.2 ⟨h, List.forall_mem_cons.2 ⟨hpoint' ▸ by decide, ?_⟩⟩
      exact fun c hc => hzeros.2 c hc ▸ by decide
    · exact h

theorem isSpelling_of_dropUnderscores
    (h : ∀ c ∈ dropUnderscores text, isSpelling c = true) : ∀ c ∈ text, isSpelling c = true := by
  rw [dropUnderscores] at h
  split at h
  · exact h
  · intro c hc
    by_cases hunderscore : c = '_'
    · subst hunderscore
      decide
    · exact h c (List.mem_filter.2 ⟨hc, by simpa using hunderscore⟩)

theorem isSpelling_of_cleanUnsigned (h : cleanUnsigned text = some cleaned)
    (hcleaned : ∀ c ∈ cleaned, isSpelling c = true) : ∀ c ∈ text, isSpelling c = true := by
  obtain ⟨text', hzeros, rfl⟩ := Option.map_eq_some_iff.1 h
  exact isSpelling_of_dropLeadingZeros hzeros
    (isSpelling_of_dropZeroFraction (isSpelling_of_dropUnderscores hcleaned))

theorem isSpelling_of_clean (h : clean text = some cleaned)
    (hcleaned : ∀ c ∈ cleaned, isSpelling c = true) :
    ∀ c ∈ Text.trimBy Text.isSpace text, isSpelling c = true := by
  unfold clean at h
  split at h
  · cases h
  · next rest _ hsign =>
    rw [hsign]
    exact List.forall_mem_cons.2 ⟨by decide, isSpelling_of_cleanUnsigned h hcleaned⟩
  · next rest hsign =>
    obtain ⟨cleaned', hclean, rfl⟩ := Option.map_eq_some_iff.1 h
    rw [hsign]
    exact List.forall_mem_cons.2
      ⟨by decide, isSpelling_of_cleanUnsigned hclean (List.forall_mem_cons.1 hcleaned).2⟩
  · exact isSpelling_of_cleanUnsigned h hcleaned

theorem isSpelling_of_ofCanonical (h : ofCanonical text = .ok n) :
    ∀ c ∈ text, isSpelling c = true := by
  rcases (plain_of_ofCanonical h).2 with ⟨digits, rfl, hplain⟩ | hplain
  · exact List.forall_mem_cons.2
      ⟨by decide, fun c hc => isSpelling_of_isDigit (hplain.isDigit c hc)⟩
  · exact fun c hc => isSpelling_of_isDigit (hplain.isDigit c hc)

/-! ## Lenient spelling -/

/-- A text in lenient spelling is canonical, or it is when it has been cleaned. -/
theorem ofLenient_eq_ok_iff :
    ofLenient text = .ok n ↔
      ofCanonical text = .ok n ∨
        ofCanonical text = .error .malformed ∧
          ∃ cleaned, clean text = some cleaned ∧ ofCanonical cleaned = .ok n := by
  unfold ofLenient
  cases hcanonical : ofCanonical text with
  | ok m => simp
  | error e =>
    cases e with
    | tooLong => simp
    | malformed =>
      cases hclean : clean text with
      | none => simp
      | some cleaned =>
        cases hcleaned : ofCanonical cleaned with
        | ok m => simp [hcleaned]
        | error e => simp [hcleaned]

/-- White space aside, a text that is read as an integer holds digits, signs, underscores and points
only. -/
theorem isSpelling_of_ofLenient (h : ofLenient text = .ok n) :
    ∀ c ∈ Text.trimBy Text.isSpace text, isSpelling c = true := by
  rcases ofLenient_eq_ok_iff.1 h with hcanonical | ⟨-, cleaned, hclean, hcleaned⟩
  -- A canonical text has no white space around it.
  · have hspelling := isSpelling_of_ofCanonical hcanonical
    rw [trim_of_isSpelling hspelling]
    exact hspelling
  · exact isSpelling_of_clean hclean (isSpelling_of_ofCanonical hcleaned)

/-- Dropping the blanks around a text that is read as an integer drops its white space only. -/
theorem strip_of_ofLenient (h : ofLenient text = .ok n) :
    Text.strip text = Text.trimBy Text.isSpace text :=
  Text.trimBy_eq_trimBy (fun _ => Text.isBlank_of_isSpace) fun c hc =>
    isBlank_of_isSpelling (isSpelling_of_ofLenient h c hc)

/-- A canonical text is clean. -/
theorem clean_of_ofCanonical (h : ofCanonical text = .ok n) : clean text = some text := by
  have htrim := trim_of_isSpelling (isSpelling_of_ofCanonical h)
  rcases (plain_of_ofCanonical h).2 with ⟨digits, rfl, hplain⟩ | hplain
  · rw [clean_negative htrim, hplain.cleanUnsigned, Option.map_some]
  · rw [clean_unsigned htrim fun c hc => hplain.ne_cons hc, hplain.cleanUnsigned]

/-- A text that is canonical but for too many digits is still so when it has been cleaned. -/
theorem clean_of_tooLong (h : ofCanonical text = .error .tooLong)
    (htrim : Text.trimBy Text.isSpace text = text) :
    ∃ cleaned, clean text = some cleaned ∧ ofCanonical cleaned = .error .tooLong := by
  rcases beginsLong_of_ofCanonical h with ⟨digits, rfl, hbegins⟩ | hbegins
  · obtain ⟨cleaned, hclean, hlong⟩ := hbegins.cleanUnsigned
    refine ⟨'-' :: cleaned, by rw [clean_negative htrim, hclean, Option.map_some], ?_⟩
    rw [ofCanonical, natural_of_beginsLong hlong]
    rfl
  · obtain ⟨cleaned, hclean, hlong⟩ := hbegins.cleanUnsigned
    refine ⟨cleaned, ?_, ofCanonical_of_beginsLong hlong⟩
    rw [clean_unsigned htrim fun c hc => hbegins.ne_cons hc, hclean]

/-- Blanks around a text do not matter to the integer that it is read as. -/
theorem ofLenient_strip (h : ofLenient text = .ok n) : ofLenient (Text.strip text) = .ok n := by
  have hspelling := isSpelling_of_ofLenient h
  rw [strip_of_ofLenient h]
  rcases ofLenient_eq_ok_iff.1 h with hcanonical | ⟨-, cleaned, hclean, hcleaned⟩
  · rwa [trim_of_isSpelling (isSpelling_of_ofCanonical hcanonical)]
  · -- What is left is cleaned to the same text, but it may be canonical already.
    have htrim := trim_of_isSpelling hspelling
    have hclean' : clean (Text.trimBy Text.isSpace text) = some cleaned := by
      rw [clean, htrim]
      exact hclean
    refine ofLenient_eq_ok_iff.2 ?_
    cases hleft : ofCanonical (Text.trimBy Text.isSpace text) with
    | ok m =>
      have hsame : cleaned = Text.trimBy Text.isSpace text :=
        Option.some.inj (hclean'.symm.trans (clean_of_ofCanonical hleft))
      rw [hsame, hleft] at hcleaned
      exact .inl hcleaned
    | error e =>
      cases e with
      | malformed => exact .inr ⟨rfl, cleaned, hclean', hcleaned⟩
      | tooLong =>
        obtain ⟨long, hlong, hrefused⟩ := clean_of_tooLong hleft htrim
        obtain rfl : cleaned = long := Option.some.inj (hclean'.symm.trans hlong)
        rw [hrefused] at hcleaned
        cases hcleaned

theorem strip_strip (h : ofLenient text = .ok n) :
    Text.strip (Text.strip text) = Text.strip text := by
  rw [strip_of_ofLenient h]
  exact Text.trimBy_eq_self fun c hc => isBlank_of_isSpelling (isSpelling_of_ofLenient h c hc)

/-- A blank text is not read as an integer. -/
theorem strip_ne_nil (h : ofLenient text = .ok n) : Text.strip text ≠ [] := by
  intro heq
  have hblank := ofLenient_strip h
  rw [heq] at hblank
  cases hblank

/-- No integer that is read has too many digits. -/
theorem natAbs_lt_of_ofLenient (h : ofLenient text = .ok n) : n.natAbs < 10 ^ maxDigits := by
  rcases ofLenient_eq_ok_iff.1 h with hcanonical | ⟨-, cleaned, -, hcleaned⟩
  · exact (plain_of_ofCanonical hcanonical).1
  · exact (plain_of_ofCanonical hcleaned).1

end IntText

end TapeLang
