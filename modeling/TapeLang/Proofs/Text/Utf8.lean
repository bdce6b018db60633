import Mathlib.Data.List.Forall2
import TapeLang.Text.Utf8

/-!
# Reading what was written as UTF-8

The first byte of a character says in which ranges the others lie, and these bytes complete the
character (`exists_utf8Lead`, `decodeFrom_pending`). So a text is read back from its bytes
(`decode_encode`).
-/

namespace TapeLang.Text

/-- Whether bytes lie in the ranges of the bytes to come. -/
def Continues (ranges : List (Nat × Nat)) (bytes : List UInt8) : Prop :=
  List.Forall₂ (fun range b => range.1 ≤ b.toNat ∧ b.toNat ≤ range.2) ranges bytes

/-- The bits of a character after further bytes. -/
def bitsAfter (bits : Nat) (bytes : List UInt8) : Nat :=
  bytes.foldl (fun bits b => bits * 64 + (b.toNat - 0x80)) bits

theorem bitsAfter_nil (bits : Nat) : bitsAfter bits [] = bits := rfl

theorem bitsAfter_cons (bits : Nat) (b : UInt8) (bytes : List UInt8) :
    bitsAfter bits (b :: bytes) = bitsAfter (bits * 64 + (b.toNat - 0x80)) bytes := by
  rw [bitsAfter, List.foldl_cons, ← bitsAfter]

/-- The bytes to come complete the character that is pending. -/
theorem decodeFrom_pending {p : Utf8Pending} {bytes : List UInt8}
    (h : Continues p.ranges bytes) (hne : bytes ≠ []) (position : Nat) (rest : List UInt8) :
    decodeFrom position (some p) (bytes ++ rest) =
      (decodeFrom (position + bytes.length) none rest).map
        (Char.ofNat (bitsAfter p.bits bytes) :: ·) := by
  induction bytes generalizing p position with
  | nil => exact absurd rfl hne
  | cons b bytes ih =>
    obtain ⟨start, read, bits, ranges⟩ := p
    cases h with
    | cons hb hbytes =>
      rw [List.cons_append, decodeFrom]
      simp only [if_pos hb]
      cases hbytes with
      | nil =>
        rw [bitsAfter_cons]
        rfl
      | cons hc hcs =>
        have hrest := ih (p := ⟨start, b :: read, bits * 64 + (b.toNat - 0x80), _⟩)
          (.cons hc hcs) (by simp) (position + 1)
        refine hrest.trans ?_
        simp only [bitsAfter_cons, List.length_cons, Nat.add_assoc, Nat.add_comm 1]

section Lead

variable {n : Nat}

/-- The second byte keeps out longer forms behind the least first byte, and surrogates. -/
theorem utf8Lead?_three (hlow : 0x800 ≤ n) (hhigh : n < 0x10000)
    (hvalid : n < 0xD800 ∨ 0xDFFF < n) :
    ∃ second : Nat × Nat, utf8Lead? (0xE0 + n / 4096) = some ⟨n / 4096, second, 1⟩ ∧
      second.1 ≤ 0x80 + n / 64 % 64 ∧ 0x80 + n / 64 % 64 ≤ second.2 := by
  rw [utf8Lead?, if_neg (by omega), Nat.add_sub_cancel_left]
  split
  · exact ⟨_, rfl, by omega, by omega⟩
  split
  · exact ⟨_, rfl, by omega, by omega⟩
  rw [if_pos (by omega)]
  exact ⟨_, rfl, by omega, by omega⟩

/-- The second byte keeps out longer forms behind the least first byte, and numbers that no
character has behind the greatest. -/
theorem utf8Lead?_four (hlow : 0x10000 ≤ n) (hhigh : n < 0x110000) :
    ∃ second : Nat × Nat, utf8Lead? (0xF0 + n / 262144) = some ⟨n / 262144, second, 2⟩ ∧
      second.1 ≤ 0x80 + n / 4096 % 64 ∧ 0x80 + n / 4096 % 64 ≤ second.2 := by
  rw [utf8Lead?, if_neg (by omega), if_neg (by omega), if_neg (by omega), if_neg (by omega),
    Nat.add_sub_cancel_left]
  split
  · exact ⟨_, rfl, by omega, by omega⟩
  split
  · exact ⟨_, rfl, by omega, by omega⟩
  rw [if_pos (by omega)]
  exact ⟨_, rfl, by omega, by omega⟩

end Lead

theorem toNat_ofNat {n : Nat} (h : n < 256) : (UInt8.ofNat n).toNat = n := by
  simpa using Nat.mod_eq_of_lt h

/-- What the first byte of a longer character says fits the other bytes. -/
theorem exists_utf8Lead {c : Char} (h : ¬ c.toNat < 0x80) :
    ∃ lead bytes l, encodeChar c = lead :: bytes ∧ bytes ≠ [] ∧ ¬ lead.toNat < 0x80 ∧
      utf8Lead? lead.toNat = some l ∧ Continues l.ranges bytes ∧
      bitsAfter l.bits bytes = c.toNat := by
  have hvalid : c.toNat < 0xD800 ∨ 0xDFFF < c.toNat ∧ c.toNat < 0x110000 := c.valid
  generalize hn : c.toNat = n at h hvalid
  -- A byte behind the second adds six bits of the number.
  have hlater : ∀ m, (UInt8.ofNat (0x80 + m % 64)).toNat = 0x80 + m % 64 := fun m =>
    toNat_ofNat (by omega)
  have htail : ∀ m, 0x80 ≤ (UInt8.ofNat (0x80 + m % 64)).toNat ∧
      (UInt8.ofNat (0x80 + m % 64)).toNat ≤ 0xBF := by
    intro m
    rw [hlater]
    omega
  rw [encodeChar, hn, if_neg h]
  by_cases htwo : n < 0x800
  · have hlead : (UInt8.ofNat (0xC0 + n / 64)).toNat = 0xC0 + n / 64 := toNat_ofNat (by omega)
    rw [if_pos htwo]
    refine ⟨_, _, ⟨n / 64, (0x80, 0xBF), 0⟩, rfl, by simp, by omega, ?_,
      .cons (htail n) .nil, ?_⟩
    · rw [hlead, utf8Lead?, if_pos (by omega), Nat.add_sub_cancel_left]
    · simp only [bitsAfter_cons, bitsAfter_nil, hlater, Nat.add_sub_cancel_left]
      omega
  rw [if_neg htwo]
  by_cases hthree : n < 0x10000
  · have hlead : (UInt8.ofNat (0xE0 + n / 4096)).toNat = 0xE0 + n / 4096 := toNat_ofNat (by omega)
    obtain ⟨second, hl, hrange⟩ := utf8Lead?_three (n := n) (by omega) hthree (by omega)
    rw [if_pos hthree]
    refine ⟨_, _, ⟨n / 4096, second, 1⟩, rfl, by simp, by omega, by rw [hlead, hl],
      .cons (by rwa [hlater]) (.cons (htail n) .nil), ?_⟩
    simp only [bitsAfter_cons, bitsAfter_nil, hlater, Nat.add_sub_cancel_left]
    omega
  · have hlead : (UInt8.ofNat (0xF0 + n / 262144)).toNat = 0xF0 + n / 262144 :=
      toNat_ofNat (by omega)
    obtain ⟨second, hl, hrange⟩ := utf8Lead?_four (n := n) (by omega) (by omega)
    rw [if_neg hthree]
    refine ⟨_, _, ⟨n / 262144, second, 2⟩, rfl, by simp, by omega, by rw [hlead, hl],
      .cons (by rwa [hlater]) (.cons (htail _) (.cons (htail n) .nil)), ?_⟩
    simp only [bitsAfter_cons, bitsAfter_nil, hlater, Nat.add_sub_cancel_left]
    omega

/-- The bytes of a character are read as that character, whatever comes behind them. -/
theorem decodeFrom_encodeChar (c : Char) (position : Nat) (rest : List UInt8) :
    decodeFrom position none (encodeChar c ++ rest) =
      (decodeFrom (position + (encodeChar c).length) none rest).map (c :: ·) := by
  by_cases h : c.toNat < 0x80
  · have hbyte : (UInt8.ofNat c.toNat).toNat = c.toNat := toNat_ofNat (by omega)
    have hone : encodeChar c = [UInt8.ofNat c.toNat] := if_pos h
    rw [hone, List.singleton_append, decodeFrom, hbyte, if_pos h, Char.ofNat_toNat]
    rfl
  · obtain ⟨lead, bytes, l, hencode, hne, hlead, hl, hcontinues, hbits⟩ := exists_utf8Lead h
    rw [hencode, List.cons_append, decodeFrom, if_neg hlead, hl]
    have hpending := decodeFrom_pending (p := ⟨position, [lead], l.bits, l.ranges⟩) hcontinues hne
      (position + 1) rest
    rw [hbits, Char.ofNat_toNat] at hpending
    rw [List.length_cons, Nat.add_comm bytes.length, ← Nat.add_assoc]
    exact hpending

theorem decodeFrom_encode (text : List Char) (position : Nat) :
    decodeFrom position none (encode text) = .ok text := by
  induction text generalizing position with
  | nil => rfl
  | cons c text ih =>
    have hcons : encode (c :: text) = encodeChar c ++ encode text := List.flatMap_cons
    rw [hcons, decodeFrom_encodeChar, ih]
    rfl

/-- A text is read back from its bytes. -/
theorem decode_encode (text : List Char) : decode (encode text) = .ok text :=
  decodeFrom_encode text 0

end TapeLang.Text
