import Mathlib.Data.List.Basic
import Mathlib.Tactic.SplitIfs

/-!
# UTF-8 by its bytes

The encoding itself is the core library's (`String.utf8EncodeChar`), and a
character of the core library is a scalar value: no surrogate, and none
above U+10FFFF. Here is what a byte-wise validator needs to be exact. Bytes
in the ranges of the standard's table are the encoding of a character, with
overlong forms and surrogates kept out by the table's exceptions, each the
hypothesis of one lemma; and the bytes of every character stand in the
table (`encode_table`).

`LongestPrefix` is what it means to shorten a text to a number of bytes
without cutting a character: of all its prefixes that fit, the one that
extends them all.
-/

set_option autoImplicit false

namespace Machine.Utf8

/-- The bytes of a text. -/
def encode (cs : List Char) : List UInt8 := cs.flatMap String.utf8EncodeChar

theorem encode_append (cs ds : List Char) : encode (cs ++ ds) = encode cs ++ encode ds :=
  List.flatMap_append

theorem encode_cons (c : Char) (cs : List Char) :
    encode (c :: cs) = String.utf8EncodeChar c ++ encode cs := List.flatMap_cons

/-! ## Bytes of one character -/

/-- A scalar value as a character. -/
theorem exists_char {v : Nat} (h : v < 0xd800 ∨ 0xdfff < v ∧ v < 0x110000) :
    ∃ c : Char, c.val.toNat = v :=
  ⟨Char.ofNatAux v h, rfl⟩

/-- A continuation byte. -/
def IsCont (b : UInt8) : Prop := 0x80 ≤ b.toNat ∧ b.toNat ≤ 0xbf

section Bytes

variable {a b c d : UInt8}

theorem encode_one (ha : a.toNat < 0x80) : ∃ ch : Char, String.utf8EncodeChar ch = [a] := by
  obtain ⟨ch, hch⟩ := exists_char (v := a.toNat) (by omega)
  refine ⟨ch, ?_⟩
  simp only [String.utf8EncodeChar, hch]
  rw [if_pos (by omega), UInt8.ofNat_toNat]

theorem encode_two (ha : 0xc2 ≤ a.toNat) (ha' : a.toNat ≤ 0xdf) (hb : IsCont b) :
    ∃ ch : Char, String.utf8EncodeChar ch = [a, b] := by
  obtain ⟨hb, hb'⟩ := hb
  obtain ⟨ch, hch⟩ := exists_char (v := (a.toNat - 0xc0) * 64 + (b.toNat - 0x80)) (by omega)
  refine ⟨ch, ?_⟩
  simp only [String.utf8EncodeChar, hch]
  rw [if_neg (by omega), if_pos (by omega)]
  simp only [List.cons.injEq, and_true, ← UInt8.toNat_inj, UInt8.toNat_ofNat']
  omega

theorem encode_three (ha : 0xe0 ≤ a.toNat) (ha' : a.toNat ≤ 0xef) (hb : IsCont b) (hc : IsCont c)
    (hlong : a.toNat = 0xe0 → 0xa0 ≤ b.toNat) (hsurrogate : a.toNat = 0xed → b.toNat ≤ 0x9f) :
    ∃ ch : Char, String.utf8EncodeChar ch = [a, b, c] := by
  obtain ⟨hb, hb'⟩ := hb
  obtain ⟨hc, hc'⟩ := hc
  obtain ⟨ch, hch⟩ := exists_char
    (v := (a.toNat - 0xe0) * 4096 + (b.toNat - 0x80) * 64 + (c.toNat - 0x80)) (by omega)
  refine ⟨ch, ?_⟩
  simp only [String.utf8EncodeChar, hch]
  rw [if_neg (by omega), if_neg (by omega), if_pos (by omega)]
  simp only [List.cons.injEq, and_true, ← UInt8.toNat_inj, UInt8.toNat_ofNat']
  omega

theorem encode_four (ha : 0xf0 ≤ a.toNat) (ha' : a.toNat ≤ 0xf4) (hb : IsCont b) (hc : IsCont c)
    (hd : IsCont d) (hlong : a.toNat = 0xf0 → 0x90 ≤ b.toNat)
    (hmax : a.toNat = 0xf4 → b.toNat ≤ 0x8f) :
    ∃ ch : Char, String.utf8EncodeChar ch = [a, b, c, d] := by
  obtain ⟨hb, hb'⟩ := hb
  obtain ⟨hc, hc'⟩ := hc
  obtain ⟨hd, hd'⟩ := hd
  obtain ⟨ch, hch⟩ := exists_char (v := (a.toNat - 0xf0) * 262144 + (b.toNat - 0x80) * 4096 +
    (c.toNat - 0x80) * 64 + (d.toNat - 0x80)) (by omega)
  refine ⟨ch, ?_⟩
  simp only [String.utf8EncodeChar, hch]
  rw [if_neg (by omega), if_neg (by omega), if_neg (by omega)]
  simp only [List.cons.injEq, and_true, ← UInt8.toNat_inj, UInt8.toNat_ofNat']
  omega

end Bytes

/-- The bytes of a character, by the lines of the table. -/
theorem encode_table (ch : Char) :
    (∃ a, String.utf8EncodeChar ch = [a] ∧ a.toNat = ch.toNat ∧ a.toNat < 0x80) ∨
    (∃ a b, String.utf8EncodeChar ch = [a, b] ∧ 0xc2 ≤ a.toNat ∧ a.toNat ≤ 0xdf ∧ IsCont b) ∨
    (∃ a b c, String.utf8EncodeChar ch = [a, b, c] ∧ 0xe0 ≤ a.toNat ∧ a.toNat ≤ 0xef ∧ IsCont b ∧
      IsCont c ∧ (a.toNat = 0xe0 → 0xa0 ≤ b.toNat) ∧ (a.toNat = 0xed → b.toNat ≤ 0x9f)) ∨
    ∃ a b c d, String.utf8EncodeChar ch = [a, b, c, d] ∧ 0xf0 ≤ a.toNat ∧ a.toNat ≤ 0xf4 ∧ IsCont b ∧
      IsCont c ∧ IsCont d ∧ (a.toNat = 0xf0 → 0x90 ≤ b.toNat) ∧ (a.toNat = 0xf4 → b.toNat ≤ 0x8f) := by
  have hvalid : ch.val.toNat < 0xd800 ∨ 0xdfff < ch.val.toNat ∧ ch.val.toNat < 0x110000 := ch.valid
  have hval : ch.toNat = ch.val.toNat := rfl
  rw [hval]
  unfold String.utf8EncodeChar IsCont
  generalize ch.val.toNat = v at hvalid
  dsimp only
  split_ifs with h₁ h₂ h₃
  · exact Or.inl ⟨_, rfl, by simp only [UInt8.toNat_ofNat']; omega, by simp only [UInt8.toNat_ofNat']; omega⟩
  · refine Or.inr (Or.inl ⟨_, _, rfl, ?_⟩)
    simp only [UInt8.toNat_ofNat']
    omega
  · refine Or.inr (Or.inr (Or.inl ⟨_, _, _, rfl, ?_⟩))
    simp only [UInt8.toNat_ofNat']
    omega
  · refine Or.inr (Or.inr (Or.inr ⟨_, _, _, _, rfl, ?_⟩))
    simp only [UInt8.toNat_ofNat']
    omega

/-! ## Shortening -/

/-- `pre` is the longest prefix of the text that fits into `limit` bytes. -/
structure LongestPrefix (limit : Nat) (text pre : List Char) : Prop where
  isPrefix : pre <+: text
  fits : (encode pre).length ≤ limit
  longest : ∀ pre', pre' <+: text → (encode pre').length ≤ limit → pre' <+: pre

theorem encode_length_le_of_prefix {cs ds : List Char} (h : cs <+: ds) :
    (encode cs).length ≤ (encode ds).length := by
  obtain ⟨rest, rfl⟩ := h
  rw [encode_append, List.length_append]
  exact Nat.le_add_right _ _

/-- A prefix is the longest one if nothing or a character too many comes
behind it. -/
theorem longestPrefix_of_next {limit : Nat} {pre post : List Char} (hfits : (encode pre).length ≤ limit)
    (hnext : ∀ c rest, post = c :: rest → limit < (encode (pre ++ [c])).length) :
    LongestPrefix limit (pre ++ post) pre where
  isPrefix := List.prefix_append _ _
  fits := hfits
  longest pre' hpre' hfits' := by
    rcases List.prefix_or_prefix_of_prefix hpre' (List.prefix_append pre post) with hle | hge
    · exact hle
    obtain ⟨more, rfl⟩ := hge
    cases more with
    | nil => exact ⟨[], by rw [List.append_nil, List.append_nil]⟩
    | cons c more =>
      -- a longer prefix goes on with the character that did not fit
      exfalso
      obtain ⟨rest, hrest⟩ := hpre'
      rw [List.append_assoc] at hrest
      have hpost : post = c :: (more ++ rest) := (List.append_cancel_left hrest).symm
      have hlong := hnext c _ hpost
      have hle : (encode (pre ++ [c])).length ≤ (encode (pre ++ c :: more)).length :=
        encode_length_le_of_prefix ⟨more, by simp⟩
      omega

end Machine.Utf8
