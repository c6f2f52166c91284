import BearBoot.Machine.Pack
import BearBoot.Machine.Utf8
import BearBoot.Import.Objects

/-!
# The importers' strings are texts

`bbp_import_validate_string` steps over a string sequence by sequence, and
`bbp_import_utf8_prefix` steps over it again, up to a limit. `Spelled` is
what the first walk establishes and the second one follows: the text, one
character a step. A string the validator takes is a text and its NUL
(`validateString_text`), and the prefix is the longest one that cuts no
character (`utf8Prefix_longest`).

Both are exact. The bytes of a text without a NUL are spelled whatever
stands around them (`spelled_of_bytes`), since the sequence at a character's
bytes is the character (`utf8Sequence_encode`): so the validator takes every
such text, and nothing else.
-/

set_option autoImplicit false

namespace BearBoot.Import

open Machine Machine.Utf8

variable {text' data content fuel offset : Nat}

theorem utf8Cont_iff {b : UInt8} : utf8Cont b = true ↔ IsCont b := by
  have hall : ∀ n : Fin 256, utf8Cont (UInt8.ofNat n.val) = true ↔ 0x80 ≤ n.val ∧ n.val ≤ 0xbf := by
    decide +kernel
  have hb := hall ⟨b.toNat, b.toNat_lt⟩
  rwa [UInt8.ofNat_toNat] at hb

section Sequence

variable {m m' : Mem} {text remaining : Nat}

/-- A sequence is the encoding of a character. -/
theorem utf8Sequence_char (h : utf8Sequence m text remaining ≠ 0) :
    utf8Sequence m text remaining ≤ remaining ∧
      ∃ c : Char, String.utf8EncodeChar c = m.bytes text (utf8Sequence m text remaining) := by
  have bytes₁ : m.bytes text 1 = [m text] := rfl
  have bytes₂ : m.bytes text 2 = [m text, m (text + 1)] := rfl
  have bytes₃ : m.bytes text 3 = [m text, m (text + 1), m (text + 2)] := rfl
  have bytes₄ : m.bytes text 4 = [m text, m (text + 1), m (text + 2), m (text + 3)] := rfl
  generalize hn : utf8Sequence m text remaining = n at h ⊢
  unfold utf8Sequence at hn
  simp only [UInt8.lt_iff_toNat_lt, UInt8.le_iff_toNat_le, ← UInt8.toNat_inj] at hn
  -- one case a branch, in the source's order
  split at hn
  next => exact absurd hn.symm h
  split at hn
  next ha =>
    split at hn
    next => exact absurd hn.symm h
    next =>
      subst hn
      exact ⟨by omega, bytes₁ ▸ encode_one ha⟩
  split at hn
  next hb =>
    obtain ⟨ha, ha', hlen, hb⟩ := hb
    subst hn
    exact ⟨hlen, bytes₂ ▸ encode_two ha ha' (utf8Cont_iff.mp hb)⟩
  split at hn
  next hb =>
    obtain ⟨ha, hlen, hb, hb', hc⟩ := hb
    subst hn
    refine ⟨hlen, bytes₃ ▸ encode_three ?_ ?_ ⟨?_, hb'⟩ (utf8Cont_iff.mp hc) (fun _ => hb) ?_⟩
    all_goals simp only [UInt8.reduceToNat] at ha hb hb'
    all_goals omega
  split at hn
  next hb =>
    obtain ⟨ha, hlen, hb, hc⟩ := hb
    subst hn
    simp only [UInt8.reduceToNat] at ha
    refine ⟨hlen, bytes₃ ▸ encode_three ?_ ?_ (utf8Cont_iff.mp hb) (utf8Cont_iff.mp hc) ?_ ?_⟩
    all_goals omega
  split at hn
  next hb =>
    obtain ⟨ha, hlen, hb, hb', hc⟩ := hb
    subst hn
    simp only [UInt8.reduceToNat] at ha hb hb'
    refine ⟨hlen, bytes₃ ▸ encode_three ?_ ?_ ⟨hb, ?_⟩ (utf8Cont_iff.mp hc) ?_ (fun _ => hb')⟩
    all_goals omega
  split at hn
  next hb =>
    obtain ⟨ha, hlen, hb, hb', hc, hd⟩ := hb
    subst hn
    simp only [UInt8.reduceToNat] at ha hb hb'
    refine ⟨hlen, bytes₄ ▸ encode_four ?_ ?_ ⟨?_, hb'⟩ (utf8Cont_iff.mp hc) (utf8Cont_iff.mp hd)
      (fun _ => hb) ?_⟩
    all_goals omega
  split at hn
  next hb =>
    obtain ⟨ha, ha', hlen, hb, hc, hd⟩ := hb
    subst hn
    simp only [UInt8.reduceToNat] at ha ha'
    refine ⟨hlen, bytes₄ ▸ encode_four ?_ ?_ (utf8Cont_iff.mp hb) (utf8Cont_iff.mp hc)
      (utf8Cont_iff.mp hd) ?_ ?_⟩
    all_goals omega
  split at hn
  next hb =>
    obtain ⟨ha, hlen, hb, hb', hc, hd⟩ := hb
    subst hn
    simp only [UInt8.reduceToNat] at ha hb hb'
    refine ⟨hlen, bytes₄ ▸ encode_four ?_ ?_ ⟨hb, ?_⟩ (utf8Cont_iff.mp hc) (utf8Cont_iff.mp hd) ?_
      (fun _ => hb')⟩
    all_goals omega
  next => exact absurd hn.symm h

theorem utf8Sequence_three (hle : 3 ≤ remaining) (ha : 0xe0 ≤ (m text).toNat) (ha' : (m text).toNat ≤ 0xef)
    (hb : IsCont (m (text + 1))) (hc : IsCont (m (text + 2)))
    (hlong : (m text).toNat = 0xe0 → 0xa0 ≤ (m (text + 1)).toNat)
    (hsurrogate : (m text).toNat = 0xed → (m (text + 1)).toNat ≤ 0x9f) :
    utf8Sequence m text remaining = 3 := by
  unfold utf8Sequence
  simp only [UInt8.lt_iff_toNat_lt, UInt8.le_iff_toNat_le, ← UInt8.toNat_inj, UInt8.reduceToNat,
    utf8Cont_iff.mpr hb, utf8Cont_iff.mpr hc, and_true]
  obtain ⟨hb, hb'⟩ := hb
  rw [if_neg (by omega), if_neg (by omega), if_neg (by omega)]
  split_ifs <;> omega

theorem utf8Sequence_four (hle : 4 ≤ remaining) (ha : 0xf0 ≤ (m text).toNat) (ha' : (m text).toNat ≤ 0xf4)
    (hb : IsCont (m (text + 1))) (hc : IsCont (m (text + 2))) (hd : IsCont (m (text + 3)))
    (hlong : (m text).toNat = 0xf0 → 0x90 ≤ (m (text + 1)).toNat)
    (hmax : (m text).toNat = 0xf4 → (m (text + 1)).toNat ≤ 0x8f) :
    utf8Sequence m text remaining = 4 := by
  unfold utf8Sequence
  simp only [UInt8.lt_iff_toNat_lt, UInt8.le_iff_toNat_le, ← UInt8.toNat_inj, UInt8.reduceToNat,
    utf8Cont_iff.mpr hb, utf8Cont_iff.mpr hc, utf8Cont_iff.mpr hd, and_true]
  obtain ⟨hb, hb'⟩ := hb
  rw [if_neg (by omega), if_neg (by omega), if_neg (by omega), if_neg (by omega), if_neg (by omega),
    if_neg (by omega)]
  split_ifs <;> omega

/-- And the bytes of a character other than NUL are its sequence. -/
theorem utf8Sequence_encode {c : Char} (hc : c ≠ '\x00') (hle : (String.utf8EncodeChar c).length ≤ remaining)
    (hbytes : m.bytes text (String.utf8EncodeChar c).length = String.utf8EncodeChar c) :
    utf8Sequence m text remaining = (String.utf8EncodeChar c).length := by
  have hnz : c.toNat ≠ 0 := fun h => hc (Char.toNat_inj.mp h)
  rcases encode_table c with ⟨a, henc, hval, ha⟩ | ⟨a, b, henc, ha, ha', hb⟩ |
    ⟨a, b, d, henc, ha, ha', hb, hd, hlong, hsurrogate⟩ |
    ⟨a, b, d, e, henc, ha, ha', hb, hd, he, hlong, hmax⟩
  all_goals rw [henc] at hbytes hle ⊢
  · have hbytes : [m text] = [a] := hbytes
    obtain rfl : m text = a := by simpa using hbytes
    change 1 ≤ remaining at hle
    unfold utf8Sequence
    simp only [UInt8.lt_iff_toNat_lt, ← UInt8.toNat_inj, UInt8.reduceToNat]
    rw [if_neg (by omega), if_pos ha, if_neg (by omega)]
    rfl
  · have hbytes : [m text, m (text + 1)] = [a, b] := hbytes
    obtain ⟨rfl, rfl⟩ : m text = a ∧ m (text + 1) = b := by simpa using hbytes
    change 2 ≤ remaining at hle
    unfold utf8Sequence
    simp only [UInt8.lt_iff_toNat_lt, UInt8.le_iff_toNat_le, UInt8.reduceToNat, utf8Cont_iff.mpr hb, and_true]
    rw [if_neg (by omega), if_neg (by omega), if_pos ⟨ha, ha', hle⟩]
    rfl
  · have hbytes : [m text, m (text + 1), m (text + 2)] = [a, b, d] := hbytes
    obtain ⟨rfl, rfl, rfl⟩ : m text = a ∧ m (text + 1) = b ∧ m (text + 2) = d := by simpa using hbytes
    exact utf8Sequence_three hle ha ha' hb hd hlong hsurrogate
  · have hbytes : [m text, m (text + 1), m (text + 2), m (text + 3)] = [a, b, d, e] := hbytes
    obtain ⟨rfl, rfl, rfl, rfl⟩ : m text = a ∧ m (text + 1) = b ∧ m (text + 2) = d ∧ m (text + 3) = e := by
      simpa using hbytes
    exact utf8Sequence_four hle ha ha' hb hd he hlong hmax

/-- A sequence depends on the bytes that remain only. -/
theorem utf8Sequence_congr (h : ∀ i < remaining, m (text + i) = m' (text' + i)) :
    utf8Sequence m text remaining = utf8Sequence m' text' remaining := by
  unfold utf8Sequence
  by_cases h0 : remaining = 0
  · rw [if_pos h0, if_pos h0]
  have hbyte₀ := h 0 (by omega)
  rw [Nat.add_zero, Nat.add_zero] at hbyte₀
  -- the further bytes are looked at only where they remain
  by_cases h2 : 2 ≤ remaining
  · have hbyte₁ := h 1 (by omega)
    by_cases h3 : 3 ≤ remaining
    · have hbyte₂ := h 2 (by omega)
      by_cases h4 : 4 ≤ remaining
      · have hbyte₃ := h 3 (by omega)
        simp only [hbyte₀, hbyte₁, hbyte₂, hbyte₃]
      · simp only [hbyte₀, hbyte₁, hbyte₂, h4, false_and, and_false]
    · have h4 : ¬ 4 ≤ remaining := by omega
      simp only [hbyte₀, hbyte₁, h3, h4, false_and, and_false]
  · have h3 : ¬ 3 ≤ remaining := by omega
    have h4 : ¬ 4 ≤ remaining := by omega
    simp only [hbyte₀, h2, h3, h4, false_and, and_false]

end Sequence

/-! ## Texts -/

/-- The `left` bytes at `text` spell the characters, a sequence each. -/
def Spelled (m : Mem) : (text left : Nat) → List Char → Prop
  | _, left, [] => left = 0
  | text, left, c :: cs =>
    utf8Sequence m text left = (String.utf8EncodeChar c).length ∧
      m.bytes text (String.utf8EncodeChar c).length = String.utf8EncodeChar c ∧
      (String.utf8EncodeChar c).length ≤ left ∧
      Spelled m (text + (String.utf8EncodeChar c).length) (left - (String.utf8EncodeChar c).length) cs

section Text

variable {m m' : Mem} {text left : Nat} {cs : List Char}

theorem Spelled.bytes (h : Spelled m text left cs) : m.bytes text left = encode cs := by
  induction cs generalizing text left with
  | nil =>
    rw [show left = 0 from h]
    rfl
  | cons c cs ih =>
    obtain ⟨_, hbytes, hle, hrest⟩ := h
    rw [encode_cons, ← ih hrest]
    conv_rhs => rw [← hbytes]
    rw [Mem.bytes_length, ← bytes_add, Nat.add_sub_cancel' hle]

theorem Spelled.congr (h : Spelled m text left cs)
    (hm : ∀ i < left, m' (text + i) = m (text + i)) : Spelled m' text left cs := by
  induction cs generalizing text left with
  | nil => exact h
  | cons c cs ih =>
    obtain ⟨hseq, hbytes, hle, hrest⟩ := h
    refine ⟨?_, ?_, hle, ih hrest fun i hi => ?_⟩
    · rw [utf8Sequence_congr hm, hseq]
    · exact (Mem.bytes_congr fun i hi => hm i (by omega)).trans hbytes
    · rw [Nat.add_assoc]
      exact hm _ (by omega)

/-- A string that passes the loop is spelled. -/
theorem stringLoop_spelled (hfuel : content ≤ offset + fuel)
    (hle : offset ≤ content) (h : stringLoop m data content fuel offset = true) :
    ∃ cs, Spelled m (data + offset) (content - offset) cs := by
  induction fuel generalizing offset with
  | zero => exact ⟨[], show content - offset = 0 by omega⟩
  | succ fuel ih =>
    rw [stringLoop] at h
    split at h
    next hlt =>
      dsimp only at h
      split at h
      next => cases h
      next hne =>
        obtain ⟨hfits, c, hc⟩ := utf8Sequence_char hne
        obtain ⟨cs, hcs⟩ := ih (by omega) (by omega) h
        have hlen : (String.utf8EncodeChar c).length =
            utf8Sequence m (data + offset) (content - offset) := by
          rw [hc, Mem.bytes_length]
        refine ⟨c :: cs, hlen.symm, ?_, ?_, ?_⟩
        · rw [hlen, hc]
        · omega
        · rw [hlen, Nat.add_assoc, Nat.sub_sub]
          exact hcs
    next => exact ⟨[], show content - offset = 0 by omega⟩

/-- The bytes of a text without a NUL are spelled. -/
theorem spelled_of_bytes (hcs : ∀ c ∈ cs, c ≠ '\x00') (hbytes : m.bytes text left = encode cs) :
    Spelled m text left cs := by
  have hlength := congrArg List.length hbytes
  rw [Mem.bytes_length] at hlength
  induction cs generalizing text left with
  | nil => exact hlength
  | cons c cs ih =>
    obtain ⟨hc, hrest⟩ := List.forall_mem_cons.mp hcs
    rw [encode_cons, List.length_append] at hlength
    obtain ⟨more, rfl⟩ := Nat.exists_eq_add_of_le (show (String.utf8EncodeChar c).length ≤ left by omega)
    rw [bytes_add, encode_cons] at hbytes
    obtain ⟨hfront, hback⟩ := List.append_inj hbytes (Mem.bytes_length _ _ _)
    refine ⟨utf8Sequence_encode hc (by omega) hfront, hfront, by omega, ?_⟩
    rw [Nat.add_sub_cancel_left]
    exact ih hrest hback (by omega)

theorem Spelled.nonzero (h : Spelled m text left cs) : ∀ c ∈ cs, c ≠ '\x00' := by
  induction cs generalizing text left with
  | nil => exact List.forall_mem_nil _
  | cons c cs ih =>
    obtain ⟨hseq, hbytes, _, hrest⟩ := h
    refine List.forall_mem_cons.mpr ⟨?_, ih hrest⟩
    rintro rfl
    -- a NUL is no sequence
    have hnul : m text = 0 := by simpa using (show [m text] = [0] from hbytes)
    have hnone : utf8Sequence m text left = 0 := by
      unfold utf8Sequence
      rw [hnul]
      split
      · rfl
      · rfl
    rw [hnone] at hseq
    cases hseq

/-- And a string that is spelled passes it. -/
theorem Spelled.stringLoop (hfuel : content ≤ offset + fuel)
    (hle : offset ≤ content) (h : Spelled m (data + offset) (content - offset) cs) :
    stringLoop m data content fuel offset = true := by
  induction fuel generalizing offset cs with
  | zero => exact decide_eq_true (by omega)
  | succ fuel ih =>
    rw [Import.stringLoop]
    split
    next hlt =>
      cases cs with
      | nil =>
        have hdone : content - offset = 0 := h
        omega
      | cons c cs =>
        obtain ⟨hseq, _, hfits, hrest⟩ := h
        have hpos : 0 < (String.utf8EncodeChar c).length :=
          List.length_pos_of_ne_nil String.utf8EncodeChar_ne_nil
        dsimp only
        rw [hseq, if_neg (by omega)]
        rw [Nat.add_assoc, Nat.sub_sub] at hrest
        exact ih (by omega) (by omega) hrest
    next => rfl

/-- A string the validator takes is a text and its NUL. -/
theorem validateString_text {s : ImportString} (h : validateString m s = .ok ()) :
    1 ≤ s.bytes ∧ m (s.data + (s.bytes - 1)) = 0 ∧ ∃ cs, Spelled m s.data (s.bytes - 1) cs := by
  unfold validateString at h
  simp only [ok_bind_iff, refuse_ok_iff, exists_const, not_or, not_not, Bool.not_eq_false] at h
  obtain ⟨⟨_, hbytes⟩, _, hnul, hloop⟩ := h
  obtain ⟨cs, hcs⟩ := stringLoop_spelled (by omega) (Nat.zero_le _) hloop
  exact ⟨by omega, hnul, cs, hcs⟩

/-- The prefix's loop steps over whole characters, and stops before one
that would not fit. -/
theorem utf8PrefixLoop_spelled {bytes limit : Nat} (hfuel : bytes ≤ offset + fuel)
    (hle : offset ≤ bytes) (hlimit : offset ≤ limit) (h : Spelled m (text + offset) (bytes - offset) cs) :
    ∃ pre post, cs = pre ++ post ∧
      utf8PrefixLoop m text bytes limit fuel offset = offset + (encode pre).length ∧
      ∀ c rest, post = c :: rest → limit < offset + (encode (pre ++ [c])).length := by
  induction fuel generalizing offset cs with
  | zero =>
    have hdone : bytes - offset = 0 := by omega
    rw [hdone] at h
    cases cs with
    | nil => exact ⟨[], [], rfl, rfl, fun _ _ hpost => by cases hpost⟩
    | cons c cs =>
      have hpos : 0 < (String.utf8EncodeChar c).length :=
        List.length_pos_of_ne_nil String.utf8EncodeChar_ne_nil
      have hfits := h.2.2.1
      omega
  | succ fuel ih =>
    rw [utf8PrefixLoop]
    cases cs with
    | nil =>
      have hdone : bytes - offset = 0 := h
      rw [if_neg (by omega)]
      exact ⟨[], [], rfl, rfl, fun _ _ hpost => by cases hpost⟩
    | cons c cs =>
      obtain ⟨hseq, _, hfits, hrest⟩ := h
      have hpos : 0 < (String.utf8EncodeChar c).length :=
        List.length_pos_of_ne_nil String.utf8EncodeChar_ne_nil
      rw [if_pos (by omega), hseq]
      dsimp only
      split
      next hstop =>
        refine ⟨[], c :: cs, rfl, rfl, fun c' rest hpost => ?_⟩
        cases hpost
        rw [List.nil_append, encode_cons, List.length_append]
        omega
      next hgo =>
        rw [Nat.add_assoc, Nat.sub_sub] at hrest
        obtain ⟨pre, post, rfl, hvalue, hnext⟩ := ih (by omega) (by omega) (by omega) hrest
        refine ⟨c :: pre, post, rfl, ?_, fun c' rest hpost => ?_⟩
        · rw [hvalue, encode_cons, List.length_append, Nat.add_assoc]
        · have hlong := hnext c' rest hpost
          rw [List.cons_append, encode_cons, List.length_append]
          omega

/-- The prefix is the longest one of whole characters. -/
theorem utf8Prefix_longest {bytes : Nat} (limit : Nat) (h : Spelled m text bytes cs) :
    ∃ pre, LongestPrefix limit cs pre ∧ utf8Prefix m text bytes limit = (encode pre).length ∧
      m.bytes text (encode pre).length = encode pre := by
  obtain ⟨pre, post, rfl, hvalue, hnext⟩ := utf8PrefixLoop_spelled
    (show bytes ≤ 0 + bytes by omega) (Nat.zero_le bytes) (Nat.zero_le limit) h
  rw [Nat.zero_add] at hvalue
  have hfits := utf8Prefix_le m text bytes limit
  rw [utf8Prefix, hvalue] at hfits
  refine ⟨pre, longestPrefix_of_next hfits fun c rest hpost => ?_, hvalue, ?_⟩
  · have hlong := hnext c rest hpost
    rwa [Nat.zero_add] at hlong
  · have hbytes := h.bytes
    rw [encode_append] at hbytes
    have hlen : bytes = (encode pre).length + (encode post).length := by
      have := congrArg List.length hbytes
      rwa [Mem.bytes_length, List.length_append] at this
    rw [hlen, bytes_add] at hbytes
    exact (List.append_inj hbytes (Mem.bytes_length _ _ _)).1

end Text

/-- What the validator and the shortening decide. -/
theorem import_utf8_exact :
    (∀ (m : Mem) (s : ImportString), s.data ≠ 0 → s.bytes ≤ u32Max →
      (validateString m s = .ok () ↔
        ∃ cs : List Char, (∀ c ∈ cs, c ≠ '\x00') ∧ m.bytes s.data s.bytes = encode cs ++ [0])) ∧
    ∀ (m : Mem) (text : Nat) (cs : List Char) (limit : Nat), (∀ c ∈ cs, c ≠ '\x00') →
      m.bytes text (encode cs).length = encode cs →
      ∃ pre, LongestPrefix limit cs pre ∧
        utf8Prefix m text (encode cs).length limit = (encode pre).length := by
  refine ⟨fun m s hdata hmax => ⟨fun h => ?_, ?_⟩, fun m text cs limit hcs hbytes => ?_⟩
  · obtain ⟨hlow, hnul, cs, hcs⟩ := validateString_text h
    refine ⟨cs, hcs.nonzero, ?_⟩
    obtain ⟨content, hcontent⟩ := Nat.exists_eq_add_of_le' hlow
    rw [hcontent, Nat.add_sub_cancel] at hnul hcs
    rw [hcontent, bytes_add, hcs.bytes]
    exact congrArg (fun b => encode cs ++ [b]) hnul
  · rintro ⟨cs, hcs, hbytes⟩
    have hlength := congrArg List.length hbytes
    rw [Mem.bytes_length, List.length_append, List.length_singleton] at hlength
    rw [hlength, bytes_add] at hbytes
    obtain ⟨htext, hlast⟩ := List.append_inj hbytes (Mem.bytes_length _ _ _)
    have hnul : m (s.data + (encode cs).length) = 0 := List.head_eq_of_cons_eq hlast
    have hspelled : Spelled m (s.data + 0) ((encode cs).length - 0) cs := spelled_of_bytes hcs htext
    have hloop := hspelled.stringLoop (Nat.le_add_left _ 0) (Nat.zero_le _)
    have hcontent : s.bytes - 1 = (encode cs).length := by omega
    unfold validateString
    simp only [ok_bind_iff, refuse_ok_iff, exists_const, not_or, not_not, Bool.not_eq_false, hcontent]
    exact ⟨⟨hdata, by omega⟩, by omega, hnul, hloop⟩
  · obtain ⟨pre, hpre, hvalue, _⟩ := utf8Prefix_longest limit (spelled_of_bytes hcs hbytes)
    exact ⟨pre, hpre, hvalue⟩

end BearBoot.Import
