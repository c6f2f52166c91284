import BearBoot.Machine.Pack
import BearBoot.Wire

/-!
# What the CRC detects

A shift of the remainder loses nothing: the generator has its highest bit
set, so the bit that falls out at the bottom can be read off at the top
(`crcBit_eq_zero`). Folding a byte string is therefore injective in the
remainder it starts from (`crc64Update_start`). And up to eight bytes are
one word that is added to the remainder before the shifts
(`crc64Update_word`), so two different byte strings of the same length of
at most eight take one remainder to two.

Together: two messages that differ, and differ only inside a window of
eight bytes, have different CRCs (`crc64Update_window`). The structures of
the protocol store their CRC inside themselves and compute it with that
field read as zeros. A window beside the field changes the CRC and not the
field; the window that is the field changes the field and not the CRC; in
both cases not both structures verify (`Burst.detected`).
-/

set_option autoImplicit false

namespace BearBoot

open Machine

variable {x : BitVec 64} {n off : Nat}

/-! ## A shift loses nothing -/

theorem crcBit_eq_zero (h : crcBit x = 0#64) : x = 0#64 := by
  rw [crcBit_eq] at h
  cases hlow : x.getLsbD 0 with
  | true =>
    rw [hlow, if_pos rfl] at h
    have htop := congrArg (BitVec.getLsbD · 63) h
    have hpoly : crc64PolyReflected.getLsbD 63 = true := by decide
    simp only [BitVec.getLsbD_xor, BitVec.getLsbD_ushiftRight, hpoly,
      BitVec.getLsbD_of_ge x (1 + 63) (by decide), BitVec.getLsbD_zero] at htop
    cases htop
  | false =>
    rw [hlow, if_neg Bool.false_ne_true] at h
    apply BitVec.eq_of_getLsbD_eq
    intro i hi
    cases i with
    | zero => rw [hlow, BitVec.getLsbD_zero]
    | succ i =>
      have hbit := congrArg (BitVec.getLsbD · i) h
      simp only [BitVec.getLsbD_ushiftRight, BitVec.getLsbD_zero] at hbit
      rw [Nat.add_comm i 1, hbit, BitVec.getLsbD_zero]

theorem crcBits_eq_zero (h : crcBits n x = 0#64) : x = 0#64 := by
  induction n generalizing x with
  | zero => exact h
  | succ n ih => exact crcBit_eq_zero (ih h)

theorem crcBits_inj {y : BitVec 64} (h : crcBits n x = crcBits n y) : x = y := by
  apply BitVec.xor_eq_zero_iff.mp
  apply crcBits_eq_zero (n := n)
  rw [crcBits_xor, h, BitVec.xor_self]

theorem crcBits_add (a b : Nat) (x : BitVec 64) : crcBits (a + b) x = crcBits b (crcBits a x) := by
  induction a generalizing x with
  | zero => rw [Nat.zero_add, crcBits]
  | succ a ih => rw [Nat.succ_add, crcBits, crcBits, ih]

/-- The remainder a fold started from can be read off where it ends. -/
theorem crc64Update_start {c c' : BitVec 64} {data : List UInt8}
    (h : crc64Update c data = crc64Update c' data) : c = c' := by
  induction data generalizing c c' with
  | nil => exact h
  | cons b data ih =>
    have hbyte : crcByte c b = crcByte c' b := ih h
    exact (BitVec.xor_left_inj _).mp (crcBits_inj hbyte)

/-! ## Eight bytes are one word -/

/-- The word of up to eight bytes, the first one lowest. -/
def crcWord : List UInt8 → BitVec 64
  | [] => 0#64
  | b :: bs => b.toBitVec.setWidth 64 ^^^ (crcWord bs <<< 8)

theorem getLsbD_octet (b : UInt8) {i : Nat} (hi : 8 ≤ i) :
    (b.toBitVec.setWidth 64).getLsbD i = false := by
  rw [BitVec.getLsbD_setWidth, BitVec.getLsbD_of_ge _ _ hi, Bool.and_false]

theorem crcWord_high (bs : List UInt8) {i : Nat} (hi : 8 * bs.length ≤ i) :
    (crcWord bs).getLsbD i = false := by
  induction bs generalizing i with
  | nil => exact BitVec.getLsbD_zero
  | cons b bs ih =>
    rw [List.length_cons] at hi
    rw [crcWord, BitVec.getLsbD_xor, getLsbD_octet b (by omega), BitVec.getLsbD_shiftLeft,
      ih (by omega), Bool.and_false, Bool.xor_false]

/-- A word that does not reach the top octet comes down from where it was
moved up. -/
theorem crcBits_shiftLeft {w : BitVec 64} (hw : ∀ i, 56 ≤ i → w.getLsbD i = false) :
    crcBits 8 (w <<< 8) = w := by
  rw [crcBits_of_low_clear 8 (w <<< 8)]
  · apply BitVec.eq_of_getLsbD_eq
    intro i hi
    rw [BitVec.getLsbD_ushiftRight, BitVec.getLsbD_shiftLeft]
    by_cases hin : 8 + i < 64
    · simp [hin]
    · simp [hin, hw i (by omega)]
  · intro i hi
    rw [BitVec.getLsbD_shiftLeft]
    simp [hi]

theorem crc64Update_word (c : BitVec 64) {bs : List UInt8} (hbs : bs.length ≤ 8) :
    crc64Update c bs = crcBits (8 * bs.length) (c ^^^ crcWord bs) := by
  induction bs generalizing c with
  | nil => exact (BitVec.xor_zero).symm
  | cons b bs ih =>
    rw [List.length_cons] at hbs
    have hmoved : crcBits 8 (crcWord bs <<< 8) = crcWord bs :=
      crcBits_shiftLeft fun i hi => crcWord_high bs (by omega)
    have hstep : crc64Update c (b :: bs) = crc64Update (crcByte c b) bs := rfl
    rw [hstep, ih _ (by omega), List.length_cons, Nat.mul_succ, Nat.add_comm, crcBits_add, crcWord,
      ← BitVec.xor_assoc, crcBits_xor 8 (c ^^^ _), hmoved]
    rfl

theorem crcWord_inj {bs bs' : List UInt8} (hlen : bs.length = bs'.length) (hbs : bs.length ≤ 8)
    (h : crcWord bs = crcWord bs') : bs = bs' := by
  induction bs generalizing bs' with
  | nil => exact (List.eq_nil_of_length_eq_zero hlen.symm).symm
  | cons b bs ih =>
    cases bs' with
    | nil => cases hlen
    | cons b' bs' =>
      rw [List.length_cons, List.length_cons] at hlen
      rw [List.length_cons] at hbs
      rw [crcWord, crcWord] at h
      have hbyte : b = b' := by
        apply UInt8.toBitVec_inj.mp
        apply BitVec.eq_of_getLsbD_eq
        intro i hi
        have hbit := congrArg (BitVec.getLsbD · i) h
        simpa [hi, show i < 64 by omega] using hbit
      have hrest : crcWord bs = crcWord bs' := by
        subst hbyte
        have hmoved := (BitVec.xor_right_inj _).mp h
        rw [← crcBits_shiftLeft fun i hi => crcWord_high bs (show 8 * bs.length ≤ i by omega),
          hmoved, crcBits_shiftLeft fun i hi => crcWord_high bs' (show 8 * bs'.length ≤ i by omega)]
      rw [hbyte, ih (by omega) (by omega) hrest]

/-! ## Windows -/

/-- Of the `n` bytes at `p` and at `p'` some differ, and those that differ
are in the window of eight bytes at offset `w`. -/
structure Burst (m m' : Mem) (p p' n w : Nat) : Prop where
  outside : ∀ i < n, ¬ (w ≤ i ∧ i < w + 8) → m (p + i) = m' (p' + i)
  changed : ∃ i < n, m (p + i) ≠ m' (p' + i)

section Window

variable {m m' : Mem} {p p' n w : Nat}

theorem bytes_split (m : Mem) (p : Nat) {a : Nat} (h : a ≤ n) :
    m.bytes p n = m.bytes p a ++ m.bytes (p + a) (n - a) := by
  rw [← bytes_add, Nat.add_sub_cancel' h]

theorem Burst.changed_inside (h : Burst m m' p p' n w) :
    ∃ i < n, (w ≤ i ∧ i < w + 8) ∧ m (p + i) ≠ m' (p' + i) := by
  obtain ⟨i, hi, hne⟩ := h.changed
  refine ⟨i, hi, ?_, hne⟩
  by_contra hout
  exact hne (h.outside i hi hout)

/-- Two messages that differ only inside a window have different CRCs. -/
theorem crc64Update_window (c : BitVec 64) (h : Burst m m' p p' n w) :
    crc64Update c (m.bytes p n) ≠ crc64Update c (m'.bytes p' n) := by
  obtain ⟨i, hi, hin, hne⟩ := h.changed_inside
  obtain ⟨k, hk⟩ : ∃ k, min 8 (n - w) = k := ⟨_, rfl⟩
  have hfront : m.bytes p w = m'.bytes p' w :=
    Mem.bytes_congr fun j hj => h.outside j (by omega) (by omega)
  have hback : m.bytes (p + w + k) (n - w - k) = m'.bytes (p' + w + k) (n - w - k) := by
    apply Mem.bytes_congr
    intro j hj
    have hsame := h.outside (w + k + j) (by omega) (by omega)
    simpa only [Nat.add_assoc] using hsame
  intro heq
  rw [bytes_split m p (show w ≤ n by omega), bytes_split m' p' (show w ≤ n by omega),
    bytes_split m (p + w) (show k ≤ n - w by omega), bytes_split m' (p' + w) (show k ≤ n - w by omega),
    hfront, hback, crc64Update_append, crc64Update_append, crc64Update_append,
    crc64Update_append] at heq
  have hwindow := crc64Update_start heq
  generalize crc64Update c (m'.bytes p' w) = start at hwindow
  rw [crc64Update_word _ (by rw [Mem.bytes_length]; omega),
    crc64Update_word _ (by rw [Mem.bytes_length]; omega), Mem.bytes_length, Mem.bytes_length] at hwindow
  have hword := (BitVec.xor_right_inj _).mp (crcBits_inj hwindow)
  have hbytes := crcWord_inj (by rw [Mem.bytes_length, Mem.bytes_length])
    (by rw [Mem.bytes_length]; omega) hword
  have hbyte := Mem.bytes_eq_iff.mp hbytes (i - w) (by omega)
  apply hne
  rwa [Nat.add_assoc, Nat.add_assoc, Nat.add_sub_cancel' hin.1] at hbyte

/-- A window beside a field, or the field itself. -/
def Beside (w off : Nat) : Prop := w + 8 ≤ off ∨ off + 8 ≤ w ∨ (off ≤ w ∧ w + 8 ≤ off + 8)

/-- A window in front of the field changes the CRC. -/
theorem Burst.crcSpliced_front (h : Burst m m' p p' n w) (hoff : off + 8 ≤ n)
    (hw : w + 8 ≤ off) : crcSpliced m p n off ≠ crcSpliced m' p' n off := by
  have hfront : Burst m m' p p' off w := by
    obtain ⟨i, hi, hin, hne⟩ := h.changed_inside
    exact ⟨fun j hj hout => h.outside j (by omega) hout, i, by omega, hne⟩
  have hback : m.bytes (p + off + 8) (n - off - 8) = m'.bytes (p' + off + 8) (n - off - 8) := by
    apply Mem.bytes_congr
    intro j hj
    have hsame := h.outside (off + 8 + j) (by omega) (by omega)
    simpa only [Nat.add_assoc] using hsame
  intro heq
  have hfinal := BitVec.eq_of_toNat_eq heq
  rw [hback] at hfinal
  have hstart := crc64Update_start (crc64Update_start ((BitVec.xor_left_inj _).mp hfinal))
  exact crc64Update_window _ hfront hstart

/-- A window behind the field changes the CRC. -/
theorem Burst.crcSpliced_back (h : Burst m m' p p' n w) (hw : off + 8 ≤ w) :
    crcSpliced m p n off ≠ crcSpliced m' p' n off := by
  obtain ⟨i, hi, hin, hne⟩ := h.changed_inside
  have hback : Burst m m' (p + off + 8) (p' + off + 8) (n - off - 8) (w - off - 8) := by
    refine ⟨fun j hj hout => ?_, i - off - 8, by omega, ?_⟩
    · have hsame := h.outside (off + 8 + j) (by omega) (by omega)
      simpa only [Nat.add_assoc] using hsame
    · rwa [show p + off + 8 + (i - off - 8) = p + i by omega,
        show p' + off + 8 + (i - off - 8) = p' + i by omega]
  have hfront : m.bytes p off = m'.bytes p' off :=
    Mem.bytes_congr fun j hj => h.outside j (by omega) (by omega)
  intro heq
  have hfinal := BitVec.eq_of_toNat_eq heq
  rw [hfront] at hfinal
  exact crc64Update_window _ hback ((BitVec.xor_left_inj _).mp hfinal)

/-- Of two structures with a window between them, not both carry their own
CRC. -/
theorem Burst.detected (h : Burst m m' p p' n w) (hoff : off + 8 ≤ n)
    (hw : Beside w off) (hcrc : crcSpliced m p n off = get64 m (p + off)) :
    crcSpliced m' p' n off ≠ get64 m' (p' + off) := by
  intro hcrc'
  by_cases hbeside : w + 8 ≤ off ∨ off + 8 ≤ w
  · have hsame : get64 m (p + off) = get64 m' (p' + off) := by
      apply Mem.getLE_congr
      intro i hi
      rw [Nat.add_assoc, Nat.add_assoc]
      exact h.outside (off + i) (by omega) (by omega)
    have hcrcs : crcSpliced m p n off = crcSpliced m' p' n off := by rw [hcrc, hcrc', hsame]
    rcases hbeside with hfront | hback
    · exact h.crcSpliced_front hoff hfront hcrcs
    · exact h.crcSpliced_back hback hcrcs
  · have hfield : w = off := by
      unfold Beside at hw
      omega
    have hcrcs : crcSpliced m p n off = crcSpliced m' p' n off :=
      crcSpliced_congr (fun i hi => h.outside i (by omega) (by omega))
        fun i hlo hhi => h.outside i hhi (by omega)
    have hstored : m.getLE (p + off) 8 = m'.getLE (p' + off) 8 :=
      hcrc.symm.trans (hcrcs.trans hcrc')
    obtain ⟨i, hi, hin, hne⟩ := h.changed_inside
    have hbyte := Mem.getLE_inj hstored (i - off) (by omega)
    apply hne
    rwa [show p + off + (i - off) = p + i by omega,
      show p' + off + (i - off) = p' + i by omega] at hbyte

end Window

end BearBoot
