import Mathlib.Data.Nat.Bitwise
import Mathlib.Order.Bounds.Basic

/-!
# Masks and alignment at sixty-four bits

Systems code spells divisibility with masks: `x & (a - 1)` for the
remainder by a power of two, `(x + (a - 1)) & ~(a - 1)` for rounding up
to one, `v & (v - 1)` for being one. This module reads the three
spellings back as arithmetic, so that everything above it argues with
`%`, `/` and `omega`, and never with bits.

The word is sixty-four bits wide throughout, and a machine value is a
natural number below `2 ^ 64`. Wrapping is written where it can happen.
-/

namespace Machine

variable {x k a : Nat}

/-! ## Powers of two -/

private theorem and_pred_double (w : Nat) (hw : w ≠ 0) :
    (2 * w) &&& (2 * w - 1) = 2 * (w &&& (w - 1)) := by
  have hpred : 2 * w - 1 = 2 * (w - 1) + 1 := by omega
  have hl : 2 * w = Nat.bit false w := by simp [Nat.bit_val]
  have hr : 2 * (w - 1) + 1 = Nat.bit true (w - 1) := by simp [Nat.bit_val]
  rw [hpred, hl, hr, Nat.land_bit]
  simp [Nat.bit_val]

private theorem and_pred_odd (w : Nat) : (2 * w + 1) &&& (2 * w + 1 - 1) = 2 * w := by
  have hl : 2 * w + 1 = Nat.bit true w := by simp [Nat.bit_val]
  have hr : 2 * w = Nat.bit false w := by simp [Nat.bit_val]
  rw [Nat.add_sub_cancel]
  conv => lhs; rw [hl, hr]
  rw [Nat.land_bit, Nat.and_self]
  simp [Nat.bit_val]

/-- `v & (v - 1)` clears the lowest set bit, so it vanishes exactly on
the powers of two. -/
theorem and_pred_eq_zero_iff {v : Nat} (hv : v ≠ 0) :
    v &&& (v - 1) = 0 ↔ ∃ k, v = 2 ^ k := by
  induction v using Nat.strongRecOn with
  | ind v ih =>
    obtain ⟨w, hw | hw⟩ : ∃ w, v = 2 * w ∨ v = 2 * w + 1 := ⟨v / 2, by omega⟩
    · subst hw
      have hw0 : w ≠ 0 := by omega
      rw [and_pred_double w hw0]
      constructor
      · intro h
        obtain ⟨k, hk⟩ := (ih w (by omega) hw0).mp (by omega)
        exact ⟨k + 1, by rw [Nat.pow_succ, ← hk, Nat.mul_comm]⟩
      · rintro ⟨k, hk⟩
        cases k with
        | zero => omega
        | succ k =>
          have hwk : w = 2 ^ k := by rw [Nat.pow_succ] at hk; omega
          rw [(ih w (by omega) hw0).mpr ⟨k, hwk⟩]
    · subst hw
      rw [and_pred_odd]
      constructor
      · intro h
        exact ⟨0, by omega⟩
      · rintro ⟨k, hk⟩
        cases k with
        | zero => omega
        | succ k => rw [Nat.pow_succ] at hk; omega

/-! ## Rounding with a complemented mask -/

/-- The complement `~x` of a sixty-four-bit word. -/
def not64 (x : Nat) : Nat := 2 ^ 64 - 1 - x

/-- Masking with the complement of a low mask drops the low bits. -/
theorem and_not64_low (hx : x < 2 ^ 64) (hk : k ≤ 64) :
    x &&& not64 (2 ^ k - 1) = x / 2 ^ k * 2 ^ k := by
  have hpow : 2 ^ k ≤ 2 ^ 64 := Nat.pow_le_pow_right (by decide) hk
  have hmask : not64 (2 ^ k - 1) = (2 ^ (64 - k) - 1) * 2 ^ k := by
    have hsplit : 2 ^ (64 - k) * 2 ^ k = 2 ^ 64 := by rw [← Nat.pow_add]; congr 1; omega
    have hpos : 0 < 2 ^ k := Nat.two_pow_pos k
    rw [Nat.sub_mul, hsplit]
    unfold not64
    omega
  have hdiv : x / 2 ^ k < 2 ^ (64 - k) := by
    rw [Nat.div_lt_iff_lt_mul (Nat.two_pow_pos k), ← Nat.pow_add]
    calc x < 2 ^ 64 := hx
      _ = 2 ^ (64 - k + k) := by congr 1; omega
  rw [hmask]
  apply Nat.eq_of_testBit_eq
  intro i
  rw [Nat.testBit_and, Nat.testBit_mul_two_pow, Nat.testBit_mul_two_pow,
    Nat.testBit_two_pow_sub_one, Nat.testBit_div_two_pow]
  by_cases hi : k ≤ i
  · have hik : k + (i - k) = i := by omega
    by_cases hb : i - k < 64 - k
    · simp [hi, hb]
    · have : x.testBit i = false :=
        Nat.testBit_lt_two_pow (Nat.lt_of_lt_of_le hx (Nat.pow_le_pow_right (by decide) (by omega)))
      simp [hi, this]
  · simp [hi]

/-- The least multiple of `a` that is not below `x`. -/
def roundUp (x a : Nat) : Nat := (x + (a - 1)) / a * a

theorem dvd_roundUp (x a : Nat) : a ∣ roundUp x a := Nat.dvd_mul_left a _

theorem le_roundUp (x : Nat) (ha : 0 < a) : x ≤ roundUp x a := by
  have := Nat.lt_div_mul_add (a := x + (a - 1)) ha
  unfold roundUp
  omega

theorem roundUp_lt (x : Nat) (ha : 0 < a) : roundUp x a < x + a := by
  have := Nat.div_mul_le_self (x + (a - 1)) a
  unfold roundUp
  omega

/-- Rounding up is the least solution: any multiple at or above `x` is
at or above the rounding. -/
theorem roundUp_le {y : Nat} (ha : 0 < a) (hxy : x ≤ y) (hdvd : a ∣ y) :
    roundUp x a ≤ y := by
  obtain ⟨q, rfl⟩ := hdvd
  by_contra hlt
  have hlt' : a * q < roundUp x a := by omega
  have hup := roundUp_lt x ha
  obtain ⟨p, hp⟩ := dvd_roundUp x a
  rw [hp] at hlt' hup
  have hqp : q < p := Nat.lt_of_mul_lt_mul_left hlt'
  have : a * (q + 1) ≤ a * p := Nat.mul_le_mul_left a hqp
  rw [Nat.mul_add, Nat.mul_one] at this
  omega

theorem roundUp_isLeast (x : Nat) (ha : 0 < a) :
    IsLeast {y | a ∣ y ∧ x ≤ y} (roundUp x a) :=
  ⟨⟨dvd_roundUp x a, le_roundUp x ha⟩, fun _ hy => roundUp_le ha hy.2 hy.1⟩

/-- A multiple of `a` is its own rounding. -/
theorem roundUp_of_dvd (ha : 0 < a) (hdvd : a ∣ x) : roundUp x a = x :=
  Nat.le_antisymm (roundUp_le ha (Nat.le_refl x) hdvd) (le_roundUp x ha)

/-- Rounding commutes with adding a multiple. -/
theorem roundUp_add_mul (x q : Nat) (ha : 0 < a) :
    roundUp (x + a * q) a = roundUp x a + a * q := by
  unfold roundUp
  rw [show x + a * q + (a - 1) = x + (a - 1) + a * q by omega, Nat.add_mul_div_left _ _ ha,
    Nat.add_mul, Nat.mul_comm q a]

/-- Rounding up to a power of two, as the mask spells it. -/
theorem add_and_not64 (hk : k ≤ 64) (hx : x + (2 ^ k - 1) < 2 ^ 64) :
    (x + (2 ^ k - 1)) &&& not64 (2 ^ k - 1) = roundUp x (2 ^ k) :=
  and_not64_low hx hk

/-- The remainder by a power of two, as the mask spells it. -/
theorem and_pred_two_pow_eq_zero : x &&& (2 ^ k - 1) = 0 ↔ 2 ^ k ∣ x := by
  rw [Nat.and_two_pow_sub_one_eq_mod, Nat.dvd_iff_mod_eq_zero]

end Machine
