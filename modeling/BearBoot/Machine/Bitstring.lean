import Mathlib.Algebra.Group.Nat.Defs
import Mathlib.Tactic.Ring

/-!
# Bit strings

Standards for hash functions speak of a message as a string of bits, the
most significant one of a word or of a byte first. This module has the
three readings such a standard goes back and forth between: the number a
bit string stands for, the bit string of a number at a width, and the bit
string of a byte string.

Every reading is fixed by how it treats two strings in a row, so those are
the lemmas, and no proof above has to go to a single bit.
-/

set_option autoImplicit false

namespace Machine

/-- The number a bit string stands for, the first bit being the highest. -/
def natOfBits (bits : List Bool) : Nat := bits.foldl (fun n b => 2 * n + b.toNat) 0

/-- The low `w` bits of a number, the highest first. -/
def bitsOfNat : Nat → Nat → List Bool
  | 0, _ => []
  | w + 1, n => bitsOfNat w (n / 2) ++ [decide (n % 2 = 1)]

/-- The bits of a byte string. -/
def bytesBits (bs : List UInt8) : List Bool := bs.flatMap fun b => bitsOfNat 8 b.toNat

/-! ## Numbers -/

private theorem foldl_bits (bits : List Bool) (n : Nat) :
    bits.foldl (fun n b => 2 * n + b.toNat) n = n * 2 ^ bits.length + natOfBits bits := by
  induction bits generalizing n with
  | nil => simp [natOfBits]
  | cons b bits ih =>
    simp only [natOfBits, List.foldl_cons, List.length_cons]
    rw [ih, ih (2 * 0 + b.toNat)]
    ring

theorem natOfBits_append (xs ys : List Bool) :
    natOfBits (xs ++ ys) = natOfBits xs * 2 ^ ys.length + natOfBits ys := by
  rw [natOfBits, List.foldl_append, foldl_bits]
  rfl

@[simp] theorem length_bitsOfNat (w n : Nat) : (bitsOfNat w n).length = w := by
  induction w generalizing n with
  | zero => rfl
  | succ w ih => simp only [bitsOfNat, List.length_append, ih, List.length_singleton]

theorem natOfBits_bitsOfNat (w n : Nat) : natOfBits (bitsOfNat w n) = n % 2 ^ w := by
  induction w generalizing n with
  | zero => simp [bitsOfNat, natOfBits, Nat.mod_one]
  | succ w ih =>
    have hlast : natOfBits [decide (n % 2 = 1)] = n % 2 := by
      rcases Nat.mod_two_eq_zero_or_one n with h | h <;> simp [natOfBits, h]
    rw [bitsOfNat, natOfBits_append, ih, hlast, Nat.pow_succ', Nat.mod_mul, List.length_singleton]
    omega

/-- The bits above a place, and the bits below it. -/
theorem bitsOfNat_add (a b n : Nat) :
    bitsOfNat (a + b) n = bitsOfNat a (n / 2 ^ b) ++ bitsOfNat b n := by
  induction b generalizing n with
  | zero => simp [bitsOfNat]
  | succ b ih =>
    rw [← Nat.add_assoc, bitsOfNat, ih, Nat.div_div_eq_div_mul, ← Nat.pow_succ', bitsOfNat,
      List.append_assoc]

/-- Only the low bits of a number count. -/
theorem bitsOfNat_mod (w n : Nat) : bitsOfNat w (n % 2 ^ w) = bitsOfNat w n := by
  induction w generalizing n with
  | zero => rfl
  | succ w ih =>
    have hhalf : n % 2 ^ (w + 1) / 2 = n / 2 % 2 ^ w := by
      rw [Nat.pow_succ', Nat.mod_mul_right_div_self]
    have hlow : n % 2 ^ (w + 1) % 2 = n % 2 := by
      rw [Nat.pow_succ', Nat.mod_mul_right_mod]
    rw [bitsOfNat, bitsOfNat, hhalf, hlow, ih]

/-! ## Bytes -/

@[simp] theorem bytesBits_nil : bytesBits [] = [] := rfl

theorem bytesBits_cons (b : UInt8) (bs : List UInt8) :
    bytesBits (b :: bs) = bitsOfNat 8 b.toNat ++ bytesBits bs := List.flatMap_cons

theorem bytesBits_append (xs ys : List UInt8) :
    bytesBits (xs ++ ys) = bytesBits xs ++ bytesBits ys := List.flatMap_append

theorem bytesBits_flatMap {α : Type} (l : List α) (f : α → List UInt8) :
    bytesBits (l.flatMap f) = l.flatMap fun a => bytesBits (f a) := List.flatMap_assoc

@[simp] theorem length_bytesBits (bs : List UInt8) : (bytesBits bs).length = 8 * bs.length := by
  induction bs with
  | nil => rfl
  | cons b bs ih =>
    rw [bytesBits_cons, List.length_append, length_bitsOfNat, ih, List.length_cons]
    omega

theorem bytesBits_drop (bs : List UInt8) (n : Nat) :
    bytesBits (bs.drop n) = (bytesBits bs).drop (8 * n) := by
  induction bs generalizing n with
  | nil => simp
  | cons b bs ih =>
    cases n with
    | zero => rfl
    | succ n =>
      rw [List.drop_succ_cons, ih, bytesBits_cons, Nat.mul_succ, Nat.add_comm,
        ← List.drop_drop, List.drop_left' (length_bitsOfNat 8 _)]

theorem bytesBits_take (bs : List UInt8) (n : Nat) :
    bytesBits (bs.take n) = (bytesBits bs).take (8 * n) := by
  induction bs generalizing n with
  | nil => simp
  | cons b bs ih =>
    cases n with
    | zero => rfl
    | succ n =>
      rw [List.take_succ_cons, bytesBits_cons, ih, bytesBits_cons, Nat.mul_succ, Nat.add_comm,
        List.take_add, List.take_left' (length_bitsOfNat 8 _),
        List.drop_left' (length_bitsOfNat 8 _)]

theorem bytesBits_inj {xs ys : List UInt8} (h : bytesBits xs = bytesBits ys) : xs = ys := by
  induction xs generalizing ys with
  | nil =>
    have hlen := congrArg List.length h
    rw [length_bytesBits, length_bytesBits, List.length_nil] at hlen
    exact (List.eq_nil_of_length_eq_zero (by omega)).symm
  | cons x xs ih =>
    cases ys with
    | nil =>
      have hlen := congrArg List.length h
      rw [length_bytesBits, length_bytesBits, List.length_nil, List.length_cons] at hlen
      omega
    | cons y ys =>
      rw [bytesBits_cons, bytesBits_cons] at h
      obtain ⟨hhead, htail⟩ := List.append_inj h (by rw [length_bitsOfNat, length_bitsOfNat])
      have hbyte := congrArg natOfBits hhead
      rw [natOfBits_bitsOfNat, natOfBits_bitsOfNat, Nat.mod_eq_of_lt x.toNat_lt,
        Nat.mod_eq_of_lt y.toNat_lt] at hbyte
      rw [UInt8.toNat_inj.mp hbyte, ih htail]

theorem bytesBits_zeros (n : Nat) :
    bytesBits (List.replicate n 0) = List.replicate (8 * n) false := by
  induction n with
  | zero => rfl
  | succ n ih =>
    rw [List.replicate_succ, bytesBits_cons, ih, Nat.mul_succ, Nat.add_comm,
      ← List.replicate_append_replicate]
    rfl

end Machine
