import Mathlib.Data.Nat.Bitwise
import Mathlib.Logic.Function.Basic
import Mathlib.Data.List.Basic

/-!
# Byte memory

A memory is one byte at every address. Objects have no type here: a
structure is the bytes at its offsets, a field is a little-endian load,
and an array is a run of bytes. Every write is described twice: as the
loop a program runs, and pointwise, as what stands at each address
afterwards. Proofs above this module only use the pointwise reading.

A load depends on its own bytes alone (`getLE_congr`) and determines
them (`getLE_inj`), so a field is as good as the bytes that spell it.
-/

namespace Machine

variable {bs : List UInt8} {lo k : Nat}

/-- Memory: one byte at every address. -/
abbrev Mem := Nat → UInt8

namespace Mem

variable {m m' : Mem} {a p p' d s n w v : Nat}

/-! ## Runs of bytes -/

/-- The `n` bytes at `a`. -/
def bytes (m : Mem) (a n : Nat) : List UInt8 := (List.range n).map fun i => m (a + i)

/-- The memory as a pointer sees it: index `0` is the byte at `p`. -/
def based (m : Mem) (p : Nat) : Mem := fun i => m (p + i)

/-- A byte string as the memory that holds it from address `0` on. -/
def ofList (bs : List UInt8) : Mem := fun i => bs.getD i 0

/-- The memory with the 64-bit words `ws` at `p`. -/
def putWords (m : Mem) (p : Nat) (ws : List Nat) : Mem := fun a =>
  if p ≤ a ∧ a < p + 8 * ws.length then
    UInt8.ofNat (ws.getD ((a - p) / 8) 0 >>> (8 * ((a - p) % 8)))
  else m a

@[simp] theorem based_apply (m : Mem) (p i : Nat) : m.based p i = m (p + i) := rfl

@[simp] theorem bytes_length (m : Mem) (a n : Nat) : (m.bytes a n).length = n := by
  simp [bytes]

theorem bytes_getElem? (m : Mem) (a n i : Nat) :
    (m.bytes a n)[i]? = if i < n then some (m (a + i)) else none := by
  by_cases h : i < n <;> simp [bytes, h]

theorem bytes_based (m : Mem) (p a n : Nat) : (m.based p).bytes a n = m.bytes (p + a) n := by
  simp [bytes, Nat.add_assoc]

/-- Two runs are equal exactly when they agree byte for byte. -/
theorem bytes_eq_iff : m.bytes p n = m'.bytes p' n ↔ ∀ i < n, m (p + i) = m' (p' + i) := by
  simp [bytes, List.map_inj_left]

theorem bytes_congr (h : ∀ i < n, m (p + i) = m' (p' + i)) : m.bytes p n = m'.bytes p' n :=
  bytes_eq_iff.mpr h

/-- Some byte of a run is not zero. -/
theorem exists_bytes_ne_zero : (∃ b ∈ m.bytes p n, b ≠ 0) ↔ ∃ i < n, m (p + i) ≠ 0 := by
  simp [bytes]

theorem bytes_ofList_drop (h : lo + k ≤ bs.length) :
    (ofList bs).bytes lo k = (bs.drop lo).take k := by
  apply List.ext_getElem?
  intro i
  rw [bytes_getElem?, List.getElem?_take]
  split
  next hi => simp [ofList, show lo + i < bs.length by omega]
  next => rfl

/-- A part of a byte list that is all zero, as a test on the part finds it. -/
theorem zero_part_iff {hi : Nat} (hin : hi ≤ bs.length) :
    ¬ (lo < hi ∧ ∃ b ∈ (bs.drop lo).take (hi - lo), b ≠ 0) ↔
      ∀ x, lo ≤ x → x < hi → ofList bs x = 0 := by
  by_cases hlt : lo < hi
  · rw [← bytes_ofList_drop (by omega), exists_bytes_ne_zero]
    constructor
    · intro hno x hlo hhi
      by_contra hne
      exact hno ⟨hlt, x - lo, by omega, by rwa [Nat.add_sub_cancel' hlo]⟩
    · rintro hall ⟨_, i, hi', hne⟩
      exact hne (hall (lo + i) (by omega) (by omega))
  · exact ⟨fun _ x hlo hhi => absurd hhi (by omega), fun _ h => hlt h.1⟩

theorem ofList_bytes {i : Nat} (h : i < n) : ofList (m.bytes a n) i = m (a + i) := by
  rw [ofList, List.getD_eq_getElem?_getD, bytes_getElem?, if_pos h]
  rfl

/-! ## Little-endian loads -/

/-- The `w` bytes at `p` as a little-endian number, accumulated by the
loop `value |= p[i] << (8 * i)`. -/
def getLE (m : Mem) (p : Nat) : Nat → Nat
  | 0 => 0
  | w + 1 => getLE m p w ||| (m (p + w)).toNat <<< (8 * w)

theorem getLE_lt (m : Mem) (p w : Nat) : m.getLE p w < 2 ^ (8 * w) := by
  induction w with
  | zero => simp [getLE]
  | succ w ih =>
    have hpow : 2 ^ (8 * w) ≤ 2 ^ (8 * (w + 1)) := Nat.pow_le_pow_right (by decide) (by omega)
    apply Nat.or_lt_two_pow (Nat.lt_of_lt_of_le ih hpow)
    rw [Nat.shiftLeft_eq, Nat.mul_succ, Nat.pow_add, Nat.mul_comm (2 ^ (8 * w))]
    exact (Nat.mul_lt_mul_right (Nat.two_pow_pos _)).mpr (m (p + w)).toNat_lt

/-- The loop's disjunction never meets a set bit, so it is a sum. -/
theorem getLE_succ (m : Mem) (p w : Nat) :
    m.getLE p (w + 1) = m.getLE p w + (m (p + w)).toNat * 2 ^ (8 * w) := by
  rw [getLE, Nat.or_comm, ← Nat.shiftLeft_add_eq_or_of_lt (getLE_lt m p w), Nat.shiftLeft_eq,
    Nat.add_comm]

/-- A load depends on its own bytes alone. -/
theorem getLE_congr (h : ∀ i < w, m (p + i) = m' (p' + i)) : m.getLE p w = m'.getLE p' w := by
  induction w with
  | zero => rfl
  | succ w ih =>
    rw [getLE_succ, getLE_succ, ih fun i hi => h i (by omega), h w (by omega)]

/-- A field of a range that stands elsewhere too. -/
theorem getLE_shift {hi o : Nat} (h : ∀ i, lo ≤ i → i < hi → m (p + i) = m' (p' + i))
    (hlo : lo ≤ o) (hhi : o + w ≤ hi) : m.getLE (p + o) w = m'.getLE (p' + o) w := by
  refine getLE_congr fun i hi' => ?_
  rw [Nat.add_assoc, Nat.add_assoc]
  exact h (o + i) (by omega) (by omega)

theorem getLE_based (m : Mem) (p a w : Nat) : (m.based p).getLE a w = m.getLE (p + a) w :=
  getLE_congr fun i _ => by rw [based_apply, Nat.add_assoc]

/-- A load determines its bytes. -/
theorem getLE_inj (h : m.getLE p w = m'.getLE p' w) : ∀ i < w, m (p + i) = m' (p' + i) := by
  induction w with
  | zero => intro i hi; omega
  | succ w ih =>
    rw [getLE_succ, getLE_succ] at h
    have hlt := getLE_lt m p w
    have hlt' := getLE_lt m' p' w
    have hpos := Nat.two_pow_pos (8 * w)
    have hlow : m.getLE p w = m'.getLE p' w := by
      have := congrArg (· % 2 ^ (8 * w)) h
      simpa [Nat.add_mul_mod_self_right, Nat.mod_eq_of_lt hlt, Nat.mod_eq_of_lt hlt'] using this
    have hhigh : m (p + w) = m' (p' + w) := by
      rw [hlow] at h
      exact UInt8.toNat_inj.mp (Nat.eq_of_mul_eq_mul_right hpos (Nat.add_left_cancel h))
    intro i hi
    rcases Nat.lt_succ_iff_lt_or_eq.mp hi with hlt | rfl
    · exact ih hlow i hlt
    · exact hhigh

/-- The memory that holds nothing. -/
def zeros : Mem := fun _ => 0

theorem getLE_zeros (p w : Nat) : zeros.getLE p w = 0 := by
  induction w with
  | zero => rfl
  | succ w ih => rw [getLE_succ, ih]; simp [zeros]

/-- A load of zero is a run of zero bytes. -/
theorem getLE_eq_zero_iff : m.getLE p w = 0 ↔ ∀ i < w, m (p + i) = 0 := by
  rw [← getLE_zeros p w]
  exact ⟨getLE_inj, fun h => getLE_congr h⟩

/-! ## Stores -/

/-- One byte stored. -/
def set (m : Mem) (a : Nat) (b : UInt8) : Mem := fun x => if x = a then b else m x

/-- The `w` low bytes of `v` stored at `p`, little end first, by the
loop `p[i] = (uint8_t)(v >> (8 * i))`. -/
def putLE (m : Mem) (p v : Nat) : Nat → Mem
  | 0 => m
  | w + 1 => (putLE m p v w).set (p + w) (UInt8.ofNat (v >>> (8 * w)))

theorem putLE_apply (m : Mem) (p v w a : Nat) :
    m.putLE p v w a =
      if p ≤ a ∧ a < p + w then UInt8.ofNat (v >>> (8 * (a - p))) else m a := by
  induction w with
  | zero => simp [putLE]
  | succ w ih =>
    simp only [putLE, set, ih]
    by_cases h : a = p + w
    · subst h; simp
    · have hiff : (p ≤ a ∧ a < p + (w + 1)) ↔ (p ≤ a ∧ a < p + w) := by omega
      simp [h, hiff]

/-- A store is invisible outside its bytes. -/
theorem putLE_frame (h : a < p ∨ p + w ≤ a) : m.putLE p v w a = m a := by
  rw [putLE_apply, if_neg (by omega)]

theorem getLE_putLE_mod (m : Mem) (p v w : Nat) :
    (m.putLE p v w).getLE p w = v % 2 ^ (8 * w) := by
  induction w with
  | zero => simp [getLE, Nat.mod_one]
  | succ w ih =>
    have hlow : (m.putLE p v (w + 1)).getLE p w = (m.putLE p v w).getLE p w := by
      apply getLE_congr
      intro i hi
      rw [putLE_apply, putLE_apply, if_pos (by omega), if_pos (by omega)]
    have hbyte : ((m.putLE p v (w + 1)) (p + w)).toNat = v / 2 ^ (8 * w) % 2 ^ 8 := by
      rw [putLE_apply, if_pos (by omega), Nat.add_sub_cancel_left, UInt8.toNat_ofNat',
        Nat.shiftRight_eq_div_pow]
    rw [getLE_succ, hlow, ih, hbyte, Nat.mul_succ, Nat.pow_add, Nat.mod_mul,
      Nat.mul_comm (v / 2 ^ (8 * w) % 2 ^ 8)]

/-- What was stored is what loads, when it fits. -/
theorem getLE_putLE (hv : v < 2 ^ (8 * w)) : (m.putLE p v w).getLE p w = v := by
  rw [getLE_putLE_mod, Nat.mod_eq_of_lt hv]

/-- A load that no byte of a store touches is unchanged. -/
theorem getLE_putLE_frame (h : a + k ≤ p ∨ p + w ≤ a) :
    (m.putLE p v w).getLE a k = m.getLE a k :=
  getLE_congr fun i hi => putLE_frame (by omega)

/-- A byte string stored at `d`. -/
def blit (m : Mem) (d : Nat) : List UInt8 → Mem
  | [] => m
  | b :: bs => (m.set d b).blit (d + 1) bs

theorem blit_apply (m : Mem) (d : Nat) (bs : List UInt8) (a : Nat) :
    m.blit d bs a = if d ≤ a ∧ a < d + bs.length then bs.getD (a - d) 0 else m a := by
  induction bs generalizing m d with
  | nil => simp [blit]
  | cons b bs ih =>
    simp only [blit, ih, set, List.length_cons]
    by_cases hlo : d + 1 ≤ a ∧ a < d + 1 + bs.length
    · have hsub : a - d = (a - (d + 1)) + 1 := by omega
      rw [if_pos hlo, if_pos (by omega), hsub, List.getD_cons_succ]
    · by_cases ha : a = d
      · subst ha
        simp
      · rw [if_neg hlo, if_neg ha, if_neg (by omega)]

theorem blit_frame (h : a < d ∨ d + bs.length ≤ a) : m.blit d bs a = m a := by
  rw [blit_apply, if_neg (by omega)]

theorem getLE_blit_frame (h : a + k ≤ d ∨ d + bs.length ≤ a) :
    (m.blit d bs).getLE a k = m.getLE a k :=
  getLE_congr fun i hi => blit_frame (by omega)

theorem bytes_blit (m : Mem) (d : Nat) (bs : List UInt8) :
    (m.blit d bs).bytes d bs.length = bs := by
  apply List.ext_getElem?
  intro i
  rw [bytes_getElem?, blit_apply]
  by_cases h : i < bs.length
  · simp [h]
  · simp [h]

/-- `n` zero bytes stored at `d`. -/
def fill (m : Mem) (d : Nat) : Nat → Mem
  | 0 => m
  | n + 1 => (fill m d n).set (d + n) 0

theorem fill_apply (m : Mem) (d n a : Nat) :
    m.fill d n a = if d ≤ a ∧ a < d + n then 0 else m a := by
  induction n with
  | zero => simp [fill]
  | succ n ih =>
    simp only [fill, set, ih]
    by_cases h : a = d + n
    · subst h; simp
    · have hiff : (d ≤ a ∧ a < d + (n + 1)) ↔ (d ≤ a ∧ a < d + n) := by omega
      simp [h, hiff]

/-- The forward copy loop: byte `i` is read after the bytes before it
were written. -/
def copy (m : Mem) (d s : Nat) : Nat → Mem
  | 0 => m
  | n + 1 => (copy m d s n).set (d + n) (copy m d s n (s + n))

theorem copy_frame (h : a < d ∨ d + n ≤ a) : m.copy d s n a = m a := by
  induction n with
  | zero => rfl
  | succ n ih =>
    rw [copy, set, if_neg (by omega), ih (by omega)]

/-- Between disjoint ranges the loop is a plain copy. -/
theorem copy_apply (hdisj : s + n ≤ d ∨ d + n ≤ s) (i : Nat) (hi : i < n) :
    m.copy d s n (d + i) = m (s + i) := by
  induction n with
  | zero => omega
  | succ n ih =>
    rw [copy, set]
    by_cases h : i = n
    · subst h
      rw [if_pos rfl, copy_frame (by omega)]
    · rw [if_neg (by omega), ih (by omega) (by omega)]

/-! ## Putting back what was saved -/

theorem blit_bytes_apply (m m' : Mem) (d n a : Nat) :
    m'.blit d (m.bytes d n) a = if d ≤ a ∧ a < d + n then m a else m' a := by
  rw [blit_apply, bytes_length]
  split
  next hin =>
    obtain ⟨i, rfl⟩ := Nat.exists_eq_add_of_le hin.1
    rw [Nat.add_sub_cancel_left]
    exact ofList_bytes (by omega)
  next => rfl

theorem putLE_getLE_apply (m m' : Mem) (p w a : Nat) :
    m'.putLE p (m.getLE p w) w a = if p ≤ a ∧ a < p + w then m a else m' a := by
  split
  next hin =>
    obtain ⟨i, rfl⟩ := Nat.exists_eq_add_of_le hin.1
    exact getLE_inj (getLE_putLE (getLE_lt m p w)) i (by omega)
  next hout => exact putLE_frame (by omega)

/-! ## A copy in several stores -/

/-- The `n` bytes at `s` have been copied to `d`, and nothing else has
changed since `m`. -/
structure Copied (m m' : Mem) (d s n : Nat) : Prop where
  inside : ∀ i < n, m' (d + i) = m (s + i)
  outside : ∀ a, a < d ∨ d + n ≤ a → m' a = m a

theorem Copied.refl (m : Mem) (d s : Nat) : Copied m m d s 0 :=
  ⟨fun i hi => absurd hi (Nat.not_lt_zero i), fun _ _ => rfl⟩

/-- A copy goes on where it stopped: with another run of bytes. -/
theorem Copied.copy (h : Copied m m' d s n)
    (hdisj : s + (n + k) ≤ d ∨ d + (n + k) ≤ s) :
    Copied m (m'.copy (d + n) (s + n) k) d s (n + k) := by
  refine ⟨fun i hi => ?_, fun a ha => ?_⟩
  · by_cases hold : i < n
    · rw [copy_frame (by omega)]
      exact h.inside i hold
    · have hstep := copy_apply (m := m') (d := d + n) (s := s + n) (n := k) (by omega) (i - n)
        (by omega)
      rw [show d + n + (i - n) = d + i by omega, show s + n + (i - n) = s + i by omega] at hstep
      rw [hstep]
      exact h.outside _ (by omega)
  · rw [copy_frame (by omega)]
    exact h.outside a (by omega)

/-- Or with a field, loaded and stored. -/
theorem Copied.putLE (h : Copied m m' d s n) (hdisj : s + (n + w) ≤ d ∨ d + (n + w) ≤ s) :
    Copied m (m'.putLE (d + n) (m'.getLE (s + n) w) w) d s (n + w) := by
  refine ⟨fun i hi => ?_, fun a ha => ?_⟩
  · by_cases hold : i < n
    · rw [putLE_frame (by omega)]
      exact h.inside i hold
    · have hload : (m'.putLE (d + n) (m'.getLE (s + n) w) w).getLE (d + n) w = m'.getLE (s + n) w :=
        getLE_putLE (m'.getLE_lt _ _)
      have hstep := getLE_inj hload (i - n) (by omega)
      rw [show d + n + (i - n) = d + i by omega, show s + n + (i - n) = s + i by omega] at hstep
      rw [hstep]
      exact h.outside _ (by omega)
  · rw [putLE_frame (by omega)]
    exact h.outside a (by omega)

end Mem

end Machine
