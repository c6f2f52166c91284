import Mathlib.Analysis.SpecialFunctions.Pow.NthRootLemmas
import Mathlib.NumberTheory.PrimeCounting
import BearBoot.Machine.Bitstring
import BearBoot.Tcg2.Sha256

/-!
# SHA-256 is the one of FIPS 180-4

The standard is about bit strings. It pads the whole message, cuts it into
blocks of sixteen words, expands a block to sixty-four words `W t` and
folds the blocks into eight words. `Fips` states that, in the standard's
order and with the standard's own account of the constants: they are the
first thirty-two bits behind the point of the square and cube roots of the
first primes.

The C code is a stream. It never has the whole message, it keeps the words
of the schedule in an array, and it pads when it is asked for the digest.
Three invariants connect the two. The array of the schedule is the list of
the `W t` there are (`scheduleStep_range`). A context has absorbed the
message that its full blocks and its buffer make up (`Absorbed`), and a
call of `sha256_update` absorbs what it is given, wherever the block
boundaries fall (`updateLoop_absorbed`). And the two ways of
`sha256_final` both put the standard's padding behind the message
(`final_blocks`). The digest is then a function of the message alone, so
how a caller has split it cannot matter.
-/

set_option autoImplicit false

namespace BearBoot.Tcg2

open Machine

variable {message : List UInt8} {bits : UInt64} {c : Sha256Context}

/-! ## The standard -/

namespace Fips

/-! ### Functions and constants (section 4) -/

def rotr (n : Nat) (x : UInt32) : UInt32 :=
  (x >>> UInt32.ofNat n) ||| (x <<< UInt32.ofNat (32 - n))

def shr (n : Nat) (x : UInt32) : UInt32 := x >>> UInt32.ofNat n

def ch (x y z : UInt32) : UInt32 := (x &&& y) ^^^ (~~~x &&& z)

def maj (x y z : UInt32) : UInt32 := (x &&& y) ^^^ (x &&& z) ^^^ (y &&& z)

def bigSigma0 (x : UInt32) : UInt32 := rotr 2 x ^^^ rotr 13 x ^^^ rotr 22 x

def bigSigma1 (x : UInt32) : UInt32 := rotr 6 x ^^^ rotr 11 x ^^^ rotr 25 x

def smallSigma0 (x : UInt32) : UInt32 := rotr 7 x ^^^ rotr 18 x ^^^ shr 3 x

def smallSigma1 (x : UInt32) : UInt32 := rotr 17 x ^^^ rotr 19 x ^^^ shr 10 x

/-- The first thirty-two bits of the fractional part of the `k`-th root of
the prime with the number `t`, counted from zero. -/
noncomputable def rootFraction (k t : Nat) : UInt32 :=
  UInt32.ofNat (Nat.nthRoot k (Nat.nth Nat.Prime t * 2 ^ (32 * k)))

noncomputable def roundConstant (t : Nat) : UInt32 := rootFraction 3 t

/-! ### Preprocessing (section 5) -/

/-- The smallest number of zeros with which the length field ends a block. -/
noncomputable def zeroBits (l : Nat) : Nat := sInf { k | (l + 1 + k) % 512 = 448 }

noncomputable def padded (message : List Bool) : List Bool :=
  message ++ [true] ++ List.replicate (zeroBits message.length) false ++
    bitsOfNat 64 message.length

/-- Word `j` of block `i` of a padded message. -/
def blockWord (bits : List Bool) (i j : Nat) : UInt32 :=
  UInt32.ofNat (natOfBits ((bits.drop (512 * i + 32 * j)).take 32))

noncomputable def initialHash : Words :=
  ⟨rootFraction 2 0, rootFraction 2 1, rootFraction 2 2, rootFraction 2 3,
    rootFraction 2 4, rootFraction 2 5, rootFraction 2 6, rootFraction 2 7⟩

/-! ### Hash computation (section 6.2.2) -/

/-- The message schedule of a block. -/
def messageSchedule (block : Nat → UInt32) (t : Nat) : UInt32 :=
  if t < 16 then block t
  else smallSigma1 (messageSchedule block (t - 2)) + messageSchedule block (t - 7) +
    smallSigma0 (messageSchedule block (t - 15)) + messageSchedule block (t - 16)
termination_by t

/-- Step 3, for one `t`. -/
noncomputable def round (w : Nat → UInt32) (s : Words) (t : Nat) : Words :=
  let t1 := s.h + bigSigma1 s.e + ch s.e s.f s.g + roundConstant t + w t
  let t2 := bigSigma0 s.a + maj s.a s.b s.c
  ⟨t1 + t2, s.a, s.b, s.c, s.d + t1, s.e, s.f, s.g⟩

/-- Steps 1 to 4, for one block. -/
noncomputable def compress (s : Words) (block : Nat → UInt32) : Words :=
  let r := (List.range 64).foldl (round (messageSchedule block)) s
  ⟨r.a + s.a, r.b + s.b, r.c + s.c, r.d + s.d, r.e + s.e, r.f + s.f, r.g + s.g, r.h + s.h⟩

/-- The digest of a message. -/
noncomputable def sha256 (message : List Bool) : List Bool :=
  let bits := padded message
  let final := (List.range (bits.length / 512)).foldl
    (fun s i => compress s (blockWord bits i)) initialHash
  final.toList.flatMap fun word => bitsOfNat 32 word.toNat

end Fips

/-! ## The constants

The primes below 312 are found by trial division, and a table entry is
checked against the two powers it has to lie between. -/

/-- The numbers a predicate holds of are listed by `filter` in the order in
which `Nat.nth` counts them. -/
theorem nth_of_filter_range (p : Nat → Prop) [DecidablePred p] (n : Nat) :
    ((List.range n).filter fun a => decide (p a)) =
      (List.range (Nat.count p n)).map (Nat.nth p) := by
  induction n with
  | zero => rfl
  | succ n ih =>
    rw [List.range_succ, List.filter_append, ih, Nat.count_succ]
    by_cases hp : p n
    · rw [List.filter_singleton, decide_eq_true hp, cond_true, if_pos hp, List.range_succ,
        List.map_append, List.map_singleton, Nat.nth_count hp]
    · rw [List.filter_singleton, decide_eq_false hp, cond_false, if_neg hp, List.append_nil,
        Nat.add_zero]

/-- Trial division by everything below. -/
def undivided (n : Nat) : Bool := 2 ≤ n && (List.range n).all fun d => d < 2 || n % d ≠ 0

theorem undivided_iff (n : Nat) : undivided n = true ↔ n.Prime := by
  rw [Nat.prime_def_lt', undivided, Bool.and_eq_true, decide_eq_true_iff]
  refine and_congr_right fun _ => ?_
  simp only [List.all_eq_true, List.mem_range, Bool.or_eq_true, decide_eq_true_iff,
    Nat.dvd_iff_mod_eq_zero, ne_eq]
  constructor
  · intro h m hm hlt
    exact (h m hlt).resolve_left (by omega)
  · intro h d hd
    by_cases h2 : d < 2
    · exact Or.inl h2
    · exact Or.inr (h d (by omega) hd)

/-- The first sixty-four primes. -/
def primes : List Nat := (List.range 312).filter undivided

theorem primes_eq : primes = (List.range 64).map (Nat.nth Nat.Prime) := by
  have hlist : primes = (List.range 312).filter fun a => decide a.Prime := by
    apply List.filter_congr
    intro a _
    rw [Bool.eq_iff_iff, undivided_iff, decide_eq_true_iff]
  have hall := hlist.trans (nth_of_filter_range Nat.Prime 312)
  have hcount : Nat.count Nat.Prime 312 = 64 := by
    have hlen := congrArg List.length hall
    rw [List.length_map, List.length_range] at hlen
    rw [← hlen]
    decide +kernel
  rw [hall, hcount]

/-- A word is the start of the fractional part of the `k`-th root of `p`. -/
def IsRoot (k : Nat) (word : UInt32) (p : Nat) : Prop :=
  ∃ i < 8, (i * 2 ^ 32 + word.toNat) ^ k ≤ p * 2 ^ (32 * k) ∧
    p * 2 ^ (32 * k) < (i * 2 ^ 32 + word.toNat + 1) ^ k

instance (k : Nat) (word : UInt32) (p : Nat) : Decidable (IsRoot k word p) :=
  inferInstanceAs (Decidable (∃ i < 8, _))

theorem IsRoot.eq {k t : Nat} {word : UInt32} (h : IsRoot k word (Nat.nth Nat.Prime t)) :
    Fips.rootFraction k t = word := by
  obtain ⟨i, -, hle, hlt⟩ := h
  rw [Fips.rootFraction, Nat.nthRoot_eq_of_le_of_lt hle hlt]
  apply UInt32.toNat_inj.mp
  rw [UInt32.toNat_ofNat', Nat.mul_add_mod', Nat.mod_eq_of_lt word.toNat_lt]

/-- A table is the one of the standard when each of its entries is the
root of the prime that stands at its place. -/
theorem roots_eq {k n : Nat} {table : List UInt32}
    (h : List.Forall₂ (IsRoot k) table ((List.range n).map (Nat.nth Nat.Prime))) :
    table = (List.range n).map (Fips.rootFraction k) := by
  have heach : List.Forall₂ (fun word t => word = Fips.rootFraction k t) table (List.range n) :=
    (List.forall₂_map_right_iff.mp h).imp fun _ _ hroot => hroot.eq.symm
  rw [← List.forall₂_eq_eq_eq]
  exact List.forall₂_map_right_iff.mpr heach

theorem constants_eq : constants = (List.range 64).map Fips.roundConstant := by
  have hroots : List.Forall₂ (IsRoot 3) constants primes := by decide +kernel
  rw [primes_eq] at hroots
  exact roots_eq hroots

theorem Words.toList_inj {s r : Words} (h : s.toList = r.toList) : s = r := by
  cases s
  cases r
  simpa only [Words.toList, List.cons.injEq, and_true, Words.mk.injEq] using h

theorem initialHash_eq : sha256Init.state = Fips.initialHash := by
  have hroots : List.Forall₂ (IsRoot 2) sha256Init.state.toList (primes.take 8) := by
    decide +kernel
  rw [primes_eq, ← List.map_take, List.take_range] at hroots
  exact Words.toList_inj (roots_eq hroots)

/-! ## Schedule and compression -/

namespace Fips

theorem messageSchedule_of_lt {block : Nat → UInt32} {t : Nat} (ht : t < 16) :
    messageSchedule block t = block t := by
  rw [messageSchedule, if_pos ht]

theorem messageSchedule_step (block : Nat → UInt32) (n : Nat) :
    messageSchedule block (16 + n) = smallSigma1 (messageSchedule block (14 + n)) +
      messageSchedule block (9 + n) + smallSigma0 (messageSchedule block (1 + n)) +
        messageSchedule block n := by
  rw [messageSchedule, if_neg (by omega), show 16 + n - 2 = 14 + n by omega,
    show 16 + n - 7 = 9 + n by omega, show 16 + n - 15 = 1 + n by omega,
    show 16 + n - 16 = n by omega]

/-- A block is its first sixteen words. -/
theorem messageSchedule_congr {block block' : Nat → UInt32} (h : ∀ j < 16, block j = block' j)
    (t : Nat) : messageSchedule block t = messageSchedule block' t := by
  induction t using Nat.strongRecOn with
  | ind t ih =>
    by_cases ht : t < 16
    · rw [messageSchedule_of_lt ht, messageSchedule_of_lt ht, h t ht]
    · rw [messageSchedule, if_neg ht, ih (t - 2) (by omega), ih (t - 7) (by omega),
        ih (t - 15) (by omega), ih (t - 16) (by omega), messageSchedule.eq_1 block' t, if_neg ht]

theorem compress_congr {block block' : Nat → UInt32} (h : ∀ j < 16, block j = block' j)
    (s : Words) : compress s block = compress s block' := by
  rw [compress, funext (messageSchedule_congr h), ← compress]

end Fips

/-- The words of a block, as the code reads them. -/
def words (block : List UInt8) (j : Nat) : UInt32 := readBe32 block (j * 4)

/-- The invariant of the schedule's loop: the array holds the `W t` below
its length. -/
theorem scheduleStep_range (block : Nat → UInt32) (n : Nat) :
    scheduleStep ((List.range (16 + n)).map (Fips.messageSchedule block)) =
      (List.range (16 + n + 1)).map (Fips.messageSchedule block) := by
  have hget : ∀ i < 16 + n, ((List.range (16 + n)).map (Fips.messageSchedule block)).getD i 0 =
      Fips.messageSchedule block i := by
    intro i hi
    rw [List.getD_eq_getElem _ _ (by simpa using hi), List.getElem_map, List.getElem_range]
  have hsum (a b c d : UInt32) : d + b + c + a = a + c + b + d := by ac_rfl
  rw [List.range_succ, List.map_append, List.map_singleton, scheduleStep, List.length_map,
    List.length_range, show 16 + n - 15 = 1 + n by omega, show 16 + n - 2 = 14 + n by omega,
    show 16 + n - 16 = n by omega, show 16 + n - 7 = 9 + n by omega,
    hget _ (by omega), hget _ (by omega), hget _ (by omega), hget _ (by omega),
    Fips.messageSchedule_step]
  congr 2
  exact hsum _ _ _ _

theorem schedule_eq (block : List UInt8) :
    schedule block = (List.range 64).map (Fips.messageSchedule (words block)) := by
  have hrun : ∀ n, scheduleStep^[n] ((List.range 16).map (words block)) =
      (List.range (16 + n)).map (Fips.messageSchedule (words block)) := by
    intro n
    induction n with
    | zero =>
      apply List.map_congr_left
      intro t ht
      rw [Fips.messageSchedule_of_lt (List.mem_range.mp ht)]
    | succ n ih =>
      rw [Function.iterate_succ_apply', ih, scheduleStep_range]
      rfl
  exact hrun 48

/-- `sha256_transform` is the standard's compression of the block. -/
theorem sha256Transform_eq (s : Words) (block : List UInt8) :
    sha256Transform s block = Fips.compress s (words block) := by
  have hrounds : (constants.zip (schedule block)).foldl (fun s kw => transformRound s kw.1 kw.2) s =
      (List.range 64).foldl (Fips.round (Fips.messageSchedule (words block))) s := by
    rw [schedule_eq, constants_eq, List.zip_map', List.foldl_map]
    rfl
  rw [sha256Transform, hrounds, Fips.compress]
  simp only [UInt32.add_comm]

/-! ## Blocks of bytes -/

/-- Four bytes in a row, as a word. -/
theorem or_bytes (a b c d : UInt8) :
    (a.toUInt32 <<< 24) ||| (b.toUInt32 <<< 16) ||| (c.toUInt32 <<< 8) ||| d.toUInt32 =
      UInt32.ofNat (natOfBits (bytesBits [a, b, c, d])) := by
  have ha := a.toNat_lt
  have hb := b.toNat_lt
  have hc := c.toNat_lt
  have hd := d.toNat_lt
  have hbits : natOfBits (bytesBits [a, b, c, d]) =
      ((a.toNat * 2 ^ 8 + b.toNat) * 2 ^ 8 + c.toNat) * 2 ^ 8 + d.toNat := by
    simp only [bytesBits_cons, bytesBits_nil, List.append_nil, natOfBits_append,
      natOfBits_bitsOfNat, Nat.mod_eq_of_lt ha, Nat.mod_eq_of_lt hb, Nat.mod_eq_of_lt hc,
      Nat.mod_eq_of_lt hd, List.length_append, length_bitsOfNat]
    ring
  have h24 : a.toNat <<< 24 ||| b.toNat <<< 16 = (a.toNat * 2 ^ 8 + b.toNat) <<< 16 := by
    rw [← Nat.shiftLeft_add_eq_or_of_lt (by rw [Nat.shiftLeft_eq]; omega)]
    simp only [Nat.shiftLeft_eq]
    ring
  have h16 : (a.toNat * 2 ^ 8 + b.toNat) <<< 16 ||| c.toNat <<< 8 =
      ((a.toNat * 2 ^ 8 + b.toNat) * 2 ^ 8 + c.toNat) <<< 8 := by
    rw [← Nat.shiftLeft_add_eq_or_of_lt (by rw [Nat.shiftLeft_eq]; omega)]
    simp only [Nat.shiftLeft_eq]
    ring
  have hshift (x : UInt8) {k : UInt32} {n : Nat} (hk : k.toNat = n) (hn : n ≤ 24) :
      (x.toUInt32 <<< k).toNat = x.toNat <<< n := by
    have hx := x.toNat_lt
    rw [UInt32.toNat_shiftLeft, UInt8.toNat_toUInt32, hk, Nat.mod_eq_of_lt (show n < 32 by omega)]
    apply Nat.mod_eq_of_lt
    rw [Nat.shiftLeft_eq]
    calc x.toNat * 2 ^ n ≤ x.toNat * 2 ^ 24 :=
          Nat.mul_le_mul_left _ (Nat.pow_le_pow_right (by decide) hn)
      _ < 2 ^ 32 := by omega
  apply UInt32.toNat_inj.mp
  rw [UInt32.toNat_or, UInt32.toNat_or, UInt32.toNat_or, hshift a (n := 24) rfl (by decide),
    hshift b (n := 16) rfl (by decide), hshift c (n := 8) rfl (by decide), UInt8.toNat_toUInt32, h24, h16,
    ← Nat.shiftLeft_add_eq_or_of_lt hd, hbits, UInt32.toNat_ofNat', Nat.shiftLeft_eq,
    Nat.mod_eq_of_lt (by omega)]

theorem take_four {l : List UInt8} {o : Nat} (h : o + 4 ≤ l.length) :
    (l.drop o).take 4 = [l.getD o 0, l.getD (o + 1) 0, l.getD (o + 2) 0, l.getD (o + 3) 0] := by
  rw [List.getD_eq_getElem _ _ (by omega), List.getD_eq_getElem _ _ (by omega),
    List.getD_eq_getElem _ _ (by omega), List.getD_eq_getElem _ _ (by omega),
    List.drop_eq_getElem_cons (by omega), List.drop_eq_getElem_cons (by omega),
    List.drop_eq_getElem_cons (by omega), List.drop_eq_getElem_cons (by omega)]
  rfl

/-- A word of a block that stands in front of other bits. -/
theorem blockWord_words {block : List UInt8} (hlen : block.length = 64) (rest : List Bool)
    {j : Nat} (hj : j < 16) :
    Fips.blockWord (bytesBits block ++ rest) 0 j = words block j := by
  have hbits : ((bytesBits block ++ rest).drop (512 * 0 + 32 * j)).take 32 =
      bytesBits ((block.drop (j * 4)).take 4) := by
    rw [bytesBits_take, bytesBits_drop, show 8 * (j * 4) = 512 * 0 + 32 * j by omega,
      List.drop_append_of_le_length (by rw [length_bytesBits]; omega),
      List.take_append_of_le_length (by rw [List.length_drop, length_bytesBits]; omega)]
  rw [Fips.blockWord, hbits, take_four (by omega), words, readBe32, or_bytes]

theorem blockWord_succ {block : List UInt8} (hlen : block.length = 64) (rest : List Bool)
    (i j : Nat) :
    Fips.blockWord (bytesBits block ++ rest) (i + 1) j = Fips.blockWord rest i j := by
  have hskip : 512 * (i + 1) + 32 * j = (bytesBits block).length + (512 * i + 32 * j) := by
    rw [length_bytesBits, hlen]
    omega
  rw [Fips.blockWord, hskip, List.drop_length_add_append, ← Fips.blockWord]

/-- The standard's computation on whole blocks of bytes. -/
theorem foldl_blocks {blocks : List (List UInt8)} (hlen : ∀ block ∈ blocks, block.length = 64)
    (s : Words) :
    (List.range blocks.length).foldl
        (fun s i => Fips.compress s (Fips.blockWord (bytesBits blocks.flatten) i)) s =
      blocks.foldl sha256Transform s := by
  induction blocks generalizing s with
  | nil => rfl
  | cons block blocks ih =>
    have hblock := hlen block List.mem_cons_self
    have hfirst : Fips.compress s (Fips.blockWord (bytesBits (block :: blocks).flatten) 0) =
        sha256Transform s block := by
      rw [sha256Transform_eq, List.flatten_cons, bytesBits_append]
      exact Fips.compress_congr (fun j hj => blockWord_words hblock _ hj) s
    have hnext (i : Nat) : Fips.blockWord (bytesBits (block :: blocks).flatten) (i + 1) =
        Fips.blockWord (bytesBits blocks.flatten) i := by
      funext j
      rw [List.flatten_cons, bytesBits_append, blockWord_succ hblock]
    rw [List.length_cons, List.range_succ_eq_map, List.foldl_cons, List.foldl_map, hfirst]
    simp only [hnext]
    rw [ih (fun b hb => hlen b (List.mem_cons_of_mem _ hb)), List.foldl_cons]

/-- The bytes of a number are its bits. -/
theorem bytesBits_writeBe32 (value : UInt32) :
    bytesBits (writeBe32 value) = bitsOfNat 32 value.toNat := by
  have hbyte {k : UInt32} {n : Nat} (hk : k.toNat = n) (hn : n < 32) :
      bitsOfNat 8 (value >>> k).toUInt8.toNat = bitsOfNat 8 (value.toNat / 2 ^ n) := by
    rw [UInt32.toNat_toUInt8, bitsOfNat_mod, UInt32.toNat_shiftRight, hk, Nat.mod_eq_of_lt hn,
      Nat.shiftRight_eq_div_pow]
  have hlast : bitsOfNat 8 value.toUInt8.toNat = bitsOfNat 8 value.toNat := by
    rw [UInt32.toNat_toUInt8, bitsOfNat_mod]
  rw [writeBe32, bytesBits_cons, bytesBits_cons, bytesBits_cons, bytesBits_cons, bytesBits_nil,
    List.append_nil, hbyte (n := 24) rfl (by decide), hbyte (n := 16) rfl (by decide),
    hbyte (n := 8) rfl (by decide), hlast,
    bitsOfNat_add 8 24, bitsOfNat_add 8 16, bitsOfNat_add 8 8]

theorem bytesBits_lengthBytes (bits : UInt64) :
    bytesBits (lengthBytes bits) = bitsOfNat 64 bits.toNat := by
  have hbyte (i : Nat) : bitsOfNat 8 (bits >>> UInt64.ofNat (56 - i * 8)).toUInt8.toNat =
      bitsOfNat 8 (bits.toNat / 2 ^ (56 - i * 8)) := by
    rw [UInt64.toNat_toUInt8, bitsOfNat_mod, UInt64.toNat_shiftRight, UInt64.toNat_ofNat',
      Nat.mod_eq_of_lt (show 56 - i * 8 < 2 ^ 64 by omega),
      Nat.mod_eq_of_lt (show 56 - i * 8 < 64 by omega), Nat.shiftRight_eq_div_pow]
  rw [lengthBytes, bytesBits, List.flatMap_map]
  simp only [hbyte]
  rw [bitsOfNat_add 8 56, bitsOfNat_add 8 48, bitsOfNat_add 8 40, bitsOfNat_add 8 32,
    bitsOfNat_add 8 24, bitsOfNat_add 8 16, bitsOfNat_add 8 8]
  simp [List.range, List.range.loop]

/-! ## Padding -/

theorem zeroBits_eq (n : Nat) :
    Fips.zeroBits (8 * n) = 8 * ((119 - n % 64) % 64) + 7 := by
  apply IsLeast.csInf_eq
  constructor
  · show (8 * n + 1 + (8 * ((119 - n % 64) % 64) + 7)) % 512 = 448
    omega
  · intro k hk
    have hk : (8 * n + 1 + k) % 512 = 448 := hk
    omega

/-- The standard's padding, in bytes. -/
def paddedBytes (message : List UInt8) (bits : UInt64) : List UInt8 :=
  message ++ [0x80] ++ List.replicate ((119 - message.length % 64) % 64) 0 ++ lengthBytes bits

theorem padded_bytesBits (hbits : bits.toNat = 8 * message.length) :
    Fips.padded (bytesBits message) = bytesBits (paddedBytes message bits) := by
  have hmark : bytesBits [0x80] = [true] ++ List.replicate 7 false := by decide
  rw [paddedBytes, bytesBits_append, bytesBits_append, bytesBits_append, bytesBits_zeros,
    bytesBits_lengthBytes, hmark, hbits, Fips.padded, length_bytesBits, zeroBits_eq,
    Nat.add_comm (8 * _) 7, ← List.replicate_append_replicate]
  simp only [List.append_assoc]

/-! ## The stream -/

/-- The context has taken in `message`: full blocks through the
compression, and the rest in the buffer. -/
def Absorbed (c : Sha256Context) (message : List UInt8) : Prop :=
  ∃ blocks : List (List UInt8), (∀ block ∈ blocks, block.length = 64) ∧
    message = blocks.flatten ++ c.block ∧
      c.state = blocks.foldl sha256Transform sha256Init.state

theorem absorbed_init : Absorbed sha256Init [] := by
  refine ⟨[], ?_, rfl, rfl⟩
  intro block hblock
  cases hblock

/-- A turn that fills the buffer, and the block goes through. -/
theorem Absorbed.full {taken : List UInt8}
    (h : Absorbed c message) (hfull : (c.block ++ taken).length = 64) :
    Absorbed ⟨sha256Transform c.state (c.block ++ taken), bits, [], by decide⟩
      (message ++ taken) := by
  obtain ⟨blocks, hlen, rfl, hstate⟩ := h
  refine ⟨blocks ++ [c.block ++ taken], ?_, ?_, ?_⟩
  · intro block hblock
    rcases List.mem_append.mp hblock with hmem | hmem
    · exact hlen block hmem
    · rw [List.mem_singleton.mp hmem, hfull]
  · simp only [List.flatten_append, List.flatten_singleton, List.append_nil, List.append_assoc]
  · rw [List.foldl_append, ← hstate]
    rfl

/-- A turn that leaves room in the buffer. -/
theorem Absorbed.part {taken : List UInt8}
    (h : Absorbed c message) (hroom : (c.block ++ taken).length < 64) :
    Absorbed ⟨c.state, bits, c.block ++ taken, hroom⟩ (message ++ taken) := by
  obtain ⟨blocks, hlen, rfl, hstate⟩ := h
  exact ⟨blocks, hlen, List.append_assoc _ _ _, hstate⟩

/-- The loop of `sha256_update` takes in all it is given, and does not
touch the length. -/
theorem updateLoop_absorbed (c : Sha256Context) (data message : List UInt8)
    (h : Absorbed c message) :
    Absorbed (updateLoop c data) (message ++ data) ∧ (updateLoop c data).bitCount = c.bitCount := by
  fun_induction updateLoop c data generalizing message with
  | case1 c data hdata =>
    rw [List.eq_nil_of_length_eq_zero hdata, List.append_nil]
    exact ⟨h, rfl⟩
  | case2 c data hdata take block hfull ih =>
    have hstep := ih _ (h.full hfull)
    rwa [List.append_assoc, List.take_append_drop] at hstep
  | case3 c data hdata take block hfull ih =>
    have hstep := ih _ (h.part _)
    rwa [List.append_assoc, List.take_append_drop] at hstep

theorem sha256Update_absorbed (h : Absorbed c message) (data : List UInt8) :
    Absorbed (sha256Update c data) (message ++ data) ∧
      (sha256Update c data).bitCount = c.bitCount + UInt64.ofNat data.length * 8 :=
  updateLoop_absorbed _ data message h

/-- Any number of calls take in their parts one behind the other. -/
theorem foldl_update_absorbed (parts : List (List UInt8)) (h : Absorbed c message)
    (hbits : c.bitCount = UInt64.ofNat (8 * message.length)) :
    Absorbed (parts.foldl sha256Update c) (message ++ parts.flatten) ∧
      (parts.foldl sha256Update c).bitCount =
        UInt64.ofNat (8 * (message ++ parts.flatten).length) := by
  induction parts generalizing c message with
  | nil =>
    rw [List.flatten_nil, List.append_nil]
    exact ⟨h, hbits⟩
  | cons part parts ih =>
    obtain ⟨hnext, hcount⟩ := sha256Update_absorbed h part
    have hbits' : (sha256Update c part).bitCount = UInt64.ofNat (8 * (message ++ part).length) := by
      rw [hcount, hbits, List.length_append, Nat.mul_add, UInt64.ofNat_add, Nat.mul_comm 8 part.length,
        UInt64.ofNat_mul part.length 8]
      rfl
    rw [List.flatten_cons, ← List.append_assoc]
    exact ih hnext hbits'

/-! ## The digest -/

theorem length_flatten_blocks {blocks : List (List UInt8)}
    (hlen : ∀ block ∈ blocks, block.length = 64) :
    blocks.flatten.length = 64 * blocks.length := by
  induction blocks with
  | nil => rfl
  | cons block blocks ih =>
    rw [List.flatten_cons, List.length_append, hlen block List.mem_cons_self,
      ih fun b hb => hlen b (List.mem_cons_of_mem _ hb), List.length_cons]
    omega

@[simp] theorem length_lengthBytes (bits : UInt64) : (lengthBytes bits).length = 8 := by
  rw [lengthBytes, List.length_map, List.length_range]

/-- What `sha256_final` puts behind the message is the standard's padding:
with the length in the block of the end mark, or with a block between. -/
theorem final_blocks (h : Absorbed c message) :
    ∃ blocks : List (List UInt8), (∀ block ∈ blocks, block.length = 64) ∧
      blocks.flatten = paddedBytes message c.bitCount ∧
        (sha256Final c).1 =
          (blocks.foldl sha256Transform sha256Init.state).toList.flatMap writeBe32 := by
  obtain ⟨blocks, hlen, rfl, hstate⟩ := h
  have hroom := c.room
  have hrest : (blocks.flatten ++ c.block).length % 64 = c.block.length := by
    rw [List.length_append, length_flatten_blocks hlen]
    omega
  rw [paddedBytes, hrest]
  by_cases hlong : 56 < (c.block ++ [0x80]).length
  · have hlong' := hlong
    rw [List.length_append, List.length_singleton] at hlong'
    refine ⟨blocks ++ [c.block ++ [0x80] ++ List.replicate (64 - (c.block ++ [0x80]).length) 0,
      List.replicate 56 0 ++ lengthBytes c.bitCount], ?_, ?_, ?_⟩
    · intro block hblock
      rcases List.mem_append.mp hblock with hmem | hmem
      · exact hlen block hmem
      · rcases List.mem_pair.mp hmem with rfl | rfl
        · simp only [List.length_append, List.length_singleton, List.length_replicate]
          omega
        · rw [List.length_append, List.length_replicate, length_lengthBytes]
    · have hzeros : (119 - c.block.length) % 64 = 64 - (c.block.length + 1) + 56 := by omega
      rw [hzeros, ← List.replicate_append_replicate]
      simp only [List.flatten_append, List.flatten_cons, List.flatten_nil, List.append_nil,
        List.append_assoc, List.length_append, List.length_singleton]
    · rw [sha256Final, finalMark, if_pos hlong, List.foldl_append, ← hstate]
      rfl
  · have hshort := hlong
    rw [List.length_append, List.length_singleton] at hshort
    refine ⟨blocks ++ [c.block ++ [0x80] ++ List.replicate (56 - (c.block ++ [0x80]).length) 0 ++
      lengthBytes c.bitCount], ?_, ?_, ?_⟩
    · intro block hblock
      rcases List.mem_append.mp hblock with hmem | hmem
      · exact hlen block hmem
      · rw [List.mem_singleton.mp hmem]
        simp only [List.length_append, List.length_singleton, List.length_replicate,
          length_lengthBytes]
        omega
    · have hzeros : (119 - c.block.length) % 64 = 56 - (c.block.length + 1) := by omega
      rw [hzeros]
      simp only [List.flatten_append, List.flatten_singleton, List.append_assoc,
        List.length_append, List.length_singleton]
    · rw [sha256Final, finalMark, if_neg hlong, List.foldl_append, ← hstate]
      rfl

theorem sha256Final_bits (h : Absorbed c message)
    (hbits : c.bitCount.toNat = 8 * message.length) :
    bytesBits (sha256Final c).1 = Fips.sha256 (bytesBits message) := by
  obtain ⟨blocks, hlen, hflat, hdigest⟩ := final_blocks h
  have hcount : (bytesBits blocks.flatten).length / 512 = blocks.length := by
    rw [length_bytesBits, length_flatten_blocks hlen]
    omega
  rw [Fips.sha256, padded_bytesBits hbits, ← hflat, hcount, foldl_blocks hlen, ← initialHash_eq,
    hdigest, bytesBits_flatMap]
  simp only [bytesBits_writeBe32]

/-- A message below `2 ^ 61` bytes has the digest of FIPS 180-4, and every
way of passing it to `sha256_update` in parts ends in that digest. -/
theorem sha256_conforms (data : List UInt8) (hlen : data.length < 2 ^ 61) :
    ∃ digest : Digest, tcg2Sha256 data = some digest ∧
      bytesBits digest.1 = Fips.sha256 (bytesBits data) ∧
        ∀ parts : List (List UInt8), parts.flatten = data →
          sha256Final (parts.foldl sha256Update sha256Init) = digest := by
  have hparts : ∀ parts : List (List UInt8), parts.flatten = data →
      bytesBits (sha256Final (parts.foldl sha256Update sha256Init)).1 =
        Fips.sha256 (bytesBits data) := by
    rintro parts rfl
    obtain ⟨habsorbed, hcount⟩ := foldl_update_absorbed parts absorbed_init rfl
    rw [List.nil_append] at habsorbed hcount
    apply sha256Final_bits habsorbed
    rw [hcount, UInt64.toNat_ofNat', Nat.mod_eq_of_lt (by omega)]
  have hwhole := hparts [data] (by rw [List.flatten_singleton])
  refine ⟨sha256Final (sha256Update sha256Init data), ?_, hwhole, ?_⟩
  · rw [tcg2Sha256, if_neg (by omega), sha256Of]
  · intro parts hflat
    apply Subtype.ext
    exact bytesBits_inj ((hparts parts hflat).trans hwhole.symm)

/-- The three bytes of the standard's first example. -/
theorem sha256_conforms_abc :
    ∃ digest : Digest, tcg2Sha256 [0x61, 0x62, 0x63] = some digest ∧
      bytesBits digest.1 = Fips.sha256 (bytesBits [0x61, 0x62, 0x63]) ∧
        ∀ parts : List (List UInt8), parts.flatten = [0x61, 0x62, 0x63] →
          sha256Final (parts.foldl sha256Update sha256Init) = digest :=
  sha256_conforms [0x61, 0x62, 0x63] (by decide)

end BearBoot.Tcg2
