import BearBoot.Machine.Mem
import Mathlib.Data.BitVec

/-!
# CRC-64/XZ, bit by bit and by table

Every structure that crosses the boot handoff carries a CRC-64/XZ of its
own bytes with the checksum field zeroed. The C header
(`include/bbp/bbp_crc64.h`) and the Rust crate (`crc.rs`) fold a byte with
eight conditional shifts; the Python envelope (`tools/bbp_v2_envelope.py`)
looks the eight shifts up in a table.

A shift is linear in exclusive or (`crcBit_xor`), and a remainder whose
low bits are clear only moves down (`crcBits_of_low_clear`). Eight shifts are
therefore the table's word for the low octet and the rest moved down one
octet (`crcBits_eight`), which is the table step. `pyCrc64_eq` is the
agreement on every byte string.

Nothing here says that a CRC detects anything: a checksum is a function of
the bytes, and most laws above this module only use that. What it does
detect is in `Burst`.
-/

namespace BearBoot

open Machine

/-! ## The bitwise fold -/

/-- `BBP_CRC64_POLY_REFLECTED`. -/
def crc64PolyReflected : BitVec 64 := 0xC96C5795D7870F42#64

/-- `bbp_crc64_init`. -/
def crc64Init : BitVec 64 := BitVec.allOnes 64

/-- One turn of the inner loop: the mask is all ones exactly when the low
bit is set. -/
def crcBit (crc : BitVec 64) : BitVec 64 :=
  (crc >>> 1) ^^^ (crc64PolyReflected &&& -(crc &&& 1#64))

/-- `n` turns of the inner loop. -/
def crcBits : Nat → BitVec 64 → BitVec 64
  | 0, crc => crc
  | n + 1, crc => crcBits n (crcBit crc)

/-- One byte folded in. -/
def crcByte (crc : BitVec 64) (b : UInt8) : BitVec 64 :=
  crcBits 8 (crc ^^^ b.toBitVec.setWidth 64)

/-- `bbp_crc64_update`. -/
def crc64Update (crc : BitVec 64) (data : List UInt8) : BitVec 64 :=
  data.foldl crcByte crc

/-- `bbp_crc64_final`. -/
def crc64Final (crc : BitVec 64) : BitVec 64 := crc ^^^ BitVec.allOnes 64

/-- `bbp_crc64`, the one-shot form, as the number a field stores. -/
def crc64 (data : List UInt8) : Nat := (crc64Final (crc64Update crc64Init data)).toNat

theorem crc64_lt (data : List UInt8) : crc64 data < 2 ^ 64 := (crc64Final _).isLt

/-- Folding in parts is folding at once. -/
theorem crc64Update_append (crc : BitVec 64) (a b : List UInt8) :
    crc64Update crc (a ++ b) = crc64Update (crc64Update crc a) b :=
  List.foldl_append

/-! ## A structure with its checksum field zeroed -/

/-- The CRC of the `len` bytes at `base` with the eight bytes at `off` read
as zero: fold the front, eight zeros, and the back. Every checksum of the
protocol is this fold; the callers differ in what they answer when `len`
does not reach past the field. -/
def crcSpliced (m : Mem) (base len off : Nat) : Nat :=
  let c := crc64Update crc64Init (m.bytes base off)
  let c := crc64Update c (List.replicate 8 0)
  let c := crc64Update c (m.bytes (base + off + 8) (len - off - 8))
  (crc64Final c).toNat

theorem crcSpliced_lt (m : Mem) (base len off : Nat) : crcSpliced m base len off < 2 ^ 64 :=
  (crc64Final _).isLt

/-- The splice never looks at the checksum field. -/
theorem crcSpliced_congr {m m' : Mem} {base base' len off : Nat}
    (hfront : ∀ i < off, m (base + i) = m' (base' + i))
    (hback : ∀ i, off + 8 ≤ i → i < len → m (base + i) = m' (base' + i)) :
    crcSpliced m base len off = crcSpliced m' base' len off := by
  have hfront' : m.bytes base off = m'.bytes base' off := Mem.bytes_congr hfront
  have hback' : m.bytes (base + off + 8) (len - off - 8) =
      m'.bytes (base' + off + 8) (len - off - 8) := by
    apply Mem.bytes_congr
    intro i hi
    have := hback (off + 8 + i) (by omega) (by omega)
    simpa [Nat.add_assoc] using this
  simp only [crcSpliced, hfront', hback']

theorem crcSpliced_based (m : Mem) (p a len off : Nat) :
    crcSpliced (m.based p) a len off = crcSpliced m (p + a) len off :=
  crcSpliced_congr (fun i _ => by rw [Mem.based_apply, Nat.add_assoc])
    fun i _ _ => by rw [Mem.based_apply, Nat.add_assoc]

/-- A structure sealed with its own splice verifies. -/
theorem crcSpliced_seal (m : Mem) (base len off : Nat) :
    (m.putLE (base + off) (crcSpliced m base len off) 8).getLE (base + off) 8 =
      crcSpliced (m.putLE (base + off) (crcSpliced m base len off) 8) base len off := by
  rw [Mem.getLE_putLE (crcSpliced_lt m base len off)]
  apply crcSpliced_congr
  · intro i hi
    exact (Mem.putLE_frame (by omega)).symm
  · intro i hlo hhi
    exact (Mem.putLE_frame (by omega)).symm

/-- The splice over a memory is the one-shot CRC of the bytes with the
field overwritten by zeros. -/
theorem crcSpliced_eq_crc64 (m : Mem) (base len off : Nat) :
    crcSpliced m base len off =
      crc64 (m.bytes base off ++ List.replicate 8 0 ++
        m.bytes (base + off + 8) (len - off - 8)) := by
  simp only [crcSpliced, crc64, crc64Update_append]

/-! ## Linearity -/

private theorem crcMask (x : BitVec 64) :
    -(x &&& 1#64) = if x.getLsbD 0 then BitVec.allOnes 64 else 0#64 := by
  rw [BitVec.and_one_eq_setWidth_ofBool_getLsbD]
  cases x.getLsbD 0 <;> rfl

theorem crcBit_eq (x : BitVec 64) :
    crcBit x = if x.getLsbD 0 then (x >>> 1) ^^^ crc64PolyReflected else x >>> 1 := by
  rw [crcBit, crcMask]
  split
  · rw [BitVec.and_allOnes]
  · rw [BitVec.and_zero, BitVec.xor_zero]

/-- A shift of the remainder is linear in exclusive or. -/
theorem crcBit_xor (x y : BitVec 64) : crcBit (x ^^^ y) = crcBit x ^^^ crcBit y := by
  simp only [crcBit_eq, BitVec.getLsbD_xor, BitVec.ushiftRight_xor_distrib]
  generalize crc64PolyReflected = q
  generalize x >>> 1 = x'
  generalize y >>> 1 = y'
  cases x.getLsbD 0 <;> cases y.getLsbD 0
  · rfl
  · exact BitVec.xor_assoc x' y' q
  · change x' ^^^ y' ^^^ q = x' ^^^ q ^^^ y'
    rw [BitVec.xor_assoc, BitVec.xor_comm y' q, BitVec.xor_assoc]
  · change x' ^^^ y' = x' ^^^ q ^^^ (y' ^^^ q)
    rw [BitVec.xor_assoc x' q, ← BitVec.xor_assoc q y' q, BitVec.xor_comm q y',
      BitVec.xor_assoc y', BitVec.xor_self, BitVec.xor_zero]

theorem crcBits_xor (n : Nat) (x y : BitVec 64) :
    crcBits n (x ^^^ y) = crcBits n x ^^^ crcBits n y := by
  induction n generalizing x y with
  | zero => rfl
  | succ n ih => simp only [crcBits, crcBit_xor, ih]

/-- A remainder whose `n` low bits are clear only moves down. -/
theorem crcBits_of_low_clear (n : Nat) (x : BitVec 64)
    (hlow : ∀ i < n, x.getLsbD i = false) : crcBits n x = x >>> n := by
  induction n generalizing x with
  | zero => simp [crcBits]
  | succ n ih =>
    have hbit : crcBit x = x >>> 1 := by rw [crcBit_eq, hlow 0 (by omega)]; rfl
    rw [crcBits, hbit, ih _ fun i hi => ?_, ← BitVec.shiftRight_add, Nat.add_comm]
    rw [BitVec.getLsbD_ushiftRight]
    exact hlow (1 + i) (by omega)

/-- A word is its low octet and the rest put back in place. -/
private theorem octet_xor_rest (x : BitVec 64) :
    x = (x &&& 255#64) ^^^ ((x >>> 8) <<< 8) := by
  apply BitVec.eq_of_getLsbD_eq
  intro i hi
  rw [BitVec.getLsbD_xor, BitVec.getLsbD_and, BitVec.getLsbD_shiftLeft, BitVec.getLsbD_ushiftRight,
    BitVec.getLsbD_ofNat, show (255 : Nat) = 2 ^ 8 - 1 from rfl, Nat.testBit_two_pow_sub_one]
  by_cases h : i < 8
  · simp [h, hi]
  · simp [h, hi, show 8 + (i - 8) = i by omega]

private theorem rest_down (x : BitVec 64) : ((x >>> 8) <<< 8) >>> 8 = x >>> 8 := by
  apply BitVec.eq_of_getLsbD_eq
  intro i _
  rw [BitVec.getLsbD_ushiftRight, BitVec.getLsbD_shiftLeft]
  by_cases h : 8 + i < 64
  · simp [h]
  · have hout : (x >>> 8).getLsbD i = false := by
      rw [BitVec.getLsbD_ushiftRight]
      exact BitVec.getLsbD_of_ge x (8 + i) (by omega)
    simp [h, hout]

/-- Eight shifts: those of the low octet, and the rest moved down one
octet. -/
theorem crcBits_eight (x : BitVec 64) :
    crcBits 8 x = crcBits 8 (x &&& 255#64) ^^^ (x >>> 8) := by
  have hlow : ∀ i < 8, ((x >>> 8) <<< 8).getLsbD i = false := by
    intro i hi
    rw [BitVec.getLsbD_shiftLeft]
    simp [hi]
  calc crcBits 8 x = crcBits 8 ((x &&& 255#64) ^^^ ((x >>> 8) <<< 8)) := by
        rw [← octet_xor_rest]
    _ = crcBits 8 (x &&& 255#64) ^^^ crcBits 8 ((x >>> 8) <<< 8) := crcBits_xor 8 _ _
    _ = crcBits 8 (x &&& 255#64) ^^^ (x >>> 8) := by
        rw [crcBits_of_low_clear 8 _ hlow, rest_down]

/-! ## The table -/

/-- One turn of the loop that fills the Python table. -/
def pyCrcTurn (crc : Nat) : Nat :=
  (crc >>> 1) ^^^ (if crc &&& 1 ≠ 0 then 0xC96C5795D7870F42 else 0)

/-- `n` turns of the loop that fills the Python table. -/
def pyCrcTurns : Nat → Nat → Nat
  | 0, crc => crc
  | n + 1, crc => pyCrcTurns n (pyCrcTurn crc)

/-- `CRC64_TABLE`: eight turns of each octet. -/
def crc64Table : List Nat := (List.range 256).map (pyCrcTurns 8)

/-- One byte by the table. -/
def pyCrcByte (crc : Nat) (b : UInt8) : Nat :=
  crc64Table.getD ((crc ^^^ b.toNat) &&& 0xff) 0 ^^^ (crc >>> 8)

/-- `_crc64` of the Python envelope. -/
def pyCrc64 (data : List UInt8) : Nat :=
  data.foldl pyCrcByte (2 ^ 64 - 1) ^^^ (2 ^ 64 - 1)

private theorem pyCrcTurn_toNat (x : BitVec 64) : pyCrcTurn x.toNat = (crcBit x).toNat := by
  have hbit : x.getLsbD 0 = decide (x.toNat &&& 1 ≠ 0) := by
    rw [BitVec.getLsbD, Nat.testBit_zero, Nat.and_one_is_mod]
    rcases Nat.mod_two_eq_zero_or_one x.toNat with h | h <;> simp [h]
  rw [crcBit_eq, hbit, pyCrcTurn]
  by_cases h : x.toNat &&& 1 ≠ 0
  · rw [if_pos h, if_pos (by simpa using h)]
    rfl
  · rw [if_neg h, if_neg (by simpa using h), Nat.xor_zero]
    rfl

theorem pyCrcTurns_toNat (n : Nat) (x : BitVec 64) :
    pyCrcTurns n x.toNat = (crcBits n x).toNat := by
  induction n generalizing x with
  | zero => rfl
  | succ n ih => rw [pyCrcTurns, pyCrcTurn_toNat, ih, crcBits]

/-- One byte by the table is one byte by the loop. -/
theorem pyCrcByte_toNat (x : BitVec 64) (b : UInt8) :
    pyCrcByte x.toNat b = (crcByte x b).toNat := by
  have hb : (b.toBitVec.setWidth 64).toNat = b.toNat := by
    have := b.toNat_lt
    simp
  have hdown : (x ^^^ b.toBitVec.setWidth 64) >>> 8 = x >>> 8 := by
    have hzero : b.toBitVec.setWidth 64 >>> 8 = 0#64 := by
      apply BitVec.eq_of_toNat_eq
      rw [BitVec.toNat_ushiftRight, hb, Nat.shiftRight_eq_div_pow,
        Nat.div_eq_of_lt b.toNat_lt, BitVec.toNat_ofNat]
    rw [BitVec.ushiftRight_xor_distrib, hzero, BitVec.xor_zero]
  have hindex : (x.toNat ^^^ b.toNat) &&& 0xff = ((x ^^^ b.toBitVec.setWidth 64) &&& 255#64).toNat := by
    rw [BitVec.toNat_and, BitVec.toNat_xor, hb]
    rfl
  have hlt : ((x ^^^ b.toBitVec.setWidth 64) &&& 255#64).toNat < 256 := by
    rw [BitVec.toNat_and]
    exact Nat.lt_succ_of_le Nat.and_le_right
  rw [crcByte, crcBits_eight, hdown, BitVec.toNat_xor, ← pyCrcTurns_toNat, pyCrcByte, hindex,
    crc64Table, List.getD_eq_getElem?_getD, List.getElem?_map, List.getElem?_range hlt,
    BitVec.toNat_ushiftRight]
  rfl

/-- The table-driven CRC is the bitwise one, on every byte string. -/
theorem pyCrc64_eq (data : List UInt8) : pyCrc64 data = crc64 data := by
  have hfold : ∀ x : BitVec 64,
      data.foldl pyCrcByte x.toNat = (crc64Update x data).toNat := by
    induction data with
    | nil => intro x; rfl
    | cons b bs ih =>
      intro x
      rw [List.foldl_cons, pyCrcByte_toNat, ih]
      rfl
  have hstart := hfold crc64Init
  rw [pyCrc64, crc64, crc64Final, BitVec.toNat_xor, ← hstart]
  rfl

end BearBoot
