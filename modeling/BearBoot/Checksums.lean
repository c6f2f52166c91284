import BearBoot.Bbpctl.Evidence
import BearBoot.Kernel.Rust
import BearBoot.Stamp.Agree

/-!
# Every CRC-64 of the repository is the same function

Five places of the repository compute CRC-64/XZ, each in its own way. The C
header and the Rust crate shift bit by bit, on words of 64 bits; the stamper
shifts bit by bit on integers that have no width; the envelope tool and
`bbpctl` look a byte's shifts up in a table. What each answers is what the
others answer, on every byte string.

The C and the Rust form are also used in parts: a structure is folded up to
its checksum field, eight zeros are folded in for the field, and the rest is
folded behind them. `crc64Update_flatten` says that the parts do not matter,
and `crcSpliced_eq_crc64` that the splice is the CRC of the bytes with the
field replaced.
-/

set_option autoImplicit false

namespace BearBoot

open Machine

/-! ## `crc.rs` -/

namespace Crate

/-- `CRC64_POLY_REFLECTED`. -/
def crc64PolyReflected : UInt64 := 0xC96C5795D7870F42

/-- `crc64_init`. -/
def crc64Init : UInt64 := 0xFFFFFFFFFFFFFFFF

/-- One turn of the inner loop. -/
def crc64Turn (state : UInt64) : UInt64 :=
  let mask := 0 - (state &&& 1)
  (state >>> 1) ^^^ (crc64PolyReflected &&& mask)

/-- `n` turns of the inner loop. -/
def crc64Turns : Nat → UInt64 → UInt64
  | 0, state => state
  | n + 1, state => crc64Turns n (crc64Turn state)

/-- `crc64_update`. -/
def crc64Update (state : UInt64) (bytes : List UInt8) : UInt64 :=
  bytes.foldl (fun state byte => crc64Turns 8 (state ^^^ byte.toUInt64)) state

/-- `crc64_finalize`. -/
def crc64Finalize (state : UInt64) : UInt64 := state ^^^ 0xFFFFFFFFFFFFFFFF

/-- `crc64`. -/
def crc64 (bytes : List UInt8) : UInt64 := crc64Finalize (crc64Update crc64Init bytes)

/-- `struct Crc64`. -/
structure Crc64 where
  state : UInt64

/-- `Crc64::new`. -/
def Crc64.new : Crc64 := ⟨crc64Init⟩

/-- `Crc64::update`. -/
def Crc64.update (crc : Crc64) (bytes : List UInt8) : Crc64 := ⟨crc64Update crc.state bytes⟩

/-- `Crc64::finalize`. -/
def Crc64.finalize (crc : Crc64) : UInt64 := crc64Finalize crc.state

theorem crc64Turn_toBitVec (state : UInt64) : (crc64Turn state).toBitVec = crcBit state.toBitVec := by
  have hdown : (state >>> 1).toBitVec = state.toBitVec >>> 1 := rfl
  have hmask : (0 - (state &&& 1)).toBitVec = -(state.toBitVec &&& 1#64) := BitVec.zero_sub _
  rw [crc64Turn, UInt64.toBitVec_xor, UInt64.toBitVec_and, hdown, hmask, crcBit]
  rfl

theorem crc64Turns_toBitVec (n : Nat) (state : UInt64) :
    (crc64Turns n state).toBitVec = crcBits n state.toBitVec := by
  induction n generalizing state with
  | zero => rfl
  | succ n ih => rw [crc64Turns, ih, crc64Turn_toBitVec, crcBits]

/-- The crate's fold is the header's. -/
theorem crc64Update_toBitVec (state : UInt64) (bytes : List UInt8) :
    (crc64Update state bytes).toBitVec = BearBoot.crc64Update state.toBitVec bytes := by
  induction bytes generalizing state with
  | nil => rfl
  | cons byte bytes ih =>
    have hbyte : (crc64Turns 8 (state ^^^ byte.toUInt64)).toBitVec = crcByte state.toBitVec byte := by
      rw [crc64Turns_toBitVec, UInt64.toBitVec_xor]
      rfl
    change (crc64Update (crc64Turns 8 (state ^^^ byte.toUInt64)) bytes).toBitVec = _
    rw [ih, hbyte]
    rfl

theorem crc64Finalize_toNat (state : UInt64) :
    (crc64Finalize state).toNat = (crc64Final state.toBitVec).toNat := rfl

end Crate

/-! ## `bbpctl.py` -/

/-- `CRC64_TABLE` and `crc64_xz` of `bbpctl`, line for line those of the
envelope tool. -/
def Bbpctl.crc64Xz (data : List UInt8) : Nat := pyCrc64 data

/-! ## In parts -/

/-- Folding in any number of parts is folding at once. -/
theorem crc64Update_flatten (crc : BitVec 64) (parts : List (List UInt8)) :
    parts.foldl crc64Update crc = crc64Update crc parts.flatten := by
  induction parts generalizing crc with
  | nil => rfl
  | cons part parts ih => rw [List.foldl_cons, ih, List.flatten_cons, crc64Update_append]

theorem Crate.update_state (crc : Crate.Crc64) (parts : List (List UInt8)) :
    (parts.foldl Crate.Crc64.update crc).state.toBitVec =
      parts.foldl BearBoot.crc64Update crc.state.toBitVec := by
  induction parts generalizing crc with
  | nil => rfl
  | cons part parts ih =>
    rw [List.foldl_cons, ih, List.foldl_cons]
    exact congrArg (fun crc => parts.foldl BearBoot.crc64Update crc)
      (Crate.crc64Update_toBitVec crc.state part)

/-- A message with the eight bytes at `offset` replaced by zeros. -/
def zeroedField (data : List UInt8) (offset : Nat) : List UInt8 :=
  data.take offset ++ List.replicate 8 0 ++ data.drop (offset + 8)

/-- The splice is the CRC of the message with its field replaced. -/
theorem crcSpliced_zeroed (m : Mem) (base : Nat) {len offset : Nat} (h : offset + 8 ≤ len) :
    crcSpliced m base len offset = crc64 (zeroedField (m.bytes base len) offset) := by
  obtain ⟨rest, rfl⟩ := Nat.exists_eq_add_of_le h
  have hback : offset + 8 + rest - offset - 8 = rest := by omega
  have hfront : (m.bytes base (offset + 8 + rest)).take offset = m.bytes base offset := by
    rw [Nat.add_assoc, bytes_add, List.take_left' (Mem.bytes_length _ _ _)]
  rw [zeroedField, hfront, bytes_add, List.drop_left' (Mem.bytes_length _ _ _), crcSpliced_eq_crc64,
    hback, Nat.add_assoc base]

/-- The implementations agree. -/
theorem crc64_implementations_agree :
    (∀ data : List UInt8, Bbpctl.crc64Xz data = crc64 data ∧ pyCrc64 data = crc64 data ∧
      (Crate.crc64 data).toNat = crc64 data ∧ Stamp.crc64Xz data = crc64 data) ∧
    (∀ parts : List (List UInt8),
      (crc64Final (parts.foldl crc64Update crc64Init)).toNat = crc64 parts.flatten ∧
      (parts.foldl Crate.Crc64.update Crate.Crc64.new).finalize.toNat = crc64 parts.flatten) ∧
    (∀ (m : Mem) (base len offset : Nat), offset + 8 ≤ len →
      crcSpliced m base len offset = crc64 (zeroedField (m.bytes base len) offset)) ∧
    ∀ (data : List UInt8) (offset : Nat) (h : offset + 8 ≤ data.length),
      Kernel.Rust.crc64ZeroedField data offset = .ok (crc64 (zeroedField data offset)) ∧
      Bbpctl.checksumWithZero data offset h = crc64 (zeroedField data offset) := by
  refine ⟨fun data => ⟨pyCrc64_eq data, pyCrc64_eq data, ?_, Stamp.crc64Xz_eq data⟩, fun parts => ⟨?_, ?_⟩,
    fun m base len offset h => ?_, fun data offset h => ⟨?_, ?_⟩⟩
  · rw [Crate.crc64, Crate.crc64Finalize_toNat, Crate.crc64Update_toBitVec]
    rfl
  · rw [crc64Update_flatten]
    rfl
  · rw [Crate.Crc64.finalize, Crate.crc64Finalize_toNat, Crate.update_state, crc64Update_flatten]
    rfl
  · exact crcSpliced_zeroed m base h
  · have hdata : (Mem.ofList data).bytes 0 data.length = data := by
      rw [Mem.bytes_ofList_drop (by omega), List.drop_zero, List.take_length]
    have hrust := Kernel.Rust.crc64ZeroedField_bytes (m := Mem.ofList data) (p := 0) h
    rwa [crcSpliced_zeroed _ 0 h, hdata] at hrust
  · exact pyCrc64_eq _

end BearBoot
