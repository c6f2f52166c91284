import BearBoot.Import.Limine

/-!
# The UEFI importer, as `bootloader/bbp_import_uefi.c` computes it

The memory map is firmware's own array of descriptors, whose stride the
firmware chooses. It is read twice: translated into the memory map tag, and
copied as it is for the EFI tag.
-/

set_option autoImplicit false

namespace BearBoot.Import

open Machine Bootloader

/-- `struct bbp_uefi_snapshot`. -/
structure UefiSnapshot where
  present : Nat
  hhdmOffset : Nat
  kernelPhysicalBase : Nat
  kernelVirtualBase : Nat
  memoryMap : Nat
  memoryMapBytes : Nat
  descriptorStride : Nat
  descriptorVersion : Nat
  memoryMapFinal : Nat
  systemTable : Nat
  commandLine : ImportString
  framebuffer : ImportFramebuffer
  acpi : ImportAcpi
  smbios32 : Nat
  smbios64 : Nat
  deriving DecidableEq, Repr

/-- `uefi_memory_type`. -/
def uefiMemoryType : Nat → Nat
  | 1 => 0x06
  | 2 => 0x06
  | 3 => 0x06
  | 4 => 0x06
  | 7 => 0x01
  | 8 => 0x05
  | 9 => 0x03
  | 10 => 0x04
  | 11 => 0x11
  | 12 => 0x11
  | 14 => 0x10
  | _ => 0x02

/-- `uefi_attributes`. -/
def uefiAttributes (attributes : Nat) : Nat :=
  let result := 0
  let result := if attributes &&& 2 ^ 13 = 0 then result ||| 1 else result
  let result := if attributes &&& 2 ^ 17 = 0 then result ||| 2 else result
  let result := if attributes &&& 2 ^ 14 = 0 then result ||| 4 else result
  let result := if attributes &&& (2 ^ 3 ||| 2 ^ 2) ≠ 0 then result ||| 8 else result
  let result := if attributes &&& 2 ^ 1 ≠ 0 then result ||| 16 else result
  if attributes &&& (2 ^ 0 ||| 2 ^ 4) ≠ 0 then result ||| 32 else result

section Checks

variable (b : Builder) (m : Mem) (s : UefiSnapshot)

/-- `validate_memory_map`: the number of descriptors. -/
def validateMemoryMap : Except ImportError Nat := do
  refuse (s.memoryMap = 0 ∨ s.memoryMapBytes = 0) .null
  refuse (s.memoryMapFinal = 0) .nonFinal
  refuse (s.descriptorStride < 40 ∨ u32Max < s.descriptorStride ∨ sizeMax < s.descriptorStride ∨
    s.descriptorVersion ≠ 1) .unsupported
  refuse (u32Max < s.memoryMapBytes ∨ s.memoryMapBytes % s.descriptorStride ≠ 0) .framing
  let count := s.memoryMapBytes / s.descriptorStride
  refuse (count = 0 ∨ u32Max < count) .count
  forUpTo (fun i _ => do
    let entry := s.memoryMap + i * s.descriptorStride
    let pages := get64 m (entry + 24)
    refuse (pages = 0 ∨ sizeMax / 4096 < pages) .overflow
    refuse (physRangeValid (get64 m (entry + 8)) (pages * 4096) = false) .range) count ()
  pure count

/-- The block on the memory map, which either of two tags asks for. -/
def uefiMapCount : Except ImportError Nat :=
  if has s.present (hasMemoryMap ||| hasEfi) then do
    refuse (rangesOverlap s.memoryMap s.memoryMapBytes b.arena b.capacity = true) .range
    validateMemoryMap m s
  else pure 0

def uefiMapTagSize (mapCount : Nat) : Except ImportError Nat :=
  if has s.present hasMemoryMap then arrayTagSize 40 mapCount 32 else pure 0

/-- The checks of the EFI and SMBIOS pointers. -/
def checkFirmware : Except ImportError Unit := do
  refuse (has s.present hasEfi = true ∧ physAddressValid s.systemTable false = false) .range
  refuse (has s.present hasSmbios = true ∧ ((s.smbios32 = 0 ∧ s.smbios64 = 0) ∨
    physAddressValid s.smbios32 true = false ∨ physAddressValid s.smbios64 true = false)) .range

/-- The planning pass. -/
def uefiPlan (mapTagSize : Nat) (plan : Plan) : Except ImportError Plan := do
  let plan ← planIf (has s.present hasHhdm) (planTag b · 40) plan
  let plan ← planIf (has s.present hasMemoryMap) (planTag b · mapTagSize) plan
  let plan ← planIf (has s.present hasKernelAddress) (planTag b · 48) plan
  let plan ← planIf (has s.present hasCmdline)
    (fun plan => planBlob b plan s.commandLine.bytes >>= (planTag b · 56)) plan
  let plan ← planIf (has s.present hasFramebuffer) (planTag b · (72 + 48)) plan
  let plan ← planIf (has s.present hasAcpi) (planTag b · 56) plan
  let plan ← planIf (has s.present hasEfi)
    (fun plan => planBlob b plan s.memoryMapBytes >>= (planTag b · 64)) plan
  planIf (has s.present hasSmbios) (planTag b · 48) plan

/-- What a finished check hands to the emission. -/
structure UefiSizes where
  plan : Plan
  mapCount : Nat
  mapTagSize : Nat

/-- `bbp_import_uefi_hobs` up to its first call of the builder. -/
def uefiCheck (snapshot : Nat) : Except ImportError UefiSizes := do
  refuse (snapshot = 0) .null
  refuse (rangesOverlap snapshot 168 b.arena b.capacity = true) .range
  refuse (s.present &&& not64 0x1f7 ≠ 0) .flags
  let plan ← planBegin b m
  let mapCount ← uefiMapCount b m s
  let mapTagSize ← uefiMapTagSize s mapCount
  checkKernelAddress s.present s.kernelPhysicalBase s.kernelVirtualBase
  checkCmdline b m s.present s.commandLine
  checkDevices s.present s.framebuffer s.acpi
  checkFirmware s
  let plan ← uefiPlan b s mapTagSize plan
  pure ⟨plan, mapCount, mapTagSize⟩

end Checks

section Emit

variable (s : UefiSnapshot)

/-- `emit_memory_map`. -/
def uefiMemoryMap (count tagSize : Nat) : Object :=
  ⟨none, tagMemoryMap, tagSize, fun _ tag m =>
    let m := put32 m (tag + 32) count
    let m := put32 m (tag + 36) 32
    storeLoop (fun i m =>
      let source := s.memoryMap + i * s.descriptorStride
      let m := put64 m (tag + 40 + 32 * i) (get64 m (source + 8))
      let m := put64 m (tag + 40 + 32 * i + 8) (get64 m (source + 24) * 4096)
      let m := put32 m (tag + 40 + 32 * i + 16) (uefiMemoryType (get32 m source))
      put32 m (tag + 40 + 32 * i + 20) (uefiAttributes (get64 m (source + 32))))
      (count % 2 ^ 32) m⟩

/-- `emit_efi`. -/
def uefiEfi : Object :=
  ⟨some (s.memoryMap, s.memoryMapBytes), tagEfi, 64, fun map tag m =>
    let m := put64 m (tag + 32) s.systemTable
    let m := put64 m (tag + 40) map
    let m := put32 m (tag + 48) s.memoryMapBytes
    let m := put32 m (tag + 52) s.descriptorStride
    put32 m (tag + 56) s.descriptorVersion⟩

/-- `emit_smbios`. -/
def uefiSmbios : Object :=
  ⟨none, tagSmbios, 48, fun _ tag m =>
    let m := put64 m (tag + 32) s.smbios32
    put64 m (tag + 40) s.smbios64⟩

/-- The emission. -/
def uefiEmit (sizes : UefiSizes) (e : Emission) : Emission :=
  let e := emitIf (has s.present hasHhdm) (emitHhdm s.hhdmOffset) e
  let e := emitIf (has s.present hasMemoryMap) (uefiMemoryMap s sizes.mapCount sizes.mapTagSize) e
  let e := emitIf (has s.present hasKernelAddress)
    (emitKernelAddress s.kernelPhysicalBase s.kernelVirtualBase) e
  let e := emitIf (has s.present hasCmdline) (emitCmdline s.commandLine.data s.commandLine.bytes) e
  let e := emitIf (has s.present hasFramebuffer) (emitFramebuffer s.framebuffer) e
  let e := emitIf (has s.present hasAcpi) (emitAcpi s.acpi) e
  let e := emitIf (has s.present hasEfi) (uefiEfi s) e
  emitIf (has s.present hasSmbios) (uefiSmbios s) e

end Emit

/-- `bbp_import_uefi_hobs`, on a snapshot at the given address. -/
def importUefiHobs (b : Builder) (m : Mem) (snapshot : Nat) (s : UefiSnapshot) : Outcome :=
  finish b m (uefiCheck b m s snapshot) (uefiEmit s)

end BearBoot.Import
