import BearBoot.Import.Common

/-!
# The Limine importer, as `bootloader/bbp_import_limine.c` computes it

The snapshot is a record of the caller's; its arrays and its string are in
memory, behind pointers that may be null or anything else until the
checks have passed. The checks are in the source's order, since a source
with two faults is refused for the first.
-/

set_option autoImplicit false

namespace BearBoot.Import

open Machine Bootloader

/-- `struct bbp_limine_snapshot`. -/
structure LimineSnapshot where
  present : Nat
  hhdmOffset : Nat
  kernelPhysicalBase : Nat
  kernelVirtualBase : Nat
  memoryMap : Nat
  memoryMapCount : Nat
  cpus : Nat
  cpuCount : Nat
  bspApicId : Nat
  x2apic : Nat
  commandLine : ImportString
  framebuffer : ImportFramebuffer
  acpi : ImportAcpi
  deriving DecidableEq, Repr

/-- `limine_memory_type`. -/
def limineMemoryType : Nat → Nat
  | 0 => 1
  | 1 => 2
  | 2 => 3
  | 3 => 4
  | 4 => 5
  | 5 => 6
  | 6 => 7
  | 7 => 8
  | _ => 2

/-- `limine_memory_attributes`. -/
def limineMemoryAttributes : Nat → Nat
  | 1 => 3
  | 6 => 3
  | 7 => 3
  | 8 => 3
  | 3 => 1
  | 4 => 1
  | _ => 0

section Checks

variable (b : Builder) (m : Mem) (s : LimineSnapshot)

/-- The memory map's checks, and its tag's size. -/
def limineMemoryMapSize : Except ImportError Nat :=
  if has s.present hasMemoryMap then do
    refuse (s.memoryMap = 0 ∨ s.memoryMapCount = 0) .null
    let size ← arrayTagSize 40 s.memoryMapCount 32
    refuse (rangesOverlap s.memoryMap (s.memoryMapCount * 24) b.arena b.capacity = true) .range
    forUpTo (fun i _ => refuse (physRangeValid (get64 m (s.memoryMap + 24 * i))
      (get64 m (s.memoryMap + 24 * i + 8)) = false) .range) s.memoryMapCount ()
    pure size
  else pure 0

/-- The APIC id of a processor of the snapshot. -/
def limineApicId (i : Nat) : Nat := get32 m (s.cpus + 8 * i + 4)

/-- The processors' checks, and their tag's size. -/
def limineSmpSize : Except ImportError Nat :=
  if has s.present hasSmp then do
    refuse (s.cpus = 0 ∨ s.cpuCount = 0) .null
    refuse (1 < s.x2apic) .flags
    let size ← arrayTagSize 48 s.cpuCount 48
    refuse (rangesOverlap s.cpus (s.cpuCount * 8) b.arena b.capacity = true) .range
    let bspFound ← forUpTo (fun i bspFound => do
      forUpTo (fun j _ => refuse (limineApicId m s i = limineApicId m s j) .duplicate) i ()
      pure (bspFound || limineApicId m s i == s.bspApicId)) s.cpuCount false
    refuse (bspFound = false) .range
    pure size
  else pure 0

/-- The command line's checks, the same in the UEFI importer. -/
def checkCmdline (present : Nat) (commandLine : ImportString) : Except ImportError Unit :=
  if has present hasCmdline then do
    refuse (rangesOverlap commandLine.data commandLine.bytes b.arena b.capacity = true) .range
    validateString m commandLine
  else pure ()

/-- The framebuffer's and the ACPI pointers' checks, the same in the UEFI
importer. -/
def checkDevices (present : Nat) (framebuffer : ImportFramebuffer) (acpi : ImportAcpi) :
    Except ImportError Unit := do
  if has present hasFramebuffer then validateFramebuffer framebuffer else pure ()
  if has present hasAcpi then validateAcpi acpi else pure ()

/-- The planning pass. -/
def liminePlan (memoryMapSize smpSize : Nat) (plan : Plan) : Except ImportError Plan := do
  let plan ← planIf (has s.present hasHhdm) (planTag b · 40) plan
  let plan ← planIf (has s.present hasMemoryMap) (planTag b · memoryMapSize) plan
  let plan ← planIf (has s.present hasKernelAddress) (planTag b · 48) plan
  let plan ← planIf (has s.present hasSmp) (planTag b · smpSize) plan
  let plan ← planIf (has s.present hasCmdline) (planBlob b · s.commandLine.bytes) plan
  let plan ← planIf (has s.present hasCmdline) (planTag b · 56) plan
  let plan ← planIf (has s.present hasFramebuffer) (planTag b · (72 + 48)) plan
  planIf (has s.present hasAcpi) (planTag b · 56) plan

/-- What a finished check hands to the emission. -/
structure LimineSizes where
  plan : Plan
  memoryMapSize : Nat
  smpSize : Nat

/-- `bbp_import_limine` up to its first call of the builder. -/
def limineCheck (snapshot : Nat) : Except ImportError LimineSizes := do
  refuse (snapshot = 0) .null
  refuse (rangesOverlap snapshot 152 b.arena b.capacity = true) .range
  refuse (s.present &&& not64 0x7f ≠ 0) .flags
  let plan ← planBegin b m
  let memoryMapSize ← limineMemoryMapSize b m s
  checkKernelAddress s.present s.kernelPhysicalBase s.kernelVirtualBase
  let smpSize ← limineSmpSize b m s
  checkCmdline b m s.present s.commandLine
  checkDevices s.present s.framebuffer s.acpi
  let plan ← liminePlan b s memoryMapSize smpSize plan
  pure ⟨plan, memoryMapSize, smpSize⟩

end Checks

section Emit

variable (s : LimineSnapshot)

/-- `emit_memory_map`. -/
def limineMemoryMap (tagSize : Nat) : Object :=
  ⟨none, tagMemoryMap, tagSize, fun _ tag m =>
    let m := put32 m (tag + 32) s.memoryMapCount
    let m := put32 m (tag + 36) 32
    storeLoop (fun i m =>
      putMemoryEntry (tag + 40 + 32 * i) (get64 m (s.memoryMap + 24 * i))
        (get64 m (s.memoryMap + 24 * i + 8))
        (limineMemoryType (get64 m (s.memoryMap + 24 * i + 16))) limineMemoryAttributes m)
      (s.memoryMapCount % 2 ^ 32) m⟩

/-- `emit_smp`. -/
def limineSmp (tagSize : Nat) : Object :=
  ⟨none, tagSmp, tagSize, fun _ tag m =>
    let m := put32 m (tag + 32) s.cpuCount
    let m := put32 m (tag + 36) s.bspApicId
    let m := put64 m (tag + 40) (if s.x2apic ≠ 0 then 1 else 0)
    storeLoop (fun i m =>
      let m := put32 m (tag + 48 + 48 * i) (get32 m (s.cpus + 8 * i))
      let m := put32 m (tag + 48 + 48 * i + 4) (limineApicId m s i)
      put16 m (tag + 48 + 48 * i + 8) (if limineApicId m s i = s.bspApicId then 1 else 0))
      (s.cpuCount % 2 ^ 32) m⟩

/-- The emission. -/
def limineEmit (sizes : LimineSizes) (e : Emission) : Emission :=
  let e := emitIf (has s.present hasHhdm) (emitHhdm s.hhdmOffset) e
  let e := emitIf (has s.present hasMemoryMap) (limineMemoryMap s sizes.memoryMapSize) e
  let e := emitIf (has s.present hasKernelAddress)
    (emitKernelAddress s.kernelPhysicalBase s.kernelVirtualBase) e
  let e := emitIf (has s.present hasSmp) (limineSmp s sizes.smpSize) e
  let e := emitIf (has s.present hasCmdline) (emitCmdline s.commandLine.data s.commandLine.bytes) e
  let e := emitIf (has s.present hasFramebuffer) (emitFramebuffer s.framebuffer) e
  emitIf (has s.present hasAcpi) (emitAcpi s.acpi) e

end Emit

/-- `bbp_import_limine`, on a snapshot at the given address. -/
def importLimine (b : Builder) (m : Mem) (snapshot : Nat) (s : LimineSnapshot) : Outcome :=
  finish b m (limineCheck b m s snapshot) (limineEmit s)

end BearBoot.Import
