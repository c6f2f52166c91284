import BearBoot.Import.Common

/-!
# The Multiboot2 importer, as `bootloader/bbp_import_multiboot2.c` computes it

A Multiboot2 information structure is a row of records, each padded to
eight bytes, up to an end record. `scanMbi` walks it once and keeps
offsets, counts and the ACPI fields it has parsed; the emitters read the
structure again at those offsets, and `emitModules` walks it a second time.

Absence is the offset `SIZE_MAX`, as in the source. Both walks move by at
least eight bytes a turn on anything the scan accepts, so the number of
bytes is enough fuel; a scan without fuel answers what the source answers
behind its loop.
-/

set_option autoImplicit false

namespace BearBoot.Import

open Machine Bootloader

/-- `struct bbp_multiboot2_snapshot`. -/
structure Multiboot2Snapshot where
  mbi : Nat
  mappedBytes : Nat
  present : Nat
  hhdmOffset : Nat
  kernelPhysicalBase : Nat
  kernelVirtualBase : Nat
  deriving DecidableEq, Repr

/-- What is kept of an ACPI record: the `acpi_` fields of `struct mb2_scan`,
and the two sets of locals that shadow them. -/
structure AcpiFields where
  offset : Nat
  bytes : Nat
  xsdt : Nat
  oemId : Nat
  version : Nat
  deriving DecidableEq, Repr

/-- `struct mb2_scan`. -/
structure Mb2Scan where
  data : Nat
  total : Nat
  cmdlineOffset : Nat
  cmdlineBytes : Nat
  mmapOffset : Nat
  mmapCount : Nat
  mmapStride : Nat
  moduleCount : Nat
  framebufferOffset : Nat
  framebuffer : ImportFramebuffer
  acpi : AcpiFields
  deriving DecidableEq, Repr

section Parse

variable (m : Mem)

/-- `checksum_zero`. -/
def checksumZero (data bytes : Nat) : Bool := (m.bytes data bytes).foldl (· + ·) 0 == 0

/-- `signature_is_rsdp`. -/
def signatureIsRsdp (data : Nat) : Bool :=
  m.bytes data 8 == [0x52, 0x53, 0x44, 0x20, 0x50, 0x54, 0x52, 0x20]

/-- `exact_string`. -/
def exactString (data bytes : Nat) : Except ImportError Unit := validateString m ⟨data, bytes⟩

/-- The pixel layouts `parse_framebuffer` knows: the format and the depth. -/
def mb2PixelFormat (bpp redPosition redSize greenPosition greenSize bluePosition blueSize : UInt8) :
    Option (Nat × Nat) :=
  if bpp = 24 ∧ redPosition = 0 ∧ redSize = 8 ∧ greenPosition = 8 ∧ greenSize = 8 ∧
      bluePosition = 16 ∧ blueSize = 8 then some (1, 8)
  else if bpp = 32 ∧ redPosition = 0 ∧ redSize = 8 ∧ greenPosition = 8 ∧ greenSize = 8 ∧
      bluePosition = 16 ∧ blueSize = 8 then some (2, 8)
  else if bpp = 32 ∧ redPosition = 16 ∧ redSize = 8 ∧ greenPosition = 8 ∧ greenSize = 8 ∧
      bluePosition = 0 ∧ blueSize = 8 then some (3, 8)
  else if bpp = 16 ∧ redPosition = 11 ∧ redSize = 5 ∧ greenPosition = 5 ∧ greenSize = 6 ∧
      bluePosition = 0 ∧ blueSize = 5 then some (4, 5)
  else none

/-- `parse_framebuffer`. -/
def parseFramebuffer (tag size : Nat) : Except ImportError ImportFramebuffer := do
  refuse (size ≠ 38) .framing
  refuse (m (tag + 29) ≠ 1) .unsupported
  refuse (m (tag + 30) ≠ 0 ∨ m (tag + 31) ≠ 0) .framing
  match mb2PixelFormat (m (tag + 28)) (m (tag + 32)) (m (tag + 33)) (m (tag + 34)) (m (tag + 35))
      (m (tag + 36)) (m (tag + 37)) with
  | none => .error .unsupported
  | some (format, depth) => do
    let pitch := get32 m (tag + 16)
    let height := get32 m (tag + 24)
    let out : ImportFramebuffer :=
      ⟨get64 m (tag + 8), pitch * height, get32 m (tag + 20), height, pitch, format, depth, 0⟩
    validateFramebuffer out
    pure out

/-- `parse_acpi`: the fields it stores into the scan. -/
def parseAcpi (rsdp bytes : Nat) (isNew : Bool) (acpi : AcpiFields) : Except ImportError AcpiFields := do
  refuse (bytes < 20 ∨ signatureIsRsdp m rsdp = false ∨ checksumZero m rsdp 20 = false) .framing
  if isNew then do
    refuse (bytes < 36 ∨ m (rsdp + 15) < 2) .framing
    let length := get32 m (rsdp + 20)
    refuse (length < 36 ∨ length ≠ bytes ∨ checksumZero m rsdp length = false) .framing
    let xsdt := get64 m (rsdp + 24)
    refuse (physAddressValid xsdt true = false) .range
    pure { acpi with
      bytes := length
      xsdt := xsdt
      oemId := get32 m (rsdp + 9)
      version := (m (rsdp + 15)).toNat * 256 }
  else do
    refuse (bytes ≠ 20 ∨ m (rsdp + 15) ≠ 0) .framing
    pure { acpi with
      bytes := 20
      xsdt := 0
      oemId := get32 m (rsdp + 9)
      version := (m (rsdp + 15)).toNat * 256 }

/-- The locals of `scan_mbi` beside the offset. -/
structure ScanState where
  scan : Mb2Scan
  sawCmdline : Bool
  sawMmap : Bool
  sawFramebuffer : Bool
  sawAcpiOld : Bool
  sawAcpiNew : Bool
  oldAcpi : AcpiFields
  newAcpi : AcpiFields
  deriving DecidableEq, Repr

section Turn

variable (st : ScanState) (offset size : Nat)

/-- The branch of a command line record. -/
def scanCmdline : Except ImportError ScanState := do
  refuse (st.sawCmdline = true) .duplicate
  exactString m (st.scan.data + offset + 8) (size - 8)
  pure { st with
    scan := { st.scan with cmdlineOffset := offset + 8, cmdlineBytes := size - 8 }
    sawCmdline := true }

/-- The branch of a module record. -/
def scanModule : Except ImportError ScanState := do
  refuse (size < 17) .framing
  let start := get32 m (st.scan.data + offset + 8)
  let stop := get32 m (st.scan.data + offset + 12)
  refuse (stop ≤ start ∨ physRangeValid start (stop - start) = false) .range
  exactString m (st.scan.data + offset + 16) (size - 16)
  refuse (st.scan.moduleCount = u32Max) .count
  pure { st with scan := { st.scan with moduleCount := st.scan.moduleCount + 1 } }

/-- The branch of a memory map record. -/
def scanMmap : Except ImportError ScanState := do
  refuse (st.sawMmap = true) .duplicate
  refuse (size < 16) .framing
  let stride := get32 m (st.scan.data + offset + 8)
  let version := get32 m (st.scan.data + offset + 12)
  refuse (stride < 24 ∨ stride &&& 7 ≠ 0 ∨ version ≠ 0 ∨ (size - 16) % stride ≠ 0) .framing
  let count := (size - 16) / stride
  refuse (count = 0 ∨ u32Max < count) .count
  forUpTo (fun i _ =>
    let entry := st.scan.data + offset + 16 + i * stride
    refuse (physRangeValid (get64 m entry) (get64 m (entry + 8)) = false) .range) count ()
  pure { st with
    scan := { st.scan with mmapOffset := offset, mmapCount := count, mmapStride := stride }
    sawMmap := true }

/-- The branch of a framebuffer record. -/
def scanFramebuffer : Except ImportError ScanState := do
  refuse (st.sawFramebuffer = true) .duplicate
  let framebuffer ← parseFramebuffer m (st.scan.data + offset) size
  pure { st with
    scan := { st.scan with framebuffer := framebuffer, framebufferOffset := offset }
    sawFramebuffer := true }

/-- The branch of an old ACPI record. The parsed fields go into the scan and
into the record's own locals. -/
def scanAcpiOld : Except ImportError ScanState := do
  refuse (st.sawAcpiOld = true) .duplicate
  let acpi ← parseAcpi m (st.scan.data + offset + 8) (size - 8) false st.scan.acpi
  pure { st with
    scan := { st.scan with acpi := acpi }
    oldAcpi := { acpi with offset := offset + 8 }
    sawAcpiOld := true }

/-- The branch of a new ACPI record. -/
def scanAcpiNew : Except ImportError ScanState := do
  refuse (st.sawAcpiNew = true) .duplicate
  let acpi ← parseAcpi m (st.scan.data + offset + 8) (size - 8) true st.scan.acpi
  pure { st with
    scan := { st.scan with acpi := acpi }
    newAcpi := { acpi with offset := offset + 8 }
    sawAcpiNew := true }

/-- One record that is not the end record. -/
def scanRecord (type : Nat) : Except ImportError ScanState :=
  if type = 1 then scanCmdline m st offset size
  else if type = 3 then scanModule m st offset size
  else if type = 6 then scanMmap m st offset size
  else if type = 8 then scanFramebuffer m st offset size
  else if type = 14 then scanAcpiOld m st offset size
  else if type = 15 then scanAcpiNew m st offset size
  else pure st

/-- The end record: the new ACPI fields if there are any, and the old ones
otherwise. -/
def scanEnd : Except ImportError Mb2Scan := do
  refuse (size ≠ 8 ∨ offset + 8 ≠ st.scan.total) .framing
  if st.sawAcpiNew then pure { st.scan with acpi := st.newAcpi }
  else if st.sawAcpiOld then pure { st.scan with acpi := st.oldAcpi }
  else pure st.scan

end Turn

/-- The loop of `scan_mbi`. -/
def scanLoop : (fuel offset : Nat) → ScanState → Except ImportError Mb2Scan
  | 0, _, _ => .error .framing
  | fuel + 1, offset, st =>
    if offset < st.scan.total then do
      refuse (st.scan.total - offset < 8) .framing
      let type := get32 m (st.scan.data + offset)
      let size := get32 m (st.scan.data + offset + 4)
      refuse (size < 8 ∨ st.scan.total - offset < size) .framing
      if type = 0 then scanEnd st offset size
      else do
        let padded := (size + 7) &&& not64 7
        refuse (st.scan.total - offset < padded) .framing
        let st ← scanRecord m st offset size type
        scanLoop fuel (offset + padded) st
    else .error .framing

/-- The scan before its loop. -/
def scanStart (data total : Nat) : ScanState :=
  ⟨⟨data, total, sizeMax, 0, sizeMax, 0, 0, 0, sizeMax, ⟨0, 0, 0, 0, 0, 0, 0, 0⟩,
    ⟨sizeMax, 0, 0, 0, 0⟩⟩, false, false, false, false, false, ⟨0, 0, 0, 0, 0⟩, ⟨0, 0, 0, 0, 0⟩⟩

/-- `scan_mbi`. -/
def scanMbi (s : Multiboot2Snapshot) : Except ImportError Mb2Scan := do
  refuse (s.mbi = 0 ∨ s.mappedBytes < 16) .null
  let total := get32 m s.mbi
  refuse (total < 16 ∨ total &&& 7 ≠ 0 ∨ s.mappedBytes < total ∨ get32 m (s.mbi + 4) ≠ 0) .framing
  scanLoop m total 8 (scanStart s.mbi total)

end Parse

/-- `mb2_memory_type`. -/
def mb2MemoryType : Nat → Nat
  | 1 => 1
  | 3 => 3
  | 4 => 4
  | 5 => 5
  | _ => 2

/-- `mb2_memory_attributes`. -/
def mb2MemoryAttributes : Nat → Nat
  | 1 => 3
  | 3 => 1
  | 4 => 1
  | _ => 0

section Emit

variable (scan : Mb2Scan)

/-- `emit_memory_map`. The loop's bound is read back from the tag, which the
loop leaves alone. -/
def mb2MemoryMap (tagSize : Nat) : Object :=
  ⟨none, tagMemoryMap, tagSize, fun _ tag m =>
    let source := scan.data + scan.mmapOffset + 16
    let m := put32 m (tag + 32) scan.mmapCount
    let m := put32 m (tag + 36) 32
    storeLoop (fun i m =>
      let entry := source + i * scan.mmapStride
      putMemoryEntry (tag + 40 + 32 * i) (get64 m entry) (get64 m (entry + 8))
        (mb2MemoryType (get32 m (entry + 16))) mb2MemoryAttributes m)
      (get32 m (tag + 32)) m⟩

/-- One module record copied into the entry of the given index. -/
def putModule (tag offset index size : Nat) (m : Mem) : Mem :=
  let record := scan.data + offset
  let entry := tag + 40 + 176 * index
  let nameBytes := (size + 2 ^ 32 - 17) % 2 ^ 32
  let copied := utf8Prefix m (record + 16) nameBytes 63
  let m := put64 m entry (get32 m (record + 8))
  let m := put64 m (entry + 8) ((get32 m (record + 12) + 2 ^ 64 - get32 m (record + 8)) % 2 ^ 64)
  let m := m.copy (entry + 16) (record + 16) copied
  m.set (entry + 16 + copied) 0

/-- The loop of `emit_modules`. -/
def modulesLoop (tag : Nat) : (fuel offset index : Nat) → Mem → Mem
  | 0, _, _, m => m
  | fuel + 1, offset, index, m =>
    if offset < scan.total ∧ index < get32 m (tag + 32) then
      let type := get32 m (scan.data + offset)
      let size := get32 m (scan.data + offset + 4)
      let padded := (size + 7) &&& not64 7
      if type = 3 then
        modulesLoop tag fuel (offset + padded) (index + 1) (putModule scan tag offset index size m)
      else modulesLoop tag fuel (offset + padded) index m
    else m

/-- `emit_modules`. -/
def mb2Modules (tagSize : Nat) : Object :=
  ⟨none, tagModules, tagSize, fun _ tag m =>
    modulesLoop scan tag scan.total 8 0 (put32 m (tag + 32) scan.moduleCount)⟩

/-- `emit_framebuffer`, which stores no flags. -/
def mb2Framebuffer (source : ImportFramebuffer) : Object :=
  ⟨none, tagFramebuffer, 72 + 48, fun _ tag m =>
    let m := put64 m (tag + 32) source.address
    let m := put16 m (tag + 40) 1
    let m := put32 m (tag + 44) source.pitch
    let m := put64 m (tag + 48) source.totalSize
    let m := put16 m (tag + 72) source.width
    let m := put16 m (tag + 74) source.height
    let m := put16 m (tag + 78) source.colorDepth
    put32 m (tag + 80) source.pixelFormat⟩

/-- `emit_acpi`: the RSDP is copied into the arena. -/
def mb2Acpi : Object :=
  ⟨some (scan.data + scan.acpi.offset, scan.acpi.bytes), tagAcpi, 56, fun rsdp tag m =>
    let m := put64 m (tag + 32) rsdp
    let m := put64 m (tag + 40) scan.acpi.xsdt
    let m := put32 m (tag + 48) scan.acpi.oemId
    let m := put16 m (tag + 52) scan.acpi.version
    if scan.acpi.xsdt ≠ 0 then put16 m (tag + 54) 1 else m⟩

end Emit

section Import

variable (b : Builder) (m : Mem) (s : Multiboot2Snapshot)

/-- The size of the memory map tag, `0` if there is none. -/
def mb2MmapSize (scan : Mb2Scan) : Except ImportError Nat :=
  if scan.mmapOffset ≠ sizeMax then arrayTagSize 40 scan.mmapCount 32 else pure 0

/-- The size of the modules tag, `0` if there is none. -/
def mb2ModulesSize (scan : Mb2Scan) : Except ImportError Nat :=
  if scan.moduleCount ≠ 0 then arrayTagSize 40 scan.moduleCount 176 else pure 0

/-- The planning pass. -/
def mb2Plan (scan : Mb2Scan) (mmapSize modulesSize : Nat) (plan : Plan) : Except ImportError Plan := do
  let plan ← planIf (has s.present hasHhdm) (planTag b · 40) plan
  let plan ← planIf (scan.mmapOffset != sizeMax) (planTag b · mmapSize) plan
  let plan ← planIf (has s.present hasKernelAddress) (planTag b · 48) plan
  let plan ← planIf (scan.cmdlineOffset != sizeMax)
    (fun plan => planBlob b plan scan.cmdlineBytes >>= (planTag b · 56)) plan
  let plan ← planIf (scan.moduleCount != 0) (planTag b · modulesSize) plan
  let plan ← planIf (scan.framebufferOffset != sizeMax) (planTag b · (72 + 48)) plan
  planIf (scan.acpi.offset != sizeMax)
    (fun plan => planBlob b plan scan.acpi.bytes >>= (planTag b · 56)) plan

/-- What a finished check hands to the emission. -/
structure Mb2Sizes where
  plan : Plan
  scan : Mb2Scan
  mmapSize : Nat
  modulesSize : Nat

/-- `bbp_import_multiboot2` up to its first call of the builder. -/
def mb2Check (snapshot : Nat) : Except ImportError Mb2Sizes := do
  refuse (snapshot = 0) .null
  refuse (rangesOverlap snapshot 48 b.arena b.capacity = true) .range
  refuse (s.present &&& not64 0x5 ≠ 0) .flags
  let plan ← planBegin b m
  refuse (rangesOverlap s.mbi s.mappedBytes b.arena b.capacity = true) .range
  let scan ← scanMbi m s
  checkKernelAddress s.present s.kernelPhysicalBase s.kernelVirtualBase
  let mmapSize ← mb2MmapSize scan
  let modulesSize ← mb2ModulesSize scan
  let plan ← mb2Plan b s scan mmapSize modulesSize plan
  pure ⟨plan, scan, mmapSize, modulesSize⟩

/-- The emission. -/
def mb2Emit (sizes : Mb2Sizes) (e : Emission) : Emission :=
  let scan := sizes.scan
  let e := emitIf (has s.present hasHhdm) (emitHhdm s.hhdmOffset) e
  let e := emitIf (scan.mmapOffset != sizeMax) (mb2MemoryMap scan sizes.mmapSize) e
  let e := emitIf (has s.present hasKernelAddress)
    (emitKernelAddress s.kernelPhysicalBase s.kernelVirtualBase) e
  let e := emitIf (scan.cmdlineOffset != sizeMax)
    (emitCmdline (scan.data + scan.cmdlineOffset) scan.cmdlineBytes) e
  let e := emitIf (scan.moduleCount != 0) (mb2Modules scan sizes.modulesSize) e
  let e := emitIf (scan.framebufferOffset != sizeMax) (mb2Framebuffer scan.framebuffer) e
  emitIf (scan.acpi.offset != sizeMax) (mb2Acpi scan) e

end Import

/-- `bbp_import_multiboot2`, on a snapshot at the given address. -/
def importMultiboot2 (b : Builder) (m : Mem) (snapshot : Nat) (s : Multiboot2Snapshot) : Outcome :=
  finish b m (mb2Check b m s snapshot) (mb2Emit s)

end BearBoot.Import
