import BearBoot.Bootloader.Build
import BearBoot.Machine.Settle

/-!
# What the importers share, as `bootloader/bbp_import.c` computes it

Three importers turn what another boot protocol left behind into tags. Each
one first checks its source and then plans: it replays the builder's
bump allocator on two numbers, the bytes used and the tags counted. Only
then does it call the builder, and it does not look at the builder's
answers any more.

This module has the planning arithmetic, the checks that more than one
importer makes, and the emitters. An emitter is an `Object`: an optional
blob, a tag of a given id and size, and the stores into the tag's body,
which is zeroed first. `emit` is what all emitters do with one. A builder
that answers `NULL` is written through, at the addresses behind zero, as
the source would; `answers` is a log of what the builder answered, for the
statement that this never happens.

`size_t` and `uintptr_t` have 64 bits. The plan and the builder are not
`NULL`, and neither is an out-parameter of the checks.
-/

set_option autoImplicit false

namespace BearBoot.Import

open Machine Bootloader

/-- `bbp_import_status`, `BBP_IMPORT_OK` apart. -/
inductive ImportError where
  | null
  | flags
  | builder
  | capacity
  | count
  | overflow
  | range
  | framing
  | duplicate
  | string
  | unsupported
  | nonFinal
  deriving DecidableEq, Repr

/-! ## Limits -/

/-- `BBP_IMPORT_MAX_TAG_SIZE`. -/
def maxTagSize : Nat := 16 * 1024 * 1024

/-- `BBP_IMPORT_MAX_PHYS`. -/
def maxPhys : Nat := 2 ^ 48

/-- `BBP_IMPORT_MAX_TAGS`. -/
def maxTags : Nat := 1024

/-- `BBP_IMPORT_MAX_ARENA`. -/
def maxArena : Nat := 64 * 1024 * 1024 - 144

/-- `BBP_IMPORT_SIZE_MAX`, `BBP_IMPORT_UINTPTR_MAX` and `BBP_IMPORT_U64_MAX`. -/
def sizeMax : Nat := 2 ^ 64 - 1

/-- `BBP_IMPORT_U32_MAX`. -/
def u32Max : Nat := 2 ^ 32 - 1

/-- `BBP_IMPORT_U16_MAX`. -/
def u16Max : Nat := 2 ^ 16 - 1

/-! ## Addresses -/

def physAddressValid (address : Nat) (allowZero : Bool) : Bool :=
  (allowZero || address != 0) && decide (address < maxPhys)

def physRangeValid (base length : Nat) : Bool :=
  length != 0 && decide (base < maxPhys) && decide (length ≤ maxPhys - base)

def rangesOverlap (a leftBytes b rightBytes : Nat) : Bool :=
  if sizeMax - a < leftBytes ∨ sizeMax - b < rightBytes then true
  else decide (a < b + rightBytes ∧ b < a + leftBytes)

/-! ## Planning -/

/-- `struct bbp_import_plan`. -/
structure Plan where
  used : Nat
  tagCount : Nat
  deriving DecidableEq, Repr

/-- The last block of `bbp_import_plan_begin`: whether the builder's chain
and its tag count can belong together. -/
def planChain (b : Builder) (m : Mem) : Except ImportError Unit :=
  if b.tagCount = 0 then refuse (b.last ≠ 0 ∨ b.firstPhys ≠ 0) .builder
  else
    refuse (b.last = 0 ∨ b.firstPhys = 0 ∨ b.firstPhys &&& 7 ≠ 0 ∨ b.firstPhys < b.arenaPhys ∨
      b.used ≤ b.firstPhys - b.arenaPhys ∨ b.last < b.arena ∨ b.last &&& 7 ≠ 0 ∨
      b.used < b.last - b.arena ∨ b.used - (b.last - b.arena) < 32 ∨ tagNext m b.last ≠ 0) .builder

/-- `bbp_import_plan_begin`. -/
def planBegin (b : Builder) (m : Mem) : Except ImportError Plan := do
  refuse (b.arena = 0 ∨ b.overflow = true ∨ b.capacity < b.used ∨ maxArena < b.used ∨
    maxTags < b.tagCount ∨ b.arenaPhys = 0 ∨ b.arenaPhys &&& 7 ≠ 0 ∨ b.arena &&& 7 ≠ 0 ∨
    sizeMax - b.arena < b.capacity) .builder
  refuse (maxPhys ≤ b.arenaPhys ∨ maxPhys - b.arenaPhys < b.capacity) .builder
  planChain b m
  pure ⟨b.used, b.tagCount⟩

/-- `plan_allocation`, with `align8` and `add_size`. -/
def planAllocation (b : Builder) (plan : Plan) (bytes : Nat) : Except ImportError Plan := do
  refuse (sizeMax - 7 < plan.used) .overflow
  let start := (plan.used + 7) &&& not64 7
  refuse (sizeMax - start < bytes) .overflow
  refuse (b.capacity < start + bytes ∨ maxArena < start + bytes) .capacity
  refuse (sizeMax - b.arenaPhys < start + bytes) .overflow
  pure { plan with used := start + bytes }

/-- `bbp_import_plan_tag`. -/
def planTag (b : Builder) (plan : Plan) (bytes : Nat) : Except ImportError Plan := do
  refuse (bytes < 32 ∨ maxTagSize < bytes ∨ u32Max < bytes) .count
  refuse (maxTags ≤ plan.tagCount) .count
  let plan ← planAllocation b plan bytes
  pure { plan with tagCount := plan.tagCount + 1 }

/-- `bbp_import_plan_blob`. -/
def planBlob (b : Builder) (plan : Plan) (bytes : Nat) : Except ImportError Plan := do
  refuse (bytes = 0) .range
  planAllocation b plan bytes

/-- A planning step under a presence test. -/
def planIf (present : Bool) (step : Plan → Except ImportError Plan) (plan : Plan) :
    Except ImportError Plan :=
  if present then step plan else pure plan

/-- `bbp_import_array_tag_size`. -/
def arrayTagSize (fixed count element : Nat) : Except ImportError Nat := do
  refuse (u32Max < count ∨ element = 0) .count
  refuse (sizeMax < count) .count
  refuse ((sizeMax - fixed) / element < count) .overflow
  refuse (maxTagSize < fixed + count * element ∨ u32Max < fixed + count * element) .count
  pure (fixed + count * element)

/-! ## Strings -/

def utf8Cont (byte : UInt8) : Bool := byte &&& 0xc0 == 0x80

/-- `utf8_sequence`: the length of the code point at `text`, `0` if there is
none. -/
def utf8Sequence (m : Mem) (text remaining : Nat) : Nat :=
  let a := m text
  let b := m (text + 1)
  let c := m (text + 2)
  let d := m (text + 3)
  if remaining = 0 then 0
  else if a < 0x80 then (if a = 0 then 0 else 1)
  else if 0xc2 ≤ a ∧ a ≤ 0xdf ∧ 2 ≤ remaining ∧ utf8Cont b then 2
  else if a = 0xe0 ∧ 3 ≤ remaining ∧ 0xa0 ≤ b ∧ b ≤ 0xbf ∧ utf8Cont c then 3
  else if (0xe1 ≤ a ∧ a ≤ 0xec ∨ 0xee ≤ a ∧ a ≤ 0xef) ∧ 3 ≤ remaining ∧ utf8Cont b ∧ utf8Cont c then 3
  else if a = 0xed ∧ 3 ≤ remaining ∧ 0x80 ≤ b ∧ b ≤ 0x9f ∧ utf8Cont c then 3
  else if a = 0xf0 ∧ 4 ≤ remaining ∧ 0x90 ≤ b ∧ b ≤ 0xbf ∧ utf8Cont c ∧ utf8Cont d then 4
  else if 0xf1 ≤ a ∧ a ≤ 0xf3 ∧ 4 ≤ remaining ∧ utf8Cont b ∧ utf8Cont c ∧ utf8Cont d then 4
  else if a = 0xf4 ∧ 4 ≤ remaining ∧ 0x80 ≤ b ∧ b ≤ 0x8f ∧ utf8Cont c ∧ utf8Cont d then 4
  else 0

/-- The loop of `bbp_import_validate_string`. Every turn moves the offset, so
`content` turns are enough. -/
def stringLoop (m : Mem) (data content : Nat) : (fuel offset : Nat) → Bool
  | 0, offset => decide (content ≤ offset)
  | fuel + 1, offset =>
    if offset < content then
      let sequence := utf8Sequence m (data + offset) (content - offset)
      if sequence = 0 then false else stringLoop m data content fuel (offset + sequence)
    else true

/-- `struct bbp_import_string`. -/
structure ImportString where
  data : Nat
  bytes : Nat
  deriving DecidableEq, Repr

/-- `bbp_import_validate_string`. -/
def validateString (m : Mem) (s : ImportString) : Except ImportError Unit := do
  refuse (s.data = 0 ∨ s.bytes = 0) .string
  refuse (u32Max < s.bytes) .count
  refuse (m (s.data + (s.bytes - 1)) ≠ 0) .string
  refuse (stringLoop m s.data (s.bytes - 1) (s.bytes - 1) 0 = false) .string

/-- The loop of `bbp_import_utf8_prefix`. -/
def utf8PrefixLoop (m : Mem) (text bytes limit : Nat) : (fuel offset : Nat) → Nat
  | 0, offset => offset
  | fuel + 1, offset =>
    if offset < bytes then
      let sequence := utf8Sequence m (text + offset) (bytes - offset)
      if sequence = 0 ∨ limit - offset < sequence then offset
      else utf8PrefixLoop m text bytes limit fuel (offset + sequence)
    else offset

/-- `bbp_import_utf8_prefix`. -/
def utf8Prefix (m : Mem) (text bytes limit : Nat) : Nat := utf8PrefixLoop m text bytes limit bytes 0

/-! ## Framebuffers and ACPI -/

/-- `struct bbp_import_framebuffer`. -/
structure ImportFramebuffer where
  address : Nat
  totalSize : Nat
  width : Nat
  height : Nat
  pitch : Nat
  pixelFormat : Nat
  colorDepth : Nat
  flags : Nat
  deriving DecidableEq, Repr

/-- The switch of `bbp_import_validate_framebuffer`: bytes per pixel and
the depth that goes with the format. -/
def pixelFormatOf : Nat → Option (Nat × Nat)
  | 0x01 => some (3, 8)
  | 0x02 => some (4, 8)
  | 0x03 => some (4, 8)
  | 0x04 => some (2, 5)
  | 0x10 => some (4, 10)
  | 0x11 => some (8, 16)
  | _ => none

/-- `bbp_import_validate_framebuffer`. -/
def validateFramebuffer (f : ImportFramebuffer) : Except ImportError Unit :=
  match pixelFormatOf f.pixelFormat with
  | none => .error .unsupported
  | some (bytesPerPixel, depth) => do
    refuse (f.colorDepth ≠ depth) .unsupported
    refuse (f.width = 0 ∨ u16Max < f.width ∨ f.height = 0 ∨ u16Max < f.height) .range
    refuse (f.pitch < f.width * bytesPerPixel) .range
    refuse (f.totalSize < f.pitch * f.height ∨ physRangeValid f.address f.totalSize = false) .range
    refuse (f.flags &&& not64 0xf ≠ 0) .flags
    let rotation := f.flags &&& 0xe
    refuse (rotation ≠ 0 ∧ rotation &&& (rotation - 1) ≠ 0) .flags

/-- `struct bbp_import_acpi`. -/
structure ImportAcpi where
  rsdpAddress : Nat
  xsdtAddress : Nat
  oemId : Nat
  acpiVersion : Nat
  flags : Nat
  deriving DecidableEq, Repr

/-- `validate_acpi`, the same in the two importers that have it. -/
def validateAcpi (a : ImportAcpi) : Except ImportError Unit := do
  refuse (physAddressValid a.rsdpAddress false = false ∨ physAddressValid a.xsdtAddress true = false)
    .range
  refuse (a.flags &&& not64 0x3 ≠ 0) .flags
  refuse ((a.flags &&& 1 != 0) ≠ (a.xsdtAddress != 0)) .flags

/-! ## Presence -/

def hasHhdm : Nat := 0x001
def hasMemoryMap : Nat := 0x002
def hasKernelAddress : Nat := 0x004
def hasSmp : Nat := 0x008
def hasCmdline : Nat := 0x010
def hasFramebuffer : Nat := 0x020
def hasAcpi : Nat := 0x040
def hasEfi : Nat := 0x080
def hasSmbios : Nat := 0x100

/-- `(present & flag) != 0`. -/
def has (present flag : Nat) : Bool := present &&& flag != 0

/-- The check of the kernel's addresses, the same in all importers. -/
def checkKernelAddress (present physicalBase virtualBase : Nat) : Except ImportError Unit :=
  refuse (has present hasKernelAddress = true ∧
    (physAddressValid physicalBase true = false ∨ virtualBase = 0)) .range

/-! ## Emission -/

def tagSmp : Nat := tagIdOf 0x0001 0x0001
def tagModules : Nat := tagIdOf 0x0001 0x0002
def tagCmdline : Nat := tagIdOf 0x0001 0x0003
def tagMemoryMap : Nat := tagIdOf 0x0002 0x0001
def tagKernelAddress : Nat := tagIdOf 0x0002 0x0003
def tagFramebuffer : Nat := tagIdOf 0x0003 0x0001
def tagAcpi : Nat := tagIdOf 0x0005 0x0001
def tagEfi : Nat := tagIdOf 0x0005 0x0003
def tagSmbios : Nat := tagIdOf 0x0005 0x0005

/-- The builder and the memory while an importer emits, and what the builder
answered so far, `NULL` as `0`. -/
structure Emission where
  builder : Builder
  mem : Mem
  answers : List Nat

/-- A tag to emit: the source of its blob, if it has one, and the stores
into its body, given where the blob went and where the tag stands. -/
structure Object where
  blob : Option (Nat × Nat)
  id : Nat
  size : Nat
  fill : (phys tag : Nat) → Mem → Mem

/-- `bbp_arena_blob`, where an emitter calls it. -/
def takeBlob (blob : Option (Nat × Nat)) (e : Emission) : Nat × Emission :=
  match blob with
  | none => (0, e)
  | some (data, len) =>
    let (phys, b, m) := arenaBlob e.builder e.mem data len
    (phys, ⟨b, m, e.answers ++ [phys]⟩)

/-- `bbp_alloc_tag`, as an emitter calls it. -/
def takeTag (id size : Nat) (e : Emission) : Nat × Emission :=
  let (tag, b, m) := allocTag e.builder e.mem id 1 size
  (tag.getD 0, ⟨b, m, e.answers ++ [tag.getD 0]⟩)

/-- The tag, its body zeroed, and the stores. -/
def putTag (o : Object) (phys : Nat) (e : Emission) : Emission :=
  let (tag, e) := takeTag o.id o.size e
  { e with mem := o.fill phys tag (e.mem.fill (tag + 32) (o.size - 32)) }

/-- What every emitter does: the blob first, if it has one. -/
def emit (o : Object) (e : Emission) : Emission :=
  let (phys, e) := takeBlob o.blob e
  putTag o phys e

/-- An emission under a presence test. -/
def emitIf (present : Bool) (o : Object) (e : Emission) : Emission :=
  if present then emit o e else e

/-- A counted loop of stores. -/
def storeLoop (body : Nat → Mem → Mem) : Nat → Mem → Mem
  | 0, m => m
  | n + 1, m => body n (storeLoop body n m)

/-- `emit_hhdm`. -/
def emitHhdm (offset : Nat) : Object :=
  ⟨none, tagHhdm, 40, fun _ tag m => put64 m (tag + 32) offset⟩

/-- `emit_kernel_address`. -/
def emitKernelAddress (physicalBase virtualBase : Nat) : Object :=
  ⟨none, tagKernelAddress, 48, fun _ tag m =>
    let m := put64 m (tag + 32) physicalBase
    put64 m (tag + 40) virtualBase⟩

/-- `emit_cmdline`, on the string's bytes. -/
def emitCmdline (data bytes : Nat) : Object :=
  ⟨some (data, bytes), tagCmdline, 56, fun phys tag m =>
    let m := put64 m (tag + 32) phys
    let m := put32 m (tag + 40) (bytes - 1)
    put64 m (tag + 48) (crc64 (m.bytes data (bytes - 1)))⟩

/-- `emit_framebuffer` of the Limine and UEFI importers. -/
def emitFramebuffer (source : ImportFramebuffer) : Object :=
  ⟨none, tagFramebuffer, 72 + 48, fun _ tag m =>
    let m := put64 m (tag + 32) source.address
    let m := put16 m (tag + 40) 1
    let m := put16 m (tag + 42) source.flags
    let m := put32 m (tag + 44) source.pitch
    let m := put64 m (tag + 48) source.totalSize
    let m := put16 m (tag + 72) source.width
    let m := put16 m (tag + 74) source.height
    let m := put16 m (tag + 78) source.colorDepth
    put32 m (tag + 80) source.pixelFormat⟩

/-- `emit_acpi` of the Limine and UEFI importers. -/
def emitAcpi (source : ImportAcpi) : Object :=
  ⟨none, tagAcpi, 56, fun _ tag m =>
    let m := put64 m (tag + 32) source.rsdpAddress
    let m := put64 m (tag + 40) source.xsdtAddress
    let m := put32 m (tag + 48) source.oemId
    let m := put16 m (tag + 52) source.acpiVersion
    put16 m (tag + 54) source.flags⟩

/-- A `struct bbp_memory_entry` stored field by field; the attributes are
those of the type just stored. -/
def putMemoryEntry (entry base length type : Nat) (attributes : Nat → Nat) (m : Mem) : Mem :=
  let m := put64 m entry base
  let m := put64 m (entry + 8) length
  let m := put32 m (entry + 16) type
  put32 m (entry + 20) (attributes (get32 m (entry + 16)))

/-- What an importer answers: its status, and what it left behind. -/
structure Outcome where
  status : Except ImportError Unit
  builder : Builder
  mem : Mem
  answers : List Nat

/-- The end of an importer: a refusal leaves everything as it was, and a
finished plan is emitted. -/
def finish {α : Type} (b : Builder) (m : Mem) (checked : Except ImportError α)
    (emission : α → Emission → Emission) : Outcome :=
  match checked with
  | .error e => ⟨.error e, b, m, []⟩
  | .ok a =>
    let e := emission a ⟨b, m, []⟩
    ⟨.ok (), e.builder, e.mem, e.answers⟩

end BearBoot.Import
