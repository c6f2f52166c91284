import BearBoot.Machine.Bits
import BearBoot.Machine.Mem
import BearBoot.Machine.Settle

/-!
# The load planner

The loader reads a kernel image once, before it allocates anything, and
writes down what it is going to do: which bytes of the file go to which
physical pages, under which virtual addresses. `bbp_elf64_plan` is that
reading, from `bootloader/uefi/elf64_loader.c`. It allocates nothing and
fails closed: a plan is published whole or not at all.

An image is a byte string whose size a `size_t` can hold; that is part of
its type, so no statement above has to assume it. Every field of the file
is a little-endian number the file's author chose. The sums the planner
forms of them are checked before they are formed (`addOverflows`), and past
the checks they are plain sums.

The plan's array of sixteen segments is the list of those that are in use;
the entries behind `segment_count`, which nothing reads, are left out.
-/

set_option autoImplicit false

namespace BearBoot.Loader

open Machine

/-- The bytes of a file in memory. -/
structure Image where
  bytes : List UInt8
  size_lt : bytes.length < 2 ^ 64

namespace Image

def size (image : Image) : Nat := image.bytes.length

def read16 (image : Image) (off : Nat) : Nat := (Mem.ofList image.bytes).getLE off 2

def read32 (image : Image) (off : Nat) : Nat := (Mem.ofList image.bytes).getLE off 4

def read64 (image : Image) (off : Nat) : Nat := (Mem.ofList image.bytes).getLE off 8

end Image

/-- `bbp_elf64_status`. -/
inductive ElfStatus where
  | ok
  | errArgument
  | errTruncated
  | errFormat
  | errProgramHeaders
  | errSegmentLimit
  | errFileRange
  | errMemorySize
  | errOverflow
  | errAlignment
  | errAddress
  | errPhysicalLimit
  | errPageOverlap
  | errWx
  | errEntry
  deriving DecidableEq, Repr

/-- `BBP_ELF64_MAX_PROGRAM_HEADERS`. -/
def maxProgramHeaders : Nat := 32

/-- `BBP_ELF64_MAX_LOAD_SEGMENTS`. -/
def maxLoadSegments : Nat := 16

/-- `BBP_ELF64_PAGE_SIZE`. -/
def pageSize : Nat := 4096

def pfX : Nat := 1

def pfW : Nat := 2

/-- `ELF64_PHYSICAL_LIMIT`. -/
def physicalLimit : Nat := 0x0001000000000000

/-- `struct bbp_elf64_segment_plan`. -/
structure SegmentPlan where
  fileOffset : Nat
  fileSize : Nat
  memorySize : Nat
  virtualAddress : Nat
  physicalAddress : Nat
  pageBase : Nat
  pageCount : Nat
  alignment : Nat
  flags : Nat
  deriving DecidableEq, Repr

/-- The first byte behind the segment's pages. -/
def SegmentPlan.pageEnd (s : SegmentPlan) : Nat := s.pageBase + s.pageCount * pageSize

/-- `struct bbp_elf64_plan`. -/
structure ElfPlan where
  entry : Nat
  physicalBase : Nat
  physicalEnd : Nat
  segments : List SegmentPlan
  deriving DecidableEq, Repr

/-- `!add_u64(left, right, …)`. -/
def addOverflows (left right : Nat) : Prop := 2 ^ 64 - 1 - right < left

instance (left right : Nat) : Decidable (addOverflows left right) := inferInstanceAs (Decidable (_ < _))

def canonicalRegion (address : Nat) : Nat :=
  if address < 0x0000800000000000 then 1
  else if 0xffff800000000000 ≤ address then 2
  else 0

def canonicalRange (start stop : Nat) : Bool :=
  if canonicalRegion start = 0 then false
  else if start = stop then true
  else canonicalRegion (stop - 1) = canonicalRegion start

def powerOfTwo (value : Nat) : Bool := value ≠ 0 ∧ value &&& (value - 1) = 0

def rangesOverlap (firstStart firstEnd secondStart secondEnd : Nat) : Bool :=
  firstStart < secondEnd ∧ secondStart < firstEnd

/-! ## One program header -/

/-- The fields of a program header. -/
structure ProgramHeader where
  type : Nat
  flags : Nat
  fileOffset : Nat
  virtualAddress : Nat
  physicalAddress : Nat
  fileSize : Nat
  memorySize : Nat
  alignment : Nat
  deriving DecidableEq, Repr

/-- The program header at `header`. -/
def Image.programHeader (image : Image) (header : Nat) : ProgramHeader where
  type := image.read32 header
  flags := image.read32 (header + 4)
  fileOffset := image.read64 (header + 8)
  virtualAddress := image.read64 (header + 16)
  physicalAddress := image.read64 (header + 24)
  fileSize := image.read64 (header + 32)
  memorySize := image.read64 (header + 40)
  alignment := image.read64 (header + 48)

/-- `page_end`, as the planner computes it. -/
def ProgramHeader.pageEnd (h : ProgramHeader) : Nat :=
  if h.memorySize = 0 then h.physicalAddress &&& not64 (pageSize - 1)
  else (h.physicalAddress + h.memorySize + pageSize - 1) &&& not64 (pageSize - 1)

/-- The segment of a `PT_LOAD` header. -/
def ProgramHeader.segment (h : ProgramHeader) : SegmentPlan where
  fileOffset := h.fileOffset
  fileSize := h.fileSize
  memorySize := h.memorySize
  virtualAddress := h.virtualAddress
  physicalAddress := h.physicalAddress
  pageBase := h.physicalAddress &&& not64 (pageSize - 1)
  pageCount := (h.pageEnd - (h.physicalAddress &&& not64 (pageSize - 1))) / pageSize
  alignment := h.alignment
  flags := h.flags

/-- The planner's variables: the candidate and the two flags. -/
structure Planning where
  candidate : ElfPlan
  entryCovered : Bool
  haveEnvelope : Bool

/-- The candidate before the first header. -/
def Planning.start (entry : Nat) : Planning := ⟨⟨entry, 0, 0, []⟩, false, false⟩

/-- The candidate takes one more segment. -/
def Planning.push (st : Planning) (h : ProgramHeader) : Planning :=
  let base := st.candidate.physicalBase
  let stop := st.candidate.physicalEnd
  let wider := h.segment.pageCount ≠ 0
  { candidate :=
      { entry := st.candidate.entry
        physicalBase :=
          if wider ∧ (st.haveEnvelope = false ∨ h.segment.pageBase < base) then h.segment.pageBase else base
        physicalEnd :=
          if wider ∧ (st.haveEnvelope = false ∨ stop < h.pageEnd) then h.pageEnd else stop
        segments := st.candidate.segments ++ [h.segment] }
    entryCovered := st.entryCovered ||
      decide (h.flags &&& pfX ≠ 0 ∧ h.virtualAddress ≤ st.candidate.entry ∧
        st.candidate.entry < h.virtualAddress + h.memorySize)
    haveEnvelope := st.haveEnvelope || decide wider }

/-- The body of the planner's loop. -/
def planHeader (image : Image) (st : Planning) (h : ProgramHeader) : Except ElfStatus Planning :=
  if h.type ≠ 1 then pure st
  else do
    refuse (st.candidate.segments.length = maxLoadSegments) .errSegmentLimit
    refuse (h.memorySize < h.fileSize) .errMemorySize
    refuse (h.flags &&& (pfW ||| pfX) = pfW ||| pfX) .errWx
    refuse (1 < h.alignment ∧ powerOfTwo h.alignment = false) .errAlignment
    refuse (1 < h.alignment ∧
      (h.fileOffset &&& (h.alignment - 1) ≠ h.virtualAddress &&& (h.alignment - 1) ∨
        h.fileOffset &&& (h.alignment - 1) ≠ h.physicalAddress &&& (h.alignment - 1))) .errAlignment
    refuse (addOverflows h.fileOffset h.fileSize ∨ addOverflows h.virtualAddress h.memorySize ∨
      addOverflows h.physicalAddress h.memorySize) .errOverflow
    refuse ((h.virtualAddress ^^^ h.physicalAddress) &&& (pageSize - 1) ≠ 0) .errAlignment
    refuse (image.size < h.fileOffset + h.fileSize) .errFileRange
    refuse (canonicalRange h.virtualAddress (h.virtualAddress + h.memorySize) = false) .errAddress
    refuse (physicalLimit ≤ h.physicalAddress ∨ physicalLimit < h.physicalAddress + h.memorySize)
      .errPhysicalLimit
    refuse (h.segment.pageCount ≠ 0 ∧ ∃ other ∈ st.candidate.segments, other.pageCount ≠ 0 ∧
      rangesOverlap h.segment.pageBase h.pageEnd other.pageBase other.pageEnd = true) .errPageOverlap
    pure (st.push h)

/-- The planner's loop. -/
def planLoop (image : Image) (st : Planning) : List ProgramHeader → Except ElfStatus Planning
  | [] => pure st
  | h :: hs => do
    let st ← planHeader image st h
    planLoop image st hs

/-! ## The whole image -/

/-- `0x7f 'E' 'L' 'F'`, 64 bits, little-endian, the current version. -/
def ident : List UInt8 := [0x7f, 0x45, 0x4c, 0x46, 2, 1, 1]

def Image.entry (image : Image) : Nat := image.read64 24

/-- The program headers, in the file's order. -/
def Image.programHeaders (image : Image) : List ProgramHeader :=
  (List.range (image.read16 56)).map fun i => image.programHeader (image.read64 32 + i * 56)

/-- The planner, past its argument checks. -/
def planImage (image : Image) : Except ElfStatus ElfPlan := do
  refuse (image.size < 64) .errTruncated
  refuse (image.bytes.take 7 ≠ ident ∨ image.read16 16 ≠ 2 ∨ image.read16 18 ≠ 62 ∨
    image.read32 20 ≠ 1 ∨ image.read16 52 ≠ 64) .errFormat
  refuse (canonicalRegion image.entry = 0) .errAddress
  refuse (image.read16 54 ≠ 56 ∨ image.read16 56 = 0 ∨ maxProgramHeaders < image.read16 56)
    .errProgramHeaders
  refuse (addOverflows (image.read64 32) (image.read16 56 * 56)) .errOverflow
  refuse (image.size < image.read64 32 + image.read16 56 * 56) .errTruncated
  let st ← planLoop image (Planning.start image.entry) image.programHeaders
  refuse (st.entryCovered = false) .errEntry
  pure st.candidate

/-- `bbp_elf64_plan`: the status, and what stands in `*plan` afterwards. -/
def elf64Plan (image : Option Image) (plan : Option ElfPlan) : ElfStatus × Option ElfPlan :=
  match image, plan with
  | some image, some _ =>
    match planImage image with
    | .error e => (e, plan)
    | .ok candidate => (.ok, some candidate)
  | _, _ => (.errArgument, plan)

end BearBoot.Loader
