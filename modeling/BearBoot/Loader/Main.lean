import BearBoot.Loader.Handoff
import BearBoot.Loader.Load
import BearBoot.Machine.Owned

/-!
# The loader's main program

`efi_main` of `bootloader/efi_main.c` with the helpers that call the
firmware: `read_kernel` reads the file, `load_segments` claims the pages of
its segments, `allocate_low_pages` the arena, the stack and the page tables,
`preflight_memory_geometry` looks at the memory map and
`bbp_uefi_exit_boot_services` leaves the firmware. Behind every failure
stands the same `cleanup`, which knows from the addresses it finds set what
there is to give back.

The firmware answers from the calls so far (`BootServices`), so its answers
come in any order, and every call is written down with its answer (`Call`).
What an answer leaves in the caller's pointer is there whatever the status
says. `allocate_low_pages` and `firmware_allocate` look at the status first;
`read_kernel` and `preflight_memory_geometry` go by the pointer, also where
the call was refused. What the program decides without the firmware is a
function of what it finds in memory (`Found`): the bytes of the file, the
header, the descriptors of the map, the pages under the page tables.

The loop that reads the file ends when the firmware has said that enough was
read; how often it may turn is fuel.
-/

set_option autoImplicit false

namespace BearBoot.Loader.Efi

open Machine

/-! ## The firmware -/

/-- `EFI_BUFFER_TOO_SMALL`. -/
def efiBufferTooSmall : Nat := 2 ^ 63 + 5

/-- The protocols `read_kernel` asks for. -/
inductive Protocol where
  | loadedImage
  | simpleFileSystem
  deriving DecidableEq, Repr

/-- `EFI_ALLOCATE_TYPE`, as far as the loader uses it. -/
inductive AllocateType where
  | maxAddress
  | address
  deriving DecidableEq, Repr

/-- What `GetInfo` leaves: its status, the size, and the `FileSize` in the
buffer. -/
structure InfoAnswer where
  status : Nat
  infoSize : Nat
  fileSize : Nat

/-- What `Read` leaves. -/
structure ReadAnswer where
  status : Nat
  amount : Nat

/-- A call of the firmware, and its answer. The calls of
`bbp_uefi_exit_boot_services` are written down the way it sees them. -/
inductive Call where
  | handleProtocol (protocol : Protocol) (status : Nat)
  | openVolume (status : Nat)
  | openFile (answer : Nat × Bool)
  | getInfo (info infoSize : Nat) (answer : InfoAnswer)
  | read (buffer amount : Nat) (answer : ReadAnswer)
  | close
  | allocatePool (size : Nat) (answer : PageAnswer)
  | freePool (address : Nat)
  | allocatePages (type : AllocateType) (physical pages : Nat) (answer : PageAnswer)
  | freePages (physical pages : Nat)
  | getMemoryMap (memoryMap mapSize : Nat) (answer : MapAnswer)
  | exit (call : FirmwareCall)

/-- `EFI_BOOT_SERVICES` and the file protocol: each answers from the calls so
far and its own arguments. `Open` says beside its status whether it left a
file. -/
structure BootServices where
  handleProtocol : List Call → Protocol → Nat
  openVolume : List Call → Nat
  openFile : List Call → Nat × Bool
  getInfo : List Call → (info infoSize : Nat) → InfoAnswer
  read : List Call → (buffer amount : Nat) → ReadAnswer
  allocatePool : List Call → (size : Nat) → PageAnswer
  allocatePages : List Call → AllocateType → (physical pages : Nat) → PageAnswer
  getMemoryMap : List Call → (memoryMap mapSize : Nat) → MapAnswer
  exitBootServices : List Call → (imageHandle mapKey : Nat) → FirmwareStatus

/-- A program over the firmware. -/
abbrev Prog := Caller Call

section Calls

variable (boot : BootServices)

def handleProtocol (protocol : Protocol) : Prog Nat :=
  .ask (boot.handleProtocol · protocol) (.handleProtocol protocol)

def openVolume : Prog Nat := .ask boot.openVolume .openVolume

def openFile : Prog (Nat × Bool) := .ask boot.openFile .openFile

def getInfo (info infoSize : Nat) : Prog InfoAnswer :=
  .ask (boot.getInfo · info infoSize) (.getInfo info infoSize)

def read (buffer amount : Nat) : Prog ReadAnswer :=
  .ask (boot.read · buffer amount) (.read buffer amount)

def close : Prog Unit := .ask (fun _ => ()) fun _ => .close

def allocatePool (size : Nat) : Prog PageAnswer :=
  .ask (boot.allocatePool · size) (.allocatePool size)

def allocatePages (type : AllocateType) (physical pages : Nat) : Prog PageAnswer :=
  .ask (boot.allocatePages · type physical pages) (.allocatePages type physical pages)

def getMemoryMap (memoryMap mapSize : Nat) : Prog MapAnswer :=
  .ask (boot.getMemoryMap · memoryMap mapSize) (.getMemoryMap memoryMap mapSize)

end Calls

/-- `FreePool`, whose status nobody looks at. -/
def freePool (address : Nat) : Prog Unit := .ask (fun _ => ()) fun _ => .freePool address

/-- `FreePages`, whose status nobody looks at. -/
def freePages (physical pages : Nat) : Prog Unit := .ask (fun _ => ()) fun _ => .freePages physical pages

/-- `if (p != NULL) FreePool(p)`. -/
def freePoolSet (p : Nat) : Prog Unit := if p ≠ 0 then freePool p else pure ()

/-- `if (p != 0) FreePages(p, pages)`. -/
def freePagesSet (p pages : Nat) : Prog Unit := if p ≠ 0 then freePages p pages else pure ()

/-! ## `read_kernel` -/

/-- `BBP_MAX_KERNEL_FILE`. -/
def maxKernelFile : Nat := 16 * 1024 * 1024

/-- What `read_kernel` returns, `*file_bytes` and `*file_size`. -/
structure KernelFile where
  status : Nat
  bytes : Nat
  size : Nat

/-- `if (file != NULL) file->Close(file)`. -/
def closeSet (opened : Bool) : Prog Unit := if opened then close else pure ()

/-- The label `out`. -/
def leaveRead (info : Nat) (opened : Bool) (buffer : Nat) (answer : KernelFile) : Prog KernelFile := do
  freePoolSet info
  closeSet opened
  close
  freePoolSet buffer
  pure answer

/-- The loop over `Read`. -/
def readLoop (boot : BootServices) (buffer size : Nat) : (fuel done : Nat) → Prog Nat
  | 0, _ => fun _ => none
  | fuel + 1, done =>
    if done < size then do
      let answer ← read boot (buffer + done) (size - done)
      if answer.status ≠ efiSuccess ∨ answer.amount = 0 then pure efiLoadError
      else readLoop boot buffer size fuel ((done + answer.amount) % 2 ^ 64)
    else pure efiSuccess

/-- `read_kernel` from the second `GetInfo` on. -/
def readContents (boot : BootServices) (fuel info infoSize : Nat) : Prog KernelFile := do
  let answer ← getInfo boot info infoSize
  if answer.status ≠ efiSuccess ∨ answer.fileSize < 64 ∨ maxKernelFile < answer.fileSize ∨
      2 ^ 64 - 1 < answer.fileSize then leaveRead info true 0 ⟨efiLoadError, 0, 0⟩
  else do
    let buffer ← allocatePool boot answer.fileSize
    if buffer.status ≠ efiSuccess then leaveRead info true buffer.physical ⟨buffer.status, 0, 0⟩
    else do
      let status ← readLoop boot buffer.physical answer.fileSize fuel 0
      if status ≠ efiSuccess then leaveRead info true buffer.physical ⟨status, 0, 0⟩
      else leaveRead info true 0 ⟨status, buffer.physical, answer.fileSize⟩

/-- `read_kernel` from `Open` on, with the volume open. -/
def readFile (boot : BootServices) (fuel : Nat) : Prog KernelFile := do
  let file ← openFile boot
  if file.1 ≠ efiSuccess then leaveRead 0 file.2 0 ⟨file.1, 0, 0⟩
  else do
    let answer ← getInfo boot 0 0
    -- sizeof(EFI_FILE_INFO_PREFIX)
    if answer.status ≠ efiBufferTooSmall ∨ answer.infoSize < 24 then leaveRead 0 true 0 ⟨efiLoadError, 0, 0⟩
    else do
      let info ← allocatePool boot answer.infoSize
      if info.status ≠ efiSuccess then leaveRead info.physical true 0 ⟨info.status, 0, 0⟩
      else readContents boot fuel info.physical answer.infoSize

/-- `read_kernel`. -/
def readKernel (boot : BootServices) (fuel : Nat) : Prog KernelFile := do
  let status ← handleProtocol boot .loadedImage
  if status ≠ efiSuccess then pure ⟨status, 0, 0⟩
  else do
    let status ← handleProtocol boot .simpleFileSystem
    if status ≠ efiSuccess then pure ⟨status, 0, 0⟩
    else do
      let status ← openVolume boot
      if status ≠ efiSuccess then pure ⟨status, 0, 0⟩
      else readFile boot fuel

/-! ## The segments -/

/-- `if (segment->page_count != 0) FreePages(…)`. -/
def freeSegment (seg : SegmentPlan) : Prog Unit :=
  if seg.pageCount ≠ 0 then freePages seg.pageBase seg.pageCount else pure ()

/-- `free_segments`, which is also the way back of `load_segments`. -/
def freeSegments : List SegmentPlan → Prog Unit
  | [] => pure ()
  | seg :: segs => do
    freeSegment seg
    freeSegments segs

/-- The label `fail` of `load_segments`, with the segments `done` behind it. -/
def leaveLoad (done : List SegmentPlan) (status : Nat) : Prog Nat := do
  freeSegments done.reverse
  pure status

/-- The loop of `load_segments`, with `done` behind it. -/
def loadLoop (boot : BootServices) (done : List SegmentPlan) : List SegmentPlan → Prog Nat
  | [] => pure efiSuccess
  | seg :: segs =>
    if seg.pageCount = 0 then loadLoop boot (done ++ [seg]) segs
    else if seg.pageBase = 0 ∨ identityLimit < seg.pageBase + seg.pageCount * pageSize then
      leaveLoad done efiLoadError
    else do
      let answer ← allocatePages boot .address seg.pageBase seg.pageCount
      if answer.status ≠ efiSuccess then leaveLoad done answer.status
      else if answer.physical ≠ seg.pageBase then do
        freePages answer.physical seg.pageCount
        leaveLoad done efiLoadError
      else loadLoop boot (done ++ [seg]) segs

/-- `load_segments`, without its stores. -/
def loadSegments (boot : BootServices) (plan : ElfPlan) : Prog Nat := loadLoop boot [] plan.segments

/-! ## `preflight_memory_geometry` -/

/-- The descriptor passes the checks. -/
def geometryOk (d : Descriptor) : Bool :=
  !(d.numberOfPages = 0 ∨ (2 ^ 64 - 1) / 4096 < d.numberOfPages) &&
  !(2 ^ 64 - 1 - d.numberOfPages * 4096 < d.physicalStart) &&
  -- EfiMemoryMappedIO, EfiMemoryMappedIOPortSpace and EfiReservedMemoryType may be anywhere
  !(d.type ≠ 11 ∧ d.type ≠ 12 ∧ d.type ≠ 0 ∧ identityLimit < d.physicalStart + d.numberOfPages * 4096)

/-- The label `failure`. -/
def leaveGeometry (map : Nat) : Prog Bool := do
  freePoolSet map
  pure false

/-- The loop, with `attempts` turns left; `descriptors` are those of the map. -/
def geometryLoop (boot : BootServices) (descriptors : Nat → Descriptor) :
    (attempts map capacity : Nat) → Prog Bool
  | 0, map, _ => leaveGeometry map
  | attempts + 1, map, capacity => do
    let answer ← getMemoryMap boot map capacity
    if answer.status = .bufferTooSmall then
      -- sizeof(EFI_MEMORY_DESCRIPTOR)
      if answer.descriptorSize < 40 ∨ sizeMax / 8 < answer.descriptorSize then leaveGeometry map
      else if sizeMax - answer.descriptorSize * 8 < answer.mapSize then leaveGeometry map
      else do
        freePoolSet map
        let capacity := answer.mapSize + answer.descriptorSize * 8
        let larger ← allocatePool boot capacity
        if larger.status ≠ efiSuccess then leaveGeometry larger.physical
        else geometryLoop boot descriptors attempts larger.physical capacity
    else if answer.status ≠ .success ∨ answer.descriptorSize = 0 ∨
        answer.mapSize % answer.descriptorSize ≠ 0 then
      leaveGeometry map
    else if (List.range (answer.mapSize / answer.descriptorSize)).all fun i => geometryOk (descriptors i) then do
      freePool map
      pure true
    else leaveGeometry map

/-- `preflight_memory_geometry`. -/
def preflightMemoryGeometry (boot : BootServices) (descriptors : Nat → Descriptor) : Prog Bool :=
  geometryLoop boot descriptors 3 0 0

/-! ## Leaving the firmware -/

/-- `firmware_get_map`, `firmware_exit`, `firmware_allocate` and
`firmware_free`, after `calls`. -/
def exitOps (boot : BootServices) (calls : List Call) : ExitOps where
  getMemoryMap inner := boot.getMemoryMap (calls ++ inner.map .exit)
  exitBootServices inner := boot.exitBootServices (calls ++ inner.map .exit)
  allocate inner size :=
    let answer := boot.allocatePool (calls ++ inner.map .exit) size
    if answer.status ≠ efiSuccess then 0 else answer.physical
  hasGetMemoryMap := true
  hasExitBootServices := true
  hasAllocate := true
  hasFree := true

/-- `bbp_uefi_exit_boot_services`, on the loader's own operations. -/
def leaveFirmware (boot : BootServices) (imageHandle : Nat) : Prog ExitStatus := fun calls =>
  let (status, _, inner) :=
    exitBootServices (some (exitOps boot calls)) imageHandle (some ⟨0, 0, 0, 0, 0, 0, 0⟩)
  some (status, calls ++ inner.map .exit)

/-! ## `efi_main` -/

/-- `BBP_ARENA_PAGES`. -/
def arenaPages : Nat := 256

/-- `BBP_STACK_PAGES`. -/
def stackPages : Nat := 16

/-- `BBP_PAGE_TABLE_PAGES`. -/
def pageTablePages : Nat := 32

/-- `allocate_low_pages`. -/
def allocateLowPages (boot : BootServices) (pages : Nat) : Prog PageAnswer :=
  allocatePages boot .maxAddress (identityLimit - 1) pages

/-- What the loader finds in memory: the file it has read, the flags of the
header `find_header` finds and `validate_header_contract` takes, `ImageBase`
and `ImageSize` of its own image, the descriptors of the map, and the memory
`build_page_tables` works on. -/
structure Found where
  file : Image
  headerFlags : Option Nat
  loadedImage : Option (Nat × Nat)
  descriptors : Nat → Descriptor
  mem : Mem

/-- How `efi_main` ends: it returns `EFI_LOAD_ERROR` for a reason it prints,
or has left the firmware and does not return. -/
inductive Outcome where
  | failed (reason : String)
  | left
  deriving DecidableEq, Repr

/-- The variables `cleanup` looks at; no `segments` is `segments_loaded == 0`. -/
structure Claimed where
  tables : Nat
  stack : Nat
  arena : Nat
  segments : List SegmentPlan
  kernelFile : Nat

/-- The label `cleanup`. -/
def cleanup (claimed : Claimed) (reason : String) : Prog Outcome := do
  freePagesSet claimed.tables pageTablePages
  freePagesSet claimed.stack stackPages
  freePagesSet claimed.arena arenaPages
  freeSegments claimed.segments
  freePoolSet claimed.kernelFile
  pure (.failed reason)

/-- `efi_main` with its pages allocated. -/
def depart (boot : BootServices) (found : Found) (imageHandle : Nat) (plan : ElfPlan) (flags : Nat)
    (arena stack tables : Nat) : Prog Outcome := do
  let claimed : Claimed := ⟨tables, stack, arena, plan.segments, 0⟩
  let low ← preflightMemoryGeometry boot found.descriptors
  if low = false then cleanup claimed "memory geometry exceeds 4 GiB contract"
  -- BBP_HF_UNMAP_NULL_PAGE
  else if (buildPageTables ⟨⟨tables, 0, pageTablePages⟩, found.mem⟩ plan false (flags &&& 4 ≠ 0)).isNone then
    cleanup claimed "page tables"
  else do
    let status ← leaveFirmware boot imageHandle
    if status ≠ .ok then cleanup claimed "ExitBootServices" else pure .left

/-- `efi_main` from the three allocations on. -/
def allocateHandoff (boot : BootServices) (found : Found) (imageHandle : Nat) (plan : ElfPlan)
    (flags : Nat) : Prog Outcome := do
  let arena ← allocateLowPages boot arenaPages
  if arena.status ≠ efiSuccess then cleanup ⟨0, 0, 0, plan.segments, 0⟩ "handoff allocations"
  else do
    let stack ← allocateLowPages boot stackPages
    if stack.status ≠ efiSuccess then cleanup ⟨0, 0, arena.physical, plan.segments, 0⟩ "handoff allocations"
    else do
      let tables ← allocateLowPages boot pageTablePages
      if tables.status ≠ efiSuccess then
        cleanup ⟨0, stack.physical, arena.physical, plan.segments, 0⟩ "handoff allocations"
      else depart boot found imageHandle plan flags arena.physical stack.physical tables.physical

/-- `efi_main` with the file in memory. -/
def bootKernel (boot : BootServices) (found : Found) (imageHandle kernelFile : Nat) : Prog Outcome :=
  match planImage found.file with
  | .error _ => cleanup ⟨0, 0, 0, [], kernelFile⟩ "ELF64 plan"
  | .ok plan => do
    let status ← loadSegments boot plan
    if status ≠ efiSuccess then cleanup ⟨0, 0, 0, [], kernelFile⟩ "PT_LOAD allocation"
    else
      match found.headerFlags with
      | none => cleanup ⟨0, 0, 0, plan.segments, kernelFile⟩ "Bear Header"
      | some flags => do
        freePool kernelFile
        match found.loadedImage with
        | none => cleanup ⟨0, 0, 0, plan.segments, 0⟩ "EFI image above identity map"
        | some (imageBase, imageSize) =>
          if identityLimit ≤ imageBase ∨ identityLimit - imageBase < imageSize then
            cleanup ⟨0, 0, 0, plan.segments, 0⟩ "EFI image above identity map"
          else allocateHandoff boot found imageHandle plan flags

/-- `efi_main`; no `boot` is a system table without boot services. -/
def efiMain (boot : Option BootServices) (found : Found) (imageHandle fuel : Nat) : Prog Outcome :=
  match boot with
  | none => pure (.failed "system table")
  | some boot => do
    let file ← readKernel boot fuel
    if file.status ≠ efiSuccess then pure (.failed "open \\kernel.elf")
    else bootKernel boot found imageHandle file.bytes

end BearBoot.Loader.Efi
