import BearBoot.Crc64
import BearBoot.Machine.Pack
import BearBoot.Machine.Settle

/-!
# The header stamper

`tools/bbp_stamp.py` runs after the link. It finds the kernel's header in
the ELF file, fills in the entry point and the physical address of the
request array, and seals the header with its checksum. It has an ELF reader
of its own, which looks at sections and symbols as well as at the program
headers, and is the loader's in nothing.

Python's integers do not wrap, so sums of file words are plain sums here.
What is packed has to fit its field: `struct.pack_into` refuses a number
that does not, and that is the one place where a number can be too large.
A file that is refused is not written.

How a name is decoded (`bytes.decode("utf-8", "replace")`) does not matter
to anything below; it is a parameter of the reader. What the tool prints is
left out, the texts of its errors are not.
-/

set_option autoImplicit false

namespace BearBoot.Stamp

open Machine

/-- What stops the stamper: an `ElfError` with its text, or `struct.error`. -/
inductive StampError where
  | elf (message : String)
  | structError
  deriving DecidableEq, Repr

/-! ## Bytes -/

/-- A little-endian field of `struct.unpack_from`. -/
def unpackFrom (raw : List UInt8) (off width : Nat) : Nat := (Mem.ofList raw).getLE off width

/-- `struct.pack_into("<Q", raw, off, v)`, inside the buffer. -/
def packInto (raw : List UInt8) (off : Nat) (v : Int) : Except StampError (List UInt8) := do
  refuse (v < 0 ∨ 2 ^ 64 ≤ v) .structError
  pure (raw.take off ++ le v.toNat 8 ++ raw.drop (off + 8))

/-- `raw[start:stop]`. -/
def slice (raw : List UInt8) (start stop : Nat) : List UInt8 := (raw.drop start).take (stop - start)

/-- `raw.find(needle)`. -/
def find (raw needle : List UInt8) : Option Nat := raw.tails.findIdx? needle.isPrefixOf

/-- `crc64_xz`. -/
def crc64Xz (data : List UInt8) : Nat :=
  data.foldl (fun crc b => pyCrcTurns 8 (crc ^^^ b.toNat)) (2 ^ 64 - 1) ^^^ (2 ^ 64 - 1)

/-- `f"{n:x}"`. -/
def hex (n : Nat) : String := String.ofList (Nat.toDigits 16 n)

/-! ## `class Elf64` -/

/-- An entry of `load_segments`. -/
structure LoadSegment where
  virtualAddress : Nat
  physicalAddress : Nat
  memorySize : Nat
  deriving DecidableEq, Repr

/-- An entry of `sections`; the fields that nothing reads are left out. -/
structure Section where
  nameOff : Nat
  offset : Nat
  size : Nat
  link : Nat
  name : String
  deriving DecidableEq, Repr

structure Elf64 where
  raw : List UInt8
  entry : Nat
  loadSegments : List LoadSegment
  sections : List Section

/-- One turn of `_read_load_segments`. -/
def readLoadSegment (raw : List UInt8) (phoff phentsize i : Nat) (segments : List LoadSegment) :
    Except StampError (List LoadSegment) := do
  let off := phoff + i * phentsize
  refuse (raw.length < off + 56) (.elf "ELF program header outside file")
  if unpackFrom raw off 4 = 1 then
    pure (segments ++ [⟨unpackFrom raw (off + 16) 8, unpackFrom raw (off + 24) 8, unpackFrom raw (off + 40) 8⟩])
  else pure segments

/-- `_read_load_segments`. -/
def readLoadSegments (raw : List UInt8) (phoff phentsize phnum : Nat) :
    Except StampError (List LoadSegment) := do
  refuse (phnum ≠ 0 ∧ phentsize < 56)
    (.elf ("ELF program header too small: " ++ toString phentsize ++ " < 56"))
  forUpTo (readLoadSegment raw phoff phentsize) phnum []

/-- One turn of the loop of `_read_sections`. -/
def readSection (raw : List UInt8) (shoff shentsize i : Nat) (sections : List Section) :
    Except StampError (List Section) := do
  let off := shoff + i * shentsize
  refuse (raw.length < off + 64) (.elf "ELF section header outside file")
  pure (sections ++ [{
    nameOff := unpackFrom raw off 4
    offset := unpackFrom raw (off + 24) 8
    size := unpackFrom raw (off + 32) 8
    link := unpackFrom raw (off + 40) 4
    name := "" }])

section Reader

variable (decode : List UInt8 → String)

/-- `_cstr`. -/
def cstr (buf : List UInt8) (off : Nat) : Except StampError String := do
  refuse (buf.length ≤ off) (.elf "ELF string offset outside table")
  match (buf.drop off).findIdx? (· = 0) with
  | none => .error (.elf "unterminated ELF string")
  | some n => pure (decode ((buf.drop off).take n))

/-- `_read_sections`. -/
def readSections (raw : List UInt8) (shoff shentsize shnum shstrndx : Nat) :
    Except StampError (List Section) := do
  refuse (shnum ≠ 0 ∧ shentsize < 64)
    (.elf ("ELF section header too small: " ++ toString shentsize ++ " < 64"))
  let sections ← forUpTo (readSection raw shoff shentsize) shnum []
  match sections[shstrndx]? with
  | none => .error (.elf "ELF section-name table index is invalid")
  | some shstr => do
    refuse (raw.length < shstr.offset + shstr.size) (.elf "ELF section-name table outside file")
    let names := slice raw shstr.offset (shstr.offset + shstr.size)
    sections.mapM fun s => do
      let name ← cstr decode names s.nameOff
      pure { s with name := name }

/-- `Elf64.__init__`. -/
def readElf (raw : List UInt8) : Except StampError Elf64 := do
  refuse (raw.length < 64) (.elf "truncated ELF header")
  refuse (raw.take 4 ≠ [0x7f, 0x45, 0x4c, 0x46]) (.elf "not an ELF")
  refuse (raw.getD 4 0 ≠ 2) (.elf "not ELF64")
  refuse (raw.getD 5 0 ≠ 1) (.elf "not little-endian")
  let loadSegments ← readLoadSegments raw (unpackFrom raw 32 8) (unpackFrom raw 54 2) (unpackFrom raw 56 2)
  let sections ← readSections decode raw (unpackFrom raw 40 8) (unpackFrom raw 58 2) (unpackFrom raw 60 2)
    (unpackFrom raw 62 2)
  pure ⟨raw, unpackFrom raw 24 8, loadSegments, sections⟩

/-- `section`. -/
def Elf64.section? (elf : Elf64) (name : String) : Option Section := elf.sections.find? (·.name = name)

/-- The loop of `symbol_addr`, over the table's entries. -/
def scanSymbols (raw names : List UInt8) (want : String) (table : Nat) : List Nat → Except StampError (Option Nat)
  | [] => pure none
  | i :: is => do
    let off := table + i * 24
    let name ← cstr decode names (unpackFrom raw off 4)
    if name = want then pure (some (unpackFrom raw (off + 8) 8)) else scanSymbols raw names want table is

/-- `symbol_addr`. -/
def Elf64.symbolAddr (elf : Elf64) (want : String) : Except StampError (Option Nat) :=
  match elf.section? ".symtab" with
  | none => .error (.elf "no .symtab (stripped?) — pass --requests")
  | some symtab => do
    match elf.sections[symtab.link]? with
    | none => .error (.elf "ELF symbol string-table index is invalid")
    | some strtab => do
      refuse (symtab.size % 24 ≠ 0) (.elf "ELF symbol table has a partial entry")
      refuse (elf.raw.length < symtab.offset + symtab.size) (.elf "ELF symbol table outside file")
      refuse (elf.raw.length < strtab.offset + strtab.size) (.elf "ELF symbol string table outside file")
      scanSymbols decode elf.raw (slice elf.raw strtab.offset (strtab.offset + strtab.size)) want symtab.offset
        (List.range (symtab.size / 24))

end Reader

/-- `load_phys_addr`: the first segment that has the address. -/
def Elf64.loadPhysAddr (elf : Elf64) (vma : Nat) : Except StampError Nat :=
  match elf.loadSegments.find? fun s => s.virtualAddress ≤ vma ∧ vma < s.virtualAddress + s.memorySize with
  | none => .error (.elf ("symbol address 0x" ++ hex vma ++ " is outside PT_LOAD segments"))
  | some s => pure (s.physicalAddress + (vma - s.virtualAddress))

/-! ## `stamp` -/

/-- The arguments of `stamp` that matter to the file. -/
structure Arguments where
  requests : Option Int
  requestsSymbol : Option String
  entry : Option Int
  checkOnly : Bool

/-- `HDR_SIZE`. -/
def hdrSize : Nat := 160

/-- `MAGIC`. -/
def magic : List UInt8 := [0x42, 0x45, 0x41, 0x52, 0x5f, 0x42, 0x4f, 0x4f, 0x54]

/-- `MAGIC_FIELD`. -/
def magicField : List UInt8 := magic ++ List.replicate 7 0

/-- Where the header is: the section, or else the first magic in the file. -/
def headerBase (elf : Elf64) (raw : List UInt8) : Except StampError Nat :=
  match elf.section? ".bbp_hdr" with
  | none =>
    match find raw magic with
    | none => .error (.elf (".bbp_hdr not found and magic not present " ++
        "(did you KEEP(*(.bbp_hdr)) in the linker script?)"))
    | some idx => pure idx
  | some sec => do
    refuse (sec.size < hdrSize) (.elf (".bbp_hdr too small: " ++ toString sec.size ++ " < " ++ toString hdrSize))
    pure sec.offset

/-- The header that is about to be stamped is one. -/
def validateHeader (raw : List UInt8) (base : Nat) : Except StampError Unit := do
  refuse (raw.length < base + hdrSize) (.elf ".bbp_hdr extends outside file")
  refuse (slice raw base (base + 16) ≠ magicField) (.elf "bad magic in .bbp_hdr")
  refuse (unpackFrom raw (base + 16) 2 ≠ 1)
    (.elf ("header version_major " ++ toString (unpackFrom raw (base + 16) 2) ++ " != " ++ toString 1))
  refuse (unpackFrom raw (base + 20) 4 ≠ hdrSize)
    (.elf ("header_size " ++ toString (unpackFrom raw (base + 20) 4) ++ " != " ++ toString hdrSize))

/-- `new_entry`. -/
def newEntry (elf : Elf64) (raw : List UInt8) (base : Nat) (entry : Option Int) : Int :=
  match entry with
  | some e => e
  | none => if unpackFrom raw (base + 32) 8 ≠ 0 then unpackFrom raw (base + 32) 8 else elf.entry

/-- `new_req`. A symbol that is the empty string is no symbol. -/
def newReq (decode : List UInt8 → String) (elf : Elf64) (raw : List UInt8) (base : Nat) (args : Arguments) :
    Except StampError Int :=
  match args.requests, args.requestsSymbol with
  | some r, _ => pure r
  | none, some symbol =>
    if symbol = "" then pure (unpackFrom raw (base + 64) 8 : Int)
    else do
      match ← elf.symbolAddr decode symbol with
      | none => .error (.elf ("symbol '" ++ symbol ++ "' not found"))
      | some a => do
        let phys ← elf.loadPhysAddr a
        pure (phys : Int)
  | none, none => pure (unpackFrom raw (base + 64) 8 : Int)

/-- Write entry and requests, zero the checksum, compute it, write it. -/
def writeHeader (raw : List UInt8) (base : Nat) (entry requests : Int) : Except StampError (List UInt8) := do
  let raw ← packInto raw (base + 32) entry
  let raw ← packInto raw (base + 64) requests
  let raw ← packInto raw (base + 152) 0
  packInto raw (base + 152) (crc64Xz (slice raw base (base + hdrSize)))

/-- The answer of `--check`: the stored checksum is the computed one. -/
def checkHeader (raw : List UInt8) (base : Nat) : Except StampError Bool := do
  let hdr ← packInto (slice raw base (base + hdrSize)) 152 0
  pure (unpackFrom raw (base + 152) 8 = crc64Xz hdr)

/-- `stamp`, from the file's contents to the exit status and the contents it
leaves. -/
def stamp (decode : List UInt8 → String) (raw : List UInt8) (args : Arguments) :
    Except StampError (Nat × List UInt8) := do
  refuse (crc64Xz [0x31, 0x32, 0x33, 0x34, 0x35, 0x36, 0x37, 0x38, 0x39] ≠ 0x995DC9BBDF1939FA)
    (.elf "CRC-64/XZ self-test failed (internal)")
  let elf ← readElf decode raw
  let base ← headerBase elf raw
  validateHeader raw base
  let requests ← newReq decode elf raw base args
  if args.checkOnly then do
    let ok ← checkHeader raw base
    pure (if ok then 0 else 1, raw)
  else do
    let raw ← writeHeader raw base (newEntry elf raw base args.entry) requests
    pure (0, raw)

end BearBoot.Stamp
