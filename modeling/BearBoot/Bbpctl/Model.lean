import Mathlib.Data.List.Sort
import BearBoot.Crc64
import BearBoot.Wire

/-!
# The host-side capture reader, as `tools/bbpctl.py` computes it

A BBPC file is a header, a copy of INFO, a directory and the bytes of the
tags, each with the physical address it was captured at. `parse_capture`
refuses only what it cannot read at all. Everything else it notes, in
words, and goes on; `walk_chain` follows the links through the directory
and notes what stopped it; `evidence_bytes` refuses when anything was
noted that is not a tag's checksum.

The notes are the strings of the source, because `evidence_bytes` tells
them apart as strings. Numbers in them are written in decimal or, behind
`0x`, in hexadecimal.

Python's integers do not wrap and its slices clamp. `checksum_with_zero`
raises when its field is outside the data; here a call takes the proof
that it is not. INFO's names, architecture and processor count are only
displayed and are left out.
-/

set_option autoImplicit false

namespace BearBoot.Bbpctl

open Machine

/-! ## Texts -/

/-- `f"{n}"`. -/
def dec (n : Nat) : String := String.ofList (Nat.toDigits 10 n)

/-- `f"0x{n:x}"`. -/
def hex (n : Nat) : String := "0x" ++ String.ofList (Nat.toDigits 16 n)

/-- `f"0x{n:016x}"`. -/
def hex16 (n : Nat) : String :=
  let digits := Nat.toDigits 16 n
  "0x" ++ String.ofList (List.replicate (16 - digits.length) '0' ++ digits)

/-- `if c: errors.append(text)`. -/
def note (c : Prop) [Decidable c] (text : String) : List String := if c then [text] else []

/-! ## The container -/

/-- `"BBP-CAPTURE-V1\0\0"`. -/
def captureMagic : List UInt8 :=
  [0x42, 0x42, 0x50, 0x2d, 0x43, 0x41, 0x50, 0x54, 0x55, 0x52, 0x45, 0x2d, 0x56, 0x31, 0, 0]

/-- `EVIDENCE_MAGIC`. -/
def evidenceMagic : List UInt8 :=
  [0x42, 0x42, 0x50, 0x2d, 0x45, 0x56, 0x49, 0x44, 0x45, 0x4e, 0x43, 0x45, 0, 1, 0, 0]

/-- What the script raises. -/
inductive Raised where
  | format (text : String)
  | verification (text : String)
  deriving DecidableEq, Repr

/-- The fields of `HEADER_STRUCT`, behind the magic. -/
structure Header where
  formatMajor : Nat
  formatMinor : Nat
  headerSize : Nat
  flags : Nat
  bbpMajor : Nat
  bbpMinor : Nat
  infoBytes : Nat
  count : Nat
  dirEntrySize : Nat
  reserved0 : Nat
  infoPhys : Nat
  dirOffset : Nat
  dataOffset : Nat
  fileSize : Nat
  containerCrc64 : Nat
  reserved1 : Nat
  deriving DecidableEq, Repr

/-- `DirectoryEntry`. -/
structure DirectoryEntry where
  index : Nat
  sourcePhys : Nat
  payloadOffset : Nat
  dataSize : Nat
  flags : Nat
  payload : List UInt8
  deriving DecidableEq, Repr

/-- The fields of INFO that are checked. -/
structure InfoFields where
  magic : List UInt8
  versionMajor : Nat
  versionMinor : Nat
  infoSize : Nat
  tagCount : Nat
  firstTag : Nat
  nextContext : Nat
  checksum : Nat
  checksumExpected : Nat
  deriving DecidableEq, Repr

/-- `Capture`; `info_fields` is empty when INFO is truncated. -/
structure Capture where
  raw : List UInt8
  header : Header
  info : List UInt8
  infoFields : Option InfoFields
  entries : List DirectoryEntry
  containerErrors : List String
  infoErrors : List String
  deriving DecidableEq, Repr

/-- `data[lo:hi]`. -/
def slice (data : List UInt8) (lo hi : Nat) : List UInt8 := (data.drop lo).take (hi - lo)

def align8 (value : Nat) : Nat := (value + 7) / 8 * 8

/-- `checksum_with_zero`. -/
def checksumWithZero (data : List UInt8) (offset : Nat) (_ : offset + 8 ≤ data.length) : Nat :=
  pyCrc64 (data.take offset ++ List.replicate 8 0 ++ data.drop (offset + 8))

/-- `HEADER_STRUCT.unpack_from(raw)`. -/
def unpackHeader (raw : List UInt8) : Header :=
  let r := Mem.ofList raw
  { formatMajor := get16 r 16, formatMinor := get16 r 18, headerSize := get32 r 20,
    flags := get32 r 24, bbpMajor := get16 r 28, bbpMinor := get16 r 30, infoBytes := get32 r 32,
    count := get32 r 36, dirEntrySize := get32 r 40, reserved0 := get32 r 44,
    infoPhys := get64 r 48, dirOffset := get64 r 56, dataOffset := get64 r 64,
    fileSize := get64 r 72, containerCrc64 := get64 r 80, reserved1 := get64 r 88 }

/-- `_parse_info`. -/
def parseInfo (info : List UInt8) : Option InfoFields × List String :=
  if h : info.length = 144 then
    let i := Mem.ofList info
    let fields : InfoFields :=
      { magic := i.bytes 0 16, versionMajor := get16 i 16, versionMinor := get16 i 18,
        infoSize := get32 i 20, tagCount := get32 i 116, firstTag := get64 i 120,
        nextContext := get64 i 128, checksum := get64 i 136,
        checksumExpected := checksumWithZero info 136 (by omega) }
    (some fields,
      note (fields.magic ≠ infoMagic) "INFO magic is not the full 16-byte BEAR_INFO magic" ++
      note (fields.versionMajor ≠ 1)
        ("INFO version_major is " ++ dec fields.versionMajor ++ ", expected 1") ++
      note (¬ (144 ≤ fields.infoSize ∧ fields.infoSize ≤ 64 * 1024 * 1024))
        ("INFO info_size " ++ dec fields.infoSize ++ " is outside 144..67108864") ++
      note (1024 < fields.tagCount)
        ("INFO tag_count " ++ dec fields.tagCount ++ " exceeds 1024") ++
      note (fields.firstTag ≠ 0 ∧ fields.firstTag % 8 ≠ 0)
        ("INFO first_tag " ++ hex fields.firstTag ++ " is not 8-byte aligned") ++
      note (fields.nextContext ≠ 0 ∧ fields.nextContext % 8 ≠ 0)
        ("INFO next_context " ++ hex fields.nextContext ++ " is not 8-byte aligned") ++
      note (fields.checksum ≠ fields.checksumExpected)
        ("INFO checksum mismatch: stored " ++ hex16 fields.checksum ++ ", expected " ++
          hex16 fields.checksumExpected))
  else (none, ["INFO is truncated: " ++ dec info.length ++ " bytes, expected 144"])

/-- The notes of the header, field by field and in the order of the
source. -/
def headerErrors (raw : List UInt8) (h : Header) (hraw : 96 ≤ raw.length) : List String :=
  ([("format_major", h.formatMajor, 1), ("format_minor", h.formatMinor, 0),
    ("header_size", h.headerSize, 96), ("flags", h.flags, 0), ("bbp_major", h.bbpMajor, 1),
    ("info_bytes", h.infoBytes, 144), ("dir_entry_size", h.dirEntrySize, 24),
    ("reserved0", h.reserved0, 0), ("dir_offset", h.dirOffset, 240),
    ("reserved1", h.reserved1, 0)].flatMap fun (name, value, expected) =>
      note (value ≠ expected)
        ("header " ++ name ++ " is " ++ dec value ++ ", expected " ++ dec expected)) ++
  note (1024 < h.count) ("header count " ++ dec h.count ++ " exceeds 1024") ++
  note (h.count ≤ 1024 ∧ h.dataOffset ≠ align8 (240 + min h.count 1024 * 24))
    ("header data_offset is " ++ dec h.dataOffset ++ ", expected " ++
      dec (align8 (240 + min h.count 1024 * 24))) ++
  note (h.infoPhys = 0 ∨ h.infoPhys % 8 ≠ 0)
    "header info_phys must be nonzero and 8-byte aligned" ++
  note (2 ^ 64 - 1 < h.infoPhys + 144) "INFO physical source range wraps" ++
  note (h.fileSize ≠ raw.length)
    ("header file_size is " ++ dec h.fileSize ++ ", actual size is " ++ dec raw.length) ++
  note (64 * 1024 * 1024 < raw.length ∨ 64 * 1024 * 1024 < h.fileSize)
    "container file_size exceeds the 64 MiB limit" ++
  note (h.containerCrc64 ≠ checksumWithZero raw 80 (by omega))
    ("container checksum mismatch: stored " ++ hex16 h.containerCrc64 ++ ", expected " ++
      hex16 (checksumWithZero raw 80 (by omega)))

/-- One turn of the loop that reads the directory. -/
def readEntry (raw : List UInt8) (index : Nat) : DirectoryEntry :=
  let r := Mem.ofList raw
  let offset := 240 + index * 24
  let payloadOffset := get64 r (offset + 8)
  let dataSize := get32 r (offset + 16)
  let payload :=
    if payloadOffset + dataSize ≤ raw.length then
      slice raw payloadOffset (payloadOffset + dataSize)
    else []
  ⟨index, get64 r offset, payloadOffset, dataSize, get32 r (offset + 20), payload⟩

/-- What the loop over the entries carries along: a range is its start, its
end and whose it is. -/
structure Progress where
  errors : List String
  sourceSeen : List (Nat × Nat)
  payloadSeen : List (Nat × Nat)
  fileRanges : List (Nat × Nat × Nat)
  sourceRanges : List (Nat × Nat × String)

/-- One turn of the loop over the entries. -/
def checkEntry (size expectedData : Nat) (st : Progress) (e : DirectoryEntry) : Progress :=
  let label := "directory entry " ++ dec e.index
  let finish := e.payloadOffset + e.dataSize
  let sourceEnd := e.sourcePhys + e.dataSize
  let sized := 32 ≤ e.dataSize ∧ e.dataSize ≤ 16 * 1024 * 1024
  { errors := st.errors ++
      note (e.sourcePhys = 0 ∨ e.sourcePhys % 8 ≠ 0)
        (label ++ " source_phys must be nonzero and 8-byte aligned") ++
      (match st.sourceSeen.lookup e.sourcePhys with
        | some index => [label ++ " duplicates source_phys from entry " ++ dec index]
        | none => []) ++
      note (e.payloadOffset % 8 ≠ 0) (label ++ " payload_offset is not 8-byte aligned") ++
      (match st.payloadSeen.lookup e.payloadOffset with
        | some index => [label ++ " duplicates payload_offset from entry " ++ dec index]
        | none => []) ++
      note (¬ sized) (label ++ " data_size " ++ dec e.dataSize ++ " is outside 32..16777216") ++
      note (e.flags ≠ 0) (label ++ " flags is " ++ dec e.flags ++ ", expected 0") ++
      (if 2 ^ 64 - 1 < finish then [label ++ " payload range wraps"]
        else if e.payloadOffset < expectedData then [label ++ " payload begins before data_offset"]
        else if size < finish then [label ++ " payload extends beyond the file"]
        else []) ++
      note (e.sourcePhys ≠ 0 ∧ sized ∧ 2 ^ 64 - 1 < sourceEnd) (label ++ " source range wraps")
    sourceSeen :=
      if (st.sourceSeen.lookup e.sourcePhys).isSome then st.sourceSeen
      else (e.sourcePhys, e.index) :: st.sourceSeen
    payloadSeen :=
      if (st.payloadSeen.lookup e.payloadOffset).isSome then st.payloadSeen
      else (e.payloadOffset, e.index) :: st.payloadSeen
    fileRanges :=
      if finish ≤ 2 ^ 64 - 1 ∧ expectedData ≤ e.payloadOffset ∧ finish ≤ size then
        st.fileRanges ++ [(e.payloadOffset, finish, e.index)]
      else st.fileRanges
    sourceRanges :=
      if e.sourcePhys ≠ 0 ∧ sized ∧ sourceEnd ≤ 2 ^ 64 - 1 then
        st.sourceRanges ++ [(e.sourcePhys, sourceEnd, "entry " ++ dec e.index)]
      else st.sourceRanges }

/-- The order of `file_ranges.sort()`. -/
def fileLe (a b : Nat × Nat × Nat) : Bool :=
  decide (a.1 < b.1) || (a.1 == b.1 &&
    (decide (a.2.1 < b.2.1) || (a.2.1 == b.2.1 && decide (a.2.2 ≤ b.2.2))))

/-- The order of `source_ranges.sort()`. -/
def sourceLe (a b : Nat × Nat × String) : Bool :=
  decide (a.1 < b.1) || (a.1 == b.1 &&
    (decide (a.2.1 < b.2.1) || (a.2.1 == b.2.1 && decide (a.2.2 ≤ b.2.2))))

/-- The loop over the sorted payload ranges: the notes and the cursor. -/
def walkFile (raw : List UInt8) : (cursor : Nat) → (previous : Option (Nat × Nat × Nat)) →
    List (Nat × Nat × Nat) → List String × Nat
  | cursor, _, [] => ([], cursor)
  | cursor, previous, (start, finish, index) :: rest =>
    let padding := note (cursor < start ∧ ∃ b ∈ slice raw cursor start, b ≠ 0)
      ("nonzero payload padding before entry " ++ dec index)
    let noted :=
      match previous with
      | some (_, before, other) =>
        if start < before then
          ["payload ranges for entries " ++ dec other ++ " and " ++ dec index ++ " overlap"]
        else padding
      | none => padding
    let (errors, last) := walkFile raw (max cursor finish) (some (start, finish, index)) rest
    (noted ++ errors, last)

/-- The loop over neighbouring source ranges. -/
def walkSources : List (Nat × Nat × String) → List String
  | a :: b :: rest =>
    note (b.1 < a.2.1) ("physical source ranges for " ++ a.2.2 ++ " and " ++ b.2.2 ++ " overlap") ++
      walkSources (b :: rest)
  | _ => []

/-- The notes of the directory and of what it leads to. -/
def directoryErrors (raw : List UInt8) (h : Header) (entries : List DirectoryEntry)
    (directoryEnd : Nat) : List String :=
  let expectedData := align8 directoryEnd
  let st := entries.foldl (checkEntry raw.length expectedData)
    ⟨[], [], [], [], [(h.infoPhys, h.infoPhys + 144, "INFO")]⟩
  let (fileErrors, cursor) := walkFile raw expectedData none (st.fileRanges.insertionSort fun a b => fileLe a b = true)
  note (raw.length < directoryEnd) "directory extends beyond the file" ++
  note (directoryEnd ≤ raw.length ∧ expectedData ≤ raw.length ∧
      ∃ b ∈ slice raw directoryEnd expectedData, b ≠ 0)
    "nonzero padding between directory and payload area" ++
  st.errors ++ fileErrors ++
  note (cursor < raw.length)
    ("trailing data after final payload: " ++ dec (raw.length - cursor) ++ " bytes") ++
  walkSources (st.sourceRanges.insertionSort fun a b => sourceLe a b = true)

/-- `parse_capture`. -/
def parseCapture (raw : List UInt8) : Except Raised Capture :=
  if hraw : raw.length < 96 then
    .error (.format ("truncated BBPC header: " ++ dec raw.length ++ " bytes, expected 96"))
  else if slice raw 0 16 ≠ captureMagic then
    .error (.format "not a BBPC v1 file (bad 16-byte capture magic)")
  else
    let header := unpackHeader raw
    let info := slice raw 96 240
    let (infoFields, infoErrors) := parseInfo info
    let versionErrors :=
      match infoFields with
      | some f => note (¬ (f.versionMajor = header.bbpMajor ∧ f.versionMinor = header.bbpMinor))
        "INFO version does not match the BBP version in the container header"
      | none => []
    let count := if header.count ≤ 1024 then header.count else 0
    let directoryEnd := 240 + count * 24
    let entries :=
      if raw.length < directoryEnd then [] else (List.range count).map (readEntry raw)
    .ok { raw, header, info, infoFields, entries
          containerErrors := headerErrors raw header (Nat.not_lt.mp hraw) ++
            directoryErrors raw header entries directoryEnd
          infoErrors := infoErrors ++ versionErrors }

/-! ## The chain -/

/-- `ChainTag`. -/
structure ChainTag where
  index : Nat
  sourcePhys : Nat
  tagId : Nat
  tagSize : Nat
  tagVersion : Nat
  flags : Nat
  nextTag : Nat
  checksum : Nat
  checksumValid : Bool
  payload : List UInt8
  deriving DecidableEq, Repr

/-- The loop of `walk_chain` with `steps` tags still allowed: `index` is
the number of tags found and `visited` the links followed. -/
def walkLoop (entries : List DirectoryEntry) :
    (steps index pointer : Nat) → (visited : List Nat) → List ChainTag × List String
  | 0, _, pointer, _ => ([], note (pointer ≠ 0) "tag walk exceeds 1024 steps")
  | steps + 1, index, pointer, visited =>
    if pointer = 0 then ([], [])
    else if pointer % 8 ≠ 0 then ([], ["tag link " ++ hex pointer ++ " is not 8-byte aligned"])
    else if pointer ∈ visited then ([], ["tag chain cycle at source_phys " ++ hex pointer])
    else
      match entries.find? (·.sourcePhys = pointer) with
      | none => ([], ["tag link " ++ hex pointer ++ " has no directory entry"])
      | some entry =>
        let payload := entry.payload
        let p := Mem.ofList payload
        if h : payload.length < 32 then
          ([], ["tag at " ++ hex pointer ++ " has no complete 32-byte header"])
        else if ¬ (32 ≤ get32 p 8 ∧ get32 p 8 ≤ 16 * 1024 * 1024) then
          ([], ["tag at " ++ hex pointer ++ " size " ++ dec (get32 p 8) ++
            " is outside 32..16777216"])
        else if get32 p 8 ≠ entry.dataSize ∨ get32 p 8 ≠ payload.length then
          ([], ["tag at " ++ hex pointer ++ " size " ++ dec (get32 p 8) ++
            " does not match directory size " ++ dec entry.dataSize])
        else
          let tag : ChainTag :=
            ⟨index, pointer, get64 p 0, get32 p 8, get16 p 12, get16 p 14, get64 p 16, get64 p 24,
              get64 p 24 = checksumWithZero payload 24 (by omega), payload⟩
          let (tags, errors) := walkLoop entries steps (index + 1) tag.nextTag (pointer :: visited)
          (tag :: tags, errors)

/-- `walk_chain`. -/
def walkChain (c : Capture) : List ChainTag × List String :=
  match c.infoFields with
  | none => ([], ["cannot walk tags without a complete INFO"])
  | some f => walkLoop c.entries 1024 0 f.firstTag []

/-! ## Evidence -/

/-- The note of a tag whose checksum does not match. -/
def crcText (tag : ChainTag) : String :=
  "tag " ++ dec tag.index ++ " at " ++ hex tag.sourcePhys ++ " checksum mismatch"

def crcErrors (tags : List ChainTag) : List String :=
  (tags.filter fun tag => !tag.checksumValid).map crcText

/-- `validation`. -/
def validation (c : Capture) : List String × List ChainTag × List String :=
  let (tags, chainErrors) := walkChain c
  let declared :=
    match c.infoFields with
    | none => []
    | some f =>
      note (chainErrors = [] ∧ f.tagCount ≠ tags.length)
        ("INFO tag_count is " ++ dec f.tagCount ++ ", reachable tag count is " ++ dec tags.length) ++
      note (chainErrors = [] ∧ ¬ (tags.map ChainTag.sourcePhys ⊆ c.entries.map DirectoryEntry.sourcePhys ∧
          c.entries.map DirectoryEntry.sourcePhys ⊆ tags.map ChainTag.sourcePhys))
        "directory contains tags that are not exactly the reachable chain"
  (c.containerErrors ++ c.infoErrors ++ chainErrors ++ crcErrors tags ++ declared, tags, chainErrors)

/-- `evidence_bytes`: the stream, the tags in it and the tags left out. -/
def evidenceBytes (c : Capture) : Except Raised (List UInt8 × List ChainTag × List ChainTag) :=
  let (errors, tags, chainErrors) := validation c
  let fatal := errors.filter fun e => e ∉ crcErrors tags
  if chainErrors ≠ [] ∨ fatal ≠ [] then
    .error (.verification ("evidence refused: " ++
      String.intercalate "; " (if fatal ≠ [] then fatal else chainErrors)))
  else
    let included := tags.filter fun tag => tag.checksumValid
    let skipped := tags.filter fun tag => !tag.checksumValid
    .ok (evidenceMagic ++ c.info ++ (included.map ChainTag.payload).flatten, included, skipped)

end BearBoot.Bbpctl
