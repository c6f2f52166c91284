import BearBoot.Machine.Settle
import BearBoot.V2.Build

/-!
# The bridges between v1 and v2, as `bridge/bbp_bridge.c` computes them

`bbp_v2_from_v1` follows a v1 tag chain and packs INFO and every tag into
a capsule; `bbp_v2_to_v1` lays the tags of such a capsule out again and
links them. Both check everything first and write afterwards, so each is
a validator over `Except` followed by stores.

The source map of the forward bridge is a function from a physical range
to a pointer, `0` being `NULL`, and `none` is no function at all. Of the
caller's workspace only `info_payload` stands in memory, at the address
that is passed: the builder copies from there. Its two arrays are lists,
and a successful call answers what it left in them (`Forward.visited`,
`Forward.entries`); after a failure nobody reads them.

The bounds of `bbp_bridge.c` on what the 64-bit sums can be are part of
the model; the sums themselves do not wrap below those bounds and are
written plainly. `put64` stores modulo `2 ^ 64` in any case.
-/

set_option autoImplicit false

namespace BearBoot.Bridge

open Machine V2

/-! ## Constants of `bbp.h` and `bbp_bridge.h` -/

def tagSmp : Nat := tagIdOf 0x0001 0x0001

def tagModules : Nat := tagIdOf 0x0001 0x0002

def tagCmdline : Nat := tagIdOf 0x0001 0x0003

def tagMemoryMap : Nat := tagIdOf 0x0002 0x0001

def tagKernelAddress : Nat := tagIdOf 0x0002 0x0003

def tagFramebuffer : Nat := tagIdOf 0x0003 0x0001

def tagPcie : Nat := tagIdOf 0x0003 0x0002

def tagSecurity : Nat := tagIdOf 0x0004 0x0001

def tagAcpi : Nat := tagIdOf 0x0005 0x0001

def tagDevicetree : Nat := tagIdOf 0x0005 0x0002

def tagEfi : Nat := tagIdOf 0x0005 0x0003

def tagHypervisor : Nat := tagIdOf 0x0005 0x0004

def tagSmbios : Nat := tagIdOf 0x0005 0x0005

def tagMetrics : Nat := tagIdOf 0x0006 0x0001

/-- `BBP_V2_ENTRY_V1_INFO`. -/
def entryV1Info : Nat := 0x000100000000fff0

/-- `BBP_V2_BRIDGE_ALLOW_EXTERNAL_PHYS`. -/
def allowExternalPhys : Nat := 1

/-- `BBP_V2_EF_EXTERNAL_PHYS`. -/
def efExternalPhys : Nat := 1

/-- `BBP_V2_EF_V1_WIRE`. -/
def efV1Wire : Nat := 2

def v1MaxTagSize : Nat := 16 * 1024 * 1024

def v1MaxInfoSize : Nat := 64 * 1024 * 1024

def v1MaxPhys : Nat := 2 ^ 48

/-- The complement `~x` of a 32-bit word. -/
def not32 (x : Nat) : Nat := 2 ^ 32 - 1 - x

/-! ## Shared helpers -/

def crcSkip (m : Mem) (data size offset : Nat) : Nat :=
  if size < offset + 8 then 0 else crcSpliced m data size offset

def arrayFits (total base count stride : Nat) : Prop :=
  base ≤ total ∧ count ≤ (total - base) / stride

instance (total base count stride : Nat) : Decidable (arrayFits total base count stride) :=
  inferInstanceAs (Decidable (_ ∧ _))

/-- One of the 64-bit fields at these offsets is not zero. -/
def anyRef (m : Mem) (p : Nat) (refs : List Nat) : Bool := refs.any fun o => get64 m (p + o) != 0

/-- A tag of a fixed form: at least `base` bytes, with references at
`refs`. -/
def fixedRefs (m : Mem) (tag size base : Nat) (refs : List Nat) : Option Bool :=
  if size < base then none else some (anyRef m tag refs)

/-- A tag with an array behind it: `base` bytes with references at `refs`,
then `count` records of `stride` bytes, each with references at
`elementRefs`. -/
def arrayRefs (m : Mem) (tag size base count stride : Nat) (refs elementRefs : List Nat) :
    Option Bool :=
  if size < base then none
  else if ¬ arrayFits size base count stride then none
  else some (anyRef m tag refs ||
    (List.range count).any fun i => anyRef m (tag + base + i * stride) elementRefs)

/-- `tag_external_references`: `none` for a malformed known tag, else
whether conversion can only preserve physical references as external
values. -/
def tagExternalReferences (m : Mem) (tag size : Nat) : Option Bool :=
  let id := get64 m tag
  if id = tagHhdm then fixedRefs m tag size 40 []
  else if id = tagKernelAddress then fixedRefs m tag size 48 []
  else if id = tagMemoryMap then
    if size < 40 then none
    else if get32 m (tag + 36) < 32 ∨
        ¬ arrayFits size 40 (get32 m (tag + 32)) (get32 m (tag + 36)) then none
    else some false
  else if id = tagCmdline then fixedRefs m tag size 56 [32]
  else if id = tagAcpi then fixedRefs m tag size 56 [32, 40]
  else if id = tagSmbios then fixedRefs m tag size 48 [32, 40]
  else if id = tagEfi then fixedRefs m tag size 64 [32, 40]
  else if id = tagDevicetree then fixedRefs m tag size 80 [32, 56]
  else if id = tagSecurity then fixedRefs m tag size 128 [32, 64, 80, 96]
  else if id = tagFramebuffer then
    arrayRefs m tag size 72 (get16 m (tag + 40)) 48 [32, 56] [32]
  else if id = tagSmp then arrayRefs m tag size 48 (get32 m (tag + 32)) 48 [] [32]
  else if id = tagModules then arrayRefs m tag size 40 (get32 m (tag + 32)) 176 [] [0, 96]
  else if id = tagPcie then
    -- a declared device is a reference, whatever its record says
    if size < 48 then none
    else if ¬ arrayFits size 48 (get32 m (tag + 40)) 168 then none
    else some (get64 m (tag + 32) != 0 || get32 m (tag + 40) != 0)
  else if id = tagMetrics then arrayRefs m tag size 72 (get32 m (tag + 40)) 56 [] []
  else if id = tagHypervisor then fixedRefs m tag size 64 []
  -- an opaque v1 body cannot honestly be claimed pointer-free
  else some true

/-- `struct bbp_v2_bridge_report`. -/
structure Report where
  tagCount : Nat
  externalReferenceTags : Nat
  deriving DecidableEq, Repr

/-! ## From v1 to v2 -/

/-- `struct bbp_v2_v1_source`, with `map_user` closed over. -/
structure Source where
  info : Nat
  map : Option (Nat → Nat → Nat)

/-- `normalize_info`: the stores into the payload at `out`. -/
def normalizeInfo (m : Mem) (out info : Nat) : Mem :=
  let m := m.fill out 104
  let m := m.copy out (info + 24) 32
  let m := m.copy (out + 32) (info + 56) 16
  let m := m.copy (out + 48) (info + 72) 16
  let m := put64 m (out + 64) (get64 m (info + 88))
  let m := put64 m (out + 72) (get64 m (info + 96))
  let m := put64 m (out + 80) (get64 m (info + 104))
  let m := put16 m (out + 88) (get16 m (info + 112))
  let m := put16 m (out + 90) (get16 m (info + 114))
  put64 m (out + 96) (get64 m (info + 128))

/-- The checks on INFO, before the workspace is touched. -/
def checkInfo (m : Mem) (source : Source) : Except Error Unit := do
  let info := source.info
  refuse (m.bytes info 16 ≠ infoMagic ∨ get16 m (info + 16) ≠ 1 ∨ get16 m (info + 18) ≠ 1) .source
  refuse (get32 m (info + 20) < 144 ∨ v1MaxInfoSize < get32 m (info + 20) ∨
    crcSkip m info 144 136 ≠ get64 m (info + 136)) .source
  let tagCount := infoTagCount m info
  refuse (1024 - 1 < tagCount) .count
  let current := infoFirstTag m info
  refuse (decide (tagCount = 0) ≠ decide (current = 0) ∨
    (current ≠ 0 ∧ (current &&& 7 ≠ 0 ∨ source.map.isNone))) .source

/-- The loop state of the forward bridge. -/
structure Walk where
  current : Nat
  visited : List Nat
  entries : List BuildEntry
  externalCount : Nat

/-- One turn of the tag loop. -/
def walkTag (m : Mem) (map : Nat → Nat → Nat) (policy : Nat) (st : Walk) : Except Error Walk := do
  let current := st.current
  refuse (current = 0 ∨ current &&& 7 ≠ 0 ∨ v1MaxPhys ≤ current ∨ v1MaxPhys - current < 32) .source
  refuse (current ∈ st.visited) .source
  let mappedHeader := map current 32
  refuse (mappedHeader = 0) .source
  let header := m.bytes mappedHeader 32
  let size := get32 (Mem.ofList header) 8
  refuse (size < 32 ∨ v1MaxTagSize < size) .source
  refuse (v1MaxPhys - current < size) .source
  refuse (∃ prior ∈ st.visited.zip st.entries.tail,
    current < prior.1 + prior.2.size ∧ prior.1 < current + size) .source
  let tag := map current size
  refuse (tag = 0 ∨ m.bytes tag 32 ≠ header ∨ crcSkip m tag size 24 ≠ get64 m (tag + 24)) .source
  let external := tagExternalReferences m tag size
  refuse (external = none) .source
  refuse (external = some true ∧ policy &&& allowExternalPhys = 0) .policy
  let entry : BuildEntry :=
    { type := UInt64.ofNat (get64 m tag)
      flags := if external = some true then UInt32.ofNat (efV1Wire ||| efExternalPhys)
        else UInt32.ofNat efV1Wire
      version := UInt16.ofNat (get16 m (tag + 12))
      alignment := 8
      data := tag
      size := size }
  pure
    { current := get64 m (tag + 16)
      visited := st.visited ++ [current]
      entries := st.entries ++ [entry]
      externalCount := if external = some true then st.externalCount + 1 else st.externalCount }

/-- The workspace's first entry: the normalized INFO. -/
def infoEntry (workspace : Nat) (external : Bool) : BuildEntry where
  type := UInt64.ofNat entryV1Info
  flags := if external then UInt32.ofNat efExternalPhys else 0
  version := 1
  alignment := 8
  data := workspace
  size := 104

/-- The collection of the entries, after the normalized INFO is stored. -/
def walkTags (m : Mem) (source : Source) (policy workspace tagCount first : Nat) :
    Except Error Walk := do
  let external := get64 m (source.info + 128) != 0
  refuse (external = true ∧ policy &&& allowExternalPhys = 0) .policy
  -- a `NULL` map was refused unless there is nothing to map
  let st ← forUpTo (fun _ => walkTag m (source.map.getD fun _ _ => 0) policy) tagCount
    ⟨first, [], [infoEntry workspace external], if external then 1 else 0⟩
  refuse (st.current ≠ 0) .source
  pure st

/-- One turn of the normalization loop: the links of the `i`-th tag
zeroed in place, and its checksum in the directory renewed. -/
def normalizeTag (output : Nat) (m : Mem) (i : Nat) : Mem :=
  let entry := output + 64 + (i + 1) * 48
  let tag := output + get64 m (entry + 16)
  let size := get64 m (entry + 24)
  let m := put64 m (tag + 16) 0
  let m := put64 m (tag + 24) 0
  put64 m (entry + 32) (crc64 (m.bytes tag size))

/-- The normalization of a built capsule, and its new seal. -/
def normalizeCapsule (m : Mem) (output built tagCount : Nat) : Mem :=
  let m := (List.range tagCount).foldl (normalizeTag output) m
  let m := put64 m (output + 40) 0
  put64 m (output + 40) (crcSkip m output built 40)

/-- What the forward bridge answers: the status, `*written`, `*report`,
the workspace's arrays and the memory. -/
structure Forward where
  status : Except Error Unit
  written : Option Nat
  report : Option Report
  visited : List Nat
  entries : List BuildEntry
  mem : Mem

/-- The tags the workspace records: where each was found, and its entry. -/
def Forward.tags (r : Forward) : List (Nat × BuildEntry) := r.visited.zip r.entries.tail

/-- `bbp_v2_from_v1`. -/
def fromV1 (m : Mem) (source : Option Source) (policy : Nat) (workspace : Option Nat)
    (output capacity : Nat) (written : Option Nat) (report : Option Report) : Forward :=
  let fail (e : Error) (m : Mem) : Forward := ⟨.error e, written, report, [], [], m⟩
  match source, workspace, written with
  | some source, some workspace, some _ =>
    if source.info = 0 ∨ output = 0 then fail .null m
    else
      match checkInfo m source with
      | .error e => fail e m
      | .ok () =>
        let tagCount := infoTagCount m source.info
        let first := infoFirstTag m source.info
        let m := normalizeInfo m workspace source.info
        match walkTags m source policy workspace tagCount first with
        | .error e => fail e m
        | .ok st =>
          match build m output capacity (some st.entries) (some 0) with
          | (.error e, _, m) => fail e m
          | (.ok (), built, m) =>
            { status := .ok ()
              written := built
              report := report.map fun _ => ⟨tagCount, st.externalCount⟩
              visited := st.visited
              entries := st.entries
              mem := normalizeCapsule m output (built.getD 0) tagCount }
  | _, _, _ => fail .null m

/-! ## From v2 to v1 -/

/-- `restore_info`: the stores into INFO. -/
def restoreInfo (m : Mem) (info payload tagCount firstTag totalSize : Nat) : Mem :=
  let m := m.fill info 144
  let m := m.blit info infoMagic
  let m := put16 m (info + 16) 1
  let m := put16 m (info + 18) 1
  let m := put32 m (info + 20) totalSize
  let m := m.copy (info + 24) payload 32
  let m := m.copy (info + 56) (payload + 32) 16
  let m := m.copy (info + 72) (payload + 48) 16
  let m := put64 m (info + 88) (get64 m (payload + 64))
  let m := put64 m (info + 96) (get64 m (payload + 72))
  let m := put64 m (info + 104) (get64 m (payload + 80))
  let m := put16 m (info + 112) (get16 m (payload + 88))
  let m := put16 m (info + 114) (get16 m (payload + 90))
  let m := put32 m (info + 116) tagCount
  let m := put64 m (info + 120) firstTag
  let m := put64 m (info + 128) (get64 m (payload + 96))
  put64 m (info + 136) (crcSkip m info 144 136)

/-- `(void)bbp_v2_get_entry(&checked, index, &entry)` on an entry that
starts uninitialised. -/
def entryAt (m : Mem) (checked : View) (index : Nat) : EntryView :=
  ((getEntry (some checked) index (some ⟨0, 0, 0, 0, 0, 0, 0, 0⟩)).val m).2.getD
    ⟨0, 0, 0, 0, 0, 0, 0, 0⟩

/-- The state of the sizing loop. -/
structure Sizing where
  cursor : Nat
  externalCount : Nat

/-- One turn of the sizing loop. -/
def sizeTag (m : Mem) (checked : View) (i : Nat) (st : Sizing) : Except Error Sizing := do
  let entry := entryAt m checked (i + 1)
  refuse (entry.flags &&& efV1Wire = 0 ∨
    entry.flags &&& not32 (efV1Wire ||| efExternalPhys) ≠ 0 ∨
    entry.size < 32 ∨ v1MaxTagSize < entry.size ∨
    get64 m entry.data ≠ entry.type ∨ get32 m (entry.data + 8) ≠ entry.size ∨
    get16 m (entry.data + 12) ≠ entry.version ∨
    get64 m (entry.data + 16) ≠ 0 ∨ get64 m (entry.data + 24) ≠ 0) .source
  let external := tagExternalReferences m entry.data entry.size
  refuse (external = none ∨ (external = some true ∧ entry.flags &&& efExternalPhys = 0)) .source
  let externalCount :=
    if entry.flags &&& efExternalPhys ≠ 0 then st.externalCount + 1 else st.externalCount
  refuse (2 ^ 64 - 1 - 7 < st.cursor) .overflow
  let cursor := (st.cursor + 7) &&& not64 7
  refuse (2 ^ 64 - 1 - cursor < entry.size) .overflow
  refuse (v1MaxInfoSize < cursor + entry.size) .extent
  pure ⟨cursor + entry.size, externalCount⟩

/-- Everything `bbp_v2_to_v1` checks after parsing: the INFO entry, the
tags, the policy and the place of the output. -/
def sizeTags (m : Mem) (checked : View) (policy output capacity outputPhys : Nat) :
    Except Error Sizing := do
  refuse (checked.entryCount = 0) .source
  let info := entryAt m checked 0
  refuse (info.type ≠ entryV1Info ∨ info.version ≠ 1 ∨ info.size ≠ 104 ∨
    info.flags &&& not32 efExternalPhys ≠ 0) .source
  refuse (get64 m (info.data + 96) ≠ 0 ∧ info.flags &&& efExternalPhys = 0) .source
  let st ← forUpTo (sizeTag m checked) (checked.entryCount - 1)
    ⟨144, if info.flags &&& efExternalPhys ≠ 0 then 1 else 0⟩
  refuse (st.externalCount ≠ 0 ∧ policy &&& allowExternalPhys = 0) .policy
  let total := st.cursor
  refuse (capacity < total) .capacity
  refuse (outputPhys = 0 ∨ outputPhys &&& 7 ≠ 0 ∨ v1MaxPhys ≤ outputPhys ∨
    v1MaxPhys - outputPhys < total) .overflow
  refuse (memoryRangesOverlap output total checked.data checked.totalSize) .source
  pure st

/-- One turn of the emission loop: the tag copied, linked to where the
next one will stand, and sealed. -/
def emitTag (checked : View) (output outputPhys tagCount : Nat) (st : Nat × Mem) (i : Nat) :
    Nat × Mem :=
  let (cursor, m) := st
  let entry := entryAt m checked (i + 1)
  let cursor := (cursor + 7) &&& not64 7
  let tag := output + cursor
  let m := m.copy tag entry.data entry.size
  let next := if i + 1 < tagCount then outputPhys + ((cursor + entry.size + 7) &&& not64 7) else 0
  let m := put64 m (tag + 16) next
  let m := put64 m (tag + 24) 0
  let m := put64 m (tag + 24) (crcSkip m tag entry.size 24)
  (cursor + entry.size, m)

/-- The stores of `bbp_v2_to_v1`. -/
def emitHandoff (m : Mem) (checked : View) (output outputPhys total : Nat) : Mem :=
  let tagCount := checked.entryCount - 1
  -- the INFO entry was looked up before anything was written
  let info := entryAt m checked 0
  let m := m.fill output total
  let m := ((List.range tagCount).foldl (emitTag checked output outputPhys tagCount) (144, m)).2
  restoreInfo m output info.data tagCount (if tagCount ≠ 0 then outputPhys + 144 else 0) total

/-- What the reverse bridge answers. -/
structure Reverse where
  status : Except Error Unit
  written : Option Nat
  report : Option Report
  mem : Mem

/-- `bbp_v2_to_v1`. -/
def toV1 (m : Mem) (source : Option View) (policy output capacity outputPhys : Nat)
    (written : Option Nat) (report : Option Report) : Reverse :=
  let fail (e : Error) : Reverse := ⟨.error e, written, report, m⟩
  match source, written with
  | some source, some _ =>
    if source.data = 0 ∨ output = 0 then fail .null
    else
      match (parse source.data source.totalSize (some ⟨0, 0, 0, 0, 0⟩)).val m with
      | (.error e, _) => fail e
      | (.ok (), none) => fail .null
      | (.ok (), some checked) =>
        match sizeTags m checked policy output capacity outputPhys with
        | .error e => fail e
        | .ok st =>
          { status := .ok ()
            written := some st.cursor
            report := report.map fun _ => ⟨checked.entryCount - 1, st.externalCount⟩
            mem := emitHandoff m checked output outputPhys st.cursor }
  | _, _ => fail .null

end BearBoot.Bridge
