import BearBoot.V2.Capsule

/-!
# The C capsule parser, as `v2/bbp_v2.c` computes it

`bbp_v2_parse` and `bbp_v2_get_entry`, check by check and in the source's
order. A check is `refuseIf`, a loop is `forUpTo`, and every byte looked at
is logged: where the C stops comparing at the first difference
(`bytes_equal`, `bytes_are_zero`) the log has the whole run, which can only
be more than what is read.

Sums of 64-bit offsets are taken modulo `2 ^ 64`. That none of them wraps
on a capsule that got so far is proved, not assumed.

Statuses: `BBP_V2_OK` is `.ok ()`, every other code is an `Error`.
-/

namespace BearBoot.V2

open Machine

/-- `bbp_v2_status_t`, without `BBP_V2_OK`. -/
inductive Error where
  | null
  | magic
  | version
  | format
  | extent
  | overflow
  | count
  | alignment
  | overlap
  | padding
  | crc
  | work
  | capacity
  | policy
  | source
  deriving DecidableEq, Repr

/-- `struct bbp_v2_view`. -/
structure View where
  data : Nat
  totalSize : Nat
  directoryOffset : Nat
  flags : Nat
  entryCount : Nat
  deriving DecidableEq, Repr

/-- `struct bbp_v2_entry_view`. -/
structure EntryView where
  type : Nat
  flags : Nat
  version : Nat
  alignment : Nat
  offset : Nat
  size : Nat
  checksum : Nat
  data : Nat
  deriving DecidableEq, Repr

/-- A validator over memory. -/
abbrev Check := Checked Event Error

def read16 (p : Nat) : Check Nat := Checked.lift (load16 p)

def read32 (p : Nat) : Check Nat := Checked.lift (load32 p)

def read64 (p : Nat) : Check Nat := Checked.lift (load64 p)

def readBytes (p n : Nat) : Check (List UInt8) := Checked.lift (loadBytes p n)

/-- Write the answer to `*out`, and only the answer. -/
def publish {α : Type} (x : Check α) (out : Option α) :
    Traced Event (Except Error Unit × Option α) :=
  (show Traced Event (Except Error α) from x) >>= fun answer =>
    match answer with
    | .ok a => pure (.ok (), some a)
    | .error e => pure (.error e, out)

/-! ## The checks -/

def powerOfTwo (value : Nat) : Prop := value ≠ 0 ∧ value &&& (value - 1) = 0

instance (value : Nat) : Decidable (powerOfTwo value) := inferInstanceAs (Decidable (_ ∧ _))

def spanOverlaps (a as b bs : Nat) : Prop := a < (b + bs) % 2 ^ 64 ∧ b < (a + as) % 2 ^ 64

instance (a as b bs : Nat) : Decidable (spanOverlaps a as b bs) :=
  inferInstanceAs (Decidable (_ ∧ _))

def directoryEntry (capsule directoryOffset index : Nat) : Nat :=
  capsule + directoryOffset + index * 48

/-- `crc_with_zero_checksum`. -/
def crcWithZeroChecksum (capsule extent : Nat) : Traced Event Nat := loadCrcSpliced capsule extent 40

/-- `if (hi > lo && !bytes_are_zero(capsule + lo, hi - lo)) return BBP_V2_ERR_PADDING;` -/
def checkZero (capsule lo hi : Nat) : Check Unit :=
  if lo < hi then do
    let pad ← readBytes (capsule + lo) (hi - lo)
    Checked.refuseIf (∃ b ∈ pad, b ≠ 0) .padding
  else pure ()

/-- One selection of `validate_padding`: the first span at or past the
cursor. -/
def selectSpan (capsule extent directoryOffset entryCount cursor : Nat) : Traced Event Span :=
  let best : Span := if cursor = 0 then ⟨0, 64⟩ else ⟨extent, 0⟩
  let best : Span :=
    if entryCount ≠ 0 ∧ cursor ≤ directoryOffset ∧ directoryOffset < best.start then
      ⟨directoryOffset, entryCount * 48⟩
    else best
  forUpTo (fun i best => do
    let entry := directoryEntry capsule directoryOffset i
    let start ← load64 (entry + 16)
    if cursor ≤ start ∧ start < best.start then do
      let size ← load64 (entry + 24)
      pure ⟨start, size⟩
    else pure best) entryCount best

/-- One turn of `validate_padding`: the cursor in, the cursor out. -/
def paddingTurn (capsule extent directoryOffset entryCount cursor : Nat) : Check Nat := do
  let best ← Checked.lift (selectSpan capsule extent directoryOffset entryCount cursor)
  Checked.refuseIf (best.size = 0) .format
  checkZero capsule cursor best.start
  pure ((best.start + best.size) % 2 ^ 64)

def validatePadding (capsule extent directoryOffset entryCount : Nat) : Check Unit := do
  let spanCount := entryCount + 1 + (if entryCount ≠ 0 then 1 else 0)
  let cursor ← forUpTo
    (fun _ cursor => paddingTurn capsule extent directoryOffset entryCount cursor) spanCount 0
  checkZero capsule cursor extent

/-- The overlap test against the entries before the `i`-th. -/
def checkPriors (capsule directoryOffset offset size i : Nat) : Check Unit :=
  forUpTo (fun j _ => do
    let prior := directoryEntry capsule directoryOffset j
    let priorOffset ← read64 (prior + 16)
    let priorSize ← read64 (prior + 24)
    Checked.refuseIf (spanOverlaps offset size priorOffset priorSize) .overlap) i ()

/-- One turn of the entry loop of `bbp_v2_parse`: the work so far in, the
work so far out. -/
def checkEntry (capsule totalSize directoryOffset directorySize i crcWork : Nat) : Check Nat := do
  let entry := directoryEntry capsule directoryOffset i
  let offset ← read64 (entry + 16)
  let size ← read64 (entry + 24)
  let alignment ← read32 (entry + 40)
  let reserved0 ← read16 (entry + 14)
  let reserved1 ← read32 (entry + 44)
  Checked.refuseIf (reserved0 ≠ 0 ∨ reserved1 ≠ 0) .format
  Checked.refuseIf (¬ powerOfTwo alignment ∨ 4096 < alignment ∨
    offset &&& (alignment - 1) ≠ 0) .alignment
  Checked.refuseIf (size = 0) .format
  Checked.refuseIf (totalSize < offset ∨ totalSize - offset < size) .overflow
  Checked.refuseIf (spanOverlaps offset size 0 64 ∨
    spanOverlaps offset size directoryOffset directorySize) .overlap
  checkPriors capsule directoryOffset offset size i
  Checked.refuseIf (maxCrcWork - crcWork < size) .work
  pure (crcWork + size)

/-- One turn of the payload CRC loop. -/
def checkPayloadCrc (capsule directoryOffset i : Nat) : Check Unit := do
  let entry := directoryEntry capsule directoryOffset i
  let offset ← read64 (entry + 16)
  let size ← read64 (entry + 24)
  let data ← readBytes (capsule + offset) size
  let checksum ← read64 (entry + 32)
  Checked.refuseIf (crc64 data ≠ checksum) .crc

/-- `bbp_v2_parse` from its entry loop on: entries, padding, checksums. No
length or offset is used before every span is known to be inside. -/
def checkBody (capsule extent totalSize directoryOffset entryCount : Nat) : Check Unit := do
  let directorySize := entryCount * 48
  let _ ← forUpTo (checkEntry capsule totalSize directoryOffset directorySize) entryCount totalSize
  validatePadding capsule extent directoryOffset entryCount
  let crc ← Checked.lift (crcWithZeroChecksum capsule extent)
  let checksum ← read64 (capsule + 40)
  Checked.refuseIf (crc ≠ checksum) .crc
  forUpTo (fun i _ => checkPayloadCrc capsule directoryOffset i) entryCount ()

/-- `bbp_v2_parse` past its `NULL` checks. -/
def parseView (capsule extent : Nat) : Check View := do
  Checked.refuseIf (extent < 64 ∨ maxExtent < extent) .extent
  let head ← readBytes capsule 8
  Checked.refuseIf (head ≠ magic) .magic
  let major ← read16 (capsule + 8)
  let minor ← read16 (capsule + 10)
  Checked.refuseIf (major ≠ 2 ∨ minor ≠ 0) .version
  let headerSize ← read16 (capsule + 12)
  let entrySize ← read16 (capsule + 14)
  let flags ← read32 (capsule + 16)
  let reserved0 ← read64 (capsule + 48)
  let reserved1 ← read64 (capsule + 56)
  Checked.refuseIf (headerSize ≠ 64 ∨ entrySize ≠ 48 ∨ flags ≠ 0 ∨ reserved0 ≠ 0 ∨
    reserved1 ≠ 0) .format
  let totalSize ← read64 (capsule + 24)
  Checked.refuseIf (totalSize ≠ extent ∨ maxExtent < totalSize) .extent
  let entryCount ← read32 (capsule + 20)
  Checked.refuseIf (1024 < entryCount) .count
  let directoryOffset ← read64 (capsule + 32)
  Checked.refuseIf (directoryOffset &&& 7 ≠ 0) .alignment
  Checked.refuseIf (entryCount = 0 ∧ (directoryOffset ≠ 64 ∨ totalSize ≠ 64)) .format
  let directorySize := entryCount * 48
  Checked.refuseIf (directoryOffset < 64 ∨ totalSize < directoryOffset ∨
    totalSize - directoryOffset < directorySize) .overflow
  checkBody capsule extent totalSize directoryOffset entryCount
  pure ⟨capsule, extent, directoryOffset, flags, entryCount⟩

/-- `bbp_v2_parse`: the status and the contents of `*out`. -/
def parse (capsule extent : Nat) (out : Option View) :
    Traced Event (Except Error Unit × Option View) :=
  if capsule = 0 ∨ out = none then pure (.error .null, out)
  else publish (parseView capsule extent) out

/-- `bbp_v2_get_entry` past its `NULL` checks. -/
def getEntryView (view : View) (index : Nat) : Check EntryView := do
  Checked.refuseIf (1024 < view.entryCount ∨ view.entryCount ≤ index) .count
  let directorySize := view.entryCount * 48
  Checked.refuseIf (view.totalSize < 64 ∨ maxExtent < view.totalSize ∨
    view.directoryOffset < 64 ∨ view.totalSize < view.directoryOffset ∨
    view.totalSize - view.directoryOffset < directorySize) .extent
  let entry := directoryEntry view.data view.directoryOffset index
  let offset ← read64 (entry + 16)
  let size ← read64 (entry + 24)
  Checked.refuseIf (view.totalSize < offset ∨ view.totalSize - offset < size) .extent
  let type ← read64 entry
  let flags ← read32 (entry + 8)
  let version ← read16 (entry + 12)
  let checksum ← read64 (entry + 32)
  let alignment ← read32 (entry + 40)
  pure ⟨type, flags, version, alignment, offset, size, checksum, view.data + offset⟩

/-- `bbp_v2_get_entry`: the status and the contents of `*out`. -/
def getEntry (view : Option View) (index : Nat) (out : Option EntryView) :
    Traced Event (Except Error Unit × Option EntryView) :=
  match view with
  | none => pure (.error .null, out)
  | some view =>
    if view.data = 0 ∨ out = none then pure (.error .null, out)
    else publish (getEntryView view index) out

end BearBoot.V2
