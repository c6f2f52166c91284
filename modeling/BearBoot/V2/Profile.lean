import BearBoot.V2.Parse
import BearBoot.V2.Rust

/-!
# Profile 0, as `v2/bbp_v2_profile.c` and `v2.rs` check it

Profile 0 gives four entry types of a capsule a meaning: boot identity,
memory map, kernel address and device tree. Its validator goes once over
the directory with a mask of the types it has seen; entries of other types
are passed over.

The two implementations are the same loop over different memories. The C
one reads the payload through a pointer, so its reads are logged, and a
condition `a || b` reads `b` only where `a` has not refused. The Rust one
reads a slice, and an access outside of it would panic. The C result has a
pointer to the device tree, the Rust result a slice.
-/

set_option autoImplicit false

namespace BearBoot.V2

open Machine

/-! ## Constants of `bbp_v2_profile.h` -/

def p0BootIdentity : Nat := 0x4242503200000001

def p0MemoryMap : Nat := 0x4242503200000002

def p0KernelAddress : Nat := 0x4242503200000003

def p0Devicetree : Nat := 0x4242503200000004

/-- The bit of an entry type in the mask, and `0` for a type of no concern. -/
def p0Bit (type : Nat) : Nat :=
  if type = p0BootIdentity then 1
  else if type = p0MemoryMap then 2
  else if type = p0KernelAddress then 4
  else if type = p0Devicetree then 8
  else 0

/-! ## The C validator -/

/-- `struct bbp_v2_p0_view`. -/
structure P0View where
  architecture : Nat
  cpuCount : Nat
  memoryEntryCount : Nat
  kernelPhysicalBase : Nat
  kernelVirtualBase : Nat
  dtb : Nat
  dtbSize : Nat
  deriving DecidableEq, Repr

def p0Identity (entry : EntryView) (result : P0View) : Check P0View := do
  Checked.refuseIf (entry.size ≠ 16) .format
  let reserved0 ← read16 (entry.data + 2)
  Checked.refuseIf (reserved0 ≠ 0) .format
  let flags ← read32 (entry.data + 8)
  Checked.refuseIf (flags ≠ 0) .format
  let reserved1 ← read32 (entry.data + 12)
  Checked.refuseIf (reserved1 ≠ 0) .format
  let architecture ← read16 entry.data
  let cpuCount ← read32 (entry.data + 4)
  Checked.refuseIf (architecture = 0 ∨ 4 < architecture ∨ cpuCount = 0) .format
  pure { result with architecture, cpuCount }

/-- One turn of the loop over the memory entries. -/
def p0MemoryEntry (memory : Nat) : Check Unit := do
  let base ← read64 memory
  let length ← read64 (memory + 8)
  Checked.refuseIf (length = 0 ∨ 2 ^ 64 - 1 - length < base) .format
  let type ← read32 (memory + 16)
  Checked.refuseIf (type = 0) .format
  let reserved ← read32 (memory + 28)
  Checked.refuseIf (reserved ≠ 0) .format

def p0Memory (entry : EntryView) (result : P0View) : Check P0View := do
  Checked.refuseIf (entry.size < 8) .format
  let count ← read32 entry.data
  Checked.refuseIf (count = 0 ∨ 4096 < count) .format
  let stride ← read32 (entry.data + 4)
  Checked.refuseIf (stride ≠ 32 ∨ count * 32 ≠ entry.size - 8) .format
  forUpTo (fun j _ => p0MemoryEntry (entry.data + 8 + j * 32)) count ()
  pure { result with memoryEntryCount := count }

def p0Kernel (entry : EntryView) (result : P0View) : Check P0View := do
  Checked.refuseIf (entry.size ≠ 16) .format
  let kernelPhysicalBase ← read64 entry.data
  let kernelVirtualBase ← read64 (entry.data + 8)
  Checked.refuseIf (kernelPhysicalBase = 0) .format
  pure { result with kernelPhysicalBase, kernelVirtualBase }

def p0Tree (entry : EntryView) (result : P0View) : Check P0View := do
  Checked.refuseIf (entry.size ≤ 8) .format
  let flags ← read32 entry.data
  Checked.refuseIf (flags ≠ 0) .format
  let size ← read32 (entry.data + 4)
  Checked.refuseIf (size ≠ entry.size - 8) .format
  pure { result with dtb := entry.data + 8, dtbSize := size }

/-- The chain on `bit`. -/
def p0Payload (bit : Nat) (entry : EntryView) (result : P0View) : Check P0View :=
  if bit = 1 then p0Identity entry result
  else if bit = 2 then p0Memory entry result
  else if bit = 4 then p0Kernel entry result
  else p0Tree entry result

/-- `status = bbp_v2_get_entry(capsule, i, &entry); if (status != BBP_V2_OK) return status;`
on an entry that starts uninitialised. -/
def p0Entry (view : View) (index : Nat) : Check EntryView :=
  (getEntry (some view) index (some ⟨0, 0, 0, 0, 0, 0, 0, 0⟩) >>= fun answer =>
    match answer with
    | (.ok (), some entry) => pure (.ok entry)
    | (.ok (), none) => pure (.error .null)
    | (.error e, _) => pure (.error e) : Traced Event (Except Error EntryView))

/-- One turn of the loop over the directory: the mask and the result so
far. -/
def p0Turn (view : View) (i : Nat) (st : Nat × P0View) : Check (Nat × P0View) := do
  let entry ← p0Entry view i
  let bit := p0Bit entry.type
  if bit = 0 then pure st
  else do
    Checked.refuseIf (st.1 &&& bit ≠ 0 ∨ entry.version ≠ 1 ∨ entry.flags ≠ 0) .format
    let result ← p0Payload bit entry st.2
    pure (st.1 ||| bit, result)

/-- `bbp_v2_p0_validate` past its `NULL` checks. -/
def p0Check (view : View) : Check P0View := do
  let st ← forUpTo (p0Turn view) view.entryCount (0, ⟨0, 0, 0, 0, 0, 0, 0⟩)
  Checked.refuseIf (st.1 ≠ 15) .format
  pure st.2

/-- `bbp_v2_p0_validate`: the status and the contents of `*out`. -/
def p0Validate (capsule : Option View) (out : Option P0View) :
    Traced Event (Except Error Unit × Option P0View) :=
  match capsule, out with
  | some view, some _ => publish (p0Check view) out
  | _, _ => pure (.error .null, out)

/-! ## The Rust validator -/

namespace Rust

structure V2Profile0 where
  architecture : Nat
  cpuCount : Nat
  memoryEntryCount : Nat
  kernelPhysicalBase : Nat
  kernelVirtualBase : Nat
  devicetree : List UInt8
  deriving DecidableEq, Repr

namespace V2Profile0

/-- `1 =>` -/
def identity (data : List UInt8) (profile : V2Profile0) : R V2Profile0 := do
  refuse (data.length ≠ 16) (.err .invalidFormat)
  let reserved0 ← readU16 data 2
  let flags ← readU32 data 8
  let reserved1 ← readU32 data 12
  refuse (reserved0 ≠ 0 ∨ flags ≠ 0 ∨ reserved1 ≠ 0) (.err .invalidFormat)
  let architecture ← readU16 data 0
  let cpuCount ← readU32 data 4
  refuse (¬ (1 ≤ architecture ∧ architecture ≤ 4) ∨ cpuCount = 0) (.err .invalidFormat)
  pure { profile with architecture, cpuCount }

/-- One turn of the loop over `chunks_exact(32)`. -/
def record (chunk : List UInt8) : R Unit := do
  let base ← readU64 chunk 0
  let length ← readU64 chunk 8
  let type ← readU32 chunk 16
  let reserved ← readU32 chunk 28
  refuse (length = 0 ∨ 2 ^ 64 ≤ base + length ∨ type = 0 ∨ reserved ≠ 0) (.err .invalidFormat)

/-- `2 =>` -/
def memory (data : List UInt8) (profile : V2Profile0) : R V2Profile0 := do
  refuse (data.length < 8) (.err .invalidFormat)
  let count ← readU32 data 0
  refuse (count = 0 ∨ 4096 < count) (.err .invalidFormat)
  let stride ← readU32 data 4
  let total ← mul count 32
  refuse (stride ≠ 32 ∨ total ≠ data.length - 8) (.err .invalidFormat)
  let records ← slice .panic data 8 data.length
  forUpTo (fun j _ => record ((records.drop (j * 32)).take 32)) (records.length / 32) ()
  pure { profile with memoryEntryCount := count }

/-- `4 =>` -/
def kernel (data : List UInt8) (profile : V2Profile0) : R V2Profile0 := do
  refuse (data.length ≠ 16) (.err .invalidFormat)
  let kernelPhysicalBase ← readU64 data 0
  let kernelVirtualBase ← readU64 data 8
  refuse (kernelPhysicalBase = 0) (.err .invalidFormat)
  pure { profile with kernelPhysicalBase, kernelVirtualBase }

/-- `_ =>` -/
def tree (data : List UInt8) (profile : V2Profile0) : R V2Profile0 := do
  refuse (data.length ≤ 8) (.err .invalidFormat)
  let flags ← readU32 data 0
  let size ← readU32 data 4
  refuse (flags ≠ 0 ∨ size ≠ data.length - 8) (.err .invalidFormat)
  let devicetree ← slice .panic data 8 data.length
  pure { profile with devicetree }

/-- `match bit` -/
def payload (bit : Nat) (data : List UInt8) (profile : V2Profile0) : R V2Profile0 :=
  if bit = 1 then identity data profile
  else if bit = 2 then memory data profile
  else if bit = 4 then kernel data profile
  else tree data profile

/-- One turn of the loop over the directory. -/
def turn (capsule : V2CapsuleRef) (index : Nat) (st : Nat × V2Profile0) : R (Nat × V2Profile0) := do
  let entry ← capsule.entry index
  let type ← entry.entryType
  let bit := p0Bit type
  if bit = 0 then pure st
  else do
    let version ← entry.version
    let flags ← entry.flags
    refuse (st.1 &&& bit ≠ 0 ∨ version ≠ 1 ∨ flags ≠ 0) (.err .invalidFormat)
    let data ← entry.data
    let profile ← payload bit data st.2
    pure (st.1 ||| bit, profile)

/-- `V2Profile0::validate`. -/
def validate (capsule : V2CapsuleRef) : R V2Profile0 := do
  let st ← forUpTo (turn capsule) capsule.entryCount (0, ⟨0, 0, 0, 0, 0, []⟩)
  refuse (st.1 ≠ 15) (.err .invalidFormat)
  pure st.2

end V2Profile0

end Rust

end BearBoot.V2
