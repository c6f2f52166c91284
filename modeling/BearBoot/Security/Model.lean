import BearBoot.Machine.Pack
import BearBoot.Machine.Settle
import BearBoot.Bootloader.Build
import BearBoot.Tcg2.Sha256

/-!
# The measurement collector, as `uefi/bbp_security_collector.c` computes it

The collector has a TPM hash and extend a list of sources, keeps what it
was told in a log, and publishes the log and a SECURITY tag through the
builder. An extend cannot be taken back. So everything that can be checked
is checked first; and when publishing fails all the same, the collector
puts back the bytes and the builder it had saved and calls `abort`, which
firmware is not to return from. Here it does return, and the status says so.

The three callbacks have a state `σ` of their own, which is their context
and whatever stands behind it (the TPM, say). None of them gets at the
builder or at memory but the allocator, which answers both. The collector's
locals are values: `records` is the list of the bytes written so far, and
the allocator is handed the bytes its `source` points to. `calls` is a log
of what was called, for the statements about it; no function reads it.

The source array is its address and the list of what stands there, and
`measurement_count` is the list's length. `none` stands for a callback
table that is `NULL` or has a `NULL` in it, and for a platform that is
`NULL`. The builder and the plan are not. Sums of physical addresses are
taken modulo `2 ^ 64`, since an allocator may have left anything in
`arena_phys`; the other sums are bounded before they are formed.
-/

set_option autoImplicit false

namespace BearBoot.Security

open Machine Bootloader Tcg2

/-- `bbp_security_status`, `BBP_SECURITY_OK` apart. -/
inductive SecurityError where
  | argument
  | count
  | pcr
  | algorithm
  | hashLength
  | name
  | range
  | builder
  | capacity
  | tpm
  | publishAfterTpm
  | abortReturned
  deriving DecidableEq, Repr

/-! ## Constants -/

/-- `BBP_TAG_SECURITY`. -/
def tagSecurity : Nat := tagIdOf 0x0004 0x0001

/-- `BBP_HASH_SHA256`. -/
def hashSha256 : Nat := 0x0001

/-- `BBP_SECURITY_MAX_MEASUREMENTS`. -/
def maxMeasurements : Nat := 32

/-- `BBP_SECURITY_SHA256_BYTES`. -/
def sha256Bytes : Nat := 32

/-- `BBP_SECURITY_MAX_INPUT_BYTES`. -/
def maxInputBytes : Nat := 64 * 1024 * 1024

/-- `BBP_SECURITY_MAX_PCR`. -/
def maxPcr : Nat := 23

/-- `BBP_SECURITY_TAG_VERSION`. -/
def securityTagVersion : Nat := 1

/-- `BBP_SECURITY_MAX_PHYS`. -/
def maxPhys : Nat := 2 ^ 48

/-- `BBP_SECURITY_MAX_TAGS`. -/
def maxTags : Nat := 1024

/-- `BBP_SECURITY_MAX_ARENA`. -/
def maxArena : Nat := 64 * 1024 * 1024 - 144

/-- `sizeof(struct bbp_measurement)`. -/
def measurementSize : Nat := 144

/-- `sizeof(struct bbp_tag_security)`. -/
def securityTagSize : Nat := 128

/-- `BBP_SECURITY_ROLLBACK_BYTES`. -/
def maxRollbackBytes : Nat := maxMeasurements * measurementSize + securityTagSize + 14

/-- `(size_t)-1` and `UINTPTR_MAX`. -/
def sizeMax : Nat := 2 ^ 64 - 1

/-! ## What the collector is given -/

/-- `struct bbp_security_source`. -/
structure SecuritySource where
  pcrIndex : UInt32
  algorithm : UInt32
  hashLength : UInt32
  reserved : UInt32
  data : Nat
  dataLength : Nat
  componentName : Nat
  componentNameLength : Nat

/-- `struct bbp_secure_boot_info`. -/
structure SecureBootInfo where
  mode : UInt8
  signatureVerified : UInt8
  pkPresent : UInt8
  kekPresent : UInt8
  dbPresent : UInt8
  dbxPresent : UInt8
  reserved : UInt16

/-- `struct bbp_security_platform`. -/
structure SecurityPlatform where
  tpmBaseAddress : UInt64
  tpmVersion : UInt16
  tpmInterface : UInt16
  tpmFlags : UInt32
  secureBoot : SecureBootInfo

/-- The eight bytes of a `struct bbp_secure_boot_info`. -/
def SecureBootInfo.bytes (s : SecureBootInfo) : List UInt8 :=
  [s.mode, s.signatureVerified, s.pkPresent, s.kekPresent, s.dbPresent, s.dbxPresent] ++
    le s.reserved.toNat 2

/-- `bbp_security_arena_object`. -/
inductive ArenaObject where
  | measurements
  | tag
  deriving DecidableEq, Repr

/-- What an allocator leaves: its pointer (`0` for `NULL`), `*out_phys`,
and the builder and the memory. -/
structure Allocation where
  ptr : Nat
  phys : Nat
  builder : Builder
  mem : Mem

/-- `struct bbp_security_callbacks`. `hashExtend` answers `none` for a
nonzero return, and else the digest it has stored. -/
structure Callbacks (σ : Type) where
  hashExtend : σ → Mem → (pcrIndex algorithm data dataLength : Nat) → Option Digest × σ
  arenaAllocate : σ → Builder → Mem → ArenaObject → (source : Option (List UInt8)) →
    (bytes : Nat) → Allocation × σ
  abort : σ → SecurityError → σ

/-! ## Validation -/

def pointerSpanValid (pointer bytes : Nat) : Bool :=
  pointer != 0 && bytes != 0 && decide (bytes ≤ sizeMax - pointer)

def spansOverlap (left leftBytes right rightBytes : Nat) : Bool :=
  if !pointerSpanValid left leftBytes || !pointerSpanValid right rightBytes then true
  else decide (left < right + rightBytes ∧ right < left + leftBytes)

/-- `struct bbp_security_plan`. -/
structure SecurityPlan where
  blobStart : Nat
  blobEnd : Nat
  tagStart : Nat
  tagEnd : Nat
  logBytes : Nat
  deriving DecidableEq, Repr

/-- The middle of `validate_builder`: whether the builder's chain and its
tag count can belong together. -/
def validateChain (b : Builder) (m : Mem) : Except SecurityError Unit :=
  if b.tagCount = 0 then refuse (b.last ≠ 0 ∨ b.firstPhys ≠ 0) .builder
  else
    refuse (b.last = 0 ∨ b.firstPhys = 0 ∨ b.firstPhys &&& 7 ≠ 0 ∨ b.firstPhys < b.arenaPhys ∨
      b.used ≤ b.firstPhys - b.arenaPhys ∨ b.last < b.arena ∨ b.last &&& 7 ≠ 0 ∨
      b.used < b.last - b.arena ∨ b.used - (b.last - b.arena) < 32 ∨ tagNext m b.last ≠ 0) .builder

/-- `align8`, refused where the sum does not fit. -/
def align8 (value : Nat) : Except SecurityError Nat := do
  refuse (sizeMax - 7 < value) .range
  pure ((value + 7) &&& not64 7)

/-- `validate_builder`. -/
def validateBuilder (b : Builder) (m : Mem) (measurementCount : Nat) :
    Except SecurityError SecurityPlan := do
  refuse (b.arena = 0 ∨ b.overflow = true ∨ b.capacity < b.used ∨ maxArena < b.used ∨
    maxTags < b.tagCount ∨ b.arenaPhys = 0 ∨ b.arenaPhys &&& 7 ≠ 0 ∨ b.arena &&& 7 ≠ 0 ∨
    sizeMax - b.arena < b.capacity ∨ maxPhys ≤ b.arenaPhys ∨ maxPhys - b.arenaPhys < b.capacity)
    .builder
  validateChain b m
  refuse (maxTags ≤ b.tagCount) .capacity
  let logBytes := measurementCount * measurementSize
  let blobStart ← align8 b.used
  refuse (sizeMax - blobStart < logBytes) .range
  let blobEnd := blobStart + logBytes
  let tagStart ← align8 blobEnd
  refuse (sizeMax - tagStart < securityTagSize) .range
  let tagEnd := tagStart + securityTagSize
  refuse (b.capacity < tagEnd ∨ maxArena < tagEnd) .capacity
  refuse (maxPhys - b.arenaPhys < tagEnd) .range
  refuse (maxRollbackBytes < tagEnd - blobStart) .range
  pure ⟨blobStart, blobEnd, tagStart, tagEnd, logBytes⟩

/-- `BBP_TPM_FLAG_ACTIVE`. -/
def tpmFlagActive : UInt32 := 1

/-- The `known_flags` of `validate_platform`: active, SHA-384 and SHA-512. -/
def knownFlags : UInt32 := tpmFlagActive ||| 2 ||| 4

/-- `validate_platform`, and the copy of the platform that is made after. -/
def validatePlatform : Option SecurityPlatform → Except SecurityError SecurityPlatform
  | none => .error .argument
  | some p => do
    refuse (p.tpmVersion ≠ 0x0200 ∨ 3 < p.tpmInterface ∨ p.tpmFlags &&& tpmFlagActive = 0 ∨
      p.tpmFlags &&& ~~~knownFlags ≠ 0 ∨ maxPhys ≤ p.tpmBaseAddress.toNat) .range
    let secure := p.secureBoot
    refuse (2 < secure.mode ∨ 1 < secure.signatureVerified ∨ 1 < secure.pkPresent ∨
      1 < secure.kekPresent ∨ 1 < secure.dbPresent ∨ 1 < secure.dbxPresent ∨
      secure.reserved ≠ 0) .range
    pure p

/-- The name of a source, as it stands in memory. -/
def SecuritySource.name (m : Mem) (s : SecuritySource) : List UInt8 :=
  m.bytes s.componentName s.componentNameLength

/-- The body of the loop of `validate_sources`. -/
def validateSource (m : Mem) (s : SecuritySource) : Except SecurityError Unit := do
  refuse (s.reserved ≠ 0) .range
  refuse (maxPcr < s.pcrIndex.toNat) .pcr
  refuse (s.algorithm.toNat ≠ hashSha256) .algorithm
  refuse (s.hashLength.toNat ≠ sha256Bytes) .hashLength
  refuse (s.dataLength = 0 ∨ maxInputBytes < s.dataLength ∨
    pointerSpanValid s.data s.dataLength = false) .range
  refuse (s.componentNameLength = 0 ∨ 64 ≤ s.componentNameLength ∨
    pointerSpanValid s.componentName s.componentNameLength = false) .name
  refuse (0 ∈ s.name m) .name

/-- The loop of `validate_sources`. -/
def validateEach (m : Mem) : List SecuritySource → Except SecurityError Unit
  | [] => pure ()
  | s :: sources => do
    validateSource m s
    validateEach m sources

/-- `validate_sources`. A source is 48 bytes. -/
def validateSources (m : Mem) (sourcesAt : Nat) (sources : List SecuritySource) :
    Except SecurityError Unit := do
  refuse (sources.length = 0 ∨ maxMeasurements < sources.length) .count
  refuse (pointerSpanValid sourcesAt (sources.length * 48) = false) .argument
  validateEach m sources

/-- What `bbp_security_collect` checks before it calls anyone. -/
def preflight (b : Builder) (m : Mem) (platform : Option SecurityPlatform) (sourcesAt : Nat)
    (sources : List SecuritySource) (outTag : Nat) :
    Except SecurityError (SecurityPlatform × SecurityPlan) := do
  refuse (outTag = 0) .argument
  validateSources m sourcesAt sources
  let p ← validatePlatform platform
  let plan ← validateBuilder b m sources.length
  refuse (spansOverlap outTag 8 b.arena b.capacity = true) .range
  pure (p, plan)

/-! ## Calling back -/

/-- A call the collector makes. -/
inductive Call where
  | hashExtend (pcrIndex algorithm data dataLength : Nat) (digest : Option Digest)
  | arenaAllocate (object : ArenaObject)
  | abort (reason : SecurityError)
  deriving DecidableEq

/-- The collector between two calls. -/
structure Collector (σ : Type) where
  builder : Builder
  mem : Mem
  state : σ
  calls : List Call

section Collect

variable {σ : Type}

/-- `abort_after_tpm`. -/
def abortAfterTpm {α : Type} (cb : Callbacks σ) (reason : SecurityError) (c : Collector σ) :
    Except SecurityError α × Collector σ :=
  (.error .abortReturned,
    { c with state := cb.abort c.state reason, calls := c.calls ++ [.abort reason] })

/-- A `struct bbp_measurement` with a SHA-256 digest, field by field. The
array it stands in has been zeroed. -/
def measurement (pcrIndex : Nat) (digest : Digest) (name : List UInt8) : List UInt8 :=
  [le pcrIndex 4, le hashSha256 4, digest.1, List.replicate 32 0, le sha256Bytes 4,
    List.replicate 4 0, name, List.replicate (64 - name.length) 0].flatten

/-- The measuring loop of `bbp_security_collect`, with `i` sources behind it.
A first extend that fails has changed nothing and is reported as it is. -/
def hashLoop (cb : Callbacks σ) :
    (i : Nat) → List SecuritySource → (records : List UInt8) → Collector σ →
      Except SecurityError (List UInt8) × Collector σ
  | _, [], records, c => (.ok records, c)
  | i, s :: sources, records, c =>
    match cb.hashExtend c.state c.mem s.pcrIndex.toNat hashSha256 s.data s.dataLength with
    | (some digest, st) =>
      hashLoop cb (i + 1) sources
        (records ++ measurement s.pcrIndex.toNat digest (s.name c.mem))
        { c with
          state := st
          calls := c.calls ++
            [.hashExtend s.pcrIndex.toNat hashSha256 s.data s.dataLength (some digest)] }
    | (none, st) =>
      let c :=
        { c with
          state := st
          calls := c.calls ++ [.hashExtend s.pcrIndex.toNat hashSha256 s.data s.dataLength none] }
      if i ≠ 0 then abortAfterTpm cb .publishAfterTpm c else (.error .tpm, c)

/-- A call of the allocator: its pointer, its physical address, and the
collector after it. -/
def allocate (cb : Callbacks σ) (object : ArenaObject) (source : Option (List UInt8)) (bytes : Nat)
    (c : Collector σ) : Nat × Nat × Collector σ :=
  let (a, st) := cb.arenaAllocate c.state c.builder c.mem object source bytes
  (a.ptr, a.phys, ⟨a.builder, a.mem, st, c.calls ++ [.arenaAllocate object]⟩)

/-- What is saved before the first extend. -/
structure Saved where
  before : Builder
  oldLastNext : Nat
  rollback : List UInt8

def save (b : Builder) (m : Mem) (plan : SecurityPlan) : Saved where
  before := b
  oldLastNext := if b.last ≠ 0 then tagNext m b.last else 0
  rollback := m.bytes (b.arena + plan.blobStart) (plan.tagEnd - plan.blobStart)

/-- `rollback_publish`. -/
def rollbackPublish (saved : Saved) (backupStart : Nat) (c : Collector σ) : Collector σ :=
  let m := c.mem.blit (c.builder.arena + backupStart) saved.rollback
  { c with
    builder := saved.before
    mem := if saved.before.last ≠ 0 then put64 m (saved.before.last + 16) saved.oldLastNext else m }

/-- The test of `bbp_security_collect` on the log's allocation. -/
def LogPlaced (plan : SecurityPlan) (before : Builder) (records : List UInt8) (blob blobPhys : Nat)
    (c : Collector σ) : Prop :=
  blob ≠ 0 ∧ blob = c.builder.arena + plan.blobStart ∧
    blobPhys = (c.builder.arenaPhys + plan.blobStart) % 2 ^ 64 ∧ c.builder.used = plan.blobEnd ∧
    c.builder.tagCount = before.tagCount ∧ c.builder.last = before.last ∧
    c.builder.firstPhys = before.firstPhys ∧ c.builder.overflow = false ∧
    c.mem.bytes blob plan.logBytes = records

instance (plan : SecurityPlan) (before : Builder) (records : List UInt8) (blob blobPhys : Nat)
    (c : Collector σ) : Decidable (LogPlaced plan before records blob blobPhys c) :=
  inferInstanceAs (Decidable (_ ∧ _))

/-- The test on the tag's allocation. -/
def TagPlaced (plan : SecurityPlan) (before : Builder) (tag tagPhys : Nat) (c : Collector σ) : Prop :=
  tag ≠ 0 ∧ tag = c.builder.arena + plan.tagStart ∧
    tagPhys = (c.builder.arenaPhys + plan.tagStart) % 2 ^ 64 ∧ c.builder.used = plan.tagEnd ∧
    c.builder.tagCount = before.tagCount + 1 ∧ c.builder.last = tag ∧ c.builder.overflow = false ∧
    tagId c.mem tag = tagSecurity ∧ tagSize c.mem tag = securityTagSize ∧
    tagVersion c.mem tag = securityTagVersion ∧ tagNext c.mem tag = 0 ∧
    (before.tagCount = 0 → c.builder.firstPhys = tagPhys) ∧
    (before.tagCount ≠ 0 →
      c.builder.firstPhys = before.firstPhys ∧ tagNext c.mem before.last = tagPhys)

instance (plan : SecurityPlan) (before : Builder) (tag tagPhys : Nat) (c : Collector σ) :
    Decidable (TagPlaced plan before tag tagPhys c) :=
  inferInstanceAs (Decidable (_ ∧ _))

/-- The stores into the tag's body. -/
def fillTag (p : SecurityPlatform) (measurementCount blobPhys logCrc tag : Nat) (m : Mem) : Mem :=
  let m := put64 m (tag + 32) p.tpmBaseAddress.toNat
  let m := put16 m (tag + 40) p.tpmVersion.toNat
  let m := put16 m (tag + 42) p.tpmInterface.toNat
  let m := put32 m (tag + 44) p.tpmFlags.toNat
  let m := m.blit (tag + 48) p.secureBoot.bytes
  let m := put32 m (tag + 56) measurementCount
  let m := put64 m (tag + 64) blobPhys
  put64 m (tag + 104) logCrc

/-- The second half of `bbp_security_collect`, from the log's CRC on. -/
def publish (cb : Callbacks σ) (p : SecurityPlatform) (plan : SecurityPlan) (saved : Saved)
    (measurementCount outTag : Nat) (records : List UInt8) (c : Collector σ) :
    Except SecurityError Unit × Collector σ :=
  let logCrc := crc64 records
  if logCrc = 0 then abortAfterTpm cb .publishAfterTpm c
  else
    let (blob, blobPhys, c) := allocate cb .measurements (some records) plan.logBytes c
    if ¬ LogPlaced plan saved.before records blob blobPhys c then
      abortAfterTpm cb .publishAfterTpm (rollbackPublish saved plan.blobStart c)
    else
      let (tag, tagPhys, c) := allocate cb .tag none securityTagSize c
      if ¬ TagPlaced plan saved.before tag tagPhys c then
        abortAfterTpm cb .publishAfterTpm (rollbackPublish saved plan.blobStart c)
      else
        let m := fillTag p measurementCount blobPhys logCrc tag c.mem
        (.ok (), { c with mem := put64 (sealTag m tag) outTag tag })

/-- `bbp_security_collect`. -/
def securityCollect (callbacks : Option (Callbacks σ)) (b : Builder) (m : Mem)
    (platform : Option SecurityPlatform) (sourcesAt : Nat) (sources : List SecuritySource)
    (outTag : Nat) (st : σ) : Except SecurityError Unit × Collector σ :=
  let c : Collector σ := ⟨b, m, st, []⟩
  match callbacks with
  | none => (.error .argument, c)
  | some cb =>
    match preflight b m platform sourcesAt sources outTag with
    | .error e => (.error e, c)
    | .ok (p, plan) =>
      let saved := save b m plan
      match hashLoop cb 0 sources [] c with
      | (.error e, c) => (.error e, c)
      | (.ok records, c) => publish cb p plan saved sources.length outTag records c

end Collect

/-! ## The allocator of the builder API -/

/-- `bbp_arena_blob` on bytes that are not in memory but in a local of the
caller, `none` being `NULL`. -/
def arenaBlobOf (b : Builder) (m : Mem) (data : Option (List UInt8)) (len : Nat) :
    Nat × Builder × Mem :=
  match data with
  | none => if len ≠ 0 then (0, b.fail, m) else (0, b, m)
  | some content =>
    if len = 0 then (0, b, m)
    else
      match arenaBump b len with
      | (none, b) => (0, b, m)
      | (some (p, phys), b) => (phys, b, m.blit p (content.take len))

/-- `bbp_security_builder_allocate`. The context and a third kind of object
have nothing to do here. -/
def builderAllocate (b : Builder) (m : Mem) (object : ArenaObject) (source : Option (List UInt8))
    (bytes : Nat) : Allocation :=
  match object with
  | .measurements =>
    match arenaBlobOf b m source bytes with
    | (phys, b, m) =>
      if phys = 0 then ⟨0, 0, b, m⟩ else ⟨b.arena + (phys - b.arenaPhys), phys, b, m⟩
  | .tag =>
    if source.isSome ∨ bytes ≠ securityTagSize then ⟨0, 0, b, m⟩
    else
      match allocTag b m tagSecurity securityTagVersion bytes with
      | (none, b, m) => ⟨0, 0, b, m⟩
      | (some tag, b, m) => ⟨tag, b.arenaPhys + (tag - b.arena), b, m⟩

/-- Callbacks whose allocator is `bbp_security_builder_allocate`. -/
def Callbacks.UsesBuilder {σ : Type} (cb : Callbacks σ) : Prop :=
  ∀ st b m object source bytes,
    cb.arenaAllocate st b m object source bytes = (builderAllocate b m object source bytes, st)

/-- The two ways into `bbp_arena_blob` are one, for a source the copy does
not run over. -/
theorem arenaBlob_eq_of_local {b : Builder} {m : Mem} {data len : Nat} (hdata : data ≠ 0)
    (hclear : data + len ≤ b.arena + roundUp b.used 8 ∨
      b.arena + roundUp b.used 8 + len ≤ data) :
    arenaBlob b m data len = arenaBlobOf b m (some (m.bytes data len)) len := by
  unfold arenaBlob arenaBlobOf
  rw [if_neg (fun h => hdata h.1)]
  dsimp only
  split
  · rfl
  rcases arenaBump_cases b len with hb | ⟨_, _, hb⟩
  · rw [hb]
  · rw [hb]
    refine Prod.ext rfl (Prod.ext rfl (funext fun a => ?_))
    dsimp only
    rw [List.take_of_length_le (by rw [Mem.bytes_length]), Mem.blit_apply, Mem.bytes_length]
    split
    next hin =>
      obtain ⟨i, rfl⟩ := Nat.exists_eq_add_of_le hin.1
      have hread := Mem.ofList_bytes (m := m) (a := data) (n := len) (show i < len by omega)
      rw [Mem.copy_apply hclear i (by omega), Nat.add_sub_cancel_left]
      exact hread.symm
    next hout => exact Mem.copy_frame (by omega)

end BearBoot.Security
