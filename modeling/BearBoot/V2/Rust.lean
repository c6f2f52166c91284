import BearBoot.Machine.Bits
import BearBoot.Machine.Slice
import BearBoot.V2.Capsule

/-!
# The Rust capsule parser, as `sdk/rust/bbp-wire/src/v2.rs` computes it

`V2CapsuleRef::parse` with its entry loop, its padding selection and its
checksums, and the accessors of an entry. Slices are byte lists. Every
operation that can panic does: an index or a slice out of range, a sum, a
product or a difference that leaves `usize`. A refusal is `.err`, a panic
is `.panic`, and nothing is done to keep the two apart but the checks the
source makes.

Where the source reads inside a condition (`a() != 0 || b() != 0`) the
model reads first: that can only add panics. A subtraction guarded by the
comparison right before it stands as `-`.

The result is `parse_settles`: the parser answers exactly on capsules,
answers the directory's own offset and count, and never panics. The
checksum of `crc.rs` is the one of the C header, so `crc64` serves both.
-/

namespace BearBoot.V2.Rust

open Machine

variable {a b i : Nat} {d : Dirent}

/-- `V2Error`. -/
inductive V2Error where
  | truncated
  | badMagic
  | unsupportedVersion
  | invalidFormat
  | invalidExtent
  | tooManyEntries
  | invalidAlignment
  | overlappingSpans
  | nonzeroPadding
  | checksumMismatch
  | workLimit
  | entryOutOfRange
  deriving DecidableEq, Repr

/-- How a run ends early. -/
inductive Stop where
  | err (e : V2Error)
  | panic
  deriving DecidableEq, Repr

abbrev R (α : Type) : Type := Except Stop α

/-! ## Operations that can panic -/

def add (a b : Nat) : R Nat := if a + b < 2 ^ 64 then pure (a + b) else .error .panic

def mul (a b : Nat) : R Nat := if a * b < 2 ^ 64 then pure (a * b) else .error .panic

def readU16 (bytes : List UInt8) (offset : Nat) : R Nat := readLe .panic bytes offset 2

def readU32 (bytes : List UInt8) (offset : Nat) : R Nat := readLe .panic bytes offset 4

def readU64 (bytes : List UInt8) (offset : Nat) : R Nat := readLe .panic bytes offset 8

/-- `usize::try_from(v).map_err(|_| V2Error::InvalidExtent)?` -/
def tryUsize (v : Nat) : R Nat := if v < 2 ^ 64 then pure v else .error (.err .invalidExtent)

/-- `u32::is_power_of_two`. -/
def isPowerOfTwo (v : Nat) : Bool := (List.range 32).any fun k => v == 2 ^ k

def overlaps (a aSize b bSize : Nat) : R Bool := do
  let bEnd ← add b bSize
  if a < bEnd then do
    let aEnd ← add a aSize
    pure (decide (b < aEnd))
  else pure false

/-! ## Entries -/

structure V2EntryRef where
  frame : List UInt8
  capsule : List UInt8
  deriving DecidableEq, Repr

namespace V2EntryRef

def entryType (e : V2EntryRef) : R Nat := readU64 e.frame 0

def flags (e : V2EntryRef) : R Nat := readU32 e.frame 8

def version (e : V2EntryRef) : R Nat := readU16 e.frame 12

def reserved0 (e : V2EntryRef) : R Nat := readU16 e.frame 14

def offset (e : V2EntryRef) : R Nat := readU64 e.frame 16

def size (e : V2EntryRef) : R Nat := readU64 e.frame 24

def checksum (e : V2EntryRef) : R Nat := readU64 e.frame 32

def alignment (e : V2EntryRef) : R Nat := readU32 e.frame 40

def reserved1 (e : V2EntryRef) : R Nat := readU32 e.frame 44

def data (e : V2EntryRef) : R (List UInt8) := do
  let offset ← e.offset
  let size ← e.size
  let stop ← add offset size
  slice .panic e.capsule offset stop

end V2EntryRef

/-! ## The capsule -/

structure V2CapsuleRef where
  bytes : List UInt8
  directoryOffset : Nat
  entryCount : Nat
  deriving DecidableEq, Repr

namespace V2CapsuleRef

def uncheckedEntry (c : V2CapsuleRef) (index : Nat) : R V2EntryRef := do
  let skip ← mul index 48
  let offset ← add c.directoryOffset skip
  let stop ← add offset 48
  let frame ← slice .panic c.bytes offset stop
  pure ⟨frame, c.bytes⟩

def entry (c : V2CapsuleRef) (index : Nat) : R V2EntryRef := do
  refuse (c.entryCount ≤ index) (.err .entryOutOfRange)
  c.uncheckedEntry index

/-- One selection of `validate_padding`. -/
def selectSpan (c : V2CapsuleRef) (cursor : Nat) : R Span := do
  let best : Span := if cursor = 0 then ⟨0, 64⟩ else ⟨c.bytes.length, 0⟩
  let directorySize ← mul c.entryCount 48
  let best : Span :=
    if c.entryCount ≠ 0 ∧ cursor ≤ c.directoryOffset ∧ c.directoryOffset < best.start then
      ⟨c.directoryOffset, directorySize⟩
    else best
  forUpTo (fun index best => do
    let entry ← c.uncheckedEntry index
    let start ← entry.offset
    if cursor ≤ start ∧ start < best.start then do
      let size ← entry.size
      pure ⟨start, size⟩
    else pure best) c.entryCount best

/-- `if bytes[lo..hi].iter().any(|byte| *byte != 0) { return Err(NonzeroPadding) }` -/
def checkZero (c : V2CapsuleRef) (lo hi : Nat) : R Unit := do
  let pad ← slice .panic c.bytes lo hi
  refuse (∃ b ∈ pad, b ≠ 0) (.err .nonzeroPadding)

/-- One turn of `validate_padding`. -/
def paddingTurn (c : V2CapsuleRef) (cursor : Nat) : R Nat := do
  let best ← c.selectSpan cursor
  refuse (best.size = 0) (.err .invalidFormat)
  c.checkZero cursor best.start
  add best.start best.size

def validatePadding (c : V2CapsuleRef) : R Unit := do
  let spanCount := 1 + (if c.entryCount = 0 then 0 else 1 + c.entryCount)
  let cursor ← forUpTo (fun _ cursor => c.paddingTurn cursor) spanCount 0
  c.checkZero cursor c.bytes.length

/-- The overlap test against the header and the directory. -/
def overlapsFixed (c : V2CapsuleRef) (directorySize offset size : Nat) : R Bool := do
  let header ← overlaps offset size 0 64
  if header then pure true
  else if c.entryCount ≠ 0 then overlaps offset size c.directoryOffset directorySize
  else pure false

/-- The overlap test against the entries before the `index`-th. -/
def checkPriors (c : V2CapsuleRef) (offset size index : Nat) : R Unit :=
  forUpTo (fun prior _ => do
    let other ← c.uncheckedEntry prior
    let otherOffset ← other.offset
    let otherSize ← other.size
    let hit ← overlaps offset size otherOffset otherSize
    refuse (hit = true) (.err .overlappingSpans)) index ()

/-- `work.checked_add(size).ok_or(V2Error::WorkLimit)?` -/
def checkedAdd (work size : Nat) : R Nat :=
  if work + size < 2 ^ 64 then pure (work + size) else .error (.err .workLimit)

/-- One turn of the entry loop: the work so far in, the work so far out. -/
def checkEntry (c : V2CapsuleRef) (directorySize index work : Nat) : R Nat := do
  let entry ← c.uncheckedEntry index
  let reserved0 ← entry.reserved0
  let reserved1 ← entry.reserved1
  let entrySize ← entry.size
  refuse (reserved0 ≠ 0 ∨ reserved1 ≠ 0 ∨ entrySize = 0) (.err .invalidFormat)
  let alignment ← entry.alignment
  let entryOffset ← entry.offset
  refuse (alignment = 0 ∨ isPowerOfTwo alignment = false ∨ 4096 < alignment ∨
    entryOffset &&& (alignment - 1) ≠ 0) (.err .invalidAlignment)
  let offset ← tryUsize entryOffset
  let size ← tryUsize entrySize
  refuse (c.bytes.length < offset ∨ c.bytes.length - offset < size) (.err .invalidExtent)
  let hit ← c.overlapsFixed directorySize offset size
  refuse (hit = true) (.err .overlappingSpans)
  c.checkPriors offset size index
  let work ← checkedAdd work entrySize
  refuse (maxCrcWork < work) (.err .workLimit)
  pure work

/-- One turn of the payload CRC loop. -/
def checkPayloadCrc (c : V2CapsuleRef) (index : Nat) : R Unit := do
  let entry ← c.uncheckedEntry index
  let data ← entry.data
  let checksum ← entry.checksum
  refuse (crc64 data ≠ checksum) (.err .checksumMismatch)

/-- `V2CapsuleRef::parse` from its entry loop on. -/
def checkBody (c : V2CapsuleRef) (directorySize : Nat) : R Unit := do
  let _ ← forUpTo (c.checkEntry directorySize) c.entryCount c.bytes.length
  c.validatePadding
  let front ← slice .panic c.bytes 0 40
  let back ← slice .panic c.bytes 48 c.bytes.length
  let checksum ← readU64 c.bytes 40
  refuse ((crc64Final (crc64Update (crc64Update (crc64Update crc64Init front)
    (List.replicate 8 0)) back)).toNat ≠ checksum) (.err .checksumMismatch)
  forUpTo (fun index _ => c.checkPayloadCrc index) c.entryCount ()

/-- `V2CapsuleRef::parse`. -/
def parse (bytes : List UInt8) : R V2CapsuleRef := do
  refuse (bytes.length < 64) (.err .truncated)
  refuse (maxExtent < bytes.length) (.err .invalidExtent)
  let head ← slice .panic bytes 0 8
  refuse (head ≠ magic) (.err .badMagic)
  let major ← readU16 bytes 8
  let minor ← readU16 bytes 10
  refuse (major ≠ 2 ∨ minor ≠ 0) (.err .unsupportedVersion)
  let headerSize ← readU16 bytes 12
  let entrySize ← readU16 bytes 14
  let flags ← readU32 bytes 16
  let reserved0 ← readU64 bytes 48
  let reserved1 ← readU64 bytes 56
  refuse (headerSize ≠ 64 ∨ entrySize ≠ 48 ∨ flags ≠ 0 ∨ reserved0 ≠ 0 ∨ reserved1 ≠ 0)
    (.err .invalidFormat)
  let totalSize ← readU64 bytes 24
  refuse (totalSize ≠ bytes.length) (.err .invalidExtent)
  let entryCount ← readU32 bytes 20
  refuse (1024 < entryCount) (.err .tooManyEntries)
  let directoryOffset ← readU64 bytes 32
  refuse (directoryOffset &&& 7 ≠ 0 ∨ bytes.length < directoryOffset) (.err .invalidAlignment)
  refuse (entryCount = 0 ∧ (directoryOffset ≠ 64 ∨ bytes.length ≠ 64)) (.err .invalidFormat)
  let directorySize ← mul entryCount 48
  refuse (directoryOffset < 64 ∨ bytes.length - directoryOffset < directorySize)
    (.err .invalidExtent)
  let candidate : V2CapsuleRef := ⟨bytes, directoryOffset, entryCount⟩
  candidate.checkBody directorySize
  pure candidate

end V2CapsuleRef

/-! ## Where the operations do not panic -/

section Operations

variable {bytes : List UInt8}

theorem add_ok (h : a + b < 2 ^ 64) : add a b = .ok (a + b) := if_pos h

theorem mul_ok (h : a * b < 2 ^ 64) : mul a b = .ok (a * b) := if_pos h

theorem tryUsize_ok {v : Nat} (h : v < 2 ^ 64) : tryUsize v = .ok v := if_pos h

theorem overlaps_ok {aSize bSize : Nat} (ha : a + aSize < 2 ^ 64) (hb : b + bSize < 2 ^ 64) :
    overlaps a aSize b bSize = .ok (decide (a < b + bSize ∧ b < a + aSize)) := by
  unfold overlaps
  rw [add_ok hb, add_ok ha]
  by_cases h : a < b + bSize
  · simp [h, bind, Except.bind, pure, Except.pure]
  · simp [h, bind, Except.bind, pure, Except.pure]

theorem isPowerOfTwo_iff {v : Nat} (hv : v ≤ 4096) : isPowerOfTwo v = true ↔ ∃ k, v = 2 ^ k := by
  unfold isPowerOfTwo
  rw [List.any_eq_true]
  constructor
  · rintro ⟨k, _, hk⟩
    exact ⟨k, beq_iff_eq.mp hk⟩
  · rintro ⟨k, rfl⟩
    refine ⟨k, List.mem_range.mpr ?_, beq_self_eq_true _⟩
    by_contra hlt
    have : 2 ^ 32 ≤ 2 ^ k := Nat.pow_le_pow_right (by decide) (by omega)
    omega

end Operations

/-- The reference the parser answers. -/
def refOf (bytes : List UInt8) : V2CapsuleRef :=
  ⟨bytes, directoryOffset (Mem.ofList bytes), entryCount (Mem.ofList bytes)⟩

/-- An entry reference reads the fields of a directory entry. -/
structure Reads (e : V2EntryRef) (bytes : List UInt8) (d : Dirent) : Prop where
  entryType : e.entryType = .ok d.type
  flags : e.flags = .ok d.flags
  version : e.version = .ok d.version
  reserved0 : e.reserved0 = .ok d.reserved0
  offset : e.offset = .ok d.offset
  size : e.size = .ok d.size
  checksum : e.checksum = .ok d.checksum
  alignment : e.alignment = .ok d.alignment
  reserved1 : e.reserved1 = .ok d.reserved1
  capsule : e.capsule = bytes

section Entry

variable {bytes : List UInt8} {i : Nat}

/-- A field of a frame is a field of the capsule. -/
theorem readLe_frame {o w : Nat} (h : o + w ≤ 48) :
    readLe Stop.panic ((Mem.ofList bytes).bytes a 48) o w =
      .ok ((Mem.ofList bytes).getLE (a + o) w) := by
  rw [readLe_ok (by rw [Mem.bytes_length]; exact h)]
  congr 1
  refine Mem.getLE_congr fun k hk => ?_
  rw [Mem.ofList_bytes (by omega), Nat.add_assoc]

theorem uncheckedEntry_ok (h : HeaderOk (Mem.ofList bytes) bytes.length)
    (hi : i < entryCount (Mem.ofList bytes)) :
    ∃ e, (refOf bytes).uncheckedEntry i = .ok e ∧ Reads e bytes (dirent (Mem.ofList bytes) i) := by
  have hhigh := h.high
  have hend := h.dirEnd
  unfold maxExtent at hhigh
  refine ⟨⟨(Mem.ofList bytes).bytes (directoryOffset (Mem.ofList bytes) + i * 48) 48, bytes⟩, ?_, ?_⟩
  · unfold V2CapsuleRef.uncheckedEntry refOf
    dsimp only
    rw [mul_ok (by omega)]
    change add _ _ >>= _ = _
    rw [add_ok (by omega)]
    change add _ _ >>= _ = _
    rw [add_ok (by omega)]
    change slice _ _ _ _ >>= _ = _
    rw [slice_ok (by omega) (by omega), Nat.add_sub_cancel_left]
    rfl
  · exact ⟨readLe_frame (by decide), readLe_frame (by decide), readLe_frame (by decide),
      readLe_frame (by decide), readLe_frame (by decide), readLe_frame (by decide),
      readLe_frame (by decide), readLe_frame (by decide), readLe_frame (by decide), rfl⟩

theorem Reads.data {e : V2EntryRef} (h : Reads e bytes d)
    (hin : d.offset + d.size ≤ bytes.length) (hhigh : bytes.length ≤ maxExtent) :
    e.data = .ok (payload (Mem.ofList bytes) d) := by
  unfold maxExtent at hhigh
  unfold V2EntryRef.data
  rw [h.offset]
  change e.size >>= _ = _
  rw [h.size]
  change add _ _ >>= _ = _
  rw [add_ok (by omega), h.capsule]
  change slice _ _ _ _ = _
  rw [slice_ok (by omega) hin, Nat.add_sub_cancel_left]
  rfl

end Entry

/-! ## What the parser settles -/

/-- A refusal is no panic. -/
theorem err_ne_panic (e : V2Error) : ¬ Stop.err e = .panic := fun h => by cases h

section Settled

variable {bytes : List UInt8}

/-- The alignment test of the source is the grammar's. -/
theorem alignment_iff {alignment offset : Nat} :
    ¬ (alignment = 0 ∨ isPowerOfTwo alignment = false ∨ 4096 < alignment ∨
        offset &&& (alignment - 1) ≠ 0) ↔
      (∃ k, alignment = 2 ^ k) ∧ alignment ≤ 4096 ∧ alignment ∣ offset := by
  simp only [not_or, Bool.not_eq_false, not_lt, ne_eq, not_not]
  constructor
  · rintro ⟨_, hpow, hsmall, hmask⟩
    obtain ⟨k, rfl⟩ := (isPowerOfTwo_iff hsmall).mp hpow
    exact ⟨⟨k, rfl⟩, hsmall, and_pred_two_pow_eq_zero.mp hmask⟩
  · rintro ⟨⟨k, rfl⟩, hsmall, hdvd⟩
    exact ⟨(Nat.two_pow_pos k).ne', (isPowerOfTwo_iff hsmall).mpr ⟨k, rfl⟩, hsmall,
      and_pred_two_pow_eq_zero.mpr hdvd⟩

theorem checkZero_settles {lo hi : Nat} (hle : lo ≤ hi) (hin : hi ≤ bytes.length) :
    Settles (· = .panic) ((refOf bytes).checkZero lo hi)
      (∀ x, lo ≤ x → x < hi → Mem.ofList bytes x = 0) fun _ => True := by
  refine .ok_bind (slice_ok hle hin) (.refuse (err_ne_panic _) ?_)
  rw [Mem.exists_bytes_ne_zero]
  constructor
  · intro hno x hlo hhi
    by_contra hne
    exact hno ⟨x - lo, by omega, by rwa [Nat.add_sub_cancel' hlo]⟩
  · rintro hall ⟨i, hi', hne⟩
    exact hne (hall (lo + i) (by omega) (by omega))

variable (h : HeaderOk (Mem.ofList bytes) bytes.length)

include h

theorem checkPriors_settles (hi : i < entryCount (Mem.ofList bytes)) (hd : d.offset + d.size ≤ bytes.length)
    (hpriors : ∀ j < i, (dirent (Mem.ofList bytes) j).Ok bytes.length) :
    Settles (· = .panic) ((refOf bytes).checkPriors d.offset d.size i)
      (∀ j < i, d.span.Disjoint (dirent (Mem.ofList bytes) j).span) fun _ => True := by
  have hhigh := h.high
  unfold maxExtent at hhigh
  refine .forUpTo (fun j => d.span.Disjoint (dirent (Mem.ofList bytes) j).span)
    (fun _ _ => True) trivial fun j hj _ _ _ => ?_
  obtain ⟨e, he, hreads⟩ := uncheckedEntry_ok h (Nat.lt_trans hj hi)
  have hin := (hpriors j hj).inside
  refine .ok_bind he (.ok_bind hreads.offset (.ok_bind hreads.size
    (.ok_bind (overlaps_ok (by omega) (by omega)) ?_)))
  refine .refuse (err_ne_panic _) ?_
  rw [decide_eq_true_iff]
  exact not_overlap_iff

/-- The two fixed overlap tests, on an entry inside the capsule. -/
theorem overlapsFixed_ok
    (hcount : entryCount (Mem.ofList bytes) ≠ 0) (hd : d.offset + d.size ≤ bytes.length) :
    ∃ hit, (refOf bytes).overlapsFixed (entryCount (Mem.ofList bytes) * 48) d.offset d.size =
        .ok hit ∧
      (¬ hit = true ↔ d.span.Disjoint headerSpan ∧
        d.span.Disjoint (directorySpan (Mem.ofList bytes))) := by
  have hhigh := h.high
  have hend := h.dirEnd
  unfold maxExtent at hhigh
  have hheader : ¬ (d.offset < 0 + 64 ∧ 0 < d.offset + d.size) ↔ d.span.Disjoint headerSpan :=
    not_overlap_iff
  have hdirectory : ¬ (d.offset < directoryOffset (Mem.ofList bytes) +
      entryCount (Mem.ofList bytes) * 48 ∧ directoryOffset (Mem.ofList bytes) < d.offset + d.size) ↔
      d.span.Disjoint (directorySpan (Mem.ofList bytes)) := not_overlap_iff
  unfold V2CapsuleRef.overlapsFixed
  rw [overlaps_ok (by omega) (by omega)]
  by_cases hhit : d.offset < 0 + 64 ∧ 0 < d.offset + d.size
  · refine ⟨true, ?_, ?_⟩
    · rw [decide_eq_true hhit]
      rfl
    · rw [← hheader]
      exact ⟨fun hne => absurd rfl hne, fun hboth => absurd hhit hboth.1⟩
  · refine ⟨decide (d.offset < directoryOffset (Mem.ofList bytes) + entryCount (Mem.ofList bytes) * 48 ∧
      directoryOffset (Mem.ofList bytes) < d.offset + d.size), ?_, ?_⟩
    · rw [decide_eq_false hhit]
      change (if entryCount (Mem.ofList bytes) ≠ 0 then _ else _) = _
      rw [if_pos hcount]
      exact overlaps_ok (by omega) (by change directoryOffset _ + _ < _; omega)
    · rw [decide_eq_true_iff, ← hheader]
      exact ⟨fun hne => ⟨hhit, hdirectory.mp hne⟩, fun hboth => hdirectory.mpr hboth.2⟩

theorem checkEntry_settles (hi : i < entryCount (Mem.ofList bytes))
    (hpriors : ∀ j < i, EntryGood (Mem.ofList bytes) bytes.length j)
    (hwork : bytes.length + payloadBytes (Mem.ofList bytes) i ≤ maxCrcWork) :
    Settles (· = .panic) ((refOf bytes).checkEntry (entryCount (Mem.ofList bytes) * 48) i
        (bytes.length + payloadBytes (Mem.ofList bytes) i))
      (EntryGood (Mem.ofList bytes) bytes.length i)
      fun work => work = bytes.length + payloadBytes (Mem.ofList bytes) (i + 1) := by
  obtain ⟨e, he, hreads⟩ := uncheckedEntry_ok h hi
  have hhigh := h.high
  unfold maxExtent at hhigh
  have hsum := payloadBytes_succ (c := Mem.ofList bytes) i
  have hoff : (dirent (Mem.ofList bytes) i).offset < 2 ^ 64 := get64_lt _ _
  have hsz : (dirent (Mem.ofList bytes) i).size < 2 ^ 64 := get64_lt _ _
  refine .ok_bind he (.ok_bind hreads.reserved0 (.ok_bind hreads.reserved1
    (.ok_bind hreads.size ?_)))
  refine .test (err_ne_panic _) (by simp only [not_or, ne_eq, not_not])
    (fun hg => And.intro hg.ok.reserved0 (And.intro hg.ok.reserved1 hg.ok.nonempty)) fun hform => ?_
  refine .ok_bind hreads.alignment (.ok_bind hreads.offset ?_)
  refine .test (err_ne_panic _) alignment_iff (fun hg => ⟨hg.ok.power, hg.ok.small, hg.ok.aligned⟩)
    fun halign => ?_
  refine .ok_bind (tryUsize_ok hoff) (.ok_bind (tryUsize_ok hsz) ?_)
  refine .test (err_ne_panic _) (by change ¬ (bytes.length < _ ∨ bytes.length - _ < _) ↔ _; omega) (·.ok.inside)
    fun hin => ?_
  obtain ⟨hit, hfixed, hiff⟩ := overlapsFixed_ok h (by omega) hin
  refine .ok_bind hfixed (.test (err_ne_panic _) hiff (fun hg => ⟨hg.header, hg.directory⟩)
    fun hapart => ?_)
  refine .step (checkPriors_settles h hi hin fun j hj => (hpriors j hj).ok) (·.priors)
    fun hprior _ _ => ?_
  have hadd : V2CapsuleRef.checkedAdd (bytes.length + payloadBytes (Mem.ofList bytes) i)
      (dirent (Mem.ofList bytes) i).size = .ok (bytes.length + payloadBytes (Mem.ofList bytes) (i + 1)) := by
    rw [hsum, ← Nat.add_assoc]
    exact if_pos (by unfold maxCrcWork at hwork; omega)
  refine .ok_bind hadd (.test (err_ne_panic _) not_lt (·.work) fun hmax => ?_)
  exact .answer ⟨⟨hform.1, hform.2.1, halign.1, halign.2.1, halign.2.2, hform.2.2, hin⟩, hapart.1, hapart.2,
    hprior, hmax⟩ rfl

theorem checkEntries_settles :
    Settles (· = .panic) (forUpTo ((refOf bytes).checkEntry (entryCount (Mem.ofList bytes) * 48))
        (entryCount (Mem.ofList bytes)) bytes.length)
      (∀ i < entryCount (Mem.ofList bytes), EntryGood (Mem.ofList bytes) bytes.length i)
      fun _ => True := by
  refine .mono (.forUpTo (EntryGood (Mem.ofList bytes) bytes.length)
    (fun i work => work = bytes.length + payloadBytes (Mem.ofList bytes) i) rfl ?_)
    fun _ _ _ => trivial
  intro i hi hpriors work hwork
  rw [hwork]
  refine checkEntry_settles h hi hpriors ?_
  cases i with
  | zero => exact Nat.le_trans h.high (by decide)
  | succ i => exact (hpriors i (Nat.lt_succ_self i)).work

theorem selectSpan_ok (cursor : Nat) :
    (refOf bytes).selectSpan cursor =
      .ok (pick (active (Mem.ofList bytes)) bytes.length cursor) := by
  have hlow := h.low
  have hcount := h.count
  have hbody : ∀ i < entryCount (Mem.ofList bytes), ∀ best : Span, (do
      let entry ← (refOf bytes).uncheckedEntry i
      let start ← entry.offset
      if cursor ≤ start ∧ start < best.start then do
        let size ← entry.size
        pure (⟨start, size⟩ : Span)
      else pure best : R Span) = .ok (better cursor best (dirent (Mem.ofList bytes) i).span) := by
    intro i hi best
    obtain ⟨e, he, hreads⟩ := uncheckedEntry_ok h hi
    rw [he]
    change (e.offset >>= fun start => if cursor ≤ start ∧ start < best.start then do
      let size ← e.size
      pure (⟨start, size⟩ : Span) else pure best) = _
    rw [hreads.offset, hreads.size]
    by_cases hbetter : cursor ≤ (dirent (Mem.ofList bytes) i).offset ∧
        (dirent (Mem.ofList bytes) i).offset < best.start
    · have : better cursor best (dirent (Mem.ofList bytes) i).span =
          (dirent (Mem.ofList bytes) i).span := if_pos hbetter
      rw [this]
      exact if_pos hbetter
    · have : better cursor best (dirent (Mem.ofList bytes) i).span = best := if_neg hbetter
      rw [this]
      exact if_neg hbetter
  unfold V2CapsuleRef.selectSpan
  change (mul (entryCount (Mem.ofList bytes)) 48 >>= _) = _
  rw [mul_ok (by omega)]
  change forUpTo _ (entryCount (Mem.ofList bytes)) _ = _
  rw [forUpTo_ok _ hbody]
  exact congrArg Except.ok (foldl_dirents (Nat.lt_of_lt_of_le (by decide) hlow) cursor)

theorem paddingTurn_settles (cursor : Nat)
    (hin : ∀ s ∈ active (Mem.ofList bytes), s.stop ≤ bytes.length) :
    Settles (· = .panic) ((refOf bytes).paddingTurn cursor)
      ((pick (active (Mem.ofList bytes)) bytes.length cursor).size ≠ 0 ∧
        ∀ x, cursor ≤ x → x < (pick (active (Mem.ofList bytes)) bytes.length cursor).start →
          Mem.ofList bytes x = 0)
      fun next => next = advance (active (Mem.ofList bytes)) bytes.length cursor := by
  have hhigh := h.high
  unfold maxExtent at hhigh
  have hstop := pick_stop_le hin cursor
  unfold Span.stop at hstop
  refine .ok_bind (selectSpan_ok h cursor) (.test (err_ne_panic _) Iff.rfl (·.1) fun hsize => ?_)
  refine .step (checkZero_settles (pick_past hsize) (by omega)) (·.2) fun hzero _ _ => ?_
  rw [add_ok (by omega)]
  exact .answer ⟨hsize, hzero⟩ rfl

theorem validatePadding_settles
    (hgood : ∀ i < entryCount (Mem.ofList bytes), EntryGood (Mem.ofList bytes) bytes.length i) :
    Settles (· = .panic) (refOf bytes).validatePadding
      (Gaps (fun x => Mem.ofList bytes x = 0) (active (Mem.ofList bytes)) 0 bytes.length)
      fun _ => True := by
  obtain ⟨hsize, hin, hpair⟩ := h.active_ok hgood
  have hcount : 1 + (if entryCount (Mem.ofList bytes) = 0 then 0
      else 1 + entryCount (Mem.ofList bytes)) = (active (Mem.ofList bytes)).length := by
    rw [active_length]
    split
    next hzero => rw [hzero]; rfl
    next hne => omega
  refine .congr (selection_iff hsize hin hpair) ?_
  unfold V2CapsuleRef.validatePadding
  dsimp only
  rw [show (refOf bytes).entryCount = entryCount (Mem.ofList bytes) from rfl, hcount]
  refine .bind (.forUpTo _
    (fun i cursor => cursor = (advance (active (Mem.ofList bytes)) bytes.length)^[i] 0) rfl ?_) ?_
  · rintro i _ _ cursor rfl
    rw [Function.iterate_succ_apply']
    exact paddingTurn_settles h _ hin
  · rintro _ cursor rfl
    exact checkZero_settles (iterate_advance_le hin _) (Nat.le_refl _)

theorem checkPayloadCrc_settles (hi : i < entryCount (Mem.ofList bytes))
    (hok : (dirent (Mem.ofList bytes) i).Ok bytes.length) :
    Settles (· = .panic) ((refOf bytes).checkPayloadCrc i)
      (crc64 (payload (Mem.ofList bytes) (dirent (Mem.ofList bytes) i)) =
        (dirent (Mem.ofList bytes) i).checksum) fun _ => True := by
  obtain ⟨e, he, hreads⟩ := uncheckedEntry_ok h hi
  exact .ok_bind he (.ok_bind (hreads.data hok.inside h.high)
    (.ok_bind hreads.checksum (.refuse (err_ne_panic _) not_not)))

theorem checkBody_settles :
    Settles (· = .panic) ((refOf bytes).checkBody (entryCount (Mem.ofList bytes) * 48))
      (BodyOk (Mem.ofList bytes) bytes.length) fun _ => True := by
  have hlow := h.low
  have hcrc : (crc64Final (crc64Update (crc64Update (crc64Update crc64Init
      ((Mem.ofList bytes).bytes 0 40)) (List.replicate 8 0))
      ((Mem.ofList bytes).bytes 48 (bytes.length - 48)))).toNat =
      crcSpliced (Mem.ofList bytes) 0 bytes.length 40 := rfl
  refine .step (checkEntries_settles h) (·.entries) fun hgood _ _ => ?_
  refine .step (validatePadding_settles h hgood) (·.padding) fun hpad _ _ => ?_
  refine .ok_bind (slice_ok (Nat.zero_le 40) (show 40 ≤ bytes.length by omega)) ?_
  refine .ok_bind (slice_ok (show 48 ≤ bytes.length by omega) (Nat.le_refl _)) ?_
  refine .ok_bind (readLe_ok (show 40 + 8 ≤ bytes.length by omega)) ?_
  refine .test (err_ne_panic _) not_not (·.crc) fun hsum => ?_
  exact .congr ⟨fun hpayloads => ⟨hgood, hpad, hsum, hpayloads⟩, (·.payloadCrc)⟩
    (.forUpTo _ (fun _ _ => True) trivial fun i hi _ _ _ => checkPayloadCrc_settles h hi (hgood i hi).ok)

end Settled

/-- The Rust parser answers exactly on capsules, and never panics. -/
theorem parse_settles (bytes : List UInt8) :
    Settles (· = .panic) (V2CapsuleRef.parse bytes) (WellFormed (Mem.ofList bytes) bytes.length)
      fun r => r = refOf bytes := by
  have hcount := get32_lt (Mem.ofList bytes) 20
  refine .congr wellFormed_iff.symm ?_
  unfold V2CapsuleRef.parse
  refine .test (err_ne_panic _) not_lt (·.1.low) fun hlow => ?_
  have hfield : ∀ o w, o + w ≤ 64 →
      readLe Stop.panic bytes o w = .ok ((Mem.ofList bytes).getLE o w) :=
    fun o w how => readLe_ok (by omega)
  refine .test (err_ne_panic _) not_lt (·.1.high) fun hhigh => ?_
  refine .ok_bind (slice_ok (Nat.zero_le 8) (by omega)) ?_
  refine .test (err_ne_panic _) not_not (·.1.magic) fun hmagic => ?_
  refine .ok_bind (hfield 8 2 (by decide)) (.ok_bind (hfield 10 2 (by decide)) ?_)
  refine .test (err_ne_panic _) (by rw [not_or, not_not, not_not]; rfl)
    (fun h => And.intro h.1.major h.1.minor) fun hversion => ?_
  refine .ok_bind (hfield 12 2 (by decide)) (.ok_bind (hfield 14 2 (by decide))
    (.ok_bind (hfield 16 4 (by decide)) (.ok_bind (hfield 48 8 (by decide))
      (.ok_bind (hfield 56 8 (by decide)) ?_))))
  refine .test (err_ne_panic _) (by simp only [not_or, ne_eq, not_not]; rfl)
    (fun ⟨h, _⟩ => And.intro h.headerSize (And.intro h.direntSize (And.intro h.flags
      (And.intro h.reserved0 h.reserved1)))) fun hformat => ?_
  refine .ok_bind (hfield 24 8 (by decide)) ?_
  refine .test (err_ne_panic _) not_not (·.1.total) fun htotal => ?_
  refine .ok_bind (hfield 20 4 (by decide)) ?_
  refine .test (err_ne_panic _) not_lt (·.1.count) fun hmany => ?_
  refine .ok_bind (hfield 32 8 (by decide)) ?_
  refine .test (err_ne_panic _) ?_ (fun h => And.intro h.1.dirAligned
    (Nat.le_trans (Nat.le_add_right _ _) h.1.dirEnd)) fun halign => ?_
  · rw [not_or, not_not, not_lt]
    exact and_congr_left fun _ => and_pred_two_pow_eq_zero (k := 3)
  refine .test (err_ne_panic _) ?_ (·.1.empty) fun hempty => ?_
  · rw [not_and, not_or, not_not, not_not]
    rfl
  refine .ok_bind (mul_ok (show get32 (Mem.ofList bytes) 20 * 48 < 2 ^ 64 by omega)) ?_
  refine .test (err_ne_panic _) ?_ (fun h => And.intro h.1.dirStart h.1.dirEnd) fun hdir => ?_
  · have hle := halign.2
    change ¬ (directoryOffset (Mem.ofList bytes) < 64 ∨ bytes.length -
      directoryOffset (Mem.ofList bytes) < entryCount (Mem.ofList bytes) * 48) ↔ _
    omega
  have hheader : HeaderOk (Mem.ofList bytes) bytes.length :=
    ⟨hlow, hhigh, hmagic, hversion.1, hversion.2, hformat.1, hformat.2.1, hformat.2.2.1,
      hformat.2.2.2.1, hformat.2.2.2.2, htotal, hmany, hempty, halign.1, hdir.1, hdir.2⟩
  exact .step (checkBody_settles hheader) (·.2) fun hbody _ _ => .answer ⟨hheader, hbody⟩ rfl

/-- An entry of a parsed capsule, or a refusal past the count. -/
theorem entry_settles {bytes : List UInt8} (h : WellFormed (Mem.ofList bytes) bytes.length)
    (i : Nat) :
    Settles (· = .panic) ((refOf bytes).entry i) (i < entryCount (Mem.ofList bytes))
      fun e => Reads e bytes (dirent (Mem.ofList bytes) i) ∧
        e.data = .ok (payload (Mem.ofList bytes) (dirent (Mem.ofList bytes) i)) := by
  unfold V2CapsuleRef.entry
  refine .test (err_ne_panic _) not_le id fun hi => ?_
  obtain ⟨e, he, hreads⟩ := uncheckedEntry_ok h.toHeaderOk hi
  rw [he]
  exact .answer hi ⟨hreads, hreads.data (h.entries i hi).inside h.high⟩

end BearBoot.V2.Rust
