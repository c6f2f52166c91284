import BearBoot.Machine.Span
import BearBoot.Wire

/-!
# The v2 capsule grammar

A capsule is a byte string: a 64-byte header, a directory of 48-byte
entries somewhere behind it, and payloads anywhere else. This module says
which byte strings are capsules (`WellFormed`), in the format's own terms
and without an order of checks: fields with required values, spans that do
not overlap, bytes between them that are zero, and CRCs that match.

No parser is mentioned. The C parser, the Rust parser and the Python
validator are each compared with this predicate, and agree because of it.

A byte string is a memory read from index `0` and a length. A parser that
works on a pointer sees the memory based at that pointer.
-/

namespace BearBoot.V2

open Machine

variable {c : Mem} {n : Nat}

/-- `BBP_V2_MAGIC_BYTES`. -/
def magic : List UInt8 := [0x42, 0x42, 0x50, 0x32, 0x43, 0x41, 0x50, 0]

/-- `BBP_V2_MAX_EXTENT`. -/
def maxExtent : Nat := 64 * 1024 * 1024

/-- `BBP_V2_MAX_CRC_WORK`. -/
def maxCrcWork : Nat := 96 * 1024 * 1024

/-! ## Fields -/

section Fields

variable (c : Mem)

def entryCount : Nat := get32 c 20

def totalSize : Nat := get64 c 24

def directoryOffset : Nat := get64 c 32

/-- `struct bbp_v2_directory_entry`. -/
structure Dirent where
  type : Nat
  flags : Nat
  version : Nat
  reserved0 : Nat
  offset : Nat
  size : Nat
  checksum : Nat
  alignment : Nat
  reserved1 : Nat
  deriving DecidableEq, Repr

/-- The directory entry whose bytes begin at `e`. -/
def direntAt (e : Nat) : Dirent where
  type := get64 c e
  flags := get32 c (e + 8)
  version := get16 c (e + 12)
  reserved0 := get16 c (e + 14)
  offset := get64 c (e + 16)
  size := get64 c (e + 24)
  checksum := get64 c (e + 32)
  alignment := get32 c (e + 40)
  reserved1 := get32 c (e + 44)

/-- The `i`-th directory entry. -/
def dirent (i : Nat) : Dirent := direntAt c (directoryOffset c + i * 48)

/-- The payload's place in the capsule. -/
def Dirent.span (d : Dirent) : Span := ⟨d.offset, d.size⟩

def payload (d : Dirent) : List UInt8 := c.bytes d.offset d.size

def payloads : List Span := (List.range (entryCount c)).map fun i => (dirent c i).span

def headerSpan : Span := ⟨0, 64⟩

def directorySpan : Span := ⟨directoryOffset c, entryCount c * 48⟩

/-- Everything the format places: header, directory, payloads. -/
def spans : List Span := headerSpan :: directorySpan c :: payloads c

/-- The payload bytes of the first `i` entries. -/
def payloadBytes (i : Nat) : Nat := ((List.range i).map fun j => (dirent c j).size).sum

end Fields

/-! ## The grammar -/

/-- What a directory entry must satisfy on its own, in a capsule of `n`
bytes. -/
structure Dirent.Ok (d : Dirent) (n : Nat) : Prop where
  reserved0 : d.reserved0 = 0
  reserved1 : d.reserved1 = 0
  power : ∃ k, d.alignment = 2 ^ k
  small : d.alignment ≤ 4096
  aligned : d.alignment ∣ d.offset
  nonempty : d.size ≠ 0
  inside : d.offset + d.size ≤ n

/-- What the header of a capsule of `n` bytes must say. -/
structure HeaderOk (c : Mem) (n : Nat) : Prop where
  low : 64 ≤ n
  high : n ≤ maxExtent
  magic : c.bytes 0 8 = V2.magic
  major : get16 c 8 = 2
  minor : get16 c 10 = 0
  headerSize : get16 c 12 = 64
  direntSize : get16 c 14 = 48
  flags : get32 c 16 = 0
  reserved0 : get64 c 48 = 0
  reserved1 : get64 c 56 = 0
  total : totalSize c = n
  count : entryCount c ≤ 1024
  empty : entryCount c = 0 → directoryOffset c = 64 ∧ n = 64
  dirAligned : 8 ∣ directoryOffset c
  dirStart : 64 ≤ directoryOffset c
  dirEnd : directoryOffset c + entryCount c * 48 ≤ n

/-- The `n` bytes of `c` are a capsule. -/
structure WellFormed (c : Mem) (n : Nat) : Prop extends HeaderOk c n where
  entries : ∀ i < entryCount c, (dirent c i).Ok n
  disjoint : (spans c).Pairwise Span.Disjoint
  padding : ∀ x < n, (∀ s ∈ spans c, ¬ s.Covers x) → c x = 0
  work : n + payloadBytes c (entryCount c) ≤ maxCrcWork
  crc : crcSpliced c 0 n 40 = get64 c 40
  payloadCrc : ∀ i < entryCount c, crc64 (payload c (dirent c i)) = (dirent c i).checksum

section Payloads

variable {c : Mem}

theorem payloadBytes_succ (i : Nat) :
    payloadBytes c (i + 1) = payloadBytes c i + (dirent c i).size := by
  simp [payloadBytes, List.range_succ]

theorem payloadBytes_mono {i j : Nat} (h : i ≤ j) : payloadBytes c i ≤ payloadBytes c j := by
  induction h with
  | refl => exact Nat.le_refl _
  | step _ ih =>
    rw [payloadBytes_succ]
    exact Nat.le_trans ih (Nat.le_add_right _ _)

/-- A directory entry is its bytes. -/
theorem direntAt_congr {c' : Mem} {e e' : Nat} (h : ∀ i < 48, c' (e' + i) = c (e + i)) :
    direntAt c' e' = direntAt c e := by
  have field : ∀ o w, o + w ≤ 48 → c'.getLE (e' + o) w = c.getLE (e + o) w := by
    intro o w how
    refine Mem.getLE_congr fun i hi => ?_
    rw [Nat.add_assoc, Nat.add_assoc, h (o + i) (by omega)]
  unfold direntAt get64 get32 get16
  rw [show c'.getLE e' 8 = c.getLE e 8 from field 0 8 (by decide), field 8 4 (by decide),
    field 12 2 (by decide), field 14 2 (by decide), field 16 8 (by decide), field 24 8 (by decide),
    field 32 8 (by decide), field 40 4 (by decide), field 44 4 (by decide)]

end Payloads

/-- A capsule is its `n` bytes: whatever agrees on them is a capsule too,
with the same directory and the same payloads. -/
theorem WellFormed.congr {c' : Mem} (h : WellFormed c n) (hc : ∀ i < n, c' i = c i) :
    WellFormed c' n ∧ entryCount c' = entryCount c ∧
      ∀ i < entryCount c, dirent c' i = dirent c i ∧
        payload c' (dirent c i) = payload c (dirent c i) := by
  have hlow := h.low
  have hend := h.dirEnd
  have field : ∀ o w, o + w ≤ n → c'.getLE o w = c.getLE o w :=
    fun o w how => Mem.getLE_congr fun i hi => hc (o + i) (by omega)
  have hcount : entryCount c' = entryCount c := field 20 4 (by omega)
  have htotal : totalSize c' = totalSize c := field 24 8 (by omega)
  have hdir : directoryOffset c' = directoryOffset c := field 32 8 (by omega)
  have hdirent : ∀ i < entryCount c, dirent c' i = dirent c i := by
    intro i hi
    rw [dirent, dirent, hdir]
    exact direntAt_congr fun k hk => hc _ (by omega)
  have hpayload : ∀ i < entryCount c, payload c' (dirent c i) = payload c (dirent c i) := by
    intro i hi
    have hin := (h.entries i hi).inside
    exact Mem.bytes_congr fun k hk => hc _ (by omega)
  have hspans : spans c' = spans c := by
    unfold spans payloads directorySpan
    rw [hcount, hdir]
    refine congrArg _ (congrArg _ (List.map_congr_left fun i hi => ?_))
    rw [hdirent i (List.mem_range.mp hi)]
  have hbytes : payloadBytes c' (entryCount c) = payloadBytes c (entryCount c) := by
    refine congrArg List.sum (List.map_congr_left fun i hi => ?_)
    rw [hdirent i (List.mem_range.mp hi)]
  have hmagic : c'.bytes 0 8 = c.bytes 0 8 := Mem.bytes_congr fun i hi => hc _ (by omega)
  have hcrc : crcSpliced c' 0 n 40 = crcSpliced c 0 n 40 :=
    crcSpliced_congr (fun i hi => hc _ (by omega)) fun i _ hi => hc _ (by omega)
  refine ⟨?_, hcount, fun i hi => ⟨hdirent i hi, hpayload i hi⟩⟩
  exact
    { low := hlow
      high := h.high
      magic := hmagic.trans h.magic
      major := (field 8 2 (by omega)).trans h.major
      minor := (field 10 2 (by omega)).trans h.minor
      headerSize := (field 12 2 (by omega)).trans h.headerSize
      direntSize := (field 14 2 (by omega)).trans h.direntSize
      flags := (field 16 4 (by omega)).trans h.flags
      reserved0 := (field 48 8 (by omega)).trans h.reserved0
      reserved1 := (field 56 8 (by omega)).trans h.reserved1
      total := htotal.trans h.total
      count := hcount ▸ h.count
      empty := by rw [hcount, hdir]; exact h.empty
      dirAligned := hdir ▸ h.dirAligned
      dirStart := hdir ▸ h.dirStart
      dirEnd := by rw [hcount, hdir]; exact hend
      entries := by
        rw [hcount]
        intro i hi
        rw [hdirent i hi]
        exact h.entries i hi
      disjoint := hspans ▸ h.disjoint
      padding := by
        rw [hspans]
        intro x hx hnone
        rw [hc x hx]
        exact h.padding x hx hnone
      work := by rw [hcount, hbytes]; exact h.work
      crc := (hcrc.trans h.crc).trans (field 40 8 (by omega)).symm
      payloadCrc := by
        rw [hcount]
        intro i hi
        rw [hdirent i hi, hpayload i hi]
        exact h.payloadCrc i hi }

/-- The overlap test of the parsers is disjointness. -/
theorem not_overlap_iff {a as b bs : Nat} :
    ¬ (a < b + bs ∧ b < a + as) ↔ Span.Disjoint ⟨a, as⟩ ⟨b, bs⟩ := by
  unfold Span.Disjoint Span.stop
  dsimp only
  omega

/-! ## In the order of the parsers

The parsers look at the entries one by one, each against the ones before
it, and only then at the padding. `wellFormed_iff` says that this is the
grammar. -/

/-- The spans with something in them: an empty directory is none. -/
def active (c : Mem) : List Span :=
  headerSpan :: (if entryCount c ≠ 0 then [directorySpan c] else []) ++ payloads c

theorem active_sublist (c : Mem) : (active c).Sublist (spans c) := by
  unfold active spans
  refine List.Sublist.cons_cons _ ?_
  split
  · exact List.Sublist.refl _
  · exact List.Sublist.cons _ (List.Sublist.refl _)

theorem active_length (c : Mem) :
    (active c).length = entryCount c + 1 + (if entryCount c ≠ 0 then 1 else 0) := by
  unfold active payloads
  split
  · simp
  · simp

/-- An empty directory covers nothing, so leaving it out changes no gap. -/
theorem gaps_active_iff {P : Nat → Prop} :
    Gaps P (active c) 0 n ↔ ∀ x < n, (∀ s ∈ spans c, ¬ s.Covers x) → P x := by
  have hcover : ∀ x, (∀ s ∈ active c, ¬ s.Covers x) ↔ ∀ s ∈ spans c, ¬ s.Covers x := by
    intro x
    by_cases hcount : entryCount c = 0
    · have hempty : ¬ (directorySpan c).Covers x := by
        unfold Span.Covers Span.stop directorySpan
        dsimp only
        omega
      simp [active, spans, hcount, hempty]
    · simp [active, spans, hcount]
  constructor
  · exact fun h x hx hnone => h x (Nat.zero_le x) hx ((hcover x).mpr hnone)
  · exact fun h x _ hx hnone => h x hx ((hcover x).mp hnone)

/-- A selection over the entries, started from the header and the
directory, is a selection over the active spans. -/
theorem foldl_dirents (hn : 0 < n) (cursor : Nat) :
    (List.range (entryCount c)).foldl (fun best i => better cursor best (dirent c i).span)
      (if entryCount c ≠ 0 ∧ cursor ≤ directoryOffset c ∧
          directoryOffset c < (if cursor = 0 then (⟨0, 64⟩ : Span) else ⟨n, 0⟩).start then
        ⟨directoryOffset c, entryCount c * 48⟩
      else if cursor = 0 then ⟨0, 64⟩ else ⟨n, 0⟩) = pick (active c) n cursor := by
  have hheader : better cursor ⟨n, 0⟩ headerSpan =
      if cursor = 0 then ⟨0, 64⟩ else ⟨n, 0⟩ := by
    simp [better, headerSpan, hn]
  unfold pick active payloads
  rw [List.foldl_append, List.foldl_cons, hheader, List.foldl_map]
  congr 1
  by_cases hcount : entryCount c = 0
  · simp [hcount]
  · simp [hcount, better, directorySpan]

/-- What the entry loop establishes of the `i`-th entry. -/
structure EntryGood (c : Mem) (n i : Nat) : Prop where
  ok : (dirent c i).Ok n
  header : (dirent c i).span.Disjoint headerSpan
  directory : (dirent c i).span.Disjoint (directorySpan c)
  priors : ∀ j < i, (dirent c i).span.Disjoint (dirent c j).span
  work : n + payloadBytes c (i + 1) ≤ maxCrcWork

section Staged

variable {c : Mem} {n : Nat}

/-- Good entries and the header's own spans never meet. -/
theorem spans_pairwise_iff (hdir : 64 ≤ directoryOffset c) :
    (spans c).Pairwise Span.Disjoint ↔ ∀ i < entryCount c,
      (dirent c i).span.Disjoint headerSpan ∧ (dirent c i).span.Disjoint (directorySpan c) ∧
        ∀ j < i, (dirent c i).span.Disjoint (dirent c j).span := by
  have hfirst : headerSpan.Disjoint (directorySpan c) := Or.inl hdir
  unfold spans payloads
  simp only [List.pairwise_cons, List.mem_cons, List.mem_map, List.mem_range, forall_eq_or_imp,
    pairwise_range_map]
  constructor
  · rintro ⟨⟨_, hheader⟩, hdirectory, hpayloads⟩ i hi
    exact ⟨(hheader _ ⟨i, hi, rfl⟩).symm, (hdirectory _ ⟨i, hi, rfl⟩).symm,
      fun j hj => (hpayloads i hi j hj).symm⟩
  · intro h
    refine ⟨⟨hfirst, ?_⟩, ?_, fun i hi j hj => ((h i hi).2.2 j hj).symm⟩
    · rintro _ ⟨i, hi, rfl⟩
      exact (h i hi).1.symm
    · rintro _ ⟨i, hi, rfl⟩
      exact (h i hi).2.1.symm

/-- The entries' part of the grammar is what the entry loop establishes. -/
theorem entriesGood_iff (hhigh : n ≤ maxExtent) (hdir : 64 ≤ directoryOffset c) :
    (∀ i < entryCount c, EntryGood c n i) ↔
      (∀ i < entryCount c, (dirent c i).Ok n) ∧ (spans c).Pairwise Span.Disjoint ∧
        n + payloadBytes c (entryCount c) ≤ maxCrcWork := by
  rw [spans_pairwise_iff hdir]
  constructor
  · intro h
    refine ⟨fun i hi => (h i hi).ok, fun i hi => ⟨(h i hi).header, (h i hi).directory,
      (h i hi).priors⟩, ?_⟩
    cases hcount : entryCount c with
    | zero => exact Nat.le_trans hhigh (by decide)
    | succ k => exact (h k (by omega)).work
  · rintro ⟨hok, hdisj, hwork⟩ i hi
    obtain ⟨hheader, hdirectory, hpriors⟩ := hdisj i hi
    refine ⟨hok i hi, hheader, hdirectory, hpriors, ?_⟩
    have := payloadBytes_mono (c := c) (show i + 1 ≤ entryCount c from hi)
    omega

/-- The active spans are not empty, and inside. -/
theorem active_bounds (hlow : 64 ≤ n)
    (hdir : directoryOffset c + entryCount c * 48 ≤ n)
    (hok : ∀ i < entryCount c, (dirent c i).Ok n) :
    ∀ s ∈ active c, s.size ≠ 0 ∧ s.stop ≤ n := by
  intro s hs
  unfold active at hs
  rcases List.mem_cons.mp hs with rfl | hs
  · exact ⟨by decide, hlow⟩
  rcases List.mem_append.mp hs with hs | hs
  · split at hs
    next hcount =>
      rw [List.mem_singleton.mp hs]
      refine ⟨?_, hdir⟩
      change entryCount c * 48 ≠ 0
      omega
    next => cases hs
  · obtain ⟨i, hi, rfl⟩ := List.mem_map.mp hs
    have hi' := hok i (List.mem_range.mp hi)
    exact ⟨hi'.nonempty, hi'.inside⟩

/-- The grammar behind the header, entries first. -/
structure BodyOk (c : Mem) (n : Nat) : Prop where
  entries : ∀ i < entryCount c, EntryGood c n i
  padding : Gaps (fun x => c x = 0) (active c) 0 n
  crc : crcSpliced c 0 n 40 = get64 c 40
  payloadCrc : ∀ i < entryCount c, crc64 (payload c (dirent c i)) = (dirent c i).checksum

theorem wellFormed_iff : WellFormed c n ↔ HeaderOk c n ∧ BodyOk c n := by
  constructor
  · intro h
    refine ⟨h.toHeaderOk, ?_, gaps_active_iff.mpr h.padding, h.crc, h.payloadCrc⟩
    exact (entriesGood_iff h.high h.dirStart).mpr ⟨h.entries, h.disjoint, h.work⟩
  · rintro ⟨h, b⟩
    obtain ⟨hok, hdisj, hwork⟩ := (entriesGood_iff h.high h.dirStart).mp b.entries
    exact ⟨h, hok, hdisj, gaps_active_iff.mp b.padding, hwork, b.crc, b.payloadCrc⟩

/-- What padding needs to know of good entries: their spans, with the
header's and the directory's, are not empty, inside, and apart. -/
theorem HeaderOk.active_ok (h : HeaderOk c n) (hgood : ∀ i < entryCount c, EntryGood c n i) :
    (∀ s ∈ active c, s.size ≠ 0) ∧ (∀ s ∈ active c, s.stop ≤ n) ∧
      (active c).Pairwise Span.Disjoint := by
  obtain ⟨hok, hdisj, _⟩ := (entriesGood_iff h.high h.dirStart).mp hgood
  have hbounds := active_bounds h.low h.dirEnd hok
  exact ⟨fun s hs => (hbounds s hs).1, fun s hs => (hbounds s hs).2,
    hdisj.sublist (active_sublist c)⟩

end Staged

end BearBoot.V2
