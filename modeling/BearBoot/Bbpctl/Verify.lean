import BearBoot.Machine.Span
import BearBoot.Bbpctl.Evidence

/-!
# What `bbpctl verify` accepts

`parse_capture` and `validation` note whatever they find wrong. A capture
is accepted when nothing was noted, and `verify_accepts` says which
captures those are, in the format's own terms and without a note in sight:
`WellFormedCapture`.

The notes come from six places, and each place is compared with its own
part of the format: the header (`headerErrors_eq_nil`), INFO
(`infoErrors_eq_nil`), the single entries (`checkEntry_errors`), the
payload ranges and what lies between them (`walkFile_eq_nil`), the physical
ranges (`walkSources_eq_nil`) and the chain (`chain_eq_nil`). Two of them
look at less than the format asks for. Overlap is tested between
neighbours of a sorted list, which is enough because the list is sorted;
and the padding is tested between a cursor and the next range, which
leaves no byte out because the ranges are disjoint. The chain is walked
with a set of the links followed, found again in the directory by address;
a walk without notes is a list of different entries, and having the same
addresses as the directory makes it the directory in another order.
-/

set_option autoImplicit false

namespace BearBoot.Bbpctl

open Machine

variable {raw : List UInt8} {index : Nat} {visited : List Nat}

/-! ## Well-formed captures -/

/-- The captured bytes of INFO. -/
def infoOf (raw : List UInt8) : List UInt8 := slice raw 96 240

/-- The entries the header counts. -/
def directory (raw : List UInt8) : List DirectoryEntry :=
  (List.range (unpackHeader raw).count).map (readEntry raw)

/-- Where the directory ends and the payloads may begin. -/
def dataStart (raw : List UInt8) : Nat := 240 + (unpackHeader raw).count * 24

/-- Where the payload stands in the file. -/
def DirectoryEntry.fileSpan (e : DirectoryEntry) : Span := ⟨e.payloadOffset, e.dataSize⟩

/-- Where the tag stood in memory. -/
def DirectoryEntry.sourceSpan (e : DirectoryEntry) : Span := ⟨e.sourcePhys, e.dataSize⟩

/-- Where INFO stood in memory. -/
def infoSource (raw : List UInt8) : Span := ⟨(unpackHeader raw).infoPhys, 144⟩

/-- Everything the format places in the file. -/
def fileParts (raw : List UInt8) : List Span :=
  ⟨0, 96⟩ :: ⟨96, 144⟩ :: ⟨240, (unpackHeader raw).count * 24⟩ ::
    (directory raw).map DirectoryEntry.fileSpan

/-- Everything the capture was taken from. -/
def sourceParts (raw : List UInt8) : List Span :=
  infoSource raw :: (directory raw).map DirectoryEntry.sourceSpan

/-- The fields of the container header, apart from the address of INFO. -/
structure HeaderFit (raw : List UInt8) : Prop where
  formatMajor : (unpackHeader raw).formatMajor = 1
  formatMinor : (unpackHeader raw).formatMinor = 0
  headerSize : (unpackHeader raw).headerSize = 96
  flags : (unpackHeader raw).flags = 0
  bbpMajor : (unpackHeader raw).bbpMajor = 1
  infoBytes : (unpackHeader raw).infoBytes = 144
  dirEntrySize : (unpackHeader raw).dirEntrySize = 24
  reserved0 : (unpackHeader raw).reserved0 = 0
  dirOffset : (unpackHeader raw).dirOffset = 240
  reserved1 : (unpackHeader raw).reserved1 = 0
  count : (unpackHeader raw).count ≤ 1024
  dataOffset : (unpackHeader raw).dataOffset = dataStart raw
  infoEnd : (infoSource raw).stop ≤ 2 ^ 64 - 1
  fileSize : (unpackHeader raw).fileSize = raw.length
  small : raw.length ≤ 64 * 1024 * 1024
  crc : (unpackHeader raw).containerCrc64 = crcSpliced (Mem.ofList raw) 0 raw.length 80

/-- The fields of INFO. -/
structure InfoFit (raw : List UInt8) : Prop where
  size : (infoOf raw).length = 144
  magic : (Mem.ofList (infoOf raw)).bytes 0 16 = infoMagic
  major : get16 (Mem.ofList (infoOf raw)) 16 = 1
  version : get16 (Mem.ofList (infoOf raw)) 16 = (unpackHeader raw).bbpMajor ∧
    get16 (Mem.ofList (infoOf raw)) 18 = (unpackHeader raw).bbpMinor
  infoSize : 144 ≤ get32 (Mem.ofList (infoOf raw)) 20 ∧
    get32 (Mem.ofList (infoOf raw)) 20 ≤ 64 * 1024 * 1024
  tagCount : get32 (Mem.ofList (infoOf raw)) 116 ≤ 1024
  firstTag : get64 (Mem.ofList (infoOf raw)) 120 % 8 = 0
  nextContext : get64 (Mem.ofList (infoOf raw)) 128 % 8 = 0
  crc : get64 (Mem.ofList (infoOf raw)) 136 = crcSpliced (Mem.ofList (infoOf raw)) 0 144 136

/-- A directory entry on its own, in a file of `size` bytes whose payloads
begin at `data`. -/
structure EntryFit (size data : Nat) (e : DirectoryEntry) : Prop where
  source : e.sourcePhys ≠ 0 ∧ e.sourcePhys % 8 = 0
  offset : e.payloadOffset % 8 = 0
  low : 32 ≤ e.dataSize
  high : e.dataSize ≤ 16 * 1024 * 1024
  flags : e.flags = 0
  start : data ≤ e.payloadOffset
  inside : e.payloadOffset + e.dataSize ≤ size
  sourceEnd : e.sourceSpan.stop ≤ 2 ^ 64 - 1

/-- The tag an entry holds. -/
structure TagFit (e : DirectoryEntry) : Prop where
  size : get32 (Mem.ofList e.payload) 8 = e.dataSize
  crc : get64 (Mem.ofList e.payload) 24 =
    crcSpliced (Mem.ofList e.payload) 0 e.payload.length 24

/-- Header, INFO, directory and payloads, each as it should be and in its
place, and nothing else. -/
structure Layout (raw : List UInt8) : Prop where
  header : HeaderFit raw
  info : InfoFit raw
  entries : ∀ e ∈ directory raw, EntryFit raw.length (dataStart raw) e
  tags : ∀ e ∈ directory raw, TagFit e
  payloads : ((directory raw).map DirectoryEntry.fileSpan).Pairwise Span.Disjoint
  sources : (sourceParts raw).Pairwise Span.Disjoint
  padding : ∀ x < raw.length, (∀ s ∈ fileParts raw, ¬ s.Covers x) → Mem.ofList raw x = 0
  ending : (∃ e ∈ directory raw, e.fileSpan.stop = raw.length) ∨
    directory raw = [] ∧ dataStart raw = raw.length

/-- INFO was captured from an address that can hold one. -/
def InfoAligned (raw : List UInt8) : Prop :=
  (unpackHeader raw).infoPhys ≠ 0 ∧ (unpackHeader raw).infoPhys % 8 = 0

/-- The link `pointer` leads through the entries, in this order, to null. -/
def Leads : (pointer : Nat) → List DirectoryEntry → Prop
  | pointer, [] => pointer = 0
  | pointer, e :: es => pointer = e.sourcePhys ∧ Leads (get64 (Mem.ofList e.payload) 16) es

/-- INFO counts the entries, and its first link leads through every one of
them once. -/
structure Chained (raw : List UInt8) : Prop where
  count : get32 (Mem.ofList (infoOf raw)) 116 = (directory raw).length
  links : ∃ order, order.Perm (directory raw) ∧
    Leads (get64 (Mem.ofList (infoOf raw)) 120) order

structure WellFormedCapture (raw : List UInt8) : Prop where
  layout : Layout raw
  infoPhys : InfoAligned raw
  chain : Chained raw

/-! ## Header and INFO -/

theorem align8_dataStart : align8 (dataStart raw) = dataStart raw := by
  unfold align8 dataStart
  omega

theorem headerErrors_eq_nil (hraw : 96 ≤ raw.length) :
    headerErrors raw (unpackHeader raw) hraw = [] ↔ HeaderFit raw ∧ InfoAligned raw := by
  unfold headerErrors
  simp only [List.flatMap_cons, List.flatMap_nil, List.append_nil, List.append_eq_nil_iff,
    note_eq_nil_iff, checksumWithZero_eq, ne_eq, not_not, not_and, not_or, not_lt]
  have hdata : (unpackHeader raw).count ≤ 1024 →
      align8 (240 + min (unpackHeader raw).count 1024 * 24) = dataStart raw := by
    intro hcount
    rw [Nat.min_eq_left hcount]
    exact align8_dataStart
  constructor
  · rintro ⟨⟨⟨⟨⟨⟨⟨⟨h1, h2, h3, h4, h5, h6, h7, h8, h9, h10⟩, hcount⟩, hoffset⟩, hphys⟩, hend⟩,
      hsize⟩, hsmall⟩, hcrc⟩
    exact ⟨⟨h1, h2, h3, h4, h5, h6, h7, h8, h9, h10, hcount, (hoffset hcount).trans (hdata hcount),
      hend, hsize, hsmall.1, hcrc⟩, hphys⟩
  · rintro ⟨h, hphys⟩
    exact ⟨⟨⟨⟨⟨⟨⟨⟨h.formatMajor, h.formatMinor, h.headerSize, h.flags, h.bbpMajor, h.infoBytes,
      h.dirEntrySize, h.reserved0, h.dirOffset, h.reserved1⟩, h.count⟩,
      fun hcount => h.dataOffset.trans (hdata hcount).symm⟩, hphys⟩, h.infoEnd⟩, h.fileSize⟩,
      h.small, h.fileSize.symm ▸ h.small⟩, h.crc⟩

/-- The notes of INFO in a parsed capture. -/
def infoErrors (raw : List UInt8) : List String :=
  (parseInfo (infoOf raw)).2 ++
    match (parseInfo (infoOf raw)).1 with
    | some f => note (¬ (f.versionMajor = (unpackHeader raw).bbpMajor ∧
        f.versionMinor = (unpackHeader raw).bbpMinor))
      "INFO version does not match the BBP version in the container header"
    | none => []

theorem aligned_iff {v : Nat} : ¬ (¬ v = 0 ∧ ¬ v % 8 = 0) ↔ v % 8 = 0 := by omega

theorem infoErrors_eq_nil : infoErrors raw = [] ↔ InfoFit raw := by
  unfold infoErrors parseInfo
  by_cases hsize : (infoOf raw).length = 144
  · simp only [dif_pos hsize]
    simp only [List.append_eq_nil_iff, note_eq_nil_iff, checksumWithZero_eq, ne_eq, not_not, not_lt,
      aligned_iff, hsize]
    constructor
    · rintro ⟨⟨⟨⟨⟨⟨⟨hmagic, hmajor⟩, hinfo⟩, htags⟩, hfirst⟩, hnext⟩, hcrc⟩, hversion⟩
      exact ⟨hsize, hmagic, hmajor, hversion, hinfo, htags, hfirst, hnext, hcrc⟩
    · rintro ⟨_, hmagic, hmajor, hversion, hinfo, htags, hfirst, hnext, hcrc⟩
      exact ⟨⟨⟨⟨⟨⟨⟨hmagic, hmajor⟩, hinfo⟩, htags⟩, hfirst⟩, hnext⟩, hcrc⟩, hversion⟩
  · rw [dif_neg hsize]
    exact ⟨(fun h => by cases h), fun h => absurd h.size hsize⟩

/-! ## Entries -/

/-- What an entry adds to the ranges in the file. -/
def fileRange (e : DirectoryEntry) : Nat × Nat × Nat :=
  (e.payloadOffset, e.payloadOffset + e.dataSize, e.index)

/-- What an entry adds to the ranges in memory. -/
def sourceRange (e : DirectoryEntry) : Nat × Nat × String :=
  (e.sourcePhys, e.sourcePhys + e.dataSize, "entry " ++ dec e.index)

variable {e : DirectoryEntry}

section Entries

variable {size data : Nat}

/-- A dictionary does not have a key exactly when the key is not among its
keys. -/
theorem lookup_eq_none {seen : List (Nat × Nat)} {key : Nat} :
    seen.lookup key = none ↔ key ∉ seen.map Prod.fst := by
  rw [List.lookup_eq_none_iff, List.mem_map, not_exists]
  simp only [bne_iff_ne, ne_eq, not_and]
  exact forall_congr' fun p => forall_congr' fun _ => not_congr eq_comm

theorem checkEntry_errors {st : Progress} (hsize : size ≤ 2 ^ 64 - 1) :
    (checkEntry size data st e).errors = [] ↔ st.errors = [] ∧ EntryFit size data e ∧
      e.sourcePhys ∉ st.sourceSeen.map Prod.fst ∧ e.payloadOffset ∉ st.payloadSeen.map Prod.fst := by
  have hrange : (if 2 ^ 64 - 1 < e.payloadOffset + e.dataSize then
        ["directory entry " ++ dec e.index ++ " payload range wraps"]
      else if e.payloadOffset < data then
        ["directory entry " ++ dec e.index ++ " payload begins before data_offset"]
      else if size < e.payloadOffset + e.dataSize then
        ["directory entry " ++ dec e.index ++ " payload extends beyond the file"]
      else []) = [] ↔ data ≤ e.payloadOffset ∧ e.payloadOffset + e.dataSize ≤ size := by
    split_ifs with h1 h2 h3
    · exact ⟨(fun h => by cases h), fun h => absurd h1 (by omega)⟩
    · exact ⟨(fun h => by cases h), fun h => absurd h2 (by omega)⟩
    · exact ⟨(fun h => by cases h), fun h => absurd h3 (by omega)⟩
    · exact ⟨fun _ => by omega, fun _ => rfl⟩
  rw [← lookup_eq_none, ← lookup_eq_none]
  unfold checkEntry
  cases st.sourceSeen.lookup e.sourcePhys with
  | some index =>
    simp only [List.append_eq_nil_iff, List.cons_ne_nil, reduceCtorEq, and_false, false_and]
  | none =>
    cases st.payloadSeen.lookup e.payloadOffset with
    | some index =>
      simp only [List.append_eq_nil_iff, List.cons_ne_nil, reduceCtorEq, and_false, false_and]
    | none =>
      simp only [List.append_eq_nil_iff, note_eq_nil_iff, hrange, ne_eq, not_not, not_or, and_true]
      constructor
      · rintro ⟨⟨⟨⟨⟨⟨herrors, hsource⟩, hoffset⟩, hsized⟩, hflags⟩, hin⟩, hend⟩
        have hstop : e.sourceSpan.stop ≤ 2 ^ 64 - 1 :=
          Nat.not_lt.mp fun hlt => hend ⟨hsource.1, hsized, hlt⟩
        exact ⟨herrors, hsource, hoffset, hsized.1, hsized.2, hflags, hin.1, hin.2, hstop⟩
      · rintro ⟨herrors, hfit⟩
        exact ⟨⟨⟨⟨⟨⟨herrors, hfit.source⟩, hfit.offset⟩, hfit.low, hfit.high⟩, hfit.flags⟩,
          hfit.start, hfit.inside⟩, fun h => Nat.not_lt.mpr hfit.sourceEnd h.2.2⟩

/-- An entry that is as it should be adds its two ranges. -/
theorem checkEntry_ranges (st : Progress) (hsize : size ≤ 2 ^ 64 - 1)
    (h : EntryFit size data e) :
    (checkEntry size data st e).fileRanges = st.fileRanges ++ [fileRange e] ∧
      (checkEntry size data st e).sourceRanges = st.sourceRanges ++ [sourceRange e] := by
  have hin := h.inside
  refine ⟨if_pos ⟨by omega, h.start, hin⟩, if_pos ⟨h.source.1, ⟨h.low, h.high⟩, h.sourceEnd⟩⟩

/-- The keys of a dictionary after a key was entered where it was new. -/
theorem mem_entered {seen : List (Nat × Nat)} {key k : Nat} :
    k ∈ (if (seen.lookup key).isSome then seen else (key, index) :: seen).map Prod.fst ↔
      k ∈ seen.map Prod.fst ∨ k = key := by
  split
  next h =>
    have hmem : key ∈ seen.map Prod.fst := by
      by_contra hnot
      rw [lookup_eq_none.mpr hnot] at h
      cases h
    exact ⟨Or.inl, fun hk => hk.elim id fun heq => heq ▸ hmem⟩
  next => rw [List.map_cons, List.mem_cons, or_comm]

/-- The loop over the entries: what it has seen, when it has noted nothing,
and which ranges it hands on. -/
structure Collected (size data : Nat) (info : Nat × Nat × String) (es : List DirectoryEntry)
    (st : Progress) : Prop where
  sources : ∀ k, k ∈ st.sourceSeen.map Prod.fst ↔ k ∈ es.map DirectoryEntry.sourcePhys
  offsets : ∀ k, k ∈ st.payloadSeen.map Prod.fst ↔ k ∈ es.map DirectoryEntry.payloadOffset
  errors : st.errors = [] ↔ (∀ e ∈ es, EntryFit size data e) ∧
    (es.map DirectoryEntry.sourcePhys).Nodup ∧ (es.map DirectoryEntry.payloadOffset).Nodup
  ranges : st.errors = [] → st.fileRanges = es.map fileRange ∧
    st.sourceRanges = info :: es.map sourceRange

theorem nodup_map_concat {α β : Type} {f : α → β} {l : List α} {a : α} :
    ((l ++ [a]).map f).Nodup ↔ f a ∉ l.map f ∧ (l.map f).Nodup := by
  rw [List.map_append, List.map_singleton, ← List.concat_eq_append, List.nodup_concat]

theorem foldl_collected (data : Nat) (hsize : size ≤ 2 ^ 64 - 1) (info : Nat × Nat × String)
    (es : List DirectoryEntry) :
    Collected size data info es (es.foldl (checkEntry size data) ⟨[], [], [], [], [info]⟩) := by
  induction es using List.reverseRecOn with
  | nil =>
    exact ⟨fun _ => Iff.rfl, fun _ => Iff.rfl,
      ⟨fun _ => ⟨List.forall_mem_nil _, List.nodup_nil, List.nodup_nil⟩, fun _ => rfl⟩,
      fun _ => ⟨rfl, rfl⟩⟩
  | append_singleton es e ih =>
    rw [List.foldl_append]
    generalize es.foldl (checkEntry size data) ⟨[], [], [], [], [info]⟩ = st at ih
    change Collected size data info (es ++ [e]) (checkEntry size data st e)
    refine ⟨fun k => ?_, fun k => ?_, ?_, fun hnil => ?_⟩
    · change k ∈ (if (st.sourceSeen.lookup e.sourcePhys).isSome then _ else _ : List _).map _ ↔ _
      rw [mem_entered, ih.sources, List.map_append, List.mem_append, List.map_singleton,
        List.mem_singleton]
    · change k ∈ (if (st.payloadSeen.lookup e.payloadOffset).isSome then _ else _ : List _).map _ ↔ _
      rw [mem_entered, ih.offsets, List.map_append, List.mem_append, List.map_singleton,
        List.mem_singleton]
    · rw [checkEntry_errors hsize, ih.errors, ih.sources, ih.offsets, nodup_map_concat,
        nodup_map_concat, List.forall_mem_append, List.forall_mem_singleton]
      constructor
      · rintro ⟨⟨hall, hsources, hoffsets⟩, hfit, hnew, hfree⟩
        exact ⟨⟨hall, hfit⟩, ⟨hnew, hsources⟩, hfree, hoffsets⟩
      · rintro ⟨⟨hall, hfit⟩, ⟨hnew, hsources⟩, hfree, hoffsets⟩
        exact ⟨⟨hall, hsources, hoffsets⟩, hfit, hnew, hfree⟩
    · obtain ⟨hbefore, hfit, _⟩ := (checkEntry_errors hsize).mp hnil
      obtain ⟨hfile, hsource⟩ := checkEntry_ranges st hsize hfit
      rw [hfile, hsource, (ih.ranges hbefore).1, (ih.ranges hbefore).2, List.map_append,
        List.map_append]
      exact ⟨rfl, rfl⟩

end Entries

/-! ## The ranges in the file -/

variable {es : List DirectoryEntry}

section FileRanges

variable {raw : List UInt8}

/-- A range as a span. -/
def rangeSpan {α : Type} (r : Nat × Nat × α) : Span := ⟨r.1, r.2.1 - r.1⟩

theorem rangeSpan_stop {α : Type} {r : Nat × Nat × α} (h : r.1 ≤ r.2.1) : (rangeSpan r).stop = r.2.1 :=
  Nat.add_sub_cancel' h

/-- What the loop remembers: nothing yet, or the range that ends at the
cursor. -/
def Follows (cursor : Nat) (ranges : List (Nat × Nat × Nat)) : Option (Nat × Nat × Nat) → Prop
  | none => ∀ r ∈ ranges, cursor ≤ r.1
  | some (_, before, _) => before = cursor

/-- The turn at a range notes nothing when the range is behind the cursor
and the bytes between are zero. -/
theorem walkFile_cons {cursor start finish : Nat} {previous : Option (Nat × Nat × Nat)}
    {rest : List (Nat × Nat × Nat)} (hfollows : Follows cursor ((start, finish, index) :: rest) previous)
    (hin : start ≤ raw.length) :
    ∃ noted, (noted = [] ↔ cursor ≤ start ∧ ∀ x, cursor ≤ x → x < start → Mem.ofList raw x = 0) ∧
      walkFile raw cursor previous ((start, finish, index) :: rest) =
        (noted ++ (walkFile raw (max cursor finish) (some (start, finish, index)) rest).1,
          (walkFile raw (max cursor finish) (some (start, finish, index)) rest).2) := by
  have hzero : note (cursor < start ∧ ∃ b ∈ slice raw cursor start, b ≠ 0)
      ("nonzero payload padding before entry " ++ dec index) = [] ↔
      ∀ x, cursor ≤ x → x < start → Mem.ofList raw x = 0 :=
    note_eq_nil_iff.trans (Mem.zero_part_iff hin)
  cases previous with
  | none =>
    have hle : cursor ≤ start := hfollows _ List.mem_cons_self
    exact ⟨_, hzero.trans (and_iff_right hle).symm, rfl⟩
  | some p =>
    obtain ⟨_, before, other⟩ := p
    obtain rfl : before = cursor := hfollows
    refine ⟨if start < before then
        ["payload ranges for entries " ++ dec other ++ " and " ++ dec index ++ " overlap"]
      else note (before < start ∧ ∃ b ∈ slice raw before start, b ≠ 0)
        ("nonzero payload padding before entry " ++ dec index), ?_, rfl⟩
    split
    next hlt => exact ⟨(fun h => by cases h), fun h => absurd hlt (by omega)⟩
    next hge => exact hzero.trans (and_iff_right (Nat.not_lt.mp hge)).symm

/-- The loop over the ranges and the test of its cursor: the ranges are in
order behind the cursor, the bytes between them are zero, and the last one
ends the file. -/
theorem walkFile_eq_nil {ranges : List (Nat × Nat × Nat)} {cursor : Nat}
    {previous : Option (Nat × Nat × Nat)} (hfollows : Follows cursor ranges previous)
    (hle : ∀ r ∈ ranges, r.1 ≤ r.2.1) (hin : ∀ r ∈ ranges, r.2.1 ≤ raw.length)
    (hcursor : cursor ≤ raw.length) :
    ((walkFile raw cursor previous ranges).1 = [] ∧
        ¬ (walkFile raw cursor previous ranges).2 < raw.length) ↔
      ((ranges.map rangeSpan).Pairwise (fun s t => s.stop ≤ t.start) ∧
        ∀ s ∈ ranges.map rangeSpan, cursor ≤ s.start) ∧
      WalkOk (fun x => Mem.ofList raw x = 0) raw.length cursor (ranges.map rangeSpan) ∧
      lastStop cursor (ranges.map rangeSpan) = raw.length := by
  induction ranges generalizing cursor previous with
  | nil =>
    rw [List.map_nil, WalkOk]
    constructor
    · rintro ⟨_, hend⟩
      change ¬ cursor < raw.length at hend
      exact ⟨⟨List.Pairwise.nil, List.forall_mem_nil _⟩, fun x hlo hhi => absurd hhi (by omega),
        Nat.le_antisymm hcursor (Nat.not_lt.mp hend)⟩
    · rintro ⟨_, _, hend⟩
      exact ⟨rfl, Nat.not_lt.mpr (Nat.le_of_eq hend.symm)⟩
  | cons r ranges ih =>
    obtain ⟨start, finish, index⟩ := r
    have hr : start ≤ finish := hle _ List.mem_cons_self
    have hfin : finish ≤ raw.length := hin _ List.mem_cons_self
    have hstop : (rangeSpan (start, finish, index)).stop = finish := rangeSpan_stop hr
    obtain ⟨noted, hnoted, hstep⟩ := walkFile_cons hfollows (Nat.le_trans hr hfin)
    rw [hstep, List.append_eq_nil_iff, hnoted, List.map_cons, WalkOk, List.pairwise_cons,
      List.forall_mem_cons, hstop]
    change _ ↔ ((_ ∧ _) ∧ cursor ≤ start ∧ _) ∧ ((∀ x, cursor ≤ x → x < start → _) ∧ _) ∧
      lastStop (rangeSpan (start, finish, index)).stop _ = _
    rw [hstop]
    by_cases hpast : cursor ≤ start
    · have hmax : max cursor finish = finish := Nat.max_eq_right (Nat.le_trans hpast hr)
      rw [hmax]
      have hrest : Follows finish ranges (some (start, finish, index)) := rfl
      have ih' := ih hrest (fun q hq => hle q (List.mem_cons_of_mem _ hq))
        (fun q hq => hin q (List.mem_cons_of_mem _ hq)) hfin
      constructor
      · rintro ⟨⟨⟨_, hzero⟩, hrest⟩, hend⟩
        obtain ⟨⟨hordered, hbehind⟩, hwalk, hlast⟩ := ih'.mp ⟨hrest, hend⟩
        refine ⟨⟨⟨hbehind, hordered⟩, hpast, fun s hs => ?_⟩, ⟨hzero, hwalk⟩, hlast⟩
        exact Nat.le_trans hpast (Nat.le_trans hr (hbehind s hs))
      · rintro ⟨⟨⟨hbehind, hordered⟩, _, _⟩, ⟨hzero, hwalk⟩, hlast⟩
        obtain ⟨hrest, hend⟩ := ih'.mpr ⟨⟨hordered, hbehind⟩, hwalk, hlast⟩
        exact ⟨⟨⟨hpast, hzero⟩, hrest⟩, hend⟩
    · exact ⟨fun h => absurd h.1.1.1 hpast, fun h => absurd h.1.2.1 hpast⟩

theorem fileLe_start {a b : Nat × Nat × Nat} (h : fileLe a b = true) : a.1 ≤ b.1 := by
  unfold fileLe at h
  simp only [Bool.or_eq_true, Bool.and_eq_true, decide_eq_true_eq, beq_iff_eq] at h
  omega

theorem fileLe_start_of_not {a b : Nat × Nat × Nat} (h : ¬ fileLe a b = true) : b.1 ≤ a.1 := by
  unfold fileLe at h
  simp only [Bool.or_eq_true, Bool.and_eq_true, decide_eq_true_eq, beq_iff_eq] at h
  omega

theorem rangeSpan_fileRange (es : List DirectoryEntry) :
    (es.map fileRange).map rangeSpan = es.map DirectoryEntry.fileSpan := by
  rw [List.map_map]
  refine List.map_congr_left fun e _ => ?_
  change (⟨e.payloadOffset, e.payloadOffset + e.dataSize - e.payloadOffset⟩ : Span) = _
  rw [Nat.add_sub_cancel_left]
  rfl

/-- Sorting the ranges of good entries and walking them decides that the
payloads are disjoint, that the bytes between them are zero and that the
file ends with them. -/
theorem fileRanges_eq_nil {data : Nat} (hdata : data ≤ raw.length)
    (hfit : ∀ e ∈ es, EntryFit raw.length data e) :
    ((walkFile raw data none ((es.map fileRange).insertionSort fun a b => fileLe a b = true)).1 = [] ∧
        ¬ (walkFile raw data none
          ((es.map fileRange).insertionSort fun a b => fileLe a b = true)).2 < raw.length) ↔
      (es.map DirectoryEntry.fileSpan).Pairwise Span.Disjoint ∧
      Gaps (fun x => Mem.ofList raw x = 0) (es.map DirectoryEntry.fileSpan) data raw.length ∧
      ((∃ e ∈ es, e.fileSpan.stop = raw.length) ∨ es = [] ∧ data = raw.length) := by
  have hperm := List.perm_insertionSort (fun a b => fileLe a b = true) (es.map fileRange)
  have hsorted := pairwise_insertionSort_key (fun r : Nat × Nat × Nat => r.1)
    (fun a b => fileLe_start) (fun a b => fileLe_start_of_not) (es.map fileRange)
  generalize (es.map fileRange).insertionSort (fun a b => fileLe a b = true) = sorted at hperm hsorted
  have hspans : (sorted.map rangeSpan).Perm (es.map DirectoryEntry.fileSpan) := by
    rw [← rangeSpan_fileRange]
    exact hperm.map _
  have hrange : ∀ r ∈ sorted, ∃ e ∈ es, r = fileRange e := by
    intro r hr
    obtain ⟨e, he, heq⟩ := List.mem_map.mp (hperm.mem_iff.mp hr)
    exact ⟨e, he, heq.symm⟩
  have hle : ∀ r ∈ sorted, r.1 ≤ r.2.1 := by
    intro r hr
    obtain ⟨e, _, rfl⟩ := hrange r hr
    exact Nat.le_add_right _ _
  have hin : ∀ r ∈ sorted, r.2.1 ≤ raw.length := by
    intro r hr
    obtain ⟨e, he, rfl⟩ := hrange r hr
    exact (hfit e he).inside
  have hfollows : Follows data sorted none := by
    intro r hr
    obtain ⟨e, he, rfl⟩ := hrange r hr
    exact (hfit e he).start
  have hsize : ∀ s ∈ es.map DirectoryEntry.fileSpan, s.size ≠ 0 := by
    intro s hs
    obtain ⟨e, he, rfl⟩ := List.mem_map.mp hs
    have := (hfit e he).low
    change e.dataSize ≠ 0
    omega
  have hstops : ∀ s ∈ es.map DirectoryEntry.fileSpan, s.stop ≤ raw.length := by
    intro s hs
    obtain ⟨e, he, rfl⟩ := List.mem_map.mp hs
    exact (hfit e he).inside
  have hstarts : ∀ s ∈ sorted.map rangeSpan, data ≤ s.start := by
    intro s hs
    obtain ⟨r, hr, rfl⟩ := List.mem_map.mp hs
    exact hfollows r hr
  have hkey : (sorted.map rangeSpan).Pairwise fun s t => s.start ≤ t.start :=
    List.pairwise_map.mpr hsorted
  have hsize' : ∀ s ∈ sorted.map rangeSpan, s.size ≠ 0 := fun s hs => hsize s (hspans.mem_iff.mp hs)
  -- disjoint in any order is the order the sort gives
  have hordered : (sorted.map rangeSpan).Pairwise (fun s t => s.stop ≤ t.start) ↔
      (es.map DirectoryEntry.fileSpan).Pairwise Span.Disjoint := by
    rw [← hspans.pairwise_iff fun {_ _} h => h.symm]
    exact ⟨fun h => h.imp Or.inl, fun h => ordered_of_sorted hsize' h hkey⟩
  rw [walkFile_eq_nil hfollows hle hin hdata, and_iff_left hstarts, hordered]
  refine and_congr_right fun hdisjoint => ?_
  have horder := hordered.mpr hdisjoint
  refine and_congr ?_ ?_
  · exact walkOk_from (fun s hs => hspans.mem_iff.mp hs) hsize hstops horder hstarts
      fun s hs hnot => absurd (hspans.mem_iff.mpr hs) hnot
  · rw [lastStop_eq_iff (fun s hs => hstops s (hspans.mem_iff.mp hs)) horder]
    refine or_congr ?_ (and_congr_left fun _ => ?_)
    · constructor
      · rintro ⟨s, hs, hstop⟩
        obtain ⟨e, he, rfl⟩ := List.mem_map.mp (hspans.mem_iff.mp hs)
        exact ⟨e, he, hstop⟩
      · rintro ⟨e, he, hstop⟩
        exact ⟨e.fileSpan, hspans.mem_iff.mpr (List.mem_map_of_mem he), hstop⟩
    · constructor
      · intro hnil
        rw [hnil] at hspans
        exact List.map_eq_nil_iff.mp (List.nil_perm.mp hspans)
      · rintro rfl
        exact List.perm_nil.mp hspans

end FileRanges

/-! ## The ranges in memory -/

section SourceRanges

theorem sourceLe_start {a b : Nat × Nat × String} (h : sourceLe a b = true) : a.1 ≤ b.1 := by
  unfold sourceLe at h
  simp only [Bool.or_eq_true, Bool.and_eq_true, decide_eq_true_eq, beq_iff_eq] at h
  omega

theorem sourceLe_start_of_not {a b : Nat × Nat × String} (h : ¬ sourceLe a b = true) :
    b.1 ≤ a.1 := by
  unfold sourceLe at h
  simp only [Bool.or_eq_true, Bool.and_eq_true, decide_eq_true_eq, beq_iff_eq] at h
  omega

/-- The loop over neighbours notes nothing when each range starts behind
the one before it. -/
theorem walkSources_eq_nil {ranges : List (Nat × Nat × String)} (hle : ∀ r ∈ ranges, r.1 ≤ r.2.1) :
    walkSources ranges = [] ↔ (ranges.map rangeSpan).IsChain fun s t => s.stop ≤ t.start := by
  induction ranges with
  | nil => exact ⟨fun _ => List.IsChain.nil, fun _ => rfl⟩
  | cons a rest ih =>
    cases rest with
    | nil => exact ⟨fun _ => List.IsChain.singleton _, fun _ => rfl⟩
    | cons b rest =>
      have ih' := ih fun r hr => hle r (List.mem_cons_of_mem _ hr)
      rw [walkSources, List.append_eq_nil_iff, note_eq_nil_iff, ih', List.map_cons, List.map_cons, List.map_cons,
        List.isChain_cons_cons, rangeSpan_stop (hle a List.mem_cons_self), Nat.not_lt]
      rfl

theorem rangeSpan_sourceRange (raw : List UInt8) (es : List DirectoryEntry) :
    (((unpackHeader raw).infoPhys, (unpackHeader raw).infoPhys + 144, "INFO") ::
      es.map sourceRange).map rangeSpan = infoSource raw :: es.map DirectoryEntry.sourceSpan := by
  rw [List.map_cons, List.map_map]
  refine congrArg₂ List.cons ?_ (List.map_congr_left fun e _ => ?_)
  · change (⟨_, (unpackHeader raw).infoPhys + 144 - (unpackHeader raw).infoPhys⟩ : Span) = _
    rw [Nat.add_sub_cancel_left]
    rfl
  · change (⟨_, e.sourcePhys + e.dataSize - e.sourcePhys⟩ : Span) = _
    rw [Nat.add_sub_cancel_left]
    rfl

/-- Sorting the physical ranges and comparing neighbours decides that they
are disjoint. -/
theorem sourceRanges_eq_nil (hlow : ∀ e ∈ es, 32 ≤ e.dataSize) :
    walkSources ((((unpackHeader raw).infoPhys, (unpackHeader raw).infoPhys + 144, "INFO") ::
      es.map sourceRange).insertionSort fun a b => sourceLe a b = true) = [] ↔
      (infoSource raw :: es.map DirectoryEntry.sourceSpan).Pairwise Span.Disjoint := by
  rw [← rangeSpan_sourceRange]
  have hle : ∀ r ∈ ((unpackHeader raw).infoPhys, (unpackHeader raw).infoPhys + 144, "INFO") ::
      es.map sourceRange, r.1 ≤ r.2.1 ∧ (rangeSpan r).size ≠ 0 := by
    intro r hr
    rcases List.mem_cons.mp hr with rfl | hr
    · refine ⟨Nat.le_add_right _ _, ?_⟩
      change (unpackHeader raw).infoPhys + 144 - (unpackHeader raw).infoPhys ≠ 0
      omega
    · obtain ⟨e, he, rfl⟩ := List.mem_map.mp hr
      have := hlow e he
      refine ⟨Nat.le_add_right _ _, ?_⟩
      change e.sourcePhys + e.dataSize - e.sourcePhys ≠ 0
      omega
  generalize ((unpackHeader raw).infoPhys, (unpackHeader raw).infoPhys + 144, "INFO") ::
    es.map sourceRange = ranges at hle
  have hperm := List.perm_insertionSort (fun a b => sourceLe a b = true) ranges
  have hsorted := pairwise_insertionSort_key (fun r : Nat × Nat × String => r.1)
    (fun a b => sourceLe_start) (fun a b => sourceLe_start_of_not) ranges
  generalize ranges.insertionSort (fun a b => sourceLe a b = true) = sorted at hperm hsorted
  have hsize : ∀ s ∈ sorted.map rangeSpan, s.size ≠ 0 := by
    intro s hs
    obtain ⟨r, hr, rfl⟩ := List.mem_map.mp hs
    exact (hle r (hperm.mem_iff.mp hr)).2
  rw [walkSources_eq_nil fun r hr => (hle r (hperm.mem_iff.mp hr)).1,
    ← disjoint_iff_neighbours hsize (List.pairwise_map.mpr hsorted)]
  exact (hperm.map rangeSpan).pairwise_iff fun {_ _} h => h.symm

end SourceRanges

/-! ## The directory as a whole -/

/-- The first spans of the file have no gap between them. -/
theorem gaps_fileParts :
    Gaps (fun x => Mem.ofList raw x = 0) ((directory raw).map DirectoryEntry.fileSpan)
        (dataStart raw) raw.length ↔
      ∀ x < raw.length, (∀ s ∈ fileParts raw, ¬ s.Covers x) → Mem.ofList raw x = 0 := by
  unfold fileParts
  simp only [List.forall_mem_cons]
  constructor
  · rintro h x hx ⟨hheader, hinfo, hdirectory, hpayloads⟩
    refine h x ?_ hx hpayloads
    unfold Span.Covers Span.stop at hheader hinfo hdirectory
    unfold dataStart
    dsimp only at hheader hinfo hdirectory
    omega
  · intro h x hlo hhi hpayloads
    unfold dataStart at hlo
    refine h x hhi ⟨?_, ?_, ?_, hpayloads⟩
    all_goals
      unfold Span.Covers Span.stop
      dsimp only
      omega

/-- Disjoint spans of positive size start at different places. -/
theorem nodup_starts {f : DirectoryEntry → Nat}
    (hlow : ∀ e ∈ es, 32 ≤ e.dataSize)
    (hdisjoint : (es.map fun e => (⟨f e, e.dataSize⟩ : Span)).Pairwise Span.Disjoint) :
    (es.map f).Nodup := by
  refine List.pairwise_map.mpr ((List.pairwise_map.mp hdisjoint).imp_of_mem fun {a b} ha hb h => ?_)
  have hposa := hlow a ha
  have hposb := hlow b hb
  unfold Span.Disjoint Span.stop at h
  dsimp only at h
  omega

/-- The notes of the directory. -/
theorem directoryErrors_eq_nil (hsmall : raw.length ≤ 64 * 1024 * 1024)
    {entries : List DirectoryEntry} (hentries : dataStart raw ≤ raw.length → entries = directory raw) :
    directoryErrors raw (unpackHeader raw) entries (dataStart raw) = [] ↔
      dataStart raw ≤ raw.length ∧
      (∀ e ∈ directory raw, EntryFit raw.length (dataStart raw) e) ∧
      ((directory raw).map DirectoryEntry.fileSpan).Pairwise Span.Disjoint ∧
      (sourceParts raw).Pairwise Span.Disjoint ∧
      (∀ x < raw.length, (∀ s ∈ fileParts raw, ¬ s.Covers x) → Mem.ofList raw x = 0) ∧
      ((∃ e ∈ directory raw, e.fileSpan.stop = raw.length) ∨
        directory raw = [] ∧ dataStart raw = raw.length) := by
  unfold directoryErrors
  simp only [List.append_eq_nil_iff, note_eq_nil_iff, align8_dataStart]
  by_cases hdata : dataStart raw ≤ raw.length
  · rw [hentries hdata]
    have hsize : raw.length ≤ 2 ^ 64 - 1 := by omega
    have hst := foldl_collected (dataStart raw) hsize
      ((unpackHeader raw).infoPhys, (unpackHeader raw).infoPhys + 144, "INFO") (directory raw)
    generalize (directory raw).foldl (checkEntry raw.length (dataStart raw))
      ⟨[], [], [], [], [((unpackHeader raw).infoPhys, (unpackHeader raw).infoPhys + 144, "INFO")]⟩ = st
      at hst
    have hnone : ¬ (dataStart raw ≤ raw.length ∧ dataStart raw ≤ raw.length ∧
        ∃ b ∈ slice raw (dataStart raw) (dataStart raw), b ≠ 0) := by
      rintro ⟨_, _, b, hb, _⟩
      rw [slice, Nat.sub_self, List.take_zero] at hb
      cases hb
    constructor
    · rintro ⟨⟨⟨⟨_, herrors⟩, hfile⟩, hend⟩, hsources⟩
      have hfit := (hst.errors.mp herrors).1
      rw [(hst.ranges herrors).1] at hfile hend
      rw [(hst.ranges herrors).2] at hsources
      obtain ⟨hdisjoint, hgaps, hlast⟩ := (fileRanges_eq_nil hdata hfit).mp ⟨hfile, hend⟩
      exact ⟨hdata, hfit, hdisjoint, (sourceRanges_eq_nil fun e he => (hfit e he).low).mp hsources,
        gaps_fileParts.mp hgaps, hlast⟩
    · rintro ⟨_, hfit, hdisjoint, hsources, hpadding, hlast⟩
      have hlow := fun e he => (hfit e he).low
      have herrors : st.errors = [] := hst.errors.mpr
        ⟨hfit, nodup_starts hlow (List.pairwise_cons.mp hsources).2, nodup_starts hlow hdisjoint⟩
      rw [(hst.ranges herrors).1, (hst.ranges herrors).2]
      obtain ⟨hfile, hend⟩ := (fileRanges_eq_nil hdata hfit).mpr
        ⟨hdisjoint, gaps_fileParts.mpr hpadding, hlast⟩
      exact ⟨⟨⟨⟨⟨Nat.not_lt.mpr hdata, hnone⟩, herrors⟩, hfile⟩, hend⟩,
        (sourceRanges_eq_nil hlow).mpr hsources⟩
  · exact ⟨fun h => absurd (Nat.not_lt.mp h.1.1.1.1.1) hdata, fun h => absurd h.1 hdata⟩

/-! ## The chain -/

section Chain

variable {D : List DirectoryEntry}

/-- A list of entries the walk can take: of the directory, different, not
visited before, each with its own size in its tag. -/
structure Route (D : List DirectoryEntry) (visited : List Nat) (order : List DirectoryEntry) : Prop where
  listed : ∀ e ∈ order, e ∈ D
  different : (order.map DirectoryEntry.sourcePhys).Nodup
  fresh : ∀ e ∈ order, e.sourcePhys ∉ visited
  sizes : ∀ e ∈ order, get32 (Mem.ofList e.payload) 8 = e.dataSize

theorem route_cons {order : List DirectoryEntry} :
    Route D visited (e :: order) ↔
      (e ∈ D ∧ e.sourcePhys ∉ visited ∧ get32 (Mem.ofList e.payload) 8 = e.dataSize) ∧
        Route D (e.sourcePhys :: visited) order := by
  constructor
  · rintro ⟨hlisted, hdifferent, hfresh, hsizes⟩
    rw [List.forall_mem_cons] at hlisted hfresh hsizes
    rw [List.map_cons, List.nodup_cons] at hdifferent
    refine ⟨⟨hlisted.1, hfresh.1, hsizes.1⟩, hlisted.2, hdifferent.2, fun d hd hmem => ?_, hsizes.2⟩
    rcases List.mem_cons.mp hmem with heq | hmem
    · exact hdifferent.1 (heq ▸ List.mem_map_of_mem hd)
    · exact hfresh.2 d hd hmem
  · rintro ⟨⟨hlisted, hfresh, hsize⟩, hroute⟩
    refine ⟨List.forall_mem_cons.mpr ⟨hlisted, hroute.listed⟩, ?_,
      List.forall_mem_cons.mpr ⟨hfresh, fun d hd hmem =>
        hroute.fresh d hd (List.mem_cons_of_mem _ hmem)⟩,
      List.forall_mem_cons.mpr ⟨hsize, hroute.sizes⟩⟩
    rw [List.map_cons, List.nodup_cons]
    refine ⟨fun hmem => ?_, hroute.different⟩
    obtain ⟨d, hd, heq⟩ := List.mem_map.mp hmem
    exact hroute.fresh d hd (heq ▸ List.mem_cons_self)

/-- What the walk needs of a directory: different addresses, and payloads
of the sizes the entries say. -/
structure Walkable (D : List DirectoryEntry) : Prop where
  different : (D.map DirectoryEntry.sourcePhys).Nodup
  source : ∀ e ∈ D, e.sourcePhys ≠ 0 ∧ e.sourcePhys % 8 = 0
  low : ∀ e ∈ D, 32 ≤ e.dataSize
  high : ∀ e ∈ D, e.dataSize ≤ 16 * 1024 * 1024
  length : ∀ e ∈ D, e.payload.length = e.dataSize

theorem Walkable.find (h : Walkable D) (he : e ∈ D) :
    D.find? (·.sourcePhys = e.sourcePhys) = some e := by
  cases hfind : D.find? (·.sourcePhys = e.sourcePhys) with
  | none => exact absurd (decide_eq_true rfl) (List.find?_eq_none.mp hfind e he)
  | some d =>
    have hd := List.mem_of_find?_eq_some hfind
    have hsame := List.find?_some hfind
    rw [decide_eq_true_eq] at hsame
    rw [List.inj_on_of_nodup_map h.different hd he hsame]

theorem Walkable.visit (h : Walkable D) (he : e ∈ D)
    (hfresh : e.sourcePhys ∉ visited) (hsize : get32 (Mem.ofList e.payload) 8 = e.dataSize) :
    Visit D e.sourcePhys visited e := by
  have hlow := h.low e he
  have hhigh := h.high e he
  have hlength := h.length e he
  exact ⟨(h.source e he).1, (h.source e he).2, hfresh, h.find he, by omega, by omega, by omega, hsize,
    hsize.trans hlength.symm⟩

/-- A route the links lead through is what the walk takes. -/
theorem walkLoop_route (h : Walkable D) {order : List DirectoryEntry} {steps pointer : Nat}
    (index : Nat) (hleads : Leads pointer order) (hroute : Route D visited order)
    (hsteps : order.length ≤ steps) :
    (walkLoop D steps index pointer visited).2 = [] ∧
      (walkLoop D steps index pointer visited).1.map ChainTag.sourcePhys =
        order.map DirectoryEntry.sourcePhys ∧
      ((∀ tag ∈ (walkLoop D steps index pointer visited).1, tag.checksumValid = true) ↔
        ∀ e ∈ order, get64 (Mem.ofList e.payload) 24 =
          crcSpliced (Mem.ofList e.payload) 0 e.payload.length 24) := by
  induction order generalizing steps index pointer visited with
  | nil =>
    obtain rfl : pointer = 0 := hleads
    have hend : walkLoop D steps index 0 visited = ([], []) := by
      cases steps with
      | zero => rfl
      | succ steps => rw [walkLoop, if_pos rfl]
    rw [hend]
    exact ⟨rfl, rfl, fun _ => List.forall_mem_nil _, fun _ => List.forall_mem_nil _⟩
  | cons e order ih =>
    obtain ⟨rfl, hleads⟩ := hleads
    obtain ⟨⟨hlisted, hfresh, hsize⟩, hroute⟩ := route_cons.mp hroute
    obtain ⟨steps, rfl⟩ : ∃ k, steps = k + 1 := ⟨steps - 1, by rw [List.length_cons] at hsteps; omega⟩
    rw [walkLoop_visit (h.visit hlisted hfresh hsize)]
    obtain ⟨hnil, hsources, hcrc⟩ := ih (index + 1) hleads hroute (Nat.le_of_succ_le_succ hsteps)
    refine ⟨hnil, ?_, ?_⟩
    · rw [List.map_cons, List.map_cons, hsources]
      rfl
    · rw [List.forall_mem_cons, List.forall_mem_cons, hcrc]
      exact and_congr_left fun _ => decide_eq_true_iff

/-- A walk without notes takes a route the links lead through. -/
theorem route_of_walkLoop {steps pointer : Nat}
    (h : (walkLoop D steps index pointer visited).2 = []) :
    ∃ order, Leads pointer order ∧ Route D visited order ∧ order.length ≤ steps := by
  induction steps generalizing index pointer visited with
  | zero =>
    by_cases hne : pointer = 0
    · exact ⟨[], hne, ⟨List.forall_mem_nil _, List.nodup_nil, List.forall_mem_nil _,
        List.forall_mem_nil _⟩, Nat.zero_le _⟩
    · obtain ⟨k, _, hk, _⟩ := walkLoop_visits hne h
      cases hk
  | succ steps ih =>
    by_cases hne : pointer = 0
    · exact ⟨[], hne, ⟨List.forall_mem_nil _, List.nodup_nil, List.forall_mem_nil _,
        List.forall_mem_nil _⟩, Nat.zero_le _⟩
    · obtain ⟨k, e, _, hvisit⟩ := walkLoop_visits hne h
      rw [walkLoop_visit hvisit] at h
      obtain ⟨order, hleads, hroute, hlength⟩ := ih h
      have hsource := List.find?_some hvisit.found
      rw [decide_eq_true_eq] at hsource
      refine ⟨e :: order, ⟨hsource.symm, hleads⟩, route_cons.mpr ⟨⟨?_, ?_, hvisit.size⟩, ?_⟩,
        Nat.succ_le_succ hlength⟩
      · exact List.mem_of_find?_eq_some hvisit.found
      · rw [hsource]
        exact hvisit.fresh
      · rw [hsource]
        exact hroute

/-- The walk through a directory it can walk, with its count and its set of
addresses compared: the links lead once through all of it. -/
theorem chain_eq_nil (h : Walkable D) (hcount : D.length ≤ 1024) {first tagCount : Nat} :
    ((walkLoop D 1024 0 first []).2 = [] ∧
      tagCount = (walkLoop D 1024 0 first []).1.length ∧
      (walkLoop D 1024 0 first []).1.map ChainTag.sourcePhys ⊆ D.map DirectoryEntry.sourcePhys ∧
      D.map DirectoryEntry.sourcePhys ⊆ (walkLoop D 1024 0 first []).1.map ChainTag.sourcePhys ∧
      ∀ tag ∈ (walkLoop D 1024 0 first []).1, tag.checksumValid = true) ↔
    (∀ e ∈ D, TagFit e) ∧ tagCount = D.length ∧ ∃ order, order.Perm D ∧ Leads first order := by
  constructor
  · rintro ⟨hnil, htags, _, hlisted, hvalid⟩
    obtain ⟨order, hleads, hroute, hlength⟩ := route_of_walkLoop hnil
    obtain ⟨_, hsources, hcrc⟩ := walkLoop_route h 0 hleads hroute hlength
    rw [hsources] at hlisted
    have hperm : order.Perm D := by
      refine (List.perm_ext_iff_of_nodup hroute.different.of_map h.different.of_map).mpr fun e =>
        ⟨hroute.listed e, fun he => ?_⟩
      obtain ⟨d, hd, hsame⟩ := List.mem_map.mp (hlisted (List.mem_map_of_mem he))
      rw [← List.inj_on_of_nodup_map h.different (hroute.listed d hd) he hsame]
      exact hd
    have htagCount : tagCount = D.length := by
      rw [htags, ← List.length_map ChainTag.sourcePhys, hsources, List.length_map, hperm.length_eq]
    refine ⟨fun e he => ?_, htagCount, order, hperm, hleads⟩
    have hmem := hperm.mem_iff.mpr he
    exact ⟨hroute.sizes e hmem, hcrc.mp hvalid e hmem⟩
  · rintro ⟨htags, htagCount, order, hperm, hleads⟩
    have hroute : Route D [] order := by
      refine ⟨fun e he => hperm.mem_iff.mp he, ?_, fun _ _ => List.not_mem_nil, fun e he => ?_⟩
      · exact (hperm.map DirectoryEntry.sourcePhys).nodup_iff.mpr h.different
      · exact (htags e (hperm.mem_iff.mp he)).size
    obtain ⟨hnil, hsources, hcrc⟩ := walkLoop_route h 0 hleads hroute
      (hperm.length_eq.trans_le hcount)
    have hset := hperm.map DirectoryEntry.sourcePhys
    rw [hsources]
    refine ⟨hnil, ?_, hset.subset, hset.symm.subset, ?_⟩
    · rw [← List.length_map ChainTag.sourcePhys, hsources, List.length_map, htagCount, hperm.length_eq]
    · exact hcrc.mpr fun e he => (htags e (hperm.mem_iff.mp he)).crc

end Chain

/-! ## Acceptance -/

/-- The payload of an entry inside the file has the size the entry says. -/
theorem directory_payload (he : e ∈ directory raw)
    (hin : e.payloadOffset + e.dataSize ≤ raw.length) : e.payload.length = e.dataSize := by
  obtain ⟨i, _, rfl⟩ := List.mem_map.mp he
  have hpayload : (readEntry raw i).payload =
      if (readEntry raw i).payloadOffset + (readEntry raw i).dataSize ≤ raw.length then
        slice raw (readEntry raw i).payloadOffset
          ((readEntry raw i).payloadOffset + (readEntry raw i).dataSize)
      else [] := rfl
  rw [hpayload, if_pos hin, slice, List.length_take, List.length_drop]
  omega

theorem directory_walkable (hfit : ∀ e ∈ directory raw, EntryFit raw.length (dataStart raw) e)
    (hsources : (sourceParts raw).Pairwise Span.Disjoint) : Walkable (directory raw) :=
  { different := nodup_starts (fun e he => (hfit e he).low) (List.pairwise_cons.mp hsources).2
    source := fun e he => (hfit e he).source
    low := fun e he => (hfit e he).low
    high := fun e he => (hfit e he).high
    length := fun e he => directory_payload he (hfit e he).inside }

/-- What `validation` reports nothing about. -/
theorem validation_eq_nil {c : Capture} :
    (validation c).1 = [] ↔
      (∃ f, Sound c f) ∧ ∀ tag ∈ (walkChain c).1, tag.checksumValid = true := by
  have hcrc : crcErrors (walkChain c).1 = [] ↔
      ∀ tag ∈ (walkChain c).1, tag.checksumValid = true := by
    rw [crcErrors, List.map_eq_nil_iff, List.filter_eq_nil_iff]
    refine forall_congr' fun tag => forall_congr' fun _ => ?_
    rw [Bool.not_eq_true', Bool.not_eq_false]
  unfold validation
  dsimp only
  cases hf : c.infoFields with
  | none =>
    have hchain : (walkChain c).2 ≠ [] := by simp [walkChain, hf]
    simp only [List.append_eq_nil_iff]
    constructor
    · intro h
      exact absurd h.1.1.2 hchain
    · rintro ⟨⟨_, hsound⟩, _⟩
      exact absurd hsound.chain hchain
  | some f =>
    simp only [List.append_eq_nil_iff, note_eq_nil_iff, hcrc, ne_eq, not_and_not_right]
    constructor
    · rintro ⟨⟨⟨⟨hcontainer, hinfo⟩, hchain⟩, hvalid⟩, hcount, hset⟩
      exact ⟨⟨f, hcontainer, hinfo, hf, hchain, hcount hchain, (hset hchain).1, (hset hchain).2⟩, hvalid⟩
    · rintro ⟨⟨f', hsound⟩, hvalid⟩
      obtain rfl : f' = f := Option.some.inj (hsound.fields.symm.trans hf)
      exact ⟨⟨⟨⟨hsound.container, hsound.info⟩, hsound.chain⟩, hvalid⟩, fun _ => hsound.count,
        fun _ => ⟨hsound.reachable, hsound.listed⟩⟩

/-- What `parse_capture` hands to `validation`. -/
theorem parseCapture_ok (hraw : 96 ≤ raw.length)
    (hmagic : slice raw 0 16 = captureMagic) :
    ∃ c entries, parseCapture raw = .ok c ∧ c.entries = entries ∧
      c.infoFields = (parseInfo (infoOf raw)).1 ∧ c.infoErrors = infoErrors raw ∧
      (HeaderFit raw → c.containerErrors = headerErrors raw (unpackHeader raw) hraw ++
        directoryErrors raw (unpackHeader raw) entries (dataStart raw)) ∧
      (c.containerErrors = [] → HeaderFit raw ∧ InfoAligned raw) ∧
      (HeaderFit raw → dataStart raw ≤ raw.length → entries = directory raw) := by
  unfold parseCapture
  rw [dif_neg (Nat.not_lt.mpr hraw), if_neg (not_not.mpr hmagic)]
  refine ⟨_, _, rfl, rfl, rfl, rfl, fun hfit => ?_, fun hnil => ?_, fun hfit hdata => ?_⟩
  · dsimp only
    rw [if_pos hfit.count]
    rfl
  · exact (headerErrors_eq_nil hraw).mp (List.append_eq_nil_iff.mp hnil).1
  · dsimp only
    rw [if_pos hfit.count]
    exact if_neg (Nat.not_lt.mpr hdata)

/-- The file of a capture reaches to the end of its directory. -/
theorem Layout.data (h : Layout raw) : dataStart raw ≤ raw.length := by
  rcases h.ending with ⟨e, he, hstop⟩ | ⟨_, hend⟩
  · have hstart := (h.entries e he).start
    change e.payloadOffset + e.dataSize = raw.length at hstop
    omega
  · exact Nat.le_of_eq hend

/-- `bbpctl verify` reports nothing exactly on well-formed captures. -/
theorem verify_accepts (raw : List UInt8) (hraw : 96 ≤ raw.length)
    (hmagic : slice raw 0 16 = captureMagic) :
    ∃ c, parseCapture raw = .ok c ∧ ((validation c).1 = [] ↔ WellFormedCapture raw) := by
  obtain ⟨c, entries, hparse, hentries, hfields, hinfo, hcontainer, hheader, hlisted⟩ :=
    parseCapture_ok hraw hmagic
  refine ⟨c, hparse, ?_⟩
  rw [validation_eq_nil]
  -- the fields of INFO that the chain uses
  have hinfoFields : InfoFit raw → ∃ f, c.infoFields = some f ∧
      f.tagCount = get32 (Mem.ofList (infoOf raw)) 116 ∧
      f.firstTag = get64 (Mem.ofList (infoOf raw)) 120 := by
    intro hfit
    rw [parseInfo, dif_pos hfit.size] at hfields
    exact ⟨_, hfields, rfl, rfl⟩
  constructor
  · rintro ⟨⟨f, hsound⟩, hvalid⟩
    obtain ⟨hfit, hphys⟩ := hheader hsound.container
    have hifit := infoErrors_eq_nil.mp (hinfo.symm.trans hsound.info)
    have herrors := hsound.container
    rw [hcontainer hfit, List.append_eq_nil_iff, directoryErrors_eq_nil hfit.small (hlisted hfit)]
      at herrors
    obtain ⟨_, hdata, hentry, hpayloads, hsources, hpadding, hending⟩ := herrors
    obtain ⟨f', hf', htagCount, hfirst⟩ := hinfoFields hifit
    obtain rfl : f' = f := Option.some.inj (hf'.symm.trans hsound.fields)
    have hdirectory : c.entries = directory raw := hentries.trans (hlisted hfit hdata)
    have hwalk : walkChain c = walkLoop (directory raw) 1024 0 f'.firstTag [] := by
      rw [walkChain, hf', hdirectory]
    have hcount : (directory raw).length ≤ 1024 := by
      rw [directory, List.length_map, List.length_range]
      exact hfit.count
    have hchain := hsound.chain
    have hreached := hsound.count
    have hreachable := hsound.reachable
    have hcovers := hsound.listed
    rw [hwalk] at hchain hreached hreachable hcovers hvalid
    rw [hdirectory] at hreachable hcovers
    obtain ⟨htags, hnumber, horder⟩ :=
      (chain_eq_nil (directory_walkable hentry hsources) hcount).mp
        ⟨hchain, hreached, hreachable, hcovers, hvalid⟩
    exact ⟨⟨hfit, hifit, hentry, htags, hpayloads, hsources, hpadding, hending⟩, hphys,
      htagCount.symm.trans hnumber, hfirst ▸ horder⟩
  · rintro ⟨hlayout, hphys, hchained⟩
    have hfit := hlayout.header
    have hdirectory : c.entries = directory raw := hentries.trans (hlisted hfit hlayout.data)
    obtain ⟨f, hf, htagCount, hfirst⟩ := hinfoFields hlayout.info
    have hwalk : walkChain c = walkLoop (directory raw) 1024 0 f.firstTag [] := by
      rw [walkChain, hf, hdirectory]
    have hcount : (directory raw).length ≤ 1024 := by
      rw [directory, List.length_map, List.length_range]
      exact hfit.count
    obtain ⟨hchain, hreached, hreachable, hcovers, hvalid⟩ :=
      (chain_eq_nil (directory_walkable hlayout.entries hlayout.sources) hcount).mpr
        ⟨hlayout.tags, htagCount.trans hchained.count, hfirst ▸ hchained.links⟩
    rw [← hwalk] at hchain hreached hreachable hcovers hvalid
    rw [← hdirectory] at hreachable hcovers
    refine ⟨⟨f, ?_, ?_, hf, hchain, hreached, hreachable, hcovers⟩, hvalid⟩
    · rw [hcontainer hfit, List.append_eq_nil_iff, directoryErrors_eq_nil hfit.small (hlisted hfit)]
      exact ⟨(headerErrors_eq_nil hraw).mpr ⟨hfit, hphys⟩, hlayout.data, hlayout.entries, hlayout.payloads,
        hlayout.sources, hlayout.padding, hlayout.ending⟩
    · exact hinfo.trans (infoErrors_eq_nil.mpr hlayout.info)

/-- A capture of one tag at `0x2000`, linked from INFO, with the address of
INFO and the checksum of the file. -/
def oneTag (infoPhys crc : Nat) : List UInt8 :=
  ([0x545041432d504242, 0x31562d455255, 0x6000000001, 0x1000100000000, 0x100000090, 0x18, infoPhys,
    0xf0, 0x108, 0x128, crc, 0, 0x464e495f52414542, 0x4f, 0x9000010001] ++ List.replicate 11 0 ++
    [0x100000000, 0x2000, 0, 6732281787792976086, 0x2000, 0x108, 0x20, 7, 0x100000020, 0,
      3911020729786800857]).flatMap (le · 8)

def linkedTag : List UInt8 := oneTag 0x1000 6395172831972856889

/-- The same capture with INFO taken from between two words. -/
def oddInfo : List UInt8 := oneTag 0x1004 12758149112070571223

theorem verify_accepts_linkedTag :
    ∃ c, parseCapture linkedTag = .ok c ∧ (validation c).1 = [] ∧ WellFormedCapture linkedTag := by
  obtain ⟨c, hparse, haccepts⟩ := verify_accepts linkedTag (by decide +kernel) (by decide +kernel)
  have hnone : (match parseCapture linkedTag with
      | .error _ => ["no capture"]
      | .ok c => (validation c).1) = [] := by decide +kernel
  rw [hparse] at hnone
  exact ⟨c, hparse, hnone, haccepts.mp hnone⟩

/-- The layout and the chain are not enough: here every field, checksum, range,
padding byte and link is as it should be, and the script still reports the
address INFO was taken from. -/
theorem oddInfo_refused :
    Layout oddInfo ∧ Chained oddInfo ∧ (unpackHeader oddInfo).infoPhys = 0x1004 ∧
      ∃ c, parseCapture oddInfo = .ok c ∧
        (validation c).1 = ["header info_phys must be nonzero and 8-byte aligned"] := by
  have hheader : HeaderFit oddInfo := by constructor <;> decide +kernel
  have hinfo : InfoFit oddInfo := infoErrors_eq_nil.mp (by decide +kernel)
  have hdirectory : directoryErrors oddInfo (unpackHeader oddInfo) (directory oddInfo)
      (dataStart oddInfo) = [] := by decide +kernel
  obtain ⟨_, hentries, hpayloads, hsources, hpadding, hending⟩ :=
    (directoryErrors_eq_nil hheader.small fun _ => rfl).mp hdirectory
  have htags : ∀ e ∈ directory oddInfo, get32 (Mem.ofList e.payload) 8 = e.dataSize ∧
      get64 (Mem.ofList e.payload) 24 =
        crcSpliced (Mem.ofList e.payload) 0 e.payload.length 24 := by decide +kernel
  have hnote : (match parseCapture oddInfo with
      | .error _ => []
      | .ok c => (validation c).1) =
        ["header info_phys must be nonzero and 8-byte aligned"] := by decide +kernel
  refine ⟨⟨hheader, hinfo, hentries, fun e he => ⟨(htags e he).1, (htags e he).2⟩, hpayloads, hsources,
    hpadding, hending⟩, ⟨by decide +kernel, directory oddInfo, .refl _, ?_⟩, by decide +kernel, ?_⟩
  · exact ⟨by decide +kernel, show get64 (Mem.ofList (readEntry oddInfo 0).payload) 16 = 0 by decide +kernel⟩
  · cases hparse : parseCapture oddInfo with
    | error e =>
      rw [hparse] at hnote
      cases hnote
    | ok c =>
      rw [hparse] at hnote
      exact ⟨c, rfl, hnote⟩

end BearBoot.Bbpctl
