import BearBoot.Loader.Elf

/-!
# What the planner accepts

The planner's checks are masks, complements and sums of hostile words, one
after the other. This module says what they amount to, with no mask left
(`WellFormed`), and that the planner answers OK on exactly the images that
are well-formed and then describes them (`Describes`): the `PT_LOAD`
entries in the file's order, and the least envelope of whole pages around
the ones that are not empty.

The loop's check for overlap is incremental: a segment is held against the
ones before it. `planLoop_settles` carries that as pairwise disjointness of
everything planned so far, and the envelope as a least and a greatest
element (`Spans`).

Which error a refused image gets is not described here, only that it is an
error and that the caller's plan is then left as it was.
-/

set_option autoImplicit false

namespace BearBoot.Loader

open Machine

variable {a size : Nat}

/-! ## Well-formed images -/

namespace ProgramHeader

variable (h : ProgramHeader)

def Load : Prop := h.type = 1

instance : DecidablePred Load := fun h => inferInstanceAs (Decidable (h.type = 1))

def Executable : Prop := h.flags &&& pfX ≠ 0

def Writable : Prop := h.flags &&& pfW ≠ 0

/-- The pages the segment touches begin here. -/
def pageStart : Nat := h.physicalAddress / 4096 * 4096

/-- The pages the segment touches end here. -/
def pageStop : Nat := roundUp (h.physicalAddress + h.memorySize) 4096

/-- A `PT_LOAD` entry that can be loaded from an image of `size` bytes. -/
structure Loadable (size : Nat) : Prop where
  sizes : h.fileSize ≤ h.memorySize
  file : h.fileOffset + h.fileSize ≤ size
  virtualEnd : h.virtualAddress + h.memorySize ≤ 2 ^ 64 - 1
  physicalEnd : h.physicalAddress + h.memorySize ≤ 2 ^ 64 - 1
  canonical :
    h.virtualAddress < 2 ^ 47 ∧ (h.memorySize ≠ 0 → h.virtualAddress + h.memorySize ≤ 2 ^ 47) ∨
      2 ^ 64 - 2 ^ 47 ≤ h.virtualAddress
  physicalStart_lt : h.physicalAddress < 2 ^ 48
  physicalEnd_le : h.physicalAddress + h.memorySize ≤ 2 ^ 48
  offsets : h.virtualAddress % 4096 = h.physicalAddress % 4096
  alignment : h.alignment = 0 ∨ h.alignment = 1 ∨ (∃ k, h.alignment = 2 ^ k) ∧
    h.fileOffset % h.alignment = h.virtualAddress % h.alignment ∧
    h.fileOffset % h.alignment = h.physicalAddress % h.alignment
  writeXorExecute : ¬ (h.Writable ∧ h.Executable)

/-- The pages of two segments, if neither is empty, are disjoint. -/
def Apart (h' : ProgramHeader) : Prop :=
  h.memorySize ≠ 0 → h'.memorySize ≠ 0 → h.pageStop ≤ h'.pageStart ∨ h'.pageStop ≤ h.pageStart

end ProgramHeader

/-- The `PT_LOAD` entries, in the file's order. -/
def Image.loads (image : Image) : List ProgramHeader := image.programHeaders.filter (·.Load)

/-- A current-version little-endian ELF64 x86-64 `ET_EXEC` image whose
segments can be loaded and whose entry point is in one that executes. -/
structure WellFormed (image : Image) : Prop where
  header : 64 ≤ image.size
  ident : image.bytes.take 7 = ident
  type : image.read16 16 = 2
  machine : image.read16 18 = 62
  version : image.read32 20 = 1
  headerSize : image.read16 52 = 64
  programHeaderSize : image.read16 54 = 56
  programHeaderCount : 1 ≤ image.read16 56 ∧ image.read16 56 ≤ 32
  programHeadersInside : image.read64 32 + image.read16 56 * 56 ≤ image.size
  few : image.loads.length ≤ 16
  loadable : ∀ h ∈ image.loads, h.Loadable image.size
  apart : image.loads.Pairwise ProgramHeader.Apart
  canonicalEntry : image.entry < 2 ^ 47 ∨ 2 ^ 64 - 2 ^ 47 ≤ image.entry
  entry : ∃ h ∈ image.loads, h.Executable ∧ h.virtualAddress ≤ image.entry ∧
    image.entry < h.virtualAddress + h.memorySize

/-- The plan of an image: its `PT_LOAD` entries one by one, and the envelope
of the pages of those that are not empty. -/
structure Describes (image : Image) (plan : ElfPlan) : Prop where
  entry : plan.entry = image.entry
  segments : plan.segments = image.loads.map fun h =>
    { fileOffset := h.fileOffset
      fileSize := h.fileSize
      memorySize := h.memorySize
      virtualAddress := h.virtualAddress
      physicalAddress := h.physicalAddress
      pageBase := h.pageStart
      pageCount := if h.memorySize = 0 then 0 else (h.pageStop - h.pageStart) / 4096
      alignment := h.alignment
      flags := h.flags }
  physicalBase : IsLeast {b | ∃ h ∈ image.loads, h.memorySize ≠ 0 ∧ b = h.pageStart} plan.physicalBase
  physicalEnd : IsGreatest {e | ∃ h ∈ image.loads, h.memorySize ≠ 0 ∧ e = h.pageStop} plan.physicalEnd

/-! ## The checks, without their masks -/

theorem not_addOverflows_iff {left right : Nat} (h : right < 2 ^ 64) :
    ¬ addOverflows left right ↔ left + right ≤ 2 ^ 64 - 1 := by
  unfold addOverflows
  omega

theorem canonicalRegion_low (h : a < 2 ^ 47) : canonicalRegion a = 1 := if_pos h

theorem canonicalRegion_high (h : 2 ^ 64 - 2 ^ 47 ≤ a) : canonicalRegion a = 2 := by
  unfold canonicalRegion
  rw [if_neg (by omega), if_pos (by omega)]

theorem canonicalRegion_hole (hlow : 2 ^ 47 ≤ a) (hhigh : a < 2 ^ 64 - 2 ^ 47) :
    canonicalRegion a = 0 := by
  unfold canonicalRegion
  rw [if_neg (by omega), if_neg (by omega)]

theorem canonicalRegion_ne_zero_iff :
    canonicalRegion a ≠ 0 ↔ a < 2 ^ 47 ∨ 2 ^ 64 - 2 ^ 47 ≤ a := by
  constructor
  · intro hne
    by_contra hhole
    exact hne (canonicalRegion_hole (by omega) (by omega))
  · rintro (hlow | hhigh)
    · rw [canonicalRegion_low hlow]
      decide
    · rw [canonicalRegion_high hhigh]
      decide

theorem canonicalRange_iff {v n : Nat} (hend : v + n ≤ 2 ^ 64 - 1) :
    canonicalRange v (v + n) = true ↔
      v < 2 ^ 47 ∧ (n ≠ 0 → v + n ≤ 2 ^ 47) ∨ 2 ^ 64 - 2 ^ 47 ≤ v := by
  unfold canonicalRange
  by_cases hlow : v < 2 ^ 47
  · rw [canonicalRegion_low hlow, if_neg (by decide)]
    by_cases hn : v = v + n
    · rw [if_pos hn]
      exact iff_of_true rfl (Or.inl ⟨hlow, fun hne => absurd hn (by omega)⟩)
    · rw [if_neg hn, decide_eq_true_eq]
      by_cases hstop : v + n - 1 < 2 ^ 47
      · exact iff_of_true (canonicalRegion_low hstop) (Or.inl ⟨hlow, fun _ => by omega⟩)
      · refine iff_of_false (fun h1 => ?_) (by omega)
        by_cases hhigh : 2 ^ 64 - 2 ^ 47 ≤ v + n - 1
        · rw [canonicalRegion_high hhigh] at h1
          cases h1
        · rw [canonicalRegion_hole (by omega) (by omega)] at h1
          cases h1
  · by_cases hhigh : 2 ^ 64 - 2 ^ 47 ≤ v
    · rw [canonicalRegion_high hhigh, if_neg (by decide)]
      refine iff_of_true ?_ (Or.inr hhigh)
      split
      · rfl
      · rw [decide_eq_true_eq]
        exact canonicalRegion_high (by omega)
    · rw [canonicalRegion_hole (by omega) (by omega), if_pos rfl]
      exact iff_of_false (by decide) (by omega)

theorem and_low_xor_eq_zero_iff {b k : Nat} :
    (a ^^^ b) &&& (2 ^ k - 1) = 0 ↔ a % 2 ^ k = b % 2 ^ k := by
  rw [Nat.and_two_pow_sub_one_eq_mod, Nat.xor_mod_two_pow, Nat.xor_eq_zero_iff]

theorem writable_executable_iff {flags : Nat} :
    flags &&& (pfW ||| pfX) = pfW ||| pfX ↔ flags &&& pfW ≠ 0 ∧ flags &&& pfX ≠ 0 := by
  have hw : flags &&& 2 = flags % 4 &&& 2 := by
    rw [show (4 : Nat) = 2 ^ 2 from rfl, ← Nat.and_two_pow_sub_one_eq_mod, Nat.and_assoc]; rfl
  have hx : flags &&& 1 = flags % 4 &&& 1 := by
    rw [show (4 : Nat) = 2 ^ 2 from rfl, ← Nat.and_two_pow_sub_one_eq_mod, Nat.and_assoc]; rfl
  have hwx : flags &&& 3 = flags % 4 := Nat.and_two_pow_sub_one_eq_mod flags 2
  have hlt : flags % 4 < 4 := Nat.mod_lt _ (by decide)
  simp only [pfW, pfX, show (2 ||| 1 : Nat) = 3 from rfl, hw, hx, hwx]
  generalize flags % 4 = r at hlt
  have htable : ∀ r < 4, r = 3 ↔ r &&& 2 ≠ 0 ∧ r &&& 1 ≠ 0 := by decide
  exact htable r hlt

/-- The three alignment checks of a header, together. -/
theorem alignment_iff {off v p align : Nat} :
    ¬ (1 < align ∧ powerOfTwo align = false) ∧
      ¬ (1 < align ∧ (off &&& (align - 1) ≠ v &&& (align - 1) ∨ off &&& (align - 1) ≠ p &&& (align - 1))) ↔
    align = 0 ∨ align = 1 ∨ (∃ k, align = 2 ^ k) ∧ off % align = v % align ∧ off % align = p % align := by
  by_cases hsmall : align ≤ 1
  · exact iff_of_true ⟨by omega, by omega⟩ (by omega)
  · have hbig : 1 < align := by omega
    have hpow : powerOfTwo align = true ↔ ∃ k, align = 2 ^ k := by
      rw [powerOfTwo, decide_eq_true_eq, ← and_pred_eq_zero_iff (by omega)]
      exact ⟨fun h => h.2, fun h => ⟨by omega, h⟩⟩
    simp only [hbig, true_and, Bool.not_eq_false, hpow, not_or, not_not]
    constructor
    · rintro ⟨⟨k, rfl⟩, hv, hp⟩
      simp only [Nat.and_two_pow_sub_one_eq_mod] at hv hp
      exact Or.inr (Or.inr ⟨⟨k, rfl⟩, hv, hp⟩)
    · rintro (h0 | h1 | ⟨⟨k, rfl⟩, hv, hp⟩)
      · omega
      · omega
      · simp only [Nat.and_two_pow_sub_one_eq_mod]
        exact ⟨⟨k, rfl⟩, hv, hp⟩

/-! ## One segment -/

/-- The sums' right operands are words. -/
structure ProgramHeader.Words (h : ProgramHeader) : Prop where
  fileSize : h.fileSize < 2 ^ 64
  memorySize : h.memorySize < 2 ^ 64
  physicalAddress : h.physicalAddress < 2 ^ 64

theorem programHeader_words (image : Image) (header : Nat) : (image.programHeader header).Words :=
  ⟨Mem.getLE_lt _ _ 8, Mem.getLE_lt _ _ 8, Mem.getLE_lt _ _ 8⟩

section Segment

variable {h : ProgramHeader} {size : Nat}

theorem segment_pageBase (hw : h.Words) : h.segment.pageBase = h.pageStart :=
  and_not64_low (k := 12) hw.physicalAddress (by decide)

theorem pageEnd_eq (hl : h.Loadable size) (hw : h.Words) :
    h.pageEnd = if h.memorySize = 0 then h.pageStart else h.pageStop := by
  have hle := hl.physicalEnd_le
  unfold ProgramHeader.pageEnd
  split
  · exact segment_pageBase hw
  · rw [show h.physicalAddress + h.memorySize + pageSize - 1 =
      h.physicalAddress + h.memorySize + (2 ^ 12 - 1) by rw [pageSize]; omega]
    exact add_and_not64 (k := 12) (by decide) (by omega)

theorem pageStart_le_pageStop (h : ProgramHeader) : h.pageStart ≤ h.pageStop := by
  have hup := le_roundUp (h.physicalAddress + h.memorySize) (show 0 < 4096 by decide)
  unfold ProgramHeader.pageStart ProgramHeader.pageStop
  omega

theorem pageStart_lt_pageStop (hm : h.memorySize ≠ 0) : h.pageStart < h.pageStop := by
  have hup := le_roundUp (h.physicalAddress + h.memorySize) (show 0 < 4096 by decide)
  unfold ProgramHeader.pageStart ProgramHeader.pageStop
  omega

/-- Between the two page boundaries lie whole pages. -/
theorem pageStop_sub (h : ProgramHeader) :
    (h.pageStop - h.pageStart) / 4096 * 4096 = h.pageStop - h.pageStart := by
  refine Nat.div_mul_cancel (Nat.dvd_sub (dvd_roundUp _ _) ?_)
  exact Nat.dvd_mul_left _ _

theorem segment_pageCount (hl : h.Loadable size) (hw : h.Words) :
    h.segment.pageCount = if h.memorySize = 0 then 0 else (h.pageStop - h.pageStart) / 4096 := by
  change (h.pageEnd - h.segment.pageBase) / pageSize = _
  rw [pageEnd_eq hl hw, segment_pageBase hw]
  split
  · rw [Nat.sub_self, Nat.zero_div]
  · rfl

theorem segment_pageCount_eq_zero (hl : h.Loadable size) (hw : h.Words) :
    h.segment.pageCount = 0 ↔ h.memorySize = 0 := by
  rw [segment_pageCount hl hw]
  constructor
  · intro hzero
    by_contra hm
    rw [if_neg hm] at hzero
    have hlt := pageStart_lt_pageStop hm
    have hsub := pageStop_sub h
    omega
  · intro hm
    rw [if_pos hm]

theorem segment_pageEnd (hl : h.Loadable size) (hw : h.Words) : h.segment.pageEnd = h.pageEnd := by
  rw [SegmentPlan.pageEnd, segment_pageBase hw, segment_pageCount hl hw, pageEnd_eq hl hw, pageSize]
  have hle := pageStart_le_pageStop h
  have hsub := pageStop_sub h
  split <;> omega

end Segment

variable {h : ProgramHeader}

/-- The checks of one header, in the planner's order, say that it can be
loaded. -/
theorem loadable_iff (hw : h.Words) (hsize : size < 2 ^ 64) :
    (¬ h.memorySize < h.fileSize ∧ ¬ h.flags &&& (pfW ||| pfX) = pfW ||| pfX ∧
      ¬ (1 < h.alignment ∧ powerOfTwo h.alignment = false) ∧
      ¬ (1 < h.alignment ∧
        (h.fileOffset &&& (h.alignment - 1) ≠ h.virtualAddress &&& (h.alignment - 1) ∨
          h.fileOffset &&& (h.alignment - 1) ≠ h.physicalAddress &&& (h.alignment - 1))) ∧
      ¬ (addOverflows h.fileOffset h.fileSize ∨ addOverflows h.virtualAddress h.memorySize ∨
        addOverflows h.physicalAddress h.memorySize) ∧
      ¬ (h.virtualAddress ^^^ h.physicalAddress) &&& (pageSize - 1) ≠ 0 ∧
      ¬ size < h.fileOffset + h.fileSize ∧
      ¬ canonicalRange h.virtualAddress (h.virtualAddress + h.memorySize) = false ∧
      ¬ (physicalLimit ≤ h.physicalAddress ∨ physicalLimit < h.physicalAddress + h.memorySize)) ↔
    h.Loadable size := by
  have hoffsets : ¬ (h.virtualAddress ^^^ h.physicalAddress) &&& (pageSize - 1) ≠ 0 ↔
      h.virtualAddress % 4096 = h.physicalAddress % 4096 :=
    not_not.trans (and_low_xor_eq_zero_iff (k := 12))
  have hlimit : physicalLimit = 2 ^ 48 := rfl
  constructor
  · rintro ⟨hsizes, hwx, hpow, halign, hsums, hoff, hfile, hcanon, hphys⟩
    simp only [not_or, not_addOverflows_iff hw.fileSize, not_addOverflows_iff hw.memorySize] at hsums
    have hrange := (canonicalRange_iff hsums.2.1).mp (Bool.not_eq_false _ ▸ hcanon)
    exact ⟨by omega, by omega, hsums.2.1, hsums.2.2, hrange, by omega, by omega, hoffsets.mp hoff,
      alignment_iff.mp ⟨hpow, halign⟩, fun hboth => hwx (writable_executable_iff.mpr hboth)⟩
  · intro hl
    obtain ⟨hpow, halign⟩ := alignment_iff.mpr hl.alignment
    have hsizes := hl.sizes
    have hfile := hl.file
    have hstart := hl.physicalStart_lt
    have hstop := hl.physicalEnd_le
    refine ⟨by omega, fun hboth => hl.writeXorExecute (writable_executable_iff.mp hboth), hpow, halign,
      ?_, hoffsets.mpr hl.offsets, by omega, ?_, by omega⟩
    · simp only [not_or, not_addOverflows_iff hw.fileSize, not_addOverflows_iff hw.memorySize]
      exact ⟨by omega, hl.virtualEnd, hl.physicalEnd⟩
    · rw [(canonicalRange_iff hl.virtualEnd).mpr hl.canonical]
      decide

/-- The pages of two planned segments, if both have some, are disjoint. -/
def SegmentPlan.Apart (o s : SegmentPlan) : Prop :=
  o.pageCount ≠ 0 → s.pageCount ≠ 0 → o.pageEnd ≤ s.pageBase ∨ s.pageEnd ≤ o.pageBase

/-- What the loop's body asks of a header. -/
def Takes (image : Image) (segments : List SegmentPlan) (h : ProgramHeader) : Prop :=
  h.Load → segments.length ≠ 16 ∧ h.Loadable image.size ∧ ∀ o ∈ segments, o.Apart h.segment

/-- The check against the segments before, for one that can be loaded. -/
theorem overlap_iff (hl : h.Loadable size) (hw : h.Words)
    {segments : List SegmentPlan} :
    ¬ (h.segment.pageCount ≠ 0 ∧ ∃ other ∈ segments, other.pageCount ≠ 0 ∧
      rangesOverlap h.segment.pageBase h.pageEnd other.pageBase other.pageEnd = true) ↔
    ∀ o ∈ segments, o.Apart h.segment := by
  simp only [rangesOverlap, decide_eq_true_eq, not_and, not_exists, ← segment_pageEnd hl hw,
    SegmentPlan.Apart]
  constructor
  · intro hno o ho hne hne'
    have := hno hne' o ho hne
    omega
  · intro hall hne' o ho hne
    have := hall o ho hne hne'
    omega

theorem planHeader_settles (image : Image) (st : Planning) (hw : h.Words) :
    Settles (· = ElfStatus.ok) (planHeader image st h) (Takes image st.candidate.segments h)
      fun st' => st' = if h.Load then st.push h else st := by
  unfold planHeader Takes
  split
  next hload =>
    exact ⟨fun hl => absurd hl hload, (if_neg hload).symm⟩
  next hload =>
    have hload : h.Load := not_not.mp hload
    refine .congr ?_ (.refuse_bind (by decide) Iff.rfl fun _ =>
      .refuse_bind (by decide) Iff.rfl fun hsizes =>
      .refuse_bind (by decide) Iff.rfl fun hwx =>
      .refuse_bind (by decide) Iff.rfl fun hpow =>
      .refuse_bind (by decide) Iff.rfl fun halign =>
      .refuse_bind (by decide) Iff.rfl fun hsums =>
      .refuse_bind (by decide) Iff.rfl fun hoff =>
      .refuse_bind (by decide) Iff.rfl fun hfile =>
      .refuse_bind (by decide) Iff.rfl fun hcanon =>
      .refuse_bind (by decide) Iff.rfl fun hphys =>
      .refuse_bind (by decide) Iff.rfl fun _ =>
      .pure (if_pos hload).symm)
    constructor
    · rintro ⟨hlen, hsizes, hwx, hpow, halign, hsums, hoff, hfile, hcanon, hphys, hover, _⟩ _
      have hl := (loadable_iff hw image.size_lt).mp
        ⟨hsizes, hwx, hpow, halign, hsums, hoff, hfile, hcanon, hphys⟩
      exact ⟨hlen, hl, (overlap_iff hl hw).mp hover⟩
    · intro htakes
      obtain ⟨hlen, hl, hapart⟩ := htakes hload
      obtain ⟨hsizes, hwx, hpow, halign, hsums, hoff, hfile, hcanon, hphys⟩ :=
        (loadable_iff hw image.size_lt).mpr hl
      exact ⟨hlen, hsizes, hwx, hpow, halign, hsums, hoff, hfile, hcanon, hphys,
        (overlap_iff hl hw).mpr hapart, trivial⟩

/-! ## The loop -/

/-- The `PT_LOAD` entries among some headers. -/
def loadsOf (hs : List ProgramHeader) : List ProgramHeader := hs.filter (·.Load)

theorem loadsOf_cons (h : ProgramHeader) (hs : List ProgramHeader) :
    loadsOf (h :: hs) = if h.Load then h :: loadsOf hs else loadsOf hs := by
  unfold loadsOf
  rw [List.filter_cons]
  simp only [decide_eq_true_eq]

/-- What the loop asks of the headers it has before it. -/
structure Plannable (image : Image) (segments : List SegmentPlan) (loads : List ProgramHeader) : Prop where
  few : segments.length + loads.length ≤ 16
  loadable : ∀ h ∈ loads, h.Loadable image.size
  apart : (segments ++ loads.map ProgramHeader.segment).Pairwise SegmentPlan.Apart

variable {image : Image}

/-- One turn: the first `PT_LOAD` is taken, and the rest can be planned
behind it. -/
theorem plannable_cons {segments : List SegmentPlan}
    {loads : List ProgramHeader} (hload : h.Load) :
    Takes image segments h ∧ Plannable image (segments ++ [h.segment]) loads ↔
      Plannable image segments (h :: loads) := by
  constructor
  · rintro ⟨htakes, hfew, hall, hapart⟩
    obtain ⟨_, hl, _⟩ := htakes hload
    refine ⟨?_, List.forall_mem_cons.mpr ⟨hl, hall⟩, ?_⟩
    · rw [List.length_append, List.length_singleton] at hfew
      rw [List.length_cons]
      omega
    · rw [List.append_assoc] at hapart
      exact hapart
  · rintro ⟨hfew, hall, hapart⟩
    rw [List.length_cons] at hfew
    refine ⟨fun _ => ⟨by omega, hall h List.mem_cons_self, ?_⟩, ?_, fun h' hh' =>
      hall h' (List.mem_cons_of_mem _ hh'), ?_⟩
    · exact fun o ho => (List.pairwise_append.mp hapart).2.2 o ho _ List.mem_cons_self
    · rw [List.length_append, List.length_singleton]
      omega
    · rw [List.append_assoc]
      exact hapart

theorem planLoop_settles (image : Image) {hs : List ProgramHeader} (hw : ∀ h ∈ hs, h.Words) (st : Planning)
    (hfew : st.candidate.segments.length ≤ 16)
    (hapart : st.candidate.segments.Pairwise SegmentPlan.Apart) :
    Settles (· = ElfStatus.ok) (planLoop image st hs) (Plannable image st.candidate.segments (loadsOf hs))
      fun st' => st' = (loadsOf hs).foldl Planning.push st := by
  induction hs generalizing st with
  | nil =>
    refine .congr (iff_of_true trivial ⟨hfew, fun _ hh => absurd hh List.not_mem_nil, ?_⟩)
      (.pure rfl)
    rw [loadsOf, List.filter_nil, List.map_nil, List.append_nil]
    exact hapart
  | cons h hs ih =>
    have hrest : ∀ h ∈ hs, h.Words := fun h' hh' => hw h' (List.mem_cons_of_mem _ hh')
    have hstep := planHeader_settles image st (hw h List.mem_cons_self)
    rw [loadsOf_cons]
    by_cases hload : h.Load
    · rw [if_pos hload] at hstep ⊢
      refine .congr (plannable_cons hload) (.bind hstep fun htakes st' hst' => ?_)
      obtain ⟨hlen, hl, hnew⟩ := htakes hload
      rw [hst']
      refine ih hrest (st.push h) ?_ ?_
      · change (st.candidate.segments ++ [h.segment]).length ≤ 16
        rw [List.length_append, List.length_singleton]
        omega
      · refine List.pairwise_append.mpr ⟨hapart, List.pairwise_singleton _ _, fun o ho s hs => ?_⟩
        rw [List.mem_singleton.mp hs]
        exact hnew o ho
    · rw [if_neg hload] at hstep ⊢
      refine .congr (iff_of_eq (true_and _)) (.bind (Settles.congr
        (iff_true_intro fun hl => absurd hl hload) hstep) fun _ st' hst' => ?_)
      rw [hst']
      exact ih hrest st hfew hapart

/-! ## What the loop has gathered -/

/-- The values of `f` on the segments that have pages. -/
def valuesOf (f : SegmentPlan → Nat) (segments : List SegmentPlan) : Set Nat :=
  {b | ∃ s ∈ segments, s.pageCount ≠ 0 ∧ b = f s}

theorem valuesOf_snoc_empty (f : SegmentPlan → Nat) (segments : List SegmentPlan) {s : SegmentPlan}
    (hs : s.pageCount = 0) : valuesOf f (segments ++ [s]) = valuesOf f segments := by
  ext b
  simp [valuesOf, or_and_right, exists_or, hs]

theorem valuesOf_snoc (f : SegmentPlan → Nat) (segments : List SegmentPlan) {s : SegmentPlan}
    (hs : s.pageCount ≠ 0) : valuesOf f (segments ++ [s]) = insert (f s) (valuesOf f segments) := by
  ext b
  simp [valuesOf, or_and_right, exists_or, hs, or_comm]

/-- The envelope of the pages planned so far, if there are any. -/
structure Spans (st : Planning) : Prop where
  none : st.haveEnvelope = false → ∀ s ∈ st.candidate.segments, s.pageCount = 0
  base : st.haveEnvelope = true →
    IsLeast (valuesOf SegmentPlan.pageBase st.candidate.segments) st.candidate.physicalBase
  stop : st.haveEnvelope = true →
    IsGreatest (valuesOf SegmentPlan.pageEnd st.candidate.segments) st.candidate.physicalEnd

theorem Spans.valuesOf_eq {st : Planning} (hst : Spans st) (hnone : st.haveEnvelope = false)
    (f : SegmentPlan → Nat) : valuesOf f st.candidate.segments = ∅ := by
  refine Set.eq_empty_of_forall_notMem fun b hb => ?_
  obtain ⟨s, hs, hne, _⟩ := hb
  exact hne (hst.none hnone s hs)

theorem Spans.push {st : Planning} (hst : Spans st)
    (hend : h.segment.pageEnd = h.pageEnd) : Spans (st.push h) := by
  by_cases hzero : h.segment.pageCount = 0
  · have hkeep : st.push h = ⟨⟨st.candidate.entry, st.candidate.physicalBase, st.candidate.physicalEnd,
        st.candidate.segments ++ [h.segment]⟩, (st.push h).entryCovered, st.haveEnvelope⟩ := by
      simp [Planning.push, hzero]
    rw [hkeep]
    refine ⟨fun hnone s hs => ?_, fun hsome => ?_, fun hsome => ?_⟩
    · rcases List.mem_append.mp hs with hs | hs
      · exact hst.none hnone s hs
      · rw [List.mem_singleton.mp hs]
        exact hzero
    · rw [valuesOf_snoc_empty _ _ hzero]
      exact hst.base hsome
    · rw [valuesOf_snoc_empty _ _ hzero]
      exact hst.stop hsome
  · have hhave : (st.push h).haveEnvelope = true := by simp [Planning.push, hzero]
    have hsegments : (st.push h).candidate.segments = st.candidate.segments ++ [h.segment] := rfl
    refine ⟨fun hnone => absurd (hhave.symm.trans hnone) (by decide), fun _ => ?_, fun _ => ?_⟩
    · rw [hsegments, valuesOf_snoc _ _ hzero]
      cases hsome : st.haveEnvelope with
      | false =>
        have heq : (st.push h).candidate.physicalBase = h.segment.pageBase := by
          simp [Planning.push, hzero, hsome]
        rw [heq, hst.valuesOf_eq hsome]
        simp
      | true =>
        have heq : (st.push h).candidate.physicalBase =
            min h.segment.pageBase st.candidate.physicalBase := by
          simp only [Planning.push, hzero, hsome, ne_eq, not_false_eq_true, true_and, Bool.true_eq_false,
            false_or]
          split <;> omega
        rw [heq]
        exact (hst.base hsome).insert _
    · rw [hsegments, valuesOf_snoc _ _ hzero, hend]
      cases hsome : st.haveEnvelope with
      | false =>
        have heq : (st.push h).candidate.physicalEnd = h.pageEnd := by
          simp [Planning.push, hzero, hsome]
        rw [heq, hst.valuesOf_eq hsome]
        simp
      | true =>
        have heq : (st.push h).candidate.physicalEnd = max h.pageEnd st.candidate.physicalEnd := by
          simp only [Planning.push, hzero, hsome, ne_eq, not_false_eq_true, true_and, Bool.true_eq_false,
            false_or]
          split <;> omega
        rw [heq]
        exact (hst.stop hsome).insert _

/-- The fold over the `PT_LOAD` entries, piece by piece. -/
theorem foldl_push {loads : List ProgramHeader} (hall : ∀ h ∈ loads, h.Loadable size)
    (hw : ∀ h ∈ loads, h.Words) (st : Planning) (hst : Spans st) :
    let st' := loads.foldl Planning.push st
    Spans st' ∧ st'.candidate.entry = st.candidate.entry ∧
      st'.candidate.segments = st.candidate.segments ++ loads.map ProgramHeader.segment ∧
      (st'.entryCovered = true ↔ st.entryCovered = true ∨ ∃ h ∈ loads, h.Executable ∧
        h.virtualAddress ≤ st.candidate.entry ∧ st.candidate.entry < h.virtualAddress + h.memorySize) := by
  induction loads generalizing st with
  | nil => exact ⟨hst, rfl, (List.append_nil _).symm, by simp⟩
  | cons h loads ih =>
    have hend := segment_pageEnd (hall h List.mem_cons_self) (hw h List.mem_cons_self)
    obtain ⟨hspans, hentry, hsegments, hcovered⟩ := ih (fun h' hh' => hall h' (List.mem_cons_of_mem _ hh'))
      (fun h' hh' => hw h' (List.mem_cons_of_mem _ hh')) (st.push h) (hst.push hend)
    refine ⟨hspans, hentry, ?_, ?_⟩
    · rw [List.foldl_cons, hsegments]
      simp [Planning.push]
    · rw [List.foldl_cons, hcovered]
      simp [Planning.push, ProgramHeader.Executable, or_assoc]

/-! ## The whole image -/

theorem programHeaders_words (hh : h ∈ image.programHeaders) :
    h.Words := by
  obtain ⟨i, _, rfl⟩ := List.mem_map.mp hh
  exact programHeader_words _ _

theorem loads_words (hh : h ∈ image.loads) : h.Words :=
  programHeaders_words (List.mem_filter.mp hh).1

/-- Disjointness of planned segments is disjointness of the headers' pages. -/
theorem apart_iff {h' : ProgramHeader} (hl : h.Loadable size) (hl' : h'.Loadable size)
    (hw : h.Words) (hw' : h'.Words) : h.segment.Apart h'.segment ↔ h.Apart h' := by
  unfold SegmentPlan.Apart ProgramHeader.Apart
  simp only [ne_eq, segment_pageCount_eq_zero hl hw, segment_pageCount_eq_zero hl' hw',
    segment_pageEnd hl hw, segment_pageEnd hl' hw', segment_pageBase hw, segment_pageBase hw',
    pageEnd_eq hl hw, pageEnd_eq hl' hw']
  refine forall_congr' fun hm => forall_congr' fun hm' => ?_
  rw [if_neg hm, if_neg hm']

theorem plannable_iff :
    Plannable image [] image.loads ↔ image.loads.length ≤ 16 ∧
      (∀ h ∈ image.loads, h.Loadable image.size) ∧ image.loads.Pairwise ProgramHeader.Apart := by
  have hpair : (∀ h ∈ image.loads, h.Loadable image.size) →
      ((image.loads.map ProgramHeader.segment).Pairwise SegmentPlan.Apart ↔
        image.loads.Pairwise ProgramHeader.Apart) := fun hall => by
    rw [List.pairwise_map]
    exact List.Pairwise.iff_of_mem fun {h h'} hh hh' =>
      apart_iff (hall h hh) (hall h' hh') (loads_words hh) (loads_words hh')
  constructor
  · rintro ⟨hfew, hall, hapart⟩
    exact ⟨by simpa using hfew, hall, (hpair hall).mp hapart⟩
  · rintro ⟨hfew, hall, hapart⟩
    exact ⟨by simpa using hfew, hall, (hpair hall).mpr hapart⟩

/-- The envelope of the planned segments is that of the headers. -/
theorem valuesOf_loads (hall : ∀ h ∈ image.loads, h.Loadable image.size)
    {f : SegmentPlan → Nat} {g : ProgramHeader → Nat}
    (hfg : ∀ h ∈ image.loads, h.memorySize ≠ 0 → f h.segment = g h) :
    valuesOf f (image.loads.map ProgramHeader.segment) =
      {b | ∃ h ∈ image.loads, h.memorySize ≠ 0 ∧ b = g h} := by
  ext b
  constructor
  · rintro ⟨s, hs, hne, rfl⟩
    obtain ⟨h, hh, rfl⟩ := List.mem_map.mp hs
    have hm : h.memorySize ≠ 0 := fun hm =>
      hne ((segment_pageCount_eq_zero (hall h hh) (loads_words hh)).mpr hm)
    exact ⟨h, hh, hm, hfg h hh hm⟩
  · rintro ⟨h, hh, hm, rfl⟩
    refine ⟨h.segment, List.mem_map_of_mem hh, fun hzero => hm ?_, (hfg h hh hm).symm⟩
    exact (segment_pageCount_eq_zero (hall h hh) (loads_words hh)).mp hzero

/-- Before the first header there is no envelope. -/
theorem spans_start (entry : Nat) : Spans (Planning.start entry) :=
  ⟨fun _ _ hs => absurd hs List.not_mem_nil, (fun hc => by cases hc), (fun hc => by cases hc)⟩

/-- The planner's variables behind the loop. -/
def planned (image : Image) : Planning := image.loads.foldl Planning.push (Planning.start image.entry)

theorem planned_covered (hall : ∀ h ∈ image.loads, h.Loadable image.size) :
    (planned image).entryCovered = true ↔ ∃ h ∈ image.loads, h.Executable ∧
      h.virtualAddress ≤ image.entry ∧ image.entry < h.virtualAddress + h.memorySize := by
  obtain ⟨_, _, _, hcovered⟩ :=
    foldl_push hall (fun h hh => loads_words hh) _ (spans_start image.entry)
  exact hcovered.trans (or_iff_right (by simp [Planning.start]))

/-- What the loop leaves for a well-formed image is its plan. -/
theorem describes_planned (hall : ∀ h ∈ image.loads, h.Loadable image.size)
    (hcovered : (planned image).entryCovered = true) : Describes image (planned image).candidate := by
  obtain ⟨hspans, hentry, hsegments, _⟩ :=
    foldl_push hall (fun h hh => loads_words hh) _ (spans_start image.entry)
  have hsegments : (planned image).candidate.segments = image.loads.map ProgramHeader.segment := hsegments
  -- The entry is in a segment, so there is an envelope.
  obtain ⟨h, hh, _, hlo, hhi⟩ := (planned_covered hall).mp hcovered
  have hhave : (planned image).haveEnvelope = true := by
    by_contra hnone
    have hzero := hspans.none (Bool.not_eq_true _ ▸ hnone) h.segment
      (hsegments ▸ List.mem_map_of_mem hh)
    rw [segment_pageCount_eq_zero (hall h hh) (loads_words hh)] at hzero
    omega
  refine ⟨hentry, ?_, ?_, ?_⟩
  · rw [hsegments]
    refine List.map_congr_left fun h hh => ?_
    rw [← segment_pageCount (hall h hh) (loads_words hh), ← segment_pageBase (loads_words hh)]
    rfl
  · rw [← valuesOf_loads hall fun h hh _ => segment_pageBase (loads_words hh), ← hsegments]
    exact hspans.base hhave
  · rw [← valuesOf_loads hall fun h hh hm =>
      (segment_pageEnd (hall h hh) (loads_words hh)).trans
        ((pageEnd_eq (hall h hh) (loads_words hh)).trans (if_neg hm)), ← hsegments]
    exact hspans.stop hhave

/-- The planner answers with the plan of a well-formed image, and refuses
every other one. -/
theorem planImage_settles (image : Image) :
    Settles (· = ElfStatus.ok) (planImage image) (WellFormed image) (Describes image) := by
  unfold planImage
  have hwords : ∀ h ∈ image.programHeaders, h.Words := fun h hh => programHeaders_words hh
  have hloop := planLoop_settles image hwords (Planning.start image.entry) (Nat.zero_le _) List.Pairwise.nil
  have hcount : image.read16 56 < 2 ^ 16 := Mem.getLE_lt _ _ 2
  have hsize := image.size_lt
  have hsum : ¬ addOverflows (image.read64 32) (image.read16 56 * 56) ↔
      image.read64 32 + image.read16 56 * 56 ≤ 2 ^ 64 - 1 := not_addOverflows_iff (by omega)
  refine .congr ?_ (.refuse_bind (by decide) Iff.rfl fun _ =>
    .refuse_bind (by decide) Iff.rfl fun _ =>
    .refuse_bind (by decide) canonicalRegion_ne_zero_iff fun _ =>
    .refuse_bind (by decide) Iff.rfl fun _ =>
    .refuse_bind (by decide) hsum fun _ =>
    .refuse_bind (by decide) Iff.rfl fun _ =>
    .bind (.congr plannable_iff hloop) fun hplan st hst =>
    .refuse_bind (by decide) (P := ∃ h ∈ image.loads, h.Executable ∧
      h.virtualAddress ≤ image.entry ∧ image.entry < h.virtualAddress + h.memorySize) ?_ fun hcovered =>
    .pure ?_)
  · simp only [not_or, not_not, maxProgramHeaders]
    constructor
    · rintro ⟨hheader, ⟨hident, htype, hmachine, hversion, hsize'⟩, hcanon, ⟨hentsize, hzero, hmax⟩, _, hinside,
        ⟨hfew, hall, hapart⟩, hentry, _⟩
      exact ⟨by omega, hident, htype, hmachine, hversion, hsize', hentsize, by omega, by omega, hfew, hall,
        hapart, hcanon, hentry⟩
    · intro hwf
      have hheader := hwf.header
      have hinside := hwf.programHeadersInside
      have hbounds := hwf.programHeaderCount
      have hlt : image.size < 2 ^ 64 := hsize
      exact ⟨by omega, ⟨hwf.ident, hwf.type, hwf.machine, hwf.version, hwf.headerSize⟩, hwf.canonicalEntry,
        ⟨hwf.programHeaderSize, by omega, by omega⟩, by omega, by omega,
        ⟨hwf.few, hwf.loadable, hwf.apart⟩, hwf.entry, trivial⟩
  · rw [hst, Bool.not_eq_false]
    exact planned_covered hplan.2.1
  · rw [hst]
    exact describes_planned hplan.2.1 ((planned_covered hplan.2.1).mpr hcovered)

/-- `bbp_elf64_plan` answers OK on exactly the well-formed images, and then
with their plan. On every other one the caller's plan is left alone. -/
theorem elf64Plan_ok_iff (image : Image) (old : ElfPlan) :
    ((elf64Plan (some image) (some old)).1 = .ok ↔ WellFormed image) ∧
      (WellFormed image → ∃ plan, Describes image plan ∧
        elf64Plan (some image) (some old) = (.ok, some plan)) ∧
      (¬ WellFormed image → (elf64Plan (some image) (some old)).2 = some old) := by
  have hsettles := planImage_settles image
  simp only [elf64Plan]
  cases hplan : planImage image with
  | error e =>
    rw [hplan] at hsettles
    exact ⟨iff_of_false hsettles.2 hsettles.1, fun hwf => absurd hwf hsettles.1, fun _ => rfl⟩
  | ok plan =>
    rw [hplan] at hsettles
    exact ⟨iff_of_true rfl hsettles.1, fun _ => ⟨plan, hsettles.2, rfl⟩, fun hwf => absurd hsettles.1 hwf⟩

end BearBoot.Loader
