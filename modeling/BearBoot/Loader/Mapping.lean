import BearBoot.Loader.Identity
import BearBoot.Loader.Plan

/-!
# What the boot page tables map

The segments, page by page, over the map of the first four gibibytes.

`Mapped` is the invariant of the loop over the segments: an address in a
page of a segment done so far has that segment's translation, every other
one has the translation it had before the first segment. It holds because
`map_page` refuses a page that is mapped already (`mapPage_spec`), so
segments cannot share a page, and cannot take one of the first four
gibibytes' either.
-/

set_option autoImplicit false

namespace BearBoot.Loader

open Machine Machine.Paging

variable {size k : Nat}

/-! ## Planned segments -/

/-- The virtual address has an entry: bits 47 to 63 are equal. -/
def Canonical (v : Nat) : Prop := v < 2 ^ 47 ∨ 2 ^ 64 - 2 ^ 47 ≤ v ∧ v < 2 ^ 64

/-- What the planner makes sure of for every segment, for an image of `size`
bytes. -/
structure SegmentPlan.Planned (size : Nat) (s : SegmentPlan) : Prop where
  fileSize_le : s.fileSize ≤ s.memorySize
  file : s.fileOffset + s.fileSize ≤ size
  pageBase : s.pageBase = s.physicalAddress / 4096 * 4096
  empty : s.memorySize = 0 → s.pageCount = 0
  pageEnd : s.memorySize ≠ 0 → s.pageEnd = roundUp (s.physicalAddress + s.memorySize) 4096
  offsets : s.virtualAddress % 4096 = s.physicalAddress % 4096
  canonical :
    s.virtualAddress < 2 ^ 47 ∧ (s.memorySize ≠ 0 → s.virtualAddress + s.memorySize ≤ 2 ^ 47) ∨
      2 ^ 64 - 2 ^ 47 ≤ s.virtualAddress
  virtualEnd : s.virtualAddress + s.memorySize ≤ 2 ^ 64 - 1
  physicalEnd_le : s.physicalAddress + s.memorySize ≤ 2 ^ 48

/-- The planned pages of a header that is not empty end where it does. -/
theorem pageStop_of_count {h : ProgramHeader} (hm : h.memorySize ≠ 0) :
    h.pageStart + (if h.memorySize = 0 then 0 else (h.pageStop - h.pageStart) / 4096) * 4096 = h.pageStop := by
  have hle := pageStart_le_pageStop h
  have hsub := pageStop_sub h
  rw [if_neg hm]
  omega

section Planner

variable {image : Image} {plan : ElfPlan}

theorem plan_describes (hplan : planImage image = .ok plan) : WellFormed image ∧ Describes image plan := by
  have hsettles := planImage_settles image
  rw [hplan] at hsettles
  exact hsettles

theorem planned_segment (hplan : planImage image = .ok plan) {s : SegmentPlan} (hs : s ∈ plan.segments) :
    s.Planned image.size := by
  obtain ⟨hwf, hdescribes⟩ := plan_describes hplan
  rw [hdescribes.segments] at hs
  obtain ⟨h, hh, rfl⟩ := List.mem_map.mp hs
  have hl := hwf.loadable h hh
  exact ⟨hl.sizes, hl.file, rfl, fun hm => if_pos hm, pageStop_of_count, hl.offsets, hl.canonical, hl.virtualEnd,
    hl.physicalEnd_le⟩

/-- The pages of planned segments are disjoint. -/
theorem segments_apart (hplan : planImage image = .ok plan) : plan.segments.Pairwise SegmentPlan.Apart := by
  obtain ⟨hwf, hdescribes⟩ := plan_describes hplan
  rw [hdescribes.segments, List.pairwise_map]
  refine hwf.apart.imp fun {h h'} hsep hne hne' => ?_
  have hm : h.memorySize ≠ 0 := fun hm => hne (if_pos hm)
  have hm' : h'.memorySize ≠ 0 := fun hm => hne' (if_pos hm)
  have hstop := pageStop_of_count hm
  have hstop' := pageStop_of_count hm'
  rcases hsep hm hm' with hlt | hlt
  · exact Or.inl (hstop.le.trans hlt)
  · exact Or.inr (hstop'.le.trans hlt)

/-- Every `PT_LOAD` entry has its segment in the plan. -/
theorem load_planned (hplan : planImage image = .ok plan) {h : ProgramHeader} (hh : h ∈ image.loads) :
    ∃ seg ∈ plan.segments, seg.fileOffset = h.fileOffset ∧ seg.fileSize = h.fileSize ∧
      seg.memorySize = h.memorySize ∧ seg.virtualAddress = h.virtualAddress ∧
      seg.physicalAddress = h.physicalAddress ∧ seg.flags = h.flags := by
  rw [(plan_describes hplan).2.segments]
  exact ⟨_, List.mem_map_of_mem hh, rfl, rfl, rfl, rfl, rfl, rfl⟩

end Planner

/-- The address is in a page of the segment's virtual range. -/
def SegmentPlan.Covers (s : SegmentPlan) (v : Nat) : Prop :=
  s.memorySize ≠ 0 ∧ s.virtualAddress / 4096 ≤ v / 4096 ∧
    v / 4096 ≤ (s.virtualAddress + s.memorySize - 1) / 4096

section Segment

variable {size : Nat} {s : SegmentPlan} {v : Nat}

theorem virtualPage_eq (hs : s.Planned size) : virtualPage s = s.virtualAddress / 4096 * 4096 := by
  have hbase := hs.pageBase
  have hoffsets := hs.offsets
  have hend := hs.virtualEnd
  have hphys := hs.physicalEnd_le
  unfold virtualPage sub64
  omega

/-- The pages that are mapped are those of the virtual range. -/
theorem covers_iff (hs : s.Planned size) :
    s.Covers v ↔ s.virtualAddress / 4096 * 4096 ≤ v ∧
      v < s.virtualAddress / 4096 * 4096 + s.pageCount * 4096 := by
  have hbase := hs.pageBase
  have hoffsets := hs.offsets
  unfold SegmentPlan.Covers
  by_cases hm : s.memorySize = 0
  · rw [hs.empty hm]
    omega
  · have hend := hs.pageEnd hm
    unfold SegmentPlan.pageEnd roundUp pageSize at hend
    omega

/-- A segment's pages do not leave the half they begin in. -/
theorem pages_canonical (hs : s.Planned size) :
    s.virtualAddress / 4096 * 4096 + s.pageCount * 4096 ≤ 2 ^ 47 ∨ s.pageCount = 0 ∨
      2 ^ 64 - 2 ^ 47 ≤ s.virtualAddress / 4096 * 4096 ∧
        s.virtualAddress / 4096 * 4096 + s.pageCount * 4096 ≤ 2 ^ 64 := by
  have hbase := hs.pageBase
  have hoffsets := hs.offsets
  have hvend := hs.virtualEnd
  by_cases hm : s.memorySize = 0
  · exact Or.inr (Or.inl (hs.empty hm))
  · have hend := hs.pageEnd hm
    have hcanon := hs.canonical
    unfold SegmentPlan.pageEnd roundUp pageSize at hend
    omega

theorem Covers.canonical (hs : s.Planned size) (hc : s.Covers v) : Canonical v := by
  have hpages := pages_canonical hs
  obtain ⟨hlo, hhi⟩ := (covers_iff hs).mp hc
  unfold Canonical
  omega

/-- Physical pages stay below the limit. -/
theorem pageEnd_le (hs : s.Planned size) : s.pageBase + s.pageCount * 4096 ≤ 2 ^ 48 := by
  have hbase := hs.pageBase
  have hphys := hs.physicalEnd_le
  by_cases hm : s.memorySize = 0
  · rw [hs.empty hm]
    omega
  · have hend := hs.pageEnd hm
    unfold SegmentPlan.pageEnd roundUp pageSize at hend
    omega

end Segment

/-- A canonical page is known by its entry. -/
theorem region_eq_iff {u v : Nat} (hu : Canonical u) (hv : Canonical v) :
    region u 0 = region v 0 ↔ u / 4096 = v / 4096 := by
  unfold Canonical at hu hv
  rw [region_zero, region_zero]
  omega

/-! ## One segment -/

/-- The translation of an address in one of the segment's pages. -/
def segmentTranslation (enableNx : Bool) (s : SegmentPlan) (v : Nat) : Translation :=
  ⟨s.pageBase + (v - s.virtualAddress / 4096 * 4096), decide (s.flags &&& pfW ≠ 0),
    enableNx && decide (s.flags &&& pfX = 0)⟩

theorem segmentFlags_bits (enableNx : Bool) (s : SegmentPlan) :
    segmentFlags enableNx s &&& pteAddress = 0 ∧ segmentFlags enableNx s < 2 ^ 64 ∧
      writable (segmentFlags enableNx s) = decide (s.flags &&& pfW ≠ 0) ∧
      noExecute (segmentFlags enableNx s) = (enableNx && decide (s.flags &&& pfX = 0)) := by
  unfold segmentFlags
  by_cases hw : s.flags &&& pfW = 0 <;> by_cases hx : s.flags &&& pfX = 0 <;> cases enableNx <;>
    simp only [hw, hx, ne_eq, not_true_eq_false, not_false_eq_true, if_true, if_false, and_true, and_false,
      Bool.false_eq_true, decide_true, decide_false] <;> decide

/-- The entry of a page: its address and its flags do not mix. -/
theorem pageEntry_bits {p flags : Nat} (hf : flags &&& pteAddress = 0) (hlt : flags < 2 ^ 64) :
    pageEntry p flags < 2 ^ 64 ∧ present (pageEntry p flags) = true ∧
      frame (pageEntry p flags) 12 = frame p 12 ∧ writable (pageEntry p flags) = writable flags ∧
      noExecute (pageEntry p flags) = noExecute flags := by
  unfold pageEntry
  refine ⟨?_, ?_, ?_, ?_, ?_⟩
  · refine Nat.or_lt_two_pow (Nat.or_lt_two_pow ?_ hlt) (by decide)
    exact Nat.and_lt_two_pow _ (by decide)
  · rw [present, Nat.testBit_or, show ptePresent.testBit 0 = true from rfl, Bool.or_true]
  · rw [← and_address, ← and_address]
    change ((p &&& pteAddress) ||| flags ||| ptePresent) &&& pteAddress = p &&& pteAddress
    rw [Nat.and_or_distrib_right, Nat.and_or_distrib_right, hf, Nat.and_assoc, Nat.and_self,
      show ptePresent &&& pteAddress = 0 from rfl, Nat.or_zero, Nat.or_zero]
  · simp only [writable, Nat.testBit_or, Nat.testBit_and, show pteAddress.testBit 1 = false from rfl,
      show ptePresent.testBit 1 = false from rfl, Bool.and_false, Bool.false_or, Bool.or_false]
  · simp only [noExecute, Nat.testBit_or, Nat.testBit_and, show pteAddress.testBit 63 = false from rfl,
      show ptePresent.testBit 63 = false from rfl, Bool.and_false, Bool.false_or, Bool.or_false]

/-- The page of an address, and the next ones, in one number. -/
theorem page_segment {s : SegmentPlan} (hs : s.Planned size) (enableNx : Bool) {u : Nat}
    (hk : k < s.pageCount) (hu : u / 4096 = (s.virtualAddress / 4096 * 4096 + k * 4096) / 4096) :
    page (pageEntry (s.pageBase + k * pageSize) (segmentFlags enableNx s)) u 0 true false =
      segmentTranslation enableNx s u := by
  obtain ⟨hmask, hlt, hw, hx⟩ := segmentFlags_bits enableNx s
  obtain ⟨_, _, hframe, hw', hx'⟩ := pageEntry_bits (p := s.pageBase + k * pageSize) hmask hlt
  have hle := pageEnd_le hs
  have hbase := hs.pageBase
  have haddress : frame (s.pageBase + k * pageSize) 12 = s.pageBase + k * 4096 := by
    unfold frame pageSize
    omega
  have hoffset : s.pageBase + k * 4096 + u % 4096 =
      s.pageBase + (u - s.virtualAddress / 4096 * 4096) := by omega
  unfold page segmentTranslation
  rw [show shift 0 = 12 from rfl, hframe, haddress, hw', hx', hw, hx, Bool.true_and, Bool.false_or]
  exact congrArg (Translation.mk · _ _) hoffset

section MapSegment

variable {m₀ : Mem} {root stop size : Nat} {s s' : Space} {seg : SegmentPlan} {enableNx : Bool}

/-- The first `k` pages of the segment are mapped in `b`, and were not in `s`. -/
structure PagesMapped (m₀ : Mem) (root stop : Nat) (enableNx : Bool) (seg : SegmentPlan) (s : Space) (k : Nat)
    (b : Space) : Prop where
  growing : Growing m₀ root stop b
  inside : ∀ u, seg.virtualAddress / 4096 * 4096 ≤ u ∧ u < seg.virtualAddress / 4096 * 4096 + k * 4096 →
    translate s.mem root u = none ∧ translate b.mem root u = some (segmentTranslation enableNx seg u)
  outside : ∀ u, Canonical u →
    ¬ (seg.virtualAddress / 4096 * 4096 ≤ u ∧ u < seg.virtualAddress / 4096 * 4096 + k * 4096) →
      translate b.mem root u = translate s.mem root u

/-- The pages' addresses do not wrap. -/
theorem pageAddress_eq (hseg : seg.Planned size) (hk : k < seg.pageCount) :
    (virtualPage seg + k * pageSize) % 2 ^ 64 = seg.virtualAddress / 4096 * 4096 + k * 4096 ∧
      Canonical (seg.virtualAddress / 4096 * 4096 + k * 4096) := by
  have hpages := pages_canonical hseg
  rw [virtualPage_eq hseg, pageSize]
  refine ⟨Nat.mod_eq_of_lt (by omega), ?_⟩
  unfold Canonical
  omega

/-- One page more. -/
theorem PagesMapped.step (hseg : seg.Planned size) {b b' : Space}
    (h : PagesMapped m₀ root stop enableNx seg s k b) (hk : k < seg.pageCount)
    (heq : mapPage b root ((virtualPage seg + k * pageSize) % 2 ^ 64) (seg.pageBase + k * pageSize)
      (segmentFlags enableNx seg) = some b') : PagesMapped m₀ root stop enableNx seg s (k + 1) b' := by
  obtain ⟨hg, hin, hout⟩ := h
  obtain ⟨hmask, hlt, _⟩ := segmentFlags_bits enableNx seg
  obtain ⟨hv, hcanon⟩ := pageAddress_eq hseg hk
  have hpages := pages_canonical hseg
  rw [hv] at heq
  obtain ⟨he, hp, _⟩ := pageEntry_bits (p := seg.pageBase + k * pageSize) hmask hlt
  obtain ⟨hg', hbefore, hafter⟩ := mapPage_spec hg he hp heq
  have hsplit : ∀ u, seg.virtualAddress / 4096 * 4096 ≤ u ∧
      u < seg.virtualAddress / 4096 * 4096 + (k + 1) * 4096 ↔
      (seg.virtualAddress / 4096 * 4096 ≤ u ∧ u < seg.virtualAddress / 4096 * 4096 + k * 4096) ∨
        u / 4096 = (seg.virtualAddress / 4096 * 4096 + k * 4096) / 4096 := fun u => by omega
  refine ⟨hg', fun u hu => ?_, fun u hu hno => ?_⟩
  · have hcu : Canonical u := by
      unfold Canonical
      omega
    have hregion := region_eq_iff hcu hcanon
    by_cases hpage : u / 4096 = (seg.virtualAddress / 4096 * 4096 + k * 4096) / 4096
    · refine ⟨?_, ?_⟩
      · rw [← hout u hcu (by omega)]
        exact hbefore u (hregion.mpr hpage)
      · rw [hafter u, if_pos (hregion.mpr hpage), page_segment hseg enableNx hk hpage]
    · rw [hafter u, if_neg fun hc => hpage (hregion.mp hc)]
      exact hin u (((hsplit u).mp hu).resolve_right hpage)
  · have hregion := region_eq_iff hu hcanon
    rw [hsplit u, not_or] at hno
    rw [hafter u, if_neg fun hc => hno.2 (hregion.mp hc)]
    exact hout u hu hno.1

theorem PagesMapped.start (h : Growing m₀ root stop s) : PagesMapped m₀ root stop enableNx seg s 0 s :=
  ⟨h, fun u hu => absurd hu (by omega), fun _ _ _ => rfl⟩

/-- A segment is mapped: its pages, which were not mapped, now are. -/
theorem mapSegment_spec (h : Growing m₀ root stop s) (hseg : seg.Planned size)
    (heq : mapSegment root enableNx s seg = some s') :
    Growing m₀ root stop s' ∧ (∀ u, seg.Covers u → translate s.mem root u = none) ∧
      (∀ u, seg.Covers u → translate s'.mem root u = some (segmentTranslation enableNx seg u)) ∧
      ∀ u, Canonical u → ¬ seg.Covers u → translate s'.mem root u = translate s.mem root u := by
  obtain ⟨hg, hin, hout⟩ := forUpTo_some (PagesMapped m₀ root stop enableNx seg s) (PagesMapped.start h)
    (fun k hk b b' hb hbody => hb.step hseg hk hbody) heq
  exact ⟨hg, fun u hc => (hin u ((covers_iff hseg).mp hc)).1,
    fun u hc => (hin u ((covers_iff hseg).mp hc)).2,
    fun u hu hc => hout u hu fun hin' => hc ((covers_iff hseg).mpr hin')⟩

end MapSegment

/-! ## All segments -/

/-- The segments `done` are mapped, over what `low` says of the rest. -/
structure Mapped (enableNx : Bool) (low translation : Nat → Option Translation)
    (done : List SegmentPlan) : Prop where
  covered : ∀ s ∈ done, ∀ v, s.Covers v → translation v = some (segmentTranslation enableNx s v)
  rest : ∀ v, Canonical v → (∀ s ∈ done, ¬ s.Covers v) → translation v = low v
  apart : done.Pairwise fun s s' => ∀ v, ¬ (s.Covers v ∧ s'.Covers v)
  free : ∀ s ∈ done, ∀ v, s.Covers v → low v = none

/-- One segment more. -/
theorem Mapped.push {enableNx : Bool} {low T T' : Nat → Option Translation} {done : List SegmentPlan}
    {seg : SegmentPlan} (h : Mapped enableNx low T done) (hseg : seg.Planned size)
    (hdone : ∀ s ∈ done, s.Planned size) (hbefore : ∀ v, seg.Covers v → T v = none)
    (hafter : ∀ v, seg.Covers v → T' v = some (segmentTranslation enableNx seg v))
    (hkeep : ∀ v, Canonical v → ¬ seg.Covers v → T' v = T v) : Mapped enableNx low T' (done ++ [seg]) := by
  have hapart : ∀ s ∈ done, ∀ v, ¬ (s.Covers v ∧ seg.Covers v) := by
    rintro s hs v ⟨hc, hc'⟩
    have hnone := hbefore v hc'
    rw [h.covered s hs v hc] at hnone
    cases hnone
  refine ⟨fun s hs v hc => ?_, fun v hv hno => ?_, ?_, fun s hs v hc => ?_⟩
  · rcases List.mem_append.mp hs with hs | hs
    · rw [hkeep v (Covers.canonical (hdone s hs) hc) fun hc' => hapart s hs v ⟨hc, hc'⟩]
      exact h.covered s hs v hc
    · rw [List.mem_singleton.mp hs] at hc ⊢
      exact hafter v hc
  · rw [hkeep v hv (hno seg (List.mem_append_right _ List.mem_cons_self))]
    exact h.rest v hv fun s hs => hno s (List.mem_append_left _ hs)
  · refine List.pairwise_append.mpr ⟨h.apart, List.pairwise_singleton _ _, fun s hs s' hs' => ?_⟩
    rw [List.mem_singleton.mp hs']
    exact hapart s hs
  · rcases List.mem_append.mp hs with hs | hs
    · exact h.free s hs v hc
    · rw [List.mem_singleton.mp hs] at hc
      rw [← h.rest v (Covers.canonical hseg hc) fun s' hs' hc' => hapart s' hs' v ⟨hc', hc⟩]
      exact hbefore v hc

theorem mapSegments_spec {m₀ : Mem} {root stop : Nat} {enableNx : Bool} {low : Nat → Option Translation}
    {done segs : List SegmentPlan} {s s' : Space} (hg : Growing m₀ root stop s)
    (hmapped : Mapped enableNx low (translate s.mem root) done) (hdone : ∀ x ∈ done, x.Planned size)
    (hsegs : ∀ x ∈ segs, x.Planned size) (heq : segs.foldlM (mapSegment root enableNx) s = some s') :
    Growing m₀ root stop s' ∧ Mapped enableNx low (translate s'.mem root) (done ++ segs) := by
  induction segs generalizing done s with
  | nil =>
    cases heq
    rw [List.append_nil]
    exact ⟨hg, hmapped⟩
  | cons seg segs ih =>
    rw [List.foldlM_cons] at heq
    obtain ⟨s₁, hone, hrest⟩ := Option.bind_eq_some_iff.mp heq
    have hseg := hsegs seg List.mem_cons_self
    obtain ⟨hg₁, hbefore, hafter, hkeep⟩ := mapSegment_spec hg hseg hone
    have hdone' : ∀ x ∈ done ++ [seg], x.Planned size :=
      List.forall_mem_append.mpr ⟨hdone, List.forall_mem_singleton.mpr hseg⟩
    have hnext := ih hg₁ (hmapped.push hseg hdone hbefore hafter hkeep) hdone'
      (fun x hx => hsegs x (List.mem_cons_of_mem _ hx)) hrest
    rw [List.append_assoc] at hnext
    exact hnext

end BearBoot.Loader
