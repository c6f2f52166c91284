import BearBoot.Machine.Pack
import BearBoot.Loader.Progress

/-!
# The boot page tables map exactly what is intended

`buildPageTables_exact`: for every plan the planner can produce, every pool
and both settings of the two options, a canonical address is mapped exactly
when it is in the first four gibibytes, at itself or at the higher half, or
in a page of a segment. Segments share no page, with each other or with
the rest, and nothing outside the pool is written.

The null guard is part of that statement only as far as the map at its own
address is concerned: page 0 is left out of it. A segment that is linked at
virtual address 0 is mapped there all the same, because `map_page` refuses
only what is already mapped. `nullGuard_iff` says that this is the one way
to lose the guard, and `nullGuard_lost` has a kernel that does. Its first
segment is in the higher half, so the header's `kernel_virtual_base` is in
order and nothing else in the loader refuses it.
-/

set_option autoImplicit false

namespace BearBoot.Loader

open Machine Machine.Paging

/-- The map at its own address begins here. -/
def identityStart (unmapNull : Bool) : Nat := if unmapNull then 4096 else 0

def InIdentity (unmapNull : Bool) (v : Nat) : Prop := identityStart unmapNull ≤ v ∧ v < identityLimit

def InHhdm (v : Nat) : Prop := hhdmOffset ≤ v ∧ v < hhdmOffset + identityLimit

section Low

variable {unmapNull : Bool} {v : Nat}

theorem identityStart_eq (unmapNull : Bool) : firstPage unmapNull * 4096 = identityStart unmapNull := by
  cases unmapNull <;> rfl

theorem lowMap_identity (h : InIdentity unmapNull v) :
    lowMap (firstPage unmapNull * 4096) (2 ^ 32) (2 ^ 32) v = some ⟨v, true, false⟩ := by
  obtain ⟨hlo, hhi⟩ := h
  have hhi : v < 2 ^ 32 := hhi
  have hmod : v % 2 ^ 48 = v := Nat.mod_eq_of_lt (by omega)
  rw [lowMap, identityStart_eq, hmod, if_pos ⟨hlo, hhi⟩]

theorem lowMap_hhdm (h : InHhdm v) :
    lowMap (firstPage unmapNull * 4096) (2 ^ 32) (2 ^ 32) v = some ⟨v - hhdmOffset, true, false⟩ := by
  obtain ⟨hlo, hhi⟩ := h
  unfold hhdmOffset at hlo hhi ⊢
  unfold identityLimit at hhi
  have hmod : v % 2 ^ 48 = v - 0xffff800000000000 + 2 ^ 47 := by omega
  rw [lowMap, if_neg (by omega), if_pos (by omega), hmod, Nat.add_sub_cancel]

theorem lowMap_none (hc : Canonical v) (hi : ¬ InIdentity unmapNull v) (hh : ¬ InHhdm v) :
    lowMap (firstPage unmapNull * 4096) (2 ^ 32) (2 ^ 32) v = none := by
  unfold InIdentity identityLimit at hi
  unfold InHhdm hhdmOffset identityLimit at hh
  unfold Canonical at hc
  rw [lowMap, identityStart_eq, if_neg (by omega), if_neg (by omega)]

theorem InIdentity.canonical (h : InIdentity unmapNull v) : Canonical v := by
  unfold InIdentity identityLimit at h
  exact Or.inl (by omega)

theorem InHhdm.canonical (h : InHhdm v) : Canonical v := by
  unfold InHhdm hhdmOffset identityLimit at h
  exact Or.inr (by omega)

end Low

/-- The tables a successful run has built, in terms of `Mapped`. -/
theorem buildPageTables_mapped {image : Image} {plan : ElfPlan} {enableNx unmapNull : Bool} {s s' : Space}
    {pml4 : Nat} (hplan : planImage image = .ok plan) (hf : s.pool.Fresh s.mem)
    (heq : buildPageTables s plan enableNx unmapNull = some (pml4, s')) :
    pml4 = s.pool.next ∧ Growing s.mem pml4 s.pool.stop s' ∧
      Mapped enableNx (lowMap (firstPage unmapNull * 4096) (2 ^ 32) (2 ^ 32)) (translate s'.mem pml4)
        plan.segments := by
  unfold buildPageTables at heq
  split at heq
  · cases heq
  next root s₁ hlow =>
    split at heq
    · cases heq
    next s₂ hsegments =>
      cases heq
      obtain ⟨hroot, hg, hmap⟩ := mapLow_spec hf hlow
      have hnil : Mapped enableNx (lowMap (firstPage unmapNull * 4096) (2 ^ 32) (2 ^ 32))
          (translate s₁.mem pml4) [] :=
        ⟨fun _ hx => absurd hx List.not_mem_nil, fun v _ _ => hmap v, List.Pairwise.nil,
          fun _ hx => absurd hx List.not_mem_nil⟩
      obtain ⟨hg', hmapped⟩ := mapSegments_spec hg hnil (fun _ hx => absurd hx List.not_mem_nil)
        (fun x hx => planned_segment hplan hx) hsegments
      exact ⟨hroot, hg', hmapped⟩

/-- A segment's address moves with its page. -/
theorem segmentTranslation_physical {size : Nat} {s : SegmentPlan} (hs : s.Planned size) (enableNx : Bool)
    {v : Nat} (hc : s.Covers v) :
    (segmentTranslation enableNx s v).physical + s.virtualAddress = v + s.physicalAddress := by
  have hbase := hs.pageBase
  have hoffsets := hs.offsets
  obtain ⟨hlo, _⟩ := (covers_iff hs).mp hc
  unfold segmentTranslation
  dsimp only
  omega

/-! ## A kernel of two segments -/

/-- The bytes of a program header. -/
def programHeaderBytes (h : ProgramHeader) : List UInt8 :=
  le h.type 4 ++ le h.flags 4 ++ le h.fileOffset 8 ++ le h.virtualAddress 8 ++ le h.physicalAddress 8 ++
    le h.fileSize 8 ++ le h.memorySize 8 ++ le h.alignment 8

/-- A page of code in the higher half, with the entry at its beginning. -/
def textHeader : ProgramHeader := ⟨1, 5, 0, 0xffffffff80200000, 0x200000, 64, 4096, 4096⟩

/-- A page of data, linked at `v`. -/
def dataHeader (v : Nat) : ProgramHeader := ⟨1, 6, 0, v, 0x201000, 0, 4096, 4096⟩

/-- A kernel with the two segments. -/
def kernelBytes (v : Nat) : List UInt8 :=
  ident ++ List.replicate 9 0 ++ le 2 2 ++ le 62 2 ++ le 1 4 ++ le 0xffffffff80200000 8 ++ le 64 8 ++ le 0 8 ++
    le 0 4 ++ le 64 2 ++ le 56 2 ++ le 2 2 ++ le 0 6 ++ programHeaderBytes textHeader ++
    programHeaderBytes (dataHeader v)

theorem length_programHeaderBytes (h : ProgramHeader) : (programHeaderBytes h).length = 56 := by
  simp [programHeaderBytes]

theorem length_kernelBytes (v : Nat) : (kernelBytes v).length = 176 := by
  simp [kernelBytes, length_programHeaderBytes, ident]

def kernelImage (v : Nat) : Image := ⟨kernelBytes v, by rw [length_kernelBytes]; decide⟩

/-- The kernel's plan. -/
def kernelPlan (v : Nat) : ElfPlan :=
  ⟨0xffffffff80200000, 0x200000, 0x202000,
    [⟨0, 64, 4096, 0xffffffff80200000, 0x200000, 0x200000, 1, 4096, 5⟩,
      ⟨0, 0, 4096, v, 0x201000, 0x201000, 1, 4096, 6⟩]⟩

/-- Sixty-four zeroed pages at sixteen mebibytes. -/
def zeroedSpace : Space := ⟨⟨0x1000000, 0, 64⟩, Mem.zeros⟩

theorem zeroedSpace_fresh : zeroedSpace.pool.Fresh zeroedSpace.mem :=
  ⟨by decide, by decide, by decide, by decide, fun _ _ _ => rfl⟩

/-- The two segments share no page, and the second is in a free one, as long as
it is linked at the end of the higher half or at the guard page. -/
theorem kernel_builds {v : Nat} (hplan : planImage (kernelImage v) = .ok (kernelPlan v))
    (hv : v = 0 ∨ v = 0xffffffff80201000) {m : Mem} (hf : zeroedSpace.pool.Fresh m) (enableNx : Bool) :
    ∃ pml4 s', buildPageTables ⟨zeroedSpace.pool, m⟩ (kernelPlan v) enableNx true = some (pml4, s') := by
  have hplanned : ∀ x ∈ (kernelPlan v).segments, x.Planned (kernelImage v).size :=
    fun x hx => planned_segment hplan hx
  refine buildPageTables_total hf hplanned ?_ (fun x hx u hc => ?_) ⟨hf.base_ne, ?_⟩
  · refine List.pairwise_pair.mpr fun u hc => ?_
    simp only [SegmentPlan.Covers] at hc
    omega
  · refine lowMap_none (Covers.canonical (hplanned x hx) hc) ?_ ?_
    · simp only [kernelPlan, List.mem_cons, List.not_mem_nil, or_false] at hx
      rintro ⟨hlo, hhi⟩
      have hlo : 4096 ≤ u := hlo
      have hhi : u < 2 ^ 32 := hhi
      rcases hx with rfl | rfl <;> (simp only [SegmentPlan.Covers] at hc; omega)
    · simp only [kernelPlan, List.mem_cons, List.not_mem_nil, or_false] at hx
      unfold InHhdm hhdmOffset identityLimit
      rcases hx with rfl | rfl <;> (simp only [SegmentPlan.Covers] at hc; omega)
  · change 0 + (1 + (1 + 0)) * 3 + 15 ≤ 64
    decide

/-! ## The results -/

/-- What is mapped, where to, and with which permissions. -/
theorem buildPageTables_exact {image : Image} {plan : ElfPlan} {enableNx unmapNull : Bool} {s s' : Space}
    {pml4 : Nat} (hplan : planImage image = .ok plan) (hf : s.pool.Fresh s.mem)
    (heq : buildPageTables s plan enableNx unmapNull = some (pml4, s')) :
    (∀ v, Canonical v → ((translate s'.mem pml4 v).isSome = true ↔
      InIdentity unmapNull v ∨ InHhdm v ∨ ∃ seg ∈ plan.segments, seg.Covers v)) ∧
    (∀ v, InIdentity unmapNull v → translate s'.mem pml4 v = some ⟨v, true, false⟩) ∧
    (∀ v, InHhdm v → translate s'.mem pml4 v = some ⟨v - hhdmOffset, true, false⟩) ∧
    (∀ seg ∈ plan.segments, ∀ v, seg.Covers v → ∃ x, translate s'.mem pml4 v = some x ∧
      x.physical + seg.virtualAddress = v + seg.physicalAddress ∧
      (x.writable = true ↔ seg.flags &&& pfW ≠ 0) ∧
      (x.noExecute = true ↔ enableNx = true ∧ seg.flags &&& pfX = 0)) ∧
    plan.segments.Pairwise (fun seg seg' => ∀ v, ¬ (seg.Covers v ∧ seg'.Covers v)) ∧
    (∀ seg ∈ plan.segments, ∀ v, seg.Covers v → ¬ InIdentity unmapNull v ∧ ¬ InHhdm v) ∧
    ∀ a, a < s.pool.next ∨ s.pool.stop ≤ a → s'.mem a = s.mem a := by
  obtain ⟨rfl, hg, hcovered, hrest, hapart, hfree⟩ := buildPageTables_mapped hplan hf heq
  -- No segment has a page of the first four gibibytes.
  have hclear : ∀ seg ∈ plan.segments, ∀ v, seg.Covers v → ¬ InIdentity unmapNull v ∧ ¬ InHhdm v := by
    intro seg hseg v hc
    have hnone := hfree seg hseg v hc
    refine ⟨fun hi => ?_, fun hh => ?_⟩
    · rw [lowMap_identity hi] at hnone
      cases hnone
    · rw [lowMap_hhdm hh] at hnone
      cases hnone
  have hidentity : ∀ v, InIdentity unmapNull v → translate s'.mem s.pool.next v = some ⟨v, true, false⟩ := by
    intro v hi
    rw [hrest v hi.canonical fun seg hseg hc => (hclear seg hseg v hc).1 hi]
    exact lowMap_identity hi
  have hhhdm : ∀ v, InHhdm v → translate s'.mem s.pool.next v = some ⟨v - hhdmOffset, true, false⟩ := by
    intro v hh
    rw [hrest v hh.canonical fun seg hseg hc => (hclear seg hseg v hc).2 hh]
    exact lowMap_hhdm hh
  refine ⟨fun v hv => ⟨fun hsome => ?_, ?_⟩, hidentity, hhhdm, fun seg hseg v hc => ?_, hapart, hclear,
    hg.grown.outside⟩
  · by_contra hno
    simp only [not_or, not_exists, not_and] at hno
    rw [hrest v hv fun seg hseg hc => hno.2.2 seg hseg hc, lowMap_none hv hno.1 hno.2.1] at hsome
    cases hsome
  · rintro (hi | hh | ⟨seg, hseg, hc⟩)
    · rw [hidentity v hi]
      rfl
    · rw [hhhdm v hh]
      rfl
    · rw [hcovered seg hseg v hc]
      rfl
  · refine ⟨_, hcovered seg hseg v hc,
      segmentTranslation_physical (planned_segment hplan hseg) enableNx hc, ?_, ?_⟩
    · exact decide_eq_true_iff
    · simp only [segmentTranslation, Bool.and_eq_true, decide_eq_true_eq]

theorem buildPageTables_exact_kernel :
    ∃ pml4 s', buildPageTables zeroedSpace (kernelPlan 0xffffffff80201000) true true = some (pml4, s') ∧
      (∃ x, translate s'.mem pml4 0xffffffff80201008 = some x ∧
        x.physical + 0xffffffff80201000 = 0xffffffff80201008 + 0x201000 ∧ x.writable = true ∧
          x.noExecute = true) ∧
      translate s'.mem pml4 0 = none := by
  have hplan : planImage (kernelImage 0xffffffff80201000) = .ok (kernelPlan 0xffffffff80201000) := by
    decide +kernel
  obtain ⟨pml4, s', heq⟩ := kernel_builds hplan (Or.inr rfl) zeroedSpace_fresh true
  obtain ⟨hmapped, _, _, hsegments, _⟩ := buildPageTables_exact hplan zeroedSpace_fresh heq
  refine ⟨pml4, s', heq, ?_, ?_⟩
  · obtain ⟨x, hx, hphys, hw, hnx⟩ := hsegments ⟨0, 0, 4096, 0xffffffff80201000, 0x201000, 0x201000, 1, 4096, 6⟩
      (by simp [kernelPlan]) 0xffffffff80201008 (by simp only [SegmentPlan.Covers]; omega)
    exact ⟨x, hx, hphys, hw.mpr (by decide), hnx.mpr (by decide)⟩
  · rw [← Option.not_isSome_iff_eq_none, hmapped 0 (Or.inl (by decide))]
    rintro (hi | hh | ⟨seg, hseg, hc⟩)
    · exact absurd hi.1 (by decide)
    · exact absurd hh.1 (by decide)
    · simp only [kernelPlan, List.mem_cons, List.not_mem_nil, or_false] at hseg
      rcases hseg with rfl | rfl <;> (simp only [SegmentPlan.Covers] at hc; omega)

/-- The null page is unmapped exactly when no segment has it. -/
theorem nullGuard_iff {image : Image} {plan : ElfPlan} {enableNx : Bool} {s s' : Space} {pml4 : Nat}
    (hplan : planImage image = .ok plan) (hf : s.pool.Fresh s.mem)
    (heq : buildPageTables s plan enableNx true = some (pml4, s')) :
    (∀ v < 4096, translate s'.mem pml4 v = none) ↔
      ∀ seg ∈ plan.segments, seg.memorySize = 0 ∨ 4096 ≤ seg.virtualAddress := by
  obtain ⟨rfl, _, hcovered, hrest, _, _⟩ := buildPageTables_mapped hplan hf heq
  constructor
  · intro hguard seg hseg
    by_contra hno
    rw [not_or, Nat.not_le] at hno
    have hc : seg.Covers 0 := ⟨hno.1, by omega, by omega⟩
    have hsome := hcovered seg hseg 0 hc
    rw [hguard 0 (by decide)] at hsome
    cases hsome
  · intro hall v hv
    have hno : ∀ seg ∈ plan.segments, ¬ seg.Covers v := fun seg hseg hc => by
      have hfar := hall seg hseg
      unfold SegmentPlan.Covers at hc
      omega
    have hcanon : Canonical v := Or.inl (by omega)
    rw [hrest v hcanon hno]
    refine lowMap_none hcanon (fun hi => ?_) (fun hh => ?_)
    · have hlo : 4096 ≤ v := hi.1
      omega
    · unfold InHhdm hhdmOffset at hh
      omega

theorem nullGuard_iff_kernel :
    ∃ pml4 s', buildPageTables zeroedSpace (kernelPlan 0xffffffff80201000) false true = some (pml4, s') ∧
      ∀ v < 4096, translate s'.mem pml4 v = none := by
  have hplan : planImage (kernelImage 0xffffffff80201000) = .ok (kernelPlan 0xffffffff80201000) := by
    decide +kernel
  obtain ⟨pml4, s', heq⟩ := kernel_builds hplan (Or.inr rfl) zeroedSpace_fresh false
  exact ⟨pml4, s', heq, (nullGuard_iff hplan zeroedSpace_fresh heq).mpr (by decide)⟩

/-- A kernel whose data is linked at address 0 gets the page that was to be
left unmapped. -/
theorem nullGuard_lost :
    planImage (kernelImage 0) = .ok (kernelPlan 0) ∧ zeroedSpace.pool.Fresh zeroedSpace.mem ∧
      ∃ pml4 s', buildPageTables zeroedSpace (kernelPlan 0) false true = some (pml4, s') ∧
        translate s'.mem pml4 0 = some ⟨0x201000, true, false⟩ := by
  have hplan : planImage (kernelImage 0) = .ok (kernelPlan 0) := by
    decide +kernel
  obtain ⟨pml4, s', heq⟩ := kernel_builds hplan (Or.inl rfl) zeroedSpace_fresh false
  obtain ⟨_, _, hmapped⟩ := buildPageTables_mapped hplan zeroedSpace_fresh heq
  refine ⟨hplan, zeroedSpace_fresh, pml4, s', heq, ?_⟩
  exact hmapped.covered ⟨0, 0, 4096, 0, 0x201000, 0x201000, 1, 4096, 6⟩ (by simp [kernelPlan]) 0
    (by simp only [SegmentPlan.Covers]; omega)

end BearBoot.Loader
