import BearBoot.Loader.Exact

/-!
# Loading the segments, and what the kernel sees of them

`load_segments` of `bootloader/efi_main.c`: for every segment of the plan
that has pages, the pages are allocated from the firmware at the address
the plan names, zeroed, and the segment's bytes of the file are copied in.
The firmware is whatever it answers (`PageAnswer`): it may refuse, or
answer another address than it was asked for, and then everything that was
allocated is given back. Every call of the firmware is in the log.

`kernel_sees_image` goes from the file to what the kernel reads: through
the page tables, at a segment's virtual addresses, stand the segment's
bytes of the file, and zeros behind them to the end of the last page.

What is assumed of the firmware is that what it hands out is not in use:
the file's buffer and the pool of page tables overlap no segment's pages.
That the segments' pages do not overlap each other is the planner's doing.
-/

set_option autoImplicit false

namespace BearBoot.Loader

open Machine Machine.Paging

variable {a : Nat}

/-! ## `load_segments` -/

/-- `EFI_SUCCESS`. -/
def efiSuccess : Nat := 0

/-- `EFI_LOAD_ERROR`. -/
def efiLoadError : Nat := 2 ^ 63 + 1

theorem efiLoadError_ne : efiLoadError ≠ efiSuccess := by decide

/-- What the firmware answers to `AllocatePages`: a status, and what it left
in the caller's address. -/
structure PageAnswer where
  status : Nat
  physical : Nat

/-- A call of the firmware's page allocator. -/
inductive PageCall where
  | allocatePages (address pages : Nat)
  | freePages (address pages : Nat)
  deriving DecidableEq, Repr

/-- The memory, and the calls so far. -/
structure Loading where
  mem : Mem
  calls : List PageCall

/-- The failure path: the pages of the segments done, the newest first. -/
def releaseCalls (done : List SegmentPlan) : List PageCall :=
  (done.reverse.filter (·.pageCount ≠ 0)).map fun seg => .freePages seg.pageBase seg.pageCount

/-- Zero the segment's pages and copy its bytes, from the file at `image`. -/
def placeSegment (m : Mem) (image : Nat) (seg : SegmentPlan) : Mem :=
  (m.fill seg.pageBase (seg.pageCount * pageSize)).copy seg.physicalAddress (image + seg.fileOffset) seg.fileSize

/-- The loop of `load_segments`, with `done` behind it. -/
def loadLoop (answers : Nat → PageAnswer) (image : Nat) (done : List SegmentPlan) (st : Loading) :
    List SegmentPlan → Nat × Loading
  | [] => (efiSuccess, st)
  | seg :: segs =>
    if seg.pageCount = 0 then loadLoop answers image (done ++ [seg]) st segs
    else if seg.pageBase = 0 ∨ identityLimit < seg.pageBase + seg.pageCount * pageSize then
      (efiLoadError, ⟨st.mem, st.calls ++ releaseCalls done⟩)
    else
      let answer := answers done.length
      let calls := st.calls ++ [.allocatePages seg.pageBase seg.pageCount]
      if answer.status ≠ efiSuccess then (answer.status, ⟨st.mem, calls ++ releaseCalls done⟩)
      else if answer.physical ≠ seg.pageBase then
        (efiLoadError, ⟨st.mem, calls ++ .freePages answer.physical seg.pageCount :: releaseCalls done⟩)
      else loadLoop answers image (done ++ [seg]) ⟨placeSegment st.mem image seg, calls⟩ segs

/-- `load_segments`. -/
def loadSegments (answers : Nat → PageAnswer) (m : Mem) (image : Nat) (plan : ElfPlan) : Nat × Loading :=
  loadLoop answers image [] ⟨m, []⟩ plan.segments

/-! ## What it leaves in memory -/

/-- The byte a segment has at the physical address `a`. -/
def SegmentPlan.byteAt (bytes : List UInt8) (seg : SegmentPlan) (a : Nat) : UInt8 :=
  if seg.physicalAddress ≤ a ∧ a < seg.physicalAddress + seg.fileSize then
    bytes.getD (seg.fileOffset + (a - seg.physicalAddress)) 0
  else 0

/-- The segment's pages hold its bytes. -/
def SegmentPlan.In (bytes : List UInt8) (m : Mem) (seg : SegmentPlan) : Prop :=
  ∀ a, seg.pageBase ≤ a → a < seg.pageEnd → m a = seg.byteAt bytes a

/-- The file is at `image`. -/
def FileAt (bytes : List UInt8) (m : Mem) (image : Nat) : Prop :=
  ∀ i < bytes.length, m (image + i) = bytes.getD i 0

/-- The segment's pages, if it has any, are no bytes of `[a, a + n)`. -/
def SegmentPlan.Avoids (seg : SegmentPlan) (a n : Nat) : Prop :=
  seg.pageCount ≠ 0 → a + n ≤ seg.pageBase ∨ seg.pageEnd ≤ a

section Place

variable {bytes : List UInt8} {m : Mem} {size image : Nat} {seg : SegmentPlan}

/-- The bytes that are copied lie in the segment's pages. -/
theorem Planned.fileInside (hs : seg.Planned size) (hne : seg.pageCount ≠ 0) :
    seg.pageBase ≤ seg.physicalAddress ∧ seg.physicalAddress + seg.fileSize ≤ seg.pageEnd := by
  have hm : seg.memorySize ≠ 0 := fun hm => hne (hs.empty hm)
  have hup := le_roundUp (seg.physicalAddress + seg.memorySize) (show 0 < 4096 by decide)
  have hend := hs.pageEnd hm
  have hbase := hs.pageBase
  have hle := hs.fileSize_le
  omega

theorem placeSegment_frame (hs : seg.Planned size) (hne : seg.pageCount ≠ 0)
    (ha : a < seg.pageBase ∨ seg.pageEnd ≤ a) : placeSegment m image seg a = m a := by
  obtain ⟨hlo, hhi⟩ := Planned.fileInside hs hne
  unfold SegmentPlan.pageEnd at ha hhi
  rw [placeSegment, Mem.copy_frame (by omega), Mem.fill_apply, if_neg (by omega)]

theorem placeSegment_in (hs : seg.Planned bytes.length) (hne : seg.pageCount ≠ 0)
    (hfile : FileAt bytes m image) (havoids : seg.Avoids image bytes.length) :
    seg.In bytes (placeSegment m image seg) := by
  intro a hlo hhi
  obtain ⟨hstart, hstop⟩ := Planned.fileInside hs hne
  have hinside := hs.file
  have hclear := havoids hne
  unfold SegmentPlan.pageEnd at hhi hstop hclear
  unfold placeSegment SegmentPlan.byteAt
  by_cases hin : seg.physicalAddress ≤ a ∧ a < seg.physicalAddress + seg.fileSize
  · obtain ⟨i, rfl⟩ := Nat.exists_eq_add_of_le hin.1
    have hi : i < seg.fileSize := by omega
    rw [if_pos hin, Mem.copy_apply (by omega) i hi, Mem.fill_apply, if_neg (by omega), Nat.add_sub_cancel_left,
      Nat.add_assoc]
    exact hfile _ (by omega)
  · rw [if_neg hin, Mem.copy_frame (by omega), Mem.fill_apply, if_pos ⟨hlo, hhi⟩]

end Place

variable {st : Loading}

/-- The run: every segment's pages hold its bytes. -/
theorem loadLoop_spec {answers : Nat → PageAnswer} {bytes : List UInt8} {image : Nat}
    {done segs : List SegmentPlan} {st' : Loading} (hplanned : ∀ x ∈ segs, x.Planned bytes.length)
    (hapart : (done ++ segs).Pairwise SegmentPlan.Apart) (havoids : ∀ x ∈ segs, x.Avoids image bytes.length)
    (hfile : FileAt bytes st.mem image) (hdone : ∀ x ∈ done, x.In bytes st.mem)
    (heq : loadLoop answers image done st segs = (efiSuccess, st')) :
    ∀ x ∈ done ++ segs, x.In bytes st'.mem := by
  induction segs generalizing done st with
  | nil =>
    cases heq
    rw [List.append_nil]
    exact hdone
  | cons seg segs ih =>
    have hrest : ∀ x ∈ segs, x.Planned bytes.length := fun x hx => hplanned x (List.mem_cons_of_mem _ hx)
    have hrest' : ∀ x ∈ segs, x.Avoids image bytes.length := fun x hx => havoids x (List.mem_cons_of_mem _ hx)
    have hassoc : done ++ seg :: segs = (done ++ [seg]) ++ segs := by rw [List.append_assoc]; rfl
    rw [hassoc] at hapart ⊢
    rw [loadLoop] at heq
    split at heq
    next hzero =>
      refine ih hrest hapart hrest' hfile (fun x hx => ?_) heq
      rcases List.mem_append.mp hx with hx | hx
      · exact hdone x hx
      · rw [List.mem_singleton.mp hx]
        intro a hlo hhi
        unfold SegmentPlan.pageEnd at hhi
        rw [hzero] at hhi
        omega
    next hne =>
      split at heq
      · exact absurd (congrArg Prod.fst heq) efiLoadError_ne
      · dsimp only at heq
        split at heq
        next hstatus => exact absurd (congrArg Prod.fst heq) hstatus
        · split at heq
          · exact absurd (congrArg Prod.fst heq) efiLoadError_ne
          · have hseg := hplanned seg List.mem_cons_self
            have hkeep : ∀ {a}, a < seg.pageBase ∨ seg.pageEnd ≤ a →
                placeSegment st.mem image seg a = st.mem a := placeSegment_frame hseg hne
            refine ih hrest hapart hrest' (fun i hi => ?_) (fun x hx => ?_) heq
            · have hclear := havoids seg List.mem_cons_self hne
              exact (hkeep (by omega)).trans (hfile i hi)
            · rcases List.mem_append.mp hx with hx | hx
              · intro a hlo hhi
                have hx' : x.Apart seg :=
                  (List.pairwise_append.mp (List.pairwise_append.mp hapart).1).2.2 x hx seg List.mem_cons_self
                have hxne : x.pageCount ≠ 0 := by
                  intro hzero
                  unfold SegmentPlan.pageEnd at hhi
                  rw [hzero] at hhi
                  omega
                have hsep := hx' hxne hne
                rw [← hdone x hx a hlo hhi]
                exact hkeep (by omega)
              · rw [List.mem_singleton.mp hx]
                exact placeSegment_in hseg hne hfile (havoids seg List.mem_cons_self)

/-- Nothing is written outside the pages of the segments, whatever the firmware
answers and whether or not loading succeeds. -/
theorem loadLoop_outside {answers : Nat → PageAnswer} {size image : Nat} {done segs : List SegmentPlan}
    (hplanned : ∀ x ∈ segs, x.Planned size)
    (hout : ∀ x ∈ segs, x.pageCount ≠ 0 → a < x.pageBase ∨ x.pageEnd ≤ a) :
    (loadLoop answers image done st segs).2.mem a = st.mem a := by
  induction segs generalizing done st with
  | nil => rfl
  | cons seg segs ih =>
    have ih := fun {done st} => @ih done st (fun x hx => hplanned x (List.mem_cons_of_mem _ hx))
      fun x hx => hout x (List.mem_cons_of_mem _ hx)
    rw [loadLoop]
    split
    · exact ih
    next hne =>
      split
      · rfl
      · dsimp only
        split
        · rfl
        · split
          · rfl
          · have hseg := hplanned seg List.mem_cons_self
            exact ih.trans (placeSegment_frame hseg hne (hout seg List.mem_cons_self hne))

theorem loadSegments_outside {image : Image} {plan : ElfPlan} (answers : Nat → PageAnswer)
    (hplan : planImage image = .ok plan) (m : Mem) (file : Nat)
    (hout : ∀ seg ∈ plan.segments, seg.pageCount ≠ 0 → a < seg.pageBase ∨ seg.pageEnd ≤ a) :
    (loadSegments answers m file plan).2.mem a = m a :=
  loadLoop_outside (fun _ hx => planned_segment hplan hx) hout

theorem loadSegments_in {image : Image} {plan : ElfPlan} {answers : Nat → PageAnswer} {m : Mem} {file : Nat}
    (hplan : planImage image = .ok plan) (hfile : FileAt image.bytes m file)
    (havoids : ∀ seg ∈ plan.segments, seg.Avoids file image.size)
    (heq : loadSegments answers m file plan = (efiSuccess, st)) :
    ∀ seg ∈ plan.segments, seg.In image.bytes st.mem := by
  have hapart : ([] ++ plan.segments).Pairwise SegmentPlan.Apart := segments_apart hplan
  exact loadLoop_spec (fun _ hx => planned_segment hplan hx) hapart havoids hfile
    (fun _ hx => absurd hx List.not_mem_nil) heq

/-! ## What the kernel reads -/

/-- A byte read at a virtual address. -/
def readVirtual (m : Mem) (root v : Nat) : Option UInt8 := (translate m root v).map fun x => m x.physical

section Kernel

variable {image : Image} {plan : ElfPlan} {enableNx unmapNull : Bool} {m : Mem} {file pml4 : Nat} {s s' : Space}
  {seg : SegmentPlan} {v : Nat}

/-- The physical address of a covered one is in the segment's pages. -/
theorem segmentTranslation_inside {size : Nat} (hs : seg.Planned size) (enableNx : Bool) (hc : seg.Covers v) :
    seg.pageBase ≤ (segmentTranslation enableNx seg v).physical ∧
      (segmentTranslation enableNx seg v).physical < seg.pageEnd := by
  obtain ⟨hlo, hhi⟩ := (covers_iff hs).mp hc
  unfold segmentTranslation SegmentPlan.pageEnd pageSize
  dsimp only
  omega

/-- Through the tables, a segment's pages hold its bytes. -/
theorem readVirtual_covered (hplan : planImage image = .ok plan) (hf : s.pool.Fresh s.mem)
    (heq : buildPageTables s plan enableNx unmapNull = some (pml4, s')) (hseg : seg ∈ plan.segments)
    (hin : seg.In image.bytes s.mem) (havoids : seg.Avoids s.pool.base (s.pool.count * pageSize))
    (hc : seg.Covers v) :
    readVirtual s'.mem pml4 v = some (seg.byteAt image.bytes (v + seg.physicalAddress - seg.virtualAddress)) := by
  obtain ⟨rfl, hg, hmapped⟩ := buildPageTables_mapped hplan hf heq
  have hs := planned_segment hplan hseg
  obtain ⟨hlo, hhi⟩ := segmentTranslation_inside hs enableNx hc
  have hphys := segmentTranslation_physical hs enableNx hc
  rw [readVirtual, hmapped.covered seg hseg v hc, Option.map_some]
  generalize (segmentTranslation enableNx seg v).physical = a at *
  have hclear := havoids (fun hzero => by unfold SegmentPlan.pageEnd at hhi; rw [hzero] at hhi; omega)
  rw [hg.grown.outside a (by unfold PagePool.next PagePool.stop; omega), hin a hlo hhi]
  congr 2
  omega

end Kernel

/-- The kernel sees its own image: a loadable entry's bytes of the file at its
virtual addresses, zeros in the rest of its pages, and the entry point where
it executes. Between loading and building the tables the segments' pages are
left alone: what the firmware hands out then does not overlap them. -/
theorem kernel_sees_image {image : Image} {plan : ElfPlan} {answers : Nat → PageAnswer} {m : Mem} {file : Nat}
    {st : Loading} {enableNx unmapNull : Bool} {s s' : Space} {pml4 : Nat} (hplan : planImage image = .ok plan)
    (hfile : FileAt image.bytes m file) (havoids : ∀ seg ∈ plan.segments, seg.Avoids file image.size)
    (hload : loadSegments answers m file plan = (efiSuccess, st))
    (hbetween : ∀ seg ∈ plan.segments, ∀ a, seg.pageBase ≤ a → a < seg.pageEnd → s.mem a = st.mem a)
    (hf : s.pool.Fresh s.mem)
    (hpool : ∀ seg ∈ plan.segments, seg.Avoids s.pool.base (s.pool.count * pageSize))
    (hbuild : buildPageTables s plan enableNx unmapNull = some (pml4, s')) :
    (∀ h ∈ image.loads,
      (∀ o < h.memorySize, readVirtual s'.mem pml4 (h.virtualAddress + o) =
        some (if o < h.fileSize then image.bytes.getD (h.fileOffset + o) 0 else 0)) ∧
      ∀ v, h.memorySize ≠ 0 → h.virtualAddress / 4096 ≤ v / 4096 →
        v / 4096 ≤ (h.virtualAddress + h.memorySize - 1) / 4096 →
        v < h.virtualAddress ∨ h.virtualAddress + h.memorySize ≤ v → readVirtual s'.mem pml4 v = some 0) ∧
    ∃ h ∈ image.loads, h.Executable ∧ ∃ x, translate s'.mem pml4 plan.entry = some x ∧
      x.noExecute = false ∧ h.physicalAddress ≤ x.physical ∧
      x.physical < h.physicalAddress + h.memorySize := by
  have hin : ∀ seg ∈ plan.segments, seg.In image.bytes s.mem := fun seg hseg a hlo hhi =>
    (hbetween seg hseg a hlo hhi).trans (loadSegments_in hplan hfile havoids hload seg hseg a hlo hhi)
  refine ⟨fun h hh => ?_, ?_⟩
  · obtain ⟨seg, hseg, hoffset, hfileSize, hsize, hvirtual, hphysical, _⟩ := load_planned hplan hh
    have hread : ∀ {v}, seg.Covers v → _ := fun {v} hc =>
      readVirtual_covered (v := v) hplan hf hbuild hseg (hin seg hseg) (hpool seg hseg) hc
    have hle := (planned_segment hplan hseg).fileSize_le
    have hoffsets := (planned_segment hplan hseg).offsets
    rw [← hoffset, ← hfileSize, ← hsize, ← hvirtual]
    refine ⟨fun o ho => ?_, fun v hne hlo hhi hout => ?_⟩
    · rw [hread ⟨by omega, by omega, by omega⟩, SegmentPlan.byteAt]
      congr 1
      refine if_congr (by omega) ?_ rfl
      congr 1
      omega
    · rw [hread ⟨hne, hlo, hhi⟩, SegmentPlan.byteAt, if_neg (by omega)]
  · obtain ⟨hwf, hdescribes⟩ := plan_describes hplan
    obtain ⟨h, hh, hexec, hlo, hhi⟩ := hwf.entry
    obtain ⟨seg, hseg, _, _, hsize, hvirtual, hphysical, hflags⟩ := load_planned hplan hh
    obtain ⟨rfl, _, hmapped⟩ := buildPageTables_mapped hplan hf hbuild
    rw [← hsize, ← hvirtual] at hhi
    rw [← hvirtual] at hlo
    have hc : seg.Covers image.entry := ⟨by omega, by omega, by omega⟩
    have hphys := segmentTranslation_physical (planned_segment hplan hseg) enableNx hc
    rw [hdescribes.entry]
    refine ⟨h, hh, hexec, _, hmapped.covered seg hseg _ hc, ?_, by omega, by omega⟩
    have hexec : seg.flags &&& pfX ≠ 0 := hflags ▸ hexec
    simp only [segmentTranslation, hexec, decide_false, Bool.and_false]

/-- The kernel's file is at one mebibyte, and the firmware grants both pages. -/
theorem kernel_sees_image_kernel :
    ∃ st pml4 s', loadSegments (fun i => ⟨efiSuccess, 0x200000 + i * 4096⟩)
        (Mem.zeros.blit 0x100000 (kernelBytes 0xffffffff80201000)) 0x100000 (kernelPlan 0xffffffff80201000) =
        (efiSuccess, st) ∧
      buildPageTables ⟨zeroedSpace.pool, st.mem⟩ (kernelPlan 0xffffffff80201000) true true = some (pml4, s') ∧
      readVirtual s'.mem pml4 0xffffffff80200001 = some 69 ∧
      readVirtual s'.mem pml4 0xffffffff80200040 = some 0 := by
  have hplan : planImage (kernelImage 0xffffffff80201000) = .ok (kernelPlan 0xffffffff80201000) := by
    decide +kernel
  have hlen := length_kernelBytes 0xffffffff80201000
  have hfile : FileAt (kernelBytes 0xffffffff80201000)
      (Mem.zeros.blit 0x100000 (kernelBytes 0xffffffff80201000)) 0x100000 := fun i hi => by
    rw [Mem.blit_apply, if_pos (by omega), Nat.add_sub_cancel_left]
  have havoids : ∀ seg ∈ (kernelPlan 0xffffffff80201000).segments,
      seg.Avoids 0x100000 (kernelBytes 0xffffffff80201000).length := by
    rw [hlen]
    simp only [SegmentPlan.Avoids]
    decide
  have hpool : ∀ seg ∈ (kernelPlan 0xffffffff80201000).segments,
      seg.Avoids zeroedSpace.pool.base (zeroedSpace.pool.count * pageSize) := by
    simp only [SegmentPlan.Avoids]
    decide
  obtain ⟨st, hload⟩ : ∃ st, loadSegments (fun i => ⟨efiSuccess, 0x200000 + i * 4096⟩)
      (Mem.zeros.blit 0x100000 (kernelBytes 0xffffffff80201000)) 0x100000 (kernelPlan 0xffffffff80201000) =
      (efiSuccess, st) := ⟨_, rfl⟩
  have hst : ∀ a, 0x300000 ≤ a → st.mem a = 0 := fun a ha => by
    have hkept := loadSegments_outside (fun i => ⟨efiSuccess, 0x200000 + i * 4096⟩) hplan
      (Mem.zeros.blit 0x100000 (kernelBytes 0xffffffff80201000)) 0x100000 (a := a) (by
        simp only [kernelPlan, List.mem_cons, List.not_mem_nil, or_false, SegmentPlan.pageEnd, pageSize]
        rintro x (rfl | rfl) _ <;> (dsimp only; omega))
    rw [hload] at hkept
    rw [hkept, Mem.blit_frame (by rw [hlen]; omega)]
    rfl
  have hnext : 0x300000 ≤ zeroedSpace.pool.next := by decide
  have hf : zeroedSpace.pool.Fresh st.mem :=
    ⟨by decide, by decide, by decide, by decide, fun a hlo _ => hst a (Nat.le_trans hnext hlo)⟩
  obtain ⟨pml4, s', hbuild⟩ := kernel_builds hplan (Or.inr rfl) hf true
  obtain ⟨hloads, _⟩ :=
    kernel_sees_image (s := ⟨zeroedSpace.pool, st.mem⟩) hplan hfile havoids hload (fun _ _ _ _ _ => rfl) hf
      hpool hbuild
  have htext : textHeader ∈ (kernelImage 0xffffffff80201000).loads := by decide +kernel
  refine ⟨st, pml4, s', hload, hbuild, ?_, ?_⟩
  · exact (hloads textHeader htext).1 1 (by decide)
  · exact (hloads textHeader htext).1 64 (by decide)

end BearBoot.Loader
