import BearBoot.Loader.Exact
import BearBoot.Loader.Header
import BearBoot.Loader.Producers

/-!
# What an accepted kernel finds

The stages of `efi_main` put together: a header `validate_header_contract`
takes, the tables `build_page_tables` makes, and the INFO `build_handoff`
seals. `kernel_receives` is about the kernel that then runs. It sees memory
through those tables only (`Sees`), and initialises with the offset of the
higher half or none, and any window around the tags or none. It finds a tag
for every request that is not optional, and what the tags say of its
addresses is so: low memory is at the offset the HHDM tag names, and the base
it asked for is at the physical base the kernel address tag names.

That the firmware leaves the tables alone in between is an assumption.
-/

set_option autoImplicit false

namespace BearBoot.Loader

open Machine Machine.Paging Bootloader Kernel Import

/-- A memory seen through the tables at `root`. -/
def Sees (kmem m : Mem) (root : Nat) : Prop := ∀ v x, translate m root v = some x → kmem v = m x.physical

/-- The base a header may name is the page of a segment at the plan's
physical base. -/
theorem actualVirtualBase_eq {image : Image} {plan : ElfPlan} (hplan : planImage image = .ok plan)
    (hne : actualVirtualBase plan ≠ 0) :
    ∃ seg ∈ plan.segments, seg.pageCount ≠ 0 ∧ seg.pageBase = plan.physicalBase ∧
      actualVirtualBase plan = seg.virtualAddress / 4096 * 4096 := by
  unfold actualVirtualBase at hne ⊢
  split at hne
  · exact absurd rfl hne
  next seg hfind =>
    have hseg := List.mem_of_find?_eq_some hfind
    have hfound := List.find?_some hfind
    rw [decide_eq_true_eq] at hfound
    exact ⟨seg, hseg, hfound.1, hfound.2, virtualPage_eq (planned_segment hplan hseg)⟩

/-- The tables go on translating as they were built to, in any memory that
has them. -/
theorem buildPageTables_kept {image : Image} {plan : ElfPlan} {unmapNull : Bool} {s s' : Space} {m : Mem} {pml4 : Nat}
    (hplan : planImage image = .ok plan) (hfresh : s.pool.Fresh s.mem)
    (htables : buildPageTables s plan false unmapNull = some (pml4, s'))
    (hkept : ∀ a, s.pool.next ≤ a → a < s.pool.stop → m a = s'.mem a) :
    (∀ v, InIdentity unmapNull v → translate m pml4 v = some ⟨v, true, false⟩) ∧
      (∀ p < identityLimit, translate m pml4 (hhdmOffset + p) = some ⟨p, true, false⟩) ∧
      ∀ seg ∈ plan.segments, ∀ v, seg.Covers v → translate m pml4 v = some (segmentTranslation false seg v) := by
  obtain ⟨rfl, hg, hcovered, hrest, _, hfree⟩ := buildPageTables_mapped hplan hfresh htables
  have hsame : ∀ v, translate m s.pool.next v = translate s'.mem s.pool.next v := fun v =>
    translate_frame fun n t hr => Mem.getLE_congr fun i hi => by
      have hin := hg.grown.tables.inside hr
      have hle := hg.grown.hi_le
      have hindex := index_lt v n
      exact hkept _ (by omega) (by omega)
  have hlow : ∀ {v x}, Canonical v → lowMap (firstPage unmapNull * 4096) (2 ^ 32) (2 ^ 32) v = some x →
      translate m s.pool.next v = some x := by
    intro v x hv hx
    rw [hsame, hrest v hv fun seg hseg hc => ?_, hx]
    rw [hfree seg hseg v hc] at hx
    cases hx
  refine ⟨fun v hv => hlow hv.canonical (lowMap_identity hv), fun p hp => ?_, fun seg hseg v hc => ?_⟩
  · have hin : InHhdm (hhdmOffset + p) := ⟨Nat.le_add_right _ _, Nat.add_lt_add_left hp _⟩
    rw [hlow hin.canonical (lowMap_hhdm hin), Nat.add_sub_cancel_left]
  · rw [hsame, hcovered seg hseg v hc]

/-- The context of a kernel that has initialised. -/
def arrived (info lo hi : Nat) : Kctx := ⟨info, hhdmOffset, true, lo, hi⟩

/-- The handoff, read at the arena's own address and at the offset. -/
theorem HandedOff.read {m m' kmem : Mem} {arena base count hint lo hi : Nat} {plan : ElfPlan} {er : ExitResult} {b : Builder}
    {out : Option Kctx} (h : HandedOff m arena plan base er count b m') (hlow : arena + arenaBytes ≤ identityLimit)
    (hsees : ∀ v, arena ≤ v → v < arena + arenaBytes → kmem v = m' v ∧ kmem (hhdmOffset + v) = m' v)
    (hout : out ≠ none) (hhint : hint = 0 ∨ hint = hhdmOffset)
    (hwindow : lo < hi → lo ≤ arena + 144 ∧ arena + 272 + 32 * count ≤ hi) :
    (initWin out arena hint lo hi).val kmem = (.ok, some (arrived arena lo hi)) ∧
    (∀ id ∈ servedTags, ((findTag (some (arrived arena lo hi)) id).val kmem).isSome = true) ∧
    (∃ t, (findTag (some (arrived arena lo hi)) tagHhdm).val kmem = some t ∧ get64 kmem (t + 32) = hhdmOffset) ∧
    ∃ t, (findTag (some (arrived arena lo hi)) tagKernelAddress).val kmem = some t ∧
      get64 kmem (t + 32) = plan.physicalBase % 2 ^ 64 ∧ get64 kmem (t + 40) = base % 2 ^ 64 := by
  obtain ⟨hzero, hfits, hused, ⟨haligned, hlow', body, hsealed⟩, _, hhhdm, hphysical, hvirtual, _⟩ := h
  have hbytes := arenaBytes_eq
  have hlimit : identityLimit = 2 ^ 32 := rfl
  have hoffset : hhdmOffset = 2 ^ 64 - 2 ^ 47 := rfl
  have hmap : ∀ {hint}, hint = 0 ∨ hint = hhdmOffset →
      Bootloader.Mapped (handoffArena arena haligned hlow') m' arena kmem arena hint := by
    refine fun {hint} hhint => ⟨fun i hi => ?_, fun i hi => (hsees _ (by omega) (by omega)).1⟩
    change i < arenaBytes - 144 at hi
    change kmem (arena + 144 + hint + i) = m' (arena + 144 + i)
    obtain ⟨hself, hhigh⟩ := hsees (arena + 144 + i) (by omega) (by omega)
    rcases hhint with rfl | rfl
    · exact hself
    · rw [← hhigh]
      exact congrArg kmem (by omega)
  have hread : ∀ {hint} o, hint = 0 ∨ hint = hhdmOffset → o + 8 ≤ arenaBytes - 144 →
      get64 kmem (arena + 144 + hint + o) = get64 m' (arena + 144 + o) := fun o hhint ho =>
    Mem.getLE_congr fun i hi => by
      rw [Nat.add_assoc _ o, Nat.add_assoc _ o]
      exact (hmap hhint).arena _ (by change o + i < arenaBytes - 144; omega)
  have hfinds : ∀ {hint}, hint = 0 ∨ hint = hhdmOffset → ∀ id, _ := fun {hint} hhint =>
    hsealed.finds hzero (by change arena + 144 + hint + (arenaBytes - 144) < 2 ^ 64; omega) (hmap hhint)
      fun hlt : lo < hi => by
        have := hwindow hlt
        change lo ≤ arena + 144 ∧ arena + 144 + b.used ≤ hi
        omega
  have hhhdmAt : ∀ hint, hint = 0 ∨ hint = hhdmOffset →
      (findTag (some ⟨arena, hint, true, lo, hi⟩) tagHhdm).val kmem = some (arena + 144 + 0 + hint) ∧
        get64 kmem (arena + 144 + 0 + hint + 32) = hhdmOffset := fun hint hhint => by
    rw [← hhhdm, Nat.add_right_comm _ 0, Nat.add_zero, hread 32 hhint (by omega)]
    exact ⟨hfinds hhint tagHhdm, rfl⟩
  -- without a hint, the offset is the one the HHDM tag names
  have hlater : laterOffset kmem ⟨arena, hint, true, lo, hi⟩ = hhdmOffset := by
    rcases hhint with rfl | rfl
    · have hsize := ((hmap (Or.inl rfl)).record hsealed.inv List.mem_cons_self).size
      obtain ⟨hfind, hvalue⟩ := hhhdmAt 0 (Or.inl rfl)
      rw [laterOffset, hfind]
      exact (if_pos ⟨rfl, Nat.le_of_eq hsize.symm⟩).trans hvalue
    · exact laterOffset_of_hint kmem (show hhdmOffset ≠ 0 by decide)
  refine ⟨?_, fun id hid => ?_, ⟨_, hhhdmAt hhdmOffset (Or.inr rfl)⟩,
    arena + 144 + hhdmOffset + (80 + 32 * count), ?_, ?_, ?_⟩
  · rw [initWin_val hout hzero kmem hint lo hi (hsealed.infoOk.congr (hmap (Or.inl rfl)).info), hlater]
    rfl
  · rw [arrived, hfinds (Or.inr rfl)]
    simp only [servedTags, List.mem_cons, List.not_mem_nil, or_false] at hid
    rcases hid with rfl | rfl | rfl <;> rfl
  · rw [arrived, hfinds (Or.inr rfl), Nat.add_right_comm, Nat.mul_comm 32]
    rfl
  · rw [Nat.add_assoc, hread _ (Or.inr rfl) (by omega), ← hphysical]
    exact congrArg _ (by omega)
  · rw [Nat.add_assoc, hread _ (Or.inr rfl) (by omega), ← hvirtual]
    exact congrArg _ (by omega)

/-- A kernel the loader has accepted finds every tag it requires, and what
the tags say about its addresses is true of the tables it runs on. -/
theorem kernel_receives {image : Image} {plan : ElfPlan} {s s' : Space} {m m₁ m₂ kmem : Mem} {er : ExitResult}
    {b : Builder} {out : Option Kctx} {header arena info pml4 hint lo hi : Nat}
    (hplan : planImage image = .ok plan) (hcontract : validateHeaderContract m header plan = true)
    (hfresh : s.pool.Fresh s.mem)
    (htables : buildPageTables s plan false (get64 m (header + 24) &&& 4 ≠ 0) = some (pml4, s'))
    (hkept : ∀ a, s.pool.next ≤ a → a < s.pool.stop → m₁ a = s'.mem a)
    (hapart : arena + arenaBytes ≤ s.pool.next ∨ s.pool.stop ≤ arena)
    (hguard : 4096 ≤ arena) (hlow : arena + arenaBytes ≤ identityLimit) (hclear : er.Clear arena er.count)
    (hhandoff : buildHandoff m₁ arena plan (get64 m (header + 48)) er = some (info, b, m₂))
    (hsees : Sees kmem m₂ pml4) (hout : out ≠ none) (hhint : hint = 0 ∨ hint = hhdmOffset)
    (hwindow : lo < hi → lo ≤ arena + 144 ∧ arena + 272 + 32 * er.count ≤ hi) :
    (initWin out info hint lo hi).val kmem = (.ok, some (arrived info lo hi)) ∧
    (∀ r ∈ requests m header, r.flags = 0 → ((findTag (some (arrived info lo hi)) r.tagId).val kmem).isSome = true) ∧
    (∃ t, (findTag (some (arrived info lo hi)) tagHhdm).val kmem = some t ∧
      ∀ p < identityLimit, translate m₂ pml4 (get64 kmem (t + 32) + p) = some ⟨p, true, false⟩) ∧
    ∃ t x, (findTag (some (arrived info lo hi)) tagKernelAddress).val kmem = some t ∧
      get64 kmem (t + 40) = get64 m (header + 48) ∧ translate m₂ pml4 (get64 m (header + 48)) = some x ∧
      x.physical = get64 kmem (t + 32) := by
  have hlimit : identityLimit = 2 ^ 32 := rfl
  obtain ⟨_, _, _, hne, hbase, _, _, _, hsound, _⟩ := validateHeaderContract_iff.mp hcontract
  obtain ⟨seg, hseg, hpages, hpageBase, hvirtualPage⟩ := actualVirtualBase_eq hplan (hbase ▸ hne)
  have hplanned := planned_segment hplan hseg
  have hpage := hplanned.pageBase
  have hoffsets := hplanned.offsets
  have hend := hplanned.physicalEnd_le
  have hcovers : seg.Covers (get64 m (header + 48)) := (covers_iff hplanned).mpr (by omega)
  have hphysical := segmentTranslation_physical hplanned false hcovers
  obtain ⟨_, rfl, hdone⟩ := buildHandoff_handedOff (by omega) hclear hhandoff
  obtain ⟨hidentity, hhigh, hsegments⟩ := buildPageTables_kept hplan hfresh htables fun a hge hlt =>
    (hdone.outside a (by omega)).trans (hkept a hge hlt)
  obtain ⟨hinit, hserved, ⟨t, hfind, hvalue⟩, t', hfind', hphys, hvirt⟩ := hdone.read hlow (fun v hge hlt =>
    ⟨hsees v _ (hidentity v (by unfold InIdentity identityStart; split <;> omega)), hsees _ _ (hhigh v (by omega))⟩)
    hout hhint hwindow
  rw [Nat.mod_eq_of_lt (by omega)] at hphys
  rw [Nat.mod_eq_of_lt (get64_lt m _)] at hvirt
  refine ⟨hinit, fun r hr hrequired => ?_, ⟨t, hfind, by rw [hvalue]; exact hhigh⟩,
    t', _, hfind', hvirt, hsegments seg hseg _ hcovers, by omega⟩
  exact hserved _ ((hsound r hr).served.resolve_right (by omega))

/-- A header at `0x200100` that asks for the three tags. -/
def contractMem : Mem :=
  let m := put64 (put64 (put64 Mem.zeros 0x200118 4) 0x200120 0xffffffff80200000) 0x200128 1
  let m := put64 (put32 (put64 m 0x200130 0xffffffff80200000) 0x200138 3) 0x200140 0x200200
  put64 (put64 (put64 m 0x200200 tagHhdm) 0x200218 tagMemoryMap) 0x200230 tagKernelAddress

theorem kernel_receives_contract :
    ∃ m₂ kmem pml4 t x, (findTag (some (arrived 0x400000 0x400090 0x400130)) tagKernelAddress).val kmem = some t ∧
      get64 kmem (t + 40) = get64 contractMem (0x200100 + 48) ∧
      translate m₂ pml4 (get64 contractMem (0x200100 + 48)) = some x ∧ x.physical = get64 kmem (t + 32) := by
  have hplan : planImage (kernelImage 0xffffffff80201000) = .ok (kernelPlan 0xffffffff80201000) := by decide +kernel
  obtain ⟨pml4, s', htables⟩ := kernel_builds hplan (Or.inr rfl) zeroedSpace_fresh false
  -- one descriptor of the final map: 16 pages of conventional memory at 1 MiB
  obtain ⟨m₁, hm₁⟩ : ∃ m₁, m₁ = put64 (put64 (put32 s'.mem 0x1000 7) 0x1008 0x100000) 0x1018 16 := ⟨_, rfl⟩
  have hdescriptor : descriptorAt m₁ (mapExit.descriptor 0) = ⟨7, 0x100000, 16, get64 s'.mem 0x1020⟩ := by
    simp only [hm₁, descriptorAt, ExitResult.descriptor, mapExit, Descriptor.mk.injEq]
    simp (disch := omega) only [get64, get32, put64, put32, Mem.getLE_putLE_frame, Mem.getLE_putLE]
    decide
  have htaken : ∀ i < mapExit.count, (descriptorAt m₁ (mapExit.descriptor i)).Taken := by
    intro i hi
    rw [show i = 0 from Nat.lt_one_iff.mp hi, hdescriptor]
    have hstop : Descriptor.stop ⟨7, 0x100000, 16, get64 s'.mem 0x1020⟩ = 0x110000 := by simp only [Descriptor.stop]
    exact ⟨(by decide : 16 ≠ 0), by rw [hstop]; decide, fun _ _ _ => by rw [hstop]; decide⟩
  obtain ⟨⟨info, b, m₂⟩, hhandoff⟩ := buildHandoff_total m₁ 0x400000 (get64 contractMem (0x200100 + 48))
    (kernelPlan 0xffffffff80201000) mapExit (by decide)
    (by decide) (by decide) (by decide) (by decide) rfl (by decide) (by decide) rfl (by decide) htaken
  obtain ⟨_, rfl, _⟩ := buildHandoff_handedOff (by decide) (by decide) hhandoff
  have hflag : decide (get64 contractMem (0x200100 + 24) &&& 4 ≠ 0) = true := by decide +kernel
  have hsees : Sees (fun v => m₂ ((translate m₂ pml4 v).elim 0 (·.physical))) m₂ pml4 :=
    fun v x hx => congrArg (fun y : Option Translation => m₂ (y.elim 0 (·.physical))) hx
  obtain ⟨_, _, _, t, x, h⟩ := kernel_receives hplan (by decide +kernel) zeroedSpace_fresh (hflag ▸ htables)
    (fun a (hge : 0x1000000 ≤ a) _ => by simp (disch := omega) only [hm₁, put64, put32, Mem.putLE_frame])
    (Or.inl (by decide)) (by decide) (by decide) (by decide) hhandoff hsees (Option.some_ne_none ⟨0, 0, false, 0, 0⟩)
    (Or.inl rfl) fun _ : 0x400090 < 0x400130 => by decide
  exact ⟨_, _, _, t, x, h⟩

end BearBoot.Loader
