import BearBoot.Loader.Mapping

/-!
# When the page tables can be built

`build_page_tables` fails for two reasons only: the pool is empty, or a
page is mapped already. So it succeeds when the pool has fifteen pages for
the first four gibibytes and three for every page of a segment, and the
segments keep to virtual pages of their own (`buildPageTables_total`).

`PagePool.Has pool k` is a pool with `k` pages left; each function says how
many of them it takes.
-/

set_option autoImplicit false

namespace BearBoot.Loader

open Machine Machine.Paging

/-- `k` pages are left, and the pool is not at address 0. -/
structure PagePool.Has (pool : PagePool) (k : Nat) : Prop where
  base : pool.base ≠ 0
  left : pool.used + k ≤ pool.count

theorem PagePool.Has.mono {pool : PagePool} {k j : Nat} (h : pool.Has k) (hj : j ≤ k) : pool.Has j :=
  ⟨h.base, Nat.le_trans (Nat.add_le_add_left hj _) h.left⟩

theorem tableNew_has {pool : PagePool} {k : Nat} (h : pool.Has (k + 1)) :
    tableNew pool = (pool.next, pool.taken) ∧ pool.next ≠ 0 ∧ pool.taken.Has k := by
  obtain ⟨hbase, hleft⟩ := h
  refine ⟨?_, ?_, hbase, ?_⟩
  · unfold tableNew
    rw [if_neg (by omega)]
    rfl
  · unfold PagePool.next
    omega
  · unfold PagePool.taken
    dsimp only
    omega

/-! ## The first four gibibytes -/

section Low

variable {gb identityPd hhdmPd mb k : Nat} {unmapNull : Bool} {s : Space}

/-- The first two mebibytes take a page for their table. -/
theorem mapLarge_has (h : s.pool.Has (k + 1)) :
    ∃ s', mapLarge gb identityPd hhdmPd unmapNull mb s = some s' ∧ s'.pool.Has k := by
  unfold mapLarge
  dsimp only
  split
  · exact ⟨_, rfl, h.mono (Nat.le_succ k)⟩
  · obtain ⟨hnew, hne, hhas⟩ := tableNew_has h
    rw [hnew]
    dsimp only
    rw [if_neg hne]
    exact ⟨_, rfl, hhas⟩

/-- The others take none. -/
theorem mapLarge_keeps (hmb : mb ≠ 0) (h : s.pool.Has k) :
    ∃ s', mapLarge gb identityPd hhdmPd unmapNull mb s = some s' ∧ s'.pool.Has k := by
  unfold mapLarge
  dsimp only
  rw [if_pos (by omega)]
  exact ⟨_, rfl, h⟩

theorem mapGigabyte_has {identityPdpt hhdmPdpt : Nat} (h : s.pool.Has (k + 3)) :
    ∃ s', mapGigabyte identityPdpt hhdmPdpt unmapNull gb s = some s' ∧ s'.pool.Has k := by
  obtain ⟨hnew, hne, hhas⟩ := tableNew_has h
  obtain ⟨hnew', hne', hhas'⟩ := tableNew_has hhas
  unfold mapGigabyte
  rw [hnew]
  dsimp only
  rw [hnew']
  dsimp only
  rw [if_neg (not_or.mpr ⟨hne, hne'⟩)]
  obtain ⟨s', hloop, hinv⟩ := forUpTo_total (mapLarge gb s.pool.next s.pool.taken.next unmapNull) 512
    ⟨s.pool.taken.taken, _⟩ (fun mb s => s.pool.Has (if mb = 0 then k + 1 else k)) hhas' fun mb _ b hb => by
      rw [if_neg (Nat.succ_ne_zero mb)]
      by_cases hmb : mb = 0
      · rw [if_pos hmb] at hb
        exact mapLarge_has hb
      · rw [if_neg hmb] at hb
        exact mapLarge_keeps hmb hb
  exact ⟨s', hloop, hinv⟩

theorem mapLow_has (h : s.pool.Has (k + 15)) :
    ∃ pml4 s', mapLow s unmapNull = some (pml4, s') ∧ s'.pool.Has k := by
  obtain ⟨hnew, hne, hhas⟩ := tableNew_has h
  obtain ⟨hnew', hne', hhas'⟩ := tableNew_has hhas
  obtain ⟨hnew'', hne'', hhas''⟩ := tableNew_has hhas'
  unfold mapLow
  rw [hnew]
  dsimp only
  rw [hnew']
  dsimp only
  rw [hnew'']
  dsimp only
  rw [if_neg (not_or.mpr ⟨hne, not_or.mpr ⟨hne', hne''⟩⟩)]
  obtain ⟨s', hloop, hinv⟩ := forUpTo_total (mapGigabyte s.pool.taken.next s.pool.taken.taken.next unmapNull) 4
    ⟨s.pool.taken.taken.taken, _⟩ (fun gb s => s.pool.Has (k + (4 - gb) * 3)) hhas'' fun gb hgb b hb => by
      have hstep : k + (4 - gb) * 3 = k + (4 - (gb + 1)) * 3 + 3 := by omega
      rw [hstep] at hb
      exact mapGigabyte_has hb
  rw [hloop]
  exact ⟨s.pool.next, s', rfl, hinv⟩

end Low

/-! ## One page -/

section Page

variable {m₀ : Mem} {root stop v k : Nat} {s : Space}

theorem ensureLink_has (h : s.pool.Has (k + 1)) (a : Nat) : ∃ s', ensureLink s a = some s' ∧ s'.pool.Has k := by
  unfold ensureLink
  split
  · obtain ⟨hnew, hne, hhas⟩ := tableNew_has h
    rw [hnew]
    dsimp only
    rw [if_neg hne]
    exact ⟨_, rfl, hhas⟩
  · exact ⟨s, rfl, h.mono (Nat.le_succ k)⟩

/-- Nothing is in the way of an address that is not mapped. -/
theorem descend_has {n table : Nat} (h : Growing m₀ root stop s) (hr : Reach s.mem root v n table)
    (hnone : translate s.mem root v = none) (hhas : s.pool.Has (k + n)) :
    ∃ table' s', descend v s table (levelShifts n) = some (table', s') ∧ s'.pool.Has k := by
  induction n generalizing s table with
  | zero => exact ⟨table, s, rfl, hhas⟩
  | succ n ih =>
    obtain ⟨s₁, hlink, hhas₁⟩ := ensureLink_has hhas (slot table (index v (n + 1)))
    obtain ⟨h₁, htranslate, hr₁, hp⟩ := ensureLink_spec h hr hlink
    have hnone₁ := (htranslate v).trans hnone
    have hsmall := h₁.grown.tables.not_large hr₁ hnone₁ hp
    have hnext := Reach.link hr₁ hp hsmall
    rw [← and_address] at hnext
    obtain ⟨table', s', hdown, hhas'⟩ := ih h₁ hnext hnone₁ hhas₁
    refine ⟨table', s', ?_, hhas'⟩
    simp only [levelShifts, descend, index_bits, hlink]
    exact (if_neg (not_not.mpr ((and_large _).mpr hsmall))).trans hdown

theorem mapPage_has {p flags : Nat} (h : Growing m₀ root stop s) (hnone : translate s.mem root v = none)
    (hhas : s.pool.Has (k + 3)) : ∃ s', mapPage s root v p flags = some s' ∧ s'.pool.Has k := by
  obtain ⟨table, s₁, hdown, hhas₁⟩ := descend_has (n := 3) h .root hnone hhas
  obtain ⟨h₁, htranslate, hr⟩ := descend_spec (n := 3) h .root hdown
  have hdown : descend v s root [39, 30, 21] = some (table, s₁) := hdown
  have habsent := h₁.grown.tables.absent hr ((htranslate v).trans hnone)
  have hslot : (v >>> 12) &&& 0x1ff = index v 0 := index_bits v 0
  unfold mapPage
  rw [hdown, hslot]
  dsimp only
  exact ⟨_, if_neg (not_not.mpr ((and_present _).mpr habsent)), hhas₁⟩

end Page

/-! ## Segments -/

section Segments

variable {m₀ : Mem} {root stop size k : Nat} {enableNx : Bool} {s : Space}

theorem mapSegment_has {seg : SegmentPlan} (h : Growing m₀ root stop s) (hseg : seg.Planned size)
    (hfree : ∀ u, seg.Covers u → translate s.mem root u = none)
    (hhas : s.pool.Has (k + seg.pageCount * 3)) :
    ∃ s', mapSegment root enableNx s seg = some s' ∧ s'.pool.Has k := by
  obtain ⟨s', hloop, _, hleft⟩ := forUpTo_total
    (fun page s => mapPage s root ((virtualPage seg + page * pageSize) % 2 ^ 64)
      (seg.pageBase + page * pageSize) (segmentFlags enableNx seg)) seg.pageCount s
    (fun i b => PagesMapped m₀ root stop enableNx seg s i b ∧ b.pool.Has (k + (seg.pageCount - i) * 3))
    ⟨PagesMapped.start h, hhas⟩ fun i hi b hb => by
      obtain ⟨hpages, hleft⟩ := hb
      obtain ⟨hv, hcanon⟩ := pageAddress_eq hseg hi
      have hnone : translate b.mem root ((virtualPage seg + i * pageSize) % 2 ^ 64) = none := by
        rw [hv, hpages.outside _ hcanon (by omega)]
        exact hfree _ ((covers_iff hseg).mpr (by omega))
      have hstep : k + (seg.pageCount - i) * 3 = k + (seg.pageCount - (i + 1)) * 3 + 3 := by omega
      rw [hstep] at hleft
      obtain ⟨b', hpage, hleft'⟩ := mapPage_has hpages.growing hnone hleft
      exact ⟨b', hpage, hpages.step hseg hi hpage, hleft'⟩
  refine ⟨s', hloop, ?_⟩
  rw [Nat.sub_self, Nat.zero_mul, Nat.add_zero] at hleft
  exact hleft

/-- How many pages some segments have. -/
def pageTotal (segs : List SegmentPlan) : Nat := (segs.map SegmentPlan.pageCount).sum

theorem mapSegments_has {low : Nat → Option Translation} {done segs : List SegmentPlan}
    (hg : Growing m₀ root stop s) (hmapped : Mapped enableNx low (translate s.mem root) done)
    (hdone : ∀ x ∈ done, x.Planned size) (hsegs : ∀ x ∈ segs, x.Planned size)
    (hapart : (done ++ segs).Pairwise fun x y => ∀ v, ¬ (x.Covers v ∧ y.Covers v))
    (hfree : ∀ x ∈ segs, ∀ v, x.Covers v → low v = none) (hhas : s.pool.Has (pageTotal segs * 3)) :
    ∃ s', segs.foldlM (mapSegment root enableNx) s = some s' := by
  induction segs generalizing done s with
  | nil => exact ⟨s, rfl⟩
  | cons seg segs ih =>
    have hseg := hsegs seg List.mem_cons_self
    have hnone : ∀ u, seg.Covers u → translate s.mem root u = none := fun u hc => by
      have hother : ∀ x ∈ done, ¬ x.Covers u := fun x hx hcx =>
        (List.pairwise_append.mp hapart).2.2 x hx seg List.mem_cons_self u ⟨hcx, hc⟩
      rw [hmapped.rest u (Covers.canonical hseg hc) hother]
      exact hfree seg List.mem_cons_self u hc
    have htotal : pageTotal (seg :: segs) * 3 = pageTotal segs * 3 + seg.pageCount * 3 := by
      simp only [pageTotal, List.map_cons, List.sum_cons]
      omega
    rw [htotal] at hhas
    obtain ⟨s₁, hone, hhas₁⟩ : ∃ s₁, mapSegment root enableNx s seg = some s₁ ∧
        s₁.pool.Has (pageTotal segs * 3) := mapSegment_has hg hseg hnone hhas
    obtain ⟨hg₁, hbefore, hafter, hkeep⟩ := mapSegment_spec hg hseg hone
    have hdone' : ∀ x ∈ done ++ [seg], x.Planned size :=
      List.forall_mem_append.mpr ⟨hdone, List.forall_mem_singleton.mpr hseg⟩
    obtain ⟨s', hrest⟩ := ih hg₁ (hmapped.push hseg hdone hbefore hafter hkeep) hdone'
      (fun x hx => hsegs x (List.mem_cons_of_mem _ hx)) (by rw [List.append_assoc]; exact hapart)
      (fun x hx => hfree x (List.mem_cons_of_mem _ hx)) hhas₁
    refine ⟨s', ?_⟩
    rw [List.foldlM_cons, hone]
    exact hrest

end Segments

/-- Page tables can be built in a pool that is large enough, for segments that
keep to pages of their own. -/
theorem buildPageTables_total {s : Space} {plan : ElfPlan} {enableNx unmapNull : Bool} {size : Nat}
    (hf : s.pool.Fresh s.mem) (hplanned : ∀ x ∈ plan.segments, x.Planned size)
    (hapart : plan.segments.Pairwise fun x y => ∀ v, ¬ (x.Covers v ∧ y.Covers v))
    (hfree : ∀ x ∈ plan.segments, ∀ v, x.Covers v →
      lowMap (firstPage unmapNull * 4096) (2 ^ 32) (2 ^ 32) v = none)
    (hhas : s.pool.Has (pageTotal plan.segments * 3 + 15)) :
    ∃ pml4 s', buildPageTables s plan enableNx unmapNull = some (pml4, s') := by
  obtain ⟨pml4, s₁, hlow, hhas₁⟩ : ∃ pml4 s₁, mapLow s unmapNull = some (pml4, s₁) ∧
      s₁.pool.Has (pageTotal plan.segments * 3) := mapLow_has hhas
  obtain ⟨_, hg, hmap⟩ := mapLow_spec hf hlow
  obtain ⟨s', hsegments⟩ : ∃ s', plan.segments.foldlM (mapSegment pml4 enableNx) s₁ = some s' :=
    mapSegments_has hg ⟨fun _ hx => absurd hx List.not_mem_nil, fun v _ _ => hmap v, List.Pairwise.nil,
      fun _ hx => absurd hx List.not_mem_nil⟩ (fun _ hx => absurd hx List.not_mem_nil) hplanned hapart hfree
      hhas₁
  refine ⟨pml4, s', ?_⟩
  simp only [buildPageTables, hlow, hsegments]

end BearBoot.Loader
