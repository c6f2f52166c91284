import BearBoot.Import.Faithful
import BearBoot.Loader.Handoff

/-!
# Two producers of one memory map

The loader's `build_handoff` and the importer's `bbp_import_uefi_hobs` both
turn a final UEFI memory map into a MEMORY_MAP tag, with a check, a loop and
two tables each. This module puts them side by side: both emit one such tag,
with an entry for each descriptor (`handoffEntry`, `importEntry`), and the
entries differ only in the attributes.

The tables of types are the same. The tables of attributes are not: the
loader takes `EFI_MEMORY_WP`, a cacheability attribute, for a write
protection, and drops WRITABLE for it; the importer drops WRITABLE for
`EFI_MEMORY_RO` alone. So the two tags show the same entries exactly when every
descriptor with WP has RO as well (`producers_agree_iff`), and
`producers_differ` is a map of one descriptor on which they do not.
-/

set_option autoImplicit false

namespace BearBoot.Loader

open Machine Bootloader Import

/-- The entry `emit_memory_map` makes of a descriptor. -/
def importEntry (d : Descriptor) : MemoryEntry :=
  ⟨d.physicalStart, d.numberOfPages * 4096, uefiMemoryType d.type, uefiAttributes d.attributes⟩

/-! ## The tables -/

theorem memoryType_eq (t : Nat) : memoryType t = uefiMemoryType t := rfl

/-- A descriptor with WP and without RO. -/
def Descriptor.WriteProtectedOnly (d : Descriptor) : Prop :=
  d.attributes &&& efiMemoryWp ≠ 0 ∧ d.attributes &&& efiMemoryRo = 0

instance (d : Descriptor) : Decidable d.WriteProtectedOnly := inferInstanceAs (Decidable (_ ∧ _))

/-- The attributes of an entry, one flag for each bit. -/
def attributeBits (readable writable executable cached combining uncached : Bool) : Nat :=
  let result := 0
  let result := if readable then result ||| 1 else result
  let result := if writable then result ||| 2 else result
  let result := if executable then result ||| 4 else result
  let result := if cached then result ||| 8 else result
  let result := if combining then result ||| 16 else result
  if uncached then result ||| 32 else result

theorem attributeBits_writable (r w w' x c k u : Bool) :
    attributeBits r w x c k u = attributeBits r w' x c k u ↔ w = w' := by
  revert r w w' x c k u
  decide

theorem attributeBits_lt (r w x c k u : Bool) : attributeBits r w x c k u < 2 ^ 32 := by
  revert r w x c k u
  decide

theorem memoryAttributes_eq (a : Nat) : memoryAttributes a =
    attributeBits (a &&& efiMemoryRp = 0) (a &&& (efiMemoryWp ||| efiMemoryRo) = 0) (a &&& efiMemoryXp = 0)
      (a &&& (efiMemoryWt ||| efiMemoryWb) ≠ 0) (a &&& efiMemoryWc ≠ 0) (a &&& (efiMemoryUc ||| efiMemoryUce) ≠ 0) := by
  simp only [memoryAttributes, attributeBits, decide_eq_true_eq]

theorem uefiAttributes_eq (a : Nat) : uefiAttributes a =
    attributeBits (a &&& efiMemoryRp = 0) (a &&& efiMemoryRo = 0) (a &&& efiMemoryXp = 0)
      (a &&& (efiMemoryWt ||| efiMemoryWb) ≠ 0) (a &&& efiMemoryWc ≠ 0) (a &&& (efiMemoryUc ||| efiMemoryUce) ≠ 0) := by
  have hrp : 2 ^ 13 = efiMemoryRp := rfl
  have hro : 2 ^ 17 = efiMemoryRo := rfl
  have hxp : 2 ^ 14 = efiMemoryXp := rfl
  have hw : 2 ^ 3 ||| 2 ^ 2 = efiMemoryWt ||| efiMemoryWb := rfl
  have hwc : 2 ^ 1 = efiMemoryWc := rfl
  have huc : 2 ^ 0 ||| 2 ^ 4 = efiMemoryUc ||| efiMemoryUce := rfl
  simp only [uefiAttributes, attributeBits, decide_eq_true_eq, hrp, hro, hxp, hw, hwc, huc]

theorem uefiAttributes_lt (a : Nat) : uefiAttributes a < 2 ^ 32 := by
  rw [uefiAttributes_eq]
  exact attributeBits_lt ..

/-- The two tables part on WRITABLE, for WP without RO, and nowhere else. -/
theorem memoryAttributes_eq_iff (d : Descriptor) :
    memoryAttributes d.attributes = uefiAttributes d.attributes ↔ ¬ d.WriteProtectedOnly := by
  rw [memoryAttributes_eq, uefiAttributes_eq, attributeBits_writable, decide_eq_decide, Nat.and_or_distrib_left,
    Nat.or_eq_zero_iff, Descriptor.WriteProtectedOnly]
  tauto

theorem handoffEntry_eq_iff {plan : ElfPlan} {d : Descriptor} (h : ¬ d.Overlaps plan) :
    handoffEntry plan d = importEntry d ↔ ¬ d.WriteProtectedOnly := by
  simp only [handoffEntry, importEntry, if_neg h, memoryType_eq, MemoryEntry.mk.injEq, true_and]
  exact memoryAttributes_eq_iff d

/-! ## The importer's tag -/

section Import

variable {b : Builder} {m : Mem} {s : UefiSnapshot} {count : Nat}

/-- The descriptors of the importer's map. -/
def importDescriptor (s : UefiSnapshot) (i : Nat) : Nat := s.memoryMap + i * s.descriptorStride

/-- One turn of `emit_memory_map`'s loop. -/
def putUefiEntry (source entry : Nat) (m : Mem) : Mem :=
  let m := put64 m entry (get64 m (source + 8))
  let m := put64 m (entry + 8) (get64 m (source + 24) * 4096)
  let m := put32 m (entry + 16) (uefiMemoryType (get32 m source))
  put32 m (entry + 20) (uefiAttributes (get64 m (source + 32)))

theorem putUefiEntry_frame {source entry a : Nat} {m : Mem} (h : a < entry ∨ entry + 24 ≤ a) :
    putUefiEntry source entry m a = m a := by
  simp (disch := omega) only [putUefiEntry, put64, put32, Mem.putLE_frame]

/-- A turn on a memory that shows the source. -/
theorem putUefiEntry_shown {F : Mem} {source entry : Nat} (hF : ∀ j < 40, F (source + j) = m (source + j))
    (hclear : source + 40 ≤ entry ∨ entry + 24 ≤ source) (hpages : get64 m (source + 24) * 4096 < 2 ^ 64) :
    entryAt (putUefiEntry source entry F) entry = importEntry (descriptorAt m source) := by
  have hshown : descriptorAt m source = descriptorAt F source := descriptorAt_shift fun j hj => (hF j hj).symm
  have hlength : get64 m (source + 24) = get64 F (source + 24) := congrArg Descriptor.numberOfPages hshown
  have htype : uefiMemoryType (get32 F source) < 2 ^ 32 := memoryType_lt _
  have hattributes := uefiAttributes_lt (get64 F (source + 32))
  have hstart := get64_lt F (source + 8)
  rw [hlength] at hpages
  rw [hshown, entryAt, putUefiEntry]
  -- The stores miss the descriptor, so every field is read as it was.
  simp (disch := omega) only [get64, get32, put64, put32, Mem.getLE_putLE_frame] at hpages htype hattributes hstart ⊢
  simp (disch := omega) only [Mem.getLE_putLE]
  rfl

/-- What the check of the map has seen. -/
theorem validateMemoryMap_ok (h : validateMemoryMap m s = .ok count) :
    count = s.memoryMapBytes / s.descriptorStride ∧ 40 ≤ s.descriptorStride ∧ count < 2 ^ 32 ∧
      ∀ i < count, get64 m (importDescriptor s i + 24) * 4096 < 2 ^ 64 := by
  have hmax : Import.sizeMax = 2 ^ 64 - 1 := rfl
  have hmax32 : u32Max = 2 ^ 32 - 1 := rfl
  unfold validateMemoryMap at h
  simp only [ok_bind_iff, refuse_ok_iff, exists_const, pure_ok_iff, not_or] at h
  obtain ⟨_, _, hstride, _, hcount, _, hloop, rfl⟩ := h
  refine ⟨rfl, by omega, by omega, ?_⟩
  refine forUpTo_kept (fun n _ => ∀ i < n, get64 m (importDescriptor s i + 24) * 4096 < 2 ^ 64)
    (fun i hi => absurd hi (Nat.not_lt_zero i)) (fun n _ _ _ hinv hturn i hi => ?_) hloop
  simp only [ok_bind_iff, refuse_ok_iff, exists_const, not_or] at hturn
  rcases Nat.lt_succ_iff_lt_or_eq.mp hi with hi | rfl
  · exact hinv i hi
  · unfold importDescriptor
    have := hturn.1.2
    omega

/-- The stores of the tag: entry after entry, each from a descriptor that no
store has touched. -/
theorem uefiMemoryMap_fill {m₁ : Mem} {tag : Nat} (size phys : Nat) (hcount : count < 2 ^ 32)
    (hsource : ∀ i < count, ∀ j < 40, m₁ (importDescriptor s i + j) = m (importDescriptor s i + j))
    (hclear : ∀ i < count, importDescriptor s i + 40 ≤ tag + 32 ∨ tag + 40 + 32 * count ≤ importDescriptor s i)
    (hpages : ∀ i < count, get64 m (importDescriptor s i + 24) * 4096 < 2 ^ 64) :
    mapEntries ((uefiMemoryMap s count size).fill phys tag m₁) tag =
      (List.range count).map fun i => importEntry (descriptorAt m (importDescriptor s i)) := by
  have hfill : (uefiMemoryMap s count size).fill phys tag m₁ =
      storeLoop (fun i => putUefiEntry (importDescriptor s i) (tag + 40 + 32 * i)) (count % 2 ^ 32)
        (put32 (put32 m₁ (tag + 32) count) (tag + 36) 32) := rfl
  generalize hm₂ : put32 (put32 m₁ (tag + 32) count) (tag + 36) 32 = m₂ at hfill
  have hframe : ∀ a, a < tag + 32 ∨ tag + 40 ≤ a → m₂ a = m₁ a := by
    intro a ha
    rw [← hm₂]
    simp (disch := omega) only [put32, Mem.putLE_frame]
  have hbound : get32 m₂ (tag + 32) = count := by
    rw [← hm₂]
    simp (disch := omega) only [get32, put32, Mem.getLE_putLE_frame, Mem.getLE_putLE]
  rw [hfill, Nat.mod_eq_of_lt hcount, mapEntries]
  have hshown : get32 (storeLoop (fun i => putUefiEntry (importDescriptor s i) (tag + 40 + 32 * i)) count m₂)
      (tag + 32) = count := by
    rw [← hbound]
    refine Mem.getLE_congr fun j hj => storeLoop_frame fun i hi m => putUefiEntry_frame (by omega)
  rw [hshown]
  refine List.map_congr_left fun i hi => ?_
  have hi := List.mem_range.mp hi
  have hapart := hclear i hi
  -- the turn that writes the entry, on what the turns before it have left
  rw [entryAt_shift fun j hj => storeLoop_apply hi fun k hk _ m => putUefiEntry_frame (by omega)]
  refine putUefiEntry_shown (fun j hj => ?_) (by omega) (hpages i hi)
  rw [storeLoop_frame fun k hk m => putUefiEntry_frame (by omega), hframe _ (by omega), hsource i hi j hj]

theorem filter_objectIf (present : Bool) (o : Object) (id : Nat) :
    (objectIf present o).filter (fun o => decide (o.id = id)) = if present = true ∧ o.id = id then [o] else [] := by
  cases present with
  | false => rfl
  | true => rw [objectIf, if_pos rfl, List.filter_singleton]; simp

theorem uefiObjects_memoryMap (sizes : UefiSizes) (h : has s.present hasMemoryMap = true) :
    (uefiObjects s sizes).filter (fun o => decide (o.id = tagMemoryMap)) =
      [uefiMemoryMap s sizes.mapCount sizes.mapTagSize] := by
  simp only [uefiObjects, List.filter_append, filter_objectIf]
  simp [tagHhdm, tagMemoryMap, tagKernelAddress, tagCmdline, tagFramebuffer, tagAcpi, tagEfi, tagSmbios,
    tagIdOf, h]

/-- What the importer's check has seen of a map that is asked for. -/
theorem uefiCheck_map {snapshot : Nat} {sizes : UefiSizes} (h : uefiCheck b m s snapshot = .ok sizes)
    (hmap : has s.present hasMemoryMap = true) :
    Import.rangesOverlap s.memoryMap s.memoryMapBytes b.arena b.capacity = false ∧
      validateMemoryMap m s = .ok sizes.mapCount ∧ sizes.mapTagSize = 40 + sizes.mapCount * 32 := by
  unfold uefiCheck at h
  simp only [ok_bind_iff, refuse_ok_iff, exists_const, pure_ok_iff] at h
  obtain ⟨_, _, _, plan₀, _, count, hcount, mapSize, hsize, _, _, _, _, _, _, _, _, plan, _, rfl⟩ := h
  have hboth : has s.present (hasMemoryMap ||| hasEfi) = true := by
    rw [Nat.or_comm]
    exact has_or hmap
  rw [uefiMapCount, if_pos hboth, ok_bind_iff] at hcount
  simp only [refuse_ok_iff, exists_const, Bool.not_eq_true] at hcount
  rw [uefiMapTagSize, if_pos hmap] at hsize
  exact ⟨hcount.1, hcount.2, (arrayTagSize_ok hsize).2⟩

/-- The entries of the tag an import has left in its arena. -/
theorem importedMap_entries {A : Arena} {m' : Mem} {blobs : List Blob} {r : Record} {size used : Nat}
    (hr : Emitted A m blobs (uefiMemoryMap s count size) r) (hsize : size = 40 + count * 32)
    (hstands : r.Stands A used m') (hused : used ≤ A.capacity) (hcount : count < 2 ^ 32)
    (hclear : ∀ i < count, A.Outside (importDescriptor s i) 40)
    (hpages : ∀ i < count, get64 m (importDescriptor s i + 24) * 4096 < 2 ^ 64) :
    mapEntries m' (A.ptr + r.off) =
      (List.range count).map fun i => importEntry (descriptorAt m (importDescriptor s i)) := by
  obtain ⟨phys, m₁, hout, _, hbody, _⟩ := hr.body
  have hinside := hstands.inside
  have hrsize : r.size = 40 + count * 32 := hr.size.trans hsize
  unfold Arena.Outside at hclear hout
  have hentries := uefiMemoryMap_fill size phys hcount
    (fun i hi j hj => hout _ (by have := hclear i hi; omega))
    (fun i hi => by have := hclear i hi; show _ ∨ A.ptr + r.off + 40 + 32 * count ≤ _; omega) hpages
  have hshown : get32 ((uefiMemoryMap s count size).fill phys (A.ptr + r.off) m₁) (A.ptr + r.off + 32) = count := by
    simpa [mapEntries] using congrArg List.length hentries
  rw [← hentries]
  refine mapEntries_shift fun i hlo hhi => ?_
  rw [hshown] at hhi
  rw [hstands.there.body i hlo (by omega), hbody i]

/-- What the importer leaves where it succeeds: one memory map tag, with an
entry for each descriptor of the map. -/
theorem importUefiHobs_map {snapshot : Nat} (hreach : Reachable b m)
    (hok : (importUefiHobs b m snapshot s).status = .ok ()) (hmap : has s.present hasMemoryMap = true) :
    ∃ t, emittedMaps b.tagCount (importUefiHobs b m snapshot s).builder (importUefiHobs b m snapshot s).mem = [t] ∧
      mapEntries (importUefiHobs b m snapshot s).mem t =
        (List.range (s.memoryMapBytes / s.descriptorStride)).map fun i =>
          importEntry (descriptorAt m (importDescriptor s i)) := by
  unfold importUefiHobs at hok ⊢
  obtain ⟨sizes, hcheck, hrun⟩ := finish_ok hok
  rw [hrun, uefiEmit_eq]
  have hpass := uefiCheck_passed hcheck
  have honly := uefiObjects_memoryMap sizes hmap
  obtain ⟨hover, hvalid, hsize⟩ := uefiCheck_map hcheck hmap
  obtain ⟨hcount, hstride, hcount32, hpages⟩ := validateMemoryMap_ok hvalid
  have hbegun := planBegin_ok hpass.planned.choose_spec.1
  have hcapacity : b.capacity ≠ 0 := by
    intro hnone
    rw [planAll_empty hnone hpass.planned.choose_spec.2] at honly
    cases honly
  obtain ⟨m₀, fuel, ops, s', hfuel, hsession, rfl, rfl⟩ := hreach (hbegun.arenaOf hcapacity) rfl rfl rfl
  obtain ⟨s'', hsession', hinv⟩ := run_inv (start_inv _ m₀) hfuel ops
  rw [hsession, Option.some.injEq] at hsession'
  subst hsession'
  obtain ⟨rs, blobs, hon, hall⟩ := hpass.onPlan hinv
  -- the records of the import, and the one among them that is a map
  have hmaps := List.rel_filter (p := fun o : Object => decide (o.id = tagMemoryMap))
    (q := fun r : Record => decide (r.id = tagMemoryMap)) (fun o r hr => by simp [hr.id]) hall
  rw [honly] at hmaps
  obtain ⟨r, rest, hr, hnone, hrecord⟩ := List.forall₂_cons_left_iff.mp hmaps
  rw [List.forall₂_nil_left_iff.mp hnone] at hrecord
  have hmem : r ∈ rs := (List.mem_filter.mp (hrecord ▸ List.mem_singleton_self r)).1
  refine ⟨(hbegun.arenaOf hcapacity).ptr + r.off, ?_, ?_⟩
  · rw [emittedMaps_eq hon.inv]
    dsimp only
    rw [hinv.chain.count, List.drop_left, hrecord]
    rfl
  · have hclear : ∀ i < sizes.mapCount, (hbegun.arenaOf hcapacity).Outside (importDescriptor s i) 40 := by
      intro i hi
      have hend : i * s.descriptorStride + s.descriptorStride ≤ s.memoryMapBytes := by
        rw [← Nat.succ_mul]
        exact (Nat.mul_le_mul_right _ (hcount ▸ hi)).trans (Nat.div_mul_le_self _ _)
      have hapart := rangesOverlap_apart hover
      show _ + 40 ≤ s'.builder.arena ∨ s'.builder.arena + s'.builder.capacity ≤ _
      unfold importDescriptor
      omega
    have hstands := hon.inv.stands r (List.mem_append_right _ hmem)
    rw [← hcount]
    exact importedMap_entries hr hsize hstands hon.inv.used hcount32 hclear hpages

end Import

/-! ## Side by side -/

section Agree

variable {m mᵢ m' : Mem} {arena kernelVirtualBase info snapshot : Nat} {plan : ElfPlan} {er : ExitResult}
  {b b' : Builder} {s : UefiSnapshot}

/-- The same map, in the loader's memory and in the importer's. -/
structure SameMap (m : Mem) (er : ExitResult) (mᵢ : Mem) (s : UefiSnapshot) : Prop where
  size : s.memoryMapBytes = er.memoryMapSize
  stride : s.descriptorStride = er.descriptorSize
  bytes : ∀ i < er.memoryMapSize, mᵢ (s.memoryMap + i) = m (er.memoryMap + i)

theorem SameMap.descriptor (h : SameMap m er mᵢ s) (hstride : 40 ≤ er.descriptorSize) {i : Nat} (hi : i < er.count) :
    descriptorAt mᵢ (importDescriptor s i) = descriptorAt m (er.descriptor i) := by
  refine descriptorAt_shift fun j hj => ?_
  have hend : i * er.descriptorSize + er.descriptorSize ≤ er.memoryMapSize := by
    rw [← Nat.succ_mul]
    exact (Nat.mul_le_mul_right _ hi).trans (Nat.div_mul_le_self _ _)
  rw [importDescriptor, ExitResult.descriptor, h.stride, Nat.add_assoc, Nat.add_assoc]
  exact h.bytes _ (by omega)

/-- The tags of the two producers, and their entries. -/
theorem producers_entries (harena : arena + arenaBytes ≤ 2 ^ 48) (hclear : er.Clear arena er.count)
    (hhandoff : buildHandoff m arena plan kernelVirtualBase er = some (info, b', m')) (hreach : Reachable b mᵢ)
    (himport : (importUefiHobs b mᵢ snapshot s).status = .ok ()) (hrequested : has s.present hasMemoryMap = true)
    (hsame : SameMap m er mᵢ s) :
    ∃ t t', emittedMaps 0 b' m' = [t] ∧
      emittedMaps b.tagCount (importUefiHobs b mᵢ snapshot s).builder (importUefiHobs b mᵢ snapshot s).mem = [t'] ∧
      mapEntries m' t = (List.range er.count).map (fun i => handoffEntry plan (descriptorAt m (er.descriptor i))) ∧
      mapEntries (importUefiHobs b mᵢ snapshot s).mem t' =
        (List.range er.count).map fun i => importEntry (descriptorAt m (er.descriptor i)) := by
  obtain ⟨hstride, _, hmap, hentries⟩ := buildHandoff_some harena hclear hhandoff
  obtain ⟨t', hmap', hentries'⟩ := importUefiHobs_map hreach himport hrequested
  refine ⟨arena + 184, t', hmap, hmap', hentries, hentries'.trans ?_⟩
  rw [hsame.size, hsame.stride]
  refine List.map_congr_left fun i hi => ?_
  rw [hsame.descriptor hstride (List.mem_range.mp hi)]

/-- On a final map that both producers take and that keeps clear of the
kernel, the two MEMORY_MAP tags show the same entries exactly when no
descriptor has WP without RO. -/
theorem producers_agree_iff (harena : arena + arenaBytes ≤ 2 ^ 48) (hclear : er.Clear arena er.count)
    (hhandoff : buildHandoff m arena plan kernelVirtualBase er = some (info, b', m')) (hreach : Reachable b mᵢ)
    (himport : (importUefiHobs b mᵢ snapshot s).status = .ok ()) (hrequested : has s.present hasMemoryMap = true)
    (hsame : SameMap m er mᵢ s) (hkernel : ∀ i < er.count, ¬ (descriptorAt m (er.descriptor i)).Overlaps plan) :
    ∃ t t', emittedMaps 0 b' m' = [t] ∧
      emittedMaps b.tagCount (importUefiHobs b mᵢ snapshot s).builder (importUefiHobs b mᵢ snapshot s).mem = [t'] ∧
      (mapEntries m' t = mapEntries (importUefiHobs b mᵢ snapshot s).mem t' ↔
        ∀ i < er.count, ¬ (descriptorAt m (er.descriptor i)).WriteProtectedOnly) := by
  obtain ⟨t, t', hmap, hmap', hentries, hentries'⟩ :=
    producers_entries harena hclear hhandoff hreach himport hrequested hsame
  refine ⟨t, t', hmap, hmap', ?_⟩
  rw [hentries, hentries', List.map_inj_left]
  refine forall_congr' fun i => ?_
  rw [List.mem_range]
  exact imp_congr_right fun hi => handoffEntry_eq_iff (hkernel i hi)

end Agree

/-- A map of one descriptor: 16 pages of conventional memory at 1 MiB, with the
given attributes. -/
def mapMem (attributes : Nat) : Mem :=
  put64 (put64 (put64 (put32 Mem.zeros 0x1000 7) 0x1008 0x100000) 0x1018 16) 0x1020 attributes

/-- The map as `ExitBootServices` left it. -/
def mapExit : ExitResult := ⟨0x1000, 48, 4096, 0, 48, 1, 1⟩

/-- A kernel at 4 MiB. -/
def mapPlan : ElfPlan := ⟨0x400000, 0x400000, 0x500000, []⟩

/-- The snapshot of the same map. -/
def mapSnapshot : UefiSnapshot :=
  ⟨hasMemoryMap, 0, 0, 0, 0x1000, 48, 48, 1, 1, 0, ⟨0, 0⟩, ⟨0, 0, 0, 0, 0, 0, 0, 0⟩, ⟨0, 0, 0, 0, 0⟩, 0, 0⟩

/-- The importer's side: a fresh builder over the small arena. -/
def mapSession (attributes : Nat) : Session := Session.start smallArena (mapMem attributes)

/-- What the importer makes of the map. -/
def mapImport (attributes : Nat) : Outcome :=
  importUefiHobs (mapSession attributes).builder (mapSession attributes).mem 0x5000 mapSnapshot

section Sample

variable (attributes : Nat) (hattributes : attributes < 2 ^ 64)
include hattributes

theorem mapMem_descriptor : descriptorAt (mapMem attributes) (mapExit.descriptor 0) = ⟨7, 0x100000, 16, attributes⟩ := by
  simp only [mapMem, descriptorAt, ExitResult.descriptor, mapExit, Descriptor.mk.injEq]
  simp (disch := omega) only [get64, get32, put64, put32, Mem.getLE_putLE_frame, Mem.getLE_putLE]
  decide

theorem mapHandoff_some : ∃ info b m, buildHandoff (mapMem attributes) 0x200000 mapPlan 0 mapExit = some (info, b, m) := by
  have htaken : ∀ i < mapExit.count, (descriptorAt (mapMem attributes) (mapExit.descriptor i)).Taken := by
    intro i hi
    rw [show i = 0 from Nat.lt_one_iff.mp hi, mapMem_descriptor attributes hattributes]
    have hstop : Descriptor.stop ⟨7, 0x100000, 16, attributes⟩ = 0x110000 := by
      simp only [Descriptor.stop]
    exact ⟨(by decide : 16 ≠ 0), by rw [hstop]; decide, fun _ _ _ => by rw [hstop]; decide⟩
  obtain ⟨⟨info, b, m⟩, h⟩ := buildHandoff_total (mapMem attributes) 0x200000 0 mapPlan mapExit (by decide)
    (by decide) (by decide) (by decide) (by decide) rfl (by decide) (by decide) rfl (by decide) htaken
  exact ⟨info, b, m, h⟩

omit hattributes in
theorem mapSession_same : SameMap (mapMem attributes) mapExit (mapSession attributes).mem mapSnapshot := by
  refine ⟨rfl, rfl, fun i hi => ?_⟩
  change i < 48 at hi
  rw [mapSession, start_eq]
  exact (Mem.fill_apply ..).trans (if_neg (by change ¬ (0x2000 ≤ 0x1000 + i ∧ _); omega))

end Sample

/-- Conventional memory with its four cacheability attributes is the same to
both. -/
theorem producers_agree_conventional :
    ∃ info b m t t', buildHandoff (mapMem 0xf) 0x200000 mapPlan 0 mapExit = some (info, b, m) ∧
      (mapImport 0xf).status = .ok () ∧ emittedMaps 0 b m = [t] ∧
      emittedMaps 0 (mapImport 0xf).builder (mapImport 0xf).mem = [t'] ∧
      mapEntries m t = mapEntries (mapImport 0xf).mem t' := by
  obtain ⟨info, b, m, hhandoff⟩ := mapHandoff_some 0xf (by decide)
  have himport : (mapImport 0xf).status = .ok () := by decide +kernel
  obtain ⟨t, t', hmap, hmap', hiff⟩ := producers_agree_iff (by decide) (by decide) hhandoff
    (start_reachable smallArena (mapMem 0xf)) himport (by decide) (mapSession_same 0xf) (by decide +kernel)
  exact ⟨info, b, m, t, t', hhandoff, himport, hmap, hmap', hiff.mpr (by decide +kernel)⟩

/-- With WP set, the loader's entry is not writable and the importer's is. -/
theorem producers_differ :
    ∃ info b m t t', buildHandoff (mapMem 0x1000) 0x200000 mapPlan 0 mapExit = some (info, b, m) ∧
      (mapImport 0x1000).status = .ok () ∧ emittedMaps 0 b m = [t] ∧
      emittedMaps 0 (mapImport 0x1000).builder (mapImport 0x1000).mem = [t'] ∧
      mapEntries m t = [⟨0x100000, 0x10000, 1, 5⟩] ∧
      mapEntries (mapImport 0x1000).mem t' = [⟨0x100000, 0x10000, 1, 7⟩] := by
  obtain ⟨info, b, m, hhandoff⟩ := mapHandoff_some 0x1000 (by decide)
  have himport : (mapImport 0x1000).status = .ok () := by decide +kernel
  obtain ⟨t, t', hmap, hmap', hentries, hentries'⟩ := producers_entries (by decide) (by decide) hhandoff
    (start_reachable smallArena (mapMem 0x1000)) himport (by decide) (mapSession_same 0x1000)
  exact ⟨info, b, m, t, t', hhandoff, himport, hmap, hmap', hentries.trans (by decide +kernel),
    hentries'.trans (by decide +kernel)⟩

end BearBoot.Loader
