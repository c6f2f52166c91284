import BearBoot.Import.Uefi
import BearBoot.Import.Scan
import BearBoot.Import.Track

/-!
# Each importer's objects

Every importer makes two passes over the same optional objects. Here is the
list for each, the proof that both passes are folds over it, and the proof
that its objects are sound once the checks have passed: their stores stay
in the tag, however many array elements the source names, because the
tag's size was computed from the same count.
-/

set_option autoImplicit false

namespace BearBoot.Import

open Machine Bootloader

variable {a count size snapshot offset : Nat} {m : Mem}

/-! ## Stores -/

theorem storeLoop_frame {body : Nat → Mem → Mem} {n : Nat}
    (h : ∀ i < n, ∀ m, body i m a = m a) : storeLoop body n m a = m a := by
  induction n with
  | zero => rfl
  | succ n ih => rw [storeLoop, h n (Nat.lt_succ_self n), ih fun i hi => h i (by omega)]

theorem putMemoryEntry_frame {entry base length type : Nat} {attributes : Nat → Nat}
    (h : a < entry ∨ entry + 24 ≤ a) : putMemoryEntry entry base length type attributes m a = m a := by
  simp (disch := omega) only [putMemoryEntry, put64, put32, Mem.putLE_frame]

theorem arrayTagSize_ok {fixed element : Nat}
    (h : arrayTagSize fixed count element = .ok size) :
    count ≤ u32Max ∧ size = fixed + count * element := by
  unfold arrayTagSize at h
  simp only [ok_bind_iff, refuse_ok_iff, exists_const, pure_ok_iff, not_or, Nat.not_lt] at h
  exact ⟨h.1.1, h.2.2.2.2.symm⟩

/-! ## Shared objects -/

theorem emitHhdm_sound (offset : Nat) : (emitHhdm offset).Sound where
  source _ _ h := by cases h
  within _ tag m a h := by
    change a < tag + 32 ∨ tag + 40 ≤ a at h
    simp (disch := omega) only [emitHhdm, put64, Mem.putLE_frame]
  id_lt := by change tagHhdm < 2 ^ 64; decide

theorem emitKernelAddress_sound (p v : Nat) : (emitKernelAddress p v).Sound where
  source _ _ h := by cases h
  within _ tag m a h := by
    change a < tag + 32 ∨ tag + 48 ≤ a at h
    simp (disch := omega) only [emitKernelAddress, put64, Mem.putLE_frame]
  id_lt := by change tagKernelAddress < 2 ^ 64; decide

theorem emitCmdline_sound {data bytes : Nat} (hdata : data ≠ 0) : (emitCmdline data bytes).Sound where
  source _ _ h := by cases h; exact hdata
  within _ tag m a h := by
    change a < tag + 32 ∨ tag + 56 ≤ a at h
    simp (disch := omega) only [emitCmdline, put64, put32, Mem.putLE_frame]
  id_lt := by change tagCmdline < 2 ^ 64; decide

theorem emitFramebuffer_sound (f : ImportFramebuffer) : (emitFramebuffer f).Sound where
  source _ _ h := by cases h
  within _ tag m a h := by
    change a < tag + 32 ∨ tag + (72 + 48) ≤ a at h
    simp (disch := omega) only [emitFramebuffer, put64, put32, put16, Mem.putLE_frame]
  id_lt := by change tagFramebuffer < 2 ^ 64; decide

theorem emitAcpi_sound (a : ImportAcpi) : (emitAcpi a).Sound where
  source _ _ h := by cases h
  within _ tag m a h := by
    change a < tag + 32 ∨ tag + 56 ≤ a at h
    simp (disch := omega) only [emitAcpi, put64, put32, put16, Mem.putLE_frame]
  id_lt := by change tagAcpi < 2 ^ 64; decide

@[simp] theorem emitHhdm_id (x : Nat) : (emitHhdm x).id = tagHhdm := (rfl)

@[simp] theorem emitKernelAddress_id (x y : Nat) : (emitKernelAddress x y).id = tagKernelAddress := (rfl)

@[simp] theorem emitCmdline_id (x y : Nat) : (emitCmdline x y).id = tagCmdline := (rfl)

@[simp] theorem emitFramebuffer_id (f : ImportFramebuffer) : (emitFramebuffer f).id = tagFramebuffer :=
  (rfl)

@[simp] theorem emitAcpi_id (a : ImportAcpi) : (emitAcpi a).id = tagAcpi := (rfl)

theorem sound_objectIf {present : Bool} {o : Object} (h : present = true → o.Sound) :
    ∀ o' ∈ objectIf present o, o'.Sound := by
  intro o' ho'
  unfold objectIf at ho'
  split at ho'
  next hp =>
    rw [List.mem_singleton.mp ho']
    exact h hp
  next => cases ho'

theorem sound_append {os os' : List Object} (h : ∀ o ∈ os, o.Sound) (h' : ∀ o ∈ os', o.Sound) :
    ∀ o ∈ os ++ os', o.Sound := fun o ho => (List.mem_append.mp ho).elim (h o) (h' o)

/-- A check that an import has passed: the plan it began with, the list it
planned, and that the list is sound. -/
structure Passed (b : Builder) (m : Mem) (objects : List Object) (plan : Plan) : Prop where
  planned : ∃ plan₀, planBegin b m = .ok plan₀ ∧ planAll b objects plan₀ = .ok plan
  sound : ∀ o ∈ objects, o.Sound

theorem validateString_source {s : ImportString} (h : validateString m s = .ok ()) :
    s.data ≠ 0 := by
  unfold validateString at h
  simp only [ok_bind_iff, refuse_ok_iff, exists_const, not_or] at h
  exact h.1.1

theorem checkCmdline_source {b : Builder} {present : Nat} {line : ImportString}
    (h : checkCmdline b m present line = .ok ()) (hp : has present hasCmdline = true) :
    line.data ≠ 0 := by
  rw [checkCmdline, if_pos hp] at h
  obtain ⟨_, _, hstring⟩ := ok_bind_iff.mp h
  exact validateString_source hstring

/-! ## Limine -/

section Limine

variable {b : Builder} {m : Mem} {s : LimineSnapshot} {sizes : LimineSizes}

def limineObjects (s : LimineSnapshot) (sizes : LimineSizes) : List Object :=
  objectIf (has s.present hasHhdm) (emitHhdm s.hhdmOffset) ++
  objectIf (has s.present hasMemoryMap) (limineMemoryMap s sizes.memoryMapSize) ++
  objectIf (has s.present hasKernelAddress)
    (emitKernelAddress s.kernelPhysicalBase s.kernelVirtualBase) ++
  objectIf (has s.present hasSmp) (limineSmp s sizes.smpSize) ++
  objectIf (has s.present hasCmdline) (emitCmdline s.commandLine.data s.commandLine.bytes) ++
  objectIf (has s.present hasFramebuffer) (emitFramebuffer s.framebuffer) ++
  objectIf (has s.present hasAcpi) (emitAcpi s.acpi)

theorem limineEmit_eq (e : Emission) : limineEmit s sizes e = emitAll (limineObjects s sizes) e := by
  simp only [limineObjects, emitAll_append, emitAll_objectIf]
  rfl

/-- Two steps under one presence test. -/
theorem planIf_bind (present : Bool) (f g : Plan → Except ImportError Plan) (plan : Plan) :
    planIf present f plan >>= planIf present g = planIf present (fun plan => f plan >>= g) plan := by
  cases present with
  | false => rfl
  | true => rfl

theorem liminePlan_eq (plan : Plan) :
    liminePlan b s sizes.memoryMapSize sizes.smpSize plan = planAll b (limineObjects s sizes) plan := by
  have hline : ∀ plan, planIf (has s.present hasCmdline)
      (planObject b · (emitCmdline s.commandLine.data s.commandLine.bytes)) plan =
      planIf (has s.present hasCmdline) (planBlob b · s.commandLine.bytes) plan >>=
        planIf (has s.present hasCmdline) (planTag b · 56) := by
    intro plan
    rw [planIf_bind]
    rfl
  simp only [limineObjects, planAll_append, planAll_objectIf, hline, bind_assoc]
  rfl

@[simp] theorem limineMemoryMap_id (size : Nat) : (limineMemoryMap s size).id = tagMemoryMap := (rfl)

@[simp] theorem limineSmp_id (size : Nat) : (limineSmp s size).id = tagSmp := (rfl)

theorem limineMemoryMap_sound (h : size = 40 + s.memoryMapCount * 32) :
    (limineMemoryMap s size).Sound where
  source _ _ h := by cases h
  within _ tag m a ha := by
    change a < tag + 32 ∨ tag + size ≤ a at ha
    have hmod := Nat.mod_le s.memoryMapCount (2 ^ 32)
    unfold limineMemoryMap
    dsimp only
    rw [storeLoop_frame fun i hi m => putMemoryEntry_frame (by omega)]
    simp (disch := omega) only [put32, Mem.putLE_frame]
  id_lt := by change tagMemoryMap < 2 ^ 64; decide

theorem limineSmp_sound (h : size = 48 + s.cpuCount * 48) :
    (limineSmp s size).Sound where
  source _ _ h := by cases h
  within _ tag m a ha := by
    change a < tag + 32 ∨ tag + size ≤ a at ha
    have hmod := Nat.mod_le s.cpuCount (2 ^ 32)
    unfold limineSmp
    dsimp only
    rw [storeLoop_frame fun i hi m => by
      simp (disch := omega) only [put32, put16, Mem.putLE_frame]]
    simp (disch := omega) only [put32, put64, Mem.putLE_frame]
  id_lt := by change tagSmp < 2 ^ 64; decide

theorem limineMemoryMapSize_ok (h : limineMemoryMapSize b m s = .ok size)
    (hp : has s.present hasMemoryMap = true) : size = 40 + s.memoryMapCount * 32 := by
  rw [limineMemoryMapSize, if_pos hp] at h
  simp only [ok_bind_iff, refuse_ok_iff, exists_const, pure_ok_iff] at h
  obtain ⟨_, size', hsize, _, _, _, rfl⟩ := h
  exact (arrayTagSize_ok hsize).2

theorem limineSmpSize_ok (h : limineSmpSize b m s = .ok size)
    (hp : has s.present hasSmp = true) : size = 48 + s.cpuCount * 48 := by
  rw [limineSmpSize, if_pos hp] at h
  simp only [ok_bind_iff, refuse_ok_iff, exists_const, pure_ok_iff] at h
  obtain ⟨_, _, size', hsize, _, _, _, _, rfl⟩ := h
  exact (arrayTagSize_ok hsize).2

theorem limineCheck_line (h : limineCheck b m s snapshot = .ok sizes) :
    checkCmdline b m s.present s.commandLine = .ok () := by
  unfold limineCheck at h
  simp only [ok_bind_iff, refuse_ok_iff, exists_const, pure_ok_iff] at h
  obtain ⟨_, _, _, _, _, _, _, _, _, _, _, _, hline, _⟩ := h
  exact hline

theorem limineCheck_passed (h : limineCheck b m s snapshot = .ok sizes) :
    Passed b m (limineObjects s sizes) sizes.plan := by
  unfold limineCheck at h
  simp only [ok_bind_iff, refuse_ok_iff, exists_const, pure_ok_iff] at h
  obtain ⟨_, _, _, plan₀, hbegin, mapSize, hmap, _, _, smpSize, hsmp, _, hline, _, _, plan, hplan,
    rfl⟩ := h
  refine ⟨⟨plan₀, hbegin, ?_⟩, ?_⟩
  · rw [← liminePlan_eq]
    exact hplan
  · refine sound_append (sound_append (sound_append (sound_append (sound_append (sound_append
      ?_ ?_) ?_) ?_) ?_) ?_) ?_
    · exact sound_objectIf fun _ => emitHhdm_sound _
    · exact sound_objectIf fun hp => limineMemoryMap_sound (limineMemoryMapSize_ok hmap hp)
    · exact sound_objectIf fun _ => emitKernelAddress_sound _ _
    · exact sound_objectIf fun hp => limineSmp_sound (limineSmpSize_ok hsmp hp)
    · exact sound_objectIf fun hp => emitCmdline_sound (checkCmdline_source hline hp)
    · exact sound_objectIf fun _ => emitFramebuffer_sound _
    · exact sound_objectIf fun _ => emitAcpi_sound _

end Limine

/-! ## UEFI -/

section Uefi

variable {b : Builder} {m : Mem} {s : UefiSnapshot} {sizes : UefiSizes}

def uefiObjects (s : UefiSnapshot) (sizes : UefiSizes) : List Object :=
  objectIf (has s.present hasHhdm) (emitHhdm s.hhdmOffset) ++
  objectIf (has s.present hasMemoryMap) (uefiMemoryMap s sizes.mapCount sizes.mapTagSize) ++
  objectIf (has s.present hasKernelAddress)
    (emitKernelAddress s.kernelPhysicalBase s.kernelVirtualBase) ++
  objectIf (has s.present hasCmdline) (emitCmdline s.commandLine.data s.commandLine.bytes) ++
  objectIf (has s.present hasFramebuffer) (emitFramebuffer s.framebuffer) ++
  objectIf (has s.present hasAcpi) (emitAcpi s.acpi) ++
  objectIf (has s.present hasEfi) (uefiEfi s) ++
  objectIf (has s.present hasSmbios) (uefiSmbios s)

theorem uefiEmit_eq (e : Emission) : uefiEmit s sizes e = emitAll (uefiObjects s sizes) e := by
  simp only [uefiObjects, emitAll_append, emitAll_objectIf]
  rfl

theorem uefiPlan_eq (plan : Plan) :
    uefiPlan b s sizes.mapTagSize plan = planAll b (uefiObjects s sizes) plan := by
  simp only [uefiObjects, planAll_append, planAll_objectIf, bind_assoc]
  rfl

@[simp] theorem uefiMemoryMap_id (count size : Nat) : (uefiMemoryMap s count size).id = tagMemoryMap :=
  (rfl)

@[simp] theorem uefiEfi_id : (uefiEfi s).id = tagEfi := (rfl)

@[simp] theorem uefiSmbios_id : (uefiSmbios s).id = tagSmbios := (rfl)

theorem uefiMemoryMap_sound (h : size = 40 + count * 32) :
    (uefiMemoryMap s count size).Sound where
  source _ _ h := by cases h
  within _ tag m a ha := by
    change a < tag + 32 ∨ tag + size ≤ a at ha
    have hmod := Nat.mod_le count (2 ^ 32)
    unfold uefiMemoryMap
    dsimp only
    rw [storeLoop_frame fun i hi m => by
      simp (disch := omega) only [put32, put64, Mem.putLE_frame]]
    simp (disch := omega) only [put32, Mem.putLE_frame]
  id_lt := by change tagMemoryMap < 2 ^ 64; decide

theorem uefiEfi_sound (h : s.memoryMap ≠ 0) : (uefiEfi s).Sound where
  source _ _ hb := by cases hb; exact h
  within _ tag m a h := by
    change a < tag + 32 ∨ tag + 64 ≤ a at h
    simp (disch := omega) only [uefiEfi, put64, put32, Mem.putLE_frame]
  id_lt := by change tagEfi < 2 ^ 64; decide

theorem uefiSmbios_sound : (uefiSmbios s).Sound where
  source _ _ h := by cases h
  within _ tag m a h := by
    change a < tag + 32 ∨ tag + 48 ≤ a at h
    simp (disch := omega) only [uefiSmbios, put64, Mem.putLE_frame]
  id_lt := by change tagSmbios < 2 ^ 64; decide

theorem has_or {present f g : Nat} (h : has present g = true) : has present (f ||| g) = true := by
  unfold has at h ⊢
  rw [bne_iff_ne] at h ⊢
  rw [Nat.and_or_distrib_left]
  intro hzero
  exact h (Nat.or_eq_zero_iff.mp hzero).2

theorem uefiMapCount_source (h : uefiMapCount b m s = .ok count)
    (hp : has s.present hasEfi = true) : s.memoryMap ≠ 0 := by
  rw [uefiMapCount, if_pos (has_or hp)] at h
  unfold validateMemoryMap at h
  simp only [ok_bind_iff, refuse_ok_iff, exists_const, not_or] at h
  exact h.2.1.1

theorem uefiCheck_line (h : uefiCheck b m s snapshot = .ok sizes) :
    checkCmdline b m s.present s.commandLine = .ok () := by
  unfold uefiCheck at h
  simp only [ok_bind_iff, refuse_ok_iff, exists_const, pure_ok_iff] at h
  obtain ⟨_, _, _, _, _, _, _, _, _, _, _, _, hline, _⟩ := h
  exact hline

theorem uefiCheck_passed (h : uefiCheck b m s snapshot = .ok sizes) :
    Passed b m (uefiObjects s sizes) sizes.plan := by
  unfold uefiCheck at h
  simp only [ok_bind_iff, refuse_ok_iff, exists_const, pure_ok_iff] at h
  obtain ⟨_, _, _, plan₀, hbegin, count, hcount, mapSize, hmap, _, _, _, hline, _, _, _, _, plan, hplan,
    rfl⟩ := h
  refine ⟨⟨plan₀, hbegin, ?_⟩, ?_⟩
  · rw [← uefiPlan_eq]
    exact hplan
  · refine sound_append (sound_append (sound_append (sound_append (sound_append (sound_append
      (sound_append ?_ ?_) ?_) ?_) ?_) ?_) ?_) ?_
    · exact sound_objectIf fun _ => emitHhdm_sound _
    · refine sound_objectIf fun hp => uefiMemoryMap_sound ?_
      rw [uefiMapTagSize, if_pos hp] at hmap
      exact (arrayTagSize_ok hmap).2
    · exact sound_objectIf fun _ => emitKernelAddress_sound _ _
    · exact sound_objectIf fun hp => emitCmdline_sound (checkCmdline_source hline hp)
    · exact sound_objectIf fun _ => emitFramebuffer_sound _
    · exact sound_objectIf fun _ => emitAcpi_sound _
    · exact sound_objectIf fun hp => uefiEfi_sound (uefiMapCount_source hcount hp)
    · exact sound_objectIf fun _ => uefiSmbios_sound

end Uefi

/-! ## Multiboot2 -/

theorem utf8PrefixLoop_le {text bytes limit fuel : Nat} (h : offset ≤ limit) :
    utf8PrefixLoop m text bytes limit fuel offset ≤ limit := by
  induction fuel generalizing offset with
  | zero => exact h
  | succ fuel ih =>
    rw [utf8PrefixLoop]
    split
    next =>
      dsimp only
      split
      next => exact h
      next hfits => exact ih (by omega)
    next => exact h

theorem utf8Prefix_le (m : Mem) (text bytes limit : Nat) : utf8Prefix m text bytes limit ≤ limit :=
  utf8PrefixLoop_le (Nat.zero_le limit)

section Multiboot2

variable {b : Builder} {m : Mem} {s : Multiboot2Snapshot} {scan : Mb2Scan} {sizes : Mb2Sizes}

def mb2Objects (s : Multiboot2Snapshot) (sizes : Mb2Sizes) : List Object :=
  objectIf (has s.present hasHhdm) (emitHhdm s.hhdmOffset) ++
  objectIf (sizes.scan.mmapOffset != sizeMax) (mb2MemoryMap sizes.scan sizes.mmapSize) ++
  objectIf (has s.present hasKernelAddress)
    (emitKernelAddress s.kernelPhysicalBase s.kernelVirtualBase) ++
  objectIf (sizes.scan.cmdlineOffset != sizeMax)
    (emitCmdline (sizes.scan.data + sizes.scan.cmdlineOffset) sizes.scan.cmdlineBytes) ++
  objectIf (sizes.scan.moduleCount != 0) (mb2Modules sizes.scan sizes.modulesSize) ++
  objectIf (sizes.scan.framebufferOffset != sizeMax) (mb2Framebuffer sizes.scan.framebuffer) ++
  objectIf (sizes.scan.acpi.offset != sizeMax) (mb2Acpi sizes.scan)

theorem mb2Emit_eq (e : Emission) : mb2Emit s sizes e = emitAll (mb2Objects s sizes) e := by
  simp only [mb2Objects, emitAll_append, emitAll_objectIf]
  rfl

theorem mb2Plan_eq (plan : Plan) :
    mb2Plan b s sizes.scan sizes.mmapSize sizes.modulesSize plan =
      planAll b (mb2Objects s sizes) plan := by
  simp only [mb2Objects, planAll_append, planAll_objectIf, bind_assoc]
  rfl

@[simp] theorem mb2MemoryMap_id (size : Nat) : (mb2MemoryMap scan size).id = tagMemoryMap := (rfl)

@[simp] theorem mb2Modules_id (size : Nat) : (mb2Modules scan size).id = tagModules := (rfl)

@[simp] theorem mb2Framebuffer_id (f : ImportFramebuffer) : (mb2Framebuffer f).id = tagFramebuffer :=
  (rfl)

@[simp] theorem mb2Acpi_id : (mb2Acpi scan).id = tagAcpi := (rfl)

theorem mb2MemoryMap_sound (h : size = 40 + scan.mmapCount * 32) :
    (mb2MemoryMap scan size).Sound where
  source _ _ h := by cases h
  within _ tag m a ha := by
    change a < tag + 32 ∨ tag + size ≤ a at ha
    have hmod := Nat.mod_le scan.mmapCount (2 ^ 32)
    have hbound : get32 (put32 (put32 m (tag + 32) scan.mmapCount) (tag + 36) 32) (tag + 32) =
        scan.mmapCount % 2 ^ 32 := by
      rw [get32, put32, put32, Mem.getLE_putLE_frame (by omega), Mem.getLE_putLE_mod]
    unfold mb2MemoryMap
    dsimp only
    rw [hbound, storeLoop_frame fun i hi m => putMemoryEntry_frame (by omega)]
    simp (disch := omega) only [put32, Mem.putLE_frame]
  id_lt := by change tagMemoryMap < 2 ^ 64; decide

/-- An entry is written in its first eighty bytes. -/
theorem putModule_frame {tag index : Nat}
    (h : a < tag + 40 + 176 * index ∨ tag + 40 + 176 * index + 80 ≤ a) :
    putModule scan tag offset index size m a = m a := by
  have hle := utf8Prefix_le m (scan.data + offset + 16) ((size + 2 ^ 32 - 17) % 2 ^ 32) 63
  unfold putModule
  generalize utf8Prefix m (scan.data + offset + 16) ((size + 2 ^ 32 - 17) % 2 ^ 32) 63 = copied at hle
  rw [Mem.set, if_neg (by omega), Mem.copy_frame (by omega)]
  simp (disch := omega) only [put64, Mem.putLE_frame]

/-- The loop writes entries from its index on. The count it runs to is in
front of them, so that no turn changes it. -/
theorem modulesLoop_frame {tag fuel index : Nat} (hcount : get32 m (tag + 32) = count)
    (h : a < tag + 40 + 176 * index ∨ tag + 40 + count * 176 ≤ a) :
    modulesLoop scan tag fuel offset index m a = m a := by
  induction fuel generalizing offset index m with
  | zero => rfl
  | succ fuel ih =>
    rw [modulesLoop]
    split
    next hmore =>
      dsimp only
      split
      next =>
        rw [ih _ (by omega), putModule_frame (by omega)]
        rw [← hcount]
        exact Mem.getLE_congr fun i hi => putModule_frame (by omega)
      next => exact ih hcount h
    next => rfl

theorem mb2Modules_sound (h : size = 40 + scan.moduleCount * 176) :
    (mb2Modules scan size).Sound where
  source _ _ h := by cases h
  within _ tag m a ha := by
    change a < tag + 32 ∨ tag + size ≤ a at ha
    have hmod := Nat.mod_le scan.moduleCount (2 ^ 32)
    have hbound : get32 (put32 m (tag + 32) scan.moduleCount) (tag + 32) =
        scan.moduleCount % 2 ^ 32 := by
      rw [get32, put32, Mem.getLE_putLE_mod]
    change modulesLoop scan tag scan.total 8 0 (put32 m (tag + 32) scan.moduleCount) a = m a
    rw [modulesLoop_frame hbound (by omega), put32, Mem.putLE_frame (by omega)]
  id_lt := by change tagModules < 2 ^ 64; decide

theorem mb2Framebuffer_sound (f : ImportFramebuffer) : (mb2Framebuffer f).Sound where
  source _ _ h := by cases h
  within _ tag m a h := by
    change a < tag + 32 ∨ tag + (72 + 48) ≤ a at h
    simp (disch := omega) only [mb2Framebuffer, put64, put32, put16, Mem.putLE_frame]
  id_lt := by change tagFramebuffer < 2 ^ 64; decide

theorem mb2Acpi_sound (h : scan.data ≠ 0) : (mb2Acpi scan).Sound where
  source _ _ hb := by cases hb; omega
  within _ tag m a h := by
    change a < tag + 32 ∨ tag + 56 ≤ a at h
    unfold mb2Acpi
    dsimp only
    split <;> simp (disch := omega) only [put64, put32, put16, Mem.putLE_frame]
  id_lt := by change tagAcpi < 2 ^ 64; decide

/-- A scan that succeeds is a scan of the caller's structure, folded over
its records. -/
theorem scanMbi_records (h : scanMbi m s = .ok scan) :
    s.mbi ≠ 0 ∧ get32 m s.mbi ≤ s.mappedBytes ∧ 16 ≤ get32 m s.mbi ∧
      ∃ rs st, Records m s.mbi (get32 m s.mbi) 8 rs ∧
        scanRecords m rs (scanStart s.mbi (get32 m s.mbi)) = .ok st ∧ scan = scanFinish st := by
  unfold scanMbi at h
  simp only [ok_bind_iff, refuse_ok_iff, exists_const, not_or, Nat.not_lt] at h
  obtain ⟨⟨hmbi, _⟩, ⟨htotal, _, hmapped, _⟩, hloop⟩ := h
  exact ⟨hmbi, hmapped, htotal, scanLoop_records hloop⟩

theorem scanMbi_place (h : scanMbi m s = .ok scan) :
    s.mbi ≠ 0 ∧ scan.data = s.mbi ∧ scan.total = get32 m s.mbi := by
  obtain ⟨hmbi, _, _, rs, st, _, hfold, rfl⟩ := scanMbi_records h
  exact ⟨hmbi, scanRecords_place hfold⟩

theorem mb2MmapSize_ok (h : mb2MmapSize scan = .ok size)
    (hp : (scan.mmapOffset != sizeMax) = true) : size = 40 + scan.mmapCount * 32 := by
  rw [mb2MmapSize, if_pos (bne_iff_ne.mp hp)] at h
  exact (arrayTagSize_ok h).2

theorem mb2ModulesSize_ok (h : mb2ModulesSize scan = .ok size)
    (hp : (scan.moduleCount != 0) = true) :
    scan.moduleCount ≤ u32Max ∧ size = 40 + scan.moduleCount * 176 := by
  rw [mb2ModulesSize, if_pos (bne_iff_ne.mp hp)] at h
  exact arrayTagSize_ok h

/-- What the checks leave for the emission: a scan of a structure that keeps
clear of the arena, and the sizes of the array tags. -/
theorem mb2Check_scan (h : mb2Check b m s snapshot = .ok sizes) :
    scanMbi m s = .ok sizes.scan ∧
      rangesOverlap s.mbi s.mappedBytes b.arena b.capacity = false ∧
      mb2MmapSize sizes.scan = .ok sizes.mmapSize ∧
      mb2ModulesSize sizes.scan = .ok sizes.modulesSize := by
  unfold mb2Check at h
  simp only [ok_bind_iff, refuse_ok_iff, exists_const, pure_ok_iff] at h
  obtain ⟨_, _, _, _, _, hapart, scan, hscan, _, _, mmapSize, hmmap, modulesSize, hmodules,
    plan, _, rfl⟩ := h
  exact ⟨hscan, Bool.eq_false_iff.mpr hapart, hmmap, hmodules⟩

theorem mb2Check_passed (h : mb2Check b m s snapshot = .ok sizes) :
    Passed b m (mb2Objects s sizes) sizes.plan := by
  unfold mb2Check at h
  simp only [ok_bind_iff, refuse_ok_iff, exists_const, pure_ok_iff] at h
  obtain ⟨_, _, _, plan₀, hbegin, _, scan, hscan, _, _, mmapSize, hmmap, modulesSize, hmodules,
    plan, hplan, rfl⟩ := h
  obtain ⟨hmbi, hdata, _⟩ := scanMbi_place hscan
  have hne : scan.data ≠ 0 := by rw [hdata]; exact hmbi
  refine ⟨⟨plan₀, hbegin, ?_⟩, ?_⟩
  · rw [← mb2Plan_eq]
    exact hplan
  · refine sound_append (sound_append (sound_append (sound_append (sound_append (sound_append
      ?_ ?_) ?_) ?_) ?_) ?_) ?_
    · exact sound_objectIf fun _ => emitHhdm_sound _
    · exact sound_objectIf fun hp => mb2MemoryMap_sound (mb2MmapSize_ok hmmap hp)
    · exact sound_objectIf fun _ => emitKernelAddress_sound _ _
    · exact sound_objectIf fun _ => emitCmdline_sound (by dsimp only; omega)
    · exact sound_objectIf fun hp => mb2Modules_sound (mb2ModulesSize_ok hmodules hp).2
    · exact sound_objectIf fun _ => mb2Framebuffer_sound _
    · exact sound_objectIf fun _ => mb2Acpi_sound hne

end Multiboot2

end BearBoot.Import
