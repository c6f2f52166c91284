import BearBoot.Bootloader.RoundTrip
import BearBoot.Import.Uefi
import BearBoot.Loader.Exit
import BearBoot.Loader.PageTables

/-!
# The loader's handoff

`build_handoff` of `bootloader/efi_main.c`, after the firmware is gone: the
final memory map is translated descriptor by descriptor into a tag, between
the tag with the higher-half offset and the one with the kernel's address,
and the whole is sealed. The arena is 256 pages with INFO at its beginning.

What the handoff says about the memory is read back from the bytes it
leaves: the chain of tags from the builder (`chain`), the memory map tags in
it (`emittedMaps`) and the entries of such a tag (`mapEntries`). Those three
are the same questions for any producer.

A refusal stops the machine, and what it leaves of the arena is not
described.
-/

set_option autoImplicit false

namespace BearBoot.Loader

open Machine Bootloader Import

variable {m : Mem} {arena : Nat}

/-! ## The code -/

/-- `BBP_ARENA_PAGES * EFI_PAGE_SIZE`. -/
def arenaBytes : Nat := 256 * 4096

/-- `memory_type`. -/
def memoryType : Nat → Nat
  | 1 => 0x06
  | 2 => 0x06
  | 3 => 0x06
  | 4 => 0x06
  | 7 => 0x01
  | 8 => 0x05
  | 9 => 0x03
  | 10 => 0x04
  | 11 => 0x11
  | 12 => 0x11
  | 14 => 0x10
  | _ => 0x02

def efiMemoryUc : Nat := 0x0000000000000001
def efiMemoryWc : Nat := 0x0000000000000002
def efiMemoryWt : Nat := 0x0000000000000004
def efiMemoryWb : Nat := 0x0000000000000008
def efiMemoryUce : Nat := 0x0000000000000010
def efiMemoryWp : Nat := 0x0000000000001000
def efiMemoryRp : Nat := 0x0000000000002000
def efiMemoryXp : Nat := 0x0000000000004000
def efiMemoryRo : Nat := 0x0000000000020000

/-- `memory_attributes`. -/
def memoryAttributes (attributes : Nat) : Nat :=
  let result := 0
  let result := if attributes &&& efiMemoryRp = 0 then result ||| 1 else result
  let result := if attributes &&& (efiMemoryWp ||| efiMemoryRo) = 0 then result ||| 2 else result
  let result := if attributes &&& efiMemoryXp = 0 then result ||| 4 else result
  let result := if attributes &&& (efiMemoryWt ||| efiMemoryWb) ≠ 0 then result ||| 8 else result
  let result := if attributes &&& efiMemoryWc ≠ 0 then result ||| 16 else result
  if attributes &&& (efiMemoryUc ||| efiMemoryUce) ≠ 0 then result ||| 32 else result

/-- One turn of the loop over the descriptors, for the entry at `entry`; `none`
is `return 0`. -/
def putHandoffEntry (plan : ElfPlan) (descriptor entry : Nat) (m : Mem) : Option Mem :=
  let pages := get64 m (descriptor + 24)
  if pages = 0 ∨ (2 ^ 64 - 1) / 4096 < pages then none
  else
    let length := pages * 4096
    let start := get64 m (descriptor + 8)
    if 2 ^ 64 - 1 - length < start then none
    else
      let stop := start + length
      let type := get32 m descriptor
      -- EfiMemoryMappedIO, EfiMemoryMappedIOPortSpace and EfiReservedMemoryType may be anywhere
      if type ≠ 11 ∧ type ≠ 12 ∧ type ≠ 0 ∧ identityLimit < stop then none
      else
        let m := put64 m entry (get64 m (descriptor + 8))
        let m := put64 m (entry + 8) length
        let m := put32 m (entry + 16) (memoryType (get32 m descriptor))
        let m := put32 m (entry + 20) (memoryAttributes (get64 m (descriptor + 32)))
        -- BBP_MEM_KERNEL_AND_MODULES
        some (if get64 m (descriptor + 8) < plan.physicalEnd ∧ plan.physicalBase < stop then
          put32 m (entry + 16) 0x07 else m)

/-- `"BearBoot OVMF"`. -/
def handoffName : List UInt8 :=
  [0x42, 0x65, 0x61, 0x72, 0x42, 0x6f, 0x6f, 0x74, 0x20, 0x4f, 0x56, 0x4d, 0x46]

/-- `"Wave17-proof"`. -/
def handoffVersion : List UInt8 :=
  [0x57, 0x61, 0x76, 0x65, 0x31, 0x37, 0x2d, 0x70, 0x72, 0x6f, 0x6f, 0x66]

/-- The builder, and its three tags; `none` where one of them is `NULL`. -/
def allocHandoff (m : Mem) (arenaAddress count : Nat) : Option (Nat × Nat × Nat × Builder × Mem) :=
  let (b, m) := builderInit m (arenaAddress + 144) (arenaAddress + 144) (arenaBytes - 144)
  let (hhdm, b, m) := allocTag b m tagHhdm 1 40
  let (map, b, m) := allocTag b m tagMemoryMap 1 (40 + count * 32)
  let (kernel, b, m) := allocTag b m tagKernelAddress 1 48
  match hhdm, map, kernel with
  | some hhdm, some map, some kernel => if b.overflow then none else some (hhdm, map, kernel, b, m)
  | _, _, _ => none

/-- The stores from the tags to the end of INFO's own fields. -/
def fillHandoff (arenaAddress : Nat) (plan : ElfPlan) (kernelVirtualBase : Nat) (exitResult : ExitResult)
    (count hhdm map kernel : Nat) (m : Mem) : Option Mem :=
  let m := put64 m (hhdm + 32) hhdmOffset
  let m := put32 m (map + 32) count
  let m := put32 m (map + 36) 32
  match forUpTo (fun index m => putHandoffEntry plan (exitResult.memoryMap + index * exitResult.descriptorSize)
      (map + 40 + 32 * index) m) count m with
  | none => none
  | some m =>
    let m := put64 m (kernel + 32) plan.physicalBase
    let m := put64 m (kernel + 40) kernelVirtualBase
    let m := m.blit (arenaAddress + 24) handoffName
    let m := m.blit (arenaAddress + 56) handoffVersion
    let m := put16 m (arenaAddress + 112) 1
    some (put16 m (arenaAddress + 114) 1)

/-- `build_handoff`: `*info_address`, and the builder and the memory it leaves.
The chain has three tags, so 1024 turns are enough for the reseal loop. -/
def buildHandoff (m : Mem) (arenaAddress : Nat) (plan : ElfPlan) (kernelVirtualBase : Nat)
    (exitResult : ExitResult) : Option (Nat × Builder × Mem) :=
  if exitResult.memoryMapFinal = 0 ∨ exitResult.descriptorVersion ≠ 1 ∨ exitResult.descriptorSize < 40 ∨
      exitResult.memoryMapSize = 0 ∨ exitResult.memoryMapSize % exitResult.descriptorSize ≠ 0 then none
  else
    let count := exitResult.memoryMapSize / exitResult.descriptorSize
    if count = 0 ∨ (2 ^ 64 - 1 - 40) / 32 < count then none
    else
      match allocHandoff m arenaAddress count with
      | none => none
      | some (hhdm, map, kernel, b, m) =>
        match fillHandoff arenaAddress plan kernelVirtualBase exitResult count hhdm map kernel m with
        | none => none
        | some m =>
          match builderFinalize 1024 b m arenaAddress arenaAddress with
          | none => none
          | some (phys, b, m) => if phys = 0 then none else some (arenaAddress, b, m)

/-! ## What a handoff says -/

/-- The tags in the builder's chain, as far as `steps` goes. -/
def chain (b : Builder) (m : Mem) : (steps phys : Nat) → List Nat
  | 0, _ => []
  | steps + 1, phys =>
    if phys = 0 then []
    else builderPhysToVirt b phys :: chain b m steps (tagNext m (builderPhysToVirt b phys))

/-- The memory map tags behind the first `before` tags of the builder's chain. -/
def emittedMaps (before : Nat) (b : Builder) (m : Mem) : List Nat :=
  ((chain b m b.tagCount b.firstPhys).drop before).filter (tagId m · = tagMemoryMap)

/-- `struct bbp_memory_entry`, without the two fields no producer sets. -/
structure MemoryEntry where
  base : Nat
  length : Nat
  type : Nat
  attributes : Nat
  deriving DecidableEq, Repr

def entryAt (m : Mem) (entry : Nat) : MemoryEntry :=
  ⟨get64 m entry, get64 m (entry + 8), get32 m (entry + 16), get32 m (entry + 20)⟩

/-- The entries of the memory map tag at `tag`. -/
def mapEntries (m : Mem) (tag : Nat) : List MemoryEntry :=
  (List.range (get32 m (tag + 32))).map fun i => entryAt m (tag + 40 + 32 * i)

/-- `EFI_MEMORY_DESCRIPTOR`, without the field nothing reads. -/
structure Descriptor where
  type : Nat
  physicalStart : Nat
  numberOfPages : Nat
  attributes : Nat
  deriving DecidableEq, Repr

def descriptorAt (m : Mem) (p : Nat) : Descriptor :=
  ⟨get32 m p, get64 m (p + 8), get64 m (p + 24), get64 m (p + 32)⟩

/-- The first byte behind the descriptor's pages. -/
def Descriptor.stop (d : Descriptor) : Nat := d.physicalStart + d.numberOfPages * 4096

/-- The descriptor shares a byte with the kernel's envelope. -/
def Descriptor.Overlaps (d : Descriptor) (plan : ElfPlan) : Prop :=
  d.physicalStart < plan.physicalEnd ∧ plan.physicalBase < d.stop

instance (d : Descriptor) (plan : ElfPlan) : Decidable (d.Overlaps plan) := inferInstanceAs (Decidable (_ ∧ _))

/-- The entry `build_handoff` makes of a descriptor. -/
def handoffEntry (plan : ElfPlan) (d : Descriptor) : MemoryEntry :=
  ⟨d.physicalStart, d.numberOfPages * 4096, if d.Overlaps plan then 0x07 else memoryType d.type,
    memoryAttributes d.attributes⟩

/-- The descriptors `build_handoff` takes. -/
structure Descriptor.Taken (d : Descriptor) : Prop where
  pages : d.numberOfPages ≠ 0
  fits : d.stop ≤ 2 ^ 64 - 1
  low : d.type ≠ 11 → d.type ≠ 12 → d.type ≠ 0 → d.stop ≤ identityLimit

/-! ## Entries -/

section Entries

variable {m m' : Mem} {entry entry' descriptor descriptor' : Nat}

theorem memoryType_lt (t : Nat) : memoryType t < 2 ^ 32 := by
  unfold memoryType
  split <;> decide

theorem memoryAttributes_lt (a : Nat) : memoryAttributes a < 2 ^ 32 := by
  have hor : ∀ (c : Prop) [Decidable c] (r k : Nat), r < 2 ^ 6 → k < 2 ^ 6 →
      (if c then r ||| k else r) < 2 ^ 6 := by
    intro c _ r k hr hk
    split
    · exact Nat.or_lt_two_pow hr hk
    · exact hr
  have hsix : memoryAttributes a < 2 ^ 6 := by
    unfold memoryAttributes
    repeat' apply hor
    all_goals decide
  exact Nat.lt_trans hsix (by decide)

theorem entryAt_shift (h : ∀ i < 24, m' (entry' + i) = m (entry + i)) : entryAt m' entry' = entryAt m entry := by
  have field : ∀ o w, o + w ≤ 24 → m'.getLE (entry' + o) w = m.getLE (entry + o) w := fun o w how =>
    Mem.getLE_shift (fun i _ hi => h i hi) (Nat.zero_le o) how
  simp only [entryAt, get64, get32, MemoryEntry.mk.injEq]
  exact ⟨field 0 8 (by decide), field 8 8 (by decide), field 16 4 (by decide), field 20 4 (by decide)⟩

/-- The entries are read from the tag's own bytes. -/
theorem mapEntries_shift {tag tag' : Nat}
    (h : ∀ i, 32 ≤ i → i < 40 + 32 * get32 m (tag + 32) → m' (tag' + i) = m (tag + i)) :
    mapEntries m' tag' = mapEntries m tag := by
  have hcount : get32 m' (tag' + 32) = get32 m (tag + 32) := Mem.getLE_shift h (by decide) (by omega)
  rw [mapEntries, mapEntries, hcount]
  refine List.map_congr_left fun i hi => entryAt_shift fun j hj => ?_
  have hi := List.mem_range.mp hi
  rw [Nat.add_assoc tag', Nat.add_assoc tag', Nat.add_assoc tag, Nat.add_assoc tag]
  exact h _ (by omega) (by omega)

theorem descriptorAt_shift (h : ∀ i < 40, m' (descriptor' + i) = m (descriptor + i)) :
    descriptorAt m' descriptor' = descriptorAt m descriptor := by
  have field : ∀ o w, o + w ≤ 40 → m'.getLE (descriptor' + o) w = m.getLE (descriptor + o) w := fun o w how =>
    Mem.getLE_shift (fun i _ hi => h i hi) (Nat.zero_le o) how
  simp only [descriptorAt, get64, get32, Descriptor.mk.injEq]
  exact ⟨field 0 4 (by decide), field 8 8 (by decide), field 24 8 (by decide), field 32 8 (by decide)⟩

/-- A turn that does not stop leaves the entry of its descriptor, and writes
nothing else. -/
theorem putHandoffEntry_some {plan : ElfPlan} (descriptor : Nat)
    (hclear : descriptor + 40 ≤ entry ∨ entry + 24 ≤ descriptor)
    (h : putHandoffEntry plan descriptor entry m = some m') :
    (descriptorAt m descriptor).Taken ∧ entryAt m' entry = handoffEntry plan (descriptorAt m descriptor) ∧
      ∀ a, a < entry ∨ entry + 24 ≤ a → m' a = m a := by
  unfold putHandoffEntry at h
  dsimp only at h
  split at h
  · cases h
  next hpages =>
    split at h
    · cases h
    next hfits =>
      split at h
      · cases h
      next hlow =>
        rw [Option.some.injEq] at h
        have hstart := get64_lt m (descriptor + 8)
        have htype := memoryType_lt (get32 m descriptor)
        have hattr := memoryAttributes_lt (get64 m (descriptor + 32))
        -- The stores miss the descriptor, so every field is read as it was.
        simp (disch := omega) only [get64, get32, put64, put32, Mem.getLE_putLE_frame] at h hpages hfits hlow hstart htype hattr
        refine ⟨⟨?_, ?_, ?_⟩, ?_, ?_⟩
        · simp only [descriptorAt, get64]
          omega
        · simp only [descriptorAt, get64, Descriptor.stop]
          omega
        · simp only [descriptorAt, get64, get32, Descriptor.stop]
          intro h₁ h₂ h₃
          omega
        · subst h
          split
          next hover =>
            have hover : (descriptorAt m descriptor).Overlaps plan := hover
            rw [handoffEntry, if_pos hover, entryAt]
            simp (disch := omega) only [get64, get32, Mem.getLE_putLE_frame, Mem.getLE_putLE]
            rfl
          next hover =>
            have hover : ¬ (descriptorAt m descriptor).Overlaps plan := hover
            rw [handoffEntry, if_neg hover, entryAt]
            simp (disch := omega) only [get64, get32, Mem.getLE_putLE_frame, Mem.getLE_putLE]
            rfl
        · intro a ha
          subst h
          split
          · simp (disch := omega) only [Mem.putLE_frame]
          · simp (disch := omega) only [Mem.putLE_frame]

theorem putHandoffEntry_total (plan : ElfPlan) (entry : Nat) (h : (descriptorAt m descriptor).Taken) :
    ∃ m', putHandoffEntry plan descriptor entry m = some m' := by
  obtain ⟨hpages, hfits, hlow⟩ := h
  simp only [descriptorAt, Descriptor.stop] at hpages hfits hlow
  unfold putHandoffEntry
  dsimp only
  rw [if_neg (by omega), if_neg (by omega), if_neg fun hhigh => ?_]
  · exact ⟨_, rfl⟩
  · have := hlow hhigh.1 hhigh.2.1 hhigh.2.2.1
    omega

end Entries

/-! ## The stores -/

section Stores

variable {m m' : Mem} {arena kernelVirtualBase count : Nat} {plan : ElfPlan} {er : ExitResult}

/-- Where descriptor `i` is. -/
def ExitResult.descriptor (er : ExitResult) (i : Nat) : Nat := er.memoryMap + i * er.descriptorSize

/-- The descriptors keep clear of the arena. -/
def ExitResult.Clear (er : ExitResult) (arena count : Nat) : Prop :=
  ∀ i < count, er.descriptor i + 40 ≤ arena ∨ arena + arenaBytes ≤ er.descriptor i

instance (er : ExitResult) (arena count : Nat) : Decidable (er.Clear arena count) :=
  inferInstanceAs (Decidable (∀ i < count, _))

/-- The loop over the descriptors. -/
theorem entries_some {map : Nat}
    (hclear : ∀ i < count, er.descriptor i + 40 ≤ map ∨ map + 40 + 32 * count ≤ er.descriptor i)
    (h : forUpTo (fun index m => putHandoffEntry plan (er.memoryMap + index * er.descriptorSize)
      (map + 40 + 32 * index) m) count m = some m') :
    (∀ i < count, (descriptorAt m (er.descriptor i)).Taken ∧
      entryAt m' (map + 40 + 32 * i) = handoffEntry plan (descriptorAt m (er.descriptor i))) ∧
      ∀ a, a < map + 40 ∨ map + 40 + 32 * count ≤ a → m' a = m a := by
  refine forUpTo_some (fun n b =>
    (∀ i < n, (descriptorAt m (er.descriptor i)).Taken ∧
      entryAt b (map + 40 + 32 * i) = handoffEntry plan (descriptorAt m (er.descriptor i))) ∧
      ∀ a, a < map + 40 ∨ map + 40 + 32 * n ≤ a → b a = m a)
    ⟨fun i hi => absurd hi (Nat.not_lt_zero i), fun _ _ => rfl⟩ (fun n hn b b' hb hbody => ?_) h
  obtain ⟨hdone, hframe⟩ := hb
  have hdesc := hclear n hn
  have hsame : descriptorAt b (er.descriptor n) = descriptorAt m (er.descriptor n) :=
    descriptorAt_shift fun i hi => hframe _ (by omega)
  obtain ⟨htaken, hentry, hkeep⟩ := putHandoffEntry_some (er.descriptor n) (by omega) hbody
  rw [hsame] at htaken hentry
  refine ⟨fun i hi => ?_, fun a ha => ?_⟩
  · rcases Nat.lt_succ_iff_lt_or_eq.mp hi with hlt | rfl
    · refine ⟨(hdone i hlt).1, (entryAt_shift fun j hj => ?_).trans (hdone i hlt).2⟩
      exact hkeep _ (by omega)
    · exact ⟨htaken, hentry⟩
  · rw [hkeep a (by omega), hframe a (by omega)]

theorem entries_total (plan : ElfPlan) (m : Mem) {map : Nat}
    (hclear : ∀ i < count, er.descriptor i + 40 ≤ map ∨ map + 40 + 32 * count ≤ er.descriptor i)
    (htaken : ∀ i < count, (descriptorAt m (er.descriptor i)).Taken) :
    ∃ m', forUpTo (fun index m => putHandoffEntry plan (er.memoryMap + index * er.descriptorSize)
      (map + 40 + 32 * index) m) count m = some m' := by
  refine (forUpTo_total _ count m (fun n b => ∀ a, a < map + 40 ∨ map + 40 + 32 * n ≤ a → b a = m a)
    (fun _ _ => rfl) fun n hn b hframe => ?_).imp fun _ h => h.1
  have hdesc := hclear n hn
  have hsame : descriptorAt b (er.descriptor n) = descriptorAt m (er.descriptor n) :=
    descriptorAt_shift fun i hi => hframe _ (by omega)
  have htaken' := htaken n hn
  rw [← hsame] at htaken'
  obtain ⟨b', hbody⟩ := putHandoffEntry_total plan (map + 40 + 32 * n) htaken'
  obtain ⟨_, _, hkeep⟩ := putHandoffEntry_some (er.descriptor n) (by omega) hbody
  exact ⟨b', hbody, fun a ha => (hkeep a (by omega)).trans (hframe a (by omega))⟩

/-- The stores into the three tags and INFO. -/
theorem fillHandoff_some (hcount : count < 2 ^ 32) (hfits : 272 + 32 * count ≤ arenaBytes)
    (hclear : er.Clear arena count)
    (h : fillHandoff arena plan kernelVirtualBase er count (arena + 144) (arena + 184) (arena + 224 + 32 * count) m =
      some m') :
    (∀ i < count, (descriptorAt m (er.descriptor i)).Taken) ∧
      mapEntries m' (arena + 184) = (List.range count).map (fun i => handoffEntry plan (descriptorAt m (er.descriptor i))) ∧
      (get64 m' (arena + 176) = hhdmOffset ∧ get64 m' (arena + 256 + 32 * count) = plan.physicalBase % 2 ^ 64 ∧
        get64 m' (arena + 264 + 32 * count) = kernelVirtualBase % 2 ^ 64) ∧
      ∀ a, (a < arena + 24 ∨ arena + 116 ≤ a) → (a < arena + 176 ∨ arena + 184 ≤ a) →
        (a < arena + 216 ∨ arena + 224 + 32 * count ≤ a) →
        (a < arena + 256 + 32 * count ∨ arena + 272 + 32 * count ≤ a) → m' a = m a := by
  unfold fillHandoff at h
  dsimp only at h
  generalize hm₁ : put32 (put32 (put64 m (arena + 144 + 32) hhdmOffset) (arena + 184 + 32) count)
    (arena + 184 + 36) 32 = m₁ at h
  have hframe₁ : ∀ a, (a < arena + 176 ∨ arena + 184 ≤ a) → (a < arena + 216 ∨ arena + 224 ≤ a) → m₁ a = m a := by
    intro a ha ha'
    rw [← hm₁]
    simp (disch := omega) only [put32, put64, Mem.putLE_frame]
  have hcount₁ : get32 m₁ (arena + 184 + 32) = count := by
    rw [← hm₁]
    simp (disch := omega) only [get32, put32, Mem.getLE_putLE_frame, Mem.getLE_putLE]
  have hsame : ∀ i < count, descriptorAt m₁ (er.descriptor i) = descriptorAt m (er.descriptor i) := fun i hi =>
    descriptorAt_shift fun j hj => by
      have := hclear i hi
      exact hframe₁ _ (by omega) (by omega)
  split at h
  · cases h
  next m₂ hloop =>
    obtain ⟨hentries, hframe₂⟩ := entries_some (fun i hi => by have := hclear i hi; omega) hloop
    have hname : handoffName.length = 13 := rfl
    have hversion : handoffVersion.length = 12 := rfl
    have hframe : ∀ a, (a < arena + 24 ∨ arena + 116 ≤ a) →
        (a < arena + 256 + 32 * count ∨ arena + 272 + 32 * count ≤ a) → m' a = m₂ a := by
      intro a ha ha'
      rw [Option.some.injEq] at h
      rw [← h]
      simp (disch := omega) only [put64, put16, Mem.putLE_frame, Mem.blit_frame]
    have hcount' : get32 m' (arena + 184 + 32) = count := by
      rw [← hcount₁]
      exact Mem.getLE_congr fun i hi => by rw [hframe _ (by omega) (by omega), hframe₂ _ (by omega)]
    refine ⟨fun i hi => hsame i hi ▸ (hentries i hi).1, ?_, ⟨?_, ?_, ?_⟩, fun a hinfo hhdm hmap hkernel => ?_⟩
    · rw [mapEntries, hcount']
      refine List.map_congr_left fun i hi => ?_
      have hi := List.mem_range.mp hi
      rw [← hsame i hi, ← (hentries i hi).2]
      exact entryAt_shift fun j hj => hframe _ (by omega) (by omega)
    · refine (Mem.getLE_congr fun i hi => (hframe _ (by omega) (by omega)).trans (hframe₂ _ (by omega))).trans ?_
      rw [← hm₁, put32, Mem.getLE_putLE_frame (by omega), put32, Mem.getLE_putLE_frame (by omega)]
      exact Mem.getLE_putLE (by decide)
    · rw [Option.some.injEq] at h
      subst h
      simp (disch := omega) only [get64, put64, put16, Mem.getLE_putLE_frame, Mem.getLE_blit_frame]
      rw [show arena + 256 + 32 * count = arena + 224 + 32 * count + 32 by omega, Mem.getLE_putLE_mod]
    · rw [Option.some.injEq] at h
      subst h
      simp (disch := omega) only [get64, put64, put16, Mem.getLE_putLE_frame, Mem.getLE_blit_frame]
      rw [show arena + 264 + 32 * count = arena + 224 + 32 * count + 40 by omega, Mem.getLE_putLE_mod]
    · rw [hframe a hinfo hkernel, hframe₂ a (by omega), hframe₁ a hhdm (by omega)]

theorem fillHandoff_total (plan : ElfPlan) (kernelVirtualBase : Nat) (hfits : 272 + 32 * count ≤ arenaBytes) (hclear : er.Clear arena count)
    (htaken : ∀ i < count, (descriptorAt m (er.descriptor i)).Taken) :
    ∃ m', fillHandoff arena plan kernelVirtualBase er count (arena + 144) (arena + 184) (arena + 224 + 32 * count) m =
      some m' := by
  unfold fillHandoff
  dsimp only
  generalize hm₁ : put32 (put32 (put64 m (arena + 144 + 32) hhdmOffset) (arena + 184 + 32) count)
    (arena + 184 + 36) 32 = m₁
  have hsame : ∀ i < count, descriptorAt m₁ (er.descriptor i) = descriptorAt m (er.descriptor i) := fun i hi =>
    descriptorAt_shift fun j hj => by
      have := hclear i hi
      rw [← hm₁]
      simp (disch := omega) only [put32, put64, Mem.putLE_frame]
  have hmap : ∀ i < count, er.descriptor i + 40 ≤ arena + 184 ∨ arena + 184 + 40 + 32 * count ≤ er.descriptor i :=
    fun i hi => by have := hclear i hi; omega
  obtain ⟨m₂, hloop⟩ := entries_total plan m₁ hmap fun i hi => by rw [hsame i hi]; exact htaken i hi
  rw [hloop]
  exact ⟨_, rfl⟩

end Stores

/-! ## The tags -/

/-- The chain of a session is its records. -/
theorem chain_eq {A : Arena} {s : Session} (h : Inv A s) :
    chain s.builder s.mem s.builder.tagCount s.builder.firstPhys = s.tags.map fun r => A.ptr + r.off := by
  have hpath := h.path
  have hin : ∀ r ∈ s.tags, r.off < 2 ^ 64 := fun r hr => by
    have := (h.stands r hr).inside
    have := h.used
    have := A.below
    omega
  rw [h.chain.count]
  generalize s.builder.firstPhys = cur at hpath
  generalize s.tags = tags at hpath hin
  induction tags generalizing cur with
  | nil => rfl
  | cons r tags ih =>
    obtain ⟨rfl, hrest⟩ := hpath
    have hphys := A.phys_ne
    have hfirst : A.phys + r.off ≠ 0 := by omega
    rw [nextOf_off] at hrest
    have hvirt := builderPhysToVirt_off s.builder (hin r List.mem_cons_self)
    rw [h.arena, h.phys] at hvirt
    rw [List.length_cons, chain, if_neg hfirst, hvirt, List.map_cons,
      ih _ hrest fun x hx => hin x (List.mem_cons_of_mem _ hx)]

/-- The memory map tags of a session are its records with that id. -/
theorem emittedMaps_eq {A : Arena} {s : Session} (h : Inv A s) (before : Nat) :
    emittedMaps before s.builder s.mem =
      ((s.tags.drop before).filter (·.id = tagMemoryMap)).map fun r => A.ptr + r.off := by
  rw [emittedMaps, chain_eq h, ← List.map_drop, List.filter_map]
  congr 1
  refine List.filter_congr fun r hr => ?_
  rw [Function.comp_apply, (h.stands r (List.mem_of_mem_drop hr)).there.id]

theorem arenaBytes_eq : arenaBytes = 1048576 := by decide

/-- The arena behind INFO. -/
def handoffArena (arena : Nat) (haligned : 8 ∣ arena) (hlow : arena + arenaBytes ≤ 2 ^ 48) : Arena :=
  have := arenaBytes_eq
  ⟨arena + 144, arena + 144, arenaBytes - 144, by omega, by omega, by omega, by omega, by omega⟩

/-- The records of the three tags. -/
def handoffRecords (count : Nat) : List Record :=
  [fresh 0 tagHhdm 1 40, fresh 40 tagMemoryMap 1 (40 + count * 32),
    fresh (80 + count * 32) tagKernelAddress 1 48]

/-- Where the three tags were handed out, the arena holds them. -/
theorem allocHandoff_fits {count : Nat} {x : Nat × Nat × Nat × Builder × Mem}
    (h : allocHandoff m arena count = some x) : 8 ∣ arena ∧ 272 + 32 * count ≤ arenaBytes := by
  have hbytes := arenaBytes_eq
  have hzero : arena + 144 ≠ 0 := by omega
  rw [allocHandoff] at h
  rcases hinit : builderInit m (arena + 144) (arena + 144) (arenaBytes - 144) with ⟨b, m₀⟩
  rcases hhhdm : allocTag b m₀ tagHhdm 1 40 with ⟨hhdm, b₁, m₁⟩
  rcases hmap : allocTag b₁ m₁ tagMemoryMap 1 (40 + count * 32) with ⟨map, b₂, m₂⟩
  rcases hkernel : allocTag b₂ m₂ tagKernelAddress 1 48 with ⟨kernel, b₃, m₃⟩
  simp only [hinit, hhhdm, hmap, hkernel] at h
  split at h
  next =>
    obtain ⟨hroom, hused₁, hcap₁⟩ := allocTag_some hhhdm
    obtain ⟨_, hused₂, hcap₂⟩ := allocTag_some hmap
    obtain ⟨hlast, _, _⟩ := allocTag_some hkernel
    rw [builderInit, if_neg hzero] at hinit
    split at hinit
    next =>
      -- a builder that starts out failed hands nothing out
      cases hinit
      cases hroom.overflow
    next hgood =>
      cases hinit
      have haligned : 8 ∣ arena + 144 :=
        (and_pred_two_pow_eq_zero (k := 3)).mp (by simp only [not_or, not_not] at hgood; exact hgood.2.1)
      have hend := hlast.capacity
      have hup₂ := le_roundUp b₂.used (show 0 < 8 by decide)
      have hup₁ := le_roundUp b₁.used (show 0 < 8 by decide)
      rw [hcap₂, hcap₁] at hend
      dsimp only at hend hused₁
      omega
  next => cases h

theorem allocHandoff_eq {count : Nat} (haligned : 8 ∣ arena) (hlow : arena + arenaBytes ≤ 2 ^ 48)
    (hfits : 272 + 32 * count ≤ arenaBytes) :
    ∃ b m', allocHandoff m arena count = some (arena + 144, arena + 184, arena + 224 + 32 * count, b, m') ∧
      Inv (handoffArena arena haligned hlow) ⟨b, m', handoffRecords count⟩ ∧ b.overflow = false ∧
      b.used = 128 + count * 32 ∧ ∀ a, a < arena + 144 ∨ arena + arenaBytes ≤ a → m' a = m a := by
  have hbytes := arenaBytes_eq
  let A := handoffArena arena haligned hlow
  have hinv := start_inv A m
  have hstart := start_eq A m
  have hcapacity : A.capacity = arenaBytes - 144 := rfl
  rw [Session.start] at hinv hstart
  rcases hinit : builderInit m A.ptr A.phys A.capacity with ⟨b, m₀⟩
  rw [hinit] at hinv hstart
  injection hstart with hb hm _
  dsimp only at hb hm hinv
  obtain ⟨b₁, m₁, hhhdm, hinv₁, hover₁, hused₁, hout₁⟩ := allocTag_next hinv (by rw [hb]) (by rw [hb])
    (Nat.dvd_zero 8) (by decide) tagHhdm 1 40 (by decide) (by decide) (by decide) (by decide) (by omega)
  obtain ⟨b₂, m₂, hmap, hinv₂, hover₂, hused₂, hout₂⟩ := allocTag_next hinv₁ hover₁ hused₁ (by decide) (by decide)
    tagMemoryMap 1 (40 + count * 32) (by decide) (by decide) (by omega) (by omega) (by omega)
  obtain ⟨b₃, m₃, hkernel, hinv₃, hover₃, hused₃, hout₃⟩ := allocTag_next hinv₂ hover₂ hused₂ (by omega)
    (show 2 < 1024 by decide) tagKernelAddress 1 48 (by decide) (by decide) (by decide) (by decide) (by omega)
  have hmapAt : A.ptr + (0 + 40) = arena + 184 := by show arena + 144 + _ = _; omega
  have hkernelOff : 0 + 40 + (40 + count * 32) = 80 + count * 32 := by omega
  have hkernelAt : A.ptr + (0 + 40 + (40 + count * 32)) = arena + 224 + 32 * count := by
    show arena + 144 + _ = _; omega
  rw [hmapAt] at hmap
  rw [hkernelAt] at hkernel
  rw [hkernelOff] at hinv₃
  refine ⟨b₃, m₃, ?_, hinv₃, hover₃, by omega, fun a ha => ?_⟩
  · change (builderInit m (arena + 144) (arena + 144) (arenaBytes - 144)) = _ at hinit
    rw [allocHandoff, hinit]
    simp only [hhhdm, hmap, hkernel, hover₃]
    rfl
  · have hout : A.Outside a 1 := by
      show a + 1 ≤ arena + 144 ∨ arena + 144 + (arenaBytes - 144) ≤ a
      omega
    rw [hout₃ a hout, hout₂ a hout, hout₁ a hout, hm, Mem.fill_apply, if_neg]
    show ¬ (arena + 144 ≤ a ∧ a < arena + 144 + (arenaBytes - 144))
    omega

/-- What `build_handoff` leaves in `m'`: a sealed session of its three tags,
with an entry for each descriptor of the map, and nothing written outside the
arena. -/
structure HandedOff (m : Mem) (arena : Nat) (plan : ElfPlan) (kernelVirtualBase : Nat) (er : ExitResult)
    (count : Nat) (b : Builder) (m' : Mem) : Prop where
  nonzero : arena ≠ 0
  fits : 272 + 32 * count ≤ arenaBytes
  used : b.used = 128 + count * 32
  isSealed : ∃ (haligned : 8 ∣ arena) (hlow : arena + arenaBytes ≤ 2 ^ 48) (body : Record → Nat → UInt8),
    Sealed (handoffArena arena haligned hlow) ⟨b, m', (handoffRecords count).map fun r => { r with body := body r }⟩ arena
  entries : mapEntries m' (arena + 184) =
    (List.range count).map fun i => handoffEntry plan (descriptorAt m (er.descriptor i))
  hhdm : get64 m' (arena + 176) = hhdmOffset
  physical : get64 m' (arena + 256 + 32 * count) = plan.physicalBase % 2 ^ 64
  virtual : get64 m' (arena + 264 + 32 * count) = kernelVirtualBase % 2 ^ 64
  outside : ∀ a, a < arena ∨ arena + arenaBytes ≤ a → m' a = m a

/-- The three tags, filled and sealed. -/
theorem sealHandoff {m' : Mem} {b : Builder} {count kernelVirtualBase : Nat} {plan : ElfPlan} {er : ExitResult}
    (hzero : arena ≠ 0) (haligned : 8 ∣ arena) (hlow : arena + arenaBytes ≤ 2 ^ 48)
    (hfits : 272 + 32 * count ≤ arenaBytes) (hclear : er.Clear arena count)
    (hinv : Inv (handoffArena arena haligned hlow) ⟨b, m, handoffRecords count⟩) (hover : b.overflow = false)
    (hused : b.used = 128 + count * 32)
    (hfill : fillHandoff arena plan kernelVirtualBase er count (arena + 144) (arena + 184) (arena + 224 + 32 * count) m =
      some m') :
    ∃ m'', builderFinalize 1024 b m' arena arena = some (arena, b, m'') ∧
      HandedOff m arena plan kernelVirtualBase er count b m'' := by
  have hbytes := arenaBytes_eq
  have hptr : (handoffArena arena haligned hlow).ptr = arena + 144 := rfl
  have hcapacity : (handoffArena arena haligned hlow).capacity = arenaBytes - 144 := rfl
  obtain ⟨_, hentries, ⟨hhhdm, hphysical, hvirtual⟩, hframe⟩ := fillHandoff_some (by omega) hfits hclear hfill
  have hkept : ∀ a, ¬ (handoffArena arena haligned hlow).Outside a 1 →
      (∀ r ∈ handoffRecords count, ¬ r.InBody (handoffArena arena haligned hlow) a) → m' a = m a := by
    intro a ha hbody
    simp only [handoffRecords, List.forall_mem_cons, List.not_mem_nil, false_imp_iff, implies_true, Record.InBody,
      fresh, hptr] at hbody
    unfold Arena.Outside at ha
    exact hframe a (by omega) (by omega) (by omega) (by omega)
  have hinv' := hinv.rewrite hkept
  obtain ⟨m'', hfinal, hsealed, hsame⟩ := hinv'.finalizes hover (by dsimp only; omega) (Nat.le_refl 1024)
    hzero (by unfold Arena.Outside; omega) arena
  -- the sealing writes INFO and the checksums of the three tags
  have hsame : ∀ a, a < arena ∨ arena + 144 ≤ a → (a < arena + 168 ∨ arena + 176 ≤ a) →
      (a < arena + 208 ∨ arena + 216 ≤ a) → (a < arena + 248 + 32 * count ∨ arena + 256 + 32 * count ≤ a) →
      m'' a = m' a := by
    intro a _ _ _ _
    refine hsame a (by omega) ?_
    simp only [handoffRecords, List.map_cons, List.map_nil, List.forall_mem_cons, List.not_mem_nil, false_imp_iff,
      implies_true, fresh, hptr]
    exact ⟨by omega, by omega, by omega, trivial⟩
  have hread : ∀ p, arena + 176 ≤ p → p + 8 ≤ arena + 184 ∨ arena + 256 + 32 * count ≤ p → get64 m'' p = get64 m' p :=
    fun p hp hp' => Mem.getLE_congr fun i hi => hsame _ (by omega) (by omega) (by omega) (by omega)
  refine ⟨m'', hfinal, hzero, hfits, hused, ⟨haligned, hlow, fun r i => m' (arena + 144 + r.off + i), hsealed⟩, ?_, ?_, ?_, ?_,
    fun a ha => ?_⟩
  · rw [← hentries]
    have hcount : get32 m' (arena + 184 + 32) = count := by
      simpa [mapEntries] using congrArg List.length hentries
    refine mapEntries_shift fun i hge hlt => ?_
    rw [hcount] at hlt
    exact hsame _ (by omega) (by omega) (by omega) (by omega)
  · rw [hread _ (by omega) (by omega), hhhdm]
  · rw [hread _ (by omega) (by omega), hphysical]
  · rw [hread _ (by omega) (by omega), hvirtual]
  · rw [hsame a (by omega) (by omega) (by omega) (by omega), hframe a (by omega) (by omega) (by omega) (by omega)]

section Handoff

variable {m : Mem} {arena kernelVirtualBase : Nat} {plan : ElfPlan} {er : ExitResult}

/-- The number of descriptors in the map. -/
def ExitResult.count (er : ExitResult) : Nat := er.memoryMapSize / er.descriptorSize

/-- What `build_handoff` leaves where it succeeds. -/
theorem buildHandoff_handedOff {x : Nat × Builder × Mem} (hlow : arena + arenaBytes ≤ 2 ^ 48)
    (hclear : er.Clear arena er.count) (h : buildHandoff m arena plan kernelVirtualBase er = some x) :
    40 ≤ er.descriptorSize ∧ x.1 = arena ∧
      HandedOff m arena plan kernelVirtualBase er er.count x.2.1 x.2.2 := by
  have hbytes := arenaBytes_eq
  rw [buildHandoff, ← ExitResult.count] at h
  split at h
  · cases h
  · dsimp only at h
    split at h
    · cases h
    · split at h
      · cases h
      next heq =>
        obtain ⟨haligned, hfits⟩ := allocHandoff_fits heq
        obtain ⟨b, m₁, halloc, hinv, hover, hused, hout⟩ := allocHandoff_eq (m := m) haligned hlow hfits
        rw [halloc, Option.some.injEq, Prod.mk.injEq, Prod.mk.injEq, Prod.mk.injEq, Prod.mk.injEq] at heq
        obtain ⟨rfl, rfl, rfl, rfl, rfl⟩ := heq
        split at h
        · cases h
        next m₂ hfill =>
          have hsame : ∀ i < er.count, descriptorAt m₁ (er.descriptor i) = descriptorAt m (er.descriptor i) :=
            fun i hi => descriptorAt_shift fun j hj => hout _ (by have := hclear i hi; omega)
          by_cases hzero : arena = 0
          · rw [builderFinalize, if_pos hzero] at h
            cases h
          · obtain ⟨m₃, hfinal, hdone⟩ := sealHandoff hzero haligned hlow hfits hclear hinv hover hused hfill
            rw [hfinal] at h
            dsimp only at h
            rw [if_neg hzero] at h
            cases h
            refine ⟨by omega, rfl, { hdone with entries := ?_, outside := fun a ha => ?_ }⟩
            · refine hdone.entries.trans (List.map_congr_left fun i hi => ?_)
              rw [hsame i (List.mem_range.mp hi)]
            · exact (hdone.outside a ha).trans (hout a (by omega))

/-- What `build_handoff` leaves where it succeeds: one memory map tag, with an
entry for each descriptor of the map. -/
theorem buildHandoff_some {x : Nat × Builder × Mem} (hlow : arena + arenaBytes ≤ 2 ^ 48)
    (hclear : er.Clear arena er.count) (h : buildHandoff m arena plan kernelVirtualBase er = some x) :
    40 ≤ er.descriptorSize ∧ x.1 = arena ∧ emittedMaps 0 x.2.1 x.2.2 = [arena + 184] ∧
      mapEntries x.2.2 (arena + 184) =
        (List.range er.count).map fun i => handoffEntry plan (descriptorAt m (er.descriptor i)) := by
  obtain ⟨hstride, hinfo, hdone⟩ := buildHandoff_handedOff hlow hclear h
  obtain ⟨_, _, _, hsealed⟩ := hdone.isSealed
  refine ⟨hstride, hinfo, ?_, hdone.entries⟩
  rw [emittedMaps_eq hsealed.inv]
  rfl

variable (m arena plan kernelVirtualBase er) in
/-- `build_handoff` succeeds on a final map of descriptors it takes, where the
arena has the room. -/
theorem buildHandoff_total (hzero : arena ≠ 0) (haligned : 8 ∣ arena) (hlow : arena + arenaBytes ≤ 2 ^ 48)
    (hfits : 272 + 32 * er.count ≤ arenaBytes) (hfinal : er.memoryMapFinal ≠ 0) (hversion : er.descriptorVersion = 1)
    (hstride : 40 ≤ er.descriptorSize) (hsize : er.memoryMapSize ≠ 0)
    (hwhole : er.memoryMapSize % er.descriptorSize = 0) (hclear : er.Clear arena er.count)
    (htaken : ∀ i < er.count, (descriptorAt m (er.descriptor i)).Taken) :
    ∃ x, buildHandoff m arena plan kernelVirtualBase er = some x := by
  have hbytes := arenaBytes_eq
  have hcount : er.count ≠ 0 := by
    intro hnone
    have := Nat.div_add_mod er.memoryMapSize er.descriptorSize
    rw [hwhole, ← ExitResult.count, hnone] at this
    omega
  obtain ⟨b, m₁, halloc, hinv, hover, hused, hout⟩ := allocHandoff_eq (m := m) haligned hlow hfits
  have hsame : ∀ i < er.count, descriptorAt m₁ (er.descriptor i) = descriptorAt m (er.descriptor i) :=
    fun i hi => descriptorAt_shift fun j hj => hout _ (by have := hclear i hi; omega)
  obtain ⟨m₂, hfill⟩ := fillHandoff_total plan kernelVirtualBase hfits hclear fun i hi => by rw [hsame i hi]; exact htaken i hi
  obtain ⟨m₃, hseal, _⟩ := sealHandoff hzero haligned hlow hfits hclear hinv hover hused hfill
  rw [buildHandoff, if_neg (by omega), ← ExitResult.count]
  dsimp only
  rw [if_neg (by omega), halloc]
  dsimp only
  rw [hfill]
  dsimp only
  rw [hseal]
  dsimp only
  rw [if_neg hzero]
  exact ⟨_, rfl⟩

end Handoff

end BearBoot.Loader
