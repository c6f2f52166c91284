import BearBoot.Import.Cmdline
import BearBoot.Import.Utf8

/-!
# A Multiboot2 import is faithful

The row of records a Multiboot2 structure is (`Records`) on one side, what
the kernel finds on the other. `multiboot2_faithful` says, for every
structure the importer takes into a fresh builder, that each of four tags
is there if and only if there is a record it comes from, and that it says
what the record says (`MemoryMapShown`, `ModulesShown`, `CmdlineShown`,
`AcpiShown`).

The emitters walk the structure a second time, after the arena has been
written to. Nothing they read has changed, because the structure keeps
clear of the arena, and nothing they write reaches the entries already
written: these two facts are what the lemmas below are about.

The framebuffer tag and the two tags that come from the snapshot's own
fields are not part of the statement.
-/

set_option autoImplicit false

namespace BearBoot.Import

open Machine Machine.Utf8 Bootloader Kernel

variable {m : Mem} {tag size index offset hint : Nat} {rs : List MbiRecord} {A : Arena}

/-! ## What a tag shows -/

/-- The memory entry at `e` is the source's at `src`. -/
structure MemoryEntryShown (m kmem : Mem) (src e : Nat) : Prop where
  base : get64 kmem e = get64 m src
  length : get64 kmem (e + 8) = get64 m (src + 8)
  type : get32 kmem (e + 16) = mb2MemoryType (get32 m (src + 16))
  attributes : get32 kmem (e + 20) = mb2MemoryAttributes (mb2MemoryType (get32 m (src + 16)))

/-- The memory map tag at `t` is the record: as many entries, in its order,
at whatever stride the record has. -/
structure MemoryMapShown (m kmem : Mem) (mbi : Nat) (r : MbiRecord) (t : Nat) : Prop where
  whole : r.size = 16 + (r.size - 16) / get32 m (mbi + r.offset + 8) * get32 m (mbi + r.offset + 8)
  count : get32 kmem (t + 32) = (r.size - 16) / get32 m (mbi + r.offset + 8)
  entrySize : get32 kmem (t + 36) = 32
  size : tagSize kmem t = 40 + (r.size - 16) / get32 m (mbi + r.offset + 8) * 32
  entries : ∀ i < (r.size - 16) / get32 m (mbi + r.offset + 8), MemoryEntryShown m kmem
    (mbi + r.offset + 16 + i * get32 m (mbi + r.offset + 8)) (t + 40 + 32 * i)

/-- The module entry at `e` is the record: where the module starts, its
length, and as much of its name as fits. -/
structure ModuleShown (m kmem : Mem) (mbi : Nat) (r : MbiRecord) (e : Nat) : Prop where
  start : get64 kmem e = get32 m (mbi + r.offset + 8)
  length : get64 kmem e + get64 kmem (e + 8) = get32 m (mbi + r.offset + 12)
  name : ∃ text pre, m.bytes (mbi + r.offset + 16) (r.size - 16) = encode text ++ [0] ∧
    LongestPrefix 63 text pre ∧ kmem.bytes (e + 16) ((encode pre).length + 1) = encode pre ++ [0]

/-- The modules tag at `t` has one entry a module record, in order. -/
structure ModulesShown (m kmem : Mem) (mbi : Nat) (rs : List MbiRecord) (t : Nat) : Prop where
  count : get32 kmem (t + 32) = (modulesOf rs).length
  size : tagSize kmem t = 40 + (modulesOf rs).length * 176
  entries : ∀ i r, (modulesOf rs)[i]? = some r → ModuleShown m kmem mbi r (t + 40 + 176 * i)

/-- The command line tag at `t` points to a copy of the record's string. -/
structure CmdlineShown (m kmem : Mem) (hint mbi : Nat) (r : MbiRecord) (t : Nat) : Prop where
  text : ∃ text, m.bytes (mbi + r.offset + 8) (r.size - 8) = encode text ++ [0]
  length : get32 kmem (t + 40) + 1 = r.size - 8
  string : kmem.bytes (get64 kmem (t + 32) + hint) (r.size - 8) =
    m.bytes (mbi + r.offset + 8) (r.size - 8)

/-- The ACPI tag at `t` is the record: a copy of its RSDP, and fields from
the same bytes. An old record has no XSDT. -/
structure AcpiShown (m kmem : Mem) (hint mbi : Nat) (r : MbiRecord) (t : Nat) : Prop where
  rsdp : kmem.bytes (get64 kmem (t + 32) + hint) (r.size - 8) =
    m.bytes (mbi + r.offset + 8) (r.size - 8)
  xsdt : get64 kmem (t + 40) = if r.type = 15 then get64 m (mbi + r.offset + 8 + 24) else 0
  oemId : get32 kmem (t + 48) = get32 m (mbi + r.offset + 8 + 9)
  version : get16 kmem (t + 52) = (m (mbi + r.offset + 8 + 15)).toNat * 256

theorem mb2MemoryType_lt (x : Nat) : mb2MemoryType x < 2 ^ 32 := by
  unfold mb2MemoryType
  split <;> decide

theorem mb2MemoryAttributes_lt (x : Nat) : mb2MemoryAttributes x < 2 ^ 32 := by
  unfold mb2MemoryAttributes
  split <;> decide

/-- What the loop leaves at an address that only one turn writes. -/
theorem storeLoop_apply {body : Nat → Mem → Mem} {n i a : Nat} (hi : i < n)
    (h : ∀ j, i < j → j < n → ∀ m, body j m a = m a) :
    storeLoop body n m a = body i (storeLoop body i m) a := by
  induction n with
  | zero => omega
  | succ n ih =>
    rw [storeLoop]
    by_cases hlast : i = n
    · rw [hlast]
    · rw [h n (by omega) (by omega), ih (by omega) fun j hj hj' => h j hj (by omega)]

section Entries

variable {m F kmem : Mem} {src e e' : Nat}

theorem MemoryEntryShown.shift (h : MemoryEntryShown m F src e')
    (hF : ∀ i < 24, kmem (e + i) = F (e' + i)) : MemoryEntryShown m kmem src e := by
  have field : ∀ o w, o + w ≤ 24 → kmem.getLE (e + o) w = F.getLE (e' + o) w := fun o w how =>
    Mem.getLE_shift (fun i _ hi => hF i hi) (Nat.zero_le o) how
  exact ⟨(field 0 8 (by decide)).trans h.base, (field 8 8 (by decide)).trans h.length,
    (field 16 4 (by decide)).trans h.type, (field 20 4 (by decide)).trans h.attributes⟩

/-- An entry stored from a memory that shows the source. -/
theorem putMemoryEntry_shown (hF : ∀ i < 24, F (src + i) = m (src + i)) :
    MemoryEntryShown m (putMemoryEntry e (get64 F src) (get64 F (src + 8))
      (mb2MemoryType (get32 F (src + 16))) mb2MemoryAttributes F) src e := by
  have field : ∀ o w, o + w ≤ 24 → F.getLE (src + o) w = m.getLE (src + o) w := fun o w how =>
    Mem.getLE_shift (fun i _ hi => hF i hi) (Nat.zero_le o) how
  have hbase := field 0 8 (by decide)
  have hlength := field 8 8 (by decide)
  have htype := field 16 4 (by decide)
  have htype_lt := mb2MemoryType_lt (get32 m (src + 16))
  have hattr_lt := mb2MemoryAttributes_lt (mb2MemoryType (get32 m (src + 16)))
  have hbase_lt := get64_lt m src
  have hlength_lt := get64_lt m (src + 8)
  unfold get64 get32 at *
  rw [Nat.add_zero] at hbase
  rw [hbase, hlength, htype]
  constructor <;>
    simp (disch := omega) only [putMemoryEntry, get64, get32, put64, put32, Mem.getLE_putLE_frame,
      Mem.getLE_putLE]

end Entries

/-- The stores of the memory map: entry after entry, each from a source that
no store has touched. -/
theorem mb2MemoryMap_fill {scan : Mb2Scan} {m₁ : Mem} (size phys : Nat)
    (hmax : scan.mmapCount < 2 ^ 32)
    (hsrc : ∀ i < scan.mmapCount, ∀ j < 24,
      m₁ (scan.data + scan.mmapOffset + 16 + i * scan.mmapStride + j) =
          m (scan.data + scan.mmapOffset + 16 + i * scan.mmapStride + j) ∧
        (scan.data + scan.mmapOffset + 16 + i * scan.mmapStride + j < tag + 32 ∨
          tag + 40 + scan.mmapCount * 32 ≤
            scan.data + scan.mmapOffset + 16 + i * scan.mmapStride + j)) :
    get32 ((mb2MemoryMap scan size).fill phys tag m₁) (tag + 32) = scan.mmapCount ∧
      get32 ((mb2MemoryMap scan size).fill phys tag m₁) (tag + 36) = 32 ∧
      ∀ i < scan.mmapCount, MemoryEntryShown m ((mb2MemoryMap scan size).fill phys tag m₁)
        (scan.data + scan.mmapOffset + 16 + i * scan.mmapStride) (tag + 40 + 32 * i) := by
  generalize hm₂ : put32 (put32 m₁ (tag + 32) scan.mmapCount) (tag + 36) 32 = m₂
  have hframe : ∀ a, a < tag + 32 ∨ tag + 40 ≤ a → m₂ a = m₁ a := by
    intro a ha
    rw [← hm₂]
    simp (disch := omega) only [put32, Mem.putLE_frame]
  have hbound : get32 m₂ (tag + 32) = scan.mmapCount := by
    rw [← hm₂]
    simp (disch := omega) only [get32, put32, Mem.getLE_putLE_frame, Mem.getLE_putLE]
  have hentrySize : get32 m₂ (tag + 36) = 32 := by
    rw [← hm₂]
    exact Mem.getLE_putLE (by decide)
  have hfill : (mb2MemoryMap scan size).fill phys tag m₁ = storeLoop (fun i m =>
      putMemoryEntry (tag + 40 + 32 * i)
        (get64 m (scan.data + scan.mmapOffset + 16 + i * scan.mmapStride))
        (get64 m (scan.data + scan.mmapOffset + 16 + i * scan.mmapStride + 8))
        (mb2MemoryType (get32 m (scan.data + scan.mmapOffset + 16 + i * scan.mmapStride + 16)))
        mb2MemoryAttributes m) scan.mmapCount m₂ := by
    unfold mb2MemoryMap
    dsimp only
    rw [hm₂, hbound]
  rw [hfill]
  refine ⟨?_, ?_, fun i hi => ?_⟩
  · rw [← hbound]
    refine Mem.getLE_congr fun j hj => storeLoop_frame fun i hi m => putMemoryEntry_frame (by omega)
  · rw [← hentrySize]
    refine Mem.getLE_congr fun j hj => storeLoop_frame fun i hi m => putMemoryEntry_frame (by omega)
  · -- the turn that writes the entry, on what the turns before it have left
    refine (putMemoryEntry_shown fun j hj => ?_).shift fun j hj =>
      storeLoop_apply hi fun k hk _ m => putMemoryEntry_frame (by omega)
    obtain ⟨hsame, hclear⟩ := hsrc i hi j hj
    rw [storeLoop_frame fun k hk m => putMemoryEntry_frame (by omega), hframe _ (by omega), hsame]

section Tags

variable {A : Arena} {m kmem : Mem} {hint mbi total t : Nat} {scan : Mb2Scan} {r : MbiRecord}

/-- The memory map tag, from its record. -/
theorem Seen.memoryMap (h : Seen A m kmem hint (mb2MemoryMap scan size) t)
    (hsize : size = 40 + scan.mmapCount * 32) (hdata : scan.data = mbi)
    (hvalue : (scan.mmapOffset, scan.mmapCount, scan.mmapStride) = (r.offset,
      (r.size - 16) / get32 m (mbi + r.offset + 8), get32 m (mbi + r.offset + 8)))
    (hok : MmapOk m mbi r) (hinside : r.offset + r.size ≤ total)
    (hclear : mbi + total ≤ A.ptr ∨ A.ptr + A.capacity ≤ mbi) : MemoryMapShown m kmem mbi r t := by
  obtain ⟨_, hsize', phys, tag, m₁, hlo, hhi, hm₁, _, hbody, _⟩ := h
  obtain ⟨hlow, hstrideLow, hwhole, hmax⟩ := hok
  change tagSize kmem t = size at hsize'
  change tag + size ≤ A.ptr + A.capacity at hhi
  change ∀ i, 32 ≤ i → i < size → _ at hbody
  simp only [Prod.mk.injEq] at hvalue
  obtain ⟨hoffset, hcount, hstride⟩ := hvalue
  have hdiv := Nat.div_mul_cancel (Nat.dvd_of_mod_eq_zero hwhole)
  rw [← hstride] at hdiv hstrideLow hcount
  rw [← hcount] at hdiv
  have hmax' : scan.mmapCount < 2 ^ 32 := by
    rw [← hstride, ← hcount] at hmax
    unfold u32Max at hmax
    omega
  have hsrc : ∀ i < scan.mmapCount, ∀ j < 24,
      m₁ (scan.data + scan.mmapOffset + 16 + i * scan.mmapStride + j) =
          m (scan.data + scan.mmapOffset + 16 + i * scan.mmapStride + j) ∧
        (scan.data + scan.mmapOffset + 16 + i * scan.mmapStride + j < tag + 32 ∨
          tag + 40 + scan.mmapCount * 32 ≤
            scan.data + scan.mmapOffset + 16 + i * scan.mmapStride + j) := by
    intro i hi j hj
    have hmul : (i + 1) * scan.mmapStride ≤ scan.mmapCount * scan.mmapStride :=
      Nat.mul_le_mul_right _ hi
    rw [Nat.add_mul, Nat.one_mul] at hmul
    exact ⟨hm₁ _ (by unfold Arena.Outside; omega), by omega⟩
  obtain ⟨hF, hF', hentries⟩ := mb2MemoryMap_fill size phys hmax' hsrc
  have hcount' := hcount
  rw [hstride] at hcount'
  refine ⟨?_, ?_, ?_, ?_, ?_⟩
  · rw [← hcount', ← hstride]
    omega
  · rw [← hcount', ← hF]
    exact Mem.getLE_shift hbody (by decide) (by omega)
  · rw [← hF']
    exact Mem.getLE_shift hbody (by decide) (by omega)
  · rw [← hcount', hsize', hsize]
  · rw [← hcount', ← hstride]
    intro i hi
    have hentry := hentries i hi
    rw [hdata, hoffset] at hentry
    refine hentry.shift fun j hj => ?_
    rw [show t + 40 + 32 * i + j = t + (40 + 32 * i + j) by omega,
      show tag + 40 + 32 * i + j = tag + (40 + 32 * i + j) by omega]
    exact hbody _ (by omega) (by omega)

end Tags

/-! ## Modules -/

section Modules

variable {m F kmem : Mem} {mbi total : Nat} {scan : Mb2Scan} {r : MbiRecord}

theorem ModuleShown.shift {e e' : Nat} (h : ModuleShown m F mbi r e')
    (hF : ∀ i < 80, kmem (e + i) = F (e' + i)) : ModuleShown m kmem mbi r e := by
  have field : ∀ o w, o + w ≤ 80 → kmem.getLE (e + o) w = F.getLE (e' + o) w := fun o w how =>
    Mem.getLE_shift (fun i _ hi => hF i hi) (Nat.zero_le o) how
  have hstart : get64 kmem e = get64 F e' := field 0 8 (by decide)
  have hlength : get64 kmem (e + 8) = get64 F (e' + 8) := field 8 8 (by decide)
  obtain ⟨text, pre, htext, hpre, hname⟩ := h.name
  have hfits := hpre.fits
  refine ⟨hstart.trans h.start, ?_, text, pre, htext, hpre, ?_⟩
  · rw [hstart, hlength]
    exact h.length
  · refine (Mem.bytes_congr fun i hi => ?_).trans hname
    rw [Nat.add_assoc, Nat.add_assoc]
    exact hF _ (by omega)

/-- The four stores of an entry, with the values the record has. -/
theorem putModule_eq {start stop copied : Nat}
    (hstart : get32 F (scan.data + offset + 8) = start)
    (hstop : get32 F (scan.data + offset + 12) = stop) (horder : start < stop)
    (hcopied : utf8Prefix F (scan.data + offset + 16) ((size + 2 ^ 32 - 17) % 2 ^ 32) 63 = copied)
    (hclear : scan.data + offset + 16 ≤ tag + 40 + 176 * index ∨
      tag + 40 + 176 * index + 8 ≤ scan.data + offset) :
    putModule scan tag offset index size F =
      ((put64 (put64 F (tag + 40 + 176 * index) start) (tag + 40 + 176 * index + 8) (stop - start)).copy
        (tag + 40 + 176 * index + 16) (scan.data + offset + 16) copied).set
          (tag + 40 + 176 * index + 16 + copied) 0 := by
  have hstop_lt := get32_lt F (scan.data + offset + 12)
  have hstart' : get32 (put64 F (tag + 40 + 176 * index) start) (scan.data + offset + 8) = start := by
    rw [← hstart]
    exact Mem.getLE_putLE_frame (by omega)
  have hstop' : get32 (put64 F (tag + 40 + 176 * index) start) (scan.data + offset + 12) = stop := by
    rw [← hstop]
    exact Mem.getLE_putLE_frame (by omega)
  have hlength : (stop + 2 ^ 64 - start) % 2 ^ 64 = stop - start := by omega
  unfold putModule
  dsimp only
  rw [hcopied, hstart, hstart', hstop', hlength]

/-- One module record, copied from a memory that shows it into an entry
that is clear of it. -/
theorem putModule_shown (hdata : scan.data = mbi) (hok : ModuleOk m mbi r)
    (hsize : r.size < 2 ^ 32) (hF : ∀ i < r.size + 8, F (mbi + r.offset + i) = m (mbi + r.offset + i))
    (hclear : mbi + r.offset + r.size + 8 ≤ tag + 40 + 176 * index ∨
      tag + 40 + 176 * index + 80 ≤ mbi + r.offset) :
    ModuleShown m (putModule scan tag r.offset index r.size F) mbi r (tag + 40 + 176 * index) := by
  subst hdata
  obtain ⟨hlow, horder, hstring⟩ := hok
  obtain ⟨_, hnul, cs, hcs⟩ := validateString_text hstring
  dsimp only at hnul hcs
  have field : ∀ o w, o + w ≤ r.size →
      F.getLE (scan.data + r.offset + o) w = m.getLE (scan.data + r.offset + o) w :=
    fun o w how => Mem.getLE_shift (fun i _ hi => hF i (by omega)) (Nat.zero_le o) how
  have hstart : get32 F (scan.data + r.offset + 8) = get32 m (scan.data + r.offset + 8) :=
    field 8 4 (by omega)
  have hstop : get32 F (scan.data + r.offset + 12) = get32 m (scan.data + r.offset + 12) :=
    field 12 4 (by omega)
  have hstop_lt := get32_lt m (scan.data + r.offset + 12)
  -- the name as the second walk reads it
  have hcs' : Spelled F (scan.data + r.offset + 16) (r.size - 16 - 1) cs := hcs.congr fun i hi => by
    rw [Nat.add_assoc]
    exact hF _ (by omega)
  obtain ⟨pre, hpre, hcopied, hbytes⟩ := utf8Prefix_longest 63 hcs'
  have hfits := hpre.fits
  have hshort := encode_length_le_of_prefix hpre.isPrefix
  rw [← hcs.bytes, Mem.bytes_length] at hshort
  rw [show r.size - 16 - 1 = (r.size + 2 ^ 32 - 17) % 2 ^ 32 by omega] at hcopied
  rw [putModule_eq hstart hstop horder hcopied (by omega)]
  generalize hs : get32 m (scan.data + r.offset + 8) = start at *
  generalize hp : get32 m (scan.data + r.offset + 12) = stop at *
  generalize tag + 40 + 176 * index = entry at hclear ⊢
  have hset : ∀ a, a < entry + 16 → (((put64 (put64 F entry start) (entry + 8) (stop - start)).copy
      (entry + 16) (scan.data + r.offset + 16) (encode pre).length).set
        (entry + 16 + (encode pre).length) 0) a =
      put64 (put64 F entry start) (entry + 8) (stop - start) a := by
    intro a ha
    rw [Mem.set, if_neg (by omega), Mem.copy_frame (by omega)]
  have hfirst : get64 (((put64 (put64 F entry start) (entry + 8) (stop - start)).copy
      (entry + 16) (scan.data + r.offset + 16) (encode pre).length).set
        (entry + 16 + (encode pre).length) 0) entry = start := by
    refine (Mem.getLE_congr fun i hi => hset _ (by omega)).trans ?_
    simp (disch := omega) only [put64, Mem.getLE_putLE_frame, Mem.getLE_putLE]
  have hsecond : get64 (((put64 (put64 F entry start) (entry + 8) (stop - start)).copy
      (entry + 16) (scan.data + r.offset + 16) (encode pre).length).set
        (entry + 16 + (encode pre).length) 0) (entry + 8) = stop - start := by
    refine (Mem.getLE_congr fun i hi => hset _ (by omega)).trans ?_
    exact Mem.getLE_putLE (by omega)
  refine ⟨hfirst.trans hs.symm, ?_, cs, pre, ?_, hpre, ?_⟩
  · rw [hfirst, hsecond, hp]
    omega
  · rw [show r.size - 16 = (r.size - 16 - 1) + 1 by omega, bytes_add, hcs.bytes]
    exact congrArg (fun b => encode cs ++ [b]) hnul
  · have hname : (((put64 (put64 F entry start) (entry + 8) (stop - start)).copy (entry + 16)
        (scan.data + r.offset + 16) (encode pre).length).set
          (entry + 16 + (encode pre).length) 0).bytes (entry + 16) (encode pre).length =
        encode pre := by
      refine (Mem.bytes_congr fun i hi => ?_).trans hbytes
      rw [Mem.set, if_neg (by omega), Mem.copy_apply (by omega) i hi]
      simp (disch := omega) only [put64, Mem.putLE_frame]
    rw [bytes_add, hname]
    refine congrArg (encode pre ++ ·) ?_
    change [if entry + 16 + (encode pre).length + 0 = _ then (0 : UInt8) else _] = [0]
    rw [Nat.add_zero, if_pos rfl]

/-- Modules copied into the entries from an index on. -/
def putModules (scan : Mb2Scan) (tag : Nat) : (index : Nat) → List MbiRecord → Mem → Mem
  | _, [], m => m
  | index, r :: rs, m =>
    putModules scan tag (index + 1) rs (putModule scan tag r.offset index r.size m)

theorem putModules_frame {a : Nat} {mods : List MbiRecord}
    (h : a < tag + 40 + 176 * index ∨ tag + 40 + 176 * (index + mods.length) ≤ a) :
    putModules scan tag index mods F a = F a := by
  induction mods generalizing index F with
  | nil => rfl
  | cons r mods ih =>
    rw [List.length_cons] at h
    rw [putModules, ih (by omega), putModule_frame (by omega)]

/-- Behind the last module the walk stops, wherever it is. -/
theorem modulesLoop_stop {fuel : Nat} (hcount : get32 F (tag + 32) = index) :
    modulesLoop scan tag fuel offset index F = F := by
  cases fuel with
  | zero => rfl
  | succ fuel => rw [modulesLoop, if_neg (by omega)]

/-- The second walk meets the records of the first, and each module goes
into the next entry. -/
theorem modulesLoop_eq {count fuel : Nat}
    (hrecords : Records m mbi total offset rs) (hdata : scan.data = mbi) (htotal : scan.total = total)
    (hF : ∀ a, mbi ≤ a → a < mbi + total → F a = m a) (hcount : get32 F (tag + 32) = count)
    (hindex : index + (modulesOf rs).length = count) (hfuel : rs.length ≤ fuel)
    (hclear : mbi + total ≤ tag + 32 ∨ tag + 40 + count * 176 ≤ mbi) :
    modulesLoop scan tag fuel offset index F = putModules scan tag index (modulesOf rs) F := by
  induction rs generalizing fuel offset index F with
  | nil => exact modulesLoop_stop (hcount.trans hindex.symm)
  | cons r rs ih =>
    obtain ⟨rfl, htype, _, hsize, hlow, hin, hrest⟩ := hrecords
    have hroom := hrest.room
    have hup := le_roundUp r.size (show 0 < 8 by decide)
    cases fuel with
    | zero => simp at hfuel
    | succ fuel =>
      rw [List.length_cons, Nat.add_le_add_iff_right] at hfuel
      by_cases hnone : modulesOf (r :: rs) = []
      · rw [hnone] at hindex ⊢
        exact modulesLoop_stop (hcount.trans hindex.symm)
      have hsome := List.length_pos_of_ne_nil hnone
      have htype' : get32 F (scan.data + r.offset) = r.type := by
        rw [htype, hdata]
        exact Mem.getLE_congr fun i hi => hF _ (by omega) (by omega)
      have hsize' : get32 F (scan.data + r.offset + 4) = r.size := by
        rw [hsize, hdata]
        exact Mem.getLE_congr fun i hi => hF _ (by omega) (by omega)
      rw [modulesLoop, if_pos ⟨by omega, by omega⟩]
      dsimp only
      rw [htype', hsize', padded_eq (hsize ▸ get32_lt _ _)]
      by_cases hmodule : r.type = 3
      · have hmods : modulesOf (r :: rs) = r :: modulesOf rs :=
          List.filter_cons_of_pos (decide_eq_true hmodule)
        rw [hmods, List.length_cons] at hindex
        have hcount' : get32 (putModule scan tag r.offset index r.size F) (tag + 32) = count := by
          rw [← hcount]
          exact Mem.getLE_congr fun i hi => putModule_frame (by omega)
        rw [if_pos hmodule, hmods, putModules]
        refine ih hrest (fun a ha ha' => ?_) hcount' (by omega) hfuel
        rw [putModule_frame (by omega), hF a ha ha']
      · have hmods : modulesOf (r :: rs) = modulesOf rs :=
          List.filter_cons_of_neg (by simpa using hmodule)
        rw [hmods] at hindex ⊢
        rw [if_neg hmodule]
        exact ih hrest hF hcount hindex hfuel

/-- Every module is shown in its entry. -/
theorem putModules_shown {mods : List MbiRecord} (hdata : scan.data = mbi)
    (hmods : ∀ r ∈ mods, ModuleOk m mbi r ∧ r.size < 2 ^ 32 ∧ r.offset + r.size + 8 ≤ total)
    (hF : ∀ a, mbi ≤ a → a < mbi + total → F a = m a)
    (hclear : mbi + total ≤ tag + 32 ∨ tag + 40 + 176 * (index + mods.length) ≤ mbi) :
    ∀ i r, mods[i]? = some r →
      ModuleShown m (putModules scan tag index mods F) mbi r (tag + 40 + 176 * (index + i)) := by
  induction mods generalizing index F with
  | nil =>
    intro i r hi
    cases hi
  | cons r mods ih =>
    obtain ⟨⟨hok, hsize, hin⟩, hrest⟩ := List.forall_mem_cons.mp hmods
    rw [List.length_cons] at hclear
    intro i r' hi
    cases i with
    | zero =>
      rw [List.getElem?_cons_zero, Option.some.injEq] at hi
      subst hi
      have hentry : ModuleShown m (putModule scan tag r.offset index r.size F) mbi r
          (tag + 40 + 176 * index) :=
        putModule_shown hdata hok hsize (fun i hi => hF _ (by omega) (by omega)) (by omega)
      refine hentry.shift fun j hj => ?_
      rw [putModules]
      exact putModules_frame (by omega)
    | succ i =>
      rw [List.getElem?_cons_succ] at hi
      rw [show index + (i + 1) = index + 1 + i by omega]
      refine ih hrest (fun a ha ha' => ?_) (by omega) i r' hi
      rw [putModule_frame (by omega), hF a ha ha']

/-- The modules tag, from the row. -/
theorem Seen.modules {t : Nat}
    (h : Seen A m kmem hint (mb2Modules scan size) t) (hsize : size = 40 + scan.moduleCount * 176)
    (hmax : scan.moduleCount ≤ u32Max) (hrecords : Records m mbi total 8 rs)
    (hdata : scan.data = mbi) (htotal : scan.total = total)
    (hcount : scan.moduleCount = (modulesOf rs).length) (hok : ∀ r ∈ modulesOf rs, ModuleOk m mbi r)
    (hclear : mbi + total ≤ A.ptr ∨ A.ptr + A.capacity ≤ mbi) : ModulesShown m kmem mbi rs t := by
  obtain ⟨_, hsize', phys, tag, m₁, hlo, hhi, hm₁, _, hbody, _⟩ := h
  change tagSize kmem t = size at hsize'
  change tag + size ≤ A.ptr + A.capacity at hhi
  change ∀ i, 32 ≤ i → i < size → kmem (t + i) = modulesLoop scan tag scan.total 8 0
    (put32 m₁ (tag + 32) scan.moduleCount) (tag + i) at hbody
  have hroom := hrecords.room
  unfold u32Max at hmax
  have hcount' : get32 (put32 m₁ (tag + 32) scan.moduleCount) (tag + 32) = scan.moduleCount :=
    Mem.getLE_putLE (by omega)
  have hF : ∀ a, mbi ≤ a → a < mbi + total → put32 m₁ (tag + 32) scan.moduleCount a = m a := by
    intro a ha ha'
    rw [put32, Mem.putLE_frame (by omega), hm₁ a (by unfold Arena.Outside; omega)]
  rw [modulesLoop_eq hrecords hdata htotal hF hcount'
    (show 0 + (modulesOf rs).length = scan.moduleCount by omega)
    (show rs.length ≤ scan.total by omega) (by omega)] at hbody
  have hmods : ∀ r ∈ modulesOf rs,
      ModuleOk m mbi r ∧ r.size < 2 ^ 32 ∧ r.offset + r.size + 8 ≤ total := by
    intro r hr
    obtain ⟨_, hsize, _, hin⟩ := hrecords.mem r (List.mem_filter.mp hr).1
    exact ⟨hok r hr, hsize ▸ get32_lt _ _, hin⟩
  have hentries := putModules_shown hdata hmods hF
    (show mbi + total ≤ tag + 32 ∨ tag + 40 + 176 * (0 + (modulesOf rs).length) ≤ mbi by omega)
  refine ⟨?_, ?_, ?_⟩
  · rw [← hcount]
    refine Eq.trans ?_ hcount'
    refine (Mem.getLE_shift hbody (by decide) (by omega)).trans (Mem.getLE_congr fun i hi => ?_)
    exact putModules_frame (by omega)
  · rw [hsize', hsize, hcount]
  · intro i r hi
    have hlt : i < (modulesOf rs).length := (List.getElem?_eq_some_iff.mp hi).1
    have hentry := hentries i r hi
    rw [Nat.zero_add] at hentry
    refine hentry.shift fun j hj => ?_
    rw [show t + 40 + 176 * i + j = t + (40 + 176 * i + j) by omega,
      show tag + 40 + 176 * i + j = tag + (40 + 176 * i + j) by omega]
    exact hbody _ (by omega) (by omega)

end Modules

/-! ## ACPI -/

/-- The ACPI tag, from its record. -/
theorem Seen.acpi {kmem : Mem} {mbi t : Nat} {scan : Mb2Scan} {r : MbiRecord}
    (h : Seen A m kmem hint (mb2Acpi scan) t) (hdata : scan.data = mbi)
    (hrecord : AcpiRecord m mbi (decide (r.type = 15)) r scan.acpi)
    (hout : A.Outside (mbi + r.offset + 8) (r.size - 8)) : AcpiShown m kmem hint mbi r t := by
  obtain ⟨_, _, phys, tag, m₁, hlo, hhi, _, _, hbody, hblob⟩ := h
  obtain ⟨hoffset, hbytes, hxsdt, hoem, hversion⟩ := hrecord
  change ∀ i, 32 ≤ i → i < 56 → _ at hbody
  have hcopy := hblob (scan.data + scan.acpi.offset) scan.acpi.bytes rfl
  rw [hdata, hoffset, hbytes, ← Nat.add_assoc] at hcopy
  have hhigh := hcopy.high
  have hbelow := A.below
  have hxsdt_lt : scan.acpi.xsdt < 2 ^ 64 := by
    rw [hxsdt]
    split
    · exact get64_lt _ _
    · decide
  have hoem_lt : scan.acpi.oemId < 2 ^ 32 := hoem ▸ get32_lt _ _
  have hversion_lt : scan.acpi.version < 2 ^ 16 := by
    have := (m (mbi + r.offset + 8 + 15)).toNat_lt
    omega
  -- the flags are behind the fields in question, whether they are stored or not
  have hfill : ∀ o w, 32 ≤ o → o + w ≤ 54 → kmem.getLE (t + o) w =
      (put16 (put32 (put64 (put64 m₁ (tag + 32) phys) (tag + 40) scan.acpi.xsdt) (tag + 48)
        scan.acpi.oemId) (tag + 52) scan.acpi.version).getLE (tag + o) w := by
    intro o w ho how
    rw [Mem.getLE_shift hbody ho (by omega)]
    unfold mb2Acpi
    dsimp only
    split
    · rw [put16, Mem.getLE_putLE_frame (by omega)]
    · rfl
  have hphys : get64 kmem (t + 32) = phys := by
    rw [get64, hfill 32 8 (by decide) (by decide)]
    simp (disch := omega) only [put64, put32, put16, Mem.getLE_putLE_frame, Mem.getLE_putLE]
  refine ⟨?_, ?_, ?_, ?_⟩
  · rw [hphys]
    exact hcopy.bytes hout
  · rw [get64, hfill 40 8 (by decide) (by decide)]
    simp (disch := omega) only [put64, put32, put16, Mem.getLE_putLE_frame, Mem.getLE_putLE]
    rw [hxsdt]
    simp only [decide_eq_true_eq]
  · rw [get32, hfill 48 4 (by decide) (by decide)]
    simp (disch := omega) only [put64, put32, put16, Mem.getLE_putLE_frame, Mem.getLE_putLE]
    exact hoem
  · rw [get16, hfill 52 2 (by decide) (by decide), put16, Mem.getLE_putLE (by omega)]
    exact hversion

/-! ## What the scan has found -/

section Found

variable {m : Mem} {mbi total : Nat} {rs : List MbiRecord} {st : ScanState}

/-- The ACPI fields a scan ends with are one record's, the new one's if
there is one. -/
theorem finalAcpi_record (h : scanRecords m rs (scanStart mbi total) = .ok st) :
    (∃ r ∈ rs, (r.type = 15 ∨ r.type = 14 ∧ ∀ r' ∈ rs, r'.type ≠ 15) ∧
      AcpiRecord m mbi (decide (r.type = 15)) r (finalAcpi st)) ∨
    ((∀ r ∈ rs, r.type ≠ 14 ∧ r.type ≠ 15) ∧ (finalAcpi st).offset = sizeMax) := by
  unfold finalAcpi
  by_cases hnew : ∃ r ∈ rs, r.type = 15
  · obtain ⟨r, hr, htype⟩ := hnew
    obtain ⟨hfull, hvalue⟩ := (acpiNewSlot m).fold h r hr htype
    refine Or.inl ⟨r, hr, Or.inl htype, ?_⟩
    rw [if_pos (show st.sawAcpiNew = true from hfull), decide_eq_true htype]
    exact hvalue
  have hnonew : ∀ r ∈ rs, r.type ≠ 15 := fun r hr htype => hnew ⟨r, hr, htype⟩
  have hempty : st.sawAcpiNew = false := ((acpiNewSlot m).kept_fold h hnonew).1
  rw [hempty, if_neg Bool.false_ne_true]
  by_cases hold : ∃ r ∈ rs, r.type = 14
  · obtain ⟨r, hr, htype⟩ := hold
    obtain ⟨hfull, hvalue⟩ := (acpiOldSlot m).fold h r hr htype
    refine Or.inl ⟨r, hr, Or.inr ⟨htype, hnonew⟩, ?_⟩
    rw [if_pos (show st.sawAcpiOld = true from hfull), decide_eq_false (hnonew r hr)]
    exact hvalue
  · have hnoold : ∀ r ∈ rs, r.type ≠ 14 := fun r hr htype => hold ⟨r, hr, htype⟩
    have hempty' : st.sawAcpiOld = false := ((acpiOldSlot m).kept_fold h hnoold).1
    refine Or.inr ⟨fun r hr => ⟨hnoold r hr, hnonew r hr⟩, ?_⟩
    rw [hempty', if_neg Bool.false_ne_true, acpi_kept h fun r hr => ⟨hnoold r hr, hnonew r hr⟩]
    rfl

end Found

section Objects

variable (s : Multiboot2Snapshot) (sizes : Mb2Sizes)

end Objects

/-! ## From the structure to the kernel -/

/-- A structure the checks have taken: its row, the scan's state at the end
of it, and that it keeps clear of the arena. -/
structure Taken (A : Arena) (m : Mem) (s : Multiboot2Snapshot) (sizes : Mb2Sizes)
    (rs : List MbiRecord) (st : ScanState) : Prop where
  records : Records m s.mbi (get32 m s.mbi) 8 rs
  fold : scanRecords m rs (scanStart s.mbi (get32 m s.mbi)) = .ok st
  scan : sizes.scan = scanFinish st
  data : sizes.scan.data = s.mbi
  total : sizes.scan.total = get32 m s.mbi
  mmapSize : mb2MmapSize sizes.scan = .ok sizes.mmapSize
  modulesSize : mb2ModulesSize sizes.scan = .ok sizes.modulesSize
  clear : s.mbi + get32 m s.mbi ≤ A.ptr ∨ A.ptr + A.capacity ≤ s.mbi

namespace Taken

variable {A : Arena} {m kmem : Mem} {s : Multiboot2Snapshot} {sizes : Mb2Sizes} {rs : List MbiRecord}
  {st : ScanState} {r : MbiRecord} {hint t : Nat}

theorem memoryMap (h : Taken A m s sizes rs st) (hp : sizes.scan.mmapOffset ≠ sizeMax)
    (hseen : Seen A m kmem hint (mb2MemoryMap sizes.scan sizes.mmapSize) t) (hr : r ∈ rs)
    (htype : r.type = 6) : MemoryMapShown m kmem s.mbi r t := by
  obtain ⟨hok, hvalue⟩ := ((mmapSlot m).fold h.fold r hr htype).2
  have hin := (h.records.mem r hr).2.2.2
  refine hseen.memoryMap (mb2MmapSize_ok h.mmapSize (bne_iff_ne.mpr hp)) h.data ?_ hok (by omega) h.clear
  rw [h.scan]
  exact hvalue

theorem modules_count (h : Taken A m s sizes rs st) :
    sizes.scan.moduleCount = (modulesOf rs).length ∧ ∀ r ∈ modulesOf rs, ModuleOk m s.mbi r := by
  obtain ⟨hcount, hok⟩ := modules_fold h.fold
  rw [h.scan]
  exact ⟨hcount.trans (Nat.zero_add _), hok⟩

theorem modules (h : Taken A m s sizes rs st) (hp : sizes.scan.moduleCount ≠ 0)
    (hseen : Seen A m kmem hint (mb2Modules sizes.scan sizes.modulesSize) t) :
    ModulesShown m kmem s.mbi rs t := by
  obtain ⟨hmax, hsize⟩ := mb2ModulesSize_ok h.modulesSize (bne_iff_ne.mpr hp)
  obtain ⟨hcount, hok⟩ := h.modules_count
  exact hseen.modules hsize hmax h.records h.data h.total hcount hok h.clear

theorem cmdline (h : Taken A m s sizes rs st)
    (hseen : Seen A m kmem hint
      (emitCmdline (sizes.scan.data + sizes.scan.cmdlineOffset) sizes.scan.cmdlineBytes) t)
    (hr : r ∈ rs) (htype : r.type = 1) : CmdlineShown m kmem hint s.mbi r t := by
  obtain ⟨hvalue, hstring⟩ := ((cmdlineSlot m).fold h.fold r hr htype).2
  obtain ⟨_, hsize, hlow, hin⟩ := h.records.mem r hr
  obtain ⟨hpos, hnul, cs, hcs⟩ := validateString_text hstring
  change 1 ≤ r.size - 8 at hpos
  change m (s.mbi + r.offset + 8 + (r.size - 8 - 1)) = 0 at hnul
  change Spelled m (s.mbi + r.offset + 8) (r.size - 8 - 1) cs at hcs
  have hoffset : sizes.scan.cmdlineOffset = r.offset + 8 := by
    rw [h.scan]
    exact congrArg Prod.fst hvalue
  have hbytes : sizes.scan.cmdlineBytes = r.size - 8 := by
    rw [h.scan]
    exact congrArg Prod.snd hvalue
  have hlt := get32_lt m (s.mbi + r.offset + 4)
  have hclear := h.clear
  rw [h.data, hoffset, hbytes, ← Nat.add_assoc] at hseen
  have hout : A.Outside (s.mbi + r.offset + 8) (r.size - 8) := by
    unfold Arena.Outside
    omega
  obtain ⟨hcopy, hlen, _⟩ := hseen.cmdline hout (by unfold u32Max; omega)
  refine ⟨⟨cs, ?_⟩, by omega, hcopy.bytes hout⟩
  rw [show r.size - 8 = (r.size - 8 - 1) + 1 by omega, bytes_add, hcs.bytes]
  exact congrArg (fun b => encode cs ++ [b]) hnul

theorem acpi (h : Taken A m s sizes rs st) (hp : sizes.scan.acpi.offset ≠ sizeMax)
    (hseen : Seen A m kmem hint (mb2Acpi sizes.scan) t) :
    ∃ r ∈ rs, (r.type = 15 ∨ r.type = 14 ∧ ∀ r' ∈ rs, r'.type ≠ 15) ∧
      AcpiShown m kmem hint s.mbi r t := by
  have hacpi : sizes.scan.acpi = finalAcpi st := by rw [h.scan]; rfl
  rcases finalAcpi_record h.fold with ⟨r, hr, htype, hrecord⟩ | ⟨_, hoffset⟩
  · rw [← hacpi] at hrecord
    obtain ⟨_, _, hlow, hin⟩ := h.records.mem r hr
    have hclear := h.clear
    refine ⟨r, hr, htype, hseen.acpi h.data hrecord ?_⟩
    unfold Arena.Outside
    omega
  · rw [← hacpi] at hoffset
    exact absurd hoffset hp

end Taken

end BearBoot.Import
