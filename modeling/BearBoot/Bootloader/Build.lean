import BearBoot.Machine.Bits
import BearBoot.Kernel.Walk

/-!
# The tag builder, as `bootloader/bbp_build.c` computes it

The loader owns an arena and appends tags and blobs to it; every tag is
linked behind the one before, and `finalize` seals the whole chain and
fills INFO. The builder record is `struct bbp_builder`, the arena and INFO
are bytes of one flat memory, and every function answers the builder and
the memory it leaves behind. The builder pointer itself is never `NULL`
here; every other `NULL` test of the source is modelled.

Machine words: `used`, `capacity` and lengths are `size_t`, physical
addresses `uint64_t`. The one subtraction that could wrap
(`builder_phys_to_virt`) is taken modulo `2 ^ 64`; sums are formed only
after the source has bounded them.

The reseal loop of `finalize` follows `next_tag` until it meets null, with
no bound of its own. It takes fuel here, and `none` is "still walking".
-/

namespace BearBoot.Bootloader

open Machine

variable {a : Nat}

/-- `struct bbp_builder`. -/
structure Builder where
  arena : Nat
  arenaPhys : Nat
  capacity : Nat
  used : Nat
  last : Nat
  firstPhys : Nat
  tagCount : Nat
  overflow : Bool
  deriving DecidableEq, Repr

/-- `BBP_BUILDER_MAX_PHYS`. -/
def builderMaxPhys : Nat := 2 ^ 48

/-- The address `a` is in the `next_tag` of the last tag. -/
def Builder.InLink (b : Builder) (a : Nat) : Prop :=
  b.last ≠ 0 ∧ b.last + 16 ≤ a ∧ a < b.last + 24

def Builder.fail (b : Builder) : Builder := { b with overflow := true }

/-- `bbp_builder_init`: the arena is zeroed, and an arena no physical
pointer can name starts overflowed. -/
def builderInit (m : Mem) (arena arenaPhys capacity : Nat) : Builder × Mem :=
  let b : Builder := ⟨arena, arenaPhys, capacity, 0, 0, 0, 0, false⟩
  if arena = 0 then
    (if capacity ≠ 0 then b.fail else b, m)
  else
    (if arenaPhys = 0 ∨ arenaPhys &&& 7 ≠ 0 ∨ builderMaxPhys ≤ arenaPhys then b.fail else b,
      m.fill arena capacity)

/-- `arena_bump`: the pointer and the physical address of the bytes, or
`none` for `NULL`. -/
def arenaBump (b : Builder) (len : Nat) : Option (Nat × Nat) × Builder :=
  if b.arena = 0 ∨ b.overflow ∨ 2 ^ 64 - 1 - 7 < b.used then (none, b.fail)
  else
    let start := (b.used + 7) &&& not64 7
    if b.capacity < start ∨ b.capacity - start < len then (none, b.fail)
    else if builderMaxPhys < b.arenaPhys ∨ builderMaxPhys - b.arenaPhys < start then
      (none, b.fail)
    else
      let phys := b.arenaPhys + start
      if builderMaxPhys - phys < len then (none, b.fail)
      else (some (b.arena + start, phys), { b with used := start + len })

/-- The header `bbp_alloc_tag` stamps. -/
def stampHeader (m : Mem) (tag id version size : Nat) : Mem :=
  let m := put64 m tag id
  let m := put32 m (tag + 8) size
  let m := put16 m (tag + 12) version
  let m := put16 m (tag + 14) 0
  let m := put64 m (tag + 16) 0
  put64 m (tag + 24) 0

/-- `bbp_alloc_tag`: the tag's pointer, `none` for `NULL`. -/
def allocTag (b : Builder) (m : Mem) (id version size : Nat) : Option Nat × Builder × Mem :=
  if size < 32 ∨ 16 * 1024 * 1024 < size ∨ 2 ^ 32 - 1 < size ∨ 1024 ≤ b.tagCount then
    (none, b.fail, m)
  else
    match arenaBump b size with
    | (none, b) => (none, b, m)
    | (some (tag, phys), b) =>
      let m := stampHeader m tag id version size
      let m := if b.last ≠ 0 then put64 m (b.last + 16) phys else m
      let firstPhys := if b.last ≠ 0 then b.firstPhys else phys
      (some tag,
        { b with firstPhys := firstPhys, last := tag, tagCount := b.tagCount + 1 }, m)

/-- `bbp_seal_tag`. The size is one `bbp_alloc_tag` stamped, so the CRC's
subtraction stays in range. -/
def sealTag (m : Mem) (tag : Nat) : Mem :=
  put64 m (tag + 24) (crcSpliced m tag (tagSize m tag) 24)

/-- `builder_phys_to_virt`. -/
def builderPhysToVirt (b : Builder) (p : Nat) : Nat :=
  b.arena + (p + 2 ^ 64 - b.arenaPhys) % 2 ^ 64

/-- The scan `while (len < source_bytes && s[len]) len++`, with `left`
bytes of the source still unread. -/
def strnlen (m : Mem) (s : Nat) : Nat → Nat
  | 0 => 0
  | left + 1 => if m s = 0 then 0 else strnlen m (s + 1) left + 1

/-- `bbp_arena_strdup_n`: the copy's physical address (`0` on failure) and
`*out_len`. -/
def arenaStrdupN (b : Builder) (m : Mem) (s sourceBytes : Nat) : (Nat × Nat) × Builder × Mem :=
  if s = 0 ∨ sourceBytes = 0 then ((0, 0), b.fail, m)
  else
    let len := strnlen m s sourceBytes
    if len = sourceBytes ∨ 2 ^ 32 - 1 < len then ((0, 0), b.fail, m)
    else
      match arenaBump b (len + 1) with
      | (none, b) => ((0, 0), b, m)
      | (some (p, phys), b) => ((phys, len), b, (m.copy p s len).set (p + len) 0)

/-- `bbp_arena_blob`: the copy's physical address, `0` on failure and for
an empty blob. -/
def arenaBlob (b : Builder) (m : Mem) (data len : Nat) : Nat × Builder × Mem :=
  if data = 0 ∧ len ≠ 0 then (0, b.fail, m)
  else if len = 0 then (0, b, m)
  else
    match arenaBump b len with
    | (none, b) => (0, b, m)
    | (some (p, phys), b) => (phys, b, m.copy p data len)

/-- The reseal loop of `bbp_builder_finalize`. -/
def resealLoop (b : Builder) : (fuel : Nat) → Mem → (cur : Nat) → Option Mem
  | 0, m, cur => if cur = 0 then some m else none
  | fuel + 1, m, cur =>
    if cur = 0 then some m
    else
      let h := builderPhysToVirt b cur
      let m := sealTag m h
      resealLoop b fuel m (tagNext m h)

/-- What `bbp_builder_finalize` writes into INFO, store by store. -/
def fillInfo (b : Builder) (m : Mem) (info : Nat) : Mem :=
  let m := put16 m (info + 16) 1
  let m := put16 m (info + 18) 1
  let m := (m.fill info 16).blit info (infoMagic.take 9)
  let m := put32 m (info + 116) b.tagCount
  let m := put64 m (info + 120) b.firstPhys
  let m := put32 m (info + 20) (144 + b.used)
  let m := put64 m (info + 136) 0
  put64 m (info + 136) (crcSpliced m info 144 136)

/-- `bbp_builder_finalize`: INFO's physical address, `0` where it refuses. -/
def builderFinalize (fuel : Nat) (b : Builder) (m : Mem) (info infoPhys : Nat) :
    Option (Nat × Builder × Mem) :=
  if info = 0 then some (0, b, m)
  else if b.overflow ∨ 1024 < b.tagCount ∨ b.capacity < b.used ∨
      64 * 1024 * 1024 - 144 < b.used then some (0, b.fail, m)
  else
    match resealLoop b fuel m b.firstPhys with
    | none => none
    | some m => some (infoPhys, b, fillInfo b m info)

/-! ## What each call does -/

/-- The arena has `len` bytes behind what is used, and a physical pointer can
name them. -/
structure Builder.Room (b : Builder) (len : Nat) : Prop where
  arena : b.arena ≠ 0
  overflow : b.overflow = false
  capacity : roundUp b.used 8 + len ≤ b.capacity
  below : b.arenaPhys + roundUp b.used 8 + len ≤ 2 ^ 48

/-- The bump allocator: it fails closed, or hands out the next aligned
bytes of the arena. -/
theorem arenaBump_room (b : Builder) (len : Nat) :
    arenaBump b len = (none, b.fail) ∨
    (b.Room len ∧
      arenaBump b len = (some (b.arena + roundUp b.used 8, b.arenaPhys + roundUp b.used 8),
        { b with used := roundUp b.used 8 + len })) := by
  unfold arenaBump
  split
  · exact Or.inl rfl
  next hnull =>
    have hstart : (b.used + 7) &&& not64 7 = roundUp b.used 8 :=
      add_and_not64 (k := 3) (by decide) (by omega)
    have hmax : builderMaxPhys = 2 ^ 48 := rfl
    simp only [not_or, Bool.not_eq_true] at hnull
    simp only [hstart]
    split
    · exact Or.inl rfl
    next hroom =>
      split
      · exact Or.inl rfl
      next hphys =>
        split
        · exact Or.inl rfl
        next hlen => exact Or.inr ⟨⟨hnull.1, hnull.2.1, by omega, by omega⟩, rfl⟩

/-- Where there is room the allocator serves. -/
theorem Builder.Room.bump {b : Builder} {len : Nat} (h : b.Room len) :
    arenaBump b len = (some (b.arena + roundUp b.used 8, b.arenaPhys + roundUp b.used 8),
      { b with used := roundUp b.used 8 + len }) := by
  obtain ⟨harena, hover, hcap, hbelow⟩ := h
  have hle := le_roundUp b.used (show 0 < 8 by decide)
  have hmax : builderMaxPhys = 2 ^ 48 := rfl
  have hstart : (b.used + 7) &&& not64 7 = roundUp b.used 8 :=
    add_and_not64 (k := 3) (by decide) (by omega)
  unfold arenaBump
  rw [if_neg (by rw [hover]; simp only [Bool.false_eq_true, false_or]; omega)]
  dsimp only
  rw [hstart, if_neg (by omega), if_neg (by omega), if_neg (by omega)]

theorem Builder.Room.blob {b : Builder} {data len : Nat} (h : b.Room len) (m : Mem) (hdata : data ≠ 0)
    (hlen : len ≠ 0) : arenaBlob b m data len =
      (b.arenaPhys + roundUp b.used 8, { b with used := roundUp b.used 8 + len },
        m.copy (b.arena + roundUp b.used 8) data len) := by
  unfold arenaBlob
  rw [if_neg (by omega), if_neg hlen, h.bump]

theorem arenaBump_cases (b : Builder) (len : Nat) :
    arenaBump b len = (none, b.fail) ∨
    (b.arena ≠ 0 ∧ roundUp b.used 8 + len ≤ b.capacity ∧
      arenaBump b len = (some (b.arena + roundUp b.used 8, b.arenaPhys + roundUp b.used 8),
        { b with used := roundUp b.used 8 + len })) := by
  rcases arenaBump_room b len with hfail | ⟨hroom, heq⟩
  · exact Or.inl hfail
  · exact Or.inr ⟨hroom.arena, hroom.capacity, heq⟩

section Stores

variable {m : Mem} {tag id version size : Nat}

theorem stampHeader_frame (h : a < tag ∨ tag + 32 ≤ a) :
    stampHeader m tag id version size a = m a := by
  simp (disch := omega) only [stampHeader, put64, put32, put16, Mem.putLE_frame]

theorem stampHeader_id (hid : id < 2 ^ 64) : tagId (stampHeader m tag id version size) tag = id := by
  simp (disch := omega) only [stampHeader, tagId, get64, put64, put32, put16,
    Mem.getLE_putLE_frame, Mem.getLE_putLE]

theorem stampHeader_size (hsize : size < 2 ^ 32) :
    tagSize (stampHeader m tag id version size) tag = size := by
  simp (disch := omega) only [stampHeader, tagSize, get32, put64, put32, put16,
    Mem.getLE_putLE_frame, Mem.getLE_putLE]

theorem stampHeader_version (hversion : version < 2 ^ 16) :
    tagVersion (stampHeader m tag id version size) tag = version := by
  simp (disch := omega) only [stampHeader, tagVersion, get16, put64, put32, put16,
    Mem.getLE_putLE_frame, Mem.getLE_putLE]

theorem stampHeader_flags : tagFlags (stampHeader m tag id version size) tag = 0 := by
  simp (disch := omega) only [stampHeader, tagFlags, get16, put64, put32, put16,
    Mem.getLE_putLE_frame, Mem.getLE_putLE]

theorem stampHeader_next : tagNext (stampHeader m tag id version size) tag = 0 := by
  simp (disch := omega) only [stampHeader, tagNext, get64, put64, put32, put16,
    Mem.getLE_putLE_frame, Mem.getLE_putLE]

theorem sealTag_frame (h : a < tag + 24 ∨ tag + 32 ≤ a) : sealTag m tag a = m a :=
  Mem.putLE_frame (by omega)

/-- A sealed tag is intact. -/
theorem sealTag_crcOk (m : Mem) (tag : Nat) : Kernel.CrcOk (sealTag m tag) tag := by
  have hsize : tagSize (sealTag m tag) tag = tagSize m tag :=
    Kernel.tagSize_congr fun i hi => sealTag_frame (by omega)
  unfold Kernel.CrcOk
  rw [hsize]
  exact (crcSpliced_seal m tag (tagSize m tag) 24).symm

end Stores

section Info

variable {b : Builder} {m : Mem} {info : Nat}

theorem fillInfo_frame (h : a < info ∨ info + 144 ≤ a) : fillInfo b m info a = m a := by
  have hblit : ∀ m : Mem, (m.blit info (infoMagic.take 9)) a = m a := fun m =>
    Mem.blit_frame (by rw [show (infoMagic.take 9).length = 9 from rfl]; omega)
  simp (disch := omega) only [fillInfo, put64, put32, put16, Mem.putLE_frame, hblit]
  rw [Mem.fill_apply, if_neg (by omega)]
  simp (disch := omega) only [Mem.putLE_frame]

theorem fillInfo_firstTag (h : b.firstPhys < 2 ^ 64) :
    infoFirstTag (fillInfo b m info) info = b.firstPhys := by
  simp (disch := omega) only [fillInfo, infoFirstTag, get64, put64, put32,
    Mem.getLE_putLE_frame, Mem.getLE_putLE]

theorem fillInfo_magic : (fillInfo b m info).bytes info 16 = infoMagic := by
  have hfront : ∀ m : Mem, ((m.fill info 16).blit info (infoMagic.take 9)).bytes info 16 =
      infoMagic := by
    intro m
    simp [Mem.bytes, List.range_succ, Mem.blit_apply, Mem.fill_apply, infoMagic]
  rw [← hfront (put16 (put16 m (info + 16) 1) (info + 18) 1)]
  apply Mem.bytes_congr
  intro i hi
  simp (disch := omega) only [fillInfo, put64, put32, Mem.putLE_frame]

/-- The kernel takes the INFO that `finalize` fills. -/
theorem fillInfo_ok (hused : b.used ≤ 64 * 1024 * 1024 - 144) :
    Kernel.InfoOk (fillInfo b m info) info := by
  have hsize : get32 (fillInfo b m info) (info + 20) = 144 + b.used := by
    simp (disch := omega) only [fillInfo, get32, put64, put32, Mem.getLE_putLE_frame,
      Mem.getLE_putLE]
  have hmajor : get16 (fillInfo b m info) (info + 16) = 1 := by
    have hblit : ∀ m : Mem, ((m.fill info 16).blit info (infoMagic.take 9)).getLE (info + 16) 2 =
        m.getLE (info + 16) 2 := by
      intro m
      apply Mem.getLE_congr
      intro i hi
      rw [Mem.blit_frame (by rw [show (infoMagic.take 9).length = 9 from rfl]; omega),
        Mem.fill_apply, if_neg (by omega)]
    simp (disch := omega) only [fillInfo, get16, put64, put32, put16, Mem.getLE_putLE_frame,
      hblit, Mem.getLE_putLE]
  exact ⟨fillInfo_magic, hmajor, by omega, by omega, crcSpliced_seal _ info 144 136⟩

end Info

end BearBoot.Bootloader
