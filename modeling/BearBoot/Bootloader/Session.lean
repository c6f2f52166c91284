import BearBoot.Bootloader.Chain

/-!
# A loader's session

The builder's calls come in any order, with the caller writing into the
tags it was given all along. A session is the builder, the memory, and
beside them what the CALLER knows: the tags it was handed, in order, each
with the id, version and size it asked for and the bytes it has written
into the body (`Record`). A fresh body is zero. The records are never read
by the builder; they are what its memory is compared with.

`Inv` is the comparison. Every record stands in the arena under its own
header (`Record.Stands`), the records are the builder's chain
(`Builder.Chain`), and everything beyond the bump pointer is still zero. `exec_inv` is the step, `run_inv`
the run. Checksums are not part of it: they are stale from the moment a
successor is linked until `finalize`, which is why the frame rule
(`Inv.keep`) lets every call overwrite them.

The caller may write anywhere outside the arena (INFO included) and into
the bodies of its own tags. A write elsewhere is not the caller's to make
and a session ignores it, as it ignores sealing a tag that does not exist
or finalizing into an INFO that overlaps the arena.
-/

namespace BearBoot.Bootloader

open Machine

variable {m m' : Mem} {len a size fuel info : Nat} {b : Builder}

/-- An arena a builder can serve. -/
structure Arena where
  ptr : Nat
  phys : Nat
  capacity : Nat
  ptr_ne : ptr ≠ 0
  phys_ne : phys ≠ 0
  aligned : 8 ∣ phys
  nonempty : 0 < capacity
  below : phys + capacity ≤ 2 ^ 48

/-- The `n` bytes at `a` lie outside the arena. -/
def Arena.Outside (A : Arena) (a n : Nat) : Prop := a + n ≤ A.ptr ∨ A.ptr + A.capacity ≤ a

instance (A : Arena) (a n : Nat) : Decidable (A.Outside a n) :=
  inferInstanceAs (Decidable (_ ∨ _))

/-- A tag as its caller knows it. -/
structure Record where
  off : Nat
  id : Nat
  version : Nat
  size : Nat
  body : Nat → UInt8

variable {r : Record}

namespace Record

/-- The address `a` is in the record's body. -/
def InBody (A : Arena) (r : Record) (a : Nat) : Prop :=
  A.ptr + r.off + 32 ≤ a ∧ a < A.ptr + r.off + r.size

instance (A : Arena) (r : Record) (a : Nat) : Decidable (r.InBody A a) :=
  inferInstanceAs (Decidable (_ ∧ _))

/-- The record after its caller wrote `v` at the address `a`. -/
def wrote (A : Arena) (a : Nat) (v : UInt8) (r : Record) : Record :=
  if r.InBody A a then { r with body := Mem.set r.body (a - (A.ptr + r.off)) v } else r

/-- The tag at `t` is the record: its header, and its body byte for byte.
The link and the checksum are the builder's. -/
structure At (m : Mem) (t : Nat) (r : Record) : Prop where
  id : tagId m t = r.id
  size : tagSize m t = r.size
  version : tagVersion m t = r.version
  flags : tagFlags m t = 0
  body : ∀ i, 32 ≤ i → i < r.size → m (t + i) = r.body i

/-- The record stands in the used part of the arena. -/
structure Stands (A : Arena) (used : Nat) (m : Mem) (r : Record) : Prop where
  aligned : 8 ∣ r.off
  sizeLow : 32 ≤ r.size
  sizeHigh : r.size ≤ 16777216
  inside : r.off + r.size ≤ used
  there : r.At m (A.ptr + r.off)

theorem At.congr {t t' : Nat} (h : r.At m t) (hsize : 32 ≤ r.size)
    (hm : ∀ i < r.size, ¬ (16 ≤ i ∧ i < 32) → m' (t' + i) = m (t + i)) : r.At m' t' := by
  have field : ∀ o w, o + w ≤ 16 → m'.getLE (t' + o) w = m.getLE (t + o) w := by
    intro o w how
    apply Mem.getLE_congr
    intro i hi
    rw [Nat.add_assoc, Nat.add_assoc, hm (o + i) (by omega) (by omega)]
  refine ⟨?_, ?_, ?_, ?_, ?_⟩
  · exact (field 0 8 (by decide)).trans h.id
  · exact (field 8 4 (by decide)).trans h.size
  · exact (field 12 2 (by decide)).trans h.version
  · exact (field 14 2 (by decide)).trans h.flags
  · intro i hlo hhi
    rw [hm i hhi (by omega), h.body i hlo hhi]

end Record

/-! ## Calls in any order -/

/-- What a loader does with a builder. -/
inductive Op where
  | allocTag (id : UInt64) (version : UInt16) (size : Nat)
  | arenaBlob (data len : Nat)
  | arenaStrdupN (s sourceBytes : Nat)
  | sealTag (index : Nat)
  | finalize (info infoPhys : Nat)
  | write (a : Nat) (v : UInt8)

structure Session where
  builder : Builder
  mem : Mem
  tags : List Record

/-- A session begins with `bbp_builder_init`. -/
def Session.start (A : Arena) (m : Mem) : Session :=
  ⟨(builderInit m A.ptr A.phys A.capacity).1, (builderInit m A.ptr A.phys A.capacity).2, []⟩

/-- One call, or one write of the caller. -/
def exec (A : Arena) (fuel : Nat) (s : Session) : Op → Option Session
  | .allocTag id version size =>
    match allocTag s.builder s.mem id.toNat version.toNat size with
    | (none, b, m) => some ⟨b, m, s.tags⟩
    | (some tag, b, m) =>
      some ⟨b, m, s.tags ++ [⟨tag - A.ptr, id.toNat, version.toNat, size, fun _ => 0⟩]⟩
  | .arenaBlob data len =>
    let (_, b, m) := arenaBlob s.builder s.mem data len
    some ⟨b, m, s.tags⟩
  | .arenaStrdupN src sourceBytes =>
    let (_, b, m) := arenaStrdupN s.builder s.mem src sourceBytes
    some ⟨b, m, s.tags⟩
  | .sealTag index =>
    match s.tags[index]? with
    | none => some s
    | some r => some { s with mem := sealTag s.mem (A.ptr + r.off) }
  | .finalize info infoPhys =>
    if A.Outside info 144 then
      match builderFinalize fuel s.builder s.mem info infoPhys with
      | none => none
      | some (_, b, m) => some ⟨b, m, s.tags⟩
    else some s
  | .write a v =>
    if A.Outside a 1 ∨ ∃ r ∈ s.tags, r.InBody A a then
      some ⟨s.builder, s.mem.set a v, s.tags.map (Record.wrote A a v)⟩
    else some s

/-- A whole session. -/
def run (A : Arena) (fuel : Nat) (s : Session) : List Op → Option Session
  | [] => some s
  | op :: ops =>
    match exec A fuel s op with
    | none => none
    | some s => run A fuel s ops

/-! ## The invariant -/

/-- The successor of the tag at the physical address `p`. -/
def nextOf (A : Arena) (m : Mem) (p : Nat) : Nat := tagNext m (A.ptr + (p - A.phys))

/-- What the memory and the builder know about the caller's tags. -/
structure Inv (A : Arena) (s : Session) : Prop where
  arena : s.builder.arena = A.ptr
  phys : s.builder.arenaPhys = A.phys
  capacity : s.builder.capacity = A.capacity
  used : s.builder.used ≤ A.capacity
  chain : s.builder.Chain s.mem Record.off Record.size s.tags
  stands : ∀ r ∈ s.tags, r.Stands A s.builder.used s.mem
  fresh : ∀ i, s.builder.used ≤ i → i < A.capacity → s.mem (A.ptr + i) = 0

theorem nextOf_off (A : Arena) (m : Mem) (off : Nat) :
    nextOf A m (A.phys + off) = tagNext m (A.ptr + off) := by
  rw [nextOf, Nat.add_sub_cancel_left]

variable {tags : List Record}

section Step

variable {A : Arena} {s : Session}

theorem Inv.path (h : Inv A s) :
    Path (nextOf A s.mem) s.builder.firstPhys (s.tags.map fun r => A.phys + r.off) 0 := by
  have hpath := h.chain.path
  unfold Builder.successor at hpath
  rw [h.arena, h.phys] at hpath
  exact hpath

/-- The last tag, when there is one, ends before what is not used yet. -/
theorem Inv.last_tag (h : Inv A s) (hne : s.builder.last ≠ 0) :
    ∃ l ∈ s.tags, s.builder.last = A.ptr + l.off ∧ l.off + l.size ≤ s.builder.used ∧ 32 ≤ l.size :=
  h.arena ▸ h.chain.last_tag hne

/-- The frame rule: a call that bumps the arena and keeps the tags, their
checksums excepted, keeps the invariant. -/
theorem Inv.keep (h : Inv A s) (m' : Mem) (used' : Nat) (overflow' : Bool)
    (hused : s.builder.used ≤ used') (hcap : used' ≤ A.capacity)
    (hmem : ∀ r ∈ s.tags, ∀ i < r.size, ¬ (24 ≤ i ∧ i < 32) →
      m' (A.ptr + r.off + i) = s.mem (A.ptr + r.off + i))
    (hfresh : ∀ i, used' ≤ i → i < A.capacity → m' (A.ptr + i) = 0) :
    Inv A ⟨{ s.builder with used := used', overflow := overflow' }, m', s.tags⟩ where
  arena := h.arena
  phys := h.phys
  capacity := h.capacity
  used := hcap
  chain := h.chain.keep m' used' overflow' hused fun r hr i hlo hhi => by
    have hlow := (h.stands r hr).sizeLow
    rw [h.arena]
    exact hmem r hr i (by omega) (by omega)
  stands := by
    intro r hr
    obtain ⟨hal, hlow, hhigh, hin, hat⟩ := h.stands r hr
    exact ⟨hal, hlow, hhigh, Nat.le_trans hin hused,
      hat.congr hlow fun i hi hni => hmem r hr i hi (by omega)⟩
  fresh := hfresh

theorem Inv.fail (h : Inv A s) : Inv A ⟨s.builder.fail, s.mem, s.tags⟩ :=
  h.keep s.mem s.builder.used true (Nat.le_refl _) h.used (fun _ _ _ _ _ => rfl) h.fresh

/-- The tags keep clear of bytes bumped off behind them. -/
theorem Inv.bump (h : Inv A s) (hroom : roundUp s.builder.used 8 + len ≤ A.capacity)
    (m' : Mem)
    (hm : ∀ a, a < A.ptr + roundUp s.builder.used 8 ∨ A.ptr + roundUp s.builder.used 8 + len ≤ a →
      m' a = s.mem a) :
    Inv A ⟨{ s.builder with used := roundUp s.builder.used 8 + len }, m', s.tags⟩ := by
  have hle := le_roundUp s.builder.used (show 0 < 8 by decide)
  refine h.keep m' _ s.builder.overflow (by omega) hroom ?_ ?_
  · intro r hr i hi _
    have hin := (h.stands r hr).inside
    exact hm _ (by omega)
  · intro i hlo hhi
    rw [hm _ (by omega), h.fresh i (by omega) hhi]

/-- An arena's own bounds keep `bbp_builder_init` from failing. -/
theorem start_eq (A : Arena) (m : Mem) :
    Session.start A m =
      ⟨⟨A.ptr, A.phys, A.capacity, 0, 0, 0, 0, false⟩, m.fill A.ptr A.capacity, []⟩ := by
  have hptr := A.ptr_ne
  have hphys := A.phys_ne
  have hbelow := A.below
  have hcapacity := A.nonempty
  have hmax : builderMaxPhys = 2 ^ 48 := rfl
  have hseven : A.phys &&& 7 = 0 := (and_pred_two_pow_eq_zero (k := 3)).mpr A.aligned
  rw [Session.start, builderInit, if_neg hptr, if_neg (by omega)]

theorem start_inv (A : Arena) (m : Mem) : Inv A (Session.start A m) := by
  rw [start_eq]
  refine ⟨rfl, rfl, rfl, Nat.zero_le _, .nil rfl rfl rfl, ?_, ?_⟩
  · intro r hr; cases hr
  · intro i _ hi
    dsimp only
    rw [Mem.fill_apply, if_pos ⟨by omega, by omega⟩]

theorem arenaBlob_inv (h : Inv A s) (data len : Nat) :
    Inv A ⟨(arenaBlob s.builder s.mem data len).2.1, (arenaBlob s.builder s.mem data len).2.2,
      s.tags⟩ := by
  unfold arenaBlob
  split
  · exact h.fail
  split
  · exact h
  · rcases arenaBump_cases s.builder len with hb | ⟨_, hroom, hb⟩
    · rw [hb]
      exact h.fail
    · rw [hb]
      refine h.bump (h.capacity ▸ hroom) _ fun a ha => ?_
      rw [← h.arena] at ha
      exact Mem.copy_frame ha

theorem arenaStrdupN_inv (h : Inv A s) (src n : Nat) :
    Inv A ⟨(arenaStrdupN s.builder s.mem src n).2.1, (arenaStrdupN s.builder s.mem src n).2.2,
      s.tags⟩ := by
  unfold arenaStrdupN
  split
  · exact h.fail
  dsimp only
  split
  · exact h.fail
  · rcases arenaBump_cases s.builder (strnlen s.mem src n + 1) with hb | ⟨_, hroom, hb⟩
    · rw [hb]
      exact h.fail
    · rw [hb]
      refine h.bump (h.capacity ▸ hroom) _ fun a ha => ?_
      rw [← h.arena] at ha
      change (if a = _ then 0 else _) = _
      rw [if_neg (by omega), Mem.copy_frame (by omega)]

theorem sealTag_inv (h : Inv A s) (hr : r ∈ s.tags) :
    Inv A ⟨s.builder, sealTag s.mem (A.ptr + r.off), s.tags⟩ := by
  have hlow := (h.stands r hr).sizeLow
  have hin := (h.stands r hr).inside
  refine h.keep _ s.builder.used s.builder.overflow (Nat.le_refl _) h.used ?_ ?_
  · intro r' hr' i hi hni
    apply sealTag_frame
    rcases h.chain.apart hr hr' with rfl | hapart
    · omega
    · omega
  · intro i hlo hhi
    rw [sealTag_frame (by omega), h.fresh i hlo hhi]

theorem Record.wrote_off (A : Arena) (a : Nat) (v : UInt8) (r : Record) :
    (r.wrote A a v).off = r.off ∧ (r.wrote A a v).size = r.size := by
  unfold Record.wrote
  split
  · exact ⟨rfl, rfl⟩
  · exact ⟨rfl, rfl⟩

/-- The caller's write lands in the record it belongs to and in no other. -/
theorem Record.Stands.wrote {used : Nat} {v : UInt8} (h : r.Stands A used m)
    (hfits : r.InBody A a ∨ a < A.ptr + r.off ∨ A.ptr + r.off + r.size ≤ a) :
    (r.wrote A a v).Stands A used (m.set a v) := by
  obtain ⟨hal, hlow, hhigh, hin, hat⟩ := h
  by_cases hbody : r.InBody A a
  · rw [Record.wrote, if_pos hbody]
    unfold Record.InBody at hbody
    have hfield : ∀ o w, o + w ≤ 32 →
        (m.set a v).getLE (A.ptr + r.off + o) w = m.getLE (A.ptr + r.off + o) w := by
      intro o w how
      refine Mem.getLE_congr fun i hi => ?_
      rw [Mem.set, if_neg (by omega)]
    refine ⟨hal, hlow, hhigh, hin, ⟨?_, ?_, ?_, ?_, ?_⟩⟩
    · exact (hfield 0 8 (by decide)).trans hat.id
    · exact (hfield 8 4 (by decide)).trans hat.size
    · exact (hfield 12 2 (by decide)).trans hat.version
    · exact (hfield 14 2 (by decide)).trans hat.flags
    · intro i hlo hhi
      have hiff : A.ptr + r.off + i = a ↔ i = a - (A.ptr + r.off) := by omega
      simp only [Mem.set, hiff, hat.body i hlo hhi]
  · have hout := hfits.resolve_left hbody
    rw [Record.wrote, if_neg hbody]
    refine ⟨hal, hlow, hhigh, hin, hat.congr hlow fun i hi _ => ?_⟩
    rw [Mem.set, if_neg (by omega)]

theorem write_fits (h : Inv A s) (ha : A.Outside a 1 ∨ ∃ r ∈ s.tags, r.InBody A a)
    (hr : r ∈ s.tags) :
    r.InBody A a ∨ a < A.ptr + r.off ∨ A.ptr + r.off + r.size ≤ a := by
  have hin := (h.stands r hr).inside
  have hused := h.used
  rcases ha with hout | ⟨r', hr', hbody⟩
  · unfold Arena.Outside at hout
    omega
  · rcases h.chain.apart hr hr' with rfl | hapart
    · exact Or.inl hbody
    · unfold Record.InBody at hbody
      omega

theorem write_inv (h : Inv A s) (v : UInt8)
    (ha : A.Outside a 1 ∨ ∃ r ∈ s.tags, r.InBody A a) :
    Inv A ⟨s.builder, s.mem.set a v, s.tags.map (Record.wrote A a v)⟩ where
  arena := h.arena
  phys := h.phys
  capacity := h.capacity
  used := h.used
  chain := by
    refine (h.chain.keep (s.mem.set a v) s.builder.used s.builder.overflow (Nat.le_refl _)
      fun r hr i hlo hhi => ?_).map (fun r => (Record.wrote_off A a v r).1)
        fun r => (Record.wrote_off A a v r).2
    have hlow := (h.stands r hr).sizeLow
    have hfits := write_fits h ha hr
    have harena := h.arena
    unfold Record.InBody at hfits
    exact if_neg (by omega)
  stands := by
    intro r hr
    obtain ⟨r₀, hr₀, rfl⟩ := List.mem_map.mp hr
    exact (h.stands r₀ hr₀).wrote (write_fits h ha hr₀)
  fresh := by
    intro i hlo hhi
    change s.builder.used ≤ i at hlo
    have hne : A.ptr + i ≠ a := by
      rcases ha with hout | ⟨r, hr, hbody⟩
      · unfold Arena.Outside at hout
        omega
      · have hin := (h.stands r hr).inside
        unfold Record.InBody at hbody
        omega
    exact (if_neg hne).trans (h.fresh i hlo hhi)

/-- A tag of `size` bytes at `start`, as the caller first sees it. -/
def fresh (start id version size : Nat) : Record := ⟨start, id, version, size, fun _ => 0⟩

section Alloc

variable {id version size : Nat}

/-- The new tag stands as it was asked for, its body zero. -/
theorem linked_fresh (h : Inv A s) {start : Nat} (hstart : s.builder.used ≤ start)
    (hlink : s.builder.last ≠ 0 → s.builder.last + 24 ≤ s.builder.arena + start)
    (hid : id < 2 ^ 64) (hversion : version < 2 ^ 16) (hhigh : size ≤ 16777216)
    (hroom : start + size ≤ A.capacity) :
    (fresh start id version size).At (linked s.builder s.mem start id version size).2
      (A.ptr + start) := by
  have harena := h.arena
  have field : ∀ o w, (linked s.builder s.mem start id version size).2.getLE (A.ptr + start + o) w =
      (stampHeader s.mem (s.builder.arena + start) id version size).getLE
        (s.builder.arena + start + o) w := by
    intro o w
    rw [← harena]
    exact linked_header hlink
  refine ⟨(field 0 8).trans (stampHeader_id hid), (field 8 4).trans (stampHeader_size (by omega)),
    (field 12 2).trans (stampHeader_version hversion), (field 14 2).trans stampHeader_flags, ?_⟩
  intro i hlo hhi
  change i < size at hhi
  change (linked s.builder s.mem start id version size).2 (A.ptr + start + i) = 0
  rw [linked_frame (by omega) (by omega), Nat.add_assoc]
  exact h.fresh _ (by omega) (by omega)

theorem allocTag_inv (h : Inv A s) (hid : id < 2 ^ 64) (hversion : version < 2 ^ 16)
    (hlow : 32 ≤ size) (hhigh : size ≤ 16777216) (hcount : s.builder.tagCount < 1024)
    (hroom : roundUp s.builder.used 8 + size ≤ A.capacity) :
    Inv A ⟨(linked s.builder s.mem (roundUp s.builder.used 8) id version size).1,
      (linked s.builder s.mem (roundUp s.builder.used 8) id version size).2,
      s.tags ++ [fresh (roundUp s.builder.used 8) id version size]⟩ := by
  have hstart := le_roundUp s.builder.used (show 0 < 8 by decide)
  have haligned := dvd_roundUp s.builder.used 8
  generalize hst : roundUp s.builder.used 8 = start at *
  have harena := h.arena
  have hphys := h.phys
  have hbelow := A.below
  have hlink := h.chain.link_below hstart
  refine ⟨h.arena, h.phys, h.capacity, hroom, h.chain.link hstart hcount ⟨?_, ?_, hlow, Nat.le_refl _, ?_⟩
    rfl rfl, ?_, ?_⟩
  · exact harena ▸ A.ptr_ne
  · exact hphys ▸ A.phys_ne
  · dsimp only
    omega
  · intro r hr
    rcases List.mem_append.mp hr with hold | hnew
    · obtain ⟨hal, hlo, hhi, hin, hat⟩ := h.stands r hold
      refine ⟨hal, hlo, hhi, ?_,
        hat.congr hlo fun i hi hni => harena ▸ h.chain.linked_keep hstart hold hi (by omega)⟩
      change _ ≤ start + size
      omega
    · rw [List.mem_singleton.mp hnew]
      exact ⟨haligned, hlow, hhigh, Nat.le_refl _,
        linked_fresh h hstart hlink hid hversion hhigh hroom⟩
  · intro i hlo hhi
    change start + size ≤ i at hlo
    change (linked s.builder s.mem start id version size).2 (A.ptr + i) = 0
    rw [linked_frame (by omega) (by omega)]
    exact h.fresh _ (by omega) hhi

end Alloc

/-! ## Room and bodies -/

/-- A session's builder has what room there is in the arena. -/
theorem Inv.room (h : Inv A s) (hover : s.builder.overflow = false)
    (hroom : roundUp s.builder.used 8 + len ≤ A.capacity) : s.builder.Room len := by
  have hptr := A.ptr_ne
  have hbelow := A.below
  have hphys := h.phys
  refine ⟨by rw [h.arena]; exact hptr, hover, by rw [h.capacity]; exact hroom, by omega⟩

/-- Where there is room, the allocator hands the bytes out. -/
theorem arenaBump_of_room (h : Inv A s) (hover : s.builder.overflow = false)
    (hroom : roundUp s.builder.used 8 + len ≤ A.capacity) :
    arenaBump s.builder len =
      (some (A.ptr + roundUp s.builder.used 8, A.phys + roundUp s.builder.used 8),
        { s.builder with used := roundUp s.builder.used 8 + len }) := by
  rw [← h.arena, ← h.phys]
  exact (h.room hover hroom).bump

theorem arenaBlob_of_room (h : Inv A s) (hover : s.builder.overflow = false) {data : Nat}
    (hdata : data ≠ 0) (hlen : len ≠ 0) (hroom : roundUp s.builder.used 8 + len ≤ A.capacity) :
    arenaBlob s.builder s.mem data len =
      (A.phys + roundUp s.builder.used 8, { s.builder with used := roundUp s.builder.used 8 + len },
        s.mem.copy (A.ptr + roundUp s.builder.used 8) data len) := by
  rw [← h.arena, ← h.phys]
  exact (h.room hover hroom).blob s.mem hdata hlen

theorem allocTag_of_room (h : Inv A s) (hover : s.builder.overflow = false)
    (hlow : 32 ≤ size) (hhigh : size ≤ 16777216) (hcount : s.builder.tagCount < 1024)
    (hroom : roundUp s.builder.used 8 + size ≤ A.capacity) (id version : Nat) :
    allocTag s.builder s.mem id version size =
      (some (A.ptr + roundUp s.builder.used 8),
        linked s.builder s.mem (roundUp s.builder.used 8) id version size) := by
  rw [← h.arena]
  exact (h.room hover hroom).tag s.mem hlow hhigh hcount id version

/-- A tag taken where the used bytes end aligned. -/
theorem allocTag_next (h : Inv A ⟨b, m, tags⟩)
    (hover : b.overflow = false) {used : Nat} (hused : b.used = used) (haligned : 8 ∣ used)
    (hcount : tags.length < 1024) (id version size : Nat) (hid : id < 2 ^ 64) (hversion : version < 2 ^ 16)
    (hlow : 32 ≤ size) (hhigh : size ≤ 16777216) (hroom : used + size ≤ A.capacity) :
    ∃ b' m', allocTag b m id version size = (some (A.ptr + used), b', m') ∧
      Inv A ⟨b', m', tags ++ [fresh used id version size]⟩ ∧ b'.overflow = false ∧
      b'.used = used + size ∧ ∀ a, A.Outside a 1 → m' a = m a := by
  subst hused
  have hstart := roundUp_of_dvd (show 0 < 8 by decide) haligned
  have hroom' : roundUp b.used 8 + size ≤ A.capacity := by omega
  rw [← h.chain.count] at hcount
  have halloc := allocTag_of_room h hover hlow hhigh hcount hroom' id version
  have hinv := allocTag_inv h hid hversion hlow hhigh hcount hroom'
  dsimp only at halloc hinv
  rw [hstart] at halloc hinv
  refine ⟨_, _, halloc, hinv, hover, rfl, fun a ha => ?_⟩
  have harena := h.arena
  have hused := h.used
  dsimp only at harena hused
  unfold Arena.Outside at ha
  refine linked_frame (by omega) fun hne => ?_
  obtain ⟨l, _, heq, hin, hsize⟩ := h.last_tag hne
  dsimp only at heq hin
  omega

/-- Whatever is written into bodies, the invariant is kept with the new
bodies in the records: the headers and the bytes no tag has taken yet have to
stay. -/
theorem Inv.setBodies (h : Inv A ⟨b, m, tags⟩)
    {body : Record → Nat → UInt8}
    (hhead : ∀ r ∈ tags, ∀ i < 32, m' (A.ptr + r.off + i) = m (A.ptr + r.off + i))
    (hbody : ∀ r ∈ tags, ∀ i, 32 ≤ i → i < r.size → m' (A.ptr + r.off + i) = body r i)
    (hfresh : ∀ i, b.used ≤ i → i < A.capacity → m' (A.ptr + i) = m (A.ptr + i)) :
    Inv A ⟨b, m', tags.map fun r => { r with body := body r }⟩ := by
  refine ⟨h.arena, h.phys, h.capacity, h.used, ?_, ?_, ?_⟩
  · have harena : b.arena = A.ptr := h.arena
    refine (h.chain.keep m' b.used b.overflow (Nat.le_refl _) fun r hr i _ hi => ?_).map
      (fun _ => rfl) fun _ => rfl
    rw [harena]
    exact hhead r hr i (by omega)
  · intro r' hr'
    obtain ⟨r, hr, rfl⟩ := List.mem_map.mp hr'
    obtain ⟨hal, hlow, hhigh, hin, hat⟩ := h.stands r hr
    have hfield : ∀ o w, o + w ≤ 32 →
        m'.getLE (A.ptr + r.off + o) w = m.getLE (A.ptr + r.off + o) w := fun o w how =>
      Mem.getLE_shift (fun i _ hi => hhead r hr i hi) (Nat.zero_le o) how
    exact ⟨hal, hlow, hhigh, hin, (hfield 0 8 (by decide)).trans hat.id,
      (hfield 8 4 (by decide)).trans hat.size, (hfield 12 2 (by decide)).trans hat.version,
      (hfield 14 2 (by decide)).trans hat.flags, hbody r hr⟩
  · intro i hlo hhi
    exact (hfresh i hlo hhi).trans (h.fresh i hlo hhi)

/-- Rewriting the body of the newest tag keeps the invariant, with the new
body in its record. -/
theorem Inv.rebody (h : Inv A ⟨b, m, tags ++ [r]⟩)
    (hm : ∀ a, a < A.ptr + r.off + 32 ∨ A.ptr + r.off + r.size ≤ a → m' a = m a) :
    Inv A ⟨b, m', tags ++ [{ r with body := fun i => m' (A.ptr + r.off + i) }]⟩ := by
  obtain ⟨-, hlow, -, hin, -⟩ := h.stands r (List.mem_append_right _ List.mem_cons_self)
  have hbefore : ∀ r' ∈ tags, r'.off + r'.size ≤ r.off := fun r' hr' =>
    (List.pairwise_append.mp h.chain.layout).2.2 r' hr' r List.mem_cons_self
  have hlow' : ∀ r' ∈ tags, 32 ≤ r'.size := fun r' hr' =>
    (h.stands r' (List.mem_append_left _ hr')).sizeLow
  -- the newest tag is the one at its offset
  let body : Record → Nat → UInt8 := fun r' =>
    if r'.off = r.off then fun i => m' (A.ptr + r.off + i) else r'.body
  have holder : ∀ r' ∈ tags, body r' = r'.body := fun r' hr' =>
    if_neg (by have := hbefore r' hr'; have := hlow' r' hr'; omega)
  have hnewest : body r = fun i => m' (A.ptr + r.off + i) := if_pos rfl
  have htags : (tags ++ [r]).map (fun r' => { r' with body := body r' }) =
      tags ++ [{ r with body := fun i => m' (A.ptr + r.off + i) }] := by
    rw [List.map_append, List.map_singleton, hnewest,
      List.map_congr_left fun r' hr' => by rw [holder r' hr'], List.map_id']
  rw [← htags]
  refine h.setBodies ?_ ?_ ?_
  · intro r' hr' i hi
    rcases List.mem_append.mp hr' with hr' | hr'
    · have := hbefore r' hr'
      have := hlow' r' hr'
      exact hm _ (by omega)
    · rw [List.mem_singleton.mp hr']
      exact hm _ (by omega)
  · intro r' hr' i hlo hhi
    rcases List.mem_append.mp hr' with hr' | hr'
    · have := hbefore r' hr'
      rw [holder r' hr', hm _ (by omega)]
      exact (h.stands r' (List.mem_append_left _ hr')).there.body i hlo hhi
    · rw [List.mem_singleton.mp hr', hnewest]
  · intro i hlo hhi
    dsimp only at hin
    exact hm _ (by omega)

/-- Writing into bodies, and anywhere outside the arena, keeps the invariant,
with the new bodies in the records. -/
theorem Inv.rewrite (h : Inv A ⟨b, m, tags⟩)
    (hm : ∀ a, ¬ A.Outside a 1 → (∀ r ∈ tags, ¬ r.InBody A a) → m' a = m a) :
    Inv A ⟨b, m', tags.map fun r => { r with body := fun i => m' (A.ptr + r.off + i) }⟩ := by
  refine h.setBodies ?_ (fun _ _ _ _ _ => rfl) ?_
  · intro r hr i hi
    have hstands := h.stands r hr
    have hin := hstands.inside
    have hlow := hstands.sizeLow
    have hused := h.used
    dsimp only at hin hused
    refine hm _ (by unfold Arena.Outside; omega) fun r' hr' hbody => ?_
    unfold Record.InBody at hbody
    rcases h.chain.apart hr hr' with rfl | hapart
    · omega
    · omega
  · intro i hlo hhi
    refine hm _ (by unfold Arena.Outside; omega) fun r hr hbody => ?_
    have hin := (h.stands r hr).inside
    unfold Record.InBody at hbody
    dsimp only at hin
    omega

/-! ## Finalizing -/

/-- A builder that has not overflowed and is under the limit is finalized. -/
theorem builderFinalize_ok (h : Inv A s) (hover : s.builder.overflow = false)
    (hlimit : s.builder.used ≤ 64 * 1024 * 1024 - 144) (hfuel : 1024 ≤ fuel)
    (hinfo : info ≠ 0) (infoPhys : Nat) :
    ∃ m', builderFinalize fuel s.builder s.mem info infoPhys =
        some (infoPhys, s.builder, fillInfo s.builder m' info) ∧
      ∀ a, (∀ r ∈ s.tags, a < A.ptr + r.off + 24 ∨ A.ptr + r.off + 32 ≤ a) → m' a = s.mem a := by
  have hno : ¬ s.builder.Unfit := by
    unfold Builder.Unfit
    rw [h.chain.count, h.capacity, hover]
    simp only [Bool.false_eq_true, false_or, not_or, Nat.not_lt]
    exact ⟨h.chain.few, h.used, hlimit⟩
  rcases h.chain.finalize hfuel infoPhys with ⟨hnull, _⟩ | ⟨_, hunfit, _⟩ | ⟨_, _, m', heq, hframe, _⟩
  · exact absurd hnull hinfo
  · exact absurd hunfit hno
  · exact ⟨m', heq, h.arena ▸ hframe⟩

theorem builderFinalize_inv (h : Inv A s) (hfuel : 1024 ≤ fuel)
    (hout : A.Outside info 144) (infoPhys : Nat) :
    ∃ p b m, builderFinalize fuel s.builder s.mem info infoPhys = some (p, b, m) ∧
      Inv A ⟨b, m, s.tags⟩ := by
  rcases h.chain.finalize hfuel infoPhys with ⟨_, heq⟩ | ⟨_, _, heq⟩ | ⟨_, _, m', heq, hframe, _⟩
  · exact ⟨_, _, _, heq, h⟩
  · exact ⟨_, _, _, heq, h.fail⟩
  · refine ⟨_, _, _, heq, ?_⟩
    unfold Arena.Outside at hout
    rw [h.arena] at hframe
    have hused := h.used
    refine h.keep _ s.builder.used s.builder.overflow (Nat.le_refl _) h.used ?_ ?_
    · intro r hr i hi hni
      have hin := (h.stands r hr).inside
      have hlow := (h.stands r hr).sizeLow
      rw [fillInfo_frame (by omega), hframe]
      intro r' hr'
      rcases h.chain.apart hr hr' with rfl | hapart
      · omega
      · have hlow' := (h.stands r' hr').sizeLow
        omega
    · intro i hlo hhi
      rw [fillInfo_frame (by omega), hframe]
      · exact h.fresh i hlo hhi
      · intro r hr
        have hin := (h.stands r hr).inside
        have hlow := (h.stands r hr).sizeLow
        omega

/-! ## Whole sessions -/

theorem exec_inv (h : Inv A s) (hfuel : 1024 ≤ fuel) (op : Op) :
    ∃ s', exec A fuel s op = some s' ∧ Inv A s' := by
  cases op with
  | allocTag id version size =>
    rcases allocTag_room s.builder s.mem id.toNat version.toNat size with
      heq | ⟨hlow, hhigh, hcount, hroom, heq⟩
    · exact ⟨⟨s.builder.fail, s.mem, s.tags⟩, by simp only [exec, heq], h.fail⟩
    · have hoff : s.builder.arena + roundUp s.builder.used 8 - A.ptr =
          roundUp s.builder.used 8 := by
        rw [h.arena, Nat.add_sub_cancel_left]
      refine ⟨_, by simp only [exec, heq, hoff]; rfl, ?_⟩
      exact allocTag_inv h id.toNat_lt version.toNat_lt hlow hhigh hcount (h.capacity ▸ hroom.capacity)
  | arenaBlob data len => exact ⟨_, rfl, arenaBlob_inv h data len⟩
  | arenaStrdupN src n => exact ⟨_, rfl, arenaStrdupN_inv h src n⟩
  | sealTag index =>
    cases hr : s.tags[index]? with
    | none => exact ⟨s, by simp only [exec, hr], h⟩
    | some r =>
      exact ⟨_, by simp only [exec, hr], sealTag_inv h (List.mem_of_getElem? hr)⟩
  | finalize info infoPhys =>
    by_cases hout : A.Outside info 144
    · obtain ⟨p, b, m, heq, hinv⟩ := builderFinalize_inv h hfuel hout infoPhys
      exact ⟨_, by simp only [exec, if_pos hout, heq], hinv⟩
    · exact ⟨s, by simp only [exec, if_neg hout], h⟩
  | write a v =>
    by_cases ha : A.Outside a 1 ∨ ∃ r ∈ s.tags, r.InBody A a
    · exact ⟨_, by simp only [exec, if_pos ha], write_inv h v ha⟩
    · exact ⟨s, by simp only [exec, if_neg ha], h⟩

/-- Every session ends, and its memory agrees with its caller. -/
theorem run_inv (h : Inv A s) (hfuel : 1024 ≤ fuel) (ops : List Op) :
    ∃ s', run A fuel s ops = some s' ∧ Inv A s' := by
  induction ops generalizing s with
  | nil => exact ⟨s, rfl, h⟩
  | cons op ops ih =>
    obtain ⟨s₁, hexec, hinv⟩ := exec_inv h hfuel op
    obtain ⟨s', hrun, hinv'⟩ := ih hinv
    exact ⟨s', by rw [run, hexec]; exact hrun, hinv'⟩

end Step

end BearBoot.Bootloader
