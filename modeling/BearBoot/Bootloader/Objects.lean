import BearBoot.Bootloader.Session

/-!
# The arena, object by object

A session (`Session`) looks at a builder over an arena that can serve, and
at its tags. This module looks at any arena at all (`NULL`, misaligned,
above what a physical pointer can name, of any capacity) and at every
object that is handed out: tags, blobs and strings. A `Ledger` is the
builder, the memory, and the list of the objects in the order they were
asked for.

`Sound` is the invariant. Objects stand one behind the other inside the
used part of the arena; the tags, in the order they were asked for, are
the builder's chain (`Builder.Chain`, as in a session); and every byte of
the arena that is in no object is zero. `perform_steps` is the step and
`performAll_sound` the run. What a single call may touch is in `Stepped`.

Failures are sticky. A call that fails on a size, a count, a string or
the capacity leaves the builder overflowed, every call keeps it so, and
an overflowed builder refuses (`refuses_of_overflow`).

The caller may write outside the arena and into objects, the headers of
tags excepted. `bbp_seal_tag` is given a tag that was handed out, and INFO
lies outside the arena; other calls of the two are ignored here, and
`calls_into_the_arena` says why they have to be: both store where they
are told, and what they store stays in the arena.
-/

set_option autoImplicit false

namespace BearBoot.Bootloader

open Machine

variable {len : Nat} {m' : Mem}

/-- An object that was handed out: its place in the arena, and whether it is
a tag. -/
structure Extent where
  off : Nat
  size : Nat
  isTag : Bool
  deriving DecidableEq, Repr

/-- The object has the arena's byte `i`. -/
def Extent.Has (o : Extent) (i : Nat) : Prop := o.off ≤ i ∧ i < o.off + o.size

instance (o : Extent) (i : Nat) : Decidable (o.Has i) := inferInstanceAs (Decidable (_ ∧ _))

/-- The caller may write the arena's byte `i`, as one of this object. -/
def Extent.Body (o : Extent) (i : Nat) : Prop :=
  (if o.isTag then o.off + 32 else o.off) ≤ i ∧ i < o.off + o.size

instance (o : Extent) (i : Nat) : Decidable (o.Body i) := inferInstanceAs (Decidable (_ ∧ _))

/-- A builder, the memory, and what was handed out, the oldest first. -/
structure Ledger where
  builder : Builder
  mem : Mem
  objects : List Extent

/-- The tags among the objects. -/
def Ledger.tags (l : Ledger) : List Extent := l.objects.filter Extent.isTag

/-- `bbp_builder_init`, on whatever arena. -/
def Ledger.start (m : Mem) (arena arenaPhys capacity : Nat) : Ledger :=
  ⟨(builderInit m arena arenaPhys capacity).1, (builderInit m arena arenaPhys capacity).2, []⟩

/-- The `n` bytes at `a` are no bytes of the arena. -/
def Builder.Clear (b : Builder) (a n : Nat) : Prop :=
  b.arena = 0 ∨ a + n ≤ b.arena ∨ b.arena + b.capacity ≤ a

instance (b : Builder) (a n : Nat) : Decidable (b.Clear a n) := inferInstanceAs (Decidable (_ ∨ _))

/-- One call, or one write of the caller, with what is returned (`0` for
`NULL`, and for what returns nothing). -/
def perform (fuel : Nat) (l : Ledger) : Op → Option (Nat × Ledger)
  | .allocTag id version size =>
    match allocTag l.builder l.mem id.toNat version.toNat size with
    | (none, b, m) => some (0, ⟨b, m, l.objects⟩)
    | (some tag, b, m) => some (tag, ⟨b, m, l.objects ++ [⟨tag - l.builder.arena, size, true⟩]⟩)
  | .arenaBlob data len =>
    match arenaBlob l.builder l.mem data len with
    | (phys, b, m) =>
      if phys = 0 then some (0, ⟨b, m, l.objects⟩)
      else some (phys, ⟨b, m, l.objects ++ [⟨phys - l.builder.arenaPhys, len, false⟩]⟩)
  | .arenaStrdupN s sourceBytes =>
    match arenaStrdupN l.builder l.mem s sourceBytes with
    | ((phys, len), b, m) =>
      if phys = 0 then some (0, ⟨b, m, l.objects⟩)
      else some (phys, ⟨b, m, l.objects ++ [⟨phys - l.builder.arenaPhys, len + 1, false⟩]⟩)
  | .sealTag index =>
    match l.tags[index]? with
    | none => some (0, l)
    | some o => some (0, { l with mem := sealTag l.mem (l.builder.arena + o.off) })
  | .finalize info infoPhys =>
    if l.builder.Clear info 144 then
      match builderFinalize fuel l.builder l.mem info infoPhys with
      | none => none
      | some (phys, b, m) => some (phys, ⟨b, m, l.objects⟩)
    else some (0, l)
  | .write a v =>
    if l.builder.Clear a 1 ∨ ∃ o ∈ l.objects, l.builder.arena ≤ a ∧ o.Body (a - l.builder.arena) then
      some (0, { l with mem := l.mem.set a v })
    else some (0, l)

/-- Calls and writes, one after the other. -/
def performAll (fuel : Nat) (l : Ledger) : List Op → Option Ledger
  | [] => some l
  | op :: ops =>
    match perform fuel l op with
    | none => none
    | some (_, l) => performAll fuel l ops

/-- A call handed out `o`: it is the newest object, a tag's body is zero, and
of the rest of the memory only the link of the tag before it is written. -/
structure Handed (l l' : Ledger) (o : Extent) : Prop where
  objects : l'.objects = l.objects ++ [o]
  frame : ∀ a, (a < l.builder.arena + o.off ∨ l.builder.arena + o.off + o.size ≤ a) →
    (o.isTag = true → l.builder.last ≠ 0 → a < l.builder.last + 16 ∨ l.builder.last + 24 ≤ a) →
      l'.mem a = l.mem a
  body : o.isTag = true → ∀ i, 32 ≤ i → i < o.size → l'.mem (l.builder.arena + o.off + i) = 0

/-- What the call's answer `r` and the ledger `l'` behind it are. An allocation
hands out an object at the address it answers, virtual for a tag and physical
for the others, or answers `NULL` and does nothing but fail the builder. -/
def Stepped (l : Ledger) (r : Nat) (l' : Ledger) : Op → Prop
  | .allocTag _ _ size => (r = 0 ∧ l' = ⟨l.builder.fail, l.mem, l.objects⟩) ∨
    (r ≠ 0 ∧ ∃ o, Handed l l' o ∧ o.isTag = true ∧ o.size = size ∧ r = l.builder.arena + o.off)
  | .arenaBlob _ len => (len = 0 ∧ r = 0 ∧ l' = l) ∨
    (r = 0 ∧ l' = ⟨l.builder.fail, l.mem, l.objects⟩) ∨
    (r ≠ 0 ∧ ∃ o, Handed l l' o ∧ o.isTag = false ∧ o.size = len ∧ r = l.builder.arenaPhys + o.off)
  | .arenaStrdupN _ _ => (r = 0 ∧ l' = ⟨l.builder.fail, l.mem, l.objects⟩) ∨
    (r ≠ 0 ∧ ∃ o, Handed l l' o ∧ o.isTag = false ∧ r = l.builder.arenaPhys + o.off)
  | .sealTag _ => l'.builder = l.builder ∧ l'.objects = l.objects
  | .finalize _ _ => l'.objects = l.objects
  | .write _ _ => l'.builder = l.builder ∧ l'.objects = l.objects

/-- The call failed: an allocation that is not empty answered `NULL`, or the
checks of `bbp_builder_finalize` refused the builder. -/
def Failed (l : Ledger) (r : Nat) : Op → Prop
  | .allocTag _ _ _ => r = 0
  | .arenaBlob _ len => len ≠ 0 ∧ r = 0
  | .arenaStrdupN _ _ => r = 0
  | .finalize info _ => info ≠ 0 ∧ l.builder.Clear info 144 ∧ l.builder.Unfit
  | .sealTag _ => False
  | .write _ _ => False

/-- Every allocation that is not empty answers `NULL`, `finalize` answers `0`,
and none of them changes anything. -/
structure Refuses (fuel : Nat) (l : Ledger) : Prop where
  allocTag : ∀ id version size, perform fuel l (.allocTag id version size) = some (0, l)
  arenaBlob : ∀ data len, len ≠ 0 → perform fuel l (.arenaBlob data len) = some (0, l)
  arenaStrdupN : ∀ s sourceBytes, perform fuel l (.arenaStrdupN s sourceBytes) = some (0, l)
  finalize : ∀ info infoPhys, perform fuel l (.finalize info infoPhys) = some (0, l)

/-! ## The invariant -/

/-- Where an object stands. -/
structure Extent.Placed (b : Builder) (o : Extent) : Prop where
  arena : b.arena ≠ 0
  phys : b.arenaPhys ≠ 0
  physAligned : 8 ∣ b.arenaPhys
  offAligned : 8 ∣ o.off
  nonempty : 0 < o.size
  inside : o.off + o.size ≤ b.used
  below : b.arenaPhys + o.off + o.size ≤ 2 ^ 48
  header : o.isTag = true → 32 ≤ o.size

/-- The arena is in order. -/
structure Sound (l : Ledger) : Prop where
  used : l.builder.used ≤ l.builder.capacity
  serves : l.builder.overflow = false → l.builder.arena ≠ 0 →
    l.builder.arenaPhys ≠ 0 ∧ 8 ∣ l.builder.arenaPhys
  placed : ∀ o ∈ l.objects, o.Placed l.builder
  apart : l.objects.Pairwise fun o o' => o.off + o.size ≤ o'.off
  chain : l.builder.Chain l.mem Extent.off Extent.size l.tags
  zero : l.builder.arena ≠ 0 → ∀ i < l.builder.capacity, (∀ o ∈ l.objects, ¬ o.Has i) →
    l.mem (l.builder.arena + i) = 0

/-- The object that is handed out next. -/
def Ledger.next (l : Ledger) (len : Nat) (isTag : Bool) : Extent := ⟨roundUp l.builder.used 8, len, isTag⟩

variable {o : Extent}

section Step

variable {l : Ledger}

theorem mem_tags : o ∈ l.tags ↔ o ∈ l.objects ∧ o.isTag = true := List.mem_filter

theorem Sound.tag (h : Sound l) (ho : o ∈ l.tags) : o.Placed l.builder ∧ 32 ≤ o.size :=
  have hmem := mem_tags.mp ho
  ⟨h.placed o hmem.1, (h.placed o hmem.1).header hmem.2⟩

/-- The frame rule: a call that hands out nothing, and keeps the links and
what is in no object. -/
theorem Sound.keep (h : Sound l) (m' : Mem) (overflow' : Bool)
    (hover : overflow' = false → l.builder.overflow = false)
    (hlinks : ∀ o ∈ l.tags, ∀ i, 16 ≤ i → i < 24 →
      m' (l.builder.arena + o.off + i) = l.mem (l.builder.arena + o.off + i))
    (hgaps : l.builder.arena ≠ 0 → ∀ i < l.builder.capacity, (∀ o ∈ l.objects, ¬ o.Has i) →
      m' (l.builder.arena + i) = l.mem (l.builder.arena + i)) :
    Sound ⟨{ l.builder with overflow := overflow' }, m', l.objects⟩ where
  used := h.used
  serves hfalse := h.serves (hover hfalse)
  placed o ho :=
    have hp := h.placed o ho
    ⟨hp.arena, hp.phys, hp.physAligned, hp.offAligned, hp.nonempty, hp.inside, hp.below, hp.header⟩
  apart := h.apart
  chain := h.chain.keep m' l.builder.used overflow' (Nat.le_refl _) hlinks
  zero harena i hi hnone := (hgaps harena i hi hnone).trans (h.zero harena i hi hnone)

theorem Sound.fail (h : Sound l) : Sound ⟨l.builder.fail, l.mem, l.objects⟩ :=
  h.keep l.mem true (fun hc => by cases hc) (fun _ _ _ _ _ => rfl) fun _ _ _ _ => rfl

/-- The bytes of an object that is handed out next. -/
theorem Sound.place (h : Sound l) (hroom : l.builder.Room len) (hlen : 0 < len)
    (isTag : Bool) (htag : isTag = true → 32 ≤ len) (b' : Builder) (harena : b'.arena = l.builder.arena)
    (hphys : b'.arenaPhys = l.builder.arenaPhys)
    (hused : b'.used = roundUp l.builder.used 8 + len) :
    (∀ o ∈ l.objects ++ [l.next len isTag], o.Placed b') ∧
      (l.objects ++ [l.next len isTag]).Pairwise
        fun o o' => o.off + o.size ≤ o'.off := by
  obtain ⟨hp, hal⟩ := h.serves hroom.overflow hroom.arena
  have hle := le_roundUp l.builder.used (show 0 < 8 by decide)
  constructor
  · intro o ho
    rcases List.mem_append.mp ho with ho | ho
    · obtain ⟨ha, hph, hpal, hoal, hne, hin, hbe, hhd⟩ := h.placed o ho
      exact ⟨harena ▸ ha, hphys ▸ hph, hphys ▸ hpal, hoal, hne, by omega, by omega, hhd⟩
    · rw [List.mem_singleton.mp ho]
      exact ⟨harena ▸ hroom.arena, hphys ▸ hp, hphys ▸ hal, dvd_roundUp _ _, hlen, hused.symm ▸ Nat.le_refl _,
        by rw [hphys]; exact hroom.below, htag⟩
  · refine List.pairwise_append.mpr ⟨h.apart, List.pairwise_singleton _ _, ?_⟩
    intro o ho o' ho'
    rw [List.mem_singleton.mp ho']
    exact Nat.le_trans (h.placed o ho).inside hle

/-- A store into the new object leaves what is in no object as it was. -/
theorem Sound.gap (h : Sound l) {isTag : Bool}
    (hm : ∀ a, a < l.builder.arena + roundUp l.builder.used 8 ∨
      l.builder.arena + roundUp l.builder.used 8 + len ≤ a →
      (∀ o ∈ l.objects, ¬ (l.builder.arena + o.off ≤ a ∧ a < l.builder.arena + o.off + o.size)) →
        m' a = l.mem a)
    (harena : l.builder.arena ≠ 0) {i : Nat} (hi : i < l.builder.capacity)
    (hnone : ∀ o ∈ l.objects ++ [l.next len isTag], ¬ o.Has i) :
    m' (l.builder.arena + i) = 0 := by
  have hold : ∀ o ∈ l.objects, ¬ o.Has i := fun o ho => hnone o (List.mem_append_left _ ho)
  have hnew := hnone _ (List.mem_append_right _ List.mem_cons_self)
  unfold Extent.Has Ledger.next at hnew
  dsimp only at hnew
  rw [hm _ (by omega) fun o ho hin => hold o ho (by unfold Extent.Has; omega)]
  exact h.zero harena i hi hold

/-- A blob or a string is handed out. -/
theorem Sound.bytes (h : Sound l) (hroom : l.builder.Room len) (hlen : 0 < len) (m' : Mem)
    (hm : ∀ a, a < l.builder.arena + roundUp l.builder.used 8 ∨
      l.builder.arena + roundUp l.builder.used 8 + len ≤ a → m' a = l.mem a) :
    Sound ⟨{ l.builder with used := roundUp l.builder.used 8 + len }, m',
      l.objects ++ [l.next len false]⟩ := by
  obtain ⟨hplaced, hapart⟩ := h.place hroom hlen false (fun hc => by cases hc)
    { l.builder with used := roundUp l.builder.used 8 + len } rfl rfl rfl
  have htags : Ledger.tags ⟨{ l.builder with used := roundUp l.builder.used 8 + len }, m',
      l.objects ++ [l.next len false]⟩ = l.tags := by
    simp [Ledger.tags, Ledger.next, List.filter_append]
  have hle := le_roundUp l.builder.used (show 0 < 8 by decide)
  refine ⟨hroom.capacity, h.serves, hplaced, hapart, ?_,
    fun harena i hi hnone => h.gap (fun a ha _ => hm a ha) harena hi hnone⟩
  rw [htags]
  refine h.chain.keep m' _ l.builder.overflow (by omega) fun o ho i _ hi => ?_
  have hin := (h.tag ho).1.inside
  have hsize := (h.tag ho).2
  exact hm _ (by omega)

/-- A tag is handed out. -/
theorem Sound.tagged (h : Sound l) {id version size : Nat} (hroom : l.builder.Room size)
    (hlow : 32 ≤ size) (hcount : l.builder.tagCount < 1024) :
    Sound ⟨(linked l.builder l.mem (roundUp l.builder.used 8) id version size).1,
      (linked l.builder l.mem (roundUp l.builder.used 8) id version size).2,
      l.objects ++ [l.next size true]⟩ := by
  obtain ⟨hplaced, hapart⟩ := h.place hroom (by omega) true (fun _ => hlow)
    (linked l.builder l.mem (roundUp l.builder.used 8) id version size).1 rfl rfl rfl
  have htags : Ledger.tags ⟨(linked l.builder l.mem (roundUp l.builder.used 8) id version size).1,
      (linked l.builder l.mem (roundUp l.builder.used 8) id version size).2,
      l.objects ++ [l.next size true]⟩ = l.tags ++ [l.next size true] := by
    simp [Ledger.tags, Ledger.next, List.filter_append]
  have hnew := hplaced _ (List.mem_append_right _ List.mem_cons_self)
  refine ⟨hroom.capacity, h.serves, hplaced, hapart, ?_, ?_⟩
  · rw [htags]
    exact h.chain.link (le_roundUp _ (by decide)) hcount
      ⟨hnew.arena, hnew.phys, hlow, hnew.inside, hnew.below⟩ rfl rfl
  · intro harena i hi hnone
    refine h.gap (fun a ha hobj => ?_) harena hi hnone
    refine linked_frame (by omega) fun hne => ?_
    obtain ⟨o, ho, heq, _, hsize⟩ := h.chain.last_tag hne
    have := hobj o (mem_tags.mp ho).1
    omega

/-- Checksums are in no link and in no gap. -/
theorem Sound.sums (h : Sound l)
    (hm : ∀ a, (∀ o ∈ l.tags, a < l.builder.arena + o.off + 24 ∨ l.builder.arena + o.off + 32 ≤ a) →
      ¬ l.builder.Clear a 1 → m' a = l.mem a) :
    Sound ⟨l.builder, m', l.objects⟩ := by
  refine h.keep m' l.builder.overflow id (fun o ho i hlo hhi => ?_) fun harena i hi hnone => ?_
  · have hplaced := (h.tag ho).1
    have hsize := (h.tag ho).2
    have hin := hplaced.inside
    have hused := h.used
    have harena := hplaced.arena
    refine hm _ (fun o' ho' => ?_) fun hclear => ?_
    · have hsize' := (h.tag ho').2
      rcases h.chain.apart ho ho' with rfl | hapart
      · omega
      · omega
    · unfold Builder.Clear at hclear
      omega
  · refine hm _ (fun o ho => ?_) fun hclear => ?_
    · have hno := hnone o (mem_tags.mp ho).1
      have hsize := (h.tag ho).2
      unfold Extent.Has at hno
      omega
    · unfold Builder.Clear at hclear
      omega

end Step

/-- `bbp_builder_init` zeroes the arena, if there is one, and takes only one
that physical pointers can name. -/
theorem builderInit_cases (m : Mem) (arena arenaPhys capacity : Nat) :
    ∃ overflow m', builderInit m arena arenaPhys capacity =
        (⟨arena, arenaPhys, capacity, 0, 0, 0, 0, overflow⟩, m') ∧
      (overflow = false → arena ≠ 0 → arenaPhys ≠ 0 ∧ 8 ∣ arenaPhys) ∧
      (arena ≠ 0 → m' = m.fill arena capacity) := by
  unfold builderInit
  dsimp only
  by_cases harena : arena = 0
  · rw [if_pos harena]
    split
    · exact ⟨true, m, rfl, fun _ hne => absurd harena hne, fun hne => absurd harena hne⟩
    · exact ⟨false, m, rfl, fun _ hne => absurd harena hne, fun hne => absurd harena hne⟩
  · rw [if_neg harena]
    split
    · exact ⟨true, _, rfl, (fun hc => by cases hc), fun _ => rfl⟩
    next hphys =>
      simp only [not_or, not_not] at hphys
      have haligned : 8 ∣ arenaPhys := (and_pred_two_pow_eq_zero (k := 3)).mp hphys.2.1
      exact ⟨false, _, rfl, fun _ _ => ⟨hphys.1, haligned⟩, fun _ => rfl⟩

/-- An empty arena, or one that is refused, is in order. -/
theorem start_sound (m : Mem) (arena arenaPhys capacity : Nat) :
    Sound (Ledger.start m arena arenaPhys capacity) := by
  obtain ⟨overflow, m', heq, hserves, hmem⟩ := builderInit_cases m arena arenaPhys capacity
  unfold Ledger.start
  rw [heq]
  refine ⟨Nat.zero_le _, hserves, fun _ ho => absurd ho List.not_mem_nil, List.Pairwise.nil,
    .nil rfl rfl rfl, fun harena i hi _ => ?_⟩
  have hi : i < capacity := hi
  change m' (arena + i) = 0
  rw [hmem harena, Mem.fill_apply, if_pos ⟨by omega, by omega⟩]

/-! ## One call -/

section Calls

variable {l : Ledger} {fuel : Nat}

/-- The step: the call ends, keeps the arena in order, does what `Stepped`
says, and never unfails the builder. -/
def Steps (fuel : Nat) (l : Ledger) (op : Op) : Prop :=
  ∃ r l', perform fuel l op = some (r, l') ∧ Sound l' ∧ Stepped l r l' op ∧
    (Failed l r op ∨ l.builder.overflow = true → l'.builder.overflow = true)

theorem allocTag_steps (h : Sound l) (id : UInt64) (version : UInt16) (size : Nat) :
    Steps fuel l (.allocTag id version size) := by
  rcases allocTag_room l.builder l.mem id.toNat version.toNat size with
    hfail | ⟨hlow, _, hcount, hroom, heq⟩
  · refine ⟨0, ⟨l.builder.fail, l.mem, l.objects⟩, ?_, h.fail, Or.inl ⟨rfl, rfl⟩, fun _ => rfl⟩
    simp only [perform, hfail]
  · have hoff : l.builder.arena + roundUp l.builder.used 8 - l.builder.arena =
        roundUp l.builder.used 8 := Nat.add_sub_cancel_left _ _
    have hne : l.builder.arena + roundUp l.builder.used 8 ≠ 0 := by
      have := hroom.arena
      omega
    refine ⟨l.builder.arena + roundUp l.builder.used 8,
      ⟨(linked l.builder l.mem (roundUp l.builder.used 8) id.toNat version.toNat size).1,
        (linked l.builder l.mem (roundUp l.builder.used 8) id.toNat version.toNat size).2,
        l.objects ++ [l.next size true]⟩, ?_, h.tagged hroom hlow hcount,
      Or.inr ⟨hne, l.next size true, ⟨rfl, ?_, ?_⟩, rfl, rfl, rfl⟩, ?_⟩
    · simp only [perform, heq, hoff, Ledger.next]
    · intro a ha hlast
      have ha : a < l.builder.arena + roundUp l.builder.used 8 ∨
        l.builder.arena + roundUp l.builder.used 8 + size ≤ a := ha
      exact linked_frame (by omega) (hlast rfl)
    · intro _ i hlo hhi
      have hle := le_roundUp l.builder.used (show 0 < 8 by decide)
      have hcap := hroom.capacity
      have hhi : i < size := hhi
      change (linked l.builder l.mem _ _ _ _).2 (l.builder.arena + roundUp l.builder.used 8 + i) = 0
      rw [linked_frame (by omega) fun hne => ?_]
      · rw [Nat.add_assoc]
        refine h.zero hroom.arena _ (by omega) fun o ho hin => ?_
        have hend := (h.placed o ho).inside
        unfold Extent.Has at hin
        omega
      · have := h.chain.link_below hle hne
        omega
    · rintro (hz | hover)
      · exact absurd hz hne
      · exact hover

/-- `bbp_arena_blob` hands out a copy, fails, or has nothing to do. -/
theorem arenaBlob_room (b : Builder) (m : Mem) (data len : Nat) :
    (len = 0 ∧ arenaBlob b m data len = (0, b, m)) ∨ arenaBlob b m data len = (0, b.fail, m) ∨
    (0 < len ∧ b.Room len ∧ arenaBlob b m data len =
      (b.arenaPhys + roundUp b.used 8, { b with used := roundUp b.used 8 + len },
        m.copy (b.arena + roundUp b.used 8) data len)) := by
  unfold arenaBlob
  split
  · exact Or.inr (Or.inl rfl)
  · by_cases hlen : len = 0
    · exact Or.inl ⟨hlen, if_pos hlen⟩
    · rw [if_neg hlen]
      rcases arenaBump_room b len with hb | ⟨hroom, hb⟩
      · rw [hb]
        exact Or.inr (Or.inl rfl)
      · rw [hb]
        exact Or.inr (Or.inr ⟨by omega, hroom, rfl⟩)

/-- `bbp_arena_strdup_n` hands out a copy with its terminator, or fails. -/
theorem arenaStrdupN_room (b : Builder) (m : Mem) (src sourceBytes : Nat) :
    arenaStrdupN b m src sourceBytes = ((0, 0), b.fail, m) ∨
    ∃ len, b.Room (len + 1) ∧ arenaStrdupN b m src sourceBytes =
      ((b.arenaPhys + roundUp b.used 8, len), { b with used := roundUp b.used 8 + (len + 1) },
        (m.copy (b.arena + roundUp b.used 8) src len).set (b.arena + roundUp b.used 8 + len) 0) := by
  unfold arenaStrdupN
  split
  · exact Or.inl rfl
  · dsimp only
    split
    · exact Or.inl rfl
    · rcases arenaBump_room b (strnlen m src sourceBytes + 1) with hb | ⟨hroom, hb⟩
      · rw [hb]
        exact Or.inl rfl
      · rw [hb]
        exact Or.inr ⟨_, hroom, rfl⟩

/-- An object that is no tag is handed out. -/
theorem bytes_handed (hm : ∀ a, a < l.builder.arena + roundUp l.builder.used 8 ∨
      l.builder.arena + roundUp l.builder.used 8 + len ≤ a → m' a = l.mem a) :
    Handed l ⟨{ l.builder with used := roundUp l.builder.used 8 + len }, m',
      l.objects ++ [l.next len false]⟩ (l.next len false) :=
  ⟨rfl, fun a ha _ => hm a ha, fun hc => by cases hc⟩

theorem arenaBlob_steps (h : Sound l) (data len : Nat) : Steps fuel l (.arenaBlob data len) := by
  rcases arenaBlob_room l.builder l.mem data len with ⟨hlen, heq⟩ | hfail | ⟨hlen, hroom, heq⟩
  · refine ⟨0, l, ?_, h, Or.inl ⟨hlen, rfl, rfl⟩, ?_⟩
    · simp only [perform, heq, if_true]
    · rintro (hf | hover)
      · exact absurd hlen hf.1
      · exact hover
  · refine ⟨0, ⟨l.builder.fail, l.mem, l.objects⟩, ?_, h.fail, Or.inr (Or.inl ⟨rfl, rfl⟩), fun _ => rfl⟩
    simp only [perform, hfail, if_true]
  · have hoff : l.builder.arenaPhys + roundUp l.builder.used 8 - l.builder.arenaPhys =
        roundUp l.builder.used 8 := Nat.add_sub_cancel_left _ _
    have hne : l.builder.arenaPhys + roundUp l.builder.used 8 ≠ 0 := by
      have := (h.serves hroom.overflow hroom.arena).1
      omega
    have hm : ∀ a, a < l.builder.arena + roundUp l.builder.used 8 ∨
        l.builder.arena + roundUp l.builder.used 8 + len ≤ a →
          l.mem.copy (l.builder.arena + roundUp l.builder.used 8) data len a = l.mem a :=
      fun a ha => Mem.copy_frame ha
    refine ⟨l.builder.arenaPhys + roundUp l.builder.used 8, _, ?_, h.bytes hroom hlen _ hm,
      Or.inr (Or.inr ⟨hne, l.next len false, bytes_handed hm, rfl, rfl, rfl⟩), ?_⟩
    · simp only [perform, heq, hoff, if_neg hne, Ledger.next]
    · rintro (hf | hover)
      · exact absurd hf.2 hne
      · exact hover

theorem arenaStrdupN_steps (h : Sound l) (src sourceBytes : Nat) :
    Steps fuel l (.arenaStrdupN src sourceBytes) := by
  rcases arenaStrdupN_room l.builder l.mem src sourceBytes with hfail | ⟨len, hroom, heq⟩
  · refine ⟨0, ⟨l.builder.fail, l.mem, l.objects⟩, ?_, h.fail, Or.inl ⟨rfl, rfl⟩, fun _ => rfl⟩
    simp only [perform, hfail, if_true]
  · have hoff : l.builder.arenaPhys + roundUp l.builder.used 8 - l.builder.arenaPhys =
        roundUp l.builder.used 8 := Nat.add_sub_cancel_left _ _
    have hne : l.builder.arenaPhys + roundUp l.builder.used 8 ≠ 0 := by
      have := (h.serves hroom.overflow hroom.arena).1
      omega
    have hm : ∀ a, a < l.builder.arena + roundUp l.builder.used 8 ∨
        l.builder.arena + roundUp l.builder.used 8 + (len + 1) ≤ a →
          (l.mem.copy (l.builder.arena + roundUp l.builder.used 8) src len).set
            (l.builder.arena + roundUp l.builder.used 8 + len) 0 a = l.mem a := by
      intro a ha
      have hother : a ≠ l.builder.arena + roundUp l.builder.used 8 + len := by omega
      exact (if_neg hother).trans (Mem.copy_frame (by omega))
    refine ⟨l.builder.arenaPhys + roundUp l.builder.used 8, _, ?_, h.bytes hroom (Nat.succ_pos _) _ hm,
      Or.inr ⟨hne, l.next (len + 1) false, bytes_handed hm, rfl, rfl⟩, ?_⟩
    · simp only [perform, heq, hoff, if_neg hne, Ledger.next]
    · rintro (hf | hover)
      · exact absurd hf hne
      · exact hover

theorem sealTag_steps (h : Sound l) (index : Nat) : Steps fuel l (.sealTag index) := by
  unfold Steps
  simp only [perform]
  cases hget : l.tags[index]? with
  | none => exact ⟨0, l, rfl, h, ⟨rfl, rfl⟩, fun hf => hf.elim False.elim id⟩
  | some o =>
    have ho : o ∈ l.tags := List.mem_of_getElem? hget
    exact ⟨0, _, rfl, h.sums fun a ha _ => sealTag_frame (ha o ho), ⟨rfl, rfl⟩,
      fun hf => hf.elim False.elim id⟩

theorem finalize_steps (h : Sound l) (hfuel : 1024 ≤ fuel) (info infoPhys : Nat) :
    Steps fuel l (.finalize info infoPhys) := by
  unfold Steps
  simp only [perform]
  by_cases hclear : l.builder.Clear info 144
  · rw [if_pos hclear]
    rcases h.chain.finalize hfuel infoPhys with ⟨hnull, heq⟩ | ⟨_, _, heq⟩ | ⟨_, hfit, m', heq, hm, _⟩
    · exact ⟨0, l, by rw [heq], h, rfl, fun hf => hf.elim (fun hf => absurd hnull hf.1) id⟩
    · exact ⟨0, _, by rw [heq], h.fail, rfl, fun _ => rfl⟩
    · refine ⟨infoPhys, ⟨l.builder, fillInfo l.builder m' info, l.objects⟩, by rw [heq],
        h.sums fun a ha hin => ?_, rfl, ?_⟩
      · unfold Builder.Clear at hin hclear
        rw [fillInfo_frame (by omega), hm a ha]
      · rintro (hf | hover)
        · exact absurd hf.2.2 hfit
        · exact hover
  · rw [if_neg hclear]
    exact ⟨0, l, rfl, h, rfl, fun hf => hf.elim (fun hf => absurd hf.2.1 hclear) id⟩

theorem write_steps (h : Sound l) (a : Nat) (v : UInt8) : Steps fuel l (.write a v) := by
  unfold Steps
  simp only [perform]
  split
  next hmay =>
    have harena : ∀ o ∈ l.objects, l.builder.arena ≠ 0 ∧ o.off + o.size ≤ l.builder.capacity :=
      fun o ho => ⟨(h.placed o ho).arena, Nat.le_trans (h.placed o ho).inside h.used⟩
    refine ⟨0, _, rfl, h.keep (l.mem.set a v) l.builder.overflow id (fun o ho i hlo hhi => ?_)
      fun harena i hi hnone => ?_, ⟨rfl, rfl⟩, fun hf => hf.elim False.elim id⟩
    · refine if_neg ?_
      rintro rfl
      obtain ⟨hne, hcap⟩ := harena o (mem_tags.mp ho).1
      have hsize := (h.tag ho).2
      rcases hmay with hclear | ⟨o', ho', hle, hbody⟩
      · unfold Builder.Clear at hclear
        omega
      · unfold Extent.Body at hbody
        rcases apart_of_layout h.apart (mem_tags.mp ho).1 ho' with rfl | hapart
        · rw [if_pos (mem_tags.mp ho).2] at hbody
          omega
        · split at hbody <;> omega
    · refine if_neg ?_
      rintro rfl
      rcases hmay with hclear | ⟨o', ho', hle, hbody⟩
      · unfold Builder.Clear at hclear
        omega
      · have hin := hnone o' ho'
        unfold Extent.Body at hbody
        unfold Extent.Has at hin
        split at hbody <;> omega
  next => exact ⟨0, l, rfl, h, ⟨rfl, rfl⟩, fun hf => hf.elim False.elim id⟩

theorem perform_steps (h : Sound l) (hfuel : 1024 ≤ fuel) (op : Op) : Steps fuel l op := by
  cases op with
  | allocTag id version size => exact allocTag_steps h id version size
  | arenaBlob data len => exact arenaBlob_steps h data len
  | arenaStrdupN src sourceBytes => exact arenaStrdupN_steps h src sourceBytes
  | sealTag index => exact sealTag_steps h index
  | finalize info infoPhys => exact finalize_steps h hfuel info infoPhys
  | write a v => exact write_steps h a v

/-- A builder that overflowed does nothing any more. -/
theorem refuses_of_overflow (hover : l.builder.overflow = true) : Refuses fuel l := by
  have hfail : l.builder.fail = l.builder := by rw [Builder.fail, ← hover]
  have hroom : ∀ len, ¬ l.builder.Room len := fun len hroom =>
    absurd (hover.symm.trans hroom.overflow) (by decide)
  refine ⟨fun id version size => ?_, fun data len hlen => ?_, fun src sourceBytes => ?_,
    fun info infoPhys => ?_⟩
  · rcases allocTag_room l.builder l.mem id.toNat version.toNat size with heq | ⟨_, _, _, hsome, _⟩
    · simp only [perform, heq, hfail]
    · exact absurd hsome (hroom size)
  · rcases arenaBlob_room l.builder l.mem data len with ⟨hnil, _⟩ | heq | ⟨_, hsome, _⟩
    · exact absurd hnil hlen
    · simp only [perform, heq, hfail, if_true]
    · exact absurd hsome (hroom len)
  · rcases arenaStrdupN_room l.builder l.mem src sourceBytes with heq | ⟨_, hsome, _⟩
    · simp only [perform, heq, hfail, if_true]
    · exact absurd hsome (hroom _)
  · simp only [perform, builderFinalize, hover, true_or, if_true, hfail, ite_self]

end Calls

/-! ## Whole runs -/

/-- The run: it ends, with the arena in order, and a builder that has failed
has failed for good. -/
theorem performAll_sound {fuel : Nat} (hfuel : 1024 ≤ fuel) {l : Ledger} (h : Sound l) (ops : List Op) :
    ∃ l', performAll fuel l ops = some l' ∧ Sound l' ∧
      (l.builder.overflow = true → l'.builder.overflow = true) := by
  induction ops generalizing l with
  | nil => exact ⟨l, rfl, h, id⟩
  | cons op ops ih =>
    obtain ⟨r, l₁, hstep, hsound, _, hkeep⟩ := perform_steps h hfuel op
    obtain ⟨l', hrun, hsound', hkeep'⟩ := ih hsound
    refine ⟨l', ?_, hsound', fun hover => hkeep' (hkeep (Or.inr hover))⟩
    simp only [performAll, hstep, hrun]

/-- The tags of the chain are distinct. -/
theorem Sound.nodup {l : Ledger} (h : Sound l) :
    (l.tags.map fun o => l.builder.arenaPhys + o.off).Nodup := by
  refine List.pairwise_map.mpr (h.chain.layout.imp_of_mem fun {o o'} ho _ hbefore => ?_)
  have hsize := (h.tag ho).2
  omega

/-- Behind every run the arena is in order and the chain has no cycle, any
further call does what `Stepped` says, and once a call has failed, whatever
is called after it, the builder refuses. -/
theorem arena_in_order (m : Mem) (arena arenaPhys capacity : Nat) {fuel : Nat} (hfuel : 1024 ≤ fuel)
    (ops : List Op) :
    ∃ l, performAll fuel (Ledger.start m arena arenaPhys capacity) ops = some l ∧ Sound l ∧
      (l.tags.map fun o => l.builder.arenaPhys + o.off).Nodup ∧
      ∀ op, ∃ r l', perform fuel l op = some (r, l') ∧ Stepped l r l' op ∧
        (Failed l r op → ∀ later, ∃ l'', performAll fuel l' later = some l'' ∧ Refuses fuel l'') := by
  obtain ⟨l, hrun, hsound, _⟩ := performAll_sound hfuel (start_sound m arena arenaPhys capacity) ops
  refine ⟨l, hrun, hsound, hsound.nodup, fun op => ?_⟩
  obtain ⟨r, l', hstep, hsound', hstepped, hkeep⟩ := perform_steps hsound hfuel op
  refine ⟨r, l', hstep, hstepped, fun hfailed later => ?_⟩
  obtain ⟨l'', hlater, _, hover⟩ := performAll_sound hfuel hsound' later
  exact ⟨l'', hlater, refuses_of_overflow (hover (hkeep (Or.inl hfailed)))⟩

theorem arena_in_order_page :
    ∃ l, performAll 1024 (Ledger.start (fun _ => 7) 4096 8192 4096)
      [.allocTag 1 1 40, .arenaBlob 100 8, .finalize 64 64] = some l ∧ Sound l := by
  obtain ⟨l, hrun, hsound, _⟩ := arena_in_order (fun _ => 7) 4096 8192 4096 (Nat.le_refl 1024)
    [.allocTag 1 1 40, .arenaBlob 100 8, .finalize 64 64]
  exact ⟨l, hrun, hsound⟩

/-- Calls that store into the arena where no tag is. An INFO at the arena's
beginning stays there, with no object around it. A blob of 16 bytes that is
sealed as if it were a tag is sealed behind its end. And a tag is as aligned
as the arena's pointer, which nothing checks. -/
theorem calls_into_the_arena :
    (builderFinalize 1024 (builderInit (fun _ => 0) 4096 4096 256).1 (fun _ => 0) 4096 4096).map
      (fun x => (x.1, x.2.2 4096)) = some (4096, 66) ∧
    (let m : Mem := fun a => if a = 8200 then 32 else 0
     let (phys, _, m) := arenaBlob (builderInit m 4096 4096 256).1 m 8192 16
     phys = 4096 ∧ m.getLE (4096 + 24) 8 = 0 ∧ (sealTag m 4096).getLE (4096 + 24) 8 ≠ 0) ∧
    (allocTag (builderInit (fun _ => 0) 4 4096 64).1 (fun _ => 0) 1 1 32).1 = some 4 := by
  decide +kernel

end BearBoot.Bootloader
