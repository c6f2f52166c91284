import Mathlib.Data.List.Pairwise
import BearBoot.Machine.Path
import BearBoot.Bootloader.Build

/-!
# The chain of tags

`bbp_alloc_tag` links every tag behind the one before, and `finalize`
follows the links to seal them. `Builder.Chain` says that a list of places
in the arena is that chain: the links are a path through exactly these
places, in order and to null, each place lies behind the ones before and
inside what is used, and the builder's count and last pointer are the
list's.

The places are those of any list whose elements have an offset and a size:
the records of a session (`Session`), or the tags among the objects of a
ledger (`Objects`). Both carry a chain in their invariant and follow no
link themselves. A call keeps the chain as long as it keeps the links
(`Chain.keep`), `bbp_alloc_tag` extends it (`Chain.link`), and the reseal
loop ends on it with every tag sealed (`Chain.reseal`).
-/

namespace BearBoot.Bootloader

open Machine

variable {m m' : Mem} {a size fuel info : Nat} {b : Builder}

/-! ## The stores of a new tag -/

/-- The builder and the memory after a successful `bbp_alloc_tag`. -/
def linked (b : Builder) (m : Mem) (start id version size : Nat) : Builder × Mem :=
  let tag := b.arena + start
  let phys := b.arenaPhys + start
  let m := stampHeader m tag id version size
  ({ b with
      used := start + size
      firstPhys := if b.last ≠ 0 then b.firstPhys else phys
      last := tag
      tagCount := b.tagCount + 1 },
    if b.last ≠ 0 then put64 m (b.last + 16) phys else m)

theorem Builder.Room.tag (h : b.Room size) (m : Mem) (hlow : 32 ≤ size)
    (hhigh : size ≤ 16777216) (hcount : b.tagCount < 1024) (id version : Nat) :
    allocTag b m id version size =
      (some (b.arena + roundUp b.used 8), linked b m (roundUp b.used 8) id version size) := by
  unfold allocTag
  rw [if_neg (by omega), h.bump]
  rfl

theorem allocTag_room (b : Builder) (m : Mem) (id version size : Nat) :
    allocTag b m id version size = (none, b.fail, m) ∨
    (32 ≤ size ∧ size ≤ 16777216 ∧ b.tagCount < 1024 ∧ b.Room size ∧
      allocTag b m id version size =
        (some (b.arena + roundUp b.used 8), linked b m (roundUp b.used 8) id version size)) := by
  unfold allocTag
  split
  · exact Or.inl rfl
  next hsize =>
    rcases arenaBump_room b size with hb | ⟨hroom, hb⟩
    · rw [hb]
      exact Or.inl rfl
    · rw [hb]
      exact Or.inr ⟨by omega, by omega, by omega, hroom, rfl⟩

/-- What a tag that was handed out says of the builder. -/
theorem allocTag_some {b' : Builder} {id version tag : Nat}
    (h : allocTag b m id version size = (some tag, b', m')) :
    b.Room size ∧ b'.used = roundUp b.used 8 + size ∧ b'.capacity = b.capacity := by
  rcases allocTag_room b m id version size with hfail | ⟨_, _, _, hroom, heq⟩
  · rw [hfail] at h
    cases h
  · rw [heq] at h
    cases h
    exact ⟨hroom, rfl, rfl⟩

/-- The stores of a successful allocation reach the new header and the
last tag's link, and nothing else. -/
theorem linked_frame {start id version : Nat}
    (hnew : a < b.arena + start ∨ b.arena + start + 32 ≤ a)
    (hlast : b.last ≠ 0 → a < b.last + 16 ∨ b.last + 24 ≤ a) :
    (linked b m start id version size).2 a = m a := by
  unfold linked
  dsimp only
  split
  next hne =>
    have hfar := hlast hne
    rw [put64, Mem.putLE_frame (by omega), stampHeader_frame hnew]
  next => rw [stampHeader_frame hnew]

/-- The link's store misses the new header. -/
theorem linked_header {start id version o w : Nat}
    (hlast : b.last ≠ 0 → b.last + 24 ≤ b.arena + start) :
    (linked b m start id version size).2.getLE (b.arena + start + o) w =
      (stampHeader m (b.arena + start) id version size).getLE (b.arena + start + o) w := by
  unfold linked
  dsimp only
  split
  next hne =>
    have hbelow := hlast hne
    exact Mem.getLE_putLE_frame (by omega)
  next => rfl

/-! ## The chain -/

/-- The successor of the tag at the physical address `p`. -/
def Builder.successor (b : Builder) (m : Mem) (p : Nat) : Nat :=
  tagNext m (b.arena + (p - b.arenaPhys))

theorem successor_off (b : Builder) (m : Mem) (off : Nat) :
    b.successor m (b.arenaPhys + off) = tagNext m (b.arena + off) := by
  rw [Builder.successor, Nat.add_sub_cancel_left]

/-- A tag's place: in the arena's used part, and one a physical pointer can
name. -/
structure Builder.Holds (b : Builder) (off size : Nat) : Prop where
  arena : b.arena ≠ 0
  phys : b.arenaPhys ≠ 0
  header : 32 ≤ size
  inside : off + size ≤ b.used
  below : b.arenaPhys + off + size ≤ 2 ^ 48

/-- The places `tags` are the builder's chain in the memory `m`. -/
structure Builder.Chain {α : Type} (b : Builder) (m : Mem) (off size : α → Nat) (tags : List α) :
    Prop where
  count : b.tagCount = tags.length
  few : tags.length ≤ 1024
  last : b.last = tags.getLast?.elim 0 fun t => b.arena + off t
  path : Path (b.successor m) b.firstPhys (tags.map fun t => b.arenaPhys + off t) 0
  layout : tags.Pairwise fun t t' => off t + size t ≤ off t'
  holds : ∀ t ∈ tags, b.Holds (off t) (size t)

/-- Places one behind the other: two of them are the same or share no byte. -/
theorem apart_of_layout {α : Type} {off size : α → Nat} {xs : List α} {x y : α}
    (h : xs.Pairwise fun x y => off x + size x ≤ off y) (hx : x ∈ xs) (hy : y ∈ xs) :
    x = y ∨ off x + size x ≤ off y ∨ off y + size y ≤ off x := by
  have : Std.Symm fun x y => off x + size x ≤ off y ∨ off y + size y ≤ off x :=
    ⟨fun _ _ => Or.symm⟩
  have hboth : xs.Pairwise fun x y => off x + size x ≤ off y ∨ off y + size y ≤ off x :=
    h.imp Or.inl
  exact or_iff_not_imp_left.mpr (hboth.forall hx hy)

namespace Builder.Chain

variable {α β : Type} {off size : α → Nat} {tags : List α} {t t' : α}

theorem nil (hcount : b.tagCount = 0) (hlast : b.last = 0) (hfirst : b.firstPhys = 0) :
    b.Chain m off size [] :=
  ⟨hcount, Nat.zero_le _, hlast, hfirst, .nil, fun _ ht => absurd ht List.not_mem_nil⟩

theorem apart (h : b.Chain m off size tags) (ht : t ∈ tags) (ht' : t' ∈ tags) :
    t = t' ∨ off t + size t ≤ off t' ∨ off t' + size t' ≤ off t :=
  apart_of_layout h.layout ht ht'

/-- The last tag, when there is one, ends before what is not used yet. -/
theorem last_tag (h : b.Chain m off size tags) (hne : b.last ≠ 0) :
    ∃ t ∈ tags, b.last = b.arena + off t ∧ off t + size t ≤ b.used ∧ 32 ≤ size t := by
  cases hl : tags.getLast? with
  | none => exact absurd (by rw [h.last, hl]; rfl) hne
  | some t =>
    have hmem := List.mem_of_getLast? hl
    exact ⟨t, hmem, by rw [h.last, hl]; rfl, (h.holds t hmem).inside, (h.holds t hmem).header⟩

/-- A call that bumps the arena and keeps the links keeps the chain. -/
theorem keep (h : b.Chain m off size tags) (m' : Mem) (used' : Nat) (overflow' : Bool)
    (hused : b.used ≤ used')
    (hlinks : ∀ t ∈ tags, ∀ i, 16 ≤ i → i < 24 → m' (b.arena + off t + i) = m (b.arena + off t + i)) :
    { b with used := used', overflow := overflow' }.Chain m' off size tags where
  count := h.count
  few := h.few
  last := h.last
  path := by
    refine h.path.congr fun p hp => ?_
    obtain ⟨t, ht, rfl⟩ := List.mem_map.mp hp
    refine (successor_off _ _ _).trans ((Mem.getLE_congr fun i hi => ?_).trans (successor_off _ _ _).symm)
    rw [Nat.add_assoc]
    exact hlinks t ht (16 + i) (by omega) (by omega)
  layout := h.layout
  holds t ht :=
    have ⟨harena, hphys, hheader, hin, hbelow⟩ := h.holds t ht
    ⟨harena, hphys, hheader, Nat.le_trans hin hused, hbelow⟩

/-- The chain is one of places. -/
theorem map (h : b.Chain m off size tags) {off' size' : β → Nat} {f : α → β}
    (hoff : ∀ t, off' (f t) = off t) (hsize : ∀ t, size' (f t) = size t) :
    b.Chain m off' size' (tags.map f) where
  count := by rw [List.length_map, h.count]
  few := by rw [List.length_map]; exact h.few
  last := by
    rw [h.last, List.getLast?_map]
    cases tags.getLast? with
    | none => rfl
    | some t => exact congrArg (b.arena + ·) (hoff t).symm
  path := by
    simp only [List.map_map, Function.comp_def, hoff]
    exact h.path
  layout := by
    simp only [List.pairwise_map, hoff, hsize]
    exact h.layout
  holds t' ht' := by
    obtain ⟨t, ht, rfl⟩ := List.mem_map.mp ht'
    rw [hoff, hsize]
    exact h.holds t ht

section Link

variable {start id version n : Nat}

/-- The tags before a new one keep their bytes, but for the last one's link. -/
theorem linked_keep (h : b.Chain m off size tags) (hstart : b.used ≤ start) (ht : t ∈ tags) {i : Nat}
    (hi : i < size t) (hni : 16 ≤ i → i < 24 → b.last ≠ b.arena + off t) :
    (linked b m start id version n).2 (b.arena + off t + i) = m (b.arena + off t + i) := by
  have hin := (h.holds t ht).inside
  refine linked_frame (by omega) fun hne => ?_
  obtain ⟨l, hl, heq, _, hsize⟩ := h.last_tag hne
  rcases h.apart ht hl with rfl | hapart
  · omega
  · omega

/-- The last tag's link ends before a new tag. -/
theorem link_below (h : b.Chain m off size tags) (hstart : b.used ≤ start) (hne : b.last ≠ 0) :
    b.last + 24 ≤ b.arena + start := by
  obtain ⟨l, _, heq, hin, hsize⟩ := h.last_tag hne
  omega

/-- The new tag is linked behind the last one. -/
theorem linked_path (h : b.Chain m off size tags) (hstart : b.used ≤ start)
    (hfit : b.arenaPhys + start < 2 ^ 64) (hoff : off t = start) :
    Path ((linked b m start id version n).1.successor (linked b m start id version n).2)
      (linked b m start id version n).1.firstPhys
      ((tags ++ [t]).map fun t => b.arenaPhys + off t) 0 := by
  have hend : (linked b m start id version n).1.successor (linked b m start id version n).2
      (b.arenaPhys + off t) = 0 := by
    rw [hoff]
    exact (successor_off _ _ _).trans ((linked_header (h.link_below hstart)).trans stampHeader_next)
  rw [List.map_append]
  rcases List.eq_nil_or_concat' tags with hnil | ⟨front, l, hsnoc⟩
  · have hzero : b.last = 0 := by rw [h.last, hnil]; rfl
    rw [hnil]
    exact ⟨(if_neg (not_not.mpr hzero)).trans (congrArg (b.arenaPhys + ·) hoff.symm), hend⟩
  · have hl : l ∈ tags := by rw [hsnoc]; exact List.mem_append_right _ List.mem_cons_self
    have hlast : b.last = b.arena + off l := by rw [h.last, hsnoc, List.getLast?_concat]; rfl
    have hne : b.last ≠ 0 := by have := (h.holds l hl).arena; omega
    have hfirst : (linked b m start id version n).1.firstPhys = b.firstPhys := if_pos hne
    have hpath := h.path
    rw [hsnoc, List.map_append] at hpath
    rw [hsnoc, List.map_append, hfirst]
    refine hpath.link ?_ ?_ hend
    · intro p hp
      obtain ⟨r, hr, rfl⟩ := List.mem_map.mp hp
      have hmem : r ∈ tags := by rw [hsnoc]; exact List.mem_append_left _ hr
      have hheader := (h.holds r hmem).header
      have hbefore : off r + size r ≤ off l := by
        have hlayout := h.layout
        rw [hsnoc] at hlayout
        exact (List.pairwise_append.mp hlayout).2.2 r hr l List.mem_cons_self
      refine (successor_off _ _ _).trans ((Mem.getLE_congr fun i hi => ?_).trans (successor_off _ _ _).symm)
      change (linked b m start id version n).2 (b.arena + off r + 16 + i) = _
      rw [Nat.add_assoc (b.arena + off r)]
      exact h.linked_keep hstart hmem (show 16 + i < size r by omega) (by omega)
    · refine (successor_off _ _ _).trans ?_
      change tagNext (if b.last ≠ 0 then _ else _) (b.arena + off l) = b.arenaPhys + off t
      rw [if_pos hne, ← hlast, hoff]
      exact Mem.getLE_putLE hfit

/-- A tag that is handed out extends the chain. -/
theorem link (h : b.Chain m off size tags) (hstart : b.used ≤ start) (hcount : b.tagCount < 1024)
    (hnew : Holds { b with used := start + n } start n) (hoff : off t = start) (hsize : size t = n) :
    (linked b m start id version n).1.Chain (linked b m start id version n).2 off size (tags ++ [t]) := by
  have hc := h.count
  have hbelow := hnew.below
  dsimp only at hbelow
  refine ⟨?_, ?_, ?_, h.linked_path hstart (by omega) hoff, ?_, fun r hr => ?_⟩
  · rw [List.length_append, ← hc]
    rfl
  · rw [List.length_append, List.length_singleton]
    omega
  · rw [List.getLast?_concat, Option.elim_some, hoff]
    rfl
  · refine List.pairwise_append.mpr ⟨h.layout, List.pairwise_singleton _ _, fun r hr r' hr' => ?_⟩
    rw [List.mem_singleton.mp hr', hoff]
    exact Nat.le_trans (h.holds r hr).inside hstart
  · rcases List.mem_append.mp hr with hr | hr
    · obtain ⟨harena, hphys, hheader, hin, hbelow⟩ := h.holds r hr
      exact ⟨harena, hphys, hheader, Nat.le_trans (Nat.le_trans hin hstart) (Nat.le_add_right _ _), hbelow⟩
    · rw [List.mem_singleton.mp hr, hoff, hsize]
      exact ⟨hnew.arena, hnew.phys, hnew.header, hnew.inside, hnew.below⟩

end Link

end Builder.Chain

/-! ## Resealing -/

theorem builderPhysToVirt_off (b : Builder) {off : Nat} (hoff : off < 2 ^ 64) :
    builderPhysToVirt b (b.arenaPhys + off) = b.arena + off := by
  have hsub : b.arenaPhys + off + 2 ^ 64 - b.arenaPhys = off + 2 ^ 64 := by omega
  rw [builderPhysToVirt, hsub, Nat.add_mod_right, Nat.mod_eq_of_lt hoff]

/-- The reseal loop ends on a chain no longer than its fuel. It writes
the checksums of the chain's tags and nothing else, and leaves a tag intact
that ends before the ones behind it. -/
theorem resealLoop_spec {offs : List Nat} {cur : Nat} (hfuel : offs.length ≤ fuel)
    (hpath : Path (b.successor m) cur (offs.map (b.arenaPhys + ·)) 0)
    (hapart : offs.Pairwise fun o o' => o + 32 ≤ o')
    (hsmall : ∀ o ∈ offs, b.arenaPhys ≠ 0 ∧ b.arenaPhys + o < 2 ^ 64) :
    ∃ m', resealLoop b fuel m cur = some m' ∧
      (∀ a, (∀ o ∈ offs, a < b.arena + o + 24 ∨ b.arena + o + 32 ≤ a) → m' a = m a) ∧
      ∀ o ∈ offs, 32 ≤ tagSize m (b.arena + o) →
        (∀ o' ∈ offs, o < o' → o + tagSize m (b.arena + o) ≤ o') → Kernel.CrcOk m' (b.arena + o) := by
  induction offs generalizing fuel cur m with
  | nil =>
    have hcur : cur = 0 := hpath
    refine ⟨m, ?_, fun _ _ => rfl, fun o ho => by cases ho⟩
    cases fuel with
    | zero => rw [resealLoop, if_pos hcur]
    | succ fuel => rw [resealLoop, if_pos hcur]
  | cons o offs ih =>
    obtain ⟨rfl, hrest⟩ := hpath
    obtain ⟨hhead, htail⟩ := List.pairwise_cons.mp hapart
    obtain ⟨hphys, hoff⟩ := hsmall o List.mem_cons_self
    cases fuel with
    | zero => exact absurd hfuel (Nat.not_succ_le_zero _)
    | succ fuel =>
      dsimp only at hrest
      rw [successor_off] at hrest
      have hvirt := builderPhysToVirt_off b (show o < 2 ^ 64 by omega)
      have hnext : tagNext (sealTag m (b.arena + o)) (b.arena + o) = tagNext m (b.arena + o) :=
        Mem.getLE_congr fun i hi => sealTag_frame (by omega)
      have hpath' : Path (b.successor (sealTag m (b.arena + o))) (tagNext m (b.arena + o))
          (offs.map (b.arenaPhys + ·)) 0 := by
        refine hrest.congr fun p hp => ?_
        obtain ⟨o', ho', rfl⟩ := List.mem_map.mp hp
        have hbefore := hhead o' ho'
        rw [successor_off, successor_off]
        refine Mem.getLE_congr fun i hi => sealTag_frame ?_
        omega
      obtain ⟨m', hrun, hframe, hcrc⟩ := ih (Nat.le_of_succ_le_succ hfuel) hpath' htail
        fun o' ho' => hsmall o' (List.mem_cons_of_mem _ ho')
      refine ⟨m', ?_, fun a ha => ?_, fun o' ho' hlow hends => ?_⟩
      · have hne : b.arenaPhys + o ≠ 0 := by omega
        rw [resealLoop, if_neg hne]
        simp only [hvirt, hnext]
        exact hrun
      · rw [hframe a fun o' ho' => ha o' (List.mem_cons_of_mem _ ho')]
        exact sealTag_frame (ha o List.mem_cons_self)
      · have hsize : tagSize (sealTag m (b.arena + o)) (b.arena + o') = tagSize m (b.arena + o') := by
          refine Kernel.tagSize_congr fun i hi => sealTag_frame ?_
          rcases List.mem_cons.mp ho' with rfl | ho'
          · omega
          · have hbefore := hhead o' ho'
            omega
        rcases List.mem_cons.mp ho' with rfl | ho'
        · -- the checksums that follow are those of tags behind this one
          refine (sealTag_crcOk m (b.arena + o')).congr (by omega) fun i hi => hframe _ fun o₂ ho₂ => ?_
          have hbefore := hhead o₂ ho₂
          have hend := hends o₂ (List.mem_cons_of_mem _ ho₂) (by omega)
          omega
        · exact hcrc o' ho' (by omega) fun o₂ ho₂ hlt => by
            rw [hsize]
            exact hends o₂ (List.mem_cons_of_mem _ ho₂) hlt

/-- The checks of `bbp_builder_finalize`. -/
def Builder.Unfit (b : Builder) : Prop :=
  b.overflow = true ∨ 1024 < b.tagCount ∨ b.capacity < b.used ∨ 64 * 1024 * 1024 - 144 < b.used

namespace Builder.Chain

variable {α : Type} {off size : α → Nat} {tags : List α}

/-- The reseal loop ends on the chain, and seals every tag that has the size
its place has. -/
theorem reseal (h : b.Chain m off size tags) (hfuel : 1024 ≤ fuel) :
    ∃ m', resealLoop b fuel m b.firstPhys = some m' ∧
      (∀ a, (∀ t ∈ tags, a < b.arena + off t + 24 ∨ b.arena + off t + 32 ≤ a) → m' a = m a) ∧
      ∀ t ∈ tags, tagSize m (b.arena + off t) = size t → Kernel.CrcOk m' (b.arena + off t) := by
  have hpath : Path (b.successor m) b.firstPhys ((tags.map off).map (b.arenaPhys + ·)) 0 := by
    rw [List.map_map]
    exact h.path
  have hapart : (tags.map off).Pairwise fun o o' => o + 32 ≤ o' := by
    refine List.pairwise_map.mpr (h.layout.imp_of_mem fun {t t'} ht _ hle => ?_)
    have hheader := (h.holds t ht).header
    omega
  have hfew : (tags.map off).length ≤ fuel := by
    rw [List.length_map]
    exact Nat.le_trans h.few hfuel
  obtain ⟨m', hrun, hframe, hcrc⟩ := resealLoop_spec hfew hpath hapart fun o ho => by
    obtain ⟨t, ht, rfl⟩ := List.mem_map.mp ho
    have hbelow := (h.holds t ht).below
    exact ⟨(h.holds t ht).phys, by omega⟩
  refine ⟨m', hrun, fun a ha => hframe a fun o ho => ?_, fun t ht hsize => ?_⟩
  · obtain ⟨t, ht, rfl⟩ := List.mem_map.mp ho
    exact ha t ht
  · have hheader := (h.holds t ht).header
    refine hcrc (off t) (List.mem_map_of_mem ht) (by omega) fun o ho hlt => ?_
    obtain ⟨t', ht', rfl⟩ := List.mem_map.mp ho
    rw [hsize]
    rcases h.apart ht ht' with rfl | hapart
    · omega
    · omega

/-- What `finalize` does: nothing for a `NULL` INFO, a refusal, or every tag
sealed and INFO filled. -/
theorem finalize (h : b.Chain m off size tags) (hfuel : 1024 ≤ fuel) (infoPhys : Nat) :
    (info = 0 ∧ builderFinalize fuel b m info infoPhys = some (0, b, m)) ∨
    (info ≠ 0 ∧ b.Unfit ∧ builderFinalize fuel b m info infoPhys = some (0, b.fail, m)) ∨
    (info ≠ 0 ∧ ¬ b.Unfit ∧ ∃ m', builderFinalize fuel b m info infoPhys =
        some (infoPhys, b, fillInfo b m' info) ∧
      (∀ a, (∀ t ∈ tags, a < b.arena + off t + 24 ∨ b.arena + off t + 32 ≤ a) → m' a = m a) ∧
      ∀ t ∈ tags, tagSize m (b.arena + off t) = size t → Kernel.CrcOk m' (b.arena + off t)) := by
  unfold builderFinalize
  by_cases hinfo : info = 0
  · exact Or.inl ⟨hinfo, if_pos hinfo⟩
  rw [if_neg hinfo]
  split
  next hunfit => exact Or.inr (Or.inl ⟨hinfo, hunfit, rfl⟩)
  next hfit =>
    obtain ⟨m', hrun, hkeep⟩ := h.reseal hfuel
    exact Or.inr (Or.inr ⟨hinfo, hfit, m', by rw [hrun], hkeep⟩)

end Builder.Chain

end BearBoot.Bootloader
