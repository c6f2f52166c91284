import BearBoot.Kernel.Chain
import BearBoot.Bridge.Fields

/-!
# A v1 chain as the bridge sees it

The bridge reaches a tag through a map, so a tag has two addresses: the
physical one, which the links are about, and the pointer the map answered,
where the bytes are. A `V1Tag` carries both, with the size.

Both directions of the bridge meet here. The forward one accepts a list of
`Sound` tags that is `Linked` from INFO's first pointer; the reverse one
writes such a list. When the map is the kernel's own translation, a linked
list of sound tags is a handoff that the kernel delivers whole
(`Linked.presents`); and two tags that differ in their linkage only are the
same to everything but the walk (`V1Tag.Same`).
-/

set_option autoImplicit false

namespace BearBoot.Bridge

open Machine Kernel

/-- A tag of a handoff: the physical address, the pointer the map gave for
it, the size in its header. -/
structure V1Tag where
  addr : Nat
  ptr : Nat
  size : Nat

def V1Tag.span (v : V1Tag) : Span := ⟨v.addr, v.size⟩

/-- The tag can only be preserved with external references. -/
def V1Tag.external (m : Mem) (v : V1Tag) : Bool :=
  decide (tagExternalReferences m v.ptr v.size = some true)

/-- A tag the bridge takes, as it stands in memory. -/
structure V1Tag.Sound (m : Mem) (policy : Nat) (v : V1Tag) : Prop where
  nonzero : v.addr ≠ 0
  aligned : 8 ∣ v.addr
  low : 32 ≤ v.size
  high : v.size ≤ v1MaxTagSize
  below : v.addr + v.size ≤ v1MaxPhys
  ptr : v.ptr ≠ 0
  size : tagSize m v.ptr = v.size
  crc : CrcOk m v.ptr
  known : tagExternalReferences m v.ptr v.size ≠ none
  allowed : v.external m = true → policy &&& allowExternalPhys ≠ 0

/-- The tags are linked from `addr` on, the last one to null. -/
def Linked (m : Mem) : (addr : Nat) → List V1Tag → Prop
  | addr, [] => addr = 0
  | addr, v :: vs => addr = v.addr ∧ Linked m (tagNext m v.ptr) vs

/-- The tags are the chain from `first` that the map shows. -/
structure IsChain (m : Mem) (map : Nat → Nat → Nat) (first : Nat) (tags : List V1Tag) : Prop where
  linked : Linked m first tags
  mapped : ∀ v ∈ tags, v.ptr = map v.addr v.size
  size : ∀ v ∈ tags, tagSize m v.ptr = v.size

/-- The tag `v'` of the memory `m'` is the tag `v` of the memory `m`, but
for the linkage: the pointer to the next tag and the checksum over it. -/
structure V1Tag.Same (m : Mem) (v : V1Tag) (m' : Mem) (v' : V1Tag) : Prop where
  size : v'.size = v.size
  bytes : ∀ k < v.size, ¬ (16 ≤ k ∧ k < 32) → m' (v'.ptr + k) = m (v.ptr + k)

section Same

variable {m m' : Mem} {v v' : V1Tag}

theorem V1Tag.Same.id (h : v.Same m m' v') (hlow : 32 ≤ v.size) :
    tagId m' v'.ptr = tagId m v.ptr :=
  Mem.getLE_congr fun i hi => h.bytes i (by omega) (by omega)

theorem V1Tag.Same.version (h : v.Same m m' v') (hlow : 32 ≤ v.size) :
    tagVersion m' v'.ptr = tagVersion m v.ptr :=
  Mem.getLE_congr fun i hi => by
    rw [Nat.add_assoc, Nat.add_assoc]
    exact h.bytes (12 + i) (by omega) (by omega)

theorem V1Tag.Same.tagSize (h : v.Same m m' v') (hlow : 32 ≤ v.size) :
    tagSize m' v'.ptr = tagSize m v.ptr :=
  tagSize_congr fun i hi => h.bytes i (by omega) (by omega)

theorem V1Tag.Same.trans {m'' : Mem} {v'' : V1Tag} (h : v.Same m m' v') (h' : v'.Same m' m'' v'') :
    v.Same m m'' v'' := by
  refine ⟨h'.size.trans h.size, fun k hk hni => ?_⟩
  rw [h'.bytes k (h.size ▸ hk) hni, h.bytes k hk hni]

/-- Relinking a tag does not change its classification. -/
theorem V1Tag.Same.references (h : v.Same m m' v') (hlow : 32 ≤ v.size) :
    tagExternalReferences m' v'.ptr v'.size = tagExternalReferences m v.ptr v.size := by
  rw [h.size]
  exact tagExternalReferences_congr (h.id hlow) fun i hlo hhi => h.bytes i hhi (by omega)

theorem V1Tag.Same.external (h : v.Same m m' v') (hlow : 32 ≤ v.size) :
    v'.external m' = v.external m := by
  unfold V1Tag.external
  rw [h.references hlow]

/-- A sound tag is its bytes. -/
theorem V1Tag.Sound.congr {policy : Nat} (hv : v.Sound m policy)
    (h : ∀ k < v.size, m' (v.ptr + k) = m (v.ptr + k)) : v.Sound m' policy := by
  have hlow := hv.low
  have hsize := hv.size
  have hsame : v.Same m m' v := ⟨rfl, fun k hk _ => h k hk⟩
  refine ⟨hv.nonzero, hv.aligned, hlow, hv.high, hv.below, hv.ptr, ?_, ?_, ?_, ?_⟩
  · rw [← hsize]
    exact tagSize_congr fun i hi => h i (by omega)
  · exact hv.crc.congr (by omega) fun i hi => h i (by omega)
  · rw [hsame.references hlow]
    exact hv.known
  · rw [hsame.external hlow]
    exact hv.allowed

end Same

section Linked

variable {m m' : Mem} {addr : Nat} {tags : List V1Tag}

theorem Linked.congr (h : Linked m addr tags)
    (hnext : ∀ v ∈ tags, tagNext m' v.ptr = tagNext m v.ptr) : Linked m' addr tags := by
  induction tags generalizing addr with
  | nil => exact h
  | cons v vs ih =>
    obtain ⟨haddr, hrest⟩ := h
    refine ⟨haddr, ?_⟩
    rw [hnext v List.mem_cons_self]
    exact ih hrest fun w hw => hnext w (List.mem_cons_of_mem _ hw)

/-- Numbered tags, each linked to the next one and the last to null. -/
theorem linked_range {n : Nat} (tag : Nat → V1Tag)
    (h : ∀ j < n, tagNext m (tag j).ptr = if j + 1 < n then (tag (j + 1)).addr else 0) :
    Linked m (if n ≠ 0 then (tag 0).addr else 0) ((List.range n).map tag) := by
  induction n generalizing tag with
  | zero => rfl
  | succ n ih =>
    rw [List.range_succ_eq_map, List.map_cons, List.map_map]
    refine ⟨if_pos (Nat.succ_ne_zero n), ?_⟩
    have hfirst : tagNext m (tag 0).ptr = if n ≠ 0 then ((tag ∘ Nat.succ) 0).addr else 0 := by
      rw [h 0 (Nat.zero_lt_succ n)]
      simp only [Nat.zero_add, Nat.lt_add_left_iff_pos, Nat.pos_iff_ne_zero, Function.comp_apply]
    rw [hfirst]
    refine ih _ fun j hj => ?_
    rw [Function.comp_apply, h (j + 1) (Nat.succ_lt_succ hj)]
    simp only [Nat.succ_eq_add_one, Nat.add_lt_add_iff_right, Function.comp_apply]

/-- Linked tags are a path of the kernel's successor function, when the
pointers are the kernel's. -/
theorem Linked.path {offset : Nat} (h : Linked m addr tags)
    (hptr : ∀ v ∈ tags, v.ptr = v.addr + offset) :
    Path (fun p => tagNext m (p + offset)) addr (tags.map V1Tag.addr) 0 := by
  induction tags generalizing addr with
  | nil => exact h
  | cons v vs ih =>
    obtain ⟨rfl, hrest⟩ := h
    refine ⟨rfl, ?_⟩
    rw [hptr v List.mem_cons_self] at hrest
    exact ih hrest fun w hw => hptr w (List.mem_cons_of_mem _ hw)

/-- Sound tags that are linked from INFO's first pointer, at the kernel's
addresses and inside its window, are a handoff it takes whole. -/
theorem Linked.presents {k : Kctx} {policy : Nat}
    (h : Linked m (infoFirstTag m k.info) tags) (hcount : tags.length ≤ maxTags)
    (hsound : ∀ v ∈ tags, v.Sound m policy) (hptr : ∀ v ∈ tags, v.ptr = v.addr + k.hhdmOffset)
    (hwrap : ∀ v ∈ tags, v.addr + k.hhdmOffset + v.size < 2 ^ 64)
    (hwindow : k.walkLo < k.walkHi → ∀ v ∈ tags, k.walkLo ≤ v.addr ∧ v.addr + v.size ≤ k.walkHi) :
    Presents k m (tags.map V1Tag.addr) where
  path := h.path hptr
  count := by rwa [List.length_map]
  ok := by
    intro p hp
    obtain ⟨v, hv, rfl⟩ := List.mem_map.mp hp
    have hsound := hsound v hv
    have hsize : tagSize m (v.addr + k.hhdmOffset) = v.size := by
      rw [← hptr v hv]
      exact hsound.size
    refine ⟨hsound.nonzero, Nat.mod_eq_zero_of_dvd hsound.aligned, ?_, ?_, ?_, ?_, fun hw => ?_⟩
    · rw [hsize]
      exact hsound.low
    · rw [hsize]
      exact hsound.high
    · rw [hsize]
      exact hsound.below
    · rw [hsize]
      exact hwrap v hv
    · rw [hsize]
      exact hwindow hw v hv
  crc := by
    intro p hp
    obtain ⟨v, hv, rfl⟩ := List.mem_map.mp hp
    rw [← hptr v hv]
    exact (hsound v hv).crc

end Linked

end BearBoot.Bridge
