import BearBoot.Bridge.Refine
import BearBoot.Bridge.Reverse

/-!
# There and back, and there again

The two bridges keep different books. The capsule has no links and no
physical addresses; the handoff has no directory. What one direction drops
the other recomputes, and neither must refuse what the other wrote.

- The layouts agree up to a constant: behind the directory the capsule
  places its payloads as the handoff places its tags behind INFO
  (`tag_stop`), so the return trip never exceeds its extent limit.
- What the forward bridge writes is `Restorable` under the same policy
  (`capsule_restorable`): the classification of a tag does not read its
  linkage.
- What the reverse bridge writes is converted again (`Restored.convert`),
  and as the items are the same ones the capsule is the same one.

`bridge_roundTrip` puts them together. The two directions may run over
different memories of the machine: the restored handoff is read through
any map that shows it at its physical address.
-/

set_option autoImplicit false

namespace BearBoot.Bridge

open Machine V2 Kernel

variable {j : Nat} {v : V1Tag} {m₁ : Mem}

/-- INFO at `info'` of the memory `m'` is INFO at `info` of `m`, but for
`info_size`, `first_tag` and the checksum. -/
def SameInfo (m : Mem) (info : Nat) (m' : Mem) (info' : Nat) : Prop :=
  ∀ i < 136, ¬ (20 ≤ i ∧ i < 24) → ¬ (120 ≤ i ∧ i < 128) → m' (info' + i) = m (info + i)

/-- The map shows the `size` bytes at `base` at the physical address
`phys`. -/
def ShownAt (map : Nat → Nat → Nat) (phys base size : Nat) : Prop :=
  ∀ offset count, offset + count ≤ size → map (phys + offset) count = base + offset

/-- A workspace and an output of `n` bytes, apart from each other and from
the `size` bytes at `base`. -/
structure Room (workspace output capacity n base size : Nat) : Prop where
  workspaceNonnull : workspace ≠ 0
  workspaceFits : workspace + 104 < 2 ^ 64
  outputNonnull : output ≠ 0
  outputFits : output + n < 2 ^ 64
  enough : n ≤ capacity
  sourceFits : base + size < 2 ^ 64
  workspaceApart : base + size ≤ workspace ∨ workspace + 104 ≤ base
  outputApart : base + size ≤ output ∨ output + n ≤ base
  disjoint : workspace + 104 ≤ output ∨ output + n ≤ workspace

/-! ## Out: the capsule can be restored -/

section Capsule

variable {c m : Mem} {n info policy : Nat} {tags : List V1Tag}

theorem capsule_entryCount (h : Laid c n (capsuleItems m info tags)) :
    entryCount c = tags.length + 1 := by
  rw [h.header.count, capsuleItems, List.length_cons, List.length_map]

/-- Entry 0 is INFO. -/
theorem capsule_info (h : Laid c n (capsuleItems m info tags)) :
    ∃ offset, (slots (bodyStart (capsuleItems m info tags)) (capsuleItems m info tags))[0]? =
        some ⟨offset, infoItem m info⟩ ∧
      dirent c 0 = Slot.dirent ⟨offset, infoItem m info⟩ ∧
      c.bytes offset 104 = infoPayload m info := by
  obtain ⟨offset, hslot, hdirent, hbytes⟩ := h.slot
    (show (capsuleItems m info tags)[0]? = some (infoItem m info) from rfl)
  refine ⟨offset, hslot, hdirent, ?_⟩
  change c.bytes offset (infoPayload m info).length = infoPayload m info at hbytes
  rwa [infoPayload_length] at hbytes

/-- Entry `j + 1` is the `j`-th tag. -/
theorem capsule_tag (h : Laid c n (capsuleItems m info tags)) (hv : tags[j]? = some v) :
    ∃ offset, (slots (bodyStart (capsuleItems m info tags)) (capsuleItems m info tags))[j + 1]? =
        some ⟨offset, v.item m⟩ ∧
      dirent c (j + 1) = Slot.dirent ⟨offset, v.item m⟩ ∧
      c.bytes offset v.size = unlinked m v.ptr v.size := by
  have hitem : (capsuleItems m info tags)[j + 1]? = some (v.item m) := by
    rw [capsuleItems, List.getElem?_cons_succ, List.getElem?_map, hv, Option.map_some]
  obtain ⟨offset, hslot, hdirent, hbytes⟩ := h.slot hitem
  refine ⟨offset, hslot, hdirent, ?_⟩
  change c.bytes offset (unlinked m v.ptr v.size).length = unlinked m v.ptr v.size at hbytes
  rwa [unlinked_length] at hbytes

/-- Its payload is the tag, but for the linkage. -/
theorem capsule_same (h : Laid c n (capsuleItems m info tags))
    (hv : tags[j]? = some v) : v.Same m c (payloadTag c j) := by
  obtain ⟨offset, _, hdirent, hbytes⟩ := capsule_tag h hv
  unfold payloadTag
  rw [hdirent]
  refine ⟨unlinked_length m v.ptr v.size, fun k hk hni => ?_⟩
  exact (bytes_eq_unlinked.mp hbytes k hk).trans (if_neg hni)

/-- The capsule's layout is the handoff's, further behind. -/
theorem tag_stop (h : Laid c n (capsuleItems m info tags)) (hj : j ≤ tags.length) :
    (dirent c j).offset + (dirent c j).size = tagsEnd c j + 8 * (9 + 6 * tags.length) := by
  induction j with
  | zero =>
    obtain ⟨offset, hslot, hdirent, _⟩ := capsule_info h
    have hoffset : offset = roundUp (bodyStart (capsuleItems m info tags)) 8 := slots_first hslot
    have hbody : bodyStart (capsuleItems m info tags) = 64 + (tags.length + 1) * 48 := by
      rw [bodyStart, capsuleItems, List.length_cons, List.length_map]
    rw [hbody, roundUp_of_dvd (by decide) (by omega)] at hoffset
    rw [hdirent]
    change offset + (infoPayload m info).length = 144 + 8 * (9 + 6 * tags.length)
    rw [infoPayload_length]
    omega
  | succ j ih =>
    obtain ⟨v, hv⟩ : ∃ v, tags[j]? = some v := ⟨_, List.getElem?_eq_getElem hj⟩
    obtain ⟨offset, hslot, hdirent, _⟩ := capsule_tag h hv
    obtain ⟨r, hr, hr'⟩ := h.exists_slot (show j < entryCount c by rw [capsule_entryCount h]; omega)
    have hnext : offset = roundUp r.span.stop 8 := slots_next hr hslot
    have hstop : r.span.stop = tagsEnd c j + 8 * (9 + 6 * tags.length) := by
      rw [← ih (by omega), hr']
      rfl
    rw [hstop, roundUp_add_mul _ _ (by decide)] at hnext
    have hoffset : (dirent c (j + 1)).offset = offset := by
      rw [hdirent]
      rfl
    rw [hoffset, hnext, tagsEnd_succ, tagOffset]
    omega

/-- So the handoff is shorter than the capsule. -/
theorem tagsEnd_le (h : Laid c n (capsuleItems m info tags))
    (hok : ∀ it ∈ capsuleItems m info tags, it.Ok) (hj : j ≤ tags.length) :
    tagsEnd c j ≤ n := by
  have hstop := tag_stop h hj
  have hinside := (h.dirent_ok hok (show j < entryCount c by rw [capsule_entryCount h]; omega)).inside
  omega

/-- The context pointer in the capsule is INFO's. -/
theorem capsule_context (h : Laid c n (capsuleItems m info tags)) :
    get64 c ((dirent c 0).offset + 96) = get64 m (info + 128) := by
  obtain ⟨offset, _, hdirent, hbytes⟩ := capsule_info h
  rw [hdirent]
  refine Mem.getLE_congr fun i hi => ?_
  have hbyte := bytes_eq_infoPayload.mp hbytes (96 + i) (by omega)
  rw [if_neg (by omega), if_neg (by omega), ← Nat.add_assoc, ← Nat.add_assoc] at hbyte
  exact hbyte

/-- The entry of a sound tag is one the reverse bridge takes. -/
theorem capsule_tagEntryOk (h : Laid c n (capsuleItems m info tags))
    (hable : Encodable (capsuleItems m info tags)) (hv : tags[j]? = some v)
    (hsound : v.Sound m policy) : TagEntryOk c j := by
  obtain ⟨hj, _⟩ := List.getElem?_eq_some_iff.mp hv
  have hsame := capsule_same h hv
  have hlow := hsound.low
  have hextent := Nat.le_trans (tagsEnd_le h hable.ok (show j + 1 ≤ tags.length from hj))
    (h.size ▸ hable.extent)
  obtain ⟨offset, _, hdirent, hbytes⟩ := capsule_tag h hv
  have hzero : ∀ k, 16 ≤ k → k < 32 → c (offset + k) = 0 := by
    intro k hlo hhi
    exact (bytes_eq_unlinked.mp hbytes k (by omega)).trans (if_pos ⟨hlo, hhi⟩)
  have hid := hsame.id hlow
  have hsize := hsame.tagSize hlow
  have hversion := hsame.version hlow
  have hrefs := hsame.references hlow
  have hlength : (v.item m).data.length = v.size := unlinked_length m v.ptr v.size
  unfold payloadTag at hid hsize hversion hrefs
  rw [hdirent] at hid hsize hversion hrefs
  refine ⟨?_, ?_, ?_, ?_, ?_, ?_, ?_, ?_, ?_, ?_, ?_, hextent⟩
  all_goals rw [hdirent]
  · change (if v.external m = true then 3 else 2) &&& efV1Wire ≠ 0
    split <;> decide
  · change (if v.external m = true then 3 else 2) &&& not32 (efV1Wire ||| efExternalPhys) = 0
    split <;> decide
  · exact hlow.trans_eq hlength.symm
  · exact hlength.trans_le hsound.high
  · exact hid
  · exact (hsize.trans hsound.size).trans hlength.symm
  · exact hversion
  · refine Mem.getLE_eq_zero_iff.mpr fun i hi => ?_
    rw [Nat.add_assoc]
    exact hzero (16 + i) (by omega) (by omega)
  · refine Mem.getLE_eq_zero_iff.mpr fun i hi => ?_
    rw [Nat.add_assoc]
    exact hzero (24 + i) (by omega) (by omega)
  · exact hrefs ▸ hsound.known
  · intro hexternal
    have hexternal : v.external m = true := decide_eq_true (hrefs.symm.trans hexternal)
    change (if v.external m = true then 3 else 2) &&& efExternalPhys ≠ 0
    rw [if_pos hexternal]
    decide

/-- The capsule of sound tags can be restored, under the same policy. -/
theorem capsule_restorable (h : Laid c n (capsuleItems m info tags))
    (hable : Encodable (capsuleItems m info tags)) (hsound : ∀ v ∈ tags, v.Sound m policy)
    (hcontext : get64 m (info + 128) ≠ 0 → policy &&& allowExternalPhys ≠ 0) :
    Restorable c policy := by
  have hcount := capsule_entryCount h
  have hinfo := capsule_context h
  obtain ⟨offset, _, hdirent, _⟩ := capsule_info h
  have hflags : (dirent c 0).flags = if get64 m (info + 128) ≠ 0 then efExternalPhys else 0 := by
    rw [hdirent]
    rfl
  refine ⟨by omega, ?_, ?_, ?_, ?_, ?_, ?_, ?_⟩
  · rw [hdirent]
    rfl
  · rw [hdirent]
    rfl
  · rw [hdirent]
    exact infoPayload_length m info
  · rw [hflags]
    split <;> decide
  · rw [hinfo, hflags]
    intro hne
    rw [if_pos hne]
    decide
  · intro i hi
    have hv : tags[i]? = some _ := List.getElem?_eq_getElem (by omega)
    exact capsule_tagEntryOk h hable hv (hsound _ (List.mem_of_getElem? hv))
  · rintro ⟨j, hj, hflag⟩
    cases j with
    | zero =>
      refine hcontext fun hzero => hflag ?_
      rw [hflags, hzero]
      rfl
    | succ j =>
      have hv : tags[j]? = some _ := List.getElem?_eq_getElem (by omega)
      obtain ⟨offset, _, hdirent, _⟩ := capsule_tag h hv
      refine (hsound _ (List.mem_of_getElem? hv)).allowed ?_
      by_contra hexternal
      refine hflag ?_
      rw [hdirent]
      change (if V1Tag.external m _ = true then 3 else 2) &&& efExternalPhys = 0
      rw [if_neg hexternal]
      decide

end Capsule

/-! ## Back: the handoff is the source's -/

section Handoff

variable {m m' : Mem} {info info' : Nat} {tags tags' : List V1Tag}

/-- Restored INFO is the INFO whose payload it was restored from. -/
theorem InfoRestored.same {c : Mem} {payload count first total : Nat}
    (h : InfoRestored c payload m' info' count first total) (hok : InfoOk m info)
    (hminor : get16 m (info + 18) = 1) (hcount : infoTagCount m info = count)
    (hpayload : c.bytes payload 104 = infoPayload m info) : SameInfo m info m' info' := by
  have field : ∀ o w, m'.getLE (info' + o) w = m.getLE (info + o) w → ∀ i, o ≤ i → i < o + w →
      m' (info' + i) = m (info + i) := by
    intro o w heq i hlo hhi
    have hbyte := Mem.getLE_inj heq (i - o) (by omega)
    rwa [Nat.add_assoc, Nat.add_assoc, Nat.add_sub_cancel' hlo] at hbyte
  have hbytes := bytes_eq_infoPayload.mp hpayload
  intro i hi hsize hfirst
  by_cases h16 : i < 16
  · exact Mem.bytes_eq_iff.mp (h.ok.magic.trans hok.magic.symm) i h16
  by_cases h18 : i < 18
  · exact field 16 2 (h.ok.major.trans hok.major.symm) i (by omega) (by omega)
  by_cases h24 : i < 24
  · exact field 18 2 (h.minor.trans hminor.symm) i (by omega) (by omega)
  by_cases h116 : i < 116
  · obtain ⟨k, rfl⟩ := Nat.exists_eq_add_of_le (Nat.le_of_not_lt h24)
    rw [← Nat.add_assoc, ← Nat.add_assoc, h.fields k (by omega), hbytes k (by omega),
      if_pos (by omega)]
  by_cases h120 : i < 120
  · exact field 116 4 (h.count.trans hcount.symm) i (by omega) (by omega)
  · obtain ⟨k, rfl⟩ := Nat.exists_eq_add_of_le (show 32 ≤ i by omega)
    rw [← Nat.add_assoc, ← Nat.add_assoc, h.context k (by omega) (by omega), hbytes k (by omega),
      if_neg (by omega), if_neg (by omega)]

/-- The same INFO makes the same item. -/
theorem infoItem_congr (hinfo : SameInfo m info m' info') : infoItem m' info' = infoItem m info := by
  have hcontext : get64 m' (info' + 128) = get64 m (info + 128) := by
    refine Mem.getLE_congr fun i hi => ?_
    rw [Nat.add_assoc, Nat.add_assoc]
    exact hinfo (128 + i) (by omega) (by omega) (by omega)
  have hpayload : infoPayload m' info' = infoPayload m info :=
    infoPayload_congr fun i _ _ _ => hinfo i (by omega) (by omega) (by omega)
  rw [infoItem, infoItem, hcontext, hpayload]

/-- The same handoff makes the same items. -/
theorem capsuleItems_congr (hinfo : SameInfo m info m' info') (hlow : ∀ v ∈ tags, 32 ≤ v.size)
    (htags : List.Forall₂ (fun v v' => v.Same m m' v') tags tags') :
    capsuleItems m' info' tags' = capsuleItems m info tags := by
  rw [capsuleItems, capsuleItems, infoItem_congr hinfo]
  refine congrArg _ ?_
  induction htags with
  | nil => rfl
  | @cons v v' vs vs' hsame _ ih =>
    rw [List.map_cons, List.map_cons, hsame.item (hlow v List.mem_cons_self),
      ih fun w hw => hlow w (List.mem_cons_of_mem _ hw)]

/-- The restored tags are the source's, in order. -/
theorem Restored.sameTags {c : Mem} {n policy phys base : Nat} (h : Restored c policy phys base m')
    (hlaid : Laid c n (capsuleItems m info tags)) :
    List.Forall₂ (fun v v' => v.Same m m' v') tags (restoredTags c phys base) := by
  have hcount := capsule_entryCount hlaid
  refine List.forall₂_iff_get.mpr ⟨by rw [restoredTags_length]; omega, fun j hj hj' => ?_⟩
  have hv : tags[j]? = some _ := List.getElem?_eq_getElem hj
  have hv' : (restoredTags c phys base)[j]? = some _ := List.getElem?_eq_getElem hj'
  obtain ⟨hlt, heq⟩ := restoredTags_getElem? hv'
  rw [List.get_eq_getElem, List.get_eq_getElem, heq]
  exact (capsule_same hlaid hv).trans (h.same hlt)

end Handoff

/-! ## There again: the handoff is converted -/

section Again

variable {c m : Mem} {policy phys base workspace output capacity n : Nat} {map : Nat → Nat → Nat}

/-- The chain that a map shows in a handoff. -/
theorem Restored.chainOk (h : Restored c policy phys base m)
    (hmap : ShownAt map phys base (handoffSize c)) :
    chain m map (infoFirstTag m base) (entryCount c - 1) = restoredTags c phys base ∧
      ChainOk m map policy (infoFirstTag m base) (entryCount c - 1) := by
  have hptr : ∀ v ∈ restoredTags c phys base, map v.addr 32 = v.ptr ∧ map v.addr v.size = v.ptr := by
    intro v hv
    have hlow := (h.sound v hv).low
    obtain ⟨offset, haddr, hptr, hin⟩ := restoredTags_inside hv
    rw [haddr, hptr]
    exact ⟨hmap _ _ (by omega), hmap _ _ hin⟩
  have hmapped : ∀ v ∈ restoredTags c phys base, mappedTag m map v.addr = v := by
    intro v hv
    obtain ⟨hheader, htag⟩ := hptr v hv
    have hsize : get32 m (v.ptr + 8) = v.size := (h.sound v hv).size
    rw [mappedTag, hheader, hsize, htag]
  obtain ⟨hchain, hends⟩ := chain_of_linked h.linked hmapped
  rw [restoredTags_length] at hchain hends
  have htag : ∀ i < entryCount c - 1,
      chainTag m map (infoFirstTag m base) i ∈ restoredTags c phys base := by
    intro i hi
    rw [← hchain]
    exact List.mem_map_of_mem (List.mem_range.mpr hi)
  have hapart : (restoredTags c phys base).Pairwise fun v v' => v.span.Disjoint v'.span := by
    refine pairwise_range_map.mpr fun i hi j hj => Or.inl ?_
    have hafter := tagOffset_lt c hj
    rw [tagsEnd_succ] at hafter
    change phys + tagOffset c j + (dirent c (j + 1)).size ≤ phys + tagOffset c i
    omega
  rw [← hchain, chain] at hapart
  have hdisjoint := pairwise_range_map.mp hapart
  refine ⟨hchain, fun i hi => ?_, hdisjoint, hends⟩
  obtain ⟨hheader, _⟩ := hptr _ (htag i hi)
  refine ⟨h.sound _ (htag i hi), ?_, ?_⟩
  · rw [hheader]
    exact (h.sound _ (htag i hi)).ptr
  · rw [hheader]

/-- A restored INFO passes the forward bridge. -/
theorem Restored.infoGood (h : Restored c policy phys base m) : InfoGood m ⟨base, some map⟩ := by
  have hmax := h.count
  refine ⟨h.info.ok, h.info.minor, ?_, ?_, ?_⟩
  · rw [h.info.count]
    omega
  · rw [h.info.count, h.info.first]
    split
    next hne => exact iff_of_false hne (Nat.ne_of_gt (Nat.add_pos_right phys (by decide)))
    next heq => exact iff_of_true (not_not.mp heq) rfl
  · rw [h.info.first]
    intro _
    refine ⟨?_, rfl⟩
    split
    · exact Nat.dvd_add h.aligned (by decide)
    · exact Nat.dvd_zero 8

/-- The forward bridge gets through a restored handoff; `m₁` is the memory
after its first store. -/
theorem Restored.convertible (h : Restored c policy phys base m)
    (hmap : ShownAt map phys base (handoffSize c))
    (hsame : ∀ i < handoffSize c, m₁ (base + i) = m (base + i)) :
    Convertible m m₁ ⟨base, some map⟩ policy ∧
      Source.tags ⟨base, some map⟩ m m₁ = restoredTags c phys base := by
  have hlow := le_handoffSize c
  have h₁ := h.congr h.nonnull hsame
  obtain ⟨hchain, hchainOk⟩ := h₁.chainOk hmap
  rw [h₁.info.first, ← h.info.first, ← h.info.count] at hchain hchainOk
  refine ⟨⟨h.nonnull, h.infoGood, fun hne => ?_, hchainOk⟩, hchain⟩
  have hcontext : get64 m₁ (base + 128) = get64 c ((dirent c 0).offset + 96) := by
    refine Mem.getLE_congr fun i hi => ?_
    rw [Nat.add_assoc (dirent c 0).offset, ← h₁.info.context (96 + i) (by omega) (by omega)]
    exact congrArg m₁ (by omega)
  rw [hcontext] at hne
  exact h.restorable.allowed ⟨0, Nat.pos_of_ne_zero h.restorable.nonempty, h.restorable.context hne⟩

/-- The builder's entries for a chain have the shapes of its items. -/
theorem entries_shape {info : Nat} (tags : List V1Tag) (external : Bool) :
    ((infoEntry workspace external :: tags.map (V1Tag.entry m₁)).map (BuildEntry.item m₁)).map
        Item.shape = (capsuleItems m info tags).map Item.shape := by
  rw [capsuleItems, List.map_cons, List.map_cons, List.map_cons, List.map_map, List.map_map,
    List.map_map]
  refine congrArg₂ List.cons ?_ (List.map_congr_left fun v _ => ?_)
  · rw [Item.shape, Item.shape, BuildEntry.item, Mem.bytes_length]
    exact congrArg _ (infoPayload_length m info).symm
  · rw [Function.comp_apply, Function.comp_apply, Function.comp_apply, Item.shape, Item.shape,
      BuildEntry.item, Mem.bytes_length]
    exact congrArg _ (unlinked_length m v.ptr v.size).symm

/-- In the room the builder can read every entry. -/
theorem Room.entries (h : Room workspace output capacity n base (handoffSize c))
    (hbase : base ≠ 0) (external : Bool) :
    ∀ e ∈ infoEntry workspace external :: (restoredTags c phys base).map (V1Tag.entry m₁),
      e.data ≠ 0 ∧ e.Apart output n := by
  intro e he
  rcases List.mem_cons.mp he with rfl | he
  · exact ⟨h.workspaceNonnull, h.outputFits, h.workspaceFits, h.disjoint⟩
  · obtain ⟨v, hv, rfl⟩ := List.mem_map.mp he
    obtain ⟨offset, _, hptr, hin⟩ := restoredTags_inside hv
    have hfits := h.sourceFits
    have hapart := h.outputApart
    have hdata : (v.entry m₁).data = base + offset := hptr
    have hsize : (v.entry m₁).size = v.size := rfl
    refine ⟨by omega, h.outputFits, by omega, by omega⟩

/-- The forward bridge takes a restored handoff again, if its items fit a
capsule, and writes the capsule of the items. -/
theorem Restored.convert {items : List Item} (h : Restored c policy phys base m)
    (hmap : ShownAt map phys base (handoffSize c))
    (hroom : Room workspace output capacity n base (handoffSize c))
    (hitems : capsuleItems m base (restoredTags c phys base) = items) (hable : Encodable items)
    (hn : n = finish (bodyStart items) items) (w₀ : Nat) (report : Option Report) :
    ∃ r, fromV1 m (some ⟨base, some map⟩) policy (some workspace) output capacity (some w₀) report =
        r ∧ r.status = .ok () ∧ r.written = some n ∧ IsEncoding (r.mem.based output) n items := by
  have hlow := le_handoffSize c
  have hws := hroom.workspaceApart
  obtain ⟨m₁, hm₁⟩ : ∃ m₁, m₁ = normalizeInfo m workspace base := ⟨_, rfl⟩
  -- the workspace is apart, so the handoff is still there
  have hsame : ∀ i < handoffSize c, m₁ (base + i) = m (base + i) := by
    intro i hi
    rw [hm₁]
    exact normalizeInfo_frame (by omega)
  obtain ⟨hconv, htags⟩ := h.convertible hmap hsame
  obtain ⟨entries, hentries⟩ : ∃ entries, Source.entries ⟨base, some map⟩ m m₁ workspace = entries :=
    ⟨_, rfl⟩
  have hlist : entries = infoEntry workspace (get64 m₁ (base + 128) != 0) ::
      (restoredTags c phys base).map (V1Tag.entry m₁) := by
    rw [← hentries, Source.entries, htags]
  have hentry := hlist ▸ hroom.entries h.nonnull (get64 m₁ (base + 128) != 0)
  have hshape : (entries.map (BuildEntry.item m₁)).map Item.shape = items.map Item.shape := by
    rw [hlist, ← hitems]
    exact entries_shape _ _
  have hsize : builtSize m₁ entries = n := by
    rw [builtSize, ← bodyStart_items m₁, bodyStart_congr hshape, (slots_congr hshape _).2, hn]
  have hbuildable : Buildable m₁ capacity entries :=
    Buildable.of_encodable (fun e he => (hentry e he).1) (hable.congr hshape)
      (hsize.trans_le hroom.enough)
  have hbuild : build m₁ output capacity (some entries) (some 0) = (.ok (), some _, _) :=
    build_ok_iff.mpr ⟨hroom.outputNonnull, hbuildable,
      fun e he => hsize.symm ▸ (hentry e he).2, rfl, rfl⟩
  rw [hsize, ← hentries] at hbuild
  obtain ⟨r, hrun, hok, hwritten, hmem⟩ := fromV1_run w₀ report hconv hm₁ hbuild
  refine ⟨r, hrun, hok, hwritten, ?_⟩
  have hsource : base + 144 ≤ workspace ∨ workspace + 104 ≤ base := by omega
  obtain ⟨hencoding, _⟩ := normalizeBuilt_isEncoding hconv hm₁ hsource hbuild
  have hkeep : ∀ v ∈ restoredTags c phys base, v.item m₁ = v.item m := by
    intro v hv
    obtain ⟨offset, _, hptr, hin⟩ := restoredTags_inside hv
    refine V1Tag.Same.item ⟨rfl, fun k hk _ => ?_⟩ (h.sound v hv).low
    rw [hptr, Nat.add_assoc]
    exact hsame _ (by omega)
  rw [htags, List.map_congr_left hkeep] at hencoding
  rw [hmem, ← hitems]
  exact hencoding

end Again

/-- A converted source comes back: the capsule parses, the reverse bridge
restores it wherever there is room, INFO and the tags are the source's but
for size, linkage and seals, and converting them again makes the same
capsule. -/
theorem bridge_roundTrip (m : Mem) (source : Source)
    (policy workspace output capacity w₀ : Nat) (report : Option Report) (r : Forward)
    (hr : fromV1 m (some source) policy (some workspace) output capacity (some w₀) report = r)
    (hok : r.status = .ok ()) (hapart : SourceApart source workspace r) :
    ∃ n view tags size, r.written = some n ∧
      (∀ out, (parse output n (some out)).val r.mem = (.ok (), some view)) ∧
      IsChain m source.mapped (infoFirstTag m source.info) tags ∧
      tags.length = infoTagCount m source.info ∧ size ≤ n ∧
      ∀ (base capacity' phys w₁ : Nat) (report' : Option Report),
        base ≠ 0 → Placed base capacity' phys size output n →
        ∃ r', toV1 r.mem (some view) policy base capacity' phys (some w₁) report' = r' ∧
          r'.status = .ok () ∧ r'.written = some size ∧
          SameInfo m source.info r'.mem base ∧
          ∀ map, ShownAt map phys base size →
            (∃ tags', IsChain r'.mem map (infoFirstTag r'.mem base) tags' ∧
              List.Forall₂ (fun v v' => v.Same m r'.mem v') tags tags') ∧
            ∀ (workspace' output' capacity'' w₂ : Nat) (report'' : Option Report),
              Room workspace' output' capacity'' n base size →
              ∃ r'', fromV1 r'.mem (some ⟨base, some map⟩) policy (some workspace') output'
                  capacity'' (some w₂) report'' = r'' ∧
                r''.status = .ok () ∧ r''.written = some n ∧
                ∀ i < n, r''.mem (output' + i) = r.mem (output + i) := by
  obtain ⟨n, tags, h⟩ := fromV1_converted hr hok hapart
  obtain ⟨hne, _⟩ := h.outputFits
  have hwf := h.encoding.wellFormed h.encodable
  have hlaid := h.encoding.toLaid
  have hrestorable := capsule_restorable hlaid h.encodable h.sound h.context
  have hcount := capsule_entryCount hlaid
  have hsize : handoffSize (r.mem.based output) ≤ n := tagsEnd_le hlaid h.encodable.ok (by omega)
  refine ⟨n, viewOf (r.mem.based output) output n, tags, handoffSize (r.mem.based output), h.written,
    fun out => parse_val_ok hne hwf, h.chain, h.count, hsize, ?_⟩
  intro base capacity' phys w₁ report' hbase hplaced
  have hback := toV1_run (viewOf (r.mem.based output) output n) w₁ report' hne hbase hwf hrestorable
    hplaced
  obtain ⟨r', hr'⟩ : ∃ r', toV1 r.mem (some (viewOf (r.mem.based output) output n)) policy base
    capacity' phys (some w₁) report' = r' := ⟨_, rfl⟩
  rw [hr'] at hback
  obtain ⟨_, _, _, _, _, hwritten, hmem⟩ := toV1_inv hr' hback
  obtain ⟨m', hrun, _, hrestored⟩ := emitHandoff_restored hne hbase hwf hrestorable hplaced
  have hmem : r'.mem = m' := hmem.trans hrun
  rw [← hmem] at hrestored
  obtain ⟨offset, _, hdirent, hpayload⟩ := capsule_info hlaid
  have hoffset : (dirent (r.mem.based output) 0).offset = offset := by
    rw [hdirent]
    rfl
  have hinfo : SameInfo m source.info r'.mem base :=
    hrestored.info.same h.info.ok h.info.minor (by rw [← h.count]; omega) (hoffset ▸ hpayload)
  have htags := hrestored.sameTags hlaid
  refine ⟨r', hr', hback, hwritten, hinfo, fun map hmap => ⟨⟨_, ?_, htags⟩, ?_⟩⟩
  · refine ⟨hrestored.linked, fun v hv => ?_, fun v hv => (hrestored.sound v hv).size⟩
    obtain ⟨place, haddr, hptr, hin⟩ := restoredTags_inside hv
    rw [haddr, hptr]
    exact (hmap _ _ hin).symm
  · intro workspace' output' capacity'' w₂ report'' hroom
    have hitems := capsuleItems_congr hinfo (fun v hv => (h.sound v hv).low) htags
    obtain ⟨r'', hr'', hok'', hwritten'', hencoding⟩ :=
      hrestored.convert hmap hroom hitems h.encodable h.encoding.size w₂ report''
    exact ⟨r'', hr'', hok'', hwritten'', (hencoding.unique h.encoding).2⟩

/-- The sample handoff goes to a capsule at 0x30000, back to 0x40000 (which
is to be the physical address 0x5000), and to 0x60000 again. -/
theorem bridge_roundTrip_sample :
    ∃ r view r' r'', fromV1 sampleHandoff (some ⟨0x11000, some (kernelMap sampleKctx)⟩) 0
        (some 0x20000) 0x30000 4096 (some 0) none = r ∧
      toV1 r.mem (some view) 0 0x40000 4096 0x5000 (some 0) none = r' ∧ r'.status = .ok () ∧
      SameInfo sampleHandoff 0x11000 r'.mem 0x40000 ∧
      fromV1 r'.mem (some ⟨0x40000, some fun p _ => p + 0x3b000⟩) 0 (some 0x50000) 0x60000 4096
        (some 0) none = r'' ∧ r''.status = .ok () ∧
      ∀ i < 400, r''.mem (0x60000 + i) = r.mem (0x30000 + i) := by
  obtain ⟨r, hr⟩ : ∃ r, fromV1 sampleHandoff (some ⟨0x11000, some (kernelMap sampleKctx)⟩) 0
    (some 0x20000) 0x30000 4096 (some 0) none = r := ⟨_, rfl⟩
  obtain ⟨hok, hwritten, htags⟩ := sampleHandoff_converted hr
  obtain ⟨n, view, _, size, hn, _, _, _, hsize, hall⟩ := bridge_roundTrip sampleHandoff
    ⟨0x11000, some (kernelMap sampleKctx)⟩ 0 0x20000 0x30000 4096 0 none r hr hok
    ⟨by decide, by rw [htags]; decide⟩
  cases hn.symm.trans hwritten
  obtain ⟨r', hr', hok', _, hinfo, hagain⟩ := hall 0x40000 4096 0x5000 0 none (by decide)
    ⟨by omega, by decide, by decide, by unfold v1MaxPhys; omega, by omega, by decide, by omega⟩
  obtain ⟨_, hforward⟩ := hagain (fun p _ => p + 0x3b000) fun offset _ _ => by
    dsimp only
    omega
  obtain ⟨r'', hr'', hok'', _, hbytes⟩ := hforward 0x50000 0x60000 4096 0 none
    ⟨by decide, by decide, by decide, by decide, by decide, by omega, by omega, by omega, by decide⟩
  exact ⟨r, view, r', r'', hr, hr', hok', hinfo, hr'', hok'', hbytes⟩

end BearBoot.Bridge
