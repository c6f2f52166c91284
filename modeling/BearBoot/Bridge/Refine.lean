import BearBoot.Bridge.Forward

/-!
# The forward bridge and the kernel walk the same chain

Two walkers that share no code. The kernel's follows at most 1024 links
and skips what fails its CRC; the bridge follows as many links as INFO
declares, keeps every address it has seen and refuses any overlap. When
the bridge maps addresses as the kernel does and succeeds, the kernel
accepts the same INFO and hands out exactly the tags that the bridge put
into the capsule, in order (`fromV1_refines_kernel`).

The kernel's context is `k`; that it verifies CRCs, that its offset is not
zero, that the translation of each tag does not wrap and that the window,
if there is one, covers the tags are the conditions under which the two
see the same memory. The source has to stand apart from the workspace: the
header of the bridge asks for that.
-/

set_option autoImplicit false

namespace BearBoot.Bridge

open Machine V2 Kernel

/-- The kernel's address translation as a source map. -/
def kernelMap (k : Kctx) : Nat → Nat → Nat := fun p _ => virtOf k p

/-- The entry holds the tag at `tag` of the memory `m`, without its
linkage. -/
structure Recorded (m : Mem) (tag : Nat) (m' : Mem) (ev : EntryView) : Prop where
  type : ev.type = tagId m tag
  version : ev.version = tagVersion m tag
  size : ev.size = tagSize m tag
  bytes : ∀ i < tagSize m tag, m' (ev.data + i) = if 16 ≤ i ∧ i < 32 then 0 else m (tag + i)

section Refine

variable {m : Mem} {source : Source} {policy output n : Nat} {r : Forward} {tags : List V1Tag}

/-- A capsule entry that shows a tag's item holds the tag. -/
theorem recorded_of_shows {m' : Mem} {ev : EntryView} {v : V1Tag}
    (h : ev.Shows m' output (v.item m)) (hsize : tagSize m v.ptr = v.size) :
    Recorded m v.ptr m' ev := by
  have hlen : ev.size = v.size := by
    rw [h.size]
    exact unlinked_length m v.ptr v.size
  have hbytes := h.bytes
  rw [hlen] at hbytes
  refine ⟨h.type, h.version, hlen.trans hsize.symm, ?_⟩
  rw [hsize]
  exact bytes_eq_unlinked.mp hbytes

/-- Tags that overlap nowhere have different addresses: two at one address
would share its first byte. -/
theorem Converted.distinct (h : Converted m source policy output r n tags) :
    (tags.map V1Tag.addr).Nodup := by
  rw [List.Nodup, List.pairwise_map]
  refine h.apart.imp_of_mem fun {v v'} hv hv' hd hsame => ?_
  have hlow := (h.sound v hv).low
  have hlow' := (h.sound v' hv').low
  unfold Span.Disjoint Span.stop V1Tag.span at hd
  dsimp only at hd
  omega

/-- The entries of the capsule behind the first hold the tags, in order. -/
theorem Converted.recordedAt (h : Converted m source policy output r n tags) {i : Nat} {v : V1Tag}
    (hv : tags[i]? = some v) (ev₀ : EntryView) :
    ∃ ev, (getEntry (some (viewOf (r.mem.based output) output n)) (i + 1) (some ev₀)).val r.mem =
        (.ok (), some ev) ∧ Recorded m v.ptr r.mem ev := by
  have hitem : (capsuleItems m source.info tags)[i + 1]? = some (v.item m) := by
    rw [capsuleItems, List.getElem?_cons_succ, List.getElem?_map, hv, Option.map_some]
  obtain ⟨ev, hev, hshows, _⟩ := h.encoding.getEntry h.encodable h.outputFits.1 hitem ev₀
  exact ⟨ev, hev, recorded_of_shows hshows (h.sound v (List.mem_of_getElem? hv)).size⟩

end Refine

/-- Whatever the bridge converts, the kernel delivers: the same tags, in
the same order, as many as INFO declares, each once. -/
theorem fromV1_refines_kernel (m : Mem) (k : Kctx) (policy workspace output capacity w₀ : Nat)
    (report : Option Report) (r : Forward)
    (hverify : k.verifyTagCrc = true) (hhint : k.hhdmOffset ≠ 0)
    (hr : fromV1 m (some ⟨k.info, some (kernelMap k)⟩) policy (some workspace) output capacity
      (some w₀) report = r)
    (hok : r.status = .ok ())
    (hapart : SourceApart ⟨k.info, some (kernelMap k)⟩ workspace r)
    (hwrap : ∀ t ∈ r.tags, t.1 + k.hhdmOffset + t.2.size < 2 ^ 64)
    (hwindow : k.walkLo < k.walkHi →
      ∀ t ∈ r.tags, k.walkLo ≤ t.1 ∧ t.1 + t.2.size ≤ k.walkHi) :
    (∀ out, out ≠ none →
      (initWin out k.info k.hhdmOffset k.walkLo k.walkHi).val m = (.ok, some k)) ∧
    Delivers k m (r.tags.map fun t => t.1 + k.hhdmOffset) ∧
    r.tags.length = infoTagCount m k.info ∧
    Path (fun p => tagNext m (p + k.hhdmOffset)) (infoFirstTag m k.info) (r.tags.map Prod.fst) 0 ∧
    (r.tags.map Prod.fst).Nodup ∧
    r.tags.Pairwise (fun t t' =>
      Span.Disjoint ⟨t.1, tagSize m (t.1 + k.hhdmOffset)⟩ ⟨t'.1, tagSize m (t'.1 + k.hhdmOffset)⟩) ∧
    ∃ n view, r.written = some n ∧
      (∀ out, (parse output n (some out)).val r.mem = (.ok (), some view)) ∧
      view.entryCount = r.tags.length + 1 ∧
      ∀ i t, r.tags[i]? = some t → ∀ ev₀, ∃ ev,
        (getEntry (some view) (i + 1) (some ev₀)).val r.mem = (.ok (), some ev) ∧
        Recorded m (t.1 + k.hhdmOffset) r.mem ev := by
  obtain ⟨n, tags, h⟩ := fromV1_converted hr hok hapart
  have hmem : ∀ v ∈ tags, (v.addr, v.entry m) ∈ r.tags := by
    intro v hv
    rw [h.recorded]
    exact List.mem_map_of_mem hv
  have hnowrap : ∀ v ∈ tags, v.addr + k.hhdmOffset + v.size < 2 ^ 64 :=
    fun v hv => hwrap _ (hmem v hv)
  have hptr : ∀ v ∈ tags, v.ptr = v.addr + k.hhdmOffset := by
    intro v hv
    have hlt := hnowrap v hv
    rw [h.chain.mapped v hv]
    exact virtOf_eq (h.sound v hv).nonzero (by omega)
  have hcount : tags.length ≤ maxTags := by
    rw [h.count]
    exact Nat.le_trans h.info.count (by decide)
  have hpresents := h.chain.linked.presents hcount h.sound hptr hnowrap
    fun hw v hv => hwindow hw _ (hmem v hv)
  have haddr : r.tags.map Prod.fst = tags.map V1Tag.addr := by
    rw [h.recorded, List.map_map]
    rfl
  have hvirt : (r.tags.map fun t => t.1 + k.hhdmOffset) =
      (tags.map V1Tag.addr).map (· + k.hhdmOffset) := by
    rw [h.recorded, List.map_map, List.map_map]
    rfl
  have hlength : r.tags.length = tags.length := by rw [h.recorded, List.length_map]
  refine ⟨?_, ?_, ?_, ?_, ?_, ?_, ?_⟩
  · intro out hout
    rw [initWin_val hout h.nonnull m _ _ _ h.info.ok]
    have hk : (⟨k.info, k.hhdmOffset, true, k.walkLo, k.walkHi⟩ : Kctx) = k := by rw [← hverify]
    rw [hk, laterOffset_of_hint m hhint, hk]
  · rw [hvirt]
    exact hpresents.delivers h.nonnull
  · rw [hlength]
    exact h.count
  · rw [haddr]
    exact hpresents.path
  · rw [haddr]
    exact h.distinct
  · rw [h.recorded, List.pairwise_map]
    refine h.apart.imp_of_mem fun {v v'} hv hv' hd => ?_
    dsimp only
    rw [← hptr v hv, ← hptr v' hv', (h.sound v hv).size, (h.sound v' hv').size]
    exact hd
  · have hwf := h.encoding.wellFormed h.encodable
    refine ⟨n, _, h.written, fun out => parse_val_ok h.outputFits.1 hwf, ?_, ?_⟩
    · change entryCount (r.mem.based output) = _
      rw [h.encoding.header.count, capsuleItems, List.length_cons, List.length_map, hlength]
    · intro i t ht ev₀
      rw [h.recorded, List.getElem?_map] at ht
      obtain ⟨v, hv, rfl⟩ := Option.map_eq_some_iff.mp ht
      dsimp only
      rw [← hptr v (List.mem_of_getElem? hv)]
      exact h.recordedAt hv ev₀

/-- A handoff behind the offset 0x10000: INFO at 0x1000, a kernel address
tag at 0x2100 and behind it an HHDM tag at 0x2000. -/
def sampleHandoff : Mem :=
  let info := [0x464e495f52414542, 0x4f, 0x9000010001] ++ List.replicate 11 0 ++
    [0x200000000, 0x2100, 0, 0x4a380bf31c4bd551]
  let kernelAddress := [0x0002000000000003, 0x100000030, 0x2000, 0x1bd46587b6b0d8f8, 0, 0]
  let hhdm := [0x0002000000000002, 0x100000028, 0, 0x7849f179029f180e, 0]
  ((Mem.zeros.putWords 0x11000 info).putWords 0x12100 kernelAddress).putWords 0x12000 hhdm

/-- A context over the sample, its window around the two tags. -/
def sampleKctx : Kctx := ⟨0x11000, 0x10000, true, 0x2000, 0x2200⟩

/-- The sample is converted into a capsule of 400 bytes. -/
theorem sampleHandoff_converted {r : Forward}
    (hr : fromV1 sampleHandoff (some ⟨0x11000, some (kernelMap sampleKctx)⟩) 0 (some 0x20000) 0x30000
      4096 (some 0) none = r) :
    r.status = .ok () ∧ r.written = some 400 ∧ r.tags =
      [(0x2100, ⟨0x0002000000000003, 2, 1, 8, 0x12100, 48⟩),
        (0x2000, ⟨0x0002000000000002, 2, 1, 8, 0x12000, 40⟩)] := by
  rw [← hr]
  decide +kernel

/-- And the kernel delivers the two tags. -/
theorem fromV1_refines_kernel_sample :
    (fromV1 sampleHandoff (some ⟨0x11000, some (kernelMap sampleKctx)⟩) 0 (some 0x20000) 0x30000
      4096 (some 0) none).status = .ok () ∧
    Delivers sampleKctx sampleHandoff [0x12100, 0x12000] := by
  obtain ⟨r, hr⟩ : ∃ r, fromV1 sampleHandoff (some ⟨0x11000, some (kernelMap sampleKctx)⟩) 0
    (some 0x20000) 0x30000 4096 (some 0) none = r := ⟨_, rfl⟩
  obtain ⟨hok, _, htags⟩ := sampleHandoff_converted hr
  have hall := fromV1_refines_kernel sampleHandoff sampleKctx 0 0x20000 0x30000 4096 0 none r rfl
    (by decide) hr hok ⟨by decide, by rw [htags]; decide⟩ (by rw [htags]; decide)
    (by rw [htags]; decide)
  have hdelivers := hall.2.1
  rw [htags] at hdelivers
  exact ⟨hr ▸ hok, hdelivers⟩

end BearBoot.Bridge
