import BearBoot.Bridge.Chain

/-!
# What the forward bridge converts

`bbp_v2_from_v1` walks a chain it does not trust through a map it does not
know. Here the walk is a list: `chain m map first n` are the `n` tags that
follow from `first`, each with the address it was found at, the size its
header declares and the pointer the map answered for that size.

- `walkTags_settles`: the walk gets through exactly when every tag of the
  chain is `Good`, no two of them overlap, and the last one ends it;
- `fromV1_inv` and `fromV1_run`: the bridge succeeds exactly on a source
  that is `Convertible` and whose entries the builder takes;
- `fromV1_converted`: what it then leaves in the output is the canonical
  capsule of `capsuleItems`: INFO and the tags, without their linkage.

The bridge stores the normalized INFO in the workspace before it walks, so
up to the last section the chain is the one of the memory after that
store. Where the workspace is apart from the source, as the header of the
bridge demands, that is the chain of the source.
-/

set_option autoImplicit false

namespace BearBoot.Bridge

open Machine V2 Kernel

variable {m₁ m₂ m : Mem} {n : Nat}

/-! ## The chain -/

/-- The tag at a physical address: the header is mapped for its size, and
then the tag. -/
def mappedTag (m : Mem) (map : Nat → Nat → Nat) (addr : Nat) : V1Tag :=
  ⟨addr, map addr (get32 m (map addr 32 + 8)), get32 m (map addr 32 + 8)⟩

/-- Where the tag at a physical address links to. -/
def follow (m : Mem) (map : Nat → Nat → Nat) (addr : Nat) : Nat :=
  tagNext m (mappedTag m map addr).ptr

/-- The `i`-th tag from `first` on. -/
def chainTag (m : Mem) (map : Nat → Nat → Nat) (first i : Nat) : V1Tag :=
  mappedTag m map ((follow m map)^[i] first)

def chain (m : Mem) (map : Nat → Nat → Nat) (first n : Nat) : List V1Tag :=
  (List.range n).map (chainTag m map first)

/-- The builder's entry for a tag. -/
def V1Tag.entry (m : Mem) (v : V1Tag) : BuildEntry where
  type := UInt64.ofNat (tagId m v.ptr)
  flags := if v.external m then 3 else 2
  version := UInt16.ofNat (tagVersion m v.ptr)
  alignment := 8
  data := v.ptr
  size := v.size

/-- A tag the bridge takes, as the walk sees it: the header mapped on its
own. -/
structure V1Tag.Good (m : Mem) (map : Nat → Nat → Nat) (policy : Nat) (v : V1Tag) : Prop
    extends v.Sound m policy where
  mapped : map v.addr 32 ≠ 0
  header : m.bytes v.ptr 32 = m.bytes (map v.addr 32) 32

/-- The chain from `first` has exactly `n` tags, all good and no two of
them overlapping. -/
structure ChainOk (m : Mem) (map : Nat → Nat → Nat) (policy first n : Nat) : Prop where
  good : ∀ i < n, (chainTag m map first i).Good m map policy
  apart : ∀ i < n, ∀ j < i, (chainTag m map first j).span.Disjoint (chainTag m map first i).span
  ends : (follow m map)^[n] first = 0

section Walk

variable {m : Mem} {map : Nat → Nat → Nat} {policy : Nat}

/-- The size is read from a copy of the header. -/
theorem get32_header (m : Mem) (p : Nat) :
    get32 (Mem.ofList (m.bytes p 32)) 8 = get32 m (p + 8) := by
  refine Mem.getLE_congr fun i hi => ?_
  rw [Mem.ofList_bytes (by omega), Nat.add_assoc]

/-- One turn: the tag at the cursor is good, new, and apart from the ones
before it; and then it is recorded. -/
theorem walkTag_settles (st : Walk) :
    Settles (fun _ => False) (walkTag m map policy st)
      ((mappedTag m map st.current).Good m map policy ∧ st.current ∉ st.visited ∧
        ∀ prior ∈ st.visited.zip st.entries.tail,
          Span.Disjoint ⟨prior.1, prior.2.size⟩ (mappedTag m map st.current).span)
      fun st' => st'.current = follow m map st.current ∧
        st'.visited = st.visited ++ [st.current] ∧
        st'.entries = st.entries ++ [(mappedTag m map st.current).entry m] := by
  obtain ⟨v, hv⟩ : ∃ v, mappedTag m map st.current = v := ⟨_, rfl⟩
  have haddr : st.current = v.addr := congrArg V1Tag.addr hv
  have hsize : get32 m (map st.current 32 + 8) = v.size := congrArg V1Tag.size hv
  have hptr : map v.addr v.size = v.ptr := by
    rw [← haddr, ← hsize]
    exact congrArg V1Tag.ptr hv
  unfold follow walkTag
  dsimp only
  rw [hv, get32_header, hsize, haddr, hptr]
  refine .test not_false ?_ (fun h => And.intro h.1.nonzero (And.intro h.1.aligned
    (Nat.le_trans (Nat.add_le_add_left h.1.low _) h.1.below))) fun hfirst => ?_
  · rw [not_or, not_or, not_or, ne_eq, not_not, and_seven_eq_zero]
    unfold v1MaxPhys
    omega
  refine .test not_false Iff.rfl (·.2.1) fun hnew => ?_
  refine .test not_false Iff.rfl (·.1.mapped) fun hmap => ?_
  refine .test not_false ?_ (fun h => And.intro h.1.low h.1.high) fun hbounds => ?_
  · rw [not_or]
    omega
  refine .test not_false ?_ (·.1.below) fun hbelow => ?_
  · unfold v1MaxPhys at hfirst ⊢
    omega
  refine .test not_false ?_ (·.2.2) fun hpriors => ?_
  · rw [not_exists]
    exact forall_congr' fun prior => not_and.trans (imp_congr_right fun _ =>
      (not_congr and_comm).trans not_overlap_iff)
  refine .test not_false (P := v.ptr ≠ 0 ∧ m.bytes v.ptr 32 = m.bytes (map v.addr 32) 32 ∧
    crcSpliced m v.ptr v.size 24 = tagChecksum m v.ptr) ?_
    (fun h => ⟨h.1.ptr, h.1.header, h.1.size ▸ h.1.crc⟩) fun ⟨hp, hheader, hcrc⟩ => ?_
  · rw [not_or, not_or, ne_eq, not_not, ne_eq, not_not, crcSkip_eq hbounds.1]
    rfl
  refine .test not_false Iff.rfl (·.1.known) fun hknown => ?_
  refine .test not_false ?_ (·.1.allowed) fun hallowed => ?_
  · unfold V1Tag.external
    rw [decide_eq_true_iff, not_and]
  -- the header the size was read from is the tag's own
  have hown : tagSize m v.ptr = v.size := by
    rw [tagSize, ← get32_header, hheader, get32_header, ← haddr, hsize]
  have hcrc : CrcOk m v.ptr := by rw [CrcOk, hown]; exact hcrc
  refine .answer ⟨⟨⟨hfirst.1, hfirst.2.1, hbounds.1, hbounds.2, hbelow, hp, hown, hcrc, hknown, hallowed⟩,
    hmap, hheader⟩, hnew, hpriors⟩ ⟨rfl, rfl, ?_⟩
  unfold V1Tag.entry V1Tag.external
  simp only [decide_eq_true_iff]
  rfl

theorem chain_succ (m : Mem) (map : Nat → Nat → Nat) (first n : Nat) :
    chain m map first (n + 1) = chain m map first n ++ [chainTag m map first n] := by
  rw [chain, List.range_succ, List.map_append]
  rfl

/-- The loop gets through exactly when every tag of the chain is good and
apart from the ones before it. -/
theorem walkLoop_settles (first n : Nat) (info : BuildEntry) (externalCount : Nat) :
    Settles (fun _ => False)
      (forUpTo (fun _ => walkTag m map policy) n ⟨first, [], [info], externalCount⟩)
      (∀ i < n, (chainTag m map first i).Good m map policy ∧
        ∀ j < i, (chainTag m map first j).span.Disjoint (chainTag m map first i).span)
      fun st => st.current = (follow m map)^[n] first ∧
        st.visited = (chain m map first n).map V1Tag.addr ∧
        st.entries = info :: (chain m map first n).map (V1Tag.entry m) := by
  refine .forUpTo _ (fun i (st : Walk) => st.current = (follow m map)^[i] first ∧
    st.visited = (chain m map first i).map V1Tag.addr ∧
    st.entries = info :: (chain m map first i).map (V1Tag.entry m)) ⟨rfl, rfl, rfl⟩ ?_
  rintro i hi hprev st ⟨hcurrent, hvisited, hentries⟩
  have hstep : Settles _ (walkTag m map policy st) _ _ := walkTag_settles st
  have htag : mappedTag m map st.current = chainTag m map first i := by rw [hcurrent]; rfl
  have hpriors : st.visited.zip st.entries.tail =
      (chain m map first i).map fun v => (v.addr, v.entry m) := by
    rw [hvisited, hentries]
    exact List.zip_map'
  rw [htag, hpriors] at hstep
  refine .mono (.congr ?_ hstep) ?_
  · constructor
    · rintro ⟨hgood, _, hapart⟩
      refine ⟨hgood, fun j hj => ?_⟩
      exact hapart _ (List.mem_map_of_mem (List.mem_map_of_mem (List.mem_range.mpr hj)))
    · rintro ⟨hgood, hapart⟩
      refine ⟨hgood, fun hmem => ?_, fun prior hprior => ?_⟩
      · -- a tag found again would overlap itself
        rw [hvisited, chain, List.map_map] at hmem
        obtain ⟨j, hj, hsame⟩ := List.mem_map.mp hmem
        have hj := List.mem_range.mp hj
        have hlow := hgood.low
        have hlow' := (hprev j hj).1.low
        have hdisj := hapart j hj
        have haddr : (chainTag m map first i).addr = st.current := by rw [← htag]; rfl
        change (chainTag m map first j).addr = st.current at hsame
        unfold Span.Disjoint Span.stop V1Tag.span at hdisj
        dsimp only at hdisj
        omega
      · obtain ⟨v, hv, rfl⟩ := List.mem_map.mp hprior
        obtain ⟨j, hj, rfl⟩ := List.mem_map.mp hv
        exact hapart j (List.mem_range.mp hj)
  · rintro _ st' ⟨hcurrent', hvisited', hentries'⟩
    refine ⟨?_, ?_, ?_⟩
    · rw [hcurrent', hcurrent, Function.iterate_succ_apply']
    · rw [hvisited', hvisited, hcurrent, chain_succ, List.map_append]
      rfl
    · rw [hentries', hentries, chain_succ, List.map_append, List.cons_append]
      rfl

/-- And the whole collection when the chain then ends. -/
theorem walkTags_settles (source : Source) (workspace tagCount first : Nat)
    (hmap : source.map.getD (fun _ _ => 0) = map) :
    Settles (fun _ => False) (walkTags m source policy workspace tagCount first)
      ((get64 m (source.info + 128) ≠ 0 → policy &&& allowExternalPhys ≠ 0) ∧
        ChainOk m map policy first tagCount)
      fun st => st.visited = (chain m map first tagCount).map V1Tag.addr ∧
        st.entries = infoEntry workspace (get64 m (source.info + 128) != 0) ::
          (chain m map first tagCount).map (V1Tag.entry m) := by
  unfold walkTags
  rw [hmap]
  refine .test not_false ?_ (·.1) fun hcontext => ?_
  · rw [bne_iff_ne, not_and]
  refine .step (walkLoop_settles first tagCount _ _) (fun h i hi => ⟨h.2.good i hi, h.2.apart i hi⟩) ?_
  rintro htags st ⟨hcurrent, hvisited, hentries⟩
  refine .test not_false ?_ (·.2.ends) fun hends => ?_
  · rw [not_not, hcurrent]
  exact .answer ⟨hcontext, fun i hi => (htags i hi).1, fun i hi => (htags i hi).2, hends⟩ ⟨hvisited, hentries⟩

end Walk

/-! ## The bridge -/

/-- What the bridge demands of INFO. -/
structure InfoGood (m : Mem) (source : Source) : Prop where
  ok : InfoOk m source.info
  minor : get16 m (source.info + 18) = 1
  count : infoTagCount m source.info ≤ 1023
  linked : infoTagCount m source.info = 0 ↔ infoFirstTag m source.info = 0
  first : infoFirstTag m source.info ≠ 0 →
    8 ∣ infoFirstTag m source.info ∧ source.map.isNone = false

theorem checkInfo_settles (m : Mem) (source : Source) :
    Settles (fun _ => False) (checkInfo m source) (InfoGood m source) fun _ => True := by
  unfold checkInfo
  refine .test not_false (by simp only [not_or, not_not, ne_eq]) (fun h => And.intro h.ok.magic
    (And.intro h.ok.major h.minor)) fun hmagic => ?_
  refine .test not_false ?_ (fun h => And.intro h.ok.sizeLow (And.intro h.ok.sizeHigh h.ok.crc))
    fun hsize => ?_
  · rw [not_or, not_or, ne_eq, not_not, not_lt, not_lt, crcSkip_eq (by decide), eq_comm]
    rfl
  refine .test not_false not_lt (·.count) fun hcount => ?_
  refine .congr ⟨fun h => ⟨⟨hmagic.1, hmagic.2.1, hsize.1, hsize.2.1, hsize.2.2⟩, hmagic.2.2, hcount, h.1, h.2⟩,
    fun h => And.intro h.linked h.first⟩ (.refuse not_false ?_)
  rw [not_or, ne_eq, not_not, decide_eq_decide, not_and, not_or, ne_eq, not_not,
    and_seven_eq_zero, Bool.not_eq_true]

/-- The map a source walks with. -/
def Source.mapped (source : Source) : Nat → Nat → Nat := source.map.getD fun _ _ => 0

/-- The tags the bridge sees, in a memory that holds the normalized INFO. -/
def Source.tags (source : Source) (m m₁ : Mem) : List V1Tag :=
  chain m₁ source.mapped (infoFirstTag m source.info) (infoTagCount m source.info)

/-- A source that passes every check before the build; `m₁` is the memory
with the normalized INFO. -/
structure Convertible (m m₁ : Mem) (source : Source) (policy : Nat) : Prop where
  nonnull : source.info ≠ 0
  info : InfoGood m source
  context : get64 m₁ (source.info + 128) ≠ 0 → policy &&& allowExternalPhys ≠ 0
  chain : ChainOk m₁ source.mapped policy (infoFirstTag m source.info) (infoTagCount m source.info)

/-- The builder's entries for a source. -/
def Source.entries (source : Source) (m m₁ : Mem) (workspace : Nat) : List BuildEntry :=
  infoEntry workspace (get64 m₁ (source.info + 128) != 0) ::
    (source.tags m m₁).map (V1Tag.entry m₁)

section Bridge

variable {m : Mem} {source : Source} {policy workspace output capacity w₀ : Nat}
  {report : Option Report}

/-- What a success means. -/
theorem fromV1_inv {r : Forward}
    (hr : fromV1 m (some source) policy (some workspace) output capacity (some w₀) report = r)
    (hok : r.status = .ok ()) :
    ∃ m₁ w m₂, m₁ = normalizeInfo m workspace source.info ∧ Convertible m m₁ source policy ∧
      build m₁ output capacity (some (source.entries m m₁ workspace)) (some 0) =
        (.ok (), some w, m₂) ∧
      r.written = some w ∧ r.visited = (source.tags m m₁).map V1Tag.addr ∧
      r.entries = source.entries m m₁ workspace ∧
      r.mem = normalizeCapsule m₂ output w (infoTagCount m source.info) := by
  subst hr
  unfold fromV1 at hok ⊢
  dsimp only at hok ⊢
  split at hok
  next => cases hok
  next hnull =>
    rw [if_neg hnull]
    have hinfo := checkInfo_settles m source
    cases hcheck : checkInfo m source with
    | error e => rw [hcheck] at hok; cases hok
    | ok u =>
      rw [hcheck] at hok hinfo
      dsimp only at hok ⊢
      obtain ⟨m₁, hm₁⟩ : ∃ m₁, normalizeInfo m workspace source.info = m₁ := ⟨_, rfl⟩
      rw [hm₁] at hok ⊢
      have hwalk : Settles _ (walkTags m₁ source policy workspace (infoTagCount m source.info)
        (infoFirstTag m source.info)) _ _ := walkTags_settles source _ _ _ rfl
      cases htags : walkTags m₁ source policy workspace (infoTagCount m source.info)
          (infoFirstTag m source.info) with
      | error e => rw [htags] at hok; cases hok
      | ok st =>
        rw [htags] at hok hwalk
        obtain ⟨⟨hcontext, hchain⟩, hvisited, hentries⟩ := hwalk
        dsimp only at hok ⊢
        rw [hentries] at hok ⊢
        cases hbuild : build m₁ output capacity (some (source.entries m m₁ workspace)) (some 0) with
        | mk status rest =>
          obtain ⟨built, m₂⟩ := rest
          unfold Source.entries Source.tags Source.mapped at hbuild
          rw [hbuild] at hok ⊢
          cases status with
          | error e => cases hok
          | ok u =>
            obtain ⟨_, _, _, hw, _⟩ := build_ok_iff.mp hbuild
            subst hw
            exact ⟨m₁, _, m₂, rfl, ⟨(not_or.mp hnull).1, hinfo.1, hcontext, hchain⟩, hbuild, rfl,
              hvisited, rfl, rfl⟩

/-- And what it takes. -/
theorem fromV1_run (w₀ : Nat) (report : Option Report) {w : Nat}
    (h : Convertible m m₁ source policy) (hm₁ : m₁ = normalizeInfo m workspace source.info)
    (hbuild : build m₁ output capacity (some (source.entries m m₁ workspace)) (some 0) =
      (.ok (), some w, m₂)) :
    ∃ r, fromV1 m (some source) policy (some workspace) output capacity (some w₀) report = r ∧
      r.status = .ok () ∧ r.written = some w ∧
      r.mem = normalizeCapsule m₂ output w (infoTagCount m source.info) := by
  subst hm₁
  have hnull : ¬ (source.info = 0 ∨ output = 0) := not_or.mpr ⟨h.nonnull, (build_ok_iff.mp hbuild).1⟩
  obtain ⟨u, hcheck⟩ := (checkInfo_settles m source).ok_iff.mpr h.info
  have hwalk : Settles _ (walkTags (normalizeInfo m workspace source.info) source policy workspace
    (infoTagCount m source.info) (infoFirstTag m source.info)) _ _ := walkTags_settles source _ _ _ rfl
  obtain ⟨st, htags⟩ := hwalk.ok_iff.mpr ⟨h.context, h.chain⟩
  obtain ⟨_, hentries⟩ := hwalk.post htags
  have hentries : st.entries = source.entries m _ workspace := hentries
  refine ⟨_, rfl, ?_⟩
  unfold fromV1
  dsimp only
  rw [if_neg hnull, hcheck]
  dsimp only
  rw [htags]
  dsimp only
  rw [hentries, hbuild]
  exact ⟨rfl, rfl, rfl⟩

end Bridge

/-! ## The normalization -/

/-- An item with its linkage zeroed. -/
def unlinkItem (it : Item) : Item :=
  { it with data := unlinked (Mem.ofList it.data) 0 it.data.length }

/-- The items with the first `k` tags normalized. -/
def partlyUnlinked (first : Item) (tags : List Item) (k : Nat) : List Item :=
  first :: tags.mapIdx fun j it => if j < k then unlinkItem it else it

section Normalization

variable {output n : Nat} {first : Item} {tags : List Item}

theorem unlinkItem_shape (it : Item) : (unlinkItem it).shape = it.shape := by
  rw [Item.shape, Item.shape, unlinkItem, unlinked_length]

theorem partlyUnlinked_shape (first : Item) (tags : List Item) (k : Nat) :
    (partlyUnlinked first tags k).map Item.shape = (first :: tags).map Item.shape := by
  rw [partlyUnlinked, List.map_cons, List.map_cons]
  refine congrArg _ (List.ext_getElem? fun j => ?_)
  rw [List.getElem?_map, List.getElem?_mapIdx, List.getElem?_map, Option.map_map]
  refine congrFun (congrArg Option.map (funext fun it => ?_)) _
  rw [Function.comp]
  split
  · exact unlinkItem_shape it
  · rfl

theorem partlyUnlinked_succ (first : Item) (tags : List Item) (k j : Nat) (h : j ≠ k + 1) :
    (partlyUnlinked first tags (k + 1))[j]? = (partlyUnlinked first tags k)[j]? := by
  cases j with
  | zero => rfl
  | succ j =>
    rw [partlyUnlinked, partlyUnlinked, List.getElem?_cons_succ, List.getElem?_cons_succ,
      List.getElem?_mapIdx, List.getElem?_mapIdx]
    have hiff : j < k + 1 ↔ j < k := by omega
    simp only [hiff]

theorem put64_zero {p i : Nat} (hi : i < 8) : put64 m p 0 (p + i) = 0 :=
  Mem.getLE_eq_zero_iff.mp (Mem.getLE_putLE (by decide)) i hi

/-- The two stores that zero a tag's linkage. -/
theorem unlink_bytes {tag size : Nat} :
    (put64 (put64 m (tag + 16) 0) (tag + 24) 0).bytes tag size = unlinked m tag size := by
  refine List.map_congr_left fun i _ => ?_
  split
  next hin =>
    by_cases h24 : 24 ≤ i
    · rw [show tag + i = tag + 24 + (i - 24) by omega]
      exact put64_zero (by omega)
    · rw [put64, Mem.putLE_frame (by omega), show tag + i = tag + 16 + (i - 16) by omega]
      exact put64_zero (by omega)
  next hout => rw [put64, Mem.putLE_frame (by omega), put64, Mem.putLE_frame (by omega)]

/-- One turn: the `k`-th tag's linkage is zeroed in place. -/
theorem normalizeTag_laid {k : Nat} (hk : k < tags.length)
    (hok : ∀ it ∈ first :: tags, it.Ok) (hlong : ∀ it ∈ tags, 32 ≤ it.data.length)
    (h : Laid (m.based output) n (partlyUnlinked first tags k)) :
    Laid ((normalizeTag output m k).based output) n (partlyUnlinked first tags (k + 1)) ∧
      ∀ a, a < output ∨ output + n ≤ a → normalizeTag output m k a = m a := by
  have hok' := ok_of_shape (partlyUnlinked_shape first tags k) hok
  have hlength : (partlyUnlinked first tags k).length = tags.length + 1 := by
    rw [partlyUnlinked, List.length_cons, List.length_mapIdx]
  obtain ⟨s, hs, hitem⟩ := exists_slot_of_lt (show k + 1 < (partlyUnlinked first tags k).length by omega)
    (bodyStart (partlyUnlinked first tags k))
  have htag : tags[k]? = some s.item := by
    rw [partlyUnlinked, List.getElem?_cons_succ, List.getElem?_mapIdx] at hitem
    simpa only [Nat.lt_irrefl, if_false, Option.map_id'] using hitem
  have hlen := hlong _ (List.mem_of_getElem? htag)
  obtain ⟨_, hstart, _, hstop⟩ := slot_bounds hok' (List.mem_of_getElem? hs)
  rw [← h.size] at hstop
  change s.offset + s.item.data.length ≤ n at hstop
  unfold bodyStart at hstart
  rw [hlength] at hstart
  -- the turn reads the slot's place from the directory
  have hdirent := h.dirent_eq hs
  rw [h.dirent_at] at hdirent
  have hoffset : get64 m (output + 64 + (k + 1) * 48 + 16) = s.offset := by
    rw [Nat.add_assoc, Nat.add_assoc, get64_based, ← Nat.add_assoc]
    exact congrArg Dirent.offset hdirent
  have hsize : get64 m (output + 64 + (k + 1) * 48 + 24) = s.item.data.length := by
    rw [Nat.add_assoc, Nat.add_assoc, get64_based, ← Nat.add_assoc]
    exact congrArg Dirent.size hdirent
  obtain ⟨mid, hmid⟩ : ∃ mid, put64 (put64 m (output + s.offset + 16) 0) (output + s.offset + 24) 0 =
    mid := ⟨_, rfl⟩
  have hstep : normalizeTag output m k = put64 mid (output + 64 + (k + 1) * 48 + 32)
      (crc64 (mid.bytes (output + s.offset) s.item.data.length)) := by
    rw [normalizeTag, hoffset, hsize, ← hmid]
  have hframe : ∀ a, ¬ (output + s.offset ≤ a ∧ a < output + s.offset + s.item.data.length) →
      ¬ (output + 64 + (k + 1) * 48 + 32 ≤ a ∧ a < output + 64 + (k + 1) * 48 + 40) →
      normalizeTag output m k a = m a := by
    intro a hspan hsum
    rw [hstep, ← hmid]
    simp (disch := omega) only [put64, Mem.putLE_frame]
  have hbytes : (normalizeTag output m k).bytes (output + s.offset) s.item.data.length =
      mid.bytes (output + s.offset) s.item.data.length := by
    refine Mem.bytes_congr fun i hi => ?_
    rw [hstep, put64, Mem.putLE_frame (by omega)]
  have hdata : mid.bytes (output + s.offset) s.item.data.length = (unlinkItem s.item).data := by
    rw [← hmid, unlink_bytes]
    refine (unlinked_congr fun i hi _ => ?_).symm
    have hpayload := h.payloads s (List.mem_of_getElem? hs)
    rw [Mem.bytes_based] at hpayload
    rw [Nat.zero_add, ← Mem.ofList_bytes (m := m) (a := output + s.offset) hi, hpayload]
  refine ⟨?_, fun a ha => hframe a (by omega) (by omega)⟩
  refine h.replace hok' hs ?_ (partlyUnlinked_succ first tags k) ?_ ?_
    ((Mem.bytes_based _ _ _ _).trans (hbytes.trans hdata)) ?_
  · rw [partlyUnlinked_shape, partlyUnlinked_shape]
  · rw [partlyUnlinked, List.getElem?_cons_succ, List.getElem?_mapIdx, htag, Option.map_some,
      if_pos (Nat.lt_succ_self k)]
    rfl
  · intro x hspan hsum
    refine hframe _ (fun hin => hspan ?_) (by omega)
    change s.offset ≤ x ∧ x < s.offset + s.item.data.length
    omega
  · rw [← hdata, ← get64_based, hstep, ← Nat.add_assoc, ← Nat.add_assoc, get64, put64]
    exact Mem.getLE_putLE (crc64_lt _)

/-- The whole loop. -/
theorem normalizeTags_laid {k : Nat} (hk : k ≤ tags.length)
    (hok : ∀ it ∈ first :: tags, it.Ok) (hlong : ∀ it ∈ tags, 32 ≤ it.data.length)
    (h : Laid (m.based output) n (first :: tags)) :
    Laid (((List.range k).foldl (normalizeTag output) m).based output) n
        (partlyUnlinked first tags k) ∧
      ∀ a, a < output ∨ output + n ≤ a → (List.range k).foldl (normalizeTag output) m a = m a := by
  induction k with
  | zero =>
    refine ⟨?_, fun _ _ => rfl⟩
    have hnone : partlyUnlinked first tags 0 = first :: tags := by
      refine congrArg _ (List.ext_getElem? fun j => ?_)
      rw [List.getElem?_mapIdx]
      simp only [Nat.not_lt_zero, if_false, Option.map_id']
    rw [hnone]
    exact h
  | succ k ih =>
    obtain ⟨hlaid, hframe⟩ := ih (Nat.le_of_succ_le hk)
    obtain ⟨hlaid', hframe'⟩ := normalizeTag_laid hk hok hlong hlaid
    rw [List.range_succ, List.foldl_append]
    exact ⟨hlaid', fun a ha => (hframe' a ha).trans (hframe a ha)⟩

/-- Normalizing and resealing a capsule of INFO and tags. -/
theorem normalizeCapsule_isEncoding (hok : ∀ it ∈ first :: tags, it.Ok)
    (hlong : ∀ it ∈ tags, 32 ≤ it.data.length) (h : IsEncoding (m.based output) n (first :: tags)) :
    IsEncoding ((normalizeCapsule m output n tags.length).based output) n
        (first :: tags.map unlinkItem) ∧
      ∀ a, a < output ∨ output + n ≤ a → normalizeCapsule m output n tags.length a = m a := by
  have hall : partlyUnlinked first tags tags.length = first :: tags.map unlinkItem := by
    refine congrArg _ (List.ext_getElem? fun j => ?_)
    rw [List.getElem?_mapIdx, List.getElem?_map]
    by_cases hj : j < tags.length
    · simp only [hj, if_true]
    · rw [List.getElem?_eq_none (Nat.le_of_not_lt hj)]
      rfl
  have hlow : 64 ≤ n := by
    rw [h.size]
    exact Nat.le_trans (Nat.le_add_right _ _) (le_finish hok)
  obtain ⟨hlaid, hframe⟩ := normalizeTags_laid (Nat.le_refl _) hok hlong h.toLaid
  have hshape := partlyUnlinked_shape first tags tags.length
  rw [hall] at hlaid hshape
  unfold normalizeCapsule
  dsimp only
  obtain ⟨m₁, hm₁⟩ : ∃ m₁, put64 ((List.range tags.length).foldl (normalizeTag output) m)
    (output + 40) 0 = m₁ := ⟨_, rfl⟩
  have hkeep : ∀ a, a < output + 40 ∨ output + 48 ≤ a →
      put64 m₁ (output + 40) (crcSkip m₁ output n 40) a =
        (List.range tags.length).foldl (normalizeTag output) m a := by
    intro a ha
    rw [← hm₁]
    simp (disch := omega) only [put64, Mem.putLE_frame]
  rw [hm₁]
  refine ⟨⟨hlaid.congr (ok_of_shape hshape hok) fun x hx hni => hkeep _ (by omega), ?_⟩, ?_⟩
  · rw [crcSpliced_based, Nat.add_zero output, ← get64_based, put64_crcSkip (by omega)]
  · intro a ha
    rw [hkeep a (by omega), hframe a ha]

end Normalization

/-! ## What is converted -/

/-- The item of INFO. -/
def infoItem (m : Mem) (info : Nat) : Item :=
  ⟨entryV1Info, if get64 m (info + 128) ≠ 0 then efExternalPhys else 0, 1, 8, infoPayload m info⟩

/-- The item of a tag. -/
def V1Tag.item (m : Mem) (v : V1Tag) : Item :=
  ⟨tagId m v.ptr, if v.external m then 3 else 2, tagVersion m v.ptr, 8, unlinked m v.ptr v.size⟩

/-- The items of a handoff. -/
def capsuleItems (m : Mem) (info : Nat) (tags : List V1Tag) : List Item :=
  infoItem m info :: tags.map (V1Tag.item m)

/-- The source stands apart from the payload in the workspace: INFO, and
the span the map answered for each tag. -/
structure SourceApart (source : Source) (workspace : Nat) (r : Forward) : Prop where
  info : source.info + 144 ≤ workspace ∨ workspace + 104 ≤ source.info
  tags : ∀ t ∈ r.tags, t.2.data + t.2.size ≤ workspace ∨ workspace + 104 ≤ t.2.data

/-- What a successful conversion has found and written. -/
structure Converted (m : Mem) (source : Source) (policy output : Nat) (r : Forward) (n : Nat)
    (tags : List V1Tag) : Prop where
  nonnull : source.info ≠ 0
  info : InfoGood m source
  context : get64 m (source.info + 128) ≠ 0 → policy &&& allowExternalPhys ≠ 0
  chain : IsChain m source.mapped (infoFirstTag m source.info) tags
  count : tags.length = infoTagCount m source.info
  sound : ∀ v ∈ tags, v.Sound m policy
  apart : tags.Pairwise fun v v' => v.span.Disjoint v'.span
  recorded : r.tags = tags.map fun v => (v.addr, v.entry m)
  written : r.written = some n
  outputFits : output ≠ 0 ∧ output + n < 2 ^ 64
  encoding : IsEncoding (r.mem.based output) n (capsuleItems m source.info tags)
  encodable : Encodable (capsuleItems m source.info tags)

section Congr

variable {m m' : Mem} {v v' : V1Tag}

theorem V1Tag.Same.item (h : v.Same m m' v') (hlow : 32 ≤ v.size) : v'.item m' = v.item m := by
  unfold V1Tag.item
  rw [h.id hlow, h.version hlow, h.external hlow, h.size, unlinked_congr h.bytes]

theorem V1Tag.entry_congr (hlow : 32 ≤ v.size) (h : ∀ k < v.size, m' (v.ptr + k) = m (v.ptr + k)) :
    v.entry m' = v.entry m := by
  have hsame : v.Same m m' v := ⟨rfl, fun k hk _ => h k hk⟩
  unfold V1Tag.entry
  rw [hsame.id hlow, hsame.version hlow, hsame.external hlow]

end Congr

/-- Following the links is being linked, when the last one is null. -/
theorem linked_chain {map : Nat → Nat → Nat} {first : Nat}
    (hends : (follow m map)^[n] first = 0) : Linked m first (chain m map first n) := by
  induction n generalizing first with
  | zero => exact hends
  | succ n ih =>
    rw [chain, List.range_succ_eq_map, List.map_cons, List.map_map]
    exact ⟨rfl, ih hends⟩

/-- And the tags of a linked list that the map shows are the chain. -/
theorem chain_of_linked {map : Nat → Nat → Nat} {first : Nat} {tags : List V1Tag}
    (h : Linked m first tags) (hmap : ∀ v ∈ tags, mappedTag m map v.addr = v) :
    chain m map first tags.length = tags ∧ (follow m map)^[tags.length] first = 0 := by
  induction tags generalizing first with
  | nil => exact ⟨rfl, h⟩
  | cons v vs ih =>
    obtain ⟨rfl, hrest⟩ := h
    have hv := hmap v List.mem_cons_self
    have hfollow : follow m map v.addr = tagNext m v.ptr := by rw [follow, hv]
    rw [← hfollow] at hrest
    obtain ⟨hchain, hends⟩ := ih hrest fun w hw => hmap w (List.mem_cons_of_mem _ hw)
    refine ⟨?_, hends⟩
    rw [chain, List.length_cons, List.range_succ_eq_map, List.map_cons, List.map_map]
    exact congrArg₂ List.cons hv hchain

/-- The builder's item for a tag, normalized. -/
theorem unlinkItem_entry (v : V1Tag) : unlinkItem ((v.entry m).item m) = v.item m := by
  have hid : (UInt64.ofNat (tagId m v.ptr)).toNat = tagId m v.ptr :=
    UInt64.toNat_ofNat_of_lt' (get64_lt m v.ptr)
  have hversion : (UInt16.ofNat (tagVersion m v.ptr)).toNat = tagVersion m v.ptr :=
    UInt16.toNat_ofNat_of_lt' (get16_lt m (v.ptr + 12))
  have hflags : (if v.external m then (3 : UInt32) else 2).toNat =
      if v.external m then 3 else 2 := by
    split
    · rfl
    · rfl
  unfold unlinkItem BuildEntry.item V1Tag.entry V1Tag.item
  dsimp only
  rw [hid, hversion, hflags, Mem.bytes_length]
  refine congrArg _ (unlinked_congr fun k hk _ => ?_)
  rw [Nat.zero_add, Mem.ofList_bytes hk]

/-- The builder's item for the normalized INFO. -/
theorem infoEntry_item {workspace info : Nat}
    (hdisj : info + 144 ≤ workspace ∨ workspace + 104 ≤ info) :
    (infoEntry workspace (get64 (normalizeInfo m workspace info) (info + 128) != 0)).item
      (normalizeInfo m workspace info) = infoItem m info := by
  have hcontext : get64 (normalizeInfo m workspace info) (info + 128) = get64 m (info + 128) :=
    Mem.getLE_congr fun i hi => normalizeInfo_frame (by omega)
  unfold BuildEntry.item infoEntry infoItem
  dsimp only
  rw [hcontext, normalizeInfo_payload hdisj]
  by_cases h : get64 m (info + 128) = 0
  · rw [h]
    rfl
  · rw [if_pos h, if_pos (bne_iff_ne.mpr h)]
    rfl

theorem unlinkItems_shape (first : Item) (tags : List Item) :
    (first :: tags.map unlinkItem).map Item.shape = (first :: tags).map Item.shape := by
  rw [List.map_cons, List.map_cons, List.map_map]
  exact congrArg _ (List.map_congr_left fun it _ => unlinkItem_shape it)

section Converted

variable {m : Mem} {source : Source} {policy workspace output capacity w₀ : Nat}
  {report : Option Report} {r : Forward}

/-- The items the builder reads for the tags of a source. -/
def Source.tagItems (source : Source) (m m₁ : Mem) : List Item :=
  ((source.tags m m₁).map (V1Tag.entry m₁)).map (BuildEntry.item m₁)

theorem Source.tagItems_length (m₁ : Mem) :
    (source.tagItems m m₁).length = infoTagCount m source.info := by
  rw [tagItems, List.length_map, List.length_map, Source.tags, chain, List.length_map,
    List.length_range]

theorem Convertible.tagItems_long (h : Convertible m m₁ source policy) :
    ∀ it ∈ source.tagItems m m₁, 32 ≤ it.data.length := by
  intro it hit
  obtain ⟨e, he, rfl⟩ := List.mem_map.mp hit
  obtain ⟨v, hv, rfl⟩ := List.mem_map.mp he
  obtain ⟨i, hi, rfl⟩ := List.mem_map.mp hv
  have hlow := (h.chain.good i (List.mem_range.mp hi)).low
  rwa [BuildEntry.item, Mem.bytes_length]

/-- Normalizing what was built stays inside what was built. -/
theorem normalizeBuilt_frame (hconv : Convertible m m₁ source policy)
    (hbuild : build m₁ output capacity (some (source.entries m m₁ workspace)) (some 0) =
      (.ok (), some n, m₂)) {a : Nat} (ha : a < output ∨ output + n ≤ a) :
    normalizeCapsule m₂ output n (infoTagCount m source.info) a = m₁ a := by
  obtain ⟨hencoding, hframe, hencodable⟩ := build_isEncoding hbuild
  rw [Source.entries, List.map_cons] at hencoding hencodable
  rw [← hframe a ha, ← source.tagItems_length m₁]
  exact (normalizeCapsule_isEncoding hencodable.ok hconv.tagItems_long hencoding).2 a ha

/-- The capsule of a convertible source, built, normalized and resealed. -/
theorem normalizeBuilt_isEncoding (hconv : Convertible m m₁ source policy)
    (hm₁ : m₁ = normalizeInfo m workspace source.info)
    (hdisj : source.info + 144 ≤ workspace ∨ workspace + 104 ≤ source.info)
    (hbuild : build m₁ output capacity (some (source.entries m m₁ workspace)) (some 0) =
      (.ok (), some n, m₂)) :
    IsEncoding ((normalizeCapsule m₂ output n (infoTagCount m source.info)).based output) n
        (infoItem m source.info :: (source.tags m m₁).map (V1Tag.item m₁)) ∧
      Encodable (infoItem m source.info :: (source.tags m m₁).map (V1Tag.item m₁)) := by
  obtain ⟨hencoding, _, hencodable⟩ := build_isEncoding hbuild
  have hitems : (source.entries m m₁ workspace).map (BuildEntry.item m₁) =
      infoItem m source.info :: source.tagItems m m₁ := by
    rw [Source.entries, List.map_cons, hm₁, infoEntry_item hdisj]
    rfl
  have hunlinked : (source.tagItems m m₁).map unlinkItem =
      (source.tags m m₁).map (V1Tag.item m₁) := by
    rw [Source.tagItems, List.map_map, List.map_map]
    exact List.map_congr_left fun v _ => unlinkItem_entry v
  rw [hitems] at hencoding hencodable
  have hnormal := (normalizeCapsule_isEncoding hencodable.ok hconv.tagItems_long hencoding).1
  rw [source.tagItems_length m₁, hunlinked] at hnormal
  refine ⟨hnormal, hencodable.congr ?_⟩
  rw [← hunlinked]
  exact unlinkItems_shape _ _

theorem fromV1_converted
    (hr : fromV1 m (some source) policy (some workspace) output capacity (some w₀) report = r)
    (hok : r.status = .ok ()) (hapart : SourceApart source workspace r) :
    ∃ n tags, Converted m source policy output r n tags := by
  obtain ⟨m₁, n, m₂, hm₁, hconv, hbuild, hwritten, hvisited, hentries, hmem⟩ := fromV1_inv hr hok
  have hrecorded : r.tags = (source.tags m m₁).map fun v => (v.addr, v.entry m₁) := by
    rw [Forward.tags, hvisited, hentries]
    exact List.zip_map'
  have hgood : ∀ v ∈ source.tags m m₁, v.Good m₁ source.mapped policy := by
    intro v hv
    obtain ⟨i, hi, rfl⟩ := List.mem_map.mp hv
    exact hconv.chain.good i (List.mem_range.mp hi)
  -- storing the normalized INFO left the source as it was
  have hsame : ∀ v ∈ source.tags m m₁, ∀ k < v.size, m₁ (v.ptr + k) = m (v.ptr + k) := by
    intro v hv k hk
    have hv' := hapart.tags (v.addr, v.entry m₁) (hrecorded ▸ List.mem_map_of_mem hv)
    change v.ptr + v.size ≤ workspace ∨ workspace + 104 ≤ v.ptr at hv'
    rw [hm₁]
    exact normalizeInfo_frame (by omega)
  have hsound : ∀ v ∈ source.tags m m₁, v.Sound m policy := fun v hv =>
    (hgood v hv).toSound.congr fun k hk => (hsame v hv k hk).symm
  obtain ⟨hencoding, hencodable⟩ := normalizeBuilt_isEncoding hconv hm₁ hapart.info hbuild
  have hitems : (source.tags m m₁).map (V1Tag.item m₁) = (source.tags m m₁).map (V1Tag.item m) :=
    List.map_congr_left fun v hv =>
      V1Tag.Same.item ⟨rfl, fun k hk _ => hsame v hv k hk⟩ (hsound v hv).low
  obtain ⟨hout, _, hfits, hw, _⟩ := build_ok_iff.mp hbuild
  refine ⟨n, source.tags m m₁, hconv.nonnull, hconv.info, ?_, ⟨?_, ?_, ?_⟩, ?_, hsound, ?_, ?_,
    hwritten, ⟨hout, ?_⟩, ?_, ?_⟩
  · have hcontext := hconv.context
    have hinfo := hapart.info
    have hfield : get64 m₁ (source.info + 128) = get64 m (source.info + 128) := by
      rw [hm₁]
      exact Mem.getLE_congr fun i hi => normalizeInfo_frame (by omega)
    rwa [hfield] at hcontext
  · refine (linked_chain hconv.chain.ends).congr fun v hv => ?_
    refine Mem.getLE_congr fun i hi => ?_
    have hlow := (hsound v hv).low
    rw [Nat.add_assoc]
    exact (hsame v hv (16 + i) (by omega)).symm
  · intro v hv
    obtain ⟨i, _, rfl⟩ := List.mem_map.mp hv
    rfl
  · exact fun v hv => (hsound v hv).size
  · rw [Source.tags, chain, List.length_map, List.length_range]
  · exact pairwise_range_map.mpr hconv.chain.apart
  · rw [hrecorded]
    exact List.map_congr_left fun v hv => by
      rw [V1Tag.entry_congr (hsound v hv).low fun k hk => hsame v hv k hk]
  · have := (hfits _ List.mem_cons_self).outputFits
    cases hw
    exact this
  · rw [hmem, capsuleItems, ← hitems]
    exact hencoding
  · rw [capsuleItems, ← hitems]
    exact hencodable

end Converted

end BearBoot.Bridge
