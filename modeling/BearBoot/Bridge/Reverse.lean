import BearBoot.Bridge.Chain

/-!
# What the reverse bridge lays out

`bbp_v2_to_v1` accepts any capsule whose entry 0 is a normalized INFO and
whose other entries are tags without linkage, in whatever order and at
whatever alignment their payloads stand. It computes the layout twice:
once to size the output, once to write it, and it links each tag to a
successor that it has not placed yet.

- `tagOffset c j` is where the `j`-th tag goes; both loops follow it
  (`sizeTag_settles`, `emitTag_spec`);
- `Restorable` and `Placed` are the exact conditions of success
  (`toV1_inv`, `toV1_run`);
- `Restored` is what then stands in the output: INFO with its linkage, and
  each tag of the capsule linked and sealed (`emitHandoff_restored`).

The kernel takes such a handoff whole (`toV1_delivers`): the capsule may
be hostile, the handoff is not.
-/

set_option autoImplicit false

namespace BearBoot.Bridge

open Machine V2 Kernel

variable {i j k : Nat} {m' : Mem} {v : V1Tag}

/-! ## The layout -/

/-- Where the first `j` tags of a capsule end in the output. -/
def tagsEnd (c : Mem) : (j : Nat) → Nat
  | 0 => 144
  | j + 1 => roundUp (tagsEnd c j) 8 + (dirent c (j + 1)).size

/-- Where the `j`-th tag of a capsule goes. -/
def tagOffset (c : Mem) (j : Nat) : Nat := roundUp (tagsEnd c j) 8

/-- The size of a capsule's handoff. -/
def handoffSize (c : Mem) : Nat := tagsEnd c (entryCount c - 1)

section Layout

variable (c : Mem)

theorem tagsEnd_succ (j : Nat) : tagsEnd c (j + 1) = tagOffset c j + (dirent c (j + 1)).size := rfl

theorem tagsEnd_le_tagOffset (j : Nat) : tagsEnd c j ≤ tagOffset c j :=
  le_roundUp _ (by decide)

theorem dvd_tagOffset (j : Nat) : 8 ∣ tagOffset c j := dvd_roundUp _ _

theorem tagsEnd_mono (h : i ≤ j) : tagsEnd c i ≤ tagsEnd c j := by
  induction h with
  | refl => exact Nat.le_refl _
  | @step j _ ih =>
    have hoff := tagsEnd_le_tagOffset c j
    rw [Nat.succ_eq_add_one, tagsEnd_succ]
    omega

theorem le_tagOffset (j : Nat) : 144 ≤ tagOffset c j :=
  Nat.le_trans (tagsEnd_mono c (Nat.zero_le j)) (tagsEnd_le_tagOffset c j)

theorem tagsEnd_le_handoffSize (h : j ≤ entryCount c - 1) : tagsEnd c j ≤ handoffSize c :=
  tagsEnd_mono c h

theorem le_handoffSize : 144 ≤ handoffSize c := tagsEnd_mono c (Nat.zero_le _)

/-- A tag lies in the output. -/
theorem tagOffset_add_size_le (h : j < entryCount c - 1) :
    tagOffset c j + (dirent c (j + 1)).size ≤ handoffSize c :=
  tagsEnd_succ c j ▸ tagsEnd_le_handoffSize c h

/-- The first tag stands right behind INFO. -/
theorem tagOffset_zero : tagOffset c 0 = 144 := by
  rw [tagOffset, tagsEnd]
  decide

/-- A later tag is behind an earlier one. -/
theorem tagOffset_lt (h : i < j) : tagsEnd c (i + 1) ≤ tagOffset c j :=
  Nat.le_trans (tagsEnd_mono c h) (tagsEnd_le_tagOffset c j)

end Layout

/-! ## What is accepted -/

/-- What the bridge demands of the entry behind the `i`-th tag. -/
structure TagEntryOk (c : Mem) (i : Nat) : Prop where
  wire : (dirent c (i + 1)).flags &&& efV1Wire ≠ 0
  flags : (dirent c (i + 1)).flags &&& not32 (efV1Wire ||| efExternalPhys) = 0
  low : 32 ≤ (dirent c (i + 1)).size
  high : (dirent c (i + 1)).size ≤ v1MaxTagSize
  type : tagId c (dirent c (i + 1)).offset = (dirent c (i + 1)).type
  size : tagSize c (dirent c (i + 1)).offset = (dirent c (i + 1)).size
  version : tagVersion c (dirent c (i + 1)).offset = (dirent c (i + 1)).version
  next : tagNext c (dirent c (i + 1)).offset = 0
  checksum : tagChecksum c (dirent c (i + 1)).offset = 0
  known : tagExternalReferences c (dirent c (i + 1)).offset (dirent c (i + 1)).size ≠ none
  declared : tagExternalReferences c (dirent c (i + 1)).offset (dirent c (i + 1)).size = some true →
    (dirent c (i + 1)).flags &&& efExternalPhys ≠ 0
  extent : tagsEnd c (i + 1) ≤ v1MaxInfoSize

/-- A capsule the bridge restores under a policy. -/
structure Restorable (c : Mem) (policy : Nat) : Prop where
  nonempty : entryCount c ≠ 0
  type : (dirent c 0).type = entryV1Info
  version : (dirent c 0).version = 1
  size : (dirent c 0).size = 104
  flags : (dirent c 0).flags &&& not32 efExternalPhys = 0
  context : get64 c ((dirent c 0).offset + 96) ≠ 0 → (dirent c 0).flags &&& efExternalPhys ≠ 0
  tags : ∀ i < entryCount c - 1, TagEntryOk c i
  allowed : (∃ j < entryCount c, (dirent c j).flags &&& efExternalPhys ≠ 0) →
    policy &&& allowExternalPhys ≠ 0

/-- An output of `total` bytes at `output`, physically at `phys`, for the
capsule of `n` bytes at `data`. -/
structure Placed (output capacity phys total data n : Nat) : Prop where
  enough : total ≤ capacity
  nonzero : phys ≠ 0
  aligned : 8 ∣ phys
  below : phys + total ≤ v1MaxPhys
  outputFits : output + total < 2 ^ 64
  dataFits : data + n < 2 ^ 64
  disjoint : data + n ≤ output ∨ output + total ≤ data

section Accept

variable {m : Mem} {data n : Nat}

/-- Entries looked up in the view of a capsule, in a memory that still
holds it. -/
theorem entryAt_eq (hne : data ≠ 0) (h : WellFormed (m.based data) n)
    (hsame : ∀ i < n, m' (data + i) = m (data + i)) (hi : i < entryCount (m.based data)) :
    entryAt m' (viewOf (m.based data) data n) i = entryViewOf data (dirent (m.based data) i) := by
  obtain ⟨hwf, hcount, hentries⟩ : WellFormed (m'.based data) n ∧ _ ∧ _ := h.congr hsame
  have hlow := h.low
  have hview : viewOf (m.based data) data n = viewOf (m'.based data) data n := by
    have hdir : directoryOffset (m'.based data) = directoryOffset (m.based data) :=
      Mem.getLE_congr fun k hk => hsame (32 + k) (by omega)
    have hflags : get32 (m'.based data) 16 = get32 (m.based data) 16 :=
      Mem.getLE_congr fun k hk => hsame (16 + k) (by omega)
    rw [viewOf, viewOf, hdir, hflags, hcount]
  rw [entryAt, hview, getEntry_val_ok hne hwf (hcount ▸ hi), (hentries i hi).1]
  rfl

/-- One turn of the sizing loop decides whether the entry is a tag, and
places it. -/
theorem sizeTag_settles (hne : data ≠ 0) (h : WellFormed (m.based data) n)
    (hi : i < entryCount (m.based data) - 1) {st : Sizing}
    (hcursor : st.cursor = tagsEnd (m.based data) i) (hbound : st.cursor ≤ v1MaxInfoSize) :
    Settles (fun _ => False) (sizeTag m (viewOf (m.based data) data n) i st)
      (TagEntryOk (m.based data) i)
      fun st' => st'.cursor = tagsEnd (m.based data) (i + 1) ∧
        st'.externalCount = if (dirent (m.based data) (i + 1)).flags &&& efExternalPhys ≠ 0 then
          st.externalCount + 1 else st.externalCount := by
  have hentry := entryAt_eq hne h (fun _ _ => rfl) (show i + 1 < entryCount (m.based data) by omega)
  obtain ⟨d, hd⟩ : ∃ d, dirent (m.based data) (i + 1) = d := ⟨_, rfl⟩
  have hround : (st.cursor + 7) &&& not64 7 = tagOffset (m.based data) i := by
    unfold v1MaxInfoSize at hbound
    rw [roundUp_eight (by omega), hcursor]
    rfl
  have hoffset : tagOffset (m.based data) i < st.cursor + 8 := by
    rw [hcursor]
    exact roundUp_lt _ (by decide)
  have hend := tagsEnd_succ (m.based data) i
  rw [hd] at hentry hend
  have hrefs : tagExternalReferences m (data + d.offset) d.size =
      tagExternalReferences (m.based data) d.offset d.size :=
    tagExternalReferences_congr (get64_based m data d.offset) fun k _ _ => by
      rw [Mem.based_apply, Nat.add_assoc]
  unfold sizeTag
  rw [hentry, hround, ← hd]
  rw [← hd] at hrefs hend
  unfold entryViewOf
  dsimp only
  rw [hrefs]
  refine .test not_false ?_ (fun h => And.intro h.wire (And.intro h.flags (And.intro h.low (And.intro h.high
    (And.intro h.type (And.intro h.size (And.intro h.version (And.intro h.next h.checksum))))))))
    fun ⟨hwire, hflags, hlow, hhigh, htype, hsize, hversion, hnext, hsum⟩ => ?_
  · simp only [not_or, ne_eq, not_not, not_lt, Nat.add_assoc, get64_based, get32_based, get16_based]
    rfl
  refine .test not_false (not_or.trans (and_congr_right' not_and)) (fun h => ⟨h.known, h.declared⟩)
    fun hknown => ?_
  unfold v1MaxInfoSize at hbound
  refine .test not_false Iff.rfl (fun _ => ?_) fun _ => .test not_false Iff.rfl (fun _ => ?_) fun _ => ?_
  · omega
  · have hhigh' := hhigh
    unfold v1MaxTagSize at hhigh'
    omega
  refine .test not_false (by rw [not_lt, hend]) (·.extent) fun hextent => ?_
  exact .answer ⟨hwire, hflags, hlow, hhigh, htype, hsize, hversion, hnext, hsum, hknown.1, hknown.2, hextent⟩
    ⟨hend.symm, rfl⟩

/-- The sizing loop decides all the tags, and counts the external ones. -/
theorem sizeLoop_settles (hne : data ≠ 0) (h : WellFormed (m.based data) n)
    (hk : k ≤ entryCount (m.based data) - 1) :
    Settles (fun _ => False)
      (forUpTo (sizeTag m (viewOf (m.based data) data n)) k
        ⟨144, if (dirent (m.based data) 0).flags &&& efExternalPhys ≠ 0 then 1 else 0⟩)
      (∀ i < k, TagEntryOk (m.based data) i)
      fun st => st.cursor = tagsEnd (m.based data) k ∧ st.cursor ≤ v1MaxInfoSize ∧
        (st.externalCount ≠ 0 ↔
          ∃ j ≤ k, (dirent (m.based data) j).flags &&& efExternalPhys ≠ 0) := by
  refine .forUpTo _ (fun i (st : Sizing) => st.cursor = tagsEnd (m.based data) i ∧
    st.cursor ≤ v1MaxInfoSize ∧ (st.externalCount ≠ 0 ↔
      ∃ j ≤ i, (dirent (m.based data) j).flags &&& efExternalPhys ≠ 0)) ⟨rfl, show 144 ≤ v1MaxInfoSize by decide, ?_⟩ ?_
  · simp only [Nat.le_zero, exists_eq_left]
    split
    next hflag => exact iff_of_true (by decide) hflag
    next hflag => exact iff_of_false (fun h0 => h0 rfl) hflag
  · rintro i hi _ st ⟨hcursor, hbound, hcount⟩
    refine (sizeTag_settles hne h (by omega) hcursor hbound).mono fun hok st' hst' => ?_
    obtain ⟨hcursor', hcount'⟩ := hst'
    refine ⟨hcursor', hcursor' ▸ hok.extent, ?_⟩
    rw [hcount']
    split
    next hflag => exact iff_of_true (Nat.succ_ne_zero _) ⟨i + 1, Nat.le_refl _, hflag⟩
    next hflag =>
      rw [hcount]
      constructor
      · rintro ⟨j, hj, hflag'⟩
        exact ⟨j, Nat.le_succ_of_le hj, hflag'⟩
      · rintro ⟨j, hj, hflag'⟩
        refine ⟨j, ?_, hflag'⟩
        rcases Nat.le_succ_iff.mp hj with hle | rfl
        · exact hle
        · exact absurd hflag' hflag

/-- The checks behind the parser decide exactly what can be restored, and
where. -/
theorem sizeTags_settles (hne : data ≠ 0) (h : WellFormed (m.based data) n)
    (policy output capacity phys : Nat) :
    Settles (fun _ => False)
      (sizeTags m (viewOf (m.based data) data n) policy output capacity phys)
      (Restorable (m.based data) policy ∧
        Placed output capacity phys (handoffSize (m.based data)) data n)
      fun st => st.cursor = handoffSize (m.based data) := by
  obtain ⟨total, htotal⟩ : ∃ total, handoffSize (m.based data) = total := ⟨_, rfl⟩
  have hlow : 144 ≤ total := htotal ▸ le_handoffSize _
  have hcapsule := h.low
  rw [htotal]
  unfold sizeTags
  refine .test not_false Iff.rfl (·.1.nonempty) fun hcount => ?_
  have hpos : 0 < entryCount (m.based data) := Nat.pos_of_ne_zero hcount
  have hloop := sizeLoop_settles hne h (Nat.le_refl (entryCount (m.based data) - 1))
  rw [entryAt_eq hne h (fun _ _ => rfl) hpos]
  unfold entryViewOf
  dsimp only
  refine .test not_false (by simp only [not_or, ne_eq, not_not]) (fun hok => And.intro hok.1.type
    (And.intro hok.1.version (And.intro hok.1.size hok.1.flags))) fun hinfo => ?_
  refine .test not_false ?_ (·.1.context) fun hcontext => ?_
  · rw [not_and, Nat.add_assoc, get64_based]
  refine .step hloop (·.1.tags) ?_
  rintro htags st ⟨hcursor, _, hexternal⟩
  have hcursor : st.cursor = total := hcursor.trans htotal
  rw [hcursor]
  refine .test not_false ?_ (·.1.allowed) fun hallowed => ?_
  · rw [not_and, hexternal]
    exact imp_congr_left (exists_congr fun j => and_congr_left' (Nat.le_sub_one_iff_lt hpos))
  refine .test not_false not_lt (·.2.enough) fun henough => ?_
  refine .test not_false ?_ (fun hok => And.intro hok.2.nonzero (And.intro hok.2.aligned hok.2.below))
    fun hplace => ?_
  · rw [not_or, not_or, not_or, ne_eq, not_not, and_seven_eq_zero]
    unfold v1MaxPhys
    omega
  refine .test not_false (not_memoryRangesOverlap_iff (by omega) (by change n ≠ 0; omega))
    (fun hok => ⟨hok.2.outputFits, hok.2.dataFits, hok.2.disjoint⟩) fun happart => ?_
  exact .answer ⟨⟨hcount, hinfo.1, hinfo.2.1, hinfo.2.2.1, hinfo.2.2.2, hcontext, htags, hallowed⟩, henough,
    hplace.1, hplace.2.1, hplace.2.2, happart.1, happart.2.1, happart.2.2⟩ hcursor

end Accept

/-! ## What is written -/

/-- The `j`-th of `n` tags stands in the output `o`: the payload's bytes,
linked to where the next tag stands, and sealed. -/
structure TagRestored (c : Mem) (phys n : Nat) (o : Mem) (j : Nat) : Prop where
  bytes : ∀ k < (dirent c (j + 1)).size, ¬ (16 ≤ k ∧ k < 32) →
    o (tagOffset c j + k) = c ((dirent c (j + 1)).offset + k)
  next : tagNext o (tagOffset c j) = if j + 1 < n then phys + tagOffset c (j + 1) else 0
  crc : CrcOk o (tagOffset c j)

section Emit

variable {c : Mem} {phys n : Nat}

/-- A restored tag declares its payload's size. -/
theorem TagRestored.size {o : Mem} (h : TagRestored c phys n o j) (hok : TagEntryOk c j) :
    tagSize o (tagOffset c j) = (dirent c (j + 1)).size := by
  have hlow := hok.low
  rw [← hok.size]
  refine Mem.getLE_congr fun i hi => ?_
  rw [Nat.add_assoc, Nat.add_assoc]
  exact h.bytes (8 + i) (by omega) (by omega)

/-- A restored tag is its bytes. -/
theorem TagRestored.congr {o o' : Mem} (h : TagRestored c phys n o j)
    (hok : TagEntryOk c j)
    (ho : ∀ k < (dirent c (j + 1)).size, o' (tagOffset c j + k) = o (tagOffset c j + k)) :
    TagRestored c phys n o' j := by
  have hlow := hok.low
  have hsize := h.size hok
  refine ⟨fun k hk hni => (ho k hk).trans (h.bytes k hk hni), ?_, ?_⟩
  · rw [← h.next]
    refine Mem.getLE_congr fun i hi => ?_
    rw [Nat.add_assoc]
    exact ho (16 + i) (by omega)
  · exact h.crc.congr (by omega) fun k hk => ho k (by omega)

end Emit

/-- The stores of one turn: a tag copied, linked and sealed. -/
def relink (m : Mem) (tag payload size next : Nat) : Mem :=
  let linked := put64 (put64 (m.copy tag payload size) (tag + 16) next) (tag + 24) 0
  put64 linked (tag + 24) (crcSkip linked tag size 24)

section Relink

variable {m : Mem} {tag payload size next : Nat}

theorem relink_frame (hlow : 32 ≤ size) {a : Nat} (ha : a < tag ∨ tag + size ≤ a) :
    relink m tag payload size next a = m a := by
  unfold relink
  simp (disch := omega) only [put64, Mem.putLE_frame, Mem.copy_frame]

theorem relink_bytes (hdisj : payload + size ≤ tag ∨ tag + size ≤ payload) (hk : k < size)
    (hni : ¬ (16 ≤ k ∧ k < 32)) : relink m tag payload size next (tag + k) = m (payload + k) := by
  unfold relink
  simp (disch := omega) only [put64, Mem.putLE_frame]
  exact Mem.copy_apply (by omega) k hk

theorem relink_next (hnext : next < 2 ^ 64) :
    get64 (relink m tag payload size next) (tag + 16) = next := by
  unfold relink
  simp (disch := omega) only [get64, put64, Mem.getLE_putLE_frame, Mem.getLE_putLE]

theorem relink_crc (hlow : 32 ≤ size) : get64 (relink m tag payload size next) (tag + 24) =
    crcSpliced (relink m tag payload size next) tag size 24 :=
  put64_crcSkip (by omega)

end Relink

section Emission

variable {m : Mem} {data n output phys : Nat}

/-- Where the turn for the `i`-th tag links it to. -/
def nextLink (c : Mem) (phys i : Nat) : Nat :=
  if i + 1 < entryCount c - 1 then phys + tagOffset c (i + 1) else 0

theorem nextLink_lt {c : Mem} (hphys : phys + handoffSize c ≤ v1MaxPhys) :
    nextLink c phys i < 2 ^ 64 := by
  unfold nextLink
  split
  next hlast =>
    have hin := tagOffset_add_size_le c hlast
    unfold v1MaxPhys at hphys
    omega
  next => decide

/-- One turn of the emission loop, over a memory that still holds the
capsule. -/
theorem emitTag_eq (hne : data ≠ 0) (h : WellFormed (m.based data) n)
    (hsame : ∀ i < n, m' (data + i) = m (data + i))
    (hi : i < entryCount (m.based data) - 1) (hok : TagEntryOk (m.based data) i) :
    emitTag (viewOf (m.based data) data n) output phys (entryCount (m.based data) - 1)
        (tagsEnd (m.based data) i, m') i =
      (tagsEnd (m.based data) (i + 1), relink m' (output + tagOffset (m.based data) i)
        (data + (dirent (m.based data) (i + 1)).offset) (dirent (m.based data) (i + 1)).size
        (nextLink (m.based data) phys i)) := by
  have hentry := entryAt_eq hne h hsame (show i + 1 < entryCount (m.based data) by omega)
  have hextent := hok.extent
  have hstep := tagsEnd_mono (m.based data) (Nat.le_add_right i 1)
  unfold v1MaxInfoSize at hextent
  have hround : (tagsEnd (m.based data) i + 7) &&& not64 7 = tagOffset (m.based data) i :=
    roundUp_eight (by omega)
  have hround' : (tagsEnd (m.based data) (i + 1) + 7) &&& not64 7 = tagOffset (m.based data) (i + 1) :=
    roundUp_eight (by omega)
  rw [tagsEnd_succ] at hround' ⊢
  unfold emitTag
  dsimp only
  rw [hentry]
  unfold entryViewOf
  dsimp only
  rw [hround, hround']
  rfl

theorem emitTag_spec (hne : data ≠ 0) (h : WellFormed (m.based data) n)
    (hsame : ∀ i < n, m' (data + i) = m (data + i))
    (hi : i < entryCount (m.based data) - 1) (hok : TagEntryOk (m.based data) i)
    (hphys : phys + handoffSize (m.based data) ≤ v1MaxPhys)
    (hapart : data + n ≤ output + tagOffset (m.based data) i ∨
      output + tagsEnd (m.based data) (i + 1) ≤ data) :
    ∃ m'', emitTag (viewOf (m.based data) data n) output phys (entryCount (m.based data) - 1)
        (tagsEnd (m.based data) i, m') i = (tagsEnd (m.based data) (i + 1), m'') ∧
      (∀ a, a < output + tagOffset (m.based data) i ∨
        output + tagsEnd (m.based data) (i + 1) ≤ a → m'' a = m' a) ∧
      TagRestored (m.based data) phys (entryCount (m.based data) - 1) (m''.based output) i := by
  have hinside := (h.entries (i + 1) (by omega)).inside
  have hlow := hok.low
  refine ⟨_, emitTag_eq hne h hsame hi hok, ?_, ?_⟩
  · intro a ha
    rw [tagsEnd_succ] at ha
    exact relink_frame hlow (by omega)
  rw [tagsEnd_succ] at hapart
  obtain ⟨m'', hm''⟩ : ∃ m'', relink m' (output + tagOffset (m.based data) i)
    (data + (dirent (m.based data) (i + 1)).offset) (dirent (m.based data) (i + 1)).size
    (nextLink (m.based data) phys i) = m'' := ⟨_, rfl⟩
  have hbytes : ∀ k < (dirent (m.based data) (i + 1)).size, ¬ (16 ≤ k ∧ k < 32) →
      m'' (output + tagOffset (m.based data) i + k) =
        m.based data ((dirent (m.based data) (i + 1)).offset + k) := by
    intro k hk hni
    rw [← hm'', relink_bytes (by omega) hk hni, Nat.add_assoc, hsame _ (by omega)]
    rfl
  have hsize : tagSize m'' (output + tagOffset (m.based data) i) =
      (dirent (m.based data) (i + 1)).size := by
    rw [← hok.size]
    exact tagSize_congr fun k hk => hbytes k (by omega) (by omega)
  rw [hm'']
  refine ⟨fun k hk hni => ?_, ?_, ?_⟩
  · rw [Mem.based_apply, ← Nat.add_assoc]
    exact hbytes k hk hni
  · rw [tagNext, ← get64_based, ← Nat.add_assoc, ← hm'']
    exact relink_next (nextLink_lt hphys)
  · rw [CrcOk, crcSpliced_based, tagSize, ← get32_based, tagChecksum, ← get64_based,
      ← Nat.add_assoc, ← Nat.add_assoc]
    change crcSpliced m'' (output + tagOffset (m.based data) i)
      (tagSize m'' (output + tagOffset (m.based data) i)) 24 = _
    rw [hsize, ← hm'']
    exact (relink_crc hlow).symm

/-- The emission loop: the first `k` tags stand, and nothing else behind
INFO has changed. -/
theorem emitLoop_spec {m₀ : Mem} (hne : data ≠ 0) (h : WellFormed (m.based data) n)
    (hsame : ∀ i < n, m₀ (data + i) = m (data + i))
    (hok : ∀ i < entryCount (m.based data) - 1, TagEntryOk (m.based data) i)
    (hphys : phys + handoffSize (m.based data) ≤ v1MaxPhys)
    (hapart : data + n ≤ output ∨ output + handoffSize (m.based data) ≤ data)
    (hk : k ≤ entryCount (m.based data) - 1) :
    ∃ m', (List.range k).foldl (emitTag (viewOf (m.based data) data n) output phys
        (entryCount (m.based data) - 1)) (144, m₀) = (tagsEnd (m.based data) k, m') ∧
      (∀ a, a < output + 144 ∨ output + tagsEnd (m.based data) k ≤ a → m' a = m₀ a) ∧
      ∀ j < k, TagRestored (m.based data) phys (entryCount (m.based data) - 1) (m'.based output) j := by
  induction k with
  | zero => exact ⟨m₀, rfl, fun _ _ => rfl, fun j hj => absurd hj (Nat.not_lt_zero j)⟩
  | succ k ih =>
    obtain ⟨m', hrun, hframe, htags⟩ := ih (by omega)
    have hmono := tagsEnd_le_handoffSize (m.based data) hk
    have hstep := tagsEnd_mono (m.based data) (Nat.le_add_right k 1)
    have hplace := le_tagOffset (m.based data) k
    have hbehind := tagsEnd_le_tagOffset (m.based data) k
    have hsame' : ∀ i < n, m' (data + i) = m (data + i) := by
      intro i hi
      rw [hframe _ (by omega)]
      exact hsame i hi
    have hapart' : data + n ≤ output + tagOffset (m.based data) k ∨
        output + tagsEnd (m.based data) (k + 1) ≤ data := by omega
    obtain ⟨m'', hturn, hframe', htag⟩ :=
      emitTag_spec hne h hsame' (by omega) (hok k (by omega)) hphys hapart'
    refine ⟨m'', ?_, ?_, ?_⟩
    · rw [List.range_succ, List.foldl_append, hrun]
      exact hturn
    · intro a ha
      rw [hframe' a (by omega), hframe a (by omega)]
    · intro j hj
      rcases Nat.lt_succ_iff_lt_or_eq.mp hj with hlt | rfl
      · refine (htags j hlt).congr (hok j (by omega)) fun i hi => ?_
        have hafter := tagOffset_lt (m.based data) hlt
        have hend := tagsEnd_succ (m.based data) j
        exact hframe' _ (by omega)
      · exact htag

end Emission

/-! ## The restored handoff -/

/-- The memory `m` holds at `base` the handoff of the capsule `c`, for the
physical address `phys`. -/
structure Restored (c : Mem) (policy phys base : Nat) (m : Mem) : Prop where
  restorable : Restorable c policy
  count : entryCount c ≤ 1024
  nonzero : phys ≠ 0
  aligned : 8 ∣ phys
  below : phys + handoffSize c ≤ v1MaxPhys
  nonnull : base ≠ 0
  info : InfoRestored c (dirent c 0).offset m base (entryCount c - 1)
    (if entryCount c - 1 ≠ 0 then phys + 144 else 0) (handoffSize c)
  tags : ∀ j < entryCount c - 1, TagRestored c phys (entryCount c - 1) (m.based base) j

/-- What the stores leave: the handoff, and everything else as it was. -/
theorem emitHandoff_restored {m : Mem} {data n output capacity phys policy : Nat} (hne : data ≠ 0)
    (hout : output ≠ 0) (h : WellFormed (m.based data) n) (hr : Restorable (m.based data) policy)
    (hp : Placed output capacity phys (handoffSize (m.based data)) data n) :
    ∃ m', emitHandoff m (viewOf (m.based data) data n) output phys (handoffSize (m.based data)) = m' ∧
      (∀ a, a < output ∨ output + handoffSize (m.based data) ≤ a → m' a = m a) ∧
      Restored (m.based data) policy phys output m' := by
  have hcount := Nat.pos_of_ne_zero hr.nonempty
  have hentry := entryAt_eq hne h (fun _ _ => rfl) hcount
  have hinside := (h.entries 0 hcount).inside
  have hmax := h.count
  have hsize := hr.size
  have hlow := le_handoffSize (m.based data)
  have hhigh : handoffSize (m.based data) ≤ v1MaxInfoSize := by
    unfold handoffSize
    cases hn : entryCount (m.based data) - 1 with
    | zero => exact show 144 ≤ v1MaxInfoSize by decide
    | succ i => exact (hr.tags i (by omega)).extent
  have hdisj := hp.disjoint
  have hbelow := hp.below
  obtain ⟨m₀, hm₀⟩ : ∃ m₀, m.fill output (handoffSize (m.based data)) = m₀ := ⟨_, rfl⟩
  have hfill : ∀ a, a < output ∨ output + handoffSize (m.based data) ≤ a → m₀ a = m a := by
    intro a ha
    rw [← hm₀, Mem.fill_apply, if_neg (by omega)]
  have hsame : ∀ i < n, m₀ (data + i) = m (data + i) := fun i hi => hfill _ (by omega)
  obtain ⟨m₁, hloop, hframe, htags⟩ :=
    emitLoop_spec hne h hsame hr.tags hp.below hp.disjoint (Nat.le_refl _)
  have hframe : ∀ a, a < output + 144 ∨ output + handoffSize (m.based data) ≤ a → m₁ a = m₀ a :=
    hframe
  have hpayload : ∀ i < n, m₁ (data + i) = m (data + i) := by
    intro i hi
    rw [hframe _ (by omega), hfill _ (by omega)]
  unfold v1MaxPhys at hbelow
  obtain ⟨first, hfirst⟩ : ∃ first,
    (if entryCount (m.based data) - 1 ≠ 0 then phys + 144 else 0) = first := ⟨_, rfl⟩
  have hfirst' : first < 2 ^ 64 := by
    rw [← hfirst]
    split <;> omega
  obtain ⟨m₂, hm₂⟩ : ∃ m₂, restoreInfo m₁ output (data + (dirent (m.based data) 0).offset)
      (entryCount (m.based data) - 1) first (handoffSize (m.based data)) = m₂ := ⟨_, rfl⟩
  have hrestored : InfoRestored m₁ (data + (dirent (m.based data) 0).offset) m₂ output
      (entryCount (m.based data) - 1) first (handoffSize (m.based data)) :=
    hm₂ ▸ restoreInfo_restored (by omega) (by omega) hfirst' hlow hhigh
  have hinfo : ∀ a, a < output ∨ output + 144 ≤ a → m₂ a = m₁ a :=
    fun a ha => hm₂ ▸ restoreInfo_frame ha
  refine ⟨m₂, ?_, ?_, hr, hmax, hp.nonzero, hp.aligned, hp.below, hout, ?_, ?_⟩
  · unfold emitHandoff
    dsimp only
    rw [hentry, hm₀]
    change restoreInfo ((List.range (entryCount (m.based data) - 1)).foldl (emitTag _ output phys
      (entryCount (m.based data) - 1)) (144, m₀)).2 _ _ _ (if entryCount (m.based data) - 1 ≠ 0 then
        phys + 144 else 0) _ = m₂
    rw [hloop, hfirst]
    exact hm₂
  · intro a ha
    rw [hinfo a (by omega), hframe a (by omega), hfill a ha]
  · rw [hfirst]
    refine hrestored.congr (fun k hk => ?_) fun _ _ => rfl
    rw [Mem.based_apply, Nat.add_assoc, hpayload _ (by omega)]
  · intro j hj
    have hplace := le_tagOffset (m.based data) j
    exact (htags j hj).congr (hr.tags j hj) fun k hk => hinfo _ (by omega)

/-! ## The reverse bridge -/

section Reverse

variable {m : Mem} {source : View} {policy output capacity phys w₀ : Nat} {report : Option Report}

/-- What a success means. -/
theorem toV1_inv {r : Reverse}
    (hr : toV1 m (some source) policy output capacity phys (some w₀) report = r)
    (hok : r.status = .ok ()) :
    source.data ≠ 0 ∧ output ≠ 0 ∧ WellFormed (m.based source.data) source.totalSize ∧
      Restorable (m.based source.data) policy ∧
      Placed output capacity phys (handoffSize (m.based source.data)) source.data source.totalSize ∧
      r.written = some (handoffSize (m.based source.data)) ∧
      r.mem = emitHandoff m (viewOf (m.based source.data) source.data source.totalSize) output phys
        (handoffSize (m.based source.data)) := by
  subst hr
  unfold toV1 at hok ⊢
  dsimp only at hok ⊢
  split at hok
  next => cases hok
  next hnull =>
    obtain ⟨hne, hout⟩ := not_or.mp hnull
    rw [if_neg hnull]
    by_cases hparse : ((parse source.data source.totalSize (some ⟨0, 0, 0, 0, 0⟩)).val m).1 = .ok ()
    · obtain ⟨_, hwf⟩ := parse_wellFormed hparse
      rw [parse_val_ok hne hwf] at hok ⊢
      dsimp only at hok ⊢
      have hsizes := sizeTags_settles hne hwf policy output capacity phys
      split at hok
      next => cases hok
      next st hst =>
        obtain ⟨hrestorable, hplaced⟩ := hsizes.ok_iff.mp ⟨st, hst⟩
        have hcursor := hsizes.post hst
        rw [← hcursor] at hplaced ⊢
        exact ⟨hne, hout, hwf, hrestorable, hplaced, rfl, rfl⟩
    · split at hok
      next => cases hok
      next => cases hok
      next heq => exact absurd (congrArg Prod.fst heq) hparse

/-- And what it takes. -/
theorem toV1_run (source : View) (w₀ : Nat) (report : Option Report) (hne : source.data ≠ 0)
    (hout : output ≠ 0)
    (hwf : WellFormed (m.based source.data) source.totalSize)
    (hrestorable : Restorable (m.based source.data) policy)
    (hplaced : Placed output capacity phys (handoffSize (m.based source.data)) source.data
      source.totalSize) :
    (toV1 m (some source) policy output capacity phys (some w₀) report).status = .ok () := by
  have hsizes := sizeTags_settles hne hwf policy output capacity phys
  obtain ⟨st, hst⟩ := hsizes.ok_iff.mpr ⟨hrestorable, hplaced⟩
  unfold toV1
  dsimp only
  rw [if_neg (not_or.mpr ⟨hne, hout⟩), parse_val_ok hne hwf]
  dsimp only
  rw [hst]

end Reverse


/-! ## The restored chain -/

/-- The payload of the `j`-th tag entry, as a tag of the capsule. -/
def payloadTag (c : Mem) (j : Nat) : V1Tag :=
  ⟨0, (dirent c (j + 1)).offset, (dirent c (j + 1)).size⟩

/-- The tag restored for it, in an output that is shown at `base`. -/
def restoredTag (c : Mem) (phys base j : Nat) : V1Tag :=
  ⟨phys + tagOffset c j, base + tagOffset c j, (dirent c (j + 1)).size⟩

def restoredTags (c : Mem) (phys base : Nat) : List V1Tag :=
  (List.range (entryCount c - 1)).map (restoredTag c phys base)

section Chain

variable {c m : Mem} {policy phys base : Nat}

theorem restoredTags_length : (restoredTags c phys base).length = entryCount c - 1 := by
  rw [restoredTags, List.length_map, List.length_range]

theorem restoredTags_getElem? (hv : (restoredTags c phys base)[j]? = some v) :
    j < entryCount c - 1 ∧ v = restoredTag c phys base j := by
  rw [restoredTags, List.getElem?_map] at hv
  obtain ⟨i, hi, rfl⟩ := Option.map_eq_some_iff.mp hv
  obtain ⟨hlen, rfl⟩ := List.getElem?_eq_some_iff.mp hi
  rw [List.length_range] at hlen
  rw [List.getElem_range]
  exact ⟨hlen, rfl⟩

/-- A restored tag lies in the output. -/
theorem restoredTags_inside (hv : v ∈ restoredTags c phys base) :
    ∃ offset, v.addr = phys + offset ∧ v.ptr = base + offset ∧ offset + v.size ≤ handoffSize c := by
  obtain ⟨j, hj, rfl⟩ := List.mem_map.mp hv
  exact ⟨tagOffset c j, rfl, rfl, tagOffset_add_size_le c (List.mem_range.mp hj)⟩

/-- The handoff is its bytes. -/
theorem Restored.congr {base' : Nat} (h : Restored c policy phys base m)
    (hbase : base' ≠ 0) (hmem : ∀ i < handoffSize c, m' (base' + i) = m (base + i)) :
    Restored c policy phys base' m' := by
  have hlow := le_handoffSize c
  refine ⟨h.restorable, h.count, h.nonzero, h.aligned, h.below, hbase, ?_, fun j hj => ?_⟩
  · exact h.info.congr (fun _ _ => rfl) fun i hi => hmem i (by omega)
  · have hin := tagOffset_add_size_le c hj
    exact (h.tags j hj).congr (h.restorable.tags j hj) fun k hk => hmem _ (by omega)

/-- A restored tag is its entry's payload, but for the linkage. -/
theorem Restored.same (h : Restored c policy phys base m) (hj : j < entryCount c - 1) :
    (payloadTag c j).Same c m (restoredTag c phys base j) := by
  refine ⟨rfl, fun k hk hni => ?_⟩
  have hbyte := (h.tags j hj).bytes k hk hni
  rwa [Mem.based_apply, ← Nat.add_assoc] at hbyte

/-- The restored tags are linked in the order of the directory. -/
theorem Restored.linked (h : Restored c policy phys base m) :
    Linked m (infoFirstTag m base) (restoredTags c phys base) := by
  rw [h.info.first, ← tagOffset_zero c]
  refine linked_range (restoredTag c phys base) fun j hj => ?_
  have hnext := (h.tags j hj).next
  rwa [tagNext, ← get64_based, ← Nat.add_assoc] at hnext

/-- And the forward bridge would take each of them again. -/
theorem Restored.sound (h : Restored c policy phys base m) :
    ∀ v ∈ restoredTags c phys base, v.Sound m policy := by
  intro v hv
  obtain ⟨j, hj, rfl⟩ := List.mem_map.mp hv
  have hj := List.mem_range.mp hj
  have hok := h.restorable.tags j hj
  have hlow := hok.low
  have hin := tagOffset_add_size_le c hj
  have hbelow := h.below
  have hsame := h.same hj
  have hsize := (h.tags j hj).size hok
  have hcrc := (h.tags j hj).crc
  have hbytes : ∀ i < (dirent c (j + 1)).size,
      m (base + tagOffset c j + i) = m.based base (tagOffset c j + i) := by
    intro i _
    rw [Mem.based_apply, Nat.add_assoc]
  refine ⟨?_, Nat.dvd_add h.aligned (dvd_tagOffset c j), hlow, hok.high, ?_, ?_, ?_, ?_, ?_, ?_⟩
  · exact Nat.ne_of_gt (Nat.add_pos_left (Nat.pos_of_ne_zero h.nonzero) _)
  · change phys + tagOffset c j + (dirent c (j + 1)).size ≤ v1MaxPhys
    omega
  · exact Nat.ne_of_gt (Nat.add_pos_left (Nat.pos_of_ne_zero h.nonnull) _)
  · exact (tagSize_congr fun i hi => hbytes i (by omega)).trans hsize
  · exact hcrc.congr (by omega) fun i hi => hbytes i (by omega)
  · rw [hsame.references hlow]
    exact hok.known
  · rw [hsame.external hlow]
    intro hexternal
    exact h.restorable.allowed ⟨j + 1, by omega, hok.declared (of_decide_eq_true hexternal)⟩

end Chain

/-! ## The kernel reads it -/

/-- The tag at `tag` is the payload of a capsule entry, but for its
linkage. -/
structure Relinked (m : Mem) (ev : EntryView) (m' : Mem) (tag : Nat) : Prop where
  id : tagId m' tag = ev.type
  version : tagVersion m' tag = ev.version
  size : tagSize m' tag = ev.size
  bytes : ∀ i < ev.size, ¬ (16 ≤ i ∧ i < 32) → m' (tag + i) = m (ev.data + i)

/-- A tag that is the payload of an entry of the capsule at `data`. -/
theorem relinked_of_same {m : Mem} {data : Nat}
    (h : (payloadTag (m.based data) j).Same (m.based data) m' v)
    (hok : TagEntryOk (m.based data) j) (hsize : tagSize m' v.ptr = v.size) :
    Relinked m (entryViewOf data (dirent (m.based data) (j + 1))) m' v.ptr := by
  refine ⟨(h.id hok.low).trans hok.type, (h.version hok.low).trans hok.version, hsize.trans h.size,
    fun i hi hni => (h.bytes i hi hni).trans ?_⟩
  rw [Mem.based_apply, ← Nat.add_assoc]
  rfl

/-- A handoff mapped behind the hint is presented to the kernel. -/
theorem Restored.presents {c kmem : Mem} {policy phys infoVa hint : Nat}
    (h : Restored c policy phys (phys + hint) kmem)
    (hwrap : phys + hint + handoffSize c < 2 ^ 64)
    (hfirst : infoFirstTag kmem infoVa = infoFirstTag kmem (phys + hint)) :
    Presents ⟨infoVa, hint, true, phys, phys + handoffSize c⟩ kmem
      ((restoredTags c phys (phys + hint)).map V1Tag.addr) := by
  have hlinked := h.linked
  rw [← hfirst] at hlinked
  refine Linked.presents hlinked ?_ h.sound (fun v hv => ?_) (fun v hv => ?_) fun _ v hv => ?_
  · rw [restoredTags_length]
    exact Nat.le_trans (Nat.sub_le _ _) h.count
  all_goals
    obtain ⟨offset, haddr, hptr, hin⟩ := restoredTags_inside hv
    dsimp only
    omega

/-- Whatever the bridge restores, the kernel takes: it accepts INFO, and
delivers the capsule's entries behind the first, in directory order. -/
theorem toV1_delivers (m : Mem) (source : View) (policy output capacity phys w₀ : Nat)
    (report : Option Report) (r : Reverse)
    (hr : toV1 m (some source) policy output capacity phys (some w₀) report = r)
    (hok : r.status = .ok ()) :
    ∃ w view, r.written = some w ∧ w ≤ capacity ∧
      (∀ a, a < output ∨ output + w ≤ a → r.mem a = m a) ∧
      (∀ out, (parse source.data source.totalSize (some out)).val m = (.ok (), some view)) ∧
      ∀ (out : Option Kctx) (kmem : Mem) (infoVa hint : Nat), out ≠ none → infoVa ≠ 0 → hint ≠ 0 →
        phys + hint + w < 2 ^ 64 →
        (∀ i < w, kmem (phys + hint + i) = r.mem (output + i)) →
        (∀ i < 144, kmem (infoVa + i) = r.mem (output + i)) →
        ∃ k tags, (initBounded out infoVa hint phys w).val kmem = (.ok, some k) ∧
          Delivers k kmem tags ∧
          infoTagCount kmem infoVa = tags.length ∧ view.entryCount = tags.length + 1 ∧
          ∀ j t, tags[j]? = some t → ∀ ev₀, ∃ ev,
            (getEntry (some view) (j + 1) (some ev₀)).val m = (.ok (), some ev) ∧
            Relinked m ev kmem t := by
  obtain ⟨hne, hout, hwf, hrestorable, hplaced, hwritten, hmem⟩ := toV1_inv hr hok
  obtain ⟨m', hrun, hframe, hrestored⟩ := emitHandoff_restored hne hout hwf hrestorable hplaced
  rw [hrun] at hmem
  subst hmem
  refine ⟨_, _, hwritten, hplaced.enough, hframe, fun out => parse_val_ok hne hwf, ?_⟩
  intro out kmem infoVa hint hout hva hhint hwrap hmap hinfo
  have hlow := le_handoffSize (m.based source.data)
  have hbase : phys + hint ≠ 0 := Nat.ne_of_gt (Nat.add_pos_right _ (Nat.pos_of_ne_zero hhint))
  have hkernel := hrestored.congr hbase hmap
  have hkinfo := hrestored.info.congr (fun _ _ => rfl) hinfo
  have hpresents := hkernel.presents hwrap (hkinfo.first.trans hkernel.info.first.symm)
  have hinit := initBounded_val hout hva hplaced.nonzero (by omega) hplaced.below kmem hint hkinfo.ok
  rw [laterOffset_of_hint kmem (show (⟨infoVa, hint, true, phys, _⟩ : Kctx).hhdmOffset ≠ 0 from
    hhint)] at hinit
  have hcount := Nat.pos_of_ne_zero hrestorable.nonempty
  refine ⟨_, _, hinit, hpresents.delivers hva, ?_, ?_, ?_⟩
  · rw [hkinfo.count, List.length_map, List.length_map, restoredTags_length]
  · rw [List.length_map, List.length_map, restoredTags_length]
    change entryCount (m.based source.data) = _
    omega
  · intro j t ht ev₀
    rw [List.map_map, List.getElem?_map] at ht
    obtain ⟨v, hv, rfl⟩ := Option.map_eq_some_iff.mp ht
    have hsize := (hkernel.sound v (List.mem_of_getElem? hv)).size
    obtain ⟨hj, rfl⟩ := restoredTags_getElem? hv
    have hptr : phys + tagOffset (m.based source.data) j + hint =
        (restoredTag (m.based source.data) phys (phys + hint) j).ptr := Nat.add_right_comm _ _ _
    refine ⟨_, getEntry_val_ok hne hwf (by omega), ?_⟩
    rw [Function.comp_apply]
    change Relinked m _ kmem (phys + tagOffset (m.based source.data) j + hint)
    rw [hptr]
    exact relinked_of_same (hkernel.same hj) (hrestorable.tags j hj) hsize

/-- A capsule of 456 bytes at 0x1000 that no forward bridge writes: the
payloads stand in the reverse order of the directory, aligned to 32, 16
and 1. -/
def shuffledCapsule : Mem :=
  let header := [0x50414332504242, 0x30004000000002, 0x300000000, 456, 64, 0xe8bd188f89a9d8a3, 0, 0]
  let info := [0x000100000000fff0, 0x100000000, 352, 104, 0x18c11db44d8fba61, 32]
  let kernelAddress := [0x0002000000000003, 0x100000002, 304, 48, 0x1e6aa76a891dee2b, 16]
  let hhdm := [0x0002000000000002, 0x100000002, 216, 40, 0x7849f179029f180e, 1]
  ((Mem.zeros.putWords 0x1000 (header ++ info ++ kernelAddress ++ hhdm)).putWords (0x1000 + 216)
    [0x0002000000000002, 0x100000028]).putWords (0x1000 + 304) [0x0002000000000003, 0x100000030]

/-- It is restored all the same, and the kernel delivers its two tags. -/
theorem toV1_delivers_shuffled :
    ∃ r k tags, toV1 shuffledCapsule (some ⟨0x1000, 456, 0, 0, 0⟩) 0 0x4000 4096 0x2000 (some 0)
        none = r ∧
      (initBounded (some ⟨0, 0, false, 0, 0⟩) 0x4000 0x2000 0x2000 232).val r.mem = (.ok, some k) ∧
      Delivers k r.mem tags ∧ tags.length = 2 := by
  obtain ⟨r, hr⟩ : ∃ r, toV1 shuffledCapsule (some ⟨0x1000, 456, 0, 0, 0⟩) 0 0x4000 4096 0x2000
    (some 0) none = r := ⟨_, rfl⟩
  have hrun : r.status = .ok () ∧ r.written = some 232 ∧ infoTagCount r.mem 0x4000 = 2 := by
    rw [← hr]
    decide +kernel
  obtain ⟨hok, hwritten, hcount⟩ := hrun
  obtain ⟨w, _, hw, _, _, _, hkernel⟩ :=
    toV1_delivers shuffledCapsule ⟨0x1000, 456, 0, 0, 0⟩ 0 0x4000 4096 0x2000 0 none r hr hok
  cases hw.symm.trans hwritten
  obtain ⟨k, tags, hinit, hdelivers, hlength, _⟩ := hkernel (some ⟨0, 0, false, 0, 0⟩) r.mem 0x4000
    0x2000 (by decide) (by decide) (by decide) (by decide) (fun _ _ => rfl) fun _ _ => rfl
  exact ⟨r, k, tags, hr, hinit, hdelivers, hlength.symm.trans hcount⟩

end BearBoot.Bridge
