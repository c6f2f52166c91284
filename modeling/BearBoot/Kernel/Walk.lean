import BearBoot.Kernel.Model
import BearBoot.Machine.Bits

/-!
# The tag walk, and what lookup and iteration make of it

Both loops of the parser follow the same addresses. `walk` is that common
part as a list: the virtual addresses of the tags a chain yields before it
ends, breaks or runs out of steps. Lookup answers the first tag of the
walk that carries the id and passes its CRC (`findTag_val`); iteration
runs its callback over the tags of the walk that pass (`forEachTag_val`).
Nothing about the chain is assumed: it may be cyclic, overlapping or
corrupt.

The four structural checks of `bbp_tag_at` are read back as plain
inequalities (`tagRegionOk_iff`): the range ends below `2 ^ 48`, its
translation does not wrap, and it lies in the window when there is one.
-/

namespace BearBoot.Kernel

open Machine

variable {p phys len t info hint : Nat} {k : Kctx} {m m' : Mem} {out : Option Kctx}

/-! ## The checks as inequalities -/

theorem tagPtrOk_iff : tagPtrOk p = true ↔ p ≠ 0 ∧ p % 8 = 0 := by
  have hmask : p &&& 7 = p % 8 := Nat.and_two_pow_sub_one_eq_mod p 3
  simp [tagPtrOk, hmask]

theorem tagLenOk_iff {size : Nat} : tagLenOk size = true ↔ 32 ≤ size ∧ size ≤ 16777216 := by
  simp [tagLenOk]

/-- The generic address check: inside the physical space, and no wrap in
translating either end. -/
theorem addressRegionOk_iff :
    addressRegionOk k phys len = true ↔
      phys ≠ 0 ∧ len ≠ 0 ∧ phys + len ≤ 2 ^ 48 ∧ phys + k.hhdmOffset + len < 2 ^ 64 := by
  unfold addressRegionOk maxPhys uintptrMax
  split
  next h => simp only [Bool.false_eq_true, false_iff]; omega
  next h =>
    split
    next h1 => simp only [Bool.false_eq_true, false_iff]; omega
    next h1 =>
      split
      next h2 => simp only [Bool.false_eq_true, false_iff]; omega
      next h2 =>
        split
        next h3 => simp only [Bool.false_eq_true, false_iff]; omega
        next h3 =>
          split
          next h4 => simp only [Bool.false_eq_true, false_iff]; omega
          next h4 => simp only [true_iff]; omega

/-- The check of a tag range: the generic one, and the window when there
is one. -/
theorem tagRegionOk_iff :
    tagRegionOk k phys len = true ↔
      addressRegionOk k phys len = true ∧
        (k.walkLo < k.walkHi → k.walkLo ≤ phys ∧ phys + len ≤ k.walkHi) := by
  unfold tagRegionOk
  cases ha : addressRegionOk k phys len with
  | false => simp
  | true =>
    have hlen := (addressRegionOk_iff.mp ha).2.1
    by_cases hw : k.walkLo < k.walkHi
    · by_cases h1 : phys < k.walkLo ∨ k.walkHi ≤ phys
      · simp [hw, h1]; omega
      · by_cases h2 : k.walkHi - phys < len
        · simp [hw, h1, h2]; omega
        · simp [hw, h1, h2]; omega
    · simp [hw]

/-! ## One step -/

/-- `bbp_tag_at` accepts the tag at the physical address `p`: the pointer
is aligned, the header and then the whole tag pass the region check, and
the size is plausible. -/
structure TagOk (k : Kctx) (m : Mem) (p : Nat) : Prop where
  nonzero : p ≠ 0
  aligned : p % 8 = 0
  sizeLow : 32 ≤ tagSize m (p + k.hhdmOffset)
  sizeHigh : tagSize m (p + k.hhdmOffset) ≤ 16777216
  below : p + tagSize m (p + k.hhdmOffset) ≤ 2 ^ 48
  nowrap : p + k.hhdmOffset + tagSize m (p + k.hhdmOffset) < 2 ^ 64
  window : k.walkLo < k.walkHi →
    k.walkLo ≤ p ∧ p + tagSize m (p + k.hhdmOffset) ≤ k.walkHi

/-- The translation of an address that does not wrap. -/
theorem virtOf_eq (hp : p ≠ 0) (h : p + k.hhdmOffset < 2 ^ 64) :
    virtOf k p = p + k.hhdmOffset := by
  rw [virtOf, if_neg hp, Nat.mod_eq_of_lt h]

/-- A blob in bounds verifies if it was checked and its checksum is right. -/
theorem verifyBlob_val {crc : Nat} (m : Mem) (hphys : phys ≠ 0) (hlen : len ≠ 0)
    (hmax : len ≤ maxBlob) (hbelow : phys + len ≤ 2 ^ 48)
    (hwrap : phys + k.hhdmOffset + len < 2 ^ 64) :
    (verifyBlob (some k) phys len crc false).val m =
      if crc ≠ 0 ∧ crc64 (m.bytes (phys + k.hhdmOffset) len) = crc then .ok
      else .errTagChecksum := by
  have hregion : addressRegionOk k phys len = true :=
    addressRegionOk_iff.mpr ⟨hphys, hlen, hbelow, hwrap⟩
  rw [verifyBlob, if_neg (by omega), if_neg (by omega), if_neg (by rw [hregion]; decide)]
  by_cases hcrc : crc = 0
  · have hno : ¬ (crc ≠ 0 ∧ crc64 (m.bytes (phys + k.hhdmOffset) len) = crc) := fun h => h.1 hcrc
    rw [if_neg hno, if_pos hcrc]
    rfl
  · rw [if_neg hcrc, ← virtOf_eq hphys (by omega)]
    simp only [ne_eq, hcrc, not_false_eq_true, true_and]
    rfl

instance (k : Kctx) (m : Mem) (p : Nat) : Decidable (TagOk k m p) :=
  decidable_of_iff
    (p ≠ 0 ∧ p % 8 = 0 ∧ 32 ≤ tagSize m (p + k.hhdmOffset) ∧
      tagSize m (p + k.hhdmOffset) ≤ 16777216 ∧
      p + tagSize m (p + k.hhdmOffset) ≤ 2 ^ 48 ∧
      p + k.hhdmOffset + tagSize m (p + k.hhdmOffset) < 2 ^ 64 ∧
      (k.walkLo < k.walkHi →
        k.walkLo ≤ p ∧ p + tagSize m (p + k.hhdmOffset) ≤ k.walkHi))
    ⟨fun ⟨h1, h2, h3, h4, h5, h6, h7⟩ => ⟨h1, h2, h3, h4, h5, h6, h7⟩,
      fun ⟨h1, h2, h3, h4, h5, h6, h7⟩ => ⟨h1, h2, h3, h4, h5, h6, h7⟩⟩

/-- The header check succeeding is what makes the header readable. -/
theorem headerOk_iff :
    tagRegionOk k p 32 = true ↔
      p ≠ 0 ∧ p + 32 ≤ 2 ^ 48 ∧ p + k.hhdmOffset + 32 < 2 ^ 64 ∧
        (k.walkLo < k.walkHi → k.walkLo ≤ p ∧ p + 32 ≤ k.walkHi) := by
  rw [tagRegionOk_iff, addressRegionOk_iff]
  constructor
  · rintro ⟨⟨h1, _, h2, h3⟩, h4⟩
    exact ⟨h1, h2, h3, h4⟩
  · rintro ⟨h1, h2, h3, h4⟩
    exact ⟨⟨h1, by decide, h2, h3⟩, h4⟩

theorem tagAt_val (k : Kctx) (m : Mem) (cur : Nat) :
    (tagAt k cur).val m = if TagOk k m cur then some (cur + k.hhdmOffset) else none := by
  simp only [tagAt, Traced.val_bind, Traced.val_ite, Traced.val_pure,
    physToVirt, load32_val]
  by_cases hptr : tagPtrOk cur = true
  · obtain ⟨hnz, hal⟩ := tagPtrOk_iff.mp hptr
    by_cases hhdr : tagRegionOk k cur 32 = true
    · obtain ⟨_, _, hnw, _⟩ := headerOk_iff.mp hhdr
      have hvirt : virtOf k cur = cur + k.hhdmOffset := virtOf_eq hnz (by omega)
      have hsize : get32 m (virtOf k cur + 8) = tagSize m (cur + k.hhdmOffset) := by
        rw [hvirt]; rfl
      rw [hsize, hvirt]
      by_cases hok : TagOk k m cur
      · have hlen : tagLenOk (tagSize m (cur + k.hhdmOffset)) = true :=
          tagLenOk_iff.mpr ⟨hok.sizeLow, hok.sizeHigh⟩
        have hreg : tagRegionOk k cur (tagSize m (cur + k.hhdmOffset)) = true :=
          tagRegionOk_iff.mpr ⟨addressRegionOk_iff.mpr
            ⟨hok.nonzero, by have := hok.sizeLow; omega, hok.below, hok.nowrap⟩, hok.window⟩
        simp [hptr, hhdr, hlen, hreg, hok]
      · by_cases hlen : tagLenOk (tagSize m (cur + k.hhdmOffset)) = true
        · have hreg : ¬ tagRegionOk k cur (tagSize m (cur + k.hhdmOffset)) = true := by
            intro hreg
            obtain ⟨hadd, hwin⟩ := tagRegionOk_iff.mp hreg
            obtain ⟨_, _, hbelow, hnowrap⟩ := addressRegionOk_iff.mp hadd
            obtain ⟨hlo, hhi⟩ := tagLenOk_iff.mp hlen
            exact hok ⟨hnz, hal, hlo, hhi, hbelow, hnowrap, hwin⟩
          simp [hptr, hhdr, hlen, hreg, hok]
        · simp [hptr, hhdr, hlen, hok]
    · have hok : ¬ TagOk k m cur := by
        intro hok
        apply hhdr
        have hlo := hok.sizeLow
        have hbelow := hok.below
        have hnowrap := hok.nowrap
        refine headerOk_iff.mpr ⟨hnz, by omega, by omega, fun hw => ?_⟩
        have hwin := hok.window hw
        omega
      simp [hptr, hhdr, hok]
  · have hok : ¬ TagOk k m cur := fun hok => hptr (tagPtrOk_iff.mpr ⟨hok.nonzero, hok.aligned⟩)
    simp [hptr, hok]

/-- The checksum of the tag at the virtual address `t` matches. -/
def CrcOk (m : Mem) (t : Nat) : Prop := crcSpliced m t (tagSize m t) 24 = tagChecksum m t

instance (m : Mem) (t : Nat) : Decidable (CrcOk m t) := inferInstanceAs (Decidable (_ = _))

/-- A tag's size is a field of its header. -/
theorem tagSize_congr {t' : Nat} (h : ∀ i < 16, m' (t' + i) = m (t + i)) :
    tagSize m' t' = tagSize m t :=
  Mem.getLE_congr fun i hi => by rw [Nat.add_assoc, Nat.add_assoc, h (8 + i) (by omega)]

/-- An intact tag is intact wherever its bytes stand. -/
theorem CrcOk.congr {t' : Nat} (hok : CrcOk m t) (hsize : 32 ≤ tagSize m t)
    (h : ∀ i < tagSize m t, m' (t' + i) = m (t + i)) : CrcOk m' t' := by
  have hsize' : tagSize m' t' = tagSize m t := tagSize_congr fun i hi => h i (by omega)
  have hsum : tagChecksum m' t' = tagChecksum m t :=
    Mem.getLE_congr fun i hi => by rw [Nat.add_assoc, Nat.add_assoc, h (24 + i) (by omega)]
  unfold CrcOk at hok ⊢
  rw [hsize', hsum, ← hok]
  exact crcSpliced_congr (fun i hi => h i (by omega)) fun i hlo hhi => h i hhi

/-- On a tag of plausible size the CRC check is the CRC match. -/
theorem tagCrcOk_val (hsize : 32 ≤ tagSize m t) :
    (tagCrcOk t).val m = decide (CrcOk m t) := by
  have hlen : ¬ get32 m (t + 8) < 24 + 8 := by
    change ¬ tagSize m t < 32
    omega
  simp only [tagCrcOk, Traced.val_bind, load32_val, load64_val, Traced.val_pure, crcSkip,
    loadCrcSpliced_val, if_neg hlen]
  rfl

/-! ## The walk -/

/-- The virtual addresses of the tags that `steps` turns of the loop see
from the physical address `cur` on. -/
def walk (k : Kctx) (m : Mem) : (steps cur : Nat) → List Nat
  | 0, _ => []
  | steps + 1, cur =>
    if TagOk k m cur then
      (cur + k.hhdmOffset) :: walk k m steps (tagNext m (cur + k.hhdmOffset))
    else []

/-- A tag of the walk passed the structural checks at its own address. -/
theorem mem_walk {steps cur : Nat} (h : t ∈ walk k m steps cur) :
    ∃ p, TagOk k m p ∧ t = p + k.hhdmOffset := by
  induction steps generalizing cur with
  | zero => cases h
  | succ steps ih =>
    rw [walk] at h
    split at h
    next hok =>
      rcases List.mem_cons.mp h with rfl | h
      · exact ⟨cur, hok, rfl⟩
      · exact ih h
    next => cases h

/-- A tag of the walk is handed out: its CRC matches, or nobody asks. -/
def Passes (k : Kctx) (m : Mem) (t : Nat) : Prop := k.verifyTagCrc = true → CrcOk m t

instance (k : Kctx) (m : Mem) (t : Nat) : Decidable (Passes k m t) :=
  inferInstanceAs (Decidable (_ → _))

/-- The CRC gate of both loops, on a tag the walk accepted. -/
theorem crcGate_val (hok : TagOk k m p) :
    (crcGate k (p + k.hhdmOffset)).val m = decide (Passes k m (p + k.hhdmOffset)) := by
  cases hv : k.verifyTagCrc with
  | false => simp [crcGate, Passes, hv]
  | true => simp [crcGate, Passes, hv, tagCrcOk_val hok.sizeLow]

theorem findTagLoop_val (k : Kctx) (m : Mem) (id steps cur : Nat) :
    (findTagLoop k id steps cur).val m =
      (walk k m steps cur).find? fun t => decide (tagId m t = id ∧ Passes k m t) := by
  induction steps generalizing cur with
  | zero => rfl
  | succ steps ih =>
    by_cases hcur : cur = 0
    · have hno : ¬ TagOk k m cur := fun h => h.nonzero hcur
      simp [findTagLoop, walk, hcur, hcur ▸ hno]
    · by_cases hok : TagOk k m cur
      · simp only [findTagLoop, walk, if_neg hcur, Traced.val_bind, tagAt_val, if_pos hok,
          List.find?_cons, load64_val]
        by_cases hid : tagId m (cur + k.hhdmOffset) = id
        · have hid' : get64 m (cur + k.hhdmOffset) = id := hid
          simp only [hid', if_true, Traced.val_bind, crcGate_val hok]
          by_cases hp : Passes k m (cur + k.hhdmOffset)
          · simp [hp, hid]
          · simp [hp, ih, tagNext]
        · have hid' : ¬ get64 m (cur + k.hhdmOffset) = id := hid
          simp [hid, hid', ih, tagNext]
      · simp only [findTagLoop, walk, if_neg hcur, Traced.val_bind, tagAt_val, if_neg hok,
          Traced.val_pure, List.find?_nil]

/-- Lookup is the first tag of the walk with the id that passes. -/
theorem findTag_val (hk : k.info ≠ 0) (m : Mem) (id : Nat) :
    (findTag (some k) id).val m =
      (walk k m maxTags (infoFirstTag m k.info)).find?
        fun t => decide (tagId m t = id ∧ Passes k m t) := by
  simp only [findTag, if_neg hk, Traced.val_bind, load64_val, findTagLoop_val]
  rfl

/-- A tag that lookup answers is an accepted tag that passes. -/
theorem findTag_some (hk : k.info ≠ 0) {id : Nat}
    (h : (findTag (some k) id).val m = some t) :
    ∃ p, TagOk k m p ∧ t = p + k.hhdmOffset ∧ tagId m t = id ∧ Passes k m t := by
  rw [findTag_val hk] at h
  obtain ⟨p, hok, ht⟩ := mem_walk (List.mem_of_find?_eq_some h)
  have hp := List.find?_some h
  rw [decide_eq_true_eq] at hp
  exact ⟨p, hok, ht, hp.1, hp.2⟩

/-- The tags of the walk that are handed out, in order. -/
def delivered (k : Kctx) (m : Mem) : List Nat :=
  (walk k m maxTags (infoFirstTag m k.info)).filter fun t => decide (Passes k m t)

/-- A callback run over a list of tags until it stops. -/
def runCb {σ : Type} (f : Nat → σ → Bool × σ) : List Nat → Nat → σ → Nat × σ
  | [], n, user => (n, user)
  | t :: ts, n, user =>
    if (f t user).1 then (n + 1, (f t user).2) else runCb f ts (n + 1) (f t user).2

theorem forEachLoop_val {σ : Type} (k : Kctx) (m : Mem) (cb : TagCb σ)
    (steps cur n : Nat) (user : σ) :
    (forEachLoop k cb steps cur n user).val m =
      runCb (fun t s => (cb t s).val m)
        ((walk k m steps cur).filter fun t => decide (Passes k m t)) n user := by
  induction steps generalizing cur n user with
  | zero => rfl
  | succ steps ih =>
    by_cases hcur : cur = 0
    · have hno : ¬ TagOk k m cur := fun h => h.nonzero hcur
      simp [forEachLoop, walk, hcur, hcur ▸ hno, runCb]
    · by_cases hok : TagOk k m cur
      · simp only [forEachLoop, walk, if_neg hcur, Traced.val_bind, tagAt_val, if_pos hok,
          crcGate_val hok, List.filter_cons]
        by_cases hp : Passes k m (cur + k.hhdmOffset)
        · simp only [hp, decide_true, Bool.not_true, Bool.false_eq_true, if_false, if_true,
            Traced.val_bind, Traced.val_ite, Traced.val_pure, load64_val, ih, runCb]
          rfl
        · simp only [hp, decide_false, Bool.not_false, if_true, Traced.val_bind, load64_val, ih,
            Bool.false_eq_true, if_false]
          rfl
      · simp only [forEachLoop, walk, if_neg hcur, Traced.val_bind, tagAt_val, if_neg hok,
          Traced.val_pure, List.filter_nil, runCb]

/-- Iteration is the callback run over the delivered tags. -/
theorem forEachTag_val {σ : Type} (hk : k.info ≠ 0) (m : Mem) (cb : TagCb σ) (user : σ) :
    (forEachTag (some k) (some cb) user).val m =
      runCb (fun t s => (cb t s).val m) (delivered k m) 0 user := by
  simp only [forEachTag, if_neg hk, Traced.val_bind, load64_val, forEachLoop_val]
  rfl

/-- The callback that only writes down what it is given. -/
def collect : TagCb (List Nat) := fun t seen => pure (false, seen ++ [t])

theorem runCb_collect (ts : List Nat) (n : Nat) (seen : List Nat) :
    runCb (fun t seen => (false, seen ++ [t])) ts n seen = (n + ts.length, seen ++ ts) := by
  induction ts generalizing n seen with
  | nil => simp [runCb]
  | cons t ts ih =>
    simp only [runCb, Bool.false_eq_true, if_false, ih, List.length_cons, List.append_assoc,
      List.singleton_append, Prod.mk.injEq, and_true]
    omega

/-- A callback that never stops and writes down what it is given sees
exactly the delivered tags. -/
theorem forEachTag_collect (hk : k.info ≠ 0) (m : Mem) :
    (forEachTag (some k) (some collect) []).val m =
      ((delivered k m).length, delivered k m) := by
  simp only [forEachTag_val hk, collect, Traced.val_pure, runCb_collect, Nat.zero_add,
    List.nil_append]

/-! ## Initialisation -/

/-- INFO passes the initialiser: magic, major version, size and CRC. -/
structure InfoOk (m : Mem) (info : Nat) : Prop where
  magic : m.bytes info 16 = infoMagic
  major : get16 m (info + 16) = 1
  sizeLow : 144 ≤ get32 m (info + 20)
  sizeHigh : get32 m (info + 20) ≤ 67108864
  crc : get64 m (info + 136) = crcSpliced m info 144 136

/-- INFO passes wherever its bytes stand. -/
theorem InfoOk.congr {info' : Nat} (hok : InfoOk m info)
    (h : ∀ i < 144, m' (info' + i) = m (info + i)) : InfoOk m' info' := by
  have field : ∀ o w, o + w ≤ 144 → m'.getLE (info' + o) w = m.getLE (info + o) w := by
    intro o w how
    refine Mem.getLE_congr fun i hi => ?_
    rw [Nat.add_assoc, Nat.add_assoc, h (o + i) (by omega)]
  have hsize : get32 m' (info' + 20) = get32 m (info + 20) := field 20 4 (by decide)
  refine ⟨?_, ?_, ?_, ?_, ?_⟩
  · rw [← hok.magic]
    exact Mem.bytes_congr fun i hi => h i (by omega)
  · exact (field 16 2 (by decide)).trans hok.major
  · rw [hsize]
    exact hok.sizeLow
  · rw [hsize]
    exact hok.sizeHigh
  · refine (field 136 8 (by decide)).trans (hok.crc.trans ?_)
    exact crcSpliced_congr (fun i hi => (h i (by omega)).symm) fun i _ hhi => (h i hhi).symm

/-- The offset of the walks after initialisation: the consumer's hint, or,
where the hint is zero, the one a well-sized HHDM tag supplies. -/
def laterOffset (m : Mem) (k : Kctx) : Nat :=
  match (findTag (some k) tagHhdm).val m with
  | none => k.hhdmOffset
  | some t => if k.hhdmOffset = 0 ∧ 40 ≤ tagSize m t then get64 m (t + 32) else k.hhdmOffset

/-- A nonzero hint is authoritative. -/
theorem laterOffset_of_hint (m : Mem) (h : k.hhdmOffset ≠ 0) :
    laterOffset m k = k.hhdmOffset := by
  unfold laterOffset
  split
  · rfl
  · rw [if_neg fun hc => h hc.1]

/-- With a zero hint the offset stays zero unless an HHDM tag names another. -/
theorem laterOffset_eq_zero (hk : k.hhdmOffset = 0)
    (h : ∀ t, (findTag (some k) tagHhdm).val m = some t → 40 ≤ tagSize m t → get64 m (t + 32) = 0) :
    laterOffset m k = 0 := by
  unfold laterOffset
  split
  · exact hk
  next t ht =>
    split
    next hsize => exact h t ht hsize.2
    · exact hk

theorem crcSkip_info_val (m : Mem) (info : Nat) :
    (crcSkip info 144 136).val m = crcSpliced m info 144 136 := by
  rw [crcSkip, if_neg (by decide), loadCrcSpliced_val]

/-- Initialisation succeeds exactly on a good INFO, and publishes the
context with the later offset. -/
theorem initWin_val (hout : out ≠ none)
    (hinfo : info ≠ 0) (m : Mem) (hint lo hi : Nat) (hok : InfoOk m info) :
    (initWin out info hint lo hi).val m =
      (.ok, some ⟨info, laterOffset m ⟨info, hint, true, lo, hi⟩, true, lo, hi⟩) := by
  have hsize : ¬ (get32 m (info + 20) < 144 ∨ 64 * 1024 * 1024 < get32 m (info + 20)) := by
    have := hok.sizeLow
    have := hok.sizeHigh
    omega
  simp only [initWin, hout, hinfo, or_self, if_false, Traced.val_bind, loadBytes_val, load16_val, load32_val, load64_val,
    crcSkip_info_val, hok.magic, hok.major, hok.crc, hsize, ne_eq, not_true_eq_false]
  unfold laterOffset
  cases hf : (findTag (some ⟨info, hint, true, lo, hi⟩) tagHhdm).val m with
  | none => rfl
  | some t =>
    simp only [Traced.val_ite, Traced.val_bind, load32_val, load64_val, Traced.val_pure]
    by_cases hh : hint = 0
    · by_cases hs : 40 ≤ tagSize m t
      · have hs' : 40 ≤ get32 m (t + 8) := hs
        simp [hh, hs, hs']
      · have hs' : ¬ 40 ≤ get32 m (t + 8) := hs
        simp [hh, hs, hs']
    · simp [hh]

/-- And refuses every other one. -/
theorem infoOk_of_initWin {lo hi : Nat}
    (h : ((initWin out info hint lo hi).val m).1 = .ok) :
    out ≠ none ∧ info ≠ 0 ∧ InfoOk m info := by
  unfold initWin at h
  rw [Traced.val_ite] at h
  split at h
  next => cases h
  next hnull =>
    simp only [Traced.val_bind, Traced.val_ite, Traced.val_pure, loadBytes_val, load16_val,
      load32_val, load64_val, crcSkip_info_val] at h
    split at h
    next => cases h
    next hmagic =>
      split at h
      next => cases h
      next hmajor =>
        split at h
        next => cases h
        next hsize =>
          split at h
          next => cases h
          next hcrc =>
            refine ⟨fun hc => hnull (Or.inl hc), fun hc => hnull (Or.inr hc), ?_⟩
            exact ⟨not_not.mp hmagic, not_not.mp hmajor, by omega, by omega, not_not.mp hcrc⟩

theorem initWin_ok_iff {lo hi : Nat} :
    ((initWin out info hint lo hi).val m).1 = .ok ↔ out ≠ none ∧ info ≠ 0 ∧ InfoOk m info := by
  constructor
  · exact infoOk_of_initWin
  · rintro ⟨hout, hinfo, hok⟩
    rw [initWin_val hout hinfo m hint lo hi hok]

/-! ## The kernel's header -/

/-- A header passes: magic, major version, size and CRC. -/
structure HeaderOk (m : Mem) (hdr : Nat) : Prop where
  magic : m.bytes hdr 16 = headerMagic
  major : get16 m (hdr + 16) = 1
  size : get32 m (hdr + 20) = 160
  crc : crcSpliced m hdr 160 152 = get64 m (hdr + 152)

theorem verifyHeader_ok_iff {hdr : Nat} :
    (verifyHeader hdr).val m = .ok ↔ hdr ≠ 0 ∧ HeaderOk m hdr := by
  have hskip : (crcSkip hdr 160 152).val m = crcSpliced m hdr 160 152 := by
    rw [crcSkip, if_neg (by decide), loadCrcSpliced_val]
  unfold verifyHeader
  by_cases hnull : hdr = 0
  · rw [if_pos hnull]
    refine ⟨(fun h => by cases h), fun h => absurd hnull h.1⟩
  rw [if_neg hnull]
  simp only [Traced.val_bind, Traced.val_ite, Traced.val_pure, loadBytes_val, load16_val,
    load32_val, load64_val, hskip]
  constructor
  · intro h
    split at h
    next => cases h
    next hmagic =>
      split at h
      next => cases h
      next hmajor =>
        split at h
        next => cases h
        next hsize =>
          split at h
          next => cases h
          next hcrc =>
            exact ⟨hnull, not_not.mp hmagic, not_not.mp hmajor, not_not.mp hsize, not_not.mp hcrc⟩
  · rintro ⟨_, hok⟩
    rw [if_neg (not_not.mpr hok.magic), if_neg (not_not.mpr hok.major),
      if_neg (not_not.mpr hok.size), if_neg (not_not.mpr hok.crc)]

/-- The bounded initialiser on a span that makes sense. -/
theorem initBounded_val {arena bytes : Nat} (hout : out ≠ none)
    (hinfo : info ≠ 0) (harena : arena ≠ 0) (hbytes : bytes ≠ 0) (hspan : arena + bytes ≤ 2 ^ 48)
    (m : Mem) (hint : Nat) (hok : InfoOk m info) :
    (initBounded out info hint arena bytes).val m =
      (.ok, some ⟨info, laterOffset m ⟨info, hint, true, arena, arena + bytes⟩, true, arena,
        arena + bytes⟩) := by
  have hsum : (arena + bytes) % 2 ^ 64 = arena + bytes := Nat.mod_eq_of_lt (by omega)
  have hlen : ¬ maxPhys < bytes := by unfold maxPhys; omega
  have hwin := initWin_val (show some (⟨0, 0, false, 0, 0⟩ : Kctx) ≠ none by simp) hinfo m hint arena
    (arena + bytes) hok
  have hend : ¬ maxPhys - bytes < arena := by unfold maxPhys; omega
  simp only [initBounded, hout, hinfo, harena, hbytes, hlen, hend, hsum, or_self, if_false,
    Traced.val_bind, Traced.val_pure, hwin, if_true]

/-- What a successful bounded initialisation means. -/
theorem of_initBounded {arena bytes : Nat}
    (h : (initBounded out info hint arena bytes).val m = (.ok, some k)) :
    out ≠ none ∧ info ≠ 0 ∧ arena ≠ 0 ∧ bytes ≠ 0 ∧ arena + bytes ≤ 2 ^ 48 ∧
      InfoOk m info ∧
      k = ⟨info, laterOffset m ⟨info, hint, true, arena, arena + bytes⟩, true, arena,
        arena + bytes⟩ := by
  have hst : ((initBounded out info hint arena bytes).val m).1 = .ok := by rw [h]
  unfold initBounded maxPhys at hst
  simp only [Traced.val_ite, Traced.val_pure, Traced.val_bind] at hst
  split at hst
  next => cases hst
  next hnull =>
    split at hst
    next => cases hst
    next hzero =>
      split at hst
      next => cases hst
      next hlen =>
        split at hst
        next => cases hst
        next hend =>
          have hout : out ≠ none := fun hc => hnull (Or.inl hc)
          have hinfo : info ≠ 0 := fun hc => hnull (Or.inr hc)
          have hwin : ((initWin (some ⟨0, 0, false, 0, 0⟩) info hint arena
              ((arena + bytes) % 2 ^ 64)).val m).1 = .ok := by
            split at hst
            next hw => exact hw
            next hw => exact absurd hst hw
          have hok := (infoOk_of_initWin hwin).2.2
          have harena : arena ≠ 0 := fun hc => hzero (Or.inl hc)
          have hbytes : bytes ≠ 0 := fun hc => hzero (Or.inr hc)
          have hspan : arena + bytes ≤ 2 ^ 48 := by omega
          refine ⟨hout, hinfo, harena, hbytes, hspan, hok, ?_⟩
          have hval := initBounded_val hout hinfo harena hbytes hspan m hint hok
          rw [h] at hval
          cases hval
          rfl

end BearBoot.Kernel
