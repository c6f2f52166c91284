import BearBoot.Kernel.Walk
import BearBoot.Bridge.Model

/-!
# What the bridges copy, and what they look at

The two bridges carry the same data in opposite directions. This module
says what that data is, once for both:

- `infoPayload` is INFO without its linkage, the payload of entry 0;
  `normalizeInfo_payload` and `restoreInfo_restored` say that the one
  bridge stores it and the other puts it back;
- `unlinked` is a tag with its two linkage fields zeroed, the payload of
  every other entry;
- the classification of a tag depends on its id and its body only
  (`tagExternalReferences_congr`), so neither relinking nor resealing a
  tag changes it.
-/

set_option autoImplicit false

namespace BearBoot.Bridge

open Machine V2 Kernel

variable {m m' : Mem} {size p info : Nat} {refs : List Nat}

/-! ## Arithmetic of the bridge -/

theorem and_seven_eq_zero {x : Nat} : x &&& 7 = 0 ↔ 8 ∣ x := and_pred_two_pow_eq_zero (k := 3)

/-- `(x + 7) & ~7` on what the bridges round. -/
theorem roundUp_eight {x : Nat} (h : x + 7 < 2 ^ 64) : (x + 7) &&& not64 7 = roundUp x 8 :=
  add_and_not64 (k := 3) (by decide) h

theorem crcSkip_eq {data offset : Nat} (h : offset + 8 ≤ size) :
    crcSkip m data size offset = crcSpliced m data size offset := by
  rw [crcSkip, if_neg (by omega)]

/-- Storing the spliced CRC over the field it skips. -/
theorem put64_crcSkip {offset : Nat} (h : offset + 8 ≤ size) :
    get64 (put64 m (p + offset) (crcSkip m p size offset)) (p + offset) =
      crcSpliced (put64 m (p + offset) (crcSkip m p size offset)) p size offset := by
  rw [crcSkip_eq h]
  exact crcSpliced_seal m p size offset

/-! ## The classification of a tag -/

section References

variable {m m' : Mem} {tag tag' size : Nat}

theorem anyRef_congr {p' : Nat}
    (h : ∀ o ∈ refs, get64 m' (p' + o) = get64 m (p + o)) : anyRef m' p' refs = anyRef m p refs := by
  unfold anyRef
  rw [Bool.eq_iff_iff, List.any_eq_true, List.any_eq_true]
  exact exists_congr fun o => and_congr_right fun ho => by rw [h o ho]

theorem fixedRefs_congr {base : Nat}
    (field : ∀ o w, 32 ≤ o → o + w ≤ size → m'.getLE (tag' + o) w = m.getLE (tag + o) w)
    (hrefs : ∀ o ∈ refs, 32 ≤ o ∧ o + 8 ≤ base) :
    fixedRefs m' tag' size base refs = fixedRefs m tag size base refs := by
  unfold fixedRefs
  split
  · rfl
  next hsize =>
    refine congrArg some (anyRef_congr fun o ho => ?_)
    obtain ⟨hlo, hhi⟩ := hrefs o ho
    exact field o 8 hlo (by omega)

theorem arrayRefs_congr {base count count' stride : Nat} {elementRefs : List Nat}
    (field : ∀ o w, 32 ≤ o → o + w ≤ size → m'.getLE (tag' + o) w = m.getLE (tag + o) w)
    (hcount : base ≤ size → count' = count) (hbase : 32 ≤ base)
    (hrefs : ∀ o ∈ refs, 32 ≤ o ∧ o + 8 ≤ base) (helements : ∀ o ∈ elementRefs, o + 8 ≤ stride) :
    arrayRefs m' tag' size base count' stride refs elementRefs =
      arrayRefs m tag size base count stride refs elementRefs := by
  unfold arrayRefs
  split
  · rfl
  next hsize =>
    rw [hcount (by omega)]
    split
    · rfl
    next hfits =>
      have hcountle := (not_not.mp hfits).2
      have hspan : count * stride ≤ size - base :=
        Nat.le_trans (Nat.mul_le_mul_right stride hcountle) (Nat.div_mul_le_self _ _)
      have hhead : anyRef m' tag' refs = anyRef m tag refs := by
        refine anyRef_congr fun o ho => ?_
        obtain ⟨hlo, hhi⟩ := hrefs o ho
        exact field o 8 hlo (by omega)
      have helement : ∀ i < count, anyRef m' (tag' + base + i * stride) elementRefs =
          anyRef m (tag + base + i * stride) elementRefs := by
        intro i hi
        have hnext : (i + 1) * stride ≤ count * stride := Nat.mul_le_mul_right stride hi
        rw [Nat.succ_mul] at hnext
        refine anyRef_congr fun o ho => ?_
        have hstride := helements o ho
        have := field (base + i * stride + o) 8 (by omega) (by omega)
        rwa [← Nat.add_assoc, ← Nat.add_assoc, ← Nat.add_assoc, ← Nat.add_assoc] at this
      rw [hhead]
      refine congrArg (fun b => some (anyRef m tag refs || b)) ?_
      rw [Bool.eq_iff_iff, List.any_eq_true, List.any_eq_true]
      exact exists_congr fun i => and_congr_right fun hi => by rw [helement i (List.mem_range.mp hi)]

/-- The classification looks at the id and behind the header. -/
theorem tagExternalReferences_congr (hid : get64 m' tag' = get64 m tag)
    (hbody : ∀ i, 32 ≤ i → i < size → m' (tag' + i) = m (tag + i)) :
    tagExternalReferences m' tag' size = tagExternalReferences m tag size := by
  have field : ∀ o w, 32 ≤ o → o + w ≤ size → m'.getLE (tag' + o) w = m.getLE (tag + o) w := by
    intro o w hlo hhi
    refine Mem.getLE_congr fun i hi => ?_
    rw [Nat.add_assoc, Nat.add_assoc]
    exact hbody (o + i) (by omega) (by omega)
  have hfixed : ∀ base refs, (∀ o ∈ refs, 32 ≤ o ∧ o + 8 ≤ base) →
      fixedRefs m' tag' size base refs = fixedRefs m tag size base refs :=
    fun base refs hrefs => fixedRefs_congr field hrefs
  have harray : ∀ base count count' stride refs elementRefs, (base ≤ size → count' = count) →
      32 ≤ base → (∀ o ∈ refs, 32 ≤ o ∧ o + 8 ≤ base) → (∀ o ∈ elementRefs, o + 8 ≤ stride) →
      arrayRefs m' tag' size base count' stride refs elementRefs =
        arrayRefs m tag size base count stride refs elementRefs :=
    fun base count count' stride refs elementRefs => arrayRefs_congr field
  have hmemory : (if size < 40 then (none : Option Bool)
      else if get32 m' (tag' + 36) < 32 ∨
        ¬ arrayFits size 40 (get32 m' (tag' + 32)) (get32 m' (tag' + 36)) then none
      else some false) = if size < 40 then none
      else if get32 m (tag + 36) < 32 ∨
        ¬ arrayFits size 40 (get32 m (tag + 32)) (get32 m (tag + 36)) then none
      else some false := by
    split
    · rfl
    · have hcount : get32 m' (tag' + 32) = get32 m (tag + 32) := field 32 4 (by omega) (by omega)
      have hstride : get32 m' (tag' + 36) = get32 m (tag + 36) := field 36 4 (by omega) (by omega)
      rw [hcount, hstride]
  have hpcie : (if size < 48 then (none : Option Bool)
      else if ¬ arrayFits size 48 (get32 m' (tag' + 40)) 168 then none
      else some (get64 m' (tag' + 32) != 0 || get32 m' (tag' + 40) != 0)) =
      if size < 48 then none
      else if ¬ arrayFits size 48 (get32 m (tag + 40)) 168 then none
      else some (get64 m (tag + 32) != 0 || get32 m (tag + 40) != 0) := by
    split
    · rfl
    · have hcount : get32 m' (tag' + 40) = get32 m (tag + 40) := field 40 4 (by omega) (by omega)
      have hbase : get64 m' (tag' + 32) = get64 m (tag + 32) := field 32 8 (by omega) (by omega)
      rw [hcount, hbase]
  unfold tagExternalReferences
  dsimp only
  rw [hid, hmemory, hpcie, hfixed 40 [] (by decide), hfixed 48 [] (by decide),
    hfixed 56 [32] (by decide), hfixed 56 [32, 40] (by decide), hfixed 48 [32, 40] (by decide),
    hfixed 64 [32, 40] (by decide), hfixed 80 [32, 56] (by decide),
    hfixed 128 [32, 64, 80, 96] (by decide), hfixed 64 [] (by decide),
    harray 72 (get16 m (tag + 40)) (get16 m' (tag' + 40)) 48 [32, 56] [32]
      (fun _ => field 40 2 (by omega) (by omega)) (by decide) (by decide) (by decide),
    harray 48 (get32 m (tag + 32)) (get32 m' (tag' + 32)) 48 [] [32]
      (fun _ => field 32 4 (by omega) (by omega)) (by decide) (by decide) (by decide),
    harray 40 (get32 m (tag + 32)) (get32 m' (tag' + 32)) 176 [] [0, 96]
      (fun _ => field 32 4 (by omega) (by omega)) (by decide) (by decide) (by decide),
    harray 72 (get32 m (tag + 40)) (get32 m' (tag' + 40)) 56 [] []
      (fun _ => field 40 4 (by omega) (by omega)) (by decide) (by decide) (by decide)]

end References

/-! ## INFO without its linkage -/

/-- The payload of entry 0: INFO from the loader's name to the CPU count,
a reserved field, and the next context. -/
def infoPayload (m : Mem) (info : Nat) : List UInt8 :=
  (List.range 104).map fun k =>
    if k < 92 then m (info + 24 + k) else if k < 96 then 0 else m (info + 32 + k)

@[simp] theorem infoPayload_length (m : Mem) (info : Nat) : (infoPayload m info).length = 104 := by
  rw [infoPayload, List.length_map, List.length_range]

/-- Bytes that are INFO without its linkage. -/
theorem bytes_eq_infoPayload :
    m'.bytes p 104 = infoPayload m info ↔ ∀ k < 104, m' (p + k) =
      if k < 92 then m (info + 24 + k) else if k < 96 then 0 else m (info + 32 + k) := by
  simp only [Mem.bytes, infoPayload, List.map_inj_left, List.mem_range]

/-- The payload is INFO's bytes, the ones in it. -/
theorem infoPayload_congr {info' : Nat}
    (h : ∀ i, 24 ≤ i → i < 116 ∨ 128 ≤ i → i < 136 → m' (info' + i) = m (info + i)) :
    infoPayload m' info' = infoPayload m info := by
  refine List.map_congr_left fun k hk => ?_
  have hk := List.mem_range.mp hk
  split
  next hlow =>
    rw [Nat.add_assoc, Nat.add_assoc]
    exact h (24 + k) (by omega) (by omega) (by omega)
  next hlow =>
    split
    · rfl
    · rw [Nat.add_assoc, Nat.add_assoc]
      exact h (32 + k) (by omega) (by omega) (by omega)

/-- The stores both bridges make for the fields that stand together in
INFO and in the payload. -/
def copyFields (m : Mem) (d s : Nat) : Mem :=
  let m := m.copy d s 32
  let m := m.copy (d + 32) (s + 32) 16
  let m := m.copy (d + 48) (s + 48) 16
  let m := put64 m (d + 64) (get64 m (s + 64))
  let m := put64 m (d + 72) (get64 m (s + 72))
  let m := put64 m (d + 80) (get64 m (s + 80))
  let m := put16 m (d + 88) (get16 m (s + 88))
  put16 m (d + 90) (get16 m (s + 90))

/-- Field by field, they are one copy. -/
theorem copyFields_copied {d s : Nat} (hdisj : s + 92 ≤ d ∨ d + 92 ≤ s) :
    Mem.Copied m (copyFields m d s) d s 92 := by
  have h0 := Mem.Copied.refl m d s
  have h1 := h0.copy (k := 32) (by omega)
  have h2 := h1.copy (k := 16) (by omega)
  have h3 := h2.copy (k := 16) (by omega)
  have h4 := h3.putLE (w := 8) (by omega)
  have h5 := h4.putLE (w := 8) (by omega)
  have h6 := h5.putLE (w := 8) (by omega)
  have h7 := h6.putLE (w := 2) (by omega)
  exact h7.putLE (w := 2) (by omega)

section Normalize

variable {m : Mem} {out info : Nat}

theorem normalizeInfo_eq (m : Mem) (out info : Nat) :
    normalizeInfo m out info = put64 (copyFields (m.fill out 104) out (info + 24)) (out + 96)
      (get64 (copyFields (m.fill out 104) out (info + 24)) (info + 128)) := rfl

theorem normalizeInfo_frame {a : Nat} (h : a < out ∨ out + 104 ≤ a) :
    normalizeInfo m out info a = m a := by
  simp (disch := omega) only [normalizeInfo, put64, put16, Mem.putLE_frame, Mem.copy_frame]
  rw [Mem.fill_apply, if_neg (by omega)]

theorem normalizeInfo_payload (hdisj : info + 144 ≤ out ∨ out + 104 ≤ info) :
    (normalizeInfo m out info).bytes out 104 = infoPayload m info := by
  have hcopied : Mem.Copied (m.fill out 104) _ out (info + 24) 92 := copyFields_copied (by omega)
  rw [normalizeInfo_eq]
  generalize copyFields (m.fill out 104) out (info + 24) = m₁ at hcopied ⊢
  have hsource : ∀ i < 144, m₁ (info + i) = m (info + i) := by
    intro i hi
    rw [hcopied.outside _ (by omega), Mem.fill_apply, if_neg (by omega)]
  refine List.map_congr_left fun k hk => ?_
  have hk := List.mem_range.mp hk
  split
  next hlow =>
    rw [put64, Mem.putLE_frame (by omega), hcopied.inside k hlow, Mem.fill_apply,
      if_neg (by omega)]
  next hlow =>
    split
    next hgap =>
      rw [put64, Mem.putLE_frame (by omega), hcopied.outside _ (by omega), Mem.fill_apply,
        if_pos (by omega)]
    next hgap =>
      have hload : get64 (put64 m₁ (out + 96) (get64 m₁ (info + 128))) (out + 96) =
          get64 m₁ (info + 128) := Mem.getLE_putLE (get64_lt _ _)
      have hbyte := Mem.getLE_inj hload (k - 96) (by omega)
      rw [show out + 96 + (k - 96) = out + k by omega,
        show info + 128 + (k - 96) = info + (32 + k) by omega, hsource _ (by omega)] at hbyte
      rw [hbyte, Nat.add_assoc]

end Normalize

/-! ## INFO with new linkage -/

/-- INFO stands at `info`, valid, with this linkage and the other fields
taken from the payload at `payload` of the memory `c`. -/
structure InfoRestored (c : Mem) (payload : Nat) (m : Mem) (info tagCount firstTag totalSize : Nat) :
    Prop where
  ok : InfoOk m info
  minor : get16 m (info + 18) = 1
  size : get32 m (info + 20) = totalSize
  count : infoTagCount m info = tagCount
  first : infoFirstTag m info = firstTag
  fields : ∀ k < 92, m (info + 24 + k) = c (payload + k)
  context : ∀ k, 96 ≤ k → k < 104 → m (info + 32 + k) = c (payload + k)

/-- Restored INFO is its bytes, and the payload's. -/
theorem InfoRestored.congr {c c' : Mem}
    {payload payload' info' tagCount firstTag totalSize : Nat}
    (h : InfoRestored c payload m info tagCount firstTag totalSize)
    (hc : ∀ k < 104, c' (payload' + k) = c (payload + k))
    (hm : ∀ i < 144, m' (info' + i) = m (info + i)) :
    InfoRestored c' payload' m' info' tagCount firstTag totalSize := by
  have field : ∀ o w, o + w ≤ 144 → m'.getLE (info' + o) w = m.getLE (info + o) w := by
    intro o w how
    refine Mem.getLE_congr fun i hi => ?_
    rw [Nat.add_assoc, Nat.add_assoc]
    exact hm (o + i) (by omega)
  refine ⟨h.ok.congr hm, (field 18 2 (by decide)).trans h.minor, (field 20 4 (by decide)).trans h.size,
    (field 116 4 (by decide)).trans h.count, (field 120 8 (by decide)).trans h.first, ?_, ?_⟩
  · intro k hk
    rw [hc k (by omega), ← h.fields k hk, Nat.add_assoc, Nat.add_assoc]
    exact hm _ (by omega)
  · intro k hlo hhi
    rw [hc k hhi, ← h.context k hlo hhi, Nat.add_assoc, Nat.add_assoc]
    exact hm _ (by omega)

section Restore

variable {m : Mem} {info payload tagCount firstTag totalSize : Nat}

theorem restoreInfo_frame {a : Nat} (h : a < info ∨ info + 144 ≤ a) :
    restoreInfo m info payload tagCount firstTag totalSize a = m a := by
  simp (disch := omega) only [restoreInfo, put64, put32, put16, Mem.putLE_frame, Mem.copy_frame]
  rw [Mem.blit_frame (by rw [show infoMagic.length = 16 from rfl]; omega), Mem.fill_apply,
    if_neg (by omega)]

/-- `restore_info` in four parts: the fixed fields, the copied ones, the
linkage and the seal. -/
theorem restoreInfo_eq (m : Mem) (info payload tagCount firstTag totalSize : Nat) :
    ∃ m₁ m₂ m₃, m₁ = put32 (put16 (put16 ((m.fill info 144).blit info infoMagic) (info + 16) 1)
        (info + 18) 1) (info + 20) totalSize ∧
      m₂ = copyFields m₁ (info + 24) payload ∧
      m₃ = put64 (put64 (put32 m₂ (info + 116) tagCount) (info + 120) firstTag) (info + 128)
        (get64 (put64 (put32 m₂ (info + 116) tagCount) (info + 120) firstTag) (payload + 96)) ∧
      restoreInfo m info payload tagCount firstTag totalSize =
        put64 m₃ (info + 136) (crcSkip m₃ info 144 136) :=
  ⟨_, _, _, rfl, rfl, rfl, rfl⟩

theorem restoreInfo_restored (hdisj : payload + 104 ≤ info ∨ info + 144 ≤ payload)
    (hcount : tagCount < 2 ^ 32) (hfirst : firstTag < 2 ^ 64) (hlow : 144 ≤ totalSize)
    (hhigh : totalSize ≤ v1MaxInfoSize) :
    InfoRestored m payload (restoreInfo m info payload tagCount firstTag totalSize) info tagCount
      firstTag totalSize := by
  have htotal : totalSize < 2 ^ 32 := Nat.lt_of_le_of_lt hhigh (by decide)
  obtain ⟨m₁, m₂, m₃, hm₁, hm₂, hm₃, heq⟩ :=
    restoreInfo_eq m info payload tagCount firstTag totalSize
  have hcopied : Mem.Copied m₁ m₂ (info + 24) payload 92 :=
    hm₂ ▸ copyFields_copied (by omega)
  obtain ⟨F, hF⟩ : ∃ F, restoreInfo m info payload tagCount firstTag totalSize = F := ⟨_, rfl⟩
  rw [hF] at heq ⊢
  have hpayload : ∀ k < 104, m₁ (payload + k) = m (payload + k) := by
    intro k hk
    rw [hm₁]
    simp (disch := omega) only [put32, put16, Mem.putLE_frame]
    rw [Mem.blit_frame (by rw [show infoMagic.length = 16 from rfl]; omega), Mem.fill_apply,
      if_neg (by omega)]
  have hF₃ : ∀ i < 136, F (info + i) = m₃ (info + i) := by
    intro i hi
    rw [heq, put64, Mem.putLE_frame (by omega)]
  have hF₂ : ∀ i < 116, F (info + i) = m₂ (info + i) := by
    intro i hi
    rw [hF₃ i (by omega), hm₃]
    simp (disch := omega) only [put64, put32, Mem.putLE_frame]
  have hF₁ : ∀ i < 24, F (info + i) = m₁ (info + i) := by
    intro i hi
    rw [hF₂ i (by omega)]
    exact hcopied.outside _ (by omega)
  have head : ∀ o w, o + w ≤ 24 → F.getLE (info + o) w = m₁.getLE (info + o) w := by
    intro o w how
    refine Mem.getLE_congr fun i hi => ?_
    rw [Nat.add_assoc]
    exact hF₁ (o + i) (by omega)
  have tail : ∀ o w, o + w ≤ 136 → F.getLE (info + o) w = m₃.getLE (info + o) w := by
    intro o w how
    refine Mem.getLE_congr fun i hi => ?_
    rw [Nat.add_assoc]
    exact hF₃ (o + i) (by omega)
  have hmajor : get16 F (info + 16) = 1 := by
    rw [get16, head 16 2 (by decide), hm₁]
    simp (disch := omega) only [put32, put16, Mem.getLE_putLE_frame, Mem.getLE_putLE]
  have hminor : get16 F (info + 18) = 1 := by
    rw [get16, head 18 2 (by decide), hm₁]
    simp (disch := omega) only [put32, put16, Mem.getLE_putLE_frame, Mem.getLE_putLE]
  have hsize : get32 F (info + 20) = totalSize := by
    rw [get32, head 20 4 (by decide), hm₁]
    exact Mem.getLE_putLE htotal
  have hmagic : F.bytes info 16 = infoMagic := by
    refine Eq.trans (Mem.bytes_congr fun i hi => ?_) ((m.fill info 144).bytes_blit info infoMagic)
    have hi : i < 16 := hi
    rw [hF₁ i (by omega), hm₁]
    simp (disch := omega) only [put32, put16, Mem.putLE_frame]
  have hcrc : get64 F (info + 136) = crcSpliced F info 144 136 := by
    rw [heq]
    exact put64_crcSkip (by decide)
  refine ⟨⟨hmagic, hmajor, by omega, ?_, hcrc⟩, hminor, hsize, ?_, ?_, ?_, ?_⟩
  · rw [hsize]
    exact hhigh
  · rw [infoTagCount, get32, tail 116 4 (by decide), hm₃]
    simp (disch := omega) only [put64, put32, Mem.getLE_putLE_frame, Mem.getLE_putLE]
  · rw [infoFirstTag, get64, tail 120 8 (by decide), hm₃]
    simp (disch := omega) only [put64, Mem.getLE_putLE_frame, Mem.getLE_putLE]
  · intro k hk
    rw [Nat.add_assoc, hF₂ (24 + k) (by omega), ← Nat.add_assoc, hcopied.inside k hk]
    exact hpayload k (by omega)
  · intro k hlo hhi
    have hload : get64 m₃ (info + 128) = get64 m (payload + 96) := by
      rw [hm₃, get64, put64, Mem.getLE_putLE (get64_lt _ _)]
      refine Mem.getLE_congr fun i hi => ?_
      simp (disch := omega) only [put64, put32, Mem.putLE_frame]
      rw [hcopied.outside _ (by omega), Nat.add_assoc, hpayload _ (by omega)]
    have hbyte := Mem.getLE_inj hload (k - 96) (by omega)
    rw [show info + 128 + (k - 96) = info + (32 + k) by omega,
      show payload + 96 + (k - 96) = payload + k by omega, ← hF₃ _ (by omega)] at hbyte
    rw [Nat.add_assoc, hbyte]

end Restore

/-! ## A tag without its linkage -/

/-- The payload of a tag's entry: its bytes, the next pointer and the
checksum zeroed. -/
def unlinked (m : Mem) (tag size : Nat) : List UInt8 :=
  (List.range size).map fun k => if 16 ≤ k ∧ k < 32 then 0 else m (tag + k)

@[simp] theorem unlinked_length (m : Mem) (tag size : Nat) : (unlinked m tag size).length = size := by
  rw [unlinked, List.length_map, List.length_range]

/-- Bytes that are a tag without its linkage. -/
theorem bytes_eq_unlinked {tag : Nat} :
    m'.bytes p size = unlinked m tag size ↔
      ∀ i < size, m' (p + i) = if 16 ≤ i ∧ i < 32 then 0 else m (tag + i) := by
  simp only [Mem.bytes, unlinked, List.map_inj_left, List.mem_range]

/-- Tags that differ in their linkage only are the same payload. -/
theorem unlinked_congr {tag tag' : Nat}
    (h : ∀ k < size, ¬ (16 ≤ k ∧ k < 32) → m' (tag' + k) = m (tag + k)) :
    unlinked m' tag' size = unlinked m tag size := by
  refine List.map_congr_left fun k hk => ?_
  split
  · rfl
  next hout => exact h k (List.mem_range.mp hk) hout

end BearBoot.Bridge
