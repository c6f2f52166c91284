import BearBoot.Loader.Tables

/-!
# The first four gibibytes, mapped twice

What the tables translate before the first segment is mapped. `lowMap low b h`
is that map while it is being built: the addresses of `[low, b)` at
themselves and those of `[0, h)` at the higher half, all writable, none
no-execute. Each turn of the loop over `mb` moves the two bounds by two
mebibytes (`mapLarge_spec`), each turn of the loop over `gb` by a gibibyte
(`mapGigabyte_spec`), and `mapLow_spec` has both at four gibibytes, with
`low` at 4096 where page 0 is left out.

The loops store into entries that were never written. That is part of their
invariants (`Unused`), since an entry without a translation may still be a
link.
-/

set_option autoImplicit false

namespace BearBoot.Loader

open Machine Machine.Paging

variable {m : Mem} {t k low b h v : Nat}

/-- `[low, b)` at itself and `[0, h)` at the higher half. -/
def lowMap (low b h v : Nat) : Option Translation :=
  if low ≤ v % 2 ^ 48 ∧ v % 2 ^ 48 < b then some ⟨v % 2 ^ 48, true, false⟩
  else if 2 ^ 47 ≤ v % 2 ^ 48 ∧ v % 2 ^ 48 < 2 ^ 47 + h then some ⟨v % 2 ^ 48 - 2 ^ 47, true, false⟩
  else none

/-- The entries of the table `t` from `k` on are zero. -/
def Unused (m : Mem) (t k : Nat) : Prop := ∀ i, k ≤ i → i < 512 → entry m t i = 0

theorem Unused.absent {i : Nat} (h : Unused m t k) (hk : k ≤ i) (hi : i < 512) :
    present (entry m t i) = false := by
  rw [h i hk hi]
  decide

/-- A store elsewhere leaves unused entries unused. -/
theorem Unused.put {j : Nat} (h : Unused m t k) (hk : k ≤ j) {a e : Nat}
    (ha : a + 8 ≤ t + 8 * j ∨ t + 4096 ≤ a) : Unused (put64 m a e) t j := by
  intro i hi hlt
  rw [← h i (Nat.le_trans hk hi) hlt]
  exact Mem.getLE_putLE_frame (by omega)

theorem Unused.congr {m' : Mem} (h : Unused m t k)
    (heq : ∀ i < 4096, m' (t + i) = m (t + i)) : Unused m' t k := by
  intro i hi hlt
  rw [← h i hi hlt]
  refine Mem.getLE_congr fun j hj => ?_
  rw [Nat.add_assoc]
  exact heq _ (by omega)

/-- A page of zeros is unused. -/
theorem unused_of_zero (hzero : ∀ i < 4096, m (t + i) = 0) (k : Nat) : Unused m t k := by
  intro i _ hi
  refine Mem.getLE_eq_zero_iff.mpr fun j hj => ?_
  rw [Nat.add_assoc]
  exact hzero _ (by omega)

/-! ## The map grows -/

theorem page_large {p : Nat} (hp : 0x200000 ∣ p) (hlt : p < 2 ^ 48) (u : Nat) :
    page (p + 131) u 1 true false = ⟨p + u % 0x200000, true, false⟩ := by
  obtain ⟨q, rfl⟩ := hp
  have hw : writable (0x200000 * q + 131) = true := by rw [writable_eq, decide_eq_true_eq]; omega
  have hx : noExecute (0x200000 * q + 131) = false := by
    rw [noExecute_eq, decide_eq_false_iff_not]; omega
  have hf : frame (0x200000 * q + 131) (shift 1) = 0x200000 * q := by
    unfold frame shift
    omega
  rw [page, hw, hx, hf]
  rfl

theorem page_small {p : Nat} (hp : 4096 ∣ p) (hlt : p < 2 ^ 48) (u : Nat) :
    page (p + 3) u 0 true false = ⟨p + u % 4096, true, false⟩ := by
  obtain ⟨q, rfl⟩ := hp
  have hw : writable (4096 * q + 3) = true := by rw [writable_eq, decide_eq_true_eq]; omega
  have hx : noExecute (4096 * q + 3) = false := by rw [noExecute_eq, decide_eq_false_iff_not]; omega
  have hf : frame (4096 * q + 3) (shift 0) = 4096 * q := by
    unfold frame shift
    omega
  rw [page, hw, hx, hf]
  rfl

/-- Two mebibytes more at the higher half. -/
theorem lowMap_higher (hh : 0x200000 ∣ h) (hlt : h < 2 ^ 32) (hb : b ≤ 2 ^ 32) (u : Nat) :
    lowMap low b (h + 0x200000) u =
      if u % 2 ^ 48 / 0x200000 = (2 ^ 47 + h) / 0x200000 then some ⟨h + u % 0x200000, true, false⟩
      else lowMap low b h u := by
  obtain ⟨q, rfl⟩ := hh
  by_cases hsame : u % 2 ^ 48 / 0x200000 = (2 ^ 47 + 0x200000 * q) / 0x200000
  · have hoff : u % 2 ^ 48 - 2 ^ 47 = 0x200000 * q + u % 0x200000 := by omega
    rw [if_pos hsame, lowMap, if_neg (by omega), if_pos (by omega), hoff]
  · rw [if_neg hsame]
    unfold lowMap
    split
    · rfl
    · refine if_congr ?_ rfl rfl
      omega

/-- One page, large or not, more at its own address. -/
theorem lowMap_lower {size : Nat} (hsize : size = 0x200000 ∨ size = 4096) (hb : size ∣ b)
    (hlow : low ≤ b) (hlt : b < 2 ^ 32) (u : Nat) :
    lowMap low (b + size) h u =
      if u % 2 ^ 48 / size = b / size then some ⟨b + u % size, true, false⟩ else lowMap low b h u := by
  obtain ⟨q, rfl⟩ := hb
  by_cases hsame : u % 2 ^ 48 / size = size * q / size
  · have hmod : u % 2 ^ 48 = size * q + u % size ∧ u % 2 ^ 48 < size * q + size := by
      rcases hsize with rfl | rfl <;> omega
    rw [if_pos hsame, lowMap, if_pos (by omega), ← hmod.1]
  · have hout : ¬ (size * q ≤ u % 2 ^ 48 ∧ u % 2 ^ 48 < size * q + size) := by
      rcases hsize with rfl | rfl <;> omega
    rw [if_neg hsame]
    unfold lowMap
    by_cases hin : low ≤ u % 2 ^ 48 ∧ u % 2 ^ 48 < size * q
    · rw [if_pos hin, if_pos (by omega)]
    · rw [if_neg hin, if_neg (by omega)]

theorem lowMap_empty (hb : b ≤ low) (u : Nat) : lowMap low b h u = lowMap low low h u := by
  have hno : ¬ (low ≤ u % 2 ^ 48 ∧ u % 2 ^ 48 < b) := by omega
  have hno' : ¬ (low ≤ u % 2 ^ 48 ∧ u % 2 ^ 48 < low) := by omega
  rw [lowMap, lowMap, if_neg hno, if_neg hno']

theorem region_one (v : Nat) : region v 1 = v % 2 ^ 48 / 0x200000 := rfl

theorem region_zero (v : Nat) : region v 0 = v % 2 ^ 48 / 4096 := rfl

section Low

variable {m₀ m : Mem} {root hi stop low b h : Nat}

/-- A large page more, to wherever it leads. -/
theorem Grown.largePage {p : Nat} (hg : Grown m₀ root hi stop m) (hr : Reach m root v 1 t)
    (hnone : present (entry m t (index v 1)) = false) (hp : 0x200000 ∣ p) (hlt : p < 2 ^ 32) :
    let m' := put64 m (slot t (index v 1)) (p ||| ptePresent ||| pteWritable ||| pteLarge)
    Grown m₀ root hi stop m' ∧
      (∀ u, translate m' root u = if region u 1 = region v 1 then some ⟨p + u % 0x200000, true, false⟩
        else translate m root u) ∧
      ∀ {u k t'}, Reach m root u k t' → Reach m' root u k t' := by
  dsimp only
  rw [large_bits hp]
  obtain ⟨hg', htr', hmono⟩ := hg.leaf hr hnone (e := p + 131) (by omega)
    (by rw [present_eq, decide_eq_true_eq]; omega)
    (Or.inr ⟨by rw [large_eq, decide_eq_true_eq]; omega, by decide⟩)
  refine ⟨hg', fun u => ?_, hmono⟩
  rw [htr' u, page_large hp (by omega)]

/-- Two mebibytes more at the higher half. -/
theorem Grown.higher (hg : Grown m₀ root hi stop m) (hr : Reach m root v 1 t)
    (hnone : present (entry m t (index v 1)) = false) (htr : ∀ u, translate m root u = lowMap low b h u)
    (hv : v = 2 ^ 47 + h) (hh : 0x200000 ∣ h) (hlt : h < 2 ^ 32) (hb : b ≤ 2 ^ 32) :
    let m' := put64 m (slot t (index v 1)) (h ||| ptePresent ||| pteWritable ||| pteLarge)
    Grown m₀ root hi stop m' ∧ (∀ u, translate m' root u = lowMap low b (h + 0x200000) u) ∧
      ∀ {u k t'}, Reach m root u k t' → Reach m' root u k t' := by
  obtain ⟨hg', htr', hmono⟩ := hg.largePage hr hnone hh hlt
  refine ⟨hg', fun u => ?_, hmono⟩
  have hregion : region v 1 = (2 ^ 47 + h) / 0x200000 := by
    rw [region_one]
    omega
  rw [htr' u, htr u, lowMap_higher hh hlt hb, hregion, region_one]

/-- Two mebibytes more at their own addresses. -/
theorem Grown.lower (hg : Grown m₀ root hi stop m) (hr : Reach m root v 1 t)
    (hnone : present (entry m t (index v 1)) = false) (htr : ∀ u, translate m root u = lowMap low v h u)
    (hh : 0x200000 ∣ v) (hlow : low ≤ v) (hlt : v < 2 ^ 32) :
    let m' := put64 m (slot t (index v 1)) (v ||| ptePresent ||| pteWritable ||| pteLarge)
    Grown m₀ root hi stop m' ∧ (∀ u, translate m' root u = lowMap low (v + 0x200000) h u) ∧
      ∀ {u k t'}, Reach m root u k t' → Reach m' root u k t' := by
  obtain ⟨hg', htr', hmono⟩ := hg.largePage hr hnone hh hlt
  refine ⟨hg', fun u => ?_, hmono⟩
  have hregion : region v 1 = v / 0x200000 := by
    rw [region_one]
    omega
  rw [htr' u, htr u, lowMap_lower (Or.inl rfl) hh hlow hlt, hregion, region_one]

/-- One page more at its own address. -/
theorem Grown.pageLower (hg : Grown m₀ root hi stop m) (hr : Reach m root v 0 t)
    (htr : ∀ u, translate m root u = lowMap low v h u) (hh : 4096 ∣ v) (hlow : low ≤ v) (hlt : v < 2 ^ 21) :
    let m' := put64 m (slot t (index v 0)) (v ||| ptePresent ||| pteWritable)
    Grown m₀ root hi stop m' ∧ (∀ u, translate m' root u = lowMap low (v + 4096) h u) ∧
      ∀ {u k t'}, Reach m root u k t' → Reach m' root u k t' := by
  have hnone : translate m root v = none := by
    rw [htr v, lowMap, if_neg (by omega), if_neg (by omega)]
  dsimp only
  rw [link_bits hh]
  obtain ⟨hg', htr', hmono⟩ := hg.leaf hr (hg.tables.absent hr hnone) (e := v + 3) (by omega)
    (by rw [present_eq, decide_eq_true_eq]; omega) (Or.inl rfl)
  refine ⟨hg', fun u => ?_, hmono⟩
  have hregion : region v 0 = v / 4096 := by
    rw [region_zero]
    omega
  rw [htr' u, htr u, page_small hh (by omega), lowMap_lower (Or.inr rfl) hh hlow (by omega), hregion,
    region_zero]

theorem firstPages_frame {start n a : Nat} (hn : start + n ≤ 512) (ha : a < t ∨ t + 4096 ≤ a) :
    firstPages t start m n a = m a := by
  induction n with
  | zero => rfl
  | succ n ih =>
    rw [firstPages, slot, put64, Mem.putLE_frame (by omega)]
    exact ih (by omega)

/-- The first page table maps its pages one by one. -/
theorem firstPages_spec (start n : Nat) (hg : Grown m₀ root hi stop m) (hr : Reach m root 0 0 t)
    (htr : ∀ u, translate m root u = lowMap (start * 4096) (start * 4096) h u) (hn : start + n ≤ 512) :
    Grown m₀ root hi stop (firstPages t start m n) ∧
      (∀ u, translate (firstPages t start m n) root u = lowMap (start * 4096) ((start + n) * 4096) h u) ∧
      ∀ {u k t'}, Reach m root u k t' → Reach (firstPages t start m n) root u k t' := by
  induction n with
  | zero => exact ⟨hg, htr, id⟩
  | succ n ih =>
    obtain ⟨hg', htr', hmono⟩ := ih (by omega)
    have hregion : region 0 1 = region ((start + n) * 4096) 1 := by
      rw [region_one, region_one]
      omega
    have hindex : index ((start + n) * 4096) 0 = start + n := by
      unfold index shift
      omega
    obtain ⟨hg'', htr'', hmono'⟩ := hg'.pageLower ((hmono hr).congr hregion) htr'
      (Nat.dvd_mul_left _ _) (Nat.mul_le_mul_right _ (Nat.le_add_right _ _)) (by omega)
    rw [hindex] at hg'' htr'' hmono'
    refine ⟨hg'', fun u => ?_, fun hu => hmono' (hmono hu)⟩
    rw [show (start + (n + 1)) * 4096 = (start + n) * 4096 + 4096 by omega]
    exact htr'' u

end Low

/-! ## The loops -/

/-- The first page of the map at its own address. -/
def firstPage (unmapNull : Bool) : Nat := if unmapNull then 1 else 0

/-- Between two turns of the loop over `mb`. -/
structure LargeInv (m₀ : Mem) (root stop : Nat) (unmapNull : Bool) (gb identityPd hhdmPd : Nat) (m₁ : Mem)
    (mb : Nat) (s : Space) : Prop where
  growing : Growing m₀ root stop s
  map : ∀ v, translate s.mem root v =
    lowMap (firstPage unmapNull * 4096) (gb * 0x40000000 + mb * 0x200000) (gb * 0x40000000 + mb * 0x200000) v
  identity : Reach s.mem root (gb * 0x40000000) 1 identityPd
  hhdm : Reach s.mem root (2 ^ 47 + gb * 0x40000000) 1 hhdmPd
  apart : identityPd + 4096 ≤ hhdmPd
  unusedIdentity : Unused s.mem identityPd mb
  unusedHhdm : Unused s.mem hhdmPd mb
  kept : ∀ a < identityPd, s.mem a = m₁ a

/-- Inside a turn of the loop over `mb`: the higher half is one large page
ahead of the map at its own address. -/
structure HalfInv (m₀ : Mem) (root stop : Nat) (unmapNull : Bool) (gb identityPd hhdmPd : Nat) (m₁ : Mem)
    (mb : Nat) (s : Space) : Prop where
  growing : Growing m₀ root stop s
  map : ∀ v, translate s.mem root v = lowMap (firstPage unmapNull * 4096)
    (gb * 0x40000000 + mb * 0x200000) (gb * 0x40000000 + mb * 0x200000 + 0x200000) v
  identity : Reach s.mem root (gb * 0x40000000) 1 identityPd
  hhdm : Reach s.mem root (2 ^ 47 + gb * 0x40000000) 1 hhdmPd
  apart : identityPd + 4096 ≤ hhdmPd
  unusedIdentity : Unused s.mem identityPd mb
  unusedHhdm : Unused s.mem hhdmPd (mb + 1)
  kept : ∀ a < identityPd, s.mem a = m₁ a

section Large

variable {m₀ m₁ : Mem} {root stop gb identityPd hhdmPd mb : Nat} {unmapNull : Bool} {s s' : Space}

theorem firstPage_le (unmapNull : Bool) : firstPage unmapNull ≤ 1 := by
  unfold firstPage
  split <;> omega

/-- The entry of the higher half, which every turn stores first. -/
theorem LargeInv.higher (hinv : LargeInv m₀ root stop unmapNull gb identityPd hhdmPd m₁ mb s)
    (hgb : gb < 4) (hmb : mb < 512) :
    HalfInv m₀ root stop unmapNull gb identityPd hhdmPd m₁ mb ⟨s.pool, put64 s.mem (slot hhdmPd mb)
      (gb * 0x40000000 + mb * 0x200000 ||| ptePresent ||| pteWritable ||| pteLarge)⟩ := by
  obtain ⟨hg, hmap, hidentity, hhhdm, hapart, hunusedI, hunusedH, hkept⟩ := hinv
  have hindex : index (2 ^ 47 + (gb * 0x40000000 + mb * 0x200000)) 1 = mb := by
    unfold index shift
    omega
  have hreach : Reach s.mem root (2 ^ 47 + (gb * 0x40000000 + mb * 0x200000)) 1 hhdmPd :=
    hhhdm.congr (by unfold region shift; omega)
  obtain ⟨hg', hmap', hmono⟩ := hg.grown.higher hreach
    (by rw [hindex]; exact hunusedH.absent (Nat.le_refl _) hmb) hmap rfl (by omega) (by omega) (by omega)
  rw [hindex] at hg' hmap' hmono
  refine ⟨⟨hg', hg.stop_eq, hg.base⟩, hmap', hmono hidentity, hmono hhhdm, hapart,
    hunusedI.put (Nat.le_refl _) (by unfold slot; omega),
    hunusedH.put (Nat.le_succ mb) (by unfold slot; omega), fun a ha => ?_⟩
  rw [← hkept a ha]
  exact Mem.putLE_frame (by unfold slot; omega)

/-- The entry at its own address, which the identity directory lacks. -/
theorem HalfInv.absent (hhalf : HalfInv m₀ root stop unmapNull gb identityPd hhdmPd m₁ mb s)
    (hmb : mb < 512) :
    index (gb * 0x40000000 + mb * 0x200000) 1 = mb ∧
      Reach s.mem root (gb * 0x40000000 + mb * 0x200000) 1 identityPd ∧
      present (entry s.mem identityPd mb) = false := by
  refine ⟨?_, hhalf.identity.congr ?_, hhalf.unusedIdentity.absent (Nat.le_refl _) hmb⟩
  · unfold index shift
    omega
  · unfold region shift
    omega

/-- Every turn but the first maps a large page at its own address. -/
theorem HalfInv.lower (hhalf : HalfInv m₀ root stop unmapNull gb identityPd hhdmPd m₁ mb s)
    (hgb : gb < 4) (hmb : mb < 512) (hne : gb * 0x40000000 + mb * 0x200000 ≠ 0) :
    LargeInv m₀ root stop unmapNull gb identityPd hhdmPd m₁ (mb + 1)
      ⟨s.pool, put64 s.mem (slot identityPd mb)
        (gb * 0x40000000 + mb * 0x200000 ||| ptePresent ||| pteWritable ||| pteLarge)⟩ := by
  obtain ⟨hindex, hreach, hnone⟩ := hhalf.absent hmb
  obtain ⟨hg, hmap, hidentity, hhhdm, hapart, hunusedI, hunusedH, hkept⟩ := hhalf
  have hfirst := firstPage_le unmapNull
  obtain ⟨hg', hmap', hmono⟩ := hg.grown.lower hreach (by rw [hindex]; exact hnone) hmap
    (by omega) (by omega) (by omega)
  rw [hindex] at hg' hmap' hmono
  have hnext : gb * 0x40000000 + (mb + 1) * 0x200000 = gb * 0x40000000 + mb * 0x200000 + 0x200000 := by
    omega
  refine ⟨⟨hg', hg.stop_eq, hg.base⟩, ?_, hmono hidentity, hmono hhhdm, hapart,
    hunusedI.put (Nat.le_succ mb) (by unfold slot; omega),
    hunusedH.put (Nat.le_refl _) (by unfold slot; omega), fun a ha => ?_⟩
  · rw [hnext]
    exact hmap'
  · rw [← hkept a ha]
    exact Mem.putLE_frame (by unfold slot; omega)

/-- The first turn takes a page from the pool and maps the first two
mebibytes page by page, the page at address 0 on request not. -/
theorem HalfInv.first (hhalf : HalfInv m₀ root stop unmapNull 0 identityPd hhdmPd m₁ 0 s)
    (hroom : s.pool.next + 4096 ≤ stop) :
    LargeInv m₀ root stop unmapNull 0 identityPd hhdmPd m₁ 1
      ⟨s.pool.taken, firstPages s.pool.next (firstPage unmapNull)
        (put64 s.mem (slot identityPd 0) (s.pool.next ||| ptePresent ||| pteWritable))
        (512 - firstPage unmapNull)⟩ := by
  obtain ⟨hindex, hreach, hnone⟩ := hhalf.absent (by decide)
  obtain ⟨hg, hmap, hidentity, hhhdm, hapart, hunusedI, hunusedH, hkept⟩ := hhalf
  have hfirst := firstPage_le unmapNull
  obtain ⟨_, _, hhhdmHi⟩ := hg.grown.reach hhhdm
  obtain ⟨hg₁, hmap₁, hmono₁, hreach₁⟩ := hg.grown.link hroom hreach (by rw [hindex]; exact hnone)
  rw [hindex] at hg₁ hmap₁ hmono₁ hreach₁
  have hpt := hreach₁ (u := 0) rfl
  have hframe₁ : ∀ a, a < identityPd ∨ identityPd + 4096 ≤ a →
      put64 s.mem (slot identityPd 0) (s.pool.next ||| ptePresent ||| pteWritable) a = s.mem a :=
    fun a ha => Mem.putLE_frame (by unfold slot; omega)
  have hunusedI₁ := hunusedI.put (Nat.zero_le 1) (a := slot identityPd 0)
    (e := s.pool.next ||| ptePresent ||| pteWritable) (by unfold slot; omega)
  generalize put64 s.mem (slot identityPd 0) (s.pool.next ||| ptePresent ||| pteWritable) = m₂
    at hg₁ hmap₁ hmono₁ hpt hframe₁ hunusedI₁ ⊢
  have hmap₁' : ∀ u, translate m₂ root u =
      lowMap (firstPage unmapNull * 4096) (firstPage unmapNull * 4096) 0x200000 u := by
    intro u
    rw [hmap₁ u, hmap u]
    exact lowMap_empty (Nat.zero_le _) u
  obtain ⟨hg₂, hmap₂, hmono₂⟩ := firstPages_spec (firstPage unmapNull) (512 - firstPage unmapNull)
    hg₁ hpt hmap₁' (by omega)
  have hframe₂ : ∀ a, a < s.pool.next →
      firstPages s.pool.next (firstPage unmapNull) m₂ (512 - firstPage unmapNull) a = m₂ a :=
    fun a ha => firstPages_frame (by omega) (Or.inl ha)
  refine ⟨hg.taken hg₂, fun u => ?_, hmono₂ (hmono₁ hidentity), hmono₂ (hmono₁ hhhdm), hapart,
    hunusedI₁.congr fun i hi => hframe₂ _ (by omega),
    hunusedH.congr fun i hi => (hframe₂ _ (by omega)).trans (hframe₁ _ (by omega)), fun a ha => ?_⟩
  · rw [show (firstPage unmapNull + (512 - firstPage unmapNull)) * 4096 = 0x200000 by omega] at hmap₂
    exact hmap₂ u
  · exact (hframe₂ a (by omega)).trans ((hframe₁ a (by omega)).trans (hkept a ha))

theorem mapLarge_spec (hinv : LargeInv m₀ root stop unmapNull gb identityPd hhdmPd m₁ mb s) (hgb : gb < 4)
    (hmb : mb < 512) (heq : mapLarge gb identityPd hhdmPd unmapNull mb s = some s') :
    LargeInv m₀ root stop unmapNull gb identityPd hhdmPd m₁ (mb + 1) s' := by
  have hhalf := hinv.higher hgb hmb
  unfold mapLarge at heq
  dsimp only at heq
  split at heq
  next hne =>
    cases heq
    exact hhalf.lower hgb hmb hne
  next hzero =>
    obtain ⟨rfl, rfl⟩ : gb = 0 ∧ mb = 0 := by omega
    rcases hhalf.growing.tableNew_cases with hno | ⟨hroom, hnew⟩
    · rw [hno] at heq
      cases heq
    · rw [hnew] at heq
      dsimp only at heq
      rw [if_neg hhalf.growing.next_ne] at heq
      cases heq
      exact hhalf.first hroom

end Large

/-- A page is taken from the pool, or the pool is empty and `0` is answered. -/
theorem tableNew_eq {pool : PagePool} (hle : pool.next ≤ pool.stop) (hne : (tableNew pool).1 ≠ 0) :
    pool.next + 4096 ≤ pool.stop ∧ tableNew pool = (pool.next, pool.taken) := by
  rcases tableNew_cases hle with hno | hsome
  · rw [hno] at hne
    exact absurd rfl hne
  · exact hsome

/-- Two tables of the pool are linked, in two entries none of which was
present. The map is what it was, and only these two entries are written. -/
theorem Grown.linkBoth {m₀ : Mem} {root hi stop w n t' i j : Nat} (hg : Grown m₀ root hi stop m)
    (hroom : hi + 4096 + 4096 ≤ stop) (hr : Reach m root v (n + 1) t) (hr' : Reach m root w (n + 1) t')
    (hv : index v (n + 1) = i) (hw : index w (n + 1) = j) (hnone : present (entry m t i) = false)
    (hnone' : present (entry m t' j) = false) (hapart : slot t i + 8 ≤ slot t' j) :
    let m' := put64 (put64 m (slot t i) (hi ||| ptePresent ||| pteWritable)) (slot t' j)
      (hi + 4096 ||| ptePresent ||| pteWritable)
    Grown m₀ root (hi + 4096 + 4096) stop m' ∧ (∀ u, translate m' root u = translate m root u) ∧
      (∀ {u k p}, Reach m root u k p → Reach m' root u k p) ∧
      Reach m' root v n hi ∧ Reach m' root w n (hi + 4096) := by
  subst hv hw
  obtain ⟨hg₁, hmap₁, hmono₁, hreach₁⟩ := hg.link (by omega) hr hnone
  have hsame : entry (put64 m (slot t (index v (n + 1))) (hi ||| ptePresent ||| pteWritable)) t'
      (index w (n + 1)) = entry m t' (index w (n + 1)) :=
    Mem.getLE_putLE_frame (Or.inr hapart)
  obtain ⟨hg₂, hmap₂, hmono₂, hreach₂⟩ := hg₁.link hroom (hmono₁ hr') (by rw [hsame]; exact hnone')
  exact ⟨hg₂, fun u => (hmap₂ u).trans (hmap₁ u), fun hu => hmono₂ (hmono₁ hu), hmono₂ (hreach₁ rfl),
    hreach₂ rfl⟩

/-- Between two turns of the loop over `gb`. -/
structure GigabyteInv (m₀ : Mem) (root stop : Nat) (unmapNull : Bool) (identityPdpt hhdmPdpt gb : Nat)
    (s : Space) : Prop where
  growing : Growing m₀ root stop s
  map : ∀ v, translate s.mem root v =
    lowMap (firstPage unmapNull * 4096) (gb * 0x40000000) (gb * 0x40000000) v
  identity : Reach s.mem root 0 2 identityPdpt
  hhdm : Reach s.mem root (2 ^ 47) 2 hhdmPdpt
  apart : identityPdpt + 4096 ≤ hhdmPdpt
  unusedIdentity : Unused s.mem identityPdpt gb
  unusedHhdm : Unused s.mem hhdmPdpt gb

theorem mapGigabyte_spec {m₀ : Mem} {root stop identityPdpt hhdmPdpt gb : Nat} {unmapNull : Bool}
    {s s' : Space} (hinv : GigabyteInv m₀ root stop unmapNull identityPdpt hhdmPdpt gb s) (hgb : gb < 4)
    (heq : mapGigabyte identityPdpt hhdmPdpt unmapNull gb s = some s') :
    GigabyteInv m₀ root stop unmapNull identityPdpt hhdmPdpt (gb + 1) s' := by
  obtain ⟨hg, hmap, hidentity, hhhdm, hapart, hunusedI, hunusedH⟩ := hinv
  unfold mapGigabyte at heq
  dsimp only at heq
  split at heq
  · cases heq
  next hne =>
    simp only [not_or] at hne
    obtain ⟨hne, hne'⟩ := hne
    -- Two pages of the pool, for the two directories.
    have hstop : s.pool.stop = stop := hg.stop_eq
    have hstop' : s.pool.taken.stop = stop := hg.stop_eq
    obtain ⟨hroom, hnew⟩ := tableNew_eq (hstop ▸ hg.grown.hi_le) hne
    rw [hnew] at hne' heq
    dsimp only at hne' heq
    obtain ⟨hroom', hnew'⟩ := tableNew_eq (by rw [next_taken]; exact hroom) hne'
    rw [next_taken, hstop'] at hroom'
    rw [hnew', next_taken] at heq
    dsimp only at heq
    -- Their links.
    obtain ⟨_, hinHhdmLo, hinHhdm⟩ := hg.grown.reach hhhdm
    obtain ⟨hg₁, hmap₁, hmono₁, hpdI, hpdH⟩ := hg.grown.linkBoth (v := gb * 0x40000000)
      (w := 2 ^ 47 + gb * 0x40000000) (i := gb) (j := gb) hroom'
      (hidentity.congr (by unfold region shift; omega)) (hhhdm.congr (by unfold region shift; omega))
      (by unfold index shift; omega) (by unfold index shift; omega)
      (hunusedI.absent (Nat.le_refl _) (by omega)) (hunusedH.absent (Nat.le_refl _) (by omega))
      (by unfold slot; omega)
    have hput : ∀ {t k j}, Unused s.mem t k → k ≤ j → slot identityPdpt gb + 8 ≤ t + 8 * j →
        slot hhdmPdpt gb + 8 ≤ t + 8 * j ∨ t + 4096 ≤ slot hhdmPdpt gb →
        Unused (put64 (put64 s.mem (slot identityPdpt gb) (s.pool.next ||| ptePresent ||| pteWritable))
          (slot hhdmPdpt gb) (s.pool.next + 4096 ||| ptePresent ||| pteWritable)) t j :=
      fun hu hk hle hle' => (hu.put hk (Or.inl hle)).put (Nat.le_refl _) hle'
    generalize put64 (put64 s.mem (slot identityPdpt gb) (s.pool.next ||| ptePresent ||| pteWritable))
      (slot hhdmPdpt gb) (s.pool.next + 4096 ||| ptePresent ||| pteWritable) = m₁
      at hg₁ hmap₁ hmono₁ hpdI hpdH hput heq
    have hfresh : ∀ t, s.pool.next ≤ t → t + 4096 ≤ stop → Unused m₁ t 0 := fun t hlo hhi =>
      hput (unused_of_zero (fun i hi => hg.grown.zero _ (by omega) (by omega)) 0) (Nat.le_refl 0)
        (by unfold slot; omega) (by unfold slot; omega)
    -- The loop over the two directories.
    have hstart : LargeInv m₀ root stop unmapNull gb s.pool.next (s.pool.next + 4096) m₁ 0
        ⟨s.pool.taken.taken, m₁⟩ := by
      refine ⟨⟨?_, hg.stop_eq, hg.base⟩, fun v => ?_, hpdI, hpdH, Nat.le_refl _,
        hfresh _ (by omega) (by omega), hfresh _ (by omega) (by omega), fun _ _ => rfl⟩
      · rw [next_taken, next_taken]
        exact hg₁
      · rw [hmap₁ v, hmap v, Nat.zero_mul, Nat.add_zero]
    have hdone := forUpTo_some (LargeInv m₀ root stop unmapNull gb s.pool.next (s.pool.next + 4096) m₁)
      hstart (fun mb hmb b b' hb hbody => mapLarge_spec hb hgb hmb hbody) heq
    have hkept : ∀ t, t + 4096 ≤ s.pool.next → ∀ i < 4096, s'.mem (t + i) = m₁ (t + i) :=
      fun t ht i hi => hdone.kept _ (by omega)
    -- The root's entries are as they were, so the two tables under it are still reached.
    have hroot : ∀ {v t}, Reach m₁ root v 2 t → Reach s'.mem root v 2 t := by
      intro v t hr
      refine hr.frame fun n' t' hlt hr' => ?_
      obtain rfl : n' = 3 := by have := hr'.level_le; omega
      rw [← Reach.root.unique hr']
      have hlt' := index_lt v 3
      refine Mem.getLE_congr fun j hj => ?_
      rw [Nat.add_assoc]
      exact hkept _ (hg.grown.reach (v := v) .root).2.2 _ (by omega)
    refine ⟨hdone.growing, fun v => ?_, hroot (hmono₁ hidentity), hroot (hmono₁ hhhdm), hapart, ?_, ?_⟩
    · rw [hdone.map v, show gb * 0x40000000 + 512 * 0x200000 = (gb + 1) * 0x40000000 by omega]
    · exact (hput hunusedI (Nat.le_succ gb) (by unfold slot; omega)
        (by unfold slot; omega)).congr (hkept _ (by omega))
    · exact (hput hunusedH (Nat.le_succ gb) (by unfold slot; omega)
        (by unfold slot; omega)).congr (hkept _ (by omega))

/-! ## Before the segments -/

/-- A pool of pages the loader can build tables in: aligned, not at address
0, below `2 ^ 48`, and zeroed from the first page that is not used. -/
structure PagePool.Fresh (pool : PagePool) (m : Mem) : Prop where
  base_ne : pool.base ≠ 0
  aligned : 4096 ∣ pool.base
  used_le : pool.used ≤ pool.count
  stop_le : pool.stop ≤ 2 ^ 48
  zero : ∀ a, pool.next ≤ a → a < pool.stop → m a = 0

theorem PagePool.Fresh.next_le {pool : PagePool} (hf : pool.Fresh m) : pool.next ≤ pool.stop :=
  Nat.add_le_add_left (Nat.mul_le_mul_right _ hf.used_le) _

/-- When the segments' turn comes, the first four gibibytes are mapped
twice. -/
theorem mapLow_spec {s s' : Space} {unmapNull : Bool} {pml4 : Nat} (hf : s.pool.Fresh s.mem)
    (heq : mapLow s unmapNull = some (pml4, s')) :
    pml4 = s.pool.next ∧ Growing s.mem pml4 s.pool.stop s' ∧
      ∀ v, translate s'.mem pml4 v = lowMap (firstPage unmapNull * 4096) (2 ^ 32) (2 ^ 32) v := by
  unfold mapLow at heq
  dsimp only at heq
  split at heq
  · cases heq
  next hne =>
    simp only [not_or] at hne
    obtain ⟨hne, hne', hne''⟩ := hne
    obtain ⟨hroom, hnew⟩ := tableNew_eq hf.next_le hne
    rw [hnew] at hne' hne'' heq
    dsimp only at hne' hne'' heq
    obtain ⟨hroom', hnew'⟩ := tableNew_eq (by rw [next_taken]; exact hroom) hne'
    rw [next_taken] at hroom'
    rw [hnew'] at hne'' heq
    dsimp only at hne'' heq
    obtain ⟨hroom'', hnew''⟩ := tableNew_eq (by rw [next_taken, next_taken]; exact hroom') hne''
    rw [next_taken, next_taken] at hroom''
    rw [hnew'', next_taken, next_taken, next_taken] at heq
    dsimp only at heq
    have hstop : s.pool.taken.taken.stop = s.pool.stop := rfl
    have hstop' : s.pool.taken.stop = s.pool.stop := rfl
    rw [hstop'] at hroom'
    rw [hstop] at hroom''
    have hpage : 4096 ∣ s.pool.next := by
      obtain ⟨q, hq⟩ := hf.aligned
      unfold PagePool.next pageSize
      omega
    have hfresh : ∀ t, s.pool.next ≤ t → t + 4096 ≤ s.pool.stop → ∀ i < 4096, s.mem (t + i) = 0 :=
      fun t hlo hhi i hi => hf.zero _ (by omega) (by omega)
    -- The root, and the links to the two tables under it.
    have hg₀ : Grown s.mem s.pool.next (s.pool.next + 4096) s.pool.stop s.mem :=
      ⟨Tables.empty hpage (hfresh _ (Nat.le_refl _) hroom), Nat.dvd_add hpage (Nat.dvd_refl _), by omega, hroom,
        hf.stop_le, fun a ha hs => hf.zero a (by omega) hs, fun _ _ => rfl⟩
    have hmap₀ := translate_of_zero (hfresh _ (Nat.le_refl _) hroom)
    have hroot : Unused s.mem s.pool.next 0 := unused_of_zero (hfresh _ (Nat.le_refl _) hroom) 0
    obtain ⟨hg₁, hmap₁, _, hpdptI, hpdptH⟩ := hg₀.linkBoth (v := 0) (w := 2 ^ 47) (n := 2) (i := 0)
      (j := 256) hroom'' .root .root rfl rfl (hroot.absent (Nat.zero_le _) (by decide))
      (hroot.absent (Nat.zero_le _) (by decide)) (by unfold slot; omega)
    have hunused : ∀ t, s.pool.next + 4096 ≤ t → t + 4096 ≤ s.pool.stop →
        Unused (put64 (put64 s.mem (slot s.pool.next 0) (s.pool.next + 4096 ||| ptePresent ||| pteWritable))
          (slot s.pool.next 256) (s.pool.next + 4096 + 4096 ||| ptePresent ||| pteWritable)) t 0 :=
      fun t hlo hhi => ((unused_of_zero (hfresh t (by omega) hhi) 0).put (Nat.le_refl 0)
        (by unfold slot; omega)).put (Nat.le_refl 0) (by unfold slot; omega)
    generalize put64 (put64 s.mem (slot s.pool.next 0)
      (s.pool.next + 4096 ||| ptePresent ||| pteWritable)) (slot s.pool.next 256)
      (s.pool.next + 4096 + 4096 ||| ptePresent ||| pteWritable) = m₁
      at hg₁ hmap₁ hpdptI hpdptH hunused heq
    have hstart : GigabyteInv s.mem s.pool.next s.pool.stop unmapNull (s.pool.next + 4096)
        (s.pool.next + 4096 + 4096) 0 ⟨s.pool.taken.taken.taken, m₁⟩ := by
      refine ⟨⟨?_, rfl, hf.base_ne⟩, fun v => ?_, hpdptI, hpdptH, Nat.le_refl _,
        hunused _ (by omega) (by omega), hunused _ (by omega) (by omega)⟩
      · rw [next_taken, next_taken, next_taken]
        exact hg₁
      · rw [hmap₁ v, hmap₀ v, lowMap, if_neg (by omega), if_neg (by omega)]
    split at heq
    · cases heq
    next s₁ hloop =>
      cases heq
      have hdone := forUpTo_some (GigabyteInv s.mem s.pool.next s.pool.stop unmapNull (s.pool.next + 4096)
        (s.pool.next + 4096 + 4096)) hstart (fun gb hgb b b' hb hbody => mapGigabyte_spec hb hgb hbody) hloop
      exact ⟨rfl, hdone.growing, hdone.map⟩

end BearBoot.Loader
