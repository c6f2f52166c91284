import BearBoot.Machine.Mem

/-!
# Four-level paging

The x86-64 translation of a virtual address, and what one store into a
page table does to it.

Levels are counted from the bottom: a page table is at level 0, a page
directory at 1, a directory pointer table at 2 and the root at 3. An entry
at level `n` covers `2 ^ (12 + 9 * n)` bytes; `region v n` says which one
covers `v`. `walk` reads one entry a level, going down through links, and
ends at an entry that is not present (no translation), at a large page or
at a page. Writable is what every entry on the way allows, no-execute what
any of them forbids.

`Reach m root v n t` says that the walk of `v` looks at the table `t`, at
level `n`. A set of tables is in order (`Tables`) when the tables that are
reached are whole pages of one range, when a table is reached at one level
and for one region only, and when links take no permission away. Then one
store does one thing:

- a LINK, in an entry that was not present, to a fresh page of zeros,
  changes no translation (`Tables.link`);
- a LEAF, in an entry that was not present, translates the addresses of
  its region and changes no other translation (`Tables.leaf`).

Reserved bits are not modelled, one apart: a root entry has no large page.
Neither are access bits, protection keys or the translation cache.
-/

set_option autoImplicit false

namespace Machine.Paging

/-! ## The walk -/

def entry (m : Mem) (t i : Nat) : Nat := m.getLE (t + 8 * i) 8

def present (e : Nat) : Bool := e.testBit 0

def writable (e : Nat) : Bool := e.testBit 1

def large (e : Nat) : Bool := e.testBit 7

def noExecute (e : Nat) : Bool := e.testBit 63

/-- The address bits of an entry, from bit `k` to bit 51. -/
def frame (e k : Nat) : Nat := e / 2 ^ k % 2 ^ (52 - k) * 2 ^ k

/-- How far an entry at level `n` is shifted. -/
def shift (n : Nat) : Nat := 12 + 9 * n

/-- The entry of a level-`n` table that covers `v`. -/
def index (v n : Nat) : Nat := v / 2 ^ shift n % 512

structure Translation where
  physical : Nat
  writable : Bool
  noExecute : Bool
  deriving DecidableEq, Repr

/-- The translation an entry at level `n` ends the walk with. -/
def page (e v n : Nat) (w x : Bool) : Translation :=
  ⟨frame e (shift n) + v % 2 ^ shift n, w && writable e, x || noExecute e⟩

/-- The walk of `v` from the table `t` at a level on, with the permissions
so far. -/
def walk (m : Mem) (v : Nat) : Nat → Nat → Bool → Bool → Option Translation
  | 0, t, w, x =>
    let e := entry m t (index v 0)
    if present e then some (page e v 0 w x) else none
  | n + 1, t, w, x =>
    let e := entry m t (index v (n + 1))
    if present e then
      if large e then if n < 2 then some (page e v (n + 1) w x) else none
      else walk m v n (frame e 12) (w && writable e) (x || noExecute e)
    else none

def translate (m : Mem) (root v : Nat) : Option Translation := walk m v 3 root true false

/-! ## Entries as sums, and as masks spell them -/

section Bits

variable (e : Nat)

theorem present_eq : present e = decide (e % 2 = 1) := by
  rw [present, Nat.testBit_eq_decide_div_mod_eq, Nat.pow_zero, Nat.div_one]

theorem writable_eq : writable e = decide (e / 2 % 2 = 1) := Nat.testBit_eq_decide_div_mod_eq

theorem large_eq : large e = decide (e / 128 % 2 = 1) := Nat.testBit_eq_decide_div_mod_eq

theorem noExecute_eq : noExecute e = decide (e / 2 ^ 63 % 2 = 1) := Nat.testBit_eq_decide_div_mod_eq

theorem and_present : e &&& 1 = 0 ↔ present e = false := by
  rw [Nat.and_one_is_mod, present_eq, decide_eq_false_iff_not]
  omega

theorem and_large : e &&& 0x80 = 0 ↔ large e = false := by
  rw [show (0x80 : Nat) = 2 ^ 7 from rfl, Nat.and_two_pow, ← large]
  cases large e <;> decide

theorem and_address : e &&& 0x000ffffffffff000 = frame e 12 := by
  rw [show (0x000ffffffffff000 : Nat) = (2 ^ 40 - 1) * 2 ^ 12 from rfl, frame]
  apply Nat.eq_of_testBit_eq
  intro i
  rw [Nat.testBit_and, Nat.testBit_mul_two_pow, Nat.testBit_mul_two_pow, Nat.testBit_two_pow_sub_one,
    Nat.testBit_mod_two_pow, Nat.testBit_div_two_pow]
  by_cases hi : 12 ≤ i
  · rw [Nat.sub_add_cancel hi]
    simp [hi, Bool.and_comm]
  · simp [hi]

end Bits

/-! ## Regions -/

/-- Which entry of all those at level `n` covers `v`. Bits from 48 on do not
count. -/
def region (v n : Nat) : Nat := v % 2 ^ 48 / 2 ^ shift n

theorem index_eq (v : Nat) {n : Nat} (hn : n ≤ 3) : index v n = region v n % 512 := by
  have hcases : n = 0 ∨ n = 1 ∨ n = 2 ∨ n = 3 := by omega
  unfold index region shift
  rcases hcases with rfl | rfl | rfl | rfl <;> simp only [Nat.reduceMul, Nat.reduceAdd, Nat.reducePow] <;> omega

theorem index_lt (v n : Nat) : index v n < 512 := Nat.mod_lt _ (by decide)

theorem region_succ (v n : Nat) : region v (n + 1) = region v n / 512 := by
  unfold region shift
  rw [Nat.div_div_eq_div_mul, show 12 + 9 * (n + 1) = 12 + 9 * n + 9 by omega, Nat.pow_add]

theorem region_four (v : Nat) : region v 4 = 0 :=
  Nat.div_eq_of_lt (Nat.mod_lt _ (by decide))

variable {m m' : Mem} {root v v' n n' t t' : Nat}

/-- Addresses of one region are of one region above, too. -/
theorem region_le (h : region v n = region v' n) (hle : n ≤ n') : region v n' = region v' n' := by
  induction n', hle using Nat.le_induction with
  | base => exact h
  | succ n' _ ih => rw [region_succ, region_succ, ih]

theorem index_congr (hn : n ≤ 3) (h : region v n = region v' n) : index v n = index v' n := by
  rw [index_eq v hn, index_eq v' hn, h]

/-- The region above and the entry in it say which region it is. -/
theorem region_inj (hn : n ≤ 3) (hup : region v (n + 1) = region v' (n + 1))
    (hindex : index v n = index v' n) : region v n = region v' n := by
  rw [region_succ, region_succ] at hup
  rw [index_eq v hn, index_eq v' hn] at hindex
  omega

/-! ## The tables a walk looks at -/

/-- The walk of `v` looks at the table `t` at level `n`. -/
inductive Reach (m : Mem) (root v : Nat) : Nat → Nat → Prop
  | root : Reach m root v 3 root
  | link {n t : Nat} (above : Reach m root v (n + 1) t)
      (present : present (entry m t (index v (n + 1))) = true)
      (small : large (entry m t (index v (n + 1))) = false) :
      Reach m root v n (frame (entry m t (index v (n + 1))) 12)

namespace Reach

theorem level_le (h : Reach m root v n t) : n ≤ 3 := by
  induction h with
  | root => exact Nat.le_refl 3
  | link _ _ _ ih => omega

/-- The walk looks at one table a level. -/
theorem unique (h : Reach m root v n t) (h' : Reach m root v n t') : t = t' := by
  induction h generalizing t' with
  | root =>
    cases h' with
    | root => rfl
    | link above _ _ => exact absurd above.level_le (by decide)
  | link above _ _ ih =>
    cases h' with
    | root => exact absurd above.level_le (by decide)
    | link above' _ _ => rw [ih above']

/-- The table at a level depends on the region above it. -/
theorem congr (h : Reach m root v n t) (hr : region v (n + 1) = region v' (n + 1)) :
    Reach m root v' n t := by
  induction h with
  | root => exact .root
  | @link n t above hp hs ih =>
    have hindex := index_congr above.level_le hr
    rw [hindex] at hp hs ⊢
    exact .link (ih (region_le hr (Nat.le_succ _))) hp hs

/-- A walk that reads the same entries looks at the same tables. -/
theorem frame (h : Reach m root v n t)
    (heq : ∀ n' t', n < n' → Reach m root v n' t' → entry m' t' (index v n') = entry m t' (index v n')) :
    Reach m' root v n t := by
  induction h with
  | root => exact .root
  | @link n t above hp hs ih =>
    have hsame := heq (n + 1) t (Nat.lt_succ_self n) above
    rw [← hsame] at hp hs ⊢
    exact .link (ih fun n' t' hlt => heq n' t' (by omega)) hp hs

/-- A walk comes down through a link of every level above. -/
theorem through (h : Reach m root v n t) {k : Nat} (hlt : n < k) (hk : k ≤ 3) :
    ∃ t', Reach m root v k t' ∧ present (entry m t' (index v k)) = true ∧
      large (entry m t' (index v k)) = false ∧
      (n + 1 = k → t = Paging.frame (entry m t' (index v k)) 12) := by
  induction h with
  | root => omega
  | @link n t above hp hs ih =>
    by_cases hlast : n + 1 = k
    · subst hlast
      exact ⟨t, above, hp, hs, fun _ => rfl⟩
    · obtain ⟨t', hr, hp', hs', _⟩ := ih (by omega)
      exact ⟨t', hr, hp', hs', fun hc => absurd hc hlast⟩

end Reach

/-- A walk that reads the same entries answers the same. -/
theorem translate_frame
    (heq : ∀ n t, Reach m root v n t → entry m' t (index v n) = entry m t (index v n)) :
    translate m' root v = translate m root v := by
  have hwalk : ∀ n t w x, Reach m root v n t → walk m' v n t w x = walk m v n t w x := by
    intro n
    induction n with
    | zero => intro t w x h; simp only [walk, heq 0 t h]
    | succ n ih =>
      intro t w x h
      simp only [walk, heq (n + 1) t h]
      split
      next hp =>
        split
        · rfl
        next hs => exact ih _ _ _ (.link h hp (Bool.not_eq_true _ ▸ hs))
      · rfl
  exact hwalk 3 root true false .root

/-! ## Tables in order -/

/-- The tables under `root` are pages of `[lo, hi)`, each reached at one
level for one region, by links that take no permission away. The root has
links only. -/
structure Tables (m : Mem) (root lo hi : Nat) : Prop where
  inside : ∀ {v n t}, Reach m root v n t → 4096 ∣ t ∧ lo ≤ t ∧ t + 4096 ≤ hi
  single : ∀ {v v' n n' t}, Reach m root v n t → Reach m root v' n' t →
    n = n' ∧ region v (n + 1) = region v' (n' + 1)
  plain : ∀ {v n t}, Reach m root v (n + 1) t → present (entry m t (index v (n + 1))) = true →
    large (entry m t (index v (n + 1))) = false →
      writable (entry m t (index v (n + 1))) = true ∧ noExecute (entry m t (index v (n + 1))) = false
  top : ∀ {v t}, Reach m root v 3 t → present (entry m t (index v 3)) = true →
    large (entry m t (index v 3)) = false

/-- A page of zeros is a root that translates nothing. -/
theorem entry_of_zero (hzero : ∀ i < 4096, m (t + i) = 0) (v n : Nat) : entry m t (index v n) = 0 := by
  have hlt := index_lt v n
  refine Mem.getLE_eq_zero_iff.mpr fun i hi => ?_
  rw [Nat.add_assoc]
  exact hzero _ (by omega)

theorem reach_of_zero (hzero : ∀ i < 4096, m (root + i) = 0) (h : Reach m root v n t) :
    n = 3 ∧ t = root := by
  induction h with
  | root => exact ⟨rfl, rfl⟩
  | link _ hp _ ih =>
    rw [ih.2, entry_of_zero hzero] at hp
    exact absurd hp (by decide)

theorem Tables.empty (hroot : 4096 ∣ root) (hzero : ∀ i < 4096, m (root + i) = 0) :
    Tables m root root (root + 4096) where
  inside h := by
    rw [(reach_of_zero hzero h).2]
    exact ⟨hroot, Nat.le_refl _, Nat.le_refl _⟩
  single h h' := by
    obtain ⟨rfl, _⟩ := reach_of_zero hzero h
    obtain ⟨rfl, _⟩ := reach_of_zero hzero h'
    exact ⟨rfl, (region_four _).trans (region_four _).symm⟩
  plain h hp _ := by
    rw [(reach_of_zero hzero h).2, entry_of_zero hzero] at hp
    exact absurd hp (by decide)
  top h hp := by
    rw [(reach_of_zero hzero h).2, entry_of_zero hzero] at hp
    exact absurd hp (by decide)

theorem translate_of_zero (hzero : ∀ i < 4096, m (root + i) = 0) (v : Nat) :
    translate m root v = none := by
  rw [translate, walk, entry_of_zero hzero]
  rfl

/-- The memory with `e` in the entry of `t` that covers `v`. -/
def store (m : Mem) (t v n e : Nat) : Mem := m.putLE (t + 8 * index v n) e 8

theorem entry_store {e : Nat} (he : e < 2 ^ 64) : entry (store m t v n e) t (index v n) = e := Mem.getLE_putLE he

namespace Tables

variable {lo hi : Nat}

/-- From any table on the way, the walk ends as it does from the root. -/
theorem translate_from (h : Tables m root lo hi) (hr : Reach m root v n t) :
    translate m root v = walk m v n t true false := by
  induction hr with
  | root => rfl
  | link above hp hs ih =>
    obtain ⟨hw, hx⟩ := h.plain above hp hs
    rw [ih, walk]
    simp only [hp, hs, hw, hx, if_true, Bool.and_true, Bool.or_false, Bool.false_eq_true, if_false]

/-- An address without a translation meets no page on its way. -/
theorem not_large (h : Tables m root lo hi) (hr : Reach m root v (n + 1) t)
    (hnone : translate m root v = none) (hp : present (entry m t (index v (n + 1))) = true) :
    large (entry m t (index v (n + 1))) = false := by
  by_contra hl
  rw [Bool.not_eq_false] at hl
  rw [h.translate_from hr, walk] at hnone
  simp only [hp, hl, if_true] at hnone
  have hn : n = 2 := by
    have hle := hr.level_le
    by_contra hn
    rw [if_pos (by omega)] at hnone
    cases hnone
  subst hn
  rw [h.top hr hp] at hl
  cases hl

/-- An address without a translation has no entry in its page table. -/
theorem absent (h : Tables m root lo hi) (hr : Reach m root v 0 t) (hnone : translate m root v = none) :
    present (entry m t (index v 0)) = false := by
  rw [h.translate_from hr, walk] at hnone
  by_contra hp
  rw [Bool.not_eq_false] at hp
  simp only [hp, if_true] at hnone
  cases hnone

/-! ## One store -/

section Store

variable {v₀ n₀ t₀ e : Nat}

/-- The entry of a region is read for its own addresses only. -/
theorem entry_other (h : Tables m root lo hi) (h₀ : Reach m root v₀ n₀ t₀) (hr : Reach m root v n t)
    (hother : ¬ (n = n₀ ∧ region v n = region v₀ n₀)) :
    entry (store m t₀ v₀ n₀ e) t (index v n) = entry m t (index v n) := by
  have hlt := index_lt v n
  have hlt₀ := index_lt v₀ n₀
  refine Mem.getLE_putLE_frame ?_
  rcases eq_or_ne t t₀ with rfl | hne
  · obtain ⟨rfl, hup⟩ := h.single hr h₀
    have hindex : index v n ≠ index v₀ n := fun hc =>
      hother ⟨rfl, region_inj hr.level_le hup hc⟩
    omega
  · obtain ⟨⟨q, rfl⟩, _⟩ := h.inside hr
    obtain ⟨⟨q₀, rfl⟩, _⟩ := h.inside h₀
    omega

/-- The entry of a region is read for all its addresses. -/
theorem entry_mine (h₀ : Reach m root v₀ n₀ t₀) (he : e < 2 ^ 64) (hr : Reach m root v n₀ t)
    (hsame : region v n₀ = region v₀ n₀) : entry (store m t₀ v₀ n₀ e) t (index v n₀) = e := by
  rw [hr.unique (h₀.congr (region_le hsame.symm (Nat.le_succ _))), index_congr h₀.level_le hsame,
    entry_store he]

/-- Tables stay reached when an entry that was no link is stored. -/
theorem reach_store (h : Tables m root lo hi) (h₀ : Reach m root v₀ n₀ t₀)
    (hnone : present (entry m t₀ (index v₀ n₀)) = false) (hr : Reach m root v n t) :
    Reach (store m t₀ v₀ n₀ e) root v n t := by
  induction hr with
  | root => exact .root
  | @link n t above hp hs ih =>
    have hother : ¬ (n + 1 = n₀ ∧ region v (n + 1) = region v₀ n₀) := by
      rintro ⟨rfl, hsame⟩
      have ht := (above.congr (region_le hsame (Nat.le_succ _))).unique h₀
      rw [ht, index_congr above.level_le hsame, hnone] at hp
      cases hp
    have hentry := entry_other (e := e) h h₀ above hother
    rw [← hentry] at hp hs ⊢
    exact .link ih hp hs

/-- What is reached after the store was reached before, or lies behind the
new entry. -/
theorem reach_of_store (h : Tables m root lo hi) (h₀ : Reach m root v₀ n₀ t₀)
    (hr : Reach (store m t₀ v₀ n₀ e) root v n t) :
    Reach m root v n t ∨ (n < n₀ ∧ region v n₀ = region v₀ n₀) := by
  induction hr with
  | root => exact Or.inl .root
  | @link n t above hp hs ih =>
    rcases ih with hold | ⟨hlt, hsame⟩
    · by_cases hother : n + 1 = n₀ ∧ region v (n + 1) = region v₀ n₀
      · obtain ⟨rfl, hsame⟩ := hother
        exact Or.inr ⟨Nat.lt_succ_self n, hsame⟩
      · have hentry := entry_other (e := e) h h₀ hold hother
        rw [hentry] at hp hs ⊢
        exact Or.inl (.link hold hp hs)
    · exact Or.inr ⟨by omega, hsame⟩

/-- Addresses of other regions are translated as before. -/
theorem translate_other (h : Tables m root lo hi) (h₀ : Reach m root v₀ n₀ t₀)
    (hother : region v n₀ ≠ region v₀ n₀) :
    translate (store m t₀ v₀ n₀ e) root v = translate m root v :=
  translate_frame fun _ _ hr => entry_other h h₀ hr fun ⟨hn, hsame⟩ => hother (hn ▸ hsame)

/-- After the store, a walk through the region's entry finds what was stored. -/
theorem through_store (h : Tables m root lo hi) (h₀ : Reach m root v₀ n₀ t₀)
    (hnone : present (entry m t₀ (index v₀ n₀)) = false) (he : e < 2 ^ 64)
    (hr : Reach (store m t₀ v₀ n₀ e) root v n t) (hlt : n < n₀) (hsame : region v n₀ = region v₀ n₀) :
    present e = true ∧ large e = false ∧ (n + 1 = n₀ → t = frame e 12) := by
  obtain ⟨t', hr', hp, hs, hnext⟩ := hr.through hlt h₀.level_le
  have hmine : Reach (store m t₀ v₀ n₀ e) root v n₀ t₀ :=
    (reach_store h h₀ hnone h₀).congr (region_le hsame.symm (Nat.le_succ _))
  obtain rfl := hr'.unique hmine
  rw [index_congr h₀.level_le hsame, entry_store he] at hp hs hnext
  exact ⟨hp, hs, hnext⟩

/-- A leaf translates its region, and nothing else. -/
theorem leaf (h : Tables m root lo hi) (h₀ : Reach m root v₀ n₀ t₀)
    (hnone : present (entry m t₀ (index v₀ n₀)) = false) (he : e < 2 ^ 64) (hp : present e = true)
    (hstop : n₀ = 0 ∨ large e = true ∧ n₀ ≤ 2) :
    Tables (store m t₀ v₀ n₀ e) root lo hi ∧
      (∀ v, translate (store m t₀ v₀ n₀ e) root v =
        if region v n₀ = region v₀ n₀ then some (page e v n₀ true false) else translate m root v) ∧
      ∀ {v n t}, Reach m root v n t → Reach (store m t₀ v₀ n₀ e) root v n t := by
  -- Nothing is reached through the new entry.
  have hback : ∀ {v n t}, Reach (store m t₀ v₀ n₀ e) root v n t → Reach m root v n t := by
    intro v n t hr
    rcases reach_of_store h h₀ hr with hold | ⟨hlt, hsame⟩
    · exact hold
    · obtain ⟨_, hs, _⟩ := through_store h h₀ hnone he hr hlt hsame
      rcases hstop with rfl | ⟨hl, _⟩
      · exact absurd hlt (Nat.not_lt_zero n)
      · exact absurd (hl.symm.trans hs) (by decide)
  have htables : Tables (store m t₀ v₀ n₀ e) root lo hi := by
    refine ⟨fun hr => h.inside (hback hr), fun hr hr' => h.single (hback hr) (hback hr'), ?_, ?_⟩
    · intro v n t hr hp' hs'
      by_cases hsame : n + 1 = n₀ ∧ region v (n + 1) = region v₀ n₀
      · obtain ⟨rfl, hsame⟩ := hsame
        rw [entry_mine h₀ he (hback hr) hsame] at hs'
        rcases hstop with hzero | ⟨hl, _⟩
        · cases hzero
        · exact absurd (hl.symm.trans hs') (by decide)
      · rw [entry_other h h₀ (hback hr) hsame] at hp' hs' ⊢
        exact h.plain (hback hr) hp' hs'
    · intro v t hr hp'
      have hlow : ¬ (3 = n₀ ∧ region v 3 = region v₀ n₀) := by omega
      rw [entry_other h h₀ (hback hr) hlow] at hp' ⊢
      exact h.top (hback hr) hp'
  refine ⟨htables, fun v => ?_, fun hr => reach_store h h₀ hnone hr⟩
  split
  next hsame =>
    have hmine : Reach (store m t₀ v₀ n₀ e) root v n₀ t₀ :=
      (reach_store h h₀ hnone h₀).congr (region_le hsame.symm (Nat.le_succ _))
    have hentry : entry (store m t₀ v₀ n₀ e) t₀ (index v n₀) = e := by
      rw [index_congr h₀.level_le hsame, entry_store he]
    rw [htables.translate_from hmine]
    cases n₀ with
    | zero =>
      rw [walk, hentry]
      exact if_pos hp
    | succ n =>
      obtain ⟨hl, hle⟩ := hstop.resolve_left (Nat.succ_ne_zero n)
      rw [walk, hentry]
      simp only [hp, hl, if_true, show n < 2 by omega]
  next hother => exact translate_other h h₀ hother

/-- A link is followed for every address of its region. -/
theorem reach_link (h : Tables m root lo hi) (h₀ : Reach m root v₀ (n₀ + 1) t₀)
    (hnone : present (entry m t₀ (index v₀ (n₀ + 1))) = false) (he : e < 2 ^ 64) (hp : present e = true)
    (hs : large e = false) (hsame : region v (n₀ + 1) = region v₀ (n₀ + 1)) :
    Reach (store m t₀ v₀ (n₀ + 1) e) root v n₀ (frame e 12) := by
  have hmine := (reach_store (e := e) h h₀ hnone h₀).congr (region_le hsame.symm (Nat.le_succ _))
  have hentry : entry (store m t₀ v₀ (n₀ + 1) e) t₀ (index v (n₀ + 1)) = e := by
    rw [index_congr h₀.level_le hsame, entry_store he]
  have hlink := Reach.link hmine (by rw [hentry]; exact hp) (by rw [hentry]; exact hs)
  rw [hentry] at hlink
  exact hlink

/-- Behind a link to a page of zeros only that page is reached. -/
theorem reach_of_link (h : Tables m root lo hi) (h₀ : Reach m root v₀ (n₀ + 1) t₀)
    (hnone : present (entry m t₀ (index v₀ (n₀ + 1))) = false) (he : e < 2 ^ 64) (hp : present e = true)
    (hs : large e = false) (hzero : ∀ i < 4096, store m t₀ v₀ (n₀ + 1) e (frame e 12 + i) = 0)
    (hr : Reach (store m t₀ v₀ (n₀ + 1) e) root v n t) :
    Reach m root v n t ∨ (n = n₀ ∧ t = frame e 12 ∧ region v (n₀ + 1) = region v₀ (n₀ + 1)) := by
  rcases reach_of_store h h₀ hr with hold | ⟨hlt, hsame⟩
  · exact Or.inl hold
  · have hnew := reach_link h h₀ hnone he hp hs hsame
    by_cases hn : n = n₀
    · subst hn
      exact Or.inr ⟨rfl, hr.unique hnew, hsame⟩
    · have hle := h₀.level_le
      obtain ⟨t', hr', hp', _⟩ := hr.through (k := n₀) (by omega) (by omega)
      rw [hr'.unique hnew, entry_of_zero hzero] at hp'
      exact absurd hp' (by decide)

/-- The tables stay tables when a fresh page of zeros is linked. -/
theorem linked (h : Tables m root lo hi) (h₀ : Reach m root v₀ (n₀ + 1) t₀)
    (hnone : present (entry m t₀ (index v₀ (n₀ + 1))) = false) (he : e < 2 ^ 64) (hp : present e = true)
    (hs : large e = false) (hw : writable e = true) (hx : noExecute e = false) (hframe : frame e 12 = hi)
    (hlo : lo ≤ hi) (hpage : 4096 ∣ hi) (hzero : ∀ i < 4096, store m t₀ v₀ (n₀ + 1) e (hi + i) = 0) :
    Tables (store m t₀ v₀ (n₀ + 1) e) root lo (hi + 4096) := by
  subst hframe
  have hback : ∀ {v n t}, Reach (store m t₀ v₀ (n₀ + 1) e) root v n t → Reach m root v n t ∨
      (n = n₀ ∧ t = frame e 12 ∧ region v (n₀ + 1) = region v₀ (n₀ + 1)) :=
    fun hr => reach_of_link h h₀ hnone he hp hs hzero hr
  refine ⟨fun {v n t} hr => ?_, fun {v v' n n' t} hr hr' => ?_, fun {v n t} hr hp' hs' => ?_,
    fun {v t} hr hp' => ?_⟩
  · rcases hback hr with hold | ⟨_, rfl, _⟩
    · obtain ⟨ha, hb, hc⟩ := h.inside hold
      exact ⟨ha, hb, by omega⟩
    · exact ⟨hpage, hlo, Nat.le_refl _⟩
  · -- the new page is none of the tables there were
    rcases hback hr with hold | ⟨rfl, rfl, hsame⟩
    · rcases hback hr' with hold' | ⟨_, rfl, _⟩
      · exact h.single hold hold'
      · exact absurd (h.inside hold).2.2 (by omega)
    · rcases hback hr' with hold' | ⟨rfl, _, hsame'⟩
      · exact absurd (h.inside hold').2.2 (by omega)
      · exact ⟨rfl, hsame.trans hsame'.symm⟩
  · rcases hback hr with hold | ⟨_, rfl, _⟩
    · by_cases hsame : n + 1 = n₀ + 1 ∧ region v (n + 1) = region v₀ (n₀ + 1)
      · obtain ⟨hn, hsame⟩ := hsame
        cases hn
        rw [entry_mine h₀ he hold hsame]
        exact ⟨hw, hx⟩
      · rw [entry_other h h₀ hold hsame] at hp' hs' ⊢
        exact h.plain hold hp' hs'
    · rw [entry_of_zero hzero] at hp'
      exact absurd hp' (by decide)
  · rcases hback hr with hold | ⟨_, rfl, _⟩
    · by_cases hsame : 3 = n₀ + 1 ∧ region v 3 = region v₀ (n₀ + 1)
      · obtain ⟨hn, hsame⟩ := hsame
        cases hn
        rw [entry_mine h₀ he hold hsame]
        exact hs
      · rw [entry_other h h₀ hold hsame] at hp' ⊢
        exact h.top hold hp'
    · rw [entry_of_zero hzero] at hp'
      exact absurd hp' (by decide)

/-- A link to a fresh page of zeros changes no translation. -/
theorem link (h : Tables m root lo hi) (h₀ : Reach m root v₀ (n₀ + 1) t₀)
    (hnone : present (entry m t₀ (index v₀ (n₀ + 1))) = false) (he : e < 2 ^ 64) (hp : present e = true)
    (hs : large e = false) (hw : writable e = true) (hx : noExecute e = false) (hframe : frame e 12 = hi)
    (hlo : lo ≤ hi) (hpage : 4096 ∣ hi) (hzero : ∀ i < 4096, m (hi + i) = 0) :
    Tables (store m t₀ v₀ (n₀ + 1) e) root lo (hi + 4096) ∧
      (∀ v, translate (store m t₀ v₀ (n₀ + 1) e) root v = translate m root v) ∧
      (∀ {v n t}, Reach m root v n t → Reach (store m t₀ v₀ (n₀ + 1) e) root v n t) ∧
      ∀ {v}, region v (n₀ + 1) = region v₀ (n₀ + 1) → Reach (store m t₀ v₀ (n₀ + 1) e) root v n₀ hi := by
  obtain ⟨_, _, hin₀⟩ := h.inside h₀
  have hlt₀ := index_lt v₀ (n₀ + 1)
  have hzero' : ∀ i < 4096, store m t₀ v₀ (n₀ + 1) e (hi + i) = 0 := fun i hi' => by
    rw [store, Mem.putLE_frame (by omega)]
    exact hzero i hi'
  have htables := linked h h₀ hnone he hp hs hw hx hframe hlo hpage hzero'
  have hnew : ∀ {v}, region v (n₀ + 1) = region v₀ (n₀ + 1) →
      Reach (store m t₀ v₀ (n₀ + 1) e) root v n₀ hi :=
    fun hsame => hframe ▸ reach_link h h₀ hnone he hp hs hsame
  refine ⟨htables, fun v => ?_, fun hr => reach_store h h₀ hnone hr, hnew⟩
  by_cases hsame : region v (n₀ + 1) = region v₀ (n₀ + 1)
  · have hold : translate m root v = none := by
      rw [h.translate_from (h₀.congr (region_le hsame.symm (Nat.le_succ _))), walk,
        index_congr h₀.level_le hsame, hnone]
      rfl
    rw [hold, htables.translate_from (hnew hsame)]
    cases n₀ with
    | zero => rw [walk, entry_of_zero hzero']; rfl
    | succ n => rw [walk, entry_of_zero hzero']; rfl
  · exact translate_other h h₀ hsame

end Store

end Tables

end Machine.Paging
