import BearBoot.Machine.Paging
import BearBoot.Loader.PageTables

/-!
# Each store into the page tables does one thing

What `Machine.Paging` says about a link and a leaf, for the stores of the
loader. `Grown` is the invariant of the whole construction: the tables are
in order between the root and the first page that is not linked yet, from
there to the end of the pool everything is zero, and outside the pool
nothing has changed. Pages are linked in the order they are taken from the
pool, so that one bound is enough.

`descend_spec` and `mapPage_spec` are the specification of the two
functions: going down changes no translation, and a page that is mapped was
not mapped before and is afterwards, with every other translation kept.
-/

set_option autoImplicit false

namespace BearBoot.Loader

open Machine Machine.Paging

variable {p v : Nat}

/-- The tables so far: `root` is the first page taken from the pool, `hi` the
first that is not linked, `stop` the end of the pool, and `m₀` the memory
before. -/
structure Grown (m₀ : Mem) (root hi stop : Nat) (m : Mem) : Prop where
  tables : Tables m root root hi
  aligned : 4096 ∣ hi
  root_le : root ≤ hi
  hi_le : hi ≤ stop
  stop_le : stop ≤ 2 ^ 48
  zero : ∀ a, hi ≤ a → a < stop → m a = 0
  outside : ∀ a, a < root ∨ stop ≤ a → m a = m₀ a

section Stores

variable {m₀ m : Mem} {root hi stop : Nat} {v n t : Nat}

theorem put64_eq_store (m : Mem) (t v n e : Nat) : put64 m (slot t (index v n)) e = store m t v n e := rfl

/-- A link as the loader spells it. -/
theorem link_bits (hp : 4096 ∣ p) : p ||| ptePresent ||| pteWritable = p + 3 := by
  obtain ⟨q, rfl⟩ := hp
  rw [Nat.or_assoc]
  exact (Nat.two_pow_add_eq_or_of_lt (i := 12) (by decide) q).symm

/-- A large page as the loader spells it. -/
theorem large_bits (hp : 0x200000 ∣ p) :
    p ||| ptePresent ||| pteWritable ||| pteLarge = p + 131 := by
  obtain ⟨q, rfl⟩ := hp
  rw [Nat.or_assoc, Nat.or_assoc]
  exact (Nat.two_pow_add_eq_or_of_lt (i := 21) (by decide) q).symm

/-- Every table is inside the pool. -/
theorem Grown.reach (h : Grown m₀ root hi stop m) (hr : Reach m root v n t) :
    4096 ∣ t ∧ root ≤ t ∧ t + 4096 ≤ hi := h.tables.inside hr

/-- A store into a table stays inside it. -/
theorem Grown.store_frame (h : Grown m₀ root hi stop m) (hr : Reach m root v n t) (e : Nat) {a : Nat}
    (ha : a < root ∨ hi ≤ a) : store m t v n e a = m a := by
  obtain ⟨_, hlo, hhi⟩ := h.reach hr
  have hlt := index_lt v n
  exact Mem.putLE_frame (by omega)

/-- The next page of the pool is linked. -/
theorem Grown.link (h : Grown m₀ root hi stop m) (hroom : hi + 4096 ≤ stop)
    (hr : Reach m root v (n + 1) t) (hnone : present (entry m t (index v (n + 1))) = false) :
    let m' := put64 m (slot t (index v (n + 1))) (hi ||| ptePresent ||| pteWritable)
    Grown m₀ root (hi + 4096) stop m' ∧ (∀ u, translate m' root u = translate m root u) ∧
      (∀ {u k t'}, Reach m root u k t' → Reach m' root u k t') ∧
      ∀ {u}, region u (n + 1) = region v (n + 1) → Reach m' root u n hi := by
  have hlimit := h.stop_le
  obtain ⟨q, hq⟩ := h.aligned
  have hframe : frame (hi + 3) 12 = hi := by
    unfold frame
    omega
  obtain ⟨htables, htranslate, hmono, hnew⟩ := h.tables.link hr hnone (e := hi + 3) (by omega)
    (by rw [present_eq, decide_eq_true_eq]; omega) (by rw [large_eq, decide_eq_false_iff_not]; omega)
    (by rw [writable_eq, decide_eq_true_eq]; omega)
    (by rw [noExecute_eq, decide_eq_false_iff_not]; omega) hframe h.root_le h.aligned
    (fun i hi' => h.zero _ (by omega) (by omega))
  dsimp only
  rw [link_bits h.aligned, put64_eq_store]
  have hroot := h.root_le
  exact ⟨⟨htables, Nat.dvd_add h.aligned (Nat.dvd_refl _), by omega, hroom, h.stop_le,
    fun a ha hs => (h.store_frame hr _ (by omega)).trans (h.zero a (by omega) hs),
    fun a ha => (h.store_frame hr _ (by omega)).trans (h.outside a ha)⟩, htranslate, hmono, hnew⟩

/-- A page, large or not, is mapped. -/
theorem Grown.leaf (h : Grown m₀ root hi stop m) (hr : Reach m root v n t)
    (hnone : present (entry m t (index v n)) = false) {e : Nat} (he : e < 2 ^ 64) (hp : present e = true)
    (hstop : n = 0 ∨ large e = true ∧ n ≤ 2) :
    let m' := put64 m (slot t (index v n)) e
    Grown m₀ root hi stop m' ∧
      (∀ u, translate m' root u =
        if region u n = region v n then some (page e u n true false) else translate m root u) ∧
      ∀ {u k t'}, Reach m root u k t' → Reach m' root u k t' := by
  obtain ⟨htables, htranslate, hmono⟩ := h.tables.leaf hr hnone he hp hstop
  have hle := h.hi_le
  exact ⟨⟨htables, h.aligned, h.root_le, h.hi_le, h.stop_le,
    fun a ha hs => (h.store_frame hr e (Or.inr ha)).trans (h.zero a ha hs),
    fun a ha => (h.store_frame hr e (by omega)).trans (h.outside a ha)⟩, htranslate, hmono⟩

end Stores

/-! ## The pool -/

/-- The page `table_new` answers next. -/
def PagePool.next (pool : PagePool) : Nat := pool.base + pool.used * pageSize

/-- The first byte behind the pool. -/
def PagePool.stop (pool : PagePool) : Nat := pool.base + pool.count * pageSize

def PagePool.taken (pool : PagePool) : PagePool := { pool with used := pool.used + 1 }

theorem next_taken (pool : PagePool) : pool.taken.next = pool.next + 4096 := by
  simp only [PagePool.next, PagePool.taken, pageSize]
  omega

theorem tableNew_cases {pool : PagePool} (hle : pool.next ≤ pool.stop) :
    tableNew pool = (0, pool) ∨ (pool.next + 4096 ≤ pool.stop ∧ tableNew pool = (pool.next, pool.taken)) := by
  unfold tableNew
  split
  · exact Or.inl rfl
  next hne =>
    unfold PagePool.next PagePool.stop pageSize at hle
    refine Or.inr ⟨?_, rfl⟩
    unfold PagePool.next PagePool.stop pageSize
    omega

/-- The tables so far, every page that was taken from the pool linked. -/
structure Growing (m₀ : Mem) (root stop : Nat) (s : Space) : Prop where
  grown : Grown m₀ root s.pool.next stop s.mem
  stop_eq : s.pool.stop = stop
  base : s.pool.base ≠ 0

section Map

variable {m₀ : Mem} {root stop : Nat} {s s' : Space}

theorem Growing.next_ne (h : Growing m₀ root stop s) : s.pool.next ≠ 0 := by
  have hbase := h.base
  unfold PagePool.next
  omega

theorem Growing.tableNew_cases (h : Growing m₀ root stop s) :
    tableNew s.pool = (0, s.pool) ∨
      (s.pool.next + 4096 ≤ stop ∧ tableNew s.pool = (s.pool.next, s.pool.taken)) := by
  have hle := h.grown.hi_le
  rw [← h.stop_eq] at hle ⊢
  exact Loader.tableNew_cases hle

/-- `next_taken`, for a pool that serves. -/
theorem Growing.taken {m : Mem} (h : Growing m₀ root stop s)
    (hg : Grown m₀ root (s.pool.next + 4096) stop m) : Growing m₀ root stop ⟨s.pool.taken, m⟩ :=
  ⟨by rw [next_taken]; exact hg, h.stop_eq, h.base⟩

theorem index_bits (v n : Nat) : (v >>> shift n) &&& 0x1ff = index v n := by
  rw [Nat.shiftRight_eq_div_pow]
  exact Nat.and_two_pow_sub_one_eq_mod _ 9

/-- A link is there, or is made. -/
theorem ensureLink_spec {n t : Nat} (h : Growing m₀ root stop s) (hr : Reach s.mem root v (n + 1) t)
    (heq : ensureLink s (slot t (index v (n + 1))) = some s') :
    Growing m₀ root stop s' ∧ (∀ u, translate s'.mem root u = translate s.mem root u) ∧
      Reach s'.mem root v (n + 1) t ∧ present (entry s'.mem t (index v (n + 1))) = true := by
  unfold ensureLink at heq
  split at heq
  next hnone =>
    have hnone := (and_present _).mp hnone
    rcases h.tableNew_cases with hno | ⟨hroom, hnew⟩
    · rw [hno] at heq
      cases heq
    · rw [hnew] at heq
      dsimp only at heq
      rw [if_neg h.next_ne] at heq
      cases heq
      obtain ⟨hgrown, htranslate, hmono, hreach⟩ := h.grown.link hroom hr hnone
      refine ⟨h.taken hgrown, htranslate, hmono hr, ?_⟩
      obtain ⟨t', hr', hp, _⟩ := (hreach (u := v) rfl).through (Nat.lt_succ_self n) hr.level_le
      rw [hr'.unique (hmono hr)] at hp
      exact hp
  next hsome =>
    cases heq
    refine ⟨h, fun _ => rfl, hr, ?_⟩
    exact Bool.not_eq_false _ ▸ fun hc => hsome ((and_present _).mpr hc)

/-- The shifts of the levels from `n` down. -/
def levelShifts : Nat → List Nat
  | 0 => []
  | n + 1 => shift (n + 1) :: levelShifts n

/-- Going down changes no translation and ends at the page table. -/
theorem descend_spec {n table table' : Nat} (h : Growing m₀ root stop s)
    (hr : Reach s.mem root v n table) (heq : descend v s table (levelShifts n) = some (table', s')) :
    Growing m₀ root stop s' ∧ (∀ u, translate s'.mem root u = translate s.mem root u) ∧
      Reach s'.mem root v 0 table' := by
  induction n generalizing s table with
  | zero =>
    cases heq
    exact ⟨h, fun _ => rfl, hr⟩
  | succ n ih =>
    simp only [levelShifts, descend, index_bits] at heq
    split at heq
    · cases heq
    next s₁ hlink =>
      obtain ⟨h₁, htranslate₁, hr₁, hp⟩ := ensureLink_spec h hr hlink
      split at heq
      · cases heq
      next hsmall =>
        have hsmall := (and_large _).mp (not_not.mp hsmall)
        have hnext := Reach.link hr₁ hp hsmall
        rw [← and_address] at hnext
        obtain ⟨h', htranslate, hr'⟩ := ih h₁ hnext heq
        exact ⟨h', fun u => (htranslate u).trans (htranslate₁ u), hr'⟩

/-- The entry `map_page` stores. -/
def pageEntry (physicalAddress flags : Nat) : Nat := (physicalAddress &&& pteAddress) ||| flags ||| ptePresent

/-- A page that is mapped was not mapped before, and is now. Every other
translation is kept. -/
theorem mapPage_spec {flags : Nat} (h : Growing m₀ root stop s)
    (he : pageEntry p flags < 2 ^ 64) (hp : present (pageEntry p flags) = true)
    (heq : mapPage s root v p flags = some s') :
    Growing m₀ root stop s' ∧
      (∀ u, region u 0 = region v 0 → translate s.mem root u = none) ∧
      ∀ u, translate s'.mem root u =
        if region u 0 = region v 0 then some (page (pageEntry p flags) u 0 true false)
        else translate s.mem root u := by
  unfold mapPage at heq
  split at heq
  · cases heq
  next table s₁ hdown =>
    obtain ⟨h₁, htranslate₁, hr⟩ := descend_spec (n := 3) h .root hdown
    have hslot : (v >>> 12) &&& 0x1ff = index v 0 := index_bits v 0
    rw [hslot] at heq
    dsimp only at heq
    split at heq
    · cases heq
    next hnone =>
      cases heq
      have hnone : present (entry s₁.mem table (index v 0)) = false := (and_present _).mp (not_not.mp hnone)
      obtain ⟨hgrown, htranslate, _⟩ := h₁.grown.leaf hr hnone he hp (Or.inl rfl)
      refine ⟨⟨hgrown, h₁.stop_eq, h₁.base⟩, fun u hu => ?_, fun u => ?_⟩
      · have hr' := hr.congr (region_le hu.symm (Nat.le_succ _))
        rw [← htranslate₁ u, h₁.grown.tables.translate_from hr', walk, index_congr (Nat.zero_le _) hu, hnone]
        rfl
      · rw [← htranslate₁ u]
        exact htranslate u

end Map

end BearBoot.Loader
