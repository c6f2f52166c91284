import BearBoot.Import.Atomic

/-!
# What the kernel sees of an import

The importer, `finalize` and the parser, end to end. `Passed.handoff`
takes a list of objects that has been planned and emitted on a session's
builder, seals it, and reads it as the kernel does. Behind the tags that
were there before, the kernel is handed one tag an object, in the list's
order, and each is `Seen`: its body is what the object's stores left on
zeroed bytes, and its blob holds the bytes of its source.

What the stores say is not decided here; that is each object's own
arithmetic.
-/

set_option autoImplicit false

namespace BearBoot.Import

open Machine Bootloader Kernel

variable {kmem : Mem} {blobs : List Blob} {info infoVa hint : Nat}

/-- The context of a kernel that was bounded to the arena. -/
def context (A : Arena) (infoVa hint : Nat) : Kctx :=
  ⟨infoVa, hint, true, A.phys, A.phys + A.capacity⟩

/-- The kernel reads, behind `hint`, a copy of `len` bytes that were at
`data` in the loader's memory. The copy is the arena's. -/
structure CopyAt (A : Arena) (m kmem : Mem) (hint phys data len : Nat) : Prop where
  low : A.phys ≤ phys
  high : phys + len ≤ A.phys + A.capacity
  bytes : A.Outside data len → kmem.bytes (phys + hint) len = m.bytes data len

/-- The kernel's tag at `t` is the object: its size, and the bytes its stores
left at the tag's place in the arena, made in a memory that agreed with
`m` outside the arena. -/
structure Seen (A : Arena) (m kmem : Mem) (hint : Nat) (o : Object) (t : Nat) : Prop where
  id : tagId kmem t = o.id
  size : tagSize kmem t = o.size
  body : ∃ (phys tag : Nat) (m₁ : Mem),
    A.ptr ≤ tag ∧ tag + o.size ≤ A.ptr + A.capacity ∧
    (∀ a, A.Outside a 1 → m₁ a = m a) ∧
    (∀ i, 32 ≤ i → i < o.size → m₁ (tag + i) = 0) ∧
    (∀ i, 32 ≤ i → i < o.size → kmem (t + i) = o.fill phys tag m₁ (tag + i)) ∧
    ∀ data len, o.blob = some (data, len) → CopyAt A m kmem hint phys data len

/-- Lookup in a row, through another row beside it. -/
theorem find_beside {α β : Type} {R : α → β → Prop} {xs : List α} {ys : List β}
    (h : List.Forall₂ R xs ys) {f : α → Bool} {x : α} (hx : xs.find? f = some x) :
    ∃ y ∈ ys, R x y ∧ ((xs.zip ys).find? fun p => f p.1).map Prod.snd = some y := by
  induction h with
  | nil => cases hx
  | @cons x' y xs ys hr _ ih =>
    rw [List.zip_cons_cons]
    by_cases hf : f x' = true
    · rw [List.find?_cons_of_pos hf] at hx
      cases hx
      exact ⟨y, List.mem_cons_self, hr, by rw [List.find?_cons_of_pos (by exact hf)]; rfl⟩
    · rw [List.find?_cons_of_neg hf] at hx
      obtain ⟨y', hy', hr', hfind⟩ := ih hx
      exact ⟨y', List.mem_cons_of_mem _ hy', hr', by rw [List.find?_cons_of_neg (by exact hf)]; exact hfind⟩

theorem find_beside_none {α β : Type} {xs : List α} {f : α → Bool} (hx : xs.find? f = none)
    (ys : List β) : ((xs.zip ys).find? fun p => f p.1).map Prod.snd = none := by
  rw [Option.map_eq_none_iff, List.find?_eq_none]
  intro p hp
  exact List.find?_eq_none.mp hx p.1 (List.of_mem_zip hp).1

section Handoff

variable {A : Arena} {b : Builder} {m : Mem} {os : List Object} {plan : Plan} {tags : List Record}

/-- A blob that was held when the loader sealed the session is what the
kernel reads. -/
theorem HasBlob.copyAt {m' : Mem} {phys data len : Nat}
    (h : HasBlob A m blobs phys data len)
    (hheld : ∀ bl ∈ blobs, m'.bytes (A.ptr + bl.off) bl.bytes.length = bl.bytes)
    (hmap : Mapped A m' info kmem infoVa hint) : CopyAt A m kmem hint phys data len := by
  obtain ⟨bl, hbl, m₂, hm₂, rfl, hroom, hbytes⟩ := h
  have hlen : bl.bytes.length = len := by rw [hbytes, Mem.bytes_length]
  refine ⟨Nat.le_add_right _ _, by omega, fun hout => ?_⟩
  unfold Arena.Outside at hout hm₂
  have hthere := hheld bl hbl
  rw [hlen, hbytes] at hthere
  calc kmem.bytes (A.phys + bl.off + hint) len
      = m'.bytes (A.ptr + bl.off) len := by
        refine Mem.bytes_congr fun i hi => ?_
        rw [show A.phys + bl.off + hint + i = A.phys + hint + (bl.off + i) by omega,
          hmap.arena _ (by omega), Nat.add_assoc]
    _ = (m₂.copy (A.ptr + bl.off) data len).bytes (A.ptr + bl.off) len := hthere
    _ = m.bytes data len := by
        refine Mem.bytes_congr fun i hi => ?_
        rw [Mem.copy_apply (by omega) i hi, hm₂ _ (by omega)]

theorem Emitted.seen {m' : Mem} {o : Object} {r : Record}
    {used : Nat} (h : Emitted A m blobs o r) (hstands : r.Stands A used m')
    (hused : used ≤ A.capacity) (hat : r.At kmem (r.virt A hint))
    (hheld : ∀ bl ∈ blobs, m'.bytes (A.ptr + bl.off) bl.bytes.length = bl.bytes)
    (hmap : Mapped A m' info kmem infoVa hint) : Seen A m kmem hint o (r.virt A hint) := by
  obtain ⟨hid, hsize, _, phys, m₁, hout, hzero, hbody, hblob⟩ := h
  have hin := hstands.inside
  refine ⟨hat.id.trans hid, hat.size.trans hsize, phys, A.ptr + r.off, m₁, Nat.le_add_right _ _,
    by omega, hout, hzero, ?_, fun data len hsome => (hblob data len hsome).copyAt hheld hmap⟩
  intro i hlo hhi
  rw [hat.body i hlo (by omega), hbody]

/-- What an import hands over, behind the tags that were there before. -/
structure Handed (A : Arena) (m kmem : Mem) (infoVa hint : Nat) (tags : List Record)
    (os : List Object) (ts : List Nat) : Prop where
  init : ∀ out, out ≠ none → (initBounded out infoVa hint A.phys A.capacity).val kmem =
    (.ok, some (context A infoVa hint))
  seen : List.Forall₂ (Seen A m kmem hint) os ts
  delivers : Delivers (context A infoVa hint) kmem (tags.map (Record.virt A hint) ++ ts)
  finds : ∀ id, (∀ r ∈ tags, r.id ≠ id) →
    (findTag (some (context A infoVa hint)) id).val kmem =
      ((os.zip ts).find? fun p => decide (p.1.id = id)).map Prod.snd

theorem find_zip {rs : List Record} (h : List.Forall₂ (Emitted A m blobs) os rs)
    (id hint : Nat) :
    (rs.find? fun r => decide (r.id = id)).map (Record.virt A hint) =
      ((os.zip (rs.map (Record.virt A hint))).find? fun p => decide (p.1.id = id)).map Prod.snd := by
  induction h with
  | nil => rfl
  | @cons o r os rs hr _ ih =>
    rw [List.map_cons, List.zip_cons_cons]
    by_cases hid : o.id = id
    · rw [List.find?_cons_of_pos (by simpa [hr.id] using hid), List.find?_cons_of_pos (by simpa using hid)]
      rfl
    · rw [List.find?_cons_of_neg (by simpa [hr.id] using hid), List.find?_cons_of_neg (by simpa using hid)]
      exact ih

/-- The import sealed and read. -/
theorem Passed.handoff (h : Passed b m os plan) (hinv : Inv A ⟨b, m, tags⟩) {fuel : Nat}
    (hfuel : 1024 ≤ fuel) (hinfo : info ≠ 0) (hout : A.Outside info 144) (infoPhys : Nat) :
    ∃ m', builderFinalize fuel (emitAll os ⟨b, m, []⟩).builder (emitAll os ⟨b, m, []⟩).mem info
        infoPhys = some (infoPhys, (emitAll os ⟨b, m, []⟩).builder, m') ∧
      ∀ kmem infoVa hint, infoVa ≠ 0 → hint ≠ 0 → A.phys + hint + A.capacity < 2 ^ 64 →
        Mapped A m' info kmem infoVa hint → ∃ ts, Handed A m kmem infoVa hint tags os ts := by
  obtain ⟨rs, bls, hon, hemitted⟩ := h.onPlan hinv
  obtain ⟨m', heq, hsealed, hframe⟩ := hon.inv.finalizes hon.overflow
    (by dsimp only; rw [hon.used]; exact h.limit) hfuel hinfo hout infoPhys
  refine ⟨m', heq, ?_⟩
  intro kmem infoVa hint hva hhint hwrap hmap
  have hused : (emitAll os ⟨b, m, []⟩).builder.used ≤ A.capacity := hon.inv.used
  -- `finalize` writes INFO and checksums, and a blob is clear of both
  have hheld : ∀ bl ∈ bls, m'.bytes (A.ptr + bl.off) bl.bytes.length = bl.bytes := by
    intro bl hbl
    obtain ⟨hin, hthere, hapart⟩ := hon.held bl hbl
    have hplan := hon.used
    unfold Arena.Outside at hout
    refine (Mem.bytes_congr fun i hi => ?_).trans hthere
    refine hframe _ (by omega) fun r hr => ?_
    have hlow := (hon.inv.stands r hr).sizeLow
    have := hapart r hr
    omega
  obtain ⟨_, hdelivers, hat, hfind⟩ := hsealed.read
    (show some (⟨0, 0, false, 0, 0⟩ : Kctx) ≠ none by decide) hva hhint hwrap hmap
  refine ⟨rs.map (Record.virt A hint), fun out hsome => (hsealed.read hsome hva hhint hwrap hmap).1,
    ?_, ?_, fun id hnone => ?_⟩
  · rw [List.forall₂_map_right_iff, List.forall₂_iff_zip]
    refine ⟨hemitted.length_eq, fun {o r} hz => ?_⟩
    have hr : r ∈ tags ++ rs := List.mem_append_right _ (List.of_mem_zip hz).2
    exact ((List.forall₂_iff_zip.mp hemitted).2 hz).seen (hsealed.inv.stands r hr) hused (hat r hr)
      hheld hmap
  · rw [← List.map_append]
    exact hdelivers
  · rw [← find_zip hemitted]
    refine (hfind id).trans ?_
    have hold : tags.find? (fun r => decide (r.id = id)) = none := by
      rw [List.find?_eq_none]
      intro r hr
      simpa using hnone r hr
    rw [List.find?_append, hold, Option.none_or]

/-- Lookup after an import into a fresh builder, for an id that at most one
object has. -/
theorem Handed.lookup {id : Nat} {ts : List Nat} {p : Prop} [Decidable p]
    {o : Object} (h : Handed A m kmem infoVa hint [] os ts)
    (hobj : os.find? (fun o => decide (o.id = id)) = if p then some o else none) :
    ((∃ t, (findTag (some (context A infoVa hint)) id).val kmem = some t) ↔ p) ∧
      ∀ t, (findTag (some (context A infoVa hint)) id).val kmem = some t →
        p ∧ Seen A m kmem hint o t := by
  have hfind := h.finds id fun _ hr => by cases hr
  by_cases hp : p
  · rw [if_pos hp] at hobj
    obtain ⟨t, _, hseen, hzip⟩ := find_beside h.seen hobj
    rw [hzip] at hfind
    refine ⟨⟨fun _ => hp, fun _ => ⟨t, hfind⟩⟩, fun t' ht' => ⟨hp, ?_⟩⟩
    rw [hfind, Option.some.injEq] at ht'
    exact ht' ▸ hseen
  · rw [if_neg hp] at hobj
    rw [find_beside_none hobj ts] at hfind
    refine ⟨⟨fun ⟨t, ht⟩ => ?_, fun hp' => absurd hp' hp⟩, fun t ht => ?_⟩
    all_goals
      rw [hfind] at ht
      cases ht

end Handoff

/-! ## Imports one after the other -/

/-- The builder and the memory after a sequence of imports. -/
def Source.runAll (b : Builder) (m : Mem) (srcs : List Source) : Builder × Mem :=
  srcs.foldl (fun s src => ((src.run s.1 s.2).builder, (src.run s.1 s.2).mem)) (b, m)

/-- What the imports of a sequence emit, each on what the ones before left. -/
def Source.emitted (b : Builder) (m : Mem) : List Source → List Object
  | [] => []
  | src :: srcs =>
    (match (src.run b m).status with
      | .ok _ => src.objects b m
      | .error _ => []) ++ emitted (src.run b m).builder (src.run b m).mem srcs

section Sequence

variable {A : Arena} {b : Builder} {m : Mem} {tags : List Record}

theorem Source.run_refused {src : Source} (h : (src.run b m).status ≠ .ok ()) :
    (src.run b m).builder = b ∧ (src.run b m).mem = m := by
  cases src <;> exact finish_refused h

/-- One import after another on a session's builder, taken or refused. -/
theorem Source.runAll_inv (srcs : List Source) (hinv : Inv A ⟨b, m, tags⟩) (hover : b.overflow = false)
    (hused : b.used ≤ maxArena) :
    ∃ rs, Inv A ⟨(runAll b m srcs).1, (runAll b m srcs).2, tags ++ rs⟩ ∧
      (runAll b m srcs).1.overflow = false ∧ (runAll b m srcs).1.used ≤ maxArena ∧
      List.Forall₂ (fun (o : Object) r => r.id = o.id ∧ r.size = o.size) (emitted b m srcs) rs := by
  induction srcs generalizing b m tags with
  | nil => exact ⟨[], by rwa [List.append_nil], hover, hused, .nil⟩
  | cons src srcs ih =>
    rw [emitted, runAll, List.foldl_cons, ← runAll]
    cases hstatus : (src.run b m).status with
    | ok _ =>
      obtain ⟨plan, _, hpass, hrun⟩ := run_ok hstatus
      obtain ⟨rs, bls, hon, hemitted⟩ := hpass.onPlan hinv
      rw [hrun]
      obtain ⟨rs', hinv', hover', hused', hrest⟩ := ih hon.inv hon.overflow (by rw [hon.used]; exact hpass.limit)
      refine ⟨rs ++ rs', by rwa [← List.append_assoc], hover', hused', List.rel_append ?_ hrest⟩
      exact hemitted.imp fun o r h => ⟨h.id, h.size⟩
    | error e =>
      obtain ⟨hb, hm⟩ := run_refused (by rw [hstatus]; simp)
      rw [hb, hm]
      exact ih hinv hover hused

/-- Over any sequence of imports into a fresh builder, the kernel is handed
one tag for each object that the imports that were taken have emitted, in
that order, and nothing else. -/
theorem imports_delivered (A : Arena) (m₀ : Mem) (srcs : List Source) :
    ∃ b m rs, Source.runAll (Session.start A m₀).builder (Session.start A m₀).mem srcs = (b, m) ∧
      List.Forall₂ (fun (o : Object) r => r.id = o.id ∧ r.size = o.size)
        (Source.emitted (Session.start A m₀).builder (Session.start A m₀).mem srcs) rs ∧
      ∀ info infoPhys, info ≠ 0 → A.Outside info 144 →
        ∃ m', builderFinalize 1024 b m info infoPhys = some (infoPhys, b, m') ∧
          ∀ kmem infoVa hint, infoVa ≠ 0 → hint ≠ 0 → A.phys + hint + A.capacity < 2 ^ 64 →
            Mapped A m' info kmem infoVa hint →
            (∀ out, out ≠ none → (initBounded out infoVa hint A.phys A.capacity).val kmem =
              (.ok, some (context A infoVa hint))) ∧
            Delivers (context A infoVa hint) kmem (rs.map (Record.virt A hint)) ∧
            ∀ r ∈ rs, r.At kmem (r.virt A hint) := by
  have hover₀ : (Session.start A m₀).builder.overflow = false := by rw [start_eq]
  have hused₀ : (Session.start A m₀).builder.used ≤ maxArena := by rw [start_eq]; exact Nat.zero_le _
  obtain ⟨rs, hinv, hover, hused, hrs⟩ := Source.runAll_inv srcs (start_inv A m₀) hover₀ hused₀
  rw [List.nil_append] at hinv
  refine ⟨_, _, rs, rfl, hrs, fun info infoPhys hinfo hout => ?_⟩
  obtain ⟨m', heq, hsealed, _⟩ := hinv.finalizes hover hused (Nat.le_refl 1024) hinfo hout infoPhys
  refine ⟨m', heq, fun kmem infoVa hint hva hhint hwrap hmap => ⟨fun out hsome => ?_, ?_⟩⟩
  · exact (hsealed.read hsome hva hhint hwrap hmap).1
  · obtain ⟨_, hdelivers, hat, _⟩ := hsealed.read (Option.some_ne_none ⟨0, 0, false, 0, 0⟩) hva hhint hwrap hmap
    exact ⟨hdelivers, hat⟩

end Sequence

end BearBoot.Import
