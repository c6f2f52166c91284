import BearBoot.Kernel.Chain
import BearBoot.Bootloader.Session

/-!
# What the loader builds is what the kernel reads

Two programs that share no code: the builder bounds what it hands out, the
parser bounds what it accepts. `session_roundTrip` puts them together. For
every arena, every session over it and every way the kernel maps the
result, a session whose last `finalize` did not overflow is accepted, and
the parser delivers the caller's tags: all of them, in allocation order,
with the bytes the caller left in them.

It says nothing about a session that overflowed (the builder reports that
itself) and nothing about out-of-line blobs, whose contents the tag walk
never touches.
-/

namespace BearBoot.Bootloader

open Machine Kernel

variable {A : Arena} {fuel : Nat} {s : Session}

theorem run_snoc {s' : Session} {ops : List Op} (op : Op)
    (h : run A fuel s ops = some s') : run A fuel s (ops ++ [op]) = exec A fuel s' op := by
  induction ops generalizing s with
  | nil =>
    cases h
    rw [List.nil_append, run]
    cases exec A fuel s' op with
    | none => rfl
    | some s₁ => rfl
  | cons o ops ih =>
    rw [run] at h
    rw [List.cons_append, run]
    cases ho : exec A fuel s o with
    | none => rw [ho] at h; cases h
    | some s₁ =>
      rw [ho] at h
      exact ih h

/-- The kernel's memory shows the arena behind the hint, and INFO at
`infoVa`. -/
structure Mapped (A : Arena) (m : Mem) (info : Nat) (kmem : Mem) (infoVa hint : Nat) : Prop where
  arena : ∀ i < A.capacity, kmem (A.phys + hint + i) = m (A.ptr + i)
  info : ∀ i < 144, kmem (infoVa + i) = m (info + i)

/-- The kernel's address of a record's tag. -/
def Record.virt (A : Arena) (hint : Nat) (r : Record) : Nat := A.phys + r.off + hint

/-- A finalized session, as the kernel needs it. -/
structure Sealed (A : Arena) (s : Session) (info : Nat) : Prop where
  inv : Inv A s
  infoOk : InfoOk s.mem info
  first : infoFirstTag s.mem info = s.builder.firstPhys
  crc : ∀ r ∈ s.tags, CrcOk s.mem (A.ptr + r.off)

theorem Inv.firstPhys_lt (h : Inv A s) : s.builder.firstPhys < 2 ^ 64 := by
  have hpath := h.path
  cases htags : s.tags with
  | nil =>
    rw [htags] at hpath
    have hzero : s.builder.firstPhys = 0 := hpath
    omega
  | cons r rs =>
    rw [htags] at hpath
    have hfirst : s.builder.firstPhys = A.phys + r.off := hpath.1
    have hin := (h.stands r (by rw [htags]; exact List.mem_cons_self)).inside
    have hused := h.used
    have hbelow := A.below
    omega

/-- A `finalize` that leaves no overflow seals the session. -/
theorem sealed_of_finalize {f : Session} {info infoPhys : Nat} (h : Inv A s)
    (hfuel : 1024 ≤ fuel) (hinfo : info ≠ 0) (hout : A.Outside info 144)
    (hexec : exec A fuel s (.finalize info infoPhys) = some f)
    (hover : f.builder.overflow = false) : Sealed A f info := by
  obtain ⟨p, b, m, heq, hinv⟩ := builderFinalize_inv h hfuel hout infoPhys
  rw [exec, if_pos hout, heq] at hexec
  cases hexec
  rcases h.chain.finalize hfuel infoPhys with ⟨hz, _⟩ | ⟨_, _, heq'⟩ | ⟨_, hfit, m', heq', _, hcrc⟩
  · exact absurd hz hinfo
  · rw [heq] at heq'
    cases heq'
    cases hover
  · rw [heq] at heq'
    cases heq'
    have hused : s.builder.used ≤ 64 * 1024 * 1024 - 144 := by
      unfold Builder.Unfit at hfit
      omega
    rw [h.arena] at hcrc
    refine ⟨hinv, fillInfo_ok hused, fillInfo_firstTag h.firstPhys_lt, ?_⟩
    intro r hr
    have hin := (h.stands r hr).inside
    have hcap := h.used
    have hsize := (hinv.stands r hr).there.size
    have hlow := (hinv.stands r hr).sizeLow
    unfold Arena.Outside at hout
    -- INFO lies outside the arena, so filling it leaves the sealed tag as it is
    have hsame : ∀ i < r.size, fillInfo s.builder m' info (A.ptr + r.off + i) =
        m' (A.ptr + r.off + i) := fun i hi => fillInfo_frame (by omega)
    have hsize' : tagSize m' (A.ptr + r.off) = r.size := by
      rw [← hsize]
      exact tagSize_congr fun i hi => (hsame i (by omega)).symm
    exact (hcrc r hr (h.stands r hr).there.size).congr (by omega) fun i hi => hsame i (by omega)

/-- A builder that has not overflowed and is under the limit is sealed by
`finalize`, which writes INFO and the checksums of the tags and nothing
else. -/
theorem Inv.finalizes {info : Nat} (h : Inv A s)
    (hover : s.builder.overflow = false) (hlimit : s.builder.used ≤ 64 * 1024 * 1024 - 144)
    (hfuel : 1024 ≤ fuel) (hinfo : info ≠ 0) (hout : A.Outside info 144) (infoPhys : Nat) :
    ∃ m', builderFinalize fuel s.builder s.mem info infoPhys = some (infoPhys, s.builder, m') ∧
      Sealed A ⟨s.builder, m', s.tags⟩ info ∧
      ∀ a, a < info ∨ info + 144 ≤ a →
        (∀ r ∈ s.tags, a < A.ptr + r.off + 24 ∨ A.ptr + r.off + 32 ≤ a) → m' a = s.mem a := by
  obtain ⟨m', heq, hframe⟩ := builderFinalize_ok h hover hlimit hfuel hinfo infoPhys
  have hexec : exec A fuel s (.finalize info infoPhys) =
      some ⟨s.builder, fillInfo s.builder m' info, s.tags⟩ := by
    rw [exec, if_pos hout, heq]
  refine ⟨_, heq, sealed_of_finalize h hfuel hinfo hout hexec hover, fun a ha htags => ?_⟩
  rw [fillInfo_frame ha, hframe a htags]

variable {r : Record}

section Kernel

variable {A : Arena} {s : Session} {info infoVa hint : Nat} {kmem : Mem}

/-- A record's tag, byte for byte, at its kernel address. -/
theorem Mapped.tag (hmap : Mapped A s.mem info kmem infoVa hint) (h : Inv A s)
    (hr : r ∈ s.tags) : ∀ i < r.size, kmem (r.virt A hint + i) = s.mem (A.ptr + r.off + i) := by
  intro i hi
  have hin := (h.stands r hr).inside
  have hused := h.used
  have haddr : r.virt A hint + i = A.phys + hint + (r.off + i) := by
    unfold Record.virt
    omega
  rw [haddr, hmap.arena _ (by omega), Nat.add_assoc]

theorem Mapped.record (hmap : Mapped A s.mem info kmem infoVa hint) (h : Inv A s)
    (hr : r ∈ s.tags) : r.At kmem (r.virt A hint) :=
  (h.stands r hr).there.congr (h.stands r hr).sizeLow fun i hi _ => hmap.tag h hr i hi

/-- Every bound the builder keeps is at least as strict as the parser's. -/
theorem Mapped.tagOk (hmap : Mapped A s.mem info kmem infoVa hint) (h : Inv A s)
    (hwrap : A.phys + hint + A.capacity < 2 ^ 64) (hr : r ∈ s.tags) :
    TagOk ⟨infoVa, hint, true, A.phys, A.phys + A.capacity⟩ kmem (A.phys + r.off) := by
  obtain ⟨hal, hlow, hhigh, hin, _⟩ := h.stands r hr
  have hsize : tagSize kmem (A.phys + r.off + hint) = r.size := (hmap.record h hr).size
  have hused := h.used
  have hbelow := A.below
  have hphys := A.phys_ne
  have hdvd := Nat.dvd_add A.aligned hal
  refine ⟨by omega, Nat.mod_eq_zero_of_dvd hdvd, ?_, ?_, ?_, ?_, fun _ => ?_⟩
  all_goals
    change tagSize kmem (A.phys + r.off + hint) = r.size at hsize
    dsimp only
    rw [hsize]
    omega

theorem Sealed.presents (h : Sealed A s info) (hmap : Mapped A s.mem info kmem infoVa hint)
    (hwrap : A.phys + hint + A.capacity < 2 ^ 64) :
    Presents ⟨infoVa, hint, true, A.phys, A.phys + A.capacity⟩ kmem
      (s.tags.map fun r => A.phys + r.off) where
  path := by
    have hfirst : infoFirstTag kmem infoVa = s.builder.firstPhys := by
      rw [← h.first]
      refine Mem.getLE_congr fun i hi => ?_
      rw [Nat.add_assoc, Nat.add_assoc, hmap.info _ (by omega)]
    rw [hfirst]
    refine h.inv.path.congr fun p hp => ?_
    obtain ⟨r, hr, rfl⟩ := List.mem_map.mp hp
    have hlow := (h.inv.stands r hr).sizeLow
    rw [nextOf_off]
    refine Mem.getLE_congr fun i hi => ?_
    rw [Nat.add_assoc, Nat.add_assoc (A.ptr + r.off)]
    exact hmap.tag h.inv hr (16 + i) (by omega)
  count := by rw [List.length_map]; exact h.inv.chain.few
  ok := by
    intro p hp
    obtain ⟨r, hr, rfl⟩ := List.mem_map.mp hp
    exact hmap.tagOk h.inv hwrap hr
  crc := by
    intro p hp
    obtain ⟨r, hr, rfl⟩ := List.mem_map.mp hp
    have hsize := (h.inv.stands r hr).there.size
    have hlow := (h.inv.stands r hr).sizeLow
    exact (h.crc r hr).congr (by omega) fun i hi => hmap.tag h.inv hr i (by omega)

/-- A lookup in a sealed session, with any window that its tags are in. -/
theorem Sealed.finds {lo hi : Nat} (h : Sealed A s info) (hva : infoVa ≠ 0)
    (hwrap : A.phys + hint + A.capacity < 2 ^ 64) (hmap : Mapped A s.mem info kmem infoVa hint)
    (hwindow : lo < hi → lo ≤ A.phys ∧ A.phys + s.builder.used ≤ hi) (id : Nat) :
    (findTag (some ⟨infoVa, hint, true, lo, hi⟩) id).val kmem =
      (s.tags.find? fun r => decide (r.id = id)).map (Record.virt A hint) := by
  obtain ⟨hpath, hcount, hok, hcrc⟩ := h.presents hmap hwrap
  have hpresents : Presents ⟨infoVa, hint, true, lo, hi⟩ kmem (s.tags.map fun r => A.phys + r.off) := by
    refine ⟨hpath, hcount, fun p hp => { hok p hp with window := fun hlt => ?_ }, hcrc⟩
    obtain ⟨r, hr, rfl⟩ := List.mem_map.mp hp
    have hin := (h.inv.stands r hr).inside
    have hsize : tagSize kmem (A.phys + r.off + hint) = r.size := (hmap.record h.inv hr).size
    have := hwindow hlt
    dsimp only
    omega
  have hfind := hpresents.finds hva id
  rw [show (s.tags.map fun r => A.phys + r.off).map (· + hint) = s.tags.map (Record.virt A hint) from List.map_map,
    List.find?_map] at hfind
  rw [hfind]
  refine congrArg (Option.map (Record.virt A hint)) (List.find?_congr fun r hr => ?_)
  simp only [Function.comp, (hmap.record h.inv hr).id]

/-- The kernel takes a sealed session and reads its tags. -/
theorem Sealed.read (h : Sealed A s info) {out : Option Kctx} (hsome : out ≠ none) (hva : infoVa ≠ 0)
    (hhint : hint ≠ 0) (hwrap : A.phys + hint + A.capacity < 2 ^ 64)
    (hmap : Mapped A s.mem info kmem infoVa hint) :
    (initBounded out infoVa hint A.phys A.capacity).val kmem =
        (.ok, some ⟨infoVa, hint, true, A.phys, A.phys + A.capacity⟩) ∧
      Delivers ⟨infoVa, hint, true, A.phys, A.phys + A.capacity⟩ kmem
        (s.tags.map (Record.virt A hint)) ∧
      (∀ r ∈ s.tags, r.At kmem (r.virt A hint)) ∧
      ∀ id, (findTag (some ⟨infoVa, hint, true, A.phys, A.phys + A.capacity⟩) id).val kmem =
        (s.tags.find? fun r => decide (r.id = id)).map (Record.virt A hint) := by
  have hinit := initBounded_val hsome hva A.phys_ne (Nat.pos_iff_ne_zero.mp A.nonempty) A.below kmem
    hint (h.infoOk.congr hmap.info)
  rw [laterOffset_of_hint kmem (show (⟨infoVa, hint, true, A.phys, A.phys + A.capacity⟩ :
    Kctx).hhdmOffset ≠ 0 from hhint)] at hinit
  refine ⟨hinit, ?_, fun r hr => hmap.record h.inv hr, h.finds hva hwrap hmap fun _ => ⟨Nat.le_refl _, Nat.add_le_add_left h.inv.used _⟩⟩
  have hdelivers := (h.presents hmap hwrap).delivers hva
  rwa [List.map_map] at hdelivers

end Kernel

/-- The builder and the parser agree. -/
theorem session_roundTrip (A : Arena) (m : Mem) (ops : List Op) (info infoPhys fuel : Nat)
    (hfuel : 1024 ≤ fuel) (hinfo : info ≠ 0) (hout : A.Outside info 144) :
    ∃ f, run A fuel (Session.start A m) (ops ++ [.finalize info infoPhys]) = some f ∧
      (f.builder.overflow = false →
        ∀ (out : Option Kctx) (kmem : Mem) (infoVa hint : Nat),
          out ≠ none → infoVa ≠ 0 → hint ≠ 0 → A.phys + hint + A.capacity < 2 ^ 64 →
          Mapped A f.mem info kmem infoVa hint →
          ∃ k, (initBounded out infoVa hint A.phys A.capacity).val kmem = (.ok, some k) ∧
            Delivers k kmem (f.tags.map (Record.virt A hint)) ∧
            f.tags.Pairwise (fun r r' => r.virt A hint + r.size ≤ r'.virt A hint) ∧
            (∀ r ∈ f.tags, r.At kmem (r.virt A hint)) ∧
            ∀ id, (findTag (some k) id).val kmem =
              (f.tags.find? fun r => decide (r.id = id)).map (Record.virt A hint)) := by
  obtain ⟨s, hrun, hinv⟩ := run_inv (start_inv A m) hfuel ops
  obtain ⟨f, hexec, _⟩ := exec_inv hinv hfuel (.finalize info infoPhys)
  refine ⟨f, (run_snoc _ hrun).trans hexec, ?_⟩
  intro hover out kmem infoVa hint hsome hva hhint hwrap hmap
  have hsealed := sealed_of_finalize hinv hfuel hinfo hout hexec hover
  obtain ⟨hinit, hdelivers, hat, hfind⟩ := hsealed.read hsome hva hhint hwrap hmap
  refine ⟨_, hinit, hdelivers, ?_, hat, hfind⟩
  refine hsealed.inv.chain.layout.imp fun {r r'} hrr => ?_
  unfold Record.virt
  omega

/-- A page of 256 bytes. -/
def smallArena : Arena :=
  ⟨0x2000, 0x2000, 0x100, by decide, by decide, by decide, by decide, by decide⟩

/-- Two tags, a byte in the body of the second, an early seal that goes
stale, and a blob between them. -/
def smallSession : List Op :=
  [.allocTag 7 1 40, .sealTag 0, .arenaBlob 0x1000 5, .allocTag 9 2 33, .write 0x2050 0xab]

/-- The small session is sealed, and the kernel finds its second tag. -/
theorem session_roundTrip_small :
    ∃ f, run smallArena 1024 (Session.start smallArena Mem.zeros)
        (smallSession ++ [.finalize 0x1000 0x1000]) = some f ∧
      ∃ k, (initBounded (some ⟨0, 0, false, 0, 0⟩) 0x11000 0x10000 0x2000 0x100).val
          (fun a => f.mem (a - 0x10000)) = (.ok, some k) ∧
        (findTag (some k) 9).val (fun a => f.mem (a - 0x10000)) = some 0x12030 := by
  obtain ⟨f, hrun, hall⟩ := session_roundTrip smallArena Mem.zeros smallSession 0x1000 0x1000 1024
    (by decide) (by decide) (by decide)
  have hover : (run smallArena 1024 (Session.start smallArena Mem.zeros)
      (smallSession ++ [.finalize 0x1000 0x1000])).map (fun f => f.builder.overflow) =
        some false := by decide +kernel
  have hsecond : (run smallArena 1024 (Session.start smallArena Mem.zeros)
      (smallSession ++ [.finalize 0x1000 0x1000])).map (fun f =>
        (f.tags.find? fun r => decide (r.id = 9)).map (Record.virt smallArena 0x10000)) =
          some (some 0x12030) := by decide +kernel
  rw [hrun, Option.map_some, Option.some.injEq] at hover hsecond
  obtain ⟨k, hinit, _, _, _, hfind⟩ := hall hover (some ⟨0, 0, false, 0, 0⟩)
    (fun a => f.mem (a - 0x10000)) 0x11000 0x10000 (by decide) (by decide) (by decide) (by decide)
    ⟨fun i _ => congrArg f.mem (by change 0x2000 + 0x10000 + i - 0x10000 = 0x2000 + i; omega),
      fun i _ => congrArg f.mem (by omega)⟩
  exact ⟨f, hrun, k, hinit, (hfind 9).trans hsecond⟩

end BearBoot.Bootloader
