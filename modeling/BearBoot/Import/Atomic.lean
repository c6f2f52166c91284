import BearBoot.Import.Objects

/-!
# An import happens as planned, or not at all

Emission does not look at what the builder answers, so an importer rests
on its plan. `import_atomic_exact` says that it may, for all three
importers at once. A refusal leaves the builder and the memory as they
were, whatever builder it was given. An import that succeeds on a
builder a loader can have (`Reachable`) was never answered `NULL`, has
used what the plan said, and has written nothing but the new bytes and the
link of the tag that was last; the loader can finalize straight away.

A builder that no session leads to is left out of the second half only. Its
fields may say anything, and the plan can check little of it: the last
tag might not be where the tag count says it is.
-/

set_option autoImplicit false

namespace BearBoot.Import

open Machine Bootloader

/-- What an importer is called with, beside the builder: the address of the
snapshot, and what is in it. -/
inductive Source where
  | limine (snapshot : Nat) (s : LimineSnapshot)
  | multiboot2 (snapshot : Nat) (s : Multiboot2Snapshot)
  | uefi (snapshot : Nat) (s : UefiSnapshot)

/-- The import of a source. -/
def Source.run (b : Builder) (m : Mem) : Source → Outcome
  | .limine snapshot s => importLimine b m snapshot s
  | .multiboot2 snapshot s => importMultiboot2 b m snapshot s
  | .uefi snapshot s => importUefiHobs b m snapshot s

/-- What the planning pass computes for a source. -/
def Source.plan (b : Builder) (m : Mem) : Source → Except ImportError Plan
  | .limine snapshot s => (limineCheck b m s snapshot).map LimineSizes.plan
  | .multiboot2 snapshot s => (mb2Check b m s snapshot).map Mb2Sizes.plan
  | .uefi snapshot s => (uefiCheck b m s snapshot).map UefiSizes.plan

/-- The objects the planning pass has gone over, none for a source that is
refused. -/
def Source.objects (b : Builder) (m : Mem) : Source → List Object
  | .limine snapshot s => ((limineCheck b m s snapshot).map (limineObjects s)).toOption.getD []
  | .multiboot2 snapshot s => ((mb2Check b m s snapshot).map (mb2Objects s)).toOption.getD []
  | .uefi snapshot s => ((uefiCheck b m s snapshot).map (uefiObjects s)).toOption.getD []

/-- The builder and the memory are what some session leaves. Over an arena
that cannot serve (an empty one, say), there are no sessions to speak of,
and every builder counts. -/
def Reachable (b : Builder) (m : Mem) : Prop :=
  ∀ A : Arena, A.ptr = b.arena → A.phys = b.arenaPhys → A.capacity = b.capacity →
    ∃ m₀ fuel ops s, 1024 ≤ fuel ∧ run A fuel (Session.start A m₀) ops = some s ∧
      s.builder = b ∧ s.mem = m

/-- A fresh builder counts. -/
theorem start_reachable (A : Arena) (m : Mem) : Reachable (Session.start A m).builder (Session.start A m).mem := by
  intro A' hptr hphys hcapacity
  rw [start_eq] at hptr hphys hcapacity
  obtain ⟨ptr, phys, capacity, _, _, _, _, _⟩ := A'
  cases A
  dsimp only at hptr hphys hcapacity
  subst hptr hphys hcapacity
  exact ⟨m, 1024, [], _, Nat.le_refl _, rfl, rfl, rfl⟩

/-- The import did what the plan says, and the builder can be finalized. -/
structure Exact (b : Builder) (m : Mem) (o : Outcome) (plan : Plan) : Prop where
  answers : ∀ p ∈ o.answers, p ≠ 0
  used : o.builder.used = plan.used
  count : o.builder.tagCount = plan.tagCount
  overflow : o.builder.overflow = false
  frame : ∀ a, a < b.arena + b.used ∨ b.arena + plan.used ≤ a → ¬ b.InLink a → o.mem a = m a
  finalizes : ∀ fuel info infoPhys, 1024 ≤ fuel → info ≠ 0 → ∃ m',
    builderFinalize fuel o.builder o.mem info infoPhys = some (infoPhys, o.builder, m')

/-! ## What planning has checked -/

section Plan

variable {b : Builder} {m : Mem} {plan plan' : Plan} {os : List Object}

/-- The builder a plan begins with. -/
structure Begun (b : Builder) (m : Mem) (plan : Plan) : Prop where
  plan_eq : plan = ⟨b.used, b.tagCount⟩
  arena : b.arena ≠ 0
  overflow : b.overflow = false
  used : b.used ≤ b.capacity
  limit : b.used ≤ maxArena
  phys : b.arenaPhys ≠ 0
  aligned : 8 ∣ b.arenaPhys
  below : b.arenaPhys + b.capacity ≤ 2 ^ 48
  chain : planChain b m = .ok ()

theorem planBegin_ok (h : planBegin b m = .ok plan) : Begun b m plan := by
  unfold planBegin at h
  simp only [ok_bind_iff, refuse_ok_iff, exists_const, pure_ok_iff, not_or, Nat.not_lt, Nat.not_le,
    not_not] at h
  obtain ⟨⟨harena, hover, hused, hlimit, _, hphys, halign, _, _⟩, ⟨hlow, hroom⟩, _, hchain, rfl⟩ := h
  unfold maxPhys at hlow hroom
  exact ⟨rfl, harena, Bool.eq_false_iff.mpr hover, hused, hlimit, hphys,
    (and_pred_two_pow_eq_zero (k := 3)).mp halign, by omega, hchain⟩

theorem planObject_limit {o : Object} (h : planObject b plan o = .ok plan') :
    plan'.used ≤ maxArena ∧ 32 ≤ b.capacity := by
  have htag : ∀ {plan₁ : Plan}, planTag b plan₁ o.size = .ok plan' →
      plan'.used ≤ maxArena ∧ 32 ≤ b.capacity := by
    intro plan₁ h
    obtain ⟨hlow, _, _, hroom, rfl⟩ := planTag_ok h
    have hcap := hroom.capacity
    exact ⟨hroom.limit, by omega⟩
  unfold planObject at h
  split at h
  next => exact htag h
  next =>
    obtain ⟨_, _, h⟩ := ok_bind_iff.mp h
    exact htag h

theorem planAll_limit (hlimit : plan.used ≤ maxArena) (h : planAll b os plan = .ok plan') :
    plan'.used ≤ maxArena := by
  induction os generalizing plan with
  | nil =>
    rw [planAll, pure_ok_iff] at h
    exact h ▸ hlimit
  | cons o os ih =>
    obtain ⟨plan₁, ho, hos⟩ := ok_bind_iff.mp h
    exact ih (planObject_limit ho).1 hos

/-- A blob that is planned is under the limit. -/
theorem planAll_blob (h : planAll b os plan = .ok plan') {o : Object} (ho : o ∈ os) {data len : Nat}
    (hblob : o.blob = some (data, len)) : len ≤ maxArena := by
  induction os generalizing plan with
  | nil => cases ho
  | cons o' os ih =>
    obtain ⟨plan₁, hfirst, hrest⟩ := ok_bind_iff.mp h
    rcases List.mem_cons.mp ho with rfl | ho
    · unfold planObject at hfirst
      rw [hblob] at hfirst
      obtain ⟨_, hplan, _⟩ := ok_bind_iff.mp hfirst
      have hlimit := (planBlob_ok hplan).2.1.limit
      omega
    · exact ih hrest ho

/-- Nothing is planned in an empty arena. -/
theorem planAll_empty (hcap : b.capacity = 0) (h : planAll b os plan = .ok plan') : os = [] := by
  cases os with
  | nil => rfl
  | cons o os =>
    obtain ⟨plan₁, ho, _⟩ := ok_bind_iff.mp h
    have hroom := (planObject_limit ho).2
    omega

/-- An arena a plan begins in can serve, unless it is empty. -/
def Begun.arenaOf (h : Begun b m plan) (hcap : b.capacity ≠ 0) : Arena :=
  ⟨b.arena, b.arenaPhys, b.capacity, h.arena, h.phys, h.aligned, Nat.pos_of_ne_zero hcap, h.below⟩

/-- A builder over an empty arena has no tags. -/
theorem Begun.no_tags (h : Begun b m plan) (hcap : b.capacity = 0) :
    b.tagCount = 0 ∧ b.firstPhys = 0 := by
  have hused := h.used
  have hchain := h.chain
  unfold planChain at hchain
  split at hchain
  next hcount =>
    rw [refuse_ok_iff, not_or, not_not, not_not] at hchain
    exact ⟨hcount, hchain.2⟩
  next =>
    simp only [refuse_ok_iff, not_or, Nat.not_lt] at hchain
    obtain ⟨_, _, _, _, _, _, _, _, hroom, _⟩ := hchain
    omega

end Plan

/-! ## Emission on a session -/

section Emit

variable {b : Builder} {m : Mem} {os : List Object} {plan : Plan}

/-- A check that has passed on a session's builder is followed by an emission
on plan. -/
theorem Passed.onPlan (h : Passed b m os plan) {A : Arena} {tags : List Record}
    (hinv : Inv A ⟨b, m, tags⟩) :
    ∃ rs bls, OnPlan A ⟨b, m, tags⟩ plan (tags ++ rs) bls (emitAll os ⟨b, m, []⟩) ∧
      List.Forall₂ (Emitted A m bls) os rs := by
  obtain ⟨⟨plan₀, hbegin, hall⟩, hsound⟩ := h
  have hb := planBegin_ok hbegin
  have hplan := hb.plan_eq
  have hstart : OnPlan A ⟨b, m, tags⟩ plan₀ tags [] ⟨b, m, []⟩ :=
    { inv := hinv
      used := by rw [hplan]
      count := by rw [hplan]
      overflow := hb.overflow
      answers := fun _ hp => by cases hp
      grown := by rw [hplan]
      last := Or.inl rfl
      frame := fun _ _ _ => rfl
      held := fun _ hbl => by cases hbl }
  exact hstart.emitAll hinv hinv.capacity hsound hall

theorem Passed.limit (h : Passed b m os plan) : plan.used ≤ maxArena := by
  obtain ⟨⟨plan₀, hbegin, hall⟩, _⟩ := h
  have hb := planBegin_ok hbegin
  refine planAll_limit ?_ hall
  rw [hb.plan_eq]
  exact hb.limit

/-- Emission on a session's builder is exact. -/
theorem Passed.exact (h : Passed b m os plan) {A : Arena} {tags : List Record}
    (hinv : Inv A ⟨b, m, tags⟩) :
    Exact b m ⟨.ok (), (emitAll os ⟨b, m, []⟩).builder, (emitAll os ⟨b, m, []⟩).mem,
      (emitAll os ⟨b, m, []⟩).answers⟩ plan := by
  obtain ⟨rs, bls, hon, _⟩ := h.onPlan hinv
  refine ⟨hon.answers, hon.used, hon.count, hon.overflow, ?_, ?_⟩
  · intro a ha hlink
    rw [show b.arena = A.ptr from hinv.arena] at ha
    exact hon.frame a ha hlink
  · intro fuel info infoPhys hfuel hinfo
    obtain ⟨m', heq, _⟩ := builderFinalize_ok hon.inv hon.overflow
      (by dsimp only; rw [hon.used]; exact h.limit) hfuel hinfo infoPhys
    exact ⟨_, heq⟩

/-- Over an empty arena nothing is emitted, and there is nothing to seal. -/
theorem Passed.exact_empty (h : Passed b m os plan) (hcap : b.capacity = 0) :
    Exact b m ⟨.ok (), (emitAll os ⟨b, m, []⟩).builder, (emitAll os ⟨b, m, []⟩).mem,
      (emitAll os ⟨b, m, []⟩).answers⟩ plan := by
  obtain ⟨⟨plan₀, hbegin, hall⟩, _⟩ := h
  have hb := planBegin_ok hbegin
  obtain ⟨hcount, hfirst⟩ := hb.no_tags hcap
  have hos := planAll_empty hcap hall
  subst hos
  rw [planAll, pure_ok_iff, hb.plan_eq] at hall
  subst hall
  refine ⟨(fun _ hp => by cases hp), rfl, rfl, hb.overflow, fun _ _ _ => rfl, ?_⟩
  intro fuel info infoPhys _ hinfo
  have hused := hb.used
  have hno : ¬ (b.overflow ∨ 1024 < b.tagCount ∨ b.capacity < b.used ∨
      64 * 1024 * 1024 - 144 < b.used) := by
    rw [hb.overflow]
    simp only [Bool.false_eq_true, false_or, not_or, Nat.not_lt]
    omega
  refine ⟨fillInfo b m info, ?_⟩
  change builderFinalize fuel b m info infoPhys = _
  unfold builderFinalize
  rw [if_neg hinfo, if_neg hno, hfirst]
  cases fuel <;> rfl

/-- A refusal changes nothing. -/
theorem finish_refused {α : Type} {checked : Except ImportError α} {emission : α → Emission → Emission}
    (h : (finish b m checked emission).status ≠ .ok ()) :
    (finish b m checked emission).builder = b ∧ (finish b m checked emission).mem = m := by
  cases checked with
  | error e => exact ⟨rfl, rfl⟩
  | ok a => exact absurd rfl h

theorem finish_ok {α : Type} {checked : Except ImportError α} {emission : α → Emission → Emission}
    (h : (finish b m checked emission).status = .ok ()) :
    ∃ a, checked = .ok a ∧ finish b m checked emission =
      ⟨.ok (), (emission a ⟨b, m, []⟩).builder, (emission a ⟨b, m, []⟩).mem,
        (emission a ⟨b, m, []⟩).answers⟩ := by
  cases checked with
  | error e => cases h
  | ok a => exact ⟨a, rfl, rfl⟩

/-- An import that succeeds has planned a list of objects and emits it. -/
theorem Source.run_ok {src : Source} (h : (src.run b m).status = .ok ()) :
    ∃ plan, src.plan b m = .ok plan ∧ Passed b m (src.objects b m) plan ∧
      src.run b m = ⟨.ok (), (emitAll (src.objects b m) ⟨b, m, []⟩).builder,
        (emitAll (src.objects b m) ⟨b, m, []⟩).mem,
        (emitAll (src.objects b m) ⟨b, m, []⟩).answers⟩ := by
  cases src with
  | limine snapshot s =>
    obtain ⟨sizes, hc, hrun⟩ := finish_ok h
    rw [limineEmit_eq] at hrun
    simp only [Source.plan, Source.objects, hc]
    exact ⟨_, rfl, limineCheck_passed hc, hrun⟩
  | multiboot2 snapshot s =>
    obtain ⟨sizes, hc, hrun⟩ := finish_ok h
    rw [mb2Emit_eq] at hrun
    simp only [Source.plan, Source.objects, hc]
    exact ⟨_, rfl, mb2Check_passed hc, hrun⟩
  | uefi snapshot s =>
    obtain ⟨sizes, hc, hrun⟩ := finish_ok h
    rw [uefiEmit_eq] at hrun
    simp only [Source.plan, Source.objects, hc]
    exact ⟨_, rfl, uefiCheck_passed hc, hrun⟩

end Emit

/-- The importers are failure-atomic, and exact when they succeed. -/
theorem import_atomic_exact (src : Source) (b : Builder) (m : Mem) :
    ((src.run b m).status ≠ .ok () → (src.run b m).builder = b ∧ (src.run b m).mem = m) ∧
      ((src.run b m).status = .ok () → Reachable b m →
        ∃ plan, src.plan b m = .ok plan ∧ Exact b m (src.run b m) plan) := by
  refine ⟨fun h => ?_, fun hok hreach => ?_⟩
  · cases src with
    | limine snapshot s => exact finish_refused h
    | multiboot2 snapshot s => exact finish_refused h
    | uefi snapshot s => exact finish_refused h
  · obtain ⟨plan, hplan, hpass, hrun⟩ := Source.run_ok hok
    refine ⟨plan, hplan, ?_⟩
    rw [hrun]
    have hb := planBegin_ok hpass.planned.choose_spec.1
    by_cases hcap : b.capacity = 0
    · exact hpass.exact_empty hcap
    · obtain ⟨m₀, fuel, ops, s, hfuel, hsession, rfl, rfl⟩ := hreach (hb.arenaOf hcap) rfl rfl rfl
      obtain ⟨s', hsession', hinv⟩ := run_inv (start_inv _ m₀) hfuel ops
      rw [hsession] at hsession'
      cases hsession'
      exact hpass.exact hinv

/-- A memory map of two entries at `0x3000`, and the command line `quiet`. -/
def snapshotMem : Mem :=
  (Mem.zeros.putWords 0x3000 [0, 0x9f000, 0, 0x100000, 0x3ff00000, 0]).blit 0x3100
    [0x71, 0x75, 0x69, 0x65, 0x74, 0]

/-- A snapshot of them, with the HHDM offset and the kernel's addresses. -/
def smallSnapshot : LimineSnapshot :=
  ⟨hasHhdm ||| hasMemoryMap ||| hasKernelAddress ||| hasCmdline, 0xffff800000000000, 0x200000,
    0xffffffff80000000, 0x3000, 2, 0, 0, 0, 0, ⟨0x3100, 6⟩, ⟨0, 0, 0, 0, 0, 0, 0, 0⟩, ⟨0, 0, 0, 0, 0⟩⟩

/-- The snapshot goes into a fresh builder over 512 bytes, as four tags, and
not over 128. -/
theorem import_atomic_exact_small :
    (∃ b m plan, builderInit snapshotMem 0x4000 0x4000 0x200 = (b, m) ∧
      ((Source.limine 0x100 smallSnapshot).run b m).status = .ok () ∧
      (Source.limine 0x100 smallSnapshot).plan b m = .ok plan ∧
      ((Source.limine 0x100 smallSnapshot).run b m).builder.tagCount = 4 ∧
      Exact b m ((Source.limine 0x100 smallSnapshot).run b m) plan) ∧
    ∃ b m, builderInit snapshotMem 0x4000 0x4000 0x80 = (b, m) ∧
      ((Source.limine 0x100 smallSnapshot).run b m).status ≠ .ok () ∧
      ((Source.limine 0x100 smallSnapshot).run b m).builder = b ∧
      ((Source.limine 0x100 smallSnapshot).run b m).mem = m := by
  refine ⟨?_, _, _, rfl, ?_⟩
  · obtain ⟨⟨b, m⟩, hinit⟩ : ∃ start, builderInit snapshotMem 0x4000 0x4000 0x200 = start := ⟨_, rfl⟩
    have hok : ((Source.limine 0x100 smallSnapshot).run b m).status = .ok () ∧
        ((Source.limine 0x100 smallSnapshot).run b m).builder.tagCount = 4 := by
      cases hinit
      decide +kernel
    obtain ⟨plan, hplan, hexact⟩ := (import_atomic_exact _ _ _).2 hok.1 (by
      cases hinit
      intro A hptr hphys hcap
      refine ⟨snapshotMem, 1024, [], _, Nat.le_refl _, rfl, ?_, ?_⟩
      all_goals
        rw [Session.start, hptr, hphys, hcap]
        rfl)
    exact ⟨b, m, plan, hinit, hok.1, hplan, hok.2, hexact⟩
  · have hrefused : ((Source.limine 0x100 smallSnapshot).run
        (builderInit snapshotMem 0x4000 0x4000 0x80).1
        (builderInit snapshotMem 0x4000 0x4000 0x80).2).status ≠ .ok () := by decide +kernel
    exact ⟨hrefused, (import_atomic_exact _ _ _).1 hrefused⟩

end BearBoot.Import
