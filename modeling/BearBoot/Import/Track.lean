import BearBoot.Bootloader.RoundTrip
import BearBoot.Import.Common

/-!
# Emission follows the plan

An import is a list of objects. Planning folds the bump allocator's
arithmetic over the list (`planAll`), emission folds the builder's calls
over the same list (`emitAll`), and each importer's two passes are those
folds for a list of its own.

`OnPlan` relates the two while they run: the builder has used the bytes
and counted the tags the plan says, the session's invariant holds for the
tags so far, the blobs so far hold their bytes and keep clear of the
tags, and memory outside the new bytes is as it was, the link of the tag
that was last when the import began apart. `OnPlan.emit` is the step,
`OnPlan.emitAll` the run. It also says what has been put down: one record
an object, with the body its stores leave (`Emitted`).
-/

set_option autoImplicit false

namespace BearBoot.Import

open Machine Bootloader

variable {b : Builder} {plan plan' : Plan} {bytes : Nat}

/-! ## Objects -/

/-- The plan of one object. -/
def planObject (b : Builder) (plan : Plan) (o : Object) : Except ImportError Plan :=
  match o.blob with
  | none => planTag b plan o.size
  | some (_, len) => planBlob b plan len >>= (planTag b · o.size)

def planAll (b : Builder) : List Object → Plan → Except ImportError Plan
  | [], plan => pure plan
  | o :: os, plan => planObject b plan o >>= planAll b os

def emitAll (os : List Object) (e : Emission) : Emission := os.foldl (fun e o => emit o e) e

/-- The objects of a presence test. -/
def objectIf (present : Bool) (o : Object) : List Object := if present then [o] else []

/-- An object whose stores stay in its body and whose blob has a source. -/
structure Object.Sound (o : Object) : Prop where
  source : ∀ data len, o.blob = some (data, len) → data ≠ 0
  within : ∀ phys tag m a, a < tag + 32 ∨ tag + o.size ≤ a → o.fill phys tag m a = m a
  id_lt : o.id < 2 ^ 64

theorem planAll_append (b : Builder) (os os' : List Object) (plan : Plan) :
    planAll b (os ++ os') plan = planAll b os plan >>= planAll b os' := by
  induction os generalizing plan with
  | nil => rfl
  | cons o os ih =>
    rw [List.cons_append, planAll, planAll]
    cases planObject b plan o with
    | error e => rfl
    | ok plan => exact ih plan

theorem planAll_objectIf (b : Builder) (present : Bool) (o : Object) :
    planAll b (objectIf present o) = planIf present (planObject b · o) := by
  funext plan
  cases present with
  | false => rfl
  | true =>
    rw [objectIf, if_pos rfl, planAll, planIf, if_pos rfl]
    cases planObject b plan o with
    | error e => rfl
    | ok plan => rfl

theorem emitAll_append (os os' : List Object) (e : Emission) :
    emitAll (os ++ os') e = emitAll os' (emitAll os e) := List.foldl_append

theorem emitAll_objectIf (present : Bool) (o : Object) (e : Emission) :
    emitAll (objectIf present o) e = emitIf present o e := by
  cases present <;> rfl

theorem find_objectIf (present : Bool) (o : Object) (id : Nat) :
    (objectIf present o).find? (fun o => decide (o.id = id)) =
      if present = true ∧ o.id = id then some o else none := by
  cases present with
  | false => rfl
  | true =>
    rw [objectIf, if_pos rfl]
    by_cases hid : o.id = id
    · rw [List.find?_cons_of_pos (by simpa using hid), if_pos ⟨rfl, hid⟩]
    · rw [List.find?_cons_of_neg (by simpa using hid), if_neg (fun h => hid h.2)]
      rfl

/-! ## What a plan says -/

/-- The arithmetic of a successful plan: room in the arena and under the
limit. -/
structure Room (b : Builder) (plan : Plan) (bytes : Nat) : Prop where
  used : plan.used ≤ sizeMax - 7
  capacity : roundUp plan.used 8 + bytes ≤ b.capacity
  limit : roundUp plan.used 8 + bytes ≤ maxArena

theorem planAllocation_ok (h : planAllocation b plan bytes = .ok plan') :
    Room b plan bytes ∧ plan' = { plan with used := roundUp plan.used 8 + bytes } := by
  unfold planAllocation at h
  simp only [ok_bind_iff, refuse_ok_iff, exists_const, pure_ok_iff, not_or, Nat.not_lt] at h
  obtain ⟨hused, _, ⟨hcap, hlimit⟩, _, rfl⟩ := h
  have hstart : (plan.used + 7) &&& not64 7 = roundUp plan.used 8 :=
    add_and_not64 (k := 3) (by decide) (by unfold sizeMax at hused; omega)
  rw [hstart] at hcap hlimit ⊢
  exact ⟨⟨hused, hcap, hlimit⟩, rfl⟩

theorem planTag_ok (h : planTag b plan bytes = .ok plan') :
    32 ≤ bytes ∧ bytes ≤ 16777216 ∧ plan.tagCount < 1024 ∧ Room b plan bytes ∧
      plan' = ⟨roundUp plan.used 8 + bytes, plan.tagCount + 1⟩ := by
  unfold planTag at h
  simp only [ok_bind_iff, refuse_ok_iff, exists_const, pure_ok_iff, not_or, Nat.not_lt,
    Nat.not_le] at h
  obtain ⟨⟨hlow, hhigh, _⟩, hcount, plan₁, hplan, rfl⟩ := h
  obtain ⟨hroom, rfl⟩ := planAllocation_ok hplan
  exact ⟨hlow, hhigh, hcount, hroom, rfl⟩

theorem planBlob_ok (h : planBlob b plan bytes = .ok plan') :
    bytes ≠ 0 ∧ Room b plan bytes ∧ plan' = { plan with used := roundUp plan.used 8 + bytes } := by
  unfold planBlob at h
  simp only [ok_bind_iff, refuse_ok_iff, exists_const] at h
  exact ⟨h.1, planAllocation_ok h.2⟩

/-! ## Following the plan -/

/-- Bytes copied into the arena. -/
structure Blob where
  off : Nat
  bytes : List UInt8

/-- The blob is where it was put, clear of the tags. -/
structure Blob.Held (A : Arena) (used : Nat) (m : Mem) (tags : List Record) (bl : Blob) : Prop where
  inside : bl.off + bl.bytes.length ≤ used
  there : m.bytes (A.ptr + bl.off) bl.bytes.length = bl.bytes
  apart : ∀ r ∈ tags, r.off + r.size ≤ bl.off ∨ bl.off + bl.bytes.length ≤ r.off

/-- The emission stands where the plan says, on a session that began as `s₀`. -/
structure OnPlan (A : Arena) (s₀ : Session) (plan : Plan) (tags : List Record) (blobs : List Blob)
    (e : Emission) : Prop where
  inv : Inv A ⟨e.builder, e.mem, tags⟩
  used : e.builder.used = plan.used
  count : e.builder.tagCount = plan.tagCount
  overflow : e.builder.overflow = false
  answers : ∀ p ∈ e.answers, p ≠ 0
  grown : s₀.builder.used ≤ plan.used
  last : e.builder.last = s₀.builder.last ∨ A.ptr + s₀.builder.used ≤ e.builder.last
  frame : ∀ a, a < A.ptr + s₀.builder.used ∨ A.ptr + plan.used ≤ a → ¬ s₀.builder.InLink a →
    e.mem a = s₀.mem a
  held : ∀ bl ∈ blobs, bl.Held A plan.used e.mem tags

variable {o : Object}

section Follow

variable {A : Arena} {s₀ : Session} {b : Builder} {plan plan' : Plan} {tags : List Record}
  {blobs : List Blob} {e : Emission}

/-- Outside the arena nothing has changed. -/
theorem OnPlan.outside (h : OnPlan A s₀ plan tags blobs e) (h₀ : Inv A s₀) {a : Nat}
    (ha : A.Outside a 1) : e.mem a = s₀.mem a := by
  unfold Arena.Outside at ha
  have hcap : e.builder.used ≤ A.capacity := h.inv.used
  have hused := h.used
  have hused₀ := h₀.used
  refine h.frame a (by omega) ?_
  rintro ⟨hne, hlo, hhi⟩
  obtain ⟨l, _, heq, hin, hsize⟩ := h₀.last_tag hne
  omega

/-- An allocation behind what is used, and a store to the last tag's link:
the bytes from before the import stay, and so do the blobs. -/
theorem OnPlan.grow (h : OnPlan A s₀ plan tags blobs e) {m' : Mem} {start len : Nat}
    (hstart : plan.used ≤ start)
    (hm : ∀ a, a < A.ptr + start ∨ A.ptr + start + len ≤ a → ¬ e.builder.InLink a → m' a = e.mem a) :
    (∀ a, a < A.ptr + s₀.builder.used ∨ A.ptr + (start + len) ≤ a → ¬ s₀.builder.InLink a →
      m' a = s₀.mem a) ∧
    ∀ bl ∈ blobs, bl.Held A (start + len) m' tags := by
  have hlast : e.builder.last ≠ 0 → ∃ l ∈ tags, e.builder.last = A.ptr + l.off ∧
      l.off + l.size ≤ plan.used ∧ 32 ≤ l.size := by
    rw [← h.used]
    exact h.inv.last_tag
  have hgrown := h.grown
  refine ⟨fun a ha hlink => ?_, fun bl hbl => ?_⟩
  · rw [hm a (by omega), h.frame a (by omega) hlink]
    rintro ⟨hne, hlo, hhi⟩
    obtain ⟨l, _, heq, hin, hsize⟩ := hlast hne
    -- the last tag is the one the import found, or one of its own
    rcases h.last with hsame | hnew
    · exact hlink ⟨by rw [← hsame]; exact hne, by omega, by omega⟩
    · omega
  · obtain ⟨hin, hthere, hapart⟩ := h.held bl hbl
    refine ⟨by omega, ?_, hapart⟩
    refine (Mem.bytes_congr fun i hi => ?_).trans hthere
    refine hm _ (by omega) ?_
    rintro ⟨hne, hlo, hhi⟩
    obtain ⟨l, hl, heq, _, hsize⟩ := hlast hne
    have := hapart l hl
    omega

/-- One more answer that is not `NULL`. -/
theorem OnPlan.answered (h : OnPlan A s₀ plan tags blobs e) {p : Nat} (hp : p ≠ 0) :
    ∀ q ∈ e.answers ++ [p], q ≠ 0 :=
  List.forall_mem_append.mpr ⟨h.answers, List.forall_mem_singleton.mpr hp⟩

/-- The copy of a blob. -/
theorem OnPlan.blob (h : OnPlan A s₀ plan tags blobs e) (hcap : b.capacity = A.capacity)
    {data len : Nat} (hdata : data ≠ 0) (hplan : planBlob b plan len = .ok plan') :
    (takeBlob (some (data, len)) e).1 = A.phys + roundUp plan.used 8 ∧
      OnPlan A s₀ plan' tags
        (blobs ++ [⟨roundUp plan.used 8, (e.mem.copy (A.ptr + roundUp plan.used 8) data len).bytes
          (A.ptr + roundUp plan.used 8) len⟩]) (takeBlob (some (data, len)) e).2 := by
  obtain ⟨hlen, hroom, rfl⟩ := planBlob_ok hplan
  have hle := le_roundUp plan.used (show 0 < 8 by decide)
  have hfits : roundUp plan.used 8 + len ≤ A.capacity := by
    rw [← hcap]
    exact hroom.capacity
  have hphys := A.phys_ne
  have hgrown := h.grown
  have hblob : arenaBlob e.builder e.mem data len =
      (A.phys + roundUp plan.used 8, { e.builder with used := roundUp plan.used 8 + len },
        e.mem.copy (A.ptr + roundUp plan.used 8) data len) := by
    rw [← h.used]
    exact arenaBlob_of_room h.inv h.overflow hdata hlen (by rw [h.used]; exact hfits)
  have htake : takeBlob (some (data, len)) e =
      (A.phys + roundUp plan.used 8,
        ⟨{ e.builder with used := roundUp plan.used 8 + len },
          e.mem.copy (A.ptr + roundUp plan.used 8) data len,
          e.answers ++ [A.phys + roundUp plan.used 8]⟩) := by
    simp only [takeBlob, hblob]
  rw [htake]
  refine ⟨rfl, ?_⟩
  have hframe : ∀ a, a < A.ptr + roundUp plan.used 8 ∨ A.ptr + roundUp plan.used 8 + len ≤ a →
      e.mem.copy (A.ptr + roundUp plan.used 8) data len a = e.mem a := fun a ha => Mem.copy_frame ha
  have hfits' : roundUp e.builder.used 8 + len ≤ A.capacity := by
    rw [h.used]
    exact hfits
  have hinv := h.inv.bump hfits'
    (e.mem.copy (A.ptr + roundUp plan.used 8) data len) (by rw [h.used]; exact hframe)
  rw [h.used] at hinv
  obtain ⟨hbefore, hheld⟩ := h.grow hle fun a ha _ => hframe a ha
  refine ⟨hinv, rfl, h.count, h.overflow, h.answered (by omega),
    Nat.le_trans hgrown (by dsimp only; omega), h.last, hbefore,
    List.forall_mem_append.mpr ⟨hheld, List.forall_mem_singleton.mpr ⟨?_, ?_, fun r hr => Or.inl ?_⟩⟩⟩
  · rw [Mem.bytes_length]
  · rw [Mem.bytes_length]
  · have hin : r.off + r.size ≤ e.builder.used := (h.inv.stands r hr).inside
    rw [h.used] at hin
    exact Nat.le_trans hin hle

/-- The tag and its stores. -/
theorem OnPlan.tag (h : OnPlan A s₀ plan tags blobs e) (hcap : b.capacity = A.capacity)
    (hsound : o.Sound) (hplan : planTag b plan o.size = .ok plan') (phys : Nat) :
    ∃ m₁, (∀ a, a < A.ptr + roundUp plan.used 8 ∨ A.ptr + roundUp plan.used 8 + o.size ≤ a →
        ¬ e.builder.InLink a → m₁ a = e.mem a) ∧
      (∀ i, 32 ≤ i → i < o.size → m₁ (A.ptr + roundUp plan.used 8 + i) = 0) ∧
      OnPlan A s₀ plan'
        (tags ++ [⟨roundUp plan.used 8, o.id, 1, o.size, fun i =>
          o.fill phys (A.ptr + roundUp plan.used 8) m₁ (A.ptr + roundUp plan.used 8 + i)⟩])
        blobs (putTag o phys e) := by
  obtain ⟨hlow, hhigh, hcount, hroom, rfl⟩ := planTag_ok hplan
  have hle := le_roundUp plan.used (show 0 < 8 by decide)
  have hfits : roundUp plan.used 8 + o.size ≤ A.capacity := by
    rw [← hcap]
    exact hroom.capacity
  have hcount' : e.builder.tagCount < 1024 := by rwa [h.count]
  have harena : e.builder.arena = A.ptr := h.inv.arena
  have hptr := A.ptr_ne
  have hgrown := h.grown
  have halloc : allocTag e.builder e.mem o.id 1 o.size = (some (A.ptr + roundUp plan.used 8),
      linked e.builder e.mem (roundUp plan.used 8) o.id 1 o.size) := by
    rw [← h.used]
    exact allocTag_of_room h.inv h.overflow hlow hhigh hcount' (by rw [h.used]; exact hfits) o.id 1
  have hinv : Inv A ⟨(linked e.builder e.mem (roundUp plan.used 8) o.id 1 o.size).1,
      (linked e.builder e.mem (roundUp plan.used 8) o.id 1 o.size).2,
      tags ++ [fresh (roundUp plan.used 8) o.id 1 o.size]⟩ := by
    rw [← h.used]
    exact allocTag_inv h.inv hsound.id_lt (by decide) hlow hhigh hcount' (by rw [h.used]; exact hfits)
  generalize roundUp plan.used 8 = start at *
  generalize hlinked : linked e.builder e.mem start o.id 1 o.size = lk at *
  have hm₁ : ∀ a, a < A.ptr + start ∨ A.ptr + start + o.size ≤ a → ¬ e.builder.InLink a →
      lk.2.fill (A.ptr + start + 32) (o.size - 32) a = e.mem a := by
    intro a ha hlink
    unfold Builder.InLink at hlink
    rw [Mem.fill_apply, if_neg (by omega), ← hlinked]
    exact linked_frame (by omega) (by omega)
  have hput : putTag o phys e = ⟨lk.1,
      o.fill phys (A.ptr + start) (lk.2.fill (A.ptr + start + 32) (o.size - 32)),
      e.answers ++ [A.ptr + start]⟩ := by
    simp only [putTag, takeTag, halloc, Option.getD_some]
  have hfill : ∀ a, a < A.ptr + start ∨ A.ptr + start + o.size ≤ a → ¬ e.builder.InLink a →
      o.fill phys (A.ptr + start) (lk.2.fill (A.ptr + start + 32) (o.size - 32)) a = e.mem a := by
    intro a ha hlink
    rw [hsound.within _ _ _ a (by omega), hm₁ a ha hlink]
  refine ⟨lk.2.fill (A.ptr + start + 32) (o.size - 32), hm₁, ?_, ?_⟩
  · intro i hlo hhi
    rw [Mem.fill_apply, if_pos (by omega)]
  rw [hput]
  obtain ⟨hbefore, hheld⟩ := h.grow hle hfill
  refine ⟨hinv.rebody ?_, ?_, ?_, ?_, h.answered (by omega), ?_, ?_, hbefore, fun bl hbl => ?_⟩
  · intro a ha
    change a < A.ptr + start + 32 ∨ A.ptr + start + o.size ≤ a at ha
    dsimp only
    rw [hsound.within _ _ _ a ha, Mem.fill_apply, if_neg (by omega)]
  · rw [← hlinked]
    rfl
  · rw [← hlinked, ← h.count]
    rfl
  · rw [← hlinked]
    exact h.overflow
  · dsimp only
    omega
  · rw [← hlinked]
    refine Or.inr ?_
    change A.ptr + s₀.builder.used ≤ e.builder.arena + start
    omega
  · obtain ⟨hin, hthere, hapart⟩ := hheld bl hbl
    have hin' := (h.held bl hbl).inside
    exact ⟨hin, hthere, List.forall_mem_append.mpr ⟨hapart,
      List.forall_mem_singleton.mpr (Or.inr (by dsimp only; omega))⟩⟩

/-- The blob at `phys` was copied from `data`, in a memory that agrees with
the one before the import outside the arena. -/
def HasBlob (A : Arena) (m₀ : Mem) (blobs : List Blob) (phys data len : Nat) : Prop :=
  ∃ bl ∈ blobs, ∃ m₂ : Mem, (∀ a, A.Outside a 1 → m₂ a = m₀ a) ∧ phys = A.phys + bl.off ∧
    bl.off + len ≤ A.capacity ∧
    bl.bytes = (m₂.copy (A.ptr + bl.off) data len).bytes (A.ptr + bl.off) len

/-- What an object left in the arena: its record, with the body its stores
leave on zeroed bytes, and its blob. -/
structure Emitted (A : Arena) (m₀ : Mem) (blobs : List Blob) (o : Object) (r : Record) : Prop where
  id : r.id = o.id
  size : r.size = o.size
  aligned : 8 ∣ r.off
  body : ∃ (phys : Nat) (m₁ : Mem),
    (∀ a, A.Outside a 1 → m₁ a = m₀ a) ∧
    (∀ i, 32 ≤ i → i < o.size → m₁ (A.ptr + r.off + i) = 0) ∧
    (∀ i, r.body i = o.fill phys (A.ptr + r.off) m₁ (A.ptr + r.off + i)) ∧
    ∀ data len, o.blob = some (data, len) → HasBlob A m₀ blobs phys data len

theorem Emitted.mono {m₀ : Mem} {blobs' : List Blob} {r : Record}
    (h : Emitted A m₀ blobs o r) (hsub : ∀ bl ∈ blobs, bl ∈ blobs') : Emitted A m₀ blobs' o r := by
  obtain ⟨hid, hsize, hal, phys, m₁, hout, hzero, hbody, hblob⟩ := h
  refine ⟨hid, hsize, hal, phys, m₁, hout, hzero, hbody, fun data len hsome => ?_⟩
  obtain ⟨bl, hbl, hrest⟩ := hblob data len hsome
  exact ⟨bl, hsub bl hbl, hrest⟩

/-- One object: the emission follows its plan. -/
theorem OnPlan.emit (h : OnPlan A s₀ plan tags blobs e) (h₀ : Inv A s₀)
    (hcap : b.capacity = A.capacity) (hsound : o.Sound)
    (hplan : planObject b plan o = .ok plan') :
    ∃ r bls, OnPlan A s₀ plan' (tags ++ [r]) (blobs ++ bls) (emit o e) ∧
      Emitted A s₀.mem (blobs ++ bls) o r := by
  -- the tag behind whatever the blob has left
  have step : ∀ {plan₁ : Plan} {e₁ : Emission} (bls : List Blob) (phys : Nat),
      OnPlan A s₀ plan₁ tags (blobs ++ bls) e₁ → planTag b plan₁ o.size = .ok plan' →
      (∀ data len, o.blob = some (data, len) →
        HasBlob A s₀.mem (blobs ++ bls) phys data len) →
      ∃ r, OnPlan A s₀ plan' (tags ++ [r]) (blobs ++ bls) (putTag o phys e₁) ∧
        Emitted A s₀.mem (blobs ++ bls) o r := by
    intro plan₁ e₁ bls phys h₁ hplan₁ hblob
    obtain ⟨m₁, hframe, hzero, hnext⟩ := h₁.tag hcap hsound hplan₁ phys
    refine ⟨_, hnext, rfl, rfl, dvd_roundUp _ _, phys, m₁, fun a ha => ?_, hzero, fun _ => rfl, hblob⟩
    have hroom := (planTag_ok hplan₁).2.2.2.1.capacity
    rw [hcap] at hroom
    have hout := h₁.outside h₀ ha
    unfold Arena.Outside at ha
    rw [hframe a (by omega), hout]
    rintro ⟨hne, hlo, hhi⟩
    obtain ⟨l, _, heq, hin, hsize⟩ := h₁.inv.last_tag hne
    have hused := h₁.inv.used
    dsimp only at heq hin hused
    omega
  unfold planObject at hplan
  cases hob : o.blob with
  | none =>
    rw [hob] at hplan
    have hemit : Import.emit o e = putTag o 0 e := by simp only [Import.emit, takeBlob, hob]
    obtain ⟨r, hnext, hr⟩ := step [] 0 (by rw [List.append_nil]; exact h) hplan
      (by rw [hob]; exact fun _ _ hno => by cases hno)
    exact ⟨r, [], hemit ▸ hnext, hr⟩
  | some blob =>
    obtain ⟨data, len⟩ := blob
    rw [hob] at hplan
    obtain ⟨plan₁, hblob, htag⟩ := ok_bind_iff.mp hplan
    obtain ⟨hphys, h₁⟩ := h.blob hcap (hsound.source data len hob) hblob
    have hroom := (planBlob_ok hblob).2.1.capacity
    rw [hcap] at hroom
    have hemit : Import.emit o e =
        putTag o (takeBlob (some (data, len)) e).1 (takeBlob (some (data, len)) e).2 := by
      simp only [Import.emit, hob]
    obtain ⟨r, hnext, hr⟩ := step _ (takeBlob (some (data, len)) e).1 h₁ htag (by
      rw [hob]
      intro data' len' hsome
      cases hsome
      exact ⟨_, List.mem_append_right _ List.mem_cons_self, e.mem, fun a ha => h.outside h₀ ha, hphys,
        hroom, rfl⟩)
    exact ⟨r, _, hemit ▸ hnext, hr⟩

/-- All objects. -/
theorem OnPlan.emitAll (h : OnPlan A s₀ plan tags blobs e) (h₀ : Inv A s₀)
    (hcap : b.capacity = A.capacity) {os : List Object} (hsound : ∀ o ∈ os, o.Sound)
    (hplan : planAll b os plan = .ok plan') :
    ∃ rs bls, OnPlan A s₀ plan' (tags ++ rs) (blobs ++ bls) (emitAll os e) ∧
      List.Forall₂ (Emitted A s₀.mem (blobs ++ bls)) os rs := by
  induction os generalizing plan tags blobs e with
  | nil =>
    rw [planAll, pure_ok_iff] at hplan
    subst hplan
    exact ⟨[], [], by rw [List.append_nil, List.append_nil]; exact h, .nil⟩
  | cons o os ih =>
    obtain ⟨ho, hos⟩ := List.forall_mem_cons.mp hsound
    obtain ⟨plan₁, hfirst, hrest⟩ := ok_bind_iff.mp hplan
    obtain ⟨r, bls₁, h₁, hr⟩ := h.emit h₀ hcap ho hfirst
    obtain ⟨rs, bls, h₂, hrs⟩ := ih h₁ hos hrest
    refine ⟨r :: rs, bls₁ ++ bls, ?_, ?_⟩
    · rw [← List.append_assoc, List.append_cons]
      exact h₂
    · rw [← List.append_assoc]
      exact .cons (hr.mono fun bl hbl => List.mem_append_left _ hbl) hrs

end Follow

end BearBoot.Import
