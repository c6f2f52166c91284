import BearBoot.Bootloader.Session
import BearBoot.Security.Model

/-!
# A collection that fails leaves no trace but the TPM's

`securityCollect_undone` is about every status but `OK`. Whatever the builder,
the sources and the platform are, whatever the TPM answers and whichever
allocator is called, the builder and the memory are what they were, and
`abort` was called once if the TPM has extended anything, and else not
at all. Memory is all of it: the arena, `*out_tag`, the tags there were.

Of the allocator it is assumed that it leaves `builder->arena` alone and
writes nowhere but into the planned bytes and the link of the tag that
was last (`Contained`). It may fail, answer any pointer, leave any number
in the other fields of the builder. The allocator of the builder API is
one such (`UsesBuilder.keeps_plan`).

What a collection that succeeds has published is not said here.
-/

set_option autoImplicit false

namespace BearBoot.Security

open Machine Bootloader Tcg2

variable {sources : List SecuritySource} {records : List UInt8} {p : SecurityPlatform}

/-! ## The plan -/

/-- The plan for `n` measurements, by the builder's bump allocator. -/
def planFor (b : Builder) (n : Nat) : SecurityPlan :=
  let blobStart := roundUp b.used 8
  let tagStart := roundUp (blobStart + n * measurementSize) 8
  ⟨blobStart, blobStart + n * measurementSize, tagStart, tagStart + securityTagSize,
    n * measurementSize⟩

/-- What `validate_builder` has checked. -/
structure Planned (b : Builder) (n : Nat) (plan : SecurityPlan) : Prop where
  plan_eq : plan = planFor b n
  arena : b.arena ≠ 0
  overflow : b.overflow = false
  count : b.tagCount < 1024
  capacity : plan.tagEnd ≤ b.capacity
  limit : plan.tagEnd ≤ maxArena
  pointer : b.arena + b.capacity < 2 ^ 64
  last : b.last ≠ 0 → b.arena ≤ b.last ∧ b.last + 32 ≤ b.arena + b.used

section Validate

variable {b : Builder} {m : Mem} {n : Nat} {plan : SecurityPlan}

theorem align8_ok {value out : Nat} (h : align8 value = .ok out) : out = roundUp value 8 := by
  unfold align8 at h
  simp only [ok_bind_iff, refuse_ok_iff, exists_const, pure_ok_iff, Nat.not_lt] at h
  obtain ⟨hfits, rfl⟩ := h
  unfold sizeMax at hfits
  exact add_and_not64 (k := 3) (by decide) (by omega)

theorem validateChain_last (h : validateChain b m = .ok ()) (hne : b.last ≠ 0) :
    b.arena ≤ b.last ∧ b.last + 32 ≤ b.arena + b.used := by
  unfold validateChain at h
  split at h
  next =>
    rw [refuse_ok_iff, not_or] at h
    exact absurd hne h.1
  next =>
    simp only [refuse_ok_iff, not_or, Nat.not_lt] at h
    omega

theorem validateBuilder_ok (h : validateBuilder b m n = .ok plan) : Planned b n plan := by
  unfold validateBuilder at h
  simp only [ok_bind_iff, refuse_ok_iff, exists_const, pure_ok_iff, not_or, Nat.not_lt, Nat.not_le]
    at h
  obtain ⟨⟨harena, hover, _, _, _, _, _, _, hptr, _, _⟩, _, hchain, hcount, blobStart, hblob, _, tagStart,
    htag, _, ⟨hcap, hlimit⟩, _, _, rfl⟩ := h
  obtain rfl := align8_ok hblob
  obtain rfl := align8_ok htag
  have hcap' := hcap
  unfold securityTagSize at hcap'
  unfold sizeMax at hptr
  exact ⟨rfl, harena, Bool.eq_false_iff.mpr hover, hcount, hcap, hlimit, by omega,
    fun hne => validateChain_last hchain hne⟩

theorem Planned.blobStart (h : Planned b n plan) : plan.blobStart = roundUp b.used 8 := by
  rw [h.plan_eq]; rfl

theorem Planned.blobEnd (h : Planned b n plan) : plan.blobEnd = plan.blobStart + n * 144 := by
  rw [h.plan_eq]; rfl

theorem Planned.tagStart (h : Planned b n plan) : plan.tagStart = roundUp plan.blobEnd 8 := by
  rw [h.plan_eq]; rfl

theorem Planned.tagEnd (h : Planned b n plan) : plan.tagEnd = plan.tagStart + 128 := by
  rw [h.plan_eq]; rfl

theorem Planned.logBytes (h : Planned b n plan) : plan.logBytes = n * 144 := by
  rw [h.plan_eq]; rfl

/-- The plan's places, one behind the other. -/
theorem Planned.order (h : Planned b n plan) :
    b.used ≤ plan.blobStart ∧ plan.blobStart ≤ plan.blobEnd ∧ plan.blobEnd ≤ plan.tagStart ∧
      plan.tagStart ≤ plan.tagEnd := by
  have hblob := le_roundUp b.used (show 0 < 8 by decide)
  have htag := le_roundUp plan.blobEnd (show 0 < 8 by decide)
  rw [← h.blobStart] at hblob
  rw [← h.tagStart] at htag
  exact ⟨hblob, by rw [h.blobEnd]; omega, htag, by rw [h.tagEnd]; omega⟩

end Validate

/-! ## What an allocator may touch -/

/-- The planned bytes. -/
def InSpan (b : Builder) (plan : SecurityPlan) (a : Nat) : Prop :=
  b.arena + plan.blobStart ≤ a ∧ a < b.arena + plan.tagEnd

/-- What an allocator keeps: the arena's pointer, and every byte that is
not planned and not in the last tag's link. -/
structure Kept (b : Builder) (m : Mem) (plan : SecurityPlan) (b' : Builder) (m' : Mem) : Prop where
  arena : b'.arena = b.arena
  mem : ∀ a, ¬ InSpan b plan a → ¬ b.InLink a → m' a = m a

/-- The allocator keeps to that in the two calls a collection makes: on the
builder as it is, and on one that has passed the test for the log. -/
structure Contained {σ : Type} (cb : Callbacks σ) (b : Builder) (m : Mem) (plan : SecurityPlan) :
    Prop where
  log : ∀ st records, Kept b m plan
    (cb.arenaAllocate st b m .measurements (some records) plan.logBytes).1.builder
    (cb.arenaAllocate st b m .measurements (some records) plan.logBytes).1.mem
  tag : ∀ st b' m', Kept b m plan b' m' → b'.used = plan.blobEnd → b'.tagCount = b.tagCount →
    b'.last = b.last → b'.firstPhys = b.firstPhys → b'.overflow = false → Kept b m plan
      (cb.arenaAllocate st b' m' .tag none securityTagSize).1.builder
      (cb.arenaAllocate st b' m' .tag none securityTagSize).1.mem

/-! ## What was called -/

/-- A `hash_extend` that returned zero. -/
def Call.extended : Call → Bool
  | .hashExtend _ _ _ _ (some _) => true
  | _ => false

def Call.isAbort : Call → Bool
  | .abort _ => true
  | _ => false

/-- `abort` was called once, with `BBP_SECURITY_ERR_PUBLISH_AFTER_TPM`, if the
TPM has extended anything, and else not at all. -/
def AbortTold (calls : List Call) : Prop :=
  calls.filter Call.isAbort = if calls.any Call.extended then [.abort .publishAfterTpm] else []

section Undo

variable {σ : Type} {cb : Callbacks σ} {b : Builder} {m : Mem} {plan : SecurityPlan} {n : Nat}

/-- Nothing is left of what went on in between. -/
structure Undone (b : Builder) (m : Mem) (c : Collector σ) : Prop where
  builder : c.builder = b
  mem : c.mem = m
  told : AbortTold c.calls

/-- An abort behind an extend, where there was none yet. -/
theorem abortAfterTpm_undone {α : Type} {c : Collector σ} (hb : c.builder = b) (hm : c.mem = m)
    (hno : c.calls.filter Call.isAbort = []) (hext : c.calls.any Call.extended = true) :
    Undone b m (abortAfterTpm (α := α) cb .publishAfterTpm c).2 := by
  refine ⟨hb, hm, ?_⟩
  simp only [AbortTold, abortAfterTpm, List.filter_append, hno, List.any_append, hext, Bool.true_or,
    if_true]
  rfl

/-- The bytes and the builder that were saved are back. -/
theorem rollbackPublish_restores {c : Collector σ} (hplan : Planned b n plan)
    (h : Kept b m plan c.builder c.mem) :
    rollbackPublish (save b m plan) plan.blobStart c = { c with builder := b, mem := m } := by
  obtain ⟨_, hlog, htag, hend⟩ := hplan.order
  have hkeep : ∀ a, ¬ (b.arena + plan.blobStart ≤ a ∧
      a < b.arena + plan.blobStart + (plan.tagEnd - plan.blobStart)) → ¬ b.InLink a → c.mem a = m a :=
    fun a hspan => h.mem a (by unfold InSpan; omega)
  have hmem : (rollbackPublish (save b m plan) plan.blobStart c).mem = m := by
    funext a
    unfold rollbackPublish save
    dsimp only
    rw [h.arena]
    by_cases hlast : b.last ≠ 0
    · rw [if_pos hlast, if_pos hlast, put64, tagNext, get64, Mem.putLE_getLE_apply]
      split
      next => rfl
      next hlink =>
        rw [Mem.blit_bytes_apply]
        split
        next => rfl
        next hspan => exact hkeep a hspan fun hin => hlink hin.2
    · rw [if_neg hlast, Mem.blit_bytes_apply]
      split
      next => rfl
      next hspan => exact hkeep a hspan fun hin => hlast hin.1
  change ({ c with builder := b, mem := (rollbackPublish (save b m plan) plan.blobStart c).mem } :
    Collector σ) = _
  rw [hmem]

/-! ## The measuring loop -/

theorem hashLoop_error {i : Nat}
    {c c' : Collector σ} {e : SecurityError} (h : hashLoop cb i sources records c = (.error e, c'))
    (hi : i = c.calls.countP Call.extended) (hno : c.calls.filter Call.isAbort = []) :
    Undone c.builder c.mem c' := by
  induction sources generalizing i records c with
  | nil => cases h
  | cons s sources ih =>
    rw [hashLoop] at h
    split at h
    next digest st _ =>
      have hundone := ih h (by rw [List.countP_append, ← hi]; rfl)
        (by rw [List.filter_append, hno]; rfl)
      exact hundone
    next st _ =>
      dsimp only at h
      split at h
      next hpos =>
        -- an extend before this one succeeded, and there is no way back
        obtain rfl := (Prod.ext_iff.mp h).2
        refine abortAfterTpm_undone rfl rfl ?_ ?_
        · rw [List.filter_append, hno]
          rfl
        · rw [List.any_append, Bool.or_eq_true]
          exact Or.inl (List.any_eq_true.mpr
            (List.countP_pos_iff.mp (by omega)))
      next hzero =>
        obtain rfl := (Prod.ext_iff.mp h).2
        refine ⟨rfl, rfl, ?_⟩
        have hnone : c.calls.any Call.extended = false := by
          rw [List.any_eq_false]
          exact List.countP_eq_zero.mp (by omega)
        simp only [AbortTold, List.filter_append, hno, List.any_append, hnone]
        rfl

/-- The TPM extends the sources one after the other and answers `digests`. -/
inductive Hashed (cb : Callbacks σ) (m : Mem) :
    σ → List SecuritySource → List Digest → σ → Prop where
  | nil (st : σ) : Hashed cb m st [] [] st
  | cons {st st₁ st₂ : σ} {s : SecuritySource} {sources : List SecuritySource} {d : Digest}
      {digests : List Digest}
      (head : cb.hashExtend st m s.pcrIndex.toNat hashSha256 s.data s.dataLength = (some d, st₁))
      (tail : Hashed cb m st₁ sources digests st₂) :
      Hashed cb m st (s :: sources) (d :: digests) st₂

/-- The log of sources and the digests the TPM has answered. -/
def logOf (m : Mem) (sources : List SecuritySource) (digests : List Digest) : List UInt8 :=
  (List.zipWith (fun s d => measurement s.pcrIndex.toNat d (s.name m)) sources digests).flatten

/-- The calls that went with it. -/
def hashCalls (sources : List SecuritySource) (digests : List Digest) : List Call :=
  List.zipWith (fun s d => .hashExtend s.pcrIndex.toNat hashSha256 s.data s.dataLength (some d))
    sources digests

theorem hashLoop_ok {i : Nat} {log : List UInt8}
    {c c' : Collector σ} (h : hashLoop cb i sources records c = (.ok log, c')) :
    ∃ digests, Hashed cb c.mem c.state sources digests c'.state ∧
      log = records ++ logOf c.mem sources digests ∧
      c' = ⟨c.builder, c.mem, c'.state, c.calls ++ hashCalls sources digests⟩ := by
  induction sources generalizing i records c with
  | nil =>
    cases h
    exact ⟨[], .nil _, (List.append_nil _).symm, by rw [hashCalls, List.zipWith_nil_left, List.append_nil]⟩
  | cons s sources ih =>
    rw [hashLoop] at h
    split at h
    next digest st hextend =>
      obtain ⟨digests, hhashed, rfl, hc⟩ := ih h
      refine ⟨digest :: digests, .cons hextend hhashed, ?_, hc.trans ?_⟩
      · rw [List.append_assoc]
        rfl
      · dsimp only
        rw [List.append_assoc]
        rfl
    next st _ =>
      dsimp only at h
      split at h
      next => cases h
      next => cases h

theorem hashCalls_isAbort (sources : List SecuritySource) (digests : List Digest) :
    (hashCalls sources digests).filter Call.isAbort = [] := by
  induction sources generalizing digests with
  | nil => rfl
  | cons s sources ih =>
    cases digests with
    | nil => rfl
    | cons d digests => exact ih digests

theorem Hashed.extended {st st' : σ} {digests : List Digest}
    (h : Hashed cb m st sources digests st') (hne : sources ≠ []) :
    (hashCalls sources digests).any Call.extended = true := by
  cases h with
  | nil => exact absurd rfl hne
  | cons _ _ => rfl

/-! ## Publishing -/

/-- The state in which a collection publishes: the TPM has extended
something, and nobody has been told of a failure. -/
structure Extended (b : Builder) (m : Mem) (c : Collector σ) : Prop where
  builder : c.builder = b
  mem : c.mem = m
  noAbort : c.calls.filter Call.isAbort = []
  extended : c.calls.any Call.extended = true

/-- A failure behind an allocation is rolled back and told. -/
theorem rollback_undone {α : Type} {c c' : Collector σ} (hplan : Planned b n plan)
    (h : Extended b m c) (hkept : Kept b m plan c'.builder c'.mem) (objects : List ArenaObject)
    (hcalls : c'.calls = c.calls ++ objects.map .arenaAllocate) :
    Undone b m (abortAfterTpm (α := α) cb .publishAfterTpm
      (rollbackPublish (save b m plan) plan.blobStart c')).2 := by
  rw [rollbackPublish_restores hplan hkept]
  have hquiet : (objects.map Call.arenaAllocate).filter Call.isAbort = [] := by
    rw [List.filter_eq_nil_iff]
    intro call hcall
    obtain ⟨o, _, rfl⟩ := List.mem_map.mp hcall
    exact Bool.false_ne_true
  refine abortAfterTpm_undone rfl rfl ?_ ?_
  · dsimp only
    rw [hcalls, List.filter_append, h.noAbort, hquiet]
    rfl
  · dsimp only
    rw [hcalls, List.any_append, h.extended, Bool.true_or]

theorem allocate_eq {object : ArenaObject} {source : Option (List UInt8)} {bytes ptr phys : Nat}
    {c c' : Collector σ} (h : allocate cb object source bytes c = (ptr, phys, c')) :
    c'.builder = (cb.arenaAllocate c.state c.builder c.mem object source bytes).1.builder ∧
      c'.mem = (cb.arenaAllocate c.state c.builder c.mem object source bytes).1.mem ∧
      c'.calls = c.calls ++ [.arenaAllocate object] := by
  cases h
  exact ⟨rfl, rfl, rfl⟩

theorem publish_error {outTag : Nat}
    {c c' : Collector σ} {e : SecurityError} (hplan : Planned b n plan)
    (hcontained : Contained cb b m plan) (hc : Extended b m c)
    (h : publish cb p plan (save b m plan) n outTag records c = (.error e, c')) : Undone b m c' := by
  unfold publish at h
  dsimp only at h
  split at h
  next =>
    obtain rfl := (Prod.ext_iff.mp h).2
    exact abortAfterTpm_undone hc.builder hc.mem hc.noAbort hc.extended
  next =>
    rcases hlog : allocate cb .measurements (some records) plan.logBytes c with ⟨blob, blobPhys, c₁⟩
    obtain ⟨hb₁, hm₁, hcalls₁⟩ := allocate_eq hlog
    have hkept₁ : Kept b m plan c₁.builder c₁.mem := by
      rw [hb₁, hm₁, hc.builder, hc.mem]
      exact hcontained.log c.state records
    rw [hlog] at h
    dsimp only at h
    split at h
    next =>
      obtain rfl := (Prod.ext_iff.mp h).2
      exact rollback_undone hplan hc hkept₁ [.measurements] hcalls₁
    next hplaced =>
      rcases htag : allocate cb .tag none securityTagSize c₁ with ⟨tag, tagPhys, c₂⟩
      obtain ⟨hb₂, hm₂, hcalls₂⟩ := allocate_eq htag
      obtain ⟨_, _, _, hused, hcount, hlast, hfirst, hover, _⟩ := not_not.mp hplaced
      have hkept₂ : Kept b m plan c₂.builder c₂.mem := by
        rw [hb₂, hm₂]
        exact hcontained.tag c₁.state _ _ hkept₁ hused hcount hlast hfirst hover
      rw [htag] at h
      dsimp only at h
      split at h
      next =>
        obtain rfl := (Prod.ext_iff.mp h).2
        refine rollback_undone hplan hc hkept₂ [.measurements, .tag] ?_
        rw [hcalls₂, hcalls₁, List.append_assoc]
        rfl
      next => cases h

/-! ## The whole collection -/

variable {platform : Option SecurityPlatform} {sourcesAt outTag : Nat}
  {sources : List SecuritySource}

/-- What a collection that gets to the TPM has checked. -/
structure Checked (b : Builder) (m : Mem) (platform : Option SecurityPlatform)
    (sources : List SecuritySource) (outTag : Nat) (p : SecurityPlatform) (plan : SecurityPlan) :
    Prop where
  platform : platform = some p
  planned : Planned b sources.length plan
  nonempty : sources ≠ []
  few : sources.length ≤ maxMeasurements
  names : ∀ s ∈ sources, s.componentNameLength < 64
  apart : outTag + 8 ≤ b.arena ∨ b.arena + b.capacity ≤ outTag

theorem validatePlatform_ok (h : validatePlatform platform = .ok p) :
    platform = some p := by
  cases platform with
  | none => cases h
  | some p' =>
    simp only [validatePlatform, ok_bind_iff, refuse_ok_iff, exists_const, pure_ok_iff] at h
    rw [h.2.2]

theorem validateEach_names (h : validateEach m sources = .ok ()) :
    ∀ s ∈ sources, s.componentNameLength < 64 := by
  induction sources with
  | nil => exact fun s hs => by cases hs
  | cons s sources ih =>
    simp only [validateEach, ok_bind_iff, validateSource, refuse_ok_iff, exists_const, not_or,
      Nat.not_le] at h
    obtain ⟨⟨_, _, _, _, _, ⟨_, hname, _⟩, _⟩, hrest⟩ := h
    intro s' hs'
    rcases List.mem_cons.mp hs' with rfl | hs'
    · exact hname
    · exact ih hrest s' hs'

theorem spansOverlap_apart {left leftBytes right rightBytes : Nat}
    (h : spansOverlap left leftBytes right rightBytes = false) :
    left + leftBytes ≤ right ∨ right + rightBytes ≤ left := by
  unfold spansOverlap at h
  split at h
  next => cases h
  next =>
    rw [decide_eq_false_iff_not] at h
    omega

theorem preflight_ok (h : preflight b m platform sourcesAt sources outTag = .ok (p, plan)) :
    Checked b m platform sources outTag p plan ∧ validateBuilder b m sources.length = .ok plan := by
  unfold preflight at h
  simp only [ok_bind_iff, refuse_ok_iff, exists_const, pure_ok_iff, Prod.mk.injEq] at h
  obtain ⟨_, _, hsources, p', hp, plan', hplan, hapart, rfl, rfl⟩ := h
  unfold validateSources at hsources
  simp only [ok_bind_iff, refuse_ok_iff, exists_const, not_or, Nat.not_lt] at hsources
  obtain ⟨⟨hne, hfew⟩, _, heach⟩ := hsources
  exact ⟨⟨validatePlatform_ok hp, validateBuilder_ok hplan, fun hnil => hne (by rw [hnil]; rfl), hfew,
    validateEach_names heach, spansOverlap_apart (Bool.eq_false_iff.mpr hapart)⟩, hplan⟩

/-- A collection gets to publishing, or it has failed and nothing is left. -/
theorem securityCollect_cases (cb : Callbacks σ) (b : Builder) (m : Mem)
    (platform : Option SecurityPlatform) (sourcesAt : Nat) (sources : List SecuritySource)
    (outTag : Nat) (st : σ) :
    (∃ e c, securityCollect (some cb) b m platform sourcesAt sources outTag st = (.error e, c) ∧
      Undone b m c) ∨
    ∃ p plan digests st', Checked b m platform sources outTag p plan ∧
      validateBuilder b m sources.length = .ok plan ∧ Hashed cb m st sources digests st' ∧
      securityCollect (some cb) b m platform sourcesAt sources outTag st =
        publish cb p plan (save b m plan) sources.length outTag (logOf m sources digests)
          ⟨b, m, st', hashCalls sources digests⟩ := by
  unfold securityCollect
  dsimp only
  cases hpre : preflight b m platform sourcesAt sources outTag with
  | error e => exact Or.inl ⟨e, _, rfl, rfl, rfl, rfl⟩
  | ok pp =>
    obtain ⟨p, plan⟩ := pp
    obtain ⟨hchecked, hplan⟩ := preflight_ok hpre
    dsimp only
    rcases hloop : hashLoop cb 0 sources [] ⟨b, m, st, []⟩ with ⟨e | log, c⟩
    · exact Or.inl ⟨e, c, rfl, hashLoop_error hloop rfl rfl⟩
    · obtain ⟨digests, hhashed, rfl, hc⟩ := hashLoop_ok hloop
      refine Or.inr ⟨p, plan, digests, c.state, hchecked, hplan, hhashed, ?_⟩
      dsimp only
      rw [hc]
      rfl

/-- A status other than `OK`: nothing is left but what the TPM did. -/
theorem securityCollect_undone {callbacks : Option (Callbacks σ)} {st : σ}
    (hcontained : ∀ cb plan, callbacks = some cb → validateBuilder b m sources.length = .ok plan →
      Contained cb b m plan)
    (h : (securityCollect callbacks b m platform sourcesAt sources outTag st).1 ≠ .ok ()) :
    Undone b m (securityCollect callbacks b m platform sourcesAt sources outTag st).2 := by
  cases callbacks with
  | none => exact ⟨rfl, rfl, rfl⟩
  | some cb =>
    rcases securityCollect_cases cb b m platform sourcesAt sources outTag st with
      ⟨e, c, heq, hundone⟩ | ⟨p, plan, digests, st', hchecked, hplan, hhashed, heq⟩
    · rw [heq]
      exact hundone
    · rw [heq] at h ⊢
      have hc : Extended b m (⟨b, m, st', hashCalls sources digests⟩ : Collector σ) :=
        ⟨rfl, rfl, hashCalls_isAbort _ _, hhashed.extended hchecked.nonempty⟩
      rcases hpub : publish cb p plan (save b m plan) sources.length outTag (logOf m sources digests)
        ⟨b, m, st', hashCalls sources digests⟩ with ⟨e | u, c⟩
      · exact publish_error hchecked.planned (hcontained cb plan rfl hplan) hc hpub
      · rw [hpub] at h
        exact absurd rfl h

end Undo

/-! ## The builder's own allocator -/

section Reference

variable {σ : Type} {cb : Callbacks σ} {b : Builder} {m : Mem} {plan : SecurityPlan} {n : Nat}

theorem arenaBlobOf_frame (b : Builder) (m : Mem) (content : List UInt8) (len : Nat) :
    (arenaBlobOf b m (some content) len).2.1.arena = b.arena ∧
      ∀ a, a < b.arena + roundUp b.used 8 ∨ b.arena + roundUp b.used 8 + len ≤ a →
        (arenaBlobOf b m (some content) len).2.2 a = m a := by
  unfold arenaBlobOf
  dsimp only
  split
  · exact ⟨rfl, fun _ _ => rfl⟩
  rcases arenaBump_cases b len with hb | ⟨_, _, hb⟩
  · rw [hb]
    exact ⟨rfl, fun _ _ => rfl⟩
  · rw [hb]
    refine ⟨rfl, fun a ha => Mem.blit_frame ?_⟩
    have htake : (content.take len).length ≤ len := List.length_take_le _ _
    omega

/-- `bbp_security_builder_allocate` keeps to the plan on any builder that
has been validated, reachable or not. -/
theorem Callbacks.UsesBuilder.keeps_plan (hcb : cb.UsesBuilder) (hplan : Planned b n plan) (m : Mem) :
    Contained cb b m plan := by
  obtain ⟨_, hlog, htag, hend⟩ := hplan.order
  refine ⟨fun st records => ?_, fun st b' m' hkept hused _ hlast _ _ => ?_⟩
  · rw [hcb]
    obtain ⟨harena, hframe⟩ := arenaBlobOf_frame b m records plan.logBytes
    have hroom := hplan.blobEnd
    have hbytes := hplan.logBytes
    have hmem : ∀ a, ¬ InSpan b plan a →
        (arenaBlobOf b m (some records) plan.logBytes).2.2 a = m a := by
      intro a hspan
      refine hframe a ?_
      rw [← hplan.blobStart]
      unfold InSpan at hspan
      omega
    rw [builderAllocate]
    dsimp only
    split
    · exact ⟨harena, fun a hspan _ => hmem a hspan⟩
    · exact ⟨harena, fun a hspan _ => hmem a hspan⟩
  · rw [hcb, builderAllocate, if_neg (by simp)]
    rcases allocTag_room b' m' tagSecurity securityTagVersion securityTagSize with
      heq | ⟨_, _, _, _, heq⟩
    · rw [heq]
      exact ⟨hkept.arena, hkept.mem⟩
    · rw [heq]
      refine ⟨hkept.arena, fun a hspan hlink => ?_⟩
      have hstart : roundUp b'.used 8 = plan.tagStart := by rw [hused, hplan.tagStart]
      have htagEnd := hplan.tagEnd
      have harena := hkept.arena
      unfold InSpan at hspan
      unfold Builder.InLink at hlink
      refine Eq.trans (linked_frame (by omega) fun _ => by omega) (hkept.mem a hspan hlink)

theorem keeps_plan_small :
    Contained (⟨fun st _ _ _ _ _ => (none, st), fun st b m o s n => (builderAllocate b m o s n, st), fun st _ => st⟩ :
      Callbacks Unit) ⟨0x2000, 0x2000, 0x400, 0, 0, 0, 0, false⟩ Mem.zeros
      (planFor ⟨0x2000, 0x2000, 0x400, 0, 0, 0, 0, false⟩ 1) :=
  Callbacks.UsesBuilder.keeps_plan (fun _ _ _ _ _ _ => rfl) (validateBuilder_ok (m := Mem.zeros) (n := 1) rfl) _

end Reference

end BearBoot.Security
