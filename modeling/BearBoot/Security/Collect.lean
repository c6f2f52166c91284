import BearBoot.Security.Publish

/-!
# All or nothing

`securityCollect_allOrNothing` puts the two halves together. A status other
than `OK` leaves the builder and every byte as they were, and `abort` was
called once if the TPM had extended anything, and else never. `OK`, with the
builder's own allocator on a builder a session leads to, means that the TPM
was asked once per source and in order, and that after `finalize` the kernel
is handed exactly what it answered.

The kernel is handed the tag by iteration in every case. `bbp_find_tag`
answers the first tag of an id, and `collect_second_not_found` is a loader that
had put a SECURITY tag before: the collection succeeds, and lookup answers
the older tag.
-/

set_option autoImplicit false

namespace BearBoot.Security

open Machine Bootloader Kernel Tcg2

/-- What a collection that returns `OK` has done: `digests` are what the TPM
answered, `c` is what it left. -/
structure Collected {σ : Type} (cb : Callbacks σ) (A : Arena) (s : Session) (p : SecurityPlatform)
    (sources : List SecuritySource) (outTag : Nat) (st : σ) (c : Collector σ)
    (digests : List Digest) : Prop where
  hashed : Hashed cb s.mem st sources digests c.state
  calls : c.calls = hashCalls sources digests ++ [.arenaAllocate .measurements, .arenaAllocate .tag]
  outTag : get64 c.mem outTag = c.builder.last
  handoff : ∀ fuel info infoPhys, 1024 ≤ fuel → info ≠ 0 → A.Outside info 144 →
    ∃ m', builderFinalize fuel c.builder c.mem info infoPhys = some (infoPhys, c.builder, m') ∧
      ∀ kmem infoVa hint, infoVa ≠ 0 → hint ≠ 0 → A.phys + hint + A.capacity < 2 ^ 64 →
        Mapped A m' info kmem infoVa hint → ∃ (k : Kctx) (t : Nat),
          t = A.phys + (c.builder.last - A.ptr) + hint ∧
          (∀ out, out ≠ none → (initBounded out infoVa hint A.phys A.capacity).val kmem =
            (.ok, some k)) ∧
          LogHanded k kmem (s.tags.map (Record.virt A hint)) p sources.length
            (logOf s.mem sources digests) t ∧
          (∀ pcrs, Extends cb pcrs →
            replay kmem (get64 kmem (t + 64) + k.hhdmOffset) sources.length (pcrs st) =
              pcrs c.state) ∧
          ((findTag (some k) tagSecurity).val kmem = some t ↔ ∀ r ∈ s.tags, r.id ≠ tagSecurity)

section Collect

variable {σ : Type} {A : Arena} {s : Session} {platform : Option SecurityPlatform}
  {sourcesAt outTag : Nat} {sources : List SecuritySource} {st : σ}

theorem securityCollect_collected {cb : Callbacks σ} (hinv : Inv A s) (hcb : cb.UsesBuilder)
    (hok : (securityCollect (some cb) s.builder s.mem platform sourcesAt sources outTag st).1 = .ok ()) :
    ∃ p digests, platform = some p ∧ Collected cb A s p sources outTag st
      (securityCollect (some cb) s.builder s.mem platform sourcesAt sources outTag st).2 digests := by
  rcases securityCollect_cases cb s.builder s.mem platform sourcesAt sources outTag st with
    ⟨e, c, heq, _⟩ | ⟨p, plan, digests, st', hchecked, _, hhashed, heq⟩
  · rw [heq] at hok
    cases hok
  have hplan := hchecked.planned
  have hlen := hhashed.logOf_length hchecked.names
  have hn : sources.length ≠ 0 := fun hzero => hchecked.nonempty (List.length_eq_zero_iff.mp hzero)
  have hcrc : crc64 (logOf s.mem sources digests) ≠ 0 := by
    intro hzero
    rw [heq, publish, if_pos hzero] at hok
    cases hok
  rw [publish_reference hplan hinv hcb hlen hn hcrc] at heq
  rw [heq]
  have hptr := hplan.pointer
  have hcap := hplan.capacity
  obtain ⟨_, _, _, hend⟩ := hplan.order
  have hlast : (allocated s.builder s.mem plan (logOf s.mem sources digests)).1.last - A.ptr =
      plan.tagStart := by
    change s.builder.arena + plan.tagStart - A.ptr = _
    rw [hinv.arena, Nat.add_sub_cancel_left]
  refine ⟨p, digests, hchecked.platform, hhashed, by rw [List.append_assoc]; rfl,
    Mem.getLE_putLE (show s.builder.arena + plan.tagStart < 2 ^ 64 by omega), ?_⟩
  intro fuel info infoPhys hfuel hinfo hout
  obtain ⟨m', hfinal, hkernel⟩ := hplan.handoff (p := p) hinv hlen hn hchecked.few hcrc hchecked.apart
    hfuel hinfo hout infoPhys
  refine ⟨m', hfinal, fun kmem infoVa hint hva hhint hwrap hmap => ?_⟩
  obtain ⟨k, hoffset, hinit, hhanded, hfind⟩ := hkernel kmem infoVa hint hva hhint hwrap hmap
  refine ⟨k, A.phys + plan.tagStart + hint, by rw [hlast], hinit, hhanded, fun pcrs hpcrs => ?_, hfind⟩
  exact replay_log hpcrs hhashed hchecked.names hhanded.log

end Collect

/-- A collection publishes everything, or nothing at all. -/
theorem securityCollect_allOrNothing {σ : Type} (callbacks : Option (Callbacks σ)) (b : Builder)
    (m : Mem) (platform : Option SecurityPlatform) (sourcesAt : Nat) (sources : List SecuritySource)
    (outTag : Nat) (st : σ) (status : Except SecurityError Unit) (c : Collector σ)
    (hcollect : securityCollect callbacks b m platform sourcesAt sources outTag st = (status, c)) :
    (status = .ok () → ∀ (cb : Callbacks σ) (A : Arena) (m₀ : Mem) (fuel : Nat) (ops : List Op)
      (s : Session), callbacks = some cb → cb.UsesBuilder → 1024 ≤ fuel →
      run A fuel (Session.start A m₀) ops = some s → s.builder = b → s.mem = m →
      ∃ p digests, platform = some p ∧ Collected cb A s p sources outTag st c digests) ∧
    (status ≠ .ok () →
      (∀ cb plan, callbacks = some cb → validateBuilder b m sources.length = .ok plan →
        Contained cb b m plan) →
      c.builder = b ∧ c.mem = m ∧ AbortTold c.calls) := by
  constructor
  · rintro rfl cb A m₀ fuel ops s rfl hcb hfuel hrun rfl rfl
    obtain ⟨s', hrun', hinv⟩ := run_inv (start_inv A m₀) hfuel ops
    rw [hrun, Option.some.injEq] at hrun'
    rw [← hrun'] at hinv
    have hall := securityCollect_collected hinv hcb (congrArg Prod.fst hcollect)
    rwa [hcollect] at hall
  · intro hstatus hcontained
    have hundone := securityCollect_undone hcontained (by rw [hcollect]; exact hstatus)
    rw [hcollect] at hundone
    exact ⟨hundone.builder, hundone.mem, hundone.told⟩

/-! ## A TPM and a loader -/

/-- A TPM that hashes what it is pointed at, under the builder's own
allocator. -/
def tpmCallbacks : Callbacks Pcrs where
  hashExtend pcrs m pcrIndex _ data dataLength :=
    match tcg2Sha256 (m.bytes data dataLength) with
    | none => (none, pcrs)
    | some digest => (some digest, pcrs.extend pcrIndex digest)
  arenaAllocate pcrs b m object source bytes := (builderAllocate b m object source bytes, pcrs)
  abort pcrs _ := pcrs

theorem tpmCallbacks_usesBuilder : tpmCallbacks.UsesBuilder := fun _ _ _ _ _ _ => rfl

theorem tpmCallbacks_extends : Extends tpmCallbacks id := by
  intro pcrs m pcrIndex algorithm data dataLength digest pcrs' h
  unfold tpmCallbacks at h
  dsimp only at h
  split at h
  next => cases h
  next => cases h; rfl

/-- An arena of a kibibyte. -/
def collectArena : Arena :=
  { smallArena with capacity := 0x400, nonempty := by decide, below := by decide }

/-- Four bytes to be measured, and the name `kernel`. -/
def collectMem : Mem :=
  (Mem.zeros.blit 0x1000 [0x7f, 0x45, 0x4c, 0x46]).blit 0x1100 [0x6b, 0x65, 0x72, 0x6e, 0x65, 0x6c]

def kernelSource : SecuritySource := ⟨4, 1, 32, 0, 0x1000, 4, 0x1100, 6⟩

def discretePlatform : SecurityPlatform := ⟨0xfed40000, 0x0200, 1, 1, ⟨1, 1, 1, 1, 1, 1, 0⟩⟩

/-- The collection of the kernel, on what a session leaves. -/
def collectKernel (s : Session) : Except SecurityError Unit × Collector Pcrs :=
  securityCollect (some tpmCallbacks) s.builder s.mem (some discretePlatform) 0x1200 [kernelSource]
    0x1300 fun _ => ⟨List.replicate 32 0, rfl⟩

/-- The same TPM, under an allocator that never has room. -/
def fullCallbacks : Callbacks Pcrs :=
  { tpmCallbacks with arenaAllocate := fun pcrs b m _ _ _ => (⟨0, 0, b.fail, m⟩, pcrs) }

theorem fullCallbacks_contained (b : Builder) (m : Mem) (plan : SecurityPlan) :
    Contained fullCallbacks b m plan :=
  ⟨fun _ _ => ⟨rfl, fun _ _ _ => rfl⟩, fun _ _ _ hkept _ _ _ _ _ => ⟨hkept.arena, hkept.mem⟩⟩

/-- The kernel's address of the tag a collection has published. -/
def collectedTag (c : Collector Pcrs) : Nat := 0x2000 + (c.builder.last - 0x2000) + 0x10000

/-- Nothing but the collection: the kernel finds the tag and the log
verifies. With the allocator that has no room the TPM was extended, and
`abort` was called. -/
theorem securityCollect_allOrNothing_kernel :
    (∃ c m' k, collectKernel (Session.start collectArena collectMem) = (.ok (), c) ∧
      builderFinalize 1024 c.builder c.mem 0x1400 0x1400 = some (0x1400, c.builder, m') ∧
      (findTag (some k) tagSecurity).val (fun a => m' (a - 0x10000)) = some (collectedTag c) ∧
      replay (fun a => m' (a - 0x10000))
        (get64 (fun a => m' (a - 0x10000)) (collectedTag c + 64) + k.hhdmOffset) 1
        (fun _ => ⟨List.replicate 32 0, rfl⟩) = c.state) ∧
    ∃ c, securityCollect (some fullCallbacks) (Session.start collectArena collectMem).builder
        (Session.start collectArena collectMem).mem (some discretePlatform) 0x1200 [kernelSource]
        0x1300 (fun _ => ⟨List.replicate 32 0, rfl⟩) = (.error .abortReturned, c) ∧
      c.builder = (Session.start collectArena collectMem).builder ∧
      c.mem = (Session.start collectArena collectMem).mem ∧
      c.calls.filter Call.isAbort = [.abort .publishAfterTpm] := by
  constructor
  · have hok : (collectKernel (Session.start collectArena collectMem)).1.isOk = true := by
      decide +kernel
    rcases hcollect : collectKernel (Session.start collectArena collectMem) with ⟨e | ⟨⟩, c⟩
    · rw [hcollect] at hok
      cases hok
    obtain ⟨p, digests, _, hcollected⟩ := (securityCollect_allOrNothing _ _ _ _ _ _ _ _ _ _ hcollect).1 rfl
      tpmCallbacks collectArena collectMem 1024 [] _ rfl tpmCallbacks_usesBuilder (by decide) rfl rfl rfl
    obtain ⟨m', hfinal, hkernel⟩ := hcollected.handoff 1024 0x1400 0x1400 (by decide) (by decide) (by decide)
    obtain ⟨k, t, rfl, _, _, hreplay, hfind⟩ := hkernel (fun a => m' (a - 0x10000)) 0x11400 0x10000
      (by decide) (by decide) (by decide)
      ⟨fun i _ => congrArg m' (by change 0x2000 + 0x10000 + i - 0x10000 = 0x2000 + i; omega),
        fun i _ => congrArg m' (by omega)⟩
    exact ⟨c, m', k, rfl, hfinal, hfind.mpr (fun r hr => by cases hr),
      hreplay id tpmCallbacks_extends⟩
  · -- one evaluation answers both: the call fails, and the TPM has been extended before
    have hran : (fun r : Except SecurityError Unit × Collector Pcrs => (r.1, r.2.calls.any Call.extended))
        (securityCollect (some fullCallbacks) (Session.start collectArena collectMem).builder
          (Session.start collectArena collectMem).mem (some discretePlatform) 0x1200 [kernelSource]
          0x1300 (fun _ => ⟨List.replicate 32 0, rfl⟩)) = (.error .abortReturned, true) := by
      decide +kernel
    rcases hcollect : securityCollect (some fullCallbacks) (Session.start collectArena collectMem).builder
        (Session.start collectArena collectMem).mem (some discretePlatform) 0x1200 [kernelSource]
        0x1300 (fun _ => ⟨List.replicate 32 0, rfl⟩) with ⟨status, c⟩
    rw [hcollect] at hran
    obtain ⟨hfail, hext⟩ := Prod.mk.inj hran
    dsimp only at hfail hext
    obtain ⟨hb, hm, htold⟩ := (securityCollect_allOrNothing _ _ _ _ _ _ _ _ _ _ hcollect).2
      (by rw [hfail]; exact fun h => by cases h)
      (fun cb plan hcb _ => by cases hcb; exact fullCallbacks_contained _ _ _)
    rw [AbortTold, hext, if_pos rfl] at htold
    cases hfail
    exact ⟨c, rfl, hb, hm, htold⟩

/-- A loader that has a SECURITY tag already: the collection succeeds, and
`bbp_find_tag` does not answer the tag it has published. -/
theorem collect_second_not_found :
    ∃ s c m' k, run collectArena 1024 (Session.start collectArena collectMem)
        [.allocTag 0x0004000000000001 1 32] = some s ∧
      collectKernel s = (.ok (), c) ∧
      builderFinalize 1024 c.builder c.mem 0x1400 0x1400 = some (0x1400, c.builder, m') ∧
      (initBounded (some ⟨0, 0, false, 0, 0⟩) 0x11400 0x10000 0x2000 0x400).val
        (fun a => m' (a - 0x10000)) = (.ok, some k) ∧
      (findTag (some k) tagSecurity).val (fun a => m' (a - 0x10000)) ≠ some (collectedTag c) := by
  obtain ⟨s, hrun, hinv⟩ := run_inv (start_inv collectArena collectMem) (show 1024 ≤ 1024 by decide)
    [.allocTag 0x0004000000000001 1 32]
  have hok : (run collectArena 1024 (Session.start collectArena collectMem)
      [.allocTag 0x0004000000000001 1 32]).map (fun s => (collectKernel s).1.isOk) = some true := by
    decide +kernel
  have hids : (run collectArena 1024 (Session.start collectArena collectMem)
      [.allocTag 0x0004000000000001 1 32]).map (fun s => s.tags.map Record.id) = some [tagSecurity] := by
    decide +kernel
  rw [hrun, Option.map_some, Option.some.injEq] at hok hids
  rcases hcollect : collectKernel s with ⟨e | ⟨⟩, c⟩
  · rw [hcollect] at hok
    cases hok
  obtain ⟨p, digests, _, hcollected⟩ := securityCollect_collected hinv tpmCallbacks_usesBuilder
    (congrArg Prod.fst hcollect)
  change Collected _ _ _ _ _ _ _ (collectKernel s).2 _ at hcollected
  rw [hcollect] at hcollected
  obtain ⟨m', hfinal, hkernel⟩ := hcollected.handoff 1024 0x1400 0x1400 (by decide) (by decide) (by decide)
  obtain ⟨k, t, rfl, hinit, _, _, hfind⟩ := hkernel (fun a => m' (a - 0x10000)) 0x11400 0x10000
    (by decide) (by decide) (by decide)
    ⟨fun i _ => congrArg m' (by change 0x2000 + 0x10000 + i - 0x10000 = 0x2000 + i; omega),
      fun i _ => congrArg m' (by omega)⟩
  refine ⟨s, c, m', k, hrun, hcollect, hfinal, hinit _ (by decide), fun hfound => ?_⟩
  obtain ⟨r, hr, hid⟩ := List.mem_map.mp (show tagSecurity ∈ s.tags.map Record.id by
    rw [hids]; exact List.mem_cons_self)
  exact hfind.mp hfound r hr hid

end BearBoot.Security
