import BearBoot.Bootloader.RoundTrip
import BearBoot.Security.Atomic

/-!
# What a collection has published

The other half: the status is `OK`, the allocator is the builder's own, and
the builder is one a loader's session leads to. The plan is exact there:
once the TPM has extended every source, the log goes where it was planned,
the tag goes behind it, and both tests of the source pass
(`publish_reference`), so that nothing is rolled back but for a log whose
CRC is zero.

`Published.handoff` seals the session and reads it as the kernel does. The
kernel is handed the tag behind the ones there were; its log is the
sources' records byte for byte, in their order, and verifies; and
replaying the log's digests on the registers the TPM began with leaves
the registers it ended with (`replay_log`).

`bbp_find_tag` answers the first tag of an id. It answers this one if and
only if the loader had not put a SECURITY tag of its own before.
-/

set_option autoImplicit false

namespace BearBoot.Security

open Machine Bootloader Kernel Tcg2

variable {m' : Mem}

/-! ## The log -/

section Log

variable {σ : Type} {cb : Callbacks σ} {m : Mem} {sources : List SecuritySource}
  {digests : List Digest} {st st' : σ}

theorem measurement_length {pcrIndex : Nat} {digest : Digest} {name : List UInt8}
    (h : name.length < 64) : (measurement pcrIndex digest name).length = 144 := by
  simp only [measurement, List.flatten_cons, List.flatten_nil, List.length_append, length_le,
    List.length_replicate, digest.2, List.length_nil]
  omega

theorem name_length (m : Mem) (s : SecuritySource) : (s.name m).length = s.componentNameLength :=
  Mem.bytes_length _ _ _

theorem logOf_cons (m : Mem) (s : SecuritySource) (sources : List SecuritySource) (d : Digest)
    (digests : List Digest) : logOf m (s :: sources) (d :: digests) =
      measurement s.pcrIndex.toNat d (s.name m) ++ logOf m sources digests := rfl

theorem Hashed.logOf_length (h : Hashed cb m st sources digests st')
    (hnames : ∀ s ∈ sources, s.componentNameLength < 64) :
    (logOf m sources digests).length = sources.length * 144 := by
  induction h with
  | nil => rfl
  | @cons _ _ _ s sources d digests _ _ ih =>
    have hname := hnames s List.mem_cons_self
    rw [logOf_cons, List.length_append, measurement_length (by rw [name_length]; exact hname),
      ih fun s' hs' => hnames s' (List.mem_cons_of_mem _ hs'), List.length_cons]
    omega

/-- The registers of a TPM. -/
abbrev Pcrs := Nat → Digest

/-- `digest` extended into the register `pcrIndex`. -/
def Pcrs.extend (pcrs : Pcrs) (pcrIndex : Nat) (digest : Digest) : Pcrs :=
  Function.update pcrs pcrIndex (tcg2Sha256Extend (pcrs pcrIndex) digest)

/-- A TPM's register reading, under which `hash_extend` extends the register it
is asked for with the digest it answers. -/
def Extends (cb : Callbacks σ) (pcrs : σ → Pcrs) : Prop :=
  ∀ st m pcrIndex algorithm data dataLength digest st',
    cb.hashExtend st m pcrIndex algorithm data dataLength = (some digest, st') →
      pcrs st' = (pcrs st).extend pcrIndex digest

/-- Replaying a log of `count` measurements that stands at `log`. -/
def replay (m : Mem) : (log count : Nat) → Pcrs → Pcrs
  | _, 0, pcrs => pcrs
  | log, count + 1, pcrs =>
    replay m (log + measurementSize) count
      (pcrs.extend (get32 m log) ⟨m.bytes (log + 8) 32, Mem.bytes_length _ _ _⟩)

/-- The register and the digest of a measurement, wherever it stands. -/
theorem measurement_read {a pcrIndex : Nat} {digest : Digest} {name : List UInt8}
    (hname : name.length < 64) (hpcr : pcrIndex < 2 ^ 32)
    (h : m'.bytes a 144 = measurement pcrIndex digest name) :
    get32 m' a = pcrIndex ∧ m'.bytes (a + 8) 32 = digest.1 := by
  have hall : m'.bytes a 144 = (Mem.ofList (measurement pcrIndex digest name)).bytes 0 144 := by
    rw [h, Mem.bytes_ofList_drop (by rw [measurement_length hname]), List.drop_zero,
      List.take_of_length_le (by rw [measurement_length hname])]
  have hspell : measurement pcrIndex digest name =
      [le pcrIndex 4, le hashSha256 4, digest.1, List.replicate 32 0, le sha256Bytes 4,
        List.replicate 4 0, name, List.replicate (64 - name.length) 0].flatten ++ [] := by
    rw [List.append_nil]
    rfl
  rw [hspell] at hall
  constructor
  · rw [get32, show a = a + 0 from rfl, getLE_part hall (by decide)]
    exact getLE_field [] pcrIndex _ [] rfl hpcr
  · rw [bytes_part hall (by decide)]
    exact bytes_field [le pcrIndex 4, le hashSha256 4] digest.1 _ [] (by simp) digest.2

/-- Replaying the log a TPM was extended along ends in its registers. -/
theorem replay_log {pcrs : σ → Pcrs} (hpcrs : Extends cb pcrs)
    (h : Hashed cb m st sources digests st') (hnames : ∀ s ∈ sources, s.componentNameLength < 64)
    {log : Nat} (hlog : m'.bytes log (sources.length * 144) = logOf m sources digests) :
    replay m' log sources.length (pcrs st) = pcrs st' := by
  induction h generalizing log with
  | nil => rfl
  | @cons st st₁ st₂ s sources d digests head tail ih =>
    have hname : (s.name m).length < 64 := by
      rw [name_length]
      exact hnames s List.mem_cons_self
    have hsplit : m'.bytes log 144 ++ m'.bytes (log + 144) (sources.length * 144) =
        measurement s.pcrIndex.toNat d (s.name m) ++ logOf m sources digests := by
      rw [← bytes_add, ← logOf_cons, ← hlog, List.length_cons]
      congr 1
      omega
    obtain ⟨hhead, htail⟩ := List.append_inj hsplit
      (by rw [Mem.bytes_length, measurement_length hname])
    obtain ⟨hpcr, hdigest⟩ := measurement_read hname s.pcrIndex.toNat_lt hhead
    rw [List.length_cons, replay, ← ih (fun s' hs' => hnames s' (List.mem_cons_of_mem _ hs')) htail,
      hpcrs _ _ _ _ _ _ _ _ head, hpcr]
    simp only [hdigest]
    rfl

end Log

/-! ## The tag -/

section Tag

variable {p : SecurityPlatform} {n blobPhys logCrc tag : Nat} {m : Mem}

@[simp] theorem SecureBootInfo.length_bytes (s : SecureBootInfo) : s.bytes.length = 8 := by
  simp [SecureBootInfo.bytes]

theorem fillTag_frame {a : Nat} (h : a < tag + 32 ∨ tag + 60 ≤ a ∧ a < tag + 64 ∨
    tag + 72 ≤ a ∧ a < tag + 104 ∨ tag + 112 ≤ a) :
    fillTag p n blobPhys logCrc tag m a = m a := by
  have hsecure := p.secureBoot.length_bytes
  simp (disch := omega) only [fillTag, put64, put32, put16, Mem.putLE_frame, Mem.blit_frame]

/-- What a SECURITY tag says: the platform, and a number of measurements
with the address and the checksum of their log. There are no public keys
and there is no entropy. -/
structure TagShown (m : Mem) (t : Nat) (p : SecurityPlatform) (n log logCrc : Nat) : Prop where
  tpmBaseAddress : get64 m (t + 32) = p.tpmBaseAddress.toNat
  tpmVersion : get16 m (t + 40) = p.tpmVersion.toNat
  tpmInterface : get16 m (t + 42) = p.tpmInterface.toNat
  tpmFlags : get32 m (t + 44) = p.tpmFlags.toNat
  secureBoot : m.bytes (t + 48) 8 = p.secureBoot.bytes
  measurementCount : get32 m (t + 56) = n
  measurements : get64 m (t + 64) = log
  measurementsCrc : get64 m (t + 104) = logCrc
  publicKeys : get32 m (t + 72) = 0 ∧ get64 m (t + 80) = 0 ∧ get64 m (t + 112) = 0
  entropy : get32 m (t + 88) = 0 ∧ get64 m (t + 96) = 0 ∧ get64 m (t + 120) = 0

theorem TagShown.congr {t t' log : Nat} (h : TagShown m t p n log logCrc)
    (hm : ∀ i, 32 ≤ i → i < 128 → m' (t' + i) = m (t + i)) : TagShown m' t' p n log logCrc := by
  have field : ∀ o w, 32 ≤ o → o + w ≤ 128 → m'.getLE (t' + o) w = m.getLE (t + o) w :=
    fun o w hlo hhi => Mem.getLE_shift hm hlo hhi
  refine ⟨(field 32 8 (by decide) (by decide)).trans h.tpmBaseAddress,
    (field 40 2 (by decide) (by decide)).trans h.tpmVersion,
    (field 42 2 (by decide) (by decide)).trans h.tpmInterface,
    (field 44 4 (by decide) (by decide)).trans h.tpmFlags, ?_,
    (field 56 4 (by decide) (by decide)).trans h.measurementCount,
    (field 64 8 (by decide) (by decide)).trans h.measurements,
    (field 104 8 (by decide) (by decide)).trans h.measurementsCrc,
    ⟨(field 72 4 (by decide) (by decide)).trans h.publicKeys.1,
      (field 80 8 (by decide) (by decide)).trans h.publicKeys.2.1,
      (field 112 8 (by decide) (by decide)).trans h.publicKeys.2.2⟩,
    ⟨(field 88 4 (by decide) (by decide)).trans h.entropy.1,
      (field 96 8 (by decide) (by decide)).trans h.entropy.2.1,
      (field 120 8 (by decide) (by decide)).trans h.entropy.2.2⟩⟩
  rw [← h.secureBoot]
  refine Mem.bytes_congr fun i hi => ?_
  rw [Nat.add_assoc, Nat.add_assoc]
  exact hm (48 + i) (by omega) (by omega)

/-- The stores, on a body that was zero. -/
theorem fillTag_shown (hzero : ∀ i, 32 ≤ i → i < 128 → m (tag + i) = 0) (hn : n < 2 ^ 32)
    (hphys : blobPhys < 2 ^ 64) (hcrc : logCrc < 2 ^ 64) :
    TagShown (fillTag p n blobPhys logCrc tag m) tag p n blobPhys logCrc := by
  have hsecure := p.secureBoot.length_bytes
  have hbase := p.tpmBaseAddress.toNat_lt
  have hversion := p.tpmVersion.toNat_lt
  have hinterface := p.tpmInterface.toNat_lt
  have hflags := p.tpmFlags.toNat_lt
  have none : ∀ o w, 72 ≤ o ∧ o + w ≤ 104 ∨ 112 ≤ o ∧ o + w ≤ 128 →
      (fillTag p n blobPhys logCrc tag m).getLE (tag + o) w = 0 := by
    intro o w how
    rw [Mem.getLE_eq_zero_iff]
    intro i hi
    rw [fillTag_frame (by omega), Nat.add_assoc]
    exact hzero _ (by omega) (by omega)
  refine ⟨?_, ?_, ?_, ?_, ?_, ?_, ?_, ?_,
    ⟨none 72 4 (by decide), none 80 8 (by decide), none 112 8 (by decide)⟩,
    ⟨none 88 4 (by decide), none 96 8 (by decide), none 120 8 (by decide)⟩⟩
  all_goals
    simp (disch := omega) only [fillTag, get64, get32, get16, put64, put32, put16,
      Mem.getLE_putLE_frame, Mem.getLE_blit_frame, Mem.getLE_putLE]
  conv_rhs => rw [← Mem.bytes_blit m (tag + 48) p.secureBoot.bytes, hsecure]
  refine Mem.bytes_congr fun i hi => ?_
  simp (disch := omega) only [Mem.putLE_frame]
  rw [Mem.blit_apply, Mem.blit_apply, if_pos (by omega), if_pos (by omega)]

end Tag

/-! ## The plan is exact -/

/-- The builder and the memory once the log and an empty tag stand where
they were planned. -/
def allocated (b : Builder) (m : Mem) (plan : SecurityPlan) (log : List UInt8) : Builder × Mem :=
  linked { b with used := plan.blobEnd } (m.blit (b.arena + plan.blobStart) log) plan.tagStart
    tagSecurity securityTagVersion securityTagSize

/-- The memory after the stores into the tag. -/
def filled (b : Builder) (m : Mem) (plan : SecurityPlan) (p : SecurityPlatform) (n : Nat)
    (log : List UInt8) : Mem :=
  fillTag p n (b.arenaPhys + plan.blobStart) (crc64 log) (b.arena + plan.tagStart)
    (allocated b m plan log).2

/-- The memory a publication leaves. -/
def published (b : Builder) (m : Mem) (plan : SecurityPlan) (p : SecurityPlatform) (n outTag : Nat)
    (log : List UInt8) : Mem :=
  put64 (sealTag (filled b m plan p n log) (b.arena + plan.tagStart)) outTag
    (b.arena + plan.tagStart)

section Exact

variable {A : Arena} {s : Session} {plan : SecurityPlan} {n : Nat} {log : List UInt8}

/-- The invariant with the log in place. -/
theorem Planned.inv_log (hplan : Planned s.builder n plan) (hinv : Inv A s)
    (hlen : log.length = n * 144) :
    Inv A ⟨{ s.builder with used := plan.blobEnd },
      s.mem.blit (s.builder.arena + plan.blobStart) log, s.tags⟩ := by
  have hcap := hplan.capacity
  rw [hinv.capacity] at hcap
  obtain ⟨_, _, htag, hend⟩ := hplan.order
  have hbe := hplan.blobEnd
  rw [hbe, hplan.blobStart, ← hlen]
  rw [hplan.blobStart, ← hlen] at hbe
  refine hinv.bump (by omega) _ fun a ha => Mem.blit_frame ?_
  rw [hinv.arena]
  omega

/-- The invariant with the log and the empty tag in place. -/
theorem Planned.inv_allocated (hplan : Planned s.builder n plan) (hinv : Inv A s)
    (hlen : log.length = n * 144) :
    Inv A ⟨(allocated s.builder s.mem plan log).1, (allocated s.builder s.mem plan log).2,
      s.tags ++ [fresh plan.tagStart tagSecurity securityTagVersion securityTagSize]⟩ := by
  have hcap := hplan.capacity
  rw [hinv.capacity, hplan.tagEnd] at hcap
  have hlog := hplan.inv_log hinv hlen
  unfold allocated
  rw [hplan.tagStart] at hcap ⊢
  exact allocTag_inv hlog (by decide) (by decide) (by decide) (by decide) hplan.count hcap

variable {σ : Type} {cb : Callbacks σ} {p : SecurityPlatform} {outTag : Nat}

/-- The allocator of the builder API puts the log where it was planned. -/
theorem allocate_log (hplan : Planned s.builder n plan) (hinv : Inv A s) (hcb : cb.UsesBuilder)
    (hlen : log.length = n * 144) (hn : n ≠ 0) (st : σ) (calls : List Call) :
    allocate cb .measurements (some log) plan.logBytes ⟨s.builder, s.mem, st, calls⟩ =
      (s.builder.arena + plan.blobStart, s.builder.arenaPhys + plan.blobStart,
        ⟨{ s.builder with used := plan.blobEnd },
          s.mem.blit (s.builder.arena + plan.blobStart) log, st,
          calls ++ [.arenaAllocate .measurements]⟩) := by
  have hcap := hplan.capacity
  rw [hinv.capacity] at hcap
  obtain ⟨_, _, htag, hend⟩ := hplan.order
  have hbe := hplan.blobEnd
  have hphys := A.phys_ne
  have hblob : arenaBlobOf s.builder s.mem (some log) plan.logBytes =
      (s.builder.arenaPhys + plan.blobStart, { s.builder with used := plan.blobEnd },
        s.mem.blit (s.builder.arena + plan.blobStart) log) := by
    unfold arenaBlobOf
    dsimp only
    rw [if_neg (by rw [hplan.logBytes]; omega), arenaBump_of_room hinv hplan.overflow
      (by rw [← hplan.blobStart, hplan.logBytes]; omega), ← hplan.blobStart, hplan.logBytes, ← hbe,
      ← hinv.arena, ← hinv.phys]
    dsimp only
    rw [List.take_of_length_le (by omega)]
  unfold allocate
  rw [hcb, builderAllocate, hblob]
  dsimp only
  rw [if_neg (by rw [hinv.phys]; omega), Nat.add_sub_cancel_left]

/-- And the tag behind it. -/
theorem allocate_tag (hplan : Planned s.builder n plan) (hinv : Inv A s) (hcb : cb.UsesBuilder)
    (hlen : log.length = n * 144) (st : σ) (calls : List Call) :
    allocate cb .tag none securityTagSize
        ⟨{ s.builder with used := plan.blobEnd }, s.mem.blit (s.builder.arena + plan.blobStart) log, st,
          calls⟩ =
      (s.builder.arena + plan.tagStart, s.builder.arenaPhys + plan.tagStart,
        ⟨(allocated s.builder s.mem plan log).1, (allocated s.builder s.mem plan log).2, st,
          calls ++ [.arenaAllocate .tag]⟩) := by
  have hcap := hplan.capacity
  rw [hinv.capacity, hplan.tagEnd] at hcap
  have hlog := hplan.inv_log hinv hlen
  have htag := hplan.tagStart
  have halloc : allocTag { s.builder with used := plan.blobEnd }
      (s.mem.blit (s.builder.arena + plan.blobStart) log) tagSecurity securityTagVersion securityTagSize =
        (some (s.builder.arena + plan.tagStart), allocated s.builder s.mem plan log) := by
    unfold allocated
    rw [htag] at hcap ⊢
    refine (allocTag_of_room hlog hplan.overflow (by decide) (by decide) hplan.count hcap _ _).trans ?_
    rw [← hinv.arena]
    rfl
  unfold allocate
  rw [hcb, builderAllocate, if_neg (by simp), halloc]
  refine Prod.ext rfl (Prod.ext ?_ rfl)
  change s.builder.arenaPhys + (s.builder.arena + plan.tagStart - s.builder.arena) = _
  rw [Nat.add_sub_cancel_left]

theorem publish_of_placed {saved : Saved} {blob blobPhys tag tagPhys : Nat} {c c₁ c₂ : Collector σ}
    (hcrc : crc64 log ≠ 0)
    (hlog : allocate cb .measurements (some log) plan.logBytes c = (blob, blobPhys, c₁))
    (hlogOk : LogPlaced plan saved.before log blob blobPhys c₁)
    (htag : allocate cb .tag none securityTagSize c₁ = (tag, tagPhys, c₂))
    (htagOk : TagPlaced plan saved.before tag tagPhys c₂) :
    publish cb p plan saved n outTag log c =
      (.ok (), { c₂ with
        mem := put64 (sealTag (fillTag p n blobPhys (crc64 log) tag c₂.mem) tag) outTag tag }) := by
  unfold publish
  dsimp only
  rw [if_neg hcrc, hlog]
  dsimp only
  rw [if_neg (not_not.mpr hlogOk), htag]
  dsimp only
  rw [if_neg (not_not.mpr htagOk)]

/-- The empty tag passes the test of the source. -/
theorem Planned.tagPlaced (hplan : Planned s.builder n plan) (hinv : Inv A s)
    (hlen : log.length = n * 144) (st : σ) (calls : List Call) :
    TagPlaced plan s.builder (s.builder.arena + plan.tagStart) (s.builder.arenaPhys + plan.tagStart)
      (⟨(allocated s.builder s.mem plan log).1, (allocated s.builder s.mem plan log).2, st, calls⟩ :
        Collector σ) := by
  have hall := hplan.inv_allocated hinv hlen
  have hthere := (hall.stands _ (List.mem_append_right _ List.mem_cons_self)).there
  change (fresh plan.tagStart tagSecurity securityTagVersion securityTagSize).At
    (allocated s.builder s.mem plan log).2 (A.ptr + plan.tagStart) at hthere
  rw [← hinv.arena] at hthere
  have hcap := hplan.capacity
  have hptr := hplan.arena
  have hbelow := A.below
  have hphys := hinv.phys
  have htagEnd := hplan.tagEnd
  obtain ⟨hused, _, hts, hend⟩ := hplan.order
  rw [hinv.capacity] at hcap
  have hlast : s.builder.last ≠ 0 → s.builder.last + 24 ≤ s.builder.arena + plan.tagStart := by
    intro hne
    have := hplan.last hne
    omega
  have hempty : s.builder.tagCount = 0 ↔ s.builder.last = 0 := by
    rw [hinv.chain.count, hinv.chain.last, hinv.arena]
    cases hl : s.tags.getLast? with
    | none => simp [List.getLast?_eq_none_iff.mp hl]
    | some r =>
      have hne : s.tags ≠ [] := fun hnil => by rw [hnil] at hl; cases hl
      have := A.ptr_ne
      simp [hne]
      omega
  refine ⟨by omega, rfl, (Nat.mod_eq_of_lt (show s.builder.arenaPhys + plan.tagStart < 2 ^ 64 by omega)).symm,
    htagEnd.symm, rfl, rfl, hplan.overflow, hthere.id, hthere.size, hthere.version, ?_, ?_, ?_⟩
  · exact (linked_header hlast).trans stampHeader_next
  · intro hcount
    exact if_neg (not_not.mpr (hempty.mp hcount))
  · intro hcount
    have hne : s.builder.last ≠ 0 := fun hzero => hcount (hempty.mpr hzero)
    refine ⟨if_pos hne, ?_⟩
    change tagNext (if s.builder.last ≠ 0 then _ else _) s.builder.last = _
    rw [if_pos hne]
    exact Mem.getLE_putLE (show s.builder.arenaPhys + plan.tagStart < 2 ^ 64 by omega)

/-- Both tests of the source pass, and the collection is a success unless the
log's CRC is zero. -/
theorem publish_reference (hplan : Planned s.builder n plan) (hinv : Inv A s) (hcb : cb.UsesBuilder)
    (hlen : log.length = n * 144) (hn : n ≠ 0) (hcrc : crc64 log ≠ 0) (st : σ) (calls : List Call) :
    publish cb p plan (save s.builder s.mem plan) n outTag log ⟨s.builder, s.mem, st, calls⟩ =
      (.ok (), ⟨(allocated s.builder s.mem plan log).1,
        published s.builder s.mem plan p n outTag log, st,
        calls ++ [.arenaAllocate .measurements] ++ [.arenaAllocate .tag]⟩) := by
  have hcap := hplan.capacity
  have hbelow := A.below
  have hptr := hplan.arena
  obtain ⟨_, _, hts, hend⟩ := hplan.order
  rw [hinv.capacity] at hcap
  have hphys := hinv.phys
  refine publish_of_placed hcrc (allocate_log hplan hinv hcb hlen hn st calls) ?_
    (allocate_tag hplan hinv hcb hlen st _) (hplan.tagPlaced hinv hlen st _)
  refine ⟨by omega, rfl,
    (Nat.mod_eq_of_lt (show s.builder.arenaPhys + plan.blobStart < 2 ^ 64 by omega)).symm, rfl, rfl, rfl,
    rfl, hplan.overflow, ?_⟩
  rw [hplan.logBytes, ← hlen]
  exact Mem.bytes_blit _ _ _

end Exact

/-! ## What is left in memory -/

/-- The published tag as a loader knows it. -/
def securityRecord (b : Builder) (m : Mem) (plan : SecurityPlan) (p : SecurityPlatform) (n : Nat)
    (log : List UInt8) : Record :=
  { fresh plan.tagStart tagSecurity securityTagVersion securityTagSize with
    body := fun i => filled b m plan p n log (b.arena + plan.tagStart + i) }

section Memory

variable {A : Arena} {s : Session} {plan : SecurityPlan} {n outTag : Nat} {log : List UInt8}
  {p : SecurityPlatform}

/-- A session with a collection in it is a session. -/
theorem Planned.inv_published (hplan : Planned s.builder n plan) (hinv : Inv A s)
    (hlen : log.length = n * 144)
    (hapart : outTag + 8 ≤ s.builder.arena ∨ s.builder.arena + s.builder.capacity ≤ outTag) :
    Inv A ⟨(allocated s.builder s.mem plan log).1, published s.builder s.mem plan p n outTag log,
      s.tags ++ [securityRecord s.builder s.mem plan p n log]⟩ := by
  have hfilled : Inv A ⟨(allocated s.builder s.mem plan log).1, filled s.builder s.mem plan p n log,
      s.tags ++ [{ fresh plan.tagStart tagSecurity securityTagVersion securityTagSize with
        body := fun i => filled s.builder s.mem plan p n log (A.ptr + plan.tagStart + i) }]⟩ := by
    refine (hplan.inv_allocated hinv hlen).rebody fun a ha => ?_
    change a < A.ptr + plan.tagStart + 32 ∨ A.ptr + plan.tagStart + 128 ≤ a at ha
    rw [← hinv.arena] at ha
    exact fillTag_frame (by omega)
  have hsealed := sealTag_inv hfilled (List.mem_append_right _ List.mem_cons_self)
  change Inv A ⟨_, sealTag _ (A.ptr + plan.tagStart), _⟩ at hsealed
  rw [← hinv.arena] at hsealed
  have harena := hinv.arena
  have hcap := hinv.capacity
  -- the pointer to the tag is stored outside the arena
  have hout : ∀ a, A.ptr ≤ a → a < A.ptr + A.capacity →
      published s.builder s.mem plan p n outTag log a =
        sealTag (filled s.builder s.mem plan p n log) (s.builder.arena + plan.tagStart) a :=
    fun a hlo hhi => Mem.putLE_frame (by omega)
  have hused := hsealed.used
  refine hsealed.keep _ _ _ (Nat.le_refl _) hused (fun r hr i hi _ => ?_) fun i hlo hhi => ?_
  · have hin := (hsealed.stands r hr).inside
    exact hout _ (by omega) (by omega)
  · exact (hout _ (by omega) (by omega)).trans (hsealed.fresh i hlo hhi)

/-- The log is where it was put. -/
theorem Planned.log_published (hplan : Planned s.builder n plan) (hlen : log.length = n * 144)
    (hapart : outTag + 8 ≤ s.builder.arena ∨ s.builder.arena + s.builder.capacity ≤ outTag) :
    (published s.builder s.mem plan p n outTag log).bytes (s.builder.arena + plan.blobStart) (n * 144) =
      log := by
  obtain ⟨hused, _, hts, hend⟩ := hplan.order
  have hbe := hplan.blobEnd
  have hcap := hplan.capacity
  refine Eq.trans (Mem.bytes_congr fun i hi => ?_)
    (hlen ▸ Mem.bytes_blit s.mem (s.builder.arena + plan.blobStart) log)
  rw [published, put64, Mem.putLE_frame (by omega), sealTag_frame (by omega), filled,
    fillTag_frame (by omega)]
  refine linked_frame (by dsimp only; omega) fun hne => ?_
  have := hplan.last hne
  dsimp only
  omega

theorem Planned.tag_published (hplan : Planned s.builder n plan) (hinv : Inv A s)
    (hlen : log.length = n * 144) (hfew : n ≤ maxMeasurements) :
    TagShown (filled s.builder s.mem plan p n log) (s.builder.arena + plan.tagStart) p n
      (s.builder.arenaPhys + plan.blobStart) (crc64 log) := by
  have hall := hplan.inv_allocated hinv hlen
  have hthere := (hall.stands _ (List.mem_append_right _ List.mem_cons_self)).there
  have hcap := hplan.capacity
  have hbelow := A.below
  have hphys := hinv.phys
  obtain ⟨_, _, hts, hend⟩ := hplan.order
  rw [hinv.capacity] at hcap
  unfold maxMeasurements at hfew
  refine fillTag_shown (fun i hlo hhi => ?_) (by omega) (by omega) (crc64_lt log)
  rw [hinv.arena]
  exact hthere.body i hlo hhi

end Memory

/-! ## What the kernel is handed -/

/-- The kernel `k` is handed the log of a collection behind the tags there
were, in the tag at `t`. -/
structure LogHanded (k : Kctx) (kmem : Mem) (tags : List Nat) (p : SecurityPlatform) (n : Nat)
    (log : List UInt8) (t : Nat) : Prop where
  delivers : Delivers k kmem (tags ++ [t])
  shown : TagShown kmem t p n (get64 kmem (t + 64)) (crc64 log)
  log : kmem.bytes (get64 kmem (t + 64) + k.hhdmOffset) (n * measurementSize) = log
  verifies : (verifyBlob (some k) (get64 kmem (t + 64)) (n * measurementSize)
    (get64 kmem (t + 104)) false).val kmem = .ok

section Handoff

variable {A : Arena} {s : Session} {plan : SecurityPlan} {n outTag : Nat} {log : List UInt8}
  {p : SecurityPlatform}

/-- The last of a list is found exactly if none before it is. -/
theorem find_snoc_iff {α β : Type} (f : α → β) {q : α → Prop} [DecidablePred q] {xs : List α} {x : α}
    (hx : q x) (hne : ∀ y ∈ xs, f y ≠ f x) :
    ((xs ++ [x]).find? fun y => decide (q y)).map f = some (f x) ↔ ∀ y ∈ xs, ¬ q y := by
  rw [List.find?_append]
  constructor
  · intro hsome y hy hq
    obtain ⟨z, hz⟩ : ∃ z, xs.find? (fun y => decide (q y)) = some z :=
      Option.isSome_iff_exists.mp (List.find?_isSome.mpr ⟨y, hy, decide_eq_true hq⟩)
    rw [hz, Option.some_or, Option.map_some, Option.some.injEq] at hsome
    exact hne z (List.mem_of_find?_eq_some hz) hsome
  · intro hnone
    have hold : xs.find? (fun y => decide (q y)) = none := by
      rw [List.find?_eq_none]
      intro y hy
      simpa using hnone y hy
    rw [hold, Option.none_or, List.find?_singleton, decide_eq_true hx]
    rfl

/-- A published collection sealed and read. -/
theorem Planned.handoff (hplan : Planned s.builder n plan) (hinv : Inv A s)
    (hlen : log.length = n * 144) (hn : n ≠ 0) (hfew : n ≤ maxMeasurements) (hcrc : crc64 log ≠ 0)
    (hapart : outTag + 8 ≤ s.builder.arena ∨ s.builder.arena + s.builder.capacity ≤ outTag)
    {fuel info : Nat} (hfuel : 1024 ≤ fuel) (hinfo : info ≠ 0) (hout : A.Outside info 144)
    (infoPhys : Nat) :
    ∃ m', builderFinalize fuel (allocated s.builder s.mem plan log).1
        (published s.builder s.mem plan p n outTag log) info infoPhys =
          some (infoPhys, (allocated s.builder s.mem plan log).1, m') ∧
      ∀ kmem infoVa hint, infoVa ≠ 0 → hint ≠ 0 → A.phys + hint + A.capacity < 2 ^ 64 →
        Mapped A m' info kmem infoVa hint → ∃ k : Kctx, k.hhdmOffset = hint ∧
          (∀ out, out ≠ none → (initBounded out infoVa hint A.phys A.capacity).val kmem =
            (.ok, some k)) ∧
          LogHanded k kmem (s.tags.map (Record.virt A hint)) p n log
            (A.phys + plan.tagStart + hint) ∧
          ((findTag (some k) tagSecurity).val kmem = some (A.phys + plan.tagStart + hint) ↔
            ∀ r ∈ s.tags, r.id ≠ tagSecurity) := by
  obtain ⟨hused, hlo, hts, hend⟩ := hplan.order
  have hbe := hplan.blobEnd
  have htagEnd := hplan.tagEnd
  have hcap := hplan.capacity
  rw [hinv.capacity] at hcap
  have harena := hinv.arena
  have hpub := hplan.inv_published (p := p) hinv hlen hapart
  obtain ⟨m', heq, hsealed, hframe⟩ := hpub.finalizes hplan.overflow
    (show plan.tagStart + 128 ≤ _ from htagEnd ▸ hplan.limit) hfuel hinfo hout infoPhys
  refine ⟨m', heq, fun kmem infoVa hint hva hhint hwrap hmap => ?_⟩
  have hread := fun out (hsome : out ≠ none) => hsealed.read hsome hva hhint hwrap hmap
  obtain ⟨_, hdelivers, hat, hfind⟩ := hread (some ⟨0, 0, false, 0, 0⟩) (by decide)
  have hbelow := A.below
  have hphys := A.phys_ne
  -- the tag, as the kernel reads it
  have hthere := hat _ (List.mem_append_right _ List.mem_cons_self)
  have hshown : TagShown kmem (A.phys + plan.tagStart + hint) p n (A.phys + plan.blobStart) (crc64 log) := by
    rw [← hinv.phys]
    refine (hplan.tag_published hinv hlen hfew).congr fun i hlo hhi => ?_
    rw [hinv.phys]
    exact hthere.body i hlo hhi
  have hmeas := hshown.measurements
  -- the log, which `finalize` leaves alone
  have hlog : kmem.bytes (A.phys + plan.blobStart + hint) (n * 144) = log := by
    refine Eq.trans (Mem.bytes_congr fun i hi => ?_) (hplan.log_published (p := p) hlen hapart)
    rw [show A.phys + plan.blobStart + hint + i = A.phys + hint + (plan.blobStart + i) by omega,
      hmap.arena _ (by omega), hinv.arena, ← Nat.add_assoc]
    unfold Arena.Outside at hout
    refine hframe _ (by omega) fun r hr => ?_
    rcases List.mem_append.mp hr with hr | hr
    · have hold := hinv.stands r hr
      have hin := hold.inside
      have hlow := hold.sizeLow
      omega
    · rw [List.mem_singleton.mp hr]
      change _ ∨ A.ptr + plan.tagStart + 32 ≤ _
      change _ < A.ptr + plan.tagStart + 24 ∨ _
      omega
  refine ⟨⟨infoVa, hint, true, A.phys, A.phys + A.capacity⟩, rfl, fun out hsome => (hread out hsome).1,
    ⟨?_, hmeas ▸ hshown, ?_, ?_⟩, ?_⟩
  · rw [List.map_append] at hdelivers
    exact hdelivers
  · rw [hmeas]
    exact hlog
  · rw [hmeas, hshown.measurementsCrc]
    unfold maxMeasurements at hfew
    rw [verifyBlob_val kmem (by omega) (by unfold measurementSize; omega)
      (by unfold maxBlob measurementSize; omega) (by unfold measurementSize; omega)
      (by unfold measurementSize; dsimp only; omega)]
    exact if_pos ⟨hcrc, congrArg crc64 hlog⟩
  · rw [hfind tagSecurity]
    -- an earlier tag stands elsewhere
    refine find_snoc_iff (Record.virt A hint) rfl fun r hr hsame => ?_
    have hold := hinv.stands r hr
    have hin := hold.inside
    have hlow := hold.sizeLow
    change A.phys + r.off + hint = A.phys + plan.tagStart + hint at hsame
    omega

end Handoff

end BearBoot.Security
