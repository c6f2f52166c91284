import BearBoot.Import.Handoff

/-!
# An imported command line, verified

All three importers copy the command line into the arena and seal its
content with CRC-64/XZ in the tag. The kernel's `bbp_verify_blob` takes a
checksum of zero for "not checked" (ADR-0006), and an emitter stores
whatever the CRC is. `cmdline_verifies_iff` has what follows: the kernel
is handed the tag, finds it if the loader had put no other command line
before, and, when it refuses unchecked blobs, verifies the string if and
only if the CRC of the content is not zero.

Zero is a value like any other. `root=/dev/vda id=zvdgvkrlrzxtmb` has it
(`zeroLine`), and `cmdline_zero_refused` is its import: the kernel finds
the tag and refuses the string. The security collector of the same
repository does not publish a log whose CRC is zero.
-/

set_option autoImplicit false

namespace BearBoot.Import

open Machine Bootloader Kernel

theorem rangesOverlap_apart {a n c k : Nat} (h : rangesOverlap a n c k = false) :
    a + n ≤ c ∨ c + k ≤ a := by
  unfold rangesOverlap at h
  split at h
  next => cases h
  next => rw [decide_eq_false_iff_not] at h; omega

/-! ## The tag -/

section Tag

variable {A : Arena} {m kmem : Mem} {hint data bytes t : Nat}

/-- The fields of a command line tag. -/
theorem Seen.cmdline (h : Seen A m kmem hint (emitCmdline data bytes) t) (hout : A.Outside data bytes)
    (hbytes : bytes ≤ u32Max) :
    CopyAt A m kmem hint (get64 kmem (t + 32)) data bytes ∧ get32 kmem (t + 40) = bytes - 1 ∧
      get64 kmem (t + 48) = crc64 (m.bytes data (bytes - 1)) := by
  obtain ⟨_, _, phys, tag, m₁, hlo, hhi, hm₁, _, hbody, hblob⟩ := h
  change tag + 56 ≤ A.ptr + A.capacity at hhi
  change ∀ i, 32 ≤ i → i < 56 → _ at hbody
  have hcopy := hblob data bytes rfl
  have hbelow := A.below
  have hhigh := hcopy.high
  unfold Arena.Outside at hout hm₁
  unfold u32Max at hbytes
  -- the stores leave the source alone, which is outside the arena
  have hcontent : ∀ v w : Nat, (put32 (put64 m₁ (tag + 32) v) (tag + 40) w).bytes data (bytes - 1) =
      m.bytes data (bytes - 1) := by
    intro v w
    refine Mem.bytes_congr fun i hi => ?_
    rw [put32, put64, Mem.putLE_frame (by omega), Mem.putLE_frame (by omega), hm₁ _ (by omega)]
  have hcrc := crc64_lt (m.bytes data (bytes - 1))
  have hphys : get64 kmem (t + 32) = phys := by
    rw [get64, Mem.getLE_shift hbody (by decide) (by decide)]
    simp (disch := omega) only [emitCmdline, put64, put32, Mem.getLE_putLE_frame, Mem.getLE_putLE]
  refine ⟨hphys ▸ hcopy, ?_, ?_⟩
  · rw [get32, Mem.getLE_shift hbody (by decide) (by decide)]
    simp (disch := omega) only [emitCmdline, put64, put32, Mem.getLE_putLE_frame, Mem.getLE_putLE]
  · rw [get64, Mem.getLE_shift hbody (by decide) (by decide)]
    simp only [emitCmdline, hcontent]
    exact Mem.getLE_putLE (by omega)

/-- The kernel verifies the string unless its checksum is zero. -/
theorem Seen.cmdline_verify (h : Seen A m kmem hint (emitCmdline data bytes) t)
    (hout : A.Outside data bytes) (hbytes : bytes ≤ 64 * 1024 * 1024) (hline : 2 ≤ bytes)
    (hwrap : A.phys + hint + A.capacity < 2 ^ 64) (infoVa : Nat) :
    (verifyBlob (some (context A infoVa hint)) (get64 kmem (t + 32)) (get32 kmem (t + 40))
        (get64 kmem (t + 48)) false).val kmem = .ok ↔
      crc64 (m.bytes data (bytes - 1)) ≠ 0 := by
  obtain ⟨hcopy, hlen, hcrc⟩ := h.cmdline hout (by unfold u32Max; omega)
  have hlow := hcopy.low
  have hhigh := hcopy.high
  have hphys := A.phys_ne
  have hbelow := A.below
  have hcontent : kmem.bytes (get64 kmem (t + 32) + (context A infoVa hint).hhdmOffset) (bytes - 1) =
      m.bytes data (bytes - 1) := by
    have hall := Mem.bytes_eq_iff.mp (hcopy.bytes hout)
    exact Mem.bytes_congr fun i hi => hall i (by omega)
  rw [hlen, hcrc, verifyBlob_val kmem (by omega) (by omega) (by unfold maxBlob; omega) (by omega)
    (by change _ + hint + _ < _; omega)]
  simp only [hcontent, and_true]
  split
  next hne => exact ⟨fun _ => hne, fun _ => rfl⟩
  next hzero => exact ⟨(fun hc => by cases hc), fun hc => absurd hc hzero⟩

end Tag

/-! ## The source -/

/-- The command line a source names, its NUL included. -/
def Source.commandLine (m : Mem) : Source → Option ImportString
  | .limine _ s => if has s.present hasCmdline then some s.commandLine else none
  | .multiboot2 _ s =>
    match scanMbi m s with
    | .error _ => none
    | .ok scan =>
      if scan.cmdlineOffset ≠ sizeMax then some ⟨scan.data + scan.cmdlineOffset, scan.cmdlineBytes⟩
      else none
  | .uefi _ s => if has s.present hasCmdline then some s.commandLine else none

section Source

variable {b : Builder} {m : Mem} {line : ImportString}

theorem limineObjects_cmdline (s : LimineSnapshot) (sizes : LimineSizes) :
    (limineObjects s sizes).find? (fun o => decide (o.id = tagCmdline)) =
      if has s.present hasCmdline then some (emitCmdline s.commandLine.data s.commandLine.bytes)
      else none := by
  simp only [limineObjects, List.find?_append, find_objectIf]
  simp [tagHhdm, tagMemoryMap, tagKernelAddress, tagSmp, tagCmdline, tagFramebuffer, tagAcpi, tagIdOf]

theorem uefiObjects_cmdline (s : UefiSnapshot) (sizes : UefiSizes) :
    (uefiObjects s sizes).find? (fun o => decide (o.id = tagCmdline)) =
      if has s.present hasCmdline then some (emitCmdline s.commandLine.data s.commandLine.bytes)
      else none := by
  simp only [uefiObjects, List.find?_append, find_objectIf]
  simp [tagHhdm, tagMemoryMap, tagKernelAddress, tagCmdline, tagFramebuffer, tagAcpi, tagEfi, tagSmbios,
    tagIdOf]

theorem mb2Objects_cmdline (s : Multiboot2Snapshot) (sizes : Mb2Sizes) :
    (mb2Objects s sizes).find? (fun o => decide (o.id = tagCmdline)) =
      if sizes.scan.cmdlineOffset ≠ sizeMax then
        some (emitCmdline (sizes.scan.data + sizes.scan.cmdlineOffset) sizes.scan.cmdlineBytes)
      else none := by
  simp only [mb2Objects, List.find?_append, find_objectIf]
  simp [tagHhdm, tagMemoryMap, tagKernelAddress, tagCmdline, tagModules, tagFramebuffer, tagAcpi, tagIdOf]

/-- The scan's command line stands inside the structure. -/
theorem scanMbi_cmdline {s : Multiboot2Snapshot} {scan : Mb2Scan} (h : scanMbi m s = .ok scan)
    (hp : scan.cmdlineOffset ≠ sizeMax) :
    s.mbi ≤ scan.data + scan.cmdlineOffset ∧
      scan.data + scan.cmdlineOffset + scan.cmdlineBytes ≤ s.mbi + s.mappedBytes := by
  obtain ⟨_, hdata, _⟩ := scanMbi_place h
  obtain ⟨_, hmapped, _, rs, st, hrecords, hfold, rfl⟩ := scanMbi_records h
  obtain ⟨r, hr, _, hvalue, _⟩ := (cmdlineSlot m).found hfold fun heq => hp (congrArg Prod.fst heq)
  obtain ⟨hoffset, hbytes⟩ := Prod.ext_iff.mp hvalue
  change (scanFinish st).cmdlineOffset = r.offset + 8 at hoffset
  change (scanFinish st).cmdlineBytes = r.size - 8 at hbytes
  obtain ⟨_, _, hlow, hinside⟩ := hrecords.mem r hr
  rw [hoffset, hbytes, hdata]
  omega

/-- What an import that succeeds has made of its command line. -/
theorem Source.commandLine_ok {src : Source} (hok : (src.run b m).status = .ok ())
    (hline : src.commandLine m = some line) :
    (src.objects b m).find? (fun o => decide (o.id = tagCmdline)) =
        some (emitCmdline line.data line.bytes) ∧
      (line.data + line.bytes ≤ b.arena ∨ b.arena + b.capacity ≤ line.data) := by
  cases src with
  | limine snapshot s =>
    obtain ⟨sizes, hc, _⟩ := finish_ok hok
    rw [Source.commandLine] at hline
    split at hline
    next hp =>
      cases hline
      have hcheck := limineCheck_line hc
      rw [checkCmdline, if_pos hp] at hcheck
      obtain ⟨_, hrange, _⟩ := ok_bind_iff.mp hcheck
      simp only [Source.objects, hc]
      exact ⟨(limineObjects_cmdline s sizes).trans (if_pos hp),
        rangesOverlap_apart (Bool.eq_false_iff.mpr (refuse_ok_iff.mp hrange))⟩
    next => cases hline
  | multiboot2 snapshot s =>
    obtain ⟨sizes, hc, _⟩ := finish_ok hok
    obtain ⟨hscan, hrange, _⟩ := mb2Check_scan hc
    rw [Source.commandLine, hscan] at hline
    dsimp only at hline
    split at hline
    next hp =>
      cases hline
      have hapart := rangesOverlap_apart hrange
      obtain ⟨hlow, hhigh⟩ := scanMbi_cmdline hscan hp
      simp only [Source.objects, hc]
      exact ⟨(mb2Objects_cmdline s sizes).trans (if_pos hp), by omega⟩
    next => cases hline
  | uefi snapshot s =>
    obtain ⟨sizes, hc, _⟩ := finish_ok hok
    rw [Source.commandLine] at hline
    split at hline
    next hp =>
      cases hline
      have hcheck := uefiCheck_line hc
      rw [checkCmdline, if_pos hp] at hcheck
      obtain ⟨_, hrange, _⟩ := ok_bind_iff.mp hcheck
      simp only [Source.objects, hc]
      exact ⟨(uefiObjects_cmdline s sizes).trans (if_pos hp),
        rangesOverlap_apart (Bool.eq_false_iff.mpr (refuse_ok_iff.mp hrange))⟩
    next => cases hline

end Source

/-! ## From the import to the kernel -/

/-- The kernel's view of an imported command line. -/
theorem Source.line_handed {A : Arena} {s : Session} {src : Source} {line : ImportString}
    (hinv : Inv A s) (hok : (src.run s.builder s.mem).status = .ok ())
    (hline : src.commandLine s.mem = some line) (hlen : 2 ≤ line.bytes) {fuel info : Nat}
    (hfuel : 1024 ≤ fuel) (hinfo : info ≠ 0) (hout : A.Outside info 144) (infoPhys : Nat) :
    ∃ m', builderFinalize fuel (src.run s.builder s.mem).builder (src.run s.builder s.mem).mem info
        infoPhys = some (infoPhys, (src.run s.builder s.mem).builder, m') ∧
      ∀ kmem infoVa hint, infoVa ≠ 0 → hint ≠ 0 → A.phys + hint + A.capacity < 2 ^ 64 →
        Mapped A m' info kmem infoVa hint →
        (∀ out, out ≠ none → (initBounded out infoVa hint A.phys A.capacity).val kmem =
          (.ok, some (context A infoVa hint))) ∧
        ∃ ts t, Delivers (context A infoVa hint) kmem ts ∧ t ∈ ts ∧ tagId kmem t = tagCmdline ∧
          ((∀ r ∈ s.tags, r.id ≠ tagCmdline) →
            (findTag (some (context A infoVa hint)) tagCmdline).val kmem = some t) ∧
          ((verifyBlob (some (context A infoVa hint)) (get64 kmem (t + 32)) (get32 kmem (t + 40))
              (get64 kmem (t + 48)) false).val kmem = .ok ↔
            crc64 (s.mem.bytes line.data (line.bytes - 1)) ≠ 0) := by
  obtain ⟨plan, _, hpass, hrun⟩ := Source.run_ok hok
  obtain ⟨hfind, hapart⟩ := Source.commandLine_ok hok hline
  obtain ⟨m', heq, hkernel⟩ := hpass.handoff hinv hfuel hinfo hout infoPhys
  obtain ⟨⟨_, _, hplan⟩, _⟩ := hpass
  have hbytes := planAll_blob hplan (List.mem_of_find?_eq_some hfind) rfl
  unfold maxArena at hbytes
  rw [show s.builder.arena = A.ptr from hinv.arena,
    show s.builder.capacity = A.capacity from hinv.capacity] at hapart
  rw [hrun]
  refine ⟨m', heq, ?_⟩
  intro kmem infoVa hint hva hhint hwrap hmap
  obtain ⟨ts, hhanded⟩ := hkernel kmem infoVa hint hva hhint hwrap hmap
  obtain ⟨t, ht, hseen, hzip⟩ := find_beside hhanded.seen hfind
  refine ⟨hhanded.init, _, t, hhanded.delivers, List.mem_append_right _ ht, hseen.id, ?_, ?_⟩
  · intro hnone
    rw [hhanded.finds tagCmdline hnone]
    exact hzip
  · exact hseen.cmdline_verify hapart (by omega) hlen hwrap infoVa

/-- After an import of a nonempty command line the kernel is handed its tag,
and verifies the string, with unchecked blobs refused, exactly when the
CRC of the content is not zero. -/
theorem cmdline_verifies_iff (A : Arena) (m₀ : Mem) (ops : List Op) (s : Session) (src : Source)
    (line : ImportString) (fuel info infoPhys : Nat) (hfuel : 1024 ≤ fuel)
    (hrun : run A fuel (Session.start A m₀) ops = some s)
    (hok : (src.run s.builder s.mem).status = .ok ()) (hline : src.commandLine s.mem = some line)
    (hlen : 1 ≤ line.bytes - 1) (hinfo : info ≠ 0) (hout : A.Outside info 144) :
    ∃ m', builderFinalize fuel (src.run s.builder s.mem).builder (src.run s.builder s.mem).mem info
        infoPhys = some (infoPhys, (src.run s.builder s.mem).builder, m') ∧
      ∀ (out : Option Kctx) (kmem : Mem) (infoVa hint : Nat), out ≠ none → infoVa ≠ 0 → hint ≠ 0 →
        A.phys + hint + A.capacity < 2 ^ 64 → Mapped A m' info kmem infoVa hint →
        ∃ k ts t, (initBounded out infoVa hint A.phys A.capacity).val kmem = (.ok, some k) ∧
          Delivers k kmem ts ∧ t ∈ ts ∧ tagId kmem t = tagCmdline ∧
          ((((∀ r ∈ s.tags, r.id ≠ tagCmdline) → (findTag (some k) tagCmdline).val kmem = some t) ∧
              (verifyBlob (some k) (get64 kmem (t + 32)) (get32 kmem (t + 40)) (get64 kmem (t + 48))
                false).val kmem = .ok) ↔
            crc64 (s.mem.bytes line.data (line.bytes - 1)) ≠ 0) := by
  obtain ⟨s', hrun', hinv⟩ := run_inv (start_inv A m₀) hfuel ops
  rw [hrun] at hrun'
  cases hrun'
  obtain ⟨m', heq, hkernel⟩ := Source.line_handed hinv hok hline (by omega) hfuel hinfo hout infoPhys
  refine ⟨m', heq, ?_⟩
  intro out kmem infoVa hint hsome hva hhint hwrap hmap
  obtain ⟨hinit, ts, t, hdelivers, ht, hid, hfind, hverify⟩ :=
    hkernel kmem infoVa hint hva hhint hwrap hmap
  exact ⟨_, ts, t, hinit out hsome, hdelivers, ht, hid,
    ⟨fun h => hverify.mp h.2, fun h => ⟨hfind, hverify.mpr h⟩⟩⟩

/-! ## A command line of checksum zero -/

/-- `root=/dev/vda id=zvdgvkrlrzxtmb`. -/
def zeroLine : List UInt8 :=
  [0x72, 0x6f, 0x6f, 0x74, 0x3d, 0x2f, 0x64, 0x65, 0x76, 0x2f, 0x76, 0x64, 0x61, 0x20, 0x69, 0x64,
    0x3d, 0x7a, 0x76, 0x64, 0x67, 0x76, 0x6b, 0x72, 0x6c, 0x72, 0x7a, 0x78, 0x74, 0x6d, 0x62]

/-- A loader's memory with a string at `0x3000`. -/
def lineMem (content : List UInt8) : Mem := Mem.zeros.blit 0x3000 (content ++ [0])

/-- A snapshot with a command line at `0x3000` and nothing else. -/
def lineSnapshot (bytes : Nat) : LimineSnapshot :=
  ⟨hasCmdline, 0, 0, 0, 0, 0, 0, 0, 0, 0, ⟨0x3000, bytes⟩, ⟨0, 0, 0, 0, 0, 0, 0, 0⟩, ⟨0, 0, 0, 0, 0⟩⟩

/-- The session that has only initialised its builder. -/
def lineSession (content : List UInt8) : Session := Session.start smallArena (lineMem content)

/-- The kernel maps the loader's memory at `0x10000`. -/
def lineKernel (m : Mem) : Mem := fun a => m (a - 0x10000)

theorem lineKernel_mapped (m : Mem) : Mapped smallArena m 0x1000 (lineKernel m) 0x11000 0x10000 where
  arena i _ := congrArg m (by change 0x2000 + 0x10000 + i - 0x10000 = 0x2000 + i; omega)
  info i _ := congrArg m (by omega)

/-- The importer takes the line, the kernel finds its tag, and refuses it. -/
theorem cmdline_zero_refused :
    ((Source.limine 0x100 (lineSnapshot 32)).run (lineSession zeroLine).builder
        (lineSession zeroLine).mem).status = .ok () ∧
      (Source.limine 0x100 (lineSnapshot 32)).commandLine (lineSession zeroLine).mem =
        some ⟨0x3000, 32⟩ ∧
      ∃ b m', builderFinalize 1024
          ((Source.limine 0x100 (lineSnapshot 32)).run (lineSession zeroLine).builder
            (lineSession zeroLine).mem).builder
          ((Source.limine 0x100 (lineSnapshot 32)).run (lineSession zeroLine).builder
            (lineSession zeroLine).mem).mem 0x1000 0x1000 = some (0x1000, b, m') ∧
        ∃ k t, (initBounded (some ⟨0, 0, false, 0, 0⟩) 0x11000 0x10000 0x2000 0x100).val
            (lineKernel m') = (.ok, some k) ∧
          (findTag (some k) tagCmdline).val (lineKernel m') = some t ∧
          (verifyBlob (some k) (get64 (lineKernel m') (t + 32)) (get32 (lineKernel m') (t + 40))
            (get64 (lineKernel m') (t + 48)) false).val (lineKernel m') ≠ .ok := by
  have hok : ((Source.limine 0x100 (lineSnapshot 32)).run (lineSession zeroLine).builder
      (lineSession zeroLine).mem).status = .ok () := by decide +kernel
  have hline : (Source.limine 0x100 (lineSnapshot 32)).commandLine (lineSession zeroLine).mem =
      some ⟨0x3000, 32⟩ := rfl
  have hcrc : crc64 ((lineSession zeroLine).mem.bytes 0x3000 31) = 0 := by decide +kernel
  obtain ⟨m', heq, hkernel⟩ := Source.line_handed (start_inv smallArena (lineMem zeroLine)) hok hline
    (by decide) (Nat.le_refl 1024) (show 0x1000 ≠ 0 by decide) (by decide) 0x1000
  obtain ⟨hinit, ts, t, _, _, _, hfind, hverify⟩ := hkernel (lineKernel m') 0x11000 0x10000 (by decide)
    (by decide) (by decide) (lineKernel_mapped m')
  exact ⟨hok, hline, _, m', heq, _, t, hinit _ (by decide), hfind (fun _ hr => by cases hr),
    fun h => hverify.mp h hcrc⟩

/-- The line `quiet` verifies. -/
theorem cmdline_verifies_quiet :
    ∃ b m', builderFinalize 1024
        ((Source.limine 0x100 (lineSnapshot 6)).run (lineSession [0x71, 0x75, 0x69, 0x65, 0x74]).builder
          (lineSession [0x71, 0x75, 0x69, 0x65, 0x74]).mem).builder
        ((Source.limine 0x100 (lineSnapshot 6)).run (lineSession [0x71, 0x75, 0x69, 0x65, 0x74]).builder
          (lineSession [0x71, 0x75, 0x69, 0x65, 0x74]).mem).mem 0x1000 0x1000 = some (0x1000, b, m') ∧
      ∃ k t, (initBounded (some ⟨0, 0, false, 0, 0⟩) 0x11000 0x10000 0x2000 0x100).val
          (lineKernel m') = (.ok, some k) ∧
        (findTag (some k) tagCmdline).val (lineKernel m') = some t ∧
        (verifyBlob (some k) (get64 (lineKernel m') (t + 32)) (get32 (lineKernel m') (t + 40))
          (get64 (lineKernel m') (t + 48)) false).val (lineKernel m') = .ok := by
  have hcrc : crc64 ((lineSession [0x71, 0x75, 0x69, 0x65, 0x74]).mem.bytes 0x3000 (6 - 1)) ≠ 0 := by
    decide +kernel
  obtain ⟨m', heq, hkernel⟩ := cmdline_verifies_iff smallArena
    (lineMem [0x71, 0x75, 0x69, 0x65, 0x74]) [] (lineSession [0x71, 0x75, 0x69, 0x65, 0x74])
    (Source.limine 0x100 (lineSnapshot 6)) ⟨0x3000, 6⟩ 1024 0x1000 0x1000 (Nat.le_refl 1024) rfl
    (by decide +kernel) rfl (by decide) (by decide) (by decide)
  obtain ⟨k, ts, t, hinit, _, _, _, hiff⟩ := hkernel (some ⟨0, 0, false, 0, 0⟩) (lineKernel m') 0x11000
    0x10000 (by decide) (by decide) (by decide) (by decide) (lineKernel_mapped m')
  obtain ⟨hfind, hverify⟩ := hiff.mpr hcrc
  exact ⟨_, m', heq, k, t, hinit, hfind (fun _ hr => by cases hr), hverify⟩

end BearBoot.Import
