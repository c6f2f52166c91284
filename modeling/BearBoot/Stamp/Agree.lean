import BearBoot.Kernel.Model
import BearBoot.Loader.Exact
import BearBoot.Stamp.Model

/-!
# The stamper and the loader agree

The stamper writes three fields of the header and nothing else. What it
wrote is what the loader wants to see: the sealed header verifies, and the
address it gives for the request array is the one the kernel's own page
tables give for the symbol (`stamp_agrees`).

The two sides read the program headers on their own. The stamper answers
with the first `PT_LOAD` entry that has the symbol's address, the loader
maps pages. They agree because the loader's tables cannot be built from
segments that share a page, so every entry that has the address is the one
the page was mapped for; and because the stamped header is not where the
program headers are, which the statement has to ask for.
-/

set_option autoImplicit false

namespace BearBoot.Stamp

open Machine Machine.Paging Loader

variable {base : Nat} {raw out : List UInt8} {elf : Elf64}

/-! ## The checksum -/

/-- The stamper's CRC is the protocol's. -/
theorem crc64Xz_eq (data : List UInt8) : crc64Xz data = crc64 data := by
  have hbyte : ∀ (x : BitVec 64) (b : UInt8), pyCrcTurns 8 (x.toNat ^^^ b.toNat) = (crcByte x b).toNat := by
    intro x b
    have hb : (b.toBitVec.setWidth 64).toNat = b.toNat := by
      have := b.toNat_lt
      simp
    rw [crcByte, ← pyCrcTurns_toNat, BitVec.toNat_xor, hb]
  have hfold : ∀ x : BitVec 64, data.foldl (fun crc b => pyCrcTurns 8 (crc ^^^ b.toNat)) x.toNat =
      (crc64Update x data).toNat := by
    induction data with
    | nil => intro x; rfl
    | cons b bs ih =>
      intro x
      rw [List.foldl_cons, hbyte, ih]
      rfl
  have hstart := hfold crc64Init
  rw [crc64Xz, crc64, crc64Final, BitVec.toNat_xor, ← hstart]
  rfl

/-- A structure whose checksum field is zero has its splice as its CRC. -/
theorem crc64_bytes_of_zero {m : Mem} {len off : Nat} (hoff : off + 8 ≤ len)
    (hzero : m.bytes (base + off) 8 = List.replicate 8 0) :
    crc64 (m.bytes base len) = crcSpliced m base len off := by
  have hlen : len = off + (8 + (len - off - 8)) := by omega
  rw [crcSpliced_eq_crc64, ← hzero]
  nth_rewrite 1 [hlen]
  rw [bytes_add, bytes_add, ← List.append_assoc]

/-! ## What is written -/

theorem packInto_ok {off : Nat} {v : Int} (hoff : off + 8 ≤ raw.length)
    (h : packInto raw off v = .ok out) :
    ∃ n : Nat, v = n ∧ n < 2 ^ 64 ∧ out.length = raw.length ∧
      Mem.ofList out = (Mem.ofList raw).putLE off n 8 := by
  simp only [packInto, ok_bind_iff, refuse_ok_iff, pure_ok_iff, exists_const] at h
  obtain ⟨hfits, rfl⟩ := h
  refine ⟨v.toNat, by omega, by omega, ?_, ofList_overwrite _ hoff⟩
  simp only [List.length_append, List.length_take, length_le, List.length_drop]
  omega

/-- The fields filled in, and the checksum zeroed. -/
def filled (m : Mem) (base entry requests : Nat) : Mem :=
  ((m.putLE (base + 32) entry 8).putLE (base + 64) requests 8).putLE (base + 152) 0 8

/-- The file `out` is the file `raw` with its header at `base` stamped. -/
structure Stamped (raw out : List UInt8) (base entry requests : Nat) : Prop where
  inside : base + 160 ≤ raw.length
  magic : (Mem.ofList raw).bytes base 16 = headerMagic
  version : (Mem.ofList raw).getLE (base + 16) 2 = 1
  headerSize : (Mem.ofList raw).getLE (base + 20) 4 = 160
  fits : requests < 2 ^ 64
  length : out.length = raw.length
  mem : Mem.ofList out = (filled (Mem.ofList raw) base entry requests).putLE (base + 152)
    (crcSpliced (filled (Mem.ofList raw) base entry requests) base 160 152) 8

theorem slice_eq_bytes {start n : Nat} (h : start + n ≤ raw.length) :
    slice raw start (start + n) = (Mem.ofList raw).bytes start n := by
  rw [Mem.bytes_ofList_drop h, slice, Nat.add_sub_cancel_left]

theorem writeHeader_ok {entry requests : Int}
    (hinside : base + 160 ≤ raw.length) (h : writeHeader raw base entry requests = .ok out) :
    ∃ e r : Nat, requests = r ∧ r < 2 ^ 64 ∧ out.length = raw.length ∧
      Mem.ofList out = (filled (Mem.ofList raw) base e r).putLE (base + 152)
        (crcSpliced (filled (Mem.ofList raw) base e r) base 160 152) 8 := by
  simp only [writeHeader, ok_bind_iff] at h
  obtain ⟨raw₁, h₁, raw₂, h₂, raw₃, h₃, h⟩ := h
  obtain ⟨e, _, _, hlen₁, hm₁⟩ := packInto_ok (by omega) h₁
  obtain ⟨r, hr, hfits, hlen₂, hm₂⟩ := packInto_ok (by omega) h₂
  obtain ⟨z, hz, _, hlen₃, hm₃⟩ := packInto_ok (by omega) h₃
  obtain ⟨c, hc, _, hlen, hm⟩ := packInto_ok (by omega) h
  obtain rfl : z = 0 := by omega
  have hfilled : Mem.ofList raw₃ = filled (Mem.ofList raw) base e r := by rw [hm₃, hm₂, hm₁, filled]
  have hzero : (filled (Mem.ofList raw) base e r).bytes (base + 152) 8 = List.replicate 8 0 := by
    rw [filled, ← le_getLE, Mem.getLE_putLE (by decide)]
    decide
  have hcrc : c = crcSpliced (filled (Mem.ofList raw) base e r) base 160 152 := by
    rw [← crc64_bytes_of_zero (by decide) hzero, ← hfilled, ← slice_eq_bytes (by omega), ← crc64Xz_eq]
    exact (Int.ofNat_inj.mp hc).symm
  exact ⟨e, r, hr, hfits, by omega, by rw [hm, hfilled, hcrc]⟩

namespace Stamped

variable {raw out : List UInt8} {base entry requests : Nat}

/-- Only the three fields change. -/
theorem unchanged (h : Stamped raw out base entry requests) {i : Nat}
    (hentry : i < base + 32 ∨ base + 40 ≤ i) (hrequests : i < base + 64 ∨ base + 72 ≤ i)
    (hchecksum : i < base + 152 ∨ base + 160 ≤ i) : Mem.ofList out i = Mem.ofList raw i := by
  rw [h.mem, filled, Mem.putLE_frame (by omega), Mem.putLE_frame (by omega), Mem.putLE_frame (by omega),
    Mem.putLE_frame (by omega)]

theorem requests_eq (h : Stamped raw out base entry requests) : (Mem.ofList out).getLE (base + 64) 8 = requests := by
  rw [h.mem, filled, Mem.getLE_putLE_frame (by omega), Mem.getLE_putLE_frame (by omega), Mem.getLE_putLE h.fits]

theorem checksum_eq (h : Stamped raw out base entry requests) :
    (Mem.ofList out).getLE (base + 152) 8 = crcSpliced (Mem.ofList out) base 160 152 := by
  rw [h.mem]
  exact crcSpliced_seal _ base 160 152

/-- Wherever the stamped header stands in memory, it verifies. -/
theorem verifies (h : Stamped raw out base entry requests) {m : Mem} {hdr : Nat} (hne : hdr ≠ 0)
    (hm : m.bytes hdr 160 = (Mem.ofList out).bytes base 160) : (Kernel.verifyHeader hdr).val m = .ok := by
  have hkept : ∀ {i}, i < 32 → Mem.ofList out (base + i) = Mem.ofList raw (base + i) := fun {i} hi =>
    h.unchanged (by omega) (by omega) (by omega)
  have hmagic : m.bytes hdr 16 = headerMagic := by
    rw [← h.magic]
    refine (bytes_part hm (a := 0) (k := 16) (by decide)).trans ?_
    exact Mem.bytes_congr fun i hi => hkept (by omega)
  have hversion : get16 m (hdr + 16) = 1 := by
    rw [← h.version]
    refine (getLE_part hm (by decide)).trans (Mem.getLE_congr fun i hi => ?_)
    rw [Nat.add_assoc]
    exact hkept (by omega)
  have hsize : get32 m (hdr + 20) = 160 := by
    rw [← h.headerSize]
    refine (getLE_part hm (by decide)).trans (Mem.getLE_congr fun i hi => ?_)
    rw [Nat.add_assoc]
    exact hkept (by omega)
  have hcrc : crcSpliced m hdr 160 152 = get64 m (hdr + 152) := by
    have hbyte := Mem.bytes_eq_iff.mp hm
    rw [crcSpliced_congr (fun i hi => hbyte i (by omega)) (fun i _ hi => hbyte i hi), ← h.checksum_eq]
    exact (getLE_part hm (by decide)).symm
  simp only [Kernel.verifyHeader, if_neg hne, Traced.val_bind, Traced.val_ite, Traced.val_pure, loadBytes_val,
    load16_val, load32_val, load64_val, Kernel.crcSkip, loadCrcSpliced_val, hmagic, hversion, hsize, hcrc]
  simp

end Stamped

/-! ## The two readers of the program headers -/

/-- What the stamper keeps of a program header. -/
def loadSegment (h : ProgramHeader) : LoadSegment := ⟨h.virtualAddress, h.physicalAddress, h.memorySize⟩

/-- The stamper's segments are the entries the loader sees, if both see the
same program headers. -/
theorem readLoadSegments_eq {phoff phnum : Nat} {segments : List LoadSegment} (image : Image)
    (hsame : ∀ i, phoff ≤ i → i < phoff + phnum * 56 → Mem.ofList image.bytes i = Mem.ofList raw i)
    (h : readLoadSegments raw phoff 56 phnum = .ok segments) :
    segments = (((List.range phnum).map fun i => image.programHeader (phoff + i * 56)).filter (·.Load)).map
      loadSegment := by
  simp only [readLoadSegments, ok_bind_iff, refuse_ok_iff, exists_const] at h
  refine forUpTo_kept (fun n acc => acc =
    (((List.range n).map fun i => image.programHeader (phoff + i * 56)).filter (·.Load)).map loadSegment) rfl
    (fun i hi b b' hb hbody => ?_) h.2
  have hread : ∀ {o k}, o + k ≤ 56 → unpackFrom raw (phoff + i * 56 + o) k =
      (Mem.ofList image.bytes).getLE (phoff + i * 56 + o) k := fun {o k} hk =>
    Mem.getLE_congr fun j hj => (hsame _ (by omega) (by omega)).symm
  simp only [readLoadSegment, ok_bind_iff, refuse_ok_iff, exists_const] at hbody
  have htype : (image.programHeader (phoff + i * 56)).type = unpackFrom raw (phoff + i * 56) 4 :=
    (hread (o := 0) (k := 4) (by decide)).symm
  rw [List.range_succ, List.map_append, List.filter_append, List.map_append, ← hb]
  by_cases hload : unpackFrom raw (phoff + i * 56) 4 = 1
  · rw [if_pos hload, pure_ok_iff, hread (by decide), hread (by decide), hread (by decide)] at hbody
    have hkeep : (image.programHeader (phoff + i * 56)).Load := htype.trans hload
    rw [← hbody.2, List.map_singleton, List.filter_singleton, decide_eq_true hkeep]
    rfl
  · rw [if_neg hload, pure_ok_iff] at hbody
    have hskip : ¬ (image.programHeader (phoff + i * 56)).Load := fun hl => hload (htype.symm.trans hl)
    rw [← hbody.2, List.map_singleton, List.filter_singleton, decide_eq_false hskip]
    exact (List.append_nil b).symm

/-- The stamper's segment for an address is an entry that has it. -/
theorem loadPhysAddr_ok {vma phys : Nat} (h : elf.loadPhysAddr vma = .ok phys) :
    ∃ s ∈ elf.loadSegments, s.virtualAddress ≤ vma ∧ vma < s.virtualAddress + s.memorySize ∧
      phys = s.physicalAddress + (vma - s.virtualAddress) := by
  unfold Elf64.loadPhysAddr at h
  split at h
  · cases h
  next s hs =>
    have hin := List.find?_some hs
    rw [decide_eq_true_eq] at hin
    exact ⟨s, List.mem_of_find?_eq_some hs, hin.1, hin.2, (pure_ok_iff.mp h).symm⟩

/-- The stamped header is not over the ELF header or the program headers. -/
def Clear (raw : List UInt8) (base : Nat) : Prop :=
  64 ≤ base ∧ (base + 160 ≤ unpackFrom raw 32 8 ∨
    unpackFrom raw 32 8 + unpackFrom raw 56 2 * unpackFrom raw 54 2 ≤ base)

instance (raw : List UInt8) (base : Nat) : Decidable (Clear raw base) := inferInstanceAs (Decidable (_ ∧ _))

/-- What the loader plans from a stamped file has the stamper's segments. -/
theorem Stamped.loads {decode : List UInt8 → String} {entry requests : Nat}
    {image : Image} (hstamped : Stamped raw image.bytes base entry requests) (hclear : Clear raw base)
    (helf : readElf decode raw = .ok elf) (hwf : WellFormed image) :
    elf.loadSegments = image.loads.map loadSegment := by
  obtain ⟨hbase, htable⟩ := hclear
  have hkept : ∀ {i}, i < base ∨ base + 160 ≤ i → Mem.ofList image.bytes i = Mem.ofList raw i := fun {i} hi =>
    hstamped.unchanged (by omega) (by omega) (by omega)
  have hheader : ∀ {o k}, o + k ≤ 64 → (Mem.ofList image.bytes).getLE o k = unpackFrom raw o k := fun {o k} hk =>
    Mem.getLE_congr fun j hj => hkept (by omega)
  have hsize : unpackFrom raw 54 2 = 56 := (hheader (by decide)).symm.trans hwf.programHeaderSize
  have hcount : image.read16 56 = unpackFrom raw 56 2 := hheader (by decide)
  have hoff : image.read64 32 = unpackFrom raw 32 8 := hheader (by decide)
  simp only [readElf, ok_bind_iff, refuse_ok_iff, pure_ok_iff, exists_const] at helf
  obtain ⟨_, _, _, _, segments, hsegments, _, _, rfl⟩ := helf
  rw [hsize] at hsegments htable
  refine (readLoadSegments_eq image (fun i hlo hhi => hkept (by omega)) hsegments).trans ?_
  rw [Image.loads, Image.programHeaders, hcount, hoff]

/-- The stamped address is where the tables lead. -/
theorem Stamped.translates {decode : List UInt8 → String}
    {entry requests a : Nat} {image : Image} {plan : ElfPlan} {enableNx unmapNull : Bool} {s s' : Space}
    {pml4 : Nat} (hstamped : Stamped raw image.bytes base entry requests) (hclear : Clear raw base)
    (helf : readElf decode raw = .ok elf) (hphys : elf.loadPhysAddr a = .ok requests)
    (hplan : planImage image = .ok plan) (hf : s.pool.Fresh s.mem)
    (hbuild : buildPageTables s plan enableNx unmapNull = some (pml4, s')) :
    (translate s'.mem pml4 a).map (·.physical) = some requests := by
  obtain ⟨seg, hseg, hlo, hhi, rfl⟩ := loadPhysAddr_ok hphys
  rw [hstamped.loads hclear helf (plan_describes hplan).1] at hseg
  obtain ⟨h, hh, rfl⟩ := List.mem_map.mp hseg
  simp only [loadSegment] at hlo hhi ⊢
  obtain ⟨seg, hseg, _, _, hsize, hvirtual, hphysical, _⟩ := load_planned hplan hh
  obtain ⟨rfl, _, hmapped⟩ := buildPageTables_mapped hplan hf hbuild
  rw [← hsize, ← hvirtual] at hhi
  rw [← hvirtual] at hlo
  have hc : seg.Covers a := ⟨by omega, by omega, by omega⟩
  have hmoved := segmentTranslation_physical (planned_segment hplan hseg) enableNx hc
  rw [hmapped.covered seg hseg a hc, Option.map_some, ← hphysical, ← hvirtual]
  congr 1
  omega

/-! ## The stamper -/

/-- What a run with a symbol has done. -/
theorem stamp_ok {decode : List UInt8 → String} {args : Arguments} {symbol : String}
    (hrequests : args.requests = none) (hsymbol : args.requestsSymbol = some symbol) (hne : symbol ≠ "")
    (hwrite : args.checkOnly = false) (h : stamp decode raw args = .ok (0, out)) :
    ∃ elf base entry requests a, readElf decode raw = .ok elf ∧ headerBase elf raw = .ok base ∧
      elf.symbolAddr decode symbol = .ok (some a) ∧ elf.loadPhysAddr a = .ok requests ∧
      Stamped raw out base entry requests := by
  simp only [stamp, ok_bind_iff, refuse_ok_iff, exists_const, hwrite, Bool.false_eq_true, if_false, pure_ok_iff] at h
  obtain ⟨_, elf, helf, base, hbase, _, hvalid, requests, hreq, raw', hwritten, hout⟩ := h
  obtain rfl : raw' = out := congrArg Prod.snd hout
  simp only [validateHeader, ok_bind_iff, refuse_ok_iff, exists_const] at hvalid
  unfold hdrSize at hvalid
  obtain ⟨hinside, hmagic, hversion, hsize⟩ := hvalid
  simp only [newReq, hrequests, hsymbol, if_neg hne, ok_bind_iff] at hreq
  obtain ⟨found, hfound, hreq⟩ := hreq
  cases found with
  | none => cases hreq
  | some a =>
    simp only [ok_bind_iff, pure_ok_iff] at hreq
    obtain ⟨phys, hphys, rfl⟩ := hreq
    obtain ⟨e, r, hr, hfits, hlen, hm⟩ := writeHeader_ok (by omega) hwritten
    obtain rfl : phys = r := Int.ofNat_inj.mp hr
    refine ⟨elf, base, e, phys, a, helf, hbase, hfound, hphys, by omega, ?_, ?_, ?_, hfits, hlen, hm⟩
    · rw [← slice_eq_bytes (by omega)]
      exact not_not.mp hmagic
    · exact not_not.mp hversion
    · exact not_not.mp hsize

/-- A file stamped with a symbol's address: three fields are changed, the
header verifies, and the loader's tables translate the symbol to the stamped
address. -/
theorem stamp_agrees {decode : List UInt8 → String} {raw out : List UInt8} {args : Arguments} {symbol : String}
    (hrequests : args.requests = none) (hsymbol : args.requestsSymbol = some symbol) (hne : symbol ≠ "")
    (hwrite : args.checkOnly = false) (hstamp : stamp decode raw args = .ok (0, out)) :
    ∃ elf base a, readElf decode raw = .ok elf ∧ headerBase elf raw = .ok base ∧
      elf.symbolAddr decode symbol = .ok (some a) ∧
      (out.length = raw.length ∧ ∀ i, (i < base + 32 ∨ base + 40 ≤ i) → (i < base + 64 ∨ base + 72 ≤ i) →
        (i < base + 152 ∨ base + 160 ≤ i) → out.getD i 0 = raw.getD i 0) ∧
      (∀ m hdr, hdr ≠ 0 → m.bytes hdr 160 = slice out base (base + 160) →
        (Kernel.verifyHeader hdr).val m = .ok) ∧
      (Clear raw base →
        ∀ (image : Image) (plan : ElfPlan) (enableNx unmapNull : Bool) (s s' : Space) (pml4 : Nat),
          image.bytes = out → planImage image = .ok plan → s.pool.Fresh s.mem →
          buildPageTables s plan enableNx unmapNull = some (pml4, s') →
          (translate s'.mem pml4 a).map (·.physical) = some (unpackFrom out (base + 64) 8)) := by
  obtain ⟨elf, base, entry, requests, a, helf, hbase, hfound, hphys, hstamped⟩ :=
    stamp_ok hrequests hsymbol hne hwrite hstamp
  refine ⟨elf, base, a, helf, hbase, hfound, ⟨hstamped.length, ?_⟩, ?_, fun hclear => ?_⟩
  · exact fun i hentry hrequests hchecksum => hstamped.unchanged hentry hrequests hchecksum
  · intro m hdr hne hm
    have hinside := hstamped.inside
    have hlen := hstamped.length
    rw [slice_eq_bytes (by omega)] at hm
    exact hstamped.verifies hne hm
  · rintro image plan enableNx unmapNull s s' pml4 rfl hplan hf hbuild
    rw [unpackFrom, hstamped.requests_eq]
    exact hstamped.translates hclear helf hphys hplan hf hbuild

/-- A kernel with one segment, its header behind the program header, and the
symbol `r`. -/
def kernelFile (entry requests checksum : Nat) : List UInt8 :=
  ident ++ List.replicate 9 0 ++ le 2 2 ++ le 62 2 ++ le 1 4 ++ le 0xffffffff80200000 8 ++ le 64 8 ++ le 324 8 ++
    le 0 4 ++ le 64 2 ++ le 56 2 ++ le 1 2 ++ le 64 2 ++ le 3 2 ++ le 2 2 ++
    -- the program header, and the header to be stamped
    programHeaderBytes ⟨1, 5, 0, 0xffffffff80200000, 0x200000, 280, 4096, 4096⟩ ++
    headerMagic ++ le 1 2 ++ le 1 2 ++ le 160 4 ++ le 0 8 ++ le entry 8 ++ le 0 24 ++ le requests 8 ++ le 0 80 ++
    le checksum 8 ++
    -- the names, and the symbol
    [0, 0x2e, 0x62, 0x62, 0x70, 0x5f, 0x68, 0x64, 0x72, 0, 0x2e, 0x73, 0x79, 0x6d, 0x74, 0x61, 0x62, 0, 0x72, 0] ++
    le 18 4 ++ le 0 4 ++ le 0xffffffff80200010 8 ++ le 0 8 ++
    -- the sections of the header, of the symbols and of the names
    le 1 4 ++ le 0 20 ++ le 120 8 ++ le 160 8 ++ le 0 24 ++
    le 10 4 ++ le 0 20 ++ le 300 8 ++ le 24 8 ++ le 2 4 ++ le 0 20 ++
    le 0 4 ++ le 0 20 ++ le 280 8 ++ le 20 8 ++ le 0 24

/-- Names in ASCII. -/
def ascii (bs : List UInt8) : String := String.ofList (bs.map fun b => Char.ofNat b.toNat)

/-- The kernel as it is linked. -/
def linkedFile : List UInt8 := kernelFile 0 0 0

/-- The kernel, stamped. -/
def stampedFile : List UInt8 := kernelFile 0xffffffff80200000 0x200010 0x5c1f838a0632ae42

def stampedImage : Image := ⟨stampedFile, by decide +kernel⟩

def stampedPlan : ElfPlan :=
  ⟨0xffffffff80200000, 0x200000, 0x201000, [⟨0, 280, 4096, 0xffffffff80200000, 0x200000, 0x200000, 1, 4096, 5⟩]⟩

theorem stamp_agrees_kernel :
    stamp ascii linkedFile ⟨none, some "r", none, false⟩ = .ok (0, stampedFile) ∧
      unpackFrom stampedFile 184 8 = 0x200010 ∧
      ∃ pml4 s', buildPageTables zeroedSpace stampedPlan true true = some (pml4, s') ∧
        (translate s'.mem pml4 0xffffffff80200010).map (·.physical) = some (unpackFrom stampedFile 184 8) := by
  have hstamp : stamp ascii linkedFile ⟨none, some "r", none, false⟩ = .ok (0, stampedFile) := by
    decide +kernel
  have hplan : planImage stampedImage = .ok stampedPlan := by decide +kernel
  have hbytes : stampedImage.bytes = stampedFile := by rw [stampedImage]
  have hplanned : ∀ x ∈ stampedPlan.segments, x.Planned stampedImage.size := fun x hx => planned_segment hplan hx
  obtain ⟨pml4, s', hbuild⟩ : ∃ pml4 s', buildPageTables zeroedSpace stampedPlan true true = some (pml4, s') := by
    refine buildPageTables_total zeroedSpace_fresh hplanned (List.pairwise_singleton _ _) (fun x hx u hc => ?_)
      ⟨by decide, by decide⟩
    have hcanonical := Covers.canonical (hplanned x hx) hc
    rw [List.mem_singleton.mp hx] at hc
    simp only [SegmentPlan.Covers] at hc
    refine lowMap_none hcanonical (fun hi => ?_) (fun hh => ?_)
    · have hhi : u < 2 ^ 32 := hi.2
      omega
    · unfold InHhdm hhdmOffset identityLimit at hh
      omega
  obtain ⟨elf, base, a, helf, hbase, hsymbol, _, _, htranslates⟩ :=
    stamp_agrees rfl rfl (show "r" ≠ "" by decide) rfl hstamp
  have hfound : (readElf ascii linkedFile).bind (fun elf => (headerBase elf linkedFile).bind fun base =>
      (elf.symbolAddr ascii "r").map fun a => (base, a)) = .ok (120, some 0xffffffff80200010) := by
    decide +kernel
  rw [helf] at hfound
  simp only [Except.bind, hbase, hsymbol, Except.map, Except.ok.injEq, Prod.mk.injEq, Option.some.injEq]
    at hfound
  obtain ⟨rfl, rfl⟩ := hfound
  exact ⟨hstamp, by decide +kernel, pml4, s', hbuild,
    htranslates (by decide +kernel) stampedImage stampedPlan true true zeroedSpace s' pml4 hbytes hplan
      zeroedSpace_fresh hbuild⟩

end BearBoot.Stamp
