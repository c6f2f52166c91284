import BearBoot.Import.Multiboot2

/-!
# What a scan of a Multiboot2 structure has seen

`Records` is what a Multiboot2 information structure is, apart from any
program that reads one: records one behind the other, each padded to eight
bytes, up to an end record that ends with the structure. A scan that
succeeds has found such a row and folded its branches over it
(`scanLoop_records`), and gives up for want of fuel on none
(`scanLoop_fuel`).

Most kinds of record may stand only once. `Slot` is the rule for such a
kind: its branch fills an empty slot, the others leave the slot alone, so
at the end the slot holds whatever record of the kind there is and is
empty if there is none (`Slot.fold`). The scan has five of them, and beside
them a count of modules (`modules_fold`).
-/

set_option autoImplicit false

namespace BearBoot.Import

open Machine Bootloader

variable {m : Mem} {data total offset size : Nat} {st st' : ScanState}

/-! ## Rows of records -/

/-- A record of a Multiboot2 structure. -/
structure MbiRecord where
  offset : Nat
  type : Nat
  size : Nat
  deriving DecidableEq, Repr

/-- The records from `offset` on, up to the end record. -/
def Records (m : Mem) (data total : Nat) : (offset : Nat) → List MbiRecord → Prop
  | offset, [] =>
    get32 m (data + offset) = 0 ∧ get32 m (data + offset + 4) = 8 ∧ offset + 8 = total
  | offset, r :: rs =>
    r.offset = offset ∧ r.type = get32 m (data + offset) ∧ r.type ≠ 0 ∧
      r.size = get32 m (data + offset + 4) ∧ 8 ≤ r.size ∧ offset + roundUp r.size 8 ≤ total ∧
      Records m data total (offset + roundUp r.size 8) rs

instance decidableRecords (m : Mem) (data total : Nat) :
    (offset : Nat) → (rs : List MbiRecord) → Decidable (Records m data total offset rs)
  | _, [] => inferInstanceAs (Decidable (_ ∧ _ ∧ _))
  | offset, r :: rs =>
    have := decidableRecords m data total (offset + roundUp r.size 8) rs
    inferInstanceAs (Decidable (_ ∧ _ ∧ _ ∧ _ ∧ _ ∧ _ ∧ _))

variable {rs : List MbiRecord}

/-- A row has room for its records and for its end. -/
theorem Records.room (h : Records m data total offset rs) : offset + 8 * rs.length + 8 ≤ total := by
  induction rs generalizing offset with
  | nil =>
    have hend : offset + 8 = total := h.2.2
    rw [List.length_nil]
    omega
  | cons r rs ih =>
    obtain ⟨_, _, _, _, hlow, _, hrest⟩ := h
    have hle := le_roundUp r.size (show 0 < 8 by decide)
    have hroom := ih hrest
    rw [List.length_cons]
    omega

/-- Each record of a row stands inside the structure, in front of the end
record, under the header its fields were read from. -/
theorem Records.mem (h : Records m data total offset rs) : ∀ r ∈ rs, r.type = get32 m (data + r.offset) ∧
      r.size = get32 m (data + r.offset + 4) ∧ 8 ≤ r.size ∧ r.offset + r.size + 8 ≤ total := by
  induction rs generalizing offset with
  | nil => exact fun _ hr => by cases hr
  | cons r rs ih =>
    obtain ⟨rfl, htype, _, hsize, hlow, _, hrest⟩ := h
    have hle := le_roundUp r.size (show 0 < 8 by decide)
    have hroom := hrest.room
    exact List.forall_mem_cons.mpr ⟨⟨htype, hsize, hlow, by omega⟩, ih hrest⟩

/-- The bytes say what the records are. -/
theorem Records.unique {rs' : List MbiRecord}
    (h : Records m data total offset rs) (h' : Records m data total offset rs') : rs = rs' := by
  induction rs generalizing offset rs' with
  | nil =>
    cases rs' with
    | nil => rfl
    | cons r' rs' =>
      obtain ⟨_, htype, hne, _⟩ := h'
      exact absurd (htype.trans h.1) hne
  | cons r rs ih =>
    obtain ⟨hoffset, htype, hne, hsize, _, _, hrest⟩ := h
    cases rs' with
    | nil => exact absurd (htype.trans h'.1) hne
    | cons r' rs' =>
      obtain ⟨hoffset', htype', _, hsize', _, _, hrest'⟩ := h'
      have hr : r = r' := by
        cases r
        cases r'
        dsimp only at *
        rw [hoffset, hoffset', htype, htype', hsize, hsize']
      subst hr
      rw [ih hrest hrest']

/-- The branches folded over a row. -/
def scanRecords (m : Mem) : List MbiRecord → ScanState → Except ImportError ScanState
  | [], st => pure st
  | r :: rs, st => scanRecord m st r.offset r.size r.type >>= scanRecords m rs

theorem padded_eq (h : size < 2 ^ 32) : (size + 7) &&& not64 7 = roundUp size 8 :=
  add_and_not64 (k := 3) (by decide) (by omega)

/-- What one record that is not the end record does to the scan. -/
inductive RecordStep (m : Mem) (st : ScanState) (offset size : Nat) : Nat → ScanState → Prop where
  | cmdline (hnew : st.sawCmdline = false)
      (hstring : exactString m (st.scan.data + offset + 8) (size - 8) = .ok ()) :
      RecordStep m st offset size 1
        { st with
          scan := { st.scan with cmdlineOffset := offset + 8, cmdlineBytes := size - 8 }
          sawCmdline := true }
  | module (hsize : 17 ≤ size)
      (horder : get32 m (st.scan.data + offset + 8) < get32 m (st.scan.data + offset + 12))
      (hstring : exactString m (st.scan.data + offset + 16) (size - 16) = .ok ())
      (hcount : st.scan.moduleCount ≠ u32Max) :
      RecordStep m st offset size 3
        { st with scan := { st.scan with moduleCount := st.scan.moduleCount + 1 } }
  | mmap (stride : Nat) (hnew : st.sawMmap = false) (hsize : 16 ≤ size)
      (hstride : stride = get32 m (st.scan.data + offset + 8)) (hlow : 24 ≤ stride)
      (hwhole : (size - 16) % stride = 0) (hcount : (size - 16) / stride ≠ 0)
      (hmax : (size - 16) / stride ≤ u32Max) :
      RecordStep m st offset size 6
        { st with
          scan := { st.scan with
            mmapOffset := offset, mmapCount := (size - 16) / stride, mmapStride := stride }
          sawMmap := true }
  | framebuffer (framebuffer : ImportFramebuffer) (hnew : st.sawFramebuffer = false)
      (hparse : parseFramebuffer m (st.scan.data + offset) size = .ok framebuffer) :
      RecordStep m st offset size 8
        { st with
          scan := { st.scan with framebuffer := framebuffer, framebufferOffset := offset }
          sawFramebuffer := true }
  | acpiOld (acpi : AcpiFields) (hnew : st.sawAcpiOld = false)
      (hparse : parseAcpi m (st.scan.data + offset + 8) (size - 8) false st.scan.acpi = .ok acpi) :
      RecordStep m st offset size 14
        { st with
          scan := { st.scan with acpi := acpi }
          oldAcpi := { acpi with offset := offset + 8 }
          sawAcpiOld := true }
  | acpiNew (acpi : AcpiFields) (hnew : st.sawAcpiNew = false)
      (hparse : parseAcpi m (st.scan.data + offset + 8) (size - 8) true st.scan.acpi = .ok acpi) :
      RecordStep m st offset size 15
        { st with
          scan := { st.scan with acpi := acpi }
          newAcpi := { acpi with offset := offset + 8 }
          sawAcpiNew := true }
  | other {type : Nat}
      (hother : type ≠ 1 ∧ type ≠ 3 ∧ type ≠ 6 ∧ type ≠ 8 ∧ type ≠ 14 ∧ type ≠ 15) :
      RecordStep m st offset size type st

theorem scanRecord_step {type : Nat}
    (h : scanRecord m st offset size type = .ok st') : RecordStep m st offset size type st' := by
  unfold scanRecord at h
  split at h
  next ht =>
    subst ht
    simp only [scanCmdline, ok_bind_iff, refuse_ok_iff, exists_const, pure_ok_iff,
      Bool.not_eq_true] at h
    obtain ⟨hnew, _, hstring, rfl⟩ := h
    exact .cmdline hnew hstring
  split at h
  next ht =>
    subst ht
    simp only [scanModule, ok_bind_iff, refuse_ok_iff, exists_const, pure_ok_iff, not_or,
      Nat.not_lt, Nat.not_le] at h
    obtain ⟨hsize, ⟨horder, _⟩, _, hstring, hcount, rfl⟩ := h
    exact .module hsize horder hstring hcount
  split at h
  next ht =>
    subst ht
    simp only [scanMmap, ok_bind_iff, refuse_ok_iff, exists_const, pure_ok_iff, not_or, not_not,
      Nat.not_lt, Bool.not_eq_true] at h
    obtain ⟨hnew, hsize, ⟨hlow, _, _, hwhole⟩, ⟨hcount, hmax⟩, _, _, rfl⟩ := h
    exact .mmap _ hnew hsize rfl hlow hwhole hcount hmax
  split at h
  next ht =>
    subst ht
    simp only [scanFramebuffer, ok_bind_iff, refuse_ok_iff, exists_const, pure_ok_iff,
      Bool.not_eq_true] at h
    obtain ⟨hnew, framebuffer, hparse, rfl⟩ := h
    exact .framebuffer framebuffer hnew hparse
  split at h
  next ht =>
    subst ht
    simp only [scanAcpiOld, ok_bind_iff, refuse_ok_iff, exists_const, pure_ok_iff,
      Bool.not_eq_true] at h
    obtain ⟨hnew, acpi, hparse, rfl⟩ := h
    exact .acpiOld acpi hnew hparse
  split at h
  next ht =>
    subst ht
    simp only [scanAcpiNew, ok_bind_iff, refuse_ok_iff, exists_const, pure_ok_iff,
      Bool.not_eq_true] at h
    obtain ⟨hnew, acpi, hparse, rfl⟩ := h
    exact .acpiNew acpi hnew hparse
  next h1 h3 h6 h8 h14 h15 =>
    rw [pure_ok_iff] at h
    subst h
    exact .other ⟨h1, h3, h6, h8, h14, h15⟩

/-- No branch moves the structure. -/
theorem RecordStep.place {type : Nat}
    (h : RecordStep m st offset size type st') :
    st'.scan.data = st.scan.data ∧ st'.scan.total = st.scan.total := by
  cases h <;> exact ⟨rfl, rfl⟩

theorem scanRecords_place (h : scanRecords m rs st = .ok st') :
    st'.scan.data = st.scan.data ∧ st'.scan.total = st.scan.total := by
  induction rs generalizing st with
  | nil =>
    rw [scanRecords, pure_ok_iff] at h
    exact h ▸ ⟨rfl, rfl⟩
  | cons r rs ih =>
    obtain ⟨st₁, hstep, hrest⟩ := ok_bind_iff.mp h
    obtain ⟨hdata, htotal⟩ := (scanRecord_step hstep).place
    obtain ⟨hdata', htotal'⟩ := ih hrest
    exact ⟨hdata'.trans hdata, htotal'.trans htotal⟩

/-- The ACPI fields a finished loop answers: the new record's, or else the
old one's. -/
def finalAcpi (st : ScanState) : AcpiFields :=
  if st.sawAcpiNew then st.newAcpi else if st.sawAcpiOld then st.oldAcpi else st.scan.acpi

/-- The scan a finished loop answers. -/
def scanFinish (st : ScanState) : Mb2Scan := { st.scan with acpi := finalAcpi st }

theorem scanEnd_ok {scan : Mb2Scan}
    (h : scanEnd st offset size = .ok scan) :
    size = 8 ∧ offset + 8 = st.scan.total ∧ scan = scanFinish st := by
  unfold scanEnd at h
  obtain ⟨_, hrefuse, hscan⟩ := ok_bind_iff.mp h
  rw [refuse_ok_iff, not_or, not_not, not_not] at hrefuse
  refine ⟨hrefuse.1, hrefuse.2, ?_⟩
  unfold scanFinish finalAcpi
  split at hscan
  next hn =>
    rw [if_pos hn]
    exact (pure_ok_iff.mp hscan).symm
  next hn =>
    rw [if_neg hn]
    split at hscan
    next ho =>
      rw [if_pos ho]
      exact (pure_ok_iff.mp hscan).symm
    next ho =>
      rw [if_neg ho]
      exact (pure_ok_iff.mp hscan).symm

/-- A scan that succeeds has folded its branches over a row of records. -/
theorem scanLoop_records {fuel : Nat} {scan : Mb2Scan}
    (h : scanLoop m fuel offset st = .ok scan) :
    ∃ rs st', Records m st.scan.data st.scan.total offset rs ∧ scanRecords m rs st = .ok st' ∧
      scan = scanFinish st' := by
  induction fuel generalizing offset st with
  | zero => cases h
  | succ fuel ih =>
    rw [scanLoop] at h
    split at h
    next hlt =>
      simp only [ok_bind_iff, refuse_ok_iff, exists_const, not_or, Nat.not_lt] at h
      obtain ⟨_, ⟨hlow, _⟩, h⟩ := h
      split at h
      next htype =>
        obtain ⟨hsize, htotal, hscan⟩ := scanEnd_ok h
        exact ⟨[], st, ⟨htype, hsize, htotal⟩, rfl, hscan⟩
      next htype =>
        simp only [ok_bind_iff, refuse_ok_iff, exists_const, Nat.not_lt] at h
        obtain ⟨hpadded, st₁, hstep, hrest⟩ := h
        rw [padded_eq (get32_lt _ _)] at hpadded hrest
        obtain ⟨hdata, htotal⟩ := (scanRecord_step hstep).place
        obtain ⟨rs, st', hrecords, hfold, hscan⟩ := ih hrest
        rw [hdata, htotal] at hrecords
        refine ⟨⟨offset, get32 m (st.scan.data + offset), get32 m (st.scan.data + offset + 4)⟩ :: rs,
          st', ⟨rfl, rfl, htype, rfl, hlow, by dsimp only; omega, hrecords⟩, ?_, hscan⟩
        rw [scanRecords]
        exact ok_bind_iff.mpr ⟨st₁, hstep, hfold⟩
    next => cases h

/-- A turn moves by eight bytes at least, so a loop with fuel for the bytes
that are left never runs out of it. -/
theorem scanLoop_fuel {fuel : Nat} (h : st.scan.total ≤ offset + 8 * fuel) :
    scanLoop m (fuel + 1) offset st = scanLoop m (fuel + 2) offset st := by
  induction fuel generalizing offset st with
  | zero =>
    rw [scanLoop, scanLoop, if_neg (by omega), if_neg (by omega)]
  | succ fuel ih =>
    conv_lhs => rw [scanLoop]
    conv_rhs => rw [scanLoop]
    split
    next hlt =>
      dsimp only
      by_cases hshort : st.scan.total - offset < 8
      · simp only [refuse, if_pos hshort]
        rfl
      rw [refuse_bind_of_not hshort, refuse_bind_of_not hshort]
      by_cases hsize : get32 m (st.scan.data + offset + 4) < 8 ∨
          st.scan.total - offset < get32 m (st.scan.data + offset + 4)
      · simp only [refuse, if_pos hsize]
        rfl
      rw [refuse_bind_of_not hsize, refuse_bind_of_not hsize]
      have hup := le_roundUp (get32 m (st.scan.data + offset + 4)) (show 0 < 8 by decide)
      rw [padded_eq (get32_lt _ _)]
      split
      next => rfl
      next =>
        congr 1
        funext _
        cases hstep : scanRecord m st offset (get32 m (st.scan.data + offset + 4))
            (get32 m (st.scan.data + offset)) with
        | error e => rfl
        | ok st₁ =>
          have htotal := (scanRecord_step hstep).place.2
          exact ih (by omega)
    next => rfl

/-! ## Kinds that stand once -/

/-- A kind of record with a slot of its own. -/
structure Slot (m : Mem) (β : Type) where
  type : Nat
  full : ScanState → Bool
  slot : ScanState → β
  value : ScanState → MbiRecord → β → Prop
  kept : ∀ {st st' : ScanState} {r : MbiRecord}, RecordStep m st r.offset r.size r.type st' →
    r.type ≠ type → full st' = full st ∧ slot st' = slot st
  filled : ∀ {st st' : ScanState} {r : MbiRecord}, RecordStep m st r.offset r.size r.type st' →
    r.type = type → full st = false ∧ full st' = true ∧ value st r (slot st')
  /-- What a record is worth depends on where the structure is only. -/
  placed : ∀ {st st' : ScanState} {r : MbiRecord} {v : β}, st'.scan.data = st.scan.data →
    (value st r v ↔ value st' r v)

section Slots

variable {m : Mem} {β : Type} (k : Slot m β) {rs : List MbiRecord} {st st' : ScanState}

theorem Slot.kept_fold (h : scanRecords m rs st = .ok st') (hno : ∀ r ∈ rs, r.type ≠ k.type) :
    k.full st' = k.full st ∧ k.slot st' = k.slot st := by
  induction rs generalizing st with
  | nil =>
    rw [scanRecords, pure_ok_iff] at h
    exact h ▸ ⟨rfl, rfl⟩
  | cons r rs ih =>
    obtain ⟨st₁, hstep, hrest⟩ := ok_bind_iff.mp h
    obtain ⟨hr, hrs⟩ := List.forall_mem_cons.mp hno
    obtain ⟨hfull, hslot⟩ := k.kept (scanRecord_step hstep) hr
    obtain ⟨hfull', hslot'⟩ := ih hrest hrs
    exact ⟨hfull'.trans hfull, hslot'.trans hslot⟩

theorem Slot.full_fold (h : scanRecords m rs st = .ok st') (hfull : k.full st = true) :
    ∀ r ∈ rs, r.type ≠ k.type := by
  induction rs generalizing st with
  | nil => exact fun _ hr => by cases hr
  | cons r rs ih =>
    obtain ⟨st₁, hstep, hrest⟩ := ok_bind_iff.mp h
    have hr : r.type ≠ k.type := by
      intro htype
      have hempty := (k.filled (scanRecord_step hstep) htype).1
      rw [hfull] at hempty
      cases hempty
    refine List.forall_mem_cons.mpr ⟨hr, ih hrest ?_⟩
    rw [(k.kept (scanRecord_step hstep) hr).1, hfull]

/-- The slot holds the record of its kind. -/
theorem Slot.fold (h : scanRecords m rs st = .ok st') :
    ∀ r ∈ rs, r.type = k.type → k.full st' = true ∧ k.value st r (k.slot st') := by
  induction rs generalizing st with
  | nil => exact fun _ hr => by cases hr
  | cons r rs ih =>
    obtain ⟨st₁, hstep, hrest⟩ := ok_bind_iff.mp h
    refine List.forall_mem_cons.mpr ⟨fun htype => ?_, fun r' hr' htype => ?_⟩
    · obtain ⟨_, hfull, hvalue⟩ := k.filled (scanRecord_step hstep) htype
      obtain ⟨hfull', hslot⟩ := k.kept_fold hrest (k.full_fold hrest hfull)
      exact ⟨hfull'.trans hfull, hslot ▸ hvalue⟩
    · obtain ⟨hfull, hvalue⟩ := ih hrest r' hr' htype
      exact ⟨hfull, (k.placed (scanRecord_step hstep).place.1).mpr hvalue⟩

/-- A slot that has changed holds a record. -/
theorem Slot.found (h : scanRecords m rs st = .ok st') (hne : k.slot st' ≠ k.slot st) :
    ∃ r ∈ rs, r.type = k.type ∧ k.value st r (k.slot st') := by
  by_contra hno
  refine hne (k.kept_fold h fun r hr htype => hno ⟨r, hr, htype, ?_⟩).2
  exact (k.fold h r hr htype).2

end Slots

/-- The command line's slot: its offset, its length, and that it is a
string. -/
def cmdlineSlot (m : Mem) : Slot m (Nat × Nat) where
  type := 1
  full st := st.sawCmdline
  slot st := (st.scan.cmdlineOffset, st.scan.cmdlineBytes)
  value st r v := v = (r.offset + 8, r.size - 8) ∧
    exactString m (st.scan.data + r.offset + 8) (r.size - 8) = .ok ()
  kept h hne := by
    generalize hr : MbiRecord.type _ = type at h hne
    cases h <;> first | exact absurd rfl hne | exact ⟨rfl, rfl⟩
  filled h heq := by
    generalize hr : MbiRecord.type _ = type at h heq
    subst heq
    cases h with
    | cmdline hnew hstring => exact ⟨hnew, rfl, rfl, hstring⟩
    | other hother => exact absurd rfl hother.1
  placed hdata := by rw [hdata]

/-- A memory map record the scan lets through: entries of one stride, with
nothing left over. -/
structure MmapOk (m : Mem) (data : Nat) (r : MbiRecord) : Prop where
  size : 16 ≤ r.size
  stride : 24 ≤ get32 m (data + r.offset + 8)
  whole : (r.size - 16) % get32 m (data + r.offset + 8) = 0
  count : (r.size - 16) / get32 m (data + r.offset + 8) ≤ u32Max

/-- The memory map's slot. -/
def mmapSlot (m : Mem) : Slot m (Nat × Nat × Nat) where
  type := 6
  full st := st.sawMmap
  slot st := (st.scan.mmapOffset, st.scan.mmapCount, st.scan.mmapStride)
  value st r v := MmapOk m st.scan.data r ∧ v = (r.offset,
    (r.size - 16) / get32 m (st.scan.data + r.offset + 8), get32 m (st.scan.data + r.offset + 8))
  kept h hne := by
    generalize hr : MbiRecord.type _ = type at h hne
    cases h <;> first | exact absurd rfl hne | exact ⟨rfl, rfl⟩
  filled h heq := by
    generalize hr : MbiRecord.type _ = type at h heq
    subst heq
    cases h with
    | mmap stride hnew hsize hstride hlow hwhole hcount hmax =>
      subst hstride
      exact ⟨hnew, rfl, ⟨hsize, hlow, hwhole, hmax⟩, rfl⟩
    | other hother => exact absurd rfl hother.2.2.1
  placed hdata := by rw [hdata]

/-- The fields of an ACPI record, all from its own bytes. -/
structure AcpiRecord (m : Mem) (data : Nat) (isNew : Bool) (r : MbiRecord) (acpi : AcpiFields) :
    Prop where
  offset : acpi.offset = r.offset + 8
  bytes : acpi.bytes = r.size - 8
  xsdt : acpi.xsdt = if isNew then get64 m (data + r.offset + 8 + 24) else 0
  oemId : acpi.oemId = get32 m (data + r.offset + 8 + 9)
  version : acpi.version = (m (data + r.offset + 8 + 15)).toNat * 256

theorem parseAcpi_ok {isNew : Bool} {r : MbiRecord} {old acpi : AcpiFields}
    (h : parseAcpi m (data + r.offset + 8) (r.size - 8) isNew old = .ok acpi) :
    AcpiRecord m data isNew r { acpi with offset := r.offset + 8 } := by
  unfold parseAcpi at h
  obtain ⟨_, _, h⟩ := ok_bind_iff.mp h
  cases isNew with
  | true =>
    simp only [if_true, ok_bind_iff, refuse_ok_iff, exists_const, pure_ok_iff, not_or, not_not] at h
    obtain ⟨_, ⟨_, hlength, _⟩, _, rfl⟩ := h
    exact ⟨rfl, hlength, rfl, rfl, rfl⟩
  | false =>
    simp only [Bool.false_eq_true, if_false, ok_bind_iff, refuse_ok_iff, exists_const, pure_ok_iff,
      not_or, not_not] at h
    obtain ⟨⟨hlength, _⟩, rfl⟩ := h
    exact ⟨rfl, hlength.symm, rfl, rfl, rfl⟩

def acpiOldSlot (m : Mem) : Slot m AcpiFields where
  type := 14
  full st := st.sawAcpiOld
  slot st := st.oldAcpi
  value st r v := AcpiRecord m st.scan.data false r v
  kept h hne := by
    generalize hr : MbiRecord.type _ = type at h hne
    cases h <;> first | exact absurd rfl hne | exact ⟨rfl, rfl⟩
  filled h heq := by
    generalize hr : MbiRecord.type _ = type at h heq
    subst heq
    cases h with
    | acpiOld acpi hnew hparse => exact ⟨hnew, rfl, parseAcpi_ok hparse⟩
    | other hother => exact absurd rfl hother.2.2.2.2.1
  placed hdata := by rw [hdata]

def acpiNewSlot (m : Mem) : Slot m AcpiFields where
  type := 15
  full st := st.sawAcpiNew
  slot st := st.newAcpi
  value st r v := AcpiRecord m st.scan.data true r v
  kept h hne := by
    generalize hr : MbiRecord.type _ = type at h hne
    cases h <;> first | exact absurd rfl hne | exact ⟨rfl, rfl⟩
  filled h heq := by
    generalize hr : MbiRecord.type _ = type at h heq
    subst heq
    cases h with
    | acpiNew acpi hnew hparse => exact ⟨hnew, rfl, parseAcpi_ok hparse⟩
    | other hother => exact absurd rfl hother.2.2.2.2.2
  placed hdata := by rw [hdata]

/-- Without an ACPI record the scan's own fields stay as they were. -/
theorem acpi_kept (h : scanRecords m rs st = .ok st') (hno : ∀ r ∈ rs, r.type ≠ 14 ∧ r.type ≠ 15) :
    st'.scan.acpi = st.scan.acpi := by
  induction rs generalizing st with
  | nil =>
    rw [scanRecords, pure_ok_iff] at h
    rw [h]
  | cons r rs ih =>
    obtain ⟨st₁, hstep, hrest⟩ := ok_bind_iff.mp h
    obtain ⟨hr, hrs⟩ := List.forall_mem_cons.mp hno
    have hstep' := scanRecord_step hstep
    have hsame : st₁.scan.acpi = st.scan.acpi := by
      generalize r.type = type at hstep' hr
      cases hstep' <;> first | exact absurd rfl hr.1 | exact absurd rfl hr.2 | rfl
    rw [ih hrest hrs, hsame]

/-! ## Modules -/

/-- A module record the scan lets through. -/
structure ModuleOk (m : Mem) (data : Nat) (r : MbiRecord) : Prop where
  size : 17 ≤ r.size
  order : get32 m (data + r.offset + 8) < get32 m (data + r.offset + 12)
  name : exactString m (data + r.offset + 16) (r.size - 16) = .ok ()

/-- The module records of a row, in its order. -/
def modulesOf (rs : List MbiRecord) : List MbiRecord := rs.filter fun r => decide (r.type = 3)

/-- Every module is counted, and every one is good. -/
theorem modules_fold (h : scanRecords m rs st = .ok st') :
    st'.scan.moduleCount = st.scan.moduleCount + (modulesOf rs).length ∧
      ∀ r ∈ modulesOf rs, ModuleOk m st.scan.data r := by
  induction rs generalizing st with
  | nil =>
    rw [scanRecords, pure_ok_iff] at h
    exact h ▸ ⟨rfl, fun _ hr => by cases hr⟩
  | cons r rs ih =>
    obtain ⟨st₁, hstep, hrest⟩ := ok_bind_iff.mp h
    obtain ⟨hcount, hoks⟩ := ih hrest
    have hstep' := scanRecord_step hstep
    rw [hstep'.place.1] at hoks
    by_cases htype : r.type = 3
    · have hmods : modulesOf (r :: rs) = r :: modulesOf rs :=
        List.filter_cons_of_pos (decide_eq_true htype)
      rw [htype] at hstep'
      rw [hmods, hcount, List.length_cons]
      cases hstep' with
      | module hsize horder hstring _ =>
        exact ⟨by dsimp only; omega, List.forall_mem_cons.mpr ⟨⟨hsize, horder, hstring⟩, hoks⟩⟩
      | other hother => exact absurd rfl hother.2.1
    · have hmods : modulesOf (r :: rs) = modulesOf rs :=
        List.filter_cons_of_neg (by simpa using htype)
      have hsame : st₁.scan.moduleCount = st.scan.moduleCount := by
        generalize r.type = type at hstep' htype
        cases hstep' <;> first | exact absurd rfl htype | rfl
      rw [hmods, hcount, hsame]
      exact ⟨rfl, hoks⟩

end BearBoot.Import
