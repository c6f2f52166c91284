import Mathlib.Data.List.Sort
import BearBoot.Machine.Bits
import BearBoot.Machine.Settle
import BearBoot.V2.Capsule

/-!
# The Python capsule validator, as `tools/bbp_v2_envelope.py` computes it

`_validate_v2_capsule` collects the spans as it goes: header, directory
and every payload so far, in one list. A payload is tested against that
list, and the padding is looked at by walking the list sorted. Python's
integers do not wrap and its slices clamp, so the only operation that
could fail by itself is `struct.unpack_from` on a buffer that is too
short; it raises `struct.error`, which no caller expects.

`validateV2Capsule_settles` says that the validator passes exactly on
capsules and otherwise raises its own `EnvelopeError`.
-/

namespace BearBoot.V2.Python

open Machine

/-- What a call raises. -/
inductive Raised where
  | envelopeError (message : String)
  | structError
  deriving DecidableEq, Repr

abbrev Py (α : Type) : Type := Except Raised α

/-- `capsule[lo:hi]`. -/
def pySlice (capsule : List UInt8) (lo hi : Nat) : List UInt8 := (capsule.drop lo).take (hi - lo)

/-- The fields of `V2_HEADER`. -/
structure Header where
  magic : List UInt8
  major : Nat
  minor : Nat
  headerSize : Nat
  entrySize : Nat
  flags : Nat
  count : Nat
  totalSize : Nat
  directoryOffset : Nat
  checksum : Nat
  reserved0 : Nat
  reserved1 : Nat
  deriving DecidableEq, Repr

/-- `V2_HEADER.unpack_from(capsule)`. -/
def unpackHeader (capsule : List UInt8) : Py Header :=
  if capsule.length < 64 then .error .structError
  else
    let c := Mem.ofList capsule
    pure ⟨c.bytes 0 8, get16 c 8, get16 c 10, get16 c 12, get16 c 14, get32 c 16, get32 c 20,
      get64 c 24, get64 c 32, get64 c 40, get64 c 48, get64 c 56⟩

/-- `V2_DIRENT.unpack_from(capsule, offset)`. -/
def unpackDirent (capsule : List UInt8) (offset : Nat) : Py Dirent :=
  if capsule.length < offset + 48 then .error .structError
  else pure (direntAt (Mem.ofList capsule) offset)

/-- What the entry loop carries along. -/
structure Progress where
  spans : List Span
  payloadWork : Nat
  payloadChecksums : List (Nat × Nat × Nat)

/-- One turn of the entry loop. -/
def checkEntry (capsule : List UInt8) (totalSize directoryOffset index : Nat) (st : Progress) :
    Py Progress := do
  let d ← unpackDirent capsule (directoryOffset + index * 48)
  refuse (d.reserved0 ≠ 0 ∨ d.reserved1 ≠ 0 ∨ d.size = 0)
    (.envelopeError "invalid BBP v2 capsule entry")
  refuse (d.alignment = 0 ∨ 4096 < d.alignment ∨ d.alignment &&& (d.alignment - 1) ≠ 0 ∨
    d.offset &&& (d.alignment - 1) ≠ 0) (.envelopeError "invalid BBP v2 capsule alignment")
  refuse (totalSize < d.offset ∨ totalSize - d.offset < d.size)
    (.envelopeError "invalid BBP v2 capsule extent")
  refuse (96 * 1024 * 1024 < st.payloadWork + d.size)
    (.envelopeError "BBP v2 capsule work limit exceeded")
  refuse (∃ prior ∈ st.spans, d.offset < prior.start + prior.size ∧
    prior.start < d.offset + d.size) (.envelopeError "overlapping BBP v2 capsule spans")
  pure ⟨st.spans ++ [⟨d.offset, d.size⟩], st.payloadWork + d.size,
    st.payloadChecksums ++ [(d.offset, d.size, d.checksum)]⟩

/-- The order of Python's tuples. -/
def tupleLe (a b : Span) : Bool :=
  decide (a.start < b.start) || (a.start == b.start && decide (a.size ≤ b.size))

/-- The padding loop over the sorted spans. -/
def walkPadding (capsule : List UInt8) : (cursor : Nat) → List Span → Py Nat
  | cursor, [] => pure cursor
  | cursor, s :: rest => do
    refuse (cursor < s.start ∧ ∃ b ∈ pySlice capsule cursor s.start, b ≠ 0)
      (.envelopeError "nonzero BBP v2 capsule padding")
    walkPadding capsule (s.start + s.size) rest

/-- The payload checksum loop. -/
def checkPayloads (capsule : List UInt8) : List (Nat × Nat × Nat) → Py Unit
  | [] => pure ()
  | (offset, size, expected) :: rest => do
    refuse (pyCrc64 (pySlice capsule offset (offset + size)) ≠ expected)
      (.envelopeError "invalid BBP v2 payload checksum")
    checkPayloads capsule rest

/-- `_validate_v2_capsule` from its entry loop on. -/
def checkBody (capsule : List UInt8) (h : Header) : Py Unit := do
  let spans : List Span :=
    ⟨0, 64⟩ :: (if h.count ≠ 0 then [⟨h.directoryOffset, h.count * 48⟩] else [])
  let st ← forUpTo (checkEntry capsule h.totalSize h.directoryOffset) h.count
    ⟨spans, h.totalSize, []⟩
  let cursor ← walkPadding capsule 0 (st.spans.mergeSort tupleLe)
  refuse (cursor < h.totalSize ∧ ∃ b ∈ capsule.drop cursor, b ≠ 0)
    (.envelopeError "nonzero BBP v2 capsule padding")
  refuse (pyCrc64 (capsule.take 40 ++ List.replicate 8 0 ++ capsule.drop 48) ≠ h.checksum)
    (.envelopeError "invalid BBP v2 capsule checksum")
  checkPayloads capsule st.payloadChecksums

/-- `_validate_v2_capsule`. -/
def validateV2Capsule (capsule : List UInt8) : Py Unit := do
  refuse (capsule.length < 64 ∨ 64 * 1024 * 1024 < capsule.length)
    (.envelopeError "invalid BBP v2 capsule extent")
  let h ← unpackHeader capsule
  refuse (h.magic ≠ V2.magic ∨ h.major ≠ 2 ∨ h.minor ≠ 0)
    (.envelopeError "invalid BBP v2 capsule framing")
  refuse (h.headerSize ≠ 64 ∨ h.entrySize ≠ 48 ∨ h.flags ≠ 0 ∨ h.reserved0 ≠ 0 ∨
    h.reserved1 ≠ 0 ∨ 1024 < h.count) (.envelopeError "invalid BBP v2 capsule framing")
  refuse (h.totalSize ≠ capsule.length) (.envelopeError "invalid BBP v2 capsule extent")
  refuse (h.directoryOffset &&& 7 ≠ 0) (.envelopeError "invalid BBP v2 capsule alignment")
  refuse (h.count = 0 ∧ (h.directoryOffset ≠ 64 ∨ h.totalSize ≠ 64))
    (.envelopeError "invalid BBP v2 capsule framing")
  refuse (h.directoryOffset < 64 ∨ h.totalSize < h.directoryOffset ∨
    h.totalSize - h.directoryOffset < h.count * 48)
    (.envelopeError "invalid BBP v2 capsule directory")
  checkBody capsule h

/-! ## What the validator settles -/

/-- The validator's own error is no `struct.error`. -/
theorem envelopeError_ne (message : String) : ¬ Raised.envelopeError message = .structError :=
  fun h => by cases h

/-- The alignment test of the source is the grammar's. -/
theorem pyAlignment_iff {alignment offset : Nat} :
    ¬ (alignment = 0 ∨ 4096 < alignment ∨ alignment &&& (alignment - 1) ≠ 0 ∨
        offset &&& (alignment - 1) ≠ 0) ↔
      (∃ k, alignment = 2 ^ k) ∧ alignment ≤ 4096 ∧ alignment ∣ offset := by
  simp only [not_or, not_lt, ne_eq, not_not]
  constructor
  · rintro ⟨hne, hsmall, hpow, hmask⟩
    obtain ⟨k, rfl⟩ := (and_pred_eq_zero_iff hne).mp hpow
    exact ⟨⟨k, rfl⟩, hsmall, and_pred_two_pow_eq_zero.mp hmask⟩
  · rintro ⟨⟨k, rfl⟩, hsmall, hdvd⟩
    have hne : 2 ^ k ≠ 0 := (Nat.two_pow_pos k).ne'
    exact ⟨hne, hsmall, (and_pred_eq_zero_iff hne).mpr ⟨k, rfl⟩, and_pred_two_pow_eq_zero.mpr hdvd⟩

section Settled

variable {capsule : List UInt8}

/-- What the loop carries after `i` entries of `c`, a capsule of `n` bytes. -/
def progressAt (c : Mem) (n i : Nat) : Progress where
  spans := headerSpan :: (if entryCount c ≠ 0 then [directorySpan c] else []) ++
    (List.range i).map fun j => (dirent c j).span
  payloadWork := n + payloadBytes c i
  payloadChecksums := (List.range i).map fun j =>
    ((dirent c j).offset, (dirent c j).size, (dirent c j).checksum)

theorem checkEntry_settles (h : HeaderOk (Mem.ofList capsule) capsule.length) {i : Nat}
    (hi : i < entryCount (Mem.ofList capsule)) :
    Settles (· = .structError) (checkEntry capsule capsule.length
        (directoryOffset (Mem.ofList capsule)) i (progressAt (Mem.ofList capsule) capsule.length i))
      (EntryGood (Mem.ofList capsule) capsule.length i)
      fun st => st = progressAt (Mem.ofList capsule) capsule.length (i + 1) := by
  have hend := h.dirEnd
  have hsum := payloadBytes_succ (c := Mem.ofList capsule) i
  have hunpack : unpackDirent capsule (directoryOffset (Mem.ofList capsule) + i * 48) =
      .ok (dirent (Mem.ofList capsule) i) := if_neg (by omega)
  have hspans : ∀ d : Dirent, (¬ ∃ prior ∈ (progressAt (Mem.ofList capsule) capsule.length i).spans,
      d.offset < prior.start + prior.size ∧ prior.start < d.offset + d.size) ↔
      d.span.Disjoint headerSpan ∧ d.span.Disjoint (directorySpan (Mem.ofList capsule)) ∧
        ∀ j < i, d.span.Disjoint (dirent (Mem.ofList capsule) j).span := by
    intro d
    have hnone : (¬ ∃ prior ∈ (progressAt (Mem.ofList capsule) capsule.length i).spans,
        d.offset < prior.start + prior.size ∧ prior.start < d.offset + d.size) ↔
        ∀ prior ∈ (progressAt (Mem.ofList capsule) capsule.length i).spans,
          d.span.Disjoint prior := by
      simp only [not_exists, not_and]
      refine forall_congr' fun prior => imp_congr_right fun _ => ?_
      rw [← not_and]
      exact not_overlap_iff
    rw [hnone]
    have hcount : entryCount (Mem.ofList capsule) ≠ 0 := by omega
    simp [progressAt, hcount]
  refine .ok_bind hunpack ?_
  refine .test (envelopeError_ne _) (by simp only [not_or, ne_eq, not_not])
    (fun hg => And.intro hg.ok.reserved0 (And.intro hg.ok.reserved1 hg.ok.nonempty)) fun hform => ?_
  refine .test (envelopeError_ne _) pyAlignment_iff (fun hg => ⟨hg.ok.power, hg.ok.small, hg.ok.aligned⟩)
    fun halign => ?_
  refine .test (envelopeError_ne _) (by omega) (·.ok.inside) fun hin => ?_
  refine .test (envelopeError_ne _) ?_ (·.work) fun hmax => ?_
  · unfold maxCrcWork
    change ¬ _ < capsule.length + payloadBytes (Mem.ofList capsule) i + _ ↔ _
    omega
  refine .test (envelopeError_ne _) (hspans _) (fun hg => ⟨hg.header, hg.directory, hg.priors⟩)
    fun ⟨hheader, hdirectory, hprior⟩ => ?_
  refine .answer ⟨⟨hform.1, hform.2.1, halign.1, halign.2.1, halign.2.2, hform.2.2, hin⟩, hheader,
    hdirectory, hprior, hmax⟩ ?_
  unfold progressAt
  dsimp only
  rw [List.range_succ, List.map_append, List.map_append, ← List.append_assoc, hsum, Nat.add_assoc]
  rfl

/-- A slice that is all zero. -/
theorem pySlice_zero_iff {lo hi : Nat} (hin : hi ≤ capsule.length) :
    ¬ (lo < hi ∧ ∃ b ∈ pySlice capsule lo hi, b ≠ 0) ↔
      ∀ x, lo ≤ x → x < hi → Mem.ofList capsule x = 0 :=
  Mem.zero_part_iff hin

theorem dropZero_iff (lo : Nat) :
    ¬ (lo < capsule.length ∧ ∃ b ∈ capsule.drop lo, b ≠ 0) ↔
      ∀ x, lo ≤ x → x < capsule.length → Mem.ofList capsule x = 0 := by
  have hwhole : pySlice capsule lo capsule.length = capsule.drop lo :=
    List.take_of_length_le (by rw [List.length_drop])
  rw [← hwhole]
  exact pySlice_zero_iff (Nat.le_refl _)

/-- The padding loop and the tail test walk the spans. -/
theorem walkPadding_settles {rest : List Span} {cursor : Nat}
    (hin : ∀ s ∈ rest, s.stop ≤ capsule.length) {α : Type} {f : Nat → Py α} {P : Prop}
    {Q : α → Prop}
    (hf : ∀ last, Settles (· = .structError) (f last)
      ((∀ x, last ≤ x → x < capsule.length → Mem.ofList capsule x = 0) ∧ P) Q) :
    Settles (· = .structError) (walkPadding capsule cursor rest >>= f)
      (WalkOk (fun x => Mem.ofList capsule x = 0) capsule.length cursor rest ∧ P) Q := by
  induction rest generalizing cursor with
  | nil => exact hf cursor
  | cons s rest ih =>
    have hs := hin s List.mem_cons_self
    unfold Span.stop at hs
    rw [walkPadding, bind_assoc]
    refine .congr and_assoc.symm (.refuse_bind (envelopeError_ne _)
      (pySlice_zero_iff (by omega)) fun _ => ih fun t ht => hin t (List.mem_cons_of_mem _ ht))

theorem checkPayloads_settles {list : List (Nat × Nat × Nat)}
    (hin : ∀ p ∈ list, p.1 + p.2.1 ≤ capsule.length) :
    Settles (· = .structError) (checkPayloads capsule list)
      (∀ p ∈ list, crc64 ((Mem.ofList capsule).bytes p.1 p.2.1) = p.2.2) fun _ => True := by
  induction list with
  | nil => exact ⟨List.forall_mem_nil _, trivial⟩
  | cons p list ih =>
    obtain ⟨offset, size, expected⟩ := p
    have hp := hin _ List.mem_cons_self
    have hslice : pySlice capsule offset (offset + size) =
        (Mem.ofList capsule).bytes offset size := by
      rw [pySlice, Nat.add_sub_cancel_left, Mem.bytes_ofList_drop hp]
    refine .congr List.forall_mem_cons.symm (.refuse_bind (envelopeError_ne _) ?_
      fun _ => ih fun q hq => hin q (List.mem_cons_of_mem _ hq))
    rw [not_not, pyCrc64_eq, hslice]

/-- Sorted by Python's order, disjoint spans are in order. -/
theorem mergeSort_ordered {spans : List Span} (hsize : ∀ s ∈ spans, s.size ≠ 0)
    (hpair : spans.Pairwise Span.Disjoint) :
    (spans.mergeSort tupleLe).Pairwise fun s t => s.stop ≤ t.start := by
  have hperm := List.mergeSort_perm spans tupleLe
  refine ordered_of_sorted (fun s hs => hsize s (hperm.mem_iff.mp hs)) ?_ ?_
  · exact (hperm.pairwise_iff fun {_ _} hd => hd.symm).mpr hpair
  · refine (List.pairwise_mergeSort ?_ ?_ spans).imp ?_
    · intro a b c hab hbc
      simp only [tupleLe, Bool.or_eq_true, Bool.and_eq_true, decide_eq_true_eq, beq_iff_eq] at *
      omega
    · intro a b
      simp only [tupleLe, Bool.or_eq_true, Bool.and_eq_true, decide_eq_true_eq, beq_iff_eq]
      omega
    · intro a b hab
      simp only [tupleLe, Bool.or_eq_true, Bool.and_eq_true, decide_eq_true_eq, beq_iff_eq] at hab
      omega

/-- The header the validator unpacks. -/
def headerOf (c : Mem) : Header :=
  ⟨c.bytes 0 8, get16 c 8, get16 c 10, get16 c 12, get16 c 14, get32 c 16, entryCount c,
    totalSize c, directoryOffset c, get64 c 40, get64 c 48, get64 c 56⟩

theorem checkBody_settles (h : HeaderOk (Mem.ofList capsule) capsule.length) :
    Settles (· = .structError) (checkBody capsule (headerOf (Mem.ofList capsule)))
      (BodyOk (Mem.ofList capsule) capsule.length) fun _ => True := by
  have hlow := h.low
  have hentries : Settles (· = .structError)
      (forUpTo (checkEntry capsule capsule.length (directoryOffset (Mem.ofList capsule)))
        (entryCount (Mem.ofList capsule)) (progressAt (Mem.ofList capsule) capsule.length 0))
      (∀ i < entryCount (Mem.ofList capsule), EntryGood (Mem.ofList capsule) capsule.length i)
      fun st => st = progressAt (Mem.ofList capsule) capsule.length
        (entryCount (Mem.ofList capsule)) := by
    refine .forUpTo _ (fun i st => st = progressAt (Mem.ofList capsule) capsule.length i)
      rfl ?_
    rintro i hi _ _ rfl
    exact checkEntry_settles h hi
  have hunsigned : pyCrc64 (capsule.take 40 ++ List.replicate 8 0 ++ capsule.drop 48) =
      crcSpliced (Mem.ofList capsule) 0 capsule.length 40 := by
    have hfront : (Mem.ofList capsule).bytes 0 40 = capsule.take 40 := by
      rw [Mem.bytes_ofList_drop (by omega), List.drop_zero]
    have hback : (Mem.ofList capsule).bytes (0 + 40 + 8) (capsule.length - 40 - 8) =
        capsule.drop 48 := by
      rw [Mem.bytes_ofList_drop (by omega), List.take_of_length_le (by rw [List.length_drop]; omega)]
    rw [pyCrc64_eq, crcSpliced_eq_crc64, hfront, hback]
  unfold checkBody
  dsimp only
  have hstart : (⟨⟨0, 64⟩ :: (if (headerOf (Mem.ofList capsule)).count ≠ 0 then
      [⟨(headerOf (Mem.ofList capsule)).directoryOffset,
        (headerOf (Mem.ofList capsule)).count * 48⟩] else []),
      (headerOf (Mem.ofList capsule)).totalSize, []⟩ : Progress) =
      progressAt (Mem.ofList capsule) capsule.length 0 := by
    unfold progressAt headerOf
    dsimp only
    rw [h.total, List.range_zero, List.map_nil, List.append_nil]
    rfl
  rw [hstart, show (headerOf (Mem.ofList capsule)).totalSize = capsule.length from h.total]
  refine .step hentries (·.entries) fun hgood st hst => ?_
  obtain ⟨hsize, hin, hpair⟩ := h.active_ok hgood
  have hperm := List.mergeSort_perm (active (Mem.ofList capsule)) tupleLe
  have hwalk := walk_iff (P := fun x => Mem.ofList capsule x = 0) hperm hsize hin
    (mergeSort_ordered hsize hpair)
  rw [hst]
  refine .congr ?body (walkPadding_settles (fun s hs => hin s (hperm.mem_iff.mp hs)) fun last =>
    .refuse_bind (envelopeError_ne _) (dropZero_iff last) fun _ =>
      .refuse_bind (envelopeError_ne _) (not_not.trans (Eq.congr_left hunsigned)) fun _ =>
        checkPayloads_settles ?inside)
  case inside =>
    simp only [progressAt, List.forall_mem_map, List.mem_range]
    exact fun i hi => (hgood i hi).ok.inside
  case body =>
    simp only [progressAt, List.forall_mem_map, List.mem_range]
    exact ⟨fun hb => ⟨hgood, hwalk.mp hb.1, hb.2.1, hb.2.2⟩,
      fun hb => ⟨hwalk.mpr hb.padding, hb.crc, hb.payloadCrc⟩⟩

end Settled

/-- The Python validator passes exactly on capsules, and raises nothing but
its own error. -/
theorem validateV2Capsule_settles (capsule : List UInt8) :
    Settles (· = .structError) (validateV2Capsule capsule)
      (WellFormed (Mem.ofList capsule) capsule.length) fun _ => True := by
  refine .congr wellFormed_iff.symm ?_
  unfold validateV2Capsule
  refine .test (envelopeError_ne _) (by rw [not_or, not_lt, not_lt]; rfl)
    (fun h => And.intro h.1.low h.1.high) fun hlen => ?_
  have hunpack : unpackHeader capsule = .ok (headerOf (Mem.ofList capsule)) :=
    if_neg (not_lt.mpr hlen.1)
  refine .ok_bind hunpack ?_
  refine .test (envelopeError_ne _) (by simp only [not_or, ne_eq, not_not]; rfl)
    (fun h => And.intro h.1.magic (And.intro h.1.major h.1.minor)) fun hframing => ?_
  refine .test (envelopeError_ne _) (by simp only [not_or, ne_eq, not_not, not_lt]; rfl)
    (fun ⟨h, _⟩ => And.intro h.headerSize (And.intro h.direntSize (And.intro h.flags
      (And.intro h.reserved0 (And.intro h.reserved1 h.count))))) fun hformat => ?_
  refine .test (envelopeError_ne _) not_not (·.1.total) fun htotal => ?_
  have hsame : (headerOf (Mem.ofList capsule)).totalSize = capsule.length := htotal
  refine .test (envelopeError_ne _) (not_not.trans (and_pred_two_pow_eq_zero (k := 3))) (·.1.dirAligned)
    fun haligned => ?_
  refine .test (envelopeError_ne _) ?_ (·.1.empty) fun hempty => ?_
  · rw [hsame, not_and, not_or, not_not, not_not]
    rfl
  refine .test (envelopeError_ne _) ?_ (fun h => And.intro h.1.dirStart h.1.dirEnd) fun hdir => ?_
  · rw [hsame]
    change ¬ (directoryOffset (Mem.ofList capsule) < 64 ∨
      capsule.length < directoryOffset (Mem.ofList capsule) ∨ capsule.length -
      directoryOffset (Mem.ofList capsule) < entryCount (Mem.ofList capsule) * 48) ↔ _
    omega
  have hheader : HeaderOk (Mem.ofList capsule) capsule.length :=
    ⟨hlen.1, hlen.2, hframing.1, hframing.2.1, hframing.2.2, hformat.1, hformat.2.1, hformat.2.2.1,
      hformat.2.2.2.1, hformat.2.2.2.2.1, htotal, hformat.2.2.2.2.2, hempty, haligned, hdir.1, hdir.2⟩
  exact .congr (iff_and_self.mpr fun _ => hheader) (checkBody_settles hheader)

end BearBoot.V2.Python
