import BearBoot.Machine.Pack
import BearBoot.V2.Accept
import BearBoot.V2.Rust
import BearBoot.V2.Python

/-!
# Three parsers, one grammar

The C parser, the Rust parser and the Python validator were written
separately, in different orders and over different integers. Each of them
decides `WellFormed`; what is left is that the three look at the same
bytes. C sees them at an address, Rust and Python as a byte string, and
`WellFormed.congr` says that a capsule is its bytes wherever they are.

`parsers_agree` also compares what the C and the Rust view expose, field by
field and payload by payload, on every index: both refuse the same
indices, and no accessor of the Rust entry panics.
-/

namespace BearBoot.V2

open Machine

/-- The C entry view and the Rust entry expose the same entry. -/
structure SameEntry (m : Mem) (ev : EntryView) (e : Rust.V2EntryRef) : Prop where
  type : e.entryType = .ok ev.type
  flags : e.flags = .ok ev.flags
  version : e.version = .ok ev.version
  offset : e.offset = .ok ev.offset
  alignment : e.alignment = .ok ev.alignment
  data : e.data = .ok (m.bytes ev.data ev.size)

section Same

variable {m : Mem} {capsule : Nat} {bytes : List UInt8}

/-- The bytes at the pointer are the byte string. -/
theorem ofList_eq_based (hm : m.bytes capsule bytes.length = bytes) :
    ∀ i < bytes.length, Mem.ofList bytes i = m.based capsule i := by
  intro i hi
  have hread : Mem.ofList (m.bytes capsule bytes.length) i = m (capsule + i) := Mem.ofList_bytes hi
  rwa [hm] at hread

theorem wellFormed_ofList (hm : m.bytes capsule bytes.length = bytes) :
    WellFormed (m.based capsule) bytes.length ↔ WellFormed (Mem.ofList bytes) bytes.length :=
  ⟨fun h => (h.congr (ofList_eq_based hm)).1,
    fun h => (h.congr fun i hi => (ofList_eq_based hm i hi).symm).1⟩

theorem sameEntry (hm : m.bytes capsule bytes.length = bytes)
    (h : WellFormed (m.based capsule) bytes.length) {i : Nat} {e : Rust.V2EntryRef}
    (hi : i < entryCount (m.based capsule))
    (hreads : Rust.Reads e bytes (dirent (Mem.ofList bytes) i))
    (hdata : e.data = .ok (payload (Mem.ofList bytes) (dirent (Mem.ofList bytes) i))) :
    SameEntry m (entryViewOf capsule (dirent (m.based capsule) i)) e := by
  obtain ⟨hdirent, hpayload⟩ := (h.congr (ofList_eq_based hm)).2.2 i hi
  rw [hdirent] at hreads hdata
  rw [hpayload] at hdata
  refine ⟨hreads.entryType, hreads.flags, hreads.version, hreads.offset, hreads.alignment, ?_⟩
  rw [hdata, payload, Mem.bytes_based]
  rfl

end Same

/-- The three parsers accept the same byte strings, the Rust parser never
panics, and the C and Rust views expose the same entries. -/
theorem parsers_agree (bytes : List UInt8) (m : Mem) (capsule : Nat) (out : View)
    (hne : capsule ≠ 0) (hm : m.bytes capsule bytes.length = bytes) :
    (((parse capsule bytes.length (some out)).val m).1 = .ok () ↔
      ∃ ref, Rust.V2CapsuleRef.parse bytes = .ok ref) ∧
    ((∃ ref, Rust.V2CapsuleRef.parse bytes = .ok ref) ↔
      Python.validateV2Capsule bytes = .ok ()) ∧
    Rust.V2CapsuleRef.parse bytes ≠ .error .panic ∧
    ∀ v ref, (parse capsule bytes.length (some out)).val m = (.ok (), some v) →
      Rust.V2CapsuleRef.parse bytes = .ok ref →
      ref.entryCount = v.entryCount ∧
      (∀ i < v.entryCount, ∀ ev₀, ∃ ev e, ref.entry i = .ok e ∧
        (getEntry (some v) i (some ev₀)).val m = (.ok (), some ev) ∧ SameEntry m ev e) ∧
      ∀ i, v.entryCount ≤ i → ref.entry i = .error (.err .entryOutOfRange) ∧
        ∀ ev₀, (getEntry (some v) i (some ev₀)).val m = (.error .count, some ev₀) := by
  have hrust := Rust.parse_settles bytes
  have hpython := Python.validateV2Capsule_settles bytes
  have hunit : (∃ u, Python.validateV2Capsule bytes = .ok u) ↔
      Python.validateV2Capsule bytes = .ok () := ⟨fun ⟨_, hu⟩ => hu, fun h => ⟨(), h⟩⟩
  refine ⟨?_, ?_, fun hpanic => hrust.not_fault hpanic rfl, ?_⟩
  · rw [hrust.ok_iff, ← wellFormed_ofList hm]
    refine ⟨fun h => (parse_wellFormed h).2, fun h => ?_⟩
    rw [parse_val_ok hne h]
  · rw [hrust.ok_iff, ← hpython.ok_iff, hunit]
  · intro v ref hv href
    have hwf : WellFormed (m.based capsule) bytes.length :=
      (parse_wellFormed (congrArg Prod.fst hv)).2
    have hwf' := (wellFormed_ofList hm).mp hwf
    rw [parse_val_ok hne hwf] at hv
    cases hv
    cases hrust.post href
    have hcount : entryCount (Mem.ofList bytes) = entryCount (m.based capsule) :=
      (hwf.congr (ofList_eq_based hm)).2.1
    refine ⟨hcount, ?_, ?_⟩
    · intro i hi ev₀
      have hentry := Rust.entry_settles hwf' i
      obtain ⟨e, he⟩ := hentry.ok_iff.mpr (hcount.symm ▸ hi)
      obtain ⟨hreads, hdata⟩ := hentry.post he
      exact ⟨_, e, he, getEntry_val_ok hne hwf hi, sameEntry hm hwf hi hreads hdata⟩
    · intro i hi
      change entryCount (m.based capsule) ≤ i at hi
      refine ⟨?_, fun ev₀ => getEntry_val_count hne hi⟩
      have hge : (Rust.refOf bytes).entryCount ≤ i := Nat.le_trans (Nat.le_of_eq hcount) hi
      rw [Rust.V2CapsuleRef.entry, refuse, if_pos hge]
      rfl

/-- A capsule of three payloads, of 3, 5 and 8 bytes, at multiples of 1, 16
and 64. -/
def paddedCapsule : List UInt8 :=
  [0x50414332504242, 0x30004000000002, 0x300000000, 0x108, 0x40, 0x438583a6e6704f64, 0, 0,
    0x1001, 0x100000000, 0xd0, 3, 0xd48c7e5b9106e7f8, 1, 0x1002, 0x200000005, 0xe0, 5,
    0xe48b54840a05ee63, 0x10, 0x1001, 0x100000000, 0x100, 8, 0xb063301ee8d32689, 0x40,
    0x504242, 0, 0x504030201, 0, 0, 0, 0x909090909090909].flatMap (le · 8)

theorem paddedCapsule_parses : Rust.V2CapsuleRef.parse paddedCapsule = .ok ⟨paddedCapsule, 64, 3⟩ := by
  decide +kernel

theorem parsers_agree_sample :
    Python.validateV2Capsule paddedCapsule = .ok () ∧
    ∃ v, (parse 4096 paddedCapsule.length (some ⟨0, 0, 0, 0, 0⟩)).val (Mem.zeros.blit 4096 paddedCapsule) =
        (.ok (), some v) ∧ v.entryCount = 3 ∧
      ∀ i < 3, ∃ ev e, (⟨paddedCapsule, 64, 3⟩ : Rust.V2CapsuleRef).entry i = .ok e ∧
        (getEntry (some v) i (some ⟨0, 0, 0, 0, 0, 0, 0, 0⟩)).val (Mem.zeros.blit 4096 paddedCapsule) =
          (.ok (), some ev) ∧ SameEntry (Mem.zeros.blit 4096 paddedCapsule) ev e := by
  have hrust : ∃ ref, Rust.V2CapsuleRef.parse paddedCapsule = .ok ref := ⟨_, paddedCapsule_parses⟩
  obtain ⟨hc, hpython, _, hsame⟩ := parsers_agree paddedCapsule (Mem.zeros.blit 4096 paddedCapsule) 4096
    ⟨0, 0, 0, 0, 0⟩ (by decide) (Mem.bytes_blit Mem.zeros 4096 paddedCapsule)
  have hview : (parse 4096 paddedCapsule.length (some ⟨0, 0, 0, 0, 0⟩)).val
      (Mem.zeros.blit 4096 paddedCapsule) = _ :=
    parse_val_ok (by decide) (parse_wellFormed (hc.mpr hrust)).2
  obtain ⟨hcount, hentries, _⟩ := hsame _ _ hview paddedCapsule_parses
  exact ⟨hpython.mp hrust, _, hview, hcount.symm, fun i hi => hentries i (hcount ▸ hi) _⟩

end BearBoot.V2
