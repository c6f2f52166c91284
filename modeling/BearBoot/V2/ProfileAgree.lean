import BearBoot.Machine.Pack
import BearBoot.V2.Agreement
import BearBoot.V2.ProfileGrammar

/-!
# Both Profile 0 validators decide the profile

On a capsule both parsers accept, `bbp_v2_p0_validate` and
`V2Profile0::validate` answer exactly when the capsule's profile entries
are one of each kind (`Profile0`), and tell the same facts.

Each validator is compared with the profile on its own. A turn of either
loop asks `TurnOk` of its entry and steps the mask and the facts, so after
`i` turns both hold the mask and the facts of the first `i` entries. The C
result has a pointer where the facts have bytes (`Shows`).

What makes the reads safe is the order of the checks. Every payload field
is read after the payload's size has been compared, and the size was
compared with the capsule by the parser. So one argument settles what a
turn decides and that it reads nothing else, in C (`p0Turn_settles`) as in
Rust (`turn_settles`).
-/

set_option autoImplicit false

namespace BearBoot.V2

open Machine

variable {o i : Nat}

/-- A field of a payload is a field of the memory it lies in. -/
theorem getLE_payload {m : Mem} {a n w : Nat} (h : o + w ≤ n) :
    (Mem.ofList (m.bytes a n)).getLE o w = m.getLE (a + o) w := by
  refine Mem.getLE_congr fun i hi => ?_
  rw [Mem.ofList_bytes (by omega), Nat.add_assoc]

/-! ## The C validator -/

/-- The C result shows the facts: the device tree is the bytes it points
to. -/
structure Shows (m : Mem) (w : P0View) (f : P0Facts) : Prop where
  architecture : w.architecture = f.architecture
  cpuCount : w.cpuCount = f.cpuCount
  memoryEntryCount : w.memoryEntryCount = f.memoryEntryCount
  kernelPhysicalBase : w.kernelPhysicalBase = f.kernelPhysicalBase
  kernelVirtualBase : w.kernelVirtualBase = f.kernelVirtualBase
  devicetree : m.bytes w.dtb w.dtbSize = f.devicetree

variable {w : P0View}

section Payloads

variable {m : Mem} {safe : Event → Prop} {ev : EntryView}

/-- What `safe` must allow for a payload: every read inside it. -/
def Allows (safe : Event → Prop) (ev : EntryView) : Prop :=
  ∀ o k, o + k ≤ ev.size → safe (.read (ev.data + o) k)

variable (h : Allows safe ev)

section Fields

variable {β : Type} {f : Nat → Check β} {P : Prop} {Q : β → Prop} (o : Nat)

include h

theorem field16_settles (ho : o + 2 ≤ ev.size)
    (hf : Checked.Settles safe m (f (get16 (Mem.ofList (m.bytes ev.data ev.size)) o)) P Q) :
    Checked.Settles safe m (read16 (ev.data + o) >>= f) P Q := by
  rw [get16, getLE_payload ho] at hf
  exact read16_settles (h o 2 ho) hf

theorem field32_settles (ho : o + 4 ≤ ev.size)
    (hf : Checked.Settles safe m (f (get32 (Mem.ofList (m.bytes ev.data ev.size)) o)) P Q) :
    Checked.Settles safe m (read32 (ev.data + o) >>= f) P Q := by
  rw [get32, getLE_payload ho] at hf
  exact read32_settles (h o 4 ho) hf

theorem field64_settles (ho : o + 8 ≤ ev.size)
    (hf : Checked.Settles safe m (f (get64 (Mem.ofList (m.bytes ev.data ev.size)) o)) P Q) :
    Checked.Settles safe m (read64 (ev.data + o) >>= f) P Q := by
  rw [get64, getLE_payload ho] at hf
  exact read64_settles (h o 8 ho) hf

end Fields

variable {f : P0Facts} {version flags : Nat} (hs : Shows m w f)

include h

theorem p0MemoryEntry_settles (ho : o + 32 ≤ ev.size) :
    Checked.Settles safe m (p0MemoryEntry (ev.data + o)) (RecordOk (m.bytes ev.data ev.size) o)
      fun _ => True := by
  unfold p0MemoryEntry
  simp only [Nat.add_assoc]
  refine field64_settles h o (by omega) (field64_settles h (o + 8) (by omega) ?_)
  refine .test ?_ (fun hok => And.intro hok.nonempty hok.noWrap) fun hlength => ?_
  · have hlt : get64 (Mem.ofList (m.bytes ev.data ev.size)) (o + 8) < 2 ^ 64 := Mem.getLE_lt _ _ 8
    omega
  refine field32_settles h (o + 16) (by omega) (.test Iff.rfl (·.type) fun htype => ?_)
  refine field32_settles h (o + 28) (by omega) (.congr ?_ (.refuse not_not))
  exact ⟨fun hreserved => ⟨hlength.1, hlength.2, htype, hreserved⟩, (·.reserved)⟩

include hs

theorem p0Identity_settles :
    Checked.Settles safe m (p0Identity ev w) (IdentityOk (m.bytes ev.data ev.size))
      fun r => Shows m r (factsStep f ⟨.bootIdentity, version, flags, m.bytes ev.data ev.size⟩) := by
  refine .test not_not (fun hok => (Mem.bytes_length ..).symm.trans hok.size) fun hsize => ?_
  refine field16_settles h 2 (by omega) (.test not_not (·.reserved0) fun hreserved0 => ?_)
  refine field32_settles h 8 (by omega) (.test not_not (·.flags) fun hflags => ?_)
  refine field32_settles h 12 (by omega) (.test not_not (·.reserved1) fun hreserved1 => ?_)
  refine field16_settles h 0 (by omega) (field32_settles h 4 (by omega) ?_)
  refine .test ?_ (fun hok => And.intro hok.architecture hok.cpuCount) fun hknown => ?_
  · omega
  exact .answer ⟨(Mem.bytes_length ..).trans hsize, hreserved0, hflags, hreserved1, hknown.1, hknown.2⟩
    { hs with architecture := rfl, cpuCount := rfl }

theorem p0Memory_settles :
    Checked.Settles safe m (p0Memory ev w) (MemoryOk (m.bytes ev.data ev.size))
      fun r => Shows m r (factsStep f ⟨.memoryMap, version, flags, m.bytes ev.data ev.size⟩) := by
  have hlength := Mem.bytes_length m ev.data ev.size
  refine .test not_lt (fun hok => ?_) fun hsize => ?_
  · have := hok.size
    omega
  refine field32_settles h 0 (by omega) (.test ?_ (·.count) fun hcount => ?_)
  · omega
  refine field32_settles h 4 (by omega) (.test ?_ (fun hok => And.intro hok.stride hok.size) fun htotal => ?_)
  · omega
  -- the count has been compared with the size, so every record is inside
  refine .step (.forUpTo _ (fun _ _ => True) trivial fun j hj _ _ _ => ?_) (·.records) fun hrecords _ _ => ?_
  · rw [Nat.add_assoc]
    exact p0MemoryEntry_settles h (by omega)
  · exact .answer ⟨hcount, htotal.1, htotal.2, hrecords⟩ { hs with memoryEntryCount := rfl }

theorem p0Kernel_settles :
    Checked.Settles safe m (p0Kernel ev w) (KernelOk (m.bytes ev.data ev.size))
      fun r => Shows m r (factsStep f ⟨.kernelAddress, version, flags, m.bytes ev.data ev.size⟩) := by
  refine .test not_not (fun hok => (Mem.bytes_length ..).symm.trans hok.size) fun hsize => ?_
  refine field64_settles h 0 (by omega) (field64_settles h 8 (by omega) ?_)
  refine .test Iff.rfl (·.physicalBase) fun hbase => ?_
  exact .answer ⟨(Mem.bytes_length ..).trans hsize, hbase⟩
    { hs with kernelPhysicalBase := rfl, kernelVirtualBase := rfl }

theorem p0Tree_settles :
    Checked.Settles safe m (p0Tree ev w) (TreeOk (m.bytes ev.data ev.size))
      fun r => Shows m r (factsStep f ⟨.devicetree, version, flags, m.bytes ev.data ev.size⟩) := by
  have hlength := Mem.bytes_length m ev.data ev.size
  refine .test not_le (fun hok => hlength ▸ hok.nonempty) fun hsize => ?_
  refine field32_settles h 0 (by omega) (.test not_not (·.flags) fun hflags => ?_)
  refine field32_settles h 4 (by omega) (.test not_not (fun hok => ?_) fun hrest => ?_)
  · rw [hok.size, hlength]
  refine .answer ⟨hlength.symm ▸ hsize, hflags, by rw [hrest, hlength]⟩ { hs with devicetree := ?_ }
  have hsplit := bytes_add m ev.data 8 (ev.size - 8)
  rw [show 8 + (ev.size - 8) = ev.size by omega] at hsplit
  rw [hrest]
  change _ = (m.bytes ev.data ev.size).drop 8
  rw [hsplit, List.drop_left' (Mem.bytes_length m ev.data 8)]

/-- The payload of each kind is settled, and its facts are shown. -/
theorem p0Payload_settles (k : P0Kind) :
    Checked.Settles safe m (p0Payload k.bit ev w) (k.PayloadOk (m.bytes ev.data ev.size))
      fun r => Shows m r (factsStep f ⟨k, version, flags, m.bytes ev.data ev.size⟩) := by
  cases k with
  | bootIdentity => exact p0Identity_settles h hs
  | memoryMap => exact p0Memory_settles h hs
  | kernelAddress => exact p0Kernel_settles h hs
  | devicetree => exact p0Tree_settles h hs

end Payloads

/-- The event reads inside a directory entry, or inside the payload of an
entry of one of the four types. -/
def ProfileRead (m : Mem) (capsule : Nat) (e : Event) : Prop :=
  ∃ i < entryCount (m.based capsule),
    Within (directoryEntry capsule (directoryOffset (m.based capsule)) i) 48 e ∨
    ((P0Kind.ofType (dirent (m.based capsule) i).type).isSome ∧
      Within (capsule + (dirent (m.based capsule) i).offset) (dirent (m.based capsule) i).size e)

section Turn

variable {m : Mem} {capsule n i : Nat} (hne : capsule ≠ 0) (h : WellFormed (m.based capsule) n)

theorem payload_eq (d : Dirent) :
    payload (m.based capsule) d = m.bytes (entryViewOf capsule d).data (entryViewOf capsule d).size :=
  m.bytes_based capsule d.offset d.size

include hne h

theorem p0Entry_settles (hi : i < entryCount (m.based capsule)) :
    Checked.Settles (ProfileRead m capsule) m (p0Entry (viewOf (m.based capsule) capsule n) i) True
      (· = entryViewOf capsule (dirent (m.based capsule) i)) := by
  have hview : Checked.Settles (ProfileRead m capsule) m _ _ _ :=
    getEntryView_settles (i := i) h fun hi o k hok => ⟨i, hi, Or.inl ⟨Nat.le_add_right _ _, by
      rw [Nat.add_assoc]
      exact Nat.add_le_add_left hok _⟩⟩
  refine ⟨Traced.Logs.bind ?_ ?_, ?_⟩
  · unfold getEntry
    exact .ite (fun _ => .pure _) fun _ => publish_logs hview.logs
  · split
    · exact .pure _
    · exact .pure _
    · exact .pure _
  · have hval : (p0Entry (viewOf (m.based capsule) capsule n) i).val m =
        .ok (entryViewOf capsule (dirent (m.based capsule) i)) := by
      unfold p0Entry
      change Traced.val _ m = _
      rw [Traced.val_bind, getEntry_val_ok hne h hi]
      rfl
    rw [hval]
    exact ⟨trivial, rfl⟩

/-- A turn gets through when its entry is of no concern, or new and as it
should be, and keeps the mask and the facts of the entries it has met. -/
theorem p0Turn_settles (hi : i < entryCount (m.based capsule)) {st : Nat × P0View}
    (hst : st.1 = mask (profilePart (m.based capsule) i) ∧
      Shows m st.2 (factsOf (profilePart (m.based capsule) i))) :
    Checked.Settles (ProfileRead m capsule) m (p0Turn (viewOf (m.based capsule) capsule n) i st)
      (TurnOk (m.based capsule) i) fun st' => st'.1 = mask (profilePart (m.based capsule) (i + 1)) ∧
        Shows m st'.2 (factsOf (profilePart (m.based capsule) (i + 1))) := by
  obtain ⟨hmask, hshows⟩ := hst
  refine .step (p0Entry_settles hne h hi) (fun _ => trivial) ?_
  rintro _ _ rfl
  unfold TurnOk
  rw [profilePart_succ, ← hmask]
  unfold profileEntry
  dsimp only
  generalize hb : p0Bit (entryViewOf capsule (dirent (m.based capsule) i)).type = bit
  have hbit := hb.symm.trans (P0Kind.p0Bit_eq _)
  change bit = (P0Kind.ofType (dirent (m.based capsule) i).type).elim 0 P0Kind.bit at hbit
  cases hkind : P0Kind.ofType (dirent (m.based capsule) i).type with
  | none =>
    rw [hkind, Option.elim_none] at hbit
    rw [if_pos hbit, Option.map_none, Option.toList_none, List.append_nil]
    exact .answer (fun e he => by cases he) ⟨hmask, hshows⟩
  | some k =>
    rw [hkind, Option.elim_some] at hbit
    have hne0 : k.bit ≠ 0 := by cases k <;> decide
    rw [hbit, if_neg hne0, Option.map_some, Option.toList_some, mask_concat, factsOf_concat, ← hmask,
      payload_eq]
    have hallows : Allows (ProfileRead m capsule) (entryViewOf capsule (dirent (m.based capsule) i)) := by
      intro o k hok
      refine ⟨i, hi, Or.inr ⟨by rw [hkind]; rfl, Nat.le_add_right _ _, ?_⟩⟩
      rw [Nat.add_assoc]
      exact Nat.add_le_add_left hok _
    refine .test (by simp only [ne_eq, not_or, not_not]; rfl) (fun hall => And.intro (hall _ rfl).1
      (And.intro (hall _ rfl).2.version (hall _ rfl).2.flags)) fun hentry => ?_
    refine .step (p0Payload_settles hallows hshows k) (fun hall => (hall _ rfl).2.payload)
      fun hpayload r hr => .answer ?_ ⟨rfl, hr⟩
    rintro _ ⟨⟩
    exact ⟨hentry.1, hentry.2.1, hentry.2.2, hpayload⟩

/-- The C validator gets through exactly on the profile, and shows its
facts. -/
theorem p0Check_settles :
    Checked.Settles (ProfileRead m capsule) m (p0Check (viewOf (m.based capsule) capsule n))
      (Distinct (profileEntries (m.based capsule)) ∧ mask (profileEntries (m.based capsule)) = 15)
      fun w => Shows m w (factsOf (profileEntries (m.based capsule))) := by
  refine .step (.forUpTo (TurnOk (m.based capsule)) (fun i st =>
    st.1 = mask (profilePart (m.based capsule) i) ∧
      Shows m st.2 (factsOf (profilePart (m.based capsule) i))) ⟨rfl, rfl, rfl, rfl, rfl, rfl, rfl⟩
    fun i hi _ _ hst => p0Turn_settles hne h hi hst) (fun hall => (turns_iff _ _).mpr hall.1) ?_
  intro hturns st hst
  refine .test (by rw [not_not, hst.1]; rfl) (·.2) fun hmask => ?_
  exact .answer ⟨(turns_iff _ _).mp hturns, hmask⟩ hst.2

end Turn

/-! ## The Rust validator -/

namespace Rust.V2Profile0

/-- The Rust result that tells the facts. -/
def ofFacts (f : P0Facts) : V2Profile0 :=
  ⟨f.architecture, f.cpuCount, f.memoryEntryCount, f.kernelPhysicalBase, f.kernelVirtualBase,
    f.devicetree⟩

section Payloads

variable {data : List UInt8} {profile : V2Profile0}

theorem identity_settles :
    Settles (· = .panic) (identity data profile) (IdentityOk data) fun r =>
      r = { profile with
        architecture := get16 (Mem.ofList data) 0
        cpuCount := get32 (Mem.ofList data) 4 } := by
  unfold identity
  refine .test (err_ne_panic _) not_not (·.size) fun hsize => ?_
  refine .ok_bind (readLe_ok (by omega)) (.ok_bind (readLe_ok (by omega))
    (.ok_bind (readLe_ok (by omega)) ?_))
  refine .test (err_ne_panic _) (by simp only [not_or, not_not, ne_eq]; rfl)
    (fun h => And.intro h.reserved0 (And.intro h.flags h.reserved1)) fun hzero => ?_
  refine .ok_bind (readLe_ok (by omega)) (.ok_bind (readLe_ok (by omega)) ?_)
  refine .test (err_ne_panic _) (by rw [not_or, not_not]; rfl)
    (fun h => And.intro h.architecture h.cpuCount) fun hrest => ?_
  exact .answer ⟨hsize, hzero.1, hzero.2.1, hzero.2.2, hrest.1, hrest.2⟩ rfl

/-- A field of a chunk is a field of the payload. -/
theorem readLe_chunk {k w : Nat} (ho : o + 32 ≤ data.length) (hk : k + w ≤ 32) :
    readLe Stop.panic ((data.drop o).take 32) k w = .ok ((Mem.ofList data).getLE (o + k) w) := by
  rw [← Mem.bytes_ofList_drop ho, readLe_ok (by rw [Mem.bytes_length]; exact hk)]
  exact congrArg _ (getLE_payload hk)

theorem record_settles (ho : o + 32 ≤ data.length) :
    Settles (· = .panic) (record ((data.drop o).take 32)) (RecordOk data o) fun _ => True := by
  unfold record
  refine .ok_bind (readLe_chunk ho (by decide)) (.ok_bind (readLe_chunk ho (by decide))
    (.ok_bind (readLe_chunk ho (by decide)) (.ok_bind (readLe_chunk ho (by decide)) ?_)))
  refine .congr ⟨fun h => ⟨h.1, h.2.1, h.2.2.1, h.2.2.2⟩, fun h => And.intro h.nonempty
    (And.intro h.noWrap (And.intro h.type h.reserved))⟩ (.refuse (err_ne_panic _) ?_)
  simp only [not_or, not_le, not_not, ne_eq]
  rfl

/-- The rest of a payload behind its first 8 bytes. -/
theorem bytes_rest (h : 8 ≤ data.length) :
    (Mem.ofList data).bytes 8 (data.length - 8) = data.drop 8 := by
  rw [Mem.bytes_ofList_drop (by omega), List.take_of_length_le (by rw [List.length_drop])]

theorem records_settles {count : Nat} (hsize : data.length = 8 + count * 32) :
    Settles (· = .panic)
      (forUpTo (fun j _ => record (((data.drop 8).drop (j * 32)).take 32)) ((data.drop 8).length / 32) ())
      (∀ j < count, RecordOk data (8 + j * 32)) fun _ => True := by
  have hcount : (data.drop 8).length / 32 = count := by
    rw [List.length_drop]
    omega
  rw [hcount]
  refine .forUpTo _ (fun _ _ => True) trivial fun j hj _ _ _ => ?_
  rw [List.drop_drop]
  exact record_settles (by omega)

theorem memory_settles :
    Settles (· = .panic) (memory data profile) (MemoryOk data) fun r =>
      r = { profile with memoryEntryCount := get32 (Mem.ofList data) 0 } := by
  unfold memory
  refine .test (err_ne_panic _) not_lt (fun h => ?_) fun hsize => ?_
  · have := h.size
    omega
  refine .ok_bind (readLe_ok (by omega)) ?_
  refine .test (err_ne_panic _) ?_ (·.count) fun hcount => ?_
  · change ¬ (get32 (Mem.ofList data) 0 = 0 ∨ 4096 < get32 (Mem.ofList data) 0) ↔ _
    omega
  refine .ok_bind (readLe_ok (by omega)) (.ok_bind (mul_ok ?_) ?_)
  · change get32 (Mem.ofList data) 0 * 32 < _
    omega
  refine .test (err_ne_panic _) ?_ (fun h => And.intro h.stride h.size) fun htotal => ?_
  · change ¬ (get32 (Mem.ofList data) 4 ≠ 32 ∨ get32 (Mem.ofList data) 0 * 32 ≠ _) ↔ _
    omega
  refine .ok_bind ((slice_ok hsize (Nat.le_refl _)).trans (congrArg _ (bytes_rest hsize))) ?_
  refine .step (records_settles htotal.2) (·.records) fun hrecords _ _ => ?_
  exact .answer ⟨hcount, htotal.1, htotal.2, hrecords⟩ rfl

theorem kernel_settles :
    Settles (· = .panic) (kernel data profile) (KernelOk data) fun r =>
      r = { profile with
        kernelPhysicalBase := get64 (Mem.ofList data) 0
        kernelVirtualBase := get64 (Mem.ofList data) 8 } := by
  unfold kernel
  refine .test (err_ne_panic _) not_not (·.size) fun hsize => ?_
  refine .ok_bind (readLe_ok (by omega)) (.ok_bind (readLe_ok (by omega)) ?_)
  exact .test (err_ne_panic _) Iff.rfl (·.physicalBase) fun hbase => .answer ⟨hsize, hbase⟩ rfl

theorem tree_settles :
    Settles (· = .panic) (tree data profile) (TreeOk data) fun r =>
      r = { profile with devicetree := data.drop 8 } := by
  unfold tree
  refine .test (err_ne_panic _) not_le (·.nonempty) fun hsize => ?_
  refine .ok_bind (readLe_ok (by omega)) (.ok_bind (readLe_ok (by omega)) ?_)
  refine .test (err_ne_panic _) (by simp only [not_or, not_not, ne_eq]; rfl)
    (fun h => And.intro h.flags h.size) fun hrest => ?_
  refine .ok_bind (slice_ok (Nat.le_of_lt hsize) (Nat.le_refl _)) (.answer ⟨hsize, hrest.1, hrest.2⟩ ?_)
  rw [bytes_rest (Nat.le_of_lt hsize)]

theorem payload_settles (e : P0Entry) (f : P0Facts) :
    Settles (· = .panic) (payload e.kind.bit e.payload (ofFacts f)) (e.kind.PayloadOk e.payload)
      fun r => r = ofFacts (factsStep f e) := by
  obtain ⟨kind, version, flags, data⟩ := e
  cases kind with
  | bootIdentity => exact identity_settles
  | memoryMap => exact memory_settles
  | kernelAddress => exact kernel_settles
  | devicetree => exact tree_settles

end Payloads

section Turn

variable {bytes : List UInt8}

/-- A turn of the Rust loop settles `TurnOk` and keeps the mask and the
facts of the entries it has met. -/
theorem turn_settles (h : WellFormed (Mem.ofList bytes) bytes.length)
    (hi : i < entryCount (Mem.ofList bytes)) :
    Settles (· = .panic)
      (turn (refOf bytes) i (mask (profilePart (Mem.ofList bytes) i),
        ofFacts (factsOf (profilePart (Mem.ofList bytes) i))))
      (TurnOk (Mem.ofList bytes) i) fun st =>
        st = (mask (profilePart (Mem.ofList bytes) (i + 1)),
          ofFacts (factsOf (profilePart (Mem.ofList bytes) (i + 1)))) := by
  have hentry := entry_settles h i
  obtain ⟨e, he⟩ := hentry.ok_iff.mpr hi
  obtain ⟨hreads, hdata⟩ := hentry.post he
  unfold turn TurnOk
  refine .ok_bind he (.ok_bind hreads.entryType ?_)
  rw [profilePart_succ]
  unfold profileEntry
  generalize hb : p0Bit (dirent (Mem.ofList bytes) i).type = bit
  rw [P0Kind.p0Bit_eq] at hb
  cases hkind : P0Kind.ofType (dirent (Mem.ofList bytes) i).type with
  | none =>
    rw [hkind, Option.elim_none] at hb
    rw [if_pos hb.symm, Option.map_none, Option.toList_none, List.append_nil]
    exact ⟨(fun e he => by cases he), rfl⟩
  | some k =>
    rw [hkind, Option.elim_some] at hb
    have hne0 : k.bit ≠ 0 := by cases k <;> decide
    rw [← hb, if_neg hne0, Option.map_some, Option.toList_some, mask_concat, factsOf_concat]
    refine .ok_bind hreads.version (.ok_bind hreads.flags ?_)
    refine .test (err_ne_panic _) (by simp only [ne_eq, not_or, not_not]) (fun hall =>
      And.intro (hall _ rfl).1 (And.intro (hall _ rfl).2.version (hall _ rfl).2.flags)) fun hentry => ?_
    refine .ok_bind hdata (.step (payload_settles ⟨k, (dirent (Mem.ofList bytes) i).version,
      (dirent (Mem.ofList bytes) i).flags, _⟩ _) (fun hall => (hall _ rfl).2.payload)
      fun hpayload r hr => .answer ?_ (by rw [hr]; rfl))
    rintro _ ⟨⟩
    exact ⟨hentry.1, hentry.2.1, hentry.2.2, hpayload⟩

/-- The Rust validator answers exactly on the profile, tells its facts, and
does not panic. -/
theorem validate_settles (h : WellFormed (Mem.ofList bytes) bytes.length) :
    Settles (· = .panic) (validate (refOf bytes))
      (Distinct (profileEntries (Mem.ofList bytes)) ∧ mask (profileEntries (Mem.ofList bytes)) = 15)
      fun r => r = ofFacts (factsOf (profileEntries (Mem.ofList bytes))) := by
  refine .step (.forUpTo (TurnOk (Mem.ofList bytes)) (fun i st => st =
    (mask (profilePart (Mem.ofList bytes) i), ofFacts (factsOf (profilePart (Mem.ofList bytes) i)))) rfl ?_)
    (fun hall => (turns_iff _ _).mpr hall.1) ?_
  · rintro i hi _ _ rfl
    exact turn_settles h hi
  · rintro hturns _ rfl
    exact .test (err_ne_panic _) not_not (·.2) fun hmask => .answer ⟨(turns_iff _ _).mp hturns, hmask⟩ rfl

end Turn

end Rust.V2Profile0

/-! ## The calls -/

section Calls

variable {m : Mem} {capsule n : Nat}

/-- A call that fails leaves `*out` as it was. -/
theorem p0Validate_error {view : Option View} {out : Option P0View} {e : Error}
    (h : ((p0Validate view out).val m).1 = .error e) : ((p0Validate view out).val m).2 = out := by
  unfold p0Validate at h ⊢
  split at h
  next => exact publish_kept (by rw [h]; simp)
  next => rfl

end Calls

/-- On every capsule the parsers accept, the two Profile 0 validators
answer alike: exactly when the capsule's entries of the four types are the
profile, with the same facts. Entries of other types are not among
`profileEntries`. Rust does not panic, a failed C call leaves its output
alone, and the C call reads directory entries and payloads of the four
types only. -/
theorem profile_validators_agree (bytes : List UInt8) (m : Mem) (capsule : Nat) (out view : View)
    (ref : Rust.V2CapsuleRef) (before : P0View) (hm : m.bytes capsule bytes.length = bytes)
    (hparse : (parse capsule bytes.length (some out)).val m = (.ok (), some view))
    (href : Rust.V2CapsuleRef.parse bytes = .ok ref) :
    (((p0Validate (some view) (some before)).val m).1 = .ok () ↔
      ∃ profile, Rust.V2Profile0.validate ref = .ok profile) ∧
    ((∃ profile, Rust.V2Profile0.validate ref = .ok profile) ↔
      ∃ facts, Profile0 (profileEntries (Mem.ofList bytes)) facts) ∧
    (∀ w profile, (p0Validate (some view) (some before)).val m = (.ok (), some w) →
      Rust.V2Profile0.validate ref = .ok profile →
      ∃ facts, Profile0 (profileEntries (Mem.ofList bytes)) facts ∧ Shows m w facts ∧
        profile = Rust.V2Profile0.ofFacts facts) ∧
    Rust.V2Profile0.validate ref ≠ .error .panic ∧
    (∀ view' out' e, ((p0Validate view' out').val m).1 = .error e →
      ((p0Validate view' out').val m).2 = out') ∧
    Traced.Logs (ProfileRead m capsule) (p0Validate (some view) (some before)) m := by
  obtain ⟨hne, hwf⟩ := parse_wellFormed (congrArg Prod.fst hparse)
  have hwf' := (wellFormed_ofList hm).mp hwf
  rw [parse_val_ok hne hwf] at hparse
  cases hparse
  cases (Rust.parse_settles bytes).post href
  have hsame : profileEntries (Mem.ofList bytes) = profileEntries (m.based capsule) :=
    hwf.profileEntries_congr (ofList_eq_based hm)
  have hrust := Rust.V2Profile0.validate_settles hwf'
  have hprofile : (Distinct (profileEntries (Mem.ofList bytes)) ∧
      mask (profileEntries (Mem.ofList bytes)) = 15) ↔
      ∃ facts, Profile0 (profileEntries (Mem.ofList bytes)) facts := by
    simp only [profile0_iff]
    exact ⟨fun ⟨hdistinct, hmask⟩ => ⟨_, hdistinct, hmask, rfl⟩,
      fun ⟨_, hdistinct, hmask, _⟩ => ⟨hdistinct, hmask⟩⟩
  have hcheck := p0Check_settles hne hwf
  refine ⟨?_, ?_, ?_, fun hpanic => hrust.not_fault hpanic rfl, fun _ _ _ => p0Validate_error,
    publish_logs hcheck.logs⟩
  · rw [p0Validate, publish_ok_iff hcheck, hrust.ok_iff, hsame]
  · rw [hrust.ok_iff, hprofile]
  · intro w profile hw hvalid
    obtain ⟨hdistinct, hmask⟩ := hrust.ok_iff.mp ⟨profile, hvalid⟩
    refine ⟨factsOf (profileEntries (Mem.ofList bytes)), profile0_iff.mpr ⟨hdistinct, hmask, rfl⟩, ?_,
      hrust.post hvalid⟩
    rw [hsame]
    exact publish_post (Q := fun w => Shows m w _) hcheck hw

/-! ## A small capsule with the profile -/

def demoIdentity : List UInt8 := le 1 2 ++ le 0 2 ++ le 1 4 ++ le 0 8

def demoMemory : List UInt8 := le 1 4 ++ le 32 4 ++ le 0 8 ++ le 4096 8 ++ le 1 4 ++ le 0 12

def demoKernel : List UInt8 := le 4096 8 ++ le 0 8

/-- One byte of device tree behind a header with these flags. -/
def demoTree (flags : Nat) : List UInt8 := le flags 4 ++ le 1 4 ++ [7]

def demoDirent (type offset size checksum : Nat) : List UInt8 :=
  le type 8 ++ le 0 4 ++ le 1 2 ++ le 0 2 ++ le offset 8 ++ le size 8 ++ le checksum 8 ++ le 8 4 ++
    le 0 4

/-- Four entries, one of each type; the checksums depend on the flags. -/
def demoCapsule (flags treeCrc crc : Nat) : List UInt8 :=
  magic ++ le 2 2 ++ le 0 2 ++ le 64 2 ++ le 48 2 ++ le 0 4 ++ le 4 4 ++ le 337 8 ++ le 64 8 ++
    le crc 8 ++ le 0 16 ++
    demoDirent p0BootIdentity 256 16 16559212990901056762 ++
    demoDirent p0MemoryMap 272 40 6255068978609694291 ++
    demoDirent p0KernelAddress 312 16 6740572493424965041 ++
    demoDirent p0Devicetree 328 9 treeCrc ++
    demoIdentity ++ demoMemory ++ demoKernel ++ demoTree flags

/-- The capsule as the profile has it. -/
def plainCapsule : List UInt8 := demoCapsule 0 15174449389089174569 9925149308804595504

/-- The same capsule with a flag in the header of its device tree. -/
def flaggedCapsule : List UInt8 := demoCapsule 1 13185110400175813847 18197817756449349648

theorem demoIdentity_ok : IdentityOk demoIdentity :=
  ⟨by decide +kernel, by decide +kernel, by decide +kernel, by decide +kernel, by decide +kernel,
    by decide +kernel⟩

theorem demoMemory_ok : MemoryOk demoMemory := by
  have hcount : get32 (Mem.ofList demoMemory) 0 = 1 := by decide +kernel
  refine ⟨by decide +kernel, by decide +kernel, by decide +kernel, ?_⟩
  rw [hcount]
  intro j hj
  obtain rfl : j = 0 := by omega
  exact ⟨by decide +kernel, by decide +kernel, by decide +kernel, by decide +kernel⟩

theorem demoKernel_ok : KernelOk demoKernel := ⟨by decide +kernel, by decide +kernel⟩

/-- A capsule the Rust parser answers is accepted in memory too. -/
theorem demo_parses {bytes : List UInt8} {ref : Rust.V2CapsuleRef}
    (h : Rust.V2CapsuleRef.parse bytes = .ok ref) :
    (parse 4096 bytes.length (some ⟨0, 0, 0, 0, 0⟩)).val (Mem.zeros.blit 4096 bytes) =
      (.ok (), some (viewOf ((Mem.zeros.blit 4096 bytes).based 4096) 4096 bytes.length)) :=
  parse_val_ok (by decide) ((wellFormed_ofList (Mem.bytes_blit Mem.zeros 4096 bytes)).mpr
    ((Rust.parse_settles bytes).ok_iff.mp ⟨ref, h⟩))

theorem profile_validators_agree_plain :
    ((p0Validate (some (viewOf ((Mem.zeros.blit 4096 plainCapsule).based 4096) 4096
      plainCapsule.length)) (some ⟨0, 0, 0, 0, 0, 0, 0⟩)).val
        (Mem.zeros.blit 4096 plainCapsule)).1 = .ok () ∧
    ∃ profile, Rust.V2Profile0.validate ⟨plainCapsule, 64, 4⟩ = .ok profile := by
  have href : Rust.V2CapsuleRef.parse plainCapsule = .ok ⟨plainCapsule, 64, 4⟩ := by decide +kernel
  have hentries : profileEntries (Mem.ofList plainCapsule) = [⟨.bootIdentity, 1, 0, demoIdentity⟩,
      ⟨.memoryMap, 1, 0, demoMemory⟩, ⟨.kernelAddress, 1, 0, demoKernel⟩,
      ⟨.devicetree, 1, 0, demoTree 0⟩] := by decide +kernel
  have htree : TreeOk (demoTree 0) := ⟨by decide +kernel, by decide +kernel, by decide +kernel⟩
  obtain ⟨hc, hrust, _⟩ := profile_validators_agree plainCapsule (Mem.zeros.blit 4096 plainCapsule)
    4096 ⟨0, 0, 0, 0, 0⟩ _ _ ⟨0, 0, 0, 0, 0, 0, 0⟩ (Mem.bytes_blit Mem.zeros 4096 plainCapsule)
    (demo_parses href) href
  have hvalid := hrust.mpr ⟨_, demoIdentity, demoMemory, demoKernel, demoTree 0,
    List.Perm.of_eq hentries, demoIdentity_ok, demoMemory_ok, demoKernel_ok, htree, rfl⟩
  exact ⟨hc.mpr hvalid, hvalid⟩

/-- One of each type with version 1 and no entry flags, a good identity,
map and kernel, and a device tree of the declared size are not enough: both
validators also want the flags word of the device tree header zero. -/
theorem tree_flags_refused :
    Rust.V2CapsuleRef.parse flaggedCapsule = .ok ⟨flaggedCapsule, 64, 4⟩ ∧
    (parse 4096 flaggedCapsule.length (some ⟨0, 0, 0, 0, 0⟩)).val
        (Mem.zeros.blit 4096 flaggedCapsule) =
      (.ok (), some (viewOf ((Mem.zeros.blit 4096 flaggedCapsule).based 4096) 4096
        flaggedCapsule.length)) ∧
    profileEntries (Mem.ofList flaggedCapsule) = [⟨.bootIdentity, 1, 0, demoIdentity⟩,
      ⟨.memoryMap, 1, 0, demoMemory⟩, ⟨.kernelAddress, 1, 0, demoKernel⟩,
      ⟨.devicetree, 1, 0, demoTree 1⟩] ∧
    IdentityOk demoIdentity ∧ MemoryOk demoMemory ∧ KernelOk demoKernel ∧
    8 < (demoTree 1).length ∧ get32 (Mem.ofList (demoTree 1)) 4 = (demoTree 1).length - 8 ∧
    ((p0Validate (some (viewOf ((Mem.zeros.blit 4096 flaggedCapsule).based 4096) 4096
      flaggedCapsule.length)) (some ⟨0, 0, 0, 0, 0, 0, 0⟩)).val
        (Mem.zeros.blit 4096 flaggedCapsule)).1 ≠ .ok () ∧
    Rust.V2Profile0.validate ⟨flaggedCapsule, 64, 4⟩ = .error (.err .invalidFormat) := by
  have href : Rust.V2CapsuleRef.parse flaggedCapsule = .ok ⟨flaggedCapsule, 64, 4⟩ := by
    decide +kernel
  have hentries : profileEntries (Mem.ofList flaggedCapsule) = [⟨.bootIdentity, 1, 0, demoIdentity⟩,
      ⟨.memoryMap, 1, 0, demoMemory⟩, ⟨.kernelAddress, 1, 0, demoKernel⟩,
      ⟨.devicetree, 1, 0, demoTree 1⟩] := by decide +kernel
  refine ⟨href, demo_parses href, hentries, demoIdentity_ok, demoMemory_ok, demoKernel_ok,
    by decide +kernel, by decide +kernel, fun hok => ?_, by decide +kernel⟩
  obtain ⟨hne, hwf⟩ := parse_wellFormed (congrArg Prod.fst (demo_parses href))
  have hdistinct := ((publish_ok_iff (p0Check_settles hne hwf)).mp hok).1
  rw [← hwf.profileEntries_congr (ofList_eq_based (Mem.bytes_blit Mem.zeros 4096 flaggedCapsule)),
    hentries] at hdistinct
  have htree : TreeOk (demoTree 1) := (hdistinct.ok ⟨.devicetree, 1, 0, demoTree 1⟩ (by simp)).payload
  exact absurd htree.flags (by decide +kernel)

end BearBoot.V2
