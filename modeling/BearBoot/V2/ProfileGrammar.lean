import BearBoot.V2.Capsule
import BearBoot.V2.Profile
import Mathlib.Data.List.Perm.Basic
import Mathlib.Data.List.Nodup
import Mathlib.Data.Nat.Bitwise

/-!
# What Profile 0 asks of a capsule

The validators are a loop with a mask. What they are for has neither: the
entries of the profile's four types, taken out of the directory in whatever
order they stand, are one of each (`Profile0`). Each has version 1, no
flags and a payload of its own shape, and together they tell the facts a
kernel boots from.

The bridge between the two is the mask. After any number of entries it has
the bit of a kind exactly when an entry of that kind has been met
(`mask_and_bit`), so "the bit is not set" said at every turn is "no kind
occurs twice", and "the mask is 15" said at the end is "every kind occurs"
(`profile0_iff`).
-/

set_option autoImplicit false

namespace BearBoot.V2

open Machine

/-! ## Kinds -/

inductive P0Kind where
  | bootIdentity
  | memoryMap
  | kernelAddress
  | devicetree
  deriving DecidableEq, Repr

namespace P0Kind

def bit : P0Kind → Nat
  | bootIdentity => 1
  | memoryMap => 2
  | kernelAddress => 4
  | devicetree => 8

/-- The kind an entry type names, if it is one of the profile's. -/
def ofType (type : Nat) : Option P0Kind :=
  if type = p0BootIdentity then some bootIdentity
  else if type = p0MemoryMap then some memoryMap
  else if type = p0KernelAddress then some kernelAddress
  else if type = p0Devicetree then some devicetree
  else none

theorem p0Bit_eq (type : Nat) : p0Bit type = (ofType type).elim 0 bit := by
  unfold p0Bit ofType
  split_ifs <;> rfl

theorem and_bit_self (k : P0Kind) : k.bit &&& k.bit ≠ 0 := by
  cases k <;> decide

theorem and_bit_of_ne {k k' : P0Kind} (h : k ≠ k') : k.bit &&& k'.bit = 0 := by
  revert h
  cases k <;> cases k' <;> decide

end P0Kind

/-! ## Payloads -/

/-- The identity: 16 bytes, the reserved fields and the flags zero, a known
architecture, at least one CPU. -/
structure IdentityOk (p : List UInt8) : Prop where
  size : p.length = 16
  reserved0 : get16 (Mem.ofList p) 2 = 0
  flags : get32 (Mem.ofList p) 8 = 0
  reserved1 : get32 (Mem.ofList p) 12 = 0
  architecture : 1 ≤ get16 (Mem.ofList p) 0 ∧ get16 (Mem.ofList p) 0 ≤ 4
  cpuCount : get32 (Mem.ofList p) 4 ≠ 0

/-- The memory record of 32 bytes at `o`. -/
structure RecordOk (p : List UInt8) (o : Nat) : Prop where
  nonempty : get64 (Mem.ofList p) (o + 8) ≠ 0
  noWrap : get64 (Mem.ofList p) o + get64 (Mem.ofList p) (o + 8) < 2 ^ 64
  type : get32 (Mem.ofList p) (o + 16) ≠ 0
  reserved : get32 (Mem.ofList p) (o + 28) = 0

/-- The memory map: a count of 1 to 4096, the record size, and that many
records to the byte. -/
structure MemoryOk (p : List UInt8) : Prop where
  count : 1 ≤ get32 (Mem.ofList p) 0 ∧ get32 (Mem.ofList p) 0 ≤ 4096
  stride : get32 (Mem.ofList p) 4 = 32
  size : p.length = 8 + get32 (Mem.ofList p) 0 * 32
  records : ∀ j < get32 (Mem.ofList p) 0, RecordOk p (8 + j * 32)

/-- The kernel's place: 16 bytes, a physical base that is not zero. -/
structure KernelOk (p : List UInt8) : Prop where
  size : p.length = 16
  physicalBase : get64 (Mem.ofList p) 0 ≠ 0

/-- The device tree: no flags, and a size that is the rest of the payload
and not nothing. -/
structure TreeOk (p : List UInt8) : Prop where
  nonempty : 8 < p.length
  flags : get32 (Mem.ofList p) 0 = 0
  size : get32 (Mem.ofList p) 4 = p.length - 8

def P0Kind.PayloadOk : P0Kind → List UInt8 → Prop
  | bootIdentity => IdentityOk
  | memoryMap => MemoryOk
  | kernelAddress => KernelOk
  | devicetree => TreeOk

/-! ## The profile -/

/-- An entry of one of the four types. -/
structure P0Entry where
  kind : P0Kind
  version : Nat
  flags : Nat
  payload : List UInt8
  deriving DecidableEq, Repr

structure P0Entry.Ok (e : P0Entry) : Prop where
  version : e.version = 1
  flags : e.flags = 0
  payload : e.kind.PayloadOk e.payload

/-- What a capsule with the profile tells. -/
structure P0Facts where
  architecture : Nat
  cpuCount : Nat
  memoryEntryCount : Nat
  kernelPhysicalBase : Nat
  kernelVirtualBase : Nat
  devicetree : List UInt8
  deriving DecidableEq, Repr

/-- The entries are one of each kind, in any order, each with version 1, no
flags and a payload of its shape; `facts` is what they say. -/
def Profile0 (entries : List P0Entry) (facts : P0Facts) : Prop :=
  ∃ identity memory kernel tree : List UInt8,
    entries.Perm [⟨.bootIdentity, 1, 0, identity⟩, ⟨.memoryMap, 1, 0, memory⟩,
      ⟨.kernelAddress, 1, 0, kernel⟩, ⟨.devicetree, 1, 0, tree⟩] ∧
    IdentityOk identity ∧ MemoryOk memory ∧ KernelOk kernel ∧ TreeOk tree ∧
    facts =
      { architecture := get16 (Mem.ofList identity) 0
        cpuCount := get32 (Mem.ofList identity) 4
        memoryEntryCount := get32 (Mem.ofList memory) 0
        kernelPhysicalBase := get64 (Mem.ofList kernel) 0
        kernelVirtualBase := get64 (Mem.ofList kernel) 8
        devicetree := tree.drop 8 }

section Directory

variable (c : Mem)

/-- The `i`-th directory entry, if the profile knows its type. -/
def profileEntry (i : Nat) : Option P0Entry :=
  (P0Kind.ofType (dirent c i).type).map fun kind =>
    ⟨kind, (dirent c i).version, (dirent c i).flags, payload c (dirent c i)⟩

/-- The entries of the profile's types among the first `n`. -/
def profilePart (n : Nat) : List P0Entry := (List.range n).filterMap (profileEntry c)

/-- The entries of the profile's types. All others are left out. -/
def profileEntries : List P0Entry := profilePart c (entryCount c)

theorem profilePart_succ (n : Nat) :
    profilePart c (n + 1) = profilePart c n ++ (profileEntry c n).toList := by
  unfold profilePart
  rw [List.range_succ, List.filterMap_append]
  cases h : profileEntry c n <;> simp [h]

end Directory

/-- The profile is about the `n` bytes of the capsule. -/
theorem WellFormed.profileEntries_congr {c c' : Mem} {n : Nat} (h : WellFormed c n)
    (hc : ∀ i < n, c' i = c i) : profileEntries c' = profileEntries c := by
  obtain ⟨_, hcount, hentries⟩ := h.congr hc
  unfold profileEntries profilePart
  rw [hcount]
  refine List.filterMap_congr fun i hi => ?_
  obtain ⟨hdirent, hpayload⟩ := hentries i (List.mem_range.mp hi)
  rw [profileEntry, hdirent, hpayload]
  rfl

/-! ## The mask -/

def maskStep (seen : Nat) (e : P0Entry) : Nat := seen ||| e.kind.bit

def factsStep (facts : P0Facts) (e : P0Entry) : P0Facts :=
  match e.kind with
  | .bootIdentity =>
    { facts with
      architecture := get16 (Mem.ofList e.payload) 0
      cpuCount := get32 (Mem.ofList e.payload) 4 }
  | .memoryMap => { facts with memoryEntryCount := get32 (Mem.ofList e.payload) 0 }
  | .kernelAddress =>
    { facts with
      kernelPhysicalBase := get64 (Mem.ofList e.payload) 0
      kernelVirtualBase := get64 (Mem.ofList e.payload) 8 }
  | .devicetree => { facts with devicetree := e.payload.drop 8 }

/-- The mask after the entries. -/
def mask (es : List P0Entry) : Nat := es.foldl maskStep 0

/-- What has been told after the entries. -/
def factsOf (es : List P0Entry) : P0Facts := es.foldl factsStep ⟨0, 0, 0, 0, 0, []⟩

theorem mask_concat (es : List P0Entry) (e : P0Entry) : mask (es ++ [e]) = mask es ||| e.kind.bit := by
  rw [mask, List.foldl_append]
  rfl

theorem factsOf_concat (es : List P0Entry) (e : P0Entry) :
    factsOf (es ++ [e]) = factsStep (factsOf es) e := by
  rw [factsOf, List.foldl_append]
  rfl

/-- The mask has the bit of a kind when the kind has been met. -/
theorem mask_and_bit (es : List P0Entry) (k : P0Kind) :
    mask es &&& k.bit = 0 ↔ k ∉ es.map P0Entry.kind := by
  induction es using List.reverseRecOn with
  | nil => simp [mask]
  | append_singleton es e ih =>
    rw [mask_concat, Nat.and_or_distrib_right, Nat.or_eq_zero_iff, ih, List.map_append,
      List.mem_append, not_or]
    refine and_congr_right fun _ => ?_
    rw [List.map_singleton, List.mem_singleton]
    constructor
    · rintro h rfl
      exact P0Kind.and_bit_self _ h
    · intro h
      exact P0Kind.and_bit_of_ne (Ne.symm h)

theorem mask_lt (es : List P0Entry) : mask es < 16 := by
  induction es using List.reverseRecOn with
  | nil => decide
  | append_singleton es e ih =>
    rw [mask_concat]
    refine Nat.or_lt_two_pow (n := 4) ih ?_
    cases e.kind <;> decide

theorem four_bits :
    ∀ s < 16, s &&& 1 ≠ 0 → s &&& 2 ≠ 0 → s &&& 4 ≠ 0 → s &&& 8 ≠ 0 → s = 15 := by
  decide

/-- The mask is full when every kind has been met. -/
theorem mask_full (es : List P0Entry) : mask es = 15 ↔ ∀ k, k ∈ es.map P0Entry.kind := by
  have hmet : (∀ k, k ∈ es.map P0Entry.kind) ↔ ∀ k : P0Kind, mask es &&& k.bit ≠ 0 :=
    forall_congr' fun k => not_iff_not.mp (by rw [not_not]; exact (mask_and_bit es k).symm)
  rw [hmet]
  constructor
  · rintro h k
    rw [h]
    cases k <;> decide
  · intro h
    exact four_bits _ (mask_lt es) (h .bootIdentity) (h .memoryMap) (h .kernelAddress) (h .devicetree)

/-! ## One of each -/

/-- No kind twice, every entry as it should be. -/
structure Distinct (es : List P0Entry) : Prop where
  kinds : (es.map P0Entry.kind).Nodup
  ok : ∀ e ∈ es, e.Ok

variable {es : List P0Entry}

/-- The last entry of a part may come when its bit is free. -/
theorem distinct_concat {e : P0Entry} :
    Distinct (es ++ [e]) ↔ Distinct es ∧ mask es &&& e.kind.bit = 0 ∧ e.Ok := by
  rw [mask_and_bit]
  constructor
  · rintro ⟨hkinds, hok⟩
    rw [List.map_append, List.map_singleton, ← List.concat_eq_append, List.nodup_concat] at hkinds
    exact ⟨⟨hkinds.2, fun x hx => hok x (List.mem_append_left _ hx)⟩, hkinds.1,
      hok e (List.mem_append_right _ (List.mem_singleton_self e))⟩
  · rintro ⟨⟨hkinds, hok⟩, hfree, he⟩
    refine ⟨?_, fun x hx => ?_⟩
    · rw [List.map_append, List.map_singleton, ← List.concat_eq_append, List.nodup_concat]
      exact ⟨hfree, hkinds⟩
    · rcases List.mem_append.mp hx with h | h
      · exact hok x h
      · rw [List.mem_singleton.mp h]
        exact he

/-- What the turn at the `i`-th entry asks: nothing of a type the profile
does not know. -/
def TurnOk (c : Mem) (i : Nat) : Prop :=
  ∀ e, profileEntry c i = some e → mask (profilePart c i) &&& e.kind.bit = 0 ∧ e.Ok

theorem turns_iff (c : Mem) (n : Nat) : (∀ i < n, TurnOk c i) ↔ Distinct (profilePart c n) := by
  induction n with
  | zero =>
    refine ⟨fun _ => ⟨List.nodup_nil, (fun e he => by cases he)⟩, fun _ i hi => ?_⟩
    exact absurd hi (Nat.not_lt_zero i)
  | succ n ih =>
    rw [Nat.forall_lt_succ_right, ih, profilePart_succ, TurnOk]
    cases profileEntry c n with
    | none =>
      rw [Option.toList_none, List.append_nil]
      exact and_iff_left fun e he => by cases he
    | some e =>
      rw [Option.toList_some, distinct_concat]
      refine and_congr_right fun _ => ⟨fun h => h e rfl, ?_⟩
      rintro h _ ⟨rfl⟩
      exact h

/-- Steps for different kinds write different facts. -/
theorem factsStep_comm {d e : P0Entry} (f : P0Facts) (h : d.kind ≠ e.kind) :
    factsStep (factsStep f d) e = factsStep (factsStep f e) d := by
  unfold factsStep
  cases hd : d.kind <;> cases he : e.kind <;> first | rfl | exact absurd (hd.trans he.symm) h

/-- The facts do not depend on the order. -/
theorem factsOf_perm {es' : List P0Entry} (h : es.Perm es') (hkinds : (es.map P0Entry.kind).Nodup) :
    factsOf es = factsOf es' := by
  refine List.Perm.foldl_eq' h (fun d hd e he f => ?_) _
  by_cases heq : d = e
  · rw [heq]
  · refine factsStep_comm f fun hkind => heq ?_
    exact List.inj_on_of_nodup_map hkinds hd he hkind

/-- The four entries of a full, distinct list. -/
theorem Distinct.perm (h : Distinct es) (hfull : ∀ k, k ∈ es.map P0Entry.kind) :
    ∃ identity memory kernel tree : List UInt8,
      es.Perm [⟨.bootIdentity, 1, 0, identity⟩, ⟨.memoryMap, 1, 0, memory⟩,
        ⟨.kernelAddress, 1, 0, kernel⟩, ⟨.devicetree, 1, 0, tree⟩] := by
  have hpick : ∀ k, ∃ p, (⟨k, 1, 0, p⟩ : P0Entry) ∈ es := by
    intro k
    obtain ⟨e, he, rfl⟩ := List.mem_map.mp (hfull k)
    have hok := h.ok e he
    refine ⟨e.payload, ?_⟩
    rw [← hok.version, ← hok.flags]
    exact he
  obtain ⟨identity, hidentity⟩ := hpick .bootIdentity
  obtain ⟨memory, hmemory⟩ := hpick .memoryMap
  obtain ⟨kernel, hkernel⟩ := hpick .kernelAddress
  obtain ⟨tree, htree⟩ := hpick .devicetree
  refine ⟨identity, memory, kernel, tree, ?_⟩
  refine (List.perm_ext_iff_of_nodup h.kinds.of_map (by simp)).mpr fun e => ?_
  -- an entry is the only one of its kind
  have hsame : ∀ k p, (⟨k, 1, 0, p⟩ : P0Entry) ∈ es → e ∈ es → e.kind = k → e = ⟨k, 1, 0, p⟩ :=
    fun k p hmem he hkind => List.inj_on_of_nodup_map h.kinds he hmem hkind
  simp only [List.mem_cons, List.not_mem_nil, or_false]
  constructor
  · intro he
    cases hkind : e.kind with
    | bootIdentity => exact Or.inl (hsame _ _ hidentity he hkind)
    | memoryMap => exact Or.inr (Or.inl (hsame _ _ hmemory he hkind))
    | kernelAddress => exact Or.inr (Or.inr (Or.inl (hsame _ _ hkernel he hkind)))
    | devicetree => exact Or.inr (Or.inr (Or.inr (hsame _ _ htree he hkind)))
  · rintro (rfl | rfl | rfl | rfl)
    · exact hidentity
    · exact hmemory
    · exact hkernel
    · exact htree

/-- The mask's account of the entries is the profile. -/
theorem profile0_iff {facts : P0Facts} :
    Profile0 es facts ↔ Distinct es ∧ mask es = 15 ∧ facts = factsOf es := by
  rw [mask_full]
  constructor
  · rintro ⟨identity, memory, kernel, tree, hperm, hidentity, hmemory, hkernel, htree, rfl⟩
    have hkinds := hperm.map P0Entry.kind
    have hnodup : (es.map P0Entry.kind).Nodup := hkinds.nodup_iff.mpr (by simp)
    refine ⟨⟨hnodup, fun e he => ?_⟩, fun k => ?_, (factsOf_perm hperm hnodup).symm⟩
    · have hmem := hperm.mem_iff.mp he
      simp only [List.mem_cons, List.not_mem_nil, or_false] at hmem
      rcases hmem with rfl | rfl | rfl | rfl
      · exact ⟨rfl, rfl, hidentity⟩
      · exact ⟨rfl, rfl, hmemory⟩
      · exact ⟨rfl, rfl, hkernel⟩
      · exact ⟨rfl, rfl, htree⟩
    · rw [hkinds.mem_iff]
      cases k <;> simp
  · rintro ⟨hdistinct, hfull, rfl⟩
    obtain ⟨identity, memory, kernel, tree, hperm⟩ := hdistinct.perm hfull
    have hok : ∀ e ∈ [(⟨.bootIdentity, 1, 0, identity⟩ : P0Entry), ⟨.memoryMap, 1, 0, memory⟩,
        ⟨.kernelAddress, 1, 0, kernel⟩, ⟨.devicetree, 1, 0, tree⟩], e.Ok :=
      fun e he => hdistinct.ok e (hperm.mem_iff.mpr he)
    simp only [List.forall_mem_cons] at hok
    obtain ⟨hidentity, hmemory, hkernel, htree, _⟩ := hok
    exact ⟨identity, memory, kernel, tree, hperm, hidentity.payload, hmemory.payload,
      hkernel.payload, htree.payload, factsOf_perm hperm hdistinct.kinds⟩

end BearBoot.V2
