import BearBoot.Kernel.Walk
import BearBoot.Loader.Handoff

/-!
# The header the loader takes

`find_header` and `validate_header_contract` of `bootloader/efi_main.c`. The
search goes through the file's part of every loaded segment in steps of eight
bytes and stops at a second magic, or at one whose header does not verify:
it answers exactly where the magic stands once. The contract is a list of
comparisons and one loop, which keeps the requests it has served in a mask.
`headerAccepted_iff` puts both in terms of lists, without the mask.
-/

set_option autoImplicit false

namespace BearBoot.Loader

open Machine Kernel Import

/-! ## The code -/

/-- `struct bbp_tag_request`. -/
structure TagRequest where
  tagId : Nat
  flags : Nat
  reserved : Nat
  deriving DecidableEq, Repr

/-- The array a header points to. -/
def requests (m : Mem) (header : Nat) : List TagRequest :=
  (List.range (get32 m (header + 56))).map fun i =>
    let request := get64 m (header + 64) + 24 * i
    ⟨get64 m request, get64 m (request + 8), get64 m (request + 16)⟩

/-- `physical_range_loaded`. -/
def physicalRangeLoaded (plan : ElfPlan) (address size : Nat) : Bool :=
  if size = 0 ∨ 2 ^ 64 - 1 - size < address then false
  else plan.segments.any fun s =>
    s.physicalAddress ≤ address ∧ address + size ≤ (s.physicalAddress + s.memorySize) % 2 ^ 64

/-- The addresses of a segment at which a header is looked for. -/
def SegmentPlan.slots (s : SegmentPlan) : List Nat :=
  if s.fileSize < 160 then []
  else (List.range ((s.fileSize - 160) / 8 + 1)).map fun i => s.physicalAddress + 8 * i

/-- One turn of the inner loop of `find_header`; `none` is `return NULL`. -/
def takeCandidate (m : Mem) (found candidate : Nat) : Option Nat :=
  if m.bytes candidate 16 ≠ headerMagic then some found
  else if found ≠ 0 ∨ (verifyHeader candidate).val m ≠ .ok then none
  else some candidate

/-- `find_header`, its two loops as one; 0 is `NULL`. -/
def findHeader (m : Mem) (plan : ElfPlan) : Nat :=
  ((plan.segments.flatMap SegmentPlan.slots).foldlM (takeCandidate m) 0).getD 0

/-- The first loop of `validate_header_contract`. -/
def actualVirtualBase (plan : ElfPlan) : Nat :=
  match plan.segments.find? fun s => s.pageCount ≠ 0 ∧ s.pageBase = plan.physicalBase with
  | none => 0
  | some s => virtualPage s

/-- The bit of a tag in `seen`. -/
def tagBit (id : Nat) : Nat :=
  if id = tagHhdm then 1 else if id = tagMemoryMap then 2 else if id = tagKernelAddress then 4 else 0

/-- One turn of the loop over the requests; `none` is `return 0`. -/
def takeRequest (seen : Nat) (r : TagRequest) : Option Nat :=
  -- BBP_REQ_OPTIONAL is 1
  if r.reserved ≠ 0 ∨ r.flags &&& not64 1 ≠ 0 then none
  else if tagBit r.tagId = 0 ∧ r.flags &&& 1 = 0 then none
  else if tagBit r.tagId ≠ 0 ∧ seen &&& tagBit r.tagId ≠ 0 then none
  else some (seen ||| tagBit r.tagId)

/-- `validate_header_contract`. -/
def validateHeaderContract (m : Mem) (header : Nat) (plan : ElfPlan) : Bool :=
  -- BBP_SUPPORTED_HEADER_FLAGS is 4, BBP_PAGING_4LEVEL is 1, BBP_MAX_REQUESTS is 64
  if get64 m (header + 32) ≠ plan.entry ∨ get64 m (header + 24) &&& not64 4 ≠ 0 ∨
      get64 m (header + 40) ≠ 1 ∨ get64 m (header + 48) = 0 ∨ get64 m (header + 48) ≠ actualVirtualBase plan ∨
      get32 m (header + 60) ≠ 0 ∨ 64 < get32 m (header + 56) then false
  else if get32 m (header + 56) = 0 ∨
      physicalRangeLoaded plan (get64 m (header + 64)) (get32 m (header + 56) * 24) = false then false
  else (requests m header).foldlM takeRequest 0 = some 7

/-! ## The search -/

variable {m : Mem} {plan : ElfPlan} {header : Nat}

/-- Every place where the search meets the magic, in its order. -/
def candidates (m : Mem) (plan : ElfPlan) : List Nat :=
  (plan.segments.flatMap SegmentPlan.slots).filter fun a => m.bytes a 16 = headerMagic

theorem takeCandidates_eq (l : List Nat) (found : Nat) :
    l.foldlM (takeCandidate m) found = (l.filter fun a => m.bytes a 16 = headerMagic).foldlM (takeCandidate m) found := by
  induction l generalizing found with
  | nil => rfl
  | cons a l ih =>
    by_cases ha : m.bytes a 16 = headerMagic
    · rw [List.filter_cons_of_pos (by simpa using ha), List.foldlM_cons, List.foldlM_cons]
      exact congrArg _ (funext ih)
    · rw [List.filter_cons_of_neg (by simpa using ha), List.foldlM_cons, takeCandidate, if_pos ha]
      exact ih found

/-- A header is found where one magic stands in all the places, and its header
verifies. -/
theorem findHeader_eq_iff :
    findHeader m plan = header ∧ header ≠ 0 ↔ candidates m plan = [header] ∧ (verifyHeader header).val m = .ok := by
  have hmagic : ∀ a ∈ candidates m plan, ¬ m.bytes a 16 ≠ headerMagic := fun a ha => by
    simpa using (List.mem_filter.mp ha).2
  have hnull : ∀ {P : Prop}, ¬ P → (0 = header ∧ header ≠ 0 ↔ P) := fun hP => iff_of_false (fun h => h.2 h.1.symm) hP
  rw [findHeader, takeCandidates_eq, ← candidates]
  rcases hlist : candidates m plan with _ | ⟨a, rest⟩
  · exact hnull fun h => by cases h.1
  rw [List.foldlM_cons, takeCandidate, if_neg (hmagic a (by simp [hlist]))]
  split
  next hbad =>
    refine hnull ?_
    rintro ⟨h, hok⟩
    cases h
    exact hbad.elim (· rfl) (· hok)
  next hok =>
    simp only [not_or, not_not] at hok
    have hne := (verifyHeader_ok_iff.mp hok.2).1
    rcases rest with _ | ⟨a', rest⟩
    · constructor
      · rintro ⟨rfl, _⟩
        exact ⟨rfl, hok.2⟩
      · rintro ⟨h, _⟩
        cases h
        exact ⟨rfl, hne⟩
    · -- the second magic ends the search
      rw [Option.bind_eq_bind, Option.bind_some, List.foldlM_cons, takeCandidate,
        if_neg (hmagic a' (by simp [hlist])), if_pos (Or.inl hne)]
      exact hnull fun h => by cases h.1

/-! ## The contract -/

/-- The tags `build_handoff` makes. -/
def servedTags : List Nat := [tagHhdm, tagMemoryMap, tagKernelAddress]

/-- A request the loader can answer, or may leave unanswered. -/
structure TagRequest.Sound (r : TagRequest) : Prop where
  reserved : r.reserved = 0
  flags : r.flags ≤ 1
  served : r.tagId ∈ servedTags ∨ r.flags = 1

/-- What the loader asks of a header. -/
structure Contract (m : Mem) (header : Nat) (plan : ElfPlan) : Prop where
  entry : get64 m (header + 32) = plan.entry
  flags : get64 m (header + 24) &&& not64 4 = 0
  paging : get64 m (header + 40) = 1
  base_ne : get64 m (header + 48) ≠ 0
  base : get64 m (header + 48) = actualVirtualBase plan
  reserved : get32 m (header + 60) = 0
  count : get32 m (header + 56) ≤ 64
  loaded : ∃ s ∈ plan.segments, s.physicalAddress ≤ get64 m (header + 64) ∧
    get64 m (header + 64) + get32 m (header + 56) * 24 ≤ (s.physicalAddress + s.memorySize) % 2 ^ 64
  sound : ∀ r ∈ requests m header, r.Sound
  once : ∀ id ∈ servedTags, (requests m header).countP (·.tagId = id) = 1

theorem tagBit_eq_zero {id : Nat} : tagBit id = 0 ↔ id ∉ servedTags := by
  unfold tagBit servedTags
  split_ifs <;> simp_all

/-- The mask after a request has the request's own bit besides those it had. -/
theorem seen_or {seen a id : Nat} (hseen : seen < 8) (hid : id ∈ servedTags) :
    (seen ||| tagBit a) &&& tagBit id = 0 ↔ seen &&& tagBit id = 0 ∧ a ≠ id := by
  by_cases ha : a ∈ servedTags
  · have hall : ∀ seen < 8, ∀ a ∈ servedTags, ∀ id ∈ servedTags,
        ((seen ||| tagBit a) &&& tagBit id = 0 ↔ seen &&& tagBit id = 0 ∧ a ≠ id) := by decide
    exact hall seen hseen a ha id hid
  · rw [tagBit_eq_zero.mpr ha, Nat.or_zero]
    exact (and_iff_left (ne_of_mem_of_not_mem hid ha).symm).symm

theorem takeRequest_some_iff {r : TagRequest} {seen seen' : Nat} (hflags : r.flags < 2 ^ 64) :
    takeRequest seen r = some seen' ↔ r.Sound ∧ seen &&& tagBit r.tagId = 0 ∧ seen ||| tagBit r.tagId = seen' := by
  have hmask : r.flags &&& not64 1 = r.flags / 2 ^ 1 * 2 ^ 1 := and_not64_low hflags (show 1 ≤ 64 by decide)
  have hfree : tagBit r.tagId = 0 → seen &&& tagBit r.tagId = 0 := fun h => by rw [h, Nat.and_zero]
  have hserved : tagBit r.tagId = 0 ↔ r.tagId ∉ servedTags := tagBit_eq_zero
  unfold takeRequest
  rw [hmask, Nat.and_one_is_mod]
  constructor
  · intro h
    split_ifs at h with h₁ h₂ h₃
    rw [not_and_or, hserved, not_not] at h₂
    exact ⟨⟨by omega, by omega, h₂.imp_right (by omega)⟩, by tauto, Option.some.inj h⟩
  · rintro ⟨⟨hr, hf, hs⟩, hfree, rfl⟩
    rw [if_neg (by omega), if_neg fun hc => hs.elim (hserved.mp hc.1) (by omega), if_neg fun hc => hc.2 hfree]

/-- The loop over the requests, from any mask on. -/
theorem takeRequests_iff (rs : List TagRequest) {seen : Nat} (hseen : seen < 8) (hflags : ∀ r ∈ rs, r.flags < 2 ^ 64) :
    rs.foldlM takeRequest seen = some 7 ↔ (∀ r ∈ rs, r.Sound) ∧
      ∀ id ∈ servedTags, rs.countP (·.tagId = id) = if seen &&& tagBit id = 0 then 1 else 0 := by
  induction rs generalizing seen with
  | nil =>
    have hall : ∀ seen < 8, seen = 7 ↔ ∀ id ∈ servedTags, 0 = if seen &&& tagBit id = 0 then 1 else 0 := by decide
    simpa using hall seen hseen
  | cons r rs ih =>
    have hbit : tagBit r.tagId < 8 := by unfold tagBit; split_ifs <;> decide
    have ih := ih (Nat.or_lt_two_pow (n := 3) hseen hbit) fun r' hr' => hflags r' (List.mem_cons_of_mem _ hr')
    -- the request's own bit is the one it counts towards
    have hcount : seen &&& tagBit r.tagId = 0 → ∀ id ∈ servedTags,
        ((r :: rs).countP (·.tagId = id) = (if seen &&& tagBit id = 0 then 1 else 0) ↔
          rs.countP (·.tagId = id) = if (seen ||| tagBit r.tagId) &&& tagBit id = 0 then 1 else 0) := by
      intro hfree id hid
      by_cases hid' : r.tagId = id
      · subst hid'
        simp [seen_or hseen hid, hfree]
      · simp [seen_or hseen hid, hid']
    rw [List.foldlM_cons, Option.bind_eq_bind, Option.bind_eq_some_iff]
    simp only [takeRequest_some_iff (hflags r List.mem_cons_self), List.forall_mem_cons]
    constructor
    · rintro ⟨_, ⟨hr, hfree, rfl⟩, hrest⟩
      obtain ⟨hsound, hrest⟩ := ih.mp hrest
      exact ⟨⟨hr, hsound⟩, fun id hid => (hcount hfree id hid).mpr (hrest id hid)⟩
    · rintro ⟨⟨hr, hsound⟩, hrest⟩
      have hfree : seen &&& tagBit r.tagId = 0 := by
        by_cases hid : r.tagId ∈ servedTags
        · have := hrest _ hid
          by_contra hno
          rw [List.countP_cons_of_pos (by simp), if_neg hno] at this
          cases this
        · rw [tagBit_eq_zero.mpr hid, Nat.and_zero]
      exact ⟨_, ⟨hr, hfree, rfl⟩, ih.mpr ⟨hsound, fun id hid => (hcount hfree id hid).mp (hrest id hid)⟩⟩

theorem physicalRangeLoaded_iff {address size : Nat} :
    physicalRangeLoaded plan address size = true ↔ size ≠ 0 ∧ ∃ s ∈ plan.segments,
      s.physicalAddress ≤ address ∧ address + size ≤ (s.physicalAddress + s.memorySize) % 2 ^ 64 := by
  unfold physicalRangeLoaded
  split
  next hbad =>
    refine ⟨(fun h => by cases h), ?_⟩
    rintro ⟨hsize, s, _, _, hle⟩
    have := Nat.mod_lt (s.physicalAddress + s.memorySize) (show 0 < 2 ^ 64 by decide)
    omega
  next hgood =>
    rw [and_iff_right fun hzero => hgood (Or.inl hzero)]
    simp only [List.any_eq_true, decide_eq_true_eq]

theorem validateHeaderContract_iff : validateHeaderContract m header plan = true ↔ Contract m header plan := by
  have hloop := takeRequests_iff (requests m header) (show 0 < 8 by decide) fun r hr => by
    obtain ⟨i, _, rfl⟩ := List.mem_map.mp hr
    exact get64_lt m _
  simp only [Nat.zero_and, if_true] at hloop
  unfold validateHeaderContract
  constructor
  · intro h
    split_ifs at h with h₁ h₂
    simp only [not_or, not_not, Nat.not_lt] at h₁
    rw [not_or, Bool.not_eq_false, physicalRangeLoaded_iff] at h₂
    obtain ⟨hentry, hflag, hpaging, hne, hbase, hreserved, hcount⟩ := h₁
    obtain ⟨hsound, honce⟩ := hloop.mp (of_decide_eq_true h)
    exact ⟨hentry, hflag, hpaging, hne, hbase, hreserved, hcount, h₂.2.2, hsound, honce⟩
  · rintro ⟨hentry, hflag, hpaging, hne, hbase, hreserved, hcount, hin, hsound, honce⟩
    have hsome : get32 m (header + 56) ≠ 0 := by
      intro hzero
      have := honce tagHhdm List.mem_cons_self
      rw [requests, hzero] at this
      cases this
    rw [if_neg, if_neg, decide_eq_true_iff, hloop]
    · exact ⟨hsound, honce⟩
    · rw [not_or, Bool.not_eq_false, physicalRangeLoaded_iff]
      exact ⟨hsome, by omega, hin⟩
    · simp only [not_or, not_not, Nat.not_lt]
      exact ⟨hentry, hflag, hpaging, hne, hbase, hreserved, hcount⟩

/-- The loader goes on with exactly the kernels that have one header in all
the places, which verifies and keeps the contract: every request is for a
tag the loader makes or is optional, and each of those tags is asked for
once. -/
theorem headerAccepted_iff :
    findHeader m plan ≠ 0 ∧ validateHeaderContract m (findHeader m plan) plan = true ↔
      ∃ header, candidates m plan = [header] ∧ (verifyHeader header).val m = .ok ∧ Contract m header plan := by
  constructor
  · rintro ⟨hne, hcontract⟩
    obtain ⟨honly, hok⟩ := findHeader_eq_iff.mp ⟨rfl, hne⟩
    exact ⟨_, honly, hok, validateHeaderContract_iff.mp hcontract⟩
  · rintro ⟨header, honly, hok, hcontract⟩
    obtain ⟨rfl, hne⟩ := findHeader_eq_iff.mpr ⟨honly, hok⟩
    exact ⟨hne, validateHeaderContract_iff.mpr hcontract⟩

end BearBoot.Loader
