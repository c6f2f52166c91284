import BearBoot.Loader.Discipline
import BearBoot.Loader.Main

/-!
# The loader gives back what it claimed

Ownership moves through seven functions: the file's buffer from
`read_kernel` to `efi_main`, which lets go of it midway, the segments' pages
from `load_segments` to `cleanup`, the map buffers through two retry loops.
Here is what each of them holds, for every firmware whose allocators do not
hand out the null address and whose `GetMemoryMap` succeeds only into a
buffer (`BootServices.Sound`).

The blocks are the pool buffers and page ranges with the sizes they were
asked for (`Block`). Each function has one triple, over any other blocks
that may be held meanwhile: it leaves those alone, and leaves its own block
exactly where its status says so. For `efi_main` that comes to nothing held
wherever it returns.

What the program goes by is not always what it was given: a pool pointer
that a refused call left set is freed like one that was granted. So the
triples count every pool pointer that is set (`pointers`), and the two ways
of counting are one exactly for the runs in which no refused call left a
pointer (`holds_iff_of_pointers`): every pointer that was left is freed once
too often, as in `refused_pool_freed`.

`load_segments` is here without its stores. It makes the calls and returns
the status of the function with them, for answers the firmware gives in
this run (`loadSegments_agrees`).
-/

set_option autoImplicit false

namespace BearBoot.Loader.Efi

open Machine

variable {status : Nat}

/-! ## The ledger -/

/-- What the firmware hands out: a pool buffer of `size` bytes, or `pages`
pages. -/
inductive Block where
  | pool (address size : Nat)
  | pages (physical pages : Nat)
  deriving DecidableEq, Repr

/-- The block a call obtains, where `granted` tells which answers of
`AllocatePool` count. -/
def Call.Obtains (granted : PageAnswer → Prop) : Call → Block → Prop
  | .allocatePool size answer, b => granted answer ∧ b = .pool answer.physical size
  | .allocatePages _ _ pages answer, b => answer.status = efiSuccess ∧ b = .pages answer.physical pages
  | .exit (.allocate size address), b => address ≠ 0 ∧ b = .pool address size
  | _, _ => False

/-- The blocks a call can give back: a pool buffer by its address, pages by
their address and number. -/
def Call.Releases : Call → Block → Prop
  | .freePool address, b => ∃ size, b = .pool address size
  | .freePages physical pages, b => b = .pages physical pages
  | .exit (.free address), b => ∃ size, b = .pool address size
  | _, _ => False

/-- The loader's ledger. -/
def ledger : Ledger Call Block := ⟨Call.Obtains fun answer => answer.status = efiSuccess, Call.Releases⟩

/-- The ledger of the pointers, where one that is left set counts as well. -/
def pointers : Ledger Call Block :=
  ⟨Call.Obtains fun answer => answer.status = efiSuccess ∨ answer.physical ≠ 0, Call.Releases⟩

/-- The call is no `AllocatePool` that was refused and left a pointer. -/
def Call.leavesNull : Call → Bool
  | .allocatePool _ answer => answer.status = efiSuccess || answer.physical = 0
  | _ => true

theorem pointers_step {held left : Multiset Block} {call : Call} (h : pointers.Step held call left)
    (hnull : call.leavesNull = true) : ledger.Step held call left := by
  cases h with
  | obtain h =>
    cases call with
    | allocatePool size answer =>
      simp only [Call.leavesNull, Bool.or_eq_true, decide_eq_true_eq] at hnull
      exact .obtain ⟨h.1.elim id fun hset => hnull.resolve_right hset, h.2⟩
    | exit inner => cases inner <;> exact .obtain h
    | _ => exact .obtain h
  | release h => exact .release h
  | neither hobtains hreleases =>
    refine .neither (fun b hb => hobtains b ?_) hreleases
    cases call with
    | allocatePool size answer => exact ⟨Or.inl hb.1, hb.2⟩
    | exit inner => cases inner <;> exact hb
    | _ => exact hb

theorem Call.Obtains.keeps {granted : PageAnswer → Prop} {call : Call} (b b' : Block)
    (h : call.Obtains granted b) : ¬ call.Releases b' := by
  cases call with
  | exit inner => cases inner <;> first | exact id | cases h
  | allocatePool _ _ => exact id
  | allocatePages _ _ _ _ => exact id
  | _ => cases h

/-- A pointer that was left counts with the pointers, and with nothing else. -/
theorem step_card {held held' left left' : Multiset Block} {call : Call}
    (hp : pointers.Step held call held') (hl : ledger.Step left call left') :
    held'.card + left.card = held.card + left'.card + [call].countP (!·.leavesNull) := by
  cases hnull : call.leavesNull with
  | true =>
    rw [List.countP_singleton, hnull]
    exact (pointers_step hp hnull).card Call.Obtains.keeps hl
  | false =>
    cases call with
    | allocatePool size answer =>
      rw [List.countP_singleton, hnull]
      simp only [Call.leavesNull, Bool.or_eq_false_iff, decide_eq_false_iff_not] at hnull
      cases hl with
      | obtain h => exact absurd h.1 hnull.1
      | release h => cases h
      | neither _ _ =>
        cases hp with
        | obtain _ => rw [Multiset.card_cons]; simp; omega
        | release h => cases h
        | neither hno _ => exact absurd ⟨Or.inr hnull.2, rfl⟩ (hno (.pool answer.physical size))
    | _ => cases hnull

theorem holds_card {calls : List Call} {held : Multiset Block} (h : pointers.Holds calls held) :
    ∀ left, ledger.Holds calls left → held.card = left.card + calls.countP (!·.leavesNull) := by
  refine Accepts.invariant (I := fun calls held => ∀ left, ledger.Holds calls left →
    held.card = left.card + calls.countP (!·.leavesNull)) (fun left hl => by rw [hl.eq_of_nil]; rfl) ?_ h
  intro calls held call held' ih hstep left' hl
  obtain ⟨left, _, hfront, hlast, hend⟩ := hl.split
  obtain rfl := hend.eq_of_nil
  have := ih left hfront
  have := step_card hstep hlast
  rw [List.countP_append]
  omega

/-- The pointers are the blocks exactly where no refused call left one. -/
theorem holds_iff_of_pointers {calls : List Call} (h : pointers.Holds calls 0) :
    ledger.Holds calls 0 ↔ ∀ call ∈ calls, call.leavesNull = true := by
  constructor
  · intro hl call hcall
    have hcount := holds_card h 0 hl
    rw [left_eq_add, List.countP_eq_zero] at hcount
    have hleft := hcount call hcall
    rwa [Bool.not_eq_true', Bool.not_eq_false] at hleft
  · refine Accepts.invariant
      (I := fun calls held => (∀ call ∈ calls, call.leavesNull = true) → ledger.Holds calls held)
      (fun _ => .nil) ?_ h
    intro calls held call left ih hstep hnull
    exact (ih fun c hc => hnull c (List.mem_append_left _ hc)).snoc
      (pointers_step hstep (hnull call (List.mem_append_right _ List.mem_cons_self)))

/-- What is assumed of the firmware. -/
structure BootServices.Sound (boot : BootServices) : Prop where
  pool : ∀ calls size, (boot.allocatePool calls size).status = efiSuccess →
    (boot.allocatePool calls size).physical ≠ 0
  pages : ∀ calls type physical pages,
    (boot.allocatePages calls type physical pages).status = efiSuccess →
      (boot.allocatePages calls type physical pages).physical ≠ 0
  map : ∀ calls memoryMap mapSize,
    (boot.getMemoryMap calls memoryMap mapSize).status = .success → memoryMap ≠ 0

/-! ## Single calls -/

variable {boot : BootServices} {P : Multiset Block}

/-- A call that neither obtains nor gives back. -/
theorem silent {ρ : Type} {answer : List Call → ρ} {record : ρ → Call}
    (h : ∀ r b, ¬ pointers.obtains (record r) b ∧ ¬ (record r).Releases b) :
    Owns pointers P (.ask answer record) fun _ left => left = P :=
  .ask fun _ => ⟨P, rfl, .neither (fun b => (h _ b).1) fun b => (h _ b).2⟩

/-- What `AllocatePages` leaves: the block, at an address that is set, or
nothing. -/
def Granted (block : Nat → Block) (held : Multiset Block) (answer : PageAnswer)
    (left : Multiset Block) : Prop :=
  if answer.status = efiSuccess then answer.physical ≠ 0 ∧ left = block answer.physical ::ₘ held
  else left = held

theorem allocatePages_owns (hs : boot.Sound) (type : AllocateType) (physical pages : Nat) :
    Owns pointers P (allocatePages boot type physical pages) (Granted (.pages · pages) P) := by
  refine .ask fun calls => ?_
  have hset := hs.pages calls type physical pages
  generalize boot.allocatePages calls type physical pages = answer at hset ⊢
  by_cases h : answer.status = efiSuccess
  · refine ⟨.pages answer.physical pages ::ₘ P, ?_, .obtain ⟨h, rfl⟩⟩
    rw [Granted, if_pos h]
    exact ⟨hset h, rfl⟩
  · refine ⟨P, ?_, .neither (fun b hb => h hb.1) fun _ => id⟩
    rw [Granted, if_neg h]

/-- The block behind an address, if the address is set. -/
def ifSet (p : Nat) (b : Block) (held : Multiset Block) : Multiset Block :=
  if p ≠ 0 then b ::ₘ held else held

@[simp]
theorem ifSet_zero (b : Block) : ifSet 0 b P = P := if_neg (fun h => h rfl)

theorem ifSet_set {p : Nat} (hp : p ≠ 0) (b : Block) : ifSet p b P = b ::ₘ P := if_pos hp

theorem ifSet_cons (p : Nat) (b c : Block) : ifSet p b (c ::ₘ P) = c ::ₘ ifSet p b P := by
  unfold ifSet
  split
  · exact Multiset.cons_swap b c P
  · rfl

/-- What `AllocatePool` leaves: the pointer, whatever its status. -/
theorem allocatePool_owns (hs : boot.Sound) (size : Nat) :
    Owns pointers P (allocatePool boot size) fun answer left =>
      left = ifSet answer.physical (.pool answer.physical size) P ∧
        (answer.status = efiSuccess → answer.physical ≠ 0) := by
  refine .ask fun calls => ?_
  have hset := hs.pool calls size
  generalize boot.allocatePool calls size = answer at hset ⊢
  refine ⟨_, ⟨rfl, hset⟩, ?_⟩
  by_cases h : answer.physical = 0
  · rw [h, ifSet_zero]
    exact .neither (fun b hb => hb.1.elim (fun hok => hset hok h) fun hne => hne h) fun _ => id
  · rw [ifSet_set h]
    exact .obtain ⟨Or.inr h, rfl⟩

theorem freePool_owns (address size : Nat) :
    Owns pointers (.pool address size ::ₘ P) (freePool address) fun _ left => left = P :=
  .ask fun _ => ⟨P, rfl, .release ⟨size, rfl⟩⟩

theorem freePages_owns (physical pages : Nat) :
    Owns pointers (.pages physical pages ::ₘ P) (freePages physical pages) fun _ left => left = P :=
  .ask fun _ => ⟨P, rfl, .release rfl⟩

theorem freePoolSet_owns (p size : Nat) :
    Owns pointers (ifSet p (.pool p size) P) (freePoolSet p) fun _ left => left = P := by
  unfold freePoolSet
  refine .ite (fun hp => ?_) fun hp => ?_
  · rw [ifSet_set hp]
    exact freePool_owns p size
  · rw [not_not.mp hp, ifSet_zero]
    exact .pure rfl

theorem freePagesSet_owns (p pages : Nat) :
    Owns pointers (ifSet p (.pages p pages) P) (freePagesSet p pages) fun _ left => left = P := by
  unfold freePagesSet
  refine .ite (fun hp => ?_) fun hp => ?_
  · rw [ifSet_set hp]
    exact freePages_owns p pages
  · rw [not_not.mp hp, ifSet_zero]
    exact .pure rfl

/-- After an allocation: it was refused and the function leaves, or the block
is held and it goes on. -/
theorem Granted.branch {α : Type} {block : Nat → Block} {answer : PageAnswer} {left : Multiset Block}
    {x y : Prog α} {post : α → Multiset Block → Prop} (h : Granted block P answer left)
    (hx : answer.status ≠ efiSuccess → Owns pointers P x post)
    (hy : answer.physical ≠ 0 → Owns pointers (block answer.physical ::ₘ P) y post) :
    Owns pointers left (if answer.status ≠ efiSuccess then x else y) post := by
  unfold Granted at h
  refine .ite (fun hs => ?_) fun hs => ?_
  · rw [if_neg hs] at h
    exact h ▸ hx hs
  · rw [if_pos (not_not.mp hs)] at h
    exact h.2 ▸ hy h.1

/-! ## `read_kernel` -/

/-- What `read_kernel` leaves: the buffer of the file it has read, or
nothing. -/
def Kept (held : Multiset Block) (file : KernelFile) (left : Multiset Block) : Prop :=
  if file.status = efiSuccess then file.bytes ≠ 0 ∧ left = .pool file.bytes file.size ::ₘ held
  else left = held

theorem kept_failed {file : KernelFile} (h : file.status ≠ efiSuccess) : Kept P file P := by
  rw [Kept, if_neg h]

theorem leaveRead_owns (info infoSize buffer size : Nat) (opened : Bool) (answer : KernelFile) :
    Owns pointers (ifSet info (.pool info infoSize) (ifSet buffer (.pool buffer size) P))
      (leaveRead info opened buffer answer) fun a left => a = answer ∧ left = P := by
  have hclose : ∀ P, Owns pointers P close fun _ left => left = P :=
    fun _ => silent fun _ _ => ⟨id, id⟩
  unfold leaveRead
  refine (freePoolSet_owns info infoSize).seq (.seq (.ite (fun _ => hclose _) fun _ => .pure rfl) ?_)
  exact (hclose _).seq ((freePoolSet_owns buffer size).seq (.pure ⟨rfl, rfl⟩))

/-- A failure gives back the two buffers, as far as they are there. -/
theorem leaveRead_failed (info infoSize buffer size : Nat) (opened : Bool) (h : status ≠ efiSuccess) :
    Owns pointers (ifSet info (.pool info infoSize) (ifSet buffer (.pool buffer size) P))
      (leaveRead info opened buffer ⟨status, 0, 0⟩) (Kept P) :=
  (leaveRead_owns info infoSize buffer size opened _).weaken fun _ _ hleft =>
    hleft.1 ▸ hleft.2 ▸ kept_failed h

theorem readLoop_owns (buffer size fuel done : Nat) :
    Owns pointers P (readLoop boot buffer size fuel done) fun _ left => left = P := by
  induction fuel generalizing done with
  | zero => exact .never
  | succ fuel ih =>
    unfold readLoop
    refine .ite (fun _ => .bind (silent fun _ _ => ⟨id, id⟩) ?_) fun _ => .pure rfl
    rintro answer _ rfl
    exact .ite (fun _ => .pure rfl) fun _ => ih _

theorem readContents_owns (hs : boot.Sound) (fuel info infoSize : Nat) (hinfo : info ≠ 0) :
    Owns pointers (.pool info infoSize ::ₘ P) (readContents boot fuel info infoSize) (Kept P) := by
  have hleave : ∀ {status : Nat}, status ≠ efiSuccess → Owns pointers (.pool info infoSize ::ₘ P)
      (leaveRead info true 0 ⟨status, 0, 0⟩) (Kept P) := by
    intro status hstatus
    have h := leaveRead_failed (P := P) info infoSize 0 0 true hstatus
    rwa [ifSet_zero, ifSet_set hinfo] at h
  unfold readContents
  refine .bind (silent fun _ _ => ⟨id, id⟩) ?_
  rintro answer _ rfl
  refine .ite (fun _ => hleave efiLoadError_ne) fun _ => .bind (allocatePool_owns hs _) ?_
  rintro buffer _ ⟨rfl, hset⟩
  have hfailed : ∀ {status : Nat}, status ≠ efiSuccess →
      Owns pointers (ifSet buffer.physical (.pool buffer.physical answer.fileSize) (.pool info infoSize ::ₘ P))
        (leaveRead info true buffer.physical ⟨status, 0, 0⟩) (Kept P) := by
    intro status hstatus
    rw [ifSet_cons, ← ifSet_set hinfo]
    exact leaveRead_failed info infoSize buffer.physical answer.fileSize true hstatus
  refine .ite hfailed fun hok => .bind (readLoop_owns _ _ _ _) ?_
  rintro status _ rfl
  have hset := hset (not_not.mp hok)
  refine .ite hfailed fun hstatus => ?_
  rw [ifSet_set hset, Multiset.cons_swap]
  have h := leaveRead_owns (P := .pool buffer.physical answer.fileSize ::ₘ P) info infoSize 0 0 true
    ⟨status, buffer.physical, answer.fileSize⟩
  rw [ifSet_zero, ifSet_set hinfo] at h
  refine h.weaken fun a left hleft => ?_
  rw [hleft.1, hleft.2, Kept, if_pos (not_not.mp hstatus)]
  exact ⟨hset, rfl⟩

theorem readFile_owns (hs : boot.Sound) (fuel : Nat) : Owns pointers P (readFile boot fuel) (Kept P) := by
  have hleave : ∀ (opened : Bool) {status : Nat}, status ≠ efiSuccess →
      Owns pointers P (leaveRead 0 opened 0 ⟨status, 0, 0⟩) (Kept P) := by
    intro opened status hstatus
    have h := leaveRead_failed (P := P) 0 0 0 0 opened hstatus
    rwa [ifSet_zero, ifSet_zero] at h
  unfold readFile
  refine .bind (silent fun _ _ => ⟨id, id⟩) ?_
  intro file left hleft
  rw [hleft]
  refine .ite (hleave _) fun _ => .bind (silent fun _ _ => ⟨id, id⟩) ?_
  intro answer left hleft
  rw [hleft]
  refine .ite (fun _ => hleave true efiLoadError_ne) fun _ => .bind (allocatePool_owns hs _) ?_
  rintro info _ ⟨rfl, hset⟩
  refine .ite (fun hstatus => ?_) fun hok => ?_
  · have h := leaveRead_failed (P := P) info.physical answer.infoSize 0 0 true hstatus
    rwa [ifSet_zero] at h
  · have hset := hset (not_not.mp hok)
    rw [ifSet_set hset]
    exact readContents_owns hs fuel _ _ hset

theorem readKernel_owns (hs : boot.Sound) (fuel : Nat) :
    Owns pointers P (readKernel boot fuel) (Kept P) := by
  unfold readKernel
  refine .bind (silent fun _ _ => ⟨id, id⟩) ?_
  rintro status _ rfl
  refine .ite (fun h => .pure (kept_failed h)) fun _ => .bind (silent fun _ _ => ⟨id, id⟩) ?_
  rintro status _ rfl
  refine .ite (fun h => .pure (kept_failed h)) fun _ => .bind (silent fun _ _ => ⟨id, id⟩) ?_
  rintro status _ rfl
  exact .ite (fun h => .pure (kept_failed h)) fun _ => readFile_owns hs fuel

/-! ## The segments -/

/-- The pages of the segments. -/
def segmentBlocks (segs : List SegmentPlan) : Multiset Block :=
  Multiset.ofList ((segs.filter (·.pageCount ≠ 0)).map fun seg => .pages seg.pageBase seg.pageCount)

theorem segmentBlocks_nil : segmentBlocks [] = 0 := rfl

theorem segmentBlocks_empty {seg : SegmentPlan} (h : seg.pageCount = 0) (segs : List SegmentPlan) :
    segmentBlocks (seg :: segs) = segmentBlocks segs := by
  simp [segmentBlocks, h]

theorem segmentBlocks_cons {seg : SegmentPlan} (h : seg.pageCount ≠ 0) (segs : List SegmentPlan) :
    segmentBlocks (seg :: segs) = .pages seg.pageBase seg.pageCount ::ₘ segmentBlocks segs := by
  simp [segmentBlocks, h]

theorem segmentBlocks_append (segs segs' : List SegmentPlan) :
    segmentBlocks (segs ++ segs') = segmentBlocks segs + segmentBlocks segs' := by
  simp [segmentBlocks]

theorem segmentBlocks_reverse (segs : List SegmentPlan) :
    segmentBlocks segs.reverse = segmentBlocks segs := by
  unfold segmentBlocks
  rw [List.filter_reverse, List.map_reverse, Multiset.coe_reverse]

theorem freeSegments_owns (segs : List SegmentPlan) :
    Owns pointers (segmentBlocks segs + P) (freeSegments segs) fun _ left => left = P := by
  induction segs with
  | nil => exact .pure (Multiset.zero_add P)
  | cons seg segs ih =>
    unfold freeSegments
    refine .seq (.ite (fun hcount => ?_) fun hcount => .pure ?_) ih
    · rw [segmentBlocks_cons hcount, Multiset.cons_add]
      exact freePages_owns _ _
    · rw [segmentBlocks_empty (not_not.mp hcount)]

/-- What `load_segments` leaves: the pages of all segments, or nothing. -/
def Loaded (segs : List SegmentPlan) (held : Multiset Block) (status : Nat) (left : Multiset Block) :
    Prop :=
  if status = efiSuccess then left = segmentBlocks segs + held else left = held

theorem leaveLoad_owns (done segs : List SegmentPlan) (h : status ≠ efiSuccess) :
    Owns pointers (segmentBlocks done + P) (leaveLoad done status) (Loaded segs P) := by
  rw [← segmentBlocks_reverse]
  refine (freeSegments_owns done.reverse).seq (.pure ?_)
  rw [Loaded, if_neg h]

/-- The pages held are those of the segments behind the loop. -/
theorem loadLoop_owns (hs : boot.Sound) (done segs : List SegmentPlan) :
    Owns pointers (segmentBlocks done + P) (loadLoop boot done segs) (Loaded (done ++ segs) P) := by
  induction segs generalizing done with
  | nil =>
    refine .pure ?_
    rw [Loaded, if_pos rfl, List.append_nil]
  | cons seg segs ih =>
    have hnext := ih (done ++ [seg])
    rw [List.append_assoc, List.singleton_append, segmentBlocks_append, Multiset.add_assoc] at hnext
    unfold loadLoop
    refine .ite (fun hcount => ?_) fun hcount =>
      .ite (fun _ => leaveLoad_owns _ _ efiLoadError_ne) fun _ => ?_
    · rw [segmentBlocks_empty hcount, segmentBlocks_nil, Multiset.zero_add] at hnext
      exact hnext
    · refine .bind (allocatePages_owns hs _ _ _) fun answer left hgranted => ?_
      refine hgranted.branch (fun h => leaveLoad_owns _ _ h) fun _ => .ite (fun _ => ?_) fun hplace => ?_
      · exact (freePages_owns _ _).seq (leaveLoad_owns _ _ efiLoadError_ne)
      · rw [segmentBlocks_cons hcount, segmentBlocks_nil, ← not_not.mp hplace, Multiset.cons_add,
          Multiset.zero_add, Multiset.add_cons] at hnext
        exact hnext

/-! ### Its calls -/

/-- The allocations of segments that were placed. -/
def claimCalls (segs : List SegmentPlan) : List Call :=
  (segs.filter (·.pageCount ≠ 0)).map fun seg =>
    .allocatePages .address seg.pageBase seg.pageCount ⟨efiSuccess, seg.pageBase⟩

/-- The pages of the segments, given back one by one. -/
def releaseCalls (segs : List SegmentPlan) : List Call :=
  (segs.filter (·.pageCount ≠ 0)).map fun seg => .freePages seg.pageBase seg.pageCount

/-- The calls for the segment that could not be loaded: none where its range
is refused, the allocation that was refused, or the one that was placed
elsewhere with its release. -/
inductive Attempt (seg : SegmentPlan) : List Call → Prop
  | outside (h : seg.pageBase = 0 ∨ identityLimit < seg.pageBase + seg.pageCount * pageSize) :
      Attempt seg []
  | refused {answer : PageAnswer} (h : answer.status ≠ efiSuccess) :
      Attempt seg [.allocatePages .address seg.pageBase seg.pageCount answer]
  | misplaced {answer : PageAnswer} (h : answer.status = efiSuccess)
      (hplace : answer.physical ≠ seg.pageBase) :
      Attempt seg [.allocatePages .address seg.pageBase seg.pageCount answer,
        .freePages answer.physical seg.pageCount]

theorem freeSegments_run (segs : List SegmentPlan) (calls : List Call) :
    freeSegments segs calls = some ((), calls ++ releaseCalls segs) := by
  induction segs generalizing calls with
  | nil => exact congrArg (fun calls => some ((), calls)) (List.append_nil calls).symm
  | cons seg segs ih =>
    unfold freeSegments freeSegment releaseCalls
    by_cases hcount : seg.pageCount = 0
    · rw [if_neg (not_not.mpr hcount), List.filter_cons_of_neg (by simp [hcount])]
      exact ih calls
    · rw [if_pos hcount, List.filter_cons_of_pos (by simp [hcount]), List.map_cons, List.append_cons]
      exact ih _

theorem leaveLoad_run (done : List SegmentPlan) (status : Nat) (calls : List Call) :
    leaveLoad done status calls = some (status, calls ++ releaseCalls done.reverse) := by
  have h := freeSegments_run done.reverse calls
  change (freeSegments done.reverse calls).bind (fun r => some (status, r.2)) = _
  rw [h, Option.bind_some]

/-- The calls of a loop with `done` behind it that fails at one of `segs`:
those before it were placed, and with `done` they are given back, the newest
first. -/
def FailedAt (done segs : List SegmentPlan) (calls calls' : List Call) : Prop :=
  ∃ placed seg rest attempt, segs = placed ++ seg :: rest ∧ seg.pageCount ≠ 0 ∧ Attempt seg attempt ∧
    calls' = calls ++ claimCalls placed ++ attempt ++ releaseCalls (done ++ placed).reverse

section FailedAt

variable {done segs : List SegmentPlan} {seg : SegmentPlan} {calls calls' : List Call} {status : Nat}

theorem FailedAt.here {attempt : List Call} {failure : Nat} (hcount : seg.pageCount ≠ 0)
    (hattempt : Attempt seg attempt)
    (h : leaveLoad done failure (calls ++ attempt) = some (status, calls')) :
    FailedAt done (seg :: segs) calls calls' := by
  rw [leaveLoad_run] at h
  cases h
  exact ⟨[], seg, segs, attempt, rfl, hcount, hattempt, by simp [claimCalls]⟩

theorem FailedAt.next (h : FailedAt (done ++ [seg]) segs (calls ++ claimCalls [seg]) calls') :
    FailedAt done (seg :: segs) calls calls' := by
  obtain ⟨placed, seg', rest, attempt, hsegs, hcount, hattempt, hcalls⟩ := h
  have hclaims : claimCalls [seg] ++ claimCalls placed = claimCalls (seg :: placed) := by
    unfold claimCalls
    rw [← List.map_append, ← List.filter_append, List.singleton_append]
  refine ⟨seg :: placed, seg', rest, attempt, by rw [hsegs, List.cons_append], hcount, hattempt, ?_⟩
  rw [hcalls, List.append_assoc done, List.singleton_append, List.append_assoc calls, hclaims]

/-- A loop that fails has placed the segments before the one it fails at. -/
theorem loadLoop_failed (hrun : loadLoop boot done segs calls = some (status, calls'))
    (hstatus : status ≠ efiSuccess) : FailedAt done segs calls calls' := by
  induction segs generalizing done calls with
  | nil =>
    cases hrun
    exact absurd rfl hstatus
  | cons seg segs ih =>
    unfold loadLoop at hrun
    split at hrun
    next hcount =>
      refine .next (ih ?_)
      rwa [show claimCalls [seg] = [] by simp [claimCalls, hcount], List.append_nil]
    next hcount =>
      split at hrun
      next hrange => exact .here hcount (.outside hrange) (by rwa [List.append_nil])
      next =>
        rw [allocatePages, Caller.ask_bind] at hrun
        generalize boot.allocatePages calls .address seg.pageBase seg.pageCount = answer at hrun
        split at hrun
        next hrefused => exact .here hcount (.refused hrefused) hrun
        next hgranted =>
          split at hrun
          next hplace =>
            rw [freePages, Caller.ask_bind, List.append_assoc] at hrun
            exact .here hcount (.misplaced (not_not.mp hgranted) hplace) hrun
          next hplace =>
            obtain ⟨answerStatus, physical⟩ := answer
            obtain rfl := not_not.mp hgranted
            obtain rfl := not_not.mp hplace
            refine .next (ih ?_)
            rwa [show claimCalls [seg] = [.allocatePages .address seg.pageBase seg.pageCount
              ⟨efiSuccess, seg.pageBase⟩] by simp [claimCalls, hcount]]

end FailedAt

/-! ### The function with its stores -/

/-- A call, as the page allocator sees it. -/
def Call.pageCall : Call → Option PageCall
  | .allocatePages _ physical pages _ => some (.allocatePages physical pages)
  | .freePages physical pages => some (.freePages physical pages)
  | _ => none

/-- The answer to the allocation of each segment, if it comes to that. -/
def answersOn (boot : BootServices) : List Call → List SegmentPlan → Nat → PageAnswer
  | _, [], _ => ⟨efiLoadError, 0⟩
  | calls, seg :: _, 0 => boot.allocatePages calls .address seg.pageBase seg.pageCount
  | calls, seg :: segs, i + 1 =>
    answersOn boot (if seg.pageCount = 0 then calls
      else calls ++ [.allocatePages .address seg.pageBase seg.pageCount
        (boot.allocatePages calls .address seg.pageBase seg.pageCount)]) segs i

theorem pageCalls_release (segs : List SegmentPlan) :
    (releaseCalls segs.reverse).filterMap Call.pageCall = Loader.releaseCalls segs := by
  unfold releaseCalls Loader.releaseCalls
  rw [List.filterMap_map]
  exact congrFun List.filterMap_eq_map _

variable {calls : List Call}

theorem loadLoop_agrees {answers : Nat → PageAnswer} {done segs : List SegmentPlan}
    (h : ∀ i, answers (done.length + i) = answersOn boot calls segs i) (image : Nat) (st : Loading) :
    ∃ new, loadLoop boot done segs calls =
        some ((Loader.loadLoop answers image done st segs).1, calls ++ new) ∧
      (Loader.loadLoop answers image done st segs).2.calls = st.calls ++ new.filterMap Call.pageCall := by
  induction segs generalizing done calls st with
  | nil => exact ⟨[], by rw [List.append_nil]; rfl, (List.append_nil _).symm⟩
  | cons seg segs ih =>
    have hnext : ∀ i, answers ((done ++ [seg]).length + i) =
        answersOn boot calls (seg :: segs) (i + 1) := by
      intro i
      rw [← h (i + 1), List.length_append, List.length_singleton, Nat.add_assoc, Nat.add_comm 1]
    have hanswer : answers done.length = boot.allocatePages calls .address seg.pageBase seg.pageCount := h 0
    unfold loadLoop Loader.loadLoop
    by_cases hcount : seg.pageCount = 0
    · simp only [if_pos hcount]
      exact ih (fun i => (hnext i).trans (by rw [answersOn, if_pos hcount])) st
    have hnext' := fun i => (hnext i).trans (by rw [answersOn, if_neg hcount])
    simp only [if_neg hcount, hanswer]
    by_cases hrange : seg.pageBase = 0 ∨ identityLimit < seg.pageBase + seg.pageCount * pageSize
    · simp only [if_pos hrange]
      exact ⟨releaseCalls done.reverse, leaveLoad_run _ _ _, by rw [pageCalls_release]⟩
    simp only [if_neg hrange]
    rw [allocatePages, Caller.ask_bind]
    generalize boot.allocatePages calls .address seg.pageBase seg.pageCount = answer at hnext' ⊢
    by_cases hs : answer.status ≠ efiSuccess
    · simp only [if_pos hs]
      refine ⟨.allocatePages .address seg.pageBase seg.pageCount answer ::
        releaseCalls done.reverse, ?_, ?_⟩
      · rw [leaveLoad_run, ← List.append_cons]
      · simp only [List.filterMap_cons, Call.pageCall, pageCalls_release, ← List.append_cons]
    simp only [if_neg hs]
    by_cases hplace : answer.physical ≠ seg.pageBase
    · simp only [if_pos hplace]
      refine ⟨.allocatePages .address seg.pageBase seg.pageCount answer ::
        .freePages answer.physical seg.pageCount :: releaseCalls done.reverse, ?_, ?_⟩
      · rw [freePages, Caller.ask_bind, leaveLoad_run, ← List.append_cons, ← List.append_cons]
      · simp only [List.filterMap_cons, Call.pageCall, pageCalls_release, ← List.append_cons]
    · simp only [if_neg hplace]
      obtain ⟨new, hrun, hcalls⟩ := ih hnext'
        ⟨placeSegment st.mem image seg, st.calls ++ [.allocatePages seg.pageBase seg.pageCount]⟩
      refine ⟨.allocatePages .address seg.pageBase seg.pageCount answer :: new,
        hrun.trans ?_, hcalls.trans ?_⟩
      · rw [← List.append_cons]
      · simp only [List.filterMap_cons, Call.pageCall, ← List.append_cons]

/-- `load_segments` makes the calls and returns the status of the function
with its stores, for the answers of this firmware. -/
theorem loadSegments_agrees (boot : BootServices) (plan : ElfPlan) (calls : List Call) :
    ∃ answers, ∀ (m : Mem) (image : Nat), ∃ new,
      loadSegments boot plan calls = some ((Loader.loadSegments answers m image plan).1, calls ++ new) ∧
      (Loader.loadSegments answers m image plan).2.calls = new.filterMap Call.pageCall := by
  refine ⟨answersOn boot calls plan.segments, fun m image => ?_⟩
  refine loadLoop_agrees (fun i => ?_) image ⟨m, []⟩
  rw [List.length_nil, Nat.zero_add]

/-! ## The memory maps -/

theorem leaveGeometry_owns (map size : Nat) :
    Owns pointers (ifSet map (.pool map size) P) (leaveGeometry map) fun _ left => left = P :=
  (freePoolSet_owns map size).seq (.pure rfl)

/-- Between two turns the loop holds the map's buffer, if it has one. -/
theorem geometryLoop_owns (hs : boot.Sound) (descriptors : Nat → Descriptor)
    (attempts map capacity : Nat) :
    Owns pointers (ifSet map (.pool map capacity) P)
      (geometryLoop boot descriptors attempts map capacity) fun _ left => left = P := by
  induction attempts generalizing map capacity with
  | zero => exact leaveGeometry_owns map capacity
  | succ attempts ih =>
    have hmap : Owns pointers (ifSet map (.pool map capacity) P) (getMemoryMap boot map capacity)
        fun answer left => left = ifSet map (.pool map capacity) P ∧ (answer.status = .success → map ≠ 0) :=
      .ask fun calls => ⟨_, ⟨rfl, hs.map calls map capacity⟩, .neither (fun _ => id) fun _ => id⟩
    unfold geometryLoop
    refine hmap.bind ?_
    rintro answer _ ⟨rfl, hset⟩
    have hleave := leaveGeometry_owns (P := P) map capacity
    refine .ite (fun _ => .ite (fun _ => hleave) fun _ => .ite (fun _ => hleave) fun _ => ?_)
      fun _ => .ite (fun _ => hleave) fun hsuccess => .ite (fun _ => ?_) fun _ => hleave
    · refine (freePoolSet_owns map capacity).seq (.bind (allocatePool_owns hs _) ?_)
      rintro larger _ ⟨rfl, _⟩
      exact .ite (fun _ => leaveGeometry_owns _ _) fun _ => ih _ _
    · rw [ifSet_set (hset (by tauto))]
      exact (freePool_owns map capacity).seq (.pure rfl)

/-- The buffer of a phase of `bbp_uefi_exit_boot_services`. -/
def phaseBlocks (phase : Phase) : Multiset Block :=
  Multiset.ofList (phase.held.map fun b => .pool b.1 b.2)

theorem phaseBlocks_step {phase phase' : Phase} {call : FirmwareCall} (h : phase.Step call phase') :
    pointers.Step (phaseBlocks phase + P) (.exit call) (phaseBlocks phase' + P) := by
  have hholding : ∀ address size key,
      phaseBlocks (.holding address size key) + P = .pool address size ::ₘ P :=
    fun _ _ _ => Multiset.singleton_add _ _
  have hempty : phaseBlocks .empty + P = P := Multiset.zero_add P
  cases h with
  | granted hne =>
    rw [hholding, hempty]
    exact .obtain (And.intro hne rfl)
  | free =>
    rw [hholding, hempty]
    exact .release (Exists.intro _ rfl)
  | refused size => exact .neither (fun _ hb => hb.1 rfl) fun _ => id
  | _ => exact .neither (fun _ => id) fun _ => id

theorem phase_holds {inner : List FirmwareCall} {phase : Phase} (hcalls : pointers.Holds calls P)
    (h : Accepts Phase.Step .start inner phase) :
    pointers.Holds (calls ++ inner.map .exit) (phaseBlocks phase + P) := by
  refine Accepts.invariant
    (I := fun inner phase => pointers.Holds (calls ++ inner.map .exit) (phaseBlocks phase + P))
    ?_ (fun inner phase call phase' hI hstep => ?_) h
  · rw [List.map_nil, List.append_nil]
    exact (Multiset.zero_add P).symm ▸ hcalls
  · rw [List.map_append, ← List.append_assoc]
    exact hI.snoc (phaseBlocks_step hstep)

/-- Without success, `bbp_uefi_exit_boot_services` leaves nothing behind. -/
theorem leaveFirmware_owns (imageHandle : Nat) :
    Owns pointers P (leaveFirmware boot imageHandle) fun status left => status ≠ .ok → left = P := by
  intro calls status calls' hcalls hrun
  unfold leaveFirmware at hrun
  rcases exitBootServices_cases (some (exitOps boot calls)) imageHandle (some ⟨0, 0, 0, 0, 0, 0, 0⟩) with
    hexit | ⟨_, _, _, _, _, hended, hexit⟩
  · rw [hexit] at hrun
    cases hrun
    exact ⟨P, fun _ => rfl, by rwa [List.map_nil, List.append_nil]⟩
  · rw [hexit] at hrun
    cases hrun
    cases hended with
    | ok _ _ haccepted _ => exact ⟨_, fun h => absurd rfl h, phase_holds hcalls haccepted⟩
    | failed _ haccepted hheld _ =>
      refine ⟨_, fun _ => ?_, phase_holds hcalls haccepted⟩
      rw [phaseBlocks, hheld]
      exact Multiset.zero_add P

/-! ## `efi_main` -/

/-- Where the loader returns, nothing more is held than before. -/
def Clean (held : Multiset Block) (outcome : Outcome) (left : Multiset Block) : Prop :=
  outcome ≠ .left → left = held

/-- What `cleanup` finds, from the addresses that are set. -/
def Claimed.blocks (claimed : Claimed) (size : Nat) (held : Multiset Block) : Multiset Block :=
  ifSet claimed.tables (.pages claimed.tables pageTablePages)
    (ifSet claimed.stack (.pages claimed.stack stackPages)
      (ifSet claimed.arena (.pages claimed.arena arenaPages)
        (segmentBlocks claimed.segments + ifSet claimed.kernelFile (.pool claimed.kernelFile size) held)))

theorem cleanup_owns (claimed : Claimed) (size : Nat) (reason : String) :
    Owns pointers (claimed.blocks size P) (cleanup claimed reason) (Clean P) := by
  unfold cleanup
  refine (freePagesSet_owns _ _).seq ((freePagesSet_owns _ _).seq ((freePagesSet_owns _ _).seq ?_))
  exact (freeSegments_owns _).seq ((freePoolSet_owns _ size).seq (.pure fun _ => rfl))

theorem depart_owns (hs : boot.Sound) (found : Found) (imageHandle flags arena stack tables : Nat)
    (plan : ElfPlan) :
    Owns pointers (Claimed.blocks ⟨tables, stack, arena, plan.segments, 0⟩ 0 P)
      (depart boot found imageHandle plan flags arena stack tables) (Clean P) := by
  have hgeometry := geometryLoop_owns (P := Claimed.blocks ⟨tables, stack, arena, plan.segments, 0⟩ 0 P)
    hs found.descriptors 3 0 0
  rw [ifSet_zero] at hgeometry
  unfold depart
  refine hgeometry.bind ?_
  rintro low _ rfl
  refine .ite (fun _ => cleanup_owns _ 0 _) fun _ => .ite (fun _ => cleanup_owns _ 0 _) fun _ => ?_
  refine (leaveFirmware_owns imageHandle).bind fun status left hleft => .ite (fun h => ?_) fun _ => .pure ?_
  · rw [hleft h]
    exact cleanup_owns _ 0 _
  · exact fun h => absurd rfl h

theorem allocateHandoff_owns (hs : boot.Sound) (found : Found) (imageHandle flags : Nat) (plan : ElfPlan) :
    Owns pointers (segmentBlocks plan.segments + P) (allocateHandoff boot found imageHandle plan flags)
      (Clean P) := by
  have hleave : ∀ tables stack arena reason,
      Owns pointers (Claimed.blocks ⟨tables, stack, arena, plan.segments, 0⟩ 0 P)
        (cleanup ⟨tables, stack, arena, plan.segments, 0⟩ reason) (Clean P) :=
    fun _ _ _ _ => cleanup_owns _ 0 _
  unfold allocateHandoff
  refine .bind (allocatePages_owns hs _ _ _) fun arena left hgranted =>
    hgranted.branch (fun _ => ?_) fun harena => ?_
  · have h := hleave 0 0 0 "handoff allocations"
    simpa only [Claimed.blocks, ifSet_zero] using h
  refine .bind (allocatePages_owns hs _ _ _) fun stack left hgranted =>
    hgranted.branch (fun _ => ?_) fun hstack => ?_
  · have h := hleave 0 0 arena.physical "handoff allocations"
    simpa only [Claimed.blocks, ifSet_zero, ifSet_set harena] using h
  refine .bind (allocatePages_owns hs _ _ _) fun tables left hgranted =>
    hgranted.branch (fun _ => ?_) fun htables => ?_
  · have h := hleave 0 stack.physical arena.physical "handoff allocations"
    simpa only [Claimed.blocks, ifSet_zero, ifSet_set harena, ifSet_set hstack] using h
  · have h := depart_owns (P := P) hs found imageHandle flags arena.physical stack.physical
      tables.physical plan
    simpa only [Claimed.blocks, ifSet_zero, ifSet_set harena, ifSet_set hstack,
      ifSet_set htables] using h

theorem bootKernel_owns (hs : boot.Sound) (found : Found) (imageHandle : Nat) {kernelFile : Nat}
    (hfile : kernelFile ≠ 0) (size : Nat) :
    Owns pointers (.pool kernelFile size ::ₘ P) (bootKernel boot found imageHandle kernelFile) (Clean P) := by
  have hleave : ∀ segs reason, Owns pointers (segmentBlocks segs + .pool kernelFile size ::ₘ P)
      (cleanup ⟨0, 0, 0, segs, kernelFile⟩ reason) (Clean P) := by
    intro segs reason
    have h := cleanup_owns (P := P) ⟨0, 0, 0, segs, kernelFile⟩ size reason
    simpa only [Claimed.blocks, ifSet_zero, ifSet_set hfile] using h
  have hnone : segmentBlocks [] + .pool kernelFile size ::ₘ P = .pool kernelFile size ::ₘ P :=
    Multiset.zero_add _
  unfold bootKernel
  cases planImage found.file with
  | error => exact hnone ▸ hleave [] _
  | ok plan =>
    have hload := loadLoop_owns (P := .pool kernelFile size ::ₘ P) hs [] plan.segments
    rw [hnone] at hload
    refine hload.bind fun status left hloaded => ?_
    unfold Loaded at hloaded
    refine .ite (fun hstatus => ?_) fun hstatus => ?_
    · rw [if_neg hstatus] at hloaded
      rw [hloaded, ← hnone]
      exact hleave [] _
    · rw [if_pos (not_not.mp hstatus), List.nil_append] at hloaded
      rw [hloaded]
      cases found.headerFlags with
      | none => exact hleave plan.segments _
      | some flags =>
        rw [Multiset.add_cons]
        refine (freePool_owns kernelFile size).seq ?_
        have habove : Owns pointers (segmentBlocks plan.segments + P)
            (cleanup ⟨0, 0, 0, plan.segments, 0⟩ "EFI image above identity map") (Clean P) := by
          have h := cleanup_owns (P := P) ⟨0, 0, 0, plan.segments, 0⟩ 0 "EFI image above identity map"
          simpa only [Claimed.blocks, ifSet_zero] using h
        cases found.loadedImage with
        | none => exact habove
        | some image =>
          exact .ite (fun _ => habove) fun _ => allocateHandoff_owns hs found imageHandle flags plan

theorem efiMain_owns (hs : boot.Sound) (found : Found) (imageHandle fuel : Nat) :
    Owns pointers P (efiMain (some boot) found imageHandle fuel) (Clean P) := by
  refine (readKernel_owns hs fuel).bind fun file left hkept => ?_
  unfold Kept at hkept
  refine .ite (fun hstatus => ?_) fun hstatus => ?_
  · rw [if_neg hstatus] at hkept
    exact .pure fun _ => hkept
  · rw [if_pos (not_not.mp hstatus)] at hkept
    exact hkept.2 ▸ bootKernel_owns hs found imageHandle hkept.1 file.size

/-- A failed load is followed by one more call, for the file's buffer. -/
theorem bootKernel_failed {found : Found} {plan : ElfPlan} {kernelFile : Nat} {calls' : List Call}
    (hplan : planImage found.file = .ok plan) (hfile : kernelFile ≠ 0)
    (hload : loadSegments boot plan calls = some (status, calls')) (hstatus : status ≠ efiSuccess)
    (imageHandle : Nat) :
    bootKernel boot found imageHandle kernelFile calls =
      some (.failed "PT_LOAD allocation", calls' ++ [.freePool kernelFile]) := by
  have hcleanup : cleanup ⟨0, 0, 0, [], kernelFile⟩ "PT_LOAD allocation" calls' =
      some (.failed "PT_LOAD allocation", calls' ++ [.freePool kernelFile]) := by
    simp only [cleanup, freePagesSet, freePoolSet, freeSegments, if_pos hfile]
    rfl
  unfold bootKernel
  rw [hplan]
  change (loadSegments boot plan calls).bind _ = _
  rw [hload, Option.bind_some]
  change (if status ≠ efiSuccess then _ else _ : Prog Outcome) calls' = _
  rw [if_pos hstatus, hcleanup]

/-- Wherever the loader returns, for whatever reason and whatever the
firmware has answered, every block has been given back and nothing else has
(the calls are accepted by the ledger from nothing to nothing) exactly where
no `AllocatePool` that was refused has left a pointer. A failure of
`load_segments` at any segment gives back the segments before it, behind
what became of the segment itself, and of what follows nothing but the
file's buffer. -/
theorem efiMain_gives_back (boot : Option BootServices) (found : Found) (imageHandle fuel : Nat) :
    (∀ (reason : String) (calls : List Call), (∀ services, boot = some services → services.Sound) →
      efiMain boot found imageHandle fuel [] = some (.failed reason, calls) →
      (ledger.Holds calls 0 ↔ ∀ call ∈ calls, call.leavesNull = true)) ∧
    ∀ (services : BootServices) (plan : ElfPlan) (status : Nat) (calls calls' : List Call),
      loadSegments services plan calls = some (status, calls') → status ≠ efiSuccess →
      (∃ placed seg rest attempt,
        plan.segments = placed ++ seg :: rest ∧ seg.pageCount ≠ 0 ∧ Attempt seg attempt ∧
        calls' = calls ++ claimCalls placed ++ attempt ++ releaseCalls placed.reverse) ∧
      ∀ kernelFile, planImage found.file = .ok plan → kernelFile ≠ 0 →
        bootKernel services found imageHandle kernelFile calls =
          some (.failed "PT_LOAD allocation", calls' ++ [.freePool kernelFile]) := by
  refine ⟨?_, ?_⟩
  · intro reason calls hs hrun
    cases boot with
    | none =>
      cases hrun
      exact iff_of_true .nil fun _ hcall => absurd hcall List.not_mem_nil
    | some services =>
      obtain ⟨left, hclean, hholds⟩ :=
        efiMain_owns (P := 0) (hs services rfl) found imageHandle fuel [] _ _ .nil hrun
      obtain rfl := hclean Outcome.noConfusion
      exact holds_iff_of_pointers hholds
  · intro services plan status calls calls' hrun hstatus
    obtain ⟨placed, seg, rest, attempt, hsegs, hcount, hattempt, hcalls⟩ := loadLoop_failed hrun hstatus
    exact ⟨⟨placed, seg, rest, attempt, hsegs, hcount, hattempt, hcalls⟩,
      fun kernelFile hplan hfile => bootKernel_failed hplan hfile hrun hstatus imageHandle⟩

/-- A firmware that serves a pool request of at most `room` bytes and leaves
`left` where it refuses one, places pages where it is told or else behind
128 MiB, and has a map for no buffer. -/
def sampleServices (room left : Nat) : BootServices where
  handleProtocol _ _ := efiSuccess
  openVolume _ := efiSuccess
  openFile _ := (efiSuccess, true)
  getInfo _ info _ := if info = 0 then ⟨efiBufferTooSmall, 24, 0⟩ else ⟨efiSuccess, 24, 176⟩
  read _ _ amount := ⟨efiSuccess, amount⟩
  allocatePool calls size :=
    if size ≤ room then ⟨efiSuccess, 0x4000000 + 0x1000 * calls.length⟩ else ⟨2 ^ 63 + 9, left⟩
  allocatePages calls type physical _ :=
    if type = .address ∧ physical ≠ 0 then ⟨efiSuccess, physical⟩
    else ⟨efiSuccess, 0x8000000 + 0x100000 * calls.length⟩
  getMemoryMap _ _ _ := ⟨.bufferTooSmall, 480, 0, 48, 1⟩
  exitBootServices _ _ _ := .error

theorem sampleServices_sound (room left : Nat) : (sampleServices room left).Sound where
  pool calls size := by
    unfold sampleServices
    dsimp only
    split
    · intro _
      dsimp only
      omega
    · intro h
      cases h
  pages calls type physical pages := by
    unfold sampleServices
    dsimp only
    split
    next h => exact fun _ => h.2
    · intro _
      dsimp only
      omega
  map calls memoryMap mapSize h := by cases h

def sampleFound : Found :=
  ⟨kernelImage 0xffffffff80201000, some 4, some (0x100000, 0x1000), fun _ => ⟨7, 0, 1, 0⟩, Mem.zeros⟩

/-- The firmware refuses the first memory map's buffer and leaves NULL: three
blocks of pages, the two segments and the file's buffer are given back. -/
theorem efiMain_gives_back_geometry : (sampleServices 200 0).Sound ∧ ∃ calls,
    efiMain (some (sampleServices 200 0)) sampleFound 0 2 [] =
      some (.failed "memory geometry exceeds 4 GiB contract", calls) ∧
    (calls.filterMap Call.pageCall).length = 10 ∧ ledger.Holds calls 0 := by
  have hrun : (efiMain (some (sampleServices 200 0)) sampleFound 0 2 []).map
      (fun answer => (answer.1, answer.2.all Call.leavesNull, (answer.2.filterMap Call.pageCall).length)) =
      some (.failed "memory geometry exceeds 4 GiB contract", true, 10) := by decide +kernel
  obtain ⟨⟨outcome, calls⟩, hmain, hanswer⟩ := Option.map_eq_some_iff.mp hrun
  simp only [Prod.mk.injEq, List.all_eq_true] at hanswer
  obtain ⟨rfl, hnull, hpages⟩ := hanswer
  refine ⟨sampleServices_sound 200 0, calls, hmain, hpages, ?_⟩
  refine ((efiMain_gives_back _ _ _ _).1 _ _ (fun services h => ?_) hmain).mpr hnull
  obtain rfl := Option.some.inj h
  exact sampleServices_sound 200 0

/-- The first `AllocatePool` of `read_kernel` is refused and leaves an address
nobody has handed out; `FreePool` is called on it. -/
theorem refused_pool_freed : (sampleServices 0 0xdead000).Sound ∧ ∃ calls,
    efiMain (some (sampleServices 0 0xdead000)) sampleFound 0 2 [] =
      some (.failed "open \\kernel.elf", calls) ∧
    .freePool 0xdead000 ∈ calls ∧
    (∀ call ∈ calls, ∀ size, ¬ ledger.obtains call (.pool 0xdead000 size)) ∧
    ¬ ledger.Holds calls 0 := by
  let front : List Call := [.handleProtocol .loadedImage efiSuccess,
    .handleProtocol .simpleFileSystem efiSuccess, .openVolume efiSuccess, .openFile (efiSuccess, true),
    .getInfo 0 0 ⟨efiBufferTooSmall, 24, 0⟩, .allocatePool 24 ⟨2 ^ 63 + 9, 0xdead000⟩]
  have hnever : ∀ call ∈ front ++ [.freePool 0xdead000, .close, .close], ∀ size,
      ¬ ledger.obtains call (.pool 0xdead000 size) := by
    simp [front, ledger, Call.Obtains, efiSuccess]
  have hsound := sampleServices_sound 0 0xdead000
  have hrun : efiMain (some (sampleServices 0 0xdead000)) sampleFound 0 2 [] =
    some (.failed "open \\kernel.elf", front ++ [.freePool 0xdead000, .close, .close]) := rfl
  refine ⟨hsound, _, hrun, List.mem_append_right _ List.mem_cons_self, hnever, fun hholds => ?_⟩
  obtain ⟨_, hclean, hpointers⟩ := efiMain_owns (P := 0) hsound sampleFound 0 2 [] _ _ .nil hrun
  obtain rfl := hclean Outcome.noConfusion
  have hnull := (holds_iff_of_pointers hpointers).mp hholds (.allocatePool 24 ⟨2 ^ 63 + 9, 0xdead000⟩)
    (by simp [front])
  cases hnull

end BearBoot.Loader.Efi
