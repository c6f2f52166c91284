import BearBoot.Machine.Traced
import BearBoot.Wire
import BearBoot.Loader.Elf

/-!
# The boot page tables, as the loader builds them

`table_new`, `map_page` and `build_page_tables` of
`bootloader/efi_main.c`. The tables are pages of one pool that the loader
allocated and zeroed; a table is taken from the pool when a link to it is
about to be stored, and is never given back.

The first four gibibytes are mapped twice, at their own addresses and at
the higher half, with large pages but for the first two mebibytes at their
own addresses, which get a table so that page 0 can be left out. Then every
segment of the plan is mapped page by page.

A `Space` is the pool and the memory. Functions that return 0 on failure
answer `none`; the caller gives the whole pool back then, so what they had
stored in it is not kept. Sums of virtual addresses wrap as the source's do.
-/

set_option autoImplicit false

namespace BearBoot.Loader

open Machine

/-- `BBP_HHDM_OFFSET`. -/
def hhdmOffset : Nat := 0xffff800000000000

/-- `BBP_IDENTITY_LIMIT`. -/
def identityLimit : Nat := 0x100000000

/-- `struct page_pool`. -/
structure PagePool where
  base : Nat
  used : Nat
  count : Nat
  deriving DecidableEq, Repr

/-- The pool and the memory. -/
structure Space where
  pool : PagePool
  mem : Mem

/-- `X86_PTE_PRESENT`. -/
def ptePresent : Nat := 1

/-- `X86_PTE_WRITABLE`. -/
def pteWritable : Nat := 2

/-- `X86_PTE_LARGE`. -/
def pteLarge : Nat := 0x80

/-- `X86_PTE_NX`. -/
def pteNx : Nat := 1 <<< 63

/-- The address bits of an entry. -/
def pteAddress : Nat := 0x000ffffffffff000

/-- `table_new`: the page's address, `0` when there is none left. -/
def tableNew (pool : PagePool) : Nat × PagePool :=
  if pool.used = pool.count then (0, pool)
  else (pool.base + pool.used * pageSize, { pool with used := pool.used + 1 })

/-- `table[index]`, as an address. -/
def slot (table index : Nat) : Nat := table + 8 * index

/-- The link in the entry at `a`, made if there is none. -/
def ensureLink (s : Space) (a : Nat) : Option Space :=
  if get64 s.mem a &&& ptePresent = 0 then
    let (next, pool) := tableNew s.pool
    if next = 0 then none
    else some ⟨pool, put64 s.mem a (next ||| ptePresent ||| pteWritable)⟩
  else some s

/-- The loop of `map_page`: down through the levels of `shifts`, making the
tables that are missing. -/
def descend (virtualAddress : Nat) (s : Space) (table : Nat) : List Nat → Option (Nat × Space)
  | [] => some (table, s)
  | shift :: shifts =>
    let a := slot table ((virtualAddress >>> shift) &&& 0x1ff)
    match ensureLink s a with
    | none => none
    | some s =>
      if get64 s.mem a &&& pteLarge ≠ 0 then none
      else descend virtualAddress s (get64 s.mem a &&& pteAddress) shifts

/-- `map_page`. -/
def mapPage (s : Space) (pml4 virtualAddress physicalAddress flags : Nat) : Option Space :=
  match descend virtualAddress s pml4 [39, 30, 21] with
  | none => none
  | some (table, s) =>
    let a := slot table ((virtualAddress >>> 12) &&& 0x1ff)
    if get64 s.mem a &&& ptePresent ≠ 0 then none
    else some { s with mem := put64 s.mem a ((physicalAddress &&& pteAddress) ||| flags ||| ptePresent) }

/-! ## The first four gibibytes -/

/-- The entries of the first page table, from `start` on, `n` of them. -/
def firstPages (firstPt start : Nat) (m : Mem) : Nat → Mem
  | 0 => m
  | n + 1 => put64 (firstPages firstPt start m n) (slot firstPt (start + n))
      ((start + n) * pageSize ||| ptePresent ||| pteWritable)

/-- Two mebibytes: the body of the loop over `mb`. -/
def mapLarge (gb identityPd hhdmPd : Nat) (unmapNull : Bool) (mb : Nat) (s : Space) : Option Space :=
  let physical := gb * 0x40000000 + mb * 0x200000
  let m := put64 s.mem (slot hhdmPd mb) (physical ||| ptePresent ||| pteWritable ||| pteLarge)
  if physical ≠ 0 then
    some ⟨s.pool, put64 m (slot identityPd mb) (physical ||| ptePresent ||| pteWritable ||| pteLarge)⟩
  else
    let (firstPt, pool) := tableNew s.pool
    if firstPt = 0 then none
    else
      let start := if unmapNull then 1 else 0
      some ⟨pool, firstPages firstPt start
        (put64 m (slot identityPd mb) (firstPt ||| ptePresent ||| pteWritable)) (512 - start)⟩

/-- One gibibyte: the body of the loop over `gb`. -/
def mapGigabyte (identityPdpt hhdmPdpt : Nat) (unmapNull : Bool) (gb : Nat) (s : Space) : Option Space :=
  let (identityPd, pool) := tableNew s.pool
  let (hhdmPd, pool) := tableNew pool
  if identityPd = 0 ∨ hhdmPd = 0 then none
  else
    let m := put64 s.mem (slot identityPdpt gb) (identityPd ||| ptePresent ||| pteWritable)
    let m := put64 m (slot hhdmPdpt gb) (hhdmPd ||| ptePresent ||| pteWritable)
    forUpTo (mapLarge gb identityPd hhdmPd unmapNull) 512 ⟨pool, m⟩

/-- `build_page_tables` up to the segments: the root, and the map of the first
four gibibytes. -/
def mapLow (s : Space) (unmapNull : Bool) : Option (Nat × Space) :=
  let (pml4, pool) := tableNew s.pool
  let (identityPdpt, pool) := tableNew pool
  let (hhdmPdpt, pool) := tableNew pool
  if pml4 = 0 ∨ identityPdpt = 0 ∨ hhdmPdpt = 0 then none
  else
    let m := put64 s.mem (slot pml4 0) (identityPdpt ||| ptePresent ||| pteWritable)
    let m := put64 m (slot pml4 256) (hhdmPdpt ||| ptePresent ||| pteWritable)
    match forUpTo (mapGigabyte identityPdpt hhdmPdpt unmapNull) 4 ⟨pool, m⟩ with
    | none => none
    | some s => some (pml4, s)

/-! ## The segments -/

def sub64 (a b : Nat) : Nat := (a + 2 ^ 64 - b) % 2 ^ 64

/-- The flags of a segment's pages. -/
def segmentFlags (enableNx : Bool) (segment : SegmentPlan) : Nat :=
  let flags := if segment.flags &&& pfW ≠ 0 then pteWritable else 0
  if enableNx = true ∧ segment.flags &&& pfX = 0 then flags ||| pteNx else flags

/-- Where a segment's pages are mapped. -/
def virtualPage (segment : SegmentPlan) : Nat :=
  sub64 segment.virtualAddress (sub64 segment.physicalAddress segment.pageBase)

/-- One segment, page by page. -/
def mapSegment (pml4 : Nat) (enableNx : Bool) (s : Space) (segment : SegmentPlan) : Option Space :=
  forUpTo (fun page s =>
    mapPage s pml4 ((virtualPage segment + page * pageSize) % 2 ^ 64)
      (segment.pageBase + page * pageSize) (segmentFlags enableNx segment)) segment.pageCount s

/-- `build_page_tables`: `*out_pml4`, and the pool and the memory behind it. -/
def buildPageTables (s : Space) (plan : ElfPlan) (enableNx unmapNull : Bool) : Option (Nat × Space) :=
  match mapLow s unmapNull with
  | none => none
  | some (pml4, s) =>
    match plan.segments.foldlM (mapSegment pml4 enableNx) s with
    | none => none
    | some s => some (pml4, s)

end BearBoot.Loader
