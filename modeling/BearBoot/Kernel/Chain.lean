import Mathlib.Data.List.Find
import BearBoot.Machine.Path
import BearBoot.Kernel.Walk

/-!
# A good handoff is delivered whole

The parser is defensive: it stops at the first bad pointer and skips the
first bad checksum, silently. So whether it hands out everything a
producer wrote is a question about the handoff. `Presents` is the answer:
INFO's first pointer starts a path through the physical tags `ps` to
null, there are no more of them than a walk may look at, and every one
passes the pointer, size and CRC checks of the context.

Over such a handoff the walk is the list (`Presents.walk`), iteration with
any callback is that callback run over the list (`Presents.delivers`), and
lookup is the first tag of the list with the id (`Presents.finds`). The
producers of this development all end in `Presents`.
-/

namespace BearBoot.Kernel

open Machine

/-- The memory presents the physical tags `ps` to the context. -/
structure Presents (k : Kctx) (m : Mem) (ps : List Nat) : Prop where
  path : Path (fun p => tagNext m (p + k.hhdmOffset)) (infoFirstTag m k.info) ps 0
  count : ps.length ≤ maxTags
  ok : ∀ p ∈ ps, TagOk k m p
  crc : ∀ p ∈ ps, CrcOk m (p + k.hhdmOffset)

/-- Iteration hands every callback exactly the tags `ts`, in this order,
until it stops. -/
def Delivers (k : Kctx) (m : Mem) (ts : List Nat) : Prop :=
  ∀ (σ : Type) (cb : TagCb σ) (user : σ),
    (forEachTag (some k) (some cb) user).val m = runCb (fun t s => (cb t s).val m) ts 0 user

/-- Lookup of any id answers the first of the tags `ts` that has it. -/
def Finds (k : Kctx) (m : Mem) (ts : List Nat) : Prop :=
  ∀ id, (findTag (some k) id).val m = ts.find? fun t => decide (tagId m t = id)

theorem walk_of_path {k : Kctx} {m : Mem} {ps : List Nat} {p steps : Nat}
    (hpath : Path (fun p => tagNext m (p + k.hhdmOffset)) p ps 0) (hcount : ps.length ≤ steps)
    (hok : ∀ p ∈ ps, TagOk k m p) : walk k m steps p = ps.map (· + k.hhdmOffset) := by
  -- along the path; at its end the null pointer is no tag, so spare steps do nothing
  induction ps generalizing p steps with
  | nil =>
    have hno : ¬ TagOk k m p := fun h => h.nonzero hpath
    cases steps with
    | zero => rfl
    | succ steps => rw [walk, if_neg hno]; rfl
  | cons q ps ih =>
    obtain ⟨rfl, hrest⟩ := hpath
    cases steps with
    | zero => exact absurd hcount (Nat.not_succ_le_zero _)
    | succ steps =>
      rw [walk, if_pos (hok p List.mem_cons_self), List.map_cons]
      rw [ih hrest (Nat.le_of_succ_le_succ hcount) fun x hx => hok x (List.mem_cons_of_mem _ hx)]

namespace Presents

variable {k : Kctx} {m : Mem} {ps : List Nat}

theorem walk (h : Presents k m ps) :
    walk k m maxTags (infoFirstTag m k.info) = ps.map (· + k.hhdmOffset) :=
  walk_of_path h.path h.count h.ok

theorem passes (h : Presents k m ps) {t : Nat} (ht : t ∈ ps.map (· + k.hhdmOffset)) :
    Passes k m t := by
  obtain ⟨p, hp, rfl⟩ := List.mem_map.mp ht
  exact fun _ => h.crc p hp

theorem delivered (h : Presents k m ps) : delivered k m = ps.map (· + k.hhdmOffset) := by
  rw [Kernel.delivered, h.walk, List.filter_eq_self]
  intro t ht
  exact decide_eq_true (h.passes ht)

theorem delivers (h : Presents k m ps) (hk : k.info ≠ 0) :
    Delivers k m (ps.map (· + k.hhdmOffset)) := by
  intro σ cb user
  rw [forEachTag_val hk, h.delivered]

theorem finds (h : Presents k m ps) (hk : k.info ≠ 0) :
    Finds k m (ps.map (· + k.hhdmOffset)) := by
  intro id
  rw [findTag_val hk, h.walk]
  apply List.find?_congr
  intro t ht
  simp only [h.passes ht, and_true]

end Presents

end BearBoot.Kernel
