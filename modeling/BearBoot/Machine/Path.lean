import Mathlib.Data.List.Basic

/-!
# Linked lists as paths of a successor function

A linked list in memory is a start node and a successor function read out
of the memory. `Path next p qs e` says that following `next` from `p`
visits exactly the nodes `qs`, in order, and arrives at `e`; a complete
list is a path that arrives at the null node. The nodes are named by the
list, so a cyclic chain is no path to null: nothing here needs a bound on
the number of steps.

Two facts carry every use. A path depends on the successors of its own
nodes alone (`Path.congr`), so a store elsewhere keeps it. And a path
splits at its last node (`path_snoc`), so linking a new node behind the
last one extends it (`Path.link`).
-/

namespace Machine

variable {α : Type}

/-- Following `next` from `p` visits `qs` and arrives at `e`. -/
def Path (next : α → α) : α → List α → α → Prop
  | p, [], e => p = e
  | p, q :: qs, e => p = q ∧ Path next (next q) qs e

@[simp] theorem path_nil {next : α → α} {p e : α} : Path next p [] e ↔ p = e := Iff.rfl

@[simp] theorem path_cons {next : α → α} {p q e : α} {qs : List α} :
    Path next p (q :: qs) e ↔ p = q ∧ Path next (next q) qs e := Iff.rfl

theorem Path.congr {next next' : α → α} {p e : α} {qs : List α}
    (h : Path next p qs e) (hnext : ∀ q ∈ qs, next' q = next q) : Path next' p qs e := by
  induction qs generalizing p with
  | nil => exact h
  | cons q qs ih =>
    obtain ⟨rfl, hrest⟩ := h
    refine ⟨rfl, ?_⟩
    rw [hnext p List.mem_cons_self]
    exact ih hrest fun x hx => hnext x (List.mem_cons_of_mem _ hx)

theorem path_snoc {next : α → α} {p q e : α} {qs : List α} :
    Path next p (qs ++ [q]) e ↔ Path next p qs q ∧ next q = e := by
  induction qs generalizing p with
  | nil => simp
  | cons x qs ih => simp only [List.cons_append, path_cons, ih, and_assoc]

/-- A new node linked behind the last one: the path that arrived at `e`
now runs through `q`, and arrives at `e` again. -/
theorem Path.link {next next' : α → α} {p l q e : α} {qs : List α}
    (h : Path next p (qs ++ [l]) e) (hkeep : ∀ x ∈ qs, next' x = next x)
    (hlast : next' l = q) (hnew : next' q = e) : Path next' p (qs ++ [l] ++ [q]) e := by
  obtain ⟨hfront, _⟩ := path_snoc.mp h
  exact path_snoc.mpr ⟨path_snoc.mpr ⟨hfront.congr hkeep, hlast⟩, hnew⟩

end Machine
