import Mathlib.Data.Multiset.AddSub
import BearBoot.Machine.Run

/-!
# What a program has to give back

A program that calls a firmware obtains blocks from it and gives blocks
back. What it holds at some point is said of the calls alone: a ledger
(`Ledger`) says which block a call obtains and which it gives back, and a
call that gives back is in order only where such a block is held
(`Ledger.Step`). A list of calls that is accepted from nothing to nothing
has given back every block it obtained, once, and nothing else.

`Owns` is the triple of such programs: from where `held` is held, a run that
ends leaves what the postcondition says. The rules follow the program, one
for a call (`Owns.ask`) and one for a sequence (`Owns.bind`); a loop is an
induction over its fuel. That a program may not end is the caller's business:
the triple speaks about the runs that do.
-/

set_option autoImplicit false

namespace Machine

variable {κ β α ρ : Type}

/-- A program that makes calls, the calls so far being its state; `none` is a
run that has not ended within its fuel. -/
abbrev Caller (κ α : Type) := StateT (List κ) Option α

/-- One call: answered from the calls so far, and written down with its
answer. -/
def Caller.ask (answer : List κ → ρ) (record : ρ → κ) : Caller κ ρ := fun calls =>
  some (answer calls, calls ++ [record (answer calls)])

theorem Caller.ask_bind (answer : List κ → ρ) (record : ρ → κ) (f : ρ → Caller κ α) (calls : List κ) :
    (ask answer record >>= f) calls = f (answer calls) (calls ++ [record (answer calls)]) := rfl

/-- Which blocks a call obtains, and which it gives back. -/
structure Ledger (κ β : Type) where
  obtains : κ → β → Prop
  releases : κ → β → Prop

/-- The blocks held before and after a call. -/
inductive Ledger.Step (l : Ledger κ β) : Multiset β → κ → Multiset β → Prop
  | obtain {held : Multiset β} {call : κ} {b : β} (h : l.obtains call b) : Step l held call (b ::ₘ held)
  | release {held : Multiset β} {call : κ} {b : β} (h : l.releases call b) : Step l (b ::ₘ held) call held
  | neither {held : Multiset β} {call : κ} (hobtains : ∀ b, ¬ l.obtains call b)
      (hreleases : ∀ b, ¬ l.releases call b) : Step l held call held

/-- How many blocks a call adds or takes does not depend on what is held,
where it does not both obtain and give back. -/
theorem Ledger.Step.card {l : Ledger κ β} {call : κ} (honly : ∀ b b', l.obtains call b → ¬ l.releases call b')
    {held held' left left' : Multiset β} (h : l.Step held call held') (h' : l.Step left call left') :
    held'.card + left.card = held.card + left'.card := by
  cases h with
  | obtain hobtains =>
    cases h' with
    | obtain _ => rw [Multiset.card_cons, Multiset.card_cons]; omega
    | release hreleases => exact absurd hreleases (honly _ _ hobtains)
    | neither hno _ => exact absurd hobtains (hno _)
  | release hreleases =>
    cases h' with
    | obtain hobtains => exact absurd hreleases (honly _ _ hobtains)
    | release _ => rw [Multiset.card_cons, Multiset.card_cons]; omega
    | neither _ hno => exact absurd hreleases (hno _)
  | neither hno hno' =>
    cases h' with
    | obtain hobtains => exact absurd hobtains (hno _)
    | release hreleases => exact absurd hreleases (hno' _)
    | neither _ _ => rfl

/-- After `calls`, the blocks `held` are held. -/
abbrev Ledger.Holds (l : Ledger κ β) (calls : List κ) (held : Multiset β) : Prop :=
  Accepts l.Step 0 calls held

/-- From `held`, a run of the program that ends leaves `post`. -/
def Owns (l : Ledger κ β) (held : Multiset β) (x : Caller κ α) (post : α → Multiset β → Prop) : Prop :=
  ∀ calls a calls', l.Holds calls held → x calls = some (a, calls') →
    ∃ left, post a left ∧ l.Holds calls' left

namespace Owns

variable {l : Ledger κ β} {held : Multiset β} {x : Caller κ α} {post : α → Multiset β → Prop}

theorem pure {a : α} (h : post a held) : Owns l held (Pure.pure a) post := by
  intro calls a' calls' hcalls hrun
  cases hrun
  exact ⟨held, h, hcalls⟩

/-- A program that does not end. -/
theorem never : Owns l held (fun _ => none) post := by
  intro calls a calls' _ hrun
  cases hrun

theorem bind {f : α → Caller κ ρ} {mid : α → Multiset β → Prop} {post : ρ → Multiset β → Prop}
    (hx : Owns l held x mid) (hf : ∀ a left, mid a left → Owns l left (f a) post) :
    Owns l held (x >>= f) post := by
  intro calls r calls' hcalls hrun
  obtain ⟨⟨a, between⟩, hfirst, hrest⟩ := Option.bind_eq_some_iff.mp hrun
  obtain ⟨left, hmid, hbetween⟩ := hx calls a between hcalls hfirst
  exact hf a left hmid between r calls' hbetween hrest

/-- A step that leaves `mid`, and what follows it. -/
theorem seq {mid : Multiset β} {y : Caller κ ρ} {post : ρ → Multiset β → Prop}
    (hx : Owns l held x fun _ left => left = mid) (hy : Owns l mid y post) :
    Owns l held (x >>= fun _ => y) post :=
  hx.bind fun _ _ hleft => hleft ▸ hy

theorem ask {answer : List κ → ρ} {record : ρ → κ} {post : ρ → Multiset β → Prop}
    (h : ∀ calls, ∃ left, post (answer calls) left ∧ l.Step held (record (answer calls)) left) :
    Owns l held (Caller.ask answer record) post := by
  intro calls a calls' hcalls hrun
  cases hrun
  obtain ⟨left, hpost, hstep⟩ := h calls
  exact ⟨left, hpost, hcalls.snoc hstep⟩

theorem ite {p : Prop} [Decidable p] {y : Caller κ α} (hx : p → Owns l held x post)
    (hy : ¬ p → Owns l held y post) : Owns l held (if p then x else y) post := by
  by_cases hp : p
  · rw [if_pos hp]; exact hx hp
  · rw [if_neg hp]; exact hy hp

theorem weaken {post' : α → Multiset β → Prop} (h : Owns l held x post)
    (himp : ∀ a left, post a left → post' a left) : Owns l held x post' := by
  intro calls a calls' hcalls hrun
  obtain ⟨left, hpost, hleft⟩ := h calls a calls' hcalls hrun
  exact ⟨left, himp a left hpost, hleft⟩

end Owns

end Machine
