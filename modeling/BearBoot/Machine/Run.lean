import Mathlib.Data.List.Basic
import Mathlib.Order.Basic

/-!
# Runs of a machine

A machine answers one event at a time and moves to its next state; where
its program has not ended within the fuel it was given, there is no next
state. A run is the list of its turns: what it found, what it was asked,
what it answered and what it left.

Whatever is true of a whole run comes from one turn. An invariant reaches
every turn (`Run.turn`), a quantity that no turn lowers orders the turns
(`Run.ordered`), and a log that each turn extends is related to the state it
is the log of (`Run.logged`). A machine that always has a next state runs
through any list of events (`Run.exists_of_total`).

A discipline is a machine without answers: which event is in order after
which others (`Accepts`). The rules are the same: every event of an accepted
list was in order where it stands (`Accepts.split`), and an invariant of the
events so far reaches the end (`Accepts.invariant`).
-/

set_option autoImplicit false

namespace Machine

variable {σ ε ο : Type}

/-- One turn: the state found, the event, the answer and the state left. -/
structure Turn (σ ε ο : Type) where
  before : σ
  event : ε
  outcome : ο
  after : σ

/-- Started in `s`, the machine takes the turns `ts` and ends in `t`. -/
inductive Run (step : σ → ε → Option (ο × σ)) : σ → List (Turn σ ε ο) → σ → Prop
  | nil (s : σ) : Run step s [] s
  | cons {s s' t : σ} {e : ε} {o : ο} {ts : List (Turn σ ε ο)} (turn : step s e = some (o, s'))
      (rest : Run step s' ts t) : Run step s (⟨s, e, o, s'⟩ :: ts) t

namespace Run

variable {step : σ → ε → Option (ο × σ)} {s t : σ} {ts : List (Turn σ ε ο)}

/-- Every turn of a run is a step from a state with the invariant. -/
theorem turn {I : σ → Prop} (hstep : ∀ s e o s', I s → step s e = some (o, s') → I s')
    (h : Run step s ts t) (h0 : I s) :
    ∀ x ∈ ts, I x.before ∧ step x.before x.event = some (x.outcome, x.after) := by
  induction h with
  | nil => intro x hx; cases hx
  | cons turn _ ih =>
    intro x hx
    rcases List.mem_cons.mp hx with rfl | htail
    · exact ⟨h0, turn⟩
    · exact ih (hstep _ _ _ _ h0 turn) x htail

section Order

variable {α : Type} [Preorder α] {f : σ → α} {I : σ → Prop}

/-- What no turn lowers, no run lowers, and every turn finds at least what
an earlier one left. -/
theorem ordered (hstep : ∀ s e o s', I s → step s e = some (o, s') → I s' ∧ f s ≤ f s')
    (h : Run step s ts t) (h0 : I s) :
    f s ≤ f t ∧ (∀ x ∈ ts, f s ≤ f x.before ∧ f x.after ≤ f t) ∧
      ts.Pairwise fun x y => f x.after ≤ f y.before := by
  induction h with
  | nil => exact ⟨le_rfl, (fun _ hx => by cases hx), List.Pairwise.nil⟩
  | cons turn _ ih =>
    obtain ⟨hI, hle⟩ := hstep _ _ _ _ h0 turn
    obtain ⟨hend, hall, hpair⟩ := ih hI
    refine ⟨le_trans hle hend, ?_, List.pairwise_cons.mpr ⟨fun y hy => (hall y hy).1, hpair⟩⟩
    intro x hx
    rcases List.mem_cons.mp hx with rfl | htail
    · exact ⟨le_rfl, hend⟩
    · exact ⟨le_trans hle (hall x htail).1, (hall x htail).2⟩

end Order

/-- A log that every turn extends, related to the state after it. -/
theorem logged {β : Type} {emit : Turn σ ε ο → List β} {I : σ → List β → Prop}
    (hstep : ∀ s l e o s', I s l → step s e = some (o, s') → I s' (l ++ emit ⟨s, e, o, s'⟩))
    (h : Run step s ts t) {l : List β} (h0 : I s l) : I t (l ++ ts.flatMap emit) := by
  induction h generalizing l with
  | nil => rw [List.flatMap_nil, List.append_nil]; exact h0
  | cons turn _ ih =>
    rw [List.flatMap_cons, ← List.append_assoc]
    exact ih (hstep _ _ _ _ _ h0 turn)

/-- A machine that never gets stuck runs through any events. -/
theorem exists_of_total {I : σ → Prop}
    (htotal : ∀ s e, I s → ∃ o s', step s e = some (o, s') ∧ I s') (h0 : I s) (es : List ε) :
    ∃ ts t, Run step s ts t ∧ ts.map Turn.event = es := by
  induction es generalizing s with
  | nil => exact ⟨[], s, nil s, rfl⟩
  | cons e es ih =>
    obtain ⟨o, s', hturn, hI⟩ := htotal s e h0
    obtain ⟨ts, t, hrest, hes⟩ := ih hI
    exact ⟨_, t, cons hturn hrest, by rw [List.map_cons, hes]⟩

end Run

/-- From `s`, the events are in order one after the other and lead to `t`. -/
inductive Accepts (step : σ → ε → σ → Prop) (s : σ) : List ε → σ → Prop
  | nil : Accepts step s [] s
  | snoc {xs : List ε} {e : ε} {t u : σ} (front : Accepts step s xs t) (last : step t e u) :
      Accepts step s (xs ++ [e]) u

namespace Accepts

variable {step : σ → ε → σ → Prop} {s t : σ} {xs ys : List ε} {e : ε}

theorem eq_of_nil (h : Accepts step s [] t) : t = s := by
  generalize hxs : ([] : List ε) = xs at h
  cases h with
  | nil => rfl
  | snoc _ _ => simp at hxs

theorem split (h : Accepts step s (xs ++ e :: ys) t) :
    ∃ s₁ s₂, Accepts step s xs s₁ ∧ step s₁ e s₂ ∧ Accepts step s₂ ys t := by
  generalize hzs : xs ++ e :: ys = zs at h
  induction h generalizing ys with
  | nil => simp at hzs
  | @snoc zs e' t u front last ih =>
    rcases List.eq_nil_or_concat ys with rfl | ⟨ys, d, rfl⟩
    · obtain ⟨rfl, hd⟩ := List.append_inj' hzs rfl
      cases hd
      exact ⟨t, u, front, last, nil⟩
    · rw [List.concat_eq_append, ← List.cons_append, ← List.append_assoc] at hzs
      obtain ⟨hfront, hd⟩ := List.append_inj' hzs rfl
      cases hd
      obtain ⟨s₁, s₂, hxs, he, hys⟩ := ih hfront
      rw [List.concat_eq_append]
      exact ⟨s₁, s₂, hxs, he, hys.snoc last⟩

theorem invariant {I : List ε → σ → Prop} (h0 : I [] s)
    (hstep : ∀ xs t e u, I xs t → step t e u → I (xs ++ [e]) u) (h : Accepts step s xs t) : I xs t := by
  induction h with
  | nil => exact h0
  | snoc _ last ih => exact hstep _ _ _ _ ih last

end Accepts

end Machine
