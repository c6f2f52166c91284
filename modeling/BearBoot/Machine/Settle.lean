import BearBoot.Machine.Traced

/-!
# Settling a condition

A validator written in a language whose operations can fault (an index out
of range, an overflow) answers two questions at once: whether its input is
good, and whether looking was safe. `Settles fault r P Q` is both: the
outcome `r` is an answer that satisfies `Q` when `P` holds, and a refusal
that is no fault when `P` does not.

The rules follow the shape of such a program: a test that refuses, a
step that cannot fail where it stands, one step after another, a counted
loop. What a later step needs to be safe is what the earlier ones have
settled, so `step`, `test` and `forUpTo` hand it on. From the whole
program's `Settles` both halves of a specification follow
(`Settles.ok_iff`, `Settles.not_fault`).

A reader of memory cannot fault, and what is safe is said of its log:
`Checked.Settles` has the same rules.
-/

namespace Machine

variable {c : Prop} {n : Nat}

variable {σ α β : Type}

/-- Refuse with `e` when `c` holds: the early `return Err(e)`. -/
def refuse (c : Prop) [Decidable c] (e : σ) : Except σ Unit := if c then .error e else .ok ()

/-- One step after another answers when both do. -/
theorem ok_bind_iff {r : Except σ α} {f : α → Except σ β} {b : β} :
    r >>= f = .ok b ↔ ∃ a, r = .ok a ∧ f a = .ok b := by
  cases r with
  | error e => exact ⟨(fun h => by cases h), (fun ⟨_, h, _⟩ => by cases h)⟩
  | ok a => exact ⟨fun h => ⟨a, rfl, h⟩, (fun ⟨_, h, hf⟩ => by cases h; exact hf)⟩

theorem pure_ok_iff {a b : α} : (pure a : Except σ α) = .ok b ↔ a = b := Except.ok.injEq a b ▸ Iff.rfl

theorem refuse_ok_iff [Decidable c] {e : σ} {u : Unit} : refuse c e = .ok u ↔ ¬ c := by
  unfold refuse
  split
  next h => exact ⟨(fun hr => by cases hr), fun hn => absurd h hn⟩
  next h => exact ⟨fun _ => h, fun _ => rfl⟩

/-- A test that does not refuse goes on. -/
theorem refuse_bind_of_not [Decidable c] {e : σ} {f : Unit → Except σ β} (h : ¬ c) :
    refuse c e >>= f = f () := by
  rw [refuse, if_neg h]
  rfl

/-- The outcome answers exactly when `P` holds, then satisfies `Q`, and is
no fault otherwise. -/
def Settles (fault : σ → Prop) (r : Except σ α) (P : Prop) (Q : α → Prop) : Prop :=
  match r with
  | .ok a => P ∧ Q a
  | .error e => ¬ P ∧ ¬ fault e

namespace Settles

variable {fault : σ → Prop} {P P' : Prop} {Q : α → Prop} {Q' : β → Prop}

theorem pure {a : α} (h : Q a) : Settles fault (Pure.pure a : Except σ α) True Q := ⟨trivial, h⟩

theorem refuse [Decidable c] {e : σ} (he : ¬ fault e) (hP : ¬ c ↔ P) :
    Settles fault (Machine.refuse c e) P fun _ => True := by
  unfold Machine.refuse
  split
  next h => exact ⟨fun hp => hP.mpr hp h, he⟩
  next h => exact ⟨hP.mp h, trivial⟩

theorem bind {r : Except σ α} {f : α → Except σ β} (hr : Settles fault r P Q)
    (hf : P → ∀ a, Q a → Settles fault (f a) P' Q') : Settles fault (r >>= f) (P ∧ P') Q' := by
  cases r with
  | error e => exact ⟨fun h => hr.1 h.1, hr.2⟩
  | ok a =>
    have hrest := hf hr.1 a hr.2
    change Settles fault (f a) (P ∧ P') Q'
    cases hfa : f a with
    | error e =>
      rw [hfa] at hrest
      exact ⟨fun h => hrest.1 h.2, hrest.2⟩
    | ok b =>
      rw [hfa] at hrest
      exact ⟨⟨hr.1, hrest.1⟩, hrest.2⟩

/-- A test that refuses settles the condition it stands for. -/
theorem refuse_bind [Decidable c] {e : σ} {f : Unit → Except σ β} (he : ¬ fault e)
    (hP : ¬ c ↔ P) (hf : P → Settles fault (f ()) P' Q') :
    Settles fault (Machine.refuse c e >>= f) (P ∧ P') Q' :=
  bind (refuse he hP) fun hc _ _ => hf hc

/-- A step that is known to answer settles nothing of its own. -/
theorem ok_bind {r : Except σ α} {f : α → Except σ β} {a : α} (hr : r = .ok a)
    (hf : Settles fault (f a) P' Q') : Settles fault (r >>= f) P' Q' := by
  rw [hr]
  exact hf

theorem congr {r : Except σ α} (hP : P ↔ P') (h : Settles fault r P Q) : Settles fault r P' Q := by
  rw [← propext hP]
  exact h

/-- A step whose condition belongs to what is to be settled. -/
theorem step {r : Except σ α} {f : α → Except σ β} (hr : Settles fault r P Q) (hP : P' → P)
    (hf : P → ∀ a, Q a → Settles fault (f a) P' Q') : Settles fault (r >>= f) P' Q' :=
  congr (and_iff_right_of_imp hP) (bind hr hf)

/-- A test that refuses what is to be settled anyway. -/
theorem test [Decidable c] {e : σ} {f : Unit → Except σ β} (he : ¬ fault e) (hc : ¬ c ↔ P)
    (hP : P' → P) (hf : P → Settles fault (f ()) P' Q') :
    Settles fault (Machine.refuse c e >>= f) P' Q' :=
  step (refuse he hc) hP fun hp _ _ => hf hp

/-- At the end, everything has been settled. -/
theorem answer {a : α} (hP : P) (hQ : Q a) : Settles fault (Pure.pure a : Except σ α) P Q := ⟨hP, hQ⟩

theorem mono {Q' : α → Prop} {r : Except σ α} (h : Settles fault r P Q)
    (hQ : P → ∀ a, Q a → Q' a) : Settles fault r P Q' := by
  cases r with
  | error e => exact h
  | ok a => exact ⟨h.1, hQ h.1 a h.2⟩

/-- A loop whose turns settle `P i` while an invariant of the accumulator
holds settles all of them. -/
theorem forUpTo {body : Nat → α → Except σ α} {a : α} (P : Nat → Prop)
    (inv : Nat → α → Prop) (h0 : inv 0 a)
    (hbody : ∀ i < n, (∀ j < i, P j) → ∀ b, inv i b →
      Settles fault (body i b) (P i) (inv (i + 1))) :
    Settles fault (Machine.forUpTo body n a) (∀ i < n, P i) (inv n) := by
  induction n with
  | zero => exact ⟨fun i hi => absurd hi (Nat.not_lt_zero i), h0⟩
  | succ n ih =>
    refine step (ih fun i hi => hbody i (by omega)) (fun h i hi => h i (by omega)) fun hall b hb => ?_
    refine congr ?_ (hbody n (Nat.lt_succ_self n) hall b hb)
    rw [Nat.forall_lt_succ_right, and_iff_right hall]

theorem ok_iff {r : Except σ α} (h : Settles fault r P Q) : (∃ a, r = .ok a) ↔ P := by
  cases r with
  | error e => exact ⟨(fun ⟨_, ha⟩ => by cases ha), fun hP => absurd hP h.1⟩
  | ok a => exact ⟨fun _ => h.1, fun _ => ⟨a, rfl⟩⟩

theorem post {r : Except σ α} {a : α} (h : Settles fault r P Q) (hr : r = .ok a) : Q a := by
  rw [hr] at h
  exact h.2

theorem not_fault {r : Except σ α} {e : σ} (h : Settles fault r P Q) (hr : r = .error e) :
    ¬ fault e := by
  rw [hr] at h
  exact h.2

end Settles

/-! ## Readers -/

namespace Checked

variable {ε : Type}

theorem refuseIf_val {m : Mem} [Decidable c] {e : σ} :
    (refuseIf c e : Checked ε σ Unit).val m = refuse c e := by
  by_cases h : c <;> simp [refuseIf, val, refuse, h]

/-- The outcome of a reader settles `P`, and all it does on the way is
safe. -/
structure Settles (safe : ε → Prop) (m : Mem) (x : Checked ε σ α) (P : Prop) (Q : α → Prop) : Prop where
  logs : Checked.Logs safe x m
  outcome : Machine.Settles (fun _ => False) (x.val m) P Q

namespace Settles

variable {safe : ε → Prop} {m : Mem} {P P' : Prop} {Q : α → Prop} {Q' : β → Prop}

theorem answer {a : α} (hP : P) (hQ : Q a) : Settles safe m (Pure.pure a : Checked ε σ α) P Q :=
  ⟨.pure a, hP, hQ⟩

theorem congr {x : Checked ε σ α} (hP : P ↔ P') (h : Settles safe m x P Q) : Settles safe m x P' Q :=
  ⟨h.logs, h.outcome.congr hP⟩

theorem step {x : Checked ε σ α} {f : α → Checked ε σ β} (hx : Settles safe m x P Q) (hP : P' → P)
    (hf : P → ∀ a, Q a → Settles safe m (f a) P' Q') : Settles safe m (x >>= f) P' Q' where
  logs := .bind hx.logs fun a ha => (hf (hx.outcome.ok_iff.mp ⟨a, ha⟩) a (hx.outcome.post ha)).logs
  outcome := by
    rw [val_bind]
    exact hx.outcome.step hP fun hp a ha => (hf hp a ha).outcome

theorem read {x : Traced ε α} {f : α → Checked ε σ β} (hx : Traced.Logs safe x m)
    (hf : Settles safe m (f (x.val m)) P' Q') : Settles safe m (lift x >>= f) P' Q' := by
  have hlift : Settles safe m (lift x : Checked ε σ α) True (· = x.val m) := ⟨.lift hx, trivial, rfl⟩
  refine hlift.step (fun _ => trivial) ?_
  rintro _ _ rfl
  exact hf

theorem refuse [Decidable c] {e : σ} (hc : ¬ c ↔ P) :
    Settles safe m (refuseIf c e : Checked ε σ Unit) P fun _ => True where
  logs := .refuseIf
  outcome := by
    rw [refuseIf_val]
    exact .refuse id hc

theorem test [Decidable c] {e : σ} {f : Unit → Checked ε σ β} (hc : ¬ c ↔ P) (hP : P' → P)
    (hf : P → Settles safe m (f ()) P' Q') : Settles safe m (refuseIf c e >>= f) P' Q' :=
  (refuse hc).step hP fun hp _ _ => hf hp

theorem forUpTo {body : Nat → α → Checked ε σ α} {a : α} (P : Nat → Prop) (inv : Nat → α → Prop)
    (h0 : inv 0 a) (hbody : ∀ i < n, (∀ j < i, P j) → ∀ b, inv i b →
      Settles safe m (body i b) (P i) (inv (i + 1))) :
    Settles safe m (Machine.forUpTo body n a) (∀ i < n, P i) (inv n) := by
  induction n with
  | zero => exact answer (fun i hi => absurd hi (Nat.not_lt_zero i)) h0
  | succ n ih =>
    refine step (ih fun i hi => hbody i (by omega)) (fun h i hi => h i (by omega)) fun hall b hb => ?_
    refine congr ?_ (hbody n (Nat.lt_succ_self n) hall b hb)
    rw [Nat.forall_lt_succ_right, and_iff_right hall]

/-- What a reader answers, when there is only one thing to answer. -/
theorem ok_iff {x : Checked ε σ α} {a b : α} (h : Settles safe m x P (· = a)) :
    x.val m = .ok b ↔ P ∧ b = a := by
  constructor
  · intro hb
    exact ⟨h.outcome.ok_iff.mp ⟨b, hb⟩, h.outcome.post hb⟩
  · rintro ⟨hP, rfl⟩
    obtain ⟨a, ha⟩ := h.outcome.ok_iff.mpr hP
    rw [ha, h.outcome.post ha]

end Settles

end Checked

/-- A loop whose turns all answer computes a fold. -/
theorem forUpTo_ok {body : Nat → α → Except σ α} {step : Nat → α → α} (a : α)
    (h : ∀ i < n, ∀ b, body i b = .ok (step i b)) :
    forUpTo body n a = .ok ((List.range n).foldl (fun b i => step i b) a) := by
  induction n with
  | zero => rfl
  | succ n ih =>
    rw [forUpTo, ih fun i hi => h i (by omega), List.range_succ, List.foldl_append]
    exact h n (Nat.lt_succ_self n) _

/-- What every turn keeps, a loop that answers has kept. -/
theorem forUpTo_kept {body : Nat → α → Except σ α} {a c : α} (inv : Nat → α → Prop) (h0 : inv 0 a)
    (hstep : ∀ i < n, ∀ b b', inv i b → body i b = .ok b' → inv (i + 1) b')
    (h : forUpTo body n a = .ok c) : inv n c := by
  induction n generalizing c with
  | zero =>
    cases h
    exact h0
  | succ n ih =>
    obtain ⟨b, hb, hc⟩ := ok_bind_iff.mp h
    exact hstep n (Nat.lt_succ_self n) b c (ih (fun i hi => hstep i (by omega)) hb) hc

end Machine
