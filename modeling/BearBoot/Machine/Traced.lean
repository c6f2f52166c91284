import BearBoot.Machine.Mem

/-!
# Reading with a log

A reader of memory answers a value and leaves a LOG of what it did: the
spans it read, and whatever else a development wants to see happen.
`Traced ε α` is that reader, over any type `ε` of events. `Checked ε σ α`
is a reader that can also refuse with a status, the shape of a validator
that returns early.

The two questions a proof asks of a reader are kept apart:

- the VALUE (`val`), which composes like the pure function it is; and
- the LOG (`Logs P`), which is a safety property: every event satisfies
  `P`. Binding asks it of the first reader, and of the second one only at
  the value the first one really answered.

The rules below are all there is to either; no proof above this module
unfolds the monad.
-/

namespace Machine

variable {c : Prop} {α : Type} {n : Nat}

/-- A reader of a fixed memory: its answer and the events it caused. -/
def Traced (ε α : Type) : Type := Mem → α × List ε

namespace Traced

variable {ε α β : Type}

/-- The answer. -/
def val (x : Traced ε α) (m : Mem) : α := (x m).1

/-- The events, in the order they happened. -/
def log (x : Traced ε α) (m : Mem) : List ε := (x m).2

instance : Monad (Traced ε) where
  pure a := fun _ => (a, [])
  bind x f := fun m => ((f (x m).1 m).1, (x m).2 ++ (f (x m).1 m).2)

/-- Cause one event. -/
def emit (e : ε) : Traced ε Unit := fun _ => ((), [e])

/-- Read a value off the memory, causing one event. -/
def look (e : ε) (f : Mem → α) : Traced ε α := fun m => (f m, [e])

@[simp] theorem val_pure (a : α) (m : Mem) : (pure a : Traced ε α).val m = a := (rfl)

@[simp] theorem val_bind (x : Traced ε α) (f : α → Traced ε β) (m : Mem) :
    (x >>= f).val m = (f (x.val m)).val m := (rfl)

@[simp] theorem val_ite (c : Prop) [Decidable c] (x y : Traced ε α) (m : Mem) :
    (if c then x else y).val m = if c then x.val m else y.val m := by
  by_cases h : c <;> simp [h]

@[simp] theorem log_bind (x : Traced ε α) (f : α → Traced ε β) (m : Mem) :
    (x >>= f).log m = x.log m ++ (f (x.val m)).log m := (rfl)

@[simp] theorem log_emit (e : ε) (m : Mem) : (emit e).log m = [e] := (rfl)

@[simp] theorem log_look (e : ε) (f : Mem → α) (m : Mem) : (look e f).log m = [e] := (rfl)

/-- Every event of the reader satisfies `P`. -/
def Logs (P : ε → Prop) (x : Traced ε α) (m : Mem) : Prop := ∀ e ∈ x.log m, P e

variable {P : ε → Prop} {m : Mem}

theorem Logs.pure (a : α) : Logs P (Pure.pure a : Traced ε α) m := by
  intro e he
  cases he

theorem Logs.bind {x : Traced ε α} {f : α → Traced ε β} (hx : Logs P x m)
    (hf : Logs P (f (x.val m)) m) : Logs P (x >>= f) m := by
  intro e he
  rcases List.mem_append.mp he with h | h
  · exact hx e h
  · exact hf e h

theorem Logs.ite [Decidable c] {x y : Traced ε α} (hx : c → Logs P x m)
    (hy : ¬ c → Logs P y m) : Logs P (if c then x else y) m := by
  by_cases h : c
  · rw [if_pos h]; exact hx h
  · rw [if_neg h]; exact hy h

theorem Logs.emit {e : ε} (h : P e) : Logs P (Traced.emit e) m := by
  intro e' he
  rw [List.mem_singleton.mp he]
  exact h

theorem Logs.look {e : ε} {f : Mem → α} (h : P e) : Logs P (Traced.look e f) m := by
  intro e' he
  rw [List.mem_singleton.mp he]
  exact h

/-- How many events satisfy `q`. -/
def count (q : ε → Bool) (x : Traced ε α) (m : Mem) : Nat := (x.log m).countP q

variable {q : ε → Bool}

@[simp] theorem count_pure (a : α) : count q (Pure.pure a : Traced ε α) m = 0 := (rfl)

@[simp] theorem count_bind (x : Traced ε α) (f : α → Traced ε β) :
    count q (x >>= f) m = count q x m + count q (f (x.val m)) m := by
  rw [count, log_bind, List.countP_append]
  rfl

@[simp] theorem count_emit (e : ε) :
    count q (Traced.emit e) m = if q e = true then 1 else 0 := by
  rw [count, log_emit, List.countP_singleton]

@[simp] theorem count_look (e : ε) (f : Mem → α) :
    count q (Traced.look e f) m = if q e = true then 1 else 0 := by
  rw [count, log_look, List.countP_singleton]

@[simp] theorem count_ite (c : Prop) [Decidable c] (x y : Traced ε α) :
    count q (if c then x else y) m = if c then count q x m else count q y m := by
  by_cases h : c <;> simp [h]

end Traced

/-! ## Loops -/

/-- The counted loop `for (i = 0; i < n; i++)`, threading an accumulator. -/
def forUpTo {M : Type → Type} [Monad M] {α : Type} (body : Nat → α → M α) : Nat → α → M α
  | 0, a => pure a
  | n + 1, a => forUpTo body n a >>= body n

/-- What every turn keeps, a loop that may stop early and did not has kept. -/
theorem forUpTo_some {body : Nat → α → Option α} {a c : α} (inv : Nat → α → Prop)
    (h0 : inv 0 a) (hstep : ∀ i < n, ∀ b b', inv i b → body i b = some b' → inv (i + 1) b')
    (h : forUpTo body n a = some c) : inv n c := by
  induction n generalizing c with
  | zero =>
    cases h
    exact h0
  | succ n ih =>
    obtain ⟨b, hb, hc⟩ := Option.bind_eq_some_iff.mp h
    exact hstep n (Nat.lt_succ_self n) b c (ih (fun i hi => hstep i (by omega)) hb) hc

/-- A loop whose turns do not stop early does not stop early. -/
theorem forUpTo_total (body : Nat → α → Option α) (n : Nat) (a : α) (inv : Nat → α → Prop)
    (h0 : inv 0 a) (hstep : ∀ i < n, ∀ b, inv i b → ∃ b', body i b = some b' ∧ inv (i + 1) b') :
    ∃ c, forUpTo body n a = some c ∧ inv n c := by
  induction n with
  | zero => exact ⟨a, rfl, h0⟩
  | succ n ih =>
    obtain ⟨b, hb, hinv⟩ := ih fun i hi => hstep i (by omega)
    obtain ⟨c, hc, hinv'⟩ := hstep n (Nat.lt_succ_self n) b hinv
    exact ⟨c, Option.bind_eq_some_iff.mpr ⟨b, hb, hc⟩, hinv'⟩

/-- A loop of a reader computes the fold of what its turns compute. -/
theorem Traced.forUpTo_val {ε : Type} (body : Nat → α → Traced ε α) (n : Nat) (a : α) (m : Mem) :
    (forUpTo body n a).val m = (List.range n).foldl (fun a i => (body i a).val m) a := by
  induction n with
  | zero => rfl
  | succ n ih => rw [forUpTo, Traced.val_bind, ih, List.range_succ, List.foldl_append]; rfl

theorem Traced.Logs.forUpTo {ε : Type} {P : ε → Prop} {body : Nat → α → Traced ε α}
    {a : α} {m : Mem} (h : ∀ i < n, ∀ b, Traced.Logs P (body i b) m) :
    Traced.Logs P (Machine.forUpTo body n a) m := by
  induction n with
  | zero => exact Traced.Logs.pure a
  | succ n ih => exact Traced.Logs.bind (ih fun i hi => h i (by omega)) (h n (by omega) _)

/-! ## Readers that refuse -/

/-- A reader that answers a value or refuses with a status. -/
def Checked (ε σ α : Type) : Type := Traced ε (Except σ α)

namespace Checked

variable {ε σ α β : Type}

/-- The answer or the refusal. -/
def val (x : Checked ε σ α) (m : Mem) : Except σ α := Traced.val x m

/-- The events, in the order they happened. -/
def log (x : Checked ε σ α) (m : Mem) : List ε := Traced.log x m

instance : Monad (Checked ε σ) where
  pure a := fun _ => (.ok a, [])
  bind x f := fun m =>
    match x m with
    | (.ok a, es) => ((f a m).1, es ++ (f a m).2)
    | (.error e, es) => (.error e, es)

/-- A reader that never refuses. -/
def lift (x : Traced ε α) : Checked ε σ α :=
  (x >>= fun a => pure (Except.ok a) : Traced ε (Except σ α))

/-- Refuse with `e` when `c` holds: the early `if (c) return e;`. -/
def refuseIf (c : Prop) [Decidable c] (e : σ) : Checked ε σ Unit :=
  (if c then pure (Except.error e) else pure (Except.ok ()) : Traced ε (Except σ Unit))

variable {m : Mem}

theorem val_bind (x : Checked ε σ α) (f : α → Checked ε σ β) (m : Mem) :
    (x >>= f).val m = (x.val m).bind fun a => (f a).val m := by
  change (match x m with
    | (.ok a, es) => ((f a m).1, es ++ (f a m).2)
    | (.error e, es) => (.error e, es)).1 = (x m).1.bind fun a => (f a m).1
  rcases x m with ⟨_ | _, _⟩ <;> rfl

theorem log_bind (x : Checked ε σ α) (f : α → Checked ε σ β) (m : Mem) :
    (x >>= f).log m = x.log m ++
      match x.val m with
      | .ok a => (f a).log m
      | .error _ => [] := by
  change (match x m with
    | (.ok a, es) => ((f a m).1, es ++ (f a m).2)
    | (.error e, es) => (.error e, es)).2 = (x m).2 ++
      match (x m).1 with
      | .ok a => (f a m).2
      | .error _ => []
  rcases x m with ⟨_ | _, _⟩
  · exact (List.append_nil _).symm
  · rfl

/-- Every event of the reader satisfies `P`, whether it refuses or not. -/
def Logs (P : ε → Prop) (x : Checked ε σ α) (m : Mem) : Prop := Traced.Logs P x m

variable {P : ε → Prop}

theorem Logs.pure (a : α) : Logs P (Pure.pure a : Checked ε σ α) m := Traced.Logs.pure _

theorem Logs.lift {x : Traced ε α} (h : Traced.Logs P x m) :
    Logs P (Checked.lift x : Checked ε σ α) m :=
  Traced.Logs.bind h (Traced.Logs.pure _)

theorem Logs.refuseIf [Decidable c] {e : σ} :
    Logs P (Checked.refuseIf c e : Checked ε σ Unit) m :=
  Traced.Logs.ite (fun _ => Traced.Logs.pure _) (fun _ => Traced.Logs.pure _)

/-- The second half of a bind only runs at what the first half answered. -/
theorem Logs.bind {x : Checked ε σ α} {f : α → Checked ε σ β} (hx : Logs P x m)
    (hf : ∀ a, x.val m = .ok a → Logs P (f a) m) : Logs P (x >>= f) m := by
  intro e he
  change e ∈ (x >>= f).log m at he
  rw [log_bind] at he
  rcases List.mem_append.mp he with h | h
  · exact hx e h
  · cases hv : x.val m with
    | error _ => rw [hv] at h; cases h
    | ok a => rw [hv] at h; exact hf a hv e h

end Checked

end Machine
