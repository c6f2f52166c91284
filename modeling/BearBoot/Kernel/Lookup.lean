import BearBoot.Kernel.Walk

/-!
# Lookup is iteration that stops

`bbp_find_tag` and `bbp_for_each_tag` are two loops that check checksums at
different places: lookup only where the id matches, iteration at every
tag. They share the structural checks and the ceiling on steps.

`lookup_iteration_agree` says that this is all the same, on every memory
and in every context: cyclic chains, tags inside other tags, a mix of good
and corrupt ones. There is one sequence of tags, the one a callback sees
that never stops (`iterated`). Lookup of an id is the first tag of the
sequence that has it. A callback that stops at its `n`-th tag has seen the
first `n` tags of the sequence, and `n` is returned.

The callback is any program over any state; it is observed by writing down
beside its state what it is given (`observed`), which changes neither
what it does nor what is returned (`forEachTag_observed`).
-/

set_option autoImplicit false

namespace BearBoot.Kernel

open Machine

/-- The tags a callback sees that never stops. -/
def iterated (k : Option Kctx) (m : Mem) : List Nat :=
  ((forEachTag k (some collect) []).val m).2

/-- The callback, with what it has been given written down. -/
def observed {σ : Type} (cb : TagCb σ) : TagCb (σ × List Nat) := fun t user => do
  let (stop, state) ← cb t user.1
  pure (stop, state, user.2 ++ [t])

/-- The number of the tag at which a callback stops, from a state on. -/
def stopIndex {σ : Type} (f : Nat → σ → Bool × σ) : List Nat → σ → Option Nat
  | [], _ => none
  | t :: ts, user => if (f t user).1 then some 1 else (stopIndex f ts (f t user).2).map (· + 1)

section Run

variable {σ : Type}

theorem observed_val (cb : TagCb σ) (m : Mem) (t : Nat) (user : σ × List Nat) :
    (observed cb t user).val m =
      (((cb t user.1).val m).1, ((cb t user.1).val m).2, user.2 ++ [t]) := (rfl)

/-- Writing down changes nothing. -/
theorem runCb_observed (f : Nat → σ → Bool × σ) (ts : List Nat) (n : Nat) (user : σ) (seen : List Nat) :
    ((runCb (fun t (u : σ × List Nat) => ((f t u.1).1, (f t u.1).2, u.2 ++ [t])) ts n (user, seen)).1,
      (runCb (fun t (u : σ × List Nat) => ((f t u.1).1, (f t u.1).2, u.2 ++ [t])) ts n (user, seen)).2.1) =
        runCb f ts n user := by
  induction ts generalizing n user seen with
  | nil => rfl
  | cons t ts ih =>
    simp only [runCb]
    split
    · rfl
    · exact ih _ _ _

/-- What is seen and counted, by where the callback stops. -/
theorem runCb_seen (f : Nat → σ → Bool × σ) (ts : List Nat) (n : Nat) (user : σ) (seen : List Nat) :
    ∃ user', runCb (fun t (u : σ × List Nat) => ((f t u.1).1, (f t u.1).2, u.2 ++ [t])) ts n (user, seen) =
      (n + ((stopIndex f ts user).getD ts.length), user',
        seen ++ ts.take ((stopIndex f ts user).getD ts.length)) := by
  induction ts generalizing n user seen with
  | nil => exact ⟨user, by simp [runCb, stopIndex]⟩
  | cons t ts ih =>
    simp only [runCb, stopIndex]
    by_cases hstop : (f t user).1 = true
    · rw [if_pos hstop, if_pos hstop]
      exact ⟨(f t user).2, rfl⟩
    · rw [if_neg hstop, if_neg hstop]
      obtain ⟨user', hrun⟩ := ih (n + 1) (f t user).2 (seen ++ [t])
      refine ⟨user', hrun.trans ?_⟩
      have hcount : ((stopIndex f ts (f t user).2).map (· + 1)).getD (t :: ts).length =
          (stopIndex f ts (f t user).2).getD ts.length + 1 := by
        cases stopIndex f ts (f t user).2 with
        | none => rfl
        | some i => rfl
      rw [hcount, List.take_succ_cons, List.append_assoc]
      refine Prod.ext ?_ rfl
      dsimp only
      omega

/-- A callback that never stops has no number. -/
theorem stopIndex_never {f : Nat → σ → Bool × σ} (h : ∀ t user, (f t user).1 = false) (ts : List Nat)
    (user : σ) : stopIndex f ts user = none := by
  induction ts generalizing user with
  | nil => rfl
  | cons t ts ih => rw [stopIndex, if_neg (by rw [h]; exact Bool.false_ne_true), ih]; rfl

end Run

section Iterate

variable {σ : Type} (k : Option Kctx) (m : Mem)

/-- The sequence is the delivered tags, and empty where there is no INFO. -/
theorem iterated_eq : iterated k m =
    match k with
    | none => []
    | some k => if k.info = 0 then [] else delivered k m := by
  cases k with
  | none => rfl
  | some k =>
    by_cases hk : k.info = 0
    · simp only [iterated, forEachTag, if_pos hk]
      rfl
    · simp only [iterated, forEachTag_collect hk, if_neg hk]

/-- Iteration is the callback run over the sequence. -/
theorem forEachTag_iterated (cb : TagCb σ) (user : σ) :
    (forEachTag k (some cb) user).val m = runCb (fun t s => (cb t s).val m) (iterated k m) 0 user := by
  rw [iterated_eq]
  cases k with
  | none => rfl
  | some k =>
    by_cases hk : k.info = 0
    · simp only [forEachTag, if_pos hk]
      rfl
    · simp only [if_neg hk]
      exact forEachTag_val hk m cb user

/-- Observing a callback changes neither its state nor the count. -/
theorem forEachTag_observed (cb : TagCb σ) (user : σ) :
    (forEachTag k (some cb) user).val m =
      (((forEachTag k (some (observed cb)) (user, [])).val m).1,
        ((forEachTag k (some (observed cb)) (user, [])).val m).2.1) := by
  rw [forEachTag_iterated, forEachTag_iterated]
  exact (runCb_observed (fun t s => (cb t s).val m) (iterated k m) 0 user []).symm

theorem forEachTag_seen (cb : TagCb σ) (user : σ) :
    ((forEachTag k (some (observed cb)) (user, [])).val m).1 =
        (stopIndex (fun t s => (cb t s).val m) (iterated k m) user).getD (iterated k m).length ∧
      ((forEachTag k (some (observed cb)) (user, [])).val m).2.2 = (iterated k m).take
        ((stopIndex (fun t s => (cb t s).val m) (iterated k m) user).getD (iterated k m).length) := by
  obtain ⟨user', hrun⟩ := runCb_seen (fun t s => (cb t s).val m) (iterated k m) 0 user []
  rw [forEachTag_iterated]
  simp only [observed_val, hrun, Nat.zero_add, List.nil_append, and_self]

/-- Lookup, on the sequence. -/
theorem findTag_iterated (id : Nat) :
    (findTag k id).val m = (iterated k m).find? fun t => decide (tagId m t = id) := by
  rw [iterated_eq]
  cases k with
  | none => rfl
  | some k =>
    by_cases hk : k.info = 0
    · simp only [findTag, if_pos hk]
      rfl
    · -- the filter of iteration and the test of lookup ask the same of a tag, in another order
      have hsame : (fun t => decide (tagId m t = id ∧ Passes k m t)) =
          fun t => decide (Passes k m t ∧ tagId m t = id) :=
        funext fun t => decide_eq_decide.mpr and_comm
      simp only [if_neg hk, findTag_val hk, delivered, List.find?_filter, hsame, decide_eq_true_eq]

end Iterate

/-- Lookup and iteration agree. -/
theorem lookup_iteration_agree (k : Option Kctx) (m : Mem) :
    (∀ id, (findTag k id).val m = (iterated k m).find? fun t => decide (tagId m t = id)) ∧
    ∀ (σ : Type) (cb : TagCb σ) (user : σ),
      ((∀ t s, ((cb t s).val m).1 = false) →
        ((forEachTag k (some (observed cb)) (user, [])).val m).2.2 = iterated k m ∧
        ((forEachTag k (some cb) user).val m).1 = (iterated k m).length) ∧
      ∀ n, stopIndex (fun t s => (cb t s).val m) (iterated k m) user = some n →
        ((forEachTag k (some (observed cb)) (user, [])).val m).2.2 = (iterated k m).take n ∧
        ((forEachTag k (some cb) user).val m).1 = n := by
  refine ⟨findTag_iterated k m, fun σ cb user => ?_⟩
  obtain ⟨hcount, hseen⟩ := forEachTag_seen k m cb user
  rw [forEachTag_observed k m cb user]
  dsimp only
  rw [hcount, hseen]
  refine ⟨fun hnever => ?_, fun n hn => ?_⟩
  · rw [stopIndex_never hnever]
    exact ⟨List.take_length, rfl⟩
  · rw [hn]
    exact ⟨rfl, rfl⟩

end BearBoot.Kernel
