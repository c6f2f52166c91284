import BearBoot.Bridge.Refine
import BearBoot.Bridge.Reverse

/-!
# A construction that fails leaves its outputs alone

`bbp_v2_build`, `bbp_v2_from_v1` and `bbp_v2_to_v1` each size and check
everything before the first store into the destination. A failure is
therefore a failure before that store, and a success has stored below the
length it answers and nowhere else.

The three have other objects of their caller to write to: `*written` and
`*report`, and the forward bridge its workspace, where it keeps the tags it
has seen and the normalized INFO while the checks are still going on. The
model has these as values, the normalized INFO apart, and the entries of a
build as well. So what a call leaves in the destination is said of every
memory that agrees with the model's outside those objects
(`Caller.Stores`), for callers whose objects are apart from the destination
and from each other. Without that nothing could be said: `bbp_v2_build`
clears `*written` before its first check, and the forward bridge would find
`*written` changed in its own workspace.
-/

set_option autoImplicit false

namespace BearBoot.Bridge

open Machine V2

variable {err : Error}

/-! ## The caller -/

/-- What the caller passes besides the destination and the source: each
object with its address, or none for `NULL`. -/
structure Caller where
  written : Option (Nat × Nat)
  report : Option (Nat × Report)
  entries : Option (Nat × List BuildEntry)
  workspace : Option Nat

namespace Caller

/-- The bytes of the objects: a `size_t`, `struct bbp_v2_bridge_report`, an
array of `struct bbp_v2_build_entry` and `struct bbp_v2_bridge_workspace`. -/
def objects (c : Caller) : List Span :=
  c.written.toList.map (fun written => ⟨written.1, 8⟩) ++ c.report.toList.map (fun report => ⟨report.1, 8⟩) ++
    c.entries.toList.map (fun entries => ⟨entries.1, 40 * entries.2.length⟩) ++
    c.workspace.toList.map (fun workspace => ⟨workspace, 49296⟩)

/-- `&workspace->info_payload`, behind 1024 addresses and 1025 entries. -/
def payload (c : Caller) : Option Nat := c.workspace.map (· + 49192)

/-- The address is in none of the objects. -/
def Outside (c : Caller) (a : Nat) : Prop := ∀ s ∈ c.objects, ¬ s.Covers a

/-- Of the destination, and of everything outside the caller's objects, the
first `n` bytes of the destination are all that has changed: in every memory
that the caller can find where the model has `m'`. -/
def Stores (c : Caller) (destination : Span) (n : Nat) (m m' : Mem) : Prop :=
  ∀ found : Mem, (∀ a, c.Outside a → found a = m' a) → ∀ a, destination.Covers a ∨ c.Outside a →
    a < destination.start ∨ destination.start + n ≤ a → found a = m a

variable {c : Caller} {m m' : Mem} {output capacity n : Nat}

theorem Outside.payload {a : Nat} (h : c.Outside a) : ∀ w ∈ c.payload, a < w ∨ w + 104 ≤ a := by
  intro w hw
  obtain ⟨workspace, hworkspace, rfl⟩ := Option.map_eq_some_iff.mp hw
  have hnot := h ⟨workspace, 49296⟩ (by simp [objects, hworkspace])
  simp only [Span.Covers, Span.stop, not_and, not_lt] at hnot
  omega

theorem stores_of (hapart : (Span.mk output capacity :: c.objects).Pairwise Span.Disjoint)
    (h : ∀ a, c.Outside a → a < output ∨ output + n ≤ a → m' a = m a) :
    c.Stores ⟨output, capacity⟩ n m m' := by
  intro found hfound a hwhere ha
  have hout : c.Outside a := by
    refine hwhere.elim (fun hcovers s hs hs' => ?_) id
    have := (List.pairwise_cons.mp hapart).1 s hs
    unfold Span.Disjoint at this
    unfold Span.Covers at hcovers hs'
    omega
  rw [hfound a hout, h a hout ha]

end Caller

section

variable {m : Mem} {policy output capacity : Nat} {written : Option Nat} {report : Option Report}

/-! ## The builder -/

theorem build_error_of {entries : Option (List BuildEntry)} {w : Option Nat}
    {m' : Mem} (h : build m output capacity entries written = (.error err, w, m')) :
    m' = m ∧ w = written.map fun _ => 0 := by
  cases written with
  | none =>
    cases entries <;> cases h <;> exact ⟨rfl, rfl⟩
  | some w₀ =>
    cases entries with
    | none =>
      cases h
      exact ⟨rfl, rfl⟩
    | some es =>
      obtain ⟨hw, hm⟩ := build_error h
      exact ⟨hm, hw⟩

theorem build_ok_frame {entries : Option (List BuildEntry)} {w : Option Nat} {m' : Mem}
    (h : build m output capacity entries written = (.ok (), w, m')) :
    ∃ n, w = some n ∧ n ≤ capacity ∧ ∀ a, a < output ∨ output + n ≤ a → m' a = m a := by
  cases written with
  | none => cases entries <;> cases h
  | some w₀ =>
    cases entries with
    | none => cases h
    | some es =>
      obtain ⟨_, hbuildable, _, rfl, _⟩ := build_ok_iff.mp h
      exact ⟨_, rfl, hbuildable.capacity, (build_isEncoding h).2.1⟩

/-! ## The forward bridge -/

theorem fromV1_error {source : Option Source} {workspace : Option Nat} {r : Forward}
    (hr : fromV1 m source policy workspace output capacity written report = r)
    (herr : r.status = .error err) :
    r.written = written ∧ r.report = report ∧
      ∀ a, (∀ w ∈ workspace, a < w ∨ w + 104 ≤ a) → r.mem a = m a := by
  subst hr
  cases source with
  | none => exact ⟨rfl, rfl, fun a _ => rfl⟩
  | some source =>
    cases workspace with
    | none => exact ⟨rfl, rfl, fun a _ => rfl⟩
    | some workspace =>
      cases written with
      | none => exact ⟨rfl, rfl, fun a _ => rfl⟩
      | some w₀ =>
        have hframe : ∀ a, (∀ w ∈ some workspace, a < w ∨ w + 104 ≤ a) →
            normalizeInfo m workspace source.info a = m a := by
          intro a ha
          exact normalizeInfo_frame (ha workspace rfl)
        unfold fromV1 at herr ⊢
        dsimp only at herr ⊢
        split at herr
        next hnull =>
          rw [if_pos hnull]
          exact ⟨rfl, rfl, fun a _ => rfl⟩
        next hnull =>
          rw [if_neg hnull]
          split at herr
          next => exact ⟨rfl, rfl, fun a _ => rfl⟩
          next =>
            split at herr
            next => exact ⟨rfl, rfl, hframe⟩
            next st _ =>
              split at herr
              next e w m' hbuild =>
                rw [(build_error hbuild).2]
                exact ⟨rfl, rfl, hframe⟩
              next => cases herr

theorem fromV1_ok_frame {source : Option Source} {workspace : Option Nat} {r : Forward}
    (hr : fromV1 m source policy workspace output capacity written report = r)
    (hok : r.status = .ok ()) :
    ∃ n, r.written = some n ∧ n ≤ capacity ∧ ∀ a, (a < output ∨ output + n ≤ a) →
      (∀ w ∈ workspace, a < w ∨ w + 104 ≤ a) → r.mem a = m a := by
  cases source with
  | none => subst hr; cases hok
  | some source =>
    cases workspace with
    | none => subst hr; cases hok
    | some workspace =>
      cases written with
      | none => subst hr; cases hok
      | some w₀ =>
        obtain ⟨m₁, n, m₂, hm₁, hconv, hbuild, hwritten, _, _, hmem⟩ := fromV1_inv hr hok
        obtain ⟨n', hn, hcapacity, _⟩ := build_ok_frame hbuild
        cases hn
        refine ⟨n, hwritten, hcapacity, ?_⟩
        intro a ha houtside
        rw [hmem, normalizeBuilt_frame hconv hbuild ha, hm₁]
        exact normalizeInfo_frame (houtside workspace rfl)

/-! ## The reverse bridge -/

theorem toV1_error {source : Option View} {phys : Nat} {r : Reverse}
    (hr : toV1 m source policy output capacity phys written report = r)
    (herr : r.status = .error err) :
    r.written = written ∧ r.report = report ∧ r.mem = m := by
  subst hr
  unfold toV1 at herr ⊢
  dsimp only at herr ⊢
  split at herr
  next source w₀ =>
    split at herr
    next hnull =>
      rw [if_pos hnull]
      exact ⟨rfl, rfl, rfl⟩
    next hnull =>
      rw [if_neg hnull]
      split at herr
      next => exact ⟨rfl, rfl, rfl⟩
      next => exact ⟨rfl, rfl, rfl⟩
      next checked _ =>
        split at herr
        next => exact ⟨rfl, rfl, rfl⟩
        next => cases herr
  next => exact ⟨rfl, rfl, rfl⟩

theorem toV1_ok_frame {source : Option View} {phys : Nat} {r : Reverse}
    (hr : toV1 m source policy output capacity phys written report = r)
    (hok : r.status = .ok ()) :
    ∃ n, r.written = some n ∧ n ≤ capacity ∧ ∀ a, a < output ∨ output + n ≤ a → r.mem a = m a := by
  cases source with
  | none => subst hr; cases hok
  | some source =>
    cases written with
    | none => subst hr; cases hok
    | some w₀ =>
      obtain ⟨hne, hout, hwf, hrestorable, hplaced, hwritten, hmem⟩ := toV1_inv hr hok
      obtain ⟨m', hm', hframe, _⟩ := emitHandoff_restored hne hout hwf hrestorable hplaced
      refine ⟨_, hwritten, hplaced.enough, ?_⟩
      intro a ha
      rw [hmem, hm', hframe a ha]

end

/-- A call that fails has stored nothing in the destination, and has left the
outputs of a bridge as they were. A call that succeeds has stored below
the length it answers, which is within the capacity. The destination and the
caller's objects are apart from each other. -/
theorem construction_all_or_nothing (m : Mem) (policy output capacity : Nat) (c : Caller)
    (hapart : (Span.mk output capacity :: c.objects).Pairwise Span.Disjoint) :
    (∀ w m',
      (∀ err, build m output capacity (c.entries.map (·.2)) (c.written.map (·.2)) = (.error err, w, m') →
        c.Stores ⟨output, capacity⟩ 0 m m' ∧ w = c.written.map fun _ => 0) ∧
      (build m output capacity (c.entries.map (·.2)) (c.written.map (·.2)) = (.ok (), w, m') →
        ∃ n, w = some n ∧ n ≤ capacity ∧ c.Stores ⟨output, capacity⟩ n m m')) ∧
    (∀ source r,
      fromV1 m source policy c.payload output capacity (c.written.map (·.2)) (c.report.map (·.2)) = r →
      (∀ err, r.status = .error err → c.Stores ⟨output, capacity⟩ 0 m r.mem ∧
        r.written = c.written.map (·.2) ∧ r.report = c.report.map (·.2)) ∧
      (r.status = .ok () → ∃ n, r.written = some n ∧ n ≤ capacity ∧
        c.Stores ⟨output, capacity⟩ n m r.mem)) ∧
    (∀ source phys r,
      toV1 m source policy output capacity phys (c.written.map (·.2)) (c.report.map (·.2)) = r →
      (∀ err, r.status = .error err → c.Stores ⟨output, capacity⟩ 0 m r.mem ∧
        r.written = c.written.map (·.2) ∧ r.report = c.report.map (·.2)) ∧
      (r.status = .ok () → ∃ n, r.written = some n ∧ n ≤ capacity ∧
        c.Stores ⟨output, capacity⟩ n m r.mem)) := by
  refine ⟨?_, ?_, ?_⟩
  · intro w m'
    refine ⟨fun err h => ?_, fun h => ?_⟩
    · obtain ⟨rfl, hw⟩ := build_error_of h
      exact ⟨Caller.stores_of hapart fun a _ _ => rfl, by rw [hw, Option.map_map]; rfl⟩
    · obtain ⟨n, hw, hn, hframe⟩ := build_ok_frame h
      exact ⟨n, hw, hn, Caller.stores_of hapart fun a _ => hframe a⟩
  · intro source r hr
    refine ⟨fun err herr => ?_, fun hok => ?_⟩
    · obtain ⟨hwritten, hreport, hframe⟩ := fromV1_error hr herr
      exact ⟨Caller.stores_of hapart fun a hout _ => hframe a hout.payload, hwritten, hreport⟩
    · obtain ⟨n, hw, hn, hframe⟩ := fromV1_ok_frame hr hok
      exact ⟨n, hw, hn, Caller.stores_of hapart fun a hout ha => hframe a ha hout.payload⟩
  · intro source phys r hr
    refine ⟨fun err herr => ?_, fun hok => ?_⟩
    · obtain ⟨hwritten, hreport, hmem⟩ := toV1_error hr herr
      exact ⟨Caller.stores_of hapart fun a _ _ => by rw [hmem], hwritten, hreport⟩
    · obtain ⟨n, hw, hn, hframe⟩ := toV1_ok_frame hr hok
      exact ⟨n, hw, hn, Caller.stores_of hapart fun a _ => hframe a⟩

/-- A caller of the forward bridge, its workspace before the destination. -/
def sampleCaller : Caller := ⟨some (0x40000, 7), some (0x40008, ⟨9, 9⟩), none, some 0x13fd8⟩

/-- The sample into 399 bytes and into 400: the first call is refused and
has stored nothing, the second has stored them all. -/
theorem construction_all_or_nothing_sample :
    (∃ r, fromV1 sampleHandoff (some ⟨0x11000, some (kernelMap sampleKctx)⟩) 0 sampleCaller.payload 0x30000
        399 (some 7) (some ⟨9, 9⟩) = r ∧ r.status = .error .capacity ∧
      sampleCaller.Stores ⟨0x30000, 399⟩ 0 sampleHandoff r.mem ∧
      r.written = some 7 ∧ r.report = some ⟨9, 9⟩) ∧
    ∃ r, fromV1 sampleHandoff (some ⟨0x11000, some (kernelMap sampleKctx)⟩) 0 sampleCaller.payload 0x30000
        400 (some 7) (some ⟨9, 9⟩) = r ∧ r.status = .ok () ∧ r.written = some 400 ∧
      sampleCaller.Stores ⟨0x30000, 400⟩ 400 sampleHandoff r.mem := by
  refine ⟨?_, ?_⟩
  · obtain ⟨r, hr⟩ : ∃ r, fromV1 sampleHandoff (some ⟨0x11000, some (kernelMap sampleKctx)⟩) 0
      sampleCaller.payload 0x30000 399 (some 7) (some ⟨9, 9⟩) = r := ⟨_, rfl⟩
    have herr : r.status = .error .capacity := by
      rw [← hr]
      decide +kernel
    exact ⟨r, hr, herr, ((construction_all_or_nothing _ 0 0x30000 399 sampleCaller (by decide)).2.1 _ r hr).1
      _ herr⟩
  · obtain ⟨r, hr⟩ : ∃ r, fromV1 sampleHandoff (some ⟨0x11000, some (kernelMap sampleKctx)⟩) 0
      sampleCaller.payload 0x30000 400 (some 7) (some ⟨9, 9⟩) = r := ⟨_, rfl⟩
    have hok : r.status = .ok () ∧ r.written = some 400 := by
      rw [← hr]
      decide +kernel
    obtain ⟨n, hn, _, hstores⟩ :=
      ((construction_all_or_nothing _ 0 0x30000 400 sampleCaller (by decide)).2.1 _ r hr).2 hok.1
    obtain rfl := Option.some.inj (hok.2.symm.trans hn)
    exact ⟨r, hr, hok.1, hok.2, hstores⟩

end BearBoot.Bridge
