import Mathlib.Logic.Function.Iterate
import Mathlib.Data.List.Count
import Mathlib.Data.List.Sort

/-!
# Spans, and two ways to look at what lies between them

A span is a start and a size. A format that places spans in a file and
demands something of every position BETWEEN them (that it be blank, say)
has to find the gaps first, and there are two usual ways to do it: sort
the spans and walk them, or, without room to sort, keep a cursor and
select the next span again and again. Both are here, over any predicate
`P` on positions.

- `Gaps P spans lo hi` is the specification: `P` holds of every position
  of `[lo, hi)` that no span covers.
- `pick` is the selection: the first span, by start, at or past a cursor.
  `selection_iff` says that as many selections as there are spans, each
  with its gap checked, and the tail checked at the end, decide `Gaps`.
- `WalkOk` is the walk over a list of spans; `walk_iff` says that on a list
  in order it decides `Gaps`.

A sorted list also decides disjointness by its neighbours alone
(`disjoint_iff_neighbours`), and its last span says where it ends
(`lastStop_eq_iff`).

Both stand on one step (`gaps_step`): when nothing at or past the cursor
starts before `p`, the positions up to `p` are a gap, the positions of `p`
are none, and the question goes on behind `p`. Disjointness is what makes
"behind `p`" leave nothing out.
-/

namespace Machine

variable {cursor : Nat}

structure Span where
  start : Nat
  size : Nat
  deriving DecidableEq, Repr

variable {s : Span}

namespace Span

/-- One past the last position. -/
def stop (s : Span) : Nat := s.start + s.size

def Covers (s : Span) (x : Nat) : Prop := s.start ≤ x ∧ x < s.stop

instance (s : Span) (x : Nat) : Decidable (s.Covers x) := inferInstanceAs (Decidable (_ ∧ _))

/-- The spans share no position. -/
def Disjoint (s t : Span) : Prop := s.stop ≤ t.start ∨ t.stop ≤ s.start

instance (s t : Span) : Decidable (s.Disjoint t) := inferInstanceAs (Decidable (_ ∨ _))

theorem Disjoint.symm {t : Span} (h : s.Disjoint t) : t.Disjoint s := Or.symm h

end Span

variable {p : Span}

section Gaps

variable {P : Nat → Prop} {spans : List Span} {lo hi : Nat}

/-- `P` holds of every position of `[lo, hi)` that no span covers. -/
def Gaps (P : Nat → Prop) (spans : List Span) (lo hi : Nat) : Prop :=
  ∀ x, lo ≤ x → x < hi → (∀ s ∈ spans, ¬ s.Covers x) → P x

/-- Every span lies on one side of the cursor. -/
def Split (spans : List Span) (cursor : Nat) : Prop :=
  ∀ s ∈ spans, s.stop ≤ cursor ∨ cursor ≤ s.start

/-- The span `p` is the next one at or past the cursor. -/
structure IsNext (spans : List Span) (cursor : Nat) (p : Span) : Prop where
  mem : p ∈ spans
  past : cursor ≤ p.start
  least : ∀ s ∈ spans, cursor ≤ s.start → p.start ≤ s.start

theorem gaps_step (hsplit : Split spans cursor)
    (hnext : IsNext spans cursor p) (hin : p.stop ≤ hi) :
    Gaps P spans cursor hi ↔
      (∀ x, cursor ≤ x → x < p.start → P x) ∧ Gaps P spans p.stop hi := by
  have hpast := hnext.past
  unfold Span.stop at hin
  constructor
  · intro h
    refine ⟨fun x hlo hhi => ?_, fun x hlo hhi hx => ?_⟩
    · refine h x hlo (by omega) fun s hs hcov => ?_
      -- a span over the gap would have to start between the cursor and `p`
      rcases hsplit s hs with hstop | hstart
      · exact absurd hcov.2 (by omega)
      · have := hnext.least s hs hstart
        exact absurd hcov.1 (by omega)
    · exact h x (by unfold Span.stop at hlo; omega) hhi hx
  · rintro ⟨hgap, hrest⟩ x hlo hhi hx
    have hnot := hx p hnext.mem
    unfold Span.Covers at hnot
    by_cases hbefore : x < p.start
    · exact hgap x hlo hbefore
    · exact hrest x (by omega) hhi hx

/-- Past every span, only the tail is left. -/
theorem gaps_tail (hall : ∀ s ∈ spans, s.stop ≤ cursor) :
    Gaps P spans cursor hi ↔ ∀ x, cursor ≤ x → x < hi → P x := by
  constructor
  · intro h x hlo hhi
    refine h x hlo hhi fun s hs hcov => ?_
    have := hall s hs
    exact absurd hcov.2 (by omega)
  · exact fun h x hlo hhi _ => h x hlo hhi

/-- Disjoint spans of positive size fall on the two sides of the next
one's end. -/
theorem Split.next (hsplit : Split spans cursor)
    (hnext : IsNext spans cursor p) (hsize : ∀ s ∈ spans, s.size ≠ 0)
    (hdisj : ∀ s ∈ spans, s = p ∨ s.Disjoint p) : Split spans p.stop := by
  intro s hs
  have hpast := hnext.past
  have hpos := hsize s hs
  rcases hdisj s hs with rfl | hd
  · exact Or.inl (Nat.le_refl _)
  · rcases hsplit s hs with hstop | hstart
    · exact Or.inl (by unfold Span.stop at hstop ⊢; omega)
    · have hleast := hnext.least s hs hstart
      rcases hd with hd | hd
      · exact absurd hd (by unfold Span.stop; omega)
      · exact Or.inr hd

theorem disjoint_of_pairwise (hpair : spans.Pairwise Span.Disjoint) {t : Span} (hs : s ∈ spans)
    (ht : t ∈ spans) : s = t ∨ s.Disjoint t := by
  induction hpair with
  | nil => cases hs
  | cons hhead _ ih =>
    cases hs with
    | head =>
      cases ht with
      | head => exact Or.inl rfl
      | tail _ ht => exact Or.inr (hhead _ ht)
    | tail _ hs =>
      cases ht with
      | head => exact Or.inr (hhead _ hs).symm
      | tail _ ht => exact ih hs ht

end Gaps

/-- An indexed family is pairwise related when every earlier member is
related to every later one. -/
theorem pairwise_range_map {α : Type} {R : α → α → Prop} {f : Nat → α} {n : Nat} :
    ((List.range n).map f).Pairwise R ↔ ∀ i < n, ∀ j < i, R (f j) (f i) := by
  rw [List.pairwise_iff_getElem]
  simp only [List.length_map, List.length_range, List.getElem_map, List.getElem_range]
  constructor
  · exact fun h i hi j hj => h j i (Nat.lt_trans hj hi) hi hj
  · exact fun h j i _ hi hj => h i hi j hj

/-! ## Selection -/

section Selection

variable {P : Nat → Prop} {spans : List Span} {n cursor : Nat}

/-- Keep the better of two candidates: a span at or past the cursor that
starts before the best one so far. -/
def better (cursor : Nat) (best s : Span) : Span :=
  if cursor ≤ s.start ∧ s.start < best.start then s else best

/-- Select over all spans; the empty span at `n` when none is left. -/
def pick (spans : List Span) (n cursor : Nat) : Span :=
  spans.foldl (better cursor) ⟨n, 0⟩

/-- The cursor after one selection. -/
def advance (spans : List Span) (n cursor : Nat) : Nat := (pick spans n cursor).stop

theorem foldl_better (cursor : Nat) (spans : List Span) (best : Span) :
    (spans.foldl (better cursor) best = best ∨
      spans.foldl (better cursor) best ∈ spans ∧
        cursor ≤ (spans.foldl (better cursor) best).start) ∧
    (spans.foldl (better cursor) best).start ≤ best.start ∧
    ∀ s ∈ spans, cursor ≤ s.start → (spans.foldl (better cursor) best).start ≤ s.start := by
  induction spans generalizing best with
  | nil => exact ⟨Or.inl rfl, Nat.le_refl _, fun s hs => by cases hs⟩
  | cons t spans ih =>
    obtain ⟨hfrom, hle, hleast⟩ := ih (better cursor best t)
    rw [List.foldl_cons]
    have hbetter : (better cursor best t).start ≤ best.start ∧
        (cursor ≤ t.start → (better cursor best t).start ≤ t.start) := by
      unfold better
      split
      next h => exact ⟨Nat.le_of_lt h.2, fun _ => Nat.le_refl _⟩
      next h => exact ⟨Nat.le_refl _, fun hc => by omega⟩
    refine ⟨?_, Nat.le_trans hle hbetter.1, ?_⟩
    · rcases hfrom with heq | ⟨hmem, hpast⟩
      · rw [heq]
        unfold better
        split
        next h => exact Or.inr ⟨List.mem_cons_self, h.1⟩
        next => exact Or.inl rfl
      · exact Or.inr ⟨List.mem_cons_of_mem _ hmem, hpast⟩
    · intro s hs hc
      rcases List.mem_cons.mp hs with rfl | hs
      · exact Nat.le_trans hle (hbetter.2 hc)
      · exact hleast s hs hc

/-- While a span is left, the selection finds the next one. -/
theorem pick_isNext (hstart : ∀ s ∈ spans, s.start < n) (hs : s ∈ spans)
    (hpast : cursor ≤ s.start) : IsNext spans cursor (pick spans n cursor) := by
  obtain ⟨hfrom, _, hleast⟩ := foldl_better cursor spans ⟨n, 0⟩
  rcases hfrom with heq | ⟨hmem, hge⟩
  · have hlt := hstart s hs
    have := hleast s hs hpast
    rw [heq] at this
    exact absurd this (by change ¬ n ≤ s.start; omega)
  · exact ⟨hmem, hge, hleast⟩

/-- How many spans are at or past the cursor. -/
def ahead (spans : List Span) (cursor : Nat) : Nat :=
  spans.countP fun s => decide (cursor ≤ s.start)

/-- Behind the next span there is one span less ahead. -/
theorem ahead_next (hnext : IsNext spans cursor p)
    (hsize : ∀ s ∈ spans, s.size ≠ 0) (hpair : spans.Pairwise Span.Disjoint) :
    ahead spans cursor = ahead spans p.stop + 1 := by
  obtain ⟨front, back, rfl⟩ := List.append_of_mem hnext.mem
  obtain ⟨_, hback, hcross⟩ := List.pairwise_append.mp hpair
  have hp := hsize p hnext.mem
  have hpast := hnext.past
  -- apart from `p`, a span is past the cursor exactly when it is past the end of `p`
  have hsame : ∀ s ∈ front ++ p :: back, s.Disjoint p →
      (decide (cursor ≤ s.start) = true ↔ decide (p.stop ≤ s.start) = true) := by
    intro s hs hd
    have hpos := hsize s hs
    rw [decide_eq_true_iff, decide_eq_true_iff]
    constructor
    · intro hc
      have hle := hnext.least s hs hc
      rcases hd with hd | hd
      · exact absurd hd (by unfold Span.stop; omega)
      · exact hd
    · intro hstop
      unfold Span.stop at hstop
      omega
  have hfront : front.countP (fun s => decide (cursor ≤ s.start)) =
      front.countP fun s => decide (p.stop ≤ s.start) :=
    List.countP_congr fun s hs => hsame s (List.mem_append_left _ hs)
      (hcross s hs p List.mem_cons_self)
  have hbehind : back.countP (fun s => decide (cursor ≤ s.start)) =
      back.countP fun s => decide (p.stop ≤ s.start) :=
    List.countP_congr fun s hs =>
      hsame s (List.mem_append_right _ (List.mem_cons_of_mem _ hs))
        ((List.pairwise_cons.mp hback).1 s hs).symm
  have hout : ¬ p.stop ≤ p.start := by
    unfold Span.stop
    omega
  rw [ahead, ahead, List.countP_append, List.countP_append, List.countP_cons, List.countP_cons,
    hfront, hbehind, if_pos (decide_eq_true hpast), decide_eq_false hout]
  rfl

/-- Selecting and checking as often as there are spans ahead, and then
checking the tail, decides the gaps from the cursor on. -/
theorem selection_from (hsize : ∀ s ∈ spans, s.size ≠ 0) (hin : ∀ s ∈ spans, s.stop ≤ n)
    (hpair : spans.Pairwise Span.Disjoint) {k : Nat} (hsplit : Split spans cursor)
    (hahead : ahead spans cursor = k) :
    ((∀ i < k, (pick spans n ((advance spans n)^[i] cursor)).size ≠ 0 ∧
        ∀ x, (advance spans n)^[i] cursor ≤ x →
          x < (pick spans n ((advance spans n)^[i] cursor)).start → P x) ∧
      ∀ x, (advance spans n)^[k] cursor ≤ x → x < n → P x) ↔ Gaps P spans cursor n := by
  have hstart : ∀ s ∈ spans, s.start < n := by
    intro s hs
    have h₁ := hsize s hs
    have h₂ := hin s hs
    unfold Span.stop at h₂
    omega
  induction k generalizing cursor with
  | zero =>
    have hall : ∀ s ∈ spans, s.stop ≤ cursor := by
      intro s hs
      have hno := List.countP_eq_zero.mp hahead s hs
      rw [decide_eq_true_iff] at hno
      exact (hsplit s hs).resolve_right hno
    rw [gaps_tail hall]
    constructor
    · exact fun h => h.2
    · exact fun h => ⟨fun i hi => absurd hi (Nat.not_lt_zero i), h⟩
  | succ k ih =>
    obtain ⟨s, hs, hpast⟩ := List.countP_pos_iff.mp (show 0 < ahead spans cursor by omega)
    have hnext := pick_isNext hstart hs (decide_eq_true_iff.mp hpast)
    have hsplit' := hsplit.next hnext hsize fun t ht => disjoint_of_pairwise hpair ht hnext.mem
    have hahead' := ahead_next hnext hsize hpair
    have ih' := ih hsplit' (by omega)
    refine Iff.trans ?_ (gaps_step hsplit hnext (hin _ hnext.mem)).symm
    refine Iff.trans ?_ (and_congr_right fun _ => ih')
    constructor
    · rintro ⟨hsteps, htail⟩
      refine ⟨(hsteps 0 (Nat.succ_pos k)).2, fun i hi => ?_, htail⟩
      exact hsteps (i + 1) (by omega)
    · rintro ⟨hgap, hsteps, htail⟩
      refine ⟨fun i hi => ?_, htail⟩
      cases i with
      | zero => exact ⟨hsize _ hnext.mem, hgap⟩
      | succ i => exact hsteps i (by omega)

/-- Selection decides the gaps. -/
theorem selection_iff (hsize : ∀ s ∈ spans, s.size ≠ 0) (hin : ∀ s ∈ spans, s.stop ≤ n)
    (hpair : spans.Pairwise Span.Disjoint) :
    ((∀ i < spans.length, (pick spans n ((advance spans n)^[i] 0)).size ≠ 0 ∧
        ∀ x, (advance spans n)^[i] 0 ≤ x →
          x < (pick spans n ((advance spans n)^[i] 0)).start → P x) ∧
      ∀ x, (advance spans n)^[spans.length] 0 ≤ x → x < n → P x) ↔ Gaps P spans 0 n := by
  refine selection_from hsize hin hpair (fun s _ => Or.inr (Nat.zero_le _)) ?_
  exact List.countP_eq_length.mpr fun s _ => decide_eq_true (Nat.zero_le _)

/-- A selection stays in bounds: it answers a span of the list, or the
empty one at the end. -/
theorem pick_stop_le (hin : ∀ s ∈ spans, s.stop ≤ n) (cursor : Nat) :
    (pick spans n cursor).stop ≤ n := by
  rcases (foldl_better cursor spans ⟨n, 0⟩).1 with heq | ⟨hmem, _⟩
  · unfold pick
    rw [heq]
    exact Nat.le_refl _
  · exact hin _ hmem

/-- A selection that is not empty found a span at or past the cursor. -/
theorem pick_past (h : (pick spans n cursor).size ≠ 0) : cursor ≤ (pick spans n cursor).start := by
  rcases (foldl_better cursor spans ⟨n, 0⟩).1 with heq | ⟨_, hge⟩
  · exact absurd (congrArg Span.size heq) h
  · exact hge

theorem iterate_advance_le (hin : ∀ s ∈ spans, s.stop ≤ n) (i : Nat) :
    (advance spans n)^[i] 0 ≤ n := by
  cases i with
  | zero => exact Nat.zero_le n
  | succ i =>
    rw [Function.iterate_succ_apply']
    exact pick_stop_le hin _

end Selection

/-! ## The sorted walk -/

variable {spans sorted : List Span}

section Walk

variable {P : Nat → Prop} {n : Nat}

/-- Walk the spans in the order of the list, checking each gap, and the
tail at the end. -/
def WalkOk (P : Nat → Prop) (n : Nat) : (cursor : Nat) → List Span → Prop
  | cursor, [] => ∀ x, cursor ≤ x → x < n → P x
  | cursor, s :: rest => (∀ x, cursor ≤ x → x < s.start → P x) ∧ WalkOk P n s.stop rest

theorem walkOk_from {rest : List Span} (hsub : ∀ s ∈ rest, s ∈ spans)
    (hsize : ∀ s ∈ spans, s.size ≠ 0) (hin : ∀ s ∈ spans, s.stop ≤ n)
    (hordered : rest.Pairwise fun s t => s.stop ≤ t.start) (hpast : ∀ s ∈ rest, cursor ≤ s.start)
    (hdone : ∀ s ∈ spans, s ∉ rest → s.stop ≤ cursor) :
    WalkOk P n cursor rest ↔ Gaps P spans cursor n := by
  induction rest generalizing cursor with
  | nil => exact (gaps_tail fun s hs => hdone s hs List.not_mem_nil).symm
  | cons p rest ih =>
    obtain ⟨hhead, htail⟩ := List.pairwise_cons.mp hordered
    have hp := hpast p List.mem_cons_self
    have hsplit : Split spans cursor := by
      intro s hs
      by_cases hrest : s ∈ p :: rest
      · exact Or.inr (hpast s hrest)
      · exact Or.inl (hdone s hs hrest)
    have hpstop : p.start ≤ p.stop := Nat.le_add_right _ _
    have hnext : IsNext spans cursor p := by
      refine ⟨hsub p List.mem_cons_self, hp, fun s hs hc => ?_⟩
      by_cases hrest : s ∈ p :: rest
      · rcases List.mem_cons.mp hrest with rfl | hs'
        · exact Nat.le_refl _
        · exact Nat.le_trans hpstop (hhead s hs')
      · have hstop := hdone s hs hrest
        have hpos := hsize s hs
        exact absurd hstop (by unfold Span.stop; omega)
    rw [WalkOk, gaps_step hsplit hnext (hin _ hnext.mem)]
    refine and_congr_right fun _ => ih (fun s hs => hsub s (List.mem_cons_of_mem _ hs)) htail
      hhead ?_
    intro s hs hnot
    by_cases hsp : s = p
    · exact Nat.le_of_eq (congrArg Span.stop hsp)
    · have hnot' : s ∉ p :: rest := fun hmem => (List.mem_cons.mp hmem).elim hsp hnot
      exact Nat.le_trans (hdone s hs hnot') (Nat.le_trans hp hpstop)

/-- On the same spans in order, the walk decides the gaps. -/
theorem walk_iff (hperm : sorted.Perm spans)
    (hsize : ∀ s ∈ spans, s.size ≠ 0) (hin : ∀ s ∈ spans, s.stop ≤ n)
    (hordered : sorted.Pairwise fun s t => s.stop ≤ t.start) :
    WalkOk P n 0 sorted ↔ Gaps P spans 0 n :=
  walkOk_from (fun _ hs => hperm.mem_iff.mp hs) hsize hin hordered (fun _ _ => Nat.zero_le _)
    fun _ hs hnot => absurd (hperm.mem_iff.mpr hs) hnot

/-- A list of spans in order comes to its end where its last span does. -/
def lastStop (cursor : Nat) (spans : List Span) : Nat := spans.foldl (fun _ s => s.stop) cursor

theorem lastStop_cases (cursor : Nat) (spans : List Span) :
    (spans = [] ∧ lastStop cursor spans = cursor) ∨ ∃ s ∈ spans, lastStop cursor spans = s.stop := by
  induction spans generalizing cursor with
  | nil => exact Or.inl ⟨rfl, rfl⟩
  | cons s rest ih =>
    right
    rcases ih s.stop with ⟨_, hlast⟩ | ⟨t, ht, hlast⟩
    · exact ⟨s, List.mem_cons_self, hlast⟩
    · exact ⟨t, List.mem_cons_of_mem _ ht, hlast⟩

theorem stop_le_lastStop (hordered : spans.Pairwise fun s t => s.stop ≤ t.start)
    (cursor : Nat) (hs : s ∈ spans) : s.stop ≤ lastStop cursor spans := by
  induction hordered generalizing cursor with
  | nil => cases hs
  | @cons t rest hhead _ ih =>
    change s.stop ≤ lastStop t.stop rest
    rcases List.mem_cons.mp hs with rfl | hs
    · rcases lastStop_cases s.stop rest with ⟨_, hlast⟩ | ⟨u, hu, hlast⟩
      · exact Nat.le_of_eq hlast.symm
      · rw [hlast]
        exact Nat.le_trans (hhead u hu) (Nat.le_add_right _ _)
    · exact ih _ hs

/-- The spans come to their end at `n` when one of them stops there, or
when there is none and the cursor is there. -/
theorem lastStop_eq_iff (hin : ∀ s ∈ spans, s.stop ≤ n)
    (hordered : spans.Pairwise fun s t => s.stop ≤ t.start) :
    lastStop cursor spans = n ↔ (∃ s ∈ spans, s.stop = n) ∨ spans = [] ∧ cursor = n := by
  constructor
  · intro h
    rcases lastStop_cases cursor spans with ⟨hnil, hlast⟩ | ⟨s, hs, hlast⟩
    · exact Or.inr ⟨hnil, hlast.symm.trans h⟩
    · exact Or.inl ⟨s, hs, hlast.symm.trans h⟩
  · rintro (⟨s, hs, hstop⟩ | ⟨rfl, rfl⟩)
    · have hle := stop_le_lastStop hordered cursor hs
      rcases lastStop_cases cursor spans with ⟨rfl, _⟩ | ⟨t, ht, hlast⟩
      · cases hs
      · have := hin t ht
        omega
    · rfl

/-- Disjoint spans of positive size, sorted by start, are in order. -/
theorem ordered_of_sorted (hsize : ∀ s ∈ sorted, s.size ≠ 0)
    (hpair : sorted.Pairwise Span.Disjoint)
    (hsorted : sorted.Pairwise fun s t => s.start ≤ t.start) :
    sorted.Pairwise fun s t => s.stop ≤ t.start := by
  refine (hpair.and hsorted).imp_of_mem fun {s t} hs ht h => ?_
  obtain ⟨hd, hle⟩ := h
  have hpos := hsize t ht
  rcases hd with hd | hd
  · exact hd
  · exact absurd hd (by unfold Span.stop; omega)

/-- In a list sorted by start, spans of positive size are disjoint when
neighbours are. -/
theorem disjoint_iff_neighbours (hsize : ∀ s ∈ sorted, s.size ≠ 0)
    (hsorted : sorted.Pairwise fun s t => s.start ≤ t.start) :
    sorted.Pairwise Span.Disjoint ↔ sorted.IsChain fun s t => s.stop ≤ t.start := by
  have htrans : Trans (fun s t : Span => s.stop ≤ t.start) (fun s t : Span => s.stop ≤ t.start)
      (fun s t : Span => s.stop ≤ t.start) :=
    ⟨fun {_ t _} h h' => Nat.le_trans h (Nat.le_trans (Nat.le_add_right t.start t.size) h')⟩
  rw [List.isChain_iff_pairwise]
  exact ⟨fun h => ordered_of_sorted hsize h hsorted, fun h => h.imp Or.inl⟩

end Walk

/-! ## Sorting by a key -/

section Sorting

variable {α : Type} {r : α → α → Prop} [DecidableRel r] {key : α → Nat}

theorem pairwise_orderedInsert_key (hle : ∀ a b, r a b → key a ≤ key b)
    (hge : ∀ a b, ¬ r a b → key b ≤ key a) (a : α) {l : List α}
    (h : l.Pairwise fun a b => key a ≤ key b) :
    (l.orderedInsert r a).Pairwise fun a b => key a ≤ key b := by
  induction l with
  | nil => exact List.pairwise_singleton _ a
  | cons b l ih =>
    obtain ⟨hhead, htail⟩ := List.pairwise_cons.mp h
    rw [List.orderedInsert_cons]
    split
    next hr =>
      refine List.pairwise_cons.mpr ⟨fun c hc => ?_, h⟩
      rcases List.mem_cons.mp hc with rfl | hc
      · exact hle a c hr
      · exact Nat.le_trans (hle a b hr) (hhead c hc)
    next hr =>
      refine List.pairwise_cons.mpr ⟨fun c hc => ?_, ih htail⟩
      rcases (List.mem_orderedInsert r).mp hc with rfl | hc
      · exact hge c b hr
      · exact hhead c hc

/-- Sorting by an order that compares a key first sorts by the key. -/
theorem pairwise_insertionSort_key (key : α → Nat) (hle : ∀ a b, r a b → key a ≤ key b)
    (hge : ∀ a b, ¬ r a b → key b ≤ key a) (l : List α) :
    (l.insertionSort r).Pairwise fun a b => key a ≤ key b := by
  induction l with
  | nil => exact List.Pairwise.nil
  | cons a l ih => exact pairwise_orderedInsert_key hle hge a ih

end Sorting

end Machine
