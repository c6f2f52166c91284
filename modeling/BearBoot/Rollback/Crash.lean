import BearBoot.Rollback.Authority

/-!
# What a crash leaves

The journal's writers take turns under a lock and may stop anywhere: with
the floor advanced and no record written, with a record in place that was
never acknowledged. The log of a history is what reached a slot path, in
order. `Kept` ties it to the world: the log's records have the sequences
1, 2, 3, …, each went to the slot of its parity, and each slot holds the
last record that went to it. `commit_kept` is the step.

From `Kept` a load is a computation (`Kept.loaded`): the last record, or,
where a crash left the floor ahead of it, the same sequence with nothing
selected. And because two consecutive records never share a slot, losing
either file leaves the other of the last two (`Kept.damaged`), as long as
what is wrong with it is something the loop over the slots catches. What it
does not catch, `RecursionError`, goes through every load and every commit
(`Kept.escaped`), although the other file is whole.

Nothing here speaks of both files at once. With neither readable a load
refuses, and the module above says that the floor stands even then.
-/

set_option autoImplicit false

namespace BearBoot.Rollback

open Machine.Json

open Machine

variable {i : Fin 2} {r : BootState} {args : CommitArgs}

/-- The records that reached a slot path, oldest first. -/
abbrev Log := List (Fin 2 × BootState)

/-- The last record written to a slot. -/
def lastIn (log : Log) (i : Fin 2) : Option BootState :=
  (log.filter fun e => decide (e.1 = i)).getLast?.map Prod.snd

/-- A record as the floor shows it: a generation the floor has passed
selects no slots. -/
def view (floor : Nat) (r : BootState) : BootState :=
  if r.generation = floor then r
  else { r with generation := floor, activeSlot := none, pendingSlot := none }

/-- What a load should show after the log. -/
def shown (floor : Nat) (log : Log) : BootState :=
  (log.getLast?).elim ⟨0, floor, none, none⟩ fun e => view floor e.2

theorem lastIn_snoc (log : Log) (e : Fin 2 × BootState) (i : Fin 2) :
    lastIn (log ++ [e]) i = if e.1 = i then some e.2 else lastIn log i := by
  unfold lastIn
  rw [List.filter_append]
  by_cases h : e.1 = i
  · rw [if_pos h, List.filter_cons_of_pos (by simpa using h), List.filter_nil,
      List.getLast?_concat]
    rfl
  · rw [if_neg h, List.filter_cons_of_neg (by simpa using h), List.filter_nil, List.append_nil]

theorem mem_of_lastIn {log : Log} (h : lastIn log i = some r) :
    (i, r) ∈ log := by
  unfold lastIn at h
  obtain ⟨e, he, rfl⟩ := Option.map_eq_some_iff.mp h
  obtain ⟨hmem, hi⟩ := List.mem_filter.mp (List.mem_of_getLast? he)
  rw [← of_decide_eq_true hi]
  exact hmem

@[simp] theorem view_sequence (floor : Nat) (r : BootState) : (view floor r).sequence = r.sequence := by
  unfold view
  split <;> rfl

theorem underFloor_view {floor : Nat} (h : r.generation ≤ floor) :
    underFloor floor r = .ok (view floor r) := by
  unfold underFloor view
  rw [if_neg (by omega)]
  by_cases hlt : r.generation < floor
  · rw [if_pos hlt, if_neg (by omega)]
  · rw [if_neg hlt, if_pos (by omega)]

/-! ## The invariant -/

/-- The world is what the log left. -/
structure Kept (j : Journal) (w : World) (log : Log) : Prop where
  floor : w.floor ≤ uint64Max
  slots : ∀ i, w.slots i =
    (lastIn log i).elim .absent fun r => .regular (recordBytes j.codec.sha256 r)
  sequences : ∀ k e, log[k]? = some e → e.2.sequence = k + 1
  stored : ∀ e ∈ log, e.2.Stored ∧ e.2.generation ≤ w.floor ∧ e.1 = slotOf e.2.sequence

variable {front : Log}

section Kept

variable {j : Journal} {w : World} {log : Log}

theorem Kept.read (h : Kept j w log) (i : Fin 2) :
    readSlot j.codec (j.slotPath i) (w.slots i) = .ok (lastIn log i) := by
  rw [h.slots i]
  cases hl : lastIn log i with
  | none => rfl
  | some r => exact readSlot_eq_some_iff.mpr ⟨rfl, (h.stored _ (mem_of_lastIn hl)).1⟩

theorem Kept.last_sequence {e : Fin 2 × BootState} (h : Kept j w (front ++ [e])) :
    e.2.sequence = front.length + 1 :=
  h.sequences front.length e (by simp)

/-- A record of the log is older than one that follows it. -/
theorem Kept.older {e e' : Fin 2 × BootState} (h : Kept j w (front ++ [e]))
    (he : e' ∈ front) : e'.2.sequence < e.2.sequence := by
  obtain ⟨k, hk⟩ := List.mem_iff_getElem?.mp he
  have hlt : k < front.length := (List.getElem?_eq_some_iff.mp hk).1
  have hseq := h.sequences k e' (by rw [List.getElem?_append_left hlt]; exact hk)
  rw [h.last_sequence, hseq]
  omega

theorem Kept.shown_sequence (h : Kept j w log) (floor : Nat) :
    (shown floor log).sequence = log.length := by
  rcases List.eq_nil_or_concat' log with rfl | ⟨front, e, rfl⟩
  · rfl
  · rw [shown, List.getLast?_concat, Option.elim_some, view_sequence, h.last_sequence,
      List.length_append]
    rfl

/-- A load shows the last record, as the floor lets it. -/
theorem Kept.loaded (h : Kept j w log) : j.loadUnlocked w.slots w.floor = .ok (shown w.floor log) := by
  rcases List.eq_nil_or_concat' log with rfl | ⟨front, e, rfl⟩
  · have hread := h.read
    simp only [Journal.loadUnlocked, Journal.readAll, hread]
    rfl
  · have he : e ∈ front ++ [e] := List.mem_append_right _ List.mem_cons_self
    have hlast : lastIn (front ++ [e]) e.1 = some e.2 := by rw [lastIn_snoc, if_pos rfl]
    obtain ⟨k, hk⟩ := exists_other e.1
    rw [loadUnlocked_newest hk w.floor ((h.read e.1).trans (by rw [hlast])),
      underFloor_view (h.stored e he).2.1, shown, List.getLast?_concat]
    · rfl
    · intro e' he'
      rw [h.read k] at he'
      cases he'
    · intro r' hr'
      rw [h.read k, lastIn_snoc, if_neg hk.symm] at hr'
      exact h.older (mem_of_lastIn (Except.ok.inj hr'))

/-- The floor may move on without a record. -/
theorem Kept.advance (h : Kept j w log) (p' : Provider) (hup : w.floor ≤ p'.floor)
    (hin : p'.floor ≤ uint64Max) : Kept j ⟨p', w.slots⟩ log where
  floor := hin
  slots := h.slots
  sequences := h.sequences
  stored := fun e he => ⟨(h.stored e he).1, (h.stored e he).2.1.trans hup, (h.stored e he).2.2⟩

/-- The next record goes into the slot of its parity. -/
theorem Kept.publish (h : Kept j w log) {state : BootState} (hstored : state.Stored)
    (hgen : state.generation ≤ w.floor) (hseq : state.sequence = log.length + 1) :
    Kept j ⟨w.provider, Function.update w.slots (slotOf state.sequence)
      (.regular (recordBytes j.codec.sha256 state))⟩ (log ++ [(slotOf state.sequence, state)]) where
  floor := h.floor
  slots := by
    intro i
    rw [lastIn_snoc]
    by_cases hi : slotOf state.sequence = i
    · rw [if_pos hi, hi]
      exact Function.update_self i _ w.slots
    · rw [if_neg hi]
      change Function.update w.slots _ _ i = _
      rw [Function.update_of_ne (fun hc => hi hc.symm), h.slots i]
  sequences := by
    intro k e he
    by_cases hk : k < log.length
    · rw [List.getElem?_append_left hk] at he
      exact h.sequences k e he
    · rw [List.getElem?_append_right (by omega)] at he
      have hzero : k - log.length = 0 := by
        by_contra hne
        rw [List.getElem?_eq_none (by simp; omega)] at he
        cases he
      rw [hzero] at he
      cases he
      dsimp only
      omega
  stored := by
    intro e he
    rcases List.mem_append.mp he with hold | hnew
    · exact h.stored e hold
    · rw [List.mem_singleton.mp hnew]
      exact ⟨hstored, hgen, rfl⟩

/-! ## The step -/

/-- The record a turn published, as a log. -/
def publishedBy (x : Turn World (CommitArgs × Option Crash) Answer) : Log := x.outcome.published.toList

/-- The journal's writers, one at a time. -/
def Journal.commitStep (j : Journal) (fuel : Nat) (w : World) (e : CommitArgs × Option Crash) :
    Option (Answer × World) := j.commit alone fuel w e.1 e.2

theorem accepts_floor {w : World} {r : Request} {current : BootState}
    {p' : Provider} (h : j.Accepts w args r current p') :
    w.floor ≤ p'.floor ∧ p'.floor ≤ uint64Max := by
  have hgen := h.generation
  have hmax := (CommitArgs.check_ok h.check).2.1
  rcases h.advance with hretry | ⟨hnew, _⟩
  · exact ⟨by omega, by omega⟩
  · exact ⟨by omega, by omega⟩

/-- A commit that publishes, publishes the successor of what its caller
expected. -/
theorem commit_published {crash : Option Crash} {answer : Answer} {w' : World}
    {fuel : Nat} {slot : Fin 2} {state : BootState} (hfloor : w.floor ≤ uint64Max)
    (heq : j.commit alone (fuel + 1) w args crash = some (answer, w'))
    (hpub : answer.published = some (slot, state)) :
    ∃ expected : Nat, args.expectedSequence = .int expected ∧ state.sequence = expected + 1 := by
  rcases j.commit_cases args crash fuel hfloor with
    ⟨e, w₁, hraise, _⟩ | ⟨_, hcrash⟩ | ⟨r, current, p', hacc, _, hdone⟩
  · rw [hraise] at heq
    cases heq
    cases hpub
  · rw [hcrash] at heq
    cases heq
    cases hpub
  · rw [hdone, Journal.leaves] at heq
    split at heq
    · cases heq
      cases hpub
    · cases heq
      cases hpub
      exact ⟨r.expectedSequence, (CommitArgs.check_ok hacc.check).2.2.2.1,
        congrArg (· + 1) hacc.passes.sequence⟩

theorem commit_kept {e : CommitArgs × Option Crash} {answer : Answer} {w' : World} {fuel : Nat}
    (h : Kept j w log) (heq : j.commitStep (fuel + 1) w e = some (answer, w')) :
    Kept j w' (log ++ publishedBy ⟨w, e, answer, w'⟩) := by
  unfold Journal.commitStep at heq
  rcases j.commit_cases e.1 e.2 fuel h.floor with
    ⟨_, w₁, hraise, hsame, hslots, _⟩ | ⟨_, hcrash⟩ | ⟨r, current, p', hacc, _, hdone⟩
  · rw [hraise] at heq
    cases heq
    have hkept := h.advance w'.provider hsame.ge (hsame.le.trans h.floor)
    rw [← hslots] at hkept
    rw [publishedBy, Option.toList_none, List.append_nil]
    exact hkept
  · rw [hcrash] at heq
    cases heq
    rw [publishedBy, Option.toList_none, List.append_nil]
    exact h
  · obtain ⟨hup, hin⟩ := accepts_floor hacc
    have hkept := h.advance p' hup hin
    rw [hdone, Journal.leaves] at heq
    split at heq
    · cases heq
      rw [publishedBy, Option.toList_none, List.append_nil]
      exact hkept
    · cases heq
      rw [publishedBy, Option.toList_some]
      refine hkept.publish (next_stored hacc.check hacc.passes) hacc.generation.ge ?_
      -- the record goes on from what a load shows, and that is the end of the log
      have hcurrent := Except.ok.inj (h.loaded.symm.trans hacc.passes.loaded)
      rw [← h.shown_sequence w.floor, hcurrent]
      rfl

/-! ## One file lost -/

variable {file : File} {error : Error}

/-- What the loop does not catch, it lets through. -/
theorem Kept.escaped (h : Kept j w log)
    (hbad : readSlot j.codec (j.slotPath i) file = .error error) (hcaught : error.caught = false) :
    j.loadUnlocked (Function.update w.slots i file) w.floor = .error error := by
  obtain ⟨k, hk⟩ := exists_other i
  refine loadUnlocked_escapes hk w.floor (by rw [Function.update_self]; exact hbad) hcaught ?_
  intro e he
  rw [Function.update_of_ne hk, h.read] at he
  cases he

/-- With one slot beyond reading, one of the last two records is still
loaded. -/
theorem Kept.damaged (h : Kept j w log) {a b : Fin 2 × BootState}
    (hlog : log = front ++ [a] ++ [b])
    (hbad : readSlot j.codec (j.slotPath i) file = .error error) (hcaught : error.caught = true) :
    ∃ e, (e = a ∨ e = b) ∧
      j.loadUnlocked (Function.update w.slots i file) w.floor = .ok (view w.floor e.2) := by
  subst hlog
  have ha : a ∈ front ++ [a] ++ [b] := by simp
  have hb : b ∈ front ++ [a] ++ [b] := by simp
  have hseqA : a.2.sequence = front.length + 1 :=
    h.sequences front.length a (by simp)
  have hseqB : b.2.sequence = front.length + 2 := by
    have := h.last_sequence
    rwa [List.length_append] at this
  have hparity : a.1 ≠ b.1 := by
    rw [(h.stored a ha).2.2, (h.stored b hb).2.2, hseqA, hseqB]
    intro hc
    have := congrArg Fin.val hc
    simp only [slotOf] at this
    omega
  -- the damaged slot decides nothing, so the other one does
  have hlose : ∀ {k : Fin 2} {e : Fin 2 × BootState}, e ∈ front ++ [a] ++ [b] → k = i → e.1 ≠ k →
      lastIn (front ++ [a] ++ [b]) e.1 = some e.2 →
      j.loadUnlocked (Function.update w.slots i file) w.floor = .ok (view w.floor e.2) := by
    rintro k e he rfl hne hlast
    have hread : readSlot j.codec (j.slotPath e.1) (Function.update w.slots k file e.1) =
        .ok (some e.2) := by
      rw [Function.update_of_ne hne, h.read, hlast]
    rw [loadUnlocked_newest hne.symm w.floor hread, underFloor_view (h.stored e he).2.1]
    · intro e' he'
      rw [Function.update_self, hbad] at he'
      cases he'
      exact hcaught
    · intro r' hr'
      rw [Function.update_self, hbad] at hr'
      cases hr'
  by_cases hi : i = b.1
  · refine ⟨a, Or.inl rfl, hlose ha rfl (hi ▸ hparity) ?_⟩
    rw [lastIn_snoc, if_neg hparity.symm, lastIn_snoc, if_pos rfl]
  · refine ⟨b, Or.inr rfl, hlose hb rfl (fun hc => hi hc.symm) ?_⟩
    rw [lastIn_snoc, if_pos rfl]

end Kept

theorem load_alone (j : Journal) (w : World) (hfloor : w.floor ≤ uint64Max) :
    (j.load alone w).1 = j.loadUnlocked w.slots w.floor := by
  have hread := uint64_ofNat hfloor "provider floor"
  unfold World.floor at hread
  unfold Journal.load readFloor alone
  dsimp only
  rw [hread]
  rfl

theorem fresh_kept (j : Journal) {floor : Nat} (h : floor ≤ uint64Max) :
    Kept j (World.fresh floor) [] :=
  ⟨h, fun _ => rfl, (fun k e he => by cases he), fun e he => by cases he⟩

/-- Over every history of commits and crashes from absent slots: a load
answers the last published record under the floor; the published
sequences are 1, 2, 3, …, one for each expected sequence; records
alternate between the slots; and with either of the two files lost, one
of the last two records still loads and can be succeeded, if the loop over
the slots catches what reading that file raises. Where it does not, every
load and every commit raises it. -/
theorem journal_crash_consistent (j : Journal) (floor fuel : Nat) (hfloor : floor ≤ uint64Max)
    (hfuel : 1 ≤ fuel) :
    (∀ es, ∃ ts w, Run (j.commitStep fuel) (World.fresh floor) ts w ∧ ts.map Turn.event = es) ∧
    ∀ ts w, Run (j.commitStep fuel) (World.fresh floor) ts w →
      (j.load alone w).1 = .ok (shown w.floor (ts.flatMap publishedBy)) ∧
      (ts.flatMap publishedBy).map (fun e => e.2.sequence) =
        List.range' 1 (ts.flatMap publishedBy).length ∧
      (∀ x ∈ ts, ∀ slot state, x.outcome.published = some (slot, state) →
        ∃ expected : Nat, x.event.1.expectedSequence = .int expected ∧
          state.sequence = expected + 1) ∧
      (∀ e ∈ ts.flatMap publishedBy, e.1 = slotOf e.2.sequence) ∧
      (∀ front a b back, ts.flatMap publishedBy = front ++ a :: b :: back → a.1 ≠ b.1) ∧
      ∀ front a b, ts.flatMap publishedBy = front ++ [a] ++ [b] → ∀ i file error,
        readSlot j.codec (j.slotPath i) file = .error error →
        (error.caught = true → ∃ e, (e = a ∨ e = b) ∧
          (j.load alone ⟨w.provider, Function.update w.slots i file⟩).1 = .ok (view w.floor e.2) ∧
          ∀ args r, args.check = .ok r → r.expectedSequence = e.2.sequence →
            e.2.sequence ≠ uint64Max →
            (bootPolicyEvaluate w.floor r.generation (roleCode r.role)).decision.accepts = true →
            ∃ w', j.commit alone fuel ⟨w.provider, Function.update w.slots i file⟩ args none =
              some (⟨.returned (r.next e.2), some (slotOf (e.2.sequence + 1), r.next e.2)⟩, w')) ∧
        (error.caught = false →
          (j.load alone ⟨w.provider, Function.update w.slots i file⟩).1 = .error error ∧
          ∀ args r, args.check = .ok r →
            ∃ w', j.commit alone fuel ⟨w.provider, Function.update w.slots i file⟩ args none =
              some (⟨.raised error, none⟩, w')) := by
  obtain ⟨k, rfl⟩ : ∃ k, fuel = k + 1 := ⟨fuel - 1, by omega⟩
  refine ⟨fun es => ?_, fun ts w hrun => ?_⟩
  · refine Run.exists_of_total (I := fun w => ∃ log, Kept j w log) (fun w e ⟨log, h⟩ => ?_)
      ⟨[], fresh_kept j hfloor⟩ es
    obtain ⟨answer, w', heq⟩ : ∃ answer w', j.commitStep (k + 1) w e = some (answer, w') := by
      unfold Journal.commitStep
      rcases j.commit_cases e.1 e.2 k h.floor with
        ⟨_, _, heq, _⟩ | ⟨_, heq⟩ | ⟨_, _, _, _, _, heq⟩
      · exact ⟨_, _, heq⟩
      · exact ⟨_, _, heq⟩
      · exact ⟨_, _, heq⟩
    exact ⟨answer, w', heq, _, commit_kept h heq⟩
  have hkept : Kept j w (ts.flatMap publishedBy) := by
    have := hrun.logged (I := Kept j) (fun w log e answer w' h heq => commit_kept h heq)
      (fresh_kept j hfloor)
    rwa [List.nil_append] at this
  obtain ⟨log, hlog⟩ : ∃ log, ts.flatMap publishedBy = log := ⟨_, rfl⟩
  rw [hlog] at hkept ⊢
  refine ⟨(load_alone j w hkept.floor).trans hkept.loaded, ?_, ?_, fun e he => (hkept.stored e he).2.2,
    ?_, ?_⟩
  · apply List.ext_getElem?
    intro n
    rw [List.getElem?_map]
    by_cases hn : n < log.length
    · obtain ⟨e, he⟩ : ∃ e, log[n]? = some e := ⟨_, List.getElem?_eq_getElem hn⟩
      rw [he, List.getElem?_range' hn, Option.map_some, hkept.sequences n e he]
      congr 1
      omega
    · rw [List.getElem?_eq_none (by omega), List.getElem?_eq_none (by simp; omega)]
      rfl
  · intro x hx slot state hpub
    obtain ⟨⟨_, hbefore⟩, hturn⟩ := hrun.turn (I := fun w => ∃ log, Kept j w log)
      (fun w e answer w' ⟨_, h⟩ heq => ⟨_, commit_kept h heq⟩) ⟨[], fresh_kept j hfloor⟩ x hx
    exact commit_published hbefore.floor hturn hpub
  · rintro front a b back rfl hsame
    have hseqA := hkept.sequences front.length a (by simp)
    have hseqB := hkept.sequences (front.length + 1) b (by simp)
    rw [(hkept.stored a (by simp)).2.2, (hkept.stored b (by simp)).2.2, hseqA, hseqB] at hsame
    have := congrArg Fin.val hsame
    simp only [slotOf] at this
    omega
  · rintro front a b rfl i file error hbad
    have hshow := load_alone j ⟨w.provider, Function.update w.slots i file⟩ hkept.floor
    refine ⟨fun hcaught => ?_, fun hcaught => ?_⟩
    · obtain ⟨e, he, hload⟩ := hkept.damaged rfl hbad hcaught
      have hnext : ∀ r : Request, r.next (view w.floor e.2) = r.next e.2 := by
        intro r
        rw [Request.next, view_sequence]
        rfl
      refine ⟨e, he, hshow.trans hload, fun args r hcheck hseq hnot hacc => ?_⟩
      have hpass : j.Passes (Function.update w.slots i file) w.floor r (view w.floor e.2) :=
        ⟨hload, by rw [view_sequence, hseq], by rw [view_sequence]; exact hnot⟩
      obtain ⟨p', _, hdone⟩ := commit_accepted (w := ⟨w.provider, Function.update w.slots i file⟩) k
        none (by decide) hkept.floor hcheck hpass hacc
      rw [hnext] at hdone
      exact ⟨_, hdone⟩
    · have hload := hkept.escaped hbad hcaught
      exact ⟨hshow.trans hload, fun args r hcheck =>
        ⟨_, commit_raises (w := ⟨w.provider, Function.update w.slots i file⟩) k hkept.floor hcheck hload⟩⟩

/-- Three releases, the second stopped behind its replace and the third
before it. -/
theorem sample_history : ∃ ts w, Run (sampleJournal.commitStep 2) (World.fresh 7) ts w ∧
    ts.map (fun x => x.outcome.outcome) = [.returned (released 8 0), .crashed, .crashed] ∧
    ts.flatMap publishedBy = [(1, released 8 0), (0, released 9 1)] ∧ w.floor = 10 := by
  obtain ⟨p₁, p₂, hfirst, hsecond, _, hfloor⟩ := sample_publishes
  have hrun : Run (sampleJournal.commitStep 2) (World.fresh 7) _ ⟨p₂, sampleSlots 2⟩ :=
    .cons (e := (release 8 0, none)) hfirst
      (.cons (e := (release 9 1, some Crash.afterReplace)) hsecond (.nil _))
  have hkept := hrun.logged (I := Kept sampleJournal) (fun w log e answer w' h heq => commit_kept h heq)
    (fresh_kept sampleJournal (by decide))
  obtain ⟨p₃, hthird, hdone⟩ := release_commits (w := ⟨p₂, sampleSlots 2⟩) (some .beforeReplace)
    (by decide) rfl (by rw [World.floor, hfloor]; decide) hkept.loaded
    (show _ = 2 from hkept.shown_sequence _) (by decide)
  rw [World.floor, hfloor] at hthird
  exact ⟨_, _, .cons (e := (release 8 0, none)) hfirst
    (.cons (e := (release 9 1, some Crash.afterReplace)) hsecond
      (.cons (e := (release _ 2, some Crash.beforeReplace)) hdone (.nil _))), rfl, rfl, hthird⟩

/-- A file of one exclamation mark costs one record. -/
theorem journal_crash_consistent_sample :
    ∃ ts w, Run (sampleJournal.commitStep 2) (World.fresh 7) ts w ∧
      ts.map (fun x => x.outcome.outcome) = [.returned (released 8 0), .crashed, .crashed] ∧
      ts.flatMap publishedBy = [(1, released 8 0), (0, released 9 1)] ∧
      (sampleJournal.load alone w).1 = .ok ⟨2, 10, none, none⟩ ∧
      ∃ e : Fin 2 × BootState, (e = (1, released 8 0) ∨ e = (0, released 9 1)) ∧
        (sampleJournal.load alone ⟨w.provider, Function.update w.slots 0 (.regular [0x21])⟩).1 =
          .ok (view 10 e.2) := by
  obtain ⟨ts, w, hrun, houtcomes, hlog, hfloor⟩ := sample_history
  obtain ⟨hload, _, _, _, _, hlost⟩ :=
    (journal_crash_consistent sampleJournal 7 2 (by decide) (by decide)).2 ts w hrun
  have hbad : readSlot sampleJournal.codec (sampleJournal.slotPath 0) (.regular [0x21]) =
      .error (.corrupt "invalid journal JSON: state.a") := by
    rw [readSlot, if_neg (by decide), show sampleJournal.codec = Codec.exact from rfl,
      exact_loads (by decide), if_neg (by decide)]
    rfl
  obtain ⟨e, he, hone, _⟩ := (hlost [] _ _ hlog 0 _ _ hbad).1 rfl
  rw [hlog, hfloor] at hload
  rw [hfloor] at hone
  exact ⟨ts, w, hrun, houtcomes, hlog, hload, e, he, hone⟩

/-- A file of a thousand open brackets costs the journal: the two records
behind it are whole, one of them in the other file, and neither a load nor a
commit gets past it. -/
theorem nested_file_stops_the_journal :
    ∃ ts w, Run (sampleJournal.commitStep 2) (World.fresh 7) ts w ∧
      ts.flatMap publishedBy = [(1, released 8 0), (0, released 9 1)] ∧
      (sampleJournal.load alone ⟨w.provider, Function.update w.slots 0 nestedFile⟩).1 =
        .error .recursion ∧
      ∀ args r, args.check = .ok r →
        ∃ w', sampleJournal.commit alone 2 ⟨w.provider, Function.update w.slots 0 nestedFile⟩ args none =
          some (⟨.raised .recursion, none⟩, w') := by
  obtain ⟨ts, w, hrun, _, hlog, _⟩ := sample_history
  have hkept := hrun.logged (I := Kept sampleJournal) (fun w log e answer w' h heq => commit_kept h heq)
    (fresh_kept sampleJournal (by decide))
  have hload := hkept.escaped (nestedFile_read 0) rfl
  have hshow := load_alone sampleJournal ⟨w.provider, Function.update w.slots 0 nestedFile⟩ hkept.floor
  exact ⟨ts, w, hrun, hlog, hshow.trans hload, fun args r hcheck =>
    ⟨_, commit_raises (w := ⟨w.provider, Function.update w.slots 0 nestedFile⟩) 1 hkept.floor hcheck hload⟩⟩

end BearBoot.Rollback
