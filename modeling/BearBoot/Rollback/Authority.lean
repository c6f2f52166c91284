import BearBoot.Machine.Run
import BearBoot.Rollback.Record

/-!
# Only the floor decides

Nothing in the two slot files is trusted: anyone may delete, replay or
rewrite them between calls. What the journal must not do is let such a
file lower the generation floor, or raise it other than by one release.

The argument never looks into a file. One turn of `commit` compares the
request with the floor alone (`policy`, which is the C policy under other
names: `policy_cases`), and advances it only by compare-and-advance.
`Journal.commit_cases` says what one commit can leave behind, and
`floor_authority` follows it over whole histories, first with the
provider to itself and then among other users of a monotone one, where
the retry loop needs at most two turns.

Nothing here says that a record survives. That is the crash argument.
-/

set_option autoImplicit false

namespace BearBoot.Rollback

open Machine.Json

open Machine

variable {state r : BootState} {i : Fin 2}

/-- No slot has been written. -/
def World.fresh (floor : Nat) : World := ⟨⟨0, floor⟩, fun _ => .absent⟩

/-- The generation floor of a world. -/
def World.floor (w : World) : Nat := w.provider.floor

/-! ## The two policies -/

theorem roleCode_of_notMem {role : Value} (h : role ∉ roles) : roleCode role = 0 := by
  simp only [roles, List.mem_cons, List.not_mem_nil, or_false, not_or] at h
  rw [roleCode, if_neg h.1, if_neg h.2]

/-- The script and the C policy decide alike: they refuse, they accept a
retry of the floor, or they accept the next generation from a release. -/
theorem policy_cases (floor generation : Nat) (role : Value) :
    ((∃ text, policy floor generation role = .error (.policy text)) ∧
      (bootPolicyEvaluate floor generation (roleCode role)).decision.accepts = false) ∨
    (policy floor generation role = .ok .retry ∧
      bootPolicyEvaluate floor generation (roleCode role) = ⟨.acceptRetry, floor⟩ ∧
      generation = floor) ∨
    (policy floor generation role = .ok .update ∧
      bootPolicyEvaluate floor generation (roleCode role) = ⟨.acceptUpdate, generation⟩ ∧
      generation = floor + 1 ∧ role = .str "release" ∧ floor ≠ uint64Max) := by
  by_cases hrole : role ∈ roles
  · have hcode : ¬ (roleCode role ≠ 1 ∧ roleCode role ≠ 2) ∧
        (role = .str "recovery" ↔ roleCode role = 2) ∧ (role ≠ .str "recovery" → role = .str "release") := by
      simp only [roles, List.mem_cons, List.not_mem_nil, or_false] at hrole
      rcases hrole with rfl | rfl <;> decide
    obtain ⟨hknown, hrecovery, hrelease⟩ := hcode
    unfold policy bootPolicyEvaluate
    rw [if_neg (not_not.mpr hrole), if_neg hknown]
    by_cases hfull : floor = uint64Max ∧ generation ≠ floor
    · rw [if_pos hfull, if_pos hfull]
      exact Or.inl ⟨⟨_, rfl⟩, rfl⟩
    rw [if_neg hfull, if_neg hfull]
    by_cases hlow : generation < floor
    · rw [if_pos hlow, if_pos hlow]
      exact Or.inl ⟨⟨_, rfl⟩, rfl⟩
    rw [if_neg hlow, if_neg hlow]
    by_cases hsame : generation = floor
    · rw [if_pos hsame, if_pos hsame]
      exact Or.inr (Or.inl ⟨rfl, rfl, hsame⟩)
    rw [if_neg hsame, if_neg hsame]
    by_cases hgap : generation - floor ≠ 1
    · rw [if_pos hgap, if_pos hgap]
      exact Or.inl ⟨⟨_, rfl⟩, rfl⟩
    rw [if_neg hgap, if_neg hgap]
    by_cases hrec : role = .str "recovery"
    · rw [if_pos hrec, if_pos (hrecovery.mp hrec)]
      exact Or.inl ⟨⟨_, rfl⟩, rfl⟩
    rw [if_neg hrec, if_neg fun hc => hrec (hrecovery.mpr hc)]
    exact Or.inr (Or.inr ⟨rfl, rfl, by omega, hrelease hrec, fun hc => hfull ⟨hc, hsame⟩⟩)
  · refine Or.inl ⟨⟨"artifact role must be release or recovery", ?_⟩, ?_⟩
    · rw [policy, if_pos hrole]
    · rw [roleCode_of_notMem hrole]
      rfl

/-! ## Arguments -/

theorem CommitArgs.check_ok {args : CommitArgs} {r : Request} (h : args.check = .ok r) :
    args.generation = .int r.generation ∧ r.generation ≤ uint64Max ∧ args.role = r.role ∧
      args.expectedSequence = .int r.expectedSequence ∧ r.expectedSequence ≤ uint64Max ∧
      validateSlots args.activeSlot args.pendingSlot = .ok (r.activeSlot, r.pendingSlot) := by
  unfold CommitArgs.check at h
  cases hg : uint64 args.generation "generation" with
  | error e => rw [hg] at h; cases h
  | ok generation =>
    rw [hg] at h
    cases he : uint64 args.expectedSequence "expected sequence" with
    | error e => rw [he] at h; cases h
    | ok expected =>
      rw [he] at h
      cases hs : validateSlots args.activeSlot args.pendingSlot with
      | error e => rw [hs] at h; cases h
      | ok slots =>
        rw [hs] at h
        cases h
        obtain ⟨hgen, hgenMax⟩ := uint64_ok hg
        obtain ⟨hexp, hexpMax⟩ := uint64_ok he
        exact ⟨hgen, hgenMax, rfl, hexp, hexpMax, rfl⟩

/-! ## One turn of the loop -/

/-- The other users keep the provider monotone and in range. -/
structure Others.Monotone (others : Others) : Prop where
  le : ∀ calls floor, floor ≤ others calls floor
  bounded : ∀ calls floor, floor ≤ uint64Max → others calls floor ≤ uint64Max

theorem alone_monotone : Others.Monotone alone := ⟨fun _ floor => Nat.le_refl floor, fun _ _ h => h⟩

/-- The request has the record's sequence, and there is a next one. -/
structure Journal.Passes (j : Journal) (slots : Slots) (floor : Nat) (r : Request)
    (current : BootState) : Prop where
  loaded : j.loadUnlocked slots floor = .ok current
  sequence : current.sequence = r.expectedSequence
  notLast : current.sequence ≠ uint64Max

section Loop

variable (j : Journal) {others : Others} (slots : Slots) (r : Request) {p : Provider}

/-- One turn of the loop: it raises, it accepts at the floor it read, it
advances that floor, or the floor has moved under it and it turns again. -/
theorem commitLoop_turn (fuel : Nat) {floor : Nat} (hfloor : others p.calls p.floor = floor)
    (hread : floor ≤ uint64Max) :
    (∃ e, j.commitLoop others slots r (fuel + 1) p = some (.error e, ⟨p.calls + 1, floor⟩) ∧
      ∀ current, j.Passes slots floor r current → (∃ text, e = .policy text) ∧
        (bootPolicyEvaluate floor r.generation (roleCode r.role)).decision.accepts = false) ∨
    (∃ current, j.commitLoop others slots r (fuel + 1) p =
        some (.ok current, ⟨p.calls + 1, floor⟩) ∧
      j.Passes slots floor r current ∧
      bootPolicyEvaluate floor r.generation (roleCode r.role) = ⟨.acceptRetry, floor⟩ ∧
      r.generation = floor) ∨
    ∃ current, j.Passes slots floor r current ∧
      bootPolicyEvaluate floor r.generation (roleCode r.role) = ⟨.acceptUpdate, r.generation⟩ ∧
      r.generation = floor + 1 ∧ r.role = .str "release" ∧
      ((others (p.calls + 1) floor = floor ∧ j.commitLoop others slots r (fuel + 1) p =
          some (.ok current, ⟨p.calls + 2, r.generation⟩)) ∨
        (others (p.calls + 1) floor ≠ floor ∧
          ∃ again, again = others (p.calls + 2) (others (p.calls + 1) floor) ∧
          j.commitLoop others slots r (fuel + 1) p =
            if again = floor then
              some (.error (.conflict "floor provider refused compare-and-advance"),
                ⟨p.calls + 3, again⟩)
            else j.commitLoop others slots r fuel ⟨p.calls + 3, again⟩)) := by
  rw [Journal.commitLoop]
  simp only [readFloor, hfloor]
  rw [uint64_ofNat hread]
  dsimp only
  cases hload : j.loadUnlocked slots floor with
  | error e =>
    refine Or.inl ⟨e, rfl, fun current h => ?_⟩
    have := h.loaded
    rw [hload] at this
    cases this
  | ok current =>
    dsimp only
    have honly : ∀ other, j.Passes slots floor r other → other = current := by
      intro other h
      have := h.loaded
      rw [hload] at this
      exact (Except.ok.inj this).symm
    by_cases hseq : current.sequence ≠ r.expectedSequence
    · rw [if_pos hseq]
      refine Or.inl ⟨_, rfl, fun other h => ?_⟩
      obtain rfl := honly other h
      exact absurd h.sequence hseq
    rw [if_neg hseq]
    by_cases hmax : current.sequence = uint64Max
    · rw [if_pos hmax]
      refine Or.inl ⟨_, rfl, fun other h => ?_⟩
      obtain rfl := honly other h
      exact absurd hmax h.notLast
    rw [if_neg hmax]
    have hpass : j.Passes slots floor r current := ⟨hload, not_not.mp hseq, hmax⟩
    rcases policy_cases floor r.generation r.role with
      ⟨⟨text, hpol⟩, hrej⟩ | ⟨hpol, heval, hgen⟩ | ⟨hpol, heval, hgen, hrole, hfull⟩
    · rw [hpol]
      exact Or.inl ⟨_, rfl, fun _ _ => ⟨⟨text, rfl⟩, hrej⟩⟩
    · rw [hpol]
      exact Or.inr (Or.inl ⟨current, rfl, hpass, heval, hgen⟩)
    · rw [hpol]
      refine Or.inr (Or.inr ⟨current, hpass, heval, hgen, hrole, ?_⟩)
      have hcas : ¬ (floor = uint64Max ∨ r.generation ≠ floor + 1) := by
        rintro (h | h)
        · exact hfull h
        · exact h hgen
      simp only [compareAndAdvance, if_neg hcas]
      by_cases hmoved : others (p.calls + 1) floor = floor
      · rw [if_neg (not_not.mpr hmoved)]
        exact Or.inl ⟨hmoved, rfl⟩
      · rw [if_pos hmoved]
        exact Or.inr ⟨hmoved, _, rfl, rfl⟩

/-- With the provider to itself the loop ends in its first turn: it raises
and leaves the floor, or the request is accepted and the floor is what the
C policy answers. -/
theorem commitLoop_alone (fuel : Nat) (hfloor : p.floor ≤ uint64Max) :
    (∃ e, j.commitLoop alone slots r (fuel + 1) p = some (.error e, ⟨p.calls + 1, p.floor⟩) ∧
      ∀ current, j.Passes slots p.floor r current → (∃ text, e = .policy text) ∧
        (bootPolicyEvaluate p.floor r.generation (roleCode r.role)).decision.accepts = false) ∨
    ∃ current p', j.commitLoop alone slots r (fuel + 1) p = some (.ok current, p') ∧
      j.Passes slots p.floor r current ∧
      (bootPolicyEvaluate p.floor r.generation (roleCode r.role)).decision.accepts = true ∧
      p'.floor = (bootPolicyEvaluate p.floor r.generation (roleCode r.role)).floor ∧
      p'.floor = r.generation ∧
      (r.generation = p.floor ∨ r.generation = p.floor + 1 ∧ r.role = .str "release") := by
  have hread : alone p.calls p.floor = p.floor := rfl
  rcases commitLoop_turn j slots r fuel hread hfloor with
    hraise | ⟨current, hloop, hpass, heval, hgen⟩ | ⟨current, hpass, heval, hgen, hrole, hend⟩
  · exact Or.inl hraise
  · exact Or.inr ⟨current, _, hloop, hpass, by rw [heval]; rfl, by rw [heval], hgen.symm,
      Or.inl hgen⟩
  · rcases hend with ⟨_, hloop⟩ | ⟨hmoved, _⟩
    · exact Or.inr ⟨current, _, hloop, hpass, by rw [heval]; rfl, by rw [heval], rfl,
        Or.inr ⟨hgen, hrole⟩⟩
    · exact absurd rfl hmoved

/-- A request no newer than the floor never turns the loop again. -/
theorem commitLoop_settled (hmono : others.Monotone) (fuel : Nat) (hfloor : p.floor ≤ uint64Max)
    (hgen : r.generation ≤ p.floor) :
    ∃ res p', j.commitLoop others slots r (fuel + 1) p = some (res, p') ∧ p.floor ≤ p'.floor ∧
      p'.floor ≤ uint64Max := by
  have hle := hmono.le p.calls p.floor
  have hmax := hmono.bounded p.calls p.floor hfloor
  rcases commitLoop_turn j slots r fuel rfl hmax with
    ⟨e, hloop, _⟩ | ⟨current, hloop, _⟩ | ⟨current, _, _, hnew, _⟩
  · exact ⟨_, _, hloop, hle, hmax⟩
  · exact ⟨_, _, hloop, hle, hmax⟩
  · omega

/-- Among other users the loop ends within two turns: if the floor moved
in the first, the request is no longer news in the second. -/
theorem commitLoop_monotone (hmono : others.Monotone) (fuel : Nat) (hfloor : p.floor ≤ uint64Max)
    (hgen : r.generation ≤ uint64Max) :
    ∃ res p', j.commitLoop others slots r (fuel + 2) p = some (res, p') ∧ p.floor ≤ p'.floor ∧
      p'.floor ≤ uint64Max ∧ ∀ current, res = .ok current → r.generation ≤ p'.floor := by
  have hle := hmono.le p.calls p.floor
  have hmax := hmono.bounded p.calls p.floor hfloor
  rcases commitLoop_turn j slots r (fuel + 1) rfl hmax with
    ⟨e, hloop, _⟩ | ⟨current, hloop, _, _, hsame⟩ | ⟨current, _, _, hnew, _, hend⟩
  · exact ⟨_, _, hloop, hle, hmax, fun _ h => by cases h⟩
  · exact ⟨_, _, hloop, hle, hmax, fun _ _ => hsame.le⟩
  · rcases hend with ⟨_, hloop⟩ | ⟨hmoved, again, hagain, hloop⟩
    · exact ⟨_, _, hloop, by dsimp only; omega, hgen, fun _ _ => le_rfl⟩
    · have hle₁ := hmono.le (p.calls + 1) (others p.calls p.floor)
      have hle₂ := hmono.le (p.calls + 2) (others (p.calls + 1) (others p.calls p.floor))
      have hmax₂ : again ≤ uint64Max := by
        rw [hagain]
        exact hmono.bounded _ _ (hmono.bounded _ _ hmax)
      rw [if_neg (by omega)] at hloop
      obtain ⟨res, p', hrun, hup, hin⟩ := commitLoop_settled j slots r
        (p := ⟨p.calls + 3, again⟩) hmono fuel hmax₂ (by dsimp only; omega)
      dsimp only at hup
      exact ⟨res, p', hloop.trans hrun, by omega, hin, fun _ _ => by omega⟩

end Loop

/-! ## One commit -/

/-- The commit is accepted on top of `current`, and leaves the provider
`p'`. -/
structure Journal.Accepts (j : Journal) (w : World) (args : CommitArgs) (r : Request)
    (current : BootState) (p' : Provider) : Prop where
  check : args.check = .ok r
  passes : j.Passes w.slots w.floor r current
  accepts : (bootPolicyEvaluate w.floor r.generation (roleCode r.role)).decision.accepts = true
  floor : p'.floor = (bootPolicyEvaluate w.floor r.generation (roleCode r.role)).floor
  generation : p'.floor = r.generation
  advance : r.generation = w.floor ∨ r.generation = w.floor + 1 ∧ r.role = .str "release"

variable {others : Others}

section Commit

variable {j : Journal} {w : World} {args : CommitArgs} {crash : Option Crash}

/-- The record a commit writes can be stored. -/
theorem next_stored {r : Request} {current : BootState} (hcheck : args.check = .ok r)
    (hpass : j.Passes w.slots w.floor r current) : (r.next current).Stored := by
  obtain ⟨_, hgen, _, _, hexp, hslots⟩ := CommitArgs.check_ok hcheck
  have hseq := hpass.sequence
  have hnot := hpass.notLast
  exact BootState.stored (Nat.succ_ne_zero _) (by omega) hgen (validateSlots_ok hslots).2.2

theorem writeSlot_stored {slots : Slots} (h : state.Stored) :
    j.writeSlot slots state = some (Function.update slots (slotOf state.sequence)
      (.regular (recordBytes j.codec.sha256 state))) := by
  have hlen := (recordBytes_length j.codec h.sequence h.generation).2
  rw [Journal.writeSlot, if_neg (by omega)]

/-- What an accepted commit leaves, by where it stops: the floor is settled,
and the record is in place or not yet. -/
def Journal.leaves (j : Journal) (slots : Slots) (p : Provider) (next : BootState)
    (crash : Option Crash) : Answer × World :=
  if crash = some .beforeReplace then (⟨.crashed, none⟩, ⟨p, slots⟩)
  else
    (⟨if crash = some .afterReplace then .crashed else .returned next, some (slotOf next.sequence, next)⟩,
      ⟨p, Function.update slots (slotOf next.sequence) (.regular (recordBytes j.codec.sha256 next))⟩)

/-- What one commit can do, with the provider to itself: raise and change
nothing, crash before it changed anything, or be accepted and stop with
the floor settled, before or after its record is in place. -/
theorem Journal.commit_cases (args : CommitArgs) (crash : Option Crash) (fuel : Nat)
    (hfloor : w.floor ≤ uint64Max) :
    (∃ e w', j.commit alone (fuel + 1) w args crash = some (⟨.raised e, none⟩, w') ∧
      w'.floor = w.floor ∧ w'.slots = w.slots ∧
      ∀ r current, args.check = .ok r → j.Passes w.slots w.floor r current →
        (∃ text, e = .policy text) ∧
          (bootPolicyEvaluate w.floor r.generation (roleCode r.role)).decision.accepts = false) ∨
    (crash = some .beforeAdvance ∧
      j.commit alone (fuel + 1) w args crash = some (⟨.crashed, none⟩, w)) ∨
    ∃ r current p', j.Accepts w args r current p' ∧ crash ≠ some .beforeAdvance ∧
      j.commit alone (fuel + 1) w args crash = some (j.leaves w.slots p' (r.next current) crash) := by
  unfold Journal.commit
  cases hcheck : args.check with
  | error e => exact Or.inl ⟨e, w, rfl, rfl, rfl, fun r _ h => by cases h⟩
  | ok r =>
    dsimp only
    by_cases hearly : crash = some .beforeAdvance
    · rw [if_pos hearly]
      exact Or.inr (Or.inl ⟨hearly, rfl⟩)
    rw [if_neg hearly]
    rcases commitLoop_alone j w.slots r fuel hfloor with
      ⟨e, hloop, hwhy⟩ | ⟨current, p', hloop, hpass, hacc, hp, hgen, hadv⟩
    · rw [hloop]
      refine Or.inl ⟨e, _, rfl, rfl, rfl, fun r' current h hpass => ?_⟩
      obtain rfl := Except.ok.inj h
      exact hwhy current hpass
    · rw [hloop]
      dsimp only
      rw [writeSlot_stored (next_stored hcheck hpass)]
      refine Or.inr (Or.inr ⟨r, current, p', ⟨hcheck, hpass, hacc, hp, hgen, hadv⟩, hearly, ?_⟩)
      unfold Journal.leaves
      split
      · rfl
      · rfl

/-- A commit with the loaded sequence, a next sequence and an accepted
generation publishes the successor, unless it stops before. -/
theorem commit_accepted {r : Request} {current : BootState} (fuel : Nat) (crash : Option Crash)
    (hlate : crash ≠ some .beforeAdvance) (hfloor : w.floor ≤ uint64Max) (hcheck : args.check = .ok r)
    (hpass : j.Passes w.slots w.floor r current)
    (hacc : (bootPolicyEvaluate w.floor r.generation (roleCode r.role)).decision.accepts = true) :
    ∃ p', p'.floor = r.generation ∧ j.commit alone (fuel + 1) w args crash =
      some (j.leaves w.slots p' (r.next current) crash) := by
  rcases j.commit_cases args crash fuel hfloor with
    ⟨_, _, _, _, _, hwhy⟩ | ⟨hcrash, _⟩ | ⟨r', current', p', hacc', _, hdone⟩
  · have hrej := (hwhy r current hcheck hpass).2
    rw [hacc] at hrej
    cases hrej
  · exact absurd hcrash hlate
  · obtain rfl := Except.ok.inj (hcheck.symm.trans hacc'.check)
    obtain rfl := Except.ok.inj (hpass.loaded.symm.trans hacc'.passes.loaded)
    exact ⟨p', hacc'.generation, hdone⟩

/-- A commit raises what its load raises. -/
theorem commit_raises {r : Request} {e : Error} (fuel : Nat) (hfloor : w.floor ≤ uint64Max)
    (hcheck : args.check = .ok r) (hload : j.loadUnlocked w.slots w.floor = .error e) :
    j.commit alone (fuel + 1) w args none =
      some (⟨.raised e, none⟩, ⟨⟨w.provider.calls + 1, w.floor⟩, w.slots⟩) := by
  have hread := uint64_ofNat hfloor "provider floor"
  unfold World.floor at hread hload
  simp only [Journal.commit, hcheck, Journal.commitLoop, readFloor, alone, hread, hload]
  rfl

/-- A commit among other users of a monotone provider ends, keeps the
floor from falling, and returns only where the floor has reached it. -/
theorem Journal.commit_monotone (hmono : others.Monotone) (args : CommitArgs)
    (crash : Option Crash) (fuel : Nat) (hfloor : w.floor ≤ uint64Max) :
    ∃ answer w', j.commit others (fuel + 2) w args crash = some (answer, w') ∧
      w.floor ≤ w'.floor ∧ w'.floor ≤ uint64Max ∧
      ∀ state, answer.outcome = .returned state →
        ∃ generation : Nat, args.generation = .int generation ∧ generation ≤ w'.floor := by
  unfold Journal.commit
  cases hcheck : args.check with
  | error e => exact ⟨_, w, rfl, le_rfl, hfloor, fun _ h => by cases h⟩
  | ok r =>
    obtain ⟨hgenArg, hgen, _⟩ := CommitArgs.check_ok hcheck
    dsimp only
    split
    · exact ⟨_, w, rfl, le_rfl, hfloor, fun _ h => by cases h⟩
    obtain ⟨res, p', hloop, hup, hin, hreach⟩ := commitLoop_monotone j w.slots r hmono fuel hfloor hgen
    rw [hloop]
    cases res with
    | error e => exact ⟨_, _, rfl, hup, hin, fun _ h => by cases h⟩
    | ok current =>
      dsimp only
      split
      · exact ⟨_, _, rfl, hup, hin, fun _ h => by cases h⟩
      cases j.writeSlot w.slots (r.next current) with
      | none => exact ⟨_, _, rfl, hup, hin, fun _ h => by cases h⟩
      | some slots =>
        exact ⟨_, _, rfl, hup, hin, fun _ _ => ⟨r.generation, hgenArg, hreach current rfl⟩⟩

end Commit

/-! ## Loading -/

theorem underFloor_generation {floor : Nat} {newest : BootState}
    (h : underFloor floor newest = .ok state) : state.generation = floor := by
  unfold underFloor at h
  split at h
  · cases h
  split at h
  · cases h; rfl
  · cases h; omega

/-- Whatever the slots hold, what is loaded has the floor's generation. -/
theorem loadUnlocked_generation {j : Journal} {slots : Slots} {floor : Nat}
    (h : j.loadUnlocked slots floor = .ok state) : state.generation = floor := by
  unfold Journal.loadUnlocked at h
  dsimp only at h
  split at h
  · cases h
  split at h
  · split at h
    · cases h
    · cases h; rfl
  split at h
  · cases h
  · exact underFloor_generation h
  · split at h
    · cases h
    · exact underFloor_generation h

/-- The other slot. -/
theorem fin_two_cases {k : Fin 2} (h : k ≠ i) : (i = 0 ∧ k = 1) ∨ (i = 1 ∧ k = 0) := by
  revert i k
  decide

theorem exists_other (i : Fin 2) : ∃ k, k ≠ i := by
  revert i
  decide

@[simp] theorem escaping_ok (state : Option BootState) : escaping (.ok state) = none := rfl

theorem escaping_error {e : Error} (h : e.caught = false) : escaping (.error e) = some e := by
  rw [escaping, h]
  rfl

theorem escaping_eq_none {read : Except Error (Option BootState)}
    (h : ∀ e, read = .error e → e.caught = true) : escaping read = none := by
  cases read with
  | ok _ => rfl
  | error e => exact if_pos (h e rfl)

/-- What one slot raises past the loop, a load raises. -/
theorem loadUnlocked_escapes {j : Journal} {slots : Slots} {k : Fin 2} (hk : k ≠ i) (floor : Nat)
    {e : Error} (hi : readSlot j.codec (j.slotPath i) (slots i) = .error e) (he : e.caught = false)
    (hcaught : ∀ e, readSlot j.codec (j.slotPath k) (slots k) = .error e → e.caught = true) :
    j.loadUnlocked slots floor = .error e := by
  have hk' := escaping_eq_none hcaught
  have hfind : (j.readAll slots).findSome? escaping = some e := by
    rcases fin_two_cases hk with ⟨rfl, rfl⟩ | ⟨rfl, rfl⟩
    · simp [Journal.readAll, hi, escaping_error he]
    · simp [Journal.readAll, hi, hk', escaping_error he]
  unfold Journal.loadUnlocked
  dsimp only
  rw [hfind]

/-- A load with one newest record. -/
theorem loadUnlocked_of_newest {j : Journal} {slots : Slots} (floor : Nat) {valid : List BootState}
    (hcaught : (j.readAll slots).findSome? escaping = none)
    (hvalid : (j.readAll slots).filterMap validState = valid)
    (hnew : (valid.filter fun s => decide (s.sequence = (valid.map BootState.sequence).foldl max 0)) =
      [r]) : j.loadUnlocked slots floor = underFloor floor r := by
  have hne : valid ≠ [] := by
    rintro rfl
    cases hnew
  unfold Journal.loadUnlocked
  dsimp only
  rw [hcaught]
  dsimp only
  rw [hvalid, if_neg hne, hnew]

/-- One readable record decides a load when the other slot holds nothing
readable, or something older. -/
theorem loadUnlocked_newest {j : Journal} {slots : Slots} {k : Fin 2} (hk : k ≠ i) (floor : Nat)
    (hi : readSlot j.codec (j.slotPath i) (slots i) = .ok (some r))
    (hcaught : ∀ e, readSlot j.codec (j.slotPath k) (slots k) = .error e → e.caught = true)
    (hother : ∀ r', readSlot j.codec (j.slotPath k) (slots k) = .ok (some r') →
      r'.sequence < r.sequence) : j.loadUnlocked slots floor = underFloor floor r := by
  -- the readable records are the one, or the one and an older one on either side of it
  obtain ⟨valid, hvalid, hshape⟩ : ∃ valid, (j.readAll slots).filterMap validState = valid ∧
      (valid = [r] ∨ ∃ r', r'.sequence < r.sequence ∧ (valid = [r, r'] ∨ valid = [r', r])) := by
    cases hread : readSlot j.codec (j.slotPath k) (slots k) with
    | error e =>
      refine ⟨[r], ?_, Or.inl rfl⟩
      rcases fin_two_cases hk with ⟨rfl, rfl⟩ | ⟨rfl, rfl⟩
      · rw [Journal.readAll, hi, hread]; rfl
      · rw [Journal.readAll, hi, hread]; rfl
    | ok state =>
      cases state with
      | none =>
        refine ⟨[r], ?_, Or.inl rfl⟩
        rcases fin_two_cases hk with ⟨rfl, rfl⟩ | ⟨rfl, rfl⟩
        · rw [Journal.readAll, hi, hread]; rfl
        · rw [Journal.readAll, hi, hread]; rfl
      | some r' =>
        have hlt := hother r' hread
        rcases fin_two_cases hk with ⟨rfl, rfl⟩ | ⟨rfl, rfl⟩
        · exact ⟨[r, r'], by rw [Journal.readAll, hi, hread]; rfl, Or.inr ⟨r', hlt, Or.inl rfl⟩⟩
        · exact ⟨[r', r], by rw [Journal.readAll, hi, hread]; rfl, Or.inr ⟨r', hlt, Or.inr rfl⟩⟩
  have hquiet : (j.readAll slots).findSome? escaping = none := by
    have hk' := escaping_eq_none hcaught
    rcases fin_two_cases hk with ⟨rfl, rfl⟩ | ⟨rfl, rfl⟩
    · simp [Journal.readAll, hi, hk']
    · simp [Journal.readAll, hi, hk']
  refine loadUnlocked_of_newest floor hquiet hvalid ?_
  rcases hshape with rfl | ⟨r', hlt, rfl | rfl⟩
  · simp
  · simp [Nat.max_eq_left hlt.le, hlt.ne]
  · simp [Nat.max_eq_right hlt.le, hlt.ne]

variable {w w' : World}

theorem load_generation {j : Journal}
    (h : j.load others w = (.ok state, w')) : state.generation = w'.floor := by
  unfold Journal.load readFloor at h
  dsimp only at h
  rw [Prod.mk.injEq] at h
  obtain ⟨hstate, rfl⟩ := h
  split at hstate
  · cases hstate
  next floor hfloor =>
    have hread := Value.int.inj (uint64_ok hfloor).1
    rw [loadUnlocked_generation hstate]
    exact (Int.ofNat.inj hread).symm

/-! ## Histories -/

/-- What one turn may do to the floor when the journal is the provider's
only user. -/
structure Authority (j : Journal) (x : Turn World Op Answer) : Prop where
  /-- The floor moves only in a release's commit, and by one. -/
  change : x.after.floor ≠ x.before.floor → ∃ args crash, x.event = .commit args crash ∧
    args.role = .str "release" ∧ args.generation = .int (x.before.floor + 1 : Nat) ∧
    x.after.floor = x.before.floor + 1
  /-- A commit that returns leaves its generation as the floor. -/
  committed : ∀ args crash state, x.event = .commit args crash →
    x.outcome.outcome = .returned state → args.generation = .int x.after.floor
  /-- Past the sequence checks a commit is refused exactly where the C
  policy rejects, and otherwise leaves the floor that policy answers. -/
  policy : ∀ args crash r current, x.event = .commit args crash → crash ≠ some .beforeAdvance →
    args.check = .ok r → j.Passes x.before.slots x.before.floor r current →
    ((∃ e, x.outcome.outcome = .raised e) ↔
      (bootPolicyEvaluate x.before.floor r.generation (roleCode r.role)).decision.accepts = false) ∧
    ((bootPolicyEvaluate x.before.floor r.generation (roleCode r.role)).decision.accepts = true →
      x.after.floor = (bootPolicyEvaluate x.before.floor r.generation (roleCode r.role)).floor)
  /-- At the last generation only its own retry succeeds. -/
  exhausted : x.before.floor = uint64Max → ∀ args crash state, x.event = .commit args crash →
    x.outcome.outcome = .returned state →
    args.generation = .int uint64Max ∧ x.after.floor = uint64Max

section History

variable {j : Journal}

theorem commit_authority {args : CommitArgs} {crash : Option Crash} {answer : Answer}
    {fuel : Nat} (hfloor : w.floor ≤ uint64Max)
    (h : j.commit alone (fuel + 1) w args crash = some (answer, w')) :
    Authority j ⟨w, .commit args crash, answer, w'⟩ := by
  rcases j.commit_cases args crash fuel hfloor with
    ⟨e, w₁, heq, hsame, _, hwhy⟩ | ⟨hearly, heq⟩ | ⟨r, current, p', hacc, hlate, heq⟩
  · rw [heq] at h
    cases h
    refine ⟨fun hne => absurd hsame hne, (fun _ _ _ _ hret => by cases hret), ?_,
      fun _ _ _ _ _ hret => by cases hret⟩
    intro _ _ r current hev _ hcheck hpass
    cases hev
    have hrej := (hwhy r current hcheck hpass).2
    refine ⟨⟨fun _ => hrej, fun _ => ⟨e, rfl⟩⟩, fun hacc => ?_⟩
    rw [hrej] at hacc
    cases hacc
  · rw [heq] at h
    cases h
    refine ⟨fun hne => absurd rfl hne, (fun _ _ _ _ hret => by cases hret), ?_,
      fun _ _ _ _ _ hret => by cases hret⟩
    intro _ _ _ _ hev hlate
    cases hev
    exact absurd hearly hlate
  · obtain ⟨hgenArg, hgenMax, hrole, _⟩ := CommitArgs.check_ok hacc.check
    -- before the replace or after it, the provider is the same
    have hafter : w'.floor = p'.floor ∧ ∀ e, answer.outcome ≠ .raised e := by
      rw [heq, Journal.leaves] at h
      split at h
      · cases h
        exact ⟨rfl, fun _ hc => by cases hc⟩
      · cases h
        refine ⟨rfl, fun e hc => ?_⟩
        dsimp only at hc
        split at hc <;> cases hc
    obtain ⟨hfloor', hraise⟩ := hafter
    have hgen := hacc.generation
    refine ⟨?_, ?_, ?_, ?_⟩
    · intro hne
      dsimp only at hne ⊢
      rcases hacc.advance with hretry | ⟨hnew, hrelease⟩
      · exact absurd (by omega) hne
      · exact ⟨args, crash, rfl, by rw [hrole, hrelease], by rw [hgenArg, hnew], by omega⟩
    · intro _ _ _ hev _
      cases hev
      rw [hgenArg, hfloor', hgen]
    · intro _ _ r' current' hev _ hcheck _
      cases hev
      obtain rfl := Except.ok.inj (hacc.check.symm.trans hcheck)
      refine ⟨⟨fun ⟨e, he⟩ => absurd he (hraise e), fun hrej => ?_⟩, fun _ => ?_⟩
      · dsimp only at hrej
        rw [hacc.accepts] at hrej
        cases hrej
      · exact hfloor'.trans hacc.floor
    · intro hmax _ _ _ hev _
      cases hev
      dsimp only at hmax ⊢
      rcases hacc.advance with hretry | ⟨hnew, _⟩
      · exact ⟨by rw [hgenArg, hretry, hmax], by omega⟩
      · omega

/-- A turn that is no commit and leaves the floor. -/
theorem Authority.of_still {x : Turn World Op Answer}
    (hop : ∀ args crash, x.event ≠ .commit args crash) (hsame : x.after.floor = x.before.floor) :
    Authority j x :=
  ⟨fun hne => absurd hsame hne, fun _ _ _ hev => absurd hev (hop _ _),
    fun _ _ _ _ hev => absurd hev (hop _ _), fun _ _ _ _ hev => absurd hev (hop _ _)⟩

theorem step_commit (others : Others) (fuel : Nat) (w : World) (args : CommitArgs)
    (crash : Option Crash) :
    j.step others fuel w (.commit args crash) = j.commit others fuel w args crash := rfl

theorem step_load (others : Others) (fuel : Nat) (w : World) :
    j.step others fuel w .load =
      some (⟨match (j.load others w).1 with
        | .ok state => .returned state
        | .error e => .raised e, none⟩, (j.load others w).2) := by
  unfold Journal.step
  cases j.load others w with
  | mk res w' => cases res <;> rfl

theorem step_authority {op : Op} {answer : Answer} {fuel : Nat}
    (hfloor : w.floor ≤ uint64Max) (h : j.step alone (fuel + 1) w op = some (answer, w')) :
    Authority j ⟨w, op, answer, w'⟩ := by
  cases op with
  | load =>
    refine Authority.of_still (fun _ _ hev => by cases hev) ?_
    rw [step_load] at h
    cases h
    rfl
  | commit args crash => exact commit_authority hfloor h
  | tamper slot file =>
    cases h
    exact Authority.of_still (fun _ _ hev => by cases hev) rfl

/-- One turn among other users: it ends, the floor does not fall, and
whatever returns returns under the floor. -/
theorem step_monotone (hmono : others.Monotone) (fuel : Nat)
    (hfloor : w.floor ≤ uint64Max) (op : Op) :
    ∃ answer w', j.step others (fuel + 2) w op = some (answer, w') ∧ w.floor ≤ w'.floor ∧
      w'.floor ≤ uint64Max ∧
      (∀ state, op = .load → answer.outcome = .returned state → state.generation = w'.floor) ∧
      ∀ args crash state, op = .commit args crash → answer.outcome = .returned state →
        ∃ generation : Nat, args.generation = .int generation ∧ generation ≤ w'.floor := by
  cases op with
  | load =>
    have hup := hmono.le w.provider.calls w.provider.floor
    have hin := hmono.bounded w.provider.calls w.provider.floor hfloor
    refine ⟨_, _, step_load others _ w, hup, hin, fun state _ hret => ?_, fun _ _ _ hop => by cases hop⟩
    cases hl : (j.load others w).1 with
    | ok loaded =>
      rw [hl] at hret
      cases hret
      exact load_generation (Prod.ext hl rfl)
    | error e =>
      rw [hl] at hret
      cases hret
  | commit args crash =>
    obtain ⟨answer, w', heq, hup, hin, hret⟩ :=
      j.commit_monotone hmono args crash fuel hfloor
    refine ⟨answer, w', heq, hup, hin, (fun _ hop => by cases hop), ?_⟩
    intro _ _ state hop
    cases hop
    exact hret state
  | tamper slot file =>
    exact ⟨_, _, rfl, le_rfl, hfloor, (fun _ hop => by cases hop), fun _ _ _ hop => by cases hop⟩

end History

/-- Whatever happens to the slot files and wherever a call crashes, the
floor is moved by releases alone, one generation at a time, as the C
policy decides; among other users of a monotone provider it still never
falls, every call ends, and no commit returns above it. -/
theorem floor_authority (j : Journal) (w₀ : World) (fuel : Nat) (hfloor : w₀.floor ≤ uint64Max)
    (hfuel : 2 ≤ fuel) :
    (∀ others : Others, others.Monotone →
      (∀ ops, ∃ ts w, Run (j.step others fuel) w₀ ts w ∧ ts.map Turn.event = ops) ∧
      ∀ ts w, Run (j.step others fuel) w₀ ts w →
        w₀.floor ≤ w.floor ∧ (ts.Pairwise fun x y => x.after.floor ≤ y.before.floor) ∧
        ∀ x ∈ ts, x.before.floor ≤ x.after.floor ∧
          (∀ state, x.event = .load → x.outcome.outcome = .returned state →
            state.generation = x.after.floor) ∧
          ∀ args crash state, x.event = .commit args crash → x.outcome.outcome = .returned state →
            ∃ generation : Nat, args.generation = .int generation ∧ generation ≤ x.after.floor) ∧
    ∀ ts w, Run (j.step alone fuel) w₀ ts w → ∀ x ∈ ts, Authority j x := by
  obtain ⟨k, rfl⟩ : ∃ k, fuel = k + 2 := ⟨fuel - 2, by omega⟩
  have hinv : ∀ {others : Others}, others.Monotone → ∀ w op answer w', w.floor ≤ uint64Max →
      j.step others (k + 2) w op = some (answer, w') → w'.floor ≤ uint64Max := by
    intro others hmono w op answer w' hw h
    obtain ⟨_, _, heq, _, hin, _⟩ := step_monotone (j := j) hmono k hw op
    rw [heq] at h
    cases h
    exact hin
  refine ⟨fun others hmono => ⟨fun ops => ?_, fun ts w hrun => ?_⟩, fun ts w hrun x hx => ?_⟩
  · refine Run.exists_of_total (I := fun w => w.floor ≤ uint64Max) (fun w op hw => ?_) hfloor ops
    obtain ⟨answer, w', heq, _, hin, _⟩ := step_monotone (j := j) hmono k hw op
    exact ⟨answer, w', heq, hin⟩
  · have hordered := hrun.ordered (f := World.floor) (I := fun w => w.floor ≤ uint64Max)
      (fun w op answer w' hw h => by
        obtain ⟨_, _, heq, hup, hin, _⟩ := step_monotone (j := j) hmono k hw op
        rw [heq] at h
        cases h
        exact ⟨hin, hup⟩) hfloor
    refine ⟨hordered.1, hordered.2.2, fun x hx => ?_⟩
    obtain ⟨hw, hturn⟩ := hrun.turn (hinv hmono) hfloor x hx
    obtain ⟨_, _, heq, hup, _, hload, hcommit⟩ := step_monotone (j := j) hmono k hw x.event
    rw [heq] at hturn
    cases hturn
    exact ⟨hup, hload, hcommit⟩
  · obtain ⟨hw, hturn⟩ := hrun.turn (hinv alone_monotone) hfloor x hx
    exact step_authority hw hturn

/-- A journal over the exact codec. -/
noncomputable def sampleJournal : Journal := ⟨"state", Codec.exact⟩

/-- A release of the generation, behind the record with the sequence. -/
def release (generation sequence : Nat) : CommitArgs :=
  ⟨.int generation, .str "release", .str "A", .none, .int sequence⟩

/-- The record it publishes. -/
def released (generation sequence : Nat) : BootState := ⟨sequence + 1, generation, some .A, none⟩

/-- The slots behind so many releases, the first one of generation 8. -/
def sampleSlots : Nat → Slots
  | 0 => fun _ => .absent
  | n + 1 => Function.update (sampleSlots n) (slotOf (n + 1))
    (.regular (recordBytes Tcg2.sha256Bytes (released (n + 8) n)))

/-- A slot file of a thousand open brackets. -/
def nestedFile : File := .regular (List.replicate 1000 0x5b)

theorem nestedFile_read (i : Fin 2) :
    readSlot sampleJournal.codec (sampleJournal.slotPath i) nestedFile = .error .recursion := by
  have hloads : sampleJournal.codec.loads (List.replicate 1000 0x5b) = .recursion :=
    (exact_loads (by rw [List.head?_replicate]; decide)).trans (if_pos (by rw [List.take_replicate, Nat.min_self]))
  rw [nestedFile, readSlot, if_neg (by rw [List.length_replicate]; decide), hloads]

theorem release_commits {j : Journal} {w : World} {generation sequence : Nat} {current : BootState}
    (crash : Option Crash) (hlate : crash ≠ some .beforeAdvance) (hgen : w.floor + 1 = generation)
    (hmax : generation ≤ uint64Max) (hload : j.loadUnlocked w.slots w.floor = .ok current)
    (hseq : current.sequence = sequence) (hlast : sequence < uint64Max) :
    ∃ p', p'.floor = generation ∧ j.commit alone 2 w (release generation sequence) crash =
      some (j.leaves w.slots p' (released generation sequence) crash) := by
  subst hseq
  have hcheck : (release generation current.sequence).check =
      .ok ⟨generation, .str "release", .A, none, current.sequence⟩ := by
    rw [CommitArgs.check, release, uint64_ofNat hmax, uint64_ofNat hlast.le]
    rfl
  refine commit_accepted 1 crash hlate (by omega) hcheck ⟨hload, rfl, hlast.ne⟩ ?_
  rcases policy_cases w.floor generation (.str "release") with
    ⟨⟨_, herr⟩, _⟩ | ⟨_, _, hsame⟩ | ⟨_, heval, _⟩
  · rw [policy, if_neg (by decide), if_neg (by omega), if_neg (by omega), if_neg (by omega),
      if_neg (by omega), if_neg (by decide)] at herr
    cases herr
  · omega
  · rw [heval]
    rfl

theorem sample_read {i : Fin 2} {n generation sequence : Nat}
    (hslot : sampleSlots n i = .regular (recordBytes Tcg2.sha256Bytes (released generation sequence)))
    (hseq : sequence < uint64Max) (hgen : generation ≤ uint64Max) :
    readSlot sampleJournal.codec (sampleJournal.slotPath i) (sampleSlots n i) =
      .ok (some (released generation sequence)) := by
  rw [hslot]
  exact readSlot_eq_some_iff.mpr
    ⟨rfl, BootState.stored (Nat.succ_ne_zero _) hseq hgen (by decide)⟩

theorem sample_read_one : readSlot sampleJournal.codec (sampleJournal.slotPath 1) (sampleSlots 1 1) =
    .ok (some (released 8 0)) :=
  sample_read (Function.update_self ..) (by decide) (by decide)

/-- Two releases, the second stopped behind its replace. -/
theorem sample_publishes : ∃ p₁ p₂,
    sampleJournal.commit alone 2 (World.fresh 7) (release 8 0) none =
      some (⟨.returned (released 8 0), some (1, released 8 0)⟩, ⟨p₁, sampleSlots 1⟩) ∧
    sampleJournal.commit alone 2 ⟨p₁, sampleSlots 1⟩ (release 9 1) (some .afterReplace) =
      some (⟨.crashed, some (0, released 9 1)⟩, ⟨p₂, sampleSlots 2⟩) ∧
    p₁.floor = 8 ∧ p₂.floor = 9 := by
  obtain ⟨p₁, hfloor₁, hfirst⟩ := release_commits (j := sampleJournal) (w := World.fresh 7) none
    (by decide) rfl (by decide)
    (show sampleJournal.loadUnlocked (fun _ => .absent) 7 = .ok ⟨0, 7, none, none⟩ from rfl) rfl (by decide)
  have hload : sampleJournal.loadUnlocked (sampleSlots 1) 8 = underFloor 8 (released 8 0) := by
    refine loadUnlocked_newest (i := 1) (k := 0) (by decide) 8 sample_read_one ?_ ?_
    · intro e he
      cases he
    · intro r' he
      cases he
  obtain ⟨p₂, hfloor₂, hsecond⟩ := release_commits (j := sampleJournal) (w := ⟨p₁, sampleSlots 1⟩)
    (some .afterReplace) (by decide) rfl (by rw [World.floor, hfloor₁]; decide)
    (by rw [World.floor, hfloor₁]; exact hload) rfl (by decide)
  rw [World.floor, hfloor₁] at hfloor₂ hsecond
  exact ⟨p₁, p₂, hfirst, hsecond, hfloor₁, hfloor₂⟩

/-- The two releases, the newer record's file replaced by open brackets, and
a load that ends in `RecursionError`: the floor stays where the releases put
it. -/
theorem floor_authority_sample :
    ∃ ts w, Run (sampleJournal.step alone 2) (World.fresh 7) ts w ∧
      ts.map Turn.event = [.commit (release 8 0) none, .commit (release 9 1) (some .afterReplace),
        .tamper 0 nestedFile, .load] ∧
      ts.map (fun x => (x.outcome.outcome, x.after.floor)) =
        [(.returned (released 8 0), 8), (.crashed, 9), (.silent, 9), (.raised .recursion, 9)] ∧
      ∀ x ∈ ts, Authority sampleJournal x := by
  obtain ⟨p₁, p₂, hfirst, hsecond, hfloor₁, hfloor₂⟩ := sample_publishes
  have hload : sampleJournal.loadUnlocked (Function.update (sampleSlots 2) 0 nestedFile) 9 =
      .error .recursion := by
    refine loadUnlocked_escapes (i := 0) (k := 1) (by decide) 9
      (by rw [Function.update_self]; exact nestedFile_read 0) rfl fun e he => ?_
    cases sample_read_one.symm.trans he
  have hlast : sampleJournal.step alone 2 ⟨p₂, Function.update (sampleSlots 2) 0 nestedFile⟩ .load =
      some (⟨.raised .recursion, none⟩, ⟨⟨p₂.calls + 1, p₂.floor⟩,
        Function.update (sampleSlots 2) 0 nestedFile⟩) := by
    rw [step_load, Journal.load, readFloor]
    simp only [alone, hfloor₂]
    rw [uint64_ofNat (by decide)]
    dsimp only
    rw [hload]
  have hrun : Run (sampleJournal.step alone 2) (World.fresh 7) _ _ :=
    .cons ((step_commit ..).trans hfirst) (.cons ((step_commit ..).trans hsecond)
      (.cons (e := .tamper 0 nestedFile) rfl (.cons hlast (.nil _))))
  refine ⟨_, _, hrun, rfl, ?_,
    (floor_authority sampleJournal (World.fresh 7) 2 (by decide) (by decide)).2 _ _ hrun⟩
  simp [World.floor, hfloor₁, hfloor₂]

end BearBoot.Rollback
