import BearBoot.Loader.Exit

/-!
# The discipline of leaving the firmware

What the firmware has to be able to rely on is a property of the list of
calls, whoever made them. `Phase.Step` says which call is in order after
which others. A buffer is asked for when none is held and given back when it
is held; the map goes into the held buffer; the exit shows the key of a map
that was the very last call; behind an exit that succeeded there is nothing.

`exitLoop_ended` is the step from the code to that discipline, by induction
over the attempts that are left: whatever the firmware answers, the calls
are in order. What `exitBootServices_disciplined` says about whole runs is
then read off lists that are in order, without another look at the code
(`Phase.Follows`).
-/

set_option autoImplicit false

namespace BearBoot.Loader

open Machine

variable {calls : List FirmwareCall} {memoryMap : Nat}

/-! ## What the calls have done -/

/-- The buffers that are held, with their sizes: obtained and not given back. -/
def held : List FirmwareCall → List (Nat × Nat) :=
  List.foldl (fun buffers call =>
    match call with
    | .allocate size address => if address = 0 then buffers else buffers ++ [(address, size)]
    | .free address => buffers.eraseP (·.1 = address)
    | _ => buffers) []

/-- The buffers obtained, in order. -/
def obtained : List FirmwareCall → List Nat :=
  List.filterMap fun
    | .allocate _ address => if address = 0 then none else some address
    | _ => none

/-- The buffers given back, in order. -/
def freed : List FirmwareCall → List Nat :=
  List.filterMap fun
    | .free address => some address
    | _ => none

/-- The attempts to exit. -/
def exits : List FirmwareCall → Nat :=
  List.countP fun
    | .exitBootServices .. => true
    | _ => false

/-! ## Which calls are in order -/

/-- Where a run of calls stands. With a buffer held, `key` is the key of the
map if a successful `GetMemoryMap` was the last call. -/
inductive Phase where
  | start
  | empty
  | holding (address size : Nat) (key : Option Nat)
  | exited (address size : Nat)

/-- The calls that are in order. -/
inductive Phase.Step : Phase → FirmwareCall → Phase → Prop
  | probe (answer : MapAnswer) : Step .start (.getMemoryMap 0 0 answer) .empty
  | refused (size : Nat) : Step .empty (.allocate size 0) .empty
  | granted {size address : Nat} (hne : address ≠ 0) :
      Step .empty (.allocate size address) (.holding address size none)
  | map {address size mapSize : Nat} {key : Option Nat} {answer : MapAnswer} (hsize : mapSize ≤ size)
      (hstatus : answer.status = .success) :
      Step (.holding address size key) (.getMemoryMap address mapSize answer)
        (.holding address size (some answer.mapKey))
  | noMap {address size mapSize : Nat} {key : Option Nat} {answer : MapAnswer} (hsize : mapSize ≤ size)
      (hstatus : answer.status ≠ .success) :
      Step (.holding address size key) (.getMemoryMap address mapSize answer) (.holding address size none)
  | free {address size : Nat} {key : Option Nat} : Step (.holding address size key) (.free address) .empty
  | exit {address size key imageHandle : Nat} :
      Step (.holding address size (some key)) (.exitBootServices imageHandle key .success) (.exited address size)
  | stale {address size key : Nat} {status : FirmwareStatus} (imageHandle : Nat) (hstatus : status ≠ .success) :
      Step (.holding address size (some key)) (.exitBootServices imageHandle key status)
        (.holding address size none)

/-- The buffer a phase holds. -/
def Phase.held : Phase → List (Nat × Nat)
  | .holding address size _ => [(address, size)]
  | .exited address size => [(address, size)]
  | _ => []

section Calls

variable (calls : List FirmwareCall)

theorem held_snoc (call : FirmwareCall) :
    held (calls ++ [call]) = match call with
      | .allocate size address => if address = 0 then held calls else held calls ++ [(address, size)]
      | .free address => (held calls).eraseP (·.1 = address)
      | _ => held calls := by
  rw [held, List.foldl_append]
  rfl

theorem obtained_snoc (call : FirmwareCall) :
    obtained (calls ++ [call]) = obtained calls ++ match call with
      | .allocate _ address => if address = 0 then [] else [address]
      | _ => [] := by
  rw [obtained, List.filterMap_append]
  cases call with
  | allocate size address => by_cases h : address = 0 <;> simp [h]
  | _ => rfl

theorem freed_snoc (call : FirmwareCall) :
    freed (calls ++ [call]) = freed calls ++ match call with
      | .free address => [address]
      | _ => [] := by
  rw [freed, List.filterMap_append]
  cases call <;> rfl

theorem exits_snoc (call : FirmwareCall) :
    exits (calls ++ [call]) = exits calls + match call with
      | .exitBootServices .. => 1
      | _ => 0 := by
  rw [exits, List.countP_append]
  cases call <;> rfl

end Calls

/-- The last call was a successful map into the held buffer. -/
def LastMap (calls : List FirmwareCall) (address size key : Nat) : Prop :=
  ∃ front mapSize answer, calls = front ++ [.getMemoryMap address mapSize answer] ∧ answer.status = .success ∧
    answer.mapKey = key ∧ held front = [(address, size)] ∧ mapSize ≤ size

/-- What calls that are in order have done. -/
structure Phase.Follows (calls : List FirmwareCall) (phase : Phase) : Prop where
  start : phase = .start → calls = []
  held : Loader.held calls = phase.held
  freed : obtained calls = Loader.freed calls ++ phase.held.map Prod.fst
  key : ∀ address size key, phase = .holding address size (some key) → LastMap calls address size key

section Step

variable {calls : List FirmwareCall} {phase phase' : Phase} {call : FirmwareCall}

theorem Phase.Step.held (hstep : phase.Step call phase') (h : Loader.held calls = phase.held) :
    Loader.held (calls ++ [call]) = phase'.held := by
  rw [held_snoc, h]
  cases hstep with
  | granted hne => exact if_neg hne
  | free => simp [Phase.held]
  | _ => rfl

theorem Phase.Step.freed (hstep : phase.Step call phase')
    (h : obtained calls = Loader.freed calls ++ phase.held.map Prod.fst) :
    obtained (calls ++ [call]) = Loader.freed (calls ++ [call]) ++ phase'.held.map Prod.fst := by
  rw [obtained_snoc, freed_snoc, h]
  cases hstep with
  | granted hne => simp [hne, Phase.held]
  | _ => simp [Phase.held]

/-- One call. -/
theorem Phase.Follows.step (h : phase.Follows calls) (hstep : phase.Step call phase') :
    phase'.Follows (calls ++ [call]) := by
  refine ⟨fun heq => ?_, hstep.held h.held, hstep.freed h.freed, fun address size key heq => ?_⟩
  · subst heq
    cases hstep
  · subst heq
    -- Only a successful map leaves a key.
    cases hstep with
    | map hsize hstatus => exact ⟨calls, _, _, rfl, hstatus, rfl, h.held, hsize⟩

end Step

theorem follows_of_accepts {phase : Phase}
    (h : Accepts Phase.Step .start calls phase) : phase.Follows calls :=
  h.invariant (I := fun calls phase => phase.Follows calls) ⟨fun _ => rfl, rfl, rfl, nofun⟩
    fun _ _ _ _ hfollows hstep => hfollows.step hstep

/-! ## What is in order where -/

section Order

variable {front back : List FirmwareCall} {phase : Phase}

/-- Nothing is in order behind a successful exit. -/
theorem nothing_after_exit {address size : Nat} (h : Accepts Phase.Step (.exited address size) back phase) :
    back = [] := by
  refine (h.invariant (I := fun calls phase => calls = [] ∧ phase = .exited address size) ⟨rfl, rfl⟩ ?_).1
  rintro _ _ _ _ ⟨_, rfl⟩ hstep
  cases hstep

/-- An exit shows the key of the map that was the last call, and one that
succeeds is the last call itself. -/
theorem exit_in_order {imageHandle mapKey : Nat} {status : FirmwareStatus}
    (h : Accepts Phase.Step .start (front ++ .exitBootServices imageHandle mapKey status :: back) phase) :
    (∃ address size, LastMap front address size mapKey) ∧ (status = .success → back = []) := by
  obtain ⟨before, after, hfront, hstep, hback⟩ := h.split
  have hfollows := follows_of_accepts hfront
  cases hstep with
  | exit => exact ⟨⟨_, _, hfollows.key _ _ _ rfl⟩, fun _ => nothing_after_exit hback⟩
  | stale _ hstatus => exact ⟨⟨_, _, hfollows.key _ _ _ rfl⟩, fun hok => absurd hok hstatus⟩

/-- Only what is held is given back. -/
theorem free_in_order {address : Nat} (h : Accepts Phase.Step .start (front ++ .free address :: back) phase) :
    ∃ size, held front = [(address, size)] := by
  obtain ⟨before, after, hfront, hstep, _⟩ := h.split
  have hfollows := follows_of_accepts hfront
  cases hstep with
  | free => exact ⟨_, hfollows.held⟩

/-- The map goes into what is held; the first call only asks for its size. -/
theorem map_in_order {mapSize : Nat} {answer : MapAnswer}
    (h : Accepts Phase.Step .start (front ++ .getMemoryMap memoryMap mapSize answer :: back) phase) :
    (front = [] ∧ memoryMap = 0 ∧ mapSize = 0) ∨ ∃ size, held front = [(memoryMap, size)] ∧ mapSize ≤ size := by
  obtain ⟨before, after, hfront, hstep, _⟩ := h.split
  have hfollows := follows_of_accepts hfront
  cases hstep with
  | probe => exact Or.inl ⟨hfollows.start rfl, rfl, rfl⟩
  | map hsize => exact Or.inr ⟨_, hfollows.held, hsize⟩
  | noMap hsize => exact Or.inr ⟨_, hfollows.held, hsize⟩

end Order

/-! ## The code keeps to the order -/

/-- How a run ends: with the map of its last two calls, or with nothing held
and nothing stored. -/
inductive Ended (imageHandle bound : Nat) : ExitRun → Prop
  | ok {calls : List FirmwareCall} {memoryMap capacity : Nat} {answer : MapAnswer}
      (hstatus : answer.status = .success) (hsize : answer.mapSize ≤ capacity)
      (haccepted : Accepts Phase.Step .start
        (calls ++ [.getMemoryMap memoryMap capacity answer] ++
          [.exitBootServices imageHandle answer.mapKey .success]) (.exited memoryMap capacity))
      (hexits : exits (calls ++ [.getMemoryMap memoryMap capacity answer] ++
          [.exitBootServices imageHandle answer.mapKey .success]) ≤ bound) :
      Ended imageHandle bound (.ok, some ⟨memoryMap, answer.mapSize, capacity, answer.mapKey,
        answer.descriptorSize, answer.descriptorVersion, 1⟩,
        calls ++ [.getMemoryMap memoryMap capacity answer] ++
          [.exitBootServices imageHandle answer.mapKey .success])
  | failed {status : ExitStatus} {calls : List FirmwareCall} {phase : Phase} (hstatus : status ≠ .ok)
      (haccepted : Accepts Phase.Step .start calls phase) (hheld : phase.held = []) (hexits : exits calls ≤ bound) :
      Ended imageHandle bound (status, none, calls)

/-- A failure that gives the held buffer back. -/
theorem failed_free {imageHandle bound capacity : Nat} {status : ExitStatus}
    {key : Option Nat} (hstatus : status ≠ .ok)
    (haccepted : Accepts Phase.Step .start calls (.holding memoryMap capacity key)) (hexits : exits calls ≤ bound) :
    Ended imageHandle bound (status, none, calls ++ [.free memoryMap]) := by
  refine .failed hstatus (haccepted.snoc .free) rfl ?_
  rw [exits_snoc]
  exact hexits

/-- The loop. Giving the buffer back is in order at every point of it. -/
theorem exitLoop_ended (fw : Firmware) (imageHandle : Nat) {attempts capacity bound : Nat}
    {key : Option Nat}
    (haccepted : Accepts Phase.Step .start calls (.holding memoryMap capacity key))
    (hexits : exits calls + attempts ≤ bound) :
    Ended imageHandle bound (exitLoop fw imageHandle attempts memoryMap capacity calls) := by
  induction attempts generalizing memoryMap capacity calls key with
  | zero => exact failed_free (by decide) haccepted hexits
  | succ attempts ih =>
    rw [exitLoop]
    generalize fw.getMemoryMap calls memoryMap capacity = answer
    dsimp only
    have hcalls : exits (calls ++ [.getMemoryMap memoryMap capacity answer]) = exits calls := exits_snoc _ _
    split
    next hsmall =>
      have hnoMap : Accepts Phase.Step .start (calls ++ [.getMemoryMap memoryMap capacity answer])
          (.holding memoryMap capacity none) :=
        haccepted.snoc (.noMap (Nat.le_refl _) (by rw [hsmall]; decide))
      split
      · exact failed_free (by decide) hnoMap (by omega)
      next larger _ =>
        generalize fw.allocate _ larger = replacement
        have hreleased := hnoMap.snoc .free
        split
        next hzero =>
          subst hzero
          refine .failed (by decide) (hreleased.snoc (.refused larger)) rfl ?_
          simp only [exits_snoc]
          omega
        next hne =>
          refine ih (hreleased.snoc (.granted hne)) ?_
          simp only [exits_snoc]
          omega
    next hsmall =>
      have hheld : ∃ key, Accepts Phase.Step .start (calls ++ [.getMemoryMap memoryMap capacity answer])
          (.holding memoryMap capacity key) := by
        by_cases hok : answer.status = .success
        · exact ⟨_, haccepted.snoc (.map (Nat.le_refl _) hok)⟩
        · exact ⟨_, haccepted.snoc (.noMap (Nat.le_refl _) hok)⟩
      split
      · obtain ⟨key, hheld⟩ := hheld
        exact failed_free (by decide) hheld (by omega)
      next hgood =>
        simp only [not_or, not_not, Nat.not_lt] at hgood
        obtain ⟨hok, _, hsize⟩ := hgood
        have hmap := haccepted.snoc (.map (Nat.le_refl _) hok)
        generalize fw.exitBootServices _ imageHandle answer.mapKey = status
        have hcalls' : exits (calls ++ [.getMemoryMap memoryMap capacity answer] ++
            [.exitBootServices imageHandle answer.mapKey status]) = exits calls + 1 := by
          rw [exits_snoc, hcalls]
        split
        next hexit =>
          subst hexit
          exact .ok hok hsize (hmap.snoc .exit) (by omega)
        next hexit =>
          have hstale := hmap.snoc (.stale imageHandle hexit)
          split
          · exact failed_free (by decide) hstale (by omega)
          · exact ih hstale (by omega)

/-- The function past its argument checks. -/
theorem exitRun_ended (fw : Firmware) (imageHandle : Nat) : Ended imageHandle 8 (exitRun fw imageHandle) := by
  unfold exitRun
  generalize fw.getMemoryMap [] 0 0 = answer
  have hprobe : Accepts Phase.Step .start [.getMemoryMap 0 0 answer] .empty := Accepts.nil.snoc (.probe answer)
  dsimp only
  split
  · exact .failed (by decide) hprobe rfl (Nat.zero_le 8)
  · split
    · exact .failed (by decide) hprobe rfl (Nat.zero_le 8)
    next capacity _ =>
      generalize fw.allocate _ capacity = memoryMap
      split
      next hzero =>
        subst hzero
        exact .failed (by decide) (hprobe.snoc (.refused capacity)) rfl (Nat.zero_le 8)
      next hne => exact exitLoop_ended fw imageHandle (hprobe.snoc (.granted hne)) (Nat.le_refl 8)

/-- The arguments are refused, or the run is stored. -/
theorem exitBootServices_cases (ops : Option ExitOps) (imageHandle : Nat) (result : Option ExitResult) :
    exitBootServices ops imageHandle result = (.errArgument, result, []) ∨
      ∃ old status written calls, result = some old ∧ Ended imageHandle 8 (status, written, calls) ∧
        exitBootServices ops imageHandle result = (status, some (written.getD old), calls) := by
  unfold exitBootServices
  split
  next ops old =>
    split
    · exact Or.inr ⟨old, _, _, _, rfl, exitRun_ended ops.toFirmware imageHandle, rfl⟩
    · exact Or.inl rfl
  · exact Or.inl rfl

/-- The discipline, for every firmware and all arguments. -/
theorem exitBootServices_disciplined (ops : Option ExitOps) (imageHandle : Nat) (result : Option ExitResult) :
    let run := exitBootServices ops imageHandle result
    let calls := run.2.2
    exits calls ≤ 8 ∧
    (∀ front image mapKey status back, calls = front ++ .exitBootServices image mapKey status :: back →
      (∃ address size, LastMap front address size mapKey) ∧ (status = .success → back = [])) ∧
    (∀ front address back, calls = front ++ .free address :: back → ∃ size, held front = [(address, size)]) ∧
    (∀ front memoryMap mapSize answer back, calls = front ++ .getMemoryMap memoryMap mapSize answer :: back →
      (front = [] ∧ memoryMap = 0 ∧ mapSize = 0) ∨ ∃ size, held front = [(memoryMap, size)] ∧ mapSize ≤ size) ∧
    (run.1 = .ok → ∃ front memoryMap capacity answer,
      calls = front ++ [.getMemoryMap memoryMap capacity answer,
        .exitBootServices imageHandle answer.mapKey .success] ∧
      answer.status = .success ∧ answer.mapSize ≤ capacity ∧
      run.2.1 = some ⟨memoryMap, answer.mapSize, capacity, answer.mapKey, answer.descriptorSize,
        answer.descriptorVersion, 1⟩ ∧
      held calls = [(memoryMap, capacity)] ∧ obtained calls = freed calls ++ [memoryMap]) ∧
    (run.1 ≠ .ok → run.2.1 = result ∧ held calls = [] ∧ obtained calls = freed calls) := by
  intro run calls
  obtain ⟨phase, haccepted, hexits, hok, hfailed⟩ : ∃ phase, Accepts Phase.Step .start calls phase ∧
      exits calls ≤ 8 ∧
      (run.1 = .ok → ∃ front memoryMap capacity answer,
        calls = front ++ [.getMemoryMap memoryMap capacity answer] ++
          [.exitBootServices imageHandle answer.mapKey .success] ∧
        answer.status = .success ∧ answer.mapSize ≤ capacity ∧
        run.2.1 = some ⟨memoryMap, answer.mapSize, capacity, answer.mapKey, answer.descriptorSize,
          answer.descriptorVersion, 1⟩ ∧ phase = .exited memoryMap capacity) ∧
      (run.1 ≠ .ok → run.2.1 = result ∧ phase.held = []) := by
    rcases exitBootServices_cases ops imageHandle result with hrun | ⟨old, status, written, stored, hold, hended, hrun⟩
    · simp only [calls, run, hrun]
      exact ⟨.start, .nil, Nat.zero_le 8, nofun, fun _ => ⟨trivial, rfl⟩⟩
    · simp only [calls, run, hrun]
      cases hended with
      | ok hstatus hsize haccepted hexits =>
        exact ⟨_, haccepted, hexits, fun _ => ⟨_, _, _, _, rfl, hstatus, hsize, rfl, rfl⟩, fun hne => absurd rfl hne⟩
      | failed hstatus haccepted hheld hexits =>
        exact ⟨_, haccepted, hexits, fun hok => absurd hok hstatus, fun _ => ⟨hold.symm, hheld⟩⟩
  have hfollows := follows_of_accepts haccepted
  refine ⟨hexits, ?_, ?_, ?_, fun hstatus => ?_, fun hstatus => ?_⟩
  · intro front image mapKey status back heq
    exact exit_in_order (heq ▸ haccepted)
  · intro front address back heq
    exact free_in_order (heq ▸ haccepted)
  · intro front memoryMap mapSize answer back heq
    exact map_in_order (heq ▸ haccepted)
  · obtain ⟨front, memoryMap, capacity, answer, heq, hmap, hsize, hresult, rfl⟩ := hok hstatus
    refine ⟨front, memoryMap, capacity, answer, ?_, hmap, hsize, hresult, hfollows.held, hfollows.freed⟩
    rw [heq, List.append_assoc]
    rfl
  · obtain ⟨hresult, hheld⟩ := hfailed hstatus
    refine ⟨hresult, hfollows.held.trans hheld, ?_⟩
    rw [hfollows.freed, hheld]
    exact List.append_nil _

-- A firmware that finds the first key stale: its fourth call is the exit that fails.
example :
    exitBootServices (some
      { getMemoryMap := fun calls _ mapSize =>
          ⟨if mapSize = 0 then .bufferTooSmall else .success, 96, calls.length, 48, 1⟩
        exitBootServices := fun calls _ _ => if calls.length = 3 then .invalidParameter else .success
        allocate := fun _ _ => 0x1000
        hasGetMemoryMap := true, hasExitBootServices := true, hasAllocate := true, hasFree := true })
      7 (some ⟨0, 0, 0, 0, 0, 0, 0⟩) =
    (.ok, some ⟨0x1000, 96, 480, 4, 48, 1, 1⟩,
      [.getMemoryMap 0 0 ⟨.bufferTooSmall, 96, 0, 48, 1⟩, .allocate 480 0x1000,
        .getMemoryMap 0x1000 480 ⟨.success, 96, 2, 48, 1⟩, .exitBootServices 7 2 .invalidParameter,
        .getMemoryMap 0x1000 480 ⟨.success, 96, 4, 48, 1⟩, .exitBootServices 7 4 .success]) := by
  decide

end BearBoot.Loader
