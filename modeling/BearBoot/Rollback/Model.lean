import Mathlib.Data.List.Basic
import Mathlib.Logic.Function.Basic
import BearBoot.Machine.Json

/-!
# The boot-generation journal, as `tools/bbp_rollback_state.py` computes it

Two files hold the last two records of which boot slot is active; a
provider outside the file system holds the generation floor, and only the
floor is trusted. Every function of the script that reads or writes
either of them is here under its own name, and beside them the policy of
`experimental/rollback/bbp_boot_state.c`, the second statement of the
same rule.

A Python object is a JSON library's `Value`, which is as far as the
script looks at it, so an argument of a wrong type is an argument. Every
string of a record is a slot's letter, the schema's name or a digest in
hexadecimal, so none needs an escape. Exceptions are `Error`, with the
class and the text the source raises. The JSON decoder and SHA-256 are
not modelled: a `Codec` is any pair of them that is correct where the
journal depends on it. A decoder ends in a document, in an error that the
script turns into its own, or in `RecursionError` on a text nested as deep
as the interpreter's stack, which the script does not catch anywhere. A
slot path is absent, unreadable (`OSError`), no
regular file, or a file with its bytes; a file that changes while it is
read does not occur, because a writer holds the lock and replaces files
whole.

What moves the world are the provider's advance and `os.replace`, so a
crash is one of three places: before the advance, between the two, and
after the replace. The provider may have other users. `Others` is what
they do to the floor before each of our calls, and `alone` is nothing.
The retry loop of `commit` has no bound of its own and takes fuel.
-/

set_option autoImplicit false

namespace BearBoot.Rollback

open Machine.Json

/-- `UINT64_MAX`. -/
def uint64Max : Nat := 2 ^ 64 - 1

/-- The exceptions of the script, with their texts. -/
inductive Error where
  | value (text : String)
  | policy (text : String)
  | conflict (text : String)
  | corrupt (text : String)
  | state (text : String)
  | os
  | recursion
  deriving DecidableEq, Repr

/-- What `_load_unlocked` catches around `_read_slot`. -/
def Error.caught : Error → Bool
  | .corrupt _ | .os => true
  | _ => false

/-- `BOOT_SLOTS`. -/
inductive BootSlot where
  | A
  | B
  deriving DecidableEq, Repr

/-- `BootState`. Its `schema` and `version` are never anything but the
module's constants, and `payload` writes those. -/
structure BootState where
  sequence : Nat
  generation : Nat
  activeSlot : Option BootSlot
  pendingSlot : Option BootSlot
  deriving DecidableEq, Repr

/-! ## The policy -/

def roles : List Value := [.str "release", .str "recovery"]

inductive Action where
  | retry
  | update
  deriving DecidableEq, Repr

/-- `_policy`. -/
def policy (floor generation : Nat) (role : Value) : Except Error Action :=
  if role ∉ roles then .error (.policy "artifact role must be release or recovery")
  else if floor = uint64Max ∧ generation ≠ floor then
    .error (.policy "generation floor is exhausted")
  else if generation < floor then .error (.policy "generation is below the monotonic floor")
  else if generation = floor then .ok .retry
  else if generation - floor ≠ 1 then .error (.policy "generation gap is not permitted")
  else if role = .str "recovery" then
    .error (.policy "recovery artifacts cannot advance the floor")
  else .ok .update

/-- `enum bbp_boot_decision`. -/
inductive Decision where
  | rejectRollback
  | acceptRetry
  | acceptUpdate
  | rejectGap
  | rejectExhausted
  | rejectRole
  deriving DecidableEq, Repr

def Decision.accepts : Decision → Bool
  | .acceptRetry | .acceptUpdate => true
  | _ => false

/-- `struct bbp_boot_policy_result`. -/
structure PolicyResult where
  decision : Decision
  floor : Nat
  deriving DecidableEq, Repr

/-- `bbp_boot_policy_evaluate`; a role is its code, release `1` and
recovery `2`. -/
def bootPolicyEvaluate (floor generation role : Nat) : PolicyResult :=
  if role ≠ 1 ∧ role ≠ 2 then ⟨.rejectRole, floor⟩
  else if floor = uint64Max ∧ generation ≠ floor then ⟨.rejectExhausted, floor⟩
  else if generation < floor then ⟨.rejectRollback, floor⟩
  else if generation = floor then ⟨.acceptRetry, floor⟩
  else if generation - floor ≠ 1 then ⟨.rejectGap, floor⟩
  else if role = 2 then ⟨.rejectRole, floor⟩
  else ⟨.acceptUpdate, generation⟩

/-- The code of a role; a role the script does not know has none of the
enumeration's. -/
def roleCode (role : Value) : Nat :=
  if role = .str "release" then 1 else if role = .str "recovery" then 2 else 0

/-! ## The floor provider -/

/-- A provider that has answered `calls` calls. -/
structure Provider where
  calls : Nat
  floor : Nat
  deriving DecidableEq, Repr

/-- What the provider's other users do to the floor before a call. -/
abbrev Others := Nat → Nat → Nat

/-- The journal is the provider's only user. -/
def alone : Others := fun _ floor => floor

/-- `MemoryFloorProvider.read_floor`. -/
def readFloor (others : Others) (p : Provider) : Nat × Provider :=
  let floor := others p.calls p.floor
  (floor, ⟨p.calls + 1, floor⟩)

/-- `MemoryFloorProvider.compare_and_advance`, on numbers that have
passed `_uint64`. -/
def compareAndAdvance (others : Others) (p : Provider) (expected new : Nat) : Bool × Provider :=
  let floor := others p.calls p.floor
  if expected = uint64Max ∨ new ≠ expected + 1 then (false, ⟨p.calls + 1, floor⟩)
  else if floor ≠ expected then (false, ⟨p.calls + 1, floor⟩)
  else (true, ⟨p.calls + 1, new⟩)

/-! ## Records -/

/-- The script's `_uint64`. -/
def uint64 (value : Value) (label : String) : Except Error Nat :=
  match value with
  | .int (.ofNat n) =>
    if n ≤ uint64Max then .ok n else .error (.value (label ++ " must fit in uint64"))
  | .int (.negSucc _) => .error (.value (label ++ " must fit in uint64"))
  | _ => .error (.value (label ++ " must be an integer"))

def bootSlot (value : Value) : Option BootSlot :=
  if value = .str "A" then some .A else if value = .str "B" then some .B else none

/-- `_validate_slots`, never called with `allow_unset`. -/
def validateSlots (active pending : Value) : Except Error (BootSlot × Option BootSlot) :=
  match bootSlot active with
  | none => .error (.value "active_slot must be A or B")
  | some a =>
    if pending ≠ .none ∧ bootSlot pending = none then
      .error (.value "pending_slot must be A, B, or null")
    else if bootSlot pending = some a then
      .error (.value "active_slot and pending_slot must differ")
    else .ok (a, bootSlot pending)

def BootSlot.value : BootSlot → Value
  | .A => .str "A"
  | .B => .str "B"

def slotValue (slot : Option BootSlot) : Value := slot.elim .none BootSlot.value

/-- `_canonical`, on members in the order `sort_keys` puts them. -/
def canonical (members : List (String × Value)) : List UInt8 :=
  ascii (dumps compact members ++ ['\n'])

/-- `_payload`. -/
def payload (s : BootState) : List (String × Value) :=
  [("active_slot", slotValue s.activeSlot), ("generation", .int s.generation),
    ("pending_slot", slotValue s.pendingSlot), ("schema", .str "bbp-durable-boot-state"),
    ("sequence", .int s.sequence), ("version", .int 1)]

/-- The record of a state: its payload and the digest of its payload,
whose key sorts before `version`. -/
def record (sha256 : List UInt8 → List UInt8) (s : BootState) : List (String × Value) :=
  [("active_slot", slotValue s.activeSlot), ("generation", .int s.generation),
    ("pending_slot", slotValue s.pendingSlot), ("schema", .str "bbp-durable-boot-state"),
    ("sequence", .int s.sequence), ("sha256", .str (hex (sha256 (canonical (payload s))))),
    ("version", .int 1)]

/-- `_record_bytes`. -/
def recordBytes (sha256 : List UInt8 → List UInt8) (s : BootState) : List UInt8 :=
  canonical (record sha256 s)

/-- How the decoder ends. `invalid` is an error in the text, or of the hook
in an inner object; `recursion` is `RecursionError`. -/
inductive Decoded where
  | document (d : Document)
  | invalid
  | recursion

/-- A JSON decoder and a hash the journal can rely on: what the journal
writes decodes to what was written, and a digest has 32 bytes. -/
structure Codec where
  sha256 : List UInt8 → List UInt8
  loads : List UInt8 → Decoded
  sha256_length : ∀ data, (sha256 data).length = 32
  loads_record : ∀ s : BootState, s.sequence ≤ uint64Max → s.generation ≤ uint64Max →
    loads (recordBytes sha256 s) = .document (.object (record sha256 s))

/-! ## Slots -/

/-- What a slot path leads to. -/
inductive File where
  | absent
  | unreadable
  | irregular
  | regular (data : List UInt8)
  deriving DecidableEq, Repr

/-- The hook `_json_object`: the first key that occurs a second time. -/
def duplicateMember : (seen : List String) → List (String × Value) → Option String
  | _, [] => none
  | seen, (key, _) :: rest =>
    if key ∈ seen then some key else duplicateMember (key :: seen) rest

def expectedKeys : List String :=
  ["active_slot", "generation", "pending_slot", "schema", "sequence", "sha256", "version"]

/-- `record.get(key)`. -/
def get (members : List (String × Value)) (key : String) : Value :=
  (members.lookup key).getD .none

/-- The part of `_read_slot` that follows the decoding. -/
def readRecord (c : Codec) (path : String) (data : List UInt8) (members : List (String × Value)) :
    Except Error BootState :=
  if ¬ (members.map Prod.fst ⊆ expectedKeys ∧ expectedKeys ⊆ members.map Prod.fst) then
    .error (.corrupt ("invalid journal schema members: " ++ path))
  else if get members "schema" ≠ .str "bbp-durable-boot-state" ∨
      (get members "version").eqInt 1 = false then
    .error (.corrupt ("unsupported journal schema: " ++ path))
  else
    match uint64 (get members "sequence") "sequence", uint64 (get members "generation") "generation",
      validateSlots (get members "active_slot") (get members "pending_slot") with
    | .ok sequence, .ok generation, .ok (active, pending) =>
      if sequence = 0 then
        .error (.corrupt ("persisted journal sequence must be positive: " ++ path))
      else
        let state : BootState := ⟨sequence, generation, some active, pending⟩
        if get members "sha256" ≠ .str (hex (c.sha256 (canonical (payload state)))) then
          .error (.corrupt ("journal integrity failure: " ++ path))
        else if data ≠ recordBytes c.sha256 state then
          .error (.corrupt ("journal encoding or extent is not canonical: " ++ path))
        else .ok state
    | _, _, _ => .error (.corrupt ("invalid journal value: " ++ path))

/-- `_read_slot`; `none` is a slot that was never written. -/
def readSlot (c : Codec) (path : String) : File → Except Error (Option BootState)
  | .absent => .ok none
  | .unreadable => .error .os
  | .irregular => .error (.corrupt ("journal slot is not regular: " ++ path))
  | .regular data =>
    if data.length = 0 ∨ 1024 < data.length then
      .error (.corrupt ("journal slot has invalid extent: " ++ path))
    else
      match c.loads data with
      | .recursion => .error .recursion
      | .invalid => .error (.corrupt ("invalid journal JSON: " ++ path))
      | .document .other => .error (.corrupt ("invalid journal schema members: " ++ path))
      | .document (.object pairs) =>
        match duplicateMember [] pairs with
        | some key => .error (.corrupt ("duplicate journal member: " ++ key))
        | none => (readRecord c path data pairs).map some

/-! ## The journal -/

/-- `RollbackJournal`: the slot paths' common stem and what the script
imports. -/
structure Journal where
  path : String
  codec : Codec

/-- `slot_paths`. -/
def Journal.slotPath (j : Journal) (i : Fin 2) : String :=
  if i = 0 then j.path ++ ".a" else j.path ++ ".b"

abbrev Slots := Fin 2 → File

def Journal.readAll (j : Journal) (slots : Slots) : List (Except Error (Option BootState)) :=
  [readSlot j.codec (j.slotPath 0) (slots 0), readSlot j.codec (j.slotPath 1) (slots 1)]

/-- The slot holds a record. -/
def validState : Except Error (Option BootState) → Option BootState
  | .ok state => state
  | .error _ => none

/-- The slot is not absent. -/
def isPresent : Except Error (Option BootState) → Bool
  | .ok none => false
  | _ => true

/-- What the loop over the slots does not catch. -/
def escaping : Except Error (Option BootState) → Option Error
  | .ok _ => none
  | .error e => if e.caught then none else some e

/-- The newest record, under the authority of the floor. -/
def underFloor (floor : Nat) (state : BootState) : Except Error BootState :=
  if floor < state.generation then
    .error (.corrupt "journal generation exceeds monotonic authority")
  else if state.generation < floor then
    .ok { state with generation := floor, activeSlot := none, pendingSlot := none }
  else .ok state

/-- `_load_unlocked`. -/
def Journal.loadUnlocked (j : Journal) (slots : Slots) (floor : Nat) : Except Error BootState :=
  let reads := j.readAll slots
  match reads.findSome? escaping with
  | some e => .error e
  | none =>
    let valid := reads.filterMap validState
    let present := (reads.filter isPresent).length
    if valid = [] then
      if present ≠ 0 then .error (.corrupt "both rollback journal slots are unusable")
      else .ok ⟨0, floor, none, none⟩
    else
      let highest := (valid.map BootState.sequence).foldl max 0
      match valid.filter fun state => decide (state.sequence = highest) with
      -- not reached: the maximum is the sequence of some record
      | [] => .error (.corrupt "both rollback journal slots are unusable")
      | [state] => underFloor floor state
      | first :: second :: _ =>
        if first ≠ second then .error (.corrupt "journal slots conflict at the same sequence")
        else underFloor floor first

/-- The floor and the two slots. -/
structure World where
  provider : Provider
  slots : Slots

/-- `load`. -/
def Journal.load (j : Journal) (others : Others) (w : World) : Except Error BootState × World :=
  let (floor, p) := readFloor others w.provider
  (match uint64 (.int floor) "provider floor" with
    | .error e => .error e
    | .ok floor => j.loadUnlocked w.slots floor,
    { w with provider := p })

/-- The arguments of `commit`. -/
structure CommitArgs where
  generation : Value
  role : Value
  activeSlot : Value
  pendingSlot : Value
  expectedSequence : Value

/-- The arguments that passed the checks before the lock. -/
structure Request where
  generation : Nat
  role : Value
  activeSlot : BootSlot
  pendingSlot : Option BootSlot
  expectedSequence : Nat

/-- The checks before the lock. -/
def CommitArgs.check (args : CommitArgs) : Except Error Request :=
  match uint64 args.generation "generation" with
  | .error e => .error e
  | .ok generation =>
    match uint64 args.expectedSequence "expected sequence" with
    | .error e => .error e
    | .ok expected =>
      match validateSlots args.activeSlot args.pendingSlot with
      | .error e => .error e
      | .ok (active, pending) => .ok ⟨generation, args.role, active, pending, expected⟩

/-- The loop of `commit`: the record it goes on from, or the exception. -/
def Journal.commitLoop (j : Journal) (others : Others) (slots : Slots) (r : Request) :
    (fuel : Nat) → Provider → Option (Except Error BootState × Provider)
  | 0, _ => none
  | fuel + 1, p =>
    let (floor, p) := readFloor others p
    match uint64 (.int floor) "provider floor" with
    | .error e => some (.error e, p)
    | .ok floor =>
      match j.loadUnlocked slots floor with
      | .error e => some (.error e, p)
      | .ok current =>
        if current.sequence ≠ r.expectedSequence then
          some (.error (.conflict ("expected sequence " ++ toString r.expectedSequence ++ ", found " ++
            toString current.sequence)), p)
        else if current.sequence = uint64Max then
          some (.error (.policy "journal sequence is exhausted"), p)
        else
          match policy floor r.generation r.role with
          | .error e => some (.error e, p)
          | .ok .retry => some (.ok current, p)
          | .ok .update =>
            let (advanced, p) := compareAndAdvance others p floor r.generation
            if advanced then some (.ok current, p)
            else
              let (again, p) := readFloor others p
              if again = floor then
                some (.error (.conflict "floor provider refused compare-and-advance"), p)
              else j.commitLoop others slots r fuel p

/-- Where a commit stops, if it does not run to its end. -/
inductive Crash where
  | beforeAdvance
  | beforeReplace
  | afterReplace
  deriving DecidableEq, Repr

/-- How a call ends. Where nobody called, nobody is answered. -/
inductive Outcome where
  | returned (state : BootState)
  | raised (e : Error)
  | crashed
  | silent
  deriving DecidableEq, Repr

/-- How a call ends, and the record it published: its slot and its state. -/
structure Answer where
  outcome : Outcome
  published : Option (Fin 2 × BootState)
  deriving DecidableEq, Repr

/-- The index `state.sequence % 2`. -/
def slotOf (sequence : Nat) : Fin 2 := ⟨sequence % 2, Nat.mod_lt _ (by decide)⟩

/-- The record a commit writes behind `current`. -/
def Request.next (r : Request) (current : BootState) : BootState :=
  ⟨current.sequence + 1, r.generation, some r.activeSlot, r.pendingSlot⟩

/-- `_write_slot`, atomic by `os.replace`; `none` where the record is too
long to be written. -/
def Journal.writeSlot (j : Journal) (slots : Slots) (state : BootState) : Option Slots :=
  if 1024 < (recordBytes j.codec.sha256 state).length then none
  else some (Function.update slots (slotOf state.sequence)
    (.regular (recordBytes j.codec.sha256 state)))

/-- `commit`, stopped at `crash` if it gets there. -/
def Journal.commit (j : Journal) (others : Others) (fuel : Nat) (w : World) (args : CommitArgs)
    (crash : Option Crash) : Option (Answer × World) :=
  match args.check with
  | .error e => some (⟨.raised e, none⟩, w)
  | .ok r =>
    if crash = some .beforeAdvance then some (⟨.crashed, none⟩, w)
    else
      match j.commitLoop others w.slots r fuel w.provider with
      | none => none
      | some (.error e, p) => some (⟨.raised e, none⟩, { w with provider := p })
      | some (.ok current, p) =>
        let state := r.next current
        if crash = some .beforeReplace then some (⟨.crashed, none⟩, { w with provider := p })
        else
          match j.writeSlot w.slots state with
          | none =>
            some (⟨.raised (.state "journal record exceeds exact file bound"), none⟩,
              { w with provider := p })
          | some slots =>
            let outcome := if crash = some .afterReplace then .crashed else .returned state
            some (⟨outcome, some (slotOf state.sequence, state)⟩, ⟨p, slots⟩)

/-! ## Histories -/

/-- A call on the journal, or someone else's hand on a slot file. -/
inductive Op where
  | load
  | commit (args : CommitArgs) (crash : Option Crash)
  | tamper (slot : Fin 2) (file : File)

def Journal.step (j : Journal) (others : Others) (fuel : Nat) (w : World) : Op → Option (Answer × World)
  | .load =>
    match j.load others w with
    | (.ok state, w) => some (⟨.returned state, none⟩, w)
    | (.error e, w) => some (⟨.raised e, none⟩, w)
  | .commit args crash => j.commit others fuel w args crash
  | .tamper slot file =>
    some (⟨.silent, none⟩, { w with slots := Function.update w.slots slot file })

end BearBoot.Rollback
