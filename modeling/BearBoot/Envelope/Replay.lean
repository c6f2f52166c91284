import BearBoot.Machine.Run
import BearBoot.Envelope.Agreement

/-!
# Replay protection

`verify_and_commit` keeps the highest rollback index it has accepted in a
state file and verifies the next envelope against the number above it.
Under the file lock a call is one turn of a machine whose state is that
file. The call verifies, asks the caller's policy, writes a temporary and
replaces the file by it; then it syncs the directory. It may be cut short
anywhere, by an exception of the system or by a crash. Only `os.replace`
changes the file, so what matters of a cut is on which side of the replace
it is.

The file may start as anything. A file that holds no state makes every
call raise and stays as it is.

`replay_protected` is about whole runs: the indices of the calls that
returned strictly increase. The induction is `Run.ordered` with the
exclusive bound `nextRollback`, which no turn lowers and which a returning
call leaves above its own index. At `2 ^ 64 - 1` there is no number above
in the range, and the script raises before it adds.

The JSON decoder is not modelled. A `StateCodec` is any decoder that reads
back the states the script writes; `StateCodec.exact` is one.
-/

set_option autoImplicit false

namespace BearBoot.Envelope

open Machine
open Machine.Json
open Python (Raised Py Store Verified verify expect)

variable {key : String} {highest : Nat} {v : Verified}

/-! ## The state file -/

/-- What the state path leads to. -/
inductive File where
  | absent
  | unreadable
  | regular (data : List UInt8)
  deriving DecidableEq, Repr

/-- The state, in the order `sort_keys` puts it. -/
def stateMembers (highest : Nat) (key : String) : List (String × Value) :=
  [("accepted_key", .str key), ("highest_rollback", .int highest), ("version", .int 1)]

/-- What `json.dump` and the newline behind it write. -/
def stateBytes (highest : Nat) (key : String) : List UInt8 :=
  ascii (dumps spaced (stateMembers highest key) ++ ['\n'])

/-- A key identity as `_load_state` wants it. -/
def isIdentity (key : String) : Bool :=
  key.toList.length == 32 && key.toList.all ("0123456789abcdef".toList.contains ·)

/-- A decoder, with the script's `except` around it, that reads back what
the script writes. -/
structure StateCodec where
  load : List UInt8 → Py Document
  load_state : ∀ highest key, highest < 2 ^ 64 → isIdentity key = true →
    load (stateBytes highest key) = .ok (.object (stateMembers highest key))

/-- `state.get(key)`; of two members with one name the later counts. -/
def get (members : List (String × Value)) (key : String) : Value :=
  (members.reverse.lookup key).getD .none

/-- What the members of a state say: the highest index, if they say it. -/
def stateOf (members : List (String × Value)) : Option Nat :=
  match get members "version", (get members "highest_rollback").uint64?,
    get members "accepted_key" with
  | .int 1, some highest, .str key => if isIdentity key then some highest else none
  | _, _, _ => none

/-- `_load_state`, of which the caller uses the highest index. -/
def loadState (codec : StateCodec) : File → Py (Option Nat)
  | .absent => .ok none
  | .unreadable => .error (.envelope "invalid rollback state")
  | .regular data => do
    let document ← codec.load data
    match document with
    | .other => .error (.envelope "invalid rollback state")
    | .object members => some <$> expect (stateOf members) "invalid rollback state"

/-! ## The call -/

/-- How a call ends early. -/
inductive Halt where
  | raised (r : Raised)
  | crashed
  deriving DecidableEq, Repr

/-- Where a call can be cut short: taking the lock, while it verifies,
around the temporary, at the replace before it has happened, and behind
it. -/
inductive Point where
  | lock
  | verifying
  | temporary
  | replacing
  | directory
  deriving DecidableEq, Repr

/-- A call of `verify_and_commit` and what befalls it. -/
structure Request where
  envelope : Option (List UInt8)
  keys : Option Store
  policy : Option (Verified → Except Halt Bool)
  cut : Option (Point × Halt)

def Request.pass (q : Request) (p : Point) : Except Halt Unit :=
  match q.cut with
  | some (p', h) => if p' = p then .error h else .ok ()
  | none => .ok ()

def lift {α : Type} : Py α → Except Halt α
  | .ok a => .ok a
  | .error r => .error (.raised r)

/-- The lower bound a call verifies against. -/
def minimumRollback : Option Nat → Py Nat
  | none => .ok 0
  | some highest =>
    if highest = 2 ^ 64 - 1 then .error (.envelope "rollback index exhausted") else .ok (highest + 1)

/-- `policy is not None and not policy(payload, rollback, identity)`. -/
def askPolicy (policy : Option (Verified → Except Halt Bool)) (v : Verified) : Except Halt Unit :=
  match policy with
  | none => .ok ()
  | some policy => do
    let accepted ← policy v
    refuse (accepted = false) (.raised (.envelope "policy rejected envelope"))

/-- `verify_and_commit` up to its `os.replace`. -/
def prepare (c : Crypto) (codec : StateCodec) (q : Request) (file : File) : Except Halt Verified := do
  q.pass .lock
  let state ← lift (loadState codec file)
  let minimum ← lift (minimumRollback state)
  q.pass .verifying
  let v ← lift (verify c q.envelope q.keys (.int minimum))
  askPolicy q.policy v
  q.pass .temporary
  q.pass .replacing
  pure v

/-- What a call leaves: the payload it returned or how it ended, and
whether its replace happened. -/
structure Outcome where
  result : Except Halt (List UInt8)
  replaced : Bool

/-- `verify_and_commit`. -/
def verifyAndCommit (c : Crypto) (codec : StateCodec) (q : Request) (file : File) : Outcome × File :=
  match prepare c codec q file with
  | .error h => (⟨.error h, false⟩, file)
  | .ok v =>
    let file := File.regular (stateBytes v.rollback v.identity)
    match q.pass .directory with
    | .error h => (⟨.error h, true⟩, file)
    | .ok () => (⟨.ok v.payload, true⟩, file)

/-- The machine: one call a turn. -/
def commitStep (c : Crypto) (codec : StateCodec) (file : File) (q : Request) :
    Option (Outcome × File) :=
  some (verifyAndCommit c codec q file)

/-- `highest_rollback`, of a file that holds a state. -/
def highestRollback (codec : StateCodec) (file : File) : Option Nat :=
  match loadState codec file with
  | .ok state => state
  | .error _ => none

/-- The rollback index of the envelope a call was made with. -/
def Request.index (q : Request) : Nat := rollbackOf (q.envelope.getD [])

/-- The call returned a payload. -/
def Outcome.returned (o : Outcome) : Bool := o.result.isOk

/-! ## One call -/

section Call

variable {c : Crypto} {codec : StateCodec}

theorem isIdentity_iff : isIdentity key = true ↔
    key.toList.length = 32 ∧ ∀ c ∈ key.toList, c ∈ "0123456789abcdef".toList := by
  simp only [isIdentity, Bool.and_eq_true, beq_iff_eq, List.all_eq_true, List.contains_iff_mem]

theorem isIdentity_hex {bytes : List UInt8} (h : bytes.length = 16) :
    isIdentity (hex bytes) = true := by
  rw [isIdentity_iff, length_hex, h]
  exact ⟨rfl, fun _ => mem_hex⟩

theorem loadState_stateBytes (h : highest < 2 ^ 64)
    (hkey : isIdentity key = true) :
    loadState codec (.regular (stateBytes highest key)) = .ok (some highest) := by
  have hstate : stateOf (stateMembers highest key) = some highest := by
    have hversion : Envelope.get (stateMembers highest key) "version" = .int 1 := rfl
    have hhighest : Envelope.get (stateMembers highest key) "highest_rollback" = .int highest := rfl
    have haccepted : Envelope.get (stateMembers highest key) "accepted_key" = .str key := rfl
    have hnum : (Value.int (highest : Int)).uint64? = some highest := if_pos h
    rw [stateOf, hversion, hhighest, haccepted, hnum]
    exact if_pos hkey
  rw [loadState, codec.load_state highest key h hkey]
  change some <$> expect (stateOf (stateMembers highest key)) _ = _
  rw [hstate]
  rfl

theorem expect_ok_iff {α : Type} {argument : Option α} {text : String} {a : α} :
    expect argument text = .ok a ↔ argument = some a := by
  cases argument with
  | none => exact ⟨(fun h => by cases h), (fun h => by cases h)⟩
  | some b => exact ⟨(fun h => by cases h; rfl), (fun h => by cases h; rfl)⟩

/-- `verify` returns what its envelope says, at or above the bound. -/
theorem verify_ok {envelope : Option (List UInt8)} {keys : Option Store} {minimum : Nat}
    (h : verify c envelope keys (.int minimum) = .ok v) :
    ∃ bytes, envelope = some bytes ∧ minimum ≤ rollbackOf bytes ∧ v = Python.verifiedOf bytes := by
  simp only [verify, ok_bind_iff, refuse_ok_iff, expect_ok_iff] at h
  obtain ⟨bytes, hbytes, _, hlong, _, _, n, hn, header, hheader, _, _, _, _, _, hmin, hrest⟩ := h
  cases (Python.unpack_ok (Nat.not_lt.mp hlong)).symm.trans hheader
  have hnum : n = minimum := by
    change (if minimum < 2 ^ 64 then some minimum else none) = some n at hn
    split at hn
    · exact (Option.some.inj hn).symm
    · cases hn
  refine ⟨bytes, hbytes, hnum ▸ Nat.not_lt.mp hmin, ?_⟩
  simp only [Python.authenticate, ok_bind_iff] at hrest
  obtain ⟨_, _, _, _, _, _, _, _, _, _, _, _, hv⟩ := hrest
  cases hv
  rfl

theorem lift_ok_iff {α : Type} {x : Py α} {a : α} : lift x = .ok a ↔ x = .ok a := by
  cases x with
  | error r => exact ⟨(fun h => by cases h), (fun h => by cases h)⟩
  | ok b => exact ⟨(fun h => by cases h; rfl), (fun h => by cases h; rfl)⟩

/-- What a call that got to its replace knew: the file held a state, or
there was none, and the envelope's index is above the highest. -/
theorem prepare_ok {q : Request} {file : File} (h : prepare c codec q file = .ok v) :
    ∃ bytes state, q.envelope = some bytes ∧ v = Python.verifiedOf bytes ∧
      loadState codec file = .ok state ∧
      (∀ highest, state = some highest → highest ≠ 2 ^ 64 - 1 ∧ highest < rollbackOf bytes) := by
  simp only [prepare, ok_bind_iff, lift_ok_iff] at h
  obtain ⟨_, _, state, hstate, minimum, hmin, _, _, w, hverify, _, _, _, _, _, _, hv⟩ := h
  cases hv
  obtain ⟨bytes, hbytes, hle, rfl⟩ := verify_ok hverify
  refine ⟨bytes, state, hbytes, rfl, hstate, ?_⟩
  rintro highest rfl
  simp only [minimumRollback] at hmin
  split at hmin
  · cases hmin
  next hne =>
    cases hmin
    exact ⟨hne, hle⟩

/-- One call: the file is as it was, or it is replaced by the state of an
envelope whose index is above the highest. -/
theorem verifyAndCommit_cases (c : Crypto) (codec : StateCodec) (q : Request) (file : File) :
    ((verifyAndCommit c codec q file).1.replaced = false ∧
      (verifyAndCommit c codec q file).1.returned = false ∧
      (verifyAndCommit c codec q file).2 = file) ∨
    ((verifyAndCommit c codec q file).1.replaced = true ∧
      ((verifyAndCommit c codec q file).1.returned = true ∨ ∃ h, q.cut = some (.directory, h)) ∧
      highestRollback codec (verifyAndCommit c codec q file).2 = some q.index ∧
      ∀ highest, highestRollback codec file = some highest →
        highest ≠ 2 ^ 64 - 1 ∧ highest < q.index) := by
  rw [verifyAndCommit]
  cases hp : prepare c codec q file with
  | error h => exact Or.inl ⟨rfl, rfl, rfl⟩
  | ok v =>
    obtain ⟨bytes, state, hbytes, rfl, hstate, habove⟩ := prepare_ok hp
    have hindex : q.index = rollbackOf bytes := by rw [Request.index, hbytes]; rfl
    have hfile : highestRollback codec (.regular (stateBytes (rollbackOf bytes)
        (hex (identityOf bytes)))) = some q.index := by
      have hload : loadState codec (.regular (stateBytes (rollbackOf bytes) (hex (identityOf bytes)))) =
          .ok (some (rollbackOf bytes)) :=
        loadState_stateBytes (get64_lt _ _) (isIdentity_hex (Mem.bytes_length _ _ _))
      rw [highestRollback, hload, hindex]
    have hbound : ∀ highest, highestRollback codec file = some highest →
        highest ≠ 2 ^ 64 - 1 ∧ highest < q.index := by
      intro highest hh
      rw [highestRollback, hstate] at hh
      rw [hindex]
      exact habove highest hh
    refine Or.inr ?_
    dsimp only
    cases hd : q.pass .directory with
    | ok u => exact ⟨rfl, Or.inl rfl, hfile, hbound⟩
    | error h =>
      refine ⟨rfl, Or.inr ?_, hfile, hbound⟩
      unfold Request.pass at hd
      split at hd
      next p' h' hcut =>
        split at hd
        next hp' => exact ⟨h', hp' ▸ hcut⟩
        next => cases hd
      next => cases hd

end Call

/-! ## Runs -/

/-- The bound below which nothing is accepted any more. -/
def nextRollback (codec : StateCodec) (file : File) : Nat :=
  match highestRollback codec file with
  | some highest => highest + 1
  | none => 0

section Runs

variable {c : Crypto} {codec : StateCodec} {file file' : File} {q : Request} {o : Outcome}

theorem commitStep_eq (h : commitStep c codec file q = some (o, file')) :
    (verifyAndCommit c codec q file).1 = o ∧ (verifyAndCommit c codec q file).2 = file' :=
  Prod.ext_iff.mp (Option.some.inj h)

theorem nextRollback_of_some (h : highestRollback codec file = some highest) :
    nextRollback codec file = highest + 1 := by
  rw [nextRollback, h]

/-- A turn does not lower the bound, and a call that returns had its index
at or above the bound and leaves the bound above it. -/
theorem commitStep_next (h : commitStep c codec file q = some (o, file')) :
    nextRollback codec file ≤ nextRollback codec file' ∧
      (o.returned = true → nextRollback codec file ≤ q.index ∧
        q.index < nextRollback codec file') := by
  obtain ⟨rfl, rfl⟩ := commitStep_eq h
  rcases verifyAndCommit_cases c codec q file with ⟨_, hret, hsame⟩ | ⟨_, _, hnew, habove⟩
  · rw [hsame, hret]
    exact ⟨Nat.le_refl _, (fun h => by cases h)⟩
  · have hle : nextRollback codec file ≤ q.index := by
      unfold nextRollback
      cases hh : highestRollback codec file with
      | none => exact Nat.zero_le _
      | some highest => exact (habove highest hh).2
    rw [nextRollback_of_some hnew]
    exact ⟨by omega, fun _ => ⟨hle, Nat.lt_succ_self _⟩⟩

end Runs

/-- Over any calls on one state file: the indices of those that return
strictly increase, so no envelope is accepted twice; a call that returns
leaves its own index as the highest; a call that ends before its replace
leaves the file as it was, and only a call that is cut short behind the
replace can have replaced and not returned; the highest index never
decreases; and at `2 ^ 64 - 1` no call returns. -/
theorem replay_protected (c : Crypto) (codec : StateCodec) (file file' : File)
    (ts : List (Turn File Request Outcome)) (h : Run (commitStep c codec) file ts file') :
    ((ts.filter (·.outcome.returned)).Pairwise fun x y => x.event.index < y.event.index) ∧
    ((ts.filter (·.outcome.returned)).Pairwise fun x y => x.event.envelope ≠ y.event.envelope) ∧
    (∀ x ∈ ts, x.outcome.returned = true →
      highestRollback codec x.after = some x.event.index) ∧
    (∀ x ∈ ts, x.outcome.replaced = false → x.outcome.returned = false ∧ x.after = x.before) ∧
    (∀ x ∈ ts, x.outcome.replaced = true → x.outcome.returned = false →
      ∃ h, x.event.cut = some (.directory, h)) ∧
    (∀ highest, highestRollback codec file = some highest →
      ∃ later, highestRollback codec file' = some later ∧ highest ≤ later) ∧
    (∀ x ∈ ts, highestRollback codec x.before = some (2 ^ 64 - 1) →
      x.outcome.returned = false ∧ x.after = x.before) := by
  have hturn := h.turn (I := fun _ => True) (fun _ _ _ _ _ _ => trivial) trivial
  obtain ⟨hend, _, hpair⟩ := h.ordered (f := nextRollback codec) (I := fun _ => True)
    (fun _ _ _ _ _ hstep => ⟨trivial, (commitStep_next hstep).1⟩) trivial
  -- An index below the bound left behind, a bound found that is no lower, an index not below it.
  have hindices : (ts.filter (·.outcome.returned)).Pairwise
      fun x y => x.event.index < y.event.index := by
    refine (hpair.filter _).imp_of_mem fun {x y} hx hy hxy => ?_
    obtain ⟨hx, hxret⟩ := List.mem_filter.mp hx
    obtain ⟨hy, hyret⟩ := List.mem_filter.mp hy
    calc x.event.index < nextRollback codec x.after := ((commitStep_next (hturn x hx).2).2 hxret).2
      _ ≤ nextRollback codec y.before := hxy
      _ ≤ y.event.index := ((commitStep_next (hturn y hy).2).2 hyret).1
  refine ⟨hindices, ?_, ?_, ?_, ?_, ?_, ?_⟩
  · refine hindices.imp fun {x y} hlt heq => ?_
    rw [Request.index, Request.index, heq] at hlt
    exact Nat.lt_irrefl _ hlt
  · intro x hx hret
    obtain ⟨hout, hafter⟩ := commitStep_eq (hturn x hx).2
    rcases verifyAndCommit_cases c codec x.event x.before with ⟨_, hno, _⟩ | ⟨_, _, hnew, _⟩
    · rw [hout, hret] at hno
      cases hno
    · rwa [hafter] at hnew
  · intro x hx hrep
    obtain ⟨hout, hafter⟩ := commitStep_eq (hturn x hx).2
    rcases verifyAndCommit_cases c codec x.event x.before with ⟨_, hno, hsame⟩ | ⟨hyes, _⟩
    · rw [hout] at hno
      exact ⟨hno, hafter.symm.trans hsame⟩
    · rw [hout, hrep] at hyes
      cases hyes
  · intro x hx hrep hret
    obtain ⟨hout, hafter⟩ := commitStep_eq (hturn x hx).2
    rcases verifyAndCommit_cases c codec x.event x.before with ⟨hno, _⟩ | ⟨_, hwhy, _⟩
    · rw [hout, hrep] at hno
      cases hno
    · rw [hout, hret] at hwhy
      exact hwhy.resolve_left (by decide)
  · intro highest hh
    rw [nextRollback_of_some hh] at hend
    unfold nextRollback at hend
    cases hl : highestRollback codec file' with
    | none => rw [hl] at hend; exact absurd hend (Nat.not_succ_le_zero _)
    | some later =>
      rw [hl] at hend
      exact ⟨later, rfl, Nat.le_of_succ_le_succ hend⟩
  · intro x hx htop
    obtain ⟨hout, hafter⟩ := commitStep_eq (hturn x hx).2
    rcases verifyAndCommit_cases c codec x.event x.before with ⟨_, hno, hsame⟩ | ⟨_, _, _, habove⟩
    · rw [hout] at hno
      exact ⟨hno, hafter.symm.trans hsame⟩
    · exact absurd rfl (habove _ htop).1

/-! ## A codec -/

theorem isIdentity_chars (h : isIdentity key = true) :
    ∀ c ∈ key.toList, c.toNat < 256 ∧ c ≠ ',' := by
  rw [isIdentity_iff] at h
  have hall : ∀ c ∈ "0123456789abcdef".toList, c.toNat < 256 ∧ c ≠ ',' := plain_chars (by decide)
  exact fun c hc => hall c (h.2 c hc)

/-- No two states are written alike. -/
theorem stateBytes_inj {highest' : Nat} {key' : String} (hk : isIdentity key = true)
    (hk' : isIdentity key' = true) (h : stateBytes highest key = stateBytes highest' key') :
    highest = highest' ∧ key = key' := by
  replace h := dumps_members h
  obtain ⟨hkey, h⟩ := dumpsMembers_split (plain_str (isIdentity_chars hk) (isIdentity_chars hk'))
    (by decide) h
  obtain ⟨hhigh, _⟩ := dumpsMembers_split (plain_int highest highest') (by decide) h
  cases hkey
  cases hhigh
  exact ⟨rfl, rfl⟩

open Classical in
/-- The decoder that knows the states and nothing else. -/
noncomputable def StateCodec.exact : StateCodec where
  load data :=
    if h : ∃ s : Nat × String, isIdentity s.2 = true ∧ stateBytes s.1 s.2 = data then
      .ok (.object (stateMembers h.choose.1 h.choose.2))
    else .error (.envelope "invalid rollback state")
  load_state highest key _ hkey := by
    have hex : ∃ s : Nat × String, isIdentity s.2 = true ∧ stateBytes s.1 s.2 = stateBytes highest key :=
      ⟨(highest, key), hkey, rfl⟩
    obtain ⟨hhigh, hname⟩ := stateBytes_inj hex.choose_spec.1 hkey hex.choose_spec.2
    rw [dif_pos hex, hhigh, hname]

/-! ## One envelope, twice -/

/-- A call that nothing befalls, without a policy of its own. -/
def plainRequest (envelope : List UInt8) (get : Store) : Request := ⟨some envelope, some get, none, none⟩

/-- The first call on a path returns when its envelope verifies. -/
theorem verifyAndCommit_first {c : Crypto} (codec : StateCodec) {envelope : List UInt8} {get : Store}
    (h : verify c (some envelope) (some get) (.int (0 : Nat)) = .ok v) :
    (verifyAndCommit c codec (plainRequest envelope get) .absent).1.returned = true := by
  have hprepare : prepare c codec (plainRequest envelope get) .absent = .ok v := by
    change lift (verify c (some envelope) (some get) (.int (0 : Nat))) >>= _ = _
    rw [h]
    rfl
  rw [verifyAndCommit, hprepare]
  rfl

/-- The capsule in an envelope of index 7: it is accepted once. -/
theorem replay_protected_twice :
    ∃ envelope file,
      Python.sealEnvelope .standard (some V2.paddedCapsule) (some [1, 2, 3]) (.int 7) = .ok envelope ∧
      (verifyAndCommit .standard .exact (plainRequest envelope sampleStore) .absent).2 = file ∧
      (verifyAndCommit .standard .exact (plainRequest envelope sampleStore) .absent).1.returned = true ∧
      (verifyAndCommit .standard .exact (plainRequest envelope sampleStore) file).1.returned = false := by
  have hcapsule : V2.WellFormed (Mem.ofList V2.paddedCapsule) V2.paddedCapsule.length :=
    (V2.Rust.parse_settles _).ok_iff.mp ⟨_, V2.paddedCapsule_parses⟩
  obtain ⟨envelope, hseal, hverify⟩ := Python.verify_seal hcapsule (by decide) sampleStore_get
    (show 7 < 2 ^ 64 by decide) (Nat.zero_le 7)
  have hreturned := verifyAndCommit_first StateCodec.exact hverify
  obtain ⟨q, hq⟩ : ∃ q, plainRequest envelope sampleStore = q := ⟨_, rfl⟩
  refine ⟨envelope, (verifyAndCommit .standard .exact q .absent).2, hseal, ?_⟩
  rw [hq] at hreturned ⊢
  obtain ⟨⟨o, file⟩, hfirst⟩ : ∃ r, verifyAndCommit .standard .exact q .absent = r := ⟨_, rfl⟩
  obtain ⟨⟨o', file'⟩, hsecond⟩ : ∃ r, verifyAndCommit .standard .exact q file = r := ⟨_, rfl⟩
  have hrun : Run (commitStep .standard .exact) .absent
      [⟨.absent, q, o, file⟩, ⟨file, q, o', file'⟩] file' :=
    .cons (by rw [commitStep, hfirst]) (.cons (by rw [commitStep, hsecond]) (.nil _))
  have hindices := (replay_protected _ _ _ _ _ hrun).1
  rw [hfirst] at hreturned ⊢
  refine ⟨rfl, hreturned, ?_⟩
  rw [hsecond]
  refine Bool.eq_false_iff.mpr fun hagain => ?_
  simp only [List.filter_cons, show o.returned = true from hreturned,
    show o'.returned = true from hagain, if_true] at hindices
  exact Nat.lt_irrefl q.index
    ((List.pairwise_cons.mp hindices).1 ⟨file, q, o', file'⟩ List.mem_cons_self)

end BearBoot.Envelope
