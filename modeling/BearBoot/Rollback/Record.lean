import Mathlib.Data.Nat.Basic
import BearBoot.Tcg2.Sha256
import BearBoot.Rollback.Model

/-!
# Records, written and read back

A slot file is a record or it is nothing: `_read_slot` takes exactly the
bytes `_record_bytes` writes for a state that can be stored
(`readSlot_eq_some_iff`). So the digest, the key set and the canonical
form together leave no second spelling of a record, whatever the decoder
makes of other bytes.

The bound on a record's length (`recordBytes_length`) is what makes the
writer's own size check a check that never fires.

`Codec.exact` is a codec: SHA-256, and the decoder that knows the records,
takes a thousand open brackets for too many, and calls the rest invalid. It
needs records to be distinct (`recordBytes_inj`), which the separators see
to. It shows that the assumptions on a codec can be met.
-/

set_option autoImplicit false

namespace BearBoot.Rollback

open Machine.Json

variable {a : BootSlot} {p : Option BootSlot} {c : Codec}

/-- A state that can be stored. -/
structure BootState.Stored (s : BootState) : Prop where
  positive : s.sequence ≠ 0
  sequence : s.sequence ≤ uint64Max
  generation : s.generation ≤ uint64Max
  slots : validateSlots (slotValue s.activeSlot) (slotValue s.pendingSlot) =
    .ok (s.activeSlot.getD .A, s.pendingSlot)
  active : s.activeSlot ≠ none

theorem uint64_ofNat {n : Nat} (h : n ≤ uint64Max) (label : String) :
    uint64 (.int (n : Int)) label = .ok n := if_pos h

theorem uint64_ok {v : Value} {label : String} {n : Nat} (h : uint64 v label = .ok n) :
    v = .int n ∧ n ≤ uint64Max := by
  unfold uint64 at h
  split at h
  next k =>
    split at h
    next hk => cases h; exact ⟨rfl, hk⟩
    next => cases h
  next => cases h
  next => cases h

@[simp] theorem bootSlot_value (slot : BootSlot) : bootSlot slot.value = some slot := by
  cases slot <;> rfl

theorem validateSlots_ok {active pending : Value} (h : validateSlots active pending = .ok (a, p)) :
    active = a.value ∧ pending = slotValue p ∧ p ≠ some a := by
  have hslot : ∀ {v : Value} {b : BootSlot}, bootSlot v = some b → v = b.value := by
    intro v b hb
    unfold bootSlot at hb
    split at hb
    next hv => cases hb; exact hv
    next =>
      split at hb
      next hv => cases hb; exact hv
      next => cases hb
  unfold validateSlots at h
  cases ha : bootSlot active with
  | none => rw [ha] at h; cases h
  | some b =>
    rw [ha] at h
    dsimp only at h
    split at h
    · cases h
    next hpend =>
      split at h
      · cases h
      next hdiff =>
        cases h
        refine ⟨hslot ha, ?_, hdiff⟩
        cases hp : bootSlot pending with
        | none => exact not_not.mp fun hc => hpend ⟨hc, hp⟩
        | some b => exact hslot hp

theorem validateSlots_of_ne (h : p ≠ some a) :
    validateSlots a.value (slotValue p) = .ok (a, p) := by
  cases p with
  | none => cases a <;> rfl
  | some b =>
    cases a with
    | A =>
      cases b with
      | A => exact absurd rfl h
      | B => rfl
    | B =>
      cases b with
      | A => rfl
      | B => exact absurd rfl h

/-- What a commit writes can be stored. -/
theorem BootState.stored {sequence generation : Nat}
    (hpos : sequence ≠ 0) (hseq : sequence ≤ uint64Max) (hgen : generation ≤ uint64Max)
    (hne : p ≠ some a) : BootState.Stored ⟨sequence, generation, some a, p⟩ :=
  ⟨hpos, hseq, hgen, validateSlots_of_ne hne, by simp⟩

/-! ## Length -/

theorem length_slotValue (slot : Option BootSlot) : (slotValue slot).dumps.length ≤ 4 := by
  cases slot with
  | none => decide
  | some b => cases b <;> decide

variable {s : BootState}

theorem recordBytes_length (c : Codec) (hseq : s.sequence ≤ uint64Max)
    (hgen : s.generation ≤ uint64Max) :
    0 < (recordBytes c.sha256 s).length ∧ (recordBytes c.sha256 s).length ≤ 1024 := by
  have hactive := length_slotValue s.activeSlot
  have hpending := length_slotValue s.pendingSlot
  have hg := length_int (Nat.lt_succ_of_le hgen)
  have hs := length_int (Nat.lt_succ_of_le hseq)
  have hhex := length_hex (c.sha256 (canonical (payload s)))
  obtain ⟨text, htext⟩ : ∃ text, hex (c.sha256 (canonical (payload s))) = text := ⟨_, rfl⟩
  rw [c.sha256_length, htext] at hhex
  have hone : (Value.int 1).dumps.length = 1 := by decide
  rw [recordBytes, record, htext]
  simp only [canonical, ascii, dumps, dumpsMembers, dumpsMember, dumpsKey, compact, List.length_map,
    List.length_cons, List.length_append, List.length_nil, length_str, hhex, hone]
  have hkeys : "active_slot".toList.length = 11 ∧ "generation".toList.length = 10 ∧
      "pending_slot".toList.length = 12 ∧ "schema".toList.length = 6 ∧
      "bbp-durable-boot-state".toList.length = 22 ∧ "sequence".toList.length = 8 ∧
      "sha256".toList.length = 6 ∧ "version".toList.length = 7 := by decide
  obtain ⟨h1, h2, h3, h4, h5, h6, h7, h8⟩ := hkeys
  omega

/-! ## Reading back -/

theorem readRecord_ok {path : String} {data : List UInt8} {members : List (String × Value)}
    (h : readRecord c path data members = .ok s) :
    data = recordBytes c.sha256 s ∧ s.Stored := by
  unfold readRecord at h
  split at h
  · cases h
  split at h
  · cases h
  split at h
  next sequence generation active pending hseq hgen hslots =>
    split at h
    · cases h
    next hpos =>
      dsimp only at h
      split at h
      · cases h
      split at h
      · cases h
      next hdata =>
        cases h
        exact ⟨not_not.mp hdata, BootState.stored hpos (uint64_ok hseq).2 (uint64_ok hgen).2
          (validateSlots_ok hslots).2.2⟩
  · cases h

theorem readRecord_record (path : String) (h : s.Stored) :
    readRecord c path (recordBytes c.sha256 s) (record c.sha256 s) = .ok s := by
  obtain ⟨a, ha⟩ := Option.ne_none_iff_exists'.mp h.active
  obtain ⟨sequence, generation, active, pending⟩ := s
  obtain rfl : active = some a := ha
  have hslots : validateSlots (slotValue (some a)) (slotValue pending) = .ok (a, pending) := h.slots
  have hseq : uint64 (.int (sequence : Int)) "sequence" = .ok sequence := uint64_ofNat h.sequence _
  have hgen : uint64 (.int (generation : Int)) "generation" = .ok generation :=
    uint64_ofNat h.generation _
  simp only [readRecord, record, get, List.map_cons, List.map_nil, List.lookup_cons, expectedKeys,
    String.reduceBEq, Option.getD_some, hslots, hseq, hgen, Value.eqInt]
  simp [h.positive]

/-- A slot reads as the state `s` exactly when it holds the record of `s`. -/
theorem readSlot_eq_some_iff {path : String} {file : File} :
    readSlot c path file = .ok (some s) ↔ file = .regular (recordBytes c.sha256 s) ∧ s.Stored := by
  constructor
  · intro h
    cases file with
    | absent => cases h
    | unreadable => cases h
    | irregular => cases h
    | regular data =>
      rw [readSlot] at h
      split at h
      · cases h
      cases hl : c.loads data with
      | recursion => rw [hl] at h; cases h
      | invalid => rw [hl] at h; cases h
      | document d =>
        rw [hl] at h
        cases d with
        | other => cases h
        | object pairs =>
          dsimp only at h
          cases hd : duplicateMember [] pairs with
          | some key => rw [hd] at h; cases h
          | none =>
            rw [hd] at h
            dsimp only at h
            cases hr : readRecord c path data pairs with
            | error e => rw [hr] at h; cases h
            | ok state =>
              rw [hr] at h
              cases h
              obtain ⟨hdata, hstored⟩ := readRecord_ok hr
              exact ⟨by rw [hdata], hstored⟩
  · rintro ⟨rfl, h⟩
    obtain ⟨hpos, hlen⟩ := recordBytes_length c h.sequence h.generation
    have hnodup : duplicateMember [] (record c.sha256 s) = none := by
      simp [record, duplicateMember]
    rw [readSlot, if_neg (by omega), c.loads_record s h.sequence h.generation]
    dsimp only
    rw [hnodup]
    dsimp only
    rw [readRecord_record path h]
    rfl

/-! ## A codec -/

theorem plain_slot (a b : Option BootSlot) : Plain (slotValue a) (slotValue b) := by
  rcases a with _ | _ | _ <;> rcases b with _ | _ | _ <;> constructor <;> decide

/-- No two states have one record. -/
theorem recordBytes_inj {sha256 : List UInt8 → List UInt8} {s' : BootState}
    (h : recordBytes sha256 s = recordBytes sha256 s') : s = s' := by
  obtain ⟨sequence, generation, active, pending⟩ := s
  obtain ⟨sequence', generation', active', pending'⟩ := s'
  replace h := dumps_members h
  obtain ⟨hactive, h⟩ := dumpsMembers_split (plain_slot active active') (by decide) h
  obtain ⟨hgen, h⟩ := dumpsMembers_split (plain_int generation generation') (by decide) h
  obtain ⟨hpending, h⟩ := dumpsMembers_split (plain_slot pending pending') (by decide) h
  obtain ⟨_, h⟩ := dumpsMembers_split (plain_str (plain_chars (by decide)) (plain_chars (by decide)))
    (by decide) h
  obtain ⟨hseq, _⟩ := dumpsMembers_split (plain_int sequence sequence') (by decide) h
  have hslot : ∀ {a b : Option BootSlot}, slotValue a = slotValue b → a = b := by
    intro a b hab
    revert hab
    rcases a with _ | _ | _ <;> rcases b with _ | _ | _ <;> decide
  cases hgen
  cases hseq
  rw [hslot hactive, hslot hpending]

open Classical in
/-- The decoder that knows the records, and that a thousand brackets are too
many to open. -/
noncomputable def Codec.exact : Codec where
  sha256 := Tcg2.sha256Bytes
  loads data :=
    if h : ∃ s, recordBytes Tcg2.sha256Bytes s = data then
      .document (.object (record Tcg2.sha256Bytes h.choose))
    else if data.take 1000 = List.replicate 1000 0x5b then .recursion
    else .invalid
  sha256_length := Tcg2.sha256Bytes_length
  loads_record s _ _ := by
    have hex : ∃ s', recordBytes Tcg2.sha256Bytes s' = recordBytes Tcg2.sha256Bytes s :=
      ⟨s, rfl⟩
    rw [dif_pos hex, recordBytes_inj hex.choose_spec]

/-- A record begins with a brace, so any other text is no record. -/
theorem exact_loads {data : List UInt8} (h : data.head? ≠ some 0x7b) :
    Codec.exact.loads data =
      if data.take 1000 = List.replicate 1000 0x5b then .recursion else .invalid :=
  dif_neg fun ⟨_, hs⟩ => h (hs ▸ rfl)

end BearBoot.Rollback
