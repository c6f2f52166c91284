import BearBoot.Machine.Json
import BearBoot.Machine.Pack
import BearBoot.V2.Parse
import BearBoot.V2.Python
import BearBoot.V2.Rust

/-!
# The authenticated envelope, three times

An envelope is an 80-byte header and a version 2 capsule. The header names
a key by the first 16 bytes of its hash, carries a rollback index and ends
in an HMAC over the whole envelope with the tag's own bytes zeroed.

`tools/bbp_v2_envelope.py` seals and verifies; `v2/bbp_v2_auth.c` parses
with two callbacks, one that decides the MAC and one that decides policy;
`auth.rs` parses the framing and leaves both to its caller. Each is here
under its own names and checks in its own order.

Nothing is assumed of the hash and of the HMAC but the lengths of what
they answer. The C callbacks are any functions of what they can read: the
identity, the header buffer, the capsule and the tag; and every call is
recorded with its arguments. A Python argument of a wrong type is `none`,
a store without `get` is `none`, and a `get` may raise.
-/

set_option autoImplicit false

namespace BearBoot.Envelope

open Machine

/-- SHA-256 and HMAC-SHA256, as functions. -/
structure Crypto where
  sha256 : List UInt8 → List UInt8
  hmac : (key message : List UInt8) → List UInt8
  sha256_length : ∀ data, (sha256 data).length = 32
  hmac_length : ∀ key message, (hmac key message).length = 32

/-- `key_id`. -/
def Crypto.keyId (c : Crypto) (key : List UInt8) : List UInt8 := (c.sha256 key).take 16

/-- `BBP2AUTH`. -/
def magic : List UInt8 := [0x42, 0x42, 0x50, 0x32, 0x41, 0x55, 0x54, 0x48]

/-! ## `tools/bbp_v2_envelope.py` -/

namespace Python

/-- What a call raises: an `EnvelopeError`, a `struct.error`, or what a
callback or the system raised. -/
inductive Raised where
  | envelope (text : String)
  | struct
  | foreign
  deriving DecidableEq, Repr

abbrev Py (α : Type) : Type := Except Raised α

/-- An argument of the expected kind, or the complaint that it is none. -/
def expect {α : Type} (argument : Option α) (text : String) : Py α :=
  match argument with
  | some a => .ok a
  | none => .error (.envelope text)

/-- The fields of `HEADER`. -/
structure Header where
  magic : List UInt8
  version : Nat
  algorithm : Nat
  flags : Nat
  rollback : Nat
  size : Nat
  identity : List UInt8
  tag : List UInt8
  deriving DecidableEq, Repr

/-- The bytes of `HEADER.pack`, field by field. -/
def Header.fields (h : Header) : List (List UInt8) :=
  [h.magic, le h.version 2, le h.algorithm 2, le h.flags 4, le h.rollback 8, le h.size 8, h.identity,
    h.tag]

/-- `HEADER.unpack_from`. -/
def unpack (envelope : List UInt8) : Py Header :=
  if envelope.length < 80 then .error .struct
  else
    let e := Mem.ofList envelope
    pure ⟨e.bytes 0 8, get16 e 8, get16 e 10, get32 e 12, get64 e 16, get64 e 24, e.bytes 32 16,
      e.bytes 48 32⟩

/-- The script's `seal`. -/
def sealEnvelope (c : Crypto) (payload key : Option (List UInt8)) (rollbackIndex : Json.Value) :
    Py (List UInt8) := do
  let payload ← expect payload "invalid capsule extent"
  refuse (64 * 1024 * 1024 < payload.length) (.envelope "invalid capsule extent")
  let key ← expect key "invalid key or rollback index"
  refuse (key = []) (.envelope "invalid key or rollback index")
  let rollbackIndex ← expect rollbackIndex.uint64? "invalid key or rollback index"
  let head := (Header.fields ⟨magic, 1, 1, 0, rollbackIndex, payload.length, c.keyId key,
    List.replicate 32 0⟩).flatten
  let tag := c.hmac key (head ++ payload)
  pure (head.take (head.length - 32) ++ tag ++ payload)

/-- A key store's `get`, by an identity in hexadecimal; `none` is an
answer that is no byte string. -/
abbrev Store := String → Py (Option (List UInt8))

/-- What `verify` returns. -/
structure Verified where
  payload : List UInt8
  rollback : Nat
  identity : String
  deriving DecidableEq, Repr

/-- What is signed: the envelope around a zero tag. -/
def unsigned (envelope : List UInt8) : List UInt8 :=
  envelope.take 48 ++ List.replicate 32 0 ++ envelope.drop 80

/-- `_validate_v2_capsule`, which raises among the capsule's own. -/
def validateCapsule (payload : List UInt8) : Py Unit :=
  match V2.Python.validateV2Capsule payload with
  | .ok () => .ok ()
  | .error (.envelopeError text) => .error (.envelope text)
  | .error .structError => .error .struct

/-- The rest of `verify`, from the key lookup on. -/
def authenticate (c : Crypto) (keys : Option Store) (envelope : List UInt8) (h : Header) :
    Py Verified := do
  let get ← expect keys "invalid key store"
  let key ← get (Json.hex h.identity)
  let key ← expect key "unknown key identity"
  refuse (key = [] ∨ h.identity ≠ c.keyId key) (.envelope "unknown key identity")
  refuse (h.tag ≠ c.hmac key (unsigned envelope)) (.envelope "authentication failed")
  let payload := envelope.drop 80
  validateCapsule payload
  pure ⟨payload, h.rollback, Json.hex h.identity⟩

/-- `verify`. -/
def verify (c : Crypto) (envelope : Option (List UInt8)) (keys : Option Store)
    (minimumRollback : Json.Value) : Py Verified := do
  let envelope ← expect envelope "truncated envelope"
  refuse (envelope.length < 80) (.envelope "truncated envelope")
  refuse (64 * 1024 * 1024 < envelope.length - 80) (.envelope "capsule extent exceeds limit")
  let minimumRollback ← expect minimumRollback.uint64? "invalid rollback policy range"
  let h ← unpack envelope
  refuse (h.magic ≠ magic ∨ h.version ≠ 1 ∨ h.algorithm ≠ 1 ∨ h.flags ≠ 0)
    (.envelope "unsupported envelope framing")
  refuse (h.size ≠ envelope.length - 80) (.envelope "payload extent mismatch")
  refuse (h.rollback < minimumRollback) (.envelope "rollback policy rejected envelope")
  authenticate c keys envelope h

end Python

/-! ## `v2/bbp_v2_auth.c` -/

/-- `bbp_v2_auth_status_t`. -/
inductive Status where
  | ok
  | null
  | magic
  | version
  | algorithm
  | flags
  | extent
  | mac
  | capsule
  | policy
  deriving DecidableEq, Repr

/-- `struct bbp_v2_auth_view`. -/
structure AuthView where
  envelope : Nat
  envelopeSize : Nat
  rollbackIndex : Nat
  keyIdentity : List UInt8
  capsule : V2.View
  deriving DecidableEq, Repr

/-- `bbp_v2_auth_mac_verify_fn`, on what its pointers lead to. -/
abbrev MacVerify := (identity header capsule tag : List UInt8) → Bool

/-- `bbp_v2_auth_policy_fn`. -/
abbrev Policy := (rollbackIndex : Nat) → (identity : List UInt8) → V2.View → Bool

/-- A callback that was called, with its arguments and its answer. -/
inductive Call where
  | mac (identity header capsule tag : List UInt8) (answer : Bool)
  | policy (rollbackIndex : Nat) (identity : List UInt8) (capsule : V2.View) (answer : Bool)
  deriving DecidableEq, Repr

/-- What a call of `bbp_v2_auth_parse` leaves: its status, `*out`, and the
callbacks it made, in order. -/
structure Parsed where
  status : Status
  out : Option AuthView
  calls : List Call
  deriving DecidableEq, Repr

/-- A view that was not written to. -/
def blankView : V2.View := ⟨0, 0, 0, 0, 0⟩

/-- `bbp_v2_auth_parse` once its arguments and the framing have passed. -/
def authBody (m : Mem) (envelope extent : Nat) (verifyMac : MacVerify) (policy : Policy)
    (out : Option AuthView) : Parsed :=
  let capsuleSize := get64 m (envelope + 24)
  let capsule := envelope + 80
  let rollbackIndex := get64 m (envelope + 16)
  let identity := m.bytes (envelope + 32) 16
  -- `bytes_copy` into the stack buffer, then `bytes_zero` over the tag.
  let header := ((Mem.ofList (m.bytes envelope 80)).fill 48 32).bytes 0 80
  let payload := m.bytes capsule capsuleSize
  let tag := m.bytes (envelope + 48) 32
  let accepted := verifyMac identity header payload tag
  let calls := [Call.mac identity header payload tag accepted]
  if accepted = false then ⟨.mac, out, calls⟩
  else
    match (V2.parse capsule capsuleSize (some blankView)).val m with
    | (.error _, _) => ⟨.capsule, out, calls⟩
    | (.ok (), view) =>
      let view := view.getD blankView
      let accepted := policy rollbackIndex identity view
      let calls := calls ++ [.policy rollbackIndex identity view accepted]
      if accepted = false then ⟨.policy, out, calls⟩
      else ⟨.ok, some ⟨envelope, extent, rollbackIndex, identity, view⟩, calls⟩

/-- `bbp_v2_auth_parse`; `none` is a null callback or a null `out`. -/
def authParse (m : Mem) (envelope extent : Nat) (verifyMac : Option MacVerify)
    (policy : Option Policy) (out : Option AuthView) : Parsed :=
  match verifyMac, policy with
  | some verifyMac, some policy =>
    if envelope = 0 ∨ out = none then ⟨.null, out, []⟩
    else if extent < 80 ∨ V2.maxExtent < extent - 80 then ⟨.extent, out, []⟩
    else if m.bytes envelope 8 ≠ magic then ⟨.magic, out, []⟩
    else if get16 m (envelope + 8) ≠ 1 then ⟨.version, out, []⟩
    else if get16 m (envelope + 10) ≠ 1 then ⟨.algorithm, out, []⟩
    else if get32 m (envelope + 12) ≠ 0 then ⟨.flags, out, []⟩
    else if V2.maxExtent < get64 m (envelope + 24) ∨ get64 m (envelope + 24) ≠ extent - 80 then
      ⟨.extent, out, []⟩
    else authBody m envelope extent verifyMac policy out
  | _, _ => ⟨.null, out, []⟩

/-- The MAC callback of a key store: look the key up by its identity and
compare the HMAC. -/
def macOf (c : Crypto) (get : Python.Store) : MacVerify := fun identity header capsule tag =>
  match get (Json.hex identity) with
  | .ok (some key) =>
    key ≠ [] ∧ identity = c.keyId key ∧ tag = c.hmac key (header ++ capsule)
  | _ => false

/-- The policy callback that accepts indices from `minimum` on. -/
def atLeast (minimum : Nat) : Policy := fun rollbackIndex _ _ => minimum ≤ rollbackIndex

/-! ## `sdk/rust/bbp-wire/src/auth.rs` -/

namespace Rust

/-- `V2AuthError`. -/
inductive V2AuthError where
  | truncated
  | badMagic
  | unsupportedVersion
  | unsupportedAlgorithm
  | unsupportedFlags
  | invalidExtent
  | invalidCapsule (e : V2.Rust.V2Error)
  deriving DecidableEq, Repr

/-- How a run ends early. -/
inductive Stop where
  | err (e : V2AuthError)
  | panic
  deriving DecidableEq, Repr

abbrev R (α : Type) : Type := Except Stop α

/-- `map_err(V2AuthError::InvalidCapsule)`; a panic goes through. -/
def lift {α : Type} : V2.Rust.R α → R α
  | .ok a => .ok a
  | .error (.err e) => .error (.err (.invalidCapsule e))
  | .error .panic => .error .panic

/-- `V2AuthEnvelopeRef`. -/
structure V2AuthEnvelopeRef where
  bytes : List UInt8
  capsule : V2.Rust.V2CapsuleRef
  deriving DecidableEq, Repr

namespace V2AuthEnvelopeRef

/-- `V2AuthEnvelopeRef::parse`. -/
def parse (bytes : List UInt8) : R V2AuthEnvelopeRef := do
  refuse (bytes.length < 80) (.err .truncated)
  let head ← lift (slice .panic bytes 0 8)
  refuse (head ≠ magic) (.err .badMagic)
  let version ← lift (V2.Rust.readU16 bytes 8)
  refuse (version ≠ 1) (.err .unsupportedVersion)
  let algorithm ← lift (V2.Rust.readU16 bytes 10)
  refuse (algorithm ≠ 1) (.err .unsupportedAlgorithm)
  let flags ← lift (V2.Rust.readU32 bytes 12)
  refuse (flags ≠ 0) (.err .unsupportedFlags)
  let payloadSize := bytes.length - 80
  let size ← lift (V2.Rust.readU64 bytes 24)
  refuse (V2.maxExtent < payloadSize ∨ size ≠ payloadSize) (.err .invalidExtent)
  let payload ← lift (slice .panic bytes 80 bytes.length)
  let capsule ← lift (V2.Rust.V2CapsuleRef.parse payload)
  pure ⟨bytes, capsule⟩

def rollbackIndex (e : V2AuthEnvelopeRef) : R Nat := lift (V2.Rust.readU64 e.bytes 16)

def keyIdentity (e : V2AuthEnvelopeRef) : R (List UInt8) := lift (slice .panic e.bytes 32 48)

def tag (e : V2AuthEnvelopeRef) : R (List UInt8) := lift (slice .panic e.bytes 48 80)

/-- `for_each_mac_part`: what `update` is called with, in order. -/
def forEachMacPart (e : V2AuthEnvelopeRef) : R (List (List UInt8)) := do
  let front ← lift (slice .panic e.bytes 0 48)
  pure [front, List.replicate 32 0, e.capsule.bytes]

end V2AuthEnvelopeRef

end Rust

end BearBoot.Envelope
