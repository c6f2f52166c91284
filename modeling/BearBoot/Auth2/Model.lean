import Mathlib.Data.List.Sort
import BearBoot.Machine.Json
import BearBoot.Wire
import BearBoot.Auth2.Der

/-!
# Manifests and signed envelopes, as `experimental/auth2/auth2.py` computes them

A manifest lists keys with a role, a span of generations and a revocation
bit, and is signed by a root key. An envelope is a payload signed by one of
those keys. Both start with a header of one layout, of which a few words
mean different things (`Frame`), and both are signed with the signature's
own 64 bytes zeroed.

The module delegates cryptography to the `openssl` command. A `Provider` is
what its runs answer: an exported public key in DER, a check of a public
key given in PEM, a signature in DER, a verdict. A run that fails raises
`Auth2Error`, so every answer is in `Py`. Key arguments are paths, and a
path is a value of any type `κ`. `Lawful` is what is assumed of a
provider when it works: it accepts exactly the valid signatures, `s` and
`n - s` alike, and exports keys it accepts itself.

Generations are checked to be integers and may be any Python object;
roles and minimum generations are integers, as their annotations say.
-/

set_option autoImplicit false

namespace BearBoot.Auth2

open Machine

/-! ## The provider -/

/-- What `hashlib` and the runs of `openssl` answer. -/
structure Provider (κ : Type) where
  sha256 : List UInt8 → List UInt8
  exportPublic : κ → Py (List UInt8)
  exportPrivate : κ → Py (List UInt8)
  pubcheck : (pem : List UInt8) → Py Unit
  sign : κ → (data : List UInt8) → Py (List UInt8)
  verify : (pem signature data : List UInt8) → Py Bool

/-- `_SPKI_P256_PREFIX`. -/
def spkiHead : List UInt8 :=
  [0x30, 0x59, 0x30, 0x13, 0x06, 0x07, 0x2a, 0x86, 0x48, 0xce, 0x3d, 0x02, 0x01, 0x06, 0x08, 0x2a,
    0x86, 0x48, 0xce, 0x3d, 0x03, 0x01, 0x07, 0x03, 0x42, 0x00]

section Keys

variable {κ : Type} (o : Provider κ)

/-- The export in `_public_spki`: of a public key, and failing that of a
private one. -/
def exportSpki (key : κ) : Py (List UInt8) :=
  match o.exportPublic key with
  | .ok der => .ok der
  | .error _ => o.exportPrivate key

/-- `_public_spki`. -/
def publicSpki (key : κ) : Py (List UInt8) := do
  let der ← exportSpki o key
  refuse (der.length ≠ 26 + 65 ∨ der.take 26 ≠ spkiHead) ⟨"key is not an ECDSA P-256 public key"⟩
  refuse ((der.drop 26).getD 0 0 ≠ 4) ⟨"P-256 public key is not uncompressed SEC1"⟩
  pure der

/-- `_spki_from_point`. -/
def spkiFromPoint (point : List UInt8) : Py (List UInt8) := do
  refuse (point.length ≠ 65 ∨ point.getD 0 0 ≠ 4) ⟨"malformed P-256 public point"⟩
  pure (spkiHead ++ point)

def base64Alphabet : List Char :=
  "ABCDEFGHIJKLMNOPQRSTUVWXYZabcdefghijklmnopqrstuvwxyz0123456789+/".toList

/-- One digit: the six bits of `v` from bit `k` on. -/
def base64Digit (v k : Nat) : Char := base64Alphabet.getD (v / 2 ^ k % 64) '='

/-- `base64.b64encode`. -/
def b64encode : List UInt8 → List Char
  | [] => []
  | [a] =>
    let v := a.toNat * 2 ^ 16
    [base64Digit v 18, base64Digit v 12, '=', '=']
  | [a, b] =>
    let v := a.toNat * 2 ^ 16 + b.toNat * 2 ^ 8
    [base64Digit v 18, base64Digit v 12, base64Digit v 6, '=']
  | a :: b :: c :: rest =>
    let v := a.toNat * 2 ^ 16 + b.toNat * 2 ^ 8 + c.toNat
    base64Digit v 18 :: base64Digit v 12 :: base64Digit v 6 :: base64Digit v 0 :: b64encode rest

/-- `_pem_public_key`. -/
def pemPublicKey (point : List UInt8) : Py (List UInt8) := do
  let spki ← spkiFromPoint point
  let encoded := b64encode spki
  let lines := (List.range ((encoded.length + 63) / 64)).map fun i => (encoded.drop (64 * i)).take 64
  pure (Json.ascii ("-----BEGIN PUBLIC KEY-----\n".toList ++ ['\n'].intercalate lines ++
    "\n-----END PUBLIC KEY-----\n".toList))

/-- `_validate_public_point`. -/
def validatePublicPoint (point : List UInt8) : Py (List UInt8) := do
  let spki ← spkiFromPoint point
  let pem ← pemPublicKey point
  o.pubcheck pem
  pure spki

/-- `_key_id`, whose algorithm is always one that fits 16 bits. -/
def keyId (spki : List UInt8) (algorithm : Nat) : List UInt8 :=
  le algorithm 2 ++ (o.sha256 spki).take 30

/-- `_sign`. -/
def sign (data : List UInt8) (privateKey : κ) : Py (List UInt8) := do
  let _ ← publicSpki o privateKey
  let der ← o.sign privateKey data
  ecdsaDerToRaw der

/-- `_verify_signature`. -/
def verifySignature (data signature point : List UInt8) : Py Unit := do
  checkLowS signature
  let pem ← pemPublicKey point
  let der ← ecdsaRawToDer signature
  let accepted ← o.verify pem der data
  refuse (accepted = false) ⟨"ECDSA authentication failed"⟩

end Keys

/-- What a working provider does. `valid` is validity of an ECDSA
signature, whatever that is. -/
structure Lawful {κ : Type} (o : Provider κ)
    (valid : (point data : List UInt8) → (r s : Nat) → Prop) : Prop where
  sha256_length : ∀ data, (o.sha256 data).length = 32
  verify_iff : ∀ {point pem data r s}, pemPublicKey point = .ok pem → Scalar r → Scalar s →
    (o.verify pem (derOf r s) data = .ok true ↔ valid point data r s)
  valid_neg : ∀ {point data r s}, Scalar s → valid point data r s →
    valid point data r (p256Order - s)
  sign_valid : ∀ {key spki data der}, publicSpki o key = .ok spki → o.sign key data = .ok der →
    ∃ r s, Scalar r ∧ Scalar s ∧ der = derOf r s ∧ valid (spki.drop 26) data r s
  pubcheck_export : ∀ {key spki pem}, publicSpki o key = .ok spki →
    pemPublicKey (spki.drop 26) = .ok pem → o.pubcheck pem = .ok ()

/-! ## Frames -/

/-- The fields of `MANIFEST_HEADER` and of `ENVELOPE_HEADER`, which have one
layout. `kind` is a manifest's entry size and an envelope's role, `count`
a manifest's key count and reserved in an envelope, `extent` the total
size of a manifest and the payload size of an envelope. -/
structure Frame where
  magic : List UInt8
  version : Nat
  headerSize : Nat
  algorithm : Nat
  kind : Nat
  flags : Nat
  count : Nat
  generation : Nat
  extent : Nat
  identity : List UInt8
  signature : List UInt8
  deriving DecidableEq, Repr

/-- The bytes of `pack`, field by field. -/
def Frame.fields (f : Frame) : List (List UInt8) :=
  [f.magic, le f.version 2, le f.headerSize 2, le f.algorithm 2, le f.kind 2, le f.flags 4,
    le f.count 4, le f.generation 8, le f.extent 8, f.identity, f.signature]

/-- `unpack_from`, on at least 136 bytes. -/
def frameOf (bytes : List UInt8) : Frame :=
  let b := Mem.ofList bytes
  ⟨b.bytes 0 8, get16 b 8, get16 b 10, get16 b 12, get16 b 14, get32 b 16, get32 b 20, get64 b 24,
    get64 b 32, b.bytes 40 32, b.bytes 72 64⟩

/-- `raw[72:136] = signature`. -/
def putSignature (raw signature : List UInt8) : List UInt8 :=
  raw.take 72 ++ signature ++ raw.drop 136

/-- `manifest_signing_bytes` and `envelope_signing_bytes`. -/
def signingBytes (label : String) (bytes : List UInt8) : Py (List UInt8) := do
  refuse (bytes.length < 136) ⟨label ++ " extent is truncated"⟩
  pure (putSignature bytes (List.replicate 64 0))

/-- `_validate_generation`, with the number it let through. -/
def validateGeneration (generation : Json.Value) (label : String) : Py Nat :=
  match generation.uint64? with
  | some g => if g = 0 then .error ⟨"invalid " ++ label ++ " security generation"⟩ else .ok g
  | none => .error ⟨"invalid " ++ label ++ " security generation"⟩

/-! ## Manifests -/

/-- `KeyPolicy`. -/
structure KeyPolicy (κ : Type) where
  publicKey : κ
  role : Int
  activationGeneration : Json.Value
  retirementGeneration : Json.Value
  revoked : Bool

/-- `ManifestKey`. -/
structure ManifestKey where
  keyId : List UInt8
  algorithm : Nat
  role : Nat
  activationGeneration : Nat
  retirementGeneration : Nat
  revoked : Bool
  publicPoint : List UInt8
  deriving DecidableEq, Repr

/-- `Manifest`. -/
structure Manifest where
  securityGeneration : Nat
  rootKeyId : List UInt8
  keys : List ManifestKey
  deriving DecidableEq, Repr

/-- `BBP2KEY`. -/
def manifestMagic : List UInt8 := [0x42, 0x42, 0x50, 0x32, 0x4b, 0x45, 0x59, 0]

/-- The bytes of `MANIFEST_ENTRY.pack`, field by field. -/
def ManifestKey.fields (k : ManifestKey) : List (List UInt8) :=
  [k.keyId, le k.algorithm 2, le k.role 2, le (if k.revoked then 1 else 0) 4,
    le k.activationGeneration 8, le k.retirementGeneration 8, k.publicPoint, List.replicate 7 0]

section Build

variable {κ : Type} (o : Provider κ)

/-- One turn of the loop over the policies: the record it appends. -/
def buildRecord (seen : List (List UInt8)) (policy : KeyPolicy κ) : Py ManifestKey := do
  refuse (¬ (policy.role = 1 ∨ policy.role = 2)) ⟨"unknown signer role"⟩
  let activation ← validateGeneration policy.activationGeneration "activation"
  let retirement ← validateGeneration policy.retirementGeneration "retirement"
  refuse (retirement < activation) ⟨"activation follows retirement"⟩
  let spki ← publicSpki o policy.publicKey
  let identity := keyId o spki 1
  refuse (identity ∈ seen) ⟨"duplicate key in manifest"⟩
  pure ⟨identity, 1, policy.role.toNat, activation, retirement, policy.revoked, spki.drop 26⟩

/-- The loop over the policies. -/
def buildRecords : (seen : List (List UInt8)) → List (KeyPolicy κ) → Py (List ManifestKey)
  | _, [] => pure []
  | seen, policy :: policies => do
    let record ← buildRecord o seen policy
    let records ← buildRecords (record.keyId :: seen) policies
    pure (record :: records)

/-- `records.sort(key=...)`. -/
def sortRecords (records : List ManifestKey) : List ManifestKey :=
  records.insertionSort fun a b => a.keyId ≤ b.keyId

/-- A manifest's bytes with a given signature. -/
def manifestBytes (generation : Nat) (rootId : List UInt8) (records : List ManifestKey)
    (signature : List UInt8) : List UInt8 :=
  (Frame.fields ⟨manifestMagic, 1, 136, 1, 128, 0, records.length, generation,
    136 + records.length * 128, rootId, signature⟩).flatten ++
    (records.map fun k => k.fields.flatten).flatten

/-- `build_manifest`. -/
def buildManifest (rootPrivateKey : κ) (securityGeneration : Json.Value)
    (policies : List (KeyPolicy κ)) : Py (List UInt8) := do
  let generation ← validateGeneration securityGeneration "manifest"
  let rootSpki ← publicSpki o rootPrivateKey
  let records ← buildRecords o [] policies
  refuse (records = [] ∨ 32 < records.length) ⟨"manifest key count is out of bounds"⟩
  let records := sortRecords records
  let raw := manifestBytes generation (keyId o rootSpki 1) records (List.replicate 64 0)
  let signature ← sign o raw rootPrivateKey
  pure (putSignature raw signature)

/-- One turn of the loop over the entries. -/
def readKey (manifest : List UInt8) (offset : Nat) (seen : List (List UInt8)) : Py ManifestKey := do
  let m := Mem.ofList manifest
  let identity := m.bytes offset 32
  let algorithm := get16 m (offset + 32)
  let role := get16 m (offset + 34)
  let flags := get32 m (offset + 36)
  let point := m.bytes (offset + 56) 65
  refuse (algorithm ≠ 1) ⟨"unknown manifest key algorithm"⟩
  refuse (¬ (role = 1 ∨ role = 2)) ⟨"unknown manifest signer role"⟩
  refuse (flags &&& 0xFFFFFFFE ≠ 0) ⟨"unsupported manifest key flags"⟩
  refuse (m.bytes (offset + 121) 7 ≠ List.replicate 7 0) ⟨"nonzero manifest reserved bytes"⟩
  let activation ← validateGeneration (.int (get64 m (offset + 40))) "activation"
  let retirement ← validateGeneration (.int (get64 m (offset + 48))) "retirement"
  refuse (retirement < activation) ⟨"manifest activation follows retirement"⟩
  let spki ← validatePublicPoint o point
  refuse (identity ≠ keyId o spki algorithm) ⟨"manifest key identity mismatch"⟩
  refuse (identity ∈ seen) ⟨"duplicate key in manifest"⟩
  pure ⟨identity, algorithm, role, activation, retirement, flags &&& 1 ≠ 0, point⟩

/-- The loop over the entries. -/
def readKeys (manifest : List UInt8) : (count offset : Nat) → (seen : List (List UInt8)) →
    Py (List ManifestKey)
  | 0, _, _ => pure []
  | count + 1, offset, seen => do
    let key ← readKey o manifest offset seen
    let keys ← readKeys manifest count (offset + 128) (key.keyId :: seen)
    pure (key :: keys)

/-- `verify_manifest`. -/
def verifyManifest (manifest : List UInt8) (rootPublicKey : κ) (minimumGeneration : Int) :
    Py Manifest := do
  refuse (manifest.length < 136) ⟨"manifest extent is truncated"⟩
  let f := frameOf manifest
  refuse (f.magic ≠ manifestMagic ∨ f.version ≠ 1) ⟨"unsupported manifest framing"⟩
  refuse (f.algorithm ≠ 1) ⟨"unknown manifest algorithm"⟩
  refuse (f.headerSize ≠ 136 ∨ f.kind ≠ 128) ⟨"unsupported manifest fixed widths"⟩
  refuse (f.flags ≠ 0) ⟨"unsupported manifest flags"⟩
  refuse (f.count = 0 ∨ 32 < f.count) ⟨"manifest key count is out of bounds"⟩
  refuse (f.extent ≠ 136 + f.count * 128 ∨ manifest.length ≠ 136 + f.count * 128)
    ⟨"manifest extent mismatch"⟩
  let generation ← validateGeneration (.int f.generation) "manifest"
  refuse (minimumGeneration < 0 ∨ 2 ^ 64 - 1 < minimumGeneration)
    ⟨"invalid minimum security generation"⟩
  refuse ((generation : Int) < minimumGeneration)
    ⟨"manifest security generation is below policy floor"⟩
  let rootSpki ← publicSpki o rootPublicKey
  refuse (f.identity ≠ keyId o rootSpki 1) ⟨"wrong root key identity"⟩
  let signed ← signingBytes "manifest" manifest
  verifySignature o signed f.signature (rootSpki.drop 26)
  let keys ← readKeys o manifest f.count 136 []
  pure ⟨generation, f.identity, keys⟩

end Build

/-! ## Envelopes -/

/-- `VerifiedEnvelope`. -/
structure VerifiedEnvelope where
  payload : List UInt8
  securityGeneration : Nat
  signerKeyId : List UInt8
  role : Nat
  deriving DecidableEq, Repr

/-- `BBP2SIG`. -/
def envelopeMagic : List UInt8 := [0x42, 0x42, 0x50, 0x32, 0x53, 0x49, 0x47, 0]

section Sign

variable {κ : Type} (o : Provider κ)

/-- An envelope's bytes with a given signature. -/
def envelopeBytes (role generation : Nat) (signerId payload signature : List UInt8) : List UInt8 :=
  (Frame.fields ⟨envelopeMagic, 1, 136, 1, role, 0, 0, generation, payload.length, signerId,
    signature⟩).flatten ++ payload

/-- `sign_envelope`. -/
def signEnvelope (payload : List UInt8) (privateKey : κ) (securityGeneration : Json.Value)
    (role : Int) : Py (List UInt8) := do
  let generation ← validateGeneration securityGeneration "envelope"
  refuse (¬ (role = 1 ∨ role = 2)) ⟨"unknown envelope signer role"⟩
  refuse (64 * 1024 * 1024 < payload.length) ⟨"payload extent exceeds auth2 bound"⟩
  let signerSpki ← publicSpki o privateKey
  let raw := envelopeBytes role.toNat generation (keyId o signerSpki 1) payload (List.replicate 64 0)
  let signature ← sign o raw privateKey
  pure (putSignature raw signature)

/-- `verify_envelope` once the manifest is verified: the policy, and then
the signature. -/
def checkSigner (envelope : List UInt8) (f : Frame) (generation : Nat) (manifest : Manifest)
    (allowRecovery : Bool) : Py VerifiedEnvelope := do
  refuse (generation ≠ manifest.securityGeneration)
    ⟨"envelope and manifest security generation mismatch"⟩
  match manifest.keys.find? (·.keyId = f.identity) with
  | none => .error ⟨"unknown signer key identity"⟩
  | some signer => do
    refuse (signer.role ≠ f.kind) ⟨"signer role does not match manifest"⟩
    refuse (f.kind = 2 ∧ allowRecovery = false) ⟨"recovery role requires explicit policy"⟩
    refuse (signer.revoked = true) ⟨"signer key is revoked"⟩
    refuse (generation < signer.activationGeneration) ⟨"signer key is not active"⟩
    refuse (signer.retirementGeneration < generation) ⟨"signer key is retired"⟩
    let signed ← signingBytes "envelope" envelope
    verifySignature o signed f.signature signer.publicPoint
    pure ⟨envelope.drop 136, generation, f.identity, f.kind⟩

/-- `verify_envelope`. -/
def verifyEnvelope (envelope manifestBytes : List UInt8) (rootPublicKey : κ)
    (minimumGeneration : Int) (allowRecovery : Bool) : Py VerifiedEnvelope := do
  refuse (envelope.length < 136) ⟨"envelope extent is truncated"⟩
  let f := frameOf envelope
  refuse (f.magic ≠ envelopeMagic ∨ f.version ≠ 1) ⟨"unsupported envelope framing"⟩
  refuse (f.algorithm ≠ 1) ⟨"unknown envelope algorithm"⟩
  refuse (f.headerSize ≠ 136) ⟨"unsupported envelope fixed width"⟩
  refuse (¬ (f.kind = 1 ∨ f.kind = 2)) ⟨"unknown envelope signer role"⟩
  refuse (f.flags ≠ 0 ∨ f.count ≠ 0) ⟨"unsupported envelope flags or reserved bytes"⟩
  refuse (64 * 1024 * 1024 < f.extent ∨ envelope.length ≠ 136 + f.extent)
    ⟨"envelope payload extent mismatch"⟩
  let generation ← validateGeneration (.int f.generation) "envelope"
  checkLowS f.signature
  let manifest ← verifyManifest o manifestBytes rootPublicKey minimumGeneration
  checkSigner o envelope f generation manifest allowRecovery

end Sign

end BearBoot.Auth2
