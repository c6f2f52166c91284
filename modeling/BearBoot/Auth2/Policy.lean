import BearBoot.Auth2.Accept
import BearBoot.Tcg2.Sha256

/-!
# The auth2 policy is sound and complete

Soundness reads `verifyEnvelope_ok_iff` and `verifyManifest_ok_iff` from
left to right: what is released was signed by a permitted key of a
manifest the root signed. Completeness is the other direction on what the
builders write, so what is left to show here is what `build_manifest` and
`sign_envelope` compute (`buildManifest_ok`, `signEnvelope_ok`). The
signature is made over the bytes with zeros in its place, and putting it
there changes nothing else, so those are the bytes a verifier restores
(`zeroed_manifest`, `zeroed_envelope`).

A policy names a key file, and a manifest has the key itself; `Stands` is
the correspondence, and a policy that stands for a key is a valid one. That
key identities do not collide is asked of the keys of the manifest at
hand: a digest of 30 bytes cannot be injective on all keys.
-/

set_option autoImplicit false

namespace BearBoot.Auth2

open Machine

variable {keys : List ManifestKey} {generation : Nat} {payload : List UInt8}

section Build

variable {κ : Type} {o : Provider κ} {valid : (point data : List UInt8) → (r s : Nat) → Prop}

/-- The key file signs whatever it is given. -/
def CanSign (o : Provider κ) (key : κ) : Prop := ∀ data, ∃ der, o.sign key data = .ok der

/-- A valid policy, and the key it puts into a manifest. -/
structure Stands (o : Provider κ) (policy : KeyPolicy κ) (k : ManifestKey) : Prop where
  role : policy.role = k.role
  role_known : k.role = 1 ∨ k.role = 2
  activation : policy.activationGeneration = .int k.activationGeneration
  retirement : policy.retirementGeneration = .int k.retirementGeneration
  activation_pos : 0 < k.activationGeneration
  ordered : k.activationGeneration ≤ k.retirementGeneration
  retirement_lt : k.retirementGeneration < 2 ^ 64
  revoked : policy.revoked = k.revoked
  exported : publicSpki o policy.publicKey = .ok (spkiHead ++ k.publicPoint)
  algorithm : k.algorithm = 1
  identity : k.keyId = keyId o (spkiHead ++ k.publicPoint) 1

theorem drop_spki (point : List UInt8) : (spkiHead ++ point).drop 26 = point :=
  List.drop_left' rfl

/-- An exported key passes the check of its point. -/
theorem exported_checked (law : Lawful o valid) {key : κ} {point : List UInt8}
    (h : publicSpki o key = .ok (spkiHead ++ point)) : PointChecked o point := by
  have hform := (publicSpki_form h).2
  rw [drop_spki] at hform
  obtain ⟨pem, hpem⟩ := pemPublicKey_ok_iff.mpr hform
  exact ⟨pem, hpem, law.pubcheck_export h (by rw [drop_spki]; exact hpem)⟩

theorem Stands.keyOk (law : Lawful o valid) {policy : KeyPolicy κ} {k : ManifestKey}
    (h : Stands o policy k) : KeyOk o k where
  algorithm := h.algorithm
  role := h.role_known
  activation_pos := h.activation_pos
  ordered := h.ordered
  retirement_lt := h.retirement_lt
  point := exported_checked law h.exported
  identity := h.identity

theorem keysOk_of_stands (law : Lawful o valid) {policies : List (KeyPolicy κ)}
    (h : List.Forall₂ (Stands o) policies keys) :
    ∀ k ∈ keys, KeyOk o k := by
  induction h with
  | nil => exact fun _ hk => by cases hk
  | cons hstands _ ih => exact List.forall_mem_cons.mpr ⟨hstands.keyOk law, ih⟩

/-- A key that signs makes a stored signature its own public key accepts. -/
theorem sign_ok (law : Lawful o valid) {key : κ} {spki : List UInt8}
    (hspki : publicSpki o key = .ok spki) (hsign : CanSign o key) (data : List UInt8) :
    ∃ signature, sign o data key = .ok signature ∧ Signs valid (spki.drop 26) data signature := by
  obtain ⟨der, hder⟩ := hsign data
  obtain ⟨r, s, hr, hs, rfl, hvalid⟩ := law.sign_valid hspki hder
  obtain ⟨hmin, hlow⟩ := scalar_min hs
  refine ⟨be r 32 ++ be (min s (p256Order - s)) 32, ?_, r, _, hr, hmin, hlow, rfl, ?_⟩
  · rw [sign, hspki]
    change (o.sign key data >>= ecdsaDerToRaw) = _
    rw [hder]
    exact derToRaw_derOf hr hs
  · rcases Nat.le_total s (p256Order - s) with h | h
    · rwa [Nat.min_eq_left h]
    · rw [Nat.min_eq_right h]
      exact law.valid_neg hs hvalid

/-! ## Manifests -/

theorem buildRecord_ok {policy : KeyPolicy κ} {k : ManifestKey} (h : Stands o policy k)
    {seen : List (List UInt8)} (hnew : k.keyId ∉ seen) : buildRecord o seen policy = .ok k := by
  have hret : 0 < k.retirementGeneration := Nat.lt_of_lt_of_le h.activation_pos h.ordered
  have hact : k.activationGeneration < 2 ^ 64 := Nat.lt_of_le_of_lt h.ordered h.retirement_lt
  unfold buildRecord
  simp only [ok_bind_iff, refuse_ok_iff, exists_const, pure_ok_iff, not_not, Nat.not_lt, h.role,
    h.activation, h.retirement, h.revoked, validateGeneration_ok_iff]
  refine ⟨by have := h.role_known; omega, _, ⟨rfl, h.activation_pos, hact⟩, _,
    ⟨rfl, hret, h.retirement_lt⟩, h.ordered, _, h.exported, by rw [← h.identity]; exact hnew, ?_⟩
  rw [← h.identity, drop_spki, Int.toNat_natCast]
  obtain ⟨identity, algorithm, role, activation, retirement, revoked, point⟩ := k
  have halg : algorithm = 1 := h.algorithm
  rw [halg]

/-- Valid policies with different identities are recorded as the keys they
stand for. -/
theorem buildRecords_ok {policies : List (KeyPolicy κ)}
    (h : List.Forall₂ (Stands o) policies keys) (hnodup : (keys.map (·.keyId)).Nodup)
    {seen : List (List UInt8)} (hnew : ∀ k ∈ keys, k.keyId ∉ seen) :
    buildRecords o seen policies = .ok keys := by
  induction h generalizing seen with
  | nil => rfl
  | @cons policy k policies keys hstands _ ih =>
    obtain ⟨hfresh, hnodup⟩ := List.nodup_cons.mp hnodup
    obtain ⟨hk, hkeys⟩ := List.forall_mem_cons.mp hnew
    have hrest : buildRecords o (k.keyId :: seen) policies = .ok keys := by
      refine ih hnodup fun k' hk' hmem => ?_
      rcases List.mem_cons.mp hmem with heq | hmem
      · exact hfresh (List.mem_map.mpr ⟨k', hk', heq⟩)
      · exact hkeys k' hk' hmem
    rw [buildRecords, buildRecord_ok hstands hk]
    change (buildRecords o (k.keyId :: seen) policies >>= _) = _
    rw [hrest]
    rfl

theorem sortRecords_perm (keys : List ManifestKey) : (sortRecords keys).Perm keys :=
  List.perm_insertionSort _ _

theorem sortRecords_sorted (keys : List ManifestKey) :
    (sortRecords keys).Pairwise fun a b => a.keyId ≤ b.keyId := by
  have htotal : Std.Total fun a b : ManifestKey => a.keyId ≤ b.keyId :=
    ⟨fun a b => List.le_total a.keyId b.keyId⟩
  have htrans : IsTrans ManifestKey fun a b => a.keyId ≤ b.keyId :=
    ⟨fun _ _ _ hab hbc => List.le_trans hab hbc⟩
  exact List.pairwise_insertionSort _ keys

/-- A manifest with its signature zeroed is the manifest that was signed. -/
theorem zeroed_manifest {rootId signature : List UInt8}
    (hg : generation < 2 ^ 64) (hc : keys.length ≤ 32) (hid : rootId.length = 32)
    (hs : signature.length = 64) :
    zeroed (manifestBytes generation rootId keys signature) 72 64 =
      manifestBytes generation rootId keys (List.replicate 64 0) := by
  have hfits := manifestFrame_fits hg hc hid hs
  have hbytes : manifestBytes generation rootId keys signature =
      (manifestFrame generation rootId keys.length signature).fields.flatten ++
        (keys.map fun k => k.fields.flatten).flatten := rfl
  rw [hbytes, ← putSignature_zeros (by rw [List.length_append, hfits.length]; omega),
    putSignature_fields hfits]
  rfl

/-- What `build_manifest` makes of valid policies: the manifest of their keys
in order, signed by the root. -/
theorem buildManifest_ok (law : Lawful o valid) {root : κ} {rootSpki : List UInt8}
    {policies : List (KeyPolicy κ)}
    (hroot : publicSpki o root = .ok rootSpki) (hsign : CanSign o root) (hpos : 0 < generation)
    (hlt : generation < 2 ^ 64) (hne : 0 < policies.length) (hle : policies.length ≤ 32)
    (hstands : List.Forall₂ (Stands o) policies keys) (hnodup : (keys.map (·.keyId)).Nodup) :
    ∃ signature,
      buildManifest o root (.int generation) policies =
        .ok (manifestBytes generation (keyId o rootSpki 1) (sortRecords keys) signature) ∧
      Signs valid (rootSpki.drop 26)
        (zeroed (manifestBytes generation (keyId o rootSpki 1) (sortRecords keys) signature) 72 64)
        signature := by
  have hlen : policies.length = keys.length := hstands.length_eq
  have hsorted : (sortRecords keys).length = keys.length := (sortRecords_perm keys).length_eq
  have hid := length_keyId law rootSpki 1
  obtain ⟨signature, hmade, hsigns⟩ := sign_ok law hroot hsign
    (manifestBytes generation (keyId o rootSpki 1) (sortRecords keys) (List.replicate 64 0))
  refine ⟨signature, ?_, ?_⟩
  · have hfits := manifestFrame_fits hlt (show (sortRecords keys).length ≤ 32 by omega) hid
      (List.length_replicate (n := 64) (a := (0 : UInt8)))
    have hput : putSignature
        (manifestBytes generation (keyId o rootSpki 1) (sortRecords keys) (List.replicate 64 0))
        signature = manifestBytes generation (keyId o rootSpki 1) (sortRecords keys) signature :=
      putSignature_fields hfits _ signature
    have hkeys : keys ≠ [] := List.ne_nil_of_length_pos (by omega)
    unfold buildManifest
    simp only [ok_bind_iff, refuse_ok_iff, exists_const, pure_ok_iff, not_or, Nat.not_lt,
      validateGeneration_ok_iff]
    exact ⟨generation, ⟨rfl, hpos, hlt⟩, rootSpki, hroot, keys,
      buildRecords_ok hstands hnodup fun _ _ => List.not_mem_nil, ⟨hkeys, by omega⟩, signature, hmade,
      hput⟩
  · rw [zeroed_manifest hlt (by omega) hid hsigns.length]
    exact hsigns

/-! ## Envelopes -/

theorem zeroed_envelope {role : Nat} {signerId signature : List UInt8}
    (hr : role = 1 ∨ role = 2) (hg : generation < 2 ^ 64) (hp : payload.length ≤ 64 * 1024 * 1024)
    (hid : signerId.length = 32) (hs : signature.length = 64) :
    zeroed (envelopeBytes role generation signerId payload signature) 72 64 =
      envelopeBytes role generation signerId payload (List.replicate 64 0) := by
  have hfits := envelopeFrame_fits hr hg hp hid hs
  have hbytes : envelopeBytes role generation signerId payload signature =
      (envelopeFrame role generation payload.length signerId signature).fields.flatten ++ payload :=
    rfl
  rw [hbytes, ← putSignature_zeros (by rw [List.length_append, hfits.length]; omega),
    putSignature_fields hfits]
  rfl

/-- What `sign_envelope` makes of a payload. -/
theorem signEnvelope_ok (law : Lawful o valid) {signer : κ} {point : List UInt8}
    {role : Nat} (hexport : publicSpki o signer = .ok (spkiHead ++ point))
    (hsign : CanSign o signer) (hr : role = 1 ∨ role = 2) (hpos : 0 < generation)
    (hlt : generation < 2 ^ 64) (hp : payload.length ≤ 64 * 1024 * 1024) :
    ∃ signature,
      signEnvelope o payload signer (.int generation) role =
        .ok (envelopeBytes role generation (keyId o (spkiHead ++ point) 1) payload signature) ∧
      Signs valid point
        (zeroed (envelopeBytes role generation (keyId o (spkiHead ++ point) 1) payload signature)
          72 64) signature := by
  have hid := length_keyId law (spkiHead ++ point) 1
  obtain ⟨signature, hmade, hsigns⟩ := sign_ok law hexport hsign
    (envelopeBytes role generation (keyId o (spkiHead ++ point) 1) payload (List.replicate 64 0))
  rw [drop_spki] at hsigns
  refine ⟨signature, ?_, ?_⟩
  · have hfits := envelopeFrame_fits hr hlt hp hid
      (List.length_replicate (n := 64) (a := (0 : UInt8)))
    have hput : putSignature
        (envelopeBytes role generation (keyId o (spkiHead ++ point) 1) payload
          (List.replicate 64 0)) signature =
        envelopeBytes role generation (keyId o (spkiHead ++ point) 1) payload signature :=
      putSignature_fields hfits _ signature
    unfold signEnvelope
    simp only [ok_bind_iff, refuse_ok_iff, exists_const, pure_ok_iff, not_not, Nat.not_lt,
      validateGeneration_ok_iff, Int.toNat_natCast]
    exact ⟨generation, ⟨rfl, hpos, hlt⟩, by omega, hp, _, hexport, signature, hmade, hput⟩
  · rw [zeroed_envelope hr hlt hp hid hsigns.length]
    exact hsigns

theorem signEnvelope_bound {signer : κ} {generation : Json.Value} {role : Int}
    {envelope : List UInt8} (h : signEnvelope o payload signer generation role = .ok envelope) :
    payload.length ≤ 64 * 1024 * 1024 := by
  unfold signEnvelope at h
  simp only [ok_bind_iff, refuse_ok_iff, exists_const, Nat.not_lt] at h
  obtain ⟨_, _, _, hbound, _⟩ := h
  exact hbound

/-! ## Both directions -/

/-- What is released: the payload of an envelope that a permitted key of a
root-signed manifest signed, at a generation above the floor. -/
def Released (o : Provider κ) (valid : (point data : List UInt8) → (r s : Nat) → Prop)
    (envelope manifest : List UInt8) (root : κ) (minimum : Int) (allowRecovery : Bool)
    (v : VerifiedEnvelope) : Prop :=
  ∃ rootSpki rootSignature keys k signature,
    publicSpki o root = .ok rootSpki ∧
    manifest = manifestBytes v.securityGeneration (keyId o rootSpki 1) keys rootSignature ∧
    Signs valid (rootSpki.drop 26) (zeroed manifest 72 64) rootSignature ∧
    k ∈ keys ∧ v.signerKeyId = k.keyId ∧ k.keyId = keyId o (spkiHead ++ k.publicPoint) 1 ∧
    envelope = envelopeBytes v.role v.securityGeneration k.keyId v.payload signature ∧
    Signs valid k.publicPoint (zeroed envelope 72 64) signature ∧
    minimum ≤ v.securityGeneration ∧ v.securityGeneration < 2 ^ 64 ∧
    Permits k v.role v.securityGeneration allowRecovery ∧ v.payload = envelope.drop 136

/-- Nothing is released that the policy does not permit. Conversely, from one
to 32 valid policies with different keys, whose identities do not collide,
are built into a manifest that is read back as exactly their keys in
the order of their identities, and every payload a permitted key of it
signs is released. -/
theorem policy_sound_and_complete {κ : Type} {o : Provider κ}
    {valid : (point data : List UInt8) → (r s : Nat) → Prop} (law : Lawful o valid) :
    (∀ (envelope manifest : List UInt8) (root : κ) (minimum : Int) (allowRecovery : Bool)
      (v : VerifiedEnvelope),
      verifyEnvelope o envelope manifest root minimum allowRecovery = .ok v →
        Released o valid envelope manifest root minimum allowRecovery v) ∧
    ∀ (root rootPublic : κ) (rootSpki : List UInt8) (generation : Nat)
      (policies : List (KeyPolicy κ)) (keys : List ManifestKey),
      publicSpki o root = .ok rootSpki → CanSign o root → publicSpki o rootPublic = .ok rootSpki →
      0 < generation → generation < 2 ^ 64 → 1 ≤ policies.length → policies.length ≤ 32 →
      List.Forall₂ (Stands o) policies keys → (keys.map (·.publicPoint)).Nodup →
      (∀ k ∈ keys, ∀ k' ∈ keys, k.keyId = k'.keyId → k.publicPoint = k'.publicPoint) →
      ∃ manifest, buildManifest o root (.int generation) policies = .ok manifest ∧
        ∀ minimum : Int, 0 ≤ minimum → minimum ≤ generation →
          (∃ sorted, verifyManifest o manifest rootPublic minimum =
              .ok ⟨generation, keyId o rootSpki 1, sorted⟩ ∧
            sorted.Perm keys ∧ sorted.Pairwise fun a b => a.keyId ≤ b.keyId) ∧
          ∀ k ∈ keys, ∀ (signer : κ) (payload : List UInt8) (role : Nat) (allowRecovery : Bool),
            publicSpki o signer = .ok (spkiHead ++ k.publicPoint) → CanSign o signer →
            Permits k role generation allowRecovery →
            ((∃ envelope, signEnvelope o payload signer (.int generation) role = .ok envelope) ↔
              payload.length ≤ 64 * 1024 * 1024) ∧
            ∀ envelope, signEnvelope o payload signer (.int generation) role = .ok envelope →
              verifyEnvelope o envelope manifest rootPublic minimum allowRecovery =
                .ok ⟨payload, generation, k.keyId, role⟩ := by
  refine ⟨?_, ?_⟩
  · intro envelope manifest root minimum allowRecovery v h
    obtain ⟨m, k, signature, hmanifest, hg, hk, hid, hpermits, hpayload, hbytes, hsigns⟩ :=
      (verifyEnvelope_ok_iff law).mp h
    obtain ⟨rootSpki, rootSignature, hroot, hm, hrootId, hmbytes, hmsigns, _, hfloor⟩ :=
      (verifyManifest_ok_iff law).mp hmanifest
    have hkey := hm.keys k hk
    have hglt := hm.generation_lt
    rw [hg] at hmbytes hfloor hglt
    rw [← hid] at hbytes
    refine ⟨rootSpki, rootSignature, m.keys, k, signature, hroot, hrootId ▸ hmbytes, hmsigns, hk,
      hid.symm, hkey.identity, hbytes, hsigns, hfloor, hglt, hpermits, ?_⟩
    have hfits := envelopeFrame_fits (hpermits.role ▸ hkey.role) hglt hpayload
      (show k.keyId.length = 32 by rw [hkey.identity, length_keyId law]) hsigns.length
    have hdrop : (envelopeBytes v.role v.securityGeneration k.keyId v.payload signature).drop 136 =
        v.payload := List.drop_left' hfits.length
    rw [hbytes, hdrop]
  · intro root rootPublic rootSpki generation policies keys hroot hrootSign hpublic hpos hlt hone hle
      hstands hdistinct hcollide
    have hoks := keysOk_of_stands law hstands
    have hperm := sortRecords_perm keys
    have hlen : policies.length = keys.length := hstands.length_eq
    have hsortedLen := hperm.length_eq
    have hnodup : (keys.map (·.keyId)).Nodup := by
      refine List.Nodup.map_on (fun k hk k' hk' heq => ?_) (List.Nodup.of_map _ hdistinct)
      exact List.inj_on_of_nodup_map hdistinct hk hk' (hcollide k hk k' hk' heq)
    obtain ⟨rootSignature, hbuild, hrootSigns⟩ :=
      buildManifest_ok law hroot hrootSign hpos hlt hone hle hstands hnodup
    have hok : ManifestOk o ⟨generation, keyId o rootSpki 1, sortRecords keys⟩ :=
      ⟨hpos, hlt, show 0 < (sortRecords keys).length by omega,
        show (sortRecords keys).length ≤ 32 by omega,
        fun k hk => hoks k (hperm.mem_iff.mp hk), ((hperm.map _).nodup_iff).mpr hnodup⟩
    refine ⟨_, hbuild, fun minimum hmin hfloor => ?_⟩
    have hverify : verifyManifest o
        (manifestBytes generation (keyId o rootSpki 1) (sortRecords keys) rootSignature) rootPublic
        minimum = .ok ⟨generation, keyId o rootSpki 1, sortRecords keys⟩ :=
      (verifyManifest_ok_iff law).mpr
        ⟨rootSpki, rootSignature, hpublic, hok, rfl, rfl, hrootSigns, hmin, hfloor⟩
    refine ⟨⟨_, hverify, hperm, sortRecords_sorted keys⟩, ?_⟩
    intro k hk signer payload role allowRecovery hexport hsign hpermits
    have hrole : role = 1 ∨ role = 2 := hpermits.role ▸ (hoks k hk).role
    refine ⟨⟨fun ⟨_, h⟩ => signEnvelope_bound h, fun hpayload => ?_⟩, fun envelope henvelope => ?_⟩
    · obtain ⟨_, hsigned, _⟩ := signEnvelope_ok law hexport hsign hrole hpos hlt hpayload
      exact ⟨_, hsigned⟩
    · have hpayload := signEnvelope_bound henvelope
      obtain ⟨signature, hsigned, hsigns⟩ :=
        signEnvelope_ok law hexport hsign hrole hpos hlt hpayload
      rw [hsigned, Except.ok.injEq] at henvelope
      rw [← (hoks k hk).identity] at henvelope hsigns
      subst henvelope
      exact (verifyEnvelope_ok_iff law).mpr ⟨_, k, signature, hverify, rfl, hperm.mem_iff.mpr hk, rfl,
        hpermits, hpayload, rfl, hsigns⟩

end Build

/-! ## A provider -/

/-- The prime of P-256. -/
def p256Prime : Nat := 2 ^ 256 - 2 ^ 224 + 2 ^ 192 + 2 ^ 96 - 1

/-- A point of P-256. -/
structure CurvePoint where
  x : Nat
  y : Nat
  on : y * y % p256Prime = (x * x * x + (p256Prime - 3) * x +
    0x5ac635d8aa3a93e7b3ebbd55769886bc651d06b0cc53b0f63bce3c3e27d2604b) % p256Prime

/-- The point as uncompressed SEC1. -/
def CurvePoint.sec1 (q : CurvePoint) : List UInt8 := 4 :: (be q.x 32 ++ be q.y 32)

def CurvePoint.pem (q : CurvePoint) : List UInt8 := (pemPublicKey q.sec1).toOption.getD []

/-- A key file: a point, and whether its private key is there too. -/
structure KeyFile where
  point : CurvePoint
  secret : Bool

/-- The first number of the sample's signatures: SHA-256 of key and data. -/
def sampleR (pem data : List UInt8) : Nat :=
  1 + ofBe (Tcg2.sha256Bytes (pem ++ data)) % (p256Order - 1)

open Classical in
/-- A provider with SHA-256 and the points of the curve, which takes one
signature of each key on each data, and its negation. -/
noncomputable def sampleProvider : Provider KeyFile where
  sha256 := Tcg2.sha256Bytes
  exportPublic key := if key.secret then .error ⟨""⟩ else .ok (spkiHead ++ key.point.sec1)
  exportPrivate key := .ok (spkiHead ++ key.point.sec1)
  pubcheck pem := if ∃ q : CurvePoint, q.pem = pem then .ok () else .error ⟨""⟩
  sign key data := if key.secret then .ok (derOf (sampleR key.point.pem data) 1) else .error ⟨""⟩
  verify pem signature data :=
    .ok (decide (ecdsaDerToRaw signature = .ok (be (sampleR pem data) 32 ++ be 1 32)))

def SampleValid (point data : List UInt8) (r s : Nat) : Prop :=
  ∃ pem, pemPublicKey point = .ok pem ∧
    be r 32 ++ be (min s (p256Order - s)) 32 = be (sampleR pem data) 32 ++ be 1 32

theorem sampleR_scalar (pem data : List UInt8) : Scalar (sampleR pem data) := by
  have := Nat.mod_lt (ofBe (Tcg2.sha256Bytes (pem ++ data))) (show 0 < p256Order - 1 by decide)
  unfold Scalar sampleR
  omega

theorem CurvePoint.sec1_form (q : CurvePoint) : PointForm q.sec1 :=
  ⟨by rw [sec1, List.length_cons, List.length_append, length_be, length_be], rfl⟩

theorem CurvePoint.pemPublicKey_sec1 (q : CurvePoint) : pemPublicKey q.sec1 = .ok q.pem := by
  obtain ⟨pem, hpem⟩ := pemPublicKey_ok_iff.mpr q.sec1_form
  rw [CurvePoint.pem, hpem]
  rfl

theorem publicSpki_sample (key : KeyFile) :
    publicSpki sampleProvider key = .ok (spkiHead ++ key.point.sec1) := by
  have hexport : exportSpki sampleProvider key = .ok (spkiHead ++ key.point.sec1) := by
    cases h : key.secret <;> simp [exportSpki, sampleProvider, h]
  unfold publicSpki
  simp only [ok_bind_iff, refuse_ok_iff, exists_const, pure_ok_iff, not_or, not_not]
  refine ⟨_, hexport, ⟨?_, List.take_left' rfl⟩, ?_, rfl⟩
  · rw [List.length_append, key.point.sec1_form.1]
    rfl
  · rw [drop_spki, key.point.sec1_form.2]

theorem sampleProvider_lawful : Lawful sampleProvider SampleValid where
  sha256_length := Tcg2.sha256Bytes_length
  verify_iff hpem hr hs := by
    change Except.ok (decide _) = Except.ok true ↔ _
    rw [Except.ok.injEq, decide_eq_true_iff, derToRaw_derOf hr hs, Except.ok.injEq]
    refine ⟨fun h => ⟨_, hpem, h⟩, fun ⟨pem, hpem', h⟩ => ?_⟩
    cases hpem.symm.trans hpem'
    exact h
  valid_neg {_ _ _ s} hs := by
    rintro ⟨pem, hpem, h⟩
    have hmin : min (p256Order - s) (p256Order - (p256Order - s)) = min s (p256Order - s) := by
      unfold Scalar at hs
      omega
    exact ⟨pem, hpem, hmin ▸ h⟩
  sign_valid {key _ _ _} hspki hsign := by
    cases (publicSpki_sample key).symm.trans hspki
    rw [drop_spki]
    change (if key.secret then _ else _) = _ at hsign
    split at hsign
    · cases hsign
      exact ⟨_, 1, sampleR_scalar _ _, by decide, rfl, _, key.point.pemPublicKey_sec1, rfl⟩
    · cases hsign
  pubcheck_export {key _ _} hspki hpem := by
    cases (publicSpki_sample key).symm.trans hspki
    rw [drop_spki, key.point.pemPublicKey_sec1] at hpem
    exact if_pos ⟨key.point, Except.ok.inj hpem⟩

/-- The generator and its first two multiples: the root, a release key and
the recovery key. -/
def samplePoint : Fin 3 → CurvePoint
  | 0 => ⟨0x6b17d1f2e12c4247f8bce6e563a440f277037d812deb33a0f4a13945d898c296,
      0x4fe342e2fe1a7f9b8ee7eb4a7c0f9e162bce33576b315ececbb6406837bf51f5, by decide +kernel⟩
  | 1 => ⟨0x7cf27b188d034f7e8a52380304b51ac3c08969e277f21b35a60b48fc47669978,
      0x7775510db8ed040293d9ac69f7430dbba7dade63ce982299e04b79d227873d1, by decide +kernel⟩
  | 2 => ⟨0x5ecbe4d1a6330a44c8f7ef951d4bf165e6c6b721efada985fb41661bc6e7fd6c,
      0x8734640c4998ff7e374b06ce1a64a2ecd82ab036384fb83d9a79b127a27d5032, by decide +kernel⟩

/-- Key `i` in a manifest, active from generation 2 to 9 in the role `i`. -/
def sampleKey (i : Fin 3) : ManifestKey :=
  ⟨le 1 2 ++ (Tcg2.sha256Bytes (spkiHead ++ (samplePoint i).sec1)).take 30, 1, i, 2, 9, false, (samplePoint i).sec1⟩

def samplePolicy (i : Fin 3) : KeyPolicy KeyFile :=
  ⟨⟨samplePoint i, false⟩, i, .int (2 : Nat), .int (9 : Nat), false⟩

theorem samplePolicy_stands {i : Fin 3} (h : (i : Nat) = 1 ∨ (i : Nat) = 2) :
    Stands sampleProvider (samplePolicy i) (sampleKey i) :=
  ⟨rfl, h, rfl, rfl, Nat.two_pos, show 2 ≤ 9 by decide, show 9 < 2 ^ 64 by decide, rfl,
    publicSpki_sample _, rfl, rfl⟩

/-- A manifest of both keys is built with the root's private key and read
with its public one, and the recovery key's envelope is released. -/
theorem policy_sound_and_complete_sample :
    ∃ manifest envelope,
      buildManifest sampleProvider ⟨samplePoint 0, true⟩ (.int (5 : Nat)) [samplePolicy 1, samplePolicy 2] =
        .ok manifest ∧
      (∃ sorted, verifyManifest sampleProvider manifest ⟨samplePoint 0, false⟩ 4 =
          .ok ⟨5, keyId sampleProvider (spkiHead ++ (samplePoint 0).sec1) 1, sorted⟩ ∧
        sorted.Perm [sampleKey 1, sampleKey 2]) ∧
      signEnvelope sampleProvider [1, 2, 3] ⟨samplePoint 2, true⟩ (.int (5 : Nat)) (2 : Nat) = .ok envelope ∧
      verifyEnvelope sampleProvider envelope manifest ⟨samplePoint 0, false⟩ 4 true =
        .ok ⟨[1, 2, 3], 5, (sampleKey 2).keyId, 2⟩ := by
  have hkeys : (sampleKey 1).keyId ≠ (sampleKey 2).keyId := by decide +kernel
  have hpoints : (samplePoint 1).sec1 ≠ (samplePoint 2).sec1 := by decide +kernel
  have hsigns : ∀ i, CanSign sampleProvider ⟨samplePoint i, true⟩ := fun i data => ⟨_, rfl⟩
  obtain ⟨manifest, hbuild, hall⟩ := (policy_sound_and_complete sampleProvider_lawful).2
    ⟨samplePoint 0, true⟩ ⟨samplePoint 0, false⟩ _ 5 [samplePolicy 1, samplePolicy 2]
    [sampleKey 1, sampleKey 2] (publicSpki_sample _) (hsigns 0) (publicSpki_sample _) (by decide) (by decide)
    (by decide) (by decide)
    (.cons (samplePolicy_stands (.inl rfl)) (.cons (samplePolicy_stands (.inr rfl)) .nil))
    (by simpa [sampleKey] using hpoints) (by simp [hkeys, hkeys.symm])
  obtain ⟨⟨sorted, hverify, hperm, _⟩, hrelease⟩ := hall 4 (by decide) (by decide)
  obtain ⟨hsign, hreleased⟩ := hrelease (sampleKey 2) (by simp) ⟨samplePoint 2, true⟩ [1, 2, 3] 2 true
    (publicSpki_sample _) (hsigns 2) ⟨rfl, fun _ => rfl, rfl, by decide, by decide⟩
  obtain ⟨envelope, henvelope⟩ := hsign.mpr (by decide)
  exact ⟨manifest, envelope, hbuild, ⟨sorted, hverify, hperm⟩, henvelope, hreleased envelope henvelope⟩

end BearBoot.Auth2
