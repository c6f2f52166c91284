import BearBoot.Auth2.Model

/-!
# What auth2 accepts

Each verifier is characterised by the byte strings it accepts. A header or
an entry is read back exactly when its bytes are those the packer writes
(`frameOf_fields` and `fields_frameOf`, `readKey_ok_iff`), so an accepted manifest is
`manifestBytes` of the keys that are returned, an accepted envelope
`envelopeBytes` of its payload, and what is left of either function is the
conditions it puts on those keys and numbers (`verifyManifest_ok_iff`,
`verifyEnvelope_ok_iff`).

`Signs` is what a signature check decides under a lawful provider
(`verifySignature_ok_iff`).
-/

set_option autoImplicit false

namespace BearBoot.Auth2

open Machine

variable {bytes point spki signature manifest : List UInt8} {n offset generation : Nat} {k : ManifestKey}
    {keys : List ManifestKey}

/-! ## Frames -/

/-- The widths of the fields. -/
structure Frame.Fits (f : Frame) : Prop where
  magic : f.magic.length = 8
  version : f.version < 2 ^ 16
  headerSize : f.headerSize < 2 ^ 16
  algorithm : f.algorithm < 2 ^ 16
  kind : f.kind < 2 ^ 16
  flags : f.flags < 2 ^ 32
  count : f.count < 2 ^ 32
  generation : f.generation < 2 ^ 64
  extent : f.extent < 2 ^ 64
  identity : f.identity.length = 32
  signature : f.signature.length = 64

variable {f : Frame}

theorem Frame.Fits.length (h : f.Fits) : f.fields.flatten.length = 136 := by
  simp [Frame.fields, h.magic, h.identity, h.signature]

/-- A packed header is unpacked. -/
theorem frameOf_fields (h : f.Fits) (tail : List UInt8) :
    frameOf (f.fields.flatten ++ tail) = f := by
  obtain ⟨magic, version, headerSize, algorithm, kind, flags, count, generation, extent, identity,
    signature⟩ := f
  have hm : magic.length = 8 := h.magic
  have hi : identity.length = 32 := h.identity
  have hs : signature.length = 64 := h.signature
  simp only [frameOf, Frame.mk.injEq]
  refine ⟨?_, ?_, ?_, ?_, ?_, ?_, ?_, ?_, ?_, ?_, ?_⟩
  · exact bytes_field [] magic _ tail rfl hm
  · exact getLE_field [magic] version _ tail (by simp [hm]) h.version
  · exact getLE_field [magic, le version 2] headerSize _ tail (by simp [hm]) h.headerSize
  · exact getLE_field [magic, le version 2, le headerSize 2] algorithm _ tail (by simp [hm])
      h.algorithm
  · exact getLE_field [magic, le version 2, le headerSize 2, le algorithm 2] kind _ tail
      (by simp [hm]) h.kind
  · exact getLE_field [magic, le version 2, le headerSize 2, le algorithm 2, le kind 2] flags _ tail
      (by simp [hm]) h.flags
  · exact getLE_field [magic, le version 2, le headerSize 2, le algorithm 2, le kind 2, le flags 4]
      count _ tail (by simp [hm]) h.count
  · exact getLE_field [magic, le version 2, le headerSize 2, le algorithm 2, le kind 2, le flags 4,
      le count 4] generation _ tail (by simp [hm]) h.generation
  · exact getLE_field [magic, le version 2, le headerSize 2, le algorithm 2, le kind 2, le flags 4,
      le count 4, le generation 8] extent _ tail (by simp [hm]) h.extent
  · exact bytes_field [magic, le version 2, le headerSize 2, le algorithm 2, le kind 2, le flags 4,
      le count 4, le generation 8, le extent 8] identity _ tail (by simp [hm]) hi
  · exact bytes_field [magic, le version 2, le headerSize 2, le algorithm 2, le kind 2, le flags 4,
      le count 4, le generation 8, le extent 8, identity] signature [] tail (by simp [hm, hi]) hs

theorem bytes_ofList_take (h : n ≤ bytes.length) :
    (Mem.ofList bytes).bytes 0 n = bytes.take n := by
  rw [Mem.bytes_ofList_drop (by omega), List.drop_zero]

/-- An unpacked header packs to the bytes it was read from. -/
theorem fields_frameOf (h : 136 ≤ bytes.length) :
    (frameOf bytes).fields.flatten ++ bytes.drop 136 = bytes := by
  have hcut : (Mem.ofList bytes).bytes 0
      (8 + (2 + (2 + (2 + (2 + (4 + (4 + (8 + (8 + (32 + 64)))))))))) = bytes.take 136 :=
    bytes_ofList_take h
  have hfields : (frameOf bytes).fields.flatten = bytes.take 136 := by
    rw [← hcut]
    simp only [Frame.fields, frameOf, get16, get32, get64, le_getLE, List.flatten_cons,
      List.flatten_nil, List.append_nil]
    rw [bytes_add, bytes_add, bytes_add, bytes_add, bytes_add, bytes_add, bytes_add, bytes_add,
      bytes_add, bytes_add]
  rw [hfields, List.take_append_drop]

/-- Replacing the signature replaces it in the header. -/
theorem putSignature_fields (h : f.Fits) (tail signature : List UInt8) :
    putSignature (f.fields.flatten ++ tail) signature =
      (Frame.fields { f with signature := signature }).flatten ++ tail := by
  have hfront : (f.fields.take 10).flatten.length = 72 := by
    simp [Frame.fields, h.magic, h.identity]
  have hsplit : f.fields.flatten ++ tail = (f.fields.take 10).flatten ++ (f.signature ++ tail) := by
    simp [Frame.fields]
  have hdrop : (f.fields.flatten ++ tail).drop 136 = tail := List.drop_left' h.length
  rw [putSignature, hdrop, hsplit, List.take_left' hfront]
  simp [Frame.fields]

theorem putSignature_zeros (h : 136 ≤ bytes.length) :
    putSignature bytes (List.replicate 64 0) = zeroed bytes 72 64 := by
  rw [zeroed_eq (by omega)]
  rfl

theorem signingBytes_ok (h : 136 ≤ bytes.length) (label : String) :
    signingBytes label bytes = .ok (zeroed bytes 72 64) := by
  rw [signingBytes, refuse_bind_of_not (by omega), putSignature_zeros h]
  rfl

theorem validateGeneration_ok_iff {g : Nat} {label : String} :
    validateGeneration (.int n) label = .ok g ↔ g = n ∧ 0 < n ∧ n < 2 ^ 64 := by
  unfold validateGeneration
  have hread : (Json.Value.int n).uint64? = if n < 2 ^ 64 then some n else none := rfl
  rw [hread]
  by_cases hlt : n < 2 ^ 64
  · rw [if_pos hlt]
    dsimp only
    by_cases hzero : n = 0
    · rw [if_pos hzero]
      exact ⟨(fun h => by cases h), fun h => absurd hzero (by omega)⟩
    · rw [if_neg hzero, Except.ok.injEq]
      exact ⟨fun h => ⟨h.symm, by omega, hlt⟩, fun h => h.1.symm⟩
  · rw [if_neg hlt]
    exact ⟨(fun h => by cases h), fun h => absurd h.2.2 hlt⟩

/-! ## Keys and signatures -/

/-- The form of an uncompressed point. -/
def PointForm (point : List UInt8) : Prop := point.length = 65 ∧ point.getD 0 0 = 4

theorem spkiFromPoint_ok_iff :
    spkiFromPoint point = .ok spki ↔ PointForm point ∧ spki = spkiHead ++ point := by
  unfold spkiFromPoint
  simp only [ok_bind_iff, refuse_ok_iff, exists_const, pure_ok_iff, not_or, not_not, PointForm]
  rw [eq_comm (a := spki)]

theorem pemPublicKey_ok_iff :
    (∃ pem, pemPublicKey point = .ok pem) ↔ PointForm point := by
  unfold pemPublicKey
  simp only [ok_bind_iff, spkiFromPoint_ok_iff, pure_ok_iff]
  constructor
  · rintro ⟨_, _, ⟨hform, _⟩, _⟩
    exact hform
  · exact fun hform => ⟨_, _, ⟨hform, rfl⟩, rfl⟩

section Provider

variable {κ : Type} {o : Provider κ} {valid : (point data : List UInt8) → (r s : Nat) → Prop}

/-- An exported key is the fixed head and a point. -/
theorem publicSpki_form {key : κ} (h : publicSpki o key = .ok spki) :
    spki = spkiHead ++ spki.drop 26 ∧ PointForm (spki.drop 26) := by
  unfold publicSpki at h
  simp only [ok_bind_iff, refuse_ok_iff, exists_const, pure_ok_iff, not_or, not_not] at h
  obtain ⟨_, _, ⟨hlen, hhead⟩, hfour, rfl⟩ := h
  refine ⟨?_, by rw [List.length_drop]; omega, hfour⟩
  rw [← hhead, List.take_append_drop]

/-- `openssl pkey -pubcheck` accepts the point. -/
def PointChecked (o : Provider κ) (point : List UInt8) : Prop :=
  ∃ pem, pemPublicKey point = .ok pem ∧ o.pubcheck pem = .ok ()

theorem PointChecked.form (h : PointChecked o point) : PointForm point :=
  pemPublicKey_ok_iff.mp (h.imp fun _ hpem => hpem.1)

theorem validatePublicPoint_ok_iff :
    validatePublicPoint o point = .ok spki ↔ PointChecked o point ∧ spki = spkiHead ++ point := by
  unfold validatePublicPoint
  simp only [ok_bind_iff, spkiFromPoint_ok_iff, pure_ok_iff]
  constructor
  · rintro ⟨_, ⟨_, rfl⟩, pem, hpem, _, hcheck, rfl⟩
    exact ⟨⟨pem, hpem, hcheck⟩, rfl⟩
  · rintro ⟨hchecked, rfl⟩
    obtain ⟨pem, hpem, hcheck⟩ := id hchecked
    exact ⟨_, ⟨hchecked.form, rfl⟩, pem, hpem, (), hcheck, rfl⟩

/-- The 64 bytes are a low-S signature of the data, valid under the point. -/
def Signs (valid : (point data : List UInt8) → (r s : Nat) → Prop)
    (point data signature : List UInt8) : Prop :=
  ∃ r s, Scalar r ∧ Scalar s ∧ s ≤ p256Order / 2 ∧ signature = be r 32 ++ be s 32 ∧
    valid point data r s

theorem checkLowS_ok_iff :
    checkLowS signature = .ok () ↔
      ∃ r s, Scalar r ∧ Scalar s ∧ s ≤ p256Order / 2 ∧ signature = be r 32 ++ be s 32 := by
  constructor
  · unfold checkLowS
    simp only [ok_bind_iff, refuse_ok_iff, exists_const, not_not, Nat.not_lt]
    rintro ⟨hlen, ⟨hr, hs⟩, hlow⟩
    refine ⟨_, _, hr, hs, hlow, ?_⟩
    rw [be_ofBe (by rw [List.length_take]; omega), be_ofBe (by rw [List.length_drop]; omega),
      List.take_append_drop]
  · rintro ⟨r, s, hr, hs, hlow, rfl⟩
    exact checkLowS_raw hr hs hlow

/-- A signature check decides validity. -/
theorem verifySignature_ok_iff (law : Lawful o valid) {data : List UInt8} :
    verifySignature o data signature point = .ok () ↔
      PointForm point ∧ Signs valid point data signature := by
  unfold verifySignature
  simp only [ok_bind_iff, refuse_ok_iff, Bool.not_eq_false]
  constructor
  · rintro ⟨_, hcheck, pem, hpem, der, hder, _, haccept, rfl⟩
    obtain ⟨r, s, hr, hs, hlow, rfl⟩ := checkLowS_ok_iff.mp hcheck
    rw [rawToDer_raw hr hs, Except.ok.injEq] at hder
    subst hder
    exact ⟨pemPublicKey_ok_iff.mp ⟨pem, hpem⟩, r, s, hr, hs, hlow, rfl,
      (law.verify_iff hpem hr hs).mp haccept⟩
  · rintro ⟨hform, r, s, hr, hs, hlow, rfl, hvalid⟩
    obtain ⟨pem, hpem⟩ := pemPublicKey_ok_iff.mpr hform
    exact ⟨(), checkLowS_raw hr hs hlow, pem, hpem, _, rawToDer_raw hr hs, true,
      (law.verify_iff hpem hr hs).mpr hvalid, rfl⟩

theorem Signs.length {data : List UInt8} (h : Signs valid point data signature) :
    signature.length = 64 := by
  obtain ⟨r, s, _, _, _, rfl, _⟩ := h
  rw [List.length_append, length_be, length_be]

/-! ## Entries -/

/-- An entry both sides of a manifest accept. -/
structure KeyOk (o : Provider κ) (k : ManifestKey) : Prop where
  algorithm : k.algorithm = 1
  role : k.role = 1 ∨ k.role = 2
  activation_pos : 0 < k.activationGeneration
  ordered : k.activationGeneration ≤ k.retirementGeneration
  retirement_lt : k.retirementGeneration < 2 ^ 64
  point : PointChecked o k.publicPoint
  identity : k.keyId = keyId o (spkiHead ++ k.publicPoint) 1

theorem length_keyId (law : Lawful o valid) (spki : List UInt8) (algorithm : Nat) :
    (keyId o spki algorithm).length = 32 := by
  rw [keyId, List.length_append, length_le, List.length_take, law.sha256_length]
  rfl

theorem KeyOk.length_fields (law : Lawful o valid) (h : KeyOk o k) :
    k.fields.flatten.length = 128 := by
  have hid : k.keyId.length = 32 := by rw [h.identity, length_keyId law]
  simp [ManifestKey.fields, hid, h.point.form.1]

/-- The flag word of an entry: one bit, and no other. -/
theorem flags_iff {flags : Nat} (h : flags < 2 ^ 32) :
    flags &&& 0xFFFFFFFE = 0 ↔ flags = if flags &&& 1 ≠ 0 then 1 else 0 := by
  have hlow : flags &&& 1 = flags % 2 := Nat.and_one_is_mod flags
  have hhigh : flags &&& 0xFFFFFFFE = 2 * (flags / 2) := by
    have hhalf : (flags &&& 0xFFFFFFFE) / 2 = flags / 2 := by
      rw [Nat.and_div_two]
      change flags / 2 &&& (2 ^ 31 - 1) = _
      rw [Nat.and_two_pow_sub_one_eq_mod, Nat.mod_eq_of_lt (by omega)]
    have heven : (flags &&& 0xFFFFFFFE) % 2 = 0 := by
      rw [Nat.and_mod_two_pow (n := 1)]
      simp
    omega
  rw [hlow, hhigh]
  split <;> omega

/-- What the reader finds where an entry's bytes stand. -/
theorem read_fields (law : Lawful o valid) {m : Mem}
    (hk : KeyOk o k) (hbytes : m.bytes offset 128 = k.fields.flatten) :
    m.bytes offset 32 = k.keyId ∧ get16 m (offset + 32) = k.algorithm ∧
      get16 m (offset + 34) = k.role ∧ get32 m (offset + 36) = (if k.revoked then 1 else 0) ∧
      get64 m (offset + 40) = k.activationGeneration ∧
      get64 m (offset + 48) = k.retirementGeneration ∧ m.bytes (offset + 56) 65 = k.publicPoint ∧
      m.bytes (offset + 121) 7 = List.replicate 7 0 := by
  have hid : k.keyId.length = 32 := by rw [hk.identity, length_keyId law]
  have hpoint : k.publicPoint.length = 65 := hk.point.form.1
  have halg : k.algorithm < 2 ^ 16 := by rw [hk.algorithm]; decide
  have hrole : k.role < 2 ^ 16 := by have := hk.role; omega
  have hflag : (if k.revoked then 1 else 0) < 2 ^ 32 := by split <;> decide
  have hact : k.activationGeneration < 2 ^ 64 := Nat.lt_of_le_of_lt hk.ordered hk.retirement_lt
  have hsame : m.bytes offset 128 = (Mem.ofList (k.fields.flatten ++ [])).bytes 0 128 := by
    rw [hbytes, List.append_nil, bytes_ofList_take (by rw [hk.length_fields law]),
      List.take_of_length_le (by rw [hk.length_fields law])]
  refine ⟨?_, ?_, ?_, ?_, ?_, ?_, ?_, ?_⟩
  · exact (bytes_part (a := 0) hsame (by decide)).trans (bytes_field [] k.keyId _ [] rfl hid)
  · exact (getLE_part hsame (by decide)).trans
      (getLE_field [k.keyId] k.algorithm _ [] (by simp [hid]) halg)
  · exact (getLE_part hsame (by decide)).trans
      (getLE_field [k.keyId, le k.algorithm 2] k.role _ [] (by simp [hid]) hrole)
  · exact (getLE_part hsame (by decide)).trans
      (getLE_field [k.keyId, le k.algorithm 2, le k.role 2] _ _ [] (by simp [hid]) hflag)
  · exact (getLE_part hsame (by decide)).trans
      (getLE_field [k.keyId, le k.algorithm 2, le k.role 2, le (if k.revoked then 1 else 0) 4]
        k.activationGeneration _ [] (by simp [hid]) hact)
  · exact (getLE_part hsame (by decide)).trans
      (getLE_field [k.keyId, le k.algorithm 2, le k.role 2, le (if k.revoked then 1 else 0) 4,
        le k.activationGeneration 8] k.retirementGeneration _ [] (by simp [hid]) hk.retirement_lt)
  · exact (bytes_part hsame (by decide)).trans
      (bytes_field [k.keyId, le k.algorithm 2, le k.role 2, le (if k.revoked then 1 else 0) 4,
        le k.activationGeneration 8, le k.retirementGeneration 8] k.publicPoint _ []
        (by simp [hid]) hpoint)
  · exact (bytes_part hsame (by decide)).trans
      (bytes_field [k.keyId, le k.algorithm 2, le k.role 2, le (if k.revoked then 1 else 0) 4,
        le k.activationGeneration 8, le k.retirementGeneration 8, k.publicPoint]
        (List.replicate 7 0) [] [] (by simp [hid, hpoint]) rfl)

/-- An entry is accepted exactly where its bytes stand and it is a good one
whose identity is new. -/
theorem readKey_ok_iff (law : Lawful o valid) {seen : List (List UInt8)} :
    readKey o manifest offset seen = .ok k ↔
      (Mem.ofList manifest).bytes offset 128 = k.fields.flatten ∧ KeyOk o k ∧ k.keyId ∉ seen := by
  constructor
  · unfold readKey
    simp only [ok_bind_iff, refuse_ok_iff, exists_const, pure_ok_iff, not_not, Nat.not_lt, ne_eq,
      validateGeneration_ok_iff, validatePublicPoint_ok_iff]
    rintro ⟨halg, hrole, hflags, hzero, activation, ⟨rfl, hpos, _⟩, retirement, ⟨rfl, _, hlt⟩, hord,
      spki, ⟨hpoint, rfl⟩, hid, hseen, rfl⟩
    rw [halg] at hid
    refine ⟨?_, ⟨halg, hrole, hpos, hord, hlt, hpoint, hid⟩, hseen⟩
    have hflag : (if decide (¬ get32 (Mem.ofList manifest) (offset + 36) &&& 1 = 0) = true
        then 1 else 0) = get32 (Mem.ofList manifest) (offset + 36) := by
      simp only [decide_eq_true_eq]
      exact ((flags_iff (Mem.getLE_lt (Mem.ofList manifest) (offset + 36) 4)).mp hflags).symm
    change (Mem.ofList manifest).bytes offset (32 + (2 + (2 + (4 + (8 + (8 + (65 + 7))))))) = _
    rw [bytes_add, bytes_add, bytes_add, bytes_add, bytes_add, bytes_add, bytes_add,
      ManifestKey.fields, hflag]
    simp only [get16, get32, get64, le_getLE, List.flatten_cons, List.flatten_nil, List.append_nil,
      Nat.add_assoc, Nat.reduceAdd]
    rw [← hzero]
  · rintro ⟨hbytes, hk, hseen⟩
    obtain ⟨hid, halg, hrole, hflag, hact, hret, hpoint, hzero⟩ := read_fields law hk hbytes
    have hact' := Nat.lt_of_le_of_lt hk.ordered hk.retirement_lt
    have hpos := hk.activation_pos
    have hmask : (if k.revoked = true then 1 else 0) &&& 0xFFFFFFFE = 0 := by split <;> rfl
    have hrevoked : decide ((if k.revoked = true then 1 else 0) &&& 1 ≠ 0) = k.revoked := by
      cases k.revoked <;> rfl
    unfold readKey
    dsimp only
    rw [hid, halg, hrole, hflag, hact, hret, hpoint, hzero, hrevoked]
    simp only [ok_bind_iff, refuse_ok_iff, exists_const, pure_ok_iff, not_not, Nat.not_lt, ne_eq,
      validateGeneration_ok_iff, validatePublicPoint_ok_iff]
    refine ⟨hk.algorithm, hk.role, hmask, trivial, _, ⟨rfl, hpos, hact'⟩, _,
      ⟨rfl, Nat.lt_of_lt_of_le hpos hk.ordered, hk.retirement_lt⟩, hk.ordered, _, ⟨hk.point, rfl⟩, ?_,
      hseen, rfl⟩
    rw [hk.algorithm]
    exact hk.identity

/-- The entries are accepted exactly where their bytes stand in a row, all
good and with no identity twice. -/
theorem readKeys_ok_iff (law : Lawful o valid) {seen : List (List UInt8)} :
    readKeys o manifest n offset seen = .ok keys ↔
      keys.length = n ∧
        (Mem.ofList manifest).bytes offset (n * 128) = (keys.map fun k => k.fields.flatten).flatten ∧
        (∀ k ∈ keys, KeyOk o k) ∧ (keys.map (·.keyId)).Nodup ∧ ∀ k ∈ keys, k.keyId ∉ seen := by
  induction n generalizing offset seen keys with
  | zero =>
    rw [readKeys, pure_ok_iff]
    constructor
    · rintro rfl
      simp [Mem.bytes]
    · rintro ⟨hlen, _⟩
      exact (List.eq_nil_of_length_eq_zero hlen).symm
  | succ n ih =>
    have hcut : (Mem.ofList manifest).bytes offset ((n + 1) * 128) =
        (Mem.ofList manifest).bytes offset 128 ++
          (Mem.ofList manifest).bytes (offset + 128) (n * 128) := by
      rw [← bytes_add, Nat.add_mul, Nat.one_mul, Nat.add_comm]
    rw [readKeys, hcut]
    simp only [ok_bind_iff, readKey_ok_iff law, ih, pure_ok_iff]
    constructor
    · rintro ⟨k, ⟨hk, hok, hnew⟩, rest, ⟨hlen, hrest, hoks, hnodup, hnews⟩, rfl⟩
      refine ⟨by rw [List.length_cons, hlen], by rw [hk, hrest]; rfl,
        List.forall_mem_cons.mpr ⟨hok, hoks⟩, ?_, List.forall_mem_cons.mpr ⟨hnew, ?_⟩⟩
      · rw [List.map_cons, List.nodup_cons]
        refine ⟨fun hmem => ?_, hnodup⟩
        obtain ⟨k', hk', heq⟩ := List.mem_map.mp hmem
        exact hnews k' hk' (heq ▸ List.mem_cons_self)
      · exact fun k' hk' hmem => hnews k' hk' (List.mem_cons_of_mem _ hmem)
    · rintro ⟨hlen, hbytes, hoks, hnodup, hnews⟩
      cases keys with
      | nil => cases hlen
      | cons k rest =>
        obtain ⟨hok, hoks⟩ := List.forall_mem_cons.mp hoks
        obtain ⟨hnew, hnews⟩ := List.forall_mem_cons.mp hnews
        obtain ⟨hfresh, hnodup⟩ := List.nodup_cons.mp hnodup
        obtain ⟨hk, hrest⟩ := List.append_inj hbytes
          (by rw [Mem.bytes_length]; exact (hok.length_fields law).symm)
        refine ⟨k, ⟨hk, hok, hnew⟩, rest,
          ⟨Nat.succ.inj hlen, hrest, hoks, hnodup, fun k' hk' hmem => ?_⟩, rfl⟩
        rcases List.mem_cons.mp hmem with heq | hmem
        · exact hfresh (List.mem_map.mpr ⟨k', hk', heq⟩)
        · exact hnews k' hk' hmem

/-! ## Manifests -/

/-- A manifest both sides accept. -/
structure ManifestOk (o : Provider κ) (m : Manifest) : Prop where
  generation_pos : 0 < m.securityGeneration
  generation_lt : m.securityGeneration < 2 ^ 64
  keys_pos : 0 < m.keys.length
  keys_le : m.keys.length ≤ 32
  keys : ∀ k ∈ m.keys, KeyOk o k
  nodup : (m.keys.map (·.keyId)).Nodup

theorem length_entries (law : Lawful o valid) (h : ∀ k ∈ keys, KeyOk o k) :
    (keys.map fun k => k.fields.flatten).flatten.length = keys.length * 128 := by
  induction keys with
  | nil => rfl
  | cons k keys ih =>
    obtain ⟨hk, hkeys⟩ := List.forall_mem_cons.mp h
    rw [List.map_cons, List.flatten_cons, List.length_append, hk.length_fields law, ih hkeys,
      List.length_cons, Nat.add_mul, Nat.one_mul, Nat.add_comm]

/-- The header of `manifestBytes`. -/
def manifestFrame (generation : Nat) (rootId : List UInt8) (count : Nat) (signature : List UInt8) :
    Frame :=
  ⟨manifestMagic, 1, 136, 1, 128, 0, count, generation, 136 + count * 128, rootId, signature⟩

theorem manifestFrame_fits {count : Nat} {rootId : List UInt8}
    (hg : generation < 2 ^ 64) (hc : count ≤ 32) (hid : rootId.length = 32)
    (hs : signature.length = 64) : (manifestFrame generation rootId count signature).Fits where
  magic := rfl
  version := show 1 < 2 ^ 16 by decide
  headerSize := show 136 < 2 ^ 16 by decide
  algorithm := show 1 < 2 ^ 16 by decide
  kind := show 128 < 2 ^ 16 by decide
  flags := show 0 < 2 ^ 32 by decide
  count := Nat.lt_of_le_of_lt hc (by decide)
  generation := hg
  extent := by change 136 + count * 128 < 2 ^ 64; omega
  identity := hid
  signature := hs

/-- A manifest is accepted exactly when it is the bytes of good keys under a
signature of the root, at a generation the floor lets through. -/
theorem verifyManifest_ok_iff (law : Lawful o valid) {root : κ}
    {minimum : Int} {m : Manifest} :
    verifyManifest o manifest root minimum = .ok m ↔
      ∃ rootSpki signature, publicSpki o root = .ok rootSpki ∧ ManifestOk o m ∧
        m.rootKeyId = keyId o rootSpki 1 ∧
        manifest = manifestBytes m.securityGeneration m.rootKeyId m.keys signature ∧
        Signs valid (rootSpki.drop 26) (zeroed manifest 72 64) signature ∧
        0 ≤ minimum ∧ minimum ≤ m.securityGeneration := by
  constructor
  · unfold verifyManifest
    simp only [ok_bind_iff, refuse_ok_iff, exists_const, pure_ok_iff, not_or, not_not, Nat.not_lt,
      Int.not_lt, ne_eq, validateGeneration_ok_iff]
    rintro ⟨hlen, ⟨hmagic, hversion⟩, halg, ⟨hsize, hkind⟩, hflags, ⟨hpos, hle⟩, ⟨hextent, htotal⟩,
      generation, ⟨rfl, hgpos, hglt⟩, ⟨hmin, _⟩, hfloor, rootSpki, hroot, hid, signed, hsigned, _,
      hverify, keys, hkeys, rfl⟩
    rw [signingBytes_ok hlen, Except.ok.injEq] at hsigned
    subst hsigned
    obtain ⟨_, hsigns⟩ := (verifySignature_ok_iff law).mp hverify
    obtain ⟨hcount, hentries, hoks, hnodup, _⟩ := (readKeys_ok_iff law).mp hkeys
    refine ⟨rootSpki, (frameOf manifest).signature, hroot,
      ⟨hgpos, hglt, show 0 < keys.length by omega, show keys.length ≤ 32 by omega, hoks, hnodup⟩, hid,
      ?_, hsigns, hmin, hfloor⟩
    have hframe : frameOf manifest = manifestFrame (frameOf manifest).generation
        (frameOf manifest).identity keys.length (frameOf manifest).signature := by
      cases hf : frameOf manifest
      rw [hf] at hmagic hversion halg hsize hkind hflags hcount hextent
      simp only at hmagic hversion halg hsize hkind hflags hcount hextent
      simp only [manifestFrame, hmagic, hversion, halg, hsize, hkind, hflags, hextent, hcount]
    have hrest : manifest.drop 136 = (keys.map fun k => k.fields.flatten).flatten := by
      rw [← hentries, Mem.bytes_ofList_drop (by omega), List.take_of_length_le]
      rw [List.length_drop]
      omega
    have hall := fields_frameOf hlen
    rw [hframe, hrest] at hall
    exact hall.symm
  · rintro ⟨rootSpki, signature, hroot, hm, hid, hbytes, hsigns, hmin, hfloor⟩
    obtain ⟨generation, rootId, keys⟩ := m
    dsimp only at hid hbytes hfloor
    have hfits := manifestFrame_fits hm.generation_lt hm.keys_le
      (show rootId.length = 32 by rw [hid, length_keyId law]) hsigns.length
    have hentries := length_entries law hm.keys
    have hbytes' : manifest = (manifestFrame generation rootId keys.length signature).fields.flatten ++
        (keys.map fun k => k.fields.flatten).flatten := hbytes
    have hlen : manifest.length = 136 + keys.length * 128 := by
      rw [hbytes', List.length_append, hfits.length, hentries]
    have hdrop : manifest.drop 136 = (keys.map fun k => k.fields.flatten).flatten := by
      rw [hbytes', List.drop_left' hfits.length]
    have hframe : frameOf manifest = manifestFrame generation rootId keys.length signature := by
      rw [hbytes']
      exact frameOf_fields hfits _
    have hread : readKeys o manifest keys.length 136 [] = .ok keys := by
      refine (readKeys_ok_iff law).mpr ⟨rfl, ?_, hm.keys, hm.nodup, fun _ _ => List.not_mem_nil⟩
      rw [Mem.bytes_ofList_drop (by omega), hdrop, List.take_of_length_le (by rw [hentries])]
    have hpos : keys.length ≠ 0 := Nat.ne_of_gt hm.keys_pos
    have hlt : (generation : Int) < 2 ^ 64 := by exact_mod_cast hm.generation_lt
    unfold verifyManifest
    simp only [ok_bind_iff, refuse_ok_iff, exists_const, pure_ok_iff, not_or, not_not, Nat.not_lt,
      Int.not_lt, ne_eq, validateGeneration_ok_iff, hframe, signingBytes_ok (show 136 ≤ manifest.length by omega)]
    exact ⟨by omega, ⟨rfl, rfl⟩, rfl, ⟨rfl, rfl⟩, rfl, ⟨hpos, hm.keys_le⟩, ⟨rfl, hlen⟩, generation,
      ⟨rfl, hm.generation_pos, hm.generation_lt⟩, ⟨hmin, by omega⟩, hfloor, rootSpki, hroot, hid, _,
      rfl, (), (verifySignature_ok_iff law).mpr ⟨(publicSpki_form hroot).2, hsigns⟩, keys, hread, rfl⟩

/-! ## Envelopes -/

/-- The policy on the key that signs: its role and span, and leave for a
recovery. -/
structure Permits (k : ManifestKey) (claimed generation : Nat) (allowRecovery : Bool) : Prop where
  role : k.role = claimed
  recovery : claimed = 2 → allowRecovery = true
  revoked : k.revoked = false
  active : k.activationGeneration ≤ generation
  unretired : generation ≤ k.retirementGeneration

theorem find_of_nodup (hnodup : (keys.map (·.keyId)).Nodup)
    (hk : k ∈ keys) : keys.find? (·.keyId = k.keyId) = some k := by
  induction keys with
  | nil => cases hk
  | cons k' keys ih =>
    obtain ⟨hfresh, hnodup⟩ := List.nodup_cons.mp hnodup
    rcases List.mem_cons.mp hk with rfl | hk
    · exact List.find?_cons_of_pos (by simp)
    · rw [List.find?_cons_of_neg, ih hnodup hk]
      simp only [decide_eq_true_eq]
      exact fun heq => hfresh (List.mem_map.mpr ⟨k, hk, heq.symm⟩)

/-- The policy accepts exactly a permitted key of the manifest, over whose
signature the envelope stands. -/
theorem checkSigner_ok_iff (law : Lawful o valid) {envelope : List UInt8}
    {m : Manifest} {allowRecovery : Bool} {v : VerifiedEnvelope}
    (hm : ManifestOk o m) (hlen : 136 ≤ envelope.length) :
    checkSigner o envelope f generation m allowRecovery = .ok v ↔
      m.securityGeneration = generation ∧ v = ⟨envelope.drop 136, generation, f.identity, f.kind⟩ ∧
        ∃ k ∈ m.keys, k.keyId = f.identity ∧ Permits k f.kind generation allowRecovery ∧
          Signs valid k.publicPoint (zeroed envelope 72 64) f.signature := by
  unfold checkSigner
  rw [ok_bind_iff]
  simp only [refuse_ok_iff, exists_const, ne_eq, not_not, signingBytes_ok hlen]
  cases hfind : m.keys.find? (·.keyId = f.identity) with
  | none =>
    constructor
    · rintro ⟨_, h⟩
      cases h
    · rintro ⟨_, _, k, hk, hid, _⟩
      have := List.find?_eq_none.mp hfind k hk
      simp [hid] at this
  | some k =>
    have hmem := List.mem_of_find?_eq_some hfind
    have hid : k.keyId = f.identity := by simpa using List.find?_some hfind
    simp only [ok_bind_iff, refuse_ok_iff, exists_const, pure_ok_iff, not_not, Nat.not_lt, not_and,
      Bool.not_eq_false, Bool.not_eq_true, Except.ok.injEq]
    constructor
    · rintro ⟨hg, hrole, hrecovery, hrevoked, hactive, hretired, _, rfl, _, hverify, rfl⟩
      exact ⟨hg.symm, rfl, k, hmem, hid, ⟨hrole, hrecovery, hrevoked, hactive, hretired⟩,
        ((verifySignature_ok_iff law).mp hverify).2⟩
    · rintro ⟨hg, rfl, k', hk', hid', hpermits, hsigns⟩
      have hsame : k' = k := by
        have := find_of_nodup hm.nodup hk'
        rw [hid', hfind] at this
        exact (Option.some.inj this).symm
      subst hsame
      exact ⟨hg.symm, hpermits.role, hpermits.recovery, hpermits.revoked, hpermits.active,
        hpermits.unretired, _, rfl, (),
        (verifySignature_ok_iff law).mpr ⟨(hm.keys k' hk').point.form, hsigns⟩, rfl⟩

/-- The header of `envelopeBytes`. -/
def envelopeFrame (role generation extent : Nat) (signerId signature : List UInt8) : Frame :=
  ⟨envelopeMagic, 1, 136, 1, role, 0, 0, generation, extent, signerId, signature⟩

theorem envelopeFrame_fits {role extent : Nat} {signerId : List UInt8}
    (hr : role = 1 ∨ role = 2) (hg : generation < 2 ^ 64) (he : extent ≤ 64 * 1024 * 1024)
    (hid : signerId.length = 32) (hs : signature.length = 64) :
    (envelopeFrame role generation extent signerId signature).Fits where
  magic := rfl
  version := show 1 < 2 ^ 16 by decide
  headerSize := show 136 < 2 ^ 16 by decide
  algorithm := show 1 < 2 ^ 16 by decide
  kind := show role < 2 ^ 16 by omega
  flags := show 0 < 2 ^ 32 by decide
  count := show 0 < 2 ^ 32 by decide
  generation := hg
  extent := Nat.lt_of_le_of_lt he (by decide)
  identity := hid
  signature := hs

/-- An envelope is accepted exactly when it is the bytes of its payload under
a signature of a key that an accepted manifest permits. -/
theorem verifyEnvelope_ok_iff (law : Lawful o valid) {envelope : List UInt8} {root : κ}
    {minimum : Int} {allowRecovery : Bool} {v : VerifiedEnvelope} :
    verifyEnvelope o envelope manifest root minimum allowRecovery = .ok v ↔
      ∃ m k signature, verifyManifest o manifest root minimum = .ok m ∧
        m.securityGeneration = v.securityGeneration ∧ k ∈ m.keys ∧ k.keyId = v.signerKeyId ∧
        Permits k v.role v.securityGeneration allowRecovery ∧
        v.payload.length ≤ 64 * 1024 * 1024 ∧
        envelope = envelopeBytes v.role v.securityGeneration v.signerKeyId v.payload signature ∧
        Signs valid k.publicPoint (zeroed envelope 72 64) signature := by
  constructor
  · unfold verifyEnvelope
    simp only [ok_bind_iff, refuse_ok_iff, exists_const, not_or, not_not, Nat.not_lt, ne_eq,
      validateGeneration_ok_iff]
    rintro ⟨hlen, ⟨hmagic, hversion⟩, halg, hsize, hkind, ⟨hflags, hcount⟩, ⟨hextent, htotal⟩,
      generation, ⟨rfl, hgpos, hglt⟩, _, _, m, hmanifest, hsigner⟩
    obtain ⟨_, _, _, hm, _⟩ := (verifyManifest_ok_iff law).mp hmanifest
    obtain ⟨hg, rfl, k, hk, hid, hpermits, hsigns⟩ := (checkSigner_ok_iff law hm hlen).mp hsigner
    have hpayload : (envelope.drop 136).length = (frameOf envelope).extent := by
      rw [List.length_drop]
      omega
    refine ⟨m, k, (frameOf envelope).signature, hmanifest, hg, hk, hid, hpermits,
      by rw [hpayload]; exact hextent, ?_, hsigns⟩
    have hframe : frameOf envelope = envelopeFrame (frameOf envelope).kind
        (frameOf envelope).generation (envelope.drop 136).length (frameOf envelope).identity
        (frameOf envelope).signature := by
      rw [hpayload]
      cases hf : frameOf envelope
      rw [hf] at hmagic hversion halg hsize hflags hcount
      simp only at hmagic hversion halg hsize hflags hcount
      simp only [envelopeFrame, hmagic, hversion, halg, hsize, hflags, hcount]
    have hall := fields_frameOf hlen
    rw [hframe] at hall
    exact hall.symm
  · rintro ⟨m, k, signature, hmanifest, hg, hk, hid, hpermits, hpayload, hbytes, hsigns⟩
    obtain ⟨payload, generation, signerId, role⟩ := v
    dsimp only at hg hid hpermits hpayload hbytes
    obtain ⟨_, _, _, hm, _⟩ := (verifyManifest_ok_iff law).mp hmanifest
    have hkey := hm.keys k hk
    have hrole : role = 1 ∨ role = 2 := by rw [← hpermits.role]; exact hkey.role
    have hglt : generation < 2 ^ 64 := by rw [← hg]; exact hm.generation_lt
    have hgpos : 0 < generation := by rw [← hg]; exact hm.generation_pos
    have hfits := envelopeFrame_fits hrole hglt hpayload
      (show signerId.length = 32 by rw [← hid, hkey.identity, length_keyId law]) hsigns.length
    have hbytes' : envelope =
        (envelopeFrame role generation payload.length signerId signature).fields.flatten ++ payload :=
      hbytes
    have hlen : envelope.length = 136 + payload.length := by
      rw [hbytes', List.length_append, hfits.length]
    have hdrop : envelope.drop 136 = payload := by rw [hbytes', List.drop_left' hfits.length]
    have hframe : frameOf envelope =
        envelopeFrame role generation payload.length signerId signature := by
      rw [hbytes']
      exact frameOf_fields hfits _
    have hsigner : checkSigner o envelope
        (envelopeFrame role generation payload.length signerId signature) generation m
        allowRecovery = .ok ⟨payload, generation, signerId, role⟩ :=
      (checkSigner_ok_iff law hm (by omega)).mpr
        ⟨hg, by rw [hdrop]; rfl, k, hk, hid, hpermits, hsigns⟩
    obtain ⟨r, s, hr, hs, hlow, hraw, _⟩ := hsigns
    unfold verifyEnvelope
    simp only [ok_bind_iff, refuse_ok_iff, exists_const, not_or, not_not, Nat.not_lt, ne_eq,
      validateGeneration_ok_iff, hframe]
    exact ⟨by omega, ⟨rfl, rfl⟩, rfl, rfl, fun h => hrole.elim h.1 h.2, ⟨rfl, rfl⟩, ⟨hpayload, hlen⟩, generation,
      ⟨rfl, hgpos, hglt⟩, (), checkLowS_ok_iff.mpr ⟨r, s, hr, hs, hlow, hraw⟩, m, hmanifest, hsigner⟩

end Provider

end BearBoot.Auth2
