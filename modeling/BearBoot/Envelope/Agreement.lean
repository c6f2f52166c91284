import BearBoot.Envelope.Model
import BearBoot.Tcg2.Sha256
import BearBoot.V2.Agreement

/-!
# Three envelopes, one grammar

`Framed` is what an envelope's header says, `Signed` is that a key store
holds the key it names and that the tag is right. Each implementation is
brought to these: `Python.verify_settles`, `authParse_cases` with
`authParse_framed` for the C, `Rust.parse_settles`. The order of the
checks is gone then, and `envelopes_agree` compares conditions.

The signed bytes are `zeroed bytes 48 32`, byte by byte. C builds them
from a header buffer and the capsule behind it (`header_append_capsule`),
Python from two slices, Rust in three parts.
-/

set_option autoImplicit false

namespace BearBoot.Envelope

open Machine

variable {o : Nat}

/-! ## The grammar -/

def rollbackOf (bytes : List UInt8) : Nat := get64 (Mem.ofList bytes) 16

def identityOf (bytes : List UInt8) : List UInt8 := (Mem.ofList bytes).bytes 32 16

def tagOf (bytes : List UInt8) : List UInt8 := (Mem.ofList bytes).bytes 48 32

/-- The header frames the rest as one capsule. -/
structure Framed (bytes : List UInt8) : Prop where
  long : 80 ≤ bytes.length
  short : bytes.length - 80 ≤ V2.maxExtent
  magic : (Mem.ofList bytes).bytes 0 8 = magic
  version : get16 (Mem.ofList bytes) 8 = 1
  algorithm : get16 (Mem.ofList bytes) 10 = 1
  flags : get32 (Mem.ofList bytes) 12 = 0
  size : get64 (Mem.ofList bytes) 24 = bytes.length - 80

/-- The bytes behind the header are a capsule. -/
def Holds (bytes : List UInt8) : Prop :=
  V2.WellFormed (Mem.ofList (bytes.drop 80)) (bytes.drop 80).length

/-- The store holds the key the header names, and the tag is the key's. -/
def Signed (c : Crypto) (get : Python.Store) (bytes : List UInt8) : Prop :=
  ∃ key, get (Json.hex (identityOf bytes)) = .ok (some key) ∧ key ≠ [] ∧
    identityOf bytes = c.keyId key ∧ tagOf bytes = c.hmac key (zeroed bytes 48 32)

/-! ## Python -/

namespace Python

variable {c : Crypto} {bytes : List UInt8}

/-- The header's fields. -/
def headerOf (bytes : List UInt8) : Header :=
  let e := Mem.ofList bytes
  ⟨e.bytes 0 8, get16 e 8, get16 e 10, get32 e 12, rollbackOf bytes, get64 e 24, identityOf bytes,
    tagOf bytes⟩

/-- What `verify` returns, when it does. -/
def verifiedOf (bytes : List UInt8) : Verified :=
  ⟨bytes.drop 80, rollbackOf bytes, Json.hex (identityOf bytes)⟩

theorem unpack_ok (h : 80 ≤ bytes.length) : unpack bytes = .ok (headerOf bytes) :=
  if_neg (by omega)

theorem unsigned_eq (h : 80 ≤ bytes.length) : unsigned bytes = zeroed bytes 48 32 :=
  (zeroed_eq (by omega)).symm

theorem validateCapsule_settles (payload : List UInt8) :
    Settles (fun _ => False) (validateCapsule payload)
      (V2.WellFormed (Mem.ofList payload) payload.length) fun _ => True := by
  have h := V2.Python.validateV2Capsule_settles payload
  unfold validateCapsule
  cases hv : V2.Python.validateV2Capsule payload with
  | ok u =>
    rw [hv] at h
    exact h
  | error e =>
    rw [hv] at h
    cases e with
    | envelopeError text => exact ⟨h.1, id⟩
    | structError => exact ⟨h.1, id⟩

theorem authenticate_settles (get : Store) (hlong : 80 ≤ bytes.length) :
    Settles (fun _ => False) (authenticate c (some get) bytes (headerOf bytes))
      (Signed c get bytes ∧ Holds bytes) fun v => v = verifiedOf bytes := by
  refine .ok_bind (a := get) rfl ?_
  change Settles _ (get (Json.hex (identityOf bytes)) >>= _) _ _
  cases hget : get (Json.hex (identityOf bytes)) with
  | error e =>
    refine ⟨?_, id⟩
    rintro ⟨⟨key, hkey, _⟩, _⟩
    rw [hget] at hkey
    cases hkey
  | ok answer =>
    refine .ok_bind rfl ?_
    cases answer with
    | none =>
      refine ⟨?_, id⟩
      rintro ⟨⟨key, hkey, _⟩, _⟩
      rw [hget] at hkey
      cases hkey
    | some key =>
      have hsigned : Signed c get bytes ↔ (key ≠ [] ∧ identityOf bytes = c.keyId key) ∧
          tagOf bytes = c.hmac key (unsigned bytes) := by
        rw [unsigned_eq hlong, Signed, hget]
        constructor
        · rintro ⟨key', hkey, hne, hid, htag⟩
          cases hkey
          exact ⟨⟨hne, hid⟩, htag⟩
        · rintro ⟨⟨hne, hid⟩, htag⟩
          exact ⟨key, rfl, hne, hid, htag⟩
      refine .ok_bind (a := key) rfl (.test id ?_ (fun h => (hsigned.mp h.1).1) fun hkey => ?_)
      · change ¬ (key = [] ∨ identityOf bytes ≠ c.keyId key) ↔ _
        rw [not_or, not_not]
      refine .test id not_not (fun h => (hsigned.mp h.1).2) fun htag => ?_
      exact .step (validateCapsule_settles _) (·.2) fun hholds _ _ =>
        .answer ⟨hsigned.mpr ⟨hkey, htag⟩, hholds⟩ rfl

/-- `verify` returns exactly on framed, fresh, signed envelopes of
capsules. -/
theorem verify_settles (c : Crypto) (bytes : List UInt8) (get : Store) (minimum : Nat)
    (hmin : minimum < 2 ^ 64) :
    Settles (fun _ => False) (verify c (some bytes) (some get) (.int minimum))
      (Framed bytes ∧ minimum ≤ rollbackOf bytes ∧ Signed c get bytes ∧ Holds bytes)
      fun v => v = verifiedOf bytes := by
  refine .ok_bind (a := bytes) rfl ?_
  refine .test id Nat.not_lt (·.1.long) fun hlong => ?_
  refine .test id Nat.not_lt (·.1.short) fun hshort => ?_
  refine .ok_bind (a := minimum) ?_ (.ok_bind (unpack_ok hlong) ?_)
  · change expect (if minimum < 2 ^ 64 then some minimum else none) _ = _
    rw [if_pos hmin]
    rfl
  refine .test id (by simp only [headerOf, not_or, not_not]) (fun h => And.intro h.1.magic
    (And.intro h.1.version (And.intro h.1.algorithm h.1.flags))) fun hframing => ?_
  refine .test id not_not (·.1.size) fun hsize => ?_
  refine .test id Nat.not_lt (·.2.1) fun hfresh => ?_
  exact .congr ⟨fun h => ⟨⟨hlong, hshort, hframing.1, hframing.2.1, hframing.2.2.1, hframing.2.2.2, hsize⟩,
    hfresh, h⟩, (·.2.2)⟩ (authenticate_settles get hlong)

/-- The bytes `seal` makes, as one record. -/
def sealedOf (c : Crypto) (capsule key : List UInt8) (index : Nat) (tag : List UInt8) : List UInt8 :=
  (Header.fields ⟨magic, 1, 1, 0, index, capsule.length, c.keyId key, tag⟩).flatten ++ capsule

variable {capsule key tag : List UInt8} {index : Nat}

theorem length_keyId (c : Crypto) (key : List UInt8) : (c.keyId key).length = 16 := by
  rw [Crypto.keyId, List.length_take, c.sha256_length]
  rfl

theorem sealedOf_eq (c : Crypto) (capsule key : List UInt8) (index : Nat) (tag : List UInt8) :
    sealedOf c capsule key index tag =
      [magic, le 1 2, le 1 2, le 0 4, le index 8, le capsule.length 8, c.keyId key].flatten ++
        (tag ++ capsule) := by
  simp [sealedOf, Header.fields]

theorem length_front (c : Crypto) (capsule key : List UInt8) (index : Nat) :
    [magic, le 1 2, le 1 2, le 0 4, le index 8, le capsule.length 8, c.keyId key].flatten.length =
      48 := by
  simp [length_keyId, magic]

theorem sealedOf_length (c : Crypto) (capsule key : List UInt8) (index : Nat) (htag : tag.length = 32) :
    (sealedOf c capsule key index tag).length = 80 + capsule.length := by
  rw [sealedOf_eq, List.length_append, length_front, List.length_append, htag]
  omega

theorem sealedOf_drop (htag : tag.length = 32) :
    (sealedOf c capsule key index tag).drop 80 = capsule := by
  have hlen : ([magic, le 1 2, le 1 2, le 0 4, le index 8, le capsule.length 8,
      c.keyId key].flatten ++ tag).length = 80 := by
    rw [List.length_append, length_front, htag]
  rw [sealedOf_eq, ← List.append_assoc, ← hlen, List.drop_left]

/-- The signed bytes do not depend on the tag that is there. -/
theorem zeroed_sealedOf (htag : tag.length = 32) :
    zeroed (sealedOf c capsule key index tag) 48 32 =
      sealedOf c capsule key index (List.replicate 32 0) := by
  have hlen := length_front c capsule key index
  rw [← unsigned_eq (by rw [sealedOf_length c capsule key index htag]; omega), unsigned, sealedOf_drop htag,
    sealedOf_eq, sealedOf_eq, List.take_append_of_le_length (by omega),
    List.take_of_length_le (by omega), List.append_assoc]

theorem sealedOf_framed (c : Crypto) (key : List UInt8) (htag : tag.length = 32) (hcapsule : capsule.length ≤ V2.maxExtent)
    (hindex : index < 2 ^ 64) :
    Framed (sealedOf c capsule key index tag) ∧
      rollbackOf (sealedOf c capsule key index tag) = index ∧
      identityOf (sealedOf c capsule key index tag) = c.keyId key ∧
      tagOf (sealedOf c capsule key index tag) = tag := by
  have hlen := sealedOf_length c capsule key index htag
  have hid := length_keyId c key
  have hmax : V2.maxExtent = 67108864 := rfl
  refine ⟨⟨by omega, by omega, ?_, ?_, ?_, ?_, ?_⟩, ?_, ?_, ?_⟩
  · exact bytes_field [] magic _ capsule rfl rfl
  · exact getLE_field [magic] 1 _ capsule rfl (by decide)
  · exact getLE_field [magic, le 1 2] 1 _ capsule rfl (by decide)
  · exact getLE_field [magic, le 1 2, le 1 2] 0 _ capsule rfl (by decide)
  · rw [hlen, Nat.add_sub_cancel_left]
    refine getLE_field [magic, le 1 2, le 1 2, le 0 4, le index 8] capsule.length _ capsule
      (by simp [magic]) (by omega)
  · exact getLE_field [magic, le 1 2, le 1 2, le 0 4] index _ capsule (by simp [magic]) hindex
  · exact bytes_field [magic, le 1 2, le 1 2, le 0 4, le index 8, le capsule.length 8]
      (c.keyId key) _ capsule (by simp [magic]) hid
  · exact bytes_field [magic, le 1 2, le 1 2, le 0 4, le index 8, le capsule.length 8, c.keyId key]
      tag _ capsule (length_front c capsule key index) htag

/-- `seal` puts the key's tag where the signed bytes have zeros. -/
theorem seal_ok (hcapsule : capsule.length ≤ V2.maxExtent) (hkey : key ≠ [])
    (hindex : index < 2 ^ 64) :
    sealEnvelope c (some capsule) (some key) (.int index) =
      .ok (sealedOf c capsule key index
        (c.hmac key (sealedOf c capsule key index (List.replicate 32 0)))) := by
  have hmax : V2.maxExtent = 67108864 := rfl
  have hnum : (Json.Value.int index).uint64? = some index := if_pos hindex
  have hlen := length_front c capsule key index
  have hhead : (Header.fields ⟨magic, 1, 1, 0, index, capsule.length, c.keyId key,
      List.replicate 32 0⟩).flatten =
      [magic, le 1 2, le 1 2, le 0 4, le index 8, le capsule.length 8, c.keyId key].flatten ++
        List.replicate 32 0 := by
    simp [Header.fields]
  simp only [sealEnvelope, expect, refuse, hnum, if_neg (show ¬ 64 * 1024 * 1024 < capsule.length by omega),
    if_neg hkey, bind, Except.bind, pure, Except.pure]
  rw [sealedOf_eq, sealedOf, hhead, List.length_append, List.length_replicate, Nat.add_sub_cancel,
    List.take_left, List.append_assoc]

/-- What was sealed verifies. -/
theorem verify_seal {get : Store} {minimum : Nat}
    (hcapsule : V2.WellFormed (Mem.ofList capsule) capsule.length) (hkey : key ≠ [])
    (hget : get (Json.hex (c.keyId key)) = .ok (some key)) (hindex : index < 2 ^ 64)
    (hmin : minimum ≤ index) :
    ∃ envelope, sealEnvelope c (some capsule) (some key) (.int index) = .ok envelope ∧
      verify c (some envelope) (some get) (.int minimum) =
        .ok ⟨capsule, index, Json.hex (c.keyId key)⟩ := by
  refine ⟨_, seal_ok hcapsule.high hkey hindex, ?_⟩
  obtain ⟨tag, htag⟩ : ∃ tag, c.hmac key (sealedOf c capsule key index (List.replicate 32 0)) = tag :=
    ⟨_, rfl⟩
  have hlen : tag.length = 32 := by rw [← htag, c.hmac_length]
  rw [htag]
  obtain ⟨hframed, hrollback, hid, htagof⟩ :=
    sealedOf_framed c key hlen hcapsule.high hindex
  have hholds : Holds (sealedOf c capsule key index tag) := by
    rw [Holds, sealedOf_drop hlen]
    exact hcapsule
  have hsettles := verify_settles c (sealedOf c capsule key index tag) get minimum
    (Nat.lt_of_le_of_lt hmin hindex)
  obtain ⟨v, hv⟩ := hsettles.ok_iff.mpr ⟨hframed, hrollback.symm ▸ hmin,
    ⟨key, by rw [hid, hget], hkey, hid, by rw [htagof, zeroed_sealedOf hlen, htag]⟩, hholds⟩
  rw [hv, hsettles.post hv, verifiedOf, sealedOf_drop hlen, hrollback, hid]

end Python

/-! ## C -/

section Bytes

variable {m : Mem} {envelope extent : Nat}

/-- A field of the envelope is the field of its byte string. -/
theorem getLE_envelope {w : Nat} (h : o + w ≤ extent) :
    m.getLE (envelope + o) w = (Mem.ofList (m.bytes envelope extent)).getLE o w := by
  refine Mem.getLE_congr fun i hi => ?_
  rw [Mem.ofList_bytes (by omega), Nat.add_assoc]

theorem bytes_envelope {n : Nat} (h : o + n ≤ extent) :
    m.bytes (envelope + o) n = (Mem.ofList (m.bytes envelope extent)).bytes o n := by
  refine Mem.bytes_congr fun i hi => ?_
  rw [Mem.ofList_bytes (by omega), Nat.add_assoc]

theorem bytes_drop (h : o ≤ extent) :
    m.bytes (envelope + o) (extent - o) = (m.bytes envelope extent).drop o := by
  have hlen : (m.bytes envelope extent).length = extent := Mem.bytes_length _ _ _
  rw [bytes_envelope (show o + (extent - o) ≤ extent by omega), Mem.bytes_ofList_drop (by omega),
    List.take_of_length_le (by rw [List.length_drop]; omega)]

theorem framed_iff : Framed (m.bytes envelope extent) ↔
    80 ≤ extent ∧ extent - 80 ≤ V2.maxExtent ∧ m.bytes envelope 8 = magic ∧
      get16 m (envelope + 8) = 1 ∧ get16 m (envelope + 10) = 1 ∧ get32 m (envelope + 12) = 0 ∧
      get64 m (envelope + 24) = extent - 80 := by
  have hlen : (m.bytes envelope extent).length = extent := Mem.bytes_length _ _ _
  have hfields : 80 ≤ extent →
      m.bytes envelope 8 = (Mem.ofList (m.bytes envelope extent)).bytes 0 8 ∧
      get16 m (envelope + 8) = get16 (Mem.ofList (m.bytes envelope extent)) 8 ∧
      get16 m (envelope + 10) = get16 (Mem.ofList (m.bytes envelope extent)) 10 ∧
      get32 m (envelope + 12) = get32 (Mem.ofList (m.bytes envelope extent)) 12 ∧
      get64 m (envelope + 24) = get64 (Mem.ofList (m.bytes envelope extent)) 24 := fun h =>
    ⟨bytes_envelope (o := 0) (by omega), getLE_envelope (by omega), getLE_envelope (by omega),
      getLE_envelope (by omega), getLE_envelope (by omega)⟩
  constructor
  · intro h
    have hlong : 80 ≤ extent := hlen ▸ h.long
    obtain ⟨hm, hv, ha, hf, hs⟩ := hfields hlong
    rw [hm, hv, ha, hf, hs]
    exact ⟨hlong, hlen ▸ h.short, h.magic, h.version, h.algorithm, h.flags, h.size.trans (by rw [hlen])⟩
  · rintro ⟨hlong, hshort, hm, hv, ha, hf, hs⟩
    obtain ⟨hm', hv', ha', hf', hs'⟩ := hfields hlong
    exact ⟨by rwa [hlen], by rwa [hlen], hm' ▸ hm, hv' ▸ hv, ha' ▸ ha, hf' ▸ hf,
      by rw [hlen, ← hs', hs]⟩

/-- The capsule at the pointer is the one in the byte string. -/
theorem holds_iff (h : 80 ≤ extent) : Holds (m.bytes envelope extent) ↔
    V2.WellFormed (m.based (envelope + 80)) (extent - 80) := by
  have hlen : ((m.bytes envelope extent).drop 80).length = extent - 80 := by
    rw [List.length_drop, Mem.bytes_length]
  have hbytes : m.bytes (envelope + 80) ((m.bytes envelope extent).drop 80).length =
      (m.bytes envelope extent).drop 80 := by rw [hlen, bytes_drop h]
  rw [Holds, ← V2.wellFormed_ofList hbytes,
    hlen]

/-- The header buffer the MAC callback is given. -/
def headerBuffer (m : Mem) (envelope : Nat) : List UInt8 :=
  ((Mem.ofList (m.bytes envelope 80)).fill 48 32).bytes 0 80

/-- The header buffer, with the tag zeroed, and the capsule behind it. -/
theorem header_append_capsule (h : 80 ≤ extent) :
    headerBuffer m envelope ++ m.bytes (envelope + 80) (extent - 80) =
      zeroed (m.bytes envelope extent) 48 32 := by
  apply List.ext_getElem?
  intro i
  rw [headerBuffer, zeroed, List.getElem?_mapIdx, Mem.bytes_getElem?]
  by_cases hi : i < 80
  · rw [List.getElem?_append_left (by rwa [Mem.bytes_length]), Mem.bytes_getElem?, if_pos hi,
      if_pos (by omega), Nat.zero_add, Mem.fill_apply, Mem.ofList_bytes hi]
    rfl
  · rw [List.getElem?_append_right (by rw [Mem.bytes_length]; omega), Mem.bytes_length,
      Mem.bytes_getElem?]
    by_cases hend : i < extent
    · rw [if_pos (by omega), if_pos hend, Option.map_some, if_neg (by omega),
        show envelope + 80 + (i - 80) = envelope + i by omega]
    · rw [if_neg (by omega), if_neg hend]
      rfl

def macAnswer (m : Mem) (envelope extent : Nat) (verifyMac : MacVerify) : Bool :=
  verifyMac (identityOf (m.bytes envelope extent)) (headerBuffer m envelope)
    (m.bytes (envelope + 80) (extent - 80)) (tagOf (m.bytes envelope extent))

def macCall (m : Mem) (envelope extent : Nat) (answer : Bool) : Call :=
  .mac (identityOf (m.bytes envelope extent)) (headerBuffer m envelope)
    (m.bytes (envelope + 80) (extent - 80)) (tagOf (m.bytes envelope extent)) answer

/-- The view of the capsule behind the header. -/
def capsuleView (m : Mem) (envelope extent : Nat) : V2.View :=
  V2.viewOf (m.based (envelope + 80)) (envelope + 80) (extent - 80)

def policyAnswer (m : Mem) (envelope extent : Nat) (policy : Policy) : Bool :=
  policy (rollbackOf (m.bytes envelope extent)) (identityOf (m.bytes envelope extent))
    (capsuleView m envelope extent)

def policyCall (m : Mem) (envelope extent : Nat) (answer : Bool) : Call :=
  .policy (rollbackOf (m.bytes envelope extent)) (identityOf (m.bytes envelope extent))
    (capsuleView m envelope extent) answer

def authViewOf (m : Mem) (envelope extent : Nat) : AuthView :=
  ⟨envelope, extent, rollbackOf (m.bytes envelope extent), identityOf (m.bytes envelope extent),
    capsuleView m envelope extent⟩

/-- The body, on a framed envelope: ask for the MAC, parse the capsule,
ask for the policy, write the view. -/
theorem authBody_cases (verifyMac : MacVerify) (policy : Policy) (out : Option AuthView)
    (h : Framed (m.bytes envelope extent)) :
    (macAnswer m envelope extent verifyMac = false ∧
      authBody m envelope extent verifyMac policy out =
        ⟨.mac, out, [macCall m envelope extent false]⟩) ∨
    (macAnswer m envelope extent verifyMac = true ∧ ¬ Holds (m.bytes envelope extent) ∧
      authBody m envelope extent verifyMac policy out =
        ⟨.capsule, out, [macCall m envelope extent true]⟩) ∨
    (macAnswer m envelope extent verifyMac = true ∧ Holds (m.bytes envelope extent) ∧
      policyAnswer m envelope extent policy = false ∧
      authBody m envelope extent verifyMac policy out =
        ⟨.policy, out, [macCall m envelope extent true, policyCall m envelope extent false]⟩) ∨
    (macAnswer m envelope extent verifyMac = true ∧ Holds (m.bytes envelope extent) ∧
      policyAnswer m envelope extent policy = true ∧
      authBody m envelope extent verifyMac policy out =
        ⟨.ok, some (authViewOf m envelope extent),
          [macCall m envelope extent true, policyCall m envelope extent true]⟩) := by
  obtain ⟨hlong, _, _, _, _, _, hsize⟩ := framed_iff.mp h
  have hrollback : get64 m (envelope + 16) = rollbackOf (m.bytes envelope extent) :=
    getLE_envelope (by omega)
  have hid : m.bytes (envelope + 32) 16 = identityOf (m.bytes envelope extent) :=
    bytes_envelope (by omega)
  have htag : m.bytes (envelope + 48) 32 = tagOf (m.bytes envelope extent) :=
    bytes_envelope (by omega)
  -- The body over the callbacks' answers, so that a case is a rewrite.
  have hgood (hwf : V2.WellFormed (m.based (envelope + 80)) (extent - 80)) :
      authBody m envelope extent verifyMac policy out =
        if macAnswer m envelope extent verifyMac = false then
          ⟨.mac, out, [macCall m envelope extent (macAnswer m envelope extent verifyMac)]⟩
        else if policyAnswer m envelope extent policy = false then
          ⟨.policy, out, [macCall m envelope extent (macAnswer m envelope extent verifyMac),
            policyCall m envelope extent (policyAnswer m envelope extent policy)]⟩
        else
          ⟨.ok, some (authViewOf m envelope extent),
            [macCall m envelope extent (macAnswer m envelope extent verifyMac),
              policyCall m envelope extent (policyAnswer m envelope extent policy)]⟩ := by
    rw [authBody, hsize, hrollback, hid, htag, V2.parse_val_ok (by omega) hwf]
    rfl
  have hbad (hwf : ¬ V2.WellFormed (m.based (envelope + 80)) (extent - 80)) :
      authBody m envelope extent verifyMac policy out =
        if macAnswer m envelope extent verifyMac = false then
          ⟨.mac, out, [macCall m envelope extent (macAnswer m envelope extent verifyMac)]⟩
        else
          ⟨.capsule, out, [macCall m envelope extent (macAnswer m envelope extent verifyMac)]⟩ := by
    rw [authBody, hsize, hrollback, hid, htag]
    cases hp : (V2.parse (envelope + 80) (extent - 80) (some blankView)).val m with
    | mk status view =>
      cases status with
      | ok u => exact absurd (V2.parse_wellFormed (congrArg Prod.fst hp)).2 hwf
      | error e => rfl
  by_cases hwf : V2.WellFormed (m.based (envelope + 80)) (extent - 80)
  · have hholds : Holds (m.bytes envelope extent) := (holds_iff hlong).mpr hwf
    rw [hgood hwf]
    cases hmac : macAnswer m envelope extent verifyMac with
    | false => exact Or.inl ⟨rfl, rfl⟩
    | true =>
      cases hpol : policyAnswer m envelope extent policy with
      | false => exact Or.inr (Or.inr (Or.inl ⟨rfl, hholds, rfl, rfl⟩))
      | true => exact Or.inr (Or.inr (Or.inr ⟨rfl, hholds, rfl, rfl⟩))
  · rw [hbad hwf]
    cases hmac : macAnswer m envelope extent verifyMac with
    | false => exact Or.inl ⟨rfl, rfl⟩
    | true => exact Or.inr (Or.inl ⟨rfl, fun hh => hwf ((holds_iff hlong).mp hh), rfl⟩)

/-- With everything in place the parser goes on to its callbacks. -/
theorem authParse_framed {verifyMac : MacVerify} {policy : Policy} {old : AuthView} (hne : envelope ≠ 0)
    (h : Framed (m.bytes envelope extent)) :
    authParse m envelope extent (some verifyMac) (some policy) (some old) =
      authBody m envelope extent verifyMac policy (some old) := by
  obtain ⟨hlong, hshort, hm, hv, ha, hf, hs⟩ := framed_iff.mp h
  rw [authParse, if_neg (not_or.mpr ⟨hne, Option.some_ne_none old⟩), if_neg (by omega),
    if_neg (not_not.mpr hm), if_neg (not_not.mpr hv), if_neg (not_not.mpr ha),
    if_neg (not_not.mpr hf), if_neg (by omega)]

/-- Nothing was called, written or accepted. -/
structure Refused (r : Parsed) (out : Option AuthView) : Prop where
  calls : r.calls = []
  status : r.status ≠ .ok
  out : r.out = out

theorem refused {status : Status} (h : status ≠ .ok) (out : Option AuthView) :
    Refused ⟨status, out, []⟩ out := ⟨rfl, h, rfl⟩

/-- Either the parser refuses at once, or the arguments and the framing are
good and the rest is the body's. -/
theorem authParse_cases (m : Mem) (envelope extent : Nat) (verifyMac : Option MacVerify)
    (policy : Option Policy) (out : Option AuthView) :
    Refused (authParse m envelope extent verifyMac policy out) out ∨
    ∃ mac pol, verifyMac = some mac ∧ policy = some pol ∧ envelope ≠ 0 ∧
      Framed (m.bytes envelope extent) ∧
      authParse m envelope extent verifyMac policy out = authBody m envelope extent mac pol out := by
  cases verifyMac with
  | none => exact Or.inl (refused (by decide) out)
  | some mac =>
    cases policy with
    | none => exact Or.inl (refused (by decide) out)
    | some pol =>
      by_cases hnull : envelope = 0 ∨ out = none
      · rw [authParse, if_pos hnull]
        exact Or.inl (refused (by decide) out)
      · obtain ⟨hne, hout⟩ := not_or.mp hnull
        obtain ⟨old, rfl⟩ := Option.ne_none_iff_exists'.mp hout
        by_cases hframed : Framed (m.bytes envelope extent)
        · exact Or.inr ⟨mac, pol, rfl, rfl, hne, hframed, authParse_framed hne hframed⟩
        · refine Or.inl ?_
          rw [framed_iff] at hframed
          rw [authParse, if_neg hnull]
          split
          · exact refused (by decide) _
          split
          · exact refused (by decide) _
          split
          · exact refused (by decide) _
          split
          · exact refused (by decide) _
          split
          · exact refused (by decide) _
          split
          · exact refused (by decide) _
          next h1 h2 h3 h4 h5 h6 =>
            exact absurd ⟨by omega, by omega, not_not.mp h2, not_not.mp h3, not_not.mp h4,
              not_not.mp h5, by omega⟩ hframed

end Bytes

/-! ## Rust -/

namespace Rust

theorem lift_ok {α : Type} {r : V2.Rust.R α} {a : α} (h : r = .ok a) : lift r = .ok a := by
  rw [h]
  rfl

/-- A step that settles in the capsule parser settles here. -/
theorem lift_settles {α : Type} {r : V2.Rust.R α} {P : Prop} {Q : α → Prop}
    (h : Settles (· = .panic) r P Q) : Settles (· = .panic) (lift r) P Q := by
  cases r with
  | ok a => exact h
  | error e =>
    cases e with
    | err e => exact ⟨h.1, (fun hp => by cases hp)⟩
    | panic => exact absurd rfl h.2

/-- The Rust parser answers exactly on framed capsules, and never
panics. -/
theorem parse_settles (bytes : List UInt8) :
    Settles (· = .panic) (V2AuthEnvelopeRef.parse bytes) (Framed bytes ∧ Holds bytes)
      fun r => r = ⟨bytes, V2.Rust.refOf (bytes.drop 80)⟩ := by
  have he : ∀ e : V2AuthError, ¬ Stop.err e = .panic := fun e h => by cases h
  have hslice : 80 ≤ bytes.length → slice V2.Rust.Stop.panic bytes 80 bytes.length = .ok (bytes.drop 80) := by
    intro hlong
    rw [slice_ok hlong (Nat.le_refl _), Mem.bytes_ofList_drop (by omega),
      List.take_of_length_le (by rw [List.length_drop])]
  refine .test (he _) Nat.not_lt (·.1.long) fun hlong => ?_
  refine .ok_bind (lift_ok (slice_ok (Nat.zero_le _) (by omega))) ?_
  refine .test (he _) not_not (·.1.magic) fun hm => ?_
  refine .ok_bind (lift_ok (readLe_ok (by omega))) ?_
  refine .test (he _) not_not (·.1.version) fun hv => ?_
  refine .ok_bind (lift_ok (readLe_ok (by omega))) ?_
  refine .test (he _) not_not (·.1.algorithm) fun ha => ?_
  refine .ok_bind (lift_ok (readLe_ok (by omega))) ?_
  refine .test (he _) not_not (·.1.flags) fun hf => ?_
  refine .ok_bind (lift_ok (readLe_ok (by omega))) ?_
  refine .test (he _) (by rw [not_or, Nat.not_lt, not_not]; rfl)
    (fun h => And.intro h.1.short h.1.size) fun hs => ?_
  refine .ok_bind (lift_ok (hslice hlong)) ?_
  refine .step (lift_settles (V2.Rust.parse_settles (bytes.drop 80))) (·.2) fun hholds ref href => ?_
  exact .answer ⟨⟨hlong, hs.1, hm, hv, ha, hf, hs.2⟩, hholds⟩ (by rw [href])

theorem parse_ok_iff (bytes : List UInt8) :
    (∃ ref, V2AuthEnvelopeRef.parse bytes = .ok ref) ↔ Framed bytes ∧ Holds bytes :=
  (parse_settles bytes).ok_iff

end Rust

/-! ## Agreement -/

section Agree

variable {c : Crypto} {m : Mem} {envelope extent : Nat}

/-- The store's callback accepts exactly what is signed. -/
theorem macOf_iff (get : Python.Store) (hlong : 80 ≤ extent) :
    macAnswer m envelope extent (macOf c get) = true ↔ Signed c get (m.bytes envelope extent) := by
  rw [macAnswer, macOf, header_append_capsule hlong, Signed]
  cases hget : get (Json.hex (identityOf (m.bytes envelope extent))) with
  | error e => simp
  | ok answer =>
    cases answer with
    | none => simp
    | some key => simp

variable {mac : MacVerify} {pol : Policy} {old : AuthView}

/-- `BBP_V2_AUTH_OK` is a good frame, a MAC accepted, a capsule and a
policy that accepts; then the view is written, and never otherwise. -/
theorem authParse_ok_iff (hne : envelope ≠ 0) :
    (authParse m envelope extent (some mac) (some pol) (some old)).status = .ok ↔
      Framed (m.bytes envelope extent) ∧ macAnswer m envelope extent mac = true ∧
      Holds (m.bytes envelope extent) ∧ policyAnswer m envelope extent pol = true := by
  constructor
  · intro h
    rcases authParse_cases m envelope extent (some mac) (some pol) (some old) with hr | hbody
    · exact absurd h hr.status
    · obtain ⟨mac', pol', hm, hp, _, hframed, heq⟩ := hbody
      cases hm
      cases hp
      rw [heq] at h
      rcases authBody_cases mac pol (some old) hframed with ⟨_, hr⟩ | ⟨_, _, hr⟩ | ⟨_, _, _, hr⟩ | ⟨hmac, hholds, hpol, _⟩
      · rw [hr] at h; cases h
      · rw [hr] at h; cases h
      · rw [hr] at h; cases h
      · exact ⟨hframed, hmac, hholds, hpol⟩
  · rintro ⟨hframed, hmac, hholds, hpol⟩
    rw [authParse_framed hne hframed]
    rcases authBody_cases mac pol (some old) hframed with ⟨hno, _⟩ | ⟨_, hno, _⟩ | ⟨_, _, hno, _⟩ | ⟨_, _, _, hr⟩
    · rw [hmac] at hno; cases hno
    · exact absurd hholds hno
    · rw [hpol] at hno; cases hno
    · rw [hr]

/-- The view is written on `BBP_V2_AUTH_OK` and never otherwise. -/
theorem authParse_out (verifyMac : Option MacVerify) (policy : Option Policy)
    (out : Option AuthView) :
    let r := authParse m envelope extent verifyMac policy out
    (r.status ≠ .ok → r.out = out) ∧ (r.status = .ok → r.out = some (authViewOf m envelope extent)) := by
  intro r
  rcases authParse_cases m envelope extent verifyMac policy out with hr | hbody
  · exact ⟨fun _ => hr.out, fun h => absurd h hr.status⟩
  · obtain ⟨mac, pol, _, _, _, hframed, heq⟩ := hbody
    have hr : r = authBody m envelope extent mac pol out := heq
    rcases authBody_cases mac pol out hframed with
      ⟨_, h⟩ | ⟨_, _, h⟩ | ⟨_, _, _, h⟩ | ⟨_, _, _, h⟩
    · rw [hr, h]; exact ⟨fun _ => rfl, (fun hs => by cases hs)⟩
    · rw [hr, h]; exact ⟨fun _ => rfl, (fun hs => by cases hs)⟩
    · rw [hr, h]; exact ⟨fun _ => rfl, (fun hs => by cases hs)⟩
    · rw [hr, h]; exact ⟨fun hs => absurd rfl hs, fun _ => rfl⟩

/-- Every callback that was called was the MAC's, or the policy's after
it. -/
theorem authParse_calls (m : Mem) (envelope extent : Nat) (verifyMac : Option MacVerify)
    (policy : Option Policy) (out : Option AuthView) :
    let r := authParse m envelope extent verifyMac policy out
    r.calls = [] ∨ 80 ≤ extent ∧ ((∃ answer, r.calls = [macCall m envelope extent answer]) ∨
      Holds (m.bytes envelope extent) ∧ ∃ answer,
        r.calls = [macCall m envelope extent true, policyCall m envelope extent answer]) := by
  intro r
  rcases authParse_cases m envelope extent verifyMac policy out with hr | hbody
  · exact Or.inl hr.calls
  · obtain ⟨mac, pol, _, _, _, hframed, heq⟩ := hbody
    have hr : r = authBody m envelope extent mac pol out := heq
    refine Or.inr ⟨(framed_iff.mp hframed).1, ?_⟩
    rcases authBody_cases mac pol out hframed with
      ⟨_, h⟩ | ⟨_, _, h⟩ | ⟨_, hholds, _, h⟩ | ⟨_, hholds, _, h⟩
    · exact Or.inl ⟨false, by rw [hr, h]⟩
    · exact Or.inl ⟨true, by rw [hr, h]⟩
    · exact Or.inr ⟨hholds, false, by rw [hr, h]⟩
    · exact Or.inr ⟨hholds, true, by rw [hr, h]⟩

end Agree

/-- The three implementations agree. C under a store's callback and a
floor's policy accepts what Python verifies, with the same payload, index
and identity; C under callbacks that accept everything accepts what Rust
parses, and Rust does not panic. All three authenticate the envelope with
its tag zeroed. What is sealed verifies. And whatever the callbacks of C
are, the policy is asked only once the MAC was accepted and the capsule
parsed, and the view is written only on `BBP_V2_AUTH_OK`. -/
theorem envelopes_agree (c : Crypto) (bytes : List UInt8) (m : Mem) (envelope : Nat) (old : AuthView)
    (hne : envelope ≠ 0) (hm : m.bytes envelope bytes.length = bytes) :
    (∀ (get : Python.Store) (minimum : Nat), minimum < 2 ^ 64 →
      let r := authParse m envelope bytes.length (some (macOf c get)) (some (atLeast minimum)) (some old)
      let p := Python.verify c (some bytes) (some get) (.int minimum)
      (r.status = .ok ↔ ∃ v, p = .ok v) ∧
      ∀ v, p = .ok v → ∃ view, r.out = some view ∧
        m.bytes view.capsule.data view.capsule.totalSize = v.payload ∧
        view.rollbackIndex = v.rollback ∧ Json.hex view.keyIdentity = v.identity) ∧
    ((authParse m envelope bytes.length (some fun _ _ _ _ => true) (some fun _ _ _ => true)
        (some old)).status = .ok ↔ ∃ ref, Rust.V2AuthEnvelopeRef.parse bytes = .ok ref) ∧
    Rust.V2AuthEnvelopeRef.parse bytes ≠ .error .panic ∧
    (∀ verifyMac policy out identity header capsule tag answer,
      Call.mac identity header capsule tag answer ∈
        (authParse m envelope bytes.length verifyMac policy out).calls →
      header ++ capsule = zeroed bytes 48 32) ∧
    (80 ≤ bytes.length → Python.unsigned bytes = zeroed bytes 48 32) ∧
    (∀ ref, Rust.V2AuthEnvelopeRef.parse bytes = .ok ref →
      ∃ parts, ref.forEachMacPart = .ok parts ∧ parts.flatten = zeroed bytes 48 32) ∧
    (∀ capsule key (get : Python.Store) index minimum,
      V2.WellFormed (Mem.ofList capsule) capsule.length → key ≠ [] →
      get (Json.hex (c.keyId key)) = .ok (some key) → index < 2 ^ 64 → minimum ≤ index →
      ∃ sealedBytes, Python.sealEnvelope c (some capsule) (some key) (.int (index : Nat)) = .ok sealedBytes ∧
        Python.verify c (some sealedBytes) (some get) (.int (minimum : Nat)) =
          .ok ⟨capsule, index, Json.hex (c.keyId key)⟩) ∧
    (∀ verifyMac policy out,
      let r := authParse m envelope bytes.length verifyMac policy out
      (r.status ≠ .ok → r.out = out) ∧
      ∀ index identity view answer, Call.policy index identity view answer ∈ r.calls →
        (∃ header capsule tag, r.calls =
          [.mac identity header capsule tag true, .policy index identity view answer]) ∧
        (V2.parse (envelope + 80) (bytes.length - 80) (some blankView)).val m = (.ok (), some view)) := by
  have hrust := Rust.parse_settles bytes
  refine ⟨?_, ?_, fun hpanic => hrust.not_fault hpanic rfl, ?_, Python.unsigned_eq, ?_, ?_, ?_⟩
  · intro get minimum hmin
    have hpython := Python.verify_settles c bytes get minimum hmin
    have hiff : (authParse m envelope bytes.length (some (macOf c get)) (some (atLeast minimum))
        (some old)).status = .ok ↔ Framed bytes ∧ minimum ≤ rollbackOf bytes ∧ Signed c get bytes ∧
          Holds bytes := by
      rw [authParse_ok_iff hne, policyAnswer, atLeast, hm, decide_eq_true_eq]
      constructor
      · rintro ⟨hframed, hmac, hholds, hmin⟩
        rw [macOf_iff get hframed.long, hm] at hmac
        exact ⟨hframed, hmin, hmac, hholds⟩
      · rintro ⟨hframed, hmin, hsigned, hholds⟩
        refine ⟨hframed, ?_, hholds, hmin⟩
        rwa [macOf_iff get hframed.long, hm]
    refine ⟨hiff.trans hpython.ok_iff.symm, ?_⟩
    intro v hv
    have hall := hpython.ok_iff.mp ⟨v, hv⟩
    refine ⟨_, (authParse_out _ _ _).2 (hiff.mpr hall), ?_, ?_, ?_⟩
    · rw [hpython.post hv]
      exact (bytes_drop hall.1.long).trans (by rw [hm]; rfl)
    · rw [hpython.post hv, authViewOf, hm]
      rfl
    · rw [hpython.post hv, authViewOf, hm]
      rfl
  · rw [authParse_ok_iff hne, Rust.parse_ok_iff, hm]
    exact ⟨fun ⟨hframed, _, hholds, _⟩ => ⟨hframed, hholds⟩,
      fun ⟨hframed, hholds⟩ => ⟨hframed, rfl, hholds, rfl⟩⟩
  · intro verifyMac policy out identity header capsule tag answer hmem
    rcases authParse_calls m envelope bytes.length verifyMac policy out with h | ⟨hlong, ⟨_, h⟩ | ⟨_, _, h⟩⟩
    · rw [h] at hmem
      cases hmem
    · rw [h, List.mem_singleton] at hmem
      cases hmem
      rw [header_append_capsule hlong, hm]
    · rw [h, List.mem_cons, List.mem_singleton] at hmem
      rcases hmem with heq | heq
      · cases heq
        rw [header_append_capsule hlong, hm]
      · cases heq
  · intro ref href
    have hlong := ((Rust.parse_ok_iff bytes).mp ⟨ref, href⟩).1.long
    cases hrust.post href
    refine ⟨[bytes.take 48, List.replicate 32 0, bytes.drop 80], ?_, ?_⟩
    · rw [Rust.V2AuthEnvelopeRef.forEachMacPart,
        Rust.lift_ok (slice_ok (Nat.zero_le 48) (show 48 ≤ bytes.length by omega)),
        Mem.bytes_ofList_drop (by omega)]
      rfl
    · rw [← Python.unsigned_eq hlong, Python.unsigned]
      simp
  · intro capsule key get index minimum hcapsule hkey hget hindex hmin
    exact Python.verify_seal hcapsule hkey hget hindex hmin
  · intro verifyMac policy out r
    refine ⟨(authParse_out verifyMac policy out).1, ?_⟩
    intro index identity view answer hmem
    rcases authParse_calls m envelope bytes.length verifyMac policy out with h | ⟨hlong, ⟨_, h⟩ | ⟨hholds, answer', h⟩⟩
    · rw [h] at hmem
      cases hmem
    · rw [h, List.mem_singleton] at hmem
      cases hmem
    · rw [h, List.mem_cons, List.mem_singleton] at hmem
      rcases hmem with heq | heq
      · cases heq
      · cases heq
        exact ⟨⟨_, _, _, h⟩, V2.parse_val_ok (by omega) ((holds_iff hlong).mp hholds)⟩

/-- SHA-256, and HMAC over it with its block of 64 bytes. -/
def Crypto.standard : Crypto where
  sha256 := Tcg2.sha256Bytes
  hmac key message :=
    let key := if 64 < key.length then Tcg2.sha256Bytes key else key
    let block := key ++ List.replicate (64 - key.length) 0
    Tcg2.sha256Bytes (block.map (· ^^^ 0x5c) ++ Tcg2.sha256Bytes (block.map (· ^^^ 0x36) ++ message))
  sha256_length := Tcg2.sha256Bytes_length
  hmac_length _ _ := Tcg2.sha256Bytes_length _

/-- A store of one key. -/
def sampleStore : Python.Store := fun identity =>
  if identity = Json.hex (Crypto.standard.keyId [1, 2, 3]) then .ok (some [1, 2, 3]) else .error .foreign

theorem sampleStore_get :
    sampleStore (Json.hex (Crypto.standard.keyId [1, 2, 3])) = .ok (some [1, 2, 3]) := if_pos rfl

/-- A capsule sealed with index 7 verifies against the floor 7 and
not against 8, in Python and in C, and Rust parses it. -/
theorem envelopes_agree_sample :
    ∃ envelope, Python.sealEnvelope .standard (some V2.paddedCapsule) (some [1, 2, 3]) (.int 7) = .ok envelope ∧
      Python.verify .standard (some envelope) (some sampleStore) (.int 7) =
        .ok ⟨V2.paddedCapsule, 7, Json.hex (Crypto.standard.keyId [1, 2, 3])⟩ ∧
      (authParse (Mem.zeros.blit 4096 envelope) 4096 envelope.length (some (macOf .standard sampleStore))
        (some (atLeast 7)) (some ⟨0, 0, 0, [], blankView⟩)).status = .ok ∧
      (authParse (Mem.zeros.blit 4096 envelope) 4096 envelope.length (some (macOf .standard sampleStore))
        (some (atLeast 8)) (some ⟨0, 0, 0, [], blankView⟩)).status ≠ .ok ∧
      ∃ ref, Rust.V2AuthEnvelopeRef.parse envelope = .ok ref := by
  have hcapsule : V2.WellFormed (Mem.ofList V2.paddedCapsule) V2.paddedCapsule.length :=
    (V2.Rust.parse_settles _).ok_iff.mp ⟨_, V2.paddedCapsule_parses⟩
  obtain ⟨_, _, _, _, _, _, hseal, _⟩ := envelopes_agree .standard [] Mem.zeros 4096
    ⟨0, 0, 0, [], blankView⟩ (by decide) rfl
  obtain ⟨envelope, hsealed, hverify⟩ := hseal V2.paddedCapsule [1, 2, 3] sampleStore 7 7 hcapsule
    (by decide) sampleStore_get (by decide) (by decide)
  obtain ⟨hagree, _⟩ := envelopes_agree .standard envelope (Mem.zeros.blit 4096 envelope) 4096
    ⟨0, 0, 0, [], blankView⟩ (by decide) (Mem.bytes_blit Mem.zeros 4096 envelope)
  have hseven := Python.verify_settles .standard envelope sampleStore 7 (by decide)
  have height := Python.verify_settles .standard envelope sampleStore 8 (by decide)
  have hindex : rollbackOf envelope = 7 := (congrArg Python.Verified.rollback (hseven.post hverify)).symm
  obtain ⟨hframed, _, _, hholds⟩ := hseven.ok_iff.mp ⟨_, hverify⟩
  refine ⟨envelope, hsealed, hverify, (hagree sampleStore 7 (by decide)).1.mpr ⟨_, hverify⟩, fun hok => ?_,
    (Rust.parse_ok_iff envelope).mpr ⟨hframed, hholds⟩⟩
  have hle := (height.ok_iff.mp ((hagree sampleStore 8 (by decide)).1.mp hok)).2.1
  omega

end BearBoot.Envelope
