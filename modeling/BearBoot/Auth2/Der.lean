import BearBoot.Machine.Pack
import BearBoot.Machine.Settle
import Mathlib.Data.Nat.Log

/-!
# ECDSA signatures, fixed width and DER

`experimental/auth2/auth2.py` stores a signature as two 32-byte big-endian
numbers and hands OpenSSL the ASN.1 form, so it has an encoder and a strict
decoder of its own. This module has both, with every refusal, and what they
owe each other: what the encoder writes the decoder reads
(`derToRaw_derOf`), up to replacing `s` by the smaller of `s` and `n - s`,
and what is stored that way passes the low-S check and is written back as
the same two numbers (`rawToDer_raw`).

A DER integer of a positive number is its shortest big-endian form, with a
zero in front when its top bit is set. `body_spec` is the one fact about
that form the decoder's two refusals ask for. `body_unique` is the
converse, over hostile bytes: what passes the two refusals is that form of
the number it is read as. So the decoder takes nothing but what the encoder
writes (`ecdsa_canonical`).
-/

set_option autoImplicit false

namespace BearBoot.Auth2

open Machine

variable {v : Nat} {der : List UInt8}

/-- `Auth2Error`, with its text. -/
structure Auth2Error where
  text : String
  deriving DecidableEq, Repr

abbrev Py (α : Type) : Type := Except Auth2Error α

/-- `P256_ORDER`. -/
def p256Order : Nat := 0xFFFFFFFF00000000FFFFFFFFFFFFFFFFBCE6FAADA7179E84F3B9CAC2FC632551

/-- `0 < v < P256_ORDER`. -/
def Scalar (v : Nat) : Prop := 0 < v ∧ v < p256Order

instance (v : Nat) : Decidable (Scalar v) := inferInstanceAs (Decidable (_ ∧ _))

/-! ## Functions of the source -/

/-- `value.bit_length()`. -/
def bitLength (v : Nat) : Nat := if v = 0 then 0 else Nat.log2 v + 1

/-- `(value.bit_length() + 7) // 8 or 1`. -/
def byteLength (v : Nat) : Nat := if (bitLength v + 7) / 8 = 0 then 1 else (bitLength v + 7) / 8

/-- The contents of a DER integer. -/
def derBody (v : Nat) : List UInt8 :=
  let encoded := be v (byteLength v)
  if encoded.getD 0 0 &&& 0x80 ≠ 0 then 0 :: encoded else encoded

/-- `_encode_der_integer`. -/
def encodeDerInteger (v : Nat) : List UInt8 := 2 :: UInt8.ofNat (derBody v).length :: derBody v

/-- The DER sequence of two integers. -/
def derOf (r s : Nat) : List UInt8 :=
  let body := encodeDerInteger r ++ encodeDerInteger s
  0x30 :: UInt8.ofNat body.length :: body

/-- `ecdsa_raw_to_der`. -/
def ecdsaRawToDer (signature : List UInt8) : Py (List UInt8) := do
  refuse (signature.length ≠ 64) ⟨"ECDSA signature must be 64 bytes"⟩
  let r := ofBe (signature.take 32)
  let s := ofBe (signature.drop 32)
  refuse (¬ (Scalar r ∧ Scalar s)) ⟨"ECDSA signature scalar is out of range"⟩
  pure (derOf r s)

/-- `_decode_der_integer`: the number and where it ends. -/
def decodeDerInteger (der : List UInt8) (offset : Nat) : Py (Nat × Nat) := do
  refuse (der.length < offset + 2 ∨ der.getD offset 0 ≠ 2) ⟨"malformed OpenSSL ECDSA signature"⟩
  let size := (der.getD (offset + 1) 0).toNat
  let start := offset + 2
  let finish := start + size
  refuse (size = 0 ∨ der.length < finish) ⟨"malformed OpenSSL ECDSA signature"⟩
  let encoded := (der.drop start).take size
  refuse (encoded.getD 0 0 &&& 0x80 ≠ 0) ⟨"negative ECDSA signature scalar"⟩
  refuse (1 < encoded.length ∧ encoded.getD 0 0 = 0 ∧ encoded.getD 1 0 &&& 0x80 = 0)
    ⟨"non-canonical ECDSA signature scalar"⟩
  pure (ofBe encoded, finish)

/-- `_ecdsa_der_to_raw`. -/
def ecdsaDerToRaw (signature : List UInt8) : Py (List UInt8) := do
  refuse (signature.length < 6 ∨ signature.getD 0 0 ≠ 0x30) ⟨"malformed OpenSSL ECDSA signature"⟩
  refuse (signature.getD 1 0 &&& 0x80 ≠ 0 ∨ (signature.getD 1 0).toNat ≠ signature.length - 2)
    ⟨"malformed OpenSSL ECDSA signature"⟩
  let (r, offset) ← decodeDerInteger signature 2
  let (s, offset) ← decodeDerInteger signature offset
  refuse (offset ≠ signature.length ∨ ¬ (Scalar r ∧ Scalar s))
    ⟨"OpenSSL ECDSA signature scalar is out of range"⟩
  let s := min s (p256Order - s)
  pure (be r 32 ++ be s 32)

/-- `_check_low_s`. -/
def checkLowS (signature : List UInt8) : Py Unit := do
  refuse (signature.length ≠ 64) ⟨"ECDSA signature must be 64 bytes"⟩
  let r := ofBe (signature.take 32)
  let s := ofBe (signature.drop 32)
  refuse (¬ (Scalar r ∧ Scalar s)) ⟨"ECDSA signature scalar is out of range"⟩
  refuse (p256Order / 2 < s) ⟨"high-S ECDSA signature rejected"⟩

/-! ## DER integers -/

/-- The top bit of a byte. -/
theorem topBit_iff (b : UInt8) : b &&& 0x80 = 0 ↔ b.toNat < 128 := by
  have hall : ∀ n : Fin 256, UInt8.ofNat n.val &&& 0x80 = 0 ↔ (UInt8.ofNat n.val).toNat < 128 := by
    decide +kernel
  have hb := hall ⟨b.toNat, b.toNat_lt⟩
  rwa [UInt8.ofNat_toNat] at hb

/-- A positive number below `2 ^ 256` fills its bytes. -/
theorem byteLength_spec (hpos : 0 < v) (hlt : v < 2 ^ 256) :
    ∃ w, byteLength v = w + 1 ∧ w < 32 ∧ v < 2 ^ (8 * (w + 1)) ∧ 2 ^ (8 * w) ≤ v := by
  have hne : v ≠ 0 := by omega
  have hlow : 2 ^ Nat.log2 v ≤ v := Nat.log2_self_le hne
  have hhigh : v < 2 ^ (Nat.log2 v + 1) := Nat.lt_log2_self
  have hlog : Nat.log2 v < 256 := (Nat.log2_lt hne).mpr hlt
  have hlen : byteLength v = Nat.log2 v / 8 + 1 := by
    rw [byteLength, bitLength, if_neg hne, if_neg (by omega)]
    omega
  refine ⟨Nat.log2 v / 8, hlen, by omega, ?_, ?_⟩
  · exact Nat.lt_of_lt_of_le hhigh (Nat.pow_le_pow_right (by decide) (by omega))
  · exact Nat.le_trans (Nat.pow_le_pow_right (by decide) (by omega)) hlow

/-- The contents of a DER integer: a leading byte without its top bit, and a
leading zero only in front of one that has it. -/
theorem body_spec (hpos : 0 < v) (hlt : v < 2 ^ 256) :
    0 < (derBody v).length ∧ (derBody v).length ≤ 33 ∧ ofBe (derBody v) = v ∧
      (derBody v).getD 0 0 &&& 0x80 = 0 ∧
      ¬ (1 < (derBody v).length ∧ (derBody v).getD 0 0 = 0 ∧ (derBody v).getD 1 0 &&& 0x80 = 0) := by
  obtain ⟨w, hw, hw32, hv, hlow⟩ := byteLength_spec hpos hlt
  obtain ⟨rest, hcons, hlen⟩ := be_succ hv
  have hval := ofBe_be hv
  have hdiv : 0 < v / 2 ^ (8 * w) := Nat.div_pos hlow (Nat.two_pow_pos _)
  have hbyte : v / 2 ^ (8 * w) < 256 := by
    rw [Nat.div_lt_iff_lt_mul (Nat.two_pow_pos _), ← Nat.pow_add' 2 (8 * w) 8]
    exact hv
  have hnat : (UInt8.ofNat (v / 2 ^ (8 * w))).toNat = v / 2 ^ (8 * w) := by
    rw [UInt8.toNat_ofNat']
    exact Nat.mod_eq_of_lt hbyte
  rw [derBody, hw, hcons]
  rw [hcons] at hval
  simp only [List.getD_cons_zero]
  split
  next htop =>
    refine ⟨by simp, by simp only [List.length_cons, hlen]; omega, ?_, by simp, ?_⟩
    · rw [ofBe_cons, hval]
      simp
    · rintro ⟨_, _, hbad⟩
      exact htop hbad
  next htop =>
    refine ⟨by simp, by simp only [List.length_cons, hlen]; omega, hval, not_not.mp htop, ?_⟩
    rintro ⟨_, hzero, _⟩
    have := congrArg UInt8.toNat hzero
    rw [List.getD_cons_zero, hnat] at this
    change v / 2 ^ (8 * w) = 0 at this
    omega

/-- A number whose leading byte is not zero has as many bytes as it needs. -/
theorem byteLength_ofBe {b : UInt8} (hb : b ≠ 0) (rest : List UInt8) :
    byteLength (ofBe (b :: rest)) = rest.length + 1 := by
  have hpos : 0 < b.toNat := Nat.pos_of_ne_zero fun h => hb (UInt8.toNat_inj.mp h)
  have hlow : 2 ^ (8 * rest.length) ≤ ofBe (b :: rest) := by
    rw [ofBe_cons]
    exact Nat.le_trans (Nat.le_mul_of_pos_left _ hpos) (Nat.le_add_right _ _)
  have hhigh := ofBe_lt (b :: rest)
  have hne : ofBe (b :: rest) ≠ 0 := Nat.ne_of_gt (Nat.lt_of_lt_of_le (Nat.two_pow_pos _) hlow)
  have hlog := (Nat.le_log2 hne).mpr hlow
  have hlog' := (Nat.log2_lt hne).mpr hhigh
  rw [List.length_cons] at hlog'
  rw [byteLength, bitLength, if_neg hne, if_neg (by omega)]
  omega

/-- The contents the decoder takes are those the encoder writes for the
number. -/
theorem body_unique {bs : List UInt8} (hne : bs ≠ []) (htop : bs.getD 0 0 &&& 0x80 = 0)
    (hcanon : ¬ (1 < bs.length ∧ bs.getD 0 0 = 0 ∧ bs.getD 1 0 &&& 0x80 = 0)) :
    derBody (ofBe bs) = bs := by
  -- without a leading zero the bytes are the shortest form
  have hshort : ∀ b rest, b ≠ 0 → be (ofBe (b :: rest)) (byteLength (ofBe (b :: rest))) = b :: rest := by
    intro b rest hb
    rw [byteLength_ofBe hb]
    exact be_ofBe rfl
  cases bs with
  | nil => exact absurd rfl hne
  | cons b rest =>
    rw [List.getD_cons_zero] at htop hcanon
    by_cases hb : b = 0
    · subst hb
      cases rest with
      | nil => rfl
      | cons c rest =>
        have hc : c &&& 0x80 ≠ 0 := fun h => hcanon ⟨by simp, rfl, by simpa using h⟩
        have hc0 : c ≠ 0 := fun h => hc (by rw [h]; rfl)
        have hval : ofBe (0 :: c :: rest) = ofBe (c :: rest) := by
          rw [ofBe_cons]
          simp
        rw [derBody, hval, hshort c rest hc0]
        exact if_pos hc
    · rw [derBody, hshort b rest hb]
      exact if_neg (not_not.mpr htop)

theorem encode_length (v : Nat) : (encodeDerInteger v).length = (derBody v).length + 2 := rfl

/-- What the encoder writes the decoder reads, wherever it stands. -/
theorem decode_encode (hpos : 0 < v) (hlt : v < 2 ^ 256) (front back : List UInt8) :
    decodeDerInteger (front ++ (encodeDerInteger v ++ back)) front.length =
      .ok (v, front.length + (encodeDerInteger v).length) := by
  obtain ⟨hne, hle, hval, htop, hcanon⟩ := body_spec hpos hlt
  have hsize : (UInt8.ofNat (derBody v).length).toNat = (derBody v).length := by
    rw [UInt8.toNat_ofNat']
    exact Nat.mod_eq_of_lt (by omega)
  have hat : ∀ k, (front ++ (encodeDerInteger v ++ back)).getD (front.length + k) 0 =
      (encodeDerInteger v ++ back).getD k 0 := by
    intro k
    rw [List.getD_append_right _ _ _ _ (by omega), Nat.add_sub_cancel_left]
  have hzero : (front ++ (encodeDerInteger v ++ back)).getD front.length 0 = 2 := hat 0
  have hone : ((front ++ (encodeDerInteger v ++ back)).getD (front.length + 1) 0).toNat =
      (derBody v).length := by
    rw [hat 1]
    exact hsize
  have hbody : ((front ++ (encodeDerInteger v ++ back)).drop (front.length + 2)).take
      (derBody v).length = derBody v := by
    rw [List.drop_append, List.drop_of_length_le (by omega), Nat.add_sub_cancel_left,
      List.nil_append]
    simp [encodeDerInteger]
  have hlen : (front ++ (encodeDerInteger v ++ back)).length =
      front.length + ((derBody v).length + 2 + back.length) := by
    rw [List.length_append, List.length_append, encode_length]
  unfold decodeDerInteger
  rw [refuse_bind_of_not (not_or.mpr ⟨by rw [hlen]; omega, not_not.mpr hzero⟩)]
  dsimp only
  rw [hone, hbody, refuse_bind_of_not (by rw [hlen]; omega), refuse_bind_of_not (not_not.mpr htop),
    refuse_bind_of_not hcanon, hval, encode_length, Nat.add_assoc, Nat.add_comm 2]
  rfl

/-- A number the decoder has read stands there as the encoder writes it. -/
theorem decode_ok {offset finish : Nat}
    (h : decodeDerInteger der offset = .ok (v, finish)) :
    finish ≤ der.length ∧ der.drop offset = encodeDerInteger v ++ der.drop finish := by
  unfold decodeDerInteger at h
  simp only [ok_bind_iff, refuse_ok_iff, exists_const, not_or, Nat.not_lt, not_not, ne_eq,
    pure_ok_iff, Prod.mk.injEq] at h
  obtain ⟨⟨htwo, htag⟩, ⟨hsize, hend⟩, htop, hcanon, rfl, rfl⟩ := h
  generalize hsz : (der.getD (offset + 1) 0).toNat = size at *
  have hlt : size < 256 := hsz ▸ UInt8.toNat_lt _
  have hlen : ((der.drop (offset + 2)).take size).length = size := by
    rw [List.length_take, List.length_drop]
    omega
  have hne : (der.drop (offset + 2)).take size ≠ [] := by
    intro hnil
    rw [hnil] at hlen
    exact hsize hlen.symm
  have hbody := body_unique hne htop hcanon
  have hcons : ∀ i (hi : i < der.length), der.drop i = der.getD i 0 :: der.drop (i + 1) := by
    intro i hi
    rw [List.getD_eq_getElem _ _ hi]
    exact List.drop_eq_getElem_cons hi
  have hsizeByte : UInt8.ofNat size = der.getD (offset + 1) 0 := by
    rw [← hsz, UInt8.ofNat_toNat]
  have hrest := List.take_append_drop size (der.drop (offset + 2))
  rw [List.drop_drop] at hrest
  refine ⟨hend, ?_⟩
  rw [encodeDerInteger, hbody, hlen, hsizeByte, hcons offset (by omega), htag,
    hcons (offset + 1) (by omega), List.cons_append, List.cons_append, hrest]

/-! ## Signatures -/

theorem scalar_lt (h : Scalar v) : v < 2 ^ 256 := by
  have horder : p256Order < 2 ^ 256 := by decide
  exact Nat.lt_trans h.2 horder

section Der

variable {r s : Nat}

theorem derOf_length (r s : Nat) : (derOf r s).length =
    (encodeDerInteger r).length + (encodeDerInteger s).length + 2 := by
  simp [derOf]

/-- The two numbers are read where they stand. -/
theorem decode_derOf (hr : Scalar r) (hs : Scalar s) :
    decodeDerInteger (derOf r s) 2 = .ok (r, 2 + (encodeDerInteger r).length) ∧
      decodeDerInteger (derOf r s) (2 + (encodeDerInteger r).length) = .ok (s, (derOf r s).length) := by
  have hfirst := decode_encode hr.1 (scalar_lt hr)
    [0x30, UInt8.ofNat (encodeDerInteger r ++ encodeDerInteger s).length] (encodeDerInteger s)
  have hsecond := decode_encode hs.1 (scalar_lt hs)
    (0x30 :: UInt8.ofNat (encodeDerInteger r ++ encodeDerInteger s).length :: encodeDerInteger r) []
  rw [List.append_nil] at hsecond
  refine ⟨hfirst, ?_⟩
  rw [derOf_length, Nat.add_comm 2, Nat.add_right_comm]
  exact hsecond

/-- OpenSSL's form is read as its two numbers, with the smaller `s`. -/
theorem derToRaw_derOf (hr : Scalar r) (hs : Scalar s) :
    ecdsaDerToRaw (derOf r s) = .ok (be r 32 ++ be (min s (p256Order - s)) 32) := by
  have hbr := body_spec hr.1 (scalar_lt hr)
  have hbs := body_spec hs.1 (scalar_lt hs)
  have hbody : (encodeDerInteger r ++ encodeDerInteger s).length =
      (derBody r).length + 2 + ((derBody s).length + 2) := by
    rw [List.length_append, encode_length, encode_length]
  have hlen : (derOf r s).length = (encodeDerInteger r ++ encodeDerInteger s).length + 2 := rfl
  have hnat : (UInt8.ofNat (encodeDerInteger r ++ encodeDerInteger s).length).toNat =
      (encodeDerInteger r ++ encodeDerInteger s).length := by
    rw [UInt8.toNat_ofNat']
    exact Nat.mod_eq_of_lt (by omega)
  have hone : (derOf r s).getD 1 0 =
      UInt8.ofNat (encodeDerInteger r ++ encodeDerInteger s).length := rfl
  obtain ⟨hfirst, hsecond⟩ := decode_derOf hr hs
  unfold ecdsaDerToRaw
  rw [refuse_bind_of_not (by rw [hlen, hbody]; simp [derOf]; omega),
    refuse_bind_of_not (by rw [hone, ne_eq, topBit_iff, hnat, hlen]; omega), hfirst]
  change (decodeDerInteger (derOf r s) (2 + (encodeDerInteger r).length) >>= _) = _
  rw [hsecond]
  exact refuse_bind_of_not (fun h => h.elim (fun hne => hne rfl) fun hno => hno ⟨hr, hs⟩)

/-- Two numbers have one form. -/
theorem derOf_inj {r' s' : Nat} (hr : Scalar r) (hs : Scalar s) (hr' : Scalar r') (hs' : Scalar s')
    (h : derOf r s = derOf r' s') : r = r' ∧ s = s' := by
  obtain ⟨hfirst, hsecond⟩ := decode_derOf hr hs
  obtain ⟨hfirst', hsecond'⟩ := decode_derOf hr' hs'
  rw [h, hfirst', Except.ok.injEq, Prod.mk.injEq] at hfirst
  obtain ⟨rfl, -⟩ := hfirst
  rw [h, hsecond', Except.ok.injEq, Prod.mk.injEq] at hsecond
  exact ⟨rfl, hsecond.1.symm⟩

end Der

section Raw

variable {r s : Nat}

theorem raw_scalars (hr : Scalar r) (hs : Scalar s) :
    (be r 32 ++ be s 32).length = 64 ∧ ofBe ((be r 32 ++ be s 32).take 32) = r ∧
      ofBe ((be r 32 ++ be s 32).drop 32) = s := by
  have hlen : (be r 32).length = 32 := length_be r 32
  refine ⟨by rw [List.length_append, length_be, length_be], ?_, ?_⟩
  · rw [List.take_left' hlen, ofBe_be (scalar_lt hr)]
  · rw [List.drop_left' hlen, ofBe_be (scalar_lt hs)]

/-- A stored signature is written back as its two numbers. -/
theorem rawToDer_raw (hr : Scalar r) (hs : Scalar s) :
    ecdsaRawToDer (be r 32 ++ be s 32) = .ok (derOf r s) := by
  obtain ⟨hlen, htake, hdrop⟩ := raw_scalars hr hs
  unfold ecdsaRawToDer
  rw [refuse_bind_of_not (not_not.mpr hlen)]
  dsimp only
  rw [htake, hdrop, refuse_bind_of_not (not_not.mpr ⟨hr, hs⟩)]
  rfl

/-- The smaller of the two equivalent numbers is a scalar and is low. -/
theorem scalar_min (hs : Scalar s) :
    Scalar (min s (p256Order - s)) ∧ min s (p256Order - s) ≤ p256Order / 2 := by
  obtain ⟨hpos, hlt⟩ := hs
  refine ⟨⟨?_, ?_⟩, ?_⟩ <;> omega

/-- A stored signature passes the low-S check. -/
theorem checkLowS_raw (hr : Scalar r) (hs : Scalar s) (hlow : s ≤ p256Order / 2) :
    checkLowS (be r 32 ++ be s 32) = .ok () := by
  obtain ⟨hlen, htake, hdrop⟩ := raw_scalars hr hs
  unfold checkLowS
  rw [refuse_bind_of_not (not_not.mpr hlen)]
  dsimp only
  rw [htake, hdrop, refuse_bind_of_not (not_not.mpr ⟨hr, hs⟩), refuse, if_neg (Nat.not_lt.mpr hlow)]

/-- A fixed-width signature of two scalars. -/
def RawOk (signature : List UInt8) : Prop :=
  signature.length = 64 ∧ Scalar (ofBe (signature.take 32)) ∧ Scalar (ofBe (signature.drop 32))

theorem rawOk_be (hr : Scalar r) (hs : Scalar s) : RawOk (be r 32 ++ be s 32) := by
  obtain ⟨hlen, htake, hdrop⟩ := raw_scalars hr hs
  exact ⟨hlen, htake.symm ▸ hr, hdrop.symm ▸ hs⟩

theorem RawOk.be_eq {signature : List UInt8} (h : RawOk signature) :
    be (ofBe (signature.take 32)) 32 ++ be (ofBe (signature.drop 32)) 32 = signature := by
  have hlen := h.1
  rw [be_ofBe (by rw [List.length_take]; omega), be_ofBe (by rw [List.length_drop]; omega),
    List.take_append_drop]

/-- The encoder takes fixed-width signatures of two scalars, and nothing
else. -/
theorem rawToDer_ok_iff {signature : List UInt8} : ecdsaRawToDer signature = .ok der ↔
    RawOk signature ∧ der = derOf (ofBe (signature.take 32)) (ofBe (signature.drop 32)) := by
  unfold ecdsaRawToDer
  simp only [ok_bind_iff, refuse_ok_iff, exists_const, ne_eq, not_not, pure_ok_iff, RawOk]
  constructor
  · rintro ⟨hlen, hscalars, rfl⟩
    exact ⟨⟨hlen, hscalars⟩, rfl⟩
  · rintro ⟨⟨hlen, hscalars⟩, rfl⟩
    exact ⟨hlen, hscalars, rfl⟩

/-- What the decoder takes is what the encoder writes for two scalars. -/
theorem derToRaw_ok {raw : List UInt8} (h : ecdsaDerToRaw der = .ok raw) :
    ∃ r s, Scalar r ∧ Scalar s ∧ der = derOf r s := by
  unfold ecdsaDerToRaw at h
  simp only [ok_bind_iff, refuse_ok_iff, exists_const, not_or, Nat.not_lt, not_not, ne_eq] at h
  obtain ⟨⟨hsix, htag⟩, ⟨htop, hsize⟩, ⟨r, offset⟩, hfirst, ⟨s, finish⟩, hsecond, ⟨hend, hr, hs⟩, -⟩ := h
  obtain ⟨-, hdropR⟩ := decode_ok hfirst
  obtain ⟨-, hdropS⟩ := decode_ok hsecond
  dsimp only at hdropS hend
  rw [hend, List.drop_length, List.append_nil] at hdropS
  rw [hdropS] at hdropR
  refine ⟨r, s, hr, hs, ?_⟩
  -- the first two bytes, and behind them the two numbers
  match der, hsix with
  | a :: b :: rest, _ =>
    rw [List.getD_cons_zero] at htag
    rw [List.getD_cons_succ, List.getD_cons_zero] at hsize
    have hrest : rest = encodeDerInteger r ++ encodeDerInteger s := hdropR
    have hb : UInt8.ofNat rest.length = b := by
      rw [show rest.length = b.toNat from hsize.symm, UInt8.ofNat_toNat]
    rw [derOf, ← hrest, hb, htag]

/-- The conversion is canonical. A signature of two scalars comes back with
the smaller `s`; the decoder takes exactly the encoder's outputs, each of
which has one source; what it answers passes the low-S check; and the
encoder raises on everything but two scalars in 64 bytes. -/
theorem ecdsa_canonical :
    (∀ signature, RawOk signature → ∃ der, ecdsaRawToDer signature = .ok der ∧
      ecdsaDerToRaw der = .ok (signature.take 32 ++
        be (min (ofBe (signature.drop 32)) (p256Order - ofBe (signature.drop 32))) 32)) ∧
    (∀ der, (∃ raw, ecdsaDerToRaw der = .ok raw) ↔
      ∃! signature, RawOk signature ∧ ecdsaRawToDer signature = .ok der) ∧
    (∀ der raw, ecdsaDerToRaw der = .ok raw → checkLowS raw = .ok ()) ∧
    ∀ signature, (∃ e, ecdsaRawToDer signature = .error e) ↔ ¬ RawOk signature := by
  refine ⟨fun signature h => ?_, fun der => ⟨?_, ?_⟩, fun der raw h => ?_, fun signature => ?_⟩
  · refine ⟨_, rawToDer_ok_iff.mpr ⟨h, rfl⟩, ?_⟩
    rw [derToRaw_derOf h.2.1 h.2.2, be_ofBe (by rw [List.length_take, h.1]; rfl)]
  · rintro ⟨raw, h⟩
    obtain ⟨r, s, hr, hs, rfl⟩ := derToRaw_ok h
    refine ⟨be r 32 ++ be s 32, ⟨rawOk_be hr hs, rawToDer_raw hr hs⟩, ?_⟩
    rintro signature ⟨hok, hder⟩
    obtain ⟨-, heq⟩ := rawToDer_ok_iff.mp hder
    obtain ⟨hr', hs'⟩ := derOf_inj hr hs hok.2.1 hok.2.2 heq
    rw [hr', hs', hok.be_eq]
  · rintro ⟨signature, ⟨hok, hder⟩, -⟩
    obtain ⟨-, rfl⟩ := rawToDer_ok_iff.mp hder
    exact ⟨_, derToRaw_derOf hok.2.1 hok.2.2⟩
  · obtain ⟨r, s, hr, hs, rfl⟩ := derToRaw_ok h
    rw [derToRaw_derOf hr hs, Except.ok.injEq] at h
    obtain ⟨hmin, hlow⟩ := scalar_min hs
    rw [← h]
    exact checkLowS_raw hr hmin hlow
  · constructor
    · rintro ⟨e, he⟩ hok
      rw [rawToDer_ok_iff.mpr ⟨hok, rfl⟩] at he
      cases he
    · intro hno
      cases hder : ecdsaRawToDer signature with
      | error e => exact ⟨e, rfl⟩
      | ok der => exact absurd (rawToDer_ok_iff.mp hder).1 hno

end Raw

end BearBoot.Auth2
