import BearBoot.Machine.Pack
import BearBoot.Machine.Slice
import BearBoot.Kernel.Lookup

/-!
# The Rust v1 validators, as `sdk/rust/bbp-wire/src/refs.rs` computes them

The Rust crate has no addresses. It is given a slice, and what the C
parser settles with windows, translations and wrap checks it settles with
the slice's length. `HeaderRef`, `InfoRef` and `TagRef` are the slice they
have validated; `verify_blob` answers whether it has checked anything.

Every index and every slice expression that the source writes without
`get` can panic, and stands here as one that does. The validators are
settled one by one: each answers exactly on the slices that start with
what the C side accepts, and no slice makes one panic
(`HeaderRef.validate_settles` and its siblings).

`validators_agree` puts the two sides next to each other, on the bytes of
one memory. For a tag the slice goes from its address to the end of the
kernel's window, and the walk stands at that address with turns left.
-/

set_option autoImplicit false

namespace BearBoot.Kernel.Rust

open Machine

/-- `ValidationError`. -/
inductive ValidationError where
  | truncated (needed available : Nat)
  | badMagic
  | unsupportedMajor (found : Nat)
  | invalidHeaderSize (found : Nat)
  | invalidInfoSize (found : Nat)
  | invalidTagSize (found : Nat)
  | checksumMismatch (expected actual : Nat)
  | emptyBlob
  | blobTooLarge (size : Nat)
  | missingBlobChecksum
  deriving DecidableEq, Repr

/-- How a run ends early. -/
inductive Stop where
  | err (e : ValidationError)
  | panic
  deriving DecidableEq, Repr

abbrev R (α : Type) : Type := Except Stop α

def readU16 (bytes : List UInt8) (offset : Nat) : R Nat := readLe .panic bytes offset 2

def readU32 (bytes : List UInt8) (offset : Nat) : R Nat := readLe .panic bytes offset 4

def readU64 (bytes : List UInt8) (offset : Nat) : R Nat := readLe .panic bytes offset 8

/-- `input.get(..needed).ok_or(ValidationError::Truncated { .. })?` -/
def getPrefix (input : List UInt8) (needed : Nat) : R (List UInt8) :=
  if needed ≤ input.length then pure (input.take needed)
  else .error (.err (.truncated needed input.length))

/-- `crc64_zeroed_field`. -/
def crc64ZeroedField (bytes : List UInt8) (offset : Nat) : R Nat := do
  let front ← slice .panic bytes 0 offset
  let back ← slice .panic bytes (offset + 8) bytes.length
  pure (crc64Final (crc64Update (crc64Update (crc64Update crc64Init front)
    (List.replicate 8 0)) back)).toNat

/-- The last step of the three validators: the stored checksum against the
computed one. -/
def checkChecksum (bytes : List UInt8) (offset : Nat) : R Unit := do
  let expected ← readU64 bytes offset
  let actual ← crc64ZeroedField bytes offset
  refuse (actual ≠ expected) (.err (.checksumMismatch expected actual))

structure HeaderRef where
  bytes : List UInt8
  deriving DecidableEq, Repr

/-- `HeaderRef::validate`. -/
def HeaderRef.validate (input : List UInt8) : R HeaderRef := do
  let bytes ← getPrefix input 160
  let magic ← slice .panic bytes 0 16
  refuse (magic ≠ headerMagic) (.err .badMagic)
  let major ← readU16 bytes 16
  refuse (major ≠ 1) (.err (.unsupportedMajor major))
  let size ← readU32 bytes 20
  refuse (size ≠ 160) (.err (.invalidHeaderSize size))
  checkChecksum bytes 152
  pure ⟨bytes⟩

structure InfoRef where
  bytes : List UInt8
  deriving DecidableEq, Repr

/-- `InfoRef::validate`. -/
def InfoRef.validate (input : List UInt8) : R InfoRef := do
  let bytes ← getPrefix input 144
  let magic ← slice .panic bytes 0 16
  refuse (magic ≠ infoMagic) (.err .badMagic)
  let major ← readU16 bytes 16
  refuse (major ≠ 1) (.err (.unsupportedMajor major))
  let size ← readU32 bytes 20
  refuse (size < 144 ∨ 64 * 1024 * 1024 < size) (.err (.invalidInfoSize size))
  checkChecksum bytes 136
  pure ⟨bytes⟩

structure TagRef where
  bytes : List UInt8
  deriving DecidableEq, Repr

/-- `TagRef::validate`. -/
def TagRef.validate (input : List UInt8) : R TagRef := do
  refuse (input.length < 32) (.err (.truncated 32 input.length))
  let declared ← readU32 input 8
  refuse (¬ (32 ≤ declared ∧ declared ≤ 16 * 1024 * 1024)) (.err (.invalidTagSize declared))
  let bytes ← getPrefix input declared
  checkChecksum bytes 24
  pure ⟨bytes⟩

inductive BlobPolicy where
  | requireChecksum
  | allowUnchecked
  deriving DecidableEq, Repr

inductive BlobVerification where
  | verified
  | unchecked
  deriving DecidableEq, Repr

/-- `verify_blob`. -/
def verifyBlob (bytes : List UInt8) (expectedCrc : Nat) (policy : BlobPolicy) :
    R BlobVerification := do
  refuse (bytes = []) (.err .emptyBlob)
  refuse (64 * 1024 * 1024 < bytes.length) (.err (.blobTooLarge bytes.length))
  if expectedCrc = 0 then
    match policy with
    | .requireChecksum => .error (.err .missingBlobChecksum)
    | .allowUnchecked => pure .unchecked
  else do
    let actual := crc64 bytes
    refuse (actual ≠ expectedCrc) (.err (.checksumMismatch expectedCrc actual))
    pure .verified

/-! ## What the validators settle

The slice is the `n` bytes at an address of some memory; any slice is, of
the memory that holds nothing else. -/

theorem err_ne_panic (e : ValidationError) : ¬ Stop.err e = .panic := fun h => by cases h

section Settled

variable {m : Mem} {p n : Nat}

theorem getPrefix_settles (needed : Nat) :
    Settles (· = .panic) (getPrefix (m.bytes p n) needed) (needed ≤ n)
      fun bytes => bytes = m.bytes p needed := by
  unfold getPrefix
  rw [m.bytes_length]
  split
  next h =>
    refine ⟨h, ?_⟩
    rw [← Nat.add_sub_cancel' h, bytes_add, List.take_left' (m.bytes_length p needed)]
  next h => exact ⟨h, err_ne_panic _⟩

/-- A field of the slice is a field of the memory. -/
theorem readLe_bytes {o w : Nat} (h : o + w ≤ n) :
    readLe Stop.panic (m.bytes p n) o w = .ok (m.getLE (p + o) w) := by
  rw [readLe_ok (by rw [m.bytes_length]; exact h)]
  congr 1
  apply Mem.getLE_congr
  intro i hi
  rw [Mem.ofList_bytes (by omega), Nat.add_assoc]

theorem slice_bytes {lo hi : Nat} (hle : lo ≤ hi) (hin : hi ≤ n) :
    slice Stop.panic (m.bytes p n) lo hi = .ok (m.bytes (p + lo) (hi - lo)) := by
  rw [slice_ok hle (by rw [m.bytes_length]; exact hin)]
  congr 1
  apply Mem.bytes_congr
  intro i hi
  rw [Mem.ofList_bytes (by omega), Nat.add_assoc]

theorem crc64ZeroedField_bytes {offset : Nat} (hoffset : offset + 8 ≤ n) :
    crc64ZeroedField (m.bytes p n) offset = .ok (crcSpliced m p n offset) := by
  rw [crc64ZeroedField, m.bytes_length, slice_bytes (Nat.zero_le _) (by omega),
    slice_bytes hoffset (Nat.le_refl n), Nat.sub_add_eq, ← Nat.add_assoc]
  rfl

/-- The checksum of a structure that is the whole slice. -/
theorem checkChecksum_settles {offset : Nat} (hoffset : offset + 8 ≤ n) :
    Settles (· = .panic) (checkChecksum (m.bytes p n) offset)
      (crcSpliced m p n offset = get64 m (p + offset)) fun _ => True := by
  refine .ok_bind (readLe_bytes hoffset) (.ok_bind (crc64ZeroedField_bytes hoffset) ?_)
  exact .refuse (err_ne_panic _) not_not

theorem HeaderRef.validate_settles :
    Settles (· = .panic) (HeaderRef.validate (m.bytes p n)) (160 ≤ n ∧ HeaderOk m p)
      fun r => r.bytes = m.bytes p 160 := by
  refine .step (getPrefix_settles 160) (·.1) ?_
  rintro hlen bytes rfl
  refine .ok_bind (slice_bytes (Nat.zero_le 16) (by decide)) ?_
  refine .test (err_ne_panic _) not_not (·.2.magic) fun hmagic => ?_
  refine .ok_bind (readLe_bytes (by decide)) ?_
  refine .test (err_ne_panic _) not_not (·.2.major) fun hmajor => ?_
  refine .ok_bind (readLe_bytes (by decide)) ?_
  refine .test (err_ne_panic _) not_not (·.2.size) fun hsize => ?_
  refine .step (checkChecksum_settles (by decide)) (·.2.crc) fun hcrc _ _ => ?_
  exact .answer ⟨hlen, hmagic, hmajor, hsize, hcrc⟩ rfl

theorem InfoRef.validate_settles :
    Settles (· = .panic) (InfoRef.validate (m.bytes p n)) (144 ≤ n ∧ InfoOk m p)
      fun r => r.bytes = m.bytes p 144 := by
  refine .step (getPrefix_settles 144) (·.1) ?_
  rintro hlen bytes rfl
  refine .ok_bind (slice_bytes (Nat.zero_le 16) (by decide)) ?_
  refine .test (err_ne_panic _) not_not (·.2.magic) fun hmagic => ?_
  refine .ok_bind (readLe_bytes (by decide)) ?_
  refine .test (err_ne_panic _) not_not (·.2.major) fun hmajor => ?_
  refine .ok_bind (readLe_bytes (by decide)) ?_
  refine .test (err_ne_panic _) (by rw [get32]; omega) (fun h => And.intro h.2.sizeLow h.2.sizeHigh)
    fun hsize => ?_
  refine .step (checkChecksum_settles (by decide)) (·.2.crc.symm) fun hcrc _ _ => ?_
  exact .answer ⟨hlen, hmagic, hmajor, hsize.1, hsize.2, hcrc.symm⟩ rfl

/-- A tag that the slice holds whole: its size is plausible and its CRC is
right. -/
structure TagFits (m : Mem) (t n : Nat) : Prop where
  sizeLow : 32 ≤ tagSize m t
  sizeHigh : tagSize m t ≤ 16777216
  inside : tagSize m t ≤ n
  crc : CrcOk m t

theorem TagRef.validate_settles :
    Settles (· = .panic) (TagRef.validate (m.bytes p n)) (TagFits m p n)
      fun r => r.bytes = m.bytes p (tagSize m p) := by
  unfold TagRef.validate
  rw [m.bytes_length]
  refine .test (err_ne_panic _) not_lt (fun h => Nat.le_trans h.sizeLow h.inside) fun hlen => ?_
  refine .ok_bind (readLe_bytes (by omega)) ?_
  refine .test (err_ne_panic _) not_not (fun h => ⟨h.sizeLow, h.sizeHigh⟩) fun hsize => ?_
  refine .step (getPrefix_settles _) (·.inside) ?_
  rintro hin bytes rfl
  refine .step (checkChecksum_settles hsize.1) (·.crc) fun hcrc _ _ => ?_
  exact .answer ⟨hsize.1, hsize.2, hin, hcrc⟩ rfl

end Settled

theorem verifyBlob_settles (bytes : List UInt8) (crc : Nat) (policy : BlobPolicy) :
    Settles (· = .panic) (verifyBlob bytes crc policy)
      (bytes ≠ [] ∧ bytes.length ≤ maxBlob ∧
        if crc = 0 then policy = .allowUnchecked else crc64 bytes = crc)
      fun r => r = if crc = 0 then .unchecked else .verified := by
  unfold verifyBlob
  refine .refuse_bind (err_ne_panic _) Iff.rfl fun _ => ?_
  refine .refuse_bind (err_ne_panic _) not_lt fun _ => ?_
  by_cases hcrc : crc = 0
  · simp only [if_pos hcrc]
    cases policy with
    | requireChecksum => exact ⟨(fun h => by cases h), err_ne_panic _⟩
    | allowUnchecked => exact ⟨rfl, rfl⟩
  · simp only [if_neg hcrc]
    refine .congr (by rw [and_true]) (.refuse_bind (err_ne_panic _) not_not fun _ => ?_)
    exact .pure rfl

/-! ## The two sides -/

section Sides

variable {m : Mem} {k : Kctx} {p : Nat}

/-- In a window that does not wrap, what the slice to its end holds is what
the walk accepts and passes. -/
theorem tagFits_iff (hverify : k.verifyTagCrc = true) (hhigh : k.walkHi ≤ 2 ^ 48)
    (hwrap : k.walkHi + k.hhdmOffset < 2 ^ 64) (hp : p ≠ 0) (haligned : p % 8 = 0)
    (hlo : k.walkLo ≤ p) (hhi : p < k.walkHi) :
    TagFits m (p + k.hhdmOffset) (k.walkHi - p) ↔
      TagOk k m p ∧ Passes k m (p + k.hhdmOffset) := by
  constructor
  · rintro ⟨hlow, hmax, hin, hcrc⟩
    exact ⟨⟨hp, haligned, hlow, hmax, by omega, by omega, fun _ => ⟨hlo, by omega⟩⟩,
      fun _ => hcrc⟩
  · rintro ⟨hok, hpass⟩
    have hwin := hok.window (by omega)
    exact ⟨hok.sizeLow, hok.sizeHigh, by omega, hpass hverify⟩

/-- A tag of a walk at `p` that has the address of `p` is the one the walk
stands at. -/
theorem mem_turn {steps : Nat} (h : p + k.hhdmOffset ∈ walk k m steps p) : TagOk k m p := by
  obtain ⟨q, hok, hq⟩ := mem_walk h
  rwa [Nat.add_right_cancel hq]

/-- A callback is given the tag the walk stands at exactly when it is
accepted and passes. -/
theorem forEachLoop_turn {σ : Type} (cb : TagCb σ) (steps n : Nat) (user : σ) :
    p + k.hhdmOffset ∈ ((forEachLoop k (observed cb) (steps + 1) p n (user, [])).val m).2.2 ↔
      TagOk k m p ∧ Passes k m (p + k.hhdmOffset) := by
  obtain ⟨user', hrun⟩ := runCb_seen (fun t s => (cb t s).val m)
    ((walk k m (steps + 1) p).filter fun t => decide (Passes k m t)) n user []
  have hseen : ((forEachLoop k (observed cb) (steps + 1) p n (user, [])).val m).2.2 =
      ((walk k m (steps + 1) p).filter fun t => decide (Passes k m t)).take
        ((stopIndex (fun t s => (cb t s).val m)
          ((walk k m (steps + 1) p).filter fun t => decide (Passes k m t)) user).getD
            ((walk k m (steps + 1) p).filter fun t => decide (Passes k m t)).length) := by
    rw [forEachLoop_val]
    exact congrArg (fun r => r.2.2) hrun
  rw [hseen]
  constructor
  · intro h
    obtain ⟨hmem, hpass⟩ := List.mem_filter.mp (List.mem_of_mem_take h)
    exact ⟨mem_turn hmem, of_decide_eq_true hpass⟩
  · rintro ⟨hok, hpass⟩
    rw [walk, if_pos hok, List.filter_cons, if_pos (decide_eq_true hpass), stopIndex]
    split
    · exact List.mem_cons_self
    · cases stopIndex (fun t s => (cb t s).val m) _ _ with
      | none => exact List.mem_cons_self
      | some i => exact List.mem_cons_self

/-- And a lookup of its id answers it. -/
theorem findTagLoop_turn (steps : Nat) :
    (findTagLoop k (tagId m (p + k.hhdmOffset)) (steps + 1) p).val m = some (p + k.hhdmOffset) ↔
      TagOk k m p ∧ Passes k m (p + k.hhdmOffset) := by
  rw [findTagLoop_val]
  constructor
  · intro h
    have hpass := List.find?_some h
    exact ⟨mem_turn (List.mem_of_find?_eq_some h), (of_decide_eq_true hpass).2⟩
  · rintro ⟨hok, hpass⟩
    rw [walk, if_pos hok, List.find?_cons_of_pos]
    exact decide_eq_true ⟨rfl, hpass⟩

/-- The C side of a blob that is mapped and not empty. -/
theorem kernelBlob_ok_iff {phys len crc : Nat} (hphys : phys ≠ 0) (hlen : len ≠ 0)
    (hbelow : phys + len ≤ 2 ^ 48) (hwrap : phys + k.hhdmOffset + len < 2 ^ 64) :
    (Kernel.verifyBlob (some k) phys len crc false).val m = .ok ↔
      len ≤ maxBlob ∧ crc ≠ 0 ∧ crc64 (m.bytes (phys + k.hhdmOffset) len) = crc := by
  by_cases hmax : len ≤ maxBlob
  · rw [verifyBlob_val m hphys hlen hmax hbelow hwrap]
    split
    next h => exact ⟨fun _ => ⟨hmax, h⟩, fun _ => rfl⟩
    next h => exact ⟨(fun hok => by cases hok), fun hok => absurd hok.2 h⟩
  · rw [Kernel.verifyBlob, if_neg (by omega), if_pos (by omega)]
    exact ⟨(fun hok => by cases hok), fun hok => absurd hok.1 hmax⟩

end Sides

/-- The C and the Rust validators of v1 agree: on a header, on INFO, on
the tag a walk stands at, on a blob. And no slice makes a Rust validator
panic. -/
theorem validators_agree :
    (∀ (m : Mem) (hdr n : Nat), hdr ≠ 0 →
      ((∃ r, HeaderRef.validate (m.bytes hdr n) = .ok r) ↔
        160 ≤ n ∧ (verifyHeader hdr).val m = .ok)) ∧
    (∀ (m : Mem) (info n hint lo hi : Nat) (out : Option Kctx), info ≠ 0 → out ≠ none →
      ((∃ r, InfoRef.validate (m.bytes info n) = .ok r) ↔
        144 ≤ n ∧ ((initWin out info hint lo hi).val m).1 = .ok)) ∧
    (∀ (m : Mem) (k : Kctx) (p : Nat), k.verifyTagCrc = true → k.walkHi ≤ 2 ^ 48 →
      k.walkHi + k.hhdmOffset < 2 ^ 64 → p ≠ 0 → p % 8 = 0 → k.walkLo ≤ p → p < k.walkHi →
      (∀ (σ : Type) (cb : TagCb σ) (steps n : Nat) (user : σ),
        p + k.hhdmOffset ∈ ((forEachLoop k (observed cb) (steps + 1) p n (user, [])).val m).2.2 ↔
          ∃ r, TagRef.validate (m.bytes (p + k.hhdmOffset) (k.walkHi - p)) = .ok r) ∧
      (∀ steps,
        (findTagLoop k (tagId m (p + k.hhdmOffset)) (steps + 1) p).val m =
            some (p + k.hhdmOffset) ↔
          ∃ r, TagRef.validate (m.bytes (p + k.hhdmOffset) (k.walkHi - p)) = .ok r) ∧
      ∀ r, TagRef.validate (m.bytes (p + k.hhdmOffset) (k.walkHi - p)) = .ok r →
        r.bytes = m.bytes (p + k.hhdmOffset) (tagSize m (p + k.hhdmOffset))) ∧
    (∀ (m : Mem) (k : Kctx) (phys len crc : Nat), phys ≠ 0 → len ≠ 0 → phys + len ≤ 2 ^ 48 →
      phys + k.hhdmOffset + len < 2 ^ 64 →
      ((∃ r, verifyBlob (m.bytes (phys + k.hhdmOffset) len) crc .requireChecksum = .ok r) ↔
        (Kernel.verifyBlob (some k) phys len crc false).val m = .ok)) ∧
    ∀ (input : List UInt8) (crc : Nat) (policy : BlobPolicy),
      HeaderRef.validate input ≠ .error .panic ∧ InfoRef.validate input ≠ .error .panic ∧
        TagRef.validate input ≠ .error .panic ∧ verifyBlob input crc policy ≠ .error .panic := by
  refine ⟨?_, ?_, ?_, ?_, ?_⟩
  · intro m hdr n hne
    rw [HeaderRef.validate_settles.ok_iff, verifyHeader_ok_iff]
    exact ⟨fun ⟨hlen, hok⟩ => ⟨hlen, hne, hok⟩, fun ⟨hlen, _, hok⟩ => ⟨hlen, hok⟩⟩
  · intro m info n hint lo hi out hne hout
    rw [InfoRef.validate_settles.ok_iff, initWin_ok_iff]
    exact ⟨fun ⟨hlen, hok⟩ => ⟨hlen, hout, hne, hok⟩, fun ⟨hlen, _, _, hok⟩ => ⟨hlen, hok⟩⟩
  · intro m k p hverify hhigh hwrap hp haligned hlo hhi
    have hfits := tagFits_iff (m := m) hverify hhigh hwrap hp haligned hlo hhi
    refine ⟨?_, ?_, ?_⟩
    · intro σ cb steps n user
      rw [forEachLoop_turn, TagRef.validate_settles.ok_iff, hfits]
    · intro steps
      rw [findTagLoop_turn, TagRef.validate_settles.ok_iff, hfits]
    · intro r hr
      exact TagRef.validate_settles.post hr
  · intro m k phys len crc hphys hlen hbelow hwrap
    have hnonempty : m.bytes (phys + k.hhdmOffset) len ≠ [] := by
      intro hnil
      have hzero := congrArg List.length hnil
      rw [m.bytes_length] at hzero
      exact hlen hzero
    rw [(verifyBlob_settles _ _ _).ok_iff, m.bytes_length,
      kernelBlob_ok_iff hphys hlen hbelow hwrap]
    by_cases hcrc : crc = 0
    · rw [if_pos hcrc]
      exact ⟨(fun h => by cases h.2.2), fun h => absurd hcrc h.2.1⟩
    · rw [if_neg hcrc]
      exact ⟨fun h => ⟨h.2.1, hcrc, h.2.2⟩, fun h => ⟨hnonempty, h.1, h.2.2⟩⟩
  · intro input crc policy
    have hinput : input = (Mem.ofList input).bytes 0 input.length := by
      rw [Mem.bytes_ofList_drop (by omega), List.drop_zero, List.take_length]
    refine ⟨?_, ?_, ?_, ?_⟩
    · intro h
      rw [hinput] at h
      exact HeaderRef.validate_settles.not_fault h rfl
    · intro h
      rw [hinput] at h
      exact InfoRef.validate_settles.not_fault h rfl
    · intro h
      rw [hinput] at h
      exact TagRef.validate_settles.not_fault h rfl
    · intro h
      exact (verifyBlob_settles input crc policy).not_fault h rfl

/-- A header, INFO and an HHDM tag, behind the offset 0x10000. -/
def sampleRegion : Mem :=
  let header := [0x4f4f425f52414542, 0x54, 0xa000010001] ++ List.replicate 16 0 ++ [0xeb46632b4840ad65]
  let info := [0x464e495f52414542, 0x4f, 0x9000010001] ++ List.replicate 11 0 ++
    [0x100000000, 0x2000, 0, 0x5d6dde9de93b68d6]
  let tag := [0x0002000000000002, 0x100000028, 0, 0x7849f179029f180e, 0]
  ((Mem.zeros.putWords 0x10000 header).putWords 0x11000 info).putWords 0x12000 tag

/-- Both sides accept all three and the tag's bytes as a blob, and neither
takes the tag in a window that ends one byte early. -/
theorem validators_agree_sample :
    (∃ r, HeaderRef.validate (sampleRegion.bytes 0x10000 160) = .ok r) ∧
    (∃ r, InfoRef.validate (sampleRegion.bytes 0x11000 144) = .ok r) ∧
    (∃ r, TagRef.validate (sampleRegion.bytes 0x12000 0x100) = .ok r ∧
      r.bytes = sampleRegion.bytes 0x12000 40) ∧
    (¬ ∃ r, TagRef.validate (sampleRegion.bytes 0x12000 39) = .ok r) ∧
    ∃ r, verifyBlob (sampleRegion.bytes 0x12000 40) 0xa48f703789542615 .requireChecksum = .ok r := by
  obtain ⟨hheader, hinfo, htag, hblob, _⟩ := validators_agree
  have hwide := (htag sampleRegion ⟨0x11000, 0x10000, true, 0x2000, 0x2100⟩ 0x2000 rfl (by decide)
    (by decide) (by decide) (by decide) (by decide) (by decide)).2
  have hnarrow := (htag sampleRegion ⟨0x11000, 0x10000, true, 0x2000, 0x2027⟩ 0x2000 rfl (by decide)
    (by decide) (by decide) (by decide) (by decide) (by decide)).2
  obtain ⟨r, hr⟩ := (hwide.1 0).mp (by decide +kernel)
  refine ⟨(hheader _ 0x10000 160 (by decide)).mpr ⟨by decide, by decide +kernel⟩,
    (hinfo _ 0x11000 144 0x10000 0x2000 0x2100 (some ⟨0, 0, false, 0, 0⟩) (by decide) (by decide)).mpr
      ⟨by decide, by decide +kernel⟩, ⟨r, hr, hwide.2 r hr⟩,
    fun h => absurd ((hnarrow.1 0).mpr h) (by decide +kernel),
    (hblob _ ⟨0x11000, 0x10000, true, 0, 0⟩ 0x2000 40 _ (by decide) (by decide) (by decide)
      (by decide)).mpr (by decide +kernel)⟩

end BearBoot.Kernel.Rust
