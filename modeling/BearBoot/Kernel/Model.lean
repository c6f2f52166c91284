import BearBoot.Wire

/-!
# The kernel-side parser, as `kernel/bbp_kernel.c` computes it

Every function of the parser that the handoff path uses, under its own
name. Pointers are natural numbers and `0` is `NULL`; machine arithmetic
is arithmetic on naturals with `% 2 ^ 64` where the C can wrap, and a C
subtraction is written `-` only where the source has just excluded the
underflow. An out-parameter is its old contents as an `Option`: `none` is
a `NULL` pointer, and the answer is the new contents.

Readers are `Traced`: they answer what the C returns, and log every byte
they read. A loop `while (cur && steps++ < BBP_MAX_TAGS)` recurses on the
number of steps left.
-/

namespace BearBoot.Kernel

open Machine

/-- `bbp_status_t`. -/
inductive Status where
  | ok
  | errNull
  | errMagic
  | errVersion
  | errSize
  | errChecksum
  | errTagChecksum
  deriving DecidableEq, Repr

/-- `struct bbp_kctx`. -/
structure Kctx where
  info : Nat
  hhdmOffset : Nat
  verifyTagCrc : Bool
  walkLo : Nat
  walkHi : Nat
  deriving DecidableEq, Repr

/-- `BBP_MAX_TAGS`. -/
def maxTags : Nat := 1024

/-- `BBP_MAX_PHYS`. -/
def maxPhys : Nat := 2 ^ 48

/-- `(uintptr_t)-1`. -/
def uintptrMax : Nat := 2 ^ 64 - 1

/-- `bbp_crc_skip`: a length that does not reach past the field answers a
sentinel. -/
def crcSkip (base len off : Nat) : Traced Event Nat :=
  if len < off + 8 then pure (2 ^ 64 - 1) else loadCrcSpliced base len off

/-- `bbp_tag_len_ok`, on the size just read. -/
def tagLenOk (size : Nat) : Bool := 32 ≤ size && size ≤ 16 * 1024 * 1024

def tagPtrOk (p : Nat) : Bool := p != 0 && p &&& 7 == 0

def addressRegionOk (k : Kctx) (phys len : Nat) : Bool :=
  if phys = 0 ∨ len = 0 then false
  else if maxPhys < len then false
  else if maxPhys - len < phys then false
  else if uintptrMax - k.hhdmOffset < phys then false
  else if uintptrMax - len < (phys + k.hhdmOffset) % 2 ^ 64 then false
  else true

def tagRegionOk (k : Kctx) (phys len : Nat) : Bool :=
  if !addressRegionOk k phys len then false
  else if k.walkLo < k.walkHi then
    if phys < k.walkLo ∨ k.walkHi ≤ phys then false
    else if k.walkHi - phys < len then false
    else true
  else true

/-- `bbp_phys_to_virt`, without its log. -/
def virtOf (k : Kctx) (p : Nat) : Nat := if p = 0 then 0 else (p + k.hhdmOffset) % 2 ^ 64

def physToVirt (k : Kctx) (p : Nat) : Traced Event Nat := do
  Traced.emit (.translate p (virtOf k p))
  pure (virtOf k p)

/-- `bbp_tag_at`: the tag's virtual address, or `none` to stop the walk. -/
def tagAt (k : Kctx) (cur : Nat) : Traced Event (Option Nat) := do
  Traced.emit (.inspect cur)
  if !tagPtrOk cur then pure none
  else if !tagRegionOk k cur 32 then pure none
  else do
    let tag ← physToVirt k cur
    let size ← load32 (tag + 8)
    if !tagLenOk size then pure none
    else if !tagRegionOk k cur size then pure none
    else pure (some tag)

def tagCrcOk (tag : Nat) : Traced Event Bool := do
  let size ← load32 (tag + 8)
  let got ← crcSkip tag size 24
  let want ← load64 (tag + 24)
  pure (got == want)

/-- The gate of both loops: `!(k->verify_tag_crc && !bbp_tag_crc_ok(tag))`. -/
def crcGate (k : Kctx) (tag : Nat) : Traced Event Bool :=
  if k.verifyTagCrc then tagCrcOk tag else pure true

/-- The loop of `bbp_find_tag`, with `steps` turns left. -/
def findTagLoop (k : Kctx) (id : Nat) : (steps cur : Nat) → Traced Event (Option Nat)
  | 0, _ => pure none
  | steps + 1, cur =>
    if cur = 0 then pure none
    else do
      match ← tagAt k cur with
      | none => pure none
      | some tag =>
        let tid ← load64 tag
        if tid = id then
          let good ← crcGate k tag
          if good then pure (some tag)
          else do
            let next ← load64 (tag + 16)
            findTagLoop k id steps next
        else do
          let next ← load64 (tag + 16)
          findTagLoop k id steps next

/-- `bbp_find_tag`: the tag's virtual address, `none` for `NULL`. -/
def findTag (k : Option Kctx) (id : Nat) : Traced Event (Option Nat) :=
  match k with
  | none => pure none
  | some k =>
    if k.info = 0 then pure none
    else do
      let cur ← load64 (k.info + 120)
      findTagLoop k id maxTags cur

/-- A tag callback: it sees the tag's address and its own state, and
answers whether to stop. -/
abbrev TagCb (σ : Type) : Type := Nat → σ → Traced Event (Bool × σ)

/-- The loop of `bbp_for_each_tag`, with `steps` turns left and `n` tags
delivered. -/
def forEachLoop {σ : Type} (k : Kctx) (cb : TagCb σ) :
    (steps cur n : Nat) → σ → Traced Event (Nat × σ)
  | 0, _, n, user => pure (n, user)
  | steps + 1, cur, n, user =>
    if cur = 0 then pure (n, user)
    else do
      match ← tagAt k cur with
      | none => pure (n, user)
      | some tag =>
        let good ← crcGate k tag
        if !good then do
          let next ← load64 (tag + 16)
          forEachLoop k cb steps next n user
        else do
          Traced.emit (.deliver tag)
          let (stop, user) ← cb tag user
          if stop then pure (n + 1, user)
          else do
            let next ← load64 (tag + 16)
            forEachLoop k cb steps next (n + 1) user

/-- `bbp_for_each_tag`: the number of tags delivered and the callback's
last state. -/
def forEachTag {σ : Type} (k : Option Kctx) (cb : Option (TagCb σ)) (user : σ) :
    Traced Event (Nat × σ) :=
  match k, cb with
  | some k, some cb =>
    if k.info = 0 then pure (0, user)
    else do
      let cur ← load64 (k.info + 120)
      forEachLoop k cb maxTags cur 0 user
  | _, _ => pure (0, user)

/-- The domain separator of `bbp_evidence`. -/
def evidenceDomain : List UInt8 :=
  [0x42, 0x42, 0x50, 0x2d, 0x45, 0x56, 0x49, 0x44, 0x45, 0x4e, 0x43, 0x45, 0, 1, 0, 0]

/-- `bbp_evidence_cb`: feed the tag's bytes and go on. -/
def evidenceCb {σ : Type} (update : σ → List UInt8 → σ) : TagCb σ := fun tag state => do
  let size ← load32 (tag + 8)
  let data ← loadBytes tag size
  pure (false, update state data)

/-- `bbp_evidence`: the number of tags fed and the hash state. -/
def evidence {σ : Type} (k : Option Kctx) (update : Option (σ → List UInt8 → σ)) (state : σ) :
    Traced Event (Nat × σ) :=
  match k, update with
  | some k, some update =>
    if k.info = 0 then pure (0, state)
    else do
      let info ← loadBytes k.info 144
      forEachTag (some k) (some (evidenceCb update)) (update (update state evidenceDomain) info)
  | _, _ => pure (0, state)

/-- `bbp_verify_header`. -/
def verifyHeader (hdr : Nat) : Traced Event Status :=
  if hdr = 0 then pure .errNull
  else do
    let magic ← loadBytes hdr 16
    if magic ≠ headerMagic then pure .errMagic
    else do
      let major ← load16 (hdr + 16)
      if major ≠ 1 then pure .errVersion
      else do
        let size ← load32 (hdr + 20)
        if size ≠ 160 then pure .errSize
        else do
          let got ← crcSkip hdr 160 152
          let want ← load64 (hdr + 152)
          if got ≠ want then pure .errChecksum
          else pure .ok

/-- `bbp_init_win`: the status and the contents of `*out`. -/
def initWin (out : Option Kctx) (info hhdmHint walkLo walkHi : Nat) :
    Traced Event (Status × Option Kctx) :=
  if out = none ∨ info = 0 then pure (.errNull, out)
  else do
    let k : Kctx := ⟨info, hhdmHint, true, walkLo, walkHi⟩
    let magic ← loadBytes info 16
    if magic ≠ infoMagic then pure (.errMagic, some k)
    else do
      let major ← load16 (info + 16)
      if major ≠ 1 then pure (.errVersion, some k)
      else do
        let size ← load32 (info + 20)
        if size < 144 ∨ 64 * 1024 * 1024 < size then pure (.errSize, some k)
        else do
          let want ← load64 (info + 136)
          let got ← crcSkip info 144 136
          if want ≠ got then pure (.errChecksum, some k)
          else do
            match ← findTag (some k) tagHhdm with
            | none => pure (.ok, some k)
            | some t =>
              if hhdmHint = 0 then do
                let tsize ← load32 (t + 8)
                if 40 ≤ tsize then do
                  let offset ← load64 (t + 32)
                  pure (.ok, some { k with hhdmOffset := offset })
                else pure (.ok, some k)
              else pure (.ok, some k)

/-- `bbp_init_ex`. -/
def initEx (out : Option Kctx) (info hhdmHint : Nat) : Traced Event (Status × Option Kctx) :=
  initWin out info hhdmHint 0 0

/-- `bbp_init_bounded`: `*out` is written only on success. -/
def initBounded (out : Option Kctx) (info hhdmHint arenaPhys arenaBytes : Nat) :
    Traced Event (Status × Option Kctx) :=
  if out = none ∨ info = 0 then pure (.errNull, out)
  else if arenaPhys = 0 ∨ arenaBytes = 0 then pure (.errSize, out)
  else if maxPhys < arenaBytes then pure (.errSize, out)
  else if maxPhys - arenaBytes < arenaPhys then pure (.errSize, out)
  else do
    -- `candidate` starts uninitialised; `initWin` overwrites every field it publishes
    let (st, candidate) ← initWin (some ⟨0, 0, false, 0, 0⟩) info hhdmHint arenaPhys
      ((arenaPhys + arenaBytes) % 2 ^ 64)
    if st = .ok then pure (st, candidate) else pure (st, out)

/-- `BBP_MAX_BLOB`. -/
def maxBlob : Nat := 64 * 1024 * 1024

/-- `bbp_verify_blob`. -/
def verifyBlob (k : Option Kctx) (phys len expectedCrc : Nat) (allowUnchecked : Bool) :
    Traced Event Status :=
  match k with
  | none => pure .errNull
  | some k =>
    if phys = 0 ∨ len = 0 then pure .errNull
    else if maxBlob < len then pure .errSize
    else if !addressRegionOk k phys len then pure .errSize
    else if expectedCrc = 0 then pure (if allowUnchecked then .ok else .errTagChecksum)
    else do
      let p ← physToVirt k phys
      let data ← loadBytes p len
      pure (if crc64 data = expectedCrc then .ok else .errTagChecksum)

end BearBoot.Kernel
