import Mathlib.Algebra.Group.Nat.Defs
import Mathlib.Logic.Function.Iterate

/-!
# SHA-256, as `tcg2/bbp_uefi_tcg2.c` computes it

The firmware side has a SHA-256 of its own, with which it recomputes what a
TPM has done to a register: `bbp_tcg2_sha256_extend` is the extend of a
PCR, the hash of the old value and the digest one behind the other.

A context holds the chaining words, the message length in bits and the
bytes of a block that is not full yet. The C buffer has 64 bytes and a
fill; what is behind the fill is never read, so the buffer is the list of
the bytes that are in it, and the context carries that it is not full.
Words are 32 bits and wrap, the length is 64 bits and wraps.

A message is the list of its bytes. The tests for `NULL` have nothing to
do here; the one for a message whose length in bits does not fit is in
`tcg2Sha256`.
-/

set_option autoImplicit false

namespace BearBoot.Tcg2

/-- The 32 bytes of a digest or of a PCR. -/
abbrev Digest := { bs : List UInt8 // bs.length = 32 }

/-- `read_be32`, of the four bytes at an offset. -/
def readBe32 (block : List UInt8) (o : Nat) : UInt32 :=
  ((block.getD o 0).toUInt32 <<< 24) ||| ((block.getD (o + 1) 0).toUInt32 <<< 16) |||
    ((block.getD (o + 2) 0).toUInt32 <<< 8) ||| (block.getD (o + 3) 0).toUInt32

/-- `write_be32`. -/
def writeBe32 (value : UInt32) : List UInt8 :=
  [(value >>> 24).toUInt8, (value >>> 16).toUInt8, (value >>> 8).toUInt8, value.toUInt8]

def rotateRight (value bits : UInt32) : UInt32 := (value >>> bits) ||| (value <<< (32 - bits))

/-- The `constants` of `sha256_transform`. -/
def constants : List UInt32 :=
  [0x428a2f98, 0x71374491, 0xb5c0fbcf, 0xe9b5dba5, 0x3956c25b, 0x59f111f1, 0x923f82a4, 0xab1c5ed5,
   0xd807aa98, 0x12835b01, 0x243185be, 0x550c7dc3, 0x72be5d74, 0x80deb1fe, 0x9bdc06a7, 0xc19bf174,
   0xe49b69c1, 0xefbe4786, 0x0fc19dc6, 0x240ca1cc, 0x2de92c6f, 0x4a7484aa, 0x5cb0a9dc, 0x76f988da,
   0x983e5152, 0xa831c66d, 0xb00327c8, 0xbf597fc7, 0xc6e00bf3, 0xd5a79147, 0x06ca6351, 0x14292967,
   0x27b70a85, 0x2e1b2138, 0x4d2c6dfc, 0x53380d13, 0x650a7354, 0x766a0abb, 0x81c2c92e, 0x92722c85,
   0xa2bfe8a1, 0xa81a664b, 0xc24b8b70, 0xc76c51a3, 0xd192e819, 0xd6990624, 0xf40e3585, 0x106aa070,
   0x19a4c116, 0x1e376c08, 0x2748774c, 0x34b0bcb5, 0x391c0cb3, 0x4ed8aa4a, 0x5b9cca4f, 0x682e6ff3,
   0x748f82ee, 0x78a5636f, 0x84c87814, 0x8cc70208, 0x90befffa, 0xa4506ceb, 0xbef9a3f7, 0xc67178f2]

/-- The eight words of a state, under the names the rounds have for them. -/
structure Words where
  a : UInt32
  b : UInt32
  c : UInt32
  d : UInt32
  e : UInt32
  f : UInt32
  g : UInt32
  h : UInt32
  deriving DecidableEq, Repr

def Words.toList (s : Words) : List UInt32 := [s.a, s.b, s.c, s.d, s.e, s.f, s.g, s.h]

/-- One turn of the second loop of `sha256_transform`: the next word of
the schedule, behind the words there are. -/
def scheduleStep (words : List UInt32) : List UInt32 :=
  let i := words.length
  let x := words.getD (i - 15) 0
  let y := words.getD (i - 2) 0
  let s0 := rotateRight x 7 ^^^ rotateRight x 18 ^^^ (x >>> 3)
  let s1 := rotateRight y 17 ^^^ rotateRight y 19 ^^^ (y >>> 10)
  words ++ [words.getD (i - 16) 0 + s0 + words.getD (i - 7) 0 + s1]

/-- The `words` of a block. -/
def schedule (block : List UInt8) : List UInt32 :=
  scheduleStep^[48] ((List.range 16).map fun i => readBe32 block (i * 4))

/-- One turn of the third loop. -/
def transformRound (s : Words) (constant word : UInt32) : Words :=
  let sum1 := rotateRight s.e 6 ^^^ rotateRight s.e 11 ^^^ rotateRight s.e 25
  let choice := (s.e &&& s.f) ^^^ (~~~s.e &&& s.g)
  let temp1 := s.h + sum1 + choice + constant + word
  let sum0 := rotateRight s.a 2 ^^^ rotateRight s.a 13 ^^^ rotateRight s.a 22
  let majority := (s.a &&& s.b) ^^^ (s.a &&& s.c) ^^^ (s.b &&& s.c)
  let temp2 := sum0 + majority
  ⟨temp1 + temp2, s.a, s.b, s.c, s.d + temp1, s.e, s.f, s.g⟩

/-- `sha256_transform`. -/
def sha256Transform (s : Words) (block : List UInt8) : Words :=
  let r := (constants.zip (schedule block)).foldl (fun s kw => transformRound s kw.1 kw.2) s
  ⟨s.a + r.a, s.b + r.b, s.c + r.c, s.d + r.d, s.e + r.e, s.f + r.f, s.g + r.g, s.h + r.h⟩

/-- `struct sha256_context` between calls: `block` is what has been put
into the buffer, and the buffer is never left full. -/
structure Sha256Context where
  state : Words
  bitCount : UInt64
  block : List UInt8
  room : block.length < 64

/-- `sha256_init`. -/
def sha256Init : Sha256Context where
  state := ⟨0x6a09e667, 0xbb67ae85, 0x3c6ef372, 0xa54ff53a,
    0x510e527f, 0x9b05688c, 0x1f83d9ab, 0x5be0cd19⟩
  bitCount := 0
  block := []
  room := by decide

/-- The loop of `sha256_update`. Each turn takes what the buffer has room
for, which is at least one byte. -/
def updateLoop (c : Sha256Context) (data : List UInt8) : Sha256Context :=
  if hdata : data.length = 0 then c
  else
    let take := min data.length (64 - c.block.length)
    let block := c.block ++ data.take take
    if hfull : block.length = 64 then
      updateLoop ⟨sha256Transform c.state block, c.bitCount, [], by decide⟩ (data.drop take)
    else
      updateLoop ⟨c.state, c.bitCount, block, by
        have hroom := c.room
        simp only [block, take, List.length_append, List.length_take] at hfull ⊢
        omega⟩ (data.drop take)
termination_by data.length
decreasing_by
  all_goals
    have hroom := c.room
    simp only [List.length_drop]
    omega

/-- `sha256_update`. -/
def sha256Update (c : Sha256Context) (data : List UInt8) : Sha256Context :=
  updateLoop { c with bitCount := c.bitCount + UInt64.ofNat data.length * 8 } data

/-- The first half of `sha256_final`: the end mark, and a block of its own
for it where the length does not fit behind. -/
def finalMark (c : Sha256Context) : Words × List UInt8 :=
  let block := c.block ++ [0x80]
  if 56 < block.length then
    (sha256Transform c.state (block ++ List.replicate (64 - block.length) 0), [])
  else (c.state, block)

/-- The eight bytes of the length, the high one first. -/
def lengthBytes (bits : UInt64) : List UInt8 :=
  (List.range 8).map fun i => (bits >>> UInt64.ofNat (56 - i * 8)).toUInt8

/-- `sha256_final`. -/
def sha256Final (c : Sha256Context) : Digest :=
  let (state, block) := finalMark c
  let block := block ++ List.replicate (56 - block.length) 0 ++ lengthBytes c.bitCount
  ⟨(sha256Transform state block).toList.flatMap writeBe32, rfl⟩

/-- The three calls on a whole message. -/
def sha256Of (data : List UInt8) : Digest := sha256Final (sha256Update sha256Init data)

/-- The bytes of a digest. -/
def sha256Bytes (data : List UInt8) : List UInt8 := (sha256Of data).1

theorem sha256Bytes_length (data : List UInt8) : (sha256Bytes data).length = 32 := (sha256Of data).2

/-- `bbp_tcg2_sha256`, `none` for `-1`. -/
def tcg2Sha256 (data : List UInt8) : Option Digest :=
  if 2 ^ 61 - 1 < data.length then none else some (sha256Of data)

theorem tcg2Sha256_isSome {data : List UInt8} (h : data.length < 2 ^ 61) :
    (tcg2Sha256 data).isSome := by
  rw [tcg2Sha256, if_neg (by omega)]
  rfl

/-- The digest of the three bytes `abc`. -/
example : (tcg2Sha256 [0x61, 0x62, 0x63]).map Subtype.val =
    some [0xba, 0x78, 0x16, 0xbf, 0x8f, 0x01, 0xcf, 0xea, 0x41, 0x41, 0x40, 0xde, 0x5d, 0xae, 0x22, 0x23,
      0xb0, 0x03, 0x61, 0xa3, 0x96, 0x17, 0x7a, 0x9c, 0xb4, 0x10, 0xff, 0x61, 0xf2, 0x00, 0x15, 0xad] := by
  decide +kernel

/-- `bbp_tcg2_sha256_extend`. It does not look at what the hash answers:
sixty-four bytes are never too many. -/
def tcg2Sha256Extend (before digest : Digest) : Digest :=
  (tcg2Sha256 (before.1 ++ digest.1)).get
    (tcg2Sha256_isSome (by rw [List.length_append, before.2, digest.2]; decide))

end BearBoot.Tcg2
