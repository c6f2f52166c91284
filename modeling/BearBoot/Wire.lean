import BearBoot.Machine.Traced
import BearBoot.Crc64

/-!
# The wire: fields, structures and what a reader does

The structures of `include/bbp/bbp.h` are packed and little-endian, so a
field is a load at a fixed offset. The accessors below carry the header's
names; the offsets are the ones its `_Static_assert`s pin. Sizes stand as
numerals: `struct bbp_info` is 144 bytes, a tag header 32, the HHDM tag 40;
the protocol version is 1.1.

`Event` is what the readers of this development log: the spans they read,
and, for the kernel's tag walk, the addresses it inspects, the
translations it performs and the tags it hands out. The last three touch
no memory. They are there so that "each walk inspects at most 1024 tags"
and "every delivered tag" are statements about the log.
-/

namespace BearBoot

open Machine

/-! ## Little-endian fields -/

def get16 (m : Mem) (p : Nat) : Nat := m.getLE p 2

def get32 (m : Mem) (p : Nat) : Nat := m.getLE p 4

def get64 (m : Mem) (p : Nat) : Nat := m.getLE p 8

def put16 (m : Mem) (p v : Nat) : Mem := m.putLE p v 2

def put32 (m : Mem) (p v : Nat) : Mem := m.putLE p v 4

def put64 (m : Mem) (p v : Nat) : Mem := m.putLE p v 8

theorem get16_lt (m : Mem) (p : Nat) : get16 m p < 2 ^ 16 := m.getLE_lt p 2

theorem get32_lt (m : Mem) (p : Nat) : get32 m p < 2 ^ 32 := m.getLE_lt p 4

theorem get64_lt (m : Mem) (p : Nat) : get64 m p < 2 ^ 64 := m.getLE_lt p 8

theorem get16_based (m : Mem) (p a : Nat) : get16 m (p + a) = get16 (m.based p) a :=
  (m.getLE_based p a 2).symm

theorem get32_based (m : Mem) (p a : Nat) : get32 m (p + a) = get32 (m.based p) a :=
  (m.getLE_based p a 4).symm

theorem get64_based (m : Mem) (p a : Nat) : get64 m (p + a) = get64 (m.based p) a :=
  (m.getLE_based p a 8).symm

/-! ## `struct bbp_info` -/

/-- `BBP_INFO_MAGIC`, zero-filled to `BBP_MAGIC_LEN`. -/
def infoMagic : List UInt8 :=
  [0x42, 0x45, 0x41, 0x52, 0x5f, 0x49, 0x4e, 0x46, 0x4f, 0, 0, 0, 0, 0, 0, 0]

/-- `BBP_HEADER_MAGIC`, in the sixteen bytes of its field. -/
def headerMagic : List UInt8 :=
  [0x42, 0x45, 0x41, 0x52, 0x5f, 0x42, 0x4f, 0x4f, 0x54, 0, 0, 0, 0, 0, 0, 0]

def infoTagCount (m : Mem) (info : Nat) : Nat := get32 m (info + 116)

def infoFirstTag (m : Mem) (info : Nat) : Nat := get64 m (info + 120)

/-! ## `struct bbp_tag_header` -/

def tagId (m : Mem) (tag : Nat) : Nat := get64 m tag

def tagSize (m : Mem) (tag : Nat) : Nat := get32 m (tag + 8)

def tagVersion (m : Mem) (tag : Nat) : Nat := get16 m (tag + 12)

def tagFlags (m : Mem) (tag : Nat) : Nat := get16 m (tag + 14)

def tagNext (m : Mem) (tag : Nat) : Nat := get64 m (tag + 16)

def tagChecksum (m : Mem) (tag : Nat) : Nat := get64 m (tag + 24)

def tagIdOf (cat id : Nat) : Nat := cat <<< 48 ||| id

def tagHhdm : Nat := tagIdOf 0x0002 0x0002

/-! ## What a reader does -/

/-- An event of a reader. -/
inductive Event where
  /-- `len` bytes read at `addr`. -/
  | read (addr len : Nat)
  /-- The walk looked at the physical tag pointer `phys`. -/
  | inspect (phys : Nat)
  /-- The walk translated `phys` to `virt`. -/
  | translate (phys virt : Nat)
  /-- The tag at `tag` was handed to a callback. -/
  | deliver (tag : Nat)
  deriving DecidableEq, Repr

def Event.isInspect : Event → Bool
  | .inspect _ => true
  | _ => false

/-- Read a little-endian field of `w` bytes. -/
def loadLE (p w : Nat) : Traced Event Nat := Traced.look (.read p w) fun m => m.getLE p w

def load16 (p : Nat) : Traced Event Nat := loadLE p 2

def load32 (p : Nat) : Traced Event Nat := loadLE p 4

def load64 (p : Nat) : Traced Event Nat := loadLE p 8

def loadBytes (p n : Nat) : Traced Event (List UInt8) :=
  Traced.look (.read p n) fun m => m.bytes p n

@[simp] theorem load16_val (p : Nat) (m : Mem) : (load16 p).val m = get16 m p := (rfl)

@[simp] theorem load32_val (p : Nat) (m : Mem) : (load32 p).val m = get32 m p := (rfl)

@[simp] theorem load64_val (p : Nat) (m : Mem) : (load64 p).val m = get64 m p := (rfl)

@[simp] theorem loadBytes_val (p n : Nat) (m : Mem) : (loadBytes p n).val m = m.bytes p n := (rfl)

/-- The spliced CRC read from memory: the front, then the back. -/
def loadCrcSpliced (base len off : Nat) : Traced Event Nat := do
  let front ← loadBytes base off
  let back ← loadBytes (base + off + 8) (len - off - 8)
  pure (crc64Final (crc64Update (crc64Update (crc64Update crc64Init front)
    (List.replicate 8 0)) back)).toNat

@[simp] theorem loadCrcSpliced_val (base len off : Nat) (m : Mem) :
    (loadCrcSpliced base len off).val m = crcSpliced m base len off := (rfl)

end BearBoot
