import BearBoot.Machine.Settle

/-!
# Byte slices that panic

In a safe language an access outside a slice stops the program. A slice is
a byte list here, an access answers in `Except`, and the outcome of an
access outside is a value `panic` of the error type, told apart from the
errors a program returns on purpose by that type alone.

Inside its slice an access is a read of the memory the list is
(`slice_ok`, `readLe_ok`), so that a program with its bounds established
is reasoned about as one that reads memory.
-/

set_option autoImplicit false

namespace Machine

section Slices

variable {ε : Type} (panic : ε) (bytes : List UInt8)

/-- `bytes[i]`. -/
def sliceIndex (i : Nat) : Except ε UInt8 :=
  match bytes[i]? with
  | some b => pure b
  | none => .error panic

/-- `bytes[lo..hi]`. -/
def slice (lo hi : Nat) : Except ε (List UInt8) :=
  if lo ≤ hi ∧ hi ≤ bytes.length then pure ((bytes.drop lo).take (hi - lo)) else .error panic

/-- `from_le_bytes` of the `w` bytes at `offset`. -/
def readLe (offset : Nat) : (w : Nat) → Except ε Nat
  | 0 => pure 0
  | w + 1 => do
    let low ← readLe offset w
    let b ← sliceIndex panic bytes (offset + w)
    pure (low ||| b.toNat <<< (8 * w))

variable {panic bytes}

theorem slice_ok {lo hi : Nat} (hle : lo ≤ hi) (hin : hi ≤ bytes.length) :
    slice panic bytes lo hi = .ok ((Mem.ofList bytes).bytes lo (hi - lo)) := by
  rw [slice, if_pos ⟨hle, hin⟩, Mem.bytes_ofList_drop (by omega)]
  rfl

theorem readLe_ok {o w : Nat} (h : o + w ≤ bytes.length) :
    readLe panic bytes o w = .ok ((Mem.ofList bytes).getLE o w) := by
  induction w with
  | zero => rfl
  | succ w ih =>
    have hget : bytes[o + w]? = some (Mem.ofList bytes (o + w)) := by
      simp [Mem.ofList, show o + w < bytes.length by omega]
    rw [readLe, ih (by omega), sliceIndex, hget]
    rfl

end Slices

end Machine
