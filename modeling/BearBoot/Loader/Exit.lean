import Mathlib.Algebra.Group.Nat.Defs
import BearBoot.Machine.Run

/-!
# Leaving the firmware

`bbp_uefi_exit_boot_services` of `bootloader/uefi/uefi_exit.c`. The firmware
lets go of the machine only for a caller that shows the key of its current
memory map, and everything that allocates or frees changes the map. So the
loader asks for the size, allocates a buffer, asks for the map and exits
with the key that came with it; when the key has gone stale in between it
tries again, at most eight times.

The firmware is whatever it answers. An operation is a function of the calls
made so far and of its own arguments, so statuses, sizes, keys and addresses
come in any order, a size may shrink or not fit a word, and an allocator may
hand out an address again. Every call is written down with its answer
(`FirmwareCall`): what is said about the loop is said about that list.
-/

set_option autoImplicit false

namespace BearBoot.Loader

open Machine

/-- `bbp_uefi_firmware_status`. -/
inductive FirmwareStatus where
  | success
  | bufferTooSmall
  | invalidParameter
  | error
  deriving DecidableEq, Repr

/-- What `get_memory_map` leaves: its status, and the contents of its four
out-parameters. -/
structure MapAnswer where
  status : FirmwareStatus
  mapSize : Nat
  mapKey : Nat
  descriptorSize : Nat
  descriptorVersion : Nat
  deriving DecidableEq, Repr

/-- A call of the firmware, and its answer. -/
inductive FirmwareCall where
  | getMemoryMap (memoryMap mapSize : Nat) (answer : MapAnswer)
  | exitBootServices (imageHandle mapKey : Nat) (status : FirmwareStatus)
  | allocate (size address : Nat)
  | free (address : Nat)
  deriving DecidableEq, Repr

/-- The operations behind `struct bbp_uefi_exit_ops`. -/
structure Firmware where
  getMemoryMap : List FirmwareCall → (memoryMap mapSize : Nat) → MapAnswer
  exitBootServices : List FirmwareCall → (imageHandle mapKey : Nat) → FirmwareStatus
  allocate : List FirmwareCall → (size : Nat) → Nat

/-- `struct bbp_uefi_exit_ops`: which of the four function pointers are set,
and what stands behind them. -/
structure ExitOps extends Firmware where
  hasGetMemoryMap : Bool
  hasExitBootServices : Bool
  hasAllocate : Bool
  hasFree : Bool

/-- `bbp_uefi_exit_status`. -/
inductive ExitStatus where
  | ok
  | errArgument
  | errProbe
  | errOverflow
  | errAllocation
  | errMemoryMap
  | errExitBootServices
  | errRetryLimit
  deriving DecidableEq, Repr

/-- `struct bbp_uefi_exit_result`. -/
structure ExitResult where
  memoryMap : Nat
  memoryMapSize : Nat
  memoryMapCapacity : Nat
  mapKey : Nat
  descriptorSize : Nat
  descriptorVersion : Nat
  memoryMapFinal : Nat
  deriving DecidableEq, Repr

/-- `(size_t)-1`. -/
def sizeMax : Nat := 2 ^ 64 - 1

/-- `BBP_UEFI_EXIT_DESCRIPTOR_SLACK`. -/
def descriptorSlack : Nat := 8

/-- `BBP_UEFI_EXIT_MAX_ATTEMPTS`. -/
def maxAttempts : Nat := 8

/-- `map_capacity`. -/
def mapCapacity (required descriptorSize : Nat) : Option Nat :=
  if descriptorSize = 0 ∨ sizeMax / descriptorSlack < descriptorSize then none
  else if sizeMax - descriptorSize * descriptorSlack < required then none
  else some (required + descriptorSize * descriptorSlack)

/-- What a run answers: the status, what it stores to `*result`, and the calls
it has made. -/
abbrev ExitRun := ExitStatus × Option ExitResult × List FirmwareCall

/-- The loop, with `attempts` turns left. -/
def exitLoop (fw : Firmware) (imageHandle : Nat) :
    (attempts memoryMap capacity : Nat) → List FirmwareCall → ExitRun
  | 0, memoryMap, _, calls => (.errRetryLimit, none, calls ++ [.free memoryMap])
  | attempts + 1, memoryMap, capacity, calls =>
    let answer := fw.getMemoryMap calls memoryMap capacity
    let calls := calls ++ [.getMemoryMap memoryMap capacity answer]
    if answer.status = .bufferTooSmall then
      match mapCapacity answer.mapSize answer.descriptorSize with
      | none => (.errOverflow, none, calls ++ [.free memoryMap])
      | some larger =>
        let calls := calls ++ [.free memoryMap]
        let replacement := fw.allocate calls larger
        let calls := calls ++ [.allocate larger replacement]
        if replacement = 0 then (.errAllocation, none, calls)
        else exitLoop fw imageHandle attempts replacement larger calls
    else if answer.status ≠ .success ∨ answer.descriptorSize = 0 ∨ capacity < answer.mapSize then
      (.errMemoryMap, none, calls ++ [.free memoryMap])
    else
      let status := fw.exitBootServices calls imageHandle answer.mapKey
      let calls := calls ++ [.exitBootServices imageHandle answer.mapKey status]
      if status = .success then
        (.ok, some ⟨memoryMap, answer.mapSize, capacity, answer.mapKey, answer.descriptorSize,
          answer.descriptorVersion, 1⟩, calls)
      else if status ≠ .invalidParameter then (.errExitBootServices, none, calls ++ [.free memoryMap])
      else exitLoop fw imageHandle attempts memoryMap capacity calls

/-- The function past its argument checks. -/
def exitRun (fw : Firmware) (imageHandle : Nat) : ExitRun :=
  let answer := fw.getMemoryMap [] 0 0
  let calls := [.getMemoryMap 0 0 answer]
  if answer.status ≠ .bufferTooSmall then (.errProbe, none, calls)
  else
    match mapCapacity answer.mapSize answer.descriptorSize with
    | none => (.errOverflow, none, calls)
    | some capacity =>
      let memoryMap := fw.allocate calls capacity
      let calls := calls ++ [.allocate capacity memoryMap]
      if memoryMap = 0 then (.errAllocation, none, calls)
      else exitLoop fw imageHandle maxAttempts memoryMap capacity calls

/-- `bbp_uefi_exit_boot_services`: the status, the contents of `*result` and
the calls. A null pointer is `none`. -/
def exitBootServices (ops : Option ExitOps) (imageHandle : Nat) (result : Option ExitResult) : ExitRun :=
  match ops, result with
  | some ops, some old =>
    if ops.hasGetMemoryMap && ops.hasExitBootServices && ops.hasAllocate && ops.hasFree then
      let (status, written, calls) := exitRun ops.toFirmware imageHandle
      (status, some (written.getD old), calls)
    else (.errArgument, some old, [])
  | _, _ => (.errArgument, result, [])

end BearBoot.Loader
