import Mathlib.Data.Nat.Defs

/-! # Base types of the modelled UEFI code

    The two base types the modelled functions share: `CHAR16`, the UCS-2 code unit of every
    console string, and `EFI_STATUS`, the result code of every boot-service and protocol
    call.  `EFI_STATUS` keeps only the values the modelled code names or passes on. -/

namespace Base

/-- `CHAR16`: a UCS-2 code unit. -/
abbrev Char16 := UInt16

/-- A character literal such as `L','` as the `CHAR16` it denotes. -/
def toChar16 (c : Char) : Char16 := UInt16.ofNat c.toNat

/-- `EFI_STATUS`: success, the error codes the modelled code returns by name, and any
    other error a protocol may return.  Warnings are left out: no call whose status the
    modelled code tests (`CreateEvent`, `Transmit`, `Receive`) returns one. -/
inductive EfiStatus
  | efiSuccess
  | efiAborted
  | efiOutOfResources
  | efiAlreadyStarted
  | efiNotReady
  | other (code : Nat)
  deriving DecidableEq, Repr

open EfiStatus

/-- `EFI_ERROR (Status)`, the status's high bit: every modelled status but `EFI_SUCCESS` has
    it set. -/
def efiError : EfiStatus → Bool
  | efiSuccess => false
  | _ => true

@[simp] theorem efiError_iff (s : EfiStatus) : efiError s = true ↔ s ≠ efiSuccess := by
  cases s <;> simp [efiError]

end Base
