import Jangri.Hal.Constants
import Mathlib.Tactic

/-! The requests and answers that pass through the communication page.

How Rust lays `SyscallInfo` out in memory is up to the compiler, so the layout is a parameter:
bytes written for a value read back as that value, and any bytes read back as some value. -/

namespace Jangri

inductive Syscall
  | wantMemory (size : Nat)
  | write (start len : Nat)
  | readChar
  | exit (status : Except Error Nat)
  | spawn (nameStart nameLen start len : Nat) (wait : Bool)
  | yield
  | shutdown
  deriving DecidableEq

inductive SyscallResult
  | wantMemory (result : Except Error (Nat × Nat))
  | write (result : Except Error Nat)
  | readChar (result : Except Error (Option Char))
  | exit
  | spawn (result : Except Error Nat)
  | yield
  | wait (result : Option (Except Error Nat))
  deriving DecidableEq

inductive SyscallInfo
  | syscall (request : Syscall)
  | syscallResult (result : SyscallResult)
  | empty
  deriving DecidableEq

namespace Error

def Fits : Error → Prop
  | pageAlreadyMapped va pt => va < usizeBound ∧ pt < usizeBound
  | noSuchVirtualAddress va pt => va < usizeBound ∧ pt < usizeBound
  | virtualAddressOverflow va => va < usizeBound
  | virtualAddressMisaligned va => va < usizeBound
  | sizeMisaligned size => size < usizeBound
  | _ => True

end Error

def resultFits {α : Type} (fits : α → Prop) : Except Error α → Prop
  | .ok a => fits a
  | .error e => e.Fits

def SyscallInfo.Fits : SyscallInfo → Prop
  | .syscall (.wantMemory size) => size < usizeBound
  | .syscall (.write start len) => start < usizeBound ∧ len < usizeBound
  | .syscall (.exit status) => resultFits (· < usizeBound) status
  | .syscall (.spawn nameStart nameLen start len _) =>
      nameStart < usizeBound ∧ nameLen < usizeBound ∧ start < usizeBound ∧ len < usizeBound
  | .syscallResult (.wantMemory result) =>
      resultFits (fun p => p.1 < usizeBound ∧ p.2 < usizeBound) result
  | .syscallResult (.write result) => resultFits (· < usizeBound) result
  | .syscallResult (.readChar result) => resultFits (fun _ => True) result
  | .syscallResult (.spawn result) => resultFits (· < usizeBound) result
  | .syscallResult (.wait (some result)) => resultFits (· < usizeBound) result
  | _ => True

structure Layout where
  size : Nat
  encode : SyscallInfo → List UInt8
  decode : List UInt8 → SyscallInfo
  length_encode : ∀ info, (encode info).length = size
  decode_encode : ∀ info, info.Fits → decode (encode info) = info
  fits : size ≤ pageSize

end Jangri
