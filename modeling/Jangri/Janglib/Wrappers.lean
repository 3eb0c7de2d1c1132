import Jangri.Allocator.PageAllocator
import Jangri.Janglib.Syscall

/-! The wrappers with which a program makes its requests.

A wrapper writes its request into the communication page, executes `ecall` and looks at the page again.
What comes between is the part of the kernel. -/

namespace Jangri

namespace Wrapper

/-- `get_result`, with what the page holds behind the `ecall`. -/
def getResult : SyscallInfo → Rust SyscallResult
  | .syscallResult result => pure result
  | _ => panic (.message "explicit panic")

def check {α : Type} (select : SyscallResult → Option α) (page : SyscallInfo) : Rust α := do
  let result ← getResult page
  match select result with
  | some value => pure value
  | none => panic (.message "explicit panic")

def checkWantMemory : SyscallInfo → Rust (Except Error (Nat × Nat)) :=
  check fun | .wantMemory v => some v | _ => none

def checkWrite : SyscallInfo → Rust (Except Error Nat) :=
  check fun | .write v => some v | _ => none

def checkReadChar : SyscallInfo → Rust (Except Error (Option Char)) :=
  check fun | .readChar v => some v | _ => none

def checkExit : SyscallInfo → Rust Unit :=
  check fun | .exit => some () | _ => none

def checkSpawn : SyscallInfo → Rust (Except Error Nat) :=
  check fun | .spawn v => some v | _ => none

def unwrapOk {α : Type} : Except Error α → Rust α
  | .ok a => pure a
  | .error _ => panic .unwrapErr

def wantMemoryRequest (size : Nat) : Rust (Except Error Syscall) :=
  if size > maxAlloc then pure (.error .beyondAllocationLimit)
  else do
    let size ← alignToPageSize size
    pure (.ok (.wantMemory size))

def finish : Syscall → SyscallInfo → Rust SyscallResult
  | .wantMemory _, page => do
      let value ← checkWantMemory page
      pure (.wantMemory value)
  | .write _ len, page => do
      let value ← checkWrite page
      let written ← unwrapOk value
      assert (written = len) "assertion failed: check().unwrap() == text.len()"
      pure (.write value)
  | .readChar, page => do
      let value ← checkReadChar page
      let _ ← unwrapOk value
      pure (.readChar value)
  | .exit _, page => do
      checkExit page
      panic (.message "internal error: entered unreachable code")
  | .spawn _ _ _ _ _, page => do
      let value ← checkSpawn page
      pure (.spawn value)
  -- `yield` does not look at the page
  | .yield, _ => pure .yield
  | .shutdown, _ => panic (.message "internal error: entered unreachable code")

theorem wantMemoryRequest_spec (size : Nat) (small : size ≤ maxAlloc) :
    ∃ aligned, wantMemoryRequest size = .ok (.ok (.wantMemory aligned)) ∧ size ≤ aligned ∧
      aligned % pageSize = 0 ∧ (SyscallInfo.syscall (.wantMemory aligned)).Fits := by
  have bound : size + pageSize < usizeBound := by
    simp only [maxAlloc, pageSize, usizeBound] at *
    omega
  have returned : ∃ aligned, alignToPageSize size = .ok aligned := by
    by_cases whole : size % pageSize = 0
    · refine ⟨size / pageSize * pageSize, ?_⟩
      rw [alignToPageSize, if_pos whole, usizeMul, if_pos (by simp only [pageSize] at *; omega)]
      rfl
    · refine ⟨(size / pageSize + 1) * pageSize, ?_⟩
      rw [alignToPageSize, if_neg whole, usizeMul, if_pos (by simp only [pageSize] at *; omega)]
      rfl
  rcases returned with ⟨aligned, returned⟩
  rcases alignToPageSize_spec size aligned returned with ⟨enough, -, whole, fits⟩
  refine ⟨aligned, ?_, enough, whole, fits⟩
  rw [wantMemoryRequest, if_neg (by omega), returned]
  rfl

end Wrapper

end Jangri
