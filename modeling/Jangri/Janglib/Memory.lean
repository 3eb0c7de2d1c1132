import Jangri.Kernel.GlobalState

namespace Jangri

open Lib

def isizeMax : Nat := 2 ^ 63 - 1

/-- What `slice::from_raw_parts` checks in a debug build. -/
def fromRawParts (addr size : Nat) : Rust Unit :=
  if addr = 0 ∨ size > isizeMax then
    panic (.message "unsafe precondition(s) violated: slice::from_raw_parts")
  else pure ()

/-- An access outside of RAM is an exception in supervisor mode. The device pages are mapped as well,
but hold registers and no bytes. -/
def outsideRam : Halt := .panic (.message "UNHANDLED SUPERVISOR TRAP EXCEPTION")

def loadMapped (plat : Platform) (addr count : Nat) : Kernel (List UInt8) := fun s =>
  if s.InRam plat.kernelStart addr count then .ok (s.memory.load addr count, s)
  else .error outsideRam

/-- The text of the kernel is mapped without the right to write. -/
def storeMapped (plat : Platform) (addr : Nat) (bytes : List UInt8) : Kernel Unit := fun s =>
  if s.InRam plat.endOfKernelText addr bytes.length then storeBytes addr bytes s
  else .error outsideRam

structure UserMemorySlice where
  start : Nat
  pageTable : Nat
  size : Nat

namespace UserMemorySlice

def read (slice : UserMemorySlice) (plat : Platform) (translate : Nat → Nat → KernelResult Nat) :
    Kernel (List UInt8) := do
  let start ← unwrapResult (translate slice.start slice.pageTable)
  liftRust (fromRawParts start slice.size)
  loadMapped plat start slice.size

def readToVec (slice : UserMemorySlice) (plat : Platform) (translate : Nat → Nat → KernelResult Nat) :
    Kernel (List UInt8) := do
  let bytes ← slice.read plat translate
  pure bytes

def write (slice : UserMemorySlice) (plat : Platform) (translate : Nat → Nat → KernelResult Nat)
    (bytes : List UInt8) : Kernel Unit := do
  let start ← unwrapResult (translate slice.start slice.pageTable)
  liftRust (fromRawParts start (min slice.size bytes.length))
  storeMapped plat start (bytes.take (min slice.size bytes.length))

end UserMemorySlice

/-- `write_syscall`, called in the kernel: `KUCOM_PAGE` is then a page of kernel stack slot 0. -/
def writeSyscall (plat : Platform) (request : Syscall) : Kernel Unit :=
  storeBytes plat.kernelKucom (plat.layout.encode (.syscall request))

/-- `ecall` from supervisor mode goes to the firmware. -/
def makeSyscall (plat : Platform) : Kernel Unit := fun s =>
  match plat.firmware s.memory with
  | some memory => .ok ((), { s with memory })
  | none => .error .shutdown

def getResult (plat : Platform) : Kernel SyscallResult := do
  let bytes ← loadBytes plat.kernelKucom plat.layout.size
  match plat.layout.decode bytes with
  | .syscallResult result => do
      storeBytes plat.kernelKucom (plat.layout.encode .empty)
      pure result
  | _ => halt (.panic (.message "explicit panic"))

def checkWrite (plat : Platform) : KernelResult Nat := ExceptT.mk do
  match ← getResult plat with
  | .write result => pure result
  | _ => halt (.panic (.message "explicit panic"))

def textLength (text : String) : Nat := text.utf8ByteSize % usizeBound

namespace Io

def write (plat : Platform) (text : String) : Kernel Unit :=
  if text.isEmpty then pure ()
  else do
    writeSyscall plat (.write plat.textAddress (textLength text))
    makeSyscall plat
    let written ← unwrapResult (checkWrite plat)
    liftRust (assert (written = textLength text) "assertion failed: check().unwrap() == text.len()")

end Io

def println (plat : Platform) (text : String) : Kernel Unit := do
  Io.write plat text
  Io.write plat "\n"

end Jangri
