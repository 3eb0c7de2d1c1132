import Jangri.Lib.Memory
import Jangri.Rust

/-! The intrusive free lists: nodes live in the memory the allocator manages.

A node takes 64 bytes. The fields stand in declaration order; the Rust layout may permute them,
and nothing below depends on which order is chosen. A null word is the pointer `None`. -/

namespace Jangri

open Lib

def magic1 : Nat := 211482366920938462397425787431768211125

def magic2 : Nat := 192137983263256483582376453435164352209

structure Node where
  magic1 : Nat
  next : Option Nat
  prev : Option Nat
  size : Nat
  id : Nat
  magic2 : Nat
  deriving DecidableEq, Repr

def nodeBytes : Nat := 64

def encodePointer (pointer : Option Nat) : Nat := pointer.getD 0

def decodePointer (word : Nat) : Option Nat := if word = 0 then none else some word

def readNode (m : Memory) (addr : Nat) : Node where
  magic1 := m.read addr 16
  next := decodePointer (m.read (addr + 16) 8)
  prev := decodePointer (m.read (addr + 24) 8)
  size := m.read (addr + 32) 8
  id := m.read (addr + 40) 8
  magic2 := m.read (addr + 48) 16

def setNext (m : Memory) (addr : Nat) (pointer : Option Nat) : Memory :=
  m.write (addr + 16) 8 (encodePointer pointer)

def setPrev (m : Memory) (addr : Nat) (pointer : Option Nat) : Memory :=
  m.write (addr + 24) 8 (encodePointer pointer)

/-- `write_volatile` of a whole node. -/
def writeNode (m : Memory) (addr : Nat) (node : Node) : Memory :=
  let m := m.write addr 16 node.magic1
  let m := setNext m addr node.next
  let m := setPrev m addr node.prev
  let m := m.write (addr + 32) 8 node.size
  let m := m.write (addr + 40) 8 node.id
  m.write (addr + 48) 16 node.magic2

def Node.new (prev next : Option Nat) (size id : Nat) : Rust Node :=
  if size = 0 then
    panic (.message "Node size cannot be zero, must be atleast 4KiB large")
  else pure { magic1 := Jangri.magic1, next, prev, size, id, magic2 := Jangri.magic2 }

def checkMagic (m : Memory) (addr : Nat) : Rust Unit := do
  assert ((readNode m addr).magic1 = magic1) "MEMORY CORRUPT"
  assert ((readNode m addr).magic2 = magic2) "MEMORY CORRUPT"

structure LinkedList where
  head : Option Nat
  deriving DecidableEq, Repr

namespace LinkedList

/-- The `while` loop of `push_front`. It only reads, so a chain longer than the address space
repeats an address and the loop never ends: `usizeBound` turns of fuel decide it exactly. -/
def walkToLast (m : Memory) : (fuel : Nat) → (node prev : Option Nat) → Rust (Option Nat)
  | 0, _, _ => .error .diverge
  | _ + 1, none, prev => pure prev
  | fuel + 1, some n, _ => do
      checkMagic m n
      walkToLast m fuel (readNode m n).next (some n)

def pushFront (self : LinkedList) (m : Memory) (other : Nat) : Rust (LinkedList × Memory) := do
  match ← walkToLast m usizeBound self.head none with
  | some prev =>
      checkMagic m prev
      pure (self, setPrev (setNext m prev (some other)) other (some prev))
  | none => pure ({ head := some other }, m)

def popFront (self : LinkedList) (m : Memory) : Rust (Option Nat × LinkedList × Memory) := do
  match self.head with
  | some node =>
      checkMagic m node
      let next := (readNode m node).next
      match next with
      | some next' =>
          checkMagic m next'
          pure (some node, { head := next }, setPrev m next' none)
      | none => pure (some node, { head := next }, m)
  | none => pure (none, self, m)

def unlink (m : Memory) (node : Nat) : Memory :=
  let m := match (readNode m node).prev with
    | some prev => setNext m prev (readNode m node).next
    | none => m
  match (readNode m node).next with
  | some next => setPrev m next (readNode m node).prev
  | none => m

def removeFrom (m : Memory) (nodeId : Nat) : (fuel : Nat) → (curr : Option Nat) → Rust (Nat × Memory)
  | 0, _ => .error .diverge
  | _ + 1, none => panic (.message "Allocation Error: No such node")
  | fuel + 1, some node => do
      checkMagic m node
      if (readNode m node).id = nodeId then pure (node, unlink m node)
      else removeFrom m nodeId fuel (readNode m node).next

/-- `self.head` is not assigned. -/
def remove (self : LinkedList) (m : Memory) (nodeId : Nat) : Rust (Nat × LinkedList × Memory) := do
  let (node, m) ← removeFrom m nodeId usizeBound self.head
  pure (node, self, m)

end LinkedList

def Apart (a b : Nat) : Prop := a + nodeBytes ≤ b ∨ b + nodeBytes ≤ a

theorem Apart.symm {a b : Nat} (apart : Apart a b) : Apart b a := Or.symm apart

def Pointer (addr : Nat) : Prop := addr ≠ 0 ∧ addr < usizeBound

theorem decode_encode_some (addr : Nat) (pointer : Pointer addr) :
    decodePointer (encodePointer (some addr)) = some addr := by
  simp [decodePointer, encodePointer, pointer.1]

theorem encode_lt (pointer : Option Nat) (bounded : ∀ a, pointer = some a → Pointer a) :
    encodePointer pointer < 256 ^ 8 := by
  cases pointer with
  | none => simp [encodePointer]
  | some a => simpa [encodePointer, usizeBound] using (bounded a rfl).2

theorem decode_encode (pointer : Option Nat) (bounded : ∀ a, pointer = some a → Pointer a) :
    decodePointer (encodePointer pointer) = pointer := by
  cases pointer with
  | none => rfl
  | some a => exact decode_encode_some a (bounded a rfl)

theorem readNode_congr (m m' : Memory) (addr : Nat)
    (same : Set.EqOn m m' (Set.Ico addr (addr + nodeBytes))) : readNode m addr = readNode m' addr := by
  have field : ∀ offset width, offset + width ≤ nodeBytes →
      m.read (addr + offset) width = m'.read (addr + offset) width := by
    intro offset width fits
    apply Memory.read_congr
    intro x hx
    rw [Set.mem_Ico] at hx
    exact same (Set.mem_Ico.mpr ⟨by omega, by omega⟩)
  have head := field 0 16 (by decide)
  rw [Nat.add_zero] at head
  unfold readNode
  rw [head, field 16 8 (by decide), field 24 8 (by decide), field 32 8 (by decide),
    field 40 8 (by decide), field 48 16 (by decide)]

theorem setNext_eqOn (m : Memory) (addr : Nat) (pointer : Option Nat) (region : Set Nat)
    (apart : ∀ x ∈ region, x < addr ∨ addr + nodeBytes ≤ x) :
    Set.EqOn (setNext m addr pointer) m region := by
  apply Memory.write_eqOn
  intro x hx
  have := apart x hx
  simp only [nodeBytes] at this
  omega

theorem setPrev_eqOn (m : Memory) (addr : Nat) (pointer : Option Nat) (region : Set Nat)
    (apart : ∀ x ∈ region, x < addr ∨ addr + nodeBytes ≤ x) :
    Set.EqOn (setPrev m addr pointer) m region := by
  apply Memory.write_eqOn
  intro x hx
  have := apart x hx
  simp only [nodeBytes] at this
  omega

theorem writeNode_eqOn (m : Memory) (addr : Nat) (node : Node) (region : Set Nat)
    (apart : ∀ x ∈ region, x < addr ∨ addr + nodeBytes ≤ x) :
    Set.EqOn (writeNode m addr node) m region := by
  have wide : ∀ x ∈ region, x < addr ∨ addr + 64 ≤ x := apart
  intro x hx
  have far := wide x hx
  unfold writeNode setNext setPrev Memory.write
  repeat rw [if_neg (by omega)]

private theorem header_apart (a b : Nat) (apart : Apart a b) :
    ∀ x ∈ Set.Ico b (b + nodeBytes), x < a ∨ a + nodeBytes ≤ x := by
  intro x hx
  rw [Set.mem_Ico] at hx
  rcases apart with h | h <;> omega

theorem readNode_setNext_apart (m : Memory) (a b : Nat) (pointer : Option Nat) (apart : Apart a b) :
    readNode (setNext m a pointer) b = readNode m b :=
  readNode_congr _ _ _ (setNext_eqOn _ _ _ _ (header_apart a b apart))

theorem readNode_setPrev_apart (m : Memory) (a b : Nat) (pointer : Option Nat) (apart : Apart a b) :
    readNode (setPrev m a pointer) b = readNode m b :=
  readNode_congr _ _ _ (setPrev_eqOn _ _ _ _ (header_apart a b apart))

theorem readNode_setNext_same (m : Memory) (a : Nat) (pointer : Option Nat)
    (bounded : ∀ x, pointer = some x → Pointer x) :
    readNode (setNext m a pointer) a = { readNode m a with next := pointer } := by
  unfold readNode setNext
  rw [Memory.read_write_same _ _ _ _ (encode_lt pointer bounded), decode_encode pointer bounded]
  repeat rw [Memory.read_write_apart _ _ _ _ _ _ (by omega)]

theorem readNode_setPrev_same (m : Memory) (a : Nat) (pointer : Option Nat)
    (bounded : ∀ x, pointer = some x → Pointer x) :
    readNode (setPrev m a pointer) a = { readNode m a with prev := pointer } := by
  unfold readNode setPrev
  rw [Memory.read_write_same _ _ _ _ (encode_lt pointer bounded), decode_encode pointer bounded]
  repeat rw [Memory.read_write_apart _ _ _ _ _ _ (by omega)]

/-- Every field fits its machine type. -/
structure Node.Fits (node : Node) : Prop where
  magic1 : node.magic1 < 256 ^ 16
  next : ∀ a, node.next = some a → Pointer a
  prev : ∀ a, node.prev = some a → Pointer a
  size : node.size < 256 ^ 8
  id : node.id < 256 ^ 8
  magic2 : node.magic2 < 256 ^ 16

theorem readNode_writeNode (m : Memory) (addr : Nat) (node : Node) (fits : node.Fits) :
    readNode (writeNode m addr node) addr = node := by
  obtain ⟨a, next, prev, size, id, b⟩ := node
  obtain ⟨fa, fn, fp, fs, fi, fb⟩ := fits
  have word : ∀ (w : Memory) (v x k n : Nat), (x + k ≤ addr + n ∨ addr + n + 8 ≤ x) →
      (w.write (addr + n) 8 v).read x k = w.read x k :=
    fun w v x k n h => Memory.read_write_apart _ _ _ _ _ _ (by omega)
  have tail : ∀ (w : Memory) (v x k : Nat), x + k ≤ addr + 48 →
      (w.write (addr + 48) 16 v).read x k = w.read x k :=
    fun w v x k h => Memory.read_write_apart _ _ _ _ _ _ (by omega)
  simp only [readNode, writeNode, setNext, setPrev, Node.mk.injEq]
  refine ⟨?_, ?_, ?_, ?_, ?_, Memory.read_write_same _ _ _ _ fb⟩
  · rw [tail _ _ _ _ (by omega), word _ _ _ _ _ (by omega), word _ _ _ _ _ (by omega),
      word _ _ _ _ _ (by omega), word _ _ _ _ _ (by omega)]
    exact Memory.read_write_same _ _ _ _ fa
  · rw [tail _ _ _ _ (by omega), word _ _ _ _ _ (by omega), word _ _ _ _ _ (by omega),
      word _ _ _ _ _ (by omega), Memory.read_write_same _ _ _ _ (encode_lt next fn)]
    exact decode_encode next fn
  · rw [tail _ _ _ _ (by omega), word _ _ _ _ _ (by omega), word _ _ _ _ _ (by omega),
      Memory.read_write_same _ _ _ _ (encode_lt prev fp)]
    exact decode_encode prev fp
  · rw [tail _ _ _ _ (by omega), word _ _ _ _ _ (by omega)]
    exact Memory.read_write_same _ _ _ _ fs
  · rw [tail _ _ _ _ (by omega)]
    exact Memory.read_write_same _ _ _ _ fi

theorem fresh_fits (size id : Nat) (small : size < usizeBound) (counter : id < usizeBound) :
    Node.Fits ⟨magic1, none, none, size, id, magic2⟩ := by
  have first : magic1 < 256 ^ 16 := by decide
  have second : magic2 < 256 ^ 16 := by decide
  exact ⟨first, by simp, by simp, by simpa [usizeBound] using small,
    by simpa [usizeBound] using counter, second⟩

-- Proofs above this module use the lemmas only: unfolding a node means unfolding 64 byte reads.
attribute [irreducible] readNode magic1 magic2

end Jangri
