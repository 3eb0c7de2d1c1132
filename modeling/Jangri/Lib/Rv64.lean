import Jangri.Lib.Memory
import Mathlib.Data.BitVec

/-! The instructions of RV64 that save and restore registers and change address spaces.

A hart fetches from physical memory, and every access goes through the memory management unit, which
is a parameter. Instructions are given by their physical addresses, with their sizes in bytes. An
access that the unit refuses, or that is not aligned, ends the run: what the hart does about it is
not modelled. -/

namespace Lib

namespace Rv64

abbrev Word := BitVec 64

inductive Register
  | ra | sp | gp | tp
  | t0 | t1 | t2 | t3 | t4 | t5 | t6
  | s0 | s1 | s2 | s3 | s4 | s5 | s6 | s7 | s8 | s9 | s10 | s11
  | a0 | a1 | a2 | a3 | a4 | a5 | a6 | a7
  deriving DecidableEq, Repr

inductive Csr
  | satp | sepc | sscratch | stvec
  deriving DecidableEq, Repr

inductive Privilege
  | user | supervisor
  deriving DecidableEq, Repr

inductive Access
  | fetch | load | store
  deriving DecidableEq, Repr

structure Core where
  x : Register → Word
  csr : Csr → Word
  previous : Privilege
  privilege : Privilege
  pc : Word

structure Hart extends Core where
  memory : Memory

/-- From `satp`, a privilege, a kind of access and a virtual address to a physical one. -/
abbrev Mmu := Memory → Word → Privilege → Access → Word → Option Nat

inductive Instr
  | sd (source : Register) (offset : Nat) (base : Register)
  | ld (target : Register) (offset : Nat) (base : Register)
  | li (target : Register) (value : Word)
  | addi (target source : Register) (value : Word)
  | add (target first second : Register)
  | csrr (target : Register) (csr : Csr)
  | csrw (csr : Csr) (source : Register)
  | sfenceVma
  | call (label : Word)
  | jalr (source : Register)
  | ret
  | sret
  deriving DecidableEq, Repr

abbrev Text := Nat → Option (Instr × Nat)

namespace Hart

def set (h : Hart) (r : Register) (value : Word) : Hart :=
  { h with x := Function.update h.x r value }

def setCsr (h : Hart) (csr : Csr) (value : Word) : Hart :=
  { h with csr := Function.update h.csr csr value }

def jump (h : Hart) (pc : Word) : Hart := { h with pc }

def after (h : Hart) (size : Nat) : Word := h.pc + BitVec.ofNat 64 size

def locate (mmu : Mmu) (h : Hart) (access : Access) (va : Word) : Option Nat :=
  if va.toNat % 8 = 0 then mmu h.memory (h.csr .satp) h.privilege access va else none

def exec (mmu : Mmu) (h : Hart) (size : Nat) : Instr → Option Hart
  | .sd source offset base =>
      (h.locate mmu .store (h.x base + BitVec.ofNat 64 offset)).map fun pa =>
        { h with memory := h.memory.write pa 8 (h.x source).toNat, pc := h.after size }
  | .ld target offset base =>
      (h.locate mmu .load (h.x base + BitVec.ofNat 64 offset)).map fun pa =>
        (h.set target (BitVec.ofNat 64 (h.memory.read pa 8))).jump (h.after size)
  | .li target value => some ((h.set target value).jump (h.after size))
  | .addi target source value => some ((h.set target (h.x source + value)).jump (h.after size))
  | .add target first second =>
      some ((h.set target (h.x first + h.x second)).jump (h.after size))
  | .csrr target csr =>
      if h.privilege = .supervisor then some ((h.set target (h.csr csr)).jump (h.after size)) else none
  | .csrw csr source =>
      if h.privilege = .supervisor then some ((h.setCsr csr (h.x source)).jump (h.after size))
      else none
  | .sfenceVma => if h.privilege = .supervisor then some (h.jump (h.after size)) else none
  | .call label => some ((h.set .ra (h.after size)).jump label)
  | .jalr source => some ((h.set .ra (h.after size)).jump (h.x source))
  | .ret => some (h.jump (h.x .ra))
  | .sret =>
      if h.privilege = .supervisor then
        some { h with privilege := h.previous, previous := .user, pc := h.csr .sepc }
      else none

def step (mmu : Mmu) (text : Text) (h : Hart) : Option Hart := do
  let pa ← mmu h.memory (h.csr .satp) h.privilege .fetch h.pc
  let found ← text pa
  h.exec mmu found.2 found.1

def steps (mmu : Mmu) (text : Text) : Nat → Hart → Option Hart
  | 0, h => some h
  | n + 1, h => (h.step mmu text).bind (steps mmu text n)

def trap (h : Hart) : Hart :=
  { h.setCsr .sepc h.pc with previous := h.privilege, privilege := .supervisor, pc := h.csr .stvec }

end Hart

section Fields

variable (h : Hart) (r : Register) (csr : Csr) (value : Word)

@[simp] theorem Hart.set_x : (h.set r value).x = Function.update h.x r value := rfl

@[simp] theorem Hart.set_csr : (h.set r value).csr = h.csr := rfl

@[simp] theorem Hart.set_memory : (h.set r value).memory = h.memory := rfl

@[simp] theorem Hart.set_previous : (h.set r value).previous = h.previous := rfl

@[simp] theorem Hart.setCsr_x : (h.setCsr csr value).x = h.x := rfl

@[simp] theorem Hart.setCsr_csr : (h.setCsr csr value).csr = Function.update h.csr csr value := rfl

@[simp] theorem Hart.setCsr_memory : (h.setCsr csr value).memory = h.memory := rfl

@[simp] theorem Hart.setCsr_previous : (h.setCsr csr value).previous = h.previous := rfl

@[simp] theorem Hart.jump_x : (h.jump value).x = h.x := rfl

@[simp] theorem Hart.jump_csr : (h.jump value).csr = h.csr := rfl

@[simp] theorem Hart.jump_memory : (h.jump value).memory = h.memory := rfl

@[simp] theorem Hart.jump_previous : (h.jump value).previous = h.previous := rfl

end Fields

/-! Save areas: registers in memory, at offsets from a base. -/

section SaveAreas

abbrev Slots := List (Register × Nat)

def saveAll (m : Memory) (base : Nat) (x : Register → Word) (slots : Slots) : Memory :=
  slots.foldl (fun m slot => m.write (base + slot.2) 8 (x slot.1).toNat) m

def loadAll (m : Memory) (base : Nat) (x : Register → Word) (slots : Slots) : Register → Word :=
  slots.foldl (fun x slot => Function.update x slot.1 (BitVec.ofNat 64 (m.read (base + slot.2) 8))) x

/-- The slots lie in the first `size` bytes, aligned. -/
def Fit (slots : Slots) (size : Nat) : Prop := ∀ slot ∈ slots, slot.2 % 8 = 0 ∧ slot.2 + 8 ≤ size

instance (slots : Slots) (size : Nat) : Decidable (Fit slots size) :=
  inferInstanceAs (Decidable (∀ slot ∈ slots, _))

def Apart (slots : Slots) : Prop := slots.Pairwise fun a b => a.2 + 8 ≤ b.2 ∨ b.2 + 8 ≤ a.2

instance (slots : Slots) : Decidable (Apart slots) := inferInstanceAs (Decidable (List.Pairwise _ _))

def Stored (m : Memory) (base : Nat) (x : Register → Word) (slots : Slots) : Prop :=
  ∀ slot ∈ slots, m.read (base + slot.2) 8 = (x slot.1).toNat

variable {m m' : Memory} {base size : Nat} {x : Register → Word} {slots : Slots}

theorem word_lt (w : Word) : w.toNat < 256 ^ 8 := w.isLt

theorem read_saveAll_apart (o : Nat) (apart : ∀ slot ∈ slots, slot.2 + 8 ≤ o ∨ o + 8 ≤ slot.2) :
    (saveAll m base x slots).read (base + o) 8 = m.read (base + o) 8 := by
  induction slots generalizing m with
  | nil => rfl
  | cons slot rest ih =>
      have here := apart slot List.mem_cons_self
      have later : ∀ other ∈ rest, other.2 + 8 ≤ o ∨ o + 8 ≤ other.2 := by
        intro other member
        exact apart other (List.mem_cons_of_mem _ member)
      calc
        _ = (m.write (base + slot.2) 8 (x slot.1).toNat).read (base + o) 8 := ih later
        _ = m.read (base + o) 8 := Memory.read_write_apart _ _ _ _ _ _ (by omega)

theorem stored_saveAll (apart : Apart slots) : Stored (saveAll m base x slots) base x slots := by
  induction slots generalizing m with
  | nil =>
      intro slot none_
      cases none_
  | cons slot rest ih =>
      rcases List.pairwise_cons.mp apart with ⟨first, others⟩
      intro other member
      rcases List.mem_cons.mp member with rfl | later
      · have kept : ∀ later ∈ rest, later.2 + 8 ≤ other.2 ∨ other.2 + 8 ≤ later.2 := by
          intro later member
          exact (first later member).symm
        calc
          _ = (m.write (base + other.2) 8 (x other.1).toNat).read (base + other.2) 8 :=
            read_saveAll_apart other.2 kept
          _ = (x other.1).toNat := Memory.read_write_same _ _ _ _ (word_lt _)
      · exact ih others other later

theorem saveAll_eqOn (fit : Fit slots size) :
    Set.EqOn (saveAll m base x slots) m (Set.Ico base (base + size))ᶜ := by
  induction slots generalizing m with
  | nil => exact fun _ _ => rfl
  | cons slot rest ih =>
      have here := fit slot List.mem_cons_self
      intro a outside
      rw [Set.mem_compl_iff, Set.mem_Ico] at outside
      calc
        _ = (m.write (base + slot.2) 8 (x slot.1).toNat) a :=
          ih (fun other member => fit other (List.mem_cons_of_mem _ member)) outside
        _ = m a := if_neg (by omega)

theorem Stored.congr (stored : Stored m base x slots) (fit : Fit slots size)
    (same : Set.EqOn m' m (Set.Ico base (base + size))) : Stored m' base x slots := by
  intro slot member
  have inside := (fit slot member).2
  rw [← stored slot member]
  apply Memory.read_congr
  intro a within
  rw [Set.mem_Ico] at within
  exact same (Set.mem_Ico.mpr ⟨by omega, by omega⟩)

theorem loadAll_of_not_mem (r : Register) (absent : r ∉ slots.map Prod.fst) :
    loadAll m base x slots r = x r := by
  induction slots generalizing x with
  | nil => rfl
  | cons slot rest ih =>
      rw [List.map_cons, List.mem_cons, not_or] at absent
      calc
        _ = Function.update x slot.1 (BitVec.ofNat 64 (m.read (base + slot.2) 8)) r := ih absent.2
        _ = x r := Function.update_of_ne absent.1 _ _

/-- Loading brings back what was stored. -/
theorem loadAll_of_mem {y : Register → Word} (stored : Stored m base y slots) (r : Register)
    (present : r ∈ slots.map Prod.fst) : loadAll m base x slots r = y r := by
  induction slots generalizing x with
  | nil => cases present
  | cons slot rest ih =>
      have remaining : Stored m base y rest := fun other member =>
        stored other (List.mem_cons_of_mem _ member)
      by_cases again : r ∈ rest.map Prod.fst
      · exact ih remaining again
      · have here : r = slot.1 := by
          rw [List.map_cons, List.mem_cons] at present
          exact present.resolve_right again
        subst here
        calc
          _ = Function.update x slot.1 (BitVec.ofNat 64 (m.read (base + slot.2) 8)) slot.1 :=
            loadAll_of_not_mem _ again
          _ = y slot.1 := by
            rw [Function.update_self, stored slot List.mem_cons_self, BitVec.ofNat_toNat,
              BitVec.setWidth_eq]

end SaveAreas

/-! Straight-line code, at addresses that the hart can fetch from. -/

def Located (text : Text) : (pa : Nat) → List Instr → (stop : Nat) → Prop
  | pa, [], stop => pa = stop
  | pa, instr :: rest, stop =>
      ∃ size, 0 < size ∧ text pa = some (instr, size) ∧ Located text (pa + size) rest stop

/-- As long as memory is `fine`, the supervisor finds the `size` bytes from `va` at `pa`. -/
def Window (mmu : Mmu) (fine : Memory → Prop) (satp : Word) (access : Access) (va : Word)
    (pa size : Nat) : Prop :=
  ∀ m, fine m → ∀ i < size, mmu m satp .supervisor access (va + BitVec.ofNat 64 i) = some (pa + i)

/-- The hart executes the code at `va`, which lies at `pa`, and is `i` bytes into it. -/
structure At (mmu : Mmu) (fine : Memory → Prop) (va : Word) (pa size : Nat) (h : Hart) (i : Nat) :
    Prop where
  sound : fine h.memory
  privilege : h.privilege = .supervisor
  window : Window mmu fine (h.csr .satp) .fetch va pa size
  pc : h.pc = va + BitVec.ofNat 64 i

structure Alike (g h : Hart) : Prop where
  x : g.x = h.x
  csr : g.csr = h.csr
  memory : g.memory = h.memory
  previous : g.previous = h.previous

section Execution

variable {mmu : Mmu} {text : Text} {fine : Memory → Prop} {va : Word} {pa size i j : Nat} {h h' : Hart}

theorem Located.le {is : List Instr} (located : Located text i is j) : i ≤ j := by
  induction is generalizing i with
  | nil => exact le_of_eq located
  | cons instr rest ih =>
      rcases located with ⟨n, -, -, remaining⟩
      have further := ih remaining
      omega

def assemble (base : Nat) (is : List Instr) : Text := fun pa =>
  if base ≤ pa ∧ (pa - base) % 4 = 0 then is[(pa - base) / 4]?.map fun instr => (instr, 4) else none

theorem located_assemble (base : Nat) (front is back : List Instr) :
    Located (assemble base (front ++ is ++ back)) (base + 4 * front.length) is
      (base + 4 * (front ++ is).length) := by
  induction is generalizing front with
  | nil => rw [Located, List.append_nil]
  | cons instr rest ih =>
      refine ⟨4, by decide, ?_, ?_⟩
      · have offset : base + 4 * front.length - base = 4 * front.length := by omega
        rw [assemble, if_pos (by omega), offset, Nat.mul_div_cancel_left _ (by decide)]
        simp
      · have remaining := ih (front ++ [instr])
        have next : base + 4 * (front ++ [instr]).length = base + 4 * front.length + 4 := by
          rw [List.length_append, List.length_singleton]
          omega
        rw [List.append_assoc front [instr] rest, List.singleton_append, next] at remaining
        exact remaining

theorem Hart.steps_add (first second : Nat) :
    h.steps mmu text (first + second) = (h.steps mmu text first).bind (Hart.steps mmu text second) := by
  induction first generalizing h with
  | zero =>
      rw [Nat.zero_add]
      rfl
  | succ first ih =>
      rw [Nat.succ_add, Hart.steps, Hart.steps]
      cases h.step mmu text with
      | none => rfl
      | some h' => exact ih

theorem At.step (here : At mmu fine va pa size h i) (inside : i < size) {instr : Instr} {n : Nat}
    (found : text (pa + i) = some (instr, n)) : h.step mmu text = h.exec mmu n instr := by
  have fetched := here.window h.memory here.sound i inside
  rw [Hart.step, here.privilege, here.pc, fetched]
  simp only [Option.bind_eq_bind, Option.bind_some, found]

/-- One instruction that is no jump, with its effect. It may be the one that changes the address
space. -/
theorem At.straight (here : At mmu fine va pa size h i) (h' : Hart) {instr : Instr}
    {rest : List Instr} (located : Located text (pa + i) (instr :: rest) (pa + j)) (inside : j ≤ size)
    (effect : ∀ n, h.exec mmu n instr = some (h'.jump (h.after n))) (sound : fine h'.memory)
    (privilege : h'.privilege = h.privilege)
    (window : Window mmu fine (h'.csr .satp) .fetch va pa size) :
    ∃ g k, h.step mmu text = some g ∧ At mmu fine va pa size g k ∧
      Located text (pa + k) rest (pa + j) ∧ Alike g h' := by
  rcases located with ⟨n, positive, found, remaining⟩
  have further := Located.le remaining
  have pc : h.after n = va + BitVec.ofNat 64 (i + n) := by
    rw [Hart.after, here.pc, BitVec.add_assoc, ← BitVec.ofNat_add]
  refine ⟨h'.jump (h.after n), i + n, ?_, ⟨sound, privilege.trans here.privilege, window, pc⟩, ?_,
    rfl, rfl, rfl, rfl⟩
  · rw [here.step (by omega) found, effect]
  · rw [← Nat.add_assoc]
    exact remaining

def bare : Mmu := fun _ _ _ _ va => some va.toNat

theorem window_bare (fine : Memory → Prop) (satp : Word) (access : Access) (a size : Nat)
    (bounded : a + size ≤ 2 ^ 64) : Window bare fine satp access (BitVec.ofNat 64 a) a size := by
  intro m _ i low
  rw [bare, ← BitVec.ofNat_add, BitVec.toNat_ofNat, Nat.mod_eq_of_lt (by omega)]

theorem word_aligned {a : Nat} (aligned : a % 8 = 0) : (BitVec.ofNat 64 a).toNat % 8 = 0 := by
  rw [BitVec.toNat_ofNat]
  omega

theorem aligned_add {area : Word} {o : Nat} (aligned : area.toNat % 8 = 0) (fits : o % 8 = 0) :
    (area + BitVec.ofNat 64 o).toNat % 8 = 0 := by
  rw [BitVec.toNat_add, BitVec.toNat_ofNat]
  omega

theorem locate_of_window {access : Access} {area : Word} {frame bytes o : Nat} (memory : fine h.memory)
    (privilege : h.privilege = .supervisor)
    (window : Window mmu fine (h.csr .satp) access area frame bytes) (aligned : area.toNat % 8 = 0)
    (fits : o % 8 = 0) (inside : o + 8 ≤ bytes) :
    h.locate mmu access (area + BitVec.ofNat 64 o) = some (frame + o) := by
  rw [Hart.locate, if_pos (aligned_add aligned fits), privilege]
  exact window h.memory memory o (by omega)

theorem Hart.steps_trans {first second : Nat} {h'' : Hart} (front : h.steps mmu text first = some h')
    (back : h'.steps mmu text second = some h'') : h.steps mmu text (first + second) = some h'' := by
  rw [Hart.steps_add, front, Option.bind_some, back]

theorem Hart.steps_succ {n : Nat} {h'' : Hart} (front : h.step mmu text = some h')
    (back : h'.steps mmu text n = some h'') : h.steps mmu text (n + 1) = some h'' := by
  rw [Hart.steps, front, Option.bind_some, back]

section Areas

variable {area : Word} {frame bytes : Nat} {base : Register} {rest : List Instr} {o : Nat}

theorem At.store (here : At mmu fine va pa size h i) {source : Register}
    (located : Located text (pa + i) (.sd source o base :: rest) (pa + j)) (inside : j ≤ size)
    (window : Window mmu fine (h.csr .satp) .store area frame bytes) (aligned : area.toNat % 8 = 0)
    (pointer : h.x base = area) (fits : o % 8 = 0 ∧ o + 8 ≤ bytes)
    (kept : fine (h.memory.write (frame + o) 8 (h.x source).toNat)) :
    ∃ g k, h.step mmu text = some g ∧ At mmu fine va pa size g k ∧
      Located text (pa + k) rest (pa + j) ∧
      Alike g { h with memory := h.memory.write (frame + o) 8 (h.x source).toNat } := by
  apply here.straight { h with memory := h.memory.write (frame + o) 8 (h.x source).toNat } located
    inside _ kept rfl here.window
  intro n
  rw [Hart.exec, pointer, locate_of_window here.sound here.privilege window aligned fits.1 fits.2]
  rfl

theorem At.load (here : At mmu fine va pa size h i) {target : Register}
    (located : Located text (pa + i) (.ld target o base :: rest) (pa + j)) (inside : j ≤ size)
    (window : Window mmu fine (h.csr .satp) .load area frame bytes) (aligned : area.toNat % 8 = 0)
    (pointer : h.x base = area) (fits : o % 8 = 0 ∧ o + 8 ≤ bytes) :
    ∃ g k, h.step mmu text = some g ∧ At mmu fine va pa size g k ∧
      Located text (pa + k) rest (pa + j) ∧
      Alike g (h.set target (BitVec.ofNat 64 (h.memory.read (frame + o) 8))) := by
  apply here.straight (h.set target (BitVec.ofNat 64 (h.memory.read (frame + o) 8))) located inside _
    here.sound rfl here.window
  intro n
  rw [Hart.exec, pointer, locate_of_window here.sound here.privilege window aligned fits.1 fits.2]
  rfl

theorem steps_saves (aligned : area.toNat % 8 = 0)
    (closed : ∀ m o value, fine m → o + 8 ≤ bytes → fine (m.write (frame + o) 8 value))
    (slots : Slots) (fit : Fit slots bytes) (here : At mmu fine va pa size h i)
    (located : Located text (pa + i) (slots.map (fun slot => .sd slot.1 slot.2 base) ++ rest) (pa + j))
    (inside : j ≤ size) (window : Window mmu fine (h.csr .satp) .store area frame bytes)
    (pointer : h.x base = area) :
    ∃ g k, h.steps mmu text slots.length = some g ∧ At mmu fine va pa size g k ∧
      Located text (pa + k) rest (pa + j) ∧
      Alike g { h with memory := saveAll h.memory frame h.x slots } := by
  induction slots generalizing h i with
  | nil => exact ⟨h, i, rfl, here, located, rfl, rfl, rfl, rfl⟩
  | cons slot slots ih =>
      have fits := fit slot List.mem_cons_self
      rcases here.store located inside window aligned pointer fits
        (closed _ _ _ here.sound fits.2) with ⟨g, k, stored, next, remaining, alike⟩
      rcases ih (fun other member => fit other (List.mem_cons_of_mem _ member)) next remaining
        (by rw [alike.csr]; exact window) (by rw [alike.x]; exact pointer) with
        ⟨g', k', ran, there, last, alike'⟩
      refine ⟨g', k', Hart.steps_succ stored ran, there, last, alike'.x.trans alike.x,
        alike'.csr.trans alike.csr, ?_, alike'.previous.trans alike.previous⟩
      calc
        _ = saveAll g.memory frame g.x slots := alike'.memory
        _ = saveAll h.memory frame h.x (slot :: slots) := by
          rw [alike.memory, alike.x]
          rfl

theorem steps_loads (aligned : area.toNat % 8 = 0) (slots : Slots) (fit : Fit slots bytes)
    (spared : base ∉ slots.map Prod.fst) (here : At mmu fine va pa size h i)
    (located : Located text (pa + i) (slots.map (fun slot => .ld slot.1 slot.2 base) ++ rest) (pa + j))
    (inside : j ≤ size) (window : Window mmu fine (h.csr .satp) .load area frame bytes)
    (pointer : h.x base = area) :
    ∃ g k, h.steps mmu text slots.length = some g ∧ At mmu fine va pa size g k ∧
      Located text (pa + k) rest (pa + j) ∧
      Alike g { h with x := loadAll h.memory frame h.x slots } := by
  induction slots generalizing h i with
  | nil => exact ⟨h, i, rfl, here, located, rfl, rfl, rfl, rfl⟩
  | cons slot slots ih =>
      rw [List.map_cons, List.mem_cons, not_or] at spared
      rcases here.load located inside window aligned pointer (fit slot List.mem_cons_self) with
        ⟨g, k, loaded, next, remaining, alike⟩
      have kept : g.x base = area := by
        rw [alike.x]
        exact (Function.update_of_ne spared.1 _ _).trans pointer
      rcases ih (fun other member => fit other (List.mem_cons_of_mem _ member)) spared.2 next remaining
        (by rw [alike.csr]; exact window) kept with ⟨g', k', ran, there, last, alike'⟩
      refine ⟨g', k', Hart.steps_succ loaded ran, there, last, ?_, alike'.csr.trans alike.csr,
        alike'.memory.trans alike.memory, alike'.previous.trans alike.previous⟩
      calc
        _ = loadAll g.memory frame g.x slots := alike'.x
        _ = loadAll h.memory frame h.x (slot :: slots) := by
          rw [alike.memory, alike.x]
          rfl

end Areas

end Execution

end Rv64

end Lib
