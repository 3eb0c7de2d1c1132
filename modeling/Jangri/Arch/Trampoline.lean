import Jangri.Hal.Constants
import Jangri.Lib.Rv64

/-! The code of the trampoline page, which saves and restores the registers of user mode.

It is mapped at the same address in every address space, so that it survives the change of `satp` in
its middle. What it needs is stated with `Window`: code that can be fetched, and a trap frame that can
be read and written. -/

namespace Jangri

open Lib Lib.Rv64

def handleTrapsFromUserMode : List Instr :=
  [.csrw .sscratch .a0,
   .li .a0 0xFFFFFFFFFFFFD000#64,
   .sd .ra 0 .a0, .sd .sp 8 .a0, .sd .gp 16 .a0, .sd .tp 24 .a0,
   .sd .t0 32 .a0, .sd .t1 40 .a0, .sd .t2 48 .a0,
   .sd .s0 56 .a0, .sd .s1 64 .a0,
   .sd .a1 80 .a0, .sd .a2 88 .a0, .sd .a3 96 .a0, .sd .a4 104 .a0, .sd .a5 112 .a0,
   .sd .a6 120 .a0, .sd .a7 128 .a0,
   .sd .s2 136 .a0, .sd .s3 144 .a0, .sd .s4 152 .a0, .sd .s5 160 .a0, .sd .s6 168 .a0,
   .sd .s7 176 .a0, .sd .s8 184 .a0, .sd .s9 192 .a0, .sd .s10 200 .a0, .sd .s11 208 .a0,
   .sd .t3 216 .a0, .sd .t4 224 .a0, .sd .t5 232 .a0, .sd .t6 240 .a0,
   .csrr .t0 .sepc,
   .sd .t0 248 .a0,
   .csrr .t0 .sscratch,
   .sd .t0 72 .a0,
   .ld .sp 264 .a0,
   .li .t0 16384#64,
   .add .sp .sp .t0,
   .ld .t0 272 .a0,
   .ld .t1 280 .a0,
   .sfenceVma,
   .csrw .satp .t0,
   .sfenceVma,
   .jalr .t1]

def returnToUserModeCode : List Instr :=
  [.sfenceVma,
   .ld .a1 288 .a0,
   .csrw .satp .a1,
   .sfenceVma,
   .li .a0 0xFFFFFFFFFFFFD000#64,
   .ld .ra 0 .a0, .ld .sp 8 .a0, .ld .gp 16 .a0, .ld .tp 24 .a0,
   .ld .t0 32 .a0, .ld .t1 40 .a0, .ld .t2 48 .a0,
   .ld .s0 56 .a0, .ld .s1 64 .a0,
   .ld .a1 80 .a0, .ld .a2 88 .a0, .ld .a3 96 .a0, .ld .a4 104 .a0, .ld .a5 112 .a0,
   .ld .a6 120 .a0, .ld .a7 128 .a0,
   .ld .s2 136 .a0, .ld .s3 144 .a0, .ld .s4 152 .a0, .ld .s5 160 .a0, .ld .s6 168 .a0,
   .ld .s7 176 .a0, .ld .s8 184 .a0, .ld .s9 192 .a0, .ld .s10 200 .a0, .ld .s11 208 .a0,
   .ld .t3 216 .a0, .ld .t4 224 .a0, .ld .t5 232 .a0, .ld .t6 240 .a0,
   .ld .a0 72 .a0,
   .sret]

def frameSlots : Slots :=
  [(.ra, 0), (.sp, 8), (.gp, 16), (.tp, 24), (.t0, 32), (.t1, 40), (.t2, 48), (.s0, 56), (.s1, 64),
   (.a1, 80), (.a2, 88), (.a3, 96), (.a4, 104), (.a5, 112), (.a6, 120), (.a7, 128),
   (.s2, 136), (.s3, 144), (.s4, 152), (.s5, 160), (.s6, 168), (.s7, 176), (.s8, 184), (.s9, 192),
   (.s10, 200), (.s11, 208), (.t3, 216), (.t4, 224), (.t5, 232), (.t6, 240)]

/-- The end of `handle_traps_from_user_mode`, from where the registers are free to use. -/
def enterKernel : List Instr :=
  [.ld .sp 264 .a0, .li .t0 16384#64, .add .sp .sp .t0, .ld .t0 272 .a0, .ld .t1 280 .a0, .sfenceVma,
   .csrw .satp .t0, .sfenceVma, .jalr .t1]

theorem handleTrapsFromUserMode_eq : handleTrapsFromUserMode =
    .csrw .sscratch .a0 :: .li .a0 0xFFFFFFFFFFFFD000#64 ::
      (frameSlots.map (fun slot => .sd slot.1 slot.2 .a0) ++
        .csrr .t0 .sepc :: .sd .t0 248 .a0 :: .csrr .t0 .sscratch :: .sd .t0 72 .a0 :: enterKernel) := rfl

theorem returnToUserModeCode_eq : returnToUserModeCode =
    .sfenceVma :: .ld .a1 288 .a0 :: .csrw .satp .a1 :: .sfenceVma :: .li .a0 0xFFFFFFFFFFFFD000#64 ::
      (frameSlots.map (fun slot => .ld slot.1 slot.2 .a0) ++ [.ld .a0 72 .a0, .sret]) := rfl

def allSlots : Slots := (.a0, 72) :: frameSlots

theorem mem_allSlots (r : Register) : r ∈ allSlots.map Prod.fst := by
  cases r <;> decide

def savedBytes : Nat := 256

structure Saved (m : Memory) (tf : Nat) (x : Register → Word) (pc : Word) : Prop where
  registers : Stored m tf x allSlots
  sepc : m.read (tf + 248) 8 = pc.toNat

theorem Saved.congr {m m' : Memory} {tf : Nat} {x : Register → Word} {pc : Word}
    (saved : Saved m tf x pc) (same : Set.EqOn m' m (Set.Ico tf (tf + savedBytes))) :
    Saved m' tf x pc where
  registers := saved.registers.congr (by decide) same
  sepc := by
    rw [← saved.sepc]
    apply Memory.read_congr
    intro a within
    rw [Set.mem_Ico] at within
    exact same (Set.mem_Ico.mpr ⟨by omega, by simp only [savedBytes]; omega⟩)

def word (m : Memory) (addr : Nat) : Word := BitVec.ofNat 64 (m.read addr 8)

theorem word_congr {m m' : Memory} {tf o : Nat} (behind : savedBytes ≤ o)
    (same : Set.EqOn m' m (Set.Ico tf (tf + savedBytes))ᶜ) : word m' (tf + o) = word m (tf + o) := by
  rw [word, word, Memory.read_congr m' m]
  intro a within
  rw [Set.mem_Ico] at within
  apply same
  rw [Set.mem_compl_iff, Set.mem_Ico]
  omega

/-- What `handle_traps_from_user_mode` makes of memory, as one expression. -/
theorem saved_of_writes (m : Memory) (tf : Nat) (x y : Register → Word) (pc : Word)
    (agree : ∀ slot ∈ frameSlots, y slot.1 = x slot.1) :
    Saved (((saveAll m tf y frameSlots).write (tf + 248) 8 pc.toNat).write (tf + 72) 8
        (x .a0).toNat) tf x pc ∧
      Set.EqOn (((saveAll m tf y frameSlots).write (tf + 248) 8 pc.toNat).write (tf + 72) 8
        (x .a0).toNat) m (Set.Ico tf (tf + savedBytes))ᶜ := by
  have spaced : ∀ slot ∈ frameSlots, (slot.2 + 8 ≤ 72 ∨ 72 + 8 ≤ slot.2) ∧ slot.2 + 8 ≤ 248 := by
    decide
  refine ⟨⟨?_, ?_⟩, ?_⟩
  · intro slot member
    rcases List.mem_cons.mp member with rfl | other
    · exact Memory.read_write_same _ _ _ _ (word_lt _)
    · have apart := spaced slot other
      calc
        _ = ((saveAll m tf y frameSlots).write (tf + 248) 8 pc.toNat).read (tf + slot.2) 8 :=
          Memory.read_write_apart _ _ _ _ _ _ (by omega)
        _ = (saveAll m tf y frameSlots).read (tf + slot.2) 8 :=
          Memory.read_write_apart _ _ _ _ _ _ (by omega)
        _ = (y slot.1).toNat := stored_saveAll (by decide) slot other
        _ = (x slot.1).toNat := by rw [agree slot other]
  · rw [Memory.read_write_apart _ _ _ _ _ _ (by omega)]
    exact Memory.read_write_same _ _ _ _ (word_lt _)
  · intro a outside
    have apart := outside
    rw [Set.mem_compl_iff, Set.mem_Ico, savedBytes] at apart
    calc
      _ = ((saveAll m tf y frameSlots).write (tf + 248) 8 pc.toNat) a := if_neg (by omega)
      _ = saveAll m tf y frameSlots a := if_neg (by omega)
      _ = m a := saveAll_eqOn (by decide) outside

def trapframeWord : Word := 0xFFFFFFFFFFFFD000#64

section Execution

variable {mmu : Mmu} {text : Text} {fine : Memory → Prop} {va : Word} {pa size i j : Nat} {h : Hart}
  {tf : Nat}

theorem trapframeWord_aligned : trapframeWord.toNat % 8 = 0 := by decide

theorem enterKernel_spec (here : At mmu fine va pa size h i)
    (located : Located text (pa + i) enterKernel (pa + j)) (inside : j ≤ size)
    (loads : Window mmu fine (h.csr .satp) .load trapframeWord tf 304)
    (kernel : Window mmu fine (word h.memory (tf + 272)) .fetch va pa size)
    (pointer : h.x .a0 = trapframeWord) :
    ∃ h', h.steps mmu text enterKernel.length = some h' ∧ h'.memory = h.memory ∧
      h'.privilege = .supervisor ∧ h'.csr .satp = word h.memory (tf + 272) ∧
      h'.pc = word h.memory (tf + 280) ∧ h'.x .sp = word h.memory (tf + 264) + 16384#64 := by
  have aligned := trapframeWord_aligned
  have inArea : ∀ o, o % 8 = 0 ∧ o ≤ 288 → o % 8 = 0 ∧ o + 8 ≤ 304 := by
    intro o known
    exact ⟨known.1, by omega⟩
  rcases here.load located inside loads aligned pointer (inArea 264 (by decide)) with
    ⟨g₁, k₁, step₁, here₁, located₁, alike₁⟩
  rcases here₁.straight (g₁.set .t0 16384#64) located₁ inside (fun n => rfl) here₁.sound rfl
    here₁.window with ⟨g₂, k₂, step₂, here₂, located₂, alike₂⟩
  rcases here₂.straight (g₂.set .sp (g₂.x .sp + g₂.x .t0)) located₂ inside (fun n => rfl) here₂.sound
    rfl here₂.window with ⟨g₃, k₃, step₃, here₃, located₃, alike₃⟩
  have csr₃ : g₃.csr = h.csr := alike₃.csr.trans (alike₂.csr.trans alike₁.csr)
  have memory₃ : g₃.memory = h.memory := alike₃.memory.trans (alike₂.memory.trans alike₁.memory)
  have pointer₃ : g₃.x .a0 = trapframeWord := by
    simp [alike₃.x, alike₂.x, alike₁.x, Function.update, pointer]
  have stack₃ : g₃.x .sp = word h.memory (tf + 264) + 16384#64 := by
    simp [alike₃.x, alike₂.x, alike₁.x, Function.update, word]
  rcases here₃.load located₃ inside (by rw [csr₃]; exact loads) aligned pointer₃
    (inArea 272 (by decide)) with ⟨g₄, k₄, step₄, here₄, located₄, alike₄⟩
  have pointer₄ : g₄.x .a0 = trapframeWord := by
    simp [alike₄.x, Function.update, pointer₃]
  have csr₄ : g₄.csr = h.csr := alike₄.csr.trans csr₃
  rcases here₄.load located₄ inside (by rw [csr₄]; exact loads) aligned pointer₄
    (inArea 280 (by decide)) with ⟨g₅, k₅, step₅, here₅, located₅, alike₅⟩
  have memory₅ : g₅.memory = h.memory := alike₅.memory.trans (alike₄.memory.trans memory₃)
  have root₅ : g₅.x .t0 = word h.memory (tf + 272) := by
    simp [alike₅.x, alike₄.x, Function.update, memory₃, word]
  have target₅ : g₅.x .t1 = word h.memory (tf + 280) := by
    simp [alike₅.x, alike₄.memory, Function.update, memory₃, word]
  have stack₅ : g₅.x .sp = word h.memory (tf + 264) + 16384#64 := by
    simp [alike₅.x, alike₄.x, Function.update, stack₃]
  rcases here₅.straight g₅ located₅ inside (fun n => if_pos here₅.privilege) here₅.sound rfl
    here₅.window with ⟨g₆, k₆, step₆, here₆, located₆, alike₆⟩
  have root₆ : g₆.x .t0 = word h.memory (tf + 272) := (congrFun alike₆.x .t0).trans root₅
  rcases here₆.straight (g₆.setCsr .satp (g₆.x .t0)) located₆ inside
    (fun n => if_pos here₆.privilege) here₆.sound rfl (by rw [root₆]; exact kernel) with
    ⟨g₇, k₇, step₇, here₇, located₇, alike₇⟩
  rcases here₇.straight g₇ located₇ inside (fun n => if_pos here₇.privilege) here₇.sound rfl
    here₇.window with ⟨g₈, k₈, step₈, here₈, ⟨n, positive, found, remaining⟩, alike₈⟩
  have last : k₈ < size := by
    have further := remaining.le
    omega
  have x₈ : g₈.x = g₅.x := alike₈.x.trans (alike₇.x.trans alike₆.x)
  refine ⟨(g₈.set .ra (g₈.after n)).jump (g₈.x .t1), ?_, ?_, here₈.privilege, ?_, ?_, ?_⟩
  · apply Hart.steps_succ step₁ (Hart.steps_succ step₂ (Hart.steps_succ step₃ (Hart.steps_succ step₄
      (Hart.steps_succ step₅ (Hart.steps_succ step₆ (Hart.steps_succ step₇ (Hart.steps_succ step₈
      (Hart.steps_succ (here₈.step last found) rfl))))))))
  · exact alike₈.memory.trans (alike₇.memory.trans (alike₆.memory.trans memory₅))
  · simp [alike₈.csr, alike₇.csr, root₆]
  · exact (congrFun x₈ .t1).trans target₅
  · simp [x₈, stack₅]

/-- The registers go to the trap frame, `a0` and the address of the trap by way of `sscratch` and
`t0`. -/
theorem handleTrapsFromUserMode_spec (here : At mmu fine va pa size h i)
    (located : Located text (pa + i) handleTrapsFromUserMode (pa + j)) (inside : j ≤ size)
    (stores : Window mmu fine (h.csr .satp) .store trapframeWord tf savedBytes)
    (loads : Window mmu fine (h.csr .satp) .load trapframeWord tf 304)
    (closed : ∀ m o value, fine m → o + 8 ≤ savedBytes → fine (m.write (tf + o) 8 value))
    (kernel : Window mmu fine (word h.memory (tf + 272)) .fetch va pa size) :
    ∃ h', h.steps mmu text handleTrapsFromUserMode.length = some h' ∧
      Saved h'.memory tf h.x (h.csr .sepc) ∧ fine h'.memory ∧
      Set.EqOn h'.memory h.memory (Set.Ico tf (tf + savedBytes))ᶜ ∧
      h'.privilege = .supervisor ∧ h'.csr .satp = word h.memory (tf + 272) ∧
      h'.pc = word h.memory (tf + 280) ∧ h'.x .sp = word h.memory (tf + 264) + 16384#64 := by
  have aligned := trapframeWord_aligned
  rw [handleTrapsFromUserMode_eq] at located
  rcases here.straight (h.setCsr .sscratch (h.x .a0)) located inside
    (fun n => if_pos here.privilege) here.sound rfl here.window with
    ⟨g₁, k₁, step₁, here₁, located₁, alike₁⟩
  rcases here₁.straight (g₁.set .a0 trapframeWord) located₁ inside (fun n => rfl) here₁.sound rfl
    here₁.window with ⟨g₂, k₂, step₂, here₂, located₂, alike₂⟩
  have satp₂ : g₂.csr .satp = h.csr .satp := by simp [alike₂.csr, alike₁.csr]
  have pointer₂ : g₂.x .a0 = trapframeWord := by simp [alike₂.x]
  have memory₂ : g₂.memory = h.memory := alike₂.memory.trans alike₁.memory
  rcases steps_saves aligned closed frameSlots (by decide) here₂ located₂ inside
    (by rw [satp₂]; exact stores) pointer₂ with ⟨g₃, k₃, steps₃, here₃, located₃, alike₃⟩
  have csr₃ : g₃.csr = Function.update h.csr .sscratch (h.x .a0) := by
    simp [alike₃.csr, alike₂.csr, alike₁.csr]
  have x₃ : g₃.x = Function.update h.x .a0 trapframeWord := by simp [alike₃.x, alike₂.x, alike₁.x]
  have saved₃ : Stored g₃.memory tf g₂.x frameSlots := by
    rw [alike₃.memory]
    exact stored_saveAll (by decide)
  rcases here₃.straight (g₃.set .t0 (g₃.csr .sepc)) located₃ inside
    (fun n => if_pos here₃.privilege) here₃.sound rfl here₃.window with
    ⟨g₄, k₄, step₄, here₄, located₄, alike₄⟩
  have stores₄ : Window mmu fine (g₄.csr .satp) .store trapframeWord tf savedBytes := by
    simpa [alike₄.csr, csr₃] using stores
  rcases here₄.store located₄ inside stores₄ aligned (by simp [alike₄.x, x₃]) (by decide)
    (closed _ 248 _ here₄.sound (by decide)) with ⟨g₅, k₅, step₅, here₅, located₅, alike₅⟩
  rcases here₅.straight (g₅.set .t0 (g₅.csr .sscratch)) located₅ inside
    (fun n => if_pos here₅.privilege) here₅.sound rfl here₅.window with
    ⟨g₆, k₆, step₆, here₆, located₆, alike₆⟩
  have stores₆ : Window mmu fine (g₆.csr .satp) .store trapframeWord tf savedBytes := by
    simpa [alike₆.csr, alike₅.csr] using stores₄
  rcases here₆.store located₆ inside stores₆ aligned (by simp [alike₆.x, alike₅.x, alike₄.x, x₃])
    (by decide) (closed _ 72 _ here₆.sound (by decide)) with
    ⟨g₇, k₇, step₇, here₇, located₇, alike₇⟩
  have memory₇ : g₇.memory = ((saveAll h.memory tf g₂.x frameSlots).write (tf + 248) 8
      (h.csr .sepc).toNat).write (tf + 72) 8 (h.x .a0).toNat := by
    simp [alike₇.memory, alike₆.memory, alike₆.x, alike₅.memory, alike₅.csr, alike₄.memory,
      alike₄.x, alike₄.csr, alike₃.memory, csr₃, memory₂]
  have agree : ∀ slot ∈ frameSlots, g₂.x slot.1 = h.x slot.1 := by
    intro slot member
    have other : slot.1 ≠ .a0 := by
      revert slot
      decide
    simp [alike₂.x, alike₁.x, other]
  rcases saved_of_writes h.memory tf h.x g₂.x (h.csr .sepc) agree with ⟨saved, outside⟩
  rw [← memory₇] at saved outside
  have csr₇ : g₇.csr .satp = h.csr .satp := by
    simp [alike₇.csr, alike₆.csr, alike₅.csr, alike₄.csr, csr₃]
  have fields : ∀ o, savedBytes ≤ o → word g₇.memory (tf + o) = word h.memory (tf + o) :=
    fun o behind => word_congr behind outside
  rcases enterKernel_spec here₇ located₇ inside (by rw [csr₇]; exact loads)
    (by rw [fields 272 (by decide)]; exact kernel)
    (by simp [alike₇.x, alike₆.x, alike₅.x, alike₄.x, x₃]) with
    ⟨h', steps₈, memory₈, privilege₈, satp₈, pc₈, stack₈⟩
  refine ⟨h', ?_, ?_, ?_, ?_, privilege₈, satp₈.trans (fields 272 (by decide)),
    pc₈.trans (fields 280 (by decide)), stack₈.trans (by rw [fields 264 (by decide)])⟩
  · have saving := Hart.steps_succ step₄ (Hart.steps_succ step₅ (Hart.steps_succ step₆
      (Hart.steps_succ step₇ steps₈)))
    have whole := Hart.steps_succ step₁ (Hart.steps_succ step₂ (Hart.steps_trans steps₃ saving))
    exact whole
  · rw [memory₈]
    exact saved
  · rw [memory₈]
    exact here₇.sound
  · rw [memory₈]
    exact outside

/-- On the way back the hart goes over to the address space of the process, and takes all registers
from the trap frame. -/
theorem returnToUserModeCode_spec (here : At mmu fine va pa size h i)
    (located : Located text (pa + i) returnToUserModeCode (pa + j)) (inside : j ≤ size)
    (physical : Window mmu fine (h.csr .satp) .load (h.x .a0) tf 304) (aligned : (h.x .a0).toNat % 8 = 0)
    (code : Window mmu fine (word h.memory (tf + 288)) .fetch va pa size)
    (loads : Window mmu fine (word h.memory (tf + 288)) .load trapframeWord tf 304) :
    ∃ h', h.steps mmu text returnToUserModeCode.length = some h' ∧ h'.memory = h.memory ∧
      (∀ x pc, Saved h.memory tf x pc → h'.x = x) ∧ h'.pc = h.csr .sepc ∧ h'.privilege = h.previous ∧
      h'.csr = Function.update h.csr .satp (word h.memory (tf + 288)) := by
  rw [returnToUserModeCode_eq] at located
  rcases here.straight h located inside (fun n => if_pos here.privilege) here.sound rfl here.window with
    ⟨g₁, k₁, step₁, here₁, located₁, alike₁⟩
  have physical₁ : Window mmu fine (g₁.csr .satp) .load (h.x .a0) tf 304 := by
    rw [alike₁.csr]
    exact physical
  rcases here₁.load located₁ inside physical₁ aligned (by rw [alike₁.x]) (by decide) with
    ⟨g₂, k₂, step₂, here₂, located₂, alike₂⟩
  have root₂ : g₂.x .a1 = word h.memory (tf + 288) := by simp [alike₂.x, alike₁.memory, word]
  rcases here₂.straight (g₂.setCsr .satp (g₂.x .a1)) located₂ inside
    (fun n => if_pos here₂.privilege) here₂.sound rfl (by simpa [root₂] using code) with
    ⟨g₃, k₃, step₃, here₃, located₃, alike₃⟩
  rcases here₃.straight g₃ located₃ inside (fun n => if_pos here₃.privilege) here₃.sound rfl
    here₃.window with ⟨g₄, k₄, step₄, here₄, located₄, alike₄⟩
  rcases here₄.straight (g₄.set .a0 trapframeWord) located₄ inside (fun n => rfl) here₄.sound rfl
    here₄.window with ⟨g₅, k₅, step₅, here₅, located₅, alike₅⟩
  have csr₅ : g₅.csr = Function.update h.csr .satp (word h.memory (tf + 288)) := by
    simp [alike₅.csr, alike₄.csr, alike₃.csr, alike₂.csr, alike₁.csr, root₂]
  have memory₅ : g₅.memory = h.memory := by
    simp [alike₅.memory, alike₄.memory, alike₃.memory, alike₂.memory, alike₁.memory]
  have previous₅ : g₅.previous = h.previous := by
    simp [alike₅.previous, alike₄.previous, alike₃.previous, alike₂.previous, alike₁.previous]
  have loads₅ : Window mmu fine (g₅.csr .satp) .load trapframeWord tf 304 := by
    simpa [csr₅] using loads
  have pointer₅ : g₅.x .a0 = trapframeWord := by simp [alike₅.x]
  rcases steps_loads trapframeWord_aligned frameSlots (by decide) (by decide) here₅ located₅ inside
    loads₅ pointer₅ with ⟨g₆, k₆, steps₆, here₆, located₆, alike₆⟩
  have pointer₆ : g₆.x .a0 = trapframeWord := by
    rw [alike₆.x]
    exact (loadAll_of_not_mem _ (by decide)).trans pointer₅
  rcases here₆.load located₆ inside (by rw [alike₆.csr]; exact loads₅) trapframeWord_aligned pointer₆
    (by decide) with ⟨g₇, k₇, step₇, here₇, ⟨n, positive, found, remaining⟩, alike₇⟩
  have last : k₇ < size := by
    have further := remaining.le
    omega
  have memory₇ : g₇.memory = h.memory := by simp [alike₇.memory, alike₆.memory, memory₅]
  have restored : ∀ y pc, Saved h.memory tf y pc → g₇.x = y := by
    intro y pc saved
    have stored : Stored h.memory tf y frameSlots := fun slot member =>
      saved.registers slot (List.mem_cons_of_mem _ member)
    funext r
    by_cases isPointer : r = .a0
    · have held := saved.registers (.a0, 72) List.mem_cons_self
      simp only at held
      simp [isPointer, alike₇.x, alike₆.memory, memory₅, held]
    · have present : r ∈ frameSlots.map Prod.fst :=
        (List.mem_cons.mp (mem_allSlots r)).resolve_left isPointer
      simp [alike₇.x, isPointer, alike₆.x, memory₅, loadAll_of_mem stored r present]
  have csr₇ : g₇.csr = Function.update h.csr .satp (word h.memory (tf + 288)) := by
    simp [alike₇.csr, alike₆.csr, csr₅]
  have returned : g₇.step mmu text = some { g₇ with
      privilege := g₇.previous, previous := .user, pc := g₇.csr .sepc } := by
    rw [here₇.step last found]
    exact if_pos here₇.privilege
  have tail := Hart.steps_trans steps₆ (Hart.steps_succ step₇ (Hart.steps_succ (n := 0) returned rfl))
  have whole := Hart.steps_succ step₁ (Hart.steps_succ step₂ (Hart.steps_succ step₃
    (Hart.steps_succ step₄ (Hart.steps_succ step₅ tail))))
  refine ⟨_, whole, memory₇, restored, ?_, ?_, ?_⟩
  · simp [csr₇]
  · simp [alike₇.previous, alike₆.previous, previous₅]
  · exact csr₇

end Execution

end Jangri
