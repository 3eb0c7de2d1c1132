import Jangri.Lib.Rv64

namespace Jangri

open Lib Lib.Rv64

def handleTrapsFromSupervisorMode (supervisorTrap : Word) : List Instr :=
  [.addi .sp .sp (-256#64),
   .sd .ra 0 .sp, .sd .gp 16 .sp, .sd .tp 24 .sp, .sd .t0 32 .sp, .sd .t1 40 .sp, .sd .t2 48 .sp,
   .sd .a0 56 .sp, .sd .a1 64 .sp, .sd .a2 72 .sp, .sd .a3 80 .sp, .sd .a4 88 .sp, .sd .a5 96 .sp,
   .sd .a6 104 .sp, .sd .a7 112 .sp, .sd .t3 120 .sp, .sd .t4 128 .sp, .sd .t5 136 .sp, .sd .t6 144 .sp,
   .call supervisorTrap,
   .ld .ra 0 .sp, .ld .gp 16 .sp, .ld .tp 24 .sp, .ld .t0 32 .sp, .ld .t1 40 .sp, .ld .t2 48 .sp,
   .ld .a0 56 .sp, .ld .a1 64 .sp, .ld .a2 72 .sp, .ld .a3 80 .sp, .ld .a4 88 .sp, .ld .a5 96 .sp,
   .ld .a6 104 .sp, .ld .a7 112 .sp, .ld .t3 120 .sp, .ld .t4 128 .sp, .ld .t5 136 .sp, .ld .t6 144 .sp,
   .addi .sp .sp 256#64,
   .sret]

def interruptSlots : Slots :=
  [(.ra, 0), (.gp, 16), (.tp, 24), (.t0, 32), (.t1, 40), (.t2, 48), (.a0, 56), (.a1, 64), (.a2, 72),
   (.a3, 80), (.a4, 88), (.a5, 96), (.a6, 104), (.a7, 112), (.t3, 120), (.t4, 128), (.t5, 136),
   (.t6, 144)]

theorem handleTrapsFromSupervisorMode_eq (supervisorTrap : Word) :
    handleTrapsFromSupervisorMode supervisorTrap = .addi .sp .sp (-256#64) ::
      (interruptSlots.map (fun slot => .sd slot.1 slot.2 .sp) ++ .call supervisorTrap ::
        (interruptSlots.map (fun slot => .ld slot.1 slot.2 .sp) ++
          [.addi .sp .sp 256#64, .sret])) := rfl

def interruptBytes : Nat := 256

def callPosition : Nat := 20

def calleeSaved : List Register :=
  [.sp, .s0, .s1, .s2, .s3, .s4, .s5, .s6, .s7, .s8, .s9, .s10, .s11]

/-- A function called in `g` has returned in `g'`, by the calling convention: it keeps the registers
it has to and the frame of its caller. Interrupts are off, so `sepc` stays too. -/
structure Abides (fine : Memory → Prop) (frame : Set Nat) (g g' : Hart) : Prop where
  pc : g'.pc = g.x .ra
  registers : ∀ r ∈ calleeSaved, g'.x r = g.x r
  csr : g'.csr = g.csr
  previous : g'.previous = g.previous
  privilege : g'.privilege = g.privilege
  sound : fine g'.memory
  memory : Set.EqOn g'.memory g.memory frame

/-- Every register is saved by the handler or kept by the call, and only the stack pointer is moved. -/
theorem register_cases (r : Register) : (r ∈ interruptSlots.map Prod.fst ∧ r ≠ .sp) ∨
    r ∈ calleeSaved ∧ r ∉ interruptSlots.map Prod.fst := by
  cases r <;> decide

section Execution

variable {mmu : Mmu} {text : Text} {fine : Memory → Prop} {va : Word} {pa size j : Nat} {h : Hart}
  {frame : Nat} {supervisorTrap : Word}

/-- An interrupt in supervisor mode is transparent to the interrupted code. -/
theorem supervisor_interrupt_transparent (here : At mmu fine va pa size h 0)
    (located : Located text pa (handleTrapsFromSupervisorMode supervisorTrap) (pa + j))
    (inside : j ≤ size) (aligned : (h.x .sp).toNat % 8 = 0)
    (stores : Window mmu fine (h.csr .satp) .store (h.x .sp + -256#64) frame interruptBytes)
    (loads : Window mmu fine (h.csr .satp) .load (h.x .sp + -256#64) frame interruptBytes)
    (closed : ∀ m o value, fine m → o + 8 ≤ interruptBytes → fine (m.write (frame + o) 8 value)) :
    ∃ g, h.steps mmu text callPosition = some g ∧ g.pc = supervisorTrap ∧
      Set.EqOn g.memory h.memory (Set.Ico frame (frame + interruptBytes))ᶜ ∧
      ∀ g', Abides fine (Set.Ico frame (frame + interruptBytes)) g g' →
        ∃ h', g'.steps mmu text callPosition = some h' ∧ h'.x = h.x ∧ h'.pc = h.csr .sepc ∧
          h'.privilege = h.previous ∧ h'.csr .satp = h.csr .satp ∧ h'.memory = g'.memory := by
  rw [handleTrapsFromSupervisorMode_eq] at located
  have fit : Fit interruptSlots interruptBytes := by decide
  have lower : (h.x .sp + -256#64).toNat % 8 = 0 := by
    rw [BitVec.toNat_add]
    have high : (-256#64).toNat = 2 ^ 64 - 256 := by decide
    omega
  rcases here.straight (h.set .sp (h.x .sp + -256#64)) located inside (fun n => rfl) here.sound rfl
    here.window with ⟨g₁, k₁, step₁, here₁, located₁, alike₁⟩
  rcases steps_saves lower closed interruptSlots fit here₁ located₁ inside
    (by simpa [alike₁.csr] using stores) (by simp [alike₁.x]) with
    ⟨g₂, k₂, steps₂, here₂, ⟨n, positive, found, remaining⟩, alike₂⟩
  have further := remaining.le
  have called := here₂.step (by omega) found
  have memory₂ : g₂.memory = saveAll h.memory frame g₁.x interruptSlots := by
    rw [alike₂.memory, alike₁.memory]
    rfl
  have saved₂ : Stored g₂.memory frame g₁.x interruptSlots := by
    rw [memory₂]
    exact stored_saveAll (by decide)
  have entering := Hart.steps_succ step₁ (Hart.steps_trans steps₂
    (Hart.steps_succ (n := 0) called rfl))
  refine ⟨(g₂.set .ra (g₂.after n)).jump supervisorTrap, entering, rfl, ?_, ?_⟩
  · change Set.EqOn g₂.memory h.memory _
    rw [memory₂]
    exact saveAll_eqOn fit
  intro g' abides
  have csr₂ : g₂.csr = h.csr := by simp [alike₂.csr, alike₁.csr]
  have csr' : g'.csr = h.csr := abides.csr.trans csr₂
  have here' : At mmu fine va pa size g' (k₂ + n) :=
    { sound := abides.sound
      privilege := abides.privilege.trans here₂.privilege
      window := by
        rw [csr']
        exact here.window
      pc := by
        rw [abides.pc]
        simp only [Hart.jump_x, Hart.set_x, Function.update_self]
        rw [Hart.after, here₂.pc, BitVec.add_assoc, ← BitVec.ofNat_add] }
  have stack' : g'.x .sp = h.x .sp + -256#64 := by
    rw [abides.registers .sp (by decide)]
    simp [alike₂.x, alike₁.x]
  rw [Nat.add_assoc] at remaining
  rcases steps_loads lower interruptSlots fit (by decide) here' remaining inside
    (by rw [csr']; exact loads) stack' with ⟨g₃, k₃, steps₃, here₃, located₃, alike₃⟩
  rcases here₃.straight (g₃.set .sp (g₃.x .sp + 256#64)) located₃ inside (fun n => rfl) here₃.sound rfl
    here₃.window with ⟨g₄, k₄, step₄, here₄, ⟨n', positive', found', remaining'⟩, alike₄⟩
  have last : k₄ < size := by
    have further := remaining'.le
    omega
  have returned : g₄.step mmu text = some { g₄ with
      privilege := g₄.previous, previous := .user, pc := g₄.csr .sepc } := by
    rw [here₄.step last found']
    exact if_pos here₄.privilege
  have leaving := Hart.steps_trans steps₃ (Hart.steps_succ step₄
    (Hart.steps_succ (n := 0) returned rfl))
  have saved' : Stored g'.memory frame g₁.x interruptSlots :=
    saved₂.congr fit abides.memory
  refine ⟨_, leaving, ?_, ?_, ?_, ?_, ?_⟩
  · funext r
    change g₄.x r = h.x r
    rcases register_cases r with ⟨saved, other⟩ | ⟨kept, spared⟩
    · have loaded : loadAll g'.memory frame g'.x interruptSlots r = g₁.x r := loadAll_of_mem saved' r saved
      simp [alike₄.x, other, alike₃.x, loaded, alike₁.x]
    · have loaded : g₃.x r = g'.x r := by
        rw [alike₃.x]
        exact loadAll_of_not_mem r spared
      have called : g'.x r = g₁.x r := by
        rw [abides.registers r kept]
        have other : r ≠ .ra := by
          rintro rfl
          exact spared (by decide)
        simp [other, alike₂.x]
      by_cases pointer : r = .sp
      · subst pointer
        simp [alike₄.x, loaded, stack', BitVec.add_assoc]
      · simp [alike₄.x, pointer, loaded, called, alike₁.x]
  · simp [alike₄.csr, alike₃.csr, csr']
  · simp [alike₄.previous, alike₃.previous, abides.previous, alike₂.previous, alike₁.previous]
  · simp [alike₄.csr, alike₃.csr, csr']
  · simp [alike₄.memory, alike₃.memory]

end Execution

/-- A handler that returns at once, on a hart that does not translate. -/
theorem interrupted_hart_goes_on : ∃ g h' : Hart,
    (g.jump (g.x .ra)).steps bare (assemble 0x1000 (handleTrapsFromSupervisorMode 0x2000#64))
      callPosition = some h' ∧ h'.x = (fun r => if r = .sp then 0x5000#64 else 7#64) ∧ h'.pc = 8 := by
  let h : Hart :=
    { x := fun r => if r = .sp then 0x5000#64 else 7#64
      csr := fun _ => 8
      previous := .supervisor
      privilege := .supervisor
      pc := 0x1000#64
      memory := fun _ => 0 }
  have here : At bare (fun _ => True) 0x1000#64 0x1000 160 h 0 :=
    ⟨trivial, rfl, window_bare _ _ _ 0x1000 160 (by decide), rfl⟩
  have pointer : h.x .sp + -256#64 = BitVec.ofNat 64 0x4f00 := by decide
  have area : ∀ access, Window bare (fun _ => True) (h.csr .satp) access (h.x .sp + -256#64) 0x4f00
      interruptBytes := by
    intro access
    rw [pointer]
    exact window_bare _ _ access 0x4f00 interruptBytes (by decide)
  have code : Located (assemble 0x1000 (handleTrapsFromSupervisorMode 0x2000#64)) 0x1000
      (handleTrapsFromSupervisorMode 0x2000#64) (0x1000 + 160) :=
      located_assemble 0x1000 [] (handleTrapsFromSupervisorMode 0x2000#64) []
  rcases supervisor_interrupt_transparent here code (le_refl _) (by decide) (area .store) (area .load)
    (fun _ _ _ _ _ => trivial) with ⟨g, -, -, -, returns⟩
  rcases returns (g.jump (g.x .ra)) ⟨rfl, fun _ _ => rfl, rfl, rfl, rfl, trivial, fun _ _ => rfl⟩ with
    ⟨h', ran, x, pc, -⟩
  exact ⟨g, h', ran, x, pc⟩

end Jangri
