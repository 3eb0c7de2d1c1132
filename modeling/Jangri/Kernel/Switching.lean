import Jangri.Lib.Run
import Jangri.Lib.Rv64

namespace Jangri

open Lib Lib.Rv64

def switchContext : List Instr :=
  [.sd .ra 0 .a0, .sd .sp 8 .a0,
   .sd .s0 16 .a0, .sd .s1 24 .a0, .sd .s2 32 .a0, .sd .s3 40 .a0, .sd .s4 48 .a0, .sd .s5 56 .a0,
   .sd .s6 64 .a0, .sd .s7 72 .a0, .sd .s8 80 .a0, .sd .s9 88 .a0, .sd .s10 96 .a0, .sd .s11 104 .a0,
   .ld .ra 0 .a1, .ld .sp 8 .a1,
   .ld .s0 16 .a1, .ld .s1 24 .a1, .ld .s2 32 .a1, .ld .s3 40 .a1, .ld .s4 48 .a1, .ld .s5 56 .a1,
   .ld .s6 64 .a1, .ld .s7 72 .a1, .ld .s8 80 .a1, .ld .s9 88 .a1, .ld .s10 96 .a1, .ld .s11 104 .a1,
   .ret]

/-- The fields of `Context`: the registers that a call has to leave as they were. -/
def contextSlots : Slots :=
  [(.ra, 0), (.sp, 8), (.s0, 16), (.s1, 24), (.s2, 32), (.s3, 40), (.s4, 48), (.s5, 56), (.s6, 64),
   (.s7, 72), (.s8, 80), (.s9, 88), (.s10, 96), (.s11, 104)]

def contextBytes : Nat := 112

theorem switchContext_eq : switchContext = contextSlots.map (fun slot => .sd slot.1 slot.2 .a0) ++
    (contextSlots.map (fun slot => .ld slot.1 slot.2 .a1) ++ [.ret]) := rfl

section Call

variable {mmu : Mmu} {text : Text} {fine : Memory → Prop} {va : Word} {pa size i j : Nat} {h : Hart}
  {old new : Nat}

theorem switchContext_spec (here : At mmu fine va pa size h i)
    (located : Located text (pa + i) switchContext (pa + j)) (inside : j ≤ size)
    (stores : Window mmu fine (h.csr .satp) .store (h.x .a0) old contextBytes)
    (loads : Window mmu fine (h.csr .satp) .load (h.x .a1) new contextBytes)
    (aligned : (h.x .a0).toNat % 8 = 0) (aligned' : (h.x .a1).toNat % 8 = 0)
    (closed : ∀ m o value, fine m → o + 8 ≤ contextBytes → fine (m.write (old + o) 8 value)) :
    ∃ h', h.steps mmu text switchContext.length = some h' ∧
      h'.memory = saveAll h.memory old h.x contextSlots ∧ fine h'.memory ∧
      h'.x = loadAll h'.memory new h.x contextSlots ∧ h'.pc = h'.x .ra ∧ h'.csr = h.csr ∧
      h'.privilege = .supervisor := by
  rw [switchContext_eq] at located
  rcases steps_saves aligned closed contextSlots (by decide) here located inside stores rfl with
    ⟨g₁, k₁, steps₁, here₁, located₁, alike₁⟩
  have loads₁ : Window mmu fine (g₁.csr .satp) .load (h.x .a1) new contextBytes := by
    rw [alike₁.csr]
    exact loads
  rcases steps_loads aligned' contextSlots (by decide) (by decide) here₁ located₁ inside loads₁
    (by rw [alike₁.x]) with ⟨g₂, k₂, steps₂, here₂, ⟨n, positive, found, remaining⟩, alike₂⟩
  have last : k₂ < size := by
    have further := remaining.le
    omega
  have memory₂ : g₂.memory = saveAll h.memory old h.x contextSlots :=
    alike₂.memory.trans alike₁.memory
  have returned : g₂.step mmu text = some (g₂.jump (g₂.x .ra)) := by
    rw [here₂.step last found]
    rfl
  have whole := Hart.steps_trans steps₁ (Hart.steps_trans steps₂
    (Hart.steps_succ (n := 0) returned rfl))
  refine ⟨_, whole, memory₂, here₂.sound, ?_, rfl, alike₂.csr.trans alike₁.csr, here₂.privilege⟩
  calc
    g₂.x = loadAll g₁.memory new g₁.x contextSlots := alike₂.x
    _ = loadAll g₂.memory new h.x contextSlots := by rw [alike₂.memory, alike₁.x]

end Call

section Threads

variable {T : Type}

structure Threads (T : Type) where
  hart : Hart
  running : T
  started : T → Prop

inductive Activity (T : Type)
  | work
  | switch (next : T)

structure ContextSpace (mmu : Mmu) (text : Text) (fine : Memory → Prop) (satp va : Word)
    (pa size : Nat) (context : T → Nat) : Prop where
  code : Located text pa switchContext (pa + size)
  fetches : Window mmu fine satp .fetch va pa size
  stores : ∀ i, Window mmu fine satp .store (BitVec.ofNat 64 (context i)) (context i) contextBytes
  loads : ∀ i, Window mmu fine satp .load (BitVec.ofNat 64 (context i)) (context i) contextBytes
  aligned : ∀ i, context i % 8 = 0
  apart : ∀ i j, i ≠ j → context i + contextBytes ≤ context j ∨ context j + contextBytes ≤ context i
  closed : ∀ i m o value, fine m → o + 8 ≤ contextBytes → fine (m.write (context i + o) 8 value)

structure InKernel (fine : Memory → Prop) (satp : Word) (h : Hart) : Prop where
  sound : fine h.memory
  privilege : h.privilege = .supervisor
  satp : h.csr .satp = satp

/-- The running thread does something of its own, and leaves the contexts of threads that have run
before alone, or calls `switch_context`. -/
def Threads.Steps (mmu : Mmu) (text : Text) (fine : Memory → Prop) (satp va : Word) (context : T → Nat)
    (u : Threads T) (activity : Activity T) (u' : Threads T) : Prop :=
  match activity with
  | .work => InKernel fine satp u'.hart ∧ u'.running = u.running ∧ u'.started = u.started ∧
      ∀ i, u.started i → Set.EqOn u'.hart.memory u.hart.memory
        (Set.Ico (context i) (context i + contextBytes))
  | .switch next => u.hart.pc = va ∧ u.hart.x .a0 = BitVec.ofNat 64 (context u.running) ∧
      u.hart.x .a1 = BitVec.ofNat 64 (context next) ∧
      u.hart.steps mmu text switchContext.length = some u'.hart ∧ u'.running = next ∧
      u'.started = fun i => i = next ∨ i = u.running ∨ u.started i

variable {mmu : Mmu} {text : Text} {fine : Memory → Prop} {satp va : Word} {pa size : Nat}
  {context : T → Nat} {u u' t : Threads T} {next : T}

theorem switched (space : ContextSpace mmu text fine satp va pa size context)
    (kernel : InKernel fine satp u.hart)
    (taken : Threads.Steps mmu text fine satp va context u (.switch next) u') :
    InKernel fine satp u'.hart ∧
      u'.hart.memory = saveAll u.hart.memory (context u.running) u.hart.x contextSlots ∧
      u'.hart.x = loadAll u'.hart.memory (context next) u.hart.x contextSlots ∧
      u'.hart.pc = u'.hart.x .ra := by
  rcases taken with ⟨pc, old, new, ran, -, -⟩
  have here : At mmu fine va pa size u.hart 0 :=
    { sound := kernel.sound
      privilege := kernel.privilege
      window := by
        rw [kernel.satp]
        exact space.fetches
      pc := pc.trans (BitVec.add_zero va).symm }
  have stores := space.stores u.running
  have loads := space.loads next
  rw [← kernel.satp] at stores loads
  rw [← old] at stores
  rw [← new] at loads
  rcases switchContext_spec here space.code (le_refl _) stores loads
    (by rw [old]; exact word_aligned (space.aligned _)) (by rw [new]; exact word_aligned (space.aligned _))
    (space.closed u.running) with ⟨h', ran', memory, sound, x, pc', csr, privilege⟩
  cases Option.some.inj (ran.symm.trans ran')
  exact ⟨⟨sound, privilege, (congrFun csr .satp).trans kernel.satp⟩, memory, x, pc'⟩

/-- A switch writes nothing but the context of the old thread. -/
theorem written_by_switch (space : ContextSpace mmu text fine satp va pa size context)
    (kernel : InKernel fine satp u.hart)
    (taken : Threads.Steps mmu text fine satp va context u (.switch next) u') :
    Set.EqOn u'.hart.memory u.hart.memory
      (Set.Ico (context u.running) (context u.running + contextBytes))ᶜ := by
  rw [(switched space kernel taken).2.1]
  have fit : Fit contextSlots contextBytes := by decide
  exact saveAll_eqOn fit

theorem inKernel_of_run (space : ContextSpace mmu text fine satp va pa size context)
    {trace : List (Threads T × Activity T)} (kernel : InKernel fine satp u.hart)
    (run : Run (Threads.Steps mmu text fine satp va context) u trace t) : InKernel fine satp t.hart := by
  apply run.invariant_last (fun v => InKernel fine satp v.hart) kernel
  intro v activity w before taken
  cases activity with
  | work => exact taken.1
  | switch next => exact (switched space before taken).1

/-- While another thread runs, a context keeps what `switch_context` has put there. -/
theorem stored_of_steps (space : ContextSpace mmu text fine satp va pa size context)
    {activity : Activity T} {i : T} {x : Register → Word} (kernel : InKernel fine satp u.hart)
    (stored : Stored u.hart.memory (context i) x contextSlots) (started : u.started i)
    (away : u.running ≠ i) (taken : Threads.Steps mmu text fine satp va context u activity u') :
    Stored u'.hart.memory (context i) x contextSlots ∧ u'.started i := by
  cases activity with
  | work =>
      rcases taken with ⟨-, -, same, kept⟩
      exact ⟨stored.congr (by decide) (kept i started), same ▸ started⟩
  | switch next =>
      have same := taken.2.2.2.2.2
      have fit : Fit contextSlots contextBytes := by decide
      refine ⟨stored.congr fit ?_, same ▸ Or.inr (Or.inr started)⟩
      intro a inside
      have apart := space.apart _ _ away
      rw [Set.mem_Ico] at inside
      apply written_by_switch space kernel taken
      rw [Set.mem_compl_iff, Set.mem_Ico]
      omega

/-- A thread that has called `switch_context` comes back from the call with its stack pointer and all
the registers that a call has to keep, whatever the other threads have done and however often they
have switched in between. No switch writes anything but the context of the thread that it leaves. -/
theorem switch_context_returns (space : ContextSpace mmu text fine satp va pa size context)
    (kernel : InKernel fine satp u.hart)
    (left : Threads.Steps mmu text fine satp va context u (.switch next) u') (other : next ≠ u.running)
    (trace : List (Threads T × Activity T))
    (run : Run (Threads.Steps mmu text fine satp va context) u' trace t)
    (away : ∀ p ∈ trace, p.1.running ≠ u.running) (back : t.running = u.running) :
    (∀ r ∈ contextSlots.map Prod.fst, t.hart.x r = u.hart.x r) ∧ t.hart.pc = u.hart.x .ra ∧
      ∀ v w i, InKernel fine satp v.hart →
        Threads.Steps mmu text fine satp va context v (.switch i) w →
        Set.EqOn w.hart.memory v.hart.memory
          (Set.Ico (context v.running) (context v.running + contextBytes))ᶜ := by
  have start := switched space kernel left
  have gone : u'.running = next := left.2.2.2.2.1
  have kept : ∀ v, v ∈ Run.visited trace t → InKernel fine satp v.hart ∧
      Stored v.hart.memory (context u.running) u.hart.x contextSlots ∧ v.started u.running := by
    apply run.invariant_when (fun v => InKernel fine satp v.hart ∧
      Stored v.hart.memory (context u.running) u.hart.x contextSlots ∧ v.started u.running)
      (fun v _ => v.running ≠ u.running)
    · refine ⟨start.1, ?_, left.2.2.2.2.2 ▸ Or.inr (Or.inl rfl)⟩
      rw [start.2.1]
      exact stored_saveAll (by decide)
    · intro v activity w before elsewhere taken
      refine ⟨?_, stored_of_steps space before.1 before.2.1 before.2.2 elsewhere taken⟩
      exact inKernel_of_run space before.1 (Run.single taken)
    · exact away
  cases run with
  | nil => exact absurd (gone.symm.trans back) other
  | @snoc front v _ activity run taken =>
      have elsewhere := away (v, activity) (by simp)
      have before := kept v (List.mem_append_left _ (List.mem_map_of_mem (f := Prod.fst)
        (show (v, activity) ∈ front ++ [(v, activity)] by simp)))
      have after := kept t (Run.last_mem_visited _ _)
      cases activity with
      | work => exact absurd (taken.2.1.symm.trans back) elsewhere
      | switch next' =>
          have here : next' = u.running := taken.2.2.2.2.1.symm.trans back
          have resumed := switched space before.1 taken
          have restored : ∀ r ∈ contextSlots.map Prod.fst, t.hart.x r = u.hart.x r := by
            intro r known
            rw [resumed.2.2.1, here]
            exact loadAll_of_mem after.2.1 r known
          exact ⟨restored, resumed.2.2.2.trans (restored .ra (by decide)),
            fun v w i inKernel switches => written_by_switch space inKernel switches⟩

end Threads

namespace Board

def switchText : Text := assemble 0x1000 switchContext

def contextOf (thread : Bool) : Nat := if thread then 0x3000 else 0x2000

theorem switchSpace : ContextSpace bare switchText (fun _ => True) 0 0x1000#64 0x1000 116
    contextOf where
  code := located_assemble 0x1000 [] switchContext []
  fetches := window_bare _ 0 .fetch 0x1000 116 (by decide)
  stores := by
    intro thread
    apply window_bare
    cases thread <;> decide
  loads := by
    intro thread
    apply window_bare
    cases thread <;> decide
  aligned := by decide
  apart := by decide
  closed := fun _ _ _ _ _ _ => trivial

def calling (m : Memory) (thread : Bool) : Hart where
  x := fun r => if r = .a0 then BitVec.ofNat 64 (contextOf thread)
    else if r = .a1 then BitVec.ofNat 64 (contextOf (!thread)) else if thread then 8 else 7
  csr := fun _ => 0
  previous := .user
  privilege := .supervisor
  pc := 0x1000#64
  memory := m

theorem switch_of_calling (m : Memory) (thread : Bool) (started : Bool → Prop) :
    ∃ h', Threads.Steps bare switchText (fun _ => True) 0 0x1000#64 contextOf
      ⟨calling m thread, thread, started⟩ (.switch !thread)
      ⟨h', !thread, fun i => i = !thread ∨ i = thread ∨ started i⟩ := by
  have old : (calling m thread).x .a0 = BitVec.ofNat 64 (contextOf thread) := rfl
  have new : (calling m thread).x .a1 = BitVec.ofNat 64 (contextOf !thread) := rfl
  have here : At bare (fun _ => True) 0x1000#64 0x1000 116 (calling m thread) 0 :=
    ⟨trivial, rfl, switchSpace.fetches, rfl⟩
  rcases switchContext_spec here switchSpace.code (le_refl _)
    (by rw [old]; exact switchSpace.stores thread) (by rw [new]; exact switchSpace.loads !thread)
    (by rw [old]; exact word_aligned (switchSpace.aligned _))
    (by rw [new]; exact word_aligned (switchSpace.aligned _)) (fun _ _ _ _ _ => trivial) with
    ⟨h', ran, -⟩
  exact ⟨h', rfl, rfl, rfl, ran, rfl, rfl⟩

end Board

theorem first_thread_returns : ∃ (t : Threads Bool) (trace : List (Threads Bool × Activity Bool)),
    Run (Threads.Steps bare Board.switchText (fun _ => True) 0 0x1000#64 Board.contextOf)
      ⟨Board.calling (fun _ => 0) false, false, fun _ => False⟩ trace t ∧ trace.length = 3 ∧
    t.running = false ∧ t.hart.x .s0 = 7 ∧ t.hart.pc = 7 := by
  rcases Board.switch_of_calling (fun _ => 0) false (fun _ => False) with ⟨h₁, left⟩
  rcases Board.switch_of_calling h₁.memory true
    (fun i => i = true ∨ i = false ∨ False) with ⟨h₂, returned⟩
  have worked : Threads.Steps bare Board.switchText (fun _ => True) 0 0x1000#64
      Board.contextOf ⟨h₁, true, fun i => i = true ∨ i = false ∨ False⟩ .work
      ⟨Board.calling h₁.memory true, true, fun i => i = true ∨ i = false ∨ False⟩ :=
    ⟨⟨trivial, rfl, rfl⟩, rfl, rfl, fun _ _ _ _ => rfl⟩
  have run := (Run.single worked).append (Run.single returned)
  have kept := switch_context_returns Board.switchSpace ⟨trivial, rfl, rfl⟩ left (by decide) _ run
    (by simp) rfl
  exact ⟨_, _, (Run.single left).append run, rfl, rfl, kept.1 .s0 (by decide), kept.2.1⟩

end Jangri
