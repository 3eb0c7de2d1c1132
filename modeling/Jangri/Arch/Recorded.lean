import Jangri.Arch.Teardown
import Jangri.Arch.MapRuns

namespace Jangri

open Lib

structure Recorded (σ : Type) where
  state : σ
  allocated : List Nat
  freed : List (Nat × Nat)

section Recording

variable {σ : Type} {arch : Riscv σ} {halts : Halt → Prop} {r : Recorded σ}

def Riscv.recorded (arch : Riscv σ) : Riscv (Recorded σ) where
  allocate := fun size => ExceptT.mk fun r =>
    ((arch.allocate size).run r.state).map fun p => match p with
      | (.ok page, s) => (.ok page, { r with state := s, allocated := r.allocated ++ [page] })
      | (.error e, s) => (.error e, { r with state := s })
  deallocate := fun addr size r =>
    (arch.deallocate addr size r.state).map fun p =>
      ((), { r with state := p.2, freed := r.freed ++ [(addr, size)] })
  parameterAddress := arch.parameterAddress

theorem wp_recorded_deallocate (addr size : Nat) (post : Unit → Recorded σ → Prop)
    (given : wp (arch.deallocate addr size)
      (fun _ s => post () { r with state := s, freed := r.freed ++ [(addr, size)] }) halts r.state) :
    wp (arch.recorded.deallocate addr size) post halts r := by
  rw [wp_def] at given ⊢
  simp only [Riscv.recorded]
  cases ran : arch.deallocate addr size r.state with
  | error e =>
      rw [ran] at given
      exact given
  | ok p =>
      rw [ran] at given
      exact given

theorem wpr_recorded_allocate (size : Nat) (ok : Nat → Recorded σ → Prop)
    (err : Error → Recorded σ → Prop)
    (given : wpr (arch.allocate size)
      (fun page s => ok page { r with state := s, allocated := r.allocated ++ [page] })
      (fun e s => err e { r with state := s }) halts r.state) :
    wpr (arch.recorded.allocate size) ok err halts r := by
  unfold wpr at given ⊢
  rw [wp_def] at given ⊢
  have unfolded : (arch.recorded.allocate size).run r =
      ((arch.allocate size).run r.state).map fun p => match p with
        | (.ok page, s) => (.ok page, { r with state := s, allocated := r.allocated ++ [page] })
        | (.error e, s) => (.error e, { r with state := s }) := rfl
  rw [unfolded]
  cases ran : (arch.allocate size).run r.state with
  | error e =>
      rw [ran] at given
      exact given
  | ok p =>
      rw [ran] at given
      rcases p with ⟨result, s⟩
      cases result with
      | ok page => exact given
      | error e => exact given

end Recording

section Noting

variable {σ : Type} [HasMemory σ] {arch : Riscv σ} {halts : Halt → Prop}

instance : HasMemory (Recorded σ) where
  memory := fun r => memory r.state
  setMemory := fun r m => { r with state := setMemory r.state m }
  memory_setMemory := fun r m => memory_setMemory r.state m

@[simp] theorem state_setMemory (r : Recorded σ) (m : Memory) :
    (setMemory r m).state = setMemory r.state m := rfl

@[simp] theorem freed_setMemory (r : Recorded σ) (m : Memory) :
    (setMemory r m).freed = r.freed := rfl

/-- The pages of the tree are its root and those that were handed out, each of them once, and
nothing has been given back. -/
structure Noted (inv : Set Nat → σ → Prop) (root : Nat) (T : Set Nat) (r : Recorded σ) : Prop where
  held : inv T r.state
  nodup : (root :: r.allocated).Nodup
  pages : ∀ x, x ∈ T ↔ x ∈ root :: r.allocated
  nothing : r.freed = []

theorem noted_source {inv : Set Nat → σ → Prop} (source : PageSource arch.allocate inv halts)
    (root : Nat) : PageSource arch.recorded.allocate (Noted inv root) halts where
  allocated := by
    intro T r noted
    apply wpr_recorded_allocate
    apply wpr_weaken (source.allocated T r.state noted.held)
    · intro page s done
      rcases done with ⟨aligned, bounded, fresh, zero, same, held⟩
      refine ⟨aligned, bounded, fresh, zero, same, held, ?_, ?_, noted.nothing⟩
      · have new : page ∉ root :: r.allocated := fun known => fresh ((noted.pages page).mpr known)
        have turned : ([page] ++ root :: r.allocated).Nodup := List.nodup_cons.mpr ⟨new, noted.nodup⟩
        exact List.nodup_append_comm.mp turned
      · intro x
        rw [← List.cons_append, List.mem_append, List.mem_singleton, ← noted.pages x,
          Set.mem_insert_iff]
        exact or_comm
    · intro e s done
      exact ⟨done.1, done.2, noted.nodup, noted.pages, noted.nothing⟩
  written := by
    intro T r t i entry noted present low
    exact ⟨source.written T r.state t i entry noted.held present low, noted.nodup, noted.pages,
      noted.nothing⟩
  overflow := source.overflow

end Noting

end Jangri
