import Jangri.Arch.Chart
import Jangri.Kernel.AddressSpace

namespace Jangri

open Lib

def GlobalState.Roomy (pages : Nat) (s : GlobalState) : Prop :=
  s.allocator.bitmaps = Bitmap.new ∧ pages * pageSize < s.allocator.currentSize

theorem GlobalState.Roomy.less {pages fewer : Nat} {s : GlobalState} (roomy : s.Roomy pages)
    (less : fewer ≤ pages) : s.Roomy fewer :=
  ⟨roomy.1, Nat.lt_of_le_of_lt (Nat.mul_le_mul_right pageSize less) roomy.2⟩

def Scene.solitary (pid root trapframe : Nat) : Scene where
  pid := pid
  root := root
  trapframe := trapframe
  survives := True
  processes := []
  object := Process.default
  current := none
  foreign := ∅
  before := fun _ => 0

section Bump

variable {plat : Platform} {scene : Scene} {U F : Set Nat} {s : GlobalState}

theorem firstAvailable_new {multiple : Nat} (positive : 0 < multiple) :
    Bitmap.new.firstAvailable multiple = .ok none := by
  rcases Bitmap.new.firstAvailable_spec multiple positive with ⟨answer, found, onSome, -⟩
  cases answer with
  | none => exact found
  | some v => exact absurd (onSome v rfl).2.1 (Bitmap.not_member_new v)

theorem wpr_allocatorAllocate_roomy {free : Nat → List Nat} {live : List Block}
    (wf : s.allocator.WellFormed s.memory free live) {pages size : Nat} (big : pageSize ≤ size)
    (whole : size % pageSize = 0) (roomy : s.Roomy (pages + size / pageSize)) :
    wpr (allocatorAllocate size) (fun _ t => t.Roomy pages ∧ t.held = s.held) (fun _ _ => False)
      (fun _ => False) s := by
  rcases roomy with ⟨new, room⟩
  have exact_ : size / pageSize * pageSize = size := Nat.div_mul_cancel (Nat.dvd_of_mod_eq_zero whole)
  rw [Nat.add_mul, exact_] at room
  have found : s.allocator.bitmaps.firstAvailable (size / pageSize) = .ok none := by
    rw [new]
    exact firstAvailable_new (PageAllocator.multiple_pos size big)
  have served := PageAllocator.allocate_of_unavailable ⟨s.memory, s.nodeId⟩ size big whole found wf
  rw [if_pos (by omega)] at served
  unfold wpr
  rw [wp_def, allocatorAllocate, ExceptT.run_mk, served]
  refine ⟨⟨new, ?_⟩, rfl⟩
  change pages * pageSize < s.allocator.currentSize - size
  omega

theorem roomySupply (plat : Platform) (scene : Scene) (U F : Set Nat) (origin : GlobalState)
    {held : List Lock} (unlocked : .allocator ∉ held) :
    PageSupply (arch plat).allocate
      (fun T s => Accounted plat scene U F T s ∧ Steady (U ∪ F) origin s)
      (fun n s => s.Roomy n ∧ s.held = held) (fun _ => False) (fun _ => False) where
  allocated := by
    intro n T s known stocked
    rcases known.1 with ⟨free, live, owner, ledger⟩
    have available : .allocator ∉ s.held := by
      rw [stocked.2]
      exact unlocked
    change wpr (guarded _ _) _ _ _ _
    rw [wpr_guarded _ _ _ _ available, wpr_bind, wpr_lift, wp_liftRust,
      assert_of_true _ _ (le_refl pageSize)]
    apply wpr_weaken (wpr_allocatorAllocate_roomy (s := { s with held := .allocator :: s.held })
      ledger.wf (le_refl pageSize) (by decide) stocked.1)
    · rintro _ t ⟨roomy, same⟩
      refine ⟨roomy, ?_⟩
      simp only [same, List.erase_cons_head]
      exact stocked.2
    · exact fun _ _ failed => failed
  written := fun _ _ _ stocked => stocked
  less := fun n s stocked => ⟨stocked.1.less (Nat.le_succ n), stocked.2⟩

/-- A block from the bump region. -/
theorem wpr_allocate_roomy {free : Nat → List Nat} {live : List Block}
    (wf : s.allocator.WellFormed s.memory free live) (unlocked : .allocator ∉ s.held)
    {pages size : Nat} (big : pageSize ≤ size) (whole : size % pageSize = 0)
    (roomy : s.Roomy (pages + size / pageSize)) :
    wpr (GlobalState.allocate size)
      (fun a t => (∃ free', PageAllocator.Allocated s.allocator t.allocator s.memory t.memory free
        free' live size a) ∧
        t = { s with allocator := t.allocator, memory := t.memory, nodeId := t.nodeId } ∧
        t.Roomy pages)
      (fun _ _ => False) (fun _ => False) s := by
  have serves : wpr (GlobalState.allocate size) (fun _ t => t.Roomy pages) (fun _ _ => False)
      (fun _ => False) s := by
    rw [GlobalState.allocate, wpr_guarded _ _ _ _ unlocked]
    apply wpr_weaken (wpr_allocatorAllocate_roomy (s := { s with held := .allocator :: s.held }) wf big
      whole roomy)
    · exact fun _ t served => served.1
    · exact fun _ _ failed => failed
  apply wpr_mono (wpr_and (wpr_allocateBlock wf size) serves)
  · rintro a t ⟨⟨allocated, rest⟩, remaining⟩
    exact ⟨allocated, rest, remaining⟩
  · exact fun _ _ failed => failed.2
  · exact fun _ stopped => stopped.2

theorem wpr_map_roomy (placed : Placed plat) {calls : List MapCall}
    (rooted : Rooted (Accounted plat scene U F) scene.root s)
    (charted : Charted scene.root calls s.memory) (archFree : .arch ∉ s.held)
    (allocatorFree : .allocator ∉ s.held) (c : MapCall) (sound : c.Sound) (inside : c.va < usizeBound)
    (few : c.pages ≤ 2 ^ 36) (off : ∀ d ∈ calls, c.Apart d) {pages : Nat}
    (roomy : s.Roomy (pages + 3 * tablesFor c.va c.pages)) :
    wpr (GlobalState.map plat scene.root c.va c.pa c.size c.read c.write c.execute c.user)
      (fun _ t => Rooted (Accounted plat scene U F) scene.root t ∧
        Charted scene.root (c :: calls) t.memory ∧ t.Roomy pages ∧ t.held = s.held ∧
        Steady (U ∪ F) s t)
      (fun _ _ => False) (fun _ => False) s := by
  have locked : Rooted (fun T t => Accounted plat scene U F T t ∧ Steady (U ∪ F) s t) scene.root
      { s with held := .arch :: s.held } := ⟨rooted.1, rooted.2, rfl, fun _ _ => rfl⟩
  have chart : Charted scene.root calls (memory { s with held := .arch :: s.held }) := charted
  have unlocked : .allocator ∉ Lock.arch :: s.held := by simp [allocatorFree]
  have small : c.pa < usizeBound := by
    have bounded := sound.bounded
    omega
  have source := accountedSource placed scene U F s
  rw [GlobalState.map, wpr_guarded _ _ _ _ archFree]
  apply wpr_mono (wpr_and (call_charted (arch plat) source c small locked chart)
    (call_supplied (arch plat) source (roomySupply plat scene U F s unlocked) pages c locked chart sound
      inside few off ⟨roomy, rfl⟩))
  · rintro _ t ⟨⟨grown, known, -⟩, remaining, held⟩
    refine ⟨⟨grown.1, grown.2.1⟩, known, remaining, ?_, grown.2.2.object, grown.2.2.memory⟩
    simp only [held, List.erase_cons_head]
  · exact fun _ _ failed => failed.2
  · exact fun _ stopped => stopped.2

end Bump

end Jangri
