import Jangri.Allocator.Operations
import Jangri.Lib.Answer

/-! What the allocator will answer.

Whether `allocate` succeeds, returns `None` or panics depends on three things only: which classes the
bitmap marks, how many blocks each class has, and how much is left of the bump region. -/

namespace Jangri

open Lib

structure Pool where
  marked : Nat → Bool
  blocks : Nat → Nat
  room : Nat

namespace Pool

@[irreducible] def first (pool : Pool) (multiple : Nat) : Option Nat :=
  (List.range (numMultiples + 1)).find? fun v => decide (multiple ≤ v ∧ pool.marked v = true)

/-- One block of class `v` is cut down to `multiple` pages. The class that loses its mark with its last
block is the requested one. -/
def cut (pool : Pool) (multiple v : Nat) : Pool where
  marked := fun k => decide ((v ≠ multiple ∧ k = v - multiple) ∨
    (pool.marked k = true ∧ (pool.blocks (v - 1) = 1 → k ≠ multiple)))
  blocks :=
    let popped := Function.update pool.blocks (v - 1) (pool.blocks (v - 1) - 1)
    if v = multiple then popped
    else Function.update popped (v - multiple - 1) (popped (v - multiple - 1) + 1)
  room := pool.room

/-- A request for `multiple` pages. A marked class without blocks makes `pop_front().unwrap()` panic. -/
def take (multiple : Nat) (pool : Pool) : Answer Pool :=
  match pool.first multiple with
  | some v => if pool.blocks (v - 1) = 0 then .stuck else .served (pool.cut multiple v)
  | none =>
      if multiple * pageSize < pool.room then
        .served { pool with room := pool.room - multiple * pageSize }
      else .refused

structure Counts (pool : Pool) (alloc : PageAllocator) (free : Nat → List Nat) : Prop where
  marked : ∀ k, pool.marked k = true ↔ alloc.bitmaps.Member k
  blocks : ∀ i < numMultiples, pool.blocks i = (free i).length
  room : pool.room = alloc.currentSize

def Of (pool : Pool) (alloc : PageAllocator) (m : Memory) : Prop :=
  ∃ free live, alloc.WellFormed m free live ∧ pool.Counts alloc free

end Pool

theorem Chain.unique {m : Memory} {size : Nat} {prev node : Option Nat} {nodes nodes' : List Nat}
    (chain : Chain m size prev node nodes) (chain' : Chain m size prev node nodes') :
    nodes = nodes' := by
  induction nodes generalizing prev node nodes' with
  | nil =>
      cases nodes' with
      | nil => rfl
      | cons a rest =>
          have empty : node = none := chain
          rw [empty] at chain'
          cases chain'.1
  | cons a rest ih =>
      cases nodes' with
      | nil =>
          have empty : node = none := chain'
          rw [empty] at chain
          cases chain.1
      | cons b rest' =>
          have same : a = b := Option.some.inj (chain.1.symm.trans chain'.1)
          subst same
          rw [ih chain.2.2.2.2.2 chain'.2.2.2.2.2]

section Predicted

variable {pool : Pool} {alloc : PageAllocator} {m : Memory} {free : Nat → List Nat} {live : List Block}

theorem PageAllocator.WellFormed.free_unique (wf : alloc.WellFormed m free live)
    {free' : Nat → List Nat} {live' : List Block} (wf' : alloc.WellFormed m free' live') :
    ∀ i < numMultiples, free i = free' i :=
  fun i inside => (wf.chains ⟨i, inside⟩).unique (wf'.chains ⟨i, inside⟩)

theorem Pool.Of.counts (known : pool.Of alloc m) (wf : alloc.WellFormed m free live) :
    pool.Counts alloc free := by
  rcases known with ⟨free', live', wf', counts⟩
  refine ⟨counts.marked, ?_, counts.room⟩
  intro i inside
  rw [counts.blocks i inside, wf.free_unique wf' i inside]

theorem Pool.Of.write (known : pool.Of alloc m) (wf : alloc.WellFormed m free live) (m' : Memory)
    (changed : ∀ x, m' x ≠ m x → 0 < cover live x) : pool.Of alloc m' := by
  refine ⟨free, live, wf.memory_congr m' ?_, known.counts wf⟩
  intro x listed
  by_contra different
  exact wf.not_unused_of_live x (changed x different) (Or.inl listed)

theorem exists_pool (wf : alloc.WellFormed m free live) : ∃ pool : Pool, pool.Of alloc m := by
  refine ⟨⟨fun k => decide (0 < k) && alloc.bitmaps.bit (k - 1), fun i => (free i).length,
    alloc.currentSize⟩, free, live, wf, ?_, fun _ _ => rfl, rfl⟩
  intro k
  simp [Bitmap.Member]

theorem Pool.Counts.first_eq (counts : pool.Counts alloc free) {multiple : Nat}
    (positive : 0 < multiple) :
    alloc.bitmaps.firstAvailable multiple = .ok (pool.first multiple) := by
  rcases alloc.bitmaps.firstAvailable_spec multiple positive with ⟨answer, found, onSome, onNone⟩
  rw [found]
  apply congrArg Except.ok
  symm
  unfold Pool.first
  cases answer with
  | some v =>
      rcases onSome v rfl with ⟨enough, member, least⟩
      have high : v ≤ numMultiples := Bitmap.Member.le _ _ member
      rw [List.find?_range_eq_some]
      refine ⟨decide_eq_true ⟨enough, (counts.marked v).mpr member⟩, List.mem_range.mpr (by omega), ?_⟩
      intro k low
      by_cases above : multiple ≤ k
      · have absent := least k above low
        rw [← counts.marked] at absent
        simp [absent]
      · simp [above]
  | none =>
      rw [List.find?_eq_none]
      intro k _
      simp only [decide_eq_true_eq, not_and]
      intro above marked
      exact onNone rfl k above ((counts.marked k).mp marked)

/-- One block of the class has been taken, and the rest of it put back. -/
theorem Pool.cut_blocks (blocks : ∀ i < numMultiples, pool.blocks i = (free i).length)
    {multiple v a : Nat} {rest : List Nat} (queue : free (v - 1) = a :: rest) :
    ∀ i < numMultiples, (pool.cut multiple v).blocks i =
      (PageAllocator.freeAfterReuse free multiple v a rest i).length := by
  have popped : ∀ i < numMultiples,
      Function.update pool.blocks (v - 1) (pool.blocks (v - 1) - 1) i =
        (Function.update free (v - 1) rest i).length := by
    intro i inside
    by_cases here : i = v - 1
    · rw [here, Function.update_self, Function.update_self, blocks (v - 1) (by omega), queue]
      rfl
    · rw [Function.update_of_ne here, Function.update_of_ne here, blocks i inside]
  intro i inside
  simp only [Pool.cut, PageAllocator.freeAfterReuse]
  by_cases all : v = multiple
  · rw [if_pos all, if_pos all]
    exact popped i inside
  · rw [if_neg all, if_neg all]
    by_cases here : i = v - multiple - 1
    · rw [← here, Function.update_self, Function.update_self, List.length_append, popped i inside]
      rfl
    · rw [Function.update_of_ne here, Function.update_of_ne here]
      exact popped i inside

/-- `allocate` ends as its pool says. -/
theorem Pool.Counts.allocate (counts : pool.Counts alloc free) (wf : alloc.WellFormed m free live)
    (nodeId : Nat) {size : Nat} (big : pageSize ≤ size) (whole : size % pageSize = 0) :
    match alloc.allocate ⟨m, nodeId⟩ size with
    | .ok (some _, alloc', store') => ∃ pool', pool.take (size / pageSize) = .served pool' ∧
        pool'.Of alloc' store'.memory
    | .ok (none, _, _) => pool.take (size / pageSize) = .refused
    | .error _ => pool.take (size / pageSize) = .stuck := by
  have positive := PageAllocator.multiple_pos size big
  have exact_ : size / pageSize * pageSize = size := Nat.div_mul_cancel (Nat.dvd_of_mod_eq_zero whole)
  have found := counts.first_eq positive
  cases answer : pool.first (size / pageSize) with
  | some v =>
      rw [answer] at found
      rcases alloc.bitmaps.firstAvailable_spec (size / pageSize) positive with
        ⟨answer', found', onSome, -⟩
      rw [found] at found'
      rcases onSome v (Except.ok.inj found').symm with ⟨enough, member, least⟩
      have high : v ≤ numMultiples := Bitmap.Member.le _ _ member
      have inside : v - 1 < numMultiples := by omega
      have blocks := counts.blocks (v - 1) inside
      cases queue : free (v - 1) with
      | nil =>
          rw [queue, List.length_nil] at blocks
          have empty := (wf.chains ⟨v - 1, inside⟩).head_eq_none_iff.mpr queue
          rw [PageAllocator.allocate_of_available _ size big whole v found,
            PageAllocator.allocateFromList, PageAllocator.getList_eq alloc _ inside]
          simp only [unwrap, pure_eq_ok, ok_bind, LinkedList.popFront_nil _ _ empty, panic, error_bind]
          rw [Pool.take, answer]
          exact if_pos blocks
      | cons a rest =>
          rw [queue, List.length_cons] at blocks
          rcases PageAllocator.allocate_reuse wf nodeId size v a rest big whole found enough high
            (fun different => least _ (le_refl _) (by omega)) queue with
            ⟨alloc', store', served, allocated, bits, bump⟩
          rw [served, Pool.take, answer]
          simp only [blocks, Nat.succ_ne_zero, if_false]
          refine ⟨_, rfl, _, _, allocated.wellFormed, ?_, ?_, ?_⟩
          · intro k
            have last : pool.blocks (v - 1) = 1 ↔ rest = [] := by
              rw [blocks]
              simp
            rw [bits k, Pool.cut, decide_eq_true_eq, counts.marked, last]
          · exact Pool.cut_blocks counts.blocks queue
          · change pool.room = alloc'.currentSize
            rw [counts.room, wf.size, allocated.wellFormed.size, allocated.memoryEnd, bump]
  | none =>
      rw [answer] at found
      rw [PageAllocator.allocate_of_unavailable _ size big whole found wf, Pool.take, answer,
        counts.room]
      simp only [exact_]
      by_cases fits : size < alloc.currentSize
      · rw [if_pos fits, if_pos fits]
        refine ⟨_, rfl, free, ⟨alloc.currentStart, size⟩ :: live, ?_, counts.marked, counts.blocks, ?_⟩
        · have sized := wf.size
          exact (wf.bumpAlloc size big whole (by omega)).fill_live _ size 0 List.mem_cons_self
        · rfl
      · rw [if_neg fits, if_neg fits]

end Predicted

end Jangri
