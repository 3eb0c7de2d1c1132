import Jangri.Allocator.Runs

/-! When the bitmap and the free lists agree.

`allocate` clears the bit of the class that was asked for, not of the class it emptied. Serving a
request by splitting the only block of a larger class therefore leaves that class marked with an
empty list, and no other step breaks the agreement. -/

namespace Jangri

open Lib

namespace PageAllocator

variable {alloc : PageAllocator} {m : Memory} {free : Nat → List Nat} {live : List Block}

theorem agree_after_reuse_iff (bitmaps : Bitmap) (multiple v a : Nat) (rest : List Nat)
    (positive : 0 < multiple) (enough : multiple ≤ v) (high : v ≤ numMultiples)
    (member : ∀ k, bitmaps.Member k ↔ (v ≠ multiple ∧ k = v - multiple) ∨
      (alloc.bitmaps.Member k ∧ (rest = [] → k ≠ multiple)))
    (first : free (v - 1) = a :: rest) (agree : alloc.Agree free) :
    (∀ i < numMultiples, bitmaps.Member (i + 1) ↔ freeAfterReuse free multiple v a rest i ≠ []) ↔
      v = multiple ∨ rest ≠ [] := by
  have popped : Function.update free (v - 1) rest (v - 1) = rest := Function.update_self _ _ _
  have listed : alloc.bitmaps.Member v := by
    have := (agree (v - 1) (by omega)).mpr (by rw [first]; simp)
    rwa [Nat.sub_add_cancel (by omega)] at this
  constructor
  · intro after
    by_contra broken
    obtain ⟨split, empty⟩ : v ≠ multiple ∧ rest = [] := by
      simpa [not_or] using broken
    have stale : bitmaps.Member (v - 1 + 1) := by
      rw [Nat.sub_add_cancel (by omega), member]
      exact Or.inr ⟨listed, fun _ => split⟩
    have nonempty := (after (v - 1) (by omega)).mp stale
    unfold freeAfterReuse at nonempty
    rw [if_neg split, Function.update_of_ne (by omega), popped] at nonempty
    exact nonempty empty
  · intro kept i inside
    rw [member]
    -- Away from the class popped from, the popped lists are the old ones.
    have same : alloc.bitmaps.Member (i + 1) ∧ (rest = [] → i + 1 ≠ multiple) ↔
        Function.update free (v - 1) rest i ≠ [] := by
      by_cases here : i = v - 1
      · subst here
        rw [popped, Nat.sub_add_cancel (by omega)]
        constructor
        · rintro ⟨-, h⟩ empty
          rcases kept with rfl | nonempty
          · exact h empty rfl
          · exact nonempty empty
        · exact fun nonempty => ⟨listed, fun empty => absurd empty nonempty⟩
      · rw [Function.update_of_ne here, ← agree i inside]
        constructor
        · exact And.left
        · refine fun old => ⟨old, fun empty equal => ?_⟩
          rcases kept with rfl | nonempty
          · omega
          · exact nonempty empty
    unfold freeAfterReuse
    by_cases split : v = multiple
    · rw [if_pos split, ← same]
      simp [split]
    · rw [if_neg split]
      by_cases here : i = v - multiple - 1
      · subst here
        simp only [Function.update_self]
        refine ⟨by simp, fun _ => Or.inl ⟨split, by omega⟩⟩
      · rw [Function.update_of_ne here, ← same]
        constructor
        · rintro (⟨-, equal⟩ | old)
          · omega
          · exact old
        · exact Or.inr

theorem agree_after_deallocate (bitmaps : Bitmap) (i addr : Nat)
    (member : ∀ k, bitmaps.Member k ↔ k = i + 1 ∨ alloc.bitmaps.Member k)
    (agree : alloc.Agree free) (j : Nat) (inside : j < numMultiples) :
    bitmaps.Member (j + 1) ↔ Function.update free i (free i ++ [addr]) j ≠ [] := by
  rw [member, agree j inside]
  by_cases here : j = i
  · subst here
    simp
  · simp [here]

theorem allocate_returns (wf : alloc.WellFormed m free live) (agree : alloc.Agree free)
    (nodeId size : Nat) (big : pageSize ≤ size) (whole : size % pageSize = 0) :
    ∃ result, alloc.allocate ⟨m, nodeId⟩ size = .ok result := by
  obtain ⟨answer, found, onSome, -⟩ :=
    alloc.bitmaps.firstAvailable_spec (size / pageSize) (multiple_pos size big)
  cases answer with
  | some v =>
      obtain ⟨enough, member, least⟩ := onSome v rfl
      have high : v ≤ numMultiples := Bitmap.Member.le _ _ member
      have positive := multiple_pos size big
      have nonempty : free (v - 1) ≠ [] := by
        rw [← agree (v - 1) (by omega), Nat.sub_add_cancel (by omega)]
        exact member
      obtain ⟨a, rest, first⟩ := List.exists_cons_of_ne_nil nonempty
      obtain ⟨alloc', store', served, -, -⟩ := allocate_reuse wf nodeId size v a rest big whole found
        enough high (fun different => least _ (le_refl _) (by omega)) first
      exact ⟨_, served⟩
  | none =>
      rw [allocate_of_unavailable _ size big whole found wf]
      split
      · exact ⟨_, rfl⟩
      · exact ⟨_, rfl⟩

end PageAllocator

namespace System

def Agrees (sys : System) : Prop :=
  ∀ k, 1 ≤ k → k ≤ numMultiples →
    (sys.alloc.bitmaps.isAvailable k = .ok true ↔ (sys.headOf k).isSome = true)

def Serves (sys : System) : Prop :=
  ∀ size, pageSize ≤ size → size % pageSize = 0 →
    ∃ result, sys.alloc.allocate sys.store size = .ok result

/-- The request would split the only block of its class: every class from the requested one up to
`v` is empty, and class `v` holds a single block. -/
def Strands (sys : System) (size : Nat) : Prop :=
  ∃ v, size / pageSize < v ∧ v ≤ numMultiples ∧
    (∀ k, size / pageSize ≤ k → k < v → sys.headOf k = none) ∧
    ∃ a, sys.headOf v = some a ∧ (readNode sys.store.memory a).next = none

def KeepsAgreement (sys : System) : Call → Prop
  | .allocate size => ¬ sys.Strands size
  | .deallocate _ _ => True
  | .write _ _ => True

theorem headOf_isSome_iff (sys : System) (free : Nat → List Nat)
    (wf : sys.alloc.WellFormed sys.store.memory free sys.live) (k : Nat) (low : 1 ≤ k)
    (high : k ≤ numMultiples) : (sys.headOf k).isSome = true ↔ free (k - 1) ≠ [] := by
  have inside : k - 1 < numMultiples := by omega
  have chain := wf.chains ⟨k - 1, inside⟩
  rw [headOf, PageAllocator.getList_eq _ _ inside, Option.bind_some, Option.isSome_iff_ne_none, Ne,
    chain.head_eq_none_iff]

theorem agrees_iff (sys : System) (free : Nat → List Nat)
    (wf : sys.alloc.WellFormed sys.store.memory free sys.live) :
    sys.Agrees ↔ sys.alloc.Agree free := by
  have bridge : ∀ k, 1 ≤ k → k ≤ numMultiples →
      (sys.alloc.bitmaps.isAvailable k = .ok true ↔ sys.alloc.bitmaps.Member k) := by
    intro k low high
    obtain ⟨answer, called, meaning⟩ := sys.alloc.bitmaps.isAvailable_spec k low high
    rw [called, ← meaning]
    simp
  constructor
  · intro agrees i inside
    have := agrees (i + 1) (by omega) (by omega)
    rw [bridge _ (by omega) (by omega), headOf_isSome_iff sys free wf _ (by omega) (by omega)] at this
    exact this
  · intro agree k low high
    rw [bridge k low high, headOf_isSome_iff sys free wf k low high]
    have := agree (k - 1) (by omega)
    rwa [Nat.sub_add_cancel low] at this

theorem strands_iff (sys : System) (free : Nat → List Nat)
    (wf : sys.alloc.WellFormed sys.store.memory free sys.live) (size : Nat)
    (positive : 0 < size / pageSize) :
    sys.Strands size ↔ ∃ v a, size / pageSize < v ∧ v ≤ numMultiples ∧
      (∀ k, size / pageSize ≤ k → k < v → free (k - 1) = []) ∧ free (v - 1) = [a] := by
  have empty : ∀ k, 1 ≤ k → k ≤ numMultiples → (sys.headOf k = none ↔ free (k - 1) = []) := by
    intro k low high
    have := headOf_isSome_iff sys free wf k low high
    rw [Option.isSome_iff_ne_none] at this
    exact not_iff_not.mp this
  have single : ∀ v a, 1 ≤ v → v ≤ numMultiples →
      (sys.headOf v = some a ∧ (readNode sys.store.memory a).next = none ↔ free (v - 1) = [a]) := by
    intro v a low high
    have inside : v - 1 < numMultiples := by omega
    have chain := wf.chains ⟨v - 1, inside⟩
    rw [headOf, PageAllocator.getList_eq _ _ inside, Option.bind_some]
    simp only at chain
    cases nodes : free (v - 1) with
    | nil =>
        rw [nodes] at chain
        have none_ : (sys.alloc.list ⟨v - 1, inside⟩).head = none := chain
        simp [none_]
    | cons b rest =>
        rw [nodes] at chain
        obtain ⟨head, -, -, -, -, tail⟩ := chain
        rw [head, Option.some_inj]
        constructor
        · rintro ⟨rfl, ends⟩
          rw [ends] at tail
          rw [tail.head_eq_none_iff.mp rfl]
        · intro one
          obtain ⟨rfl, rfl⟩ : b = a ∧ rest = [] := by simpa using one
          exact ⟨rfl, tail⟩
  constructor
  · rintro ⟨v, above, high, before, a, only⟩
    exact ⟨v, a, above, high,
      fun k low lt => (empty k (by omega) (by omega)).mp (before k low lt),
      (single v a (by omega) high).mp only⟩
  · rintro ⟨v, a, above, high, before, only⟩
    exact ⟨v, above, high,
      fun k low lt => (empty k (by omega) (by omega)).mpr (before k low lt),
      a, (single v a (by omega) high).mpr only⟩

theorem agrees_after_allocate (start stop : Nat) (sys sys' : System) (size : Nat)
    (inv : Inv start stop sys) (agrees : sys.Agrees) (taken : sys.step (.allocate size) = .ok sys') :
    sys'.Agrees ↔ ¬ sys.Strands size := by
  obtain ⟨free, wf, -, -, -⟩ := inv
  have agree := (agrees_iff sys free wf).mp agrees
  obtain ⟨result, alloc', store', called, rfl⟩ := step_allocate _ _ _ taken
  obtain ⟨big, whole⟩ := PageAllocator.allocate_small _ _ _ _ called
  have positive := PageAllocator.multiple_pos size big
  rw [strands_iff sys free wf size positive]
  obtain ⟨answer, found, onSome, onNone⟩ :=
    sys.alloc.bitmaps.firstAvailable_spec (size / pageSize) positive
  have nonempty : ∀ k, 1 ≤ k → k ≤ numMultiples → (free (k - 1) ≠ [] ↔ sys.alloc.bitmaps.Member k) := by
    intro k low high
    rw [← agree (k - 1) (by omega), Nat.sub_add_cancel low]
  cases answer with
  | some v =>
      obtain ⟨enough, member, least⟩ := onSome v rfl
      have high : v ≤ numMultiples := Bitmap.Member.le _ _ member
      obtain ⟨a, rest, first⟩ :=
        List.exists_cons_of_ne_nil ((nonempty v (by omega) high).mpr member)
      obtain ⟨alloc'', store'', served, done, bits, -⟩ := PageAllocator.allocate_reuse wf
        sys.store.nodeId size v a rest big whole found enough high
        (fun different => least _ (le_refl _) (by omega)) first
      obtain ⟨rfl, rfl, rfl⟩ : some a = result ∧ alloc'' = alloc' ∧ store'' = store' := by
        simpa [called] using served.symm
      rw [agrees_iff _ _ done.wellFormed]
      have after := PageAllocator.agree_after_reuse_iff alloc''.bitmaps (size / pageSize) v a rest
        positive enough high bits first agree
      rw [PageAllocator.Agree, after]
      constructor
      · rintro kept ⟨w, b, above, high', before, only⟩
        -- The class found by the search is the class the stranding names.
        have same : v = w := by
          by_contra different
          rcases Nat.lt_or_gt_of_ne different with less | more
          · exact absurd (before v enough less) (by rw [first]; simp)
          · exact least w (by omega) more
              ((nonempty w (by omega) high').mp (by rw [only]; simp))
        subst same
        rw [first] at only
        rcases kept with equal | left
        · omega
        · exact left (by simpa using congrArg List.tail only)
      · intro safe
        by_contra broken
        obtain ⟨split, empty⟩ : v ≠ size / pageSize ∧ rest = [] := by simpa [not_or] using broken
        refine safe ⟨v, a, by omega, high, fun k low less => ?_, by rw [first, empty]⟩
        by_contra full
        exact least k low less ((nonempty k (by omega) (by omega)).mp full)
  | none =>
      have clear := onNone rfl
      have unchanged : alloc'.bitmaps = sys.alloc.bitmaps ∧
          alloc'.WellFormed store'.memory free (liveAfter sys.live size result) := by
        by_cases fits : size < sys.alloc.currentSize
        · obtain ⟨alloc'', store'', served, done, bits, -⟩ :=
            PageAllocator.allocate_bump wf sys.store.nodeId size big whole found fits
          obtain ⟨rfl, rfl, rfl⟩ : some _ = result ∧ alloc'' = alloc' ∧ store'' = store' := by
            simpa [called] using served.symm
          exact ⟨bits, done.wellFormed⟩
        · rw [PageAllocator.allocate_of_unavailable _ size big whole found wf, if_neg fits] at called
          cases called
          exact ⟨rfl, wf⟩
      obtain ⟨bits, wf'⟩ := unchanged
      rw [agrees_iff _ free wf']
      refine ⟨fun _ => ?_, fun _ => ?_⟩
      · rintro ⟨v, a, above, high, -, only⟩
        exact clear v (by omega) ((nonempty v (by omega) high).mp (by rw [only]; simp))
      · intro i inside
        simp only [bits]
        exact agree i inside

theorem agrees_step_iff (start stop : Nat) (sys : System) (call : Call) (sys' : System)
    (inv : Inv start stop sys) (agrees : sys.Agrees) (steps : Steps sys call sys') :
    sys'.Agrees ↔ sys.KeepsAgreement call := by
  obtain ⟨valid, taken⟩ := steps
  cases call with
  | allocate size => exact agrees_after_allocate start stop sys sys' size inv agrees taken
  | deallocate addr size =>
      refine ⟨fun _ => trivial, fun _ => ?_⟩
      obtain ⟨free, wf, -, -, -⟩ := inv
      obtain ⟨small, alloc', store', called, rfl⟩ := step_deallocate _ _ _ _ taken
      have positive := PageAllocator.multiple_pos size (wf.pages _ valid).1
      obtain ⟨alloc'', store'', called', done, bits, -⟩ :=
        PageAllocator.deallocate_spec wf sys.store.nodeId ⟨addr, size⟩ valid small
      obtain ⟨rfl, rfl⟩ : alloc'' = alloc' ∧ store'' = store' := by
        simpa [called] using called'.symm
      rw [agrees_iff _ _ done.wellFormed]
      intro i inside
      refine PageAllocator.agree_after_deallocate _ _ _ (fun k => ?_)
        ((agrees_iff sys free wf).mp agrees) i inside
      rw [bits k, Nat.sub_add_cancel positive]
  | write addr byte =>
      refine ⟨fun _ => trivial, fun _ => ?_⟩
      cases taken
      exact agrees

theorem agrees_initial (start stop : Nat) (sys : System) (initial : Initial start stop sys) :
    sys.Agrees := by
  obtain ⟨alloc, store, live⟩ := sys
  obtain ⟨created, -⟩ := initial
  have fresh : alloc.bitmaps = Bitmap.new ∧ ∀ i, (alloc.list i).head = none := by
    unfold PageAllocator.new at created
    by_cases null : start = 0
    · simp [null, panic] at created
    · by_cases ordered : start ≤ stop
      · simp only [null, ordered, if_true, if_false, expect, pure_eq_ok, ok_bind] at created
        cases created
        exact ⟨rfl, fun _ => rfl⟩
      · simp [null, ordered, expect, panic] at created
  intro k low high
  obtain ⟨answer, called, meaning⟩ := alloc.bitmaps.isAvailable_spec k low high
  have inside : k - 1 < numMultiples := by omega
  rw [called, headOf, PageAllocator.getList_eq _ _ inside, Option.bind_some, fresh.2]
  rw [fresh.1] at meaning
  have no := Bitmap.not_member_new k
  cases answer <;> simp_all

/-- The bitmap and the lists agree throughout a run, and every request for whole pages returns,
exactly when no allocation of the run splits the only block of the class it is served from. -/
theorem bitmap_agrees_iff (start stop : Nat) (notNull : start ≠ 0) (ordered : start ≤ stop)
    (bounded : stop < usizeBound) (sys sys' : System) (trace : List (System × Call))
    (initial : Initial start stop sys) (run : Run Steps sys trace sys') :
    (∀ u ∈ Run.visited trace sys', u.Agrees ∧ u.Serves) ↔
      ∀ p ∈ trace, p.1.KeepsAgreement p.2 := by
  have begins := inv_initial start stop notNull ordered bounded sys initial
  have agreement := run.good_iff (Inv start stop) Agrees KeepsAgreement begins
    (agrees_initial start stop sys initial) (inv_step start stop) (agrees_step_iff start stop)
  rw [← agreement]
  constructor
  · exact fun all u hu => (all u hu).1
  · intro all u hu
    refine ⟨all u hu, fun size big whole => ?_⟩
    obtain ⟨free, wf, -⟩ := run.invariant (Inv start stop) begins (inv_step start stop) u hu
    exact PageAllocator.allocate_returns wf ((agrees_iff u free wf).mp (all u hu)) _ size big whole

/-- Serving one page from the only free block, of two pages, leaves class 2 marked and empty; the
next request for two pages panics in `pop_front().unwrap()`. -/
theorem split_strands_class_two :
    Initial 4096 65536 fifteenPages ∧
      ∃ sys' trace, Run Steps fifteenPages trace sys' ∧ ¬ sys'.Agrees ∧
        sys'.alloc.bitmaps.isAvailable 2 = .ok true ∧ sys'.headOf 2 = none ∧
        sys'.alloc.allocate sys'.store 8192 = .error (.panic .unwrapNone) := by
  refine ⟨⟨rfl, rfl⟩, ?_⟩
  have ends : (fifteenPages.runCalls splitCalls).map (fun s =>
      (s.alloc.bitmaps.isAvailable 2, s.headOf 2,
        match s.alloc.allocate s.store 8192 with
        | .ok _ => none
        | .error e => some e)) = some (.ok true, none, some (.panic .unwrapNone)) := by
    decide +kernel
  obtain ⟨sys', ran, values⟩ := Option.map_eq_some_iff.mp ends
  obtain ⟨bit, rest⟩ := Prod.mk.inj values
  obtain ⟨head, panicked⟩ := Prod.mk.inj rest
  obtain ⟨trace, run⟩ := run_of_runCalls splitCalls _ _ ran
  refine ⟨sys', trace, run, fun agrees => ?_, bit, head, ?_⟩
  · have := (agrees 2 (by decide) (by decide)).mp bit
    simp [head] at this
  · split at panicked
    · cases panicked
    next e failed =>
      rw [failed, Option.some.inj panicked]

theorem reuse_keeps_agreement :
    ∃ sys' trace, Run Steps fifteenPages trace sys' ∧
      trace.map Prod.snd = [.allocate 8192, .deallocate 4096 8192, .allocate 8192] ∧
      sys'.live = [⟨4096, 8192⟩] ∧ ∀ u ∈ Run.visited trace sys', u.Agrees ∧ u.Serves := by
  have begins : Initial 4096 65536 fifteenPages := ⟨rfl, rfl⟩
  have ends : (fifteenPages.runCalls [.allocate 8192, .deallocate 4096 8192]).any (fun s =>
      s.headOf 2 = some 4096 && (s.runCalls [.allocate 8192]).any (fun t =>
        t.live = [⟨4096, 8192⟩])) = true := by
    decide +kernel
  obtain ⟨sys₂, ran, rest⟩ := (Option.any_eq_true _ _).mp ends
  obtain ⟨head, served⟩ := (Bool.and_eq_true _ _).mp rest
  obtain ⟨sys₃, again, live⟩ := (Option.any_eq_true _ _).mp served
  obtain ⟨sys₁, taken, ran₁⟩ := first_of_runCalls ran
  obtain ⟨_, given, ran₂⟩ := first_of_runCalls ran₁
  cases ran₂
  obtain ⟨_, taken', ran₃⟩ := first_of_runCalls again
  cases ran₃
  have run : Run Steps fifteenPages [(fifteenPages, .allocate 8192), (sys₁, .deallocate 4096 8192),
      (sys₂, .allocate 8192)] sys₃ :=
    Run.snoc _ (Run.snoc _ (Run.single taken) given) taken'
  refine ⟨sys₃, _, run, rfl, of_decide_eq_true live, ?_⟩
  apply (bitmap_agrees_iff 4096 65536 (by decide) (by decide) (by decide) fifteenPages sys₃ _ begins
    run).mpr
  intro p member
  simp only [List.mem_cons, List.not_mem_nil, or_false] at member
  obtain rfl | rfl | rfl := member
  · rintro ⟨v, -, -, -, a, nonempty, -⟩
    unfold headOf PageAllocator.getList fifteenPages at nonempty
    split at nonempty <;> simp at nonempty
  · trivial
  · rintro ⟨v, above, -, empty, -⟩
    have none_ := empty 2 (by decide) above
    rw [of_decide_eq_true head] at none_
    cases none_

end System

end Jangri
