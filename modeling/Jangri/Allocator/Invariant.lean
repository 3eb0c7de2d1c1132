import Jangri.Allocator.Chain
import Jangri.Allocator.PageAllocator
import Jangri.Lib.Tiling

/-! The allocator invariant and what each operation does to it.

`free i` lists the nodes of class `i` (blocks of `i + 1` pages) and `live` the blocks handed out.
Live blocks, free blocks and the bump region tile the managed interval; every list is a chain of
intact nodes. Splitting a block and releasing one are additions in the cover of that tiling. -/

namespace Jangri

open Lib

def classSize (i : Nat) : Nat := (i + 1) * pageSize

def classBlocks (free : Nat → List Nat) (i : Nat) : List Block :=
  (free i).map fun a => ⟨a, classSize i⟩

def freeBlocks (free : Nat → List Nat) : List Block :=
  (List.range numMultiples).flatMap (classBlocks free)

namespace PageAllocator

def bumpRegion (self : PageAllocator) : Block :=
  ⟨self.currentStart, self.memoryEnd - self.currentStart⟩

structure WellFormed (alloc : PageAllocator) (m : Memory) (free : Nat → List Nat)
    (live : List Block) : Prop where
  notNull : alloc.memoryStart ≠ 0
  bounded : alloc.memoryEnd < usizeBound
  bump : alloc.memoryStart ≤ alloc.currentStart ∧ alloc.currentStart ≤ alloc.memoryEnd
  size : alloc.currentSize = alloc.memoryEnd - alloc.currentStart
  chains : ∀ i : Fin numMultiples,
    Chain m (classSize i) none (alloc.list i).head (free i)
  pages : ∀ b ∈ live, pageSize ≤ b.size ∧ b.size % pageSize = 0
  tiles : Tiles (live ++ freeBlocks free ++ [alloc.bumpRegion]) alloc.memoryStart alloc.memoryEnd
  aligned : ∀ b ∈ live ++ freeBlocks free ++ [alloc.bumpRegion],
    b.addr % pageSize = alloc.memoryStart % pageSize

def Unused (alloc : PageAllocator) (free : Nat → List Nat) (x : Nat) : Prop :=
  0 < cover (freeBlocks free) x ∨ alloc.bumpRegion.Contains x

end PageAllocator

theorem classSize_pos (i : Nat) : 0 < classSize i := by
  simp [classSize, pageSize]

theorem header_le_classSize (i : Nat) : nodeBytes ≤ classSize i := by
  simp only [classSize, nodeBytes, pageSize]
  omega

theorem mem_freeBlocks (free : Nat → List Nat) (b : Block) :
    b ∈ freeBlocks free ↔ ∃ i < numMultiples, ∃ a ∈ free i, b = ⟨a, classSize i⟩ := by
  simp only [freeBlocks, classBlocks, List.mem_flatMap, List.mem_range, List.mem_map]
  constructor
  · rintro ⟨i, hi, a, ha, rfl⟩
    exact ⟨i, hi, a, ha, rfl⟩
  · rintro ⟨i, hi, a, ha, rfl⟩
    exact ⟨i, hi, a, ha, rfl⟩

theorem cover_class_le (free : Nat → List Nat) (i : Nat) (inside : i < numMultiples) (x : Nat) :
    cover (classBlocks free i) x ≤ cover (freeBlocks free) x := by
  rw [freeBlocks, cover_flatMap_range]
  exact Finset.single_le_sum (f := fun i => cover (classBlocks free i) x) (fun _ _ => Nat.zero_le _)
    (Finset.mem_range.mpr inside)

theorem cover_freeBlocks_update (free : Nat → List Nat) (i : Nat) (nodes : List Nat)
    (inside : i < numMultiples) (x : Nat) :
    cover (freeBlocks (Function.update free i nodes)) x + cover (classBlocks free i) x =
      cover (freeBlocks free) x + cover (nodes.map fun a => ⟨a, classSize i⟩) x := by
  rw [freeBlocks, freeBlocks, cover_flatMap_range, cover_flatMap_range]
  have change := sum_change_one numMultiples i (fun j => cover (classBlocks free j) x)
    (fun j => cover (classBlocks (Function.update free i nodes) j) x) inside
    (fun j different => by simp [classBlocks, Function.update_of_ne different])
  simpa [classBlocks] using change

theorem mem_freeBlocks_update {free : Nat → List Nat} {i : Nat} {nodes : List Nat} {b : Block}
    (listed : b ∈ freeBlocks (Function.update free i nodes)) :
    b ∈ freeBlocks free ∨ ∃ a ∈ nodes, b = ⟨a, classSize i⟩ := by
  rcases (mem_freeBlocks _ _).mp listed with ⟨j, hj, c, hc, rfl⟩
  by_cases same : j = i
  · subst same
    rw [Function.update_self] at hc
    exact Or.inr ⟨c, hc, rfl⟩
  · rw [Function.update_of_ne same] at hc
    exact Or.inl ((mem_freeBlocks free _).mpr ⟨j, hj, c, hc, rfl⟩)

theorem freeBlocks_none : freeBlocks (fun _ => []) = [] := by
  simp [freeBlocks, classBlocks]

namespace PageAllocator

namespace WellFormed

variable {alloc : PageAllocator} {m : Memory} {free : Nat → List Nat} {live : List Block}

theorem cover_le_one (wf : alloc.WellFormed m free live) (x : Nat) :
    cover live x + cover (freeBlocks free) x + alloc.bumpRegion.hits x ≤ 1 := by
  have bound := wf.tiles.cover_le_one x
  rw [cover_append, cover_append, cover_cons, cover_nil] at bound
  omega

theorem not_unused_of_live (wf : alloc.WellFormed m free live) (x : Nat)
    (held : 0 < cover live x) : ¬ alloc.Unused free x := by
  have bound := wf.cover_le_one x
  rintro (h | h)
  · omega
  · have := (Block.hits_pos_iff _ _).mpr h
    omega

theorem live_inside (wf : alloc.WellFormed m free live) (b : Block) (present : b ∈ live) :
    alloc.memoryStart ≤ b.addr ∧ b.addr + b.size ≤ alloc.memoryEnd := by
  refine wf.tiles.inside b (by simp [present]) ?_
  have := (wf.pages b present).1
  simp only [pageSize] at this
  omega

theorem live_eq_of_contains (wf : alloc.WellFormed m free live) (a b : Block) (ha : a ∈ live)
    (hb : b ∈ live) (x : Nat) (inA : a.Contains x) (inB : b.Contains x) : a = b := by
  apply wf.tiles.eq_of_contains a b
  · simp [ha]
  · simp [hb]
  · exact inA
  · exact inB

theorem free_mem (i a : Nat) (inside : i < numMultiples) (present : a ∈ free i) :
    (⟨a, classSize i⟩ : Block) ∈ live ++ freeBlocks free ++ [alloc.bumpRegion] := by
  simp only [List.mem_append]
  exact Or.inl (Or.inr ((mem_freeBlocks free _).mpr ⟨i, inside, a, present, rfl⟩))

theorem free_inside (wf : alloc.WellFormed m free live) (i a : Nat) (inside : i < numMultiples)
    (present : a ∈ free i) :
    alloc.memoryStart ≤ a ∧ a + classSize i ≤ alloc.memoryEnd :=
  wf.tiles.inside ⟨a, classSize i⟩ (free_mem i a inside present) (classSize_pos i)

theorem free_nodup (wf : alloc.WellFormed m free live) (i : Nat) (inside : i < numMultiples) :
    (free i).Nodup := by
  have once : ∀ x, cover (classBlocks free i) x ≤ 1 := by
    intro x
    have := wf.cover_le_one x
    have := cover_class_le free i inside x
    omega
  unfold classBlocks at once
  generalize free i = nodes at once
  induction nodes with
  | nil => exact List.nodup_nil
  | cons a rest ih =>
      refine List.nodup_cons.mpr ⟨fun again => ?_, ih fun x => ?_⟩
      · have bound := once a
        have self1 : Block.Contains ⟨a, classSize i⟩ a :=
          ⟨le_refl _, Nat.lt_add_of_pos_right (classSize_pos i)⟩
        have h1 := (Block.hits_pos_iff _ _).mpr self1
        have h2 := (cover_pos_iff (rest.map fun a => ⟨a, classSize i⟩) a).mpr
          ⟨_, List.mem_map.mpr ⟨a, again, rfl⟩, self1⟩
        rw [List.map_cons, cover_cons] at bound
        omega
      · have bound := once x
        rw [List.map_cons, cover_cons] at bound
        omega

theorem free_apart (wf : alloc.WellFormed m free live) (i j a b : Nat) (hi : i < numMultiples)
    (hj : j < numMultiples) (ha : a ∈ free i) (hb : b ∈ free j) (different : a ≠ b) :
    Apart a b := by
  have blocks : (⟨a, classSize i⟩ : Block) ≠ ⟨b, classSize j⟩ := by
    intro same
    exact different (congrArg Block.addr same)
  have left := header_le_classSize i
  have right := header_le_classSize j
  have first := wf.tiles.apart _ _ (free_mem i a hi ha) (free_mem j b hj hb) blocks a
    ⟨le_refl _, Nat.lt_add_of_pos_right (classSize_pos i)⟩
  have second := wf.tiles.apart _ _ (free_mem j b hj hb) (free_mem i a hi ha) (Ne.symm blocks) b
    ⟨le_refl _, Nat.lt_add_of_pos_right (classSize_pos j)⟩
  unfold Apart
  simp only at first second
  omega

theorem free_class_eq (wf : alloc.WellFormed m free live) (i j a : Nat) (hi : i < numMultiples)
    (hj : j < numMultiples) (inI : a ∈ free i) (inJ : a ∈ free j) : i = j := by
  have same := wf.tiles.eq_of_contains ⟨a, classSize i⟩ ⟨a, classSize j⟩
    (free_mem i a hi inI) (free_mem j a hj inJ) a
    ⟨le_refl _, Nat.lt_add_of_pos_right (classSize_pos i)⟩
    ⟨le_refl _, Nat.lt_add_of_pos_right (classSize_pos j)⟩
  have sizes := congrArg Block.size same
  simp only [classSize, pageSize] at sizes
  omega

theorem class_apart (wf : alloc.WellFormed m free live) (i j a b : Nat) (hi : i < numMultiples)
    (hj : j < numMultiples) (ha : a ∈ free i) (hb : b ∈ free j) (different : i ≠ j) :
    Apart a b := by
  apply wf.free_apart i j a b hi hj ha hb
  intro same
  subst same
  exact different (wf.free_class_eq i j a hi hj ha hb)

theorem free_length (wf : alloc.WellFormed m free live) (i : Nat) (inside : i < numMultiples) :
    (free i).length < usizeBound :=
  length_lt_of_pointers (free i) (wf.free_nodup i inside) (wf.chains ⟨i, inside⟩).pointer_of_mem

/-- Changing memory anywhere but in the free blocks keeps the invariant. -/
theorem memory_congr (wf : alloc.WellFormed m free live) (m' : Memory)
    (same : ∀ x, 0 < cover (freeBlocks free) x → m' x = m x) :
    alloc.WellFormed m' free live := by
  refine { wf with chains := fun i => ?_ }
  refine (wf.chains i).congr m m' _ _ _ _ fun a ha => ?_
  apply readNode_congr
  intro x hx
  rw [Set.mem_Ico] at hx
  apply same
  have header := header_le_classSize i
  exact (cover_pos_iff _ _).mpr ⟨⟨a, classSize i⟩,
    (mem_freeBlocks free _).mpr ⟨i, i.isLt, a, ha, rfl⟩, ⟨hx.1, by simp only; omega⟩⟩

theorem congr_live (wf : alloc.WellFormed m free live) (m' : Memory) (b : Block) (held : b ∈ live)
    (same : ∀ x, ¬ b.Contains x → m' x = m x) : alloc.WellFormed m' free live := by
  apply wf.memory_congr
  intro x listed
  apply same
  intro inside
  have once := wf.cover_le_one x
  have taken := (cover_pos_iff live x).mpr ⟨b, held, inside⟩
  omega

theorem header_apart_of_unlisted (i a x : Nat) (inside : i < numMultiples) (present : a ∈ free i)
    (unlisted : cover (freeBlocks free) x = 0) : x < a ∨ a + nodeBytes ≤ x := by
  by_contra close
  have header := header_le_classSize i
  have listed := (cover_pos_iff (freeBlocks free) x).mpr ⟨⟨a, classSize i⟩,
    (mem_freeBlocks free _).mpr ⟨i, inside, a, present, rfl⟩,
    ⟨by simp only; omega, by simp only; omega⟩⟩
  omega

theorem live_apart_free (wf : alloc.WellFormed m free live) (b : Block) (held : b ∈ live)
    (i a : Nat) (inside : i < numMultiples) (present : a ∈ free i) (x : Nat)
    (inB : b.Contains x) : x < a ∨ a + classSize i ≤ x := by
  by_contra close
  have once := wf.cover_le_one x
  have inLive := (cover_pos_iff live x).mpr ⟨b, held, inB⟩
  have inFree := (cover_pos_iff (freeBlocks free) x).mpr ⟨⟨a, classSize i⟩,
    (mem_freeBlocks free _).mpr ⟨i, inside, a, present, rfl⟩, ⟨by simp only; omega, by simp only; omega⟩⟩
  omega

theorem live_apart_node (wf : alloc.WellFormed m free live) (b : Block) (held : b ∈ live)
    (i a : Nat) (inside : i < numMultiples) (present : a ∈ free i) : Apart a b.addr := by
  have wide := (wf.pages b held).1
  have header := header_le_classSize i
  simp only [pageSize] at wide
  simp only [Apart, nodeBytes] at header ⊢
  have left := wf.live_apart_free b held i a inside present b.addr ⟨le_refl _, by omega⟩
  by_contra close
  have right := wf.live_apart_free b held i a inside present a ⟨by omega, by omega⟩
  omega

/-- A fresh node that lies apart from those of its class is pushed behind them. -/
theorem push_spec (wf : alloc.WellFormed m free live) (i : Fin numMultiples) (other id : Nat)
    (pointer : Pointer other) (far : ∀ a ∈ free i, Apart a other)
    (node : readNode m other = ⟨magic1, none, none, classSize i, id, magic2⟩) :
    ∃ list m', (alloc.list i).pushFront m other = .ok (list, m') ∧
      Chain m' (classSize i) none list.head (free i ++ [other]) ∧ (free i ++ [other]).Nodup ∧
      ∀ x, (∀ a ∈ free i ++ [other], x < a ∨ a + nodeBytes ≤ x) → m' x = m x := by
  have unlisted : other ∉ free i := by
    intro present
    have apart := far other present
    simp only [Apart, nodeBytes] at apart
    omega
  have distinct : (free i ++ [other]).Nodup := by
    rw [List.nodup_append]
    refine ⟨wf.free_nodup i i.isLt, List.nodup_singleton other, ?_⟩
    intro a present b isOther same
    rw [same, List.mem_singleton.mp isOther] at present
    exact unlisted present
  have spread : ∀ a ∈ free i ++ [other], ∀ b ∈ free i ++ [other], a ≠ b → Apart a b := by
    intro a inA b inB different
    simp only [List.mem_append, List.mem_singleton] at inA inB
    rcases inA with inA | isOther
    · rcases inB with inB | isOther'
      · exact wf.free_apart i i a b i.isLt i.isLt inA inB different
      · rw [isOther']
        exact far a inA
    · rcases inB with inB | isOther'
      · rw [isOther]
        exact (far b inB).symm
      · exact absurd (isOther.trans isOther'.symm) different
  have intact : Intact m other := by
    rw [Intact, node]
    exact ⟨rfl, rfl⟩
  rcases LinkedList.pushFront_spec (alloc.list i) m (classSize i) other (free i) (wf.chains i)
    (wf.free_length i i.isLt) distinct spread pointer intact (by rw [node]) (by rw [node])
    (by rw [node]) with ⟨list, m', pushed, after, frame⟩
  refine ⟨list, m', pushed, after, distinct, ?_⟩
  intro x outside
  apply frame {x}
  · intro a present y isX
    rw [Set.mem_singleton_iff.mp isX]
    exact outside a present
  · rfl

theorem chains_setList (wf : alloc.WellFormed m free live) (i : Nat) (inside : i < numMultiples)
    (list : LinkedList) (nodes : List Nat) (m' : Memory)
    (chain : Chain m' (classSize i) none list.head nodes)
    (same : ∀ x, (∀ a ∈ nodes, x < a ∨ a + nodeBytes ≤ x) → m' x = m x)
    (far : ∀ j < numMultiples, j ≠ i → ∀ c ∈ free j, ∀ a ∈ nodes, Apart a c)
    (j : Fin numMultiples) :
    Chain m' (classSize j) none ((alloc.setList i list).list j).head
      (Function.update free i nodes j) := by
  by_cases own : j.val = i
  · have here : j = ⟨i, inside⟩ := Fin.ext own
    rw [here]
    simpa [setList] using chain
  · simp only [setList, own, if_false, Function.update_of_ne own]
    apply (wf.chains j).congr m m'
    intro c listed
    apply readNode_congr
    intro x inHeader
    rw [Set.mem_Ico] at inHeader
    apply same
    intro a present
    have apart := far j j.isLt own c listed a present
    unfold Apart at apart
    omega

theorem live_pointer (wf : alloc.WellFormed m free live) (b : Block) (held : b ∈ live) :
    Pointer b.addr := by
  have inside := wf.live_inside b held
  have low := wf.notNull
  have high := wf.bounded
  have wide := (wf.pages b held).1
  simp only [pageSize] at wide
  exact ⟨by omega, by omega⟩

theorem withBitmaps (wf : alloc.WellFormed m free live) (bitmaps : Bitmap) :
    WellFormed { alloc with bitmaps } m free live :=
  { wf with }

theorem split (first second addr : Nat) (big : pageSize ≤ first) (big' : pageSize ≤ second)
    (whole : first % pageSize = 0) (whole' : second % pageSize = 0)
    (wf : alloc.WellFormed m free (⟨addr, first + second⟩ :: live)) :
    alloc.WellFormed m free (⟨addr + first, second⟩ :: ⟨addr, first⟩ :: live) := by
  refine { wf with pages := ?_, tiles := ?_, aligned := ?_ }
  · intro b hb
    rcases List.mem_cons.mp hb with rfl | hb
    · exact ⟨big', whole'⟩
    rcases List.mem_cons.mp hb with rfl | hb
    · exact ⟨big, whole⟩
    · exact wf.pages b (List.mem_cons_of_mem _ hb)
  · intro x
    rw [← wf.tiles x]
    simp only [List.cons_append, cover_cons]
    rw [Block.hits_split addr first second x]
    omega
  · have start := wf.aligned ⟨addr, first + second⟩ (by simp)
    intro b hb
    rw [List.cons_append, List.cons_append, List.cons_append, List.cons_append] at hb
    rcases List.mem_cons.mp hb with rfl | hb
    · simp only at start ⊢
      rw [← start, Nat.add_mod, whole]
      simp
    rcases List.mem_cons.mp hb with rfl | hb
    · exact start
    · exact wf.aligned b (List.mem_cons_of_mem _ hb)

/-- Taking `size` bytes off the front of the bump region. -/
theorem bumpAlloc (wf : alloc.WellFormed m free live) (size : Nat) (big : pageSize ≤ size)
    (whole : size % pageSize = 0) (fits : size ≤ alloc.currentSize) :
    WellFormed { alloc with
        currentStart := alloc.currentStart + size, currentSize := alloc.currentSize - size }
      m free (⟨alloc.currentStart, size⟩ :: live) := by
  have sized := wf.size
  have room := wf.bump
  have regions : ∀ x, Block.hits ⟨alloc.currentStart, size⟩ x +
      Block.hits ⟨alloc.currentStart + size, alloc.memoryEnd - (alloc.currentStart + size)⟩ x =
      alloc.bumpRegion.hits x := by
    intro x
    rw [← Block.hits_split, bumpRegion]
    congr 2
    omega
  refine {
    notNull := wf.notNull, bounded := wf.bounded, chains := wf.chains,
    bump := ⟨by simp only; omega, by simp only; omega⟩,
    size := by simp only; omega, pages := ?_, tiles := ?_, aligned := ?_ }
  · intro b hb
    rcases List.mem_cons.mp hb with rfl | hb
    · exact ⟨big, whole⟩
    · exact wf.pages b hb
  · intro x
    have old := wf.tiles x
    have cut := regions x
    simp only [List.cons_append, cover_append, cover_cons, cover_nil, bumpRegion] at old cut ⊢
    omega
  · have start := wf.aligned alloc.bumpRegion (by simp)
    intro b hb
    rw [List.cons_append, List.cons_append] at hb
    rcases List.mem_cons.mp hb with rfl | hb
    · exact start
    rcases List.mem_append.mp hb with hb | hb
    · exact wf.aligned b (List.mem_append_left _ hb)
    · obtain rfl := List.mem_singleton.mp hb
      simp only [bumpRegion] at start ⊢
      rw [← start, Nat.add_mod, whole]
      simp

end WellFormed

end PageAllocator

end Jangri
