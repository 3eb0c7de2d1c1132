import Jangri.Allocator.Chain

namespace Jangri

open Lib

def Linked (m : Memory) : (prev node : Option Nat) → (nodes : List Nat) → Prop
  | _, node, [] => node = none
  | prev, node, a :: rest =>
      node = some a ∧ Pointer a ∧ Intact m a ∧ (readNode m a).prev = prev ∧
        Linked m (some a) (readNode m a).next rest

section Deciding

instance (a b : Nat) : Decidable (Apart a b) := inferInstanceAs (Decidable (_ ∨ _))

instance (addr : Nat) : Decidable (Pointer addr) := inferInstanceAs (Decidable (_ ∧ _))

instance (m : Memory) (addr : Nat) : Decidable (Intact m addr) :=
  inferInstanceAs (Decidable (_ ∧ _))

instance decidableLinked (m : Memory) :
    (prev node : Option Nat) → (nodes : List Nat) → Decidable (Linked m prev node nodes)
  | _, node, [] => inferInstanceAs (Decidable (node = none))
  | _, _, a :: rest =>
      have := decidableLinked m (some a) (readNode m a).next rest
      inferInstanceAs (Decidable (_ ∧ _ ∧ _ ∧ _ ∧ _))

end Deciding

namespace Linked

variable {m m' : Memory} {prev node : Option Nat} {nodes front rest : List Nat} {a p : Nat}

theorem head_eq (linked : Linked m prev node nodes) : node = nodes.head? := by
  cases nodes with
  | nil => exact linked
  | cons a rest => exact linked.1

theorem congr (linked : Linked m prev node nodes)
    (same : ∀ a ∈ nodes, readNode m' a = readNode m a) : Linked m' prev node nodes := by
  induction nodes generalizing prev node with
  | nil => exact linked
  | cons a rest ih =>
      rcases linked with ⟨head, pointer, intact, back, tail⟩
      have here := same a List.mem_cons_self
      refine ⟨head, pointer, intact_congr m m' a here intact, ?_, ?_⟩
      · rw [here]
        exact back
      · rw [here]
        exact ih tail fun b present => same b (List.mem_cons_of_mem a present)

theorem middle (linked : Linked m prev node (front ++ a :: rest)) :
    Pointer a ∧ Intact m a ∧ (readNode m a).prev = front.getLast?.or prev ∧
      Linked m (some a) (readNode m a).next rest := by
  induction front generalizing prev node with
  | nil =>
      rcases linked with ⟨_, pointer, intact, back, tail⟩
      exact ⟨pointer, intact, back, tail⟩
  | cons f front ih =>
      rcases linked with ⟨_, _, _, _, tail⟩
      rcases ih tail with ⟨pointer, intact, back, later⟩
      refine ⟨pointer, intact, ?_, later⟩
      rw [back, List.getLast?_cons]
      cases front.getLast? with
      | none => rfl
      | some last => rfl

theorem node_of_mem (linked : Linked m prev node nodes) (present : a ∈ nodes) :
    Pointer a ∧ Intact m a := by
  rcases List.append_of_mem present with ⟨front, rest, whole⟩
  rw [whole] at linked
  exact ⟨linked.middle.1, linked.middle.2.1⟩

theorem skip (linked : Linked m prev node (front ++ p :: a :: rest))
    (before : readNode m' p = { readNode m p with next := rest.head? })
    (after : ∀ b, rest.head? = some b → readNode m' b = { readNode m b with prev := some p })
    (others : ∀ c ∈ front ++ rest.tail, readNode m' c = readNode m c) :
    Linked m' prev node (front ++ p :: rest) := by
  induction front generalizing prev node with
  | nil =>
      rcases linked with ⟨head, pointer, intact, back, _, _, _, _, tail⟩
      refine ⟨head, pointer, ?_, ?_, ?_⟩
      · rw [Intact, before]
        exact intact
      · rw [before]
        exact back
      · rw [before]
        cases rest with
        | nil => rfl
        | cons b rest =>
            rcases tail with ⟨_, pointerB, intactB, _, later⟩
            have here := after b rfl
            refine ⟨rfl, pointerB, ?_, ?_, ?_⟩
            · rw [Intact, here]
              exact intactB
            · rw [here]
            · rw [here]
              exact later.congr fun c present => others c present
  | cons f front ih =>
      rcases linked with ⟨head, pointer, intact, back, tail⟩
      have here := others f (List.mem_cons_self)
      refine ⟨head, pointer, intact_congr m m' f here intact, ?_, ?_⟩
      · rw [here]
        exact back
      · rw [here]
        exact ih tail fun c present => others c (List.mem_cons_of_mem f present)

end Linked

structure WellLinked (list : LinkedList) (m : Memory) (nodes : List Nat) : Prop where
  links : Linked m none list.head nodes
  apart : nodes.Pairwise Apart

namespace WellLinked

variable {list : LinkedList} {m : Memory} {nodes : List Nat}

theorem apart_of_middle {front rest : List Nat} {a : Nat}
    (well : WellLinked list m (front ++ a :: rest)) : ∀ c ∈ front ++ rest, Apart a c := by
  rcases List.pairwise_append.mp well.apart with ⟨-, behind, between⟩
  intro c present
  rcases List.mem_append.mp present with inFront | inRest
  · exact (between c inFront a List.mem_cons_self).symm
  · exact (List.pairwise_cons.mp behind).1 c inRest

theorem nodup (well : WellLinked list m nodes) : nodes.Nodup := by
  apply well.apart.imp
  intro a b apart same
  rw [same, Apart, nodeBytes] at apart
  omega

theorem length_lt (well : WellLinked list m nodes) : nodes.length < usizeBound :=
  length_lt_of_pointers nodes well.nodup fun _ present => (well.links.node_of_mem present).1

end WellLinked

namespace LinkedList

variable {self : LinkedList} {m : Memory} {nodes front rest : List Nat} {prev node : Option Nat}
  {p target : Nat}

theorem removeFrom_spec (fuel : Nat) (linked : Linked m prev node nodes)
    (distinct : (nodes.map fun a => (readNode m a).id).Nodup) (present : target ∈ nodes)
    (enough : nodes.length < fuel) :
    removeFrom m (readNode m target).id fuel node = .ok (target, unlink m target) := by
  induction nodes generalizing prev node fuel with
  | nil => cases present
  | cons a rest ih =>
      cases fuel with
      | zero => omega
      | succ fuel =>
          rcases linked with ⟨head, _, intact, _, tail⟩
          rw [List.map_cons, List.nodup_cons] at distinct
          rw [head, removeFrom, checkMagic_ok m a intact, ok_bind]
          rcases List.mem_cons.mp present with here | later
          · rw [here, if_pos rfl]
            rfl
          · have different : (readNode m a).id ≠ (readNode m target).id := by
              intro same
              apply distinct.1
              rw [same]
              exact List.mem_map_of_mem later
            rw [if_neg different]
            exact ih fuel tail distinct.2 later (by simpa using enough)

/-- Removing a node that is not the first writes to its neighbours. -/
theorem unlink_eq (well : WellLinked self m (front ++ p :: target :: rest)) :
    unlink m target = match rest.head? with
      | some b => setPrev (setNext m p (some b)) b (some p)
      | none => setNext m p none := by
  have apart : Apart p target := well.apart_of_middle target (by simp)
  have whole : front ++ p :: target :: rest = (front ++ [p]) ++ target :: rest := by simp
  have links := well.links
  rw [whole] at links
  rcases links.middle with ⟨_, _, back, tail⟩
  have back' : (readNode m target).prev = some p := by
    rw [back, List.getLast?_concat]
    rfl
  have next := tail.head_eq
  have unseen : readNode (setNext m p rest.head?) target = readNode m target :=
    readNode_setNext_apart _ _ _ _ apart
  simp only [unlink, back', next, unseen]
  cases rest.head? with
  | none => rfl
  | some b => rfl

/-- The neighbours are joined, and no other node changes. -/
theorem unlink_spec (well : WellLinked self m (front ++ p :: target :: rest)) :
    readNode (unlink m target) p = { readNode m p with next := rest.head? } ∧
      (∀ b, rest.head? = some b →
        readNode (unlink m target) b = { readNode m b with prev := some p }) ∧
      ∀ c ∈ front ++ rest.tail, readNode (unlink m target) c = readNode m c := by
  have pointer : ∀ a ∈ front ++ p :: target :: rest, Pointer a :=
    fun a present => (well.links.node_of_mem present).1
  have apartP : ∀ c ∈ front ++ target :: rest, Apart p c := well.apart_of_middle
  rw [unlink_eq well]
  cases rest with
  | nil =>
      refine ⟨?_, ?_, ?_⟩
      · exact readNode_setNext_same _ _ _ (by simp)
      · intro b impossible
        cases impossible
      · intro c present
        have inFront : c ∈ front := by simpa using present
        exact readNode_setNext_apart _ _ _ _ (apartP c (by simp [inFront]))
  | cons b rest =>
      have whole : front ++ p :: target :: b :: rest = (front ++ [p, target]) ++ b :: rest := by simp
      have apartB : ∀ c ∈ (front ++ [p, target]) ++ rest, Apart b c :=
        (whole ▸ well : WellLinked self m ((front ++ [p, target]) ++ b :: rest)).apart_of_middle
      have apartPB : Apart p b := apartP b (by simp)
      refine ⟨?_, ?_, ?_⟩
      · simp only [List.head?_cons]
        rw [readNode_setPrev_apart _ _ _ _ apartPB.symm]
        apply readNode_setNext_same
        intro x isB
        cases isB
        exact pointer b (by simp)
      · intro b' isB
        cases isB
        simp only [List.head?_cons]
        rw [readNode_setPrev_same, readNode_setNext_apart _ _ _ _ apartPB]
        intro x isP
        cases isP
        exact pointer p (by simp)
      · intro c present
        have other : c ∈ front ∨ c ∈ rest := List.mem_append.mp present
        have apartBC : Apart b c := apartB c (by simp; tauto)
        have apartPC : Apart p c := apartP c (by simp; tauto)
        simp only [List.head?_cons]
        rw [readNode_setPrev_apart _ _ _ _ apartBC, readNode_setNext_apart _ _ _ _ apartPC]

/-- `remove` returns the node, and the list is what it was without that node. -/
def RemovesExactly (self : LinkedList) (m : Memory) (nodes : List Nat) (target : Nat) : Prop :=
  ∃ list m', self.remove m (readNode m target).id = .ok (target, list, m') ∧
    WellLinked list m' (nodes.erase target)

theorem remove_spec (well : WellLinked self m nodes)
    (distinct : (nodes.map fun a => (readNode m a).id).Nodup) (present : target ∈ nodes) :
    self.remove m (readNode m target).id = .ok (target, self, unlink m target) := by
  rw [remove, removeFrom_spec usizeBound well.links distinct present well.length_lt]
  rfl

theorem first_stays (well : WellLinked self m nodes)
    (distinct : (nodes.map fun a => (readNode m a).id).Nodup) (present : target ∈ nodes)
    (first : self.head = some target) : ¬ self.RemovesExactly m nodes target := by
  intro exactly
  rcases exactly with ⟨list, m', called, after⟩
  rw [remove_spec well distinct present] at called
  cases called
  have still := after.links.head_eq
  rw [first] at still
  have listed := List.mem_of_mem_head? still.symm
  exact (well.nodup.mem_erase_iff.mp listed).1 rfl

/-- Every node but the first is removed as it should be. -/
theorem remove_exact_iff (self : LinkedList) (m : Memory) (nodes : List Nat) (target : Nat)
    (well : WellLinked self m nodes) (distinct : (nodes.map fun a => (readNode m a).id).Nodup)
    (present : target ∈ nodes) :
    self.RemovesExactly m nodes target ↔ self.head ≠ some target := by
  have removed := remove_spec well distinct present
  have first := well.links.head_eq
  constructor
  · exact fun exactly isHead => first_stays well distinct present isHead exactly
  · intro notHead
    rcases List.append_of_mem present with ⟨before, rest, whole⟩
    rcases List.eq_nil_or_concat before with empty | ⟨front, p, last⟩
    · rw [whole, empty] at first
      exact absurd first notHead
    · have split : nodes = front ++ p :: target :: rest := by
        rw [whole, last]
        simp
      rw [split] at well
      rcases unlink_spec well with ⟨joined, back, others⟩
      have erased : nodes.erase target = front ++ p :: rest := by
        have unlisted : target ∉ front ++ [p] := by
          have nodup := well.nodup
          simp only [List.nodup_append, List.nodup_cons, List.mem_cons, not_or] at nodup
          simp only [List.mem_append, List.mem_singleton, not_or]
          refine ⟨fun inFront => nodup.2.2 target inFront target (by simp) rfl, ?_⟩
          exact fun same => nodup.2.1.1.1 same.symm
        rw [whole, last, List.concat_eq_append, List.erase_append_right _ unlisted,
          List.erase_cons_head, List.append_assoc]
        rfl
      refine ⟨self, unlink m target, removed, ?_, ?_⟩
      · rw [erased]
        exact well.links.skip joined back others
      · rw [← split] at well
        exact well.apart.sublist List.erase_sublist

def threeNodes : Memory :=
  let m : Memory := fun _ => 0
  let m := writeNode m 4096 ⟨magic1, some 8192, none, 1209, 7, magic2⟩
  let m := writeNode m 8192 ⟨magic1, some 12288, some 4096, 120, 8, magic2⟩
  writeNode m 12288 ⟨magic1, none, some 8192, 988, 9, magic2⟩

def threeList : LinkedList := ⟨some 4096⟩

theorem threeList_well : WellLinked threeList threeNodes [4096, 8192, 12288] where
  links := by decide +kernel
  apart := by decide

theorem threeList_distinct :
    ([4096, 8192, 12288].map fun a => (readNode threeNodes a).id).Nodup := by
  decide +kernel

theorem last_node_removed : threeList.RemovesExactly threeNodes [4096, 8192, 12288] 12288 :=
  (remove_exact_iff threeList threeNodes [4096, 8192, 12288] 12288 threeList_well threeList_distinct
    (by decide)).mpr (by decide)

theorem first_node_stays : WellLinked threeList threeNodes [4096, 8192, 12288] ∧
    ([4096, 8192, 12288].map fun a => (readNode threeNodes a).id).Nodup ∧
    (∃ list m', threeList.remove threeNodes 7 = .ok (4096, list, m') ∧ list.head = some 4096) ∧
    ¬ threeList.RemovesExactly threeNodes [4096, 8192, 12288] 4096 := by
  have first : (readNode threeNodes 4096).id = 7 := by decide +kernel
  have present : 4096 ∈ [4096, 8192, 12288] := by decide
  have removed := remove_spec threeList_well threeList_distinct present
  rw [first] at removed
  refine ⟨threeList_well, threeList_distinct, ⟨_, _, removed, rfl⟩, ?_⟩
  exact first_stays threeList_well threeList_distinct (by decide) rfl

end LinkedList

end Jangri
