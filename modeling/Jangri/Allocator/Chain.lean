import Jangri.Allocator.LinkedList

/-! What a free list means: a doubly linked chain of intact nodes.

`Chain m size prev node nodes` says that following `next` from `node` visits exactly `nodes`,
that each node points back to the one before it, and that each carries both magic numbers and
the recorded size. -/

namespace Jangri

open Lib

def Node.Intact (node : Node) : Prop := node.magic1 = Jangri.magic1 ∧ node.magic2 = Jangri.magic2

def Intact (m : Memory) (addr : Nat) : Prop := (readNode m addr).Intact

def Chain (m : Memory) (size : Nat) : (prev node : Option Nat) → (nodes : List Nat) → Prop
  | _, node, [] => node = none
  | prev, node, a :: rest =>
      node = some a ∧ Pointer a ∧ Intact m a ∧ (readNode m a).prev = prev ∧
        (readNode m a).size = size ∧ Chain m size (some a) (readNode m a).next rest

theorem checkMagic_ok (m : Memory) (addr : Nat) (intact : Intact m addr) :
    checkMagic m addr = .ok () := by
  obtain ⟨first, second⟩ : (readNode m addr).magic1 = magic1 ∧ (readNode m addr).magic2 = magic2 :=
    intact
  simp [checkMagic, assert, first, second]

theorem intact_congr (m m' : Memory) (a : Nat) (same : readNode m' a = readNode m a)
    (intact : Intact m a) : Intact m' a := by
  simpa [Intact, same] using intact

theorem length_lt_of_pointers (nodes : List Nat) (distinct : nodes.Nodup)
    (pointers : ∀ a ∈ nodes, Pointer a) : nodes.length < usizeBound := by
  have subset : nodes.toFinset ⊆ (Finset.range usizeBound).erase 0 := by
    intro a present
    have pointer := pointers a (List.mem_toFinset.mp present)
    exact Finset.mem_erase.mpr ⟨pointer.1, Finset.mem_range.mpr pointer.2⟩
  have card := Finset.card_le_card subset
  rw [List.toFinset_card_of_nodup distinct,
    Finset.card_erase_of_mem (Finset.mem_range.mpr (by decide)), Finset.card_range] at card
  have : 0 < usizeBound := by decide
  omega

namespace Chain

theorem congr (m m' : Memory) (size : Nat) (prev node : Option Nat) (nodes : List Nat)
    (same : ∀ a ∈ nodes, readNode m' a = readNode m a) (chain : Chain m size prev node nodes) :
    Chain m' size prev node nodes := by
  induction nodes generalizing prev node with
  | nil => exact chain
  | cons a rest ih =>
      obtain ⟨head, pointer, intact, back, sized, tail⟩ := chain
      have here := same a List.mem_cons_self
      refine ⟨head, pointer, intact_congr m m' a here intact, by rw [here]; exact back,
        by rw [here]; exact sized, ?_⟩
      rw [here]
      exact ih _ _ (fun b hb => same b (List.mem_cons_of_mem a hb)) tail

theorem pointer_of_mem {m : Memory} {size : Nat} {prev node : Option Nat} {nodes : List Nat}
    (chain : Chain m size prev node nodes) : ∀ a ∈ nodes, Pointer a := by
  induction nodes generalizing prev node with
  | nil => simp
  | cons a rest ih =>
      intro b hb
      rcases List.mem_cons.mp hb with rfl | hb
      · exact chain.2.1
      · exact ih chain.2.2.2.2.2 b hb

theorem node_of_mem {m : Memory} {size : Nat} {prev node : Option Nat} {nodes : List Nat}
    (chain : Chain m size prev node nodes) :
    ∀ a ∈ nodes, Intact m a ∧ (readNode m a).size = size := by
  induction nodes generalizing prev node with
  | nil => simp
  | cons a rest ih =>
      intro b hb
      rcases List.mem_cons.mp hb with rfl | hb
      · exact ⟨chain.2.2.1, chain.2.2.2.2.1⟩
      · exact ih chain.2.2.2.2.2 b hb

theorem head_eq_none_iff {m : Memory} {size : Nat} {prev node : Option Nat} {nodes : List Nat}
    (chain : Chain m size prev node nodes) : node = none ↔ nodes = [] := by
  cases nodes with
  | nil => exact ⟨fun _ => rfl, fun _ => chain⟩
  | cons a rest => simp [chain.1]

end Chain

namespace LinkedList

theorem walkToLast_spec (m : Memory) (size fuel : Nat) (prev node : Option Nat) (nodes : List Nat)
    (chain : Chain m size prev node nodes) (enough : nodes.length < fuel) :
    walkToLast m fuel node prev = .ok (nodes.getLast?.or prev) := by
  induction nodes generalizing prev node fuel with
  | nil =>
      obtain ⟨fuel, rfl⟩ : ∃ k, fuel = k + 1 := ⟨fuel - 1, by simp at enough; omega⟩
      have last : node = none := chain
      simp [walkToLast, last]
  | cons a rest ih =>
      obtain ⟨fuel, rfl⟩ : ∃ k, fuel = k + 1 := ⟨fuel - 1, by simp at enough; omega⟩
      obtain ⟨rfl, -, intact, -, -, tail⟩ := chain
      have step := ih fuel (some a) _ tail (by simpa using enough)
      rw [walkToLast, checkMagic_ok m a intact, ok_bind, step]
      cases rest with
      | nil => rfl
      | cons b rest => simp [List.getLast?_cons]

/-- Linking `other` behind the last node of a chain extends it by one. -/
theorem chain_link (m m' : Memory) (size other last : Nat) (prev node : Option Nat)
    (nodes : List Nat) (chain : Chain m size prev node nodes)
    (final : nodes.getLast? = some last)
    (lastNode : readNode m' last = { readNode m last with next := some other })
    (others : ∀ a ∈ nodes, a ≠ last → readNode m' a = readNode m a)
    (distinct : nodes.Nodup) (pointer : Pointer other) (intact : Intact m' other)
    (back : (readNode m' other).prev = some last) (sized : (readNode m' other).size = size)
    (ends : (readNode m' other).next = none) :
    Chain m' size prev node (nodes ++ [other]) := by
  induction nodes generalizing prev node with
  | nil => simp at final
  | cons a rest ih =>
      obtain ⟨head, pa, ia, pb, ps, tail⟩ := chain
      cases rest with
      | nil =>
          obtain rfl : a = last := by simpa using final
          refine ⟨head, pa, by rw [Intact, lastNode]; exact ia, by simpa [lastNode] using pb,
            by simpa [lastNode] using ps, ?_⟩
          rw [lastNode]
          exact ⟨rfl, pointer, intact, back, sized, ends⟩
      | cons b rest =>
          have final' : (b :: rest).getLast? = some last := by
            simpa [List.getLast?_cons_cons] using final
          have different : a ≠ last := by
            rintro rfl
            exact (List.nodup_cons.mp distinct).1 (List.mem_of_getLast? final')
          have here := others a List.mem_cons_self different
          refine ⟨head, pa, intact_congr m m' a here ia, by rw [here]; exact pb,
            by rw [here]; exact ps, ?_⟩
          rw [here]
          exact ih _ _ tail final' (fun c hc => others c (List.mem_cons_of_mem a hc))
            (List.nodup_cons.mp distinct).2

/-- `push_front` puts the node it is given behind the last one. -/
theorem pushFront_spec (self : LinkedList) (m : Memory) (size other : Nat) (nodes : List Nat)
    (chain : Chain m size none self.head nodes) (short : nodes.length < usizeBound)
    (distinct : (nodes ++ [other]).Nodup)
    (spread : ∀ a ∈ nodes ++ [other], ∀ b ∈ nodes ++ [other], a ≠ b → Apart a b)
    (pointer : Pointer other) (intact : Intact m other) (back : (readNode m other).prev = none)
    (sized : (readNode m other).size = size) (ends : (readNode m other).next = none) :
    ∃ list m', self.pushFront m other = .ok (list, m') ∧
      Chain m' size none list.head (nodes ++ [other]) ∧
      ∀ region : Set Nat,
        (∀ a ∈ nodes ++ [other], ∀ x ∈ region, x < a ∨ a + nodeBytes ≤ x) →
        Set.EqOn m' m region := by
  have walk := walkToLast_spec m size usizeBound none self.head nodes chain short
  cases final : nodes.getLast? with
  | none =>
      obtain rfl : nodes = [] := List.getLast?_eq_none_iff.mp final
      refine ⟨{ head := some other }, m, ?_, ⟨rfl, pointer, intact, back, sized, ends⟩,
        fun _ _ _ _ => rfl⟩
      rw [pushFront, walk]
      rfl
  | some last =>
      have lastMem : last ∈ nodes := List.mem_of_getLast? final
      have different : last ≠ other := by
        rintro rfl
        exact (List.nodup_append.mp distinct).2.2 last lastMem last (by simp) rfl
      have apart : Apart last other :=
        spread last (by simp [lastMem]) other (by simp) different
      have lastPointer := chain.pointer_of_mem last lastMem
      have newLast : readNode (setPrev (setNext m last (some other)) other (some last)) last =
          { readNode m last with next := some other } := by
        rw [readNode_setPrev_apart _ _ _ _ apart.symm,
          readNode_setNext_same _ _ _ (by rintro x ⟨⟩; exact pointer)]
      have newOther : readNode (setPrev (setNext m last (some other)) other (some last)) other =
          { readNode m other with prev := some last } := by
        rw [readNode_setPrev_same _ _ _ (by rintro x ⟨⟩; exact lastPointer),
          readNode_setNext_apart _ _ _ _ apart]
      refine ⟨self, setPrev (setNext m last (some other)) other (some last), ?_, ?_, ?_⟩
      · rw [pushFront, walk, final]
        simp [checkMagic_ok m last (chain.node_of_mem last lastMem).1]
      · refine chain_link m _ size other last none self.head nodes chain final newLast ?_
          (List.nodup_append.mp distinct).1 pointer (by rw [Intact, newOther]; exact intact)
          (by rw [newOther]) (by rw [newOther]; exact sized) (by rw [newOther]; exact ends)
        intro a ha notLast
        have notOther : a ≠ other := by
          rintro rfl
          exact (List.nodup_append.mp distinct).2.2 a ha a (by simp) rfl
        rw [readNode_setPrev_apart _ _ _ _
            (spread other (by simp) a (by simp [ha]) (Ne.symm notOther)),
          readNode_setNext_apart _ _ _ _
            (spread last (by simp [lastMem]) a (by simp [ha]) (Ne.symm notLast))]
      · intro region clear
        exact (setPrev_eqOn _ _ _ _ (clear other (by simp))).trans
          (setNext_eqOn _ _ _ _ (clear last (by simp [lastMem])))

theorem popFront_nil (self : LinkedList) (m : Memory) (empty : self.head = none) :
    self.popFront m = .ok (none, self, m) := by
  simp [popFront, empty]

/-- `pop_front` takes the first node off and clears the back pointer of its successor. -/
theorem popFront_spec (self : LinkedList) (m : Memory) (size a : Nat) (rest : List Nat)
    (chain : Chain m size none self.head (a :: rest)) (distinct : rest.Nodup)
    (spread : ∀ b ∈ rest, ∀ c ∈ rest, b ≠ c → Apart b c) :
    ∃ list m', self.popFront m = .ok (some a, list, m') ∧ Chain m' size none list.head rest ∧
      ∀ region : Set Nat, (∀ b ∈ rest, ∀ x ∈ region, x < b ∨ b + nodeBytes ≤ x) →
        Set.EqOn m' m region := by
  obtain ⟨head, -, intact, -, -, tail⟩ := chain
  cases rest with
  | nil =>
      have ends : (readNode m a).next = none := tail
      refine ⟨{ head := none }, m, ?_, rfl, fun _ _ _ _ => rfl⟩
      simp [popFront, head, checkMagic_ok m a intact, ends]
  | cons b rest =>
      obtain ⟨next, pb, ib, -, sb, tail⟩ := tail
      have here := readNode_setPrev_same m b none (by simp)
      refine ⟨{ head := some b }, setPrev m b none, ?_, ?_, ?_⟩
      · simp [popFront, head, checkMagic_ok m a intact, next, checkMagic_ok m b ib]
      · refine ⟨rfl, pb, by rw [Intact, here]; exact ib, by rw [here], by rw [here]; exact sb, ?_⟩
        rw [here]
        refine tail.congr m _ _ _ _ _ fun c hc => readNode_setPrev_apart _ _ _ _ ?_
        refine spread b (by simp) c (by simp [hc]) ?_
        rintro rfl
        exact (List.nodup_cons.mp distinct).1 hc
      · intro region clear
        exact setPrev_eqOn _ _ _ _ (clear b (by simp))

end LinkedList

end Jangri
