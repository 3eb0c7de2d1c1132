import Jangri.Lib.WP
import Jangri.Hal.PageTable

/-! `device_tree`: the CPUs that the device tree lists, and the harts that are started for them.

The tree is read with the `fdt` crate; a node is what the crate answers about it. -/

namespace Jangri

open Lib

structure NodeProperty where
  name : String
  value : List UInt8

structure MemoryRegion where
  startingAddress : Nat

/-- `fdt::node::FdtNode`. A property is looked up by its name. -/
structure FdtNode where
  property : String → Option NodeProperty
  reg : Option (List MemoryRegion)
  property_name : ∀ name prop, property name = some prop → prop.name = name

structure CpuStatics where
  cpus : Option (List Nat)
  numCpus : Option Nat

def callOnce {α : Type} (once : Option α) (value : α) : Option α := some (once.getD value)

namespace DeviceTree

def cpu : List UInt8 := [99, 112, 117, 0]

def disabled : List UInt8 := [100, 105, 115, 97, 98, 108, 101, 100, 0]

def usizeMax : Nat := usizeBound - 1

def isCpu (child : FdtNode) : Bool :=
  match child.property "device_type" with
  | some prop => prop.value = cpu
  | none => false

def isSkipped (child : FdtNode) : Bool :=
  match child.property "status" with
  | some prop => prop.value = disabled || prop.name = "fail\x00"
  | none => false

/-- The loop over the regions of a CPU. The array has no fifth place, so its end is an endless
loop. -/
def recordRegs : List MemoryRegion → (cpus : List Nat) → (i : Nat) → Rust (List Nat × Nat)
  | [], cpus, i => pure (cpus, i)
  | reg :: regs, cpus, i =>
      if i = 4 then .error .diverge
      else recordRegs regs (cpus.set i reg.startingAddress) (i + 1)

def recordCpus : List FdtNode → (cpus : List Nat) → (i : Nat) → Rust (List Nat × Nat)
  | [], cpus, i => pure (cpus, i)
  | child :: children, cpus, i =>
      if isCpu child then
        if isSkipped child then recordCpus children cpus i
        else do
          let regs ← unwrap child.reg
          let (cpus, i) ← recordRegs regs cpus i
          recordCpus children cpus i
      else recordCpus children cpus i

def findCpus (children : List FdtNode) : Stateful CpuStatics Unit := do
  let (cpus, i) ← liftRust (recordCpus children (List.replicate 4 0) 0)
  fun s => .ok ((), ⟨callOnce s.cpus cpus, callOnce s.numCpus i⟩)

def maskOf : List Nat → (mask : BitVec 8) → Rust (BitVec 8)
  | [], mask => pure mask
  | cpuId :: cpuIds, mask =>
      if cpuId < 8 then maskOf cpuIds (mask ||| 1#8 <<< cpuId) else panic .overflow

def cpuMask : Stateful CpuStatics (BitVec 8) := fun s => do
  let cpus ← unwrap s.cpus
  let mask ← maskOf (cpus.filter (· ≠ usizeMax)) 0#8
  pure (mask, s)

def wakeUpOtherCores (cores : BitVec 8) : List Nat :=
  (List.range 8).filter fun i => cores &&& 1#8 <<< i = 1#8

def startCores (children : List FdtNode) : Stateful CpuStatics (List Nat) := do
  findCpus children
  let mask ← cpuMask
  pure (wakeUpOtherCores mask)

def fail : List UInt8 := [102, 97, 105, 108, 0]

def status (child : FdtNode) : Option (List UInt8) := (child.property "status").map (·.value)

def IsEnabled (child : FdtNode) : Prop := isCpu child = true ∧ status child ≠ some disabled

def IsUsable (child : FdtNode) : Prop := IsEnabled child ∧ status child ≠ some fail

instance (child : FdtNode) : Decidable (IsEnabled child) := inferInstanceAs (Decidable (_ ∧ _))

instance (child : FdtNode) : Decidable (IsUsable child) := inferInstanceAs (Decidable (_ ∧ _))

def hartIds (child : FdtNode) : List Nat := (child.reg.getD []).map (·.startingAddress)

def enabledIds (children : List FdtNode) : List Nat :=
  (children.filter fun child => IsEnabled child).flatMap hartIds

def usableIds (children : List FdtNode) : List Nat :=
  (children.filter fun child => IsUsable child).flatMap hartIds

/-- Exactly the harts of the usable CPUs are started. -/
def StartsUsable (children : List FdtNode) : Prop :=
  ∃ started s, startCores children ⟨none, none⟩ = .ok (started, s) ∧
    ∀ i, i ∈ started ↔ i ∈ usableIds children

section Recording

def padded (ids : List Nat) : List Nat := ids ++ List.replicate (4 - ids.length) 0

theorem padded_set (ids : List Nat) (id : Nat) (room : ids.length < 4) :
    (padded ids).set ids.length id = padded (ids ++ [id]) := by
  have split : 4 - ids.length = (4 - (ids ++ [id]).length) + 1 := by
    rw [List.length_append, List.length_singleton]
    omega
  rw [padded, split, List.replicate_succ, List.set_append_right _ _ (Nat.le_refl _), Nat.sub_self,
    List.set_cons_zero, padded, List.append_assoc, List.singleton_append]

theorem recordRegs_eq (regs : List MemoryRegion) (ids : List Nat) (room : ids.length ≤ 4)
    (r : List Nat × Nat) : recordRegs regs (padded ids) ids.length = .ok r ↔
      (ids ++ regs.map (·.startingAddress)).length ≤ 4 ∧
      r = (padded (ids ++ regs.map (·.startingAddress)),
        (ids ++ regs.map (·.startingAddress)).length) := by
  induction regs generalizing ids with
  | nil =>
      rw [recordRegs, List.map_nil, List.append_nil]
      constructor
      · intro h
        exact ⟨room, (Except.ok.inj h).symm⟩
      · intro h
        rw [h.2]
        rfl
  | cons reg regs ih =>
      rw [recordRegs]
      by_cases full : ids.length = 4
      · rw [if_pos full]
        constructor
        · intro h
          cases h
        · intro h
          have more := h.1
          rw [List.length_append, List.length_map, List.length_cons] at more
          omega
      · have space : ids.length < 4 := by omega
        have step := ih (ids ++ [reg.startingAddress]) (by
          rw [List.length_append, List.length_singleton]
          omega)
        rw [List.append_assoc, List.singleton_append] at step
        rw [if_neg full, padded_set ids _ space, List.map_cons, ← step, List.length_append,
          List.length_singleton]

theorem isSkipped_iff (child : FdtNode) : isSkipped child = true ↔ status child = some disabled := by
  rw [isSkipped, status]
  cases found : child.property "status" with
  | none => simp
  | some prop =>
      -- The property that `status` names is not named `fail`.
      have name : prop.name = "status" := child.property_name _ _ found
      simp [name]

theorem enabledIds_cons (child : FdtNode) (children : List FdtNode) :
    enabledIds (child :: children) =
      if IsEnabled child then hartIds child ++ enabledIds children else enabledIds children := by
  rw [enabledIds, List.filter_cons]
  by_cases enabled : IsEnabled child
  · rw [if_pos enabled, if_pos (decide_eq_true enabled), List.flatMap_cons]
    rfl
  · rw [if_neg enabled, if_neg (by simpa using enabled)]
    rfl

theorem recordCpus_enabled {child : FdtNode} (children : List FdtNode) (cpus : List Nat) (i : Nat)
    (enabled : IsEnabled child) : recordCpus (child :: children) cpus i = (do
      let regs ← unwrap child.reg
      let (cpus, i) ← recordRegs regs cpus i
      recordCpus children cpus i) := by
  have kept : isSkipped child = false := by
    rw [← Bool.not_eq_true, isSkipped_iff]
    exact enabled.2
  rw [recordCpus, if_pos enabled.1, kept, if_neg Bool.false_ne_true]

theorem recordCpus_passed {child : FdtNode} (children : List FdtNode) (cpus : List Nat) (i : Nat)
    (passed : ¬ IsEnabled child) :
    recordCpus (child :: children) cpus i = recordCpus children cpus i := by
  rw [recordCpus]
  by_cases isCpu_ : isCpu child = true
  · have skipped : isSkipped child = true := by
      rw [isSkipped_iff]
      by_contra other
      exact passed ⟨isCpu_, other⟩
    rw [if_pos isCpu_, if_pos skipped]
  · rw [if_neg isCpu_]

theorem recordCpus_eq (children : List FdtNode) (ids : List Nat) (room : ids.length ≤ 4)
    (r : List Nat × Nat) : recordCpus children (padded ids) ids.length = .ok r ↔
      (∀ child ∈ children, IsEnabled child → child.reg ≠ none) ∧
      (ids ++ enabledIds children).length ≤ 4 ∧
      r = (padded (ids ++ enabledIds children), (ids ++ enabledIds children).length) := by
  induction children generalizing ids with
  | nil =>
      rw [recordCpus, enabledIds, List.filter_nil, List.flatMap_nil, List.append_nil]
      constructor
      · intro h
        exact ⟨fun _ member => absurd member List.not_mem_nil, room, (Except.ok.inj h).symm⟩
      · intro h
        rw [h.2.2]
        rfl
  | cons child children ih =>
      by_cases enabled : IsEnabled child
      · rw [recordCpus_enabled children _ _ enabled, bind_eq_ok, enabledIds_cons, if_pos enabled,
          List.forall_mem_cons]
        cases region : child.reg with
        | none =>
            constructor
            · intro h
              rcases h with ⟨_, unwrapped, -⟩
              cases unwrapped
            · intro h
              exact absurd rfl (h.1.1 enabled)
        | some regs =>
            have ids_eq : hartIds child = regs.map (·.startingAddress) := by
              rw [hartIds, region]
              rfl
            simp only [unwrap_eq_ok, Option.some.injEq, exists_eq_left', bind_eq_ok, Prod.exists,
              recordRegs_eq regs ids room, Prod.mk.injEq, ids_eq]
            constructor
            · intro h
              rcases h with ⟨cpus, i, ⟨fits, rfl, rfl⟩, rest⟩
              rw [ih _ fits, List.append_assoc] at rest
              exact ⟨⟨fun _ => by simp, rest.1⟩, rest.2⟩
            · intro h
              rcases h with ⟨⟨-, regions⟩, fits, rfl⟩
              have first : (ids ++ regs.map (·.startingAddress)).length ≤ 4 := by
                rw [← List.append_assoc, List.length_append] at fits
                omega
              refine ⟨_, _, ⟨first, rfl, rfl⟩, ?_⟩
              rw [ih _ first, List.append_assoc]
              exact ⟨regions, fits, rfl⟩
      · rw [recordCpus_passed children _ _ enabled, ih ids room, enabledIds_cons, if_neg enabled,
          List.forall_mem_cons]
        constructor
        · intro h
          exact ⟨⟨fun h => absurd h enabled, h.1⟩, h.2⟩
        · intro h
          exact ⟨h.1.2, h.2⟩

end Recording

section Mask

theorem maskOf_bits (cpuIds : List Nat) (mask r : BitVec 8) (made : maskOf cpuIds mask = .ok r)
    (i : Nat) (inside : i < 8) : r.getLsbD i = true ↔ mask.getLsbD i = true ∨ i ∈ cpuIds := by
  induction cpuIds generalizing mask with
  | nil =>
      cases made
      simp
  | cons cpuId cpuIds ih =>
      rw [maskOf] at made
      by_cases fits : cpuId < 8
      · rw [if_pos fits] at made
        have bit : (1#8 <<< cpuId).getLsbD i = true ↔ i = cpuId := by
          rw [BitVec.getLsbD_shiftLeft, BitVec.getLsbD_one]
          simp only [inside, decide_true, Bool.true_and, Bool.and_eq_true, Bool.not_eq_true',
            decide_eq_false_iff_not, decide_eq_true_eq]
          omega
        rw [ih _ made, BitVec.getLsbD_or, Bool.or_eq_true, bit, List.mem_cons, or_assoc]
      · rw [if_neg fits] at made
        cases made

theorem maskOf_returns (cpuIds : List Nat) (mask : BitVec 8) :
    (∃ r, maskOf cpuIds mask = .ok r) ↔ ∀ cpuId ∈ cpuIds, cpuId < 8 := by
  induction cpuIds generalizing mask with
  | nil =>
      apply iff_of_true
      · exact ⟨mask, rfl⟩
      · exact fun _ member => absurd member List.not_mem_nil
  | cons cpuId cpuIds ih =>
      rw [maskOf, List.forall_mem_cons]
      by_cases fits : cpuId < 8
      · rw [if_pos fits, ih, and_iff_right fits]
      · rw [if_neg fits]
        apply iff_of_false
        · intro h
          rcases h with ⟨r, made⟩
          cases made
        · exact fun h => fits h.1

/-- The test of `wake_up_other_cores` compares with the bit of the first hart, whichever hart it is
made for. -/
theorem wakes_iff (cores : BitVec 8) (i : Nat) :
    cores &&& 1#8 <<< i = 1#8 ↔ i = 0 ∧ cores.getLsbD 0 = true := by
  constructor
  · intro same
    have low : (cores &&& 1#8 <<< i).getLsbD 0 = true := by
      rw [same]
      rfl
    rw [BitVec.getLsbD_and, Bool.and_eq_true] at low
    rcases low with ⟨bit, shifted⟩
    constructor
    · by_contra other
      have above : 0 < i := Nat.pos_of_ne_zero other
      simp [above] at shifted
    · exact bit
  · intro h
    rcases h with ⟨rfl, bit⟩
    rw [BitVec.shiftLeft_zero]
    apply BitVec.eq_of_getLsbD_eq
    intro j inside
    rw [BitVec.getLsbD_and, BitVec.getLsbD_one]
    by_cases first : j = 0
    · rw [first, bit, Bool.true_and]
    · simp [first]

/-- So no hart but the first is ever started. -/
theorem mem_wakeUpOtherCores (cores : BitVec 8) (i : Nat) :
    i ∈ wakeUpOtherCores cores ↔ i = 0 ∧ cores.getLsbD 0 = true := by
  rw [wakeUpOtherCores, List.mem_filter, List.mem_range, decide_eq_true_eq, wakes_iff]
  constructor
  · exact And.right
  · intro h
    exact ⟨by omega, h⟩

end Mask

section Starting

variable {children : List FdtNode}

/-- The harts of the device tree can be recorded and shifted into the mask. -/
structure Recordable (children : List FdtNode) : Prop where
  regions : ∀ child ∈ children, IsEnabled child → child.reg ≠ none
  room : (enabledIds children).length ≤ 4
  small : ∀ id ∈ enabledIds children, id < 8 ∨ id = usizeMax

/-- The free places of the array hold the number of the first hart. -/
theorem zero_mem_padded (ids : List Nat) (room : ids.length ≤ 4) :
    0 ∈ padded ids ↔ ids.length < 4 ∨ 0 ∈ ids := by
  rw [padded, List.mem_append, List.mem_replicate, or_comm]
  apply or_congr_left
  omega

theorem liftRust_returns {σ α : Type} (x : Rust α) (s t : σ) (a : α) :
    liftRust x s = .ok (a, t) ↔ x = .ok a ∧ t = s := by
  rw [liftRust]
  cases x with
  | error _ => exact iff_of_false (by simp [Except.map]) (by simp)
  | ok b => simp [Except.map, eq_comm]

theorem findCpus_returns (s : CpuStatics) : findCpus children ⟨none, none⟩ = .ok ((), s) ↔
    ∃ recorded, recordCpus children (padded []) ([] : List Nat).length = .ok recorded ∧
      s = ⟨some recorded.1, some recorded.2⟩ := by
  rw [findCpus, bind_returns_iff]
  simp only [liftRust_returns]
  constructor
  · intro h
    rcases h with ⟨recorded, u, ⟨made, rfl⟩, stored⟩
    cases stored
    exact ⟨recorded, made, rfl⟩
  · intro h
    rcases h with ⟨recorded, made, rfl⟩
    exact ⟨recorded, _, ⟨made, rfl⟩, rfl⟩

theorem cpuMask_returns (cpus : List Nat) (number : Option Nat) (mask : BitVec 8) (s : CpuStatics) :
    cpuMask ⟨some cpus, number⟩ = .ok (mask, s) ↔
      maskOf (cpus.filter (· ≠ usizeMax)) 0#8 = .ok mask ∧ s = ⟨some cpus, number⟩ := by
  change (maskOf (cpus.filter (· ≠ usizeMax)) 0#8 >>= _) = _ ↔ _
  rw [bind_eq_ok]
  constructor
  · intro h
    rcases h with ⟨made, shifted, same⟩
    cases same
    exact ⟨shifted, rfl⟩
  · intro h
    rcases h with ⟨shifted, rfl⟩
    exact ⟨mask, shifted, rfl⟩

theorem shifted_small (ids : List Nat) :
    (∀ id ∈ (padded ids).filter (· ≠ usizeMax), id < 8) ↔ ∀ id ∈ ids, id < 8 ∨ id = usizeMax := by
  simp only [List.mem_filter, padded, List.mem_append, List.mem_replicate, ne_eq,
    decide_not, Bool.not_eq_true', decide_eq_false_iff_not, and_imp]
  constructor
  · intro small id member
    by_cases filler : id = usizeMax
    · exact Or.inr filler
    · exact Or.inl (small id (Or.inl member) filler)
  · intro small id member other
    rcases member with member | filler
    · exact (small id member).resolve_right other
    · omega

theorem startCores_started {started : List Nat} {s : CpuStatics}
    (returned : startCores children ⟨none, none⟩ = .ok (started, s)) :
    Recordable children ∧ ∀ i, i ∈ started ↔
      i = 0 ∧ ((enabledIds children).length < 4 ∨ 0 ∈ enabledIds children) := by
  rw [startCores, bind_returns_iff] at returned
  rcases returned with ⟨⟨⟩, t, found, returned⟩
  rcases (findCpus_returns t).mp found with ⟨recorded, made, rfl⟩
  rw [recordCpus_eq children [] (Nat.zero_le 4), List.nil_append] at made
  rcases made with ⟨regions, room, rfl⟩
  rw [bind_returns_iff] at returned
  rcases returned with ⟨mask, u, masked, woken⟩
  rcases (cpuMask_returns _ _ mask u).mp masked with ⟨shifted, rfl⟩
  cases woken
  constructor
  · exact ⟨regions, room, (shifted_small _).mp ((maskOf_returns _ _).mp ⟨mask, shifted⟩)⟩
  · intro i
    rw [mem_wakeUpOtherCores, maskOf_bits _ _ mask shifted 0 (by decide),
      ← zero_mem_padded _ room]
    simp [usizeMax, usizeBound]

theorem startCores_of_recordable (recordable : Recordable children) :
    ∃ started s, startCores children ⟨none, none⟩ = .ok (started, s) := by
  have made := (recordCpus_eq children [] (Nat.zero_le 4) _).mpr
    ⟨recordable.regions, recordable.room, rfl⟩
  rw [List.nil_append] at made
  have small := (shifted_small (enabledIds children)).mpr recordable.small
  rcases (maskOf_returns _ 0#8).mpr small with ⟨mask, shifted⟩
  refine ⟨wakeUpOtherCores mask, ⟨some (padded (enabledIds children)),
    some (enabledIds children).length⟩, ?_⟩
  rw [startCores, bind_returns_iff]
  refine ⟨(), _, (findCpus_returns _).mpr ⟨_, made, rfl⟩, ?_⟩
  rw [bind_returns_iff]
  exact ⟨mask, _, (cpuMask_returns _ _ mask _).mpr ⟨shifted, rfl⟩, rfl⟩

theorem usableIds_subset {id : Nat} (member : id ∈ usableIds children) :
    id ∈ enabledIds children := by
  rw [usableIds, List.mem_flatMap] at member
  rcases member with ⟨child, child_mem, id_mem⟩
  rw [List.mem_filter, decide_eq_true_eq] at child_mem
  rw [enabledIds, List.mem_flatMap]
  exact ⟨child, List.mem_filter.mpr ⟨child_mem.1, decide_eq_true child_mem.2.1⟩, id_mem⟩

end Starting

/-- The harts of the usable CPUs are started exactly if the tree can be recorded, and either these
harts are all the first, or there is none and four others leave no place of the array free. -/
theorem usable_started_iff (children : List FdtNode) : StartsUsable children ↔
    Recordable children ∧ (usableIds children ≠ [] ∧ (∀ id ∈ usableIds children, id = 0) ∨
      usableIds children = [] ∧ (enabledIds children).length = 4 ∧ 0 ∉ enabledIds children) := by
  constructor
  · intro starts
    rcases starts with ⟨started, s, returned, same⟩
    rcases startCores_started returned with ⟨recordable, first⟩
    constructor
    · exact recordable
    · by_cases none_ : usableIds children = []
      · right
        have idle := (first 0).not.mp (by
          rw [same 0, none_]
          exact List.not_mem_nil)
        have room := recordable.room
        simp only [true_and, not_or, Nat.not_lt] at idle
        exact ⟨none_, by omega, idle.2⟩
      · left
        constructor
        · exact none_
        · intro id member
          exact ((first id).mp ((same id).mpr member)).1
  · intro h
    rcases h with ⟨recordable, harts⟩
    rcases startCores_of_recordable recordable with ⟨started, s, returned⟩
    have first := (startCores_started returned).2
    refine ⟨started, s, returned, ?_⟩
    intro i
    rw [first i]
    rcases harts with ⟨some_, zero⟩ | ⟨none_, full, absent⟩
    · rcases List.exists_mem_of_ne_nil _ some_ with ⟨id, member⟩
      have listed : 0 ∈ usableIds children := zero id member ▸ member
      constructor
      · intro h
        rw [h.1]
        exact listed
      · intro member_i
        exact ⟨zero i member_i, Or.inr (usableIds_subset listed)⟩
    · rw [none_]
      apply iff_of_false
      · intro h
        rcases h.2 with free | listed
        · omega
        · exact absent listed
      · exact List.not_mem_nil

def nodeOf (properties : List NodeProperty) (reg : Option (List MemoryRegion)) : FdtNode where
  property name := properties.find? (·.name = name)
  reg := reg
  property_name name prop found := by
    have matched := List.find?_some found
    exact of_decide_eq_true matched

def twoCpus : List FdtNode :=
  [nodeOf [⟨"device_type", cpu⟩] (some [⟨0⟩]), nodeOf [⟨"device_type", cpu⟩] (some [⟨1⟩])]

theorem second_hart_not_started : ¬ StartsUsable twoCpus := by
  intro starts
  rcases starts with ⟨started, s, returned, same⟩
  have first := (startCores_started returned).2 1
  have listed : 1 ∈ usableIds twoCpus := by decide +kernel
  cases (first.mp ((same 1).mpr listed)).1

end DeviceTree

end Jangri
