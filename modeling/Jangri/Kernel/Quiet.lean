import Jangri.Arch.Mapping
import Jangri.Kernel.Scheduling

/-! Kernel code that leaves the scheduling view alone.

`Keeps halts free x` says that `x`, run with the mutexes in `free` not held, ends with the view it
began with, or stops for a reason in `halts`. Most of the kernel is of this kind, whatever it does
to memory, and the property passes from the parts of a program to the whole. -/

namespace Jangri

open Lib

/-- Code that stops, if at all, for another reason than locking a mutex twice. -/
def Calm {α : Type} (x : Rust α) : Prop := ∀ hart, x ≠ .error (.panic (.deadlock hart))

section Calm

variable {α β : Type}

theorem calm_pure (a : α) : Calm (pure a : Rust α) := fun _ h => by cases h

theorem calm_bind {x : Rust α} {f : α → Rust β} (first : Calm x) (rest : ∀ a, Calm (f a)) :
    Calm (x >>= f) := by
  intro hart same
  cases x with
  | error e => exact first hart (by simpa using same)
  | ok a => exact rest a hart (by simpa using same)

theorem calm_panic (reason : Panic) (other : ∀ hart, reason ≠ .deadlock hart) :
    Calm (panic reason : Rust α) := by
  intro hart same
  simp only [panic, Except.error.injEq, Halt.panic.injEq] at same
  exact other hart same

theorem calm_assert (condition : Prop) [Decidable condition] (text : String) :
    Calm (assert condition text) := by
  unfold assert
  split
  · exact calm_pure ()
  · exact calm_panic _ (by simp)

theorem calm_unwrap (x : Option α) : Calm (unwrap x) := by
  cases x with
  | none => exact calm_panic _ (by simp)
  | some a => exact calm_pure a

theorem calm_expect (text : String) (x : Option α) : Calm (expect text x) := by
  cases x with
  | none => exact calm_panic _ (by simp)
  | some a => exact calm_pure a

theorem calm_ite (c : Prop) [Decidable c] (x y : Rust α) (yes : Calm x) (no : Calm y) :
    Calm (if c then x else y) := by
  split
  · exact yes
  · exact no

theorem calm_usizeAdd (a b : Nat) : Calm (usizeAdd a b) :=
  calm_ite _ _ _ (calm_pure _) (calm_panic _ (by simp))

theorem calm_usizeSub (a b : Nat) : Calm (usizeSub a b) :=
  calm_ite _ _ _ (calm_pure _) (calm_panic _ (by simp))

theorem calm_usizeMul (a b : Nat) : Calm (usizeMul a b) :=
  calm_ite _ _ _ (calm_pure _) (calm_panic _ (by simp))

end Calm

section Allocator

theorem calm_checkMagic (m : Memory) (addr : Nat) : Calm (checkMagic m addr) :=
  calm_bind (calm_assert _ _) fun _ => calm_assert _ _

theorem calm_walkToLast (m : Memory) (fuel : Nat) (node prev : Option Nat) :
    Calm (LinkedList.walkToLast m fuel node prev) := by
  induction fuel generalizing node prev with
  | zero =>
      intro hart same
      simp [LinkedList.walkToLast] at same
  | succ fuel ih =>
      cases node with
      | none => exact calm_pure _
      | some n => exact calm_bind (calm_checkMagic m n) fun _ => ih _ _

theorem calm_pushFront (list : LinkedList) (m : Memory) (other : Nat) :
    Calm (list.pushFront m other) := by
  refine calm_bind (calm_walkToLast _ _ _ _) fun last => ?_
  cases last with
  | none => exact calm_pure _
  | some prev => exact calm_bind (calm_checkMagic m prev) fun _ => calm_pure _

theorem calm_popFront (list : LinkedList) (m : Memory) : Calm (list.popFront m) := by
  unfold LinkedList.popFront
  cases list.head with
  | none => exact calm_pure _
  | some node =>
      refine calm_bind (calm_checkMagic m node) fun _ => ?_
      cases (readNode m node).next with
      | none => exact calm_pure _
      | some next => exact calm_bind (calm_checkMagic m next) fun _ => calm_pure _

theorem calm_mark (bitmap : Bitmap) (multiple : Nat) :
    Calm (bitmap.markAvailable multiple) ∧ Calm (bitmap.markUnavailable multiple) :=
  ⟨calm_bind (calm_assert _ _) fun _ => calm_bind (calm_expect _ _) fun _ => calm_pure _,
    calm_bind (calm_assert _ _) fun _ => calm_bind (calm_expect _ _) fun _ => calm_pure _⟩

theorem calm_searchFrom (bitmap : Bitmap) (remaining i offset : Nat) :
    Calm (bitmap.searchFrom remaining i offset) := by
  induction remaining generalizing i offset with
  | zero => exact calm_pure _
  | succ remaining ih =>
      refine calm_bind (calm_unwrap _) fun word => ?_
      cases Bitmap.searchWord word offset with
      | none => exact ih _ _
      | some j => exact calm_pure _

theorem calm_release (alloc : PageAllocator) (store : Store) (start size : Nat) :
    Calm (alloc.release store start size) := by
  refine calm_bind (calm_ite _ _ _ (calm_panic _ (by simp)) (calm_pure _)) fun node => ?_
  refine calm_bind (calm_unwrap _) fun list => ?_
  refine calm_bind (calm_unwrap _) fun pointer => ?_
  refine calm_bind (calm_pushFront _ _ _) fun pushed => ?_
  exact calm_bind (calm_mark _ _).1 fun _ => calm_pure _

theorem calm_allocate (alloc : PageAllocator) (store : Store) (size : Nat) :
    Calm (alloc.allocate store size) := by
  have served : ∀ v, Calm (alloc.allocateFromList store (size / pageSize) v) := by
    intro v
    refine calm_bind (calm_unwrap _) fun list => ?_
    refine calm_bind (calm_popFront _ _) fun popped => ?_
    refine calm_bind (calm_unwrap _) fun block => ?_
    refine calm_bind (calm_ite _ _ _ (calm_mark _ _).2 (calm_pure _)) fun bitmaps => ?_
    refine calm_ite _ _ _ (calm_pure _) (calm_bind (calm_usizeAdd _ _) fun addr => ?_)
    exact calm_bind (calm_release _ _ _ _) fun _ => calm_pure _
  refine calm_ite _ _ _ (calm_bind (calm_panic (.message _) (by simp)) fun _ => ?_) ?_
  all_goals
    refine calm_bind (calm_assert _ _) fun _ => ?_
    refine calm_bind (calm_bind (calm_assert _ _) fun _ => calm_searchFrom _ _ _ _) fun found => ?_
    cases found with
    | some v => exact calm_bind (served v) fun _ => calm_pure _
    | none =>
        refine calm_ite _ _ _ (calm_bind (calm_usizeAdd _ _) fun _ => ?_) (calm_pure _)
        exact calm_bind (calm_usizeSub _ _) fun _ => calm_pure _

theorem calm_deallocate (alloc : PageAllocator) (store : Store) (start size : Nat) :
    Calm (alloc.deallocate store start size) :=
  calm_bind (calm_assert _ _) fun _ => calm_bind (calm_assert _ _) fun _ => calm_release _ _ _ _

end Allocator

section Locks

variable {halts : Halt → Prop} {s : GlobalState} (mutex : Lock) (post : Unit → GlobalState → Prop)

theorem wp_lock_of_free (available : mutex ∉ s.held) :
    wp (lock mutex) post halts s ↔ post () { s with held := mutex :: s.held } := by
  rw [wp_def, lock, if_neg available]

@[simp] theorem wp_unlock :
    wp (unlock mutex) post halts s ↔ post () { s with held := s.held.erase mutex } := by
  rw [wp_def]
  exact Iff.rfl

end Locks

namespace View

def Free (free : List Lock) (v : View) : Prop := ∀ mutex ∈ free, mutex ∉ v.held

end View

def Tolerant (halts : Halt → Prop) : Prop :=
  ∀ reason, (∀ hart, reason ≠ .panic (.deadlock hart)) → halts reason

def Keeps {α : Type} (halts : Halt → Prop) (free : List Lock) (x : Kernel α) : Prop :=
  ∀ s, (view s).Free free → wp x (fun _ t => view t = view s) halts s

theorem Keeps.returned {α : Type} {halts : Halt → Prop} {free : List Lock} {x : Kernel α}
    (quiet : Keeps halts free x) {s t : GlobalState} {a : α} (unlocked : (view s).Free free)
    (ran : x s = .ok (a, t)) : view t = view s := by
  have spec := wp_of_returns (quiet s unlocked) ran
  exact spec

section Composition

variable {α β : Type} {halts : Halt → Prop} {free : List Lock}

theorem keeps_pure (a : α) : Keeps halts free (pure a : Kernel α) := fun _ _ => by rw [wp_pure]

theorem keeps_bind {x : Kernel α} {f : α → Kernel β} (first : Keeps halts free x)
    (rest : ∀ a, Keeps halts free (f a)) : Keeps halts free (x >>= f) := by
  intro s unlocked
  rw [wp_bind]
  apply wp_weaken (first s unlocked)
  intro a t same
  rw [← same] at unlocked ⊢
  exact rest a t unlocked

theorem keeps_run_bind {x : KernelResult α} {f : α → KernelResult β}
    (first : Keeps halts free x.run) (rest : ∀ a, Keeps halts free (f a).run) :
    Keeps halts free (x >>= f).run := by
  rw [ExceptT.run_bind]
  refine keeps_bind first fun r => ?_
  cases r with
  | ok a => exact rest a
  | error e => exact keeps_pure _

theorem keeps_run_lift {x : Kernel α} (quiet : Keeps halts free x) :
    Keeps halts free (liftM x : KernelResult α).run :=
  keeps_bind quiet fun _ => keeps_pure _

theorem keeps_ite (c : Prop) [Decidable c] {x y : Kernel α} (yes : Keeps halts free x)
    (no : Keeps halts free y) : Keeps halts free (if c then x else y) := by
  split
  · exact yes
  · exact no

theorem keeps_run_ite (c : Prop) [Decidable c] {x y : KernelResult α}
    (yes : Keeps halts free x.run) (no : Keeps halts free y.run) :
    Keeps halts free (if c then x else y).run := by
  split
  · exact yes
  · exact no

theorem keeps_halt (reason : Halt) (allowed : halts reason) :
    Keeps halts free (halt reason : Kernel α) := by
  intro s _
  rw [wp_def]
  exact allowed

theorem keeps_liftRust (tolerant : Tolerant halts) {x : Rust α} (calm : Calm x) :
    Keeps halts free (liftRust x) := by
  intro s _
  rw [wp_liftRust]
  cases x with
  | ok a => rfl
  | error e => exact tolerant e fun hart same => calm hart (by rw [same])

theorem keeps_update (result : GlobalState → α) (next : GlobalState → GlobalState)
    (same : ∀ s, view (next s) = view s) :
    Keeps halts free (fun s => .ok (result s, next s) : Kernel α) := by
  intro s _
  rw [wp_def]
  exact same s

theorem wp_withLock (mutex : Lock) (x : Kernel α) (post : α → GlobalState → Prop) {s : GlobalState}
    (available : mutex ∉ s.held) :
    wp (withLock mutex x) post halts s ↔
      wp x (fun a t => post a { t with held := t.held.erase mutex }) halts
        { s with held := mutex :: s.held } := by
  unfold withLock
  simp only [wp_bind]
  rw [wp_lock_of_free _ _ available]
  simp only [wp_unlock, wp_pure]

theorem keeps_withLock (mutex : Lock) {x : Kernel α} (needed : mutex ∈ free)
    (quiet : Keeps halts (free.filter (· ≠ mutex)) x) : Keeps halts free (withLock mutex x) := by
  intro s unlocked
  rw [wp_withLock _ _ _ (unlocked mutex needed : mutex ∉ s.held)]
  refine wp_weaken (quiet { s with held := mutex :: s.held } ?_) ?_
  · intro other wanted taken
    obtain ⟨inFree, different⟩ := List.mem_filter.mp wanted
    rcases List.mem_cons.mp taken with rfl | already
    · simp at different
    · exact unlocked other inFree already
  · intro a t same
    have held : t.held = mutex :: s.held := congrArg View.held same
    have rest : view { t with held := s.held } = view s := by
      have := congrArg (fun v : View => { v with held := s.held }) same
      exact this
    rw [held, List.erase_cons_head]
    exact rest

theorem keeps_unwrapResult (tolerant : Tolerant halts) {x : KernelResult α}
    (quiet : Keeps halts free x.run) : Keeps halts free (unwrapResult x) := by
  refine keeps_bind quiet fun r => ?_
  cases r with
  | ok a => exact keeps_pure a
  | error e => exact keeps_halt _ (tolerant _ (by simp))

theorem keeps_expectResult (tolerant : Tolerant halts) (text : String) {x : KernelResult α}
    (quiet : Keeps halts free x.run) : Keeps halts free (expectResult text x) := by
  refine keeps_bind quiet fun r => ?_
  cases r with
  | ok a => exact keeps_pure a
  | error e => exact keeps_halt _ (tolerant _ (by simp))

end Composition

section Functions

variable {halts : Halt → Prop} {free : List Lock}

theorem wp_storeMapped (plat : Platform) {addr : Nat} {bytes : List UInt8} {s : GlobalState}
    {post : Unit → GlobalState → Prop}
    (stores : s.InRam plat.endOfKernelText addr bytes.length → wp (storeBytes addr bytes) post halts s)
    (stops : ¬ s.InRam plat.endOfKernelText addr bytes.length → halts outsideRam) :
    wp (storeMapped plat addr bytes) post halts s := by
  by_cases inside : s.InRam plat.endOfKernelText addr bytes.length
  · have stored := stores inside
    rw [wp_def] at stored ⊢
    rw [storeMapped, if_pos inside]
    exact stored
  · rw [wp_def, storeMapped, if_neg inside]
    exact stops inside

theorem keeps_storeBytes (addr : Nat) (bytes : List UInt8) :
    Keeps halts free (storeBytes addr bytes) :=
  keeps_update (fun _ => ()) (fun s => { s with memory := s.memory.store addr bytes }) fun _ => rfl

theorem keeps_storeWord (addr value : Nat) : Keeps halts free (storeWord addr value) :=
  keeps_update (fun _ => ()) (fun s => { s with memory := s.memory.write addr 8 value }) fun _ => rfl

theorem keeps_loadBytes (addr count : Nat) : Keeps halts free (loadBytes addr count) :=
  keeps_update (fun s => s.memory.load addr count) id fun _ => rfl

theorem keeps_loadWord (addr : Nat) : Keeps halts free (loadWord addr) :=
  keeps_update (fun s => s.memory.read addr 8) id fun _ => rfl

theorem keeps_getObject (pid : Nat) : Keeps halts free (getObject pid) :=
  keeps_update (fun s => s.object pid) id fun _ => rfl

theorem keeps_modifyObject (pid : Nat) (f : Process → Process)
    (same : ∀ p, (f p).id = p.id ∧ (f p).processState = p.processState ∧ (f p).parent = p.parent ∧
      (f p).children = p.children) :
    Keeps halts free (modifyObject pid f) := by
  refine keeps_update (fun _ => ())
    (fun s => { s with object := Function.update s.object pid (f (s.object pid)) }) fun s => ?_
  obtain ⟨id, state, parent, children⟩ := same (s.object pid)
  have field : ∀ {β : Type} (g : Process → β), g (f (s.object pid)) = g (s.object pid) →
      (fun p => g (Function.update s.object pid (f (s.object pid)) p)) =
        fun p => g (s.object p) := by
    intro β g equal
    funext p
    by_cases here : p = pid
    · rw [here, Function.update_self, equal]
    · rw [Function.update_of_ne here]
  unfold view
  rw [field Process.id id, field Process.processState state, field Process.parent parent,
    field Process.children children]

theorem keeps_readEntry (addr : Nat) : Keeps halts free (readEntry addr) :=
  keeps_update (fun s => loadEntry (memory s) addr) id fun _ => rfl

theorem keeps_writeEntry (addr : Nat) (entry : PageTableEntry) :
    Keeps halts free (writeEntry addr entry) :=
  keeps_update (fun _ => ()) (fun s => setMemory s (storeEntry (memory s) addr entry)) fun _ => rfl

variable (tolerant : Tolerant halts) (plat : Platform)
include tolerant

theorem keeps_allocatorAllocate (size : Nat) : Keeps halts free (allocatorAllocate size).run := by
  intro s _
  rw [wp_def, allocatorAllocate, ExceptT.run_mk]
  have calm := calm_allocate s.allocator ⟨s.memory, s.nodeId⟩ size
  cases called : s.allocator.allocate ⟨s.memory, s.nodeId⟩ size with
  | error e => exact tolerant e fun hart same => calm hart (by rw [called, same])
  | ok r => rfl

theorem keeps_allocatorDeallocate (start size : Nat) :
    Keeps halts free (allocatorDeallocate start size) := by
  intro s _
  rw [wp_def, allocatorDeallocate]
  have calm := calm_deallocate s.allocator ⟨s.memory, s.nodeId⟩ start size
  cases called : s.allocator.deallocate ⟨s.memory, s.nodeId⟩ start size with
  | error e => exact tolerant e fun hart same => calm hart (by rw [called, same])
  | ok r => rfl

theorem keeps_archAllocate (needed : .allocator ∈ free) (size : Nat) :
    Keeps halts free ((arch plat).allocate size).run :=
  keeps_withLock _ needed (keeps_run_bind
    (keeps_run_lift (keeps_liftRust tolerant (calm_assert _ _)))
    fun _ => keeps_allocatorAllocate tolerant size)

theorem keeps_archDeallocate (needed : .allocator ∈ free) (addr size : Nat) :
    Keeps halts free ((arch plat).deallocate addr size) :=
  keeps_withLock _ needed (keeps_allocatorDeallocate tolerant addr size)

theorem keeps_walk (needed : .allocator ∈ free) (va : Nat) (shouldAllocate : Bool)
    (level pageTable : Nat) :
    Keeps halts free (walk (arch plat).allocate va shouldAllocate level pageTable).run := by
  induction level generalizing pageTable with
  | zero => exact keeps_pure _
  | succ level ih =>
      refine keeps_run_bind (keeps_run_lift (keeps_readEntry _)) fun entry => ?_
      refine keeps_run_ite _ (ih _) (keeps_run_ite _ ?_ (keeps_pure _))
      refine keeps_run_bind (keeps_archAllocate tolerant plat needed _) fun page => ?_
      refine keeps_run_bind (keeps_run_lift (keeps_readEntry _)) fun old => ?_
      exact keeps_run_bind (keeps_run_lift (keeps_writeEntry _ _)) fun _ => ih _

theorem keeps_entryAddress (needed : .allocator ∈ free) (pageTable va : Nat)
    (shouldAllocate : Bool) :
    Keeps halts free
      (getPageTableEntryAddress (arch plat).allocate pageTable va shouldAllocate).run :=
  keeps_run_ite _ (keeps_pure _) (keeps_walk tolerant plat needed _ _ _ _)

theorem keeps_mapPages (needed : .allocator ∈ free) (pageTable : Nat) (r w x u : Bool)
    (pages va pa : Nat) :
    Keeps halts free ((arch plat).mapPages pageTable r w x u pages va pa).run := by
  induction pages generalizing va pa with
  | zero => exact keeps_pure _
  | succ pages ih =>
      refine keeps_run_bind (keeps_entryAddress tolerant plat needed _ _ _) fun address => ?_
      refine keeps_run_bind (keeps_run_lift (keeps_readEntry _)) fun entry => ?_
      refine keeps_run_ite _ (keeps_pure _) ?_
      refine keeps_run_bind (keeps_run_lift (keeps_writeEntry _ _)) fun _ => ?_
      refine keeps_run_bind (keeps_run_lift (keeps_liftRust tolerant (calm_usizeAdd _ _))) fun _ => ?_
      exact ih _ _

theorem keeps_map (arch_ : .arch ∈ free) (allocator : .allocator ∈ free) (pageTable va pa size : Nat)
    (r w x u : Bool) : Keeps halts free (GlobalState.map plat pageTable va pa size r w x u).run := by
  refine keeps_withLock _ arch_ ?_
  have needed : Lock.allocator ∈ free.filter (· ≠ Lock.arch) :=
    List.mem_filter.mpr ⟨allocator, by decide⟩
  exact keeps_run_ite _ (keeps_pure _) (keeps_run_ite _ (keeps_pure _)
    (keeps_run_ite _ (keeps_pure _) (keeps_mapPages tolerant plat needed _ _ _ _ _ _ _ _)))

theorem keeps_va2pa (arch_ : .arch ∈ free) (allocator : .allocator ∈ free) (pageTable va : Nat) :
    Keeps halts free (GlobalState.va2pa plat pageTable va).run := by
  refine keeps_withLock _ arch_ ?_
  have needed : Lock.allocator ∈ free.filter (· ≠ Lock.arch) :=
    List.mem_filter.mpr ⟨allocator, by decide⟩
  refine keeps_run_bind (keeps_entryAddress tolerant plat needed _ _ _) fun address => ?_
  refine keeps_run_bind (keeps_run_lift (keeps_readEntry _)) fun entry => ?_
  exact keeps_run_ite _ (keeps_pure _)
    (keeps_run_lift (keeps_liftRust tolerant (calm_usizeAdd _ _)))

omit tolerant in
theorem keeps_cleanEntries (recurse : Nat → Kernel Unit) (quiet : ∀ t, Keeps halts free (recurse t))
    (pageTable entries index : Nat) :
    Keeps halts free (Riscv.cleanEntries recurse pageTable entries index) := by
  induction entries generalizing index with
  | zero => exact keeps_pure _
  | succ entries ih =>
      refine keeps_bind (keeps_readEntry _) fun entry => ?_
      refine keeps_ite _ ?_ (ih _)
      refine keeps_ite _ (keeps_bind (quiet _) fun _ => ?_) ?_
      all_goals
        refine keeps_bind (keeps_readEntry _) fun old => ?_
        exact keeps_bind (keeps_writeEntry _ _) fun _ => ih _

theorem keeps_recursiveClean (needed : .allocator ∈ free) (depth pageTable : Nat) :
    Keeps halts free ((arch plat).recursiveClean depth pageTable) := by
  induction depth generalizing pageTable with
  | zero => exact keeps_halt _ (tolerant _ (by simp))
  | succ depth ih =>
      refine keeps_bind (keeps_cleanEntries _ ih _ _ _) fun _ => ?_
      exact keeps_archDeallocate tolerant plat needed _ _

theorem keeps_cleanupPageTable (arch_ : .arch ∈ free) (allocator : .allocator ∈ free)
    (pageTable : Nat) : Keeps halts free (GlobalState.cleanupPageTable plat pageTable).run := by
  have needed : Lock.allocator ∈ free.filter (· ≠ Lock.arch) :=
    List.mem_filter.mpr ⟨allocator, by decide⟩
  have quiet := keeps_recursiveClean tolerant plat needed usizeBound pageTable
  exact keeps_withLock _ arch_ (keeps_run_lift quiet)

theorem keeps_allocate (needed : .allocator ∈ free) (size : Nat) :
    Keeps halts free (GlobalState.allocate size).run :=
  keeps_withLock _ needed (keeps_allocatorAllocate tolerant size)

end Functions

section Paths

variable {halts : Halt → Prop} {free : List Lock} (tolerant : Tolerant halts) (plat : Platform)
  (arch_ : .arch ∈ free) (allocator : .allocator ∈ free)

theorem calm_fromRawParts (addr size : Nat) : Calm (fromRawParts addr size) :=
  calm_ite _ _ _ (calm_panic _ (by simp)) (calm_pure _)

theorem calm_alignToPageSize (size : Nat) : Calm (alignToPageSize size) :=
  calm_ite _ _ _ (calm_usizeMul _ _) (calm_usizeMul _ _)

theorem calm_raiseHeap (heapStart codePageStart : Nat) : Calm (raiseHeap heapStart codePageStart) :=
  calm_ite _ _ _ (calm_bind (calm_usizeAdd _ _) fun _ => calm_unwrap _) (calm_pure _)

theorem calm_kernelStackAddress (pid : Nat) : Calm (kernelStackAddress pid) :=
  calm_bind (calm_usizeAdd _ _) fun _ => calm_bind (calm_usizeMul _ _) fun _ =>
    calm_bind (calm_usizeMul _ _) fun _ => calm_usizeSub _ _

include tolerant arch_ allocator

omit arch_ allocator in
theorem keeps_loadMapped (addr count : Nat) : Keeps halts free (loadMapped plat addr count) := by
  intro s _
  rw [wp_def, loadMapped]
  by_cases inside : s.InRam plat.kernelStart addr count
  · rw [if_pos inside]
  · rw [if_neg inside]
    exact tolerant _ (by simp [outsideRam])

omit arch_ allocator in
theorem keeps_storeMapped (addr : Nat) (bytes : List UInt8) :
    Keeps halts free (storeMapped plat addr bytes) := by
  intro s unlocked
  apply wp_storeMapped
  · exact fun _ => keeps_storeBytes addr bytes s unlocked
  · exact fun _ => tolerant _ (by simp [outsideRam])

theorem keeps_read (slice : UserMemorySlice) : Keeps halts free (slice.read plat (translate plat)) := by
  refine keeps_bind (keeps_unwrapResult tolerant
    (keeps_va2pa tolerant plat arch_ allocator _ _)) fun start => ?_
  refine keeps_bind (keeps_liftRust tolerant (calm_fromRawParts _ _)) fun _ => ?_
  exact keeps_loadMapped tolerant plat _ _

theorem keeps_write (slice : UserMemorySlice) (bytes : List UInt8) :
    Keeps halts free (slice.write plat (translate plat) bytes) := by
  refine keeps_bind (keeps_unwrapResult tolerant
    (keeps_va2pa tolerant plat arch_ allocator _ _)) fun start => ?_
  refine keeps_bind (keeps_liftRust tolerant (calm_fromRawParts _ _)) fun _ => ?_
  exact keeps_storeMapped tolerant plat _ _

theorem keeps_readRequest (pageTable : Nat) : Keeps halts free (readRequest plat pageTable) :=
  keeps_bind (keeps_read tolerant plat arch_ allocator _) fun _ => keeps_pure _

theorem keeps_writeResult (pageTable : Nat) (result : SyscallResult) :
    Keeps halts free (writeResult plat pageTable result) :=
  keeps_write tolerant plat arch_ allocator _ _

omit arch_ allocator in
theorem keeps_copySegment (image : List UInt8) (segment : ProgramHeader) (pt : Nat) :
    Keeps halts free (copySegment image segment pt) := by
  refine keeps_bind (keeps_liftRust tolerant (calm_fromRawParts _ _)) fun _ => ?_
  refine keeps_bind (keeps_liftRust tolerant (calm_usizeAdd _ _)) fun stop => ?_
  refine keeps_bind (keeps_liftRust tolerant ?_) fun bytes => keeps_storeBytes _ _
  exact calm_ite _ _ _ (calm_pure _) (calm_panic _ (by simp))

theorem keeps_loadSegment (pid pageTable : Nat) (image : List UInt8) (segment : ProgramHeader) :
    Keeps halts free (loadSegment plat pid pageTable image segment).run := by
  refine keeps_run_bind (keeps_run_lift (keeps_liftRust tolerant (calm_alignToPageSize _)))
    fun codePageStart => ?_
  refine keeps_run_bind (keeps_run_lift (keeps_liftRust tolerant (calm_alignToPageSize _)))
    fun memsz => ?_
  refine keeps_run_bind (keeps_allocate tolerant allocator _) fun pt => ?_
  refine keeps_run_bind (keeps_map tolerant plat arch_ allocator _ _ _ _ _ _ _ _) fun _ => ?_
  refine keeps_run_bind (keeps_run_lift (keeps_copySegment tolerant _ _ _)) fun _ => ?_
  refine keeps_run_bind (keeps_run_lift (keeps_getObject _)) fun process => ?_
  refine keeps_run_bind (keeps_run_lift (keeps_liftRust tolerant (calm_raiseHeap _ _)))
    fun heapStart => ?_
  exact keeps_run_lift (keeps_modifyObject _ _ fun _ => ⟨rfl, rfl, rfl, rfl⟩)

theorem keeps_loadSegments (pid pageTable : Nat) (image : List UInt8)
    (segments : List ProgramHeader) :
    Keeps halts free (loadSegments plat pid pageTable image segments).run := by
  induction segments with
  | nil => exact keeps_pure _
  | cons segment rest ih =>
      refine keeps_run_bind (keeps_run_ite _
        (keeps_loadSegment tolerant plat arch_ allocator _ _ _ _) (keeps_pure _)) fun _ => ?_
      refine keeps_run_bind (keeps_run_lift
        (keeps_modifyObject _ _ fun _ => ⟨rfl, rfl, rfl, rfl⟩)) fun _ => ?_
      exact ih

theorem keeps_mapOtherPages (pageTable pid : Nat) :
    Keeps halts free (mapOtherPages plat pageTable pid).run := by
  have allocates := fun size => keeps_allocate tolerant allocator size
  have maps := fun va pa size r w x u =>
    keeps_map tolerant plat arch_ allocator pageTable va pa size r w x u
  refine keeps_run_bind (keeps_run_lift (keeps_unwrapResult tolerant (allocates _))) fun stack => ?_
  refine keeps_run_bind (maps _ _ _ _ _ _ _) fun _ => ?_
  refine keeps_run_bind (keeps_run_lift (keeps_liftRust tolerant (calm_kernelStackAddress _)))
    fun kernelStack => ?_
  refine keeps_run_bind (keeps_run_lift (keeps_modifyObject _ _ fun _ => ⟨rfl, rfl, rfl, rfl⟩))
    fun _ => ?_
  refine keeps_run_bind (keeps_run_lift (keeps_getObject _)) fun process => ?_
  refine keeps_run_bind (keeps_run_lift (keeps_storeWord _ _)) fun _ => ?_
  refine keeps_run_bind (maps _ _ _ _ _ _ _) fun _ => ?_
  refine keeps_run_bind (maps _ _ _ _ _ _ _) fun _ => ?_
  refine keeps_run_bind (allocates _) fun errorPage => ?_
  refine keeps_run_bind (maps _ _ _ _ _ _ _) fun _ => ?_
  refine keeps_run_bind (keeps_run_lift (keeps_storeWord _ _)) fun _ => ?_
  exact keeps_run_lift (keeps_storeWord _ _)

theorem keeps_growHeap (pid faultingAddress : Nat) :
    Keeps halts free (growHeap plat pid faultingAddress).run := by
  refine keeps_run_bind (keeps_run_lift (keeps_getObject _)) fun process => ?_
  refine keeps_run_ite _ ?_ (keeps_pure _)
  refine keeps_run_bind (keeps_run_lift (keeps_liftRust tolerant (calm_usizeSub _ _))) fun size => ?_
  refine keeps_run_bind (keeps_allocate tolerant allocator _) fun block => ?_
  exact keeps_map tolerant plat arch_ allocator _ _ _ _ _ _ _ _

omit tolerant arch_ allocator in
theorem keeps_okOr {α : Type} (x : Option α) (e : Error) : Keeps halts free (okOr x e).run := by
  cases x <;> exact keeps_pure _

omit tolerant arch_ allocator in
theorem keeps_initialiseTrapframe (trapframe pageTable : Nat) :
    Keeps halts free (initialiseTrapframe plat trapframe pageTable) :=
  keeps_bind (keeps_storeBytes _ _) fun _ => keeps_bind (keeps_storeWord _ _) fun _ =>
    keeps_bind (keeps_storeWord _ _) fun _ => keeps_bind (keeps_storeWord _ _) fun _ =>
      keeps_storeWord _ _

theorem keeps_loadImage (pid pageTable trapframe : Nat) (image : List UInt8) :
    Keeps halts free (loadImage plat pid pageTable trapframe image).run := by
  refine keeps_run_bind (keeps_run_lift (keeps_initialiseTrapframe plat _ _)) fun _ => ?_
  refine keeps_run_bind (keeps_okOr _ _) fun elf => ?_
  refine keeps_run_bind (keeps_okOr _ _) fun segments => ?_
  refine keeps_run_bind (keeps_loadSegments tolerant plat arch_ allocator _ _ _ _) fun _ => ?_
  refine keeps_run_bind (keeps_run_lift (keeps_storeWord _ _)) fun _ => ?_
  exact keeps_run_lift (keeps_expectResult tolerant _
    (keeps_mapOtherPages tolerant plat arch_ allocator _ _))

omit arch_ allocator

theorem keeps_handleSyscall (trapframe : Nat) : Keeps halts free (handleSyscall trapframe) :=
  keeps_bind (keeps_loadWord _) fun _ =>
    keeps_bind (keeps_liftRust tolerant (calm_usizeAdd _ _)) fun _ => keeps_storeWord _ _

omit tolerant

theorem keeps_consoleWrite (text : List UInt8) : Keeps halts free (consoleWrite text) :=
  keeps_update (fun _ => ()) (fun s => { s with console := s.console ++ consoleBytes text })
    fun _ => rfl

theorem calm_receive (s : GlobalState) (byte : UInt8) : Calm (Uart.receive s byte) :=
  calm_ite _ _ _ (calm_pure _) (calm_ite _ _ _
    (calm_ite _ _ _ (calm_bind (calm_usizeSub _ _) fun _ => calm_pure _) (calm_pure _))
    (calm_bind (calm_usizeAdd _ _) fun _ => calm_pure _))

theorem receive_frame {s t : GlobalState} {byte : UInt8} (received : Uart.receive s byte = .ok t) :
    ∃ console inputBuffer cursorPosition, t = { s with console, inputBuffer, cursorPosition } := by
  unfold Uart.receive at received
  split at received
  · cases received
    exact ⟨_, _, _, rfl⟩
  · split at received
    · split at received
      · rcases (bind_eq_ok _ _ _).mp received with ⟨cursor, _, rest⟩
        cases rest
        exact ⟨_, _, _, rfl⟩
      · cases received
        exact ⟨_, _, _, rfl⟩
    · rcases (bind_eq_ok _ _ _).mp received with ⟨cursor, _, rest⟩
      cases rest
      exact ⟨_, _, _, rfl⟩

theorem calm_received (received : List UInt8) (s : GlobalState) :
    Calm (received.foldlM Uart.receive s) := by
  induction received generalizing s with
  | nil => exact calm_pure s
  | cons byte rest ih =>
      rw [List.foldlM_cons]
      exact calm_bind (calm_receive s byte) ih

theorem received_frame (received : List UInt8) {s t : GlobalState}
    (done : received.foldlM Uart.receive s = .ok t) :
    ∃ console inputBuffer cursorPosition, t = { s with console, inputBuffer, cursorPosition } := by
  induction received generalizing s with
  | nil =>
      cases done
      exact ⟨_, _, _, rfl⟩
  | cons byte rest ih =>
      rw [List.foldlM_cons] at done
      rcases (bind_eq_ok _ _ _).mp done with ⟨u, first, later⟩
      rcases receive_frame first with ⟨_, _, _, rfl⟩
      rcases ih later with ⟨_, _, _, rfl⟩
      exact ⟨_, _, _, rfl⟩

theorem keeps_dequeueInput (needed : .inputBuffer ∈ free) : Keeps halts free dequeueInput := by
  refine keeps_withLock _ needed ?_
  intro s _
  rw [wp_def]
  cases s.inputBuffer with
  | nil => rfl
  | cons byte rest => rfl

include tolerant in
theorem keeps_handleExternalInterrupt (needed : .inputBuffer ∈ free) (info : TrapInfo) :
    Keeps halts free (handleExternalInterrupt info) := by
  apply keeps_ite
  · apply keeps_withLock _ needed
    intro s _
    rw [wp_def]
    cases done : info.received.foldlM Uart.receive s with
    | error e => exact tolerant e fun hart same => calm_received info.received s hart (same ▸ done)
    | ok t =>
        rcases received_frame info.received done with ⟨_, _, _, rfl⟩
        rfl
  · exact keeps_pure _

end Paths

end Jangri
