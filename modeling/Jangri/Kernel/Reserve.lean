import Jangri.Kernel.Equipment
import Jangri.Kernel.Outcomes

namespace Jangri

open Lib

def WholePages (K : Set Nat) : Prop := ∀ x ∈ K, ∀ y, y / pageSize = x / pageSize → y ∈ K

structure Reserved (plat : Platform) (K : Set Nat) (s : GlobalState) : Prop where
  isolated : ∃ free live owner,
    Isolated plat s.processes s.object s.allocator s.memory free live owner ∧
      ∀ x ∈ K, Held live owner .kernel x
  contexts : ∀ q ∈ s.processes, ContextFits (s.object q).context (s.object q).pageTable

theorem Reserved.separated {plat : Platform} {K : Set Nat} {s : GlobalState}
    (reserved : Reserved plat K s) : Separated plat s := by
  rcases reserved.isolated with ⟨free, live, owner, isolated, -⟩
  exact ⟨⟨free, live, owner, isolated⟩, reserved.contexts⟩

section Splitting

variable {plat : Platform} {K : Set Nat} {processes : List Nat} {object : Nat → Process}
  {alloc : PageAllocator} {m : Memory} {free : Nat → List Nat} {live : List Block}
  {owner : Nat → Owner}

theorem PageAllocator.WellFormed.paged (wf : alloc.WellFormed m free live) :
    alloc.WellFormed m free (live.flatMap (Block.parts pageSize)) where
  notNull := wf.notNull
  bounded := wf.bounded
  bump := wf.bump
  size := wf.size
  chains := wf.chains
  pages := by
    intro part present
    rcases (mem_parts _ _ _).mp present with ⟨b, -, k, -, rfl⟩
    exact ⟨le_refl _, Nat.mod_self _⟩
  tiles := by
    intro x
    have tiles := wf.tiles x
    rw [cover_append, cover_append] at tiles ⊢
    rw [cover_parts pageSize live (fun b present => (wf.pages b present).2)]
    exact tiles
  aligned := by
    intro part present
    rcases List.mem_append.mp present with inUse | bump
    · rcases List.mem_append.mp inUse with split | listed
      · rcases (mem_parts _ _ _).mp split with ⟨b, live_, k, -, rfl⟩
        rw [Nat.add_mul_mod_self_right]
        exact wf.aligned b (by simp [live_])
      · exact wf.aligned part (by simp [listed])
    · exact wf.aligned part (by simp [List.mem_singleton.mp bump])

theorem page_of_live (wf : alloc.WellFormed m free live) (start : alloc.memoryStart % pageSize = 0)
    {b : Block} (present : b ∈ live) {x : Nat} (inside : b.Contains x) :
    (⟨x / pageSize * pageSize, pageSize⟩ : Block) ∈ live.flatMap (Block.parts pageSize) ∧
      b.Contains (x / pageSize * pageSize) := by
  have whole := (wf.pages b present).2
  have aligned := wf.aligned b (by simp [present])
  rw [start] at aligned
  have low := inside.1
  have high := inside.2
  refine ⟨(mem_parts _ _ _).mpr ⟨b, present, (x - b.addr) / pageSize, ?_, ?_⟩, ?_, ?_⟩
  · simp only [pageSize] at *
    omega
  · congr 1
    simp only [pageSize] at *
    omega
  · simp only [pageSize] at *
    omega
  · simp only [pageSize] at *
    omega

/-- Owners of the pages: the kernel has those in `K`, and all others stay with the owner of the block
that they come from. -/
theorem exists_relabelled (wf : alloc.WellFormed m free live) (K : Set Nat) (owner : Nat → Owner) :
    ∃ owner' : Nat → Owner, (∀ a ∈ K, owner' a = .kernel) ∧
      ∀ a ∉ K, ∀ b ∈ live, b.Contains a → owner' a = owner b.addr := by
  classical
  refine ⟨fun a => if a ∈ K then .kernel else
    if found : ∃ b ∈ live, b.Contains a then owner found.choose.addr else .kernel, ?_, ?_⟩
  · intro a member
    exact if_pos member
  · intro a stranger b present inside
    have found : ∃ b ∈ live, b.Contains a := ⟨b, present, inside⟩
    have chosen := found.choose_spec
    simp only
    rw [if_neg stranger, dif_pos found,
      wf.live_eq_of_contains _ b chosen.1 present a chosen.2 inside]

theorem Isolated.reserve (isolated : Isolated plat processes object alloc m free live owner)
    (placed : Placed plat) (whole : WholePages K) (held : ∀ x ∈ K, ∃ o, Held live owner o x)
    (frames : ∀ q ∈ processes, ∀ x, (object q).trapframe ≤ x → x < (object q).trapframe + pageSize →
      x ∉ K)
    (tables : ∀ q ∈ processes, Alive (object q) → ∀ t, TablePage m (object q).pageTable t →
      ∀ x, t ≤ x → x < t + pageSize → x ∉ K)
    (users : ∀ q ∈ processes, Alive (object q) → ∀ va entry,
      leafAt m (object q).pageTable va = some entry → entry.userModeAccessible = true →
      ∀ x, entry.getPhysicalAddress ≤ x → x < entry.getPhysicalAddress + pageSize → x ∉ K) :
    ∃ live' owner', Isolated plat processes object alloc m free live' owner' ∧
      ∀ x ∈ K, Held live' owner' .kernel x := by
  have wf := isolated.wf
  have start : alloc.memoryStart % pageSize = 0 := by
    rw [isolated.start]
    exact placed.aligned
  rcases exists_relabelled wf K owner with ⟨owner', reserved, others⟩
  have inPage : ∀ x, (⟨x / pageSize * pageSize, pageSize⟩ : Block).Contains x := by
    intro x
    simp only [Block.Contains, pageSize]
    omega
  have samePage : ∀ x, x / pageSize * pageSize / pageSize = x / pageSize := by
    intro x
    exact Nat.mul_div_cancel _ (by decide)
  have keeps : ∀ o x, Held live owner o x → x ∉ K →
      Held (live.flatMap (Block.parts pageSize)) owner' o x := by
    rintro o x ⟨b, present, isOwner, inside⟩ stranger
    have page := page_of_live wf start present inside
    refine ⟨_, page.1, ?_, inPage x⟩
    rw [others _ ?_ b present page.2]
    · exact isOwner
    · intro member
      exact stranger (whole _ member x (samePage x).symm)
  refine ⟨live.flatMap (Block.parts pageSize), owner', ⟨wf.paged, isolated.start, ?_, ?_⟩, ?_⟩
  · intro q present x low high
    exact keeps _ x (isolated.frames q present x low high) (frames q present x low high)
  · intro q present alive
    have space := isolated.spaces q present alive
    refine ⟨space.tables, ?_, space.rights, ?_, space.others⟩
    · intro t page
      have known := space.pages t page
      have wide : t < t + pageSize := Nat.lt_add_of_pos_right (by decide)
      have stranger := tables q present alive t page t (le_refl _) wide
      have single : 0 < pageSize / pageSize := by decide
      refine ⟨(mem_parts _ _ _).mpr ⟨_, known.1, 0, single, by simp⟩, ?_⟩
      rw [others t stranger _ known.1 ⟨le_refl _, wide⟩]
      exact known.2
    · intro va entry leaf accessible x low high
      exact keeps _ x (space.users va entry leaf accessible x low high)
        (users q present alive va entry leaf accessible x low high)
  · intro x member
    rcases held x member with ⟨o, b, present, -, inside⟩
    refine ⟨_, (page_of_live wf start present inside).1, ?_, inPage x⟩
    exact reserved _ (whole x member _ (samePage x))

end Splitting

section Working

variable {plat : Platform} {K : Set Nat} {s t : GlobalState} {free : Nat → List Nat}
  {live : List Block} {owner : Nat → Owner} {scene : Scene} {U T G : Set Nat}

theorem Reserved.of_world (placed : Placed plat) (whole : WholePages K)
    (isolated : Isolated plat s.processes s.object s.allocator s.memory free live owner)
    (kernel : ∀ x ∈ K, Held live owner .kernel x)
    (foreign : scene.foreign = Isolated.foreign live owner scene.pid) (before : scene.before = s.memory)
    (object : scene.object = s.object)
    (processes : ∀ q ∈ scene.processes, q ≠ scene.pid → q ∈ s.processes)
    (world : World plat scene U T t)
    (own : ∀ free live owner, Ledger plat scene U scene.frame T t.allocator t.memory free live owner →
      Alive (t.object scene.pid) → Space t.memory live owner scene.pid scene.root) :
    Reserved plat K t ∧ ∀ x ∈ K, t.memory x = s.memory x := by
  have far : ∀ x ∈ K, x ∈ scene.foreign := by
    intro x member
    rw [foreign]
    exact ⟨.kernel, by simp [Owner.process], kernel x member⟩
  have covers : s.Covers scene.pid scene.foreign := by
    rw [foreign]
    exact isolated.covers scene.pid
  have separated := separated_of_world world own
  have same : ∀ x ∈ scene.foreign, t.memory x = s.memory x := by
    intro x member
    rw [← before]
    exact world.untouched x member
  rcases world with ⟨⟨free', live', owner', ledger⟩, onstage⟩
  have isolated' := isolated_of_ledger onstage ledger (own free' live' owner' ledger)
  have others : ∀ q ∈ t.processes, q ≠ scene.pid → q ∈ s.processes ∧
      SameProcess (t.object q) (s.object q) := by
    intro q present other
    rw [onstage.processes] at present
    have kept := onstage.others q other
    rw [object] at kept
    exact ⟨processes q present other, kept⟩
  -- what the process has now is its own, and not far
  have stranger : ∀ x ∈ K, ∀ o, o.process = some scene.pid → ¬ Held live' owner' o x := by
    intro x member o isOwn held
    rcases ledger.foreign x (far x member) with ⟨o', notOwn, held'⟩
    rw [held_unique ledger.wf held' held] at notOwn
    exact notOwn isOwn
  have unshared : ∀ x ∈ K, ∀ o, o ≠ .kernel → ¬ Held live owner o x :=
    fun x member o different held => different (held_unique isolated.wf held (kernel x member))
  have pagesOf : ∀ q ∈ t.processes, q ≠ scene.pid → Alive (t.object q) → Alive (s.object q) ∧
      (∀ page, TablePage t.memory (t.object q).pageTable page →
        TablePage s.memory (s.object q).pageTable page) ∧
      ∀ va, leafAt t.memory (t.object q).pageTable va = leafAt s.memory (s.object q).pageTable va := by
    intro q present other alive
    rcases others q present other with ⟨old, kept⟩
    have oldAlive := kept.alive.mp alive
    have table : ∀ page, TablePage s.memory (s.object q).pageTable page →
        ∀ x, page ≤ x → x < page + pageSize → t.memory x = s.memory x :=
      fun page isPage x low high => same x (covers.tables q old other oldAlive page isPage ⟨low, high⟩)
    rw [kept.pageTable]
    exact ⟨oldAlive, fun page => (tablePage_congr s.memory t.memory _ table page).mp,
      leafAt_congr s.memory t.memory _ table⟩
  have reserved := isolated'.reserve placed whole ?held ?frames ?tables ?users
  case held =>
    intro x member
    rcases ledger.foreign x (far x member) with ⟨o, -, held⟩
    exact ⟨o, held⟩
  case frames =>
    intro q present x low high member
    by_cases here : q = scene.pid
    · rw [here] at low high present
      exact stranger x member (.trapframe scene.pid) rfl (isolated'.frames _ present x low high)
    · rcases others q present here with ⟨old, kept⟩
      rw [kept.trapframe] at low high
      exact unshared x member (.trapframe q) (by simp) (isolated.frames q old x low high)
  case tables =>
    intro q present alive page isPage x low high member
    by_cases here : q = scene.pid
    · rw [here] at present alive isPage
      have known := (isolated'.spaces _ present alive).pages page isPage
      exact stranger x member (.table scene.pid) rfl ⟨_, known.1, known.2, low, high⟩
    · rcases pagesOf q present here alive with ⟨oldAlive, oldPage, -⟩
      have known := (isolated.spaces q (others q present here).1 oldAlive).pages page (oldPage page isPage)
      exact unshared x member (.table q) (by simp) ⟨_, known.1, known.2, low, high⟩
  case users =>
    intro q present alive va entry leaf accessible x low high member
    by_cases here : q = scene.pid
    · rw [here] at present alive leaf
      exact stranger x member (.user scene.pid) rfl
        ((isolated'.spaces _ present alive).users va entry leaf accessible x low high)
    · rcases pagesOf q present here alive with ⟨oldAlive, -, oldLeaf⟩
      rw [oldLeaf va] at leaf
      exact unshared x member (.user q) (by simp)
        ((isolated.spaces q (others q present here).1 oldAlive).users va entry leaf accessible x low high)
  rcases reserved with ⟨live'', owner'', isolated'', kernel''⟩
  exact ⟨⟨⟨free', live'', owner'', isolated'', kernel''⟩, separated.contexts⟩,
    fun x member => same x (far x member)⟩

theorem Reserved.of_attached (placed : Placed plat) (whole : WholePages K)
    (isolated : Isolated plat s.processes s.object s.allocator s.memory free live owner)
    (kernel : ∀ x ∈ K, Held live owner .kernel x)
    (foreign : scene.foreign = Isolated.foreign live owner scene.pid) (before : scene.before = s.memory)
    (object : scene.object = s.object)
    (processes : ∀ q ∈ scene.processes, q ≠ scene.pid → q ∈ s.processes)
    (attached : Attached plat scene G t) :
    Reserved plat K t ∧ ∀ x ∈ K, t.memory x = s.memory x := by
  rcases attached with ⟨U, -, rooted, fitted⟩
  apply Reserved.of_world placed whole isolated kernel foreign before object processes rooted.2
  intro free live owner ledger _
  exact fitted.space rooted.1 ledger

end Working

end Jangri
