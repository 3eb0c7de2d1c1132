import Jangri.Arch.MapRuns
import Jangri.Arch.Supply

namespace Jangri

open Lib

namespace MapCall

def pages (c : MapCall) : Nat := c.size / pageSize

def flags (c : MapCall) : Nat := PageTableEntry.flags c.read c.write c.execute c.user

def page (c : MapCall) (j : Nat) : Nat := vpn (c.va + j * pageSize)

def entry (c : MapCall) (j : Nat) : PageTableEntry := .pack (c.pa + j * pageSize) c.flags

/-- The calls have no page in common. -/
def Apart (c d : MapCall) : Prop := ∀ j < c.pages, ∀ l < d.pages, c.page j ≠ d.page l

structure Sound (c : MapCall) : Prop where
  aligned : c.va % pageSize = 0
  whole : c.size % pageSize = 0
  positive : c.size ≠ 0
  bounded : c.pa + c.size < usizeBound

section Entries

variable {c : MapCall}

theorem entry_rights (c : MapCall) (j : Nat) :
    (c.entry j).readable = c.read ∧ (c.entry j).writeable = c.write ∧
      (c.entry j).executable = c.execute ∧ (c.entry j).userModeAccessible = c.user :=
  PageTableEntry.permissions_pack _ _ _ _ _

theorem Sound.pages_pos (sound : c.Sound) : 0 < c.pages := by
  have whole := sound.whole
  have positive := sound.positive
  simp only [pages, pageSize] at *
  omega

theorem Sound.page_inside (sound : c.Sound) {j : Nat} (low : j < c.pages) :
    j * pageSize + pageSize ≤ c.size := by
  have whole := sound.whole
  simp only [pages, pageSize] at *
  omega

theorem Sound.entry_address (sound : c.Sound) (frames : c.pa % pageSize = 0) {j : Nat}
    (low : j < c.pages) : (c.entry j).getPhysicalAddress = c.pa + j * pageSize := by
  have inside := sound.page_inside low
  have bounded := sound.bounded
  have address := PageTableEntry.getPhysicalAddress_pack (c.pa + j * pageSize) c.flags
    (lt_trans (PageTableEntry.flags_lt _ _ _ _) (by decide)) (by omega)
  rw [entry, address]
  simp only [pageSize] at *
  omega

theorem Sound.page_of (sound : c.Sound) {i : Nat} (low : i < c.size) :
    i / pageSize < c.pages ∧ vpn (c.va + i) = c.page (i / pageSize) := by
  have aligned := sound.aligned
  have whole := sound.whole
  simp only [pages, page, vpn, pageSize] at *
  omega

end Entries

end MapCall

theorem tableAt_indices {m : Memory} {path : List Nat} {root t : Nat}
    (at_ : tableAt m root path = some t) : ∀ i ∈ path, i < 512 := by
  induction path generalizing root with
  | nil => exact fun _ none_ => by cases none_
  | cons first rest ih =>
      rw [tableAt, List.foldlM_cons] at at_
      cases next : child m root first with
      | none =>
          rw [next] at at_
          cases at_
      | some page =>
          rw [next] at at_
          have low : first < 512 := by
            by_contra high
            rw [child, if_neg fun known => high known.1] at next
            cases next
          exact List.forall_mem_cons.mpr ⟨low, ih at_⟩

theorem exists_address {m : Memory} {path : List Nat} {root t i : Nat}
    (at_ : tableAt m root path = some t) (leaf : path.length = 3) (low : i < 512) :
    ∃ va, pathOf va = path ∧ levelToIndex 0 va = i := by
  have inside := tableAt_indices at_
  rcases path with _ | ⟨a, _ | ⟨b, _ | ⟨c, _ | ⟨d, rest⟩⟩⟩⟩
  case cons.cons.cons.nil =>
    have first := inside a (by simp)
    have second := inside b (by simp)
    have third := inside c (by simp)
    refine ⟨(((a * 512 + b) * 512 + c) * 512 + i) * 4096, ?_⟩
    simp only [pathOf, levelToIndex_eq, List.cons.injEq, and_true]
    norm_num
    omega
  all_goals simp at leaf

structure Charted (root : Nat) (calls : List MapCall) (m : Memory) : Prop where
  sound : ∀ c ∈ calls, c.Sound
  mapped : ∀ c ∈ calls, ∀ j < c.pages, leafAt m root (c.va + j * pageSize) = some (c.entry j)
  only : ∀ va entry, leafAt m root va = some entry →
    ∃ c ∈ calls, ∃ j < c.pages, vpn va = c.page j ∧ entry = c.entry j
  apart : calls.Pairwise MapCall.Apart

namespace Charted

variable {root : Nat} {calls : List MapCall} {m : Memory}

theorem nil (empty : ∀ va, leafAt m root va = none) : Charted root [] m where
  sound := fun _ none_ => by cases none_
  mapped := fun _ none_ => by cases none_
  only := by
    intro va entry leaf
    rw [empty va] at leaf
    cases leaf
  apart := List.Pairwise.nil

theorem congr (charted : Charted root calls m) (m' : Memory)
    (same : ∀ va, leafAt m' root va = leafAt m root va) : Charted root calls m' where
  sound := charted.sound
  mapped := fun c present j low => (same _).trans (charted.mapped c present j low)
  only := fun va entry leaf => charted.only va entry ((same va).symm.trans leaf)
  apart := charted.apart

theorem leaf (charted : Charted root calls m) {c : MapCall} (present : c ∈ calls) {i : Nat}
    (low : i < c.size) : leafAt m root (c.va + i) = some (c.entry (i / pageSize)) := by
  rcases (charted.sound c present).page_of low with ⟨inside, here⟩
  rw [leafAt_eq_of_vpn m root _ _ here]
  exact charted.mapped c present _ inside

theorem vacant (charted : Charted root calls m) (va : Nat)
    (off : ∀ c ∈ calls, ∀ j < c.pages, vpn va ≠ c.page j) : leafAt m root va = none := by
  cases found : leafAt m root va with
  | none => rfl
  | some entry =>
      rcases charted.only va entry found with ⟨c, present, j, low, here, -⟩
      exact absurd here (off c present j low)

theorem supervisor (charted : Charted root calls m) (tables : Tables m root)
    (kernel : ∀ c ∈ calls, c.user = false) {t : Nat} (page : TablePage m root t) {i : Nat}
    (low : i < 512) : (entryAt m t i).userModeAccessible = false := by
  rw [PageTableEntry.userModeAccessible_eq]
  by_cases valid : (entryAt m t i).isValid = true
  case neg =>
    rw [tables.clear t page i low (Bool.eq_false_of_not_eq_true valid), Nat.zero_testBit]
  rcases page with ⟨path, short, at_⟩
  by_cases upper : path.length ≤ 2
  · -- above the leaf level there are bare pointers only
    have bare := tables.pointers path t upper at_ i low valid
    rw [Nat.testBit_eq_decide_div_mod_eq]
    simp only [decide_eq_false_iff_not]
    omega
  · rcases exists_address at_ (by omega) low with ⟨va, here, index⟩
    have leaf : leafAt m root va = some (entryAt m t i) := by
      rw [leafAt, here, at_, index, Option.bind_some, ifValid, if_pos valid]
    rcases charted.only va _ leaf with ⟨c, present, j, -, -, isEntry⟩
    rw [← PageTableEntry.userModeAccessible_eq, isEntry, (c.entry_rights j).2.2.2]
    exact kernel c present

end Charted

section Calls

variable {σ : Type} [HasMemory σ] {inv : Set Nat → σ → Prop} {stock : Nat → σ → Prop}
  {fails : Error → Prop} {halts halts' : Halt → Prop} {root : Nat} {s : σ} {calls : List MapCall}

/-- A call that returns `Ok` is on the chart from then on. -/
theorem call_charted (arch : Riscv σ) (source : PageSource arch.allocate inv halts) (c : MapCall)
    (small : c.pa < usizeBound) (rooted : Rooted inv root s)
    (charted : Charted root calls (memory s)) :
    wpr (arch.call root c)
      (fun _ s' => Rooted inv root s' ∧ Charted root (c :: calls) (memory s') ∧
        ∀ d ∈ calls, c.Apart d)
      (fun _ s' => Rooted inv root s') halts s := by
  apply wpr_weaken (map_vacant arch source c.va c.pa c.size c.read c.write c.execute c.user small rooted)
  case fails => exact fun _ _ grown => grown.rooted
  rintro - s' ⟨aligned, ⟨whole, positive, bounded⟩, grown, leaves, vacancies⟩
  have off : ∀ d ∈ calls, c.Apart d := by
    intro d present j low l below same
    have here := charted.mapped d present l below
    rw [← leafAt_eq_of_vpn _ root _ _ same, vacancies j low] at here
    cases here
  refine ⟨grown.rooted, ⟨?_, ?_, ?_, ?_⟩, off⟩
  · intro d present
    rcases List.mem_cons.mp present with rfl | before
    · exact ⟨aligned, whole, positive, bounded⟩
    · exact charted.sound d before
  · intro d present j low
    rcases List.mem_cons.mp present with rfl | before
    · exact leaves j low
    · exact grown.keeps _ _ (charted.mapped d before j low)
  · intro va entry leaf
    rcases grown.only va entry leaf with old | ⟨j, low, here, isEntry⟩
    · rcases charted.only va entry old with ⟨d, present, known⟩
      exact ⟨d, List.mem_cons_of_mem _ present, known⟩
    · exact ⟨c, List.mem_cons_self, j, low, here, isEntry⟩
  · exact List.pairwise_cons.mpr ⟨off, charted.apart⟩

/-- A call for pages that are not on the chart fails only where the callback does. -/
theorem call_supplied (arch : Riscv σ) (source : PageSource arch.allocate inv halts')
    (supply : PageSupply arch.allocate inv stock fails halts) (n : Nat) (c : MapCall)
    (rooted : Rooted inv root s) (charted : Charted root calls (memory s)) (sound : c.Sound)
    (inside : c.va < usizeBound) (few : c.pages ≤ 2 ^ 36) (off : ∀ d ∈ calls, c.Apart d)
    (stocked : stock (n + 3 * tablesFor c.va c.pages) s) :
    wpr (arch.call root c) (fun _ s' => stock n s') (fun e _ => fails e) halts s := by
  apply map_supplied arch source supply n c.va c.pa c.size c.read c.write c.execute c.user rooted
    inside sound.aligned sound.whole sound.positive few sound.bounded _ stocked
  intro j low
  apply charted.vacant
  exact fun d present l below => off d present j low l below

end Calls

end Jangri
