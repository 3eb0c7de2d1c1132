import Jangri.Janglib.RamFs

namespace Jangri

open Lib

structure RamFsIter where
  position : Nat
  ramfs : RamFs

def RamFsEntryHeader.asRef (layout : EntryLayout) (addr : Nat) : Stateful Memory RamFsEntryHeader :=
  fun m => if addr = 0 then .error (.panic .unwrapNone) else .ok (.atAddr layout m addr, m)

def RamFs.imageOf (layout : EntryLayout) (files : List RamFsFile) : List UInt8 :=
  (RamFs.new.setNumberOfFiles files.length).toBytes ++ files.flatMap (RamFs.entryBytes layout)

def RamFs.intoIter (ramfs : RamFs) : RamFsIter := ⟨0, ramfs⟩

namespace RamFsIter

def nonNull (addr : Nat) : Option Nat := if addr = 0 then none else some addr

def search (layout : EntryLayout) (position dataStart : Nat) : (turns i : Nat) → Stateful Memory (Option Nat)
  | 0, _ => pure none
  | turns + 1, i =>
      if i = position then do
        let found ← liftRust (unwrap (nonNull (dataStart + i)))
        pure (some found)
      else do
        let header ← RamFsEntryHeader.asRef layout (dataStart + i)
        let i ← liftRust (RamFs.u32Add i (RamFs.fromBeBytes header.size))
        search layout position dataStart turns i

def next (layout : EntryLayout) (iter : RamFsIter) : Stateful Memory (Option Nat × RamFsIter) := do
  let dataStart := iter.ramfs.start + 8
  let number ← iter.ramfs.numberOfFiles
  if number ≤ iter.position then
    pure (none, iter)
  else do
    let found ← search layout iter.position dataStart (iter.position + 1) 0
    pure (found, iter)

def calls (layout : EntryLayout) : Nat → RamFsIter → Stateful Memory (List (Option Nat))
  | 0, _ => pure []
  | count + 1, iter => do
      let (found, iter) ← iter.next layout
      let rest ← calls layout count iter
      pure (found :: rest)

/-- The iteration yields the start of every entry, one after the other, and then ends. -/
def Iterates (layout : EntryLayout) (m : Memory) (start : Nat) (files : List RamFsFile) : Prop :=
  calls layout (files.length + 1) (RamFs.intoIter ⟨start⟩) m =
    .ok ((RamFs.entryStarts (start + 8) files).map some ++ [none], m)

section Calls

variable {layout : EntryLayout} {m : Memory} {iter : RamFsIter}

theorem wp_search (position dataStart turns i : Nat) :
    wp (search layout position dataStart turns i) (fun _ t => t = m) (fun _ => True) m := by
  induction turns generalizing i with
  | zero =>
      rw [search, wp_pure]
  | succ turns ih =>
      rw [search]
      by_cases here : i = position
      · rw [if_pos here, wp_bind, wp_liftRust]
        cases unwrap (nonNull (dataStart + i)) with
        | error _ => trivial
        | ok found => exact (wp_pure _).mpr rfl
      · rw [if_neg here, wp_bind, wp_def, RamFsEntryHeader.asRef]
        by_cases null : dataStart + i = 0
        · rw [if_pos null]
          trivial
        · rw [if_neg null]
          simp only
          rw [wp_bind, wp_liftRust]
          cases RamFs.u32Add i _ with
          | error _ => trivial
          | ok i' => exact ih i'

/-- No call advances the position. -/
theorem wp_next : wp (iter.next layout) (fun result t => t = m ∧ result.2 = iter) (fun _ => True) m := by
  rw [next]
  simp only [RamFs.numberOfFiles, wp_bind]
  apply RamFs.wp_asRef _ trivial
  apply RamFs.wp_checked
  rw [wp_pure]
  by_cases ended : (RamFsHeader.atAddr m iter.ramfs.start).numberOfFiles ≤ iter.position
  · rw [if_pos ended, wp_pure]
    exact ⟨rfl, rfl⟩
  · rw [if_neg ended, wp_bind]
    apply wp_weaken (wp_search iter.position (iter.ramfs.start + 8) (iter.position + 1) 0)
    intro found t same
    rw [wp_pure]
    exact ⟨same, rfl⟩

theorem calls_of_next {found : Option Nat} {left : RamFsIter} {t : Memory}
    (returned : iter.next layout m = .ok ((found, left), t)) (count : Nat) :
    calls layout count iter m = .ok (List.replicate count found, m) := by
  rcases wp_of_returns (wp_next (m := m)) returned with ⟨rfl, same⟩
  have again : iter.next layout t = .ok ((found, iter), t) := by
    rw [returned]
    exact congrArg (fun after => Except.ok ((found, after), t)) same
  induction count with
  | zero => rfl
  | succ count ih =>
      calc
        calls layout (count + 1) iter t = (iter.next layout >>= fun result =>
            calls layout count result.2 >>= fun rest => pure (result.1 :: rest)) t := rfl
        _ = (calls layout count iter >>= fun rest => pure (found :: rest)) t := by
          change iter.next layout t >>= _ = _
          rw [again]
          rfl
        _ = .ok (List.replicate (count + 1) found, t) := by
          change calls layout count iter t >>= _ = _
          rw [ih]
          rfl

end Calls

section Image

variable {layout : EntryLayout} {m : Memory} {start : Nat} {files : List RamFsFile}

structure Loaded (layout : EntryLayout) (m : Memory) (start : Nat) (files : List RamFsFile) : Prop where
  few : files.length < 2 ^ 32
  bytes : m.load start (RamFs.imageOf layout files).length = RamFs.imageOf layout files

theorem Loaded.of_encode {ramfs : RamFs} {m₀ m₁ : Memory} {image : List UInt8}
    (fresh : m₀.load ramfs.start 8 = RamFs.new.toBytes)
    (encoded : ramfs.encode layout files m₀ = .ok (image, m₁))
    (loaded : m.load start image.length = image) : Loaded layout m start files := by
  rcases wp_of_returns (RamFs.wp_encode files fresh) encoded with ⟨few, rfl⟩
  exact ⟨few, loaded⟩

theorem Loaded.numberOfFiles (held : Loaded layout m start files) (placed : start ≠ 0) :
    (RamFs.mk start).numberOfFiles m = .ok (files.length, m) := by
  have counts : RamFs.Counts ⟨start⟩ m files.length := RamFs.counts_of_loaded rfl held.bytes
  have header : RamFsHeader.atAddr m start = RamFs.new.setNumberOfFiles files.length :=
    counts.header
  have referred : (RamFs.mk start).asRef m = .ok (.atAddr m start, m) := if_neg placed
  have isMagic : assert ((RamFsHeader.atAddr m start).magic = RamFs.magic)
      (RamFs.debugBytes (RamFsHeader.atAddr m start).magic) = .ok () := by
    apply assert_of_true
    rw [header]
    rfl
  have recorded : (RamFsHeader.atAddr m start).numberOfFiles = files.length := by
    rw [header]
    exact RamFs.fromBeBytes_toBeBytes files.length held.few
  calc
    (RamFs.mk start).numberOfFiles m = ((RamFs.mk start).asRef >>= fun header =>
        RamFs.checked header >>= fun _ => pure header.numberOfFiles) m := rfl
    _ = (RamFs.checked (.atAddr m start) >>= fun _ =>
        pure (RamFsHeader.atAddr m start).numberOfFiles) m := by
      change (RamFs.mk start).asRef m >>= _ = _
      rw [referred]
      rfl
    _ = .ok (files.length, m) := by
      change liftRust _ m >>= _ = _
      rw [isMagic, ← recorded]
      rfl

theorem next_nil (held : Loaded layout m start []) (placed : start ≠ 0) :
    (RamFs.intoIter ⟨start⟩).next layout m = .ok ((none, RamFs.intoIter ⟨start⟩), m) := by
  change (RamFs.mk start).numberOfFiles m >>= _ = _
  rw [held.numberOfFiles placed]
  rfl

theorem next_cons (held : Loaded layout m start files) (placed : start ≠ 0) (some_ : files ≠ []) :
    (RamFs.intoIter ⟨start⟩).next layout m =
      .ok ((some (start + 8), RamFs.intoIter ⟨start⟩), m) := by
  have positive : ¬ files.length ≤ 0 := by
    have := List.length_pos_iff.mpr some_
    omega
  change (RamFs.mk start).numberOfFiles m >>= _ = _
  rw [held.numberOfFiles placed]
  change (if files.length ≤ 0 then _ else _ : Stateful Memory (Option Nat × RamFsIter)) m = _
  rw [if_neg positive]
  rfl

theorem calls_cons (held : Loaded layout m start files) (placed : start ≠ 0) (some_ : files ≠ [])
    (count : Nat) : calls layout count (RamFs.intoIter ⟨start⟩) m =
      .ok (List.replicate count (some (start + 8)), m) :=
  calls_of_next (next_cons held placed some_) count

theorem not_iterates_cons (held : Loaded layout m start files) (placed : start ≠ 0) (some_ : files ≠ []) :
    ¬ Iterates layout m start files := by
  intro iterates
  have all := (calls_cons held placed some_ (files.length + 1)).symm.trans iterates
  have outputs : List.replicate (files.length + 1) (some (start + 8)) =
      (RamFs.entryStarts (start + 8) files).map some ++ [none] :=
    congrArg Prod.fst (Except.ok.inj all)
  have stops : none ∈ (RamFs.entryStarts (start + 8) files).map some ++ [none] :=
    List.mem_append_right _ List.mem_cons_self
  rw [← outputs] at stops
  cases List.eq_of_mem_replicate stops

end Image

end RamFsIter

/-- Iterating visits every entry of an image and stops exactly when there is no entry. -/
theorem ramfs_iterates_iff (layout : EntryLayout) (m : Memory) (start : Nat) (files : List RamFsFile)
    (held : RamFsIter.Loaded layout m start files) :
    RamFsIter.Iterates layout m start files ↔ files = [] ∧ start ≠ 0 := by
  constructor
  · intro iterates
    have placed : start ≠ 0 := by
      intro null
      rw [RamFsIter.Iterates, null] at iterates
      cases iterates
    constructor
    · by_contra some_
      exact RamFsIter.not_iterates_cons held placed some_ iterates
    · exact placed
  · intro h
    rcases h with ⟨rfl, placed⟩
    exact RamFsIter.calls_of_next (RamFsIter.next_nil held placed) 1

theorem no_file_iterated : RamFsIter.Iterates RamFs.compiled
    (Memory.store (fun _ => 0) 8192 (RamFs.imageOf RamFs.compiled [])) 8192 [] := by
  apply (ramfs_iterates_iff _ _ 8192 [] ⟨by decide, Memory.load_store _ 8192 _⟩).mpr
  decide

theorem one_file_repeated :
    (RamFs.fromAddr RamFs.compiled 8192 (Memory.store (fun _ => 0) 8192
      (RamFs.imageOf RamFs.compiled [⟨[97], [1, 2, 3]⟩]))).isOk = true ∧
    ¬ RamFsIter.Iterates RamFs.compiled (Memory.store (fun _ => 0) 8192
      (RamFs.imageOf RamFs.compiled [⟨[97], [1, 2, 3]⟩])) 8192 [⟨[97], [1, 2, 3]⟩] := by
  constructor
  · decide +kernel
  · apply RamFsIter.not_iterates_cons
    · exact ⟨by decide, Memory.load_store _ 8192 _⟩
    · decide
    · decide

end Jangri
