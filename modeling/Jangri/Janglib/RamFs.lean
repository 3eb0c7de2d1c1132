import Jangri.Arch.Mapping

/-! `ramfs`: the image format, its encoder `add_file` and its decoder `from_addr`.

`from_addr` reads the count of a `RamFsHeader` at byte 4, behind the magic. Where the fields of a
`RamFsEntryHeader` are is up to the compiler. -/

namespace Jangri

open Lib

namespace RamFs

def magic : List UInt8 := [0x93, 0x24, 0x72, 0x35]

def maxNameLength : Nat := 255

def toBeBytes (n : Nat) : List UInt8 :=
  [UInt8.ofNat (n / 2 ^ 24), UInt8.ofNat (n / 2 ^ 16), UInt8.ofNat (n / 2 ^ 8), UInt8.ofNat n]

def fromBeBytes (bytes : List UInt8) : Nat := bytes.foldl (fun n byte => 256 * n + byte.toNat) 0

def u32Add (a b : Nat) : Rust Nat := if a + b < 2 ^ 32 then pure (a + b) else panic .overflow

def debugBytes (bytes : List UInt8) : String :=
  "[" ++ String.intercalate ", " (bytes.map fun byte => toString byte) ++ "]"

end RamFs

structure RamFsHeader where
  magic : List UInt8
  numberOfEntries : List UInt8

structure RamFsEntryHeader where
  magic : List UInt8
  name : List UInt8
  size : List UInt8

/-- The offsets of the fields in the 263 bytes of a `RamFsEntryHeader`, in some order. -/
structure EntryLayout where
  magic : Nat
  name : Nat
  size : Nat
  within : magic + 4 ≤ 263 ∧ name + 255 ≤ 263 ∧ size + 4 ≤ 263
  apart : (magic + 4 ≤ name ∨ name + 255 ≤ magic) ∧ (magic + 4 ≤ size ∨ size + 4 ≤ magic) ∧
    (name + 255 ≤ size ∨ size + 4 ≤ name)

namespace RamFsHeader

def toBytes (header : RamFsHeader) : List UInt8 := header.magic ++ header.numberOfEntries

def numberOfFiles (header : RamFsHeader) : Nat := RamFs.fromBeBytes header.numberOfEntries

def setNumberOfFiles (header : RamFsHeader) (no : Nat) : RamFsHeader :=
  { header with numberOfEntries := RamFs.toBeBytes no }

def atAddr (m : Memory) (start : Nat) : RamFsHeader := ⟨m.load start 4, m.load (start + 4) 4⟩

end RamFsHeader

namespace RamFsEntryHeader

def new (name : List UInt8) (size : Nat) : RamFsEntryHeader where
  magic := RamFs.magic
  name := name.take RamFs.maxNameLength ++ List.replicate (RamFs.maxNameLength - name.length) 0
  size := RamFs.toBeBytes size

def bytes : Nat := 263

def atAddr (layout : EntryLayout) (m : Memory) (start : Nat) : RamFsEntryHeader where
  magic := m.load (start + layout.magic) 4
  name := m.load (start + layout.name) RamFs.maxNameLength
  size := m.load (start + layout.size) 4

def placed (header : RamFsEntryHeader) (layout : EntryLayout) : Memory :=
  (Memory.store (Memory.store (Memory.store (fun _ => 0) layout.name header.name)
    layout.magic header.magic) layout.size header.size)

def toBytes (header : RamFsEntryHeader) (layout : EntryLayout) : List UInt8 :=
  (header.placed layout).load 0 bytes

def fromAddr (layout : EntryLayout) (start : Nat) : Stateful Memory RamFsEntryHeader := do
  let header ← (fun m => .ok (atAddr layout m start, m) : Stateful Memory RamFsEntryHeader)
  liftRust (assert (header.magic = RamFs.magic) ("MAGIC is " ++ RamFs.debugBytes header.magic))
  pure header

end RamFsEntryHeader

structure RamFs where
  start : Nat

namespace RamFs

def asRef (ramfs : RamFs) : Stateful Memory RamFsHeader := fun m =>
  if ramfs.start = 0 then .error (.panic .unwrapNone) else .ok (.atAddr m ramfs.start, m)

def checked (header : RamFsHeader) : Stateful Memory Unit :=
  liftRust (assert (header.magic = magic) (debugBytes header.magic))

def numberOfFiles (ramfs : RamFs) : Stateful Memory Nat := do
  let header ← ramfs.asRef
  checked header
  pure header.numberOfFiles

def setNumberOfFiles (ramfs : RamFs) (no : Nat) : Stateful Memory Unit := do
  let header ← ramfs.asRef
  checked header
  fun m => .ok ((), m.store ramfs.start (header.setNumberOfFiles no).toBytes)

def header (ramfs : RamFs) : Stateful Memory (List UInt8) := do
  let header ← ramfs.asRef
  pure header.toBytes

def new : RamFsHeader := ⟨magic, [0, 0, 0, 0]⟩

def addFile (layout : EntryLayout) (ramfs : RamFs) (name buf : List UInt8) :
    Stateful Memory (List UInt8) := do
  let header := RamFsEntryHeader.new name (buf.length % 2 ^ 32)
  let number ← ramfs.numberOfFiles
  let number ← liftRust (u32Add number 1)
  ramfs.setNumberOfFiles number
  pure (header.toBytes layout ++ buf)

def walkEntries (layout : EntryLayout) : (entries start : Nat) → Stateful Memory (List Nat × Nat)
  | 0, start => pure ([], start)
  | entries + 1, start => do
      let header ← RamFsEntryHeader.fromAddr layout start
      let rest ← walkEntries layout entries (start + fromBeBytes header.size)
      pure (start :: rest.1, rest.2)

def scan (layout : EntryLayout) (start : Nat) : Stateful Memory (List Nat × Nat) := do
  let header ← (fun m => .ok (.atAddr m start, m) : Stateful Memory RamFsHeader)
  liftRust (assert (header.magic = magic)
    "assertion failed: unsafe { *(start as *const RamFsHeader) }.magic == MAGIC")
  let entries := fromBeBytes header.numberOfEntries
  liftRust (assert (start + 8 ≠ 0) "assertion failed: !start.is_null()")
  walkEntries layout entries (start + 8)

def fromAddr (layout : EntryLayout) (start : Nat) : Stateful Memory RamFs := do
  let _ ← scan layout start
  pure ⟨start⟩

end RamFs

structure RamFsFile where
  name : List UInt8
  content : List UInt8

namespace RamFs

def addFiles (layout : EntryLayout) (ramfs : RamFs) : List RamFsFile → Stateful Memory (List UInt8)
  | [] => pure []
  | file :: rest => do
      let entry ← ramfs.addFile layout file.name file.content
      let others ← addFiles layout ramfs rest
      pure (entry ++ others)

/-- The header brought up to date by `add_file`, and behind it what `add_file` returned. -/
def encode (layout : EntryLayout) (ramfs : RamFs) (files : List RamFsFile) :
    Stateful Memory (List UInt8) := do
  let entries ← ramfs.addFiles layout files
  let header ← ramfs.header
  pure (header ++ entries)

def entryStarts : (start : Nat) → List RamFsFile → List Nat
  | _, [] => []
  | start, file :: rest =>
      start :: entryStarts (start + RamFsEntryHeader.bytes + file.content.length) rest

def entryBytes (layout : EntryLayout) (file : RamFsFile) : List UInt8 :=
  (RamFsEntryHeader.new file.name (file.content.length % 2 ^ 32)).toBytes layout ++ file.content

section Bytes

theorem fromBeBytes_toBeBytes (n : Nat) (small : n < 2 ^ 32) : fromBeBytes (toBeBytes n) = n := by
  simp only [fromBeBytes, toBeBytes, List.foldl_cons, List.foldl_nil, UInt8.toNat_ofNat']
  omega

theorem toBytes_length (layout : EntryLayout) (header : RamFsEntryHeader) :
    (header.toBytes layout).length = RamFsEntryHeader.bytes := by
  simp only [RamFsEntryHeader.toBytes, Memory.load, List.length_map, List.length_range]

theorem toBytes_size (layout : EntryLayout) (header : RamFsEntryHeader) (word : header.size.length = 4) :
    ((header.toBytes layout).drop layout.size).take 4 = header.size := by
  have inside : layout.size + 4 ≤ (header.toBytes layout).length := by
    rw [toBytes_length]
    exact layout.within.2.2
  have loaded : (header.placed layout).load 0 (header.toBytes layout).length =
      header.toBytes layout := by
    rw [toBytes_length]
    rfl
  rw [← Memory.load_part _ 0 _ loaded layout.size 4 inside, Nat.zero_add, ← word]
  exact Memory.load_store _ _ _

end Bytes

section Encoding

variable {layout : EntryLayout} {ramfs : RamFs} {m : Memory} {number : Nat}

def Counts (ramfs : RamFs) (m : Memory) (number : Nat) : Prop :=
  m.load ramfs.start 8 = (new.setNumberOfFiles number).toBytes

theorem Counts.header (counts : ramfs.Counts m number) :
    RamFsHeader.atAddr m ramfs.start = new.setNumberOfFiles number := by
  have length : (new.setNumberOfFiles number).toBytes.length = 8 := rfl
  have loaded : m.load ramfs.start (new.setNumberOfFiles number).toBytes.length =
      (new.setNumberOfFiles number).toBytes := counts
  have first := Memory.load_part m ramfs.start _ loaded 0 4 (by rw [length]; decide)
  have second := Memory.load_part m ramfs.start _ loaded 4 4 (by rw [length])
  rw [RamFsHeader.atAddr, second]
  exact congrArg (RamFsHeader.mk · _) first

theorem wp_asRef {halts : Halt → Prop} (post : RamFsHeader → Memory → Prop)
    (stops : halts (.panic .unwrapNone)) (reads : post (.atAddr m ramfs.start) m) :
    wp ramfs.asRef post halts m := by
  rw [wp_def, asRef]
  by_cases null : ramfs.start = 0
  · rw [if_pos null]
    exact stops
  · rw [if_neg null]
    exact reads

theorem wp_checked (header : RamFsHeader) (post : Unit → Memory → Prop) (next : post () m) :
    wp (checked header) post (fun _ => True) m := by
  rw [checked, wp_liftRust, assert]
  split
  · exact next
  · trivial

theorem wp_addFile (name buf : List UInt8) (small : number < 2 ^ 32)
    (counts : ramfs.Counts m number) :
    wp (ramfs.addFile layout name buf)
      (fun entry t => entry = entryBytes layout ⟨name, buf⟩ ∧ number + 1 < 2 ^ 32 ∧
        ramfs.Counts t (number + 1)) (fun _ => True) m := by
  have recorded : (RamFsHeader.atAddr m ramfs.start).numberOfFiles = number := by
    rw [counts.header]
    exact fromBeBytes_toBeBytes number small
  rw [addFile, numberOfFiles]
  simp only [wp_bind]
  apply wp_asRef _ trivial
  apply wp_checked
  rw [wp_pure, recorded, wp_liftRust, u32Add]
  by_cases fits : number + 1 < 2 ^ 32
  · rw [if_pos fits]
    simp only [pure_eq_ok]
    rw [setNumberOfFiles]
    simp only [wp_bind]
    apply wp_asRef _ trivial
    apply wp_checked
    rw [wp_def]
    simp only
    rw [wp_pure]
    refine ⟨rfl, fits, ?_⟩
    rw [Counts, counts.header]
    exact Memory.load_store m ramfs.start (new.setNumberOfFiles (number + 1)).toBytes
  · rw [if_neg fits]
    trivial

/-- What `add_file` returns for the files, one after the other. -/
theorem wp_addFiles (files : List RamFsFile) (small : number < 2 ^ 32)
    (counts : ramfs.Counts m number) :
    wp (ramfs.addFiles layout files)
      (fun entries t => entries = files.flatMap (entryBytes layout) ∧ number + files.length < 2 ^ 32 ∧
        ramfs.Counts t (number + files.length)) (fun _ => True) m := by
  induction files generalizing m number with
  | nil =>
      rw [addFiles, wp_pure]
      exact ⟨rfl, small, counts⟩
  | cons file rest ih =>
      rw [addFiles, wp_bind]
      apply wp_weaken (wp_addFile file.name file.content small counts)
      intro entry t added
      rcases added with ⟨rfl, fits, countsT⟩
      rw [wp_bind]
      apply wp_weaken (ih fits countsT)
      intro others u encoded
      rcases encoded with ⟨rfl, fits', countsU⟩
      rw [wp_pure]
      have total : number + 1 + rest.length = number + (file :: rest).length := by
        rw [List.length_cons]
        omega
      rw [total] at fits' countsU
      exact ⟨rfl, fits', countsU⟩

theorem wp_encode (files : List RamFsFile) (fresh : ramfs.Counts m 0) :
    wp (ramfs.encode layout files)
      (fun image _ => files.length < 2 ^ 32 ∧
        image = (new.setNumberOfFiles files.length).toBytes ++ files.flatMap (entryBytes layout))
      (fun _ => True) m := by
  rw [encode, wp_bind]
  apply wp_weaken (wp_addFiles files (by decide) fresh)
  intro entries t encoded
  rcases encoded with ⟨rfl, fits, counts⟩
  rw [Nat.zero_add] at fits counts
  rw [wp_bind, header, wp_bind]
  apply wp_asRef _ trivial
  rw [wp_pure, wp_pure, counts.header]
  exact ⟨fits, rfl⟩

end Encoding

section Decoding

variable {layout : EntryLayout} {m : Memory} {start : Nat}

/-- `from_addr` accepts an image of the files at `start`: the loop meets every entry, and ends where
the image does. -/
def Accepted (layout : EntryLayout) (m : Memory) (start : Nat) (files : List RamFsFile) (image : List UInt8) : Prop :=
  scan layout start m = .ok ((entryStarts (start + 8) files, start + image.length), m) ∧
    fromAddr layout start m = .ok (⟨start⟩, m)

theorem fromAddr_of_scan {visits : List Nat × Nat} (scanned : scan layout start m = .ok (visits, m)) :
    fromAddr layout start m = .ok (⟨start⟩, m) := by
  change scan layout start m >>= _ = _
  rw [scanned]
  rfl

theorem wp_entryHeader (start : Nat) (post : RamFsEntryHeader → Memory → Prop)
    (reads : (RamFsEntryHeader.atAddr layout m start).magic = magic → post (.atAddr layout m start) m) :
    wp (RamFsEntryHeader.fromAddr layout start) post (fun _ => True) m := by
  rw [RamFsEntryHeader.fromAddr, wp_bind, wp_def]
  simp only
  rw [wp_bind, wp_liftRust, assert]
  by_cases isMagic : (RamFsEntryHeader.atAddr layout m start).magic = magic
  · rw [if_pos isMagic]
    simp only [pure_eq_ok, wp_pure]
    exact reads isMagic
  · rw [if_neg isMagic]
    trivial

def next (layout : EntryLayout) (m : Memory) (start : Nat) : Nat :=
  start + fromBeBytes (RamFsEntryHeader.atAddr layout m start).size

def hops (layout : EntryLayout) (m : Memory) : (entries start : Nat) → List Nat × Nat
  | 0, start => ([], start)
  | entries + 1, start =>
      (start :: (hops layout m entries (next layout m start)).1,
        (hops layout m entries (next layout m start)).2)

theorem wp_walkEntries (entries start : Nat) :
    wp (walkEntries layout entries start)
      (fun visits t => t = m ∧ visits = hops layout m entries start)
      (fun _ => True) m := by
  induction entries generalizing start with
  | zero =>
      rw [walkEntries, wp_pure]
      exact ⟨rfl, rfl⟩
  | succ entries ih =>
      rw [walkEntries, wp_bind]
      apply wp_entryHeader
      intro _
      rw [wp_bind]
      apply wp_weaken (ih (next layout m start))
      intro rest t walked
      rcases walked with ⟨rfl, rfl⟩
      rw [wp_pure]
      exact ⟨rfl, rfl⟩

theorem scan_of_counts {number : Nat} (counts : Counts ⟨start⟩ m number) (small : number < 2 ^ 32) :
    scan layout start m = walkEntries layout number (start + 8) m := by
  have header : RamFsHeader.atAddr m start = new.setNumberOfFiles number := counts.header
  have recorded : fromBeBytes (RamFsHeader.atAddr m start).numberOfEntries = number := by
    rw [header]
    exact fromBeBytes_toBeBytes number small
  have isMagic : (RamFsHeader.atAddr m start).magic = magic := by
    rw [header]
    rfl
  have first : assert ((RamFsHeader.atAddr m start).magic = magic)
      "assertion failed: unsafe { *(start as *const RamFsHeader) }.magic == MAGIC" = .ok () :=
    assert_of_true _ _ isMagic
  have second : assert (start + 8 ≠ 0) "assertion failed: !start.is_null()" = .ok () :=
    assert_of_true _ _ (by omega)
  calc
    scan layout start m = (liftRust (assert ((RamFsHeader.atAddr m start).magic = magic)
        "assertion failed: unsafe { *(start as *const RamFsHeader) }.magic == MAGIC") >>= fun _ =>
        liftRust (assert (start + 8 ≠ 0) "assertion failed: !start.is_null()") >>= fun _ =>
        walkEntries layout (fromBeBytes (RamFsHeader.atAddr m start).numberOfEntries) (start + 8)) m := rfl
    _ = walkEntries layout number (start + 8) m := by
      rw [first, second, recorded]
      rfl

variable {files : List RamFsFile} {image : List UInt8}

theorem counts_of_loaded (encoded : image = (new.setNumberOfFiles files.length).toBytes ++
      files.flatMap (entryBytes layout)) (loaded : m.load start image.length = image) :
    Counts ⟨start⟩ m files.length := by
  have length : image.length = 8 + (files.flatMap (entryBytes layout)).length := by
    rw [encoded, List.length_append]
    rfl
  have part := Memory.load_part m start image loaded 0 8 (by omega)
  rw [Counts]
  rw [Nat.add_zero, List.drop_zero] at part
  rw [part, encoded]
  rfl

/-- The first entry of an image records the size of its content, and nothing else. -/
theorem next_of_loaded {file : RamFsFile} {rest : List RamFsFile}
    (small : file.content.length < 2 ^ 32)
    (encoded : image = (new.setNumberOfFiles (file :: rest).length).toBytes ++
      (file :: rest).flatMap (entryBytes layout)) (loaded : m.load start image.length = image) :
    next layout m (start + 8) = start + 8 + file.content.length := by
  let header := RamFsEntryHeader.new file.name file.content.length
  have split : image = (new.setNumberOfFiles (file :: rest).length).toBytes ++
      (header.toBytes layout ++ (file.content ++ rest.flatMap (entryBytes layout))) := by
    rw [encoded, List.flatMap_cons, entryBytes, Nat.mod_eq_of_lt small, List.append_assoc]
  have front : (new.setNumberOfFiles (file :: rest).length).toBytes.length = 8 := rfl
  have within := layout.within.2.2
  have long : 8 + layout.size + 4 ≤ image.length := by
    rw [split, List.length_append, front, List.length_append, toBytes_length,
      RamFsEntryHeader.bytes]
    omega
  have recorded : (RamFsEntryHeader.atAddr layout m (start + 8)).size = header.size := by
    calc
      (RamFsEntryHeader.atAddr layout m (start + 8)).size = m.load (start + (8 + layout.size)) 4 := by
        rw [← Nat.add_assoc]
        rfl
      _ = (image.drop (8 + layout.size)).take 4 := Memory.load_part m start image loaded _ _ long
      _ = ((header.toBytes layout).drop layout.size).take 4 := by
        rw [split, ← List.drop_drop, List.drop_left' front, List.drop_append_of_le_length,
          List.take_append_of_le_length]
        · rw [List.length_drop, toBytes_length, RamFsEntryHeader.bytes]
          omega
        · rw [toBytes_length, RamFsEntryHeader.bytes]
          omega
      _ = header.size := toBytes_size layout header rfl
  rw [next, recorded]
  exact congrArg _ (fromBeBytes_toBeBytes _ small)

theorem accepted_iff_nil (sizes : ∀ file ∈ files, file.content.length < 2 ^ 32)
    (few : files.length < 2 ^ 32)
    (encoded : image = (new.setNumberOfFiles files.length).toBytes ++ files.flatMap (entryBytes layout))
    (loaded : m.load start image.length = image) :
    Accepted layout m start files image ↔ files = [] := by
  have counts := counts_of_loaded encoded loaded
  have scanned := @scan_of_counts layout _ _ _ counts few
  constructor
  · intro accepted
    have walked := @wp_walkEntries layout m files.length (start + 8)
    have visits := (wp_of_returns walked (scanned.symm.trans accepted.1)).2
    cases files with
    | nil => rfl
    | cons file rest =>
        exfalso
        have hop := next_of_loaded (sizes file List.mem_cons_self) encoded loaded
        cases rest with
        | nil =>
            have stop := congrArg Prod.snd visits
            have length : image.length = 8 + (RamFsEntryHeader.bytes + file.content.length) := by
              rw [encoded, List.length_append, List.flatMap_cons, List.flatMap_nil, List.append_nil,
                entryBytes, List.length_append, toBytes_length]
              rfl
            simp only [hops, List.length_cons, List.length_nil, hop, length,
              RamFsEntryHeader.bytes] at stop
            omega
        | cons other others =>
            have starts := congrArg Prod.fst visits
            simp only [entryStarts, hops, List.length_cons, List.cons.injEq, hop,
              RamFsEntryHeader.bytes] at starts
            omega
  · rintro rfl
    have ended : scan layout start m = .ok ((entryStarts (start + 8) [], start + image.length), m) := by
      rw [scanned, encoded]
      rfl
    exact ⟨ended, fromAddr_of_scan ended⟩

end Decoding

end RamFs

section Results

variable (layout : EntryLayout) (files : List RamFsFile) (ramfs : RamFs) (m₀ m₁ m : Memory)
  (image : List UInt8) (start : Nat)

/-- `from_addr` accepts what the encoder has written exactly when it has written no file. -/
theorem ramfs_accepted_iff (sizes : ∀ file ∈ files, file.content.length < 2 ^ 32)
    (fresh : m₀.load ramfs.start 8 = RamFs.new.toBytes)
    (encoded : ramfs.encode layout files m₀ = .ok (image, m₁))
    (loaded : m.load start image.length = image) :
    RamFs.Accepted layout m start files image ↔ files = [] := by
  have spec := @RamFs.wp_encode layout _ _ files fresh
  rcases wp_of_returns spec encoded with ⟨few, written⟩
  exact RamFs.accepted_iff_nil sizes few written loaded

end Results

namespace RamFs

/-- The compiler moves the name behind the size. -/
def compiled : EntryLayout := ⟨0, 8, 4, by decide, by decide⟩

def blank : Memory := Memory.store (fun _ => 0) 4096 new.toBytes

def letters : List RamFsFile := [⟨[97], [1, 2, 3]⟩, ⟨[98], [4]⟩]

def encoded (files : List RamFsFile) : List UInt8 :=
  match encode compiled ⟨4096⟩ files blank with
  | .ok (image, _) => image
  | .error _ => []

theorem encode_returns (files : List RamFsFile)
    (returns : (encode compiled ⟨4096⟩ files blank).isOk = true) :
    ∃ m, encode compiled ⟨4096⟩ files blank = .ok (encoded files, m) := by
  unfold encoded
  cases ran : encode compiled ⟨4096⟩ files blank with
  | ok r => exact ⟨r.2, rfl⟩
  | error e =>
      rw [ran] at returns
      cases returns

end RamFs

theorem one_file_not_accepted : ¬ RamFs.Accepted RamFs.compiled
    (Memory.store (fun _ => 0) 8192 (RamFs.encoded [⟨[97], [1, 2, 3]⟩])) 8192
    [⟨[97], [1, 2, 3]⟩] (RamFs.encoded [⟨[97], [1, 2, 3]⟩]) := by
  rcases RamFs.encode_returns [⟨[97], [1, 2, 3]⟩] (by decide +kernel) with ⟨m, returned⟩
  have exact_ := ramfs_accepted_iff _ _ _ _ _ (Memory.store (fun _ => 0) 8192 _) _ 8192
    (by decide) (Memory.load_store _ 4096 RamFs.new.toBytes) returned (Memory.load_store _ 8192 _)
  rw [exact_]
  decide

/-- Of an image with two files the second is looked for inside the first. -/
theorem two_files_rejected : (∃ m, RamFs.encode RamFs.compiled ⟨4096⟩ RamFs.letters RamFs.blank =
      .ok (RamFs.encoded RamFs.letters, m)) ∧
    (match RamFs.fromAddr RamFs.compiled 8192
        (Memory.store (fun _ => 0) 8192 (RamFs.encoded RamFs.letters)) with
      | .ok _ => none
      | .error e => some e) = some (.panic (.assertion "MAGIC is [53, 0, 0, 0]")) := by
  constructor
  · exact RamFs.encode_returns RamFs.letters (by decide +kernel)
  · decide +kernel

end Jangri
