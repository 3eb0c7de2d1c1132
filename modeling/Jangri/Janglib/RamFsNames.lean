import Jangri.Janglib.RamFs

namespace Jangri

namespace RamFs

def asBytes (text : String) : List UInt8 := text.toByteArray.data.toList

def fromUtf8 (bytes : List UInt8) : Option String := String.fromUTF8? bytes.toByteArray

def IsCharBoundary (text : String) (index : Nat) : Prop := (String.Pos.Raw.mk index).IsValid text

instance (text : String) (index : Nat) : Decidable (IsCharBoundary text index) :=
  inferInstanceAs (Decidable (String.Pos.Raw.mk index |>.IsValid text))

end RamFs

def RamFsEntryHeader.nameStr (header : RamFsEntryHeader) : Rust String :=
  match RamFs.fromUtf8 header.name with
  | some text => pure text
  | none => panic .unwrapErr

namespace RamFs

section Text

theorem toByteArray_asBytes (text : String) : (asBytes text).toByteArray = text.toByteArray := by
  rw [ByteArray.ext_iff, List.data_toByteArray]
  rfl

theorem asBytes_length (text : String) : (asBytes text).length = text.utf8ByteSize := rfl

theorem asBytes_append (first rest : String) :
    asBytes (first ++ rest) = asBytes first ++ asBytes rest := by
  simp only [asBytes, String.toByteArray_append, ByteArray.data_append, Array.toList_append]

theorem fromUtf8_asBytes (text : String) : fromUtf8 (asBytes text) = some text := by
  rw [fromUtf8, toByteArray_asBytes, String.fromUTF8?, dif_pos text.isValidUTF8]
  rfl

theorem fromUtf8_eq_none (bytes : List UInt8) (invalid : ¬ bytes.toByteArray.IsValidUTF8) :
    fromUtf8 bytes = none := by
  rw [fromUtf8, String.fromUTF8?, dif_neg invalid]

/-- A text may be cut between two characters, and nowhere else. -/
theorem cut_iff (text : String) (index : Nat) : IsCharBoundary text index ↔
    ∃ first rest : String, text = first ++ rest ∧ first.utf8ByteSize = index := by
  rw [IsCharBoundary, String.Pos.Raw.isValid_iff_exists_append]
  constructor
  · intro h
    rcases h with ⟨first, rest, joined, position⟩
    exact ⟨first, rest, joined, (congrArg String.Pos.Raw.byteIdx position).symm⟩
  · intro h
    rcases h with ⟨first, rest, joined, size⟩
    exact ⟨first, rest, joined, String.Pos.Raw.ext size.symm⟩

theorem take_invalid (text : String) (index : Nat) (inside : index ≤ text.utf8ByteSize)
    (apart : ¬ IsCharBoundary text index) :
    ¬ ((asBytes text).take index).toByteArray.IsValidUTF8 := by
  intro valid
  apply apart
  apply String.Pos.Raw.isValid_iff_isValidUTF8_extract_zero.mpr
  constructor
  · exact inside
  · have same : text.toByteArray.extract 0 index = ((asBytes text).take index).toByteArray := by
      rw [ByteArray.ext_iff, List.data_toByteArray, ByteArray.data_extract, asBytes,
        ← Array.toList_inj, Array.toList_extract]
      simp only [List.extract_eq_take_drop, Nat.sub_zero, List.drop_zero]
    rw [same]
    exact valid

def nuls (count : Nat) : String := String.ofList (List.replicate count '\x00')

theorem asBytes_nuls (count : Nat) : asBytes (nuls count) = List.replicate count 0 := by
  rw [nuls, asBytes, String.toByteArray_ofList, List.utf8Encode, List.data_toByteArray]
  induction count with
  | zero => rfl
  | succ count ih =>
      rw [List.replicate_succ, List.flatMap_cons, List.replicate_succ, ← ih]
      rfl

end Text

section Field

variable (name : String) (size : Nat)

theorem field_short (short : name.utf8ByteSize ≤ maxNameLength) :
    (RamFsEntryHeader.new (asBytes name) size).name =
      asBytes (name ++ nuls (maxNameLength - name.utf8ByteSize)) := by
  have whole : (asBytes name).take maxNameLength = asBytes name := List.take_of_length_le short
  rw [RamFsEntryHeader.new, asBytes_append, asBytes_nuls, asBytes_length]
  simp only
  rw [whole]

theorem field_long (long : maxNameLength ≤ name.utf8ByteSize) :
    (RamFsEntryHeader.new (asBytes name) size).name = (asBytes name).take maxNameLength := by
  have none_left : maxNameLength - (asBytes name).length = 0 := Nat.sub_eq_zero_of_le long
  rw [RamFsEntryHeader.new]
  simp only
  rw [none_left, List.replicate_zero, List.append_nil]

theorem nameStr_short (short : name.utf8ByteSize ≤ maxNameLength) :
    (RamFsEntryHeader.new (asBytes name) size).nameStr =
      .ok (name ++ nuls (maxNameLength - name.utf8ByteSize)) := by
  rw [RamFsEntryHeader.nameStr, field_short name size short, fromUtf8_asBytes]
  rfl

theorem nameStr_cut (first rest : String) (joined : name = first ++ rest)
    (full : first.utf8ByteSize = maxNameLength) :
    (RamFsEntryHeader.new (asBytes name) size).nameStr = .ok first := by
  have long : maxNameLength ≤ name.utf8ByteSize := by
    rw [joined, String.utf8ByteSize_append]
    omega
  have front : (asBytes name).take maxNameLength = asBytes first := by
    rw [joined, asBytes_append]
    exact List.take_left' full
  rw [RamFsEntryHeader.nameStr, field_long name size long, front, fromUtf8_asBytes]
  rfl

theorem nameStr_torn (long : maxNameLength ≤ name.utf8ByteSize)
    (apart : ¬ IsCharBoundary name maxNameLength) :
    (RamFsEntryHeader.new (asBytes name) size).nameStr = panic .unwrapErr := by
  rw [RamFsEntryHeader.nameStr, field_long name size long,
    fromUtf8_eq_none _ (take_invalid name maxNameLength long apart)]

example : (RamFsEntryHeader.new (asBytes (nuls 254 ++ "é")) 0).nameStr = panic .unwrapErr :=
  nameStr_torn (nuls 254 ++ "é") 0 (by decide +kernel) (by decide +kernel)

end Field

/-- The name survives: whole if the field has room for it and it has no NUL, and as a prefix of
itself otherwise. -/
def NameSurvives (name : String) (size : Nat) : Prop :=
  ∃ read, (RamFsEntryHeader.new (asBytes name) size).nameStr = .ok read ∧
    (name.utf8ByteSize ≤ maxNameLength ∧ '\x00' ∉ name.toList → read = name) ∧
    ∃ rest, name = read ++ rest

section Survival

variable (name : String) (size : Nat)

theorem survives_of_boundary (boundary : IsCharBoundary name maxNameLength) :
    NameSurvives name size := by
  rcases (cut_iff name maxNameLength).mp boundary with ⟨first, rest, joined, full⟩
  refine ⟨first, nameStr_cut name size first rest joined full, ?_, rest, joined⟩
  intro fits
  have total := congrArg String.utf8ByteSize joined
  rw [String.utf8ByteSize_append] at total
  have empty : rest = "" := by
    apply String.utf8ByteSize_eq_zero_iff.mp
    omega
  rw [joined, empty, String.append_empty]

theorem boundary_of_survives (survives : NameSurvives name size) :
    IsCharBoundary name maxNameLength := by
  rcases survives with ⟨read, returned, -, rest, joined⟩
  by_cases short : name.utf8ByteSize < maxNameLength
  · -- The padding makes what is read longer than the name.
    rw [nameStr_short name size (Nat.le_of_lt short)] at returned
    have padded : name ++ nuls (maxNameLength - name.utf8ByteSize) = read :=
      Except.ok.inj returned
    have longer : (nuls (maxNameLength - name.utf8ByteSize)).utf8ByteSize =
        maxNameLength - name.utf8ByteSize := by
      rw [← asBytes_length, asBytes_nuls, List.length_replicate]
    have total := congrArg String.utf8ByteSize joined
    rw [← padded, String.utf8ByteSize_append, String.utf8ByteSize_append, longer] at total
    omega
  · by_cases boundary : IsCharBoundary name maxNameLength
    · exact boundary
    · rw [nameStr_torn name size (Nat.le_of_not_lt short) boundary] at returned
      cases returned

end Survival

end RamFs

/-- A name survives exactly when the field ends at the end of one of its characters. -/
theorem ramfs_name_survives_iff (name : String) (size : Nat) :
    RamFs.NameSurvives name size ↔ RamFs.IsCharBoundary name RamFs.maxNameLength := by
  constructor
  · exact RamFs.boundary_of_survives name size
  · exact RamFs.survives_of_boundary name size

theorem letter_name_padded : ¬ RamFs.NameSurvives "a" 3 := by
  intro survives
  rcases survives with ⟨read, returned, whole, -⟩
  have same : read = "a" := whole (by decide)
  have padded := RamFs.nameStr_short "a" 3 (by decide)
  rw [returned, same] at padded
  have sizes := congrArg String.utf8ByteSize (Except.ok.inj padded)
  revert sizes
  decide +kernel

end Jangri
