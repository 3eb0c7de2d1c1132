import Jangri.Allocator.Bitmap

namespace Jangri

inductive Mark
  | available (multiple : Nat)
  | unavailable (multiple : Nat)
  deriving DecidableEq

namespace Mark

def multiple : Mark → Nat
  | available multiple => multiple
  | unavailable multiple => multiple

def InRange (mark : Mark) : Prop := 1 ≤ mark.multiple ∧ mark.multiple ≤ 2560

instance (mark : Mark) : Decidable mark.InRange := inferInstanceAs (Decidable (_ ∧ _))

def apply (members : Finset Nat) : Mark → Finset Nat
  | available multiple => insert multiple members
  | unavailable multiple => members.erase multiple

def members (marks : List Mark) : Finset Nat := marks.foldl apply ∅

theorem members_concat (marks : List Mark) (mark : Mark) :
    members (marks ++ [mark]) = apply (members marks) mark := by
  rw [members, List.foldl_append]
  rfl

end Mark

namespace Bitmap

def mark (self : Bitmap) : Mark → Rust Bitmap
  | .available multiple => self.markAvailable multiple
  | .unavailable multiple => self.markUnavailable multiple

def marked (marks : List Mark) : Rust Bitmap := marks.foldlM mark new

theorem marked_concat (marks : List Mark) (mark : Mark) :
    marked (marks ++ [mark]) = marked marks >>= fun bitmap => bitmap.mark mark := by
  rw [marked, List.foldlM_append]
  simp only [List.foldlM_cons, List.foldlM_nil, bind_pure]
  rfl

def Represents (self : Bitmap) (members : Finset Nat) : Prop :=
  ∀ multiple, self.Member multiple ↔ multiple ∈ members

theorem represents_new : new.Represents ∅ := by
  intro multiple
  simp [not_member_new multiple]

variable {self : Bitmap} {members : Finset Nat}

theorem represents_mark (represents : self.Represents members) (mark : Mark)
    (inRange : mark.InRange) :
    ∃ bitmap, self.mark mark = .ok bitmap ∧ bitmap.Represents (mark.apply members) := by
  cases mark with
  | available multiple =>
      rcases self.markAvailable_spec multiple inRange.1 inRange.2 with ⟨bitmap, marked, member⟩
      refine ⟨bitmap, marked, ?_⟩
      intro k
      rw [member k, represents k, Mark.apply, Finset.mem_insert]
  | unavailable multiple =>
      rcases self.markUnavailable_spec multiple inRange.1 inRange.2 with ⟨bitmap, marked, member⟩
      refine ⟨bitmap, marked, ?_⟩
      intro k
      rw [member k, represents k, Mark.apply, Finset.mem_erase]

theorem represents_marked (marks : List Mark) (inRange : ∀ mark ∈ marks, mark.InRange) :
    ∃ bitmap, marked marks = .ok bitmap ∧ bitmap.Represents (Mark.members marks) := by
  induction marks using List.reverseRecOn with
  | nil => exact ⟨new, rfl, represents_new⟩
  | append_singleton marks mark ih =>
      rcases ih fun other present => inRange other (List.mem_append_left _ present) with
        ⟨bitmap, reached, represents⟩
      rcases represents_mark represents mark (inRange mark (by simp)) with ⟨next, called, holds⟩
      refine ⟨next, ?_, ?_⟩
      · rw [marked_concat, reached]
        exact called
      · rw [Mark.members_concat]
        exact holds

theorem isAvailable_of_represents (represents : self.Represents members) (multiple : Nat)
    (low : 1 ≤ multiple) (high : multiple ≤ 2560) :
    self.isAvailable multiple = .ok (decide (multiple ∈ members)) := by
  rcases self.isAvailable_spec multiple low high with ⟨answer, called, meaning⟩
  rw [called]
  congr 1
  rw [Bool.eq_iff_iff, meaning, represents multiple, decide_eq_true_iff]

/-- The least member that is at least `multiple`, if there is one. -/
def Successor (members : Finset Nat) (multiple : Nat) : Option Nat → Prop
  | some v => IsLeast {k | k ∈ members ∧ multiple ≤ k} v
  | none => ∀ k ∈ members, k < multiple

theorem Successor.unique {multiple : Nat} {answer other : Option Nat}
    (successor : Successor members multiple answer) (again : Successor members multiple other) :
    answer = other := by
  cases answer with
  | some v =>
      cases other with
      | some w => rw [IsLeast.unique successor again]
      | none =>
          have below := again v successor.1.1
          have above : multiple ≤ v := successor.1.2
          omega
  | none =>
      cases other with
      | some w =>
          have below := successor w again.1.1
          have above : multiple ≤ w := again.1.2
          omega
      | none => rfl

theorem firstAvailable_of_represents (represents : self.Represents members) (multiple : Nat)
    (low : 1 ≤ multiple) :
    ∃ answer, self.firstAvailable multiple = .ok answer ∧ Successor members multiple answer := by
  rcases self.firstAvailable_spec multiple low with ⟨answer, called, onSome, onNone⟩
  refine ⟨answer, called, ?_⟩
  cases answer with
  | some v =>
      rcases onSome v rfl with ⟨above, member, least⟩
      constructor
      · exact ⟨(represents v).mp member, above⟩
      · intro k candidate
        by_contra below
        exact least k candidate.2 (by omega) ((represents k).mpr candidate.1)
  | none =>
      intro k present
      by_contra above
      exact onNone rfl k (by omega) ((represents k).mpr present)

/-- Whatever is marked on a new bitmap, in whatever order: the calls return, and the bitmap answers as
the set that the same insertions and deletions make. -/
theorem bitmap_is_set (marks : List Mark) (inRange : ∀ mark ∈ marks, mark.InRange) :
    ∃ bitmap, marked marks = .ok bitmap ∧
      (∀ multiple, 1 ≤ multiple → multiple ≤ 2560 →
        bitmap.isAvailable multiple = .ok (decide (multiple ∈ Mark.members marks))) ∧
      ∀ multiple, 1 ≤ multiple → ∃ answer, bitmap.firstAvailable multiple = .ok answer ∧
        Successor (Mark.members marks) multiple answer := by
  rcases represents_marked marks inRange with ⟨bitmap, reached, represents⟩
  exact ⟨bitmap, reached, isAvailable_of_represents represents,
    firstAvailable_of_represents represents⟩

def boundaryMarks : List Mark := [.available 128, .available 129, .available 2560, .unavailable 129]

theorem boundary_marks_searched : ∃ bitmap, marked boundaryMarks = .ok bitmap ∧
    bitmap.isAvailable 129 = .ok false ∧ bitmap.firstAvailable 129 = .ok (some 2560) := by
  rcases bitmap_is_set boundaryMarks (by decide) with ⟨bitmap, reached, available, first⟩
  refine ⟨bitmap, reached, available 129 (by decide) (by decide), ?_⟩
  rcases first 129 (by decide) with ⟨answer, called, successor⟩
  have last : Successor (Mark.members boundaryMarks) 129 (some 2560) := by
    constructor
    · decide
    · intro k candidate
      rcases candidate with ⟨listed, above⟩
      revert k
      decide
  rw [called, successor.unique last]

end Bitmap

end Jangri
