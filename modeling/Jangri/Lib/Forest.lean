import Mathlib.Data.List.Basic
import Mathlib.Data.Set.Basic
import Mathlib.Tactic

namespace Lib

variable {α ι : Type} {step : α → ι → Option α} {roots : Set α} {depth : Nat}

def follow (step : α → ι → Option α) (root : α) (path : List ι) : Option α := path.foldlM step root

def AtDepth (step : α → ι → Option α) (roots : Set α) (length : Nat) (t : α) : Prop :=
  ∃ root ∈ roots, ∃ path : List ι, path.length = length ∧ follow step root path = some t

structure Forest (step : α → ι → Option α) (roots : Set α) (depth : Nat) : Prop where
  unique : ∀ root ∈ roots, ∀ root' ∈ roots, ∀ (p q : List ι) (t : α), p.length ≤ depth →
    q.length ≤ depth → follow step root p = some t → follow step root' q = some t →
    root = root' ∧ p = q

theorem follow_snoc (root : α) (path : List ι) (i : ι) :
    follow step root (path ++ [i]) = (follow step root path).bind fun t => step t i := by
  simp [follow, List.foldlM_append]

theorem atDepth_root {root : α} (member : root ∈ roots) : AtDepth step roots 0 root :=
  ⟨root, member, [], rfl, rfl⟩

theorem AtDepth.next {length : Nat} {t c : α} {i : ι} (at_ : AtDepth step roots length t)
    (edge : step t i = some c) : AtDepth step roots (length + 1) c := by
  rcases at_ with ⟨root, member, path, long, reaches⟩
  refine ⟨root, member, path ++ [i], ?_, ?_⟩
  · rw [List.length_append, List.length_singleton, long]
  · rw [follow_snoc, reaches]
    exact edge

theorem AtDepth.last {length : Nat} {c : α} (at_ : AtDepth step roots (length + 1) c) :
    ∃ t i, AtDepth step roots length t ∧ step t i = some c := by
  rcases at_ with ⟨root, member, path, long, reaches⟩
  rcases List.eq_nil_or_concat path with rfl | ⟨front, i, rfl⟩
  · cases long
  · rw [List.concat_eq_append] at long reaches
    rw [List.length_append, List.length_singleton] at long
    rw [follow_snoc] at reaches
    rcases Option.bind_eq_some_iff.mp reaches with ⟨t, front_, edge⟩
    exact ⟨t, i, ⟨root, member, front, by omega, front_⟩, edge⟩

namespace Forest

variable (forest : Forest step roots depth)
include forest

theorem depth_unique {a b : Nat} {t : α} (shortA : a ≤ depth) (shortB : b ≤ depth)
    (atA : AtDepth step roots a t) (atB : AtDepth step roots b t) : a = b := by
  rcases atA with ⟨root, member, p, longP, reachesP⟩
  rcases atB with ⟨root', member', q, longQ, reachesQ⟩
  have same := forest.unique root member root' member' p q t (by omega) (by omega) reachesP reachesQ
  rw [← longP, ← longQ, same.2]

theorem root_depth {a : Nat} {t : α} (short : a ≤ depth) (member : t ∈ roots)
    (at_ : AtDepth step roots a t) : a = 0 :=
  forest.depth_unique short (Nat.zero_le depth) at_ (atDepth_root member)

theorem edge_unique {a : Nat} {c : α} (short : a + 1 ≤ depth)
    (at_ : AtDepth step roots (a + 1) c) :
    ∃! edge : α × ι, (∃ b < depth, AtDepth step roots b edge.1) ∧ step edge.1 edge.2 = some c := by
  rcases at_.last with ⟨t, i, atT, reaches⟩
  refine ⟨(t, i), ⟨⟨a, short, atT⟩, reaches⟩, ?_⟩
  intro edge other
  rcases other with ⟨⟨b, low, root', member', q, longQ, reachesQ⟩, reaches'⟩
  rcases atT with ⟨root, member, p, longP, reachesP⟩
  have lastP : follow step root (p ++ [i]) = some c := by
    rw [follow_snoc, reachesP]
    exact reaches
  have lastQ : follow step root' (q ++ [edge.2]) = some c := by
    rw [follow_snoc, reachesQ]
    exact reaches'
  have same := forest.unique root member root' member' _ _ c
    (by rw [List.length_append, List.length_singleton]; omega)
    (by rw [List.length_append, List.length_singleton]; omega) lastP lastQ
  rcases List.append_inj' same.2 rfl with ⟨fronts, ends⟩
  rw [← same.1, ← fronts, reachesP] at reachesQ
  have labels : i = edge.2 := (List.cons.inj ends).1
  exact Prod.ext (Option.some.inj reachesQ).symm labels.symm

end Forest

end Lib
