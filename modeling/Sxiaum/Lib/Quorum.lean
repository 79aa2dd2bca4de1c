import Mathlib.Algebra.Order.BigOperators.Group.Finset
import Mathlib.Tactic.Ring

/-!
# Weighted quorums

Voters carry weights. A *quorum* is a set of voters that holds more than two thirds of the
total weight; a *minority* holds less than one third. Two quorums share a voter outside any
minority.
-/

namespace Quorum

variable {α : Type*} [DecidableEq α] (weight : α → ℕ) (voters : Finset α)

/-- More than two thirds of the total weight. -/
structure IsQuorum (Q : Finset α) : Prop where
  subset : Q ⊆ voters
  heavy : 2 * ∑ a ∈ voters, weight a < 3 * ∑ a ∈ Q, weight a

/-- Less than one third of the total weight. -/
def IsMinority (B : Finset α) : Prop :=
  3 * ∑ a ∈ B, weight a < ∑ a ∈ voters, weight a

variable {weight voters}

/-- Two quorums overlap in more than one third of the total weight. -/
lemma IsQuorum.heavy_inter {Q R : Finset α} (hQ : IsQuorum weight voters Q)
    (hR : IsQuorum weight voters R) :
    ∑ a ∈ voters, weight a < 3 * ∑ a ∈ Q ∩ R, weight a := by
  have hsplit : ∑ a ∈ Q ∪ R, weight a + ∑ a ∈ Q ∩ R, weight a =
      ∑ a ∈ Q, weight a + ∑ a ∈ R, weight a := Finset.sum_union_inter
  have hunion : ∑ a ∈ Q ∪ R, weight a ≤ ∑ a ∈ voters, weight a :=
    Finset.sum_le_sum_of_subset (Finset.union_subset hQ.subset hR.subset)
  have := hQ.heavy
  have := hR.heavy
  omega

/-- Two quorums share a voter outside a minority. -/
theorem IsQuorum.exists_common {Q R B : Finset α} (hQ : IsQuorum weight voters Q)
    (hR : IsQuorum weight voters R) (hB : IsMinority weight voters B) :
    ∃ a ∈ Q, a ∈ R ∧ a ∉ B := by
  by_contra hnone
  have hsub : Q ∩ R ⊆ B := by
    intro a ha
    obtain ⟨haQ, haR⟩ := Finset.mem_inter.1 ha
    by_contra haB
    exact hnone ⟨a, haQ, haR, haB⟩
  have hle : ∑ a ∈ Q ∩ R, weight a ≤ ∑ a ∈ B, weight a := Finset.sum_le_sum_of_subset hsub
  have hinter := hQ.heavy_inter hR
  unfold IsMinority at hB
  omega

end Quorum
