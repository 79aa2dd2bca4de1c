import Mathlib.Algebra.BigOperators.Group.Finset.Basic
import Mathlib.Algebra.BigOperators.Ring.Finset
import Mathlib.Data.Int.Basic
import Mathlib.Tactic.Abel

/-!
# How much a ledger has changed in total

A ledger gives every account a balance. Two ledgers that differ on finitely many accounts
have a well-defined difference of their totals, even where the totals themselves are not
finite sums. The difference adds up along a run, and a single entry or a list of distinct
entries determines it.
-/

namespace Ledger

variable {A : Type*} [DecidableEq A] {f g h : A → ℕ} {z w : ℤ}

/-- The total of `g` is the total of `f` plus `z`. -/
def TotalShift (f g : A → ℕ) (z : ℤ) : Prop :=
  ∃ S : Finset A, (∀ a, a ∉ S → g a = f a) ∧ ∑ a ∈ S, (g a : ℤ) = ∑ a ∈ S, (f a : ℤ) + z

omit [DecidableEq A] in
lemma sum_sub_of_subset {S T : Finset A} (hST : S ⊆ T) (hS : ∀ a, a ∉ S → g a = f a) :
    ∑ a ∈ T, ((g a : ℤ) - f a) = ∑ a ∈ S, ((g a : ℤ) - f a) := by
  refine (Finset.sum_subset hST fun a _ ha => ?_).symm
  rw [hS a ha, sub_self]

/-- The difference can be read off any finite set that has all changed accounts. -/
theorem totalShift_iff {S : Finset A} (hS : ∀ a, a ∉ S → g a = f a) :
    TotalShift f g z ↔ ∑ a ∈ S, ((g a : ℤ) - f a) = z := by
  constructor
  · rintro ⟨T, hT, hsum⟩
    have hTU : T ⊆ S ∪ T := Finset.subset_union_right
    rw [← sum_sub_of_subset Finset.subset_union_left hS, sum_sub_of_subset hTU hT,
      Finset.sum_sub_distrib, hsum]
    abel
  · intro hz
    refine ⟨S, hS, ?_⟩
    rw [← hz, Finset.sum_sub_distrib]
    abel

lemma TotalShift.unique (hz : TotalShift f g z) (hw : TotalShift f g w) : z = w := by
  obtain ⟨S, hS, -⟩ := id hz
  rw [← (totalShift_iff hS).1 hz, (totalShift_iff hS).1 hw]

omit [DecidableEq A] in
lemma TotalShift.refl (f : A → ℕ) : TotalShift f f 0 := ⟨∅, by simp⟩

lemma TotalShift.trans (hz : TotalShift f g z) (hw : TotalShift g h w) :
    TotalShift f h (z + w) := by
  obtain ⟨S, hS, -⟩ := id hz
  obtain ⟨T, hT, -⟩ := id hw
  have hfg : ∀ a, a ∉ S ∪ T → g a = f a := fun a ha =>
    hS a fun hmem => ha (Finset.mem_union_left T hmem)
  have hgh : ∀ a, a ∉ S ∪ T → h a = g a := fun a ha =>
    hT a fun hmem => ha (Finset.mem_union_right S hmem)
  rw [totalShift_iff fun a ha => (hgh a ha).trans (hfg a ha), ← (totalShift_iff hfg).1 hz,
    ← (totalShift_iff hgh).1 hw, ← Finset.sum_add_distrib]
  refine Finset.sum_congr rfl fun a _ => ?_
  abel

/-- One new entry changes the total by what it changes its account. -/
theorem totalShift_update (f : A → ℕ) (a : A) (x : ℕ) :
    TotalShift f (Function.update f a x) ((x : ℤ) - f a) := by
  rw [totalShift_iff (S := {a}) fun b hb => ?_]
  · simp
  · rw [Function.update_of_ne fun h => hb (Finset.mem_singleton.2 h)]

/-- Entries on distinct accounts change the total by the difference of their sums. -/
theorem totalShift_of_nodup {l : List A} (hl : l.Nodup) (hout : ∀ a, a ∉ l → g a = f a) :
    TotalShift f g (((l.map g).sum : ℕ) - ((l.map f).sum : ℕ)) := by
  rw [totalShift_iff (S := l.toFinset) fun a ha => hout a (by simpa using ha),
    Finset.sum_sub_distrib, ← List.sum_toFinset g hl, ← List.sum_toFinset f hl]
  push_cast
  rfl

end Ledger
