import Sxiaum.Execution.Balances
import Sxiaum.State.Operations

/-!
# The release of vested funds

`release` of `types/src/vesting.rs`, and what a schedule pays over a sequence of calls.
-/

namespace Sxiaum

open Guards

namespace VestingSchedule

def releasableAmount (s : VestingSchedule) (nowTs : ℕ) : ℕ := s.vestedAmount nowTs - s.releasedWei

def release (s : VestingSchedule) (nowTs : ℕ) : Except String (ℕ × VestingSchedule) := do
  s.validate
  let amount := s.releasableAmount nowTs
  bailIf (amount = 0) "No tokens releasable at the current timestamp"
  let next := s.releasedWei + amount
  bailIf (u256Max < next) "Released wei exceeds total wei"
  bailIf (s.totalWei < next) "Released wei exceeds total wei"
  pure (amount, { s with releasedWei := next })

/-- Calls one after another: the times of those that succeed, with the amounts they pay. -/
def releases : VestingSchedule → List ℕ → List (ℕ × ℕ)
  | _, [] => []
  | s, nowTs :: times =>
    match s.release nowTs with
    | .ok (amount, s') => (nowTs, amount) :: releases s' times
    | .error _ => releases s times

variable {s s' : VestingSchedule} {nowTs amount : ℕ}

/-! ### The vested amount -/

section Bounded

variable (hcliff : s.startTs + s.cliffSecs ≤ u64Max) (hend : s.startTs + s.durationSecs ≤ u64Max)
  (htotal : s.totalWei ≤ u256Max)

include hcliff hend htotal

/-- Neither branch of the division rounds more than once. -/
lemma vestedAmount_eq (nowTs : ℕ) : s.vestedAmount nowTs =
    if nowTs < s.startTs + s.cliffSecs then 0
    else if s.startTs + s.durationSecs ≤ nowTs then s.totalWei
    else s.totalWei * (nowTs - s.startTs) / s.durationSecs := by
  rw [vestedAmount, satAdd64, satAdd64, min_eq_left hcliff, min_eq_left hend]
  split_ifs with hbefore hafter <;> try omega
  have helapsed : nowTs - s.startTs < s.durationSecs := by omega
  dsimp only
  generalize nowTs - s.startTs = elapsed at helapsed ⊢
  have hquotient : s.totalWei / s.durationSecs * elapsed ≤ u256Max :=
    (Nat.mul_le_mul_left _ helapsed.le).trans ((Nat.div_mul_le_self _ _).trans htotal)
  have hremainder : s.totalWei % s.durationSecs * elapsed ≤ u256Max :=
    (Nat.mul_le_mul (Nat.mod_lt _ (by omega)).le helapsed.le).trans
      ((Nat.mul_le_mul (by omega) (by omega)).trans (by decide : u64Max * u64Max ≤ u256Max))
  cases hproduct : checkedMul256 s.totalWei elapsed with
  | some product => rw [← (checkedMul256_eq_some.1 hproduct).2]
  | none =>
    rw [satMul256, satMul256, min_eq_left hquotient, min_eq_left hremainder,
      ← Nat.mul_add_div (by omega), ← Nat.mul_assoc, ← Nat.add_mul, Nat.div_add_mod]

lemma vestedAmount_le (nowTs : ℕ) : s.vestedAmount nowTs ≤ s.totalWei := by
  rw [vestedAmount_eq hcliff hend htotal]
  split_ifs with hbefore hafter
  · exact Nat.zero_le _
  · exact le_rfl
  · refine Nat.div_le_of_le_mul ?_
    rw [Nat.mul_comm]
    exact Nat.mul_le_mul_right _ (by omega)

lemma vestedAmount_mono : Monotone s.vestedAmount := by
  intro t t' hle
  have hcap := vestedAmount_le hcliff hend htotal t
  rw [vestedAmount_eq hcliff hend htotal] at hcap ⊢
  rw [vestedAmount_eq hcliff hend htotal t']
  split_ifs at hcap ⊢ <;> first | omega | skip
  · exact Nat.zero_le _
  · exact Nat.div_le_div_right (Nat.mul_le_mul_left _ (by omega))

end Bounded

/-! ### Payments -/

lemma release_ok (h : s.release nowTs = .ok (amount, s')) :
    s.releasedWei + amount = s.vestedAmount nowTs ∧
      s' = { s with releasedWei := s.vestedAmount nowTs } := by
  simp only [release, bind_ok, exists_unit, bailIf_ok, pure_ok, Prod.mk.injEq] at h
  obtain ⟨-, hpos, -, -, rfl, rfl⟩ := h
  have hsum : s.releasedWei + s.releasableAmount nowTs = s.vestedAmount nowTs := by
    rw [releasableAmount] at hpos ⊢
    omega
  exact ⟨hsum, by rw [hsum]⟩

/-- What has been paid in all is the amount vested at the last payment. -/
lemma releasedWei_add_sum (times : List ℕ) {last : ℕ × ℕ}
    (h : (s.releases times).getLast? = some last) :
    s.releasedWei + ((s.releases times).map Prod.snd).sum = s.vestedAmount last.1 := by
  induction times generalizing s with
  | nil => cases h
  | cons nowTs times ih =>
    rw [releases] at h ⊢
    split at h
    · rename_i amount s' hrelease
      obtain ⟨hsum, rfl⟩ := release_ok hrelease
      rw [List.map_cons, List.sum_cons, ← Nat.add_assoc, hsum]
      cases hrest : (releases { s with releasedWei := s.vestedAmount nowTs } times).getLast? with
      | none =>
        rw [List.getLast?_eq_none_iff] at hrest
        rw [hrest] at h ⊢
        cases h
        rfl
      | some last' =>
        rw [List.getLast?_cons, hrest] at h
        cases h
        exact ih hrest
    · exact ih h

/-- The vested amount is the exact fraction of the total, never above it and never decreasing;
with what was released before, the payments of any calls add up to the amount vested at the last
call that paid. -/
theorem vested_and_released (hcliff : s.startTs + s.cliffSecs ≤ u64Max)
    (hend : s.startTs + s.durationSecs ≤ u64Max) (htotal : s.totalWei ≤ u256Max) :
    (∀ nowTs, s.vestedAmount nowTs =
      if nowTs < s.startTs + s.cliffSecs then 0
      else if s.startTs + s.durationSecs ≤ nowTs then s.totalWei
      else s.totalWei * (nowTs - s.startTs) / s.durationSecs) ∧
    Monotone s.vestedAmount ∧ (∀ nowTs, s.vestedAmount nowTs ≤ s.totalWei) ∧
    ∀ times last, (s.releases times).getLast? = some last →
      s.releasedWei + ((s.releases times).map Prod.snd).sum = s.vestedAmount last.1 :=
  ⟨vestedAmount_eq hcliff hend htotal, vestedAmount_mono hcliff hend htotal,
    vestedAmount_le hcliff hend htotal, fun times _ h => releasedWei_add_sum times h⟩

def sampleSchedule : VestingSchedule := ⟨1000, 100, 10, 100, 0⟩

theorem vested_and_released_sample :
    (sampleSchedule.releases [105, 150, 150, 300]).map Prod.snd = [500, 500] ∧
      ((sampleSchedule.releases [105, 150, 150, 300]).map Prod.snd).sum =
        sampleSchedule.vestedAmount 300 := by
  have hsum := (@vested_and_released sampleSchedule (by decide) (by decide) (by decide)).2.2.2
    [105, 150, 150, 300] (300, 500) (by decide)
  exact ⟨by decide, (Nat.zero_add _).symm.trans hsum⟩

end VestingSchedule

end Sxiaum
