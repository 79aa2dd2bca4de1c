import Sxiaum.Consensus.Staking
import Sxiaum.Lib.Ledger
import Sxiaum.Lib.Trace

/-!
# What a validator's pool holds

A validator's own stake and the delegations to it are one number. `unstake_tokens` lets the
validator take all of it and `slash_validator` takes from it without touching the delegations, so
that the number can fall below the delegations. It does not as long as every withdrawal of the
validator and every slash leave the delegations in the pool.
-/

namespace Sxiaum.Pos

open Guards Ledger

variable {α : Type} [DecidableEq α] {m m' m₀ : StakingManager α} {op : StakingOp α} {v d : α}
  {a : ℕ}

/-! ### Runs -/

/-- A run of operations that go through, each under a condition on what went before. An operation
that is refused changes nothing. -/
def StakingRun (allowed : List (ℕ × StakingOp α) → StakingManager α → StakingOp α →
    StakingManager α → Prop) : StakingManager α → List (ℕ × StakingOp α) → StakingManager α → Prop :=
  Trace fun history m event m' =>
    event.1 = m.currentEpoch ∧ m.apply event.2 = .ok m' ∧ allowed history m event.2 m'

lemma StakingRun.next {allowed : List (ℕ × StakingOp α) → StakingManager α → StakingOp α →
    StakingManager α → Prop} {history : List (ℕ × StakingOp α)}
    (hrun : StakingRun allowed m₀ history m) (op : StakingOp α) (h : m.apply op = .ok m')
    (hallowed : allowed history m op m') :
    StakingRun allowed m₀ (history ++ [(m.currentEpoch, op)]) m' :=
  Trace.snoc hrun ⟨rfl, h, hallowed⟩

/-! ### Delegations -/

def delegatedTo (m : StakingManager α) (v : α) : ℕ :=
  ∑ d ∈ (m.delegations.keys.map Prod.fst).toFinset, m.delegated d v

lemma mem_delegators (h : m.delegated d v ≠ 0) :
    d ∈ (m.delegations.keys.map Prod.fst).toFinset := by
  rw [List.mem_toFinset, List.mem_map]
  refine ⟨(d, v), ?_, rfl⟩
  rw [← AList.mem_keys]
  by_contra hmem
  apply h
  rw [StakingManager.delegated, AList.lookup_eq_none.2 hmem, Option.getD_none]

lemma delegatedTo_eq {S : Finset α} (hS : ∀ d, m.delegated d v ≠ 0 → d ∈ S) :
    delegatedTo m v = ∑ d ∈ S, m.delegated d v := by
  have hkeys : Function.support (fun d => m.delegated d v) ⊆
      ((m.delegations.keys.map Prod.fst).toFinset : Set α) := fun d hd => mem_delegators hd
  have hsupport : Function.support (fun d => m.delegated d v) ⊆ (S : Set α) := fun d hd => hS d hd
  rw [delegatedTo, ← finsum_eq_sum_of_support_subset _ hkeys,
    finsum_eq_sum_of_support_subset _ hsupport]

lemma delegatedTo_congr (h : ∀ d, m'.delegated d v = m.delegated d v) :
    delegatedTo m' v = delegatedTo m v := by
  have hS : ∀ d, m'.delegated d v ≠ 0 → d ∈ (m.delegations.keys.map Prod.fst).toFinset := by
    intro d hd
    rw [h] at hd
    exact mem_delegators hd
  rw [delegatedTo_eq hS]
  exact Finset.sum_congr rfl fun d _ => h d

lemma delegated_le_delegatedTo (m : StakingManager α) (d v : α) :
    m.delegated d v ≤ delegatedTo m v := by
  by_cases hd : m.delegated d v = 0
  · rw [hd]
    exact Nat.zero_le _
  · exact Finset.single_le_sum (f := fun d => m.delegated d v) (fun _ _ => Nat.zero_le _)
      (mem_delegators hd)

lemma delegatedTo_of_update {x : ℕ} (h : ∀ p : α × α, m'.delegated p.1 p.2 =
      Function.update (fun p => m.delegated p.1 p.2) (d, v) x p) (w : α) :
    delegatedTo m' w + (if v = w then m.delegated d v else 0) =
      delegatedTo m w + if v = w then x else 0 := by
  by_cases hw : v = w
  · subst hw
    have hother : ∀ d', d' ≠ d → m'.delegated d' v = m.delegated d' v := fun d' hd' => by
      rw [h (d', v), Function.update_of_ne (by simp [hd'])]
    have hS : ∀ d', m.delegated d' v ≠ 0 →
        d' ∈ insert d (m.delegations.keys.map Prod.fst).toFinset := fun d' hd' =>
      Finset.mem_insert_of_mem (mem_delegators hd')
    have hS' : ∀ d', m'.delegated d' v ≠ 0 →
        d' ∈ insert d (m.delegations.keys.map Prod.fst).toFinset := by
      intro d' hd'
      by_cases heq : d' = d
      · rw [heq]
        exact Finset.mem_insert_self ..
      · exact hS d' (hother d' heq ▸ hd')
    have hd := Finset.mem_insert_self d (m.delegations.keys.map Prod.fst).toFinset
    rw [if_pos rfl, if_pos rfl, delegatedTo_eq hS, delegatedTo_eq hS', ← Finset.add_sum_erase _ _ hd,
      ← Finset.add_sum_erase _ _ hd, h (d, v), Function.update_self,
      Finset.sum_congr rfl fun d' hd' => hother d' (Finset.ne_of_mem_erase hd')]
    omega
  · rw [if_neg hw, if_neg hw, delegatedTo_congr fun d' => ?_]
    rw [h (d', w), Function.update_of_ne fun heq => hw (Prod.mk.inj heq).2.symm]

/-! ### Covered pools -/

/-- Every validator's stake is at least the sum of the delegations to it. -/
def Covered (m : StakingManager α) : Prop := ∀ v, delegatedTo m v ≤ m.getStake v

def Bounded (m : StakingManager α) : Prop := ∀ v, m.getStake v ≤ u256Max

/-- The operation leaves the delegations in the pool, and their sum is an amount. -/
def LeavesDelegations (m : StakingManager α) : StakingOp α → Prop
  | .unstakeTokens v a | .slashValidator v a => delegatedTo m v ≤ m.getStake v - a
  | .delegateStake d v a =>
    delegatedTo m v - m.delegated d v + satAdd256 (m.delegated d v) a ≤ u256Max
  | _ => True

lemma satAdd256_le (a b : ℕ) : satAdd256 a b ≤ u256Max := Nat.min_le_right ..

lemma bounded_apply (hm : Bounded m) (h : m.apply op = .ok m') : Bounded m' := by
  unfold Bounded
  rw [StakingManager.getStake_apply h]
  have hupdate : ∀ v x, x ≤ u256Max → ∀ w, Function.update m.getStake v x w ≤ u256Max :=
    fun v x hx => (Function.forall_update_iff _ fun _ y => y ≤ u256Max).2 ⟨hx, fun w _ => hm w⟩
  have hdebit : ∀ v a, m.getStake v - a ≤ u256Max := fun v a => (Nat.sub_le ..).trans (hm v)
  cases op with
  | stakeTokens v a | delegateStake d v a | rewardValidator v a =>
    exact hupdate v _ (satAdd256_le ..)
  | unstakeTokens v a | undelegateStake d v a | slashValidator v a => exact hupdate v _ (hdebit v a)
  | stakingEpochUpdate => exact hm

lemma covered_iff_at (hcov : Covered m) {x : ℕ}
    (hstake : m'.getStake = Function.update m.getStake v x)
    (hothers : ∀ w, w ≠ v → delegatedTo m' w = delegatedTo m w) :
    Covered m' ↔ delegatedTo m' v ≤ x := by
  constructor
  · intro h
    have hv := h v
    rwa [hstake, Function.update_self] at hv
  · intro h w
    rw [hstake]
    by_cases hw : w = v
    · rw [hw, Function.update_self]
      exact h
    · rw [Function.update_of_ne hw, hothers w hw]
      exact hcov w

lemma covered_apply_iff (hcov : Covered m) (hm : Bounded m) (h : m.apply op = .ok m') :
    Covered m' ↔ LeavesDelegations m op := by
  have hstake := StakingManager.getStake_apply h
  have hdelegated := StakingManager.delegated_apply h
  have hsame : (∀ p : α × α, m'.delegated p.1 p.2 = m.delegated p.1 p.2) →
      ∀ w, delegatedTo m' w = delegatedTo m w :=
    fun heq w => delegatedTo_congr fun d => heq (d, w)
  cases op with
  | stakeTokens v a | rewardValidator v a =>
    rw [covered_iff_at hcov hstake fun w _ => hsame hdelegated w, hsame hdelegated]
    exact iff_of_true ((hcov v).trans (le_min (Nat.le_add_right ..) (hm v))) trivial
  | stakingEpochUpdate =>
    refine iff_of_true (fun w => ?_) trivial
    rw [hstake, hsame hdelegated]
    exact hcov w
  | unstakeTokens v a | slashValidator v a =>
    rw [covered_iff_at hcov hstake fun w _ => hsame hdelegated w, hsame hdelegated]
    rfl
  | delegateStake d v a =>
    have hsum := delegatedTo_of_update hdelegated
    have hle := delegated_le_delegatedTo m d v
    have hv := hcov v
    rw [covered_iff_at hcov hstake fun w hw => by simpa [hw.symm] using hsum w, LeavesDelegations]
    replace hsum := hsum v
    rw [if_pos rfl, if_pos rfl] at hsum
    unfold satAdd256 at *
    omega
  | undelegateStake d v a =>
    obtain ⟨-, epoch, -, -, left, hleft, hle, -⟩ := StakingManager.undelegateStake_ok.1 h
    replace hle : a ≤ m.delegated d v := by
      rwa [StakingManager.delegated, hleft, Option.getD_some]
    have hsum := delegatedTo_of_update hdelegated
    have hv := hcov v
    refine iff_of_true ((covered_iff_at hcov hstake fun w hw => ?_).2 ?_) trivial
    · simpa [hw.symm] using hsum w
    · replace hsum := hsum v
      rw [if_pos rfl, if_pos rfl] at hsum
      omega

lemma exists_undelegateStake (hcov : Covered m) {epoch : ℕ}
    (hepoch : m.delegationEpochs.lookup (d, v) = some epoch)
    (hmature : satAdd64 epoch m.lockupEpochs ≤ m.currentEpoch) (hpos : m.delegated d v ≠ 0) :
    ∃ m', m.apply (.undelegateStake d v (m.delegated d v)) = .ok m' := by
  have hstake : m.delegated d v ≤ m.getStake v := (delegated_le_delegatedTo m d v).trans (hcov v)
  cases hleft : m.delegations.lookup (d, v) with
  | none =>
    rw [StakingManager.delegated, hleft] at hpos
    exact absurd rfl hpos
  | some left =>
    cases hentry : m.stakes.lookup v with
    | none =>
      rw [StakingManager.getStake_of_none hentry] at hstake
      omega
    | some entry =>
      rw [StakingManager.getStake_eq hentry] at hstake
      have hrecorded : m.delegated d v = left := by
        rw [StakingManager.delegated, hleft, Option.getD_some]
      exact ⟨_, StakingManager.undelegateStake_ok.2 ⟨hpos, epoch, hepoch, hmature, left, hleft,
        hrecorded.le, entry, hentry, hstake, rfl⟩⟩

/-- The runs that keep every pool covered are those in which every operation leaves the
delegations in the pool; and while the pools are covered, every delegator whose lock-up has run
out can withdraw what is recorded. -/
theorem pools_covered_iff (hcov : Covered m₀) (hbounded : Bounded m₀) :
    (∀ history m, StakingRun (fun _ _ _ m' => Covered m') m₀ history m ↔
      StakingRun (fun _ m op _ => LeavesDelegations m op) m₀ history m) ∧
    ∀ history m, StakingRun (fun _ m op _ => LeavesDelegations m op) m₀ history m →
      Covered m ∧ ∀ d v epoch, m.delegationEpochs.lookup (d, v) = some epoch →
        satAdd64 epoch m.lockupEpochs ≤ m.currentEpoch → m.delegated d v ≠ 0 →
        ∃ m', m.apply (.undelegateStake d v (m.delegated d v)) = .ok m' := by
  have hsafe : ∀ {history m}, StakingRun (fun _ m op _ => LeavesDelegations m op) m₀ history m →
      Covered m ∧ Bounded m := fun h =>
    h.invariant (I := fun _ m => Covered m ∧ Bounded m) ⟨hcov, hbounded⟩
      fun hinv ⟨_, happly, hleaves⟩ =>
        ⟨(covered_apply_iff hinv.1 hinv.2 happly).2 hleaves, bounded_apply hinv.2 happly⟩
  refine ⟨fun history m => ⟨fun h => ?_, fun h => ?_⟩, fun history m h => ?_⟩
  · refine h.mono_of_invariant (I := fun _ m => Covered m ∧ Bounded m) ⟨hcov, hbounded⟩ ?_ ?_
    · rintro history m e m' ⟨-, hm⟩ ⟨-, happly, hcov'⟩
      exact ⟨hcov', bounded_apply hm happly⟩
    · rintro history m e m' ⟨hcov, hm⟩ ⟨hepoch, happly, hcov'⟩
      exact ⟨hepoch, happly, (covered_apply_iff hcov hm happly).1 hcov'⟩
  · refine h.mono_of_invariant (I := fun _ m => Covered m ∧ Bounded m) ⟨hcov, hbounded⟩ ?_ ?_
    · rintro history m e m' ⟨hcov, hm⟩ ⟨-, happly, hleaves⟩
      exact ⟨(covered_apply_iff hcov hm happly).2 hleaves, bounded_apply hm happly⟩
    · rintro history m e m' ⟨hcov, hm⟩ ⟨hepoch, happly, hleaves⟩
      exact ⟨hepoch, happly, (covered_apply_iff hcov hm happly).2 hleaves⟩
  · have hm := (hsafe h).1
    exact ⟨hm, fun d v epoch hepoch hmature hpos => exists_undelegateStake hm hepoch hmature hpos⟩

/-! ### Totals -/

/-- What an operation pays into the pools. -/
def paidIn : StakingOp α → ℕ
  | .stakeTokens _ a | .delegateStake _ _ a | .rewardValidator _ a => a
  | _ => 0

/-- What an operation pays out of the pools. -/
def paidOut : StakingOp α → ℕ
  | .unstakeTokens _ a | .undelegateStake _ _ a => a
  | _ => 0

/-- What an operation pays back to a delegator. -/
def paidBack (d v : α) : StakingOp α → ℕ
  | .undelegateStake d' v' a => if d' = d ∧ v' = v then a else 0
  | _ => 0

/-- The pools and each delegation hold at most what was paid in and not yet out. -/
structure Funded (ops : List (StakingOp α)) (m : StakingManager α) : Prop where
  pools : ∃ held : ℕ, TotalShift (fun _ => 0) m.getStake held ∧
    held + (ops.map paidOut).sum ≤ (ops.map paidIn).sum
  delegation : ∀ d v,
    m.delegated d v + (ops.map (paidBack d v)).sum ≤ (ops.map (delegationBy d v)).sum

lemma totalShift_apply (h : m.apply op = .ok m') :
    ∃ z : ℤ, TotalShift m.getStake m'.getStake z ∧ z + paidOut op ≤ paidIn op := by
  rw [StakingManager.getStake_apply h]
  cases op with
  | stakeTokens v a | delegateStake d v a | rewardValidator v a =>
    refine ⟨_, totalShift_update m.getStake v _, ?_⟩
    simp only [paidIn, paidOut, satAdd256]
    omega
  | unstakeTokens v a =>
    have hle := StakingManager.withdrawal_le_getStake (d := v) (.inl h)
    refine ⟨_, totalShift_update m.getStake v _, ?_⟩
    simp only [paidIn, paidOut]
    omega
  | undelegateStake d v a =>
    have hle := StakingManager.withdrawal_le_getStake (.inr h)
    refine ⟨_, totalShift_update m.getStake v _, ?_⟩
    simp only [paidIn, paidOut]
    omega
  | slashValidator v a =>
    refine ⟨_, totalShift_update m.getStake v _, ?_⟩
    simp only [paidIn, paidOut]
    omega
  | stakingEpochUpdate => exact ⟨0, .refl _, by simp [paidIn, paidOut]⟩

lemma delegated_apply_le (h : m.apply op = .ok m') (d v : α) :
    m'.delegated d v + paidBack d v op ≤ m.delegated d v + delegationBy d v op := by
  rw [StakingManager.delegated_apply h (d, v)]
  cases op with
  | delegateStake d' v' a =>
    simp only [StakingManager.delegatedAfter, Function.update_apply, Prod.mk.injEq, paidBack,
      delegationBy, satAdd256]
    grind
  | undelegateStake d' v' a =>
    obtain ⟨-, epoch, -, -, left, hleft, hle, -⟩ := StakingManager.undelegateStake_ok.1 h
    have hdelegated : m.delegated d' v' = left := by
      rw [StakingManager.delegated, hleft, Option.getD_some]
    simp only [StakingManager.delegatedAfter, Function.update_apply, Prod.mk.injEq, paidBack,
      delegationBy]
    grind
  | _ => simp [StakingManager.delegatedAfter, paidBack, delegationBy]

lemma Funded.step {ops : List (StakingOp α)} (hm : Funded ops m) (h : m.apply op = .ok m') :
    Funded (ops ++ [op]) m' := by
  constructor
  · obtain ⟨held, hshift, hle⟩ := hm.pools
    obtain ⟨z, hz, hzle⟩ := totalShift_apply h
    have htotal := hshift.trans hz
    obtain ⟨S, -, hsum⟩ := id htotal
    -- a sum of stakes is not negative
    have hpos : 0 ≤ (held : ℤ) + z := by
      have hnonneg : 0 ≤ ∑ v ∈ S, (m'.getStake v : ℤ) := Finset.sum_nonneg fun v _ => by positivity
      simpa [hsum] using hnonneg
    obtain ⟨held', heq⟩ := Int.eq_ofNat_of_zero_le hpos
    refine ⟨held', heq ▸ htotal, ?_⟩
    simp only [List.map_append, List.map_cons, List.map_nil, List.sum_append, List.sum_singleton]
    omega
  · intro d v
    have hle := hm.delegation d v
    have hstep := delegated_apply_le h d v
    simp only [List.map_append, List.map_cons, List.map_nil, List.sum_append, List.sum_singleton]
    omega

lemma funded_new : Funded [] (.new : StakingManager α) :=
  ⟨⟨0, .refl _, le_rfl⟩, fun _ _ => le_rfl⟩

/-- In every run from the empty ledger, what was paid out of the pools and what they still hold is
at most what was staked, delegated and rewarded, and no delegator gets back more than it has
delegated. -/
theorem stakes_funded {allowed : List (ℕ × StakingOp α) → StakingManager α → StakingOp α →
    StakingManager α → Prop} {history : List (ℕ × StakingOp α)}
    (hrun : StakingRun allowed .new history m) : Funded (history.map Prod.snd) m :=
  hrun.invariant (I := fun history m => Funded (history.map Prod.snd) m) funded_new
    fun hm ⟨_, happly, _⟩ => by
      rw [List.map_append]
      exact hm.step happly

/-! ### Instances -/

def applyAll (m : StakingManager α) (ops : List (StakingOp α)) :
    Except (StakingError α) (StakingManager α) := ops.foldlM StakingManager.apply m

def staked : List (StakingOp ℕ) :=
  [.stakeTokens 1 10000, .delegateStake 2 1 5000] ++ List.replicate 7 .stakingEpochUpdate

def poolOf (ops : List (StakingOp ℕ)) : Except (StakingError ℕ) (ℕ × ℕ) :=
  (applyAll .new ops).map fun m => (m.getStake 1, delegatedTo m 1)

/-- Account 1 takes 12000 out of a pool of 15000 in which 5000 are a delegation, which cannot be
withdrawn any more. A slash of 12000 does the same. -/
theorem delegation_not_covered : poolOf staked = .ok (15000, 5000) ∧
    poolOf (staked ++ [.unstakeTokens 1 12000]) = .ok (3000, 5000) ∧
    poolOf (staked ++ [.slashValidator 1 12000]) = .ok (3000, 5000) ∧
    poolOf (staked ++ [.unstakeTokens 1 12000, .undelegateStake 2 1 5000]) =
      .error (.insufficientStake 1) := by
  decide +kernel

lemma covered_new : Covered (.new : StakingManager α) := fun _ => Nat.zero_le _

lemma bounded_new : Bounded (.new : StakingManager α) := fun _ => Nat.zero_le _

/-- After a stake and a delegation the pool is covered. -/
theorem pools_covered_staked :
    ∃ m, StakingRun (fun _ _ _ m' => Covered m') (.new : StakingManager ℕ)
      [(0, .stakeTokens 1 10000), (0, .delegateStake 2 1 5000)] m ∧ m.getStake 1 = 15000 := by
  refine ⟨_, ((pools_covered_iff covered_new bounded_new).1 _ _).2
    (.snoc (.snoc .start ⟨rfl, rfl, trivial⟩) ⟨rfl, rfl, ?_⟩), ?_⟩
  · change delegatedTo _ 1 - StakingManager.delegated _ 2 1 +
      satAdd256 (StakingManager.delegated _ 2 1) 5000 ≤ u256Max
    decide +kernel
  · decide +kernel

/-- The stake and the delegation are in the pool. -/
theorem stakes_funded_delegation : ∃ m, Funded [.stakeTokens 1 10000, .delegateStake 2 1 5000] m ∧
    (m : StakingManager ℕ).getStake 1 = 15000 := by
  have hrun : ∃ m, StakingRun (fun _ _ _ _ => True) (.new : StakingManager ℕ)
      [(0, .stakeTokens 1 10000), (0, .delegateStake 2 1 5000)] m ∧ m.getStake 1 = 15000 :=
    ⟨_, .snoc (.snoc .start ⟨rfl, rfl, trivial⟩) ⟨rfl, rfl, trivial⟩, by decide +kernel⟩
  obtain ⟨m, hrun, hstake⟩ := hrun
  exact ⟨m, stakes_funded hrun, hstake⟩

end Sxiaum.Pos
