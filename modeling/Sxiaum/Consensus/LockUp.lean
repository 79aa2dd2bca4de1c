import Sxiaum.Consensus.StakePools

/-!
# The lock-up of deposits

Every token has to stay for the lock-up period. A pool keeps one epoch for the validator's own
deposits and one for each delegator, and a delegation does not move the validator's epoch: once
the own deposits have matured, the validator can take out a delegation that came in just now. With
a ledger of all deposits beside the manager, the law is that what has been withdrawn from a pool
is never more than the deposits that have matured and the rewards. It is kept exactly if every
withdrawal leaves in the pool what has not matured, and the epochs that the manager records see to
that as long as validators leave the delegations in their pools.
-/

namespace Sxiaum.Pos

open Pos.StakingManager

variable {α : Type} [DecidableEq α] {m m' m₀ : StakingManager α} {op : StakingOp α} {v d : α}
  {a : ℕ} {history : List (ℕ × StakingOp α)}

/-! ### The ledger of a pool -/

/-- What an operation brings into a pool, rewards apart. -/
def depositTo (v : α) : StakingOp α → ℕ
  | .stakeTokens w a | .delegateStake _ w a => if w = v then a else 0
  | _ => 0

/-- What an operation takes out of a pool, slashes apart. -/
def withdrawalFrom (v : α) : StakingOp α → ℕ
  | .unstakeTokens w a | .undelegateStake _ w a => if w = v then a else 0
  | _ => 0

def rewardTo (v : α) : StakingOp α → ℕ
  | .rewardValidator w a => if w = v then a else 0
  | _ => 0

def totalOf (amount : StakingOp α → ℕ) (history : List (ℕ × StakingOp α)) : ℕ :=
  (history.map fun e => amount e.2).sum

def matured (lockup now : ℕ) (history : List (ℕ × StakingOp α)) : List (ℕ × StakingOp α) :=
  history.filter fun e => e.1 + lockup ≤ now

def fresh (lockup now : ℕ) (history : List (ℕ × StakingOp α)) : List (ℕ × StakingOp α) :=
  history.filter fun e => now < e.1 + lockup

/-- What has been withdrawn from a pool had been deposited for long enough or is a reward. -/
def LockUpKept (history : List (ℕ × StakingOp α)) (m : StakingManager α) : Prop :=
  ∀ v, totalOf (withdrawalFrom v) history ≤
    totalOf (depositTo v) (matured m.lockupEpochs m.currentEpoch history) +
      totalOf (rewardTo v) history

/-- A withdrawal leaves in the pool what has not matured. -/
def LeavesFresh (history : List (ℕ × StakingOp α)) (m : StakingManager α) : StakingOp α → Prop
  | .unstakeTokens v a | .undelegateStake _ v a =>
    a + totalOf (depositTo v) (fresh m.lockupEpochs m.currentEpoch history) ≤ m.getStake v
  | _ => True

/-- Nothing is slashed and nothing is cut off at the largest amount. -/
def Lossless (m : StakingManager α) : StakingOp α → Prop
  | .stakeTokens v a | .delegateStake _ v a | .rewardValidator v a => m.getStake v + a ≤ u256Max
  | .slashValidator _ _ => False
  | _ => True

/-- The one withdrawal rule for both kinds of withdrawals. -/
lemma leavesFresh_of_withdrawal (hleaves : LeavesFresh history m op)
    (hne : withdrawalFrom v op ≠ 0) :
    withdrawalFrom v op + totalOf (depositTo v) (fresh m.lockupEpochs m.currentEpoch history) ≤
      m.getStake v := by
  have hpool : ∀ w a, a + totalOf (depositTo w) (fresh m.lockupEpochs m.currentEpoch history) ≤
      m.getStake w → (if w = v then a else 0) ≠ 0 →
      (if w = v then a else 0) +
        totalOf (depositTo v) (fresh m.lockupEpochs m.currentEpoch history) ≤ m.getStake v := by
    intro w a hle hne
    by_cases hw : w = v
    · subst hw
      rwa [if_pos rfl]
    · rw [if_neg hw] at hne
      exact absurd rfl hne
  cases op with
  | unstakeTokens w a | undelegateStake d w a => exact hpool w a hleaves hne
  | _ => exact absurd rfl hne

section Totals

omit [DecidableEq α]

variable (amount : StakingOp α → ℕ) (lockup : ℕ) {now now' : ℕ}

lemma totalOf_le_of_sublist {part whole : List (ℕ × StakingOp α)} (h : part.Sublist whole) :
    totalOf amount part ≤ totalOf amount whole :=
  (h.map _).sum_le_sum fun _ _ => Nat.zero_le _

lemma totalOf_fresh_eq_zero {lockup : ℕ} (h : ∀ e ∈ history, amount e.2 ≠ 0 → e.1 + lockup ≤ now) :
    totalOf amount (fresh lockup now history) = 0 := by
  rw [totalOf, List.sum_eq_zero_iff]
  intro x hx
  obtain ⟨e, he, rfl⟩ := List.mem_map.1 hx
  obtain ⟨hmem, hfresh⟩ := List.mem_filter.1 he
  by_contra hne
  exact absurd (h e hmem hne) (by simpa using hfresh)

variable (history) (e : ℕ × StakingOp α)

lemma totalOf_snoc : totalOf amount (history ++ [e]) = totalOf amount history + amount e.2 := by
  simp [totalOf]

lemma totalOf_matured_add_fresh (now : ℕ) :
    totalOf amount (matured lockup now history) + totalOf amount (fresh lockup now history) =
      totalOf amount history := by
  have hperm := List.filter_append_perm (fun e : ℕ × StakingOp α => e.1 + lockup ≤ now) history
  have hsum := (hperm.map fun e => amount e.2).sum_eq
  rw [List.map_append, List.sum_append] at hsum
  simpa only [totalOf, matured, fresh, ← not_le, decide_not] using hsum

lemma totalOf_matured_le (hnow : now ≤ now') :
    totalOf amount (matured lockup now history) ≤
      totalOf amount (matured lockup now' (history ++ [e])) := by
  apply totalOf_le_of_sublist
  unfold matured
  rw [List.filter_append]
  refine List.Sublist.trans ?_ (List.sublist_append_left _ _)
  refine List.monotone_filter_right history fun x hx => ?_
  simp only [decide_eq_true_eq] at hx ⊢
  exact hx.trans hnow

lemma totalOf_matured_snoc_le (now : ℕ) :
    totalOf amount (matured lockup now (history ++ [e])) ≤
      totalOf amount (matured lockup now history) + amount e.2 := by
  rw [← totalOf_snoc]
  apply totalOf_le_of_sublist
  unfold matured
  rw [List.filter_append]
  exact (List.Sublist.refl _).append List.filter_sublist

lemma totalOf_fresh_le (hnow : now ≤ now') :
    totalOf amount (fresh lockup now' (history ++ [e])) ≤
      totalOf amount (fresh lockup now history) + amount e.2 := by
  rw [← totalOf_snoc]
  apply totalOf_le_of_sublist
  unfold fresh
  rw [List.filter_append]
  refine List.Sublist.append (List.monotone_filter_right history fun x hx => ?_)
    List.filter_sublist
  simp only [decide_eq_true_eq] at hx ⊢
  exact hnow.trans_lt hx

end Totals

/-! ### One step -/

/-- A pool has at most what has come in and not gone out. -/
def PoolBounded (history : List (ℕ × StakingOp α)) (m : StakingManager α) : Prop :=
  ∀ v, m.getStake v + totalOf (withdrawalFrom v) history ≤
    totalOf (depositTo v) history + totalOf (rewardTo v) history

/-- A pool has what has come in and not gone out. -/
def PoolExact (history : List (ℕ × StakingOp α)) (m : StakingManager α) : Prop :=
  ∀ v, m.getStake v + totalOf (withdrawalFrom v) history =
    totalOf (depositTo v) history + totalOf (rewardTo v) history

/-- What a step does to one pool, next to what it adds to the ledger. Without losses the two are
equal. -/
lemma getStake_step (h : m.apply op = .ok m') (v : α) :
    m'.getStake v + withdrawalFrom v op ≤ m.getStake v + depositTo v op + rewardTo v op ∧
      (Lossless m op → m'.getStake v + withdrawalFrom v op =
        m.getStake v + depositTo v op + rewardTo v op) := by
  have hpool : ∀ w x, Function.update m.getStake w x v = if w = v then x else m.getStake v := by
    intro w x
    rw [Function.update_apply]
    simp only [eq_comm]
  have hdebit : ∀ w a, a ≤ m.getStake w → (if w = v then a else 0) ≤ m.getStake v := by
    intro w a hle
    split_ifs with hw
    · exact hw ▸ hle
    · exact Nat.zero_le _
  have hle : withdrawalFrom v op ≤ m.getStake v := by
    cases op with
    | unstakeTokens w a => exact hdebit w a (withdrawal_le_getStake (d := w) (.inl h))
    | undelegateStake d w a => exact hdebit w a (withdrawal_le_getStake (.inr h))
    | _ => exact Nat.zero_le _
  rw [getStake_apply h]
  cases op with
  | stakingEpochUpdate => exact ⟨le_rfl, fun _ => rfl⟩
  | _ =>
    simp only [stakeAfter, withdrawalFrom, depositTo, rewardTo, hpool, satAdd256, Lossless,
      false_imp_iff, and_true] at hle ⊢
    split_ifs at hle ⊢ with hw <;> (try subst hw) <;> omega

lemma PoolBounded.step (hpool : PoolBounded history m) (h : m.apply op = .ok m') (epoch : ℕ) :
    PoolBounded (history ++ [(epoch, op)]) m' := by
  intro v
  have hstep := (getStake_step h v).1
  have hv := hpool v
  rw [totalOf_snoc, totalOf_snoc, totalOf_snoc]
  dsimp only
  omega

lemma PoolExact.step (hpool : PoolExact history m) (h : m.apply op = .ok m')
    (hlossless : Lossless m op) (epoch : ℕ) : PoolExact (history ++ [(epoch, op)]) m' := by
  intro v
  have hstep := (getStake_step h v).2 hlossless
  have hv := hpool v
  rw [totalOf_snoc, totalOf_snoc, totalOf_snoc]
  dsimp only
  omega

lemma lockUpKept_step (hkept : LockUpKept history m) (hpool : PoolBounded history m)
    (hnow : m.currentEpoch ≤ u64Max) (h : m.apply op = .ok m') (hleaves : LeavesFresh history m op) :
    LockUpKept (history ++ [(m.currentEpoch, op)]) m' := by
  intro v
  have hmatured := totalOf_matured_le history (depositTo v) m.lockupEpochs (m.currentEpoch, op)
    (le_epochAfter hnow op)
  rw [totalOf_snoc, totalOf_snoc, lockupEpochs_apply h, currentEpoch_apply h]
  dsimp only
  have hv := hkept v
  by_cases hzero : withdrawalFrom v op = 0
  · omega
  · have hsplit := totalOf_matured_add_fresh history (depositTo v) m.lockupEpochs m.currentEpoch
    have hroom := leavesFresh_of_withdrawal hleaves hzero
    have hbound := hpool v
    omega

/-- Where the pool is exact, the lock-up is kept only so. -/
lemma leavesFresh_of_kept (hpool : PoolExact history m) (h : m.apply op = .ok m')
    (hkept : LockUpKept (history ++ [(m.currentEpoch, op)]) m') : LeavesFresh history m op := by
  have hroom : ∀ v a, withdrawalFrom v op = a → depositTo v op = 0 → rewardTo v op = 0 →
      m.epochAfter op = m.currentEpoch →
      a + totalOf (depositTo v) (fresh m.lockupEpochs m.currentEpoch history) ≤ m.getStake v := by
    intro v a hwithdrawal hdeposit hreward hepoch
    have hv := hkept v
    have hsplit := totalOf_matured_add_fresh history (depositTo v) m.lockupEpochs m.currentEpoch
    have hexact := hpool v
    have hlast := totalOf_matured_snoc_le history (depositTo v) m.lockupEpochs
      (m.currentEpoch, op) m.currentEpoch
    rw [totalOf_snoc, totalOf_snoc, lockupEpochs_apply h, currentEpoch_apply h, hepoch] at hv
    dsimp only at hv hlast
    omega
  cases op with
  | unstakeTokens v a | undelegateStake d v a => exact hroom v a (if_pos rfl) rfl rfl rfl
  | _ => trivial

/-! ### The epochs on record -/

/-- What the validator withdraws is not delegated, and the count of epochs has not ended. -/
def TakesOwn (m : StakingManager α) : StakingOp α → Prop
  | .unstakeTokens v a => delegatedTo m v ≤ m.getStake v - a ∧ m.currentEpoch < u64Max
  | .undelegateStake _ _ _ => m.currentEpoch < u64Max
  | _ => True

def freshOf (amount : StakingOp α → ℕ) (history : List (ℕ × StakingOp α)) (m : StakingManager α) :
    ℕ :=
  totalOf amount (fresh m.lockupEpochs m.currentEpoch history)

/-- The recorded epochs are those of the last deposits, and the pool has what is fresh in it. -/
structure Aged (history : List (ℕ × StakingOp α)) (m : StakingManager α) : Prop where
  past : ∀ e ∈ history, e.1 ≤ m.currentEpoch
  own : ∀ v epoch, m.depositEpochs.lookup v = some epoch →
    ∀ e ∈ history, ownDeposit v e.2 ≠ 0 → e.1 ≤ epoch
  delegations : ∀ d v epoch, m.delegationEpochs.lookup (d, v) = some epoch →
    ∀ e ∈ history, delegationBy d v e.2 ≠ 0 → e.1 ≤ epoch
  pool : ∀ v, freshOf (ownDeposit v) history m + delegatedTo m v ≤ m.getStake v
  share : ∀ d v, freshOf (delegationBy d v) history m ≤ m.delegated d v

lemma depositTo_le {S : Finset α} (hS : ∀ d, delegationBy d v op ≠ 0 → d ∈ S) :
    depositTo v op ≤ ownDeposit v op + ∑ d ∈ S, delegationBy d v op := by
  cases op with
  | delegateStake d w a =>
    change (if w = v then a else 0) ≤ 0 + ∑ d' ∈ S, if d = d' ∧ w = v then a else 0
    by_cases hw : w = v
    · subst hw
      by_cases ha : a = 0
      · simp [ha]
      · have hd : d ∈ S := hS d (by simpa [delegationBy] using ha)
        simp [hd]
    · simp [hw]
  | stakeTokens w a => exact Nat.le_add_right ..
  | _ => exact Nat.zero_le _

lemma totalOf_depositTo_le {S : Finset α} {history : List (ℕ × StakingOp α)}
    (hS : ∀ e ∈ history, ∀ d, delegationBy d v e.2 ≠ 0 → d ∈ S) :
    totalOf (depositTo v) history ≤
      totalOf (ownDeposit v) history + ∑ d ∈ S, totalOf (delegationBy d v) history := by
  induction history with
  | nil => exact Nat.zero_le _
  | cons e history ih =>
    have hrest := ih fun e' he' => hS e' (List.mem_cons_of_mem _ he')
    have hfirst : depositTo v e.2 ≤ _ := depositTo_le (hS e List.mem_cons_self)
    simp only [totalOf, List.map_cons, List.sum_cons, Finset.sum_add_distrib] at *
    omega

lemma freshOf_step (history : List (ℕ × StakingOp α)) (amount : StakingOp α → ℕ)
    (hnow : m.currentEpoch ≤ u64Max) (h : m.apply op = .ok m') :
    freshOf amount (history ++ [(m.currentEpoch, op)]) m' ≤
      freshOf amount history m + amount op := by
  unfold freshOf
  rw [lockupEpochs_apply h, currentEpoch_apply h]
  exact totalOf_fresh_le history amount _ _ (le_epochAfter hnow op)

omit [DecidableEq α] in
lemma freshOf_eq_zero {amount : StakingOp α → ℕ} {epoch : ℕ}
    (hlast : ∀ e ∈ history, amount e.2 ≠ 0 → e.1 ≤ epoch)
    (hmature : satAdd64 epoch m.lockupEpochs ≤ m.currentEpoch) (hnow : m.currentEpoch < u64Max) :
    freshOf amount history m = 0 := by
  refine totalOf_fresh_eq_zero _ fun e he hne => ?_
  have hle := hlast e he hne
  unfold satAdd64 at hmature
  omega

namespace Aged

variable (haged : Aged history m)

include haged

lemma freshOf_depositTo_le (v : α) :
    freshOf (depositTo v) history m ≤ freshOf (ownDeposit v) history m +
      ∑ d ∈ (m.delegations.keys.map Prod.fst).toFinset, freshOf (delegationBy d v) history m := by
  refine totalOf_depositTo_le fun e he d hne => mem_delegators (v := v) ?_
  have hone : delegationBy d v e.2 ≤ freshOf (delegationBy d v) history m :=
    List.le_sum_of_mem (List.mem_map.2 ⟨e, he, rfl⟩)
  have hshare := haged.share d v
  omega

lemma own_matured {epoch : ℕ} (hrecord : m.depositEpochs.lookup v = some epoch)
    (hmature : satAdd64 epoch m.lockupEpochs ≤ m.currentEpoch) (hnow : m.currentEpoch < u64Max) :
    freshOf (ownDeposit v) history m = 0 :=
  freshOf_eq_zero (haged.own v epoch hrecord) hmature hnow

lemma share_matured {epoch : ℕ} (hrecord : m.delegationEpochs.lookup (d, v) = some epoch)
    (hmature : satAdd64 epoch m.lockupEpochs ≤ m.currentEpoch) (hnow : m.currentEpoch < u64Max) :
    freshOf (delegationBy d v) history m = 0 :=
  freshOf_eq_zero (haged.delegations d v epoch hrecord) hmature hnow

lemma leavesFresh (h : m.apply op = .ok m') (htakes : TakesOwn m op) :
    LeavesFresh history m op := by
  cases op with
  | unstakeTokens v a =>
    obtain ⟨hleft, hnow⟩ := htakes
    have hpool := withdrawal_le_getStake (d := v) (.inl h)
    obtain ⟨-, epoch, hrecord, hmature, -⟩ := unstakeTokens_ok.1 h
    have hown := haged.own_matured hrecord hmature hnow
    have hdeposits := haged.freshOf_depositTo_le v
    have hshares : ∑ d ∈ (m.delegations.keys.map Prod.fst).toFinset,
        freshOf (delegationBy d v) history m ≤ delegatedTo m v :=
      Finset.sum_le_sum fun d _ => haged.share d v
    change a + freshOf (depositTo v) history m ≤ m.getStake v
    omega
  | undelegateStake d v a =>
    obtain ⟨hne, epoch, hrecord, hmature, left, hleft, hle, -⟩ :=
      undelegateStake_ok.1 h
    have hdelegated : m.delegated d v = left := by
      rw [delegated, hleft, Option.getD_some]
    have hzero := haged.share_matured hrecord hmature htakes
    have hmem : d ∈ (m.delegations.keys.map Prod.fst).toFinset :=
      mem_delegators (v := v) (by omega)
    have hdeposits := haged.freshOf_depositTo_le v
    have hpool := haged.pool v
    have hothers : ∑ d' ∈ (m.delegations.keys.map Prod.fst).toFinset.erase d,
        freshOf (delegationBy d' v) history m ≤
        ∑ d' ∈ (m.delegations.keys.map Prod.fst).toFinset.erase d, m.delegated d' v :=
      Finset.sum_le_sum fun d' _ => haged.share d' v
    have hsum := Finset.add_sum_erase _ (fun d' => freshOf (delegationBy d' v) history m) hmem
    have hall : m.delegated d v + _ = delegatedTo m v :=
      Finset.add_sum_erase _ (fun d' => m.delegated d' v) hmem
    change a + freshOf (depositTo v) history m ≤ m.getStake v
    omega
  | _ => trivial

/-- An epoch on record that is new, or that was there before an operation which brought nothing
in, is not before the last deposit. -/
lemma last_step {amount : StakingOp α → ℕ} {epoch : ℕ} {was : Prop}
    (hrecord : epoch = m.currentEpoch ∨ was ∧ ¬ amount op ≠ 0)
    (hwas : was → ∀ e ∈ history, amount e.2 ≠ 0 → e.1 ≤ epoch) :
    ∀ e ∈ history ++ [(m.currentEpoch, op)], amount e.2 ≠ 0 → e.1 ≤ epoch := by
  rw [List.forall_mem_append, List.forall_mem_singleton]
  rcases hrecord with rfl | ⟨hbefore, hzero⟩
  · exact ⟨fun e he _ => haged.past e he, fun _ => le_rfl⟩
  · exact ⟨hwas hbefore, fun hne => absurd hne hzero⟩

variable (hnow : m.currentEpoch ≤ u64Max) (h : m.apply op = .ok m') (hlossless : Lossless m op)
  (htakes : TakesOwn m op)

include hnow h hlossless htakes

lemma pool_step (v : α) :
    freshOf (ownDeposit v) (history ++ [(m.currentEpoch, op)]) m' + delegatedTo m' v ≤
      m'.getStake v := by
  have hfresh := freshOf_step history (ownDeposit v) hnow h
  have hstake := (getStake_step h v).2 hlossless
  have hdelegated := delegated_apply h
  have hpool := haged.pool v
  cases op with
  | delegateStake d w a =>
    have hsum := delegatedTo_of_update hdelegated v
    have hle : satAdd256 (m.delegated d w) a ≤ m.delegated d w + a := Nat.min_le_left ..
    simp only [withdrawalFrom, depositTo, rewardTo, ownDeposit] at hstake hfresh
    split_ifs at hstake hsum <;> omega
  | undelegateStake d w a =>
    obtain ⟨-, epoch, -, -, left, hleft, hle, -⟩ := undelegateStake_ok.1 h
    have hsum := delegatedTo_of_update hdelegated v
    have hrecord : m.delegated d w = left := by
      rw [delegated, hleft, Option.getD_some]
    simp only [withdrawalFrom, depositTo, rewardTo, ownDeposit] at hstake hfresh
    split_ifs at hstake hsum <;> omega
  | unstakeTokens w a =>
    rw [delegatedTo_congr fun d => hdelegated (d, v)]
    simp only [withdrawalFrom, depositTo, rewardTo, ownDeposit] at hstake hfresh
    split_ifs at hstake with hw
    · subst hw
      -- the validator may withdraw, so nothing of its own is fresh, and the delegations stay
      obtain ⟨-, epoch, hrecord, hmature, -⟩ := unstakeTokens_ok.1 h
      have hzero := haged.own_matured hrecord hmature htakes.2
      have hleft := htakes.1
      omega
    · omega
  | slashValidator w a => exact hlossless.elim
  | _ =>
    rw [delegatedTo_congr fun d => hdelegated (d, v)]
    simp only [withdrawalFrom, depositTo, rewardTo, ownDeposit] at hstake hfresh
    omega

lemma share_step (d v : α) :
    freshOf (delegationBy d v) (history ++ [(m.currentEpoch, op)]) m' ≤ m'.delegated d v := by
  have hfresh := freshOf_step history (delegationBy d v) hnow h
  have hshare := haged.share d v
  have hdelegated := delegated_apply h (d, v)
  have hsame : delegationBy d v op = 0 → m'.delegated d v = m.delegated d v →
      freshOf (delegationBy d v) (history ++ [(m.currentEpoch, op)]) m' ≤ m'.delegated d v := by
    intro hzero heq
    omega
  cases op with
  | delegateStake d' w a =>
    change m'.delegated d v = Function.update (fun p => m.delegated p.1 p.2) (d', w) _ (d, v)
      at hdelegated
    by_cases hp : (d, v) = (d', w)
    · obtain ⟨rfl, rfl⟩ := Prod.mk.inj hp
      rw [Function.update_self] at hdelegated
      have hle := (delegated_le_delegatedTo m d v).trans (Nat.le_of_add_left_le (haged.pool v))
      have hroom : m.getStake v + a ≤ u256Max := hlossless
      have hexact : satAdd256 (m.delegated d v) a = m.delegated d v + a :=
        Nat.min_eq_left (by omega)
      rw [delegationBy, if_pos ⟨rfl, rfl⟩] at hfresh
      omega
    · rw [Function.update_of_ne hp] at hdelegated
      refine hsame (if_neg ?_) hdelegated
      rintro ⟨rfl, rfl⟩
      exact hp rfl
  | undelegateStake d' w a =>
    change m'.delegated d v = Function.update (fun p => m.delegated p.1 p.2) (d', w) _ (d, v)
      at hdelegated
    by_cases hp : (d, v) = (d', w)
    · obtain ⟨rfl, rfl⟩ := Prod.mk.inj hp
      obtain ⟨-, epoch, hrecord, hmature, -⟩ := undelegateStake_ok.1 h
      -- the check of the epoch lets only matured delegations out
      have hzero := haged.share_matured hrecord hmature htakes
      change _ ≤ freshOf (delegationBy d v) history m + 0 at hfresh
      omega
    · rw [Function.update_of_ne hp] at hdelegated
      exact hsame rfl hdelegated
  | slashValidator w a => exact hlossless.elim
  | stakeTokens w a | unstakeTokens w a | rewardValidator w a | stakingEpochUpdate =>
    exact hsame rfl hdelegated

lemma step : Aged (history ++ [(m.currentEpoch, op)]) m' where
  past e he := by
    rw [currentEpoch_apply h]
    refine le_trans ?_ (le_epochAfter hnow op)
    rcases List.mem_append.1 he with he | he
    · exact haged.past e he
    · rw [List.mem_singleton.1 he]
  own v epoch hrecord :=
    haged.last_step ((stakes_change h).epoch_of hrecord) (haged.own v epoch)
  delegations d v epoch hrecord :=
    haged.last_step ((delegations_change h).epoch_of hrecord) (haged.delegations d v epoch)
  pool := haged.pool_step hnow h hlossless htakes
  share := haged.share_step hnow h hlossless htakes

end Aged

/-! ### Runs -/

structure Unstaked (m : StakingManager α) : Prop where
  stakes : ∀ v, m.getStake v = 0
  delegations : ∀ d v, m.delegated d v = 0
  epoch : m.currentEpoch ≤ u64Max

namespace Unstaked

lemma poolExact (hm : Unstaked m) : PoolExact [] m := fun v => hm.stakes v

lemma poolBounded (hm : Unstaked m) : PoolBounded [] m := fun v => (hm.stakes v).le

lemma lockUpKept (m : StakingManager α) : LockUpKept [] m := fun _ => Nat.zero_le _

lemma aged (hm : Unstaked m) : Aged [] m where
  past := by simp
  own := by simp
  delegations := by simp
  pool v := by
    have hzero : delegatedTo m v = 0 := Finset.sum_eq_zero fun d _ => hm.delegations d v
    rw [hzero]
    exact Nat.zero_le _
  share _ _ := Nat.zero_le _

end Unstaked

lemma currentEpoch_le_apply (hnow : m.currentEpoch ≤ u64Max) (h : m.apply op = .ok m') :
    m'.currentEpoch ≤ u64Max := by
  rw [currentEpoch_apply h]
  exact epochAfter_le hnow op

/-- What a run in which the withdrawals leave what is fresh keeps. -/
def LockedUp (history : List (ℕ × StakingOp α)) (m : StakingManager α) : Prop :=
  m.currentEpoch ≤ u64Max ∧ PoolBounded history m ∧ LockUpKept history m

lemma Unstaked.lockedUp (hm : Unstaked m) : LockedUp [] m :=
  ⟨hm.epoch, hm.poolBounded, Unstaked.lockUpKept m⟩

lemma LockedUp.step (hlocked : LockedUp history m) (h : m.apply op = .ok m')
    (hleaves : LeavesFresh history m op) : LockedUp (history ++ [(m.currentEpoch, op)]) m' :=
  ⟨currentEpoch_le_apply hlocked.1 h, hlocked.2.1.step h _,
    lockUpKept_step hlocked.2.2 hlocked.2.1 hlocked.1 h hleaves⟩

/-- What has been withdrawn from a pool had matured or is a reward, in every run in which the
withdrawals leave in the pool what is fresh. If nothing is slashed or cut off, these are all the
runs that keep the lock-up; and they have all runs in which validators leave the delegations in
their pools. -/
theorem lock_up_kept_iff (hm : Unstaked m₀) :
    (∀ history m, StakingRun (fun history m op _ => LeavesFresh history m op) m₀ history m →
      LockUpKept history m) ∧
    (∀ history m, StakingRun (fun history m op m' => Lossless m op ∧
        LockUpKept (history ++ [(m.currentEpoch, op)]) m') m₀ history m ↔
      StakingRun (fun history m op _ => Lossless m op ∧ LeavesFresh history m op)
        m₀ history m) ∧
    ∀ history m, StakingRun (fun _ m op _ => Lossless m op ∧ TakesOwn m op) m₀ history m →
      LockUpKept history m := by
  have hsafe : ∀ {history m},
      StakingRun (fun history m op _ => LeavesFresh history m op) m₀ history m →
      LockUpKept history m := by
    intro history m hrun
    refine (hrun.invariant (I := LockedUp) hm.lockedUp ?_).2.2
    rintro history m ⟨epoch, op⟩ m' hlocked ⟨rfl, happly, hleaves⟩
    exact hlocked.step happly hleaves
  refine ⟨fun _ _ => hsafe, fun history m => ⟨fun h => ?_, fun h => ?_⟩, fun history m h => ?_⟩
  · refine h.mono_of_invariant (I := PoolExact) hm.poolExact ?_ ?_
    · rintro history m ⟨epoch, op⟩ m' hpool ⟨-, happly, hlossless, -⟩
      exact hpool.step happly hlossless _
    · rintro history m ⟨epoch, op⟩ m' hpool ⟨hepoch, happly, hlossless, hkept⟩
      exact ⟨hepoch, happly, hlossless, leavesFresh_of_kept hpool happly hkept⟩
  · refine h.mono_of_invariant (I := LockedUp) hm.lockedUp ?_ ?_
    · rintro history m ⟨epoch, op⟩ m' hlocked ⟨rfl, happly, -, hleaves⟩
      exact hlocked.step happly hleaves
    · rintro history m ⟨epoch, op⟩ m' hlocked ⟨hepoch, happly, hlossless, hleaves⟩
      exact ⟨hepoch, happly, hlossless, (hlocked.step happly hleaves).2.2⟩
  · apply hsafe
    refine h.mono_of_invariant (I := fun history m => m.currentEpoch ≤ u64Max ∧ Aged history m)
      ⟨hm.epoch, hm.aged⟩ ?_ ?_
    · rintro history m ⟨epoch, op⟩ m' ⟨hnow, haged⟩ ⟨rfl, happly, hlossless, htakes⟩
      exact ⟨currentEpoch_le_apply hnow happly, haged.step hnow happly hlossless htakes⟩
    · rintro history m ⟨epoch, op⟩ m' ⟨-, haged⟩ ⟨hepoch, happly, -, htakes⟩
      exact ⟨hepoch, happly, haged.leavesFresh happly htakes⟩

/-! ### Instances -/

def timed (m : StakingManager α) : List (StakingOp α) → List (ℕ × StakingOp α)
  | [] => []
  | op :: ops =>
    match m.apply op with
    | .ok m' => (m.currentEpoch, op) :: timed m' ops
    | .error _ => timed m ops

/-- Account 1 stakes 10000; seven epochs later account 2 delegates 5000 to it, and account 1 takes
out all 15000 at once. -/
def rushed : List (StakingOp ℕ) :=
  [.stakeTokens 1 10000] ++ List.replicate 7 .stakingEpochUpdate ++
    [.delegateStake 2 1 5000, .unstakeTokens 1 15000]

def ledgerOf (ops : List (StakingOp ℕ)) : Except (StakingError ℕ) (ℕ × ℕ × ℕ) :=
  (applyAll .new ops).map fun m =>
    (m.currentEpoch, totalOf (withdrawalFrom 1) (timed .new ops),
      totalOf (depositTo 1) (matured m.lockupEpochs m.currentEpoch (timed .new ops)))

/-- Of the 15000 that are out at epoch 7 only 10000 have matured. -/
theorem delegation_leaves_early : ledgerOf rushed = .ok (7, 15000, 10000) := by
  decide +kernel

/-- Account 1 takes out a part of its stake after the lock-up of seven epochs. -/
theorem lock_up_kept_staked :
    ∃ history, ∃ m : StakingManager ℕ,
      StakingRun (fun _ m op _ => Lossless m op ∧ TakesOwn m op) .new history m ∧
      LockUpKept history m ∧ totalOf (withdrawalFrom 1) history = 4000 := by
  have hstart : StakingRun (fun _ m op _ => Lossless m op ∧ TakesOwn m op) .new []
    (.new : StakingManager ℕ) := .start
  have hstake := hstart.next (.stakeTokens 1 10000)
    (StakingManager.stakeTokens_ok.2 ⟨by decide, rfl⟩) ⟨by unfold Lossless; decide +kernel, trivial⟩
  have hepoch {history : List (ℕ × StakingOp ℕ)} {m : StakingManager ℕ}
      (h : StakingRun (fun _ m op _ => Lossless m op ∧ TakesOwn m op) .new history m) :=
    h.next .stakingEpochUpdate rfl ⟨trivial, trivial⟩
  have hwait := hepoch (hepoch (hepoch (hepoch (hepoch (hepoch (hepoch hstake))))))
  have hunstake := hwait.next (.unstakeTokens 1 4000)
    (StakingManager.unstakeTokens_ok.2 ⟨by decide, 0, rfl, by decide, ⟨1, 10000⟩, by decide +kernel,
      by decide, rfl⟩) ⟨trivial, by unfold TakesOwn; decide +kernel⟩
  exact ⟨_, _, hunstake,
    (lock_up_kept_iff ⟨fun _ => rfl, fun _ _ => rfl, Nat.zero_le _⟩).2.2 _ _ hunstake,
    by decide +kernel⟩

end Sxiaum.Pos
