import Sxiaum.Consensus.Ledgers
import Sxiaum.Lib.Guards
import Sxiaum.Storage.StateBytes

/-!
# Staking

`StakingManager` (`pos/staking.rs`): stakes, delegations, the epochs of their deposits, and the
rows that mirror them in the state table. A validator's own stake and the delegations to it are
one number. The operations change the maps and then write them back; what the maps have become
stays when the write fails. Addresses are any type here, and 32 bytes where rows are concerned.
-/

namespace Sxiaum.Pos

open Guards Storage

def defaultLockupPeriodEpochs : ℕ := 7

/-- `U256::saturating_add`. -/
def satAdd256 (a b : ℕ) : ℕ := min (a + b) u256Max

structure Stake (α : Type) where
  validator : α
  amount : ℕ
deriving DecidableEq, Repr

inductive StakingError (α : Type) where
  | zeroStake
  | belowMinimum (amount : ℕ)
  | zeroUnstake
  | noStake (validator : α)
  | stakeLocked (unlockEpoch currentEpoch depositEpoch : ℕ)
  | insufficientStake (validator : α)
  | zeroDelegation
  | zeroUndelegation
  | noDelegation (delegator : α)
  | delegationLocked (unlockEpoch currentEpoch depositEpoch : ℕ)
  | insufficientDelegation (delegated amount : ℕ)
  | storage (reason : String)
deriving DecidableEq, Repr

/-- The text of an error, for a way to write addresses. -/
def StakingError.message {α : Type} (display : α → String) : StakingError α → String
  | .zeroStake => "stake amount must be greater than zero"
  | .belowMinimum amount => s!"stake amount {amount} below minimum {minValidatorStake}"
  | .zeroUnstake => "unstake amount must be greater than zero"
  | .noStake validator => "validator " ++ display validator ++ " has no stake"
  | .stakeLocked unlockEpoch currentEpoch depositEpoch =>
    s!"stake is still locked until epoch {unlockEpoch} (current epoch {currentEpoch}, deposited at epoch {depositEpoch})"
  | .insufficientStake validator => "insufficient stake for validator " ++ display validator
  | .zeroDelegation => "delegation amount must be greater than zero"
  | .zeroUndelegation => "undelegation amount must be greater than zero"
  | .noDelegation delegator => "no delegation found for delegator " ++ display delegator
  | .delegationLocked unlockEpoch currentEpoch depositEpoch =>
    s!"stake is still locked until epoch {unlockEpoch} (current epoch {currentEpoch}, delegated at epoch {depositEpoch})"
  | .insufficientDelegation delegated amount =>
    s!"insufficient delegated stake: {delegated} < {amount}"
  | .storage reason => reason

/-! ### The manager -/

/-- The manager without its handle on the storage. -/
structure StakingManager (α : Type) where
  stakes : HashMap α (Stake α)
  delegations : HashMap (α × α) ℕ
  depositEpochs : HashMap α ℕ
  delegationEpochs : HashMap (α × α) ℕ
  currentEpoch : ℕ
  lockupEpochs : ℕ
  fullyRestored : Bool

/-- What can be asked of a manager. -/
inductive StakingOp (α : Type) where
  | stakeTokens (validator : α) (amount : ℕ)
  | unstakeTokens (validator : α) (amount : ℕ)
  | delegateStake (delegator validator : α) (amount : ℕ)
  | undelegateStake (delegator validator : α) (amount : ℕ)
  | slashValidator (validator : α) (amount : ℕ)
  | rewardValidator (validator : α) (amount : ℕ)
  | stakingEpochUpdate
deriving DecidableEq, Repr

namespace StakingManager

variable {α : Type} [DecidableEq α]

def new : StakingManager α where
  stakes := ∅
  delegations := ∅
  depositEpochs := ∅
  delegationEpochs := ∅
  currentEpoch := 0
  lockupEpochs := defaultLockupPeriodEpochs
  fullyRestored := false

variable (m : StakingManager α) (validator : α) (amount : ℕ)

def getStake (address : α) : ℕ :=
  ((m.stakes.lookup address).map Stake.amount).getD 0

def delegated (delegator validator : α) : ℕ :=
  (m.delegations.lookup (delegator, validator)).getD 0

/-- Add to a position, which is opened if there is none. -/
def credit : StakingManager α :=
  let entry := (m.stakes.lookup validator).getD ⟨validator, 0⟩
  { m with
    stakes := m.stakes.insert validator { entry with amount := satAdd256 entry.amount amount } }

/-- Take from a position, which is closed when nothing is left. -/
def debit (entry : Stake α) (amount : ℕ) : StakingManager α :=
  if entry.amount - amount = 0 then
    { m with
      stakes := m.stakes.erase validator
      depositEpochs := m.depositEpochs.erase validator }
  else { m with stakes := m.stakes.insert validator { entry with amount := entry.amount - amount } }

/-- Take from a delegation, which is closed when nothing is left. -/
def debitDelegation (key : α × α) (amount left : ℕ) : StakingManager α :=
  if left - amount = 0 then
    { m with
      delegations := m.delegations.erase key
      delegationEpochs := m.delegationEpochs.erase key }
  else { m with delegations := m.delegations.insert key (left - amount) }

def stakeTokens : Except (StakingError α) (StakingManager α) := do
  bailIf (amount = 0) .zeroStake
  bailIf (amount < minValidatorStake) (.belowMinimum amount)
  return { m with
    depositEpochs := m.depositEpochs.insert validator m.currentEpoch }.credit validator amount

def unstakeTokens : Except (StakingError α) (StakingManager α) := do
  bailIf (amount = 0) .zeroUnstake
  let depositEpoch ← found (m.depositEpochs.lookup validator) (.noStake validator)
  let unlockEpoch := satAdd64 depositEpoch m.lockupEpochs
  bailIf (m.currentEpoch < unlockEpoch)
    (.stakeLocked unlockEpoch m.currentEpoch depositEpoch)
  let entry ← found (m.stakes.lookup validator) (.noStake validator)
  bailIf (entry.amount < amount) (.insufficientStake validator)
  return m.debit validator entry amount

/-- The pool of the validator grows with the delegation. -/
def delegateStake (delegator validator : α) (amount : ℕ) :
    Except (StakingError α) (StakingManager α) := do
  bailIf (amount = 0) .zeroDelegation
  let key := (delegator, validator)
  let m := { m with delegationEpochs := m.delegationEpochs.insert key m.currentEpoch }
  let m := m.credit validator amount
  return { m with
    delegations := m.delegations.insert key (satAdd256 (m.delegated delegator validator) amount) }

/-- The delegations are not looked at. -/
def slashValidator : Except (StakingError α) (StakingManager α) := do
  let stake ← found (m.stakes.lookup validator) (.noStake validator)
  return m.debit validator stake amount

def undelegateStake (delegator validator : α) (amount : ℕ) :
    Except (StakingError α) (StakingManager α) := do
  bailIf (amount = 0) .zeroUndelegation
  let key := (delegator, validator)
  let depositEpoch ← found (m.delegationEpochs.lookup key) (.noDelegation delegator)
  let unlockEpoch := satAdd64 depositEpoch m.lockupEpochs
  bailIf (m.currentEpoch < unlockEpoch)
    (.delegationLocked unlockEpoch m.currentEpoch depositEpoch)
  let left ← found (m.delegations.lookup key) (.noDelegation delegator)
  bailIf (left < amount) (.insufficientDelegation left amount)
  let entry ← found (m.stakes.lookup validator) (.noStake validator)
  bailIf (entry.amount < amount) (.insufficientStake validator)
  return (m.debitDelegation key amount left).debit validator entry amount

def rewardValidator : StakingManager α :=
  m.credit validator amount

def stakingEpochUpdate : StakingManager α :=
  { m with currentEpoch := satAdd64 m.currentEpoch 1 }

/-- What an operation makes of the maps. -/
def apply : StakingOp α → Except (StakingError α) (StakingManager α)
  | .stakeTokens validator amount => m.stakeTokens validator amount
  | .unstakeTokens validator amount => m.unstakeTokens validator amount
  | .delegateStake delegator validator amount => m.delegateStake delegator validator amount
  | .undelegateStake delegator validator amount => m.undelegateStake delegator validator amount
  | .slashValidator validator amount => m.slashValidator validator amount
  | .rewardValidator validator amount => .ok (m.rewardValidator validator amount)
  | .stakingEpochUpdate => .ok m.stakingEpochUpdate

/-! ### What an operation does -/

section Effects

variable {m m' : StakingManager α} {v d : α} {a : ℕ} {entry : Stake α}

lemma getStake_eq (h : m.stakes.lookup v = some entry) : m.getStake v = entry.amount := by
  rw [getStake, h, Option.map_some, Option.getD_some]

lemma getStake_of_none (h : m.stakes.lookup v = none) : m.getStake v = 0 := by
  rw [getStake, h, Option.map_none, Option.getD_none]

lemma getStake_credit (m : StakingManager α) (v : α) (a : ℕ) :
    (m.credit v a).getStake = Function.update m.getStake v (satAdd256 (m.getStake v) a) := by
  funext w
  by_cases hw : w = v
  · subst hw
    rw [Function.update_self]
    refine (getStake_eq (m := m.credit w a) (AList.lookup_insert _)).trans ?_
    cases hlookup : m.stakes.lookup w with
    | none => rw [getStake_of_none hlookup, Option.getD_none]
    | some entry => rw [getStake_eq hlookup, Option.getD_some]
  · rw [Function.update_of_ne hw, getStake, getStake, credit, AList.lookup_insert_ne hw]

lemma getStake_debit (h : m.stakes.lookup v = some entry) (a : ℕ) :
    (m.debit v entry a).getStake = Function.update m.getStake v (m.getStake v - a) := by
  funext w
  rw [getStake_eq h, debit]
  split_ifs with hzero
  · by_cases hw : w = v
    · subst hw
      rw [Function.update_self, hzero]
      exact getStake_of_none (AList.lookup_erase _ _)
    · rw [Function.update_of_ne hw, getStake, getStake, AList.lookup_erase_ne hw]
  · by_cases hw : w = v
    · subst hw
      rw [Function.update_self, getStake, AList.lookup_insert, Option.map_some, Option.getD_some]
    · rw [Function.update_of_ne hw, getStake, getStake, AList.lookup_insert_ne hw]

lemma unstakeTokens_ok : m.unstakeTokens v a = .ok m' ↔ a ≠ 0 ∧
    ∃ epoch, m.depositEpochs.lookup v = some epoch ∧
      satAdd64 epoch m.lockupEpochs ≤ m.currentEpoch ∧
    ∃ entry, m.stakes.lookup v = some entry ∧ a ≤ entry.amount ∧ m.debit v entry a = m' := by
  simp only [unstakeTokens, bind_ok, bailIf_ok, exists_unit, found_ok, pure_ok, not_lt, ne_eq]

lemma undelegateStake_ok : m.undelegateStake d v a = .ok m' ↔ a ≠ 0 ∧
    ∃ epoch, m.delegationEpochs.lookup (d, v) = some epoch ∧
      satAdd64 epoch m.lockupEpochs ≤ m.currentEpoch ∧
    ∃ left, m.delegations.lookup (d, v) = some left ∧ a ≤ left ∧
    ∃ entry, m.stakes.lookup v = some entry ∧ a ≤ entry.amount ∧
      (m.debitDelegation (d, v) a left).debit v entry a = m' := by
  simp only [undelegateStake, bind_ok, bailIf_ok, exists_unit, found_ok, pure_ok, not_lt, ne_eq]

lemma stakeTokens_ok : m.stakeTokens v a = .ok m' ↔ minValidatorStake ≤ a ∧
    { m with depositEpochs := m.depositEpochs.insert v m.currentEpoch }.credit v a = m' := by
  simp only [stakeTokens, bind_ok, bailIf_ok, exists_unit, pure_ok, not_lt]
  refine and_iff_right_of_imp fun h => ?_
  have : 0 < minValidatorStake := by decide
  omega

lemma delegateStake_ok : m.delegateStake d v a = .ok m' ↔ a ≠ 0 ∧ { m.credit v a with
      delegationEpochs := m.delegationEpochs.insert (d, v) m.currentEpoch
      delegations := m.delegations.insert (d, v) (satAdd256 (m.delegated d v) a) } = m' := by
  simp only [delegateStake, bind_ok, bailIf_ok, exists_unit, pure_ok, ne_eq]
  rfl

lemma slashValidator_ok : m.slashValidator v a = .ok m' ↔
    ∃ entry, m.stakes.lookup v = some entry ∧ m.debit v entry a = m' := by
  simp only [slashValidator, bind_ok, found_ok, pure_ok]

def stakeAfter (m : StakingManager α) : StakingOp α → α → ℕ
  | .stakeTokens v a | .delegateStake _ v a | .rewardValidator v a =>
    Function.update m.getStake v (satAdd256 (m.getStake v) a)
  | .unstakeTokens v a | .undelegateStake _ v a | .slashValidator v a =>
    Function.update m.getStake v (m.getStake v - a)
  | .stakingEpochUpdate => m.getStake

/-- The delegations after an operation that goes through, by delegator and validator. -/
def delegatedAfter (m : StakingManager α) : StakingOp α → α × α → ℕ
  | .delegateStake d v a =>
    Function.update (fun p => m.delegated p.1 p.2) (d, v) (satAdd256 (m.delegated d v) a)
  | .undelegateStake d v a =>
    Function.update (fun p => m.delegated p.1 p.2) (d, v) (m.delegated d v - a)
  | _ => fun p => m.delegated p.1 p.2

lemma delegated_insert (x : ℕ) (epochs : HashMap (α × α) ℕ) (p : α × α) :
    { m with delegations := m.delegations.insert (d, v) x, delegationEpochs := epochs }.delegated
        p.1 p.2 = Function.update (fun p => m.delegated p.1 p.2) (d, v) x p := by
  by_cases hp : p = (d, v)
  · subst hp
    rw [Function.update_self, delegated, AList.lookup_insert, Option.getD_some]
  · rw [Function.update_of_ne hp, delegated, delegated, AList.lookup_insert_ne hp]

lemma delegated_debitDelegation {left : ℕ} (h : m.delegations.lookup (d, v) = some left)
    (p : α × α) :
    (m.debitDelegation (d, v) a left).delegated p.1 p.2 =
      Function.update (fun p => m.delegated p.1 p.2) (d, v) (m.delegated d v - a) p := by
  have hleft : m.delegated d v = left := by rw [delegated, h, Option.getD_some]
  rw [hleft, debitDelegation]
  split_ifs with hzero
  · by_cases hp : p = (d, v)
    · subst hp
      rw [Function.update_self, delegated, AList.lookup_erase, Option.getD_none, hzero]
    · rw [Function.update_of_ne hp, delegated, delegated, AList.lookup_erase_ne hp]
  · exact delegated_insert _ m.delegationEpochs p

lemma delegated_debit (p : α × α) : (m.debit v entry a).delegated p.1 p.2 = m.delegated p.1 p.2 := by
  unfold debit
  split_ifs <;> rfl

lemma stakeMaps_debitDelegation {key : α × α} {left : ℕ} :
    (m.debitDelegation key a left).stakes = m.stakes ∧
      (m.debitDelegation key a left).depositEpochs = m.depositEpochs := by
  unfold debitDelegation
  split_ifs <;> exact ⟨rfl, rfl⟩

lemma delegationMaps_debit : (m.debit v entry a).delegations = m.delegations ∧
    (m.debit v entry a).delegationEpochs = m.delegationEpochs := by
  unfold debit
  split_ifs <;> exact ⟨rfl, rfl⟩

variable {op : StakingOp α}

def epochAfter (m : StakingManager α) : StakingOp α → ℕ
  | .stakingEpochUpdate => satAdd64 m.currentEpoch 1
  | _ => m.currentEpoch

omit [DecidableEq α] in
lemma le_epochAfter (h : m.currentEpoch ≤ u64Max) (op : StakingOp α) :
    m.currentEpoch ≤ m.epochAfter op := by
  cases op with
  | stakingEpochUpdate => exact le_min (Nat.le_succ _) h
  | _ => exact le_rfl

omit [DecidableEq α] in
lemma epochAfter_le (h : m.currentEpoch ≤ u64Max) (op : StakingOp α) :
    m.epochAfter op ≤ u64Max := by
  cases op with
  | stakingEpochUpdate => exact Nat.min_le_right ..
  | _ => exact h

/-- The fields that the maps do not hold. -/
def settings (m : StakingManager α) : ℕ × ℕ × Bool :=
  (m.currentEpoch, m.lockupEpochs, m.fullyRestored)

lemma settings_debit : (m.debit v entry a).settings = m.settings := by
  unfold debit
  split_ifs <;> rfl

lemma settings_debitDelegation {left : ℕ} {key : α × α} :
    (m.debitDelegation key a left).settings = m.settings := by
  unfold debitDelegation
  split_ifs <;> rfl

/-- What an operation does to stakes and delegations. -/
lemma apply_effect (h : m.apply op = .ok m') : m'.getStake = m.stakeAfter op ∧
    (∀ p : α × α, m'.delegated p.1 p.2 = m.delegatedAfter op p) ∧
    m'.settings = (m.epochAfter op, m.lockupEpochs, m.fullyRestored) := by
  cases op with
  | stakeTokens v a =>
    obtain ⟨-, rfl⟩ := stakeTokens_ok.1 h
    exact ⟨getStake_credit _ v a, fun _ => rfl, rfl⟩
  | unstakeTokens v a =>
    obtain ⟨-, epoch, -, -, entry, hentry, -, rfl⟩ := unstakeTokens_ok.1 h
    exact ⟨getStake_debit hentry a, delegated_debit, settings_debit⟩
  | delegateStake d v a =>
    obtain ⟨-, rfl⟩ := delegateStake_ok.1 h
    exact ⟨getStake_credit _ v a, delegated_insert (m := m.credit v a) _ _, rfl⟩
  | undelegateStake d v a =>
    obtain ⟨-, epoch, -, -, left, hleft, -, entry, hentry, -, rfl⟩ := undelegateStake_ok.1 h
    have hstakes : (m.debitDelegation (d, v) a left).getStake = m.getStake := by
      funext w
      rw [getStake, getStake, stakeMaps_debitDelegation.1]
    refine ⟨?_, fun p => ?_, settings_debit.trans settings_debitDelegation⟩
    · rw [getStake_debit (by rwa [stakeMaps_debitDelegation.1]), hstakes]
      rfl
    · rw [delegated_debit]
      exact delegated_debitDelegation hleft p
  | slashValidator v a =>
    obtain ⟨entry, hentry, rfl⟩ := slashValidator_ok.1 h
    exact ⟨getStake_debit hentry a, delegated_debit, settings_debit⟩
  | rewardValidator v a =>
    obtain rfl := Except.ok.inj h
    exact ⟨getStake_credit _ v a, fun _ => rfl, rfl⟩
  | stakingEpochUpdate =>
    obtain rfl := Except.ok.inj h
    exact ⟨rfl, fun _ => rfl, rfl⟩

lemma getStake_apply (h : m.apply op = .ok m') : m'.getStake = m.stakeAfter op :=
  (apply_effect h).1

lemma delegated_apply (h : m.apply op = .ok m') (p : α × α) :
    m'.delegated p.1 p.2 = m.delegatedAfter op p := (apply_effect h).2.1 p

lemma settings_apply (h : m.apply op = .ok m') :
    m'.settings = (m.epochAfter op, m.lockupEpochs, m.fullyRestored) := (apply_effect h).2.2

lemma currentEpoch_apply (h : m.apply op = .ok m') : m'.currentEpoch = m.epochAfter op :=
  congrArg Prod.fst (settings_apply h)

lemma lockupEpochs_apply (h : m.apply op = .ok m') : m'.lockupEpochs = m.lockupEpochs :=
  congrArg (fun s => s.2.1) (settings_apply h)

lemma withdrawal_le_getStake
    (h : m.unstakeTokens v a = .ok m' ∨ m.undelegateStake d v a = .ok m') : a ≤ m.getStake v := by
  rcases h with h | h
  · obtain ⟨-, epoch, -, -, entry, hentry, hle, -⟩ := unstakeTokens_ok.1 h
    rwa [getStake_eq hentry]
  · obtain ⟨-, epoch, -, -, left, -, -, entry, hentry, hle, -⟩ := undelegateStake_ok.1 h
    rwa [getStake_eq hentry]

end Effects

end StakingManager

/-! ### Changes of the maps -/

section Changes

open Pos.StakingManager

/-- What an operation does to the entries of one kind and to the epochs of their deposits. The
keys that it adds to are `opens`, those with a new deposit `deposits`. -/
inductive Change {κ ν : Type} [DecidableEq κ] (now : ℕ) (opens deposits : κ → Prop)
    (values : HashMap κ ν) (epochs : HashMap κ ℕ) : HashMap κ ν → HashMap κ ℕ → Prop
  | keep : (∀ k, ¬ deposits k) → Change now opens deposits values epochs values epochs
  | insert (k : κ) (v : ν) : opens k ∨ (values.lookup k).isSome → (∀ k, ¬ deposits k) →
      Change now opens deposits values epochs (values.insert k v) epochs
  | deposit (k : κ) (v : ν) : opens k → (∀ k', deposits k' → k' = k) →
      Change now opens deposits values epochs (values.insert k v) (epochs.insert k now)
  | erase (k : κ) : (values.lookup k).isSome → (∀ k, ¬ deposits k) →
      Change now opens deposits values epochs (values.erase k) (epochs.erase k)

namespace Change

variable {κ ν : Type} [DecidableEq κ] {now : ℕ} {opens deposits : κ → Prop}
  {values values' : HashMap κ ν} {epochs epochs' : HashMap κ ℕ} {k : κ}

lemma epoch_of (h : Change now opens deposits values epochs values' epochs') {epoch : ℕ}
    (hrecord : epochs'.lookup k = some epoch) :
    epoch = now ∨ epochs.lookup k = some epoch ∧ ¬ deposits k := by
  cases h with
  | keep hnone | insert k' v _ hnone => exact .inr ⟨hrecord, hnone k⟩
  | deposit k' v _ honly =>
    by_cases hk : k = k'
    · subst hk
      rw [AList.lookup_insert] at hrecord
      exact .inl (Option.some.inj hrecord).symm
    · rw [AList.lookup_insert_ne hk] at hrecord
      exact .inr ⟨hrecord, fun hdeposit => hk (honly k hdeposit)⟩
  | erase k' _ hnone =>
    exact .inr ⟨AList.forall_lookup_erase (fun _ _ hbefore => hbefore) _ _ hrecord, hnone k⟩

lemma lookup_none (h : Change now opens deposits values epochs values' epochs')
    (hk : values.lookup k = none) (hopens : ¬ opens k) : values'.lookup k = none := by
  have hne : ∀ k', opens k' ∨ (values.lookup k').isSome → k ≠ k' := by
    rintro k' hk' rfl
    simp [hk, hopens] at hk'
  cases h with
  | keep => exact hk
  | insert k' v hk' => rwa [AList.lookup_insert_ne (hne k' hk')]
  | deposit k' v hk' => rwa [AList.lookup_insert_ne (hne k' (.inl hk'))]
  | erase k' hk' => rwa [AList.lookup_erase_ne (hne k' (.inr hk'))]

end Change

variable {α : Type} [DecidableEq α] {m m' : StakingManager α} {op : StakingOp α} {v : α}
  {entry : Stake α} {a now : ℕ}

/-- The operation adds to a stake, which is opened if there is none. -/
def Opens (v : α) : StakingOp α → Prop
  | .stakeTokens w _ | .delegateStake _ w _ | .rewardValidator w _ => w = v
  | _ => False

/-- The operation adds to a delegation, which is opened if there is none. -/
def OpensDelegation (p : α × α) : StakingOp α → Prop
  | .delegateStake d v _ => (d, v) = p
  | _ => False

/-- What an operation brings into a pool as the validator's own. -/
def ownDeposit (v : α) : StakingOp α → ℕ
  | .stakeTokens w a => if w = v then a else 0
  | _ => 0

/-- What an operation brings into a pool for a delegator. -/
def delegationBy (d v : α) : StakingOp α → ℕ
  | .delegateStake d' w a => if d' = d ∧ w = v then a else 0
  | _ => 0

lemma change_debit {opens deposits : α → Prop} (h : m.stakes.lookup v = some entry)
    (hnone : ∀ w, ¬ deposits w) :
    Change now opens deposits m.stakes m.depositEpochs (m.debit v entry a).stakes
      (m.debit v entry a).depositEpochs := by
  have hentry : (m.stakes.lookup v).isSome := by simp [h]
  unfold debit
  split_ifs
  · exact .erase v hentry hnone
  · exact .insert v _ (.inr hentry) hnone

lemma maps_change (h : m.apply op = .ok m') :
    Change m.currentEpoch (Opens · op) (ownDeposit · op ≠ 0) m.stakes m.depositEpochs m'.stakes
        m'.depositEpochs ∧
      Change m.currentEpoch (OpensDelegation · op) (fun p => delegationBy p.1 p.2 op ≠ 0)
        m.delegations m.delegationEpochs m'.delegations m'.delegationEpochs := by
  have hnone : ∀ {κ : Type} (_ : κ), ¬ (0 : ℕ) ≠ 0 := fun _ => not_not.2 rfl
  cases op with
  | stakeTokens v a =>
    obtain ⟨-, rfl⟩ := stakeTokens_ok.1 h
    refine ⟨.deposit v _ rfl fun w hw => ?_, .keep hnone⟩
    by_contra hne
    exact hw (if_neg (Ne.symm hne))
  | unstakeTokens v a =>
    obtain ⟨-, _, -, -, entry, hentry, -, rfl⟩ := unstakeTokens_ok.1 h
    refine ⟨change_debit hentry hnone, ?_⟩
    rw [delegationMaps_debit.1, delegationMaps_debit.2]
    exact .keep hnone
  | delegateStake d v a =>
    obtain ⟨-, rfl⟩ := delegateStake_ok.1 h
    -- the pool grows, but its epoch stays
    refine ⟨.insert v _ (.inl rfl) hnone, .deposit (d, v) _ rfl fun p hp => ?_⟩
    by_contra hne
    refine hp (if_neg ?_)
    rintro ⟨rfl, rfl⟩
    exact hne rfl
  | undelegateStake d v a =>
    obtain ⟨-, _, -, -, left, hleft, -, entry, hentry, -, rfl⟩ := undelegateStake_ok.1 h
    constructor
    · obtain ⟨hstakes, hepochs⟩ := @stakeMaps_debitDelegation _ _ m a (d, v) left
      rw [← hstakes] at hentry
      rw [← hstakes, ← hepochs]
      exact change_debit hentry hnone
    · rw [delegationMaps_debit.1, delegationMaps_debit.2]
      have hheld : (m.delegations.lookup (d, v)).isSome := by simp [hleft]
      unfold debitDelegation
      split_ifs
      · exact .erase (d, v) hheld hnone
      · exact .insert (d, v) _ (.inr hheld) hnone
  | slashValidator v a =>
    obtain ⟨entry, hentry, rfl⟩ := slashValidator_ok.1 h
    refine ⟨change_debit hentry hnone, ?_⟩
    rw [delegationMaps_debit.1, delegationMaps_debit.2]
    exact .keep hnone
  | rewardValidator v a =>
    obtain rfl := Except.ok.inj h
    exact ⟨.insert v _ (.inl rfl) hnone, .keep hnone⟩
  | stakingEpochUpdate =>
    obtain rfl := Except.ok.inj h
    exact ⟨.keep hnone, .keep hnone⟩

lemma stakes_change (h : m.apply op = .ok m') :
    Change m.currentEpoch (Opens · op) (ownDeposit · op ≠ 0) m.stakes m.depositEpochs m'.stakes
      m'.depositEpochs := (maps_change h).1

lemma delegations_change (h : m.apply op = .ok m') :
    Change m.currentEpoch (OpensDelegation · op) (fun p => delegationBy p.1 p.2 op ≠ 0)
      m.delegations m.delegationEpochs m'.delegations m'.delegationEpochs := (maps_change h).2

end Changes

end Sxiaum.Pos
