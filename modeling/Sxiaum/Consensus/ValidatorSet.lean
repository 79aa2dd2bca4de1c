import Sxiaum.Consensus.Env

/-!
# The validator set

`ValidatorSet` (`pos/validator_set.rs`): the active validators in their canonical order,
their total voting power, jailing, the atomic replacement of the set and the
stake-weighted leader election.
-/

namespace Sxiaum

def maxActiveValidators : ℕ := 200

def blsPubkeyLen : ℕ := 48

def blsPopLen : ℕ := 96

def maxCommissionBps : ℕ := 10000

namespace Validator

def validateStrict (env : Env) (v : Validator) : Bool :=
  env.validKey v.pubkey && v.address = env.addressOf v.pubkey &&
  v.commissionBps ≤ maxCommissionBps && v.votingPower = calculateVotingPower v.stake &&
  (match v.blsPubkey, v.blsPop with
    | some pk, some pop => pk.length = blsPubkeyLen && pop.length = blsPopLen
    | none, none => true
    | _, _ => false) &&
  (!v.isActive || (v.votingPower ≠ 0 && v.jailedUntil = none))

end Validator

namespace ValidatorSet

def empty : ValidatorSet := ⟨∅, 0⟩

/-! ### Reading the set -/

/-- More voting power first; equal power by address. -/
def ActiveOrder (left right : Validator) : Prop :=
  right.votingPower < left.votingPower ∨
    left.votingPower = right.votingPower ∧ left.address ≤ right.address

instance : DecidableRel ActiveOrder := fun _ _ =>
  inferInstanceAs (Decidable (_ ∨ _))

variable (env : Env) (s : ValidatorSet) (address : Address)

/-- In the order of the leader election. -/
def activeValidators : List Validator :=
  (s.validators.values.filter Validator.isActive).insertionSort ActiveOrder

def activeValidatorCount : ℕ := s.activeValidators.length

/-- The sum saturates at the largest `u64`. -/
def totalActiveVotingPower : ℕ :=
  s.activeValidators.foldl (fun acc v => satAdd64 acc v.votingPower) 0

def validator : Option Validator :=
  s.validators.lookup address

def votingPower : ℕ :=
  ((s.validators.lookup address).map Validator.votingPower).getD 0

/-! ### Changing the set -/

def jailValidator : Except ConsensusError ValidatorSet :=
  match s.validators.lookup address with
  | some v =>
    .ok { s with validators :=
      s.validators.insert address { v with status := .jailed, votingPower := 0 } }
  | none => .error (.validatorNotFound address)

def validateValidator (v : Validator) : Except ConsensusError Unit :=
  if !v.validateStrict env then .error (.invalidValidator v.address)
  else if v.pubkey = 0 then .error (.invalidValidator v.address)
  else if v.isJailed then .error (.jailedValidator v.address)
  else if v.stake = 0 then .error (.zeroStake v.address)
  else .ok ()

/-- A key needs its proof of possession. -/
def enforceBlsPop (v : Validator) : Except ConsensusError Unit :=
  match v.blsPubkey, v.blsPop with
  | some pk, some pop =>
    if env.verifyPop pk pop then .ok () else .error (.invalidBlsPop v.address)
  | _, _ => .error (.missingBlsPop v.address)

/-- One pass of the loop of `replace_validators`; the number counts the active ones. -/
def stageValidator (staged : ValidatorSet × ℕ) (v : Validator) :
    Except ConsensusError (ValidatorSet × ℕ) := do
  validateValidator env v
  enforceBlsPop env v
  if (staged.1.validators.lookup v.address).isSome then throw (.duplicateAddress v.address)
  if v.blsPubkey.isSome && staged.1.validators.values.any (·.blsPubkey = v.blsPubkey) then
    throw (.duplicateBlsKey v.address)
  let activeCount := if v.isActive then staged.2 + 1 else staged.2
  if v.isActive && maxActiveValidators < activeCount then throw .tooManyValidators
  return (⟨staged.1.validators.insert v.address v, min (staged.1.totalStake + v.stake) u256Max⟩,
    activeCount)

/-- Nothing is replaced if one validator is refused. -/
def replaceValidators (vs : List Validator) : Except ConsensusError ValidatorSet := do
  let staged ← vs.foldlM (stageValidator env) (empty, 0)
  return staged.1

/-! ### Leader election -/

def leaderSelection (view : ℕ) (seed : Hash) : Option Address :=
  let active := s.activeValidators
  (active[env.leaderRandom seed view % active.length]?).map Validator.address

/-- The cumulative scan of `select_leader_weighted`. -/
def pickWeighted (randomValue : ℕ) : ℕ → List Validator → Option Address
  | _, [] => none
  | cumulative, v :: rest =>
    let cumulative := satAdd64 cumulative v.votingPower
    if randomValue < cumulative then some v.address else pickWeighted randomValue cumulative rest

/-- By voting power, where there is any. -/
def selectLeaderWeighted (view : ℕ) (seed : Hash) : Option Address :=
  let active := s.activeValidators
  let totalPower := s.totalActiveVotingPower
  if active = [] then none
  else if totalPower = 0 then leaderSelection env s view seed
  else
    match pickWeighted (env.leaderRandom seed view % totalPower) 0 active with
    | some leader => some leader
    | none => active.getLast?.map Validator.address

def getProposer (view : ℕ) (seed : Hash) : Option Address :=
  selectLeaderWeighted env s view seed

/-! ### Quorums -/

/-- `Consensus::quorum_threshold`: how many signers a certificate needs. -/
def quorumThreshold : ℕ :=
  if s.activeValidatorCount = 0 then 0 else s.activeValidatorCount * 2 / 3 + 1

/-- More than two thirds of the power. -/
def requiredQuorumVotingPower : ℕ :=
  if s.totalActiveVotingPower = 0 then 0 else min (s.totalActiveVotingPower * 2 / 3 + 1) u64Max

end ValidatorSet

end Sxiaum
