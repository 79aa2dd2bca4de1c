import Sxiaum.Consensus.ValidatorSet
import Sxiaum.Lib.MapOrder

/-!
# The ledgers beside the validator set

Staking (`pos/staking.rs`), governance (`governance.rs`), protocol upgrades (`upgrades.rs`) and
slashing (`slashing.rs`), as far as votes, finalization and the epoch rotation read and write
them. A hash map is iterated in the order of its entries. Lockups, delegations, the tally of
governance votes and the execution of a slash are left out.
-/

namespace Sxiaum

/-! ### Staking -/

def minValidatorStake : ℕ := 10000

structure StakingManager where
  stakes : HashMap Address ℕ
  currentEpoch : ℕ

namespace StakingManager

def new : StakingManager := ⟨∅, 0⟩

variable (m : StakingManager) (validator : Address) (amount : ℕ)

def getStake (address : Address) : ℕ := (m.stakes.lookup address).getD 0

/-- Add to a position, which is opened if there is none. -/
def credit : StakingManager :=
  { m with stakes := m.stakes.insert validator (min (m.getStake validator + amount) u256Max) }

def stakeTokens : Except String StakingManager := do
  if amount = 0 then throw "stake amount must be greater than zero"
  if amount < minValidatorStake then
    throw s!"stake amount {amount} below minimum {minValidatorStake}"
  return m.credit validator amount

def rewardValidator : StakingManager :=
  m.credit validator amount

def stakingEpochUpdate : StakingManager :=
  { m with currentEpoch := satAdd64 m.currentEpoch 1 }

end StakingManager

/-! ### Governance -/

namespace Governance

inductive ProposalType where
  | parameterChange (key value : String)
  | textProposal (description : String)
  | softwareUpgrade (version : String) (height : ℕ)
  | communityFundSpend (recipient : Address) (amount : ℕ)
  | addValidator (validator : Validator)
  | removeValidator (address : Address)
deriving DecidableEq, Repr

inductive ProposalStatus where
  | depositPeriod
  | votingPeriod
  | passed
  | timeLocked
  | rejected
  | failed
  | executed
deriving DecidableEq, Repr

/-- A proposal without its deposit, its voting window and its tally. -/
structure Proposal where
  id : ℕ
  title : String
  proposalType : ProposalType
  status : ProposalStatus
  executionHeight : Option ℕ
deriving DecidableEq, Repr

namespace Proposal

def execute (p : Proposal) : Proposal := { p with status := .executed }

def isPassed (p : Proposal) : Bool := p.status = .passed

def isMatured (currentHeight : ℕ) (p : Proposal) : Bool :=
  p.status = .timeLocked && p.executionHeight.any (· ≤ currentHeight)

end Proposal

end Governance

open Governance

/-- The proposals by number. -/
structure GovernanceManager where
  proposals : HashMap ℕ Proposal

namespace GovernanceManager

def new : GovernanceManager := ⟨∅⟩

variable (g : GovernanceManager) (test : Proposal → Bool)

/-- The proposals that pass a test, marked as executed, in the order of the map. -/
def marked : List Proposal :=
  (g.proposals.values.filter test).map Proposal.execute

/-- The ledger in which the proposals that pass a test are marked as executed. -/
def mark : GovernanceManager :=
  ⟨g.proposals.mapValues fun p => if test p then p.execute else p⟩

/-- A passed proposal is handed out once. -/
def getAndMarkPassedProposals : List Proposal × GovernanceManager :=
  (g.marked Proposal.isPassed, g.mark Proposal.isPassed)

def executeTimeLockedProposals (currentHeight : ℕ) : List Proposal × GovernanceManager :=
  (g.marked (Proposal.isMatured currentHeight), g.mark (Proposal.isMatured currentHeight))

end GovernanceManager

/-! ### Upgrades -/

structure ProtocolVersion where
  major : ℕ
  minor : ℕ
  patch : ℕ
deriving DecidableEq, Repr

/-- The derived order of versions, field by field. -/
def ProtocolVersion.below (a b : ProtocolVersion) : Bool :=
  a.major < b.major || a.major = b.major &&
    (a.minor < b.minor || a.minor = b.minor && a.patch < b.patch)

structure UpgradeProposal where
  name : String
  targetVersion : ProtocolVersion
  activationHeight : ℕ
  description : String
  votes : ℕ
  submittedAtHeight : ℕ
  scheduled : Bool
  voters : List Address
deriving DecidableEq, Repr

/-- The version, and the upgrades to come. -/
structure UpgradeManager where
  currentVersion : ProtocolVersion
  pendingUpgrades : List UpgradeProposal
deriving DecidableEq, Repr

inductive UpgradeError where
  | activationNotAfter (name : String) (activationHeight currentHeight : ℕ)
  | versionNotAbove (name : String) (target current : ProtocolVersion)
  | duplicateName (name : String)
deriving DecidableEq, Repr

namespace UpgradeManager

/-- The entry of an upgrade that governance has decided. -/
def scheduledUpgrade (name : String) (target : ProtocolVersion)
    (activationHeight currentHeight : ℕ) : UpgradeProposal where
  name := name
  targetVersion := target
  activationHeight := activationHeight
  description := "approved via on-chain governance"
  votes := 0
  submittedAtHeight := currentHeight
  scheduled := true
  voters := []

def applyGovernanceUpgrade (m : UpgradeManager) (name : String) (target : ProtocolVersion)
    (activationHeight currentHeight : ℕ) : Except UpgradeError UpgradeManager := do
  if activationHeight ≤ currentHeight then
    throw (.activationNotAfter name activationHeight currentHeight)
  if !m.currentVersion.below target then throw (.versionNotAbove name target m.currentVersion)
  if m.pendingUpgrades.any (·.name = name) then throw (.duplicateName name)
  return { m with pendingUpgrades := m.pendingUpgrades ++
    [scheduledUpgrade name target activationHeight currentHeight] }

end UpgradeManager

/-! ### Slashing -/

/-- What a validator can be accused of. -/
inductive Misbehavior where
  | doubleVote (view : ℕ) (voteA voteB : Vote)
  | doubleProposal (view : ℕ) (proposer : Address) (proposalA proposalB : List UInt8)
  | invalidSignature (vote : Vote) (reason : String)
deriving DecidableEq, Repr

structure SelfDetectedEvidence where
  id : Hash
  validator : Address
  misbehavior : Misbehavior
  detectedAtHeight : ℕ
deriving DecidableEq, Repr

structure ReportedEvidence where
  id : Hash
  validator : Address
  misbehavior : Misbehavior
  reportedAtHeight : ℕ
  reporter : Address
  reporterSignature : ℕ
deriving DecidableEq, Repr

inductive EvidenceSource where
  | selfDetected (evidence : SelfDetectedEvidence)
  | reported (evidence : ReportedEvidence)
deriving DecidableEq, Repr

structure Evidence where
  source : EvidenceSource
  verified : Bool
deriving DecidableEq, Repr

def Evidence.reportedAtHeight (e : Evidence) : ℕ :=
  match e.source with
  | .selfDetected e => e.detectedAtHeight
  | .reported e => e.reportedAtHeight

def evidenceExpiryBlocks : ℕ := 10000

/-- The evidence pool, and the release heights in the rows of the cooldown. -/
structure SlashingManager where
  pendingEvidence : HashMap Hash Evidence
  cooldowns : HashMap Address ℕ

namespace SlashingManager

def new : SlashingManager := ⟨∅, ∅⟩

variable (evidenceId : Misbehavior → Hash) (m : SlashingManager) (validator : Address)

/-- `Evidence::new_self_detected`; its id is the digest of the offence. -/
def selfDetected (misbehavior : Misbehavior) (height : ℕ) : Evidence :=
  ⟨.selfDetected ⟨evidenceId misbehavior, validator, misbehavior, height⟩, false⟩

def recordSelfDetectedEvidence (misbehavior : Misbehavior) (height : ℕ) : SlashingManager :=
  let evidence := selfDetected evidenceId validator misbehavior height
  { m with pendingEvidence := m.pendingEvidence.insert (evidenceId misbehavior) evidence }

/-- Evidence is dropped after the expiry. -/
def pruneExpiredEvidence (currentHeight : ℕ) : SlashingManager :=
  { m with pendingEvidence :=
      m.pendingEvidence.retain fun _ e =>
        currentHeight - e.reportedAtHeight ≤ evidenceExpiryBlocks }

/-- Until the release height. -/
def isInCooldown (currentHeight : ℕ) : Bool :=
  (m.cooldowns.lookup validator).any (currentHeight < ·)

end SlashingManager

/-! ### Additions to and removals from the validator set -/

namespace ValidatorSet

/-- Another validator of the set has the BLS key of `v`. -/
def sharesBlsKey (s : ValidatorSet) (v : Validator) : Bool :=
  v.blsPubkey.isSome &&
    s.validators.entries.any fun e => e.1 ≠ v.address && e.2.blsPubkey = v.blsPubkey

/-- A known validator is replaced. -/
def addValidator (env : Env) (s : ValidatorSet) (v : Validator) :
    Except ConsensusError ValidatorSet := do
  if (s.validators.lookup v.address).isNone && v.isActive &&
      maxActiveValidators ≤ s.activeValidatorCount then
    throw .tooManyValidators
  validateValidator env v
  enforceBlsPop env v
  if s.sharesBlsKey v then throw (.duplicateBlsKey v.address)
  let replaced := ((s.validators.lookup v.address).map Validator.stake).getD 0
  return ⟨s.validators.insert v.address v, min (s.totalStake - replaced + v.stake) u256Max⟩

def removeValidator (s : ValidatorSet) (address : Address) : ValidatorSet :=
  match s.validators.lookup address with
  | some removed => ⟨s.validators.erase address, s.totalStake - removed.stake⟩
  | none => s

end ValidatorSet

end Sxiaum
