import Sxiaum.Consensus.Ledgers
import Sxiaum.Consensus.Steps

/-!
# A replica with its ledgers

The handlers of `Consensus` (`consensus/src/lib.rs`) together with the staking, governance,
slashing and upgrade ledgers: what a vote adds to the evidence pool, the epoch rotation of the
validator set, and the upgrades that a finalized block executes. On the rest of the state they
are the handlers of `Steps`, with the rotation as the one of the ledgers.
-/

namespace Sxiaum

open Governance

def mainnetBlockReward : ℕ := 1000000000

/-- What a replica calls besides the primitives of `Env`. -/
structure ReplicaEnv extends Env where
  /-- The id of self-detected evidence, a digest of the offence. -/
  evidenceId : Misbehavior → Hash
  /-- `ProtocolVersion::parse`. -/
  parseVersion : String → Option ProtocolVersion

instance : Coe ReplicaEnv Env := ⟨ReplicaEnv.toEnv⟩

structure Replica where
  core : Consensus
  staking : StakingManager
  governance : GovernanceManager
  slashing : SlashingManager
  upgrades : UpgradeManager

/-- The result of a method that may fail after it has changed the state. -/
abbrev Replica.Outcome (α : Type) := Except ConsensusError α × Replica

/-! ### The epoch rotation -/

namespace Rotation

variable (env : Env) (staking : StakingManager) (slashing : SlashingManager) (height : ℕ)

variable (missed : MissedSlots) (set : ValidatorSet) (v : Validator)

/-- One passed proposal; an addition that is refused is only logged. -/
def applyProposal (p : Proposal) : ValidatorSet :=
  match p.proposalType with
  | .addValidator v =>
    if slashing.isInCooldown v.address height then set
    else
      match set.addValidator env v with
      | .ok added => added
      | .error _ => set
  | .removeValidator address => set.removeValidator address
  | _ => set

/-- A validator with the stake of the staking ledger. -/
def restake : Validator :=
  let stake := staking.getStake v.address
  { v with stake := stake, votingPower := Validator.calculateVotingPower stake }

/-- A validator that is active in the next epoch. -/
def returns : Bool :=
  staking.getStake v.address ≠ 0 && !v.isJailed && !slashing.isInCooldown v.address height

/-- The status of a validator in the next epoch. A jailed validator stays jailed. -/
def nextValidator : Validator :=
  let v := restake staking v
  if v.stake = 0 then { v with status := .inactive }
  else if v.isJailed then v
  else if slashing.isInCooldown v.address height then
    { v with status := .jailed, votingPower := 0 }
  else { v with status := .active }

/-- The validators handed to `replace_validators`. -/
def nextValidators : List Validator :=
  (set.validators.values.map (nextValidator staking slashing height)).filter (·.stake ≠ 0)

/-- `UptimeMonitor::reset_validator` for those that return. -/
def resetUptime : MissedSlots :=
  (set.validators.values.filter (returns staking slashing height)).foldl
    (fun missed v => Function.update missed v.address 0) missed

end Rotation

namespace Replica

open Rotation

/-- The height of a finalized block at which an epoch ends. -/
def atBoundary (height : ℕ) : Prop := height ≠ 0 ∧ height % epochLength = 0

instance (height : ℕ) : Decidable (atBoundary height) := inferInstanceAs (Decidable (_ ∧ _))

def proposedSet (env : Env) (r : Replica) : ValidatorSet :=
  r.governance.getAndMarkPassedProposals.1.foldl
    (applyProposal env r.slashing r.core.finalizedBlockHeight) r.core.validatorSet

def candidates (env : Env) (r : Replica) : List Validator :=
  nextValidators r.staking.stakingEpochUpdate r.slashing r.core.finalizedBlockHeight
    (r.proposedSet env)

/-- The replica before `replace_validators`: the epoch has begun and the passed proposals are
marked as executed. -/
def withProposals (env : Env) (r : Replica) : Replica :=
  { r with
    staking := r.staking.stakingEpochUpdate
    governance := r.governance.getAndMarkPassedProposals.2
    core := { r.core with
      validatorSet := r.proposedSet env
      missedSlots := resetUptime r.staking.stakingEpochUpdate r.slashing
        r.core.finalizedBlockHeight r.core.missedSlots (r.proposedSet env) } }

def maybeRotateValidatorSetForNewEpoch (env : Env) (r : Replica) : Outcome Unit :=
  if ¬ atBoundary r.core.finalizedBlockHeight then (.ok (), r)
  else
    let candidates := r.candidates env
    let r := r.withProposals env
    match ValidatorSet.replaceValidators env candidates with
    | .error e => (.error e, r)
    | .ok next =>
      let s := { r.core with validatorSet := next }
      (.ok (), { r with core := s.persistValidatorSet.persistCurrentConsensusView })

variable (env : ReplicaEnv) (r : Replica) (blockHash : Hash)

/-- One matured proposal; a failure is only logged. -/
def scheduleUpgrade (height : ℕ) (upgrades : UpgradeManager) (p : Proposal) : UpgradeManager :=
  match p.proposalType with
  | .softwareUpgrade version activationHeight =>
    match env.parseVersion version with
    | none => upgrades
    | some target =>
      match upgrades.applyGovernanceUpgrade p.title target activationHeight height with
      | .ok scheduled => scheduled
      | .error _ => upgrades
  | _ => upgrades

def processGovernanceUpgradeExecutions : Replica :=
  let height := r.core.finalizedBlockHeight
  let (matured, governance) := r.governance.executeTimeLockedProposals height
  { r with
    governance := governance
    upgrades := matured.foldl (scheduleUpgrade env height) r.upgrades }

/-! ### Finalization -/

/-- `finalize_block` after the block has left `committed_blocks`. -/
def recordFinalized (block : Block) : Outcome Unit :=
  let s := r.core.markFinalized block
  let r := { r with
    core := (s.missedViews blockHash block.parentHash).foldl
      (Consensus.recordMissedView env) s
    staking := r.staking.rewardValidator block.header.proposer mainnetBlockReward }
  match r.maybeRotateValidatorSetForNewEpoch env.toEnv with
  | (.error e, r) => (.error e, r)
  | (.ok (), r) =>
    let r := r.processGovernanceUpgradeExecutions env
    (.ok (), { r with core := r.core.advanceView })

def finalizeBlock : Outcome Unit :=
  if r.core.finalizedBlocks.any (fun tip => env.hash tip.2 = blockHash) then (.ok (), r)
  else
    match r.core.ensureCommittedBlockQcIsValid env blockHash with
    | .error e => (.error e, r)
    | .ok () =>
      match r.core.committedBlocks.lookup blockHash with
      | none => (.error .blockNotFoundForFinalization, r)
      | some block =>
        if r.core.finalizedBlocks.any (fun tip => block.height ≤ tip.1) then
          (.error (.heightNotAdvancing block.height
            ((r.core.finalizedBlocks.map Prod.fst).getD 0)), r)
        else
          recordFinalized env { r with
            core := { r.core with committedBlocks := r.core.committedBlocks.erase blockHash } }
            blockHash block

def finalizeBlockOnceQuorumReached : Outcome Unit :=
  match r.core.commitBlock env blockHash with
  | (.error e, s) => (.error e, { r with core := s })
  | (.ok (), s) =>
    let outcome := finalizeBlock env { r with core := s } blockHash
    let r := outcome.2
    (outcome.1, { r with
      core := r.core.pruneFinalized
      slashing := r.slashing.pruneExpiredEvidence r.core.finalizedBlockHeight })

/-! ### Certificates -/

/-- `process_quorum_certificate` after the commit rule; only the Commit phase reaches the
ledgers. -/
def enterPhase (block : Block) (qc : QuorumCertificate)
    (advanced : HotStuffPhase) : Outcome HotStuffPhase :=
  if qc.phase = .commit ∧ advanced = .finalize ∧
      r.core.hotstuff.verifyCommitPhase env r.core.validatorSet (env.hash block) qc then
    match r.finalizeBlockOnceQuorumReached env (env.hash block) with
    | (.ok (), r) => (.ok .finalize, r)
    | (.error e, r) => (.error e, r)
  else
    let outcome := r.core.enterPhase env block qc advanced
    (outcome.1, { r with core := outcome.2 })

def processQuorumCertificate (qc : QuorumCertificate) : Outcome HotStuffPhase :=
  if !r.core.validatorSet.verifies env qc then (.error .invalidQuorumCertificate, r)
  else
    let s := r.core.recordCertificate env qc
    match s.pendingBlocks.lookup qc.blockHash with
    | none => (.error .pendingBlockNotFound, { r with core := s })
    | some block =>
      match s.hotstuff.applyThreePhaseCommitRule env s.validatorSet block qc with
      | .error e => (.error e, { r with core := s })
      | .ok (advanced, hs) =>
        enterPhase env { r with core := { s with hotstuff := hs } } block qc advanced

/-! ### Votes -/

/-- `Vote::new_with_phase`. -/
def unsignedVote (validator : Address) (blockHash : Hash) (view : ℕ) (phase : VotePhase) : Vote where
  validator := validator
  blockHash := blockHash
  view := view
  phase := phase
  entropyCommit := 0
  entropyReveal := none
  signature := 0

/-- The offence that `process_vote` takes a vote for: its block is pending and does not conflict
with the lock, and the collector has another block for the validator, view and phase. The
signature of the vote has not been looked at. -/
def doubleVote (env : Env) (s : Consensus) (vote : Vote) : Option Misbehavior := do
  let block ← s.pendingBlocks.lookup vote.blockHash
  if s.hotstuff.voteConflictsWithLockedBlock env block then none
  else
    let existing ← s.voteCollector.getVotedHashForPhase vote.view vote.phase vote.validator
    if existing = vote.blockHash then none
    else
      let voteA := (s.voteCollector.getValidatorVoteForPhase vote.view vote.phase
        vote.validator).getD (unsignedVote vote.validator existing vote.view vote.phase)
      some (.doubleVote vote.view voteA vote)

/-- The evidence pool after a vote for whose view the replica is ready. -/
def recordDoubleVote (vote : Vote) : SlashingManager :=
  match doubleVote env r.core vote with
  | none => r.slashing
  | some misbehavior =>
    r.slashing.recordSelfDetectedEvidence env.evidenceId vote.validator misbehavior
      r.core.finalizedBlockHeight

/-- `process_vote` up to the certificate it may complete. -/
def admitVote (vote : Vote) : Outcome (Option QuorumCertificate) :=
  match r.core.syncToVote vote with
  | (.error e, s) => (.error e, { r with core := s })
  | (.ok (), s) =>
    let r := { r with core := s }
    match s.checkVote env vote with
    | .error e => (.error e, { r with slashing := r.recordDoubleVote env vote })
    | .ok () =>
      match s.voteCollector.addVote env vote with
      | .error e => (.error e, r)
      | .ok collector =>
        (.ok (collector.buildQuorumCertificateForPhase vote.view vote.blockHash vote.phase
            s.validatorSet.quorumThreshold),
          { r with core := { s with
            voteCollector := collector
            storage := s.storage.persistVote vote } })

def processVote (vote : Vote) : Outcome (Option QuorumCertificate) :=
  match r.admitVote env vote with
  | (.error e, r) => (.error e, r)
  | (.ok none, r) => (.ok none, r)
  | (.ok (some qc), r) =>
    match r.processQuorumCertificate env qc with
    | (.ok _, r) => (.ok (some qc), r)
    | (.error e, r) => (.error e, r)

end Replica

/-! ### The primitives that the rotation is none of -/

section WithRotate

variable {env : Env} {f : ℕ → ValidatorSet → MissedSlots → Bool × ValidatorSet × MissedSlots}

def Env.withRotate (env : Env)
    (f : ℕ → ValidatorSet → MissedSlots → Bool × ValidatorSet × MissedSlots) : Env :=
  { env with rotate := f }

@[simp] lemma hash_withRotate {block : Block} : (env.withRotate f).hash block = env.hash block :=
  rfl

variable {qc : QuorumCertificate}

lemma verifyEntries_withRotate {vs : List Validator} {seen : List Address}
    {entries : List (Address × QcSignature)} :
    qc.verifyEntries (env.withRotate f) vs seen entries = qc.verifyEntries env vs seen entries := by
  induction entries generalizing seen with
  | nil => rfl
  | cons e rest ih =>
    obtain ⟨address, signature⟩ := e
    simp only [QuorumCertificate.verifyEntries, ih]
    rfl

variable {set : ValidatorSet}

@[simp] lemma verifies_withRotate : set.verifies (env.withRotate f) qc = set.verifies env qc := by
  simp only [ValidatorSet.verifies, QuorumCertificate.verifyBlsWithVotingPower,
    QuorumCertificate.verifyWithVotingPower, QuorumCertificate.verify, verifyEntries_withRotate]
  rfl

@[simp] lemma ensureCommitted_withRotate {s : Consensus} {hash : Hash} :
    s.ensureCommittedBlockQcIsValid (env.withRotate f) hash =
      s.ensureCommittedBlockQcIsValid env hash := by
  simp only [Consensus.ensureCommittedBlockQcIsValid, verifies_withRotate]

lemma verifyCommitPhase_withRotate {hs : HotStuff} {hash : Hash} : hs.verifyCommitPhase
    (env.withRotate f) set hash qc =
      hs.verifyCommitPhase env set hash qc := by
  simp only [HotStuff.verifyCommitPhase, verifies_withRotate]

lemma applyThreePhaseCommitRule_withRotate {hs : HotStuff}
    {block : Block} : hs.applyThreePhaseCommitRule (env.withRotate f) set block qc =
      hs.applyThreePhaseCommitRule env set block qc := by
  simp only [HotStuff.applyThreePhaseCommitRule, HotStuff.verifyPreparePhase,
    HotStuff.verifyPreCommitPhase, verifies_withRotate, verifyCommitPhase_withRotate]
  rfl

end WithRotate

namespace Replica

open Rotation

/-! ### The handlers on the core -/

/-- Outcomes with the same consensus state and the same result, up to the error. -/
def Follows {α : Type} (o : Outcome α) (o' : Consensus.Outcome α) : Prop :=
  o.2.core = o'.2 ∧ o.1.toOption = o'.1.toOption

/-- Outcomes that follow both fail or both succeed. -/
lemma Follows.cases {α : Type} {o : Outcome α} {o' : Consensus.Outcome α} (h : Follows o o') :
    (∃ e e' r, o = (.error e, r) ∧ o' = (.error e', r.core)) ∨
      ∃ a r, o = (.ok a, r) ∧ o' = (.ok a, r.core) := by
  obtain ⟨hcore, hresult⟩ := h
  rcases o with ⟨e | a, r⟩ <;> rcases o' with ⟨e' | a', s⟩ <;> cases hresult
  · exact .inl ⟨e, e', r, rfl, congrArg (Prod.mk _) hcore.symm⟩
  · exact .inr ⟨a, r, rfl, congrArg (Prod.mk _) hcore.symm⟩

/-- The rotation of the ledgers, as the core sees it. -/
def rotation (env : Env) (r : Replica) (height : ℕ) (set : ValidatorSet) (missed : MissedSlots) :
    Bool × ValidatorSet × MissedSlots :=
  let r := { r with core := { r.core with
    finalizedBlockHeight := height
    validatorSet := set
    missedSlots := missed } }
  match ValidatorSet.replaceValidators env (r.candidates env) with
  | .ok next => (true, next, (r.withProposals env).core.missedSlots)
  | .error _ => (false, r.proposedSet env, (r.withProposals env).core.missedSlots)

/-- The environment of the core whose rotation is the one of the ledgers. -/
def coreEnv (env : Env) (r : Replica) : Env := env.withRotate (r.rotation env)

lemma follows_maybeRotate (env : Env) (r : Replica) :
    Follows (r.maybeRotateValidatorSetForNewEpoch env)
      (r.core.maybeRotateValidatorSetForNewEpoch (r.coreEnv env)) := by
  by_cases hboundary : atBoundary r.core.finalizedBlockHeight
  · have hpast : ¬ (r.core.finalizedBlockHeight = 0 ∨
        r.core.finalizedBlockHeight % epochLength ≠ 0) := by
      rintro (h | h)
      · exact hboundary.1 h
      · exact h hboundary.2
    cases hnext : ValidatorSet.replaceValidators env (r.candidates env)
    all_goals
      simp only [maybeRotateValidatorSetForNewEpoch,
        Consensus.maybeRotateValidatorSetForNewEpoch, hboundary, hpast, coreEnv, Env.withRotate,
        rotation, hnext, not_true, if_false]
      exact ⟨rfl, rfl⟩
  · have hbefore : r.core.finalizedBlockHeight = 0 ∨
        r.core.finalizedBlockHeight % epochLength ≠ 0 := by
      by_contra h
      rw [not_or, not_not] at h
      exact hboundary h
    simp only [maybeRotateValidatorSetForNewEpoch,
      Consensus.maybeRotateValidatorSetForNewEpoch, hboundary, hbefore, not_false_eq_true,
      if_true]
    exact ⟨rfl, rfl⟩

variable (env : ReplicaEnv) (r : Replica)

/-- Finalizing a block does to the core what `Steps` does with the rotation of the ledgers. -/
lemma follows_recordFinalized (hash : Hash) (block : Block) :
    ∃ rotate, Follows (r.recordFinalized env hash block)
      (r.core.recordFinalized (env.withRotate rotate) hash block) := by
  set rewarded : Replica := { r with
    core := ((r.core.markFinalized block).missedViews hash block.parentHash).foldl
      (Consensus.recordMissedView env) (r.core.markFinalized block)
    staking := r.staking.rewardValidator block.header.proposer mainnetBlockReward } with hrewarded
  refine ⟨rewarded.rotation env, ?_⟩
  have hsteps : r.core.recordFinalized (env.withRotate (rewarded.rotation env))
      hash block = rewarded.core.rotateAndAdvance (rewarded.coreEnv env) := rfl
  rw [hsteps, Consensus.rotateAndAdvance, recordFinalized]
  simp only [← hrewarded]
  rcases (follows_maybeRotate env rewarded).cases with
    ⟨e, e', r', hown, hcored⟩ | ⟨⟨⟩, r', hown, hcored⟩ <;> rw [hown, hcored] <;>
    exact ⟨rfl, rfl⟩

lemma follows_finalizeBlock (hash : Hash) : ∃ rotate, Follows (r.finalizeBlock env hash)
      (r.core.finalizeBlock (env.withRotate rotate) hash) := by
  have htips : ∀ f, (fun tip : ℕ × Block => decide ((env.withRotate f).hash tip.2 = hash)) =
      fun tip => decide (env.hash tip.2 = hash) := fun _ => rfl
  simp only [finalizeBlock, Consensus.finalizeBlock, ensureCommitted_withRotate, htips]
  split_ifs with htip
  · exact ⟨env.rotate, rfl, rfl⟩
  rcases r.core.ensureCommittedBlockQcIsValid env hash with e | ⟨⟩
  · exact ⟨env.rotate, rfl, rfl⟩
  cases r.core.committedBlocks.lookup hash with
  | none => exact ⟨env.rotate, rfl, rfl⟩
  | some block =>
    dsimp only
    split_ifs
    · exact ⟨env.rotate, rfl, rfl⟩
    · exact follows_recordFinalized env { r with
        core := { r.core with committedBlocks := r.core.committedBlocks.erase hash } } hash block

lemma follows_finalizeBlockOnceQuorumReached (hash : Hash) :
    ∃ rotate, Follows (r.finalizeBlockOnceQuorumReached env hash)
      (r.core.finalizeBlockOnceQuorumReached (env.withRotate rotate) hash) := by
  have hcommit : ∀ rotate, r.core.commitBlock (env.withRotate rotate) hash =
      r.core.commitBlock env hash := fun _ => rfl
  simp only [finalizeBlockOnceQuorumReached, Consensus.finalizeBlockOnceQuorumReached, hcommit]
  rcases r.core.commitBlock env hash with ⟨e | ⟨⟩, s⟩
  · exact ⟨env.rotate, rfl, rfl⟩
  · obtain ⟨rotate, hcore, hresult⟩ := follows_finalizeBlock env { r with core := s } hash
    exact ⟨rotate, congrArg Consensus.pruneFinalized hcore, hresult⟩

lemma follows_enterPhase (block : Block) (qc : QuorumCertificate)
    (advanced : HotStuffPhase) : ∃ rotate, Follows (r.enterPhase env block qc advanced)
      (r.core.enterPhase (env.withRotate rotate) block qc advanced) := by
  by_cases hfinal : qc.phase = .commit ∧ advanced = .finalize ∧
      r.core.hotstuff.verifyCommitPhase env r.core.validatorSet (env.hash block) qc
  · obtain ⟨rotate, hfollows⟩ := follows_finalizeBlockOnceQuorumReached env r (env.hash block)
    refine ⟨rotate, ?_⟩
    obtain ⟨hqc, rfl, hverify⟩ := hfinal
    simp only [enterPhase, Consensus.enterPhase, hqc, hverify, hash_withRotate,
      verifyCommitPhase_withRotate, true_and, if_true]
    rcases hfollows.cases with ⟨e, e', r', hown, hcored⟩ | ⟨⟨⟩, r', hown, hcored⟩ <;>
      rw [hown, hcored] <;> exact ⟨rfl, rfl⟩
  · refine ⟨env.rotate, ?_⟩
    simp only [enterPhase, if_neg hfinal]
    exact ⟨rfl, rfl⟩

lemma follows_processQuorumCertificate (qc : QuorumCertificate) :
    ∃ rotate, Follows (r.processQuorumCertificate env qc)
      (r.core.processQuorumCertificate (env.withRotate rotate) qc) := by
  have hrecord : ∀ rotate, r.core.recordCertificate (env.withRotate rotate) qc =
      r.core.recordCertificate env qc := fun _ => rfl
  simp only [processQuorumCertificate, Consensus.processQuorumCertificate, hrecord,
    verifies_withRotate, applyThreePhaseCommitRule_withRotate]
  split_ifs
  · exact ⟨env.rotate, rfl, rfl⟩
  cases (r.core.recordCertificate env qc).pendingBlocks.lookup qc.blockHash with
  | none => exact ⟨env.rotate, rfl, rfl⟩
  | some block =>
    dsimp only
    rcases HotStuff.applyThreePhaseCommitRule env
      (r.core.recordCertificate env qc).hotstuff
      (r.core.recordCertificate env qc).validatorSet block qc with e | ⟨advanced, hs⟩
    · exact ⟨env.rotate, rfl, rfl⟩
    · exact follows_enterPhase env { r with
        core := { r.core.recordCertificate env qc with hotstuff := hs } } block qc advanced

lemma follows_admitVote (vote : Vote) :
    Follows (r.admitVote env vote) (r.core.admitVote env vote) := by
  simp only [admitVote, Consensus.admitVote]
  rcases r.core.syncToVote vote with ⟨e | ⟨⟩, s⟩
  · exact ⟨rfl, rfl⟩
  dsimp only
  rcases s.checkVote env vote with e | ⟨⟩
  · exact ⟨rfl, rfl⟩
  rcases s.voteCollector.addVote env vote with e | collector
  · exact ⟨rfl, rfl⟩
  · exact ⟨rfl, rfl⟩

/-- On the core a vote does what it does in `Steps`, with the rotation of the ledgers. -/
theorem follows_processVote (vote : Vote) : ∃ rotate, Follows (r.processVote env vote)
      (r.core.processVote (env.withRotate rotate) vote) := by
  have hadmitted : ∀ rotate, r.core.admitVote (env.withRotate rotate) vote =
      r.core.admitVote env vote := fun _ => rfl
  simp only [processVote, Consensus.processVote, hadmitted]
  rcases (follows_admitVote env r vote).cases with
    ⟨e, e', r', hown, hcored⟩ | ⟨_ | qc, r', hown, hcored⟩ <;> rw [hown, hcored]
  · exact ⟨env.rotate, rfl, rfl⟩
  · exact ⟨env.rotate, rfl, rfl⟩
  · obtain ⟨rotate, hfollows⟩ := follows_processQuorumCertificate env r' qc
    refine ⟨rotate, ?_⟩
    dsimp only
    rcases hfollows.cases with ⟨e, e', r'', hown, hcored⟩ | ⟨_, r'', hown, hcored⟩ <;>
      rw [hown, hcored] <;> exact ⟨rfl, rfl⟩

abbrev Rotate : Type := ℕ → ValidatorSet → MissedSlots → Bool × ValidatorSet × MissedSlots

/-- What a replica answers to votes, up to the errors, and the replica after them. -/
def processVotes (env : ReplicaEnv) (r : Replica) :
    List Vote → List (Option (Option QuorumCertificate)) × Replica
  | [] => ([], r)
  | vote :: votes =>
    let o := r.processVote env vote
    ((processVotes env o.2 votes).1.cons o.1.toOption, (processVotes env o.2 votes).2)

/-- The same on the core alone, with a rotation for each vote. -/
def coreVotes (env : Env) (s : Consensus) :
    List (Vote × Rotate) → List (Option (Option QuorumCertificate)) × Consensus
  | [] => ([], s)
  | (vote, rotate) :: votes =>
    let o := s.processVote (env.withRotate rotate) vote
    ((coreVotes env o.2 votes).1.cons o.1.toOption, (coreVotes env o.2 votes).2)

/-- A replica with its ledgers answers any votes as its core does with some rotations, and its core
ends in the same state. -/
theorem processVotes_follows (env : ReplicaEnv) (r : Replica) (votes : List Vote) :
    ∃ rotates : List Rotate, rotates.length = votes.length ∧
      ((r.processVotes env votes).1, (r.processVotes env votes).2.core) =
        coreVotes env r.core (votes.zip rotates) := by
  induction votes generalizing r with
  | nil => exact ⟨[], rfl, rfl⟩
  | cons vote votes ih =>
    obtain ⟨rotate, hcore, hanswer⟩ := follows_processVote env r vote
    obtain ⟨rotates, hlength, hrest⟩ := ih (r.processVote env vote).2
    refine ⟨rotate :: rotates, congrArg (· + 1) hlength, ?_⟩
    rw [hcore] at hrest
    simp only [processVotes, List.zip_cons_cons, coreVotes, ← hrest, hanswer]

def new (storage : ConsensusStorage) : Replica where
  core := .new storage
  staking := .new
  governance := .new
  slashing := .new
  upgrades := ⟨⟨1, 0, 0⟩, []⟩

end Replica

def ReplicaEnv.sample : ReplicaEnv where
  toEnv := .sample
  evidenceId _ := 0
  parseVersion _ := none

end Sxiaum
