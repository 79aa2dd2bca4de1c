import Sxiaum.Consensus.Frames
import Sxiaum.Consensus.Replacement
import Sxiaum.Consensus.Replica

/-!
# Finalization at an epoch boundary

`finalize_block` persists the block, starts the epoch and marks the passed proposals before
`replace_validators` looks at the next validators. One of them that has stake and is jailed, in
a cooldown or otherwise refused makes the call fail with all of that done, and with the view
where it was. The rotation is all or nothing exactly if every validator with stake is ready for
the next epoch.
-/

namespace Sxiaum

open Governance Rotation Validator ValidatorSet

/-! ### Validators that are ready -/

/-- What does not change with stake and status: the keys, the address and the commission. -/
structure Validator.Sound (env : Env) (v : Validator) : Prop where
  validKey : env.validKey v.pubkey = true
  nonzero : v.pubkey ≠ 0
  address : v.address = env.addressOf v.pubkey
  commission : v.commissionBps ≤ maxCommissionBps
  possession : ∃ pk pop, v.blsPubkey = some pk ∧ v.blsPop = some pop ∧
    pk.length = blsPubkeyLen ∧ pop.length = blsPopLen ∧ env.verifyPop pk pop = true

lemma calculateVotingPower_ne_zero {stake : ℕ} :
    calculateVotingPower stake ≠ 0 ↔ stakeUnit ≤ stake := by
  unfold calculateVotingPower
  split_ifs with hless
  · simp [hless]
  · have hunit : 1 ≤ stake / stakeUnit :=
      (Nat.one_le_div_iff (by decide)).2 (not_lt.1 hless)
    have hmax : 1 ≤ u64Max := by decide
    refine iff_of_true ?_ (not_lt.1 hless)
    omega

namespace Rotation

variable {env : Env} {staking : StakingManager} {slashing : SlashingManager} {height : ℕ}
  {v : Validator}

/-- The validator is taken into the next epoch. -/
structure Ready (env : Env) (staking : StakingManager) (slashing : SlashingManager) (height : ℕ)
    (v : Validator) : Prop where
  unjailed : v.isJailed = false
  cooled : slashing.isInCooldown v.address height = false
  powered : Validator.stakeUnit ≤ staking.getStake v.address
  released : v.jailedUntil = none
  sound : v.Sound env

lemma nextValidator_spec :
    (nextValidator staking slashing height v).stake = staking.getStake v.address ∧
      (nextValidator staking slashing height v).address = v.address ∧
      (nextValidator staking slashing height v).blsPubkey = v.blsPubkey := by
  unfold nextValidator
  dsimp only
  split_ifs <;> exact ⟨rfl, rfl, rfl⟩

lemma not_admissible_of_jailed (h : v.isJailed = true) : ¬ ValidatorSet.Admissible env v := by
  rintro ⟨hvalid, -⟩
  unfold validateValidator at hvalid
  split_ifs at hvalid

lemma validateValidator_ok_iff : validateValidator env v = .ok () ↔
    v.validateStrict env = true ∧ v.pubkey ≠ 0 ∧ v.isJailed = false ∧ v.stake ≠ 0 := by
  unfold validateValidator
  split_ifs <;> simp_all

lemma enforceBlsPop_ok_iff : enforceBlsPop env v = .ok () ↔
    ∃ pk pop, v.blsPubkey = some pk ∧ v.blsPop = some pop ∧ env.verifyPop pk pop = true := by
  unfold enforceBlsPop
  split
  · rename_i pk pop hpk hpop
    simp [hpk, hpop]
  · rename_i hnone
    simp only [reduceCtorEq, false_iff, not_exists, not_and]
    exact fun pk pop hpk hpop _ => hnone pk pop hpk hpop

lemma admissible_active_iff (hstake : staking.getStake v.address ≠ 0) :
    ValidatorSet.Admissible env { restake staking v with status := .active } ↔
      stakeUnit ≤ staking.getStake v.address ∧ v.jailedUntil = none ∧ v.Sound env := by
  rw [ValidatorSet.Admissible, validateValidator_ok_iff, enforceBlsPop_ok_iff]
  have hpower := @calculateVotingPower_ne_zero (staking.getStake v.address)
  simp only [validateStrict, restake, isActive, isJailed,
    Bool.and_eq_true, decide_true, Bool.not_true, Bool.false_or]
  constructor
  · rintro ⟨⟨⟨⟨⟨⟨⟨hkey, haddress⟩, hcommission⟩, -⟩, hbls⟩, hnonzero, hreleased⟩, hpubkey, -, -⟩,
      pk, pop, hpk, hpop, hverify⟩
    simp only [hpk, hpop, Bool.and_eq_true, decide_eq_true_eq] at hbls
    exact ⟨hpower.1 (of_decide_eq_true hnonzero), of_decide_eq_true hreleased, hkey, hpubkey,
      of_decide_eq_true haddress, of_decide_eq_true hcommission, pk, pop, hpk, hpop, hbls.1, hbls.2,
      hverify⟩
  · rintro ⟨hunit, hreleased, hkey, hpubkey, haddress, hcommission,
      pk, pop, hpk, hpop, hlength, hlength', hverify⟩
    refine ⟨⟨⟨⟨⟨⟨⟨hkey, decide_eq_true haddress⟩, decide_eq_true hcommission⟩, trivial⟩, ?_⟩,
      decide_eq_true (hpower.2 hunit), decide_eq_true hreleased⟩, hpubkey, rfl, hstake⟩,
      pk, pop, hpk, hpop, hverify⟩
    simp [hpk, hpop, hlength, hlength']

/-- With stake, the checks of `replace_validators` pass exactly for the validators that are
ready. -/
lemma admissible_nextValidator_iff (hstake : staking.getStake v.address ≠ 0) :
    ValidatorSet.Admissible env (nextValidator staking slashing height v) ↔
      Ready env staking slashing height v := by
  have hnext : nextValidator staking slashing height v =
      if v.isJailed then restake staking v
      else if slashing.isInCooldown v.address height then
        { restake staking v with status := .jailed, votingPower := 0 }
      else { restake staking v with status := .active } := by
    have hrestake : (restake staking v).stake ≠ 0 := hstake
    rw [nextValidator]
    dsimp only
    rw [if_neg hrestake]
    rfl
  rw [hnext]
  split_ifs with hjailed hcooling
  · refine iff_of_false (not_admissible_of_jailed hjailed) fun h => ?_
    rw [h.unjailed] at hjailed
    cases hjailed
  · refine iff_of_false (not_admissible_of_jailed rfl) fun h => ?_
    rw [h.cooled] at hcooling
    cases hcooling
  · rw [admissible_active_iff hstake]
    constructor
    · rintro ⟨hunit, hreleased, hsound⟩
      exact ⟨by simpa using hjailed, by simpa using hcooling, hunit, hreleased, hsound⟩
    · intro h
      exact ⟨h.powered, h.released, h.sound⟩

lemma Ready.isActive_nextValidator (h : Ready env staking slashing height v) :
    (nextValidator staking slashing height v).isActive = true := by
  have hunit : 0 < stakeUnit := by decide
  have hstake : (restake staking v).stake ≠ 0 := (hunit.trans_le h.powered).ne'
  have hjailed : (restake staking v).isJailed = false := h.unjailed
  have hcooled : slashing.isInCooldown (restake staking v).address height = false := h.cooled
  simp [nextValidator, hstake, hjailed, hcooled, isActive]

end Rotation

namespace Replica

variable {env : ReplicaEnv} {r : Replica} {hash : Hash} {block : Block}

/-! ### Validators of the next epoch -/

/-- The validators that the rotation finds with stake, after the passed proposals. -/
def staked (env : Env) (r : Replica) : List Validator :=
  (r.proposedSet env).validators.values.filter fun v => r.staking.getStake v.address ≠ 0

/-- Every validator with stake is ready for the next epoch, no two of them share an address or a
BLS key, and there are not too many. -/
structure RotationReady (env : Env) (r : Replica) : Prop where
  ready : ∀ v ∈ r.staked env, Ready env r.staking r.slashing r.core.finalizedBlockHeight v
  addresses : ((r.staked env).map Validator.address).Nodup
  keys : ((r.staked env).map Validator.blsPubkey).Nodup
  bounded : (r.staked env).length ≤ maxActiveValidators

lemma candidates_eq (env : Env) (r : Replica) : r.candidates env =
    (r.staked env).map (nextValidator r.staking r.slashing r.core.finalizedBlockHeight) := by
  have hnext : nextValidator r.staking.stakingEpochUpdate r.slashing r.core.finalizedBlockHeight =
      nextValidator r.staking r.slashing r.core.finalizedBlockHeight := rfl
  simp only [candidates, nextValidators, hnext, List.filter_map, staked]
  refine congrArg (List.map _) (List.filter_congr fun v _ => ?_)
  simp [nextValidator_spec]

lemma replaceable_candidates_iff (env : Env) (r : Replica) :
    ValidatorSet.Replaceable env (r.candidates env) ↔ RotationReady env r := by
  have hstake : ∀ v ∈ r.staked env, r.staking.getStake v.address ≠ 0 := fun v hv =>
    of_decide_eq_true (List.mem_filter.1 hv).2
  have haddresses : (r.candidates env).map address =
      (r.staked env).map address := by
    rw [candidates_eq, List.map_map]
    exact List.map_congr_left fun v _ => nextValidator_spec.2.1
  have hkeys : (r.candidates env).map blsPubkey =
      (r.staked env).map blsPubkey := by
    rw [candidates_eq, List.map_map]
    exact List.map_congr_left fun v _ => nextValidator_spec.2.2
  have hadmissible : (∀ v ∈ r.candidates env, ValidatorSet.Admissible env v) ↔
      ∀ v ∈ r.staked env, Ready env r.staking r.slashing r.core.finalizedBlockHeight v := by
    rw [candidates_eq, List.forall_mem_map]
    exact forall₂_congr fun v hv => admissible_nextValidator_iff (hstake v hv)
  have hactive : (∀ v ∈ r.staked env,
      Ready env r.staking r.slashing r.core.finalizedBlockHeight v) →
      ((r.candidates env).filter isActive).length = (r.staked env).length := by
    intro hready
    have hall : ∀ v ∈ r.candidates env, v.isActive = true := by
      rw [candidates_eq, List.forall_mem_map]
      exact fun v hv => (hready v hv).isActive_nextValidator
    rw [List.filter_eq_self.2 hall, candidates_eq, List.length_map]
  constructor
  · rintro ⟨h, hnodup, hnodup', hbounded⟩
    have hready := hadmissible.1 h
    exact ⟨hready, haddresses ▸ hnodup, hkeys ▸ hnodup', hactive hready ▸ hbounded⟩
  · rintro ⟨hready, hnodup, hnodup', hbounded⟩
    exact ⟨hadmissible.2 hready, haddresses.symm ▸ hnodup, hkeys.symm ▸ hnodup',
      (hactive hready).symm ▸ hbounded⟩

/-! ### The call -/

/-- `finalize_block` gets past its checks with this block. -/
structure Finalizable (env : ReplicaEnv) (r : Replica) (hash : Hash) (block : Block) : Prop where
  later : r.core.finalizedBlocks.any (fun tip => env.hash tip.2 = hash) = false
  certified : r.core.ensureCommittedBlockQcIsValid env hash = .ok ()
  committed : r.core.committedBlocks.lookup hash = some block
  advances : r.core.finalizedBlocks.any (fun tip => block.height ≤ tip.1) = false

/-- The replica before the rotation: the block is persisted, its proposer is rewarded and the
leaders of the missed views are recorded. -/
def finalizing (env : ReplicaEnv) (r : Replica) (hash : Hash) (block : Block) : Replica :=
  let s := Consensus.markFinalized
    { r.core with committedBlocks := r.core.committedBlocks.erase hash } block
  { r with
    core := (s.missedViews hash block.parentHash).foldl (Consensus.recordMissedView env) s
    staking := r.staking.rewardValidator block.header.proposer mainnetBlockReward }

lemma finalizeBlock_eq (h : Finalizable env r hash block) :
    r.finalizeBlock env hash =
      match (r.finalizing env hash block).maybeRotateValidatorSetForNewEpoch env.toEnv with
      | (.error e, r) => (.error e, r)
      | (.ok (), r) =>
        let r := r.processGovernanceUpgradeExecutions env
        (.ok (), { r with core := r.core.advanceView }) := by
  unfold finalizeBlock
  rw [if_neg (by simp [h.later]), h.certified, h.committed]
  dsimp only
  rw [if_neg (by simp [h.advances])]
  rfl

/-- What the missed views leave alone. -/
lemma core_finalizing : ∃ set missed, (r.finalizing env hash block).core = { Consensus.markFinalized
        { r.core with committedBlocks := r.core.committedBlocks.erase hash } block with
      validatorSet := set
      missedSlots := missed } := Consensus.foldl_recordMissedView_eq _

/-- The whole rotation: the block is persisted and finalized, the set is the one of the next
validators, the passed and the matured proposals are executed, and the view has advanced. -/
structure Rotated (env : ReplicaEnv) (r : Replica) (hash : Hash) (block : Block)
    (r' : Replica) : Prop where
  persisted : r'.core.storage.blockHeaders.lookup block.height = some block.header ∧
    r'.core.storage.blockBodies.lookup block.height = some block.body
  finalized : r'.core.finalizedBlocks = some (block.height, block)
  replaced : ∀ a v, r'.core.validatorSet.validator a = some v ↔
    v ∈ (r.finalizing env hash block).candidates env ∧ v.address = a
  executed : ∀ id p, r.governance.proposals.lookup id = some p →
    (p.isPassed = true ∨ p.isMatured block.height = true) →
    r'.governance.proposals.lookup id = some p.execute
  advanced : r'.core.currentView = satAdd64 r.core.currentView 1

/-- The call has done everything, or it has failed and done nothing. -/
def AllOrNothing (env : ReplicaEnv) (r : Replica) (hash : Hash) (block : Block) : Prop :=
  ((r.finalizeBlock env hash).1 = .ok () ∧
      Rotated env r hash block (r.finalizeBlock env hash).2) ∨
    (∃ e, (r.finalizeBlock env hash).1 = .error e) ∧ (r.finalizeBlock env hash).2 = r

/-- The call does not fail as long as an active validator with stake remains. -/
def Live (env : ReplicaEnv) (r : Replica) (hash : Hash) (block : Block) : Prop :=
  (∃ v ∈ (r.finalizing env hash block).candidates env, v.isActive = true) →
    (r.finalizeBlock env hash).1 = .ok ()

lemma maybeRotate_eq {env : Env} {r : Replica} (h : atBoundary r.core.finalizedBlockHeight) :
    r.maybeRotateValidatorSetForNewEpoch env =
      match replaceValidators env (r.candidates env) with
      | .error e => (.error e, r.withProposals env)
      | .ok next =>
        let r := r.withProposals env
        let s := { r.core with validatorSet := next }
        (.ok (), { r with core := s.persistValidatorSet.persistCurrentConsensusView }) := by
  unfold maybeRotateValidatorSetForNewEpoch
  exact if_neg (not_not.2 h)

lemma finalizedBlockHeight_finalizing :
    (r.finalizing env hash block).core.finalizedBlockHeight = block.height := by
  obtain ⟨set, missed, heq⟩ := @core_finalizing env r hash block
  rw [heq]
  rfl

lemma rotated_of_ok (h : Finalizable env r hash block) (hboundary : atBoundary block.height)
    {next : ValidatorSet} (hnext : replaceValidators env
      ((r.finalizing env hash block).candidates env) = .ok next) :
    (r.finalizeBlock env hash).1 = .ok () ∧
      Rotated env r hash block (r.finalizeBlock env hash).2 := by
  obtain ⟨set, missed, hcore⟩ := @core_finalizing env r hash block
  have hstorage : (r.finalizing env hash block).core.storage =
      r.core.storage.persistBlock block := by rw [hcore]; rfl
  have hfinalized : (r.finalizing env hash block).core.finalizedBlocks =
      some (block.height, block) := by rw [hcore]; rfl
  have hview : (r.finalizing env hash block).core.currentView = r.core.currentView := by
    rw [hcore]; rfl
  rw [finalizeBlock_eq h, maybeRotate_eq (finalizedBlockHeight_finalizing.symm ▸ hboundary), hnext]
  refine ⟨rfl, ⟨?_, ?_⟩, hfinalized, validator_replaceValidators hnext, ?_,
    congrArg (satAdd64 · 1) hview⟩
  · exact (congrArg (·.blockHeaders.lookup block.height) hstorage).trans (AList.lookup_insert _)
  · exact (congrArg (·.blockBodies.lookup block.height) hstorage).trans (AList.lookup_insert _)
  · intro id p hp hdue
    rw [← @finalizedBlockHeight_finalizing env r hash block] at hdue
    change ((r.governance.mark Proposal.isPassed).mark (Proposal.isMatured
      (r.finalizing env hash block).core.finalizedBlockHeight)).proposals.lookup id = _
    simp only [GovernanceManager.mark, AList.lookup_mapValues, hp, Option.map_some]
    -- one of the two passes marks it, and the second leaves a marked one alone
    have hagain : ∀ height, p.execute.isMatured height = false := fun _ => rfl
    by_cases hpassed : p.isPassed = true
    · simp [hpassed, hagain]
    · simp [hpassed, hdue.resolve_left hpassed]

lemma changed_of_error (h : Finalizable env r hash block) (hboundary : atBoundary block.height)
    {e : ConsensusError} (hnext : replaceValidators env
      ((r.finalizing env hash block).candidates env) = .error e) :
    (r.finalizeBlock env hash).1 = .error e ∧ (r.finalizeBlock env hash).2 ≠ r := by
  rw [finalizeBlock_eq h, maybeRotate_eq (finalizedBlockHeight_finalizing.symm ▸ hboundary), hnext]
  refine ⟨rfl, fun heq => ?_⟩
  obtain ⟨set, missed, hcore⟩ := @core_finalizing env r hash block
  have hgone : (r.finalizing env hash block).core.committedBlocks.lookup hash = none := by
    rw [hcore]
    exact AList.lookup_erase _ _
  have hsame : ((r.finalizing env hash block).withProposals env).core.committedBlocks.lookup
      hash = r.core.committedBlocks.lookup hash := congrArg (·.core.committedBlocks.lookup hash) heq
  rw [h.committed] at hsame
  exact absurd (hgone.symm.trans hsame) (Option.some_ne_none block).symm

/-- At an epoch boundary `finalize_block` applies the whole rotation or fails without a change,
and does not fail while an active validator with stake remains, exactly if the rotation is
ready. A call that does not get past its checks fails without a change. -/
theorem rotation_all_or_nothing_iff (h : Finalizable env r hash block)
    (hboundary : atBoundary block.height) :
    (AllOrNothing env r hash block ∧ Live env r hash block ↔
        RotationReady env (r.finalizing env hash block)) ∧
      ∀ other, r.core.finalizedBlocks.any (fun tip => env.hash tip.2 = other) = false →
        (∀ b, ¬ Finalizable env r other b) → ∃ e, r.finalizeBlock env other = (.error e, r) := by
  refine ⟨?_, fun other hlater hstuck => ?_⟩
  rotate_left
  · unfold finalizeBlock
    rw [if_neg (by simp [hlater])]
    split
    · exact ⟨_, rfl⟩
    rename_i hcertified
    split
    · exact ⟨_, rfl⟩
    rename_i block hcommitted
    split
    · exact ⟨_, rfl⟩
    · rename_i hadvances
      exact absurd ⟨hlater, hcertified, hcommitted, by simpa using hadvances⟩ (hstuck block)
  rw [← replaceable_candidates_iff, ← ValidatorSet.replaceValidators_ok_iff]
  constructor
  · rintro ⟨hall, -⟩
    rcases hnext : ValidatorSet.replaceValidators env
      ((r.finalizing env hash block).candidates env) with e | next
    · obtain ⟨herror, hchanged⟩ := changed_of_error h hboundary hnext
      rcases hall with ⟨hok, -⟩ | ⟨-, hsame⟩
      · rw [herror] at hok
        cases hok
      · exact absurd hsame hchanged
    · exact ⟨next, rfl⟩
  · rintro ⟨next, hnext⟩
    have hrotated := rotated_of_ok h hboundary hnext
    exact ⟨.inl hrotated, fun _ => hrotated.1⟩

/-! ### A leader that misses its views -/

def block31 : Block := Block.sample 0 31 1

def block32 : Block := Block.sample (Env.sample.hash block31) 32 1

/-- A replica over the stored block that has committed the next one, with two active validators,
stake for both and one passed proposal. -/
def boundaryReplica (view : ℕ) : Replica :=
  let st := (ConsensusStorage.empty.persistBlock block31).persistQuorumCertificate
    (.sample block31 0 .commit [1])
  let core := (Consensus.new st).run .sample
    [.updateValidatorSet [.sample 1 1, .sample 2 1], .newView view, .proposal 0 block32,
      .certificate (.sample block32 view .prepare [1, 2]),
      .certificate (.sample block32 view .preCommit [1, 2])]
  { Replica.new st with
    core := (core.commitBlock .sample (Env.sample.hash block32)).2
    staking := (StakingManager.new.credit 1 Validator.stakeUnit).credit 2 Validator.stakeUnit
    governance := ⟨AList.insert 7 ⟨7, "", .textProposal "", .passed, none⟩ ∅⟩ }

def boundaryOutcome (view : ℕ) : Outcome Unit :=
  (boundaryReplica view).finalizeBlock .sample (Env.sample.hash block32)

/-- Without missed views the rotation is complete. -/
theorem rotation_all_or_nothing_sample :
    (AllOrNothing .sample (boundaryReplica 1) (Env.sample.hash block32) block32 ∧
      Live .sample (boundaryReplica 1) (Env.sample.hash block32) block32) ∧
      (boundaryOutcome 1).1.toOption = some () := by
  have hfinalizable : Finalizable .sample (boundaryReplica 1) (Env.sample.hash block32) block32 := by
    have hcertified : ∃ u, Consensus.ensureCommittedBlockQcIsValid .sample (boundaryReplica 1).core
        (Env.sample.hash block32) = .ok u := Guards.exists_ok (by decide +kernel)
    obtain ⟨⟨⟩, hcertified⟩ := hcertified
    exact ⟨by decide +kernel, hcertified, by decide +kernel, by decide +kernel⟩
  have hready : RotationReady .sample
      ((boundaryReplica 1).finalizing .sample (Env.sample.hash block32) block32) :=
    (replaceable_candidates_iff _ _).1
      (ValidatorSet.replaceValidators_ok_iff.1 (Guards.exists_ok (by decide +kernel)))
  exact ⟨(rotation_all_or_nothing_iff hfinalizable (by decide)).1.2 hready, by decide +kernel⟩

/-- The leader has missed ten views and is jailed; the call fails with the block persisted, the
proposal executed and the view where it was, although the other validator is active. -/
theorem rotation_partial :
    (boundaryOutcome 11).1.toOption = none ∧
      (boundaryOutcome 11).2.core.currentView = 11 ∧
      (boundaryOutcome 11).2.core.finalizedBlockHeight = 32 ∧
      (boundaryOutcome 11).2.core.storage.blockHeaders.lookup 32 = some block32.header ∧
      (boundaryOutcome 11).2.governance.proposals.values.map Proposal.status = [.executed] ∧
      (boundaryOutcome 11).2.core.validatorSet.activeAddresses = {2} ∧
      (boundaryOutcome 11).2.staking.getStake 2 ≠ 0 := by
  decide +kernel

end Replica

end Sxiaum
