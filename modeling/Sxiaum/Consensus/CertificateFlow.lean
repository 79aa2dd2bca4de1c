import Sxiaum.Consensus.BlockFlow

/-!
# What a certificate does

`process_quorum_certificate` by cases: the certificate is refused, it is recorded and goes
no further, or the commit rule moves its block to a phase and the replica prepares, locks
or finalizes it.
-/

namespace Sxiaum.Consensus

variable {env : Env} {s : Consensus} {qc : QuorumCertificate} {block : Block}

/-! ### Recording -/

/-- Recording a certificate writes its row, the view row and the highest certificate. -/
lemma recordCertificate_eq : s.recordCertificate env qc = { s with
    storage := { s.storage.persistQuorumCertificate qc with
      currentViewRow := some s.currentView }
    highestQcBlock := (s.recordCertificate env qc).highestQcBlock } := by
  simp only [recordCertificate, applyHighestQcRule]
  split
  · rfl
  · split <;> rfl

@[simp] lemma recordCertificate_hotstuff : (s.recordCertificate env qc).hotstuff = s.hotstuff := by
  rw [recordCertificate_eq]

@[simp] lemma recordCertificate_validatorSet :
    (s.recordCertificate env qc).validatorSet = s.validatorSet := by
  rw [recordCertificate_eq]

@[simp] lemma recordCertificate_pendingBlocks :
    (s.recordCertificate env qc).pendingBlocks = s.pendingBlocks := by
  rw [recordCertificate_eq]

@[simp] lemma recordCertificate_voteCollector :
    (s.recordCertificate env qc).voteCollector = s.voteCollector := by
  rw [recordCertificate_eq]

@[simp] lemma recordCertificate_lockedBlockHeight :
    (s.recordCertificate env qc).lockedBlockHeight = s.lockedBlockHeight := by
  rw [recordCertificate_eq]

/-- The state in which a phase is entered: the certificate is recorded and the commit rule has
been applied. -/
def certified (env : Env) (s : Consensus) (qc : QuorumCertificate) (hs : HotStuff) : Consensus :=
  { s.recordCertificate env qc with hotstuff := hs }

section certified

variable {hs : HotStuff}

@[simp] lemma certified_hotstuff : (s.certified env qc hs).hotstuff = hs := rfl

@[simp] lemma certified_validatorSet : (s.certified env qc hs).validatorSet = s.validatorSet :=
  recordCertificate_validatorSet

@[simp] lemma certified_pendingBlocks : (s.certified env qc hs).pendingBlocks = s.pendingBlocks :=
  recordCertificate_pendingBlocks

@[simp] lemma certified_committedBlocks :
    (s.certified env qc hs).committedBlocks = s.committedBlocks := by
  rw [certified, recordCertificate_eq]

@[simp] lemma certified_finalizedBlocks :
    (s.certified env qc hs).finalizedBlocks = s.finalizedBlocks := by
  rw [certified, recordCertificate_eq]

@[simp] lemma certified_lockedBlockHeight :
    (s.certified env qc hs).lockedBlockHeight = s.lockedBlockHeight :=
  recordCertificate_lockedBlockHeight

@[simp] lemma certified_storage : (s.certified env qc hs).storage =
    { s.storage.persistQuorumCertificate qc with currentViewRow := some s.currentView } := by
  rw [certified, recordCertificate_eq]

lemma blocks_certified : (s.certified env qc hs).blocks = s.blocks.certify env qc.blockHash :=
  blocks_recordCertificate qc

end certified

/-! ### Entering a phase -/

/-- The outcomes of `process_quorum_certificate` once the commit rule has succeeded. -/
inductive PhaseEntered (env : Env) (s : Consensus) (block : Block) (qc : QuorumCertificate) :
    HotStuffPhase → Outcome HotStuffPhase → Prop
  | failed (advanced : HotStuffPhase) (e : ConsensusError)
      (hpre : qc.phase = .preCommit → advanced = .preCommit →
        s.hotstuff.verifyPreCommitPhase env s.validatorSet (env.hash block) qc = false)
      (hcommit : qc.phase = .commit → advanced = .finalize →
        s.hotstuff.verifyCommitPhase env s.validatorSet (env.hash block) qc = false) :
      PhaseEntered env s block qc advanced (.error e, s)
  | prepared (hqc : qc.phase = .prepare)
      (hverify : s.hotstuff.verifyPreparePhase env s.validatorSet block qc = true) :
      PhaseEntered env s block qc .prepare (.ok .prepare, s)
  | locked (hqc : qc.phase = .preCommit)
      (hverify : s.hotstuff.verifyPreCommitPhase env s.validatorSet (env.hash block) qc = true) :
      PhaseEntered env s block qc .preCommit (.ok .preCommit, { s with
        lockedBlockHeight := some block.height
        storage := s.storage.persistLockedBlock (env.hash block) block.height })
  | finalized (hqc : qc.phase = .commit)
      (hverify : s.hotstuff.verifyCommitPhase env s.validatorSet (env.hash block) qc = true)
      (r : Outcome HotStuffPhase)
      (hstate : r.2 = (s.finalizeBlockOnceQuorumReached env (env.hash block)).2) :
      PhaseEntered env s block qc .finalize r

lemma enterPhase_entered (advanced : HotStuffPhase) :
    PhaseEntered env s block qc advanced (s.enterPhase env block qc advanced) := by
  unfold enterPhase
  split
  · rename_i hqc
    split
    · exact .prepared hqc ‹_›
    · exact .failed _ _ (by simp [hqc]) (by simp [hqc])
  · rename_i hqc
    split
    · exact .locked hqc ‹_›
    · rename_i hverify
      exact .failed _ _ (fun _ _ => Bool.not_eq_true _ ▸ hverify) (by simp [hqc])
  · rename_i hqc
    split
    · rename_i hverify
      refine .finalized hqc hverify _ ?_
      split <;> simp [*]
    · rename_i hverify
      exact .failed _ _ (by simp [hqc]) fun _ _ => Bool.not_eq_true _ ▸ hverify
  · rename_i hpre hcommit
    exact .failed _ _ (fun hqc hadv => absurd hadv (hpre hqc))
      fun hqc hadv => absurd hadv (hcommit hqc)

/-- The outcomes of `process_quorum_certificate`. -/
inductive CertificateEffect (env : Env) (s : Consensus) (qc : QuorumCertificate) :
    Outcome HotStuffPhase → Prop
  | rejected (hinvalid : s.validatorSet.verifies env qc = false) :
      CertificateEffect env s qc (.error .invalidQuorumCertificate, s)
  | recorded (hvalid : s.validatorSet.verifies env qc = true) (e : ConsensusError)
      (hstop : ∀ block, s.pendingBlocks.lookup qc.blockHash = some block →
        ∀ advanced hs, ¬ s.hotstuff.CommitRule env s.validatorSet block qc advanced hs) :
      CertificateEffect env s qc (.error e, s.recordCertificate env qc)
  | applied (hvalid : s.validatorSet.verifies env qc = true) (block : Block)
      (hpending : s.pendingBlocks.lookup qc.blockHash = some block)
      (advanced : HotStuffPhase) (hs : HotStuff)
      (hrule : s.hotstuff.CommitRule env s.validatorSet block qc advanced hs)
      (r : Outcome HotStuffPhase)
      (hphase : PhaseEntered env (s.certified env qc hs) block qc advanced r) :
      CertificateEffect env s qc r

theorem processQuorumCertificate_effect :
    CertificateEffect env s qc (s.processQuorumCertificate env qc) := by
  unfold processQuorumCertificate
  split
  · rename_i h
    exact .rejected (by simpa using h)
  · rename_i h
    have hvalid : s.validatorSet.verifies env qc = true := by simpa using h
    dsimp only
    split
    · rename_i hnone
      rw [recordCertificate_pendingBlocks] at hnone
      exact .recorded hvalid _ (by simp [hnone])
    · rename_i block hpending
      rw [recordCertificate_pendingBlocks] at hpending
      split
      · rename_i e hrule
        rw [recordCertificate_hotstuff, recordCertificate_validatorSet] at hrule
        refine .recorded hvalid _ fun b hb advanced hs hr => ?_
        rw [hpending] at hb
        cases hb
        rw [HotStuff.applyThreePhaseCommitRule_ok.2 hr] at hrule
        cases hrule
      · rename_i advanced hs hrule
        rw [recordCertificate_hotstuff, recordCertificate_validatorSet] at hrule
        exact .applied hvalid block hpending advanced hs
          (HotStuff.applyThreePhaseCommitRule_ok.1 hrule) _ (enterPhase_entered advanced)

/-! ### Blocks -/

/-- A Commit transition of the rule with a verified commit phase finalizes the block. -/
lemma finalizes_of_rule {hs : HotStuff} (hhash : env.hash block = qc.blockHash)
    (hvalid : s.validatorSet.verifies env qc = true) (hqc : qc.phase = .commit)
    (hpending : s.pendingBlocks.lookup qc.blockHash = some block)
    (hrule : s.hotstuff.CommitRule env s.validatorSet block qc .finalize hs)
    {set : ValidatorSet} (hverify : hs.verifyCommitPhase env set (env.hash block) qc = true) :
    Finalizes env s qc block := by
  rw [HotStuff.verifyCommitPhase, hhash] at hverify
  simp only [Bool.and_eq_true] at hverify
  have hcur : (s.hotstuff.blockPhase.lookup (env.hash block) = some .preCommit ∨
      s.hotstuff.blockPhase.lookup (env.hash block) = some .finalize) ∧
      hs.precommitQcs = s.hotstuff.precommitQcs := by
    cases hrule with
    | finalize hcur _ _ => exact ⟨.inl hcur, rfl⟩
    | finalizeAgain hcur _ => exact ⟨.inr hcur, rfl⟩
    | afterFinalize _ hqc' => exact absurd hqc hqc'
  rw [hhash] at hcur
  exact ⟨hvalid, hqc, hpending, hcur.1, hcur.2 ▸ hverify.1.1⟩

/-- A certificate leaves the blocks alone, becomes the highest one, or also finalizes its
block. -/
theorem processQuorumCertificate_blocks (hinj : Function.Injective env.hashHeader)
    (hplaced : s.blocks.Placed env) :
    ((∀ b, ¬ Finalizes env s qc b) ∧
        ((s.processQuorumCertificate env qc).2.blocks = s.blocks ∨
          (s.processQuorumCertificate env qc).2.blocks = s.blocks.certify env qc.blockHash)) ∨
      ∃ b, Finalizes env s qc b ∧ (s.processQuorumCertificate env qc).2.blocks =
        (s.blocks.certify env qc.blockHash).finalize env b := by
  have heffect := @processQuorumCertificate_effect env s qc
  generalize s.processQuorumCertificate env qc = outcome at heffect ⊢
  cases heffect with
  | rejected hinvalid =>
    exact .inl ⟨fun b hb => by simp [hb.verified] at hinvalid, .inl rfl⟩
  | recorded hvalid e hstop =>
    refine .inl ⟨fun b hb => ?_, .inr (blocks_recordCertificate qc)⟩
    obtain ⟨-, hqc, hpend, hcur, hpre⟩ := hb
    have hhash := hplaced.keyed _ b hpend
    rcases hcur with hcur | hcur
    · refine hstop b hpend _ _ (.finalize (hhash ▸ hcur) hqc ?_)
      rw [HotStuff.verifyCommitPhase, hhash]
      simp [hpre, hvalid]
    · exact hstop b hpend _ _ (.finalizeAgain (hhash ▸ hcur) hqc)
  | applied hvalid block hpending advanced hs hrule r hphase =>
    have hhash := hplaced.keyed _ block hpending
    have hunique : ∀ b, Finalizes env s qc b → b = block := fun b hb =>
      Option.some.inj (hb.pending.symm.trans hpending)
    cases hphase with
    | failed advanced e hpre hcommit =>
      refine .inl ⟨fun b hb => ?_, .inr blocks_certified⟩
      obtain rfl := hunique b hb
      -- it takes a Commit transition of the rule
      obtain ⟨hadv, hsame⟩ :
          advanced = .finalize ∧ hs.precommitQcs = s.hotstuff.precommitQcs := by
        have hqc := hb.phase
        cases hrule with
        | finalize _ _ _ | finalizeAgain _ _ => exact ⟨rfl, rfl⟩
        | prepare _ hqc' _ | prepareAgain _ hqc' | preCommit _ hqc' _ | preCommitAgain _ hqc'
        | afterPreCommit _ hqc' => simp [hqc] at hqc'
        | afterFinalize _ hqc' => exact absurd hqc hqc'
      have hverify := hcommit hb.phase hadv
      rw [HotStuff.verifyCommitPhase, hhash, certified_hotstuff, hsame] at hverify
      simp [hb.precommitted, hvalid] at hverify
    | prepared hqc hverify | locked hqc hverify =>
      exact .inl ⟨fun b hb => by simp [hb.phase] at hqc, .inr blocks_certified⟩
    | finalized hqc hverify r hstate =>
      refine .inr ⟨block, finalizes_of_rule hhash hvalid hqc hpending hrule hverify, ?_⟩
      rw [hstate, ← @blocks_certified env s qc hs]
      refine @blocks_finalizeBlockOnceQuorumReached env _ block qc ?_ ?_ ?_ ?_ ?_
      · rw [hhash]
        simpa using hpending
      · simpa using hplaced.committed
      · intro tip h
        exact hplaced.tip_lt hinj hpending (by simpa using h)
      · rw [hhash]
        simp [ConsensusStorage.persistQuorumCertificate]
      · simpa using hvalid

/-- The same for the certificate that an input hands over. -/
lemma step_blocks_of_certificateOf (hinj : Function.Injective env.hashHeader)
    (hplaced : s.blocks.Placed env) (h : s.certificateOf env i = some qc) :
    ((∀ b, ¬ Finalizes env s qc b) ∧ ((s.step env i).blocks = s.blocks ∨
        (s.step env i).blocks = s.blocks.certify env qc.blockHash)) ∨
      ∃ b, Finalizes env s qc b ∧
        (s.step env i).blocks = (s.blocks.certify env qc.blockHash).finalize env b := by
  have hblocks : (s.handing env i).blocks = s.blocks := blocks_handing
  have hspec := @processQuorumCertificate_blocks env _ qc hinj (hblocks.symm ▸ hplaced)
  simpa only [finalizes_handing, hblocks, ← step_of_certificateOf h] using hspec

/-! ### Phases -/

/-- What a certificate that is not refused may do to HotStuff: one transition of the commit
rule for its pending block, and the pruning of a finalization after it. -/
def RuleApplied (env : Env) (s : Consensus) (qc : QuorumCertificate) (hs' : HotStuff) : Prop :=
  ∃ block advanced hs, s.pendingBlocks.lookup qc.blockHash = some block ∧
    s.hotstuff.CommitRule env s.validatorSet block qc advanced hs ∧
    (hs' = hs ∨ ∃ minView, hs' = hs.prune minView)

/-- A certificate changes the voting state by the commit rule and by the pruning of a
finalization. -/
lemma voting_processQuorumCertificate :
    let s' := (s.processQuorumCertificate env qc).2
    (s'.hotstuff = s.hotstuff ∨ RuleApplied env s qc s'.hotstuff) ∧
      (s'.voteCollector = s.voteCollector ∨
        ∃ minView, s'.voteCollector = s.voteCollector.prune minView) := by
  have heffect := @processQuorumCertificate_effect env s qc
  generalize s.processQuorumCertificate env qc = outcome at heffect ⊢
  have hcollector : (s.recordCertificate env qc).voteCollector = s.voteCollector :=
    recordCertificate_voteCollector
  cases heffect with
  | rejected hinvalid => exact ⟨.inl rfl, .inl rfl⟩
  | recorded hvalid e hstop => exact ⟨.inl recordCertificate_hotstuff, .inl hcollector⟩
  | applied hvalid block hpending advanced hs hrule r hphase =>
    have happlied : ∀ hs', (hs' = hs ∨ ∃ minView, hs' = hs.prune minView) →
        RuleApplied env s qc hs' := fun _ h => ⟨block, advanced, hs, hpending, hrule, h⟩
    cases hphase with
    | failed advanced e hpre hcommit | prepared hqc hverify | locked hqc hverify =>
      exact ⟨.inr (happlied _ (.inl rfl)), .inl hcollector⟩
    | finalized hqc hverify r hstate =>
      rw [hstate, ← hcollector]
      rcases (@voting_finalizeBlockOnceQuorumReached env (s.certified env qc hs)
        (env.hash block)).2 with h | h
      · exact ⟨.inr (happlied _ (.inl (congrArg Voting.hotstuff h))),
          .inl (congrArg Voting.collector h)⟩
      · exact ⟨.inr (happlied _ (.inr ⟨_, congrArg Voting.hotstuff h⟩)),
          .inr ⟨_, congrArg Voting.collector h⟩⟩

/-- An input changes HotStuff only through the certificate it hands over. -/
theorem hotstuff_step (i : Input) : (s.step env i).hotstuff = s.hotstuff ∨
    ∃ qc, s.certificateOf env i = some qc ∧ RuleApplied env s qc (s.step env i).hotstuff := by
  cases hqc : s.certificateOf env i with
  | none =>
    refine .inl ?_
    rcases step_of_certificateOf_none hqc with ⟨now, block, rfl⟩ | ⟨_, _, _, _, _, _, heq⟩
    · obtain ⟨_, _, _, heq⟩ := @processBlockProposal_eq env s block now
      rw [step, heq]
    · rw [heq]
  | some qc =>
    have hmoved := (@voting_processQuorumCertificate env (s.handing env i) qc).1
    obtain ⟨_, _, _, _, heq⟩ := handing_eq env s i
    rw [← step_of_certificateOf hqc, RuleApplied, heq] at hmoved
    exact hmoved.imp_right fun h => ⟨qc, rfl, h⟩

/-- An input adds to the collector the vote it carries, and may prune it. -/
lemma voteCollector_step (i : Input) :
    let c := (s.handing env i).voteCollector
    (s.step env i).voteCollector = c ∨
      ∃ minView, (s.step env i).voteCollector = c.prune minView := by
  cases hqc : s.certificateOf env i with
  | some qc =>
    rw [step_of_certificateOf hqc]
    exact voting_processQuorumCertificate.2
  | none =>
    refine .inl ?_
    cases i with
    | proposal now block =>
      obtain ⟨_, _, _, heq⟩ := @processBlockProposal_eq env s block now
      rw [step, heq]
      rfl
    | vote vote =>
      rcases @step_vote env s vote with ⟨-, hstep⟩ | ⟨qc, hqc', -⟩
      · rw [hstep]
        rfl
      · rw [hqc] at hqc'
        cases hqc'
    | newView view =>
      obtain ⟨_, heq⟩ := @syncViewWithNetwork_eq s view
      rw [step, heq]
      rfl
    | updateValidatorSet vs =>
      simp only [step, updateValidatorSet]
      split <;> rfl
    | certificate qc => cases hqc
    | _ => rfl

end Sxiaum.Consensus
