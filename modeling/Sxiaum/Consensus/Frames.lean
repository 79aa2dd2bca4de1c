import Sxiaum.Consensus.Steps

/-!
# What the handlers leave alone

Proposals change the view and the pending blocks, votes the view and the collector, and
finalization reaches the voting state only by pruning it.
-/

namespace Sxiaum.Consensus

variable {env : Env} {s : Consensus} {i : Input} {qc : QuorumCertificate} {block : Block}

/-! ### Views -/

lemma syncViewWithNetwork_eq (view : ℕ) :
    ∃ v, s.syncViewWithNetwork view = { s with currentView := v } := by
  unfold syncViewWithNetwork
  split
  · exact ⟨_, rfl⟩
  · exact ⟨s.currentView, rfl⟩

/-! ### Proposals -/

lemma removeConflicting_eq (candidate : Block) (hashes : List Hash) :
    ∃ pending, (removeConflicting env candidate hashes s).2 =
      { s with pendingBlocks := pending } := by
  induction hashes generalizing s with
  | nil => exact ⟨s.pendingBlocks, rfl⟩
  | cons hash rest ih =>
    obtain ⟨pending, hrest⟩ := @ih { s with pendingBlocks := s.pendingBlocks.erase hash }
    simp only [removeConflicting]
    split
    · split
      · exact ⟨pending, hrest⟩
      · exact ⟨s.pendingBlocks, rfl⟩
    · exact ⟨pending, hrest⟩

lemma admitProposal_eq : ∃ pending,
    (s.admitProposal env block).2 = { s with pendingBlocks := pending } := by
  have hfork : ∃ pending, (if s.detectFork env block then s.resolveFork env block
      else (.ok (), s)).2 = { s with pendingBlocks := pending } := by
    split
    · unfold resolveFork
      split
      · exact ⟨s.pendingBlocks, rfl⟩
      · exact removeConflicting_eq _ _
    · exact ⟨s.pendingBlocks, rfl⟩
  obtain ⟨pending, hfork⟩ := hfork
  unfold admitProposal
  split
  · exact ⟨s.pendingBlocks, rfl⟩
  split
  · exact ⟨s.pendingBlocks, rfl⟩
  split
  · rename_i heq
    rw [heq] at hfork
    obtain rfl : _ = _ := hfork
    exact ⟨_, rfl⟩
  · rename_i heq
    rw [heq] at hfork
    exact ⟨pending, hfork⟩

lemma syncToProposer_eq (proposer : Address) : ∃ view viewRow,
    (s.syncToProposer env proposer).2 = { s with
      currentView := view
      storage := { s.storage with currentViewRow := viewRow } } := by
  unfold syncToProposer
  split
  · exact ⟨_, _, rfl⟩
  · split
    · rename_i view _
      obtain ⟨v, hv⟩ := @syncViewWithNetwork_eq s view
      rw [hv]
      exact ⟨_, _, rfl⟩
    · exact ⟨_, _, rfl⟩

/-- A proposal changes the view, its row and the pending blocks only. -/
lemma processBlockProposal_eq (now : ℕ) : ∃ view viewRow pending,
    (s.processBlockProposal env now block).2 = { s with
      currentView := view
      storage := { s.storage with currentViewRow := viewRow }
      pendingBlocks := pending } := by
  obtain ⟨view, viewRow, hsync⟩ := @syncToProposer_eq env s block.header.proposer
  unfold processBlockProposal
  split
  · exact ⟨_, _, _, rfl⟩
  · split
    · rename_i s' heq
      rw [heq] at hsync
      obtain ⟨pending, hadmitted⟩ := @admitProposal_eq env s' block
      rw [hadmitted]
      obtain rfl : s' = _ := hsync
      exact ⟨view, viewRow, pending, rfl⟩
    · rename_i heq
      rw [heq] at hsync
      exact ⟨view, viewRow, s.pendingBlocks, hsync⟩

/-! ### Votes -/

lemma syncToVote_eq (vote : Vote) : ∃ view viewRow, (s.syncToVote vote).2 = { s with
    currentView := view
    storage := { s.storage with currentViewRow := viewRow } } := by
  unfold syncToVote
  split
  · split
    · obtain ⟨v, hv⟩ := @syncViewWithNetwork_eq s vote.view
      rw [hv]
      exact ⟨_, _, rfl⟩
    · exact ⟨_, _, rfl⟩
  · split
    · exact ⟨_, _, rfl⟩
    · exact ⟨_, _, rfl⟩

/-- Before its certificate is handed on, a vote changes the view, the collector and their
rows only. -/
lemma admitVote_eq (vote : Vote) : ∃ view viewRow collector rows,
    (s.admitVote env vote).2 = { s with
      currentView := view
      voteCollector := collector
      storage := { s.storage with currentViewRow := viewRow, voteRows := rows } } := by
  obtain ⟨view, viewRow, hsync⟩ := @syncToVote_eq s vote
  unfold admitVote
  split
  · rename_i heq
    rw [heq] at hsync
    exact ⟨view, viewRow, _, _, hsync⟩
  · rename_i s' heq
    rw [heq] at hsync
    obtain rfl : s' = _ := hsync
    split
    · exact ⟨_, _, _, _, rfl⟩
    · split
      · exact ⟨_, _, _, _, rfl⟩
      · exact ⟨_, _, _, _, rfl⟩

lemma verifyValidatorVote_of_checkVote {vote : Vote} (h : s.checkVote env vote = .ok ()) :
    s.verifyValidatorVote env vote = .ok () := by
  unfold checkVote at h
  simp only [bind, Except.bind, throw, throwThe, MonadExceptOf.throw] at h
  split at h
  · cases h
  · split at h
    · cases h
    · split at h
      · split at h
        · cases h
        · exact h
      · exact h

lemma addVote_ok {c c' : VoteCollector} {vote : Vote} (h : c.addVote env vote = .ok c') :
    c' = c.record vote := by
  have hrecord : (c.checkReveal env vote).map (fun _ => c.record vote) = .ok c' →
      c' = c.record vote := by
    cases c.checkReveal env vote with
    | error e => exact fun h => by cases h
    | ok _ => exact fun h => by cases h; rfl
  unfold VoteCollector.addVote at h
  split at h
  · split_ifs at h
    exact hrecord h
  · exact hrecord h

/-- A vote is recorded only with a signature that verifies under a validator's key; its
certificate is built from the collector it is recorded in. -/
lemma admitVote_spec (vote : Vote) :
    ((s.admitVote env vote).2.voteCollector = s.voteCollector ∧
        ∃ e, (s.admitVote env vote).1 = .error e) ∨
      ((s.admitVote env vote).2.voteCollector = s.voteCollector.record vote ∧
        (∃ v, s.validatorSet.validator vote.validator = some v ∧
          env.verifySignature v.pubkey vote.signingMessage vote.signature = true) ∧
        (s.admitVote env vote).1 =
          .ok ((s.voteCollector.record vote).buildQuorumCertificateForPhase vote.view
            vote.blockHash vote.phase s.validatorSet.quorumThreshold)) := by
  obtain ⟨view, viewRow, hsync⟩ := @syncToVote_eq s vote
  unfold admitVote
  split
  · rename_i s' heq
    rw [heq] at hsync
    obtain rfl : s' = _ := hsync
    exact .inl ⟨rfl, _, rfl⟩
  · rename_i s' heq
    rw [heq] at hsync
    obtain rfl : s' = _ := hsync
    split
    · exact .inl ⟨rfl, _, rfl⟩
    · rename_i hcheck
      split
      · exact .inl ⟨rfl, _, rfl⟩
      · rename_i collector hadd
        obtain rfl := addVote_ok hadd
        refine .inr ⟨rfl, ?_, rfl⟩
        have hverify := verifyValidatorVote_of_checkVote hcheck
        unfold verifyValidatorVote at hverify
        split at hverify
        · cases hverify
        · rename_i v hv
          split_ifs at hverify with hsig
          exact ⟨v, hv, by simpa using hsig⟩

/-- A vote leaves the state before its certificate, or what that certificate makes of it. -/
lemma step_vote (vote : Vote) :
    (s.certificateOf env (.vote vote) = none ∧
        s.step env (.vote vote) = (s.admitVote env vote).2) ∨
      ∃ qc, s.certificateOf env (.vote vote) = some qc ∧ s.step env (.vote vote) =
        ((s.admitVote env vote).2.processQuorumCertificate env qc).2 := by
  rcases hadmitted : s.admitVote env vote with ⟨e | _ | qc, s'⟩
  · exact .inl (by simp [step, processVote, certificateOf, hadmitted])
  · exact .inl (by simp [step, processVote, certificateOf, hadmitted])
  · refine .inr ⟨qc, by simp [certificateOf, hadmitted], ?_⟩
    simp only [step, processVote, hadmitted]
    split <;> simp [*]

/-! ### Finalization -/

/-- The state that votes and certificates work on; `guard` is the locked height that
proposals are compared with. -/
structure Voting where
  hotstuff : HotStuff
  guard : Option ℕ
  collector : VoteCollector

def voting (s : Consensus) : Voting := ⟨s.hotstuff, s.lockedBlockHeight, s.voteCollector⟩

def Voting.prune (v : Voting) (minView : ℕ) : Voting :=
  { v with hotstuff := v.hotstuff.prune minView, collector := v.collector.prune minView }

lemma foldl_recordMissedView_eq (views : List ℕ) : ∃ set missed,
    views.foldl (recordMissedView env) s =
      { s with validatorSet := set, missedSlots := missed } := by
  induction views generalizing s with
  | nil => exact ⟨_, _, rfl⟩
  | cons view rest ih =>
    have hone : ∃ set missed, s.recordMissedView env view =
        { s with validatorSet := set, missedSlots := missed } := by
      unfold recordMissedView
      split
      · exact ⟨_, _, rfl⟩
      · dsimp only
        split
        · split <;> exact ⟨_, _, rfl⟩
        · exact ⟨_, _, rfl⟩
    obtain ⟨set, missed, heq⟩ := hone
    rw [List.foldl_cons, heq]
    exact ih

/-- The views that a replica can be in when a finalization prunes: a failed rotation leaves the
view where it is. -/
def PruneView (s : Consensus) (view : ℕ) : Prop :=
  view = s.currentView ∨ view = satAdd64 s.currentView 1

lemma recordFinalized_eq (hash : Hash) (block : Block) : ∃ view set missed viewRow setRow,
    s.PruneView view ∧ (s.recordFinalized env hash block).2 = { s.markFinalized block with
      currentView := view
      validatorSet := set
      missedSlots := missed
      storage := { (s.markFinalized block).storage with
        currentViewRow := viewRow, validatorSetRow := setRow } } := by
  obtain ⟨set, missed, hmissed⟩ := @foldl_recordMissedView_eq env (s.markFinalized block)
    ((s.markFinalized block).missedViews hash block.parentHash)
  rw [recordFinalized, hmissed]
  generalize hstart : { s.markFinalized block with validatorSet := set, missedSlots := missed } = s'
  have hrotate : ∃ set missed viewRow setRow,
      (s'.maybeRotateValidatorSetForNewEpoch env).2 = { s' with
        validatorSet := set
        missedSlots := missed
        storage := { s'.storage with currentViewRow := viewRow, validatorSetRow := setRow } } := by
    unfold maybeRotateValidatorSetForNewEpoch
    split
    · exact ⟨_, _, _, _, rfl⟩
    · dsimp only
      split <;> exact ⟨_, _, _, _, rfl⟩
  obtain ⟨set, missed, viewRow, setRow, hrotate⟩ := hrotate
  subst hstart
  unfold rotateAndAdvance
  split
  · rename_i heq
    rw [heq] at hrotate
    obtain rfl : _ = _ := hrotate
    exact ⟨_, _, _, _, _, .inr rfl, rfl⟩
  · rename_i heq
    rw [heq] at hrotate
    exact ⟨_, _, _, _, _, .inl rfl, hrotate⟩

lemma voting_finalizeBlock (hash : Hash) : (s.finalizeBlock env hash).2.voting = s.voting ∧
    s.PruneView (s.finalizeBlock env hash).2.currentView := by
  unfold finalizeBlock
  split
  · exact ⟨rfl, .inl rfl⟩
  split
  · exact ⟨rfl, .inl rfl⟩
  split
  · exact ⟨rfl, .inl rfl⟩
  split
  · exact ⟨rfl, .inl rfl⟩
  · rename_i block _ _
    obtain ⟨view, _, _, _, _, hview, heq⟩ := @recordFinalized_eq env
      { s with committedBlocks := s.committedBlocks.erase hash } hash block
    rw [heq]
    exact ⟨rfl, hview⟩

/-- Finalization prunes the voting state at the view it leaves, or keeps both. -/
lemma voting_finalizeBlockOnceQuorumReached (hash : Hash) :
    let s' := (s.finalizeBlockOnceQuorumReached env hash).2
    s.PruneView s'.currentView ∧
      (s'.voting = s.voting ∨ s'.voting = s.voting.prune (s'.currentView - 10)) := by
  have hcommit : ∃ pending committed, (s.commitBlock env hash).2 =
      { s with pendingBlocks := pending, committedBlocks := committed } := by
    unfold commitBlock
    split
    · exact ⟨_, _, rfl⟩
    · split <;> exact ⟨_, _, rfl⟩
  obtain ⟨pending, committed, hcommit⟩ := hcommit
  unfold finalizeBlockOnceQuorumReached
  split
  · rename_i heq
    rw [heq] at hcommit
    obtain rfl : _ = _ := hcommit
    exact ⟨.inl rfl, .inl rfl⟩
  · rename_i s' heq
    rw [heq] at hcommit
    obtain rfl : s' = _ := hcommit
    obtain ⟨hvoting, hview⟩ := @voting_finalizeBlock env
      { s with pendingBlocks := pending, committedBlocks := committed } hash
    exact ⟨hview, .inr (congrArg (Voting.prune · _) hvoting)⟩

/-! ### The certificate of an input -/

/-- The state in which the certificate of an input is processed. -/
def handing (env : Env) (s : Consensus) : Input → Consensus
  | .vote vote => (s.admitVote env vote).2
  | _ => s

lemma handing_eq (env : Env) (s : Consensus) (i : Input) : ∃ view viewRow collector rows,
    s.handing env i = { s with
      currentView := view
      voteCollector := collector
      storage := { s.storage with currentViewRow := viewRow, voteRows := rows } } := by
  cases i with
  | vote vote => exact admitVote_eq vote
  | _ => exact ⟨_, _, _, _, rfl⟩

lemma step_of_certificateOf (h : s.certificateOf env i = some qc) :
    s.step env i = ((s.handing env i).processQuorumCertificate env qc).2 := by
  cases i with
  | certificate qc' =>
    cases h
    rfl
  | vote vote =>
    rcases @step_vote env s vote with ⟨hnone, -⟩ | ⟨qc', hqc, hstep⟩
    · rw [hnone] at h
      cases h
    · rw [hqc] at h
      cases h
      exact hstep
  | _ => cases h

/-- Without a certificate an input is a proposal, or it changes the view, the validators, the
collector and their rows only. -/
lemma step_of_certificateOf_none (h : s.certificateOf env i = none) :
    (∃ now block, i = .proposal now block) ∨
      ∃ view set collector viewRow setRow rows, s.step env i = { s with
        currentView := view
        validatorSet := set
        voteCollector := collector
        storage := { s.storage with
          currentViewRow := viewRow, validatorSetRow := setRow, voteRows := rows } } := by
  cases i with
  | proposal now block => exact .inl ⟨now, block, rfl⟩
  | certificate qc => cases h
  | vote vote =>
    rcases @step_vote env s vote with ⟨-, hstep⟩ | ⟨qc, hqc, -⟩
    · obtain ⟨_, _, _, _, heq⟩ := @admitVote_eq env s vote
      exact .inr ⟨_, _, _, _, _, _, hstep.trans heq⟩
    · rw [h] at hqc
      cases hqc
  | newView view =>
    obtain ⟨_, heq⟩ := @syncViewWithNetwork_eq s view
    exact .inr ⟨_, _, _, _, _, _, heq⟩
  | updateValidatorSet vs =>
    refine .inr ?_
    simp only [step, updateValidatorSet]
    split <;> exact ⟨_, _, _, _, _, _, rfl⟩
  | _ => exact .inr ⟨_, _, _, _, _, _, rfl⟩

/-! ### Restarts -/

def storedSet (env : Env) (st : ConsensusStorage) : Except ConsensusError ValidatorSet :=
  match st.validatorSetRow with
  | some vs => ValidatorSet.replaceValidators env vs
  | none => .ok .empty

/-- A started instance in terms of the rows. -/
def restored (env : Env) (st : ConsensusStorage) (set : ValidatorSet) : Consensus :=
  let highest := st.scanQcs.foldl scanHighestQc (0, none)
  { new st with
    validatorSet := set
    currentView := st.currentViewRow.getD 0
    voteCollector := st.scanVotes.foldl (restoreVote env) .empty
    highestQcBlock := highest.2
    hotstuff := { HotStuff.new with highestQcView := highest.1, lockedBlock := st.lockedBlockRow }
    lockedBlockHeight := st.lockedBlockRow.bind fun _ => st.lockedBlockHeightRow }

/-- A start succeeds exactly if the stored validators pass their checks. -/
lemma start_new (st : ConsensusStorage) :
    (∃ e, storedSet env st = .error e ∧ (new st).start env = (.error e, new st)) ∨
      ∃ set, storedSet env st = .ok set ∧
        (new st).start env = (.ok (), restored env st set) := by
  unfold start
  cases hrestore : (new st).restoreConsensusStateOnRestart env with
  | mk result s =>
  unfold restoreConsensusStateOnRestart at hrestore
  split at hrestore
  · rename_i e hset
    cases hrestore
    exact .inl ⟨e, hset, rfl⟩
  · rename_i set hset
    cases hrestore
    refine .inr ⟨set, hset, ?_⟩
    cases hlock : st.lockedBlockRow with
    | none | some hash => simp only [restored, new, hlock]; rfl

end Sxiaum.Consensus
