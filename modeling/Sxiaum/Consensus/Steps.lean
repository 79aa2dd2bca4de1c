import Sxiaum.Consensus.State

/-!
# The consensus handlers

`process_block_proposal`, `process_vote`, `process_quorum_certificate`, finalization and
restart (`consensus/src/lib.rs`). A handler that fails may already have changed the state,
so each returns its result together with the state it leaves.
-/

namespace Sxiaum.Consensus

variable (env : Env) (s : Consensus)

/-! ### Proposals -/

def resolveParentBlock (child : Block) : Except ConsensusError Block :=
  if child.height = 0 then .error .genesisProposal
  else
    match s.findBlock env child.parentHash with
    | some parent => .ok parent
    | none =>
      match s.storage.blockHeaders.lookup (child.height - 1) with
      | none => .error .unknownParent
      | some header =>
        if env.hashHeader header.unsigned ≠ child.parentHash then
          .error (.parentNotCanonical (child.height - 1))
        else
          match s.storage.blockBodies.lookup (child.height - 1) with
          | none => .error .missingParentBody
          | some body => .ok ⟨header, body⟩

def validateProposalParent (block : Block) :
    Except ConsensusError Unit := do
  let parent ← resolveParentBlock env s block
  if block.height ≠ satAdd64 parent.height 1 then
    throw (.heightNotAfterParent block.height parent.height)
  if block.parentHash ≠ env.hash parent then throw .notLinkedToParent
  if !block.header.verifyTimestamp parent.header.timestamp then throw .timestampNotAfterParent
  if block.height ≤ s.finalizedBlockHeight then throw .notAboveFinalized

def rejectProposalBelowLockedBlock (lockedBlockHash : Option Hash)
    (lockedBlockHeight : Option ℕ) (proposal : Block) : Except ConsensusError Unit :=
  match lockedBlockHeight with
  | none => .ok ()
  | some lockedHeight =>
    if proposal.height < lockedHeight then
      .error (.belowLockedBlock proposal.height lockedHeight)
    else
      match lockedBlockHash with
      | none => .ok ()
      | some lockedHash =>
        if proposal.height = lockedHeight ∧ env.hash proposal ≠ lockedHash then
          .error (.conflictsWithLockedBlock (env.hash proposal) lockedHash lockedHeight)
        else .ok ()

/-- The checks of `process_block_proposal` that come before the view synchronization. -/
def checkProposal (now : ℕ) (block : Block) :
    Except ConsensusError Unit := do
  if !env.validateMainnet now block then throw .invalidBlock
  validateProposalParent env s block
  if block.header.chainId ≠ chainIdMainnet then throw (.wrongChainId block.header.chainId)
  if block.header.version ≠ blockVersionCurrent then throw (.wrongVersion block.header.version)
  if maxPendingBlocks ≤ s.pendingBlocks.entries.length then
    throw (.tooManyPending s.pendingBlocks.entries.length)
  rejectProposalBelowLockedBlock env s.hotstuff.lockedBlock s.lockedBlockHeight block
  match s.validatorSet.validator block.header.proposer with
  | none => throw .proposerNotValidator
  | some v =>
    if !env.verifyHeaderSignature block.header v.pubkey then throw .invalidBlockSignature

/-- The next view in the search window that the proposer leads. -/
def viewLedBy (proposer : Address) : Option ℕ :=
  ((List.range' 1 (max s.validatorSet.activeValidatorCount 1 * 16)).map
    (wrapAdd64 s.currentView)).find? fun view =>
      s.validatorSet.getProposer env view (s.leaderSeed env) = some proposer

/-- The view synchronization of `process_block_proposal`. -/
def syncToProposer (proposer : Address) : Outcome Unit :=
  if s.currentLeader env = some proposer then (.ok (), s)
  else
    match viewLedBy env s proposer with
    | some view => (.ok (), (s.syncViewWithNetwork view).persistCurrentConsensusView)
    | none =>
      (.error (.invalidProposer s.currentView ((s.currentLeader env).getD 0) proposer), s)

def detectConflictingProposal (candidate : Block) : Bool :=
  s.pendingBlocks.values.any fun existing =>
    existing.height = candidate.height && existing.header.proposer = candidate.header.proposer &&
      env.hash existing ≠ env.hash candidate

def isConflictingBranch (candidate : Block) : Bool :=
  match s.finalizedBlocks with
  | some (_, finalized) =>
    finalized.height = candidate.height && env.hash finalized ≠ env.hash candidate
  | none => false

/-- The pending blocks that share the candidate's parent and are not the candidate. -/
def siblings (candidate : Block) : List Block :=
  s.pendingBlocks.values.filter fun existing =>
    existing.parentHash = candidate.parentHash && env.hash existing ≠ env.hash candidate

def detectFork (candidate : Block) : Bool :=
  s.siblings env candidate ≠ []

/-- The pending, committed and finalized blocks held in memory. -/
def knownBlocks : List Block :=
  s.pendingBlocks.values ++ s.committedBlocks.values ++ (s.finalizedBlocks.map Prod.snd).toList

def applyLongestChainRule (candidate : Block) : Bool :=
  s.knownBlocks.all fun b => b.height ≤ candidate.height

def preferCandidateBranch (candidate incumbent : Block) : Bool :=
  if candidate.height ≠ incumbent.height then incumbent.height < candidate.height
  else s.highestQcBlock = some (env.hash candidate) || s.highestQcBlock ≠ some (env.hash incumbent)

/-- The loop of `resolve_fork` over the hashes of the conflicting blocks. -/
def removeConflicting (env : Env) (candidate : Block) : List Hash → Consensus → Outcome Unit
  | [], s => (.ok (), s)
  | hash :: rest, s =>
    let removed := { s with pendingBlocks := s.pendingBlocks.erase hash }
    match s.pendingBlocks.lookup hash with
    | some conflicting =>
      if s.preferCandidateBranch env candidate conflicting then
        removeConflicting env candidate rest removed
      else (.error .keptExistingBranch, s)
    | none => removeConflicting env candidate rest removed

def resolveFork (candidate : Block) : Outcome Unit :=
  if !s.applyLongestChainRule candidate then (.error .shorterBranch, s)
  else removeConflicting env candidate ((s.siblings env candidate).map env.hash) s

/-- The part of `process_block_proposal` after the view synchronization. -/
def admitProposal (block : Block) : Outcome Unit :=
  if s.detectConflictingProposal env block then
    (.error (.conflictingProposal block.header.proposer block.height), s)
  else if s.isConflictingBranch env block then
    (.error (.conflictingBranch block.height block.parentHash), s)
  else
    match if s.detectFork env block then s.resolveFork env block else (.ok (), s) with
    | (.ok (), s) =>
      (.ok (), { s with pendingBlocks := s.pendingBlocks.insert (env.hash block) block })
    | (.error e, s) => (.error e, s)

def processBlockProposal (now : ℕ) (block : Block) : Outcome Unit :=
  match checkProposal env s now block with
  | .error e => (.error e, s)
  | .ok () =>
    match syncToProposer env s block.header.proposer with
    | (.ok (), s) => admitProposal env s block
    | (.error e, s) => (.error e, s)

/-! ### Finalization -/

def commitBlock (blockHash : Hash) : Outcome Unit :=
  if (s.committedBlocks.lookup blockHash).isSome ||
      s.finalizedBlocks.any (fun tip => env.hash tip.2 = blockHash) then (.ok (), s)
  else
    match s.pendingBlocks.lookup blockHash with
    | none => (.error .blockNotFoundForCommit, s)
    | some block =>
      (.ok (), { s with
        pendingBlocks := s.pendingBlocks.erase blockHash
        committedBlocks := s.committedBlocks.insert blockHash block })

def ensureCommittedBlockQcIsValid (blockHash : Hash) :
    Except ConsensusError Unit :=
  match s.storage.qcRows.lookup blockHash with
  | none => .error (.missingQuorumCertificate blockHash)
  | some qc => if s.validatorSet.verifies env qc then .ok () else .error .invalidQuorumCertificate

/-- One missed view: the elected leader's streak grows and at the threshold it is jailed. -/
def recordMissedView (view : ℕ) : Consensus :=
  match s.validatorSet.getProposer env view (s.leaderSeed env) with
  | none => s
  | some leader =>
    let missed := satAdd64 (s.missedSlots leader) 1
    let s := { s with missedSlots := Function.update s.missedSlots leader missed }
    if uptimeJailThreshold ≤ missed then
      match s.validatorSet.jailValidator leader with
      | .ok set =>
        { s with validatorSet := set, missedSlots := Function.update s.missedSlots leader 0 }
      | .error _ => s
    else s

/-- The views between the certificates of a block and of its parent. -/
def missedViews (blockHash parentHash : Hash) : List ℕ :=
  match s.storage.qcRows.lookup blockHash, s.storage.qcRows.lookup parentHash with
  | some qc, some parentQc =>
    let first := wrapAdd64 parentQc.view 1
    List.range' first (qc.view - first)
  | _, _ => []

def maybeRotateValidatorSetForNewEpoch : Outcome Unit :=
  if s.finalizedBlockHeight = 0 ∨ s.finalizedBlockHeight % epochLength ≠ 0 then (.ok (), s)
  else
    match env.rotate s.finalizedBlockHeight s.validatorSet s.missedSlots with
    | (ok, set, missed) =>
      let s := { s with validatorSet := set, missedSlots := missed }
      if ok then (.ok (), s.persistValidatorSet.persistCurrentConsensusView)
      else (.error .rotationFailed, s)

/-- The writes of `finalize_block` once its checks have passed. -/
def markFinalized (block : Block) : Consensus :=
  { s with
    finalizedBlockHeight := block.height
    storage := s.storage.persistBlock block
    finalizedBlocks := some (block.height, block)
    missedSlots := Function.update s.missedSlots block.header.proposer 0 }

/-- The end of `finalize_block`: a failed rotation leaves the view where it is. -/
def rotateAndAdvance : Outcome Unit :=
  match maybeRotateValidatorSetForNewEpoch env s with
  | (.ok (), s) => (.ok (), s.advanceView)
  | (.error e, s) => (.error e, s)

/-- `finalize_block` after the block has left `committed_blocks`. -/
def recordFinalized (blockHash : Hash) (block : Block) :
    Outcome Unit :=
  let s := s.markFinalized block
  rotateAndAdvance env ((s.missedViews blockHash block.parentHash).foldl (recordMissedView env) s)

def finalizeBlock (blockHash : Hash) : Outcome Unit :=
  if s.finalizedBlocks.any (fun tip => env.hash tip.2 = blockHash) then (.ok (), s)
  else
    match ensureCommittedBlockQcIsValid env s blockHash with
    | .error e => (.error e, s)
    | .ok () =>
      match s.committedBlocks.lookup blockHash with
      | none => (.error .blockNotFoundForFinalization, s)
      | some block =>
        if s.finalizedBlocks.any (fun tip => block.height ≤ tip.1) then
          (.error (.heightNotAdvancing block.height ((s.finalizedBlocks.map Prod.fst).getD 0)), s)
        else
          recordFinalized env { s with committedBlocks := s.committedBlocks.erase blockHash }
            blockHash block

/-- The pruning at the end of `finalize_block_once_quorum_reached`. -/
def pruneFinalized : Consensus :=
  { s with
    hotstuff := s.hotstuff.prune (s.currentView - 10)
    voteCollector := s.voteCollector.prune (s.currentView - 10)
    pendingBlocks := s.pendingBlocks.retain fun _ b => s.finalizedBlockHeight < b.height
    committedBlocks := s.committedBlocks.retain fun _ b => s.finalizedBlockHeight < b.height }

def finalizeBlockOnceQuorumReached (blockHash : Hash) :
    Outcome Unit :=
  match commitBlock env s blockHash with
  | (.error e, s) => (.error e, s)
  | (.ok (), s) =>
    let outcome := finalizeBlock env s blockHash
    (outcome.1, outcome.2.pruneFinalized)

/-! ### Certificates -/

def applyHighestQcRule (qc : QuorumCertificate) : Consensus :=
  match s.highestQcBlock with
  | none => { s with highestQcBlock := some qc.blockHash }
  | some highest =>
    let currentHeight := ((s.findBlock env highest).map Block.height).getD 0
    let candidateHeight := ((s.findBlock env qc.blockHash).map Block.height).getD 0
    if currentHeight ≤ candidateHeight then { s with highestQcBlock := some qc.blockHash } else s

/-- `process_quorum_certificate` up to the lookup of the block: the certificate's row, the
view row and the highest certificate. -/
def recordCertificate (qc : QuorumCertificate) : Consensus :=
  applyHighestQcRule env
    { s with storage := s.storage.persistQuorumCertificate qc }.persistCurrentConsensusView qc

/-- `process_quorum_certificate` after the commit rule has put the block in a phase. -/
def enterPhase (block : Block) (qc : QuorumCertificate)
    (advanced : HotStuffPhase) : Outcome HotStuffPhase :=
  match qc.phase, advanced with
  | .prepare, .prepare =>
    if s.hotstuff.verifyPreparePhase env s.validatorSet block qc then (.ok .prepare, s)
    else (.error .preparePhaseFailed, s)
  | .preCommit, .preCommit =>
    if s.hotstuff.verifyPreCommitPhase env s.validatorSet (env.hash block) qc then
      (.ok .preCommit, { s with
        lockedBlockHeight := some block.height
        storage := s.storage.persistLockedBlock (env.hash block) block.height })
    else (.error .preCommitPhaseFailed, s)
  | .commit, .finalize =>
    if s.hotstuff.verifyCommitPhase env s.validatorSet (env.hash block) qc then
      match finalizeBlockOnceQuorumReached env s (env.hash block) with
      | (.ok (), s) => (.ok .finalize, s)
      | (.error e, s) => (.error e, s)
    else (.error .commitPhaseFailed, s)
  | _, _ => (.error .phaseMismatch, s)

def processQuorumCertificate (qc : QuorumCertificate) :
    Outcome HotStuffPhase :=
  if !s.validatorSet.verifies env qc then (.error .invalidQuorumCertificate, s)
  else
    let s := recordCertificate env s qc
    match s.pendingBlocks.lookup qc.blockHash with
    | none => (.error .pendingBlockNotFound, s)
    | some block =>
      match s.hotstuff.applyThreePhaseCommitRule env s.validatorSet block qc with
      | .error e => (.error e, s)
      | .ok (advanced, hs) => enterPhase env { s with hotstuff := hs } block qc advanced

/-! ### Votes -/

def verifyValidatorVote (vote : Vote) : Except ConsensusError Unit :=
  match s.validatorSet.validator vote.validator with
  | none => .error (.unknownValidator vote.validator)
  | some v =>
    if !env.verifySignature v.pubkey vote.signingMessage vote.signature then
      .error (.invalidVoteSignature vote.validator)
    else if s.validatorSet.votingPower vote.validator = 0 then
      .error (.noVotingPower vote.validator)
    else .ok ()

/-- The view check at the start of `process_vote`. -/
def syncToVote (vote : Vote) : Outcome Unit :=
  if s.currentView < vote.view then
    if (s.pendingBlocks.lookup vote.blockHash).isSome then
      (.ok (), (s.syncViewWithNetwork vote.view).persistCurrentConsensusView)
    else (.error (.voteViewMismatch s.currentView vote.view), s)
  else if vote.view < s.currentView then
    (.error (.voteViewMismatch s.currentView vote.view), s)
  else (.ok (), s)

/-- The checks of `process_vote` after the view check. -/
def checkVote (vote : Vote) : Except ConsensusError Unit := do
  match s.pendingBlocks.lookup vote.blockHash with
  | none => throw .voteUnknownBlock
  | some block =>
    if s.hotstuff.voteConflictsWithLockedBlock env block then
      throw (.voteConflictsWithLock vote.blockHash s.hotstuff.lockedBlock)
  match s.voteCollector.getVotedHashForPhase vote.view vote.phase vote.validator with
  | some existing =>
    if existing ≠ vote.blockHash then throw (.doubleVote vote.validator vote.view vote.phase)
  | none => pure ()
  verifyValidatorVote env s vote

/-- `process_vote` up to the certificate it may complete. -/
def admitVote (vote : Vote) : Outcome (Option QuorumCertificate) :=
  match syncToVote s vote with
  | (.error e, s) => (.error e, s)
  | (.ok (), s) =>
    match checkVote env s vote with
    | .error e => (.error e, s)
    | .ok () =>
      match s.voteCollector.addVote env vote with
      | .error e => (.error e, s)
      | .ok collector =>
        (.ok (collector.buildQuorumCertificateForPhase vote.view vote.blockHash vote.phase
            s.validatorSet.quorumThreshold),
          { s with voteCollector := collector, storage := s.storage.persistVote vote })

def processVote (vote : Vote) : Outcome (Option QuorumCertificate) :=
  match admitVote env s vote with
  | (.error e, s) => (.error e, s)
  | (.ok none, s) => (.ok none, s)
  | (.ok (some qc), s) =>
    match processQuorumCertificate env s qc with
    | (.ok _, s) => (.ok (some qc), s)
    | (.error e, s) => (.error e, s)

/-- `generate_next_phase_vote`, without the signature. -/
def nextPhaseVote (validator : Address) (qc : QuorumCertificate) : Option VoteMessage :=
  match qc.phase with
  | .prepare => some ⟨validator, qc.blockHash, qc.view, .preCommit⟩
  | .preCommit => some ⟨validator, qc.blockHash, qc.view, .commit⟩
  | .commit => none

/-! ### Validator set, stop and start -/

def updateValidatorSet (vs : List Validator) : Outcome Unit :=
  match ValidatorSet.replaceValidators env vs with
  | .ok set => (.ok (), { s with validatorSet := set }.persistValidatorSet)
  | .error e => (.error e, s)

def stop : Consensus :=
  s.persistValidatorSet.persistCurrentConsensusView

/-- One step of the certificate scan of a restart: the highest view so far and its block. -/
def scanHighestQc (acc : ℕ × Option Hash) (qc : QuorumCertificate) : ℕ × Option Hash :=
  if acc.1 ≤ qc.view ∨ acc.2 = none then (qc.view, some qc.blockHash) else acc

/-- One step of the vote scan of a restart: votes the collector refuses are dropped. -/
def restoreVote (c : VoteCollector) (vote : Vote) : VoteCollector :=
  match c.addVote env vote with
  | .ok c => c
  | .error _ => c

def restoreConsensusStateOnRestart : Outcome Unit :=
  match (match s.storage.validatorSetRow with
      | some vs => ValidatorSet.replaceValidators env vs
      | none => .ok s.validatorSet) with
  | .error e => (.error e, s)
  | .ok set =>
    let highest := s.storage.scanQcs.foldl scanHighestQc (0, none)
    (.ok (), { s with
      validatorSet := set
      currentView := s.storage.currentViewRow.getD s.currentView
      voteCollector := s.storage.scanVotes.foldl (restoreVote env) s.voteCollector
      highestQcBlock := highest.2
      hotstuff := { s.hotstuff with highestQcView := highest.1 } })

def start : Outcome Unit :=
  match restoreConsensusStateOnRestart env s with
  | (.error e, s) => (.error e, s)
  | (.ok (), s) =>
    match s.storage.lockedBlockRow with
    | none => (.ok (), s)
    | some locked =>
      (.ok (), { s with
        hotstuff := { s.hotstuff with lockedBlock := some locked }
        lockedBlockHeight := s.storage.lockedBlockHeightRow })

/-- A crash and a new `Consensus` over the same storage. -/
def restart : Outcome Unit := start env (new s.storage)

/-! ### Runs -/

/-- What can happen to a consensus instance between restarts. -/
inductive Input where
  | proposal (now : ℕ) (block : Block)
  | vote (vote : Vote)
  | certificate (qc : QuorumCertificate)
  | timeout
  | newView (view : ℕ)
  | updateValidatorSet (vs : List Validator)
  | stop

/-- The state an input leaves, whether or not its handler succeeds. -/
def step : Input → Consensus
  | .proposal now block => (processBlockProposal env s now block).2
  | .vote vote => (processVote env s vote).2
  | .certificate qc => (processQuorumCertificate env s qc).2
  | .timeout => s.advanceView
  | .newView view => s.syncViewWithNetwork view
  | .updateValidatorSet vs => (s.updateValidatorSet env vs).2
  | .stop => s.stop

/-- The certificate an input hands to `process_quorum_certificate`, if any: one that was
received, or the one that a vote completes. -/
def certificateOf : Input → Option QuorumCertificate
  | .certificate qc => some qc
  | .vote vote =>
    match (admitVote env s vote).1 with
    | .ok qc => qc
    | .error _ => none
  | _ => none

/-- The certificate that an input hands over and that is processed without an error: the one
from which a node makes its next vote. -/
def acceptedBy : Input → Option QuorumCertificate
  | .certificate qc =>
    match (processQuorumCertificate env s qc).1 with
    | .ok _ => some qc
    | .error _ => none
  | .vote vote =>
    match (processVote env s vote).1 with
    | .ok qc => qc
    | .error _ => none
  | _ => none

def run (inputs : List Input) : Consensus :=
  inputs.foldl (step env) s

/-- The states of every run over every storage; a restart is a new start over the storage that
the run before it has left. -/
inductive Reachable (env : Env) : Consensus → Prop
  | start (st : ConsensusStorage) : Reachable env ((new st).start env).2
  | step {s : Consensus} (i : Input) : Reachable env s → Reachable env (s.step env i)

variable {env}

lemma Reachable.restart : Reachable env (s.restart env).2 :=
  .start s.storage

variable {s}

lemma Reachable.run (h : Reachable env s) (inputs : List Input) :
    Reachable env (s.run env inputs) := by
  induction inputs generalizing s with
  | nil => exact h
  | cons i rest ih => exact ih (.step i h)

/-! ### Sample inputs -/

def sampleStorage : ConsensusStorage :=
  ConsensusStorage.empty.persistBlock (Block.sample 0 0 0)

def sampleChain : ℕ → Block
  | 0 => Block.sample 0 0 0
  | n + 1 => Block.sample (Env.sample.hash (sampleChain n)) (n + 1) 1

def sampleCertificates (block : Block) : List Input :=
  [.certificate (.sample block 0 .prepare [1]), .certificate (.sample block 0 .preCommit [1]),
    .certificate (.sample block 0 .commit [1])]

end Sxiaum.Consensus
