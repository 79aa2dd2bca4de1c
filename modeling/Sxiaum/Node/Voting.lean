import Sxiaum.Consensus.Steps

/-!
# The voting side of a node

The event handlers of the node (`node.rs`) that drive consensus and send votes. A handler is
cut into tasks at each call into consensus and at each broadcast, and the node keeps the
tasks that are left of the handler it runs, so that a crash can fall between any two of them.
What the handlers take from the mempool, the executor and the proof engine is part of the
event: whether a block passes those checks, and the block that block building returns.
-/

namespace Sxiaum

/-- The node's own identity and mode. -/
structure NodeConfig where
  validatorAddress : Address
  /-- `NodeMode::Validator`. -/
  validatorMode : Bool
  /-- The signature of the node's key. -/
  sign : VoteMessage → ℕ

namespace Node

/-- What is left to do of a handler. -/
inductive Task where
  /-- `handle_network_block_proposal`; `proofs` are the validator root and the validity proof,
  `executes` the transaction checks, the execution and the state root. -/
  | networkBlockProposal (now : ℕ) (block : Block) (proofs executes : Bool)
  /-- `ConsensusEvent::BlockProposal`. -/
  | blockProposal (now : ℕ) (block : Block)
  /-- `produce_and_broadcast_block_proposal`, with the block that building returns. -/
  | produce (now : ℕ) (block : Option Block)
  /-- `cast_and_broadcast_vote`. -/
  | castVote (blockHash : Hash)
  /-- `ConsensusEvent::Vote`. -/
  | vote (vote : Vote)
  /-- The loop over a vote and the votes it leads to. -/
  | voteLoop (generated : List Vote) (vote : Vote)
  /-- `ConsensusEvent::QuorumCertificate`. -/
  | certificate (qc : QuorumCertificate)
  /-- The node's own vote after a certificate, counted before it is sent. -/
  | ownVote (vote : Vote)
  | broadcast (vote : Vote)
  /-- `ConsensusEvent::Tick`. -/
  | tick (timedOut : Bool) (now : ℕ) (block : Option Block)
  /-- `stop`. -/
  | stop

/-- The tasks that an event starts with; the others come from tasks before them. -/
def Task.isEvent : Task → Bool
  | .castVote _ | .voteLoop _ _ | .ownVote _ | .broadcast _ => false
  | _ => true

end Node

structure Node where
  /-- The node has started; one whose start fails does nothing. -/
  running : Bool
  consensus : Consensus
  lastProposedView : Option ℕ
  lastVotedView : Option ℕ
  tasks : List Node.Task
  /-- The votes that have been broadcast. -/
  sent : List VoteMessage

namespace Node

variable (env : Env) (cfg : NodeConfig)

/-- `Node::new` and `start`; the votes of earlier lives of the node stay sent. -/
def start (storage : ConsensusStorage) (sent : List VoteMessage) : Node :=
  match (Consensus.new storage).start env with
  | (.ok (), s) => ⟨true, s, none, none, [], sent⟩
  | (.error _, s) => ⟨false, s, none, none, [], sent⟩

def signVote (m : VoteMessage) : Vote where
  validator := m.validator
  blockHash := m.blockHash
  view := m.view
  phase := m.phase
  entropyCommit := 0
  entropyReveal := none
  signature := cfg.sign m

variable (s : Consensus) (node : Node)

def validateGossipBlockAuthenticity (block : Block) (proofs : Bool) : Bool :=
  block.height = 0 ||
    (s.currentLeader env = some block.header.proposer &&
      (match s.validatorSet.validator block.header.proposer with
        | some v => env.verifyHeaderSignature block.header v.pubkey
        | none => false) &&
      (match s.storage.qcRows.lookup block.parentHash with
        | some qc => s.validatorSet.verifies env qc && qc.blockHash = block.parentHash
        | none => false) &&
      (s.storage.blockHeaders.lookup (block.height - 1)).isSome && proofs)

/-- The checks of `handle_network_block_proposal` before consensus sees the block. -/
def checkNetworkBlockProposal (now : ℕ) (block : Block) (proofs executes : Bool) : Bool :=
  s.finalizedBlockHeight < block.height && validateGossipBlockAuthenticity env s block proofs &&
    env.validateMainnet now block && block.header.chainId = chainIdMainnet &&
    block.header.version = blockVersionCurrent && executes

def isLocalLeader : Bool :=
  match s.currentLeader env with
  | some leader => leader = cfg.validatorAddress
  | none => cfg.validatorAddress ≠ 0

/-- Hand a block to consensus and, if it is accepted, vote for it. -/
def admitAndCast (now : ℕ) (block : Block) : Node × List Task :=
  match node.consensus.processBlockProposal env now block with
  | (.ok (), s) => ({ node with consensus := s }, [.castVote (env.hash block)])
  | (.error _, s) => ({ node with consensus := s }, [])

/-- One task: the node it leaves and the tasks that come next. -/
def exec : Task → Node × List Task
  | .networkBlockProposal now block proofs executes =>
    if checkNetworkBlockProposal env node.consensus now block proofs executes then
      admitAndCast env node now block
    else (node, [])
  | .blockProposal now block =>
    ({ node with consensus := (node.consensus.processBlockProposal env now block).2 }, [])
  | .produce now block =>
    if cfg.validatorMode && isLocalLeader env cfg node.consensus &&
        node.lastProposedView ≠ some node.consensus.currentView then
      match block with
      | some block =>
        admitAndCast env { node with lastProposedView := some node.consensus.currentView } now block
      | none => (node, [])
    else (node, [])
  | .castVote blockHash =>
    let view := node.consensus.currentView
    if !cfg.validatorMode || node.lastVotedView = some view then (node, [])
    else
      let message : VoteMessage := ⟨cfg.validatorAddress, blockHash, view, .prepare⟩
      ({ node with lastVotedView := some view, sent := message :: node.sent },
        [.vote (signVote cfg message)])
  | .vote vote =>
    if vote.view < node.consensus.currentView then (node, []) else (node, [.voteLoop [] vote])
  | .voteLoop generated vote =>
    match node.consensus.processVote env vote with
    | (.error _, s) => ({ node with consensus := s }, [])
    | (.ok none, s) => ({ node with consensus := s }, generated.map .broadcast)
    | (.ok (some qc), s) =>
      match if cfg.validatorMode then Consensus.nextPhaseVote cfg.validatorAddress qc else none with
      | some message =>
        let next := signVote cfg message
        ({ node with consensus := s }, [.voteLoop (generated ++ [next]) next])
      | none => ({ node with consensus := s }, generated.map .broadcast)
  | .certificate qc =>
    match node.consensus.processQuorumCertificate env qc with
    | (.error _, s) => ({ node with consensus := s }, [])
    | (.ok _, s) =>
      match if cfg.validatorMode then Consensus.nextPhaseVote cfg.validatorAddress qc else none with
      | some message => ({ node with consensus := s }, [.ownVote (signVote cfg message)])
      | none => ({ node with consensus := s }, [])
  | .ownVote vote =>
    ({ node with consensus := (node.consensus.processVote env vote).2 }, [.broadcast vote])
  | .broadcast vote => ({ node with sent := vote.signingMessage :: node.sent }, [])
  | .tick timedOut now block =>
    ({ node with consensus :=
        if timedOut then node.consensus.advanceView else node.consensus },
      [.produce now block])
  | .stop => ({ node with consensus := node.consensus.stop }, [])

/-- What can happen to a node. -/
inductive Move where
  /-- An event is taken up once the handler before it is done. -/
  | event (task : Task)
  /-- The running handler goes on. -/
  | proceed
  /-- A crash and a new start. Consensus writes its rows one by one, so a crash inside one of
  its calls leaves a storage between those before and after the call. -/
  | crash (storage : ConsensusStorage)

/-- The task that a move runs and the tasks left after it. -/
def next : Move → Option (Task × List Task)
  | .event task =>
    if node.running && node.tasks.isEmpty && task.isEvent then some (task, []) else none
  | .proceed =>
    match node.running, node.tasks with
    | true, task :: rest => some (task, rest)
    | _, _ => none
  | .crash _ => none

def step : Move → Node
  | .crash storage => start env storage node.sent
  | move =>
    match node.next move with
    | some (task, rest) =>
      let (node, tasks) := exec env cfg node task
      { node with tasks := tasks ++ rest }
    | none => node

def run (moves : List Move) : Node :=
  moves.foldl (step env cfg) node

end Node

end Sxiaum
