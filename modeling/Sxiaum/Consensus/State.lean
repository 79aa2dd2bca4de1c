import Sxiaum.Consensus.HotStuff

/-!
# The consensus state

`Consensus` (`consensus/src/lib.rs`) without its connections to the mempool and the
executor, and the rows it keeps in storage. Rows hold decoded values; a key is the tuple
of the fields it is built from. Staking rewards, slashing evidence, governance and
checkpoints have no effect on the fields below except through `Env.rotate`.
-/

namespace Sxiaum

/-- `DEFAULT_EPOCH_LENGTH`. -/
def epochLength : ℕ := 32

def maxPendingBlocks : ℕ := 256

def uptimeJailThreshold : ℕ := 10

def maxUnauthenticatedViewJump : ℕ := 32

/-! ### Storage rows -/

structure ConsensusStorage where
  /-- `vote_storage_key`: view, validator and block hash; the phase is not part of it. -/
  voteRows : HashMap (ℕ × Address × Hash) Vote
  /-- `qc_storage_key`: the block hash. -/
  qcRows : HashMap Hash QuorumCertificate
  validatorSetRow : Option (List Validator)
  currentViewRow : Option ℕ
  lockedBlockHeightRow : Option ℕ
  lockedBlockRow : Option Hash
  highestQcRow : Option QuorumCertificate
  blockHeaders : HashMap ℕ BlockHeader
  blockBodies : HashMap ℕ BlockBody

namespace ConsensusStorage

def empty : ConsensusStorage where
  voteRows := ∅
  qcRows := ∅
  validatorSetRow := none
  currentViewRow := none
  lockedBlockHeightRow := none
  lockedBlockRow := none
  highestQcRow := none
  blockHeaders := ∅
  blockBodies := ∅

/-- The number whose big-endian bytes are the little-endian bytes of a `u64`. -/
def swapBytes64 (n : ℕ) : ℕ :=
  (List.range 8).foldl (fun acc i => acc * 256 + n / 256 ^ i % 256) 0

/-- The order of vote rows in a scan: the view enters the key in little-endian bytes. -/
def VoteRowOrder (a b : Sigma fun _ : ℕ × Address × Hash => Vote) : Prop :=
  swapBytes64 a.1.1 < swapBytes64 b.1.1 ∨ swapBytes64 a.1.1 = swapBytes64 b.1.1 ∧
    (a.1.2.1 < b.1.2.1 ∨ a.1.2.1 = b.1.2.1 ∧ a.1.2.2 ≤ b.1.2.2)

instance : DecidableRel VoteRowOrder := fun _ _ => inferInstanceAs (Decidable (_ ∨ _))

def QcRowOrder (a b : Sigma fun _ : Hash => QuorumCertificate) : Prop := a.1 ≤ b.1

instance : DecidableRel QcRowOrder := fun a b => inferInstanceAs (Decidable (a.1 ≤ b.1))

variable (st : ConsensusStorage)

def scanVotes : List Vote :=
  (st.voteRows.entries.insertionSort VoteRowOrder).map Sigma.snd

def scanQcs : List QuorumCertificate :=
  (st.qcRows.entries.insertionSort QcRowOrder).map Sigma.snd

def persistVote (vote : Vote) : ConsensusStorage :=
  { st with voteRows := st.voteRows.insert (vote.view, vote.validator, vote.blockHash) vote }

def persistQuorumCertificate (qc : QuorumCertificate) : ConsensusStorage :=
  { st with
    qcRows := st.qcRows.insert qc.blockHash qc
    highestQcRow :=
      match st.highestQcRow with
      | some highest => if highest.view ≤ qc.view then some qc else some highest
      | none => some qc }

def persistLockedBlock (blockHash : Hash) (height : ℕ) : ConsensusStorage :=
  { st with lockedBlockHeightRow := some height, lockedBlockRow := some blockHash }

def persistBlock (block : Block) : ConsensusStorage :=
  { st with
    blockHeaders := st.blockHeaders.insert block.height block.header
    blockBodies := st.blockBodies.insert block.height block.body }

end ConsensusStorage

/-! ### The state -/

/-- A replica: its memory and its storage. -/
structure Consensus where
  validatorSet : ValidatorSet
  /-- `pacemaker.current_view`. -/
  currentView : ℕ
  voteCollector : VoteCollector
  hotstuff : HotStuff
  finalizedBlockHeight : ℕ
  missedSlots : MissedSlots
  highestQcBlock : Option Hash
  lockedBlockHeight : Option ℕ
  storage : ConsensusStorage
  pendingBlocks : HashMap Hash Block
  committedBlocks : HashMap Hash Block
  finalizedBlocks : Option (ℕ × Block)

/-- The result of a method that may fail after it has changed the state. -/
abbrev Consensus.Outcome (α : Type) := Except ConsensusError α × Consensus

namespace Consensus

/-- `Consensus::new_production` over a storage. -/
def new (storage : ConsensusStorage) : Consensus where
  validatorSet := .empty
  currentView := 0
  voteCollector := .empty
  hotstuff := .new
  finalizedBlockHeight := 0
  missedSlots := fun _ => 0
  highestQcBlock := none
  lockedBlockHeight := none
  storage := storage
  pendingBlocks := ∅
  committedBlocks := ∅
  finalizedBlocks := none

variable (env : Env) (s : Consensus)

def persistCurrentConsensusView : Consensus :=
  { s with storage := { s.storage with currentViewRow := some s.currentView } }

def persistValidatorSet : Consensus :=
  { s with storage :=
    { s.storage with validatorSetRow := some s.validatorSet.activeValidators } }

/-! ### The pacemaker -/

/-- `sync_view_with_network` and `handle_new_view_message`: a claimed view moves the counter
forward, by at most the jump limit. -/
def syncViewWithNetwork (networkView : ℕ) : Consensus :=
  if s.currentView < networkView ∧
      networkView ≤ satAdd64 s.currentView maxUnauthenticatedViewJump then
    { s with currentView := networkView }
  else s

/-- `advance_view`, which `on_timeout` calls. -/
def advanceView : Consensus :=
  { s with currentView := satAdd64 s.currentView 1 }

/-! ### Looking blocks up -/

/-- Pending, committed or the finalized tip. -/
def findBlock (hash : Hash) : Option Block :=
  match s.pendingBlocks.lookup hash with
  | some b => some b
  | none =>
    match s.committedBlocks.lookup hash with
    | some b => some b
    | none =>
      match s.finalizedBlocks with
      | some (_, b) => if env.hash b = hash then some b else none
      | none => none

/-- `leader_seed`: the hash of the finalized tip. -/
def leaderSeed : Hash :=
  match s.finalizedBlocks with
  | some (_, b) => env.hash b
  | none => 0

/-- The leader of the current view. -/
def currentLeader : Option Address :=
  s.validatorSet.getProposer env s.currentView (s.leaderSeed env)

end Consensus

end Sxiaum
