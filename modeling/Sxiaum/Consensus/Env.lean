import Sxiaum.Block
import Sxiaum.Lib.HashMap

/-!
# Validators, votes and certificates

The records of the consensus crate, and the primitives it calls and does not define:
hashes, signatures, the checks of block contents and the epoch rotation, which reads the
staking, governance and slashing ledgers. They are fields of `Env`, so that a result
says which of their properties it uses.
-/

namespace Sxiaum

/-! ### Validators -/

inductive ValidatorStatus where
  | active
  | inactive
  | jailed
deriving DecidableEq, Repr

structure Validator where
  address : Address
  pubkey : ℕ
  stake : ℕ
  votingPower : ℕ
  status : ValidatorStatus
  blsPubkey : Option (List UInt8)
  blsPop : Option (List UInt8)
  commissionBps : ℕ
  missedBlocks : ℕ
  jailedUntil : Option ℕ
deriving DecidableEq, Repr

namespace Validator

def stakeUnit : ℕ := 1000000000000000000

def calculateVotingPower (stake : ℕ) : ℕ :=
  if stake < stakeUnit then 0 else min (stake / stakeUnit) u64Max

def isActive (v : Validator) : Bool := v.status = .active

def isJailed (v : Validator) : Bool := v.status = .jailed

end Validator

/-! ### Votes and certificates -/

inductive VotePhase where
  | prepare
  | preCommit
  | commit
deriving DecidableEq, Repr

/-- The message a vote signature covers; the digest of the source is taken to be the
fields it is computed from. -/
structure VoteMessage where
  validator : Address
  blockHash : Hash
  view : ℕ
  phase : VotePhase
deriving DecidableEq, Repr

structure Vote where
  validator : Address
  blockHash : Hash
  view : ℕ
  phase : VotePhase
  entropyCommit : Hash
  entropyReveal : Option Hash
  signature : ℕ
deriving DecidableEq, Repr

def Vote.signingMessage (v : Vote) : VoteMessage := ⟨v.validator, v.blockHash, v.view, v.phase⟩

/-- A signature inside a certificate: 64 bytes, or a byte string of another length. -/
inductive QcSignature where
  | ed25519 (bytes : ℕ)
  | other (bytes : List UInt8)
deriving DecidableEq, Repr

structure QuorumCertificate where
  blockHash : Hash
  view : ℕ
  phase : VotePhase
  aggregatedEntropy : Hash
  signatures : List QcSignature
  validators : List Address
deriving DecidableEq, Repr

/-! ### Errors -/

/-- The errors of the consensus crate, with the data their messages print. -/
inductive ConsensusError where
  -- `process_block_proposal` and the checks it calls
  | invalidBlock
  | genesisProposal
  | unknownParent
  | parentNotCanonical (parentHeight : ℕ)
  | missingParentBody
  | heightNotAfterParent (height parentHeight : ℕ)
  | notLinkedToParent
  | timestampNotAfterParent
  | notAboveFinalized
  | wrongChainId (chainId : ℕ)
  | wrongVersion (version : ℕ)
  | tooManyPending (count : ℕ)
  | belowLockedBlock (height lockedHeight : ℕ)
  | conflictsWithLockedBlock (hash lockedHash : Hash) (height : ℕ)
  | proposerNotValidator
  | invalidBlockSignature
  | invalidProposer (view : ℕ) (expected got : Address)
  | conflictingProposal (proposer : Address) (height : ℕ)
  | conflictingBranch (height : ℕ) (parentHash : Hash)
  | shorterBranch
  | keptExistingBranch
  -- `process_vote` and the vote collector
  | voteViewMismatch (expected got : ℕ)
  | voteUnknownBlock
  | voteConflictsWithLock (hash : Hash) (locked : Option Hash)
  | doubleVote (validator : Address) (view : ℕ) (phase : VotePhase)
  | revealWithoutCommit
  | revealMismatch
  | missingReveal
  | unknownValidator (validator : Address)
  | invalidVoteSignature (validator : Address)
  | noVotingPower (validator : Address)
  -- `process_quorum_certificate`, the commit rule and finalization
  | invalidQuorumCertificate
  | pendingBlockNotFound
  | preparePhaseFailed
  | preCommitPhaseFailed
  | commitPhaseFailed
  | invalidPhaseTransition
  | phaseMismatch
  | blockNotFoundForCommit
  | blockNotFoundForFinalization
  | missingQuorumCertificate (hash : Hash)
  | heightNotAdvancing (height finalizedHeight : ℕ)
  | rotationFailed
  -- the validator set
  | invalidValidator (validator : Address)
  | jailedValidator (validator : Address)
  | zeroStake (validator : Address)
  | missingBlsPop (validator : Address)
  | invalidBlsPop (validator : Address)
  | duplicateAddress (validator : Address)
  | duplicateBlsKey (validator : Address)
  | tooManyValidators
  | validatorNotFound (validator : Address)
deriving DecidableEq, Repr

/-! ### Validator set and uptime -/

structure ValidatorSet where
  validators : HashMap Address Validator
  totalStake : ℕ

instance : DecidableEq ValidatorSet := fun a b =>
  decidable_of_iff (a.validators.entries = b.validators.entries ∧ a.totalStake = b.totalStake) <| by
    cases a
    cases b
    simp [AList.ext_iff]

/-- `UptimeMonitor`: consecutive missed slots by address. -/
abbrev MissedSlots := Address → ℕ

/-! ### Primitives -/

/-- What the consensus code calls and does not define. -/
structure Env where
  /-- The digest of an unsigned header. -/
  hashHeader : BlockHeader → Hash
  /-- `Block::validate_basic`. -/
  validateBasic : Block → Bool
  /-- `Block::validate_mainnet` at a local time. -/
  validateMainnet : ℕ → Block → Bool
  /-- `BlockHeader::verify_signature` under a public key. -/
  verifyHeaderSignature : BlockHeader → ℕ → Bool
  /-- `Validator::verify_signature` under a public key. -/
  verifySignature : ℕ → VoteMessage → ℕ → Bool
  /-- `verify_bls_aggregate_signature` after its length and duplicate checks. -/
  verifyAggregate : List (List UInt8) → Hash × ℕ × VotePhase → List QcSignature → Bool
  /-- The first eight bytes of the digest of a seed and a view. -/
  leaderRandom : Hash → ℕ → ℕ
  /-- `sha256` of an entropy reveal. -/
  sha256 : Hash → Hash
  /-- The public key is a curve point and not a placeholder. -/
  validKey : ℕ → Bool
  /-- `Address::from_public_key`. -/
  addressOf : ℕ → Address
  /-- `verify_proof_of_possession`. -/
  verifyPop : List UInt8 → List UInt8 → Bool
  /-- The epoch rotation at a height past the boundary check: whether it succeeds, and the
  validator set and missed slots it leaves. -/
  rotate : ℕ → ValidatorSet → MissedSlots → Bool × ValidatorSet × MissedSlots

/-- `Block::try_hash`. -/
def Env.hash (env : Env) (b : Block) : Hash := env.hashHeader b.header.unsigned

/-- With a collision-free header digest, blocks of one hash have one height and parent. -/
lemma Env.header_eq_of_hash_eq {env : Env} (hinj : Function.Injective env.hashHeader)
    {a b : Block} (h : env.hash a = env.hash b) :
    a.height = b.height ∧ a.parentHash = b.parentHash := by
  have hu : a.header.unsigned = b.header.unsigned := hinj h
  constructor
  · simpa [Block.height] using congrArg BlockHeader.height hu
  · simpa [Block.parentHash] using congrArg BlockHeader.parentHash hu

/-! ### A concrete environment -/

/-- A collision-free digest: all fields of a header, encoded as one positive number. -/
def encodeHeader (h : BlockHeader) : Hash :=
  Encodable.encode (h.parentHash, h.height, h.proposer, h.timestamp, h.chainId, h.version,
    h.stateRoot, h.txRoot, h.receiptsRoot, h.validatorRoot, h.zkProof.map (·.map UInt8.toNat),
    h.randomnessBeacon, h.gasLimit, h.gasUsed, h.extraData.map UInt8.toNat, h.signature) + 1

lemma encodeHeader_injective : Function.Injective encodeHeader := by
  have hbytes : Function.Injective (List.map UInt8.toNat) :=
    List.map_injective_iff.2 fun _ _ => UInt8.toNat_inj.1
  intro a b h
  have hfields := Encodable.encode_injective (Nat.succ_injective h)
  simp only [Prod.mk.injEq] at hfields
  obtain ⟨h1, h2, h3, h4, h5, h6, h7, h8, h9, h10, h11, h12, h13, h14, h15, h16⟩ := hfields
  have hzk := Option.map_injective hbytes h11
  have hextra := hbytes h15
  cases a
  cases b
  simp_all

/-- An environment in which a public key is its owner's address and its own signature, every
block body is valid and the election always picks the first active validator. -/
def Env.sample : Env where
  hashHeader := encodeHeader
  validateBasic _ := true
  validateMainnet _ _ := true
  verifyHeaderSignature header pubkey := header.signature = some pubkey
  verifySignature pubkey _ signature := signature = pubkey
  verifyAggregate _ _ _ := false
  leaderRandom _ _ := 0
  sha256 := id
  validKey _ := true
  addressOf := id
  verifyPop _ _ := true
  rotate _ set missed := (true, set, missed)

lemma Env.sample_injective : Function.Injective Env.sample.hashHeader := encodeHeader_injective

def Validator.sample (address power : ℕ) : Validator where
  address := address
  pubkey := address
  stake := power * stakeUnit
  votingPower := power
  status := .active
  blsPubkey := some (List.replicate 48 (UInt8.ofNat address))
  blsPop := some (List.replicate 96 0)
  commissionBps := 0
  missedBlocks := 0
  jailedUntil := none

def Block.sample (parentHash : Hash) (height : ℕ) (proposer : Address) : Block :=
  ⟨.sample parentHash height proposer, ⟨[], []⟩⟩

def QuorumCertificate.sample (block : Block) (view : ℕ) (phase : VotePhase)
    (signers : List Address) : QuorumCertificate where
  blockHash := Env.sample.hash block
  view := view
  phase := phase
  aggregatedEntropy := 0
  signatures := signers.map .ed25519
  validators := signers

end Sxiaum
