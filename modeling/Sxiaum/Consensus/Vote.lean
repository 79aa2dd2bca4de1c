import Sxiaum.Consensus.ValidatorSet

/-!
# Certificate verification and the vote collector

`QuorumCertificate::verify` and its variants, and `VoteCollector` (`hotstuff/vote.rs`).
-/

namespace Sxiaum

/-! ### Certificate verification -/

namespace QuorumCertificate

/-- The loop of `verify`; `seen` is the set of signers met so far. -/
def verifyEntries (env : Env) (vs : List Validator) (qc : QuorumCertificate) :
    List Address → List (Address × QcSignature) → Bool
  | _, [] => true
  | seen, (address, signature) :: rest =>
    if address ∈ seen then false
    else
      match vs.find? (·.address = address), signature with
      | some v, .ed25519 sig =>
        env.verifySignature v.pubkey ⟨address, qc.blockHash, qc.view, qc.phase⟩ sig &&
          verifyEntries env vs qc (address :: seen) rest
      | _, _ => false

def verify (env : Env) (vs : List Validator) (threshold : ℕ) (qc : QuorumCertificate) : Bool :=
  qc.signatures.length = qc.validators.length && threshold ≤ qc.validators.length &&
    verifyEntries env vs qc [] (qc.validators.zip qc.signatures)

/-- The voting power of a list of signers, or nothing if one of them is not in the set. -/
def signersPower (vs : List Validator) : ℕ → List Address → Option ℕ
  | total, [] => some total
  | total, address :: rest =>
    match vs.find? (·.address = address) with
    | some v => signersPower vs (satAdd64 total v.votingPower) rest
    | none => none

def verifyWithVotingPower (env : Env) (vs : List Validator) (threshold requiredPower : ℕ)
    (qc : QuorumCertificate) : Bool :=
  verify env vs threshold qc &&
    match signersPower vs 0 qc.validators with
    | some power => requiredPower ≤ power
    | none => false

def isGenesis (qc : QuorumCertificate) : Bool :=
  qc.blockHash = 0 && qc.view = 0 && qc.validators = []

/-- The fallback test of `verify_bls_with_voting_power`: no signature, or a first one of 64
bytes. -/
def usesEd25519 (qc : QuorumCertificate) : Bool :=
  match qc.signatures with
  | [] => true
  | .ed25519 _ :: _ => true
  | .other _ :: _ => false

def verifyBlsWithVotingPower (env : Env) (vs : List Validator) (threshold requiredPower : ℕ)
    (qc : QuorumCertificate) : Bool :=
  if qc.usesEd25519 then verifyWithVotingPower env vs threshold requiredPower qc
  else if qc.signatures.length ≠ qc.validators.length then false
  else if ¬ qc.validators.Nodup then false
  else
    match signersPower vs 0 qc.validators with
    | none => false
    | some power =>
      let keys := qc.validators.map fun a => (vs.find? (·.address = a)).bind Validator.blsPubkey
      if none ∈ keys then verifyWithVotingPower env vs threshold requiredPower qc
      else if power < requiredPower || qc.validators.length < threshold then false
      else if keys = [] then qc.isGenesis
      else env.verifyAggregate (keys.filterMap id) (qc.blockHash, qc.view, qc.phase) qc.signatures

end QuorumCertificate

/-- `reject_invalid_quorum_certificate` passes: the certificate verifies against the active
validators, with the set's signer count and voting power. -/
def ValidatorSet.verifies (env : Env) (s : ValidatorSet) (qc : QuorumCertificate) : Bool :=
  qc.verifyBlsWithVotingPower env s.activeValidators s.quorumThreshold s.requiredQuorumVotingPower

/-! ### The vote collector -/

structure VoteCollector where
  /-- Votes by view, block and phase. -/
  votes : HashMap (ℕ × Hash × VotePhase) (List Vote)
  /-- The block a validator voted for in a view and phase. -/
  validatorVotes : HashMap (ℕ × VotePhase × Address) Hash

namespace VoteCollector

def empty : VoteCollector := ⟨∅, ∅⟩

variable (env : Env) (c : VoteCollector) (vote : Vote)

def getVotedHashForPhase (view : ℕ) (phase : VotePhase) (validator : Address) : Option Hash :=
  c.validatorVotes.lookup (view, phase, validator)

def getValidatorVoteForPhase (view : ℕ) (phase : VotePhase)
    (validator : Address) : Option Vote := do
  let hash ← c.validatorVotes.lookup (view, phase, validator)
  let list ← c.votes.lookup (view, hash, phase)
  list.find? (·.validator = validator)

/-- The commit-reveal check of `add_vote`. -/
def checkReveal : Except ConsensusError Unit :=
  if vote.phase = .prepare then .ok ()
  else
    match c.getValidatorVoteForPhase vote.view .prepare vote.validator with
    | none => .ok ()
    | some prep =>
      if prep.entropyCommit = 0 then
        if vote.entropyReveal.isSome then .error .revealWithoutCommit else .ok ()
      else
        match vote.entropyReveal with
        | some reveal =>
          if env.sha256 reveal = prep.entropyCommit then .ok () else .error .revealMismatch
        | none => .error .missingReveal

/-- The insertion at the end of `add_vote`: a validator's second vote in a list is dropped. -/
def record : VoteCollector :=
  let key := (vote.view, vote.blockHash, vote.phase)
  let entry := (c.votes.lookup key).getD []
  let entry := if entry.any (·.validator = vote.validator) then entry else entry ++ [vote]
  { votes := c.votes.insert key entry
    validatorVotes := c.validatorVotes.insert (vote.view, vote.phase, vote.validator)
      vote.blockHash }

def addVote : Except ConsensusError VoteCollector :=
  match c.validatorVotes.lookup (vote.view, vote.phase, vote.validator) with
  | some previous =>
    if previous ≠ vote.blockHash then .error (.doubleVote vote.validator vote.view vote.phase)
    else (checkReveal env c vote).map fun _ => c.record vote
  | none => (checkReveal env c vote).map fun _ => c.record vote

/-- The XOR of the reveals that the votes carry. -/
def aggregateEntropy (votes : List Vote) : Hash :=
  votes.foldl (fun acc v => match v.entropyReveal with | some r => acc ^^^ r | none => acc) 0

def buildQuorumCertificateForPhase (view : ℕ) (blockHash : Hash)
    (phase : VotePhase) (threshold : ℕ) : Option QuorumCertificate :=
  match c.votes.lookup (view, blockHash, phase) with
  | none => none
  | some votes =>
    if votes.length < threshold then none
    else some
      { blockHash, view, phase
        aggregatedEntropy := aggregateEntropy votes
        signatures := votes.map fun v => .ed25519 v.signature
        validators := votes.map Vote.validator }

def prune (minView : ℕ) : VoteCollector where
  votes := c.votes.retain fun key _ => minView ≤ key.1
  validatorVotes := c.validatorVotes.retain fun key _ => minView ≤ key.1

end VoteCollector

end Sxiaum
