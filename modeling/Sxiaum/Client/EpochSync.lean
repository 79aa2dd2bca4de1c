import Sxiaum.Client.Votes

/-!
# Epoch handovers of the nano client

`EpochSyncManager` (`nano/src/epoch_sync.rs`): the validator set of an epoch with its voting
power, the quorum check over it and the handover to the next set. A manager carries the fact
that its set has been tallied. `compute_validator_set_hash` of the next set goes to the log
only: what the boundary header says about the next set is never looked at.
-/

namespace Sxiaum.Nano

open Guards

/-! ### Records -/

inductive NanoError where
  | heightMismatch (expected actual : ℕ)
  | parentHashMismatch (height : ℕ) (expected actual : String)
  | timestampRegression (height headerTime parentTime : ℕ)
  | futureTimestamp (height timestamp now maxDrift : ℕ)
  | invalidProposerSignature (height : ℕ) (reason : String)
  | validationFailed (height : ℕ) (reason : String)
  | chainIdMismatch (height expected actual : ℕ)
  | unsupportedChainId (configured canonical : ℕ)
  | proposerMismatch (headerProposer derived : String)
  | quorumNotReached (height accumulatedPower requiredThreshold totalStake : ℕ)
  | duplicateSignerInQc (height : ℕ) (validator : String)
  | unknownSigner (signer : String)
  | invalidVoteSignature (validator reason : String)
  | epochHandoverFailed (epoch : ℕ) (reason : String)
  | weakSubjectivityStale (checkpointTime currentTime maxWindowSecs : ℕ)
  | crypto (message : String)
  | gapRecovery (message : String)
deriving DecidableEq, Repr

structure ValidatorSignature where
  validator : Address
  signature : ℕ
deriving DecidableEq, Repr

structure EpochHandoverCertificate where
  epoch : ℕ
  boundaryHeader : BlockHeader
  consensusSignatures : List ValidatorSignature
  /-- View and phase tag of the votes. -/
  hotstuffViewPhase : Option (ℕ × ℕ)
  nextValidatorSet : List Validator
deriving DecidableEq, Repr

structure WeakSubjectivityCheckpoint where
  epoch : ℕ
  height : ℕ
  blockHash : Hash
  stateRoot : Hash
  validatorSet : List Validator
  timestamp : ℕ
  chainId : ℕ
deriving DecidableEq, Repr

/-! ### Validator sets -/

variable (o : ClientOracles)

def setErrors : SetErrors NanoError where
  zeroPower v :=
    let address := displayAddress v.address
    .epochHandoverFailed 0 s!"validator {address} has 0 voting power"
  addressMismatch v :=
    let address := displayAddress v.address
    let derived := displayAddress (o.checks.addressFromPublicKey v.pubkey)
    .epochHandoverFailed 0
      s!"validator {address} address does not match public key (derived {derived})"
  duplicate v :=
    let address := displayAddress v.address
    .epochHandoverFailed 0 s!"duplicate validator address {address}"
  overflow := .crypto "stake tally overflow"

def validateAndTallyStake (validators : List Validator) : Except NanoError ℕ := do
  bailIf (validators = []) (.epochHandoverFailed 0 "validator set cannot be empty")
  let total ← tallyActive o.checks.addressFromPublicKey (fun _ => .ok ()) (setErrors o) [] 0
    validators
  bailIf (total = 0) (.epochHandoverFailed 0 "total active stake is zero")
  return total

/-- A validator set and its voting power. -/
structure EpochSyncManager where
  currentEpoch : ℕ
  activeValidatorSet : List Validator
  totalActiveStake : ℕ
  tallied : validateAndTallyStake o activeValidatorSet = .ok totalActiveStake

namespace EpochSyncManager

def new (epoch : ℕ) (validatorSet : List Validator) : Except NanoError (EpochSyncManager o) :=
  match h : validateAndTallyStake o validatorSet with
  | .error e => .error e
  | .ok totalActiveStake => .ok ⟨epoch, validatorSet, totalActiveStake, h⟩

end EpochSyncManager

def signingDigest (validator : Address) (blockHash : Hash) : Option (ℕ × ℕ) → Hash
  | some (view, phase) => o.hotstuffVoteDigest validator blockHash view phase
  | none => blockHash

variable {o}

namespace EpochSyncManager

variable (m : EpochSyncManager o)

/-! ### Quorums -/

def quorumThreshold : ℕ :=
  let q := m.totalActiveStake / 3
  let r := m.totalActiveStake % 3
  min (q * 2) u128Max + (if r = 2 then 1 else 0) + 1

def voteErrors (height : ℕ) : VoteErrors NanoError where
  duplicate validator := .duplicateSignerInQc height (displayAddress validator)
  unknown validator := .unknownSigner (displayAddress validator)
  invalid validator :=
    .invalidVoteSignature (displayAddress validator) "ed25519 signature verification failed"
  overflow := .crypto "voting power overflow"

def findActive (address : Address) : Option Validator :=
  m.activeValidatorSet.find? fun v => v.address = address && v.isActive

def verifyQuorumSignatures (blockHash : Hash) (height : ℕ) (signatures : List ValidatorSignature)
    (hotstuffMeta : Option (ℕ × ℕ)) : Except NanoError Unit := do
  bailIf (signatures = [])
    (.quorumNotReached height 0 m.quorumThreshold m.totalActiveStake)
  let accumulatedPower ← tallyVotes (voteErrors height) m.findActive
    (fun v address signature =>
      o.verify v.pubkey (signingDigest o address blockHash hotstuffMeta) signature)
    [] 0 (signatures.map fun s => (s.validator, s.signature))
  bailIf (accumulatedPower < m.quorumThreshold)
    (.quorumNotReached height accumulatedPower m.quorumThreshold m.totalActiveStake)

/-! ### Handover and checkpoint -/

def verifyAndApplyHandover (certificate : EpochHandoverCertificate) (currentTime : ℕ) :
    Except NanoError (EpochSyncManager o) := do
  let epoch := certificate.epoch
  let current := m.currentEpoch
  bailIf (epoch ≠ current) (.epochHandoverFailed epoch
    s!"certificate epoch {epoch} does not match current local epoch {current}")
  (certificate.boundaryHeader.validateMainnet currentTime).mapError fun e =>
    .epochHandoverFailed epoch s!"invalid boundary header: {e}"
  -- the next state is computed before the signatures are looked at
  let next ← new o (satAdd64 current 1) certificate.nextValidatorSet
  let headerHash ← (o.checks.headerHash certificate.boundaryHeader).mapError .crypto
  m.verifyQuorumSignatures headerHash certificate.boundaryHeader.height
    certificate.consensusSignatures certificate.hotstuffViewPhase
  return next

/-- The manager of a checkpoint; nothing of the old one is kept. -/
def verifyAndApplyCheckpoint (checkpoint : WeakSubjectivityCheckpoint)
    (currentTime maxUnbondingSecs : ℕ) : Except NanoError (EpochSyncManager o) := do
  bailIf (checkpoint.chainId ≠ chainIdMainnet)
    (.chainIdMismatch checkpoint.height chainIdMainnet checkpoint.chainId)
  bailIf (satAdd64 checkpoint.timestamp maxUnbondingSecs < currentTime)
    (.weakSubjectivityStale checkpoint.timestamp currentTime maxUnbondingSecs)
  new o checkpoint.epoch checkpoint.validatorSet

/-! ### What the checks establish -/

variable {m} {next : EpochSyncManager o} {certificate : EpochHandoverCertificate}
  {currentTime : ℕ}

lemma new_self : new o m.currentEpoch m.activeValidatorSet = .ok m := by
  unfold new
  split
  · rename_i e h
    rw [m.tallied] at h
    cases h
  · rename_i total h
    have htotal : m.totalActiveStake = total := Except.ok.inj (m.tallied.symm.trans h)
    subst htotal
    rfl

lemma tallied_set : Tallied o.checks.addressFromPublicKey m.activeValidatorSet
    m.totalActiveStake := by
  have h := m.tallied
  simp only [validateAndTallyStake, bind_ok, exists_unit, bailIf_ok, pure_ok] at h
  obtain ⟨-, total, htotal, -, rfl⟩ := h
  exact tallied_of_ok htotal

lemma findActive_eq (address : Address) :
    m.findActive address = (activeOf m.activeValidatorSet).find? (·.address = address) := by
  rw [findActive, activeOf, List.find?_filter]
  refine congrFun (congrArg List.find? (funext fun v => ?_)) _
  rw [Bool.and_comm]
  simp

lemma heavy_of_threshold {power : ℕ} (h : m.quorumThreshold ≤ power) :
    2 * m.totalActiveStake < 3 * power := by
  have hbound := (tallied_set (m := m)).bound
  unfold quorumThreshold at h
  dsimp only at h
  split_ifs at h <;> omega

lemma quorum_of_verified {blockHash : Hash} {height : ℕ} {signatures : List ValidatorSignature}
    {hotstuffMeta : Option (ℕ × ℕ)}
    (h : m.verifyQuorumSignatures blockHash height signatures hotstuffMeta = .ok ()) :
    QuorumHas m.activeValidatorSet fun v => ∃ signature,
      o.verify v.pubkey (signingDigest o v.address blockHash hotstuffMeta) signature = true := by
  simp only [verifyQuorumSignatures, bind_ok, exists_unit, bailIf_ok, not_lt] at h
  obtain ⟨-, power, hpower, hthreshold⟩ := h
  refine (quorumHas_of_tallies tallied_set findActive_eq hpower
    (heavy_of_threshold hthreshold)).mono fun v _ hv => ?_
  obtain ⟨signature, -, hvalid⟩ := hv
  exact ⟨signature, hvalid⟩

lemma handover_ok (h : m.verifyAndApplyHandover certificate currentTime = .ok next) :
    certificate.epoch = m.currentEpoch ∧
      certificate.boundaryHeader.validateMainnet currentTime = .ok () ∧
      next.currentEpoch = satAdd64 m.currentEpoch 1 ∧
      next.activeValidatorSet = certificate.nextValidatorSet ∧
      ∃ headerHash, o.checks.headerHash certificate.boundaryHeader = .ok headerHash ∧
        m.verifyQuorumSignatures headerHash certificate.boundaryHeader.height
          certificate.consensusSignatures certificate.hotstuffViewPhase = .ok () := by
  simp only [verifyAndApplyHandover, bind_ok, exists_unit, bailIf_ok, not_not, mapError_eq_ok,
    pure_ok] at h
  obtain ⟨hepoch, hheader, next', hnext, hash, hhash, hquorum, rfl⟩ := h
  unfold new at hnext
  split at hnext
  · cases hnext
  · cases hnext
    exact ⟨hepoch, hheader, rfl, rfl, hash, hhash, hquorum⟩

end EpochSyncManager

/-! ### A toy network -/

/-- A header's hash, above the hash of its parent. -/
def toyHash (parentHash timestamp : ℕ) : Hash := Nat.pair parentHash timestamp + 1

/-- A header's hash spells its parent's hash and its timestamp, a key is its owner's address, and
a signature spells the key and the message. -/
def toyOracles : ClientOracles where
  checks := { BlockChecks.plain with
    headerHash := fun header => .ok (toyHash header.parentHash header.timestamp)
    verifyStrict := fun key message signature =>
      if signature = Nat.pair key message then .ok () else .error "mismatch" }
  domainHash := fun _ bytes => bytes.foldl (fun n b => n * 256 + b.toNat) 1
  computeValidatorRoot := fun vs => .ok (vs.foldl (fun n v => n * 1000 + v.address) 1)

/-- The same with the given header hash, and exactly the listed messages signed, each with its
key. -/
def madeOracles (headerHash : BlockHeader → Hash) (made : List (ℕ × Hash)) : ClientOracles :=
  { toyOracles with checks := { toyOracles.checks with
    headerHash := fun h => .ok (headerHash h)
    verifyStrict := fun key message _ =>
      if (key, message) ∈ made then .ok () else .error "mismatch" } }

lemma madeOracles_unforgeable (headerHash : BlockHeader → Hash) (made : List (ℕ × Hash)) :
    (madeOracles headerHash made).Unforgeable fun key message => (key, message) ∈ made := by
  intro key message signature h
  by_contra hnot
  simp [ClientOracles.verify, madeOracles, toyOracles, hnot] at h

def fairValidators : List Validator := [.sample 1 1, .sample 2 1, .sample 3 1, .sample 4 1]

/-- The proposer's signature of a hash, and the votes of three of the four for it. -/
def fairMade (hash : Hash) (view : ℕ) : List (ℕ × Hash) :=
  (1, hash) :: [1, 2, 4].map fun a => (a, toyOracles.hotstuffVoteDigest a hash view 2)

def toyHeader (height parentHash timestamp validatorRoot : ℕ) : BlockHeader :=
  { BlockHeader.sample parentHash height 1 with
    validatorRoot := validatorRoot
    timestamp := timestamp
    gasLimit := 5000
    signature := some (Nat.pair 1 (toyHash parentHash timestamp)) }

def toyVotes (header : BlockHeader) : List ValidatorSignature :=
  let hash := toyHash header.parentHash header.timestamp
  [⟨1, Nat.pair 1 (toyOracles.hotstuffVoteDigest 1 hash 3 2)⟩]

def toyCertificate (epoch : ℕ) (header : BlockHeader) (next : List Validator) :
    EpochHandoverCertificate where
  epoch := epoch
  boundaryHeader := header
  consensusSignatures := toyVotes header
  hotstuffViewPhase := some (3, 2)
  nextValidatorSet := next

def toyManager : EpochSyncManager toyOracles := ⟨0, [.sample 1 1], 1, by decide +kernel⟩

def toyHandover (certificate : EpochHandoverCertificate) : Except NanoError (List Validator) :=
  (toyManager.verifyAndApplyHandover certificate 1704067300).map
    EpochSyncManager.activeValidatorSet

/-! ### The installed set -/

/-- The header commits to a validator set by its root. -/
def Commits (o : ClientOracles) (header : BlockHeader) (vs : List Validator) : Prop :=
  o.computeValidatorRoot vs = .ok header.validatorRoot

instance (header : BlockHeader) (vs : List Validator) : Decidable (Commits o header vs) :=
  inferInstanceAs (Decidable (_ = _))

/-- A quorum of a set has signed the header, as votes with the given view and phase or
directly. -/
def SignedByQuorum (o : ClientOracles) (Signed : ℕ → Hash → Prop) (vs : List Validator)
    (header : BlockHeader) (hotstuffMeta : Option (ℕ × ℕ)) : Prop :=
  ∃ hash, o.checks.headerHash header = .ok hash ∧
    QuorumHas vs fun v => Signed v.pubkey (signingDigest o v.address hash hotstuffMeta)

/-- An accepted handover installs the set that its boundary header commits to, a header that a
quorum of the old set has signed, exactly if the certificate names that set; and two such
certificates with one boundary header install one set. -/
theorem handover_installs_committed_iff {Signed : ℕ → Hash → Prop}
    (hunforgeable : o.Unforgeable Signed) {m next : EpochSyncManager o}
    {certificate : EpochHandoverCertificate} {currentTime : ℕ}
    (h : m.verifyAndApplyHandover certificate currentTime = .ok next) :
    ((Commits o certificate.boundaryHeader next.activeValidatorSet ∧
        SignedByQuorum o Signed m.activeValidatorSet certificate.boundaryHeader
          certificate.hotstuffViewPhase) ↔
      Commits o certificate.boundaryHeader certificate.nextValidatorSet) ∧
    ∀ (certificate' : EpochHandoverCertificate) (currentTime' : ℕ) (next' : EpochSyncManager o),
      m.verifyAndApplyHandover certificate' currentTime' = .ok next' →
      certificate'.boundaryHeader = certificate.boundaryHeader →
      Commits o certificate.boundaryHeader certificate.nextValidatorSet →
      Commits o certificate'.boundaryHeader certificate'.nextValidatorSet →
      (o.computeValidatorRoot certificate.nextValidatorSet =
          o.computeValidatorRoot certificate'.nextValidatorSet →
        certificate.nextValidatorSet = certificate'.nextValidatorSet) →
      next'.activeValidatorSet = next.activeValidatorSet := by
  obtain ⟨-, -, -, hset, hash, hhash, hquorum⟩ := EpochSyncManager.handover_ok h
  have hsigned : SignedByQuorum o Signed m.activeValidatorSet certificate.boundaryHeader
      certificate.hotstuffViewPhase := by
    refine ⟨hash, hhash, (EpochSyncManager.quorum_of_verified hquorum).mono fun v _ hv => ?_⟩
    obtain ⟨signature, hvalid⟩ := hv
    exact hunforgeable _ _ signature hvalid
  constructor
  · rw [hset]
    exact ⟨And.left, fun hcommits => ⟨hcommits, hsigned⟩⟩
  · intro certificate' currentTime' next' h' hheader hcommits hcommits' hfree
    obtain ⟨-, -, -, hset', -⟩ := EpochSyncManager.handover_ok h'
    rw [hheader] at hcommits'
    rw [hset, hset', hfree (hcommits.trans hcommits'.symm)]

def toyBoundary : BlockHeader := toyHeader 10 7 1704067210 1002

def boundaryMade : List (ℕ × Hash) := fairMade (toyHash 7 1704067210) 3

def boundaryOracles : ClientOracles :=
  madeOracles (fun h => toyHash h.parentHash h.timestamp) boundaryMade

def fairManager : EpochSyncManager boundaryOracles := ⟨0, fairValidators, 4, by decide +kernel⟩

def fairCertificate : EpochHandoverCertificate :=
  { toyCertificate 0 toyBoundary [.sample 2 1] with
    consensusSignatures := [⟨1, 0⟩, ⟨2, 0⟩, ⟨4, 0⟩] }

/-- The handover of four validators to validator 2, to which the boundary header commits. -/
theorem handover_to_committed_set :
    ∃ next, fairManager.verifyAndApplyHandover fairCertificate 1704067300 = .ok next ∧
      (Commits boundaryOracles toyBoundary next.activeValidatorSet ∧
        SignedByQuorum boundaryOracles (fun key message => (key, message) ∈ boundaryMade)
          fairValidators toyBoundary (some (3, 2)) ↔
        Commits boundaryOracles toyBoundary [.sample 2 1]) := by
  have hok : (fairManager.verifyAndApplyHandover fairCertificate 1704067300).toOption.isSome =
    true := by decide +kernel
  cases hnext : fairManager.verifyAndApplyHandover fairCertificate 1704067300 with
  | error e =>
    rw [hnext] at hok
    cases hok
  | ok next =>
    have hunforgeable := madeOracles_unforgeable (fun h => toyHash h.parentHash h.timestamp)
      boundaryMade
    exact ⟨next, rfl, (handover_installs_committed_iff hunforgeable hnext).1⟩

/-- Under one boundary header, which commits to validator 2, two certificates install the sets
of validators 3 and 4. -/
theorem handover_installs_uncommitted_sets :
    toyHandover (toyCertificate 0 toyBoundary [.sample 3 1]) = .ok [.sample 3 1] ∧
      toyHandover (toyCertificate 0 toyBoundary [.sample 4 1]) = .ok [.sample 4 1] ∧
      Commits toyOracles toyBoundary [.sample 2 1] ∧
      ¬ Commits toyOracles toyBoundary [.sample 3 1] ∧
      ¬ Commits toyOracles toyBoundary [.sample 4 1] := by
  decide +kernel

end Sxiaum.Nano
