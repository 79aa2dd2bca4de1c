import Sxiaum.Client.Votes

/-!
# The header chain of the light client

`HeaderVerifier` and `HeaderSync` (`light-client/src/verifier.rs`, `header_sync.rs`): a batch of
headers is checked against the validator set that the client trusts and taken as a whole or not
at all; the set is replaced by one whose root the latest header carries. The proof of a state
transition is checked by `verifyZkValidityProof`, and the clock is a parameter of a call.
-/

namespace Sxiaum.LightClient

open Guards

/-! ### Records -/

inductive LightClientError where
  | headerLinkage (message : String)
  | headerValidation (message : String)
  | heightMismatch (expected actual : ℕ)
  | parentHashMismatch (height : ℕ) (expected actual : String)
  | timestampRegression (height headerTime parentTime : ℕ)
  | futureTimestamp (height timestamp now maxDrift : ℕ)
  | invalidProposerSignature (height : ℕ) (reason : String)
  | zeroProposerPublicKey
  | proposerAddressMismatch (headerProposer derivedProposer : Address)
  | consensusQuorumFailed (weight required total : ℕ)
  | invalidConsensusSignature (validator : Address) (headerHash : String)
  | missingConsensusSignatures (height : ℕ)
  | duplicateConsensusSignature (validator : Address)
  | unknownOrInactiveValidator (validator : Address)
  | invalidValidatorSet (message : String)
  | validatorRootMismatch (height : ℕ) (headerRoot computedRoot : String)
  | validatorSetTransitionRejected (height : ℕ) (newRoot headerRoot : String)
  | zkVerificationFailed (height : ℕ) (reason : String)
  | invalidZkVerificationKey
  | chainIdMismatch (expected actual : ℕ)
  | versionMismatch (expected actual : ℕ)
  | batchSizeExceeded (size max : ℕ)
  | noVerifiedHeader
  | other (message : String)
deriving DecidableEq, Repr

def maxHeaderBatchSize : ℕ := 512

def maxTimestampDriftSecs : ℕ := 300

def maxRetainedHeaders : ℕ := 1024

structure LightOracles extends ClientOracles where
  /-- The check of a header's proof under a verification key. -/
  verifyZkValidityProof : BlockHeader → List UInt8 → Except LightClientError Bool

structure VerifiedHeaderEnvelope where
  header : BlockHeader
  consensusSignatures : List (Address × ℕ)
  /-- View and phase tag of the votes. -/
  hotstuffViewPhase : Option (ℕ × ℕ)
deriving DecidableEq, Repr

/-- What the clock shows at the two readings while a header is checked. -/
abbrev Clock := BlockHeader → ℕ × ℕ

variable (o : LightOracles)

/-! ### Validator sets -/

/-- `PublicKey::validate` of an active validator. -/
def checkKey (v : Validator) : Except LightClientError Unit :=
  (o.checks.verifyingKey v.pubkey).mapError fun e =>
    let address := displayAddress v.address
    .invalidValidatorSet (s!"validator {address} public key is invalid curve point: " ++
      s!"Invalid Ed25519 public key: {e}")

def setErrors : SetErrors LightClientError where
  zeroPower v :=
    let address := displayAddress v.address
    .invalidValidatorSet s!"active validator {address} has zero voting power"
  addressMismatch v :=
    let address := displayAddress v.address
    let derived := displayAddress (o.checks.addressFromPublicKey v.pubkey)
    .invalidValidatorSet
      s!"validator {address} address does not match public key (derived {derived})"
  duplicate v :=
    let address := displayAddress v.address
    .invalidValidatorSet s!"duplicate validator address in validator set: {address}"
  overflow := .invalidValidatorSet "validator set voting power overflow"

def validateValidatorSet (validatorSet : List Validator) : Except LightClientError Unit := do
  bailIf (validatorSet = []) (.invalidValidatorSet "validator set must not be empty")
  let total ← tallyActive o.checks.addressFromPublicKey (checkKey o) (setErrors o) [] 0
    validatorSet
  bailIf (total = 0)
    (.invalidValidatorSet "total active voting power in validator set is zero")

/-! ### Checks of a header -/

/-- A header follows its parent in height, hash and time. -/
def verifyLinkage (header parent : BlockHeader) (now : ℕ) : Except LightClientError Unit := do
  header.validateBasic.mapError .headerValidation
  let parentHeight := parent.height
  bailIf (u64Max < parentHeight + 1)
    (.headerLinkage s!"Height arithmetic overflow at parent height {parentHeight}")
  bailIf (header.height ≠ parentHeight + 1) (.heightMismatch (parentHeight + 1) header.height)
  let parentHash ← (o.checks.headerHash parent).mapError .other
  bailIf (header.parentHash ≠ parentHash)
    (.parentHashMismatch header.height (hex32 parentHash) (hex32 header.parentHash))
  bailIf (header.verifyTimestamp parent.timestamp = false)
    (.timestampRegression header.height header.timestamp parent.timestamp)
  bailIf (satAdd64 now maxTimestampDriftSecs < header.timestamp)
    (.futureTimestamp header.height header.timestamp now maxTimestampDriftSecs)

def verifyProposerSignature (header : BlockHeader) (publicKey : ℕ) :
    Except LightClientError Bool := do
  bailIf (publicKey = 0) .zeroProposerPublicKey
  let derivedProposer := o.checks.addressFromPublicKey publicKey
  bailIf (header.proposer ≠ derivedProposer)
    (.proposerAddressMismatch header.proposer derivedProposer)
  (header.verifySignature o.checks publicKey).mapError (.invalidProposerSignature header.height)

def validateHeaderFull (header parent : BlockHeader) (proposerPublicKey : ℕ)
    (zkVerificationKey : List UInt8) (now : ℕ × ℕ) : Except LightClientError Unit := do
  (header.validateMainnet now.1).mapError .other
  let height := header.height
  bailIf (0 < height ∧ header.proposer = 0)
    (.other s!"non-genesis header at height {height} has zero proposer address")
  verifyLinkage o header parent now.2
  let signed ← verifyProposerSignature o header proposerPublicKey
  bailIf (signed = false) (.invalidProposerSignature height "proposer signature check failed")
  let proved ← o.verifyZkValidityProof header zkVerificationKey
  bailIf (proved = false) (.zkVerificationFailed height "ZK STF proof invalid")

/-! ### Checks of the signatures -/

def trustedErrors : SetErrors LightClientError where
  zeroPower := (setErrors o).zeroPower
  addressMismatch v :=
    let address := displayAddress v.address
    let derived := displayAddress (o.checks.addressFromPublicKey v.pubkey)
    .invalidValidatorSet
      s!"validator address mismatch for {address}: derived {derived} from public key"
  duplicate v :=
    let address := displayAddress v.address
    .invalidValidatorSet s!"duplicate validator address in trusted validator set: {address}"
  overflow := .invalidValidatorSet "validator voting power arithmetic overflow"

def voteErrors (headerHash : Hash) : VoteErrors LightClientError where
  duplicate := .duplicateConsensusSignature
  unknown := .unknownOrInactiveValidator
  invalid validator := .invalidConsensusSignature validator (hex32 headerHash)
  overflow := .other "verified voting power overflow"

/-- `active_validator_map`: of two validators with one address the later one counts. -/
def findSigner (validatorSet : List Validator) (address : Address) : Option Validator :=
  (validatorSet.filter fun v => v.isActive && 0 < v.votingPower).reverse.find?
    (·.address = address)

/-- A signature over the header hash, or over the vote digest of the given view and phase. -/
def validVote (headerHash : Hash) (hotstuffViewPhase : Option (ℕ × ℕ)) (v : Validator)
    (address : Address) (signature : ℕ) : Bool :=
  o.verify v.pubkey headerHash signature ||
    match hotstuffViewPhase with
    | some (view, phase) =>
      o.verify v.pubkey (o.hotstuffVoteDigest address headerHash view phase) signature
    | none => false

def checkPhase : Option (ℕ × ℕ) → Except LightClientError Unit
  | some (_, phase) => bailIf (2 < phase)
      (.other s!"invalid HotStuff phase tag {phase} (expected 0, 1, or 2)")
  | none => .ok ()

/-- Two thirds of the power, and one more. -/
def quorumThreshold (total : ℕ) : Except LightClientError ℕ := do
  bailIf (u128Max < total * 2) (.other "quorum multiplication overflow")
  bailIf (u128Max < total * 2 / 3 + 1) (.other "quorum addition overflow")
  return total * 2 / 3 + 1

def verifyConsensusSignatures (headerHash : Hash) (signatures : List (Address × ℕ))
    (validatorSet : List Validator) (height : ℕ) (hotstuffViewPhase : Option (ℕ × ℕ)) :
    Except LightClientError Bool := do
  bailIf (validatorSet = []) (.invalidValidatorSet "trusted validator set is empty")
  bailIf (signatures = []) (.missingConsensusSignatures height)
  let count := signatures.length
  let size := validatorSet.length
  bailIf (size < count)
    (.other s!"signature count ({count}) exceeds trusted validator set size ({size})")
  checkPhase hotstuffViewPhase
  let total ← tallyActive o.checks.addressFromPublicKey (checkKey o) (trustedErrors o) [] 0
    validatorSet
  bailIf (total = 0)
    (.invalidValidatorSet "total active voting power in validator set is zero")
  let threshold ← quorumThreshold total
  let power ← tallyVotes (voteErrors headerHash) (findSigner validatorSet)
    (validVote o headerHash hotstuffViewPhase) [] 0 signatures
  bailIf (power < threshold) (.consensusQuorumFailed power threshold total)
  return true

/-! ### What the checks establish -/

section Checks

variable {o} {validatorSet : List Validator} {header parent : BlockHeader}

lemma find?_address_eq_some {l : List Validator} (h : (l.map Validator.address).Nodup)
    {address : Address} {v : Validator} :
    l.find? (·.address = address) = some v ↔ v ∈ l ∧ v.address = address := by
  constructor
  · intro hv
    exact ⟨List.mem_of_find?_eq_some hv, by simpa using List.find?_some hv⟩
  · rintro ⟨hv, rfl⟩
    exact find?_address h hv

lemma findSigner_eq {derive : ℕ → Address} {total : ℕ} (h : Tallied derive validatorSet total)
    (address : Address) :
    findSigner validatorSet address =
      (activeOf validatorSet).find? (·.address = address) := by
  have hfilter : (validatorSet.filter fun v => v.isActive && 0 < v.votingPower) =
      activeOf validatorSet := by
    refine List.filter_congr fun v hv => ?_
    cases hactive : v.isActive with
    | false => simp
    | true => simpa [Nat.pos_iff_ne_zero] using h.power v (List.mem_filter.2 ⟨hv, hactive⟩)
  have hreverse : ((activeOf validatorSet).reverse.map Validator.address).Nodup := by
    rw [List.map_reverse]
    exact List.nodup_reverse.2 h.nodup
  rw [findSigner, hfilter]
  apply Option.ext
  intro v
  rw [find?_address_eq_some hreverse, find?_address_eq_some h.nodup, List.mem_reverse]

lemma heavy_of_quorumThreshold {total threshold power : ℕ}
    (h : quorumThreshold total = .ok threshold) (hpower : threshold ≤ power) :
    2 * total < 3 * power := by
  simp only [quorumThreshold, bind_ok, exists_unit, bailIf_ok, pure_ok] at h
  obtain ⟨-, -, rfl⟩ := h
  omega

lemma quorum_of_verified {headerHash : Hash} {signatures : List (Address × ℕ)} {height : ℕ}
    {hotstuffViewPhase : Option (ℕ × ℕ)} {accepted : Bool}
    (h : verifyConsensusSignatures o headerHash signatures validatorSet height
      hotstuffViewPhase = .ok accepted) :
    QuorumHas validatorSet fun v => ∃ signature, (v.address, signature) ∈ signatures ∧
      validVote o headerHash hotstuffViewPhase v v.address signature = true := by
  simp only [verifyConsensusSignatures, bind_ok, exists_unit, bailIf_ok, not_lt] at h
  obtain ⟨-, -, -, -, total, htotal, -, threshold, hthreshold, power, hpower, hheavy, -⟩ := h
  have hset := tallied_of_ok htotal
  exact quorumHas_of_tallies hset (findSigner_eq hset) hpower
    (heavy_of_quorumThreshold hthreshold hheavy)

/-- `header` is the next one on top of `parent`. -/
def Linked (o : LightOracles) (parent header : BlockHeader) : Prop :=
  header.height = parent.height + 1 ∧ o.checks.headerHash parent = .ok header.parentHash

end Checks

/-! ### The client -/

/-- A light client, with the headers it keeps. -/
structure HeaderSync where
  currentHeight : ℕ
  verifiedHeaders : List BlockHeader
  zkVerificationKey : List UInt8
  validatorSet : List Validator
deriving DecidableEq

namespace HeaderSync

def newTrusted (trustedHeader : BlockHeader) (validatorSet : List Validator)
    (zkVerificationKey : List UInt8) : Except LightClientError HeaderSync := do
  trustedHeader.validateBasic.mapError fun e =>
    .headerValidation s!"trusted checkpoint header failed basic validation: {e}"
  bailIf (trustedHeader.chainId ≠ chainIdMainnet)
    (.chainIdMismatch chainIdMainnet trustedHeader.chainId)
  bailIf (trustedHeader.version ≠ blockVersionCurrent)
    (.versionMismatch blockVersionCurrent trustedHeader.version)
  validateValidatorSet o validatorSet
  bailIf (zkVerificationKey = [] ∨ ∀ b ∈ zkVerificationKey, b = 0) .invalidZkVerificationKey
  if trustedHeader.validatorRoot ≠ 0 then
    let expectedRoot ← (o.computeValidatorRoot validatorSet).mapError .other
    bailIf (trustedHeader.validatorRoot ≠ expectedRoot)
      (.validatorRootMismatch trustedHeader.height (hex32 trustedHeader.validatorRoot)
        (hex32 expectedRoot))
  return ⟨trustedHeader.height, [trustedHeader], zkVerificationKey, validatorSet⟩

variable (s : HeaderSync)

/-- The checks of one header on top of a parent. -/
def verifyEnvelope (expectedValidatorRoot : Hash) (clock : Clock) (simulatedHeight : ℕ)
    (lastParent : BlockHeader) (envelope : VerifiedHeaderEnvelope) :
    Except LightClientError Unit := do
  let header := envelope.header
  bailIf (u64Max < simulatedHeight + 1)
    (.headerLinkage s!"Height sequence overflow at height {simulatedHeight}")
  bailIf (header.height ≠ simulatedHeight + 1)
    (.heightMismatch (simulatedHeight + 1) header.height)
  match s.validatorSet.find? fun v => v.address = header.proposer && v.isActive with
  | none => throw (.unknownOrInactiveValidator header.proposer)
  | some proposer =>
    validateHeaderFull o header lastParent proposer.pubkey s.zkVerificationKey (clock header)
    bailIf (header.validatorRoot ≠ expectedValidatorRoot)
      (.validatorRootMismatch header.height (hex32 header.validatorRoot)
        (hex32 expectedValidatorRoot))
    let headerHash ← (o.checks.headerHash header).mapError .other
    let _ ← verifyConsensusSignatures o headerHash envelope.consensusSignatures s.validatorSet
      header.height envelope.hotstuffViewPhase
    return ()

/-- The headers of a batch, each on top of the one before it. -/
def verifyEnvelopes (expectedValidatorRoot : Hash) (clock : Clock) :
    ℕ → BlockHeader → List VerifiedHeaderEnvelope → Except LightClientError Unit
  | _, _, [] => .ok ()
  | simulatedHeight, lastParent, envelope :: rest => do
    s.verifyEnvelope o expectedValidatorRoot clock simulatedHeight lastParent envelope
    verifyEnvelopes expectedValidatorRoot clock envelope.header.height envelope.header rest

/-- Everything that is checked before the batch is taken. -/
def verifyBatch (batch : List VerifiedHeaderEnvelope) (clock : Clock) :
    Except LightClientError Unit := do
  validateValidatorSet o s.validatorSet
  let expectedValidatorRoot ← (o.computeValidatorRoot s.validatorSet).mapError .other
  match s.verifiedHeaders.getLast? with
  | none => throw (.headerLinkage "missing parent header in verified history")
  | some lastParent =>
    s.verifyEnvelopes o expectedValidatorRoot clock s.currentHeight lastParent batch

/-- The batch enters the history, whose oldest headers are dropped. -/
def commitBatch (headers : List BlockHeader) : HeaderSync :=
  let verified := s.verifiedHeaders ++ headers
  { s with
    currentHeight := headers.foldl (fun _ header => header.height) s.currentHeight
    verifiedHeaders := verified.drop (verified.length - maxRetainedHeaders) }

/-- A batch is taken as a whole or not at all. -/
def processVerifiedBatch (batch : List VerifiedHeaderEnvelope) (clock : Clock) :
    Except LightClientError Unit × HeaderSync :=
  match s.verifyBatch o batch clock with
  | .error e => (.error e, s)
  | .ok () => (.ok (), s.commitBatch (batch.map VerifiedHeaderEnvelope.header))

/-- `sort_by_key` on the heights. -/
def sortByHeight (headers : List VerifiedHeaderEnvelope) : List VerifiedHeaderEnvelope :=
  headers.insertionSort fun a b => a.header.height ≤ b.header.height

def receiveVerifiedHeaders (headers : List VerifiedHeaderEnvelope) (clock : Clock) :
    Except LightClientError Unit × HeaderSync :=
  if headers = [] then (.ok (), s)
  else if maxHeaderBatchSize < headers.length then
    (.error (.batchSizeExceeded headers.length maxHeaderBatchSize), s)
  else s.processVerifiedBatch o (sortByHeight headers) clock

def checkTransition (newValidatorSet : List Validator) : Except LightClientError Unit := do
  validateValidatorSet o newValidatorSet
  match s.verifiedHeaders.getLast? with
  | none => throw .noVerifiedHeader
  | some latestHeader =>
    let newRoot ← (o.computeValidatorRoot newValidatorSet).mapError .other
    bailIf (latestHeader.validatorRoot ≠ newRoot)
      (.validatorSetTransitionRejected latestHeader.height (hex32 newRoot)
        (hex32 latestHeader.validatorRoot))

def transitionValidatorSet (newValidatorSet : List Validator) :
    Except LightClientError Unit × HeaderSync :=
  match s.checkTransition o newValidatorSet with
  | .error e => (.error e, s)
  | .ok () => (.ok (), { s with validatorSet := newValidatorSet })

/-! ### Runs -/

inductive Call where
  | receive (headers : List VerifiedHeaderEnvelope) (clock : Clock)
  | transition (newValidatorSet : List Validator)

def step : Call → Except LightClientError Unit × HeaderSync
  | .receive headers clock => s.receiveVerifiedHeaders o headers clock
  | .transition newValidatorSet => s.transitionValidatorSet o newValidatorSet

def run : HeaderSync → List Call → HeaderSync
  | s, [] => s
  | s, call :: rest => run (s.step o call).2 rest

/-! ### What a call does -/

section Steps

variable {o} {s} {clock : Clock} {root : Hash} {parent : BlockHeader}
  {envelope : VerifiedHeaderEnvelope} {batch : List VerifiedHeaderEnvelope}

/-- The checks of a header apart from its validator root: the proposer and the signers are those
of a given set. -/
def Passes (o : LightOracles) (validatorSet : List Validator) (zkVerificationKey : List UInt8)
    (clock : Clock) (parent : BlockHeader) (envelope : VerifiedHeaderEnvelope) : Prop :=
  (∃ proposer,
    validatorSet.find? (fun v => v.address = envelope.header.proposer && v.isActive) =
      some proposer ∧
    validateHeaderFull o envelope.header parent proposer.pubkey zkVerificationKey
      (clock envelope.header) = .ok ()) ∧
  ∃ headerHash accepted, o.checks.headerHash envelope.header = .ok headerHash ∧
    verifyConsensusSignatures o headerHash envelope.consensusSignatures validatorSet
      envelope.header.height envelope.hotstuffViewPhase = .ok accepted

lemma Passes.linked {validatorSet : List Validator} {zkVerificationKey : List UInt8}
    (h : Passes o validatorSet zkVerificationKey clock parent envelope) :
    Linked o parent envelope.header ∧ parent.height + 1 ≤ u64Max := by
  obtain ⟨⟨proposer, -, hfull⟩, -⟩ := h
  simp only [validateHeaderFull, verifyLinkage, bind_ok, exists_unit, bailIf_ok, not_lt, not_not,
    mapError_eq_ok] at hfull
  obtain ⟨-, -, ⟨-, hrange, hheight, hash, hhash, hparent, -⟩, -⟩ := hfull
  rw [← hparent] at hhash
  exact ⟨⟨hheight, hhash⟩, hrange⟩

lemma passes_of_verifyEnvelope {height : ℕ}
    (h : s.verifyEnvelope o root clock height parent envelope = .ok ()) :
    Passes o s.validatorSet s.zkVerificationKey clock parent envelope ∧
      envelope.header.validatorRoot = root := by
  simp only [verifyEnvelope, bind_ok, exists_unit] at h
  obtain ⟨-, -, h⟩ := h
  split at h
  · exact absurd h throw_ok
  · next proposer hfind =>
    simp only [bind_ok, exists_unit, bailIf_ok, not_not, mapError_eq_ok, pure_ok, and_true] at h
    obtain ⟨hfull, hroot, hash, hhash, accepted, hquorum⟩ := h
    exact ⟨⟨⟨proposer, hfind, hfull⟩, hash, accepted, hhash, hquorum⟩, hroot⟩

lemma verifyEnvelope_of_passes
    (h : Passes o s.validatorSet s.zkVerificationKey clock parent envelope)
    (hroot : envelope.header.validatorRoot = root) :
    s.verifyEnvelope o root clock parent.height parent envelope = .ok () := by
  obtain ⟨⟨hheight, -⟩, hrange⟩ := h.linked
  obtain ⟨⟨proposer, hfind, hfull⟩, hash, accepted, hhash, hquorum⟩ := h
  simp only [verifyEnvelope, hfind, bind_ok, exists_unit, bailIf_ok, not_lt, not_not,
    mapError_eq_ok, pure_ok, and_true]
  exact ⟨hrange, hheight, hfull, hroot, hash, hhash, accepted, hquorum⟩

lemma verifyEnvelopes_ok {height : ℕ}
    (h : s.verifyEnvelopes o root clock height parent batch = .ok ()) :
    (parent :: batch.map VerifiedHeaderEnvelope.header).IsChain (Linked o) ∧
      ∀ e ∈ batch, e.header.validatorRoot = root ∧
        ∃ p, Passes o s.validatorSet s.zkVerificationKey clock p e := by
  induction batch generalizing height parent with
  | nil => exact ⟨List.IsChain.singleton _, by simp⟩
  | cons e rest ih =>
    simp only [verifyEnvelopes, bind_ok, exists_unit] at h
    obtain ⟨hpasses, hroot⟩ := passes_of_verifyEnvelope h.1
    obtain ⟨hchain, hrest⟩ := ih h.2
    refine ⟨?_, ?_⟩
    · rw [List.map_cons]
      exact List.isChain_cons_cons.2 ⟨hpasses.linked.1, hchain⟩
    · exact List.forall_mem_cons.2 ⟨⟨hroot, parent, hpasses⟩, hrest⟩

/-- What a batch that is taken has passed. -/
structure Takes (o : LightOracles) (s : HeaderSync) (batch : List VerifiedHeaderEnvelope)
    (clock : Clock) : Prop where
  valid : validateValidatorSet o s.validatorSet = .ok ()
  verified : ∃ root parent, o.computeValidatorRoot s.validatorSet = .ok root ∧
    s.verifiedHeaders.getLast? = some parent ∧
    s.verifyEnvelopes o root clock s.currentHeight parent batch = .ok ()

/-- The checks of a batch, in one condition. -/
lemma verifyBatch_ok : s.verifyBatch o batch clock = .ok () ↔ Takes o s batch clock := by
  cases hlast : s.verifiedHeaders.getLast? with
  | none =>
    simp only [verifyBatch, hlast, bind_ok, throw_ok, and_false, exists_false,
      false_iff]
    rintro ⟨-, root, parent, -, hparent, -⟩
    rw [hlast] at hparent
    cases hparent
  | some parent =>
    simp only [verifyBatch, hlast, bind_ok, exists_unit, mapError_eq_ok]
    constructor
    · rintro ⟨hvalid, root, hroot, hrun⟩
      exact ⟨hvalid, root, parent, hroot, hlast, hrun⟩
    · rintro ⟨hvalid, root, parent', hroot, hlast', hrun⟩
      obtain rfl : parent = parent' := Option.some.inj (hlast.symm.trans hlast')
      exact ⟨hvalid, root, hroot, hrun⟩

lemma checkTransition_ok {newValidatorSet : List Validator} :
    s.checkTransition o newValidatorSet = .ok () ↔
      validateValidatorSet o newValidatorSet = .ok () ∧
      ∃ latest, s.verifiedHeaders.getLast? = some latest ∧
        o.computeValidatorRoot newValidatorSet = .ok latest.validatorRoot := by
  cases hlast : s.verifiedHeaders.getLast? with
  | none => simp [checkTransition, hlast]
  | some latest =>
    simp only [checkTransition, hlast, bind_ok, exists_unit, bailIf_ok, not_not, mapError_eq_ok,
      Option.some.injEq, exists_eq_left']
    constructor
    · rintro ⟨hvalid, root, hroot, rfl⟩
      exact ⟨hvalid, hroot⟩
    · rintro ⟨hvalid, hroot⟩
      exact ⟨hvalid, _, hroot, rfl⟩

/-- A call that succeeds changes nothing, takes a batch or replaces the set. -/
inductive Moves (o : LightOracles) (s : HeaderSync) : Call → HeaderSync → Prop where
  | stay (clock : Clock) : Moves o s (.receive [] clock) s
  | take {headers : List VerifiedHeaderEnvelope} {clock : Clock}
      (h : Takes o s (sortByHeight headers) clock) :
      Moves o s (.receive headers clock)
        (s.commitBatch ((sortByHeight headers).map VerifiedHeaderEnvelope.header))
  | replace {newValidatorSet : List Validator} {latest : BlockHeader}
      (valid : validateValidatorSet o newValidatorSet = .ok ())
      (last : s.verifiedHeaders.getLast? = some latest)
      (root : o.computeValidatorRoot newValidatorSet = .ok latest.validatorRoot) :
      Moves o s (.transition newValidatorSet) { s with validatorSet := newValidatorSet }

/-- A call fails and leaves the client as it was, or moves it. -/
theorem step_cases (s : HeaderSync) (call : Call) :
    (∃ e, s.step o call = (.error e, s)) ∨
      (s.step o call).1 = .ok () ∧ Moves o s call (s.step o call).2 := by
  cases call with
  | receive headers clock =>
    rw [step, receiveVerifiedHeaders]
    split_ifs with hempty hsize
    · subst hempty
      exact Or.inr ⟨rfl, .stay clock⟩
    · exact Or.inl ⟨_, rfl⟩
    · rw [processVerifiedBatch]
      cases hbatch : s.verifyBatch o (sortByHeight headers) clock with
      | error e => exact Or.inl ⟨e, rfl⟩
      | ok u => exact Or.inr ⟨rfl, .take (verifyBatch_ok.1 hbatch)⟩
  | transition newValidatorSet =>
    rw [step, transitionValidatorSet]
    cases hcheck : s.checkTransition o newValidatorSet with
    | error e => exact Or.inl ⟨e, rfl⟩
    | ok u =>
      obtain ⟨hvalid, latest, hlast, hroot⟩ := checkTransition_ok.1 hcheck
      exact Or.inr ⟨rfl, .replace hvalid hlast hroot⟩

/-- What every move keeps holds after every run. -/
theorem run_induction {P : HeaderSync → Prop} (hmove : ∀ s call s', P s → Moves o s call s' → P s')
    (hs : P s) (calls : List Call) : P (run o s calls) := by
  induction calls generalizing s with
  | nil => exact hs
  | cons call rest ih =>
    rw [run]
    apply ih
    rcases step_cases (o := o) s call with ⟨e, he⟩ | ⟨-, hmoves⟩
    · rw [he]
      exact hs
    · exact hmove s call _ hs hmoves

end Steps

end HeaderSync

end Sxiaum.LightClient
