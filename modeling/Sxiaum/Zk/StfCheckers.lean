import Sxiaum.Lib.Guards
import Sxiaum.Zk.StfWitness

/-!
# The checks of the host and of the guest

`verify_stf_private` is written twice: for the host (`sp1/stf.rs`) and for the program that
is proved (`guest/src/stf.rs`). Each copy is modelled with its own messages. `Admissible`
says what both of them check, `VerkleChecked` what only the host does.
-/

namespace Sxiaum.Zk

open Guards StfOracles

/-! ### The host -/

namespace Host

variable (o : StfOracles) (isProduction : Bool) (x : ZkPublicInputs) (w : StfPrivateInputs)

def verifyEd25519 (pubkey message : Bytes32) (signature : BitVec 512) : Except String Unit := do
  (o.verifyingKey pubkey).mapError fun e => s!"invalid ed25519 public key: {e}"
  (o.verifyStrict pubkey message signature).mapError fun e =>
    s!"ed25519 signature verification failed: {e}"

def checkSizes : Except String Unit := do
  let version := w.version.toNat
  let expected := stfCircuitVersion.toNat
  bailIf (w.version ≠ stfCircuitVersion)
    s!"unsupported STF circuit version {version} (expected {expected})"
  let txs := w.transactions.length
  bailIf (maxStfTransactions < txs)
    s!"transaction count {txs} exceeds maximum allowed {maxStfTransactions}"
  let reads := w.stateReads.length
  bailIf (maxStfStateReads < reads)
    s!"state reads count {reads} exceeds maximum allowed {maxStfStateReads}"
  let writes := w.stateWrites.length
  bailIf (maxStfStateWrites < writes)
    s!"state writes count {writes} exceeds maximum allowed {maxStfStateWrites}"
  let proofs := w.verkleProofs.length
  bailIf (maxStfVerkleProofs < proofs)
    s!"verkle proofs count {proofs} exceeds maximum allowed {maxStfVerkleProofs}"
  let digests := w.commitRevealDigests.length
  bailIf (maxStfCommitRevealDigests < digests)
    s!"commit reveal digests count {digests} exceeds maximum allowed {maxStfCommitRevealDigests}"

def checkGas : Except String Unit := do
  bailIf (w.maxBlockGas = 0) "max_block_gas must be > 0"
  let totalGas := w.totalGas.toNat
  let maxGas := w.maxBlockGas.toNat
  bailIf (w.maxBlockGas < w.totalGas)
    s!"block gas used {totalGas} exceeds max_block_gas {maxGas}"

def checkRoots : Except String Unit :=
  if w.transactions = [] then do
    bailIf (x.stateRootBefore ≠ x.stateRootAfter)
      "empty transaction list requires state_root_before == state_root_after"
    bailIf (w.stateWrites ≠ []) "empty transaction list cannot include state writes"
  else do
    bailIf (x.txRoot = 0) "non-empty block requires non-zero tx_root"
    bailIf (w.stateWrites ≠ [] ∧ x.stateRootBefore = x.stateRootAfter)
      "state writes present but state_root_after equals state_root_before"

/-- The host has 64-bit words. -/
def checkOrdering : Except String Unit :=
  let sortedPairs := o.shuffledPairs 64 x w
  checkAll (fun i tx => bailIf (sortedPairs[i]?.map Prod.snd ≠ some tx.txHash)
    s!"transaction ordering mismatch at index {i}") 0 w.transactions

def checkTransaction (i : ℕ) (tx : StfTxWitness) : Except String Unit := do
  bailIf (tx.gasLimit = 0) s!"tx[{i}] gas_limit must be > 0"
  let gasUsed := tx.gasUsed.toNat
  let gasLimit := tx.gasLimit.toNat
  bailIf (tx.gasLimit < tx.gasUsed) s!"tx[{i}] gas_used {gasUsed} exceeds gas_limit {gasLimit}"
  bailIf (tx.txHash = 0) s!"tx[{i}] tx_hash must be non-zero"
  let scheme := tx.scheme.toNat
  if tx.scheme = 0 then
    bailIf (o.addressFromPubkey tx.pubkey ≠ tx.fromAddr)
      s!"tx[{i}] pubkey does not match from address"
    -- `Address::from_public_key` is the same digest
    bailIf (o.sha256 tx.pubkey.bytes ≠ tx.fromAddr)
      s!"tx[{i}] address derivation mismatch with sxiaum Address"
    verifyEd25519 o tx.pubkey tx.signedMessage tx.signature
    bailIf (tx.signedMessage ≠ tx.txHash)
      s!"tx[{i}] native scheme requires signed_message == tx_hash"
  else if tx.scheme = 1 then
    bailIf (tx.signedMessage = 0)
      s!"tx[{i}] ethereum scheme requires non-zero signed_message (sighash)"
    bailIf (tx.fromAddr = 0) s!"tx[{i}] ethereum scheme requires non-zero from"
  else throw s!"tx[{i}] unknown signature scheme {scheme}"

/-- One opening of a Verkle proof: commitment, evaluation point, evaluation and proof. -/
def checkOpening (i j : ℕ) : Bytes32 × Bytes32 × Bytes32 × List UInt8 → Except String Unit
  | (commitment, point, evaluation, proof) =>
    if (proof = [] ∨ ∀ b ∈ proof, b = 0) ∧ isProduction = false then .ok ()
    else do
      let index := point.toNat % 2 ^ 64
      let openingOk ← (o.verifyKzgOpening commitment index (some evaluation) proof).mapError
        fun e => s!"verkle_proofs[{i}] opening[{j}] KZG verify error: {e}"
      bailIf (openingOk = false) (s!"verkle_proofs[{i}] opening[{j}] KZG opening verification " ++
        "failed. The proof is cryptographically invalid.")

def openings (p : StfVerkleProof) : List (Bytes32 × Bytes32 × Bytes32 × List UInt8) :=
  p.commitments.zip (p.evaluationPoints.zip (p.evaluations.zip p.openingProofs))

def checkVerkleProof (i : ℕ) (p : StfVerkleProof) : Except String Unit := do
  bailIf (p.commitments = []) s!"verkle_proofs[{i}] must include at least one commitment"
  bailIf (p.evaluations = []) s!"verkle_proofs[{i}] must include at least one evaluation"
  bailIf (p.commitments.length ≠ p.evaluationPoints.length)
    s!"verkle_proofs[{i}] commitments and evaluation_points length mismatch"
  bailIf (p.evaluations.length ≠ p.openingProofs.length)
    s!"verkle_proofs[{i}] evaluations and opening_proofs length mismatch"
  bailIf (p.commitments.head? ≠ some x.stateRootBefore)
    s!"verkle_proofs[{i}] root commitment mismatch with state_root_before"
  bailIf (p.witnessRoot ≠ x.witnessRoot)
    s!"verkle_proofs[{i}] witness_root mismatch with public inputs"
  let commitments := p.commitments.length
  let points := p.evaluationPoints.length
  let evaluations := p.evaluations.length
  let proofs := p.openingProofs.length
  bailIf (commitments ≠ points ∨ evaluations ≠ proofs ∨ commitments ≠ evaluations)
    (s!"verkle_proofs[{i}] array length mismatch: commitments={commitments}, " ++
      s!"evaluation_points={points}, evaluations={evaluations}, opening_proofs={proofs}")
  checkAll (checkOpening o isProduction i) 0 (openings p)

/-- `verify_stf_private` of the host. -/
def verifyStfPrivate : Except String Unit := do
  checkSizes w
  checkGas w
  checkRoots x w
  checkOrdering o x w
  checkAll (checkTransaction o) 0 w.transactions
  checkAll (fun i r => bailIf (r.key = []) s!"state_reads[{i}] key must be non-empty") 0
    w.stateReads
  checkAll (fun i r => bailIf (r.key = []) s!"state_writes[{i}] key must be non-empty") 0
    w.stateWrites
  checkAll (checkVerkleProof o isProduction x) 0 w.verkleProofs
  bailIf ((w.stateReads ≠ [] ∨ w.stateWrites ≠ []) ∧ w.verkleProofs = [])
    "state accesses require at least one verkle proof in the STF witness"
  checkAll (fun i d => bailIf (d = 0) s!"commit_reveal_digests[{i}] must be non-zero") 0
    w.commitRevealDigests
  bailIf (w.binding ≠ o.computeBinding x w) "STF binding commitment mismatch"

end Host

/-! ### The guest -/

namespace Guest

variable (o : StfOracles) (x : ZkPublicInputs) (w : StfPrivateInputs)

def verifyEd25519 (pubkey message : Bytes32) (signature : BitVec 512) : Except String Unit := do
  (o.verifyingKey pubkey).mapError fun _ => "invalid ed25519 public key"
  (o.verifyStrict pubkey message signature).mapError fun _ =>
    "ed25519 signature verification failed"

def checkSizes : Except String Unit := do
  bailIf (w.version ≠ stfCircuitVersion) "unsupported STF circuit version"
  bailIf (maxStfTransactions < w.transactions.length) "transaction count exceeds maximum allowed"
  bailIf (maxStfStateReads < w.stateReads.length) "state reads count exceeds maximum allowed"
  bailIf (maxStfStateWrites < w.stateWrites.length) "state writes count exceeds maximum allowed"
  bailIf (maxStfVerkleProofs < w.verkleProofs.length) "verkle proofs count exceeds maximum allowed"
  bailIf (maxStfCommitRevealDigests < w.commitRevealDigests.length)
    "commit reveal digests count exceeds maximum allowed"

def checkGas : Except String Unit := do
  bailIf (w.maxBlockGas = 0) "max_block_gas must be > 0"
  bailIf (w.maxBlockGas < w.totalGas) "block gas used exceeds max_block_gas"

def checkRoots : Except String Unit :=
  if w.transactions = [] then do
    bailIf (x.stateRootBefore ≠ x.stateRootAfter)
      "empty transaction list requires unchanged state root"
    bailIf (w.stateWrites ≠ []) "empty transaction list cannot include state writes"
  else do
    bailIf (x.txRoot = 0) "non-empty block requires non-zero tx_root"
    bailIf (w.stateWrites ≠ [] ∧ x.stateRootBefore = x.stateRootAfter)
      "state writes present but state root unchanged"

/-- The zkVM has 32-bit words. -/
def checkOrdering : Except String Unit :=
  let sortedPairs := o.shuffledPairs 32 x w
  checkAll (fun i tx => bailIf (sortedPairs[i]?.map Prod.snd ≠ some tx.txHash)
    "transaction ordering mismatch at index") 0 w.transactions

def checkTransaction (tx : StfTxWitness) : Except String Unit := do
  bailIf (tx.gasLimit = 0) "tx gas_limit must be > 0"
  bailIf (tx.gasLimit < tx.gasUsed) "tx gas_used exceeds gas_limit"
  bailIf (tx.txHash = 0) "tx_hash must be non-zero"
  if tx.scheme = 0 then
    bailIf (o.addressFromPubkey tx.pubkey ≠ tx.fromAddr) "pubkey does not match from address"
    verifyEd25519 o tx.pubkey tx.signedMessage tx.signature
    bailIf (tx.signedMessage ≠ tx.txHash) "native scheme requires signed_message == tx_hash"
  else if tx.scheme = 1 then
    bailIf (tx.signedMessage = 0) "ethereum scheme requires non-zero sighash"
    bailIf (tx.fromAddr = 0) "ethereum scheme requires non-zero from"
  else throw "unknown signature scheme"

/-- The shape of a Verkle proof; the openings are not looked at. -/
def checkVerkleProof (p : StfVerkleProof) : Except String Unit := do
  bailIf (p.commitments = []) "verkle proof missing commitments"
  bailIf (p.evaluations = []) "verkle proof missing evaluations"
  bailIf (p.commitments.length ≠ p.evaluationPoints.length)
    "verkle proof commitments and evaluation_points length mismatch"
  bailIf (p.evaluations.length ≠ p.openingProofs.length)
    "verkle proof evaluations and opening_proofs length mismatch"
  bailIf (p.commitments.head? ≠ some x.stateRootBefore)
    "verkle proof root commitment mismatch with state_root_before"
  bailIf (p.witnessRoot ≠ x.witnessRoot) "verkle proof witness_root mismatch with public inputs"

/-- `verify_stf_private` of the guest. -/
def verifyStfPrivate : Except String Unit := do
  checkSizes w
  checkGas w
  checkRoots x w
  checkOrdering o x w
  checkAll (fun _ => checkTransaction o) 0 w.transactions
  checkAll (fun _ r => bailIf (r.key = []) "state read key must be non-empty") 0 w.stateReads
  checkAll (fun _ r => bailIf (r.key = []) "state write key must be non-empty") 0 w.stateWrites
  checkAll (fun _ => checkVerkleProof x) 0 w.verkleProofs
  checkAll (fun _ d => bailIf (d = 0) "commit-reveal digest must be non-zero") 0
    w.commitRevealDigests
  bailIf (w.binding ≠ o.computeBinding x w) "STF binding commitment mismatch"

end Guest

/-! ### What the checks establish -/

section Spec

variable (o : StfOracles) (x : ZkPublicInputs) (w : StfPrivateInputs)

/-- The lists are within their bounds. -/
@[mk_iff] structure SizesOk : Prop where
  version : w.version = stfCircuitVersion
  transactions : w.transactions.length ≤ maxStfTransactions
  stateReads : w.stateReads.length ≤ maxStfStateReads
  stateWrites : w.stateWrites.length ≤ maxStfStateWrites
  verkleProofs : w.verkleProofs.length ≤ maxStfVerkleProofs
  digests : w.commitRevealDigests.length ≤ maxStfCommitRevealDigests

/-- An empty block leaves the root alone; a block with writes changes it. -/
def RootsOk : Prop :=
  if w.transactions = [] then x.stateRootBefore = x.stateRootAfter ∧ w.stateWrites = []
  else x.txRoot ≠ 0 ∧ (w.stateWrites ≠ [] → x.stateRootBefore ≠ x.stateRootAfter)

/-- The transactions stand in the order that a machine of this word size computes. -/
def Ordered (width : ℕ) : Prop :=
  ∀ (i : ℕ) (tx : StfTxWitness), w.transactions[i]? = some tx →
    (o.shuffledPairs width x w)[i]?.map Prod.snd = some tx.txHash

/-- The sender of a transaction is vouched for. -/
def SenderOk (tx : StfTxWitness) : Prop :=
  tx.scheme = 0 ∧ o.addressFromPubkey tx.pubkey = tx.fromAddr ∧ o.verifyingKey tx.pubkey = .ok () ∧
      o.verifyStrict tx.pubkey tx.signedMessage tx.signature = .ok () ∧
      tx.signedMessage = tx.txHash ∨
    tx.scheme = 1 ∧ tx.signedMessage ≠ 0 ∧ tx.fromAddr ≠ 0

@[mk_iff] structure TransactionOk (tx : StfTxWitness) : Prop where
  gasLimit : tx.gasLimit ≠ 0
  gasUsed : tx.gasUsed ≤ tx.gasLimit
  txHash : tx.txHash ≠ 0
  sender : SenderOk o tx

/-- A Verkle proof is for the root before the block and bound to the witness root. -/
@[mk_iff] structure ProofShape (p : StfVerkleProof) : Prop where
  commitments : p.commitments ≠ []
  evaluations : p.evaluations ≠ []
  points : p.commitments.length = p.evaluationPoints.length
  proofs : p.evaluations.length = p.openingProofs.length
  root : p.commitments.head? = some x.stateRootBefore
  witnessRoot : p.witnessRoot = x.witnessRoot

/-- The rules that host and guest share, for a machine of a given word size. -/
@[mk_iff] structure Admissible (width : ℕ) : Prop where
  sizes : SizesOk w
  maxBlockGas : w.maxBlockGas ≠ 0
  totalGas : w.totalGas ≤ w.maxBlockGas
  roots : RootsOk x w
  ordered : Ordered o x w width
  transactions : ∀ tx ∈ w.transactions, TransactionOk o tx
  readKeys : ∀ r ∈ w.stateReads, r.key ≠ []
  writeKeys : ∀ r ∈ w.stateWrites, r.key ≠ []
  proofs : ∀ p ∈ w.verkleProofs, ProofShape x p
  digests : ∀ d ∈ w.commitRevealDigests, d ≠ 0
  binding : w.binding = o.computeBinding x w

/-- The rules that only the host has: every opening of every Verkle proof is there and
verifies, and accesses to the state come with a proof. -/
@[mk_iff] structure VerkleChecked : Prop where
  lengths : ∀ p ∈ w.verkleProofs, p.commitments.length = p.evaluations.length
  openings : ∀ p ∈ w.verkleProofs, ∀ q ∈ Host.openings p,
    o.verifyKzgOpening q.1 (q.2.1.toNat % 2 ^ 64) (some q.2.2.1) q.2.2.2 = .ok true
  present : w.stateReads ≠ [] ∨ w.stateWrites ≠ [] → w.verkleProofs ≠ []

/-- The host accepts an opening that verifies and, outside of production, one whose proof is
empty or all zero. -/
def OpeningOk (isProduction : Bool) (q : Bytes32 × Bytes32 × Bytes32 × List UInt8) : Prop :=
  (q.2.2.2 = [] ∨ ∀ b ∈ q.2.2.2, b = 0) ∧ isProduction = false ∨
    o.verifyKzgOpening q.1 (q.2.1.toNat % 2 ^ 64) (some q.2.2.1) q.2.2.2 = .ok true

/-- The rules that only the host has, in either mode. -/
@[mk_iff] structure OpeningsChecked (isProduction : Bool) : Prop where
  lengths : ∀ p ∈ w.verkleProofs, p.commitments.length = p.evaluations.length
  openings : ∀ p ∈ w.verkleProofs, ∀ q ∈ Host.openings p, OpeningOk o isProduction q
  present : w.stateReads ≠ [] ∨ w.stateWrites ≠ [] → w.verkleProofs ≠ []

end Spec

section

variable {o : StfOracles} {x : ZkPublicInputs} {w : StfPrivateInputs} {u : Unit}

lemma Host.checkSizes_ok : Host.checkSizes w = .ok u ↔ SizesOk w := by
  simp only [Host.checkSizes, bind_ok, exists_unit, bailIf_ok, not_lt, not_not, sizesOk_iff]

lemma Guest.checkSizes_ok : Guest.checkSizes w = .ok u ↔ SizesOk w := by
  simp only [Guest.checkSizes, bind_ok, exists_unit, bailIf_ok, not_lt, not_not, sizesOk_iff]

lemma Host.checkGas_ok :
    Host.checkGas w = .ok u ↔ w.maxBlockGas ≠ 0 ∧ w.totalGas ≤ w.maxBlockGas := by
  simp only [Host.checkGas, bind_ok, exists_unit, bailIf_ok, UInt64.not_lt, ne_eq]

lemma Guest.checkGas_ok :
    Guest.checkGas w = .ok u ↔ w.maxBlockGas ≠ 0 ∧ w.totalGas ≤ w.maxBlockGas := by
  simp only [Guest.checkGas, bind_ok, exists_unit, bailIf_ok, UInt64.not_lt, ne_eq]

lemma Host.checkRoots_ok : Host.checkRoots x w = .ok u ↔ RootsOk x w := by
  unfold Host.checkRoots RootsOk
  split_ifs <;> simp only [bind_ok, exists_unit, bailIf_ok, not_not, not_and, ne_eq]

lemma Guest.checkRoots_ok : Guest.checkRoots x w = .ok u ↔ RootsOk x w := by
  unfold Guest.checkRoots RootsOk
  split_ifs <;> simp only [bind_ok, exists_unit, bailIf_ok, not_not, not_and, ne_eq]

lemma Host.checkOrdering_ok : Host.checkOrdering o x w = .ok u ↔ Ordered o x w 64 := by
  simp only [Host.checkOrdering, Ordered, checkAll_ok, bailIf_ok, not_not, Nat.zero_add]

lemma Guest.checkOrdering_ok : Guest.checkOrdering o x w = .ok u ↔ Ordered o x w 32 := by
  simp only [Guest.checkOrdering, Ordered, checkAll_ok, bailIf_ok, not_not, Nat.zero_add]

variable {pubkey message : Bytes32} {signature : BitVec 512} {isProduction : Bool}

lemma Host.verifyEd25519_ok : Host.verifyEd25519 o pubkey message signature = .ok u ↔
      o.verifyingKey pubkey = .ok () ∧ o.verifyStrict pubkey message signature = .ok () := by
  simp only [Host.verifyEd25519, bind_ok, mapError_eq_ok, exists_unit]

lemma Guest.verifyEd25519_ok : Guest.verifyEd25519 o pubkey message signature = .ok u ↔
      o.verifyingKey pubkey = .ok () ∧ o.verifyStrict pubkey message signature = .ok () := by
  simp only [Guest.verifyEd25519, bind_ok, mapError_eq_ok, exists_unit]

lemma Host.checkTransaction_ok (i : ℕ) (tx : StfTxWitness) :
    Host.checkTransaction o i tx = .ok () ↔ TransactionOk o tx := by
  rw [transactionOk_iff]
  simp only [Host.checkTransaction, bind_ok, exists_unit, bailIf_ok, UInt64.not_lt, SenderOk]
  refine and_congr_right fun _ => and_congr_right fun _ => and_congr_right fun _ => ?_
  split_ifs with hnative hethereum
  · -- the second derivation of the address repeats the first
    simp only [bind_ok, exists_unit, bailIf_ok, not_not, Host.verifyEd25519_ok, hnative,
      addressFromPubkey, and_assoc]
    simp
  · simp [hethereum, bind_ok]
  · simp [hnative, hethereum]

lemma Guest.checkTransaction_ok (tx : StfTxWitness) :
    Guest.checkTransaction o tx = .ok () ↔ TransactionOk o tx := by
  rw [transactionOk_iff]
  simp only [Guest.checkTransaction, bind_ok, exists_unit, bailIf_ok, UInt64.not_lt, SenderOk]
  refine and_congr_right fun _ => and_congr_right fun _ => and_congr_right fun _ => ?_
  split_ifs with hnative hethereum
  · simp only [bind_ok, exists_unit, bailIf_ok, not_not, Guest.verifyEd25519_ok, hnative,
      and_assoc]
    simp
  · simp [hethereum, bind_ok]
  · simp [hnative, hethereum]

lemma Guest.checkVerkleProof_ok (p : StfVerkleProof) :
    Guest.checkVerkleProof x p = .ok () ↔ ProofShape x p := by
  rw [proofShape_iff]
  simp only [Guest.checkVerkleProof, bind_ok, exists_unit, bailIf_ok, not_not, ne_eq]

lemma Host.checkOpening_ok (i j : ℕ) (q : Bytes32 × Bytes32 × Bytes32 × List UInt8) :
    Host.checkOpening o isProduction i j q = .ok () ↔ OpeningOk o isProduction q := by
  obtain ⟨commitment, point, evaluation, proof⟩ := q
  simp only [Host.checkOpening, OpeningOk]
  split_ifs with hskip
  · simp [hskip]
  · simp [hskip, bind_ok, mapError_eq_ok]

lemma Host.checkVerkleProof_ok (i : ℕ) (p : StfVerkleProof) :
    Host.checkVerkleProof o isProduction x i p = .ok () ↔
      ProofShape x p ∧ p.commitments.length = p.evaluations.length ∧
        ∀ q ∈ Host.openings p, OpeningOk o isProduction q := by
  rw [proofShape_iff]
  simp only [Host.checkVerkleProof, bind_ok, exists_unit, bailIf_ok, not_not, ne_eq, not_or,
    checkAll_ok_iff_forall (Host.checkOpening_ok i)]
  tauto

theorem Host.verifyStfPrivate_ok_iff : Host.verifyStfPrivate o isProduction x w = .ok () ↔
      Admissible o x w 64 ∧ OpeningsChecked o w isProduction := by
  simp only [Host.verifyStfPrivate, bind_ok, exists_unit, Host.checkSizes_ok, Host.checkGas_ok,
    Host.checkRoots_ok, Host.checkOrdering_ok, checkAll_ok_iff_forall Host.checkTransaction_ok,
    checkAll_bailIf, checkAll_ok_iff_forall Host.checkVerkleProof_ok, bailIf_ok, not_not, not_and]
  constructor
  · rintro ⟨hsizes, ⟨hmax, hgas⟩, hroots, hordered, htxs, hreads, hwrites, hproofs, haccess,
      hdigests, hbinding⟩
    refine ⟨⟨hsizes, hmax, hgas, hroots, hordered, htxs, hreads, hwrites,
      fun p hp => (hproofs p hp).1, hdigests, hbinding⟩, ?_⟩
    exact ⟨fun p hp => (hproofs p hp).2.1, fun p hp => (hproofs p hp).2.2, haccess⟩
  · rintro ⟨h, hverkle⟩
    refine ⟨h.sizes, ⟨h.maxBlockGas, h.totalGas⟩, h.roots, h.ordered, h.transactions, h.readKeys,
      h.writeKeys, fun p hp => ?_, hverkle.present, h.digests, h.binding⟩
    exact ⟨h.proofs p hp, hverkle.lengths p hp, hverkle.openings p hp⟩

lemma openingsChecked_production : OpeningsChecked o w true ↔ VerkleChecked o w := by
  have hopening (q : Bytes32 × Bytes32 × Bytes32 × List UInt8) : OpeningOk o true q ↔
      o.verifyKzgOpening q.1 (q.2.1.toNat % 2 ^ 64) (some q.2.2.1) q.2.2.2 = .ok true := by
    simp [OpeningOk]
  simp only [openingsChecked_iff, verkleChecked_iff, hopening]

lemma Host.verifyStfPrivate_ok :
    Host.verifyStfPrivate o true x w = .ok () ↔ Admissible o x w 64 ∧ VerkleChecked o w := by
  rw [Host.verifyStfPrivate_ok_iff, openingsChecked_production]

lemma Guest.verifyStfPrivate_ok :
    Guest.verifyStfPrivate o x w = .ok () ↔ Admissible o x w 32 := by
  simp only [Guest.verifyStfPrivate, bind_ok, exists_unit, Guest.checkSizes_ok, Guest.checkGas_ok,
    Guest.checkRoots_ok, Guest.checkOrdering_ok,
    checkAll_ok_iff_forall fun _ => Guest.checkTransaction_ok, checkAll_bailIf,
    checkAll_ok_iff_forall fun _ => Guest.checkVerkleProof_ok, bailIf_ok, not_not,
    admissible_iff, and_assoc, ne_eq]

/-! ### Comparison -/

lemma Admissible.congr_width {width width' : ℕ}
    (h : o.SameSwaps width width' x w.transactions.length) :
    Admissible o x w width ↔ Admissible o x w width' := by
  have hshuffled : o.shuffledPairs width x w = o.shuffledPairs width' x w := by
    refine swapDown_congr (fun i hi hin => h i hi ?_) _
    rw [List.size_toArray, sortedPairs, List.length_insertionSort, List.length_map] at hin
    omega
  rw [admissible_iff, admissible_iff, Ordered, Ordered, hshuffled]

/-- Where both machines draw the same swaps: host and guest agree on every pair whose Verkle
openings are all there and valid, and the host refuses every other pair. -/
theorem guest_accepts_iff_host (hswaps : o.SameSwaps 64 32 x w.transactions.length) :
    (VerkleChecked o w →
      (Guest.verifyStfPrivate o x w = .ok () ↔ Host.verifyStfPrivate o true x w = .ok ())) ∧
    (¬ VerkleChecked o w → Host.verifyStfPrivate o true x w ≠ .ok ()) := by
  rw [Guest.verifyStfPrivate_ok, ne_eq, Host.verifyStfPrivate_ok, ← Admissible.congr_width hswaps]
  exact ⟨fun hverkle => ⟨fun h => ⟨h, hverkle⟩, And.left⟩, fun hverkle h => hverkle h.2⟩

end

/-! ### Where host and guest disagree -/

/-- A hash whose draws are all `2 ^ 32`: a 32-bit word loses them. The commitment of a
transaction is the lowest byte of its hash. -/
def toyOracles : StfOracles where
  sha256 := fun bytes =>
    if bytes.length = 64 then BitVec.ofNat 256 (bytes.getD 32 0).toNat
    else BitVec.ofNat 256 (2 ^ 32)
  verifyingKey := fun _ => .ok ()
  verifyStrict := fun _ _ _ => .ok ()
  verifyKzgOpening := fun _ _ _ _ => .ok true

def toyPublic : ZkPublicInputs where
  chainId := 13689
  protocolVersion := 1
  circuitVersion := 1
  genesisHash := 0
  blockHeight := 5
  parentHash := 11
  stateRootBefore := 22
  stateRootAfter := 22
  txRoot := 33
  receiptsRoot := 44
  witnessRoot := 55
  beaconRandomness := 66

def toyPrivate (transactions : List StfTxWitness) (stateReads : List StfStateAccess) :
    StfPrivateInputs where
  version := 1
  maxBlockGas := 1000
  transactions := transactions
  stateReads := stateReads
  stateWrites := []
  verkleProofs := []
  commitRevealDigests := []
  binding := BitVec.ofNat 256 (2 ^ 32)

def toyTx (txHash : Bytes32) : StfTxWitness where
  txHash := txHash
  fromAddr := 7
  nonce := 0
  gasLimit := 10
  gasUsed := 10
  pubkey := 0
  signature := 0
  signedMessage := txHash
  scheme := 1
  revealNonce := 0

/-- The guest accepts a state read without a Verkle proof, which the host refuses; and three
transactions in the order of the host are in the wrong order for the guest. -/
theorem guest_and_host_disagree :
    (Guest.verifyStfPrivate toyOracles toyPublic (toyPrivate [] [⟨[1], [1]⟩]) = .ok () ∧
      Host.verifyStfPrivate toyOracles true toyPublic (toyPrivate [] [⟨[1], [1]⟩]) ≠ .ok ()) ∧
    Host.verifyStfPrivate toyOracles true toyPublic
        (toyPrivate [toyTx 3, toyTx 1, toyTx 2] []) = .ok () ∧
      Guest.verifyStfPrivate toyOracles toyPublic
        (toyPrivate [toyTx 3, toyTx 1, toyTx 2] []) ≠ .ok () := by
  decide +kernel

/-- The comparison at two transactions, where the draws agree. -/
theorem guest_and_host_two_transactions :
    (VerkleChecked toyOracles (toyPrivate [toyTx 2, toyTx 1] []) →
      (Guest.verifyStfPrivate toyOracles toyPublic (toyPrivate [toyTx 2, toyTx 1] []) = .ok () ↔
        Host.verifyStfPrivate toyOracles true toyPublic
          (toyPrivate [toyTx 2, toyTx 1] []) = .ok ())) ∧
    (¬ VerkleChecked toyOracles (toyPrivate [toyTx 2, toyTx 1] []) →
      Host.verifyStfPrivate toyOracles true toyPublic
        (toyPrivate [toyTx 2, toyTx 1] []) ≠ .ok ()) := by
  refine guest_accepts_iff_host fun i hi hin => ?_
  obtain rfl : i = 1 := Nat.le_antisymm (Nat.le_of_lt_succ hin) hi
  decide +kernel

end Sxiaum.Zk
