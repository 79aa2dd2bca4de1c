import Sxiaum.Types
import Sxiaum.Zk.FoldCircuit

/-!
# Witnesses of a state transition

The inputs of the state transition circuit and the digests over them (`sp1/stf.rs`; the guest
program carries a copy of both). SHA-256, Ed25519 and the KZG opening check are fields of
`StfOracles`. Arrays of 32 bytes are read as in `Bytes32`; their bytes are given back by
`Bytes32.bytes`. Gas is added as in a release build, where a `u64` sum wraps.
-/

namespace Sxiaum.Zk

def Bytes32.bytes (b : Bytes32) : List UInt8 := leBytes 32 b.toNat

def u64Bytes (n : ℕ) : List UInt8 := leBytes 8 n

/-! ### Public and private inputs -/

structure ZkPublicInputs where
  chainId : UInt64
  protocolVersion : UInt32
  circuitVersion : UInt32
  genesisHash : Bytes32
  blockHeight : UInt64
  parentHash : Bytes32
  stateRootBefore : Bytes32
  stateRootAfter : Bytes32
  txRoot : Bytes32
  receiptsRoot : Bytes32
  witnessRoot : Bytes32
  beaconRandomness : Bytes32
deriving DecidableEq

/-- One transaction; `fromAddr` is the field `from`. -/
structure StfTxWitness where
  txHash : Bytes32
  fromAddr : Bytes32
  nonce : UInt64
  gasLimit : UInt64
  gasUsed : UInt64
  pubkey : Bytes32
  signature : BitVec 512
  signedMessage : Bytes32
  scheme : UInt8
  revealNonce : Bytes32
deriving DecidableEq

structure StfStateAccess where
  key : List UInt8
  value : List UInt8
deriving DecidableEq

structure StfVerkleProof where
  commitments : List Bytes32
  evaluationPoints : List Bytes32
  evaluations : List Bytes32
  openingProofs : List (List UInt8)
  witnessRoot : Bytes32
deriving DecidableEq

structure StfPrivateInputs where
  version : UInt32
  maxBlockGas : UInt64
  transactions : List StfTxWitness
  stateReads : List StfStateAccess
  stateWrites : List StfStateAccess
  verkleProofs : List StfVerkleProof
  commitRevealDigests : List Bytes32
  binding : Bytes32
deriving DecidableEq

/-- The functions of other crates that the checks call. -/
structure StfOracles where
  sha256 : List UInt8 → Bytes32
  /-- `VerifyingKey::from_bytes`. -/
  verifyingKey : Bytes32 → Except String Unit
  verifyStrict : Bytes32 → Bytes32 → BitVec 512 → Except String Unit
  verifyKzgOpening : Bytes32 → ℕ → Option Bytes32 → List UInt8 → Except String Bool

def stfCircuitVersion : UInt32 := 1

def maxStfTransactions : ℕ := 100000

def maxStfStateReads : ℕ := 500000

def maxStfStateWrites : ℕ := 500000

def maxStfVerkleProofs : ℕ := 50000

def maxStfCommitRevealDigests : ℕ := 100000

def ZkPublicInputs.encode (x : ZkPublicInputs) : List UInt8 :=
  u64Bytes x.chainId.toNat ++ leBytes 4 x.protocolVersion.toNat ++
    leBytes 4 x.circuitVersion.toNat ++ x.genesisHash.bytes ++ u64Bytes x.blockHeight.toNat ++
    x.parentHash.bytes ++ x.stateRootBefore.bytes ++ x.stateRootAfter.bytes ++ x.txRoot.bytes ++
    x.receiptsRoot.bytes ++ x.witnessRoot.bytes ++ x.beaconRandomness.bytes

namespace StfPrivateInputs

/-- `private.transactions.iter().map(|t| t.gas_used).sum()`. -/
def totalGas (x : StfPrivateInputs) : UInt64 := (x.transactions.map (·.gasUsed)).sum

end StfPrivateInputs

namespace StfOracles

variable (o : StfOracles)

/-! ### Digests -/

def domReads : List UInt8 := "sxiaum:stf:reads:v1".toUTF8.toList

def domWrites : List UInt8 := "sxiaum:stf:writes:v1".toUTF8.toList

def domVerkle : List UInt8 := "sxiaum:stf:verkle:v1".toUTF8.toList

def domCr : List UInt8 := "sxiaum:stf:commit_reveal:v1".toUTF8.toList

def domBind : List UInt8 := "sxiaum:stf:bind:v1".toUTF8.toList

def computeCommitHash (revealNonce txHash : Bytes32) : Bytes32 :=
  o.sha256 (revealNonce.bytes ++ txHash.bytes)

/-- The commitment to a list of accesses, under the domain of reads or of writes. -/
def accessCommitment (domain : List UInt8) (accesses : List StfStateAccess) : Bytes32 :=
  o.sha256 (domain ++ u64Bytes accesses.length ++ accesses.flatMap fun a =>
    u64Bytes a.key.length ++ a.key ++ u64Bytes a.value.length ++ a.value)

def computeReadsCommitment : List StfStateAccess → Bytes32 := o.accessCommitment domReads

def computeWritesCommitment : List StfStateAccess → Bytes32 := o.accessCommitment domWrites

def computeVerkleCommitment (proofs : List StfVerkleProof) : Bytes32 :=
  o.sha256 (domVerkle ++ u64Bytes proofs.length ++ proofs.flatMap fun p =>
    u64Bytes p.commitments.length ++ p.commitments.flatMap Bytes32.bytes ++
    u64Bytes p.evaluationPoints.length ++ p.evaluationPoints.flatMap Bytes32.bytes ++
    u64Bytes p.evaluations.length ++ p.evaluations.flatMap Bytes32.bytes ++
    u64Bytes p.openingProofs.length ++ p.openingProofs.flatten ++ p.witnessRoot.bytes)

def computeCommitRevealCommitment (digests : List Bytes32) : Bytes32 :=
  o.sha256 (domCr ++ u64Bytes digests.length ++ digests.flatMap Bytes32.bytes)

/-- The digest that links the public inputs to the private ones. -/
def computeBinding (x : ZkPublicInputs) (w : StfPrivateInputs) : Bytes32 :=
  o.sha256 (domBind ++ x.encode ++ u64Bytes w.totalGas.toNat ++ u64Bytes w.maxBlockGas.toNat ++
    (o.computeReadsCommitment w.stateReads).bytes ++
    (o.computeWritesCommitment w.stateWrites).bytes ++
    (o.computeVerkleCommitment w.verkleProofs).bytes ++
    (o.computeCommitRevealCommitment w.commitRevealDigests).bytes)

def addressFromPubkey (pubkey : Bytes32) : Bytes32 := o.sha256 pubkey.bytes

/-! ### Order of the transactions -/

def computeOrderingSeed (parentHash : Bytes32) (height : UInt64) (beaconRandomness : Bytes32) :
    Bytes32 :=
  o.sha256 (parentHash.bytes ++ u64Bytes height.toNat ++ beaconRandomness.bytes)

/-- The `u64` that is drawn for position `i`. -/
def draw (seed : Bytes32) (height : UInt64) (i : ℕ) : ℕ :=
  (o.sha256 (seed.bytes ++ u64Bytes height.toNat ++ u64Bytes i)).toNat % 2 ^ 64

/-- The position that `i` is swapped with, on a machine whose `usize` has `width` bits. -/
def swapIndex (width : ℕ) (seed : Bytes32) (height : UInt64) (i : ℕ) : ℕ :=
  o.draw seed height i % 2 ^ width % (i + 1)

/-- The swaps at positions `i`, …, `1`. -/
def swapDown {α : Type} (width : ℕ) (seed : Bytes32) (height : UInt64) :
    ℕ → Array α → Array α
  | 0, items => items
  | i + 1, items =>
    swapDown width seed height i
      (items.swapIfInBounds (i + 1) (o.swapIndex width seed height (i + 1)))

def randomizeOrdering {α : Type} (width : ℕ) (items : Array α) (seed : Bytes32)
    (height : UInt64) : Array α :=
  o.swapDown width seed height (items.size - 1) items

/-- The order in which `sort_unstable_by` compares commitments: byte by byte. Pairs with
equal commitments are equal unless the hash collides. -/
def CommitLe (a b : Bytes32 × Bytes32) : Prop := a.1.bytes ≤ b.1.bytes

instance : DecidableRel CommitLe := fun a b => inferInstanceAs (Decidable (a.1.bytes ≤ b.1.bytes))

/-- `sorted_pairs` before the shuffle. -/
def sortedPairs (w : StfPrivateInputs) : List (Bytes32 × Bytes32) :=
  (w.transactions.map fun t => (o.computeCommitHash t.revealNonce t.txHash, t.txHash)).insertionSort
    CommitLe

/-- `sorted_pairs` after the shuffle. -/
def shuffledPairs (width : ℕ) (x : ZkPublicInputs) (w : StfPrivateInputs) :
    Array (Bytes32 × Bytes32) :=
  o.randomizeOrdering width (o.sortedPairs w).toArray
    (o.computeOrderingSeed x.parentHash x.blockHeight x.beaconRandomness) x.blockHeight

/-- Machines of two widths draw the same positions for a list of `n` transactions. -/
def SameSwaps (width width' : ℕ) (x : ZkPublicInputs) (n : ℕ) : Prop :=
  let seed := o.computeOrderingSeed x.parentHash x.blockHeight x.beaconRandomness
  ∀ i, 1 ≤ i → i < n →
    o.swapIndex width seed x.blockHeight i = o.swapIndex width' seed x.blockHeight i

variable {o}

lemma swapDown_congr {α : Type} {width width' : ℕ} {seed : Bytes32} {height : UInt64} {n : ℕ}
    (h : ∀ i, 1 ≤ i → i ≤ n →
      o.swapIndex width seed height i = o.swapIndex width' seed height i) (items : Array α) :
    o.swapDown width seed height n items = o.swapDown width' seed height n items := by
  induction n generalizing items with
  | zero => rfl
  | succ n ih =>
    rw [swapDown, swapDown, h (n + 1) (Nat.le_add_left 1 n) le_rfl]
    exact ih (fun i hi hin => h i hi (Nat.le_succ_of_le hin)) _

end StfOracles

end Sxiaum.Zk
