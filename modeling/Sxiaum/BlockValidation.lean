import Sxiaum.Execution.Evm
import Sxiaum.Storage.Tables

/-!
# Validation of blocks

`validate_basic` and `validate_mainnet` of headers and blocks, and the signature of a header
(`block/src/header.rs`, `block/src/block.rs`). The checks of the body, the Merkle roots and
the encoded size come from `BlockChecks`, and Ed25519 too.
-/

namespace Sxiaum

open Guards

def maxBlockSizeBytes : ℕ := 2 * 1024 * 1024

def maxTransactionsPerBlock : ℕ := 10000

def maxBlockGasLimit : ℕ := 30000000

def minBlockGasLimit : ℕ := 5000

def maxFutureBlockTimeSecs : ℕ := 5

def genesisTimestamp : ℕ := 1704067200

def maxExtraDataSize : ℕ := 32

def maxZkProofSize : ℕ := 256 * 1024

/-- What validation takes from elsewhere. -/
structure BlockChecks where
  headerHash : BlockHeader → Except String Hash
  sizeBytes : Block → Except String ℕ
  validateTransactions : BlockBody → Except String Unit
  validateReceipts : BlockBody → Except String Unit
  computeTxRoot : BlockBody → Except String Hash
  computeReceiptRoot : BlockBody → Except String Hash
  /-- `BlockBody::validate_mainnet` for a gas limit. -/
  validateBodyMainnet : BlockBody → ℕ → Except String Unit
  addressFromPublicKey : ℕ → Address
  /-- `VerifyingKey::from_bytes`. -/
  verifyingKey : ℕ → Except String Unit
  /-- `verify_strict` of a digest under a key. -/
  verifyStrict : ℕ → Hash → ℕ → Except String Unit

/-- Checks that everything passes. -/
def BlockChecks.plain : BlockChecks where
  headerHash := fun _ => .ok 0
  sizeBytes := fun _ => .ok 0
  validateTransactions := fun _ => .ok ()
  validateReceipts := fun _ => .ok ()
  computeTxRoot := fun _ => .ok 0
  computeReceiptRoot := fun _ => .ok 0
  validateBodyMainnet := fun _ _ => .ok ()
  addressFromPublicKey := id
  verifyingKey := fun _ => .ok ()
  verifyStrict := fun _ _ _ => .ok ()

namespace BlockHeader

variable (h : BlockHeader)

/-- The checks that need no other block. -/
def validateBasic : Except String Unit := do
  bailIf (h.timestamp = 0) "Block timestamp cannot be zero"
  bailIf (h.height = 0 ∧ h.parentHash ≠ 0) "Genesis block (height 0) must have zero parent hash"
  let size := h.extraData.length
  bailIf (maxExtraDataSize < size) s!"Extra data size {size} exceeds maximum {maxExtraDataSize} bytes"
  let proofSize := (h.zkProof.getD []).length
  bailIf (maxZkProofSize < proofSize)
    s!"ZK validity proof size {proofSize} exceeds maximum {maxZkProofSize} bytes"

/-- The checks of the main network, at a local time. -/
def validateMainnet (localTime : ℕ) : Except String Unit := do
  h.validateBasic
  let version := h.version
  bailIf (version ≠ blockVersionCurrent)
    s!"Unsupported block version: expected {blockVersionCurrent}, got {version}"
  let chainId := h.chainId
  bailIf (chainId ≠ chainIdMainnet) s!"Invalid chain ID: expected {chainIdMainnet}, got {chainId}"
  let gasLimit := h.gasLimit
  bailIf (maxBlockGasLimit < gasLimit)
    s!"Block gas limit {gasLimit} exceeds network maximum {maxBlockGasLimit}"
  bailIf (gasLimit < minBlockGasLimit)
    s!"Block gas limit {gasLimit} is below minimum required {minBlockGasLimit}"
  let gasUsed := h.gasUsed
  bailIf (gasLimit < gasUsed) s!"Gas used {gasUsed} exceeds block gas limit {gasLimit}"
  let height := h.height
  bailIf (0 < height ∧ h.parentHash = 0)
    s!"Non-genesis block (height {height}) must have a non-zero parent hash"
  bailIf (0 < height ∧ h.proposer = 0) "Non-genesis block must have a non-zero proposer address"
  bailIf (height = 0 ∧ h.proposer ≠ 0) "Genesis block must have zero proposer address"
  let timestamp := h.timestamp
  bailIf (timestamp < genesisTimestamp)
    s!"Block timestamp {timestamp} is before canonical genesis timestamp {genesisTimestamp}"
  bailIf (satAdd64 localTime maxFutureBlockTimeSecs < timestamp)
    (s!"Block timestamp {timestamp} is too far in the future " ++
      s!"(local time {localTime}, allowed drift {maxFutureBlockTimeSecs})")

/-- A signature that does not verify is an error. -/
def verifySignature (checks : BlockChecks) (publicKey : ℕ) : Except String Bool :=
  match h.signature with
  | none => .error "Header signature is missing"
  | some signature => do
    let expected := displayAddress h.proposer
    let derived := displayAddress (checks.addressFromPublicKey publicKey)
    bailIf (checks.addressFromPublicKey publicKey ≠ h.proposer)
      (s!"Proposer public key does not match header proposer: expected {expected}, " ++
        s!"derived {derived}")
    (checks.verifyingKey publicKey).mapError fun e => s!"Invalid proposer public key: {e}"
    let hash ← checks.headerHash h
    (checks.verifyStrict publicKey hash signature).mapError fun e =>
      s!"Cryptographic signature verification failed: {e}"
    return true

end BlockHeader

namespace Block

variable (b : Block) (checks : BlockChecks)

def isGenesis : Bool := b.height = 0

def validateBasic : Except String Unit := do
  b.header.validateBasic
  let txs := b.body.transactions.length
  bailIf (maxTransactionsPerBlock < txs)
    s!"Transaction count {txs} exceeds network maximum {maxTransactionsPerBlock}"
  let receipts := b.body.receipts.length
  bailIf (maxTransactionsPerBlock < receipts)
    s!"Receipt count {receipts} exceeds network maximum {maxTransactionsPerBlock}"
  let size ← checks.sizeBytes b
  bailIf (maxBlockSizeBytes < size)
    s!"Block size {size} bytes exceeds network maximum {maxBlockSizeBytes} bytes"
  checks.validateTransactions b.body
  checks.validateReceipts b.body
  let txRoot ← checks.computeTxRoot b.body
  let expected := hex32 b.header.txRoot
  let computed := hex32 txRoot
  bailIf (b.header.txRoot ≠ txRoot)
    s!"Merkle root mismatch: expected {expected}, computed {computed}"
  let receiptRoot ← checks.computeReceiptRoot b.body
  let expected := hex32 b.header.receiptsRoot
  let computed := hex32 receiptRoot
  bailIf (b.header.receiptsRoot ≠ receiptRoot)
    s!"Merkle root mismatch: expected {expected}, computed {computed}"

def validateMainnet (localTime : ℕ) : Except String Unit := do
  b.validateBasic checks
  b.header.validateMainnet localTime
  checks.validateBodyMainnet b.body b.header.gasLimit
  let headerGas := b.header.gasUsed
  bailIf (b.isGenesis ∧ ¬ (b.body.transactions = [] ∧ b.body.receipts = []))
    "Genesis block (height 0) must have an empty body with zero transactions and receipts"
  bailIf (b.isGenesis ∧ headerGas ≠ 0)
    s!"Gas used mismatch: header specifies {headerGas}, but executed body consumed 0"
  let bodyGas ← Storage.totalGasUsedChecked b.body.receipts 0
  bailIf (headerGas ≠ bodyGas)
    s!"Gas used mismatch: header specifies {headerGas}, but executed body consumed {bodyGas}"

end Block

end Sxiaum
