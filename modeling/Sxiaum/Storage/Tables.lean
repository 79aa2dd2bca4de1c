import Sxiaum.Block
import Sxiaum.Lib.Guards
import Sxiaum.Lib.HashMap

/-!
# The tables of the block store

The tables that the in-memory backend (`memory.rs`) and the redb backend (`redb_store.rs`)
share, the checks of a canonical block, and what storing, reverting and pruning a height does
to the tables. Hashing and encoding of blocks are fields of `BlockCodec`.
-/

namespace Sxiaum.Storage

open Guards

/-- Hashes, roots and encodings of the `block` crate; `decodeBody` is `decode_canonical`. -/
structure BlockCodec where
  headerHash : BlockHeader → Except String Hash
  computeTxRoot : BlockBody → Except String Hash
  computeReceiptRoot : BlockBody → Except String Hash
  encodeHeader : BlockHeader → Except String (List UInt8)
  encodeBody : BlockBody → Except String (List UInt8)
  decodeBody : List UInt8 → Except String BlockBody
  txHash : Transaction → Except String Hash
  encodeTx : Transaction → Except String (List UInt8)
  encodeReceipt : Receipt → Except String (List UInt8)

/-- The kinds of `StorageError` that the block store returns. -/
inductive StorageError where
  | finalizedBlockReversion (height finalizedHeight : ℕ)
  | finalizedBlockPruning (height : ℕ) (finalizedHeight : Option ℕ)
  | other (message : String)
deriving DecidableEq, Repr

/-- The tables that are keyed by height, block hash or transaction hash. -/
structure Tables where
  blockHeaders : HashMap ℕ (List UInt8)
  blockBodies : HashMap ℕ (List UInt8)
  blockHashIndex : HashMap Hash ℕ
  canonicalChain : HashMap ℕ Hash
  finalizedBlocks : HashMap ℕ Hash
  logsBloom : HashMap ℕ (List UInt8)
  zkProofs : HashMap ℕ (List UInt8)
  validatorSets : HashMap ℕ (List UInt8)
  transactions : HashMap Hash (List UInt8)
  txBlockIndex : HashMap Hash ℕ
  receipts : HashMap Hash (List UInt8)

def Tables.empty : Tables := ⟨∅, ∅, ∅, ∅, ∅, ∅, ∅, ∅, ∅, ∅, ∅⟩

def showHash (hash : Hash) : String := toString (leBytes 32 hash).reverse

section

variable (codec : BlockCodec)

/-! ### Checks -/

/-- `total_gas_used_checked`, from a running total. -/
def totalGasUsedChecked : List Receipt → ℕ → Except String ℕ
  | [], total => .ok total
  | receipt :: receipts, total =>
    if total + receipt.gasUsed ≤ u64Max then
      totalGasUsedChecked receipts (total + receipt.gasUsed)
    else .error "Gas accumulation overflow in block body"

/-- The checks of `store_canonical_block`; returns the encoded header and body. -/
def checkCanonicalBlock (height : ℕ) (blockHash : Hash) (header : BlockHeader) (body : BlockBody) :
    Except String (List UInt8 × List UInt8) := do
  let headerHeight := header.height
  bailIf (headerHeight ≠ height)
    s!"Header height {headerHeight} does not match storage height {height}"
  let computedHash ← codec.headerHash header
  let hash := showHash blockHash
  let computed := showHash computedHash
  bailIf (blockHash ≠ computedHash)
    s!"Block hash {hash} does not match computed header hash {computed}"
  let txRoot ← codec.computeTxRoot body
  let root := showHash header.txRoot
  let computed := showHash txRoot
  bailIf (header.txRoot ≠ txRoot)
    s!"Header tx_root {root} does not match body computed tx_root {computed}"
  let receiptRoot ← codec.computeReceiptRoot body
  let root := showHash header.receiptsRoot
  let computed := showHash receiptRoot
  bailIf (header.receiptsRoot ≠ receiptRoot)
    s!"Header receipts_root {root} does not match body computed receipts_root {computed}"
  let gasUsed ← totalGasUsedChecked body.receipts 0
  let headerGas := header.gasUsed
  bailIf (headerGas ≠ gasUsed)
    s!"Header gas_used {headerGas} does not match body total gas used {gasUsed}"
  let headerBytes ← codec.encodeHeader header
  let bodyBytes ← codec.encodeBody body
  return (headerBytes, bodyBytes)

lemma checkCanonicalBlock_ok {codec : BlockCodec} {height : ℕ} {blockHash : Hash}
    {header : BlockHeader} {body : BlockBody} {headerBytes bodyBytes : List UInt8}
    (h : checkCanonicalBlock codec height blockHash header body = .ok (headerBytes, bodyBytes)) :
    codec.encodeHeader header = .ok headerBytes ∧ codec.encodeBody body = .ok bodyBytes := by
  simp only [checkCanonicalBlock, bind_ok, pure_ok, Prod.mk.injEq] at h
  obtain ⟨-, -, -, -, -, -, -, -, -, -, -, -, -, -, -, -, -, -, hb, hheader, bb, hbody, rfl,
    rfl⟩ := h
  exact ⟨hheader, hbody⟩

end

namespace Tables

variable (codec : BlockCodec) (t : Tables)

/-! ### Storing -/

/-- The rows of a block in the tables that are keyed by height. -/
def insertRows (height : ℕ) (headerBytes bodyBytes : List UInt8) : Tables :=
  { t with
    blockHeaders := t.blockHeaders.insert height headerBytes
    blockBodies := t.blockBodies.insert height bodyBytes }

def insertCanonical (height : ℕ) (blockHash : Hash) (headerBytes bodyBytes : List UInt8) : Tables :=
  { t.insertRows height headerBytes bodyBytes with
    blockHashIndex := t.blockHashIndex.insert blockHash height
    canonicalChain := t.canonicalChain.insert height blockHash }

/-- Index the transactions of a block, up to one that cannot be encoded. -/
def indexTransactions (height : ℕ) : List Transaction → Tables → Except String Unit × Tables
  | [], t => (.ok (), t)
  | tx :: txs, t =>
    match codec.txHash tx with
    | .error e => (.error e, t)
    | .ok hash =>
      match codec.encodeTx tx with
      | .error e => (.error e, t)
      | .ok bytes => indexTransactions height txs
          { t with
            transactions := t.transactions.insert hash bytes
            txBlockIndex := t.txBlockIndex.insert hash height }

/-- Store the receipts of a block, up to one that cannot be encoded. -/
def indexReceipts : List Receipt → Tables → Except String Unit × Tables
  | [], t => (.ok (), t)
  | receipt :: receipts, t =>
    match codec.encodeReceipt receipt with
    | .error e => (.error e, t)
    | .ok bytes =>
      indexReceipts receipts { t with receipts := t.receipts.insert receipt.txHash bytes }

def storeCanonical (height : ℕ) (blockHash : Hash) (headerBytes bodyBytes : List UInt8)
    (body : BlockBody) : Except String Unit × Tables :=
  match indexTransactions codec height body.transactions
      (t.insertCanonical height blockHash headerBytes bodyBytes) with
  | (.error e, t') => (.error e, t')
  | (.ok (), t') => indexReceipts codec body.receipts t'

/-! ### Removing -/

/-- Remove the rows of a height and the index entry of its canonical block. -/
def removeHeight (height : ℕ) : Tables :=
  { t with
    blockHeaders := t.blockHeaders.erase height
    blockBodies := t.blockBodies.erase height
    logsBloom := t.logsBloom.erase height
    zkProofs := t.zkProofs.erase height
    validatorSets := t.validatorSets.erase height
    canonicalChain := t.canonicalChain.erase height
    blockHashIndex :=
      match t.canonicalChain.lookup height with
      | some hash => t.blockHashIndex.erase hash
      | none => t.blockHashIndex }

/-- Remove the transactions and receipts of a body from their indices; a transaction that
cannot be hashed is passed over. -/
def removeIndex (body : BlockBody) : Tables :=
  { t with
    txBlockIndex := body.transactions.foldl (fun index tx =>
      match codec.txHash tx with
      | .ok hash => index.erase hash
      | .error _ => index) t.txBlockIndex
    receipts := body.receipts.foldl (fun table receipt => table.erase receipt.txHash) t.receipts }

def revertHeight (height : ℕ) : Tables :=
  match t.blockBodies.lookup height with
  | none => t.removeHeight height
  | some bodyBytes =>
    match codec.decodeBody bodyBytes with
    | .ok body => (t.removeHeight height).removeIndex codec body
    | .error _ => t.removeHeight height

/-- Revert the `count` heights above `target`, from the top. -/
def revertDown (target : ℕ) : ℕ → Tables → Tables
  | 0, t => t
  | count + 1, t => revertDown target count (t.revertHeight codec (target + count + 1))

/-- The heights below a bound that have a row in one of the tables. -/
def heightsBefore (height : ℕ) : List ℕ :=
  ((t.blockHeaders.keys ++ t.logsBloom.keys ++ t.zkProofs.keys ++ t.validatorSets.keys).filter
    (· < height)).dedup

/-- Remove the rows of all heights below a bound. -/
def pruneBefore (height : ℕ) : Tables :=
  (t.heightsBefore height).foldl removeHeight t

end Tables

end Sxiaum.Storage
