import Sxiaum.Types

/-!
# Blocks

The records of the `block` crate and the transactions they carry. Byte strings of
fixed width (keys, signatures, digests) are the numbers they spell.
-/

namespace Sxiaum

/-- `SXIAUM_CHAIN_ID`. -/
def chainIdMainnet : ℕ := 13689

def blockVersionCurrent : ℕ := 1

/-- A transaction; `fromAddr` and `toAddr` are the fields `from` and `to`. -/
structure Transaction where
  fromAddr : Address
  toAddr : Option Address
  signerPubkey : Option ℕ
  value : ℕ
  nonce : ℕ
  gasLimit : ℕ
  gasPrice : ℕ
  data : List UInt8
  signature : Option ℕ
  chainId : Option ℕ
  ethereumYParity : Option ℕ
  ethereumSighash : Option Hash
  ethereumTxHash : Option Hash
  ethereumRaw : Option (List UInt8)
deriving DecidableEq, Repr

structure BlockHeader where
  parentHash : Hash
  stateRoot : Hash
  txRoot : Hash
  receiptsRoot : Hash
  validatorRoot : Hash
  zkProof : Option (List UInt8)
  height : ℕ
  timestamp : ℕ
  proposer : Address
  randomnessBeacon : Hash
  version : ℕ
  gasLimit : ℕ
  gasUsed : ℕ
  extraData : List UInt8
  chainId : ℕ
  signature : Option ℕ
deriving DecidableEq, Repr

structure BlockBody where
  transactions : List Transaction
  receipts : List Receipt
deriving DecidableEq, Repr

structure Block where
  header : BlockHeader
  body : BlockBody
deriving DecidableEq, Repr

namespace BlockHeader

/-- The part of a header that is hashed and signed: `UnsignedBlockHeaderRef`. -/
def unsigned (h : BlockHeader) : BlockHeader := { h with signature := none }

def verifyTimestamp (h : BlockHeader) (previousTimestamp : ℕ) : Bool :=
  previousTimestamp < h.timestamp

@[simp] lemma unsigned_height (h : BlockHeader) : h.unsigned.height = h.height := rfl

@[simp] lemma unsigned_parentHash (h : BlockHeader) : h.unsigned.parentHash = h.parentHash := rfl

/-- A header for examples, signed with its proposer's address. -/
def sample (parentHash : Hash) (height : ℕ) (proposer : Address) : BlockHeader where
  parentHash := parentHash
  stateRoot := 0
  txRoot := 0
  receiptsRoot := 0
  validatorRoot := 0
  zkProof := none
  height := height
  timestamp := height
  proposer := proposer
  randomnessBeacon := 0
  version := blockVersionCurrent
  gasLimit := 0
  gasUsed := 0
  extraData := []
  chainId := chainIdMainnet
  signature := some proposer

end BlockHeader

namespace Block

def height (b : Block) : ℕ := b.header.height

def parentHash (b : Block) : Hash := b.header.parentHash

end Block

end Sxiaum
