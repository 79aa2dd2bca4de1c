import Sxiaum.BlockValidation
import Sxiaum.Consensus.Env
import Sxiaum.Storage.Backends
import Sxiaum.Storage.StateBytes

/-!
# Catching up with the peers

`synchronize_if_behind` (`node.rs`): the node asks its peers for their heights, takes the
highest answer, and downloads, checks, executes and commits one block for each missing
height. What the peers answer is a parameter, and so is execution. Next to its result a sync
returns the blocks that it has committed, in order.
-/

namespace Sxiaum.Sync

open Guards Storage

abbrev PeerId := ℕ

/-- What a sync takes from other crates. -/
structure SyncEnv (σ : Type) where
  checks : BlockChecks
  /-- `Block::decode`, then plain bincode. -/
  decodeBlock : List UInt8 → Except String Block
  /-- `decode_canonical` of a header row. -/
  decodeHeader : List UInt8 → Except String BlockHeader
  serializeHeader : BlockHeader → Except String (List UInt8)
  serializeBody : BlockBody → Except String (List UInt8)
  /-- `bincode::deserialize` of a list of validators, with numbers of fixed width. The row that
  consensus writes has numbers of variable width. -/
  decodeValidators : List UInt8 → Except String (List Validator)
  validateTransactionBatch : List Transaction → Except String Unit
  /-- `execute_block`: the root that it commits and the state that it leaves. -/
  executeBlock : σ → Block → Except String Hash × σ

/-- The part of the node that a sync uses. -/
structure SyncNode (σ : Type) where
  storage : StorageEngine
  state : σ
  /-- The rows that `state_get` finds and execution does not write. -/
  stateRows : StateBytes
  chainHead : Option Hash

/-- How the peers behave, and the local time at each download. -/
structure Peers where
  /-- The connected peers and what they answer when asked for their height. -/
  heights : List (PeerId × Except String ℕ)
  requestBlock : PeerId → ℕ → Except String (Option (List UInt8))
  clock : ℕ → ℕ

/-! ### Which peer -/

section

variable {σ : Type} (env : SyncEnv σ) (peers : Peers)

/-! ### One block -/

def validateDownloadedBlock (now : ℕ) (blockBytes : List UInt8) : Except String Block := do
  let block ← env.decodeBlock blockBytes
  block.validateMainnet env.checks now
  block.validateBasic env.checks
  env.validateTransactionBatch block.body.transactions
  return block

variable (node : SyncNode σ) (storage : StorageEngine)

def consensusValidatorSetKey : Bytes := ascii "consensus:validator_set"

/-- The validators of the row that belongs to consensus; none if there is no row yet. -/
def loadLocalValidators : Except String (List Validator) :=
  match node.stateRows.lookup consensusValidatorSetKey with
  | none => .ok []
  | some bytes => env.decodeValidators bytes

def authenticateDownloadedBlock (block : Block) (expectedParent : Hash) : Except String Unit :=
  if block.isGenesis then .ok ()
  else do
    let height := block.height
    let parent := hex32 block.header.parentHash
    let expected := hex32 expectedParent
    bailIf (block.header.parentHash ≠ expectedParent)
      (s!"downloaded block at height {height} does not extend canonical chain: " ++
        s!"parent 0x{parent}, expected 0x{expected}")
    let validators ← loadLocalValidators env node
    -- bootstrap mode: without a validator set no signature is looked at
    if validators = [] then .ok ()
    else
      let proposer := hex32 block.header.proposer
      match validators.find? fun v => v.address = block.header.proposer ∧ v.isActive with
      | none => throw (s!"downloaded block at height {height} rejected: " ++
          s!"proposer 0x{proposer} is not an active local validator")
      | some validator => do
        let valid ← block.header.verifySignature env.checks validator.pubkey
        bailIf (valid = false)
          s!"downloaded block at height {height} rejected: invalid proposer signature"

/-- Download and check the block of a height. -/
def fetchBlock (peer : PeerId) (height : ℕ) (node : SyncNode σ) (expectedParent : Hash) :
    Except String Block := do
  match ← peers.requestBlock peer height with
  | none => throw s!"missing block at height {height}"
  | some blockBytes => do
    let block ← validateDownloadedBlock env (peers.clock height) blockBytes
    authenticateDownloadedBlock env node block expectedParent
    return block

end

end Sxiaum.Sync
