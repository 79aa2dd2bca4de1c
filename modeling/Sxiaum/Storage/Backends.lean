import Sxiaum.Storage.Tables

/-!
# The two storage backends

The operations on blocks and heights of `MemoryDatabaseBackend` (`memory.rs`) and of
`StorageEngine` (`redb_store.rs`). An operation returns its reply and the state it leaves
behind. A redb operation is one transaction, so that a failing one leaves nothing; the
in-memory one writes as it goes.
-/

namespace Sxiaum.Storage

open Guards

/-- What an operation returns. -/
inductive Reply where
  | done
  | count (n : ℕ)
deriving DecidableEq, Repr

/-- The operations that both backends have. -/
inductive StorageOp where
  | storeCanonicalBlock (height : ℕ) (blockHash : Hash) (header : BlockHeader) (body : BlockBody)
  | atomicBlockCommit (height : ℕ) (headerBytes bodyBytes : List UInt8)
  | revertBlock (height : ℕ)
  | revertBlocksTo (targetHeight : ℕ)
  | setFinalizedHeight (height : ℕ) (blockHash : Hash)
  | setSafeHeight (height : ℕ)
  | pruneBlocksBefore (height : ℕ)

/-- Refuse to revert a height that is finalized. -/
def checkRevert (finalized : Option ℕ) (height : ℕ) : Except StorageError Unit :=
  match finalized with
  | some f => bailIf (height ≤ f) (.finalizedBlockReversion height f)
  | none => .ok ()

/-- Refuse to prune what is not finalized. -/
def checkPrune (finalized : Option ℕ) (height : ℕ) : Except StorageError Unit :=
  match finalized with
  | some f => bailIf (f < height) (.finalizedBlockPruning height finalized)
  | none => bailIf (1 < height) (.finalizedBlockPruning height none)

lemma checkRevert_ok {finalized : Option ℕ} {height : ℕ} :
    checkRevert finalized height = .ok () ↔ ∀ f ∈ finalized, f < height := by
  cases finalized <;> simp [checkRevert]

lemma checkPrune_ok {finalized : Option ℕ} {height : ℕ}
    (h : checkPrune finalized height = .ok ()) : ∀ f ∈ finalized, height ≤ f := by
  cases finalized with
  | none => nofun
  | some f => simpa [checkPrune] using h

/-! ### In memory -/

/-- `MemoryDatabaseBackend`. -/
structure MemoryBackend where
  tables : Tables
  height : ℕ
  finalizedHeight : ℕ
  safeHeight : ℕ

namespace MemoryBackend

variable (codec : BlockCodec) (s : MemoryBackend)

def new : MemoryBackend := ⟨Tables.empty, 0, 0, 0⟩

def setLatestHeight (height : ℕ) : MemoryBackend := { s with height := height }

def setFinalizedHeight (height : ℕ) (blockHash : Hash) : MemoryBackend :=
  { s with
    tables := { s.tables with finalizedBlocks := s.tables.finalizedBlocks.insert height blockHash }
    finalizedHeight := height }

/-- Height zero counts as finalized once it has been marked. -/
def getFinalizedHeight : Option ℕ :=
  if s.finalizedHeight = 0 ∧ 0 ∉ s.tables.finalizedBlocks then none else some s.finalizedHeight

def setSafeHeight (height : ℕ) : MemoryBackend := { s with safeHeight := height }

/-- The latest height after a block has been stored. -/
def raised (height : ℕ) : ℕ := if s.height < height then height else s.height

def storeCanonicalBlock (height : ℕ) (blockHash : Hash) (header : BlockHeader) (body : BlockBody) :
    Except StorageError Unit × MemoryBackend :=
  match checkCanonicalBlock codec height blockHash header body with
  | .error e => (.error (.other e), s)
  | .ok (headerBytes, bodyBytes) =>
    match s.tables.storeCanonical codec height blockHash headerBytes bodyBytes body with
    | (.error e, t) => (.error (.other e), { s with tables := t })
    | (.ok (), t) => (.ok (), { s with tables := t, height := s.raised height })

def atomicBlockCommit (height : ℕ) (headerBytes bodyBytes : List UInt8) : MemoryBackend :=
  { s with
    tables := s.tables.insertRows height headerBytes bodyBytes
    height := s.raised height }

def revertBlock (height : ℕ) : Except StorageError Unit × MemoryBackend :=
  match checkRevert s.getFinalizedHeight height with
  | .error e => (.error e, s)
  | .ok () => (.ok (), {
      s with
      tables := s.tables.revertHeight codec height
      height := if height ≤ s.height then height - 1 else s.height })

/-- Revert the `count` heights above `target`, from the top. -/
def revertDown (target : ℕ) : ℕ → MemoryBackend → Except StorageError Unit × MemoryBackend
  | 0, s => (.ok (), s)
  | count + 1, s =>
    match s.revertBlock codec (target + count + 1) with
    | (.error e, s') => (.error e, s')
    | (.ok (), s') => revertDown target count s'

/-- The heights above are reverted one by one. -/
def revertBlocksTo (targetHeight : ℕ) : Except StorageError ℕ × MemoryBackend :=
  if s.height ≤ targetHeight then (.ok 0, s)
  else
    match checkRevert s.getFinalizedHeight (targetHeight + 1) with
    | .error e => (.error e, s)
    | .ok () =>
      match revertDown codec targetHeight (s.height - targetHeight) s with
      | (.error e, s') => (.error e, s')
      | (.ok (), s') => (.ok (s.height - targetHeight), s')

/-- The heights below, where the check allows it. -/
def pruneBlocksBefore (height : ℕ) : Except StorageError ℕ × MemoryBackend :=
  match checkPrune s.getFinalizedHeight height with
  | .error e => (.error e, s)
  | .ok () =>
    (.ok (s.tables.heightsBefore height).length, { s with tables := s.tables.pruneBefore height })

inductive Op where
  | shared (op : StorageOp)
  | setLatestHeight (height : ℕ)

def stepShared : StorageOp → Except StorageError Reply × MemoryBackend
  | .storeCanonicalBlock height blockHash header body =>
    (s.storeCanonicalBlock codec height blockHash header body).map (·.map fun _ => .done) id
  | .atomicBlockCommit height headerBytes bodyBytes =>
    (.ok .done, s.atomicBlockCommit height headerBytes bodyBytes)
  | .revertBlock height => (s.revertBlock codec height).map (·.map fun _ => .done) id
  | .revertBlocksTo targetHeight => (s.revertBlocksTo codec targetHeight).map (·.map .count) id
  | .setFinalizedHeight height blockHash => (.ok .done, s.setFinalizedHeight height blockHash)
  | .setSafeHeight height => (.ok .done, s.setSafeHeight height)
  | .pruneBlocksBefore height => (s.pruneBlocksBefore height).map (·.map .count) id

def step : Op → Except StorageError Reply × MemoryBackend
  | .shared op => s.stepShared codec op
  | .setLatestHeight height => (.ok .done, s.setLatestHeight height)

end MemoryBackend

/-! ### On disk -/

/-- `StorageEngine`; the heights are the metadata rows `latest_block_height`,
`finalized_block_height` and `safe_block_height`. -/
structure StorageEngine where
  tables : Tables
  latestHeight : Option ℕ
  finalizedHeight : Option ℕ
  safeHeight : Option ℕ

namespace StorageEngine

variable (codec : BlockCodec) (s : StorageEngine)

def new : StorageEngine := ⟨Tables.empty, none, none, none⟩

def latestBlockHeight : ℕ := s.latestHeight.getD 0

/-- `update_latest_height_metadata`. -/
def raised (height : ℕ) : Option ℕ :=
  if s.latestBlockHeight < height ∨ s.latestHeight = none then some height else s.latestHeight

def setFinalizedHeight (height : ℕ) (blockHash : Hash) : StorageEngine :=
  { s with
    tables := { s.tables with finalizedBlocks := s.tables.finalizedBlocks.insert height blockHash }
    finalizedHeight := some height }

def setSafeHeight (height : ℕ) : StorageEngine := { s with safeHeight := some height }

def storeCanonicalBlock (height : ℕ) (blockHash : Hash) (header : BlockHeader) (body : BlockBody) :
    Except StorageError Unit × StorageEngine :=
  match checkCanonicalBlock codec height blockHash header body with
  | .error e => (.error (.other e), s)
  | .ok (headerBytes, bodyBytes) =>
    match s.tables.storeCanonical codec height blockHash headerBytes bodyBytes body with
    | (.error e, _) => (.error (.other e), s)
    | (.ok (), t) => (.ok (), { s with tables := t, latestHeight := s.raised height })

def atomicBlockCommit (height : ℕ) (headerBytes bodyBytes : List UInt8) : StorageEngine :=
  { s with
    tables := s.tables.insertRows height headerBytes bodyBytes
    latestHeight := s.raised height }

def revertBlock (height : ℕ) : Except StorageError Unit × StorageEngine :=
  match checkRevert s.finalizedHeight height with
  | .error e => (.error e, s)
  | .ok () => (.ok (), {
      s with
      tables := s.tables.revertHeight codec height
      latestHeight := if 0 < height then some (height - 1) else none })

/-- All heights above are reverted in one transaction. -/
def revertBlocksTo (targetHeight : ℕ) : Except StorageError ℕ × StorageEngine :=
  if s.latestBlockHeight ≤ targetHeight then (.ok 0, s)
  else
    match checkRevert s.finalizedHeight (targetHeight + 1) with
    | .error e => (.error e, s)
    | .ok () =>
      let count := s.latestBlockHeight - targetHeight
      let t := s.tables.revertDown codec targetHeight count
      (.ok count, {
        s with
        tables := t
        latestHeight :=
          if 0 < targetHeight ∨ (t.blockHeaders.lookup 0).isSome then some targetHeight else none })

def pruneBlocksBefore (height : ℕ) : Except StorageError ℕ × StorageEngine :=
  match checkPrune s.finalizedHeight height with
  | .error e => (.error e, s)
  | .ok () =>
    (.ok (s.tables.heightsBefore height).length, {
      s with
      tables := s.tables.pruneBefore height
      latestHeight := if height ≤ s.latestBlockHeight then some s.latestBlockHeight else none })

def step : StorageOp → Except StorageError Reply × StorageEngine
  | .storeCanonicalBlock height blockHash header body =>
    (s.storeCanonicalBlock codec height blockHash header body).map (·.map fun _ => .done) id
  | .atomicBlockCommit height headerBytes bodyBytes =>
    (.ok .done, s.atomicBlockCommit height headerBytes bodyBytes)
  | .revertBlock height => (s.revertBlock codec height).map (·.map fun _ => .done) id
  | .revertBlocksTo targetHeight => (s.revertBlocksTo codec targetHeight).map (·.map .count) id
  | .setFinalizedHeight height blockHash => (.ok .done, s.setFinalizedHeight height blockHash)
  | .setSafeHeight height => (.ok .done, s.setSafeHeight height)
  | .pruneBlocksBefore height => (s.pruneBlocksBefore height).map (·.map .count) id

end StorageEngine

end Sxiaum.Storage
