import Sxiaum.Execution.State
import Sxiaum.Lib.StateProgram
import Sxiaum.Lib.UndoLog
import Sxiaum.State.VerkleTree

/-!
# The state database

`StateDb` (`state/src/state_db.rs`): the tree over the account and storage rows, the tree of
the last commit, the undo log, and the staged writes of a block. The rows themselves are in
the table of the storage engine, which several databases share. An operation that fails keeps
what it has done. Left out are the versions of keys, the cache of nodes and the snapshots.
-/

namespace Sxiaum

open StateProgram

/-! ### Keys, rows and trees -/

/-- The keys of the state table. -/
inductive DbKey where
  | state (key : StateKey)
  /-- `STATE_ROOT_KEY`. -/
  | stateRoot
  | blockReceiptsRoot (height : ℕ)
  | blockStateRoot (height : ℕ)
  | executionResult (txHash : Hash)
deriving DecidableEq, Repr

/-- The stored part of a receipt. -/
structure ExecutionResult where
  status : Bool
  gasUsed : ℕ
  logs : List Log
  returnData : List UInt8
deriving DecidableEq, Repr

/-- What a row holds. -/
inductive DbRow where
  | state (row : StateRow)
  | hash (value : Hash)
  | result (result : ExecutionResult)
deriving DecidableEq, Repr

abbrev StateTable := HashMap DbKey DbRow

def StateTable.stateRows (t : StateTable) : StateRows :=
  t.entries.foldl (fun rows e => match e.1, e.2 with
    | .state key, .state row => rows.insert key row
    | _, _ => rows) ∅

/-- What the database calls of the tree over its rows. An operation returns the tree as it is
afterwards together with its result. -/
structure TreeOps (T : Type) where
  new : T
  get : T → Hash → Option Hash
  insert : T → Hash → Hash → T × Except String Unit
  update : T → Hash → Hash → T × Except String Unit
  delete : T → Hash → T × Except String Unit
  rootCommitment : T → Hash
  /-- `Account::try_hash`. -/
  accountHash : Account → Except String Hash
  /-- `storage_proof_key`. -/
  storageProofKey : Address → Hash → Hash

def keyBytes (n : Hash) : State.Key := Vector.ofFn fun i => UInt8.ofNat (n / 256 ^ (31 - i.val))

/-- The Verkle tree as the tree of a state database. -/
def verkleOps {F : Type} (kzg : Crypto.KzgScheme F) (accountHash : Account → Except String Hash)
    (storageProofKey : Address → Hash → Hash) : TreeOps State.VerkleTree where
  new := .new kzg
  get tree key := tree.get (keyBytes key)
  insert tree key value := tree.insert kzg (keyBytes key) value
  update tree key value := tree.update kzg (keyBytes key) value
  delete tree key := tree.delete kzg (keyBytes key)
  rootCommitment := State.VerkleTree.rootCommitment
  accountHash := accountHash
  storageProofKey := storageProofKey

/-- A state database without its table. -/
structure StateDb (T : Type) extends UndoLog DbKey DbRow where
  tree : T
  committedTree : T
  deferredWrites : List (DbKey × Option DbRow)

/-- The table and the database that is open on it. -/
structure OpenDb (T : Type) where
  table : StateTable
  db : StateDb T

abbrev DbProgram (T : Type) := StateProgram (OpenDb T) ExecutionError

namespace StateDb

variable {T : Type} (ops : TreeOps T)

def new : StateDb T where
  undoLog := ∅
  dirtyKeys := ∅
  tree := ops.new
  committedTree := ops.new
  deferredWrites := []

/-! ### Rows -/

section Rows

variable {T : Type}

def statePut (key : DbKey) (row : DbRow) : DbProgram T Unit :=
  modify fun s => { s with table := s.table.put key (some row) }

def stateDelete (key : DbKey) : DbProgram T Unit :=
  modify fun s => { s with table := s.table.put key none }

def atomicStateCommit (changes : List (DbKey × Option DbRow)) : DbProgram T Unit :=
  modify fun s => { s with table := s.table.putAll changes }

/-- Log the row as it is, once between commits. -/
def markDirty (key : DbKey) : DbProgram T Unit :=
  modify fun s => { s with db := { s.db with toUndoLog := s.db.mark s.table key } }

def setRaw (key : DbKey) (row : DbRow) : DbProgram T Unit := do
  markDirty key
  statePut key row

def deleteRaw (key : DbKey) : DbProgram T Unit := do
  markDirty key
  stateDelete key

/-- All keys are marked before the first row is written. -/
def writeBatch (changes : List (DbKey × Option DbRow)) : DbProgram T Unit := do
  changes.forM fun c => markDirty c.1
  atomicStateCommit changes

end Rows

/-! ### Leaves -/

/-- Replace the tree by the one an operation leaves. -/
def changeTree (f : T → T × Except String Unit) : DbProgram T Unit := do
  let s ← get
  set { s with db := { s.db with tree := (f s.db.tree).1 } }
  liftExcept ((f s.db.tree).2.mapError ExecutionError.other)

def updateTreeLeaf (key value : Hash) : DbProgram T Unit :=
  changeTree fun tree =>
    if (ops.get tree key).isSome then ops.update tree key value else ops.insert tree key value

def deleteTreeLeaf (key : Hash) : DbProgram T Unit :=
  changeTree fun tree => if (ops.get tree key).isSome then ops.delete tree key else (tree, .ok ())

/-- The leaf of a row that is written; `none` is the empty value that stands for a deletion. -/
def writeLeaf : StateKey → Option StateRow → DbProgram T Unit
  | .account address, none => deleteTreeLeaf ops address
  | .account address, some row => do
    let account ← liftExcept (decodeAccount row)
    let hash ← liftExcept ((ops.accountHash account).mapError ExecutionError.other)
    updateTreeLeaf ops address hash
  | .storage address slot, none => deleteTreeLeaf ops (ops.storageProofKey address slot)
  | .storage address slot, some (.word value) =>
    updateTreeLeaf ops (ops.storageProofKey address slot) value
  | .storage _ _, some _ => throw (.other "corrupt storage value length")
  | _, _ => pure ()

def applySpeculativeWrite (key : StateKey) (value : Option StateRow) : DbProgram T Unit := do
  writeLeaf ops key value
  match value with
  | none => deleteRaw (.state key)
  | some row => setRaw (.state key) (.state row)

/-- The leaf is written at once, the row only when flushed. -/
def applySpeculativeWriteStaged (key : StateKey) (value : Option StateRow) : DbProgram T Unit := do
  writeLeaf ops key value
  modify fun s => { s with db := { s.db with
    deferredWrites := s.db.deferredWrites ++ [(.state key, value.map DbRow.state)] } }

def flushStagedWrites : DbProgram T Unit := do
  let s ← get
  set { s with db := { s.db with deferredWrites := [] } }
  if s.db.deferredWrites = [] then return
  s.db.deferredWrites.forM fun c => markDirty c.1
  atomicStateCommit s.db.deferredWrites

def discardStagedWrites : DbProgram T Unit :=
  modify fun s => { s with db := { s.db with deferredWrites := [] } }

/-! ### Roots -/

def stateRoot : DbProgram T Hash := do return ops.rootCommitment (← get).db.tree

def updateStateRoot : DbProgram T Hash := do
  let root ← stateRoot ops
  statePut .stateRoot (.hash root)
  return root

def verifyStateRoot (root : Hash) : DbProgram T Bool := do
  let s ← get
  return ops.rootCommitment s.db.tree = root && match s.table.lookup .stateRoot with
    | some (.hash persisted) => decide (persisted = root)
    | some _ => false
    | none => decide (root = 0)

/-- The root row is written and the undo log starts afresh. -/
def commit : DbProgram T Hash := do
  let root ← updateStateRoot ops
  modify fun s => { s with db := { s.db with
    committedTree := s.db.tree
    toUndoLog := .empty } }
  return root

/-- The logged rows and the committed tree come back. -/
def rollback : DbProgram T Hash := do
  let s ← get
  let root := ops.rootCommitment s.db.committedTree
  atomicStateCommit s.db.changes
  modify fun s => { s with db := { s.db with
    tree := s.db.committedTree
    toUndoLog := .empty } }
  statePut .stateRoot (.hash root)
  return root

/-! ### The tree of the rows -/

def accountKey : DbKey → Option Address
  | .state (.account address) => some address
  | _ => none

def slotKey : DbKey → Option (Address ×ₗ Hash)
  | .state (.storage address slot) => some (toLex (address, slot))
  | _ => none

def insertAccount (t : StateTable) (tree : T) (address : Address) : Except ExecutionError T :=
  match t.lookup (.state (.account address)) with
  | some (.state row) => do
    let account ← decodeAccount row
    let hash ← (ops.accountHash account).mapError ExecutionError.other
    match ops.insert tree address hash with
    | (tree, .ok ()) => .ok tree
    | (_, .error e) => .error (.other e)
  | _ => .ok tree

/-- The leaf of a slot. -/
def insertSlot (t : StateTable) (tree : T) (slot : Address ×ₗ Hash) : Except ExecutionError T :=
  match t.lookup (.state (.storage (ofLex slot).1 (ofLex slot).2)) with
  | some (.state (.word value)) =>
    match ops.insert tree (ops.storageProofKey (ofLex slot).1 (ofLex slot).2) value with
    | (tree, .ok ()) => .ok tree
    | (_, .error e) => .error (.other e)
  | some _ => .error (.other "corrupt storage value length")
  | none => .ok tree

/-- The tree that `rebuild_tree_from_storage` builds: the accounts and then the slots, in the
order of their keys. -/
def rebuiltTree (t : StateTable) : Except ExecutionError T := do
  let tree ← (t.scan accountKey).foldlM (insertAccount ops t) ops.new
  (t.scan slotKey).foldlM (insertSlot ops t) tree

/-- The tree of the rows, accounts first. -/
def rebuildTreeFromStorage : DbProgram T Hash := do
  let s ← get
  let tree ← liftExcept (rebuiltTree ops s.table)
  modify fun s => { s with db := { s.db with
    tree := tree
    committedTree := tree
    toUndoLog := .empty } }
  statePut .stateRoot (.hash (ops.rootCommitment tree))
  return ops.rootCommitment tree

end StateDb

end Sxiaum
