import Sxiaum.Execution.BlockPipeline

/-!
# The transition of the state database

`StateDb::state_transition` (`state/src/state_db.rs`) and the operations it is made of, each on
the rows and on the tree over them. It is a transaction interpreter of its own next to those of
the executor: a sender pays the whole gas limit and gets nothing back, a call writes one slot of
the contract, and no code runs.
-/

namespace Sxiaum

/-- What the transition calls besides the execution of a block. -/
structure TransitionEnv (T : Type) extends BlockEnv T where
  keccak256 : List UInt8 → Hash
  /-- `Address::create_contract_address`. -/
  createContractAddress : Address → ℕ → Address

namespace TreeDb

variable {T : Type}

def account {α : Type} (x : Except AccountError α) : DbProgram T α :=
  liftExcept (x.mapError ExecutionError.account)

def require {α : Type} (x : Option α) (e : ExecutionError) : DbProgram T α :=
  liftExcept (okOr x e)

def loadAccount (address : Address) : DbProgram T (Option Account) := do
  let s ← get
  liftExcept (s.table.stateRows.getAccount address)

/-- The account at an address, a new one if there is none. -/
def loadOrNew (address : Address) : DbProgram T Account := do
  let account ← loadAccount address
  return account.getD (Account.new address)

section Writes

variable (env : TransitionEnv T)

def updateAccount (address : Address) (a : Account) : DbProgram T Unit := do
  account a.validate
  if a.address ≠ address then throw (.other "account address mismatch")
  StateDb.setRaw (.state (.account address)) (.state (.account a))
  let hash ← DbProgram.check (env.ops.accountHash a)
  StateDb.updateTreeLeaf env.ops address hash

/-- The slot, its leaf, and then the storage root of the account. -/
def setStorage (address : Address) (slot value : Hash) : DbProgram T Unit := do
  StateDb.markDirty (.state (.storage address slot))
  if value = 0 then
    StateDb.atomicStateCommit [(.state (.storage address slot), none)]
    StateDb.deleteTreeLeaf env.ops (env.ops.storageProofKey address slot)
  else
    StateDb.statePut (.state (.storage address slot)) (.state (.word value))
    StateDb.updateTreeLeaf env.ops (env.ops.storageProofKey address slot) value
  let a ← loadOrNew address
  let s ← get
  let root ← account (computeStorageRoot env.toExecutionEnv address
    (s.table.stateRows.getAccountStorageEntries address))
  let a ← account (a.setStorageRoot root)
  updateAccount env address a

def setCode (codeHash : Hash) (code : List UInt8) : DbProgram T Unit := do
  if code = [] then throw (.other "contract code must not be empty")
  if StateDb.maxCodeSize < code.length then throw (.other "contract code exceeds maximum size")
  if codeHash = 0 then throw (.other "invalid code hash")
  StateDb.setRaw (.state (.code codeHash)) (.state (.code code))

end Writes

/-! ### One transaction -/

section Transition

variable (env : TransitionEnv T)

variable (tx : Transaction) (txHash : Hash) (sender : Account)

/-- A call with data needs a contract. -/
def checkCallee : DbProgram T Unit :=
  match tx.toAddr with
  | none => return
  | some recipient => do
    if tx.isContractCall then
      let contract ← loadOrNew recipient
      if !contract.isContract && tx.data ≠ [] then
        throw (.other (s!"contract storage update requires contract account at " ++
          displayAddress recipient))

def validateStateTransitionChecks : DbProgram T Unit := do
  DbProgram.check (checkNonceCorrectness tx sender)
  let totalCost ← require (checkedAdd256 tx.value tx.gasCost) (.account .overflow)
  if sender.balance < totalCost then throw (.tx .insufficientBalance)
  checkCallee tx
  account sender.validate

/-- The sender after the fee for the whole gas limit, the value and the nonce. -/
def debit : DbProgram T Account := do
  let balance ← require (checkedSub sender.balance tx.gasCost) (.account .underflow)
  let balance ← require (checkedSub balance tx.value) (.account .underflow)
  if u64Max ≤ sender.nonce then throw (.account .nonceExhausted)
  let sender := { sender with balance := balance, nonce := sender.nonce + 1 }
  account sender.validate
  return sender

/-- The other side of a transaction is planned from the debited sender if it is the sender. -/
def planCounterparty (address sender : Address) (debited : Account) : DbProgram T Account :=
  if address = sender then return debited else loadOrNew address

def applyBalanceUpdate (a : Account) (amount : ℕ) : DbProgram T Account := do
  let balance ← require (checkedAdd256 a.balance amount) (.account .overflow)
  let a := { a with balance := balance }
  account a.validate
  return a

def transferTo (recipientAddress : Address) : DbProgram T Unit := do
  let recipient ← planCounterparty recipientAddress tx.fromAddr sender
  let recipient ← applyBalanceUpdate recipient tx.value
  account recipient.validate
  updateAccount env tx.fromAddr sender
  updateAccount env recipientAddress recipient
  if tx.isContractCall then setStorage env recipientAddress (env.keccak256 tx.data) txHash

def createContract : DbProgram T Unit := do
  let contractAddress := env.createContractAddress tx.fromAddr tx.nonce
  let contract ← planCounterparty contractAddress tx.fromAddr sender
  let contract ← applyBalanceUpdate contract tx.value
  let codeHash := env.keccak256 tx.data
  let contract ← account (contract.setCodeHash codeHash)
  account contract.validate
  updateAccount env tx.fromAddr sender
  setCode codeHash tx.data
  updateAccount env contractAddress contract

def stateTransition : DbProgram T Hash := do
  DbProgram.check (tx.validateBasic env.toPipelineEnv)
  let txHash ← liftExcept (tryHash env.toExecutionEnv tx)
  let sender ← loadOrNew tx.fromAddr
  validateStateTransitionChecks tx sender
  let sender ← debit tx sender
  match tx.toAddr with
  | some recipientAddress => transferTo env tx txHash sender recipientAddress
  | none => createContract env tx sender
  StateDb.updateStateRoot env.ops

def applyTransaction : DbProgram T Unit := do
  let _ ← stateTransition env tx
  return ()

end Transition

end TreeDb

end Sxiaum
