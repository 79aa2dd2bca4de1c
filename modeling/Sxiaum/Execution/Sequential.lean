import Sxiaum.BlockValidation
import Sxiaum.Execution.Speculative
import Sxiaum.Lib.StateProgram

/-!
# Sequential execution of transactions

`Executor::execute_pipeline` (`executor.rs`), the path on which a block producer executes
transactions. It works on the rows of the state database directly: the checks of a
transaction, the `StateDbBackend` through which revm reads and commits, the transfer and the
gas accounting around it. An execution that fails keeps what it has written so far. The Verkle
tree beside the rows appears as the root that a receipt carries.
-/

namespace Sxiaum

open Guards

/-- What the sequential path calls besides the EVM. -/
structure PipelineEnv extends ExecutionEnv where
  /-- `Transaction::verify_signature`. -/
  verifySignature : Transaction → Except String Bool
  /-- The chain id of `verified_ethereum_envelope`. -/
  envelopeChainId : Transaction → Except String ℕ
  /-- `Address::from_public_key`. -/
  addressOfPubkey : ℕ → Address
  /-- The root of the tree over the rows. -/
  stateRoot : StateRows → Hash

instance : Coe PipelineEnv ExecutionEnv := ⟨PipelineEnv.toExecutionEnv⟩

abbrev Seq := StateProgram StateRows ExecutionError

namespace Seq

def check {α : Type} (x : Except String α) : Seq α := liftExcept (x.mapError ExecutionError.other)

def account {α : Type} (x : Except AccountError α) : Seq α :=
  liftExcept (x.mapError ExecutionError.account)

def require {α : Type} (x : Option α) (e : ExecutionError) : Seq α := liftExcept (okOr x e)

end Seq

/-! ### Checks of a transaction -/

/-- `u64::saturating_mul`. -/
def satMul64 (a b : ℕ) : ℕ := min (a * b) u64Max

def maxTxDataSize : ℕ := 131072

def maxTxGasLimit : ℕ := 30000000

def txCreateGas : ℕ := 320

def initcodeWordGas : ℕ := 2

def initcodeCost (len : ℕ) : ℕ := satMul64 (satAdd64 len 31 / 32) initcodeWordGas

def calculateIntrinsicGasEx (data : List UInt8) (isCreate : Bool) : ℕ :=
  let base := if isCreate then
    satAdd64 (satAdd64 intrinsicGas txCreateGas) (initcodeCost data.length) else intrinsicGas
  data.foldl (fun gas byte => satAdd64 gas (if byte ≠ 0 then calldataGas else calldataZeroGas)) base

namespace Transaction

variable (env : PipelineEnv) (tx : Transaction)

def isEthereumTransaction : Bool := tx.ethereumRaw.isSome

def gasCost : ℕ := satMul256 tx.gasPrice tx.gasLimit

/-- The intrinsic gas in the terms of the types crate, which has its own schedule for
Ethereum envelopes. -/
def intrinsicGas : ℕ :=
  let words := (tx.data.length + 31) / 32
  if tx.isEthereumTransaction then
    tx.data.foldl (fun gas byte => satAdd64 gas (if byte = 0 then 4 else 16))
      (if tx.isContractCreation then satAdd64 53000 (satMul64 words 2) else 21000)
  else
    tx.data.foldl (fun gas byte => satAdd64 gas (if byte = 0 then 4 else 1))
      (if tx.isContractCreation then 530 else 210)

def validateGasLimit : Except String Unit := do
  bailIf (tx.gasLimit = 0) "Gas limit must be greater than zero"
  bailIf (maxTxGasLimit < tx.gasLimit) "Gas limit exceeds maximum transaction gas limit"
  bailIf (tx.gasLimit < tx.intrinsicGas) "Gas limit below intrinsic gas"

def showChainId : Option ℕ → String
  | some n => s!"Some({n})"
  | none => "None"

def validateBasic : Except String Unit := do
  tx.validateGasLimit
  bailIf (tx.gasPrice = 0) "Gas price must be greater than zero"
  bailIf (maxTxDataSize < tx.data.length) "Transaction data exceeds maximum size"
  bailIf (tx.isContractCreation ∧ tx.data = []) "Contract creation must include deployment code"
  bailIf (tx.chainId ≠ some chainIdMainnet)
    s!"Invalid or missing chain_id. Expected {chainIdMainnet}, got {showChainId tx.chainId}"
  let hasPartialEth := tx.ethereumYParity.isSome || tx.ethereumSighash.isSome ||
    tx.ethereumTxHash.isSome
  bailIf (tx.ethereumRaw.isNone ∧ hasPartialEth) "Partial Ethereum fields without raw envelope"
  bailIf (tx.ethereumRaw.isSome ∧ tx.signerPubkey.isSome)
    "Transaction cannot have both Ethereum and native signature fields"
  bailIf (tx.ethereumRaw.isNone ∧ (tx.signature.isNone ∨ tx.signerPubkey.isNone))
    "Native transaction must carry signature and signer_pubkey"
  bailIf (tx.signature.isSome ∧ tx.ethereumRaw.isNone ∧ tx.signerPubkey.isNone)
    "Native signed transaction must include signer_pubkey"
  if tx.ethereumRaw.isSome then
    let chainId ← env.envelopeChainId tx
    bailIf (chainId ≠ chainIdMainnet) "Ethereum transaction chain_id mismatch"
  else match tx.signerPubkey with
    | none => .ok ()
    | some pubkey =>
      let derived := displayAddress (env.addressOfPubkey pubkey)
      let sender := displayAddress tx.fromAddr
      bailIf (env.addressOfPubkey pubkey ≠ tx.fromAddr)
        (s!"signer public key does not match transaction sender address: expected {sender}, " ++
          s!"derived {derived}")

end Transaction

def validateGasLimit (tx : Transaction) : Except String Unit := do
  let limit := tx.gasLimit
  let intrinsic := calculateIntrinsicGasEx tx.data tx.toAddr.isNone
  bailIf (limit = 0) "gas limit must be greater than zero"
  bailIf (limit < intrinsic)
    s!"gas limit {limit} is below intrinsic gas {intrinsic} for this transaction"
  bailIf (maxBlockGasLimit < limit)
    s!"gas limit {limit} exceeds maximum transaction gas limit {maxBlockGasLimit}"

def verifyTransactionSignature (env : PipelineEnv) (tx : Transaction) : Except String Unit := do
  bailIf (tx.signature = none) "transaction must be signed"
  let ok ← env.verifySignature tx
  bailIf (ok = false) "transaction signature verification failed"

def checkNonceCorrectness (tx : Transaction) (sender : Account) : Except String Unit :=
  bailIf (sender.nonce ≠ tx.nonce)
    s!"nonce mismatch for {displayAddress tx.fromAddr}: expected {sender.nonce}, got {tx.nonce}"

/-! ### The state database -/

namespace StateRows

/-- `StateDb::delete_account`: the account, its slots and its vesting schedule. -/
def deleteAccount (rows : StateRows) (address : Address) : StateRows :=
  rows.retain fun k _ => !(k = .account address ∨ k = .vesting address ∨ Occ.isSlotOf address k)

end StateRows

namespace StateDb

def getAccount (address : Address) : Seq (Option Account) := do
  let rows ← get
  liftExcept (rows.getAccount address)

/-- `StateDb::update_account`, without the tree. -/
def updateAccount (address : Address) (account : Account) : Seq Unit := do
  Seq.account account.validate
  if account.address ≠ address then throw (.other "account address mismatch")
  modify (·.insert (.account address) (.account account))

def maxCodeSize : ℕ := 24576

def setCode (codeHash : Hash) (code : List UInt8) : Seq Unit := do
  if code = [] then throw (.other "contract code must not be empty")
  if maxCodeSize < code.length then throw (.other "contract code exceeds maximum size")
  if codeHash = 0 then throw (.other "invalid code hash")
  modify (·.insert (.code codeHash) (.code code))

/-- `StateDb::set_storage`: the slot and then the storage root of the account. -/
def setStorage (env : ExecutionEnv) (address : Address) (slot value : Hash) : Seq Unit := do
  modify fun rows =>
    if value = 0 then rows.erase (.storage address slot)
    else rows.insert (.storage address slot) (.word value)
  let account ← getAccount address
  let rows ← get
  let root ← Seq.account
    (computeStorageRoot env address (rows.getAccountStorageEntries address))
  let account ← Seq.account ((account.getD (Account.new address)).setStorageRoot root)
  updateAccount address account

end StateDb

/-! ### revm on the state database -/

namespace StateDbBackend

variable (rows : StateRows) (env : ExecutionEnv) (m : AddressMap)

/-- `Database for StateDbBackend`. -/
def answer : DbQuery → Except ExecutionError (Option DbAnswer)
  | .basic address => do
    let account ← rows.getAccount (m.resolve address)
    return account.map fun a => .info a.toRevmInfo
  | .codeByHash codeHash =>
    if codeHash = emptyCodeHash then .ok (some (.bytes []))
    else match rows.lookup (.code codeHash) with
      | some (.code bytes) => .ok (some (.bytes bytes))
      | some _ => .ok (some (.bytes []))
      | none => .error (.other s!"missing bytecode for code hash 0x{hex32 codeHash}")
  | .storage address index =>
    match rows.lookup (.storage (m.resolve address) index) with
    | some (.word value) => .ok (some (.word value))
    | some _ => .error (.other "corrupt storage value length")
    | none => .ok (some (.word 0))
  | .blockHash number =>
    match rows.lookup (.blockHash number) with
    | some (.word value) => .ok (some (.word value))
    | _ => .ok (some (.word 0))

/-- The answers with their errors as `transact_commit` reports them. -/
def database (errorLabel : String) (q : DbQuery) : Except ExecutionError (Option DbAnswer) :=
  (answer rows m q).mapError fun e => .other s!"{errorLabel}: {e.message}"

/-- The first error inside `commit`, and the rows so far. -/
abbrev CommitState := Option String × StateRows

/-- Run an operation of `commit`; a failure is recorded and does not stop it. -/
def attempt (context : String) (address : Address) (p : Seq Unit) (s : CommitState) :
    CommitState :=
  match p.run s.2 with
  | (.ok (), rows) => (s.1, rows)
  | (.error e, rows) => (s.1.or (some s!"{context} for 0x{hex32 address}: {e.message}"), rows)

/-- Store the code that an account carries, and set its hash. -/
def storeCode (code : Option (List UInt8)) (account : Account) :
    StateProgram StateRows (String × ExecutionError) Account :=
  match code with
  | some (byte :: rest) => do
    let codeHash := env.sha256 (byte :: rest)
    (StateDb.setCode codeHash (byte :: rest)).adapt fun e => ("code persistence failed", e)
    liftExcept ((account.setCodeHash codeHash).mapError fun e =>
      ("code hash rejected", ExecutionError.account e))
  | _ => return account

/-- One account of `commit`. -/
def commitAccount (s : CommitState) (change : RevmAddress × RevmAccount) : CommitState :=
  let address := m.resolve change.1
  let touched := change.2
  if touched.selfdestructed then (s.1, s.2.deleteAccount address)
  else
    match s.2.getAccount address with
    | .error e =>
      (s.1.or (some s!"account load failed for 0x{hex32 address}: {e.message}"), s.2)
    | .ok stored =>
      let account := { stored.getD (Account.new address) with
        balance := touched.balance
        nonce := touched.nonce }
      match (storeCode env touched.code account).run s.2 with
      | (.error (context, e), rows) =>
        (s.1.or (some s!"{context} for 0x{hex32 address}: {e.message}"), rows)
      | (.ok account, rows) =>
        touched.storage.foldl
          (fun s slot => attempt "storage write failed" address
            (StateDb.setStorage env address slot.1 slot.2) s)
          (attempt "account update failed" address (StateDb.updateAccount address account)
            (s.1, rows))

/-- `EVM::transact_commit` over the backend, and the check of its errors. -/
def transactCommit (errorLabel commitLabel : String) (call : EvmCall) : Seq EvmTransition := do
  let rows ← get
  let outcome ← liftExcept ((env.transact call).interp (database rows m errorLabel))
  match outcome with
  | .error text => throw (.other s!"{errorLabel}: {text}")
  | .ok transition =>
    let (commitError, rows) := transition.changes.foldl (commitAccount env m) (none, rows)
    set rows
    match commitError with
    | some e => throw (.other s!"{commitLabel}: {e}")
    | none => return transition

def executeContractCall (tx : Transaction) : Seq EvmExecutionResult := do
  match tx.toAddr with
  | none => throw (.other "contract call missing `to` address")
  | some target =>
    match ← StateDb.getAccount target with
    | none => throw (.other s!"contract account not found: {displayAddress target}")
    | some contract =>
      if !contract.isContract then
        throw (.other s!"target account {displayAddress target} is not a deployed contract")
      let m ← liftExcept (AddressMap.registerTx ∅ tx)
      let transition ← transactCommit env m "EVM execution error" "EVM commit failed"
        (Occ.evmCall env tx)
      return transition.toResult

/-- The code of a deployed contract, unless `commit` has set it. -/
def recordDeployment (contractAddr : Address) (runtimeBytes : List UInt8) : Seq Unit := do
  if runtimeBytes = [] then return
  match ← StateDb.getAccount contractAddr with
  | none => throw (.other s!"deployed contract account missing: {displayAddress contractAddr}")
  | some account =>
    if account.isContract then return
    let codeHash := env.sha256 runtimeBytes
    StateDb.setCode codeHash runtimeBytes
    let account ← Seq.account (account.setCodeHash codeHash)
    StateDb.updateAccount contractAddr account

def deployContract (tx : Transaction) : Seq EvmExecutionResult := do
  if tx.data = [] then throw (.other "deploy_contract: init-code must not be empty")
  let size := tx.data.length
  if Occ.maxInitcodeSize < size then
    throw (.other (s!"deploy initcode is {size} bytes, exceeding maximum of " ++
      s!"{Occ.maxInitcodeSize} bytes (EIP-3860)"))
  let contractAddr := env.contractAddress tx.fromAddr tx.nonce
  let m ← liftExcept (AddressMap.registerTx ∅ tx)
  let m ← liftExcept (m.registerAddress contractAddr)
  let m : AddressMap :=
    m.insert (env.createAddress (l1AddrToRevm tx.fromAddr) tx.nonce) contractAddr
  let transition ← transactCommit env m "EVM deploy error" "EVM deploy commit failed"
    { Occ.evmCall env tx with transactTo := none }
  if transition.status = .success then
    recordDeployment env contractAddr transition.output
  return transition.toResult

end StateDbBackend

/-! ### The pipeline -/

/-- `SenderSync`: whether the pipeline still has to raise the nonce of its copy of the sender,
or has reloaded it after revm. -/
inductive SenderSync where
  | localView
  | canonical
deriving DecidableEq, Repr

namespace Executor

variable (sender : Account) (env : PipelineEnv) (tx : Transaction)

def loadSenderAccountState : Seq Account := do
  match ← StateDb.getAccount tx.fromAddr with
  | some account => return account
  | none => throw (.other s!"sender account does not exist: {displayAddress tx.fromAddr}")

def loadRecipientAccountState : Seq (Option Account) := do
  match tx.toAddr with
  | some address =>
    let account ← StateDb.getAccount address
    return some (account.getD (Account.new address))
  | none => return none

def preExecutionChecks : Seq Unit := do
  Seq.check (tx.validateBasic env)
  Seq.check (verifyTransactionSignature env tx)
  let sender ← loadSenderAccountState tx
  Seq.check (checkNonceCorrectness tx sender)
  -- `validate_account_existence` asks for the sender once more
  let _ ← loadSenderAccountState tx
  Seq.check (validateGasLimit tx)

def deductUpfrontGasFee : Except ExecutionError (ℕ × Account) := do
  let balance ← okOr (checkedSub sender.balance tx.gasCost) (.account .underflow)
  return (tx.gasCost, { sender with balance := balance })

def validateTransferOverflow (env : ExecutionEnv) (sender : Account) (tx : Transaction)
    (recipient : Option Account) : Seq Unit := do
  let rows ← get
  let schedule ← liftExcept (rows.getVestingSchedule tx.fromAddr)
  let spendable := match schedule with
    | some schedule => sender.balance - schedule.lockedAmount env.blockTimestamp
    | none => sender.balance
  if spendable < tx.value then throw (.tx .insufficientBalance)
  match recipient with
  | some recipient =>
    let _ ← Seq.require (checkedAdd256 recipient.balance tx.value) (.account .overflow)
    return
  | none => return

/-- The account of the sender after revm, charged with the fee for the used gas. -/
def syncSenderToCanonical (gasUsed : ℕ) : Seq Account := do
  let sender ← loadSenderAccountState tx
  if u64Max < tx.nonce + 1 then
    throw (.other s!"sender nonce exhausted for {displayAddress tx.fromAddr}")
  let expected := tx.nonce + 1
  if sender.nonce ≠ expected then
    throw (.other (s!"post-EVM nonce divergence for {displayAddress tx.fromAddr}: " ++
      s!"expected {expected}, got {sender.nonce}"))
  let usedFee ← Seq.require (checkedMul256 tx.gasPrice gasUsed)
    (.other "gas fee multiplication overflow")
  let balance ← Seq.require (checkedSub sender.balance usedFee) (.account .underflow)
  return { sender with balance := balance }

def updateBalances (sender recipient : Account) (amount : ℕ) :
    Except ExecutionError (Account × Account) := do
  let debited ← okOr (checkedSub sender.balance amount) (.account .underflow)
  let credited ← okOr (checkedAdd256 recipient.balance amount) (.account .overflow)
  return ({ sender with balance := debited }, { recipient with balance := credited })

/-- What `perform_transfer_or_contract_execution` returns, with the accounts it has changed. -/
structure Performed where
  gasUsed : ℕ
  success : Bool
  senderSync : SenderSync
  sender : Account
  recipient : Option Account
deriving DecidableEq, Repr

def performTransferOrContractExecution (env : ExecutionEnv) (tx : Transaction) (sender : Account)
    (recipient : Option Account) : Seq Performed := do
  validateTransferOverflow env sender tx recipient
  if tx.isContractCreation then
    let result ← StateDbBackend.deployContract env tx
    let sender ← syncSenderToCanonical tx result.gasUsed
    return ⟨result.gasUsed, result.success, .canonical, sender, recipient⟩
  else if tx.isContractCall then
    let result ← StateDbBackend.executeContractCall env tx
    let sender ← syncSenderToCanonical tx result.gasUsed
    return ⟨result.gasUsed, result.success, .canonical, sender, recipient⟩
  else match recipient with
    | some account =>
      let (sender, account) ← liftExcept (updateBalances sender account tx.value)
      return ⟨calculateIntrinsicGas tx.data, true, .localView, sender, some account⟩
    | none =>
      let balance ← Seq.require (checkedSub sender.balance tx.value) (.account .underflow)
      return ⟨calculateIntrinsicGas tx.data, true, .localView, { sender with balance := balance },
        none⟩

def updateSenderNonce : Except ExecutionError Account :=
  if u64Max < sender.nonce + 1 then .error (.account .nonceExhausted)
  else .ok { sender with nonce := sender.nonce + 1 }

def refundUnusedGas (upfrontFee gasUsed : ℕ) : Seq ℕ := do
  let usedFee ← Seq.require (checkedMul256 tx.gasPrice gasUsed)
    (.other "gas fee multiplication overflow")
  let refund ← Seq.require (checkedSub upfrontFee usedFee)
    (.other "used fee exceeds the upfront gas fee")
  if 0 < refund then
    let sender ← loadSenderAccountState tx
    let balance ← Seq.require (checkedAdd256 sender.balance refund) (.account .overflow)
    StateDb.updateAccount tx.fromAddr { sender with balance := balance }
  return refund

/-- Write the accounts of an execution back: the sender's and then the recipient's. -/
def storeAccounts (performed : Performed) : Seq Unit := do
  let sender ← if performed.senderSync = .canonical then pure performed.sender
    else liftExcept (updateSenderNonce performed.sender)
  Seq.account sender.validate
  StateDb.updateAccount tx.fromAddr sender
  if performed.success then
    match tx.toAddr, performed.recipient with
    | some address, some account =>
      if !tx.isContractCall then
        Seq.account account.validate
        StateDb.updateAccount address account
    | _, _ => return

def generateReceipt (performed : Performed) (refund : ℕ) : Seq Receipt := do
  let rows ← get
  let hash ← liftExcept (tryHash env tx)
  let receipt := if performed.success then
      Receipt.newSuccess hash performed.gasUsed (some (env.stateRoot rows))
    else Receipt.newFailure hash performed.gasUsed
  let logs ← liftExcept (emitExecutionLogs env tx performed.gasUsed refund)
  return { receipt with logs := logs }

def executePipeline : Seq Receipt := do
  preExecutionChecks env tx
  Seq.check (verifyTransactionSignature env tx)
  let sender ← loadSenderAccountState tx
  let recipient ← loadRecipientAccountState tx
  Seq.check (checkNonceCorrectness tx sender)
  Seq.check (validateGasLimit tx)
  let (upfrontFee, sender) ← liftExcept (deductUpfrontGasFee sender tx)
  let performed ← performTransferOrContractExecution env tx sender recipient
  storeAccounts tx performed
  let refund ← refundUnusedGas tx upfrontFee performed.gasUsed
  generateReceipt env tx performed refund

def executeTransactions (env : PipelineEnv) : List Transaction → Seq (List Receipt)
  | [] => return []
  | tx :: txs => do
    let receipt ← executePipeline env tx
    let receipts ← executeTransactions env txs
    return receipt :: receipts

end Executor

end Sxiaum
