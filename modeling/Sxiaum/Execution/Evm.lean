import Sxiaum.Execution.State
import Sxiaum.Lib.ReadProgram

/-!
# The EVM adapter of the speculative path

`EvmRuntime` and `OccStateDbBackend` (`evm_runtime.rs`). revm is a program that asks its
database for accounts, code, slots and block hashes and ends with a result and the accounts
it has touched; it is a field of `ExecutionEnv`, with the digests. The adapter translates
its 20-byte addresses, answers its questions from the rows a transaction sees, and turns
the touched accounts into a write set.
-/

namespace Sxiaum

/-! ### Addresses -/

abbrev RevmAddress := ℕ

/-- `l1_addr_to_revm`: the last 20 bytes. -/
def l1AddrToRevm (address : Address) : RevmAddress := address % 2 ^ 160

/-- `revm_addr_to_l1`: padded with zeros on the left. -/
def revmAddrToL1 (address : RevmAddress) : Address := address

def hex32 (n : ℕ) : String := String.ofList ((Nat.toDigits 16 n).leftpad 64 '0')

/-- `Display for Address`. -/
def displayAddress (address : Address) : String :=
  if address < 2 ^ 160 then "0x" ++ String.ofList ((Nat.toDigits 16 address).leftpad 40 '0')
  else "0x" ++ hex32 address

/-- The full addresses behind the 20-byte addresses of one transaction. -/
abbrev AddressMap := HashMap RevmAddress Address

namespace AddressMap

def registerAddress (m : AddressMap) (address : Address) : Except ExecutionError AddressMap :=
  match m.lookup (l1AddrToRevm address) with
  | some existing =>
    if existing ≠ address then
      .error (.other s!"address projection collision: distinct L1 addresses 0x{hex32 existing} and 0x{hex32 address} project onto the same revm address")
    else .ok (m.insert (l1AddrToRevm address) address)
  | none => .ok (m.insert (l1AddrToRevm address) address)

def registerTx (m : AddressMap) (tx : Transaction) : Except ExecutionError AddressMap := do
  let m ← m.registerAddress tx.fromAddr
  match tx.toAddr with
  | some recipient => m.registerAddress recipient
  | none => return m

def resolve (m : AddressMap) (address : RevmAddress) : Address :=
  (m.lookup address).getD (revmAddrToL1 address)

end AddressMap

/-! ### revm -/

/-- `AccountInfo`, without the code that the adapter never sends along. -/
structure AccountInfo where
  balance : ℕ
  nonce : ℕ
  codeHash : Hash
deriving DecidableEq, Repr

def Account.toRevmInfo (a : Account) : AccountInfo := ⟨a.balance, a.nonce, a.codeHash⟩

/-- What revm asks its database. -/
inductive DbQuery where
  | basic (address : RevmAddress)
  | codeByHash (codeHash : Hash)
  | storage (address : RevmAddress) (index : Hash)
  | blockHash (number : ℕ)
deriving DecidableEq, Repr

inductive DbAnswer where
  | info (info : AccountInfo)
  | bytes (bytes : List UInt8)
  | word (value : Hash)
deriving DecidableEq, Repr

/-- The transaction and block environment: `none` as target is a creation. The gas price is
zero, the executor takes the fee itself. -/
structure EvmCall where
  caller : RevmAddress
  transactTo : Option RevmAddress
  data : List UInt8
  gasLimit : ℕ
  value : ℕ
  nonce : ℕ
  prevrandao : Hash
deriving DecidableEq, Repr

inductive EvmStatus where
  | success
  | revert
  | halt
deriving DecidableEq, Repr

/-- An account in the state that revm hands to `commit`; `storage` has the changed slots. -/
structure RevmAccount where
  selfdestructed : Bool
  balance : ℕ
  nonce : ℕ
  code : Option (List UInt8)
  storage : List (Hash × Hash)
deriving DecidableEq, Repr

structure EvmTransition where
  status : EvmStatus
  gasUsed : ℕ
  output : List UInt8
  changes : List (RevmAddress × RevmAccount)
deriving DecidableEq, Repr

/-- What the execution crate calls and does not define, and the settings of an executor. -/
structure ExecutionEnv where
  /-- `EVM::transact`, with the text of its error. -/
  transact : EvmCall → ReadProgram DbQuery DbAnswer (Except String EvmTransition)
  sha256 : List UInt8 → Hash
  /-- The digest of `compute_storage_root` over the live entries. -/
  hashStorage : Address → List (Hash × Hash) → Hash
  /-- `compute_contract_address`. -/
  contractAddress : Address → ℕ → Address
  /-- `RevmAddress::create`. -/
  createAddress : RevmAddress → ℕ → RevmAddress
  /-- `Transaction::try_hash`. -/
  tryHash : Transaction → Except String Hash
  blockEntropy : Hash
  blockTimestamp : ℕ

def maxStorageEntries : ℕ := 4096

def computeStorageRoot (env : ExecutionEnv) (address : Address) (entries : List (Hash × Hash)) :
    Except AccountError Hash :=
  let live := (entries.filter fun e => e.2 ≠ 0).insertionSort fun x y => x.1 ≤ y.1
  if maxStorageEntries < entries.length then .error .tooManyStorageEntries
  else if live = [] then .ok emptyStorageRoot
  else if ¬ (live.map Prod.fst).Nodup then .error .duplicateStorageSlot
  else .ok (env.hashStorage address live)

/-- `EvmExecutionResult`, without the logs, which the executor replaces by its own. -/
structure EvmExecutionResult where
  success : Bool
  gasUsed : ℕ
  returnData : List UInt8
deriving DecidableEq, Repr

/-- `convert_result`. -/
def EvmTransition.toResult (t : EvmTransition) : EvmExecutionResult where
  success := t.status = .success
  gasUsed := t.gasUsed
  returnData := match t.status with
    | .halt => []
    | _ => t.output

/-! ### The database -/

/-- A computation that reads rows through the multi-version memory. -/
abbrev Occ := FallibleProgram StateKey StateRow ExecutionError

/-- The rows a transaction has written so far; `empty` is a deletion. -/
abbrev OccWrites := HashMap StateKey StateRow

namespace Occ

open FallibleProgram

def getAccount (writeSet : OccWrites) (address : Address) : Occ (Option Account) :=
  match writeSet.lookup (.account address) with
  | some .empty => pure none
  | some row => some <$> liftExcept (decodeAccount row)
  | none => do
    match ← readRow (.account address) with
    | some row => some <$> liftExcept (decodeAccount row)
    | none => return none

variable (env : ExecutionEnv) (base : StateRows) (m : AddressMap)

def basic (address : RevmAddress) : Occ (Option AccountInfo) := do
  let account ← getAccount ∅ (m.resolve address)
  return account.map Account.toRevmInfo

/-- The `Database` of revm; the write set is empty while revm runs. -/
def answer : DbQuery → Occ (Option DbAnswer)
  | .basic address => do
    let info ← basic m address
    return info.map .info
  | .codeByHash codeHash => do
    if codeHash = emptyCodeHash then return some (.bytes [])
    match ← readRow (.code codeHash) with
    | some (.code bytes) => return some (.bytes bytes)
    | some _ => return some (.bytes [])
    | none => throw (.other s!"missing bytecode for code hash 0x{hex32 codeHash}")
  | .storage address index => do
    match ← readRow (.storage (m.resolve address) index) with
    | some (.word value) => return some (.word value)
    | _ => return some (.word 0)
  | .blockHash number => do
    match ← readRow (.blockHash number) with
    | some (.word value) => return some (.word value)
    | _ => return some (.word 0)

/-! ### Committing touched accounts -/

/-- A failure inside `DatabaseCommit::commit`, as the caller reports it. -/
def commitError (label context : String) (address : Address) (message : String) : ExecutionError :=
  .other s!"{label}: {context} for 0x{hex32 address}: {message}"

def isSlotOf (address : Address) : StateKey → Bool
  | .storage a _ => a = address
  | _ => false

/-- Deletion of a selfdestructed account: its row, its stored slots and the slots written so
far. -/
def destroyAccount (writeSet : OccWrites) (address : Address) : OccWrites :=
  let writeSet := writeSet.insert (.account address) .empty
  let writeSet := (base.getAccountStorageEntries address).foldl
    (fun ws e => ws.insert (.storage address e.1) .empty) writeSet
  (writeSet.keys.filter (isSlotOf address)).foldl (fun ws key => ws.insert key .empty) writeSet

/-- The account that `commit` updates: the written one, the visible one or a new one. -/
def loadForCommit (label : String) (writeSet : OccWrites) (address : Address) : Occ Account := do
  match writeSet.lookup (.account address) with
  | some (.account a) =>
    match decodeAccount (.account a) with
    | .ok account => return account
    | .error e => throw (commitError label "write-set account decode failed" address e.message)
  | _ =>
    match ← readRow (.account address) with
    | none => return Account.new address
    | some row =>
      match decodeAccount row with
      | .ok account => return account
      | .error e => throw (commitError label "mv-memory account decode failed" address e.message)

def updateStorageRoot (account : Account)
    (address : Address) (changed : List (Hash × Hash)) : Except AccountError Account :=
  if changed = [] then .ok account
  else do
    let entries := changed.foldl
      (fun entries e =>
        let kept := entries.filter fun x => x.1 ≠ e.1
        if e.2 ≠ 0 then kept ++ [e] else kept)
      (base.getAccountStorageEntries address)
    let root ← computeStorageRoot env address entries
    account.setStorageRoot root

/-- One account of `commit`. -/
def commitAccount (label : String)
    (writeSet : OccWrites) (change : RevmAddress × RevmAccount) : Occ OccWrites := do
  let address := m.resolve change.1
  let touched := change.2
  if touched.selfdestructed then return destroyAccount base writeSet address
  let account ← loadForCommit label writeSet address
  let account := { account with balance := touched.balance, nonce := touched.nonce }
  let writeSet := touched.storage.foldl
    (fun ws e => ws.insert (.storage address e.1) (.word e.2)) writeSet
  match updateStorageRoot env base account address touched.storage with
  | .error e => throw (commitError label "storage root computation failed" address e.message)
  | .ok account =>
    match touched.code with
    | some (byte :: rest) =>
      let codeHash := env.sha256 (byte :: rest)
      match account.setCodeHash codeHash with
      | .error e => throw (commitError label "code hash rejected" address e.message)
      | .ok account =>
        return (writeSet.insert (.code codeHash) (.code (byte :: rest))).insert (.account address)
          (.account account)
    | _ => return writeSet.insert (.account address) (.account account)

/-- `EVM::transact_commit` over the backend. -/
def transactCommit
    (errorLabel commitLabel : String) (call : EvmCall) : Occ (EvmTransition × OccWrites) := do
  let outcome ← (env.transact call).interp fun q =>
    (answer m q).adapt fun e => .other s!"{errorLabel}: {e.message}"
  match outcome with
  | .error text => throw (.other s!"{errorLabel}: {text}")
  | .ok transition =>
    let writeSet ← transition.changes.foldlM (commitAccount env base m commitLabel) ∅
    return (transition, writeSet)

/-! ### Calls and deployments -/

/-- `populate_tx_env`. -/
def evmCall (tx : Transaction) : EvmCall where
  caller := l1AddrToRevm tx.fromAddr
  transactTo := tx.toAddr.map l1AddrToRevm
  data := tx.data
  gasLimit := tx.gasLimit
  value := tx.value
  nonce := tx.nonce
  prevrandao := env.blockEntropy

def executeContractCallSpeculative (tx : Transaction) : Occ (EvmExecutionResult × OccWrites) := do
  match tx.toAddr with
  | none => throw (.other "contract call missing `to` address")
  | some target =>
    let m ← liftExcept (AddressMap.registerTx ∅ tx)
    let info ← basic m (l1AddrToRevm target)
    if info.isNone then
      throw (.other
        s!"target contract account not found speculatively: {displayAddress target}")
    let (transition, writeSet) ← transactCommit env base m "EVM execution error"
      "EVM speculative commit failed" (evmCall env tx)
    return (transition.toResult, writeSet)

def maxInitcodeSize : ℕ := 2 * (24 * 1024)

/-- The row of a deployed contract: the code is stored under its hash. -/
def recordDeployment (contractAddr : Address) (writeSet : OccWrites)
    (runtimeBytes : List UInt8) : Occ OccWrites := do
  let account ← match writeSet.lookup (.account contractAddr) with
    | some (.account a) => liftExcept (decodeAccount (.account a))
    | _ => do
      match ← readRow (.account contractAddr) with
      | some row => liftExcept (decodeAccount row)
      | none =>
        throw (.other s!"deployed contract account missing: {displayAddress contractAddr}")
  if runtimeBytes = [] then return writeSet.insert (.account contractAddr) (.account account)
  let codeHash := env.sha256 runtimeBytes
  let writeSet := writeSet.insert (.code codeHash) (.code runtimeBytes)
  if account.isContract then
    return writeSet.insert (.account contractAddr) (.account account)
  match account.setCodeHash codeHash with
  | .error e => throw (.account e)
  | .ok account => return writeSet.insert (.account contractAddr) (.account account)

def deployContractSpeculative (tx : Transaction) : Occ (EvmExecutionResult × OccWrites) := do
  if tx.data = [] then throw (.other "deploy_contract: init-code must not be empty")
  let size := tx.data.length
  if maxInitcodeSize < size then
    throw (.other
      s!"deploy initcode is {size} bytes, exceeding maximum of {maxInitcodeSize} bytes (EIP-3860)")
  let contractAddr := env.contractAddress tx.fromAddr tx.nonce
  let m ← liftExcept (AddressMap.registerTx ∅ tx)
  let m ← liftExcept (m.registerAddress contractAddr)
  let m : AddressMap :=
    m.insert (env.createAddress (l1AddrToRevm tx.fromAddr) tx.nonce) contractAddr
  let (transition, writeSet) ← transactCommit env base m "EVM deploy error"
    "EVM speculative deploy commit failed" { evmCall env tx with transactTo := none }
  if transition.status = .success then
    let writeSet ← recordDeployment env contractAddr writeSet transition.output
    return (transition.toResult, writeSet)
  return (transition.toResult, writeSet)

end Occ

end Sxiaum
