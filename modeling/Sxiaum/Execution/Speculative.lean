import Sxiaum.Execution.Evm
import Sxiaum.Parallel.Executor

/-!
# Speculative execution of a transaction

`Executor::execute_transaction_speculative`, its classification of failures and the
executor function that `execute_block_pipeline` hands to the parallel executor
(`executor.rs`). A transaction reads rows through the multi-version memory and leaves a
write set of whole rows. The vesting schedule is read from the state directly.
-/

namespace Sxiaum

open Parallel (TxEffects ParallelExecutorTask)
open FallibleProgram

/-! ### Gas and logs -/

def intrinsicGas : ℕ := 210

def calldataGas : ℕ := 1

def calldataZeroGas : ℕ := 4

def calculateIntrinsicGas (data : List UInt8) : ℕ :=
  data.foldl (fun gas byte => satAdd64 gas (if byte ≠ 0 then calldataGas else calldataZeroGas))
    intrinsicGas

namespace Transaction

def isContractCreation (tx : Transaction) : Bool := tx.toAddr.isNone

def isContractCall (tx : Transaction) : Bool := tx.toAddr.isSome && tx.data ≠ []

end Transaction

variable (env : ExecutionEnv) (base : StateRows) (tx : Transaction)

def tryHash : Except ExecutionError Hash :=
  (env.tryHash tx).mapError .other

def emitExecutionLogs (gasUsed refund : ℕ) : Except ExecutionError (List Log) := do
  let hash ← tryHash env tx
  return [⟨tx.fromAddr, [hash], leBytes 8 gasUsed ++ (leBytes 32 refund).reverse⟩]

def Occ.require {α : Type} (x : Option α) (e : ExecutionError) : Occ α := liftExcept (okOr x e)

/-! ### The two kinds of transactions -/

/-- The rows of a write set. An empty row deletes what is stored, and it is what the later
transactions of the block read until then. -/
def toWriteSet (writeSet : OccWrites) : WriteSet StateKey StateRow :=
  writeSet.entries.map fun e => (e.1, some e.2)

/-- The balance that vesting leaves to spend. -/
def spendable (sender : Address) (balance : ℕ) : ℕ :=
  match base.getVestingSchedule sender with
  | .ok (some schedule) => balance - schedule.lockedAmount env.blockTimestamp
  | _ => balance

def gasRefund (gasUsed : ℕ) : Except ExecutionError ℕ := do
  let unusedGas ← okOr (checkedSub tx.gasLimit gasUsed) (.other "gas used exceeds gas limit")
  okOr (checkedMul256 unusedGas tx.gasPrice) (.other "gas refund multiplication overflow")

/-- The outcome of an execution that has not failed with an error. -/
def finishOutcome (result : EvmExecutionResult)
    (refund : ℕ) (writeSet : OccWrites) : Except ExecutionError (TxEffects StateKey StateRow) := do
  let logs ← emitExecutionLogs env tx result.gasUsed refund
  return {
    gasUsed := result.gasUsed
    revertReason := if result.success then none else some "execution reverted"
    writeSet := toWriteSet writeSet
    events := logs
    returnData := result.returnData
    executionStatus := result.success }

/-- Charge the fee of a contract transaction to the sender's row. -/
def chargeContract (senderNonce senderBalance : ℕ) (result : EvmExecutionResult)
    (writeSet : OccWrites) : Occ OccWrites := do
  let gasFee ← Occ.require (checkedMul256 result.gasUsed tx.gasPrice)
    (.other "gas fee multiplication overflow")
  if result.success then
    let caller ← match writeSet.lookup (.account tx.fromAddr) with
      | some row => liftExcept (decodeAccount row)
      | none => do
        match ← Occ.getAccount writeSet tx.fromAddr with
        | some account => pure account
        | none => do
          let balance ← Occ.require (checkedSub senderBalance tx.value) (.account .underflow)
          pure { Account.new tx.fromAddr with
            nonce := wrapAdd64 senderNonce 1
            balance := balance }
    let balance ← Occ.require (checkedSub caller.balance gasFee) (.account .underflow)
    return writeSet.insert (.account tx.fromAddr) (.account { caller with balance := balance })
  else
    let account ← Occ.getAccount ∅ tx.fromAddr
    let caller := account.getD (Account.new tx.fromAddr)
    let balance ← Occ.require (checkedSub caller.balance gasFee) (.account .underflow)
    return (∅ : OccWrites).insert (.account tx.fromAddr)
      (.account { caller with nonce := wrapAdd64 senderNonce 1, balance := balance })

def executeContractSpeculative
    (senderNonce senderBalance : ℕ) : Occ (TxEffects StateKey StateRow) := do
  let (result, writeSet) ← if tx.isContractCreation then
    Occ.deployContractSpeculative env base tx
  else Occ.executeContractCallSpeculative env base tx
  let writeSet ← chargeContract tx senderNonce senderBalance result writeSet
  let refund ← liftExcept (gasRefund tx result.gasUsed)
  liftExcept (finishOutcome env tx result refund writeSet)

/-- A creation has no recipient. -/
def creditRecipient (m : AddressMap) (tx : Transaction) : Occ OccWrites := do
  match tx.toAddr with
  | none => return ∅
  | some recipient =>
    let info ← Occ.basic m (l1AddrToRevm recipient)
    let info := info.getD ⟨0, 0, emptyCodeHash⟩
    let account ← Occ.getAccount ∅ recipient
    let account := account.getD (Account.new recipient)
    let balance ← Occ.require (checkedAdd256 info.balance tx.value) (.account .overflow)
    return (∅ : OccWrites).insert (.account recipient)
      (.account { account with balance := balance, nonce := info.nonce })

def executeTransferSpeculative (m : AddressMap) (tx : Transaction)
    (senderNonce upfrontGasFee : ℕ) : Occ (TxEffects StateKey StateRow) := do
  let account ← Occ.getAccount ∅ tx.fromAddr
  let sender := account.getD (Account.new tx.fromAddr)
  let balance ← Occ.require
    ((checkedSub sender.balance tx.value).bind (checkedSub · upfrontGasFee)) (.account .underflow)
  let writeSet ← creditRecipient m tx
  let gasUsed := calculateIntrinsicGas tx.data
  let refund ← liftExcept (gasRefund tx gasUsed)
  let balance ← Occ.require (checkedAdd256 balance refund) (.account .overflow)
  let writeSet := writeSet.insert (.account tx.fromAddr)
    (.account { sender with nonce := wrapAdd64 senderNonce 1, balance := balance })
  liftExcept (finishOutcome env tx ⟨true, gasUsed, []⟩ refund writeSet)

/-! ### One transaction -/

def upfrontGasFee : Except ExecutionError ℕ :=
  okOr (checkedMul256 tx.gasLimit tx.gasPrice) (.tx .insufficientBalance)

/-- On rows that are read, with writes that are returned. -/
def executeTransactionSpeculative : Occ (TxEffects StateKey StateRow) := do
  let m ← liftExcept (AddressMap.registerTx ∅ tx)
  let info ← Occ.basic m (l1AddrToRevm tx.fromAddr)
  let info := info.getD ⟨0, 0, emptyCodeHash⟩
  if info.nonce ≠ tx.nonce then throw (.tx (.invalidNonce info.nonce tx.nonce))
  let fee ← liftExcept (upfrontGasFee tx)
  let cost ← Occ.require (checkedAdd256 tx.value fee) (.tx .insufficientBalance)
  if spendable env base tx.fromAddr info.balance < cost then throw (.tx .insufficientBalance)
  if tx.isContractCreation || tx.isContractCall then
    executeContractSpeculative env base tx info.nonce info.balance
  else executeTransferSpeculative env m tx info.nonce fee

/-- `classify_speculative_failure`: a failed transaction writes nothing; only business errors
are charged, for the intrinsic gas. -/
def classifySpeculativeFailure (e : ExecutionError) : TxEffects StateKey StateRow where
  gasUsed := if e.isBusiness then min (calculateIntrinsicGas tx.data) tx.gasLimit else 0
  revertReason := some e.message
  writeSet := []
  events := []
  returnData := []
  executionStatus := false
  dropsReads := true
  infraError := if e.isBusiness then none else some e.message

def speculativeOutcome (rows : StateKey → Option StateRow)
    (tx : Transaction) : TxEffects StateKey StateRow :=
  match result rows (executeTransactionSpeculative env base tx) with
  | .ok effects => effects
  | .error e => classifySpeculativeFailure tx e

/-- What the parallel executor runs. -/
def executorFn (task : ParallelExecutorTask Transaction) :
    ReadProgram StateKey StateRow (TxEffects StateKey StateRow) := do
  match ← (executeTransactionSpeculative env base task.tx).run with
  | .ok effects => return effects
  | .error e => return classifySpeculativeFailure task.tx e

end Sxiaum
