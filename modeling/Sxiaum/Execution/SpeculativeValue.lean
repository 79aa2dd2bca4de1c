import Sxiaum.Execution.EvmValue

/-!
# Value on the speculative path

What `execute_transaction_speculative` does to the balances and to the sender's nonce. A
transaction that goes through takes its fee from the sender and moves the rest, with one
exception: a transfer to oneself writes the sender's row over the recipient's, and the value
is lost. A transaction that fails is reported with its intrinsic gas but writes nothing.
-/

namespace Sxiaum

open AddressMap FallibleProgram Guards Ledger
open Parallel (TxEffects)

variable {env : ExecutionEnv} {base : StateRows} {rows : StateKey → Option StateRow}
  {m : AddressMap} {tx : Transaction}

/-! ### Conservation -/

def speculativeRows (env : ExecutionEnv) (base : StateRows) (rows : StateKey → Option StateRow)
    (tx : Transaction) : StateKey → Option StateRow :=
  (speculativeOutcome env base rows tx).writeSet.apply rows

def speculativeFee (env : ExecutionEnv) (base : StateRows) (rows : StateKey → Option StateRow)
    (tx : Transaction) : ℕ :=
  (speculativeOutcome env base rows tx).gasUsed * tx.gasPrice

/-- The sender's balance once the value has moved and before the fee is taken. -/
def balanceBeforeFee (env : ExecutionEnv) (base : StateRows) (rows : StateKey → Option StateRow)
    (tx : Transaction) : ℕ :=
  if tx.isContract then
    match result rows (runEvm env base tx) with
    | .ok (r, ws) =>
      if r.success then balanceOf (ws.view rows) tx.fromAddr else balanceOf rows tx.fromAddr
    | .error _ => balanceOf rows tx.fromAddr
  else if tx.toAddr = some tx.fromAddr then balanceOf rows tx.fromAddr
  else balanceOf rows tx.fromAddr - tx.value

/-- The write set takes the reported fee from the sender, moves the rest of the balances
without loss, and raises the sender's nonce by one. -/
structure Conserves (env : ExecutionEnv) (base : StateRows) (rows : StateKey → Option StateRow)
    (tx : Transaction) : Prop where
  total : TotalShift (balanceOf rows) (balanceOf (speculativeRows env base rows tx))
    (-(speculativeFee env base rows tx : ℤ))
  sender : balanceOf (speculativeRows env base rows tx) tx.fromAddr +
    speculativeFee env base rows tx = balanceBeforeFee env base rows tx
  nonce : nonceOf (speculativeRows env base rows tx) tx.fromAddr = nonceOf rows tx.fromAddr + 1

/-! ### When a transaction goes through -/

/-- The checks before a transaction is executed. -/
structure Admitted (env : ExecutionEnv) (base : StateRows) (rows : StateKey → Option StateRow)
    (tx : Transaction) : Prop where
  addresses : ∀ dest, tx.toAddr = some dest →
    l1AddrToRevm dest = l1AddrToRevm tx.fromAddr → dest = tx.fromAddr
  readable : Readable rows tx.fromAddr
  nonce : nonceOf rows tx.fromAddr = tx.nonce
  cost_le : tx.value + tx.gasLimit * tx.gasPrice ≤ u256Max
  afford : tx.value + tx.gasLimit * tx.gasPrice ≤
    spendable env base tx.fromAddr (balanceOf rows tx.fromAddr)

lemma result_require {α : Type} {x : Option α} {e : ExecutionError} {a : α} :
    result rows (Occ.require x e) = .ok a ↔ x = some a := by
  rw [Occ.require, result_liftExcept, okOr_ok]

lemma result_guard {α β : Type} {c : Prop} [Decidable c] {e : ExecutionError} {k : β → Occ α}
    {p : Occ α} {a : α} :
    result rows (if c then throw e >>= k else p) = .ok a ↔ ¬ c ∧ result rows p = .ok a := by
  split_ifs with h
  · simp [h, bind_ok]
  · simp [h]

lemma spendable_le (sender : Address) (balance : ℕ) :
    spendable env base sender balance ≤ balance := by
  unfold spendable
  split
  · exact Nat.sub_le ..
  · exact le_rfl

def executeAdmitted (env : ExecutionEnv) (base : StateRows) (rows : StateKey → Option StateRow)
    (m : AddressMap) (tx : Transaction) : Occ (TxEffects StateKey StateRow) :=
  if tx.isContract then
    executeContractSpeculative env base tx tx.nonce (balanceOf rows tx.fromAddr)
  else executeTransferSpeculative env m tx tx.nonce (tx.gasLimit * tx.gasPrice)

lemma executeTransactionSpeculative_ok {effects : TxEffects StateKey StateRow} :
    result rows (executeTransactionSpeculative env base tx) = .ok effects ↔
      Admitted env base rows tx ∧ ∃ m, registerTx ∅ tx = .ok m ∧
        result rows (executeAdmitted env base rows m tx) = .ok effects := by
  have hinfo : ∀ {m : AddressMap}, registerTx ∅ tx = .ok m →
      m.resolve (l1AddrToRevm tx.fromAddr) = tx.fromAddr := fun hm =>
    resolve_eq (registered_of_registerTx hm).sender
  simp only [executeTransactionSpeculative, result_bind, result_liftExcept, bind_ok, basic_ok,
    result_guard, upfrontGasFee, okOr_ok, result_require, checkedAdd256_eq_some,
    checkedMul256_eq_some]
  constructor
  · rintro ⟨m, hm, info, ⟨hread, rfl⟩, h⟩
    rw [hinfo hm] at hread h
    rw [getD_toRevmInfo] at h
    obtain ⟨hnonce, fee, ⟨-, rfl⟩, cost, ⟨hcost, rfl⟩, hafford, h⟩ := h
    replace hnonce : nonceOf rows tx.fromAddr = tx.nonce := not_not.1 hnonce
    refine ⟨⟨exists_registerTx.1 ⟨m, hm⟩, hread, hnonce, hcost, not_lt.1 hafford⟩,
      m, hm, ?_⟩
    rw [executeAdmitted, ← hnonce]
    exact h
  · rintro ⟨hadm, m, hm, h⟩
    refine ⟨m, hm, _, ⟨?_, rfl⟩, ?_⟩
    · rw [hinfo hm]
      exact hadm.readable
    · rw [hinfo hm, getD_toRevmInfo]
      refine ⟨not_not.2 hadm.nonce, _, ⟨?_, rfl⟩, _, ⟨hadm.cost_le, rfl⟩,
        not_lt.2 hadm.afford, ?_⟩
      · exact le_trans (Nat.le_add_left ..) hadm.cost_le
      · rw [executeAdmitted, ← hadm.nonce] at h
        exact h

lemma Admitted.cost_le_balance (h : Admitted env base rows tx) :
    tx.value + tx.gasLimit * tx.gasPrice ≤ balanceOf rows tx.fromAddr :=
  h.afford.trans (spendable_le ..)

/-- The refund gives back what the used gas has not cost. -/
lemma refund_add {limit used : ℕ} (price : ℕ) (h : used ≤ limit) :
    (limit - used) * price + used * price = limit * price := by
  rw [← Nat.add_mul, Nat.sub_add_cancel h]

lemma gasRefund_ok {gasUsed refund : ℕ} :
    gasRefund tx gasUsed = .ok refund ↔ gasUsed ≤ tx.gasLimit ∧
      (tx.gasLimit - gasUsed) * tx.gasPrice ≤ u256Max ∧
      (tx.gasLimit - gasUsed) * tx.gasPrice = refund := by
  simp only [gasRefund, bind_ok, okOr_ok, checkedSub_eq_some, checkedMul256_eq_some]
  constructor
  · rintro ⟨_, ⟨hle, rfl⟩, h⟩
    exact ⟨hle, h⟩
  · rintro ⟨hle, h⟩
    exact ⟨_, ⟨hle, rfl⟩, h⟩

variable {r : EvmExecutionResult} {ws : OccWrites}

lemma finishOutcome_ok {refund : ℕ} {effects : TxEffects StateKey StateRow}
    (h : finishOutcome env tx r refund ws = .ok effects) :
    effects.gasUsed = r.gasUsed ∧ effects.writeSet = toWriteSet ws := by
  simp only [finishOutcome, bind_ok, pure_ok] at h
  obtain ⟨logs, -, rfl⟩ := h
  exact ⟨rfl, rfl⟩

lemma exists_finishOutcome (r : EvmExecutionResult) (refund : ℕ) (ws : OccWrites) :
    (∃ effects, finishOutcome env tx r refund ws = .ok effects) ↔
      ∃ hash, env.tryHash tx = .ok hash := by
  simp only [finishOutcome, emitExecutionLogs, tryHash, bind_ok, pure_ok, mapError_eq_ok]
  constructor
  · rintro ⟨effects, logs, ⟨hash, hhash, -⟩, -⟩
    exact ⟨hash, hhash⟩
  · rintro ⟨hash, hhash⟩
    exact ⟨_, _, ⟨hash, hhash, rfl⟩, rfl⟩

/-! ### Transfers -/

/-- An admitted transfer goes through. -/
structure TransferRuns (env : ExecutionEnv) (rows : StateKey → Option StateRow)
    (tx : Transaction) (dest : Address) : Prop where
  recipient : tx.toAddr = some dest
  readable : Readable rows dest
  room : balanceOf rows dest + tx.value ≤ u256Max
  gas : calculateIntrinsicGas tx.data ≤ tx.gasLimit
  kept : balanceOf rows tx.fromAddr - tx.value -
    calculateIntrinsicGas tx.data * tx.gasPrice ≤ u256Max
  hash : ∃ hash, env.tryHash tx = .ok hash

/-- The rows of a transfer: the recipient's and then the sender's. -/
def transferWrites (rows : StateKey → Option StateRow) (tx : Transaction) (dest : Address) :
    OccWrites :=
  ((∅ : OccWrites).insert (.account dest) (.account { accountOf rows dest with
    balance := balanceOf rows dest + tx.value })).insert (.account tx.fromAddr)
    (.account { accountOf rows tx.fromAddr with
      nonce := wrapAdd64 tx.nonce 1
      balance := balanceOf rows tx.fromAddr - tx.value -
        calculateIntrinsicGas tx.data * tx.gasPrice })

lemma exists_recipient (h : tx.isContract = false) : ∃ dest, tx.toAddr = some dest := by
  rcases hto : tx.toAddr with - | dest
  · simp [Transaction.isContract, Transaction.isContractCreation, hto] at h
  · exact ⟨dest, rfl⟩

lemma creditRecipient_ok {dest : Address} (hm : registerTx ∅ tx = .ok m)
    (hto : tx.toAddr = some dest) :
    result rows (creditRecipient m tx) = .ok ws ↔ Readable rows dest ∧
      balanceOf rows dest + tx.value ≤ u256Max ∧
      (∅ : OccWrites).insert (.account dest) (.account { accountOf rows dest with
        balance := balanceOf rows dest + tx.value }) = ws := by
  have hdest : m.resolve (l1AddrToRevm dest) = dest :=
    resolve_eq ((registered_of_registerTx hm).recipient dest hto)
  simp only [creditRecipient, hto, result_bind, bind_ok, basic_ok, hdest, getAccount_ok,
    result_require, checkedAdd256_eq_some, result_pure, Except.ok.injEq]
  constructor
  · rintro ⟨info, ⟨hread, rfl⟩, account, ⟨-, rfl⟩, balance, ⟨hroom, rfl⟩, h⟩
    rw [getD_toRevmInfo] at hroom h
    exact ⟨hread, hroom, h⟩
  · rintro ⟨hread, hroom, h⟩
    refine ⟨_, ⟨hread, rfl⟩, _, ⟨hread, rfl⟩, _, ⟨?_, rfl⟩, ?_⟩
    · rw [getD_toRevmInfo]
      exact hroom
    · rw [getD_toRevmInfo]
      exact h

lemma executeTransferSpeculative_ok {dest : Address} (hadm : Admitted env base rows tx)
    (hm : registerTx ∅ tx = .ok m) (hto : tx.toAddr = some dest)
    {effects : TxEffects StateKey StateRow} :
    result rows (executeTransferSpeculative env m tx tx.nonce (tx.gasLimit * tx.gasPrice)) =
        .ok effects ↔
      TransferRuns env rows tx dest ∧
      finishOutcome env tx ⟨true, calculateIntrinsicGas tx.data, []⟩
        ((tx.gasLimit - calculateIntrinsicGas tx.data) * tx.gasPrice)
        (transferWrites rows tx dest) = .ok effects := by
  have hcost := hadm.cost_le_balance
  have hcost' := hadm.cost_le
  -- the fee up front less the refund is the fee for the gas used
  have hbalance : calculateIntrinsicGas tx.data ≤ tx.gasLimit →
      balanceOf rows tx.fromAddr - tx.value - tx.gasLimit * tx.gasPrice +
        (tx.gasLimit - calculateIntrinsicGas tx.data) * tx.gasPrice =
      balanceOf rows tx.fromAddr - tx.value - calculateIntrinsicGas tx.data * tx.gasPrice := by
    intro hgas
    have := refund_add tx.gasPrice hgas
    omega
  simp only [executeTransferSpeculative, result_bind, bind_ok, getAccount_ok, result_require,
    creditRecipient_ok hm hto, result_liftExcept, gasRefund_ok, checkedAdd256_eq_some,
    Option.bind_eq_some_iff, checkedSub_eq_some]
  constructor
  · rintro ⟨account, ⟨-, rfl⟩, _, ⟨_, ⟨-, rfl⟩, -, rfl⟩, _, ⟨hread, hroom, rfl⟩, _,
      ⟨hgas, -, rfl⟩, _, ⟨hkept, rfl⟩, h⟩
    change balanceOf rows tx.fromAddr - _ - _ + _ ≤ _ at hkept
    rw [hbalance hgas] at hkept
    refine ⟨⟨hto, hread, hroom, hgas, hkept, (exists_finishOutcome ..).1 ⟨_, h⟩⟩, ?_⟩
    rw [transferWrites, ← hbalance hgas]
    exact h
  · rintro ⟨⟨-, hread, hroom, hgas, hkept, -⟩, h⟩
    refine ⟨_, ⟨hadm.readable, rfl⟩, _, ⟨_, ⟨?_, rfl⟩, ?_, rfl⟩, _, ⟨hread, hroom, rfl⟩, _,
      ⟨hgas, ?_, rfl⟩, _, ⟨?_, rfl⟩, ?_⟩
    · exact le_trans (Nat.le_add_right ..) hcost
    · exact Nat.le_sub_of_add_le' hcost
    · have := refund_add tx.gasPrice hgas
      omega
    · rw [← hbalance hgas] at hkept
      exact hkept
    · rw [transferWrites, ← hbalance hgas] at h
      exact h

/-- What a transfer leaves: the recipient is credited first, and the sender's row is computed
from what it had before. -/
lemma balanceOf_transferWrites (dest : Address) :
    balanceOf ((transferWrites rows tx dest).view rows) =
      Function.update (Function.update (balanceOf rows) dest (balanceOf rows dest + tx.value))
        tx.fromAddr (balanceOf rows tx.fromAddr - tx.value -
          calculateIntrinsicGas tx.data * tx.gasPrice) := by
  rw [transferWrites, balanceOf_view_insert, balanceOf_view_insert, view_empty]
  · exact validate_accountOf dest
  · exact validate_accountOf tx.fromAddr

lemma totalShift_transferWrites (dest : Address)
    (hcost : tx.value + calculateIntrinsicGas tx.data * tx.gasPrice ≤ balanceOf rows tx.fromAddr) :
    TotalShift (balanceOf rows) (balanceOf ((transferWrites rows tx dest).view rows))
      (-((calculateIntrinsicGas tx.data * tx.gasPrice : ℕ) : ℤ) -
        if dest = tx.fromAddr then (tx.value : ℤ) else 0) := by
  rw [balanceOf_transferWrites]
  have hcredit := totalShift_update (balanceOf rows) dest (balanceOf rows dest + tx.value)
  have hdebit := totalShift_update (Function.update (balanceOf rows) dest
    (balanceOf rows dest + tx.value)) tx.fromAddr (balanceOf rows tx.fromAddr - tx.value -
      calculateIntrinsicGas tx.data * tx.gasPrice)
  have hsum := hcredit.trans hdebit
  convert hsum using 1
  split_ifs with hself
  · subst hself
    rw [Function.update_self]
    omega
  · rw [Function.update_of_ne (Ne.symm hself)]
    omega

/-! ### Contract transactions -/

/-- The writes of the EVM that are kept: those of a reverted run are dropped. -/
def keptWrites (r : EvmExecutionResult) (ws : OccWrites) : OccWrites := if r.success then ws else ∅

/-- The rows of a contract transaction once the fee has been taken. -/
def chargedWrites (rows : StateKey → Option StateRow) (tx : Transaction) (r : EvmExecutionResult)
    (ws : OccWrites) : OccWrites :=
  let caller := accountOf ((keptWrites r ws).view rows) tx.fromAddr
  (keptWrites r ws).insert (.account tx.fromAddr) (.account { caller with
    nonce := if r.success then caller.nonce else wrapAdd64 tx.nonce 1
    balance := caller.balance - r.gasUsed * tx.gasPrice })

lemma chargeContract_ok {balance : ℕ} {ws ws' : OccWrites}
    (hread : Readable rows tx.fromAddr) (hkeeps : r.success = true → KeepsValue rows tx ws) :
    result rows (chargeContract tx tx.nonce balance r ws) = .ok ws' ↔
      r.gasUsed * tx.gasPrice ≤ u256Max ∧
      r.gasUsed * tx.gasPrice ≤ balanceOf ((keptWrites r ws).view rows) tx.fromAddr ∧
      chargedWrites rows tx r ws = ws' := by
  cases hsuccess : r.success with
  | true =>
    obtain ⟨x, hx, hvalid, -⟩ := (hkeeps hsuccess).caller
    have hat : accountAt (ws.view rows) tx.fromAddr = some x :=
      accountAt_view_of_account hx hvalid
    have hdec : decodeAccount (.account x) = .ok x := decodeAccount_ok.2 ⟨rfl, hvalid⟩
    simp only [chargeContract, chargedWrites, keptWrites, hsuccess, if_true, hx, result_bind,
      bind_ok, result_require, checkedMul256_eq_some, result_liftExcept, hdec, checkedSub_eq_some,
      result_pure, Except.ok.injEq, balanceOf, accountOf, hat, Option.getD_some]
    constructor
    · rintro ⟨_, ⟨hfee, rfl⟩, _, rfl, _, ⟨hle, rfl⟩, h⟩
      exact ⟨hfee, hle, h⟩
    · rintro ⟨hfee, hle, h⟩
      exact ⟨_, ⟨hfee, rfl⟩, _, rfl, _, ⟨hle, rfl⟩, h⟩
  | false =>
    simp only [chargeContract, chargedWrites, keptWrites, hsuccess, Bool.false_eq_true, if_false,
      result_bind, bind_ok, result_require, checkedMul256_eq_some, checkedSub_eq_some,
      getAccount_ok, result_pure, Except.ok.injEq, view_empty]
    constructor
    · rintro ⟨_, ⟨hfee, rfl⟩, _, ⟨-, rfl⟩, _, ⟨hle, rfl⟩, h⟩
      exact ⟨hfee, hle, h⟩
    · rintro ⟨hfee, hle, h⟩
      exact ⟨_, ⟨hfee, rfl⟩, _, ⟨hread, rfl⟩, _, ⟨hle, rfl⟩, h⟩

/-- An admitted contract transaction goes through with a result and writes of the EVM. -/
structure ContractRuns (env : ExecutionEnv) (base : StateRows)
    (rows : StateKey → Option StateRow) (tx : Transaction) (r : EvmExecutionResult)
    (ws : OccWrites) : Prop where
  run : result rows (runEvm env base tx) = .ok (r, ws)
  gas : r.gasUsed ≤ tx.gasLimit
  fee : r.gasUsed * tx.gasPrice ≤ balanceOf ((keptWrites r ws).view rows) tx.fromAddr
  hash : ∃ hash, env.tryHash tx = .ok hash

lemma executeContractSpeculative_eq (nonce balance : ℕ) :
    executeContractSpeculative env base tx nonce balance = (do
      let (r, ws) ← runEvm env base tx
      let ws ← chargeContract tx nonce balance r ws
      let refund ← liftExcept (gasRefund tx r.gasUsed)
      liftExcept (finishOutcome env tx r refund ws)) := by
  unfold executeContractSpeculative runEvm
  split_ifs <;> rfl

variable (henv : EvmConserves env) (hdeploy : tx.toAddr = none → DeploysApart env rows tx)

include henv hdeploy in
lemma executeContractSpeculative_ok (hadm : Admitted env base rows tx) {balance : ℕ} {effects : TxEffects StateKey StateRow} :
    result rows (executeContractSpeculative env base tx tx.nonce balance) = .ok effects ↔
      ∃ r ws, ContractRuns env base rows tx r ws ∧
        finishOutcome env tx r ((tx.gasLimit - r.gasUsed) * tx.gasPrice)
          (chargedWrites rows tx r ws) = .ok effects := by
  have hcost := hadm.cost_le
  rw [executeContractSpeculative_eq]
  simp only [result_bind, bind_ok, result_liftExcept, gasRefund_ok]
  constructor
  · rintro ⟨⟨r, ws⟩, hrun, ws', hcharge, _, ⟨hgas, -, rfl⟩, h⟩
    obtain ⟨-, hfee, rfl⟩ :=
      (chargeContract_ok hadm.readable (runEvm_keeps henv hdeploy hrun)).1 hcharge
    exact ⟨r, ws, ⟨hrun, hgas, hfee, (exists_finishOutcome ..).1 ⟨_, h⟩⟩, h⟩
  · rintro ⟨r, ws, hruns, h⟩
    have hrefund := refund_add tx.gasPrice hruns.gas
    refine ⟨(r, ws), hruns.run, _, ?_, _, ⟨hruns.gas, ?_, rfl⟩, h⟩
    · refine (chargeContract_ok hadm.readable (runEvm_keeps henv hdeploy hruns.run)).2
        ⟨?_, hruns.fee, rfl⟩
      omega
    · change (tx.gasLimit - r.gasUsed) * tx.gasPrice ≤ _
      omega

lemma balanceOf_chargedWrites (r : EvmExecutionResult) (ws : OccWrites) :
    balanceOf ((chargedWrites rows tx r ws).view rows) =
      Function.update (balanceOf ((keptWrites r ws).view rows)) tx.fromAddr
        (balanceOf ((keptWrites r ws).view rows) tx.fromAddr - r.gasUsed * tx.gasPrice) := by
  rw [chargedWrites, balanceOf_view_insert]
  · rfl
  · exact validate_accountOf tx.fromAddr

include henv hdeploy in
lemma totalShift_chargedWrites (hruns : ContractRuns env base rows tx r ws) :
    TotalShift (balanceOf rows) (balanceOf ((chargedWrites rows tx r ws).view rows))
      (-((r.gasUsed * tx.gasPrice : ℕ) : ℤ)) := by
  have hkept : TotalShift (balanceOf rows) (balanceOf ((keptWrites r ws).view rows)) 0 := by
    unfold keptWrites
    split_ifs with hsuccess
    · exact (runEvm_keeps henv hdeploy hruns.run hsuccess).total
    · rw [view_empty]
      exact TotalShift.refl _
  have hfee := hruns.fee
  rw [balanceOf_chargedWrites]
  convert hkept.trans (totalShift_update _ tx.fromAddr _) using 1
  omega

include henv hdeploy in
lemma nonceOf_chargedWrites (hruns : ContractRuns env base rows tx r ws) :
    nonceOf ((chargedWrites rows tx r ws).view rows) tx.fromAddr =
      if r.success then tx.nonce + 1 else wrapAdd64 tx.nonce 1 := by
  rw [chargedWrites, nonceOf_view_insert]
  swap
  · exact validate_accountOf tx.fromAddr
  split_ifs with hsuccess
  · obtain ⟨x, hx, hvalid, hnonce⟩ := (runEvm_keeps henv hdeploy hruns.run hsuccess).caller
    rw [keptWrites, if_pos hsuccess, ← hnonce]
    exact nonceOf_eq (accountAt_view_of_account hx hvalid)
  · rfl

/-! ### All transactions -/

lemma wrapAdd64_eq_succ {n : ℕ} : wrapAdd64 n 1 = n + 1 ↔ n < u64Max := by
  unfold wrapAdd64 u64Max
  omega

/-- The transactions that the write set settles. -/
inductive Settles (env : ExecutionEnv) (base : StateRows) (rows : StateKey → Option StateRow)
    (tx : Transaction) : Prop where
  | transfer (dest : Address) (kind : tx.isContract = false) (admitted : Admitted env base rows tx)
    (runs : TransferRuns env rows tx dest) (nonce_lt : tx.nonce < u64Max)
    (self : dest = tx.fromAddr → tx.value = 0)
  | contract (r : EvmExecutionResult) (ws : OccWrites) (kind : tx.isContract = true)
    (admitted : Admitted env base rows tx) (runs : ContractRuns env base rows tx r ws)
    (nonce_lt : r.success = false → tx.nonce < u64Max)

section Outcome

variable {effects : TxEffects StateKey StateRow}

lemma speculativeOutcome_of_ok
    (h : result rows (executeTransactionSpeculative env base tx) = .ok effects) :
    speculativeOutcome env base rows tx = effects := by
  rw [speculativeOutcome, h]

lemma speculativeRows_of_error {e : ExecutionError}
    (h : result rows (executeTransactionSpeculative env base tx) = .error e) :
    speculativeRows env base rows tx = rows := by
  rw [speculativeRows, speculativeOutcome, h]
  rfl

lemma effects_of_admitted (refund : ℕ) {r : EvmExecutionResult} {ws : OccWrites}
    (hadm : Admitted env base rows tx) (hhash : ∃ hash, env.tryHash tx = .ok hash)
    (hexec : ∀ m effects, registerTx ∅ tx = .ok m → finishOutcome env tx r refund ws = .ok effects →
      result rows (executeAdmitted env base rows m tx) = .ok effects) :
    speculativeRows env base rows tx = ws.view rows ∧
      speculativeFee env base rows tx = r.gasUsed * tx.gasPrice := by
  obtain ⟨m, hm⟩ := exists_registerTx.2 hadm.addresses
  obtain ⟨effects, hfinish⟩ := (exists_finishOutcome r refund ws).2 hhash
  obtain ⟨hgas, hws⟩ := finishOutcome_ok hfinish
  have h := executeTransactionSpeculative_ok.2 ⟨hadm, m, hm, hexec m effects hm hfinish⟩
  rw [speculativeRows, speculativeFee, speculativeOutcome_of_ok h, hws, hgas]
  exact ⟨apply_toWriteSet ws rows, rfl⟩

end Outcome

lemma transfer_effects {dest : Address} (hkind : tx.isContract = false)
    (hadm : Admitted env base rows tx) (hruns : TransferRuns env rows tx dest) :
    speculativeRows env base rows tx = (transferWrites rows tx dest).view rows ∧
      speculativeFee env base rows tx = calculateIntrinsicGas tx.data * tx.gasPrice := by
  refine effects_of_admitted ((tx.gasLimit - calculateIntrinsicGas tx.data) * tx.gasPrice)
    (r := ⟨true, calculateIntrinsicGas tx.data, []⟩) hadm hruns.hash fun m effects hm hfinish => ?_
  rw [executeAdmitted, if_neg (by simp [hkind])]
  exact (executeTransferSpeculative_ok hadm hm hruns.recipient).2 ⟨hruns, hfinish⟩

include henv hdeploy in
lemma contract_effects (hkind : tx.isContract = true) (hadm : Admitted env base rows tx)
    (hruns : ContractRuns env base rows tx r ws) :
    speculativeRows env base rows tx = (chargedWrites rows tx r ws).view rows ∧
      speculativeFee env base rows tx = r.gasUsed * tx.gasPrice := by
  refine effects_of_admitted ((tx.gasLimit - r.gasUsed) * tx.gasPrice) hadm hruns.hash
    fun m effects hm hfinish => ?_
  rw [executeAdmitted, if_pos hkind]
  exact (executeContractSpeculative_ok henv hdeploy hadm).2 ⟨r, ws, hruns, hfinish⟩

include henv hdeploy in
lemma runs_of_ok {effects : TxEffects StateKey StateRow}
    (h : result rows (executeTransactionSpeculative env base tx) = .ok effects) :
    Admitted env base rows tx ∧
      ((tx.isContract = false ∧ ∃ dest, TransferRuns env rows tx dest) ∨
        (tx.isContract = true ∧ ∃ r ws, ContractRuns env base rows tx r ws)) := by
  obtain ⟨hadm, m, hm, h⟩ := executeTransactionSpeculative_ok.1 h
  refine ⟨hadm, ?_⟩
  unfold executeAdmitted at h
  split_ifs at h with hkind
  · obtain ⟨r, ws, hruns, -⟩ := (executeContractSpeculative_ok henv hdeploy hadm).1 h
    exact .inr ⟨hkind, r, ws, hruns⟩
  · rw [Bool.not_eq_true] at hkind
    obtain ⟨dest, hto⟩ := exists_recipient hkind
    exact .inl ⟨hkind, dest, ((executeTransferSpeculative_ok hadm hm hto).1 h).1⟩

lemma conserves_transfer_iff {dest : Address} (hkind : tx.isContract = false)
    (hadm : Admitted env base rows tx) (hruns : TransferRuns env rows tx dest) :
    Conserves env base rows tx ↔
      tx.nonce < u64Max ∧ (dest = tx.fromAddr → tx.value = 0) := by
  obtain ⟨hrows, hfee⟩ := transfer_effects hkind hadm hruns
  have hcost : tx.value + calculateIntrinsicGas tx.data * tx.gasPrice ≤
      balanceOf rows tx.fromAddr :=
    (Nat.add_le_add_left (Nat.mul_le_mul_right _ hruns.gas) _).trans hadm.cost_le_balance
  have hshift := totalShift_transferWrites dest hcost
  rw [← hrows, ← hfee] at hshift
  have hnonce : nonceOf (speculativeRows env base rows tx) tx.fromAddr = wrapAdd64 tx.nonce 1 := by
    rw [hrows, transferWrites, nonceOf_view_insert]
    exact validate_accountOf tx.fromAddr
  constructor
  · intro h
    refine ⟨wrapAdd64_eq_succ.1 ?_, fun hself => ?_⟩
    · rw [← hnonce, h.nonce, hadm.nonce]
    · have huniq := h.total.unique hshift
      rw [if_pos hself] at huniq
      omega
  · rintro ⟨hlt, hself⟩
    refine ⟨?_, ?_, ?_⟩
    · convert hshift using 1
      split_ifs with hdest
      · simp [hself hdest]
      · simp
    · rw [hfee, hrows, balanceOf_transferWrites, Function.update_self, balanceBeforeFee,
        if_neg (by simp [hkind]), hruns.recipient]
      split_ifs with hdest
      · rw [hself (Option.some.inj hdest)] at hcost ⊢
        omega
      · omega
    · rw [hnonce, wrapAdd64_eq_succ.2 hlt, hadm.nonce]

include henv hdeploy in
lemma conserves_contract_iff (hkind : tx.isContract = true) (hadm : Admitted env base rows tx)
    (hruns : ContractRuns env base rows tx r ws) :
    Conserves env base rows tx ↔ (r.success = false → tx.nonce < u64Max) := by
  obtain ⟨hrows, hfee⟩ := contract_effects henv hdeploy hkind hadm hruns
  have hnonce := nonceOf_chargedWrites henv hdeploy hruns
  rw [← hrows] at hnonce
  constructor
  · intro h hfailed
    rw [h.nonce, hadm.nonce, hfailed] at hnonce
    exact wrapAdd64_eq_succ.1 hnonce.symm
  · intro hlt
    refine ⟨?_, ?_, ?_⟩
    · rw [hrows, hfee]
      exact totalShift_chargedWrites henv hdeploy hruns
    · have hbefore : balanceBeforeFee env base rows tx =
          balanceOf ((keptWrites r ws).view rows) tx.fromAddr := by
        rw [balanceBeforeFee, if_pos hkind, hruns.run, keptWrites]
        split_ifs with hsuccess
        · simp [hsuccess]
        · simp [hsuccess]
      rw [hbefore, hfee, hrows, balanceOf_chargedWrites, Function.update_self]
      exact Nat.sub_add_cancel hruns.fee
    · rw [hnonce, hadm.nonce]
      split_ifs with hsuccess
      · rfl
      · exact wrapAdd64_eq_succ.2 (hlt (by simpa using hsuccess))

/-- A write set conserves value, takes the fee from the sender and raises the nonce exactly
for the transactions that go through and do not send a value to oneself. -/
theorem speculative_conserves_iff (henv : EvmConserves env)
    (hdeploy : tx.toAddr = none → DeploysApart env rows tx) :
    Conserves env base rows tx ↔ Settles env base rows tx := by
  constructor
  · intro h
    cases hresult : result rows (executeTransactionSpeculative env base tx) with
    | error e =>
      have hnonce := h.nonce
      rw [speculativeRows_of_error hresult] at hnonce
      omega
    | ok effects =>
      obtain ⟨hadm, ⟨hkind, dest, hruns⟩ | ⟨hkind, r, ws, hruns⟩⟩ :=
        runs_of_ok henv hdeploy hresult
      · obtain ⟨hnonce, hself⟩ := (conserves_transfer_iff hkind hadm hruns).1 h
        exact .transfer dest hkind hadm hruns hnonce hself
      · exact .contract r ws hkind hadm hruns
          ((conserves_contract_iff henv hdeploy hkind hadm hruns).1 h)
  · rintro (⟨dest, hkind, hadm, hruns, hnonce, hself⟩ | ⟨r, ws, hkind, hadm, hruns, hnonce⟩)
    · exact (conserves_transfer_iff hkind hadm hruns).2 ⟨hnonce, hself⟩
    · exact (conserves_contract_iff henv hdeploy hkind hadm hruns).2 hnonce

/-! ### Instances -/

/-- An EVM that pays the value of a call to another account and does nothing else. -/
def payingEvm (call : EvmCall) : ReadProgram DbQuery DbAnswer (Except String EvmTransition) :=
  match call.transactTo with
  | none => .ret (.error "no creations")
  | some target => .read (.basic call.caller) fun caller => .read (.basic target) fun callee =>
    match caller, callee with
    | some (.info a), some (.info b) =>
      if call.caller < 2 ^ 160 ∧ target < 2 ^ 160 ∧ call.caller ≠ target ∧
          call.value ≤ a.balance then
        .ret (.ok ⟨.success, 21, [], [(call.caller, ⟨false, a.balance - call.value,
          call.nonce + 1, none, []⟩), (target, ⟨false, b.balance + call.value, b.nonce, none,
          []⟩)]⟩)
      else .ret (.error "refused")
    | _, _ => .ret (.error "no such account")

def payingEnv : ExecutionEnv where
  transact := payingEvm
  sha256 := fun _ => 1
  hashStorage := fun _ _ => 1
  contractAddress := fun a n => a + n + 1
  createAddress := fun a n => a + n + 1
  tryHash := fun tx => .ok tx.nonce
  blockEntropy := 0
  blockTimestamp := 0

lemma payingEvm_runs {db : EvmDb} {call : EvmCall} {t : EvmTransition}
    (h : EvmRuns payingEnv db call t) :
    ∃ target a b, call.caller < 2 ^ 160 ∧ target < 2 ^ 160 ∧ call.caller ≠ target ∧
      db (.basic call.caller) = .ok (some (.info a)) ∧
      db (.basic target) = .ok (some (.info b)) ∧ call.value ≤ a.balance ∧
      t = ⟨.success, 21, [], [(call.caller, ⟨false, a.balance - call.value, call.nonce + 1, none,
        []⟩), (target, ⟨false, b.balance + call.value, b.nonce, none, []⟩)]⟩ := by
  change (payingEvm call).interp db = _ at h
  unfold payingEvm at h
  split at h
  · simp [ReadProgram.interp] at h
  · next target htarget =>
    simp only [ReadProgram.interp, bind_ok] at h
    obtain ⟨caller, hcaller, callee, hcallee, h⟩ := h
    split at h
    · next a b =>
      split_ifs at h with hcond
      · obtain ⟨hc, ht, hne, hvalue⟩ := hcond
        rw [ReadProgram.interp, pure_ok, Except.ok.injEq] at h
        exact ⟨target, a, b, hc, ht, hne, hcaller, hcallee, hvalue, h.symm⟩
      · simp [ReadProgram.interp] at h
    · simp [ReadProgram.interp] at h

lemma evmConserves_paying : EvmConserves payingEnv where
  distinct h := by
    obtain ⟨target, a, b, -, -, hne, -, -, -, rfl⟩ := payingEvm_runs h
    simp [hne]
  width h := by
    obtain ⟨target, a, b, hcaller, htarget, -, -, -, -, rfl⟩ := payingEvm_runs h
    simpa only [List.forall_mem_cons, List.not_mem_nil, IsEmpty.forall_iff, implies_true, and_true]
      using And.intro hcaller htarget
  total h := by
    obtain ⟨target, a, b, -, -, -, ha, hb, hvalue, rfl⟩ := payingEvm_runs h
    simp only [RevmAccount.finalBalance, dbBalance, ha, hb, List.map_cons, List.map_nil,
      List.sum_cons, List.sum_nil, Bool.false_eq_true, if_false]
    omega
  caller h _ := by
    obtain ⟨target, a, b, -, -, -, -, -, -, rfl⟩ := payingEvm_runs h
    exact ⟨_, List.mem_cons_self, rfl, rfl⟩

def twoAccounts (k : StateKey) : Option StateRow :=
  if k = .account 1 then some (.account { Account.new 1 with balance := 1000 })
  else if k = .account 2 then some (.account { Account.new 2 with codeHash := 7 })
  else none

def payment (dest value gasLimit nonce : ℕ) (data : List UInt8) : Transaction where
  fromAddr := 1
  toAddr := some dest
  signerPubkey := none
  value := value
  nonce := nonce
  gasLimit := gasLimit
  gasPrice := 1
  data := data
  signature := none
  chainId := none
  ethereumYParity := none
  ethereumSighash := none
  ethereumTxHash := none
  ethereumRaw := none

lemma readable_twoAccounts (a : Address) : Readable twoAccounts a := by
  intro row hrow
  unfold twoAccounts at hrow
  split_ifs at hrow
  · exact ⟨_, by rw [← Option.some.inj hrow]; rfl⟩
  · exact ⟨_, by rw [← Option.some.inj hrow]; rfl⟩

lemma admitted_payment {dest value gasLimit : ℕ} {data : List UInt8} (hdest : dest < 2 ^ 160)
    (hcost : value + gasLimit ≤ 1000) :
    Admitted payingEnv ∅ twoAccounts (payment dest value gasLimit 0 data) where
  addresses := by
    intro d hd hproj
    obtain rfl : dest = d := Option.some.inj hd
    rw [l1AddrToRevm, Nat.mod_eq_of_lt hdest] at hproj
    exact hproj
  readable := readable_twoAccounts 1
  nonce := rfl
  cost_le := by
    have : (1000 : ℕ) ≤ u256Max := by decide
    rw [payment, Nat.mul_one]
    exact hcost.trans this
  afford := by
    rw [payment, Nat.mul_one]
    exact hcost

/-- A call that pays 5 settles. -/
theorem call_conserves :
    Settles payingEnv ∅ twoAccounts (payment 2 5 300 0 [1]) ∧
      Conserves payingEnv ∅ twoAccounts (payment 2 5 300 0 [1]) := by
  have hsettles : Settles payingEnv ∅ twoAccounts (payment 2 5 300 0 [1]) := by
    refine .contract _ _ rfl (admitted_payment (by decide) (by decide))
      ⟨rfl, by decide, by decide, ⟨_, rfl⟩⟩ fun _ => by decide
  exact ⟨hsettles, (speculative_conserves_iff evmConserves_paying (by simp [payment])).2 hsettles⟩

/-- A transfer of 5 to oneself loses them besides the fee; a transaction with a wrong nonce is
reported with its intrinsic gas, which nobody has paid. -/
theorem self_transfer_and_failure_not_conserved : EvmConserves payingEnv ∧
    (speculativeFee payingEnv ∅ twoAccounts (payment 1 5 300 0 []) = 210 ∧
      balanceOf (speculativeRows payingEnv ∅ twoAccounts (payment 1 5 300 0 [])) 1 = 785 ∧
      ¬ Conserves payingEnv ∅ twoAccounts (payment 1 5 300 0 [])) ∧
    (speculativeFee payingEnv ∅ twoAccounts (payment 2 5 300 1 []) = 210 ∧
      speculativeRows payingEnv ∅ twoAccounts (payment 2 5 300 1 []) = twoAccounts ∧
      ¬ Conserves payingEnv ∅ twoAccounts (payment 2 5 300 1 [])) := by
  have hfailed : speculativeRows payingEnv ∅ twoAccounts (payment 2 5 300 1 []) = twoAccounts :=
    speculativeRows_of_error (e := .tx (.invalidNonce 0 1)) rfl
  refine ⟨evmConserves_paying, ⟨by decide +kernel, by decide +kernel, fun h => ?_⟩,
    by decide +kernel, hfailed, fun h => ?_⟩
  · have hruns : TransferRuns payingEnv twoAccounts (payment 1 5 300 0 []) 1 :=
      ⟨rfl, readable_twoAccounts 1, by decide, by decide, by decide, ⟨_, rfl⟩⟩
    obtain ⟨hrows, hfee⟩ := transfer_effects rfl (admitted_payment (by decide) (by decide)) hruns
    have htotal := h.total
    rw [hrows, hfee] at htotal
    have huniq := htotal.unique (totalShift_transferWrites 1 (by decide))
    revert huniq
    decide
  · have hnonce := h.nonce
    rw [hfailed] at hnonce
    omega

end Sxiaum
