import Sxiaum.Execution.SequentialFees

/-!
# What a transaction leaves of locked funds

The balance of a sender with a vesting schedule after a transaction, on the path of a validator
and on that of a producer. A validator compares the value and the whole fee with what is not
locked, so the locked amount stays. A producer deducts the fee first and compares the value alone
with the rest: a transaction without value passes with nothing to spend, and its fee is taken
from locked funds.
-/

namespace Sxiaum

open Executor FallibleProgram Guards StateProgram
open Parallel (TxEffects)

variable {env : PipelineEnv} {tx : Transaction}

/-- The amount that the vesting schedule of an account locks at the time of the block. -/
def lockedOf (env : ExecutionEnv) (rows : StateRows) (address : Address) : ℕ :=
  match rows.getVestingSchedule address with
  | .ok (some schedule) => schedule.lockedAmount env.blockTimestamp
  | _ => 0

lemma spendable_eq (env : ExecutionEnv) (base : StateRows) (address : Address) (balance : ℕ) :
    spendable env base address balance = balance - lockedOf env base address := by
  unfold spendable lockedOf
  rcases base.getVestingSchedule address with e | (- | schedule) <;> rfl

/-! ### What revm takes from the caller -/

/-- revm touches the caller and takes no more than the value from it: an account that sends
transactions has no code that could pay out more. -/
structure EvmSparesCaller (env : ExecutionEnv) : Prop where
  caller : ∀ {db call t}, EvmRuns env db call t →
    ∃ account, (call.caller, account) ∈ t.changes ∧ account.selfdestructed = false ∧
      dbBalance db call.caller ≤ account.balance + call.value

section Spares

variable (henv : EvmConserves env) (hspares : EvmSparesCaller env)
  {base : StateRows} {rows : StateKey → Option StateRow} {ws : OccWrites}

include henv hspares

lemma transactCommit_spares
    {m : AddressMap} {errorLabel commitLabel : String} {call : EvmCall} {t : EvmTransition}
    (h : result rows (Occ.transactCommit env base m errorLabel commitLabel call) =
      .ok (t, ws)) (hapart : t.Apart m) :
    balanceOf rows (m.resolve call.caller) ≤
      balanceOf (ws.view rows) (m.resolve call.caller) + call.value := by
  obtain ⟨account, hmem, hkept, hbalance⟩ := hspares.caller (transactCommit_ok h).1
  obtain ⟨row, hrow, hlookup⟩ := (transactCommit_accounts henv h hapart).1 _ hmem
  rw [dbBalance_occDb] at hbalance
  rw [balanceOf_view_of_committed hrow hlookup, RevmAccount.finalBalance,
    if_neg (by simp [hkept])]
  exact hbalance

lemma runEvm_spares (hdeploy : tx.toAddr = none → DeploysApart env rows tx)
    {r : EvmExecutionResult}
    (h : result rows (runEvm env base tx) = .ok (r, ws))
    (hsuccess : r.success = true) :
    balanceOf rows tx.fromAddr ≤ balanceOf (ws.view rows) tx.fromAddr + tx.value := by
  unfold runEvm at h
  split_ifs at h with hcreate
  · have hapart := hdeploy (by simpa [Transaction.isContractCreation] using hcreate)
    obtain ⟨m, t, ws₁, hm, rfl, hrun, hrecord⟩ := deployContractSpeculative_ok h
    have ht : t.status = .success := by simpa [EvmTransition.toResult] using hsuccess
    have hsender : m.resolve (deployCall env tx).caller = tx.fromAddr :=
      AddressMap.resolve_eq (deployMap_sender hapart hm)
    have hspared := transactCommit_spares henv hspares hrun
      (hapart.apart hm (transactCommit_ok hrun).1)
    -- recording the contract writes no row of the sender
    obtain ⟨a, a', -, -, -, hrecords⟩ := recordDeployment_account (hrecord ht)
    have hsame : balanceOf (ws.view rows) tx.fromAddr = balanceOf (ws₁.view rows) tx.fromAddr := by
      apply balanceOf_congr
      rw [accountAt_view, accountAt_view, hrecords.account, if_neg hapart.target_ne.symm]
    rw [hsender] at hspared
    rw [hsame]
    exact hspared
  · obtain ⟨m, t, hm, rfl, hrun⟩ := executeContractCallSpeculative_ok h
    have hreg := AddressMap.registered_of_registerTx hm
    have hevm := (transactCommit_ok hrun).1
    have hsender : m.resolve (Occ.evmCall env tx).caller = tx.fromAddr :=
      AddressMap.resolve_eq hreg.sender
    have hspared := transactCommit_spares henv hspares hrun (henv.apart hevm hm)
    rw [hsender] at hspared
    exact hspared

/-- The contract of a deployment is an account of its own, and not at the sender's address. -/
structure ProducerApart (env : ExecutionEnv) (rows : StateRows) (tx : Transaction) : Prop where
  create_ne : env.createAddress (l1AddrToRevm tx.fromAddr) tx.nonce ≠ l1AddrToRevm tx.fromAddr
  apart : DeployApart env rows tx

lemma runContract_spares {rows rows' : StateRows}
    (hdeploy : tx.toAddr = none → ProducerApart env rows tx)
    {r : EvmExecutionResult} (h : Runs (runContract env tx) rows r rows') :
    balanceOf rows.view tx.fromAddr ≤ balanceOf rows'.view tx.fromAddr + tx.value := by
  obtain ⟨m, errorLabel, commitLabel, call, t, rows₁, hcall, hrun, hsame⟩ := runs_runContract h
  obtain ⟨hevm, hin, -⟩ := runs_transactCommit henv hrun fun hevm =>
    hcall.apart henv (fun hto => (hdeploy hto).apart) hevm
  obtain ⟨account, hmem, hkept, hbalance⟩ := hspares.caller hevm
  have hafter := balanceOf_of_leaves (hin _ hmem)
  rw [RevmAccount.finalBalance, if_neg (by simp [hkept])] at hafter
  have hsender : m.resolve call.caller = tx.fromAddr ∧ call.value = tx.value := by
    cases hcall with
    | deploy hto hmap =>
      simp only [deployMap, bind_ok, pure_ok] at hmap
      obtain ⟨m₁, h₁, m₂, h₂, rfl⟩ := hmap
      refine ⟨AddressMap.resolve_eq ?_, rfl⟩
      refine (AList.lookup_insert_ne (hdeploy hto).create_ne.symm).trans ?_
      exact AddressMap.lookup_registerAddress h₂ (AddressMap.registered_of_registerTx h₁).sender
    | call hmap =>
      exact ⟨AddressMap.resolve_eq (AddressMap.registered_of_registerTx hmap).sender, rfl⟩
  rw [dbBalance_database, hsender.1, hsender.2] at hbalance
  rw [hsender.1] at hafter
  rw [hsame, hafter]
  exact hbalance

end Spares

/-! ### The path of a validator -/

lemma gasCost_pos (h : tx.validateBasic env = .ok ()) : 0 < tx.gasLimit * tx.gasPrice := by
  simp only [Transaction.validateBasic, Transaction.validateGasLimit, bind_ok, bailIf_ok] at h
  obtain ⟨-, ⟨-, hlimit, -⟩, -, hprice, -⟩ := h
  exact Nat.mul_pos (Nat.pos_of_ne_zero hlimit) (Nat.pos_of_ne_zero hprice)

lemma locked_le_speculative (henv : EvmConserves env)
    (hspares : EvmSparesCaller env) {base : StateRows}
    {rows : StateKey → Option StateRow} {effects : TxEffects StateKey StateRow}
    (hdeploy : tx.toAddr = none → DeploysApart env rows tx)
    (hbasic : tx.validateBasic env = .ok ())
    (h : result rows (executeTransactionSpeculative env base tx) = .ok effects) :
    lockedOf env base tx.fromAddr ≤
      balanceOf (speculativeRows env base rows tx) tx.fromAddr := by
  obtain ⟨hadm, hruns⟩ := runs_of_ok henv hdeploy h
  have hafford := hadm.afford
  have hpos := gasCost_pos hbasic
  rw [spendable_eq] at hafford
  rcases hruns with ⟨hkind, dest, hruns⟩ | ⟨hkind, r, ws, hruns⟩
  · rw [(transfer_effects hkind hadm hruns).1, balanceOf_transferWrites, Function.update_self]
    have hfee := Nat.mul_le_mul_right tx.gasPrice hruns.gas
    omega
  · rw [(contract_effects henv hdeploy hkind hadm hruns).1, balanceOf_chargedWrites,
      Function.update_self]
    have hfee := Nat.mul_le_mul_right tx.gasPrice hruns.gas
    have hkept : balanceOf rows tx.fromAddr ≤
        balanceOf ((keptWrites r ws).view rows) tx.fromAddr + tx.value := by
      unfold keptWrites
      split_ifs with hsuccess
      · exact runEvm_spares henv hspares hdeploy hruns.run hsuccess
      · rw [view_empty]
        exact Nat.le_add_right _ _
    omega

/-! ### The path of a producer -/

section Producer

variable {rows rows' : StateRows} {receipt : Receipt}

def plainFee (tx : Transaction) : ℕ := tx.gasPrice * calculateIntrinsicGas tx.data

/-- The sender moves a value, or has the fee besides the locked amount: of a plain transfer what
it keeps, of a contract transaction what it may keep. A transfer to oneself is given the unused
gas without having paid for it. -/
def CoversFee (env : ExecutionEnv) (rows : StateRows) (tx : Transaction) : Prop :=
  0 < tx.value ∨
    if tx.isContract then
      lockedOf env rows tx.fromAddr + tx.gasCost ≤ balanceOf rows.view tx.fromAddr
    else if tx.toAddr = some tx.fromAddr then
      lockedOf env rows tx.fromAddr ≤
        balanceOf rows.view tx.fromAddr + (tx.gasCost - plainFee tx)
    else lockedOf env rows tx.fromAddr + plainFee tx ≤ balanceOf rows.view tx.fromAddr

variable (h : Runs (executePipeline env tx) rows receipt rows')

include h

/-- The value is compared with what is left after the fee and not locked. -/
lemma value_le_of_pipeline :
    tx.value ≤ balanceOf rows.view tx.fromAddr - tx.gasCost -
      lockedOf env rows tx.fromAddr := by
  obtain ⟨s, p, rows₁, rows₂, refund, hs, -, -, hperform, -⟩ := runs_executePipeline h
  rw [balanceOf_eq hs]
  simp only [performTransferOrContractExecution, validateTransferOverflow, runs_bind, runs_get,
    runs_liftExcept, runs_guard] at hperform
  obtain ⟨_, _, ⟨_, _, ⟨rfl, rfl⟩, schedule, _, ⟨hschedule, rfl⟩, hspendable, -⟩, -⟩ := hperform
  rw [lockedOf, hschedule]
  cases schedule <;> exact not_lt.1 hspendable

lemma gasUsed_of_plain (hplain : tx.isContract = false) :
    receipt.gasUsed = calculateIntrinsicGas tx.data := by
  obtain ⟨s, p, rows₁, rows₂, refund, -, -, -, hperform, -, -, hgas⟩ := runs_executePipeline h
  obtain ⟨dest, hto⟩ := Transaction.exists_toAddr hplain
  rw [hto, Option.map_some] at hperform
  obtain ⟨-, -, rfl⟩ := runs_perform_plain hplain hperform
  exact hgas

/-- A plain transfer leaves the locked amount exactly if it moves a value or covers its fee. -/
lemma locked_le_plain_iff (hplain : tx.isContract = false) :
    lockedOf env rows tx.fromAddr ≤ balanceOf rows'.view tx.fromAddr ↔
      CoversFee env rows tx := by
  obtain ⟨dest, hto, hfunds, hle, ⟨b, hb, hbalances⟩, -⟩ := plain_effect h hplain
  have hvalue := value_le_of_pipeline h
  rw [gasUsed_of_plain h hplain] at hle hbalances
  change plainFee tx ≤ _ at hle
  rw [CoversFee, if_neg (by simp [hplain]), hbalances, Function.update_self]
  change _ ≤ b tx.fromAddr + (tx.gasCost - plainFee tx) ↔ _
  split_ifs with hself
  · obtain rfl : dest = tx.fromAddr := Option.some.inj (hto.symm.trans hself)
    rw [hb, Function.update_self]
    omega
  · have hne : tx.fromAddr ≠ dest := by
      rintro rfl
      exact hself hto
    rw [hb, Function.update_of_ne hne, Function.update_self]
    omega

end Producer

/-! ### Both paths -/

/-- The sender of a transaction that is accepted keeps the locked amount: always if a validator
executes it, and if a producer does, when it moves a value or covers its fee. For plain transfers
that is exact. -/
theorem locked_kept (henv : EvmConserves env)
    (hspares : EvmSparesCaller env) :
    (∀ base rows effects, (tx.toAddr = none → DeploysApart env rows tx) →
      tx.validateBasic env = .ok () →
      result rows (executeTransactionSpeculative env base tx) = .ok effects →
      lockedOf env base tx.fromAddr ≤
        balanceOf (speculativeRows env base rows tx) tx.fromAddr) ∧
    ∀ rows receipt rows', (tx.toAddr = none → ProducerApart env rows tx) →
      Runs (executePipeline env tx) rows receipt rows' →
      (CoversFee env rows tx →
        lockedOf env rows tx.fromAddr ≤ balanceOf rows'.view tx.fromAddr) ∧
      (tx.isContract = false →
        lockedOf env rows tx.fromAddr ≤ balanceOf rows'.view tx.fromAddr →
        CoversFee env rows tx) := by
  refine ⟨fun base rows effects hdeploy hbasic h =>
    locked_le_speculative henv hspares hdeploy hbasic h, fun rows receipt rows' hdeploy h => ?_⟩
  refine ⟨fun hcovers => ?_, fun hplain => (locked_le_plain_iff h hplain).1⟩
  cases hkind : tx.isContract with
  | false => exact (locked_le_plain_iff h hkind).2 hcovers
  | true =>
    obtain ⟨r, rows₁, hrun, -, hle, hcharge, hbalances, -⟩ := contract_effect h hkind
    have hvalue := value_le_of_pipeline h
    have hspared := runContract_spares henv hspares hdeploy hrun
    rw [CoversFee, if_pos hkind] at hcovers
    rw [hbalances, Function.update_self]
    omega

/-! ### Instances -/

lemma evmSparesCaller_paying : EvmSparesCaller payingPipeline where
  caller := by
    intro db call t h
    obtain ⟨target, a, b, -, -, -, hcaller, -, hvalue, rfl⟩ := payingEvm_runs h
    refine ⟨_, List.mem_cons_self, rfl, ?_⟩
    rw [dbBalance, hcaller]
    exact (Nat.sub_add_cancel hvalue).ge

def vestedRows (locked : ℕ) : StateRows :=
  twoRows.insert (.vesting 1) (.vesting ⟨locked, 1000000, 0, 100, 0⟩)

def lockedAndLeft (locked : ℕ) (tx : Transaction) : List (ℕ × ℕ) :=
  (steps payingPipeline (vestedRows locked) [tx]).map fun s =>
    (lockedOf payingPipeline s.before 1, balanceOf s.after.view 1)

/-- Of 1000, all locked, a transfer of nothing takes 210. -/
theorem fee_from_locked : lockedAndLeft 1000 (signedPayment 2 0 300 0 []) = [(1000, 790)] ∧
    (signedPayment 2 0 300 0 []).validateBasic payingPipeline = .ok () := by
  decide +kernel

/-- Of 1000, half of it locked, a transfer of 5 leaves 785. -/
theorem locked_kept_paying : lockedAndLeft 500 (signedPayment 2 5 300 0 []) = [(500, 785)] ∧
    ∀ s ∈ steps payingPipeline (vestedRows 500) [signedPayment 2 5 300 0 []],
      lockedOf payingPipeline s.before s.tx.fromAddr ≤
        balanceOf s.after.view s.tx.fromAddr := by
  refine ⟨by decide +kernel, fun s hs => ?_⟩
  obtain ⟨hmem, hrun⟩ := of_mem_steps hs
  have htx := List.mem_singleton.1 hmem
  refine ((locked_kept evmConserves_paying evmSparesCaller_paying).2 _ _ _ ?_ hrun).1 (.inl ?_)
  · intro hto
    rw [htx] at hto
    cases hto
  · rw [htx]
    decide

end Sxiaum
