import Sxiaum.Execution.SequentialValue
import Sxiaum.Execution.SpeculativeValue

/-!
# Fees on the sequential path

What `execute_pipeline` does to the balances and to the sender's nonce. A transfer to another
account takes its fee from the sender. A transfer to oneself writes the recipient's row, which
was read before anything was deducted, over the sender's. A contract transaction is charged
for the gas it has used and is then refunded the unused gas, for which nothing was deducted.
-/

namespace Sxiaum

open Executor Guards Ledger StateProgram

variable {env : PipelineEnv} {rows rows' : StateRows} {tx : Transaction}

/-! ### The parts of the pipeline -/

lemma runs_loadSenderAccountState {x : Account} :
    Runs (loadSenderAccountState tx) rows x rows' ↔
      accountAt rows.view tx.fromAddr = some x ∧ rows = rows' := by
  simp only [loadSenderAccountState, runs_bind, runs_getAccount]
  constructor
  · rintro ⟨stored, _, ⟨⟨-, rfl⟩, rfl⟩, h⟩
    split at h
    · next y hy =>
      obtain ⟨rfl, rfl⟩ := runs_pure.1 h
      exact ⟨hy, rfl⟩
    · simp at h
  · rintro ⟨hx, rfl⟩
    refine ⟨_, _, ⟨⟨?_, rfl⟩, rfl⟩, ?_⟩
    · intro row hrow
      rw [accountAt, hrow, Option.bind_some] at hx
      exact ⟨x, decodeAccount_ok.2 (StateRow.account?_eq_some.1 hx)⟩
    · rw [hx]
      exact runs_pure.2 ⟨rfl, rfl⟩

lemma runs_loadRecipientAccountState {x : Option Account}
    (h : Runs (loadRecipientAccountState tx) rows x rows') :
    x = tx.toAddr.map (accountOf rows.view) ∧ rows = rows' := by
  unfold loadRecipientAccountState at h
  split at h
  · next dest hto =>
    simp only [runs_bind, runs_getAccount] at h
    obtain ⟨stored, _, ⟨⟨-, rfl⟩, rfl⟩, h⟩ := h
    obtain ⟨rfl, rfl⟩ := runs_pure.1 h
    rw [hto]
    exact ⟨rfl, rfl⟩
  · next hto =>
    obtain ⟨rfl, rfl⟩ := runs_pure.1 h
    rw [hto]
    exact ⟨rfl, rfl⟩

lemma runs_refundUnusedGas {upfrontFee gasUsed refund : ℕ}
    (h : Runs (refundUnusedGas tx upfrontFee gasUsed) rows refund rows') :
    tx.gasPrice * gasUsed ≤ upfrontFee ∧ upfrontFee - tx.gasPrice * gasUsed = refund ∧
      balanceOf rows'.view = Function.update (balanceOf rows.view) tx.fromAddr
        (balanceOf rows.view tx.fromAddr + refund) ∧
      nonceOf rows'.view tx.fromAddr = nonceOf rows.view tx.fromAddr := by
  simp only [refundUnusedGas, runs_bind, runs_require, checkedMul256_eq_some,
    checkedSub_eq_some] at h
  obtain ⟨_, _, ⟨⟨-, rfl⟩, rfl⟩, _, _, ⟨⟨hle, rfl⟩, rfl⟩, h⟩ := h
  split_ifs at h with hpos
  · simp only [runs_bind, runs_loadSenderAccountState, runs_require, checkedAdd256_eq_some] at h
    obtain ⟨x, _, ⟨hx, rfl⟩, _, _, ⟨⟨-, rfl⟩, rfl⟩, _, _, hupdate, h⟩ := h
    obtain ⟨rfl, rfl⟩ := runs_pure.1 h
    have hsets := sets_of_updateAccount hupdate
    refine ⟨hle, rfl, ?_, ?_⟩
    · rw [balanceOf_sets hsets, balanceOf_eq hx]
    · rw [nonceOf_eq hsets.self, nonceOf_eq hx]
  · obtain ⟨rfl, rfl⟩ := runs_pure.1 h
    have hzero := Nat.eq_zero_of_not_pos hpos
    refine ⟨hle, rfl, ?_, rfl⟩
    rw [hzero, Nat.add_zero, Function.update_eq_self]

lemma runs_validateTransferOverflow {sender : Account} {recipient : Option Account} {u : Unit}
    (h : Runs (validateTransferOverflow env sender tx recipient) rows u rows') :
    rows = rows' := by
  simp only [validateTransferOverflow, runs_bind, runs_get, runs_liftExcept, runs_guard] at h
  obtain ⟨_, _, ⟨rfl, rfl⟩, _, _, ⟨-, rfl⟩, -, h⟩ := h
  cases recipient with
  | none => exact (runs_pure.1 h).2
  | some account =>
    simp only [runs_bind, runs_require] at h
    obtain ⟨_, _, ⟨-, rfl⟩, h⟩ := h
    exact (runs_pure.1 h).2

/-- A plain transfer works on copies of the two accounts. -/
lemma runs_perform_plain (hplain : tx.isContract = false) {sender recipient : Account}
    {p : Performed}
    (h : Runs (performTransferOrContractExecution env tx sender (some recipient))
      rows p rows') :
    rows = rows' ∧ tx.value ≤ sender.balance ∧
      p = ⟨calculateIntrinsicGas tx.data, true, .localView,
        { sender with balance := sender.balance - tx.value },
        some { recipient with balance := recipient.balance + tx.value }⟩ := by
  obtain ⟨hcreate, hcall⟩ : tx.isContractCreation = false ∧ tx.isContractCall = false := by
    simpa [Transaction.isContract] using hplain
  simp only [performTransferOrContractExecution, runs_bind, hcreate, hcall, Bool.false_eq_true,
    if_false, runs_liftExcept, updateBalances, bind_ok, okOr_ok, pure_ok, checkedSub_eq_some,
    checkedAdd256_eq_some] at h
  obtain ⟨_, _, hchecked, q, _, ⟨⟨_, ⟨hle, rfl⟩, _, ⟨-, rfl⟩, rfl⟩, rfl⟩, h⟩ := h
  obtain ⟨rfl, rfl⟩ := runs_pure.1 h
  exact ⟨runs_validateTransferOverflow hchecked, hle, rfl⟩

/-- A contract transaction leaves the rows of the EVM and the sender's account from there, less
the fee for the used gas. -/
lemma runs_perform_contract (hcontract : tx.isContract = true) {sender : Account}
    {recipient : Option Account} {p : Performed}
    (h : Runs (performTransferOrContractExecution env tx sender recipient)
      rows p rows') :
    ∃ r y, Runs (runContract env tx) rows r rows' ∧
      accountAt rows'.view tx.fromAddr = some y ∧ y.nonce = tx.nonce + 1 ∧
      tx.gasPrice * r.gasUsed ≤ y.balance ∧
      p = ⟨r.gasUsed, r.success, .canonical,
        { y with balance := y.balance - tx.gasPrice * r.gasUsed }, recipient⟩ := by
  have hperform : ∃ r x rows₁, Runs (runContract env tx) rows r rows₁ ∧
      Runs (syncSenderToCanonical tx r.gasUsed) rows₁ x rows' ∧
      p = ⟨r.gasUsed, r.success, .canonical, x, recipient⟩ := by
    simp only [performTransferOrContractExecution, runs_bind] at h
    obtain ⟨_, _, hchecked, h⟩ := h
    obtain rfl := runs_validateTransferOverflow hchecked
    unfold runContract
    by_cases hcreate : tx.isContractCreation = true
    · simp only [hcreate, if_true, runs_bind] at h ⊢
      obtain ⟨r, rows₁, hrun, x, rows₂, hsync, h⟩ := h
      obtain ⟨rfl, rfl⟩ := runs_pure.1 h
      exact ⟨r, x, rows₁, hrun, hsync, rfl⟩
    · have hcall : tx.isContractCall = true := by
        simpa [Transaction.isContract, hcreate] using hcontract
      simp only [hcreate, hcall, Bool.false_eq_true, if_true, if_false, runs_bind] at h ⊢
      obtain ⟨r, rows₁, hrun, x, rows₂, hsync, h⟩ := h
      obtain ⟨rfl, rfl⟩ := runs_pure.1 h
      exact ⟨r, x, rows₁, hrun, hsync, rfl⟩
  obtain ⟨r, x, rows₁, hrun, hsync, rfl⟩ := hperform
  simp only [syncSenderToCanonical, runs_bind, runs_loadSenderAccountState, runs_guard,
    runs_require, checkedMul256_eq_some, checkedSub_eq_some, not_not] at hsync
  obtain ⟨y, _, ⟨hy, rfl⟩, -, hnonce, _, _, ⟨⟨-, rfl⟩, rfl⟩, _, _, ⟨⟨hle, rfl⟩, rfl⟩, hret⟩ := hsync
  obtain ⟨rfl, rfl⟩ := runs_pure.1 hret
  exact ⟨r, y, hrun, hy, hnonce, hle, rfl⟩

lemma runs_storeAccounts_plain (hplain : tx.isContract = false) {dest : Address}
    (hto : tx.toAddr = some dest) {gasUsed : ℕ} {sender recipient : Account} {u : Unit}
    (h : Runs (storeAccounts tx ⟨gasUsed, true, .localView, sender, some recipient⟩)
      rows u rows') :
    ∃ rows₁, Sets rows rows₁ tx.fromAddr (some { sender with nonce := sender.nonce + 1 }) ∧
      Sets rows₁ rows' dest (some recipient) := by
  have hcall : tx.isContractCall = false := by
    simpa [Transaction.isContract] using (Bool.or_eq_false_iff.1 hplain).2
  simp only [storeAccounts, hto, hcall, reduceCtorEq, if_false, if_true, Bool.not_false,
    runs_bind, runs_account, runs_liftExcept, updateSenderNonce] at h
  obtain ⟨x, _, ⟨hx, rfl⟩, _, _, ⟨-, rfl⟩, _, rows₁, hsender, _, _, ⟨-, rfl⟩, hrecipient⟩ := h
  split_ifs at hx
  obtain rfl := Except.ok.inj hx
  exact ⟨rows₁, sets_of_updateAccount hsender, sets_of_updateAccount hrecipient⟩

lemma runs_storeAccounts_contract (hcontract : tx.isContract = true) {gasUsed : ℕ}
    {success : Bool} {sender : Account} {recipient : Option Account} {u : Unit}
    (h : Runs (storeAccounts tx ⟨gasUsed, success, .canonical, sender, recipient⟩)
      rows u rows') :
    Sets rows rows' tx.fromAddr (some sender) := by
  simp only [storeAccounts, if_true, runs_bind, runs_pure, runs_account] at h
  obtain ⟨_, _, ⟨rfl, rfl⟩, _, _, ⟨-, rfl⟩, _, rows₁, hsender, h⟩ := h
  -- a creation has no recipient, and the recipient of a call is left to revm
  have hlast : rows₁ = rows' := by
    cases success with
    | false => exact (runs_pure.1 h).2
    | true =>
      rw [if_pos rfl] at h
      split at h
      · next dest account hto =>
        have hcall : tx.isContractCall = true := by
          simpa [Transaction.isContract, Transaction.isContractCreation, hto] using hcontract
        rw [hcall] at h
        exact (runs_pure.1 h).2
      · exact (runs_pure.1 h).2
  rw [← hlast]
  exact sets_of_updateAccount hsender

lemma runs_preExecutionChecks {u : Unit} (h : Runs (preExecutionChecks env tx) rows u rows') :
    rows = rows' := by
  simp only [preExecutionChecks, runs_bind, runs_check, runs_loadSenderAccountState] at h
  obtain ⟨_, _, ⟨-, rfl⟩, _, _, ⟨-, rfl⟩, _, _, ⟨-, rfl⟩, _, _, ⟨-, rfl⟩, _, _, ⟨-, rfl⟩, -, h⟩ := h
  exact h

variable {receipt : Receipt}

lemma runs_generateReceipt {p : Performed} {refund : ℕ}
    (h : Runs (generateReceipt env tx p refund) rows receipt rows') :
    receipt.gasUsed = p.gasUsed ∧ rows = rows' := by
  simp only [generateReceipt, runs_bind, runs_get, runs_liftExcept, runs_pure] at h
  obtain ⟨_, _, ⟨rfl, rfl⟩, _, _, ⟨-, rfl⟩, _, _, ⟨-, rfl⟩, rfl, rfl⟩ := h
  refine ⟨?_, rfl⟩
  split_ifs <;> rfl

lemma runs_executePipeline (h : Runs (executePipeline env tx) rows receipt rows') :
    ∃ s p rows₁ rows₂ refund, accountAt rows.view tx.fromAddr = some s ∧ s.nonce = tx.nonce ∧
      tx.gasCost ≤ s.balance ∧
      Runs (performTransferOrContractExecution env tx
        { s with balance := s.balance - tx.gasCost } (tx.toAddr.map (accountOf rows.view)))
        rows p rows₁ ∧
      Runs (storeAccounts tx p) rows₁ () rows₂ ∧
      Runs (refundUnusedGas tx tx.gasCost p.gasUsed) rows₂ refund rows' ∧
      receipt.gasUsed = p.gasUsed := by
  simp only [executePipeline, runs_bind, runs_check, runs_liftExcept,
    runs_loadSenderAccountState, checkNonceCorrectness, bailIf_ok, deductUpfrontGasFee, bind_ok,
    okOr_ok, pure_ok, checkedSub_eq_some, not_not] at h
  obtain ⟨_, _, hpre, _, _, ⟨-, rfl⟩, s, _, ⟨hs, rfl⟩, _, _, hrecipient, _, _, ⟨hnonce, rfl⟩, _, _,
    ⟨-, rfl⟩, _, _, ⟨⟨_, ⟨hcost, rfl⟩, rfl⟩, rfl⟩, p, rows₁, hperform, _, rows₂, hstore, refund,
    _, hrefund, hreceipt⟩ := h
  obtain rfl := runs_preExecutionChecks hpre
  obtain ⟨rfl, rfl⟩ := runs_loadRecipientAccountState hrecipient
  obtain ⟨hgas, rfl⟩ := runs_generateReceipt hreceipt
  exact ⟨s, p, rows₁, rows₂, refund, hs, hnonce, hcost, hperform, hstore, hrefund, hgas⟩

/-! ### Runs of the pipeline -/

structure Step where
  before : StateRows
  tx : Transaction
  receipt : Receipt
  after : StateRows

def Step.fee (s : Step) : ℕ := s.receipt.gasUsed * s.tx.gasPrice

/-- The transactions of a list that are included, one after the other; the first error stops
the run. -/
def steps (env : PipelineEnv) : StateRows → List Transaction → List Step
  | _, [] => []
  | rows, tx :: txs =>
    match (executePipeline env tx).run rows with
    | (.ok receipt, after) => ⟨rows, tx, receipt, after⟩ :: steps env after txs
    | (.error _, _) => []

def lastRows (rows : StateRows) (l : List Step) : StateRows := l.foldl (fun _ s => s.after) rows

/-- `execute_transactions` comes to its end if all transactions are included. -/
theorem runs_executeTransactions {txs : List Transaction} {receipts : List Receipt} :
    Runs (executeTransactions env txs) rows receipts rows' ↔
      (steps env rows txs).map Step.tx = txs ∧
        (steps env rows txs).map Step.receipt = receipts ∧
        lastRows rows (steps env rows txs) = rows' := by
  induction txs generalizing rows receipts with
  | nil => simp [executeTransactions, steps, lastRows]
  | cons tx txs ih =>
    simp only [executeTransactions, runs_bind, runs_pure, steps]
    rcases hrun : (executePipeline env tx).run rows with ⟨e | receipt, after⟩
    · constructor
      · rintro ⟨receipt, rows₁, h, -⟩
        cases hrun.symm.trans h
      · rintro ⟨h, -⟩
        simp at h
    · constructor
      · rintro ⟨receipt', rows₁, h, rest, _, hrest, rfl, rfl⟩
        obtain ⟨rfl, rfl⟩ := Runs.unique hrun h
        obtain ⟨htxs, rfl, rfl⟩ := ih.1 hrest
        simpa [lastRows] using htxs
      · rintro ⟨htxs, rfl, rfl⟩
        exact ⟨receipt, after, hrun, _, _, ih.2 ⟨by simpa using htxs, rfl, rfl⟩, rfl, rfl⟩

/-- The sender's balance once the value has moved and before any fee is taken. -/
def balanceBeforeGas (env : PipelineEnv) (rows : StateRows) (tx : Transaction) : ℕ :=
  if tx.isContract then
    balanceOf ((runContract env tx).run rows).2.view tx.fromAddr
  else if tx.toAddr = some tx.fromAddr then balanceOf rows.view tx.fromAddr
  else balanceOf rows.view tx.fromAddr - tx.value

/-- An included transaction takes its fee out of the balances and raises the sender's nonce.
What is given back of the gas leaves the sender with the fee paid, and a transfer to oneself
does nothing else. -/
structure PaysFee (env : PipelineEnv) (s : Step) : Prop where
  total : TotalShift (balanceOf s.before.view) (balanceOf s.after.view) (-(s.fee : ℤ))
  nonce : nonceOf s.after.view s.tx.fromAddr = nonceOf s.before.view s.tx.fromAddr + 1
  refund : balanceOf s.after.view s.tx.fromAddr + s.fee = balanceBeforeGas env s.before s.tx
  self : s.tx.isContract = false → s.tx.toAddr = some s.tx.fromAddr →
    Sets s.before s.after s.tx.fromAddr
      (some { accountOf s.before.view s.tx.fromAddr with
        balance := balanceOf s.before.view s.tx.fromAddr - s.fee
        nonce := nonceOf s.before.view s.tx.fromAddr + 1 })

/-- A plain transfer goes to another account; a contract transaction uses up the gas that it
has paid for. -/
def Settled (env : PipelineEnv) (rows : StateRows) (tx : Transaction) : Prop :=
  if tx.isContract then ∀ r rows₁, Runs (runContract env tx) rows r rows₁ →
    tx.gasPrice * r.gasUsed = tx.gasCost
  else tx.toAddr ≠ some tx.fromAddr

/-! ### One transaction -/

lemma Transaction.exists_toAddr (hplain : tx.isContract = false) :
    ∃ dest, tx.toAddr = some dest := by
  rw [← Option.isSome_iff_exists, ← Option.not_isNone]
  simp [isContract, isContractCreation] at hplain
  simp [hplain.1]

section

variable (h : Runs (executePipeline env tx) rows receipt rows')

include h

lemma plain_effect (hplain : tx.isContract = false) :
    ∃ dest, tx.toAddr = some dest ∧
      tx.gasCost + tx.value ≤ balanceOf rows.view tx.fromAddr ∧
      tx.gasPrice * receipt.gasUsed ≤ tx.gasCost ∧
      (∃ b, b = Function.update (Function.update (balanceOf rows.view) tx.fromAddr
          (balanceOf rows.view tx.fromAddr - tx.gasCost - tx.value)) dest
          (balanceOf rows.view dest + tx.value) ∧
        balanceOf rows'.view = Function.update b tx.fromAddr
          (b tx.fromAddr + (tx.gasCost - tx.gasPrice * receipt.gasUsed))) ∧
      nonceOf rows'.view tx.fromAddr =
        nonceOf rows.view tx.fromAddr + if dest = tx.fromAddr then 0 else 1 := by
  obtain ⟨s, p, rows₁, rows₂, refund, hs, -, hcost, hperform, hstore, hrefund, hgas⟩ :=
    runs_executePipeline h
  obtain ⟨dest, hto⟩ := Transaction.exists_toAddr hplain
  rw [hto, Option.map_some] at hperform
  obtain ⟨rfl, hvalue, rfl⟩ := runs_perform_plain hplain hperform
  obtain ⟨rows₃, hsender, hdest⟩ := runs_storeAccounts_plain hplain hto hstore
  obtain ⟨hle, rfl, hbalances, hnonce⟩ := runs_refundUnusedGas hrefund
  simp only at hvalue hgas hbalances hsender hdest
  rw [hgas, balanceOf_eq hs]
  refine ⟨dest, hto, by omega, hle, ⟨_, ?_, hbalances⟩, ?_⟩
  · rw [balanceOf_sets hdest, balanceOf_sets hsender]
    rfl
  · rw [hnonce]
    split_ifs with hself
    · subst hself
      rw [nonceOf_eq hdest.self]
      rfl
    · have hat := (hdest tx.fromAddr).trans ((if_neg (Ne.symm hself)).trans hsender.self)
      rw [nonceOf_eq hat, nonceOf_eq hs]

/-- A plain transfer pays its fee if it goes to another account. To oneself it writes the
recipient's copy over the sender's row, with the nonce as it was. -/
lemma paysFee_plain_iff (hplain : tx.isContract = false) :
    PaysFee env ⟨rows, tx, receipt, rows'⟩ ↔ tx.toAddr ≠ some tx.fromAddr := by
  obtain ⟨dest, hto, hfunds, hle, ⟨b, hb, hbalances⟩, hnonce⟩ := plain_effect h hplain
  have hfee : Step.fee ⟨rows, tx, receipt, rows'⟩ = tx.gasPrice * receipt.gasUsed :=
    Nat.mul_comm _ _
  constructor
  · intro hpays hself
    have hraised := hpays.nonce
    rw [hto, Option.some.injEq] at hself
    rw [if_pos hself] at hnonce
    simp only at hraised
    omega
  · intro hself
    have hne : dest ≠ tx.fromAddr := by
      rintro rfl
      exact hself hto
    have hfrom : b tx.fromAddr =
        balanceOf rows.view tx.fromAddr - tx.gasCost - tx.value := by
      rw [hb, Function.update_of_ne hne.symm, Function.update_self]
    constructor
    · have hshift := ((totalShift_update (balanceOf rows.view) tx.fromAddr
        (balanceOf rows.view tx.fromAddr - tx.gasCost - tx.value)).trans
        (totalShift_update _ dest (balanceOf rows.view dest + tx.value))).trans
        (totalShift_update _ tx.fromAddr
          (b tx.fromAddr + (tx.gasCost - tx.gasPrice * receipt.gasUsed)))
      rw [← hb, ← hbalances, Function.update_of_ne hne, hfrom] at hshift
      convert hshift using 1
      rw [hfee]
      omega
    · rw [hnonce, if_neg hne]
    · simp only [balanceBeforeGas, hplain, Bool.false_eq_true, if_false, if_neg hself, hfee]
      rw [hbalances, Function.update_self, hfrom]
      omega
    · intro _ h
      exact absurd h hself

/-- A transfer to oneself mints its value and the whole upfront fee, less the fee it owes. -/
lemma totalShift_self (hplain : tx.isContract = false) (hself : tx.toAddr = some tx.fromAddr) :
    TotalShift (balanceOf rows.view) (balanceOf rows'.view)
      (tx.value + tx.gasCost - tx.gasPrice * receipt.gasUsed) := by
  obtain ⟨dest, hto, -, hle, ⟨b, hb, hbalances⟩, -⟩ := plain_effect h hplain
  obtain rfl : tx.fromAddr = dest := Option.some.inj (hself.symm.trans hto)
  have hshift := totalShift_update (balanceOf rows.view) tx.fromAddr
    (b tx.fromAddr + (tx.gasCost - tx.gasPrice * receipt.gasUsed))
  rw [Function.update_idem] at hb
  rw [hb, Function.update_idem, Function.update_self] at hbalances
  rw [hb, Function.update_self, ← hbalances] at hshift
  convert hshift using 1
  omega

/-- What a contract transaction does: revm commits, then the sender is charged for the used gas,
and then the unused gas is paid out. -/
lemma contract_effect (hcontract : tx.isContract = true) :
    ∃ r rows₁, Runs (runContract env tx) rows r rows₁ ∧
      receipt.gasUsed = r.gasUsed ∧ tx.gasPrice * r.gasUsed ≤ tx.gasCost ∧
      tx.gasPrice * r.gasUsed ≤ balanceOf rows₁.view tx.fromAddr ∧
      balanceOf rows'.view = Function.update (balanceOf rows₁.view) tx.fromAddr
        (balanceOf rows₁.view tx.fromAddr - tx.gasPrice * r.gasUsed +
          (tx.gasCost - tx.gasPrice * r.gasUsed)) ∧
      nonceOf rows'.view tx.fromAddr = nonceOf rows.view tx.fromAddr + 1 := by
  obtain ⟨s, p, rows₁, rows₂, refund, hs, hsnonce, -, hperform, hstore, hrefund, hgas⟩ :=
    runs_executePipeline h
  obtain ⟨r, y, hrun, hy, hynonce, hcharge, rfl⟩ := runs_perform_contract hcontract hperform
  have hsender := runs_storeAccounts_contract hcontract hstore
  obtain ⟨hle, rfl, hbalances, hnonce⟩ := runs_refundUnusedGas hrefund
  simp only at hle hgas hbalances hsender
  refine ⟨r, rows₁, hrun, hgas, hle, ?_, ?_, ?_⟩
  · rw [balanceOf_eq hy]
    exact hcharge
  · rw [hbalances, balanceOf_sets hsender, Function.update_idem, Function.update_self,
      balanceOf_eq hy]
  · rw [hnonce, nonceOf_eq hsender.self, nonceOf_eq hs, hsnonce]
    exact hynonce

variable (henv : EvmConserves env)
  (hdeploy : tx.toAddr = none → DeployApart env rows tx)

include henv hdeploy

/-- The unused gas of a contract transaction is new money. -/
lemma totalShift_contract (hcontract : tx.isContract = true) :
    TotalShift (balanceOf rows.view) (balanceOf rows'.view)
      (tx.gasCost - 2 * (tx.gasPrice * receipt.gasUsed)) := by
  obtain ⟨r, rows₁, hrun, hgas, hle, hcharge, hbalances, -⟩ := contract_effect h hcontract
  have hshift := (runContract_shift henv hdeploy hrun).trans
    (totalShift_update (balanceOf rows₁.view) tx.fromAddr
      (balanceOf rows₁.view tx.fromAddr - tx.gasPrice * r.gasUsed +
        (tx.gasCost - tx.gasPrice * r.gasUsed)))
  rw [← hbalances] at hshift
  convert hshift using 1
  rw [hgas]
  omega

lemma paysFee_contract_iff (hcontract : tx.isContract = true) :
    PaysFee env ⟨rows, tx, receipt, rows'⟩ ↔ ∀ r rows₁,
      Runs (runContract env tx) rows r rows₁ →
        tx.gasPrice * r.gasUsed = tx.gasCost := by
  have hshift := totalShift_contract h henv hdeploy hcontract
  obtain ⟨r, rows₁, hrun, hgas, hle, hcharge, hbalances, hnonce⟩ := contract_effect h hcontract
  have hfee : Step.fee ⟨rows, tx, receipt, rows'⟩ = tx.gasPrice * r.gasUsed := by
    rw [Step.fee, hgas, Nat.mul_comm]
  rw [hgas] at hshift
  constructor
  · intro hpays r' rows₁' hrun'
    obtain ⟨rfl, rfl⟩ := hrun.unique hrun'
    have hexcess := hpays.total.unique hshift
    rw [hfee] at hexcess
    omega
  · intro hused
    have hcost := hused r rows₁ hrun
    constructor
    · convert hshift using 1
      rw [hfee]
      omega
    · exact hnonce
    · have hafter : ((runContract env tx).run rows).2 = rows₁ :=
        congrArg Prod.snd hrun
      simp only [balanceBeforeGas, hcontract, if_true, hfee, hafter]
      rw [hbalances, Function.update_self]
      omega
    · intro hplain
      simp [hcontract] at hplain

theorem paysFee_iff : PaysFee env ⟨rows, tx, receipt, rows'⟩ ↔ Settled env rows tx := by
  unfold Settled
  split_ifs with hcontract
  · exact paysFee_contract_iff h henv hdeploy hcontract
  · exact paysFee_plain_iff h (by simpa using hcontract)

end

/-! ### The whole list -/

lemma of_mem_steps {txs : List Transaction} {s : Step} (h : s ∈ steps env rows txs) :
    s.tx ∈ txs ∧ Runs (executePipeline env s.tx) s.before s.receipt s.after := by
  induction txs generalizing rows with
  | nil => simp [steps] at h
  | cons tx txs ih =>
    rw [steps] at h
    split at h
    · next receipt after hrun =>
      rcases List.mem_cons.1 h with rfl | h
      · exact ⟨List.mem_cons_self, hrun⟩
      · exact ⟨List.mem_cons_of_mem tx (ih h).1, (ih h).2⟩
    · simp at h

lemma totalShift_steps {txs : List Transaction}
    (h : ∀ s ∈ steps env rows txs, TotalShift (balanceOf s.before.view) (balanceOf s.after.view)
      (-(s.fee : ℤ))) :
    TotalShift (balanceOf rows.view) (balanceOf (lastRows rows (steps env rows txs)).view)
      (-(((steps env rows txs).map Step.fee).sum : ℤ)) := by
  induction txs generalizing rows with
  | nil => exact TotalShift.refl _
  | cons tx txs ih =>
    rw [steps] at h ⊢
    split at h
    · next receipt after hrun =>
      obtain ⟨hfirst, hrest⟩ := List.forall_mem_cons.1 h
      rw [List.map_cons, List.sum_cons, Nat.cast_add, neg_add]
      exact hfirst.trans (ih hrest)
    · exact TotalShift.refl _

/-- Over any list of transactions the balances lose exactly the fees, every included
transaction pays its fee and raises its sender's nonce, exactly if every included transaction
is settled. -/
theorem pipeline_conserves_iff (henv : EvmConserves env) (txs : List Transaction)
    (hdeploy : ∀ s ∈ steps env rows txs, s.tx.toAddr = none →
      DeployApart env s.before s.tx) :
    (TotalShift (balanceOf rows.view) (balanceOf (lastRows rows (steps env rows txs)).view)
        (-(((steps env rows txs).map Step.fee).sum : ℤ)) ∧
      ∀ s ∈ steps env rows txs, PaysFee env s) ↔
    ∀ s ∈ steps env rows txs, Settled env s.before s.tx := by
  have hstep : ∀ s ∈ steps env rows txs, PaysFee env s ↔ Settled env s.before s.tx :=
    fun s hs => paysFee_iff (of_mem_steps hs).2 henv (hdeploy s hs)
  constructor
  · rintro ⟨-, hpays⟩ s hs
    exact (hstep s hs).1 (hpays s hs)
  · intro hsettled
    have hpays : ∀ s ∈ steps env rows txs, PaysFee env s :=
      fun s hs => (hstep s hs).2 (hsettled s hs)
    exact ⟨totalShift_steps fun s hs => (hpays s hs).total, hpays⟩

/-! ### Instances -/

def payingPipeline : PipelineEnv where
  toExecutionEnv := payingEnv
  verifySignature := fun _ => .ok true
  envelopeChainId := fun _ => .ok chainIdMainnet
  addressOfPubkey := fun key => key
  stateRoot := fun _ => 0

def twoRows : StateRows :=
  (AList.insert (.account 1) (.account { Account.new 1 with balance := 1000 }) ∅ :
    StateRows).insert (.account 2) (.account { Account.new 2 with codeHash := 7 })

def signedPayment (dest value gasLimit nonce : ℕ) (data : List UInt8) : Transaction :=
  { payment dest value gasLimit nonce data with
    signerPubkey := some 1
    signature := some 0
    chainId := some chainIdMainnet }

def Step.shown (s : Step) : ℕ × ℕ × ℕ := (s.fee, balanceOf s.after.view 1, nonceOf s.after.view 1)

/-- Two transfers of 5 cost 210 each besides. -/
theorem transfers_conserve :
    (steps payingPipeline twoRows [signedPayment 2 5 300 0 [], signedPayment 2 5 300 1 []]).map
      Step.shown = [(210, 785, 1), (210, 570, 2)] ∧
    ∀ s ∈ steps payingPipeline twoRows [signedPayment 2 5 300 0 [], signedPayment 2 5 300 1 []],
      PaysFee payingPipeline s := by
  have hplain : ∀ tx ∈ [signedPayment 2 5 300 0 [], signedPayment 2 5 300 1 []],
      tx.isContract = false ∧ tx.toAddr ≠ none ∧ tx.toAddr ≠ some tx.fromAddr := by decide
  refine ⟨by decide +kernel, ((pipeline_conserves_iff evmConserves_paying _ ?_).2 ?_).2⟩
  · intro s hs hnone
    exact absurd hnone (hplain s.tx (of_mem_steps hs).1).2.1
  · intro s hs
    obtain ⟨hkind, -, hother⟩ := hplain s.tx (of_mem_steps hs).1
    rw [Settled, hkind]
    exact hother

lemma of_steps_eq_singleton {s : Step} (h : steps env rows [tx] = [s]) :
    s.tx = tx ∧ Runs (executePipeline env tx) rows s.receipt s.after := by
  rw [steps] at h
  split at h
  · next receipt after hrun =>
    rw [steps, List.cons.injEq] at h
    rw [← h.1]
    exact ⟨rfl, hrun⟩
  · simp at h

/-- A transfer of 5 to oneself leaves 1095 of 1000 and the nonce as it was. A call that pays 5
and has used 21 of its gas leaves 1253. -/
theorem self_transfer_and_call_mint : EvmConserves payingPipeline ∧
    ((steps payingPipeline twoRows [signedPayment 1 5 300 0 []]).map Step.shown =
        [(210, 1095, 0)] ∧
      ∀ s ∈ steps payingPipeline twoRows [signedPayment 1 5 300 0 []],
        ¬ TotalShift (balanceOf twoRows.view) (balanceOf s.after.view) (-(s.fee : ℤ))) ∧
    (steps payingPipeline twoRows [signedPayment 2 5 300 0 [1]]).map Step.shown =
        [(21, 1253, 1)] ∧
      ∀ s ∈ steps payingPipeline twoRows [signedPayment 2 5 300 0 [1]],
        ¬ TotalShift (balanceOf twoRows.view) (balanceOf s.after.view) (-(s.fee : ℤ)) := by
  have hself : (steps payingPipeline twoRows [signedPayment 1 5 300 0 []]).map Step.shown =
      [(210, 1095, 0)] := by decide +kernel
  have hcall : (steps payingPipeline twoRows [signedPayment 2 5 300 0 [1]]).map Step.shown =
      [(21, 1253, 1)] := by decide +kernel
  refine ⟨evmConserves_paying, ⟨hself, ?_⟩, hcall, ?_⟩
  · obtain ⟨s, hs, hshown⟩ := List.map_eq_singleton_iff.1 hself
    obtain ⟨htx, hrun⟩ := of_steps_eq_singleton hs
    rw [hs, List.forall_mem_singleton]
    intro htotal
    have huniq := htotal.unique (totalShift_self hrun rfl rfl)
    have hcost : (signedPayment 1 5 300 0 []).gasCost = 300 := by decide
    rw [Step.fee, htx, hcost] at huniq
    simp only [signedPayment, payment] at huniq
    omega
  · obtain ⟨s, hs, hshown⟩ := List.map_eq_singleton_iff.1 hcall
    obtain ⟨htx, hrun⟩ := of_steps_eq_singleton hs
    rw [hs, List.forall_mem_singleton]
    intro htotal
    have huniq := htotal.unique
      (totalShift_contract hrun evmConserves_paying (fun h => by cases h) rfl)
    have hcost : (signedPayment 2 5 300 0 [1]).gasCost = 300 := by decide
    have hfee : s.receipt.gasUsed * s.tx.gasPrice = 21 := congrArg Prod.fst hshown
    rw [htx] at hfee
    rw [Step.fee, htx, hcost] at huniq
    simp only [signedPayment, payment] at huniq hfee
    omega

end Sxiaum
