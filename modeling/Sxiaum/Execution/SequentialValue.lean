import Sxiaum.Execution.EvmValue
import Sxiaum.Execution.Sequential

/-!
# Value on the state database

What the operations of the state database and a run of revm through `StateDbBackend` do to
the accounts. Writing an account sets it and leaves the others; `commit` leaves every touched
account as revm has left it, so a run of revm moves value without loss.
-/

namespace Sxiaum

open Guards Ledger StateDbBackend StateProgram

variable {env : PipelineEnv} {rows rows' : StateRows} {m : AddressMap} {tx : Transaction}

/-! ### Rows and accounts -/

def StateRows.view (rows : StateRows) (k : StateKey) : Option StateRow := rows.lookup k

variable {a : Address}

lemma stateRows_getAccount_ok {x : Option Account} :
    rows.getAccount a = .ok x ↔ Readable rows.view a ∧ x = accountAt rows.view a := by
  unfold StateRows.getAccount Readable accountAt StateRows.view
  generalize rows.lookup (.account a) = stored
  rcases stored with - | row
  · simp [eq_comm]
  · simp only [Option.some.injEq, forall_eq', Option.bind_some, StateRow.account?]
    cases decodeAccount row with
    | error e => simp [Except.map]
    | ok account => simp [Except.map, Except.toOption, eq_comm]

/-- `rows'` has the account `x` at `a` and else the accounts of `rows`. -/
def Sets (rows rows' : StateRows) (a : Address) (x : Option Account) : Prop :=
  ∀ b, accountAt rows'.view b = if b = a then x else accountAt rows.view b

lemma Sets.self {x : Option Account} (h : Sets rows rows' a x) :
    accountAt rows'.view a = x := (h a).trans (if_pos rfl)

lemma Sets.trans {rows'' : StateRows} {x y : Option Account}
    (h₁ : Sets rows rows' a x) (h₂ : Sets rows' rows'' a y) : Sets rows rows'' a y := by
  intro b
  rw [h₂ b, h₁ b]
  split_ifs <;> rfl

lemma accountAt_insert_of_ne {k : StateKey} {row : StateRow} (hk : ∀ a, k ≠ .account a)
    (a : Address) : accountAt (StateRows.view (rows.insert k row)) a = accountAt rows.view a := by
  unfold accountAt StateRows.view
  rw [AList.lookup_insert_ne (hk a).symm]

variable {x : Account}

lemma sets_insert (hvalid : x.validate = .ok ()) :
    Sets rows (rows.insert (.account a) (.account x)) a (some x) := by
  intro b
  unfold accountAt StateRows.view
  split_ifs with hb
  · rw [hb, AList.lookup_insert]
    exact StateRow.account?_eq_some.2 ⟨rfl, hvalid⟩
  · rw [AList.lookup_insert_ne (by simpa using hb)]

lemma balanceOf_sets (h : Sets rows rows' a (some x)) :
    balanceOf rows'.view = Function.update (balanceOf rows.view) a x.balance := by
  funext b
  by_cases hb : b = a
  · subst hb
    rw [Function.update_self]
    exact balanceOf_eq h.self
  · rw [Function.update_of_ne hb]
    exact balanceOf_congr ((h b).trans (if_neg hb))

/-! ### The operations of the state database -/

lemma runs_check {α : Type} {x : Except String α} {a : α} :
    Runs (Seq.check x) rows a rows' ↔ x = .ok a ∧ rows = rows' := by
  rw [Seq.check, runs_liftExcept, mapError_eq_ok]

lemma runs_account {α : Type} {x : Except AccountError α} {a : α} :
    Runs (Seq.account x) rows a rows' ↔ x = .ok a ∧ rows = rows' := by
  rw [Seq.account, runs_liftExcept, mapError_eq_ok]

lemma runs_require {α : Type} {x : Option α} {e : ExecutionError} {a : α} :
    Runs (Seq.require x e) rows a rows' ↔ x = some a ∧ rows = rows' := by
  rw [Seq.require, runs_liftExcept]
  cases x <;> simp [okOr]

lemma runs_getAccount {x : Option Account} :
    Runs (StateDb.getAccount a) rows x rows' ↔
      (Readable rows.view a ∧ x = accountAt rows.view a) ∧ rows = rows' := by
  simp only [StateDb.getAccount, runs_bind, runs_get, runs_liftExcept, stateRows_getAccount_ok]
  constructor
  · rintro ⟨_, _, ⟨rfl, rfl⟩, h, rfl⟩
    exact ⟨h, rfl⟩
  · rintro ⟨h, rfl⟩
    exact ⟨_, _, ⟨rfl, rfl⟩, h, rfl⟩

lemma runs_updateAccount {u : Unit} :
    Runs (StateDb.updateAccount a x) rows u rows' ↔
      x.validate = .ok () ∧ x.address = a ∧ rows.insert (.account a) (.account x) = rows' := by
  simp only [StateDb.updateAccount, runs_bind, runs_account, runs_guard, runs_modify, not_not]
  constructor
  · rintro ⟨⟨⟩, _, ⟨hvalid, rfl⟩, haddress, h⟩
    exact ⟨hvalid, haddress, h⟩
  · rintro ⟨hvalid, haddress, h⟩
    exact ⟨(), _, ⟨hvalid, rfl⟩, haddress, h⟩

lemma sets_of_updateAccount {u : Unit}
    (h : Runs (StateDb.updateAccount a x) rows u rows') : Sets rows rows' a (some x) := by
  obtain ⟨hvalid, -, rfl⟩ := runs_updateAccount.1 h
  exact sets_insert hvalid

lemma accountAt_setCode {codeHash : Hash} {code : List UInt8} {u : Unit}
    (h : Runs (StateDb.setCode codeHash code) rows u rows') (a : Address) :
    accountAt rows'.view a = accountAt rows.view a := by
  simp only [StateDb.setCode, runs_guard, runs_modify] at h
  obtain ⟨-, -, -, rfl⟩ := h
  exact accountAt_insert_of_ne (by simp) a

lemma sets_of_setStorage {slot value : Hash} {u : Unit} (hx : accountAt rows.view a = some x)
    (h : Runs (StateDb.setStorage env a slot value) rows u rows') :
    ∃ y, SameFunds x y ∧ Sets rows rows' a (some y) := by
  simp only [StateDb.setStorage, runs_bind, runs_modify, runs_getAccount, runs_get,
    runs_account] at h
  obtain ⟨⟨⟩, rows₁, hrows₁, stored, _, ⟨⟨-, hstored⟩, rfl⟩, _, _, ⟨rfl, rfl⟩, root, _,
    ⟨-, rfl⟩, y, _, ⟨hroot, rfl⟩, hupdate⟩ := h
  have hsame : ∀ b, accountAt rows₁.view b = accountAt rows.view b := by
    intro b
    subst hrows₁
    split_ifs
    · unfold accountAt StateRows.view
      rw [AList.lookup_erase_ne (by simp)]
    · exact accountAt_insert_of_ne (by simp) b
  have hsets := sets_of_updateAccount hupdate
  rw [hstored, hsame, hx] at hroot
  refine ⟨y, sameFunds_setStorageRoot hroot, fun b => ?_⟩
  rw [hsets b, hsame b]

/-! ### What revm commits -/

/-- The account that `commit` leaves for a touched account. -/
def RevmAccount.Leaves (t : RevmAccount) : Option Account → Prop
  | none => t.selfdestructed = true
  | some a => t.selfdestructed = false ∧ a.balance = t.balance ∧ a.nonce = t.nonce

variable {s : StateDbBackend.CommitState}

/-- An operation of `commit` that leaves no error has run, and there was none before. -/
lemma attempt_none {context : String} {address : Address} {p : Seq Unit}
    (h : (attempt context address p s).1 = none) :
    s.1 = none ∧ Runs p s.2 () (attempt context address p s).2 := by
  unfold attempt at h ⊢
  rcases hp : p.run s.2 with ⟨e | u, rows₁⟩
  · rw [hp] at h
    simp at h
  · rw [hp] at h
    exact ⟨h, hp⟩

/-- No error at the end of a loop over `commit` operations means none at its start. -/
lemma foldl_none {β : Type} {f : StateDbBackend.CommitState → β → StateDbBackend.CommitState}
    (hf : ∀ s x, (f s x).1 = none → s.1 = none) {l : List β} {s : StateDbBackend.CommitState}
    (h : (l.foldl f s).1 = none) : s.1 = none := by
  induction l generalizing s with
  | nil => exact h
  | cons x l ih => exact hf s x (ih h)

lemma sets_deleteAccount (a : Address) : Sets rows (rows.deleteAccount a) a none := by
  intro b
  unfold accountAt StateRows.view StateRows.deleteAccount
  rw [AList.lookup_retain]
  split_ifs with hb
  · subst hb
    cases rows.lookup (.account b) <;> simp
  · cases rows.lookup (.account b) <;> simp [hb, Occ.isSlotOf, Option.filter]

lemma sets_of_slots {slots : List (Hash × Hash)} (hx : accountAt s.2.view a = some x)
    (h : (slots.foldl (fun s slot => attempt "storage write failed" a
      (StateDb.setStorage env a slot.1 slot.2) s) s).1 = none) :
    ∃ y, SameFunds x y ∧ Sets s.2 (slots.foldl (fun s slot =>
      attempt "storage write failed" a
        (StateDb.setStorage env a slot.1 slot.2) s) s).2 a (some y) := by
  induction slots generalizing s x with
  | nil =>
    refine ⟨x, ⟨rfl, rfl, id⟩, fun b => ?_⟩
    split_ifs with hb
    · rw [hb]
      exact hx
    · rfl
  | cons slot slots ih =>
    rw [List.foldl_cons] at h ⊢
    have hfirst := foldl_none (fun s slot hs => (attempt_none hs).1) h
    obtain ⟨y, hxy, hsets⟩ := sets_of_setStorage hx (attempt_none hfirst).2
    obtain ⟨z, hyz, hrest⟩ := ih hsets.self h
    exact ⟨z, hxy.trans hyz, hsets.trans hrest⟩

lemma runs_storeCode {code : Option (List UInt8)} {x y : Account}
    (h : Runs (storeCode env code x) rows y rows') :
    SameFunds x y ∧ ∀ a, accountAt rows'.view a = accountAt rows.view a := by
  unfold storeCode at h
  split at h
  · simp only [runs_bind, runs_liftExcept, runs_adapt, mapError_eq_ok] at h
    obtain ⟨u, rows₁, hset, hhash, rfl⟩ := h
    exact ⟨(recoded_setCodeHash hhash).toSameFunds, accountAt_setCode hset⟩
  · obtain ⟨rfl, rfl⟩ := runs_pure.1 h
    exact ⟨⟨rfl, rfl, id⟩, fun _ => rfl⟩

lemma commitAccount_sets {c : RevmAddress × RevmAccount}
    (h : (commitAccount env m s c).1 = none) :
    s.1 = none ∧ ∃ x, c.2.Leaves x ∧
      Sets s.2 (commitAccount env m s c).2 (m.resolve c.1) x := by
  unfold commitAccount at h ⊢
  by_cases hdestroyed : c.2.selfdestructed = true
  · rw [if_pos hdestroyed] at h ⊢
    exact ⟨h, none, hdestroyed, sets_deleteAccount _⟩
  · rw [if_neg hdestroyed] at h ⊢
    rcases hget : s.2.getAccount (m.resolve c.1) with e | stored
    · rw [hget] at h
      simp at h
    · rw [hget] at h
      simp only at h ⊢
      rcases hcode : (storeCode env c.2.code
          { stored.getD (Account.new (m.resolve c.1)) with
            balance := c.2.balance
            nonce := c.2.nonce }).run s.2 with ⟨⟨context, e⟩ | x, rows₁⟩
      · rw [hcode] at h
        simp at h
      · rw [hcode] at h
        have hfirst := foldl_none (fun s slot hs => (attempt_none hs).1) h
        obtain ⟨hnone, hupdate⟩ := attempt_none hfirst
        obtain ⟨hsame, hacc⟩ := runs_storeCode hcode
        have hsets := sets_of_updateAccount hupdate
        obtain ⟨y, hxy, hslots⟩ := sets_of_slots hsets.self h
        have hfunds := hsame.trans hxy
        refine ⟨hnone, some y, ⟨by simpa using hdestroyed, hfunds.balance, hfunds.nonce⟩,
          fun b => ?_⟩
        rw [hsets.trans hslots b, hacc b]

lemma commit_sets {changes : List (RevmAddress × RevmAccount)}
    (hnd : (changes.map fun c => m.resolve c.1).Nodup)
    (h : (changes.foldl (commitAccount env m) s).1 = none) :
    (∀ c ∈ changes, c.2.Leaves (accountAt
      (changes.foldl (commitAccount env m) s).2.view
      (m.resolve c.1))) ∧
    ∀ b, b ∉ changes.map (fun c => m.resolve c.1) →
      accountAt (changes.foldl (commitAccount env m) s).2.view b =
        accountAt s.2.view b := by
  induction changes generalizing s with
  | nil => simp
  | cons c changes ih =>
    rw [List.map_cons, List.nodup_cons] at hnd
    obtain ⟨hfresh, hnd⟩ := hnd
    rw [List.foldl_cons] at h ⊢
    obtain ⟨-, x, hx, hsets⟩ :=
      commitAccount_sets (foldl_none (fun s c hs => (commitAccount_sets hs).1) h)
    obtain ⟨hin, hout⟩ := ih hnd h
    refine ⟨List.forall_mem_cons.2 ⟨?_, hin⟩, fun b hb => ?_⟩
    · rw [hout _ hfresh, hsets.self]
      exact hx
    · rw [List.map_cons, List.mem_cons, not_or] at hb
      rw [hout b hb.2, hsets b, if_neg hb.1]

lemma balanceOf_of_leaves {t : RevmAccount}
    (h : t.Leaves (accountAt rows.view a)) : balanceOf rows.view a = t.finalBalance := by
  rcases hat : accountAt rows.view a with - | x
  · rw [hat] at h
    have hdestroyed : t.selfdestructed = true := h
    rw [balanceOf, accountOf, hat, RevmAccount.finalBalance, if_pos hdestroyed]
    rfl
  · rw [hat] at h
    rw [balanceOf_eq hat, h.2.1, RevmAccount.finalBalance, if_neg (by simp [h.1])]

lemma dbBalance_database (errorLabel : String) (a : RevmAddress) :
    dbBalance (database rows m errorLabel) a =
      balanceOf rows.view (m.resolve a) := by
  simp only [dbBalance, database, answer, StateRows.getAccount,
    balanceOf, accountOf, accountAt, StateRows.view]
  generalize rows.lookup (.account (m.resolve a)) = stored
  rcases stored with - | row
  · rfl
  · simp only [Option.bind_some, StateRow.account?]
    cases decodeAccount row <;> rfl

/-- A run of revm on the state database leaves every touched account as revm has left it and no
other account changed, if it keeps the touched accounts apart. -/
lemma runs_transactCommit (henv : EvmConserves env)
    {errorLabel commitLabel : String} {call : EvmCall} {t : EvmTransition}
    (h : Runs (transactCommit env m errorLabel commitLabel call)
      rows t rows')
    (hapart : EvmRuns env (database rows m errorLabel) call t →
      t.Apart m) :
    EvmRuns env (database rows m errorLabel) call t ∧
    (∀ c ∈ t.changes, c.2.Leaves (accountAt rows'.view (m.resolve c.1))) ∧
    ∀ b, b ∉ t.changes.map (fun c => m.resolve c.1) →
      accountAt rows'.view b = accountAt rows.view b := by
  simp only [transactCommit, runs_bind, runs_get, runs_liftExcept] at h
  obtain ⟨_, _, ⟨rfl, rfl⟩, outcome, _, ⟨hrun, rfl⟩, h⟩ := h
  cases outcome with
  | error text => simp at h
  | ok transition =>
    simp only [runs_bind, runs_set] at h
    obtain ⟨_, _, rfl, h⟩ := h
    split at h
    · simp at h
    · next hnone =>
      obtain ⟨rfl, rfl⟩ := runs_pure.1 h
      exact ⟨hrun, commit_sets (henv.nodup_resolved hrun (hapart hrun)) hnone⟩

/-- revm does not touch the contract of a deployment under both of its addresses. -/
def DeployApart (env : ExecutionEnv) (rows : StateRows) (tx : Transaction) : Prop :=
  ∀ m t, deployMap env tx = .ok m →
    EvmRuns env (StateDbBackend.database rows m "EVM deploy error") (deployCall env tx) t →
    t.Apart m

lemma balanceOf_recordDeployment_seq {target : Address} {bytes : List UInt8} {u : Unit}
    (h : Runs (recordDeployment env target bytes) rows u rows') :
    balanceOf rows'.view = balanceOf rows.view := by
  simp only [recordDeployment] at h
  split_ifs at h with hnil
  · rw [(runs_pure.1 h).2]
  · simp only [runs_bind, runs_getAccount] at h
    obtain ⟨stored, _, ⟨⟨-, rfl⟩, rfl⟩, h⟩ := h
    split at h
    · simp at h
    · next x hx =>
      split_ifs at h with hcontract
      · rw [(runs_pure.1 h).2]
      · simp only [runs_bind, runs_account] at h
        obtain ⟨_, rows₁, hcode, y, _, ⟨hset, rfl⟩, hupdate⟩ := h
        rw [balanceOf_sets (sets_of_updateAccount hupdate), (recoded_setCodeHash hset).balance,
          ← balanceOf_eq hx]
        have hsame : balanceOf rows₁.view = balanceOf rows.view :=
          funext fun b => balanceOf_congr (accountAt_setCode hcode b)
        rw [hsame, Function.update_eq_self]

def runContract (env : ExecutionEnv) (tx : Transaction) : Seq EvmExecutionResult :=
  if tx.isContractCreation then StateDbBackend.deployContract env tx
  else StateDbBackend.executeContractCall env tx

/-- The addresses and the call with which revm runs for a contract transaction. -/
inductive ContractCall (env : ExecutionEnv) (tx : Transaction) (m : AddressMap) :
    String → EvmCall → Prop where
  | deploy (create : tx.toAddr = none) (map : deployMap env tx = .ok m) :
    ContractCall env tx m "EVM deploy error" (deployCall env tx)
  | call (map : AddressMap.registerTx ∅ tx = .ok m) :
    ContractCall env tx m "EVM execution error" (Occ.evmCall env tx)

/-- The touched accounts of a call are apart; those of a deployment are if it says so. -/
lemma ContractCall.apart (henv : EvmConserves env)
    (hdeploy : tx.toAddr = none → DeployApart env rows tx) {errorLabel : String}
    {call : EvmCall} {t : EvmTransition}
    (hcall : ContractCall env tx m errorLabel call)
    (hrun : EvmRuns env (database rows m errorLabel) call t) :
    t.Apart m := by
  cases hcall with
  | deploy hcreate hmap => exact hdeploy hcreate m t hmap hrun
  | call hmap => exact henv.apart hrun hmap

lemma runs_runContract {r : EvmExecutionResult}
    (h : Runs (runContract env tx) rows r rows') :
    ∃ m errorLabel commitLabel call t rows₁, ContractCall env tx m errorLabel call ∧
      Runs (transactCommit env m errorLabel commitLabel call)
        rows t rows₁ ∧ balanceOf rows'.view = balanceOf rows₁.view := by
  unfold runContract at h
  split_ifs at h with hcreate
  · simp only [deployContract, runs_guard, runs_bind, runs_liftExcept] at h
    obtain ⟨-, -, m₁, _, ⟨h₁, rfl⟩, m₂, _, ⟨h₂, rfl⟩, t, rows₁, hrun, h⟩ := h
    have hmap : deployMap env tx = .ok (m₂.insert
        (env.createAddress (l1AddrToRevm tx.fromAddr) tx.nonce)
        (env.contractAddress tx.fromAddr tx.nonce)) := by
      simp only [deployMap, bind_ok, pure_ok]
      exact ⟨m₁, h₁, m₂, h₂, rfl⟩
    have hto : tx.toAddr = none := by simpa [Transaction.isContractCreation] using hcreate
    refine ⟨_, _, _, _, t, rows₁, .deploy hto hmap, hrun, ?_⟩
    split_ifs at h with hsuccess
    · simp only [runs_bind] at h
      obtain ⟨_, _, hrecord, h⟩ := h
      rw [← (runs_pure.1 h).2, balanceOf_recordDeployment_seq hrecord]
    · rw [← (runs_pure.1 h).2]
  · unfold executeContractCall at h
    split at h
    · simp at h
    · next target hto =>
      simp only [runs_bind, runs_getAccount] at h
      obtain ⟨stored, _, ⟨⟨-, rfl⟩, rfl⟩, h⟩ := h
      split at h
      · simp at h
      · simp only [runs_guard, runs_bind, runs_liftExcept] at h
        obtain ⟨-, m, _, ⟨hm, rfl⟩, t, rows₁, hrun, h⟩ := h
        rw [← (runs_pure.1 h).2]
        exact ⟨m, _, _, _, t, rows₁, .call hm, hrun, rfl⟩

theorem runContract_shift (henv : EvmConserves env)
    (hdeploy : tx.toAddr = none → DeployApart env rows tx)
    {r : EvmExecutionResult} (h : Runs (runContract env tx) rows r rows') :
    TotalShift (balanceOf rows.view) (balanceOf rows'.view) 0 := by
  obtain ⟨m, errorLabel, commitLabel, call, t, rows₁, hcall, hrun, hsame⟩ := runs_runContract h
  obtain ⟨hevm, hin, hout⟩ := runs_transactCommit henv hrun (hcall.apart henv hdeploy)
  rw [hsame]
  refine henv.totalShift hevm (hcall.apart henv hdeploy hevm) (dbBalance_database errorLabel)
    (fun c hc => ?_) fun a ha => ?_
  · exact balanceOf_of_leaves (hin c hc)
  · exact balanceOf_congr (hout a ha)

end Sxiaum
