import Sxiaum.Execution.Speculative
import Sxiaum.Lib.Guards

/-!
# Balances and nonces of a state

The balances of a state as a ledger, what a transaction reads of an account, and what a
write set of the speculative path does to the accounts.
-/

namespace Sxiaum

open FallibleProgram Guards

variable {rows : StateKey → Option StateRow}

/-! ### Transactions and checked amounts -/

/-- Creations and calls, not plain transfers. -/
def Transaction.isContract (tx : Transaction) : Bool := tx.isContractCreation || tx.isContractCall

lemma okOr_ok {ε α : Type} {x : Option α} {e : ε} {a : α} : okOr x e = .ok a ↔ x = some a := by
  cases x <;> simp [okOr]

lemma checkedAdd256_eq_some {a b c : ℕ} :
    checkedAdd256 a b = some c ↔ a + b ≤ u256Max ∧ a + b = c := by
  unfold checkedAdd256
  split_ifs with h <;> simp [h]

lemma checkedMul256_eq_some {a b c : ℕ} :
    checkedMul256 a b = some c ↔ a * b ≤ u256Max ∧ a * b = c := by
  unfold checkedMul256
  split_ifs with h <;> simp [h]

lemma checkedSub_eq_some {a b c : ℕ} : checkedSub a b = some c ↔ b ≤ a ∧ a - b = c := by
  unfold checkedSub
  split_ifs with h <;> simp [h]

/-! ### Accounts -/

/-- The account of a row that decodes. -/
def StateRow.account? (row : StateRow) : Option Account := (decodeAccount row).toOption

/-- The account that is stored for an address. -/
def accountAt (rows : StateKey → Option StateRow) (a : Address) : Option Account :=
  (rows (.account a)).bind StateRow.account?

/-- The account of an address; one that is not stored is empty. -/
def accountOf (rows : StateKey → Option StateRow) (a : Address) : Account :=
  (accountAt rows a).getD (Account.new a)

def balanceOf (rows : StateKey → Option StateRow) (a : Address) : ℕ := (accountOf rows a).balance

def nonceOf (rows : StateKey → Option StateRow) (a : Address) : ℕ := (accountOf rows a).nonce

/-- The account is not stored or its row decodes. -/
def Readable (rows : StateKey → Option StateRow) (a : Address) : Prop :=
  ∀ row, rows (.account a) = some row → ∃ account, decodeAccount row = .ok account

/-- Only a valid account row decodes. -/
lemma decodeAccount_ok {row : StateRow} {a : Account} :
    decodeAccount row = .ok a ↔ row = .account a ∧ a.validate = .ok () := by
  cases row with
  | account b =>
    rw [decodeAccount, StateRow.account.injEq]
    rcases hb : b.validate with e | ⟨⟨⟩⟩
    · simp only [reduceCtorEq, false_iff, not_and]
      rintro rfl
      simp [hb]
    · simp only [Except.ok.injEq]
      constructor
      · rintro rfl
        exact ⟨rfl, hb⟩
      · exact And.left
  | _ => simp [decodeAccount]

lemma validate_new (a : Address) : (Account.new a).validate = .ok () := by
  simp [Account.validate, Account.new, emptyCodeHash, emptyStorageRoot]

lemma StateRow.account?_eq_some {row : StateRow} {a : Account} :
    row.account? = some a ↔ row = .account a ∧ a.validate = .ok () := by
  rw [← decodeAccount_ok, StateRow.account?]
  cases decodeAccount row <;> simp [Except.toOption]

/-- What an address has is valid, stored or not. -/
lemma validate_accountOf (a : Address) : (accountOf rows a).validate = .ok () := by
  unfold accountOf accountAt
  rcases hrow : (rows (.account a)).bind StateRow.account? with - | account
  · exact validate_new a
  · obtain ⟨row, -, hrow⟩ := Option.bind_eq_some_iff.1 hrow
    exact (StateRow.account?_eq_some.1 hrow).2

/-! ### Reading accounts -/

lemma result_getAccount (a : Address) :
    result rows (Occ.getAccount ∅ a) = match rows (.account a) with
      | none => .ok none
      | some row => some <$> decodeAccount row := by
  rw [Occ.getAccount, AList.lookup_empty]
  simp only [result_bind, result_readRow]
  cases rows (.account a) <;> simp [bind, Except.bind]

variable {a : Address}

/-- A read through an empty write set sees the rows. -/
lemma getAccount_ok {x : Option Account} :
    result rows (Occ.getAccount ∅ a) = .ok x ↔ Readable rows a ∧ x = accountAt rows a := by
  rw [result_getAccount, Readable, accountAt]
  rcases rows (.account a) with - | row
  · simp [eq_comm]
  · simp only [Option.some.injEq, forall_eq', Option.bind_some, StateRow.account?]
    cases decodeAccount row with
    | error e => simp [Functor.map, Except.map]
    | ok account => simp [Functor.map, Except.map, Except.toOption, eq_comm]

/-- What the EVM sees of an account. -/
lemma basic_ok {m : AddressMap} {address : RevmAddress} {info : Option AccountInfo} :
    result rows (Occ.basic m address) = .ok info ↔ Readable rows (m.resolve address) ∧
      info = (accountAt rows (m.resolve address)).map Account.toRevmInfo := by
  simp only [Occ.basic, result_bind, bind_ok, getAccount_ok, result_pure, Except.ok.injEq]
  constructor
  · rintro ⟨x, ⟨hread, rfl⟩, rfl⟩
    exact ⟨hread, rfl⟩
  · rintro ⟨hread, rfl⟩
    exact ⟨_, ⟨hread, rfl⟩, rfl⟩

lemma getD_toRevmInfo (a : Address) :
    ((accountAt rows a).map Account.toRevmInfo).getD ⟨0, 0, emptyCodeHash⟩ =
      (accountOf rows a).toRevmInfo := by
  unfold accountOf
  cases accountAt rows a <;> rfl

/-! ### Rows under a write set -/

variable (ws : OccWrites)

/-- The rows under a write set, as a later transaction reads them. -/
def OccWrites.view (rows : StateKey → Option StateRow) (k : StateKey) : Option StateRow :=
  match ws.lookup k with
  | none => rows k
  | some row => some row

/-- In a map every key is written once. -/
lemma lastWrite_map_entries {κ ν ν' : Type} [DecidableEq κ] (f : ν → Option ν')
    {l : List (Sigma fun _ : κ => ν)} (hl : l.NodupKeys) (k : κ) :
    WriteSet.lastWrite (l.map fun e => (e.1, f e.2)) k = (l.dlookup k).map f := by
  induction l with
  | nil => rfl
  | cons e l ih =>
    obtain ⟨k', v⟩ := e
    obtain ⟨hk', hl⟩ := List.nodupKeys_cons.1 hl
    rw [List.map_cons, WriteSet.lastWrite, ih hl]
    by_cases hk : k' = k
    · subst hk
      rw [List.dlookup_eq_none.2 hk', List.dlookup_cons_eq]
      simp
    · rw [List.dlookup_cons_ne _ _ (Ne.symm hk), if_neg hk]
      simp

/-- Flushing a write set leaves what was read through it. -/
theorem apply_toWriteSet (rows : StateKey → Option StateRow) :
    (toWriteSet ws).apply rows = ws.view rows := by
  funext k
  rw [WriteSet.apply_eq, toWriteSet, lastWrite_map_entries some ws.nodupKeys]
  change (Option.map _ (ws.lookup k)).getD _ = _
  unfold OccWrites.view
  rcases ws.lookup k with - | row <;> rfl

/-- An account is that of its last write, or of the rows. -/
lemma accountAt_view (a : Address) : accountAt (ws.view rows) a =
      ((ws.lookup (.account a)).map StateRow.account?).getD (accountAt rows a) := by
  unfold accountAt OccWrites.view
  generalize ws.lookup (.account a) = written
  rcases written with - | row <;> rfl

lemma accountAt_view_of_none {ws : OccWrites}
    (h : ws.lookup (.account a) = none) : accountAt (ws.view rows) a = accountAt rows a := by
  simp [accountAt_view, h]

lemma accountAt_view_of_some {ws : OccWrites} {row : StateRow}
    (h : ws.lookup (.account a) = some row) : accountAt (ws.view rows) a = row.account? := by
  simp [accountAt_view, h]

lemma balanceOf_congr {rows' : StateKey → Option StateRow}
    (h : accountAt rows' a = accountAt rows a) : balanceOf rows' a = balanceOf rows a := by
  rw [balanceOf, balanceOf, accountOf, accountOf, h]

variable {account : Account}

lemma balanceOf_eq (h : accountAt rows a = some account) : balanceOf rows a = account.balance := by
  rw [balanceOf, accountOf, h, Option.getD_some]

lemma nonceOf_eq (h : accountAt rows a = some account) : nonceOf rows a = account.nonce := by
  rw [nonceOf, accountOf, h, Option.getD_some]

lemma accountAt_view_of_account {ws : OccWrites}
    (h : ws.lookup (.account a) = some (.account account)) (hvalid : account.validate = .ok ()) :
    accountAt (ws.view rows) a = some account :=
  (accountAt_view_of_some h).trans (StateRow.account?_eq_some.2 ⟨rfl, hvalid⟩)

/-- Writing an account moves no other balance. -/
lemma balanceOf_view_insert (a : Address) (hvalid : account.validate = .ok ()) :
    balanceOf (OccWrites.view (ws.insert (.account a) (.account account)) rows) =
      Function.update (balanceOf (ws.view rows)) a account.balance := by
  funext b
  by_cases hb : b = a
  · subst hb
    rw [Function.update_self]
    exact balanceOf_eq (accountAt_view_of_account (AList.lookup_insert ws) hvalid)
  · rw [Function.update_of_ne hb]
    apply balanceOf_congr
    rw [accountAt_view, accountAt_view, AList.lookup_insert_ne (by simpa using hb)]

lemma nonceOf_view_insert (a : Address) (hvalid : account.validate = .ok ()) :
    nonceOf (OccWrites.view (ws.insert (.account a) (.account account)) rows) a =
      account.nonce :=
  nonceOf_eq (accountAt_view_of_account (AList.lookup_insert ws) hvalid)

@[simp] lemma view_empty : OccWrites.view ∅ rows = rows := by
  funext k
  simp [OccWrites.view]

end Sxiaum
