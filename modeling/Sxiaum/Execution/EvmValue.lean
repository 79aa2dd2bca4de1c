import Sxiaum.Execution.Balances
import Sxiaum.Lib.Ledger

/-!
# Value in the EVM adapter

revm is assumed to conserve value (`EvmConserves`). The adapter writes back the accounts
that revm has touched, and conserves value too unless it maps two addresses of revm to one
account or brings back an account that revm has destroyed. A call does neither; a deployment
may, because the new contract has two addresses.
-/

namespace Sxiaum

open FallibleProgram Guards Ledger

variable {env : ExecutionEnv} {base : StateRows} {rows : StateKey → Option StateRow}
  {m : AddressMap} {tx : Transaction}

/-! ### Addresses -/

namespace AddressMap

/-- Every registered address projects onto the address it is registered for. -/
def Projects (m : AddressMap) : Prop := ∀ a x, m.lookup a = some x → l1AddrToRevm x = a

variable {m' : AddressMap} {x : Address}

lemma registerAddress_ok (h : m.registerAddress x = .ok m') :
    m' = m.insert (l1AddrToRevm x) x ∧ ∀ y, m.lookup (l1AddrToRevm x) = some y → y = x := by
  unfold registerAddress at h
  split at h
  · next y hy =>
    split_ifs at h with hne
    rw [not_not] at hne
    refine ⟨(Except.ok.inj h).symm, fun z hz => ?_⟩
    rw [← hne]
    exact Option.some.inj (hz.symm.trans hy)
  · next hnone => exact ⟨(Except.ok.inj h).symm, by simp [hnone]⟩

lemma exists_registerAddress
    (h : ∀ y, m.lookup (l1AddrToRevm x) = some y → y = x) : ∃ m', m.registerAddress x = .ok m' := by
  unfold registerAddress
  split
  · next y hy => exact ⟨_, if_neg (not_not.2 (h y hy))⟩
  · exact ⟨_, rfl⟩

lemma Projects.registerAddress (hm : m.Projects)
    (h : m.registerAddress x = .ok m') : m'.Projects := by
  obtain ⟨rfl, -⟩ := registerAddress_ok h
  exact AList.forall_lookup_insert hm rfl

lemma lookup_registerAddress {x y : Address} (h : m.registerAddress x = .ok m')
    (hy : m.lookup (l1AddrToRevm y) = some y) : m'.lookup (l1AddrToRevm y) = some y := by
  obtain ⟨rfl, hsame⟩ := registerAddress_ok h
  by_cases hxy : l1AddrToRevm y = l1AddrToRevm x
  · rw [hxy] at hy ⊢
    rw [AList.lookup_insert, hsame y hy]
  · rw [AList.lookup_insert_ne hxy, hy]

lemma lookup_registerAddress_self
    (h : m.registerAddress x = .ok m') : m'.lookup (l1AddrToRevm x) = some x := by
  obtain ⟨rfl, -⟩ := registerAddress_ok h
  exact AList.lookup_insert m

lemma projects_empty : Projects ∅ := by
  intro a x h
  rw [AList.lookup_empty] at h
  cases h

lemma Projects.resolve_injOn (hm : m.Projects) {a b : RevmAddress} (ha : a < 2 ^ 160)
    (hb : b < 2 ^ 160) (h : m.resolve a = m.resolve b) : a = b := by
  have hleft : ∀ c, c < 2 ^ 160 → l1AddrToRevm (m.resolve c) = c := by
    intro c hc
    unfold resolve
    cases hlook : m.lookup c with
    | some x => exact hm c x hlook
    | none => exact Nat.mod_eq_of_lt hc
  rw [← hleft a ha, h, hleft b hb]

lemma resolve_eq {a : RevmAddress} {x : Address} (h : m.lookup a = some x) : m.resolve a = x := by
  rw [resolve, h, Option.getD_some]

/-- What the addresses of a transaction are registered as. -/
structure Registered (m : AddressMap) (tx : Transaction) : Prop where
  projects : m.Projects
  sender : m.lookup (l1AddrToRevm tx.fromAddr) = some tx.fromAddr
  recipient : ∀ dest, tx.toAddr = some dest → m.lookup (l1AddrToRevm dest) = some dest

lemma registered_of_registerTx (h : registerTx ∅ tx = .ok m) : m.Registered tx := by
  simp only [registerTx, bind_ok] at h
  obtain ⟨m₁, h₁, h₂⟩ := h
  have hproj := projects_empty.registerAddress h₁
  have hsender := lookup_registerAddress_self h₁
  split at h₂
  · next dest hto =>
    refine ⟨hproj.registerAddress h₂, lookup_registerAddress h₂ hsender, fun x hx => ?_⟩
    rw [hto, Option.some.injEq] at hx
    subst hx
    exact lookup_registerAddress_self h₂
  · next hto =>
    obtain rfl := pure_ok.1 h₂
    exact ⟨hproj, hsender, by simp [hto]⟩

lemma exists_registerTx :
    (∃ m, registerTx ∅ tx = .ok m) ↔
      ∀ dest, tx.toAddr = some dest → l1AddrToRevm dest = l1AddrToRevm tx.fromAddr →
        dest = tx.fromAddr := by
  constructor
  · rintro ⟨m, h⟩ dest hto hproj
    have hreg := registered_of_registerTx h
    have := hreg.recipient dest hto
    rw [hproj, hreg.sender] at this
    exact (Option.some.inj this).symm
  · intro h
    obtain ⟨m₁, h₁⟩ : ∃ m₁, registerAddress ∅ tx.fromAddr = .ok m₁ :=
      exists_registerAddress (by simp)
    simp only [registerTx, h₁, bind_ok, Except.ok.injEq, exists_eq_left']
    obtain ⟨rfl, -⟩ := registerAddress_ok h₁
    split
    · next dest hto =>
      refine exists_registerAddress fun y hy => ?_
      by_cases hproj : l1AddrToRevm dest = l1AddrToRevm tx.fromAddr
      · rw [hproj, AList.lookup_insert, Option.some.injEq] at hy
        rw [← hy, h dest hto hproj]
      · rw [AList.lookup_insert_ne hproj, AList.lookup_empty] at hy
        cases hy
    · exact ⟨_, rfl⟩

end AddressMap

/-! ### Committed accounts -/

/-- The balance that an account of revm ends with. -/
def RevmAccount.finalBalance (t : RevmAccount) : ℕ := if t.selfdestructed then 0 else t.balance

/-- The row that `commit` leaves for a touched account. -/
def RevmAccount.Committed (t : RevmAccount) : StateRow → Prop
  | .empty => t.selfdestructed = true
  | .account a => t.selfdestructed = false ∧ a.validate = .ok () ∧ a.balance = t.balance ∧
      a.nonce = t.nonce
  | _ => False

lemma validate_ok {a : Account} : a.validate = .ok () ↔ a.codeHash ≠ 0 ∧ a.storageRoot ≠ 0 := by
  unfold Account.validate
  split_ifs <;> simp [*]

variable {ws : OccWrites}

variable {a b : Account} {label : String} {target : Address}

lemma loadForCommit_valid {address : Address} {a : Account}
    (h : result rows (Occ.loadForCommit label ws address) = .ok a) : a.validate = .ok () := by
  unfold Occ.loadForCommit at h
  split at h
  · split at h
    · next b hb =>
      obtain rfl : b = a := by simpa using h
      exact (decodeAccount_ok.1 hb).2
    · simp at h
  · simp only [result_bind, result_readRow, bind_ok, Except.ok.injEq, exists_eq_left'] at h
    split at h
    · obtain rfl : Account.new address = a := by simpa using h
      exact validate_new address
    · split at h
      · next b hb =>
        obtain rfl : b = a := by simpa using h
        exact (decodeAccount_ok.1 hb).2
      · simp at h

/-- The changes to an account that keep its balance, its nonce and its validity. -/
structure SameFunds (a b : Account) : Prop where
  balance : b.balance = a.balance
  nonce : b.nonce = a.nonce
  valid : a.validate = .ok () → b.validate = .ok ()

lemma SameFunds.trans {a b c : Account} (hab : SameFunds a b) (hbc : SameFunds b c) :
    SameFunds a c :=
  ⟨hbc.balance.trans hab.balance, hbc.nonce.trans hab.nonce, hbc.valid ∘ hab.valid⟩

/-- The changes to an account that keep all but its code. -/
structure Recoded (a b : Account) : Prop extends SameFunds a b where
  root : b.storageRoot = a.storageRoot

lemma Recoded.refl (a : Account) : Recoded a a := ⟨⟨rfl, rfl, id⟩, rfl⟩

lemma recoded_setCodeHash {codeHash : Hash} (h : a.setCodeHash codeHash = .ok b) : Recoded a b := by
  unfold Account.setCodeHash at h
  split_ifs at h with hzero
  obtain rfl := Except.ok.inj h
  exact ⟨⟨rfl, rfl, fun ha => validate_ok.2 ⟨hzero, (validate_ok.1 ha).2⟩⟩, rfl⟩

lemma sameFunds_setStorageRoot {root : Hash}
    (h : a.setStorageRoot root = .ok b) : SameFunds a b := by
  unfold Account.setStorageRoot at h
  split_ifs at h with hzero
  obtain rfl := Except.ok.inj h
  refine ⟨rfl, rfl, fun ha => ?_⟩
  exact validate_ok.2 ⟨(validate_ok.1 ha).1, hzero⟩

lemma sameFunds_updateStorageRoot {address : Address} {changed : List (Hash × Hash)}
    (h : Occ.updateStorageRoot env base a address changed = .ok b) : SameFunds a b := by
  unfold Occ.updateStorageRoot at h
  split_ifs at h with hnil
  · obtain rfl := Except.ok.inj h
    exact ⟨rfl, rfl, id⟩
  · simp only [bind_ok] at h
    obtain ⟨root, -, h⟩ := h
    exact sameFunds_setStorageRoot h

lemma destroyAccount_account (ws : OccWrites) (address b : Address) :
    (Occ.destroyAccount base ws address).lookup (.account b) =
      if b = address then some .empty else ws.lookup (.account b) := by
  refine (AList.lookup_foldl_insert_of_ne ?_ _).trans
    ((AList.lookup_foldl_insert_of_ne (by simp) _).trans ?_)
  · intro k hk
    have hslot := (List.mem_filter.1 hk).2
    rintro rfl
    simp [Occ.isSlotOf] at hslot
  · split_ifs with hb
    · rw [hb, AList.lookup_insert]
    · rw [AList.lookup_insert_ne (by simpa using hb)]

lemma lookup_insert_account {ws ws' : OccWrites} {a : Address} {row : StateRow}
    (h : ∀ b, ws'.lookup (.account b) = ws.lookup (.account b)) (b : Address) :
    (ws'.insert (.account a) row).lookup (.account b) =
      if b = a then some row else ws.lookup (.account b) := by
  split_ifs with hb
  · rw [hb, AList.lookup_insert]
  · rw [AList.lookup_insert_ne (by simpa using hb), h]

/-- The row of one account is written, and no other account or slot. -/
structure RecordsAccount (target : Address) (a : Account) (ws ws' : OccWrites) : Prop where
  account : ∀ b, ws'.lookup (.account b) =
    if b = target then some (.account a) else ws.lookup (.account b)
  slots : ∀ b slot, ws'.lookup (.storage b slot) = ws.lookup (.storage b slot)

lemma recordsAccount_insert {a : Account} {ws ws' : OccWrites}
    (haccounts : ∀ b, ws'.lookup (.account b) = ws.lookup (.account b))
    (hslots : ∀ b slot, ws'.lookup (.storage b slot) = ws.lookup (.storage b slot)) :
    RecordsAccount target a ws (ws'.insert (.account target) (.account a)) :=
  ⟨lookup_insert_account haccounts, fun b slot =>
    (AList.lookup_insert_ne (by simp)).trans (hslots b slot)⟩

/-- The slots of a touched account are written one after the other. -/
def writeSlots (address : Address) (slots : List (Hash × Hash)) (ws : OccWrites) : OccWrites :=
  slots.foldl (fun ws e => AList.insert (.storage address e.1) (.word e.2) ws) ws

lemma writeSlots_account (address b : Address) (slots : List (Hash × Hash)) (ws : OccWrites) :
    (writeSlots address slots ws).lookup (.account b) = ws.lookup (.account b) :=
  AList.lookup_foldl_insert_of_ne (by simp) ws

/-- What `commit` writes for an account that is not destroyed. -/
structure Updates (env : ExecutionEnv) (base : StateRows) (rows : StateKey → Option StateRow)
    (label : String) (ws ws' : OccWrites) (address : Address) (touched : RevmAccount) : Prop where
  kept : touched.selfdestructed = false
  writes : ∃ loaded rooted recoded : Account,
    result rows (Occ.loadForCommit label ws address) = .ok loaded ∧
    Occ.updateStorageRoot env base
      { loaded with balance := touched.balance, nonce := touched.nonce } address
      touched.storage = .ok rooted ∧
    Recoded rooted recoded ∧
    RecordsAccount address recoded (writeSlots address touched.storage ws) ws'

lemma commitAccount_ok {ws ws' : OccWrites} {c : RevmAddress × RevmAccount}
    (h : result rows (Occ.commitAccount env base m label ws c) = .ok ws') :
    (c.2.selfdestructed = true ∧ ws' = Occ.destroyAccount base ws (m.resolve c.1)) ∨
      Updates env base rows label ws ws' (m.resolve c.1) c.2 := by
  simp only [Occ.commitAccount] at h
  split_ifs at h with hdestroyed
  · exact .inl ⟨hdestroyed, by simpa [eq_comm] using h⟩
  · simp only [result_bind, bind_ok] at h
    obtain ⟨loaded, hloaded, h⟩ := h
    refine .inr ⟨by simpa using hdestroyed, loaded, ?_⟩
    split at h
    · simp at h
    · next rooted hroot =>
      refine ⟨rooted, ?_⟩
      split at h
      · next byte rest hcode =>
        split at h
        · simp at h
        · next recoded hset =>
          rw [result_pure, Except.ok.injEq] at h
          subst h
          exact ⟨recoded, hloaded, hroot, recoded_setCodeHash hset, recordsAccount_insert
            (fun _ => AList.lookup_insert_ne (by simp)) fun _ _ => AList.lookup_insert_ne (by simp)⟩
      · rw [result_pure, Except.ok.injEq] at h
        subst h
        exact ⟨rooted, hloaded, hroot, .refl rooted,
          recordsAccount_insert (fun _ => rfl) fun _ _ => rfl⟩

lemma commitAccount_accounts {ws ws' : OccWrites} {c : RevmAddress × RevmAccount}
    (h : result rows (Occ.commitAccount env base m label ws c) = .ok ws') :
    ∃ row, c.2.Committed row ∧ ∀ b, ws'.lookup (.account b) =
      if b = m.resolve c.1 then some row else ws.lookup (.account b) := by
  rcases commitAccount_ok h with ⟨hdestroyed, rfl⟩ | hupdates
  · exact ⟨.empty, hdestroyed, destroyAccount_account ws _⟩
  · obtain ⟨loaded, rooted, recoded, hloaded, hroot, hrecoded, hrecords⟩ := hupdates.writes
    have hvalid := loadForCommit_valid hloaded
    have hsame := (sameFunds_updateStorageRoot hroot).trans hrecoded.toSameFunds
    refine ⟨.account recoded, ⟨hupdates.kept, hsame.valid hvalid, hsame.balance, hsame.nonce⟩,
      fun b => ?_⟩
    rw [hrecords.account, writeSlots_account]

lemma commit_accounts {changes : List (RevmAddress × RevmAccount)}
    {ws ws' : OccWrites} (hnd : (changes.map fun c => m.resolve c.1).Nodup)
    (h : result rows (changes.foldlM (Occ.commitAccount env base m label) ws) = .ok ws') :
    (∀ c ∈ changes, ∃ row, c.2.Committed row ∧
      ws'.lookup (.account (m.resolve c.1)) = some row) ∧
    ∀ b, b ∉ changes.map (fun c => m.resolve c.1) →
      ws'.lookup (.account b) = ws.lookup (.account b) := by
  induction changes generalizing ws with
  | nil =>
    obtain rfl : ws = ws' := by simpa using h
    simp
  | cons c changes ih =>
    rw [List.foldlM_cons, result_bind, bind_ok] at h
    obtain ⟨ws₁, h₁, h⟩ := h
    obtain ⟨row, hrow, hws₁⟩ := commitAccount_accounts h₁
    rw [List.map_cons, List.nodup_cons] at hnd
    obtain ⟨hfresh, hnd⟩ := hnd
    obtain ⟨hin, hout⟩ := ih hnd h
    refine ⟨List.forall_mem_cons.2 ⟨⟨row, hrow, ?_⟩, hin⟩, fun b hb => ?_⟩
    · rw [hout _ hfresh, hws₁, if_pos rfl]
    · rw [List.map_cons, List.mem_cons, not_or] at hb
      rw [hout b hb.2, hws₁, if_neg hb.1]

/-! ### The assumption on revm -/

abbrev EvmDb := DbQuery → Except ExecutionError (Option DbAnswer)

/-- revm, asking a database, ends a call with a transition. -/
def EvmRuns (env : ExecutionEnv) (db : EvmDb) (call : EvmCall) (t : EvmTransition) : Prop :=
  (env.transact call).interp db = .ok (.ok t)

def dbBalance (db : EvmDb) (a : RevmAddress) : ℕ :=
  match db (.basic a) with
  | .ok (some (.info info)) => info.balance
  | _ => 0

/-- revm conserves value: what a call leaves in the touched accounts is what they had. Each
one is listed once, and a successful call raises the caller's nonce. -/
structure EvmConserves (env : ExecutionEnv) : Prop where
  distinct : ∀ {db call t}, EvmRuns env db call t → (t.changes.map Prod.fst).Nodup
  width : ∀ {db call t}, EvmRuns env db call t → ∀ c ∈ t.changes, c.1 < 2 ^ 160
  total : ∀ {db call t}, EvmRuns env db call t →
    (t.changes.map fun c => c.2.finalBalance).sum = (t.changes.map fun c => dbBalance db c.1).sum
  caller : ∀ {db call t}, EvmRuns env db call t → t.status = .success →
    ∃ account, (call.caller, account) ∈ t.changes ∧ account.selfdestructed = false ∧
      account.nonce = call.nonce + 1

def occDb (rows : StateKey → Option StateRow) (m : AddressMap) (errorLabel : String) : EvmDb :=
  fun q => result rows ((Occ.answer m q).adapt fun e => .other s!"{errorLabel}: {e.message}")

lemma dbBalance_occDb (errorLabel : String) (a : RevmAddress) :
    dbBalance (occDb rows m errorLabel) a = balanceOf rows (m.resolve a) := by
  simp only [dbBalance, occDb, Occ.answer, Occ.basic, result_adapt, result_bind,
    result_getAccount, balanceOf, accountOf, accountAt]
  rcases rows (.account (m.resolve a)) with - | row
  · rfl
  · simp only [Option.bind_some, StateRow.account?]
    cases decodeAccount row <;> rfl

/-- No two touched accounts are one account of the chain. -/
def EvmTransition.Apart (t : EvmTransition) (m : AddressMap) : Prop :=
  ∀ c ∈ t.changes, ∀ c' ∈ t.changes, m.resolve c.1 = m.resolve c'.1 → c.1 = c'.1

variable {call : EvmCall} {t : EvmTransition}

lemma EvmConserves.nodup_resolved (henv : EvmConserves env) {db : EvmDb}
    (hrun : EvmRuns env db call t) (hapart : t.Apart m) :
    (t.changes.map fun c => m.resolve c.1).Nodup :=
  List.Nodup.map_on (fun c hc c' hc' heq =>
    List.inj_on_of_nodup_map (henv.distinct hrun) hc hc' (hapart c hc c' hc' heq))
    (List.Nodup.of_map _ (henv.distinct hrun))

/-- A ledger that takes over the balances revm has left, on distinct accounts, has the same
total as the one its database shows. -/
theorem EvmConserves.totalShift (henv : EvmConserves env) {db : EvmDb}
    (hrun : EvmRuns env db call t) (hapart : t.Apart m) {f g : Address → ℕ}
    (hdb : ∀ a, dbBalance db a = f (m.resolve a))
    (hin : ∀ c ∈ t.changes, g (m.resolve c.1) = c.2.finalBalance)
    (hout : ∀ a, a ∉ t.changes.map (fun c => m.resolve c.1) → g a = f a) : TotalShift f g 0 := by
  have hshift := totalShift_of_nodup (henv.nodup_resolved hrun hapart) hout
  have hafter : (t.changes.map fun c => g (m.resolve c.1)) =
      t.changes.map fun c => c.2.finalBalance := List.map_congr_left hin
  simpa only [List.map_map, Function.comp_def, hafter, henv.total hrun, hdb, sub_self] using hshift

lemma EvmConserves.apart (henv : EvmConserves env) {db : EvmDb} (hrun : EvmRuns env db call t)
    (hm : AddressMap.registerTx ∅ tx = .ok m) : t.Apart m := fun c hc c' hc' heq =>
  (AddressMap.registered_of_registerTx hm).projects.resolve_injOn (henv.width hrun c hc)
    (henv.width hrun c' hc') heq

variable {errorLabel commitLabel : String}

structure KeepsValue (rows : StateKey → Option StateRow) (tx : Transaction) (ws : OccWrites) :
    Prop where
  total : TotalShift (balanceOf rows) (balanceOf (ws.view rows)) 0
  caller : ∃ account, ws.lookup (.account tx.fromAddr) = some (.account account) ∧
    account.validate = .ok () ∧ account.nonce = tx.nonce + 1

lemma balanceOf_view_of_committed {t : RevmAccount} {row : StateRow}
    {a : Address} (hrow : t.Committed row) (h : ws.lookup (.account a) = some row) :
    balanceOf (ws.view rows) a = t.finalBalance := by
  have hat : accountAt (ws.view rows) a = row.account? := accountAt_view_of_some h
  cases row with
  | empty =>
    have hdestroyed : t.selfdestructed = true := hrow
    rw [balanceOf, accountOf, hat, RevmAccount.finalBalance, if_pos hdestroyed]
    rfl
  | account account =>
    obtain ⟨hkept, hvalid, hbalance, -⟩ := hrow
    rw [balanceOf_eq (accountAt_view_of_account h hvalid), hbalance, RevmAccount.finalBalance,
      if_neg (by simp [hkept])]
  | _ => exact hrow.elim

section

variable (henv : EvmConserves env)
  (h : result rows (Occ.transactCommit env base m errorLabel commitLabel call) = .ok (t, ws))
  (hapart : t.Apart m)

include h

lemma transactCommit_ok :
    EvmRuns env (occDb rows m errorLabel) call t ∧
      result rows (t.changes.foldlM (Occ.commitAccount env base m commitLabel) ∅) = .ok ws := by
  simp only [Occ.transactCommit, result_bind, bind_ok] at h
  obtain ⟨outcome, hrun, h⟩ := h
  cases outcome with
  | error text => simp at h
  | ok transition =>
    simp only [result_bind, bind_ok, result_pure, Except.ok.injEq, Prod.mk.injEq] at h
    obtain ⟨ws', hcommit, rfl, rfl⟩ := h
    rw [result_interp] at hrun
    exact ⟨hrun, hcommit⟩

include henv hapart

lemma transactCommit_accounts :
    (∀ c ∈ t.changes, ∃ row, c.2.Committed row ∧
      ws.lookup (.account (m.resolve c.1)) = some row) ∧
    ∀ b, b ∉ t.changes.map (fun c => m.resolve c.1) → ws.lookup (.account b) = none := by
  obtain ⟨hrun, hcommit⟩ := transactCommit_ok h
  obtain ⟨hin, hout⟩ := commit_accounts (henv.nodup_resolved hrun hapart) hcommit
  exact ⟨hin, fun b hb => (hout b hb).trans (AList.lookup_empty _)⟩

/-- A row that is no account is left by a touched account that revm has destroyed. -/
lemma destroyed_of_transactCommit {a : Address} {row : StateRow}
    (hrow : ws.lookup (.account a) = some row)
    (hnone : row.account? = none) :
    ∃ c ∈ t.changes, m.resolve c.1 = a ∧ c.2.selfdestructed = true := by
  obtain ⟨hin, hout⟩ := transactCommit_accounts henv h hapart
  have hmem : a ∈ t.changes.map fun c => m.resolve c.1 := by
    by_contra hmem
    rw [hout _ hmem] at hrow
    cases hrow
  obtain ⟨c, hc, hresolve⟩ := List.mem_map.1 hmem
  obtain ⟨row', hcommitted, hlookup⟩ := hin c hc
  rw [hresolve, hrow, Option.some.injEq] at hlookup
  subst hlookup
  refine ⟨c, hc, hresolve, ?_⟩
  cases row with
  | empty => exact hcommitted
  | account a =>
    rw [StateRow.account?_eq_some.2 ⟨rfl, hcommitted.2.1⟩] at hnone
    cases hnone
  | _ => exact hcommitted.elim

theorem transactCommit_keeps (hsuccess : t.status = .success)
    (hcaller : m.resolve call.caller = tx.fromAddr) (hnonce : call.nonce = tx.nonce) :
    KeepsValue rows tx ws := by
  have hrun := (transactCommit_ok h).1
  obtain ⟨hin, hout⟩ := transactCommit_accounts henv h hapart
  constructor
  · refine henv.totalShift hrun hapart (dbBalance_occDb errorLabel) (fun c hc => ?_) fun a ha => ?_
    · obtain ⟨row, hrow, hlookup⟩ := hin c hc
      exact balanceOf_view_of_committed hrow hlookup
    · exact balanceOf_congr (accountAt_view_of_none (hout a ha))
  · obtain ⟨account, hmem, hkept, hn⟩ := henv.caller hrun hsuccess
    obtain ⟨row, hrow, hlookup⟩ := hin _ hmem
    rw [hcaller] at hlookup
    cases row with
    | account a =>
      obtain ⟨-, hvalid, -, hnonce'⟩ := hrow
      exact ⟨a, hlookup, hvalid, by rw [hnonce', hn, hnonce]⟩
    | empty =>
      have hdestroyed : account.selfdestructed = true := hrow
      simp [hkept] at hdestroyed
    | _ => exact hrow.elim

end

/-! ### Deployments -/

/-- The rows of a deployed contract, once its account is known. -/
def storeDeployment (env : ExecutionEnv) (target : Address) (ws : OccWrites)
    (bytes : List UInt8) (account : Account) : Occ OccWrites := do
  if bytes = [] then return ws.insert (.account target) (.account account)
  let ws := AList.insert (.code (env.sha256 bytes)) (.code bytes) ws
  if account.isContract then return ws.insert (.account target) (.account account)
  match account.setCodeHash (env.sha256 bytes) with
  | .error e => throw (.account e)
  | .ok account => return ws.insert (.account target) (.account account)

lemma storeDeployment_account {ws ws' : OccWrites} {bytes : List UInt8}
    {a : Account} (h : result rows (storeDeployment env target ws bytes a) = .ok ws') :
    ∃ a' : Account, Recoded a a' ∧ RecordsAccount target a' ws ws' := by
  have hcode : ∀ a', RecordsAccount target a' ws ((AList.insert (.code (env.sha256 bytes))
      (.code bytes) ws).insert (.account target) (.account a')) := fun a' =>
    recordsAccount_insert (fun _ => AList.lookup_insert_ne (by simp))
      fun _ _ => AList.lookup_insert_ne (by simp)
  unfold storeDeployment at h
  split_ifs at h with hnil hcontract
  · rw [result_pure, Except.ok.injEq] at h
    subst h
    exact ⟨a, .refl a, recordsAccount_insert (fun _ => rfl) fun _ _ => rfl⟩
  · rw [result_pure, Except.ok.injEq] at h
    subst h
    exact ⟨a, .refl a, hcode a⟩
  · split at h
    · simp at h
    · next a' hset =>
      rw [result_pure, Except.ok.injEq] at h
      subst h
      exact ⟨a', recoded_setCodeHash hset, hcode a'⟩

lemma recordDeployment_eq (target : Address) (ws : OccWrites) (bytes : List UInt8) :
    Occ.recordDeployment env target ws bytes = (match ws.lookup (.account target) with
      | some (.account a) =>
        liftExcept (decodeAccount (.account a)) >>= storeDeployment env target ws bytes
      | _ => readRow (.account target) >>= fun stored => match stored with
        | some row => liftExcept (decodeAccount row) >>= storeDeployment env target ws bytes
        | none => throw (.other
            s!"deployed contract account missing: {displayAddress target}") >>=
              storeDeployment env target ws bytes) := rfl

/-- The account that a deployment records: the one just written or else the stored one. -/
lemma recordDeployment_account {ws ws' : OccWrites} {bytes : List UInt8}
    (h : result rows (Occ.recordDeployment env target ws bytes) = .ok ws') :
    ∃ a a' : Account, a.validate = .ok () ∧ Recoded a a' ∧
      (ws.lookup (.account target) = some (.account a) ∨
        (∀ x, ws.lookup (.account target) ≠ some (.account x)) ∧ accountAt rows target = some a) ∧
      RecordsAccount target a' ws ws' := by
  rw [recordDeployment_eq] at h
  split at h
  · next x hx =>
    rw [result_bind, result_liftExcept, bind_ok] at h
    obtain ⟨a, hdec, h⟩ := h
    obtain ⟨hax, hvalid⟩ := decodeAccount_ok.1 hdec
    cases hax
    obtain ⟨a', hsame, hlookup⟩ := storeDeployment_account h
    exact ⟨x, a', hvalid, hsame, .inl hx, hlookup⟩
  · next hne =>
    simp only [result_bind, result_readRow, bind_ok, Except.ok.injEq, exists_eq_left'] at h
    split at h
    · next row hrow =>
      rw [result_bind, result_liftExcept, bind_ok] at h
      obtain ⟨a, hdec, h⟩ := h
      obtain ⟨a', hsame, hlookup⟩ := storeDeployment_account h
      refine ⟨a, a', (decodeAccount_ok.1 hdec).2, hsame, .inr ⟨hne, ?_⟩, hlookup⟩
      rw [accountAt, hrow, Option.bind_some]
      exact StateRow.account?_eq_some.2 (decodeAccount_ok.1 hdec)
    · simp [bind_ok] at h

/-- Recording a deployment keeps what does not depend on the code, unless it brings back a
destroyed account. -/
lemma accountOf_recordDeployment {ws ws' : OccWrites} {bytes : List UInt8}
    (h : result rows (Occ.recordDeployment env target ws bytes) = .ok ws')
    {f : Account → ℕ} (hf : ∀ {a a'}, Recoded a a' → f a' = f a)
    (hkept : ∀ row, ws.lookup (.account target) = some row → row.account? = none →
      f (accountOf rows target) = f (Account.new target)) (b : Address) :
    f (accountOf (ws'.view rows) b) = f (accountOf (ws.view rows) b) := by
  obtain ⟨a, a', hvalid, hsame, hsource, hrecords⟩ := recordDeployment_account h
  have hlookup := hrecords.account
  unfold accountOf
  by_cases hb : b = target
  · subst hb
    have hat' : accountAt (ws'.view rows) b = some a' :=
      accountAt_view_of_account (by rw [hlookup, if_pos rfl]) (hsame.valid hvalid)
    rw [hat', Option.getD_some, hf hsame]
    rcases hsource with hws | ⟨hne, hat⟩
    · rw [accountAt_view_of_account hws hvalid, Option.getD_some]
    · rw [accountOf, hat, Option.getD_some] at hkept
      rcases hws : ws.lookup (.account b) with - | row
      · rw [accountAt_view_of_none hws, hat, Option.getD_some]
      · have hnone : row.account? = none := by
          cases row with
          | account x => exact absurd hws (hne x)
          | _ => rfl
        rw [accountAt_view_of_some hws, hnone, Option.getD_none]
        exact hkept row hws hnone
  · rw [accountAt_view, accountAt_view, hlookup, if_neg hb]

def deployMap (env : ExecutionEnv) (tx : Transaction) : Except ExecutionError AddressMap := do
  let m ← AddressMap.registerTx ∅ tx
  let m ← m.registerAddress (env.contractAddress tx.fromAddr tx.nonce)
  return m.insert (env.createAddress (l1AddrToRevm tx.fromAddr) tx.nonce)
    (env.contractAddress tx.fromAddr tx.nonce)

def deployCall (env : ExecutionEnv) (tx : Transaction) : EvmCall :=
  { Occ.evmCall env tx with transactTo := none }

/-- The contract of a deployment is an account of its own: revm does not touch it under both
of its addresses, and does not destroy it while it holds a balance. -/
structure DeploysApart (env : ExecutionEnv) (rows : StateKey → Option StateRow)
    (tx : Transaction) : Prop where
  create_ne : env.createAddress (l1AddrToRevm tx.fromAddr) tx.nonce ≠ l1AddrToRevm tx.fromAddr
  target_ne : env.contractAddress tx.fromAddr tx.nonce ≠ tx.fromAddr
  apart : ∀ {m t}, deployMap env tx = .ok m →
    EvmRuns env (occDb rows m "EVM deploy error") (deployCall env tx) t → t.Apart m
  kept : ∀ {m t}, deployMap env tx = .ok m →
    EvmRuns env (occDb rows m "EVM deploy error") (deployCall env tx) t →
    ∀ c ∈ t.changes, m.resolve c.1 = env.contractAddress tx.fromAddr tx.nonce →
      c.2.selfdestructed = true → balanceOf rows (env.contractAddress tx.fromAddr tx.nonce) = 0

lemma deployMap_sender (hapart : DeploysApart env rows tx) (h : deployMap env tx = .ok m) :
    m.lookup (l1AddrToRevm tx.fromAddr) = some tx.fromAddr := by
  simp only [deployMap, bind_ok, pure_ok] at h
  obtain ⟨m₁, h₁, m₂, h₂, rfl⟩ := h
  rw [AList.lookup_insert_ne hapart.create_ne.symm]
  exact AddressMap.lookup_registerAddress h₂ (AddressMap.registered_of_registerTx h₁).sender

lemma deployContractSpeculative_ok {r : EvmExecutionResult}
    (h : result rows (Occ.deployContractSpeculative env base tx) = .ok (r, ws)) :
    ∃ m t ws₁, deployMap env tx = .ok m ∧ r = t.toResult ∧
      result rows (Occ.transactCommit env base m "EVM deploy error"
        "EVM speculative deploy commit failed" (deployCall env tx)) = .ok (t, ws₁) ∧
      (t.status = .success → result rows (Occ.recordDeployment env
        (env.contractAddress tx.fromAddr tx.nonce) ws₁ t.output) = .ok ws) := by
  simp only [Occ.deployContractSpeculative] at h
  by_cases hnil : tx.data = []
  · simp [hnil, bind_ok] at h
  by_cases hsize : Occ.maxInitcodeSize < tx.data.length
  · simp [hnil, hsize, bind_ok] at h
  · simp only [if_neg hnil, if_neg hsize, result_bind, result_liftExcept, bind_ok] at h
    obtain ⟨m₁, h₁, m₂, h₂, ⟨t, ws₁⟩, hrun, h⟩ := h
    have hmap : deployMap env tx = .ok (m₂.insert (env.createAddress (l1AddrToRevm tx.fromAddr)
        tx.nonce) (env.contractAddress tx.fromAddr tx.nonce)) := by
      simp only [deployMap, bind_ok, pure_ok]
      exact ⟨m₁, h₁, m₂, h₂, rfl⟩
    split_ifs at h with ht
    · simp only [result_bind, bind_ok, result_pure, Except.ok.injEq, Prod.mk.injEq] at h
      obtain ⟨ws₂, hrecord, rfl, rfl⟩ := h
      exact ⟨_, t, ws₁, hmap, rfl, hrun, fun _ => hrecord⟩
    · obtain ⟨rfl, rfl⟩ : t.toResult = r ∧ ws₁ = ws := by simpa using h
      exact ⟨_, t, ws₁, hmap, rfl, hrun, fun hsuccess => absurd hsuccess ht⟩

lemma executeContractCallSpeculative_ok {r : EvmExecutionResult}
    (h : result rows (Occ.executeContractCallSpeculative env base tx) = .ok (r, ws)) :
    ∃ m t, AddressMap.registerTx ∅ tx = .ok m ∧ r = t.toResult ∧
      result rows (Occ.transactCommit env base m "EVM execution error"
        "EVM speculative commit failed" (Occ.evmCall env tx)) = .ok (t, ws) := by
  unfold Occ.executeContractCallSpeculative at h
  split at h
  · simp at h
  · next target hto =>
    simp only [result_bind, result_liftExcept, bind_ok] at h
    obtain ⟨m, hm, info, -, h⟩ := h
    split_ifs at h with hnone
    · simp [bind_ok] at h
    · simp only [result_bind, bind_ok] at h
      obtain ⟨⟨t, ws'⟩, hrun, h⟩ := h
      obtain ⟨rfl, rfl⟩ : t.toResult = r ∧ ws' = ws := by simpa using h
      exact ⟨m, t, hm, rfl, hrun⟩

/-! ### Both kinds of run -/

def runEvm (env : ExecutionEnv) (base : StateRows) (tx : Transaction) :
    Occ (EvmExecutionResult × OccWrites) :=
  if tx.isContractCreation then Occ.deployContractSpeculative env base tx
  else Occ.executeContractCallSpeculative env base tx

/-- A successful run of the EVM conserves value and raises the sender's nonce. -/
theorem runEvm_keeps (henv : EvmConserves env)
    (hdeploy : tx.toAddr = none → DeploysApart env rows tx) {r : EvmExecutionResult}
    (h : result rows (runEvm env base tx) = .ok (r, ws))
    (hsuccess : r.success = true) : KeepsValue rows tx ws := by
  unfold runEvm at h
  split_ifs at h with hcreate
  · have hapart := hdeploy (by simpa [Transaction.isContractCreation] using hcreate)
    obtain ⟨m, t, ws₁, hm, rfl, hrun, hrecord⟩ := deployContractSpeculative_ok h
    have ht : t.status = .success := by simpa [EvmTransition.toResult] using hsuccess
    have hevm := (transactCommit_ok hrun).1
    have hkeeps : KeepsValue rows tx ws₁ := transactCommit_keeps henv hrun
      (hapart.apart hm hevm) ht (AddressMap.resolve_eq (deployMap_sender hapart hm)) rfl
    constructor
    · have hbalances : balanceOf (ws.view rows) = balanceOf (ws₁.view rows) := by
        refine funext (accountOf_recordDeployment (hrecord ht) (fun h => h.balance) ?_)
        intro row hrow hnone
        obtain ⟨c, hc, hresolve, hdestroyed⟩ :=
          destroyed_of_transactCommit henv hrun (hapart.apart hm hevm) hrow hnone
        exact hapart.kept hm hevm c hc hresolve hdestroyed
      rw [hbalances]
      exact hkeeps.total
    · obtain ⟨a, a', -, -, -, hrecords⟩ := recordDeployment_account (hrecord ht)
      rw [hrecords.account, if_neg hapart.target_ne.symm]
      exact hkeeps.caller
  · obtain ⟨m, t, hm, rfl, hrun⟩ := executeContractCallSpeculative_ok h
    have ht : t.status = .success := by simpa [EvmTransition.toResult] using hsuccess
    have hreg := AddressMap.registered_of_registerTx hm
    have hevm := (transactCommit_ok hrun).1
    exact transactCommit_keeps henv hrun (henv.apart hevm hm) ht
      (AddressMap.resolve_eq hreg.sender) rfl

end Sxiaum
