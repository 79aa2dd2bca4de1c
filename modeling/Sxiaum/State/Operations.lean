import Sxiaum.State.Journal
import Sxiaum.State.Transition

/-!
# Runs of the state database

The operations of the state database (`state/src/state_db.rs`) that are not part of a
transition, and runs of writes, commits, snapshots and rollbacks. An operation that fails keeps
what it has done, and the run goes on.
-/

namespace Sxiaum

open StateDb StateProgram UndoLog

/-- `VestingSchedule::validate`, with the texts of its errors. -/
def VestingSchedule.validate (s : VestingSchedule) : Except String Unit :=
  if s.totalWei < s.releasedWei then .error "Released wei exceeds total wei"
  else if s.totalWei = 0 ∧ s.releasedWei = 0 then
    if s.durationSecs = 0 ∧ s.cliffSecs = 0 then .ok ()
    else .error "Vesting total must be non-zero"
  else if 0 < s.durationSecs ∧ s.durationSecs < s.cliffSecs then
    .error "Cliff seconds exceeds duration seconds"
  else if s.durationSecs = 0 ∧ 0 < s.cliffSecs ∧ satAdd64 s.startTs s.cliffSecs < s.startTs then
    .error "Vesting schedule parameters are invalid"
  else .ok ()

lemma VestingSchedule.validate_ok_iff {s : VestingSchedule} :
    s.validate = .ok () ↔ s.valid = true := by
  unfold VestingSchedule.validate VestingSchedule.valid
  split_ifs <;> simp_all
  omega

namespace TreeDb

variable {T : Type} (env : TransitionEnv T)

/-! ### Accounts -/

variable (table : StateTable) (address : Address)

def createAccount : DbProgram T Account := do
  match ← loadAccount address with
  | some a => return a
  | none =>
    updateAccount env address (Account.new address)
    return Account.new address

def setBalance (amount : ℕ) : DbProgram T Unit := do
  let a ← loadOrNew address
  let a := { a with balance := amount }
  account a.validate
  updateAccount env address a

/-- The largest nonce cannot be raised. -/
def incrementNonce : DbProgram T ℕ := do
  let a ← loadOrNew address
  if u64Max ≤ a.nonce then throw (.account .nonceExhausted)
  updateAccount env address { a with nonce := a.nonce + 1 }
  return a.nonce + 1

def deleteStorage (slot : Hash) : DbProgram T Unit :=
  setStorage env address slot 0

def setCodeForAddress (code : List UInt8) : DbProgram T Hash := do
  if code = [] then throw (.other "contract code must not be empty")
  if StateDb.maxCodeSize < code.length then throw (.other "contract code exceeds maximum size")
  let codeHash := env.keccak256 code
  setCode codeHash code
  let a ← loadOrNew address
  let a ← account (a.setCodeHash codeHash)
  updateAccount env address a
  return codeHash

def setVestingSchedule (schedule : VestingSchedule) : DbProgram T Unit := do
  DbProgram.check schedule.validate
  StateDb.setRaw (.state (.vesting address)) (.state (.vesting schedule))

def slotOf : DbKey → Option Hash
  | .state (.storage a slot) => if a = address then some slot else none
  | _ => none

/-- The rows that go with an account: its own, its slots and its vesting schedule. -/
def accountRows : List StateKey :=
  .account address :: (table.scan (slotOf address)).map (.storage address) ++
    if (table.lookup (.state (.vesting address))).isSome then [.vesting address] else []

/-- A vesting schedule is marked if there is one. -/
def markVesting : DbProgram T Unit :=
  if (table.lookup (.state (.vesting address))).isSome then
    StateDb.markDirty (.state (.vesting address))
  else return

/-- The leaves of the slots go first, then all rows at once, then the leaf of the account. -/
def deleteAccount : DbProgram T Unit := do
  StateDb.markDirty (.state (.account address))
  let s ← get
  (s.table.scan (slotOf address)).forM fun slot => do
    StateDb.deleteTreeLeaf env.ops (env.ops.storageProofKey address slot)
    StateDb.markDirty (.state (.storage address slot))
  markVesting s.table address
  StateDb.atomicStateCommit ((accountRows s.table address).map fun key => (.state key, none))
  StateDb.deleteTreeLeaf env.ops address

/-! ### Blocks and snapshots -/

/-- A transaction that fails takes everything since the last commit back. -/
def applyOrRollback (tx : Transaction) : DbProgram T Unit :=
  tryCatch (applyTransaction env tx) fun e => do
    let _ ← StateDb.rollback env.ops
    throw e

def applyBlock (block : Block) : DbProgram T Hash := do
  DbProgram.check (block.validateBasic env.checks)
  block.body.transactions.forM (applyOrRollback env)
  StateDb.updateStateRoot env.ops

/-- The copies of the rows that a snapshot stores under keys of its own are left out. The undo
log stays as it is. -/
def snapshotState : DbProgram T Hash := do
  let root ← StateDb.stateRoot env.ops
  modify fun s => { s with db := { s.db with committedTree := s.db.tree, dirtyKeys := ∅ } }
  return root

end TreeDb

/-! ### Runs -/

inductive DbWrite where
  | updateAccount (address : Address) (account : Account)
  | createAccount (address : Address)
  | setBalance (address : Address) (amount : ℕ)
  | incrementNonce (address : Address)
  | deleteAccount (address : Address)
  | setStorage (address : Address) (slot value : Hash)
  | deleteStorage (address : Address) (slot : Hash)
  | setCode (codeHash : Hash) (code : List UInt8)
  | setCodeForAddress (address : Address) (code : List UInt8)
  | setVestingSchedule (address : Address) (schedule : VestingSchedule)
  | stateTransition (tx : Transaction)
  | applySpeculativeWrite (key : StateKey) (value : Option StateRow)
  | applySpeculativeWriteStaged (key : StateKey) (value : Option StateRow)
  | flushStagedWrites
  | discardStagedWrites
  | updateStateRoot
  | setRaw (key : DbKey) (row : DbRow)
  | deleteRaw (key : DbKey)
  | writeBatch (changes : List (DbKey × Option DbRow))
  | updateTreeLeaf (key value : Hash)
  | deleteTreeLeaf (key : Hash)

inductive DbStep where
  | write (w : DbWrite)
  | commit
  | snapshotState
  | rollback

section Runs

variable {T : Type} (env : TransitionEnv T)

def DbWrite.perform : DbWrite → DbProgram T Unit
  | .updateAccount address a => TreeDb.updateAccount env address a
  | .createAccount address => discard (TreeDb.createAccount env address)
  | .setBalance address amount => TreeDb.setBalance env address amount
  | .incrementNonce address => discard (TreeDb.incrementNonce env address)
  | .deleteAccount address => TreeDb.deleteAccount env address
  | .setStorage address slot value => TreeDb.setStorage env address slot value
  | .deleteStorage address slot => TreeDb.deleteStorage env address slot
  | .setCode codeHash code => TreeDb.setCode codeHash code
  | .setCodeForAddress address code => discard (TreeDb.setCodeForAddress env address code)
  | .setVestingSchedule address schedule => TreeDb.setVestingSchedule address schedule
  | .stateTransition tx => TreeDb.applyTransaction env tx
  | .applySpeculativeWrite key value => StateDb.applySpeculativeWrite env.ops key value
  | .applySpeculativeWriteStaged key value =>
    StateDb.applySpeculativeWriteStaged env.ops key value
  | .flushStagedWrites => StateDb.flushStagedWrites
  | .discardStagedWrites => StateDb.discardStagedWrites
  | .updateStateRoot => discard (StateDb.updateStateRoot env.ops)
  | .setRaw key row => StateDb.setRaw key row
  | .deleteRaw key => StateDb.deleteRaw key
  | .writeBatch changes => StateDb.writeBatch changes
  | .updateTreeLeaf key value => StateDb.updateTreeLeaf env.ops key value
  | .deleteTreeLeaf key => StateDb.deleteTreeLeaf env.ops key

def DbStep.perform : DbStep → DbProgram T Unit
  | .write w => w.perform env
  | .commit => discard (StateDb.commit env.ops)
  | .snapshotState => discard (TreeDb.snapshotState env)
  | .rollback => discard (StateDb.rollback env.ops)

/-- The state after a step, whether it fails or not. -/
def DbStep.next (step : DbStep) (s : OpenDb T) : OpenDb T := ((step.perform env).run s).2

def runSteps (s : OpenDb T) (steps : List DbStep) : OpenDb T :=
  steps.foldl (fun s step => step.next env s) s

/-- The writes that keep rows and leaves together themselves. -/
def DbWrite.Typed : DbWrite → Prop
  | .discardStagedWrites => False
  | .setRaw _ _ => False
  | .deleteRaw _ => False
  | .writeBatch _ => False
  | .updateTreeLeaf _ _ => False
  | .deleteTreeLeaf _ => False
  | _ => True

end Runs

/-! ### Operations made of others -/

namespace TreeDb

section Keeps

variable {T : Type} {env : TransitionEnv T} {J : OpenDb T → Prop}

def writeSlot (env : TransitionEnv T) (address : Address) (slot value : Hash) :
    DbProgram T Unit := do
  StateDb.markDirty (.state (.storage address slot))
  if value = 0 then
    StateDb.atomicStateCommit [(.state (.storage address slot), none)]
    StateDb.deleteTreeLeaf env.ops (env.ops.storageProofKey address slot)
  else
    StateDb.statePut (.state (.storage address slot)) (.state (.word value))
    StateDb.updateTreeLeaf env.ops (env.ops.storageProofKey address slot) value

def refreshStorageRoot (env : TransitionEnv T) (address : Address) : DbProgram T Unit := do
  let a ← loadOrNew address
  let s ← get
  let root ← account (computeStorageRoot env.toExecutionEnv address
    (s.table.stateRows.getAccountStorageEntries address))
  let a ← account (a.setStorageRoot root)
  updateAccount env address a

variable (address : Address) (tx : Transaction) (sender : Account)

lemma setStorage_eq (slot value : Hash) : setStorage env address slot value =
      writeSlot env address slot value >>= fun _ => refreshStorageRoot env address := by
  unfold setStorage writeSlot
  rw [bind_assoc]
  refine bind_congr fun _ => ?_
  split_ifs
  · rw [bind_assoc]
    rfl
  · rw [bind_assoc]
    rfl

lemma keeps_loadOrNew : Keeps J (loadOrNew address : DbProgram T Account) :=
  (keeps_get.bind fun _ => keeps_liftExcept _).bind fun _ => keeps_pure _

lemma keeps_planCounterparty (address sender : Address) (debited : Account) :
    Keeps J (planCounterparty address sender debited : DbProgram T Account) :=
  keeps_ite (keeps_pure _) (keeps_loadOrNew _)

lemma keeps_applyBalanceUpdate (a : Account) (amount : ℕ) :
    Keeps J (applyBalanceUpdate a amount : DbProgram T Account) :=
  (keeps_liftExcept _).bind fun _ => (keeps_liftExcept _).bind fun _ => keeps_pure _

lemma keeps_debit : Keeps J (debit tx sender : DbProgram T Account) :=
  (keeps_liftExcept _).bind fun _ => (keeps_liftExcept _).bind fun _ =>
    keeps_ite (keeps_throw _) ((keeps_liftExcept _).bind fun _ => keeps_pure _)

lemma keeps_checkCallee : Keeps J (checkCallee tx : DbProgram T Unit) := by
  unfold checkCallee
  split
  · exact keeps_pure _
  · refine keeps_ite ((keeps_loadOrNew _).bind fun _ => ?_) (keeps_pure _)
    exact keeps_ite (keeps_throw _) (keeps_pure _)

lemma keeps_validateStateTransitionChecks :
    Keeps J (validateStateTransitionChecks tx sender : DbProgram T Unit) :=
  (keeps_liftExcept _).bind fun _ => (keeps_liftExcept _).bind fun _ =>
    keeps_ite (keeps_throw _) ((keeps_checkCallee _).bind fun _ => keeps_liftExcept _)

lemma keeps_setCode (hcode : ∀ codeHash code, Keeps J
      (setRaw (.state (.code codeHash)) (.state (.code code)) : DbProgram T Unit))
    (codeHash : Hash) (code : List UInt8) :
    Keeps J (setCode codeHash code : DbProgram T Unit) :=
  keeps_ite (keeps_throw _) (keeps_ite (keeps_throw _) (keeps_ite (keeps_throw _) (hcode _ _)))

section OneAccount

variable {address : Address} (haccount : ∀ a, Keeps J (updateAccount env address a))

include haccount

lemma keeps_createAccount : Keeps J (createAccount env address) := by
  refine Keeps.bind (keeps_get.bind fun _ => keeps_liftExcept _) fun found => ?_
  cases found with
  | some a => exact keeps_pure _
  | none => exact (haccount _).bind fun _ => keeps_pure _

lemma keeps_setBalance (amount : ℕ) : Keeps J (setBalance env address amount) :=
  (keeps_loadOrNew _).bind fun _ => (keeps_liftExcept _).bind fun _ => haccount _

lemma keeps_incrementNonce : Keeps J (incrementNonce env address) :=
  (keeps_loadOrNew _).bind fun _ =>
    keeps_ite (keeps_throw _) ((haccount _).bind fun _ => keeps_pure _)

lemma keeps_setCodeForAddress (hcode : ∀ codeHash code, Keeps J
      (setRaw (.state (.code codeHash)) (.state (.code code)) : DbProgram T Unit))
    (code : List UInt8) : Keeps J (setCodeForAddress env address code) := by
  refine keeps_ite (keeps_throw _) (keeps_ite (keeps_throw _) ?_)
  exact (keeps_setCode hcode _ _).bind fun _ => (keeps_loadOrNew _).bind fun _ =>
    (keeps_liftExcept _).bind fun _ => (haccount _).bind fun _ => keeps_pure _

lemma keeps_refreshStorageRoot : Keeps J (refreshStorageRoot env address) :=
  (keeps_loadOrNew _).bind fun _ => keeps_get.bind fun _ => (keeps_liftExcept _).bind
    fun _ => (keeps_liftExcept _).bind fun _ => haccount _

end OneAccount

/-- The accounts that a transition writes. -/
def transitionAccounts (env : TransitionEnv T) (tx : Transaction) : List Address :=
  [tx.fromAddr, tx.toAddr.getD (env.createContractAddress tx.fromAddr tx.nonce)]

lemma keeps_stateTransition {tx : Transaction}
    (haccount : ∀ address ∈ transitionAccounts env tx, ∀ a,
      Keeps J (updateAccount env address a))
    (hstorage : ∀ recipient, tx.toAddr = some recipient → tx.isContractCall = true →
      ∀ value, Keeps J (setStorage env recipient (env.keccak256 tx.data) value))
    (hcode : ∀ codeHash code, Keeps J
      (setRaw (.state (.code codeHash)) (.state (.code code)) : DbProgram T Unit))
    (hroot : Keeps J (updateStateRoot env.ops)) : Keeps J (stateTransition env tx) := by
  refine (keeps_liftExcept _).bind fun _ => (keeps_liftExcept _).bind fun txHash =>
    (keeps_loadOrNew _).bind fun sender =>
    (keeps_validateStateTransitionChecks _ _).bind fun _ => (keeps_debit _ _).bind fun sender => ?_
  have hfrom := haccount tx.fromAddr (by simp [transitionAccounts])
  cases hto : tx.toAddr with
  | some recipient =>
    have hrecipient := haccount recipient (by simp [transitionAccounts, hto])
    refine Keeps.bind ?_ fun _ => hroot
    refine (keeps_planCounterparty _ _ _).bind fun _ => (keeps_applyBalanceUpdate _ _).bind
      fun _ => (keeps_liftExcept _).bind fun _ => (hfrom _).bind fun _ =>
        (hrecipient _).bind fun _ => ?_
    split_ifs with hcall
    · exact hstorage recipient hto hcall txHash
    · exact keeps_pure _
  | none =>
    have hcontract := haccount (env.createContractAddress tx.fromAddr tx.nonce)
      (by simp [transitionAccounts, hto])
    refine Keeps.bind ?_ fun _ => hroot
    exact (keeps_planCounterparty _ _ _).bind fun _ => (keeps_applyBalanceUpdate _ _).bind
      fun _ => (keeps_liftExcept _).bind fun _ => (keeps_liftExcept _).bind fun _ =>
        (hfrom _).bind fun _ => (keeps_setCode hcode _ _).bind fun _ => hcontract _

end Keeps

end TreeDb

section Composed

variable {T : Type} {env : TransitionEnv T}

/-- The slot that a call of a contract writes. -/
def TreeDb.calledSlot (env : TransitionEnv T) (tx : Transaction) : List StateKey :=
  match tx.toAddr with
  | some recipient =>
    if tx.isContractCall then [.storage recipient (env.keccak256 tx.data)] else []
  | none => []

/-- The rows with a leaf that a write may change. -/
def DbWrite.touched (env : TransitionEnv T) (table : StateTable) : DbWrite → List StateKey
  | .updateAccount address _ => [.account address]
  | .createAccount address => [.account address]
  | .setBalance address _ => [.account address]
  | .incrementNonce address => [.account address]
  | .setCodeForAddress address _ => [.account address]
  | .deleteAccount address => TreeDb.accountRows table address
  | .setStorage address slot _ => [.storage address slot, .account address]
  | .deleteStorage address slot => [.storage address slot, .account address]
  | .stateTransition tx =>
    (TreeDb.transitionAccounts env tx).map .account ++ TreeDb.calledSlot env tx
  | .applySpeculativeWrite key _ => [key]
  | .applySpeculativeWriteStaged key _ => [key]
  | _ => []

/-- The writes that are made of account updates, slots, the root row, code and schedules. -/
def DbWrite.Composed : DbWrite → Prop
  | .deleteAccount _ | .applySpeculativeWrite _ _ | .applySpeculativeWriteStaged _ _
  | .flushStagedWrites | .discardStagedWrites | .setRaw _ _ | .deleteRaw _ | .writeBatch _
  | .updateTreeLeaf _ _ | .deleteTreeLeaf _ => False
  | _ => True

lemma TreeDb.keeps_perform {J : OpenDb T → Prop} (table : StateTable) {w : DbWrite}
    (hw : w.Composed)
    (haccount : ∀ address, .account address ∈ w.touched env table → ∀ a,
      Keeps J (updateAccount env address a))
    (hstorage : ∀ address slot, .storage address slot ∈ w.touched env table →
      .account address ∈ w.touched env table → ∀ value, Keeps J (setStorage env address slot value))
    (hcode : ∀ codeHash code, Keeps J
      (setRaw (.state (.code codeHash)) (.state (.code code)) : DbProgram T Unit))
    (hvesting : ∀ address schedule, Keeps J
      (setRaw (.state (.vesting address)) (.state (.vesting schedule)) : DbProgram T Unit))
    (hroot : Keeps J (updateStateRoot env.ops)) : Keeps J (w.perform env) := by
  cases w with
  | updateAccount address a => exact haccount address (by simp [DbWrite.touched]) a
  | createAccount address =>
    exact (keeps_createAccount (haccount address (by simp [DbWrite.touched]))).bind
      fun _ => keeps_pure _
  | setBalance address amount =>
    exact keeps_setBalance (haccount address (by simp [DbWrite.touched])) amount
  | incrementNonce address =>
    exact (keeps_incrementNonce (haccount address (by simp [DbWrite.touched]))).bind
      fun _ => keeps_pure _
  | setStorage address slot value | deleteStorage address slot =>
    exact hstorage address slot (by simp [DbWrite.touched]) (by simp [DbWrite.touched]) _
  | setCode codeHash code => exact keeps_setCode hcode codeHash code
  | setCodeForAddress address code =>
    exact (keeps_setCodeForAddress (haccount address (by simp [DbWrite.touched])) hcode code).bind
      fun _ => keeps_pure _
  | setVestingSchedule address schedule => exact (keeps_liftExcept _).bind fun _ => hvesting _ _
  | stateTransition tx =>
    refine (keeps_stateTransition (fun address hmem => haccount address ?_) ?_ hcode hroot).bind
      fun _ => keeps_pure _
    · exact List.mem_append_left _ (List.mem_map_of_mem hmem)
    · intro recipient hto hcall value
      refine hstorage recipient _ ?_ ?_ value
      · simp [DbWrite.touched, calledSlot, hto, hcall]
      · simp [DbWrite.touched, transitionAccounts, hto]
  | updateStateRoot => exact hroot.bind fun _ => keeps_pure _
  | _ => exact absurd hw id

end Composed

namespace TreeDb

/-! ### Every write is marked -/

section Logged

variable {T : Type} {env : TransitionEnv T} {committed : T} {K : DbKey → Prop}
  {ok : DbKey → Option DbRow → Prop} {I : UndoLog DbKey DbRow → StateTable → Prop}
  (hok : ∀ key value, ok (.state key) (Option.map DbRow.state value))

include hok

lemma keeps_logged_updateAccount (hI : Journal K ok I) (address : Address) (a : Account) :
    Keeps (Logged I ok committed) (updateAccount env address a) := by
  refine (keeps_liftExcept _).bind fun _ => keeps_ite (keeps_throw _) ?_
  exact (keeps_setRaw hI (hok _ (some _))).bind fun _ =>
    (keeps_liftExcept _).bind fun _ => keeps_updateTreeLeaf _ _

lemma keeps_logged_setStorage (hI : Journal K ok I) (address : Address) (slot value : Hash) :
    Keeps (Logged I ok committed) (setStorage env address slot value) := by
  have hmarked : Journal K ok (Marked I [.state (.storage address slot)]) := journal_marked hI _
  have hkey : ∀ l table, Marked I [.state (.storage address slot)] l table →
      DbKey.state (.storage address slot) ∈ l.dirtyKeys := fun _ _ h => h.2 _ (by simp)
  rw [setStorage_eq]
  refine Keeps.bind ?_ fun _ => keeps_refreshStorageRoot (keeps_logged_updateAccount hok hI address)
  refine (marks_markDirty _).keeps_bind hI ?_
  refine keeps_ite (Keeps.bind ?_ fun _ => keeps_deleteTreeLeaf _)
    (Keeps.bind ?_ fun _ => keeps_updateTreeLeaf _ _)
  · refine StateDb.keeps_atomicStateCommit hmarked ?_ ?_
    · simpa using hok (.storage address slot) none
    · simpa using hkey
  · exact keeps_statePut hmarked (hok _ (some _)) (.inl hkey)

lemma keeps_logged_deleteAccount (hI : Journal K ok I) (address : Address) :
    Keeps (Logged I ok committed) (deleteAccount env address) := by
  refine (marks_markDirty _).keeps_bind hI (keeps_get.bind fun s => ?_)
  have hloop : ∀ slot, StateDb.Marks K ok
      (do
        deleteTreeLeaf env.ops (env.ops.storageProofKey address slot)
        markDirty (.state (.storage address slot)))
      (.state (.storage address slot)) := by
    intro slot I committed hI s h
    refine (keeps_deleteTreeLeaf _ s h).bind
      (fun _ s₁ h₁ => marks_markDirty _ I committed hI s₁ h₁) fun e s₁ h₁ => ⟨h₁, ?_⟩
    intro herror
    cases herror
  refine keeps_forM_marks (fun slot _ => hloop slot) (journal_marked hI _) ?_
  -- the changes that are committed are those of the marked keys
  have hchanges : ∀ c ∈ (accountRows s.table address).map fun key => (DbKey.state key, none),
      ok c.1 c.2 := by
    intro c hc
    obtain ⟨key, -, rfl⟩ := List.mem_map.1 hc
    exact hok key none
  have hjournal := journal_marked (journal_marked hI [DbKey.state (.account address)])
    ((s.table.scan (slotOf address)).map fun slot => DbKey.state (.storage address slot))
  have hmarked : ∀ key ∈ .account address ::
      (s.table.scan (slotOf address)).map (StateKey.storage address), ∀ l table,
      Marked (Marked I [.state (.account address)]) ((s.table.scan (slotOf address)).map
        fun slot => .state (.storage address slot)) l table → DbKey.state key ∈ l.dirtyKeys := by
    rintro key hkey l table ⟨⟨-, haccount⟩, hslots⟩
    rcases List.mem_cons.1 hkey with rfl | hkey
    · exact haccount _ (by simp)
    · obtain ⟨slot, hslot, rfl⟩ := List.mem_map.1 hkey
      exact hslots _ (List.mem_map.2 ⟨slot, hslot, rfl⟩)
  unfold markVesting
  split_ifs with hvesting
  · refine (marks_markDirty _).keeps_bind hjournal (Keeps.bind ?_ fun _ =>
      keeps_deleteTreeLeaf _)
    refine StateDb.keeps_atomicStateCommit (journal_marked hjournal _) hchanges ?_
    rintro c hc l table ⟨hrows, hvest⟩
    obtain ⟨key, hkey, rfl⟩ := List.mem_map.1 hc
    rw [accountRows, if_pos hvesting] at hkey
    rcases List.mem_append.1 hkey with hkey | hkey
    · exact hmarked key hkey l table hrows
    · obtain rfl := List.mem_singleton.1 hkey
      exact hvest _ (by simp)
  · refine (keeps_pure _).bind fun _ => Keeps.bind ?_ fun _ => keeps_deleteTreeLeaf _
    refine StateDb.keeps_atomicStateCommit hjournal hchanges ?_
    intro c hc l table hrows
    obtain ⟨key, hkey, rfl⟩ := List.mem_map.1 hc
    rw [accountRows, if_neg hvesting, List.append_nil] at hkey
    exact hmarked key hkey l table hrows

/-- Every write makes marked writes only. -/
theorem keeps_logged_perform (hI : Journal K ok I) (hroot : ¬ K .stateRoot)
    (hokRoot : ∀ root, ok .stateRoot (some (.hash root))) {w : DbWrite}
    (hw : w.Typed ∨ ∀ key row, ok key row) : Keeps (Logged I ok committed) (w.perform env) := by
  have hcomposed : w.Composed → Keeps (Logged I ok committed) (w.perform env) := fun hw =>
    keeps_perform ∅ hw (fun address _ => keeps_logged_updateAccount hok hI address)
      (fun address slot _ _ => keeps_logged_setStorage hok hI address slot)
      (fun _ _ => keeps_setRaw hI (hok _ (some _))) (fun _ _ => keeps_setRaw hI (hok _ (some _)))
      (keeps_updateStateRoot hI hroot hokRoot)
  cases w with
  | deleteAccount address => exact keeps_logged_deleteAccount hok hI address
  | applySpeculativeWrite key value => exact keeps_applySpeculativeWrite hI fun _ => hok key value
  | applySpeculativeWriteStaged key value =>
    exact keeps_applySpeculativeWriteStaged fun _ => hok key value
  | flushStagedWrites => exact keeps_flushStagedWrites hI
  | discardStagedWrites => exact keeps_discardStagedWrites
  | setRaw key row => exact keeps_setRaw hI (hw.resolve_left id _ _)
  | deleteRaw key => exact keeps_deleteRaw hI (hw.resolve_left id _ _)
  | writeBatch changes => exact keeps_writeBatch hI fun _ _ => hw.resolve_left id _ _
  | updateTreeLeaf key value => exact keeps_updateTreeLeaf key value
  | deleteTreeLeaf key => exact keeps_deleteTreeLeaf key
  | _ => exact hcomposed trivial

end Logged

end TreeDb

end Sxiaum
