import Sxiaum.Block
import Sxiaum.Lib.HashMap

/-!
# Accounts and state rows

Accounts, vesting schedules, the rows of the state database and the errors that end an
execution (`types/account.rs`, `types/vesting.rs`, `state/state_db.rs`). Rows are kept
decoded; a key is the prefix and the fields it is built from.
-/

namespace Sxiaum

/-- `U256::saturating_mul`. -/
def satMul256 (a b : ℕ) : ℕ := min (a * b) u256Max

/-! ### Errors -/

inductive TxError where
  | invalidNonce (expected got : ℕ)
  | insufficientBalance
deriving DecidableEq, Repr

def TxError.message : TxError → String
  | .invalidNonce expected got =>
    s!"Invalid transaction nonce. Expected {expected}, got {got}"
  | .insufficientBalance => "Insufficient balance to execute transaction"

inductive AccountError where
  | overflow
  | underflow
  | nonceExhausted
  | invalidCodeHash
  | invalidStorageRoot
  | tooManyStorageEntries
  | duplicateStorageSlot
deriving DecidableEq, Repr

def AccountError.message : AccountError → String
  | .overflow => "Mathematical overflow during account state transition"
  | .underflow => "Mathematical underflow during account state transition"
  | .nonceExhausted => "Account nonce exhausted (reached u64::MAX)"
  | .invalidCodeHash => "Account code hash is not a canonical commitment"
  | .invalidStorageRoot => "Account storage root is not a canonical commitment"
  | .tooManyStorageEntries => "Too many storage entries for account storage root"
  | .duplicateStorageSlot => "Duplicate storage slot in account storage root input"

/-- An error of the execution crate: one that keeps its type, or only a text. -/
inductive ExecutionError where
  | tx (e : TxError)
  | account (e : AccountError)
  | other (reason : String)
deriving DecidableEq, Repr

namespace ExecutionError

def message : ExecutionError → String
  | .tx e => e.message
  | .account e => e.message
  | .other reason => reason

/-- The errors that `classify_speculative_failure` charges for. -/
def isBusiness : ExecutionError → Bool
  | .tx _ => true
  | .account _ => true
  | .other _ => false

end ExecutionError

/-- Fail with an error unless there is a value: `ok_or`. -/
def okOr {ε α : Type} (x : Option α) (e : ε) : Except ε α :=
  match x with
  | some a => .ok a
  | none => .error e

/-! ### Checked arithmetic -/

/-- `U256::checked_add`. -/
def checkedAdd256 (a b : ℕ) : Option ℕ := if a + b ≤ u256Max then some (a + b) else none

/-- `U256::checked_mul`. -/
def checkedMul256 (a b : ℕ) : Option ℕ := if a * b ≤ u256Max then some (a * b) else none

/-- `checked_sub` of any width. -/
def checkedSub (a b : ℕ) : Option ℕ := if b ≤ a then some (a - b) else none

/-! ### Accounts -/

/-- `EMPTY_CODE_HASH`, the Keccak digest of the empty string. -/
def emptyCodeHash : Hash := 0xc5d2460186f7233c927e7db2dcc703c0e500b653ca82273b7bfad8045d85a470

def emptyStorageRoot : Hash := 0x56e81f171bcc55a6ff8345e692c0f86e5b48e01b996cadc001622fb5e363b421

structure Account where
  address : Address
  balance : ℕ
  nonce : ℕ
  codeHash : Hash
  storageRoot : Hash
deriving DecidableEq, Repr

namespace Account

def new (address : Address) : Account where
  address := address
  balance := 0
  nonce := 0
  codeHash := emptyCodeHash
  storageRoot := emptyStorageRoot

def isContract (a : Account) : Bool := a.codeHash ≠ emptyCodeHash

def setCodeHash (a : Account) (codeHash : Hash) : Except AccountError Account :=
  if codeHash = 0 then .error .invalidCodeHash else .ok { a with codeHash := codeHash }

def setStorageRoot (a : Account) (storageRoot : Hash) : Except AccountError Account :=
  if storageRoot = 0 then .error .invalidStorageRoot else .ok { a with storageRoot := storageRoot }

def validate (a : Account) : Except AccountError Unit :=
  if a.codeHash = 0 then .error .invalidCodeHash
  else if a.storageRoot = 0 then .error .invalidStorageRoot
  else .ok ()

end Account

/-! ### Vesting -/

structure VestingSchedule where
  totalWei : ℕ
  startTs : ℕ
  cliffSecs : ℕ
  durationSecs : ℕ
  releasedWei : ℕ
deriving DecidableEq, Repr

namespace VestingSchedule

def vestedAmount (s : VestingSchedule) (nowTs : ℕ) : ℕ :=
  if nowTs < satAdd64 s.startTs s.cliffSecs then 0
  else if s.durationSecs = 0 ∨ satAdd64 s.startTs s.durationSecs ≤ nowTs then s.totalWei
  else
    let elapsed := nowTs - s.startTs
    match checkedMul256 s.totalWei elapsed with
    | some product => product / s.durationSecs
    | none =>
      satMul256 (s.totalWei / s.durationSecs) elapsed +
        satMul256 (s.totalWei % s.durationSecs) elapsed / s.durationSecs

def lockedAmount (s : VestingSchedule) (nowTs : ℕ) : ℕ := s.totalWei - s.vestedAmount nowTs

/-- `VestingSchedule::validate` passes. -/
def valid (s : VestingSchedule) : Bool :=
  if s.totalWei < s.releasedWei then false
  else if s.totalWei = 0 ∧ s.releasedWei = 0 then s.durationSecs = 0 && s.cliffSecs = 0
  else if 0 < s.durationSecs ∧ s.durationSecs < s.cliffSecs then false
  else !(s.durationSecs = 0 && 0 < s.cliffSecs && satAdd64 s.startTs s.cliffSecs < s.startTs)

end VestingSchedule

/-! ### Rows -/

/-- The keys of the state database that execution uses. -/
inductive StateKey where
  | account (address : Address)
  | storage (address : Address) (slot : Hash)
  | code (codeHash : Hash)
  | vesting (address : Address)
  | blockHash (number : ℕ)
deriving DecidableEq, Repr

/-- A decoded row; `empty` is the empty string that stands for a deletion in a write set. -/
inductive StateRow where
  | empty
  | account (account : Account)
  | word (value : Hash)
  | code (bytes : List UInt8)
  | vesting (schedule : VestingSchedule)
deriving DecidableEq, Repr

abbrev StateRows := HashMap StateKey StateRow

def decodeAccount : StateRow → Except ExecutionError Account
  | .account a =>
    match a.validate with
    | .ok () => .ok a
    | .error e => .error (.account e)
  | _ => .error (.other "account row does not decode")

namespace StateRows

variable (rows : StateRows) (address : Address)

def getAccount : Except ExecutionError (Option Account) :=
  match rows.lookup (.account address) with
  | none => .ok none
  | some row => (decodeAccount row).map some

def getVestingSchedule : Except ExecutionError (Option VestingSchedule) :=
  match rows.lookup (.vesting address) with
  | none => .ok none
  | some (.vesting s) =>
    if s.valid then .ok (some s) else .error (.other "invalid vesting schedule")
  | some _ => .error (.other "vesting row does not decode")

/-- `StateDb::get_account_storage_entries`, in the order of the scan. -/
def getAccountStorageEntries : List (Hash × Hash) :=
  (rows.entries.filterMap fun e =>
    match e.1, e.2 with
    | .storage a slot, .word value => if a = address then some (slot, value) else none
    | _, _ => none).insertionSort fun x y => x.1 ≤ y.1

end StateRows

end Sxiaum
