import Sxiaum.Consensus.Staking
import Sxiaum.Lib.StateProgram
import Sxiaum.Serialization

/-!
# Staking rows

What `StakingManager` keeps in the state table: a row for each stake and each delegation, beside it
a row for the epoch of the deposit, and one row for the current epoch. `restore` reads them,
`staking_state_persistence` writes all entries back after every operation and, if everything had
been restored, deletes the rows of entries that are gone.
-/

namespace Sxiaum.Pos

open Storage Bincode StateProgram

/-! ### Keys -/

/-- Neither text begins with the other. -/
def Apart (a b : Bytes) : Prop := a.isPrefixOf b = false ∧ b.isPrefixOf a = false

instance (a b : Bytes) : Decidable (Apart a b) := inferInstanceAs (Decidable (_ ∧ _))

lemma Apart.ne {a b : Bytes} (h : Apart a b) (x y : Bytes) : a ++ x ≠ b ++ y := by
  intro heq
  have ha : a <+: b ++ y := ⟨x, heq⟩
  have hb : b <+: b ++ y := ⟨y, rfl⟩
  obtain ⟨hab, hba⟩ := h
  rw [← Bool.not_eq_true, List.isPrefixOf_iff_prefix] at hab hba
  exact (List.prefix_or_prefix_of_prefix ha hb).elim hab hba

/-- How the rows of one kind and the rows of their epochs are named. -/
structure RowKeys (κ : Type) where
  start : Bytes
  epochStart : Bytes
  name : κ → Bytes
  parse : Bytes → Option κ
  parse_iff : ∀ bytes k, parse bytes = some k ↔ bytes = name k
  apart : Apart start epochStart

namespace RowKeys

variable {κ ν : Type} (keys : RowKeys κ)

def key (k : κ) : Bytes := keys.start ++ keys.name k

def epochKey (k : κ) : Bytes := keys.epochStart ++ keys.name k

/-- The name behind a text. -/
def decodeBehind (text key : Bytes) : Option κ :=
  if text.isPrefixOf key then keys.parse (key.drop text.length) else none

def decodeKey (key : Bytes) : Option κ := keys.decodeBehind keys.start key

def decodeEpochKey (key : Bytes) : Option κ := keys.decodeBehind keys.epochStart key

variable {keys} {k k' : κ} {key text : Bytes}

lemma decodeBehind_iff : keys.decodeBehind text key = some k ↔ key = text ++ keys.name k := by
  unfold decodeBehind
  constructor
  · intro h
    split_ifs at h with hstart
    rw [ List.isPrefixOf_iff_prefix] at hstart
    obtain ⟨rest, rfl⟩ := hstart
    rw [List.drop_left, keys.parse_iff] at h
    rw [h]
  · rintro rfl
    rw [if_pos ( List.isPrefixOf_iff_prefix.2 (List.prefix_append ..)), List.drop_left,
      keys.parse_iff]

lemma decodeKey_iff : keys.decodeKey key = some k ↔ key = keys.key k := decodeBehind_iff

lemma name_injective : Function.Injective keys.name := by
  intro k k' h
  have hk := (keys.parse_iff (keys.name k) k).2 rfl
  rw [(keys.parse_iff (keys.name k) k').2 h] at hk
  exact (Option.some.inj hk).symm

@[simp] lemma key_inj : keys.key k = keys.key k' ↔ k = k' :=
  List.append_right_inj _ |>.trans name_injective.eq_iff

@[simp] lemma epochKey_inj : keys.epochKey k = keys.epochKey k' ↔ k = k' :=
  List.append_right_inj _ |>.trans name_injective.eq_iff

lemma key_ne_epochKey : keys.key k ≠ keys.epochKey k' := keys.apart.ne _ _

end RowKeys

def parseAddress (bytes : Bytes) : Option AddressBytes :=
  if h : bytes.length = 32 then some ⟨bytes, h⟩ else none

lemma parseAddress_iff {bytes : Bytes} {v : AddressBytes} :
    parseAddress bytes = some v ↔ bytes = v.1 := by
  unfold parseAddress
  constructor
  · intro h
    split_ifs at h
    rw [← Option.some.inj h]
  · rintro rfl
    rw [dif_pos v.2]

def parsePair (bytes : Bytes) : Option (AddressBytes × AddressBytes) :=
  if h : bytes.length = 64 then
    some (⟨bytes.take 32, by rw [List.length_take]; omega⟩,
      ⟨bytes.drop 32, by rw [List.length_drop]; omega⟩)
  else none

lemma parsePair_iff {bytes : Bytes} {p : AddressBytes × AddressBytes} :
    parsePair bytes = some p ↔ bytes = p.1.1 ++ p.2.1 := by
  obtain ⟨⟨d, hd⟩, ⟨v, hv⟩⟩ := p
  unfold parsePair
  constructor
  · intro h
    split_ifs at h
    obtain ⟨h₁, h₂⟩ := Prod.mk.inj (Option.some.inj h)
    rw [← congrArg Subtype.val h₁, ← congrArg Subtype.val h₂, List.take_append_drop]
  · rintro rfl
    rw [dif_pos (by rw [List.length_append, hd, hv])]
    simp [List.take_left' hd, List.drop_left' hd]

def stakingStatePrefix : Bytes := ascii "staking:"

def stakingEpochKey : Bytes := stakingStatePrefix ++ ascii "epoch"

/-- `stake_prefix`, `stake_epoch_prefix` and the keys behind them. -/
def stakeRows : RowKeys AddressBytes where
  start := stakingStatePrefix ++ ascii "stake:"
  epochStart := stakingStatePrefix ++ ascii "stakeepoch:"
  name := Subtype.val
  parse := parseAddress
  parse_iff _ _ := parseAddress_iff
  apart := by decide

/-- `delegation_prefix`, `delegation_epoch_prefix` and the keys behind them. -/
def delegationRows : RowKeys (AddressBytes × AddressBytes) where
  start := stakingStatePrefix ++ ascii "delegate:"
  epochStart := stakingStatePrefix ++ ascii "delegateepoch:"
  name p := p.1.1 ++ p.2.1
  parse := parsePair
  parse_iff _ _ := parsePair_iff
  apart := by decide

/-! ### Values -/

section Values

variable (texts : U256Text)

variable (e : IntEncoding) (stake : Stake AddressBytes)

def writeStake : Bytes :=
  stake.validator.1 ++ texts.write e stake.amount

def readAddress : Reader AddressBytes := do
  let bytes ← takeBytes 32
  ofOption (parseAddress bytes)

def readStake : Reader (Stake AddressBytes) := do
  let validator ← readAddress
  let amount ← texts.read e
  return ⟨validator, amount⟩

/-- `<Stake as Canonical>::try_encode`. -/
def encodeStake : Option Bytes :=
  Canonical.tryEncode (writeStake texts .varint stake)

/-- `<Stake as Canonical>::decode`, or else `bincode::deserialize`. -/
def decodeStake (bytes : Bytes) : Option (Stake AddressBytes) :=
  (Canonical.decode (readStake texts .varint) bytes).orElse fun _ =>
    readFront (readStake texts .fixint) bytes

/-- `<U256 as Canonical>::try_encode`. -/
def encodeAmount (amount : ℕ) : Option Bytes := Canonical.tryEncode (texts.write .varint amount)

/-- `<U256 as Canonical>::decode`, or else `bincode::deserialize`. -/
def decodeAmount (bytes : Bytes) : Option ℕ :=
  (Canonical.decode (texts.read .varint) bytes).orElse fun _ => readFront (texts.read .fixint) bytes

variable {texts}

lemma reads_readAddress (v : AddressBytes) : Reads readAddress v.1 v := by
  have htake := reads_takeBytes v.1
  rw [v.2] at htake
  have hread := htake.bind (f := fun bytes => ofOption (parseAddress bytes))
    (reads_ofOption (parseAddress_iff.2 rfl))
  rwa [List.append_nil] at hread

lemma reads_readStake {stake : Stake AddressBytes}
    (h : stake.amount ≤ u256Max) : Reads (readStake texts e) (writeStake texts e stake) stake :=
  (reads_readAddress stake.validator).bind
    (f := fun validator => do
      let amount ← texts.read e
      return Stake.mk validator amount)
    ((texts.reads_read e h).bind_pure (f := fun amount => Stake.mk stake.validator amount))

lemma length_write_le {n : ℕ} (h : n ≤ u256Max) : (texts.write .varint n).length ≤ 75 := by
  have hlength := texts.length_text n h
  unfold U256Text.write writeBytes
  rw [writeInt, if_pos (by omega)]
  simp
  omega

lemma decodeStake_encodeStake {stake : Stake AddressBytes} (h : stake.amount ≤ u256Max) :
    (encodeStake texts stake).map (decodeStake texts) = some (some stake) := by
  have hwritten : encodeStake texts stake = some (writeStake texts .varint stake) := by
    have hlength : (texts.write .varint stake.amount).length ≤ 75 := length_write_le h
    rw [encodeStake, Canonical.tryEncode, if_pos]
    rw [writeStake, List.length_append, stake.validator.2, Canonical.maxSize]
    omega
  rw [hwritten, Option.map_some, decodeStake,
    Canonical.decode_of_tryEncode (reads_readStake .varint h) hwritten]
  rfl

lemma decodeAmount_encodeAmount {amount : ℕ} (h : amount ≤ u256Max) :
    (encodeAmount texts amount).map (decodeAmount texts) = some (some amount) := by
  have hwritten : encodeAmount texts amount = some (texts.write .varint amount) := by
    have hlength : (texts.write .varint amount).length ≤ 75 := length_write_le h
    rw [encodeAmount, Canonical.tryEncode, if_pos]
    rw [Canonical.maxSize]
    omega
  rw [hwritten, Option.map_some, decodeAmount,
    Canonical.decode_of_tryEncode (texts.reads_read .varint h) hwritten]
  rfl

end Values

/-! ### Writing back -/

namespace RowKeys

variable {κ ν : Type} [DecidableEq κ] (keys : RowKeys κ)

/-- The entries as rows, each with the epoch that is known for it. -/
def changes (encode : ν → Option Bytes) (values : HashMap κ ν) (epochs : HashMap κ ℕ) :
    List (Bytes × Option Bytes) :=
  values.entries.flatMap fun e => (keys.key e.1, encode e.2) ::
    ((epochs.lookup e.1).map fun epoch => (keys.epochKey e.1, some (encodeU64 epoch))).toList

/-- The deletion of rows without an entry. -/
def deletions (values : HashMap κ ν) (existing : List (Bytes × Bytes)) :
    List (Bytes × Option Bytes) :=
  existing.flatMap fun row =>
    match keys.decodeKey row.1 with
    | some k => if k ∈ values then [] else [(row.1, none), (keys.epochKey k, none)]
    | none => []

variable {keys} {encode : ν → Option Bytes} {values : HashMap κ ν} {epochs : HashMap κ ℕ}

lemma mem_changes {c : Bytes × Option Bytes} : c ∈ keys.changes encode values epochs ↔
    ∃ k v, values.lookup k = some v ∧ (c = (keys.key k, encode v) ∨
      ∃ epoch, epochs.lookup k = some epoch ∧ c = (keys.epochKey k, some (encodeU64 epoch))) := by
  simp only [changes, List.mem_flatMap, List.mem_cons, Option.mem_toList,
    Option.map_eq_some_iff]
  constructor
  · rintro ⟨⟨k, v⟩, hmem, h⟩
    refine ⟨k, v, AList.mem_lookup_iff.2 hmem, h.imp_right ?_⟩
    rintro ⟨epoch, hepoch, rfl⟩
    exact ⟨epoch, hepoch, rfl⟩
  · rintro ⟨k, v, hlookup, h⟩
    refine ⟨⟨k, v⟩, AList.mem_lookup_iff.1 hlookup, h.imp_right ?_⟩
    rintro ⟨epoch, hepoch, rfl⟩
    exact ⟨epoch, hepoch, rfl⟩

lemma mem_deletions {c : Bytes × Option Bytes} {existing : List (Bytes × Bytes)} :
    c ∈ keys.deletions values existing ↔ ∃ k bytes, (keys.key k, bytes) ∈ existing ∧
      values.lookup k = none ∧ (c = (keys.key k, none) ∨ c = (keys.epochKey k, none)) := by
  simp only [deletions, List.mem_flatMap]
  constructor
  · rintro ⟨⟨key, bytes⟩, hmem, hc⟩
    dsimp only at hc
    cases hkey : keys.decodeKey key with
    | none =>
      rw [hkey] at hc
      cases hc
    | some k =>
      rw [hkey] at hc
      obtain rfl := decodeKey_iff.1 hkey
      by_cases hk : k ∈ values
      · simp [hk] at hc
      · simp only [hk, if_false, List.mem_cons, List.not_mem_nil, or_false] at hc
        exact ⟨k, bytes, hmem, AList.lookup_eq_none.2 hk, hc⟩
  · rintro ⟨k, bytes, hmem, hlookup, hc⟩
    refine ⟨(keys.key k, bytes), hmem, ?_⟩
    dsimp only
    rw [decodeKey_iff.2 rfl]
    simpa [AList.lookup_eq_none.1 hlookup] using hc

end RowKeys

section Persistence

variable (texts : U256Text)

/-- What `staking_state_persistence` changes in the state table. -/
def stakingChanges (m : StakingManager AddressBytes) (table : StateBytes) :
    List (Bytes × Option Bytes) :=
  [(stakingEpochKey, some (encodeU64 m.currentEpoch))] ++
    stakeRows.changes (encodeStake texts) m.stakes m.depositEpochs ++
    (if m.fullyRestored then
      stakeRows.deletions m.stakes (statePrefixScan table stakeRows.start) else []) ++
    delegationRows.changes (encodeAmount texts) m.delegations m.delegationEpochs ++
    (if m.fullyRestored then
      delegationRows.deletions m.delegations (statePrefixScan table delegationRows.start) else [])

def stakingStatePersistence (m : StakingManager AddressBytes) (table : StateBytes) : StateBytes :=
  atomicStateCommit table (stakingChanges texts m table)

/-- An operation and what it leaves in the storage, where the write may fail: a refused operation
changes nothing, and a failed write leaves the rows as they were. -/
def storedStep (s : StakingManager AddressBytes × StateBytes) (op : StakingOp AddressBytes)
    (fails : Bool) : StakingManager AddressBytes × StateBytes :=
  match s.1.apply op with
  | .error _ => s
  | .ok m => (m, if fails then s.2 else stakingStatePersistence texts m s.2)

end Persistence

/-! ### Restoring -/

/-- The reads of `restore`. -/
inductive RestoreRead where
  | epoch
  | stakes
  | depositEpochs
  | delegations
  | delegationEpochs
deriving DecidableEq, Repr

inductive RestoreError where
  | storage (read : RestoreRead)
  | undecodable (key : Bytes)
deriving DecidableEq, Repr

/-- Read rows into a map. A row of another name is left out, as is one whose value is skipped; one
that cannot be decoded ends the reading, and its key is returned. -/
def loadRows {κ ν : Type} [DecidableEq κ] (decodeKey : Bytes → Option κ)
    (decode : Bytes → Option (Option ν)) :
    List (Bytes × Bytes) → HashMap κ ν → HashMap κ ν × Option Bytes
  | [], values => (values, none)
  | (key, bytes) :: rows, values =>
    match decodeKey key with
    | none => loadRows decodeKey decode rows values
    | some k =>
      match decode bytes with
      | none => (values, some key)
      | some none => loadRows decodeKey decode rows values
      | some (some v) => loadRows decodeKey decode rows (values.insert k v)

section Restore

variable (texts : U256Text) (fails : RestoreRead → Bool) (table : StateBytes)

def loadingEnd : Option Bytes → Except RestoreError Unit
  | some key => .error (.undecodable key)
  | none => .ok ()

/-- One part of `restore`: the read may fail, and what has been loaded before a row that cannot be
decoded stays. -/
def restorePart (read : RestoreRead)
    (load : StakingManager AddressBytes → StakingManager AddressBytes × Option Bytes) :
    StateProgram (StakingManager AddressBytes) RestoreError Unit := do
  if fails read then throw (.storage read)
  let m ← get
  set (load m).1
  liftExcept (loadingEnd (load m).2)

variable (m : StakingManager AddressBytes)

def restoreEpoch : StakingManager AddressBytes × Option Bytes :=
  ({ m with currentEpoch :=
      ((table.lookup stakingEpochKey).bind decodeU64).getD m.currentEpoch }, none)

def restoreStakes : StakingManager AddressBytes × Option Bytes :=
  let loaded := loadRows stakeRows.decodeKey (fun bytes => (decodeStake texts bytes).map some)
    (statePrefixScan table stakeRows.start) m.stakes
  ({ m with stakes := loaded.1 }, loaded.2)

def restoreDepositEpochs : StakingManager AddressBytes × Option Bytes :=
  let loaded := loadRows stakeRows.decodeEpochKey (fun bytes => some (decodeU64 bytes))
    (statePrefixScan table stakeRows.epochStart) m.depositEpochs
  ({ m with depositEpochs := loaded.1 }, loaded.2)

def restoreDelegations : StakingManager AddressBytes × Option Bytes :=
  let loaded := loadRows delegationRows.decodeKey
    (fun bytes => (decodeAmount texts bytes).map some)
    (statePrefixScan table delegationRows.start) m.delegations
  ({ m with delegations := loaded.1 }, loaded.2)

def restoreDelegationEpochs : StakingManager AddressBytes × Option Bytes :=
  let loaded := loadRows delegationRows.decodeEpochKey (fun bytes => some (decodeU64 bytes))
    (statePrefixScan table delegationRows.epochStart) m.delegationEpochs
  ({ m with delegationEpochs := loaded.1 }, loaded.2)

def restore : StateProgram (StakingManager AddressBytes) RestoreError Unit := do
  restorePart fails .epoch (restoreEpoch table)
  restorePart fails .stakes (restoreStakes texts table)
  restorePart fails .depositEpochs (restoreDepositEpochs table)
  restorePart fails .delegations (restoreDelegations texts table)
  restorePart fails .delegationEpochs (restoreDelegationEpochs table)
  modify fun m => { m with fullyRestored := true }

/-- `with_storage`: the manager is used whether the rows could be restored or not. -/
def withStorage : StakingManager AddressBytes := ((restore texts fails table).run .new).2

end Restore

/-! ### What is loaded -/

section Loading

variable {κ ν : Type} [DecidableEq κ] {decodeKey : Bytes → Option κ}
  {decode : Bytes → Option (Option ν)} {rows : List (Bytes × Bytes)} {values : HashMap κ ν}

/-- What the entries and the rows satisfy, what has been loaded satisfies. -/
lemma forall_lookup_loadRows {P : κ → ν → Prop} (hvalues : ∀ k v, values.lookup k = some v → P k v)
    (hrows : ∀ row ∈ rows, ∀ k v, decodeKey row.1 = some k → decode row.2 = some (some v) → P k v) :
    ∀ k v, (loadRows decodeKey decode rows values).1.lookup k = some v → P k v := by
  induction rows generalizing values with
  | nil => exact hvalues
  | cons row rows ih =>
    obtain ⟨hrow, hrows⟩ := List.forall_mem_cons.1 hrows
    rw [loadRows]
    cases hkey : decodeKey row.1 with
    | none => exact ih hvalues hrows
    | some k =>
      rcases hdecode : decode row.2 with _ | _ | v
      · exact hvalues
      · exact ih hvalues hrows
      · exact ih (AList.forall_lookup_insert hvalues (hrow k v hkey hdecode)) hrows

lemma loadRows_end : (loadRows decodeKey decode rows values).2 = none ↔
    ∀ row ∈ rows, (decodeKey row.1).isSome → decode row.2 ≠ none := by
  induction rows generalizing values with
  | nil => simp [loadRows]
  | cons row rows ih =>
    rw [loadRows, List.forall_mem_cons]
    cases decodeKey row.1 with
    | none => simp [ih]
    | some k => rcases decode row.2 with _ | _ | v <;> simp [ih]

lemma loadRows_eq (hend : (loadRows decodeKey decode rows values).2 = none) :
    (loadRows decodeKey decode rows values).1 = values.putAll (rows.filterMap fun row =>
      (decodeKey row.1).bind fun k => (decode row.2).join.map fun v => (k, some v)) := by
  induction rows generalizing values with
  | nil => rfl
  | cons row rows ih =>
    rw [loadRows] at hend ⊢
    rw [List.filterMap_cons]
    cases hkey : decodeKey row.1 with
    | none =>
      rw [hkey] at hend
      exact ih hend
    | some k =>
      rw [hkey] at hend
      rcases hdecode : decode row.2 with _ | _ | v <;> rw [hdecode] at hend
      · cases hend
      · exact ih hend
      · exact ih hend

end Loading

end Sxiaum.Pos
