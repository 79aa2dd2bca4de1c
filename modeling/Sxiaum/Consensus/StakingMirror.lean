import Sxiaum.Consensus.StakingStorage

/-!
# The staking rows mirror the manager

After a full restore every row is an entry of the manager and every entry a row. Each operation
moves an entry and its epoch together, and what is written back makes the rows follow, so that a
manager that is restored from the rows later on is the one that has been running.
-/

namespace Sxiaum.Pos

open Bincode RowKeys StateProgram Storage

/-! ### Rows of one kind -/

section Kinds

variable {κ ν : Type} [DecidableEq κ] {keys : RowKeys κ} {encode : ν → Option Bytes}
  {decode : Bytes → Option ν} {table table' : StateBytes} {values values' : HashMap κ ν}
  {epochs epochs' : HashMap κ ℕ} {k : κ}

/-- The rows of a kind are the entries of a map, and the rows of epochs those of another. -/
structure Mirrors (keys : RowKeys κ) (decode : Bytes → Option ν) (table : StateBytes)
    (values : HashMap κ ν) (epochs : HashMap κ ℕ) : Prop where
  rows : ∀ k, (table.lookup (keys.key k)).map decode = (values.lookup k).map some
  epochs : ∀ k, (table.lookup (keys.epochKey k)).bind decodeU64 = epochs.lookup k

namespace Mirrors

lemma row_none_iff (h : Mirrors keys decode table values epochs) :
    table.lookup (keys.key k) = none ↔ values.lookup k = none := by
  rw [← Option.map_eq_none_iff (f := decode), h.rows, Option.map_eq_none_iff]

lemma unique (h : Mirrors keys decode table values epochs)
    (h' : Mirrors keys decode table values' epochs') (k : κ) :
    values'.lookup k = values.lookup k ∧ epochs'.lookup k = epochs.lookup k := by
  refine ⟨?_, (h'.epochs k).symm.trans (h.epochs k)⟩
  exact Option.map_injective (Option.some_injective _) ((h'.rows k).symm.trans (h.rows k))

end Mirrors

omit [DecidableEq κ] in
lemma mem_scan {text bytes : Bytes} :
    (text ++ keys.name k, bytes) ∈ statePrefixScan table text ↔
      table.lookup (text ++ keys.name k) = some bytes := by
  rw [mem_statePrefixScan]
  exact and_iff_right (List.prefix_append ..)

/-- Rows that can all be decoded are loaded as they are. -/
lemma lookup_loadRows_scan {ν : Type} {decode : Bytes → Option (Option ν)} {text : Bytes}
    (hend : (loadRows (keys.decodeBehind text) decode (statePrefixScan table text) ∅).2 = none)
    (k : κ) :
    (loadRows (keys.decodeBehind text) decode (statePrefixScan table text) ∅).1.lookup k =
      (table.lookup (text ++ keys.name k)).bind fun bytes => (decode bytes).join := by
  rw [loadRows_eq hend, AList.lookup_putAll_eq (o := ((table.lookup (text ++ keys.name k)).bind
    fun bytes => (decode bytes).join).map some)]
  · cases (table.lookup (text ++ keys.name k)).bind fun bytes => (decode bytes).join <;> rfl
  · intro y
    simp only [List.mem_filterMap, Option.bind_eq_some_iff, Option.map_eq_some_iff, decodeBehind_iff,
      Prod.mk.injEq, Prod.exists]
    constructor
    · rintro ⟨key, bytes, hmem, k', rfl, v, hv, rfl, rfl⟩
      exact ⟨v, ⟨bytes, mem_scan.1 hmem, hv⟩, rfl⟩
    · rintro ⟨v, ⟨bytes, hrow, hv⟩, rfl⟩
      exact ⟨_, bytes, mem_scan.2 hrow, k, rfl, v, hv, rfl, rfl⟩

lemma mirrors_loadRows (hend : (loadRows keys.decodeKey (fun bytes => (decode bytes).map some)
      (statePrefixScan table keys.start) ∅).2 = none) :
    Mirrors keys decode table
      (loadRows keys.decodeKey (fun bytes => (decode bytes).map some)
        (statePrefixScan table keys.start) ∅).1
      (loadRows keys.decodeEpochKey (fun bytes => some (decodeU64 bytes))
        (statePrefixScan table keys.epochStart) ∅).1 where
  rows k := by
    have hloaded : (loadRows keys.decodeKey (fun bytes => (decode bytes).map some)
        (statePrefixScan table keys.start) ∅).1.lookup k =
        (table.lookup (keys.key k)).bind fun bytes => ((decode bytes).map some).join :=
      lookup_loadRows_scan hend k
    rw [hloaded]
    cases hrow : table.lookup (keys.key k) with
    | none => rfl
    | some bytes =>
      have hdecoded := loadRows_end.1 hend (keys.key k, bytes) (mem_scan.2 hrow)
        (by rw [decodeKey_iff.2 rfl]; rfl)
      obtain ⟨v, hv⟩ : ∃ v, decode bytes = some v := by
        cases hv : decode bytes with
        | none =>
          rw [hv] at hdecoded
          exact absurd rfl hdecoded
        | some v => exact ⟨v, rfl⟩
      rw [Option.map_some, Option.bind_some, hv]
      rfl
  epochs k := by
    have hloaded : (loadRows keys.decodeEpochKey (fun bytes => some (decodeU64 bytes))
        (statePrefixScan table keys.epochStart) ∅).1.lookup k =
        (table.lookup (keys.epochKey k)).bind fun bytes => (some (decodeU64 bytes)).join :=
      lookup_loadRows_scan (loadRows_end.2 fun _ _ _ => Option.some_ne_none _) k
    rw [hloaded]
    rfl

/-- An entry and its epoch move together: an entry that stays keeps its epoch or has a new one, one
that goes takes its epoch along, and where there is no entry the epoch stays. -/
def Move (x x' : Option ν) (epoch epoch' : Option ℕ) : Prop :=
  match x', x with
  | some _, _ => epoch' = epoch ∨ epoch'.isSome
  | none, some _ => epoch' = none
  | none, none => epoch' = epoch

omit [DecidableEq κ] in
lemma move_refl (x : Option ν) (epoch : Option ℕ) : Move x x epoch epoch := by
  cases x with
  | none => rfl
  | some v => exact .inl rfl

lemma Change.move {now : ℕ} {opens deposits : κ → Prop} {values values' : HashMap κ ν}
    {epochs epochs' : HashMap κ ℕ} (h : Change now opens deposits values epochs values' epochs')
    (k : κ) :
    Move (values.lookup k) (values'.lookup k) (epochs.lookup k) (epochs'.lookup k) := by
  cases h with
  | keep => exact move_refl _ _
  | insert k' v =>
    by_cases hk : k = k'
    · subst hk
      rw [AList.lookup_insert]
      exact .inl rfl
    · rw [AList.lookup_insert_ne hk]
      exact move_refl _ _
  | deposit k' v =>
    by_cases hk : k = k'
    · subst hk
      rw [AList.lookup_insert, AList.lookup_insert]
      exact .inr rfl
    · rw [AList.lookup_insert_ne hk, AList.lookup_insert_ne hk]
      exact move_refl _ _
  | erase k' hsome =>
    by_cases hk : k = k'
    · subst hk
      obtain ⟨v, hv⟩ := Option.isSome_iff_exists.1 hsome
      rw [hv, AList.lookup_erase, AList.lookup_erase]
      rfl
    · rw [AList.lookup_erase_ne hk, AList.lookup_erase_ne hk]
      exact move_refl _ _

/-- What is written back of one kind, with the deletion of rows without an entry. -/
def RowKeys.updates (keys : RowKeys κ) (encode : ν → Option Bytes) (values : HashMap κ ν)
    (epochs : HashMap κ ℕ) (existing : List (Bytes × Bytes)) : List (Bytes × Option Bytes) :=
  keys.changes encode values epochs ++ keys.deletions values existing

variable {existing : List (Bytes × Bytes)}

lemma mem_updates {y : Option Bytes} :
    ((keys.key k, y) ∈ keys.updates encode values epochs existing ↔
      match values.lookup k with
      | some v => y = encode v
      | none => keys.key k ∈ existing.map Prod.fst ∧ y = none) ∧
    ((keys.epochKey k, y) ∈ keys.updates encode values epochs existing ↔
      match values.lookup k with
      | some _ => ∃ epoch, epochs.lookup k = some epoch ∧ y = some (encodeU64 epoch)
      | none => keys.key k ∈ existing.map Prod.fst ∧ y = none) := by
  have hne : ∀ k', keys.epochKey k ≠ keys.key k' := fun _ => key_ne_epochKey.symm
  cases hv : values.lookup k <;>
    simp [updates, mem_changes, mem_deletions, hv, key_ne_epochKey, hne]

/-- The row of an entry is written; the row of one that is gone is deleted if it was there. -/
lemma lookup_updates_key :
    (table.putAll (keys.updates encode values epochs existing)).lookup (keys.key k) =
      (values.lookup k).elim (if keys.key k ∈ existing.map Prod.fst then none
        else table.lookup (keys.key k)) encode := by
  cases hv : values.lookup k with
  | some v =>
    exact AList.lookup_putAll_eq (o := some (encode v)) fun y => by simp [mem_updates, hv, eq_comm]
  | none =>
    rw [Option.elim_none]
    split_ifs with hrow
    · exact AList.lookup_putAll_eq (o := some none) fun y => by
        simp [mem_updates, hv, hrow, eq_comm]
    · exact AList.lookup_putAll_eq (o := none) fun y => by simp [mem_updates, hv, hrow]

lemma lookup_updates_epochKey :
    (table.putAll (keys.updates encode values epochs existing)).lookup (keys.epochKey k) =
      (values.lookup k).elim (if keys.key k ∈ existing.map Prod.fst then none
        else table.lookup (keys.epochKey k)) fun _ =>
        ((epochs.lookup k).map encodeU64).or (table.lookup (keys.epochKey k)) := by
  cases hv : values.lookup k with
  | some v =>
    cases hepoch : epochs.lookup k with
    | some epoch =>
      exact AList.lookup_putAll_eq (o := some (some (encodeU64 epoch))) fun y => by
        simp [mem_updates, hv, hepoch, eq_comm]
    | none => exact AList.lookup_putAll_eq (o := none) fun y => by simp [mem_updates, hv, hepoch]
  | none =>
    rw [Option.elim_none]
    split_ifs with hrow
    · exact AList.lookup_putAll_eq (o := some none) fun y => by
        simp [mem_updates, hv, hrow, eq_comm]
    · exact AList.lookup_putAll_eq (o := none) fun y => by simp [mem_updates, hv, hrow]

lemma lookup_updates_of_ne {key : Bytes} (hkey : ∀ k, key ≠ keys.key k ∧ key ≠ keys.epochKey k) :
    (table.putAll (keys.updates encode values epochs existing)).lookup key = table.lookup key := by
  refine AList.lookup_putAll_eq (o := none) fun y => ?_
  simp [RowKeys.updates, mem_changes, mem_deletions, fun k => (hkey k).1, fun k => (hkey k).2]

theorem Mirrors.persist (h : Mirrors keys decode table values epochs)
    (hmove : ∀ k, Move (values.lookup k) (values'.lookup k) (epochs.lookup k) (epochs'.lookup k))
    (hencode : ∀ k v, values'.lookup k = some v → (encode v).map decode = some (some v))
    (hepochs : ∀ k epoch, epochs'.lookup k = some epoch → epoch ≤ u64Max)
    (hkeys : ∀ k, ∀ key ∈ [keys.key k, keys.epochKey k], table'.lookup key = (table.putAll
      (keys.updates encode values' epochs' (statePrefixScan table keys.start))).lookup key) :
    Mirrors keys decode table' values' epochs' := by
  -- the rows of the scan are those of the entries before
  have hrow : ∀ k, keys.key k ∈ (statePrefixScan table keys.start).map Prod.fst ↔
      values.lookup k ≠ none := by
    intro k
    rw [Ne, ← h.row_none_iff, ← Ne, Option.ne_none_iff_exists', List.mem_map]
    constructor
    · rintro ⟨⟨_, bytes⟩, hmem, rfl⟩
      exact ⟨bytes, mem_scan.1 hmem⟩
    · rintro ⟨bytes, hbytes⟩
      exact ⟨_, mem_scan.2 hbytes, rfl⟩
  constructor
  · intro k
    rw [hkeys k _ (by simp), lookup_updates_key]
    cases hv : values'.lookup k with
    | some v => exact hencode k v hv
    | none =>
      rw [Option.elim_none]
      split_ifs with hgone
      · rfl
      · rw [hrow, not_not, ← h.row_none_iff] at hgone
        rw [hgone]
        rfl
  · intro k
    have hk := hmove k
    rw [hkeys k _ (by simp), lookup_updates_epochKey]
    cases hv : values'.lookup k with
    | some v =>
      rw [hv] at hk
      cases hepoch : epochs'.lookup k with
      | some epoch => exact decodeU64_encodeU64 (hepochs k epoch hepoch)
      -- no epoch is written, and there was none
      | none =>
        rw [hepoch] at hk
        exact (h.epochs k).trans (hk.resolve_right (by simp)).symm
    | none =>
      rw [hv] at hk
      rw [Option.elim_none]
      simp only [hrow]
      cases hv₀ : values.lookup k with
      | some v =>
        rw [hv₀] at hk
        exact hk.symm
      | none =>
        rw [hv₀] at hk
        exact (h.epochs k).trans hk.symm

end Kinds

/-! ### Operations -/

section Operations

variable {α : Type} [DecidableEq α] {m m' : StakingManager α} {op : StakingOp α} {v d : α} {a : ℕ}
  {entry : Stake α}

/-- Amounts are of the type `U256` and epochs of the type `u64`. -/
structure Sized (m : StakingManager α) : Prop where
  stakes : ∀ v s, m.stakes.lookup v = some s → s.amount ≤ u256Max
  depositEpochs : ∀ v epoch, m.depositEpochs.lookup v = some epoch → epoch ≤ u64Max
  delegations : ∀ p x, m.delegations.lookup p = some x → x ≤ u256Max
  delegationEpochs : ∀ p epoch, m.delegationEpochs.lookup p = some epoch → epoch ≤ u64Max
  epoch : m.currentEpoch ≤ u64Max

lemma Sized.credit (hm : Sized m) (v : α) (a : ℕ) : Sized (m.credit v a) :=
  { hm with stakes := AList.forall_lookup_insert hm.stakes (Nat.min_le_right ..) }

lemma Sized.debit (hm : Sized m) (h : m.stakes.lookup v = some entry) : Sized (m.debit v entry a) := by
  unfold StakingManager.debit
  split_ifs
  · exact { hm with
      stakes := AList.forall_lookup_erase hm.stakes
      depositEpochs := AList.forall_lookup_erase hm.depositEpochs }
  · exact { hm with
      stakes := AList.forall_lookup_insert hm.stakes ((Nat.sub_le ..).trans (hm.stakes v entry h)) }

lemma Sized.debitDelegation (hm : Sized m) {key : α × α} {left : ℕ}
    (h : m.delegations.lookup key = some left) : Sized (m.debitDelegation key a left) := by
  unfold StakingManager.debitDelegation
  split_ifs
  · exact { hm with
      delegations := AList.forall_lookup_erase hm.delegations
      delegationEpochs := AList.forall_lookup_erase hm.delegationEpochs }
  · exact { hm with
      delegations := AList.forall_lookup_insert hm.delegations
        ((Nat.sub_le ..).trans (hm.delegations key left h)) }

lemma Sized.apply (hm : Sized m) (h : m.apply op = .ok m') : Sized m' := by
  cases op with
  | stakeTokens v a =>
    obtain ⟨-, rfl⟩ := StakingManager.stakeTokens_ok.1 h
    refine Sized.credit ?_ v a
    exact { hm with depositEpochs := AList.forall_lookup_insert hm.depositEpochs hm.epoch }
  | unstakeTokens v a =>
    obtain ⟨-, _, -, -, entry, hentry, -, rfl⟩ := StakingManager.unstakeTokens_ok.1 h
    exact hm.debit hentry
  | delegateStake d v a =>
    obtain ⟨-, rfl⟩ := StakingManager.delegateStake_ok.1 h
    exact { hm.credit v a with
      delegations := AList.forall_lookup_insert hm.delegations (Nat.min_le_right ..)
      delegationEpochs := AList.forall_lookup_insert hm.delegationEpochs hm.epoch }
  | undelegateStake d v a =>
    obtain ⟨-, _, -, -, left, hleft, -, entry, hentry, -, rfl⟩ :=
      StakingManager.undelegateStake_ok.1 h
    refine (hm.debitDelegation hleft).debit ?_
    rwa [StakingManager.stakeMaps_debitDelegation.1]
  | slashValidator v a =>
    obtain ⟨entry, hentry, rfl⟩ := StakingManager.slashValidator_ok.1 h
    exact hm.debit hentry
  | rewardValidator v a =>
    obtain rfl := Except.ok.inj h
    exact hm.credit v a
  | stakingEpochUpdate =>
    obtain rfl := Except.ok.inj h
    exact { hm with epoch := Nat.min_le_right .. }

end Operations

/-! ### The manager and its rows -/

section Manager

variable {texts : U256Text} {fails : RestoreRead → Bool} {table : StateBytes}
  {m m' n : StakingManager AddressBytes} {op : StakingOp AddressBytes}

structure MirrorsManager (texts : U256Text) (table : StateBytes) (m : StakingManager AddressBytes) :
    Prop where
  stakes : Mirrors stakeRows (decodeStake texts) table m.stakes m.depositEpochs
  delegations : Mirrors delegationRows (decodeAmount texts) table m.delegations m.delegationEpochs
  epoch : ((table.lookup stakingEpochKey).bind decodeU64).getD 0 = m.currentEpoch

/-- The managers hold the same entries. -/
structure SameEntries (m n : StakingManager AddressBytes) : Prop where
  stakes : ∀ v, n.stakes.lookup v = m.stakes.lookup v
  depositEpochs : ∀ v, n.depositEpochs.lookup v = m.depositEpochs.lookup v
  delegations : ∀ p, n.delegations.lookup p = m.delegations.lookup p
  delegationEpochs : ∀ p, n.delegationEpochs.lookup p = m.delegationEpochs.lookup p
  currentEpoch : n.currentEpoch = m.currentEpoch

lemma MirrorsManager.sameEntries (h : MirrorsManager texts table m)
    (h' : MirrorsManager texts table n) : SameEntries m n where
  stakes v := (h.stakes.unique h'.stakes v).1
  depositEpochs v := (h.stakes.unique h'.stakes v).2
  delegations p := (h.delegations.unique h'.delegations p).1
  delegationEpochs p := (h.delegations.unique h'.delegations p).2
  currentEpoch := h'.epoch.symm.trans h.epoch

lemma loadingEnd_ok {stop : Option Bytes} {u : Unit} : loadingEnd stop = .ok u ↔ stop = none := by
  cases stop <;> simp [loadingEnd]

lemma runs_restorePart {read : RestoreRead} {u : Unit}
    {load : StakingManager AddressBytes → StakingManager AddressBytes × Option Bytes} :
    Runs (restorePart fails read load) m u m' ↔
      fails read = false ∧ (load m).2 = none ∧ (load m).1 = m' := by
  simp only [restorePart, runs_guard, runs_bind, runs_get, runs_set, runs_liftExcept,
    loadingEnd_ok, Bool.not_eq_true]
  constructor
  · rintro ⟨hfails, _, _, ⟨rfl, rfl⟩, _, _, rfl, hend, rfl⟩
    exact ⟨hfails, hend, rfl⟩
  · rintro ⟨hfails, hend, rfl⟩
    exact ⟨hfails, m, m, ⟨rfl, rfl⟩, (), _, rfl, hend, rfl⟩

lemma amount_le_of_read {e : IntEncoding} {bytes rest : Bytes} {x : ℕ}
    (h : texts.read e bytes = some (x, rest)) : x ≤ u256Max := by
  obtain ⟨t, mid, -, hparse⟩ := run_bind.1 h
  cases hx : texts.parse t with
  | none =>
    rw [hx] at hparse
    cases hparse
  | some y =>
    rw [hx] at hparse
    cases hparse
    exact texts.parse_le t _ hx

lemma amount_le_of_readStake {e : IntEncoding} {bytes rest : Bytes} {s : Stake AddressBytes}
    (h : readStake texts e bytes = some (s, rest)) : s.amount ≤ u256Max := by
  obtain ⟨v, mid, -, h⟩ := run_bind.1 h
  obtain ⟨x, mid', hread, h⟩ := run_bind.1 h
  cases h
  exact amount_le_of_read hread

/-- What a canonical reader or the other one has decoded was read by one of them. -/
lemma read_of_decoded {α : Type} {read read' : Reader α} {bytes : Bytes} {x : α}
    (h : ((Canonical.decode read bytes).orElse fun _ => readFront read' bytes) = some x) :
    (∃ rest, read bytes = some (x, rest)) ∨ ∃ rest, read' bytes = some (x, rest) := by
  cases hcanonical : Canonical.decode read bytes with
  | some y =>
    rw [hcanonical] at h
    obtain rfl : y = x := Option.some.inj h
    unfold Canonical.decode readAll at hcanonical
    split_ifs at hcanonical
    split at hcanonical
    · rename_i hread
      exact .inl ⟨[], hread.trans (by rw [Option.some.inj hcanonical])⟩
    · cases hcanonical
  | none =>
    rw [hcanonical] at h
    obtain ⟨⟨y, rest⟩, hread, rfl⟩ := Option.map_eq_some_iff.1 h
    exact .inr ⟨rest, hread⟩

lemma amount_le_of_decodeStake {bytes : Bytes} {s : Stake AddressBytes}
    (h : decodeStake texts bytes = some s) : s.amount ≤ u256Max := by
  obtain ⟨rest, h⟩ | ⟨rest, h⟩ := read_of_decoded h
  · exact amount_le_of_readStake h
  · exact amount_le_of_readStake h

lemma le_of_decodeAmount {bytes : Bytes} {x : ℕ} (h : decodeAmount texts bytes = some x) :
    x ≤ u256Max := by
  obtain ⟨rest, h⟩ | ⟨rest, h⟩ := read_of_decoded h
  · exact amount_le_of_read h
  · exact amount_le_of_read h

lemma Mirrors.forall_values {κ ν : Type} [DecidableEq κ] {keys : RowKeys κ}
    {decode : Bytes → Option ν} {values : HashMap κ ν} {epochs : HashMap κ ℕ} {P : ν → Prop}
    (h : Mirrors keys decode table values epochs)
    (hP : ∀ bytes v, decode bytes = some v → P v) (k : κ) (v : ν) (hv : values.lookup k = some v) :
    P v := by
  have hrow := h.rows k
  rw [hv, Option.map_some, Option.map_eq_some_iff] at hrow
  obtain ⟨bytes, -, hdecode⟩ := hrow
  exact hP bytes v hdecode

lemma Mirrors.epochs_le {κ ν : Type} [DecidableEq κ] {keys : RowKeys κ}
    {decode : Bytes → Option ν} {values : HashMap κ ν} {epochs : HashMap κ ℕ}
    (h : Mirrors keys decode table values epochs) (k : κ) (epoch : ℕ)
    (hepoch : epochs.lookup k = some epoch) : epoch ≤ u64Max := by
  rw [← h.epochs, Option.bind_eq_some_iff] at hepoch
  obtain ⟨bytes, -, hdecode⟩ := hepoch
  exact le_of_decodeU64 hdecode

lemma MirrorsManager.sized (h : MirrorsManager texts table m) : Sized m where
  stakes := h.stakes.forall_values fun _ _ => amount_le_of_decodeStake
  depositEpochs := h.stakes.epochs_le
  delegations := h.delegations.forall_values fun _ _ => le_of_decodeAmount
  delegationEpochs := h.delegations.epochs_le
  epoch := by
    rw [← h.epoch]
    cases hrow : (table.lookup stakingEpochKey).bind decodeU64 with
    | none => exact Nat.zero_le _
    | some epoch =>
      obtain ⟨bytes, -, hdecode⟩ := Option.bind_eq_some_iff.1 hrow
      exact le_of_decodeU64 hdecode

theorem mirrors_of_restore (h : Runs (restore texts fails table) .new () m) :
    MirrorsManager texts table m ∧ m.fullyRestored = true := by
  simp only [restore, runs_bind, runs_restorePart, runs_modify] at h
  obtain ⟨_, _, ⟨-, -, rfl⟩, _, _, ⟨-, hstakes, rfl⟩, _, _, ⟨-, -, rfl⟩, _, _,
    ⟨-, hdelegations, rfl⟩, _, _, ⟨-, -, rfl⟩, rfl⟩ := h
  exact ⟨⟨mirrors_loadRows hstakes, mirrors_loadRows hdelegations, rfl⟩, rfl⟩

lemma exists_restore (h : MirrorsManager texts table m) :
    ∃ n, Runs (restore texts (fun _ => false) table) .new () n := by
  have hdecoded : ∀ {κ ν : Type} [DecidableEq κ] {keys : RowKeys κ} {decode : Bytes → Option ν}
      {values : HashMap κ ν} {epochs : HashMap κ ℕ}, Mirrors keys decode table values epochs →
      ∀ row ∈ statePrefixScan table keys.start, (keys.decodeKey row.1).isSome →
        (decode row.2).map some ≠ none := by
    rintro κ ν _ keys decode values epochs hmirror ⟨key, bytes⟩ hmem hkey
    obtain ⟨k, hk⟩ := Option.isSome_iff_exists.1 hkey
    obtain rfl := decodeKey_iff.1 hk
    have hrow := hmirror.rows k
    rw [(mem_statePrefixScan.1 hmem).2, Option.map_some] at hrow
    obtain ⟨v, -, hv⟩ := Option.map_eq_some_iff.1 hrow.symm
    rw [← hv]
    exact Option.some_ne_none _
  simp only [restore, runs_bind, runs_restorePart, runs_modify]
  exact ⟨_, (), _, ⟨trivial, rfl, rfl⟩, (), _,
    ⟨trivial, loadRows_end.2 (hdecoded h.stakes), rfl⟩, (), _,
    ⟨trivial, loadRows_end.2 fun _ _ _ => Option.some_ne_none _, rfl⟩, (), _,
    ⟨trivial, loadRows_end.2 (hdecoded h.delegations), rfl⟩, (), _,
    ⟨trivial, loadRows_end.2 fun _ _ _ => Option.some_ne_none _, rfl⟩, rfl⟩

lemma stakeRows_ne_delegationRows (v : AddressBytes) (p : AddressBytes × AddressBytes) :
    (stakeRows.key v ≠ delegationRows.key p ∧ stakeRows.key v ≠ delegationRows.epochKey p) ∧
      stakeRows.epochKey v ≠ delegationRows.key p ∧
      stakeRows.epochKey v ≠ delegationRows.epochKey p := by
  refine ⟨⟨?_, ?_⟩, ?_, ?_⟩ <;> exact Apart.ne (by decide) _ _

lemma stakingEpochKey_ne_stakeRows (v : AddressBytes) :
    stakingEpochKey ≠ stakeRows.key v ∧ stakingEpochKey ≠ stakeRows.epochKey v := by
  rw [← List.append_nil stakingEpochKey]
  constructor <;> exact Apart.ne (by decide) _ _

lemma stakingEpochKey_ne_delegationRows (p : AddressBytes × AddressBytes) :
    stakingEpochKey ≠ delegationRows.key p ∧ stakingEpochKey ≠ delegationRows.epochKey p := by
  rw [← List.append_nil stakingEpochKey]
  constructor <;> exact Apart.ne (by decide) _ _

section Persist

variable {b : Bool} (hflag : m.fullyRestored = b)

include hflag

lemma persist_eq (table : StateBytes) : stakingStatePersistence texts m table =
    AList.putAll (AList.putAll
      (AList.putAll table [(stakingEpochKey, some (encodeU64 m.currentEpoch))])
      (stakeRows.updates (encodeStake texts) m.stakes m.depositEpochs
        (if b then statePrefixScan table stakeRows.start else [])))
      (delegationRows.updates (encodeAmount texts) m.delegations m.delegationEpochs
        (if b then statePrefixScan table delegationRows.start else [])) := by
  rw [stakingStatePersistence, atomicStateCommit, stakingChanges, hflag]
  cases b <;> simp [AList.putAll_append, RowKeys.updates, RowKeys.deletions]

variable {key : Bytes} (hepoch : stakingEpochKey ≠ key)

include hepoch

omit hflag in
lemma lookup_epochRow {epoch : ℕ} :
    (table.putAll [(stakingEpochKey, some (encodeU64 epoch))]).lookup key = table.lookup key :=
  AList.lookup_putAll_of_notMem (by simpa using hepoch.symm)

lemma lookup_stake_persist
    (hkey : ∀ p, key ≠ delegationRows.key p ∧ key ≠ delegationRows.epochKey p) :
    (stakingStatePersistence texts m table).lookup key =
      (table.putAll (stakeRows.updates (encodeStake texts) m.stakes m.depositEpochs
        (if b then statePrefixScan table stakeRows.start else []))).lookup key := by
  rw [persist_eq hflag, lookup_updates_of_ne hkey]
  exact AList.lookup_putAll_congr (lookup_epochRow hepoch) _

lemma lookup_delegation_persist (hkey : ∀ v, key ≠ stakeRows.key v ∧ key ≠ stakeRows.epochKey v) :
    (stakingStatePersistence texts m table).lookup key =
      (table.putAll (delegationRows.updates (encodeAmount texts) m.delegations m.delegationEpochs
        (if b then statePrefixScan table delegationRows.start else []))).lookup key := by
  rw [persist_eq hflag]
  exact AList.lookup_putAll_congr ((lookup_updates_of_ne hkey).trans (lookup_epochRow hepoch)) _

end Persist

lemma Sized.decodeStakes (hm : Sized m) (v : AddressBytes) (s : Stake AddressBytes)
    (hs : m.stakes.lookup v = some s) :
    (encodeStake texts s).map (decodeStake texts) = some (some s) :=
  decodeStake_encodeStake (hm.stakes v s hs)

lemma Sized.decodeDelegations (hm : Sized m) (p : AddressBytes × AddressBytes) (x : ℕ)
    (hx : m.delegations.lookup p = some x) :
    (encodeAmount texts x).map (decodeAmount texts) = some (some x) :=
  decodeAmount_encodeAmount (hm.delegations p x hx)

theorem MirrorsManager.step (h : MirrorsManager texts table m) (hrestored : m.fullyRestored = true)
    (happly : m.apply op = .ok m') :
    MirrorsManager texts (stakingStatePersistence texts m' table) m' := by
  have hsized := h.sized.apply happly
  have hsettings := StakingManager.settings_apply happly
  have hflag : m'.fullyRestored = true := (congrArg (fun s => s.2.2) hsettings).trans hrestored
  refine ⟨h.stakes.persist (stakes_change happly).move hsized.decodeStakes hsized.depositEpochs
      fun v => ?_,
    h.delegations.persist (delegations_change happly).move hsized.decodeDelegations
      hsized.delegationEpochs fun p => ?_, ?_⟩
  · refine List.forall_mem_cons.2 ⟨?_, List.forall_mem_singleton.2 ?_⟩
    · exact lookup_stake_persist hflag (stakingEpochKey_ne_stakeRows v).1
        fun p => (stakeRows_ne_delegationRows v p).1
    · exact lookup_stake_persist hflag (stakingEpochKey_ne_stakeRows v).2
        fun p => (stakeRows_ne_delegationRows v p).2
  · refine List.forall_mem_cons.2 ⟨?_, List.forall_mem_singleton.2 ?_⟩
    · exact lookup_delegation_persist hflag (stakingEpochKey_ne_delegationRows p).1
        fun v => ⟨(stakeRows_ne_delegationRows v p).1.1.symm,
          (stakeRows_ne_delegationRows v p).2.1.symm⟩
    · exact lookup_delegation_persist hflag (stakingEpochKey_ne_delegationRows p).2
        fun v => ⟨(stakeRows_ne_delegationRows v p).1.2.symm,
          (stakeRows_ne_delegationRows v p).2.2.symm⟩
  · rw [persist_eq hflag, lookup_updates_of_ne stakingEpochKey_ne_delegationRows,
      lookup_updates_of_ne stakingEpochKey_ne_stakeRows, AList.putAll_cons, AList.putAll_nil,
      AList.lookup_put, if_pos rfl, Option.bind_some, decodeU64_encodeU64 hsized.epoch,
      Option.getD_some]

/-! ### Runs -/

def storedRun (texts : U256Text) (s : StakingManager AddressBytes × StateBytes)
    (ops : List (StakingOp AddressBytes)) : StakingManager AddressBytes × StateBytes :=
  ops.foldl (fun s op => storedStep texts s op false) s

lemma MirrorsManager.run (h : MirrorsManager texts table m) (hrestored : m.fullyRestored = true)
    (ops : List (StakingOp AddressBytes)) :
    MirrorsManager texts (storedRun texts (m, table) ops).2
      (storedRun texts (m, table) ops).1 := by
  induction ops generalizing m table with
  | nil => exact h
  | cons op ops ih =>
    rw [storedRun, List.foldl_cons]
    cases happly : m.apply op with
    | error e =>
      rw [storedStep, happly]
      exact ih h hrestored
    | ok m' =>
      have hsettings := StakingManager.settings_apply happly
      rw [storedStep, happly]
      exact ih (h.step hrestored happly)
        ((congrArg (fun s => s.2.2) hsettings).trans hrestored)

/-- After any operations on a manager that was fully restored, a new manager restores the same
stakes, delegations and epochs from the rows. -/
theorem restores_same_entries (h : Runs (restore texts fails table) .new () m)
    (ops : List (StakingOp AddressBytes)) :
    ∃ n, Runs (restore texts (fun _ => false) (storedRun texts (m, table) ops).2) .new () n ∧
      SameEntries (storedRun texts (m, table) ops).1 n := by
  obtain ⟨hmirrors, hrestored⟩ := mirrors_of_restore h
  have hrun := hmirrors.run hrestored ops
  obtain ⟨n, hn⟩ := exists_restore hrun
  exact ⟨n, hn, hrun.sameEntries (mirrors_of_restore hn).1⟩

end Manager

/-! ### Instances -/

def sampleAddress (b : UInt8) : AddressBytes := ⟨List.replicate 32 b, List.length_replicate⟩

def stakedAndSlashed : List (StakingOp AddressBytes) :=
  [.stakeTokens (sampleAddress 1) 10000, .stakeTokens (sampleAddress 2) 20000,
    .delegateStake (sampleAddress 3) (sampleAddress 1) 500, .stakingEpochUpdate,
    .slashValidator (sampleAddress 2) 20000]

/-- From an empty table, the entries and the closed position are restored as they were. -/
theorem restores_same_entries_slashed :
    ∃ m n, Runs (restore U256Text.hex (fun _ => false) ∅) .new () m ∧
      Runs (restore U256Text.hex (fun _ => false)
        (storedRun U256Text.hex (m, ∅) stakedAndSlashed).2) .new () n ∧
      SameEntries (storedRun U256Text.hex (m, ∅) stakedAndSlashed).1 n := by
  have hempty : Runs (restore U256Text.hex (fun _ => false) ∅) .new ()
      { (.new : StakingManager AddressBytes) with fullyRestored := true } := rfl
  obtain ⟨n, hn, hsame⟩ := restores_same_entries hempty stakedAndSlashed
  exact ⟨_, n, hempty, hn, hsame⟩

end Sxiaum.Pos
