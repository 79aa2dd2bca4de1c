import Sxiaum.Consensus.StakingMirror

/-!
# Staking after a failed restore

When `restore` fails, the manager is used with what had been loaded, and rows are not deleted any
more. Rows that have not been loaded stay as they are as long as no deposit names their position:
a deposit opens the position anew, and the write back replaces the row by the deposit alone. A
position that is closed keeps its row and comes back with the next restore.
-/

namespace Sxiaum.Pos

open Storage Bincode StateProgram

/-! ### Rows of one kind -/

section Kinds

variable {κ ν : Type} [DecidableEq κ] {keys : RowKeys κ} {encode : ν → Option Bytes}
  {decode : Bytes → Option ν} {table₀ table table' : StateBytes}
  {values₀ values values' : HashMap κ ν} {epochs : HashMap κ ℕ} {k : κ}

/-- There is a row that has not been loaded. -/
def Unread (keys : RowKeys κ) (table : StateBytes) (values : HashMap κ ν) (k : κ) : Prop :=
  (table.lookup (keys.key k)).isSome ∧ values.lookup k = none

/-- What has been loaded is what the rows say. -/
def Loaded (keys : RowKeys κ) (decode : Bytes → Option ν) (table : StateBytes)
    (values : HashMap κ ν) : Prop :=
  ∀ k v, values.lookup k = some v → (table.lookup (keys.key k)).bind decode = some v

/-- The rows since a failed restore: none is gone, those that have not been loaded are as they
were, and those that have been written back are what was written. -/
structure KeepsRows (keys : RowKeys κ) (decode : Bytes → Option ν) (table₀ : StateBytes)
    (values₀ : HashMap κ ν) (table : StateBytes) (written : HashMap κ ν) : Prop where
  kept : ∀ k, (table₀.lookup (keys.key k)).isSome → (table.lookup (keys.key k)).isSome
  unread : ∀ k, Unread keys table₀ values₀ k →
    table.lookup (keys.key k) = table₀.lookup (keys.key k)
  written : Loaded keys decode table written

/-- The rows say what was written last, apart from those that have not been loaded. -/
def ExactRows (keys : RowKeys κ) (decode : Bytes → Option ν) (table₀ : StateBytes)
    (values₀ : HashMap κ ν) (table : StateBytes) (written : HashMap κ ν) : Prop :=
  ∀ k, ¬ Unread keys table₀ values₀ k →
    (table.lookup (keys.key k)).bind decode = written.lookup k

/-- A repair changes only rows that cannot be decoded. -/
def Repaired (keys : RowKeys κ) (decode : Bytes → Option ν) (table table' : StateBytes) : Prop :=
  ∀ k v, (table.lookup (keys.key k)).bind decode = some v →
    table'.lookup (keys.key k) = table.lookup (keys.key k)

lemma lookup_updates_nil :
    (table.putAll (keys.updates encode values epochs [])).lookup (keys.key k) =
      (values.lookup k).elim (table.lookup (keys.key k)) encode :=
  lookup_updates_key

variable (hrow : ∀ k, table'.lookup (keys.key k) =
    (values'.lookup k).elim (table.lookup (keys.key k)) encode)
  (hencode : ∀ k v, values'.lookup k = some v → (encode v).map decode = some (some v))

include hrow hencode

lemma loaded_written : Loaded keys decode table' values' := by
  intro k v hv
  obtain ⟨bytes, hbytes, hdecode⟩ := Option.map_eq_some_iff.1 (hencode k v hv)
  rw [hrow, hv, Option.elim_some, hbytes, Option.bind_some, hdecode]

lemma KeepsRows.persist (h : KeepsRows keys decode table₀ values₀ table values)
    (hunread : ∀ k, Unread keys table₀ values₀ k → values'.lookup k = none) :
    KeepsRows keys decode table₀ values₀ table' values' where
  kept k hk := by
    rw [hrow]
    cases hv : values'.lookup k with
    | none => exact h.kept k hk
    | some v =>
      obtain ⟨bytes, hbytes, -⟩ := Option.map_eq_some_iff.1 (hencode k v hv)
      exact Option.isSome_of_mem hbytes
  unread k hk := by
    rw [hrow, hunread k hk]
    exact h.unread k hk
  written := loaded_written hrow hencode

lemma ExactRows.persist (h : ExactRows keys decode table₀ values₀ table values)
    (hopen : ∀ k, values'.lookup k = none → values.lookup k = none) :
    ExactRows keys decode table₀ values₀ table' values' := by
  intro k hk
  cases hv : values'.lookup k with
  | none =>
    rw [hrow, hv]
    exact (h k hk).trans (hopen k hv)
  | some v => exact loaded_written hrow hencode k v hv

omit hrow hencode

/-- A restore after a repair finds what was written and what had not been loaded. -/
lemma KeepsRows.restored (h : KeepsRows keys decode table₀ values₀ table values)
    (hrepaired : Repaired keys decode table table')
    (hm : Mirrors keys decode table' values' epochs) :
    (∀ k v, values.lookup k = some v → values'.lookup k = some v) ∧
      ∀ k v, Unread keys table₀ values₀ k → (table₀.lookup (keys.key k)).bind decode = some v →
        values'.lookup k = some v := by
  have hrow : ∀ k v, (table.lookup (keys.key k)).bind decode = some v →
      values'.lookup k = some v := by
    intro k v hv
    obtain ⟨bytes, hbytes, hdecode⟩ := Option.bind_eq_some_iff.1 hv
    have hrows := hm.rows k
    rw [hrepaired k v hv, hbytes, Option.map_some, hdecode] at hrows
    obtain ⟨v', hv', heq⟩ := Option.map_eq_some_iff.1 hrows.symm
    rw [hv', heq]
  refine ⟨fun k v hv => hrow k v (h.written k v hv), fun k v hk hv => hrow k v ?_⟩
  rwa [h.unread k hk]

end Kinds

/-! ### A failed restore -/

section Restore

variable {texts : U256Text} {fails : RestoreRead → Bool} {table : StateBytes}
  {m : StakingManager AddressBytes}

/-- What a restore that has not come to its end leaves in the manager. -/
structure PartlyLoaded (texts : U256Text) (table : StateBytes) (m : StakingManager AddressBytes) :
    Prop where
  flag : m.fullyRestored = false
  sized : Sized m
  stakes : Loaded stakeRows (decodeStake texts) table m.stakes
  delegations : Loaded delegationRows (decodeAmount texts) table m.delegations

lemma partlyLoaded_new : PartlyLoaded texts table .new := by
  have hempty : ∀ {κ ν : Type} [DecidableEq κ] {P : κ → ν → Prop} k v,
      (∅ : HashMap κ ν).lookup k = some v → P k v :=
    fun _ _ h => absurd h.symm (Option.some_ne_none _)
  exact ⟨rfl, ⟨hempty, hempty, hempty, hempty, Nat.zero_le _⟩, hempty, hempty⟩

lemma keeps_restorePart {I : StakingManager AddressBytes → Prop} {read : RestoreRead}
    {load : StakingManager AddressBytes → StakingManager AddressBytes × Option Bytes}
    (hload : ∀ m, I m → I (load m).1) : Keeps I (restorePart fails read load) := by
  unfold restorePart
  refine keeps_ite ((keeps_throw _).bind fun _ => ?_) ?_
  all_goals
    intro m hm
    rw [ends_bind, ends_get]
    dsimp only
    rw [ends_bind, ends_set]
    exact ends_liftExcept.2 (hload m hm)

/-- What is loaded from rows was there or is what the rows say. -/
lemma Loaded.loadRows {κ ν : Type} [DecidableEq κ] {keys : RowKeys κ} {decode : Bytes → Option ν}
    {values : HashMap κ ν} (h : Loaded keys decode table values) :
    Loaded keys decode table (loadRows keys.decodeKey (fun bytes => (decode bytes).map some)
      (statePrefixScan table keys.start) values).1 := by
  refine forall_lookup_loadRows h ?_
  rintro ⟨_, bytes⟩ hmem k v hkey hdecode
  obtain rfl := RowKeys.decodeKey_iff.1 hkey
  obtain ⟨v', hv', heq⟩ := Option.map_eq_some_iff.1 hdecode
  rw [(mem_statePrefixScan.1 hmem).2, Option.bind_some, hv', heq]

lemma epochs_le_loadRows {κ : Type} [DecidableEq κ] {decodeKey : Bytes → Option κ}
    {rows : List (Bytes × Bytes)} {epochs : HashMap κ ℕ}
    (h : ∀ k epoch, epochs.lookup k = some epoch → epoch ≤ u64Max) :
    ∀ k epoch, (loadRows decodeKey (fun bytes => some (decodeU64 bytes)) rows epochs).1.lookup k =
      some epoch → epoch ≤ u64Max :=
  forall_lookup_loadRows h fun _ _ _ _ _ hdecode => le_of_decodeU64 (Option.some.inj hdecode)

lemma Loaded.forall_values {κ ν : Type} [DecidableEq κ] {keys : RowKeys κ}
    {decode : Bytes → Option ν} {values : HashMap κ ν} {P : ν → Prop}
    (h : Loaded keys decode table values) (hP : ∀ bytes v, decode bytes = some v → P v) (k : κ)
    (v : ν) (hv : values.lookup k = some v) : P v := by
  obtain ⟨bytes, -, hdecode⟩ := Option.bind_eq_some_iff.1 (h k v hv)
  exact hP bytes v hdecode

theorem partlyLoaded_of_error {e : RestoreError}
    (h : (restore texts fails table).run .new = (.error e, m)) : PartlyLoaded texts table m := by
  have hepoch : ∀ m, PartlyLoaded texts table m →
      PartlyLoaded texts table (restoreEpoch table m).1 := by
    intro m hm
    refine { hm with sized := { hm.sized with epoch := ?_ } }
    change ((table.lookup stakingEpochKey).bind decodeU64).getD m.currentEpoch ≤ u64Max
    cases hrow : (table.lookup stakingEpochKey).bind decodeU64 with
    | none => exact hm.sized.epoch
    | some epoch =>
      obtain ⟨bytes, -, hdecode⟩ := Option.bind_eq_some_iff.1 hrow
      exact le_of_decodeU64 hdecode
  have hstakes : ∀ m, PartlyLoaded texts table m →
      PartlyLoaded texts table (restoreStakes texts table m).1 := fun m hm =>
    { hm with
      sized := { hm.sized with
        stakes := hm.stakes.loadRows.forall_values fun _ _ => amount_le_of_decodeStake }
      stakes := hm.stakes.loadRows }
  have hdepositEpochs : ∀ m, PartlyLoaded texts table m →
      PartlyLoaded texts table (restoreDepositEpochs table m).1 := fun m hm =>
    { hm with
      sized := { hm.sized with depositEpochs := epochs_le_loadRows hm.sized.depositEpochs } }
  have hdelegations : ∀ m, PartlyLoaded texts table m →
      PartlyLoaded texts table (restoreDelegations texts table m).1 := fun m hm =>
    { hm with
      sized := { hm.sized with
        delegations := hm.delegations.loadRows.forall_values fun _ _ => le_of_decodeAmount }
      delegations := hm.delegations.loadRows }
  have hdelegationEpochs : ∀ m, PartlyLoaded texts table m →
      PartlyLoaded texts table (restoreDelegationEpochs table m).1 := fun m hm =>
    { hm with
      sized := { hm.sized with
        delegationEpochs := epochs_le_loadRows hm.sized.delegationEpochs } }
  have hends : Ends (restore texts fails table) .new fun x m =>
      ∀ e, x = .error e → PartlyLoaded texts table m := by
    -- each of the five parts may be the one that fails
    have hpart : ∀ {s read load} {f : Unit → StateProgram _ RestoreError Unit},
        PartlyLoaded texts table s →
        (∀ m, PartlyLoaded texts table m → PartlyLoaded texts table (load m).1) →
        (∀ a s₁, PartlyLoaded texts table s₁ → Ends (f a) s₁ fun x m =>
          ∀ e, x = .error e → PartlyLoaded texts table m) →
        Ends (restorePart fails read load >>= f) s fun x m =>
          ∀ e, x = .error e → PartlyLoaded texts table m := fun hs hload hf =>
      (keeps_restorePart hload _ hs).bind hf fun _ _ hm _ _ => hm
    refine hpart partlyLoaded_new hepoch fun _ s₁ h₁ => ?_
    refine hpart h₁ hstakes fun _ s₂ h₂ => ?_
    refine hpart h₂ hdepositEpochs fun _ s₃ h₃ => ?_
    refine hpart h₃ hdelegations fun _ s₄ h₄ => ?_
    refine hpart h₄ hdelegationEpochs fun _ s₅ h₅ e he => ?_
    cases he
  rw [Ends, h] at hends
  exact hends e rfl

end Restore

/-! ### Runs after a failed restore -/

section Runs

variable {texts : U256Text} {fails : RestoreRead → Bool} {table₀ table' : StateBytes}
  {m₀ : StakingManager AddressBytes} {events : List (StakingOp AddressBytes × Bool)}

/-- The manager, its rows, and the manager as it was written back last. -/
structure Stored where
  manager : StakingManager AddressBytes
  table : StateBytes
  written : StakingManager AddressBytes

/-- An operation, the write back of which may fail. -/
def Stored.step (texts : U256Text) (s : Stored) (e : StakingOp AddressBytes × Bool) : Stored :=
  match s.manager.apply e.1 with
  | .error _ => s
  | .ok m =>
    if e.2 then { s with manager := m }
    else ⟨m, stakingStatePersistence texts m s.table, m⟩

/-- This is `storedStep` with the memory of the last write. -/
lemma Stored.step_eq (texts : U256Text) (s : Stored) (e : StakingOp AddressBytes × Bool) :
    ((s.step texts e).manager, (s.step texts e).table) =
      storedStep texts (s.manager, s.table) e.1 e.2 := by
  unfold Stored.step storedStep
  dsimp only
  cases s.manager.apply e.1 with
  | error _ => rfl
  | ok m =>
    dsimp only
    split_ifs <;> rfl

def Stored.run (texts : U256Text) (s : Stored) (events : List (StakingOp AddressBytes × Bool)) :
    Stored := events.foldl (Stored.step texts) s

/-- The operation adds to no position whose row has not been loaded. -/
def Avoids (table₀ : StateBytes) (m₀ : StakingManager AddressBytes) (op : StakingOp AddressBytes) :
    Prop :=
  (∀ v, Unread stakeRows table₀ m₀.stakes v → ¬ Opens v op) ∧
    ∀ p, Unread delegationRows table₀ m₀.delegations p → ¬ OpensDelegation p op

/-- No position is closed. -/
def KeepsOpen (texts : U256Text) (s : Stored) : List (StakingOp AddressBytes × Bool) → Prop
  | [] => True
  | e :: events =>
    (∀ v, (s.step texts e).manager.stakes.lookup v = none → s.manager.stakes.lookup v = none) ∧
      (∀ p, (s.step texts e).manager.delegations.lookup p = none →
        s.manager.delegations.lookup p = none) ∧
      KeepsOpen texts (s.step texts e) events

/-- The rows and the manager since a failed restore. -/
structure Survives (texts : U256Text) (table₀ : StateBytes) (m₀ : StakingManager AddressBytes)
    (s : Stored) : Prop where
  flag : s.manager.fullyRestored = false
  sized : Sized s.manager
  unreadStakes : ∀ v, Unread stakeRows table₀ m₀.stakes v → s.manager.stakes.lookup v = none
  unreadDelegations : ∀ p, Unread delegationRows table₀ m₀.delegations p →
    s.manager.delegations.lookup p = none
  stakes : KeepsRows stakeRows (decodeStake texts) table₀ m₀.stakes s.table s.written.stakes
  delegations : KeepsRows delegationRows (decodeAmount texts) table₀ m₀.delegations s.table
    s.written.delegations

/-- The rows say what was written last, and no position has been closed since. -/
structure Exact (texts : U256Text) (table₀ : StateBytes) (m₀ : StakingManager AddressBytes)
    (s : Stored) : Prop where
  stakes : ExactRows stakeRows (decodeStake texts) table₀ m₀.stakes s.table s.written.stakes
  delegations : ExactRows delegationRows (decodeAmount texts) table₀ m₀.delegations s.table
    s.written.delegations
  stakesOpen : ∀ v, s.manager.stakes.lookup v = none → s.written.stakes.lookup v = none
  delegationsOpen : ∀ p, s.manager.delegations.lookup p = none →
    s.written.delegations.lookup p = none

variable {s : Stored} {m : StakingManager AddressBytes}

lemma lookup_stake_written (hflag : m.fullyRestored = false) {table : StateBytes}
    (v : AddressBytes) : (stakingStatePersistence texts m table).lookup (stakeRows.key v) =
      (m.stakes.lookup v).elim (table.lookup (stakeRows.key v)) (encodeStake texts) := by
  rw [lookup_stake_persist hflag (stakingEpochKey_ne_stakeRows v).1
    fun p => (stakeRows_ne_delegationRows v p).1]
  exact @lookup_updates_nil _ _ _ _ _ _ _ _ _

lemma lookup_delegation_written (hflag : m.fullyRestored = false) {table : StateBytes}
    (p : AddressBytes × AddressBytes) :
    (stakingStatePersistence texts m table).lookup (delegationRows.key p) =
      (m.delegations.lookup p).elim (table.lookup (delegationRows.key p)) (encodeAmount texts) := by
  rw [lookup_delegation_persist hflag (stakingEpochKey_ne_delegationRows p).1
    fun v => ⟨(stakeRows_ne_delegationRows v p).1.1.symm,
      (stakeRows_ne_delegationRows v p).2.1.symm⟩]
  exact @lookup_updates_nil _ _ _ _ _ _ _ _ _

theorem Survives.step (h : Survives texts table₀ m₀ s)
    {e : StakingOp AddressBytes × Bool} (havoids : Avoids table₀ m₀ e.1) :
    Survives texts table₀ m₀ (s.step texts e) := by
  unfold Stored.step
  cases happly : s.manager.apply e.1 with
  | error err => exact h
  | ok m =>
    have hflag : m.fullyRestored = false :=
      (congrArg (fun s => s.2.2) (StakingManager.settings_apply happly)).trans h.flag
    have hsized := h.sized.apply happly
    have hstakes : ∀ v, Unread stakeRows table₀ m₀.stakes v → m.stakes.lookup v = none :=
      fun v hv => (stakes_change happly).lookup_none (h.unreadStakes v hv) (havoids.1 v hv)
    have hdelegations : ∀ p, Unread delegationRows table₀ m₀.delegations p →
        m.delegations.lookup p = none :=
      fun p hp =>
        (delegations_change happly).lookup_none (h.unreadDelegations p hp) (havoids.2 p hp)
    dsimp only
    split_ifs
    · exact ⟨hflag, hsized, hstakes, hdelegations, h.stakes, h.delegations⟩
    · exact ⟨hflag, hsized, hstakes, hdelegations,
        h.stakes.persist (lookup_stake_written hflag) hsized.decodeStakes hstakes,
        h.delegations.persist (lookup_delegation_written hflag) hsized.decodeDelegations
          hdelegations⟩

theorem Exact.step (h : Survives texts table₀ m₀ s) (hexact : Exact texts table₀ m₀ s)
    {e : StakingOp AddressBytes × Bool}
    (hstakes : ∀ v, (s.step texts e).manager.stakes.lookup v = none →
      s.manager.stakes.lookup v = none)
    (hdelegations : ∀ p, (s.step texts e).manager.delegations.lookup p = none →
      s.manager.delegations.lookup p = none) :
    Exact texts table₀ m₀ (s.step texts e) := by
  unfold Stored.step at *
  cases happly : s.manager.apply e.1 with
  | error err => exact hexact
  | ok m =>
    have hflag : m.fullyRestored = false :=
      (congrArg (fun s => s.2.2) (StakingManager.settings_apply happly)).trans h.flag
    have hsized := h.sized.apply happly
    rw [happly] at hstakes hdelegations
    dsimp only at hstakes hdelegations ⊢
    split_ifs with hfails
    · rw [if_pos hfails] at hstakes hdelegations
      exact ⟨hexact.stakes, hexact.delegations, fun v hv => hexact.stakesOpen v (hstakes v hv),
        fun p hp => hexact.delegationsOpen p (hdelegations p hp)⟩
    · rw [if_neg hfails] at hstakes hdelegations
      exact ⟨hexact.stakes.persist (lookup_stake_written hflag) hsized.decodeStakes
          fun v hv => hexact.stakesOpen v (hstakes v hv),
        hexact.delegations.persist (lookup_delegation_written hflag) hsized.decodeDelegations
          fun p hp => hexact.delegationsOpen p (hdelegations p hp), fun _ => id, fun _ => id⟩

lemma Survives.run (h : Survives texts table₀ m₀ s) (havoids : ∀ e ∈ events, Avoids table₀ m₀ e.1) :
    Survives texts table₀ m₀ (s.run texts events) := by
  induction events generalizing s with
  | nil => exact h
  | cons e events ih =>
    obtain ⟨he, hevents⟩ := List.forall_mem_cons.1 havoids
    exact ih (h.step he) hevents

lemma Exact.run (h : Survives texts table₀ m₀ s) (hexact : Exact texts table₀ m₀ s)
    (havoids : ∀ e ∈ events, Avoids table₀ m₀ e.1) (hopen : KeepsOpen texts s events) :
    Exact texts table₀ m₀ (s.run texts events) := by
  induction events generalizing s with
  | nil => exact hexact
  | cons e events ih =>
    obtain ⟨he, hevents⟩ := List.forall_mem_cons.1 havoids
    obtain ⟨hstakes, hdelegations, hrest⟩ := hopen
    exact ih (h.step he) (hexact.step h hstakes hdelegations) hevents hrest

lemma survives_start (h : PartlyLoaded texts table₀ m₀) :
    Survives texts table₀ m₀ ⟨m₀, table₀, m₀⟩ where
  flag := h.flag
  sized := h.sized
  unreadStakes _ hv := hv.2
  unreadDelegations _ hp := hp.2
  stakes := ⟨fun _ => id, fun _ _ => rfl, h.stakes⟩
  delegations := ⟨fun _ => id, fun _ _ => rfl, h.delegations⟩

lemma exactRows_start {κ ν : Type} [DecidableEq κ] {keys : RowKeys κ} {decode : Bytes → Option ν}
    {values : HashMap κ ν} (h : Loaded keys decode table₀ values) :
    ExactRows keys decode table₀ values table₀ values := by
  intro k hk
  cases hv : values.lookup k with
  | some v => exact h k v hv
  | none =>
    have hrow : table₀.lookup (keys.key k) = none := by
      by_contra hne
      exact hk ⟨Option.ne_none_iff_isSome.1 hne, hv⟩
    rw [hrow]
    rfl

lemma exact_start (h : PartlyLoaded texts table₀ m₀) : Exact texts table₀ m₀ ⟨m₀, table₀, m₀⟩ where
  stakes := exactRows_start h.stakes
  delegations := exactRows_start h.delegations
  stakesOpen _ := id
  delegationsOpen _ := id

/-- After a failed restore, operations that add to no position whose row has not been loaded leave
every row of a stake and of a delegation in the table and those that have not been loaded as they
were; a restore after a repair finds them and all that was written back; and if no position is
closed, the rows that had been loaded say exactly what was written back. -/
theorem rows_survive {e : RestoreError} (h : (restore texts fails table₀).run .new = (.error e, m₀))
    (havoids : ∀ e ∈ events, Avoids table₀ m₀ e.1) {s : Stored}
    (hs : Stored.run texts ⟨m₀, table₀, m₀⟩ events = s) :
    KeepsRows stakeRows (decodeStake texts) table₀ m₀.stakes s.table s.written.stakes ∧
    KeepsRows delegationRows (decodeAmount texts) table₀ m₀.delegations s.table
      s.written.delegations ∧
    (∀ table' fails' n, Repaired stakeRows (decodeStake texts) s.table table' →
      Repaired delegationRows (decodeAmount texts) s.table table' →
      Runs (restore texts fails' table') .new () n →
      ((∀ v x, s.written.stakes.lookup v = some x → n.stakes.lookup v = some x) ∧
        ∀ v x, Unread stakeRows table₀ m₀.stakes v →
          (table₀.lookup (stakeRows.key v)).bind (decodeStake texts) = some x →
          n.stakes.lookup v = some x) ∧
      (∀ p x, s.written.delegations.lookup p = some x → n.delegations.lookup p = some x) ∧
        ∀ p x, Unread delegationRows table₀ m₀.delegations p →
          (table₀.lookup (delegationRows.key p)).bind (decodeAmount texts) = some x →
          n.delegations.lookup p = some x) ∧
    (KeepsOpen texts ⟨m₀, table₀, m₀⟩ events →
      ExactRows stakeRows (decodeStake texts) table₀ m₀.stakes s.table s.written.stakes ∧
      ExactRows delegationRows (decodeAmount texts) table₀ m₀.delegations s.table
        s.written.delegations) := by
  subst hs
  have hpart := partlyLoaded_of_error h
  have hsurvives := (survives_start hpart).run havoids
  refine ⟨hsurvives.stakes, hsurvives.delegations,
    fun table' fails' n hstakes hdelegations hn => ?_, fun hopen => ?_⟩
  · obtain ⟨hmirrors, -⟩ := mirrors_of_restore hn
    exact ⟨hsurvives.stakes.restored hstakes hmirrors.stakes,
      hsurvives.delegations.restored hdelegations hmirrors.delegations⟩
  · have hexact := (exact_start hpart).run (survives_start hpart) havoids hopen
    exact ⟨hexact.stakes, hexact.delegations⟩

end Runs

/-! ### Instances -/

def stakeRow (v : AddressBytes) (amount : ℕ) : Bytes :=
  writeStake U256Text.hex .varint ⟨v, amount⟩

/-- A row that cannot be decoded in front of a stake of 20000. -/
def corruptTable : StateBytes :=
  AList.insert (stakeRows.key (sampleAddress 1)) [255]
    (AList.insert (stakeRows.key (sampleAddress 2)) (stakeRow (sampleAddress 2) 20000) ∅)

/-- A stake of 20000 that is loaded before a row that cannot be decoded. -/
def loadedTable : StateBytes :=
  AList.insert (stakeRows.key (sampleAddress 1)) (stakeRow (sampleAddress 1) 20000)
    (AList.insert (stakeRows.key (sampleAddress 2)) [255] ∅)

def corruptManager : StakingManager AddressBytes :=
  withStorage U256Text.hex (fun _ => false) corruptTable

/-- The manager and the rows after a failed restore and some operations. -/
def storedAfter (table : StateBytes) (ops : List (StakingOp AddressBytes)) :
    StakingManager AddressBytes × StateBytes :=
  storedRun U256Text.hex (withStorage U256Text.hex (fun _ => false) table, table) ops

def storedStake (table : StateBytes) (ops : List (StakingOp AddressBytes)) (v : AddressBytes) :
    Option ℕ :=
  (((storedAfter table ops).2.lookup (stakeRows.key v)).bind
    (decodeStake U256Text.hex)).map Stake.amount

/-- Account 2 stakes 10000 more, and the row of 20000 is replaced by one of 10000. A reward of 1
leaves a row of 1. And a stake that was loaded and is slashed to nothing keeps its row, so that the
next restore finds it again. -/
theorem deposit_replaces_unread_row :
    ((restore U256Text.hex (fun _ => false) corruptTable).run .new).1 =
      .error (.undecodable (stakeRows.key (sampleAddress 1))) ∧
    storedStake corruptTable [] (sampleAddress 2) = some 20000 ∧
    storedStake corruptTable [.stakeTokens (sampleAddress 2) 10000] (sampleAddress 2) =
      some 10000 ∧
    storedStake corruptTable [.rewardValidator (sampleAddress 2) 1] (sampleAddress 2) = some 1 ∧
    (storedAfter loadedTable []).1.getStake (sampleAddress 1) = 20000 ∧
    (storedAfter loadedTable [.slashValidator (sampleAddress 1) 20000]).1.getStake
      (sampleAddress 1) = 0 ∧
    storedStake loadedTable [.slashValidator (sampleAddress 1) 20000] (sampleAddress 1) =
      some 20000 := by
  decide +kernel

/-- A stake of another account leaves the rows that have not been loaded as they were, and the
other rows say what was written. -/
theorem rows_survive_stake :
    ∃ s, Stored.run U256Text.hex ⟨corruptManager, corruptTable, corruptManager⟩
        [(.stakeTokens (sampleAddress 3) 10000, false)] = s ∧
      KeepsRows stakeRows (decodeStake U256Text.hex) corruptTable corruptManager.stakes s.table
        s.written.stakes ∧
      ExactRows stakeRows (decodeStake U256Text.hex) corruptTable corruptManager.stakes s.table
        s.written.stakes ∧ s.written.getStake (sampleAddress 3) = 10000 := by
  have hfailed : (restore U256Text.hex (fun _ => false) corruptTable).run .new =
      (.error (.undecodable (stakeRows.key (sampleAddress 1))), corruptManager) :=
    Prod.ext (by decide +kernel) rfl
  have havoids : Avoids corruptTable corruptManager (.stakeTokens (sampleAddress 3) 10000) := by
    refine ⟨fun v hv hopens => ?_, fun p _ => id⟩
    obtain rfl : sampleAddress 3 = v := hopens
    exact absurd hv.1 (by decide +kernel)
  -- nothing has been loaded, so nothing can be closed
  have hempty : corruptManager.stakes.entries = [] ∧ corruptManager.delegations.entries = [] := by
    decide +kernel
  have hnone : (∀ v, corruptManager.stakes.lookup v = none) ∧
      ∀ p, corruptManager.delegations.lookup p = none := by
    simp [AList.lookup, hempty]
  have hspec := @rows_survive U256Text.hex (fun _ => false) corruptTable corruptManager
    [(.stakeTokens (sampleAddress 3) 10000, false)] _ hfailed (by simpa using havoids) _ rfl
  exact ⟨_, rfl, hspec.1, (hspec.2.2.2 ⟨fun v _ => hnone.1 v, fun p _ => hnone.2 p, trivial⟩).1,
    by decide +kernel⟩

end Sxiaum.Pos
