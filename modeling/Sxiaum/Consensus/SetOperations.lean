import Sxiaum.Lib.StateProgram
import Sxiaum.Consensus.RotationOrder

/-!
# Runs of the validator set

Every operation on a `ValidatorSet` (`pos/validator_set.rs`) keeps the total stake and the BLS keys
in order. The cap on active validators is checked for new addresses only.
-/

namespace Sxiaum

def Validator.slash (v : Validator) (amount : ℕ) : Validator :=
  { v with
    stake := v.stake - amount
    votingPower := calculateVotingPower (v.stake - amount)
    status := .jailed
    jailedUntil := none }

namespace ValidatorSet

open StateProgram

def slashValidator (s : ValidatorSet) (address : Address) (slashAmount : ℕ) :
    Except ConsensusError ValidatorSet :=
  match s.validators.lookup address with
  | some v =>
    let slashed := v.slash slashAmount
    .ok ⟨s.validators.put address (if slashed.stake = 0 then none else some slashed),
      min (s.totalStake - v.stake + slashed.stake) u256Max⟩
  | none => .error (.validatorNotFound address)

inductive Op where
  | add (validator : Validator)
  | remove (address : Address)
  | jail (address : Address)
  | slash (address : Address) (slashAmount : ℕ)
  | replace (validators : List Validator)
  | epochTransition (newValidators : List Validator) (height epochLength : ℕ)

def apply (env : Env) (s : ValidatorSet) : Op → Except ConsensusError ValidatorSet
  | .add v => s.addValidator env v
  | .remove a => .ok (s.removeValidator a)
  | .jail a => s.jailValidator a
  | .slash a amount => s.slashValidator a amount
  | .replace vs => replaceValidators env vs
  | .epochTransition vs height epochLength =>
    if 0 < height ∧ height % epochLength = 0 then replaceValidators env vs else .ok s

/-! ### The operations in place -/

section InPlace

variable (env : Env)

/-- `add_validator` on the live set: the checks, the entry, and the total in two steps. -/
def addValidatorInPlace (v : Validator) : StateProgram ValidatorSet ConsensusError Unit := do
  let s ← get
  if (s.validators.lookup v.address).isNone && v.isActive &&
      maxActiveValidators ≤ s.activeValidatorCount then
    throw .tooManyValidators
  liftExcept (validateValidator env v)
  liftExcept (enforceBlsPop env v)
  if s.sharesBlsKey v then throw (.duplicateBlsKey v.address)
  let existing := s.validators.lookup v.address
  modify fun s => { s with validators := s.validators.insert v.address v }
  match existing with
  | some old => modify fun s => { s with totalStake := s.totalStake - old.stake }
  | none => pure ()
  modify fun s => { s with totalStake := min (s.totalStake + v.stake) u256Max }

/-- `remove_validator` on the live set; an unknown address is no error. -/
def removeValidatorInPlace (address : Address) :
    StateProgram ValidatorSet ConsensusError Unit := do
  match (← get).validators.lookup address with
  | some removed =>
    modify fun s => { s with validators := s.validators.erase address }
    modify fun s => { s with totalStake := s.totalStake - removed.stake }
  | none => pure ()

/-- `jail_validator` on the live set, field by field. -/
def jailValidatorInPlace (address : Address) : StateProgram ValidatorSet ConsensusError Unit := do
  match (← get).validators.lookup address with
  | some v =>
    let jailed := { v with status := .jailed }
    modify fun s => { s with validators := s.validators.insert address jailed }
    let powerless := { jailed with votingPower := 0 }
    modify fun s => { s with validators := s.validators.insert address powerless }
  | none => throw (.validatorNotFound address)

/-- `slash_validator` on the live set: a validator without stake left is removed at the end. -/
def slashValidatorInPlace (address : Address) (slashAmount : ℕ) :
    StateProgram ValidatorSet ConsensusError Unit := do
  match (← get).validators.lookup address with
  | some v =>
    let slashed := v.slash slashAmount
    modify fun s => { s with validators := s.validators.insert address slashed }
    modify fun s => { s with totalStake := min (s.totalStake - v.stake + slashed.stake) u256Max }
    if slashed.stake = 0 then
      modify fun s => { s with validators := s.validators.erase address }
  | none => throw (.validatorNotFound address)

/-- `replace_validators` on the live set, which is written after the whole list is staged. -/
def replaceValidatorsInPlace (vs : List Validator) :
    StateProgram ValidatorSet ConsensusError Unit := do
  let (staged, _) ← liftExcept (vs.foldlM (stageValidator env) (empty, 0))
  modify fun s => { s with validators := staged.validators }
  modify fun s => { s with totalStake := staged.totalStake }

/-- An operation on the live set, with its checks and writes in the order of the source. -/
def perform : Op → StateProgram ValidatorSet ConsensusError Unit
  | .add v => addValidatorInPlace env v
  | .remove a => removeValidatorInPlace a
  | .jail a => jailValidatorInPlace a
  | .slash a amount => slashValidatorInPlace a amount
  | .replace vs => replaceValidatorsInPlace env vs
  | .epochTransition vs height epochLength =>
    if 0 < height ∧ height % epochLength = 0 then replaceValidatorsInPlace env vs else pure ()

end InPlace

/-- Operations one after the other, refused ones included, where they are allowed. -/
def Steps (env : Env) (allowed : ValidatorSet → Op → ValidatorSet → Prop) :
    ValidatorSet → ValidatorSet → Prop :=
  Relation.ReflTransGen fun s s' => ∃ op, ((perform env op).run s).2 = s' ∧ allowed s op s'

variable {env : Env} {s s' : ValidatorSet} {op : Op} {a : Address} {w : Option Validator}

/-- What a program leaves behind: the set that the operation computes, or, refused, the set as
it was. -/
def Leaves (p : StateProgram ValidatorSet ConsensusError Unit) (s : ValidatorSet)
    (result : Except ConsensusError ValidatorSet) : Prop :=
  p.run s = match result with
    | .ok s' => (.ok (), s')
    | .error e => (.error e, s)

/-- A check in front of a program and in front of its result. -/
lemma Leaves.guard {c : Prop} [Decidable c] {e : ConsensusError}
    {p : StateProgram ValidatorSet ConsensusError Unit}
    {k : PUnit → StateProgram ValidatorSet ConsensusError Unit}
    {k' : PUnit → Except ConsensusError ValidatorSet} {result : Except ConsensusError ValidatorSet}
    (h : Leaves p s result) :
    Leaves (if c then throw e >>= k else p) s (if c then throw e >>= k' else result) := by
  by_cases hc : c
  · rw [if_pos hc, if_pos hc]
    rfl
  · rw [if_neg hc, if_neg hc]
    exact h

lemma Leaves.check {x : Except ConsensusError Unit}
    {p : PUnit → StateProgram ValidatorSet ConsensusError Unit}
    {result : PUnit → Except ConsensusError ValidatorSet} (h : Leaves (p ()) s (result ())) :
    Leaves (liftExcept x >>= p) s (x >>= result) := by
  cases x with
  | error e => rfl
  | ok _ => exact h

lemma leaves_add (env : Env) (s : ValidatorSet) (v : Validator) :
    Leaves (addValidatorInPlace env v) s (s.addValidator env v) := by
  change Leaves (if _ then throw _ >>= _ else liftExcept _ >>= fun _ => liftExcept _ >>= fun _ =>
    if _ then throw _ >>= _ else _) s
    (if _ then throw _ >>= _ else _ >>= fun _ => _ >>= fun _ => if _ then throw _ >>= _ else _)
  refine Leaves.guard (Leaves.check (Leaves.check (Leaves.guard ?_)))
  -- every check is passed: the writes follow
  cases s.validators.lookup v.address <;> rfl

lemma leaves_remove (s : ValidatorSet) (a : Address) :
    Leaves (removeValidatorInPlace a) s (.ok (s.removeValidator a)) := by
  rw [Leaves.eq_def, removeValidatorInPlace, run_get_bind, removeValidator]
  cases s.validators.lookup a <;> rfl

lemma leaves_jail (s : ValidatorSet) (a : Address) :
    Leaves (jailValidatorInPlace a) s (s.jailValidator a) := by
  rw [Leaves.eq_def, jailValidatorInPlace, run_get_bind, jailValidator]
  cases s.validators.lookup a with
  | none => rfl
  | some v =>
    -- the second field is written over the entry that has the first
    exact congrArg (fun m => ((.ok () : Except ConsensusError Unit), mk m s.totalStake))
      (AList.insert_insert s.validators)

lemma leaves_slash (s : ValidatorSet) (a : Address) (amount : ℕ) :
    Leaves (slashValidatorInPlace a amount) s (s.slashValidator a amount) := by
  rw [Leaves.eq_def, slashValidatorInPlace, run_get_bind, slashValidator]
  cases s.validators.lookup a with
  | none => rfl
  | some v =>
    by_cases hzero : (v.slash amount).stake = 0
    · -- the entry is written before it is removed
      have herase : (s.validators.insert a (v.slash amount)).erase a = s.validators.erase a := by
        refine AList.ext ?_
        simp [AList.erase, AList.insert, List.kinsert]
      simp only [hzero, if_true, AList.put, ← herase]
      rfl
    · simp only [hzero, if_false]
      rfl

lemma leaves_replace (env : Env) (s : ValidatorSet) (vs : List Validator) :
    Leaves (replaceValidatorsInPlace env vs) s (replaceValidators env vs) := by
  rw [Leaves.eq_def, replaceValidatorsInPlace, replaceValidators]
  rcases vs.foldlM (stageValidator env) (empty, 0) with e | ⟨staged, count⟩ <;> rfl

/-- An operation that returns an error has written nothing. -/
theorem leaves_perform (env : Env) (s : ValidatorSet) (op : Op) :
    Leaves (perform env op) s (s.apply env op) := by
  cases op with
  | add v => exact leaves_add env s v
  | remove a => exact leaves_remove s a
  | jail a => exact leaves_jail s a
  | slash a amount => exact leaves_slash s a amount
  | replace vs => exact leaves_replace env s vs
  | epochTransition vs height epochLength =>
    rw [perform, apply]
    split_ifs
    · exact leaves_replace env s vs
    · rfl

lemma Steps.invariant {allowed : ValidatorSet → Op → ValidatorSet → Prop} {P : ValidatorSet → Prop}
    (h : Steps env allowed s s') (hs : P s)
    (hstep : ∀ {s op s'}, P s → s.apply env op = .ok s' → allowed s op s' → P s') : P s' := by
  induction h with
  | refl => exact hs
  | tail _ hlast ih =>
    obtain ⟨op, rfl, hallowed⟩ := hlast
    rw [leaves_perform] at hallowed ⊢
    rcases happly : apply env _ op with e | t
    · exact ih
    · rw [happly] at hallowed
      exact hstep ih happly hallowed

/-! ### Stakes and keys -/

def exactStake (s : ValidatorSet) : ℕ := (s.validators.values.map Validator.stake).sum

def stakeOf (w : Option Validator) : ℕ := (w.map Validator.stake).getD 0

lemma exactStake_put (s : ValidatorSet) (a : Address) (w : Option Validator) (total : ℕ) :
    exactStake ⟨s.validators.put a w, total⟩ + stakeOf (s.validator a) =
      s.exactStake + stakeOf w := by
  have herase : ((s.validators.erase a).values.map Validator.stake).sum +
      stakeOf (s.validator a) = s.exactStake := by
    rw [validator, exactStake]
    rcases hlookup : s.validators.lookup a with _ | v
    · have hsame : s.validators.erase a = s.validators :=
        AList.ext (List.kerase_of_notMem_keys (AList.lookup_eq_none.1 hlookup))
      rw [hsame]
      rfl
    · rw [((AList.values_perm_cons_erase hlookup).map Validator.stake).sum_eq, Nat.add_comm]
      rfl
  cases w with
  | none => exact herase
  | some v =>
    have hinsert : exactStake ⟨s.validators.put a (some v), total⟩ =
        v.stake + ((s.validators.erase a).values.map Validator.stake).sum := rfl
    rw [hinsert, Nat.add_assoc, herase, Nat.add_comm]
    rfl

/-- A removed, jailed or slashed validator is gone or no longer active. -/
lemma apply_cases (h : s.apply env op = .ok s') :
    (∃ v, op = .add v) ∨ (∃ vs, replaceValidators env vs = .ok s') ∨ s' = s ∨
    ∃ a u w total, s.validator a = some u ∧ s' = ⟨s.validators.put a w, total⟩ ∧
      (∀ v ∈ w, v.isActive = false ∧ v.address = u.address ∧ v.blsPubkey = u.blsPubkey) ∧
      (u.stake ≤ s.totalStake → s.totalStake - u.stake + stakeOf w ≤ u256Max →
        total = s.totalStake - u.stake + stakeOf w) := by
  cases op with
  | add v => exact .inl ⟨v, rfl⟩
  | replace vs => exact .inr (.inl ⟨vs, h⟩)
  | epochTransition vs height epochLength =>
    rw [apply] at h
    split_ifs at h
    · exact .inr (.inl ⟨vs, h⟩)
    · cases h
      exact .inr (.inr (.inl rfl))
  | remove b =>
    cases h
    rw [removeValidator]
    split
    · rename_i u hu
      exact .inr (.inr (.inr ⟨b, u, none, _, hu, rfl, nofun, fun _ _ => rfl⟩))
    · exact .inr (.inr (.inl rfl))
  | jail b =>
    rw [apply, jailValidator] at h
    split at h <;> cases h
    rename_i u hu
    refine .inr (.inr (.inr ⟨b, u, some _, _, hu, rfl, fun v hv => ?_, fun hle _ => ?_⟩))
    · cases hv
      exact ⟨rfl, rfl, rfl⟩
    · exact (Nat.sub_add_cancel hle).symm
  | slash b amount =>
    rw [apply, slashValidator] at h
    split at h <;> cases h
    rename_i u hu
    refine .inr (.inr (.inr ⟨b, u, _, _, hu, rfl, fun v hv => ?_, fun _ hfit => ?_⟩))
    · split_ifs at hv <;> cases hv
      exact ⟨rfl, rfl, rfl⟩
    · split_ifs at hfit ⊢ with hzero
      · rw [hzero]
        exact min_eq_left hfit
      · exact min_eq_left hfit

structure Consistent (s : ValidatorSet) : Prop where
  total : s.totalStake = s.exactStake
  keyed : s.Keyed
  keys : ∀ a b u v, s.validator a = some u → s.validator b = some v → u.blsPubkey = v.blsPubkey →
    a = b

/-- A change at one address that takes its stake along. -/
lemma Consistent.put (h : s.Consistent) {total : ℕ}
    (hw : ∀ v ∈ w, v.address = a ∧
      ∀ b u, b ≠ a → s.validator b = some u → u.blsPubkey ≠ v.blsPubkey)
    (htotal : stakeOf (s.validator a) ≤ s.totalStake →
      s.totalStake - stakeOf (s.validator a) + stakeOf w ≤ u256Max →
      total = s.totalStake - stakeOf (s.validator a) + stakeOf w)
    (hfits : exactStake ⟨s.validators.put a w, total⟩ ≤ u256Max) :
    Consistent ⟨s.validators.put a w, total⟩ := by
  refine ⟨?_, fun b v hv => ?_, fun b c u v hu hv hkey => ?_⟩
  · have hremoved := exactStake_put s a none 0
    have hput := exactStake_put s a w total
    rw [← h.total] at hremoved hput
    have hle : stakeOf (s.validator a) ≤ s.totalStake := Nat.le.intro (Nat.add_comm _ _ ▸ hremoved)
    have hexact : s.totalStake - stakeOf (s.validator a) + stakeOf w =
        exactStake ⟨s.validators.put a w, total⟩ := by omega
    exact (htotal hle (hexact ▸ hfits)).trans hexact
  · rw [AList.lookup_put] at hv
    split_ifs at hv with hb
    · exact hb ▸ (hw v hv).1
    · exact h.keyed b v hv
  · rw [validator, AList.lookup_put] at hu hv
    split_ifs at hu hv with hb hc hc
    · exact hb.trans hc.symm
    · exact absurd hkey.symm ((hw u hu).2 c v hc hv)
    · exact absurd hkey ((hw v hv).2 b u hb hu)
    · exact h.keys b c u v hu hv hkey

lemma Consistent.replaceValidators {vs : List Validator} (hok : replaceValidators env vs = .ok s)
    (hfits : s.exactStake ≤ u256Max) : s.Consistent := by
  have hvalidator := validator_replaceValidators hok
  have hreplaceable := replaceValidators_ok_iff.1 ⟨s, hok⟩
  refine ⟨?_, fun a v hv => ((hvalidator a v).1 hv).2, fun a b u v hu hv hkey => ?_⟩
  · obtain ⟨hvalues, -, htotal⟩ := replaceValidators_spec hok
    rw [exactStake, hvalues, List.map_reverse, List.sum_reverse] at hfits ⊢
    rw [htotal, min_eq_left hfits]
  · obtain ⟨hmem, rfl⟩ := (hvalidator a u).1 hu
    obtain ⟨hmem', rfl⟩ := (hvalidator b v).1 hv
    rw [List.inj_on_of_nodup_map hreplaceable.keys hmem hmem' hkey]

lemma Consistent.step (h : s.Consistent) (happly : s.apply env op = .ok s')
    (hfits : s'.exactStake ≤ u256Max) : s'.Consistent := by
  obtain ⟨v, rfl⟩ | ⟨vs, hvs⟩ | rfl | ⟨a, u, w, total, hu, rfl, hw, htotal⟩ := apply_cases happly
  · obtain ⟨-, hadmissible, hshares, rfl⟩ := addValidator_ok_iff.1 happly
    rw [← Bool.not_eq_true, sharesBlsKey_iff hadmissible.isSome_blsPubkey] at hshares
    refine @put s v.address (some v) h _ (fun u hu => ?_) (fun _ hfit => min_eq_left hfit) hfits
    cases hu
    exact ⟨rfl, fun b u hb hu heq => hshares ⟨b, u, hb, hu, heq⟩⟩
  · exact .replaceValidators hvs hfits
  · exact h
  · refine h.put (fun v hv => ?_) (by rwa [hu]) hfits
    obtain ⟨-, haddress, hkey⟩ := hw v hv
    exact ⟨haddress.trans (h.keyed a u hu), fun b t hb ht heq =>
      hb (h.keys b a t u ht hu (heq.trans hkey))⟩

/-- Along every run with stakes that fit in a `U256` the total is exact and no BLS key is shared,
and an operation that fails changes nothing. -/
theorem consistent_steps (h : Steps env (fun _ _ s' => s'.exactStake ≤ u256Max) empty s) :
    s.Consistent ∧ ∀ op e s', (perform env op).run s = (.error e, s') → s' = s := by
  refine ⟨h.invariant ⟨rfl, nofun, nofun⟩ Consistent.step, fun op e s' hrun => ?_⟩
  rw [leaves_perform] at hrun
  split at hrun
  · cases hrun
  · exact (Prod.mk.inj hrun).2.symm

/-- One of two validators is slashed to nothing. -/
theorem consistent_steps_slash : ∃ s : ValidatorSet, s.validators.keys = [2] ∧ s.Consistent ∧
    ∀ op e s', (perform .sample op).run s = (.error e, s') → s' = s := by
  let vs := [Validator.sample 1 1, Validator.sample 2 1]
  refine ⟨_, ?_, @consistent_steps .sample _ ((Relation.ReflTransGen.single
    ⟨.replace vs, rfl, ?_⟩).tail ⟨.slash 1 u256Max, rfl, ?_⟩)⟩ <;> decide +kernel

/-! ### Active validators -/

/-- An update makes a validator active only where there is room. -/
def Roomy (s : ValidatorSet) (op : Op) : Prop :=
  ∀ v u, op = .add v → v.isActive = true → s.validator v.address = some u → u.isActive = false →
    s.activeValidatorCount < maxActiveValidators

/-- A change at one address adds at most this address to the active ones. -/
lemma activePlaces_put_subset {total : ℕ} {places : Finset Address}
    (hold : s.activePlaces ⊆ places) (hw : ∀ v ∈ w, v.isActive = true → a ∈ places) :
    activePlaces ⟨s.validators.put a w, total⟩ ⊆ places := by
  intro b hb
  obtain ⟨u, hu, hactive⟩ := mem_activePlaces.1 hb
  rw [validator, AList.lookup_put] at hu
  split_ifs at hu with heq
  · exact heq ▸ hw u hu hactive
  · exact hold (mem_activePlaces.2 ⟨u, hu, hactive⟩)

lemma activeValidatorCount_step (h : s.activeValidatorCount ≤ maxActiveValidators)
    (happly : s.apply env op = .ok s') (hroomy : s.Roomy op) :
    s'.activeValidatorCount ≤ maxActiveValidators := by
  rw [← card_activePlaces] at h ⊢
  obtain ⟨v, rfl⟩ | ⟨vs, hvs⟩ | rfl | ⟨a, u, w, total, -, rfl, hw, -⟩ := apply_cases happly
  · obtain ⟨hroom, -, -, rfl⟩ := addValidator_ok_iff.1 happly
    by_cases hplace : v.isActive = true → v.address ∈ s.activePlaces
    · refine (Finset.card_le_card (@activePlaces_put_subset s _ (some v) _ _ subset_rfl ?_)).trans h
      exact fun u hu => Option.mem_some.1 hu ▸ hplace
    · -- a new active address, whether its validator is new or was inactive
      push Not at hplace
      obtain ⟨hactive, hplace⟩ := hplace
      have hlt : s.activePlaces.card < maxActiveValidators := by
        rw [card_activePlaces]
        rcases hu : s.validator v.address with _ | u
        · exact hroom hu hactive
        · refine hroomy v u rfl hactive hu (Bool.eq_false_iff.2 fun hu' => ?_)
          exact hplace (mem_activePlaces.2 ⟨u, hu, hu'⟩)
      refine (Finset.card_le_card (@activePlaces_put_subset s _ (some v) _ _
        (Finset.subset_insert v.address _) fun _ _ _ => Finset.mem_insert_self _ _)).trans ?_
      exact (Finset.card_insert_le _ _).trans hlt
  · have hbounded := (replaceValidators_ok_iff.1 ⟨s', hvs⟩).bounded
    rw [card_activePlaces, activeValidatorCount, activeValidators, List.length_insertionSort,
      (replaceValidators_spec hvs).1, List.filter_reverse, List.length_reverse]
    exact hbounded
  · exact h
  · refine (Finset.card_le_card (activePlaces_put_subset subset_rfl fun v hv hactive => ?_)).trans h
    rw [(hw v hv).1] at hactive
    cases hactive

/-- The cap holds along every run whose updates make a validator active only where there is
room. -/
theorem active_steps_le (h : Steps env (fun s op _ => s.Roomy op) empty s) :
    s.activeValidatorCount ≤ maxActiveValidators :=
  h.invariant (Nat.zero_le _) activeValidatorCount_step

/-- An inactive validator becomes active where there is room. -/
theorem active_steps_le_two : ∃ s : ValidatorSet, s.activeValidatorCount = 2 ∧
    s.activeValidatorCount ≤ maxActiveValidators := by
  let late := Validator.sample 1 1
  let vs := [{ late with status := .inactive }, Validator.sample 2 1]
  refine ⟨_, ?_, @active_steps_le .sample _ ((Relation.ReflTransGen.single
    ⟨.replace vs, rfl, nofun⟩).tail ⟨.add late, rfl, fun _ _ _ _ _ _ => ?_⟩)⟩ <;> decide +kernel

/-- An inactive validator joins two hundred active ones. -/
theorem active_steps_gt : ∃ s, Steps .sample (fun _ _ _ => True) empty s ∧
    maxActiveValidators < s.activeValidatorCount := by
  let late := Validator.sample 201 1
  let vs := { late with status := .inactive } :: (List.range' 1 200).map (Validator.sample · 1)
  refine ⟨_, (Relation.ReflTransGen.single ⟨.replace vs, rfl, trivial⟩).tail
    ⟨.add late, rfl, trivial⟩, ?_⟩
  decide +kernel

end ValidatorSet

end Sxiaum
