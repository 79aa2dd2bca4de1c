import Sxiaum.Consensus.CertificateQuorum
import Sxiaum.Lib.Guards
import Sxiaum.Lib.MapOrder

/-!
# Replacing the validator set

`replace_validators` takes a list of validators exactly if each of them passes its checks, no
address and no BLS key appears twice and at most `MAX_ACTIVE_VALIDATORS` are active. The new set
then holds the listed validators, and depends on their order only through the order of its map.
-/

namespace Sxiaum.ValidatorSet

open Guards Validator

variable {env : Env} {set : ValidatorSet} {vs : List Validator} {v : Validator}

/-! ### One validator -/

/-- The validator passes the checks that do not depend on the others. -/
def Admissible (env : Env) (v : Validator) : Prop :=
  validateValidator env v = .ok () ∧ enforceBlsPop env v = .ok ()

lemma Admissible.isSome_blsPubkey (h : Admissible env v) : v.blsPubkey.isSome = true := by
  have hpop := h.2
  unfold enforceBlsPop at hpop
  split at hpop
  · rename_i heq _
    simp [heq]
  · cases hpop

/-- What the loop of `replace_validators` asks of the next validator. -/
lemma stageValidator_ok_iff {staged staged' : ValidatorSet × ℕ} :
    stageValidator env staged v = .ok staged' ↔
      Admissible env v ∧ staged.1.validators.lookup v.address = none ∧
        v.blsPubkey ∉ staged.1.validators.values.map blsPubkey ∧
        (v.isActive = true → staged.2 < maxActiveValidators) ∧
        staged' = (⟨staged.1.validators.insert v.address v,
          min (staged.1.totalStake + v.stake) u256Max⟩,
          if v.isActive then staged.2 + 1 else staged.2) := by
  have hroom : (v.isActive && decide (maxActiveValidators <
      if v.isActive then staged.2 + 1 else staged.2)) = true ↔
      ¬ (v.isActive = true → staged.2 < maxActiveValidators) := by
    cases v.isActive <;> simp
  simp only [stageValidator, ite_throw_ok, bind_ok, exists_unit, pure_ok, hroom, not_not,
    eq_comm (b := staged')]
  rw [← and_assoc]
  refine and_congr_right fun h : Admissible env v => ?_
  simp [h.isSome_blsPubkey]

/-! ### The whole list -/

/-- The staged set lists the validators taken so far, each under its address, with the sum of
their stakes; the counter counts the active ones. -/
lemma foldlM_stageValidator_spec {staged : ValidatorSet × ℕ}
    (h : vs.foldlM (stageValidator env) (empty, 0) = .ok staged) :
    (staged.1.validators.values = vs.reverse ∧ staged.1.Keyed ∧
      staged.1.totalStake = min (vs.map stake).sum u256Max) ∧
      staged.2 = (vs.filter isActive).length := by
  induction vs using List.reverseRecOn generalizing staged with
  | nil =>
    cases h
    exact ⟨⟨rfl, nofun, rfl⟩, rfl⟩
  | append_singleton front v ih =>
    rw [List.foldlM_append, bind_ok] at h
    obtain ⟨before, hfront, hlast⟩ := h
    obtain ⟨⟨hvalues, hkeyed, htotal⟩, hcount⟩ := ih hfront
    simp only [List.foldlM_cons, List.foldlM_nil, bind_pure] at hlast
    obtain ⟨-, hfresh, -, -, rfl⟩ := stageValidator_ok_iff.1 hlast
    refine ⟨⟨?_, fun a u hu => ?_, ?_⟩, ?_⟩ <;> dsimp only at *
    · rw [AList.values_insert_of_notMem (AList.lookup_eq_none.1 hfresh), hvalues]
      simp
    · by_cases ha : a = v.address
      · rw [ha, AList.lookup_insert] at hu
        exact Option.some.inj hu ▸ ha.symm
      · rw [AList.lookup_insert_ne ha] at hu
        exact hkeyed a u hu
    · rw [htotal, List.map_append, List.sum_append, List.map_singleton, List.sum_singleton]
      omega
    · rw [hcount]
      split_ifs with hactive <;> simp [List.filter_append, hactive]

/-- A replaced set lists the validators, each under its address, with the sum of their stakes. -/
lemma replaceValidators_spec (h : replaceValidators env vs = .ok set) :
    set.validators.values = vs.reverse ∧ set.Keyed ∧
      set.totalStake = min (vs.map stake).sum u256Max := by
  simp only [replaceValidators, bind_ok, pure_ok] at h
  obtain ⟨staged, hstaged, rfl⟩ := h
  exact (foldlM_stageValidator_spec hstaged).1

lemma validator_replaceValidators (h : replaceValidators env vs = .ok set) (a : Address)
    (v : Validator) : set.validator a = some v ↔ v ∈ vs ∧ v.address = a := by
  obtain ⟨hvalues, hkeyed, -⟩ := replaceValidators_spec h
  rw [hkeyed.validator_iff, hvalues, List.mem_reverse]

/-- The listed validators can become the set. -/
@[mk_iff] structure Replaceable (env : Env) (vs : List Validator) : Prop where
  admissible : ∀ v ∈ vs, Admissible env v
  addresses : (vs.map Validator.address).Nodup
  keys : (vs.map Validator.blsPubkey).Nodup
  bounded : (vs.filter Validator.isActive).length ≤ maxActiveValidators

/-- The map holds the validators before, so its checks speak about them. -/
lemma exists_stageValidator_iff {before : ValidatorSet × ℕ}
    (h : vs.foldlM (stageValidator env) (empty, 0) = .ok before) :
    (∃ staged, stageValidator env before v = .ok staged) ↔ Admissible env v ∧
      v.address ∉ vs.map address ∧ v.blsPubkey ∉ vs.map blsPubkey ∧
      (v.isActive = true → (vs.filter isActive).length < maxActiveValidators) := by
  obtain ⟨⟨hvalues, hkeyed, -⟩, hcount⟩ := foldlM_stageValidator_spec h
  have hlookup : ∀ u, before.1.validators.lookup v.address = some u ↔ _ := fun u =>
    hkeyed.validator_iff
  have hfresh : before.1.validators.lookup v.address = none ↔ v.address ∉ vs.map address := by
    rw [Option.eq_none_iff_forall_ne_some]
    simp [hlookup, hvalues]
  simp only [stageValidator_ok_iff, hvalues, hcount, hfresh, List.map_reverse, List.mem_reverse]
  constructor
  · rintro ⟨staged, hadmissible, haddress, hkey, hroom, -⟩
    exact ⟨hadmissible, haddress, hkey, hroom⟩
  · rintro ⟨hadmissible, haddress, hkey, hroom⟩
    exact ⟨_, hadmissible, haddress, hkey, hroom, rfl⟩

lemma replaceable_snoc : Replaceable env (vs ++ [v]) ↔ Replaceable env vs ∧ Admissible env v ∧
    v.address ∉ vs.map address ∧ v.blsPubkey ∉ vs.map blsPubkey ∧
    (v.isActive = true → (vs.filter isActive).length < maxActiveValidators) := by
  have hnodup : ∀ {α : Type} (l : List α) (a : α), (l ++ [a]).Nodup ↔ l.Nodup ∧ a ∉ l := by
    intro α l a
    rw [← List.concat_eq_append, List.nodup_concat]
    tauto
  have hbounded : ((vs ++ [v]).filter isActive).length ≤ maxActiveValidators ↔
      (vs.filter isActive).length ≤ maxActiveValidators ∧
        (v.isActive = true → (vs.filter isActive).length < maxActiveValidators) := by
    rw [List.filter_append, List.length_append, List.filter_singleton]
    cases v.isActive
    · simp
    · simp only [cond_true, List.length_singleton, forall_const]
      omega
  rw [replaceable_iff, replaceable_iff, List.forall_mem_append, List.forall_mem_singleton,
    List.map_append, List.map_append, List.map_singleton, List.map_singleton, hnodup, hnodup,
    hbounded]
  tauto

theorem replaceValidators_ok_iff :
    (∃ set, replaceValidators env vs = .ok set) ↔ Replaceable env vs := by
  have hfold : (∃ set, replaceValidators env vs = .ok set) ↔
      ∃ staged, vs.foldlM (stageValidator env) (empty, 0) = .ok staged := by
    simp only [replaceValidators, bind_ok, pure_ok]
    constructor
    · rintro ⟨set, staged, h, -⟩
      exact ⟨staged, h⟩
    · rintro ⟨staged, h⟩
      exact ⟨_, staged, h, rfl⟩
  rw [hfold]
  clear hfold
  induction vs using List.reverseRecOn with
  | nil => exact iff_of_true ⟨_, rfl⟩ ⟨by simp, List.nodup_nil, List.nodup_nil, Nat.zero_le _⟩
  | append_singleton front v ih =>
    simp only [List.foldlM_append, bind_ok, List.foldlM_cons, List.foldlM_nil, bind_pure]
    rw [replaceable_snoc]
    constructor
    · rintro ⟨staged, before, hfront, hlast⟩
      exact ⟨ih.1 ⟨before, hfront⟩, (exists_stageValidator_iff hfront).1 ⟨staged, hlast⟩⟩
    · rintro ⟨hreplaceable, hv⟩
      obtain ⟨before, hfront⟩ := ih.2 hreplaceable
      obtain ⟨staged, hlast⟩ := (exists_stageValidator_iff hfront).2 hv
      exact ⟨staged, before, hfront, hlast⟩

lemma replaceable_congr {vs' : List Validator} (h : vs.Perm vs') :
    Replaceable env vs ↔ Replaceable env vs' := by
  simp only [replaceable_iff, h.mem_iff, (h.map address).nodup_iff, (h.map blsPubkey).nodup_iff,
    (h.filter isActive).length_eq]

/-- Whether a list can become the set, and the set it becomes, do not depend on its order. -/
theorem replaceValidators_perm {vs' : List Validator} (h : vs.Perm vs') :
    (∃ set set', replaceValidators env vs = .ok set ∧ replaceValidators env vs' = .ok set' ∧
        (∀ a, set.validator a = set'.validator a) ∧ set.totalStake = set'.totalStake) ∨
      ∃ e e', replaceValidators env vs = .error e ∧ replaceValidators env vs' = .error e' := by
  have hiff := @replaceable_congr env _ _ h
  rw [← replaceValidators_ok_iff, ← replaceValidators_ok_iff] at hiff
  rcases hset : replaceValidators env vs with e | set
  · rcases hset' : replaceValidators env vs' with e' | set'
    · exact .inr ⟨e, e', rfl, rfl⟩
    · obtain ⟨set, hok⟩ := hiff.2 ⟨set', hset'⟩
      rw [hset] at hok
      cases hok
  · obtain ⟨set', hset'⟩ := hiff.1 ⟨set, hset⟩
    refine .inl ⟨set, set', rfl, hset', fun a => Option.ext fun v => ?_, ?_⟩
    · rw [validator_replaceValidators hset, validator_replaceValidators hset', h.mem_iff]
    · rw [(replaceValidators_spec hset).2.2, (replaceValidators_spec hset').2.2,
        (h.map stake).sum_eq]

/-! ### The active list -/

instance : Std.Total ActiveOrder where
  total a b := by
    rcases lt_trichotomy a.votingPower b.votingPower with h | h | h
    · exact .inr (.inl h)
    · rcases le_total a.address b.address with hle | hle
      · exact .inl (.inr ⟨h, hle⟩)
      · exact .inr (.inr ⟨h.symm, hle⟩)
    · exact .inl (.inl h)

instance : IsTrans Validator ActiveOrder where
  trans a b c hab hbc := by
    rcases hab with hab | ⟨hab, hle⟩ <;> rcases hbc with hbc | ⟨hbc, hle'⟩
    · exact .inl (hbc.trans hab)
    · exact .inl (hbc ▸ hab)
    · exact .inl (hab ▸ hbc)
    · exact .inr ⟨hab.trans hbc, hle.trans hle'⟩

lemma ActiveOrder.address_eq {v w : Validator} (hvw : ActiveOrder v w) (hwv : ActiveOrder w v) :
    v.address = w.address := by
  rcases hvw with hvw | ⟨heq, hvw⟩ <;> rcases hwv with hwv | ⟨heq', hwv⟩
  · exact absurd hvw hwv.asymm
  · exact absurd heq' hvw.ne
  · exact absurd heq hwv.ne
  · exact le_antisymm hvw hwv

/-- Sets with the same validators have the same active list, however their maps are ordered. -/
lemma activeValidators_congr {set' : ValidatorSet} (hkeyed : set.Keyed)
    (h : ∀ a, set'.validator a = set.validator a) :
    set'.activeValidators = set.activeValidators := by
  have hvalues : set'.validators.values.Perm set.validators.values := AList.values_perm h
  have hperm : set'.activeValidators.Perm set.activeValidators :=
    (List.perm_insertionSort ActiveOrder _).trans
      ((hvalues.filter isActive).trans (List.perm_insertionSort ActiveOrder _).symm)
  have hlookup : ∀ v ∈ set.activeValidators, set.validators.lookup v.address = some v := by
    intro v hv
    have hvalue := (List.mem_filter.1 ((List.mem_insertionSort ActiveOrder).1 hv)).1
    exact hkeyed.validator_iff.2 ⟨hvalue, rfl⟩
  refine hperm.eq_of_pairwise ?_ (List.pairwise_insertionSort ActiveOrder _)
    (List.pairwise_insertionSort ActiveOrder _)
  -- two validators of the set with one address are one validator
  intro v w hv hw hvw hwv
  have hv' := hlookup v (hperm.mem_iff.1 hv)
  rw [hvw.address_eq hwv, hlookup w hw] at hv'
  exact (Option.some.inj hv').symm

end Sxiaum.ValidatorSet

