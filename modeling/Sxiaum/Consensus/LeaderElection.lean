import Sxiaum.Consensus.CertificateQuorum

/-!
# Leaders in proportion to their power

`select_leader_weighted` (`pos/validator_set.rs`) chooses every active validator for as many random
values as it has voting power, as long as the sum of all powers fits in a `u64`.
-/

namespace Sxiaum.ValidatorSet

variable {v : Validator} {vs : List Validator} {cumulative k : ℕ}

section Scan

variable (hfits : cumulative + ((v :: vs).map Validator.votingPower).sum ≤ u64Max)

include hfits

lemma satAdd64_power : satAdd64 cumulative v.votingPower = cumulative + v.votingPower ∧
    cumulative + v.votingPower + (vs.map Validator.votingPower).sum ≤ u64Max := by
  rw [List.map_cons, List.sum_cons, ← Nat.add_assoc] at hfits
  exact ⟨Nat.min_eq_left (by omega), hfits⟩

lemma pickWeighted_below (hk : k < v.votingPower) :
    pickWeighted (cumulative + k) cumulative (v :: vs) = some v.address := by
  rw [pickWeighted, (satAdd64_power hfits).1, if_pos (Nat.add_lt_add_left hk _)]

lemma pickWeighted_above :
    pickWeighted (cumulative + (v.votingPower + k)) cumulative (v :: vs) =
      pickWeighted (cumulative + v.votingPower + k) (cumulative + v.votingPower) vs := by
  rw [pickWeighted, (satAdd64_power hfits).1, if_neg (by omega), Nat.add_assoc]

end Scan

lemma count_pickWeighted (hnodup : (vs.map Validator.address).Nodup)
    (hfits : cumulative + (vs.map Validator.votingPower).sum ≤ u64Max) (address : Address) :
    Nat.count (fun k => pickWeighted (cumulative + k) cumulative vs = some address)
      (vs.map Validator.votingPower).sum = powerOf vs address := by
  induction vs generalizing cumulative with
  | nil => rfl
  | cons v vs ih =>
    rw [List.map_cons, List.nodup_cons] at hnodup
    rw [List.map_cons, List.sum_cons, Nat.count_add]
    simp only [pickWeighted_above hfits]
    rw [ih hnodup.2 (satAdd64_power hfits).2]
    -- the values below the power of `v` choose `v`, the others go on with the rest
    by_cases ha : v.address = address
    · subst ha
      have hrest : powerOf vs v.address = 0 := by
        rw [powerOf, List.find?_eq_none.2]
        · rfl
        · intro w hw heq
          exact hnodup.1 (of_decide_eq_true heq ▸ List.mem_map_of_mem hw)
      rw [Nat.count_of_forall fun k hk => pickWeighted_below hfits hk, hrest]
      simp [powerOf]
    · rw [Nat.count_of_forall_not, Nat.zero_add]
      · simp [powerOf, ha]
      · intro k hk
        rw [pickWeighted_below hfits hk]
        exact fun heq => ha (Option.some.inj heq)

lemma pickWeighted_isSome (hfits : cumulative + (vs.map Validator.votingPower).sum ≤ u64Max)
    (hk : k < (vs.map Validator.votingPower).sum) :
    (pickWeighted (cumulative + k) cumulative vs).isSome := by
  induction vs generalizing cumulative k with
  | nil => cases hk
  | cons v vs ih =>
    rcases lt_or_ge k v.votingPower with hlt | hge
    · rw [pickWeighted_below hfits hlt]
      rfl
    · obtain ⟨k, rfl⟩ := Nat.exists_eq_add_of_le hge
      rw [pickWeighted_above hfits]
      refine ih (satAdd64_power hfits).2 ?_
      rwa [List.map_cons, List.sum_cons, Nat.add_lt_add_iff_left] at hk

/-- Every active validator is chosen for as many of the random values as it has voting power, hence
one without power for none, and the fallback is never reached. -/
theorem leader_proportional {s : ValidatorSet} (hkeyed : s.Keyed) (hfits : s.NoOverflow)
    (hpos : 0 < s.exactPower) :
    (∀ v ∈ s.activeValidators, Nat.count
      (fun r => pickWeighted r 0 s.activeValidators = some v.address) s.exactPower = v.votingPower ∧
      (v.votingPower = 0 → ∀ r < s.exactPower,
        pickWeighted r 0 s.activeValidators ≠ some v.address)) ∧
    (∀ r < s.exactPower, (pickWeighted r 0 s.activeValidators).isSome) ∧
    ∀ (env : Env) (view : ℕ) (seed : Hash), s.selectLeaderWeighted env view seed =
      pickWeighted (env.leaderRandom seed view % s.exactPower) 0 s.activeValidators := by
  have hsum : 0 + (s.activeValidators.map Validator.votingPower).sum ≤ u64Max := by
    rwa [Nat.zero_add]
  have hsome : ∀ r < s.exactPower, (pickWeighted r 0 s.activeValidators).isSome := by
    intro r hr
    simpa only [Nat.zero_add] using pickWeighted_isSome hsum hr
  refine ⟨fun v hv => ?_, hsome, fun env view seed => ?_⟩
  · have hcount := count_pickWeighted hkeyed.nodup hsum v.address
    simp only [Nat.zero_add] at hcount
    have hpower : powerOf s.activeValidators v.address = v.votingPower := by
      simp [powerOf, find?_address hkeyed.nodup hv]
    rw [hpower] at hcount
    exact ⟨hcount, fun hzero => Nat.count_iff_forall_not.1 (hcount.trans hzero)⟩
  · have hactive : s.activeValidators ≠ [] := by
      intro hnil
      rw [exactPower, hnil] at hpos
      cases hpos
    have htotal : s.totalActiveVotingPower = s.exactPower := by
      rw [totalActiveVotingPower_eq]
      exact min_eq_left hfits
    rw [selectLeaderWeighted, htotal]
    simp only [if_neg hactive, if_neg hpos.ne']
    obtain ⟨leader, hleader⟩ := Option.isSome_iff_exists.1 (hsome _ (Nat.mod_lt _ hpos))
    rw [hleader]

/-- One of two validators has two of the three units of power. -/
theorem leader_proportional_sampleSet :
    let s := QuorumCertificate.sampleSet [.sample 1 2, .sample 2 1]
    s.exactPower = 3 ∧ Nat.count (fun r => pickWeighted r 0 s.activeValidators = some 1) 3 = 2 := by
  have hpower : (QuorumCertificate.sampleSet [.sample 1 2, .sample 2 1]).exactPower = 3 := by
    decide +kernel
  refine ⟨hpower, hpower ▸ ((leader_proportional (by decide +kernel) (by decide +kernel)
    (by decide +kernel)).1 (.sample 1 2) (by decide +kernel)).1⟩

end Sxiaum.ValidatorSet
