import Sxiaum.Lib.Quorum
import Sxiaum.Consensus.Vote

/-!
# Verified certificates carry quorums

A certificate that verifies lists distinct active validators. As long as the voting power of
all active validators is at most `2 ^ 64`, so that no saturated sum is off by more than one, or
every validator has to sign, the signers hold more than two thirds of it.
-/

namespace Sxiaum

/-! ### Voting power -/

/-- The power of a listed address; others have none. -/
def powerOf (vs : List Validator) (address : Address) : ℕ :=
  ((vs.find? (·.address = address)).map Validator.votingPower).getD 0

lemma find?_address {vs : List Validator} (hnodup : (vs.map Validator.address).Nodup)
    {v : Validator} (hv : v ∈ vs) : vs.find? (·.address = v.address) = some v := by
  induction vs with
  | nil => cases hv
  | cons w rest ih =>
    rw [List.map_cons, List.nodup_cons] at hnodup
    rcases List.mem_cons.1 hv with rfl | hv
    · simp
    · have hne : w.address ≠ v.address := fun e => hnodup.1 (e ▸ List.mem_map_of_mem hv)
      rw [List.find?_cons_of_neg (by simpa using hne)]
      exact ih hnodup.2 hv

/-- With distinct addresses the powers of the addresses add up to the powers of the
validators. -/
lemma sum_powerOf {vs : List Validator} (hnodup : (vs.map Validator.address).Nodup) :
    ∑ a ∈ (vs.map Validator.address).toFinset, powerOf vs a =
      (vs.map Validator.votingPower).sum := by
  rw [List.sum_toFinset _ hnodup, List.map_map]
  refine congrArg List.sum (List.map_congr_left fun v hv => ?_)
  simp [powerOf, find?_address hnodup hv]

lemma foldl_satAdd64 (powers : List ℕ) {acc : ℕ} (hacc : acc ≤ u64Max) :
    powers.foldl satAdd64 acc = min (acc + powers.sum) u64Max := by
  induction powers generalizing acc with
  | nil => simp [hacc]
  | cons p rest ih =>
    have hstep : satAdd64 acc p ≤ u64Max := min_le_right _ _
    rw [List.foldl_cons, ih hstep, List.sum_cons]
    unfold satAdd64
    omega

namespace ValidatorSet

variable (s : ValidatorSet)

def activeAddresses : Finset Address :=
  (s.activeValidators.map Validator.address).toFinset

def activePower (address : Address) : ℕ := powerOf s.activeValidators address

/-- Every validator is stored under its address. -/
def Keyed : Prop :=
  ∀ a v, s.validators.lookup a = some v → v.address = a

instance (s : ValidatorSet) : Decidable s.Keyed :=
  decidable_of_iff (∀ e ∈ s.validators.entries, e.2.address = e.1)
    ⟨fun h a v hv => h ⟨a, v⟩ (AList.mem_lookup_iff.1 hv),
      fun h e he => h e.1 e.2 (AList.mem_lookup_iff.2 he)⟩

/-- The voting power of the active validators, without the bound of a `u64`. -/
def exactPower : ℕ := (s.activeValidators.map Validator.votingPower).sum

/-- The voting power of the active validators fits in a `u64`. -/
def NoOverflow : Prop :=
  (s.activeValidators.map Validator.votingPower).sum ≤ u64Max

instance (s : ValidatorSet) : Decidable s.NoOverflow :=
  inferInstanceAs (Decidable (_ ≤ u64Max))

lemma Keyed.nodup {s : ValidatorSet} (h : s.Keyed) :
    (s.activeValidators.map Validator.address).Nodup := by
  have hvalues : (s.validators.values.map Validator.address) = s.validators.keys := by
    rw [AList.values, List.map_map, AList.keys, List.keys]
    refine List.map_congr_left fun e he => ?_
    exact h e.1 e.2 (AList.mem_lookup_iff.2 he)
  have hall : (s.validators.values.map Validator.address).Nodup := hvalues ▸ s.validators.keys_nodup
  have hfilter : ((s.validators.values.filter Validator.isActive).map Validator.address).Nodup :=
    hall.sublist (List.filter_sublist.map Validator.address)
  exact ((List.perm_insertionSort ActiveOrder _).map Validator.address).nodup_iff.2 hfilter

lemma Keyed.validator_iff {s : ValidatorSet} (h : s.Keyed) {a : Address} {v : Validator} :
    s.validator a = some v ↔ v ∈ s.validators.values ∧ v.address = a := by
  rw [AList.mem_values]
  constructor
  · exact fun hv => ⟨⟨a, hv⟩, h a v hv⟩
  · rintro ⟨⟨k, hk⟩, rfl⟩
    rwa [validator, h k v hk]

lemma Keyed.find?_active {s : ValidatorSet} (h : s.Keyed) {a : Address} {v : Validator} :
    s.activeValidators.find? (·.address = a) = some v ↔
      s.validator a = some v ∧ v.isActive = true := by
  have hmem : v ∈ s.activeValidators ↔ v ∈ s.validators.values ∧ v.isActive = true := by
    rw [activeValidators, List.mem_insertionSort, List.mem_filter]
  rw [h.validator_iff]
  constructor
  · intro hfind
    obtain ⟨hv, hactive⟩ := hmem.1 (List.mem_of_find?_eq_some hfind)
    exact ⟨⟨hv, by simpa using List.find?_some hfind⟩, hactive⟩
  · rintro ⟨⟨hv, rfl⟩, hactive⟩
    exact find?_address h.nodup (hmem.2 ⟨hv, hactive⟩)

lemma mem_activeAddresses {s : ValidatorSet} {a : Address} :
    a ∈ s.activeAddresses ↔ ∃ v, s.activeValidators.find? (·.address = a) = some v := by
  rw [activeAddresses, List.mem_toFinset, List.mem_map, ← Option.isSome_iff_exists,
    List.find?_isSome]
  simp

/-- The sum that saturates is the exact one cut off. -/
lemma totalActiveVotingPower_eq : s.totalActiveVotingPower = min s.exactPower u64Max := by
  have hfold : s.totalActiveVotingPower =
      (s.activeValidators.map Validator.votingPower).foldl satAdd64 0 := by
    rw [totalActiveVotingPower, List.foldl_map]
  rw [hfold, foldl_satAdd64 _ (Nat.zero_le _), Nat.zero_add, exactPower]

lemma sum_activePower {s : ValidatorSet} (h : s.Keyed) :
    ∑ a ∈ s.activeAddresses, s.activePower a = s.exactPower :=
  sum_powerOf h.nodup

lemma card_activeAddresses {s : ValidatorSet} (h : s.Keyed) :
    s.activeAddresses.card = s.activeValidatorCount := by
  rw [activeAddresses, List.toFinset_card_of_nodup h.nodup, List.length_map,
    activeValidatorCount]

end ValidatorSet

/-! ### Signers -/

namespace QuorumCertificate

variable {env : Env} {vs : List Validator} {qc : QuorumCertificate}

lemma nodup_of_verifyEntries {seen : List Address} {entries : List (Address × QcSignature)}
    (h : verifyEntries env vs qc seen entries = true) :
    (entries.map Prod.fst).Nodup ∧ ∀ a ∈ entries.map Prod.fst, a ∉ seen := by
  induction entries generalizing seen with
  | nil => simp
  | cons e rest ih =>
    obtain ⟨address, signature⟩ := e
    simp only [verifyEntries] at h
    split_ifs at h with hseen
    split at h
    · obtain ⟨hnodup, hnot⟩ := ih (Bool.and_eq_true_iff.1 h).2
      refine ⟨List.nodup_cons.2 ⟨fun hmem => hnot address hmem List.mem_cons_self, hnodup⟩, ?_⟩
      intro a ha
      rcases List.mem_cons.1 ha with rfl | ha
      · exact hseen
      · exact fun hmem => hnot a ha (List.mem_cons_of_mem _ hmem)
    · cases h

/-- A certificate that verifies names nobody twice. -/
lemma nodup_of_verify {threshold : ℕ} (h : verify env vs threshold qc = true) :
    qc.validators.Nodup := by
  simp only [verify, Bool.and_eq_true, decide_eq_true_eq] at h
  obtain ⟨⟨hlength, -⟩, hentries⟩ := h
  have hnodup := (nodup_of_verifyEntries hentries).1
  rwa [List.map_fst_zip hlength.ge] at hnodup

lemma threshold_le_of_verify {threshold : ℕ} (h : verify env vs threshold qc = true) :
    threshold ≤ qc.validators.length := by
  simp only [verify, Bool.and_eq_true, decide_eq_true_eq] at h
  exact h.1.2

lemma signersPower_eq {signers : List Address} {total power : ℕ} (htotal : total ≤ u64Max)
    (h : signersPower vs total signers = some power) :
    (∀ a ∈ signers, a ∈ vs.map Validator.address) ∧
      power = min (total + (signers.map (powerOf vs)).sum) u64Max := by
  induction signers generalizing total with
  | nil =>
    cases h
    simp [htotal]
  | cons a rest ih =>
    simp only [signersPower] at h
    split at h
    · rename_i v hfind
      obtain ⟨hmem, hpower⟩ := ih (min_le_right _ _) h
      have haddress : v.address = a := by simpa using List.find?_some hfind
      have hv : a ∈ vs.map Validator.address :=
        haddress ▸ List.mem_map_of_mem (List.mem_of_find?_eq_some hfind)
      refine ⟨List.forall_mem_cons.2 ⟨hv, hmem⟩, ?_⟩
      have hown : powerOf vs a = v.votingPower := by simp [powerOf, hfind]
      rw [hpower, List.map_cons, List.sum_cons, hown]
      omega
    · cases h

/-- Both verification paths ask for enough distinct signers and the required voting power. -/
lemma signers_of_verifyBls {threshold required : ℕ}
    (h : verifyBlsWithVotingPower env vs threshold required qc = true) :
    qc.validators.Nodup ∧ threshold ≤ qc.validators.length ∧
      ∃ power, signersPower vs 0 qc.validators = some power ∧ required ≤ power := by
  have hed : verifyWithVotingPower env vs threshold required qc = true →
      qc.validators.Nodup ∧ threshold ≤ qc.validators.length ∧
        ∃ power, signersPower vs 0 qc.validators = some power ∧ required ≤ power := by
    intro h
    obtain ⟨hverify, hpower⟩ := Bool.and_eq_true_iff.1 h
    refine ⟨nodup_of_verify hverify, threshold_le_of_verify hverify, ?_⟩
    split at hpower
    · rename_i power heq
      exact ⟨power, heq, of_decide_eq_true hpower⟩
    · cases hpower
  unfold verifyBlsWithVotingPower at h
  split_ifs at h with hfallback hlength hnodup
  · exact hed h
  · split at h
    · cases h
    · rename_i power heq
      dsimp only at h
      split_ifs at h with hkeys hlow hempty
      · exact hed h
      all_goals
        simp only [Bool.or_eq_true, decide_eq_true_eq, not_or, not_lt] at hlow
        exact ⟨hnodup, hlow.2, power, heq, hlow.1⟩

section

variable {set : ValidatorSet}

lemma signers_of_verifies (h : set.verifies env qc = true) :
    qc.validators.toFinset ⊆ set.activeAddresses ∧
      set.quorumThreshold ≤ qc.validators.toFinset.card ∧
      set.requiredQuorumVotingPower ≤ ∑ a ∈ qc.validators.toFinset, set.activePower a := by
  obtain ⟨hnodup, hcount, power, hpower, hrequired⟩ := signers_of_verifyBls h
  obtain ⟨hmem, heq⟩ := signersPower_eq (Nat.zero_le _) hpower
  have hsigners : ∑ a ∈ qc.validators.toFinset, set.activePower a =
      (qc.validators.map (powerOf set.activeValidators)).sum := List.sum_toFinset _ hnodup
  refine ⟨fun a ha => List.mem_toFinset.2 (hmem a (List.mem_toFinset.1 ha)), ?_, ?_⟩
  · rwa [List.toFinset_card_of_nodup hnodup]
  · rw [hsigners]
    omega

/-- Its signers have more than two thirds of the power. -/
theorem isQuorum_of_verifies (hkeyed : set.Keyed) (hfit : set.exactPower ≤ u64Max + 1)
    (hpos : 0 < set.exactPower) (h : set.verifies env qc = true) :
    Quorum.IsQuorum set.activePower set.activeAddresses qc.validators.toFinset := by
  obtain ⟨hsub, -, hpower⟩ := signers_of_verifies h
  refine ⟨hsub, ?_⟩
  rw [ValidatorSet.sum_activePower hkeyed]
  have htotal : 0 < set.totalActiveVotingPower := by
    rw [ValidatorSet.totalActiveVotingPower_eq]
    exact lt_min hpos (by decide)
  rw [ValidatorSet.requiredQuorumVotingPower, if_neg htotal.ne',
    ValidatorSet.totalActiveVotingPower_eq] at hpower
  unfold u64Max at hfit hpower
  omega

/-- Of at most three validators all have to sign. -/
lemma signers_eq_of_few (hkeyed : set.Keyed) (hfew : set.activeValidatorCount ≤ 3)
    (h : set.verifies env qc = true) : qc.validators.toFinset = set.activeAddresses := by
  obtain ⟨hsub, hcount, -⟩ := signers_of_verifies h
  refine Finset.eq_of_subset_of_card_le hsub ?_
  rw [ValidatorSet.card_activeAddresses hkeyed]
  unfold ValidatorSet.quorumThreshold at hcount
  split_ifs at hcount <;> omega

/-- Two certificates that verify share signers with more than one third of the exact voting
power, where it is at most `2 ^ 64` or there are at most three active validators. -/
theorem common_signers_heavy {qc' : QuorumCertificate} (hkeyed : set.Keyed)
    (hpos : 0 < set.exactPower)
    (hfit : set.exactPower ≤ 2 ^ 64 ∨ set.activeValidatorCount ≤ 3)
    (h : set.verifies env qc = true) (h' : set.verifies env qc' = true) :
    set.exactPower <
      3 * ∑ a ∈ qc.validators.toFinset ∩ qc'.validators.toFinset, set.activePower a := by
  rcases hfit with hfit | hfew
  · have hinter := (isQuorum_of_verifies hkeyed hfit hpos h).heavy_inter
      (isQuorum_of_verifies hkeyed hfit hpos h')
    rwa [ValidatorSet.sum_activePower hkeyed] at hinter
  · rw [signers_eq_of_few hkeyed hfew h, signers_eq_of_few hkeyed hfew h', Finset.inter_self,
      ValidatorSet.sum_activePower hkeyed]
    omega

end

def sampleSet (vs : List Validator) : ValidatorSet :=
  (ValidatorSet.replaceValidators .sample vs).toOption.getD .empty

def exactSet : ValidatorSet :=
  sampleSet [.sample 1 6148914691236517205, .sample 2 1, .sample 3 6148914691236517205,
    .sample 4 6148914691236517205]

def signedBy (signers : List Address) : QuorumCertificate :=
  .sample (Block.sample 0 1 1) 0 .commit signers

/-- Two certificates where the power is exactly `2 ^ 64`. -/
theorem common_signers_exactSet :
    exactSet.exactPower = 2 ^ 64 ∧
      exactSet.exactPower <
        3 * ∑ a ∈ (signedBy [1, 2, 3]).validators.toFinset ∩
          (signedBy [1, 2, 4]).validators.toFinset, exactSet.activePower a := by
  have htotal : exactSet.exactPower = 2 ^ 64 := by decide +kernel
  have h : exactSet.verifies .sample (signedBy [1, 2, 3]) = true := by decide +kernel
  have h' : exactSet.verifies .sample (signedBy [1, 2, 4]) = true := by decide +kernel
  exact ⟨htotal, common_signers_heavy (by decide +kernel) (htotal ▸ by decide)
    (.inl htotal.le) h h'⟩

def saturatedSet : ValidatorSet :=
  sampleSet [.sample 1 6148914691236517204, .sample 2 1, .sample 3 6148914691236517206,
    .sample 4 6148914691236517206]

/-- At a total of `2 ^ 64 + 1` the common signers can hold less than one third. -/
theorem common_signers_light :
    saturatedSet.exactPower = 2 ^ 64 + 1 ∧
      saturatedSet.verifies .sample (signedBy [1, 2, 3]) = true ∧
      saturatedSet.verifies .sample (signedBy [1, 2, 4]) = true ∧
      3 * ∑ a ∈ (signedBy [1, 2, 3]).validators.toFinset ∩
          (signedBy [1, 2, 4]).validators.toFinset, saturatedSet.activePower a <
        saturatedSet.exactPower := by
  decide +kernel

end QuorumCertificate

end Sxiaum
