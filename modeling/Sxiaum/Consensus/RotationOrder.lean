import Sxiaum.Consensus.EpochRotation

/-!
# The rotation and the order of the maps

The passed proposals are applied one after the other, in the order in which the map of the
proposals is iterated. An addition looks at the addresses and the keys of the set it finds, so
the order can decide which of two proposals prevails. It does not if the additions fall into
those that are refused in any order and those that nothing stands in the way of. The matured
upgrades are scheduled in the same way; there the first of two with one title prevails.
-/

namespace Sxiaum

open Governance Guards Proposal Rotation ValidatorSet

/-! ### Additions and removals -/

/-- The validators of a set, the additions that are asked for and are not refused for
themselves, and the addresses to be removed. -/
structure Docket where
  present : Address → Option Validator
  added : Validator → Prop
  removed : Address → Prop

namespace Docket

variable (d : Docket) (barred : Validator → Prop)

/-- The addition is refused as long as no barred one was made: another address keeps its BLS key,
or it needs a place and the set stays full. -/
inductive Blocked (v : Validator) : Prop
  | key (a : Address) (u : Validator) (hother : a ≠ v.address) (hpresent : d.present a = some u)
      (hkey : u.blsPubkey = v.blsPubkey) (hkept : ¬ d.removed a)
      (hheld : ∀ w, d.added w → w.address = a → w.blsPubkey ≠ v.blsPubkey → barred w)
  | full (places : Finset Address) (hnew : d.present v.address = none) (hactive : v.isActive = true)
      (hown : ∀ w, d.added w → w.address = v.address → w.isActive = true ∨ barred w)
      (hcard : maxActiveValidators ≤ places.card)
      (hpresent : ∀ a ∈ places, ∃ u, d.present a = some u ∧ u.isActive = true ∧ ¬ d.removed a)
      (hheld : ∀ a ∈ places, ∀ w, d.added w → w.address = a → w.isActive = true ∨ barred w)

/-- Nothing stands in the way of the addition: its address is not removed and not asked for by
another validator, no other address has or is given its BLS key, and if it needs a place there is
room for all. -/
structure Free (v : Validator) : Prop where
  kept : ¬ d.removed v.address
  alone : ∀ w, d.added w → ¬ barred w → w.address = v.address → w = v
  unheld : ∀ a u, a ≠ v.address → d.present a = some u → u.blsPubkey ≠ v.blsPubkey
  unasked : ∀ w, d.added w → ¬ barred w → w.address ≠ v.address → w.blsPubkey ≠ v.blsPubkey
  room : v.isActive = true → d.present v.address = none → ∃ places : Finset Address,
    places.card ≤ maxActiveValidators ∧
    (∀ a u, d.present a = some u → u.isActive = true → a ∈ places) ∧
    ∀ w, d.added w → ¬ barred w → w.isActive = true → w.address ∈ places

/-- Every addition is refused in any order or free. -/
def Settled : Prop :=
  ∃ barred : Validator → Prop, (∀ v, d.added v → barred v → d.Blocked barred v) ∧
    ∀ v, d.added v → ¬ barred v → d.Free barred v

end Docket

/-! ### One proposal -/

namespace ValidatorSet

variable {env : Env} {set : ValidatorSet} {v : Validator}

lemma addValidator_ok_iff {set' : ValidatorSet} : set.addValidator env v = .ok set' ↔
    (set.validator v.address = none → v.isActive = true →
      set.activeValidatorCount < maxActiveValidators) ∧
    Admissible env v ∧ set.sharesBlsKey v = false ∧
    set' = ⟨set.validators.insert v.address v,
      min (set.totalStake - ((set.validators.lookup v.address).map Validator.stake).getD 0 +
        v.stake) u256Max⟩ := by
  simp only [addValidator, ite_throw_ok, bind_ok, exists_unit, pure_ok, eq_comm (b := set')]
  simp [Admissible, validator, and_assoc]

/-- The addresses under which the set has an active validator. -/
def activePlaces (set : ValidatorSet) : Finset Address :=
  ((set.validators.entries.filter (·.2.isActive)).map Sigma.fst).toFinset

lemma card_activePlaces (set : ValidatorSet) :
    set.activePlaces.card = set.activeValidatorCount := by
  have hnodup : ((set.validators.entries.filter (·.2.isActive)).map Sigma.fst).Nodup :=
    List.Nodup.sublist (List.filter_sublist.map Sigma.fst) set.validators.nodupKeys
  rw [activePlaces, List.toFinset_card_of_nodup hnodup, activeValidatorCount, activeValidators,
    List.length_insertionSort, AList.values, List.filter_map, List.length_map, List.length_map]
  rfl

lemma mem_activePlaces {a : Address} :
    a ∈ set.activePlaces ↔ ∃ u, set.validator a = some u ∧ u.isActive = true := by
  simp only [activePlaces, List.mem_toFinset, List.mem_map, List.mem_filter, validator]
  constructor
  · rintro ⟨⟨a, u⟩, ⟨hmem, hactive⟩, rfl⟩
    exact ⟨u, AList.mem_lookup_iff.2 hmem, hactive⟩
  · rintro ⟨u, hu, hactive⟩
    exact ⟨⟨a, u⟩, ⟨AList.mem_lookup_iff.1 hu, hactive⟩, rfl⟩

lemma sharesBlsKey_iff (hkey : v.blsPubkey.isSome = true) : set.sharesBlsKey v = true ↔
    ∃ a u, a ≠ v.address ∧ set.validator a = some u ∧ u.blsPubkey = v.blsPubkey := by
  simp only [sharesBlsKey, hkey, Bool.true_and, List.any_eq_true, Bool.and_eq_true,
    decide_eq_true_eq, validator]
  constructor
  · rintro ⟨⟨a, u⟩, hmem, hother, hshared⟩
    exact ⟨a, u, hother, AList.mem_lookup_iff.2 hmem, hshared⟩
  · rintro ⟨a, u, hother, hu, hshared⟩
    exact ⟨⟨a, u⟩, AList.mem_lookup_iff.1 hu, hother, hshared⟩

lemma validator_removeValidator (set : ValidatorSet) (a b : Address) :
    (set.removeValidator b).validator a = if a = b then none else set.validator a := by
  unfold removeValidator
  split
  · split_ifs with h
    · rw [h]
      exact AList.lookup_erase _ _
    · exact AList.lookup_erase_ne h
  · rename_i hnone
    split_ifs with h
    · rw [h]
      exact hnone
    · rfl

end ValidatorSet

/-! ### The proposals in any order -/

namespace Rotation

variable {env : Env} {slashing : SlashingManager} {height : ℕ} {start set set' : ValidatorSet}
  {asked done done' : List ProposalType} {barred : Validator → Prop} {v : Validator}

/-- What proposals of these kinds ask for. -/
def docket (env : Env) (slashing : SlashingManager) (height : ℕ) (set : ValidatorSet)
    (asked : List ProposalType) : Docket where
  present := set.validator
  added v := .addValidator v ∈ asked ∧ slashing.isInCooldown v.address height = false ∧
    ValidatorSet.Admissible env v
  removed a := .removeValidator a ∈ asked

/-- The set after some of the proposals: at each address the addition that was made, or nothing
if the address was removed, or what was there. -/
def Follows (d : Docket) (barred : Validator → Prop) (done : List ProposalType)
    (set : ValidatorSet) : Prop :=
  ∀ a, (∃ v, d.added v ∧ ¬ barred v ∧ .addValidator v ∈ done ∧ v.address = a ∧
      set.validator a = some v) ∨
    (∀ v, d.added v → ¬ barred v → .addValidator v ∈ done → v.address ≠ a) ∧
      (.removeValidator a ∈ done ∧ set.validator a = none ∨
        .removeValidator a ∉ done ∧ set.validator a = d.present a)

section Step

variable {d : Docket} (hblocked : ∀ v, d.added v → barred v → d.Blocked barred v)
  (hfree : ∀ v, d.added v → ¬ barred v → d.Free barred v)
  (hremoved : ∀ a, .removeValidator a ∈ done → d.removed a)
  (hfollows : Follows d barred done set)

include hfollows

/-- What is found in the set was there before or is an addition that is not barred. -/
lemma Follows.cases {a : Address} {u : Validator} (hu : set.validator a = some u) :
    d.present a = some u ∨ d.added u ∧ ¬ barred u ∧ u.address = a := by
  rcases hfollows a with ⟨w, hadded, hbarred, -, haddress, hw⟩ | ⟨-, ⟨-, hnone⟩ | ⟨-, hsame⟩⟩
  · obtain rfl := Option.some.inj (hu.symm.trans hw)
    exact .inr ⟨hadded, hbarred, haddress⟩
  · rw [hu] at hnone
    cases hnone
  · exact .inl (hsame ▸ hu)

include hremoved in
lemma Follows.exists_validator {a : Address} {u : Validator} (hu : d.present a = some u)
    (hkept : ¬ d.removed a) : ∃ w, set.validator a = some w := by
  rcases hfollows a with ⟨w, -, -, -, -, hw⟩ | ⟨-, ⟨hgone, -⟩ | ⟨-, hsame⟩⟩
  · exact ⟨w, hw⟩
  · exact absurd (hremoved a hgone) hkept
  · exact ⟨u, hsame.trans hu⟩

include hblocked hfree hremoved in
lemma Follows.refuses (hadded : d.added v) (hbarred : barred v)
    (hadmissible : ValidatorSet.Admissible env v) : set.addValidator env v ≠ .ok set' := by
  intro hok
  obtain ⟨hroom, -, hshared, -⟩ := addValidator_ok_iff.1 hok
  cases hblocked v hadded hbarred with
  | key a u hother hpresent hkey hkept hheld =>
    obtain ⟨w, hw⟩ := hfollows.exists_validator hremoved hpresent hkept
    have hwkey : w.blsPubkey = v.blsPubkey := by
      rcases hfollows.cases hw with hw' | ⟨hwadded, hwfree, haddress⟩
      · rw [hpresent] at hw'
        exact Option.some.inj hw' ▸ hkey
      · by_contra hne
        exact hwfree (hheld w hwadded haddress hne)
    have hshares := (sharesBlsKey_iff hadmissible.isSome_blsPubkey).2
      ⟨a, w, hother, hw, hwkey⟩
    rw [hshared] at hshares
    cases hshares
  | full places hnew hactive hown hcard hpresent hheld =>
    have hplaces : places ⊆ set.activePlaces := by
      intro a ha
      obtain ⟨u, hu, huactive, hkept⟩ := hpresent a ha
      obtain ⟨w, hw⟩ := hfollows.exists_validator hremoved hu hkept
      refine mem_activePlaces.2 ⟨w, hw, ?_⟩
      rcases hfollows.cases hw with hw' | ⟨hwadded, hwfree, haddress⟩
      · rw [hu] at hw'
        exact Option.some.inj hw' ▸ huactive
      · exact (hheld a ha w hwadded haddress).resolve_right hwfree
    -- a free addition at this address would find room, but all places are taken
    have hnone : set.validator v.address = none := by
      rw [Option.eq_none_iff_forall_ne_some]
      intro w hw
      rcases hfollows.cases hw with hw' | ⟨hwadded, hwfree, haddress⟩
      · rw [hnew] at hw'
        cases hw'
      · have hwactive := (hown w hwadded haddress).resolve_right hwfree
        obtain ⟨all, hall, hallpresent, halladded⟩ :=
          (hfree w hwadded hwfree).room hwactive (haddress ▸ hnew)
        have hsub : insert w.address places ⊆ all := by
          refine Finset.insert_subset (halladded w hwadded hwfree hwactive) fun a ha => ?_
          obtain ⟨u, hu, huactive, -⟩ := hpresent a ha
          exact hallpresent a u hu huactive
        have hnotin : w.address ∉ places := by
          intro hin
          obtain ⟨u, hu, -⟩ := hpresent _ hin
          rw [haddress, hnew] at hu
          cases hu
        have hle := Finset.card_le_card hsub
        rw [Finset.card_insert_of_notMem hnotin] at hle
        omega
    have hcount := Finset.card_le_card hplaces
    rw [card_activePlaces] at hcount
    have := hroom hnone hactive
    omega

include hfree in
lemma Follows.accepts (hadded : d.added v) (hnotbarred : ¬ barred v)
    (hadmissible : ValidatorSet.Admissible env v)
    (hkept : .removeValidator v.address ∉ done) :
    ∃ set', set.addValidator env v = .ok set' ∧
      set'.validators = set.validators.insert v.address v := by
  have hv := hfree v hadded hnotbarred
  refine ⟨_, addValidator_ok_iff.2 ⟨?_, hadmissible, ?_, rfl⟩, rfl⟩
  · intro hnone hactive
    have hpresent : d.present v.address = none := by
      rcases hfollows v.address with ⟨w, -, -, -, -, hw⟩ | ⟨-, ⟨hgone, -⟩ | ⟨-, hsame⟩⟩
      · rw [hnone] at hw
        cases hw
      · exact absurd hgone hkept
      · exact hsame ▸ hnone
    obtain ⟨places, hcard, hplaces, hplaces'⟩ := hv.room hactive hpresent
    have hmem : v.address ∈ places := hplaces' v hadded hnotbarred hactive
    have hsub : set.activePlaces ⊆ places.erase v.address := by
      intro a ha
      obtain ⟨u, hu, huactive⟩ := mem_activePlaces.1 ha
      refine Finset.mem_erase.2 ⟨?_, ?_⟩
      · rintro rfl
        rw [hnone] at hu
        cases hu
      · rcases hfollows.cases hu with hu' | ⟨huadded, hufree, rfl⟩
        · exact hplaces a u hu' huactive
        · exact hplaces' u huadded hufree huactive
    have hle := Finset.card_le_card hsub
    have hpos := Finset.card_pos.2 ⟨_, hmem⟩
    rw [card_activePlaces, Finset.card_erase_of_mem hmem] at hle
    omega
  · rw [← Bool.not_eq_true, sharesBlsKey_iff hadmissible.isSome_blsPubkey]
    rintro ⟨a, u, hother, hu, hshared⟩
    rcases hfollows.cases hu with hu' | ⟨huadded, hufree, rfl⟩
    · exact hv.unheld a u hother hu' hshared
    · exact hv.unasked u huadded hufree hother hshared

/-- A proposal that changes nothing, and is no free addition and no removal. -/
lemma Follows.snoc {t : ProposalType} (hadd : ∀ v, d.added v → ¬ barred v → t ≠ .addValidator v)
    (hremove : ∀ a, t ≠ .removeValidator a) : Follows d barred (done ++ [t]) set := by
  intro a
  have hremoved : .removeValidator a ∈ done ++ [t] ↔ .removeValidator a ∈ done := by
    simp [(hremove a).symm]
  have hadded : ∀ v, d.added v → ¬ barred v →
      (.addValidator v ∈ done ++ [t] ↔ .addValidator v ∈ done) := fun v hv hfree => by
    simp [(hadd v hv hfree).symm]
  rw [hremoved]
  rcases hfollows a with ⟨v, hv, hfree, hdone, hrest⟩ | ⟨hnone, hrest⟩
  · exact .inl ⟨v, hv, hfree, (hadded v hv hfree).2 hdone, hrest⟩
  · exact .inr ⟨fun v hv hfree hdone => hnone v hv hfree ((hadded v hv hfree).1 hdone), hrest⟩

lemma Follows.insert (hadded : d.added v) (hnotbarred : ¬ barred v)
    (hset : set'.validators = set.validators.insert v.address v) :
    Follows d barred (done ++ [.addValidator v]) set' := by
  intro a
  by_cases ha : a = v.address
  · refine .inl ⟨v, hadded, hnotbarred, by simp, ha.symm, ?_⟩
    rw [validator, hset, ha]
    exact AList.lookup_insert _
  · have hsame : set'.validator a = set.validator a := by
      rw [validator, hset]
      exact AList.lookup_insert_ne ha
    rw [hsame]
    rcases hfollows a with ⟨w, hw, hfree, hdone, hrest⟩ | ⟨hnone, hrest⟩
    · exact .inl ⟨w, hw, hfree, List.mem_append_left _ hdone, hrest⟩
    · refine .inr ⟨fun w hw hfree hdone => ?_, by simpa using hrest⟩
      rcases List.mem_append.1 hdone with hdone | hdone
      · exact hnone w hw hfree hdone
      · rw [List.mem_singleton] at hdone
        obtain rfl := ProposalType.addValidator.inj hdone
        exact Ne.symm ha

include hfree in
lemma Follows.remove {b : Address} (hb : d.removed b) :
    Follows d barred (done ++ [.removeValidator b]) (set.removeValidator b) := by
  intro a
  rw [validator_removeValidator]
  by_cases ha : a = b
  · refine .inr ⟨fun w hw hwfree _ haddress => ?_, .inl ⟨by simp [ha], if_pos ha⟩⟩
    exact (hfree w hw hwfree).kept ((haddress.trans ha).symm ▸ hb)
  · rw [if_neg ha]
    rcases hfollows a with ⟨w, hw, hwfree, hdone, hrest⟩ | ⟨hnone, hrest⟩
    · exact .inl ⟨w, hw, hwfree, List.mem_append_left _ hdone, hrest⟩
    · refine .inr ⟨fun w hw hwfree hdone => hnone w hw hwfree (by simpa using hdone), ?_⟩
      simpa [ha] using hrest

omit hfollows

variable (hd : d = docket env slashing height start asked)

include hd hblocked hfree

lemma follows_applyProposal {p : Proposal} (hp : p.proposalType ∈ asked)
    (hdone : ∀ t ∈ done, t ∈ asked) (hfollows : Follows d barred done set) :
    Follows d barred (done ++ [p.proposalType]) (applyProposal env slashing height set p) := by
  subst hd
  have hremoved : ∀ a, .removeValidator a ∈ done → .removeValidator a ∈ asked :=
    fun a ha => hdone _ ha
  unfold applyProposal
  split
  · rename_i v htype
    rw [htype] at hp ⊢
    -- an addition that is not carried out changes nothing
    have hother (hv : ¬ (docket env slashing height start asked).added v ∨ barred v) :
        Follows (docket env slashing height start asked) barred (done ++ [.addValidator v])
          set := by
      refine hfollows.snoc (fun w hw hwfree heq => ?_) (fun a heq => by cases heq)
      obtain rfl := ProposalType.addValidator.inj heq
      exact hv.elim (fun h => h hw) hwfree
    split_ifs with hcooling
    · refine hother (.inl fun hadded => ?_)
      rw [hadded.2.1] at hcooling
      cases hcooling
    by_cases hadmissible : ValidatorSet.Admissible env v
    · have hadded : (docket env slashing height start asked).added v :=
        ⟨hp, by simpa using hcooling, hadmissible⟩
      by_cases hbarred : barred v
      · split
        · rename_i added hok
          exact absurd hok (hfollows.refuses hblocked hfree hremoved hadded hbarred hadmissible)
        · exact hother (.inr hbarred)
      · have hkept : .removeValidator v.address ∉ done := fun h =>
          (hfree v hadded hbarred).kept (hremoved _ h)
        obtain ⟨set', hok, hset'⟩ := hfollows.accepts hfree hadded hbarred hadmissible hkept
        rw [hok]
        exact hfollows.insert hadded hbarred hset'
    · split
      · rename_i added hok
        exact absurd (addValidator_ok_iff.1 hok).2.1 hadmissible
      · exact hother (.inl fun hadded => hadmissible hadded.2.2)
  · rename_i a htype
    rw [htype] at hp ⊢
    exact hfollows.remove hfree hp
  · rename_i hadd hremove
    exact hfollows.snoc (fun v _ _ heq => hadd v heq) hremove

lemma follows_foldl (ps : List Proposal) (hps : ∀ p ∈ ps, p.proposalType ∈ asked) :
    Follows d barred (ps.map proposalType)
      (ps.foldl (applyProposal env slashing height) start) := by
  induction ps using List.reverseRecOn with
  | nil => exact fun a => .inr ⟨by simp, .inr ⟨by simp, by rw [hd]; rfl⟩⟩
  | append_singleton front p ih =>
    rw [List.forall_mem_append] at hps
    rw [List.map_append, List.foldl_append]
    refine follows_applyProposal hblocked hfree hd (hps.2 p (List.mem_singleton_self p)) ?_ (ih hps.1)
    intro t ht
    obtain ⟨q, hq, rfl⟩ := List.mem_map.1 ht
    exact hps.1 q hq

end Step

lemma Follows.unique {d : Docket} (hfree : ∀ v, d.added v → ¬ barred v → d.Free barred v)
    (h : Follows d barred done set) (h' : Follows d barred done' set')
    (hdone : ∀ t, t ∈ done ↔ t ∈ done') (a : Address) : set.validator a = set'.validator a := by
  rcases h a with ⟨v, hv, hvfree, hvdone, haddress, hset⟩ | ⟨hnone, hset⟩ <;>
    rcases h' a with ⟨w, hw, hwfree, hwdone, haddress', hset'⟩ | ⟨hnone', hset'⟩
  · rw [hset, hset', (hfree w hw hwfree).alone v hv hvfree (haddress.trans haddress'.symm)]
  · exact absurd haddress (hnone' v hv hvfree ((hdone _).1 hvdone))
  · exact absurd haddress' (hnone w hw hwfree ((hdone _).2 hwdone))
  · rw [← hdone] at hset'
    rcases hset with ⟨hgone, hset⟩ | ⟨hkept, hset⟩ <;>
      rcases hset' with ⟨hgone', hset'⟩ | ⟨hkept', hset'⟩
    · rw [hset, hset']
    · exact absurd hgone hkept'
    · exact absurd hgone' hkept
    · rw [hset, hset']

theorem foldl_applyProposal_perm {slashing' : SlashingManager} {start' : ValidatorSet}
    {ps ps' : List Proposal} (hps : ps.Perm ps')
    (hcooldown : ∀ a, slashing.isInCooldown a height = slashing'.isInCooldown a height)
    (hstart : ∀ a, start.validator a = start'.validator a)
    (hsettled : (docket env slashing height start (ps.map proposalType)).Settled)
    (a : Address) :
    (ps.foldl (applyProposal env slashing height) start).validator a =
      (ps'.foldl (applyProposal env slashing' height) start').validator a := by
  obtain ⟨barred, hblocked, hfree⟩ := hsettled
  have hdocket : docket env slashing' height start' (ps.map proposalType) =
      docket env slashing height start (ps.map proposalType) := by
    have hpresent : start'.validator = start.validator := funext fun a => (hstart a).symm
    simp only [docket, hpresent, hcooldown]
  have h := follows_foldl hblocked hfree rfl ps fun p hp => List.mem_map_of_mem hp
  have h' := follows_foldl hblocked hfree hdocket.symm ps' fun p hp =>
    List.mem_map_of_mem (hps.mem_iff.2 hp)
  exact Follows.unique hfree h h' (fun t => (hps.map _).mem_iff) a

end Rotation

/-! ### The upgrades in any order -/

namespace Replica

variable {env : ReplicaEnv} {height : ℕ}

/-- The entry that a matured proposal adds to the schedule if its title is new. -/
def upgradeOf (env : ReplicaEnv) (height : ℕ) (current : ProtocolVersion) (p : Proposal) :
    Option UpgradeProposal :=
  match p.proposalType with
  | .softwareUpgrade version activationHeight =>
    (env.parseVersion version).bind fun target =>
      if activationHeight ≤ height ∨ current.below target = false then none
      else some (UpgradeManager.scheduledUpgrade p.title target activationHeight height)
  | _ => none

lemma scheduleUpgrade_eq (m : UpgradeManager) (p : Proposal) :
    scheduleUpgrade env height m p = ⟨m.currentVersion,
      (upgradeOf env height m.currentVersion p).toList.foldl
        (List.addFresh UpgradeProposal.name) m.pendingUpgrades⟩ := by
  obtain ⟨id, title, type, status, executionHeight⟩ := p
  unfold scheduleUpgrade upgradeOf
  cases type with
  | softwareUpgrade version activationHeight =>
    dsimp only
    rcases env.parseVersion version with _ | target
    · rfl
    have happly : ∀ m', m.applyGovernanceUpgrade title target activationHeight height = .ok m' ↔
        ¬ (activationHeight ≤ height ∨ m.currentVersion.below target = false) ∧
          title ∉ m.pendingUpgrades.map UpgradeProposal.name ∧
          { m with pendingUpgrades := m.pendingUpgrades ++ [UpgradeManager.scheduledUpgrade title
            target activationHeight height] } = m' := by
      simp only [UpgradeManager.applyGovernanceUpgrade, ite_throw_ok, pure_ok]
      simp [and_assoc]
    dsimp only [Option.bind_some]
    split <;> split_ifs with hlate
    · exact absurd hlate ((happly _).1 ‹_›).1
    · obtain ⟨-, hnew, rfl⟩ := (happly _).1 ‹_›
      exact congrArg (UpgradeManager.mk _) (if_neg hnew).symm
    · rfl
    · refine congrArg (UpgradeManager.mk _) (if_pos (by_contra fun hnew => ?_)).symm
      exact absurd ((happly _).2 ⟨hlate, hnew, rfl⟩) (by simp [*])
  | _ => rfl

lemma foldl_scheduleUpgrade (ps : List Proposal) (m : UpgradeManager) :
    ps.foldl (scheduleUpgrade env height) m = ⟨m.currentVersion,
      (ps.filterMap (upgradeOf env height m.currentVersion)).foldl
        (List.addFresh UpgradeProposal.name) m.pendingUpgrades⟩ := by
  induction ps generalizing m with
  | nil => rfl
  | cons p ps ih =>
    rw [List.foldl_cons, ih, scheduleUpgrade_eq]
    rcases hp : upgradeOf env height m.currentVersion p with _ | u
    · rw [List.filterMap_cons_none hp]
      rfl
    · rw [List.filterMap_cons_some hp]
      rfl

/-! ### The rotation -/

variable {r r' : Replica}

/-- The replicas have the same validators, proposals, stakes, cooldowns and upgrades; the maps may
be iterated in different orders. -/
structure Reordered (r r' : Replica) : Prop where
  validators : ∀ a, r.core.validatorSet.validator a = r'.core.validatorSet.validator a
  totalStake : r.core.validatorSet.totalStake = r'.core.validatorSet.totalStake
  proposals : ∀ id, r.governance.proposals.lookup id = r'.governance.proposals.lookup id
  stakes : ∀ a, r.staking.stakes.lookup a = r'.staking.stakes.lookup a
  cooldowns : ∀ a, r.slashing.cooldowns.lookup a = r'.slashing.cooldowns.lookup a
  version : r.upgrades.currentVersion = r'.upgrades.currentVersion
  pending : r.upgrades.pendingUpgrades.Perm r'.upgrades.pendingUpgrades
  height : r.core.finalizedBlockHeight = r'.core.finalizedBlockHeight

/-- The rotation and the upgrades of `finalize_block`. -/
def rotateAndSchedule (env : ReplicaEnv) (r : Replica) : Outcome Unit :=
  match r.maybeRotateValidatorSetForNewEpoch env.toEnv with
  | (.error e, r) => (.error e, r)
  | (.ok (), r) => (.ok (), r.processGovernanceUpgradeExecutions env)

/-- Both calls succeed or both fail, with the same validators and the same scheduled upgrades. -/
structure SameOutcome (o o' : Outcome Unit) : Prop where
  result : o.1.toOption = o'.1.toOption
  validators : ∀ a, o.2.core.validatorSet.validator a = o'.2.core.validatorSet.validator a
  totalStake : o.1.toOption = some () →
    o.2.core.validatorSet.totalStake = o'.2.core.validatorSet.totalStake
  version : o.2.upgrades.currentVersion = o'.2.upgrades.currentVersion
  pending : o.2.upgrades.pendingUpgrades.Perm o'.2.upgrades.pendingUpgrades

def passedDocket (env : Env) (r : Replica) : Docket :=
  docket env r.slashing r.core.finalizedBlockHeight r.core.validatorSet
    ((r.governance.marked Proposal.isPassed).map Proposal.proposalType)

def dueUpgrades (env : ReplicaEnv) (r : Replica) : List UpgradeProposal :=
  (r.governance.marked (Proposal.isMatured r.core.finalizedBlockHeight)).filterMap
    (upgradeOf env r.core.finalizedBlockHeight r.upgrades.currentVersion)

/-- At the end of an epoch every addition is refused in any order or free, and matured upgrades
with the same new title are the same. -/
structure OrderFree (env : ReplicaEnv) (r : Replica) : Prop where
  settled : atBoundary r.core.finalizedBlockHeight → (r.passedDocket env).Settled
  titles : ∀ u ∈ r.dueUpgrades env, ∀ w ∈ r.dueUpgrades env, u.name = w.name →
    u.name ∉ r.upgrades.pendingUpgrades.map UpgradeProposal.name → u = w

namespace Reordered

variable (h : Reordered r r')

include h

lemma marked (test : Proposal → Bool) :
    (r.governance.marked test).Perm (r'.governance.marked test) :=
  ((AList.values_perm h.proposals).filter test).map execute

lemma isInCooldown (a : Address) (height : ℕ) :
    r.slashing.isInCooldown a height = r'.slashing.isInCooldown a height := by
  simp only [SlashingManager.isInCooldown, h.cooldowns]

lemma validator_proposedSet {env : Env} (hsettled : (r.passedDocket env).Settled) (a : Address) :
    (r.proposedSet env).validator a = (r'.proposedSet env).validator a := by
  unfold proposedSet
  rw [← h.height]
  exact foldl_applyProposal_perm (h.marked _) (fun a => h.isInCooldown a _) h.validators hsettled a

lemma candidates_perm {env : Env} (hsettled : (r.passedDocket env).Settled) :
    (r.candidates env).Perm (r'.candidates env) := by
  have hnext : nextValidator r.staking.stakingEpochUpdate r.slashing r.core.finalizedBlockHeight =
      nextValidator r'.staking.stakingEpochUpdate r'.slashing r'.core.finalizedBlockHeight := by
    have hstake : r.staking.stakingEpochUpdate.getStake = r'.staking.stakingEpochUpdate.getStake :=
      funext fun a => congrArg (Option.getD · 0) (h.stakes a)
    have hcooldown : r.slashing.isInCooldown = r'.slashing.isInCooldown :=
      funext fun a => funext fun height => h.isInCooldown a height
    funext v
    rw [nextValidator, nextValidator, restake, restake, hstake, hcooldown, h.height]
  rw [candidates, candidates, nextValidators, nextValidators, hnext]
  exact ((AList.values_perm (h.validator_proposedSet hsettled)).map _).filter _

end Reordered

lemma marked_mark_isPassed (g : GovernanceManager) (height : ℕ) :
    (g.mark isPassed).marked (isMatured height) =
      g.marked (isMatured height) := by
  unfold GovernanceManager.marked GovernanceManager.mark
  rw [AList.values_mapValues]
  induction g.proposals.values with
  | nil => rfl
  | cons p rest ih =>
    rw [List.map_cons, List.filter_cons, List.filter_cons]
    by_cases hp : p.isPassed = true
    · have hstatus : p.status = .passed := by simpa [isPassed] using hp
      have hskip : p.isMatured height = false := by simp [isMatured, hstatus]
      have hmarked : p.execute.isMatured height = false := rfl
      simpa [hp, hskip, hmarked] using ih
    · rw [if_neg hp]
      split_ifs
      · exact congrArg (_ :: ·) ih
      · exact ih

lemma upgrades_process : (r.processGovernanceUpgradeExecutions env).upgrades =
    ⟨r.upgrades.currentVersion, (r.dueUpgrades env).foldl (List.addFresh UpgradeProposal.name)
      r.upgrades.pendingUpgrades⟩ :=
  foldl_scheduleUpgrade _ r.upgrades

/-- Replicas that differ in the order of their maps schedule the same upgrades. -/
lemma Reordered.sameOutcome (h : Reordered r r')
    (hagree : ∀ u ∈ r.dueUpgrades env, ∀ w ∈ r.dueUpgrades env, u.name = w.name →
      u.name ∉ r.upgrades.pendingUpgrades.map UpgradeProposal.name → u = w) :
    SameOutcome (.ok (), r.processGovernanceUpgradeExecutions env)
      (.ok (), r'.processGovernanceUpgradeExecutions env) where
  result := rfl
  validators := h.validators
  totalStake _ := h.totalStake
  version := by
    rw [upgrades_process, upgrades_process]
    exact h.version
  pending := by
    have hdue : (r.dueUpgrades env).Perm (r'.dueUpgrades env) := by
      unfold dueUpgrades
      rw [← h.height, ← h.version]
      exact (h.marked _).filterMap _
    rw [upgrades_process, upgrades_process]
    exact List.foldl_addFresh_perm h.pending hdue hagree

/-- The replica that the rotation leaves with a new set. -/
def withSet (env : Env) (r : Replica) (next : ValidatorSet) : Replica :=
  let r := r.withProposals env
  let s := { r.core with validatorSet := next }
  { r with core := s.persistValidatorSet.persistCurrentConsensusView }

lemma Reordered.withSet {env : Env} {next next' : ValidatorSet} (h : Reordered r r')
    (hvalidators : ∀ a, next.validator a = next'.validator a)
    (hstake : next.totalStake = next'.totalStake) :
    Reordered (r.withSet env next) (r'.withSet env next') where
  validators := hvalidators
  totalStake := hstake
  proposals id := by
    have hrun : ∀ s : Replica, ∀ next, (s.withSet env next).governance.proposals.lookup id =
        (s.governance.proposals.lookup id).map fun p => if p.isPassed then p.execute else p :=
      fun s _ => AList.lookup_mapValues s.governance.proposals _ id
    rw [hrun, hrun, h.proposals]
  stakes := h.stakes
  cooldowns := h.cooldowns
  version := h.version
  pending := h.pending
  height := h.height

lemma rotateAndSchedule_eq (hboundary : atBoundary r.core.finalizedBlockHeight) :
    r.rotateAndSchedule env =
      match replaceValidators env (r.candidates env) with
      | .error e => (.error e, r.withProposals env)
      | .ok next =>
        (.ok (), (r.withSet env next).processGovernanceUpgradeExecutions env) := by
  rw [rotateAndSchedule, maybeRotate_eq hboundary]
  cases replaceValidators env (r.candidates env) <;> rfl

lemma rotateAndSchedule_between (hbetween : ¬ atBoundary r.core.finalizedBlockHeight) :
    r.rotateAndSchedule env = (.ok (), r.processGovernanceUpgradeExecutions env) := by
  rw [rotateAndSchedule, maybeRotateValidatorSetForNewEpoch, if_pos hbetween]

/-- With settled additions and agreeing titles, the next validator set and the schedule of the
upgrades do not depend on the order in which the maps are iterated. -/
theorem rotation_order_free (h : Reordered r r') (hfree : OrderFree env r) :
    SameOutcome (r.rotateAndSchedule env) (r'.rotateAndSchedule env) := by
  by_cases hboundary : atBoundary r.core.finalizedBlockHeight
  · have hsettled := hfree.settled hboundary
    rw [rotateAndSchedule_eq hboundary, rotateAndSchedule_eq (h.height ▸ hboundary)]
    rcases ValidatorSet.replaceValidators_perm (h.candidates_perm hsettled) with
      ⟨next, next', hnext, hnext', hvalidators, hstake⟩ | ⟨e, e', herror, herror'⟩
    · rw [hnext, hnext']
      have hdue : (r.withSet env next).dueUpgrades env = r.dueUpgrades env :=
        congrArg (List.filterMap _) (marked_mark_isPassed r.governance _)
      exact (h.withSet hvalidators hstake).sameOutcome (hdue.symm ▸ hfree.titles)
    · rw [herror, herror']
      refine ⟨rfl, h.validator_proposedSet hsettled, fun hok => ?_, h.version, h.pending⟩
      cases hok
  · rw [rotateAndSchedule_between hboundary, rotateAndSchedule_between (h.height ▸ hboundary)]
    exact h.sameOutcome hfree.titles

/-! ### Two proposals in both orders -/

/-- The sample environment, in which every version reads as the next one. -/
def upgradeEnv : ReplicaEnv := { ReplicaEnv.sample with parseVersion := fun _ => some ⟨2, 0, 0⟩ }

def orderedReplica (first second : Proposal) : Replica :=
  { Replica.new .empty with
    core := { Consensus.run .sample (.new .empty) [.updateValidatorSet [.sample 1 1]] with
      finalizedBlocks := some (32, block32)
      finalizedBlockHeight := 32 }
    staking := (StakingManager.new.credit 1 Validator.stakeUnit).credit 2 Validator.stakeUnit
    governance := ⟨AList.insert first.id first (AList.insert second.id second ∅)⟩ }

def addSecond : Proposal := ⟨1, "add", .addValidator (.sample 2 1), .passed, none⟩

def removeSecond : Proposal := ⟨2, "remove", .removeValidator 2, .passed, none⟩

def upgradeTo (version : String) : Proposal :=
  ⟨3, "upgrade", .softwareUpgrade version 100, .timeLocked, some 32⟩

lemma reordered_orderedReplica {p q : Proposal} (h : p.id ≠ q.id) :
    Reordered (orderedReplica p q) (orderedReplica q p) where
  validators _ := rfl
  totalStake := rfl
  proposals _ := AList.perm_lookup (AList.insert_insert_of_ne ∅ h.symm)
  stakes _ := rfl
  cooldowns _ := rfl
  version := rfl
  pending := List.Perm.refl _
  height := rfl

lemma orderFree_addSecond : OrderFree upgradeEnv (orderedReplica addSecond (upgradeTo "2")) := by
  refine ⟨fun _ => ⟨fun _ => False, fun _ _ => False.elim, fun v hv _ => ?_⟩, by decide +kernel⟩
  have hasked : ((orderedReplica addSecond (upgradeTo "2")).governance.marked
      isPassed).map proposalType = [.addValidator (.sample 2 1)] := by
    decide +kernel
  have hadded : ∀ w, (passedDocket upgradeEnv
      (orderedReplica addSecond (upgradeTo "2"))).added w → w = .sample 2 1 := by
    rintro w ⟨hw, -⟩
    rw [hasked] at hw
    simpa using hw
  have hpresent : ∀ a u, (passedDocket upgradeEnv
      (orderedReplica addSecond (upgradeTo "2"))).present a = some u →
      a = 1 ∧ u = .sample 1 1 := by
    intro a u hu
    have hentries : (orderedReplica addSecond
        (upgradeTo "2")).core.validatorSet.validators.entries = [⟨1, .sample 1 1⟩] := by
      decide +kernel
    have hmem := AList.mem_lookup_iff.1 hu
    rw [hentries] at hmem
    simpa using hmem
  obtain rfl := hadded v hv
  refine ⟨fun h => ?_, fun w hw _ _ => hadded w hw, fun a u _ hu => ?_, fun w hw _ hne => ?_,
    fun _ _ => ⟨{1, 2}, by decide, fun a u hu _ => ?_, fun w hw _ _ => ?_⟩⟩
  · have hremoved : .removeValidator 2 ∈ ((orderedReplica addSecond
        (upgradeTo "2")).governance.marked isPassed).map proposalType := h
    rw [hasked] at hremoved
    simp at hremoved
  · obtain ⟨-, rfl⟩ := hpresent a u hu
    decide
  · exact absurd (congrArg Validator.address (hadded w hw)) hne
  · obtain ⟨rfl, -⟩ := hpresent a u hu
    decide
  · rw [hadded w hw]
    decide

/-- An addition and an upgrade do not interfere. -/
theorem rotation_order_free_sample :
    SameOutcome ((orderedReplica addSecond (upgradeTo "2")).rotateAndSchedule upgradeEnv)
        ((orderedReplica (upgradeTo "2") addSecond).rotateAndSchedule upgradeEnv) ∧
      (((orderedReplica addSecond (upgradeTo "2")).rotateAndSchedule
        upgradeEnv).2.core.validatorSet.validator 2).isSome = true ∧
      ((orderedReplica addSecond (upgradeTo "2")).rotateAndSchedule
        upgradeEnv).2.upgrades.pendingUpgrades.length = 1 :=
  ⟨rotation_order_free (reordered_orderedReplica (by decide)) orderFree_addSecond,
    by decide +kernel, by decide +kernel⟩

/-- The addition and the removal of one validator have both passed. The validator is in the next
set or not, by the order in which the map of the proposals is iterated. -/
theorem rotation_order_matters :
    Reordered (orderedReplica addSecond removeSecond) (orderedReplica removeSecond addSecond) ∧
      ((orderedReplica addSecond removeSecond).rotateAndSchedule .sample).1.toOption = some () ∧
      ((orderedReplica removeSecond addSecond).rotateAndSchedule .sample).1.toOption = some () ∧
      ((orderedReplica addSecond removeSecond).rotateAndSchedule
        .sample).2.core.validatorSet.validator 2 = none ∧
      (((orderedReplica removeSecond addSecond).rotateAndSchedule
        .sample).2.core.validatorSet.validator 2).isSome = true :=
  ⟨reordered_orderedReplica (by decide), by decide +kernel, by decide +kernel, by decide +kernel,
    by decide +kernel⟩

end Replica

end Sxiaum
