import Sxiaum.Consensus.CertificateQuorum
import Sxiaum.Consensus.Collector
import Sxiaum.Consensus.Precommitted

/-!
# Honest replicas on a network

Several honest replicas with a fixed validator set, byzantine validators that hold less than
one third of the active voting power, and a network that delivers any message in any order.
A signature of an honest validator verifies only on a vote that this validator has signed.
An honest validator signs a Prepare vote for a block its replica holds pending, and the vote of
a later phase only after its replica has accepted the certificate of the phase before.
-/

namespace Sxiaum

/-! ### The validators -/

/-- A fixed validator set and its honest members. -/
structure Committee where
  set : ValidatorSet
  honest : List Address
  keyed : set.Keyed
  /-- The others hold less than one third of the active voting power. -/
  minority : 3 * ((set.activeValidators.filter (·.address ∉ honest)).map
    Validator.votingPower).sum < (set.activeValidators.map Validator.votingPower).sum

namespace Committee

variable {env : Env} {C : Committee}

def byzantine (C : Committee) : Finset Address :=
  C.set.activeAddresses.filter (· ∉ C.honest)

lemma isMinority_byzantine (C : Committee) :
    Quorum.IsMinority C.set.activePower C.set.activeAddresses C.byzantine := by
  have hnodup := C.keyed.nodup
  have hlist : C.byzantine = ((C.set.activeValidators.filter (·.address ∉ C.honest)).map
      Validator.address).toFinset := by
    ext a
    simp only [byzantine, ValidatorSet.activeAddresses, Finset.mem_filter, List.mem_toFinset,
      List.mem_map, List.mem_filter, decide_eq_true_eq]
    constructor
    · rintro ⟨⟨v, hv, rfl⟩, hbyz⟩
      exact ⟨v, ⟨hv, hbyz⟩, rfl⟩
    · rintro ⟨v, ⟨hv, hbyz⟩, rfl⟩
      exact ⟨⟨v, hv, rfl⟩, hbyz⟩
  have hsub : ((C.set.activeValidators.filter (·.address ∉ C.honest)).map
      Validator.address).Nodup := hnodup.sublist (List.filter_sublist.map Validator.address)
  have hsum : ∑ a ∈ C.byzantine, C.set.activePower a =
      ((C.set.activeValidators.filter (·.address ∉ C.honest)).map Validator.votingPower).sum := by
    rw [hlist, List.sum_toFinset _ hsub, List.map_map]
    refine congrArg List.sum (List.map_congr_left fun v hv => ?_)
    simp [ValidatorSet.activePower, powerOf, find?_address hnodup (List.mem_of_mem_filter hv)]
  have htotal : ∑ a ∈ C.set.activeAddresses, C.set.activePower a =
      (C.set.activeValidators.map Validator.votingPower).sum := sum_powerOf hnodup
  rw [Quorum.IsMinority, hsum, htotal]
  exact C.minority

theorem exists_common_signer (C : Committee) (hno : C.set.NoOverflow)
    {qc qc' : QuorumCertificate} (h : C.set.verifies env qc = true)
    (h' : C.set.verifies env qc' = true) :
    ∃ a ∈ qc.validators, a ∈ qc'.validators ∧ a ∈ C.honest := by
  have hpos : 0 < (C.set.activeValidators.map Validator.votingPower).sum :=
    Nat.zero_lt_of_lt C.minority
  have hfit : C.set.exactPower ≤ u64Max + 1 := Nat.le_succ_of_le hno
  have hQ := QuorumCertificate.isQuorum_of_verifies C.keyed hfit hpos h
  have hR := QuorumCertificate.isQuorum_of_verifies C.keyed hfit hpos h'
  obtain ⟨a, haQ, haR, hbyz⟩ := hQ.exists_common hR C.isMinority_byzantine
  refine ⟨a, List.mem_toFinset.1 haQ, List.mem_toFinset.1 haR, ?_⟩
  by_contra hnot
  exact hbyz (Finset.mem_filter.2 ⟨hQ.subset haQ, hnot⟩)

end Committee

/-! ### The network -/

/-- The honest replicas, with a record of what they have signed, accepted and finalized. -/
structure Network where
  replica : Address → Consensus
  signed : List VoteMessage
  accepted : List (Address × QuorumCertificate)
  finalized : List (Address × Block)

/-- A message reaches an honest replica, or an honest validator signs a vote. -/
inductive Action where
  | deliver (replica : Address) (input : Consensus.Input)
  | sign (message : VoteMessage)

namespace Network

variable {env : Env} {C : Committee} {net : Network}

def init (replica : Address → Consensus) : Network := ⟨replica, [], [], []⟩

def step (env : Env) (net : Network) : Action → Network
  | .deliver n i =>
    let s := net.replica n
    { net with
      replica := Function.update net.replica n (s.step env i)
      accepted := net.accepted ++ ((s.acceptedBy env i).map (n, ·)).toList
      finalized := net.finalized ++ ((Consensus.finalizedBy s (s.step env i)).map (n, ·)).toList }
  | .sign m => { net with signed := m :: net.signed }

/-- No signature of an honest validator is forged. -/
def Authentic (env : Env) (C : Committee) (signed : List VoteMessage) : Consensus.Input → Prop
  | .vote vote => vote.validator ∈ C.honest →
    ∀ v ∈ C.set.validator vote.validator,
      env.verifySignature v.pubkey vote.signingMessage vote.signature = true →
        vote.signingMessage ∈ signed
  | .certificate qc => C.set.verifies env qc = true →
    ∀ a ∈ qc.validators, a ∈ C.honest → ⟨a, qc.blockHash, qc.view, qc.phase⟩ ∈ signed
  | _ => True

instance (signed : List VoteMessage) : DecidablePred (Authentic env C signed)
  | .vote _ => inferInstanceAs (Decidable (_ → ∀ _ ∈ _, _))
  | .certificate _ => inferInstanceAs (Decidable (_ → ∀ _ ∈ _, _))
  | .proposal _ _ | .timeout | .newView _ | .updateValidatorSet _ | .stop =>
    inferInstanceAs (Decidable True)

/-- What an honest validator may sign. -/
def MaySign (net : Network) (m : VoteMessage) : Prop :=
  match m.phase with
  | .prepare => ((net.replica m.validator).pendingBlocks.lookup m.blockHash).isSome
  | _ => ∃ e ∈ net.accepted, e.1 = m.validator ∧
    Consensus.nextPhaseVote m.validator e.2 = some m

instance : DecidablePred net.MaySign
  | ⟨_, _, _, .prepare⟩ => inferInstanceAs (Decidable (_ = true))
  | ⟨_, _, _, .preCommit⟩ | ⟨_, _, _, .commit⟩ => inferInstanceAs (Decidable (∃ _ ∈ _, _))

/-- The actions of a run with a fixed validator set. -/
def Permitted (env : Env) (C : Committee) (net : Network) : Action → Prop
  | .deliver n i => n ∈ C.honest ∧ Authentic env C net.signed i ∧
    ((net.replica n).step env i).validatorSet = C.set
  | .sign m => m.validator ∈ C.honest ∧ net.MaySign m

instance : DecidablePred (Permitted env C net)
  | .deliver _ _ => inferInstanceAs (Decidable (_ ∧ _ ∧ _))
  | .sign _ => inferInstanceAs (Decidable (_ ∧ _))

/-- Every action of a schedule is permitted where it happens. -/
def Schedule (env : Env) (C : Committee) (net : Network) : List Action → Prop
  | [] => True
  | a :: rest => Permitted env C net a ∧ Schedule env C (net.step env a) rest

instance decidableSchedule (net : Network) :
    (actions : List Action) → Decidable (Schedule env C net actions)
  | [] => inferInstanceAs (Decidable True)
  | a :: rest =>
    have := decidableSchedule (net.step env a) rest
    inferInstanceAs (Decidable (Permitted env C net a ∧ _))

def run (env : Env) (net : Network) (actions : List Action) : Network :=
  actions.foldl (step env) net

/-- Proposed heights are below the largest `u64`. -/
def Action.InRange : Action → Prop
  | .deliver _ i => i.InRange
  | .sign _ => True

end Network

/-! ### One replica -/

/-- Every vote of an honest validator in the collector has been signed. -/
def VoteCollector.SignedBy (c : VoteCollector) (honest : List Address)
    (signed : List VoteMessage) : Prop :=
  ∀ view hash phase votes, c.votes.lookup (view, hash, phase) = some votes →
    ∀ v ∈ votes, v.validator ∈ honest → ⟨v.validator, hash, view, phase⟩ ∈ signed

namespace VoteCollector.SignedBy

variable {c : VoteCollector} {honest : List Address} {signed : List VoteMessage}

lemma mono (h : c.SignedBy honest signed) (m : VoteMessage) : c.SignedBy honest (m :: signed) :=
  fun view hash phase votes hlookup v hv hhonest =>
    List.mem_cons_of_mem _ (h view hash phase votes hlookup v hv hhonest)

lemma record (h : c.SignedBy honest signed) {vote : Vote}
    (hvote : vote.validator ∈ honest → vote.signingMessage ∈ signed) :
    (c.record vote).SignedBy honest signed := by
  intro view hash phase votes hlookup v hv hhonest
  rcases mem_votesFor_record (mem_votesFor.2 ⟨votes, hlookup, hv⟩) with hold | ⟨hkey, rfl⟩
  · obtain ⟨old, hold, hmem⟩ := mem_votesFor.1 hold
    exact h view hash phase old hold v hmem hhonest
  · cases hkey
    exact hvote hhonest

lemma prune (h : c.SignedBy honest signed) (minView : ℕ) :
    (c.prune minView).SignedBy honest signed := by
  intro view hash phase votes hlookup
  rw [VoteCollector.prune, AList.lookup_retain] at hlookup
  exact h view hash phase votes (Option.filter_eq_some_iff.1 hlookup).1

lemma certificate (h : c.SignedBy honest signed) {view threshold : ℕ} {hash : Hash}
    {phase : VotePhase} {qc : QuorumCertificate}
    (hqc : c.buildQuorumCertificateForPhase view hash phase threshold = some qc) :
    ∀ a ∈ qc.validators, a ∈ honest → ⟨a, qc.blockHash, qc.view, qc.phase⟩ ∈ signed := by
  unfold buildQuorumCertificateForPhase at hqc
  split at hqc
  · cases hqc
  · rename_i votes hvotes
    split_ifs at hqc
    cases hqc
    intro a ha hhonest
    obtain ⟨v, hv, rfl⟩ := List.mem_map.1 ha
    exact h view hash phase votes hvotes v hv hhonest

end VoteCollector.SignedBy

namespace Consensus

open Network (Authentic)

variable {env : Env} {C : Committee} {s : Consensus} {signed : List VoteMessage}

lemma signedBy_step (hset : s.validatorSet = C.set)
    (hcollector : s.voteCollector.SignedBy C.honest signed) {i : Input}
    (hauth : Authentic env C signed i) :
    (s.step env i).voteCollector.SignedBy C.honest signed ∧
      ∀ qc ∈ s.certificateOf env i, C.set.verifies env qc = true →
        ∀ a ∈ qc.validators, a ∈ C.honest → ⟨a, qc.blockHash, qc.view, qc.phase⟩ ∈ signed := by
  have hhanding : (s.handing env i).voteCollector.SignedBy C.honest signed ∧
      ∀ qc ∈ s.certificateOf env i, C.set.verifies env qc = true →
        ∀ a ∈ qc.validators, a ∈ C.honest → ⟨a, qc.blockHash, qc.view, qc.phase⟩ ∈ signed := by
    cases i with
    | certificate qc =>
      refine ⟨hcollector, fun qc' hqc' hverifies => ?_⟩
      obtain rfl := Option.some.inj hqc'
      exact hauth hverifies
    | vote vote =>
      rw [handing]
      rcases @admitVote_spec env s vote with ⟨hsame, e, he⟩ | ⟨hrecord, ⟨v, hv, hsig⟩, hok⟩
      · exact ⟨hsame ▸ hcollector, by simp [certificateOf, he]⟩
      · rw [hset] at hv
        have hrec : (s.voteCollector.record vote).SignedBy C.honest signed :=
          hcollector.record fun hhonest => hauth hhonest v hv hsig
        refine ⟨hrecord ▸ hrec, fun qc hqc _ => ?_⟩
        simp only [certificateOf, hok] at hqc
        exact hrec.certificate hqc
    | _ => exact ⟨hcollector, by simp [certificateOf]⟩
  refine ⟨?_, hhanding.2⟩
  rcases @voteCollector_step env s i with heq | ⟨minView, heq⟩
  · exact heq ▸ hhanding.1
  · exact heq ▸ hhanding.1.prune minView

end Consensus

end Sxiaum
