import Sxiaum.Consensus.CertificateQuorum
import Sxiaum.Consensus.Restart

/-!
# Admitted votes and the certificates they form

`process_vote` admits the vote of every validator with voting power and forms a certificate as
soon as it has enough votes. The certificate is then verified by active status and voting power.
The two agree exactly if the voters are active and hold the power that is required.
-/

namespace Sxiaum

open QuorumCertificate

namespace VoteCollector

variable {env : Env} {set : ValidatorSet} {key : ℕ × Hash × VotePhase} {votes : List Vote}

/-! ### The lists of a collector -/

/-- Votes of different validators, all for one view, block and phase. -/
structure Distinct (key : ℕ × Hash × VotePhase) (votes : List Vote) : Prop where
  nodup : (votes.map Vote.validator).Nodup
  key : ∀ w ∈ votes, w.key = key

lemma Distinct.nil : Distinct key [] := ⟨List.nodup_nil, by simp⟩

lemma Distinct.addTo {vote : Vote} (h : Distinct vote.key votes) :
    Distinct vote.key (addTo votes vote) := by
  refine ⟨?_, fun w hw => ?_⟩
  · unfold VoteCollector.addTo
    split_ifs with hany
    · exact h.nodup
    · rw [List.map_append, List.nodup_append]
      refine ⟨h.nodup, List.nodup_singleton _, ?_⟩
      rintro a ha b hb rfl
      obtain ⟨w, hw, rfl⟩ := List.mem_map.1 ha
      have hb : w.validator = vote.validator := by simpa using hb
      exact hany (List.any_eq_true.2 ⟨w, hw, decide_eq_true hb⟩)
  · obtain hw | rfl := mem_addTo hw
    · exact h.key w hw
    · rfl

lemma votesFor_prune {c : VoteCollector} (minView : ℕ) :
    (c.prune minView).votesFor key = c.votesFor key ∨ (c.prune minView).votesFor key = [] := by
  unfold votesFor prune
  rw [AList.lookup_retain]
  cases c.votes.lookup key with
  | none => exact .inr rfl
  | some votes =>
    by_cases h : minView ≤ key.1
    · exact .inl (by simp [Option.filter, h])
    · exact .inr (by simp [Option.filter, h])

/-! ### Runs of a collector -/

inductive Op where
  | add (vote : Vote)
  | prune (minView : ℕ)

/-- The collector after operations; a vote that is refused leaves it as it is. -/
def afterOps (env : Env) : VoteCollector → List Op → VoteCollector
  | c, [] => c
  | c, .add vote :: ops => ((c.addVote env vote).toOption.getD c).afterOps env ops
  | c, .prune minView :: ops => (c.prune minView).afterOps env ops

/-- The lists are of different validators, and the index has their votes. -/
structure Sound (c : VoteCollector) : Prop where
  distinct : ∀ key, Distinct key (c.votesFor key)
  indexed : c.Indexed

section Sound

variable {c : VoteCollector}

lemma votesFor_prune_eq (minView : ℕ) : (c.prune minView).votesFor key =
    if minView ≤ key.1 then c.votesFor key else [] := by
  unfold votesFor prune
  rw [AList.lookup_retain]
  split_ifs with hview <;> cases c.votes.lookup key <;> simp [Option.filter, hview]

/-- A view is pruned from the lists and from the index alike. -/
lemma Sound.prune (h : c.Sound) (minView : ℕ) : (c.prune minView).Sound := by
  refine ⟨fun key => ?_, fun view hash phase votes hvotes w hw => ?_⟩
  · rw [votesFor_prune_eq]
    split_ifs
    · exact h.distinct key
    · exact .nil
  · have hmem := mem_votesFor.2 ⟨votes, hvotes, hw⟩
    rw [votesFor_prune_eq] at hmem
    split_ifs at hmem with hview
    · refine (AList.lookup_retain ..).trans ?_
      rw [h.indexed.lookup hmem]
      simp [Option.filter, hview]
    · cases hmem

/-- A vote is accepted only if the index has no vote of its validator for another block. -/
lemma Sound.addVote (h : c.Sound) (vote : Vote) :
    ((c.addVote env vote).toOption.getD c).Sound := by
  cases hadd : c.addVote env vote with
  | error e => exact h
  | ok c' =>
    obtain rfl := Consensus.addVote_ok hadd
    refine ⟨fun key => ?_, h.indexed.record fun hash hvoted => ?_⟩
    · change Distinct key ((c.record vote).votesFor key)
      rw [votesFor_record]
      split_ifs with hkey
      · subst hkey
        exact (h.distinct _).addTo
      · exact h.distinct key
    · rw [VoteCollector.addVote, hvoted] at hadd
      by_contra hne
      simp [hne] at hadd

lemma Sound.afterOps (h : c.Sound) (ops : List Op) : (c.afterOps env ops).Sound := by
  induction ops generalizing c with
  | nil => exact h
  | cons op ops ih =>
    cases op with
    | add vote => exact ih (h.addVote vote)
    | prune minView => exact ih (h.prune minView)

/-- A list only grows until its view is pruned. -/
lemma votesFor_subset_afterOps {ops : List Op}
    (hkept : ∀ minView, .prune minView ∈ ops → minView ≤ key.1) :
    c.votesFor key ⊆ (c.afterOps env ops).votesFor key := by
  induction ops generalizing c with
  | nil => exact List.Subset.refl _
  | cons op ops ih =>
    have hrest := fun c => @ih c fun minView hmem => hkept minView (List.mem_cons_of_mem _ hmem)
    cases op with
    | prune minView =>
      refine List.Subset.trans ?_ (hrest _)
      rw [votesFor_prune_eq, if_pos (hkept minView List.mem_cons_self)]
      exact List.Subset.refl _
    | add vote =>
      refine List.Subset.trans ?_ (hrest _)
      cases hadd : c.addVote env vote with
      | error e => exact List.Subset.refl _
      | ok c' =>
        rw [Consensus.addVote_ok hadd]
        change _ ⊆ (c.record vote).votesFor key
        rw [votesFor_record, addTo]
        split_ifs <;> simp

/-- A certificate has the voters of a list, at least as many as it needs. -/
lemma Sound.of_build (h : c.Sound) {view threshold : ℕ} {hash : Hash} {phase : VotePhase}
    {qc : QuorumCertificate}
    (hqc : c.buildQuorumCertificateForPhase view hash phase threshold = some qc) :
    (qc.validators.Nodup ∧ threshold ≤ qc.validators.length) ∧
      qc.validators = (c.votesFor (view, hash, phase)).map Vote.validator := by
  have hdistinct := h.distinct (view, hash, phase)
  unfold buildQuorumCertificateForPhase at hqc
  unfold votesFor at hdistinct ⊢
  cases hlookup : c.votes.lookup (view, hash, phase) with
  | none => simp [hlookup] at hqc
  | some votes =>
    rw [hlookup] at hqc hdistinct
    simp only at hqc
    split_ifs at hqc with hfew
    cases hqc
    exact ⟨⟨hdistinct.nodup, by simpa using hfew⟩, rfl⟩

end Sound

lemma sound_empty : empty.Sound := ⟨fun _ => .nil, indexed_empty⟩

/-- However votes arrive and views are pruned, a certificate that a collector forms is of different
validators, as many as it needs. If it forms another one for the same view and phase later, and
the view is not pruned in between, then the two are for one block or have no validator in
common. -/
theorem certificates_apart {pre post : List Op} {view threshold threshold' : ℕ} {phase : VotePhase}
    {hash hash' : Hash} {qc qc' : QuorumCertificate}
    (hkept : ∀ minView, .prune minView ∈ post → minView ≤ view)
    (hqc : (empty.afterOps env pre).buildQuorumCertificateForPhase view hash phase threshold =
      some qc)
    (hqc' : ((empty.afterOps env pre).afterOps env post).buildQuorumCertificateForPhase view hash'
      phase threshold' = some qc') :
    (qc.validators.Nodup ∧ threshold ≤ qc.validators.length) ∧
      (hash = hash' ∨ qc.validators.Disjoint qc'.validators) := by
  have hfirst : (empty.afterOps env pre).Sound := sound_empty.afterOps pre
  have hsecond : ((empty.afterOps env pre).afterOps env post).Sound := hfirst.afterOps post
  obtain ⟨hsize, hvoters⟩ := hfirst.of_build hqc
  refine ⟨hsize, or_iff_not_imp_left.2 fun hne a ha ha' => hne ?_⟩
  rw [hvoters] at ha
  rw [(hsecond.of_build hqc').2] at ha'
  obtain ⟨w, hw, rfl⟩ := List.mem_map.1 ha
  obtain ⟨w', hw', heq⟩ := List.mem_map.1 ha'
  -- the earlier vote is still in its list, and the index has one block for the validator
  have hvoted := hsecond.indexed.lookup (votesFor_subset_afterOps hkept hw)
  have hvoted' := hsecond.indexed.lookup hw'
  rw [heq, hvoted] at hvoted'
  exact Option.some.inj hvoted'

/-- Votes for a block in the first view. -/
def splitVotes (hash : Hash) (voters : List Address) : List Op :=
  voters.map fun a => .add ⟨a, hash, 0, .prepare, 0, none, a⟩

/-- Validators 1 and 2 vote for one block; validator 1 is refused another, and validator 3 is
not. -/
theorem certificates_apart_two : ∃ qc qc',
    (empty.afterOps .sample (splitVotes 10 [1, 2])).buildQuorumCertificateForPhase 0 10 .prepare 2 =
      some qc ∧
    ((empty.afterOps .sample (splitVotes 10 [1, 2])).afterOps .sample
      (splitVotes 11 [1, 3])).buildQuorumCertificateForPhase 0 11 .prepare 1 = some qc' ∧
    qc.validators.Disjoint qc'.validators := by
  obtain ⟨qc, hqc⟩ := Option.isSome_iff_exists.1 (by decide +kernel :
    ((empty.afterOps .sample (splitVotes 10 [1, 2])).buildQuorumCertificateForPhase 0 10 .prepare
      2).isSome = true)
  obtain ⟨qc', hqc'⟩ := Option.isSome_iff_exists.1 (by decide +kernel :
    (((empty.afterOps .sample (splitVotes 10 [1, 2])).afterOps .sample
      (splitVotes 11 [1, 3])).buildQuorumCertificateForPhase 0 11 .prepare 1).isSome = true)
  refine ⟨qc, qc', hqc, hqc', (certificates_apart ?_ hqc hqc').2.resolve_left (by decide)⟩
  simp [splitVotes]

/-! ### The certificate of a list -/

/-- The verifier finds the voter among the active validators, with a key under which the vote
verifies. -/
def Acceptable (env : Env) (set : ValidatorSet) (vote : Vote) : Prop :=
  ∃ v, set.activeValidators.find? (·.address = vote.validator) = some v ∧
    env.verifySignature v.pubkey vote.signingMessage vote.signature = true

instance (env : Env) (set : ValidatorSet) (vote : Vote) : Decidable (Acceptable env set vote) :=
  inferInstanceAs (Decidable (∃ v ∈ set.activeValidators.find? (·.address = vote.validator),
    env.verifySignature v.pubkey vote.signingMessage vote.signature = true))

/-- The voting power of the active validators among the voters. -/
def votersPower (set : ValidatorSet) (votes : List Vote) : ℕ :=
  (votes.map fun w => set.activePower w.validator).sum

lemma verifyEntries_votes {qc : QuorumCertificate} {seen : List Address}
    (hkey : ∀ w ∈ votes, w.key = (qc.view, qc.blockHash, qc.phase))
    (hnodup : (votes.map Vote.validator).Nodup) (hseen : ∀ w ∈ votes, w.validator ∉ seen) :
    qc.verifyEntries env set.activeValidators seen
        ((votes.map Vote.validator).zip (votes.map fun w => .ed25519 w.signature)) = true ↔
      ∀ w ∈ votes, Acceptable env set w := by
  induction votes generalizing seen with
  | nil => simp [verifyEntries]
  | cons w rest ih =>
    rw [List.forall_mem_cons] at hkey hseen
    rw [List.map_cons, List.nodup_cons] at hnodup
    have hrest : ∀ w' ∈ rest, w'.validator ∉ w.validator :: seen := by
      intro w' hw' hmem
      rcases List.mem_cons.1 hmem with heq | hmem
      · exact hnodup.1 (heq ▸ List.mem_map_of_mem hw')
      · exact hseen.2 w' hw' hmem
    have hmessage : (⟨w.validator, qc.blockHash, qc.view, qc.phase⟩ : VoteMessage) =
        w.signingMessage := by
      have h := hkey.1
      simp only [Vote.key, Prod.mk.injEq] at h
      simp [Vote.signingMessage, h]
    have ih := ih hkey.2 hnodup.2 hrest
    simp only [List.map_cons, List.zip_cons_cons, verifyEntries,
      if_neg hseen.1, hmessage, List.forall_mem_cons]
    cases hfind : set.activeValidators.find? (·.address = w.validator) with
    | none => simp [Acceptable, hfind]
    | some v => simp [Acceptable, hfind, ih]

lemma signersPower_votes (h : ∀ w ∈ votes, Acceptable env set w) {total : ℕ}
    (htotal : total ≤ u64Max) :
    signersPower set.activeValidators total (votes.map Vote.validator) =
      some (min (total + votersPower set votes) u64Max) := by
  induction votes generalizing total with
  | nil => simp [signersPower, votersPower, htotal]
  | cons w rest ih =>
    rw [List.forall_mem_cons] at h
    obtain ⟨⟨v, hfind, -⟩, hrest⟩ := h
    have hpower : set.activePower w.validator = v.votingPower := by
      simp [ValidatorSet.activePower, powerOf, hfind]
    simp only [List.map_cons, signersPower, hfind]
    have hstep : satAdd64 total v.votingPower ≤ u64Max := min_le_right _ _
    rw [ih hrest hstep]
    simp only [votersPower, List.map_cons, List.sum_cons, hpower, satAdd64, Option.some.injEq]
    omega

/-- The vote verifies under the key of a validator, active or not. -/
def SignedUnder (env : Env) (set : ValidatorSet) (vote : Vote) : Prop :=
  ∃ v, set.validator vote.validator = some v ∧
    env.verifySignature v.pubkey vote.signingMessage vote.signature = true

lemma acceptable_iff {vote : Vote} (hkeyed : set.Keyed) (h : SignedUnder env set vote) :
    Acceptable env set vote ↔ vote.validator ∈ set.activeAddresses := by
  obtain ⟨v, hlookup, hsig⟩ := h
  constructor
  · rintro ⟨v', hfind, -⟩
    exact ValidatorSet.mem_activeAddresses.2 ⟨v', hfind⟩
  · intro hmem
    obtain ⟨v', hfind⟩ := ValidatorSet.mem_activeAddresses.1 hmem
    obtain rfl : v' = v := Option.some.inj ((hkeyed.find?_active.1 hfind).1.symm.trans hlookup)
    exact ⟨v', hfind, hsig⟩

lemma requiredQuorumVotingPower_le (set : ValidatorSet) :
    set.requiredQuorumVotingPower ≤ u64Max := by
  unfold ValidatorSet.requiredQuorumVotingPower
  split_ifs
  · exact Nat.zero_le _
  · exact min_le_right _ _

lemma verifies_certificate_iff (h : Distinct key votes) :
    set.verifies env (certificate key votes) = true ↔
      set.quorumThreshold ≤ votes.length ∧ (∀ w ∈ votes, Acceptable env set w) ∧
        set.requiredQuorumVotingPower ≤ votersPower set votes := by
  have hed : (certificate key votes).usesEd25519 = true := by
    cases votes with
    | nil => rfl
    | cons w rest => rfl
  have hentries : (certificate key votes).verifyEntries env set.activeValidators []
      ((certificate key votes).validators.zip (certificate key votes).signatures) = true ↔
      ∀ w ∈ votes, Acceptable env set w :=
    verifyEntries_votes h.key h.nodup (by simp)
  simp only [ValidatorSet.verifies, verifyBlsWithVotingPower, hed, if_true,
    verifyWithVotingPower, verify, Bool.and_eq_true,
    decide_eq_true_eq, hentries]
  have hlength : (certificate key votes).signatures.length =
      (certificate key votes).validators.length := by simp [certificate]
  have hcount : (certificate key votes).validators.length = votes.length := by simp [certificate]
  rw [hlength, hcount]
  have hle := requiredQuorumVotingPower_le set
  constructor
  · rintro ⟨⟨⟨-, hmany⟩, haccept⟩, hpower⟩
    have hsum := signersPower_votes haccept (Nat.zero_le _)
    simp only [certificate, hsum, decide_eq_true_eq] at hpower
    exact ⟨hmany, haccept, by omega⟩
  · rintro ⟨hmany, haccept, hpower⟩
    have hsum := signersPower_votes haccept (Nat.zero_le _)
    refine ⟨⟨⟨rfl, hmany⟩, haccept⟩, ?_⟩
    simp only [certificate, hsum, decide_eq_true_eq]
    omega

end VoteCollector

namespace Consensus

open VoteCollector

variable {env : Env} {s : Consensus} {key : ℕ × Hash × VotePhase} {vote : Vote}

/-! ### What a run does to a list -/

lemma votesFor_step (env : Env) (s : Consensus) (i : Input) (key : ℕ × Hash × VotePhase) :
    (s.step env i).voteCollector.votesFor key = s.voteCollector.votesFor key ∨
      (s.step env i).voteCollector.votesFor key = [] ∨
      ∃ vote : Vote, vote.key = key ∧ SignedUnder env s.validatorSet vote ∧
        (s.step env i).voteCollector.votesFor key =
          addTo (s.voteCollector.votesFor key) vote := by
  have hhanding : (s.handing env i).voteCollector.votesFor key = s.voteCollector.votesFor key ∨
      ∃ vote : Vote, vote.key = key ∧ SignedUnder env s.validatorSet vote ∧
        (s.handing env i).voteCollector.votesFor key =
          addTo (s.voteCollector.votesFor key) vote := by
    cases i with
    | vote vote =>
      rw [handing]
      rcases @admitVote_spec env s vote with ⟨hsame, -⟩ | ⟨hrecord, hsigned, -⟩
      · rw [hsame]
        exact .inl rfl
      · rw [hrecord, votesFor_record]
        split_ifs with hkey
        · exact .inr ⟨vote, hkey.symm, hsigned, rfl⟩
        · exact .inl rfl
    | _ => exact .inl rfl
  rcases @voteCollector_step env s i with heq | ⟨minView, heq⟩
  · rw [heq]
    exact hhanding.imp_right .inr
  · rw [heq]
    rcases @votesFor_prune key (s.handing env i).voteCollector minView with h | h
    · rw [h]
      exact hhanding.imp_right .inr
    · exact .inr (.inl h)

/-- What holds of the empty list and is kept by every vote that passes the checks holds of the
list under a key in every run. -/
lemma votesFor_run {P : List Vote → Prop} {G : ValidatorSet → Prop} (hnil : P [])
    (hadd : ∀ votes vote set, P votes → vote.key = key → G set → SignedUnder env set vote →
      P (addTo votes vote))
    {inputs : List Input} (hset : ∀ t, t <+: inputs → G (s.run env t).validatorSet)
    (h : P (s.voteCollector.votesFor key)) :
    P ((s.run env inputs).voteCollector.votesFor key) := by
  induction inputs generalizing s with
  | nil => exact h
  | cons i rest ih =>
    refine ih (s := s.step env i) (fun t ht => hset (i :: t) (List.cons_prefix_cons.2 ⟨rfl, ht⟩)) ?_
    rcases votesFor_step env s i key with heq | heq | ⟨vote, hkey, hsigned, heq⟩
    · exact heq ▸ h
    · exact heq ▸ hnil
    · exact heq ▸ hadd _ vote _ h hkey (hset [] List.nil_prefix) hsigned

/-! ### Admission and verification -/

/-- The votes for the view, block and phase of a vote once it is admitted. -/
def votesWith (s : Consensus) (vote : Vote) : List Vote :=
  addTo (s.voteCollector.votesFor vote.key) vote

/-- A vote is admitted that the verifier would accept, and the certificate it completes
verifies. -/
structure Consistent (env : Env) (s : Consensus) (vote : Vote) : Prop where
  voter : Acceptable env s.validatorSet vote
  formed : s.validatorSet.quorumThreshold ≤ (s.votesWith vote).length →
    ∃ qc, s.certificateOf env (.vote vote) = some qc
  verified : ∀ qc, s.certificateOf env (.vote vote) = some qc →
    s.validatorSet.verifies env qc = true

/-- The voters of an admitted vote's list, once they are enough, are acceptable to the verifier
and hold the power that it requires. -/
def Backed (env : Env) (s : Consensus) (vote : Vote) : Prop :=
  vote.validator ∈ s.validatorSet.activeAddresses ∧
    (s.validatorSet.quorumThreshold ≤ (s.votesWith vote).length →
      (∀ w ∈ s.votesWith vote, Acceptable env s.validatorSet w) ∧
        s.validatorSet.requiredQuorumVotingPower ≤ votersPower s.validatorSet (s.votesWith vote))

lemma consistent_iff_backed (hkeyed : s.validatorSet.Keyed)
    (hdistinct : Distinct vote.key (s.voteCollector.votesFor vote.key))
    (hadmitted : ∃ qc, (s.admitVote env vote).1 = .ok qc) :
    Consistent env s vote ↔ Backed env s vote := by
  obtain ⟨qc, hqc⟩ := hadmitted
  rcases @admitVote_spec env s vote with ⟨-, e, he⟩ | ⟨-, hsigned, hok⟩
  · rw [hqc] at he
    cases he
  rw [build_record] at hok
  have hcertificate : s.certificateOf env (.vote vote) =
      if (s.votesWith vote).length < s.validatorSet.quorumThreshold then none
      else some (certificate vote.key (s.votesWith vote)) := by
    simp only [certificateOf, hok]
    rfl
  have hvoter := acceptable_iff hkeyed hsigned
  have hlist : Distinct vote.key (s.votesWith vote) := hdistinct.addTo
  have hverifies := @verifies_certificate_iff env s.validatorSet _ _ hlist
  constructor
  · rintro ⟨hown, -, hverified⟩
    refine ⟨hvoter.1 hown, fun hmany => ?_⟩
    rw [if_neg (not_lt.2 hmany)] at hcertificate
    exact (hverifies.1 (hverified _ hcertificate)).2
  · rintro ⟨hown, hbacked⟩
    refine ⟨hvoter.2 hown, fun hmany => ?_, fun qc hqc => ?_⟩
    · exact ⟨_, hcertificate.trans (if_neg (not_lt.2 hmany))⟩
    · rw [hcertificate] at hqc
      split_ifs at hqc with hfew
      cases hqc
      exact hverifies.2 ⟨not_lt.1 hfew, hbacked (not_lt.1 hfew)⟩

/-- In every run that has begun without votes for a view, block and phase, an admitted vote and
its certificate pass verification exactly if they are backed. While the validator set stays the
same, the only voters that the verifier refuses are those that are not active. -/
theorem admission_consistent_iff {inputs : List Input}
    (hnone : s.voteCollector.votesFor vote.key = [])
    (hkeyed : (s.run env inputs).validatorSet.Keyed)
    (hadmitted : ∃ qc, ((s.run env inputs).admitVote env vote).1 = .ok qc) :
    (Consistent env (s.run env inputs) vote ↔ Backed env (s.run env inputs) vote) ∧
      ((∀ t, t <+: inputs → (s.run env t).validatorSet = s.validatorSet) →
        ∀ w ∈ (s.run env inputs).votesWith vote,
          (Acceptable env (s.run env inputs).validatorSet w ↔
            w.validator ∈ (s.run env inputs).validatorSet.activeAddresses)) := by
  have hdistinct : Distinct vote.key ((s.run env inputs).voteCollector.votesFor vote.key) := by
    refine votesFor_run (G := fun _ => True) .nil ?_ (fun _ _ => trivial) (hnone ▸ .nil)
    rintro votes w set h hkey - -
    exact hkey ▸ (hkey.symm ▸ h : Distinct w.key votes).addTo
  refine ⟨consistent_iff_backed hkeyed hdistinct hadmitted, fun hset w hw => ?_⟩
  refine acceptable_iff hkeyed ?_
  rcases mem_addTo hw with hw | rfl
  · have hsigned : ∀ w ∈ (s.run env inputs).voteCollector.votesFor vote.key,
        SignedUnder env s.validatorSet w := by
      refine votesFor_run (P := fun votes => ∀ w ∈ votes, SignedUnder env s.validatorSet w)
        (G := (· = s.validatorSet)) (by simp) ?_ hset (by simp [hnone])
      rintro votes vote' set h - rfl hsigned w hw
      rcases mem_addTo hw with hw | rfl
      · exact h w hw
      · exact hsigned
    rw [hset inputs List.prefix_rfl]
    exact hsigned w hw
  · obtain ⟨qc, hqc⟩ := hadmitted
    rcases @admitVote_spec env (s.run env inputs) w with ⟨-, e, he⟩ | ⟨-, hsigned, -⟩
    · rw [hqc] at he
      cases he
    · exact hsigned

def twoVotes (vs : List Validator) : List Input :=
  [.updateValidatorSet vs, .proposal 0 (sampleChain 1)] ++
    [2, 3].map fun a => .vote ⟨a, Env.sample.hash (sampleChain 1), 0, .prepare, 0, none, a⟩

def afterTwoVotes (vs : List Validator) : Consensus := (new sampleStorage).run .sample (twoVotes vs)

def fourthVote : Vote := ⟨4, Env.sample.hash (sampleChain 1), 0, .prepare, 0, none, 4⟩

def equalPowers : List Validator := [.sample 1 1, .sample 2 1, .sample 3 1, .sample 4 1]

def unequalPowers : List Validator := [.sample 1 100, .sample 2 1, .sample 3 1, .sample 4 1]

def oneInactive : List Validator :=
  [.sample 1 1, .sample 2 1, .sample 3 1, { Validator.sample 4 1 with status := .inactive }]

/-- With equal powers the third vote completes a certificate that verifies. -/
theorem admission_consistent_sample :
    ((afterTwoVotes equalPowers).votesWith fourthVote).length =
        (afterTwoVotes equalPowers).validatorSet.quorumThreshold ∧
      Consistent .sample (afterTwoVotes equalPowers) fourthVote := by
  refine ⟨by decide +kernel, (admission_consistent_iff rfl ?_ ?_).1.2 ⟨?_, fun _ => ⟨?_, ?_⟩⟩⟩
  · decide +kernel
  · exact Guards.exists_ok (by decide +kernel)
  · decide +kernel
  · decide +kernel
  · decide +kernel

/-- Three validators of power 1 complete a certificate, and it fails for want of power; an
inactive validator with voting power is admitted. -/
theorem admission_inconsistent :
    ((afterTwoVotes unequalPowers).certificateOf .sample (.vote fourthVote)).any (fun qc =>
        !(afterTwoVotes unequalPowers).validatorSet.verifies .sample qc) = true ∧
      ((afterTwoVotes oneInactive).admitVote .sample fourthVote).1.toOption.isSome = true ∧
      ¬ Acceptable .sample (afterTwoVotes oneInactive).validatorSet fourthVote := by
  decide +kernel

end Consensus

end Sxiaum
