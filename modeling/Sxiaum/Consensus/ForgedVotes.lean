import Sxiaum.Consensus.CertificateQuorum
import Sxiaum.Consensus.Collector
import Sxiaum.Consensus.Frames
import Sxiaum.Consensus.Replica

/-!
# Votes that no active validator has signed

`process_vote` looks at the signature of a vote after it has moved to the view of the vote and
after it has compared the vote with those it holds. A forged vote can therefore advance the view
and accuse a validator of voting twice, and a validator that is not active but has voting power
is let in. Everything else about a forged vote, and everything about a certificate that does not
verify, leaves the replica as it was.
-/

namespace Sxiaum.Replica

variable {env : ReplicaEnv} {r : Replica} {vote : Vote}

/-- No active validator has signed the vote. -/
def Forged (env : Env) (set : ValidatorSet) (vote : Vote) : Prop :=
  ∀ v, set.validator vote.validator = some v → v.isActive = true →
    env.verifySignature v.pubkey vote.signingMessage vote.signature = false

instance (env : Env) (set : ValidatorSet) (vote : Vote) : Decidable (Forged env set vote) :=
  inferInstanceAs (Decidable (∀ v ∈ set.validator vote.validator, v.isActive = true →
    env.verifySignature v.pubkey vote.signingMessage vote.signature = false))

/-- The view, the collected votes, the evidence pool and the certificates are the same. -/
structure Untouched (r r' : Replica) : Prop where
  view : r'.core.currentView = r.core.currentView
  votes : ∀ key, r'.core.voteCollector.votes.lookup key = r.core.voteCollector.votes.lookup key
  validatorVotes : ∀ key, r'.core.voteCollector.validatorVotes.lookup key =
    r.core.voteCollector.validatorVotes.lookup key
  evidence : ∀ id, r'.slashing.pendingEvidence.lookup id = r.slashing.pendingEvidence.lookup id
  hotstuff : r'.core.hotstuff = r.core.hotstuff
  qcRows : r'.core.storage.qcRows = r.core.storage.qcRows
  highestQcRow : r'.core.storage.highestQcRow = r.core.storage.highestQcRow
  highestQcBlock : r'.core.highestQcBlock = r.core.highestQcBlock

lemma Untouched.refl (r : Replica) : Untouched r r :=
  ⟨rfl, fun _ => rfl, fun _ => rfl, fun _ => rfl, rfl, rfl, rfl, rfl⟩

/-! ### What a vote can reach before its signature is checked -/

/-- The vote takes the replica to a later view. -/
def JumpsView (s : Consensus) (vote : Vote) : Prop :=
  s.currentView < vote.view ∧ (s.pendingBlocks.lookup vote.blockHash).isSome ∧
    vote.view ≤ satAdd64 s.currentView maxUnauthenticatedViewJump

/-- The replica goes on to the checks of the vote. -/
def Considers (s : Consensus) (vote : Vote) : Prop :=
  s.currentView = vote.view ∨
    s.currentView < vote.view ∧ (s.pendingBlocks.lookup vote.blockHash).isSome

/-- The offence that the vote is taken for is in the evidence pool as it would be recorded. -/
def AlreadyAccused (env : ReplicaEnv) (r : Replica) (vote : Vote) : Prop :=
  ∀ m, doubleVote env r.core vote = some m →
    r.slashing.pendingEvidence.lookup (env.evidenceId m) =
      some (SlashingManager.selfDetected env.evidenceId vote.validator m
        r.core.finalizedBlockHeight)

/-- The collector holds a vote of the same validator for the same block, and enough votes for a
certificate. -/
def CompletesAgain (s : Consensus) (vote : Vote) : Prop :=
  (s.voteCollector.votesFor vote.key).any (·.validator = vote.validator) = true ∧
    s.voteCollector.validatorVotes.lookup (vote.view, vote.phase, vote.validator) =
      some vote.blockHash ∧
    s.validatorSet.quorumThreshold ≤ (s.voteCollector.votesFor vote.key).length

/-- A vote that the replica considers passes its checks. -/
def PassesChecks (env : Env) (s : Consensus) (vote : Vote) : Prop :=
  s.checkVote env vote = .ok () ∧ s.voteCollector.addVote env vote =
    .ok (s.voteCollector.record vote)

/-- A vote that changes nothing it should not. -/
structure Harmless (env : ReplicaEnv) (r : Replica) (vote : Vote) : Prop where
  view : ¬ JumpsView r.core vote
  evidence : Considers r.core vote → AlreadyAccused env r vote
  admission : Considers r.core vote → PassesChecks env r.core vote →
    CompletesAgain r.core vote

/-! ### The outcome of a forged vote -/

/-- The replica once it has moved to the view of a vote. -/
def synced (r : Replica) (view : ℕ) (row : Option ℕ) : Replica :=
  { r with core := { r.core with
    currentView := view
    storage := { r.core.storage with currentViewRow := row } } }

def withVote (r : Replica) (vote : Vote) : Replica :=
  { r with core := { r.core with
    voteCollector := r.core.voteCollector.record vote
    storage := r.core.storage.persistVote vote } }

/-- A vote is not considered, or it is considered in its own view or the present one. -/
lemma syncToVote_cases (s : Consensus) (vote : Vote) :
    (¬ Considers s vote ∧ ∃ e, s.syncToVote vote = (.error e, s)) ∨
      (Considers s vote ∧ ∃ view row, s.syncToVote vote = (.ok (), { s with
          currentView := view
          storage := { s.storage with currentViewRow := row } }) ∧
        ((JumpsView s vote ∧ view = vote.view) ∨ (¬ JumpsView s vote ∧ view = s.currentView))) := by
  unfold Consensus.syncToVote
  split_ifs with hahead hpending hbehind
  · refine .inr ⟨.inr ⟨hahead, hpending⟩, ?_⟩
    unfold Consensus.syncViewWithNetwork
    split_ifs with hjump
    · exact ⟨vote.view, _, rfl, .inl ⟨⟨hahead, hpending, hjump.2⟩, rfl⟩⟩
    · refine ⟨s.currentView, _, rfl, .inr ⟨?_, rfl⟩⟩
      exact fun h => hjump ⟨h.1, h.2.2⟩
  · refine .inl ⟨?_, _, rfl⟩
    rintro (h | h)
    · omega
    · exact hpending h.2
  · refine .inl ⟨?_, _, rfl⟩
    rintro (h | h) <;> omega
  · refine .inr ⟨.inl (by omega), s.currentView, s.storage.currentViewRow, rfl, .inr ⟨?_, rfl⟩⟩
    exact fun h => hahead h.1

lemma verifies_certificate {s : Consensus} (hkeyed : s.validatorSet.Keyed)
    (hforged : Forged env s.validatorSet vote) (h : s.checkVote env vote = .ok ())
    (votes : List Vote) : s.validatorSet.verifies env
      (VoteCollector.certificate vote.key (VoteCollector.addTo votes vote)) = false := by
  rw [Bool.eq_false_iff]
  intro hverifies
  obtain ⟨hsub, -, -⟩ := QuorumCertificate.signers_of_verifies hverifies
  obtain ⟨w, hw, heq⟩ := VoteCollector.exists_mem_addTo votes vote
  have hactive : vote.validator ∈ s.validatorSet.activeAddresses :=
    hsub (List.mem_toFinset.2 (heq ▸ List.mem_map_of_mem hw))
  -- but a forged vote passes the checks only for a validator that is not active
  obtain ⟨v, hfind⟩ := ValidatorSet.mem_activeAddresses.1 hactive
  obtain ⟨hlookup, hactive⟩ := hkeyed.find?_active.1 hfind
  have hverify := Consensus.verifyValidatorVote_of_checkVote h
  unfold Consensus.verifyValidatorVote at hverify
  rw [hlookup] at hverify
  dsimp only at hverify
  rw [hforged v hlookup hactive] at hverify
  cases hverify

inductive ForgedOutcome (env : ReplicaEnv) (r : Replica) (vote : Vote) :
    Outcome (Option QuorumCertificate) → Prop
  | ignored (e : ConsensusError) (hskip : ¬ Considers r.core vote) :
      ForgedOutcome env r vote (.error e, r)
  | refused (e : ConsensusError) (view : ℕ) (row : Option ℕ) (hcheck : Considers r.core vote)
      (hview : JumpsView r.core vote ∧ view = vote.view ∨
        ¬ JumpsView r.core vote ∧ view = r.core.currentView)
      (hfail : ¬ PassesChecks env r.core vote) :
      ForgedOutcome env r vote (.error e, { r.synced view row with
        slashing := r.recordDoubleVote env vote })
  | admitted (result : Except ConsensusError (Option QuorumCertificate)) (view : ℕ)
      (row : Option ℕ) (hcheck : Considers r.core vote)
      (hview : JumpsView r.core vote ∧ view = vote.view ∨
        ¬ JumpsView r.core vote ∧ view = r.core.currentView)
      (hpass : PassesChecks env r.core vote)
      (hresult : (∃ e, result = .error e) ↔ r.core.validatorSet.quorumThreshold ≤
        (VoteCollector.addTo (r.core.voteCollector.votesFor vote.key) vote).length) :
      ForgedOutcome env r vote (result, (r.synced view row).withVote vote)

/-- The offence that a vote is taken for makes it fail its checks. -/
lemma doubleVote_eq_none {s : Consensus} (h : s.checkVote env vote = .ok ()) :
    doubleVote env s vote = none := by
  unfold Consensus.checkVote at h
  unfold doubleVote
  cases hblock : s.pendingBlocks.lookup vote.blockHash with
  | none => rfl
  | some block =>
    rw [hblock] at h
    simp only [bind, Except.bind, Option.bind] at h ⊢
    split_ifs with hlock
    · rfl
    · rw [if_neg hlock] at h
      cases hvoted : s.voteCollector.getVotedHashForPhase vote.view vote.phase vote.validator with
      | none => rfl
      | some existing =>
        rw [hvoted] at h
        dsimp only at h ⊢
        split_ifs with hsame
        · rfl
        · rw [if_pos hsame] at h
          cases h

lemma recordDoubleVote_eq (h : r.core.checkVote env vote = .ok ()) :
    r.recordDoubleVote env vote = r.slashing := by
  unfold recordDoubleVote
  rw [doubleVote_eq_none h]

/-- The checks of a considered vote read neither the view nor its row. -/
lemma admitVote_of_considers {view : ℕ} {row : Option ℕ}
    (hsync : r.core.syncToVote vote = (.ok (), (r.synced view row).core)) :
    r.admitVote env vote =
      match r.core.checkVote env vote with
      | .error e => (.error e, { r.synced view row with slashing := r.recordDoubleVote env vote })
      | .ok () =>
        match r.core.voteCollector.addVote env vote with
        | .error e => (.error e, r.synced view row)
        | .ok _ =>
          (.ok ((r.core.voteCollector.record vote).buildQuorumCertificateForPhase vote.view
              vote.blockHash vote.phase r.core.validatorSet.quorumThreshold),
            (r.synced view row).withVote vote) := by
  unfold admitVote
  rw [hsync]
  cases hadd : r.core.voteCollector.addVote env vote with
  | error e =>
    simp only [synced, hadd]
    rfl
  | ok collector =>
    obtain rfl := Consensus.addVote_ok hadd
    simp only [synced, hadd]
    rfl

lemma forgedOutcome (hkeyed : r.core.validatorSet.Keyed)
    (hforged : Forged env r.core.validatorSet vote) :
    ForgedOutcome env r vote (r.processVote env vote) := by
  unfold processVote
  obtain ⟨hskip, e, hsync⟩ | ⟨hcheck, view, row, hsync, hview⟩ := syncToVote_cases r.core vote
  · rw [admitVote, hsync]
    exact .ignored e hskip
  rw [admitVote_of_considers hsync]
  rcases hchecks : r.core.checkVote env vote with e | ⟨⟩
  · refine .refused e view row hcheck hview ?_
    rintro ⟨hok, -⟩
    rw [hchecks] at hok
    cases hok
  rcases hadd : r.core.voteCollector.addVote env vote with e | collector
  · have hrefused := ForgedOutcome.refused e view row hcheck hview
      (fun h : PassesChecks env r.core vote => by rw [h.2] at hadd; cases hadd)
    rwa [recordDoubleVote_eq hchecks] at hrefused
  obtain rfl := Consensus.addVote_ok hadd
  have hpass : PassesChecks env r.core vote := ⟨hchecks, hadd⟩
  dsimp only
  rw [VoteCollector.build_record]
  split_ifs with hfew
  · refine .admitted (.ok none) view row hcheck hview hpass ?_
    simpa using hfew
  · have hrefuse : processQuorumCertificate env ((r.synced view row).withVote vote)
        (VoteCollector.certificate vote.key
          (VoteCollector.addTo (r.core.voteCollector.votesFor vote.key) vote)) =
        (.error .invalidQuorumCertificate, (r.synced view row).withVote vote) := by
      unfold processQuorumCertificate
      rw [if_pos]
      exact (Bool.not_eq_eq_eq_not ..).2 (verifies_certificate hkeyed hforged hchecks _)
    dsimp only
    rw [hrefuse]
    exact .admitted _ view row hcheck hview hpass ⟨fun _ => not_lt.1 hfew, fun _ => ⟨_, rfl⟩⟩

/-! ### Harmless votes -/

lemma currentView_eq_iff {view : ℕ} (hview : JumpsView r.core vote ∧ view = vote.view ∨
    ¬ JumpsView r.core vote ∧ view = r.core.currentView) :
    view = r.core.currentView ↔ ¬ JumpsView r.core vote := by
  obtain ⟨hjump, rfl⟩ | ⟨hstay, rfl⟩ := hview
  · have := hjump.1
    exact iff_of_false (by omega) (not_not.2 hjump)
  · exact iff_of_true rfl hstay

lemma recordDoubleVote_unchanged_iff :
    (∀ id, (r.recordDoubleVote env vote).pendingEvidence.lookup id =
        r.slashing.pendingEvidence.lookup id) ↔ AlreadyAccused env r vote := by
  unfold recordDoubleVote AlreadyAccused
  cases doubleVote env r.core vote with
  | none => simp
  | some m =>
    simp only [SlashingManager.recordSelfDetectedEvidence, Option.some.injEq]
    constructor
    · rintro h m' rfl
      exact (h _).symm.trans (AList.lookup_insert _)
    · intro h id
      by_cases hid : id = env.evidenceId m
      · subst hid
        exact (AList.lookup_insert _).trans (h m rfl).symm
      · exact AList.lookup_insert_ne hid

/-- A forged vote is refused and leaves the view, the votes, the evidence and the certificates
alone exactly if it is harmless, and a certificate that does not verify always does. -/
theorem forged_refused_iff (hkeyed : r.core.validatorSet.Keyed)
    (hforged : Forged env r.core.validatorSet vote) :
    (((∃ e, (r.processVote env vote).1 = .error e) ∧ Untouched r (r.processVote env vote).2) ↔
        Harmless env r vote) ∧
      ∀ qc, r.core.validatorSet.verifies env qc = false →
        r.processQuorumCertificate env qc = (.error .invalidQuorumCertificate, r) := by
  refine ⟨?_, fun qc hqc => by rw [processQuorumCertificate, if_pos (by rw [hqc]; rfl)]⟩
  have houtcome := forgedOutcome hkeyed hforged
  generalize r.processVote env vote = outcome at houtcome
  cases houtcome with
  | ignored e hskip =>
    refine iff_of_true ⟨⟨e, rfl⟩, .refl r⟩ ⟨?_, fun h => absurd h hskip, fun h => absurd h hskip⟩
    exact fun hjump => hskip (.inr ⟨hjump.1, hjump.2.1⟩)
  -- what is checked before the signature may have left a trace
  | refused e view row hcheck hview hfail =>
    constructor
    · rintro ⟨-, h⟩
      exact ⟨(currentView_eq_iff hview).1 h.view,
        fun _ => recordDoubleVote_unchanged_iff.1 h.evidence, fun _ hpass => absurd hpass hfail⟩
    · intro h
      refine ⟨⟨e, rfl⟩, { Untouched.refl r with view := ?_, evidence := ?_ }⟩
      · exact (currentView_eq_iff hview).2 h.view
      · exact recordDoubleVote_unchanged_iff.2 (h.evidence hcheck)
  | admitted result view row hcheck hview hpass hresult =>
    constructor
    · rintro ⟨herror, h⟩
      obtain ⟨hlisted, hvoted⟩ := (VoteCollector.record_unchanged_iff
        (c := r.core.voteCollector)).1 ⟨h.votes, h.validatorVotes⟩
      refine ⟨(currentView_eq_iff hview).1 h.view, fun _ m hm => ?_, fun _ _ => ?_⟩
      · rw [doubleVote_eq_none hpass.1] at hm
        cases hm
      · refine ⟨hlisted, hvoted, ?_⟩
        rw [← VoteCollector.addTo_eq hlisted]
        exact hresult.1 herror
    · intro h
      obtain ⟨hlisted, hvoted, hmany⟩ := h.admission hcheck hpass
      obtain ⟨hvotes, hvalidatorVotes⟩ :=
        VoteCollector.record_unchanged_iff.2 ⟨hlisted, hvoted⟩
      refine ⟨hresult.2 ?_, { Untouched.refl r with
        view := (currentView_eq_iff hview).2 h.view
        votes := hvotes
        validatorVotes := hvalidatorVotes }⟩
      rwa [VoteCollector.addTo_eq hlisted]

/-! ### Three forged votes -/

/-- A replica with four validators and two pending blocks; the second validator has voted for
the first block, and the fourth is inactive with the power of its stake. -/
def sampleReplica : Replica :=
  { Replica.new Consensus.sampleStorage with
    core := (Consensus.new Consensus.sampleStorage).run .sample
      [.updateValidatorSet [.sample 1 1, .sample 2 1, .sample 3 1,
          { Validator.sample 4 1 with status := .inactive }],
        .proposal 0 (Consensus.sampleChain 1), .proposal 0 (Consensus.sampleChain 2),
        .vote ⟨2, Env.sample.hash (Consensus.sampleChain 1), 0, .prepare, 0, none, 2⟩] }

def sampleVote (validator : Address) (height view signature : ℕ) : Vote :=
  ⟨validator, Env.sample.hash (Consensus.sampleChain height), view, .prepare, 0, none, signature⟩

theorem forged_refused_sample : sampleReplica.core.validatorSet.Keyed ∧
    Forged .sample sampleReplica.core.validatorSet (sampleVote 3 1 0 99) ∧
    (∃ e, (sampleReplica.processVote .sample (sampleVote 3 1 0 99)).1 = .error e) ∧
      Untouched sampleReplica (sampleReplica.processVote .sample (sampleVote 3 1 0 99)).2 := by
  have hkeyed : sampleReplica.core.validatorSet.Keyed := by decide +kernel
  have hforged : Forged .sample sampleReplica.core.validatorSet (sampleVote 3 1 0 99) := by
    decide +kernel
  have hview : ¬ sampleReplica.core.currentView < (sampleVote 3 1 0 99).view := by decide +kernel
  have haccused : doubleVote .sample sampleReplica.core (sampleVote 3 1 0 99) = none := by
    decide +kernel
  have hcheck : (sampleReplica.core.checkVote .sample (sampleVote 3 1 0 99)).toOption = none := by
    decide +kernel
  refine ⟨hkeyed, hforged, (forged_refused_iff hkeyed hforged).1.2 ⟨fun h => hview h.1, ?_, ?_⟩⟩
  · exact fun _ m hm => absurd (haccused.symm.trans hm) (Option.some_ne_none m).symm
  · rintro - ⟨hok, -⟩
    exact absurd (hcheck.symm.trans (congrArg Except.toOption hok)) (Option.some_ne_none ()).symm

/-- A vote of an unknown sender advances the view, a vote with a wrong signature has an honest
validator accused, and the vote of an inactive validator is collected. -/
theorem forged_moves :
    Forged .sample sampleReplica.core.validatorSet (sampleVote 9 1 5 0) ∧
      sampleReplica.core.currentView = 0 ∧
      (sampleReplica.processVote .sample (sampleVote 9 1 5 0)).2.core.currentView = 5 ∧
      Forged .sample sampleReplica.core.validatorSet (sampleVote 2 2 0 99) ∧
      sampleReplica.slashing.pendingEvidence.entries = [] ∧
      ((sampleReplica.processVote .sample (sampleVote 2 2 0 99)).2.slashing.pendingEvidence.values.map
        Evidence.source) = [.selfDetected ⟨0, 2, .doubleVote 0 (sampleVote 2 1 0 2)
          (sampleVote 2 2 0 99), 0⟩] ∧
      Forged .sample sampleReplica.core.validatorSet (sampleVote 4 1 0 4) ∧
      (sampleReplica.processVote .sample (sampleVote 4 1 0 4)).1.toOption = some none := by
  decide +kernel

end Sxiaum.Replica
