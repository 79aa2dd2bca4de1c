import Sxiaum.Consensus.Vote

/-!
# The votes of a collector

The list that a collector keeps for a view, block and phase, what recording a vote does to it,
and the certificate that is built from it.
-/

namespace Sxiaum

/-- The key under which a collector keeps a vote. -/
def Vote.key (vote : Vote) : ℕ × Hash × VotePhase := (vote.view, vote.blockHash, vote.phase)

namespace VoteCollector

variable {c : VoteCollector} {vote : Vote} {votes : List Vote}

def votesFor (c : VoteCollector) (key : ℕ × Hash × VotePhase) : List Vote :=
  (c.votes.lookup key).getD []

/-- A list of votes with one more, unless it has one of the same validator. -/
def addTo (votes : List Vote) (vote : Vote) : List Vote :=
  if votes.any (·.validator = vote.validator) then votes else votes ++ [vote]

lemma votesFor_record (key : ℕ × Hash × VotePhase) : (c.record vote).votesFor key =
    if key = vote.key then addTo (c.votesFor key) vote else c.votesFor key := by
  unfold votesFor
  split_ifs with hkey
  · subst hkey
    exact congrArg (Option.getD · []) (AList.lookup_insert (c.votes))
  · exact congrArg (Option.getD · []) (AList.lookup_insert_ne hkey)

lemma addTo_eq (h : votes.any (·.validator = vote.validator) = true) : addTo votes vote = votes :=
  if_pos h

lemma mem_addTo {w : Vote} (h : w ∈ addTo votes vote) : w ∈ votes ∨ w = vote := by
  unfold addTo at h
  split_ifs at h
  · exact .inl h
  · simpa using h

lemma mem_votesFor {key : ℕ × Hash × VotePhase} {w : Vote} :
    w ∈ c.votesFor key ↔ ∃ votes, c.votes.lookup key = some votes ∧ w ∈ votes := by
  unfold votesFor
  cases c.votes.lookup key <;> simp

lemma mem_votesFor_record {key : ℕ × Hash × VotePhase} {w : Vote}
    (h : w ∈ (c.record vote).votesFor key) : w ∈ c.votesFor key ∨ key = vote.key ∧ w = vote := by
  rw [votesFor_record] at h
  split_ifs at h with hkey
  · exact (mem_addTo h).imp_right fun hw => ⟨hkey, hw⟩
  · exact .inl h

lemma exists_mem_addTo (votes : List Vote) (vote : Vote) :
    ∃ w ∈ addTo votes vote, w.validator = vote.validator := by
  unfold addTo
  split_ifs with hany
  · simpa using hany
  · exact ⟨vote, by simp, rfl⟩

def certificate (key : ℕ × Hash × VotePhase) (votes : List Vote) : QuorumCertificate where
  blockHash := key.2.1
  view := key.1
  phase := key.2.2
  aggregatedEntropy := aggregateEntropy votes
  signatures := votes.map fun v => .ed25519 v.signature
  validators := votes.map Vote.validator

lemma build_record (threshold : ℕ) :
    (c.record vote).buildQuorumCertificateForPhase vote.view vote.blockHash vote.phase threshold =
      if (addTo (c.votesFor vote.key) vote).length < threshold then none
      else some (certificate vote.key (addTo (c.votesFor vote.key) vote)) := by
  have hlookup : (c.record vote).votes.lookup (vote.view, vote.blockHash, vote.phase) =
      some (addTo (c.votesFor vote.key) vote) := AList.lookup_insert _
  unfold buildQuorumCertificateForPhase
  rw [hlookup]
  rfl

/-- Recording a vote changes nothing exactly if the collector holds one of its validator for the
same block, in both of its maps. -/
lemma record_unchanged_iff :
    ((∀ key, (c.record vote).votes.lookup key = c.votes.lookup key) ∧
        ∀ key, (c.record vote).validatorVotes.lookup key = c.validatorVotes.lookup key) ↔
      (c.votesFor vote.key).any (·.validator = vote.validator) = true ∧
        c.validatorVotes.lookup (vote.view, vote.phase, vote.validator) = some vote.blockHash := by
  have hvotes : (c.record vote).votes.lookup vote.key =
      some (addTo (c.votesFor vote.key) vote) := AList.lookup_insert _
  have hvalidator : (c.record vote).validatorVotes.lookup
      (vote.view, vote.phase, vote.validator) = some vote.blockHash := AList.lookup_insert _
  constructor
  · rintro ⟨h, h'⟩
    refine ⟨?_, (h' _).symm.trans hvalidator⟩
    by_contra hany
    have hkept := (h vote.key).symm.trans hvotes
    have hsame : c.votesFor vote.key = addTo (c.votesFor vote.key) vote :=
      congrArg (Option.getD · []) hkept
    rw [addTo, if_neg hany] at hsame
    simpa using congrArg List.length hsame
  · rintro ⟨hany, h'⟩
    refine ⟨fun key => ?_, fun key => ?_⟩
    · by_cases hkey : key = vote.key
      · subst hkey
        rw [hvotes, addTo, if_pos hany, votesFor]
        cases hlookup : c.votes.lookup vote.key with
        | none => simp [votesFor, hlookup] at hany
        | some votes => rfl
      · exact AList.lookup_insert_ne hkey
    · by_cases hkey : key = (vote.view, vote.phase, vote.validator)
      · rw [hkey, hvalidator, h']
      · exact AList.lookup_insert_ne hkey

end VoteCollector

end Sxiaum
