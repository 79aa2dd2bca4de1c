import Sxiaum.Consensus.CertificateFlow
import Sxiaum.Consensus.Collector
import Sxiaum.Consensus.Replacement

/-!
# What a restart restores

`start` over an old storage rebuilds the validator set, the votes, the highest certificate
and the locked block from their rows. The finalized height and the height of the lock
inside `HotStuff` have no row that is read back, jailed and inactive validators are not in
the row of the set, and the row of a vote does not name its phase. So the new instance has
the safety state of the old one exactly if the rows hold it and the rest is as new.
-/

namespace Sxiaum

/-! ### The highest certificate of a scan -/

namespace ConsensusStorage

/-- A row that a scan of the certificates ends with: no row has a higher view, and among
those of its view it is the last. -/
structure LastHighest (st : ConsensusStorage) (key : Hash) (qc : QuorumCertificate) : Prop where
  row : st.qcRows.lookup key = some qc
  highest : ∀ key' qc', st.qcRows.lookup key' = some qc' →
    qc'.view < qc.view ∨ qc'.view = qc.view ∧ key' ≤ key

/-- The block of the highest certificate row; nothing if there are no rows. -/
def HighestRow (st : ConsensusStorage) : Option Hash → Prop
  | none => ∀ key, st.qcRows.lookup key = none
  | some hash => ∃ key qc, st.LastHighest key qc ∧ qc.blockHash = hash

lemma HighestRow.unique {st : ConsensusStorage} {hash hash' : Option Hash}
    (h : st.HighestRow hash) (h' : st.HighestRow hash') : hash = hash' := by
  cases hash with
  | none =>
    cases hash' with
    | none => rfl
    | some _ =>
      obtain ⟨key, qc, hlast, -⟩ := h'
      cases (h key).symm.trans hlast.row
  | some _ =>
    obtain ⟨key, qc, hlast, rfl⟩ := h
    cases hash' with
    | none => cases (h' key).symm.trans hlast.row
    | some _ =>
      obtain ⟨key', qc', hlast', rfl⟩ := h'
      have hkey : key = key' := by
        rcases hlast.highest key' qc' hlast'.row with hlt | ⟨heq, hle⟩
        · rcases hlast'.highest key qc hlast.row with hlt' | ⟨heq', -⟩ <;> omega
        · rcases hlast'.highest key qc hlast.row with hlt' | ⟨-, hle'⟩
          · omega
          · exact le_antisymm hle' hle
      subst hkey
      rw [Option.some.inj (hlast.row.symm.trans hlast'.row)]

end ConsensusStorage

open Consensus in
/-- Over any list, the scan ends with the last certificate among those of the highest view. -/
lemma foldl_scanHighestQc {qcs : List QuorumCertificate} (hne : qcs ≠ []) :
    ∃ before qc after, qcs = before ++ qc :: after ∧
      qcs.foldl scanHighestQc (0, none) = (qc.view, some qc.blockHash) ∧
      (∀ qc' ∈ before, qc'.view ≤ qc.view) ∧ ∀ qc' ∈ after, qc'.view < qc.view := by
  induction qcs using List.reverseRecOn with
  | nil => exact absurd rfl hne
  | append_singleton front last ih =>
    rw [List.foldl_append, List.foldl_cons, List.foldl_nil]
    rcases front.eq_nil_or_concat with rfl | ⟨_, _, hfront⟩
    · exact ⟨[], last, [], rfl, by simp [scanHighestQc], by simp, by simp⟩
    have hfront : front ≠ [] := by simp [hfront]
    obtain ⟨before, qc, after, hsplit, hscan, hbefore, hafter⟩ := ih hfront
    rw [hscan]
    by_cases hview : qc.view ≤ last.view
    · refine ⟨front, last, [], rfl, by simp [scanHighestQc, hview], ?_, by simp⟩
      intro qc' hmem
      rw [hsplit, List.mem_append, List.mem_cons] at hmem
      rcases hmem with hmem | rfl | hmem
      · exact (hbefore qc' hmem).trans hview
      · exact hview
      · exact (hafter qc' hmem).le.trans hview
    · refine ⟨before, qc, after ++ [last], by simp [hsplit], by simp [scanHighestQc, hview],
        hbefore, ?_⟩
      intro qc' hmem
      rcases List.mem_append.1 hmem with hmem | hmem
      · exact hafter qc' hmem
      · rw [List.mem_singleton.1 hmem]
        exact not_le.1 hview

instance : Std.Total ConsensusStorage.QcRowOrder where
  total a b := le_total a.1 b.1

instance : IsTrans _ ConsensusStorage.QcRowOrder where
  trans _ _ _ h h' := Nat.le_trans h h'

open Consensus in
lemma ConsensusStorage.highestRow_scanQcs (st : ConsensusStorage) :
    st.HighestRow (st.scanQcs.foldl scanHighestQc (0, none)).2 := by
  have hrows : ∀ key qc, st.qcRows.lookup key = some qc ↔
      ⟨key, qc⟩ ∈ st.qcRows.entries.insertionSort QcRowOrder := fun key qc =>
    AList.mem_lookup_iff.trans (List.mem_insertionSort QcRowOrder).symm
  have hsorted := List.pairwise_insertionSort QcRowOrder st.qcRows.entries
  unfold scanQcs
  generalize st.qcRows.entries.insertionSort QcRowOrder = rows at hrows hsorted
  rcases eq_or_ne rows [] with rfl | hne
  · intro key
    exact Option.eq_none_iff_forall_ne_some.2 fun qc hqc => by simpa using (hrows key qc).1 hqc
  · obtain ⟨before, qc, after, hsplit, hscan, hbefore, hafter⟩ :=
      foldl_scanHighestQc (by simpa using hne : rows.map Sigma.snd ≠ [])
    obtain ⟨rowsBefore, rest, rfl, rfl, hrest⟩ := List.map_eq_append_iff.1 hsplit
    obtain ⟨⟨key, _⟩, rowsAfter, rfl, rfl, rfl⟩ := List.map_eq_cons_iff.1 hrest
    rw [hscan]
    refine ⟨key, _, ⟨(hrows _ _).2 (by simp), fun key' qc' hrow => ?_⟩, rfl⟩
    rcases List.mem_append.1 ((hrows _ _).1 hrow) with hmem | hmem
    · have hkey : key' ≤ key :=
        (List.pairwise_append.1 hsorted).2.2 _ hmem _ List.mem_cons_self
      rcases (hbefore qc' (List.mem_map_of_mem hmem)).lt_or_eq with hlt | heq
      · exact .inl hlt
      · exact .inr ⟨heq, hkey⟩
    · rcases List.mem_cons.1 hmem with heq | hmem
      · cases heq
        exact .inr ⟨rfl, le_rfl⟩
      · exact .inl (hafter qc' (List.mem_map_of_mem hmem))

/-! ### The votes of a scan -/

namespace VoteCollector

variable {env : Env} {c : VoteCollector} {vote : Vote}

/-- The collector holds the vote. -/
def Recorded (c : VoteCollector) (vote : Vote) : Prop :=
  ∃ votes, c.votes.lookup (vote.view, vote.blockHash, vote.phase) = some votes ∧ vote ∈ votes

/-- Every vote of the lists is in the index by validator. -/
def Indexed (c : VoteCollector) : Prop :=
  ∀ view hash phase votes, c.votes.lookup (view, hash, phase) = some votes →
    ∀ vote ∈ votes, c.validatorVotes.lookup (view, phase, vote.validator) = some hash

/-- No vote of the validator in the view is in the index. -/
def Unseen (c : VoteCollector) (view : ℕ) (validator : Address) : Prop :=
  ∀ phase, c.validatorVotes.lookup (view, phase, validator) = none

lemma recorded_iff : c.Recorded vote ↔ vote ∈ c.votesFor vote.key := mem_votesFor.symm

lemma Indexed.lookup (h : c.Indexed) {key : ℕ × Hash × VotePhase} (hvote : vote ∈ c.votesFor key) :
    c.validatorVotes.lookup (key.1, key.2.2, vote.validator) = some key.2.1 := by
  obtain ⟨votes, hvotes, hmem⟩ := mem_votesFor.1 hvote
  exact h _ _ _ votes hvotes vote hmem

/-- A vote of a validator that has voted for no other block keeps the index complete. -/
lemma Indexed.record (h : c.Indexed)
    (hone : ∀ hash, c.validatorVotes.lookup (vote.view, vote.phase, vote.validator) = some hash →
      hash = vote.blockHash) : (c.record vote).Indexed := by
  intro view hash phase votes hlookup w hw
  rcases mem_votesFor_record (mem_votesFor.2 ⟨votes, hlookup, hw⟩) with hold | ⟨hkey, rfl⟩
  · have hentry := h.lookup hold
    by_cases hsame : (view, phase, w.validator) = (vote.view, vote.phase, vote.validator)
    · rw [hsame] at hentry ⊢
      rw [hone hash hentry]
      exact AList.lookup_insert _
    · exact (AList.lookup_insert_ne hsame).trans hentry
  · cases hkey
    exact AList.lookup_insert _

section

variable (hunseen : c.Unseen vote.view vote.validator)

include hunseen

lemma addVote_of_unseen : c.addVote env vote = .ok (c.record vote) := by
  have hreveal : c.checkReveal env vote = .ok () := by
    unfold checkReveal getValidatorVoteForPhase
    simp [hunseen .prepare]
  unfold addVote
  rw [hunseen vote.phase, hreveal]
  rfl

/-- The vote of an unseen validator goes to the end of its list. -/
lemma recorded_record (hindexed : c.Indexed) (vote' : Vote) :
    (c.record vote).Recorded vote' ↔ c.Recorded vote' ∨ vote' = vote := by
  rw [recorded_iff, recorded_iff, votesFor_record]
  split_ifs with hkey
  · rw [hkey, addTo, if_neg, List.mem_append, List.mem_singleton]
    intro hany
    obtain ⟨w, hw, hvalidator⟩ := List.any_eq_true.1 hany
    have hindex := hindexed.lookup hw
    rw [of_decide_eq_true hvalidator] at hindex
    cases (hunseen vote.phase).symm.trans hindex
  · have hne : vote' ≠ vote := fun h => hkey (h ▸ rfl)
    simp [hne]

end

open Consensus in
lemma recorded_foldl_restoreVote {votes : List Vote} (hindexed : c.Indexed)
    (hunseen : ∀ vote ∈ votes, c.Unseen vote.view vote.validator)
    (hone : votes.Pairwise fun v w => (v.view, v.validator) ≠ (w.view, w.validator))
    (vote : Vote) :
    (votes.foldl (restoreVote env) c).Recorded vote ↔ c.Recorded vote ∨ vote ∈ votes := by
  induction votes generalizing c with
  | nil => simp
  | cons v rest ih =>
    obtain ⟨hfirst, hrest⟩ := List.pairwise_cons.1 hone
    have hv := hunseen v List.mem_cons_self
    have hrestore : restoreVote env c v = c.record v := by
      rw [restoreVote, addVote_of_unseen hv]
    have hrecord := hindexed.record fun hash hhash => by cases (hv v.phase).symm.trans hhash
    rw [List.foldl_cons, hrestore, ih hrecord ?_ hrest, recorded_record hv hindexed,
      List.mem_cons, or_assoc]
    intro w hw phase
    have hkey : (w.view, phase, w.validator) ≠ (v.view, v.phase, v.validator) := by
      have := hfirst w hw
      grind
    rw [record, AList.lookup_insert_ne hkey]
    exact hunseen w (List.mem_cons_of_mem _ hw) phase

lemma indexed_empty : empty.Indexed := fun view hash phase votes h => by
  simp [empty] at h

end VoteCollector

/-! ### The safety state -/

namespace ConsensusStorage

/-- The row of the validator set lists exactly the validators of a set, and they pass the
checks of a replacement. -/
def Lists (env : Env) (st : ConsensusStorage) (set : ValidatorSet) : Prop :=
  match st.validatorSetRow with
  | none => ∀ a, set.validator a = none
  | some vs => (∃ stored, ValidatorSet.replaceValidators env vs = .ok stored) ∧
      ∀ a v, set.validator a = some v ↔ v ∈ vs ∧ v.address = a

/-- A validator has one vote row at most in each view. -/
def OneVoteRow (st : ConsensusStorage) : Prop :=
  ∀ key key' vote vote', st.voteRows.lookup key = some vote → st.voteRows.lookup key' = some vote' →
    (vote.view, vote.validator) = (vote'.view, vote'.validator) → key = key'

variable {env : Env} {st : ConsensusStorage} {set : ValidatorSet}

lemma lists_iff : st.Lists env set ↔ ∃ stored,
    (Consensus.new st).start env = (.ok (), Consensus.restored env st stored) ∧
      ∀ a, stored.validator a = set.validator a := by
  have hlists : st.Lists env set ↔ ∃ stored, Consensus.storedSet env st = .ok stored ∧
      ∀ a, stored.validator a = set.validator a := by
    unfold Lists Consensus.storedSet
    cases st.validatorSetRow with
    | none => simp [ValidatorSet.validator, ValidatorSet.empty, eq_comm]
    | some vs =>
      constructor
      · rintro ⟨⟨stored, hstored⟩, hlists⟩
        refine ⟨stored, hstored, fun a => Option.ext fun v => ?_⟩
        rw [ValidatorSet.validator_replaceValidators hstored, hlists]
      · rintro ⟨stored, hstored, hsame⟩
        refine ⟨⟨stored, hstored⟩, fun a v => ?_⟩
        rw [← hsame, ValidatorSet.validator_replaceValidators hstored]
  rw [hlists]
  rcases @Consensus.start_new env st with ⟨e, hset, hstart⟩ | ⟨stored, hset, hstart⟩
  · simp [hset, hstart]
  · simp [hset, hstart, Consensus.restored]

lemma Lists.keyed (h : st.Lists env set) : set.Keyed := by
  unfold Lists at h
  intro a v hv
  split at h
  · cases (h a).symm.trans hv
  · exact ((h.2 a v).1 hv).2

lemma recorded_scanVotes (hone : st.OneVoteRow) (vote : Vote) :
    (st.scanVotes.foldl (Consensus.restoreVote env) .empty).Recorded vote ↔
      vote ∈ st.voteRows.values := by
  have hperm : (st.voteRows.entries.insertionSort VoteRowOrder).Perm st.voteRows.entries :=
    List.perm_insertionSort ..
  have hmem : ∀ v, v ∈ st.scanVotes ↔ v ∈ st.voteRows.values := fun v => (hperm.map _).mem_iff
  have hdistinct : st.scanVotes.Pairwise fun v w =>
      (v.view, v.validator) ≠ (w.view, w.validator) := by
    have hkeys := List.nodupKeys_iff_pairwise.1 st.voteRows.nodupKeys
    unfold scanVotes
    rw [List.pairwise_map]
    refine ((hperm.pairwise_iff Ne.symm).2 hkeys).imp_of_mem fun {e e'} he he' hne heq => hne ?_
    exact hone e.1 e'.1 e.2 e'.2 (AList.mem_lookup_iff.2 (hperm.mem_iff.1 he))
      (AList.mem_lookup_iff.2 (hperm.mem_iff.1 he')) heq
  rw [VoteCollector.recorded_foldl_restoreVote VoteCollector.indexed_empty ?_ hdistinct, hmem]
  · simp [VoteCollector.Recorded, VoteCollector.empty]
  · intro v _ phase
    simp [VoteCollector.empty]

end ConsensusStorage

namespace ValidatorSet

variable {env : Env} {set set' : ValidatorSet}

lemma getProposer_congr (h : set'.activeValidators = set.activeValidators) (view : ℕ)
    (seed : Hash) : set'.getProposer env view seed = set.getProposer env view seed := by
  unfold getProposer selectLeaderWeighted leaderSelection totalActiveVotingPower
  rw [h]

end ValidatorSet

namespace Consensus

variable {env : Env} {s : Consensus}

/-- A new instance has the safety state of an old one. -/
structure SameSafety (old new : Consensus) : Prop where
  finalizedBlockHeight : new.finalizedBlockHeight = old.finalizedBlockHeight
  lockedBlock : new.hotstuff.lockedBlock = old.hotstuff.lockedBlock
  lockedBlockHeight : new.hotstuff.lockedBlockHeight = old.hotstuff.lockedBlockHeight
  highestQcBlock : new.highestQcBlock = old.highestQcBlock
  validators : ∀ a, new.validatorSet.validator a = old.validatorSet.validator a
  votes : ∀ vote, old.voteCollector.Recorded vote → new.voteCollector.Recorded vote

/-- The storage holds the safety state: nothing is finalized and no height is locked, and the
rows have the locked block, the highest certificate, the validators and the votes. -/
structure RowsHold (env : Env) (s : Consensus) : Prop where
  finalizedBlockHeight : s.finalizedBlockHeight = 0
  lockedBlockHeight : s.hotstuff.lockedBlockHeight = none
  lockedBlock : s.storage.lockedBlockRow = s.hotstuff.lockedBlock
  highestQcBlock : s.storage.HighestRow s.highestQcBlock
  validators : s.storage.Lists env s.validatorSet
  votes : ∀ vote, s.voteCollector.Recorded vote → vote ∈ s.storage.voteRows.values

/-- No block is in memory, and the rows have the view and the height that proposals are
compared with. -/
structure Quiet (s : Consensus) : Prop where
  pendingBlocks : s.pendingBlocks = ∅
  committedBlocks : s.committedBlocks = ∅
  finalizedBlocks : s.finalizedBlocks = none
  currentView : s.storage.currentViewRow.getD 0 = s.currentView
  lockedBlockHeight :
    (s.storage.lockedBlockRow.bind fun _ => s.storage.lockedBlockHeightRow) = s.lockedBlockHeight

lemma sameSafety_restored_iff (hone : s.storage.OneVoteRow) {set : ValidatorSet} :
    SameSafety s (restored env s.storage set) ↔
      s.finalizedBlockHeight = 0 ∧ s.hotstuff.lockedBlockHeight = none ∧
      s.storage.lockedBlockRow = s.hotstuff.lockedBlock ∧
      s.storage.HighestRow s.highestQcBlock ∧
      (∀ a, set.validator a = s.validatorSet.validator a) ∧
      ∀ vote, s.voteCollector.Recorded vote → vote ∈ s.storage.voteRows.values := by
  have hhighest := s.storage.highestRow_scanQcs
  have hvotes := @ConsensusStorage.recorded_scanVotes env _ hone
  constructor
  · rintro ⟨hfinal, hlock, hheight, hqc, hset, hrecorded⟩
    refine ⟨hfinal.symm, hheight.symm, hlock, ?_, hset, fun vote hvote => ?_⟩
    · rw [← hqc]
      exact hhighest
    · exact (hvotes vote).1 (hrecorded vote hvote)
  · rintro ⟨hfinal, hheight, hlock, hqc, hset, hrows⟩
    exact ⟨hfinal.symm, hlock, hheight.symm, hhighest.unique hqc, hset,
      fun vote hvote => (hvotes vote).2 (hrows vote hvote)⟩

/-- With no block in memory, a proposal is accepted if it passes the checks and its proposer
leads a view in the search window. -/
lemma processBlockProposal_quiet (hpending : s.pendingBlocks = ∅)
    (hfinalized : s.finalizedBlocks = none) (now : ℕ) (block : Block) :
    (s.processBlockProposal env now block).1 =
      (s.checkProposal env now block).bind fun _ =>
        (s.syncToProposer env block.header.proposer).1 := by
  obtain ⟨view, viewRow, hsync⟩ := @syncToProposer_eq env s block.header.proposer
  unfold processBlockProposal
  cases s.checkProposal env now block with
  | error e => rfl
  | ok _ =>
    rcases hresult : s.syncToProposer env block.header.proposer with ⟨_ | _, s'⟩
    · rfl
    · rw [hresult] at hsync
      obtain rfl : s' = _ := hsync
      simp [admitProposal, detectConflictingProposal, isConflictingBranch, detectFork, siblings,
        hpending, hfinalized, AList.values, Except.bind]

/-- What an empty instance answers to a proposal depends on the validators and not on the rest
of the voting state. -/
lemma processBlockProposal_congr (hpending : s.pendingBlocks = ∅)
    (hfinalized : s.finalizedBlocks = none) {set : ValidatorSet} {hs : HotStuff}
    (hset : ∀ a, set.validator a = s.validatorSet.validator a)
    (hactive : set.activeValidators = s.validatorSet.activeValidators)
    (hlock : hs.lockedBlock = s.hotstuff.lockedBlock) (c : VoteCollector) (missed : MissedSlots)
    (now : ℕ) (block : Block) :
    ({ s with validatorSet := set, hotstuff := hs, voteCollector := c, missedSlots := missed
        }.processBlockProposal env now block).1 = (s.processBlockProposal env now block).1 := by
  let s' : Consensus :=
    { s with validatorSet := set, hotstuff := hs, voteCollector := c, missedSlots := missed }
  change (s'.processBlockProposal env now block).1 = _
  have hcheck : s'.checkProposal env now block = s.checkProposal env now block := by
    have hparent : s'.validateProposalParent env block = s.validateProposalParent env block := rfl
    have hproposer : ∀ a, s'.validatorSet.validator a = s.validatorSet.validator a := hset
    have hlocked : s'.hotstuff.lockedBlock = s.hotstuff.lockedBlock := hlock
    simp only [checkProposal, hparent, hproposer, hlocked]
    rfl
  have hleader : ∀ view, s'.validatorSet.getProposer env view (s'.leaderSeed env) =
      s.validatorSet.getProposer env view (s.leaderSeed env) := fun view =>
    ValidatorSet.getProposer_congr hactive view _
  have hcount : s'.validatorSet.activeValidatorCount = s.validatorSet.activeValidatorCount :=
    congrArg List.length hactive
  have hsync : (s'.syncToProposer env block.header.proposer).1 =
      (s.syncToProposer env block.header.proposer).1 := by
    have hcurrent : s'.currentLeader env = s.currentLeader env := hleader s.currentView
    have hled : s'.viewLedBy env block.header.proposer = s.viewLedBy env block.header.proposer := by
      unfold viewLedBy
      simp only [hleader, hcount]
      rfl
    unfold syncToProposer
    rw [hcurrent, hled]
    split_ifs
    · rfl
    · split <;> rfl
  rw [@processBlockProposal_quiet env s' hpending hfinalized,
    processBlockProposal_quiet hpending hfinalized, hcheck, hsync]

/-- For every state in which no validator has two vote rows of one view: a restart succeeds and
has the safety state of the old instance if and only if the rows hold it. In that case, and if
no block was in memory, it accepts a proposal or a certificate only if the old one does. -/
theorem restart_sameSafety_iff (hone : s.storage.OneVoteRow) :
    ((s.restart env).1 = .ok () ∧ SameSafety s (s.restart env).2 ↔ RowsHold env s) ∧
    (RowsHold env s → Quiet s →
      (∀ now block, ((s.restart env).2.processBlockProposal env now block).1 = .ok () →
        (s.processBlockProposal env now block).1 = .ok ()) ∧
      ∀ qc phase, ((s.restart env).2.processQuorumCertificate env qc).1 = .ok phase →
        (s.processQuorumCertificate env qc).1 = .ok phase) := by
  unfold restart
  constructor
  · constructor
    · rintro ⟨hok, hsame⟩
      rcases @start_new env s.storage with ⟨e, -, hstart⟩ | ⟨set, -, hstart⟩
      · rw [hstart] at hok
        cases hok
      · rw [hstart] at hsame
        obtain ⟨hfinal, hheight, hlock, hqc, hvalidators, hvotes⟩ :=
          (sameSafety_restored_iff hone).1 hsame
        exact ⟨hfinal, hheight, hlock, hqc,
          ConsensusStorage.lists_iff.2 ⟨set, hstart, hvalidators⟩, hvotes⟩
    · intro hrows
      obtain ⟨set, hstart, hvalidators⟩ := ConsensusStorage.lists_iff.1 hrows.validators
      rw [hstart]
      exact ⟨rfl, (sameSafety_restored_iff hone).2 ⟨hrows.finalizedBlockHeight,
        hrows.lockedBlockHeight, hrows.lockedBlock, hrows.highestQcBlock, hvalidators,
        hrows.votes⟩⟩
  · intro hrows hquiet
    obtain ⟨set, hstart, hvalidators⟩ := ConsensusStorage.lists_iff.1 hrows.validators
    rw [hstart]
    refine ⟨fun now block haccepted => ?_, fun qc phase haccepted => ?_⟩
    rotate_left
    · -- a new instance knows no block, so it accepts no certificate
      have hnone : ((restored env s.storage set).recordCertificate env qc).pendingBlocks = ∅ :=
        recordCertificate_pendingBlocks
      unfold processQuorumCertificate at haccepted
      split_ifs at haccepted
      simp only [hnone, AList.lookup_empty, reduceCtorEq] at haccepted
    have hnew : restored env s.storage set = { s with
        validatorSet := set
        hotstuff := (restored env s.storage set).hotstuff
        voteCollector := (restored env s.storage set).voteCollector
        missedSlots := fun _ => 0 } := by
      have hhighest := s.storage.highestRow_scanQcs.unique hrows.highestQcBlock
      simp only [restored, new, hhighest, hquiet.currentView, hquiet.lockedBlockHeight,
        hquiet.pendingBlocks, hquiet.committedBlocks, hquiet.finalizedBlocks,
        hrows.finalizedBlockHeight]
    rw [hnew] at haccepted
    rwa [processBlockProposal_congr hquiet.pendingBlocks hquiet.finalizedBlocks hvalidators
      (ValidatorSet.activeValidators_congr hrows.validators.keyed hvalidators)
      hrows.lockedBlock] at haccepted

def sampleVote (phase : VotePhase) : Vote where
  validator := 1
  blockHash := Env.sample.hash (sampleChain 1)
  view := 0
  phase := phase
  entropyCommit := 0
  entropyReveal := none
  signature := 1

/-- A replica that has taken a vote and restarted. -/
@[irreducible] def idleReplica : Consensus :=
  ((run .sample ((new sampleStorage).start .sample).2
    [.updateValidatorSet [.sample 1 1, .sample 2 1], .proposal 0 (sampleChain 1),
      .vote (sampleVote .prepare)]).restart .sample).2

/-- It restarts again with its safety state, and then accepts a proposal only if it did before. -/
theorem restart_sameSafety_idle :
    idleReplica.voteCollector.Recorded (sampleVote .prepare) ∧ idleReplica.storage.OneVoteRow ∧
      (idleReplica.restart .sample).1 = .ok () ∧
      SameSafety idleReplica (idleReplica.restart .sample).2 ∧
      ∀ now block, ((idleReplica.restart .sample).2.processBlockProposal .sample now block).1 =
        .ok () → (idleReplica.processBlockProposal .sample now block).1 = .ok () := by
  have hvoteRows : idleReplica.storage.voteRows.entries =
      [⟨(0, 1, Env.sample.hash (sampleChain 1)), sampleVote .prepare⟩] := by decide +kernel
  have hqcRows : idleReplica.storage.qcRows = ∅ := AList.ext (by decide +kernel)
  have hvotes : idleReplica.voteCollector.votes.entries =
      [⟨(sampleVote .prepare).key, [sampleVote .prepare]⟩] := by decide +kernel
  have hone : idleReplica.storage.OneVoteRow := by
    intro key key' vote vote' hvote hvote' _
    rw [← Option.mem_def, AList.mem_lookup_iff, hvoteRows, List.mem_singleton] at hvote hvote'
    cases hvote
    cases hvote'
    rfl
  have hlists : idleReplica.storage.Lists .sample idleReplica.validatorSet := by
    have hrow : idleReplica.storage.validatorSetRow = some [.sample 1 1, .sample 2 1] := by
      decide +kernel
    have hset : ValidatorSet.replaceValidators .sample [.sample 1 1, .sample 2 1] =
        .ok idleReplica.validatorSet := by decide +kernel
    rw [ConsensusStorage.Lists, hrow]
    exact ⟨⟨_, hset⟩, ValidatorSet.validator_replaceValidators hset⟩
  have hrows : RowsHold .sample idleReplica := by
    refine ⟨by decide +kernel, by decide +kernel, by decide +kernel, ?_, hlists, ?_⟩
    · have hnone : idleReplica.highestQcBlock = none := by decide +kernel
      rw [hnone]
      intro key
      simp [hqcRows]
    · rintro vote ⟨votes, hlookup, hvote⟩
      rw [← Option.mem_def, AList.mem_lookup_iff, hvotes, List.mem_singleton] at hlookup
      obtain ⟨-, heq⟩ := Sigma.mk.inj_iff.1 hlookup
      rw [eq_of_heq heq] at hvote
      rw [List.mem_singleton.1 hvote]
      decide +kernel
  have hquiet : Quiet idleReplica :=
    ⟨AList.ext (by decide +kernel), AList.ext (by decide +kernel), by decide +kernel,
      by decide +kernel, by decide +kernel⟩
  have hspec := @restart_sameSafety_iff .sample idleReplica hone
  obtain ⟨hok, hsame⟩ := hspec.1.2 hrows
  have hrecorded : idleReplica.voteCollector.Recorded (sampleVote .prepare) :=
    ⟨_, by decide +kernel, List.mem_singleton_self _⟩
  exact ⟨hrecorded, hone, hok, hsame, (hspec.2 hrows hquiet).1⟩

/-! ### What is lost -/

def finalizedReplica : Consensus :=
  run .sample ((new sampleStorage).start .sample).2
    ([.updateValidatorSet [.sample 1 1], .proposal 0 (sampleChain 1)] ++
      sampleCertificates (sampleChain 1))

/-- The certificates that finalize a block of the sample chain in a view. -/
def certificatesIn (view : ℕ) (block : Block) : List Input :=
  [VotePhase.prepare, .preCommit, .commit].map fun phase =>
    .certificate (.sample block view phase [1, 2])

def jailingReplica : Consensus :=
  run .sample ((new sampleStorage).start .sample).2
    ([.updateValidatorSet [.sample 1 1, .sample 2 1], .proposal 0 (sampleChain 1)] ++
      certificatesIn 0 (sampleChain 1) ++ [.proposal 0 (sampleChain 2)] ++
      certificatesIn 12 (sampleChain 2))

def votingReplica : Consensus :=
  run .sample ((new sampleStorage).start .sample).2
    [.updateValidatorSet [.sample 1 1, .sample 2 1], .proposal 0 (sampleChain 1),
      .vote (sampleVote .prepare), .vote (sampleVote .preCommit)]

/-- A restart forgets the finalized height and the height of the lock, and the new instance
takes the finalized block again; a jailed validator is active again; and of two votes of one
validator for a block in two phases only the second is left. -/
theorem restart_forgets :
    (Reachable .sample finalizedReplica ∧ (finalizedReplica.restart .sample).1 = .ok () ∧
      finalizedReplica.finalizedBlockHeight = 1 ∧
      (finalizedReplica.restart .sample).2.finalizedBlockHeight = 0 ∧
      finalizedReplica.hotstuff.lockedBlockHeight = some 1 ∧
      (finalizedReplica.restart .sample).2.hotstuff.lockedBlockHeight = none ∧
      (finalizedReplica.processBlockProposal .sample 0 (sampleChain 1)).1 =
        .error .notAboveFinalized ∧
      ((finalizedReplica.restart .sample).2.processBlockProposal .sample 0 (sampleChain 1)).1 =
        .ok ()) ∧
    (Reachable .sample jailingReplica ∧ (jailingReplica.restart .sample).1 = .ok () ∧
      (jailingReplica.validatorSet.validator 1).map Validator.status = some .jailed ∧
      ((jailingReplica.restart .sample).2.validatorSet.validator 1).map Validator.status =
        some .active) ∧
    (Reachable .sample votingReplica ∧ (votingReplica.restart .sample).1 = .ok () ∧
      votingReplica.voteCollector.getValidatorVoteForPhase 0 .prepare 1 =
        some (sampleVote .prepare) ∧
      (votingReplica.restart .sample).2.voteCollector.getValidatorVoteForPhase 0 .prepare 1 =
        none) := by
  have hstart := @Reachable.start .sample sampleStorage
  refine ⟨⟨hstart.run _, ?_⟩, ⟨hstart.run _, ?_⟩, hstart.run _, ?_⟩
  · decide +kernel
  · decide +kernel
  · decide +kernel

end Consensus

end Sxiaum
