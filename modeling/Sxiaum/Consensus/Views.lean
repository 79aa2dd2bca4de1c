import Sxiaum.Consensus.CertificateFlow

/-!
# Views never fall

Every handler leaves the view counter where it is or raises it, within a `u64`.
-/

namespace Sxiaum.Consensus

variable {env : Env} {s s' s'' : Consensus}

/-- From a view within a `u64`, the view does not fall and stays within a `u64`. -/
def ViewAdvances (s s' : Consensus) : Prop :=
  s.currentView ≤ u64Max → s'.currentView ≤ u64Max ∧ s.currentView ≤ s'.currentView

namespace ViewAdvances

lemma trans (h : ViewAdvances s s') (h' : ViewAdvances s' s'') : ViewAdvances s s'' := by
  intro hbound
  obtain ⟨hbound', hle⟩ := h hbound
  obtain ⟨hbound'', hle'⟩ := h' hbound'
  exact ⟨hbound'', hle.trans hle'⟩

/-- A step that leaves the view alone. -/
lemma of_eq (hview : s'.currentView = s.currentView) : ViewAdvances s s' :=
  fun hbound => ⟨hview ▸ hbound, hview.ge⟩

lemma refl (s : Consensus) : ViewAdvances s s := of_eq rfl

lemma advanceView (s : Consensus) : ViewAdvances s s.advanceView :=
  fun hbound => ⟨min_le_right _ _, le_min (Nat.le_succ _) hbound⟩

/-- The network only ever moves the view up. -/
lemma sync (view : ℕ) : ViewAdvances s (s.syncViewWithNetwork view) := by
  unfold syncViewWithNetwork
  split_ifs with h
  · exact fun _ => ⟨h.2.trans (min_le_right _ _), h.1.le⟩
  · exact refl s

end ViewAdvances

open ViewAdvances

/-! ### Proposals and votes -/

lemma viewAdvances_processBlockProposal (now : ℕ) (block : Block) :
    ViewAdvances s (s.processBlockProposal env now block).2 := by
  have hsync : ViewAdvances s (s.syncToProposer env block.header.proposer).2 := by
    unfold syncToProposer
    split
    · exact refl s
    · split
      · exact (sync _).trans (of_eq rfl)
      · exact refl s
  unfold processBlockProposal
  split
  · exact refl s
  · split
    · rename_i s' heq
      rw [heq] at hsync
      obtain ⟨pending, hadmitted⟩ := @admitProposal_eq env s' block
      rw [hadmitted]
      exact hsync.trans (of_eq rfl)
    · rename_i heq
      rw [heq] at hsync
      exact hsync

lemma viewAdvances_admitVote (vote : Vote) : ViewAdvances s (s.admitVote env vote).2 := by
  have hsync : ViewAdvances s (s.syncToVote vote).2 := by
    unfold syncToVote
    split_ifs
    · exact (sync _).trans (of_eq rfl)
    · exact refl s
    · exact refl s
    · exact refl s
  unfold admitVote
  split
  · rename_i heq
    rw [heq] at hsync
    exact hsync
  · rename_i heq
    rw [heq] at hsync
    split
    · exact hsync
    · split
      · exact hsync
      · exact hsync.trans (of_eq rfl)

/-! ### Certificates -/

/-- A finalization advances the view, or keeps it. -/
lemma viewAdvances_finalizeBlockOnceQuorumReached (hash : Hash) :
    ViewAdvances s (s.finalizeBlockOnceQuorumReached env hash).2 := by
  rcases (@voting_finalizeBlockOnceQuorumReached env s hash).1 with hview | hview
  · exact of_eq hview
  · exact (ViewAdvances.advanceView s).trans (of_eq hview)

lemma viewAdvances_processQuorumCertificate (qc : QuorumCertificate) :
    ViewAdvances s (s.processQuorumCertificate env qc).2 := by
  have hrecord : ViewAdvances s (s.recordCertificate env qc) := by
    rw [recordCertificate_eq]
    exact of_eq rfl
  have heffect := @processQuorumCertificate_effect env s qc
  generalize s.processQuorumCertificate env qc = outcome at heffect ⊢
  cases heffect with
  | rejected hinvalid => exact refl s
  | recorded hvalid e hstop => exact hrecord
  | applied hvalid block hpending advanced hs hrule r hphase =>
    have hcertified : ViewAdvances s (s.certified env qc hs) := hrecord.trans (of_eq rfl)
    cases hphase with
    | failed advanced e hpre hcommit | prepared hqc hverify => exact hcertified
    | locked hqc hverify => exact hcertified.trans (of_eq rfl)
    | finalized hqc hverify r hstate =>
      rw [hstate]
      exact hcertified.trans (viewAdvances_finalizeBlockOnceQuorumReached _)

lemma viewAdvances_processVote (vote : Vote) : ViewAdvances s (s.processVote env vote).2 := by
  have hadmitted := @viewAdvances_admitVote env s vote
  rcases @step_vote env s vote with ⟨-, hstep⟩ | ⟨qc, -, hstep⟩
  · exact (show (s.processVote env vote).2 = _ from hstep) ▸ hadmitted
  · exact (show (s.processVote env vote).2 = _ from hstep) ▸
      hadmitted.trans (viewAdvances_processQuorumCertificate qc)

end Sxiaum.Consensus
