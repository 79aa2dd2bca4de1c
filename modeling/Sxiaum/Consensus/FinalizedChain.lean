import Sxiaum.Consensus.PendingChain

/-!
# The finalized chain

The blocks a replica finalizes, in the order it finalizes them. `finalize_block` asks only
that heights grow, so a certificate for a higher pending block leaves a gap; apart from such
gaps the finalized blocks form one chain.
-/

namespace Sxiaum.Consensus

open BlockState

variable {env : Env} {s : Consensus}

/-! ### One step -/

/-- Proposed heights below the largest `u64`, where `saturating_add` is addition. -/
def Input.InRange : Input → Prop
  | .proposal _ block => block.height < u64Max
  | _ => True

instance : DecidablePred Input.InRange
  | .proposal _ block => inferInstanceAs (Decidable (block.height < u64Max))
  | .vote _ | .certificate _ | .timeout | .newView _ | .updateValidatorSet _ | .stop =>
    inferInstanceAs (Decidable True)

/-- A step keeps the pending chain, and finalizes exactly the block of a certificate that
`Finalizes` describes. -/
theorem step_spec (hinj : Function.Injective env.hashHeader) (hwf : s.blocks.WellFormed env)
    {i : Input} (hrange : i.InRange) :
    (s.step env i).blocks.WellFormed env ∧
      (((∀ qc ∈ s.certificateOf env i, ∀ b, ¬ Finalizes env s qc b) ∧
          (s.step env i).finalizedBlocks = s.finalizedBlocks) ∨
        ∃ qc ∈ s.certificateOf env i, ∃ b, Finalizes env s qc b ∧
          (s.step env i).finalizedBlocks = some (b.height, b)) := by
  cases hqc : s.certificateOf env i with
  | none =>
    rcases step_of_certificateOf_none hqc with ⟨now, block, rfl⟩ | ⟨_, _, _, _, _, _, heq⟩
    · refine ⟨wellFormed_proposal hinj hwf now hrange, .inl ⟨by simp, ?_⟩⟩
      obtain ⟨_, _, _, heq⟩ := @processBlockProposal_eq env s block now
      rw [step, heq]
    · rw [heq]
      exact ⟨hwf, .inl ⟨by simp, rfl⟩⟩
  | some qc =>
    simp only [Option.mem_some, forall_eq', exists_eq_left']
    rcases step_blocks_of_certificateOf hinj hwf.placed hqc with
      ⟨hnot, heq | heq⟩ | ⟨b, hb, heq⟩
    · exact ⟨heq ▸ hwf, .inl ⟨hnot, congrArg finalized heq⟩⟩
    · obtain ⟨highest, hcert⟩ := @certify_eq env s.blocks qc.blockHash
      exact ⟨heq ▸ hwf.certify _, .inl ⟨hnot, congrArg finalized (heq.trans hcert)⟩⟩
    · have hpend : b ∈ (s.blocks.certify env qc.blockHash).pendingSet := by
        rw [pendingSet, certify_pending]
        exact AList.mem_values.2 ⟨_, hb.pending⟩
      exact ⟨heq ▸ (hwf.certify _).finalize hinj hpend, .inr ⟨b, hb, congrArg finalized heq⟩⟩

/-! ### The finalized chain of a run -/

def finalizedBy (s s' : Consensus) : Option Block :=
  if s'.finalizedBlocks = s.finalizedBlocks then none else s'.finalizedBlocks.map Prod.snd

def finalizedChain (env : Env) (s : Consensus) : List Input → List Block
  | [] => []
  | i :: rest =>
    (finalizedBy s (s.step env i)).toList ++ finalizedChain env (s.step env i) rest

/-- Each block is one above the block before it and names it as its parent. -/
def UnbrokenChain (env : Env) (blocks : List Block) : Prop :=
  blocks.IsChain fun a b => b.height = a.height + 1 ∧ b.parentHash = env.hash a

instance (blocks : List Block) : Decidable (UnbrokenChain env blocks) :=
  inferInstanceAs (Decidable (List.IsChain _ blocks))

/-- No certificate finalizes a block past a gap: once a block is finalized, each certificate
that finalizes a block names one directly above the finalized height. -/
def NoGaps (env : Env) (s : Consensus) : List Input → Prop
  | [] => True
  | i :: rest =>
    (∀ qc ∈ s.certificateOf env i, ∀ b, Finalizes env s qc b → s.finalizedBlocks.isSome →
      b.height = s.finalizedBlockHeight + 1) ∧ NoGaps env (s.step env i) rest

/-- The finalized tip as a list, the start of what a run goes on to finalize. -/
def tipList (s : Consensus) : List Block := (s.finalizedBlocks.map Prod.snd).toList

lemma Finalizes.unique {qc : QuorumCertificate} {b b' : Block} (h : Finalizes env s qc b)
    (h' : Finalizes env s qc b') : b = b' :=
  Option.some.inj (h.pending.symm.trans h'.pending)

/-- From any state with a well-formed pending chain, what a run finalizes continues the tip
without a break exactly when no certificate skips a height. -/
lemma unbrokenChain_tip_iff (hinj : Function.Injective env.hashHeader)
    (hwf : s.blocks.WellFormed env) (inputs : List Input) (hrange : ∀ i ∈ inputs, i.InRange) :
    UnbrokenChain env (s.tipList ++ finalizedChain env s inputs) ↔ NoGaps env s inputs := by
  induction inputs generalizing s with
  | nil =>
    simp only [finalizedChain, NoGaps, List.append_nil, iff_true]
    unfold tipList UnbrokenChain
    cases s.finalizedBlocks <;> simp
  | cons i rest ih =>
    have hi : i.InRange := hrange i List.mem_cons_self
    have hrest : ∀ j ∈ rest, j.InRange := fun j hj => hrange j (List.mem_cons_of_mem _ hj)
    obtain ⟨hwf', hcase⟩ := step_spec hinj hwf hi
    have hih := ih hwf' hrest
    rcases hcase with ⟨hnot, hsame⟩ | ⟨qc, hqc, b, hb, hfin⟩
    · -- nothing is finalized: tip and condition carry over
      have hby : finalizedBy s (s.step env i) = none := by simp [finalizedBy, hsame]
      have htip : (s.step env i).tipList = s.tipList := by rw [tipList, hsame, tipList]
      simp only [finalizedChain, NoGaps, hby, Option.toList_none, List.nil_append]
      rw [← htip, hih]
      exact ⟨fun h => ⟨fun qc hqc b hb _ => absurd hb (hnot qc hqc b), h⟩, And.right⟩
    · have hpend : b ∈ s.blocks.pendingSet := AList.mem_values.2 ⟨_, hb.pending⟩
      have habove : s.finalizedBlockHeight < b.height := hwf.chain.above b hpend
      have hnew : (s.step env i).finalizedBlocks ≠ s.finalizedBlocks := by
        intro heq
        rw [hfin] at heq
        have htip := (hwf.tip _ heq.symm).2
        simp only [blocks_height] at htip
        omega
      have hby : finalizedBy s (s.step env i) = some b := by
        rw [finalizedBy, if_neg hnew, hfin]
        rfl
      have htip : (s.step env i).tipList = [b] := by rw [tipList, hfin]; rfl
      rw [htip] at hih
      -- the condition of this step speaks about the one certificate that is handed over
      have hcond : (∀ qc ∈ s.certificateOf env i, ∀ b, Finalizes env s qc b →
          s.finalizedBlocks.isSome → b.height = s.finalizedBlockHeight + 1) ↔
          (s.finalizedBlocks.isSome → b.height = s.finalizedBlockHeight + 1) := by
        constructor
        · exact fun h => h qc hqc b hb
        · intro h qc' hqc' b' hb'
          obtain rfl : qc = qc' := Option.some.inj (hqc.symm.trans hqc')
          rwa [hb'.unique hb]
      simp only [finalizedChain, NoGaps, hby, Option.toList_some, List.singleton_append, hcond]
      rw [← hih]
      cases hf : s.finalizedBlocks with
      | none => simp [tipList, hf]
      | some f =>
        have hlink : (b.height = f.2.height + 1 ∧ b.parentHash = env.hash f.2) ↔
            b.height = s.finalizedBlockHeight + 1 := by
          obtain ⟨h1, h2⟩ := hwf.tip f hf
          simp only [blocks_height] at h2
          constructor
          · rintro ⟨hh, -⟩
            omega
          · intro hh
            have hroot := hwf.chain.parent_eq_root hpend hh
            rw [BlockState.root, blocks_finalized, hf] at hroot
            exact ⟨by omega, Option.some.inj hroot⟩
        have hlist : s.tipList = [f.2] := by rw [tipList, hf]; rfl
        rw [hlist, List.singleton_append, UnbrokenChain, UnbrokenChain, List.isChain_cons_cons,
          hlink]
        simp

/-- A storage that holds no block above genesis. -/
def GenesisOnly (st : ConsensusStorage) : Prop :=
  ∀ h header, st.blockHeaders.lookup h = some header → h = 0 ∧ header.height = 0

lemma wellFormed_start {st : ConsensusStorage} (hst : GenesisOnly st) :
    ((new st).start env).2.blocks.WellFormed env := by
  obtain ⟨highest, heq⟩ := @blocks_start env st
  rw [heq]
  constructor
  · intro h b hb
    simp [new] at hb
  · have hempty : { (new st).blocks with highestQc := highest }.pendingSet = ∅ := by
      ext b
      simp [BlockState.pendingSet, AList.mem_values, new]
    rw [hempty]
    exact LinkedChain.empty
  · rfl
  · intro f hf
    cases hf
  · exact fun _ => rfl
  · intro h header hh
    obtain ⟨rfl, hheight⟩ := hst h header hh
    exact ⟨le_refl _, hheight⟩
  · intro header hh
    have hlook : st.blockHeaders.lookup 0 = some header := hh
    simp [BlockState.root, new, hlook]

/-- For every run without restarts that starts over a storage with no block above genesis: the
finalized blocks form an unbroken chain if and only if no certificate finalizes a block past a
gap. -/
theorem finalizedChain_unbroken_iff (hinj : Function.Injective env.hashHeader)
    {st : ConsensusStorage} (hst : GenesisOnly st) (inputs : List Input)
    (hrange : ∀ i ∈ inputs, i.InRange) :
    UnbrokenChain env (finalizedChain env ((new st).start env).2 inputs) ↔
      NoGaps env ((new st).start env).2 inputs := by
  have hwf := @wellFormed_start env st hst
  rw [← unbrokenChain_tip_iff hinj hwf inputs hrange]
  have hnone : ((new st).start env).2.finalizedBlocks = none := by
    obtain ⟨highest, heq⟩ := @blocks_start env st
    exact congrArg BlockState.finalized heq
  rw [tipList, hnone]
  rfl

/-! ### A run that skips a height -/

def skippingRun : List Input :=
  [.updateValidatorSet [.sample 1 1], .proposal 0 (sampleChain 1), .proposal 0 (sampleChain 2),
    .proposal 0 (sampleChain 3)] ++
  sampleCertificates (sampleChain 1) ++ sampleCertificates (sampleChain 3)

/-- The replica finalizes height 1 and then height 3. -/
theorem finalizedChain_skips_height :
    finalizedChain .sample ((new sampleStorage).start .sample).2 skippingRun =
        [sampleChain 1, sampleChain 3] ∧
      ¬ UnbrokenChain .sample
        (finalizedChain .sample ((new sampleStorage).start .sample).2 skippingRun) := by
  decide +kernel

lemma genesisOnly_sampleStorage : GenesisOnly sampleStorage := by
  intro h header hh
  have hmem : (⟨h, header⟩ : Sigma fun _ : ℕ => BlockHeader) ∈ [⟨0, (Block.sample 0 0 0).header⟩] :=
    AList.mem_lookup_iff.1 hh
  cases List.mem_singleton.1 hmem
  exact ⟨rfl, rfl⟩

def consecutiveRun : List Input :=
  [.updateValidatorSet [.sample 1 1], .proposal 0 (sampleChain 1), .proposal 0 (sampleChain 2)] ++
  sampleCertificates (sampleChain 1) ++ sampleCertificates (sampleChain 2)

theorem finalizedChain_consecutive :
    finalizedChain .sample ((new sampleStorage).start .sample).2 consecutiveRun =
        [sampleChain 1, sampleChain 2] ∧
      NoGaps .sample ((new sampleStorage).start .sample).2 consecutiveRun := by
  refine ⟨by decide +kernel, ?_⟩
  exact (finalizedChain_unbroken_iff Env.sample_injective genesisOnly_sampleStorage
    consecutiveRun (by decide)).1 (by decide +kernel)

end Sxiaum.Consensus
