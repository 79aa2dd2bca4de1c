import Sxiaum.Consensus.FinalizedChain

/-!
# Phases of a block

A block is finalized only after its Prepare, PreCommit and Commit certificates, in this order.
The recorded phase of a block grows as long as it is recorded. Pruning goes by the view of the
Prepare certificate and may drop the phase of a block that is still pending; the next Prepare
certificate then starts the block over. Without such a drop phases never move back.
-/

namespace Sxiaum

open BlockState

/-! ### Phases and pruning -/

def HotStuffPhase.rank : HotStuffPhase → ℕ
  | .prepare => 0
  | .preCommit => 1
  | .commit => 2
  | .finalize => 3

namespace HotStuff

variable {env : Env} {hs hs' : HotStuff} {set : ValidatorSet} {block : Block}
  {qc : QuorumCertificate} {advanced : HotStuffPhase}

/-- The blocks whose metadata `prune` drops. -/
def pruned (hs : HotStuff) (minView : ℕ) : List Hash :=
  let hashesToPrune := (hs.blockViews.entries.filter fun e =>
    e.2 < minView && hs.lockedBlock ≠ some e.1).map Sigma.fst
  hashesToPrune.filter (· ∉ protectAncestorChains hs hashesToPrune)

lemma protectWalk_congr (hparent : hs'.blockParent = hs.blockParent) (candidates : List Hash)
    (fuel : ℕ) (kept : List Hash) (current : Hash) :
    hs'.protectWalk candidates fuel kept current = hs.protectWalk candidates fuel kept current := by
  induction fuel generalizing kept current with
  | zero => rfl
  | succ fuel ih => simp only [protectWalk, hparent, ih]

/-- Which blocks are pruned depends on the views, the lock and the parents. -/
lemma pruned_congr (hviews : hs'.blockViews = hs.blockViews)
    (hlock : hs'.lockedBlock = hs.lockedBlock) (hparent : hs'.blockParent = hs.blockParent)
    (minView : ℕ) : hs'.pruned minView = hs.pruned minView := by
  have hprotect : ∀ candidates,
      hs'.protectAncestorChains candidates = hs.protectAncestorChains candidates := by
    intro candidates
    unfold protectAncestorChains
    simp only [hviews, hparent, protectWalk_congr hparent]
  unfold pruned
  rw [hviews, hlock]
  simp only [hprotect]

lemma pruned_zero : hs.pruned 0 = [] := by simp [pruned]

lemma blockPhase_foldl_remove (hashes : List Hash) (h : Hash) :
    (hashes.foldl remove hs).blockPhase.lookup h =
      if h ∈ hashes then none else hs.blockPhase.lookup h := by
  induction hashes generalizing hs with
  | nil => simp
  | cons a rest ih =>
    rw [List.foldl_cons, ih]
    by_cases hr : h ∈ rest
    · simp [hr]
    · by_cases ha : h = a
      · subst ha
        simp [remove]
      · simp [hr, ha, remove, AList.lookup_erase_ne ha]

lemma blockPhase_prune (minView : ℕ) (h : Hash) : (hs.prune minView).blockPhase.lookup h =
    if h ∈ hs.pruned minView then none else hs.blockPhase.lookup h :=
  blockPhase_foldl_remove _ h

lemma CommitRule.blockPhase (h : CommitRule env hs set block qc advanced hs') (hash : Hash) :
    hs'.blockPhase.lookup hash =
      if hash = env.hash block then some advanced else hs.blockPhase.lookup hash := by
  split_ifs with heq
  · subst heq
    cases h with
    | prepare hcur hqc hverify | preCommit hcur hqc hverify | finalize hcur hqc hverify =>
      exact AList.lookup_insert _
    | prepareAgain hcur hqc | preCommitAgain hcur hqc | finalizeAgain hcur hqc
    | afterFinalize hcur hqc | afterPreCommit hcur hqc => exact hcur
  · cases h with
    | prepare hcur hqc hverify | preCommit hcur hqc hverify | finalize hcur hqc hverify =>
      exact AList.lookup_insert_ne heq
    | _ => rfl

/-- A Commit certificate changes nothing that pruning goes by. -/
lemma CommitRule.pruned_eq (h : CommitRule env hs set block qc advanced hs')
    (hqc : qc.phase = .commit) (minView : ℕ) : hs'.pruned minView = hs.pruned minView := by
  cases h with
  | finalize hcur hqc' hverify | finalizeAgain hcur hqc' => apply pruned_congr <;> rfl
  | afterFinalize hcur hqc' => exact absurd hqc hqc'
  | prepare _ hqc' _ | prepareAgain _ hqc' | preCommit _ hqc' _ | preCommitAgain _ hqc'
  | afterPreCommit _ hqc' => simp [hqc] at hqc'

lemma CommitRule.rank_le (h : CommitRule env hs set block qc advanced hs') {p : HotStuffPhase}
    (hp : hs.blockPhase.lookup (env.hash block) = some p) : p.rank ≤ advanced.rank := by
  cases h with
  | prepare hcur hqc hverify =>
    rw [hp] at hcur
    cases hcur
  | _ hcur =>
    rw [hp] at hcur
    cases hcur
    decide

end HotStuff

namespace Consensus

variable {env : Env} {s : Consensus} {i : Input} {qc : QuorumCertificate} {block : Block}

lemma hotstuff_of_certificateOf_none (h : s.certificateOf env i = none) :
    (s.step env i).hotstuff = s.hotstuff := by
  rcases @hotstuff_step env s i with heq | ⟨qc, hqc, -⟩
  · exact heq
  · rw [h] at hqc
    cases hqc

/-! ### Blocks in a step -/

lemma placed_of_certificateOf_none (hplaced : s.blocks.Placed env)
    (h : s.certificateOf env i = none) : (s.step env i).blocks.Placed env ∧
      (s.step env i).finalizedBlocks = s.finalizedBlocks ∧
      (s.step env i).finalizedBlockHeight = s.finalizedBlockHeight := by
  rcases step_of_certificateOf_none h with ⟨now, block, rfl⟩ | ⟨_, _, _, _, _, _, heq⟩
  · rcases @processBlockProposal_spec env s now block with ⟨-, heq⟩ | ⟨parent, removed, heff⟩
    · exact ⟨heq.symm ▸ hplaced, congrArg finalized heq, congrArg height heq⟩
    · have hdrop := hplaced.drop removed
      cases hres : (s.processBlockProposal env now block).1 with
      | error e =>
        have heq := heff.blocks.1 e hres
        rw [step, heq]
        exact ⟨hdrop, congrArg finalized heq, congrArg height heq⟩
      | ok _ =>
        have heq := (heff.blocks.2 hres).1
        rw [step, heq]
        exact ⟨hdrop.addPending heff.parent.advances, congrArg finalized heq,
          congrArg height heq⟩
  · rw [heq]
    exact ⟨hplaced, rfl, rfl⟩

lemma placed_of_certificateOf (hinj : Function.Injective env.hashHeader)
    (hplaced : s.blocks.Placed env) (h : s.certificateOf env i = some qc) :
    (s.step env i).blocks.Placed env ∧
      (((∀ b, ¬ Finalizes env s qc b) ∧ (s.step env i).finalizedBlocks = s.finalizedBlocks ∧
          (s.step env i).finalizedBlockHeight = s.finalizedBlockHeight) ∨
        ∃ b, Finalizes env s qc b ∧ (s.step env i).finalizedBlocks = some (b.height, b) ∧
          (s.step env i).finalizedBlockHeight = b.height) := by
  rcases step_blocks_of_certificateOf hinj hplaced h with ⟨hnot, heq | heq⟩ | ⟨b, hb, heq⟩
  · exact ⟨heq ▸ hplaced, .inl ⟨hnot, congrArg finalized heq, congrArg height heq⟩⟩
  · obtain ⟨highest, hcertify⟩ := @certify_eq env s.blocks qc.blockHash
    have heq' := heq.trans hcertify
    exact ⟨heq ▸ hplaced.certify _, .inl ⟨hnot, congrArg finalized heq', congrArg height heq'⟩⟩
  · exact ⟨heq ▸ (hplaced.certify _).finalize b, .inr ⟨b, hb, congrArg finalized heq,
      congrArg height heq⟩⟩

lemma placed_step (hinj : Function.Injective env.hashHeader) (hplaced : s.blocks.Placed env) :
    (s.step env i).blocks.Placed env := by
  cases h : s.certificateOf env i with
  | none => exact (placed_of_certificateOf_none hplaced h).1
  | some qc => exact (placed_of_certificateOf hinj hplaced h).1

lemma finalizedBlockHeight_le_step (hinj : Function.Injective env.hashHeader)
    (hplaced : s.blocks.Placed env) :
    s.finalizedBlockHeight ≤ (s.step env i).finalizedBlockHeight := by
  cases h : s.certificateOf env i with
  | none => exact (placed_of_certificateOf_none hplaced h).2.2.ge
  | some qc =>
    rcases (placed_of_certificateOf hinj hplaced h).2 with ⟨-, -, heq⟩ | ⟨b, hb, -, heq⟩
    · exact heq.ge
    · rw [heq]
      exact (hplaced.above _ b hb.pending).le

/-! ### Phases in a step -/

/-- The commit rule takes the certificate of an input. -/
def Takes (env : Env) (s : Consensus) (i : Input) (qc : QuorumCertificate) (block : Block)
    (advanced : HotStuffPhase) (hs : HotStuff) : Prop :=
  s.certificateOf env i = some qc ∧ s.validatorSet.verifies env qc = true ∧
    s.pendingBlocks.lookup qc.blockHash = some block ∧
    s.hotstuff.CommitRule env s.validatorSet block qc advanced hs

/-- An input leaves the phases alone, or its certificate is taken and a finalization may prune
them. -/
lemma takes_of_step (hplaced : s.blocks.Placed env) (i : Input) :
    (s.step env i).hotstuff = s.hotstuff ∨
      ∃ qc block advanced hs, Takes env s i qc block advanced hs ∧
        ((s.step env i).hotstuff = hs ∨
          Finalizes env s qc block ∧ ∃ view, (s.handing env i).PruneView view ∧
            (s.step env i).hotstuff = hs.prune (view - 10)) := by
  cases hqc : s.certificateOf env i with
  | none => exact .inl (hotstuff_of_certificateOf_none hqc)
  | some qc =>
    obtain ⟨view, viewRow, collector, rows, hhanding⟩ := handing_eq env s i
    have hhotstuff : (s.handing env i).hotstuff = s.hotstuff := by rw [hhanding]
    rw [step_of_certificateOf hqc, ← hhotstuff]
    have heffect := @processQuorumCertificate_effect env (s.handing env i) qc
    generalize (s.handing env i).processQuorumCertificate env qc = outcome at heffect
    cases heffect with
    | rejected hinvalid => exact .inl rfl
    | recorded hvalid e hstop => exact .inl recordCertificate_hotstuff
    | applied hvalid block hpending advanced hs hrule r hphase =>
      have hhash : env.hash block = qc.blockHash := by
        refine hplaced.keyed _ block ?_
        rw [hhanding] at hpending
        exact hpending
      have htakes : Takes env s i qc block advanced hs := by
        rw [hhanding] at hvalid hpending hrule
        exact ⟨hqc, hvalid, hpending, hrule⟩
      refine .inr ⟨qc, block, advanced, hs, htakes, ?_⟩
      cases hphase with
      | failed advanced e hpre hcommit | prepared hqc' hverify | locked hqc' hverify =>
        exact .inl rfl
      | finalized hqc' hverify r hstate =>
        have hfinalizes := finalizes_of_rule hhash hvalid hqc' hpending hrule hverify
        rw [hstate]
        obtain ⟨hview, heq | heq⟩ := @voting_finalizeBlockOnceQuorumReached env
          ((s.handing env i).certified env qc hs) (env.hash block)
        · exact .inl (congrArg Voting.hotstuff heq)
        · refine .inr ⟨finalizes_handing.1 hfinalizes, _, ?_, congrArg Voting.hotstuff heq⟩
          have hcurrent : ((s.handing env i).certified env qc hs).currentView =
              (s.handing env i).currentView := by
            rw [certified, recordCertificate_eq]
          rw [PruneView, hcurrent] at hview
          exact hview

/-! ### The certificates that a run has taken -/

/-- The certificate of an input, if it verifies and the commit rule takes it. -/
def takenBy (env : Env) (s : Consensus) (i : Input) : Option QuorumCertificate := do
  let qc ← s.certificateOf env i
  let block ← s.pendingBlocks.lookup qc.blockHash
  if s.validatorSet.verifies env qc && (s.hotstuff.applyThreePhaseCommitRule env s.validatorSet
      block qc).toOption.isSome then some qc else none

def taken (env : Env) (s : Consensus) : List Input → List QuorumCertificate
  | [] => []
  | i :: rest => (takenBy env s i).toList ++ taken env (s.step env i) rest

variable {log : List QuorumCertificate} {advanced : HotStuffPhase}

lemma Takes.takenBy {hs : HotStuff}
    (h : Takes env s i qc block advanced hs) : takenBy env s i = some qc := by
  obtain ⟨hqc, hvalid, hpending, hrule⟩ := h
  simp [Consensus.takenBy, hqc, hvalid, hpending,
    HotStuff.applyThreePhaseCommitRule_ok.2 hrule, Except.toOption]

/-- Certificates of a block with the given phases are in the log, in this order. -/
def InOrder (log : List QuorumCertificate) (hash : Hash) (phases : List VotePhase) : Prop :=
  ∃ qcs : List QuorumCertificate, qcs.Sublist log ∧
    qcs.map QuorumCertificate.phase = phases ∧ ∀ qc ∈ qcs, qc.blockHash = hash

namespace InOrder

variable {log : List QuorumCertificate} {hash : Hash} {phases : List VotePhase}

lemma nil : InOrder log hash [] := ⟨[], List.nil_sublist _, rfl, by simp⟩

lemma append (h : InOrder log hash phases) (more : List QuorumCertificate) :
    InOrder (log ++ more) hash phases := by
  obtain ⟨qcs, hsub, hrest⟩ := h
  exact ⟨qcs, hsub.trans (List.sublist_append_left _ _), hrest⟩

lemma snoc (h : InOrder log hash phases) (hhash : qc.blockHash = hash) :
    InOrder (log ++ [qc]) hash (phases ++ [qc.phase]) := by
  obtain ⟨qcs, hsub, rfl, hqcs⟩ := h
  refine ⟨qcs ++ [qc], hsub.append (List.Sublist.refl _), by simp, ?_⟩
  rw [List.forall_mem_append]
  exact ⟨hqcs, by simpa using hhash⟩

end InOrder

/-- The certificates behind a recorded phase. -/
def certificatesOf : HotStuffPhase → List VotePhase
  | .prepare => [.prepare]
  | _ => [.prepare, .preCommit]

/-- Every recorded phase has its certificates in the log. -/
def Logged (log : List QuorumCertificate) (s : Consensus) : Prop :=
  ∀ hash p, s.hotstuff.blockPhase.lookup hash = some p → InOrder log hash (certificatesOf p)

lemma logged_step (hplaced : s.blocks.Placed env)
    (hlogged : Logged log s) : Logged (log ++ (takenBy env s i).toList) (s.step env i) := by
  rcases takes_of_step hplaced i with hsame | ⟨qc, block, advanced, hs, htakes, hstep⟩
  · intro hash p hp
    rw [hsame] at hp
    exact (hlogged hash p hp).append _
  · have hhash := hplaced.keyed _ block htakes.2.2.1
    rw [htakes.takenBy]
    have hnext : ∀ hash p, hs.blockPhase.lookup hash = some p →
        InOrder (log ++ [qc]) hash (certificatesOf p) := by
      intro hash p hp
      rw [htakes.2.2.2.blockPhase] at hp
      split_ifs at hp with heq
      · cases hp
        subst heq
        -- the rule logs the certificate with the phase to which it takes the block
        have hrule := htakes.2.2.2
        cases hrule with
        | prepare hcur hqc hverify =>
          have h := (@InOrder.nil log (env.hash block)).snoc hhash.symm
          rwa [hqc] at h
        | preCommit hcur hqc hverify =>
          have h := (hlogged _ _ hcur).snoc hhash.symm
          rwa [hqc] at h
        | prepareAgain hcur hqc | preCommitAgain hcur hqc | finalize hcur hqc hverify
        | finalizeAgain hcur hqc | afterFinalize hcur hqc | afterPreCommit hcur hqc =>
          exact (hlogged _ _ hcur).append _
      · exact (hlogged hash p hp).append _
    intro hash p hp
    rcases hstep with heq | ⟨-, view, -, heq⟩
    · exact hnext hash p (heq ▸ hp)
    · rw [heq, HotStuff.blockPhase_prune] at hp
      split_ifs at hp
      exact hnext hash p hp

lemma inOrder_of_finalizedBy {b : Block}
    (hinj : Function.Injective env.hashHeader) (hplaced : s.blocks.Placed env)
    (hlogged : Logged log s) (h : finalizedBy s (s.step env i) = some b) :
    InOrder (log ++ (takenBy env s i).toList) (env.hash b) [.prepare, .preCommit, .commit] := by
  unfold finalizedBy at h
  split_ifs at h with hsame
  cases hqc : s.certificateOf env i with
  | none => exact absurd (placed_of_certificateOf_none hplaced hqc).2.1 hsame
  | some qc =>
    rcases (placed_of_certificateOf hinj hplaced hqc).2 with ⟨-, heq, -⟩ | ⟨b', hb', heq, -⟩
    · exact absurd heq hsame
    obtain rfl : b' = b := by simpa [heq] using h
    have hhash := hplaced.keyed _ b' hb'.pending
    have hpre : InOrder log qc.blockHash [.prepare, .preCommit] := by
      rcases hb'.current with hcur | hcur <;> exact hlogged _ _ hcur
    have htaken : takenBy env s i = some qc := by
      have hverify : s.hotstuff.verifyCommitPhase env s.validatorSet (env.hash b') qc = true := by
        rw [HotStuff.verifyCommitPhase, hhash]
        simp [hb'.precommitted, hb'.verified]
      rcases hb'.current with hcur | hcur
      · exact Takes.takenBy ⟨hqc, hb'.verified, hb'.pending,
          .finalize (hhash ▸ hcur) hb'.phase hverify⟩
      · exact Takes.takenBy ⟨hqc, hb'.verified, hb'.pending,
          .finalizeAgain (hhash ▸ hcur) hb'.phase⟩
    rw [htaken, hhash]
    have hall : InOrder (log ++ [qc]) qc.blockHash _ := hpre.snoc rfl
    rwa [hb'.phase] at hall

/-- The certificates of every finalized block are taken in order before it is finalized. -/
lemma inOrder_of_finalizedChain {b : Block}
    (hinj : Function.Injective env.hashHeader) (hplaced : s.blocks.Placed env)
    (hlogged : Logged log s) {inputs : List Input} (h : b ∈ finalizedChain env s inputs) :
    InOrder (log ++ taken env s inputs) (env.hash b) [.prepare, .preCommit, .commit] := by
  induction inputs generalizing s log with
  | nil => cases h
  | cons i rest ih =>
    rw [taken, ← List.append_assoc]
    rcases List.mem_append.1 h with h | h
    · exact (inOrder_of_finalizedBy hinj hplaced hlogged (Option.mem_toList.1 h)).append _
    · exact ih (placed_step hinj hplaced) (logged_step hplaced hlogged) h

/-! ### Phases along a run -/

/-- If the input finalizes a block, pruning spares the later ones: a block whose phase is
PreCommit or further keeps it, or is not above the finalized one. -/
def SparesLater (env : Env) (s : Consensus) (i : Input) : Prop :=
  ∀ qc ∈ s.certificateOf env i, ∀ block, Finalizes env s qc block →
    ∀ view, (s.handing env i).PruneView view → ∀ hash ∈ s.hotstuff.pruned (view - 10),
      ∀ p, s.hotstuff.blockPhase.lookup hash = some p → p ≠ .prepare →
        ∀ b, env.hash b = hash → b.height ≤ block.height

/-- A phase that has been reached is still recorded, or the block can never be pending again. -/
def Reached (env : Env) (hs : HotStuff) (height : ℕ) (hash : Hash) (p : HotStuffPhase) : Prop :=
  (∃ q, hs.blockPhase.lookup hash = some q ∧ p.rank ≤ q.rank) ∨
    hs.blockPhase.lookup hash = none ∧ ∀ b, env.hash b = hash → b.height ≤ height

lemma Reached.mono {hs : HotStuff} {height height' : ℕ} {hash : Hash} {p : HotStuffPhase}
    (h : Reached env hs height hash p) (hle : height ≤ height') :
    Reached env hs height' hash p :=
  h.imp_right fun h => ⟨h.1, fun b hb => (h.2 b hb).trans hle⟩

/-- No finalization of the run drops the phase of a later block. -/
def SparesLaterAll (env : Env) (s : Consensus) : List Input → Prop
  | [] => True
  | i :: rest => SparesLater env s i ∧ SparesLaterAll env (s.step env i) rest

lemma sparesLaterAll_append {first rest : List Input} :
    SparesLaterAll env s (first ++ rest) ↔
      SparesLaterAll env s first ∧ SparesLaterAll env (s.run env first) rest := by
  induction first generalizing s with
  | nil => simp [SparesLaterAll, run]
  | cons i first ih =>
    rw [List.cons_append, SparesLaterAll, ih, SparesLaterAll, and_assoc]
    rfl

section

variable (hinj : Function.Injective env.hashHeader) (hplaced : s.blocks.Placed env)

include hinj hplaced

lemma finalizedBlockHeight_of_finalizes (hqc : s.certificateOf env i = some qc)
    (h : Finalizes env s qc block) : (s.step env i).finalizedBlockHeight = block.height := by
  rcases (placed_of_certificateOf hinj hplaced hqc).2 with ⟨hnot, -⟩ | ⟨b, hb, -, heq⟩
  · exact absurd h (hnot block)
  · rw [heq, hb.unique h]

lemma reached_step {hash : Hash} {p : HotStuffPhase} (hspares : SparesLater env s i)
    (hp : p ≠ .prepare)
    (h : Reached env s.hotstuff s.finalizedBlockHeight hash p) :
    Reached env (s.step env i).hotstuff (s.step env i).finalizedBlockHeight hash p := by
  have hgrows := finalizedBlockHeight_le_step (i := i) hinj hplaced
  rcases takes_of_step hplaced i with hsame | ⟨qc, block, advanced, hs, htakes, hstep⟩
  · exact hsame ▸ h.mono hgrows
  -- the commit rule keeps a phase that has been reached
  have hrule : Reached env hs (s.step env i).finalizedBlockHeight hash p := by
    have hrule := htakes.2.2.2
    refine Reached.mono ?_ hgrows
    rw [Reached, hrule.blockPhase]
    split_ifs with heq
    · subst heq
      rcases h with ⟨q, hq, hle⟩ | ⟨-, hlow⟩
      · exact .inl ⟨advanced, rfl, hle.trans (hrule.rank_le hq)⟩
      · have habove := hplaced.above _ block htakes.2.2.1
        exact absurd (hlow block rfl) (not_le.2 habove)
    · exact h
  rcases hstep with heq | ⟨hfinalizes, view, hview, heq⟩
  · exact heq ▸ hrule
  rw [Reached, heq, HotStuff.blockPhase_prune]
  split_ifs with hpruned
  · refine .inr ⟨rfl, fun b hb => ?_⟩
    rcases h with ⟨q, hq, hle⟩ | ⟨-, hlow⟩
    · -- the phase was recorded, and pruning has dropped it
      have hlate : q ≠ .prepare := by
        rintro rfl
        cases p <;> simp [HotStuffPhase.rank] at hle hp
      rw [htakes.2.2.2.pruned_eq hfinalizes.phase] at hpruned
      rw [finalizedBlockHeight_of_finalizes hinj hplaced htakes.1 hfinalizes]
      exact hspares qc htakes.1 block hfinalizes view hview hash hpruned q hq hlate b hb
    · exact (hlow b hb).trans hgrows
  · exact hrule

lemma reached_run {hash : Hash} {p : HotStuffPhase} {inputs : List Input}
    (hspares : SparesLaterAll env s inputs)
    (hp : p ≠ .prepare) (h : Reached env s.hotstuff s.finalizedBlockHeight hash p) :
    Reached env (s.run env inputs).hotstuff (s.run env inputs).finalizedBlockHeight hash p := by
  induction inputs generalizing s with
  | nil => exact h
  | cons i rest ih =>
    exact ih (placed_step hinj hplaced) hspares.2 (reached_step hinj hplaced hspares.1 hp h)

lemma placed_run (inputs : List Input) : (s.run env inputs).blocks.Placed env := by
  induction inputs generalizing s with
  | nil => exact hplaced
  | cons i rest ih => exact ih (placed_step hinj hplaced)

/-- Every phase recorded for a block is at least every phase recorded for it before. -/
def PhasesAdvance (env : Env) (s : Consensus) (inputs : List Input) : Prop :=
  ∀ first more, first ++ more <+: inputs → ∀ hash p q,
    (s.run env first).hotstuff.blockPhase.lookup hash = some p →
    (s.run env (first ++ more)).hotstuff.blockPhase.lookup hash = some q → p.rank ≤ q.rank

lemma phasesAdvance_of_spares {inputs : List Input}
    (hspares : SparesLaterAll env s inputs) : PhasesAdvance env s inputs := by
  rintro first more ⟨rest, rfl⟩ hash p q hp hq
  rw [List.append_assoc, sparesLaterAll_append, sparesLaterAll_append] at hspares
  obtain ⟨-, hmore, -⟩ := hspares
  by_cases hprepare : p = .prepare
  · subst hprepare
    exact Nat.zero_le _
  have hreached := reached_run hinj (placed_run hinj hplaced first) hmore hprepare
    (.inl ⟨p, hp, le_refl _⟩)
  rw [run, List.foldl_append] at hq
  rcases hreached with ⟨q', hq', hle⟩ | ⟨hnone, -⟩
  · exact Option.some.inj (hq'.symm.trans hq) ▸ hle
  · exact absurd (hnone.symm.trans hq) (Option.some_ne_none q).symm

end

structure Fresh (s : Consensus) : Prop where
  pending : s.pendingBlocks = ∅
  committed : s.committedBlocks = ∅
  finalized : s.finalizedBlocks = none
  phases : s.hotstuff.blockPhase = ∅

lemma Fresh.placed (h : s.Fresh) : s.blocks.Placed env where
  keyed k b hk := by simp [h.pending] at hk
  above k b hk := by simp [h.pending] at hk
  committed := h.committed
  tip f hf := by simp [h.finalized] at hf

lemma Fresh.logged (h : s.Fresh) : Logged [] s := by
  intro hash p hp
  simp [h.phases] at hp

lemma fresh_new (st : ConsensusStorage) : (new st).Fresh := ⟨rfl, rfl, rfl, rfl⟩

lemma Fresh.updateValidatorSet (h : s.Fresh) (vs : List Validator) :
    (s.updateValidatorSet env vs).2.Fresh := by
  unfold Consensus.updateValidatorSet
  split <;> exact { h with }

/-- In every run of a fresh instance a block is finalized only after its three certificates have
been taken in order. Unless a finalization drops the phase of a later block, the recorded phases
never move back. -/
theorem finalized_in_order (hinj : Function.Injective env.hashHeader) (hfresh : s.Fresh)
    (inputs : List Input) :
    (∀ b ∈ finalizedChain env s inputs,
        InOrder (taken env s inputs) (env.hash b) [.prepare, .preCommit, .commit]) ∧
      (SparesLaterAll env s inputs → PhasesAdvance env s inputs) :=
  ⟨fun _ hb => inOrder_of_finalizedChain hinj hfresh.placed hfresh.logged hb,
    phasesAdvance_of_spares hinj hfresh.placed⟩

/-! ### Two runs -/

/-- In its first views a replica prunes nothing. -/
lemma sparesLater_of_early (h : (s.handing env i).currentView ≤ 9) : SparesLater env s i := by
  intro qc _ block _ view hview hash hpruned
  have hzero : view - 10 = 0 := by
    rcases hview with rfl | rfl
    · omega
    · unfold satAdd64
      omega
  rw [hzero, HotStuff.pruned_zero] at hpruned
  cases hpruned

def freshReplica : Consensus := ((new sampleStorage).updateValidatorSet .sample [.sample 1 1]).2

lemma fresh_freshReplica : freshReplica.Fresh := (fresh_new _).updateValidatorSet _

def orderlyRun : List Input := .proposal 0 (sampleChain 1) :: sampleCertificates (sampleChain 1)

theorem finalized_in_order_sample :
    finalizedChain .sample freshReplica orderlyRun = [sampleChain 1] ∧
      InOrder (taken .sample freshReplica orderlyRun) (Env.sample.hash (sampleChain 1))
        [.prepare, .preCommit, .commit] ∧
      PhasesAdvance .sample freshReplica orderlyRun := by
  have hchain : finalizedChain .sample freshReplica orderlyRun = [sampleChain 1] := by
    decide +kernel
  have h := finalized_in_order Env.sample_injective fresh_freshReplica orderlyRun
  refine ⟨hchain, h.1 _ (by simp [hchain]), h.2 ⟨?_, ?_, ?_, ?_, trivial⟩⟩ <;>
    exact sparesLater_of_early (by decide +kernel)

/-- The second block is past its PreCommit certificate when the first one is locked and, eleven
views or more after the Prepare certificates, finalized. -/
def prunedRun : List Input :=
  [.proposal 0 (sampleChain 1), .proposal 0 (sampleChain 2),
    .certificate (.sample (sampleChain 1) 0 .prepare [1]),
    .certificate (.sample (sampleChain 2) 0 .prepare [1]),
    .certificate (.sample (sampleChain 2) 0 .preCommit [1]),
    .certificate (.sample (sampleChain 1) 0 .preCommit [1]),
    .vote ⟨1, Env.sample.hash (sampleChain 1), 20, .prepare, 0, none, 1⟩,
    .certificate (.sample (sampleChain 1) 20 .commit [1]),
    .certificate (.sample (sampleChain 2) 0 .prepare [1])]

/-- The phase of the second block moves from PreCommit back to Prepare. -/
theorem phase_moves_back :
    (freshReplica.run .sample (prunedRun.take 5)).hotstuff.blockPhase.lookup
        (Env.sample.hash (sampleChain 2)) = some .preCommit ∧
      (freshReplica.run .sample prunedRun).hotstuff.blockPhase.lookup
        (Env.sample.hash (sampleChain 2)) = some .prepare := by
  decide +kernel

end Consensus

end Sxiaum
