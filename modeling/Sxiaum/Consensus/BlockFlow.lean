import Sxiaum.Consensus.Frames
import Sxiaum.Lib.Guards

/-!
# How blocks move

The part of the consensus state that says which blocks are pending, committed and
finalized, and what each handler does to it: a proposal may remove siblings and add one
block, a certificate may become the highest one and may finalize one pending block, and
nothing else touches these maps.
-/

namespace Sxiaum

open Guards

/-- The fields that hold blocks, with the block of the highest certificate. -/
structure BlockState where
  pending : HashMap Hash Block
  committed : HashMap Hash Block
  finalized : Option (ℕ × Block)
  height : ℕ
  headers : HashMap ℕ BlockHeader
  highestQc : Option Hash

namespace BlockState

variable (env : Env) (t : BlockState)

/-- `Consensus::find_block`. -/
def find (hash : Hash) : Option Block :=
  match t.pending.lookup hash with
  | some b => some b
  | none =>
    match t.committed.lookup hash with
    | some b => some b
    | none =>
      match t.finalized with
      | some (_, b) => if env.hash b = hash then some b else none
      | none => none

/-- The height by which `apply_highest_qc_rule` ranks a block: `0` if it is unknown. -/
def heightOf (hash : Hash) : ℕ := ((t.find env hash).map Block.height).getD 0

/-- The effect of `apply_highest_qc_rule`. -/
def certify (hash : Hash) : BlockState :=
  match t.highestQc with
  | none => { t with highestQc := some hash }
  | some highest =>
    if t.heightOf env highest ≤ t.heightOf env hash then { t with highestQc := some hash } else t

/-- The effect of fork resolution: some pending blocks are gone. -/
def drop (hashes : List Hash) : BlockState :=
  { t with pending := hashes.foldl (fun m h => m.erase h) t.pending }

def addPending (block : Block) : BlockState :=
  { t with pending := t.pending.insert (env.hash block) block }

/-- The effect of finalizing a pending block when nothing else is committed. -/
def finalize (block : Block) : BlockState :=
  { t with
    pending := (t.pending.erase (env.hash block)).retain fun _ b => block.height < b.height
    committed := ∅
    finalized := some (block.height, block)
    height := block.height
    headers := t.headers.insert block.height block.header }

variable {env t}

lemma drop_nil : t.drop [] = t := rfl

lemma lookup_drop {hashes : List Hash} {h : Hash} :
    (t.drop hashes).pending.lookup h = if h ∈ hashes then none else t.pending.lookup h := by
  simp only [drop]
  induction hashes generalizing t with
  | nil => simp
  | cons a rest ih =>
    rw [List.foldl_cons]
    have hrest := @ih { t with pending := t.pending.erase a }
    simp only at hrest
    rw [hrest]
    by_cases hr : h ∈ rest
    · simp [hr]
    · by_cases ha : h = a
      · subst ha
        simp [hr]
      · simp [hr, ha, AList.lookup_erase_ne ha]

lemma lookup_finalize {block : Block} {h : Hash} :
    (t.finalize env block).pending.lookup h =
      if h = env.hash block then none
      else (t.pending.lookup h).filter fun b => block.height < b.height := by
  simp only [finalize, AList.lookup_retain]
  by_cases hh : h = env.hash block
  · subst hh
    simp
  · simp [hh, AList.lookup_erase_ne hh]

lemma certify_pending {hash : Hash} : (t.certify env hash).pending = t.pending := by
  unfold certify
  split
  · rfl
  · split <;> rfl

lemma certify_eq (hash : Hash) :
    ∃ highest, t.certify env hash = { t with highestQc := highest } := by
  unfold certify
  split
  · exact ⟨_, rfl⟩
  · split
    · exact ⟨_, rfl⟩
    · exact ⟨t.highestQc, rfl⟩

/-! ### Blocks above the finalized height -/

variable {block b : Block} {hash : Hash}

def Keyed (env : Env) (t : BlockState) : Prop :=
  ∀ h b, t.pending.lookup h = some b → env.hash b = h

lemma lookup_of_drop {removed : List Hash} {k : Hash}
    (h : (t.drop removed).pending.lookup k = some b) : t.pending.lookup k = some b := by
  rw [lookup_drop] at h
  split_ifs at h
  exact h

lemma lookup_of_finalize {k : Hash} (h : (t.finalize env block).pending.lookup k = some b) :
    t.pending.lookup k = some b ∧ block.height < b.height := by
  rw [lookup_finalize] at h
  split_ifs at h
  rwa [Option.filter_eq_some_iff, decide_eq_true_eq] at h

/-- Pending blocks stand under their hash and above the finalized tip, and no block waits
between commit and finalization. -/
structure Placed (env : Env) (t : BlockState) : Prop where
  keyed : ∀ h b, t.pending.lookup h = some b → env.hash b = h
  above : ∀ h b, t.pending.lookup h = some b → t.height < b.height
  committed : t.committed = ∅
  tip : ∀ f, t.finalized = some f → f.1 = f.2.height ∧ t.height = f.1

namespace Placed

lemma tip_lt (h : t.Placed env) (hinj : Function.Injective env.hashHeader)
    (hb : t.pending.lookup hash = some b) {tip : ℕ × Block} (htip : t.finalized = some tip) :
    env.hash tip.2 ≠ env.hash b ∧ tip.1 < b.height := by
  obtain ⟨hheight, hcurrent⟩ := h.tip tip htip
  have habove := h.above hash b hb
  refine ⟨fun e => ?_, by omega⟩
  have := (Env.header_eq_of_hash_eq hinj e).1
  omega

lemma certify (h : t.Placed env) (hash : Hash) : (t.certify env hash).Placed env := by
  obtain ⟨highest, heq⟩ := @certify_eq env t hash
  rw [heq]
  exact { h with }

lemma drop (h : t.Placed env) (removed : List Hash) : (t.drop removed).Placed env :=
  ⟨fun k b hk => h.keyed k b (lookup_of_drop hk), fun k b hk => h.above k b (lookup_of_drop hk),
    h.committed, h.tip⟩

lemma addPending (h : t.Placed env) (hheight : t.height < block.height) :
    (t.addPending env block).Placed env where
  keyed := AList.forall_lookup_insert h.keyed rfl
  above := AList.forall_lookup_insert h.above hheight
  committed := h.committed
  tip := h.tip

lemma finalize (h : t.Placed env) (block : Block) : (t.finalize env block).Placed env where
  keyed k b hk := h.keyed k b (lookup_of_finalize hk).1
  above _ _ hk := (lookup_of_finalize hk).2
  committed := rfl
  tip f hf := by
    cases hf
    exact ⟨rfl, rfl⟩

end Placed

end BlockState

namespace Consensus

def blocks (s : Consensus) : BlockState where
  pending := s.pendingBlocks
  committed := s.committedBlocks
  finalized := s.finalizedBlocks
  height := s.finalizedBlockHeight
  headers := s.storage.blockHeaders
  highestQc := s.highestQcBlock

variable {env : Env} {s : Consensus} {i : Input} {qc : QuorumCertificate} {block : Block}

@[simp] lemma blocks_pending : s.blocks.pending = s.pendingBlocks := rfl

@[simp] lemma blocks_committed : s.blocks.committed = s.committedBlocks := rfl

@[simp] lemma blocks_finalized : s.blocks.finalized = s.finalizedBlocks := rfl

@[simp] lemma blocks_height : s.blocks.height = s.finalizedBlockHeight := rfl

@[simp] lemma blocks_headers : s.blocks.headers = s.storage.blockHeaders := rfl

@[simp] lemma blocks_highestQc : s.blocks.highestQc = s.highestQcBlock := rfl

/-! ### Steps that move no block -/

lemma findBlock_eq (hash : Hash) : s.findBlock env hash = s.blocks.find env hash := rfl

@[simp] lemma blocks_updateValidatorSet (vs : List Validator) :
    (s.updateValidatorSet env vs).2.blocks = s.blocks := by
  unfold updateValidatorSet
  split <;> rfl

@[simp] lemma blocks_syncToProposer (proposer : Address) :
    (s.syncToProposer env proposer).2.blocks = s.blocks := by
  obtain ⟨_, _, heq⟩ := @syncToProposer_eq env s proposer
  rw [heq]
  rfl

@[simp] lemma blocks_handing : (s.handing env i).blocks = s.blocks := by
  obtain ⟨_, _, _, _, heq⟩ := handing_eq env s i
  rw [heq]
  rfl

lemma blocks_applyHighestQcRule (qc : QuorumCertificate) :
    (s.applyHighestQcRule env qc).blocks = s.blocks.certify env qc.blockHash := by
  have hheight (h : Hash) : ((s.findBlock env h).map Block.height).getD 0 =
      s.blocks.heightOf env h := rfl
  cases hq : s.highestQcBlock with
  | none => simp [applyHighestQcRule, BlockState.certify, blocks, hq]
  | some highest =>
    have hb : s.blocks.highestQc = some highest := hq
    simp only [applyHighestQcRule, BlockState.certify, hq, hb, hheight]
    split <;> rfl

lemma blocks_recordCertificate (qc : QuorumCertificate) :
    (s.recordCertificate env qc).blocks = s.blocks.certify env qc.blockHash := by
  rw [recordCertificate, blocks_applyHighestQcRule]
  rfl

/-- A start keeps the block fields of a new instance, apart from the highest certificate. -/
lemma blocks_start (st : ConsensusStorage) : ∃ highest,
    ((new st).start env).2.blocks = { (new st).blocks with highestQc := highest } := by
  rcases start_new st with ⟨e, -, hstart⟩ | ⟨set, -, hstart⟩ <;> rw [hstart] <;> exact ⟨_, rfl⟩

/-! ### Proposals -/

/-- What a proposal's parent is: a block held in memory, or the stored block one below. -/
lemma resolveParentBlock_ok {child parent : Block}
    (h : s.resolveParentBlock env child = .ok parent) :
    s.blocks.find env child.parentHash = some parent ∨
      s.blocks.find env child.parentHash = none ∧ child.height ≠ 0 ∧
        s.blocks.headers.lookup (child.height - 1) = some parent.header := by
  unfold resolveParentBlock at h
  split at h
  · simp at h
  · rename_i hzero
    rw [findBlock_eq] at h
    split at h
    · rename_i p hfind
      cases h
      exact .inl hfind
    · rename_i hfind
      split at h
      · simp at h
      · rename_i header hheader
        split at h
        · simp at h
        · split at h
          · simp at h
          · cases h
            exact .inr ⟨hfind, hzero, hheader⟩

/-- The facts about its parent that an admitted proposal has been checked for. -/
structure ParentChecked (env : Env) (s : Consensus) (block parent : Block) : Prop where
  resolved : s.resolveParentBlock env block = .ok parent
  height : block.height = satAdd64 parent.height 1
  link : block.parentHash = env.hash parent
  advances : s.finalizedBlockHeight < block.height

lemma validateProposalParent_ok {block : Block} (h : s.validateProposalParent env block = .ok ()) :
    ∃ parent, ParentChecked env s block parent := by
  simp only [validateProposalParent, bind_ok, ite_throw_ok, ite_throw_last] at h
  obtain ⟨parent, hparent, hheight, hlink, -, hadvances, -⟩ := h
  exact ⟨parent, hparent, not_not.1 hheight, not_not.1 hlink, not_le.1 hadvances⟩

lemma checkProposal_ok {now : ℕ} {block : Block} (h : s.checkProposal env now block = .ok ()) :
    ∃ parent, ParentChecked env s block parent := by
  simp only [checkProposal, bind_ok, ite_throw_ok] at h
  obtain ⟨-, _, hparent, -⟩ := h
  exact validateProposalParent_ok hparent

end Consensus

/-- The pending blocks that fork resolution for a candidate has removed: siblings of it, only
if no pending block is higher, and of equal height only without the highest certificate. -/
structure BlockState.ForkResolved (env : Env) (t : BlockState) (block : Block)
    (removed : List Hash) : Prop where
  siblings : ∀ h ∈ removed, ∃ b ∈ t.pending.values, env.hash b = h ∧
    b.parentHash = block.parentHash ∧ h ≠ env.hash block
  longest : removed ≠ [] → ∀ b ∈ t.pending.values, b.height ≤ block.height
  preferred : ∀ h ∈ removed, ∀ b, t.pending.lookup h = some b → b.height = block.height →
    t.highestQc = some (env.hash block) ∨ t.highestQc ≠ some (env.hash b)

namespace Consensus

variable {env : Env} {s : Consensus} {i : Input} {qc : QuorumCertificate} {block : Block}

lemma removeConflicting_spec (candidate : Block) (hashes : List Hash) :
    ∃ removed, removed ⊆ hashes ∧
      (removeConflicting env candidate hashes s).2.blocks = s.blocks.drop removed ∧
      (∀ h ∈ removed, ∀ b, s.pendingBlocks.lookup h = some b →
        s.preferCandidateBranch env candidate b) ∧
      ((removeConflicting env candidate hashes s).1 = .ok () → removed = hashes) ∧
      (∀ e, (removeConflicting env candidate hashes s).1 = .error e →
        ∃ h ∈ hashes, h ∉ removed ∧ (s.pendingBlocks.lookup h).isSome) := by
  induction hashes generalizing s with
  | nil => exact ⟨[], by simp [removeConflicting, BlockState.drop_nil]⟩
  | cons hash rest ih =>
    obtain ⟨removed, hsub, hblocks, hpref, hok, hstuck⟩ :=
      @ih { s with pendingBlocks := s.pendingBlocks.erase hash }
    by_cases hhead : ∀ b, s.pendingBlocks.lookup hash = some b →
      s.preferCandidateBranch env candidate b = true
    · have hrest : removeConflicting env candidate (hash :: rest) s = removeConflicting env
          candidate rest { s with pendingBlocks := s.pendingBlocks.erase hash } := by
        rw [removeConflicting]
        split
        · exact if_pos (hhead _ ‹_›)
        · rfl
      rw [hrest]
      refine ⟨hash :: removed, List.cons_subset_cons _ hsub, hblocks, fun h hmem b hb => ?_,
        fun h => by rw [hok h], fun e he => ?_⟩
      · -- the preference test reads only the highest certificate
        by_cases hne : h = hash
        · exact hhead b (hne ▸ hb)
        · exact hpref h ((List.mem_cons.1 hmem).resolve_left hne) b
            ((AList.lookup_erase_ne hne).trans hb)
      · -- the hash at which the rest gives up is not the head, which has left the map
        obtain ⟨h, hmem, hnot, hsome⟩ := hstuck e he
        have hne : h ≠ hash := by
          rintro rfl
          simp at hsome
        refine ⟨h, List.mem_cons_of_mem _ hmem, by simp [hne, hnot], ?_⟩
        rwa [AList.lookup_erase_ne hne] at hsome
    · push Not at hhead
      obtain ⟨b, hlook, hkept⟩ := hhead
      refine ⟨[], ?_⟩
      simp [removeConflicting, hlook, hkept, BlockState.drop_nil]

lemma mem_siblings {candidate b : Block} : b ∈ s.siblings env candidate ↔
    b ∈ s.blocks.pending.values ∧ b.parentHash = candidate.parentHash ∧
      env.hash b ≠ env.hash candidate := by
  simp [siblings, blocks]

/-- Fork resolution, if there is a fork, removes siblings under the longest-chain and
highest-certificate rules, and all of them when it succeeds. -/
lemma resolveFork_spec (candidate : Block) {r : Outcome Unit}
    (hr : r = if s.detectFork env candidate then s.resolveFork env candidate else (.ok (), s)) :
    ∃ removed, s.blocks.ForkResolved env candidate removed ∧ r.2.blocks = s.blocks.drop removed ∧
      (r.1 = .ok () → ∀ b ∈ s.siblings env candidate, env.hash b ∈ removed) ∧
      (∀ e, r.1 = .error e → removed = [] ∨ ∃ b ∈ s.siblings env candidate, env.hash b ∉ removed) := by
  unfold resolveFork at hr
  split_ifs at hr with hfork hlong <;> subst hr
  · exact ⟨[], ⟨by simp, by simp, by simp⟩, rfl, by simp, by simp⟩
  · obtain ⟨removed, hsub, hblocks, hpref, hok, hstuck⟩ :=
      @removeConflicting_spec env s candidate ((s.siblings env candidate).map env.hash)
    refine ⟨removed, ⟨?_, ?_, ?_⟩, hblocks, fun h b hb => hok h ▸ List.mem_map_of_mem hb,
      fun e he => ?_⟩
    · intro h hmem
      obtain ⟨b, hb, rfl⟩ := List.mem_map.1 (hsub hmem)
      obtain ⟨hval, hpar, hne⟩ := mem_siblings.1 hb
      exact ⟨b, hval, rfl, hpar, hne⟩
    · intro _ b hb
      have hall : s.applyLongestChainRule candidate = true := by simpa using hlong
      simp only [applyLongestChainRule, List.all_eq_true, decide_eq_true_eq] at hall
      exact hall b (by simp only [knownBlocks, List.mem_append]; exact .inl (.inl hb))
    · intro h hmem b hb hheight
      have hp := hpref h hmem b hb
      simpa [preferCandidateBranch, hheight] using hp
    · obtain ⟨h, hmem, hnot, -⟩ := hstuck e he
      obtain ⟨b, hb, rfl⟩ := List.mem_map.1 hmem
      exact .inr ⟨b, hb, hnot⟩
  · have hempty : s.siblings env candidate = [] := by simpa [detectFork] using hfork
    exact ⟨[], ⟨by simp, by simp, by simp⟩, rfl, by simp [hempty], by simp⟩

/-- A proposal that passes its checks removes siblings, and if it is accepted all of them, and
is then pending itself; if it is refused after a removal, a sibling is left. -/
structure ProposalEffect (env : Env) (s : Consensus) (block : Block) (r : Outcome Unit)
    (parent : Block) (removed : List Hash) : Prop where
  parent : ParentChecked env s block parent
  fork : s.blocks.ForkResolved env block removed
  refused : ∀ e, r.1 = .error e → removed = [] ∨
    ∃ b ∈ s.blocks.pending.values, b.parentHash = block.parentHash ∧ env.hash b ∉ removed
  blocks : (∀ e, r.1 = .error e → r.2.blocks = s.blocks.drop removed) ∧
    (r.1 = .ok () → r.2.blocks = (s.blocks.drop removed).addPending env block ∧
      ∀ b ∈ s.blocks.pending.values, b.parentHash = block.parentHash →
        env.hash b ≠ env.hash block → env.hash b ∈ removed)

/-- The view synchronization in front leaves the blocks alone. -/
lemma admitProposal_effect {s' : Consensus} {parent : Block} (hsync : s'.blocks = s.blocks)
    (hparent : ParentChecked env s block parent) :
    ∃ removed, ProposalEffect env s block (s'.admitProposal env block) parent removed := by
  have hrefused (e : ConsensusError) : ProposalEffect env s block (.error e, s') parent [] :=
    ⟨hparent, ⟨by simp, by simp, by simp⟩, fun _ _ => .inl rfl, fun _ _ => hsync, by simp⟩
  unfold admitProposal
  split
  · exact ⟨[], hrefused _⟩
  split
  · exact ⟨[], hrefused _⟩
  obtain ⟨removed, hfork, hblocks, hok, hstuck⟩ := @resolveFork_spec env s' block _ rfl
  simp only [mem_siblings, hsync] at hfork hblocks hok hstuck
  refine ⟨removed, ?_⟩
  split
  · rename_i heq
    rw [heq] at hblocks hok
    refine ⟨hparent, hfork, by simp, by simp,
      fun _ => ⟨?_, fun b hb hpar hne => hok rfl b ⟨hb, hpar, hne⟩⟩⟩
    rw [← hblocks]
    rfl
  · rename_i e _ heq
    rw [heq] at hblocks hstuck
    refine ⟨hparent, hfork, fun _ _ => (hstuck e rfl).imp_right ?_, fun _ _ => hblocks, by simp⟩
    rintro ⟨b, ⟨hval, hpar, -⟩, hnot⟩
    exact ⟨b, hval, hpar, hnot⟩

/-- A proposal leaves the blocks alone or has the effect above. -/
lemma processBlockProposal_spec (now : ℕ) (block : Block) :
    ((∃ e, (s.processBlockProposal env now block).1 = .error e) ∧
        (s.processBlockProposal env now block).2.blocks = s.blocks) ∨
      ∃ parent removed,
        ProposalEffect env s block (s.processBlockProposal env now block) parent removed := by
  unfold processBlockProposal
  split
  · exact .inl ⟨⟨_, rfl⟩, rfl⟩
  · rename_i hcheck
    obtain ⟨parent, hparent⟩ := checkProposal_ok hcheck
    have hsync : (s.syncToProposer env block.header.proposer).2.blocks = s.blocks :=
      blocks_syncToProposer _
    split
    · rename_i s' heq
      rw [heq] at hsync
      exact .inr ⟨parent, admitProposal_effect hsync hparent⟩
    · rename_i heq
      rw [heq] at hsync
      exact .inl ⟨⟨_, rfl⟩, hsync⟩

/-! ### Certificates and finalization -/

/-- The certificate makes the replica finalize the block: it verifies for the Commit phase, and
the block is pending and past its PreCommit certificate. -/
structure Finalizes (env : Env) (s : Consensus) (qc : QuorumCertificate) (block : Block) :
    Prop where
  verified : s.validatorSet.verifies env qc = true
  phase : qc.phase = .commit
  pending : s.pendingBlocks.lookup qc.blockHash = some block
  current : s.hotstuff.blockPhase.lookup qc.blockHash = some .preCommit ∨
    s.hotstuff.blockPhase.lookup qc.blockHash = some .finalize
  precommitted : (s.hotstuff.precommitQcs.lookup qc.blockHash).isSome = true

lemma finalizes_handing : Finalizes env (s.handing env i) qc block ↔ Finalizes env s qc block := by
  obtain ⟨view, viewRow, collector, rows, heq⟩ := handing_eq env s i
  rw [heq]
  exact ⟨fun h => { h with }, fun h => { h with }⟩

lemma blocks_recordFinalized (hash : Hash) (block : Block) :
    (s.recordFinalized env hash block).2.blocks = (s.markFinalized block).blocks := by
  obtain ⟨_, _, _, _, _, -, heq⟩ := @recordFinalized_eq env s hash block
  rw [heq]
  rfl

lemma blocks_pruneFinalized : s.pruneFinalized.blocks = { s.blocks with
    pending := s.blocks.pending.retain fun _ b => s.blocks.height < b.height
    committed := s.blocks.committed.retain fun _ b => s.blocks.height < b.height } := rfl

/-- Finalization of a pending block with a valid stored certificate, when nothing is committed
and the finalized tip is lower. -/
lemma blocks_finalizeBlockOnceQuorumReached {block : Block} {qc : QuorumCertificate}
    (hpending : s.pendingBlocks.lookup (env.hash block) = some block)
    (hcommitted : s.committedBlocks = ∅)
    (htip : ∀ tip, s.finalizedBlocks = some tip →
      env.hash tip.2 ≠ env.hash block ∧ tip.1 < block.height)
    (hrow : s.storage.qcRows.lookup (env.hash block) = some qc)
    (hvalid : s.validatorSet.verifies env qc = true) :
    (s.finalizeBlockOnceQuorumReached env (env.hash block)).2.blocks =
      s.blocks.finalize env block := by
  have hnotTip : s.finalizedBlocks.any (fun tip => env.hash tip.2 = env.hash block) = false := by
    cases hf : s.finalizedBlocks with
    | none => rfl
    | some tip => simpa using (htip tip hf).1
  have hheight : s.finalizedBlocks.any (fun tip => block.height ≤ tip.1) = false := by
    cases hf : s.finalizedBlocks with
    | none => rfl
    | some tip => simpa using (htip tip hf).2
  have hcommit : s.commitBlock env (env.hash block) = (.ok (), { s with
      pendingBlocks := s.pendingBlocks.erase (env.hash block)
      committedBlocks := s.committedBlocks.insert (env.hash block) block }) := by
    simp [commitBlock, hcommitted, hnotTip, hpending]
  have hlook : (s.committedBlocks.insert (env.hash block) block).lookup (env.hash block) =
      some block := by simp
  -- the block passes through the committed ones
  have hempty : (s.committedBlocks.insert (env.hash block) block).erase (env.hash block) = ∅ := by
    rw [hcommitted]
    apply AList.ext
    change List.kerase _ (_ :: List.kerase _ []) = []
    simp
  have hfinal : (finalizeBlock env { s with
      pendingBlocks := s.pendingBlocks.erase (env.hash block)
      committedBlocks := s.committedBlocks.insert (env.hash block) block } (env.hash block)) =
      recordFinalized env { s with
        pendingBlocks := s.pendingBlocks.erase (env.hash block)
        committedBlocks := ∅ } (env.hash block) block := by
    simp only [finalizeBlock, hnotTip, hheight, hlook, hempty, ensureCommittedBlockQcIsValid, hrow,
      hvalid, Bool.false_eq_true, if_false, if_true]
  have hblocks := @blocks_recordFinalized env { s with
    pendingBlocks := s.pendingBlocks.erase (env.hash block), committedBlocks := ∅ }
    (env.hash block) block
  simp only [finalizeBlockOnceQuorumReached, hcommit, hfinal]
  rw [blocks_pruneFinalized, hblocks]
  rfl

end Consensus

end Sxiaum
