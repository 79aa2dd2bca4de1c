import Sxiaum.Consensus.FinalizedChain

/-!
# Precommitted blocks hold their height

Once a replica has taken a PreCommit certificate of a pending block, fork resolution can no
longer remove that block: it has the highest certificate or a pending block above it. The
block stays pending until its height is finalized, so in a run without restarts the replica
takes PreCommit certificates of at most one block at each height.
-/

namespace Sxiaum

namespace BlockState

variable {env : Env} {t : BlockState} {block : Block} {hash : Hash} {height : ℕ}

/-- A block holds its height: it is pending, with the highest certificate or a pending block
above it, or the height is finalized. -/
inductive Held (env : Env) (t : BlockState) (hash : Hash) (height : ℕ) : Prop
  | pending (b : Block) (lookup : t.pending.lookup hash = some b) (hheight : b.height = height)
      (top : t.highestQc = some hash ∨ ∃ c ∈ t.pendingSet, height < c.height)
  | finalized (h : height ≤ t.height)

/-- A block that ranks above the finalized height is pending. -/
lemma WellFormed.pending_of_heightOf (hwf : t.WellFormed env) (h : t.height < t.heightOf env hash) :
    ∃ c, t.pending.lookup hash = some c ∧ t.heightOf env hash = c.height := by
  cases hlookup : t.pending.lookup hash with
  | some c => exact ⟨c, rfl, by simp [heightOf, find, hlookup]⟩
  | none =>
    exfalso
    cases hf : t.finalized with
    | none => simp [heightOf, find, hlookup, hwf.committed, hf] at h
    | some f =>
      obtain ⟨hheight, htip⟩ := hwf.tip f hf
      simp only [heightOf, find, hlookup, hwf.committed, AList.lookup_empty, hf] at h
      split_ifs at h
      · simp at h
        omega
      · simp at h

lemma heightOf_pending {b : Block} (h : t.pending.lookup hash = some b) :
    t.heightOf env hash = b.height := by
  simp [heightOf, find, h]

namespace Held

variable (hwf : t.WellFormed env)

include hwf

lemma of_certify {b : Block} (hb : t.pending.lookup hash = some b) :
    (t.certify env hash).Held env hash b.height := by
  have hmem : b ∈ t.pendingSet := AList.mem_values.2 ⟨hash, hb⟩
  have habove : t.height < b.height := hwf.chain.above b hmem
  refine .pending b (by rwa [certify_pending]) rfl ?_
  unfold BlockState.certify
  split
  · exact .inl rfl
  · rename_i highest _
    split_ifs with hle
    · exact .inl rfl
    · -- the highest certificate stays with a block above this one
      rw [heightOf_pending hb] at hle
      have hrank : t.height < t.heightOf env highest := by omega
      obtain ⟨c, hc, hheight⟩ := hwf.pending_of_heightOf hrank
      exact .inr ⟨c, AList.mem_values.2 ⟨highest, hc⟩, by omega⟩

/-- A later certificate passes the highest rank on only to a block above. -/
lemma certify (h : t.Held env hash height) (other : Hash) :
    (t.certify env other).Held env hash height := by
  cases h with
  | finalized h =>
    obtain ⟨highest, heq⟩ := @certify_eq env t other
    rw [heq]
    exact .finalized h
  | pending b lookup hheight top =>
    subst hheight
    have hmem : b ∈ t.pendingSet := AList.mem_values.2 ⟨hash, lookup⟩
    refine .pending b (by rwa [certify_pending]) rfl ?_
    rw [pendingSet, certify_pending]
    rcases top with top | top
    · simp only [BlockState.certify, top]
      split_ifs with hle
      · rw [heightOf_pending lookup] at hle
        have hrank : t.height < t.heightOf env other :=
          lt_of_lt_of_le (hwf.chain.above b hmem) hle
        obtain ⟨c, hc, hheight⟩ := hwf.pending_of_heightOf hrank
        have hcmem : c ∈ t.pendingSet := AList.mem_values.2 ⟨other, hc⟩
        rcases Nat.lt_or_eq_of_le (hheight ▸ hle) with hlt | heq
        · exact .inr ⟨c, hcmem, hlt⟩
        · refine .inl (congrArg some ?_)
          rw [← hwf.keyed other c hc, ← hwf.keyed hash b lookup]
          exact hwf.chain.unique c hcmem b hmem heq.symm
      · exact .inl top
    · exact .inr top

lemma eq_of_pending (h : t.Held env hash height) {c : Block}
    (hc : c ∈ t.pendingSet) (hheight : c.height = height) : env.hash c = hash := by
  cases h with
  | finalized h =>
    have := hwf.chain.above c hc
    omega
  | pending b lookup hb top =>
    rw [← hwf.keyed hash b lookup]
    exact hwf.chain.unique c hc b (AList.mem_values.2 ⟨hash, lookup⟩) (by omega)

variable (hinj : Function.Injective env.hashHeader)

include hinj

lemma finalize (h : t.Held env hash height) (hblock : block ∈ t.pendingSet) :
    (t.finalize env block).Held env hash height := by
  cases h with
  | finalized h => exact .finalized (le_trans h (hwf.chain.above block hblock).le)
  | pending b lookup hheight top =>
    subst hheight
    by_cases hle : b.height ≤ block.height
    · exact .finalized hle
    · have hlt : block.height < b.height := Nat.lt_of_not_le hle
      have hmem : b ∈ t.pendingSet := AList.mem_values.2 ⟨hash, lookup⟩
      have hkept := (hwf.mem_pendingSet_finalize hinj).2 ⟨hmem, hlt⟩
      refine .pending b ?_ rfl (top.imp_right ?_)
      · rw [← hwf.keyed hash b lookup]
        exact (hwf.finalize hinj hblock).mem_pendingSet.1 hkept
      · rintro ⟨c, hc, hbc⟩
        exact ⟨c, (hwf.mem_pendingSet_finalize hinj).2 ⟨hc, by omega⟩, hbc⟩

variable {removed : List Hash} (hfork : t.ForkResolved env block removed)
  (hlinks : t.LinksTo env block)

include hfork hlinks

lemma not_mem_removed {b : Block} (lookup : t.pending.lookup hash = some b)
    (top : t.highestQc = some hash ∨ ∃ c ∈ t.pendingSet, b.height < c.height) :
    hash ∉ removed := by
  intro hremoved
  have hmem : b ∈ t.pendingSet := AList.mem_values.2 ⟨hash, lookup⟩
  have hkey : env.hash b = hash := hwf.keyed hash b lookup
  have hheight : b.height = block.height :=
    hwf.removed_height hinj hfork hlinks hmem (hkey ▸ hremoved)
  obtain ⟨b', -, hb', -, hne⟩ := hfork.siblings hash hremoved
  rcases top with top | ⟨c, hc, hlt⟩
  · rcases hfork.preferred hash hremoved b lookup hheight with hcand | hother
    · exact hne (Option.some.inj (top.symm.trans hcand))
    · exact hother (by rw [hkey, top])
  · have hlong := hfork.longest (List.ne_nil_of_mem hremoved) c hc
    omega

lemma addPending (h : t.Held env hash height) :
    ((t.drop removed).addPending env block).Held env hash height := by
  cases h with
  | finalized h => exact .finalized h
  | pending b lookup hheight top =>
    subst hheight
    have hkeep := not_mem_removed hwf hinj hfork hlinks lookup top
    have hkey : env.hash b = hash := hwf.keyed hash b lookup
    -- a pending block is still pending, or the new block stands at its height
    have hstill : ∀ c ∈ t.pendingSet,
        ∃ c' ∈ ((t.drop removed).addPending env block).pendingSet, c'.height = c.height := by
      intro c hc
      have hdrop := hwf.drop hinj hfork hlinks
      by_cases hgone : env.hash c ∈ removed
      · exact ⟨block, hdrop.mem_pendingSet_addPending.2 (.inl rfl),
          (hwf.removed_height hinj hfork hlinks hc hgone).symm⟩
      · by_cases hsame : env.hash c = env.hash block
        · exact ⟨block, hdrop.mem_pendingSet_addPending.2 (.inl rfl),
            (Env.header_eq_of_hash_eq hinj hsame).1.symm⟩
        · exact ⟨c, hdrop.mem_pendingSet_addPending.2
            (.inr ⟨hwf.mem_pendingSet_drop.2 ⟨hc, hgone⟩, hsame⟩), rfl⟩
    have htop : ((t.drop removed).addPending env block).highestQc = some hash ∨
        ∃ c ∈ ((t.drop removed).addPending env block).pendingSet, b.height < c.height := by
      refine top.imp_right ?_
      rintro ⟨c, hc, hlt⟩
      obtain ⟨c', hc', hheight⟩ := hstill c hc
      exact ⟨c', hc', by omega⟩
    by_cases hsame : hash = env.hash block
    · subst hsame
      exact .pending block (AList.lookup_insert _) (Env.header_eq_of_hash_eq hinj hkey).1.symm htop
    · refine .pending b ?_ rfl htop
      rw [BlockState.addPending, AList.lookup_insert_ne hsame, lookup_drop, if_neg hkeep]
      exact lookup

end Held

/-! ### What an input does to the blocks -/

/-- The moves of a well-formed block state. -/
inductive Move (env : Env) (t : BlockState) : BlockState → Prop
  | same : Move env t t
  | addPending (block : Block) (removed : List Hash) (hfork : t.ForkResolved env block removed)
      (hlinks : t.LinksTo env block) : Move env t ((t.drop removed).addPending env block)
  | certify (hash : Hash) : Move env t (t.certify env hash)
  | finalize (hash : Hash) (block : Block) (hblock : t.pending.lookup hash = some block) :
      Move env t ((t.certify env hash).finalize env block)

lemma Move.held {t' : BlockState} (hmove : t.Move env t') (hwf : t.WellFormed env)
    (hinj : Function.Injective env.hashHeader) (h : t.Held env hash height) :
    t'.Held env hash height := by
  cases hmove with
  | same => exact h
  | addPending block removed hfork hlinks => exact h.addPending hwf hinj hfork hlinks
  | certify other => exact h.certify hwf other
  | finalize other block hblock =>
    refine (h.certify hwf other).finalize (hwf.certify other) hinj ?_
    rw [pendingSet, certify_pending]
    exact AList.mem_values.2 ⟨other, hblock⟩

end BlockState

namespace Consensus

variable {env : Env} {s : Consensus}

section

variable (hinj : Function.Injective env.hashHeader) (hwf : s.blocks.WellFormed env)

include hinj hwf

lemma move_proposal (now : ℕ) {block : Block} (hheight : block.height < u64Max) :
    s.blocks.Move env (s.processBlockProposal env now block).2.blocks := by
  rcases @processBlockProposal_spec env s now block with ⟨-, heq⟩ | ⟨parent, removed, heff⟩
  · rw [heq]
    exact .same
  · have hlinks := heff.parent.linksTo hwf hheight
    cases hres : (s.processBlockProposal env now block).1 with
    | error e =>
      -- a candidate has at most one sibling, so a refused proposal has removed nothing
      have hnil : removed = [] := by
        rcases heff.refused e hres with hnil | ⟨b, hb, hparent, hkept⟩
        · exact hnil
        · by_contra hne
          obtain ⟨h, hmem⟩ := List.exists_mem_of_ne_nil removed hne
          obtain ⟨c, hc, rfl, -⟩ := heff.fork.siblings h hmem
          have hcheight := hwf.removed_height hinj heff.fork hlinks hc hmem
          have hbheight : b.height = block.height :=
            LinkedChain.height_eq_of_links (fun _ _ e => (Env.header_eq_of_hash_eq hinj e).1)
              (fun _ hp => hwf.ne_root hinj hp) (hwf.chain.linked b hb) hlinks hparent
          exact hkept (hwf.chain.unique b hb c hc (by omega) ▸ hmem)
      rw [heff.blocks.1 e hres, hnil]
      exact .same
    | ok _ =>
      rw [(heff.blocks.2 hres).1]
      exact .addPending block removed heff.fork hlinks

lemma move_step {i : Input} (hrange : i.InRange) : s.blocks.Move env (s.step env i).blocks := by
  cases hqc : s.certificateOf env i with
  | none =>
    rcases step_of_certificateOf_none hqc with ⟨now, block, rfl⟩ | ⟨_, _, _, _, _, _, heq⟩
    · exact move_proposal hinj hwf now hrange
    · rw [heq]
      exact .same
  | some qc =>
    rcases step_blocks_of_certificateOf hinj hwf.placed hqc with ⟨-, heq | heq⟩ | ⟨b, hb, heq⟩
    · exact heq ▸ .same
    · exact heq ▸ .certify _
    · exact heq ▸ .finalize _ b hb.pending

end

/-! ### Accepted PreCommit certificates -/

/-- A PreCommit certificate that is processed without an error names a pending block, and that
block then holds its height. -/
lemma held_of_preCommit (hwf : s.blocks.WellFormed env) {qc : QuorumCertificate}
    (hqc : qc.phase = .preCommit) {advanced : HotStuffPhase}
    (hok : (s.processQuorumCertificate env qc).1 = .ok advanced) :
    ∃ b, s.pendingBlocks.lookup qc.blockHash = some b ∧
      (s.processQuorumCertificate env qc).2.blocks.Held env qc.blockHash b.height := by
  have heffect := @processQuorumCertificate_effect env s qc
  generalize s.processQuorumCertificate env qc = outcome at heffect hok ⊢
  cases heffect with
  | rejected hinvalid => cases hok
  | recorded hvalid e hstop => cases hok
  | applied hvalid block hpending advanced hs hrule r hphase =>
    refine ⟨block, hpending, ?_⟩
    cases hphase with
    | failed advanced e hpre hcommit => cases hok
    | prepared hqc' hverify | finalized hqc' hverify r hstate => simp [hqc] at hqc'
    | locked hqc' hverify =>
      have hheld := BlockState.Held.of_certify hwf hpending
      rw [← @blocks_certified env s qc hs] at hheld
      exact hheld

/-- The same for an accepted certificate, received or completed by a vote. -/
lemma held_of_accepted (hwf : s.blocks.WellFormed env) {i : Input} {qc : QuorumCertificate}
    (haccepted : s.acceptedBy env i = some qc) (hqc : qc.phase = .preCommit) :
    ∃ b, s.pendingBlocks.lookup qc.blockHash = some b ∧
      (s.step env i).blocks.Held env qc.blockHash b.height := by
  cases i with
  | certificate qc' =>
    simp only [acceptedBy] at haccepted
    split at haccepted
    · rename_i advanced hok
      cases haccepted
      exact held_of_preCommit hwf hqc hok
    · cases haccepted
  | vote vote =>
    have hblocks : (s.admitVote env vote).2.blocks = s.blocks :=
      @blocks_handing env s (.vote vote)
    rcases hadmitted : s.admitVote env vote with ⟨e | _ | qc', s'⟩
    · simp [acceptedBy, processVote, hadmitted] at haccepted
    · simp [acceptedBy, processVote, hadmitted] at haccepted
    · rw [hadmitted] at hblocks
      simp only at hblocks
      rcases hres : s'.processQuorumCertificate env qc' with ⟨e | advanced, s''⟩
      · simp [acceptedBy, processVote, hadmitted, hres] at haccepted
      · simp only [acceptedBy, processVote, hadmitted, hres, Option.some.injEq] at haccepted
        subst haccepted
        have hheld := held_of_preCommit (hblocks ▸ hwf) hqc (congrArg Prod.fst hres)
        have hpending : s'.pendingBlocks = s.pendingBlocks := congrArg BlockState.pending hblocks
        have hstep : s.step env (.vote vote) = s'' := by
          simp [step, processVote, hadmitted, hres]
        rwa [hpending, hres, ← hstep] at hheld
  | _ => cases haccepted

end Consensus

end Sxiaum
