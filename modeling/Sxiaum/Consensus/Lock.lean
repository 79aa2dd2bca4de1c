import Sxiaum.Consensus.CertificateFlow

/-!
# The lock

A PreCommit certificate locks its block: HotStuff keeps the locked block and its height,
and the proposal check keeps a second copy of the height. This module says when a run
moves the lock and what the prepare check makes of it.
-/

namespace Sxiaum.Consensus

variable {env : Env} {s : Consensus} {qc : QuorumCertificate} {block : Block}

/-- The lock of a replica; `guard` is the height that proposals are compared with. -/
structure Lock where
  block : Option Hash
  height : Option ℕ
  guard : Option ℕ
deriving DecidableEq

def lock (s : Consensus) : Lock where
  block := s.hotstuff.lockedBlock
  height := s.hotstuff.lockedBlockHeight
  guard := s.lockedBlockHeight

end Sxiaum.Consensus

namespace Sxiaum.HotStuff

variable {env : Env} {hs hs' : HotStuff} {set : ValidatorSet} {block : Block}
  {qc : QuorumCertificate} {advanced : HotStuffPhase}

lemma foldl_remove_lock (hs : HotStuff) (hashes : List Hash) :
    (hashes.foldl remove hs).lockedBlock = hs.lockedBlock ∧
      (hashes.foldl remove hs).lockedBlockHeight = hs.lockedBlockHeight := by
  induction hashes generalizing hs with
  | nil => exact ⟨rfl, rfl⟩
  | cons h rest ih => exact ih (hs.remove h)

/-- The commit rule locks a prepared block on its PreCommit certificate and keeps the lock in
every other transition; a transition on a PreCommit certificate keeps the Prepare ones. -/
lemma CommitRule.lock (h : CommitRule env hs set block qc advanced hs') :
    (qc.phase = .preCommit → hs'.prepareQcs = hs.prepareQcs) ∧
      (if qc.phase = .preCommit ∧ hs.blockPhase.lookup (env.hash block) = some .prepare then
        advanced = .preCommit ∧ hs'.lockedBlock = some (env.hash block) ∧
          hs'.lockedBlockHeight = some block.height
      else
        (qc.phase = .preCommit → hs.blockPhase.lookup (env.hash block) = some .preCommit →
          advanced = .preCommit) ∧
        (advanced = .preCommit → hs.blockPhase.lookup (env.hash block) = some .preCommit) ∧
        hs'.lockedBlock = hs.lockedBlock ∧ hs'.lockedBlockHeight = hs.lockedBlockHeight) := by
  cases h with
  | prepare hcur hqc _ | preCommitAgain hcur hqc => simp [hqc, hcur, updateHighestQc]
  | prepareAgain hcur hqc | finalize hcur hqc _ | finalizeAgain hcur hqc =>
    simp [hqc, updateHighestQc]
  | preCommit hcur hqc _ => simp [hqc, hcur, updateHighestQc, updateLockedBlock]
  | afterFinalize hcur hqc => simp [hcur]
  | afterPreCommit hcur hqc => simp [hqc, hcur]

end Sxiaum.HotStuff

namespace Sxiaum.Consensus

variable {env : Env} {s : Consensus} {qc : QuorumCertificate} {block : Block}

lemma lock_finalizeBlockOnceQuorumReached (hash : Hash) :
    (s.finalizeBlockOnceQuorumReached env hash).2.lock = s.lock := by
  have hof : ∀ s' : Consensus, s'.lock =
      ⟨s'.voting.hotstuff.lockedBlock, s'.voting.hotstuff.lockedBlockHeight, s'.voting.guard⟩ :=
    fun _ => rfl
  rw [hof, hof s]
  rcases (@voting_finalizeBlockOnceQuorumReached env s hash).2 with h | h
  · rw [h]
  · -- pruning never moves the lock
    obtain ⟨hblock, hheight⟩ := HotStuff.foldl_remove_lock s.voting.hotstuff _
    rw [h, Voting.prune, HotStuff.prune, hblock, hheight]

/-! ### Certificates and the lock -/

/-- A PreCommit certificate that the phase check accepts for a pending block in a phase. -/
structure PreCommits (env : Env) (s : Consensus) (qc : QuorumCertificate) (block : Block)
    (current : HotStuffPhase) : Prop where
  pending : s.pendingBlocks.lookup qc.blockHash = some block
  phase : qc.phase = .preCommit
  verified : s.hotstuff.verifyPreCommitPhase env s.validatorSet (env.hash block) qc = true
  current : s.hotstuff.blockPhase.lookup (env.hash block) = some current

lemma PreCommits.unique {b b' : Block} {p p' : HotStuffPhase} (h : PreCommits env s qc b p)
    (h' : PreCommits env s qc b' p') : b = b' :=
  Option.some.inj (h.pending.symm.trans h'.pending)

lemma PreCommits.verifies {p : HotStuffPhase} (h : PreCommits env s qc block p) :
    s.validatorSet.verifies env qc = true := by
  have hverified := h.verified
  simp only [HotStuff.verifyPreCommitPhase, Bool.and_eq_true] at hverified
  exact hverified.2

/-- What a certificate does to the lock: it keeps it, it locks a prepared block, or it moves
the guard by repeating a PreCommit certificate. -/
inductive LockEffect (env : Env) (s : Consensus) (qc : QuorumCertificate) : Lock → Prop
  | keep (hset : ∀ b, ¬ PreCommits env s qc b .prepare)
      (hguard : ∀ b, ¬ PreCommits env s qc b .preCommit) : LockEffect env s qc s.lock
  | set (b : Block) (h : PreCommits env s qc b .prepare) :
      LockEffect env s qc ⟨some (env.hash b), some b.height, some b.height⟩
  | guard (b : Block) (h : PreCommits env s qc b .preCommit) :
      LockEffect env s qc { s.lock with guard := some b.height }

theorem lockEffect_processQuorumCertificate :
    LockEffect env s qc (s.processQuorumCertificate env qc).2.lock := by
  have hrecord : (s.recordCertificate env qc).lock = s.lock := by simp [lock]
  have heffect := @processQuorumCertificate_effect env s qc
  generalize s.processQuorumCertificate env qc = outcome at heffect ⊢
  cases heffect with
  | rejected hinvalid =>
    have hnot : ∀ p b, ¬ PreCommits env s qc b p := fun p b hb => by
      simp [hb.verifies] at hinvalid
    exact .keep (hnot _) (hnot _)
  | recorded hvalid e hstop =>
    rw [hrecord]
    refine .keep (fun b hb => ?_) (fun b hb => ?_)
    · exact hstop b hb.pending _ _ (.preCommit hb.current hb.phase hb.verified)
    · exact hstop b hb.pending _ _ (.preCommitAgain hb.current hb.phase)
  | applied hvalid block hpending advanced hs hrule r hphase =>
    have hsame : ∀ {p : HotStuffPhase} {b : Block}, PreCommits env s qc b p → b = block :=
      fun hb => Option.some.inj (hb.pending.symm.trans hpending)
    obtain ⟨hkeep, hmove⟩ := hrule.lock
    -- on a PreCommit certificate the check after the rule is the check before it
    have hcheck : qc.phase = .preCommit →
        (s.certified env qc hs).hotstuff.verifyPreCommitPhase env
          (s.certified env qc hs).validatorSet (env.hash block) qc =
        s.hotstuff.verifyPreCommitPhase env s.validatorSet (env.hash block) qc := by
      intro hqc
      simp [HotStuff.verifyPreCommitPhase, hkeep hqc]
    by_cases hsets : qc.phase = .preCommit ∧
        s.hotstuff.blockPhase.lookup (env.hash block) = some .prepare
    · rw [if_pos hsets] at hmove
      obtain ⟨hadv, hblock, hheight⟩ := hmove
      obtain ⟨hqc, hcur⟩ := hsets
      subst hadv
      have hverified : s.hotstuff.verifyPreCommitPhase env s.validatorSet (env.hash block) qc =
          true := by
        cases hrule <;> simp_all
      have hset := LockEffect.set block ⟨hpending, hqc, hverified, hcur⟩
      cases hphase with
      | failed advanced e hfail hcommit =>
        have hverify := hfail hqc rfl
        rw [hcheck hqc, hverified] at hverify
        cases hverify
      | locked hqc' hverify => simpa [lock, hblock, hheight] using hset
    · rw [if_neg hsets] at hmove
      obtain ⟨hadv, hadv', hblock, hheight⟩ := hmove
      have hlock : (s.certified env qc hs).lock = s.lock := by simp [lock, hblock, hheight]
      have hnot : ∀ b, ¬ PreCommits env s qc b .prepare := fun b hb => by
        obtain rfl := hsame hb
        exact hsets ⟨hb.phase, hb.current⟩
      cases hphase with
      | failed advanced e hfail hcommit =>
        rw [hlock]
        refine .keep hnot fun b hb => ?_
        obtain rfl := hsame hb
        have hverify := hfail hb.phase (hadv hb.phase hb.current)
        rw [hcheck hb.phase, hb.verified] at hverify
        cases hverify
      | prepared hqc hverify =>
        rw [hlock]
        exact .keep hnot fun b hb => by simp [hb.phase] at hqc
      | locked hqc hverify =>
        rw [hcheck hqc] at hverify
        have hguard := LockEffect.guard block ⟨hpending, hqc, hverify, hadv' rfl⟩
        simpa [lock, hblock, hheight] using hguard
      | finalized hqc hverify r hstate =>
        rw [hstate, lock_finalizeBlockOnceQuorumReached, hlock]
        exact .keep hnot fun b hb => by simp [hb.phase] at hqc

/-- An input moves the lock only through the certificate it hands over. -/
theorem lockEffect_step (i : Input) :
    (s.certificateOf env i = none ∧ (s.step env i).lock = s.lock) ∨
      ∃ qc, s.certificateOf env i = some qc ∧ LockEffect env s qc (s.step env i).lock := by
  cases hqc : s.certificateOf env i with
  | none =>
    refine .inl ⟨rfl, ?_⟩
    rcases step_of_certificateOf_none hqc with ⟨now, block, rfl⟩ | ⟨_, _, _, _, _, _, heq⟩
    · obtain ⟨_, _, _, heq⟩ := @processBlockProposal_eq env s block now
      rw [step, heq]
      rfl
    · rw [heq]
      rfl
  | some qc =>
    refine .inr ⟨qc, rfl, ?_⟩
    rw [step_of_certificateOf hqc]
    -- a vote has changed nothing that the lock reads
    have heffect := @lockEffect_processQuorumCertificate env (s.handing env i) qc
    obtain ⟨_, _, _, _, heq⟩ := handing_eq env s i
    generalize ((s.handing env i).processQuorumCertificate env qc).2.lock = l at heffect ⊢
    rw [heq] at heffect
    cases heffect with
    | keep hset hguard =>
      exact .keep (fun b h => hset b { h with }) fun b h => hguard b { h with }
    | set b h => exact .set b { h with }
    | guard b h => exact .guard b { h with }

/-! ### The lock over a run -/

/-- Whether a certificate takes a prepared block to PreCommit and so sets the lock. -/
def setsLock (env : Env) (s : Consensus) (qc : QuorumCertificate) : Bool :=
  match s.pendingBlocks.lookup qc.blockHash with
  | none => false
  | some block =>
    qc.phase == .preCommit &&
      s.hotstuff.verifyPreCommitPhase env s.validatorSet (env.hash block) qc &&
      s.hotstuff.blockPhase.lookup (env.hash block) == some .prepare

/-- The view of the certificate that set the lock, after an input; `view` is the one before. -/
def lockView (env : Env) (s : Consensus) (view : Option ℕ) (i : Input) : Option ℕ :=
  match s.certificateOf env i with
  | some qc => if s.setsLock env qc then some qc.view else view
  | none => view

/-- A known height is followed by one that is known and not lower. -/
def HeightKept (before after : Option ℕ) : Prop :=
  ∀ h ∈ before, ∃ h' ∈ after, h ≤ h'

instance (before after : Option ℕ) : Decidable (HeightKept before after) :=
  inferInstanceAs (Decidable (∀ h ∈ before, ∃ h' ∈ after, h ≤ h'))

/-- The lock goes from `s` to `s'` without going back: only a certificate of a view not below
the one that set the lock replaces the locked block, and no height falls. -/
structure LockKept (env : Env) (s : Consensus) (view : Option ℕ) (i : Input) : Prop where
  block : (s.step env i).lock.block ≠ s.lock.block →
    ∀ qc ∈ s.certificateOf env i, ∀ v ∈ view, v ≤ qc.view
  height : HeightKept s.lock.height (s.step env i).lock.height
  guard : HeightKept s.lock.guard (s.step env i).lock.guard

instance (view : Option ℕ) (i : Input) : Decidable (LockKept env s view i) :=
  decidable_of_iff (((s.step env i).lock.block ≠ s.lock.block →
      ∀ qc ∈ s.certificateOf env i, ∀ v ∈ view, v ≤ qc.view) ∧
      HeightKept s.lock.height (s.step env i).lock.height ∧
      HeightKept s.lock.guard (s.step env i).lock.guard)
    ⟨fun h => ⟨h.1, h.2.1, h.2.2⟩, fun h => ⟨h.block, h.height, h.guard⟩⟩

/-- The lock never goes back over a run. -/
def LockNeverBack (env : Env) (s : Consensus) (view : Option ℕ) : List Input → Prop
  | [] => True
  | i :: rest =>
    LockKept env s view i ∧ LockNeverBack env (s.step env i) (s.lockView env view i) rest

instance decidableLockNeverBack (s : Consensus) (view : Option ℕ) :
    (inputs : List Input) → Decidable (LockNeverBack env s view inputs)
  | [] => inferInstanceAs (Decidable True)
  | i :: rest =>
    have := decidableLockNeverBack (s.step env i) (s.lockView env view i) rest
    inferInstanceAs (Decidable (LockKept env s view i ∧ _))

/-- A certificate is not stale: where it would set the lock, its block is the locked one or
its view is not below the one that set the lock, and its block is not below a locked height
that it would overwrite. -/
structure NotStale (env : Env) (s : Consensus) (view : Option ℕ) (qc : QuorumCertificate) :
    Prop where
  view : ∀ b, PreCommits env s qc b .prepare →
    s.lock.block = some (env.hash b) ∨ ∀ v ∈ view, v ≤ qc.view
  height : ∀ b, PreCommits env s qc b .prepare → ∀ h ∈ s.lock.height, h ≤ b.height
  guard : ∀ b, PreCommits env s qc b .prepare ∨ PreCommits env s qc b .preCommit →
    ∀ h ∈ s.lock.guard, h ≤ b.height

/-- No certificate of a run is stale where it arrives. -/
def NoneStale (env : Env) (s : Consensus) (view : Option ℕ) : List Input → Prop
  | [] => True
  | i :: rest =>
    (∀ qc ∈ s.certificateOf env i, NotStale env s view qc) ∧
      NoneStale env (s.step env i) (s.lockView env view i) rest

lemma HeightKept.refl (h : Option ℕ) : HeightKept h h := fun n hn => ⟨n, hn, le_refl n⟩

lemma heightKept_some {before : Option ℕ} {n : ℕ} :
    HeightKept before (some n) ↔ ∀ h ∈ before, h ≤ n := by
  simp [HeightKept]

lemma lockKept_iff (view : Option ℕ) (i : Input) :
    LockKept env s view i ↔ ∀ qc ∈ s.certificateOf env i, NotStale env s view qc := by
  rcases lockEffect_step i with ⟨hnone, hsame⟩ | ⟨qc, hqc, heffect⟩
  · have hkept : LockKept env s view i :=
      ⟨fun hne => absurd (congrArg Lock.block hsame) hne, hsame ▸ .refl _, hsame ▸ .refl _⟩
    simp [hnone, hkept]
  · have hkept : LockKept env s view i ↔
        ((s.step env i).lock.block ≠ s.lock.block → ∀ v ∈ view, v ≤ qc.view) ∧
          HeightKept s.lock.height (s.step env i).lock.height ∧
          HeightKept s.lock.guard (s.step env i).lock.guard := by
      refine ⟨fun h => ⟨fun hne => h.block hne qc hqc, h.height, h.guard⟩,
        fun h => ⟨?_, h.2.1, h.2.2⟩⟩
      rintro hne qc' hqc'
      obtain rfl := Option.some.inj (hqc.symm.trans hqc')
      exact h.1 hne
    rw [hkept, hqc]
    simp only [Option.mem_some, forall_eq']
    generalize (s.step env i).lock = l at heffect ⊢
    cases heffect with
    | keep hset hguard =>
      have hfresh : NotStale env s view qc :=
        ⟨fun b hb => absurd hb (hset b), fun b hb => absurd hb (hset b),
          fun b hb => absurd hb (not_or.2 ⟨hset b, hguard b⟩)⟩
      simp [hfresh, HeightKept.refl]
    | set b h =>
      simp only [heightKept_some]
      constructor
      · rintro ⟨hview, hheight, hguard⟩
        refine ⟨fun b' h' => ?_, fun b' h' => ?_, fun b' h' => ?_⟩
        · obtain rfl := h.unique h'
          exact or_iff_not_imp_left.2 fun hne => hview (Ne.symm hne)
        · exact h.unique h' ▸ hheight
        · rcases h' with h' | h' <;> exact h.unique h' ▸ hguard
      · rintro ⟨hview, hheight, hguard⟩
        exact ⟨fun hne => (hview b h).resolve_left (Ne.symm hne), hheight b h, hguard b (.inl h)⟩
    | guard b h =>
      have hnot : ∀ b', ¬ PreCommits env s qc b' .prepare := fun b' h' => by
        obtain rfl := h.unique h'
        cases h.current.symm.trans h'.current
      simp only [heightKept_some, ne_eq, not_true_eq_false, false_imp_iff, true_and]
      constructor
      · rintro ⟨-, hguard⟩
        refine ⟨fun b' h' => absurd h' (hnot b'), fun b' h' => absurd h' (hnot b'), ?_⟩
        rintro b' (h' | h')
        · exact absurd h' (hnot b')
        · exact h.unique h' ▸ hguard
      · exact fun hfresh => ⟨.refl _, hfresh.guard b (.inr h)⟩

/-- From every state, and for every run: the lock never goes back if and only if no certificate
is stale where it arrives. -/
theorem lockNeverBack_iff (s : Consensus) (view : Option ℕ) (inputs : List Input) :
    LockNeverBack env s view inputs ↔ NoneStale env s view inputs := by
  induction inputs generalizing s view with
  | nil => rfl
  | cons i rest ih => rw [LockNeverBack, NoneStale, lockKept_iff, ih]

def lockingRun : List Input :=
  [.updateValidatorSet [.sample 1 1], .proposal 0 (sampleChain 1), .proposal 0 (sampleChain 2),
    .certificate (.sample (sampleChain 1) 0 .prepare [1]),
    .certificate (.sample (sampleChain 2) 1 .prepare [1]),
    .certificate (.sample (sampleChain 2) 1 .preCommit [1])]

def lateCertificate : QuorumCertificate := .sample (sampleChain 1) 0 .preCommit [1]

/-- The late certificate of the lower block replaces the lock of the upper one. -/
theorem lock_goes_back : let s := run .sample ((new sampleStorage).start .sample).2 lockingRun
    s.validatorSet.verifies .sample lateCertificate = true ∧
      s.lock = ⟨some (Env.sample.hash (sampleChain 2)), some 2, some 2⟩ ∧
      (s.step .sample (.certificate lateCertificate)).lock =
        ⟨some (Env.sample.hash (sampleChain 1)), some 1, some 1⟩ ∧
      ¬ LockNeverBack .sample ((new sampleStorage).start .sample).2 none
        (lockingRun ++ [.certificate lateCertificate]) := by
  decide +kernel

end Sxiaum.Consensus
