import Sxiaum.Consensus.Lock

/-!
# The lock rule of the prepare check

`extends_locked_block` walks the known parent links from a block towards the locked block.
A block at or below a known locked height passes only as the locked block itself. A block above
it has the benefit of the doubt where its known links break off before they come down to the
locked height. Where the locked height is not known, as after a restart, the walk decides, and
the links it follows are those of the block tree.
-/

namespace Sxiaum.HotStuff

variable {env : Env} {hs : HotStuff} {locked current : Hash} {n : ℕ}

/-! ### Known ancestry -/

/-- `locked` is `n` known parent links up from `current`, none of them out of the zero hash. -/
def KnownPath (hs : HotStuff) (locked : Hash) : ℕ → Hash → Prop
  | 0, current => current = locked
  | n + 1, current =>
    current ≠ 0 ∧ ∃ parent, hs.blockParent.lookup current = some parent ∧
      KnownPath hs locked n parent

/-- The known parent links break off `n` links up from `current`. -/
def BreaksOff (hs : HotStuff) : ℕ → Hash → Prop
  | 0, current => current ≠ 0 ∧ hs.blockParent.lookup current = none
  | n + 1, current =>
    current ≠ 0 ∧ ∃ parent, hs.blockParent.lookup current = some parent ∧ BreaksOff hs n parent

/-- The locked block is reached from the parent of the block within the limit of the walk. -/
def KnownAncestor (hs : HotStuff) (locked : Hash) (block : Block) : Prop :=
  ∃ n < ancestorWalkLimit, hs.KnownPath locked n block.parentHash

/-- The known links break off above a height: the ancestor at that height is not known. -/
def Unproven (hs : HotStuff) (height : ℕ) (block : Block) : Prop :=
  ∃ n, hs.BreaksOff n block.parentHash ∧ height + n + 1 < block.height

/-- A walk that starts above the locked height cannot fail. -/
lemma ancestorWalk_above (fuel : ℕ) (visited : List Hash) (current : Hash) :
    hs.ancestorWalk locked true fuel visited current = true := by
  induction fuel generalizing visited current with
  | zero => rfl
  | succ fuel ih =>
    simp only [ancestorWalk]
    split_ifs
    · rfl
    · rfl
    · rfl
    · split
      · exact ih _ _
      · rfl

lemma knownPath_of_ancestorWalk {fuel : ℕ} {visited : List Hash}
    (h : hs.ancestorWalk locked false fuel visited current = true) :
    ∃ n < fuel, hs.KnownPath locked n current := by
  induction fuel generalizing visited current with
  | zero => cases h
  | succ fuel ih =>
    simp only [ancestorWalk] at h
    split_ifs at h with hlocked hzero hvisited
    · exact ⟨0, Nat.succ_pos fuel, hlocked⟩
    · split at h
      · rename_i parent hparent
        obtain ⟨n, hn, hpath⟩ := ih h
        exact ⟨n + 1, Nat.succ_lt_succ hn, hzero, parent, hparent, hpath⟩
      · cases h

/-- The walk finds the locked block at the end of a shortest path: along it, no hash that was
visited earlier comes back. -/
lemma ancestorWalk_of_shortest {fuel : ℕ} {visited : List Hash} (hn : n < fuel)
    (hpath : hs.KnownPath locked n current)
    (hshortest : ∀ m < n, ¬ hs.KnownPath locked m current)
    (hvisited : ∀ v ∈ visited, ∀ m ≤ n, ¬ hs.KnownPath locked m v) :
    hs.ancestorWalk locked false fuel visited current = true := by
  induction n generalizing fuel visited current with
  | zero =>
    obtain ⟨fuel, rfl⟩ := Nat.exists_eq_succ_of_ne_zero (Nat.ne_of_gt hn)
    simp [ancestorWalk, show current = locked from hpath]
  | succ n ih =>
    obtain ⟨fuel, rfl⟩ := Nat.exists_eq_succ_of_ne_zero (Nat.ne_of_gt (Nat.zero_lt_of_lt hn))
    have hlocked : current ≠ locked := hshortest 0 (Nat.succ_pos n)
    have hnew : current ∉ visited := fun hmem => hvisited current hmem (n + 1) le_rfl hpath
    obtain ⟨hzero, parent, hparent, hrest⟩ := hpath
    have hstep : hs.ancestorWalk locked false fuel (current :: visited) parent = true := by
      refine ih (Nat.lt_of_succ_lt_succ hn) hrest (fun m hm hshort => ?_) (fun v hv m hm => ?_)
      · exact hshortest (m + 1) (Nat.succ_lt_succ hm) ⟨hzero, parent, hparent, hshort⟩
      · rcases List.mem_cons.1 hv with rfl | hv
        · exact hshortest m (Nat.lt_succ_of_le hm)
        · exact hvisited v hv m (Nat.le_succ_of_le hm)
    simp [ancestorWalk, hlocked, hzero, hnew, hparent, hstep]

/-- Without a known locked height the walk decides known ancestry, up to its limit. -/
theorem ancestorWalk_iff (fuel : ℕ) (current : Hash) :
    hs.ancestorWalk locked false fuel [] current = true ↔
      ∃ n < fuel, hs.KnownPath locked n current := by
  refine ⟨knownPath_of_ancestorWalk, fun ⟨n, hn, hpath⟩ => ?_⟩
  classical
  have hex : ∃ n, hs.KnownPath locked n current := ⟨n, hpath⟩
  have hle : Nat.find hex ≤ n := Nat.find_min' hex hpath
  exact ancestorWalk_of_shortest (lt_of_le_of_lt hle hn) (Nat.find_spec hex)
    (fun m hm => Nat.find_min hex hm) (by simp)

/-! ### The lock rule -/

/-- What `extends_locked_block` asks of a block. -/
def LockRule (env : Env) (hs : HotStuff) (locked : Hash) (block : Block) : Prop :=
  env.hash block = locked ∨
    match hs.lockedBlockHeight with
    | some height => height < block.height
    | none => hs.KnownAncestor locked block

theorem extendsLockedBlock_iff (block : Block) :
    hs.extendsLockedBlock env locked block = true ↔ hs.LockRule env locked block := by
  unfold extendsLockedBlock LockRule
  split_ifs with hself
  · simp [hself]
  · cases hs.lockedBlockHeight with
    | none => simp [hself, ancestorWalk_iff, KnownAncestor]
    | some height => simp [hself, ancestorWalk_above]

/-- What the prepare check asks of a block and its certificate apart from the lock. -/
structure Preparable (env : Env) (hs : HotStuff) (set : ValidatorSet) (block : Block)
    (qc : QuorumCertificate) : Prop where
  basic : env.validateBasic block = true
  names : qc.blockHash = env.hash block
  parentQc : ∀ parentQc, hs.prepareQcs.lookup block.parentHash = some parentQc →
    parentQc.blockHash = block.parentHash
  verified : set.verifies env qc = true

lemma lockCheck_iff (block : Block) :
    (match hs.lockedBlock with
      | some locked => hs.extendsLockedBlock env locked block
      | none => true) = true ↔
      ∀ locked, hs.lockedBlock = some locked → hs.LockRule env locked block := by
  cases hs.lockedBlock with
  | none => simp
  | some locked => simp [extendsLockedBlock_iff]

lemma parentCheck_iff (block : Block) :
    (match hs.prepareQcs.lookup block.parentHash with
      | some parentQc => decide (parentQc.blockHash = block.parentHash)
      | none => true) = true ↔ ∀ parentQc,
        hs.prepareQcs.lookup block.parentHash = some parentQc →
          parentQc.blockHash = block.parentHash := by
  cases hs.prepareQcs.lookup block.parentHash with
  | none => simp
  | some parentQc => simp

theorem verifyPreparePhase_iff (set : ValidatorSet) (block : Block) (qc : QuorumCertificate) :
    hs.verifyPreparePhase env set block qc = true ↔ hs.Preparable env set block qc ∧
      ∀ locked, hs.lockedBlock = some locked → hs.LockRule env locked block := by
  unfold verifyPreparePhase
  simp only [Bool.and_eq_true, decide_eq_true_eq]
  constructor
  · rintro ⟨⟨⟨⟨hbasic, hnames⟩, hrule⟩, hqc⟩, hverified⟩
    exact ⟨⟨hbasic, hnames, (parentCheck_iff block).1 hqc, hverified⟩,
      (lockCheck_iff block).1 hrule⟩
  · rintro ⟨⟨hbasic, hnames, hqc, hverified⟩, hrule⟩
    exact ⟨⟨⟨⟨hbasic, hnames⟩, (lockCheck_iff block).2 hrule⟩, (parentCheck_iff block).2 hqc⟩,
      hverified⟩

end Sxiaum.HotStuff

namespace Sxiaum.HotStuff

variable {env : Env} {hs hs' : HotStuff} {set : ValidatorSet} {block : Block}
  {qc : QuorumCertificate} {advanced : HotStuffPhase} {locked : Hash} {n : ℕ}

/-! ### The block tree -/

/-- The block is the locked block or descends from it along parent hashes. -/
inductive Descends (env : Env) (locked : Hash) : Block → Prop
  | self {b : Block} (h : env.hash b = locked) : Descends env locked b
  | child {b : Block} (h : b.parentHash = locked) : Descends env locked b
  | link {b parent : Block} (h : b.parentHash = env.hash parent) :
      Descends env locked parent → Descends env locked b

/-- Every known parent link is the link of a block. -/
def TrueLinks (env : Env) (hs : HotStuff) : Prop :=
  ∀ h p, hs.blockParent.lookup h = some p → ∃ b, env.hash b = h ∧ b.parentHash = p

/-- A set of hashes that is closed under parents and does not hold the locked block holds no
descendant of it. -/
lemma Descends.not_mem_closed {S : Set Hash} (hclosed : ∀ b, env.hash b ∈ S → b.parentHash ∈ S)
    (hlocked : locked ∉ S) (h : Descends env locked block) : env.hash block ∉ S := by
  induction h with
  | self h => rwa [h]
  | child h => exact fun hmem => hlocked (h ▸ hclosed _ hmem)
  | link h _ ih => exact fun hmem => ih (h ▸ hclosed _ hmem)

lemma TrueLinks.descends (htrue : hs.TrueLinks env)
    (hpath : hs.KnownPath locked n block.parentHash) : Descends env locked block := by
  induction n generalizing block with
  | zero => exact .child hpath
  | succ n ih =>
    obtain ⟨-, p, hlookup, hrest⟩ := hpath
    obtain ⟨parent, hhash, rfl⟩ := htrue _ p hlookup
    exact .link hhash.symm (ih hrest)

lemma TrueLinks.rule (htrue : hs.TrueLinks env)
    (hrule : hs.CommitRule env set block qc advanced hs') : hs'.TrueLinks env := by
  cases hrule with
  | prepare hcur hqc hverify => exact AList.forall_lookup_insert htrue ⟨block, rfl, rfl⟩
  | _ => exact htrue

lemma TrueLinks.foldl_remove (htrue : hs.TrueLinks env) (hashes : List Hash) :
    (hashes.foldl remove hs).TrueLinks env := by
  induction hashes generalizing hs with
  | nil => exact htrue
  | cons hash rest ih => exact ih (AList.forall_lookup_erase htrue)

end Sxiaum.HotStuff

namespace Sxiaum.Consensus

open HotStuff (Descends TrueLinks)

variable {env : Env} {s : Consensus}

lemma trueLinks_start (st : ConsensusStorage) : ((new st).start env).2.hotstuff.TrueLinks env := by
  have hempty : ((new st).start env).2.hotstuff.blockParent = ∅ := by
    rcases start_new st with ⟨e, -, hstart⟩ | ⟨set, -, hstart⟩ <;> rw [hstart] <;> rfl
  intro h p hlookup
  simp [hempty] at hlookup

/-- In every state of every run, restarts included, the known parent links are true. -/
theorem Reachable.trueLinks (h : Reachable env s) : s.hotstuff.TrueLinks env := by
  induction h with
  | start st => exact trueLinks_start st
  | step i _ ih =>
    rcases hotstuff_step i with hsame | ⟨qc, -, block, advanced, hs, -, hrule, hend⟩
    · rwa [hsame]
    · rcases hend with hend | ⟨minView, hend⟩
      · rw [hend]
        exact ih.rule hrule
      · rw [hend]
        exact (ih.rule hrule).foldl_remove _

/-- In every reachable state with a locked block, a block that passes the prepare check passes
the other checks and is the locked one, or is above the locked height where that is known, or
descends from the locked block by known links where it is not. A block that passes the other
checks is accepted if it is the locked one, if known links lead from it to the locked one (and it
is above a known locked height), or if its known links break off above the locked height. -/
theorem prepareCheck_lockRule (h : Reachable env s) {locked : Hash}
    (hlocked : s.hotstuff.lockedBlock = some locked) (block : Block) (qc : QuorumCertificate) :
    let hs := s.hotstuff
    (hs.verifyPreparePhase env s.validatorSet block qc = true →
      hs.Preparable env s.validatorSet block qc ∧
        (env.hash block = locked ∨ match hs.lockedBlockHeight with
          | some height => height < block.height
          | none => hs.KnownAncestor locked block ∧ Descends env locked block)) ∧
    (hs.Preparable env s.validatorSet block qc →
      (env.hash block = locked ∨ match hs.lockedBlockHeight with
        | some height => height < block.height ∧
            (hs.KnownAncestor locked block ∨ hs.Unproven height block)
        | none => hs.KnownAncestor locked block) →
      hs.verifyPreparePhase env s.validatorSet block qc = true) := by
  intro hs
  have hiff : hs.verifyPreparePhase env s.validatorSet block qc = true ↔
      hs.Preparable env s.validatorSet block qc ∧ hs.LockRule env locked block := by
    simp [HotStuff.verifyPreparePhase_iff, hs, hlocked]
  rw [hiff]
  constructor
  · rintro ⟨hpreparable, hself | hrule⟩
    · exact ⟨hpreparable, .inl hself⟩
    · refine ⟨hpreparable, .inr ?_⟩
      split at hrule
      · exact hrule
      · obtain ⟨n, hn, hpath⟩ := hrule
        exact ⟨⟨n, hn, hpath⟩, h.trueLinks.descends hpath⟩
  · rintro hpreparable (hself | hrule)
    · exact ⟨hpreparable, .inl hself⟩
    · refine ⟨hpreparable, .inr ?_⟩
      split at hrule
      · exact hrule.1
      · exact hrule

/-! ### A conflicting block above the lock -/

def lockedReplica : Consensus :=
  run .sample ((new sampleStorage).start .sample).2
    [.updateValidatorSet [.sample 1 1], .proposal 0 (sampleChain 1),
      .certificate (.sample (sampleChain 1) 5 .prepare [1]),
      .certificate (.sample (sampleChain 1) 5 .preCommit [1])]

/-- A branch beside the locked block; the replica has seen none of its blocks. -/
def siblingBlock : ℕ → Block
  | 0 => Block.sample (Env.sample.hash (sampleChain 0)) 1 2
  | n + 1 => Block.sample (Env.sample.hash (siblingBlock n)) (n + 2) 2

lemma not_descends_siblingBlock :
    ¬ Descends .sample (Env.sample.hash (sampleChain 1)) (siblingBlock 2) := by
  let branch : Set Hash := { h | (∃ n ≤ 2, h = Env.sample.hash (siblingBlock n)) ∨
    h = Env.sample.hash (sampleChain 0) ∨ h = 0 }
  have hclosed : ∀ b, Env.sample.hash b ∈ branch → b.parentHash ∈ branch := by
    have hparent : ∀ {a b : Block}, Env.sample.hash b = Env.sample.hash a →
        b.parentHash = a.parentHash := fun h => (Env.header_eq_of_hash_eq Env.sample_injective h).2
    rintro b (⟨_ | n, hn, h⟩ | h | h)
    · exact .inr (.inl (hparent h))
    · exact .inl ⟨n, Nat.le_of_succ_le hn, hparent h⟩
    · exact .inr (.inr (hparent h))
    · cases h
  refine fun h => h.not_mem_closed hclosed ?_ (.inl ⟨2, le_rfl, rfl⟩)
  rintro (⟨n, hn, h⟩ | h | h)
  · interval_cases n <;> revert h <;> decide +kernel
  · revert h
    decide +kernel
  · revert h
    decide +kernel

/-- With the first block locked in view 5, a certificate of view 0 gets a block of another
branch through the prepare check: its parent is at height 2 and not known. -/
theorem prepareCheck_accepts_conflict :
    Reachable .sample lockedReplica ∧
      lockedReplica.lock = ⟨some (Env.sample.hash (sampleChain 1)), some 1, some 1⟩ ∧
      lockedReplica.hotstuff.blockViews.lookup (Env.sample.hash (sampleChain 1)) = some 5 ∧
      lockedReplica.hotstuff.Unproven 1 (siblingBlock 2) ∧
      ¬ Descends .sample (Env.sample.hash (sampleChain 1)) (siblingBlock 2) ∧
      lockedReplica.hotstuff.verifyPreparePhase .sample lockedReplica.validatorSet
        (siblingBlock 2) (.sample (siblingBlock 2) 0 .prepare [1]) = true := by
  refine ⟨(Reachable.start sampleStorage).run _, by decide +kernel, by decide +kernel,
    ⟨0, ⟨by decide +kernel, by decide +kernel⟩, by decide +kernel⟩, not_descends_siblingBlock,
    by decide +kernel⟩

/-- After a restart the height of the lock is not known; the next block of the chain still
passes, as a descendant of the locked block. -/
theorem prepareCheck_after_restart : let s := (lockedReplica.restart .sample).2
    s.hotstuff.lockedBlock = some (Env.sample.hash (sampleChain 1)) ∧
      s.hotstuff.lockedBlockHeight = none ∧
      (Env.sample.hash (sampleChain 2) = Env.sample.hash (sampleChain 1) ∨
        match s.hotstuff.lockedBlockHeight with
        | some height => height < (sampleChain 2).height
        | none => s.hotstuff.KnownAncestor (Env.sample.hash (sampleChain 1)) (sampleChain 2) ∧
            Descends .sample (Env.sample.hash (sampleChain 1)) (sampleChain 2)) := by
  intro s
  have hlocked : s.hotstuff.lockedBlock = some (Env.sample.hash (sampleChain 1)) := by
    decide +kernel
  have hreach : Reachable .sample s := .restart lockedReplica
  have hspec := prepareCheck_lockRule hreach hlocked (sampleChain 2)
    (.sample (sampleChain 2) 6 .prepare [1])
  have hrule := (hspec.1 (by decide +kernel)).2
  exact ⟨hlocked, by decide +kernel, hrule⟩

end Sxiaum.Consensus
