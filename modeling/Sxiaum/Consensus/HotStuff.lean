import Sxiaum.Consensus.Vote

/-!
# The three-phase commit rule

`HotStuff` (`hotstuff/mod.rs`): the phase of each block, the lock, the ancestor walk of
the lock check and the pruning of old blocks. The validator slice, signer threshold and
voting power that the source passes to each check are always those of one validator set,
and the functions here take that set.
-/

namespace Sxiaum

def ancestorWalkLimit : ℕ := 4096

/-- How far a block has come. -/
inductive HotStuffPhase where
  | prepare
  | preCommit
  | commit
  | finalize
deriving DecidableEq, Repr

/-- The certificates and phases by block, and the lock. -/
structure HotStuff where
  prepareQcs : HashMap Hash QuorumCertificate
  blockPhase : HashMap Hash HotStuffPhase
  precommitQcs : HashMap Hash QuorumCertificate
  commitQcs : HashMap Hash QuorumCertificate
  lockedBlock : Option Hash
  lockedBlockHeight : Option ℕ
  highestQcView : ℕ
  blockParent : HashMap Hash Hash
  blockViews : HashMap Hash ℕ

namespace HotStuff

def new : HotStuff where
  prepareQcs := ∅
  blockPhase := ∅
  precommitQcs := ∅
  commitQcs := ∅
  lockedBlock := none
  lockedBlockHeight := none
  highestQcView := 0
  blockParent := ∅
  blockViews := ∅

def updateLockedBlock (hs : HotStuff) (blockHash : Hash) (height : ℕ) : HotStuff :=
  { hs with lockedBlock := some blockHash, lockedBlockHeight := some height }

def updateHighestQc (hs : HotStuff) (qc : QuorumCertificate) : HotStuff :=
  { hs with highestQcView := if hs.highestQcView < qc.view then qc.view else hs.highestQcView }

/-! ### The lock check -/

/-- The walk of `extends_locked_block` from `current`; `aboveLocked` is the answer when the
ancestry runs out before the locked block is met. -/
def ancestorWalk (hs : HotStuff) (locked : Hash) (aboveLocked : Bool) :
    ℕ → List Hash → Hash → Bool
  | 0, _, _ => aboveLocked
  | fuel + 1, visited, current =>
    if current = locked then true
    else if current = 0 then aboveLocked
    else if current ∈ visited then aboveLocked
    else
      match hs.blockParent.lookup current with
      | some parent => ancestorWalk hs locked aboveLocked fuel (current :: visited) parent
      | none => aboveLocked

variable (env : Env)

/-- Yes also where the known links break off above a locked height. -/
def extendsLockedBlock (hs : HotStuff) (locked : Hash) (block : Block) : Bool :=
  if env.hash block = locked then true
  else
    match hs.lockedBlockHeight with
    | some lockedHeight =>
      if block.height ≤ lockedHeight then false
      else ancestorWalk hs locked true ancestorWalkLimit [] block.parentHash
    | none => ancestorWalk hs locked false ancestorWalkLimit [] block.parentHash

/-- Without a lock there is no conflict. -/
def voteConflictsWithLockedBlock (hs : HotStuff) (block : Block) : Bool :=
  match hs.lockedBlock with
  | some locked => !extendsLockedBlock env hs locked block
  | none => false

/-! ### The phase checks -/

def verifyPreparePhase (hs : HotStuff) (set : ValidatorSet) (block : Block)
    (qc : QuorumCertificate) : Bool :=
  env.validateBasic block && qc.blockHash = env.hash block &&
  (match hs.lockedBlock with
    | some locked => extendsLockedBlock env hs locked block
    | none => true) &&
  (match hs.prepareQcs.lookup block.parentHash with
    | some parentQc => parentQc.blockHash = block.parentHash
    | none => true) &&
  set.verifies env qc

def verifyPreCommitPhase (hs : HotStuff) (set : ValidatorSet) (blockHash : Hash)
    (qc : QuorumCertificate) : Bool :=
  (hs.prepareQcs.lookup blockHash).isSome && qc.blockHash = blockHash && set.verifies env qc

def verifyCommitPhase (hs : HotStuff) (set : ValidatorSet) (blockHash : Hash)
    (qc : QuorumCertificate) : Bool :=
  (hs.precommitQcs.lookup blockHash).isSome && qc.blockHash = blockHash && set.verifies env qc

/-! ### The commit rule -/

def targetPhase : VotePhase → HotStuffPhase
  | .prepare => .prepare
  | .preCommit => .preCommit
  | .commit => .finalize

/-- A repeated certificate replaces the stored one unless it has fewer signatures. -/
def refresh (m : HashMap Hash QuorumCertificate) (blockHash : Hash) (qc : QuorumCertificate) :
    HashMap Hash QuorumCertificate :=
  if ((m.lookup blockHash).map (·.signatures.length)).getD 0 ≤ qc.signatures.length then
    m.insert blockHash qc
  else m

def applyThreePhaseCommitRule (hs : HotStuff) (set : ValidatorSet) (block : Block)
    (qc : QuorumCertificate) : Except ConsensusError (HotStuffPhase × HotStuff) :=
  let blockHash := env.hash block
  match hs.blockPhase.lookup blockHash, targetPhase qc.phase with
  | none, .prepare =>
    if verifyPreparePhase env hs set block qc then
      .ok (.prepare,
        { hs.updateHighestQc qc with
          blockParent := hs.blockParent.insert blockHash block.parentHash
          blockViews := hs.blockViews.insert blockHash qc.view
          prepareQcs := hs.prepareQcs.insert blockHash qc
          blockPhase := hs.blockPhase.insert blockHash .prepare })
    else .error .preparePhaseFailed
  | some .prepare, .prepare =>
    .ok (.prepare,
      { hs.updateHighestQc qc with prepareQcs := refresh hs.prepareQcs blockHash qc })
  | some .prepare, .preCommit =>
    if verifyPreCommitPhase env hs set blockHash qc then
      .ok (.preCommit,
        { (hs.updateHighestQc qc).updateLockedBlock blockHash block.height with
          precommitQcs := hs.precommitQcs.insert blockHash qc
          blockPhase := hs.blockPhase.insert blockHash .preCommit })
    else .error .preCommitPhaseFailed
  | some .preCommit, .preCommit =>
    .ok (.preCommit,
      { hs.updateHighestQc qc with precommitQcs := refresh hs.precommitQcs blockHash qc })
  | some .preCommit, .finalize =>
    if verifyCommitPhase env hs set blockHash qc then
      .ok (.finalize,
        { hs.updateHighestQc qc with
          commitQcs := hs.commitQcs.insert blockHash qc
          blockPhase := hs.blockPhase.insert blockHash .finalize })
    else .error .commitPhaseFailed
  | some .finalize, .finalize =>
    .ok (.finalize,
      { hs.updateHighestQc qc with commitQcs := refresh hs.commitQcs blockHash qc })
  | some .finalize, .prepare | some .finalize, .preCommit => .ok (.finalize, hs)
  | some .preCommit, .prepare => .ok (.preCommit, hs)
  | _, _ => .error .invalidPhaseTransition

/-! ### Pruning -/

/-- The walk of `protect_ancestor_chains` from one survivor. -/
def protectWalk (hs : HotStuff) (candidates : List Hash) : ℕ → List Hash → Hash → List Hash
  | 0, kept, _ => kept
  | fuel + 1, kept, current =>
    if current = 0 ∨ current ∉ candidates ∨ current ∈ kept then kept
    else
      match hs.blockParent.lookup current with
      | some parent => protectWalk hs candidates fuel (current :: kept) parent
      | none => current :: kept

/-- Ancestors of a block that is kept are kept. -/
def protectAncestorChains (hs : HotStuff) (candidates : List Hash) : List Hash :=
  hs.blockViews.keys.foldl
    (fun kept survivor =>
      if survivor ∈ candidates then kept
      else
        match hs.blockParent.lookup survivor with
        | some parent => protectWalk hs candidates ancestorWalkLimit kept parent
        | none => kept)
    []

def remove (hs : HotStuff) (hash : Hash) : HotStuff :=
  { hs with
    prepareQcs := hs.prepareQcs.erase hash
    precommitQcs := hs.precommitQcs.erase hash
    commitQcs := hs.commitQcs.erase hash
    blockParent := hs.blockParent.erase hash
    blockViews := hs.blockViews.erase hash
    blockPhase := hs.blockPhase.erase hash }

def prune (hs : HotStuff) (minViewToKeep : ℕ) : HotStuff :=
  let hashesToPrune := (hs.blockViews.entries.filter fun e =>
    e.2 < minViewToKeep && hs.lockedBlock ≠ some e.1).map Sigma.fst
  let protectedAncestors := protectAncestorChains hs hashesToPrune
  (hashesToPrune.filter (· ∉ protectedAncestors)).foldl remove hs

/-! ### The transitions of the commit rule -/

/-- The successful transitions of `apply_three_phase_commit_rule`. -/
inductive CommitRule (env : Env) (hs : HotStuff) (set : ValidatorSet) (block : Block)
    (qc : QuorumCertificate) : HotStuffPhase → HotStuff → Prop
  | prepare (hcur : hs.blockPhase.lookup (env.hash block) = none) (hqc : qc.phase = .prepare)
      (hverify : verifyPreparePhase env hs set block qc = true) :
      CommitRule env hs set block qc .prepare
        { hs.updateHighestQc qc with
          blockParent := hs.blockParent.insert (env.hash block) block.parentHash
          blockViews := hs.blockViews.insert (env.hash block) qc.view
          prepareQcs := hs.prepareQcs.insert (env.hash block) qc
          blockPhase := hs.blockPhase.insert (env.hash block) .prepare }
  | prepareAgain (hcur : hs.blockPhase.lookup (env.hash block) = some .prepare)
      (hqc : qc.phase = .prepare) :
      CommitRule env hs set block qc .prepare
        { hs.updateHighestQc qc with
          prepareQcs := refresh hs.prepareQcs (env.hash block) qc }
  | preCommit (hcur : hs.blockPhase.lookup (env.hash block) = some .prepare)
      (hqc : qc.phase = .preCommit)
      (hverify : verifyPreCommitPhase env hs set (env.hash block) qc = true) :
      CommitRule env hs set block qc .preCommit
        { (hs.updateHighestQc qc).updateLockedBlock (env.hash block) block.height with
          precommitQcs := hs.precommitQcs.insert (env.hash block) qc
          blockPhase := hs.blockPhase.insert (env.hash block) .preCommit }
  | preCommitAgain (hcur : hs.blockPhase.lookup (env.hash block) = some .preCommit)
      (hqc : qc.phase = .preCommit) :
      CommitRule env hs set block qc .preCommit
        { hs.updateHighestQc qc with
          precommitQcs := refresh hs.precommitQcs (env.hash block) qc }
  | finalize (hcur : hs.blockPhase.lookup (env.hash block) = some .preCommit)
      (hqc : qc.phase = .commit)
      (hverify : verifyCommitPhase env hs set (env.hash block) qc = true) :
      CommitRule env hs set block qc .finalize
        { hs.updateHighestQc qc with
          commitQcs := hs.commitQcs.insert (env.hash block) qc
          blockPhase := hs.blockPhase.insert (env.hash block) .finalize }
  | finalizeAgain (hcur : hs.blockPhase.lookup (env.hash block) = some .finalize)
      (hqc : qc.phase = .commit) :
      CommitRule env hs set block qc .finalize
        { hs.updateHighestQc qc with commitQcs := refresh hs.commitQcs (env.hash block) qc }
  | afterFinalize (hcur : hs.blockPhase.lookup (env.hash block) = some .finalize)
      (hqc : qc.phase ≠ .commit) : CommitRule env hs set block qc .finalize hs
  | afterPreCommit (hcur : hs.blockPhase.lookup (env.hash block) = some .preCommit)
      (hqc : qc.phase = .prepare) : CommitRule env hs set block qc .preCommit hs

/-- The rule succeeds exactly by one of its transitions. -/
theorem applyThreePhaseCommitRule_ok {env : Env} {hs hs' : HotStuff} {set : ValidatorSet}
    {block : Block} {qc : QuorumCertificate} {advanced : HotStuffPhase} :
    applyThreePhaseCommitRule env hs set block qc = .ok (advanced, hs') ↔
      CommitRule env hs set block qc advanced hs' := by
  constructor
  · intro h
    -- by the phase of the block and that of the certificate
    cases hcur : hs.blockPhase.lookup (env.hash block) with
    | none =>
      cases hqc : qc.phase <;> simp only [applyThreePhaseCommitRule, hcur, hqc, targetPhase] at h
      · split at h
        · rename_i hverify
          cases h
          exact .prepare hcur hqc hverify
        · cases h
      · cases h
      · cases h
    | some phase =>
      cases phase <;> cases hqc : qc.phase <;>
        simp only [applyThreePhaseCommitRule, hcur, hqc, targetPhase] at h
      case prepare.prepare =>
        cases h
        exact .prepareAgain hcur hqc
      case prepare.preCommit =>
        split at h
        · rename_i hverify
          cases h
          exact .preCommit hcur hqc hverify
        · cases h
      case preCommit.prepare =>
        cases h
        exact .afterPreCommit hcur hqc
      case preCommit.preCommit =>
        cases h
        exact .preCommitAgain hcur hqc
      case preCommit.commit =>
        split at h
        · rename_i hverify
          cases h
          exact .finalize hcur hqc hverify
        · cases h
      case finalize.prepare =>
        cases h
        exact .afterFinalize hcur (by simp [hqc])
      case finalize.preCommit =>
        cases h
        exact .afterFinalize hcur (by simp [hqc])
      case finalize.commit =>
        cases h
        exact .finalizeAgain hcur hqc
      -- the other pairs are refused
      all_goals cases h
  · intro h
    cases h with
    | prepare hcur hqc hverify | preCommit hcur hqc hverify | finalize hcur hqc hverify =>
      simp [applyThreePhaseCommitRule, hcur, hqc, targetPhase, hverify]
    | prepareAgain hcur hqc | preCommitAgain hcur hqc | finalizeAgain hcur hqc
    | afterPreCommit hcur hqc => simp [applyThreePhaseCommitRule, hcur, hqc, targetPhase]
    | afterFinalize hcur hqc =>
      cases hp : qc.phase with
      | prepare | preCommit => simp [applyThreePhaseCommitRule, hcur, hp, targetPhase]
      | commit => exact absurd hp hqc

end HotStuff

end Sxiaum
