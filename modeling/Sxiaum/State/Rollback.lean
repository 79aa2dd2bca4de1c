import Sxiaum.Execution.PipelineEffect
import Sxiaum.Execution.SequentialFees
import Sxiaum.State.Operations

/-!
# Rollbacks

A rollback makes the changes of the undo log and takes the tree of the last commit. Commits,
snapshots and rollbacks are the points to which it should lead back; a commit and a rollback
empty the undo log, but a snapshot leaves it as it is and only forgets which keys are marked.
After a snapshot, the log therefore has old entries: a rollback takes them back too, and the rows
are then older than the tree.
-/

namespace Sxiaum

open StateProgram UndoLog

variable {T : Type} {env : TransitionEnv T} {c s : OpenDb T}

/-! ### What a rollback is for -/

/-- A state row: an account, a slot, code, a vesting schedule. -/
def DbKey.IsState (k : DbKey) : Prop := ∃ key, k = .state key

/-- The state rows and the root of the tree are those of `c`. -/
structure Restored (ops : TreeOps T) (c s : OpenDb T) : Prop where
  rows : SameRows c.table s.table
  root : ops.rootCommitment s.db.tree = ops.rootCommitment c.db.tree

/-- The tree has the root of the tree of the rows. -/
def Agrees (ops : TreeOps T) (s : OpenDb T) : Prop :=
  ∃ tree, StateDb.rebuiltTree ops s.table = .ok tree ∧
    ops.rootCommitment tree = ops.rootCommitment s.db.tree

/-- The state at the last commit or snapshot, after another step. -/
def DbStep.checkpoint (env : TransitionEnv T) (step : DbStep) (c s : OpenDb T) : OpenDb T :=
  match step with
  | .commit => step.next env s
  | .snapshotState => step.next env s
  | _ => c

/-- What holds of the last commit or snapshot and the state before each rollback of a run. -/
def AtRollbacks (env : TransitionEnv T) (P : OpenDb T → OpenDb T → Prop) :
    OpenDb T → OpenDb T → List DbStep → Prop
  | _, _, [] => True
  | c, s, step :: steps =>
    (step = .rollback → P c s) ∧
      AtRollbacks env P (step.checkpoint env c s) (step.next env s) steps

/-- The rollback of `s` leads back to `c`, and to rows and a tree that agree. -/
def RollsBack (env : TransitionEnv T) (c s : OpenDb T) : Prop :=
  Restored env.ops c (DbStep.rollback.next env s) ∧ Agrees env.ops (DbStep.rollback.next env s)

/-! ### One step -/

/-- `c` is the last checkpoint of `s`. -/
def Since (c s : OpenDb T) : Prop :=
  Logged (Tracks DbKey.IsState c.table.lookup) (fun _ _ => True) c.db.tree s

/-- A state that nothing has been written to since it was committed. -/
structure Committed (s : OpenDb T) : Prop where
  unmarked : s.db.dirtyKeys = ∅
  tree : s.db.committedTree = s.db.tree

lemma Committed.since (h : Committed s) : Since s s := by
  refine ⟨?_, fun _ _ => trivial, h.tree⟩
  have hlog : s.db.toUndoLog = ⟨s.db.undoLog, ∅⟩ := by
    rw [← h.unmarked]
  rw [hlog]
  exact tracks_unmarked _ _

lemma committed_new (table : StateTable) (ops : TreeOps T) :
    Committed (⟨table, StateDb.new ops⟩ : OpenDb T) := ⟨rfl, rfl⟩

lemma committed_commit : Committed (DbStep.commit.next env s) := ⟨rfl, rfl⟩

lemma committed_snapshotState : Committed (DbStep.snapshotState.next env s) := ⟨rfl, rfl⟩

lemma Since.write (h : Since c s) (w : DbWrite) : Since c ((DbStep.write w).next env s) :=
  TreeDb.keeps_logged_perform (fun _ _ => trivial) journal_tracks (by simp [DbKey.IsState])
    (fun _ => trivial) (.inr fun _ _ => trivial) s h

lemma next_rollback : DbStep.rollback.next env s = rolledBack env.ops s := rfl

/-- A rollback restores the checkpoint exactly if the undo log has no old entries. -/
theorem Since.restored_iff (h : Since c s) :
    Restored env.ops c (DbStep.rollback.next env s) ↔
      NoStale DbKey.IsState s.db.toUndoLog s.table := by
  have hrow : ∀ key, (rolledBack env.ops s).table.lookup (.state key) =
      (s.table.putAll s.db.changes).lookup (.state key) := fun key =>
    (AList.lookup_put _ _ _ _).trans (if_neg (by simp))
  rw [next_rollback, ← h.log.undone_iff]
  constructor
  · rintro ⟨hrows, -⟩ _ ⟨key, rfl⟩
    rw [← hrow, hrows key]
  · intro hundone
    refine ⟨fun key => (hrow key).trans (hundone _ ⟨key, rfl⟩), ?_⟩
    exact congrArg env.ops.rootCommitment h.committed

lemma Since.rollback (h : Since c s) (hrestored : Restored env.ops c (DbStep.rollback.next env s)) :
    Since c (DbStep.rollback.next env s) where
  log := {
    recorded := fun k _ hk => absurd hk (Finset.notMem_empty k)
    kept := by
      rintro _ ⟨key, rfl⟩ -
      exact hrestored.rows key }
  staged := fun _ _ => trivial
  committed := h.committed

lemma Restored.agrees_iff {s' : OpenDb T} (h : Restored env.ops c s') :
    Agrees env.ops s' ↔ Agrees env.ops c := by
  unfold Agrees
  rw [rebuiltTree_congr h.rows, h.root]

lemma Since.rollsBack_iff (h : Since c s) :
    RollsBack env c s ↔
      NoStale DbKey.IsState s.db.toUndoLog s.table ∧ Agrees env.ops c := by
  rw [RollsBack, ← @Since.restored_iff T env c s h]
  constructor
  · rintro ⟨hrestored, hagrees⟩
    exact ⟨hrestored, hrestored.agrees_iff.1 hagrees⟩
  · rintro ⟨hrestored, hagrees⟩
    exact ⟨hrestored, hrestored.agrees_iff.2 hagrees⟩

/-- As long as rollbacks restore, the checkpoint is that of the run. -/
lemma Since.next (h : Since c s) {step : DbStep}
    (hback : step = .rollback → Restored env.ops c (step.next env s)) :
    Since (step.checkpoint env c s) (step.next env s) := by
  cases step with
  | write w => exact h.write w
  | commit => exact committed_commit.since
  | snapshotState => exact committed_snapshotState.since
  | rollback => exact h.rollback (hback rfl)

/-! ### Runs -/

lemma Since.atRollbacks_iff (h : Since c s) (steps : List DbStep) :
    AtRollbacks env (RollsBack env) c s steps ↔
      AtRollbacks env (fun c s => NoStale DbKey.IsState s.db.toUndoLog s.table ∧
        Agrees env.ops c) c s steps := by
  induction steps generalizing c s with
  | nil => exact Iff.rfl
  | cons step steps ih =>
    have hstep : (step = .rollback → RollsBack env c s) ↔ (step = .rollback →
        NoStale DbKey.IsState s.db.toUndoLog s.table ∧ Agrees env.ops c) :=
      imp_congr_right fun _ => h.rollsBack_iff
    rw [AtRollbacks, AtRollbacks, hstep, and_congr_right_iff]
    intro hback
    refine ih (h.next fun heq => ?_)
    subst heq
    exact (h.rollsBack_iff.2 (hback rfl)).1

/-- Every key of the undo log is marked as changed. -/
def AllMarked (s : OpenDb T) : Prop := ∀ k ∈ s.db.undoLog, k ∈ s.db.dirtyKeys

/-- Only a snapshot unmarks a key that it leaves in the log. -/
lemma AllMarked.next (h : AllMarked s) {step : DbStep} (hstep : .snapshotState ≠ step) :
    AllMarked (step.next env s) := by
  cases step with
  | write w =>
    have hlogged : Logged (fun l _ => ∀ k ∈ l.undoLog, k ∈ l.dirtyKeys) (fun _ _ => True)
        s.db.committedTree s := ⟨h, fun _ _ => trivial, rfl⟩
    exact (TreeDb.keeps_logged_perform (K := fun _ => False) (fun _ _ => trivial)
      journal_allMarked id (fun _ => trivial) (.inr fun _ _ => trivial) s hlogged).log
  | commit | rollback => exact fun k hk => absurd hk (AList.notMem_empty k)
  | snapshotState => exact absurd rfl hstep

/-- In a run without snapshots every rollback leads back to the rows and the root of the last
commit. -/
theorem rollbacks_restore_commits (hsince : Since c s) (hmarked : AllMarked s)
    {steps : List DbStep} (hsteps : .snapshotState ∉ steps) :
    AtRollbacks env (fun c s => Restored env.ops c (DbStep.rollback.next env s)) c s steps := by
  induction steps generalizing c s with
  | nil => trivial
  | cons step steps ih =>
    rw [List.mem_cons, not_or] at hsteps
    have hback : Restored env.ops c (DbStep.rollback.next env s) :=
      hsince.restored_iff.2 (noStale_of_marked hmarked)
    refine ⟨fun _ => hback, ih (hsince.next ?_) (hmarked.next hsteps.1) hsteps.2⟩
    rintro rfl
    exact hback

/-- Over every run of writes, commits, snapshots and rollbacks: all rollbacks lead back to the
last commit or snapshot, with rows and tree in agreement, exactly if before each of them the
undo log has no entries that are older than the snapshot and differ from the row, and rows and
tree agreed at the commit or snapshot. -/
theorem rollbacks_restore_iff (hstart : Committed s) (steps : List DbStep) :
    AtRollbacks env (RollsBack env) s s steps ↔
      AtRollbacks env (fun c s => NoStale DbKey.IsState s.db.toUndoLog s.table ∧
        Agrees env.ops c) s s steps := hstart.since.atRollbacks_iff steps

/-! ### Blocks -/

/-- While transactions go through, the log leads back to the checkpoint; the first that fails is
rolled back with all the others. -/
lemma ends_forM_applyOrRollback (hsince : Since c s) (hmarked : AllMarked s)
    (txs : List Transaction) :
    Ends (txs.forM (TreeDb.applyOrRollback env)) s fun x s' =>
      x = .ok () ∨ Restored env.ops c s' := by
  induction txs generalizing s with
  | nil => exact .inl rfl
  | cons tx txs ih =>
    have hnext : Since c ((DbStep.write (.stateTransition tx)).next env s) := hsince.write _
    have hlog : AllMarked ((DbStep.write (.stateTransition tx)).next env s) := hmarked.next nofun
    refine ends_bind.2 (ends_tryCatch.2 (Ends.mono
      (R := fun _ s' => s' = (DbStep.write (.stateTransition tx)).next env s) rfl ?_))
    rintro (e | ⟨⟩) _ rfl
    · exact .inr (hnext.restored_iff.2 (noStale_of_marked hlog))
    · exact ih hnext hlog

/-- A block that is refused leaves the rows and the root of the committed state. -/
theorem applyBlock_atomic (hstart : Committed s) (hmarked : AllMarked s) {block : Block}
    {e : ExecutionError} {s' : OpenDb T}
    (h : (TreeDb.applyBlock env block).run s = (.error e, s')) : Restored env.ops s s' := by
  have hends : Ends (TreeDb.applyBlock env block) s fun x s' =>
      (∃ root, x = .ok root) ∨ Restored env.ops s s' := by
    rw [TreeDb.applyBlock, ends_bind, DbProgram.check, ends_liftExcept]
    cases (block.validateBasic env.checks).mapError ExecutionError.other with
    | error e => exact .inr ⟨fun _ => rfl, rfl⟩
    | ok u =>
      refine (ends_forM_applyOrRollback hstart.since hmarked _).bind (fun _ s₁ h₁ => ?_) ?_
      · exact .inl ⟨_, rfl⟩
      · rintro e s₁ (he | hrestored)
        · cases he
        · exact .inr hrestored
  unfold Ends at hends
  rw [h] at hends
  rcases hends with ⟨root, hroot⟩ | hrestored
  · cases hroot
  · exact hrestored

/-! ### A small environment -/

def plainEnv (ops : TreeOps T) : TransitionEnv T where
  toPipelineEnv := payingPipeline
  ops := ops
  checks := .plain
  config := {}
  schedules := fun _ => []
  proofVerifier := none
  encodeTx := fun _ => .ok []
  keccak256 data := data.length + 1
  createContractAddress sender nonce := sender + nonce + 10

/-- Leaves in a list; the root adds them up. -/
def listTree : TreeOps (List (Hash × Hash)) where
  new := []
  get tree key := (tree.find? (·.1 = key)).map Prod.snd
  insert tree key value :=
    if tree.any (·.1 = key) then (tree, .error "key already exists in verkle tree")
    else ((key, value) :: tree, .ok ())
  update tree key value :=
    if tree.any (·.1 = key) then
      (tree.map fun e => if e.1 = key then (key, value) else e, .ok ())
    else (tree, .error "key does not exist in verkle tree")
  delete tree key :=
    if tree.any (·.1 = key) then (tree.filter (·.1 ≠ key), .ok ())
    else (tree, .error "key does not exist in verkle tree")
  rootCommitment tree := (tree.map fun e => (e.1 + 1) * e.2).sum
  accountHash account := .ok (account.balance + account.nonce)
  storageProofKey address slot := address + slot

def emptyDb (ops : TreeOps T) : OpenDb T := ⟨∅, StateDb.new ops⟩

def payInto (balance : ℕ) : DbStep :=
  .write (.updateAccount 1 { Account.new 1 with balance := balance })

def plainRun (steps : List DbStep) : OpenDb (List (Hash × Hash)) :=
  runSteps (plainEnv listTree) (emptyDb listTree) steps

/-- What is written after a commit is taken back. -/
theorem rollbacks_restore_after_commit :
    Committed (emptyDb listTree) ∧ AtRollbacks (plainEnv listTree) (RollsBack (plainEnv listTree))
      (emptyDb listTree) (emptyDb listTree) [payInto 5, .commit, payInto 7, .rollback] := by
  refine ⟨committed_new ∅ listTree, (rollbacks_restore_iff (committed_new ∅ listTree) _).2 ?_⟩
  refine ⟨by simp [payInto], by simp, by simp [payInto], fun _ => ⟨noStale_of_marked ?_, ?_⟩, trivial⟩
  · decide +kernel
  · exact ⟨[(1, 5)], by decide +kernel, by decide +kernel⟩

theorem rollbacks_restore_commits_payment : AtRollbacks (plainEnv listTree)
    (fun c s => Restored listTree c (DbStep.rollback.next (plainEnv listTree) s))
    (emptyDb listTree) (emptyDb listTree) [payInto 5, .commit, payInto 7, .rollback] :=
  rollbacks_restore_commits (committed_new ∅ listTree).since
    (fun k hk => absurd hk (AList.notMem_empty k)) (by simp [payInto])

/-- A block at height one with two payments of the same nonce. -/
def repeatedBlock : Block where
  header := ⟨1, 0, 0, 0, 0, none, 1, 1, 1, 0, blockVersionCurrent, 0, 0, [], chainIdMainnet, none⟩
  body := ⟨[signedPayment 2 5 300 0 [], signedPayment 2 5 300 0 []], []⟩

/-- The second payment is refused, and the first is taken back with it. -/
theorem applyBlock_atomic_repeated : ∃ e s',
    (TreeDb.applyBlock (plainEnv listTree) repeatedBlock).run (plainRun [payInto 1000, .commit]) =
      (.error e, s') ∧ Restored listTree (plainRun [payInto 1000, .commit]) s' := by
  have hfails : ((TreeDb.applyBlock (plainEnv listTree) repeatedBlock).run
      (plainRun [payInto 1000, .commit])).1.toOption = none := by decide +kernel
  rcases hrun : (TreeDb.applyBlock (plainEnv listTree) repeatedBlock).run
    (plainRun [payInto 1000, .commit]) with ⟨e | root, s'⟩
  · exact ⟨e, s', rfl, applyBlock_atomic committed_commit
      (fun k hk => absurd hk (AList.notMem_empty k)) hrun⟩
  · rw [hrun] at hfails
    cases hfails

/-- A balance of 5, a snapshot, a rollback: the account is gone, and its leaf is not. -/
theorem rollback_past_snapshot :
    (plainRun [payInto 5, .snapshotState]).table.lookup (.state (.account 1)) =
      some (.state (.account { Account.new 1 with balance := 5 })) ∧
    (plainRun [payInto 5, .snapshotState, .rollback]).table.lookup (.state (.account 1)) = none ∧
    (plainRun [payInto 5, .snapshotState, .rollback]).db.tree = [(1, 5)] ∧
    ¬ AtRollbacks (plainEnv listTree) (RollsBack (plainEnv listTree)) (emptyDb listTree)
      (emptyDb listTree) [payInto 5, .snapshotState, .rollback] := by
  have hbefore : (plainRun [payInto 5, .snapshotState]).table.lookup (.state (.account 1)) =
      some (.state (.account { Account.new 1 with balance := 5 })) := by decide +kernel
  have hafter : (plainRun [payInto 5, .snapshotState, .rollback]).table.lookup
      (.state (.account 1)) = none := by decide +kernel
  refine ⟨hbefore, hafter, by decide +kernel, ?_⟩
  rintro ⟨-, -, hback, -⟩
  have hrow := (hback rfl).1.rows (.account 1)
  exact absurd (hafter.symm.trans (hrow.trans hbefore)) (by simp)

end Sxiaum
