import Sxiaum.Execution.BlockPipeline
import Sxiaum.State.Journal

/-!
# What the execution of a block leaves in the table

The pipeline marks every row before it writes it, so that a rollback brings all rows back. A
block that is refused while it runs, or that contradicts its header, therefore leaves the rows
as they were. A block that passes leaves its writes in the table, and so does one whose
receipts cannot be hashed.
-/

namespace Sxiaum

open Guards Parallel StateDb StateProgram UndoLog

variable {T : Type} {env : BlockEnv T} {s s' : OpenDb T} {base : DbKey → Option DbRow}

/-! ### Marked writes -/

/-- The undo log of a database brings its table back to `base`; the root row is rewritten
anyway. -/
def Undoable (base : DbKey → Option DbRow) (s : OpenDb T) : Prop :=
  s.db.toUndoLog.Restores (· ≠ .stateRoot) base s.table

section Journal

variable {committed : T} {K : DbKey → Prop} {ok : DbKey → Option DbRow → Prop}
  {I : UndoLog DbKey DbRow → StateTable → Prop} (hI : Journal K ok I)

include hI

lemma keeps_flushBatch {entries : WriteSet StateKey StateRow}
    (hok : ∀ w ∈ entries, LeafWritable env.ops w.1 (storedRow w.2) →
      ok (.state w.1) ((storedRow w.2).map DbRow.state)) :
    Keeps (Logged I ok committed) (flushBatch env entries) :=
  keeps_forM fun w hw => keeps_applySpeculativeWrite hI (hok w hw)

lemma keeps_flushBatches (capacity : ℕ) {ws batch : WriteSet StateKey StateRow}
    (hok : ∀ w ∈ batch ++ ws, LeafWritable env.ops w.1 (storedRow w.2) →
      ok (.state w.1) ((storedRow w.2).map DbRow.state)) :
    Keeps (Logged I ok committed) (flushBatches env capacity ws batch) := by
  induction ws generalizing batch with
  | nil =>
    rw [List.append_nil] at hok
    exact keeps_ite (keeps_pure _) (keeps_flushBatch hI hok)
  | cons w ws ih =>
    rw [List.append_cons] at hok
    refine keeps_ite (Keeps.bind (keeps_flushBatch hI ?_) fun _ => ih ?_) (ih hok)
    · exact fun v hv => hok v (List.mem_append_left _ hv)
    · exact fun v hv => hok v (List.mem_append_right _ hv)

variable (hroot : ¬ K .stateRoot) (hokRoot : ∀ root, ok .stateRoot (some (.hash root)))

variable {outcomes : List (TxExecutionOutcome StateKey StateRow)}
  (hok : ∀ outcome ∈ outcomes, ∀ w ∈ outcome.writes, LeafWritable env.ops w.1 (storedRow w.2) →
    ok (.state w.1) ((storedRow w.2).map DbRow.state))

include hroot hokRoot hok

lemma keeps_commitPipeline : Keeps (Logged I ok committed) (commitPipeline env outcomes) := by
  induction outcomes with
  | nil => exact keeps_pure _
  | cons outcome outcomes ih =>
    obtain ⟨houtcome, houtcomes⟩ := List.forall_mem_cons.1 hok
    refine Keeps.bind ?_ fun _ => ?_
    · exact keeps_forM fun w hw => keeps_applySpeculativeWriteStaged (houtcome w hw)
    · refine Keeps.bind (keeps_updateStateRoot hI hroot hokRoot) fun _ => ?_
      exact Keeps.bind (ih houtcomes) fun _ => keeps_pure _

lemma keeps_logged_runBlock : Keeps (Logged I ok committed) (runBlock env outcomes) := by
  refine (keeps_flushBatches hI _ fun w hw => ?_).bind fun _ =>
    (keeps_commitPipeline hI hroot hokRoot fun outcome houtcome => ?_).bind fun _ =>
      (keeps_get.bind fun _ => keeps_pure _).bind fun _ => keeps_pure _
  · rw [List.nil_append, flushOrder, List.mem_flatMap] at hw
    obtain ⟨outcome, houtcome, hw⟩ := hw
    exact hok outcome houtcome w hw
  · exact hok outcome ((List.perm_insertionSort _ _).mem_iff.1 houtcome)

end Journal

theorem keeps_runBlock (outcomes : List (TxExecutionOutcome StateKey StateRow)) :
    Keeps (Undoable base) (runBlock env outcomes) := by
  intro s h
  have hlogged : Logged (Restores (· ≠ .stateRoot) base) (fun _ _ => True) s.db.committedTree s :=
    ⟨h, fun _ _ => trivial, rfl⟩
  refine Ends.mono (keeps_logged_runBlock journal_restores ?_ (fun _ => trivial)
    (fun _ _ _ _ _ => trivial) s hlogged) fun _ _ h' => h'.log
  simp

/-! ### The tree of the rows -/

/-- The tables have the same state rows. -/
def SameRows (t t' : StateTable) : Prop :=
  ∀ key, t'.lookup (.state key) = t.lookup (.state key)

lemma SameRows.refl (t : StateTable) : SameRows t t := fun _ => rfl

lemma SameRows.symm {t t' : StateTable} (h : SameRows t t') : SameRows t' t :=
  fun key => (h key).symm

lemma SameRows.trans {t t' t'' : StateTable} (h : SameRows t t') (h' : SameRows t' t'') :
    SameRows t t'' := fun key => (h' key).trans (h key)

variable {t : StateTable}

lemma sameRows_putAll {changes : List (DbKey × Option DbRow)}
    (h : ∀ c ∈ changes, ∀ key, c.1 ≠ .state key) : SameRows t (t.putAll changes) := by
  intro key
  refine AList.lookup_putAll_of_notMem fun hmem => ?_
  obtain ⟨c, hc, hkey⟩ := List.mem_map.1 hmem
  exact h c hc key hkey

lemma sameRows_put_stateRoot (t : StateTable) (row : Option DbRow) :
    SameRows t (t.put .stateRoot row) := by
  intro key
  rw [AList.lookup_put, if_neg (by simp)]

lemma rebuiltTree_congr {t t' : StateTable} (h : SameRows t t') :
    rebuiltTree env.ops t' = rebuiltTree env.ops t := by
  have haccounts : insertAccount env.ops t' = insertAccount env.ops t := by
    funext tree address
    rw [insertAccount, insertAccount, h]
  have hslots : insertSlot env.ops t' = insertSlot env.ops t := by
    funext tree slot
    rw [insertSlot, insertSlot, h]
  have haccountKeys : t'.scan accountKey = t.scan accountKey := by
    refine AList.scan_congr _ fun k hk => ?_
    unfold accountKey at hk
    split at hk
    · exact h _
    · simp at hk
  have hslotKeys : t'.scan slotKey = t.scan slotKey := by
    refine AList.scan_congr _ fun k hk => ?_
    unfold slotKey at hk
    split at hk
    · exact h _
    · simp at hk
  rw [rebuiltTree, rebuiltTree, haccounts, hslots, haccountKeys, hslotKeys]

/-! ### Databases in step with their table -/

/-- The undo log has no state row. -/
def NoRowsToUndo (db : StateDb T) : Prop := ∀ key, .state key ∉ db.undoLog

/-- The trees of the database and the root row are those of the state rows. -/
structure Synced (ops : TreeOps T) (s : OpenDb T) : Prop where
  tree : StateDb.rebuiltTree ops s.table = .ok s.db.tree
  committed : s.db.committedTree = s.db.tree
  rootRow : s.table.lookup .stateRoot = some (.hash (ops.rootCommitment s.db.tree))
  undo : NoRowsToUndo s.db

/-- The tree of the rows, with its root stored. -/
def rebuilt (ops : TreeOps T) (tree : T) (s : OpenDb T) : OpenDb T where
  table := s.table.put .stateRoot (some (.hash (ops.rootCommitment tree)))
  db := { s.db with tree := tree, committedTree := tree, toUndoLog := .empty }

variable {tree : T} {I : OpenDb T → Prop} {α : Type}

lemma synced_rebuilt (h : rebuiltTree env.ops s.table = .ok tree) :
    Synced env.ops (rebuilt env.ops tree s) where
  tree := (rebuiltTree_congr (sameRows_put_stateRoot s.table _)).trans h
  committed := rfl
  rootRow := (AList.lookup_put _ _ _ _).trans (if_pos rfl)
  undo _ := AList.notMem_empty _

lemma undoable_rebuilt (tree : T) : Undoable s.table.lookup (rebuilt env.ops tree s) := by
  refine restores_empty fun k hk => ?_
  exact (AList.lookup_put _ _ _ _).trans (if_neg hk)

lemma ends_rebuildTreeFromStorage {Q : Except ExecutionError Hash → OpenDb T → Prop} :
    Ends (rebuildTreeFromStorage env.ops) s Q ↔
      match rebuiltTree env.ops s.table with
      | .ok tree => Q (.ok (env.ops.rootCommitment tree)) (rebuilt env.ops tree s)
      | .error e => Q (.error e) s := by
  rw [rebuildTreeFromStorage, ends_bind, ends_get]
  simp only
  rw [ends_bind, ends_liftExcept]
  cases rebuiltTree env.ops s.table <;> exact Iff.rfl

/-! ### Running and rolling back -/

lemma Ends.onTable {db : StateDb T} {p : DbProgram T α}
    {R : Except ExecutionError α → OpenDb T → Prop}
    {Q : Except ExecutionError (Except ExecutionError α × StateDb T) → OpenDb T → Prop}
    (h : Ends p ⟨s.table, db⟩ R) (hQ : ∀ x s₁, R x s₁ → Q (.ok (x, s₁.db)) ⟨s₁.table, s.db⟩) :
    Ends (onTable db p) s Q := hQ _ _ h

lemma runs_onTable {db : StateDb T} {p : DbProgram T α} {a : α} {s₁ : OpenDb T}
    (h : Runs p ⟨s.table, db⟩ a s₁) :
    Runs (onTable db p) s (.ok a, s₁.db) ⟨s₁.table, s.db⟩ := by
  have hrun : p.run ⟨s.table, db⟩ = (.ok a, s₁) := h
  change ((Except.ok ((p.run _).1, (p.run _).2.db) : Except ExecutionError _),
    (⟨(p.run _).2.table, s.db⟩ : OpenDb T)) = _
  rw [hrun]

/-- The rows are those of `s`, and a rollback leads back to its tree. -/
structure Recoverable (s s' : OpenDb T) : Prop where
  rows : SameRows s.table s'.table
  committed : s'.db.committedTree = s.db.tree
  undo : NoRowsToUndo s'.db

lemma Synced.recoverable (h : Synced env.ops s) : Recoverable s s := ⟨.refl _, h.committed, h.undo⟩

lemma Synced.tree_eq (h : Synced env.ops s) (h' : Synced env.ops s')
    (hrows : SameRows s.table s'.table) : s'.db.tree = s.db.tree := by
  have htree := (rebuiltTree_congr hrows).symm.trans h'.tree
  exact Except.ok.inj (htree.symm.trans h.tree)

/-- The state after a rollback. -/
def rolledBack (ops : TreeOps T) (s : OpenDb T) : OpenDb T where
  table := (s.table.putAll s.db.changes).put .stateRoot
    (some (.hash (ops.rootCommitment s.db.committedTree)))
  db := { s.db with tree := s.db.committedTree, toUndoLog := .empty }

lemma sameRows_rolledBack (h : Undoable t.lookup s) : SameRows t (rolledBack env.ops s).table := by
  intro key
  refine (AList.lookup_put _ _ _ _).trans ?_
  rw [if_neg (by simp)]
  exact h.lookup_undone (by simp)

variable {pipeline : StateDb T} {s₀ : OpenDb T}

lemma ends_rollbackPipelineState (hsync : Synced env.ops s₀)
    (h : Undoable s₀.table.lookup ⟨s.table, pipeline⟩) :
    Ends (rollbackPipelineState env pipeline) s fun x s' =>
      x = .ok () ∧ SameRows s₀.table s'.table ∧ Synced env.ops s' := by
  have hrows : SameRows s₀.table
      (rolledBack env.ops ⟨s.table, { pipeline with deferredWrites := [] }⟩).table :=
    sameRows_rolledBack h
  rw [rollbackPipelineState, ends_bind]
  refine Ends.onTable (R := fun x s₁ => (∃ root, x = .ok root) ∧ SameRows s₀.table s₁.table) ?_ ?_
  · exact ⟨⟨_, rfl⟩, hrows⟩
  · rintro _ s₁ ⟨⟨root, rfl⟩, hrows₁⟩
    have htree := (rebuiltTree_congr hrows₁).trans hsync.tree
    simp only
    rw [ends_bind, ends_liftExcept]
    simp only
    rw [ends_bind, ends_rebuildTreeFromStorage, htree]
    refine ⟨rfl, hrows₁.trans (sameRows_put_stateRoot _ _), ?_⟩
    exact synced_rebuilt htree

/-- A refused block leaves the rows as they were. -/
lemma ends_refuseBlock (hsync : Synced env.ops s₀) {e : ExecutionError}
    (h : Undoable s₀.table.lookup ⟨s.table, pipeline⟩) :
    Ends (refuseBlock env pipeline e : DbProgram T α) s fun x s' =>
      x = .error e ∧ SameRows s₀.table s'.table ∧ Synced env.ops s' := by
  refine (ends_rollbackPipelineState hsync h).bind_ok ?_
  intro s₁ hrest
  exact ⟨rfl, hrest⟩

/-- The pipeline has run on the table of `s` and can be undone. -/
def RanOn (s : OpenDb T) (pipeline : StateDb T) (s' : OpenDb T) : Prop :=
  s'.db = s.db ∧ Undoable s.table.lookup ⟨s'.table, pipeline⟩

lemma ends_runPipeline (hsync : Synced env.ops s₀) {block : Block}
    {tasks : List (ParallelExecutorTask Transaction)}
    (h : RanOn s₀ pipeline s) :
    Ends (runPipeline env block tasks pipeline) s fun x s' =>
      match x with
      | .ok (_, pipeline') => RanOn s₀ pipeline' s'
      | .error _ => Recoverable s₀ s' := by
  rw [runPipeline, ends_bind, ends_get]
  simp only
  rw [ends_bind]
  refine Ends.onTable (keeps_runBlock _ _ h.2) ?_
  intro x s₁ hundo
  have hrefuse : ∀ e, Ends (refuseBlock env s₁.db e : DbProgram T (BlockOutput × StateDb T))
      ⟨s₁.table, s.db⟩ fun x s' =>
        match x with
        | .ok (_, pipeline') => RanOn s₀ pipeline' s'
        | .error _ => Recoverable s₀ s' := by
    intro e
    refine Ends.mono (ends_refuseBlock hsync hundo) ?_
    rintro _ s' ⟨rfl, hrows, hsync'⟩
    exact ⟨hrows, hsync'.committed.trans (hsync.tree_eq hsync' hrows), hsync'.undo⟩
  simp only
  split_ifs with hinfra
  · exact hrefuse _
  · cases x with
    | error e => exact hrefuse e
    | ok output => exact ⟨h.1, hundo⟩

lemma keeps_check (x : Except String α) :
    Keeps I (DbProgram.check x : DbProgram T α) := keeps_liftExcept _

lemma keeps_validateBlockTransactions (block : Block) :
    Keeps I (validateBlockTransactions env block) :=
  (keeps_check _).bind fun _ => keeps_get.bind fun _ => keeps_liftExcept _

lemma keeps_admitBlock (now : ℕ) (block : Block) : Keeps I (admitBlock env now block) :=
  (keeps_check _).bind fun _ => (keeps_check _).bind fun _ =>
    (keeps_get.bind fun _ => keeps_pure _).bind fun _ => (keeps_check _).bind fun _ =>
      (keeps_validateBlockTransactions block).bind fun _ => keeps_check _

lemma ends_openPipeline (hsync : Synced env.ops s) :
    Ends (openPipeline env) s fun x s' =>
      match x with
      | .ok pipeline => RanOn s pipeline s' ∧ SameRows s.table s'.table
      | .error _ => False := by
  rw [openPipeline, ends_bind]
  refine Ends.onTable (R := fun x s₁ => (∃ root, x = .ok root) ∧
    s₁ = rebuilt env.ops s.db.tree ⟨s.table, new env.ops⟩) ?_ ?_
  · rw [ends_rebuildTreeFromStorage, hsync.tree]
    exact ⟨⟨_, rfl⟩, rfl⟩
  · rintro _ s₁ ⟨⟨root, rfl⟩, rfl⟩
    exact ⟨⟨rfl, undoable_rebuilt s.db.tree⟩, sameRows_put_stateRoot _ _⟩

theorem ends_executeOnPipeline (hsync : Synced env.ops s) (now : ℕ) (block : Block) :
    Ends (executeOnPipeline env now block) s fun x s' =>
      match x with
      | .ok (_, pipeline) => RanOn s pipeline s'
      | .error _ => Recoverable s s' := by
  refine Ends.bind (keeps_admitBlock (I := (· = s)) now block s rfl) ?_ ?_
  · rintro tasks s₁ rfl
    refine (ends_openPipeline hsync).bind ?_ ?_
    · rintro pipeline s₂ ⟨hran, hrows⟩
      refine Ends.bind (keeps_check (I := (· = s₂)) _ s₂ rfl) ?_ ?_
      · rintro _ _ rfl
        exact ends_runPipeline hsync hran
      · rintro e _ rfl
        refine ⟨hrows, ?_, ?_⟩
        · rw [hran.1]
          exact hsync.committed
        · rw [hran.1]
          exact hsync.undo
    · intro e s₂ hfalse
      exact hfalse.elim
  · rintro e _ rfl
    exact hsync.recoverable

/-! ### Blocks without transactions -/

@[simp] lemma runs_dbCheck {x : Except String α} {a : α} :
    Runs (DbProgram.check x : DbProgram T α) s a s' ↔ x = .ok a ∧ s = s' := by
  rw [DbProgram.check, runs_liftExcept, mapError_eq_ok]

lemma runs_openPipeline (htree : rebuiltTree env.ops s.table = .ok tree) :
    Runs (openPipeline env) s (rebuilt env.ops tree ⟨s.table, new env.ops⟩).db
      ⟨(rebuilt env.ops tree ⟨s.table, new env.ops⟩).table, s.db⟩ := by
  have hrebuild : Runs (rebuildTreeFromStorage env.ops) ⟨s.table, new env.ops⟩
      (env.ops.rootCommitment tree) (rebuilt env.ops tree ⟨s.table, new env.ops⟩) := by
    simp only [rebuildTreeFromStorage, runs_bind, runs_get, runs_liftExcept]
    exact ⟨_, _, ⟨rfl, rfl⟩, _, _, ⟨htree, rfl⟩, _, _, rfl, _, _, rfl, rfl⟩
  rw [openPipeline, runs_bind]
  refine ⟨_, _, runs_onTable hrebuild, ?_⟩
  exact runs_bind.2 ⟨_, _, runs_liftExcept.2 ⟨rfl, rfl⟩, runs_pure.2 ⟨rfl, rfl⟩⟩

section ValidOn

variable {now : ℕ} {block : Block}

end ValidOn

/-! ### Landing -/

/-- The table that the execution of a block leaves behind, unless it is rolled back. -/
def leftTable (env : BlockEnv T) (block : Block) (output : BlockOutput) (pipeline : StateDb T)
    (table : StateTable) : Option StateTable :=
  match env.checks.computeReceiptRoot ⟨[], output.receipts⟩ with
  | .error _ => some table
  | .ok receiptsRoot =>
    match headerMismatch block output receiptsRoot with
    | some _ => none
    | none => some (table.putAll pipeline.deferredWrites)

/-- What a block leaves in the table of `s`, if it is executed there. -/
def landedTable (env : BlockEnv T) (now : ℕ) (block : Block) (s : OpenDb T) : Option StateTable :=
  match (executeOnPipeline env now block).run s with
  | (.ok (output, pipeline), s') => leftTable env block output pipeline s'.table
  | (.error _, _) => none

/-- The state after the execution of a block that leaves the rows of `t`. -/
structure Landed (ops : TreeOps T) (s : OpenDb T) (t : StateTable) (x : Except ExecutionError Hash)
    (s' : OpenDb T) : Prop where
  rows : SameRows t s'.table
  undo : NoRowsToUndo s'.db
  committed : SameRows s.table t → s'.db.committedTree = s.db.tree
  synced : ∀ root, x = .ok root → Synced ops s'

lemma landed_of_synced {x : Except ExecutionError Hash}
    (hsync : Synced env.ops s₀) (h : Synced env.ops s) (hrows : SameRows t s.table) :
    Landed env.ops s₀ t x s where
  rows := hrows
  undo := h.undo
  committed hsame := h.committed.trans (hsync.tree_eq h (hsame.trans hrows))
  synced _ _ := h

/-- In step with its table, which has the rows of `t`. -/
def InStep (ops : TreeOps T) (t : StateTable) (s : OpenDb T) : Prop :=
  Synced ops s ∧ SameRows t s.table

lemma keeps_commit : Keeps (InStep env.ops t) (commit env.ops) := by
  rintro s ⟨hsync, hrows⟩
  have hput := sameRows_put_stateRoot s.table (some (.hash (env.ops.rootCommitment s.db.tree)))
  refine ⟨⟨?_, rfl, ?_, fun _ => AList.notMem_empty _⟩, hrows.trans hput⟩
  · exact (rebuiltTree_congr hput).trans hsync.tree
  · exact (AList.lookup_put _ _ _ _).trans (if_pos rfl)

lemma keeps_markDirty_inStep {k : DbKey} (hk : ∀ key, k ≠ .state key) :
    Keeps (InStep env.ops t) (markDirty k) := by
  rintro s ⟨hsync, hrows⟩
  refine ⟨⟨hsync.tree, hsync.committed, hsync.rootRow, fun key => ?_⟩, hrows⟩
  change DbKey.state key ∉ (s.db.toUndoLog.mark s.table k).undoLog
  unfold UndoLog.mark
  split_ifs
  · exact hsync.undo key
  · rw [AList.mem_insert, not_or]
    exact ⟨(hk key).symm, hsync.undo key⟩

lemma keeps_atomicStateCommit {changes : List (DbKey × Option DbRow)}
    (h : ∀ c ∈ changes, (∀ key, c.1 ≠ .state key) ∧ c.1 ≠ .stateRoot) :
    Keeps (InStep env.ops t) (atomicStateCommit changes) := by
  rintro s ⟨hsync, hrows⟩
  have hsame : SameRows s.table (s.table.putAll changes) :=
    sameRows_putAll fun c hc => (h c hc).1
  have hroot : .stateRoot ∉ changes.map Prod.fst := by
    intro hmem
    obtain ⟨c, hc, heq⟩ := List.mem_map.1 hmem
    exact (h c hc).2 heq
  refine ⟨⟨?_, hsync.committed, ?_, hsync.undo⟩, hrows.trans hsame⟩
  · exact (rebuiltTree_congr hsame).trans hsync.tree
  · exact (AList.lookup_putAll_of_notMem hroot).trans hsync.rootRow

lemma keeps_storeBlockExecutionResults (height : ℕ) (receipts : List Receipt)
    (receiptsRoot stateRoot : Hash) :
    Keeps (InStep env.ops t)
      (storeBlockExecutionResults height receipts receiptsRoot stateRoot) := by
  have hkeys : ∀ c ∈ resultRows height receipts receiptsRoot stateRoot,
      (∀ key, c.1 ≠ .state key) ∧ c.1 ≠ .stateRoot := by
    simp [resultRows]
  refine Keeps.bind (keeps_forM ?_) fun _ => keeps_atomicStateCommit hkeys
  exact fun c hc => keeps_markDirty_inStep (hkeys c hc).1

lemma ends_flush_commit :
    Ends (do flushStagedWrites; commit env.ops) s fun x s' =>
      (∃ root, x = .ok root) ∧ SameRows (s.table.putAll s.db.deferredWrites) s'.table := by
  refine ends_flushStagedWrites.bind_ok ?_
  rintro _ ⟨log, rfl⟩
  exact ⟨⟨_, rfl⟩, sameRows_put_stateRoot _ _⟩

variable {output : BlockOutput}

lemma InStep.tree_eq (h : InStep env.ops t s)
    (htree : rebuiltTree env.ops t = .ok tree) : s.db.tree = tree :=
  Except.ok.inj (h.1.tree.symm.trans ((rebuiltTree_congr h.2).trans htree))

lemma runs_verifyStateRoot (hsync : Synced env.ops s) :
    Runs (verifyStateRoot env.ops (env.ops.rootCommitment s.db.tree)) s true s := by
  simp only [verifyStateRoot, runs_bind, runs_get]
  refine ⟨s, s, ⟨rfl, rfl⟩, runs_pure.2 ⟨?_, rfl⟩⟩
  simp [hsync.rootRow]

lemma ends_landBlock_ok {block : Block} {receiptsRoot : Hash}
    (htree : rebuiltTree env.ops (s.table.putAll pipeline.deferredWrites) = .ok tree) :
    Ends (landBlock env block output receiptsRoot pipeline) s fun x s' =>
      x = .ok (env.ops.rootCommitment tree) ∧
        InStep env.ops (s.table.putAll pipeline.deferredWrites) s' := by
  rw [landBlock, ends_bind]
  refine Ends.onTable ends_flush_commit ?_
  rintro _ s₁ ⟨⟨root, rfl⟩, hrows⟩
  have htree₁ : rebuiltTree env.ops s₁.table = .ok tree :=
    (rebuiltTree_congr hrows).trans htree
  have hstep : InStep env.ops (s.table.putAll pipeline.deferredWrites)
      (rebuilt env.ops tree ⟨s₁.table, s.db⟩) :=
    ⟨synced_rebuilt htree₁, hrows.trans (sameRows_put_stateRoot _ _)⟩
  simp only
  rw [ends_bind, ends_liftExcept]
  simp only
  rw [ends_bind, ends_rebuildTreeFromStorage, htree₁]
  have hcommit : Ends (commit env.ops) (rebuilt env.ops tree ⟨s₁.table, s.db⟩)
      fun x s' => x = .ok (env.ops.rootCommitment tree) ∧
        InStep env.ops (s.table.putAll pipeline.deferredWrites) s' :=
    ⟨rfl, keeps_commit _ hstep⟩
  refine hcommit.bind_ok ?_
  intro s₂ hstep₂
  have hstored : Ends (storeBlockExecutionResults block.height output.receipts receiptsRoot
      (env.ops.rootCommitment tree)) s₂ fun x s' =>
        x = .ok () ∧ InStep env.ops (s.table.putAll pipeline.deferredWrites) s' :=
    ⟨(ends_forM_markDirty _).bind_ok (Q := fun x _ => x = .ok ()) fun _ _ => rfl,
      keeps_storeBlockExecutionResults _ _ _ _ s₂ hstep₂⟩
  refine hstored.bind_ok ?_
  intro s₃ hstep₃
  have hverify := runs_verifyStateRoot hstep₃.1
  rw [hstep₃.tree_eq htree] at hverify
  rw [ends_bind, ends_of_runs hverify]
  exact ⟨rfl, hstep₃⟩

lemma ends_landBlock (hsync : Synced env.ops s₀) (hdb : s.db = s₀.db)
    {block : Block} {receiptsRoot : Hash} :
    Ends (landBlock env block output receiptsRoot pipeline) s
      (Landed env.ops s₀ (s.table.putAll pipeline.deferredWrites)) := by
  cases htree : rebuiltTree env.ops (s.table.putAll pipeline.deferredWrites) with
  | ok tree =>
    exact (ends_landBlock_ok htree).mono fun x s' h => landed_of_synced hsync h.2.1 h.2.2
  | error e =>
    rw [landBlock, ends_bind]
    refine Ends.onTable ends_flush_commit ?_
    rintro _ s₁ ⟨⟨root, rfl⟩, hrows⟩
    simp only
    rw [ends_bind, ends_liftExcept]
    simp only
    rw [ends_bind, ends_rebuildTreeFromStorage, rebuiltTree_congr hrows, htree]
    refine ⟨hrows, ?_, fun _ => ?_, nofun⟩
    · exact hdb ▸ hsync.undo
    · exact hdb ▸ hsync.committed

lemma ends_settleBlock (hsync : Synced env.ops s₀) {block : Block} (h : RanOn s₀ pipeline s) :
    Ends (settleBlock env block output pipeline) s
      (Landed env.ops s₀ ((leftTable env block output pipeline s.table).getD s₀.table)) := by
  rw [settleBlock, ends_bind, DbProgram.check, ends_liftExcept]
  unfold leftTable
  cases hroot : env.checks.computeReceiptRoot ⟨[], output.receipts⟩ with
  | error e =>
    refine ⟨.refl _, ?_, fun _ => ?_, nofun⟩
    · exact h.1 ▸ hsync.undo
    · exact h.1 ▸ hsync.committed
  | ok receiptsRoot =>
    simp only [Except.mapError]
    cases headerMismatch block output receiptsRoot with
    | some reason =>
      refine (ends_refuseBlock hsync h.2).mono ?_
      rintro _ s' ⟨rfl, hrows, hsync'⟩
      exact landed_of_synced hsync hsync' hrows
    | none => exact ends_landBlock hsync h.1

theorem ends_executeBlockPipeline (hsync : Synced env.ops s) (now : ℕ) (block : Block) :
    Ends (executeBlockPipeline env now block) s
      (Landed env.ops s ((landedTable env now block s).getD s.table)) := by
  have hran := ends_executeOnPipeline hsync now block
  rw [executeBlockPipeline, ends_bind]
  unfold landedTable
  unfold Ends at hran
  rw [Ends]
  rcases hrun : (executeOnPipeline env now block).run s with ⟨e | ⟨output, pipeline⟩, s₁⟩ <;>
    rw [hrun] at hran
  · refine ⟨hran.rows, hran.undo, fun _ => hran.committed, ?_⟩
    intro root hroot
    cases hroot
  · exact ends_settleBlock hsync hran

end Sxiaum
