import Sxiaum.Node.Proposals
import Sxiaum.State.Restarts

/-!
# Blocks that are refused

A block that `execute_block_pipeline` refuses should leave no trace. It leaves none if it is
refused before it runs, while it runs, or because it contradicts its header. But it writes its
rows before the root of its receipts is computed, and a receipt of a failed transaction, which
has been given a state root like all others, cannot be hashed: such a block is refused without a
rollback. So is a block whose rows cannot be put into one tree when they have landed.
-/

namespace Sxiaum

open Guards Parallel StateDb StateProgram UndoLog

/-! ### Receipts -/

def Log.validate (log : Log) : Except String Unit := do
  bailIf (4 < log.topics.length) "log topics exceed maximum"
  bailIf (131072 < log.data.length) "log data exceeds maximum"

namespace Receipt

def validate (r : Receipt) : Except String Unit := do
  bailIf (256 < r.logs.length) "receipt logs exceed maximum"
  checkAll (fun _ log => log.validate) 0 r.logs
  bailIf (!r.status ∧ r.stateRoot.isSome) "failed receipt must not carry state root"
  bailIf (r.cumulativeGasUsed < r.gasUsed) "cumulative gas below tx gas"

end Receipt

structure ReceiptHashing where
  /-- `Canonical::try_hash`. -/
  canonicalHash : Receipt → Except String Hash
  /-- `BlockBody::calculate_merkle_root`. -/
  merkleRoot : List Hash → Hash

namespace ReceiptHashing

variable (o : ReceiptHashing)

def tryHash (r : Receipt) : Except String Hash := do
  r.validate
  o.canonicalHash r

def computeReceiptRoot (body : BlockBody) : Except String Hash :=
  if body.receipts = [] then .ok 0
  else do return o.merkleRoot (← body.receipts.mapM o.tryHash)

variable {o}

lemma exists_computeReceiptRoot {receipts : List Receipt}
    (h : ∀ r ∈ receipts, ∃ hash, o.tryHash r = .ok hash) :
    ∃ root, o.computeReceiptRoot ⟨[], receipts⟩ = .ok root := by
  have hhashes : ∃ hashes, receipts.mapM o.tryHash = .ok hashes := by
    induction receipts with
    | nil => exact ⟨[], rfl⟩
    | cons r receipts ih =>
      obtain ⟨⟨hash, hhash⟩, hrest⟩ := List.forall_mem_cons.1 h
      obtain ⟨hashes, hhashes⟩ := ih hrest
      refine ⟨hash :: hashes, ?_⟩
      rw [List.mapM_cons, bind_ok]
      exact ⟨hash, hhash, bind_ok.2 ⟨hashes, hhashes, rfl⟩⟩
  obtain ⟨hashes, hhashes⟩ := hhashes
  unfold computeReceiptRoot
  split_ifs
  · exact ⟨0, rfl⟩
  · exact ⟨_, bind_ok.2 ⟨hashes, hhashes, rfl⟩⟩

end ReceiptHashing

variable {T : Type} {env : BlockEnv T} {good : T → Prop} {s s' : OpenDb T} {block : Block}

/-! ### What a refused block should leave -/

/-- The state rows, the root row and the root in memory are the same. -/
structure Unchanged (ops : TreeOps T) (s s' : OpenDb T) : Prop where
  rows : SameRows s.table s'.table
  rootRow : s'.table.lookup .stateRoot = s.table.lookup .stateRoot
  root : ops.rootCommitment s'.db.tree = ops.rootCommitment s.db.tree

variable (ops : TreeOps T) (P : StateKey → Prop)
  {outcomes : List (TxExecutionOutcome StateKey StateRow)}

lemma Unchanged.refl (s : OpenDb T) : Unchanged ops s s := ⟨.refl _, rfl, rfl⟩

def outcomesOn (env : BlockEnv T) (block : Block) (s : OpenDb T)
    (tasks : List (ParallelExecutorTask Transaction)) :
    List (TxExecutionOutcome StateKey StateRow) :=
  blockOutcomes env block s.table.stateRows tasks

def infraOn (env : BlockEnv T) (block : Block) (s : OpenDb T)
    (tasks : List (ParallelExecutorTask Transaction)) : List String :=
  infraErrors env.config (executorFn (env.forBlock block) s.table.stateRows)
    (fun k => s.table.stateRows.lookup k) env.schedules tasks

/-- The key has a row, or one of the outcomes writes it. -/
def Occupied (s : OpenDb T) (outcomes : List (TxExecutionOutcome StateKey StateRow))
    (k : StateKey) : Prop :=
  (s.table.lookup (.state k)).isSome = true ∨ ∃ outcome ∈ outcomes, k ∈ outcome.writes.map Prod.fst

/-- The header of the block has the values to which the outcomes lead. -/
def HeaderFits (env : BlockEnv T) (o : ReceiptHashing) (block : Block) (s : OpenDb T) (tree : T)
    (outcomes : List (TxExecutionOutcome StateKey StateRow)) : Prop :=
  ∃ output s₁ root,
    Runs (runBlock env outcomes) (rebuilt env.ops tree ⟨s.table, new env.ops⟩) output s₁ ∧
      o.computeReceiptRoot ⟨[], output.receipts⟩ = .ok root ∧
      headerMismatch block output root = none

/-- The receipts of the outcomes can be hashed with a state root, and if the header fits, the rows
that are there or are written have their leaves at places of their own. -/
structure Landable (env : BlockEnv T) (o : ReceiptHashing) (block : Block) (s : OpenDb T) (tree : T)
    (outcomes : List (TxExecutionOutcome StateKey StateRow)) : Prop where
  receipts : ∀ outcome ∈ outcomes, ∀ root, ∃ hash,
    o.tryHash { outcome.receipt with stateRoot := some root } = .ok hash
  apart : HeaderFits env o block s tree outcomes → ∀ k k', Occupied s outcomes k →
    Occupied s outcomes k' → SameLeaf env.ops k k' → k' = k

/-- The root row and the tree in memory have the root of the tree of the rows, and what the tasks
of the block do can land, unless an execution of them reports a failure of its own. -/
structure Refusable (env : BlockEnv T) (o : ReceiptHashing) (block : Block) (s : OpenDb T)
    (tree : T) (tasks : List (ParallelExecutorTask Transaction)) : Prop where
  rootRow : s.table.lookup .stateRoot = some (.hash (env.ops.rootCommitment tree))
  root : env.ops.rootCommitment s.db.tree = env.ops.rootCommitment tree
  landable : infraOn env block s tasks = [] →
    Landable env o block s tree (outcomesOn env block s tasks)

/-! ### The rows that a block writes -/

/-- The row stands at an occupied key and its leaf can be computed. -/
def RowFits (k : DbKey) (v : Option DbRow) : Prop :=
  ∀ key r, k = .state key → v = some r → P key ∧
    ((∃ row, r = .state row ∧ ((leafKey ops key).isSome = true →
      (leafValue ops key row).isSome = true)) ∨
      (∀ row, r ≠ .state row) ∧ ∀ address slot, key ≠ .storage address slot)

/-- The leaf of a row that has been written can be computed. -/
lemma isSome_leafValue_of_writable {ops : TreeOps T} {key : StateKey} {row : StateRow}
    (h : StateDb.LeafWritable ops key (some row)) (hk : (leafKey ops key).isSome = true) :
    (leafValue ops key row).isSome = true := by
  obtain ⟨s, s', hrun⟩ := h
  cases key with
  | account address =>
    simp only [writeLeaf, runs_bind, runs_liftExcept] at hrun
    obtain ⟨a, -, ⟨hdecode, -⟩, hash, -, ⟨hhash, -⟩, -⟩ := hrun
    rw [mapError_eq_ok] at hhash
    simp [leafValue, hdecode, hhash, Except.toOption]
  | storage address slot =>
    cases row with
    | word value => rfl
    | empty | account _ | code _ | vesting _ => exact absurd hrun runs_throw
  | code _ | vesting _ | blockHash _ => cases hk

section Lawful

variable (hlawful : env.ops.Lawful good)

include hlawful

lemma rowFits_of_rebuiltTree {table : StateTable} {tree : T}
    (htree : rebuiltTree env.ops table = .ok tree) {P : StateKey → Prop}
    (hP : ∀ key, (table.lookup (.state key)).isSome = true → P key) (k : DbKey) (v : DbRow)
    (hv : table.lookup k = some v) : RowFits env.ops P k (some v) := by
  rintro key r rfl hr
  obtain rfl := Option.some.inj hr
  refine ⟨hP key (by rw [hv]; rfl), ?_⟩
  by_cases hrow : ∃ row, v = .state row
  · obtain ⟨row, rfl⟩ := hrow
    refine .inl ⟨row, rfl, fun hleaf => ?_⟩
    obtain ⟨h, hk⟩ := Option.isSome_iff_exists.1 hleaf
    exact (matches_of_rebuiltTree hlawful htree).1.sound key h row hk (rowAt_eq_some.2 hv)
  · rw [not_exists] at hrow
    refine .inr ⟨hrow, fun address slot heq => ?_⟩
    subst heq
    obtain ⟨row, hstate⟩ := typed_of_rebuiltTree htree address slot v hv
    exact hrow row hstate

/-- Rows at occupied keys, with leaves at places of their own, have a tree. -/
lemma exists_rebuiltTree_of_rowFits {table : StateTable} {P : StateKey → Prop}
    (hfits : ∀ k v, table.lookup k = some v → RowFits env.ops P k (some v))
    (hP : ∀ k k', P k → P k' → SameLeaf env.ops k k' → k' = k) :
    ∃ tree, rebuiltTree env.ops table = .ok tree := by
  have hpresent : ∀ k, (table.rowAt k).isSome = true → P k := by
    intro k hk
    obtain ⟨row, hrow⟩ := Option.isSome_iff_exists.1 hk
    exact (hfits _ _ (rowAt_eq_some.1 hrow) k _ rfl rfl).1
  refine exists_rebuiltTree hlawful ?_ ?_ ?_
  · intro address slot r hr
    rcases (hfits _ _ hr _ r rfl rfl).2 with ⟨row, hrow, -⟩ | ⟨-, hslot⟩
    · exact ⟨row, hrow⟩
    · exact absurd rfl (hslot address slot)
  · intro k h row hk hrow
    rcases (hfits _ _ (rowAt_eq_some.1 hrow) k _ rfl rfl).2 with ⟨row', hrow', hvalue⟩ | ⟨hnone, -⟩
    · obtain rfl := DbRow.state.inj hrow'
      exact hvalue (by rw [hk]; rfl)
    · exact absurd rfl (hnone row)
  · exact fun k hk k' hk' hsame => hP k k' (hpresent k hk) (hpresent k' hk') hsame

end Lawful

/-! ### The run of a block -/

lemma stateRows_put_stateRoot (table : StateTable) (row : DbRow) :
    StateTable.stateRows (table.put .stateRoot (some row)) = table.stateRows :=
  AList.foldl_insert_of_skip (fun _ _ => rfl) _ _ _

/-- The log leads back to the table, and all rows fit. -/
def LogsRows (base : DbKey → Option DbRow) (l : UndoLog DbKey DbRow) (table : StateTable) : Prop :=
  Restores (· ≠ .stateRoot) base l table ∧
    ∀ k v, table.lookup k = some v → RowFits ops P k (some v)

lemma rowFits_stateRoot {ops : TreeOps T} {P : StateKey → Prop} (v : Option DbRow) :
    RowFits ops P .stateRoot v := by
  rintro key r hk
  cases hk

/-- Every receipt of the pipeline is that of an outcome with a state root. -/
def RootedIn (outcomes : List (TxExecutionOutcome StateKey StateRow)) (r : Receipt) : Prop :=
  ∃ outcome ∈ outcomes, ∃ root, r = { outcome.receipt with stateRoot := some root }

lemma rootedIn_of_commitPipeline {outcomes committed : List (TxExecutionOutcome StateKey StateRow)}
    (h : Runs (commitPipeline env outcomes) s committed s') :
    ∀ c ∈ committed, RootedIn outcomes c.receipt := by
  induction outcomes generalizing s s' committed with
  | nil =>
    obtain ⟨rfl, -⟩ := runs_pure.1 h
    exact fun _ hc => absurd hc List.not_mem_nil
  | cons outcome outcomes ih =>
    simp only [commitPipeline, runs_bind, runs_pure] at h
    obtain ⟨_, _, -, root, _, -, rest, _, hrest, rfl, -⟩ := h
    intro c hc
    rcases List.mem_cons.1 hc with rfl | hc
    · exact ⟨outcome, List.mem_cons_self, root, rfl⟩
    · obtain ⟨outcome', hmem, root', hroot⟩ := ih hrest c hc
      exact ⟨outcome', List.mem_cons_of_mem _ hmem, root', hroot⟩

lemma rootedIn_of_runBlock {output : BlockOutput} (h : Runs (runBlock env outcomes) s output s') :
    ∀ r ∈ output.receipts, RootedIn outcomes r := by
  simp only [runBlock, runs_bind, runs_pure] at h
  obtain ⟨_, _, -, committed, _, hcommitted, _, _, -, rfl, -⟩ := h
  intro r hr
  obtain ⟨c, hc, rfl⟩ := List.mem_map.1 hr
  obtain ⟨outcome, hmem, hroot⟩ := rootedIn_of_commitPipeline hcommitted c hc
  exact ⟨outcome, (List.perm_insertionSort _ _).mem_iff.1 hmem, hroot⟩

/-- What a run of the block has left can be undone and, if the header fits, can land. -/
structure Ran (env : BlockEnv T) (o : ReceiptHashing) (block : Block) (s s' : OpenDb T)
    (output : BlockOutput) (pipeline : StateDb T) : Prop where
  undo : Undoable s.table.lookup ⟨s'.table, pipeline⟩
  receipts : ∃ root, o.computeReceiptRoot ⟨[], output.receipts⟩ = .ok root
  tree : ∀ root, o.computeReceiptRoot ⟨[], output.receipts⟩ = .ok root →
    headerMismatch block output root = none →
      ∃ tree, StateDb.rebuiltTree env.ops (s'.table.putAll pipeline.deferredWrites) = .ok tree

section Lawful

variable (hlawful : env.ops.Lawful good) {o : ReceiptHashing} {tree : T}
  {tasks : List (ParallelExecutorTask Transaction)}
  (htree : StateDb.rebuiltTree env.ops s.table = .ok tree)

/-- The database that the rows of `s` stand for. -/
def inStepWith (ops : TreeOps T) (tree : T) (s : OpenDb T) : OpenDb T :=
  ⟨s.table, { StateDb.new ops with tree := tree, committedTree := tree }⟩

include htree

lemma synced_inStepWith
    (hrow : s.table.lookup .stateRoot = some (.hash (env.ops.rootCommitment tree))) :
    Synced env.ops (inStepWith env.ops tree s) :=
  ⟨htree, rfl, hrow, fun _ => AList.notMem_empty _⟩

lemma ends_refuseBlock_unchanged (h : Refusable env o block s tree tasks) (s₁ : OpenDb T)
    {pipeline : StateDb T} (hundo : Undoable s.table.lookup ⟨s₁.table, pipeline⟩) {α : Type}
    (e : ExecutionError) :
    Ends (refuseBlock env pipeline e : DbProgram T α) s₁ fun x s' =>
      x = .error e ∧ Unchanged env.ops s s' := by
  refine (ends_refuseBlock (synced_inStepWith htree h.rootRow) hundo).mono ?_
  rintro _ s' ⟨rfl, hrows, hsync⟩
  have heq : s'.db.tree = tree := (synced_inStepWith htree h.rootRow).tree_eq hsync hrows
  refine ⟨rfl, hrows, ?_, ?_⟩
  · rw [hsync.rootRow, h.rootRow, heq]
  · rw [heq, h.root]

include hlawful

/-- The outcomes run on the fresh database of the pipeline. -/
lemma ends_runBlock_rebuilt {outcomes : List (TxExecutionOutcome StateKey StateRow)}
    (block : Block) :
    Ends (runBlock env outcomes) (rebuilt env.ops tree ⟨s.table, new env.ops⟩)
      fun x s₁ => Undoable s.table.lookup s₁ ∧
        ∀ output, x = .ok output → Landable env o block s tree outcomes →
          Ran env o block s s₁ output s₁.db := by
  have hfits := rowFits_of_rebuiltTree hlawful htree (P := Occupied s outcomes)
    fun _ hkey => .inl hkey
  have hlogged : Logged (LogsRows env.ops (Occupied s outcomes) s.table.lookup)
      (RowFits env.ops (Occupied s outcomes)) tree
      (rebuilt env.ops tree ⟨s.table, new env.ops⟩) := by
    refine ⟨⟨undoable_rebuilt tree, ?_⟩, fun _ hc => absurd hc List.not_mem_nil, rfl⟩
    exact AList.forall_lookup_put hfits (rowFits_stateRoot _)
  have hrun : Keeps (Logged (LogsRows env.ops (Occupied s outcomes) s.table.lookup)
      (RowFits env.ops (Occupied s outcomes)) tree) (runBlock env outcomes) := by
    refine keeps_logged_runBlock (journal_restores.and journal_entries) (by simp)
      (fun _ => rowFits_stateRoot _) fun outcome houtcome w hw hleaf => ?_
    rintro _ r hk hr
    obtain rfl := DbKey.state.inj hk
    obtain ⟨row, hrow, rfl⟩ := Option.map_eq_some_iff.1 hr
    rw [hrow] at hleaf
    exact ⟨.inr ⟨outcome, houtcome, List.mem_map_of_mem hw⟩,
      .inl ⟨row, rfl, isSome_leafValue_of_writable hleaf⟩⟩
  refine (hrun _ hlogged).and_runs.mono fun x s₁ h => ⟨h.1.log.1, ?_⟩
  rintro output rfl hland
  refine ⟨h.1.log.1, ReceiptHashing.exists_computeReceiptRoot fun r hr => ?_,
    fun root hroot hfits => exists_rebuiltTree_of_rowFits hlawful
      (AList.forall_lookup_putAll h.1.log.2 h.1.staged)
      (hland.apart ⟨output, s₁, root, h.2 output rfl, hroot, hfits⟩)⟩
  obtain ⟨outcome, hmem, root, rfl⟩ := rootedIn_of_runBlock (h.2 output rfl) r hr
  exact hland.receipts outcome hmem root

lemma ends_runPipeline_rebuilt (h : Refusable env o block s tree tasks) :
    Ends (runPipeline env block tasks (rebuilt env.ops tree ⟨s.table, new env.ops⟩).db)
      ⟨(rebuilt env.ops tree ⟨s.table, new env.ops⟩).table, s.db⟩ fun x s₁ =>
        match x with
        | .ok (output, pipeline) => Ran env o block s s₁ output pipeline
        | .error _ => Unchanged env.ops s s₁ := by
  have hrows : StateTable.stateRows (rebuilt env.ops tree ⟨s.table, new env.ops⟩).table =
      s.table.stateRows := stateRows_put_stateRoot _ _
  rw [runPipeline, ends_bind, ends_get]
  simp only [hrows]
  rw [ends_bind]
  refine Ends.onTable (ends_runBlock_rebuilt (o := o) hlawful htree block) ?_
  rintro x s₁ ⟨hundo, hran⟩
  have hrefuse : ∀ e, Ends (refuseBlock env s₁.db e : DbProgram T (BlockOutput × StateDb T))
      ⟨s₁.table, s.db⟩ fun x s' =>
        match x with
        | .ok (output, pipeline) => Ran env o block s s' output pipeline
        | .error _ => Unchanged env.ops s s' := by
    intro e
    refine (ends_refuseBlock_unchanged htree h ⟨s₁.table, s.db⟩ hundo e).mono ?_
    rintro _ s' ⟨rfl, hunchanged⟩
    exact hunchanged
  simp only
  split_ifs with hinfra
  · exact hrefuse _
  · cases x with
    | error e => exact hrefuse e
    | ok output => exact ⟨hundo, (hran output rfl (h.landable (not_not.1 hinfra))).receipts,
        (hran output rfl (h.landable (not_not.1 hinfra))).tree⟩

end Lawful

section Lawful

variable (hlawful : env.ops.Lawful good) {o : ReceiptHashing} {now : ℕ}
  (h : ∀ tasks tree, Runs (admitBlock env now block) s tasks s →
    StateDb.rebuiltTree env.ops s.table = .ok tree → Refusable env o block s tree tasks)

include hlawful h

lemma ends_executeOnPipeline_unchanged :
    Ends (executeOnPipeline env now block) s fun x s₁ =>
      match x with
      | .ok (output, pipeline) => Ran env o block s s₁ output pipeline ∧ ∃ tree tasks,
          rebuiltTree env.ops s.table = .ok tree ∧ Refusable env o block s tree tasks
      | .error _ => Unchanged env.ops s s₁ := by
  refine (keeps_admitBlock (I := (· = s)) now block s rfl).and_runs.bind ?_ ?_
  · rintro tasks s₁ ⟨heq, hchecked⟩
    obtain rfl := heq
    cases htree : rebuiltTree env.ops s₁.table with
    | error e =>
      rw [ends_bind, openPipeline, ends_bind]
      refine Ends.onTable (R := fun x s₂ => x = .error e ∧ s₂.table = s₁.table) ?_ ?_
      · rw [ends_rebuildTreeFromStorage, htree]
        exact ⟨rfl, rfl⟩
      · rintro _ s₂ ⟨rfl, htable⟩
        rw [htable]
        exact .refl _ _
    | ok tree =>
      have hrefusable := h tasks tree (hchecked tasks rfl) htree
      rw [ends_bind, ends_of_runs (runs_openPipeline htree)]
      refine Ends.bind (keeps_check (I := (· = _)) _ _ rfl) ?_ ?_
      · rintro _ _ rfl
        refine (ends_runPipeline_rebuilt hlawful htree hrefusable).mono fun x s₂ hx => ?_
        cases x with
        | ok result => exact ⟨hx, tree, tasks, rfl, hrefusable⟩
        | error e => exact hx
      · rintro e _ rfl
        refine ⟨sameRows_put_stateRoot _ _, ?_, rfl⟩
        exact (AList.lookup_put _ _ _ _).trans ((if_pos rfl).trans hrefusable.rootRow.symm)
  · rintro e _ ⟨rfl, -⟩
    exact .refl _ _

/-- A block that is refused leaves no trace, if the roots of the state are those of its rows, its
receipts can be hashed with a state root and, where it fits its header, its rows have a tree. -/
theorem refused_block_unchanged (henv : env.checks.computeReceiptRoot = o.computeReceiptRoot) :
    Ends (executeBlockPipeline env now block) s fun x s' =>
      (∃ e, x = .error e) → Unchanged env.ops s s' := by
  refine (ends_executeOnPipeline_unchanged hlawful h).bind ?_ fun e s₁ hunchanged _ => hunchanged
  rintro ⟨output, pipeline⟩ s₁ ⟨hran, tree, tasks, htree, hrefusable⟩
  obtain ⟨root, hroot⟩ := hran.receipts
  simp only
  rw [settleBlock, ends_bind, DbProgram.check, ends_liftExcept, henv, hroot]
  simp only [Except.mapError]
  cases hheader : headerMismatch block output root with
  | some reason =>
    exact (ends_refuseBlock_unchanged htree hrefusable s₁ hran.undo _).mono fun _ _ hx _ => hx.2
  | none =>
    obtain ⟨tree', htree'⟩ := hran.tree root hroot hheader
    refine (ends_landBlock_ok htree').mono ?_
    rintro _ s₂ ⟨rfl, -⟩ ⟨e, herror⟩
    cases herror

end Lawful

/-! ### Blocks on a state with two accounts -/

def plainReceipts : ReceiptHashing := ⟨fun _ => .ok 0, fun _ => 0⟩

def hashingEnv : BlockEnv T where
  toPipelineEnv := payingPipeline
  ops := ops
  checks := { Sync.toyChecks with computeReceiptRoot := plainReceipts.computeReceiptRoot }
  config := {}
  schedules := fun _ => []
  proofVerifier := some fun _ _ => .ok ()
  encodeTx := fun _ => .ok []

def overspentBlock : Block :=
  toyProposalBlock [signedPayment 2 5 300 0 [], signedPayment 2 100000 300 1 []]
    [Receipt.newSuccess 0 210 none, { Receipt.newSuccess 0 210 none with status := false }] 0 420

/-- The payment that succeeds stays in the state, although the block is refused. -/
theorem overspentBlock_leaves_payment : Synced listTree toyLedger.state ∧
    ((executeBlockPipeline (hashingEnv listTree) 1704067300 overspentBlock).run
      toyLedger.state).1 = .error (.other "failed receipt must not carry state root") ∧
    ¬ Unchanged listTree toyLedger.state
      ((executeBlockPipeline (hashingEnv listTree) 1704067300 overspentBlock).run
        toyLedger.state).2 := by
  refine ⟨synced_toyLedger, by decide +kernel, fun h => ?_⟩
  have hrow := h.rows (.account 1)
  revert hrow
  decide +kernel

def paidRows : StateTable :=
  (∅ : StateTable).insert (.state (.account 2)) (.state (.account (Account.new 2)))
    |>.insert (.state (.account 1)) (.state (.account { Account.new 1 with balance := 1000 }))

def paidTree : State.VerkleTree :=
  (StateDb.rebuiltTree plainVerkle paidRows).toOption.getD plainVerkle.new

def paidState : OpenDb State.VerkleTree where
  table := paidRows.put .stateRoot (some (.hash (plainVerkle.rootCommitment paidTree)))
  db := { StateDb.new plainVerkle with tree := paidTree, committedTree := paidTree }

lemma paidTree_eq {tree : State.VerkleTree}
    (h : rebuiltTree plainVerkle paidState.table = .ok tree) : paidTree = tree := by
  have hrows : rebuiltTree plainVerkle paidRows = .ok tree :=
    (@rebuiltTree_congr _ (hashingEnv plainVerkle) _ _ (sameRows_put_stateRoot _ _)).symm.trans h
  rw [paidTree, hrows]
  rfl

/-- The payment writes both accounts, and its receipt is valid with a state root. -/
lemma outcomes_toyTransferBlock :
    ∀ outcome ∈ blockOutcomes (hashingEnv plainVerkle) (toyTransferBlock 0) paidRows.stateRows
        [⟨0, signedPayment 2 5 300 0 [], 0⟩],
      outcome.writes.map Prod.fst = [.account 2, .account 1] ∧
        Receipt.validate { outcome.receipt with stateRoot := some 0 } = .ok () := by
  decide +kernel

lemma eq_of_occupied {k : StateKey}
    (houtcomes : ∀ outcome ∈ outcomes, outcome.writes.map Prod.fst = [.account 2, .account 1])
    (h : Occupied paidState outcomes k) : k = .account 1 ∨ k = .account 2 := by
  rcases h with hrow | ⟨outcome, hmem, hk⟩
  · by_contra hne
    rw [not_or] at hne
    have hlookup : paidState.table.lookup (.state k) = none := by
      refine (AList.lookup_put _ _ _ _).trans ((if_neg (by simp)).trans ?_)
      rw [paidRows, AList.lookup_insert_ne (by simpa using hne.1),
        AList.lookup_insert_ne (by simpa using hne.2)]
      rfl
    rw [hlookup] at hrow
    cases hrow
  · rw [houtcomes outcome hmem] at hk
    simpa [or_comm] using hk

/-- A payment with a wrong state root in the header leaves no trace. -/
theorem refused_transfer_unchanged :
    Ends (executeBlockPipeline (hashingEnv plainVerkle) 1704067300 (toyTransferBlock 0)) paidState
      fun x s' => (∃ e, x = .error e) → Unchanged plainVerkle paidState s' := by
  refine refused_block_unchanged (o := plainReceipts) lawful_plainVerkle ?_ rfl
  intro tasks tree hchecked htree
  obtain rfl : tasks = [⟨0, signedPayment 2 5 300 0 [], 0⟩] := by
    simp only [admitBlock, runs_bind, runs_dbCheck] at hchecked
    obtain ⟨_, _, -, _, _, -, _, _, -, _, _, -, _, _, -, htasks, -⟩ := hchecked
    exact (Except.ok.inj htasks).symm
  obtain rfl := paidTree_eq htree
  have hrows : StateTable.stateRows paidState.table = paidRows.stateRows :=
    stateRows_put_stateRoot _ _
  have htree : paidState.db.tree = paidTree := by rw [paidState]
  refine ⟨(AList.lookup_put _ _ _ _).trans (if_pos rfl), by rw [htree], fun _ => ?_⟩
  rw [outcomesOn, hrows]
  refine ⟨fun outcome hmem root => ?_, fun _ k k' hk hk' hsame => ?_⟩
  · -- which state root a receipt has does not matter for its validity
    exact ⟨0, bind_ok.2 ⟨(), (outcomes_toyTransferBlock outcome hmem).2, rfl⟩⟩
  · have hkeys := fun outcome hmem => (outcomes_toyTransferBlock outcome hmem).1
    obtain ⟨h, h', hleaf, hleaf', hbytes⟩ := hsame
    rcases eq_of_occupied hkeys hk with rfl | rfl <;>
      rcases eq_of_occupied hkeys hk' with rfl | rfl <;>
      obtain rfl := Option.some.inj hleaf <;> obtain rfl := Option.some.inj hleaf'
    · rfl
    · exact absurd hbytes (by decide)
    · exact absurd hbytes (by decide)
    · rfl

end Sxiaum
