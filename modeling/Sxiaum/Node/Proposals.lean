import Sxiaum.Node.SyncSafety
import Sxiaum.State.Rollback

/-!
# Proposals and the finalized state

How a node executes a block proposal from the network in order to vote for it
(`handle_network_block_proposal`), and how it finalizes a block (`handle_finalized_block`, both
`node.rs`). The execution of a proposal writes to the one state table of the node. If consensus
then refuses the block, or the block is not voted for or not finalized, nothing takes these
writes back: `rollback` only knows of the result rows. What consensus and the network say about
a proposal is part of the proposal here.
-/

namespace Sxiaum

open Guards StateProgram

/-- A received block, the time, and what the rest of the node answers. -/
structure Proposal where
  block : Block
  now : ℕ
  /-- `validate_gossip_block_authenticity`. -/
  authentic : Except String Unit
  /-- `process_block_proposal` of consensus. -/
  admission : Except String Unit
  /-- `cast_and_broadcast_vote`. -/
  vote : Except String Unit

/-- The part of a node that keeps the chain and its state. -/
structure LedgerNode (T : Type) where
  state : OpenDb T
  storage : Storage.StorageEngine
  /-- `finalized_block_height` of consensus. -/
  finalizedHeight : ℕ

section Handlers

variable {T : Type} (env : BlockEnv T)

/-! ### Handlers -/

/-- The checks of a proposal before it is executed. -/
def checkProposal (p : Proposal) : DbProgram T Unit := do
  DbProgram.check p.authentic
  DbProgram.check (p.block.validateMainnet env.checks p.now)
  let chainId := p.block.header.chainId
  DbProgram.check (bailIf (chainId ≠ chainIdMainnet)
    s!"block chain_id {chainId} does not match mainnet {chainIdMainnet}")
  let version := p.block.header.version
  DbProgram.check (bailIf (version ≠ blockVersionCurrent)
    s!"block version {version} does not match current protocol version {blockVersionCurrent}")
  validateBlockTransactions env p.block

/-- Roll the node's database back if a program fails. -/
def orRollback {α : Type} (p : DbProgram T α) : DbProgram T α := fun s =>
  match p.run s with
  | (.ok a, s') => (.ok a, s')
  | (.error e, s') => (.error e, ((StateDb.rollback env.ops).run s').2)

/-- Roll back and fail. -/
def rollbackAndFail (e : ExecutionError) : DbProgram T Unit := do
  let _ ← StateDb.rollback env.ops
  throw e

/-- What becomes of a proposal that has been executed with a root. -/
def concludeProposal (p : Proposal) (computedStateRoot : Hash) : DbProgram T Unit := do
  if computedStateRoot ≠ p.block.header.stateRoot then
    let height := p.block.height
    let computed := hex32 computedStateRoot
    let header := hex32 p.block.header.stateRoot
    rollbackAndFail env (.other (s!"state root mismatch on block proposal at height={height}: " ++
      s!"computed=0x{computed}, header=0x{header}"))
  else
    let _ ← DbProgram.check (env.checks.headerHash p.block.header)
    match p.admission with
    | .error e => rollbackAndFail env (.other e)
    | .ok () => DbProgram.check p.vote

def handleNetworkBlockProposal (finalizedHeight : ℕ) (p : Proposal) : DbProgram T Unit := do
  if p.block.height ≤ finalizedHeight then return
  else
    checkProposal env p
    let computedStateRoot ← orRollback env (executeBlockPipeline env p.now p.block)
    concludeProposal env p computedStateRoot

def LedgerNode.receive (node : LedgerNode T) (p : Proposal) : LedgerNode T :=
  { node with state := ((handleNetworkBlockProposal env node.finalizedHeight p).run node.state).2 }

def LedgerNode.visited (node : LedgerNode T) : List Proposal → List (LedgerNode T)
  | [] => []
  | p :: ps => node.receive env p :: (node.receive env p).visited ps

/-- `handle_finalized_block`, up to the snapshot and the proof; the bytes are those of the
header and the body. -/
def LedgerNode.handleFinalizedBlock (node : LedgerNode T) (block : Block)
    (headerBytes bodyBytes : List UInt8) : Except ExecutionError Unit × LedgerNode T :=
  match (StateDb.commit env.ops).run node.state with
  | (.error e, state) => (.error e, { node with state := state })
  | (.ok root, state) =>
    if root ≠ block.header.stateRoot then
      let height := block.height
      let persisted := hex32 root
      let expected := hex32 block.header.stateRoot
      (.error (.other (s!"state root mismatch after commit at height={height}: " ++
        s!"persisted=0x{persisted}, block=0x{expected}")), { node with state := state })
    else (.ok (), {
      state := { state with
        table := (state.table.put .stateRoot (some (.hash block.header.stateRoot))).put
          (.blockStateRoot block.height) (some (.hash block.header.stateRoot)) }
      storage := node.storage.atomicBlockCommit block.height headerBytes bodyBytes
      finalizedHeight := block.height })

end Handlers

variable {T : Type} {env : BlockEnv T} {s : OpenDb T} {node node' : LedgerNode T} {p : Proposal}

/-! ### What a proposal leaves -/

/-- The proposal passes the checks of the node and is executed. -/
def Executes (env : BlockEnv T) (node : LedgerNode T) (p : Proposal) : Prop :=
  node.finalizedHeight < p.block.height ∧ Runs (checkProposal env p) node.state () node.state

/-- The execution of the proposal is refused or rolled back, or has changed no row. -/
def LandsNothing (env : BlockEnv T) (node : LedgerNode T) (p : Proposal) : Prop :=
  Executes env node p → ∀ t, landedTable env p.now p.block node.state = some t →
    SameRows node.state.table t

/-- Every proposal of a list lands nothing on the node that receives it. -/
def AllLandNothing (env : BlockEnv T) : LedgerNode T → List Proposal → Prop
  | _, [] => True
  | node, p :: ps => LandsNothing env node p ∧ AllLandNothing env (node.receive env p) ps

/-- The rows, the root and the chain are those of another node. -/
structure SameLedger (env : BlockEnv T) (node node' : LedgerNode T) : Prop where
  rows : SameRows node.state.table node'.state.table
  root : env.ops.rootCommitment node'.state.db.tree = env.ops.rootCommitment node.state.db.tree
  rootRow : node'.state.table.lookup .stateRoot = node.state.table.lookup .stateRoot
  storage : node'.storage = node.storage
  finalizedHeight : node'.finalizedHeight = node.finalizedHeight

lemma keeps_checkProposal {I : OpenDb T → Prop} (p : Proposal) : Keeps I (checkProposal env p) :=
  (keeps_check _).bind fun _ => (keeps_check _).bind fun _ => (keeps_check _).bind fun _ =>
    (keeps_check _).bind fun _ => keeps_validateBlockTransactions _

lemma sameRows_rolledBack_of_noRows (h : NoRowsToUndo s.db) :
    SameRows s.table (rolledBack env.ops s).table := by
  refine SameRows.trans (sameRows_putAll fun c hc key hkey => ?_) (sameRows_put_stateRoot _ _)
  exact h key (hkey ▸ UndoLog.mem_undoLog_of_mem_changes hc)

/-- A rollback that leads back to the tree of the rows leaves a database in step. -/
lemma synced_rolledBack {s₀ : OpenDb T} (hsync : Synced env.ops s₀) (h : Recoverable s₀ s) :
    Synced env.ops (rolledBack env.ops s) where
  tree := by
    have hback : SameRows s.table (rolledBack env.ops s).table :=
      sameRows_rolledBack_of_noRows h.undo
    have hrows := h.rows.trans hback
    rw [rebuiltTree_congr hrows, hsync.tree]
    exact congrArg Except.ok h.committed.symm
  committed := rfl
  rootRow := (AList.lookup_put _ _ _ _).trans (if_pos rfl)
  undo _ := AList.notMem_empty _

lemma keeps_rollbackAndFail {t : StateTable} (e : ExecutionError) :
    Keeps (InStep env.ops t) (rollbackAndFail env e) := by
  rintro s ⟨hsync, hrows⟩
  exact ⟨synced_rolledBack hsync hsync.recoverable,
    hrows.trans (sameRows_rolledBack_of_noRows hsync.undo)⟩

/-- Whatever becomes of an executed proposal, its rows stay. -/
lemma keeps_concludeProposal {t : StateTable} (p : Proposal) (root : Hash) :
    Keeps (InStep env.ops t) (concludeProposal env p root) := by
  refine keeps_ite (keeps_rollbackAndFail _) (Keeps.bind (keeps_check _) fun _ => ?_)
  cases p.admission with
  | error e => exact keeps_rollbackAndFail _
  | ok u => exact keeps_check _

lemma Ends.orRollback {α : Type} {q : DbProgram T α}
    {Q R : Except ExecutionError α → OpenDb T → Prop} (h : Ends q s R)
    (hok : ∀ a s', R (.ok a) s' → Q (.ok a) s')
    (herror : ∀ e s', R (.error e) s' → Q (.error e) (rolledBack env.ops s')) :
    Ends (orRollback env q) s Q := by
  have hrun : (Sxiaum.orRollback env q).run s = match q.run s with
      | (.ok a, s') => (.ok a, s')
      | (.error e, s') => (.error e, rolledBack env.ops s') := rfl
  unfold Ends at h ⊢
  rw [hrun]
  rcases hq : q.run s with ⟨e | a, s'⟩ <;> rw [hq] at h
  · exact herror e s' h
  · exact hok a s' h

def rowsAfter (env : BlockEnv T) (node : LedgerNode T) (p : Proposal) : StateTable :=
  (landedTable env p.now p.block node.state).getD node.state.table

/-- A proposal that is executed leaves the rows of its execution. If these are the rows the
node has had, then it is in step with them again. -/
theorem receive_of_executes (hsync : Synced env.ops node.state) (h : Executes env node p) :
    SameRows (rowsAfter env node p) (node.receive env p).state.table ∧
      (SameRows node.state.table (rowsAfter env node p) →
        Synced env.ops (node.receive env p).state) := by
  change Ends (handleNetworkBlockProposal env node.finalizedHeight p) node.state fun _ s' =>
    SameRows (rowsAfter env node p) s'.table ∧
      (SameRows node.state.table (rowsAfter env node p) → Synced env.ops s')
  rw [handleNetworkBlockProposal, if_neg (Nat.not_le.2 h.1), ends_bind, ends_of_runs h.2]
  simp only
  rw [ends_bind]
  refine Ends.orRollback (ends_executeBlockPipeline hsync p.now p.block) ?_ ?_
  · intro root s₁ hlanded
    refine (keeps_concludeProposal p root s₁ ⟨hlanded.synced root rfl, hlanded.rows⟩).mono ?_
    rintro x s' ⟨hsync', hrows⟩
    exact ⟨hrows, fun _ => hsync'⟩
  · intro e s₁ hlanded
    refine ⟨hlanded.rows.trans (sameRows_rolledBack_of_noRows hlanded.undo), fun hsame => ?_⟩
    exact synced_rolledBack hsync
      ⟨hsame.trans hlanded.rows, hlanded.committed hsame, hlanded.undo⟩

lemma receive_of_not_executes (h : ¬ Executes env node p) : node.receive env p = node := by
  have hstate : ((handleNetworkBlockProposal env node.finalizedHeight p).run node.state).2 =
      node.state := by
    change Ends (handleNetworkBlockProposal env node.finalizedHeight p) node.state fun _ s' =>
      s' = node.state
    rw [handleNetworkBlockProposal]
    split_ifs with hheight
    · rfl
    · have hkeeps : Keeps (· = node.state) (checkProposal env p) := keeps_checkProposal p
      have hcheck := hkeeps node.state rfl
      rw [ends_bind]
      unfold Ends at hcheck ⊢
      rcases hrun : (checkProposal env p).run node.state with ⟨e | u, s'⟩ <;> rw [hrun] at hcheck
      · exact hcheck
      · obtain rfl : s' = node.state := hcheck
        exact absurd ⟨Nat.not_le.1 hheight, hrun⟩ h
  rw [LedgerNode.receive, hstate]

/-- A proposal leaves the ledger exactly if it lands nothing. -/
theorem sameLedger_receive_iff (hsync : Synced env.ops node.state) :
    SameLedger env node (node.receive env p) ↔ LandsNothing env node p := by
  by_cases hexec : Executes env node p
  · obtain ⟨hrows, hsynced⟩ := receive_of_executes hsync hexec
    constructor
    · intro hsame _ t ht
      have hafter : rowsAfter env node p = t := by rw [rowsAfter, ht, Option.getD_some]
      rw [← hafter]
      exact hsame.rows.trans hrows.symm
    · intro hnothing
      have hsame : SameRows node.state.table (rowsAfter env node p) := by
        cases ht : landedTable env p.now p.block node.state with
        | none =>
          rw [rowsAfter, ht]
          exact .refl _
        | some t =>
          rw [rowsAfter, ht]
          exact hnothing hexec t ht
      have htree := hsync.tree_eq (hsynced hsame) (hsame.trans hrows)
      refine ⟨hsame.trans hrows, congrArg env.ops.rootCommitment htree, ?_, rfl, rfl⟩
      rw [(hsynced hsame).rootRow, hsync.rootRow, htree]
  · rw [receive_of_not_executes hexec]
    exact ⟨fun _ hexec' => absurd hexec' hexec, fun _ => ⟨.refl _, rfl, rfl, rfl, rfl⟩⟩

lemma synced_receive (hsync : Synced env.ops node.state) (h : LandsNothing env node p) :
    Synced env.ops (node.receive env p).state := by
  by_cases hexec : Executes env node p
  · obtain ⟨hrows, hsynced⟩ := receive_of_executes hsync hexec
    have hsame := (sameLedger_receive_iff hsync).2 h
    exact hsynced (hsame.rows.trans hrows.symm)
  · rw [receive_of_not_executes hexec]
    exact hsync

lemma SameLedger.symm (h : SameLedger env node node') : SameLedger env node' node :=
  ⟨h.rows.symm, h.root.symm, h.rootRow.symm, h.storage.symm, h.finalizedHeight.symm⟩

lemma SameLedger.trans {node'' : LedgerNode T} (h : SameLedger env node node')
    (h' : SameLedger env node' node'') : SameLedger env node node'' :=
  ⟨h.rows.trans h'.rows, h'.root.trans h.root, h'.rootRow.trans h.rootRow,
    h'.storage.trans h.storage, h'.finalizedHeight.trans h.finalizedHeight⟩

/-! ### Runs -/

/-- Over every list of received proposals that are not finalized, the ledger of a node in step
stays as it is exactly if every proposal lands nothing. -/
theorem ledger_kept_iff (hsync : Synced env.ops node.state) (ps : List Proposal) :
    (∀ node' ∈ node.visited env ps, SameLedger env node node') ↔ AllLandNothing env node ps := by
  induction ps generalizing node with
  | nil => simp [LedgerNode.visited, AllLandNothing]
  | cons p ps ih =>
    rw [LedgerNode.visited, List.forall_mem_cons, AllLandNothing, sameLedger_receive_iff hsync]
    refine and_congr_right fun hnothing => ?_
    rw [← ih (synced_receive hsync hnothing)]
    have hfirst := (sameLedger_receive_iff hsync).2 hnothing
    exact forall₂_congr fun node' _ => ⟨hfirst.symm.trans, hfirst.trans⟩

/-! ### Proposals and finalized blocks -/

/-- A finalized block, and a block that is not finalized for its root, leave the node in step with
the rows it has. -/
lemma handleFinalizedBlock_spec (hsync : Synced env.ops node.state) (block : Block)
    (headerBytes bodyBytes : List UInt8) {x : Except ExecutionError Unit}
    (h : node.handleFinalizedBlock env block headerBytes bodyBytes = (x, node')) :
    Synced env.ops node'.state ∧ SameRows node.state.table node'.state.table ∧
      (x = .ok () → env.ops.rootCommitment node.state.db.tree = block.header.stateRoot) := by
  have hcommit : InStep env.ops node.state.table ((StateDb.commit env.ops).run node.state).2 :=
    keeps_commit node.state ⟨hsync, .refl _⟩
  have hrun : (StateDb.commit env.ops).run node.state =
      (.ok (env.ops.rootCommitment node.state.db.tree),
        ((StateDb.commit env.ops).run node.state).2) := rfl
  unfold LedgerNode.handleFinalizedBlock at h
  rw [hrun] at h
  generalize ((StateDb.commit env.ops).run node.state).2 = state at hcommit h
  obtain ⟨hsync', hrows⟩ := hcommit
  simp only at h
  split_ifs at h with hroot
  · obtain ⟨rfl, rfl⟩ := Prod.mk.inj h
    exact ⟨hsync', hrows, fun hok => by cases hok⟩
  obtain ⟨rfl, rfl⟩ := Prod.mk.inj h
  have hput : SameRows state.table ((state.table.put .stateRoot
      (some (.hash block.header.stateRoot))).put (.blockStateRoot block.height)
      (some (.hash block.header.stateRoot))) := by
    intro key
    rw [AList.lookup_put, if_neg (by simp), AList.lookup_put, if_neg (by simp)]
  refine ⟨⟨(rebuiltTree_congr hput).trans hsync'.tree, hsync'.committed, ?_, hsync'.undo⟩,
    hrows.trans hput, fun _ => not_not.1 hroot⟩
  rw [AList.lookup_put, if_neg (by simp), AList.lookup_put, if_pos rfl,
    hsync.tree_eq hsync' hrows, not_not.1 hroot]

inductive LedgerEvent where
  | propose (p : Proposal)
  | finalize (block : Block) (headerBytes bodyBytes : List UInt8)

def LedgerNode.next (env : BlockEnv T) (node : LedgerNode T) : LedgerEvent → LedgerNode T
  | .propose p => node.receive env p
  | .finalize block headerBytes bodyBytes =>
    (node.handleFinalizedBlock env block headerBytes bodyBytes).2

/-- If the execution of a proposal fails, then it has changed no row. -/
def FailsClean (env : BlockEnv T) (node : LedgerNode T) (p : Proposal) : Prop :=
  (∀ root s', ¬ Runs (executeBlockPipeline env p.now p.block) node.state root s') →
    LandsNothing env node p

/-- Every proposal of a run fails clean, if it fails. -/
def AllFailClean (env : BlockEnv T) : LedgerNode T → List LedgerEvent → Prop
  | _, [] => True
  | node, e :: es =>
    (∀ p, e = .propose p → FailsClean env node p) ∧ AllFailClean env (node.next env e) es

/-- Every block that is finalized has the root of the node's rows, which are left as they are. -/
def FinalizesRows (env : BlockEnv T) : LedgerNode T → List LedgerEvent → Prop
  | _, [] => True
  | node, e :: es =>
    (∀ block headerBytes bodyBytes, e = .finalize block headerBytes bodyBytes →
      (node.handleFinalizedBlock env block headerBytes bodyBytes).1 = .ok () →
        SameRows node.state.table (node.next env e).state.table ∧
          ∃ tree, StateDb.rebuiltTree env.ops node.state.table = .ok tree ∧
            env.ops.rootCommitment tree = block.header.stateRoot) ∧
      FinalizesRows env (node.next env e) es

lemma synced_receive_of_runs (hsync : Synced env.ops node.state) {root : Hash} {s' : OpenDb T}
    (h : Runs (executeBlockPipeline env p.now p.block) node.state root s') :
    Synced env.ops (node.receive env p).state := by
  by_cases hexec : Executes env node p
  · change Ends (handleNetworkBlockProposal env node.finalizedHeight p) node.state fun _ s' =>
      Synced env.ops s'
    have hlanded := ends_executeBlockPipeline hsync p.now p.block
    rw [ends_of_runs h] at hlanded
    rw [handleNetworkBlockProposal, if_neg (Nat.not_le.2 hexec.1), ends_bind, ends_of_runs hexec.2]
    simp only
    rw [ends_bind]
    refine Ends.orRollback (R := fun x s₁ => x = .ok root ∧ Landed env.ops node.state
      (rowsAfter env node p) x s₁) ((ends_of_runs h).2 ⟨rfl, hlanded⟩) ?_ ?_
    · rintro root' s₁ ⟨-, hlanded⟩
      exact (keeps_concludeProposal p root' s₁ ⟨hlanded.synced root' rfl, hlanded.rows⟩).mono
        fun _ _ h => h.1
    · rintro e s₁ ⟨hok, -⟩
      cases hok
  · rw [receive_of_not_executes hexec]
    exact hsync

lemma synced_next (hsync : Synced env.ops node.state) {e : LedgerEvent}
    (h : ∀ p, e = .propose p → FailsClean env node p) : Synced env.ops (node.next env e).state := by
  cases e with
  | propose p =>
    by_cases hruns : ∃ root s', Runs (executeBlockPipeline env p.now p.block) node.state root s'
    · obtain ⟨root, s', hruns⟩ := hruns
      exact synced_receive_of_runs hsync hruns
    · exact synced_receive hsync (h p rfl fun root s' hr => hruns ⟨root, s', hr⟩)
  | finalize block headerBytes bodyBytes =>
    exact (handleFinalizedBlock_spec hsync block headerBytes bodyBytes rfl).1

/-- In every run of proposals and finalized blocks in which no execution fails after it has
changed rows, the root of each finalized block is the root of the rows that the node then has. -/
theorem finalizes_own_rows (hsync : Synced env.ops node.state) {es : List LedgerEvent}
    (h : AllFailClean env node es) : FinalizesRows env node es := by
  induction es generalizing node with
  | nil => trivial
  | cons e es ih =>
    refine ⟨?_, ih (synced_next hsync h.1) h.2⟩
    rintro block headerBytes bodyBytes rfl hok
    obtain ⟨-, hrows, hroot⟩ :=
      handleFinalizedBlock_spec hsync block headerBytes bodyBytes (Prod.mk.eta).symm
    exact ⟨hrows, _, hsync.tree, hroot hok⟩

/-! ### A refused proposal -/

def toyBlockEnv : BlockEnv (List (Hash × Hash)) where
  toPipelineEnv := payingPipeline
  ops := listTree
  checks := Sync.toyChecks
  config := {}
  schedules := fun _ => []
  proofVerifier := some fun _ _ => .ok ()
  encodeTx := fun _ => .ok []

def toyLedger : LedgerNode (List (Hash × Hash)) where
  state := {
    table := ((∅ : StateTable).insert (.state (.account 2)) (.state (.account (Account.new 2)))
      |>.insert (.state (.account 1))
        (.state (.account { Account.new 1 with balance := 1000 }))).insert .stateRoot (.hash 2000)
    db := { StateDb.new listTree with
      tree := [(2, 0), (1, 1000)]
      committedTree := [(2, 0), (1, 1000)] } }
  storage := (Storage.StorageEngine.new.atomicBlockCommit 0 [100] [100]).atomicBlockCommit 1
    [101] [101]
  finalizedHeight := 1

def toyProposalBlock (txs : List Transaction) (receipts : List Receipt) (stateRoot gasUsed : ℕ) :
    Block where
  header := { (Sync.toyBlock 2 1704067201 1704067300 1 none).header with
    stateRoot := stateRoot
    gasUsed := gasUsed }
  body := ⟨txs, receipts⟩

def toyTransferBlock (stateRoot : Hash) : Block :=
  toyProposalBlock [signedPayment 2 5 300 0 []] [Receipt.newSuccess 0 210 none] stateRoot 210

lemma synced_toyLedger : Synced toyBlockEnv.ops toyLedger.state where
  tree := by decide +kernel
  committed := rfl
  rootRow := by decide +kernel
  undo _ := AList.notMem_empty _

def toyProposal (block : Block) (admission : Except String Unit) : Proposal :=
  ⟨block, 1704067300, .ok (), admission, .ok ()⟩

def toyPaid : Account := { Account.new 1 with balance := 785, nonce := 1 }

/-- Consensus refuses a block that has been executed: its rows and its root stay, and the next
proposal at the same height, correct on the finalized state, is refused. -/
theorem refused_proposal_stays : Synced toyBlockEnv.ops toyLedger.state ∧
    ((handleNetworkBlockProposal toyBlockEnv 1
      (toyProposal (toyTransferBlock 1587) (.error "unsafe"))).run toyLedger.state).1 =
        .error (.other "unsafe") ∧
    (toyLedger.receive toyBlockEnv
      (toyProposal (toyTransferBlock 1587) (.error "unsafe"))).state.table.lookup
        (.state (.account 1)) = some (.state (.account toyPaid)) ∧
    ¬ SameLedger toyBlockEnv toyLedger (toyLedger.receive toyBlockEnv
      (toyProposal (toyTransferBlock 1587) (.error "unsafe"))) ∧
    ((handleNetworkBlockProposal toyBlockEnv 1
      (toyProposal (toyProposalBlock [] [] 2000 0) (.ok ()))).run toyLedger.state).1 = .ok () ∧
    ((handleNetworkBlockProposal toyBlockEnv 1
      (toyProposal (toyProposalBlock [] [] 2000 0) (.ok ()))).run (toyLedger.receive toyBlockEnv
        (toyProposal (toyTransferBlock 1587) (.error "unsafe"))).state).1 =
          .error (.other "computed state root does not match block header") := by
  have hpaid : (toyLedger.receive toyBlockEnv
      (toyProposal (toyTransferBlock 1587) (.error "unsafe"))).state.table.lookup
        (.state (.account 1)) = some (.state (.account toyPaid)) := by decide +kernel
  refine ⟨synced_toyLedger, by decide +kernel, hpaid, fun hsame => ?_, by decide +kernel,
    by decide +kernel⟩
  have hrow := (hsame.rows (.account 1)).symm.trans hpaid
  revert hrow
  decide +kernel

/-- A block with a wrong root and an empty block leave the ledger, whatever consensus says. -/
theorem ledger_kept_without_writes :
    Synced toyBlockEnv.ops toyLedger.state ∧ ∀ node' ∈ toyLedger.visited toyBlockEnv
        [toyProposal (toyTransferBlock 0) (.ok ()),
          toyProposal (toyProposalBlock [] [] 2000 0) (.error "unsafe")],
      SameLedger toyBlockEnv toyLedger node' := by
  refine ⟨synced_toyLedger, (ledger_kept_iff synced_toyLedger _).2
    ⟨fun _ t ht => ?_, fun _ t ht => ?_, trivial⟩⟩
  · have hnone : (landedTable toyBlockEnv 1704067300 (toyTransferBlock 0)
      toyLedger.state).isNone = true := by decide +kernel
    rw [Option.isNone_iff_eq_none] at hnone
    cases hnone.symm.trans ht
  · have hentries : (landedTable toyBlockEnv 1704067300 (toyProposalBlock [] [] 2000 0)
        (toyLedger.receive toyBlockEnv (toyProposal (toyTransferBlock 0) (.ok ()))).state).map
          AList.entries = some (toyLedger.receive toyBlockEnv
            (toyProposal (toyTransferBlock 0) (.ok ()))).state.table.entries := by decide +kernel
    have hlanded := congrArg (Option.map AList.entries) ht
    obtain rfl := AList.ext (Option.some.inj (hlanded.symm.trans hentries))
    exact .refl _

/-- A transfer is proposed and finalized. -/
theorem finalizes_own_rows_transfer :
    (LedgerNode.handleFinalizedBlock toyBlockEnv
      (toyLedger.receive toyBlockEnv (toyProposal (toyTransferBlock 1587) (.ok ())))
      (toyTransferBlock 1587) [102] [102]).1 = .ok () ∧
    FinalizesRows toyBlockEnv toyLedger [.propose (toyProposal (toyTransferBlock 1587) (.ok ())),
      .finalize (toyTransferBlock 1587) [102] [102]] := by
  refine ⟨by decide +kernel, finalizes_own_rows synced_toyLedger ⟨?_, nofun, trivial⟩⟩
  rintro _ ⟨⟩ hfails
  have hok : ((executeBlockPipeline toyBlockEnv 1704067300 (toyTransferBlock 1587)).run
      toyLedger.state).1 = .ok 1587 := by decide +kernel
  obtain ⟨s', hruns, -⟩ := Ends.exists_runs (P := fun _ => True) ⟨hok, trivial⟩
  exact absurd hruns (hfails 1587 s')

end Sxiaum
