import Sxiaum.Execution.Sequential
import Sxiaum.State.StateDb

/-!
# The block execution pipeline

`Executor::execute_block_pipeline` (`executor.rs`), by which a node executes a block of
another producer: the checks of the block, the parallel execution over a second state database
on the same table (`run_block`), the comparison with the header, and either the rollback of
that database or the landing of its writes. The thread schedule of every round is a field of
the environment, as are encoding, Merkle roots and the proof verifier.
-/

namespace Sxiaum

open Guards Parallel

/-- What the execution of a block calls. -/
structure BlockEnv (T : Type) extends PipelineEnv where
  ops : TreeOps T
  checks : BlockChecks
  config : ParallelExecutionConfig
  /-- The thread schedule of a round. -/
  schedules : ℕ → List ℕ
  proofVerifier : Option (Block → Hash → Except String Unit)
  /-- `Transaction::try_encode`. -/
  encodeTx : Transaction → Except String (List UInt8)

/-- An error that is only a text. -/
def DbProgram.check {T α : Type} (x : Except String α) : DbProgram T α :=
  liftExcept (x.mapError ExecutionError.other)

section Checks

variable {T : Type} (env : BlockEnv T)

/-! ### Checks -/

/-- The account of a sender, which must exist. -/
def existingSender (rows : StateRows) (address : Address) : Except ExecutionError Account := do
  match ← rows.getAccount address with
  | some account => return account
  | none => .error (.other s!"sender account does not exist: {displayAddress address}")

/-- `validate_transaction_batch`, from the nonces expected so far. -/
def validateTransactionBatch (rows : StateRows) :
    List Transaction → HashMap Address ℕ → Except ExecutionError Unit
  | [], _ => .ok ()
  | tx :: txs, expectedNonces => do
    (tx.validateBasic env.toPipelineEnv).mapError ExecutionError.other
    (verifyTransactionSignature env.toPipelineEnv tx).mapError ExecutionError.other
    let sender ← existingSender rows tx.fromAddr
    (validateGasLimit tx).mapError ExecutionError.other
    let currentNonce := (expectedNonces.lookup tx.fromAddr).getD sender.nonce
    bailIf (tx.nonce ≠ currentNonce) (ExecutionError.other
      s!"nonce mismatch for {displayAddress tx.fromAddr}: expected {currentNonce}, got {tx.nonce}")
    bailIf (u64Max < currentNonce + 1)
      (ExecutionError.other s!"sender nonce exhausted: {displayAddress tx.fromAddr}")
    validateTransactionBatch rows txs (expectedNonces.insert tx.fromAddr (currentNonce + 1))

def validateBlockTransactions (block : Block) : DbProgram T Unit := do
  DbProgram.check (block.validateBasic env.checks)
  let s ← get
  liftExcept (validateTransactionBatch env s.table.stateRows block.body.transactions ∅)

def validateBlockHeader (block : Block) : Except String Unit := do
  block.header.validateBasic
  let chainId := block.header.chainId
  bailIf (chainId ≠ chainIdMainnet)
    s!"block chain_id {chainId} does not match mainnet {chainIdMainnet}"
  let version := block.header.version
  bailIf (version ≠ blockVersionCurrent)
    s!"block version {version} does not match current protocol version {blockVersionCurrent}"
  let gasLimit := block.header.gasLimit
  bailIf (maxBlockGasLimit < gasLimit)
    s!"block gas limit {gasLimit} exceeds maximum allowable {maxBlockGasLimit}"
  bailIf (gasLimit < minBlockGasLimit)
    s!"block gas limit {gasLimit} is below minimum allowable {minBlockGasLimit}"
  let gasUsed := block.header.gasUsed
  bailIf (gasLimit < gasUsed) s!"block gas used {gasUsed} exceeds gas limit {gasLimit}"
  let txRoot ← env.checks.computeTxRoot block.body
  bailIf (txRoot ≠ block.header.txRoot)
    "computed transaction root does not match block header"

/-- The proof of a block must verify, and there must be a verifier. -/
def verifyBlockProof (block : Block) (previousRoot : Hash) : Except String Unit :=
  match env.proofVerifier with
  | some verifyProof => verifyProof block previousRoot
  | none => .error
      "CRITICAL: ZK proof verifier not configured. Cannot import block under Policy A."

def blockTasks : ℕ → List Transaction → Except String (List (ParallelExecutorTask Transaction))
  | _, [] => .ok []
  | index, tx :: txs => do
    let _ ← env.encodeTx tx
    let txHash ← env.tryHash tx
    let tasks ← blockTasks (index + 1) txs
    return ⟨index, tx, txHash⟩ :: tasks

end Checks

/-! ### Parallel execution -/

section Infra

variable {κ ν τ : Type} [DecidableEq κ] (config : ParallelExecutionConfig)
  (executorFn : ParallelExecutorTask τ → ReadProgram κ ν (TxEffects κ ν))
  (state : κ → Option ν)

/-- The infrastructure failures that the executions of a round report. -/
def roundInfra (schedule : List ℕ) (s : LoopState κ ν τ) : List String :=
  let pending := sortByIndex (·.txIndex) s.pending
  let tasksToExecute := pending.filter fun t => (s.cachedOutputs t.txIndex).isNone
  (executeBatch executorFn state tasksToExecute s.retryCounts schedule s.mvMemory).1.filterMap
    fun e => e.output.infraError

def occInfra (schedules : ℕ → List ℕ) : ℕ → LoopState κ ν τ → List String
  | 0, _ => []
  | fuel + 1, s =>
    if s.pending.isEmpty then []
    else
      let (executed, conflictSet, s') := executeRound config executorFn state
        (schedules s.rounds) s
      roundInfra executorFn state (schedules s.rounds) s ++
        if 0 < conflictSet.card ∧ config.conflictRateExceeds conflictSet.card s'.pending.length
        then []
        else occInfra schedules fuel (commitRound executed conflictSet s')

def fallbackInfra (rounds : ℕ) : List (ParallelExecutorTask τ) → MVMemory κ ν → List String
  | [], _ => []
  | task :: tasks, mv =>
    let w := startWorker executorFn (rounds + 1) task
    let (output, mv') := w.finish state mv
    output.infraError.toList ++ fallbackInfra rounds tasks (mv'.promoteToCommitted w.txVersion)

/-- The infrastructure failures that the executor function reports while a block runs. -/
def infraErrors (schedules : ℕ → List ℕ) (tasks : List (ParallelExecutorTask τ)) : List String :=
  let s := occExit config executorFn state schedules tasks
  occInfra config executorFn state schedules config.maxRounds (initialLoopState tasks) ++
    fallbackInfra executorFn state s.rounds s.pending s.mvMemory

end Infra

section RunBlock

variable {T : Type} (env : BlockEnv T)

/-- The environment with the entropy and the time of a block. -/
def BlockEnv.forBlock (block : Block) : ExecutionEnv :=
  { env.toExecutionEnv with
    blockEntropy := block.header.randomnessBeacon
    blockTimestamp := block.header.timestamp }

def blockOutcomes (block : Block) (base : StateRows)
    (tasks : List (ParallelExecutorTask Transaction)) :
    List (TxExecutionOutcome StateKey StateRow) :=
  if tasks.isEmpty then []
  else collectOutcomes (executorFn (env.forBlock block) base) (fun k => base.lookup k)
    (occExit env.config (executorFn (env.forBlock block) base) (fun k => base.lookup k)
      env.schedules tasks)

/-- What is stored of a written row: an empty one is a deletion. -/
def storedRow : Option StateRow → Option StateRow
  | some .empty => none
  | row => row

/-- `WriteBatch::flush` into the state database. -/
def flushBatch (entries : WriteSet StateKey StateRow) : DbProgram T Unit :=
  entries.forM fun w => StateDb.applySpeculativeWrite env.ops w.1 (storedRow w.2)

/-- Push writes onto a batch, which is flushed whenever it is full and at the end. -/
def flushBatches (capacity : ℕ) :
    WriteSet StateKey StateRow → WriteSet StateKey StateRow → DbProgram T Unit
  | [], batch => if batch.isEmpty then pure () else flushBatch env batch
  | w :: ws, batch =>
    if capacity ≤ (batch ++ [w]).length then do
      flushBatch env (batch ++ [w])
      flushBatches capacity ws []
    else flushBatches capacity ws (batch ++ [w])

/-- `CommitManager::commit_pipeline` without flushing to disk: the writes of one outcome after
the other are staged, and its receipt takes the root after them. -/
def commitPipeline : List (TxExecutionOutcome StateKey StateRow) →
    DbProgram T (List (TxExecutionOutcome StateKey StateRow))
  | [] => return []
  | outcome :: outcomes => do
    outcome.writes.forM fun w =>
      StateDb.applySpeculativeWriteStaged env.ops w.1 (storedRow w.2)
    let root ← StateDb.updateStateRoot env.ops
    let committed ← commitPipeline outcomes
    return { outcome with receipt := { outcome.receipt with stateRoot := some root } } :: committed

/-- `FinalizedBlockOutput`, as far as it is used. -/
structure BlockOutput where
  receipts : List Receipt
  stateRoot : Hash
  gasUsed : ℕ
deriving DecidableEq, Repr

def runBlock (outcomes : List (TxExecutionOutcome StateKey StateRow)) :
    DbProgram T BlockOutput := do
  flushBatches env env.config.writeBatchSize (flushOrder outcomes) []
  let committed ← commitPipeline env (sortByIndex (·.txIndex) outcomes)
  let stateRoot ← StateDb.stateRoot env.ops
  let (receipts, gasUsed) := collectReceipts committed
  return ⟨receipts, stateRoot, gasUsed⟩

end RunBlock

/-! ### The pipeline -/

section Pipeline

variable {T : Type} (env : BlockEnv T)

/-- Run a program of another database on the same table. -/
def onTable {α : Type} (db : StateDb T) (p : DbProgram T α) :
    DbProgram T (Except ExecutionError α × StateDb T) := fun s =>
  (.ok ((p.run ⟨s.table, db⟩).1, (p.run ⟨s.table, db⟩).2.db), ⟨(p.run ⟨s.table, db⟩).2.table, s.db⟩)

def rollbackPipelineState (pipeline : StateDb T) : DbProgram T Unit := do
  let (result, _) ← onTable pipeline do
    StateDb.discardStagedWrites
    StateDb.rollback env.ops
  let _ ← liftExcept result
  let _ ← StateDb.rebuildTreeFromStorage env.ops

/-- Roll the pipeline back and refuse the block. -/
def refuseBlock {α : Type} (pipeline : StateDb T) (e : ExecutionError) : DbProgram T α := do
  rollbackPipelineState env pipeline
  throw e

/-- A fresh database on the table, with its tree. -/
def openPipeline : DbProgram T (StateDb T) := do
  let (result, pipeline) ← onTable (StateDb.new env.ops)
    (StateDb.rebuildTreeFromStorage env.ops)
  let _ ← liftExcept result
  return pipeline

variable (now : ℕ) (block : Block) (output : BlockOutput)

/-- Execute the tasks on the pipeline; a failure rolls it back. -/
def runPipeline (tasks : List (ParallelExecutorTask Transaction))
    (pipeline : StateDb T) : DbProgram T (BlockOutput × StateDb T) := do
  let s ← get
  let base := s.table.stateRows
  let (result, pipeline) ← onTable pipeline (runBlock env (blockOutcomes env block base tasks))
  let infra := infraErrors env.config (executorFn (env.forBlock block) base)
    (fun k => base.lookup k) env.schedules tasks
  if infra ≠ [] then
    let shown := reprStr infra
    refuseBlock env pipeline (.other
      s!"transient infrastructure failure(s) during parallel block execution: {shown}")
  else match result with
    | .error e => refuseBlock env pipeline e
    | .ok output => return (output, pipeline)

/-- What of the header the execution does not confirm. -/
def headerMismatch (receiptsRoot : Hash) : Option String :=
  if block.header.receiptsRoot ≠ receiptsRoot then
    some "computed receipts root does not match block header"
  else if block.header.stateRoot ≠ output.stateRoot then
    some "computed state root does not match block header"
  else if block.header.gasUsed ≠ output.gasUsed then
    some (s!"computed block gas used {output.gasUsed} does not match " ++
      s!"block header {block.header.gasUsed}")
  else none

/-- The rows that keep the results of a block. -/
def resultRows (height : ℕ) (receipts : List Receipt) (receiptsRoot stateRoot : Hash) :
    List (DbKey × Option DbRow) :=
  (.blockReceiptsRoot height, some (.hash receiptsRoot)) ::
    (.blockStateRoot height, some (.hash stateRoot)) :: receipts.map fun receipt =>
      (.executionResult receipt.txHash, some (.result ⟨receipt.status, receipt.gasUsed,
        receipt.logs, (leBytes 32 (receipt.stateRoot.getD 0)).reverse⟩))

def storeBlockExecutionResults (height : ℕ) (receipts : List Receipt)
    (receiptsRoot stateRoot : Hash) : DbProgram T Unit :=
  StateDb.writeBatch (resultRows height receipts receiptsRoot stateRoot)

/-- The staged writes land, the node's own database follows, and the results are stored. -/
def landBlock (receiptsRoot : Hash) (pipeline : StateDb T) : DbProgram T Hash := do
  let (result, _) ← onTable pipeline do
    StateDb.flushStagedWrites
    StateDb.commit env.ops
  let _ ← liftExcept result
  let _ ← StateDb.rebuildTreeFromStorage env.ops
  let committedRoot ← StateDb.commit env.ops
  storeBlockExecutionResults block.height output.receipts receiptsRoot committedRoot
  if (← StateDb.verifyStateRoot env.ops committedRoot) then return committedRoot
  else throw (.other "committed state root verification failed")

/-- Compare the execution with the header, and land it or roll it back. A failure to compute
the root of the receipts does neither. -/
def settleBlock (pipeline : StateDb T) : DbProgram T Hash := do
  let receiptsRoot ← DbProgram.check (env.checks.computeReceiptRoot ⟨[], output.receipts⟩)
  match headerMismatch block output receiptsRoot with
  | some reason => refuseBlock env pipeline (.other reason)
  | none => landBlock env block output receiptsRoot pipeline

/-- The checks of a block before it is executed; its tasks. -/
def admitBlock : DbProgram T (List (ParallelExecutorTask Transaction)) := do
  DbProgram.check (block.validateMainnet env.checks now)
  DbProgram.check (validateBlockHeader env block)
  let previousRoot ← StateDb.stateRoot env.ops
  DbProgram.check (verifyBlockProof env block previousRoot)
  validateBlockTransactions env block
  DbProgram.check (blockTasks env 0 block.body.transactions)

/-- Check a block and execute it on a database of its own. -/
def executeOnPipeline : DbProgram T (BlockOutput × StateDb T) := do
  let tasks ← admitBlock env now block
  let pipeline ← openPipeline env
  let _ ← DbProgram.check (env.checks.headerHash block.header)
  runPipeline env block tasks pipeline

def executeBlockPipeline : DbProgram T Hash := do
  let (output, pipeline) ← executeOnPipeline env now block
  settleBlock env block output pipeline

end Pipeline

end Sxiaum
