import Sxiaum.Lib.HashMap
import Sxiaum.Lib.ReadProgram
import Sxiaum.Parallel.MVMemory
import Sxiaum.Types

/-!
# The optimistic parallel executor

`ParallelExecutor::execute_block` and its parts (`parallel/executor.rs`). The executor
function of the source reads rows through the multi-version memory and falls back to
the state; it is a `ReadProgram` for each task here. A round hands the pending tasks
to worker threads; `executeBatch` runs them under an arbitrary schedule of single
store operations. The comparison of the conflict rate with the configured threshold
is over floating-point numbers in the source and a parameter of the configuration here.
-/

namespace Sxiaum.Parallel

variable {κ ν τ : Type} [DecidableEq κ]

/-! ### Tasks, outputs and outcomes -/

/-- A transaction to execute; `tx` stands for its encoded bytes. -/
structure ParallelExecutorTask (τ : Type) where
  txIndex : ℕ
  tx : τ
  txHash : Hash
deriving DecidableEq

/-- What a transaction decides once it has read its inputs. -/
structure TxEffects (κ ν : Type) where
  gasUsed : ℕ
  revertReason : Option String
  writeSet : WriteSet κ ν
  events : List Log
  returnData : List UInt8
  executionStatus : Bool
  /-- Whether a failed execution leaves the keys it has read out of its outcome. -/
  dropsReads : Bool := false
  /-- The infrastructure failure that the executor function reports beside its outcome. -/
  infraError : Option String := none
deriving DecidableEq

/-- The output of one speculative execution. -/
structure TransactionOutput (κ ν : Type) extends TxEffects κ ν where
  txIndex : ℕ
  txHash : Hash
  readSet : List κ
  /-- The keys that were read, listed in the outcome or not. -/
  keysRead : List κ
deriving DecidableEq

def TransactionOutput.writeKeys (o : TransactionOutput κ ν) : List κ :=
  o.writeSet.map Prod.fst

structure ReadWriteSet (κ : Type) where
  readSet : List κ
  writeSet : List κ
deriving DecidableEq

structure TxExecutionOutcome (κ ν : Type) where
  txIndex : ℕ
  snapshotId : Option ℕ
  success : Bool
  gasUsed : ℕ
  output : List UInt8
  rwSet : ReadWriteSet κ
  /-- The keys that were read, listed in the read set or not. -/
  keysRead : List κ
  receipt : Receipt
  speculativeWrites : HashMap κ (Option ν)
  error : Option String
  hadConflict : Bool
  retryRound : ℕ
  txVersion : Option TxVersion

/-- The map a list of writes collects into: a later write to a key replaces an earlier one. -/
def collectWrites (ws : WriteSet κ ν) : HashMap κ (Option ν) :=
  ws.foldl (fun m w => m.insert w.1 w.2) ∅

def rawToOutcome (o : TransactionOutput κ ν) (txVersion : Option TxVersion) (retryRound : ℕ) :
    TxExecutionOutcome κ ν where
  txIndex := o.txIndex
  snapshotId := txVersion.map (·.txIndex)
  success := o.executionStatus
  gasUsed := o.gasUsed
  output := o.returnData
  rwSet := ⟨o.readSet, o.writeKeys⟩
  keysRead := o.keysRead
  receipt :=
    let receipt := if o.executionStatus then Receipt.newSuccess o.txHash o.gasUsed none
      else Receipt.newFailure o.txHash o.gasUsed
    { receipt with logs := o.events }
  speculativeWrites := collectWrites o.writeSet
  error := o.revertReason
  hadConflict := 0 < retryRound
  retryRound := retryRound
  txVersion := txVersion

/-! ### Configuration and conflicts -/

inductive ConflictResolutionPolicy where
  | abortLoser
  | retryAll
  | priorityByIndex
deriving DecidableEq, Repr

structure ParallelExecutionConfig where
  maxRounds : ℕ := 8
  /-- `round_conflicts / pending > conflict_abort_threshold`. -/
  conflictRateExceeds : ℕ → ℕ → Bool := fun conflicts pending => pending < 2 * conflicts
  conflictResolutionPolicy : ConflictResolutionPolicy := .priorityByIndex
  writeBatchSize : ℕ := 64

structure ConflictDetail where
  winnerTx : ℕ
  loserTx : ℕ
deriving DecidableEq, Repr

/-- A read-write or write-write overlap of two executions; two reads do not conflict. -/
def conflicting (a b : ReadWriteSet κ) : Bool :=
  a.writeSet.any (· ∈ b.readSet) || a.readSet.any (· ∈ b.writeSet) ||
    a.writeSet.any (· ∈ b.writeSet)

def detectConflictsDetailed : List (ℕ × ReadWriteSet κ) → List ConflictDetail
  | [] => []
  | (i, rwI) :: rest =>
    (rest.filter fun p => conflicting rwI p.2).map
        (fun p => if i < p.1 then ⟨i, p.1⟩ else ⟨p.1, i⟩) ++
      detectConflictsDetailed rest

/-- The indices a policy aborts. -/
def resolve (policy : ConflictResolutionPolicy) (details : List ConflictDetail) : Finset ℕ :=
  match policy with
  | .abortLoser => (details.map (·.loserTx)).toFinset
  | .retryAll => (details.flatMap fun d => [d.winnerTx, d.loserTx]).toFinset
  | .priorityByIndex =>
    (details.map fun d => if d.winnerTx < d.loserTx then d.loserTx else d.winnerTx).toFinset

/-! ### The reorder buffer -/

/-- Outcomes are released in ascending index order, without gaps. -/
structure OrderedCommitQueue (κ ν : Type) where
  nextCommitIndex : ℕ
  pending : HashMap ℕ (TxExecutionOutcome κ ν)
  committed : List (TxExecutionOutcome κ ν)

namespace OrderedCommitQueue

def new (startIndex : ℕ) : OrderedCommitQueue κ ν where
  nextCommitIndex := startIndex
  pending := ∅
  committed := []

/-- Release the contiguous run that starts at `nextCommitIndex`; the fuel is the number
of outcomes waiting. -/
def release : ℕ → OrderedCommitQueue κ ν → OrderedCommitQueue κ ν
  | 0, q => q
  | fuel + 1, q =>
    match q.pending.lookup q.nextCommitIndex with
    | none => q
    | some o =>
      release fuel
        { nextCommitIndex := q.nextCommitIndex + 1
          pending := q.pending.erase q.nextCommitIndex
          committed := q.committed ++ [o] }

variable (q : OrderedCommitQueue κ ν)

def enqueue (o : TxExecutionOutcome κ ν) : OrderedCommitQueue κ ν :=
  let q' := { q with pending := q.pending.insert o.txIndex o }
  q'.release q'.pending.entries.length

def drainOrdered : List (TxExecutionOutcome κ ν) × OrderedCommitQueue κ ν :=
  (q.committed, { q with committed := [] })

def pendingCount : ℕ := q.pending.entries.length

end OrderedCommitQueue

/-! ### Workers -/

/-- What a worker still has to do for its task: run the executor function, read the
read set again, record the writes. -/
inductive WorkerPhase (κ ν : Type) where
  | running (prog : ReadProgram κ ν (TxEffects κ ν)) (reads : List κ)
  | mirroring (out : TransactionOutput κ ν) (rest : List κ)
  | writing (out : TransactionOutput κ ν) (recorded rest : WriteSet κ ν)
  | done (out : TransactionOutput κ ν)

structure Worker (κ ν τ : Type) where
  task : ParallelExecutorTask τ
  txVersion : TxVersion
  phase : WorkerPhase κ ν

/-- The output for `task` of an execution with the given effects and reads. -/
def mkOutput (task : ParallelExecutorTask τ) (eff : TxEffects κ ν) (reads : List κ) :
    TransactionOutput κ ν :=
  { eff with
    txIndex := task.txIndex
    txHash := task.txHash
    readSet := if eff.dropsReads && !eff.executionStatus then [] else reads
    keysRead := reads }

/-- The row a read returns: the version that answered, or else the row of the state. -/
def rowRead (state : κ → Option ν) (k : κ) (seen : Option (Option ν)) : Option ν :=
  seen.getD (state k)

namespace Worker

variable (state : κ → Option ν)

/-- One store operation of a worker. -/
def step (mv : MVMemory κ ν) (w : Worker κ ν τ) : MVMemory κ ν × Worker κ ν τ :=
  match w.phase with
  | .running (.read k cont) reads =>
    let (seen, mv') := mv.readAtVersion w.txVersion k
    (mv', { w with phase := .running (cont (rowRead state k seen)) (reads ++ [k]) })
  | .running (.ret eff) reads =>
    let out := mkOutput w.task eff reads
    (mv, { w with phase := .mirroring out out.readSet })
  | .mirroring out (k :: ks) =>
    ((mv.readAtVersion w.txVersion k).2, { w with phase := .mirroring out ks })
  | .mirroring out [] => (mv, { w with phase := .writing out [] out.writeSet })
  | .writing out recorded ((k, x) :: ws) =>
    (mv.recordSpeculativeWrite w.txVersion k x,
      { w with phase := .writing out (recorded ++ [(k, x)]) ws })
  | .writing out _ [] => (mv, { w with phase := .done out })
  | .done _ => (mv, w)

/-- Run the executor function to its end. -/
def runProgram (tv : TxVersion) : ReadProgram κ ν (TxEffects κ ν) → List κ → MVMemory κ ν →
    (TxEffects κ ν × List κ) × MVMemory κ ν
  | .ret eff, reads, mv => ((eff, reads), mv)
  | .read k cont, reads, mv =>
    let (seen, mv') := mv.readAtVersion tv k
    runProgram tv (cont (rowRead state k seen)) (reads ++ [k]) mv'

def mirrorReads (tv : TxVersion) (ks : List κ) (mv : MVMemory κ ν) : MVMemory κ ν :=
  ks.foldl (fun mv k => (mv.readAtVersion tv k).2) mv

def recordWrites (tv : TxVersion) (ws : WriteSet κ ν) (mv : MVMemory κ ν) : MVMemory κ ν :=
  ws.foldl (fun mv w => mv.recordSpeculativeWrite tv w.1 w.2) mv

/-- Everything a worker still has to do, at once. -/
def finish (mv : MVMemory κ ν) (w : Worker κ ν τ) : TransactionOutput κ ν × MVMemory κ ν :=
  match w.phase with
  | .running prog reads =>
    let ((eff, reads'), mv') := runProgram state w.txVersion prog reads mv
    let out := mkOutput w.task eff reads'
    (out, recordWrites w.txVersion out.writeSet (mirrorReads w.txVersion out.readSet mv'))
  | .mirroring out rest =>
    (out, recordWrites w.txVersion out.writeSet (mirrorReads w.txVersion rest mv))
  | .writing out _ rest => (out, recordWrites w.txVersion rest mv)
  | .done out => (out, mv)

end Worker

/-- An execution together with the version it was recorded under. -/
structure CachedSpeculativeExecution (κ ν τ : Type) where
  task : ParallelExecutorTask τ
  output : TransactionOutput κ ν
  txVersion : TxVersion

/-! ### Batches -/

section Batch

variable (executorFn : ParallelExecutorTask τ → ReadProgram κ ν (TxEffects κ ν))
  (state : κ → Option ν)

def startWorker (incarnation : ℕ) (task : ParallelExecutorTask τ) : Worker κ ν τ where
  task := task
  txVersion := ⟨task.txIndex, incarnation⟩
  phase := .running (executorFn task) []

/-- Let the worker at position `i` take one step. -/
def stepWorker (s : MVMemory κ ν × List (Worker κ ν τ)) (i : ℕ) :
    MVMemory κ ν × List (Worker κ ν τ) :=
  match s.2[i]? with
  | none => s
  | some w =>
    let (mv', w') := w.step state s.1
    (mv', s.2.set i w')

/-- Let all workers finish, in task order. -/
def finishWorkers : List (Worker κ ν τ) → MVMemory κ ν →
    List (CachedSpeculativeExecution κ ν τ) × MVMemory κ ν
  | [], mv => ([], mv)
  | w :: ws, mv =>
    let (out, mv') := w.finish state mv
    let (rest, mv'') := finishWorkers ws mv'
    (⟨w.task, out, w.txVersion⟩ :: rest, mv'')

/-- The tasks run on worker threads: `schedule` says which worker makes the next store
operation, and when it is used up the workers finish one after the other. -/
def executeBatch (tasks : List (ParallelExecutorTask τ)) (retryCounts : ℕ → ℕ)
    (schedule : List ℕ) (mv : MVMemory κ ν) :
    List (CachedSpeculativeExecution κ ν τ) × MVMemory κ ν :=
  let workers := tasks.map fun t => startWorker executorFn (retryCounts t.txIndex) t
  let (mv', workers') := schedule.foldl (stepWorker state) (mv, workers)
  finishWorkers state workers' mv'

end Batch

/-! ### Rounds -/

/-- The variables of the outer loop of `execute_block`. -/
structure LoopState (κ ν τ : Type) where
  pending : List (ParallelExecutorTask τ)
  committed : List (TxExecutionOutcome κ ν)
  totalConflicts : ℕ
  rounds : ℕ
  mvMemory : MVMemory κ ν
  cachedOutputs : ℕ → Option (CachedSpeculativeExecution κ ν τ)
  retryCounts : ℕ → ℕ
  commitQueue : OrderedCommitQueue κ ν

/-- The variables of the loop over the executions of one round. -/
structure RoundState (κ ν τ : Type) where
  nextPending : List (ParallelExecutorTask τ)
  committedWriteKeys : List κ
  mvMemory : MVMemory κ ν
  cachedOutputs : ℕ → Option (CachedSpeculativeExecution κ ν τ)
  retryCounts : ℕ → ℕ
  commitQueue : OrderedCommitQueue κ ν

/-- Whether an execution is rolled back: it failed, lost a conflict, touches a key
committed earlier in the round, or read a version that is no longer the latest. -/
def rollsBack (conflictSet : Finset ℕ) (r : RoundState κ ν τ)
    (e : CachedSpeculativeExecution κ ν τ) : Bool :=
  !e.output.executionStatus || decide (e.output.txIndex ∈ conflictSet) ||
    (e.output.readSet ++ e.output.writeKeys).any (· ∈ r.committedWriteKeys) ||
    !r.mvMemory.validateReads e.txVersion

/-- Roll an execution back or commit it. -/
def commitEntry (pending : List (ParallelExecutorTask τ)) (rounds : ℕ) (conflictSet : Finset ℕ)
    (r : RoundState κ ν τ) (e : CachedSpeculativeExecution κ ν τ) : RoundState κ ν τ :=
  let txIndex := e.output.txIndex
  if rollsBack conflictSet r e then
    { r with
      mvMemory := r.mvMemory.discardSpeculative e.txVersion
      cachedOutputs := Function.update r.cachedOutputs txIndex none
      retryCounts := Function.update r.retryCounts txIndex (r.retryCounts txIndex + 1)
      nextPending := r.nextPending ++ (pending.find? (fun t => t.txIndex = txIndex)).toList }
  else
    { r with
      mvMemory := r.mvMemory.promoteToCommitted e.txVersion
      committedWriteKeys := r.committedWriteKeys ++ e.output.writeKeys
      cachedOutputs := Function.update r.cachedOutputs txIndex (some e)
      commitQueue := r.commitQueue.enqueue
        (rawToOutcome e.output (some e.txVersion) (rounds - 1)) }

/-- `sort_by_key` on a task or outcome index. -/
def sortByIndex {α : Type} (index : α → ℕ) (l : List α) : List α :=
  l.insertionSort (fun a b => index a ≤ index b)

section ExecuteBlock

variable (config : ParallelExecutionConfig)
  (executorFn : ParallelExecutorTask τ → ReadProgram κ ν (TxEffects κ ν))
  (state : κ → Option ν)

/-- Execute the pending tasks of a round, cached executions excepted, and detect conflicts. -/
def executeRound (schedule : List ℕ) (s : LoopState κ ν τ) :
    List (CachedSpeculativeExecution κ ν τ) × Finset ℕ × LoopState κ ν τ :=
  let pending := sortByIndex (·.txIndex) s.pending
  let roundCached := pending.filterMap fun t => s.cachedOutputs t.txIndex
  let tasksToExecute := pending.filter fun t => (s.cachedOutputs t.txIndex).isNone
  let (executed, mv) := executeBatch executorFn state tasksToExecute s.retryCounts schedule
    s.mvMemory
  let executed := sortByIndex (·.task.txIndex) (executed ++ roundCached)
  let rwPairs := executed.map fun e =>
    (e.output.txIndex, ReadWriteSet.mk e.output.readSet e.output.writeKeys)
  let conflictSet := resolve config.conflictResolutionPolicy (detectConflictsDetailed rwPairs)
  (executed, conflictSet,
    { s with
      pending := pending
      rounds := s.rounds + 1
      totalConflicts := s.totalConflicts + conflictSet.card
      mvMemory := mv })

def LoopState.startRound (s : LoopState κ ν τ) : RoundState κ ν τ where
  nextPending := []
  committedWriteKeys := []
  mvMemory := s.mvMemory
  cachedOutputs := s.cachedOutputs
  retryCounts := s.retryCounts
  commitQueue := s.commitQueue

/-- Go through the executions of a round in index order and drain the reorder buffer. -/
def commitRound (executed : List (CachedSpeculativeExecution κ ν τ)) (conflictSet : Finset ℕ)
    (s : LoopState κ ν τ) : LoopState κ ν τ :=
  let r := executed.foldl (commitEntry s.pending s.rounds conflictSet) s.startRound
  let (ready, queue) := r.commitQueue.drainOrdered
  { s with
    pending := r.nextPending
    committed := s.committed ++ ready
    mvMemory := r.mvMemory
    cachedOutputs := r.cachedOutputs
    retryCounts := r.retryCounts
    commitQueue := queue }

/-- The OCC loop. The fuel is the number of rounds left, and the schedule of a round is
chosen by its number. -/
def occLoop (schedules : ℕ → List ℕ) : ℕ → LoopState κ ν τ → LoopState κ ν τ
  | 0, s => s
  | fuel + 1, s =>
    if s.pending.isEmpty then s
    else
      let (executed, conflictSet, s') := executeRound config executorFn state
        (schedules s.rounds) s
      if 0 < conflictSet.card ∧ config.conflictRateExceeds conflictSet.card s'.pending.length then
        s'
      else
        occLoop schedules fuel (commitRound executed conflictSet s')

/-- Execute, record and promote one task on the current committed versions. -/
def fallbackTask (rounds : ℕ) (s : MVMemory κ ν × List (TxExecutionOutcome κ ν))
    (task : ParallelExecutorTask τ) : MVMemory κ ν × List (TxExecutionOutcome κ ν) :=
  let w := startWorker executorFn (rounds + 1) task
  let (output, mv) := w.finish state s.1
  (mv.promoteToCommitted w.txVersion, s.2 ++ [rawToOutcome output (some w.txVersion) rounds])

def initialLoopState (tasks : List (ParallelExecutorTask τ)) : LoopState κ ν τ where
  pending := tasks
  committed := []
  totalConflicts := 0
  rounds := 0
  mvMemory := .new
  cachedOutputs := fun _ => none
  retryCounts := fun _ => 0
  commitQueue := .new ((tasks.map (·.txIndex)).min?.getD 0)

/-- The state in which the OCC loop is left. -/
def occExit (schedules : ℕ → List ℕ) (tasks : List (ParallelExecutorTask τ)) : LoopState κ ν τ :=
  occLoop config executorFn state schedules config.maxRounds (initialLoopState tasks)

/-- The outcomes after the serial fallback, in index order. -/
def collectOutcomes (s : LoopState κ ν τ) : List (TxExecutionOutcome κ ν) :=
  sortByIndex (·.txIndex)
    (s.pending.foldl (fallbackTask executorFn state s.rounds) (s.mvMemory, s.committed)).2

/-! ### Finalization -/

variable (checkRow : κ → ν → Except String Unit) (outcomes : List (TxExecutionOutcome κ ν))

/-- `StateDb::apply_speculative_write`: a deletion removes the row, any other value must
pass the format check of its key. -/
def applySpeculativeWrite (rows : κ → Option ν) (w : κ × Option ν) : Except String (κ → Option ν) :=
  match w.2 with
  | none => .ok (Function.update rows w.1 none)
  | some v => do
    checkRow w.1 v
    return Function.update rows w.1 (some v)

/-- Writes waiting to be flushed. -/
structure WriteBatch (κ ν : Type) where
  entries : WriteSet κ ν
  capacity : ℕ

def WriteBatch.isFull (b : WriteBatch κ ν) : Bool := b.capacity ≤ b.entries.length

def WriteBatch.flush (b : WriteBatch κ ν)
    (rows : κ → Option ν) : Except String (WriteBatch κ ν × (κ → Option ν)) := do
  let rows' ← b.entries.foldlM (applySpeculativeWrite checkRow) rows
  return ({ b with entries := [] }, rows')

def WriteBatch.push (s : WriteBatch κ ν × (κ → Option ν)) (w : κ × Option ν) :
    Except String (WriteBatch κ ν × (κ → Option ν)) :=
  let b := { s.1 with entries := s.1.entries ++ [w] }
  if b.isFull then b.flush checkRow s.2 else .ok (b, s.2)

/-- Flush what is left at the end. -/
def WriteBatch.close (s : WriteBatch κ ν × (κ → Option ν)) : Except String (κ → Option ν) :=
  if s.1.entries.isEmpty then .ok s.2
  else do
    let (_, rows) ← s.1.flush checkRow s.2
    return rows

def TxExecutionOutcome.writes (o : TxExecutionOutcome κ ν) : WriteSet κ ν :=
  o.speculativeWrites.entries.map fun e => (e.1, e.2)

def flushOrder : WriteSet κ ν :=
  outcomes.flatMap (·.writes)

def finalize (rows : κ → Option ν) (batchSize : ℕ) : Except String (κ → Option ν) := do
  let s ← (flushOrder outcomes).foldlM (WriteBatch.push checkRow) (⟨[], batchSize⟩, rows)
  WriteBatch.close checkRow s

def collectReceipts : List Receipt × ℕ :=
  (outcomes.map (·.receipt), outcomes.foldl (fun g o => satAdd64 g o.gasUsed) 0)

structure BatchExecutionResult (κ ν : Type) where
  results : List (TxExecutionOutcome κ ν)
  receipts : List Receipt
  totalGasUsed : ℕ
  conflictCount : ℕ
  rounds : ℕ

/-- `ParallelExecutor::execute_block`: the result and the rows of the state afterwards. -/
def executeBlock (schedules : ℕ → List ℕ) (tasks : List (ParallelExecutorTask τ)) :
    Except String (BatchExecutionResult κ ν × (κ → Option ν)) :=
  if tasks.isEmpty then
    .ok (⟨[], [], 0, 0, 0⟩, state)
  else do
    let s := occExit config executorFn state schedules tasks
    let outcomes := collectOutcomes executorFn state s
    let rows ← finalize checkRow outcomes state config.writeBatchSize
    let (receipts, totalGasUsed) := collectReceipts outcomes
    return (⟨outcomes, receipts, totalGasUsed, s.totalConflicts, s.rounds⟩, rows)

end ExecuteBlock

end Sxiaum.Parallel
