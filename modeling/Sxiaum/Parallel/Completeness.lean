import Sxiaum.Parallel.Stages

/-!
# Which blocks get one outcome for every task

`execute_block` drains the reorder buffer once per round and never again: an outcome
that still waits in it when the OCC loop is left is lost. That is the only way an
outcome can be lost, and no outcome is ever duplicated. An outcome waits in the end
when the stages settle its task and leave one before it.
-/

namespace Sxiaum.Parallel

open WriteBatch WriteSet

variable {κ ν τ : Type} [DecidableEq κ]

/-! ### Finalization -/

section Finalize

variable {checkRow : κ → ν → Except String Unit}

/-- Flushing in batches stores the same rows as storing each write at once. -/
theorem finalize_eq_foldlM (outcomes : List (TxExecutionOutcome κ ν)) (rows : κ → Option ν)
    (batchSize : ℕ) :
    finalize checkRow outcomes rows batchSize =
      (flushOrder outcomes).foldlM (applySpeculativeWrite checkRow) rows := by
  have hpush : ∀ (ws : WriteSet κ ν) (b : WriteBatch κ ν) (rows : κ → Option ν),
      (ws.foldlM (push checkRow) (b, rows) >>= close checkRow) =
        (b.entries ++ ws).foldlM (applySpeculativeWrite checkRow) rows := by
    intro ws
    induction ws with
    | nil =>
      intro b rows
      cases hb : b.entries with
      | nil => simp [close, hb]; rfl
      | cons w ws' => simp [close, flush, hb]
    | cons w ws ih =>
      intro b rows
      rw [List.foldlM_cons, bind_assoc]
      simp only [push]
      split_ifs with hfull
      · simp only [flush, bind_assoc, pure_bind, ih, List.nil_append]
        rw [← List.foldlM_append, List.append_assoc, List.singleton_append]
      · refine (ih _ rows).trans ?_
        rw [List.append_assoc, List.singleton_append]
  exact hpush (flushOrder outcomes) ⟨[], batchSize⟩ rows

lemma foldlM_applySpeculativeWrite {ws : WriteSet κ ν} {rows : κ → Option ν}
    (h : ∀ k v, (k, some v) ∈ ws → checkRow k v = .ok ()) :
    ws.foldlM (applySpeculativeWrite checkRow) rows = .ok (WriteSet.apply ws rows) := by
  induction ws generalizing rows with
  | nil => rfl
  | cons w ws ih =>
    obtain ⟨k, x⟩ := w
    have hone : applySpeculativeWrite checkRow rows (k, x) = .ok (Function.update rows k x) := by
      cases x with
      | none => rfl
      | some v => simp [applySpeculativeWrite, h k v (.head _)]
    rw [List.foldlM_cons, hone]
    exact ih (fun k v hv => h k v (.tail _ hv))

end Finalize

/-! ### The serial fallback -/

section Fallback

variable (executorFn : ParallelExecutorTask τ → ReadProgram κ ν (TxEffects κ ν))
  (state : κ → Option ν)

omit [DecidableEq κ] in
/-- A program run against the store evaluates on the rows its version observes. -/
lemma runProgram_eq (tv : TxVersion) (prog : ReadProgram κ ν (TxEffects κ ν)) (reads : List κ)
    (mv : MVMemory κ ν) :
    let rows := fun k => rowRead state k ((mv.observed tv k).map (·.value))
    (Worker.runProgram state tv prog reads mv).1 =
      (prog.eval rows, reads ++ prog.keysRead rows) := by
  induction prog generalizing reads mv with
  | ret eff => simp [Worker.runProgram, ReadProgram.eval, ReadProgram.keysRead]
  | read k cont ih =>
    simp only [Worker.runProgram, ReadProgram.eval, ReadProgram.keysRead]
    refine (ih _ _ _).trans ?_
    simp only [MVMemory.readAtVersion_value, List.append_assoc, List.singleton_append]
    rfl

lemma finish_startWorker (inc : ℕ) (t : ParallelExecutorTask τ) (mv : MVMemory κ ν) :
    ∃ rows, ((startWorker executorFn inc t).finish state mv).1 = runTask executorFn rows t := by
  refine ⟨fun k => rowRead state k ((mv.observed ⟨t.txIndex, inc⟩ k).map (·.value)), ?_⟩
  have hrun := runProgram_eq state ⟨t.txIndex, inc⟩ (executorFn t) [] mv
  simp only [startWorker, Worker.finish, hrun]
  rfl

/-- The fallback appends one outcome of each task left, computed on some rows. -/
theorem fallback_outcomes (rounds : ℕ) (ps : List (ParallelExecutorTask τ)) (mv : MVMemory κ ν)
    (outs : List (TxExecutionOutcome κ ν)) :
    let outs' := (ps.foldl (fallbackTask executorFn state rounds) (mv, outs)).2
    outs'.map (·.txIndex) = outs.map (·.txIndex) ++ ps.map (·.txIndex) ∧
      ∀ o ∈ outs', o ∈ outs ∨ ∃ t ∈ ps, ∃ rows tv n,
        o = rawToOutcome (runTask executorFn rows t) tv n := by
  induction ps generalizing mv outs with
  | nil => exact ⟨by simp, fun o ho => Or.inl ho⟩
  | cons t ps ih =>
    obtain ⟨rows, hrows⟩ := finish_startWorker executorFn state (rounds + 1) t mv
    obtain ⟨hidx, hmem⟩ := ih (fallbackTask executorFn state rounds (mv, outs) t).1
      (fallbackTask executorFn state rounds (mv, outs) t).2
    have hnew : (fallbackTask executorFn state rounds (mv, outs) t).2 =
        outs ++
          [rawToOutcome (runTask executorFn rows t) (some ⟨t.txIndex, rounds + 1⟩) rounds] := by
      simp only [fallbackTask, hrows]
      rfl
    refine ⟨?_, ?_⟩
    · refine hidx.trans ?_
      rw [hnew]
      simp [rawToOutcome, runTask, mkOutput]
    · intro o ho
      rcases hmem o ho with ho | ⟨u, hu, hprod⟩
      · rw [hnew, List.mem_append, List.mem_singleton] at ho
        rcases ho with ho | rfl
        · exact Or.inl ho
        · exact Or.inr ⟨t, .head _, rows, _, _, rfl⟩
      · exact Or.inr ⟨u, .tail _ hu, hprod⟩

end Fallback

/-! ### Completeness -/

/-- Every row the tasks write passes the format check of its key. -/
def WellFormedWrites (checkRow : κ → ν → Except String Unit)
    (executorFn : ParallelExecutorTask τ → ReadProgram κ ν (TxEffects κ ν))
    (tasks : List (ParallelExecutorTask τ)) : Prop :=
  ∀ t ∈ tasks, ∀ rows k v, (k, some v) ∈ ((executorFn t).eval rows).writeSet →
    checkRow k v = .ok ()

/-- The stages settle the first tasks of a block: no task that they leave is before one that
they settle. -/
def SettlesPrefix (config : ParallelExecutionConfig)
    (executorFn : ParallelExecutorTask τ → ReadProgram κ ν (TxEffects κ ν))
    (state : κ → Option ν) (tasks : List (ParallelExecutorTask τ)) : Prop :=
  let p := stages config executorFn state config.maxRounds [] tasks
  ∀ t ∈ p.1, ∀ u ∈ p.2, t.txIndex < u.txIndex

instance (config : ParallelExecutionConfig)
    (executorFn : ParallelExecutorTask τ → ReadProgram κ ν (TxEffects κ ν))
    (state : κ → Option ν) (tasks : List (ParallelExecutorTask τ)) :
    Decidable (SettlesPrefix config executorFn state tasks) :=
  List.decidableBAll _ _

section Complete

variable {executorFn : ParallelExecutorTask τ → ReadProgram κ ν (TxEffects κ ν)}
  {state : κ → Option ν} {tasks : List (ParallelExecutorTask τ)} {start : ℕ}
  {s : LoopState κ ν τ}

/-- Every outcome comes from a run of its task on some rows. -/
lemma collectOutcomes_produced (h : ExitInv executorFn state tasks start s)
    {o : TxExecutionOutcome κ ν} (ho : o ∈ collectOutcomes executorFn state s) :
    ∃ t ∈ tasks, ∃ rows tv n, o = rawToOutcome (runTask executorFn rows t) tv n := by
  rw [collectOutcomes, (sortByIndex_perm _ _).mem_iff] at ho
  rcases (fallback_outcomes executorFn state s.rounds s.pending s.mvMemory s.committed).2 o ho
    with ho | ⟨t, ht, hprod⟩
  · have hout : o ∈ s.outcomes := by
      simp only [LoopState.outcomes, OrderedCommitQueue.outcomes, List.mem_append]
      exact Or.inl (Or.inl ho)
    obtain ⟨t, ht, mv, tv, n, rfl, -⟩ := h.produced o hout
    exact ⟨t, ht, _, _, _, rfl⟩
  · exact ⟨t, h.pendingSub t ht, hprod⟩

/-- With nothing left in the buffer all outcomes have been drained. -/
lemma outcomes_eq_committed (h : ExitInv executorFn state tasks start s)
    (hzero : s.commitQueue.pendingCount = 0) : s.outcomes = s.committed := by
  have hvals : s.commitQueue.pending.values = [] :=
    AList.values_eq_nil.2 (List.length_eq_zero_iff.1 hzero)
  simp [LoopState.outcomes, OrderedCommitQueue.outcomes, h.drained, hvals]

section

variable (hidx : (tasks.map (·.txIndex)).Perm (List.range' start tasks.length))

include hidx

lemma start_le (t : ParallelExecutorTask τ) (ht : t ∈ tasks) : start ≤ t.txIndex :=
  (List.mem_range'_1.1 (hidx.mem_iff.1 (List.mem_map_of_mem ht))).1

/-- The loop starts with tasks of consecutive indices accounted for. -/
lemma loopInv_range (hne : tasks ≠ []) :
    LoopInv executorFn state tasks start (initialLoopState tasks : LoopState κ ν τ) := by
  have hlen : 0 < tasks.length := List.length_pos_iff.2 hne
  have hmin : (tasks.map (·.txIndex)).min? = some start := by
    rw [List.min?_eq_some_iff, hidx.mem_iff]
    refine ⟨List.mem_range'_1.2 ⟨le_rfl, by omega⟩, List.forall_mem_map.2 (start_le hidx)⟩
  have hinit := @loopInv_initial _ _ _ _ executorFn state tasks
  rwa [hmin] at hinit

variable (config : ParallelExecutionConfig) (schedules : ℕ → List ℕ)

/-- The state in which the loop is left accounts for tasks with consecutive indices. -/
theorem occExit_inv (hne : tasks ≠ []) : ExitInv executorFn state tasks start
      (occExit config executorFn state schedules tasks) :=
  occLoop_inv (hidx.nodup_iff.2 List.nodup_range') (start_le hidx) config schedules _
    (loopInv_range hidx hne)

/-- What the OCC loop settles and leaves is what the stages do. -/
theorem occExit_stages (hne : tasks ≠ []) :
    let s := occExit config executorFn state schedules tasks
    let p := stages config executorFn state config.maxRounds [] tasks
    s.Settled executorFn state p.1 ∧ s.pending = p.2 :=
  occLoop_stages config (hidx.nodup_iff.2 List.nodup_range') (start_le hidx) schedules _
    (loopInv_range hidx hne) (by simp [LoopState.Settled, initialLoopState, LoopState.outcomes,
      OrderedCommitQueue.outcomes, OrderedCommitQueue.new, AList.values, settle])

/-- No outcome waits in the buffer exactly when all are below the tasks that are left. -/
lemma pendingCount_eq_zero_iff (h : ExitInv executorFn state tasks start s) :
    s.commitQueue.pendingCount = 0 ↔
      ∀ o ∈ s.outcomes, ∀ t ∈ s.pending, o.txIndex < t.txIndex := by
  have hreleased := h.ordered.released
  have hnext := h.ordered.next
  rw [h.drained, List.append_nil] at hreleased hnext
  constructor
  · intro hzero o ho t ht
    have houts : s.outcomes.map (·.txIndex) = List.range' start s.committed.length := by
      rw [outcomes_eq_committed h hzero, hreleased]
    have hnd := h.accounted.nodup_iff.2 (hidx.nodup_iff.2 List.nodup_range')
    have hin : o.txIndex ∈ List.range' start s.committed.length :=
      houts ▸ List.mem_map_of_mem ho
    have hnot : t.txIndex ∉ List.range' start s.committed.length := fun hmem =>
      (List.nodup_append.1 hnd).2.2 _ (List.mem_map_of_mem ht) _ (houts ▸ hmem) rfl
    have hle := start_le hidx t (h.pendingSub t ht)
    rw [List.mem_range'_1] at hin hnot
    omega
  · intro hbelow
    by_contra hne
    -- an outcome that waits has a gap below it, which is the index of a task that is left
    obtain ⟨⟨i, o⟩, he⟩ := List.exists_mem_of_ne_nil _ (mt List.length_eq_zero_iff.2 hne)
    have hlook : s.commitQueue.pending.lookup i = some o := AList.mem_lookup_iff.2 he
    have hi : i ∈ s.commitQueue.pending := AList.lookup_isSome.1 (by simp [hlook])
    have ho : o ∈ s.outcomes := List.mem_append_right _ (AList.mem_values.2 ⟨i, hlook⟩)
    have hoi := h.ordered.keyed i o hlook
    have hlt : s.commitQueue.nextCommitIndex < i :=
      lt_of_le_of_ne (h.ordered.waiting i hi) fun heq => h.gap (heq ▸ hi)
    have hacc := h.accounted.trans hidx
    have hrange : i ∈ List.range' start tasks.length :=
      hacc.mem_iff.1 (List.mem_append_right _ (hoi ▸ List.mem_map_of_mem ho))
    have hgap : s.commitQueue.nextCommitIndex ∈ List.range' start tasks.length := by
      rw [List.mem_range'_1] at hrange ⊢
      omega
    rcases List.mem_append.1 (hacc.mem_iff.2 hgap) with hin | hin
    · obtain ⟨t, ht, hti⟩ := List.mem_map.1 hin
      have := hbelow o ho t ht
      omega
    · rw [LoopState.outcomes, OrderedCommitQueue.outcomes, h.drained, List.append_nil,
        List.map_append, hreleased, List.mem_append, List.mem_range'_1] at hin
      rcases hin with hin | hin
      · omega
      · obtain ⟨o', ho', ho'i⟩ := List.mem_map.1 hin
        obtain ⟨j, hj⟩ := AList.mem_values.1 ho'
        rw [h.ordered.keyed j o' hj] at ho'i
        exact h.gap (AList.lookup_isSome.1 (by rw [← ho'i, hj]; rfl))

/-- All indices are there, once and in order, exactly when no outcome waits in the buffer. -/
lemma collectOutcomes_indices_iff (h : ExitInv executorFn state tasks start s) :
    (collectOutcomes executorFn state s).map (·.txIndex) = List.range' start tasks.length ↔
      s.commitQueue.pendingCount = 0 := by
  have hacc := h.accounted.trans hidx
  have hperm : ((collectOutcomes executorFn state s).map (·.txIndex)).Perm
      (s.committed.map (·.txIndex) ++ s.pending.map (·.txIndex)) := by
    rw [← (fallback_outcomes executorFn state s.rounds s.pending s.mvMemory s.committed).1]
    exact (sortByIndex_perm _ _).map _
  simp only [LoopState.outcomes, OrderedCommitQueue.outcomes, h.drained, List.append_nil,
    List.map_append] at hacc
  constructor
  · intro heq
    have hlen := hacc.length_eq
    rw [heq] at hperm
    have hlen' := hperm.length_eq
    simp only [List.length_append, List.length_map, List.length_range', AList.values] at hlen hlen'
    rw [OrderedCommitQueue.pendingCount]
    omega
  · intro hzero
    have hvals : s.commitQueue.pending.values = [] :=
      AList.values_eq_nil.2 (List.length_eq_zero_iff.1 hzero)
    rw [hvals, List.map_nil, List.append_nil] at hacc
    exact (hperm.trans (List.perm_append_comm.trans hacc)).eq_of_pairwise'
      (sortByIndex_sorted _ _) List.pairwise_le_range'

lemma pendingCount_occExit (hne : tasks ≠ []) :
    (occExit config executorFn state schedules tasks).commitQueue.pendingCount = 0 ↔
      SettlesPrefix config executorFn state tasks := by
  have hinv := @occExit_inv _ _ _ _ executorFn state _ _ hidx config schedules hne
  obtain ⟨hdone, hleft⟩ := @occExit_stages _ _ _ _ executorFn state _ _ hidx config schedules hne
  rw [pendingCount_eq_zero_iff hidx hinv, hleft, SettlesPrefix]
  constructor
  · intro hbelow t ht u hu
    obtain ⟨o, ho, hot⟩ := List.mem_map.1 (hdone.indices.mem_iff.2 (List.mem_map_of_mem ht))
    exact hot ▸ hbelow o ho u hu
  · intro hbelow o ho u hu
    obtain ⟨t, ht, hto⟩ := List.mem_map.1 (hdone.indices.mem_iff.1 (List.mem_map_of_mem ho))
    exact hto ▸ hbelow t ht u hu

theorem executeBlock_ok {checkRow : κ → ν → Except String Unit} (hne : tasks ≠ [])
    (hrows : WellFormedWrites checkRow executorFn tasks) :
    let s := occExit config executorFn state schedules tasks
    let outcomes := collectOutcomes executorFn state s
    executeBlock config executorFn state checkRow schedules tasks =
      .ok (⟨outcomes, (collectReceipts outcomes).1, (collectReceipts outcomes).2,
        s.totalConflicts, s.rounds⟩, WriteSet.apply (flushOrder outcomes) state) := by
  intro s outcomes
  have hinv := @occExit_inv _ _ _ _ executorFn state _ _ hidx config schedules hne
  have hfin : finalize checkRow outcomes state config.writeBatchSize =
      .ok (WriteSet.apply (flushOrder outcomes) state) := by
    rw [finalize_eq_foldlM]
    refine foldlM_applySpeculativeWrite fun k v hv => ?_
    obtain ⟨o, ho, hmem⟩ := List.mem_flatMap.1 hv
    obtain ⟨t, ht, rows, tv, n, rfl⟩ := collectOutcomes_produced hinv ho
    have hlook : (collectWrites (runTask executorFn rows t).writeSet).lookup k =
        some (some v) := by
      obtain ⟨⟨k', x⟩, he, heq⟩ := List.mem_map.1 hmem
      obtain ⟨rfl, rfl⟩ : k' = k ∧ x = some v := by simpa using heq
      exact AList.mem_lookup_iff.2 he
    rw [lookup_collectWrites] at hlook
    exact hrows t ht rows k v (mem_of_lastWrite hlook)
  have hempty : tasks.isEmpty = false := by simpa using hne
  simp only [executeBlock, hempty, Bool.false_eq_true, if_false]
  change (finalize checkRow outcomes state config.writeBatchSize >>= _) = _
  rw [hfin]
  rfl

end

end Complete

/-- `execute_block` returns one outcome for every task, in ascending index order, exactly
when the stages leave no task before one that they settle. -/
theorem executeBlock_complete_iff (config : ParallelExecutionConfig)
    (executorFn : ParallelExecutorTask τ → ReadProgram κ ν (TxEffects κ ν))
    (state : κ → Option ν) (checkRow : κ → ν → Except String Unit) (schedules : ℕ → List ℕ)
    (tasks : List (ParallelExecutorTask τ)) (start : ℕ)
    (hidx : (tasks.map (·.txIndex)).Perm (List.range' start tasks.length))
    (hrows : WellFormedWrites checkRow executorFn tasks) :
    (∃ r rows, executeBlock config executorFn state checkRow schedules tasks = .ok (r, rows) ∧
        r.results.map (·.txIndex) = List.range' start tasks.length) ↔
      SettlesPrefix config executorFn state tasks := by
  by_cases hne : tasks = []
  · subst hne
    exact iff_of_true ⟨_, _, rfl, rfl⟩ (by simp [SettlesPrefix, stages_nil])
  · have hinv := @occExit_inv _ _ _ _ executorFn state _ _ hidx config schedules hne
    rw [← pendingCount_occExit hidx config schedules hne, ← collectOutcomes_indices_iff hidx hinv,
      executeBlock_ok hidx config schedules hne hrows]
    constructor
    · rintro ⟨r, rows, hok, hres⟩
      obtain ⟨rfl, -⟩ := Prod.mk.inj (Except.ok.inj hok)
      exact hres
    · exact fun heq => ⟨_, _, rfl, heq⟩

/-! ### Two small blocks -/

/-- A transaction that stores `1` under its own index, or fails without writing. -/
def storeOwn (fails : Bool) (t : ParallelExecutorTask Unit) :
    ReadProgram ℕ ℕ (TxEffects ℕ ℕ) :=
  .ret { gasUsed := 1, revertReason := none, events := [], returnData := []
         writeSet := if fails then [] else [(t.txIndex, some 1)]
         executionStatus := !fails }

def twoTasks : List (ParallelExecutorTask Unit) := [⟨0, (), 10⟩, ⟨1, (), 11⟩]

/-- Two transactions on different keys: both outcomes come back. -/
theorem executeBlock_complete_twoTasks :
    ∃ r rows, executeBlock {} (storeOwn false) (fun _ => none) (fun _ _ => .ok ()) (fun _ => [])
        twoTasks = .ok (r, rows) ∧ r.results.map (·.txIndex) = [0, 1] :=
  (executeBlock_complete_iff {} (storeOwn false) (fun _ => none) (fun _ _ => .ok ()) (fun _ => [])
    twoTasks 0 (by decide) (fun _ _ _ _ _ _ => rfl)).2 (by decide)

/-- The first transaction fails and is retried in every round; the second one commits in
the first round, waits behind it in the buffer, and its outcome and write are lost. -/
theorem executeBlock_drops_outcome :
    ∃ r rows, executeBlock {} (fun t => storeOwn (t.txIndex = 0) t) (fun _ => none)
        (fun _ _ => .ok ()) (fun _ => []) twoTasks = .ok (r, rows) ∧
      r.results.map (·.txIndex) = [0] ∧ rows 1 = none :=
  ⟨_, _, rfl, by decide, by decide⟩

end Sxiaum.Parallel
