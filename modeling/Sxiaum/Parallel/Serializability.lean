import Sxiaum.Parallel.Completeness

/-!
# Which blocks are executed as if serially

A committed execution is never validated again. If a task that was rolled back writes,
on its retry, a key that a later task has read and been settled with, the outcome of the
later task is stale. A block is executed as if serially exactly when no outcome is lost
in the reorder buffer and every late write leaves the outcomes of its readers as they are.
-/

namespace Sxiaum.Parallel

open WriteSet

variable {κ ν τ : Type} [DecidableEq κ]

/-! ### Late writes -/

section LateWrites

variable (executorFn : ParallelExecutorTask τ → ReadProgram κ ν (TxEffects κ ν))
  (state : κ → Option ν) (order : List (ParallelExecutorTask τ))

/-- The outcome with which a task is settled in its turn. -/
def settledAs (t : ParallelExecutorTask τ) : TxExecutionOutcome κ ν :=
  attempt executorFn state
    (settle executorFn state (order.takeWhile fun u => u.txIndex ≠ t.txIndex)) t

/-- A task that has read a key which an earlier task of the block, settled after it, stores
would have the same outcome if it ran at the end. -/
def LateWritesHarmless : Prop :=
  order.Pairwise fun t u => u.txIndex < t.txIndex →
    (∃ k ∈ (settledAs executorFn state order u).rwSet.writeSet,
      k ∈ (settledAs executorFn state order t).keysRead) →
    attempt executorFn state (settle executorFn state order) t =
      settledAs executorFn state order t

variable {executorFn state order} (hnodup : (order.map (·.txIndex)).Nodup)
  {pre post : List (ParallelExecutorTask τ)} {t : ParallelExecutorTask τ}

include hnodup

lemma settledAs_eq (hsplit : order = pre ++ t :: post) :
    settledAs executorFn state order t =
      attempt executorFn state (settle executorFn state pre) t := by
  subst hsplit
  rw [List.map_append, List.map_cons] at hnodup
  have hne : ∀ u ∈ pre, decide (u.txIndex ≠ t.txIndex) = true := fun u hu =>
    decide_eq_true ((List.nodup_append.1 hnodup).2.2 _ (List.mem_map_of_mem hu) _ (.head _))
  rw [settledAs, List.takeWhile_append_of_pos hne, List.takeWhile_cons_of_neg (by simp),
    List.append_nil]

/-- The tasks settled first have the outcomes of their turn. -/
lemma settle_eq_map (hsplit : order = pre ++ post) :
    settle executorFn state pre = pre.map (settledAs executorFn state order) := by
  induction pre using List.reverseRecOn generalizing post with
  | nil => rfl
  | append_singleton pre t ih =>
    rw [List.append_assoc] at hsplit
    rw [settle_concat, List.map_append, ih hsplit, List.map_singleton, settledAs_eq hnodup hsplit,
      ih hsplit]

/-- A task no late write of which it has read has the outcome it would have at the end. -/
lemma attempt_eq_settledAs (h : LateWritesHarmless executorFn state order) (ht : t ∈ order) :
    attempt executorFn state (settle executorFn state order) t =
      settledAs executorFn state order t := by
  obtain ⟨pre, post, hsplit⟩ := List.append_of_mem ht
  by_cases hlate : ∃ u ∈ post, u.txIndex < t.txIndex ∧
      ∃ k ∈ (settledAs executorFn state order u).rwSet.writeSet,
        k ∈ (settledAs executorFn state order t).keysRead
  · obtain ⟨u, hu, hlt, hk⟩ := hlate
    rw [LateWritesHarmless, hsplit] at h
    rw [hsplit] at hk ⊢
    exact (List.pairwise_cons.1 (List.pairwise_append.1 h).2.1).1 u hu hlt hk
  · have hall : settle executorFn state order = settle executorFn state pre ++
        (t :: post).map (settledAs executorFn state order) := by
      rw [settle_eq_map hnodup (List.append_nil order).symm, settle_eq_map hnodup hsplit,
        ← List.map_append, ← hsplit]
    have hpre : (pre.map (·.txIndex)).Nodup := by
      rw [hsplit, List.map_append] at hnodup
      exact (List.nodup_append.1 hnodup).1
    rw [hall, settledAs_eq hnodup hsplit]
    refine attempt_append (by rwa [settle_indices]) (List.forall_mem_map.2 fun u hu hlt k hk => ?_)
    refine lookup_attempt_eq_none.2 fun hw => ?_
    rcases List.mem_cons.1 hu with rfl | hu
    · exact absurd hlt (lt_irrefl _)
    · rw [← settledAs_eq hnodup hsplit] at hk
      exact hlate ⟨u, hu, hlt, k, hw, hk⟩

/-! ### The serial order -/

/-- The rows below a task are those that its predecessors leave. -/
lemma rowsBelow_settle (hsplit : sortByIndex (·.txIndex) order = pre ++ t :: post) :
    rowsBelow state (settle executorFn state order) t.txIndex =
      pre.foldl (fun r u => WriteSet.apply (settledAs executorFn state order u).writes r) state := by
  set out := settledAs executorFn state order
  have hall : settle executorFn state order = order.map out :=
    settle_eq_map hnodup (List.append_nil order).symm
  have hperm := sortByIndex_perm (·.txIndex) order
  have hasc := sortByIndex_strict hnodup
  rw [hsplit] at hasc hperm
  obtain ⟨hpre, htpost, hbefore⟩ := List.pairwise_append.1 hasc
  have hbelow : (order.map out).filter (·.txIndex < t.txIndex) |>.Perm (pre.map out) := by
    refine ((hperm.map out).symm.filter _).trans (List.Perm.of_eq ?_)
    rw [List.map_append, List.filter_append, List.filter_eq_self.2 ?_,
      List.filter_eq_nil_iff.2 ?_, List.append_nil]
    · refine List.forall_mem_map.2 fun u hu => ?_
      rcases List.mem_cons.1 hu with rfl | hu
      · exact fun h => absurd (of_decide_eq_true h) (lt_irrefl _)
      · exact fun h => absurd (of_decide_eq_true h) ((List.pairwise_cons.1 htpost).1 u hu).not_gt
    · exact List.forall_mem_map.2 fun u hu => decide_eq_true (hbefore u hu t (.head _))
  rw [rowsBelow, hall, sortByIndex_eq hbelow.symm (List.pairwise_map.2 hpre), apply_flushOrder,
    List.foldl_map]

/-- Tasks settled in some order have the outcomes of the serial execution exactly when late
writes are harmless. -/
theorem settle_serial_iff :
    sortByIndex (·.txIndex) (settle executorFn state order) =
        Serial.outputs (outcomeOn executorFn) (·.writes) state (sortByIndex (·.txIndex) order) ↔
      LateWritesHarmless executorFn state order := by
  set sorted := sortByIndex (·.txIndex) order with hsorted
  set out := settledAs executorFn state order with hout
  have hperm : sorted.Perm order := sortByIndex_perm _ _
  have hasc : sorted.Pairwise fun t u => t.txIndex < u.txIndex := sortByIndex_strict hnodup
  have hall : settle executorFn state order = order.map out :=
    settle_eq_map hnodup (List.append_nil order).symm
  have hsort : sortByIndex (·.txIndex) (settle executorFn state order) = sorted.map out := by
    rw [hall]
    exact sortByIndex_eq (hperm.map out) (List.pairwise_map.2 hasc)
  rw [hsort, eq_comm, Serial.outputs_eq_map_iff]
  constructor
  · intro h
    refine List.pairwise_of_forall_mem_list fun t ht u _ _ _ => ?_
    obtain ⟨pre, post, hsplit⟩ := List.append_of_mem (hperm.mem_iff.2 ht)
    rw [attempt, rowsBelow_settle hnodup hsplit]
    exact (h pre t post hsplit).symm
  · intro h pre t post hsplit
    have ht : t ∈ order := hperm.mem_iff.1 (by simp [hsplit])
    rw [← rowsBelow_settle hnodup hsplit]
    exact (attempt_eq_settledAs hnodup h ht).symm

end LateWrites

/-! ### The serial fallback -/

variable {executorFn : ParallelExecutorTask τ → ReadProgram κ ν (TxEffects κ ν)}
  {state : κ → Option ν} {tasks order : List (ParallelExecutorTask τ)} {start : ℕ}

section Fallback

variable {rounds : ℕ} {mv : MVMemory κ ν} {outs : List (TxExecutionOutcome κ ν)}
  {t : ParallelExecutorTask τ} {ps : List (ParallelExecutorTask τ)}

variable (executorFn state rounds order ps) in
/-- What holds during the fallback, with `order` settled and `ps` still to run. -/
structure FallbackInv (p : MVMemory κ ν × List (TxExecutionOutcome κ ν)) : Prop where
  distinct : (ps.map (·.txIndex) ++ p.2.map (·.txIndex)).Nodup
  fresh : ∀ t ∈ ps, ∀ k, ∀ v ∈ (p.1.versions k).entries,
    v.txVersion ≠ ⟨t.txIndex, rounds + 1⟩
  versioned : ∀ o ∈ p.2, ∃ tv, o.txVersion = some tv ∧ tv.txIndex = o.txIndex
  rows : ∀ k v, v.status = .committed →
    (v ∈ (p.1.versions k).entries ↔ ∃ o ∈ p.2, o.Wrote k v)
  settled : (p.2.map (·.result)).Perm (settle executorFn state order)

lemma FallbackInv.step (h : FallbackInv executorFn state order rounds (t :: ps) (mv, outs)) :
    FallbackInv executorFn state (order ++ [t]) rounds ps
      (fallbackTask executorFn state rounds (mv, outs) t) := by
  -- the task runs alone on the store, as a batch of one
  have hbatch := @executeBatch_spec _ _ _ _ executorFn state mv [t]
    (fun _ => rounds + 1) [] (List.nodup_singleton _) (by simpa using h.fresh t (.head _))
  have hout := hbatch.executed
  have hrows := hbatch.rows
  simp only [executeBatch, List.map_cons, List.map_nil, List.foldl_nil, finishWorkers,
    List.cons.injEq, and_true, CachedSpeculativeExecution.mk.injEq,
    List.mem_singleton, exists_eq_left] at hout hrows
  replace hout := hout.2.1
  set mv₁ := ((startWorker executorFn (rounds + 1) t).finish state mv).2
  set tv : TxVersion := ⟨t.txIndex, rounds + 1⟩
  have hsplit := fun k v => split_iff (q := v.txVersion = tv) (hrows k v)
    (h.fresh t (.head _) k v) (by rintro ⟨x, -, rfl⟩; rfl)
  have hprom := fun k v => mem_promoteToCommitted (fun v => (hsplit k v).1) v
  have hstep : fallbackTask executorFn state rounds (mv, outs) t =
      (mv₁.promoteToCommitted tv,
        outs ++ [rawToOutcome (speculate executorFn state mv t) (some tv) rounds]) := by
    simp only [fallbackTask, hout]
    rfl
  have hnodup := (List.nodup_cons.1 h.distinct).2
  have hnd : (outs.map (·.txIndex)).Nodup := (List.nodup_append.1 hnodup).2.1
  have hne : ∀ u ∈ ps, u.txIndex ≠ t.txIndex := fun u hu heq =>
    (List.nodup_cons.1 h.distinct).1 (List.mem_append_left _ (List.mem_map.2 ⟨u, hu, heq⟩))
  rw [hstep]
  refine ⟨?_, ?_, ?_, ?_, ?_⟩
  · rw [List.map_append, ← List.append_assoc]
    exact (List.perm_append_singleton _ _).nodup_iff.2 h.distinct
  · intro u hu k v hv htv
    rw [hprom, (hsplit k v).2] at hv
    rcases hv with hv | ⟨x, -, rfl⟩
    · exact h.fresh u (.tail _ hu) k v hv htv
    · exact hne u hu (congrArg TxVersion.txIndex htv).symm
  · intro o ho
    rcases List.mem_append.1 ho with ho | ho
    · exact h.versioned o ho
    · rw [List.mem_singleton.1 ho]
      exact ⟨tv, rfl, rfl⟩
  · intro k v hc
    rw [hprom, (hsplit k v).2, h.rows k v hc]
    simp only [List.mem_append, List.mem_singleton, or_and_right, exists_or, exists_eq_left,
      rawToOutcome_wrote]
  · have hdone : ((settle executorFn state order).map (·.txIndex)).Nodup := by
      have hidx := h.settled.map (·.txIndex)
      rw [List.map_map] at hidx
      exact hidx.nodup_iff.1 hnd
    rw [settle_concat, List.map_append]
    refine h.settled.append (List.Perm.of_eq ?_)
    rw [attempt, ← rowsBelow_result h.settled hdone, ← view_eq_rowsBelow hnd h.versioned h.rows]
    rfl

/-- The fallback settles what is left, one task after the other. -/
theorem fallback_settles {p : MVMemory κ ν × List (TxExecutionOutcome κ ν)}
    (h : FallbackInv executorFn state order rounds ps p) :
    ((ps.foldl (fallbackTask executorFn state rounds) p).2.map (·.result)).Perm
      (settle executorFn state (order ++ ps)) := by
  induction ps generalizing p order with
  | nil => simpa using h.settled
  | cons t ps ih =>
    rw [List.append_cons]
    exact ih h.step

end Fallback

/-! ### The whole block -/

lemma serial_indices (rows : κ → Option ν) (ts : List (ParallelExecutorTask τ)) :
    (Serial.outputs (outcomeOn executorFn) (·.writes) rows ts).map (·.txIndex) =
      ts.map (·.txIndex) := by
  induction ts generalizing rows with
  | nil => rfl
  | cons t ts ih => exact congrArg (t.txIndex :: ·) (ih _)

/-- When the stages settle the first tasks of a block, the results are those of settling first
what the stages settle and then what they leave. -/
lemma collectOutcomes_result (config : ParallelExecutionConfig) (schedules : ℕ → List ℕ)
    (hidx : (tasks.map (·.txIndex)).Perm (List.range' start tasks.length)) (hne : tasks ≠ [])
    (hfirst : SettlesPrefix config executorFn state tasks) :
    let p := stages config executorFn state config.maxRounds [] tasks
    (collectOutcomes executorFn state (occExit config executorFn state schedules tasks)).map
        (·.result) =
      sortByIndex (·.txIndex) (settle executorFn state (p.1 ++ p.2)) := by
  intro p
  have hnodup : (tasks.map (·.txIndex)).Nodup := hidx.nodup_iff.2 List.nodup_range'
  have hinv := @occExit_inv _ _ _ _ executorFn state _ _ hidx config schedules hne
  obtain ⟨hdone, hleft⟩ := @occExit_stages _ _ _ _ executorFn state _ _ hidx config schedules hne
  have hbuffer := (pendingCount_occExit hidx config schedules hne).2 hfirst
  set s := occExit config executorFn state schedules tasks
  have houtcomes : s.outcomes = s.committed := outcomes_eq_committed hinv hbuffer
  have hfinv : FallbackInv executorFn state p.1 s.rounds s.pending (s.mvMemory, s.committed) := by
    rw [LoopState.Settled, houtcomes] at hdone
    refine ⟨?_, ?_, ?_, ?_, hdone⟩
    · rw [← houtcomes]
      exact hinv.accounted.nodup_iff.2 hnodup
    · intro t _ k v hv htv
      have hbound := hinv.bounded k v hv
      rw [htv] at hbound
      exact absurd hbound (Nat.not_succ_le_self _)
    · intro o ho
      obtain ⟨t, -, mv, tv, n, rfl, htv, -⟩ := hinv.produced o (houtcomes ▸ ho)
      exact ⟨tv, rfl, htv⟩
    · rw [← houtcomes]
      exact hinv.rows
  have hsettled := fallback_settles hfinv
  rw [hleft] at hsettled
  refine (sortByIndex_eq ?_ ?_).symm
  · rw [collectOutcomes, hleft]
    exact ((sortByIndex_perm _ _).map _).trans hsettled
  · refine List.pairwise_map.2 (sortByIndex_strict ?_)
    have hindices := hsettled.map (·.txIndex)
    rw [settle_indices, List.map_map, ← hleft] at hindices
    refine hindices.nodup_iff.2 ?_
    rw [hleft]
    exact ((stages_perm config executorFn state _ _ _).map _).nodup_iff.2 hnodup

/-- `execute_block` ends with the rows and the results of running the tasks one after the other
in index order exactly when the stages leave no task before one that they settle and late
writes are harmless in the order in which the tasks are settled. -/
theorem executeBlock_serial_iff (config : ParallelExecutionConfig)
    (executorFn : ParallelExecutorTask τ → ReadProgram κ ν (TxEffects κ ν))
    (state : κ → Option ν) (checkRow : κ → ν → Except String Unit) (schedules : ℕ → List ℕ)
    (tasks : List (ParallelExecutorTask τ)) (start : ℕ)
    (hidx : (tasks.map (·.txIndex)).Perm (List.range' start tasks.length))
    (hrows : WellFormedWrites checkRow executorFn tasks) :
    let sorted := sortByIndex (·.txIndex) tasks
    let p := stages config executorFn state config.maxRounds [] tasks
    (∃ r rows, executeBlock config executorFn state checkRow schedules tasks = .ok (r, rows) ∧
        r.results.map (·.result) =
          Serial.outputs (outcomeOn executorFn) (·.writes) state sorted ∧
        rows = Serial.rowsAfter (outcomeOn executorFn) (·.writes) state sorted) ↔
      SettlesPrefix config executorFn state tasks ∧
        LateWritesHarmless executorFn state (p.1 ++ p.2) := by
  intro sorted p
  by_cases hne : tasks = []
  · subst hne
    refine iff_of_true ⟨_, _, rfl, rfl, rfl⟩ ?_
    simp [SettlesPrefix, LateWritesHarmless, p, stages_nil]
  have hnodup : (tasks.map (·.txIndex)).Nodup := hidx.nodup_iff.2 List.nodup_range'
  have hperm : (p.1 ++ p.2).Perm tasks := stages_perm config executorFn state _ [] tasks
  have hserial := @settle_serial_iff _ _ _ _ executorFn state (p.1 ++ p.2)
    ((hperm.map _).nodup_iff.2 hnodup)
  have hsorted : sortByIndex (·.txIndex) (p.1 ++ p.2) = sorted :=
    sortByIndex_eq ((sortByIndex_perm _ tasks).trans hperm.symm) (sortByIndex_strict hnodup)
  have hresult := @collectOutcomes_result _ _ _ _ executorFn state _ _ config schedules hidx hne
  rw [hsorted] at hserial
  rw [executeBlock_ok hidx config schedules hne hrows]
  constructor
  · rintro ⟨r, rows, hok, hres, -⟩
    obtain ⟨rfl, -⟩ := Prod.mk.inj (Except.ok.inj hok)
    have hinv := @occExit_inv _ _ _ _ executorFn state _ _ hidx config schedules hne
    have hindices := congrArg (List.map (·.txIndex)) hres
    rw [serial_indices, List.map_map, sortByIndex_indices hidx] at hindices
    -- all indices are there, so nothing was left waiting
    have hfirst := (pendingCount_occExit hidx config schedules hne).1
      ((collectOutcomes_indices_iff hidx hinv).1 hindices)
    exact ⟨hfirst, hserial.1 ((hresult hfirst).symm.trans hres)⟩
  · rintro ⟨hfirst, hlate⟩
    have hres := (hresult hfirst).trans (hserial.2 hlate)
    refine ⟨_, _, rfl, hres, ?_⟩
    rw [apply_flushOrder, Serial.rowsAfter_eq_foldl, ← hres, List.foldl_map]
    rfl

/-! ### A stale read -/

/-- Task 0 stores a row at key 0. Task 1 stores one at key 1 only when it finds the row at
key 0, and task 2 copies the row at key 1 to key 2. -/
def chainProgram (t : ParallelExecutorTask Unit) : ReadProgram ℕ ℕ (TxEffects ℕ ℕ) :=
  let store (ws : WriteSet ℕ ℕ) : TxEffects ℕ ℕ :=
    { gasUsed := 1, revertReason := none, writeSet := ws, events := [], returnData := []
      executionStatus := true }
  match t.txIndex with
  | 0 => .ret (store [(0, some 7)])
  | 1 => .read 0 fun v => .ret (store (if v.isSome then [(1, some 5)] else []))
  | _ => .read 1 fun v => .ret (store [(2, v)])

def threeTasks : List (ParallelExecutorTask Unit) := [⟨0, (), 10⟩, ⟨1, (), 11⟩, ⟨2, (), 12⟩]

/-- In the first round task 1 conflicts with task 0 and is retried, while task 2 commits the
missing row at key 1. The retry stores the row, and task 2 is not run again: key 2 stays
empty, where the serial execution copies the row. -/
theorem executeBlock_stale_read :
    (∃ r rows, executeBlock {} chainProgram (fun _ => none) (fun _ _ => .ok ()) (fun _ => [])
        threeTasks = .ok (r, rows) ∧ r.results.map (·.txIndex) = [0, 1, 2] ∧
        rows 1 = some 5 ∧ rows 2 = none) ∧
      Serial.rowsAfter (outcomeOn chainProgram) (·.writes) (fun _ => none)
        (sortByIndex (·.txIndex) threeTasks) 2 = some 5 :=
  ⟨⟨_, _, rfl, by decide, by decide, by decide⟩, by decide⟩

/-- The first two tasks alone conflict as well, and are executed as if serially. -/
theorem executeBlock_serial_twoTasks :
    ∃ r rows, executeBlock {} chainProgram (fun _ => none) (fun _ _ => .ok ()) (fun _ => [])
        (threeTasks.take 2) = .ok (r, rows) ∧
      r.results.map (·.result) =
        Serial.outputs (outcomeOn chainProgram) (·.writes) (fun _ => none)
          (sortByIndex (·.txIndex) (threeTasks.take 2)) ∧
      rows = Serial.rowsAfter (outcomeOn chainProgram) (·.writes) (fun _ => none)
        (sortByIndex (·.txIndex) (threeTasks.take 2)) := by
  have horder : stages {} chainProgram (fun _ => none) 8 [] (threeTasks.take 2) =
      (threeTasks.take 2, []) := by decide
  refine (executeBlock_serial_iff {} chainProgram (fun _ => none) (fun _ _ => .ok ())
    (fun _ => []) (threeTasks.take 2) 0 (by decide) fun _ _ _ _ _ _ => rfl).2 ⟨by decide, ?_⟩
  rw [horder]
  simp [LateWritesHarmless, threeTasks]

end Sxiaum.Parallel
