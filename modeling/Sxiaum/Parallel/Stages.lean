import Sxiaum.Parallel.Rounds

/-!
# The order in which a block settles its tasks

The rounds of the executor settle the tasks of a block in stages. In each stage every task
that is left runs on the rows of the settled tasks before it in the block, and it is settled
when it succeeds and loses no conflict against another task of the stage. Workers, versions,
retries and validation do not show: a stage is determined by the tasks and the rows alone.
The tasks that are left after the last stage are settled one after the other.
-/

namespace Sxiaum.Parallel

open WriteSet

variable {κ ν τ : Type} [DecidableEq κ]

section Stages

variable (config : ParallelExecutionConfig)
  (executorFn : ParallelExecutorTask τ → ReadProgram κ ν (TxEffects κ ν))
  (state : κ → Option ν)

/-- What a task comes to on given rows. -/
def outcomeOn (rows : κ → Option ν) (t : ParallelExecutorTask τ) : TxExecutionOutcome κ ν :=
  rawToOutcome (runTask executorFn rows t) none 0

/-- The rows of the state under the writes of the outcomes below an index. -/
def rowsBelow (done : List (TxExecutionOutcome κ ν)) (i : ℕ) : κ → Option ν :=
  WriteSet.apply (flushOrder (sortByIndex (·.txIndex) (done.filter (·.txIndex < i)))) state

/-- The outcome of a task that finds `done` settled. -/
def attempt (done : List (TxExecutionOutcome κ ν)) (t : ParallelExecutorTask τ) :
    TxExecutionOutcome κ ν :=
  outcomeOn executorFn (rowsBelow state done t.txIndex) t

/-- The outcomes of tasks that are settled one after the other, in whichever order. -/
def settle (order : List (ParallelExecutorTask τ)) : List (TxExecutionOutcome κ ν) :=
  order.foldl (fun done t => done ++ [attempt executorFn state done t]) []

/-- The tasks that lose a conflict among these outcomes. -/
def losers (outs : List (TxExecutionOutcome κ ν)) : Finset ℕ :=
  resolve config.conflictResolutionPolicy
    (detectConflictsDetailed (outs.map fun o => (o.txIndex, o.rwSet)))

/-- The tasks settled in the next stages, in the order in which they are settled, and the tasks
that are left. A stage in which too many tasks lose a conflict settles none and is the last. -/
def stages : ℕ → List (ParallelExecutorTask τ) → List (ParallelExecutorTask τ) →
    List (ParallelExecutorTask τ) × List (ParallelExecutorTask τ)
  | 0, order, left => (order, left)
  | n + 1, order, left =>
    if left.isEmpty then (order, left)
    else
      let left := sortByIndex (·.txIndex) left
      let outcome := attempt executorFn state (settle executorFn state order)
      let lost := losers config (left.map outcome)
      if 0 < lost.card ∧ config.conflictRateExceeds lost.card left.length then (order, left)
      else
        let settles t := (outcome t).success && decide (t.txIndex ∉ lost)
        stages n (order ++ left.filter settles) (left.filter fun t => !settles t)

lemma stages_nil (n : ℕ) : stages config executorFn state n [] [] = ([], []) := by
  cases n <;> rfl

/-- No task is lost or settled twice. -/
theorem stages_perm (n : ℕ) (order left : List (ParallelExecutorTask τ)) :
    let p := stages config executorFn state n order left
    (p.1 ++ p.2).Perm (order ++ left) := by
  induction n generalizing order left with
  | zero => exact .refl _
  | succ n ih =>
    simp only [stages]
    split_ifs with hempty hbreak
    · exact .refl _
    · exact (sortByIndex_perm _ left).append_left order
    · refine (ih _ _).trans ?_
      rw [List.append_assoc]
      exact ((List.filter_append_perm _ _).trans (sortByIndex_perm _ left)).append_left order

end Stages

/-! ### The rows below an index -/

lemma apply_flushOrder (outs : List (TxExecutionOutcome κ ν)) (rows : κ → Option ν) :
    WriteSet.apply (flushOrder outs) rows =
      outs.foldl (fun r o => WriteSet.apply o.writes r) rows := by
  simp only [WriteSet.apply, flushOrder, List.foldl_flatMap]

/-- An outcome's writes hold the last value written to each key. -/
lemma lastWrite_writes (o : TxExecutionOutcome κ ν) (k : κ) :
    lastWrite o.writes k = o.speculativeWrites.lookup k := by
  rw [TxExecutionOutcome.writes]
  obtain ⟨entries, hnd⟩ := o.speculativeWrites
  change lastWrite (entries.map fun e => (e.1, e.2)) k = entries.dlookup k
  induction entries with
  | nil => rfl
  | cons e entries ih =>
    obtain ⟨k', x⟩ := e
    obtain ⟨hk', hnd'⟩ := List.nodupKeys_cons.1 hnd
    rw [List.map_cons, lastWrite, ih hnd']
    by_cases hk : k' = k
    · subst hk
      simp [List.dlookup_eq_none.2 hk']
    · have hne : k ≠ (⟨k', x⟩ : Sigma fun _ : κ => Option ν).1 := Ne.symm hk
      rw [List.dlookup_cons_ne _ _ hne, if_neg hk, Option.or_none]

variable {executorFn : ParallelExecutorTask τ → ReadProgram κ ν (TxEffects κ ν)}
  {state : κ → Option ν} {done done' : List (TxExecutionOutcome κ ν)} {i : ℕ} {k : κ}

variable (state done i k) in
/-- The row is the one that the last outcome below the index stores, if one stores the key. -/
lemma rowsBelow_cases :
    (∃ o ∈ done, o.txIndex < i ∧ o.speculativeWrites.lookup k = some (rowsBelow state done i k) ∧
      ∀ o' ∈ done, o'.txIndex < i → o'.speculativeWrites.lookup k ≠ none →
        o'.txIndex ≤ o.txIndex) ∨
    (∀ o ∈ done, o.txIndex < i → o.speculativeWrites.lookup k = none) ∧
      rowsBelow state done i k = state k := by
  set below := sortByIndex (·.txIndex) (done.filter (·.txIndex < i)) with hbelow
  have hmem : ∀ o, o ∈ below ↔ o ∈ done ∧ o.txIndex < i := by
    simp [hbelow, (sortByIndex_perm _ _).mem_iff]
  have hrow : rowsBelow state done i k =
      (below.reverse.findSome? fun o => o.speculativeWrites.lookup k).getD (state k) := by
    have hfold := WriteSet.foldl_apply_eq (below.map (·.writes)) state k
    simp only [List.foldl_map, ← List.map_reverse, List.findSome?_map, Function.comp_def,
      lastWrite_writes] at hfold
    rw [rowsBelow, apply_flushOrder, ← hbelow, hfold]
  cases hf : below.reverse.findSome? fun o => o.speculativeWrites.lookup k with
  | none =>
    rw [hf, Option.getD_none] at hrow
    refine Or.inr ⟨fun o ho hlt => ?_, hrow⟩
    exact List.findSome?_eq_none_iff.1 hf o (List.mem_reverse.2 ((hmem o).2 ⟨ho, hlt⟩))
  | some x =>
    rw [hf, Option.getD_some] at hrow
    obtain ⟨later, o, earlier, hsplit, hx, hlater⟩ := List.findSome?_eq_some_iff.1 hf
    have hin : ∀ o', o' ∈ below ↔ o' ∈ later ∨ o' = o ∨ o' ∈ earlier := by
      intro o'
      rw [← List.mem_reverse, hsplit, List.mem_append, List.mem_cons]
    obtain ⟨ho, hlt⟩ := (hmem o).1 ((hin o).2 (Or.inr (Or.inl rfl)))
    refine Or.inl ⟨o, ho, hlt, hrow ▸ hx, fun o' ho' hlt' hne => ?_⟩
    rcases (hin o').1 ((hmem o').2 ⟨ho', hlt'⟩) with h | rfl | h
    · exact absurd (hlater o' h) hne
    · exact le_rfl
    · have hsorted : below.Pairwise fun a b => a.txIndex ≤ b.txIndex :=
        List.pairwise_map.1 (sortByIndex_sorted _ _)
      rw [← List.pairwise_reverse, hsplit] at hsorted
      exact (List.pairwise_cons.1 (List.pairwise_append.1 hsorted).2.1).1 o' h

/-- Two lists of outcomes that store a key alike below the index give it the same row. -/
lemma rowsBelow_congr (hnodup : (done'.map (·.txIndex)).Nodup)
    (h : ∀ j < i, ∀ x, (∃ o ∈ done, o.txIndex = j ∧ o.speculativeWrites.lookup k = some x) ↔
      ∃ o ∈ done', o.txIndex = j ∧ o.speculativeWrites.lookup k = some x) :
    rowsBelow state done i k = rowsBelow state done' i k := by
  rcases rowsBelow_cases state done i k with ⟨o, ho, hlt, hx, hmax⟩ | ⟨hnone, hrow⟩ <;>
    rcases rowsBelow_cases state done' i k with ⟨o', ho', hlt', hx', hmax'⟩ | ⟨hnone', hrow'⟩
  · obtain ⟨u, hu, huo, hux⟩ := (h _ hlt _).1 ⟨o, ho, rfl, hx⟩
    obtain ⟨u', hu', huo', hux'⟩ := (h _ hlt' _).2 ⟨o', ho', rfl, hx'⟩
    have hle := hmax' u hu (by omega) (by simp [hux])
    have hle' := hmax u' hu' (by omega) (by simp [hux'])
    obtain rfl : u = o' := List.inj_on_of_nodup_map hnodup hu ho' (by omega)
    exact Option.some.inj (hux.symm.trans hx')
  · obtain ⟨u, hu, huo, hux⟩ := (h _ hlt _).1 ⟨o, ho, rfl, hx⟩
    simp [hnone' u hu (by omega)] at hux
  · obtain ⟨u, hu, huo, hux⟩ := (h _ hlt' _).2 ⟨o', ho', rfl, hx'⟩
    simp [hnone u hu (by omega)] at hux
  · rw [hrow, hrow']

/-- The committed versions show a task the rows below it. -/
lemma view_eq_rowsBelow {mv : MVMemory κ ν} (hnodup : (done.map (·.txIndex)).Nodup)
    (hver : ∀ o ∈ done, ∃ tv, o.txVersion = some tv ∧ tv.txIndex = o.txIndex)
    (hrows : ∀ k (v : Version ν), v.status = .committed →
      (v ∈ (mv.versions k).entries ↔ ∃ o ∈ done, o.Wrote k v)) (i : ℕ) :
    mv.view state i = rowsBelow state done i := by
  funext k
  rw [MVMemory.view]
  rcases rowsBelow_cases state done i k with ⟨o, ho, hlt, hx, hmax⟩ | ⟨hnone, hrow⟩
  · obtain ⟨tv, htv, hidx⟩ := hver o ho
    have hsome : (mv.versions k).latestCommitted i =
        some ⟨tv, rowsBelow state done i k, .committed⟩ := by
      refine VersionList.latestCommitted_eq_some.2 ⟨?_, rfl, hidx.trans_lt hlt, ?_⟩
      · exact (hrows k _ rfl).2 ⟨o, ho, tv, _, htv, hx, rfl⟩
      · intro v hv hc hvlt
        obtain ⟨o', ho', tv', x', htv', hx', rfl⟩ := (hrows k v hc).1 hv
        obtain ⟨tv'', htv'', hidx'⟩ := hver o' ho'
        obtain rfl : tv' = tv'' := Option.some.inj (htv'.symm.trans htv'')
        have hle := hmax o' ho' (hidx' ▸ hvlt) (by simp [hx'])
        rcases hle.lt_or_eq with hlt' | heq
        · exact (TxVersion.lt_of_txIndex_lt (by rwa [hidx', hidx])).le
        · obtain rfl : o' = o := List.inj_on_of_nodup_map hnodup ho' ho heq
          exact (Option.some.inj (htv'.symm.trans htv)).le
    rw [hsome]
  · have hempty : (mv.versions k).latestCommitted i = none := by
      refine VersionList.latestCommitted_eq_none.2 fun v hv hc hvlt => ?_
      obtain ⟨o, ho, tv, x, htv, hx, rfl⟩ := (hrows k v hc).1 hv
      obtain ⟨tv', htv', hidx⟩ := hver o ho
      obtain rfl : tv = tv' := Option.some.inj (htv.symm.trans htv')
      simp [hnone o ho (hidx ▸ hvlt)] at hx
    rw [hempty, hrow]

/-! ### Settling in order -/

section Settle

variable {order ts : List (ParallelExecutorTask τ)} {t : ParallelExecutorTask τ}

lemma attempt_congr (h : ∀ k ∈ (attempt executorFn state done t).keysRead,
      rowsBelow state done' t.txIndex k = rowsBelow state done t.txIndex k) :
    attempt executorFn state done' t = attempt executorFn state done t := by
  rw [attempt, outcomeOn, runTask_congr h]
  rfl

lemma lookup_attempt_eq_none :
    (attempt executorFn state done t).speculativeWrites.lookup k = none ↔
      k ∉ (attempt executorFn state done t).rwSet.writeSet := by
  rw [attempt, outcomeOn]
  exact (congrArg (· = none) (lookup_collectWrites _ k)).to_iff.trans lastWrite_eq_none

variable (executorFn state) in
lemma settle_concat (order : List (ParallelExecutorTask τ)) (t : ParallelExecutorTask τ) :
    settle executorFn state (order ++ [t]) =
      settle executorFn state order ++
        [attempt executorFn state (settle executorFn state order) t] := by
  simp [settle]

variable (executorFn state order) in
lemma settle_indices : (settle executorFn state order).map (·.txIndex) = order.map (·.txIndex) := by
  induction order using List.reverseRecOn with
  | nil => rfl
  | append_singleton order t ih =>
    rw [settle_concat, List.map_append, ih, List.map_append]
    rfl

/-- Outcomes that do not store what a task reads do not change its outcome. -/
lemma attempt_append {extra : List (TxExecutionOutcome κ ν)}
    (hnodup : (done.map (·.txIndex)).Nodup)
    (h : ∀ o ∈ extra, o.txIndex < t.txIndex → ∀ k ∈ (attempt executorFn state done t).keysRead,
      o.speculativeWrites.lookup k = none) :
    attempt executorFn state (done ++ extra) t = attempt executorFn state done t := by
  refine attempt_congr fun k hk => rowsBelow_congr hnodup fun j hj x => ?_
  simp only [List.mem_append, or_and_right, exists_or]
  refine or_iff_left ?_
  rintro ⟨o, ho, rfl, hx⟩
  simp [h o ho hj k hk] at hx

/-- Tasks none of which reads what an earlier one of them stores can be settled at once. -/
lemma settle_append (hnodup : (order.map (·.txIndex)).Nodup)
    (h : ts.Pairwise fun t u =>
      ∀ k ∈ (attempt executorFn state (settle executorFn state order) t).rwSet.writeSet,
        k ∉ (attempt executorFn state (settle executorFn state order) u).keysRead) :
    settle executorFn state (order ++ ts) = settle executorFn state order ++
      ts.map (attempt executorFn state (settle executorFn state order)) := by
  induction ts using List.reverseRecOn with
  | nil => simp
  | append_singleton ts t ih =>
    obtain ⟨hts, -, hlast⟩ := List.pairwise_append.1 h
    rw [← List.append_assoc, settle_concat, ih hts, List.map_append, ← List.append_assoc,
      attempt_append (by rwa [settle_indices]) ?_]
    · rfl
    · refine List.forall_mem_map.2 fun u hu _ k hk => lookup_attempt_eq_none.2 fun hw => ?_
      exact hlast u hu t (.head _) k hw hk

end Settle

/-! ### Conflicts inside a stage -/

lemma mem_detectConflictsDetailed {l : List (ℕ × ReadWriteSet κ)}
    (h : l.Pairwise fun a b => a.1 < b.1) : l.Pairwise fun a b =>
      conflicting a.2 b.2 = true → ⟨a.1, b.1⟩ ∈ detectConflictsDetailed l := by
  induction l with
  | nil => exact .nil
  | cons a l ih =>
    obtain ⟨ha, hl⟩ := List.pairwise_cons.1 h
    refine List.pairwise_cons.2 ⟨fun b hb hc => List.mem_append_left _ ?_,
      (ih hl).imp fun hmem hc => List.mem_append_right _ (hmem hc)⟩
    exact List.mem_map.2 ⟨b, List.mem_filter.2 ⟨hb, hc⟩, if_pos (ha b hb)⟩

/-- Of two outcomes that conflict the later one loses, under every policy. -/
lemma not_conflicting_of_not_mem_losers (config : ParallelExecutionConfig)
    {outs : List (TxExecutionOutcome κ ν)} (h : outs.Pairwise fun a b => a.txIndex < b.txIndex) :
    outs.Pairwise fun a b =>
      b.txIndex ∉ losers config outs → conflicting a.rwSet b.rwSet = false := by
  have hmem := List.pairwise_map.1 (mem_detectConflictsDetailed
    (l := outs.map fun o => (o.txIndex, o.rwSet)) (List.pairwise_map.2 h))
  refine (h.and hmem).imp fun {a b} hab hlost => ?_
  refine Bool.not_eq_true _ ▸ fun hc => hlost ?_
  rw [losers]
  unfold resolve
  split
  all_goals simp only [List.mem_toFinset, List.mem_map, List.mem_flatMap]
  · exact ⟨_, hab.2 hc, rfl⟩
  · exact ⟨_, hab.2 hc, by simp⟩
  · exact ⟨_, hab.2 hc, if_pos hab.1⟩

lemma not_mem_of_not_conflicting {a b : ReadWriteSet κ} (h : conflicting a b = false) :
    ∀ k ∈ b.readSet ++ b.writeSet, k ∉ a.writeSet := by
  simp only [conflicting, Bool.or_eq_false_iff, List.any_eq_false, decide_eq_true_eq] at h
  intro k hk hka
  exact (List.mem_append.1 hk).elim (h.1.1 k hka) (h.2 k hka)

/-! ### A round is a stage -/

/-- An outcome without the record of how the executor arrived at it. -/
def TxExecutionOutcome.result (o : TxExecutionOutcome κ ν) : TxExecutionOutcome κ ν :=
  { o with snapshotId := none, hadConflict := false, retryRound := 0, txVersion := none }

lemma rowsBelow_result {outs : List (TxExecutionOutcome κ ν)}
    (hperm : (outs.map (·.result)).Perm done) (hnodup : (done.map (·.txIndex)).Nodup) (i : ℕ) :
    rowsBelow state outs i = rowsBelow state done i := by
  funext k
  refine rowsBelow_congr hnodup fun j _ x => ?_
  simp only [← hperm.mem_iff, List.mem_map, exists_exists_and_eq_and]
  rfl

/-- The round of the execution commits it. -/
def CachedSpeculativeExecution.settles (lost : Finset ℕ)
    (e : CachedSpeculativeExecution κ ν τ) : Bool :=
  e.output.executionStatus && decide (e.output.txIndex ∉ lost)

section Round

variable (config : ParallelExecutionConfig) {tasks : List (ParallelExecutorTask τ)} {start : ℕ}
  {mv₀ : MVMemory κ ν} {s : LoopState κ ν τ} {es : List (CachedSpeculativeExecution κ ν τ)}
  {e : CachedSpeculativeExecution κ ν τ} {r : RoundState κ ν τ} {lost : Finset ℕ}
  {order : List (ParallelExecutorTask τ)}
  (htasks : (tasks.map (·.txIndex)).Nodup) (hstart : ∀ t ∈ tasks, start ≤ t.txIndex)
  (hsub : ∀ t ∈ s.pending, t ∈ tasks)

/-- The tests on the keys committed in the round and on the versions read find nothing that the
status and the conflicts do not tell. -/
lemma RoundInv.rollsBack_eq (h : RoundInv executorFn state tasks start mv₀ s (e :: es) r)
    (hkeys : e.output.txIndex ∉ lost →
      ∀ k ∈ e.output.readSet ++ e.output.writeKeys, k ∉ r.committedWriteKeys) :
    rollsBack lost r e = !e.settles lost := by
  by_cases hs : e.output.executionStatus = true ∧ e.output.txIndex ∉ lost
  · obtain ⟨hstatus, hlost⟩ := hs
    have hvalid : r.mvMemory.validateReads e.txVersion = true := by
      refine (MVMemory.validateReads_iff ..).2 fun rec hrec => ?_
      obtain ⟨hk, hobs⟩ := h.reads e (.head _) rec hrec
      have hout := (h.entry e (.head _)).2.1
      rw [hout] at hstatus
      rw [speculate, ← readSet_runTask hstatus, ← speculate, ← hout] at hk
      rw [hobs, h.txVersion_txIndex (.head _), MVMemory.latestCommitted_congr fun v hc _ =>
        h.untouched rec.key (hkeys hlost _ (List.mem_append_left _ hk)) v hc]
    have hany : (e.output.readSet ++ e.output.writeKeys).any (· ∈ r.committedWriteKeys) = false :=
      List.any_eq_false.2 fun k hk => by simpa using hkeys hlost k hk
    simp only [rollsBack, CachedSpeculativeExecution.settles, hstatus, hlost, hany, hvalid]
    rfl
  · rw [not_and_or, not_not, Bool.not_eq_true] at hs
    rcases hs with hstatus | hlost
    · simp [rollsBack, CachedSpeculativeExecution.settles, hstatus]
    · simp [rollsBack, CachedSpeculativeExecution.settles, hlost]

include htasks hstart hsub in
/-- Going through the executions of a round leaves the tasks of those that fail or lose a
conflict, and adds the outcomes of the others. -/
theorem RoundInv.commit_stage (h : RoundInv executorFn state tasks start mv₀ s es r)
    (hpair : es.Pairwise fun a b => b.output.txIndex ∉ lost →
      conflicting ⟨a.output.readSet, a.output.writeKeys⟩
        ⟨b.output.readSet, b.output.writeKeys⟩ = false)
    (hkeys : ∀ e ∈ es, e.output.txIndex ∉ lost →
      ∀ k ∈ e.output.readSet ++ e.output.writeKeys, k ∉ r.committedWriteKeys) :
    let r' := es.foldl (commitEntry s.pending s.rounds lost) r
    r'.nextPending = r.nextPending ++ (es.filter fun e => !e.settles lost).map (·.task) ∧
      ((r'.commitQueue.outcomes s.committed).map (·.result)).Perm
        ((r.commitQueue.outcomes s.committed).map (·.result) ++
          (es.filter (·.settles lost)).map fun e => rawToOutcome e.output none 0) := by
  induction es generalizing r with
  | nil => simp
  | cons e es ih =>
    obtain ⟨hhead, htail⟩ := List.pairwise_cons.1 hpair
    have hnext := h.commit_one htasks hstart hsub lost
    have hroll := h.rollsBack_eq (hkeys e (.head _))
    cases hs : e.settles lost with
    | false =>
      rw [hs, Bool.not_false] at hroll
      have hfind := h.find_task htasks hsub
      -- a task that is not settled commits no keys
      have hkeep : (commitEntry s.pending s.rounds lost r e).committedWriteKeys =
          r.committedWriteKeys := by simp only [commitEntry, hroll, if_true]
      obtain ⟨hpending, houts⟩ := ih hnext htail fun e' he' =>
        hkeep ▸ hkeys e' (.tail _ he')
      simp only [commitEntry, hroll, if_true, hfind, Option.toList_some] at hpending houts
      simp only [List.foldl_cons, commitEntry, hroll, if_true, hfind, Option.toList_some, hs,
        List.filter_cons, Bool.not_false, List.map_cons, Bool.false_eq_true, if_false]
      exact ⟨by rw [hpending, List.append_assoc, List.singleton_append], houts⟩
    | true =>
      rw [hs, Bool.not_true] at hroll
      -- its keys do not conflict with those that follow
      have hperm := ((h.promote htasks hstart hsub hroll).2).map TxExecutionOutcome.result
      obtain ⟨hpending, houts⟩ := ih hnext htail (by
        intro e' he' hlost k hk
        simp only [commitEntry, hroll, Bool.false_eq_true, if_false, List.mem_append, not_or]
        exact ⟨hkeys e' (.tail _ he') hlost k hk,
          not_mem_of_not_conflicting (hhead e' he' hlost) k hk⟩)
      refine ⟨?_, houts.trans ((hperm.append_right _).trans ?_)⟩
      · rw [List.foldl_cons, hpending]
        simp [commitEntry, hroll, hs]
      · simp only [List.map_cons, List.filter_cons, hs, if_true]
        exact List.perm_middle.symm

variable (executorFn state order) in
/-- The outcomes so far are those of the tasks in `order`, settled one after the other. -/
def LoopState.Settled (s : LoopState κ ν τ) : Prop :=
  (s.outcomes.map (·.result)).Perm (settle executorFn state order)

lemma LoopState.Settled.indices (hdone : s.Settled executorFn state order) :
    (s.outcomes.map (·.txIndex)).Perm (order.map (·.txIndex)) := by
  have hperm := hdone.map (·.txIndex)
  rwa [settle_indices, List.map_map] at hperm

include htasks

lemma order_nodup (h : ExitInv executorFn state tasks start s)
    (hdone : s.Settled executorFn state order) : (order.map (·.txIndex)).Nodup :=
  hdone.indices.nodup_iff.1 (List.nodup_append.1 (h.accounted.nodup_iff.2 htasks)).2.1

/-- A task that runs on the committed versions has the outcome it has in the stage. -/
lemma speculate_eq_attempt (h : ExitInv executorFn state tasks start s)
    (hdone : s.Settled executorFn state order) (t : ParallelExecutorTask τ) :
    rawToOutcome (speculate executorFn state s.mvMemory t) none 0 =
      attempt executorFn state (settle executorFn state order) t := by
  have hver : ∀ o ∈ s.outcomes, ∃ tv, o.txVersion = some tv ∧ tv.txIndex = o.txIndex := by
    intro o ho
    obtain ⟨t, -, mv, tv, n, rfl, hidx, -⟩ := h.produced o ho
    exact ⟨tv, rfl, hidx⟩
  have hnd := (List.nodup_append.1 (h.accounted.nodup_iff.2 htasks)).2.1
  have hnd' := order_nodup htasks h hdone
  rw [speculate, view_eq_rowsBelow hnd hver h.rows,
    rowsBelow_result hdone (by rwa [settle_indices])]
  rfl

include hstart

/-- A round of the executor settles what the stage settles. -/
theorem commitRound_stage (schedule : List ℕ) (h : LoopInv executorFn state tasks start s)
    (hdone : s.Settled executorFn state order) :
    let p := executeRound config executorFn state schedule s
    let left := sortByIndex (·.txIndex) s.pending
    let outcome := attempt executorFn state (settle executorFn state order)
    let lost := losers config (left.map outcome)
    let settles t := (outcome t).success && decide (t.txIndex ∉ lost)
    p.2.1 = lost ∧
      (commitRound p.1 p.2.1 p.2.2).pending = left.filter (fun t => !settles t) ∧
      (commitRound p.1 p.2.1 p.2.2).Settled executorFn state (order ++ left.filter settles) := by
  intro p left outcome lost settles
  obtain ⟨hround, hexit, houts, hexec⟩ := executeRound_spec htasks config schedule h
  have hout : ∀ t, rawToOutcome (speculate executorFn state s.mvMemory t) none 0 = outcome t :=
    speculate_eq_attempt htasks h.toExitInv hdone
  have hlost : p.2.1 = lost := by
    change resolve _ (detectConflictsDetailed (p.1.map _)) = resolve _ _
    rw [hexec, ← funext hout, List.map_map, List.map_map]
    rfl
  -- the outcomes of the stage that are settled do not conflict
  have hasc : left.Pairwise fun t u => t.txIndex < u.txIndex :=
    sortByIndex_strict (List.nodup_append.1 (h.accounted.nodup_iff.2 htasks)).1
  have hpair : left.Pairwise fun t u => u.txIndex ∉ lost →
      conflicting (outcome t).rwSet (outcome u).rwSet = false :=
    List.pairwise_map.1 (not_conflicting_of_not_mem_losers config (List.pairwise_map.2 hasc))
  have hpair' : p.1.Pairwise fun a b => b.output.txIndex ∉ lost →
      conflicting ⟨a.output.readSet, a.output.writeKeys⟩
        ⟨b.output.readSet, b.output.writeKeys⟩ = false := by
    rw [hexec]
    simp only [← hout] at hpair
    exact List.pairwise_map.2 hpair
  obtain ⟨hpending, hdone'⟩ := hround.commit_stage htasks hstart hexit.pendingSub hpair'
    (by simp [LoopState.startRound])
  have hsettles : ∀ t, CachedSpeculativeExecution.settles lost
      ⟨t, speculate executorFn state s.mvMemory t, ⟨t.txIndex, s.retryCounts t.txIndex⟩⟩ =
        settles t := by
    intro t
    simp only [settles, ← hout]
    rfl
  refine ⟨hlost, ?_, ?_⟩
  · rw [hlost]
    refine hpending.trans ?_
    rw [hexec]
    simp only [List.filter_map, List.map_map, Function.comp_def, hsettles, List.map_id']
    rfl
  · rw [LoopState.Settled, LoopState.outcomes, hlost]
    refine (List.Perm.of_eq (congrArg _ OrderedCommitQueue.drainOrdered_outcomes)).trans
      (hdone'.trans ?_)
    rw [settle_append (order_nodup htasks h.toExitInv hdone), hexec]
    · simp only [List.filter_map, List.map_map, Function.comp_def, hsettles, hout]
      exact hdone.append_right _
    · refine (hpair.filter settles).imp_of_mem fun {t u} _ hu hc k hk hread => ?_
      obtain ⟨-, hs⟩ := List.mem_filter.1 hu
      simp only [settles, Bool.and_eq_true, decide_eq_true_eq] at hs
      refine not_mem_of_not_conflicting (hc hs.2) k (List.mem_append_left _ ?_) hk
      have hreads := readSet_runTask hs.1
      change k ∈ (runTask executorFn _ u).readSet
      rwa [hreads]

/-- The OCC loop settles what the stages settle and leaves what they leave. -/
theorem occLoop_stages (schedules : ℕ → List ℕ) (fuel : ℕ)
    (h : LoopInv executorFn state tasks start s) (hdone : s.Settled executorFn state order) :
    let s' := occLoop config executorFn state schedules fuel s
    let p := stages config executorFn state fuel order s.pending
    s'.Settled executorFn state p.1 ∧ s'.pending = p.2 := by
  induction fuel generalizing s order with
  | zero => exact ⟨hdone, rfl⟩
  | succ fuel ih =>
    obtain ⟨hround, hexit, houts, -⟩ := executeRound_spec htasks config (schedules s.rounds) h
    obtain ⟨hlost, hpending, hsettled⟩ :=
      commitRound_stage config htasks hstart (schedules s.rounds) h hdone
    have hnext := ih (commitRound_inv htasks hstart hexit.pendingSub hround _) hsettled
    rw [hpending, hlost] at hnext
    have hleft : (executeRound config executorFn state (schedules s.rounds) s).2.2.pending =
        sortByIndex (·.txIndex) s.pending := rfl
    simp only [occLoop, stages, hlost, hleft]
    split_ifs with hempty hbreak
    · exact ⟨hdone, rfl⟩
    · refine ⟨?_, rfl⟩
      rw [LoopState.Settled, houts]
      exact hdone
    · exact hnext

end Round

end Sxiaum.Parallel
