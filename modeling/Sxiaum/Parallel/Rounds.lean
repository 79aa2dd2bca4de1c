import Sxiaum.Parallel.Batch
import Sxiaum.Parallel.CommitQueue

/-!
# The rounds of the executor account for every task

At the head of the OCC loop every task is either pending or has exactly one outcome in
the reorder buffer or behind it, and the committed versions of the store are exactly
the writes of these outcomes. This holds for every executor function, schedule and
conflict pattern.
-/

namespace Sxiaum.Parallel

open OrderedCommitQueue WriteSet

variable {κ ν τ : Type} [DecidableEq κ]

/-! ### Sorting by index -/

section SortByIndex

variable {α : Type} {index : α → ℕ} {l : List α} {start n : ℕ}

variable (index l) in
lemma sortByIndex_perm : (sortByIndex index l).Perm l :=
  List.perm_insertionSort _ l

variable (index l) in
lemma sortByIndex_sorted : ((sortByIndex index l).map index).Pairwise (· ≤ ·) := by
  refine List.pairwise_map.2 ?_
  have : IsTrans α (fun a b => index a ≤ index b) := ⟨fun _ _ _ => le_trans⟩
  have : Std.Total (fun a b => index a ≤ index b) := ⟨fun a b => le_total (index a) (index b)⟩
  exact List.pairwise_insertionSort _ _

/-- Consecutive indices in any order are sorted into the range. -/
lemma sortByIndex_indices (h : (l.map index).Perm (List.range' start n)) :
    (sortByIndex index l).map index = List.range' start n :=
  (((sortByIndex_perm index l).map index).trans h).eq_of_pairwise'
    (sortByIndex_sorted index l) List.pairwise_le_range'

/-- Distinct indices are sorted strictly. -/
lemma sortByIndex_strict (h : (l.map index).Nodup) :
    (sortByIndex index l).Pairwise (fun a b => index a < index b) := by
  have hnd := ((sortByIndex_perm index l).map index).nodup_iff.2 h
  exact (List.pairwise_map.1 (sortByIndex_sorted index l)).imp₂ (fun a b => lt_of_le_of_ne)
    (List.pairwise_map.1 hnd)

/-- There is one way to sort distinct indices. -/
lemma sortByIndex_eq {l' : List α} (hperm : l'.Perm l)
    (hlt : l'.Pairwise (fun a b => index a < index b)) : sortByIndex index l = l' := by
  have hnd : (l.map index).Nodup :=
    (hperm.map index).nodup_iff.1 (List.pairwise_map.2 (hlt.imp ne_of_lt))
  refine ((sortByIndex_perm index l).trans hperm.symm).eq_of_pairwise (fun a b _ _ hab hba => ?_)
    (sortByIndex_strict hnd) hlt
  omega

end SortByIndex

/-! ### Outcomes and their versions -/

lemma lookup_foldl_insert (ws : WriteSet κ ν) (m : HashMap κ (Option ν)) (k : κ) :
    (ws.foldl (fun m w => m.insert w.1 w.2) m).lookup k = (lastWrite ws k).or (m.lookup k) := by
  induction ws generalizing m with
  | nil => rfl
  | cons w ws ih =>
    obtain ⟨k', x⟩ := w
    rw [List.foldl_cons, ih, lastWrite]
    by_cases hk : k' = k
    · subst hk
      cases lastWrite ws k' <;> simp
    · rw [AList.lookup_insert_ne (Ne.symm hk)]
      simp [hk]

@[simp] lemma lookup_collectWrites (ws : WriteSet κ ν) (k : κ) :
    (collectWrites ws).lookup k = lastWrite ws k := by
  rw [collectWrites, lookup_foldl_insert, AList.lookup_empty, Option.or_none]

/-- The outcome stored the committed version `v` under `k`. -/
def TxExecutionOutcome.Wrote (o : TxExecutionOutcome κ ν) (k : κ) (v : Version ν) : Prop :=
  ∃ tv x, o.txVersion = some tv ∧ o.speculativeWrites.lookup k = some x ∧
    v = ⟨tv, x, .committed⟩

lemma rawToOutcome_wrote {out : TransactionOutput κ ν} {tv : TxVersion} {n : ℕ} {k : κ}
    {v : Version ν} :
    (rawToOutcome out (some tv) n).Wrote k v ↔
      ∃ x, lastWrite out.writeSet k = some x ∧ v = ⟨tv, x, .committed⟩ := by
  simp [TxExecutionOutcome.Wrote, rawToOutcome]

variable (executorFn : ParallelExecutorTask τ → ReadProgram κ ν (TxEffects κ ν))
  (state : κ → Option ν) (tasks : List (ParallelExecutorTask τ)) in
/-- An outcome of one of the tasks, computed on some committed versions. -/
def TxExecutionOutcome.Produced (bound : ℕ) (o : TxExecutionOutcome κ ν) : Prop :=
  ∃ t ∈ tasks, ∃ mv tv n, o = rawToOutcome (speculate executorFn state mv t) (some tv) n ∧
    tv.txIndex = t.txIndex ∧ tv.incarnation ≤ bound

section Produced

variable {executorFn : ParallelExecutorTask τ → ReadProgram κ ν (TxEffects κ ν)}
  {state : κ → Option ν} {tasks : List (ParallelExecutorTask τ)} {bound : ℕ}
  {o : TxExecutionOutcome κ ν}

lemma TxExecutionOutcome.Produced.mono {bound' : ℕ} (h : o.Produced executorFn state tasks bound)
    (hle : bound ≤ bound') : o.Produced executorFn state tasks bound' := by
  obtain ⟨t, ht, mv, tv, n, rfl, hidx, hinc⟩ := h
  exact ⟨t, ht, mv, tv, n, rfl, hidx, hinc.trans hle⟩

/-- A version an outcome wrote carries the outcome's index. -/
lemma TxExecutionOutcome.Produced.wrote (h : o.Produced executorFn state tasks bound) {k : κ}
    {v : Version ν} (hw : o.Wrote k v) :
    v.txVersion.txIndex = o.txIndex ∧ v.txVersion.incarnation ≤ bound ∧ v.status = .committed := by
  obtain ⟨t, -, mv, tv, n, rfl, hidx, hinc⟩ := h
  obtain ⟨x, -, rfl⟩ := rawToOutcome_wrote.1 hw
  exact ⟨hidx, hinc, rfl⟩

end Produced

/-- Promotion turns the speculative versions of `tv` into committed ones and keeps the rest. -/
lemma mem_promoteToCommitted {mv : MVMemory κ ν} {tv : TxVersion} {ws : WriteSet κ ν} {k : κ}
    (hown : ∀ v, v ∈ (mv.versions k).entries ∧ v.txVersion = tv ↔
      ∃ x, lastWrite ws k = some x ∧ v = .speculative tv x) (v : Version ν) :
    v ∈ ((mv.promoteToCommitted tv).versions k).entries ↔
      v ∈ (mv.versions k).entries ∧ v.txVersion ≠ tv ∨
        ∃ x, lastWrite ws k = some x ∧ v = ⟨tv, x, .committed⟩ := by
  simp only [MVMemory.promoteToCommitted, VersionList.mem_promote]
  constructor
  · rintro (⟨hv, hn⟩ | ⟨hc, htv, hv⟩)
    · refine Or.inl ⟨hv, fun htv => hn ⟨htv, ?_⟩⟩
      obtain ⟨x, -, rfl⟩ := (hown v).1 ⟨hv, htv⟩
      rfl
    · obtain ⟨x, hx, heq⟩ := (hown _).1 ⟨hv, htv⟩
      obtain ⟨vtv, vval, vst⟩ := v
      simp only [Version.speculative, Version.mk.injEq] at heq
      obtain ⟨rfl, rfl, -⟩ := heq
      exact Or.inr ⟨vval, hx, by rw [show vst = .committed from hc]⟩
  · rintro (⟨hv, hne⟩ | ⟨x, hx, rfl⟩)
    · exact Or.inl ⟨hv, fun h => hne h.1⟩
    · exact Or.inr ⟨rfl, rfl, ((hown _).2 ⟨x, hx, rfl⟩).1⟩

/-! ### Invariants -/

def LoopState.outcomes (s : LoopState κ ν τ) : List (TxExecutionOutcome κ ν) :=
  s.commitQueue.outcomes s.committed

/-- What holds when the OCC loop is left, by whichever exit. -/
structure ExitInv (executorFn : ParallelExecutorTask τ → ReadProgram κ ν (TxEffects κ ν))
    (state : κ → Option ν) (tasks : List (ParallelExecutorTask τ)) (start : ℕ)
    (s : LoopState κ ν τ) : Prop where
  accounted : (s.pending.map (·.txIndex) ++ s.outcomes.map (·.txIndex)).Perm
    (tasks.map (·.txIndex))
  pendingSub : ∀ t ∈ s.pending, t ∈ tasks
  ordered : s.commitQueue.Ordered start s.committed
  drained : s.commitQueue.committed = []
  gap : s.commitQueue.nextCommitIndex ∉ s.commitQueue.pending
  produced : ∀ o ∈ s.outcomes, o.Produced executorFn state tasks s.rounds
  bounded : ∀ k, ∀ v ∈ (s.mvMemory.versions k).entries, v.txVersion.incarnation ≤ s.rounds
  rows : ∀ k v, v.status = .committed →
    (v ∈ (s.mvMemory.versions k).entries ↔ ∃ o ∈ s.outcomes, o.Wrote k v)

/-- What holds at the head of the OCC loop. -/
structure LoopInv (executorFn : ParallelExecutorTask τ → ReadProgram κ ν (TxEffects κ ν))
    (state : κ → Option ν) (tasks : List (ParallelExecutorTask τ)) (start : ℕ)
    (s : LoopState κ ν τ) : Prop extends ExitInv executorFn state tasks start s where
  uncached : ∀ t ∈ s.pending, s.cachedOutputs t.txIndex = none
  retries : ∀ i, s.retryCounts i ≤ s.rounds
  settled : ∀ k, ∀ v ∈ (s.mvMemory.versions k).entries, v.status = .committed
  unused : ∀ t ∈ s.pending, s.mvMemory.Unused t.txIndex (s.retryCounts t.txIndex)

/-- What holds in the loop over the executions of a round, with `es` still to go; `mv₀` is
the store before the round and `s` the loop state after the execution of the batch. -/
structure RoundInv (executorFn : ParallelExecutorTask τ → ReadProgram κ ν (TxEffects κ ν))
    (state : κ → Option ν) (tasks : List (ParallelExecutorTask τ)) (start : ℕ)
    (mv₀ : MVMemory κ ν) (s : LoopState κ ν τ) (es : List (CachedSpeculativeExecution κ ν τ))
    (r : RoundState κ ν τ) : Prop where
  accounted : (es.map (·.task.txIndex) ++ (r.nextPending.map (·.txIndex) ++
    (r.commitQueue.outcomes s.committed).map (·.txIndex))).Perm (tasks.map (·.txIndex))
  pendingSub : ∀ t ∈ r.nextPending, t ∈ tasks
  entry : ∀ e ∈ es, e.task ∈ s.pending ∧ e.output = speculate executorFn state mv₀ e.task ∧
    e.txVersion = ⟨e.task.txIndex, r.retryCounts e.task.txIndex⟩ ∧
    r.retryCounts e.task.txIndex < s.rounds
  ordered : r.commitQueue.Ordered start s.committed
  gap : r.commitQueue.nextCommitIndex ∉ r.commitQueue.pending
  produced : ∀ o ∈ r.commitQueue.outcomes s.committed,
    o.Produced executorFn state tasks s.rounds
  uncached : ∀ t ∈ r.nextPending, r.cachedOutputs t.txIndex = none
  retries : ∀ i, r.retryCounts i ≤ s.rounds
  rows : ∀ k v, v ∈ (r.mvMemory.versions k).entries ↔
    (∃ o ∈ r.commitQueue.outcomes s.committed, o.Wrote k v) ∨
      ∃ e ∈ es, ∃ x, lastWrite e.output.writeSet k = some x ∧ v = .speculative e.txVersion x
  untouched : ∀ k, k ∉ r.committedWriteKeys → ∀ v : Version ν, v.status = .committed →
    (v ∈ (r.mvMemory.versions k).entries ↔ v ∈ (mv₀.versions k).entries)
  reads : ∀ e ∈ es, ∀ rec ∈ r.mvMemory.readsOf e.txVersion,
    rec.Faithful executorFn state mv₀ e.task
  unusedNext : ∀ t ∈ r.nextPending, r.mvMemory.Unused t.txIndex (r.retryCounts t.txIndex)
  unusedLeft : ∀ e ∈ es, r.mvMemory.Unused e.task.txIndex (r.retryCounts e.task.txIndex + 1)

/-! ### One execution of a round -/

variable {executorFn : ParallelExecutorTask τ → ReadProgram κ ν (TxEffects κ ν)}
  {state : κ → Option ν} {tasks : List (ParallelExecutorTask τ)} {start : ℕ}
  {mv₀ : MVMemory κ ν} {s : LoopState κ ν τ} {es : List (CachedSpeculativeExecution κ ν τ)}
  {e : CachedSpeculativeExecution κ ν τ} {r : RoundState κ ν τ} {conflictSet : Finset ℕ}
  (htasks : (tasks.map (·.txIndex)).Nodup) (hstart : ∀ t ∈ tasks, start ≤ t.txIndex)
  (hsub : ∀ t ∈ s.pending, t ∈ tasks)

namespace RoundInv

lemma output_txIndex (h : RoundInv executorFn state tasks start mv₀ s (e :: es) r) :
    e.output.txIndex = e.task.txIndex := by
  rw [(h.entry e (.head _)).2.1]
  rfl

lemma txVersion_txIndex (h : RoundInv executorFn state tasks start mv₀ s es r)
    (he : e ∈ es) : e.txVersion.txIndex = e.task.txIndex := by
  rw [(h.entry e he).2.2.1]

section

variable (h : RoundInv executorFn state tasks start mv₀ s (e :: es) r)

include h htasks

/-- The index of the current execution belongs to no other execution and to no outcome. -/
lemma index_fresh :
    (∀ e' ∈ es, e'.task.txIndex ≠ e.task.txIndex) ∧
      (∀ t ∈ r.nextPending, t.txIndex ≠ e.task.txIndex) ∧
      e.task.txIndex ∉ (r.commitQueue.outcomes s.committed).map (·.txIndex) := by
  have hnd := h.accounted.nodup_iff.2 htasks
  rw [List.map_cons, List.cons_append, List.nodup_cons, List.mem_append, List.mem_append] at hnd
  simp only [not_or] at hnd
  refine ⟨fun e' he' heq => hnd.1.1 ?_, fun t ht heq => hnd.1.2.1 ?_, hnd.1.2.2⟩
  · exact heq ▸ List.mem_map_of_mem he'
  · exact heq ▸ List.mem_map_of_mem ht

/-- The versions of the current execution in the store are its speculative writes; the others
are those of the outcomes and of the executions still to go. -/
lemma rows_split (k : κ) (v : Version ν) :
    (v ∈ (r.mvMemory.versions k).entries ∧ v.txVersion = e.txVersion ↔
      ∃ x, lastWrite e.output.writeSet k = some x ∧ v = .speculative e.txVersion x) ∧
    (v ∈ (r.mvMemory.versions k).entries ∧ v.txVersion ≠ e.txVersion ↔
      (∃ o ∈ r.commitQueue.outcomes s.committed, o.Wrote k v) ∨
        ∃ e' ∈ es, ∃ x, lastWrite e'.output.writeSet k = some x ∧
          v = .speculative e'.txVersion x) := by
  obtain ⟨hes, -, houts⟩ := h.index_fresh htasks
  refine split_iff ?_ ?_ (by rintro ⟨x, -, rfl⟩; rfl)
  · rw [h.rows, List.exists_mem_cons_iff, ← or_assoc, or_right_comm]
  · rintro hv htv
    have hidx := (congrArg TxVersion.txIndex htv).trans (h.txVersion_txIndex (.head _))
    rcases hv with ⟨o, ho, hw⟩ | ⟨e', he', x, -, rfl⟩
    · rw [((h.produced o ho).wrote hw).1] at hidx
      exact houts (List.mem_map.2 ⟨o, ho, hidx⟩)
    · exact hes e' he' ((h.txVersion_txIndex (.tail _ he')).symm.trans hidx)

lemma mem_discardSpeculative {k : κ} {v : Version ν} (hc : v.status = .committed) :
    v ∈ ((r.mvMemory.discardSpeculative e.txVersion).versions k).entries ↔
      v ∈ (r.mvMemory.versions k).entries := by
  simp only [MVMemory.discardSpeculative, VersionList.mem_discard, and_iff_left_iff_imp]
  intro hv htv
  obtain ⟨x, -, rfl⟩ := (h.rows_split htasks k v).1.1 ⟨hv, htv⟩
  simp [Version.speculative] at hc

include hsub

/-- The pending task with the index of an execution is the one it ran. -/
lemma find_task :
    s.pending.find? (fun t => t.txIndex = e.output.txIndex) = some e.task := by
  obtain ⟨hepend, -⟩ := h.entry e (.head _)
  cases hf : s.pending.find? (fun t => t.txIndex = e.output.txIndex) with
  | none =>
    have hnone := List.find?_eq_none.1 hf e.task hepend
    simp [h.output_txIndex] at hnone
  | some t =>
    have htidx : t.txIndex = e.output.txIndex := by simpa using List.find?_some hf
    rw [h.output_txIndex] at htidx
    rw [List.inj_on_of_nodup_map htasks (hsub t (List.mem_of_find?_eq_some hf))
      (hsub _ hepend) htidx]

/-- Rolling the current execution back puts its task among the next pending ones. -/
lemma rollback (hroll : rollsBack conflictSet r e = true) :
    RoundInv executorFn state tasks start mv₀ s es
      (commitEntry s.pending s.rounds conflictSet r e) := by
  obtain ⟨hes, hnp, houts⟩ := h.index_fresh htasks
  obtain ⟨hepend, -, -, hretry⟩ := h.entry e (.head _)
  simp only [commitEntry, hroll, if_true, h.find_task htasks hsub, Option.toList_some]
  have hne : ∀ e' ∈ es, e'.task.txIndex ≠ e.output.txIndex := fun e' he' =>
    h.output_txIndex ▸ hes e' he'
  refine ⟨?_, ?_, ?_, h.ordered, h.gap, h.produced, ?_, ?_, ?_, ?_, ?_, ?_, ?_⟩
  · refine List.Perm.trans ?_ h.accounted
    simpa using @List.perm_middle _ e.task.txIndex
      (es.map (·.task.txIndex) ++ r.nextPending.map (·.txIndex))
      ((r.commitQueue.outcomes s.committed).map (·.txIndex))
  · intro u hu
    rcases List.mem_append.1 hu with hu | hu
    · exact h.pendingSub u hu
    · rw [List.mem_singleton.1 hu]
      exact hsub _ hepend
  · intro e' he'
    simp only [Function.update_of_ne (hne e' he')]
    exact h.entry e' (.tail _ he')
  · intro u hu
    by_cases hidx : u.txIndex = e.output.txIndex
    · simp [hidx]
    · simp only [Function.update_of_ne hidx]
      rcases List.mem_append.1 hu with hu | hu
      · exact h.uncached u hu
      · rw [List.mem_singleton.1 hu, h.output_txIndex] at hidx
        exact absurd rfl hidx
  · intro i
    by_cases hidx : i = e.output.txIndex
    · subst hidx
      rw [← h.output_txIndex] at hretry
      simpa using Nat.succ_le_of_lt hretry
    · simpa [Function.update_of_ne hidx] using h.retries i
  · intro k v
    simp only [MVMemory.discardSpeculative, VersionList.mem_discard]
    exact (h.rows_split htasks k v).2
  · intro k hk v hc
    rw [← h.untouched k hk v hc]
    exact h.mem_discardSpeculative htasks hc
  · intro e' he' rec hrec
    -- the reads of the other executions are kept
    have htv : e'.txVersion ≠ e.txVersion := fun htv => hes e' he' <| by
      rw [← h.txVersion_txIndex (.tail _ he'), htv, h.txVersion_txIndex (.head _)]
    exact h.reads e' (.tail _ he') rec (MVMemory.readsOf_discardSpeculative _ htv ▸ hrec)
  · intro u hu
    rcases List.mem_append.1 hu with hu | hu
    · have hne : u.txIndex ≠ e.output.txIndex := h.output_txIndex ▸ hnp u hu
      simp only [Function.update_of_ne hne]
      exact (h.unusedNext u hu).discardSpeculative e.txVersion
    · simp only [List.mem_singleton.1 hu, h.output_txIndex, Function.update_self]
      exact (h.unusedLeft e (.head _)).discardSpeculative e.txVersion
  · intro e' he'
    simp only [Function.update_of_ne (hne e' he')]
    exact (h.unusedLeft e' (.tail _ he')).discardSpeculative e.txVersion

include hstart

/-- Committing the current execution adds its outcome and commits its versions. -/
lemma promote (hroll : rollsBack conflictSet r e = false) :
    RoundInv executorFn state tasks start mv₀ s es
        (commitEntry s.pending s.rounds conflictSet r e) ∧
      ((commitEntry s.pending s.rounds conflictSet r e).commitQueue.outcomes s.committed).Perm
        (rawToOutcome e.output (some e.txVersion) (s.rounds - 1) ::
          r.commitQueue.outcomes s.committed) := by
  obtain ⟨hes, hnp, houts⟩ := h.index_fresh htasks
  obtain ⟨hepend, heout, htv, hretry⟩ := h.entry e (.head _)
  set o := rawToOutcome e.output (some e.txVersion) (s.rounds - 1) with ho
  have hoidx : o.txIndex = e.task.txIndex := h.output_txIndex
  -- the queue takes the outcome, whose index is new to it
  obtain ⟨hord, hgap, hperm⟩ := enqueue_spec h.ordered
    (o := o) (by rw [hoidx]; exact hstart _ (hsub _ hepend)) (by rw [hoidx]; exact houts)
  have hmem : ∀ o', o' ∈ (r.commitQueue.enqueue o).outcomes s.committed ↔
      o' = o ∨ o' ∈ r.commitQueue.outcomes s.committed :=
    fun o' => hperm.mem_iff.trans List.mem_cons
  have hrows := fun k v => mem_promoteToCommitted (fun v => (h.rows_split htasks k v).1) v
  simp only [commitEntry, hroll, Bool.false_eq_true, if_false, ← ho]
  refine ⟨⟨?_, h.pendingSub, ?_, hord, hgap, ?_, ?_, h.retries, ?_, ?_, fun e' he' =>
    h.reads e' (.tail _ he'), h.unusedNext, fun e' he' => h.unusedLeft e' (.tail _ he')⟩, hperm⟩
  · refine List.Perm.trans ?_ h.accounted
    have hidx := hperm.map (·.txIndex)
    rw [List.map_cons, hoidx] at hidx
    have hmid := @List.perm_middle _ e.task.txIndex
      (es.map (·.task.txIndex) ++ r.nextPending.map (·.txIndex))
      ((r.commitQueue.outcomes s.committed).map (·.txIndex))
    simp only [List.append_assoc] at hmid
    exact ((hidx.append_left _).append_left _).trans hmid
  · intro e' he'
    exact h.entry e' (.tail _ he')
  · intro o' ho'
    rcases (hmem o').1 ho' with rfl | ho'
    · refine ⟨e.task, hsub _ hepend, mv₀, e.txVersion, s.rounds - 1, ?_, ?_, ?_⟩
      · rw [ho, heout]
      · rw [htv]
      · rw [htv]
        exact hretry.le
    · exact h.produced o' ho'
  · intro u hu
    have hne : u.txIndex ≠ e.output.txIndex := by
      rw [h.output_txIndex]
      exact hnp u hu
    simp only [Function.update_of_ne hne]
    exact h.uncached u hu
  · intro k v
    rw [hrows, (h.rows_split htasks k v).2]
    simp only [hmem, or_and_right, exists_or, exists_eq_left, o, rawToOutcome_wrote]
    rw [or_comm, or_assoc]
  · intro k hk v hc
    rw [List.mem_append, not_or] at hk
    -- the execution has no version at a key it has not written
    have hnone : lastWrite e.output.writeSet k = none := lastWrite_eq_none.2 hk.2
    rw [hrows, ← h.untouched k hk.1 v hc]
    simp only [hnone, reduceCtorEq, false_and, exists_false, or_false, and_iff_left_iff_imp]
    intro hv hvtv
    obtain ⟨x, hx, -⟩ := (h.rows_split htasks k v).1.1 ⟨hv, hvtv⟩
    rw [hnone] at hx
    cases hx

lemma commit_one (conflictSet : Finset ℕ) :
    RoundInv executorFn state tasks start mv₀ s es
      (commitEntry s.pending s.rounds conflictSet r e) := by
  cases hroll : rollsBack conflictSet r e with
  | true => exact h.rollback htasks hsub hroll
  | false => exact (h.promote htasks hstart hsub hroll).1

end

include htasks hstart hsub in
theorem commit_all (h : RoundInv executorFn state tasks start mv₀ s es r)
    (conflictSet : Finset ℕ) :
    RoundInv executorFn state tasks start mv₀ s []
      (es.foldl (commitEntry s.pending s.rounds conflictSet) r) := by
  induction es generalizing r with
  | nil => exact h
  | cons e es ih => exact ih (h.commit_one htasks hstart hsub conflictSet)

end RoundInv

/-! ### A whole round -/

include htasks

/-- The executions of a round are what the pending tasks compute on the versions committed
before it, under every schedule. -/
theorem executeRound_spec (config : ParallelExecutionConfig) (schedule : List ℕ)
    (h : LoopInv executorFn state tasks start s) :
    let p := executeRound config executorFn state schedule s
    RoundInv executorFn state tasks start s.mvMemory p.2.2 p.1 p.2.2.startRound ∧
      ExitInv executorFn state tasks start p.2.2 ∧ p.2.2.outcomes = s.outcomes ∧
      p.1 = p.2.2.pending.map fun t => ⟨t, speculate executorFn state s.mvMemory t,
        ⟨t.txIndex, s.retryCounts t.txIndex⟩⟩ := by
  intro p
  set pending := sortByIndex (·.txIndex) s.pending with hpending
  have hpperm : pending.Perm s.pending := sortByIndex_perm _ _
  have hall : pending.filter (fun t => (s.cachedOutputs t.txIndex).isNone) = pending := by
    refine List.filter_eq_self.2 (fun t ht => ?_)
    rw [h.uncached t (hpperm.mem_iff.1 ht), Option.isNone_none]
  have hcached : pending.filterMap (fun t => s.cachedOutputs t.txIndex) = [] :=
    List.filterMap_eq_nil_iff.2 (fun t ht => h.uncached t (hpperm.mem_iff.1 ht))
  have hnodup : (pending.map (·.txIndex)).Nodup := by
    have hnd := h.accounted.nodup_iff.2 htasks
    exact (hpperm.map _).nodup_iff.2 (List.nodup_append.1 hnd).1
  have hfresh : ∀ t ∈ pending, ∀ k, ∀ v ∈ (s.mvMemory.versions k).entries,
      v.txVersion ≠ ⟨t.txIndex, s.retryCounts t.txIndex⟩ := by
    intro t ht k v hv htv
    -- the version is of an outcome, and a pending task is not among the outcomes
    obtain ⟨o, ho, hw⟩ := (h.rows k v (h.settled k v hv)).1 hv
    have hindex : o.txIndex = t.txIndex := by rw [← ((h.produced o ho).wrote hw).1, htv]
    have hnd := h.accounted.nodup_iff.2 htasks
    exact (List.nodup_append.1 hnd).2.2 _ (List.mem_map_of_mem (hpperm.mem_iff.1 ht)) _
      (List.mem_map_of_mem ho) hindex.symm
  have hunused : ∀ t ∈ pending, s.mvMemory.Unused t.txIndex (s.retryCounts t.txIndex) :=
    fun t ht => h.unused t (hpperm.mem_iff.1 ht)
  have hbatch := @executeBatch_spec _ _ _ _ executorFn state s.mvMemory _ _ schedule hnodup hfresh
  set batch := executeBatch executorFn state pending s.retryCounts schedule s.mvMemory
  have hpmv : p.2.2.mvMemory = batch.2 := by
    simp only [p, executeRound, ← hpending, hall, batch]
  -- the pending tasks are in order already when the executions are sorted
  have hentries : p.1 = pending.map fun t => ⟨t, speculate executorFn state s.mvMemory t,
      ⟨t.txIndex, s.retryCounts t.txIndex⟩⟩ := by
    have hp₁ : p.1 = sortByIndex (·.task.txIndex) batch.1 := by
      simp only [p, executeRound, ← hpending, hall, hcached, List.append_nil, batch]
    rw [hp₁, hbatch.executed]
    refine sortByIndex_eq (List.Perm.refl _) (List.pairwise_map.2 (sortByIndex_strict ?_))
    exact (hpperm.map _).nodup_iff.1 hnodup
  -- nothing committed changes while the batch runs
  have hcommitted : ∀ k (v : Version ν), v.status = .committed →
      (v ∈ (p.2.2.mvMemory.versions k).entries ↔ v ∈ (s.mvMemory.versions k).entries) := by
    intro k v hc
    rw [hpmv, hbatch.rows]
    refine or_iff_left ?_
    rintro ⟨t, -, x, -, rfl⟩
    simp [Version.speculative] at hc
  have hproduced : ∀ o ∈ s.outcomes, o.Produced executorFn state tasks (s.rounds + 1) :=
    fun o ho => (h.produced o ho).mono (Nat.le_succ _)
  refine ⟨⟨?_, by simp [LoopState.startRound], ?_, h.ordered, h.gap, hproduced,
    by simp [LoopState.startRound], ?_, ?_, ?_, ?_, by simp [LoopState.startRound], ?_⟩,
    ⟨?_, ?_, h.ordered, h.drained, h.gap, hproduced, ?_, ?_⟩, rfl, hentries⟩
  · rw [hentries, List.map_map]
    exact ((hpperm.map _).append_right _).trans h.accounted
  · rw [hentries]
    exact List.forall_mem_map.2 fun t ht =>
      ⟨ht, rfl, rfl, Nat.lt_succ_of_le (h.retries t.txIndex)⟩
  · exact fun i => Nat.le_succ_of_le (h.retries i)
  · intro k v
    change v ∈ (p.2.2.mvMemory.versions k).entries ↔ _
    rw [hpmv, hbatch.rows, hentries]
    refine or_congr ⟨fun hv => (h.rows k v (h.settled k v hv)).1 hv, ?_⟩ ?_
    · rintro ⟨o, ho, hw⟩
      exact (h.rows k v ((h.produced o ho).wrote hw).2.2).2 ⟨o, ho, hw⟩
    · simp only [List.mem_map, exists_exists_and_eq_and]
  · exact fun k _ v hc => hcommitted k v hc
  · rw [hentries]
    refine List.forall_mem_map.2 ?_
    change ∀ t ∈ pending, ∀ rec ∈ p.2.2.mvMemory.readsOf _, _
    rw [hpmv]
    exact fun t ht => hbatch.reads t ht (by simp [MVMemory.readsOf, hunused t ht _ le_rfl])
  · rw [hentries]
    refine List.forall_mem_map.2 fun t ht n hn => ?_
    change p.2.2.mvMemory.speculative ⟨t.txIndex, n⟩ = none
    rw [hpmv, hbatch.others _ fun u _ heq => ?_]
    · exact hunused t ht n (Nat.le_of_succ_le hn)
    · obtain ⟨hidx, rfl⟩ := TxVersion.mk.inj heq
      exact absurd hn (by simp [LoopState.startRound, hidx, p, executeRound])
  · exact ((hpperm.map _).append_right _).trans h.accounted
  · exact fun t ht => h.pendingSub t (hpperm.mem_iff.1 ht)
  · intro k v hv
    rw [hpmv, hbatch.rows] at hv
    rcases hv with hv | ⟨t, -, x, -, rfl⟩
    · exact Nat.le_succ_of_le (h.bounded k v hv)
    · exact Nat.le_succ_of_le (h.retries t.txIndex)
  · exact fun k v hc => (hcommitted k v hc).trans (h.rows k v hc)

include hstart hsub in
theorem commitRound_inv (h : RoundInv executorFn state tasks start mv₀ s es s.startRound)
    (conflictSet : Finset ℕ) :
    LoopInv executorFn state tasks start (commitRound es conflictSet s) := by
  have hend := h.commit_all htasks hstart hsub conflictSet
  set r := es.foldl (commitEntry s.pending s.rounds conflictSet) s.startRound with hr
  have houts : (commitRound es conflictSet s).outcomes = r.commitQueue.outcomes s.committed :=
    drainOrdered_outcomes
  have hrows : ∀ k v, v ∈ (r.mvMemory.versions k).entries ↔
      ∃ o ∈ r.commitQueue.outcomes s.committed, o.Wrote k v := by
    intro k v
    rw [hend.rows]
    simp
  have hwrote : ∀ k v, v ∈ (r.mvMemory.versions k).entries →
      v.status = .committed ∧ v.txVersion.incarnation ≤ s.rounds := by
    intro k v hv
    obtain ⟨o, ho, hw⟩ := (hrows k v).1 hv
    obtain ⟨-, hinc, hc⟩ := (hend.produced o ho).wrote hw
    exact ⟨hc, hinc⟩
  refine ⟨⟨?_, hend.pendingSub, drainOrdered_ordered hend.ordered, rfl, hend.gap, ?_, ?_,
    ?_⟩, hend.uncached, hend.retries, ?_, hend.unusedNext⟩
  · rw [houts]
    exact hend.accounted
  · rw [houts]
    exact hend.produced
  · exact fun k v hv => (hwrote k v hv).2
  · rw [houts]
    exact fun k v _ => hrows k v
  · exact fun k v hv => (hwrote k v hv).1

omit htasks in
lemma loopInv_initial (tasks : List (ParallelExecutorTask τ)) :
    LoopInv executorFn state tasks ((tasks.map (·.txIndex)).min?.getD 0)
      (initialLoopState tasks : LoopState κ ν τ) where
  accounted := by simp [initialLoopState, LoopState.outcomes, outcomes,
    new, AList.values]
  pendingSub := fun _ ht => ht
  ordered := ordered_new
  drained := rfl
  gap := by simp [initialLoopState, new]
  produced := by simp [initialLoopState, LoopState.outcomes, outcomes,
    new, AList.values]
  bounded := by simp [initialLoopState, MVMemory.new, VersionList.empty]
  rows := by simp [initialLoopState, MVMemory.new, VersionList.empty, LoopState.outcomes,
    outcomes, new, AList.values]
  uncached := fun _ _ => rfl
  retries := fun _ => le_rfl
  settled := by simp [initialLoopState, MVMemory.new, VersionList.empty]
  unused := fun _ _ _ _ => rfl

include hstart in
/-- Every exit of the OCC loop accounts for every task. -/
theorem occLoop_inv (config : ParallelExecutionConfig) (schedules : ℕ → List ℕ) (fuel : ℕ)
    (h : LoopInv executorFn state tasks start s) :
    ExitInv executorFn state tasks start (occLoop config executorFn state schedules fuel s) := by
  induction fuel generalizing s with
  | zero => exact h.toExitInv
  | succ fuel ih =>
    obtain ⟨hround, hexit, -⟩ :=
      executeRound_spec htasks config (schedules s.rounds) h
    simp only [occLoop]
    split_ifs with hempty hbreak
    · exact h.toExitInv
    · exact hexit
    · exact ih (commitRound_inv htasks hstart hexit.pendingSub hround _)

end Sxiaum.Parallel
