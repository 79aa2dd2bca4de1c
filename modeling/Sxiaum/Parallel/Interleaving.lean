import Sxiaum.Parallel.Completeness

/-!
# Interleavings of workers

The workers of a batch share the store, and a schedule says whose operation comes next. Operations
of different executions commute: before it is committed, what an execution has written answers
nobody else, and a list of versions is sorted. So a worker can finish before another one takes its
next step, and a block comes out the same under every schedule.
-/

namespace Sxiaum.Parallel

variable {κ ν τ : Type} {a b : TxVersion}

/-! ### Operations of different executions -/

namespace VersionList

variable {l l' : VersionList ν}

lemma ext_mem (h : ∀ v, v ∈ l.entries ↔ v ∈ l'.entries) : l = l' := by
  have hnodup : ∀ l : VersionList ν, l.entries.Nodup := fun l =>
    l.sorted.imp fun hlt heq => hlt.ne (congrArg Version.txVersion heq)
  have hperm := (List.perm_ext_iff_of_nodup (hnodup l) (hnodup l')).2 h
  obtain ⟨entries, sorted⟩ := l
  obtain ⟨entries', sorted'⟩ := l'
  obtain rfl : entries = entries' := hperm.eq_of_pairwise
    (fun _ _ _ _ hlt hgt => absurd (hlt.trans hgt) (lt_irrefl _)) sorted sorted'
  rfl

lemma record_comm (hne : a ≠ b) (x y : Option ν) :
    (l.record a x).record b y = (l.record b y).record a x := by
  refine ext_mem fun v => ?_
  simp only [mem_record]
  grind [Version.speculative]

lemma own_eq_some {v : Version ν} : l.own a = some v ↔ v ∈ l.entries ∧ v.txVersion = a := by
  have found : ∀ u, l.own a = some u → u ∈ l.entries ∧ u.txVersion = a := fun u hu =>
    ⟨List.mem_reverse.1 (List.mem_of_find?_eq_some hu), by simpa using List.find?_some hu⟩
  refine ⟨found v, ?_⟩
  rintro ⟨hv, hva⟩
  cases hown : l.own a with
  | none => exact absurd hva (own_eq_none.1 hown v hv)
  | some u =>
    obtain ⟨hu, hua⟩ := found u hown
    rw [eq_of_txVersion_eq hu hv (hua.trans hva.symm)]

/-- Own versions and committed ones decide what answers a read. -/
lemma answer_congr (h : ∀ v : Version ν, v.txVersion = a ∨ v.status = .committed →
      (v ∈ l.entries ↔ v ∈ l'.entries)) :
    (l.own a).or (l.latestCommitted a.txIndex) = (l'.own a).or (l'.latestCommitted a.txIndex) := by
  have hown : l.own a = l'.own a := by
    ext v
    rw [own_eq_some, own_eq_some]
    exact and_congr_left fun hv => h v (.inl hv)
  have hlatest : l.latestCommitted a.txIndex = l'.latestCommitted a.txIndex := by
    ext v
    rw [latestCommitted_eq_some, latestCommitted_eq_some]
    grind
  rw [hown, hlatest]

end VersionList

namespace MVMemory

variable {mv : MVMemory κ ν} {k k' : κ} {x x' : Option ν}

/-- No version of the execution is committed. -/
def Uncommitted (mv : MVMemory κ ν) (tv : TxVersion) : Prop :=
  ∀ k, ∀ v ∈ (mv.versions k).entries, v.txVersion = tv → v.status ≠ .committed

lemma readAtVersion_comm (hne : a ≠ b) : (mv.readAtVersion b k').2.readAtVersion a k =
    ((mv.readAtVersion a k).1, ((mv.readAtVersion a k).2.readAtVersion b k').2) := by
  simp only [readAtVersion, observed, Function.update_of_ne hne, Function.update_of_ne hne.symm,
    Function.update_comm hne]

variable [DecidableEq κ]

lemma readAtVersion_record (hne : a ≠ b) (hb : mv.Uncommitted b) :
    (mv.recordSpeculativeWrite b k' x).readAtVersion a k =
      ((mv.readAtVersion a k).1, (mv.readAtVersion a k).2.recordSpeculativeWrite b k' x) := by
  have hseen : (mv.recordSpeculativeWrite b k' x).observed a k = mv.observed a k := by
    refine VersionList.answer_congr fun v hv => ?_
    rw [mem_recordSpeculativeWrite]
    have hmine := hb k v
    grind [Version.speculative]
  simp only [readAtVersion, hseen]
  simp only [recordSpeculativeWrite, Function.update_of_ne hne, Function.update_of_ne hne.symm,
    Function.update_comm hne]

lemma record_comm (hne : a ≠ b) :
    (mv.recordSpeculativeWrite b k' x').recordSpeculativeWrite a k x =
      (mv.recordSpeculativeWrite a k x).recordSpeculativeWrite b k' x' := by
  simp only [recordSpeculativeWrite, Function.update_of_ne hne, Function.update_of_ne hne.symm,
    Function.update_comm hne]
  by_cases hk : k = k'
  · subst hk
    simp [VersionList.record_comm hne]
  · simp [Function.update_of_ne hk, Function.update_of_ne (Ne.symm hk), Function.update_comm hk]

end MVMemory

/-! ### Steps of different workers -/

variable [DecidableEq κ] {state : κ → Option ν} {mv : MVMemory κ ν} {v w : Worker κ ν τ}

namespace Worker

open MVMemory

/-- A step leaves the store, reads a key or records a write. -/
lemma step_cases (state : κ → Option ν) (w : Worker κ ν τ) :
    (∃ w', ∀ mv, w.step state mv = (mv, w')) ∨
      (∃ k, ∃ next : Option (Option ν) → Worker κ ν τ, ∀ mv, w.step state mv =
        ((mv.readAtVersion w.txVersion k).2, next (mv.readAtVersion w.txVersion k).1)) ∨
      ∃ k x w', ∀ mv, w.step state mv = (mv.recordSpeculativeWrite w.txVersion k x, w') := by
  obtain ⟨task, tv, phase⟩ := w
  match phase with
  | .running (.ret _) _ | .mirroring _ [] | .writing _ _ [] | .done _ =>
    exact .inl ⟨_, fun _ => rfl⟩
  | .running (.read k cont) reads =>
    exact .inr (.inl ⟨k, fun seen =>
      ⟨task, tv, .running (cont (rowRead state k seen)) (reads ++ [k])⟩, fun _ => rfl⟩)
  | .mirroring out (k :: ks) =>
    exact .inr (.inl ⟨k, fun _ => ⟨task, tv, .mirroring out ks⟩, fun _ => rfl⟩)
  | .writing _ _ ((k, x) :: _) => exact .inr (.inr ⟨k, x, _, fun _ => rfl⟩)

lemma step_comm (hne : v.txVersion ≠ w.txVersion) (hv : mv.Uncommitted v.txVersion)
    (hw : mv.Uncommitted w.txVersion) : v.step state (w.step state mv).1 =
      ((w.step state (v.step state mv).1).1, (v.step state mv).2) := by
  rcases v.step_cases state with ⟨v', h⟩ | ⟨k, next, h⟩ | ⟨k, x, v', h⟩ <;>
    rcases w.step_cases state with ⟨w', h'⟩ | ⟨k', next', h'⟩ | ⟨k', x', w', h'⟩ <;>
    simp only [h, h', readAtVersion_comm hne, readAtVersion_record hne hw,
      readAtVersion_record hne.symm hv, record_comm hne]

lemma uncommitted_step (h : mv.Uncommitted a) : (w.step state mv).1.Uncommitted a := by
  rcases w.step_cases state with ⟨w', hw⟩ | ⟨k, next, hw⟩ | ⟨k, x, w', hw⟩ <;> rw [hw]
  · exact h
  · exact h
  · intro k' v hv
    rw [mem_recordSpeculativeWrite] at hv
    have hbefore := h k' v
    grind [Version.speculative]

lemma finish_step (w : Worker κ ν τ) (mv : MVMemory κ ν) :
    (w.step state mv).2.finish state (w.step state mv).1 = w.finish state mv := by
  unfold step
  split <;> simp_all [finish, runProgram, mirrorReads, recordWrites]

/-- A step of another worker can wait for the steps of a worker. -/
lemma Steps.comm {p q : MVMemory κ ν × Worker κ ν τ} (h : Steps state p q)
    (hne : p.2.txVersion ≠ w.txVersion) (hp : p.1.Uncommitted p.2.txVersion)
    (hw : p.1.Uncommitted w.txVersion) :
    p.2.finish state (w.step state p.1).1 = q.2.finish state (w.step state q.1).1 ∧
      (w.step state q.1).2 = (w.step state p.1).2 ∧ q.1.Uncommitted w.txVersion := by
  induction h using Relation.ReflTransGen.head_induction_on with
  | refl => exact ⟨rfl, rfl, hw⟩
  | @head p p' hstep _ ih =>
    subst hstep
    have htv := step_txVersion state p.1 p.2
    obtain ⟨hfinish, hnext, hkept⟩ := ih (by rwa [htv]) (by rw [htv]; exact uncommitted_step hp)
      (uncommitted_step hw)
    refine ⟨?_, ?_, hkept⟩
    · rw [← hfinish, ← finish_step p.2 (w.step state p.1).1, step_comm hne hp hw]
    · rw [hnext, step_comm hne.symm hw hp]

end Worker

/-! ### Schedules -/

/-- A step of any worker does not change what the workers come to. -/
lemma finishWorkers_stepWorker {ws : List (Worker κ ν τ)} (hnodup : (ws.map (·.txVersion)).Nodup)
    (hws : ∀ w ∈ ws, mv.Uncommitted w.txVersion) (i : ℕ) :
    finishWorkers state (stepWorker state (mv, ws) i).2 (stepWorker state (mv, ws) i).1 =
      finishWorkers state ws mv := by
  induction ws generalizing mv i with
  | nil => rfl
  | cons v ws ih =>
    rw [List.map_cons, List.nodup_cons] at hnodup
    rw [List.forall_mem_cons] at hws
    cases i with
    | zero =>
      change finishWorkers state ((v.step state mv).2 :: ws) (v.step state mv).1 = _
      simp only [finishWorkers, Worker.finish_step, Worker.step_task, Worker.step_txVersion]
    | succ i =>
      -- the first worker finishes before the step
      have hcomm : ∀ w ∈ ws, v.finish state (w.step state mv).1 =
          ((v.finish state mv).1, (w.step state (v.finish state mv).2).1) ∧
          (w.step state (v.finish state mv).2).2 = (w.step state mv).2 ∧
          (v.finish state mv).2.Uncommitted w.txVersion := fun w hw =>
        (v.finish_steps mv).comm (fun heq => hnodup.1 (heq ▸ List.mem_map_of_mem hw)) hws.1
          (hws.2 w hw)
      have hrest := ih hnodup.2 (fun w hw => (hcomm w hw).2.2) i
      cases hi : ws[i]? with
      | none => simp only [stepWorker, List.getElem?_cons_succ, hi]
      | some w =>
        obtain ⟨hfinish, hnext, -⟩ := hcomm w (List.mem_of_getElem? hi)
        simp only [stepWorker, hi, hnext] at hrest
        simp only [stepWorker, List.getElem?_cons_succ, hi, List.set_cons_succ, finishWorkers,
          hfinish, hrest]

lemma finishWorkers_schedule {s : MVMemory κ ν × List (Worker κ ν τ)}
    (hnodup : (s.2.map (·.txVersion)).Nodup)
    (h : ∀ tv ∈ s.2.map Worker.txVersion, s.1.Uncommitted tv) (schedule : List ℕ) :
    finishWorkers state (schedule.foldl (stepWorker state) s).2
      (schedule.foldl (stepWorker state) s).1 = finishWorkers state s.2 s.1 := by
  induction schedule generalizing s with
  | nil => rfl
  | cons i schedule ih =>
    have hversions : (stepWorker state s i).2.map Worker.txVersion = s.2.map Worker.txVersion := by
      simpa [Worker.job, Function.comp_def] using congrArg (List.map Prod.snd) (stepWorker_jobs s i)
    have hkept : ∀ tv ∈ s.2.map Worker.txVersion, (stepWorker state s i).1.Uncommitted tv := by
      intro tv htv
      unfold stepWorker
      split
      · exact h tv htv
      · exact Worker.uncommitted_step (h tv htv)
    rw [List.foldl_cons, ih (by rwa [hversions]) (by rwa [hversions])]
    exact finishWorkers_stepWorker hnodup (List.forall_mem_map.1 h) i

variable {executorFn : ParallelExecutorTask τ → ReadProgram κ ν (TxEffects κ ν)}
  {tasks : List (ParallelExecutorTask τ)} {start : ℕ} {s : LoopState κ ν τ}
  (hnodup : (tasks.map (·.txIndex)).Nodup) (config : ParallelExecutionConfig)

include hnodup

lemma executeRound_schedule (h : LoopInv executorFn state tasks start s)
    (schedule schedule' : List ℕ) :
    executeRound config executorFn state schedule s =
      executeRound config executorFn state schedule' s := by
  have hnd := h.accounted.nodup_iff.2 hnodup
  have hpending := sortByIndex_perm (·.txIndex) s.pending
  have hbatch : ∀ (ts : List (ParallelExecutorTask τ)) (schedule : List ℕ),
      ts.Sublist (sortByIndex (·.txIndex) s.pending) →
        executeBatch executorFn state ts s.retryCounts schedule s.mvMemory =
          executeBatch executorFn state ts s.retryCounts [] s.mvMemory := by
    intro ts schedule hts
    refine finishWorkers_schedule (s := (s.mvMemory, ts.map fun t =>
      startWorker executorFn (s.retryCounts t.txIndex) t)) ?_ ?_ schedule
    · refine List.Nodup.of_map TxVersion.txIndex ?_
      simp only [List.map_map, Function.comp_def, startWorker]
      exact (hts.map _).nodup ((hpending.map _).nodup_iff.2 (List.nodup_append.1 hnd).1)
    · simp only [List.map_map, List.forall_mem_map, Function.comp_def, startWorker]
      intro t ht k v hv htv
      -- a version in the store is of an outcome, and the task is pending
      obtain ⟨o, ho, hw⟩ := (h.rows k v (h.settled k v hv)).1 hv
      have hindex : o.txIndex = t.txIndex := by rw [← ((h.produced o ho).wrote hw).1, htv]
      exact absurd hindex.symm ((List.nodup_append.1 hnd).2.2 _
        (List.mem_map_of_mem (hpending.mem_iff.1 (hts.subset ht))) _ (List.mem_map_of_mem ho))
  simp only [executeRound, hbatch _ schedule List.filter_sublist,
    hbatch _ schedule' List.filter_sublist]

lemma occLoop_schedules (hstart : ∀ t ∈ tasks, start ≤ t.txIndex)
    (h : LoopInv executorFn state tasks start s) (n : ℕ) (schedules schedules' : ℕ → List ℕ)
    (fuel : ℕ) : occLoop { config with writeBatchSize := n } executorFn state schedules' fuel s =
      occLoop config executorFn state schedules fuel s := by
  induction fuel generalizing s with
  | zero => rfl
  | succ fuel ih =>
    have hsame : executeRound { config with writeBatchSize := n } executorFn state
        (schedules' s.rounds) s = executeRound config executorFn state (schedules s.rounds) s :=
      executeRound_schedule hnodup config h _ _
    obtain ⟨hround, hexit, -⟩ := executeRound_spec hnodup config (schedules s.rounds) h
    have hnext := commitRound_inv hnodup hstart hexit.pendingSub hround
    simp only [occLoop, hsame, ih (hnext _)]

/-- What `execute_block` returns and the rows it leaves depend neither on how the workers are
interleaved nor on the size of the write batches. -/
theorem executeBlock_schedules (checkRow : κ → ν → Except String Unit)
    (schedules schedules' : ℕ → List ℕ) (n : ℕ) :
    executeBlock { config with writeBatchSize := n } executorFn state checkRow schedules' tasks =
      executeBlock config executorFn state checkRow schedules tasks := by
  have hexit : occExit { config with writeBatchSize := n } executorFn state schedules' tasks =
      occExit config executorFn state schedules tasks := by
    refine occLoop_schedules hnodup config (fun t ht => ?_) (loopInv_initial tasks) n _ _ _
    have hmem := List.mem_map_of_mem (f := (·.txIndex)) ht
    cases hmin : (tasks.map (·.txIndex)).min? with
    | none => exact Nat.zero_le _
    | some m => exact (List.min?_eq_some_iff.1 hmin).2 _ hmem
  simp only [executeBlock, hexit, finalize_eq_foldlM]

omit hnodup in
/-- Two workers that take turns. -/
theorem executeBlock_schedules_turns :
    executeBlock { writeBatchSize := 1 } (storeOwn false) (fun _ => none) (fun _ _ => .ok ())
        (fun _ => [1, 0, 1, 0]) twoTasks =
      executeBlock {} (storeOwn false) (fun _ => none) (fun _ _ => .ok ()) (fun _ => []) twoTasks :=
  executeBlock_schedules (by decide) {} _ _ _ 1

end Sxiaum.Parallel
