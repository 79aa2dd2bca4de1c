import Sxiaum.Parallel.Executor

/-!
# A batch does not depend on its schedule

While the workers of a round run, nothing is committed, and a worker never sees the
speculative versions of another one. So every worker computes what its task computes
on the versions committed before the round (`speculate`), and the store ends with the
old versions and one speculative version for each key each worker writes.
-/

namespace Sxiaum.Parallel

open WriteSet

variable {κ ν τ : Type} [DecidableEq κ]

lemma split_iff {p a b q : Prop} (h : p ↔ a ∨ b) (ha : a → ¬q) (hb : b → q) :
    (p ∧ q ↔ b) ∧ (p ∧ ¬q ↔ a) := by
  rw [h]
  constructor <;> tauto

lemma exists_mem_middle {α : Type} {p : α → Prop} {a : α} {l r : List α} :
    (∃ u ∈ l ++ a :: r, p u) ↔ (∃ u ∈ l ++ r, p u) ∨ p a := by
  simp only [List.mem_append, List.mem_cons, or_and_right, exists_or, exists_eq_left]
  exact or_assoc.symm.trans or_right_comm

section Speculate

variable (executorFn : ParallelExecutorTask τ → ReadProgram κ ν (TxEffects κ ν))
  (state : κ → Option ν)

def runTask (rows : κ → Option ν) (task : ParallelExecutorTask τ) : TransactionOutput κ ν :=
  mkOutput task ((executorFn task).eval rows) ((executorFn task).keysRead rows)

/-- The output of a task that sees the versions committed in `mv`. -/
def speculate (mv : MVMemory κ ν) (task : ParallelExecutorTask τ) : TransactionOutput κ ν :=
  runTask executorFn (mv.view state task.txIndex) task

variable {executorFn} {rows rows' : κ → Option ν} {task : ParallelExecutorTask τ}

omit [DecidableEq κ] in
/-- Rows that agree at the keys a task reads give the same output. -/
theorem runTask_congr (h : ∀ k ∈ (runTask executorFn rows task).keysRead, rows' k = rows k) :
    runTask executorFn rows' task = runTask executorFn rows task := by
  obtain ⟨heval, hread⟩ := ReadProgram.eval_congr h
  rw [runTask, runTask, heval, hread]

omit [DecidableEq κ] in
lemma readSet_runTask (h : (runTask executorFn rows task).executionStatus = true) :
    (runTask executorFn rows task).readSet = (runTask executorFn rows task).keysRead := by
  have hstatus : ((executorFn task).eval rows).executionStatus = true := h
  simp [runTask, mkOutput, hstatus]

omit [DecidableEq κ] in
lemma readSet_subset {k : κ} (h : k ∈ (runTask executorFn rows task).readSet) :
    k ∈ (runTask executorFn rows task).keysRead := by
  rw [runTask, mkOutput] at h ⊢
  split_ifs at h
  · cases h
  · exact h

end Speculate

/-! ### The state of a batch -/

namespace Worker

def recorded (w : Worker κ ν τ) : WriteSet κ ν :=
  match w.phase with
  | .running _ _ => []
  | .mirroring _ _ => []
  | .writing _ recorded _ => recorded
  | .done out => out.writeSet

/-- A worker on its way to the output of its task on the versions committed in `mv₀`. -/
def OnTrack (executorFn : ParallelExecutorTask τ → ReadProgram κ ν (TxEffects κ ν))
    (state : κ → Option ν) (mv₀ : MVMemory κ ν) (w : Worker κ ν τ) : Prop :=
  let rows := mv₀.view state w.task.txIndex
  match w.phase with
  | .running prog reads =>
    prog.eval rows = (executorFn w.task).eval rows ∧
      reads ++ prog.keysRead rows = (executorFn w.task).keysRead rows
  | .mirroring out rest => out = speculate executorFn state mv₀ w.task ∧ rest ⊆ out.readSet
  | .writing out recorded rest =>
    out = speculate executorFn state mv₀ w.task ∧ recorded ++ rest = out.writeSet
  | .done out => out = speculate executorFn state mv₀ w.task

@[simp] lemma step_task (state : κ → Option ν) (mv : MVMemory κ ν) (w : Worker κ ν τ) :
    (w.step state mv).2.task = w.task := by
  unfold step
  split <;> rfl

@[simp] lemma step_txVersion (state : κ → Option ν) (mv : MVMemory κ ν) (w : Worker κ ν τ) :
    (w.step state mv).2.txVersion = w.txVersion := by
  unfold step
  split <;> rfl

end Worker

variable {executorFn : ParallelExecutorTask τ → ReadProgram κ ν (TxEffects κ ν)}
  {state : κ → Option ν} {mv₀ : MVMemory κ ν}

variable (executorFn state mv₀) in
/-- The read is one that the task makes on `mv₀`, with the version that answers it there. -/
def ReadRecord.Faithful (task : ParallelExecutorTask τ) (r : ReadRecord κ) : Prop :=
  r.key ∈ (speculate executorFn state mv₀ task).keysRead ∧
    r.observedVersion = ((mv₀.versions r.key).latestCommitted task.txIndex).map (·.txVersion)

variable (executorFn state mv₀) in
/-- The invariant of a running batch that started on `mv₀`. -/
structure BatchInv (s : MVMemory κ ν × List (Worker κ ν τ)) : Prop where
  version : ∀ w ∈ s.2, w.txVersion.txIndex = w.task.txIndex
  distinct : (s.2.map (·.txVersion)).Nodup
  fresh : ∀ w ∈ s.2, ∀ k, ∀ v ∈ (mv₀.versions k).entries, v.txVersion ≠ w.txVersion
  onTrack : ∀ w ∈ s.2, w.OnTrack executorFn state mv₀
  rows : ∀ k v, v ∈ (s.1.versions k).entries ↔ v ∈ (mv₀.versions k).entries ∨
    ∃ w ∈ s.2, ∃ x, lastWrite w.recorded k = some x ∧ v = .speculative w.txVersion x
  reads : ∀ w ∈ s.2, mv₀.readsOf w.txVersion = [] → ∀ r ∈ s.1.readsOf w.txVersion,
    r.Faithful executorFn state mv₀ w.task
  others : ∀ tv ∉ s.2.map (·.txVersion), s.1.speculative tv = mv₀.speculative tv

namespace BatchInv

variable {mv mv' : MVMemory κ ν} {w w' : Worker κ ν τ} {l r : List (Worker κ ν τ)}

section

variable (h : BatchInv executorFn state mv₀ (mv, l ++ w :: r))

include h

lemma others_ne {u : Worker κ ν τ} (hu : u ∈ l ++ r) : u.txVersion ≠ w.txVersion := by
  have hd := h.distinct
  rw [List.map_append, List.map_cons, List.nodup_middle, List.nodup_cons, ← List.map_append] at hd
  exact fun htv => hd.1 (List.mem_map.2 ⟨u, hu, htv⟩)

/-- The versions a worker has in the store are the ones it recorded; the others are those of the
start and of the other workers. -/
lemma rows_split (k : κ) (v : Version ν) :
    (v ∈ (mv.versions k).entries ∧ v.txVersion = w.txVersion ↔
      ∃ x, lastWrite w.recorded k = some x ∧ v = .speculative w.txVersion x) ∧
    (v ∈ (mv.versions k).entries ∧ v.txVersion ≠ w.txVersion ↔ v ∈ (mv₀.versions k).entries ∨
      ∃ u ∈ l ++ r, ∃ x, lastWrite u.recorded k = some x ∧ v = .speculative u.txVersion x) := by
  refine split_iff (by rw [h.rows, exists_mem_middle, or_assoc]) ?_ (by rintro ⟨x, -, rfl⟩; rfl)
  rintro (h₀ | ⟨u, hu, x, -, rfl⟩) htv
  · exact h.fresh w (by simp) k v h₀ htv
  · exact h.others_ne hu htv

/-- A worker's next state keeps the invariant when the store changes in that worker's own
versions and reads only. -/
lemma replace (htask : w'.task = w.task)
    (htv : w'.txVersion = w.txVersion) (htrack : w'.OnTrack executorFn state mv₀)
    (hrows : ∀ k v, v ∈ (mv'.versions k).entries ↔
      v ∈ (mv.versions k).entries ∧ v.txVersion ≠ w.txVersion ∨
        ∃ x, lastWrite w'.recorded k = some x ∧ v = .speculative w.txVersion x)
    (hreads : mv₀.readsOf w.txVersion = [] → ∀ r ∈ mv'.readsOf w.txVersion,
      r.Faithful executorFn state mv₀ w.task)
    (hother : ∀ tv, tv ≠ w.txVersion → mv'.speculative tv = mv.speculative tv) :
    BatchInv executorFn state mv₀ (mv', l ++ w' :: r) := by
  have hmem : ∀ P : Worker κ ν τ → Prop, (∀ u ∈ l ++ w :: r, P u) → P w' →
      ∀ u ∈ l ++ w' :: r, P u := by
    simp only [List.forall_mem_append, List.forall_mem_cons]
    exact fun P hP hw' => ⟨hP.1, hw', hP.2.2⟩
  have hw : w ∈ l ++ w :: r := by simp
  -- a worker keeps its version
  have hversions : (l ++ w' :: r).map (·.txVersion) = (l ++ w :: r).map (·.txVersion) := by
    simp only [List.map_append, List.map_cons, htv]
  refine ⟨?_, ?_, ?_, ?_, ?_, ?_, ?_⟩
  · exact hmem _ h.version (by rw [htv, htask]; exact h.version w hw)
  · exact hversions ▸ h.distinct
  · exact hmem _ h.fresh (by rw [htv]; exact h.fresh w hw)
  · exact hmem _ h.onTrack htrack
  · intro k v
    rw [hrows, (h.rows_split k v).2, exists_mem_middle, or_assoc, htv]
  · intro u hu
    by_cases heq : u.txVersion = w.txVersion
    · rw [heq]
      have hself : u = w' ∨ u ∈ l ++ r := by simpa [or_comm, or_assoc, or_left_comm] using hu
      rcases hself with rfl | hu
      · rwa [htask]
      · exact absurd heq (h.others_ne hu)
    · have hold : u ∈ l ++ w :: r := by
        have hne : u ≠ w' := fun h => heq (h ▸ htv)
        simp only [List.mem_append, List.mem_cons, hne, false_or] at hu ⊢
        exact hu.imp_right .inr
      have hsame : mv'.readsOf u.txVersion = mv.readsOf u.txVersion := by
        rw [MVMemory.readsOf, hother _ heq, MVMemory.readsOf]
      rw [hsame]
      exact h.reads u hold
  · intro tv htv'
    rw [hversions] at htv'
    rw [hother tv fun heq => htv' (heq ▸ List.mem_map_of_mem hw)]
    exact h.others tv htv'

/-- A worker's next state keeps the invariant when the store keeps its versions. -/
lemma replace_of_versions_eq (htask : w'.task = w.task) (htv : w'.txVersion = w.txVersion)
    (htrack : w'.OnTrack executorFn state mv₀) (hrec : w'.recorded = w.recorded)
    (hver : mv'.versions = mv.versions)
    (hreads : mv₀.readsOf w.txVersion = [] → ∀ r ∈ mv'.readsOf w.txVersion,
      r.Faithful executorFn state mv₀ w.task)
    (hother : ∀ tv, tv ≠ w.txVersion → mv'.speculative tv = mv.speculative tv) :
    BatchInv executorFn state mv₀ (mv', l ++ w' :: r) := by
  refine h.replace htask htv htrack (fun k v => ?_) hreads hother
  rw [hver, hrec, ← (h.rows_split k v).1, ← and_or_left]
  simp [em']

lemma replace_phase (htask : w'.task = w.task) (htv : w'.txVersion = w.txVersion)
    (htrack : w'.OnTrack executorFn state mv₀) (hrec : w'.recorded = w.recorded) :
    BatchInv executorFn state mv₀ (mv, l ++ w' :: r) :=
  h.replace_of_versions_eq htask htv htrack hrec rfl (h.reads w (by simp)) fun _ _ => rfl

/-- Before it writes, a worker reads the versions committed before the batch. -/
lemma observed_eq (hrec : w.recorded = []) (k : κ) :
    mv.observed w.txVersion k = (mv₀.versions k).latestCommitted w.task.txIndex := by
  have hown : (mv.versions k).own w.txVersion = none := by
    rw [VersionList.own_eq_none]
    intro v hv htv
    obtain ⟨x, hx, -⟩ := (h.rows_split k v).1.1 ⟨hv, htv⟩
    simp [hrec, lastWrite] at hx
  rw [MVMemory.observed, hown, Option.none_or, h.version w (by simp)]
  refine MVMemory.latestCommitted_congr fun v hc _ => ?_
  rw [h.rows]
  refine or_iff_left ?_
  rintro ⟨u, -, x, -, rfl⟩
  simp [Version.speculative] at hc

/-- So does a read of one of the task's keys, and it is recorded as such. -/
lemma read {k : κ} {phase : WorkerPhase κ ν} (hrec : w.recorded = [])
    (hrec' : { w with phase }.recorded = [])
    (htrack : { w with phase }.OnTrack executorFn state mv₀)
    (hk : k ∈ (speculate executorFn state mv₀ w.task).keysRead) :
    BatchInv executorFn state mv₀
      ((mv.readAtVersion w.txVersion k).2, l ++ { w with phase } :: r) := by
  refine h.replace_of_versions_eq rfl rfl htrack (hrec'.trans hrec.symm) rfl
    (fun hnew r hr => ?_) fun tv hne => Function.update_of_ne hne _ _
  rw [MVMemory.readsOf_readAtVersion, List.mem_append, List.mem_singleton] at hr
  rcases hr with hr | rfl
  · exact h.reads w (by simp) hnew r hr
  · exact ⟨hk, by rw [h.observed_eq hrec]⟩

end

end BatchInv

/-! ### Steps and schedules -/

theorem BatchInv.step {mv : MVMemory κ ν} {w : Worker κ ν τ} {l r : List (Worker κ ν τ)}
    (h : BatchInv executorFn state mv₀ (mv, l ++ w :: r)) :
    BatchInv executorFn state mv₀ ((w.step state mv).1, l ++ (w.step state mv).2 :: r) := by
  have htrack := h.onTrack w (by simp)
  obtain ⟨task, tv, phase⟩ := w
  cases phase with
  | running prog reads =>
    cases prog with
    | ret eff =>
      obtain ⟨heval, hreads⟩ := htrack
      refine h.replace_phase rfl rfl ⟨?_, List.Subset.refl _⟩ rfl
      simp only [ReadProgram.eval, ReadProgram.keysRead, List.append_nil] at heval hreads
      change mkOutput task eff reads = speculate executorFn state mv₀ task
      rw [heval, hreads, speculate, runTask]
    | read k cont =>
      obtain ⟨heval, hreads⟩ := htrack
      -- what the others have written meanwhile is speculative and not seen
      have hrow : rowRead state k ((mv.observed tv k).map (·.value)) =
          mv₀.view state task.txIndex k := by
        rw [h.observed_eq rfl k, rowRead, MVMemory.view]
        cases (mv₀.versions k).latestCommitted task.txIndex <;> rfl
      have hnext : (Worker.step state mv ⟨task, tv, .running (.read k cont) reads⟩).2 =
          ⟨task, tv, .running (cont (mv₀.view state task.txIndex k)) (reads ++ [k])⟩ := by
        simp only [Worker.step, MVMemory.readAtVersion_value, hrow]
      rw [hnext]
      refine h.read rfl rfl ⟨heval, ?_⟩ ?_
      · rw [List.append_assoc]
        exact hreads
      · -- the key is the next one that the task reads
        change k ∈ (executorFn task).keysRead (mv₀.view state task.txIndex)
        rw [← hreads]
        exact List.mem_append_right _ (.head _)
  -- the read set is read once more, for its versions
  | mirroring out rest =>
    obtain ⟨hout, hsub⟩ := htrack
    cases rest with
    | nil => exact h.replace_phase rfl rfl ⟨hout, rfl⟩ rfl
    | cons k ks =>
      refine h.read rfl rfl ⟨hout, fun _ hx => hsub (.tail _ hx)⟩ ?_
      have hk := hsub (.head _)
      rw [hout] at hk
      exact readSet_subset hk
  | writing out recorded rest =>
    obtain ⟨hout, hsplit⟩ := htrack
    cases rest with
    | nil =>
      refine h.replace_phase rfl rfl hout ?_
      change out.writeSet = recorded
      rw [← hsplit, List.append_nil]
    -- a write adds one version of its own to one key
    | cons kx ws =>
      obtain ⟨k', x'⟩ := kx
      refine h.replace rfl rfl ⟨hout, by simpa using hsplit⟩ (fun k v => ?_) ?_
        fun _ hne => Function.update_of_ne hne _ _
      · have hown := (h.rows_split k v).1
        simp only [Worker.recorded] at hown
        change v ∈ ((mv.recordSpeculativeWrite tv k' x').versions k).entries ↔
          v ∈ (mv.versions k).entries ∧ v.txVersion ≠ tv ∨
            ∃ x, lastWrite (recorded ++ [(k', x')]) k = some x ∧ v = .speculative tv x
        simp only [MVMemory.mem_recordSpeculativeWrite, lastWrite_append_singleton]
        by_cases hk : k = k'
        · subst hk
          simp [or_comm]
        · simp only [hk, Ne.symm hk, if_false, false_and, false_implies, and_true, false_or,
            ← hown, ← and_or_left]
          simp [em']
      · change _ → ∀ r ∈ (mv.recordSpeculativeWrite tv k' x').readsOf tv, _
        rw [MVMemory.readsOf_recordSpeculativeWrite]
        exact h.reads ⟨task, tv, .writing out recorded ((k', x') :: ws)⟩ (by simp)
  | done out => exact h

lemma BatchInv.stepWorker {s : MVMemory κ ν × List (Worker κ ν τ)}
    (h : BatchInv executorFn state mv₀ s) (i : ℕ) :
    BatchInv executorFn state mv₀ (stepWorker state s i) := by
  obtain ⟨mv, ws⟩ := s
  unfold Parallel.stepWorker
  cases hi : ws[i]? with
  | none => exact h
  | some w =>
    obtain ⟨hlt, hget⟩ := List.getElem?_eq_some_iff.1 hi
    obtain ⟨l, r, hsplit, -, hset⟩ : ∃ l r, ws = l ++ ws[i] :: r ∧ l.length = i ∧
      ws.set i (w.step state mv).2 = l ++ (w.step state mv).2 :: r := List.exists_of_set hlt
    rw [hget] at hsplit
    simp only [hset]
    exact (hsplit ▸ h : BatchInv executorFn state mv₀ (mv, l ++ w :: r)).step

lemma BatchInv.schedule {s : MVMemory κ ν × List (Worker κ ν τ)}
    (h : BatchInv executorFn state mv₀ s) (schedule : List ℕ) :
    BatchInv executorFn state mv₀ (schedule.foldl (Parallel.stepWorker state) s) := by
  induction schedule generalizing s with
  | nil => exact h
  | cons i rest ih => exact ih (h.stepWorker i)

def Worker.job (w : Worker κ ν τ) : ParallelExecutorTask τ × TxVersion :=
  (w.task, w.txVersion)

lemma stepWorker_jobs (s : MVMemory κ ν × List (Worker κ ν τ)) (i : ℕ) :
    (stepWorker state s i).2.map Worker.job = s.2.map Worker.job := by
  unfold stepWorker
  cases hi : s.2[i]? with
  | none => rfl
  | some w =>
    have hjob : (w.step state s.1).2.job = w.job := by simp [Worker.job]
    have hat : (s.2.map Worker.job)[i]? = some w.job := by simp [hi]
    obtain ⟨hlt, hget⟩ := List.getElem?_eq_some_iff.1 hat
    simp only [List.map_set, hjob]
    rw [← hget, List.set_getElem_self]

lemma schedule_jobs (s : MVMemory κ ν × List (Worker κ ν τ)) (schedule : List ℕ) :
    (schedule.foldl (stepWorker state) s).2.map Worker.job = s.2.map Worker.job := by
  induction schedule generalizing s with
  | nil => rfl
  | cons i rest ih => exact (ih _).trans (stepWorker_jobs s i)

/-! ### Finishing -/

namespace Worker

def Steps (state : κ → Option ν) :
    MVMemory κ ν × Worker κ ν τ → MVMemory κ ν × Worker κ ν τ → Prop :=
  Relation.ReflTransGen fun p q => p.2.step state p.1 = q

lemma writing_steps (task : ParallelExecutorTask τ) (tv : TxVersion) (out : TransactionOutput κ ν)
    (recorded rest : WriteSet κ ν) (mv : MVMemory κ ν) :
    Steps state (mv, ⟨task, tv, .writing out recorded rest⟩)
      (recordWrites tv rest mv, ⟨task, tv, .done out⟩) := by
  induction rest generalizing recorded mv with
  | nil => exact .single rfl
  | cons kx ws ih => exact .head rfl (ih _ _)

lemma mirroring_steps (task : ParallelExecutorTask τ) (tv : TxVersion)
    (out : TransactionOutput κ ν) (rest : List κ) (mv : MVMemory κ ν) :
    Steps state (mv, ⟨task, tv, .mirroring out rest⟩)
      (recordWrites tv out.writeSet (mirrorReads tv rest mv), ⟨task, tv, .done out⟩) := by
  induction rest generalizing mv with
  | nil => exact .head rfl (writing_steps task tv out [] out.writeSet mv)
  | cons k ks ih => exact .head rfl (ih _)

/-- To finish is to take steps until the output is there. -/
theorem finish_steps (w : Worker κ ν τ) (mv : MVMemory κ ν) :
    Steps state (mv, w)
      ((w.finish state mv).2, { w with phase := .done (w.finish state mv).1 }) := by
  obtain ⟨task, tv, phase⟩ := w
  cases phase with
  | running prog reads =>
    induction prog generalizing reads mv with
    | ret eff => exact .head rfl (mirroring_steps task tv _ _ mv)
    | read k cont ih => exact .head rfl (ih _ _ _)
  | mirroring out rest => exact mirroring_steps task tv out rest mv
  | writing out recorded rest => exact writing_steps task tv out recorded rest mv
  | done out => exact .refl

end Worker

lemma BatchInv.steps {l r : List (Worker κ ν τ)} {p q : MVMemory κ ν × Worker κ ν τ}
    (hsteps : Worker.Steps state p q) (h : BatchInv executorFn state mv₀ (p.1, l ++ p.2 :: r)) :
    BatchInv executorFn state mv₀ (q.1, l ++ q.2 :: r) := by
  induction hsteps with
  | refl => exact h
  | tail _ hstep ih =>
    subst hstep
    exact ih.step

/-- A worker that has finished with the output of its task on `mv₀`. -/
def Worker.finished (executorFn : ParallelExecutorTask τ → ReadProgram κ ν (TxEffects κ ν))
    (state : κ → Option ν) (mv₀ : MVMemory κ ν) (w : Worker κ ν τ) : Worker κ ν τ :=
  { w with phase := .done (speculate executorFn state mv₀ w.task) }

theorem finishWorkers_spec {ws pre : List (Worker κ ν τ)} {mv : MVMemory κ ν}
    (h : BatchInv executorFn state mv₀ (mv, pre ++ ws)) :
    (finishWorkers state ws mv).1 =
        ws.map (fun w => ⟨w.task, speculate executorFn state mv₀ w.task, w.txVersion⟩) ∧
      BatchInv executorFn state mv₀ ((finishWorkers state ws mv).2,
        pre ++ ws.map (Worker.finished executorFn state mv₀)) := by
  induction ws generalizing pre mv with
  | nil => exact ⟨rfl, h⟩
  | cons w ws ih =>
    have hw := BatchInv.steps (w.finish_steps mv) h
    have hout : (w.finish state mv).1 = speculate executorFn state mv₀ w.task :=
      hw.onTrack { w with phase := .done (w.finish state mv).1 } (by simp)
    have hnext : BatchInv executorFn state mv₀ ((w.finish state mv).2,
        (pre ++ [w.finished executorFn state mv₀]) ++ ws) := by
      simpa [Worker.finished, hout] using hw
    obtain ⟨hrest, hinv⟩ := ih hnext
    refine ⟨by simp only [finishWorkers, List.map_cons, hout, hrest], ?_⟩
    rw [List.append_assoc] at hinv
    exact hinv

variable (executorFn state mv₀) in
/-- The result of a batch on `mv₀`: each task's output on the versions committed there, one
speculative version for each key written, and the reads recorded. -/
structure BatchResult (tasks : List (ParallelExecutorTask τ)) (retryCounts : ℕ → ℕ)
    (p : List (CachedSpeculativeExecution κ ν τ) × MVMemory κ ν) : Prop where
  executed : p.1 = tasks.map fun t =>
    ⟨t, speculate executorFn state mv₀ t, ⟨t.txIndex, retryCounts t.txIndex⟩⟩
  rows : ∀ k v, v ∈ (p.2.versions k).entries ↔ v ∈ (mv₀.versions k).entries ∨
    ∃ t ∈ tasks, ∃ x, lastWrite (speculate executorFn state mv₀ t).writeSet k = some x ∧
      v = .speculative ⟨t.txIndex, retryCounts t.txIndex⟩ x
  reads : ∀ t ∈ tasks, mv₀.readsOf ⟨t.txIndex, retryCounts t.txIndex⟩ = [] →
    ∀ r ∈ p.2.readsOf ⟨t.txIndex, retryCounts t.txIndex⟩, r.Faithful executorFn state mv₀ t
  others : ∀ tv, (∀ t ∈ tasks, tv ≠ ⟨t.txIndex, retryCounts t.txIndex⟩) →
    p.2.speculative tv = mv₀.speculative tv

/-- Every schedule leads to this result. -/
theorem executeBatch_spec {tasks : List (ParallelExecutorTask τ)} {retryCounts : ℕ → ℕ}
    (schedule : List ℕ) (hnodup : (tasks.map (·.txIndex)).Nodup)
    (hfresh : ∀ t ∈ tasks, ∀ k, ∀ v ∈ (mv₀.versions k).entries,
      v.txVersion ≠ ⟨t.txIndex, retryCounts t.txIndex⟩) :
    BatchResult executorFn state mv₀ tasks retryCounts
      (executeBatch executorFn state tasks retryCounts schedule mv₀) := by
  set workers := tasks.map fun t => startWorker executorFn (retryCounts t.txIndex) t
    with hworkers
  have hinit : BatchInv executorFn state mv₀ (mv₀, workers) := by
    refine ⟨?_, ?_, ?_, ?_, ?_, ?_, fun _ _ => rfl⟩
    · simp [hworkers, startWorker]
    · refine List.Nodup.of_map TxVersion.txIndex ?_
      simpa [hworkers, startWorker, Function.comp_def] using hnodup
    · simpa [hworkers, startWorker] using hfresh
    · simp [hworkers, startWorker, Worker.OnTrack]
    · simp [hworkers, startWorker, Worker.recorded, lastWrite]
    · intro w _ hnew r hr
      rw [hnew] at hr
      cases hr
  have hrun := hinit.schedule schedule
  set s := schedule.foldl (stepWorker state) (mv₀, workers) with hs
  have hjobs : s.2.map Worker.job =
      tasks.map fun t => (t, ⟨t.txIndex, retryCounts t.txIndex⟩) := by
    refine (schedule_jobs _ schedule).trans ?_
    simp only [hworkers, List.map_map]
    rfl
  have hnil : BatchInv executorFn state mv₀ (s.1, [] ++ s.2) := hrun
  obtain ⟨hout, hinv⟩ := finishWorkers_spec hnil
  have hexec : executeBatch executorFn state tasks retryCounts schedule mv₀ =
      finishWorkers state s.2 s.1 := rfl
  -- the workers at the end, read off their tasks
  have hfinished : s.2.map (Worker.finished executorFn state mv₀) = tasks.map fun t =>
      ⟨t, ⟨t.txIndex, retryCounts t.txIndex⟩, .done (speculate executorFn state mv₀ t)⟩ := by
    have hmap := congrArg (List.map fun j : ParallelExecutorTask τ × TxVersion =>
      (⟨j.1, j.2, .done (speculate executorFn state mv₀ j.1)⟩ : Worker κ ν τ)) hjobs
    simp only [List.map_map] at hmap
    exact hmap
  rw [List.nil_append, hfinished] at hinv
  rw [hexec]
  refine ⟨?_, ?_, List.forall_mem_map.1 hinv.reads, fun tv htv => hinv.others tv ?_⟩
  · have hmap := congrArg (List.map fun j : ParallelExecutorTask τ × TxVersion =>
      (⟨j.1, speculate executorFn state mv₀ j.1, j.2⟩ : CachedSpeculativeExecution κ ν τ)) hjobs
    simp only [List.map_map] at hmap
    rw [hout]
    exact hmap
  · intro k v
    rw [hinv.rows]
    simp only [List.mem_map, exists_exists_and_eq_and]
    rfl
  · simp only [List.map_map, List.mem_map, Function.comp_apply, not_exists, not_and]
    exact fun t ht => (htv t ht).symm

end Sxiaum.Parallel
