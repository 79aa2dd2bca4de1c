import Sxiaum.State.StateDb

/-!
# Writes that are marked

Every write of the state database marks its key first. What a property of the undo log and the
table needs to survive all of them is a `Journal`; the lemmas take the programs of the database
apart into marks and writes to marked keys. A program that fails has made some of its writes.
-/

namespace Sxiaum

open StateProgram UndoLog

variable {T : Type} {ops : TreeOps T} {committed : T} {K : DbKey → Prop}
  {ok : DbKey → Option DbRow → Prop} {I : UndoLog DbKey DbRow → StateTable → Prop}

/-- What the writes of a database keep: a property of its log and its table, the kind of its
staged writes, and the tree of the last commit. -/
structure Logged (I : UndoLog DbKey DbRow → StateTable → Prop) (ok : DbKey → Option DbRow → Prop)
    (committed : T) (s : OpenDb T) : Prop where
  log : I s.db.toUndoLog s.table
  staged : ∀ c ∈ s.db.deferredWrites, ok c.1 c.2
  committed : s.db.committedTree = committed

/-- Some keys are marked as well. -/
def Marked (I : UndoLog DbKey DbRow → StateTable → Prop) (ks : List DbKey)
    (l : UndoLog DbKey DbRow) (table : StateTable) : Prop :=
  I l table ∧ ∀ k ∈ ks, k ∈ l.dirtyKeys

/-- Marked keys stay marked. -/
lemma journal_marked (hI : Journal K ok I) (ks : List DbKey) : Journal K ok (Marked I ks) where
  mark k h := ⟨hI.mark k h.1, fun k' hk' => dirtyKeys_subset_mark (h.2 k' hk')⟩
  put h hk hok := ⟨hI.put h.1 hk hok, h.2⟩

lemma Logged.mono {J : UndoLog DbKey DbRow → StateTable → Prop} {s : OpenDb T}
    (h : Logged I ok committed s) (hIJ : ∀ l table, I l table → J l table) :
    Logged J ok committed s := ⟨hIJ _ _ h.log, h.staged, h.committed⟩

lemma Logged.of_marked {ks : List DbKey} {s : OpenDb T} (h : Logged (Marked I ks) ok committed s) :
    Logged I ok committed s := h.mono fun _ _ hI => hI.1

namespace StateDb

/-! ### Marks -/

/-- A program that marks a key if it does not fail, and makes marked writes only. -/
def Marks (K : DbKey → Prop) (ok : DbKey → Option DbRow → Prop) (p : DbProgram T Unit)
    (k : DbKey) : Prop :=
  ∀ (I : UndoLog DbKey DbRow → StateTable → Prop) (committed : T), Journal K ok I →
    ∀ s, Logged I ok committed s → Ends p s fun x s' =>
      Logged I ok committed s' ∧ (x = .ok () → k ∈ s'.db.dirtyKeys)

lemma marks_markDirty (key : DbKey) : Marks K ok (markDirty key : DbProgram T Unit) key :=
  fun _ _ hI _ h => ⟨⟨hI.mark key h.log, h.staged, h.committed⟩, fun _ => mem_dirtyKeys_mark⟩

/-- What follows a mark may change the row. -/
lemma Marks.keeps_bind {α : Type} {p : DbProgram T Unit} {key : DbKey} {q : Unit → DbProgram T α}
    (hp : Marks K ok p key) (hI : Journal K ok I)
    (hq : Keeps (Logged (Marked I [key]) ok committed) (q ())) :
    Keeps (Logged I ok committed) (p >>= q) := by
  intro s h
  refine (hp I committed hI s h).bind (fun _ s₁ h₁ => ?_) fun _ _ h₁ => h₁.1
  refine Ends.mono (hq s₁ ⟨⟨h₁.1.log, ?_⟩, h₁.1.staged, h₁.1.committed⟩) fun _ _ => Logged.of_marked
  simpa using h₁.2 rfl

/-- The same for a list of marks. -/
lemma keeps_forM_marks {α β : Type} {xs : List β} {f : β → DbProgram T Unit} {key : β → DbKey}
    {q : Unit → DbProgram T α} (hf : ∀ x ∈ xs, Marks K ok (f x) (key x)) (hI : Journal K ok I)
    (hq : Keeps (Logged (Marked I (xs.map key)) ok committed) (q ())) :
    Keeps (Logged I ok committed) (xs.forM f >>= q) := by
  induction xs generalizing I with
  | nil =>
    intro s h
    refine Ends.mono (hq s ⟨⟨h.log, fun k hk => ?_⟩, h.staged, h.committed⟩)
      fun _ _ => Logged.of_marked
    cases hk
  | cons x xs ih =>
    obtain ⟨hx, hxs⟩ := List.forall_mem_cons.1 hf
    have hcons : (x :: xs).forM f = f x >>= fun _ => xs.forM f := rfl
    rw [hcons, bind_assoc]
    refine hx.keeps_bind hI (ih hxs (journal_marked hI _) fun s h => ?_)
    refine Ends.mono (hq s (h.mono ?_)) fun _ _ h' => h'.mono ?_
    · rintro l table ⟨⟨hlog, hkey⟩, hkeys⟩
      exact ⟨hlog, List.forall_mem_cons.2 ⟨hkey _ (List.mem_singleton_self _), hkeys⟩⟩
    · rintro l table ⟨hlog, hkeys⟩
      obtain ⟨hkey, hkeys⟩ := List.forall_mem_cons.1 hkeys
      exact ⟨⟨hlog, fun k hk => List.mem_singleton.1 hk ▸ hkey⟩, hkeys⟩

section Writes

variable (hI : Journal K ok I)

include hI

variable {key : DbKey}

/-- A row is only put where it is marked or not journaled. -/
lemma keeps_statePut {row : DbRow} (hok : ok key (some row))
    (hkey : (∀ l table, I l table → key ∈ l.dirtyKeys) ∨ ¬ K key) :
    Keeps (Logged I ok committed) (statePut key row : DbProgram T Unit) :=
  keeps_modify fun _ h =>
    ⟨hI.put h.log (hkey.imp_left fun hmarked => hmarked _ _ h.log) hok, h.staged, h.committed⟩

lemma keeps_stateDelete (hok : ok key none) (hkey : ∀ l table, I l table → key ∈ l.dirtyKeys) :
    Keeps (Logged I ok committed) (stateDelete key : DbProgram T Unit) :=
  keeps_modify fun _ h =>
    ⟨hI.put h.log (.inl (hkey _ _ h.log)) hok, h.staged, h.committed⟩

variable {changes : List (DbKey × Option DbRow)}

lemma keeps_atomicStateCommit (hok : ∀ c ∈ changes, ok c.1 c.2)
    (hkeys : ∀ c ∈ changes, ∀ l table, I l table → c.1 ∈ l.dirtyKeys) :
    Keeps (Logged I ok committed) (atomicStateCommit changes : DbProgram T Unit) :=
  keeps_modify fun _ h =>
    ⟨hI.putAll h.log (fun c hc => hkeys c hc _ _ h.log) hok, h.staged, h.committed⟩

lemma keeps_setRaw {row : DbRow} (hok : ok key (some row)) :
    Keeps (Logged I ok committed) (setRaw key row : DbProgram T Unit) :=
  (marks_markDirty key).keeps_bind hI
    (keeps_statePut (journal_marked hI _) hok (.inl fun _ _ h => h.2 key (by simp)))

lemma keeps_deleteRaw (hok : ok key none) :
    Keeps (Logged I ok committed) (deleteRaw key : DbProgram T Unit) :=
  (marks_markDirty key).keeps_bind hI
    (keeps_stateDelete (journal_marked hI _) hok fun _ _ h => h.2 key (by simp))

/-- A batch marks all its keys before it writes. -/
lemma keeps_writeBatch (hok : ∀ c ∈ changes, ok c.1 c.2) :
    Keeps (Logged I ok committed) (writeBatch changes : DbProgram T Unit) :=
  keeps_forM_marks (fun c _ => marks_markDirty c.1) hI
    (keeps_atomicStateCommit (journal_marked hI _) hok fun c hc _ _ h =>
      h.2 c.1 (List.mem_map_of_mem hc))

omit hI

/-- One row written, and its old value logged. -/
def written (s : OpenDb T) (key : DbKey) (row : Option DbRow) : OpenDb T where
  table := s.table.put key row
  db := { s.db with toUndoLog := s.db.mark s.table key }

variable {s : OpenDb T} {Q : Except ExecutionError Unit → OpenDb T → Prop}

lemma ends_markDirty :
    Ends (markDirty key) s Q ↔
      Q (.ok ()) ⟨s.table, { s.db with toUndoLog := s.db.mark s.table key }⟩ := Iff.rfl

lemma ends_forM_markDirty (changes : List (DbKey × Option DbRow)) :
    Ends (changes.forM fun c => markDirty c.1 : DbProgram T Unit) s fun x s' =>
      x = .ok () ∧ ∃ log, s' = ⟨s.table, { s.db with toUndoLog := log }⟩ := by
  induction changes generalizing s with
  | nil => exact ⟨rfl, s.db.toUndoLog, rfl⟩
  | cons c changes ih =>
    refine Ends.bind_ok (ends_markDirty.2 ⟨rfl, rfl⟩) ?_
    rintro _ rfl
    exact ih

lemma ends_atomicStateCommit :
    Ends (atomicStateCommit changes) s Q ↔ Q (.ok ()) ⟨s.table.putAll changes, s.db⟩ := Iff.rfl

/-- Every staged row lands, and nothing stays staged. -/
lemma ends_flushStagedWrites :
    Ends (flushStagedWrites : DbProgram T Unit) s fun x s' => x = .ok () ∧
      ∃ log, s' = ⟨s.table.putAll s.db.deferredWrites,
        { s.db with toUndoLog := log, deferredWrites := [] }⟩ := by
  rw [flushStagedWrites, ends_bind, ends_get]
  simp only
  rw [ends_bind, ends_set]
  simp only
  split_ifs with hnone
  · rw [hnone]
    exact ⟨rfl, s.db.toUndoLog, rfl⟩
  · refine Ends.bind_ok (ends_forM_markDirty _) ?_
    rintro _ ⟨log, rfl⟩
    exact ends_atomicStateCommit.2 ⟨rfl, log, rfl⟩

lemma ends_setRaw {row : DbRow} :
    Ends (setRaw key row) s Q ↔ Q (.ok ()) (written s key (some row)) := Iff.rfl

lemma ends_deleteRaw : Ends (deleteRaw key) s Q ↔ Q (.ok ()) (written s key none) := Iff.rfl

/-! ### Leaves and staged writes -/

/-- The journal does not look at the tree. -/
lemma keeps_changeTree (f : T → T × Except String Unit) :
    Keeps (Logged I ok committed) (changeTree f) := by
  intro s h
  rw [changeTree, ends_bind, ends_get]
  simp only
  rw [ends_bind, ends_set]
  exact ends_liftExcept.2 ⟨h.log, h.staged, h.committed⟩

lemma keeps_updateTreeLeaf (key value : Hash) :
    Keeps (Logged I ok committed) (updateTreeLeaf ops key value) := keeps_changeTree _

lemma keeps_deleteTreeLeaf (key : Hash) :
    Keeps (Logged I ok committed) (deleteTreeLeaf ops key) := keeps_changeTree _

lemma keeps_writeLeaf (key : StateKey) (value : Option StateRow) :
    Keeps (Logged I ok committed) (writeLeaf ops key value) := by
  unfold writeLeaf
  split
  · exact keeps_changeTree _
  · exact (keeps_liftExcept _).bind fun _ => (keeps_liftExcept _).bind fun _ => keeps_changeTree _
  · exact keeps_changeTree _
  · exact keeps_changeTree _
  · exact keeps_throw _
  · exact keeps_pure _

/-- The leaf of a row can be written, on some tree. -/
def LeafWritable (ops : TreeOps T) (key : StateKey) (value : Option StateRow) : Prop :=
  ∃ s s', Runs (writeLeaf ops key value) s () s'

/-- If the leaf is written, the row fits it. -/
lemma ends_writeLeaf_logged {key : StateKey} {value : Option StateRow}
    (h : Logged I ok committed s) :
    Ends (writeLeaf ops key value) s fun x s' =>
      Logged I ok committed s' ∧ (x = .ok () → LeafWritable ops key value) := by
  refine ⟨keeps_writeLeaf key value s h, fun hok => ?_⟩
  exact ⟨s, ((writeLeaf ops key value).run s).2, Prod.ext hok rfl⟩

/-- A write is staged once its leaf is written. -/
lemma keeps_applySpeculativeWriteStaged {key : StateKey} {value : Option StateRow}
    (hok : LeafWritable ops key value → ok (.state key) (value.map DbRow.state)) :
    Keeps (Logged I ok committed) (applySpeculativeWriteStaged ops key value) := by
  intro s h
  refine (ends_writeLeaf_logged h).bind (fun _ s₁ h₁ => ?_) fun _ _ h₁ => h₁.1
  refine ⟨h₁.1.log, fun c hc => ?_, h₁.1.committed⟩
  rcases List.mem_append.1 hc with hc | hc
  · exact h₁.1.staged c hc
  · obtain rfl := List.mem_singleton.1 hc
    exact hok (h₁.2 rfl)

lemma keeps_discardStagedWrites :
    Keeps (Logged I ok committed) (discardStagedWrites : DbProgram T Unit) :=
  keeps_modify fun _ h => ⟨h.log, fun _ hc => absurd hc List.not_mem_nil, h.committed⟩

include hI

lemma keeps_applySpeculativeWrite {key : StateKey} {value : Option StateRow}
    (hok : LeafWritable ops key value → ok (.state key) (value.map DbRow.state)) :
    Keeps (Logged I ok committed) (applySpeculativeWrite ops key value) := by
  intro s h
  refine (ends_writeLeaf_logged h).bind (fun _ s₁ h₁ => ?_) fun _ _ h₁ => h₁.1
  have hok := hok (h₁.2 rfl)
  cases value with
  | none => exact keeps_deleteRaw hI hok s₁ h₁.1
  | some row => exact keeps_setRaw hI hok s₁ h₁.1

lemma keeps_flushStagedWrites :
    Keeps (Logged I ok committed) (flushStagedWrites : DbProgram T Unit) := by
  intro s h
  rw [flushStagedWrites, ends_bind, ends_get]
  simp only
  rw [ends_bind, ends_set]
  have hnone : Logged I ok committed (⟨s.table, { s.db with deferredWrites := [] }⟩ : OpenDb T) :=
    ⟨h.log, fun _ hc => absurd hc List.not_mem_nil, h.committed⟩
  simp only
  split_ifs
  · exact hnone
  · exact keeps_writeBatch hI h.staged _ hnone

/-- The root row is not journaled. -/
lemma keeps_updateStateRoot (hroot : ¬ K .stateRoot)
    (hok : ∀ root, ok .stateRoot (some (.hash root))) :
    Keeps (Logged I ok committed) (updateStateRoot ops) :=
  (keeps_get.bind fun _ => keeps_pure _).bind fun root =>
    (keeps_statePut hI (hok root) (.inr hroot)).bind fun _ => keeps_pure _

end Writes

end StateDb

end Sxiaum
