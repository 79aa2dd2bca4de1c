import Sxiaum.State.Coupling
import Sxiaum.State.ProofSoundness

/-!
# Restarts

A restart rebuilds the tree from the rows. Over runs of typed operations the rebuilt tree has the
root of the tree in memory, unless the run writes two rows whose leaves are at one place, writes
a row directly for which a staged write is pending, or takes changes back while writes are
staged or were staged at the last commit.
-/

namespace Sxiaum

open StateDb StateProgram UndoLog

variable {T : Type} {env : TransitionEnv T} {good : T → Prop} {s : OpenDb T}

/-! ### What a run may do -/

def DbWrite.IsStaged : DbWrite → Prop
  | .applySpeculativeWriteStaged _ _ => True
  | _ => False

/-- No staged write is pending for the rows that are written directly, and the leaves of the rows
that are written are at places of their own. -/
structure Clear (env : TransitionEnv T) (s : OpenDb T) (w : DbWrite) : Prop where
  unstaged : ¬ w.IsStaged → ∀ k ∈ w.touched env s.table, (leafKey env.ops k).isSome = true →
    .state k ∉ s.db.deferredWrites.map Prod.fst
  alone : ∀ k ∈ w.touched env s.table, ∀ k',
    (s.pendingRows k').isSome = true ∨ k' ∈ w.touched env s.table →
      SameLeaf env.ops k k' → k' = k

/-- A write is clear or changes nothing; nothing is staged at a rollback, and `clean` says that
nothing was at the last commit. -/
def DbStep.Clear (env : TransitionEnv T) (clean : Prop) (s : OpenDb T) : DbStep → Prop
  | .write w => (DbStep.write w).next env s = s ∨ Sxiaum.Clear env s w
  | .rollback => s.db.deferredWrites = [] ∧ clean
  | _ => True

def DbStep.Typed : DbStep → Prop
  | .write w => w.Typed
  | .snapshotState => False
  | _ => True

/-- Nothing was staged at the last commit, after another step. -/
def DbStep.clean (step : DbStep) (clean : Prop) (s : OpenDb T) : Prop :=
  match step with
  | .commit => s.db.deferredWrites = []
  | _ => clean

/-- Every step of a run is clear where it is taken. -/
def ClearRun (env : TransitionEnv T) : Prop → OpenDb T → List DbStep → Prop
  | _, _, [] => True
  | clean, s, step :: steps =>
    step.Clear env clean s ∧ ClearRun env (step.clean clean s) (step.next env s) steps

/-! ### Writes -/

section Writes

variable (hlawful : env.ops.Lawful good)

include hlawful

lemma InTree.staged (hin : InTree env.ops good s) {k : StateKey}
    (halone : Alone env.ops s.pendingRows k) (value : Option StateRow) :
    InTree env.ops good
      ((DbStep.write (.applySpeculativeWriteStaged k value)).next env s) := by
  -- the staged write comes last
  have hrows : ∀ t : T, OpenDb.pendingRows ⟨s.table, { s.db with
      tree := t
      deferredWrites := s.db.deferredWrites ++ [(.state k, value.map DbRow.state)] }⟩ =
      Function.update s.pendingRows k value := by
    intro t
    funext k'
    unfold OpenDb.pendingRows
    rw [AList.putAll_append]
    by_cases heq : k' = k
    · subst heq
      rw [Function.update_self]
      apply rowAt_of_lookup
      rw [AList.putAll_cons, AList.putAll_nil, AList.lookup_put, if_pos rfl]
    · rw [Function.update_of_ne heq]
      apply rowAt_congr
      rw [AList.putAll_cons, AList.putAll_nil, AList.lookup_put, if_neg (by simpa using heq)]
  change Ends (applySpeculativeWriteStaged env.ops k value) s fun _ s' =>
    InTree env.ops good s'
  refine (ends_writeLeaf hlawful hin.tree halone value).bind ?_ ?_
  · rintro _ _ ⟨t, rfl, ht⟩
    refine ⟨?_, ?_⟩
    · exact (hrows t).symm ▸ ht
    · exact (hrows t).symm ▸ hin.apart.update halone value
  · rintro e _ rfl
    exact hin

omit hlawful in
lemma InTree.flush (hin : InTree env.ops good s) :
    InTree env.ops good ((DbStep.write .flushStagedWrites).next env s) := by
  change Ends flushStagedWrites s fun _ s' => InTree env.ops good s'
  refine Ends.mono ends_flushStagedWrites ?_
  rintro _ _ ⟨-, log, rfl⟩
  exact ⟨hin.tree, hin.apart⟩

lemma InTree.write (hin : InTree env.ops good s) {w : DbWrite} (hw : w.Typed)
    (hclear : Clear env s w) : InTree env.ops good ((DbStep.write w).next env s) := by
  have hready : ¬ w.IsStaged → CanWrite env.ops good (· ∈ w.touched env s.table) s := fun hdirect =>
    ⟨hin, hclear.unstaged hdirect, hclear.alone⟩
  have hcomposed : ¬ w.IsStaged → w.Composed → InTree env.ops good
      ((DbStep.write w).next env s) := fun hdirect hw =>
    (TreeDb.keeps_perform s.table hw (fun _ => keeps_canWrite_updateAccount hlawful)
      (fun _ _ => keeps_canWrite_setStorage hlawful) (fun _ _ => keeps_canWrite_setRaw rfl _)
      (fun _ _ => keeps_canWrite_setRaw rfl _) keeps_canWrite_updateStateRoot s
      (hready hdirect)).inTree
  cases w with
  | deleteAccount address =>
    exact (ends_canWrite_deleteAccount hlawful (hready id) fun _ hk => hk).inTree
  | applySpeculativeWrite key value =>
    exact (keeps_canWrite_applySpeculativeWrite hlawful (List.mem_singleton_self key) value s
      (hready id)).inTree
  | applySpeculativeWriteStaged key value =>
    exact hin.staged hlawful (fun k' hk' hsame =>
      hclear.alone key (List.mem_singleton_self key) k' (.inl hk') hsame) value
  | flushStagedWrites => exact hin.flush
  | discardStagedWrites | setRaw key row | deleteRaw key | writeBatch changes
  | updateTreeLeaf key value | deleteTreeLeaf key => exact absurd hw id
  | _ => exact hcomposed id trivial

end Writes

/-! ### Runs -/

/-- State keys have state rows. -/
def Fits (k : DbKey) (v : Option DbRow) : Prop := k.IsState → ∀ r, v = some r → ∃ row, r = .state row

/-- The undo log leads back to `base`, and all rows fit their keys. -/
def LogsFrom (base : StateTable) (l : UndoLog DbKey DbRow) (table : StateTable) : Prop :=
  Restores DbKey.IsState base.lookup l table ∧ ∀ k v, table.lookup k = some v → Fits k (some v)

/-- The rows are in the tree; those of the last commit are in its tree, unless something was
staged at the time. -/
structure Coupled (ops : TreeOps T) (good : T → Prop) (clean : Prop) (s : OpenDb T) : Prop where
  inTree : InTree ops good s
  committed : ∃ base : StateTable, Logged (LogsFrom base) Fits s.db.committedTree s ∧
    (∀ k v, base.lookup k = some v → Fits k (some v)) ∧
    (clean → Matches ops good base.rowAt s.db.committedTree ∧ Apart ops base.rowAt)

lemma journal_logsFrom (base : StateTable) : Journal DbKey.IsState Fits (LogsFrom base) :=
  journal_restores.and journal_entries

lemma fits_state (key : StateKey) (value : Option StateRow) :
    Fits (.state key) (value.map DbRow.state) := by
  rintro - r hr
  obtain ⟨row, -, rfl⟩ := Option.map_eq_some_iff.1 hr
  exact ⟨row, rfl⟩

lemma fits_stateRoot (row : DbRow) : Fits .stateRoot (some row) := by
  rintro ⟨key, hkey⟩
  cases hkey

lemma pendingRows_of_unstaged (hstaged : s.db.deferredWrites = []) :
    s.pendingRows = s.table.rowAt := by
  unfold OpenDb.pendingRows
  rw [hstaged, AList.putAll_nil]

section Runs

variable (hlawful : env.ops.Lawful good) {clean : Prop} (h : Coupled env.ops good clean s)

include h

lemma Coupled.commit :
    Coupled env.ops good (s.db.deferredWrites = []) (DbStep.commit.next env s) := by
  obtain ⟨base, hlogged, -, -⟩ := h.committed
  have hrows : (DbStep.commit.next env s).pendingRows = s.pendingRows :=
    pendingRows_congr (sameRows_put_stateRoot s.table _) rfl
  have hin : InTree env.ops good (DbStep.commit.next env s) := by
    refine ⟨?_, ?_⟩
    · rw [hrows]
      exact h.inTree.tree
    · rw [hrows]
      exact h.inTree.apart
  have hfits : ∀ k v, (DbStep.commit.next env s).table.lookup k = some v → Fits k (some v) :=
    ((journal_logsFrom base).put hlogged.log (.inr (by simp [DbKey.IsState]))
      (fits_stateRoot _)).2
  refine ⟨hin, (DbStep.commit.next env s).table, ⟨⟨restores_empty fun _ _ => rfl, hfits⟩,
    hlogged.staged, rfl⟩, hfits, fun hstaged => ?_⟩
  have hmatch := hin.tree
  have hapart := hin.apart
  rw [@pendingRows_of_unstaged T (DbStep.commit.next env s) hstaged] at hmatch hapart
  exact ⟨hmatch, hapart⟩

lemma Coupled.rollback (hstaged : s.db.deferredWrites = [])
    (hclean : clean) : Coupled env.ops good clean (DbStep.rollback.next env s) := by
  obtain ⟨base, hlogged, hbase, hcommitted⟩ := h.committed
  obtain ⟨hmatch, hapart⟩ := hcommitted hclean
  have hlookup : ∀ key, (DbStep.rollback.next env s).table.lookup (.state key) =
      base.lookup (.state key) := by
    intro key
    refine (AList.lookup_put _ _ _ _).trans ?_
    rw [if_neg (by simp)]
    exact hlogged.log.1.lookup_undone ⟨key, rfl⟩
  have hrows : (DbStep.rollback.next env s).pendingRows = base.rowAt := by
    rw [@pendingRows_of_unstaged T (DbStep.rollback.next env s) hstaged]
    exact funext fun key => rowAt_congr (hlookup key)
  refine ⟨⟨?_, ?_⟩, base, ⟨⟨restores_empty ?_, ?_⟩, ?_, rfl⟩, hbase, fun _ => ⟨hmatch, hapart⟩⟩
  · rw [hrows]
    exact hmatch
  · rw [hrows]
    exact hapart
  · rintro _ ⟨key, rfl⟩
    exact hlookup key
  · rintro k v hv ⟨key, rfl⟩
    rw [hlookup key] at hv
    exact hbase _ v hv ⟨key, rfl⟩
  · exact hlogged.staged

include hlawful

lemma Coupled.write {w : DbWrite} (hw : w.Typed) (hclear : (DbStep.write w).Clear env clean s) :
    Coupled env.ops good clean ((DbStep.write w).next env s) := by
  obtain ⟨base, hlogged, hbase, hcommitted⟩ := h.committed
  have hlogged' : Logged (LogsFrom base) Fits s.db.committedTree ((DbStep.write w).next env s) :=
    TreeDb.keeps_logged_perform fits_state (journal_logsFrom base) (by simp [DbKey.IsState])
      (fun root => fits_stateRoot _) (.inl hw) s hlogged
  refine ⟨?_, base, ?_, hbase, ?_⟩
  · rcases hclear with hsame | hclear
    · rw [hsame]
      exact h.inTree
    · exact h.inTree.write hlawful hw hclear
  · rw [hlogged'.committed]
    exact hlogged'
  · rw [hlogged'.committed]
    exact hcommitted

lemma Coupled.next {step : DbStep} (htyped : step.Typed) (hclear : step.Clear env clean s) :
    Coupled env.ops good (step.clean clean s) (step.next env s) := by
  cases step with
  | write w => exact h.write hlawful htyped hclear
  | commit => exact h.commit
  | snapshotState => exact absurd htyped id
  | rollback => exact h.rollback hclear.1 hclear.2

lemma Coupled.run {steps : List DbStep}
    (htyped : ∀ step ∈ steps, step.Typed) (hclear : ClearRun env clean s steps) :
    ∃ clean', Coupled env.ops good clean' (runSteps env s steps) := by
  induction steps generalizing s clean with
  | nil => exact ⟨clean, h⟩
  | cons step steps ih =>
    obtain ⟨hstep, hsteps⟩ := List.forall_mem_cons.1 htyped
    exact ih (h.next hlawful hstep hclear.1) hsteps hclear.2

omit h

lemma coupled_emptyDb : Coupled env.ops good True (emptyDb env.ops) := by
  have hrows : (emptyDb env.ops).pendingRows = fun _ => none := rfl
  have hmatch : Matches env.ops good (fun _ => none) env.ops.new := matches_new hlawful
  have hapart : Apart env.ops fun _ => none := fun k hk => by cases hk
  have hnone : ∀ (k : DbKey) (v : DbRow), (∅ : StateTable).lookup k = some v → Fits k (some v) :=
    fun k v hv => by cases hv
  refine ⟨⟨hmatch, hapart⟩, ∅, ⟨⟨restores_empty fun _ _ => rfl, hnone⟩, ?_, rfl⟩, hnone, ?_⟩
  · exact fun c hc => by cases hc
  · exact fun _ => ⟨hmatch, hapart⟩

/-- After every clear run of typed operations on an empty store, the tree that is rebuilt from
the rows has the root of the tree in memory once nothing is staged. -/
theorem rebuilt_root_eq {steps : List DbStep} (htyped : ∀ step ∈ steps, step.Typed)
    (hclear : ClearRun env True (emptyDb env.ops) steps)
    (hstaged : (runSteps env (emptyDb env.ops) steps).db.deferredWrites = []) :
    Agrees env.ops (runSteps env (emptyDb env.ops) steps) := by
  obtain ⟨clean, h⟩ := (coupled_emptyDb hlawful).run hlawful htyped hclear
  obtain ⟨base, hlogged, -, -⟩ := h.committed
  have hmatch := h.inTree.tree
  have hapart := h.inTree.apart
  rw [pendingRows_of_unstaged hstaged] at hmatch hapart
  obtain ⟨tree, htree⟩ := exists_rebuiltTree hlawful
    (fun _ _ r hr => hlogged.log.2 _ _ hr ⟨_, rfl⟩ r rfl) hmatch.sound hapart
  exact ⟨tree, htree, (matches_of_rebuiltTree hlawful htree).1.root_eq hlawful hmatch⟩

end Runs

/-! ### Runs that go wrong -/

lemma ends_applySpeculativeWrite {ops : TreeOps T} (hlawful : ops.Lawful good)
    (hgood : good s.db.tree) {k : StateKey} {h v : Hash} {row : StateRow}
    (hk : leafKey ops k = some h) (hv : leafValue ops k row = some v) :
    Ends (applySpeculativeWrite ops k (some row)) s fun _ s' => ∃ t, good t ∧
      s' = written ⟨s.table, { s.db with tree := t }⟩ (.state k) (some (.state row)) := by
  have hleaf : Ends (writeLeaf ops k (some row)) s fun x s' => x = .ok () ∧
      ∃ t, s' = ⟨s.table, { s.db with tree := t }⟩ ∧ good t := by
    obtain ⟨t, heq, hgood', -⟩ := exists_updated hlawful hgood h v
    cases k with
    | account address =>
      obtain rfl := Option.some.inj hk
      rw [writeLeaf, ends_bind, ends_liftExcept]
      rcases haccount : decodeAccount row with e | a
      · simp [leafValue, haccount, Except.toOption] at hv
      rcases hhash : ops.accountHash a with e | hash
      · simp [leafValue, haccount, hhash, Except.toOption] at hv
      obtain rfl : hash = v := by simpa [leafValue, haccount, hhash, Except.toOption] using hv
      simp only
      rw [ends_bind, ends_liftExcept, hhash]
      exact ends_changeTree heq hgood'
    | storage address slot =>
      obtain rfl := Option.some.inj hk
      cases row with
      | word value =>
        obtain rfl := Option.some.inj hv
        exact ends_changeTree heq hgood'
      | empty | account _ | code _ | vesting _ => cases hv
    | code _ | vesting _ | blockHash _ => cases hk
  refine Ends.bind_ok hleaf ?_
  rintro _ ⟨t, rfl, ht⟩
  exact ends_setRaw.2 ⟨t, ht, rfl⟩

lemma deferredWrites_commit :
    (DbStep.commit.next env s).db.deferredWrites = s.db.deferredWrites := rfl

lemma deferredWrites_flush :
    ((DbStep.write .flushStagedWrites).next env s).db.deferredWrites = [] := by
  obtain ⟨-, log, hlog⟩ := @ends_flushStagedWrites _ s
  exact congrArg (fun s => s.db.deferredWrites) hlog

/-- A tree whose proof key of a slot is the sum of address and slot. -/
def plainVerkle : TreeOps State.VerkleTree :=
  verkleOps State.plainKzg (fun a => .ok (a.balance + a.nonce)) fun address slot => address + slot

lemma lawful_plainVerkle : plainVerkle.Lawful (State.VerkleTree.Good State.plainKzg) :=
  lawful_verkleOps fun _ => ⟨_, rfl⟩

def stageAccount (address : Address) (balance : ℕ) : DbStep :=
  .write (.applySpeculativeWriteStaged (.account address)
    (some (.account { Account.new address with balance := balance })))

/-- An account that is staged, lands and is committed. -/
theorem rebuilt_root_eq_of_staged :
    Agrees plainVerkle (runSteps (plainEnv plainVerkle) (emptyDb plainVerkle)
      [stageAccount 1 5, .write .flushStagedWrites, .commit]) := by
  refine @rebuilt_root_eq _ (plainEnv plainVerkle) _ lawful_plainVerkle _ ?_ ?_ ?_
  · simp [stageAccount, DbStep.Typed, DbWrite.Typed]
  · refine ⟨.inr ⟨fun hdirect => absurd trivial hdirect, ?_⟩, .inr ⟨?_, ?_⟩, trivial, trivial⟩
    · rintro k hk k' (hk' | hk') -
      · cases hk'
      · rw [List.mem_singleton.1 hk, List.mem_singleton.1 hk']
    · exact fun _ k hk => by cases hk
    · exact fun k hk => by cases hk
  · simp only [runSteps, List.foldl_cons, List.foldl_nil]
    rw [deferredWrites_commit, deferredWrites_flush]

/-- A new account at the proof key of a slot, and a value in the slot. -/
def collidingSteps : List DbStep :=
  [.write (.applySpeculativeWrite (.account 3) (some (.account (Account.new 3)))),
    .write (.applySpeculativeWrite (.storage 1 2) (some (.word 9)))]

/-- Nothing is staged, and there is no tree to restart with. -/
theorem collidingSteps_no_tree : (∀ step ∈ collidingSteps, step.Typed) ∧
    (runSteps (plainEnv plainVerkle) (emptyDb plainVerkle) collidingSteps).db.deferredWrites = [] ∧
    ¬ Agrees plainVerkle (runSteps (plainEnv plainVerkle) (emptyDb plainVerkle) collidingSteps) := by
  obtain ⟨t, ht, hfirst⟩ := @ends_applySpeculativeWrite _ _ (emptyDb plainVerkle) plainVerkle
    lawful_plainVerkle lawful_plainVerkle.good_new (.account 3) 3 0 (.account (Account.new 3)) rfl
    (by decide)
  obtain ⟨t', -, hsecond⟩ := @ends_applySpeculativeWrite _ _ (StateDb.written
    ⟨(emptyDb plainVerkle).table, { (emptyDb plainVerkle).db with tree := t }⟩ (.state (.account 3))
      (some (.state (.account (Account.new 3))))) plainVerkle lawful_plainVerkle ht
    (.storage 1 2) 3 9 (.word 9) rfl rfl
  have hrun : runSteps (plainEnv plainVerkle) (emptyDb plainVerkle) collidingSteps =
      ((StateDb.applySpeculativeWrite plainVerkle (.storage 1 2) (some (.word 9))).run
        ((StateDb.applySpeculativeWrite plainVerkle (.account 3)
          (some (.account (Account.new 3)))).run (emptyDb plainVerkle)).2).2 := rfl
  refine ⟨by simp [collidingSteps, DbStep.Typed, DbWrite.Typed], ?_, ?_⟩
  · rw [hrun, hfirst, hsecond]
    rfl
  · rw [hrun, hfirst, hsecond]
    rintro ⟨tree, htree, -⟩
    -- two rows with one place for their leaves have no tree
    have hapart := (matches_of_rebuiltTree lawful_plainVerkle htree).2
    cases hapart (.account 3) rfl (.storage 1 2) rfl ⟨3, 3, rfl, rfl, rfl⟩

/-- A direct write between a staged write and its landing. -/
example : (plainRun [stageAccount 1 5, payInto 7, .write .flushStagedWrites]).db.tree = [(1, 7)] ∧
    StateDb.rebuiltTree listTree
      (plainRun [stageAccount 1 5, payInto 7, .write .flushStagedWrites]).table = .ok [(1, 5)] := by
  decide +kernel

/-- A rollback between a staged write and its landing. -/
example : (plainRun [stageAccount 1 5, .rollback, .write .flushStagedWrites]).db.tree = [] ∧
    StateDb.rebuiltTree listTree
      (plainRun [stageAccount 1 5, .rollback, .write .flushStagedWrites]).table = .ok [(1, 5)] := by
  decide +kernel

end Sxiaum
