import Sxiaum.State.Leaves
import Sxiaum.State.Rollback

/-!
# Rows and tree in step

The operations of the state database change a row and its leaf one after the other. `InTree`
says that the tree has the leaves of the rows, the staged ones included. Every typed operation
keeps it as long as no two rows share the place of their leaf, no row with a staged write is
written directly, and a rollback does not come while writes are staged.
-/

namespace Sxiaum

open StateDb StateProgram TreeDb UndoLog

variable {T : Type} {ops : TreeOps T} {good : T → Prop} {s s' : OpenDb T} {K : StateKey → Prop}
  {k : StateKey} {h v : Hash} {rows : StateKey → Option StateRow}

/-! ### Rows that are staged or have landed -/

/-- The state rows as they are once the staged writes have landed. -/
def OpenDb.pendingRows (s : OpenDb T) : StateKey → Option StateRow :=
  StateTable.rowAt (s.table.putAll s.db.deferredWrites)

lemma rowAt_congr {t t' : StateTable} (h : t.lookup (.state k) = t'.lookup (.state k)) :
    t.rowAt k = t'.rowAt k := by
  unfold StateTable.rowAt
  rw [h]

variable {row : Option StateRow}

lemma rowAt_of_lookup {t : StateTable}
    (h : t.lookup (.state k) = row.map DbRow.state) : t.rowAt k = row := by
  unfold StateTable.rowAt
  rw [h]
  cases row <;> rfl

/-- The tree has the leaves of the rows, each at a place of its own. -/
structure InTree (ops : TreeOps T) (good : T → Prop) (s : OpenDb T) : Prop where
  tree : Matches ops good s.pendingRows s.db.tree
  apart : Apart ops s.pendingRows

/-- The keys in `K` can be written: they have no staged writes, and no other key that has a row
or may get one has its leaf at their place. -/
structure Free (ops : TreeOps T) (K : StateKey → Prop) (s : OpenDb T) : Prop where
  unstaged : ∀ k, K k → (leafKey ops k).isSome = true →
    .state k ∉ s.db.deferredWrites.map Prod.fst
  alone : ∀ k, K k → ∀ k', (s.pendingRows k').isSome = true ∨ K k' → SameLeaf ops k k' → k' = k

/-- The rows are in the tree, and the keys in `K` can be written. -/
structure CanWrite (ops : TreeOps T) (good : T → Prop) (K : StateKey → Prop) (s : OpenDb T) :
    Prop where
  inTree : InTree ops good s
  free : Free ops K s

lemma Free.alone_pending (hfree : Free ops K s) (hk : K k) : Alone ops s.pendingRows k :=
  fun k' hk' => hfree.alone k hk k' (.inl hk')

/-- The tree has the rows again, and those that are new are at keys that can be written. -/
lemma CanWrite.change (hready : CanWrite ops good K s)
    (hrows : ∀ k, (leafKey ops k).isSome = true → (s'.pendingRows k).isSome = true →
      (s.pendingRows k).isSome = true ∨ K k)
    (hstaged : s'.db.deferredWrites = s.db.deferredWrites)
    (htree : Matches ops good s'.pendingRows s'.db.tree) : CanWrite ops good K s' := by
  refine ⟨⟨htree, fun k hk k' hk' hsame => ?_⟩, ?_, fun k hk k' hk' hsame => ?_⟩
  · have hrow' := hrows k' hsame.right_isSome hk'
    rcases hrows k hsame.symm.right_isSome hk with hrow | hin
    · rcases hrow' with hrow' | hin'
      · exact hready.inTree.apart k hrow k' hrow' hsame
      · exact (hready.free.alone k' hin' k (.inl hrow) hsame.symm).symm
    · exact hready.free.alone k hin k' hrow' hsame
  · rw [hstaged]
    exact hready.free.unstaged
  · refine hready.free.alone k hk k' ?_ hsame
    exact hk'.elim (hrows k' hsame.right_isSome) .inr

lemma CanWrite.congr (hready : CanWrite ops good K s)
    (hrows : ∀ k, (leafKey ops k).isSome = true → s'.pendingRows k = s.pendingRows k)
    (hstaged : s'.db.deferredWrites = s.db.deferredWrites) (htree : s'.db.tree = s.db.tree) :
    CanWrite ops good K s' := by
  refine hready.change (fun k hk hsome => .inl (hrows k hk ▸ hsome)) hstaged ?_
  rw [htree]
  exact hready.inTree.tree.congr fun k hk => (hrows k hk).symm

lemma Free.pendingRows_put (hfree : Free ops K s) (hk : K k)
    (htable : s'.table = s.table.put (.state k) (row.map DbRow.state))
    (hstaged : s'.db.deferredWrites = s.db.deferredWrites) {k' : StateKey}
    (hk' : (leafKey ops k').isSome = true) :
    s'.pendingRows k' = Function.update s.pendingRows k row k' := by
  unfold OpenDb.pendingRows
  rw [hstaged, htable]
  by_cases heq : k' = k
  · subst heq
    rw [Function.update_self]
    apply rowAt_of_lookup
    rw [AList.lookup_putAll_of_notMem (hfree.unstaged k' hk hk'), AList.lookup_put, if_pos rfl]
  · rw [Function.update_of_ne heq]
    refine rowAt_congr (AList.lookup_putAll_congr ?_ _)
    rw [AList.lookup_put, if_neg (by simpa using heq)]

lemma CanWrite.put (hready : CanWrite ops good K s) (hk : K k) (row : Option StateRow)
    (htable : s'.table = s.table.put (.state k) (row.map DbRow.state))
    (hstaged : s'.db.deferredWrites = s.db.deferredWrites)
    (htree : Matches ops good (Function.update s.pendingRows k row) s'.db.tree) :
    CanWrite ops good K s' := by
  refine hready.change (fun k' hk' hsome => ?_) hstaged
    (htree.congr fun k' hk' => (hready.free.pendingRows_put hk htable hstaged hk').symm)
  rw [hready.free.pendingRows_put hk htable hstaged hk'] at hsome
  rcases isSome_of_update hsome with rfl | hrow
  · exact .inr hk
  · exact .inl hrow

/-! ### Leaves -/

section Leaves

variable (hlawful : ops.Lawful good)

include hlawful

lemma exists_updated {t : T} (hgood : good t) (h v : Hash) :
    ∃ t', (if (ops.get t h).isSome then ops.update t h v else ops.insert t h v) = (t', .ok ()) ∧
      good t' ∧ ops.Sets t t' h (some v) := by
  split_ifs with hsome
  · exact hlawful.update v hgood hsome
  · exact hlawful.insert_free v hgood (by simpa using hsome)

lemma exists_deleted {t : T} (hgood : good t) (h : Hash) :
    ∃ t', (if (ops.get t h).isSome then ops.delete t h else (t, .ok ())) = (t', .ok ()) ∧
      good t' ∧ ops.Sets t t' h none := by
  split_ifs with hsome
  · exact hlawful.delete hgood hsome
  · refine ⟨t, rfl, hgood, fun k' => ?_⟩
    split_ifs with hbytes
    · rw [hlawful.get_congr _ hbytes]
      simpa using hsome
    · rfl

omit hlawful in
lemma ends_changeTree {f : T → T × Except String Unit} {t : T} (hf : f s.db.tree = (t, .ok ()))
    {P : T → Prop} (ht : P t) :
    Ends (changeTree f) s fun x s' => x = .ok () ∧
      ∃ t, s' = ⟨s.table, { s.db with tree := t }⟩ ∧ P t := by
  rw [changeTree, ends_bind, ends_get]
  simp only
  rw [ends_bind, ends_set]
  simp only
  rw [hf]
  exact ⟨rfl, t, rfl, ht⟩

lemma ends_updateTreeLeaf (hmatch : Matches ops good rows s.db.tree) (hk : leafKey ops k = some h)
    {row : StateRow} (hv : leafValue ops k row = some v) (halone : Alone ops rows k) :
    Ends (updateTreeLeaf ops h v) s fun x s' => x = .ok () ∧
      ∃ t, s' = ⟨s.table, { s.db with tree := t }⟩ ∧
        Matches ops good (Function.update rows k (some row)) t := by
  obtain ⟨t, heq, hgood, hsets⟩ := exists_updated hlawful hmatch.good h v
  exact ends_changeTree heq (hmatch.set hgood hk hv hsets halone)

lemma ends_deleteTreeLeaf (hmatch : Matches ops good rows s.db.tree) (hk : leafKey ops k = some h)
    (halone : Alone ops rows k) :
    Ends (deleteTreeLeaf ops h) s fun x s' => x = .ok () ∧
      ∃ t, s' = ⟨s.table, { s.db with tree := t }⟩ ∧
        Matches ops good (Function.update rows k none) t := by
  obtain ⟨t, heq, hgood, hsets⟩ := exists_deleted hlawful hmatch.good h
  exact ends_changeTree heq (hmatch.clear hgood hk hsets halone)

omit hlawful

/-- The leaf of a row has been written or removed, or nothing has happened. -/
def LeafWritten (ops : TreeOps T) (good : T → Prop) (rows : StateKey → Option StateRow)
    (k : StateKey) (row : Option StateRow) (s : OpenDb T) (x : Except ExecutionError Unit)
    (s' : OpenDb T) : Prop :=
  match x with
  | .ok _ => ∃ t, s' = ⟨s.table, { s.db with tree := t }⟩ ∧
      Matches ops good (Function.update rows k row) t
  | .error _ => s' = s

lemma leafWritten_of_ends {p : DbProgram T Unit} {row : Option StateRow}
    (hends : Ends p s fun x s' => x = .ok () ∧ ∃ t, s' = ⟨s.table, { s.db with tree := t }⟩ ∧
      Matches ops good (Function.update rows k row) t) :
    Ends p s (LeafWritten ops good rows k row s) := by
  refine Ends.mono hends ?_
  rintro _ s' ⟨rfl, hrest⟩
  exact hrest

include hlawful

lemma ends_writeLeaf (hmatch : Matches ops good rows s.db.tree) (halone : Alone ops rows k)
    (value : Option StateRow) :
    Ends (writeLeaf ops k value) s (LeafWritten ops good rows k value s) := by
  cases k with
  | account address =>
    cases value with
    | none => exact leafWritten_of_ends (ends_deleteTreeLeaf hlawful hmatch rfl halone)
    | some row =>
      rw [writeLeaf, ends_bind, ends_liftExcept]
      rcases haccount : decodeAccount row with e | a
      · rfl
      obtain ⟨hash, hhash⟩ := hlawful.hashes a
      have hvalue : leafValue ops (.account address) row = some hash := by
        simp [leafValue, haccount, hhash, Except.toOption]
      simp only
      rw [ends_bind, ends_liftExcept, hhash]
      exact leafWritten_of_ends (ends_updateTreeLeaf hlawful hmatch rfl hvalue halone)
  | storage address slot =>
    cases value with
    | none => exact leafWritten_of_ends (ends_deleteTreeLeaf hlawful hmatch rfl halone)
    | some row =>
      cases row with
      | word value => exact leafWritten_of_ends (ends_updateTreeLeaf hlawful hmatch rfl rfl halone)
      | empty | account _ | code _ | vesting _ => rfl
  | code _ | vesting _ | blockHash _ => exact ⟨s.db.tree, rfl, hmatch.update rfl value⟩

end Leaves

/-! ### Operations -/

lemma pendingRows_congr (hrows : SameRows s.table s'.table)
    (hstaged : s'.db.deferredWrites = s.db.deferredWrites) : s'.pendingRows = s.pendingRows := by
  funext k
  unfold OpenDb.pendingRows
  rw [hstaged]
  exact rowAt_congr (AList.lookup_putAll_congr (hrows k) _)

section Operations

variable (hlawful : ops.Lawful good)

lemma keeps_canWrite_updateStateRoot : Keeps (CanWrite ops good K) (updateStateRoot ops) := by
  intro s hready
  refine hready.congr (fun k _ => ?_) rfl rfl
  refine rowAt_congr (AList.lookup_putAll_congr ?_ _)
  exact sameRows_put_stateRoot _ _ k

lemma keeps_canWrite_setRaw (hk : leafKey ops k = none) (row : StateRow) :
    Keeps (CanWrite ops good K) (setRaw (.state k) (.state row)) := by
  intro s hready
  refine hready.congr (fun k' hk' => ?_) rfl rfl
  have hne : k' ≠ k := by
    rintro rfl
    rw [hk] at hk'
    cases hk'
  refine rowAt_congr (AList.lookup_putAll_congr ?_ _)
  exact (AList.lookup_put _ _ _ _).trans (if_neg (by simpa using hne))

include hlawful

lemma CanWrite.ends_updateTreeLeaf (hready : CanWrite ops good K s) (hk : K k)
    (hleaf : leafKey ops k = some h) {row : StateRow} (hv : leafValue ops k row = some v)
    (htable : s'.table = s.table.put (.state k) (some (.state row)))
    (hstaged : s'.db.deferredWrites = s.db.deferredWrites) (htree : s'.db.tree = s.db.tree) :
    Ends (updateTreeLeaf ops h v) s' fun _ s'' => CanWrite ops good K s'' := by
  have hmatch : Matches ops good s.pendingRows s'.db.tree := htree ▸ hready.inTree.tree
  refine Ends.mono (Sxiaum.ends_updateTreeLeaf hlawful hmatch hleaf hv
    (hready.free.alone_pending hk)) ?_
  rintro _ _ ⟨-, t, rfl, ht⟩
  exact hready.put hk (some row) htable hstaged ht

lemma CanWrite.ends_deleteTreeLeaf (hready : CanWrite ops good K s) (hk : K k)
    (hleaf : leafKey ops k = some h) (htable : s'.table = s.table.put (.state k) none)
    (hstaged : s'.db.deferredWrites = s.db.deferredWrites) (htree : s'.db.tree = s.db.tree) :
    Ends (deleteTreeLeaf ops h) s' fun _ s'' => CanWrite ops good K s'' := by
  have hmatch : Matches ops good s.pendingRows s'.db.tree := htree ▸ hready.inTree.tree
  refine Ends.mono (Sxiaum.ends_deleteTreeLeaf hlawful hmatch hleaf
    (hready.free.alone_pending hk)) ?_
  rintro _ _ ⟨-, t, rfl, ht⟩
  exact hready.put hk none htable hstaged ht

end Operations

section TreeDb

variable {env : TransitionEnv T} (hlawful : env.ops.Lawful good)

include hlawful

variable {address : Address}

lemma keeps_canWrite_updateAccount (hk : K (.account address)) (a : Account) :
    Keeps (CanWrite env.ops good K) (updateAccount env address a) := by
  refine keeps_liftExcept_bind fun _ hvalidate => keeps_ite (keeps_throw _) ?_
  obtain ⟨hash, hhash⟩ := hlawful.hashes a
  have hvalid : a.validate = .ok () := by
    cases hv : a.validate with
    | ok u => rfl
    | error e =>
      rw [hv] at hvalidate
      cases hvalidate
  have hvalue : leafValue env.ops (.account address) (.account a) = some hash := by
    simp [leafValue, decodeAccount, hvalid, hhash, Except.toOption]
  intro s hready
  rw [ends_bind, ends_setRaw]
  simp only
  rw [ends_bind, DbProgram.check, ends_liftExcept, hhash]
  exact hready.ends_updateTreeLeaf hlawful hk rfl hvalue rfl rfl rfl

lemma keeps_canWrite_setStorage {slot : Hash}
    (hslot : K (.storage address slot)) (haccount : K (.account address)) (value : Hash) :
    Keeps (CanWrite env.ops good K) (setStorage env address slot value) := by
  rw [setStorage_eq]
  refine Keeps.bind ?_ fun _ =>
    keeps_refreshStorageRoot (keeps_canWrite_updateAccount hlawful haccount)
  intro s hready
  unfold writeSlot
  split_ifs
  · exact hready.ends_deleteTreeLeaf hlawful hslot rfl rfl rfl rfl
  · exact hready.ends_updateTreeLeaf hlawful hslot rfl rfl rfl rfl rfl

lemma keeps_canWrite_applySpeculativeWrite (hk : K k) (value : Option StateRow) :
    Keeps (CanWrite env.ops good K) (applySpeculativeWrite env.ops k value) := by
  intro s hready
  refine (ends_writeLeaf hlawful hready.inTree.tree (hready.free.alone_pending hk) value).bind ?_ ?_
  · rintro _ _ ⟨t, rfl, ht⟩
    cases value with
    | none => exact ends_deleteRaw.2 (hready.put hk none rfl rfl ht)
    | some row => exact ends_setRaw.2 (hready.put hk (some row) rfl rfl ht)
  · rintro e _ rfl
    exact hready

/-- The rows but for some. -/
def without (ks : List StateKey) (rows : StateKey → Option StateRow) (k : StateKey) :
    Option StateRow := if k ∈ ks then none else rows k

omit hlawful in
lemma without_cons (ks : List StateKey) (rows : StateKey → Option StateRow) (k : StateKey) :
    without (k :: ks) rows = without ks (Function.update rows k none) := by
  funext k'
  by_cases heq : k' = k
  · subst heq
    simp [without]
  · simp [without, heq]

omit hlawful in
lemma isSome_of_without {ks : List StateKey} (hsome : (without ks rows k).isSome = true) :
    (rows k).isSome = true := by
  unfold without at hsome
  split_ifs at hsome
  · cases hsome
  · exact hsome

omit hlawful in
lemma Alone.mono {rows' : StateKey → Option StateRow} (halone : Alone ops rows k)
    (hrows : ∀ k', (rows' k').isSome = true → (rows k').isSome = true) : Alone ops rows' k :=
  fun k' hk' hsame => halone k' (hrows k' hk') hsame

lemma ends_deleteSlots (slots : List Hash) (hmatch : Matches env.ops good rows s.db.tree)
    (halone : ∀ slot ∈ slots, Alone env.ops rows (.storage address slot)) :
    Ends (slots.forM fun slot => do
        deleteTreeLeaf env.ops (env.ops.storageProofKey address slot)
        markDirty (.state (.storage address slot))) s fun x s' =>
      x = .ok () ∧ s'.table = s.table ∧ s'.db.deferredWrites = s.db.deferredWrites ∧
        Matches env.ops good (without (slots.map (.storage address)) rows) s'.db.tree := by
  induction slots generalizing s rows with
  | nil =>
    have hsame : without [] rows = rows := funext fun k => by simp [without]
    refine ⟨rfl, rfl, rfl, ?_⟩
    rw [List.map_nil, hsame]
    exact hmatch
  | cons slot slots ih =>
    obtain ⟨hslot, hslots⟩ := List.forall_mem_cons.1 halone
    refine Ends.bind_ok (a := ()) (P := fun s' => s'.table = s.table ∧
      s'.db.deferredWrites = s.db.deferredWrites ∧
      Matches env.ops good (Function.update rows (.storage address slot) none) s'.db.tree) ?_ ?_
    · refine Ends.bind_ok (ends_deleteTreeLeaf hlawful hmatch rfl hslot) ?_
      rintro _ ⟨t, rfl, ht⟩
      exact ⟨rfl, rfl, rfl, ht⟩
    · rintro s₁ ⟨htable, hstaged, hmatch₁⟩
      refine Ends.mono (ih hmatch₁ fun slot' hslot' => (hslots slot' hslot').mono ?_) ?_
      · intro k' hk'
        by_cases heq : k' = .storage address slot
        · rw [heq, Function.update_self] at hk'
          cases hk'
        · rwa [Function.update_of_ne heq] at hk'
      · rintro x s₂ ⟨hok, htable₂, hstaged₂, hmatch₂⟩
        rw [← without_cons] at hmatch₂
        exact ⟨hok, htable₂.trans htable, hstaged₂.trans hstaged, hmatch₂⟩

omit hlawful in
lemma pendingRows_deleted (hfree : Free ops K s) {ks : List StateKey} (hks : ∀ k ∈ ks, K k)
    (htable : s'.table = s.table.putAll (ks.map fun key => (.state key, none)))
    (hstaged : s'.db.deferredWrites = s.db.deferredWrites) {k : StateKey}
    (hk : (leafKey ops k).isSome = true) : s'.pendingRows k = without ks s.pendingRows k := by
  have hkeys : (ks.map fun key => (DbKey.state key, (none : Option DbRow))) =
      (ks.map DbKey.state).map fun key => (key, none) := by
    rw [List.map_map]
    rfl
  have hmem : DbKey.state k ∈ ks.map DbKey.state ↔ k ∈ ks := by simp
  unfold OpenDb.pendingRows without
  rw [hstaged, htable, hkeys]
  split_ifs with hin
  · refine rowAt_of_lookup ?_
    rw [AList.lookup_putAll_of_notMem (hfree.unstaged k (hks k hin) hk), AList.lookup_putAll_none,
      if_pos (hmem.2 hin)]
    rfl
  · refine rowAt_congr (AList.lookup_putAll_congr ?_ _)
    rw [AList.lookup_putAll_none, if_neg (mt hmem.1 hin)]

lemma ends_canWrite_deleteAccount (hready : CanWrite env.ops good K s)
    (hkeys : ∀ k ∈ accountRows s.table address, K k) :
    Ends (deleteAccount env address) s fun _ s' => CanWrite env.ops good K s' := by
  have hslots : ∀ slot ∈ s.table.scan (slotOf address),
      StateKey.storage address slot ∈ accountRows s.table address := fun slot hslot => by
    simp [accountRows, hslot]
  have haccount : K (.account address) := hkeys _ (by simp [accountRows])
  rw [deleteAccount, ends_bind, ends_markDirty]
  simp only
  rw [ends_bind, ends_get]
  simp only
  refine Ends.bind_ok (ends_deleteSlots hlawful _ hready.inTree.tree fun slot hslot =>
    hready.free.alone_pending (hkeys _ (hslots slot hslot))) ?_
  rintro s₁ ⟨htable₁, hstaged₁, hmatch₁⟩
  refine Ends.bind_ok (a := ()) (P := fun s₂ => s₂.table = s.table ∧
    s₂.db.deferredWrites = s.db.deferredWrites ∧ s₂.db.tree = s₁.db.tree) ?_ ?_
  · unfold markVesting
    split_ifs <;> exact ⟨rfl, htable₁, hstaged₁, rfl⟩
  rintro s₂ ⟨htable₂, hstaged₂, htree₂⟩
  rw [ends_bind, ends_atomicStateCommit]
  simp only
  rw [← htree₂] at hmatch₁
  refine Ends.mono (ends_deleteTreeLeaf (k := .account address) hlawful hmatch₁ rfl
    ((hready.free.alone_pending haccount).mono fun k' hk' => isSome_of_without hk')) ?_
  rintro _ _ ⟨-, t, rfl, ht⟩
  have hrows := fun k' hk' => @pendingRows_deleted T env.ops s ⟨s₂.table.putAll
    ((accountRows s.table address).map fun key => (.state key, none)),
      { s₂.db with tree := t }⟩ K hready.free _ hkeys (by rw [htable₂]) hstaged₂ k' hk'
  refine hready.change ?_ hstaged₂ (ht.congr fun k' hk' => ?_)
  · intro k' hk' hsome
    rw [hrows k' hk'] at hsome
    exact .inl (isSome_of_without hsome)
  · rw [hrows k' hk']
    by_cases heq : k' = .account address
    · rw [heq, Function.update_self, without, if_pos (by simp [accountRows])]
    · rw [Function.update_of_ne heq, without, without]
      refine if_congr ?_ rfl rfl
      -- a vesting schedule has no leaf
      have hvesting : k' ≠ .vesting address := by
        rintro rfl
        cases hk'
      unfold accountRows
      split_ifs <;> simp [heq, hvesting]

end TreeDb

end Sxiaum
