import Sxiaum.State.ProofSoundness

/-!
# Histories of a Verkle tree

A tree that operations have succeeded on is the map that they describe, and its root stands for
that map. An operation that fails keeps the tree if it is a deletion; an insertion or an update
has taken a child out of the root.
-/

namespace Sxiaum.State

open Crypto VerkleNode

namespace VerkleNode

variable {F : Type} {kzg : KzgScheme F} {node node' : VerkleNode} {d index : ℕ}

/-! ### Commitments of nodes -/

section Digest

variable (hinj : Function.Injective2 kzg.commitmentDigest)
  (hzero : ∀ point values, kzg.commitmentDigest point values ≠ 0)

include hzero in
/-- An internal node digests the commitments of its children. -/
lemma Valid.digestedSlots (h : Valid kzg node d) (hd : d < defaultDepth)
    (hindex : index < branchingFactor) :
    (KzgScheme.digestedSlots node.vectorValues)[index]? =
      some ((node.child index).map VerkleNode.commitment) := by
  have hslot : node.vectorValues[index]?.join = (node.child index).map VerkleNode.commitment := by
    rw [join_vectorValues (hindex.trans_eq h.nodeOk.width.symm), h.nodeOk.internal hd, ite_self,
      Option.or_none]
  rw [KzgScheme.digestedSlots]
  split_ifs with hempty
  · rw [List.getElem?_replicate_of_lt hindex]
    cases hc : node.child index with
    | none => rfl
    | some c =>
      rw [hc, Option.map_some, Option.join_eq_some_iff] at hslot
      have hcommit := hempty _ (List.mem_of_getElem? hslot)
      rw [Option.getD_some, (h.child hc).nodeOk.commitment, computeCommitment,
        KzgScheme.computeKzgCommitment_eq] at hcommit
      exact absurd hcommit (hzero _ _)
  · rw [KzgScheme.getElem?_slots _ hindex, hslot]

include hinj in
lemma Valid.digestedSlots_eq (h : Valid kzg node d) (h' : Valid kzg node' d)
    (heq : node.commitment = node'.commitment) :
    KzgScheme.digestedSlots node.vectorValues = KzgScheme.digestedSlots node'.vectorValues := by
  rw [h.nodeOk.commitment, h'.nodeOk.commitment, computeCommitment, computeCommitment,
    KzgScheme.computeKzgCommitment_eq, KzgScheme.computeKzgCommitment_eq] at heq
  exact (hinj heq).2

include hinj hzero in
lemma eq_of_commitment {k : ℕ} (hlen : d + k = defaultDepth) (h : Valid kzg node d)
    (h' : Valid kzg node' d) (heq : node.commitment = node'.commitment) : node = node' := by
  induction k generalizing d node node' with
  | zero =>
    obtain ⟨hvalue, hleaf⟩ := h.nodeOk.leaf hlen.ge
    obtain ⟨hvalue', hleaf'⟩ := h'.nodeOk.leaf hlen.ge
    obtain ⟨v, hv⟩ := Option.isSome_iff_exists.1 hvalue
    obtain ⟨v', hv'⟩ := Option.isSome_iff_exists.1 hvalue'
    refine h.eq_of_children h' ?_ fun index _ => (hleaf index).trans (hleaf' index).symm
    have hslot := digestedSlots_zero h.nodeOk.width hleaf hv
    rw [h.digestedSlots_eq hinj h' heq, digestedSlots_zero h'.nodeOk.width hleaf' hv'] at hslot
    rw [hv, hv']
    split_ifs at hslot <;> simp_all
  | succ k ih =>
    have hd : d < defaultDepth := by omega
    have hvalue := (h.nodeOk.internal hd).trans (h'.nodeOk.internal hd).symm
    refine h.eq_of_children h' hvalue fun index hindex => ?_
    have hslot := h.digestedSlots hzero hd hindex
    rw [h.digestedSlots_eq hinj h' heq, h'.digestedSlots hzero hd hindex,
      Option.some.injEq] at hslot
    cases hc : node.child index <;> cases hc' : node'.child index <;>
      simp only [hc, hc', Option.map_some, Option.map_none, Option.some.injEq,
        reduceCtorEq] at hslot
    · rfl
    · rw [ih (by omega) (h.child hc) (h'.child hc') hslot.symm]

end Digest

end VerkleNode

namespace VerkleTree

variable {F : Type} {kzg : KzgScheme F} {tree tree' : VerkleTree}

/-! ### Failures -/

/-- An operation that fails leaves the tree unchanged if and only if it puts back what it has
taken out of the root. -/
theorem failed_eq_iff (h : Reachable kzg tree) (op : Operation) {e : String}
    (herr : (op.run kzg tree).2 = .error e) : (op.run kzg tree).1 = tree ↔ op.Restores tree := by
  obtain ⟨-, ⟨hok, -⟩ | ⟨-, heq⟩⟩ := h.good.run_cases op (Prod.mk.eta (p := op.run kzg tree)).symm
  · rw [hok] at herr
    cases herr
  · exact heq

def nearKey (last : UInt8) : Key := (Vector.replicate 32 0).set 31 last

def nearTree : VerkleTree :=
  (((new plainKzg).insert plainKzg (nearKey 0) 7).1.insert plainKzg (nearKey 1) 7).1

/-- Deleting a key that a tree of two others does not have. -/
theorem failed_eq_iff_delete : nearTree.get (nearKey 1) = some 7 ∧
    ((Operation.run plainKzg nearTree (.delete (nearKey 2))).1 = nearTree ↔
      (Operation.delete (nearKey 2)).Restores nearTree) := by
  have hreach : Reachable plainKzg nearTree := .insert _ _ (.insert _ _ .new)
  have hnone : nearTree.get (nearKey 2) = none := by decide +kernel
  exact ⟨by decide +kernel, failed_eq_iff hreach (.delete (nearKey 2))
    (congrArg Prod.snd (delete_of_none hreach.good hnone))⟩

/-- Inserting one of its keys again fails and loses the other. -/
theorem insert_again_loses : Reachable plainKzg nearTree ∧ nearTree.get (nearKey 1) = some 7 ∧
    (nearTree.insert plainKzg (nearKey 0) 7).2.toOption = none ∧
    (nearTree.insert plainKzg (nearKey 0) 7).1.get (nearKey 1) = none :=
  ⟨.insert _ _ (.insert _ _ .new), by decide +kernel⟩

/-! ### Histories -/

def batchUpdate (kzg : KzgScheme F) (tree : VerkleTree) (key : Key) :
    Option Hash → VerkleTree × Except String Unit
  | some value =>
    if (tree.get key).isSome then tree.update kzg key value else tree.insert kzg key value
  | none => if (tree.get key).isSome then tree.delete kzg key else (tree, .ok ())

/-- The batch stops at the first entry that fails. -/
def batchCommitmentUpdates (kzg : KzgScheme F) :
    List (Key × Option Hash) → VerkleTree → VerkleTree × Except String Hash
  | [], tree =>
    let tree : VerkleTree := { tree with root := tree.root.refreshCommitment kzg }
    (tree, .ok tree.rootCommitment)
  | (key, value) :: updates, tree =>
    match tree.batchUpdate kzg key value with
    | (tree, .error e) => (tree, .error e)
    | (tree, .ok ()) => batchCommitmentUpdates kzg updates tree

/-- The trees that operations which succeed lead to, with the map that they describe. -/
inductive Built (kzg : KzgScheme F) : VerkleTree → (Key → Option Hash) → Prop
  | new : Built kzg (new kzg) fun _ => none
  | run {tree tree' : VerkleTree} {m : Key → Option Hash} (op : Operation) :
      Built kzg tree m → op.run kzg tree = (tree', .ok ()) →
      Built kzg tree' (Function.update m op.target op.written)
  | batch {tree tree' : VerkleTree} {m : Key → Option Hash} {root : Hash}
      (updates : List (Key × Option Hash)) :
      Built kzg tree m → batchCommitmentUpdates kzg updates tree = (tree', .ok root) →
      Built kzg tree' (updates.foldl (fun m u => Function.update m u.1 u.2) m)

lemma Good.run_ok (h : tree.Good kzg) (op : Operation) (hok : op.run kzg tree = (tree', .ok ())) :
    tree'.Good kzg ∧ tree'.get = Function.update tree.get op.target op.written := by
  obtain ⟨hgood, ⟨-, hget⟩ | ⟨⟨e, he⟩, -⟩⟩ := h.run_cases op hok
  · exact ⟨hgood, funext fun key => (hget key).trans (Function.update_apply ..).symm⟩
  · cases he

lemma Good.batchUpdate_ok (h : tree.Good kzg) {key : Key} {value : Option Hash}
    (hok : tree.batchUpdate kzg key value = (tree', .ok ())) :
    tree'.Good kzg ∧ tree'.get = Function.update tree.get key value := by
  cases value with
  | some value =>
    rw [batchUpdate] at hok
    split_ifs at hok
    · exact h.run_ok (.update key value) hok
    · exact h.run_ok (.insert key value) hok
  | none =>
    rw [batchUpdate] at hok
    split_ifs at hok with hget
    · exact h.run_ok (.delete key) hok
    · obtain ⟨rfl, -⟩ := Prod.mk.inj hok
      rw [Bool.not_eq_true, Option.isSome_eq_false_iff, Option.isNone_iff_eq_none] at hget
      rw [← hget, Function.update_eq_self]
      exact ⟨h, rfl⟩

lemma Good.batch_ok (h : tree.Good kzg) {updates : List (Key × Option Hash)} {root : Hash}
    (hok : batchCommitmentUpdates kzg updates tree = (tree', .ok root)) :
    tree'.Good kzg ∧
      tree'.get = updates.foldl (fun m u => Function.update m u.1 u.2) tree.get := by
  induction updates generalizing tree with
  | nil =>
    rw [batchCommitmentUpdates, h.wellFormed.root.refresh_eq] at hok
    obtain ⟨rfl, -⟩ := Prod.mk.inj hok
    exact ⟨h, rfl⟩
  | cons u updates ih =>
    rw [batchCommitmentUpdates] at hok
    rcases hstep : tree.batchUpdate kzg u.1 u.2 with ⟨t, e | ⟨⟩⟩ <;> rw [hstep] at hok
    · cases hok
    · obtain ⟨hgood, hget⟩ := h.batchUpdate_ok hstep
      rw [List.foldl_cons, ← hget]
      exact ih hgood hok

lemma Built.good {m : Key → Option Hash} (h : Built kzg tree m) : tree.Good kzg ∧ tree.get = m := by
  induction h with
  | new => exact ⟨good_new kzg, funext (get_new kzg)⟩
  | run op _ hok ih =>
    obtain ⟨hgood, rfl⟩ := ih
    exact hgood.run_ok op hok
  | batch updates _ hok ih =>
    obtain ⟨hgood, rfl⟩ := ih
    exact hgood.batch_ok hok

/-- A tree that operations have succeeded on is the map that they describe, and two such trees
have one root if and only if they are the same map. -/
theorem Built.refines (hinj : Function.Injective2 kzg.commitmentDigest)
    (hzero : ∀ point values, kzg.commitmentDigest point values ≠ 0) {m m' : Key → Option Hash}
    (h : Built kzg tree m) (h' : Built kzg tree' m') :
    tree.get = m ∧ (tree.rootCommitment = tree'.rootCommitment ↔ m = m') := by
  obtain ⟨hgood, rfl⟩ := h.good
  obtain ⟨hgood', rfl⟩ := h'.good
  refine ⟨rfl, fun hroot => ?_, fun hget => ?_⟩
  · have heq : tree.root = tree'.root := eq_of_commitment hinj hzero (Nat.zero_add _)
      hgood.wellFormed.root hgood'.wellFormed.root hroot
    funext key
    rw [hgood.wellFormed.get_eq_valueAt, hgood'.wellFormed.get_eq_valueAt, heq,
      hgood.wellFormed.pathIndices_eq, hgood'.wellFormed.pathIndices_eq]
  · rw [hgood.ext hgood' (congrFun hget)]

/-- A zero that has been inserted is seen in the root. -/
theorem Built.refines_zero : ∃ tree : VerkleTree, tree.get (nearKey 0) = some 0 ∧
    tree.rootCommitment ≠ (VerkleTree.new plainKzg).rootCommitment := by
  have hinj : Function.Injective2 plainKzg.commitmentDigest := fun _ _ _ _ h =>
    plainKzg_digestFree.injective h
  have hnew : Built plainKzg (VerkleTree.new plainKzg) fun _ => none := .new
  obtain ⟨tree, hins, -⟩ :=
    @insert_spec _ plainKzg _ (nearKey 0) 0 (good_new plainKzg) (get_new plainKzg (nearKey 0))
  obtain ⟨hget, hroot⟩ := Built.refines hinj (fun _ _ => plainKzg_digestFree.ne_zero)
    (hnew.run (.insert (nearKey 0) 0) hins) hnew
  refine ⟨tree, ?_, fun heq => ?_⟩
  · exact (congrFun hget _).trans (Function.update_self ..)
  · have hmaps := congrFun (hroot.1 heq) (nearKey 0)
    exact absurd hmaps (by simp [Operation.target, Operation.written])

/-! ### Batches -/

lemma Good.exists_batchUpdate (h : tree.Good kzg) (key : Key) (value : Option Hash) :
    ∃ t, tree.batchUpdate kzg key value = (t, .ok ()) := by
  cases value with
  | some value =>
    rw [batchUpdate]
    split_ifs with hget
    · obtain ⟨t, hrun, -⟩ := @update_spec _ kzg tree key value h hget
      exact ⟨t, hrun⟩
    · obtain ⟨t, hrun, -⟩ := @insert_spec _ kzg tree key value h (by simpa using hget)
      exact ⟨t, hrun⟩
  | none =>
    rw [batchUpdate]
    split_ifs with hget
    · obtain ⟨t, hrun, -⟩ := delete_spec h hget
      exact ⟨t, hrun⟩
    · exact ⟨tree, rfl⟩

lemma Good.exists_batch (h : tree.Good kzg) (updates : List (Key × Option Hash)) :
    ∃ t, batchCommitmentUpdates kzg updates tree = (t, .ok t.rootCommitment) := by
  induction updates generalizing tree with
  | nil => exact ⟨_, rfl⟩
  | cons u updates ih =>
    obtain ⟨t, hstep⟩ := h.exists_batchUpdate u.1 u.2
    rw [batchCommitmentUpdates, hstep]
    exact ih (h.batchUpdate_ok hstep).1

/-- A batch goes through on every tree that a caller can have, failed operations included, and
batches that describe one map leave one tree. -/
theorem batch_determined (h : Reachable kzg tree) (updates : List (Key × Option Hash)) :
    ∃ t, batchCommitmentUpdates kzg updates tree = (t, .ok t.rootCommitment) ∧
      t.get = updates.foldl (fun m u => Function.update m u.1 u.2) tree.get ∧
      ∀ updates' : List (Key × Option Hash),
        updates'.foldl (fun m u => Function.update m u.1 u.2) tree.get = t.get →
          batchCommitmentUpdates kzg updates' tree = (t, .ok t.rootCommitment) := by
  obtain ⟨t, hrun⟩ := h.good.exists_batch updates
  obtain ⟨hgood, hget⟩ := h.good.batch_ok hrun
  refine ⟨t, hrun, hget, fun updates' hsame => ?_⟩
  obtain ⟨t', hrun'⟩ := h.good.exists_batch updates'
  obtain ⟨hgood', hget'⟩ := h.good.batch_ok hrun'
  rw [hgood.ext hgood' fun key => by rw [hget', hsame]]
  exact hrun'

/-- A key that is written and taken out again leaves what no update leaves. -/
theorem batch_determined_undone : ∃ t,
    batchCommitmentUpdates plainKzg [(nearKey 2, some 7), (nearKey 2, none)] nearTree =
      (t, .ok t.rootCommitment) ∧
    batchCommitmentUpdates plainKzg [] nearTree = (t, .ok t.rootCommitment) := by
  have hnear : Reachable plainKzg nearTree := .insert _ _ (.insert _ _ .new)
  obtain ⟨t, hrun, hget, hsame⟩ :=
    batch_determined hnear [(nearKey 2, some 7), (nearKey 2, none)]
  refine ⟨t, hrun, hsame [] ?_⟩
  have hfree : nearTree.get (nearKey 2) = none := by decide +kernel
  simp [hget, ← hfree]

end VerkleTree

end Sxiaum.State
