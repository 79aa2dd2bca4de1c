import Sxiaum.State.VerkleTree

/-!
# The contents of a Verkle tree

A tree that has only been changed by operations that succeed has no empty node below its root,
because a deletion takes out the nodes that it empties. Such a tree is determined by the values
of its keys, and so is its root commitment; in which order the keys were written does not matter.
Insertion fails on a key that is there, and then loses a subtree.
-/

namespace Sxiaum.State

open Crypto VerkleNode

namespace VerkleNode

variable {F : Type} {kzg : KzgScheme F} {node node' c : VerkleNode} {d index : ℕ} {path : List ℕ}
  {value : Hash}

/-! ### Values at paths -/

/-- The value below a node on a path. -/
def valueAt (node : VerkleNode) (path : List ℕ) : Option Hash := (node.walk path).bind (·.value)

/-- No node below has become empty. -/
def Dense (node : VerkleNode) : Prop :=
  ∀ index path n, node.walk (index :: path) = some n → ¬ n.Pruned

lemma valueAt_cons : node.valueAt (index :: path) =
    (node.child index).bind fun c => c.valueAt path := by
  rw [valueAt, walk, Option.bind_assoc]
  rfl

/-- Density, child by child. -/
lemma dense_iff : node.Dense ↔ ∀ index c, node.child index = some c → ¬ c.Pruned ∧ c.Dense := by
  constructor
  · intro h index c hc
    refine ⟨h index [] c (by rw [walk, hc]; rfl), fun j path n hn => ?_⟩
    exact h index (j :: path) n (by rw [walk, hc]; exact hn)
  · intro h index path n hn
    rw [walk, Option.bind_eq_some_iff] at hn
    obtain ⟨c, hc, hn⟩ := hn
    cases path with
    | nil =>
      obtain rfl := Option.some.inj hn
      exact (h index c hc).1
    | cons j path => exact (h index c hc).2 j path n hn

lemma dense_of_childless (h : ∀ index, node.child index = none) : node.Dense :=
  dense_iff.2 fun index c hc => by
    rw [h index] at hc
    cases hc

lemma lt_of_child (hwidth : node.children.length = branchingFactor)
    (hc : node.child index = some c) : index < branchingFactor := by
  by_contra hle
  rw [child, List.getElem?_eq_none (by omega)] at hc
  cases hc

lemma exists_child (h : node.childrenCount ≠ 0) : ∃ index c, node.child index = some c := by
  by_contra hnone
  push Not at hnone
  exact h (childrenCount_eq_zero fun index => Option.eq_none_iff_forall_ne_some.2 (hnone index))

lemma childrenCount_ne_zero (hc : node.child index = some c) : node.childrenCount ≠ 0 := by
  intro hzero
  rw [childrenCount, List.length_eq_zero_iff, List.filter_eq_nil_iff] at hzero
  rw [child] at hc
  cases hslot : node.children[index]? with
  | none =>
    rw [hslot] at hc
    cases hc
  | some slot =>
    rw [hslot] at hc
    obtain rfl : slot = some c := hc
    exact hzero _ (List.mem_of_getElem? hslot) rfl

lemma Pruned.valueAt (h : node.Pruned) (path : List ℕ) : node.valueAt path = none := by
  cases path with
  | nil => exact Option.isNone_iff_eq_none.1 h.1
  | cons index path =>
    have hnone : node.child index = none := by
      by_contra hsome
      obtain ⟨c, hc⟩ := Option.ne_none_iff_exists'.1 hsome
      exact childrenCount_ne_zero hc h.2
    rw [valueAt_cons, hnone]
    rfl

/-- A node that is not pruned has a value below it. -/
lemma exists_valueAt {k : ℕ} (hlen : d + k = defaultDepth) (h : Valid kzg node d)
    (hdense : node.Dense) (hnode : ¬ node.Pruned) :
    ∃ path, path.length = k ∧ (∀ i ∈ path, i < branchingFactor) ∧
      (node.valueAt path).isSome = true := by
  induction k generalizing d node with
  | zero => exact ⟨[], rfl, by simp, (h.nodeOk.leaf (by omega)).1⟩
  | succ k ih =>
    have hvalue : node.value = none := h.nodeOk.internal (by omega)
    have hcount : node.childrenCount ≠ 0 := fun hzero => hnode ⟨by simp [hvalue], hzero⟩
    obtain ⟨index, c, hc⟩ := exists_child hcount
    obtain ⟨hpruned, hcdense⟩ := dense_iff.1 hdense index c hc
    obtain ⟨path, hpath, hbound, hsome⟩ := ih (by omega) (h.child hc) hcdense hpruned
    refine ⟨index :: path, by rw [List.length_cons, hpath], ?_, ?_⟩
    · exact List.forall_mem_cons.2 ⟨lt_of_child h.nodeOk.width hc, hbound⟩
    · rwa [valueAt_cons, hc]

/-! ### Nodes with the same values -/

/-- A valid node is determined by its children and its value. -/
lemma Valid.eq_of_children (h : Valid kzg node d) (h' : Valid kzg node' d)
    (hvalue : node.value = node'.value)
    (hchild : ∀ index < branchingFactor, node.child index = node'.child index) : node = node' := by
  have hchildren : node.children = node'.children := by
    refine List.ext_getElem (h.nodeOk.width.trans h'.nodeOk.width.symm) fun index hi hi' => ?_
    have heq := hchild index (hi.trans_eq h.nodeOk.width)
    rw [VerkleNode.child, VerkleNode.child, List.getElem?_eq_getElem hi,
      List.getElem?_eq_getElem hi'] at heq
    exact heq
  have hcommitment : node.commitment = node'.commitment := by
    rw [h.nodeOk.commitment, h'.nodeOk.commitment, computeCommitment, computeCommitment,
      vectorValues, vectorValues, hchildren, hvalue]
  have hdepth : node.depth = node'.depth := h.nodeOk.depth.trans h'.nodeOk.depth.symm
  cases node
  cases node'
  simp only [mk.injEq]
  exact ⟨hcommitment, hchildren, hvalue, hdepth⟩

lemma child_eq_none_iff {k : ℕ} (hlen : d + 1 + k = defaultDepth) (h : Valid kzg node d)
    (hdense : node.Dense) : node.child index = none ↔
      ∀ path, path.length = k → (∀ i ∈ path, i < branchingFactor) →
        node.valueAt (index :: path) = none := by
  constructor
  · intro hnone path _ _
    rw [valueAt_cons, hnone]
    rfl
  · intro hall
    by_contra hsome
    obtain ⟨c, hc⟩ := Option.ne_none_iff_exists'.1 hsome
    obtain ⟨hpruned, hcdense⟩ := dense_iff.1 hdense index c hc
    obtain ⟨path, hpath, hbound, hvalue⟩ := exists_valueAt hlen (h.child hc) hcdense hpruned
    have hnone := hall path hpath hbound
    rw [valueAt_cons, hc, Option.bind_some] at hnone
    simp [hnone] at hvalue

/-- Dense valid nodes with the same values are the same. -/
theorem eq_of_valueAt {k : ℕ} (hlen : d + k = defaultDepth) (h : Valid kzg node d)
    (h' : Valid kzg node' d) (hdense : node.Dense) (hdense' : node'.Dense)
    (heq : ∀ path, path.length = k → (∀ i ∈ path, i < branchingFactor) →
      node.valueAt path = node'.valueAt path) : node = node' := by
  induction k generalizing d node node' with
  | zero =>
    refine h.eq_of_children h' (heq [] rfl (by simp)) fun index _ => ?_
    rw [(h.nodeOk.leaf (by omega)).2 index, (h'.nodeOk.leaf (by omega)).2 index]
  | succ k ih =>
    have hvalue : node.value = node'.value := by
      rw [h.nodeOk.internal (by omega), h'.nodeOk.internal (by omega)]
    refine h.eq_of_children h' hvalue fun index hindex => ?_
    have hbelow : ∀ path, path.length = k → (∀ i ∈ path, i < branchingFactor) →
        node.valueAt (index :: path) = node'.valueAt (index :: path) := fun path hpath hbound =>
      heq _ (by rw [List.length_cons, hpath]) (List.forall_mem_cons.2 ⟨hindex, hbound⟩)
    have hlen' : d + 1 + k = defaultDepth := by omega
    have hnone : node.child index = none ↔ node'.child index = none := by
      rw [child_eq_none_iff hlen' h hdense, child_eq_none_iff hlen' h' hdense']
      exact forall₃_congr fun path hpath hbound => by rw [hbelow path hpath hbound]
    cases hc : node.child index with
    | none => exact (hnone.1 hc).symm
    | some c =>
      obtain ⟨c', hc'⟩ := Option.ne_none_iff_exists'.1 (mt hnone.2 (by simp [hc]))
      rw [hc', ih hlen' (h.child hc) (h'.child hc') (dense_iff.1 hdense index c hc).2
        (dense_iff.1 hdense' index c' hc').2 fun path hpath hbound => ?_]
      have hat := hbelow path hpath hbound
      rwa [valueAt_cons, valueAt_cons, hc, hc'] at hat

/-! ### A node with another child -/

/-- The same values but for the one at a path. -/
def Changed (node node' : VerkleNode) (path : List ℕ) (new : Option Hash) : Prop :=
  ∀ q, q.length = path.length → node'.valueAt q = if q = path then new else node.valueAt q

/-- A node as the change of a value leaves it, unless the value was its last one. -/
structure Written (kzg : KzgScheme F) (d : ℕ) (node node' : VerkleNode) (path : List ℕ)
    (new : Option Hash) : Prop where
  valid : Valid kzg node' d
  dense : node'.Dense
  filled : ¬ node'.Pruned
  changed : Changed node node' path new

/-- The node with a slot replaced and its commitment up to date. -/
def withChild (kzg : KzgScheme F) (node : VerkleNode) (index : ℕ) (slot : Option VerkleNode) :
    VerkleNode := refreshCommitment kzg { node with children := node.children.set index slot }

variable {slot : Option VerkleNode}

lemma replaceSlot_eq (h : index < node.children.length) :
    node.replaceSlot kzg index slot = .ok (node.withChild kzg index slot) := if_pos h

lemma withChild_withChild {slot slot' : Option VerkleNode} :
    (node.withChild kzg index slot).withChild kzg index slot' = node.withChild kzg index slot' := by
  simp only [withChild, refreshCommitment, List.set_set]
  rfl

section

variable (h : index < node.children.length)

include h

lemma child_withChild (j : ℕ) :
    (node.withChild kzg index slot).child j = if j = index then slot else node.child j := by
  change (node.children.set index slot)[j]?.join = _
  rw [List.getElem?_set]
  by_cases hj : index = j
  · subst hj
    rw [if_pos rfl, if_pos h, if_pos rfl]
    rfl
  · rw [if_neg hj, if_neg (Ne.symm hj)]
    rfl

lemma valueAt_withChild (j : ℕ) (q : List ℕ) : (node.withChild kzg index slot).valueAt (j :: q) =
      if j = index then slot.bind fun c => c.valueAt q else node.valueAt (j :: q) := by
  rw [valueAt_cons, child_withChild h]
  split_ifs
  · rfl
  · rw [valueAt_cons]

lemma Dense.withChild (hdense : node.Dense) (hslot : ∀ c, slot = some c → ¬ c.Pruned ∧ c.Dense) :
    (node.withChild kzg index slot).Dense := by
  refine dense_iff.2 fun j c hc => ?_
  rw [child_withChild h] at hc
  split_ifs at hc with hj
  · exact hslot c hc
  · exact dense_iff.1 hdense j c hc

lemma not_pruned_withChild : ¬ (node.withChild kzg index (some c)).Pruned := by
  have hchild : (node.withChild kzg index (some c)).child index = some c := by
    rw [child_withChild h, if_pos rfl]
  exact fun hpruned => childrenCount_ne_zero hchild hpruned.2

/-- A change below a child is a change below the node. -/
lemma Changed.withChild {old : VerkleNode} {new : Option Hash} (hc : Changed old c path new)
    (hold : ∀ q, old.valueAt q = node.valueAt (index :: q))
    (hslot : ∀ q, (slot.bind fun c => c.valueAt q) = c.valueAt q) :
    Changed node (node.withChild kzg index slot) (index :: path) new := by
  intro q hq
  cases q with
  | nil => cases hq
  | cons j q =>
    rw [valueAt_withChild h]
    by_cases hj : j = index
    · subst hj
      rw [if_pos rfl, hslot, hc q (by simpa using hq), hold]
      simp only [List.cons.injEq, true_and]
    · rw [if_neg hj, if_neg (fun heq => hj (List.cons.inj heq).1)]

lemma withChild_valid (hopen : Open kzg node d) (hd : d < defaultDepth)
    (hslot : ∀ c, slot = some c → Valid kzg c (d + 1)) :
    Valid kzg (node.withChild kzg index slot) d := by
  refine valid_iff.2 ⟨⟨hopen.depth, List.length_set.trans hopen.width, rfl, hopen.internal,
    fun hle => absurd hd (Nat.not_lt.2 hle)⟩, fun j c hc => ?_⟩
  rw [child_withChild h] at hc
  split_ifs at hc with hj
  · exact hslot c hc
  · exact hopen.children j c hc

lemma Valid.withChild_eq (hvalid : Valid kzg node d) (hd : d < defaultDepth) :
    node.withChild kzg index (node.child index) = node := by
  refine (withChild_valid h hvalid.open hd fun _ hc => hvalid.child hc).eq_of_children hvalid rfl
    fun j _ => ?_
  rw [child_withChild h]
  split_ifs with hj
  · rw [hj]
  · rfl

lemma Written.withChild (hopen : Open kzg node d) (hd : d < defaultDepth) (hdense : node.Dense)
    {old : VerkleNode} {new : Option Hash} (hc : Written kzg (d + 1) old c path new)
    (hold : ∀ q, old.valueAt q = node.valueAt (index :: q)) :
    Written kzg d node (node.withChild kzg index (some c)) (index :: path) new where
  valid := withChild_valid h hopen hd fun _ hc' => Option.some.inj hc' ▸ hc.valid
  dense := hdense.withChild h fun _ hc' => Option.some.inj hc' ▸ ⟨hc.filled, hc.dense⟩
  filled := not_pruned_withChild h
  changed := hc.changed.withChild h hold fun _ => rfl

lemma setChild_withChild :
    (node.withChild kzg index none).setChild kzg index c =
      .ok (node.withChild kzg index (some c)) := by
  rw [setChild, replaceSlot_eq (h.trans_eq List.length_set.symm), withChild_withChild]

end

lemma written_updateValue (hopen : Open kzg node d) (hd : d = defaultDepth) :
    Written kzg d node (node.updateValue kzg value) [] (some value) where
  valid := hopen.updateValue_valid hd value
  dense := dense_of_childless (hopen.leaf hd.ge)
  filled := fun hpruned => absurd hpruned.1 (by simp [updateValue, refreshCommitment])
  changed := fun q hq => by
    obtain rfl := List.length_eq_zero_iff.1 hq
    rfl

/-! ### What the operations do to the values -/

lemma child_of_valueAt (hsome : (node.valueAt (index :: path)).isSome = true) :
    ∃ c, node.child index = some c ∧ ∀ q, c.valueAt q = node.valueAt (index :: q) := by
  rw [valueAt_cons] at hsome
  cases hc : node.child index with
  | none =>
    rw [hc] at hsome
    cases hsome
  | some c => exact ⟨c, rfl, fun q => by rw [valueAt_cons, hc]; rfl⟩

lemma insertRecursive_ne_ok (hsome : (node.valueAt path).isSome = true) :
    insertRecursive kzg value path node ≠ (node', .ok ()) := by
  intro hok
  induction path generalizing node node' with
  | nil =>
    have hvalue : node.value.isSome = true := hsome
    rw [insertRecursive, if_pos hvalue] at hok
    cases hok
  | cons index path ih =>
    have hstep := childStep_insertRecursive kzg value index path node
    rw [hok] at hstep
    cases hstep with
    | done hremove hrec hset =>
      obtain ⟨old, hc, hold⟩ := child_of_valueAt hsome
      rw [hc] at hrec
      exact ih (hold path ▸ hsome) hrec

lemma updateRecursive_ne_ok (hnone : node.valueAt path = none) :
    updateRecursive kzg value path node ≠ (node', .ok ()) := by
  intro hok
  induction path generalizing node node' with
  | nil =>
    have hvalue : node.value = none := hnone
    simp [updateRecursive, hvalue] at hok
  | cons index path ih =>
    have hstep := childStep_updateRecursive kzg value index path node
    rw [hok] at hstep
    cases hstep with
    | done hremove hrec hset =>
      obtain ⟨old, hc, hrec⟩ := hrec
      rw [valueAt_cons, hc] at hnone
      exact ih hnone hrec

/-- A failed insertion loses the child it had taken out. -/
lemma insertRecursive_error (hinternal : node.value = none) (hindex : index < node.children.length)
    {e : String} (herr : insertRecursive kzg value (index :: path) node = (node', .error e)) :
    node' = node.withChild kzg index none := by
  have hleaf : ¬ node.isLeaf = true := by simp [isLeaf, hinternal]
  rw [insertRecursive, if_neg hleaf, removeChild, replaceSlot_eq hindex] at herr
  dsimp only at herr
  split at herr
  · exact (Prod.mk.inj herr).1.symm
  · simp [setChild_withChild hindex] at herr

lemma updateRecursive_error (hindex : index < node.children.length) {e : String}
    (herr : updateRecursive kzg value (index :: path) node = (node', .error e)) :
    node' = node.withChild kzg index none := by
  rw [updateRecursive, removeChild, replaceSlot_eq hindex] at herr
  dsimp only at herr
  split at herr
  · exact (Prod.mk.inj herr).1.symm
  · split at herr
    · exact (Prod.mk.inj herr).1.symm
    · simp [setChild_withChild hindex] at herr

variable (hlen : d + path.length = defaultDepth) (hbound : ∀ i ∈ path, i < branchingFactor)

include hlen hbound

/-- A free path is written. -/
lemma insertRecursive_spec (hopen : Open kzg node d) (hdense : node.Dense)
    (hfree : node.valueAt path = none) :
    ∃ n, insertRecursive kzg value path node = (n, .ok ()) ∧
      Written kzg d node n path (some value) := by
  induction path generalizing node d with
  | nil =>
    have hvalue : node.value = none := hfree
    exact ⟨node.updateValue kzg value, by simp [insertRecursive, hvalue],
      written_updateValue hopen hlen⟩
  | cons index path ih =>
    have hd := lt_defaultDepth hlen
    obtain ⟨hindex, hrest⟩ := List.forall_mem_cons.1 hbound
    rw [← hopen.width] at hindex
    have hleaf : node.isLeaf = false := by simp [isLeaf, hopen.internal hd]
    have hchild : (((node.child index).getD (newInternal kzg node.nextDepth)).Dense) ∧
        ∀ q, ((node.child index).getD (newInternal kzg node.nextDepth)).valueAt q =
          node.valueAt (index :: q) := by
      cases hc : node.child index with
      | none =>
        refine ⟨dense_of_childless newInternal_child, fun q => ?_⟩
        rw [valueAt_cons, hc]
        cases q with
        | nil => rfl
        | cons j q =>
          rw [Option.getD_none, valueAt_cons, newInternal_child]
          rfl
      | some c => exact ⟨(dense_iff.1 hdense index c hc).2, fun q => by rw [valueAt_cons, hc]; rfl⟩
    obtain ⟨c, hins, hc⟩ := ih (add_one_length hlen) hrest (hopen.child_open hd index) hchild.1
      ((hchild.2 path).trans hfree)
    refine ⟨_, ?_, hc.withChild hindex hopen hd hdense hchild.2⟩
    rw [insertRecursive, hleaf, if_neg (by simp), removeChild, replaceSlot_eq hindex]
    dsimp only
    rw [hins]
    dsimp only
    rw [setChild_withChild hindex]

lemma updateRecursive_spec (h : Valid kzg node d) (hdense : node.Dense)
    (hsome : (node.valueAt path).isSome = true) :
    ∃ n, updateRecursive kzg value path node = (n, .ok ()) ∧
      Written kzg d node n path (some value) := by
  induction path generalizing node d with
  | nil =>
    have hvalue : node.value.isSome = true := hsome
    refine ⟨node.updateValue kzg value, ?_, written_updateValue h.open hlen⟩
    rw [updateRecursive, if_neg (by simpa using Option.isSome_iff_ne_none.1 hvalue)]
  | cons index path ih =>
    obtain ⟨hindex, hrest⟩ := List.forall_mem_cons.1 hbound
    rw [← h.nodeOk.width] at hindex
    obtain ⟨old, hc, hold⟩ := child_of_valueAt hsome
    obtain ⟨c, hup, hwritten⟩ := ih (add_one_length hlen) hrest (h.child hc)
      (dense_iff.1 hdense index old hc).2 (hold path ▸ hsome)
    refine ⟨_, ?_, hwritten.withChild hindex h.open (lt_defaultDepth hlen) hdense hold⟩
    rw [updateRecursive, removeChild, replaceSlot_eq hindex, hc]
    dsimp only
    rw [hup]
    dsimp only
    rw [setChild_withChild hindex]

/-- A deletion removes what becomes empty on the way up. -/
lemma deleteRecursive_spec (h : Valid kzg node d) (hdense : node.Dense)
    (hsome : (node.valueAt path).isSome = true) :
    ∃ n, deleteRecursive kzg path node = (n, .ok true) ∧ n.Dense ∧ Changed node n path none ∧
      (path = [] ∧ n.Pruned ∨ Valid kzg n d) := by
  induction path generalizing node d with
  | nil =>
    have hvalue : node.value.isSome = true := hsome
    have hleaf := (h.nodeOk.leaf hlen.ge).2
    refine ⟨node.clearValue kzg, ?_, dense_of_childless hleaf, fun q hq => ?_,
      .inl ⟨rfl, rfl, childrenCount_eq_zero hleaf⟩⟩
    · rw [deleteRecursive, if_neg (by simpa using Option.isSome_iff_ne_none.1 hvalue)]
    · obtain rfl := List.length_eq_zero_iff.1 hq
      rfl
  | cons index path ih =>
    obtain ⟨hindex, hrest⟩ := List.forall_mem_cons.1 hbound
    rw [← h.nodeOk.width] at hindex
    have hd := lt_defaultDepth hlen
    obtain ⟨old, hc, hold⟩ := child_of_valueAt hsome
    obtain ⟨c, hdel, hcdense, hcvalue, hcvalid⟩ := ih (add_one_length hlen) hrest (h.child hc)
      (dense_iff.1 hdense index old hc).2 (hold path ▸ hsome)
    rw [deleteRecursive, removeChild, replaceSlot_eq hindex, hc]
    dsimp only
    rw [hdel]
    by_cases hpruned : c.Pruned
    · refine ⟨node.withChild kzg index none, if_pos hpruned, hdense.withChild hindex nofun, ?_,
        .inr (withChild_valid hindex h.open hd nofun)⟩
      exact hcvalue.withChild hindex hold fun q => (hpruned.valueAt q).symm
    · have hvalid := hcvalid.resolve_left fun hempty => hpruned hempty.2
      have hwritten := Written.withChild hindex h.open hd hdense
        ⟨hvalid, hcdense, hpruned, hcvalue⟩ hold
      refine ⟨_, ?_, hwritten.dense, hwritten.changed, .inr hwritten.valid⟩
      have hif : ¬ (c.value.isNone = true ∧ c.childrenCount = 0) := hpruned
      dsimp only
      rw [if_neg hif, hvalid.refresh_eq, setChild_withChild hindex]

lemma deleteRecursive_of_none (h : Valid kzg node d) (hnone : node.valueAt path = none) :
    deleteRecursive kzg path node = (node, .ok false) := by
  induction path generalizing node d with
  | nil =>
    have hvalue : node.value = none := hnone
    simp [deleteRecursive, hvalue]
  | cons index path ih =>
    obtain ⟨hindex, hrest⟩ := List.forall_mem_cons.1 hbound
    rw [← h.nodeOk.width] at hindex
    have heq := Valid.withChild_eq hindex h (lt_defaultDepth hlen)
    rw [deleteRecursive, removeChild, replaceSlot_eq hindex]
    rw [valueAt_cons] at hnone
    cases hc : node.child index with
    | none => simpa [hc] using heq
    | some old =>
      rw [hc] at hnone heq
      simp [ih (add_one_length hlen) hrest (h.child hc) hnone, setChild_withChild hindex, heq]

end VerkleNode

/-! ### Trees -/

namespace VerkleTree

variable {F : Type} {kzg : KzgScheme F} {tree tree' : VerkleTree} {key : Key} {value : Hash}

/-- A tree as operations that succeed leave it. -/
structure Good (kzg : KzgScheme F) (tree : VerkleTree) : Prop where
  wellFormed : tree.WellFormed kzg
  dense : tree.root.Dense

lemma good_new (kzg : KzgScheme F) : (VerkleTree.new kzg).Good kzg :=
  ⟨wellFormed_new kzg, dense_of_childless newInternal_child⟩

lemma WellFormed.get_eq_valueAt (h : tree.WellFormed kzg) (key : Key) :
    tree.get key = tree.root.valueAt (tree.pathIndices key) := by
  rw [get, findNode, valueAt]
  cases hwalk : tree.root.walk (tree.pathIndices key) with
  | none => rfl
  | some n =>
    have hnode := h.root _ n hwalk
    rw [Nat.zero_add] at hnode
    obtain ⟨hvalue, hchild⟩ := hnode.leaf (h.length_pathIndices key).ge
    exact if_pos ⟨hnode.depth, isLeaf_of_child hvalue hchild⟩

lemma WellFormed.pathIndices_lt (h : tree.WellFormed kzg) (key : Key) :
    ∀ i ∈ tree.pathIndices key, i < Crypto.branchingFactor := by
  intro i hi
  rw [h.pathIndices_eq] at hi
  obtain ⟨byte, -, rfl⟩ := List.mem_map.1 hi
  exact byte.toNat_lt

lemma WellFormed.pathIndices_inj (h : tree.WellFormed kzg) {key key' : Key} :
    tree.pathIndices key = tree.pathIndices key' ↔ key = key' := by
  refine ⟨fun heq => ?_, congrArg _⟩
  rw [h.pathIndices_eq, h.pathIndices_eq] at heq
  have hinj : Function.Injective UInt8.toNat := fun a b hab => UInt8.toNat_inj.1 hab
  exact Vector.toList_inj.1 (List.map_injective_iff.2 hinj heq)

lemma Good.withRoot (h : tree.Good kzg) {root : VerkleNode} (hvalid : root.Valid kzg 0)
    (hdense : root.Dense) {new : Option Hash}
    (hroot : Changed tree.root root (tree.pathIndices key) new) :
    Good kzg { tree with root := root } ∧ ∀ key', ({ tree with root := root } : VerkleTree).get key' =
      if key' = key then new else tree.get key' := by
  have hgood : Good kzg { tree with root := root } := ⟨h.wellFormed.withRoot hvalid, hdense⟩
  refine ⟨hgood, fun key' => ?_⟩
  have hlen := h.wellFormed.length_pathIndices
  rw [hgood.wellFormed.get_eq_valueAt, h.wellFormed.get_eq_valueAt]
  exact (hroot _ ((hlen key').trans (hlen key).symm)).trans (by
    simp only [h.wellFormed.pathIndices_inj])

lemma zero_add_length (h : tree.WellFormed kzg) (key : Key) :
    0 + (tree.pathIndices key).length = defaultDepth := by
  rw [h.length_pathIndices, Nat.zero_add]

lemma insert_spec (h : tree.Good kzg) (hfree : tree.get key = none) :
    ∃ t, tree.insert kzg key value = (t, .ok ()) ∧ t.Good kzg ∧
      ∀ key', t.get key' = if key' = key then some value else tree.get key' := by
  rw [h.wellFormed.get_eq_valueAt] at hfree
  obtain ⟨n, hins, hn⟩ := @insertRecursive_spec F kzg tree.root 0 (tree.pathIndices key) value
    (zero_add_length h.wellFormed key) (h.wellFormed.pathIndices_lt key) h.wellFormed.root.open
    h.dense hfree
  refine ⟨{ tree with root := n }, ?_, h.withRoot hn.valid hn.dense hn.changed⟩
  rw [insert, hins]
  dsimp only
  rw [hn.valid.refresh_eq]

lemma update_spec (h : tree.Good kzg) (hsome : (tree.get key).isSome = true) :
    ∃ t, tree.update kzg key value = (t, .ok ()) ∧ t.Good kzg ∧
      ∀ key', t.get key' = if key' = key then some value else tree.get key' := by
  rw [h.wellFormed.get_eq_valueAt] at hsome
  obtain ⟨n, hup, hn⟩ := @updateRecursive_spec F kzg tree.root 0 (tree.pathIndices key) value
    (zero_add_length h.wellFormed key) (h.wellFormed.pathIndices_lt key) h.wellFormed.root
    h.dense hsome
  refine ⟨{ tree with root := n }, ?_, h.withRoot hn.valid hn.dense hn.changed⟩
  rw [update, hup]
  dsimp only
  rw [hn.valid.refresh_eq]

lemma delete_spec (h : tree.Good kzg) (hsome : (tree.get key).isSome = true) :
    ∃ t, tree.delete kzg key = (t, .ok ()) ∧ t.Good kzg ∧
      ∀ key', t.get key' = if key' = key then none else tree.get key' := by
  have hlen := zero_add_length h.wellFormed key
  rw [h.wellFormed.get_eq_valueAt] at hsome
  obtain ⟨n, hdel, hdense, hvalue, hvalid⟩ := deleteRecursive_spec hlen
    (h.wellFormed.pathIndices_lt key) h.wellFormed.root h.dense hsome
  replace hvalid := hvalid.resolve_left fun hnil => by
    rw [hnil.1] at hlen
    cases hlen
  refine ⟨{ tree with root := n }, ?_, h.withRoot hvalid hdense hvalue⟩
  rw [delete, hdel]
  dsimp only
  rw [hvalid.refresh_eq]

lemma insert_of_isSome (h : tree.Good kzg) (hsome : (tree.get key).isSome = true) :
    ∃ index ∈ (tree.pathIndices key).head?, ∃ e, tree.insert kzg key value =
      ({ tree with root := tree.root.withChild kzg index none }, .error e) := by
  obtain ⟨index, path, hpath, hindex⟩ := h.wellFormed.exists_index key
  rw [h.wellFormed.get_eq_valueAt, hpath] at hsome
  rw [insert, hpath]
  rcases hins : tree.root.insertRecursive kzg value (index :: path) with ⟨n, e | ⟨⟩⟩
  · obtain rfl := insertRecursive_error (h.wellFormed.root.nodeOk.internal (by decide)) hindex hins
    exact ⟨index, rfl, e, rfl⟩
  · exact absurd hins (insertRecursive_ne_ok hsome)

lemma update_of_none (h : tree.Good kzg) (hnone : tree.get key = none) :
    ∃ index ∈ (tree.pathIndices key).head?, ∃ e, tree.update kzg key value =
      ({ tree with root := tree.root.withChild kzg index none }, .error e) := by
  obtain ⟨index, path, hpath, hindex⟩ := h.wellFormed.exists_index key
  rw [h.wellFormed.get_eq_valueAt, hpath] at hnone
  rw [update, hpath]
  rcases hup : tree.root.updateRecursive kzg value (index :: path) with ⟨n, e | ⟨⟩⟩
  · obtain rfl := updateRecursive_error hindex hup
    exact ⟨index, rfl, e, rfl⟩
  · exact absurd hup (updateRecursive_ne_ok hnone)

lemma delete_of_none (h : tree.Good kzg) (hnone : tree.get key = none) :
    tree.delete kzg key = (tree, .error "key does not exist in verkle tree") := by
  rw [h.wellFormed.get_eq_valueAt] at hnone
  rw [delete, deleteRecursive_of_none (zero_add_length h.wellFormed key)
    (h.wellFormed.pathIndices_lt key) h.wellFormed.root hnone]

/-- A good tree is determined by its contents. -/
theorem Good.ext (h : tree.Good kzg) (h' : tree'.Good kzg)
    (heq : ∀ key, tree.get key = tree'.get key) : tree = tree' := by
  have hroot : tree.root = tree'.root := by
    refine eq_of_valueAt (k := defaultDepth) (Nat.zero_add _) h.wellFormed.root
      h'.wellFormed.root h.dense h'.dense fun path hpath hbound => ?_
    obtain ⟨key, hkey⟩ : ∃ key : Key, key.toList.map UInt8.toNat = path := by
      refine ⟨⟨(path.map UInt8.ofNat).toArray, by simpa [defaultDepth] using hpath⟩, ?_⟩
      have hid : ∀ i ∈ path, (UInt8.ofNat i).toNat = i := fun i hi =>
        UInt8.toNat_ofNat_of_lt' (hbound i hi)
      rw [Vector.toList_mk, List.map_map]
      exact (List.map_congr_left hid).trans (List.map_id path)
    have hat := heq key
    rwa [h.wellFormed.get_eq_valueAt, h'.wellFormed.get_eq_valueAt, h.wellFormed.pathIndices_eq,
      h'.wellFormed.pathIndices_eq, hkey] at hat
  have hdepth := h.wellFormed.depth.trans h'.wellFormed.depth.symm
  have hfactor := h.wellFormed.branchingFactor.trans h'.wellFormed.branchingFactor.symm
  cases tree
  cases tree'
  simp only [mk.injEq]
  exact ⟨hroot, hdepth, hfactor⟩

/-! ### One operation -/

inductive Operation
  | insert (key : Key) (value : Hash)
  | update (key : Key) (value : Hash)
  | delete (key : Key)

def Operation.run (kzg : KzgScheme F) (tree : VerkleTree) :
    Operation → VerkleTree × Except String Unit
  | .insert key value => tree.insert kzg key value
  | .update key value => tree.update kzg key value
  | .delete key => tree.delete kzg key

def Operation.target : Operation → Key
  | .insert key _ | .update key _ | .delete key => key

/-- What the operation leaves at its key. -/
def Operation.written : Operation → Option Hash
  | .insert _ value | .update _ value => some value
  | .delete _ => none

/-- The operation is a deletion, or no stored key has the first byte of its key. -/
def Operation.Restores (tree : VerkleTree) : Operation → Prop
  | .insert key _ | .update key _ => (tree.pathIndices key).head?.bind tree.root.child = none
  | .delete _ => True

lemma Good.withoutChild (h : tree.Good kzg) {index : ℕ}
    (hindex : index ∈ (tree.pathIndices key).head?) :
    Good kzg { tree with root := tree.root.withChild kzg index none } ∧
      ({ tree with root := tree.root.withChild kzg index none } = tree ↔
        (tree.pathIndices key).head?.bind tree.root.child = none) := by
  have hroot := h.wellFormed.root
  have hlt : index < tree.root.children.length := hroot.nodeOk.width ▸
    h.wellFormed.pathIndices_lt key index (List.mem_of_mem_head? hindex)
  have hvalid : (tree.root.withChild kzg index none).Valid kzg 0 :=
    withChild_valid hlt hroot.open (by decide) nofun
  rw [hindex, Option.bind_some]
  refine ⟨⟨h.wellFormed.withRoot hvalid, h.dense.withChild hlt nofun⟩, fun heq => ?_,
    fun hnone => ?_⟩
  · rw [← heq]
    exact (child_withChild hlt index).trans (if_pos rfl)
  · rw [← hnone, Valid.withChild_eq hlt hroot (by decide)]

/-- An operation writes its key, or fails and may lose a child. -/
lemma Good.run_cases (h : tree.Good kzg) (op : Operation) {result : Except String Unit}
    (hrun : op.run kzg tree = (tree', result)) :
    tree'.Good kzg ∧
      (result = .ok () ∧
          (∀ key, tree'.get key = if key = op.target then op.written else tree.get key) ∨
        (∃ e, result = .error e) ∧ (tree' = tree ↔ op.Restores tree)) := by
  have hok : (∃ t, op.run kzg tree = (t, .ok ()) ∧ t.Good kzg ∧
      ∀ key, t.get key = if key = op.target then op.written else tree.get key) →
      tree'.Good kzg ∧ result = .ok () ∧
        ∀ key, tree'.get key = if key = op.target then op.written else tree.get key := by
    rintro ⟨t, ht, hgood, hget⟩
    obtain ⟨rfl, rfl⟩ := Prod.mk.inj (ht.symm.trans hrun)
    exact ⟨hgood, rfl, hget⟩
  cases op with
  | insert key value =>
    cases hget : tree.get key with
    | none => exact (hok (insert_spec h hget)).imp_right .inl
    | some v =>
      obtain ⟨index, hindex, e, he⟩ := @insert_of_isSome F kzg tree key value h
        (Option.isSome_of_eq_some hget)
      obtain ⟨rfl, rfl⟩ := Prod.mk.inj (he.symm.trans hrun)
      exact (h.withoutChild hindex).imp_right fun heq => .inr ⟨⟨e, rfl⟩, heq⟩
  | update key value =>
    cases hget : tree.get key with
    | some v => exact (hok (update_spec h (Option.isSome_of_eq_some hget))).imp_right .inl
    | none =>
      obtain ⟨index, hindex, e, he⟩ := @update_of_none F kzg tree key value h hget
      obtain ⟨rfl, rfl⟩ := Prod.mk.inj (he.symm.trans hrun)
      exact (h.withoutChild hindex).imp_right fun heq => .inr ⟨⟨e, rfl⟩, heq⟩
  | delete key =>
    cases hget : tree.get key with
    | some v => exact (hok (delete_spec h (Option.isSome_of_eq_some hget))).imp_right .inl
    | none =>
      obtain ⟨rfl, rfl⟩ := Prod.mk.inj ((delete_of_none h hget).symm.trans hrun)
      exact ⟨h, .inr ⟨⟨_, rfl⟩, iff_of_true rfl trivial⟩⟩

/-- Every tree that a caller can have is good. -/
theorem Reachable.good (h : Reachable kzg tree) : tree.Good kzg := by
  induction h with
  | new => exact good_new kzg
  | insert key value _ ih => exact (ih.run_cases (.insert key value) rfl).1
  | update key value _ ih => exact (ih.run_cases (.update key value) rfl).1
  | delete key _ ih => exact (ih.run_cases (.delete key) rfl).1

lemma Reachable.wellFormed (h : Reachable kzg tree) : tree.WellFormed kzg := h.good.wellFormed

end VerkleTree

end Sxiaum.State
