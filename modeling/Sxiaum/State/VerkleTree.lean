import Sxiaum.Crypto.Kzg

/-!
# The Verkle tree

`state/src/node.rs` and `state/src/verkle_tree.rs`. A node keeps the digest of the vector of
its children's digests; a key is a path of 32 bytes to a leaf. The operations change the tree
in place: they return the tree as it is afterwards, also where they fail, together with the
result.
-/

namespace Sxiaum.State

open Crypto

def defaultDepth : ℕ := 32

abbrev Key := Vector UInt8 32

structure VerkleNode where
  commitment : Hash
  children : List (Option VerkleNode)
  value : Option Hash
  depth : ℕ

namespace VerkleNode

/-! ### Nodes -/

section Basic

variable {F : Type} (kzg : KzgScheme F)

def newInternal (depth : ℕ) : VerkleNode where
  commitment := kzg.getEmptyCommitment
  children := List.replicate branchingFactor none
  value := none
  depth := depth

variable (node : VerkleNode) (index : ℕ)

/-- A value and no children. -/
def isLeaf : Bool := node.value.isSome && node.children.all Option.isNone

def child : Option VerkleNode := node.children[index]?.join

/-- The vector that a node commits to: the digests of its children, and its own value at
index `0` if there is no child. -/
def vectorValues : List (Option Hash) :=
  node.children.mapIdx fun index child =>
    (child.map commitment).or (if index = 0 then node.value else none)

def computeCommitment : Hash := kzg.computeKzgCommitment node.vectorValues

def refreshCommitment : VerkleNode :=
  { node with commitment := node.computeCommitment kzg }

def newLeaf (value : Hash) : VerkleNode :=
  refreshCommitment kzg {
    commitment := 0
    children := List.replicate branchingFactor none
    value := some value
    depth := 32 }

def childrenCount : ℕ := (node.children.filter Option.isSome).length

/-- Replace a slot; there is none beyond the branching factor. -/
def replaceSlot (slot : Option VerkleNode) : Except String VerkleNode :=
  if index < node.children.length then
    .ok (refreshCommitment kzg { node with children := node.children.set index slot })
  else .error s!"child index out of bounds: {index} (max {branchingFactor})"

def setChild (c : VerkleNode) : Except String VerkleNode :=
  node.replaceSlot kzg index (some c)

/-- The node without the child, which is returned by `child` before. -/
def removeChild : Except String VerkleNode :=
  node.replaceSlot kzg index none

def updateValue (value : Hash) : VerkleNode :=
  refreshCommitment kzg { node with value := some value }

def clearValue : VerkleNode := refreshCommitment kzg { node with value := none }

/-- `depth.saturating_add(1)` on a `u8`. -/
def nextDepth : ℕ := min (node.depth + 1) 255

/-! ### Operations along a path -/

/-- Insert below a node. -/
def insertRecursive (value : Hash) : List ℕ → VerkleNode → VerkleNode × Except String Unit
  | [], node =>
    if node.value.isSome then (node, .error "key already exists in verkle tree")
    else (node.updateValue kzg value, .ok ())
  | index :: path, node =>
    if node.isLeaf then (node, .error "cannot insert below an existing leaf node")
    else
      match node.removeChild kzg index with
      | .error e => (node, .error e)
      | .ok rest =>
        match insertRecursive value path ((node.child index).getD (newInternal kzg node.nextDepth)) with
        -- the child has been taken out and is not put back
        | (_, .error e) => (rest, .error e)
        | (c, .ok ()) =>
          match rest.setChild kzg index c with
          | .error e => (rest, .error e)
          | .ok node => (node, .ok ())

def updateRecursive (value : Hash) : List ℕ → VerkleNode → VerkleNode × Except String Unit
  | [], node =>
    if node.value.isNone then (node, .error "key does not exist in verkle tree")
    else (node.updateValue kzg value, .ok ())
  | index :: path, node =>
    match node.removeChild kzg index with
    | .error e => (node, .error e)
    | .ok rest =>
      match node.child index with
      | none => (rest, .error "key does not exist in verkle tree")
      | some old =>
        match updateRecursive value path old with
        | (_, .error e) => (rest, .error e)
        | (c, .ok ()) =>
          match rest.setChild kzg index c with
          | .error e => (rest, .error e)
          | .ok node => (node, .ok ())

/-- The result says whether the key was there. -/
def deleteRecursive : List ℕ → VerkleNode → VerkleNode × Except String Bool
  | [], node => if node.value.isNone then (node, .ok false) else (node.clearValue kzg, .ok true)
  | index :: path, node =>
    match node.removeChild kzg index with
    | .error e => (node, .error e)
    | .ok rest =>
      match node.child index with
      | none => (rest, .ok false)
      | some old =>
        match deleteRecursive path old with
        | (_, .error e) => (rest, .error e)
        | (c, .ok false) =>
          match rest.setChild kzg index c with
          | .error e => (rest, .error e)
          | .ok node => (node, .ok false)
        | (c, .ok true) =>
          if c.value.isNone ∧ c.childrenCount = 0 then (rest.refreshCommitment kzg, .ok true)
          else
            match rest.setChild kzg index (c.refreshCommitment kzg) with
            | .error e => (rest, .error e)
            | .ok node => (node, .ok true)

def walk : VerkleNode → List ℕ → Option VerkleNode
  | node, [] => some node
  | node, index :: path => (node.child index).bind fun c => walk c path

end Basic

end VerkleNode

/-! ### Trees -/

structure VerkleTree where
  root : VerkleNode
  depth : ℕ
  branchingFactor : ℕ

namespace VerkleTree

variable {F : Type} (kzg : KzgScheme F)

def new : VerkleTree where
  root := .newInternal kzg 0
  depth := defaultDepth
  branchingFactor := Crypto.branchingFactor

variable (tree : VerkleTree) (key : Key)

def pathIndices : List ℕ :=
  (key.toList.take tree.depth).map fun byte => byte.toNat % tree.branchingFactor

def insert (value : Hash) : VerkleTree × Except String Unit :=
  match tree.root.insertRecursive kzg value (tree.pathIndices key) with
  | (root, .error e) => ({ tree with root := root }, .error e)
  | (root, .ok ()) => ({ tree with root := root.refreshCommitment kzg }, .ok ())

def update (value : Hash) : VerkleTree × Except String Unit :=
  match tree.root.updateRecursive kzg value (tree.pathIndices key) with
  | (root, .error e) => ({ tree with root := root }, .error e)
  | (root, .ok ()) => ({ tree with root := root.refreshCommitment kzg }, .ok ())

def delete : VerkleTree × Except String Unit :=
  match tree.root.deleteRecursive kzg (tree.pathIndices key) with
  | (root, .error e) => ({ tree with root := root }, .error e)
  | (root, .ok false) =>
    ({ tree with root := root }, .error "key does not exist in verkle tree")
  | (root, .ok true) => ({ tree with root := root.refreshCommitment kzg }, .ok ())

def findNode : Option VerkleNode :=
  tree.root.walk (tree.pathIndices key)

/-- Only a leaf at full depth has a value. -/
def get : Option Hash :=
  (tree.findNode key).bind fun node =>
    if node.depth = (tree.pathIndices key).length ∧ node.isLeaf then node.value else none

def rootCommitment : Hash := tree.root.commitment

/-- The trees that a caller can have, whatever the operations returned. -/
inductive Reachable : VerkleTree → Prop
  | new : Reachable (new kzg)
  | insert {tree : VerkleTree} (key : Key) (value : Hash) :
      Reachable tree → Reachable (tree.insert kzg key value).1
  | update {tree : VerkleTree} (key : Key) (value : Hash) :
      Reachable tree → Reachable (tree.update kzg key value).1
  | delete {tree : VerkleTree} (key : Key) :
      Reachable tree → Reachable (tree.delete kzg key).1

end VerkleTree

/-! ### The shape of a tree -/

namespace VerkleNode

variable {F : Type} {kzg : KzgScheme F} {node rest node' : VerkleNode} {d : ℕ}

/-- A node at depth `d`: leaves are at the bottom and have values, all other nodes have none,
and the stored commitment is the computed one. -/
structure NodeOk (kzg : KzgScheme F) (node : VerkleNode) (d : ℕ) : Prop where
  depth : node.depth = d
  width : node.children.length = branchingFactor
  commitment : node.commitment = node.computeCommitment kzg
  internal : d < defaultDepth → node.value = none
  leaf : defaultDepth ≤ d → node.value.isSome ∧ ∀ index, node.child index = none

/-- Every node below is as it should be. -/
def Valid (kzg : KzgScheme F) (node : VerkleNode) (d : ℕ) : Prop :=
  ∀ path n, node.walk path = some n → NodeOk kzg n (d + path.length)

/-- A node that a value or a child can be put into. -/
structure Open (kzg : KzgScheme F) (node : VerkleNode) (d : ℕ) : Prop where
  depth : node.depth = d
  width : node.children.length = branchingFactor
  internal : d < defaultDepth → node.value = none
  leaf : defaultDepth ≤ d → ∀ index, node.child index = none
  children : ∀ index c, node.child index = some c → Valid kzg c (d + 1)

/-- Validity, child by child. -/
lemma valid_iff : Valid kzg node d ↔
    NodeOk kzg node d ∧ ∀ index c, node.child index = some c → Valid kzg c (d + 1) := by
  constructor
  · intro h
    refine ⟨h [] node rfl, fun index c hc path n hn => ?_⟩
    have hok := h (index :: path) n (by rw [walk, hc]; exact hn)
    rwa [List.length_cons, ← Nat.add_assoc, Nat.add_right_comm] at hok
  · rintro ⟨hnode, hchildren⟩ path n hn
    cases path with
    | nil =>
      obtain rfl : node = n := Option.some.inj hn
      exact hnode
    | cons index path =>
      rw [walk, Option.bind_eq_some_iff] at hn
      obtain ⟨c, hc, hn⟩ := hn
      rw [List.length_cons, ← Nat.add_assoc, Nat.add_right_comm]
      exact hchildren index c hc path n hn

lemma Valid.nodeOk (h : Valid kzg node d) : NodeOk kzg node d := (valid_iff.1 h).1

lemma Valid.child (h : Valid kzg node d) {index : ℕ} {c : VerkleNode}
    (hc : node.child index = some c) : Valid kzg c (d + 1) := (valid_iff.1 h).2 index c hc

lemma Valid.open (h : Valid kzg node d) : Open kzg node d where
  depth := h.nodeOk.depth
  width := h.nodeOk.width
  internal := h.nodeOk.internal
  leaf := fun hd => (h.nodeOk.leaf hd).2
  children := fun _ _ hc => h.child hc

lemma child_of_replicate (h : node.children = List.replicate branchingFactor none) (index : ℕ) :
    node.child index = none := by
  rw [child, h, List.getElem?_replicate]
  split_ifs <;> rfl

lemma newInternal_child (index : ℕ) : (newInternal kzg d).child index = none :=
  child_of_replicate rfl index

lemma newInternal_commitment :
    (newInternal kzg d).commitment = (newInternal kzg d).computeCommitment kzg := by
  have hempty : KzgScheme.IsEmpty (newInternal kzg d).vectorValues := by
    intro v hv
    obtain ⟨index, hindex, rfl⟩ := List.mem_mapIdx.1 hv
    simp [newInternal]
  rw [computeCommitment, KzgScheme.computeKzgCommitment, if_pos hempty]
  rfl

lemma newInternal_open : Open kzg (newInternal kzg d) d where
  depth := rfl
  width := List.length_replicate
  internal := fun _ => rfl
  leaf := fun _ => newInternal_child
  children := fun index c hc => by
    rw [newInternal_child] at hc
    cases hc

lemma Open.updateValue_valid (h : Open kzg node d) (hd : d = defaultDepth) (value : Hash) :
    Valid kzg (node.updateValue kzg value) d :=
  valid_iff.2 ⟨⟨h.depth, h.width, rfl, fun hlt => absurd hlt (by rw [hd]; exact Nat.lt_irrefl _),
    fun hle => ⟨rfl, h.leaf hle⟩⟩, h.children⟩

lemma Valid.refresh_eq (h : Valid kzg node d) : node.refreshCommitment kzg = node := by
  rw [refreshCommitment, ← h.nodeOk.commitment]
  cases node
  rfl

/-! ### The vector of a node -/

lemma join_vectorValues {index : ℕ} (h : index < node.children.length) :
    node.vectorValues[index]?.join =
      ((node.child index).map VerkleNode.commitment).or
        (if index = 0 then node.value else none) := by
  rw [vectorValues, List.getElem?_mapIdx, child, List.getElem?_eq_getElem h]
  rfl

/-- What is digested of a node without children: its value, unless that is zero. -/
lemma digestedSlots_zero (hwidth : node.children.length = branchingFactor)
    (hleaf : ∀ index, node.child index = none) {value : Hash} (hvalue : node.value = some value) :
    (KzgScheme.digestedSlots node.vectorValues)[0]? =
      some (if value = 0 then none else some value) := by
  have hslot : node.vectorValues[0]?.join = some value := by
    rw [join_vectorValues (by rw [hwidth]; decide), hleaf, hvalue]
    rfl
  have hempty : KzgScheme.IsEmpty node.vectorValues ↔ value = 0 := by
    constructor
    · intro h
      obtain ⟨v, hv⟩ : ∃ v, node.vectorValues[0]? = some v := by
        cases hv : node.vectorValues[0]? with
        | none =>
          rw [hv] at hslot
          cases hslot
        | some v => exact ⟨v, rfl⟩
      rw [hv] at hslot
      obtain rfl : v = some value := hslot
      exact h _ (List.mem_of_getElem? hv)
    · rintro rfl v hv
      obtain ⟨index, hindex⟩ := List.mem_iff_getElem?.1 hv
      have hlt : index < node.children.length := by
        have hlen := (List.getElem?_eq_some_iff.1 hindex).1
        rwa [vectorValues, List.length_mapIdx] at hlen
      have hjoin := join_vectorValues hlt
      rw [hindex, hleaf, hvalue] at hjoin
      obtain rfl : v = if index = 0 then some 0 else none := hjoin
      split_ifs <;> rfl
  rw [KzgScheme.digestedSlots]
  by_cases hzero : value = 0
  · rw [if_pos (hempty.2 hzero), if_pos hzero]
    rfl
  · rw [if_neg (mt hempty.1 hzero), if_neg hzero, KzgScheme.getElem?_slots _ (by decide), hslot]

lemma commitment_newLeaf (value : Hash) : (newLeaf kzg value).commitment =
    kzg.computeKzgCommitment (newLeaf kzg value).vectorValues := by
  simp only [newLeaf, refreshCommitment, computeCommitment, vectorValues]

/-! ### Slots -/

lemma isLeaf_of_child (hvalue : node.value.isSome)
    (h : ∀ index, node.child index = none) : node.isLeaf = true := by
  rw [VerkleNode.isLeaf, hvalue, Bool.true_and, List.all_eq_true]
  intro c hc
  obtain ⟨index, hindex⟩ := List.mem_iff_getElem?.1 hc
  have hnone := h index
  rw [VerkleNode.child, hindex] at hnone
  obtain rfl : c = none := hnone
  rfl

/-! ### The operations keep the shape -/

section Operations

variable {value : Hash} {path : List ℕ} {index : ℕ}

/-- How an insertion or an update below a child ends: with the node as it was, without the child,
or with what the child has become. -/
inductive ChildStep (kzg : KzgScheme F) (node : VerkleNode) (index : ℕ)
    (below : VerkleNode → Prop) : VerkleNode × Except String Unit → Prop
  | failed (e : String) : ChildStep kzg node index below (node, .error e)
  | lost {rest : VerkleNode} (hremove : node.removeChild kzg index = .ok rest) (e : String) :
      ChildStep kzg node index below (rest, .error e)
  | done {rest c node' : VerkleNode} (hremove : node.removeChild kzg index = .ok rest)
      (hc : below c) (hset : rest.setChild kzg index c = .ok node') :
      ChildStep kzg node index below (node', .ok ())

lemma childStep_insertRecursive (kzg : KzgScheme F) (value : Hash) (index : ℕ) (path : List ℕ)
    (node : VerkleNode) :
    ChildStep kzg node index (fun c => insertRecursive kzg value path
      ((node.child index).getD (newInternal kzg node.nextDepth)) = (c, .ok ()))
      (insertRecursive kzg value (index :: path) node) := by
  rw [insertRecursive]
  split_ifs with hleaf
  · exact .failed _
  · cases hremove : node.removeChild kzg index with
    | error e => exact .failed e
    | ok rest =>
      dsimp only
      rcases insertRecursive kzg value path
        ((node.child index).getD (newInternal kzg node.nextDepth)) with ⟨c, e | ⟨⟩⟩
      · exact .lost hremove _
      · cases hset : rest.setChild kzg index c with
        | error e => simpa only [hset] using .lost hremove _
        | ok node' => simpa only [hset] using .done hremove rfl hset

lemma childStep_updateRecursive (kzg : KzgScheme F) (value : Hash) (index : ℕ) (path : List ℕ)
    (node : VerkleNode) :
    ChildStep kzg node index (fun c => ∃ old, node.child index = some old ∧
      updateRecursive kzg value path old = (c, .ok ()))
      (updateRecursive kzg value (index :: path) node) := by
  rw [updateRecursive]
  cases hremove : node.removeChild kzg index with
  | error e => exact .failed e
  | ok rest =>
    dsimp only
    cases hchild : node.child index with
    | none => exact .lost hremove _
    | some old =>
      dsimp only
      rcases hrec : updateRecursive kzg value path old with ⟨c, e | ⟨⟩⟩
      · exact .lost hremove _
      · cases hset : rest.setChild kzg index c with
        | error e => simpa only [hset] using .lost hremove _
        | ok node' => simpa only [hset] using .done hremove ⟨old, rfl, hrec⟩ hset

/-- The parent takes out a child that has become empty. -/
def Pruned (node : VerkleNode) : Prop := node.value.isNone ∧ node.childrenCount = 0

lemma nextDepth_eq (h : node.depth = d) (hd : d < defaultDepth) : node.nextDepth = d + 1 := by
  rw [nextDepth, h]
  exact Nat.min_eq_left (Nat.le_trans hd (by decide))

lemma Open.child_open (h : Open kzg node d) (hd : d < defaultDepth) (index : ℕ) :
    Open kzg ((node.child index).getD (newInternal kzg node.nextDepth)) (d + 1) := by
  cases hc : node.child index with
  | none =>
    rw [Option.getD_none, nextDepth_eq h.depth hd]
    exact newInternal_open
  | some c => exact (h.children index c hc).open

lemma lt_defaultDepth {α : Type} {x : α} {xs : List α}
    (hlen : d + (x :: xs).length = defaultDepth) : d < defaultDepth :=
  Nat.lt_of_lt_of_eq (Nat.lt_add_of_pos_right (Nat.succ_pos _)) hlen

lemma add_one_length {α : Type} {x : α} {xs : List α}
    (hlen : d + (x :: xs).length = defaultDepth) : d + 1 + xs.length = defaultDepth := by
  rwa [Nat.add_right_comm]

lemma childrenCount_eq_zero (h : ∀ index, node.child index = none) : node.childrenCount = 0 := by
  rw [childrenCount, List.length_eq_zero_iff, List.filter_eq_nil_iff]
  intro c hc
  obtain ⟨index, hindex⟩ := List.mem_iff_getElem?.1 hc
  have hnone := h index
  rw [child, hindex] at hnone
  obtain rfl : c = none := hnone
  exact Bool.false_ne_true

end Operations

end VerkleNode

/-! ### Reachable trees -/

namespace VerkleTree

variable {F : Type} {kzg : KzgScheme F} {tree : VerkleTree}

/-- What every reachable tree is like. -/
structure WellFormed (kzg : KzgScheme F) (tree : VerkleTree) : Prop where
  root : tree.root.Valid kzg 0
  depth : tree.depth = defaultDepth
  branchingFactor : tree.branchingFactor = Crypto.branchingFactor

lemma WellFormed.withRoot (h : tree.WellFormed kzg) {root : VerkleNode}
    (hroot : root.Valid kzg 0) : WellFormed kzg { tree with root := root } :=
  ⟨hroot, h.depth, h.branchingFactor⟩

lemma WellFormed.length_pathIndices (h : tree.WellFormed kzg) (key : Key) :
    (tree.pathIndices key).length = defaultDepth := by
  rw [pathIndices, List.length_map, List.length_take, Vector.length_toList, h.depth]
  rfl

lemma WellFormed.pathIndices_eq (h : tree.WellFormed kzg) (key : Key) :
    tree.pathIndices key = key.toList.map UInt8.toNat := by
  rw [pathIndices, h.depth, h.branchingFactor, List.take_of_length_le (by simp [defaultDepth])]
  refine List.map_congr_left fun byte _ => Nat.mod_eq_of_lt byte.toNat_lt

lemma WellFormed.exists_index (h : tree.WellFormed kzg) (key : Key) :
    ∃ index path, tree.pathIndices key = index :: path ∧ index < tree.root.children.length := by
  have hlen := h.length_pathIndices key
  cases hpath : tree.pathIndices key with
  | nil =>
    rw [hpath] at hlen
    cases hlen
  | cons index path =>
    refine ⟨index, path, rfl, ?_⟩
    rw [h.pathIndices_eq] at hpath
    obtain ⟨byte, -, rfl⟩ := List.mem_map.1 (hpath ▸ List.mem_cons_self)
    exact byte.toNat_lt.trans_eq h.root.nodeOk.width.symm

lemma wellFormed_new (kzg : KzgScheme F) : (VerkleTree.new kzg).WellFormed kzg := by
  refine ⟨VerkleNode.valid_iff.2 ⟨⟨rfl, List.length_replicate, VerkleNode.newInternal_commitment,
    fun _ => rfl, ?_⟩, ?_⟩, rfl, rfl⟩
  · exact fun hle => absurd hle (by decide)
  · exact VerkleNode.newInternal_open.children

lemma get_new (kzg : KzgScheme F) (key : Key) : (VerkleTree.new kzg).get key = none := by
  obtain ⟨index, path, hpath, -⟩ := (wellFormed_new kzg).exists_index key
  have hfind : (VerkleTree.new kzg).findNode key = none := by
    rw [findNode, hpath, VerkleNode.walk]
    exact congrArg (·.bind fun c => c.walk path) (VerkleNode.newInternal_child index)
  rw [get, hfind]
  rfl

end VerkleTree

end Sxiaum.State
