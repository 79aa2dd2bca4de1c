import Sxiaum.Lib.Guards
import Sxiaum.Lib.Merkle
import Sxiaum.Types

/-!
# The Merkle tree of a block body

The root over the hashes of a block body, and the generation and verification of inclusion
proofs (`block/src/body.rs`). The two tagged hashes are parameters.
-/

namespace Sxiaum

open Guards

/-- `tx_merkle_leaf` and `tx_merkle_pair`. -/
structure BodyMerkle where
  txMerkleLeaf : Hash → Hash
  txMerklePair : Hash → Hash → Hash

namespace BodyMerkle

variable (env : BodyMerkle)

/-! ### The tree -/

def merklePadNode : Hash := 0

def padLevelToEven (level : List Hash) : List Hash :=
  if level.length % 2 = 0 then level else level ++ [merklePadNode]

/-- `chunks_exact(2)`. -/
def chunksExact : List Hash → List (Hash × Hash)
  | a :: b :: rest => (a, b) :: chunksExact rest
  | _ => []

/-- The chunks of a level, whose nodes are tagged as leaves if it is the first. -/
def levelChunks (values : List Hash) (first : Bool) : List (Hash × Hash) :=
  chunksExact (padLevelToEven (if first then values.map env.txMerkleLeaf else values))

def buildNextLevel (values : List Hash) (first : Bool) : List Hash :=
  (env.levelChunks values first).map fun chunk => env.txMerklePair chunk.1 chunk.2

/-- The tree as levels; a first level holds tagged leaves. -/
def tree : Merkle Hash where
  pair := env.txMerklePair
  pad := merklePadNode
  Fresh x := ∃ leaf, x = env.txMerkleLeaf leaf

lemma levelChunks_eq (values : List Hash) (first : Bool) : env.levelChunks values first =
    env.tree.pairUp (if first then values.map env.txMerkleLeaf else values) := by
  rw [levelChunks]
  generalize (if first then values.map env.txMerkleLeaf else values) = level
  fun_induction Merkle.pairUp env.tree level with
  | case1 => rfl
  | case2 a => rfl
  | case3 a b rest ih =>
    rw [← ih, padLevelToEven, padLevelToEven, List.length_cons, List.length_cons, Nat.add_assoc,
      Nat.add_mod_right]
    split_ifs <;> rfl

@[simp] lemma length_levelChunks (values : List Hash) (first : Bool) :
    (env.levelChunks values first).length = (values.length + 1) / 2 := by
  cases first <;> simp [levelChunks_eq]

/-- The loop of the root: the last level, and whether it is still the first. -/
def rootLoop (level : List Hash) (first : Bool) : List Hash × Bool :=
  if level.length ≤ 1 then (level, first) else rootLoop (env.buildNextLevel level first) false
termination_by level.length
decreasing_by simp [buildNextLevel]; omega

def calculateMerkleRoot (leaves : List Hash) : Hash :=
  if leaves = [] then 0
  else
    let (level, first) := env.rootLoop leaves true
    if first then env.txMerkleLeaf (level.headD 0) else level.headD 0

/-! ### Proofs -/

/-- The pass over the chunks of a level: the sibling of the current node joins the proof, and
the index is halved in place. -/
def scanChunks : ℕ → List (Hash × Hash) → List Hash → ℕ → List Hash × ℕ
  | _, [], proof, currentIndex => (proof, currentIndex)
  | chunkIndex, (left, right) :: chunks, proof, currentIndex =>
    if chunkIndex * 2 = currentIndex then
      scanChunks (chunkIndex + 1) chunks (proof ++ [right]) (currentIndex / 2)
    else if chunkIndex * 2 + 1 = currentIndex then
      scanChunks (chunkIndex + 1) chunks (proof ++ [left]) (currentIndex / 2)
    else scanChunks (chunkIndex + 1) chunks proof currentIndex

def proofLoop (level : List Hash) (first : Bool) (currentIndex : ℕ) (proof : List Hash) :
    List Hash :=
  if level.length ≤ 1 then proof
  else
    let s := scanChunks 0 (env.levelChunks level first) proof currentIndex
    proofLoop (env.buildNextLevel level first) false s.2 s.1
termination_by level.length
decreasing_by simp [buildNextLevel]; omega

def generateMerkleProof (leaves : List Hash) (index : ℕ) : Except String (List Hash) := do
  bailIf (leaves = []) "Empty leaves list for Merkle operation"
  bailIf (leaves.length ≤ index)
    s!"Transaction index {index} out of bounds (total: {leaves.length})"
  pure (env.proofLoop leaves true index [])

def verifyMerkleProof (leaf : Hash) (index : ℕ) (proof : List Hash) (root : Hash) : Bool :=
  env.tree.walk (env.txMerkleLeaf leaf) index proof = root

variable {env} {leaves leaves' level proof siblings : List Hash} {leaf x : Hash} {index : ℕ}

/-! ### Generated proofs -/

/-- The tagging of the first level is all that tells it from the others. -/
lemma buildNextLevel_eq (values : List Hash) (first : Bool) : env.buildNextLevel values first =
    env.tree.nextLevel (if first then values.map env.txMerkleLeaf else values) := by
  rw [buildNextLevel, levelChunks_eq]
  rfl

lemma rootLoop_false (level : List Hash) :
    env.rootLoop level false = (env.tree.topLevel level, false) := by
  fun_induction Merkle.topLevel env.tree level with
  | case1 level h => rw [rootLoop, if_pos h]
  | case2 level h ih =>
    rw [rootLoop, if_neg h, buildNextLevel_eq]
    exact ih

/-- The root is the last node of the tree over the tagged leaves, and the padding if there are
none. -/
lemma calculateMerkleRoot_eq (leaves : List Hash) : env.calculateMerkleRoot leaves =
    (env.tree.topLevel (leaves.map env.txMerkleLeaf)).headD env.tree.pad := by
  by_cases hlen : leaves.length ≤ 1
  · rw [Merkle.topLevel_of_le (by rwa [List.length_map]), calculateMerkleRoot, rootLoop,
      if_pos hlen]
    rcases leaves with _ | ⟨leaf, rest⟩ <;> rfl
  · rw [calculateMerkleRoot, if_neg (by rintro rfl; exact hlen (Nat.zero_le 1)), rootLoop,
      if_neg hlen, rootLoop_false, buildNextLevel_eq, if_pos rfl,
      ← Merkle.topLevel_of_lt (by rwa [List.length_map])]
    rfl

lemma scanChunks_of_lt : ∀ {chunkIndex currentIndex : ℕ} (chunks : List (Hash × Hash))
    (proof : List Hash), currentIndex < chunkIndex * 2 →
    scanChunks chunkIndex chunks proof currentIndex = (proof, currentIndex)
  | _, _, [], _, _ => rfl
  | chunkIndex, currentIndex, _ :: chunks, proof, h => by
    rw [scanChunks, if_neg (by omega), if_neg (by omega), scanChunks_of_lt _ _ (by omega)]

lemma scanChunks_eq : ∀ {j chunkIndex currentIndex : ℕ} {chunks : List (Hash × Hash)}
    {proof : List Hash} {x sibling : Hash},
    chunks[j]? = some (if currentIndex % 2 = 0 then (x, sibling) else (sibling, x)) →
    currentIndex / 2 = chunkIndex + j →
    scanChunks chunkIndex chunks proof currentIndex = (proof ++ [sibling], currentIndex / 2)
  | 0, chunkIndex, currentIndex, chunk :: chunks, proof, x, sibling, hchunk, h => by
    obtain rfl := Option.some.inj hchunk
    rcases Nat.mod_two_eq_zero_or_one currentIndex with heven | hodd
    · rw [if_pos heven, scanChunks, if_pos (by omega)]
      exact scanChunks_of_lt _ _ (by omega)
    · rw [if_neg (by omega), scanChunks, if_neg (by omega), if_pos (by omega)]
      exact scanChunks_of_lt _ _ (by omega)
  | j + 1, chunkIndex, currentIndex, chunk :: chunks, proof, _, _, hchunk, h => by
    rw [scanChunks, if_neg (by omega), if_neg (by omega)]
    exact scanChunks_eq hchunk (by omega)

lemma proofLoop_eq (hx : level[index]? = some x) :
    env.proofLoop level false index proof = proof ++ env.tree.siblings level index := by
  fun_induction Merkle.siblings env.tree level index generalizing x proof with
  | case1 level index h => rw [proofLoop, if_pos h, List.append_nil]
  | case2 level index h ih =>
    rw [proofLoop, if_neg h, buildNextLevel_eq, levelChunks_eq]
    simp only [Bool.false_eq_true, if_false,
      scanChunks_eq (Merkle.getElem?_pairUp_half hx) (Nat.zero_add _).symm]
    exact (ih (Merkle.getElem?_nextLevel_half hx)).trans (List.append_assoc ..)

lemma proofLoop_true (leaves : List Hash) (index : ℕ) (proof : List Hash) :
    env.proofLoop leaves true index proof =
      env.proofLoop (leaves.map env.txMerkleLeaf) false index proof := by
  conv_rhs => rw [proofLoop, List.length_map]
  rw [proofLoop]
  rfl

/-- Every position of a list of leaves has a proof, and it verifies against the root. -/
theorem verify_generateMerkleProof (leaves : List Hash) (index : Fin leaves.length) :
    ∃ proof, env.generateMerkleProof leaves index = .ok proof ∧
      env.verifyMerkleProof leaves[index] index proof (env.calculateMerkleRoot leaves) = true := by
  have hx : (leaves.map env.txMerkleLeaf)[index.val]? = some (env.txMerkleLeaf leaves[index]) := by
    simp
  refine ⟨env.tree.siblings (leaves.map env.txMerkleLeaf) index, ?_, ?_⟩
  · rw [generateMerkleProof, bailIf, if_neg (List.ne_nil_of_length_pos index.pos), bailIf,
      if_neg (Nat.not_le.2 index.isLt), proofLoop_true, proofLoop_eq hx]
    rfl
  · rw [verifyMerkleProof, calculateMerkleRoot_eq, Merkle.topLevel_eq_walk hx, List.headD_cons]
    exact decide_eq_true rfl

/-! ### Collision-free hashes -/

/-- The two hashes are collision free, differ from each other and from the padding. -/
structure DomainSeparated (env : BodyMerkle) : Prop where
  leaf_inj : Function.Injective env.txMerkleLeaf
  pair_inj : ∀ {a b c d}, env.txMerklePair a b = env.txMerklePair c d → a = c ∧ b = d
  leaf_ne_pair : ∀ {x a b}, env.txMerkleLeaf x ≠ env.txMerklePair a b
  leaf_ne_pad : ∀ {x}, env.txMerkleLeaf x ≠ merklePadNode
  pair_ne_pad : ∀ {a b}, env.txMerklePair a b ≠ merklePadNode

lemma DomainSeparated.separated (h : env.DomainSeparated) : env.tree.Separated where
  pair_inj := h.pair_inj
  pair_ne_pad := h.pair_ne_pad
  not_fresh_pad := fun ⟨_, hx⟩ => h.leaf_ne_pad hx.symm
  not_fresh_pair := fun ⟨_, hx⟩ => h.leaf_ne_pair hx.symm

lemma fresh_leaves (leaves : List Hash) :
    ∀ x ∈ leaves.map env.txMerkleLeaf, env.tree.Fresh x := by
  intro x hx
  obtain ⟨leaf, -, rfl⟩ := List.mem_map.1 hx
  exact ⟨leaf, rfl⟩

/-- The root determines the list of leaves. -/
theorem calculateMerkleRoot_inj (h : env.DomainSeparated) :
    env.calculateMerkleRoot leaves = env.calculateMerkleRoot leaves' ↔ leaves = leaves' := by
  refine ⟨fun hroot => ?_, congrArg _⟩
  rw [calculateMerkleRoot_eq, calculateMerkleRoot_eq] at hroot
  exact List.map_injective_iff.2 h.leaf_inj
    (h.separated.headD_inj (fresh_leaves leaves) (fresh_leaves leaves') hroot)

/-- Hashes on numbers that are collision free and tagged. -/
def toyMerkle : BodyMerkle where
  txMerkleLeaf x := 3 * x + 1
  txMerklePair a b := 3 * Nat.pair a b + 2

lemma separated_toyMerkle : toyMerkle.DomainSeparated where
  leaf_inj a b h := by simpa [toyMerkle] using h
  pair_inj h := by simpa [toyMerkle, Nat.pair_eq_pair] using h
  leaf_ne_pair {x a b} := show (3 * x + 1 : ℕ) ≠ 3 * Nat.pair a b + 2 by omega
  leaf_ne_pad := Nat.succ_ne_zero _
  pair_ne_pad := Nat.succ_ne_zero _

/-- Appending a leaf changes the root. -/
theorem calculateMerkleRoot_three_leaves :
    toyMerkle.calculateMerkleRoot [1, 2, 3] ≠ toyMerkle.calculateMerkleRoot [1, 2, 3, 3] :=
  fun h => absurd ((calculateMerkleRoot_inj separated_toyMerkle).1 h) (by decide)

/-! ### Accepted proofs -/

/-- An accepted leaf is in the list, at the position that the low bits of the index give. -/
lemma DomainSeparated.getElem?_of_verify (h : env.DomainSeparated)
    (hverify : env.verifyMerkleProof leaf index siblings (env.calculateMerkleRoot leaves) = true) :
    leaves[index % 2 ^ siblings.length]? = some leaf ∧ leaves.length ≤ 2 ^ siblings.length := by
  have hwalk := of_decide_eq_true hverify
  rw [calculateMerkleRoot_eq] at hwalk
  obtain ⟨hnode, hle⟩ := h.separated.getElem?_of_walk index siblings
    (fun x hx => h.separated.height_fresh (fresh_leaves leaves x hx)) ⟨leaf, rfl⟩ hwalk.symm
  rw [List.getElem?_map, Option.map_eq_some_iff] at hnode
  rw [List.length_map] at hle
  obtain ⟨leaf', hleaf', heq⟩ := hnode
  rw [h.leaf_inj heq] at hleaf'
  exact ⟨hleaf', hle⟩

/-- An accepted leaf is at its index if and only if the index has no more bits than siblings;
in a list without repetition only the higher bits of a second index can differ. -/
theorem verifyMerkleProof_sound (h : env.DomainSeparated)
    (hverify : env.verifyMerkleProof leaf index siblings (env.calculateMerkleRoot leaves) = true) :
    (index < leaves.length ∧ leaves[index]? = some leaf ↔ index < 2 ^ siblings.length) ∧
      ∀ index', env.verifyMerkleProof leaf index' siblings (env.calculateMerkleRoot leaves) = true →
        leaves.Nodup →
        (index' = index ↔ index' / 2 ^ siblings.length = index / 2 ^ siblings.length) := by
  obtain ⟨hat, hle⟩ := h.getElem?_of_verify hverify
  refine ⟨⟨fun hindex => hindex.1.trans_le hle, fun hindex => ?_⟩,
    fun index' hverify' hnodup => ⟨fun heq => by rw [heq], fun heq => ?_⟩⟩
  · rw [Nat.mod_eq_of_lt hindex] at hat
    exact ⟨(List.getElem?_eq_some_iff.1 hat).1, hat⟩
  · have hat' := (h.getElem?_of_verify hverify').1
    have hmod : index' % 2 ^ siblings.length = index % 2 ^ siblings.length :=
      (List.getElem?_inj (List.getElem?_eq_some_iff.1 hat').1 hnodup).1 (hat'.trans hat.symm)
    rw [← Nat.div_add_mod index' (2 ^ siblings.length), heq, hmod, Nat.div_add_mod]

theorem verifyMerkleProof_second_leaf :
    toyMerkle.verifyMerkleProof 6 1 [16] (toyMerkle.calculateMerkleRoot [5, 6]) = true ∧
      [5, 6][1]? = some 6 := by
  have hverify : toyMerkle.verifyMerkleProof 6 1 [16]
      (toyMerkle.calculateMerkleRoot [5, 6]) = true := by
    simp [verifyMerkleProof, calculateMerkleRoot, rootLoop, Merkle.walk, buildNextLevel,
      levelChunks, padLevelToEven, chunksExact, tree, toyMerkle]
  exact ⟨hverify, ((verifyMerkleProof_sound separated_toyMerkle hverify).1.2 (by decide)).2⟩

/-- The proof of a single leaf is accepted at every index. -/
theorem verifyMerkleProof_past_end : toyMerkle.DomainSeparated ∧
    toyMerkle.verifyMerkleProof 5 0 [] (toyMerkle.calculateMerkleRoot [5]) = true ∧
    toyMerkle.verifyMerkleProof 5 1 [] (toyMerkle.calculateMerkleRoot [5]) = true ∧
    ¬ 1 < [5].length := by
  refine ⟨separated_toyMerkle, ?_, ?_, by decide⟩
  · simp [verifyMerkleProof, calculateMerkleRoot, rootLoop, Merkle.walk]
  · simp [verifyMerkleProof, calculateMerkleRoot, rootLoop, Merkle.walk]

end BodyMerkle

end Sxiaum
