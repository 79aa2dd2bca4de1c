import Sxiaum.Lib.Merkle
import Sxiaum.Types

/-!
# The Merkle tree of the crypto crate

`crypto/src/merkle.rs`. The leaves are nodes as they are, without a tag, so a leaf can be the
hash of a pair or the padding node, and the layers of a tree are lists of leaves with its root.
-/

namespace Sxiaum.Crypto

/-- What is hashed after the domain tag of the nodes: the text of the padding node, or two
nodes. -/
inductive NodeInput where
  | padText
  | pair (left right : Hash)

structure MerkleTree where
  leaves : List Hash
  layers : List (List Hash)

namespace MerkleTree

variable (sha256 : NodeInput → Hash)

def emptyRoot : Hash := 0

def padNode : Hash := sha256 .padText

/-- `hash_pair_into`. -/
def hashPair (left right : Hash) : Hash := sha256 (.pair left right)

/-- The tree as levels; the fresh nodes are no hashes of nodes. -/
def nodes : Merkle Hash where
  pair := hashPair sha256
  pad := padNode sha256
  Fresh x := ∀ input, sha256 input ≠ x

/-- The loop of `build_layers`. -/
def layersLoop (currentLayer : List Hash) : List (List Hash) :=
  if currentLayer.length ≤ 1 then [currentLayer]
  else currentLayer :: layersLoop ((nodes sha256).nextLevel currentLayer)
termination_by currentLayer.length
decreasing_by simp; omega

def buildLayers (leaves : List Hash) : List (List Hash) :=
  if leaves = [] then [] else layersLoop sha256 leaves

def new (leaves : List Hash) : MerkleTree := ⟨leaves, buildLayers sha256 leaves⟩

def root (tree : MerkleTree) : Hash :=
  match tree.layers.getLast? with
  | some lastLayer => lastLayer.headD emptyRoot
  | none => emptyRoot

def parallelRoot (tree : MerkleTree) : Hash :=
  match tree.leaves with
  | [] => emptyRoot
  | [leaf] => leaf
  | leaves => ((nodes sha256).topLevel leaves).headD emptyRoot

lemma getLast?_layersLoop (layer : List Hash) :
    (layersLoop sha256 layer).getLast? = some ((nodes sha256).topLevel layer) := by
  fun_induction layersLoop sha256 layer with
  | case1 layer h => rw [Merkle.topLevel_of_le h]; rfl
  | case2 layer h ih => rw [List.getLast?_cons, ih, Merkle.topLevel_of_lt h]; rfl

lemma root_new (leaves : List Hash) :
    (new sha256 leaves).root = ((nodes sha256).topLevel leaves).headD emptyRoot := by
  rw [root, new, buildLayers]
  split_ifs with h
  · rw [h, Merkle.topLevel_of_le (by simp)]; rfl
  · rw [getLast?_layersLoop]

lemma parallelRoot_new (leaves : List Hash) :
    (new sha256 leaves).parallelRoot sha256 = (new sha256 leaves).root := by
  rw [root_new]
  rcases leaves with _ | ⟨a, _ | ⟨b, rest⟩⟩
  · rw [Merkle.topLevel_of_le (by simp)]; rfl
  · rw [Merkle.topLevel_of_le (by simp)]; rfl
  · rfl

lemma separated_nodes (hfree : Function.Injective sha256) : (nodes sha256).Separated where
  pair_inj h := by simpa using hfree h
  pair_ne_pad h := by simpa using hfree h
  not_fresh_pad h := h _ rfl
  not_fresh_pair h := h _ rfl

/-- A tree without leaves has the root of the tree of one zero leaf. -/
def counted (leaves : List Hash) : List Hash := if leaves = [] then [emptyRoot] else leaves

/-- The second list is a layer of the tree of the first one; the padding node at the end of an
odd layer may be written out. -/
def IsLayer (leaves leaves' : List Hash) : Prop :=
  ∃ layer ∈ (new sha256 (counted leaves)).layers, (nodes sha256).Fills layer (counted leaves')

lemma counted_ne_nil (leaves : List Hash) : counted leaves ≠ [] := by
  rw [counted]
  split_ifs with h
  · exact List.cons_ne_nil _ _
  · exact h

lemma root_counted (leaves : List Hash) :
    (new sha256 (counted leaves)).root = (new sha256 leaves).root := by
  rw [counted]
  split_ifs with h
  · rw [h, root_new, root_new, Merkle.topLevel_of_le (by simp), Merkle.topLevel_of_le (by simp)]
    rfl
  · rfl

lemma mem_layersLoop {layer layer' : List Hash} :
    layer' ∈ layersLoop sha256 layer ↔ (nodes sha256).Leads layer layer' := by
  fun_induction layersLoop sha256 layer with
  | case1 layer h =>
    rw [List.mem_singleton]
    refine ⟨?_, fun hleads => ?_⟩
    · rintro rfl
      exact .refl layer'
    · cases hleads with
      | refl => rfl
      | step hlen _ => exact absurd h hlen
  | case2 layer h ih =>
    rw [List.mem_cons, ih]
    refine ⟨?_, fun hleads => ?_⟩
    · rintro (rfl | hleads)
      · exact .refl layer'
      · exact .step h hleads
    · cases hleads with
      | refl => exact .inl rfl
      | step _ hleads => exact .inr hleads

/-- Two lists have one root exactly if one of them is a layer of the tree of the other; the
parallel computation has the same root. -/
theorem root_new_eq_iff (hfree : Function.Injective sha256) (leaves leaves' : List Hash) :
    ((new sha256 leaves).root = (new sha256 leaves').root ↔
        IsLayer sha256 leaves leaves' ∨ IsLayer sha256 leaves' leaves) ∧
      (new sha256 leaves).parallelRoot sha256 = (new sha256 leaves).root := by
  refine ⟨?_, parallelRoot_new sha256 leaves⟩
  have hlayers : ∀ l l', IsLayer sha256 l l' ↔ ∃ layer, (nodes sha256).Leads (counted l) layer ∧
      (nodes sha256).Fills layer (counted l') := by
    intro l l'
    rw [IsLayer, new, buildLayers, if_neg (counted_ne_nil l)]
    simp only [mem_layersLoop]
  have htop : (nodes sha256).topLevel (counted leaves) = (nodes sha256).topLevel (counted leaves') ↔
      (new sha256 leaves).root = (new sha256 leaves').root := by
    rw [← root_counted, ← root_counted sha256 leaves', root_new, root_new]
    refine ⟨fun h => by rw [h], fun h => ?_⟩
    rw [Merkle.topLevel_eq_singleton (counted_ne_nil leaves) emptyRoot, h,
      ← Merkle.topLevel_eq_singleton (counted_ne_nil leaves') emptyRoot]
  rw [← htop, (separated_nodes sha256 hfree).topLevel_eq_iff, hlayers, hlayers, Merkle.Overlap]

def toySha256 : NodeInput → Hash
  | .padText => 1
  | .pair left right => Nat.pair left right + 2

lemma toySha256_injective : Function.Injective toySha256 := by
  rintro (_ | ⟨a, b⟩) (_ | ⟨c, d⟩) h <;> simp_all [toySha256, Nat.pair_eq_pair]

theorem root_new_pair : (new toySha256 [0]).root ≠ (new toySha256 [0, 0]).root := by
  intro h
  have hlayer := (root_new_eq_iff toySha256 toySha256_injective _ _).1.1 h
  simp [IsLayer, counted, new, buildLayers, layersLoop, nodes, Merkle.nextLevel, Merkle.pairUp,
    Merkle.Fills, hashPair, toySha256] at hlayer

/-- The hash of a pair stands for the pair, and the zero leaf for no leaves. -/
theorem root_new_collision : Function.Injective toySha256 ∧
    (new toySha256 [5, 6]).root = (new toySha256 [hashPair toySha256 5 6]).root ∧
    (new toySha256 []).root = (new toySha256 [0]).root := by
  refine ⟨toySha256_injective, ?_, ?_⟩ <;>
    simp [root, new, buildLayers, layersLoop, nodes, Merkle.nextLevel, Merkle.pairUp, emptyRoot]

end MerkleTree

end Sxiaum.Crypto
