import Sxiaum.State.VerkleProof

/-!
# What an accepted Verkle proof proves

With a binding scheme and collision-free digests, an accepted proof proves its values if the
digests and the KZG commitments in it belong together. Nothing checks that they do: for every
root, key and value a proof can be made that is accepted.
-/

namespace Sxiaum.State

open Crypto Guards

variable {F : Type} {kzg : KzgScheme F}

/-- For every reachable tree, an accepted proof, of one key or of several, in which each
digest belongs to the KZG commitment next to it proves what the tree holds. -/
theorem accepted_proof_sound {tree : VerkleTree} (hbind : kzg.Binding) (hfree : kzg.DigestFree)
    (hreach : VerkleTree.Reachable kzg tree) :
    (∀ (p : VerkleProof) (key : Key) (value : Hash), p.DigestsMatch kzg →
      p.verifyProof kzg key value tree.rootCommitment = .ok true ∨
        p.verifyProofSequential kzg key value tree.rootCommitment = .ok true →
      tree.get key = some value) ∧
    ∀ (m : VerkleMultiProof) (keys : List Key) (values : List Hash), m.DigestsMatch kzg →
      m.verifyMultiproof kzg tree.rootCommitment keys values = .ok true ∨
        m.verifyMultiproofBatched kzg tree.rootCommitment keys values = .ok true →
      ∀ (i : ℕ) (key : Key) (value : Hash), keys[i]? = some key → values[i]? = some value →
        tree.get key = some value := by
  have htree := hreach.wellFormed
  refine ⟨fun p key value hmatch h => ?_, fun m keys values hmatch h i key value hkey hvalue => ?_⟩
  · rcases h with h | h
    · exact VerkleProof.get_of_batched hbind hfree htree hmatch h
    · exact VerkleProof.get_of_sequential hbind hfree htree hmatch h
  · rcases h with h | h
    · exact VerkleMultiProof.get_of_verifyMultiproof hfree htree hmatch hkey hvalue hbind h
    · exact VerkleMultiProof.get_of_verifyMultiproofBatched hfree htree hmatch hkey hvalue hbind h

/-! ### Honest openings -/

/-- The tuple opens a committed vector to its entry at the index. -/
def Honest (kzg : KzgScheme F) (t : List UInt8 × ℕ × F × List UInt8) : Prop :=
  ∃ evals : List F, evals.length = branchingFactor ∧ t.2.1 < branchingFactor ∧
    t.1 = kzg.commitPoint evals ∧ evals[t.2.1]? = some t.2.2.1 ∧ t.2.2.2 = kzg.openPoint evals t.2.1

/-- Honest openings of a batch are accepted. -/
def Complete (kzg : KzgScheme F) : Prop :=
  ∀ tuples, (∀ t ∈ tuples, Honest kzg t) → kzg.batchHolds tuples = .ok true

variable (kzg) in
/-- Points with honest openings lead along a path from digest to digest, down to the leaf. -/
inductive HonestPath (leaf : Hash) :
    Hash → List ℕ → List Hash → List (List UInt8) → List (List UInt8) → Prop
  | nil : HonestPath leaf leaf [] [] [] []
  | cons {root child : Hash} {index : ℕ} {path : List ℕ} {rest : List Hash}
      {point opening : List UInt8} {points openings : List (List UInt8)}
      (honest : Honest kzg (point, index, kzg.fromBeBytes child, opening))
      (next : HonestPath leaf child path rest points openings) :
      HonestPath leaf root (index :: path) (child :: rest) (point :: points) (opening :: openings)

/-- The proof that a path of digests, points and openings makes up. -/
def proofOf (root : Hash) (key : Key) (value : Hash) (rest : List Hash)
    (points openings : List (List UInt8)) : VerkleProof where
  commitments := root :: rest
  kzgCommitments := points ++ [[]]
  openings := openings
  path := keyPath key
  values := List.replicate 32 0 ++ [value]

lemma length_keyPath (key : Key) : (keyPath key).length = 32 := by
  rw [keyPath, List.length_map, Vector.length_toList]

lemma lt_of_mem_keyPath {key : Key} {index : ℕ} (h : index ∈ keyPath key) :
    index < branchingFactor := by
  obtain ⟨byte, -, rfl⟩ := List.mem_map.1 h
  exact byte.toNat_lt

namespace HonestPath

variable {leaf root value : Hash} {key : Key} {path : List ℕ} {rest : List Hash}
  {points openings : List (List UInt8)}

lemma lengths (h : HonestPath kzg leaf root path rest points openings) :
    rest.length = path.length ∧ points.length = path.length ∧ openings.length = path.length := by
  induction h with
  | nil => exact ⟨rfl, rfl, rfl⟩
  | cons _ _ ih =>
    simp only [List.length_cons]
    omega

lemma last (h : HonestPath kzg leaf root path rest points openings) :
    (root :: rest).getLast? = some leaf := by
  induction h with
  | nil => rfl
  | cons _ _ ih => rwa [List.getLast?_cons_cons]

lemma tuples (h : HonestPath kzg leaf root path rest points openings) :
    ∀ t ∈ kzg.batchTuples points path (rest.map some) openings, Honest kzg t := by
  induction h with
  | nil => exact nofun
  | cons honest _ ih => exact List.forall_mem_cons.2 ⟨honest, ih⟩

/-- Every verifier of honest openings accepts the proof, whatever the points stand for. -/
theorem accepted (hcomplete : Complete kzg)
    (h : HonestPath kzg (leafCommitment kzg value) root (keyPath key) rest points openings) :
    (proofOf root key value rest points openings).verifyProof kzg key value root = .ok true := by
  have hpath := length_keyPath key
  obtain ⟨hrest, hpoints, hopenings⟩ := h.lengths
  rw [hpath] at hrest hpoints hopenings
  have hshape : (proofOf root key value rest points openings).validateFullShape key = .ok () := by
    simp only [VerkleProof.validateFullShape, bind_ok, exists_unit, bailIf_ok, not_not]
    refine ⟨List.cons_ne_nil _ _, ?_, rfl, ?_, ?_, ?_⟩ <;>
      simp [proofOf, hpath, hrest, hpoints, hopenings]
  have hvalue : (List.replicate 32 0 ++ [value]).getLast?.getD 0 = value := by
    rw [List.getLast?_append]
    rfl
  refine bind_ok.2 ⟨(), hshape, ?_⟩
  refine (if_neg (not_not.2 rfl)).trans ((if_neg (not_not.2 hvalue)).trans ?_)
  refine bind_ok.2 ⟨true, ?_, congrArg Except.ok (decide_eq_true h.last)⟩
  have hn : (proofOf root key value rest points openings).path.length = 32 := hpath
  have htail : (((root :: rest).drop 1).take 32).map some = rest.map some := by
    rw [List.drop_one, List.tail_cons, List.take_of_length_le hrest.le]
  have htake : (points ++ [[]]).take 32 = points := List.take_left' hpoints
  rw [hn]
  change kzg.verifyBatchedKzgOpeningsMultiPoint ((points ++ [[]]).take 32) (keyPath key)
    ((((root :: rest).drop 1).take 32).map some) openings = .ok true
  rw [htail, htake, kzg.verifyBatched_eq_batchHolds (by rw [hpoints]; decide)]
  · exact hcomplete _ h.tuples
  · rw [hpoints, hpath]
  · rw [hpoints, List.length_map, hrest]
  · rw [hpoints, hopenings]
  · exact fun index hindex => lt_of_mem_keyPath hindex

end HonestPath

/-! ### Forged proofs -/

/-- A vector with one scalar everywhere: it opens to that scalar at every index. -/
def constantEvals (y : F) : List F := List.replicate branchingFactor y

section Forge

variable (kzg) (root : Hash) (key : Key) (value : Hash)

/-- The digests below the root in a forged proof: zeros down to the claimed leaf. -/
def forgedDigests : List Hash := List.replicate 31 0 ++ [leafCommitment kzg value]

/-- A proof for any key and value under any root. The KZG commitments are to constant
vectors of the next digest. -/
def forge : VerkleProof :=
  proofOf root key value (forgedDigests kzg value)
    ((forgedDigests kzg value).map fun h => kzg.commitPoint (constantEvals (kzg.fromBeBytes h)))
    (((forgedDigests kzg value).zip (keyPath key)).map fun q =>
      kzg.openPoint (constantEvals (kzg.fromBeBytes q.1)) q.2)

variable {kzg}

/-- Constant vectors open honestly to any digests. -/
lemma honestPath_constant {leaf root : Hash} {path : List ℕ} {rest : List Hash}
    (hlen : rest.length = path.length) (hlast : (root :: rest).getLast? = some leaf)
    (hpath : ∀ index ∈ path, index < branchingFactor) :
    HonestPath kzg leaf root path rest
      (rest.map fun h => kzg.commitPoint (constantEvals (kzg.fromBeBytes h)))
      ((rest.zip path).map fun q => kzg.openPoint (constantEvals (kzg.fromBeBytes q.1)) q.2) := by
  induction path generalizing rest root with
  | nil =>
    obtain rfl := List.length_eq_zero_iff.1 hlen
    obtain rfl := Option.some.inj hlast
    exact .nil
  | cons index path ih =>
    cases rest with
    | nil => cases hlen
    | cons child rest =>
      obtain ⟨hindex, hpath⟩ := List.forall_mem_cons.1 hpath
      refine .cons ⟨constantEvals (kzg.fromBeBytes child), List.length_replicate, hindex, rfl,
        List.getElem?_replicate_of_lt hindex, rfl⟩ (ih (Nat.succ.inj hlen) ?_ hpath)
      rwa [List.getLast?_cons_cons] at hlast

/-- For every root, key and value there is an accepted proof. -/
theorem forge_accepted (hcomplete : Complete kzg) :
    (forge kzg root key value).verifyProof kzg key value root = .ok true := by
  refine (honestPath_constant ?_ ?_ fun _ h => lt_of_mem_keyPath h).accepted hcomplete
  · rw [forgedDigests, List.length_append, List.length_replicate, length_keyPath]
    rfl
  · rw [forgedDigests, ← List.cons_append, List.getLast?_append]
    rfl

end Forge

/-! ### Proofs from the tree -/

/-- The nodes on the path to a value make up an honest path whose digests belong to its points. -/
theorem exists_honestPath {node : VerkleNode} {d : ℕ} {path : List ℕ} {value : Hash}
    (hvalid : node.Valid kzg d) (hlen : d + path.length = defaultDepth)
    (hpath : ∀ index ∈ path, index < branchingFactor) (hvalue : node.valueAt path = some value) :
    ∃ rest points openings,
      HonestPath kzg (leafCommitment kzg value) node.commitment path rest points openings ∧
        ∀ (j : ℕ) (digest : Hash) (point : List UInt8),
          (node.commitment :: rest)[j]? = some digest → points[j]? = some point →
            Tied kzg digest point := by
  induction path generalizing node d with
  | nil =>
    have hok := hvalid.nodeOk
    have hchildren : node.children = List.replicate branchingFactor none := by
      refine List.eq_replicate_iff.2 ⟨hok.width, fun c hc => ?_⟩
      obtain ⟨index, hindex⟩ := List.mem_iff_getElem?.1 hc
      have hnone := (hok.leaf hlen.ge).2 index
      rwa [VerkleNode.child, hindex] at hnone
    have hleaf : node.commitment = leafCommitment kzg value := by
      rw [leafCommitment, VerkleNode.commitment_newLeaf, hok.commitment,
        VerkleNode.computeCommitment, VerkleNode.vectorValues, VerkleNode.vectorValues, hchildren,
        show node.value = some value from hvalue]
      rfl
    refine ⟨[], [], [], hleaf ▸ .nil, fun j digest point _ hpoint => ?_⟩
    simp at hpoint
  | cons index path ih =>
    obtain ⟨hindex, hpath⟩ := List.forall_mem_cons.1 hpath
    obtain ⟨c, hc, hold⟩ := VerkleNode.child_of_valueAt (by rw [hvalue]; rfl)
    obtain ⟨rest, points, openings, hhonest, htied⟩ :=
      ih (hvalid.child hc) (VerkleNode.add_one_length hlen) hpath ((hold path).trans hvalue)
    have hok := hvalid.nodeOk
    refine ⟨c.commitment :: rest, kzg.computeKzgCommitmentBytes node.vectorValues :: points,
      kzg.openPoint (kzg.evaluations node.vectorValues) index :: openings, .cons ?_ hhonest, ?_⟩
    · refine ⟨kzg.evaluations node.vectorValues, kzg.length_evaluations _, hindex, rfl, ?_, rfl⟩
      rw [kzg.getElem?_evaluations _ hindex,
        VerkleNode.join_vectorValues (hok.width ▸ hindex), hc]
      rfl
    · intro j digest point hdigest hpoint
      cases j with
      | zero =>
        obtain rfl := Option.some.inj hdigest
        obtain rfl := Option.some.inj hpoint
        exact ⟨node.vectorValues, hok.commitment, rfl⟩
      | succ j => exact htied j digest point hdigest hpoint

/-- Every value in the tree has an accepted proof whose digests match. -/
theorem exists_accepted (hcomplete : Complete kzg) {tree : VerkleTree} (htree : tree.WellFormed kzg)
    {key : Key} {value : Hash} (hget : tree.get key = some value) :
    ∃ p : VerkleProof, p.DigestsMatch kzg ∧
      p.verifyProof kzg key value tree.rootCommitment = .ok true := by
  rw [htree.get_eq_valueAt, htree.pathIndices_eq] at hget
  obtain ⟨rest, points, openings, hhonest, htied⟩ := exists_honestPath htree.root
    (by rw [length_keyPath]; rfl) (fun _ h => lt_of_mem_keyPath h) hget
  refine ⟨proofOf tree.rootCommitment key value rest points openings, ?_,
    hhonest.accepted hcomplete⟩
  intro j digest point hj hdigest hpoint
  refine htied j digest point hdigest ?_
  rwa [proofOf, List.getElem?_append_left (by rw [hhonest.lengths.2.1]; exact hj)] at hpoint

/-! ### A scheme that meets the assumptions -/

def unary (evals : List ℕ) : List UInt8 := evals.flatMap fun n => List.replicate n 1 ++ [0]

def ofUnary : List UInt8 → List ℕ
  | [] => []
  | b :: bytes =>
    if b = 0 then 0 :: ofUnary bytes
    else
      match ofUnary bytes with
      | [] => []
      | n :: ns => (n + 1) :: ns

lemma ofUnary_cons (n : ℕ) (bytes : List UInt8) :
    ofUnary (List.replicate n 1 ++ 0 :: bytes) = n :: ofUnary bytes := by
  induction n with
  | zero => rfl
  | succ n ih =>
    rw [List.replicate_succ, List.cons_append, ofUnary, if_neg (by decide), ih]

lemma ofUnary_unary (evals : List ℕ) : ofUnary (unary evals) = evals := by
  induction evals with
  | nil => rfl
  | cons n evals ih =>
    rw [unary, List.flatMap_cons, List.append_assoc, List.singleton_append, ofUnary_cons]
    exact congrArg (n :: ·) ih

/-- Scalars are numbers, a commitment spells its vector, and the digest is an injective
code. -/
def plainKzg : KzgScheme ℕ where
  fromBeBytes := id
  commitPoint := unary
  openPoint := fun _ _ => []
  openingHolds := fun commitment index y _ => .ok ((ofUnary commitment)[index]? = some y)
  batchHolds := fun tuples => .ok (∀ t ∈ tuples, (ofUnary t.1)[t.2.1]? = some t.2.2.1)
  commitmentDigest := fun point values => Encodable.encode (point.map UInt8.toNat, values) + 1

lemma plainKzg_binding : plainKzg.Binding where
  single := fun _ _ h => by
    have hval := of_decide_eq_true (Except.ok.inj h)
    rwa [show plainKzg.commitPoint = unary from rfl, ofUnary_unary] at hval
  batch := fun _ _ hmem h => by
    have hval := of_decide_eq_true (Except.ok.inj h) _ hmem
    rwa [show plainKzg.commitPoint = unary from rfl, ofUnary_unary] at hval

lemma plainKzg_digestFree : plainKzg.DigestFree where
  injective := fun {point point' values values'} h => by
    have hcode : (point.map UInt8.toNat, values) = (point'.map UInt8.toNat, values') :=
      Encodable.encode_injective (Nat.succ.inj h)
    obtain ⟨hpoint, hvalues⟩ := Prod.mk.inj hcode
    exact ⟨List.map_injective_iff.2 (fun _ _ => UInt8.toNat_inj.1) hpoint, hvalues⟩
  ne_zero := Nat.succ_ne_zero _

lemma plainKzg_complete : Complete plainKzg := by
  intro tuples h
  refine congrArg Except.ok (decide_eq_true fun t ht => ?_)
  obtain ⟨evals, -, -, hcommit, hval, -⟩ := h t ht
  rw [hcommit]
  exact (congrArg (·[t.2.1]?) (ofUnary_unary evals)).trans hval

def zeroKey : Key := Vector.replicate 32 0

/-- A proof for a key of the empty tree is accepted. -/
theorem forged_proof_for_empty_tree : plainKzg.Binding ∧ plainKzg.DigestFree ∧
    (forge plainKzg (VerkleTree.new plainKzg).rootCommitment zeroKey 7).verifyProof plainKzg zeroKey
      7 (VerkleTree.new plainKzg).rootCommitment = .ok true ∧
    (VerkleTree.new plainKzg).get zeroKey = none := by
  exact ⟨plainKzg_binding, plainKzg_digestFree, forge_accepted _ _ _ plainKzg_complete,
    VerkleTree.get_new plainKzg zeroKey⟩

/-- In a tree with one key the proof of the key is accepted, with digests that match. -/
theorem accepted_proof_sound_one_key :
    let tree := ((VerkleTree.new plainKzg).insert plainKzg zeroKey 7).1
    ∃ p : VerkleProof, p.DigestsMatch plainKzg ∧
      p.verifyProof plainKzg zeroKey 7 tree.rootCommitment = .ok true ∧
      tree.get zeroKey = some 7 := by
  intro tree
  have hreach : VerkleTree.Reachable plainKzg tree := .insert zeroKey 7 .new
  have hget : tree.get zeroKey = some 7 := by
    obtain ⟨t, hinsert, -, hget⟩ : ∃ t, VerkleTree.insert plainKzg (.new plainKzg) zeroKey 7 =
        (t, .ok ()) ∧ _ :=
      VerkleTree.insert_spec (VerkleTree.good_new plainKzg) (VerkleTree.get_new plainKzg zeroKey)
    rw [show tree = t from congrArg Prod.fst hinsert, hget, if_pos rfl]
  obtain ⟨p, hmatch, hok⟩ := exists_accepted plainKzg_complete hreach.wellFormed hget
  exact ⟨p, hmatch, hok, (accepted_proof_sound plainKzg_binding plainKzg_digestFree hreach).1 p
    zeroKey 7 hmatch (.inl hok)⟩

end Sxiaum.State
