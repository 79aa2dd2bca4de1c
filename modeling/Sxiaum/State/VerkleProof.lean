import Sxiaum.State.TreeContents

/-!
# Verkle proofs

`VerkleProof` and `VerkleMultiProof` (`state/src/proof.rs`) and their four verifiers. A proof
carries two descriptions of each node on the path: its digest (`commitments`) and its KZG
commitment (`kzg_commitments`). The digests are chained by the openings of the KZG
commitments, but no verifier compares the two descriptions.
-/

namespace Sxiaum.State

open Crypto Guards VerkleNode

/-! ### Proofs of one key -/

structure VerkleProof where
  commitments : List Hash
  kzgCommitments : List (List UInt8)
  openings : List (List UInt8)
  path : List ℕ
  values : List Hash
deriving DecidableEq

def keyPath (key : Key) : List ℕ := key.toList.map UInt8.toNat

def leafCommitment {F : Type} (kzg : KzgScheme F) (value : Hash) : Hash :=
  (VerkleNode.newLeaf kzg value).commitment

namespace VerkleProof

variable {F : Type} (kzg : KzgScheme F) (p : VerkleProof) (key : Key) (value root : Hash)

def validateFullShape : Except String Unit := do
  bailIf (p.commitments = []) "proof commitments cannot be empty"
  bailIf (p.values.length ≠ p.commitments.length)
    "proof values length must match commitments length"
  bailIf (p.path ≠ keyPath key) "proof path does not match key bytes"
  bailIf (p.commitments.length ≠ p.path.length + 1)
    "proof commitments length must be path length plus one"
  bailIf (p.kzgCommitments.length ≠ p.commitments.length)
    "proof KZG commitments length must match commitments length"
  bailIf (p.openings.length ≠ p.path.length) "proof opening length must match path length"

/-- The frame of both verifiers around the check of the openings. -/
def verifyWith (openingsHold : Except String Bool) : Except String Bool := do
  p.validateFullShape key
  if p.commitments.head? ≠ some root then .ok false
  else if p.values.getLast?.getD 0 ≠ value then .ok false
  else do
    let ok ← openingsHold
    if ok then .ok (p.commitments.getLast? = some (leafCommitment kzg value)) else .ok false

def verifyProofBatched : Except String Bool :=
  let n := p.path.length
  let evaluations := ((p.commitments.drop 1).take n).map some
  p.verifyWith kzg key value root
    (kzg.verifyBatchedKzgOpeningsMultiPoint (p.kzgCommitments.take n) p.path evaluations p.openings)

def verifyProof : Except String Bool := p.verifyProofBatched kzg key value root

def verifyProofSequential : Except String Bool :=
  p.verifyWith kzg key value root
    (allHold (fun (commitment, index, child, opening) =>
        kzg.verifyKzgOpening commitment index (some child) opening)
      (p.kzgCommitments.zip (p.path.zip ((p.commitments.drop 1).zip p.openings))))

end VerkleProof

/-! ### Proofs of several keys -/

structure VerkleMultiProof where
  root : Hash
  sharedCommitments : List (List UInt8)
  sharedOpenings : List (List UInt8)
  sharedIndices : List ℕ
  sharedEvaluations : List (Option Hash)
  keyCommitmentRefs : List (List ℕ)
  leafValues : List Hash
  sharedSelfDigests : List Hash
deriving DecidableEq

namespace VerkleMultiProof

variable {F : Type} (kzg : KzgScheme F) (m : VerkleMultiProof) (root : Hash) (keys : List Key)
  (values : List Hash)

/-- The checks of lengths and of the claimed values. -/
def ShapeOk : Prop :=
  keys.length = m.leafValues.length ∧ values.length = keys.length ∧
    m.sharedOpenings.length = m.sharedCommitments.length ∧
    m.sharedIndices.length = m.sharedCommitments.length ∧
    m.sharedEvaluations.length = m.sharedCommitments.length ∧
    m.sharedSelfDigests.length = m.sharedCommitments.length ∧
    m.keyCommitmentRefs.length = keys.length ∧ m.leafValues = values

instance : Decidable (m.ShapeOk keys values) := inferInstanceAs (Decidable (_ ∧ _))

/-- The path of one key: indices, anchor, links between levels, and leaf. -/
def PathOk (key : Key) (refs : List ℕ) (leafValue : Hash) : Prop :=
  refs.length = (keyPath key).length ∧ refs ≠ [] ∧
    (∀ q ∈ refs.zip (keyPath key),
      q.1 < m.sharedCommitments.length ∧ m.sharedIndices[q.1]? = some q.2) ∧
    refs.head?.bind (m.sharedSelfDigests[·]?) = some root ∧
    (∀ q ∈ refs.zip refs.tail,
      m.sharedSelfDigests[q.2]? = (m.sharedEvaluations[q.1]?).join) ∧
    refs.getLast?.bind (fun r => (m.sharedEvaluations[r]?).join) =
      some (leafCommitment kzg leafValue)

instance (key : Key) (refs : List ℕ) (leafValue : Hash) :
    Decidable (m.PathOk kzg root key refs leafValue) := inferInstanceAs (Decidable (_ ∧ _))

/-- The frame of both verifiers around the check of the openings. -/
def verifyWith (openingsHold : Except String Bool) : Except String Bool :=
  if m.ShapeOk keys values then do
    let ok ← openingsHold
    if ok then
      .ok (∀ q ∈ keys.zip (m.keyCommitmentRefs.zip m.leafValues),
        m.PathOk kzg root q.1 q.2.1 q.2.2)
    else .ok false
  else .ok false

def verifyMultiproof : Except String Bool :=
  m.verifyWith kzg root keys values
    (allHold (fun (commitment, index, evaluation, opening) =>
        kzg.verifyKzgOpening commitment index evaluation opening)
      (m.sharedCommitments.zip (m.sharedIndices.zip (m.sharedEvaluations.zip m.sharedOpenings))))

def verifyMultiproofBatched : Except String Bool :=
  m.verifyWith kzg root keys values
    (kzg.verifyBatchedKzgOpeningsMultiPoint m.sharedCommitments m.sharedIndices
      m.sharedEvaluations m.sharedOpenings)

end VerkleMultiProof

/-! ### Chains of digests -/

section Chains

variable {F : Type} (kzg : KzgScheme F)

/-- One node on a path as a proof describes it, and the digest of the next one. -/
structure Level where
  digest : Hash
  point : List UInt8
  index : ℕ
  child : Hash

/-- A digest and a point that belong to one vector. -/
def Tied (digest : Hash) (point : List UInt8) : Prop :=
  ∃ values, digest = kzg.computeKzgCommitment values ∧ point = kzg.computeKzgCommitmentBytes values

/-- The levels lead from a digest to a leaf: each point opens to the digest of the next. -/
def Chain (leaf : Hash) : Hash → List Level → Prop
  | h, [] => h = leaf
  | h, l :: levels =>
    l.digest = h ∧ kzg.OpensTo l.point l.index (some l.child) ∧ Chain leaf l.child levels

variable {kzg}

lemma child_of_opensTo (hfree : kzg.DigestFree) {node : VerkleNode} {d : ℕ}
    (hvalid : node.Valid kzg d) (hd : d < defaultDepth) {point : List UInt8} {index : ℕ} {h : Hash}
    (htied : Tied kzg node.commitment point) (hopen : kzg.OpensTo point index (some h))
    {values : List (Option Hash)} (hdigest : h = kzg.computeKzgCommitment values) :
    ∃ c, node.child index = some c ∧ c.commitment = h := by
  have hok := hvalid.nodeOk
  obtain ⟨vector, hcommit, rfl⟩ := htied
  have hevals : kzg.evaluations vector = kzg.evaluations node.vectorValues := by
    have hslots := hfree.digestedSlots_eq (congrArg _ (hcommit.symm.trans hok.commitment))
    rw [← KzgScheme.map_digestedSlots, ← KzgScheme.map_digestedSlots, hslots]
  obtain ⟨hindex, hval⟩ := hopen _ (kzg.length_evaluations vector) rfl
  rw [hevals, kzg.getElem?_evaluations _ hindex,
    join_vectorValues (by rw [hok.width]; exact hindex), hok.internal hd, ite_self,
    Option.or_none, Option.some.injEq] at hval
  cases hc : node.child index with
  | none =>
    rw [hc] at hval
    subst hdigest
    rw [KzgScheme.computeKzgCommitment_eq] at hval
    exact absurd hval.symm hfree.ne_zero
  | some c =>
    rw [hc] at hval
    have hcok := (hvalid.child hc).nodeOk.commitment
    refine ⟨c, rfl, ?_⟩
    rw [hcok, hdigest]
    have hbytes := (congrArg kzg.fromBeBytes hcok).symm.trans hval
    rw [hdigest] at hbytes
    rw [computeCommitment, KzgScheme.computeKzgCommitment_eq, KzgScheme.computeKzgCommitment_eq]
      at hbytes ⊢
    obtain ⟨hpoint, hslots⟩ := hfree.injective hbytes
    rw [hpoint, hslots]

lemma value_of_leafCommitment (hfree : kzg.DigestFree) {node : VerkleNode}
    (hvalid : node.Valid kzg defaultDepth) {value : Hash}
    (h : node.commitment = leafCommitment kzg value) : node.value = some value := by
  obtain ⟨hsome, hleaf⟩ := hvalid.nodeOk.leaf (Nat.le_refl _)
  obtain ⟨stored, hstored⟩ := Option.isSome_iff_exists.1 hsome
  have hcommit : kzg.computeKzgCommitment node.vectorValues =
      kzg.computeKzgCommitment (newLeaf kzg value).vectorValues := by
    rw [← commitment_newLeaf, ← leafCommitment, ← h]
    exact hvalid.nodeOk.commitment.symm
  have hzero : (KzgScheme.digestedSlots node.vectorValues)[0]? =
      (KzgScheme.digestedSlots (newLeaf kzg value).vectorValues)[0]? := by
    rw [hfree.digestedSlots_eq (congrArg _ hcommit)]
  rw [digestedSlots_zero hvalid.nodeOk.width hleaf hstored,
    digestedSlots_zero List.length_replicate (child_of_replicate rfl) rfl,
    Option.some.injEq] at hzero
  rw [hstored]
  split_ifs at hzero with h1 h2 h2
  · rw [h1, h2]
  · exact hzero

/-- A chain of tied levels from the commitment of a node is a path in the tree: by induction
on the levels, each opening leads to a child with the next digest. -/
theorem Chain.sound (hfree : kzg.DigestFree) {value : Hash} {levels : List Level}
    {node : VerkleNode} {d : ℕ} (hvalid : node.Valid kzg d)
    (hlen : d + levels.length = defaultDepth)
    (hchain : Chain kzg (leafCommitment kzg value) node.commitment levels)
    (htied : ∀ l ∈ levels, Tied kzg l.digest l.point) :
    node.valueAt (levels.map Level.index) = some value := by
  induction levels generalizing node d with
  | nil =>
    obtain rfl : d = defaultDepth := hlen
    exact value_of_leafCommitment hfree hvalid hchain
  | cons l levels ih =>
    obtain ⟨hdigest, hopen, hrest⟩ := hchain
    obtain ⟨hnode, htied⟩ := List.forall_mem_cons.1 htied
    have hnext : ∃ values, l.child = kzg.computeKzgCommitment values := by
      cases levels with
      | nil => exact ⟨_, hrest.trans (commitment_newLeaf value)⟩
      | cons next levels =>
        obtain ⟨values, hvalues, -⟩ := htied next List.mem_cons_self
        exact ⟨values, hrest.1.symm.trans hvalues⟩
    obtain ⟨values, hvalues⟩ := hnext
    obtain ⟨c, hc, hcommit⟩ :=
      child_of_opensTo hfree hvalid (lt_defaultDepth hlen) (hdigest ▸ hnode) hopen hvalues
    rw [List.map_cons, valueAt_cons, hc]
    exact ih (hvalid.child hc) (add_one_length hlen) (hcommit ▸ hrest) htied

/-- A chain of tied levels from the root along the path of a key proves the key's value. -/
lemma VerkleTree.WellFormed.get_of_chain {tree : VerkleTree} (h : tree.WellFormed kzg)
    (hfree : kzg.DigestFree) {key : Key} {value : Hash} {levels : List Level}
    (hindices : levels.map Level.index = keyPath key)
    (hchain : Chain kzg (leafCommitment kzg value) tree.rootCommitment levels)
    (htied : ∀ l ∈ levels, Tied kzg l.digest l.point) : tree.get key = some value := by
  have hpath : levels.map Level.index = tree.pathIndices key :=
    hindices.trans (h.pathIndices_eq key).symm
  have hlen : 0 + levels.length = defaultDepth := by
    rw [Nat.zero_add, ← List.length_map Level.index, hpath, h.length_pathIndices]
  rw [h.get_eq_valueAt, ← hpath]
  exact Chain.sound hfree h.root hlen hchain htied

end Chains

/-! ### Soundness for one key -/

/-- The levels that three parallel lists describe. -/
def levelsOf : List Hash → List (List UInt8) → List ℕ → List Level
  | h :: child :: hs, point :: points, index :: path =>
    ⟨h, point, index, child⟩ :: levelsOf (child :: hs) points path
  | _, _, _ => []

section Single

variable {F : Type} {kzg : KzgScheme F}

lemma chain_levelsOf {h leaf : Hash} {hs : List Hash} {points : List (List UInt8)} {path : List ℕ}
    (hlen : hs.length = path.length) (hpoints : path.length ≤ points.length)
    (hlast : (h :: hs).getLast? = some leaf)
    (hopen : ∀ (j : ℕ) (point : List UInt8) (index : ℕ) (child : Hash), points[j]? = some point →
      path[j]? = some index → hs[j]? = some child → kzg.OpensTo point index (some child)) :
    Chain kzg leaf h (levelsOf (h :: hs) points path) ∧
      (levelsOf (h :: hs) points path).map Level.index = path := by
  induction path generalizing h hs points with
  | nil =>
    obtain rfl : hs = [] := List.length_eq_zero_iff.1 hlen
    rw [levelsOf]
    · exact ⟨Option.some.inj hlast, rfl⟩
    · simp
  | cons index path ih =>
    cases hs with
    | nil => cases hlen
    | cons child hs =>
      cases points with
      | nil => cases hpoints
      | cons point points =>
        have htail := ih (Nat.succ.inj hlen) (Nat.le_of_succ_le_succ hpoints)
          (by rwa [List.getLast?_cons_cons] at hlast)
          fun j point index child hp hi hc => hopen (j + 1) point index child hp hi hc
        rw [levelsOf]
        exact ⟨⟨rfl, hopen 0 point index child rfl rfl rfl, htail.1⟩,
          congrArg (index :: ·) htail.2⟩

lemma mem_levelsOf {hs : List Hash} {points : List (List UInt8)} {path : List ℕ} {l : Level}
    (h : l ∈ levelsOf hs points path) :
    ∃ j, j < path.length ∧ hs[j]? = some l.digest ∧ points[j]? = some l.point := by
  induction hs, points, path using levelsOf.induct with
  | case1 h child hs point points index path ih =>
    rw [levelsOf, List.mem_cons] at h
    rcases h with rfl | h
    · exact ⟨0, Nat.succ_pos _, rfl, rfl⟩
    · obtain ⟨j, hj, hdigest, hpoint⟩ := ih h
      exact ⟨j + 1, Nat.succ_lt_succ hj, hdigest, hpoint⟩
  | case2 hs points path hne =>
    rw [levelsOf] at h
    · cases h
    · exact hne

namespace VerkleProof

variable {p : VerkleProof} {key : Key} {value root : Hash}

/-- The digest and the KZG commitment of every inner node of the proof belong together. -/
def DigestsMatch (kzg : KzgScheme F) (p : VerkleProof) : Prop :=
  ∀ (j : ℕ) (digest : Hash) (point : List UInt8), j < p.path.length →
    p.commitments[j]? = some digest → p.kzgCommitments[j]? = some point → Tied kzg digest point

/-- What an accepted proof looks like. -/
structure Accepted (kzg : KzgScheme F) (p : VerkleProof) (key : Key) (value root : Hash)
    (rest : List Hash) : Prop where
  path : p.path = keyPath key
  commitments : p.commitments = root :: rest
  length_rest : rest.length = p.path.length
  length_points : p.kzgCommitments.length = p.path.length + 1
  length_openings : p.openings.length = p.path.length
  leaf : (root :: rest).getLast? = some (leafCommitment kzg value)

variable {openingsHold : Except String Bool} {tree : VerkleTree}

lemma verifyWith_true (h : p.verifyWith kzg key value root openingsHold = .ok true) :
    openingsHold = .ok true ∧ ∃ rest, p.Accepted kzg key value root rest := by
  simp only [verifyWith, validateFullShape, bind_ok, exists_unit, bailIf_ok, not_not] at h
  obtain ⟨⟨hne, -, hpath, hlen, hpoints, hopenings⟩, h⟩ := h
  split_ifs at h with hroot hvalue
  · simp at h
  · simp at h
  · obtain ⟨ok, hok, h⟩ := bind_ok.1 h
    split_ifs at h with htrue
    · rw [htrue] at hok
      have hleaf := of_decide_eq_true (Except.ok.inj h)
      obtain ⟨first, rest, hcommitments⟩ := List.exists_cons_of_ne_nil hne
      rw [hcommitments, List.head?_cons, ne_eq, not_not, Option.some.injEq] at hroot
      subst hroot
      rw [hcommitments] at hlen hleaf hpoints
      exact ⟨hok, rest, hpath, hcommitments, Nat.succ.inj hlen, hpoints.trans hlen, hopenings,
        hleaf⟩
    · simp at h

/-- An accepted proof whose descriptions match proves the value of its key. -/
lemma Accepted.get_eq (hfree : kzg.DigestFree) (htree : tree.WellFormed kzg)
    {rest : List Hash} (hacc : p.Accepted kzg key value tree.rootCommitment rest)
    (hmatch : p.DigestsMatch kzg)
    (hopen : ∀ (j : ℕ) (point : List UInt8) (index : ℕ) (child : Hash),
      p.kzgCommitments[j]? = some point → p.path[j]? = some index → rest[j]? = some child →
      kzg.OpensTo point index (some child)) : tree.get key = some value := by
  obtain ⟨hchain, hindices⟩ := chain_levelsOf hacc.length_rest
    (hacc.length_points ▸ Nat.le_succ _) hacc.leaf hopen
  refine htree.get_of_chain hfree (hindices.trans hacc.path) hchain fun l hl => ?_
  obtain ⟨j, hj, hdigest, hpoint⟩ := mem_levelsOf hl
  exact hmatch j l.digest l.point hj (hacc.commitments ▸ hdigest) hpoint

lemma get_of_batched (hbind : kzg.Binding) (hfree : kzg.DigestFree)
    (htree : tree.WellFormed kzg) (hmatch : p.DigestsMatch kzg)
    (h : p.verifyProofBatched kzg key value tree.rootCommitment = .ok true) :
    tree.get key = some value := by
  obtain ⟨hbatch, rest, hacc⟩ := verifyWith_true h
  refine hacc.get_eq hfree htree hmatch fun j point index child hp hi hc => ?_
  have hj : j < p.path.length := (List.getElem?_eq_some_iff.1 hi).1
  rw [hacc.commitments, List.drop_one, List.tail_cons,
    List.take_of_length_le (Nat.le_of_eq hacc.length_rest)] at hbatch
  refine hbind.opensTo_of_batch hbatch (j := j) ?_ hi ?_
  · rw [List.getElem?_take_of_lt hj, hp]
  · rw [List.getElem?_map, hc]
    rfl

lemma get_of_sequential (hbind : kzg.Binding) (hfree : kzg.DigestFree)
    (htree : tree.WellFormed kzg) (hmatch : p.DigestsMatch kzg)
    (h : p.verifyProofSequential kzg key value tree.rootCommitment = .ok true) :
    tree.get key = some value := by
  obtain ⟨hall, rest, hacc⟩ := verifyWith_true h
  refine hacc.get_eq hfree htree hmatch fun j point index child hp hi hc => ?_
  have hj : j < p.openings.length := hacc.length_openings ▸ (List.getElem?_eq_some_iff.1 hi).1
  rw [hacc.commitments, List.drop_one, List.tail_cons] at hall
  exact hbind.opensTo (allHold_true.1 hall _
    (KzgScheme.mem_zip_zip_zip hp hi hc (List.getElem?_eq_getElem hj)))

end VerkleProof

end Single

/-! ### Soundness for several keys -/

namespace VerkleMultiProof

variable {F : Type} {kzg : KzgScheme F} {m : VerkleMultiProof} {keys : List Key}
  {values : List Hash}

/-- The entry of the shared arrays that a reference names. -/
def level (m : VerkleMultiProof) (r : ℕ) : Level where
  digest := m.sharedSelfDigests[r]?.getD 0
  point := m.sharedCommitments[r]?.getD []
  index := m.sharedIndices[r]?.getD 0
  child := (m.sharedEvaluations[r]?).join.getD 0

/-- The digest and the KZG commitment of every shared entry belong together. -/
def DigestsMatch (kzg : KzgScheme F) (m : VerkleMultiProof) : Prop :=
  ∀ (j : ℕ) (digest : Hash) (point : List UInt8), m.sharedSelfDigests[j]? = some digest →
    m.sharedCommitments[j]? = some point → Tied kzg digest point

lemma getElem?_eq_some_getD {α : Type} {xs : List α} {r : ℕ} (h : r < xs.length) (a : α) :
    xs[r]? = some (xs[r]?.getD a) := by
  rw [List.getElem?_eq_getElem h]
  rfl

lemma chain_refs {leaf h : Hash} {refs : List ℕ}
    (hhead : refs.head?.bind (m.sharedSelfDigests[·]?) = some h)
    (hbound : ∀ r ∈ refs, r < m.sharedSelfDigests.length)
    (hlink : ∀ q ∈ refs.zip refs.tail,
      m.sharedSelfDigests[q.2]? = (m.sharedEvaluations[q.1]?).join)
    (hlast : refs.getLast?.bind (fun r => (m.sharedEvaluations[r]?).join) = some leaf)
    (hopen : ∀ r ∈ refs, ∀ child, (m.sharedEvaluations[r]?).join = some child →
      kzg.OpensTo (m.level r).point (m.level r).index (some child)) :
    Chain kzg leaf h (refs.map m.level) := by
  induction refs generalizing h with
  | nil => cases hhead
  | cons r refs ih =>
    have hdigest : (m.level r).digest = h := congrArg (·.getD 0) hhead
    cases refs with
    | nil =>
      have hchild : (m.level r).child = leaf := congrArg (·.getD 0) hlast
      exact ⟨hdigest, hchild ▸ hopen r List.mem_cons_self leaf hlast, hchild⟩
    | cons r' refs =>
      have hr' : r' < m.sharedSelfDigests.length :=
        hbound r' (List.mem_cons_of_mem r List.mem_cons_self)
      -- the link to the next level says what this level is opened to
      have hchild := hlink (r, r') List.mem_cons_self
      rw [List.getElem?_eq_getElem hr'] at hchild
      have heval : (m.level r).child = m.sharedSelfDigests.get ⟨r', hr'⟩ :=
        congrArg (·.getD 0) hchild.symm
      refine ⟨hdigest, heval ▸ hopen r List.mem_cons_self _ hchild.symm, ?_⟩
      rw [heval]
      refine ih (List.getElem?_eq_getElem hr') (fun s hs => hbound s (List.mem_cons_of_mem r hs))
        (fun q hq => hlink q (List.mem_cons_of_mem _ hq)) ?_
        (fun s hs => hopen s (List.mem_cons_of_mem r hs))
      rwa [List.getLast?_cons_cons] at hlast

lemma map_index_level {refs path : List ℕ} (hlen : refs.length = path.length)
    (h : ∀ q ∈ refs.zip path, m.sharedIndices[q.1]? = some q.2) :
    (refs.map m.level).map Level.index = path := by
  induction refs generalizing path with
  | nil => exact (List.length_eq_zero_iff.1 hlen.symm).symm
  | cons r refs ih =>
    cases path with
    | nil => cases hlen
    | cons index path =>
      have hindex : (m.level r).index = index :=
        congrArg (·.getD 0) (h (r, index) List.mem_cons_self)
      rw [List.map_cons, List.map_cons, hindex,
        ih (Nat.succ.inj hlen) fun q hq => h q (List.mem_cons_of_mem _ hq)]

variable {tree : VerkleTree} (hfree : kzg.DigestFree) (htree : tree.WellFormed kzg)
  (hmatch : m.DigestsMatch kzg)

include hfree htree hmatch

/-- The path of a key in an accepted proof whose descriptions match. -/
lemma PathOk.get_eq (hdigests : m.sharedSelfDigests.length = m.sharedCommitments.length)
    (hindices : m.sharedIndices.length = m.sharedCommitments.length)
    {key : Key} {refs : List ℕ} {value : Hash}
    (hpath : m.PathOk kzg tree.rootCommitment key refs value)
    (hopen : ∀ (j : ℕ) (point : List UInt8) (index : ℕ) (evaluation : Option Hash),
      m.sharedCommitments[j]? = some point → m.sharedIndices[j]? = some index →
      m.sharedEvaluations[j]? = some evaluation → kzg.OpensTo point index evaluation) :
    tree.get key = some value := by
  obtain ⟨hlen, -, hentries, hhead, hlink, hlast⟩ := hpath
  -- every reference points into the shared lists
  have hbound : ∀ r ∈ refs, r < m.sharedCommitments.length := by
    intro r hr
    obtain ⟨j, hj⟩ := List.mem_iff_getElem?.1 hr
    have hjlen : j < (keyPath key).length := hlen ▸ (List.getElem?_eq_some_iff.1 hj).1
    refine (hentries (r, (keyPath key).get ⟨j, hjlen⟩) (List.mem_of_getElem? (i := j) ?_)).1
    rw [List.getElem?_zip_eq_some]
    exact ⟨hj, List.getElem?_eq_getElem hjlen⟩
  have hpoint : ∀ r ∈ refs, m.sharedCommitments[r]? = some (m.level r).point :=
    fun r hr => getElem?_eq_some_getD (hbound r hr) []
  refine htree.get_of_chain hfree (map_index_level hlen fun q hq => (hentries q hq).2)
    (chain_refs hhead (fun r hr => hdigests ▸ hbound r hr) hlink hlast ?_) ?_
  · intro r hr child hchild
    have hindex : m.sharedIndices[r]? = some (m.level r).index :=
      getElem?_eq_some_getD (hindices ▸ hbound r hr) 0
    have heval : m.sharedEvaluations[r]? = some (some child) := by
      cases he : m.sharedEvaluations[r]? with
      | none =>
        rw [he] at hchild
        cases hchild
      | some evaluation =>
        rw [he] at hchild
        exact congrArg some hchild
    exact hopen r _ _ _ (hpoint r hr) hindex heval
  · intro l hl
    obtain ⟨r, hr, rfl⟩ := List.mem_map.1 hl
    exact hmatch r _ _ (getElem?_eq_some_getD (hdigests ▸ hbound r hr) 0) (hpoint r hr)

variable {i : ℕ} {key : Key} {value : Hash} (hkey : keys[i]? = some key)
  (hvalue : values[i]? = some value)

include hkey hvalue

lemma get_of_verifyWith {openingsHold : Except String Bool}
    (h : m.verifyWith kzg tree.rootCommitment keys values openingsHold = .ok true)
    (hopen : openingsHold = .ok true → m.ShapeOk keys values →
      ∀ (j : ℕ) (point : List UInt8) (index : ℕ) (evaluation : Option Hash),
        m.sharedCommitments[j]? = some point → m.sharedIndices[j]? = some index →
        m.sharedEvaluations[j]? = some evaluation → kzg.OpensTo point index evaluation) :
    tree.get key = some value := by
  rw [verifyWith] at h
  split_ifs at h with hshape
  · obtain ⟨ok, hok, h⟩ := bind_ok.1 h
    split_ifs at h with htrue
    · rw [htrue] at hok
      have hpaths := of_decide_eq_true (Except.ok.inj h)
      obtain ⟨-, -, -, hindices, -, hdigests, hrefs, hleaves⟩ := id hshape
      have hi : i < m.keyCommitmentRefs.length := hrefs ▸ (List.getElem?_eq_some_iff.1 hkey).1
      have hmem : (key, m.keyCommitmentRefs.get ⟨i, hi⟩, value) ∈
          keys.zip (m.keyCommitmentRefs.zip m.leafValues) := by
        refine List.mem_of_getElem? (i := i) ?_
        rw [List.getElem?_zip_eq_some, List.getElem?_zip_eq_some, hleaves]
        exact ⟨hkey, List.getElem?_eq_getElem hi, hvalue⟩
      exact PathOk.get_eq hfree htree hmatch hdigests hindices (hpaths _ hmem) (hopen hok hshape)
    · simp at h
  · simp at h

lemma get_of_verifyMultiproof (hbind : kzg.Binding)
    (h : m.verifyMultiproof kzg tree.rootCommitment keys values = .ok true) :
    tree.get key = some value := by
  refine get_of_verifyWith hfree htree hmatch hkey hvalue h fun hall hshape => ?_
  intro j point index evaluation hp hi he
  have hj : j < m.sharedOpenings.length := by
    obtain ⟨-, -, hopenings, -⟩ := hshape
    exact hopenings ▸ (List.getElem?_eq_some_iff.1 hp).1
  exact hbind.opensTo (allHold_true.1 hall _
    (KzgScheme.mem_zip_zip_zip hp hi he (List.getElem?_eq_getElem hj)))

lemma get_of_verifyMultiproofBatched (hbind : kzg.Binding)
    (h : m.verifyMultiproofBatched kzg tree.rootCommitment keys values = .ok true) :
    tree.get key = some value :=
  get_of_verifyWith hfree htree hmatch hkey hvalue h
    fun hbatch _ _ _ _ _ hp hi he => hbind.opensTo_of_batch hbatch hp hi he

end VerkleMultiProof

end Sxiaum.State
