import Sxiaum.Lib.Guards
import Sxiaum.Types

/-!
# KZG commitments of the crypto crate

What the state tree uses of `crypto/src/kzg.rs`: commitments to vectors of 256 optional
hashes, their digests, and the checks of openings. Points, pairings and the domain hash are
fields of `KzgScheme`; a point is its compressed encoding. The digest of a vector is taken
over the compressed point and the slots (in the source a flag byte and, for a filled slot,
its 32 bytes, so that the two can be told apart).
-/

namespace Sxiaum.Crypto

open Guards

def branchingFactor : ℕ := 256

/-- The group and the hash of the scheme; `F` is the scalar field. -/
structure KzgScheme (F : Type) where
  /-- `Fr::from_be_bytes_mod_order`. -/
  fromBeBytes : Hash → F
  /-- The compressed commitment to the polynomial with given values at `0, …, 255`. -/
  commitPoint : List F → List UInt8
  /-- The compressed opening of that polynomial at an index. -/
  openPoint : List F → ℕ → List UInt8
  /-- The pairing equation of one opening; an error if a point does not decode. -/
  openingHolds : List UInt8 → ℕ → F → List UInt8 → Except String Bool
  /-- The pairing equation of a batch of openings. -/
  batchHolds : List (List UInt8 × ℕ × F × List UInt8) → Except String Bool
  /-- `commitment_digest`. -/
  commitmentDigest : List UInt8 → List (Option Hash) → Hash

namespace KzgScheme

variable {F : Type} (kzg : KzgScheme F)

/-! ### Commitments -/

def fieldValue (value : Option Hash) : F := kzg.fromBeBytes (value.getD 0)

/-- `values.get(index).and_then(|value| *value)` for every index below the branching
factor. -/
def slots (values : List (Option Hash)) : List (Option Hash) :=
  (List.range branchingFactor).map fun index => values[index]?.join

/-- The evaluations of the committed polynomial. -/
def evaluations (values : List (Option Hash)) : List F := (slots values).map kzg.fieldValue

/-- `is_empty`: every entry is missing or zero. -/
def IsEmpty (values : List (Option Hash)) : Prop := ∀ v ∈ values, v.getD 0 = 0

instance (values : List (Option Hash)) : Decidable (IsEmpty values) :=
  inferInstanceAs (Decidable (∀ v ∈ values, v.getD 0 = 0))

/-- The encoding of the point at infinity. -/
def zeroPoint : List UInt8 :=
  kzg.commitPoint (List.replicate branchingFactor (kzg.fieldValue none))

def getEmptyCommitment : Hash :=
  kzg.commitmentDigest kzg.zeroPoint (List.replicate branchingFactor none)

def computeKzgCommitmentBytes (values : List (Option Hash)) : List UInt8 :=
  kzg.commitPoint (kzg.evaluations values)

def computeKzgCommitment (values : List (Option Hash)) : Hash :=
  if IsEmpty values then kzg.getEmptyCommitment
  else kzg.commitmentDigest (kzg.computeKzgCommitmentBytes values) (slots values)

def openKzg (values : List (Option Hash)) (index : ℕ) : Except String (List UInt8) :=
  if branchingFactor ≤ index then .error "KZG opening index out of bounds"
  else if IsEmpty values then .ok kzg.zeroPoint
  else .ok (kzg.openPoint (kzg.evaluations values) index)

/-! ### Checks of openings -/

def verifyKzgOpening (commitment : List UInt8) (index : ℕ) (value : Option Hash)
    (proof : List UInt8) : Except String Bool := do
  bailIf (branchingFactor ≤ index) "KZG opening index out of bounds"
  kzg.openingHolds commitment index (kzg.fieldValue value) proof

def batchTuples (commitments : List (List UInt8)) (indices : List ℕ) (values : List (Option Hash))
    (proofs : List (List UInt8)) : List (List UInt8 × ℕ × F × List UInt8) :=
  commitments.zip (indices.zip ((values.map kzg.fieldValue).zip proofs))

def verifyBatchedKzgOpeningsMultiPoint (commitments : List (List UInt8)) (indices : List ℕ)
    (values : List (Option Hash)) (proofs : List (List UInt8)) : Except String Bool :=
  let k := commitments.length
  let nIndices := indices.length
  let nValues := values.length
  let nProofs := proofs.length
  if k = 0 then .ok true
  else do
    bailIf (nIndices ≠ k ∨ nValues ≠ k ∨ nProofs ≠ k)
      (s!"mismatched batch input lengths: {k} commitments, {nIndices} indices, " ++
        s!"{nValues} values, {nProofs} proofs")
    checkAll (fun _ idx => bailIf (branchingFactor ≤ idx)
      s!"KZG opening index out of bounds: {idx}") 0 indices
    match kzg.batchTuples commitments indices values proofs with
    | [(commitment, index, y, proof)] => kzg.openingHolds commitment index y proof
    | tuples => kzg.batchHolds tuples

variable {commitments : List (List UInt8)} {indices : List ℕ} {values : List (Option Hash)}
  {proofs : List (List UInt8)}

/-- Two openings or more are checked by one equation. -/
lemma verifyBatched_eq_batchHolds (hk : 2 ≤ commitments.length)
    (hi : indices.length = commitments.length) (hv : values.length = commitments.length)
    (hp : proofs.length = commitments.length) (hbound : ∀ i ∈ indices, i < branchingFactor) :
    kzg.verifyBatchedKzgOpeningsMultiPoint commitments indices values proofs =
      kzg.batchHolds (kzg.batchTuples commitments indices values proofs) := by
  have hlen : (kzg.batchTuples commitments indices values proofs).length = commitments.length := by
    simp only [batchTuples, List.length_zip, List.length_map, hi, hv, hp, Nat.min_self]
  have hcheck : checkAll (fun _ idx => bailIf (branchingFactor ≤ idx)
      s!"KZG opening index out of bounds: {idx}") 0 indices = .ok () :=
    checkAll_bailIf.2 fun i hmem => Nat.not_le.2 (hbound i hmem)
  rw [verifyBatchedKzgOpeningsMultiPoint, if_neg (by omega), bailIf,
    if_neg (by rw [hi, hv, hp]; simp), hcheck]
  rcases htuples : kzg.batchTuples commitments indices values proofs with _ | ⟨t, _ | ⟨t', ts⟩⟩
  · rfl
  · rw [htuples, List.length_singleton] at hlen
    omega
  · rfl

/-! ### Assumptions -/

/-- A commitment opens to one value at each index, alone and in a batch. -/
structure Binding : Prop where
  single : ∀ {evals : List F} {index : ℕ} {y : F} {proof : List UInt8},
    evals.length = branchingFactor → index < branchingFactor →
    kzg.openingHolds (kzg.commitPoint evals) index y proof = .ok true → evals[index]? = some y
  batch : ∀ {evals : List F} {index : ℕ} {y : F} {proof : List UInt8}
      {tuples : List (List UInt8 × ℕ × F × List UInt8)},
    evals.length = branchingFactor → index < branchingFactor →
    (kzg.commitPoint evals, index, y, proof) ∈ tuples → kzg.batchHolds tuples = .ok true →
    evals[index]? = some y

/-- Digests are collision free and never zero, also as scalars. -/
structure DigestFree : Prop where
  injective : ∀ {point point' : List UInt8} {values values' : List (Option Hash)},
    kzg.fromBeBytes (kzg.commitmentDigest point values) =
      kzg.fromBeBytes (kzg.commitmentDigest point' values') → point = point' ∧ values = values'
  ne_zero : ∀ {point : List UInt8} {values : List (Option Hash)},
    kzg.fromBeBytes (kzg.commitmentDigest point values) ≠ kzg.fromBeBytes 0

/-! ### Digests of vectors -/

/-- The slots that are digested: an empty vector is digested without its zeros. -/
def digestedSlots (values : List (Option Hash)) : List (Option Hash) :=
  if IsEmpty values then List.replicate branchingFactor none else slots values

@[simp] lemma length_slots (values : List (Option Hash)) :
    (slots values).length = branchingFactor := by
  rw [slots, List.length_map, List.length_range]

@[simp] lemma length_evaluations (values : List (Option Hash)) :
    (kzg.evaluations values).length = branchingFactor := by
  rw [evaluations, List.length_map, length_slots]

lemma getElem?_slots (values : List (Option Hash)) {index : ℕ} (h : index < branchingFactor) :
    (slots values)[index]? = some values[index]?.join := by
  rw [slots, List.getElem?_map, List.getElem?_range h]
  rfl

lemma getElem?_evaluations (values : List (Option Hash)) {index : ℕ} (h : index < branchingFactor) :
    (kzg.evaluations values)[index]? = some (kzg.fieldValue values[index]?.join) := by
  rw [evaluations, List.getElem?_map, getElem?_slots values h]
  rfl

variable {kzg}

lemma map_digestedSlots (values : List (Option Hash)) :
    (digestedSlots values).map kzg.fieldValue = kzg.evaluations values := by
  rw [digestedSlots]
  split_ifs with h
  · refine List.ext_getElem? fun index => ?_
    by_cases hindex : index < branchingFactor
    · have hzero : values[index]?.join.getD 0 = 0 := by
        cases hv : values[index]? with
        | none => rfl
        | some v => exact h v (List.mem_of_getElem? hv)
      rw [getElem?_evaluations kzg values hindex, List.map_replicate,
        List.getElem?_replicate_of_lt hindex, fieldValue, fieldValue, hzero]
      rfl
    · rw [List.getElem?_eq_none (by simpa using hindex),
        List.getElem?_eq_none (by simpa using hindex)]
  · rfl

/-- A commitment is the digest of a point and the digested slots. -/
lemma computeKzgCommitment_eq (values : List (Option Hash)) :
    kzg.computeKzgCommitment values =
      kzg.commitmentDigest (kzg.computeKzgCommitmentBytes values) (digestedSlots values) := by
  rw [computeKzgCommitment, computeKzgCommitmentBytes, ← map_digestedSlots, digestedSlots]
  split_ifs with h
  · rw [getEmptyCommitment, zeroPoint, List.map_replicate]
  · rw [← evaluations]

lemma DigestFree.digestedSlots_eq (hfree : kzg.DigestFree) {values values' : List (Option Hash)}
    (h : kzg.fromBeBytes (kzg.computeKzgCommitment values) =
      kzg.fromBeBytes (kzg.computeKzgCommitment values')) :
    digestedSlots values = digestedSlots values' := by
  rw [computeKzgCommitment_eq, computeKzgCommitment_eq] at h
  exact (hfree.injective h).2

/-! ### What an accepted opening says -/

/-- A commitment made from a vector can be opened at an index to this hash only. -/
def OpensTo (kzg : KzgScheme F) (commitment : List UInt8) (index : ℕ) (value : Option Hash) : Prop :=
  ∀ evals : List F, evals.length = branchingFactor → commitment = kzg.commitPoint evals →
    index < branchingFactor ∧ evals[index]? = some (kzg.fieldValue value)

lemma Binding.opensTo (hbind : kzg.Binding) {commitment : List UInt8} {index : ℕ}
    {value : Option Hash} {proof : List UInt8}
    (h : kzg.verifyKzgOpening commitment index value proof = .ok true) :
    kzg.OpensTo commitment index value := by
  simp only [verifyKzgOpening, bind_ok, exists_unit, bailIf_ok, Nat.not_le] at h
  obtain ⟨hindex, hholds⟩ := h
  rintro evals hlen rfl
  exact ⟨hindex, hbind.single hlen hindex hholds⟩

lemma mem_zip_zip_zip {α β γ δ : Type} {as : List α} {bs : List β} {cs : List γ} {ds : List δ}
    {j : ℕ} {a : α} {b : β} {c : γ} {d : δ} (ha : as[j]? = some a) (hb : bs[j]? = some b)
    (hc : cs[j]? = some c) (hd : ds[j]? = some d) : (a, b, c, d) ∈ as.zip (bs.zip (cs.zip ds)) := by
  refine List.mem_of_getElem? (i := j) ?_
  rw [List.getElem?_zip_eq_some, List.getElem?_zip_eq_some, List.getElem?_zip_eq_some]
  exact ⟨ha, hb, hc, hd⟩

/-- In an accepted batch every commitment opens to its value. -/
lemma Binding.opensTo_of_batch (hbind : kzg.Binding)
    (h : kzg.verifyBatchedKzgOpeningsMultiPoint commitments indices values proofs = .ok true)
    {j index : ℕ} {commitment : List UInt8} {value : Option Hash}
    (hc : commitments[j]? = some commitment) (hi : indices[j]? = some index)
    (hv : values[j]? = some value) : kzg.OpensTo commitment index value := by
  have hj : j < commitments.length := (List.getElem?_eq_some_iff.1 hc).1
  rw [verifyBatchedKzgOpeningsMultiPoint, if_neg (Nat.ne_of_gt (Nat.zero_lt_of_lt hj))] at h
  simp only [bind_ok, exists_unit, bailIf_ok, checkAll_bailIf, Nat.not_le, not_or, not_not] at h
  obtain ⟨⟨-, -, hproofs⟩, hbounds, hholds⟩ := h
  have hindex : index < branchingFactor := hbounds index (List.mem_of_getElem? hi)
  obtain ⟨proof, hproof⟩ : ∃ proof, proofs[j]? = some proof :=
    ⟨_, List.getElem?_eq_getElem (hproofs ▸ hj)⟩
  have hmem : (commitment, index, kzg.fieldValue value, proof) ∈
      kzg.batchTuples commitments indices values proofs :=
    mem_zip_zip_zip hc hi (by rw [List.getElem?_map, hv]; rfl) hproof
  rintro evals hlen rfl
  refine ⟨hindex, ?_⟩
  split at hholds
  · rename_i commitment' index' y' proof' htuples
    rw [htuples, List.mem_singleton, Prod.mk.injEq, Prod.mk.injEq, Prod.mk.injEq] at hmem
    obtain ⟨rfl, rfl, rfl, rfl⟩ := hmem
    exact hbind.single hlen hindex hholds
  · exact hbind.batch hlen hindex hmem hholds

end KzgScheme

end Sxiaum.Crypto
