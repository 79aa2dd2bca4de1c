import Sxiaum.Zk.FoldSoundness

/-!
# What the fold prover can prove

The witness that `RecursiveFoldCircuit::generate_constraints` computes from honest data, and
when it satisfies the constraints. The digest of the prior key is a field element; the
statement carries its low 32 bytes only, while the circuit compares it as a whole.
-/

namespace Sxiaum.Zk

/-! ### Numbers below `2 ^ 256` in the field -/

lemma splitChunk_recompose (n : ℕ) : splitChunk n 0 + splitChunk n 1 * 2 ^ 128 = n := by
  simp only [splitChunk, Matrix.cons_val_zero, Matrix.cons_val_one]
  exact Nat.mod_add_div' n (2 ^ 128)

lemma splitChunk_lt {n : ℕ} (h : n < 2 ^ 256) (j : Fin 2) : splitChunk n j < 2 ^ 128 := by
  fin_cases j
  · exact Nat.mod_lt _ (by positivity)
  · exact Nat.div_lt_of_lt_mul (by rw [← pow_add]; exact h)

lemma chunkedFields_lt (s : FoldStatement) (i : Fin 6) : s.chunkedFields i < 2 ^ 256 := by
  have hheight : s.targetHeight.toNat < 2 ^ 256 :=
    s.targetHeight.toNat_lt.trans (by norm_num)
  have hprior : s.priorHeight.toNat < 2 ^ 256 :=
    s.priorHeight.toNat_lt.trans (by norm_num)
  fin_cases i
  · exact s.targetRoot.isLt
  · exact s.targetBlockHash.isLt
  · exact hheight
  · exact s.priorRoot.isLt
  · exact s.priorBlockHash.isLt
  · exact hprior

section

variable {p : ℕ}

lemma recon_splitChunk (n : ℕ) : recon (fun j => (splitChunk n j : ZMod p)) = (n : ZMod p) := by
  conv_rhs => rw [← splitChunk_recompose n]
  rw [recon, Nat.cast_add, Nat.cast_mul, Nat.cast_pow, Nat.cast_ofNat]

lemma val_splitChunk (hp : 2 ^ 256 < p) {n : ℕ} (h : n < 2 ^ 256) (j : Fin 2) :
    (splitChunk n j : ZMod p).val = splitChunk n j :=
  ZMod.val_natCast_of_lt ((splitChunk_lt h j).trans (lt_trans (by norm_num) hp))

lemma natCast_injOn (hp : 2 ^ 256 < p) {m n : ℕ} (hm : m < 2 ^ 256) (hn : n < 2 ^ 256)
    (h : (m : ZMod p) = n) : m = n := by
  have hval := congrArg ZMod.val h
  rwa [ZMod.val_natCast_of_lt (hm.trans hp), ZMod.val_natCast_of_lt (hn.trans hp)] at hval

end

/-! ### The honest witness -/

section

variable {p r : ℕ} {G1 G2 GT : Type} [AddCommGroup G1] [CommGroup GT]

/-- The values that the prover assigns to the witness variables. -/
def honestAssignment (anchor : FoldAnchorConfig) (own prior priorPrior : FoldStatement)
    (vk : PriorVK G1 G2) (proof : PriorProofPoints G1 G2) (elements : List (ZMod p)) :
    FoldWitness p G1 G2 :=
  let x := foldFieldInputs p own prior
  let pp := foldFieldInputs p prior priorPrior
  { chunkBits := fun i j b => (x.priorChunks i j).val.testBit b
    ppChunks := pp.priorChunks
    ppPriorSel := pp.priorSel
    ppVkDigest := pp.priorVkDigest
    proof := proof
    delta := x.targetRoot - x.priorRoot
    nInv := x.targetHeight⁻¹
    chainInv := x.chainId⁻¹
    vk := vk
    policy := (x.priorSel - 1) * (1 - indicator p (AnchorMatch anchor x))
    vkCoords := elements }

/-- The honest witness. There is none if a point of the key has no coordinates, or if the
height or the chain id has no inverse. -/
def honestWitness (curve : PriorCurve p G1 G2 GT) (anchor : FoldAnchorConfig)
    (own prior priorPrior : FoldStatement) (vk : PriorVK G1 G2)
    (proof : PriorProofPoints G1 G2) : Option (FoldWitness p G1 G2) :=
  if (own.targetHeight.toNat : ZMod p) = 0 ∨ (own.chainId.toNat : ZMod p) = 0 then none
  else (curve.vkElements vk).map (honestAssignment anchor own prior priorPrior vk proof)

/-- What `generate_folded_certificate` builds a folded statement from. -/
structure FoldsOnto (anchor : FoldAnchorConfig) (own prior : FoldStatement) : Prop where
  sel : own.sel = true
  root : own.priorRoot = prior.targetRoot
  blockHash : own.priorBlockHash = prior.targetBlockHash
  height : own.priorHeight = prior.targetHeight
  genesis : own.genesisRoot = prior.genesisRoot
  chain : own.chainId = prior.chainId
  chain_ne : own.chainId ≠ 0
  policy : prior.sel = true ∨
    prior.sel = false ∧ prior.targetRoot = anchor.root ∧ prior.targetBlockHash = anchor.blockHash ∧
      prior.targetHeight = anchor.height ∧ prior.priorRoot = own.genesisRoot ∧
      prior.priorBlockHash = 0 ∧ prior.priorHeight = 0

variable {curve : PriorCurve p G1 G2 GT} {anchor : FoldAnchorConfig}
  {own prior priorPrior : FoldStatement} {vk : PriorVK G1 G2} {proof : PriorProofPoints G1 G2}
  {elements : List (ZMod p)}

omit [AddCommGroup G1] in
lemma ofBits_honest (hp : 2 ^ 256 < p) (i : Fin 6) (j : Fin 2) :
    Nat.ofBits ((honestAssignment anchor own prior priorPrior vk proof elements).chunkBits i j) =
      splitChunk (prior.chunkedFields i) j := by
  have hval := val_splitChunk hp (chunkedFields_lt prior i) j
  have hlt := splitChunk_lt (chunkedFields_lt prior i) j
  change Nat.ofBits (fun b : Fin 128 =>
    ((splitChunk (prior.chunkedFields i) j : ZMod p).val).testBit b) = _
  rw [hval, Nat.ofBits_testBit, Nat.mod_eq_of_lt hlt]

omit [AddCommGroup G1] in
lemma chunkScalar_honest (hp : 2 ^ 256 < p) (i : Fin 6) :
    (honestAssignment anchor own prior priorPrior vk proof elements).chunkScalar i =
      prior.chunkedFields i := by
  rw [FoldWitness.chunkScalar, ofBits_honest hp, ofBits_honest hp, splitChunk_recompose]

omit [AddCommGroup G1] in
/-- The scalars of the honest witness are the public inputs of the prior certificate. -/
lemma priorInputs_honest (hp : 2 ^ 256 < p) (hfold : FoldsOnto anchor own prior) :
    (honestAssignment anchor own prior priorPrior vk proof elements).priorInputs
      (foldFieldInputs p own prior) = foldPublicInputs prior priorPrior := by
  have hsel : ∀ b : Bool, ((b.toNat : ℕ) : ZMod p).val = b.toNat := fun b =>
    ZMod.val_natCast_of_lt (lt_of_le_of_lt (Bool.toNat_le b) (lt_trans (by norm_num) hp))
  have hgenesis : (own.genesisRoot.toNat : ZMod p).val = prior.genesisRoot.toNat := by
    rw [hfold.genesis, ZMod.val_natCast_of_lt (prior.genesisRoot.isLt.trans hp)]
  have hchain : (own.chainId.toNat : ZMod p).val = prior.chainId.toNat := by
    rw [hfold.chain, ZMod.val_natCast_of_lt
      (prior.chainId.toNat_lt.trans (lt_trans (by norm_num) hp))]
  have hdigest : (splitChunk prior.vkDigest.toNat 0 : ZMod p).val % 2 ^ 128 +
      (splitChunk prior.vkDigest.toNat 1 : ZMod p).val % 2 ^ 128 * 2 ^ 128 =
      prior.vkDigest.toNat := by
    rw [val_splitChunk hp prior.vkDigest.isLt, val_splitChunk hp prior.vkDigest.isLt,
      Nat.mod_eq_of_lt (splitChunk_lt prior.vkDigest.isLt 0),
      Nat.mod_eq_of_lt (splitChunk_lt prior.vkDigest.isLt 1), splitChunk_recompose]
  rw [FoldWitness.priorInputs, foldPublicInputs]
  simp only [chunkScalar_honest hp]
  rw [FoldPublicInputs.mk.injEq]
  refine ⟨hsel _, hgenesis, rfl, rfl, rfl, hchain, hdigest, rfl, rfl, rfl, ?_, hsel _, ?_⟩
  · funext i j
    exact val_splitChunk hp (chunkedFields_lt priorPrior i) j
  · funext j
    exact val_splitChunk hp priorPrior.vkDigest.isLt j

/-! ### When it satisfies the constraints -/

lemma u64_cast_ne_zero (hp : 2 ^ 256 < p) {n : UInt64} (hn : n ≠ 0) : (n.toNat : ZMod p) ≠ 0 := by
  intro h
  have hlt : n.toNat < 2 ^ 256 := n.toNat_lt.trans (by norm_num)
  have hzero : n.toNat = 0 := natCast_injOn hp hlt (by positivity) (by rw [h, Nat.cast_zero])
  exact hn (UInt64.toNat_inj.1 hzero)

lemma anchorMatch_of_anchor (h : prior.sel = false ∧ prior.targetRoot = anchor.root ∧
      prior.targetBlockHash = anchor.blockHash ∧ prior.targetHeight = anchor.height ∧
      prior.priorRoot = own.genesisRoot ∧ prior.priorBlockHash = 0 ∧ prior.priorHeight = 0) :
    AnchorMatch anchor (foldFieldInputs p own prior) := by
  obtain ⟨hsel, hroot, hhash, hheight, hprior, hpriorHash, hpriorHeight⟩ := h
  refine ⟨?_, ?_, ?_, ?_, ?_, ?_, ?_⟩
  · exact (recon_splitChunk _).trans (congrArg (fun b : Bytes32 => (b.toNat : ZMod p)) hroot)
  · exact (recon_splitChunk _).trans (congrArg (fun b : Bytes32 => (b.toNat : ZMod p)) hhash)
  · exact (recon_splitChunk _).trans (congrArg (fun n : UInt64 => (n.toNat : ZMod p)) hheight)
  · exact (recon_splitChunk _).trans (congrArg (fun b : Bytes32 => (b.toNat : ZMod p)) hprior)
  · refine (recon_splitChunk _).trans ?_
    change ((prior.priorBlockHash.toNat : ℕ) : ZMod p) = 0
    rw [hpriorHash]
    exact Nat.cast_zero
  · refine (recon_splitChunk _).trans ?_
    change ((prior.priorHeight.toNat : ℕ) : ZMod p) = 0
    rw [hpriorHeight]
    exact Nat.cast_zero
  · change ((prior.sel.toNat : ℕ) : ZMod p) = 0
    rw [hsel]
    exact Nat.cast_zero

lemma FoldsOnto.sel_eq_one (h : FoldsOnto anchor own prior) :
    (foldFieldInputs p own prior).sel = 1 := by
  change ((own.sel.toNat : ℕ) : ZMod p) = 1
  rw [h.sel, Bool.toNat_true, Nat.cast_one]

lemma FoldsOnto.policy_eq_zero (h : FoldsOnto anchor own prior) :
    ((foldFieldInputs p own prior).priorSel - 1) *
      (1 - indicator p (AnchorMatch anchor (foldFieldInputs p own prior))) = 0 := by
  rcases h.policy with hsel | hanchor
  · have hone : (foldFieldInputs p own prior).priorSel = 1 := by
      change ((prior.sel.toNat : ℕ) : ZMod p) = 1
      rw [hsel, Bool.toNat_true, Nat.cast_one]
    rw [hone, sub_self, zero_mul]
  · rw [indicator, if_pos (anchorMatch_of_anchor hanchor), sub_self, mul_zero]

variable [DecidableEq GT] {roundConstants : ℕ → PoseidonState (ZMod p)}

/-- The constraints hold if the digest in the statement is the whole field element. -/
lemma honest_satisfied [Fact p.Prime] [Module (ZMod r) G1] (hp : 2 ^ 256 < p)
    (hfold : FoldsOnto anchor own prior) (hheight : own.targetHeight ≠ 0)
    (hproof : curve.Groth16Holds vk (foldFieldInputs r prior priorPrior).flat proof)
    (hdigest : poseidonSpongeNative roundConstants elements = (prior.vkDigest.toNat : ZMod p)) :
    Satisfied curve roundConstants anchor (foldFieldInputs p own prior)
      (honestAssignment anchor own prior priorPrior vk proof elements) where
  chunks := fun i j => by
    rw [ofBits_honest hp]
    rfl
  selBoolean := by rw [hfold.sel_eq_one, one_mul]
  delta := add_sub_cancel _ _
  height := mul_inv_cancel₀ (u64_cast_ne_zero hp hheight)
  chain := mul_inv_cancel₀ (u64_cast_ne_zero hp hfold.chain_ne)
  genesisRoot := by rw [hfold.sel_eq_one, sub_self, mul_zero]
  genesisHash := by rw [hfold.sel_eq_one, sub_self, mul_zero]
  genesisHeight := by rw [hfold.sel_eq_one, sub_self, mul_zero]
  tieRoot := by
    have htie : recon ((foldFieldInputs p own prior).priorChunks 0) =
        (own.priorRoot.toNat : ZMod p) := (recon_splitChunk _).trans (by rw [hfold.root]; rfl)
    rw [htie]
    exact mul_eq_zero_of_left (sub_self _) _
  tieHash := by
    have htie : recon ((foldFieldInputs p own prior).priorChunks 1) =
        (own.priorBlockHash.toNat : ZMod p) :=
      (recon_splitChunk _).trans (by rw [hfold.blockHash]; rfl)
    rw [htie]
    exact mul_eq_zero_of_left (sub_self _) _
  tieHeight := by
    have htie : recon ((foldFieldInputs p own prior).priorChunks 2) =
        (own.priorHeight.toNat : ZMod p) := (recon_splitChunk _).trans (by rw [hfold.height]; rfl)
    rw [htie]
    exact mul_eq_zero_of_left (sub_self _) _
  policy := rfl
  policyGate := mul_eq_zero_of_right _ hfold.policy_eq_zero
  vkDigest := gate_of_holds (hdigest.trans (recon_splitChunk _).symm) _
  pairing := gate_of_holds (by
    have hflat : (fun i => ((foldPublicInputs prior priorPrior).flat i : ZMod r)) =
        (foldFieldInputs r prior priorPrior).flat :=
      funext fun i => by fin_cases i <;> rfl
    rw [priorInputs_honest hp hfold, curve.product_eq_one_iff (r := r), hflat]
    exact hproof) _

/-- A bootstrap certificate can be proved for every target of a height other than zero: with
the selector at zero nothing ties the target down. -/
lemma bootstrap_satisfied [Fact p.Prime] (hp : 2 ^ 256 < p) (hsel : own.sel = false)
    (hroot : own.priorRoot = own.genesisRoot) (hhash : own.priorBlockHash = 0)
    (hpriorHeight : own.priorHeight = 0) (hheight : own.targetHeight ≠ 0)
    (hchain : own.chainId ≠ 0) :
    Satisfied curve roundConstants anchor (foldFieldInputs p own prior)
      (honestAssignment anchor own prior priorPrior vk proof elements) := by
  have hzero : (foldFieldInputs p own prior).sel = 0 := by
    change ((own.sel.toNat : ℕ) : ZMod p) = 0
    rw [hsel, Bool.toNat_false, Nat.cast_zero]
  refine ⟨fun i j => ?_, ?_, add_sub_cancel _ _, ?_, ?_, ?_, ?_, ?_, ?_, ?_, ?_, rfl, ?_, ?_, ?_⟩
  · rw [ofBits_honest hp]
    rfl
  · rw [hzero, mul_zero]
  · exact mul_inv_cancel₀ (u64_cast_ne_zero hp hheight)
  · exact mul_inv_cancel₀ (u64_cast_ne_zero hp hchain)
  · change ((own.priorRoot.toNat : ZMod p) - own.genesisRoot.toNat) * _ = 0
    rw [hroot, sub_self, zero_mul]
  · change (own.priorBlockHash.toNat : ZMod p) * _ = 0
    rw [hhash]
    simp
  · change (own.priorHeight.toNat : ZMod p) * _ = 0
    rw [hpriorHeight]
    simp
  all_goals rw [hzero]
  all_goals simp

/-- The digest gate compares the whole element with the 32 bytes of the statement. -/
lemma digest_lt_of_satisfied (hp : 2 ^ 256 < p) (hfold : FoldsOnto anchor own prior)
    (hsat : Satisfied curve roundConstants anchor (foldFieldInputs p own prior)
      (honestAssignment anchor own prior priorPrior vk proof elements)) :
    (poseidonSpongeNative roundConstants elements).val < 2 ^ 256 := by
  have hgate := hsat.digest_eq (lt_trans (by norm_num) hp) hfold.sel_eq_one
  have hwhole : poseidonSpongeNative roundConstants elements =
      (prior.vkDigest.toNat : ZMod p) := hgate.trans (recon_splitChunk _)
  rw [hwhole, ZMod.val_natCast_of_lt (prior.vkDigest.isLt.trans hp)]
  exact prior.vkDigest.isLt

/-- For a folded statement on a valid prior certificate, the honest witness exists and
satisfies every constraint exactly if the prior key's Poseidon digest is below `2 ^ 256` and
the certified height is not zero. -/
theorem honestWitness_satisfied_iff [Fact p.Prime] [Module (ZMod r) G1] (hp : 2 ^ 256 < p)
    (hfold : FoldsOnto anchor own prior) (hvk : curve.vkElements vk = some elements)
    (hdigest : foldVkDigest curve roundConstants vk = some prior.vkDigest)
    (hproof : curve.Groth16Holds vk (foldFieldInputs r prior priorPrior).flat proof) :
    (∃ w, honestWitness curve anchor own prior priorPrior vk proof = some w ∧
      Satisfied curve roundConstants anchor (foldFieldInputs p own prior) w) ↔
    (poseidonSpongeNative roundConstants elements).val < 2 ^ 256 ∧ own.targetHeight ≠ 0 := by
  have hpacked : prior.vkDigest.toNat =
      (poseidonSpongeNative roundConstants elements).val % 2 ^ 256 := by
    rw [foldVkDigest, hvk, Option.map_some, Option.some.injEq] at hdigest
    rw [← hdigest, hashFromField, BitVec.toNat_ofNat]
  have hchain : (own.chainId.toNat : ZMod p) ≠ 0 := u64_cast_ne_zero hp hfold.chain_ne
  constructor
  · rintro ⟨w, hw, hsat⟩
    rw [honestWitness, hvk] at hw
    split_ifs at hw with hzero
    obtain rfl := Option.some.inj hw
    refine ⟨digest_lt_of_satisfied hp hfold hsat, fun hheight => ?_⟩
    exact hzero (Or.inl (by rw [hheight]; exact Nat.cast_zero))
  · rintro ⟨hlt, hheight⟩
    have hwhole : poseidonSpongeNative roundConstants elements =
        (prior.vkDigest.toNat : ZMod p) := by
      rw [hpacked, Nat.mod_eq_of_lt hlt, ZMod.natCast_zmod_val]
    refine ⟨_, ?_, honest_satisfied hp hfold hheight hproof hwhole⟩
    rw [honestWitness, if_neg (not_or.2 ⟨u64_cast_ne_zero hp hheight, hchain⟩), hvk]
    rfl

end

/-! ### A key with a long digest -/

/-- The group of two elements with its product as pairing; its only point other than the
identity needs no coordinate. -/
def parityCurve (p : ℕ) : PriorCurve p (ZMod 2) (ZMod 2) (Multiplicative (ZMod 2)) where
  pairing := fun P Q => Multiplicative.ofAdd (P * Q)
  pairing_neg := fun P Q => by rw [neg_mul, ofAdd_neg]
  coords1 := fun P => if P = 0 then none else some []
  coords2 := fun P => if P = 0 then none else some []

def parityKey : PriorVK (ZMod 2) (ZMod 2) := ⟨1, 1, 1, 1, fun _ => 1⟩

lemma vkElements_parityKey {p : ℕ} : (parityCurve p).vkElements parityKey = some [] := rfl

instance : Fact exampleModulus.Prime :=
  ⟨by unfold exampleModulus; exact lucas_lehmer_sufficiency _ (by norm_num) (by norm_num)⟩

lemma inv_ofNat {p : ℕ} [Fact p.Prime] {m n k : ℕ} [n.AtLeastTwo]
    (h : m * OfNat.ofNat n = k * p + 1) :
    (OfNat.ofNat n : ZMod p)⁻¹ = (m : ZMod p) := by
  refine inv_eq_of_mul_eq_one_left ?_
  rw [← Nat.cast_ofNat, ← Nat.cast_mul, h]
  simp

/-- The matrix of the linear layer with its inverses worked out. -/
def exampleMatrix (p : ℕ) : PoseidonMatrix (ZMod p) :=
  let i5 := (4 * p + 1) / 5
  let i6 := (5 * p + 1) / 6
  let i7 := (2 * p + 1) / 7
  let i8 := (p + 1) / 8
  let i9 := (2 * p + 1) / 9
  ⟨⟨(i5 : ℕ), (i6 : ℕ), (i7 : ℕ)⟩, ⟨(i6 : ℕ), (i7 : ℕ), (i8 : ℕ)⟩, ⟨(i7 : ℕ), (i8 : ℕ), (i9 : ℕ)⟩⟩

lemma poseidonMdsMatrix_example :
    poseidonMdsMatrix exampleModulus = exampleMatrix exampleModulus := by
  have h5 : (4 * exampleModulus + 1) / 5 * 5 = 4 * exampleModulus + 1 := by decide +kernel
  have h6 : (5 * exampleModulus + 1) / 6 * 6 = 5 * exampleModulus + 1 := by decide +kernel
  have h7 : (2 * exampleModulus + 1) / 7 * 7 = 2 * exampleModulus + 1 := by decide +kernel
  have h8 : (exampleModulus + 1) / 8 * 8 = 1 * exampleModulus + 1 := by decide +kernel
  have h9 : (2 * exampleModulus + 1) / 9 * 9 = 2 * exampleModulus + 1 := by decide +kernel
  rw [poseidonMdsMatrix, inv_ofNat h5, inv_ofNat h6, inv_ofNat h7, inv_ofNat h8, inv_ofNat h9]
  rfl

lemma long_digest :
    2 ^ 256 ≤ (poseidonSponge (exampleMatrix exampleModulus) (zeroConstants exampleModulus)
      (poseidonDomainTag : ZMod exampleModulus) []).val := by
  decide +kernel

def parityDigest (p : ℕ) : Bytes32 :=
  hashFromField (poseidonSpongeNative (zeroConstants p) [])

def parityPrior (p : ℕ) : FoldStatement where
  sel := true
  genesisRoot := 11
  targetRoot := 44
  targetBlockHash := 55
  targetHeight := 8
  chainId := 13689
  vkDigest := parityDigest p
  priorRoot := 22
  priorBlockHash := 33
  priorHeight := 7

def parityOwn : FoldStatement where
  sel := true
  genesisRoot := 11
  targetRoot := 66
  targetBlockHash := 77
  targetHeight := 9
  chainId := 13689
  vkDigest := 1
  priorRoot := 44
  priorBlockHash := 55
  priorHeight := 8

section

variable (p : ℕ)

lemma parity_foldsOnto : FoldsOnto exampleAnchor parityOwn (parityPrior p) where
  sel := rfl
  root := rfl
  blockHash := rfl
  height := rfl
  genesis := rfl
  chain := rfl
  chain_ne := by decide
  policy := Or.inl rfl

lemma foldVkDigest_parityKey : foldVkDigest (parityCurve p) (zeroConstants p) parityKey =
    some (parityPrior p).vkDigest := rfl

def paritySum : ZMod 2 :=
  parityKey.ic ⟨0, Nat.succ_pos 25⟩ +
    ∑ i, (foldFieldInputs 2 (parityPrior p) (parityPrior p)).flat i • parityKey.ic i.succ

def parityProof : PriorProofPoints (ZMod 2) (ZMod 2) := ⟨1, 1, -paritySum p⟩

lemma parity_groth16 : (parityCurve p).Groth16Holds parityKey
    (foldFieldInputs 2 (parityPrior p) (parityPrior p)).flat (parityProof p) := by
  have hsum : (1 : ZMod 2) * 1 = 1 * 1 + paritySum p * 1 + -paritySum p * 1 := by ring
  change Multiplicative.ofAdd ((1 : ZMod 2) * 1) = Multiplicative.ofAdd (1 * 1) *
    Multiplicative.ofAdd (paritySum p * 1) * Multiplicative.ofAdd (-paritySum p * 1)
  rw [← ofAdd_add, ← ofAdd_add, ← hsum]

end

/-- A valid prior certificate whose key has a digest above `2 ^ 256`: the honest witness
breaks a constraint. -/
theorem honestWitness_long_digest : FoldsOnto exampleAnchor parityOwn (parityPrior exampleModulus) ∧
    foldVkDigest (parityCurve exampleModulus) (zeroConstants exampleModulus) parityKey =
      some (parityPrior exampleModulus).vkDigest ∧
    (parityCurve exampleModulus).Groth16Holds parityKey
      (foldFieldInputs 2 (parityPrior exampleModulus) (parityPrior exampleModulus)).flat
      (parityProof exampleModulus) ∧
    ¬ ∃ w, honestWitness (parityCurve exampleModulus) exampleAnchor parityOwn
        (parityPrior exampleModulus) (parityPrior exampleModulus) parityKey
        (parityProof exampleModulus) = some w ∧
      Satisfied (parityCurve exampleModulus) (zeroConstants exampleModulus) exampleAnchor
        (foldFieldInputs exampleModulus parityOwn (parityPrior exampleModulus)) w := by
  refine ⟨parity_foldsOnto _, foldVkDigest_parityKey _, parity_groth16 _, ?_⟩
  rintro ⟨w, hw, hsat⟩
  rw [honestWitness, vkElements_parityKey] at hw
  split_ifs at hw
  obtain rfl := Option.some.inj hw
  have hlt := digest_lt_of_satisfied two_pow_lt_exampleModulus (parity_foldsOnto _) hsat
  rw [poseidonSpongeNative, poseidonMdsMatrix_example] at hlt
  exact absurd long_digest (not_le.2 hlt)

/-! ### A key with a short digest -/

/-- The group of three elements; one of its points has a coordinate. -/
def ternaryCurve (p : ℕ) : PriorCurve p (ZMod 3) (ZMod 3) (Multiplicative (ZMod 3)) where
  __ := residueCurve p
  coords1 := fun P => if P = 0 then none else some []
  coords2 := fun Q => if Q = 0 then none else if Q = 1 then some [1] else some []

def ternaryKey : PriorVK (ZMod 3) (ZMod 3) := ⟨1, 1, -1, -1, fun _ => 1⟩

/-- Constants that take the state with the coordinate to zero. -/
def cancellingConstants (p r : ℕ) : PoseidonState (ZMod p) :=
  if r = 0 then ⟨-poseidonDomainTag, -1, 0⟩ else ⟨0, 0, 0⟩

def ternaryPrior : FoldStatement := { parityPrior exampleModulus with vkDigest := 0 }

lemma short_digest :
    poseidonSpongeNative (cancellingConstants exampleModulus) [1] = 0 := by
  rw [poseidonSpongeNative, poseidonMdsMatrix_example]
  decide +kernel

section

variable (prior priorPrior : FoldStatement)

def ternarySum : ZMod 3 :=
  ternaryKey.ic ⟨0, Nat.succ_pos 25⟩ +
    ∑ i, (foldFieldInputs 3 prior priorPrior).flat i • ternaryKey.ic i.succ

def ternaryProof : PriorProofPoints (ZMod 3) (ZMod 3) := ⟨1, 1, -ternarySum prior priorPrior⟩

lemma ternary_groth16 : (ternaryCurve exampleModulus).Groth16Holds ternaryKey
    (foldFieldInputs 3 prior priorPrior).flat (ternaryProof prior priorPrior) := by
  have hsum (s : ZMod 3) : (1 : ZMod 3) * 1 = 1 * 1 + s * -1 + -s * -1 := by ring
  change Multiplicative.ofAdd ((1 : ZMod 3) * 1) = Multiplicative.ofAdd (1 * 1) *
    Multiplicative.ofAdd (ternarySum prior priorPrior * -1) *
      Multiplicative.ofAdd (-ternarySum prior priorPrior * -1)
  rw [← ofAdd_add, ← ofAdd_add, ← hsum]

end

/-- The honest witness for a key with a coordinate and the digest `0` satisfies the circuit. -/
theorem honestWitness_short_digest :
    ∃ w, honestWitness (ternaryCurve exampleModulus) exampleAnchor parityOwn ternaryPrior
        ternaryPrior ternaryKey (ternaryProof ternaryPrior ternaryPrior) = some w ∧
      Satisfied (ternaryCurve exampleModulus) (cancellingConstants exampleModulus) exampleAnchor
        (foldFieldInputs exampleModulus parityOwn ternaryPrior) w := by
  have hdigest : foldVkDigest (ternaryCurve exampleModulus) (cancellingConstants exampleModulus)
      ternaryKey = some ternaryPrior.vkDigest := by
    change some (hashFromField (poseidonSpongeNative _ [1])) = some 0
    rw [short_digest, hashFromField, ZMod.val_zero]
    rfl
  have hvk : (ternaryCurve exampleModulus).vkElements ternaryKey = some [1] := rfl
  have hfold : FoldsOnto exampleAnchor parityOwn ternaryPrior :=
    ⟨rfl, rfl, rfl, rfl, rfl, rfl, by decide, Or.inl rfl⟩
  refine (honestWitness_satisfied_iff (r := 3) two_pow_lt_exampleModulus hfold hvk hdigest
    (ternary_groth16 _ _)).2 ⟨?_, by decide⟩
  rw [short_digest, ZMod.val_zero]
  decide

end Sxiaum.Zk
