import Sxiaum.Zk.FoldCircuit

/-!
# What the fold circuit proves

With the selector set to one, the constraints open the pairing gate, the key commitment,
the ties to the prior statement and the anchor policy. The pairing gate is about the key's
points and the commitment about separate field elements, so the gate speaks about the
committed key only if the two agree.
-/

namespace Sxiaum.Zk

section

variable {p r : ℕ} {G1 G2 GT : Type} [AddCommGroup G1] [CommGroup GT]

/-! ### The pairing gate -/

/-- The circuit's product of pairings is one exactly when Groth16 accepts the scalars' residues. -/
theorem PriorCurve.product_eq_one_iff [Module (ZMod r) G1] (curve : PriorCurve p G1 G2 GT)
    (vk : PriorVK G1 G2) (scalars : Fin 25 → ℕ) (proof : PriorProofPoints G1 G2) :
    curve.product vk scalars proof = 1 ↔
      curve.Groth16Holds vk (fun i => (scalars i : ZMod r)) proof := by
  have hg : gIc vk scalars = vk.ic 0 + ∑ i, (scalars i : ZMod r) • vk.ic i.succ := by
    simp only [gIc, Nat.cast_smul_eq_nsmul]
  rw [PriorCurve.product, PriorCurve.Groth16Holds, ← hg]
  simp only [curve.pairing_neg]
  rw [mul_inv_eq_one, mul_inv_eq_iff_eq_mul, mul_inv_eq_iff_eq_mul]
  constructor
  · intro h
    rw [h, mul_right_comm]
  · intro h
    rw [h, mul_right_comm]

/-! ### The gates at selector one -/

lemma indicator_sub_one {c : Prop} [Decidable c] (hp : 1 < p)
    (h : (indicator p c - 1) * 1 = 0) : c := by
  have : Fact (1 < p) := ⟨hp⟩
  by_contra hc
  simp [indicator, hc] at h

lemma gate_of_holds {c : Prop} [Decidable c] (h : c) (sel : ZMod p) :
    (indicator p c - 1) * sel = 0 := by
  rw [indicator, if_pos h, sub_self, zero_mul]

namespace Satisfied

variable [DecidableEq GT] {curve : PriorCurve p G1 G2 GT}
  {roundConstants : ℕ → PoseidonState (ZMod p)} {anchor : FoldAnchorConfig}
  {x : FoldPublicInputs (ZMod p)} {w : FoldWitness p G1 G2}

section

variable (h : Satisfied curve roundConstants anchor x w)

include h

lemma digest_eq (hp : 1 < p) (hsel : x.sel = 1) :
    poseidonSpongeNative roundConstants w.vkCoords = recon x.priorVkDigest :=
  indicator_sub_one hp (hsel ▸ h.vkDigest)

/-- A folded certificate builds on a folded one or on the pinned anchor. -/
lemma policy_cases (hsel : x.sel = 1) : x.priorSel = 1 ∨ AnchorMatch anchor x := by
  have hzero : w.policy = 0 := by simpa [hsel] using h.policyGate
  have hpolicy := h.policy
  by_cases hmatch : AnchorMatch anchor x
  · exact Or.inr hmatch
  · rw [hzero, indicator, if_neg hmatch, sub_zero, mul_one, sub_eq_zero] at hpolicy
    exact Or.inl hpolicy

/-- The bits of a public chunk spell its representative. -/
lemma ofBits_eq_val (hp : 2 ^ 128 < p)
    (i : Fin 6) (j : Fin 2) : Nat.ofBits (w.chunkBits i j) = (x.priorChunks i j).val := by
  rw [h.chunks i j, ZMod.val_natCast_of_lt]
  exact (Nat.ofBits_lt_two_pow _).trans hp

end

end Satisfied

lemma Satisfied.priorInputs_eq [DecidableEq GT] {curve : PriorCurve p G1 G2 GT}
    {roundConstants : ℕ → PoseidonState (ZMod p)} {anchor : FoldAnchorConfig}
    {x : FoldPublicInputs (ZMod p)} {w : FoldWitness p G1 G2}
    (h : Satisfied curve roundConstants anchor x w) (hp : 2 ^ 128 < p) :
    w.priorInputs x = priorPublicInputs x w := by
  simp only [FoldWitness.priorInputs, priorPublicInputs, FoldWitness.chunkScalar,
    h.ofBits_eq_val hp]

/-! ### Keys from their coordinates -/

/-- Points are determined by their coordinates, and all points of a group have equally many. -/
structure PriorCurve.Lawful (curve : PriorCurve p G1 G2 GT) : Prop where
  inj1 : ∀ {P Q c}, curve.coords1 P = some c → curve.coords1 Q = some c → P = Q
  inj2 : ∀ {P Q c}, curve.coords2 P = some c → curve.coords2 Q = some c → P = Q
  width1 : ∀ {P Q c d}, curve.coords1 P = some c → curve.coords1 Q = some d → c.length = d.length
  width2 : ∀ {P Q c d}, curve.coords2 P = some c → curve.coords2 Q = some d → c.length = d.length

namespace PriorCurve.Lawful

variable {curve : PriorCurve p G1 G2 GT}

lemma coordsAll_inj (h : curve.Lawful) {Ps Qs : List G1} {c : List (ZMod p)}
    (hlen : Ps.length = Qs.length) (hP : curve.coordsAll Ps = some c)
    (hQ : curve.coordsAll Qs = some c) : Ps = Qs := by
  induction Ps generalizing Qs c with
  | nil => exact (List.length_eq_zero_iff.1 hlen.symm).symm
  | cons P Ps ih =>
    cases Qs with
    | nil => simp at hlen
    | cons Q Qs =>
      simp only [coordsAll, Option.bind_eq_bind, Option.bind_eq_some_iff, Option.pure_def,
        Option.some.injEq] at hP hQ
      obtain ⟨cP, hcP, csP, hcsP, rfl⟩ := hP
      obtain ⟨cQ, hcQ, csQ, hcsQ, heq⟩ := hQ
      obtain ⟨rfl, rfl⟩ := List.append_inj heq (h.width1 hcQ hcP)
      rw [h.inj1 hcP hcQ, ih (by simpa using hlen) hcsP hcsQ]

lemma vkElements_inj (h : curve.Lawful) {vk vk' : PriorVK G1 G2} {c : List (ZMod p)}
    (hvk : curve.vkElements vk = some c) (hvk' : curve.vkElements vk' = some c) : vk = vk' := by
  simp only [vkElements, Option.bind_eq_bind, Option.bind_eq_some_iff, Option.pure_def,
    Option.some.injEq] at hvk hvk'
  obtain ⟨a, ha, b, hb, g, hg, d, hd, i, hi, rfl⟩ := hvk
  obtain ⟨a', ha', b', hb', g', hg', d', hd', i', hi', heq⟩ := hvk'
  obtain ⟨ea, heqa⟩ := List.append_inj heq (h.width1 ha' ha)
  obtain ⟨eb, heqb⟩ := List.append_inj heqa (h.width2 hb' hb)
  obtain ⟨eg, heqg⟩ := List.append_inj heqb (h.width2 hg' hg)
  obtain ⟨ed, ei⟩ := List.append_inj heqg (h.width2 hd' hd)
  subst ea eb eg ed ei
  have hic : vk.ic = vk'.ic := List.ofFn_injective (h.coordsAll_inj (by simp) hi hi')
  cases vk
  cases vk'
  rw [PriorVK.mk.injEq]
  exact ⟨h.inj1 ha ha', h.inj2 hb hb', h.inj2 hg hg', h.inj2 hd hd', hic⟩

end PriorCurve.Lawful

/-! ### Soundness -/

/-- In every satisfying assignment with the selector at one whose key points have the
coordinates that were hashed, the prior proof passes Groth16 under every key whose digest is
the public one, unless the hashed elements collide with that key's. -/
theorem satisfied_groth16_of_tied [Module (ZMod r) G1] [DecidableEq GT]
    {curve : PriorCurve p G1 G2 GT} (hlaw : curve.Lawful) (hp : 2 ^ 128 < p)
    {roundConstants : ℕ → PoseidonState (ZMod p)} {anchor : FoldAnchorConfig}
    {x : FoldPublicInputs (ZMod p)} {w : FoldWitness p G1 G2}
    (hsat : Satisfied curve roundConstants anchor x w) (hsel : x.sel = 1)
    (htied : curve.vkElements w.vk = some w.vkCoords)
    {vk : PriorVK G1 G2} {elements : List (ZMod p)} (hvk : curve.vkElements vk = some elements)
    (hdigest : poseidonSpongeNative roundConstants elements = recon x.priorVkDigest)
    (hfree : poseidonSpongeNative roundConstants w.vkCoords =
      poseidonSpongeNative roundConstants elements → w.vkCoords = elements) :
    curve.Groth16Holds vk (fun i => ((priorPublicInputs x w).flat i : ZMod r)) w.proof := by
  have hp1 : 1 < p := lt_trans (by norm_num) hp
  have hcoords : w.vkCoords = elements := hfree ((hsat.digest_eq hp1 hsel).trans hdigest.symm)
  have hkey : w.vk = vk := hlaw.vkElements_inj htied (hcoords ▸ hvk)
  rw [← hsat.priorInputs_eq hp, ← hkey]
  exact (curve.product_eq_one_iff ..).1 (indicator_sub_one hp1 (hsel ▸ hsat.pairing))

end

/-! ### A small curve -/

section ResidueCurve

variable {p : ℕ}

/-- The residues modulo three with their product as pairing; a point other than zero is its
own coordinate. -/
def residueCurve (p : ℕ) :
    PriorCurve p (ZMod 3) (ZMod 3) (Multiplicative (ZMod 3)) where
  pairing := fun P Q => Multiplicative.ofAdd (P * Q)
  pairing_neg := fun P Q => by rw [neg_mul, ofAdd_neg]
  coords1 := fun P => if P = 0 then none else some [(P.val : ZMod p)]
  coords2 := fun P => if P = 0 then none else some [(P.val : ZMod p)]

lemma residueCurve_coords {P : ZMod 3} {c : List (ZMod p)}
    (h : (if P = 0 then none else some [(P.val : ZMod p)]) = some c) : c = [(P.val : ZMod p)] := by
  split_ifs at h
  exact (Option.some.inj h).symm

lemma residueCurve_lawful (hp : 2 < p) : (residueCurve p).Lawful := by
  have hinj : ∀ {P Q : ZMod 3} {c : List (ZMod p)},
      (if P = 0 then none else some [(P.val : ZMod p)]) = some c →
      (if Q = 0 then none else some [(Q.val : ZMod p)]) = some c → P = Q := by
    intro P Q c hP hQ
    have heq := (residueCurve_coords hP).symm.trans (residueCurve_coords hQ)
    have hval : ((P.val : ℕ) : ZMod p).val = ((Q.val : ℕ) : ZMod p).val := by
      rw [List.singleton_inj.1 heq]
    have hP3 := ZMod.val_lt P
    have hQ3 := ZMod.val_lt Q
    rw [ZMod.val_natCast_of_lt (by omega), ZMod.val_natCast_of_lt (by omega)] at hval
    exact ZMod.val_injective 3 hval
  have hwidth : ∀ {P Q : ZMod 3} {c d : List (ZMod p)},
      (if P = 0 then none else some [(P.val : ZMod p)]) = some c →
      (if Q = 0 then none else some [(Q.val : ZMod p)]) = some d → c.length = d.length := by
    intro P Q c d hP hQ
    rw [residueCurve_coords hP, residueCurve_coords hQ]
    rfl
  exact ⟨hinj, hinj, hwidth, hwidth⟩

def residueKey : PriorVK (ZMod 3) (ZMod 3) := ⟨1, 1, 1, 1, fun _ => 1⟩

/-- A key that any proof with `e(A, B) = 1 · 1` passes: two of its points are the identity. -/
def foreignKey : PriorVK (ZMod 3) (ZMod 3) := ⟨1, 1, 0, 0, fun _ => 1⟩

def residueElements (p : ℕ) : List (ZMod p) := List.replicate 30 1

lemma vkElements_residueKey :
    (residueCurve p).vkElements residueKey = some (residueElements p) := by
  have hone : (residueCurve p).coords1 1 = some [1] := by
    have hval : (1 : ZMod 3).val = 1 := rfl
    change (if (1 : ZMod 3) = 0 then none else some [((1 : ZMod 3).val : ZMod p)]) = some [1]
    rw [if_neg (by decide), hval, Nat.cast_one]
  have hone2 : (residueCurve p).coords2 1 = some [1] := hone
  simp [PriorCurve.vkElements, residueKey, PriorCurve.coordsAll, List.ofFn_succ, hone, hone2,
    residueElements, List.replicate]

def residueInputs (digest : ZMod p) : FoldPublicInputs (ZMod p) where
  sel := 1
  genesisRoot := 0
  targetRoot := 0
  targetBlockHash := 0
  targetHeight := 1
  chainId := 1
  vkDigest := 0
  priorRoot := 0
  priorBlockHash := 0
  priorHeight := 0
  priorChunks := fun _ _ => 0
  priorSel := 1
  priorVkDigest := ![digest, 0]

def residueWitness (vk : PriorVK (ZMod 3) (ZMod 3)) (c : ZMod 3) (vkCoords : List (ZMod p)) :
    FoldWitness p (ZMod 3) (ZMod 3) where
  chunkBits := fun _ _ _ => false
  ppChunks := fun _ _ => 0
  ppPriorSel := 0
  ppVkDigest := fun _ => 0
  proof := ⟨1, 1, c⟩
  delta := 0
  nInv := 1
  chainInv := 1
  vk := vk
  policy := 0
  vkCoords := vkCoords

lemma residue_satisfied {roundConstants : ℕ → PoseidonState (ZMod p)} {anchor : FoldAnchorConfig}
    {vk : PriorVK (ZMod 3) (ZMod 3)} {c : ZMod 3} {vkCoords : List (ZMod p)} {digest : ZMod p}
    (hdigest : poseidonSpongeNative roundConstants vkCoords = digest)
    (hproof : (residueCurve p).product vk
      ((residueWitness vk c vkCoords).priorInputs (residueInputs digest)).flat ⟨1, 1, c⟩ = 1) :
    Satisfied (residueCurve p) roundConstants anchor (residueInputs digest)
      (residueWitness vk c vkCoords) where
  chunks := fun _ _ => by
    have hbits : Nat.ofBits (fun i : Fin 128 => (0 : ℕ).testBit i) = 0 := Nat.ofBits_testBit 0 128
    simp only [Nat.zero_testBit] at hbits
    simp only [residueInputs, residueWitness, hbits, Nat.cast_zero]
  selBoolean := by simp [residueInputs]
  delta := by simp [residueInputs, residueWitness]
  height := by simp [residueInputs, residueWitness]
  chain := by simp [residueInputs, residueWitness]
  genesisRoot := by simp [residueInputs]
  genesisHash := by simp [residueInputs]
  genesisHeight := by simp [residueInputs]
  tieRoot := by simp [residueInputs, recon]
  tieHash := by simp [residueInputs, recon]
  tieHeight := by simp [residueInputs, recon]
  policy := by simp [residueInputs, residueWitness]
  policyGate := by simp [residueInputs, residueWitness]
  vkDigest := gate_of_holds (by simpa [residueInputs, residueWitness, recon] using hdigest) _
  pairing := gate_of_holds hproof _

lemma residueCurve_product (vk : PriorVK (ZMod 3) (ZMod 3)) (scalars : Fin 25 → ℕ)
    (proof : PriorProofPoints (ZMod 3) (ZMod 3)) :
    (residueCurve p).product vk scalars proof =
      Multiplicative.ofAdd (proof.a * proof.b + -gIc vk scalars * vk.gammaG2 +
        -proof.c * vk.deltaG2 + -vk.alphaG1 * vk.betaG2) := rfl

def residueScalars (digest : ZMod p) : Fin 25 → ℕ :=
  ((residueWitness residueKey 0 []).priorInputs (residueInputs digest)).flat

lemma priorInputs_residueWitness (vk : PriorVK (ZMod 3) (ZMod 3)) (c : ZMod 3)
    (vkCoords : List (ZMod p)) (digest : ZMod p) :
    ((residueWitness vk c vkCoords).priorInputs (residueInputs digest)).flat =
      residueScalars digest := rfl

lemma product_foreignKey (c : ZMod 3) (scalars : Fin 25 → ℕ) :
    (residueCurve p).product foreignKey scalars ⟨1, 1, c⟩ = 1 := by
  rw [residueCurve_product, foreignKey]
  simp

lemma product_residueKey (c : ZMod 3) (scalars : Fin 25 → ℕ) :
    (residueCurve p).product residueKey scalars ⟨1, 1, c⟩ = 1 ↔ gIc residueKey scalars + c = 0 := by
  have hsum : (1 : ZMod 3) * 1 + -gIc residueKey scalars * 1 + -c * 1 + -1 * 1 =
      -(gIc residueKey scalars + c) := by ring
  rw [residueCurve_product]
  change Multiplicative.ofAdd ((1 : ZMod 3) * 1 + -gIc residueKey scalars * 1 + -c * 1 + -1 * 1) = 1
    ↔ _
  rw [hsum, ofAdd_eq_one, neg_eq_zero]

variable (roundConstants : ℕ → PoseidonState (ZMod p)) (anchor : FoldAnchorConfig)

def residueDigest : ZMod p := poseidonSpongeNative roundConstants (residueElements p)

lemma recon_residueInputs (digest : ZMod p) :
    recon (residueInputs digest).priorVkDigest = digest := by
  simp [residueInputs, recon]

/-- The pairing check is made with `foreignKey`, the hash over `residueKey`. -/
lemma satisfied_foreignKey :
    Satisfied (residueCurve p) roundConstants anchor (residueInputs (residueDigest roundConstants))
      (residueWitness foreignKey
        (1 - gIc residueKey (residueScalars (residueDigest roundConstants)))
        (residueElements p)) :=
  residue_satisfied rfl (product_foreignKey _ _)

lemma satisfied_residueKey :
    Satisfied (residueCurve p) roundConstants anchor (residueInputs (residueDigest roundConstants))
      (residueWitness residueKey
        (-gIc residueKey (residueScalars (residueDigest roundConstants)))
        (residueElements p)) :=
  residue_satisfied rfl (by rw [priorInputs_residueWitness, product_residueKey, add_neg_cancel])

end ResidueCurve

/-- The size of the field of the examples, a Mersenne prime. -/
@[irreducible] def exampleModulus : ℕ := mersenne 521

lemma two_pow_lt_mersenne {k n : ℕ} (hk : 0 < k) (h : k < n) : 2 ^ k < mersenne n := by
  have hle : 2 ^ (k + 1) ≤ 2 ^ n := Nat.pow_le_pow_right two_pos h
  have hone : 1 < 2 ^ k := Nat.one_lt_two_pow hk.ne'
  rw [pow_succ] at hle
  rw [mersenne]
  omega

lemma two_pow_lt_exampleModulus : 2 ^ 256 < exampleModulus := by
  unfold exampleModulus
  exact @two_pow_lt_mersenne 256 521 (by norm_num) (by norm_num)

def zeroConstants (p : ℕ) : ℕ → PoseidonState (ZMod p) := fun _ => ⟨0, 0, 0⟩

def exampleAnchor : FoldAnchorConfig := ⟨22, 33, 7⟩

/-- The committed elements are those of `residueKey`, the pairing check is made with
`foreignKey`: the constraints hold and the proof does not pass under the committed key. -/
theorem satisfied_with_foreign_key :
    ∃ (x : FoldPublicInputs (ZMod exampleModulus))
      (w : FoldWitness exampleModulus (ZMod 3) (ZMod 3)),
      Satisfied (residueCurve exampleModulus) (zeroConstants exampleModulus) exampleAnchor x w ∧ x.sel = 1 ∧
      (residueCurve exampleModulus).vkElements residueKey = some w.vkCoords ∧
      poseidonSpongeNative (zeroConstants exampleModulus) w.vkCoords = recon x.priorVkDigest ∧
      ¬ (residueCurve exampleModulus).Groth16Holds residueKey
        (fun i => ((priorPublicInputs x w).flat i : ZMod 3)) w.proof := by
  have hsatisfied := satisfied_foreignKey (zeroConstants exampleModulus) exampleAnchor
  refine ⟨_, _, hsatisfied, rfl, vkElements_residueKey, (recon_residueInputs _).symm, ?_⟩
  change ¬ (residueCurve exampleModulus).Groth16Holds residueKey _ ⟨1, 1, _⟩
  rw [← hsatisfied.priorInputs_eq (lt_trans (by norm_num) two_pow_lt_exampleModulus),
    ← PriorCurve.product_eq_one_iff, priorInputs_residueWitness, product_residueKey,
    add_sub_cancel]
  decide

/-- The theorem on tied keys at an assignment whose key points are the committed ones. -/
theorem satisfied_with_committed_key :
    ∃ w : FoldWitness exampleModulus (ZMod 3) (ZMod 3),
      (residueCurve exampleModulus).Groth16Holds residueKey
        (fun i => ((priorPublicInputs (residueInputs (residueDigest (zeroConstants exampleModulus))) w).flat i :
          ZMod 3)) w.proof := by
  have hp : 2 ^ 128 < exampleModulus := lt_trans (by norm_num) two_pow_lt_exampleModulus
  exact ⟨_, satisfied_groth16_of_tied (residueCurve_lawful (lt_trans (by norm_num) hp)) hp
    (satisfied_residueKey (zeroConstants exampleModulus) exampleAnchor) rfl vkElements_residueKey
    vkElements_residueKey (recon_residueInputs _).symm fun _ => rfl⟩

end Sxiaum.Zk
