import Sxiaum.Zk.Poseidon

/-!
# The recursive fold circuit

Statements, public inputs and constraints of `RecursiveFoldCircuit` (`groth16/fold.rs`). A
layer's circuit is over the prime field `ZMod p`; the proof it verifies inside lives on a
curve whose coordinates are in that field and whose groups have order `r`. The gadgets of
the constraint library are taken at their meaning: a variable is its value, an equality
gadget gives the truth of the equation, `to_bits_le` gives the bits of the canonical
representative. A 32-byte string is the number it spells with the lowest byte first.
-/

namespace Sxiaum.Zk

/-- A 32-byte string, read with the lowest byte first. -/
abbrev Bytes32 := BitVec 256

/-! ### Statements -/

inductive FoldLayerId where
  | a
  | b
deriving DecidableEq, Repr

/-- The pinned statement of the anchor certificate. -/
structure FoldAnchorConfig where
  root : Bytes32
  blockHash : Bytes32
  height : UInt64
deriving DecidableEq

/-- The public statement of a fold certificate. -/
structure FoldStatement where
  sel : Bool
  genesisRoot : Bytes32
  targetRoot : Bytes32
  targetBlockHash : Bytes32
  targetHeight : UInt64
  chainId : UInt64
  vkDigest : Bytes32
  priorRoot : Bytes32
  priorBlockHash : Bytes32
  priorHeight : UInt64
deriving DecidableEq

namespace FoldStatement

def genesisPrior (genesisRoot : Bytes32) (chainId : UInt64) (vkDigest : Bytes32) :
    FoldStatement where
  sel := false
  genesisRoot := genesisRoot
  targetRoot := genesisRoot
  targetBlockHash := 0
  targetHeight := 0
  chainId := chainId
  vkDigest := vkDigest
  priorRoot := genesisRoot
  priorBlockHash := 0
  priorHeight := 0

/-- The six fields that the next layer takes apart, as numbers below `2 ^ 256`. -/
def chunkedFields (s : FoldStatement) : Fin 6 → ℕ :=
  ![s.targetRoot.toNat, s.targetBlockHash.toNat, s.targetHeight.toNat, s.priorRoot.toNat,
    s.priorBlockHash.toNat, s.priorHeight.toNat]

end FoldStatement

/-! ### Public inputs -/

/-- `split_chunk`: the two 128-bit halves of a number, the lower one first. -/
def splitChunk (n : ℕ) : Fin 2 → ℕ := ![n % 2 ^ 128, n / 2 ^ 128]

def foldPublicInputsLen : ℕ := 25

/-- The public inputs of a fold circuit, under the names of the statement's fields. The
chunks are in the order of `FoldStatement.chunkedFields`, lower half first. -/
structure FoldPublicInputs (α : Type) where
  sel : α
  genesisRoot : α
  targetRoot : α
  targetBlockHash : α
  targetHeight : α
  chainId : α
  vkDigest : α
  priorRoot : α
  priorBlockHash : α
  priorHeight : α
  priorChunks : Fin 6 → Fin 2 → α
  priorSel : α
  priorVkDigest : Fin 2 → α

def FoldPublicInputs.flat {α : Type} (x : FoldPublicInputs α) : Fin 25 → α :=
  ![x.sel, x.genesisRoot, x.targetRoot, x.targetBlockHash, x.targetHeight, x.chainId, x.vkDigest,
    x.priorRoot, x.priorBlockHash, x.priorHeight,
    x.priorChunks 0 0, x.priorChunks 0 1, x.priorChunks 1 0, x.priorChunks 1 1,
    x.priorChunks 2 0, x.priorChunks 2 1, x.priorChunks 3 0, x.priorChunks 3 1,
    x.priorChunks 4 0, x.priorChunks 4 1, x.priorChunks 5 0, x.priorChunks 5 1,
    x.priorSel, x.priorVkDigest 0, x.priorVkDigest 1]

/-- `fold_public_inputs`, as numbers; the field elements are their residues. -/
def foldPublicInputs (own prior : FoldStatement) : FoldPublicInputs ℕ where
  sel := own.sel.toNat
  genesisRoot := own.genesisRoot.toNat
  targetRoot := own.targetRoot.toNat
  targetBlockHash := own.targetBlockHash.toNat
  targetHeight := own.targetHeight.toNat
  chainId := own.chainId.toNat
  vkDigest := own.vkDigest.toNat
  priorRoot := own.priorRoot.toNat
  priorBlockHash := own.priorBlockHash.toNat
  priorHeight := own.priorHeight.toNat
  priorChunks := fun i => splitChunk (prior.chunkedFields i)
  priorSel := prior.sel.toNat
  priorVkDigest := splitChunk prior.vkDigest.toNat

def FoldPublicInputs.map {α β : Type} (f : α → β) (x : FoldPublicInputs α) :
    FoldPublicInputs β where
  sel := f x.sel
  genesisRoot := f x.genesisRoot
  targetRoot := f x.targetRoot
  targetBlockHash := f x.targetBlockHash
  targetHeight := f x.targetHeight
  chainId := f x.chainId
  vkDigest := f x.vkDigest
  priorRoot := f x.priorRoot
  priorBlockHash := f x.priorBlockHash
  priorHeight := f x.priorHeight
  priorChunks := fun i j => f (x.priorChunks i j)
  priorSel := f x.priorSel
  priorVkDigest := fun j => f (x.priorVkDigest j)

/-- `fold_public_inputs` over the field of `q` elements. -/
def foldFieldInputs (q : ℕ) (own prior : FoldStatement) : FoldPublicInputs (ZMod q) :=
  (foldPublicInputs own prior).map Nat.cast

/-! ### Keys and proofs of the prior layer -/

section Curve

variable (p : ℕ) (G1 G2 GT : Type) [AddCommGroup G1] [CommGroup GT]

/-- The curve of the prior layer, with the coordinates of its points in the circuit's field.
The identity has no coordinates. -/
structure PriorCurve where
  pairing : G1 → G2 → GT
  pairing_neg : ∀ P Q, pairing (-P) Q = (pairing P Q)⁻¹
  coords1 : G1 → Option (List (ZMod p))
  coords2 : G2 → Option (List (ZMod p))

variable {p G1 G2 GT}

/-- `PriorVK`: the verifying key of a circuit with 25 public inputs. -/
structure PriorVK (G1 G2 : Type) where
  alphaG1 : G1
  betaG2 : G2
  gammaG2 : G2
  deltaG2 : G2
  ic : Fin 26 → G1

structure PriorProofPoints (G1 G2 : Type) where
  a : G1
  b : G2
  c : G1

namespace PriorCurve

variable (curve : PriorCurve p G1 G2 GT)

def coordsAll : List G1 → Option (List (ZMod p))
  | [] => some []
  | P :: Ps => do
    let c ← curve.coords1 P
    let cs ← coordsAll Ps
    return c ++ cs

/-- `to_base_prime_field_elements`; there are none if a point is the identity, where the
source panics. -/
def vkElements (vk : PriorVK G1 G2) : Option (List (ZMod p)) := do
  let alpha ← curve.coords1 vk.alphaG1
  let beta ← curve.coords2 vk.betaG2
  let gamma ← curve.coords2 vk.gammaG2
  let delta ← curve.coords2 vk.deltaG2
  let ic ← curve.coordsAll (List.ofFn vk.ic)
  return alpha ++ (beta ++ (gamma ++ (delta ++ ic)))

/-- `Groth16::verify` accepts: `e(A, B) = e(α, β) · e(IC₀ + Σ xᵢ · ICᵢ₊₁, γ) · e(C, δ)`. -/
def Groth16Holds {r : ℕ} [Module (ZMod r) G1] (vk : PriorVK G1 G2) (inputs : Fin 25 → ZMod r)
    (proof : PriorProofPoints G1 G2) : Prop :=
  curve.pairing proof.a proof.b =
    curve.pairing vk.alphaG1 vk.betaG2 *
      curve.pairing (vk.ic 0 + ∑ i, inputs i • vk.ic i.succ) vk.gammaG2 *
      curve.pairing proof.c vk.deltaG2

end PriorCurve

end Curve

/-! ### Digest of a key -/

/-- `hash_from_field`: the low 32 bytes of the canonical representative. -/
def hashFromField {p : ℕ} (x : ZMod p) : Bytes32 := BitVec.ofNat 256 x.val

section Circuit

variable {p : ℕ} {G1 G2 GT : Type} [AddCommGroup G1] [CommGroup GT]

def foldVkDigest (curve : PriorCurve p G1 G2 GT) (roundConstants : ℕ → PoseidonState (ZMod p))
    (vk : PriorVK G1 G2) : Option Bytes32 :=
  (curve.vkElements vk).map fun elements =>
    hashFromField (poseidonSpongeNative roundConstants elements)

/-! ### The circuit -/

/-- The witness variables of the circuit. The key is there twice: as points and as the
field elements that are hashed. -/
structure FoldWitness (p : ℕ) (G1 G2 : Type) where
  chunkBits : Fin 6 → Fin 2 → Fin 128 → Bool
  ppChunks : Fin 6 → Fin 2 → ZMod p
  ppPriorSel : ZMod p
  ppVkDigest : Fin 2 → ZMod p
  proof : PriorProofPoints G1 G2
  delta : ZMod p
  nInv : ZMod p
  chainInv : ZMod p
  vk : PriorVK G1 G2
  policy : ZMod p
  vkCoords : List (ZMod p)

/-- `recon`: a number from its halves. -/
def recon {R : Type} [CommRing R] (halves : Fin 2 → R) : R := halves 0 + halves 1 * 2 ^ 128

/-- The value of a field gadget that is one if a condition holds and zero otherwise. -/
def indicator (p : ℕ) (c : Prop) [Decidable c] : ZMod p := if c then 1 else 0

/-- `anchor_match`: the prior statement is the pinned anchor certificate's. -/
def AnchorMatch (anchor : FoldAnchorConfig) (x : FoldPublicInputs (ZMod p)) : Prop :=
  recon (x.priorChunks 0) = (anchor.root.toNat : ZMod p) ∧
  recon (x.priorChunks 1) = (anchor.blockHash.toNat : ZMod p) ∧
  recon (x.priorChunks 2) = (anchor.height.toNat : ZMod p) ∧
  recon (x.priorChunks 3) = x.genesisRoot ∧
  recon (x.priorChunks 4) = 0 ∧
  recon (x.priorChunks 5) = 0 ∧
  x.priorSel = 0

instance (anchor : FoldAnchorConfig) (x : FoldPublicInputs (ZMod p)) :
    Decidable (AnchorMatch anchor x) :=
  inferInstanceAs (Decidable (_ ∧ _))

variable (x : FoldPublicInputs (ZMod p)) (w : FoldWitness p G1 G2)

/-- The 256-bit scalar that the bits of two chunks make. -/
def FoldWitness.chunkScalar (i : Fin 6) : ℕ :=
  Nat.ofBits (w.chunkBits i 0) + Nat.ofBits (w.chunkBits i 1) * 2 ^ 128

/-- The scalars that multiply the points `IC₁ … IC₂₅`: the public inputs of the prior
proof, those of its own prior from the witness. Of the digest the low 128 bits of each half
are taken. -/
def FoldWitness.priorInputs : FoldPublicInputs ℕ where
  sel := x.priorSel.val
  genesisRoot := x.genesisRoot.val
  targetRoot := w.chunkScalar 0
  targetBlockHash := w.chunkScalar 1
  targetHeight := w.chunkScalar 2
  chainId := x.chainId.val
  vkDigest := (x.priorVkDigest 0).val % 2 ^ 128 + (x.priorVkDigest 1).val % 2 ^ 128 * 2 ^ 128
  priorRoot := w.chunkScalar 3
  priorBlockHash := w.chunkScalar 4
  priorHeight := w.chunkScalar 5
  priorChunks := fun i j => (w.ppChunks i j).val
  priorSel := w.ppPriorSel.val
  priorVkDigest := fun j => (w.ppVkDigest j).val

/-- The public inputs of the prior proof: the prior statement as the chunks spell it, the
genesis root and the chain id of the certificate itself, and of the prior's own prior what
the witness says. -/
def priorPublicInputs : FoldPublicInputs ℕ where
  sel := x.priorSel.val
  genesisRoot := x.genesisRoot.val
  targetRoot := (x.priorChunks 0 0).val + (x.priorChunks 0 1).val * 2 ^ 128
  targetBlockHash := (x.priorChunks 1 0).val + (x.priorChunks 1 1).val * 2 ^ 128
  targetHeight := (x.priorChunks 2 0).val + (x.priorChunks 2 1).val * 2 ^ 128
  chainId := x.chainId.val
  vkDigest := (x.priorVkDigest 0).val % 2 ^ 128 + (x.priorVkDigest 1).val % 2 ^ 128 * 2 ^ 128
  priorRoot := (x.priorChunks 3 0).val + (x.priorChunks 3 1).val * 2 ^ 128
  priorBlockHash := (x.priorChunks 4 0).val + (x.priorChunks 4 1).val * 2 ^ 128
  priorHeight := (x.priorChunks 5 0).val + (x.priorChunks 5 1).val * 2 ^ 128
  priorChunks := fun i j => (w.ppChunks i j).val
  priorSel := w.ppPriorSel.val
  priorVkDigest := fun j => (w.ppVkDigest j).val

/-- `g_ic`: the sum over the scalars' bits. -/
def gIc (vk : PriorVK G1 G2) (scalars : Fin 25 → ℕ) : G1 :=
  vk.ic 0 + ∑ i, scalars i • vk.ic i.succ

/-- The product of pairings that the circuit compares with one. -/
def PriorCurve.product (curve : PriorCurve p G1 G2 GT) (vk : PriorVK G1 G2)
    (scalars : Fin 25 → ℕ) (proof : PriorProofPoints G1 G2) : GT :=
  curve.pairing proof.a proof.b * curve.pairing (-gIc vk scalars) vk.gammaG2 *
    curve.pairing (-proof.c) vk.deltaG2 * curve.pairing (-vk.alphaG1) vk.betaG2

variable [DecidableEq GT]

/-- The constraints of `generate_constraints`, for public inputs `x` and a witness `w`. -/
structure Satisfied (curve : PriorCurve p G1 G2 GT)
    (roundConstants : ℕ → PoseidonState (ZMod p)) (anchor : FoldAnchorConfig)
    (x : FoldPublicInputs (ZMod p)) (w : FoldWitness p G1 G2) : Prop where
  chunks : ∀ i j, x.priorChunks i j = (Nat.ofBits (w.chunkBits i j) : ZMod p)
  selBoolean : x.sel * x.sel = x.sel
  delta : x.priorRoot + w.delta = x.targetRoot
  height : x.targetHeight * w.nInv = 1
  chain : x.chainId * w.chainInv = 1
  genesisRoot : (x.priorRoot - x.genesisRoot) * (1 - x.sel) = 0
  genesisHash : x.priorBlockHash * (1 - x.sel) = 0
  genesisHeight : x.priorHeight * (1 - x.sel) = 0
  tieRoot : (recon (x.priorChunks 0) - x.priorRoot) * x.sel = 0
  tieHash : (recon (x.priorChunks 1) - x.priorBlockHash) * x.sel = 0
  tieHeight : (recon (x.priorChunks 2) - x.priorHeight) * x.sel = 0
  policy : (x.priorSel - 1) * (1 - indicator p (AnchorMatch anchor x)) = w.policy
  policyGate : x.sel * w.policy = 0
  vkDigest : (indicator p
    (poseidonSpongeNative roundConstants w.vkCoords = recon x.priorVkDigest) - 1) * x.sel = 0
  pairing : (indicator p (curve.product w.vk (w.priorInputs x).flat w.proof = 1) - 1) * x.sel = 0

end Circuit

end Sxiaum.Zk
