import Sxiaum.Lib.Guards
import Sxiaum.Types
import Sxiaum.Zk.FoldCompleteness

/-!
# Chains of recursive certificates

`verify_recursive_certificate_chain` and the checks it calls (`zk/src/lib.rs`,
`FoldLayerVerifier` in `groth16/fold.rs`). Deserialization of a proof and the Groth16
verifier of a layer are fields of the layer; that the verifier is sound is a hypothesis
about the layer's circuit.
-/

namespace Sxiaum.Zk

open Guards

/-! ### Certificates -/

def sxiaumChainId : UInt64 := 13689

structure RecursiveStateSyncProof where
  genesisStateRoot : Bytes32
  targetStateRoot : Bytes32
  targetBlockHash : Bytes32
  targetHeight : UInt64
  prevCertificateHash : Bytes32
  sel : Bool
  layer : FoldLayerId
  vkDigest : Bytes32
  priorStateRoot : Bytes32
  priorBlockHash : Bytes32
  priorHeight : UInt64
  proof : List UInt8
deriving DecidableEq

def FoldLayerId.name : FoldLayerId → String
  | .a => "A"
  | .b => "B"

def FoldLayerId.toU8 : FoldLayerId → UInt8
  | .a => 0
  | .b => 1

def proofSizeForLayer : FoldLayerId → ℕ
  | .a => 475
  | .b => 380

namespace RecursiveStateSyncProof

/-- The canonical encoding: a header of 64 bytes and the proof. -/
def certificateBytes (c : RecursiveStateSyncProof) : Except String (List UInt8) := do
  let layer := c.layer.name
  let expected := proofSizeForLayer c.layer
  let got := c.proof.length
  bailIf (got ≠ expected) (s!"certificate for layer {layer} requires the canonical " ++
    s!"{expected}-byte compressed Groth16 proof, got {got} bytes")
  return [83, 88, 82, 77] ++ leBytes 2 2 ++ [c.layer.toU8, if c.sel then 1 else 0] ++
    leBytes 8 sxiaumChainId.toNat ++ leBytes 8 c.targetHeight.toNat ++
    leBytes 32 c.prevCertificateHash.toNat ++ List.replicate 8 0 ++ c.proof

def certificateHash (sha256 : List UInt8 → Bytes32) (c : RecursiveStateSyncProof) :
    Except String Bytes32 :=
  c.certificateBytes.map sha256

/-- The statement that the verifiers build from a certificate's own fields. -/
def statement (genesisStateRoot : Bytes32) (c : RecursiveStateSyncProof) : FoldStatement where
  sel := c.sel
  genesisRoot := genesisStateRoot
  targetRoot := c.targetStateRoot
  targetBlockHash := c.targetBlockHash
  targetHeight := c.targetHeight
  chainId := sxiaumChainId
  vkDigest := c.vkDigest
  priorRoot := c.priorStateRoot
  priorBlockHash := c.priorBlockHash
  priorHeight := c.priorHeight

end RecursiveStateSyncProof

/-! ### Verifiers of the two layers -/

/-- `FoldLayerVerifier`; `π` are the proofs of the layer. -/
structure FoldLayerVerifier (p : ℕ) (π : Type) where
  chainId : UInt64
  vkDigest : Bytes32
  priorVkDigest : Bytes32
  deserializeFoldProof : List UInt8 → Except String π
  groth16Verify : (Fin 25 → ZMod p) → π → Except String Bool

namespace FoldLayerVerifier

variable {p : ℕ} {π : Type}

def verify (v : FoldLayerVerifier p π) (own prior priorPrior : FoldStatement) (proof : π) :
    Except String Bool := do
  let ownChain := own.chainId.toNat
  let pinnedChain := v.chainId.toNat
  bailIf (own.chainId ≠ v.chainId)
    s!"fold certificate chain id {ownChain} does not match pinned {pinnedChain}"
  bailIf (own.vkDigest ≠ v.vkDigest)
    "fold certificate vk_digest does not match the pinned ceremony"
  bailIf (own.genesisRoot ≠ prior.genesisRoot ∨ prior.genesisRoot ≠ priorPrior.genesisRoot)
    "fold certificate genesis root does not match its prior statements"
  bailIf (own.sel = true ∧ prior.vkDigest ≠ v.priorVkDigest)
    "folded certificate's prior_vk_digest does not match the pinned prior-layer ceremony"
  (v.groth16Verify (foldFieldInputs p own prior).flat proof).mapError
    fun e => s!"fold pairing check failed: {e}"

def verifyBytes (v : FoldLayerVerifier p π) (own prior priorPrior : FoldStatement)
    (bytes : List UInt8) : Except String Bool := do
  let proof ← v.deserializeFoldProof bytes
  v.verify own prior priorPrior proof

end FoldLayerVerifier

/-- `FoldStack`, as far as verification reads it. -/
structure FoldStack (pA pB : ℕ) (πA πB : Type) where
  proverAVkDigest : Bytes32
  verifierA : FoldLayerVerifier pA πA
  verifierB : FoldLayerVerifier pB πB

/-- `ZkEngine`, as far as verification of certificates reads it. -/
structure ZkEngine (pA pB : ℕ) (πA πB : Type) where
  foldStack : Option (FoldStack pA pB πA πB)
  sha256 : List UInt8 → Bytes32

namespace ZkEngine

variable {pA pB : ℕ} {πA πB : Type} (engine : ZkEngine pA pB πA πB) (genesisStateRoot : Bytes32)

def stack : Except String (FoldStack pA pB πA πB) :=
  match engine.foldStack with
  | some stack => .ok stack
  | none => .error "fold stack not initialised"

def verifyRecursiveStateSyncProof (targetStateRoot targetBlockHash : Bytes32)
    (targetHeight : UInt64) (proof : List UInt8) : Except String Bool := do
  let expected := proofSizeForLayer .a
  let got := proof.length
  bailIf (got = 0) "proof bytes cannot be empty"
  bailIf (got ≠ expected) ("recursive state sync certificate must carry a canonical " ++
    s!"{expected}-byte compressed proof, got {got} bytes")
  let stack ← engine.stack
  let vkDigest := stack.proverAVkDigest
  let own : FoldStatement := {
    sel := false
    genesisRoot := genesisStateRoot
    targetRoot := targetStateRoot
    targetBlockHash := targetBlockHash
    targetHeight := targetHeight
    chainId := sxiaumChainId
    vkDigest := vkDigest
    priorRoot := genesisStateRoot
    priorBlockHash := 0
    priorHeight := 0 }
  let prior := FoldStatement.genesisPrior genesisStateRoot sxiaumChainId vkDigest
  stack.verifierA.verifyBytes own prior prior proof

/-- The statement before the prior one, from the metadata at hand. -/
def priorPriorStatement (priorMeta : RecursiveStateSyncProof) :
    Option RecursiveStateSyncProof → Except String FoldStatement
  | some pp => do
    bailIf (pp.targetStateRoot ≠ priorMeta.priorStateRoot ∨
        pp.targetBlockHash ≠ priorMeta.priorBlockHash ∨ pp.targetHeight ≠ priorMeta.priorHeight)
      "prior-prior metadata does not match the prior certificate's binding"
    return pp.statement genesisStateRoot
  | none => do
    bailIf priorMeta.sel "folded prior requires prior-prior metadata"
    return .genesisPrior genesisStateRoot sxiaumChainId priorMeta.vkDigest

def verifyFoldedCertificate (cert priorMeta : RecursiveStateSyncProof)
    (priorPriorMeta : Option RecursiveStateSyncProof) : Except String Bool := do
  bailIf (¬ cert.sel) ("not a folded certificate: use verify_recursive_state_sync_proof " ++
    "for bootstrap certificates")
  bailIf (priorMeta.targetStateRoot ≠ cert.priorStateRoot ∨
      priorMeta.targetBlockHash ≠ cert.priorBlockHash ∨ priorMeta.targetHeight ≠ cert.priorHeight)
    "prior metadata does not match the certificate's in-circuit prior binding"
  let priorPrior ← priorPriorStatement genesisStateRoot priorMeta priorPriorMeta
  let stack ← engine.stack
  let own := { cert.statement genesisStateRoot with sel := true }
  let prior := priorMeta.statement genesisStateRoot
  match cert.layer with
  | .a => stack.verifierA.verifyBytes own prior priorPrior cert.proof
  | .b => stack.verifierB.verifyBytes own prior priorPrior cert.proof

/-! ### The chain -/

variable (seen : List RecursiveStateSyncProof) (expectedPrevHash : Bytes32)
  (cert : RecursiveStateSyncProof)

/-- Whether the proof of a certificate is valid after the certificates `seen`, the latest
first. -/
def validAfter : Except String Bool :=
  let index := seen.length
  match seen with
  | [] => do
    bailIf cert.sel "first chain certificate must be a bootstrap (sel = 0) certificate"
    engine.verifyRecursiveStateSyncProof genesisStateRoot cert.targetStateRoot
      cert.targetBlockHash cert.targetHeight cert.proof
  | [prior] => engine.verifyFoldedCertificate genesisStateRoot cert prior none
  | prior :: priorPrior :: _ => do
    bailIf (¬ cert.sel) s!"chain certificate {index} must be a folded (sel = 1) certificate"
    engine.verifyFoldedCertificate genesisStateRoot cert prior (some priorPrior)

/-- The height check against the certificate before. -/
def checkHeight : Option RecursiveStateSyncProof → Except String Unit
  | none => .ok ()
  | some prev =>
    let height := cert.targetHeight.toNat
    let prevHeight := prev.targetHeight.toNat
    bailIf (cert.targetHeight ≤ prev.targetHeight)
      s!"certificate heights must strictly increase: {height} follows {prevHeight}"

/-- One round of the loop: the hash that the next certificate must carry. -/
def checkCertificate : Except String Bytes32 := do
  let index := seen.length
  let height := cert.targetHeight.toNat
  bailIf (cert.prevCertificateHash ≠ expectedPrevHash)
    (s!"certificate chain broken at index {index}: prev_certificate_hash does not match " ++
      "the hash of the preceding certificate")
  checkHeight cert seen.head?
  let valid ← engine.validAfter genesisStateRoot seen cert
  bailIf (¬ valid)
    s!"certificate chain invalid: pairing check failed at index {index} (height {height})"
  cert.certificateHash engine.sha256

def checkCertificates (seen : List RecursiveStateSyncProof) (expectedPrevHash : Bytes32) :
    List RecursiveStateSyncProof → Except String Unit
  | [] => .ok ()
  | cert :: certs => do
    let hash ← engine.checkCertificate genesisStateRoot seen expectedPrevHash cert
    checkCertificates (cert :: seen) hash certs

def verifyRecursiveCertificateChain (certificates : List RecursiveStateSyncProof) :
    Except String UInt64 :=
  match certificates.getLast? with
  | none => .error "certificate chain cannot be empty"
  | some last => do
    engine.checkCertificates genesisStateRoot [] 0 certificates
    return last.targetHeight

/-! ### What an accepted certificate has passed -/

variable {engine genesisStateRoot}

lemma checkCertificate_ok {seen : List RecursiveStateSyncProof} {expected next : Bytes32}
    {cert : RecursiveStateSyncProof}
    (h : engine.checkCertificate genesisStateRoot seen expected cert = .ok next) :
    checkHeight cert seen.head? = .ok () ∧
      engine.validAfter genesisStateRoot seen cert = .ok true := by
  simp only [checkCertificate, bind_ok, bailIf_ok, exists_unit, not_not] at h
  obtain ⟨-, hheight, valid, hvalid, htrue, -⟩ := h
  exact ⟨hheight, by rw [hvalid, htrue]⟩

/-- Every certificate of an accepted list has passed the checks of its own round. -/
lemma checkCertificates_split {certs post seen : List RecursiveStateSyncProof}
    {cert : RecursiveStateSyncProof} {expected : Bytes32} {u : Unit}
    (h : engine.checkCertificates genesisStateRoot seen expected certs = .ok u)
    (pre : List RecursiveStateSyncProof) (hcerts : certs = pre ++ cert :: post) :
    ∃ expected next, engine.checkCertificate genesisStateRoot (pre.reverse ++ seen) expected cert =
      .ok next := by
  subst hcerts
  induction pre generalizing seen expected with
  | nil =>
    obtain ⟨next, hnext, -⟩ := bind_ok.1 h
    exact ⟨expected, next, hnext⟩
  | cons c pre ih =>
    obtain ⟨next, -, hrest⟩ := bind_ok.1 h
    simpa using ih hrest

end ZkEngine

/-! ### Chains from the anchor -/

namespace RecursiveStateSyncProof

/-- The certificate certifies the pinned anchor. -/
def IsAnchor (anchor : FoldAnchorConfig) (c : RecursiveStateSyncProof) : Prop :=
  c.sel = false ∧ c.targetStateRoot = anchor.root ∧ c.targetBlockHash = anchor.blockHash ∧
    c.targetHeight = anchor.height

/-- The prior state of a certificate is what the one before it certifies. -/
def Follows (c prev : RecursiveStateSyncProof) : Prop :=
  c.priorStateRoot = prev.targetStateRoot ∧ c.priorBlockHash = prev.targetBlockHash ∧
    c.priorHeight = prev.targetHeight

end RecursiveStateSyncProof

structure ChainFromAnchor (anchor : FoldAnchorConfig) (certs : List RecursiveStateSyncProof) :
    Prop where
  first : ∀ c ∈ certs.head?, c.IsAnchor anchor
  heights : certs.IsChain fun prev c => prev.targetHeight < c.targetHeight
  linked : certs.IsChain fun prev c => c.Follows prev

section Soundness

variable {p : ℕ} {π G1 G2 GT : Type} [AddCommGroup G1] [CommGroup GT] [DecidableEq GT]

/-- Groth16 is sound for the layer: inputs with an accepted proof have an assignment that
satisfies the circuit, whose constant is the pinned anchor. -/
def FoldLayerVerifier.Sound (v : FoldLayerVerifier p π) (curve : PriorCurve p G1 G2 GT)
    (roundConstants : ℕ → PoseidonState (ZMod p)) (anchor : FoldAnchorConfig) : Prop :=
  ∀ (x : FoldPublicInputs (ZMod p)) (proof : π), v.groth16Verify x.flat proof = .ok true →
    ∃ w, Satisfied curve roundConstants anchor x w

/-- A sound layer accepts a fold onto a bootstrap statement only if that is the anchor's. -/
lemma FoldLayerVerifier.Sound.prior_anchor {v : FoldLayerVerifier p π}
    {curve : PriorCurve p G1 G2 GT} {roundConstants : ℕ → PoseidonState (ZMod p)}
    {anchor : FoldAnchorConfig} (hsound : v.Sound curve roundConstants anchor)
    (hp : 2 ^ 256 < p) {own prior priorPrior : FoldStatement} {bytes : List UInt8}
    (hown : own.sel = true) (hprior : prior.sel = false)
    (h : v.verifyBytes own prior priorPrior bytes = .ok true) :
    prior.targetRoot = anchor.root ∧ prior.targetBlockHash = anchor.blockHash ∧
      prior.targetHeight = anchor.height := by
  obtain ⟨proof, -, hproof⟩ := bind_ok.1 h
  simp only [FoldLayerVerifier.verify, bind_ok, exists_unit, mapError_eq_ok] at hproof
  obtain ⟨-, -, -, -, hverify⟩ := hproof
  obtain ⟨w, hsat⟩ := hsound _ _ hverify
  have hone : (foldFieldInputs p own prior).sel = 1 := by
    change ((own.sel.toNat : ℕ) : ZMod p) = 1
    rw [hown, Bool.toNat_true, Nat.cast_one]
  have hzero : (foldFieldInputs p own prior).priorSel = 0 := by
    change ((prior.sel.toNat : ℕ) : ZMod p) = 0
    rw [hprior, Bool.toNat_false, Nat.cast_zero]
  have : Fact (1 < p) := ⟨lt_trans (by norm_num) hp⟩
  rcases hsat.policy_cases hone with hfolded | hanchor
  · rw [hzero] at hfolded
    exact absurd hfolded zero_ne_one
  · -- matching the anchor in the field is matching it
    obtain ⟨hroot, hhash, hheight, -⟩ := hanchor
    have hu64 : ∀ n : UInt64, n.toNat < 2 ^ 256 := fun n => n.toNat_lt.trans (by norm_num)
    refine ⟨?_, ?_, ?_⟩
    · exact BitVec.eq_of_toNat_eq (natCast_injOn hp prior.targetRoot.isLt anchor.root.isLt
        ((recon_splitChunk _).symm.trans hroot))
    · exact BitVec.eq_of_toNat_eq (natCast_injOn hp prior.targetBlockHash.isLt
        anchor.blockHash.isLt ((recon_splitChunk _).symm.trans hhash))
    · exact UInt64.toNat_inj.1 (natCast_injOn hp (hu64 _) (hu64 _)
        ((recon_splitChunk _).symm.trans hheight))

end Soundness

namespace ZkEngine

variable {pA pB : ℕ} {πA πB G1 G2 GT H1 H2 HT : Type}
  [AddCommGroup G1] [CommGroup GT] [DecidableEq GT]
  [AddCommGroup H1] [CommGroup HT] [DecidableEq HT]
  {engine : ZkEngine pA pB πA πB} {stack : FoldStack pA pB πA πB} {genesisStateRoot : Bytes32}
  {anchor : FoldAnchorConfig}
  {curveA : PriorCurve pA G1 G2 GT} {constantsA : ℕ → PoseidonState (ZMod pA)}
  {curveB : PriorCurve pB H1 H2 HT} {constantsB : ℕ → PoseidonState (ZMod pB)}

lemma follows_of_verifyFoldedCertificate {cert prior : RecursiveStateSyncProof}
    {priorPrior : Option RecursiveStateSyncProof} {b : Bool}
    (h : engine.verifyFoldedCertificate genesisStateRoot cert prior priorPrior = .ok b) :
    cert.Follows prior := by
  simp only [verifyFoldedCertificate, bind_ok, bailIf_ok, exists_unit, not_or, not_not] at h
  obtain ⟨-, ⟨hroot, hhash, hheight⟩, -⟩ := h
  exact ⟨hroot.symm, hhash.symm, hheight.symm⟩

section Sound

variable (hpA : 2 ^ 256 < pA) (hpB : 2 ^ 256 < pB) (hstack : engine.foldStack = some stack)
  (hA : stack.verifierA.Sound curveA constantsA anchor)
  (hB : stack.verifierB.Sound curveB constantsB anchor)

include hpA hpB hstack hA hB

/-- The second certificate has folded the first: that one is the anchor's. -/
lemma isAnchor_of_verifyFoldedCertificate {cert prior : RecursiveStateSyncProof}
    (h : engine.verifyFoldedCertificate genesisStateRoot cert prior none = .ok true) :
    prior.IsAnchor anchor := by
  simp only [verifyFoldedCertificate, priorPriorStatement, ZkEngine.stack, hstack, bind_ok,
    bailIf_ok, pure_ok, exists_unit] at h
  obtain ⟨-, -, pp, ⟨hsel, rfl⟩, s, hs, hverify⟩ := h
  obtain rfl : stack = s := Except.ok.inj hs
  have hfalse : prior.sel = false := Bool.eq_false_iff.2 hsel
  refine ⟨hfalse, ?_⟩
  cases hlayer : cert.layer with
  | a =>
    rw [hlayer] at hverify
    exact hA.prior_anchor hpA rfl hfalse hverify
  | b =>
    rw [hlayer] at hverify
    exact hB.prior_anchor hpB rfl hfalse hverify

/-- An accepted list is a chain from the pinned anchor exactly if it is no list of one
certificate for something else. -/
theorem chainFromAnchor_iff {certs : List RecursiveStateSyncProof} {height : UInt64}
    (h : engine.verifyRecursiveCertificateChain genesisStateRoot certs = .ok height) :
    ChainFromAnchor anchor certs ↔ ∀ c, certs = [c] → c.IsAnchor anchor := by
  have hchecks : engine.checkCertificates genesisStateRoot [] 0 certs = .ok () := by
    rw [verifyRecursiveCertificateChain] at h
    cases hlast : certs.getLast? with
    | none =>
      rw [hlast] at h
      cases h
    | some last =>
      rw [hlast] at h
      obtain ⟨⟨⟩, hchecks, -⟩ := bind_ok.1 h
      exact hchecks
  have hround : ∀ prev c pre post, certs = pre ++ prev :: c :: post →
      prev.targetHeight < c.targetHeight ∧ c.Follows prev := by
    intro prev c pre post hcerts
    obtain ⟨expected, next, hcheck⟩ :=
      checkCertificates_split hchecks (pre ++ [prev]) (by simpa using hcerts)
    rw [List.reverse_append, List.append_nil] at hcheck
    obtain ⟨hheight, hvalid⟩ := checkCertificate_ok hcheck
    refine ⟨?_, ?_⟩
    · rw [List.reverse_singleton, List.singleton_append, List.head?_cons, checkHeight,
        bailIf_ok] at hheight
      exact UInt64.not_le.1 hheight
    · generalize pre.reverse = seen at hvalid
      cases seen with
      | nil => exact follows_of_verifyFoldedCertificate hvalid
      | cons pp seen =>
        obtain ⟨-, -, hfold⟩ := bind_ok.1 hvalid
        exact follows_of_verifyFoldedCertificate hfold
  constructor
  · rintro hchain c rfl
    exact hchain.first c rfl
  · intro hsingle
    refine ⟨?_, ?_, ?_⟩
    · -- one certificate: the condition; more: the circuit of the second one
      intro c hc
      cases certs with
      | nil => cases hc
      | cons first rest =>
        obtain rfl : first = c := Option.some.inj hc
        cases rest with
        | nil => exact hsingle first rfl
        | cons second rest =>
          obtain ⟨expected, next, hcheck⟩ :=
            checkCertificates_split hchecks [first] rfl
          obtain ⟨-, hvalid⟩ := checkCertificate_ok hcheck
          exact isAnchor_of_verifyFoldedCertificate hpA hpB hstack hA hB hvalid
    · rw [List.isChain_iff_forall_rel_of_append_cons_cons]
      exact fun {prev c pre post} hcerts => (hround prev c pre post hcerts).1
    · rw [List.isChain_iff_forall_rel_of_append_cons_cons]
      exact fun {prev c pre post} hcerts => (hround prev c pre post hcerts).2

end Sound

end ZkEngine

/-! ### A bootstrap certificate for another block -/

lemma FoldPublicInputs.flat_injective {α : Type} {x y : FoldPublicInputs α}
    (h : x.flat = y.flat) : x = y := by
  have hi : ∀ i, x.flat i = y.flat i := fun i => congrFun h i
  have hchunks : x.priorChunks = y.priorChunks := by
    funext i j
    fin_cases i <;> fin_cases j
    exacts [hi 10, hi 11, hi 12, hi 13, hi 14, hi 15, hi 16, hi 17, hi 18, hi 19, hi 20, hi 21]
  have hdigest : x.priorVkDigest = y.priorVkDigest := by
    funext j
    fin_cases j
    exacts [hi 23, hi 24]
  cases x
  cases y
  rw [FoldPublicInputs.mk.injEq]
  exact ⟨hi 0, hi 1, hi 2, hi 3, hi 4, hi 5, hi 6, hi 7, hi 8, hi 9, hchunks, hi 22, hdigest⟩

/-- A layer that accepts exactly the given inputs; the digest of every key is `0`. -/
def singleVerifier {p : ℕ} (x : FoldPublicInputs (ZMod p)) : FoldLayerVerifier p Unit where
  chainId := sxiaumChainId
  vkDigest := 0
  priorVkDigest := 0
  deserializeFoldProof := fun _ => .ok ()
  groth16Verify := fun inputs _ => .ok (decide (inputs = x.flat))

def bootstrapCertificate (root blockHash : Bytes32) (height : UInt64) :
    RecursiveStateSyncProof where
  genesisStateRoot := 11
  targetStateRoot := root
  targetBlockHash := blockHash
  targetHeight := height
  prevCertificateHash := 0
  sel := false
  layer := .a
  vkDigest := 0
  priorStateRoot := 11
  priorBlockHash := 0
  priorHeight := 0
  proof := List.replicate 475 0

/-- A certificate that folds the one of the anchor. -/
def foldedCertificate : RecursiveStateSyncProof :=
  { bootstrapCertificate 44 55 9 with
    sel := true
    layer := .b
    priorStateRoot := 22
    priorBlockHash := 33
    priorHeight := 7
    proof := List.replicate 380 0 }

def bootstrapInputs (p : ℕ) (c : RecursiveStateSyncProof) : FoldPublicInputs (ZMod p) :=
  foldFieldInputs p (c.statement 11) (.genesisPrior 11 sxiaumChainId 0)

def foldedInputs (p : ℕ) : FoldPublicInputs (ZMod p) :=
  foldFieldInputs p (foldedCertificate.statement 11) ((bootstrapCertificate 22 33 7).statement 11)

section

variable {p : ℕ} (c : RecursiveStateSyncProof) (x : FoldPublicInputs (ZMod p))

def bootstrapStack : FoldStack p p Unit Unit where
  proverAVkDigest := 0
  verifierA := singleVerifier (bootstrapInputs p c)
  verifierB := singleVerifier x

def bootstrapEngine : ZkEngine p p Unit Unit where
  foldStack := some (bootstrapStack c x)
  sha256 := fun _ => 0

lemma singleVerifier_verifyBytes {own prior priorPrior : FoldStatement} (bytes : List UInt8)
    (hchain : own.chainId = sxiaumChainId) (hdigest : own.vkDigest = 0)
    (hprior : prior.vkDigest = 0) (hgenesis : own.genesisRoot = prior.genesisRoot)
    (hgenesis' : prior.genesisRoot = priorPrior.genesisRoot) :
    (singleVerifier (foldFieldInputs p own prior)).verifyBytes own prior priorPrior bytes =
      .ok true := by
  have hgroth : (singleVerifier (foldFieldInputs p own prior)).groth16Verify
      (foldFieldInputs p own prior).flat () = .ok true :=
    congrArg Except.ok (decide_eq_true rfl)
  simp only [FoldLayerVerifier.verifyBytes, FoldLayerVerifier.verify, bind_ok, exists_unit,
    bailIf_ok]
  refine ⟨rfl, not_not.2 hchain, not_not.2 hdigest, ?_, fun h => h.2 hprior, ?_⟩
  · exact fun h => h.elim (fun h => h hgenesis) fun h => h hgenesis'
  · rw [hgroth]
    rfl

lemma certificateHash_eq (h : c.proof.length = proofSizeForLayer c.layer) :
    c.certificateHash (fun _ => 0) = .ok 0 := by
  have hbytes : c.certificateBytes = .ok _ := bind_ok.2 ⟨(), bailIf_ok.2 (not_not.2 h), rfl⟩
  rw [RecursiveStateSyncProof.certificateHash, hbytes]
  rfl

variable (root blockHash : Bytes32) (height : UInt64)

lemma bootstrapEngine_checks :
    (bootstrapEngine (bootstrapCertificate root blockHash height) x).checkCertificate 11 [] 0
      (bootstrapCertificate root blockHash height) = .ok 0 := by
  have hsize : (List.replicate 475 (0 : UInt8)).length = 475 := List.length_replicate
  have hverify : (bootstrapEngine (bootstrapCertificate root blockHash height)
      x).verifyRecursiveStateSyncProof 11 root blockHash height (List.replicate 475 0) =
        .ok true := by
    simp only [ZkEngine.verifyRecursiveStateSyncProof, bind_ok, exists_unit, bailIf_ok, hsize]
    refine ⟨by decide, by decide, _, rfl, ?_⟩
    exact singleVerifier_verifyBytes _ rfl rfl rfl rfl rfl
  simp only [ZkEngine.checkCertificate, bind_ok, exists_unit, bailIf_ok]
  refine ⟨not_not.2 rfl, rfl, true, ?_, not_not.2 rfl, certificateHash_eq _ hsize⟩
  exact bind_ok.2 ⟨(), rfl, hverify⟩

lemma foldedChain_accepted :
    (bootstrapEngine (bootstrapCertificate 22 33 7)
      (foldedInputs p)).verifyRecursiveCertificateChain 11
        [bootstrapCertificate 22 33 7, foldedCertificate] = .ok 9 := by
  have hfolded : (bootstrapEngine (bootstrapCertificate 22 33 7) (foldedInputs p)).checkCertificate
      11 [bootstrapCertificate 22 33 7] 0 foldedCertificate = .ok 0 := by
    simp only [ZkEngine.checkCertificate, ZkEngine.validAfter, ZkEngine.verifyFoldedCertificate,
      bind_ok, exists_unit, bailIf_ok]
    refine ⟨not_not.2 rfl, bailIf_ok.2 (by decide), true, ?_, not_not.2 rfl,
      certificateHash_eq _ List.length_replicate⟩
    refine ⟨by decide, by decide, _, rfl, _, rfl, ?_⟩
    exact singleVerifier_verifyBytes _ rfl rfl rfl rfl rfl
  exact bind_ok.2 ⟨(), bind_ok.2 ⟨0, bootstrapEngine_checks _ 22 33 7,
    bind_ok.2 ⟨0, hfolded, rfl⟩⟩, rfl⟩

lemma singleVerifier_sound {G1 G2 GT : Type} [AddCommGroup G1] [CommGroup GT] [DecidableEq GT]
    {curve : PriorCurve p G1 G2 GT} {roundConstants : ℕ → PoseidonState (ZMod p)}
    {anchor : FoldAnchorConfig} {x : FoldPublicInputs (ZMod p)}
    {w : FoldWitness p G1 G2} (h : Satisfied curve roundConstants anchor x w) :
    (singleVerifier x).Sound curve roundConstants anchor := by
  intro y _ hy
  obtain rfl := FoldPublicInputs.flat_injective (of_decide_eq_true (Except.ok.inj hy))
  exact ⟨w, h⟩

lemma bootstrap_sound (h : height ≠ 0) :
    (singleVerifier (bootstrapInputs exampleModulus
      (bootstrapCertificate root blockHash height))).Sound (parityCurve exampleModulus)
        (zeroConstants exampleModulus) exampleAnchor :=
  singleVerifier_sound (w := honestAssignment exampleAnchor _ _ (.genesisPrior 11 sxiaumChainId 0)
    parityKey ⟨1, 1, 1⟩ []) (bootstrap_satisfied two_pow_lt_exampleModulus rfl rfl rfl rfl h
      (show sxiaumChainId ≠ 0 by decide))

lemma folded_sound : (singleVerifier (foldedInputs exampleModulus)).Sound
    (ternaryCurve exampleModulus) (cancellingConstants exampleModulus) exampleAnchor := by
  have hfold : FoldsOnto exampleAnchor (foldedCertificate.statement 11)
      ((bootstrapCertificate 22 33 7).statement 11) :=
    ⟨rfl, rfl, rfl, rfl, rfl, rfl, by decide, Or.inr ⟨rfl, rfl, rfl, rfl, rfl, rfl, rfl⟩⟩
  have hdigest : poseidonSpongeNative (cancellingConstants exampleModulus) [1] =
      ((0 : ℕ) : ZMod _) := short_digest.trans Nat.cast_zero.symm
  exact singleVerifier_sound (honest_satisfied two_pow_lt_exampleModulus hfold (by decide)
    (ternary_groth16 _ (.genesisPrior 11 sxiaumChainId 0)) hdigest)

end

/-- A list of one certificate for a block other than the anchor's passes, with sound
verifiers. -/
theorem single_certificate_accepted :
    (bootstrapStack (bootstrapCertificate 44 55 9)
      (foldedInputs exampleModulus)).verifierA.Sound
      (parityCurve exampleModulus) (zeroConstants exampleModulus) exampleAnchor ∧
    (bootstrapStack (bootstrapCertificate 44 55 9)
      (foldedInputs exampleModulus)).verifierB.Sound
      (ternaryCurve exampleModulus) (cancellingConstants exampleModulus) exampleAnchor ∧
    (bootstrapEngine (bootstrapCertificate 44 55 9)
      (foldedInputs exampleModulus)).verifyRecursiveCertificateChain 11
        [bootstrapCertificate 44 55 9] = .ok 9 ∧
    ¬ ChainFromAnchor exampleAnchor [bootstrapCertificate 44 55 9] := by
  refine ⟨bootstrap_sound 44 55 9 (by decide), folded_sound, ?_, fun hchain => ?_⟩
  · exact bind_ok.2 ⟨(), bind_ok.2 ⟨0, bootstrapEngine_checks _ 44 55 9, rfl⟩, rfl⟩
  · obtain ⟨-, hroot, -⟩ := hchain.first _ rfl
    exact absurd hroot (by decide)

/-- The equivalence for a folded certificate on the one of the anchor. -/
theorem anchor_certificate_chain :
    ChainFromAnchor exampleAnchor [bootstrapCertificate 22 33 7, foldedCertificate] ↔
      ∀ c, [bootstrapCertificate 22 33 7, foldedCertificate] = [c] → c.IsAnchor exampleAnchor :=
  ZkEngine.chainFromAnchor_iff two_pow_lt_exampleModulus two_pow_lt_exampleModulus rfl
    (bootstrap_sound 22 33 7 (by decide)) folded_sound foldedChain_accepted

end Sxiaum.Zk
