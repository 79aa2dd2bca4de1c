import Mathlib

/-!
# The Poseidon sponge of the fold circuit

`poseidon_sponge_native` (`groth16/fold.rs`): width three with rate two, the power map
`x ↦ x ^ 5`, eight full and 56 partial rounds. The circuit gadget is the same text over
circuit variables, so it computes the same function of their values. The round constants
are SHA-256 digests and a parameter here.
-/

namespace Sxiaum.Zk

/-! ### Parameters -/

def poseidonFullRounds : ℕ := 8

def poseidonPartialRounds : ℕ := 56

def poseidonTotalRounds : ℕ := poseidonFullRounds + poseidonPartialRounds

/-- The state of the sponge: `POSEIDON_WIDTH` elements, the first is the capacity. -/
structure PoseidonState (F : Type) where
  s0 : F
  s1 : F
  s2 : F
deriving DecidableEq

structure PoseidonRow (F : Type) where
  m0 : F
  m1 : F
  m2 : F
deriving DecidableEq

structure PoseidonMatrix (F : Type) where
  r0 : PoseidonRow F
  r1 : PoseidonRow F
  r2 : PoseidonRow F
deriving DecidableEq

section Permutation

variable {F : Type} [CommRing F]

/-- The S-box `x ↦ x ^ 5`. -/
def sbox5 (x : F) : F :=
  let x2 := x * x
  let x4 := x2 * x2
  x4 * x

def PoseidonRow.apply (row : PoseidonRow F) (s : PoseidonState F) : F :=
  s.s0 * row.m0 + s.s1 * row.m1 + s.s2 * row.m2

variable (mds : PoseidonMatrix F) (roundConstants : ℕ → PoseidonState F) (s : PoseidonState F)

/-- One round: add the constants, apply the S-box, multiply by the matrix. -/
def poseidonRound (r : ℕ) : PoseidonState F :=
  let c := roundConstants r
  let s : PoseidonState F := ⟨s.s0 + c.s0, s.s1 + c.s1, s.s2 + c.s2⟩
  let half := poseidonFullRounds / 2
  let s : PoseidonState F :=
    if r < half ∨ half + poseidonPartialRounds ≤ r then ⟨sbox5 s.s0, sbox5 s.s1, sbox5 s.s2⟩
    else ⟨sbox5 s.s0, s.s1, s.s2⟩
  ⟨mds.r0.apply s, mds.r1.apply s, mds.r2.apply s⟩

def poseidonPermute : PoseidonState F :=
  (List.range poseidonTotalRounds).foldl (poseidonRound mds roundConstants) s

/-- Absorb the inputs two at a time. -/
def poseidonAbsorb (mds : PoseidonMatrix F) (roundConstants : ℕ → PoseidonState F) :
    PoseidonState F → List F → PoseidonState F
  | s, [] => s
  | s, [x] => poseidonPermute mds roundConstants ⟨s.s0, s.s1 + x, s.s2⟩
  | s, x :: y :: xs =>
    poseidonAbsorb mds roundConstants
      (poseidonPermute mds roundConstants ⟨s.s0, s.s1 + x, s.s2 + y⟩) xs

/-- The sponge with its matrix as an argument. -/
def poseidonSponge (tag : F) (inputs : List F) : F :=
  if inputs = [] then (poseidonPermute mds roundConstants ⟨tag, 0, 0⟩).s0
  else (poseidonAbsorb mds roundConstants ⟨tag, 0, 0⟩ inputs).s0

end Permutation

/-! ### The sponge over a prime field -/

/-- The domain tag `SXIAUM_POSEIDON_VK_V1_MNT753`, read as a little-endian number. -/
def poseidonDomainTag : ℕ :=
  ['S', 'X', 'I', 'A', 'U', 'M', '_', 'P', 'O', 'S', 'E', 'I', 'D', 'O', 'N', '_', 'V', 'K', '_',
    'V', '1', '_', 'M', 'N', 'T', '7', '5', '3'].foldr (fun c n => c.toNat + 256 * n) 0

/-- `poseidon_mds_matrix`: the Cauchy matrix of `[1, 2, 3]` and `[4, 5, 6]`. -/
def poseidonMdsMatrix (p : ℕ) : PoseidonMatrix (ZMod p) where
  r0 := ⟨5⁻¹, 6⁻¹, 7⁻¹⟩
  r1 := ⟨6⁻¹, 7⁻¹, 8⁻¹⟩
  r2 := ⟨7⁻¹, 8⁻¹, 9⁻¹⟩

def poseidonSpongeNative {p : ℕ} (roundConstants : ℕ → PoseidonState (ZMod p))
    (inputs : List (ZMod p)) : ZMod p :=
  poseidonSponge (poseidonMdsMatrix p) roundConstants (poseidonDomainTag : ZMod p) inputs

end Sxiaum.Zk
