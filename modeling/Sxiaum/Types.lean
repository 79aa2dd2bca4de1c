import Mathlib

/-!
# Ledger data types

The records of the `types` crate. Hashes and addresses are 32-byte strings in the
source; here they are the numbers those strings spell, so that equality is decidable
and `0` is the all-zero string. Amounts are natural numbers, and the width of a
machine integer appears where an operation can leave it.
-/

namespace Sxiaum

abbrev Hash := ℕ

abbrev Address := ℕ

/-- `u64::MAX`. -/
def u64Max : ℕ := 0xffffffffffffffff

/-- `U256::MAX`. -/
def u256Max : ℕ := 0xffffffffffffffffffffffffffffffffffffffffffffffffffffffffffffffff

/-- `u64::saturating_add`. -/
def satAdd64 (a b : ℕ) : ℕ := min (a + b) u64Max

/-- `u64` addition in a release build, which wraps. -/
def wrapAdd64 (a b : ℕ) : ℕ := (a + b) % (u64Max + 1)

/-- The last `width` bytes of a number, the lowest first. -/
def leBytes (width n : ℕ) : List UInt8 :=
  (List.range width).map fun i => UInt8.ofNat (n / 256 ^ i % 256)

structure Log where
  address : Address
  topics : List Hash
  data : List UInt8
deriving DecidableEq, Repr

structure Receipt where
  txHash : Hash
  status : Bool
  gasUsed : ℕ
  logs : List Log
  stateRoot : Option Hash
  cumulativeGasUsed : ℕ
deriving DecidableEq, Repr

namespace Receipt

def newSuccess (txHash : Hash) (gasUsed : ℕ) (stateRoot : Option Hash) : Receipt where
  txHash := txHash
  status := true
  gasUsed := gasUsed
  logs := []
  stateRoot := stateRoot
  cumulativeGasUsed := gasUsed

def newFailure (txHash : Hash) (gasUsed : ℕ) : Receipt where
  txHash := txHash
  status := false
  gasUsed := gasUsed
  logs := []
  stateRoot := none
  cumulativeGasUsed := gasUsed

end Receipt

end Sxiaum
