import Sxiaum.Lib.LittleEndian
import Mathlib.Data.Option.Basic

/-!
# A binary serialization format

Fields follow one another without names. Numbers are written with all their bytes, or as one byte
if they are small and behind a mark otherwise; texts and sequences stand behind their length, an
optional value behind a mark. A reader takes a value off the front of a text. `Reads` says that it
finds a value in what was written, whatever follows; `Spends` bounds from below what it takes.
-/

namespace Bincode

variable {α β : Type}

/-- How numbers are written. -/
inductive IntEncoding where
  | fixint
  | varint
deriving DecidableEq, Repr

/-- A reader takes a value off the front of a text, or fails. -/
abbrev Reader (α : Type) := StateT (List UInt8) Option α

/-! ### Readers -/

def takeBytes (n : ℕ) : Reader (List UInt8) := fun bytes =>
  if n ≤ bytes.length then some (bytes.take n, bytes.drop n) else none

def readNumber (width : ℕ) : Reader ℕ := do
  let bytes ← takeBytes width
  return LittleEndian.value bytes

variable (e : IntEncoding) (read : Reader α) (bytes : List UInt8)

def writeInt (width n : ℕ) : List UInt8 :=
  match e with
  | .fixint => LittleEndian.bytes width n
  | .varint =>
    if n < 251 then [UInt8.ofNat n]
    else if n < 2 ^ 16 then 251 :: LittleEndian.bytes 2 n
    else if n < 2 ^ 32 then 252 :: LittleEndian.bytes 4 n
    else 253 :: LittleEndian.bytes 8 n

/-- The number behind a mark. -/
def readMarked (mark : ℕ) : Reader ℕ :=
  if mark < 251 then pure mark
  else if mark = 251 then readNumber 2
  else if mark = 252 then readNumber 4
  else if mark = 253 then readNumber 8
  else failure

def readInt (width : ℕ) : Reader ℕ :=
  match e with
  | .fixint => readNumber width
  | .varint => do
    let mark ← readNumber 1
    let n ← readMarked mark
    if n < 256 ^ width then pure n else failure

def writeBytes : List UInt8 :=
  writeInt e 8 bytes.length ++ bytes

def readBytes : Reader (List UInt8) := do
  let n ← readInt e 8
  takeBytes n

/-- A value that was worked out from what was read. -/
def ofOption : Option α → Reader α
  | some a => pure a
  | none => failure

/-- A value that takes the whole text. -/
def readAll : Option α :=
  match read bytes with
  | some (a, []) => some a
  | _ => none

def readFront : Option α := (read bytes).map Prod.fst

/-! ### What a reader does -/

lemma run_bind {r : Reader α} {f : α → Reader β} {bytes rest : List UInt8} {b : β} :
    (r >>= f) bytes = some (b, rest) ↔
      ∃ a mid, r bytes = some (a, mid) ∧ f a mid = some (b, rest) := by
  have hrun : (r >>= f) bytes = (r bytes).bind fun p => f p.1 p.2 := rfl
  rw [hrun]
  cases r bytes with
  | none => simp
  | some p =>
    obtain ⟨a, mid⟩ := p
    simp

/-- The reader finds a value in what was written, and leaves what follows. -/
def Reads (r : Reader α) (bytes : List UInt8) (a : α) : Prop :=
  ∀ rest, r (bytes ++ rest) = some (a, rest)

lemma reads_pure (a : α) : Reads (pure a) [] a := fun _ => rfl

lemma Reads.bind {r : Reader α} {f : α → Reader β} {bytes bytes' : List UInt8} {a : α} {b : β}
    (hr : Reads r bytes a) (hf : Reads (f a) bytes' b) : Reads (r >>= f) (bytes ++ bytes') b := by
  intro rest
  rw [List.append_assoc, run_bind]
  exact ⟨a, bytes' ++ rest, hr _, hf rest⟩

lemma Reads.bind_pure {r : Reader α} {f : α → β} {bytes : List UInt8} {a : α}
    (hr : Reads r bytes a) : Reads (r >>= fun a => pure (f a)) bytes (f a) := by
  have h := hr.bind (f := fun a => pure (f a)) (reads_pure (f a))
  rwa [List.append_nil] at h

lemma reads_ofOption {x : Option α} {a : α} (h : x = some a) : Reads (ofOption x) [] a := by
  subst h
  exact reads_pure a

lemma Reads.readAll {r : Reader α} {bytes : List UInt8} {a : α} (h : Reads r bytes a) :
    readAll r bytes = some a := by
  have hrun := h []
  rw [List.append_nil] at hrun
  rw [Bincode.readAll, hrun]

lemma reads_takeBytes : Reads (takeBytes bytes.length) bytes bytes := by
  intro rest
  rw [takeBytes, if_pos (by simp), List.take_left, List.drop_left]

lemma reads_readNumber {width n : ℕ} (h : n < 256 ^ width) :
    Reads (readNumber width) (LittleEndian.bytes width n) n := by
  have htake := reads_takeBytes (LittleEndian.bytes width n)
  rw [LittleEndian.length_bytes] at htake
  have hread := htake.bind_pure (f := LittleEndian.value)
  rwa [LittleEndian.value_bytes_of_lt h] at hread

lemma reads_mark {n : ℕ} (h : n < 256) : Reads (readNumber 1) [UInt8.ofNat n] n := by
  have hone : LittleEndian.bytes 1 n = [UInt8.ofNat n] := by
    simp [LittleEndian.bytes, Nat.mod_eq_of_lt h]
  rw [← hone]
  exact reads_readNumber (by simpa using h)

/-- A number in the range of its type is read back, up to eight bytes. -/
theorem reads_readInt {width n : ℕ} (hwidth : width ≤ 8) (h : n < 256 ^ width) :
    Reads (readInt e width) (writeInt e width n) n := by
  cases e with
  | fixint => exact reads_readNumber h
  | varint =>
    have hmarked : ∀ mark bytes, mark < 256 → Reads (readMarked mark) bytes n →
        Reads (readInt .varint width) (UInt8.ofNat mark :: bytes) n := by
      intro mark bytes hmark hread
      have hrange : Reads (if n < 256 ^ width then pure n else failure) [] n := by
        rw [if_pos h]
        exact reads_pure n
      have hrest := (reads_mark hmark).bind (f := fun mark => do
        let n ← readMarked mark
        if n < 256 ^ width then pure n else failure) (hread.bind hrange)
      rwa [List.append_nil] at hrest
    have hmax : n < 256 ^ 8 := h.trans_le (Nat.pow_le_pow_right (by decide) hwidth)
    simp only [writeInt]
    split_ifs with h₁ h₂ h₃
    · refine hmarked n [] (by omega) ?_
      rw [readMarked, if_pos h₁]
      exact reads_pure n
    · exact hmarked 251 _ (by decide) (reads_readNumber (by omega))
    · exact hmarked 252 _ (by decide) (reads_readNumber (by omega))
    · exact hmarked 253 _ (by decide) (reads_readNumber hmax)

lemma reads_readBytes {bytes : List UInt8} (h : bytes.length < 256 ^ 8) :
    Reads (readBytes e) (writeBytes e bytes) bytes :=
  (reads_readInt e le_rfl h).bind (reads_takeBytes bytes)

end Bincode
