import Sxiaum.Lib.Bincode
import Sxiaum.Types

/-!
# Serialization

`Canonical` of the `types` crate (`serialization.rs`) writes numbers as short as they are, has a
limit on the size and accepts no bytes after the value; `bincode::deserialize` reads numbers with
all their bytes and does not look at what follows. A `U256` goes through its text in both.
-/

namespace Sxiaum

open Bincode

/-! ### Canonical -/

namespace Canonical

/-- The largest canonical text, 8 MiB. -/
def maxSize : ℕ := 8 * 1024 * 1024

/-- `Canonical::try_encode`, for what the fields are written as. -/
def tryEncode (written : List UInt8) : Option (List UInt8) :=
  if written.length ≤ maxSize then some written else none

def decode {α : Type} (read : Reader α) (bytes : List UInt8) : Option α :=
  if maxSize < bytes.length then none else readAll read bytes

lemma decode_of_tryEncode {α : Type} {read : Reader α} {written bytes : List UInt8} {a : α}
    (hreads : Reads read written a) (h : tryEncode written = some bytes) :
    decode read bytes = some a := by
  unfold tryEncode at h
  split_ifs at h with hsize
  obtain rfl := Option.some.inj h
  rw [decode, if_neg (by omega), hreads.readAll]

end Canonical

/-! ### Amounts -/

/-- How amounts are written as texts and read from them. -/
structure U256Text where
  text : ℕ → List UInt8
  parse : List UInt8 → Option ℕ
  parse_text : ∀ n, n ≤ u256Max → parse (text n) = some n
  parse_le : ∀ t n, parse t = some n → n ≤ u256Max
  length_text : ∀ n, n ≤ u256Max → (text n).length ≤ 66
  /-- Only a mark at the front can be left out. -/
  length_parse : ∀ t n, parse t = some n → (text n).length ≤ t.length + 2

namespace U256Text

variable (t : List UInt8) (texts : U256Text) (e : IntEncoding)

def write (n : ℕ) : List UInt8 := writeBytes e (texts.text n)

def read : Reader ℕ := do
  let t ← readBytes e
  ofOption (texts.parse t)

lemma reads_read {n : ℕ} (h : n ≤ u256Max) : Reads (texts.read e) (texts.write e n) n := by
  have hlength := texts.length_text n h
  have htext : Reads (readBytes e) (writeBytes e (texts.text n)) (texts.text n) :=
    reads_readBytes e (by omega)
  have hread := htext.bind (f := fun t => ofOption (texts.parse t))
    (reads_ofOption (texts.parse_text n h))
  rwa [List.append_nil] at hread

/-! ### Hexadecimal texts -/

def hexDigit (d : ℕ) : UInt8 := if d < 10 then UInt8.ofNat (48 + d) else UInt8.ofNat (87 + d)

def parseHexDigit (b : UInt8) : Option ℕ :=
  if 48 ≤ b.toNat ∧ b.toNat ≤ 57 then some (b.toNat - 48)
  else if 97 ≤ b.toNat ∧ b.toNat ≤ 102 then some (b.toNat - 87)
  else if 65 ≤ b.toNat ∧ b.toNat ≤ 70 then some (b.toNat - 55)
  else none

/-- The digits of a number, the lowest first; zero has one. -/
def hexDigits (n : ℕ) : List ℕ := if n = 0 then [0] else Nat.digits 16 n

/-- Hexadecimal, with `0x` in front. -/
def hexText (n : ℕ) : List UInt8 := [48, 120] ++ ((hexDigits n).map hexDigit).reverse

def hexBody : List UInt8 := if [48, 120].isPrefixOf t then t.drop 2 else t

/-- At most 64 digits, with or without `0x`. -/
def parseHex : Option ℕ :=
  if hexBody t = [] ∨ 64 < (hexBody t).length then none
  else ((hexBody t).reverse.mapM parseHexDigit).map (Nat.ofDigits 16)

lemma length_hexBody_le : (hexBody t).length ≤ t.length := by
  unfold hexBody
  split_ifs
  · rw [List.length_drop]
    exact Nat.sub_le ..
  · exact le_rfl

lemma parseHexDigit_hexDigit {d : ℕ} (h : d < 16) : parseHexDigit (hexDigit d) = some d := by
  interval_cases d <;> decide

lemma hexDigits_lt {n d : ℕ} (h : d ∈ hexDigits n) : d < 16 := by
  unfold hexDigits at h
  split_ifs at h
  · rw [List.mem_singleton.1 h]
    decide
  · exact Nat.digits_lt_base (by decide) h

lemma ofDigits_hexDigits (n : ℕ) : Nat.ofDigits 16 (hexDigits n) = n := by
  unfold hexDigits
  split_ifs with h
  · subst h
    rfl
  · exact Nat.ofDigits_digits 16 n

lemma length_hexDigits_le {n k : ℕ} (hk : 0 < k) (h : n < 16 ^ k) : (hexDigits n).length ≤ k := by
  unfold hexDigits
  split_ifs with hn
  · exact hk
  · by_contra hlong
    have hle := Nat.base_pow_length_digits_le 16 n (by decide) hn
    have hpow : 16 ^ (k + 1) ≤ 16 ^ (Nat.digits 16 n).length :=
      Nat.pow_le_pow_right (by decide) (by omega)
    rw [pow_succ] at hpow
    omega

lemma mapM_parseHexDigit {ds : List ℕ} (h : ∀ d ∈ ds, d < 16) :
    (ds.map hexDigit).mapM parseHexDigit = some ds := by
  induction ds with
  | nil => rfl
  | cons d ds ih =>
    obtain ⟨hd, hds⟩ := List.forall_mem_cons.1 h
    rw [List.map_cons, List.mapM_cons, parseHexDigit_hexDigit hd, ih hds]
    rfl

lemma parseHexDigit_lt {b : UInt8} {d : ℕ} (h : parseHexDigit b = some d) : d < 16 := by
  unfold parseHexDigit at h
  split_ifs at h <;> cases h <;> omega

lemma mapM_parseHexDigit_lt {bytes : List UInt8} {ds : List ℕ}
    (h : bytes.mapM parseHexDigit = some ds) : ds.length = bytes.length ∧ ∀ d ∈ ds, d < 16 := by
  induction bytes generalizing ds with
  | nil =>
    obtain rfl : [] = ds := Option.some.inj h
    simp
  | cons b bytes ih =>
    rw [List.mapM_cons] at h
    simp only [Option.bind_eq_bind, Option.bind_eq_some_iff, Option.pure_def,
      Option.some.injEq] at h
    obtain ⟨d, hd, ds', hds, rfl⟩ := h
    obtain ⟨hlength, hlt⟩ := ih hds
    simp only [List.length_cons, hlength, List.forall_mem_cons]
    exact ⟨trivial, parseHexDigit_lt hd, hlt⟩

/-- What has been parsed has at most 64 digits, and the text has as many. -/
lemma parseHex_bound {t : List UInt8} {n : ℕ} (h : parseHex t = some n) :
    ∃ k, 0 < k ∧ k ≤ 64 ∧ k ≤ t.length ∧ n < 16 ^ k := by
  unfold parseHex at h
  split_ifs at h with hbad
  rw [not_or] at hbad
  rw [Option.map_eq_some_iff] at h
  obtain ⟨ds, hds, rfl⟩ := h
  obtain ⟨hlength, hlt⟩ := mapM_parseHexDigit_lt hds
  rw [List.length_reverse] at hlength
  have hpos := List.length_pos_iff.2 hbad.1
  have hbody := length_hexBody_le t
  exact ⟨ds.length, by omega, by omega, by omega,
    Nat.ofDigits_lt_base_pow_length (by decide) hlt⟩

lemma le_u256Max_iff {n : ℕ} : n ≤ u256Max ↔ n < 16 ^ 64 := by
  have h : u256Max + 1 = 16 ^ 64 := by decide
  omega

def hex : U256Text where
  text := hexText
  parse := parseHex
  parse_text n h := by
    have hlength := length_hexDigits_le (by decide) (le_u256Max_iff.1 h)
    have hne : hexDigits n ≠ [] := by
      intro hnil
      have hvalue := ofDigits_hexDigits n
      rw [hnil] at hvalue
      subst hvalue
      exact absurd hnil (by decide)
    have hmark : [48, 120].isPrefixOf (hexText n) = true := by simp [hexText]
    have hbody : hexBody (hexText n) = ((hexDigits n).map hexDigit).reverse := by
      rw [hexBody, if_pos hmark]
      rfl
    have hgood : ¬ (((hexDigits n).map hexDigit).reverse = [] ∨
        64 < ((hexDigits n).map hexDigit).reverse.length) := by
      simp only [List.reverse_eq_nil_iff, List.map_eq_nil_iff, List.length_reverse, List.length_map,
        hne, false_or]
      omega
    rw [parseHex, hbody, if_neg hgood, List.reverse_reverse,
      mapM_parseHexDigit fun d hd => hexDigits_lt hd, Option.map_some, ofDigits_hexDigits]
  parse_le t n h := by
    obtain ⟨k, -, hk, -, hlt⟩ := parseHex_bound h
    exact le_u256Max_iff.2 (hlt.trans_le (Nat.pow_le_pow_right (by decide) hk))
  length_text n h := by
    have hlength := length_hexDigits_le (by decide) (le_u256Max_iff.1 h)
    simp [hexText]
    omega
  length_parse t n h := by
    obtain ⟨k, hpos, -, hk, hlt⟩ := parseHex_bound h
    have hlength := length_hexDigits_le hpos hlt
    simp [hexText]
    omega

end U256Text

end Sxiaum
