import Sxiaum.Lib.HashMap
import Sxiaum.Lib.LittleEndian
import Sxiaum.Types

/-!
# The state table as bytes

Rows of the table `state` of the storage engine (`redb_store.rs`) as managers outside the state
database use it: `state_get`, `state_prefix_scan` and `atomic_state_commit`, over byte strings.
-/

namespace Sxiaum.Storage

abbrev Bytes := List UInt8

/-- The bytes of a text of ASCII characters. -/
def ascii (text : String) : Bytes := text.toList.map fun c => UInt8.ofNat c.toNat

abbrev StateBytes := HashMap Bytes Bytes

abbrev AddressBytes := { bytes : Bytes // bytes.length = 32 }

/-! ### Numbers -/

/-- `u64::from_le_bytes` of a row, which has to have 8 bytes. -/
def decodeU64 (bytes : Bytes) : Option ℕ :=
  if bytes.length = 8 then some (LittleEndian.value bytes) else none

/-- `u64::to_le_bytes`. -/
def encodeU64 (n : ℕ) : Bytes := LittleEndian.bytes 8 n

lemma decodeU64_encodeU64 {n : ℕ} (h : n ≤ u64Max) : decodeU64 (encodeU64 n) = some n := by
  unfold u64Max at h
  rw [decodeU64, encodeU64, LittleEndian.length_bytes, if_pos rfl,
    LittleEndian.value_bytes_of_lt (by omega)]

lemma le_of_decodeU64 {bytes : Bytes} {n : ℕ} (h : decodeU64 bytes = some n) : n ≤ u64Max := by
  unfold decodeU64 at h
  split_ifs at h with hlength
  obtain rfl := Option.some.inj h
  have hlt := LittleEndian.value_lt bytes
  rw [hlength] at hlt
  unfold u64Max
  omega

/-! ### Scans and commits -/

/-- `state_prefix_scan`: the rows whose keys begin with a text, in the order of the keys. -/
def statePrefixScan (table : StateBytes) (start : Bytes) : List (Bytes × Bytes) :=
  ((table.entries.filter fun e => start.isPrefixOf e.1).map fun e => (e.1, e.2)).insertionSort
    fun x y => x.1 ≤ y.1

lemma mem_statePrefixScan {table : StateBytes} {start key bytes : Bytes} :
    (key, bytes) ∈ statePrefixScan table start ↔
      start <+: key ∧ table.lookup key = some bytes := by
  rw [statePrefixScan, List.mem_insertionSort, List.mem_map]
  constructor
  · rintro ⟨⟨k, b⟩, hmem, heq⟩
    obtain ⟨rfl, rfl⟩ := Prod.mk.inj heq
    obtain ⟨hmem, hstart⟩ := List.mem_filter.1 hmem
    rw [ List.isPrefixOf_iff_prefix] at hstart
    exact ⟨hstart, AList.mem_lookup_iff.2 hmem⟩
  · rintro ⟨hstart, hlookup⟩
    rw [← List.isPrefixOf_iff_prefix] at hstart
    exact ⟨⟨key, bytes⟩, List.mem_filter.2 ⟨AList.mem_lookup_iff.1 hlookup, hstart⟩, rfl⟩

/-- `atomic_state_commit`: the changes in order; one without a value removes the row. -/
def atomicStateCommit (table : StateBytes) (changes : List (Bytes × Option Bytes)) : StateBytes :=
  table.putAll changes

end Sxiaum.Storage
