import Mathlib.Data.Finset.Insert
import Sxiaum.Lib.HashMap

/-!
# Undo logs

Before a key of a table is written for the first time, an undo log records the value it has.
`Restores` says that the log brings a table back to what it was: it survives every write to a
key that has been marked before. Keys outside of `K` may change without being marked.
-/

/-- The recorded values, and the keys that have been marked. -/
structure UndoLog (κ ν : Type) where
  undoLog : HashMap κ (Option ν)
  dirtyKeys : Finset κ

namespace UndoLog

variable {κ ν : Type} [DecidableEq κ] {l : UndoLog κ ν} {table : HashMap κ ν}
  {base : κ → Option ν} {K : κ → Prop} {k : κ}

def empty : UndoLog κ ν := ⟨∅, ∅⟩

/-- Record the value of a key unless it is marked. -/
def mark (l : UndoLog κ ν) (table : HashMap κ ν) (k : κ) : UndoLog κ ν :=
  if k ∈ l.dirtyKeys then l
  else ⟨l.undoLog.insert k (table.lookup k), insert k l.dirtyKeys⟩

/-- The changes that undo what has happened since. -/
def changes (l : UndoLog κ ν) : List (κ × Option ν) := l.undoLog.entries.map fun e => (e.1, e.2)

/-- The log brings the table back to `base`, on the keys in `K`. -/
structure Restores (K : κ → Prop) (base : κ → Option ν) (l : UndoLog κ ν)
    (table : HashMap κ ν) : Prop where
  marked_iff : ∀ k, k ∈ l.dirtyKeys ↔ k ∈ l.undoLog
  kept : ∀ k, K k → (l.undoLog.lookup k).getD (table.lookup k) = base k

lemma restores_empty (hbase : ∀ k, K k → table.lookup k = base k) :
    Restores K base empty table where
  marked_iff := by simp [empty]
  kept k hk := by rw [← hbase k hk, empty, AList.lookup_empty, Option.getD_none]

lemma mem_dirtyKeys_mark : k ∈ (l.mark table k).dirtyKeys := by
  unfold mark
  split_ifs with h
  · exact h
  · exact Finset.mem_insert_self k _

lemma Restores.mark (h : Restores K base l table) (k : κ) :
    Restores K base (l.mark table k) table := by
  unfold UndoLog.mark
  split_ifs with hk
  · exact h
  · have hfresh : l.undoLog.lookup k = none := by
      rw [AList.lookup_eq_none, ← h.marked_iff]
      exact hk
    constructor
    · intro k'
      rw [Finset.mem_insert, AList.mem_insert, h.marked_iff]
    · intro k' hK
      by_cases hk' : k' = k
      · subst hk'
        have hkept := h.kept k' hK
        rw [hfresh] at hkept
        rw [AList.lookup_insert]
        exact hkept
      · rw [AList.lookup_insert_ne hk']
        exact h.kept k' hK

lemma Restores.put (h : Restores K base l table) (hk : k ∈ l.dirtyKeys) (v : Option ν) :
    Restores K base l (table.put k v) where
  marked_iff := h.marked_iff
  kept k' hK := by
    by_cases hk' : k' = k
    · subst hk'
      obtain ⟨old, hold⟩ := Option.isSome_iff_exists.1
        (AList.lookup_isSome.2 ((h.marked_iff k').1 hk))
      have hkept := h.kept k' hK
      rw [hold] at hkept ⊢
      exact hkept
    · rw [AList.lookup_put, if_neg hk']
      exact h.kept k' hK

/-- A key outside of `K` may be written without being marked. -/
theorem Restores.put_outside (h : Restores K base l table) (hk : ¬ K k) (v : Option ν) :
    Restores K base l (table.put k v) where
  marked_iff := h.marked_iff
  kept k' hK := by
    have hk' : k' ≠ k := by
      rintro rfl
      exact hk hK
    rw [AList.lookup_put, if_neg hk']
    exact h.kept k' hK

omit [DecidableEq κ] in
lemma mem_undoLog_of_mem_changes {c : κ × Option ν} (h : c ∈ l.changes) : c.1 ∈ l.undoLog := by
  obtain ⟨e, he, rfl⟩ := List.mem_map.1 h
  exact AList.mem_keys.2 (List.mem_map_of_mem he)

/-- The recorded changes, made on a table. -/
lemma lookup_undo (l : UndoLog κ ν) (table : HashMap κ ν) (k : κ) :
    (table.putAll l.changes).lookup k = (l.undoLog.lookup k).getD (table.lookup k) := by
  have hkeys : l.changes.map Prod.fst = l.undoLog.keys := by
    rw [changes, List.map_map]
    rfl
  cases hlog : l.undoLog.lookup k with
  | none =>
    have hnot : k ∉ l.changes.map Prod.fst := by
      rw [hkeys, ← AList.mem_keys, ← AList.lookup_eq_none]
      exact hlog
    rw [AList.lookup_putAll_of_notMem hnot, Option.getD_none]
  | some old =>
    have hmem : (k, old) ∈ l.changes :=
      List.mem_map.2 ⟨⟨k, old⟩, AList.mem_lookup_iff.1 hlog, rfl⟩
    have hnd : (l.changes.map Prod.fst).Nodup := by
      rw [hkeys]
      exact l.undoLog.keys_nodup
    exact AList.lookup_putAll_of_mem hnd hmem

/-- Making the recorded changes restores the table. -/
theorem Restores.lookup_undone (h : Restores K base l table) (hk : K k) :
    (table.putAll l.changes).lookup k = base k :=
  (lookup_undo l table k).trans (h.kept k hk)

/-! ### Logs with old entries -/

/-- The marked keys have their value of `base` recorded, and the others still have it. The log
may record more than the marked keys. -/
structure Tracks (K : κ → Prop) (base : κ → Option ν) (l : UndoLog κ ν)
    (table : HashMap κ ν) : Prop where
  recorded : ∀ k, K k → k ∈ l.dirtyKeys → l.undoLog.lookup k = some (base k)
  kept : ∀ k, K k → k ∉ l.dirtyKeys → table.lookup k = base k

/-- What the log records of keys that are not marked is what the table has. -/
def NoStale (K : κ → Prop) (l : UndoLog κ ν) (table : HashMap κ ν) : Prop :=
  ∀ k old, K k → k ∉ l.dirtyKeys → l.undoLog.lookup k = some old → table.lookup k = old

lemma noStale_of_marked (h : ∀ k ∈ l.undoLog, k ∈ l.dirtyKeys) : NoStale K l table := by
  intro k old _ hk hold
  exact absurd (h k (AList.lookup_isSome.1 (by rw [hold]; rfl))) hk

lemma tracks_unmarked (undoLog : HashMap κ (Option ν)) (table : HashMap κ ν) :
    Tracks K table.lookup ⟨undoLog, ∅⟩ table where
  recorded k _ hk := absurd hk (Finset.notMem_empty k)
  kept _ _ _ := rfl

lemma Tracks.mark (h : Tracks K base l table) (k : κ) : Tracks K base (l.mark table k) table := by
  unfold UndoLog.mark
  split_ifs with hk
  · exact h
  · constructor
    · intro k' hK hk'
      by_cases heq : k' = k
      · subst heq
        rw [AList.lookup_insert, h.kept k' hK hk]
      · rw [AList.lookup_insert_ne heq]
        exact h.recorded k' hK ((Finset.mem_insert.1 hk').resolve_left heq)
    · intro k' hK hk'
      exact h.kept k' hK fun hin => hk' (Finset.mem_insert_of_mem hin)

lemma Tracks.put (h : Tracks K base l table) (hk : k ∈ l.dirtyKeys ∨ ¬ K k) (v : Option ν) :
    Tracks K base l (table.put k v) where
  recorded := h.recorded
  kept k' hK hk' := by
    have hne : k' ≠ k := by
      rintro rfl
      exact hk.elim hk' fun hout => hout hK
    rw [AList.lookup_put, if_neg hne]
    exact h.kept k' hK hk'

/-- The recorded changes bring the table back exactly if none of them is old. -/
theorem Tracks.undone_iff (h : Tracks K base l table) :
    (∀ k, K k → (table.putAll l.changes).lookup k = base k) ↔ NoStale K l table := by
  constructor
  · intro hundone k old hK hk hold
    have hback := hundone k hK
    rw [lookup_undo, hold, Option.getD_some] at hback
    rw [h.kept k hK hk, hback]
  · intro hstale k hK
    rw [lookup_undo]
    by_cases hk : k ∈ l.dirtyKeys
    · rw [h.recorded k hK hk, Option.getD_some]
    · cases hold : l.undoLog.lookup k with
      | none => rw [Option.getD_none, h.kept k hK hk]
      | some old => rw [Option.getD_some, ← hstale k old hK hk hold, h.kept k hK hk]

/-! ### Properties that marked writes keep -/

/-- A property of a log and its table that survives marks, and the writes that `ok` allows to
marked keys and to keys outside of `K`. -/
structure Journal (K : κ → Prop) (ok : κ → Option ν → Prop)
    (I : UndoLog κ ν → HashMap κ ν → Prop) : Prop where
  mark : ∀ {l table} (k : κ), I l table → I (l.mark table k) table
  put : ∀ {l table k v}, I l table → k ∈ l.dirtyKeys ∨ ¬ K k → ok k v → I l (table.put k v)

section Journal

variable {ok : κ → Option ν → Prop} {I J : UndoLog κ ν → HashMap κ ν → Prop}

lemma journal_restores : Journal K ok (Restores K base) where
  mark k h := h.mark k
  put h hk _ := hk.elim (fun hk => h.put hk _) fun hk => h.put_outside hk _

lemma journal_tracks : Journal K ok (Tracks K base) where
  mark k h := h.mark k
  put h hk _ := h.put hk _

/-- Every recorded key is marked, as long as nothing forgets the marks. -/
lemma journal_allMarked :
    Journal K ok fun (l : UndoLog κ ν) _ => ∀ k ∈ l.undoLog, k ∈ l.dirtyKeys where
  mark {l table} k h := by
    unfold UndoLog.mark
    split_ifs with hk
    · exact h
    · intro k' hk'
      rw [AList.mem_insert] at hk'
      exact Finset.mem_insert.2 (hk'.imp_right (h k'))
  put h _ _ := h

lemma journal_entries :
    Journal K ok fun _ table => ∀ k v, table.lookup k = some v → ok k (some v) where
  mark _ h := h
  put h _ hok := AList.forall_lookup_put h hok

lemma Journal.and (hI : Journal K ok I) (hJ : Journal K ok J) :
    Journal K ok fun l table => I l table ∧ J l table where
  mark k h := ⟨hI.mark k h.1, hJ.mark k h.2⟩
  put h hk hok := ⟨hI.put h.1 hk hok, hJ.put h.2 hk hok⟩

lemma Journal.putAll (hI : Journal K ok I) {changes : List (κ × Option ν)} (h : I l table)
    (hk : ∀ c ∈ changes, c.1 ∈ l.dirtyKeys) (hok : ∀ c ∈ changes, ok c.1 c.2) :
    I l (table.putAll changes) := by
  induction changes generalizing table with
  | nil => exact h
  | cons c changes ih =>
    obtain ⟨hc, hrest⟩ := List.forall_mem_cons.1 hk
    obtain ⟨hokc, hokrest⟩ := List.forall_mem_cons.1 hok
    exact ih (hI.put h (.inl hc) hokc) hrest hokrest

end Journal

lemma dirtyKeys_subset_mark : l.dirtyKeys ⊆ (l.mark table k).dirtyKeys := by
  unfold mark
  split_ifs
  · exact Finset.Subset.refl _
  · exact Finset.subset_insert _ _

end UndoLog
