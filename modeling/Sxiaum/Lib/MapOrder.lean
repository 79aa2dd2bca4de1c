import Sxiaum.Lib.HashMap

/-!
# Maps and the order of their entries

A hash map has no order of its own; the one in which it is iterated is that of the entries here.
Two maps are the same if every key has the same value in both.
-/

namespace AList

variable {κ ν : Type}

def mapValues (m : HashMap κ ν) (f : ν → ν) : HashMap κ ν where
  entries := m.entries.map fun e => ⟨e.1, f e.2⟩
  nodupKeys := by
    have hkeys : (m.entries.map fun e => (⟨e.1, f e.2⟩ : Sigma fun _ : κ => ν)).keys =
        m.entries.keys := by
      simp [List.keys]
    rw [List.NodupKeys, hkeys]
    exact m.nodupKeys

lemma values_mapValues (m : HashMap κ ν) (f : ν → ν) : (m.mapValues f).values = m.values.map f := by
  simp [values, mapValues]

lemma lookup_mapValues [DecidableEq κ] (m : HashMap κ ν) (f : ν → ν) (k : κ) :
    (m.mapValues f).lookup k = (m.lookup k).map f := by
  ext v
  rw [← Option.mem_def, AList.mem_lookup_iff, Option.map_eq_some_iff]
  simp only [mapValues, List.mem_map, Sigma.mk.injEq, heq_eq_eq]
  constructor
  · rintro ⟨⟨k', w⟩, hmem, rfl, rfl⟩
    exact ⟨w, AList.mem_lookup_iff.2 hmem, rfl⟩
  · rintro ⟨w, hw, rfl⟩
    exact ⟨⟨k, w⟩, AList.mem_lookup_iff.1 hw, rfl, rfl⟩

/-- Maps with the same lookups have the same values, up to their order. -/
lemma values_perm [DecidableEq κ] {m m' : HashMap κ ν} (h : ∀ k, m.lookup k = m'.lookup k) :
    m.values.Perm m'.values := by
  have hentries : m.entries.Perm m'.entries :=
    List.lookup_ext m.nodupKeys m'.nodupKeys fun k v => by
      have hk := h k
      unfold AList.lookup at hk
      rw [hk]
  exact hentries.map Sigma.snd

end AList

/-! ### The first entry of each key -/

namespace List

variable {α β : Type} [DecidableEq β] {key : α → β} {l l' us us' : List α}

/-- Append an entry unless there is one with its key. -/
def addFresh (key : α → β) (l : List α) (u : α) : List α :=
  if key u ∈ l.map key then l else l ++ [u]

lemma addFresh_perm (h : l.Perm l') (u : α) : (addFresh key l u).Perm (addFresh key l' u) := by
  unfold addFresh
  simp only [(h.map key).mem_iff]
  split_ifs
  · exact h
  · exact h.append_right [u]

lemma subset_addFresh (l : List α) (u : α) : l ⊆ addFresh key l u := by
  unfold addFresh
  split_ifs
  · exact List.Subset.refl l
  · exact List.subset_append_left l [u]

lemma foldl_addFresh_perm_left (h : l.Perm l') :
    (us.foldl (addFresh key) l).Perm (us.foldl (addFresh key) l') := by
  induction us generalizing l l' with
  | nil => exact h
  | cons u us ih => exact ih (addFresh_perm h u)

/-- Two entries can be swapped unless they have one key and differ. -/
lemma addFresh_comm {u w : α} (h : key u = key w → key u ∉ l.map key → u = w) :
    (addFresh key (addFresh key l u) w).Perm (addFresh key (addFresh key l w) u) := by
  by_cases hu : key u ∈ l.map key <;> by_cases hw : key w ∈ l.map key
  · simp [addFresh, hu, hw]
  · simp [addFresh, hu, hw]
  · simp [addFresh, hu, hw]
  · by_cases hkey : key u = key w
    · rw [h hkey hu]
    · have hwu : key w ∉ (l ++ [u]).map key := by
        simp only [List.map_append, List.mem_append, hw, false_or, List.map_singleton,
          List.mem_singleton]
        exact Ne.symm hkey
      have huw : key u ∉ (l ++ [w]).map key := by
        simp only [List.map_append, List.mem_append, hu, false_or, List.map_singleton,
          List.mem_singleton]
        exact hkey
      rw [addFresh, addFresh, addFresh, addFresh, if_neg hu, if_neg hw, if_neg hwu, if_neg huw,
        List.append_assoc, List.append_assoc]
      exact (List.Perm.swap w u []).append_left l

/-- The order does not matter if entries with the same new key are the same. -/
theorem foldl_addFresh_perm (hl : l.Perm l') (hus : us.Perm us')
    (hagree : ∀ u ∈ us, ∀ w ∈ us, key u = key w → key u ∉ l.map key → u = w) :
    (us.foldl (addFresh key) l).Perm (us'.foldl (addFresh key) l') := by
  refine List.Perm.trans ?_ (foldl_addFresh_perm_left hl)
  clear hl
  induction hus generalizing l with
  | nil => exact List.Perm.refl l
  | cons u _ ih =>
    refine ih fun v hv w hw hkey hfresh => hagree v (.tail _ hv) w (.tail _ hw) hkey ?_
    exact fun hin => hfresh (List.map_subset key (subset_addFresh l u) hin)
  | swap u w rest =>
    exact foldl_addFresh_perm_left (addFresh_comm fun hkey hfresh =>
      hagree w (by simp) u (by simp) hkey hfresh)
  | trans hperm _ ih ih' =>
    refine (ih hagree).trans (ih' fun u hu w hw => ?_)
    exact hagree u (hperm.mem_iff.2 hu) w (hperm.mem_iff.2 hw)

end List
