import Mathlib.Data.List.AList
import Mathlib.Data.List.Sort

/-!
# Hash maps as association lists with distinct keys

Programs keep their state in hash maps. `AList` from Mathlib has lookup, insertion
and removal; iteration over the values and `retain` are added here.
-/

/-- A finite map from `κ` to `ν`. -/
abbrev HashMap (κ ν : Type) := AList fun _ : κ => ν

namespace AList

variable {κ ν : Type} [DecidableEq κ]

/-! ### Iteration -/

def values (m : HashMap κ ν) : List ν :=
  m.entries.map Sigma.snd

variable {m : HashMap κ ν}

lemma mem_values {v : ν} : v ∈ m.values ↔ ∃ k, m.lookup k = some v := by
  simp only [values, List.mem_map]
  constructor
  · rintro ⟨⟨k, w⟩, hmem, rfl⟩
    exact ⟨k, AList.mem_lookup_iff.2 hmem⟩
  · rintro ⟨k, hk⟩
    exact ⟨⟨k, v⟩, AList.mem_lookup_iff.1 hk, rfl⟩

omit [DecidableEq κ] in
lemma values_eq_nil {m : HashMap κ ν} : m.values = [] ↔ m.entries = [] := by
  simp [values]

variable {k : κ}

lemma values_perm_cons_erase {v : ν} (h : m.lookup k = some v) :
    m.values.Perm (v :: (m.erase k).values) := by
  have hmem : (⟨k, v⟩ : Sigma fun _ : κ => ν) ∈ m.entries := AList.mem_lookup_iff.1 h
  obtain ⟨pre, post, hsplit⟩ := List.append_of_mem hmem
  have hk : k ∉ pre.map Sigma.fst := by
    have hnd := m.nodupKeys
    rw [hsplit, List.NodupKeys, List.keys, List.map_append, List.map_cons] at hnd
    exact fun hin => (List.nodup_append.1 hnd).2.2 k hin k (List.mem_cons_self ..) rfl
  have herase : (m.erase k).entries = pre ++ post := by
    change List.kerase k m.entries = _
    rw [hsplit, List.kerase_append_right (by simpa [List.keys] using hk)]
    simp
  rw [values, values, herase, hsplit]
  simp

lemma values_insert_of_notMem {v : ν} (h : k ∉ m) : (m.insert k v).values = v :: m.values := by
  rw [values, AList.entries_insert_of_notMem h]
  rfl

lemma lookup_foldl_insert_of_ne {β : Type} {key : β → κ} {value : β → ν} {l : List β}
    (h : ∀ x ∈ l, k ≠ key x) (m : HashMap κ ν) :
    (l.foldl (fun m x => m.insert (key x) (value x)) m).lookup k = m.lookup k := by
  induction l generalizing m with
  | nil => rfl
  | cons x l ih =>
    obtain ⟨hx, hl⟩ := List.forall_mem_cons.1 h
    rw [List.foldl_cons, ih hl, AList.lookup_insert_ne hx]

lemma forall_lookup_insert {P : κ → ν → Prop} {v : ν}
    (hm : ∀ k v, m.lookup k = some v → P k v) (hv : P k v) :
    ∀ k' v', (m.insert k v).lookup k' = some v' → P k' v' := by
  intro k' v' h
  by_cases hk : k' = k
  · subst hk
    rw [AList.lookup_insert] at h
    rwa [← Option.some.inj h]
  · rw [AList.lookup_insert_ne hk] at h
    exact hm k' v' h

lemma forall_lookup_erase {P : κ → ν → Prop} (hm : ∀ k v, m.lookup k = some v → P k v) :
    ∀ k' v', (m.erase k).lookup k' = some v' → P k' v' := by
  intro k' v' h
  by_cases hk : k' = k
  · subst hk
    rw [AList.lookup_erase] at h
    cases h
  · rw [AList.lookup_erase_ne hk] at h
    exact hm k' v' h

/-! ### Changes -/

def put (m : HashMap κ ν) (k : κ) : Option ν → HashMap κ ν
  | some v => m.insert k v
  | none => m.erase k

lemma lookup_put (m : HashMap κ ν) (k k' : κ) (v : Option ν) :
    (m.put k v).lookup k' = if k' = k then v else m.lookup k' := by
  cases v with
  | none =>
    split_ifs with h
    · rw [h]
      exact AList.lookup_erase k m
    · exact AList.lookup_erase_ne h
  | some v =>
    split_ifs with h
    · rw [h]
      exact AList.lookup_insert m
    · exact AList.lookup_insert_ne h

def putAll (m : HashMap κ ν) (changes : List (κ × Option ν)) : HashMap κ ν :=
  changes.foldl (fun m c => m.put c.1 c.2) m

@[simp] lemma putAll_nil (m : HashMap κ ν) : m.putAll [] = m := rfl

@[simp] lemma putAll_cons (m : HashMap κ ν) (c : κ × Option ν) (changes : List (κ × Option ν)) :
    m.putAll (c :: changes) = (m.put c.1 c.2).putAll changes := rfl

variable {changes : List (κ × Option ν)}

lemma lookup_putAll_of_notMem
    (h : k ∉ changes.map Prod.fst) : (m.putAll changes).lookup k = m.lookup k := by
  induction changes generalizing m with
  | nil => rfl
  | cons c changes ih =>
    rw [List.map_cons, List.mem_cons, not_or] at h
    rw [putAll_cons, ih h.2, lookup_put, if_neg h.1]

/-- A fold that skips a key does not see what is written there. -/
lemma foldl_insert_of_skip {β : Type} {f : β → Sigma (fun _ : κ => ν) → β} {k : κ}
    (hf : ∀ b v, f b ⟨k, v⟩ = b) (b : β) (m : HashMap κ ν) (v : ν) :
    (m.insert k v).entries.foldl f b = m.entries.foldl f b := by
  have hskip : ∀ (l : List (Sigma fun _ : κ => ν)) b, (l.kerase k).foldl f b = l.foldl f b := by
    intro l
    induction l with
    | nil => exact fun _ => rfl
    | cons e l ih =>
      intro b
      by_cases he : k = e.1
      · obtain ⟨k', w⟩ := e
        obtain rfl := he
        rw [List.foldl_cons, hf]
        exact congrArg (List.foldl f b) (List.kerase_cons_eq rfl)
      · rw [List.kerase_cons_ne he, List.foldl_cons, List.foldl_cons, ih]
  rw [entries_insert, List.foldl_cons, hf, hskip]

lemma forall_lookup_put {P : κ → Option ν → Prop} {v : Option ν}
    (hm : ∀ k v, m.lookup k = some v → P k (some v)) (hv : P k v) :
    ∀ k' v', (m.put k v).lookup k' = some v' → P k' (some v') := by
  intro k' v' hlookup
  rw [lookup_put] at hlookup
  split_ifs at hlookup with heq
  · subst heq
    rwa [hlookup] at hv
  · exact hm k' v' hlookup

lemma forall_lookup_putAll {P : κ → Option ν → Prop}
    (hm : ∀ k v, m.lookup k = some v → P k (some v))
    (hchanges : ∀ c ∈ changes, P c.1 c.2) :
    ∀ k v, (m.putAll changes).lookup k = some v → P k (some v) := by
  induction changes generalizing m with
  | nil => exact hm
  | cons c changes ih =>
    obtain ⟨hc, hrest⟩ := List.forall_mem_cons.1 hchanges
    exact ih (forall_lookup_put hm hc) hrest

lemma putAll_append (m : HashMap κ ν) (changes changes' : List (κ × Option ν)) :
    m.putAll (changes ++ changes') = (m.putAll changes).putAll changes' := List.foldl_append

/-- What is at a key after the changes depends on what was there. -/
lemma lookup_putAll_congr {m m' : HashMap κ ν} (h : m.lookup k = m'.lookup k)
    (changes : List (κ × Option ν)) :
    (m.putAll changes).lookup k = (m'.putAll changes).lookup k := by
  induction changes generalizing m m' with
  | nil => exact h
  | cons c changes ih =>
    refine ih ?_
    rw [lookup_put, lookup_put, h]

lemma lookup_putAll_none (m : HashMap κ ν) (ks : List κ) (k : κ) :
    (m.putAll (ks.map fun k => (k, none))).lookup k = if k ∈ ks then none else m.lookup k := by
  induction ks generalizing m with
  | nil => simp
  | cons k' ks ih =>
    rw [List.map_cons, putAll_cons, ih, lookup_put]
    by_cases hmem : k ∈ ks
    · simp [hmem]
    · by_cases heq : k = k' <;> simp [hmem, heq]

/-- Changes to distinct keys are all seen in the end. -/
lemma lookup_putAll_of_mem {c : κ × Option ν}
    (hnd : (changes.map Prod.fst).Nodup) (h : c ∈ changes) :
    (m.putAll changes).lookup c.1 = c.2 := by
  induction changes generalizing m with
  | nil => simp at h
  | cons d changes ih =>
    rw [List.map_cons, List.nodup_cons] at hnd
    rw [putAll_cons]
    rcases List.mem_cons.1 h with rfl | h
    · rw [lookup_putAll_of_notMem hnd.1, lookup_put, if_pos rfl]
    · exact ih hnd.2 h

/-- Changes to a key that agree are seen in the end. -/
lemma lookup_putAll_of_agree
    {v : Option ν} (hagree : ∀ c ∈ changes, c.1 = k → c.2 = v) (h : k ∈ changes.map Prod.fst) :
    (m.putAll changes).lookup k = v := by
  induction changes generalizing m with
  | nil => simp at h
  | cons c changes ih =>
    obtain ⟨hc, hagree⟩ := List.forall_mem_cons.1 hagree
    rw [putAll_cons]
    by_cases hlater : k ∈ changes.map Prod.fst
    · exact ih hagree hlater
    · have hk : k = c.1 := by
        rw [List.map_cons, List.mem_cons] at h
        exact h.resolve_right hlater
      rw [lookup_putAll_of_notMem hlater, lookup_put, if_pos hk, hc hk.symm]

/-- What is at a key after the changes, if those to it agree. -/
lemma lookup_putAll_eq {o : Option (Option ν)} (h : ∀ y, (k, y) ∈ changes ↔ o = some y) :
    (m.putAll changes).lookup k = o.getD (m.lookup k) := by
  cases o with
  | none =>
    refine lookup_putAll_of_notMem fun hmem => ?_
    obtain ⟨c, hc, rfl⟩ := List.mem_map.1 hmem
    cases (h c.2).1 hc
  | some y =>
    refine lookup_putAll_of_agree ?_ (List.mem_map_of_mem ((h y).2 rfl))
    rintro c hc rfl
    exact (Option.some.inj ((h c.2).1 hc)).symm

/-! ### Scans -/

/-- The keys of a kind, in ascending order. -/
def scan {ι : Type} [LinearOrder ι] (kind : κ → Option ι) (m : HashMap κ ν) : List ι :=
  (m.keys.filterMap kind).insertionSort (· ≤ ·)

/-- A scan sees which keys are there and not in which order they were written. -/
theorem scan_congr {ι : Type} [LinearOrder ι] (kind : κ → Option ι) {m m' : HashMap κ ν}
    (h : ∀ k, (kind k).isSome → m.lookup k = m'.lookup k) : m.scan kind = m'.scan kind := by
  have hmem : ∀ k, (kind k).isSome → (k ∈ m.keys ↔ k ∈ m'.keys) := by
    intro k hk
    rw [← AList.mem_keys, ← AList.mem_keys, ← AList.lookup_isSome, ← AList.lookup_isSome, h k hk]
  have hperm : (m.keys.filter fun k => (kind k).isSome).Perm
      (m'.keys.filter fun k => (kind k).isSome) := by
    refine (List.perm_ext_iff_of_nodup (m.keys_nodup.filter _) (m'.keys_nodup.filter _)).2
      fun k => ?_
    rw [List.mem_filter, List.mem_filter]
    exact and_congr_left (hmem k)
  have hkinds : ∀ l : List κ, (l.filter fun k => (kind k).isSome).filterMap kind =
      l.filterMap kind := by
    intro l
    rw [List.filterMap_filter]
    refine List.filterMap_congr fun k _ => ?_
    cases kind k <;> rfl
  have hlists := hperm.filterMap kind
  rw [hkinds, hkinds] at hlists
  refine List.Perm.eq_of_sortedLE ?_ ?_ ?_
  · exact List.sortedLE_insertionSort
  · exact List.sortedLE_insertionSort
  · exact ((List.perm_insertionSort _ _).trans hlists).trans (List.perm_insertionSort _ _).symm

/-! ### Retain -/

/-- Keep the entries that satisfy a test. -/
def retain (m : HashMap κ ν) (p : κ → ν → Bool) : HashMap κ ν where
  entries := m.entries.filter fun e => p e.1 e.2
  nodupKeys := m.nodupKeys.sublist (List.filter_sublist ..)

lemma lookup_retain {p : κ → ν → Bool} : (m.retain p).lookup k = (m.lookup k).filter (p k) := by
  ext v
  rw [Option.filter_eq_some_iff, ← Option.mem_def, AList.mem_lookup_iff, ← Option.mem_def,
    AList.mem_lookup_iff]
  exact List.mem_filter

end AList
