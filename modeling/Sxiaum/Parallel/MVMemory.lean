import Mathlib.Data.List.Pairwise
import Mathlib.Data.List.Sort
import Mathlib.Data.Prod.Lex
import Mathlib.Logic.Function.Basic

/-!
# Multi-version memory

The versioned store of the optimistic executor (`parallel/mv_memory.rs`). Each key
has the list of versions written to it, ascending by `(tx_index, incarnation)`. A
transaction sees its own writes first, and else the latest committed version of a
lower transaction index. A written value is an `Option`: the source stores deletions
as empty byte strings, `none` here.
-/

namespace Sxiaum.Parallel

/-- One execution of a transaction. -/
structure TxVersion where
  txIndex : ℕ
  incarnation : ℕ
deriving DecidableEq, Repr, Inhabited

instance : LinearOrder TxVersion :=
  LinearOrder.lift' (fun v => toLex (v.txIndex, v.incarnation))
    (fun a b h => by cases a; cases b; simpa using h)

lemma TxVersion.lt_of_txIndex_lt {a b : TxVersion} (h : a.txIndex < b.txIndex) : a < b :=
  Prod.Lex.toLex_lt_toLex.2 (Or.inl h)

/-- Lifecycle of a version. -/
inductive VersionStatus where
  | speculative
  | committed
  | aborted
deriving DecidableEq, Repr

/-- A value written to one key by one execution. -/
structure Version (ν : Type) where
  txVersion : TxVersion
  value : Option ν
  status : VersionStatus
deriving DecidableEq, Repr

def Version.speculative {ν : Type} (tv : TxVersion) (value : Option ν) : Version ν :=
  ⟨tv, value, .speculative⟩

/-- A committed version of a transaction before `txIndex`. -/
def Version.visibleBefore {ν : Type} (txIndex : ℕ) (v : Version ν) : Bool :=
  v.status = .committed ∧ v.txVersion.txIndex < txIndex

/-- The versions of one key, strictly ascending by `TxVersion`. -/
structure VersionList (ν : Type) where
  entries : List (Version ν)
  sorted : entries.Pairwise (fun a b => a.txVersion < b.txVersion)

namespace VersionList

variable {ν : Type}

def empty : VersionList ν := ⟨[], List.Pairwise.nil⟩

/-- Drop the versions written by `tv`. -/
def discard (tv : TxVersion) (l : VersionList ν) : VersionList ν where
  entries := l.entries.filter (fun v => v.txVersion ≠ tv)
  sorted := l.sorted.sublist (List.filter_sublist ..)

/-- Replace what `tv` wrote by a speculative version, and keep the list sorted. -/
def record (tv : TxVersion) (value : Option ν) (l : VersionList ν) : VersionList ν where
  entries := ((l.discard tv).entries ++ [Version.speculative tv value]).insertionSort
    (fun a b => a.txVersion ≤ b.txVersion)
  sorted := by
    set r : Version ν → Version ν → Prop := fun a b => a.txVersion ≤ b.txVersion
    set base := (l.discard tv).entries ++ [Version.speculative tv value]
    have : IsTrans (Version ν) r := ⟨fun _ _ _ => le_trans⟩
    have : Std.Total r := ⟨fun a b => le_total a.txVersion b.txVersion⟩
    have hle := List.pairwise_insertionSort r base
    have hne : base.Pairwise (fun a b => a.txVersion ≠ b.txVersion) := by
      refine List.pairwise_append.2 ⟨(l.discard tv).sorted.imp ne_of_lt, by simp, ?_⟩
      intro a ha b hb
      obtain rfl := List.mem_singleton.1 hb
      simpa [Version.speculative] using (List.mem_filter.1 ha).2
    have hne' := hne.perm (List.perm_insertionSort r base).symm (fun h => Ne.symm h)
    exact (hle.and hne').imp (fun h => lt_of_le_of_ne h.1 h.2)

/-- Turn the speculative versions of `tv` into committed ones. -/
def promote (tv : TxVersion) (l : VersionList ν) : VersionList ν where
  entries := l.entries.map fun v =>
    if v.txVersion = tv ∧ v.status = .speculative then { v with status := .committed } else v
  sorted := by
    refine List.pairwise_map.2 (l.sorted.imp ?_)
    intro a b hab
    split_ifs <;> exact hab

def own (tv : TxVersion) (l : VersionList ν) : Option (Version ν) :=
  l.entries.reverse.find? (fun v => v.txVersion = tv)

def latestCommitted (txIndex : ℕ) (l : VersionList ν) : Option (Version ν) :=
  l.entries.reverse.find? (Version.visibleBefore txIndex)

variable {l : VersionList ν}

lemma mem_discard {tv : TxVersion} {v : Version ν} :
    v ∈ (l.discard tv).entries ↔ v ∈ l.entries ∧ v.txVersion ≠ tv := by
  simp [discard]

lemma mem_record {tv : TxVersion} {x : Option ν} {v : Version ν} :
    v ∈ (l.record tv x).entries ↔
      v = .speculative tv x ∨ v ∈ l.entries ∧ v.txVersion ≠ tv := by
  simp only [record, List.mem_insertionSort, List.mem_append, mem_discard, List.mem_singleton]
  exact or_comm

lemma mem_promote {tv : TxVersion} {v : Version ν} :
    v ∈ (l.promote tv).entries ↔
      (v ∈ l.entries ∧ ¬ (v.txVersion = tv ∧ v.status = .speculative)) ∨
      (v.status = .committed ∧ v.txVersion = tv ∧
        { v with status := .speculative } ∈ l.entries) := by
  simp only [promote, List.mem_map]
  constructor
  · rintro ⟨u, hu, rfl⟩
    split_ifs with h
    · obtain ⟨utv, uval, ust⟩ := u
      obtain ⟨rfl, rfl⟩ : utv = tv ∧ ust = .speculative := h
      exact Or.inr ⟨rfl, rfl, hu⟩
    · exact Or.inl ⟨hu, h⟩
  · rintro (⟨hv, hn⟩ | ⟨hc, htv, hv⟩)
    · exact ⟨v, hv, if_neg hn⟩
    · obtain ⟨vtv, vval, vst⟩ := v
      obtain rfl : vst = .committed := hc
      exact ⟨_, hv, if_pos ⟨htv, rfl⟩⟩

lemma own_eq_none {tv : TxVersion} : l.own tv = none ↔ ∀ v ∈ l.entries, v.txVersion ≠ tv := by
  simp [own]

lemma eq_of_txVersion_eq {a b : Version ν} (ha : a ∈ l.entries)
    (hb : b ∈ l.entries) (h : a.txVersion = b.txVersion) : a = b := by
  by_contra hne
  have : Std.Symm (fun x y : Version ν => x.txVersion ≠ y.txVersion) := ⟨fun _ _ h => h.symm⟩
  have hpair : l.entries.Pairwise (fun x y => x.txVersion ≠ y.txVersion) := l.sorted.imp ne_of_lt
  exact hpair.forall ha hb hne h

/-! ### The latest committed version -/

lemma latestCommitted_eq_none {i : ℕ} :
    l.latestCommitted i = none ↔
      ∀ v ∈ l.entries, v.status = .committed → ¬ v.txVersion.txIndex < i := by
  simp [latestCommitted, Version.visibleBefore]

/-- The search from the end of the sorted list finds the greatest visible version. -/
theorem latestCommitted_eq_some {i : ℕ} {v : Version ν} :
    l.latestCommitted i = some v ↔
      v ∈ l.entries ∧ v.status = .committed ∧ v.txVersion.txIndex < i ∧
        ∀ w ∈ l.entries, w.status = .committed → w.txVersion.txIndex < i →
          w.txVersion ≤ v.txVersion := by
  have found : ∀ u, l.latestCommitted i = some u →
      u ∈ l.entries ∧ u.status = .committed ∧ u.txVersion.txIndex < i ∧
        ∀ w ∈ l.entries, w.status = .committed → w.txVersion.txIndex < i →
          w.txVersion ≤ u.txVersion := by
    intro u hu
    obtain ⟨hvis, as, bs, hsplit, has⟩ := List.find?_eq_some_iff_append.1 hu
    have hvis' : u.status = .committed ∧ u.txVersion.txIndex < i := by
      simpa [Version.visibleBefore] using hvis
    have hmem : ∀ w, w ∈ l.entries ↔ w ∈ as ∨ w = u ∨ w ∈ bs := by
      intro w
      rw [← List.mem_reverse, hsplit, List.mem_append, List.mem_cons]
    refine ⟨(hmem u).2 (Or.inr (Or.inl rfl)), hvis'.1, hvis'.2, ?_⟩
    intro w hw hc hlt
    rcases (hmem w).1 hw with h | rfl | h
    · have hnot := has w h
      simp [Version.visibleBefore, hc, hlt] at hnot
    · exact le_rfl
    · have hrev := List.pairwise_reverse.2 l.sorted
      rw [hsplit] at hrev
      exact ((List.pairwise_cons.1 (List.pairwise_append.1 hrev).2.1).1 w h).le
  refine ⟨found v, ?_⟩
  rintro ⟨hv, hc, hlt, hmax⟩
  cases hf : l.latestCommitted i with
  | none => exact absurd hlt (latestCommitted_eq_none.1 hf v hv hc)
  | some u =>
    obtain ⟨hu, huc, hult, humax⟩ := found u hf
    have htv : u.txVersion = v.txVersion :=
      le_antisymm (hmax u hu huc hult) (humax v hv hc hlt)
    rw [eq_of_txVersion_eq hu hv htv]

end VersionList

/-! ### The store -/

/-- A key read and the version that answered, `none` when no version did. -/
structure ReadRecord (κ : Type) where
  key : κ
  observedVersion : Option TxVersion
deriving DecidableEq, Repr

/-- What one execution has read and written. -/
structure SpeculativeState (κ : Type) where
  readSet : List (ReadRecord κ) := []
  writeSet : List κ := []
deriving DecidableEq, Repr

/-- The versioned store: the versions of every key and the state of every execution. -/
structure MVMemory (κ ν : Type) where
  versions : κ → VersionList ν
  speculative : TxVersion → Option (SpeculativeState κ)
  committedWatermark : Option ℕ

namespace MVMemory

variable {κ ν : Type} [DecidableEq κ]

def new : MVMemory κ ν where
  versions := fun _ => .empty
  speculative := fun _ => none
  committedWatermark := none

variable (tv : TxVersion) (key : κ) (mv : MVMemory κ ν)

def recordSpeculativeWrite (value : Option ν) (mv : MVMemory κ ν) : MVMemory κ ν :=
  let st := (mv.speculative tv).getD {}
  { mv with
    versions := Function.update mv.versions key ((mv.versions key).record tv value)
    speculative := Function.update mv.speculative tv
      (some { st with writeSet := st.writeSet ++ [key] }) }

/-- The version of `key` that answers a read of `tv`: its own, or the latest committed. -/
def observed : Option (Version ν) :=
  ((mv.versions key).own tv).or ((mv.versions key).latestCommitted tv.txIndex)

/-- Answer a read of `tv` and remember which version answered it. -/
def readAtVersion : Option (Option ν) × MVMemory κ ν :=
  let seen := mv.observed tv key
  let st := (mv.speculative tv).getD {}
  (seen.map (·.value),
    { mv with
      speculative := Function.update mv.speculative tv
        (some { st with
          readSet := st.readSet ++ [⟨key, seen.map (·.txVersion)⟩] }) })

/-- Whether every read of `tv` would still be answered by the version it observed. -/
def validateReads : Bool :=
  match mv.speculative tv with
  | none => true
  | some st =>
    st.readSet.all fun r =>
      ((mv.versions r.key).latestCommitted tv.txIndex).map (·.txVersion) = r.observedVersion

def discardSpeculative : MVMemory κ ν :=
  { mv with
    versions := fun k => (mv.versions k).discard tv
    speculative := Function.update mv.speculative tv none }

def promoteToCommitted : MVMemory κ ν :=
  { mv with
    versions := fun k => (mv.versions k).promote tv
    committedWatermark := some (max (mv.committedWatermark.getD 0) tv.txIndex) }

omit [DecidableEq κ] in
@[simp] lemma readAtVersion_versions : (mv.readAtVersion tv key).2.versions = mv.versions := rfl

omit [DecidableEq κ] in
@[simp] lemma readAtVersion_value :
    (mv.readAtVersion tv key).1 = (mv.observed tv key).map (·.value) := rfl

/-- The reads that are recorded for an execution. -/
def readsOf : List (ReadRecord κ) := ((mv.speculative tv).getD {}).readSet

omit [DecidableEq κ] in
lemma validateReads_iff : mv.validateReads tv = true ↔ ∀ r ∈ mv.readsOf tv,
    ((mv.versions r.key).latestCommitted tv.txIndex).map (·.txVersion) = r.observedVersion := by
  unfold validateReads readsOf
  cases mv.speculative tv <;> simp

omit [DecidableEq κ] in
lemma readsOf_readAtVersion : (mv.readAtVersion tv key).2.readsOf tv =
    mv.readsOf tv ++ [⟨key, (mv.observed tv key).map (·.txVersion)⟩] := by
  simp [readsOf, readAtVersion]

lemma readsOf_recordSpeculativeWrite (value : Option ν) :
    (mv.recordSpeculativeWrite tv key value).readsOf tv = mv.readsOf tv := by
  simp [readsOf, recordSpeculativeWrite]

omit [DecidableEq κ] in
lemma readsOf_discardSpeculative {tv tv' : TxVersion} (h : tv' ≠ tv) :
    (mv.discardSpeculative tv).readsOf tv' = mv.readsOf tv' := by
  simp [readsOf, discardSpeculative, Function.update_of_ne h]

/-- No execution of the task from incarnation `n` on has been recorded. -/
def Unused (txIndex n : ℕ) : Prop := ∀ m ≥ n, mv.speculative ⟨txIndex, m⟩ = none

omit [DecidableEq κ] in
variable {mv} in
lemma Unused.discardSpeculative {i n : ℕ} (h : mv.Unused i n) :
    (mv.discardSpeculative tv).Unused i n := by
  intro m hm
  simp [MVMemory.discardSpeculative, Function.update_apply, h m hm]

lemma mem_recordSpeculativeWrite {tv : TxVersion} {key k : κ} {x : Option ν}
    {mv : MVMemory κ ν} {v : Version ν} :
    v ∈ ((mv.recordSpeculativeWrite tv key x).versions k).entries ↔
      (k = key ∧ v = .speculative tv x) ∨
        (v ∈ (mv.versions k).entries ∧ (k = key → v.txVersion ≠ tv)) := by
  by_cases hk : k = key
  · subst hk
    simp [recordSpeculativeWrite, VersionList.mem_record]
  · simp [recordSpeculativeWrite, hk]

/-- The rows a transaction at `txIndex` reads from committed versions over `state`. -/
def view (state : κ → Option ν) (txIndex : ℕ) (k : κ) : Option ν :=
  match (mv.versions k).latestCommitted txIndex with
  | some v => v.value
  | none => state k

omit [DecidableEq κ] in
/-- The latest committed version depends on the committed versions below an index. -/
lemma latestCommitted_congr {mv mv' : MVMemory κ ν} {i : ℕ} {k : κ}
    (h : ∀ v : Version ν, v.status = .committed → v.txVersion.txIndex < i →
      (v ∈ (mv.versions k).entries ↔ v ∈ (mv'.versions k).entries)) :
    (mv.versions k).latestCommitted i = (mv'.versions k).latestCommitted i := by
  ext v
  rw [VersionList.latestCommitted_eq_some, VersionList.latestCommitted_eq_some]
  constructor
  · rintro ⟨hv, hc, hlt, hmax⟩
    exact ⟨(h v hc hlt).1 hv, hc, hlt, fun w hw hwc hwl => hmax w ((h w hwc hwl).2 hw) hwc hwl⟩
  · rintro ⟨hv, hc, hlt, hmax⟩
    exact ⟨(h v hc hlt).2 hv, hc, hlt, fun w hw hwc hwl => hmax w ((h w hwc hwl).1 hw) hwc hwl⟩

end MVMemory

end Sxiaum.Parallel
