import Sxiaum.Parallel.MVMemory

/-!
# Validation of reads

Writes, reads, promotions and discards of all executions and garbage collection, in any order. A
read is recorded with the name of the version that answered it, and validation compares that with
the name of the latest committed version. So an execution that has read a key after writing it is
never valid, and a version that is written and promoted again under its old name is taken for the
one that was read. Where neither happens validation is exact (`validateReads_exact`).
-/

namespace Sxiaum.Parallel

variable {κ ν : Type} {tv : TxVersion}

def VersionList.gc (minTxIndex : ℕ) (l : VersionList ν) : VersionList ν where
  entries := l.entries.filter fun v => minTxIndex ≤ v.txVersion.txIndex
  sorted := l.sorted.sublist (List.filter_sublist ..)

def MVMemory.gc (minTxIndex : ℕ) (mv : MVMemory κ ν) : MVMemory κ ν :=
  { mv with
    versions := fun k => (mv.versions k).gc minTxIndex
    speculative := fun tv => if minTxIndex ≤ tv.txIndex then mv.speculative tv else none }

def MVMemory.committedFor (tv : TxVersion) (key : κ) (mv : MVMemory κ ν) : Option (Version ν) :=
  (mv.versions key).latestCommitted tv.txIndex

/-- The recorded version is the latest committed one exactly if the read was not answered by an
own write and the latest committed version still has that name. -/
lemma MVMemory.committedFor_eq_observed {mv m : MVMemory κ ν} {key : κ} :
    (mv.committedFor tv key).map Version.txVersion = (m.observed tv key).map Version.txVersion ↔
      (m.versions key).own tv = none ∧ (mv.committedFor tv key).map Version.txVersion =
        (m.committedFor tv key).map Version.txVersion := by
  unfold observed
  cases hown : (m.versions key).own tv with
  | none => simp [committedFor]
  | some v =>
    -- a committed version that is seen has a lower index
    have hne : (mv.committedFor tv key).map Version.txVersion ≠ some v.txVersion := by
      intro h
      obtain ⟨w, hw, heq⟩ := Option.map_eq_some_iff.1 h
      have hlt := (VersionList.latestCommitted_eq_some.1 hw).2.2.1
      have howner : v.txVersion = tv := by simpa using List.find?_some hown
      rw [heq, howner] at hlt
      exact lt_irrefl _ hlt
    simpa using hne

inductive MemoryOp (κ ν : Type) where
  | write (tv : TxVersion) (key : κ) (value : Option ν)
  | read (tv : TxVersion) (key : κ)
  | promote (tv : TxVersion)
  | discard (tv : TxVersion)
  | gc (minTxIndex : ℕ)

/-- The memory, and the reads of each execution with the memory as it was then. -/
structure Watched (κ ν : Type) where
  memory : MVMemory κ ν
  log : TxVersion → List (κ × MVMemory κ ν)

namespace Watched

variable [DecidableEq κ] {s : Watched κ ν}

def apply (s : Watched κ ν) : MemoryOp κ ν → Watched κ ν
  | .write tv key value => { s with memory := s.memory.recordSpeculativeWrite tv key value }
  | .read tv key =>
    ⟨(s.memory.readAtVersion tv key).2, Function.update s.log tv (s.log tv ++ [(key, s.memory)])⟩
  | .promote tv => { s with memory := s.memory.promoteToCommitted tv }
  | .discard tv => ⟨s.memory.discardSpeculative tv, Function.update s.log tv []⟩
  | .gc minTxIndex =>
    ⟨s.memory.gc minTxIndex, fun tv => if minTxIndex ≤ tv.txIndex then s.log tv else []⟩

/-- Nothing is written or read yet. -/
def new : Watched κ ν := ⟨.new, fun _ => []⟩

def run (ops : List (MemoryOp κ ν)) : Watched κ ν := ops.foldl apply new

/-- The latest committed version for a read is the one it had been. -/
def Unchanged (s : Watched κ ν) (tv : TxVersion) (r : κ × MVMemory κ ν) : Prop :=
  s.memory.committedFor tv r.1 = r.2.committedFor tv r.1

/-- The latest committed version for a read has the name it had. -/
def SameName (s : Watched κ ν) (tv : TxVersion) (r : κ × MVMemory κ ν) : Prop :=
  (s.memory.committedFor tv r.1).map Version.txVersion =
    (r.2.committedFor tv r.1).map Version.txVersion

/-- The read was not answered by an own write. -/
def Foreign (tv : TxVersion) (r : κ × MVMemory κ ν) : Prop := (r.2.versions r.1).own tv = none

/-- The recorded reads are those of the log. -/
def Recorded (s : Watched κ ν) : Prop :=
  ∀ tv, ((s.memory.speculative tv).getD {}).readSet =
    (s.log tv).map fun r => ⟨r.1, (r.2.observed tv r.1).map Version.txVersion⟩

lemma Recorded.apply (h : s.Recorded) (op : MemoryOp κ ν) : (s.apply op).Recorded := by
  intro tv
  have htv := h tv
  cases op with
  | write u key value =>
    by_cases hu : tv = u
    · subst hu
      simpa [Watched.apply, MVMemory.recordSpeculativeWrite] using htv
    · simpa [Watched.apply, MVMemory.recordSpeculativeWrite, hu] using htv
  | read u key =>
    by_cases hu : tv = u
    · subst hu
      simpa [Watched.apply, MVMemory.readAtVersion] using htv
    · simpa [Watched.apply, MVMemory.readAtVersion, hu] using htv
  | promote u => exact htv
  | discard u =>
    by_cases hu : tv = u
    · simp [Watched.apply, MVMemory.discardSpeculative, hu]
    · simpa [Watched.apply, MVMemory.discardSpeculative, hu] using htv
  | gc minTxIndex =>
    by_cases hmin : minTxIndex ≤ tv.txIndex
    · simpa [Watched.apply, MVMemory.gc, hmin] using htv
    · simp [Watched.apply, MVMemory.gc, hmin]

omit [DecidableEq κ] in
/-- What validation finds out. -/
lemma Recorded.validateReads_iff (h : s.Recorded) :
    s.memory.validateReads tv = true ↔ ∀ r ∈ s.log tv, Foreign tv r ∧ s.SameName tv r := by
  have hall : s.memory.validateReads tv = ((s.memory.speculative tv).getD {}).readSet.all fun r =>
      (s.memory.committedFor tv r.key).map Version.txVersion = r.observedVersion := by
    unfold MVMemory.validateReads
    cases s.memory.speculative tv <;> rfl
  rw [hall, h tv, List.all_map, List.all_eq_true]
  refine forall₂_congr fun r _ => ?_
  rw [Foreign, SameName, ← MVMemory.committedFor_eq_observed]
  exact decide_eq_true_iff

/-- An operation that validation can cope with: a read is not answered by an own write, and what
is promoted was not written again under a name that a recorded read has seen. -/
def Allowed (s : Watched κ ν) : MemoryOp κ ν → Prop
  | .read tv key => (s.memory.versions key).own tv = none
  | .promote tv => ∀ reader key, ⟨key, some tv⟩ ∈ ((s.memory.speculative reader).getD {}).readSet →
      ∀ v ∈ (s.memory.versions key).entries, v.txVersion = tv → v.status ≠ .speculative
  | _ => True

/-- A read was not answered by an own write, and no other version is committed under the name of
the one it has seen. -/
def Kept (s : Watched κ ν) (tv : TxVersion) (r : κ × MVMemory κ ν) : Prop :=
  Foreign tv r ∧ ∀ seen, r.2.committedFor tv r.1 = some seen →
    ∀ v ∈ (s.memory.versions r.1).entries, v.status = .committed →
      v.txVersion = seen.txVersion → v = seen

omit [DecidableEq κ] in
/-- A read stays kept where no version becomes committed under its key. -/
lemma Kept.of_subset {s' : Watched κ ν} {r : κ × MVMemory κ ν} (h : s.Kept tv r)
    (hsub : ∀ v ∈ (s'.memory.versions r.1).entries, v.status = .committed →
      v ∈ (s.memory.versions r.1).entries) : s'.Kept tv r :=
  ⟨h.1, fun seen hseen v hv hc => h.2 seen hseen v (hsub v hv hc) hc⟩

omit [DecidableEq κ] in
/-- A read that was not answered by an own write is recorded under the name it has seen. -/
lemma Recorded.mem_readSet (h : s.Recorded) {r : κ × MVMemory κ ν} (hr : r ∈ s.log tv)
    (hforeign : Foreign tv r) :
    ⟨r.1, (r.2.committedFor tv r.1).map Version.txVersion⟩ ∈
      ((s.memory.speculative tv).getD {}).readSet := by
  rw [h tv]
  refine List.mem_map.2 ⟨r, hr, ?_⟩
  rw [MVMemory.observed, hforeign, Option.none_or]
  rfl

/-- Each allowed operation keeps what was read. -/
lemma kept_apply {op : MemoryOp κ ν} (hrec : s.Recorded)
    (h : ∀ tv, ∀ r ∈ s.log tv, s.Kept tv r) (hop : s.Allowed op) :
    ∀ tv, ∀ r ∈ (s.apply op).log tv, (s.apply op).Kept tv r := by
  intro tv r hr
  cases op with
  | write u key value =>
    refine (h tv r hr).of_subset fun v hv hc => ?_
    -- what is written is speculative
    rcases MVMemory.mem_recordSpeculativeWrite.1 hv with ⟨-, rfl⟩ | ⟨hv, -⟩
    · cases hc
    · exact hv
  | read u key =>
    by_cases hu : tv = u
    · subst hu
      simp only [apply, Function.update_self, List.mem_append, List.mem_singleton] at hr
      rcases hr with hr | rfl
      · exact h tv r hr
      · refine ⟨hop, fun seen hseen v hv _ hname => ?_⟩
        exact VersionList.eq_of_txVersion_eq hv
          (VersionList.latestCommitted_eq_some.1 hseen).1 hname
    · simp only [apply, Function.update_of_ne hu] at hr
      exact h tv r hr
  | promote u =>
    obtain ⟨hforeign, hkept⟩ := h tv r hr
    refine ⟨hforeign, fun seen hseen v hv hc hname => ?_⟩
    rcases VersionList.mem_promote.1 hv with ⟨hv, -⟩ | ⟨-, hvu, hspec⟩
    · exact hkept seen hseen v hv hc hname
    · -- the version was speculative under the name that the read has seen
      have hmem := hrec.mem_readSet hr hforeign
      rw [hseen, Option.map_some, ← hname, hvu] at hmem
      exact absurd rfl (hop tv r.1 hmem _ hspec hvu)
  | discard u =>
    by_cases hu : tv = u
    · subst hu
      simp only [apply, Function.update_self] at hr
      cases hr
    · simp only [apply, Function.update_of_ne hu] at hr
      exact (h tv r hr).of_subset fun v hv _ => (VersionList.mem_discard.1 hv).1
  | gc minTxIndex =>
    by_cases hmin : minTxIndex ≤ tv.txIndex
    · simp only [apply, if_pos hmin] at hr
      exact (h tv r hr).of_subset fun v hv _ => List.mem_of_mem_filter hv
    · simp only [apply, if_neg hmin] at hr
      cases hr

omit [DecidableEq κ] in
/-- Of a read that is kept, the name tells whether it is unchanged. -/
lemma Kept.sameName_iff {r : κ × MVMemory κ ν} (h : s.Kept tv r) :
    s.SameName tv r ↔ s.Unchanged tv r := by
  refine ⟨fun hname => ?_, fun heq => congrArg (Option.map Version.txVersion) heq⟩
  rw [SameName] at hname
  rw [Unchanged]
  cases hseen : r.2.committedFor tv r.1 with
  | none => rwa [hseen, Option.map_none, Option.map_eq_none_iff] at hname
  | some seen =>
    rw [hseen, Option.map_some, Option.map_eq_some_iff] at hname
    obtain ⟨v, hv, hname⟩ := hname
    obtain ⟨hmem, hc, -⟩ := VersionList.latestCommitted_eq_some.1 hv
    rw [hv, h.2 seen hseen v hmem hc hname]

end Watched

/-- Every operation is allowed in the state in which it comes. -/
def Watched.AllAllowed [DecidableEq κ] (s : Watched κ ν) : List (MemoryOp κ ν) → Prop
  | [] => True
  | op :: ops => s.Allowed op ∧ (s.apply op).AllAllowed ops

lemma Watched.kept_foldl [DecidableEq κ] {s : Watched κ ν} {ops : List (MemoryOp κ ν)}
    (hops : s.AllAllowed ops) (hrec : s.Recorded) (h : ∀ tv, ∀ r ∈ s.log tv, s.Kept tv r) :
    (ops.foldl apply s).Recorded ∧
      ∀ tv, ∀ r ∈ (ops.foldl apply s).log tv, (ops.foldl apply s).Kept tv r := by
  induction ops generalizing s with
  | nil => exact ⟨hrec, h⟩
  | cons op ops ih => exact ih hops.2 (hrec.apply op) (kept_apply hrec h hops.1)

/-- After every run of allowed operations validation says whether the reads are unchanged. -/
theorem validateReads_exact [DecidableEq κ] (ops : List (MemoryOp κ ν)) {s : Watched κ ν}
    (hs : Watched.run ops = s) (hops : Watched.new.AllAllowed ops) (tv : TxVersion) :
    s.memory.validateReads tv = true ↔ ∀ r ∈ s.log tv, s.Unchanged tv r := by
  obtain ⟨hrec, hkept⟩ := Watched.kept_foldl hops (fun _ => rfl) nofun
  rw [← Watched.run, hs] at hrec hkept
  rw [hrec.validateReads_iff]
  refine forall₂_congr fun r hr => ?_
  rw [(hkept tv r hr).sameName_iff]
  exact and_iff_right (hkept tv r hr).1

/-- An execution that has written a key and read it is not valid, with nobody else around. And
a version that is written and promoted again under its name is taken for the one that was read. -/
theorem validation_misses :
    (Watched.run [.write ⟨0, 0⟩ 5 (some 7), .read ⟨0, 0⟩ 5] :
      Watched ℕ ℕ).memory.validateReads ⟨0, 0⟩ = false ∧
    ∃ s : Watched ℕ ℕ, s = Watched.run [.write ⟨0, 0⟩ 5 (some 7), .promote ⟨0, 0⟩, .read ⟨1, 0⟩ 5,
        .write ⟨0, 0⟩ 5 (some 8), .promote ⟨0, 0⟩] ∧
      s.memory.validateReads ⟨1, 0⟩ = true ∧ ∃ r ∈ s.log ⟨1, 0⟩, ¬ s.Unchanged ⟨1, 0⟩ r := by
  refine ⟨by decide, _, rfl, by decide, _, List.mem_singleton.2 rfl, ?_⟩
  unfold Watched.Unchanged
  decide

/-- A read of what an earlier transaction has promoted is valid. -/
theorem promoted_read_valid :
    (Watched.run [.write ⟨0, 0⟩ 5 (some 7), .promote ⟨0, 0⟩, .read ⟨1, 0⟩ 5] :
      Watched ℕ ℕ).memory.validateReads ⟨1, 0⟩ = true := by
  have hpromote : (Watched.run [.write ⟨0, 0⟩ 5 (some 7)] : Watched ℕ ℕ).Allowed
      (.promote ⟨0, 0⟩) := by
    -- nothing is read yet
    intro reader key hmem
    by_cases hreader : reader = ⟨0, 0⟩
    · subst hreader
      cases hmem
    · simp [Watched.run, Watched.apply, Watched.new, MVMemory.recordSpeculativeWrite, hreader,
        MVMemory.new] at hmem
  exact (validateReads_exact [.write ⟨0, 0⟩ 5 (some 7), .promote ⟨0, 0⟩, .read ⟨1, 0⟩ 5]
    rfl ⟨trivial, hpromote, rfl, trivial⟩ ⟨1, 0⟩).2 (List.forall_mem_singleton.2 rfl)

end Sxiaum.Parallel
