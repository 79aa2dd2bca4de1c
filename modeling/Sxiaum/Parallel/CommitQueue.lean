import Sxiaum.Parallel.Executor

/-!
# The reorder buffer

Outcomes leave the buffer in ascending index order and without gaps; the ones that
wait have a gap below them. Nothing is lost inside the buffer: the outcomes released
so far and the ones that wait are exactly the ones enqueued.
-/

namespace Sxiaum.Parallel

variable {κ ν : Type}

namespace OrderedCommitQueue

/-- All outcomes that went through the buffer: those taken out of it earlier, those
released and those waiting. -/
def outcomes (drained : List (TxExecutionOutcome κ ν)) (q : OrderedCommitQueue κ ν) :
    List (TxExecutionOutcome κ ν) :=
  drained ++ q.committed ++ q.pending.values

/-- The buffer's invariant; `drained` are the outcomes taken out of it so far. -/
structure Ordered (start : ℕ) (drained : List (TxExecutionOutcome κ ν))
    (q : OrderedCommitQueue κ ν) : Prop where
  keyed : ∀ i o, q.pending.lookup i = some o → o.txIndex = i
  released : (drained ++ q.committed).map (·.txIndex) =
    List.range' start (drained ++ q.committed).length
  next : q.nextCommitIndex = start + (drained ++ q.committed).length
  waiting : ∀ i ∈ q.pending, q.nextCommitIndex ≤ i

variable {start : ℕ} {drained : List (TxExecutionOutcome κ ν)} {q : OrderedCommitQueue κ ν}

lemma ordered_new : (new start : OrderedCommitQueue κ ν).Ordered start [] where
  keyed := by simp [new]
  released := rfl
  next := rfl
  waiting := by simp [new]

lemma Ordered.release_one (h : q.Ordered start drained) {o : TxExecutionOutcome κ ν}
    (ho : q.pending.lookup q.nextCommitIndex = some o) :
    Ordered start drained
      { nextCommitIndex := q.nextCommitIndex + 1
        pending := q.pending.erase q.nextCommitIndex
        committed := q.committed ++ [o] } where
  keyed := by
    intro i o' hi
    by_cases hne : i = q.nextCommitIndex
    · subst hne
      simp at hi
    · rw [AList.lookup_erase_ne hne] at hi
      exact h.keyed i o' hi
  released := by
    have hlen : (drained ++ (q.committed ++ [o])).length =
        (drained ++ q.committed).length + 1 := by simp [Nat.add_assoc]
    rw [hlen, List.range'_concat, ← List.append_assoc, List.map_append, h.released,
      List.map_singleton, h.keyed _ _ ho, h.next, Nat.one_mul]
  next := by
    simp only [h.next, List.length_append, List.length_singleton]
    omega
  waiting := by
    intro i hi
    obtain ⟨hne, hmem⟩ := AList.mem_erase.1 hi
    exact lt_of_le_of_ne (h.waiting i hmem) (Ne.symm hne)

/-- With enough fuel the whole contiguous run is released, and no outcome is lost. -/
theorem release_spec (fuel : ℕ) (h : q.Ordered start drained)
    (hfuel : q.pending.entries.length ≤ fuel) :
    (q.release fuel).Ordered start drained ∧
      (q.release fuel).nextCommitIndex ∉ (q.release fuel).pending ∧
      ((q.release fuel).outcomes drained).Perm (q.outcomes drained) := by
  induction fuel generalizing q with
  | zero =>
    refine ⟨h, ?_, .refl _⟩
    have hempty : q.pending.entries = [] := List.length_eq_zero_iff.1 (Nat.le_zero.1 hfuel)
    simp [release, AList.mem_keys, AList.keys, hempty]
  | succ fuel ih =>
    cases hl : q.pending.lookup q.nextCommitIndex with
    | none =>
      simp only [release, hl]
      exact ⟨h, AList.lookup_eq_none.1 hl, .refl _⟩
    | some o =>
      have hvals := AList.values_perm_cons_erase hl
      have hlen : (q.pending.erase q.nextCommitIndex).entries.length ≤ fuel := by
        have := hvals.length_eq
        simp only [AList.values, List.length_map, List.length_cons] at this
        omega
      obtain ⟨hord, hstop, hperm⟩ := ih (h.release_one hl) hlen
      simp only [release, hl]
      refine ⟨hord, hstop, hperm.trans ?_⟩
      simp only [outcomes, List.append_assoc]
      exact ((hvals.symm.append_left q.committed).append_left drained)

/-- Enqueuing a new index keeps the invariant, leaves a gap at the next index, and adds
exactly the new outcome. -/
theorem enqueue_spec (h : q.Ordered start drained) {o : TxExecutionOutcome κ ν}
    (hstart : start ≤ o.txIndex) (hnew : o.txIndex ∉ (q.outcomes drained).map (·.txIndex)) :
    (q.enqueue o).Ordered start drained ∧
      (q.enqueue o).nextCommitIndex ∉ (q.enqueue o).pending ∧
      ((q.enqueue o).outcomes drained).Perm (o :: q.outcomes drained) := by
  have hnotin : o.txIndex ∉ q.pending := by
    intro hin
    obtain ⟨o', ho'⟩ := Option.isSome_iff_exists.1 (AList.lookup_isSome.2 hin)
    refine hnew (List.mem_map.2 ⟨o', ?_, h.keyed _ _ ho'⟩)
    exact List.mem_append_right _ (AList.mem_values.2 ⟨_, ho'⟩)
  have hrel : o.txIndex ∉ (drained ++ q.committed).map (·.txIndex) := by
    intro hin
    refine hnew ?_
    rw [outcomes, List.map_append]
    exact List.mem_append_left _ hin
  have hord : Ordered start drained { q with pending := q.pending.insert o.txIndex o } := by
    refine ⟨AList.forall_lookup_insert h.keyed rfl, h.released, h.next, fun i hi => ?_⟩
    rcases (AList.mem_insert _).1 hi with rfl | hi
    · -- an index below the next one has been released already
      rw [h.released, List.mem_range'_1] at hrel
      have hnext := h.next
      simp only
      omega
    · exact h.waiting i hi
  obtain ⟨hord', hstop, hperm⟩ := release_spec _ hord le_rfl
  refine ⟨hord', hstop, hperm.trans ?_⟩
  simp only [outcomes, AList.values_insert_of_notMem hnotin]
  exact List.perm_middle

lemma drainOrdered_ordered (h : q.Ordered start drained) :
    (q.drainOrdered).2.Ordered start (drained ++ q.drainOrdered.1) where
  keyed := h.keyed
  released := by simpa [drainOrdered] using h.released
  next := by simpa [drainOrdered] using h.next
  waiting := h.waiting

lemma drainOrdered_outcomes :
    (q.drainOrdered).2.outcomes (drained ++ q.drainOrdered.1) = q.outcomes drained := by
  simp [drainOrdered, outcomes]

/-! ### Runs -/

/-- An outcome arrives, or the buffer is drained into what has been taken out of it so far. -/
def take (s : List (TxExecutionOutcome κ ν) × OrderedCommitQueue κ ν) :
    Option (TxExecutionOutcome κ ν) → List (TxExecutionOutcome κ ν) × OrderedCommitQueue κ ν
  | some o => (s.1, s.2.enqueue o)
  | none => (s.1 ++ s.2.drainOrdered.1, s.2.drainOrdered.2)

variable {arrivals : List (Option (TxExecutionOutcome κ ν))}

lemma ordered_take (hnodup : (arrivals.reduceOption.map (·.txIndex)).Nodup)
    (hstart : ∀ o ∈ arrivals.reduceOption, start ≤ o.txIndex)
    {s : List (TxExecutionOutcome κ ν) × OrderedCommitQueue κ ν}
    (h : arrivals.foldl take ([], new start) = s) :
    s.2.Ordered start s.1 ∧ s.2.nextCommitIndex ∉ s.2.pending ∧
      (s.2.outcomes s.1).Perm arrivals.reduceOption := by
  induction arrivals using List.reverseRecOn generalizing s with
  | nil =>
    subst h
    exact ⟨ordered_new, by simp [new], .refl _⟩
  | append_singleton arrivals e ih =>
    rw [List.foldl_append] at h
    rw [List.reduceOption_append] at hnodup hstart ⊢
    obtain ⟨hord, hgap, hperm⟩ := ih (hnodup.sublist ((List.sublist_append_left _ _).map _))
      (fun o ho => hstart o (List.mem_append_left _ ho)) rfl
    subst h
    cases e with
    | none =>
      refine ⟨drainOrdered_ordered hord, hgap, ?_⟩
      simpa [take, drainOrdered_outcomes] using hperm
    | some o =>
      have hnew : o.txIndex ∉ ((arrivals.foldl take ([], new start)).2.outcomes
          (arrivals.foldl take ([], new start)).1).map (·.txIndex) := by
        rw [(hperm.map _).mem_iff]
        simp only [List.reduceOption_singleton, List.map_append, List.nodup_append] at hnodup
        exact fun hmem => hnodup.2.2 _ hmem _ (by simp) rfl
      obtain ⟨hord', hgap', hperm'⟩ := enqueue_spec hord (hstart o (by simp)) hnew
      refine ⟨hord', hgap', hperm'.trans ?_⟩
      exact (hperm.cons o).trans (List.perm_append_singleton o _).symm

/-- In whatever order outcomes arrive and whenever the buffer is drained: they leave it in the
order of their indices, up to the first index that has not arrived, and none is lost. -/
theorem released_in_order (hnodup : (arrivals.reduceOption.map (·.txIndex)).Nodup)
    (hstart : ∀ o ∈ arrivals.reduceOption, start ≤ o.txIndex)
    (h : arrivals.foldl take ([], new start) = (drained, q)) :
    (drained ++ q.committed).map (·.txIndex) =
        List.range' start (drained ++ q.committed).length ∧
      start + (drained ++ q.committed).length ∉ arrivals.reduceOption.map (·.txIndex) ∧
      (drained ++ q.committed ++ q.pending.values).Perm arrivals.reduceOption := by
  obtain ⟨hord, hgap, hperm⟩ : q.Ordered start drained ∧ q.nextCommitIndex ∉ q.pending ∧
      (q.outcomes drained).Perm arrivals.reduceOption := ordered_take hnodup hstart h
  refine ⟨hord.released, ?_, hperm⟩
  rw [← (hperm.map _).mem_iff, outcomes, List.map_append, List.mem_append, hord.released]
  rintro (hreleased | hwaiting)
  · rw [List.mem_range'_1] at hreleased
    omega
  · obtain ⟨o, ho, hindex⟩ := List.mem_map.1 hwaiting
    obtain ⟨i, hi⟩ := AList.mem_values.1 ho
    apply hgap
    rw [hord.next, ← hindex, hord.keyed i o hi]
    exact AList.lookup_isSome.1 (hi ▸ rfl)

/-- The outcome of a transaction that does nothing. -/
def idleOutcome (txIndex : ℕ) : TxExecutionOutcome ℕ ℕ :=
  rawToOutcome ⟨⟨0, none, [], [], [], true, false, none⟩, txIndex, 0, [], []⟩ none 0

/-- The second transaction is done before the first. -/
theorem released_in_order_swapped : ∃ drained q,
    [some (idleOutcome 1), none, some (idleOutcome 0), none].foldl take ([], new 0) = (drained, q) ∧
      (drained ++ q.committed).length = 2 ∧
      (drained ++ q.committed).map (·.txIndex) = List.range' 0 (drained ++ q.committed).length := by
  refine ⟨_, _, rfl, rfl, (released_in_order ?_ ?_ (Eq.refl (List.foldl take ([], new 0)
    [some (idleOutcome 1), none, some (idleOutcome 0), none]))).1⟩ <;> decide

end OrderedCommitQueue

end Sxiaum.Parallel
