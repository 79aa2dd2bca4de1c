import Sxiaum.Zk.StfBinding

/-!
# The order of the transactions

The seeded shuffle permutes its list, and sorting by distinct commitments forgets the order in
which the transactions were given. So one order of them passes the check.
-/

namespace Sxiaum.Zk

open StfOracles

variable {o : StfOracles} {x : ZkPublicInputs} {w w' : StfPrivateInputs} {width : ℕ}

/-! ### The shuffle -/

lemma swapIfInBounds_perm {α : Type} (items : Array α) (i j : ℕ) :
    (items.swapIfInBounds i j).Perm items := by
  rw [Array.swapIfInBounds_def]
  split_ifs with hi hj
  · exact Array.swap_perm hi hj
  · exact .refl _
  · exact .refl _

lemma swapDown_perm {α : Type} (seed : Bytes32) (height : UInt64) (n : ℕ) (items : Array α) :
    (o.swapDown width seed height n items).Perm items := by
  induction n generalizing items with
  | zero => exact .refl _
  | succ n ih => exact (ih _).trans (swapIfInBounds_perm items _ _)

lemma shuffledPairs_perm (o : StfOracles) (width : ℕ) (x : ZkPublicInputs) (w : StfPrivateInputs) :
    ((o.shuffledPairs width x w).toList.map Prod.snd).Perm (w.transactions.map (·.txHash)) := by
  have hshuffle : (o.shuffledPairs width x w).toList.Perm (o.sortedPairs w) :=
    (swapDown_perm _ _ _ _).toList
  have hsort := hshuffle.trans (List.perm_insertionSort CommitLe _)
  simpa [Function.comp_def] using hsort.map Prod.snd

/-! ### The sorted pairs -/

instance : Std.Total CommitLe := ⟨fun a b => List.le_total a.1.bytes b.1.bytes⟩

instance : IsTrans (Bytes32 × Bytes32) CommitLe := ⟨fun _ _ _ => List.le_trans⟩

/-- Distinct commitments have one sorted order. -/
lemma sortedPairs_congr
    (hcommits : (w.transactions.map fun t => o.computeCommitHash t.revealNonce t.txHash).Nodup)
    (h : w'.transactions.Perm w.transactions) : o.sortedPairs w' = o.sortedPairs w := by
  have hpairs := h.map fun t => (o.computeCommitHash t.revealNonce t.txHash, t.txHash)
  have hperm : (o.sortedPairs w').Perm (o.sortedPairs w) :=
    ((List.perm_insertionSort CommitLe _).trans hpairs).trans
      (List.perm_insertionSort CommitLe _).symm
  refine hperm.eq_of_pairwise (fun a b ha hb hab hba => ?_)
    (List.pairwise_insertionSort CommitLe _) (List.pairwise_insertionSort CommitLe _)
  have hkey : a.1 = b.1 := readsOff_bytes32.injective trivial trivial (List.le_antisymm hab hba)
  have hnodup : ((o.sortedPairs w).map Prod.fst).Nodup := by
    refine (((List.perm_insertionSort CommitLe _).map Prod.fst).nodup_iff).2 ?_
    simpa [Function.comp_def] using hcommits
  exact List.inj_on_of_nodup_map hnodup (hperm.subset ha) hb hkey

/-! ### The check -/

lemma ordered_iff : Ordered o x w width ↔
    w.transactions.map (·.txHash) = (o.shuffledPairs width x w).toList.map Prod.snd := by
  have hlength := (shuffledPairs_perm o width x w).length_eq
  simp only [List.length_map, Array.length_toList] at hlength
  rw [List.ext_getElem?_iff]
  refine forall_congr' fun i => ?_
  simp only [List.getElem?_map, Array.getElem?_toList]
  by_cases hi : i < w.transactions.length
  · simp [hi, eq_comm]
  · simp [hi, hlength]

/-- The shuffle returns a permutation of its list. Of the orders of transactions with distinct
hashes and distinct commitments the check accepts one, whichever of them is given. -/
theorem ordering_unique (o : StfOracles) (x : ZkPublicInputs) :
    (∀ (α : Type) (items : Array α) (seed : Bytes32) (height : UInt64),
      (o.randomizeOrdering 64 items seed height).Perm items) ∧
    ∀ w : StfPrivateInputs, (w.transactions.map (·.txHash)).Nodup →
      (w.transactions.map fun t => o.computeCommitHash t.revealNonce t.txHash).Nodup →
      ∃ order : List StfTxWitness, order.Perm w.transactions ∧
        ∀ given : List StfTxWitness, given.Perm w.transactions →
          (Host.checkOrdering o x { w with transactions := given } = .ok () ↔ given = order) := by
  refine ⟨fun _ items seed height => swapDown_perm seed height _ items, ?_⟩
  intro w hhashes hcommits
  obtain ⟨order, horder, hperm⟩ := (congrFun₂ (List.eq_map_comp_perm StfTxWitness.txHash) _ _).mpr
    (shuffledPairs_perm o 64 x w)
  refine ⟨order, hperm, fun given hgiven => ?_⟩
  have hpairs : o.shuffledPairs 64 x { w with transactions := given } = o.shuffledPairs 64 x w := by
    rw [shuffledPairs, sortedPairs_congr hcommits hgiven, shuffledPairs]
  rw [Host.checkOrdering_ok, ordered_iff, hpairs, horder]
  refine ⟨fun h => ?_, congrArg _⟩
  refine List.ext_getElem (hgiven.trans hperm.symm).length_eq fun i hi hj => ?_
  refine List.inj_on_of_nodup_map hhashes (hgiven.subset (List.getElem_mem hi))
    (hperm.subset (List.getElem_mem hj)) ?_
  simpa [hi, hj] using congrArg (·[i]?) h

theorem ordering_unique_two :
    ∃ order : List StfTxWitness, order.Perm [toyTx 1, toyTx 2] ∧
      ∀ given : List StfTxWitness, given.Perm [toyTx 1, toyTx 2] →
        (Host.checkOrdering toyOracles toyPublic (toyPrivate given []) = .ok () ↔
          given = order) :=
  (ordering_unique toyOracles toyPublic).2 (toyPrivate [toyTx 1, toyTx 2] [])
    (by decide) (by decide)

end Sxiaum.Zk
