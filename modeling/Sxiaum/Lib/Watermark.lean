import Mathlib.Logic.Relation
import Mathlib.Order.Lattice

/-!
# Tables under a watermark

A table with a mark up to which its rows are final. The mark only moves up; a final row
stays as it is, or is removed once it lies below the mark, and is then not filled again.
`Protects` is this relation between an earlier and a later table; it is transitive, so that
it holds along a run if it holds at each step.
-/

namespace Watermark

variable {κ ν : Type} [LinearOrder κ] {mark mark' mark'' : Option κ} {old new newer : κ → Option ν}

/-- What may become of the rows up to the mark `f` when the mark moves to `f'`. A row at the
mark that is still empty may be filled. -/
structure Kept (f f' : κ) (old new : κ → Option ν) : Prop where
  le : f ≤ f'
  row : ∀ h ≤ f, new h = old h ∨ new h = none ∧ h < f' ∨ old h = none ∧ h = f

/-- Before there is a mark nothing is protected. -/
def Protects (mark mark' : Option κ) (old new : κ → Option ν) : Prop :=
  ∀ f ∈ mark, ∃ f' ∈ mark', Kept f f' old new

/-- Writing this row breaks no protection. -/
def Writable (mark : Option κ) (table : κ → Option ν) (h : κ) (x : ν) : Prop :=
  ∀ f ∈ mark, f < h ∨ table h = some x ∨ table h = none ∧ h = f

/-! ### Composition -/

lemma Kept.trans {f f' f'' : κ} (h : Kept f f' old new) (h' : Kept f' f'' new newer) :
    Kept f f'' old newer := by
  refine ⟨h.le.trans h'.le, fun k hk => ?_⟩
  rcases h.row k hk with hsame | ⟨hgone, hlt⟩ | hfilled
  · rcases h'.row k (hk.trans h.le) with hsame' | ⟨hgone', hlt'⟩ | ⟨hempty, hmark⟩
    · exact .inl (hsame'.trans hsame)
    · exact .inr (.inl ⟨hgone', hlt'⟩)
    · exact .inr (.inr ⟨hsame ▸ hempty, le_antisymm hk (hmark ▸ h.le)⟩)
  · -- a removed row lies below the mark and is not filled again
    rcases h'.row k (hk.trans h.le) with hsame' | ⟨hgone', hlt'⟩ | ⟨-, hmark⟩
    · exact .inr (.inl ⟨hsame'.trans hgone, hlt.trans_le h'.le⟩)
    · exact .inr (.inl ⟨hgone', hlt'⟩)
    · exact absurd hmark hlt.ne
  · exact .inr (.inr hfilled)

lemma Protects.refl (mark : Option κ) (table : κ → Option ν) : Protects mark mark table table :=
  fun f hf => ⟨f, hf, le_rfl, fun _ _ => .inl rfl⟩

lemma Protects.trans (h : Protects mark mark' old new) (h' : Protects mark' mark'' new newer) :
    Protects mark mark'' old newer := by
  intro f hf
  obtain ⟨f', hf', hkept⟩ := h f hf
  obtain ⟨f'', hf'', hkept'⟩ := h' f' hf'
  exact ⟨f'', hf'', hkept.trans hkept'⟩

/-! ### Steps -/

lemma protects_raise {f' : κ} {table : κ → Option ν} :
    Protects mark (some f') table table ↔ ∀ f ∈ mark, f ≤ f' := by
  constructor
  · intro h f hf
    obtain ⟨_, ⟨⟩, hkept⟩ := h f hf
    exact hkept.le
  · intro h f hf
    exact ⟨f', rfl, h f hf, fun _ _ => .inl rfl⟩

lemma protects_write {k : κ} {x : ν} (hk : new k = some x) (hne : ∀ h, h ≠ k → new h = old h) :
    Protects mark mark old new ↔ Writable mark old k x := by
  constructor
  · intro h f hf
    obtain ⟨f', hf', hkept⟩ := h f hf
    obtain rfl : f = f' := Option.mem_unique hf hf'
    rcases lt_or_ge f k with hlt | hle
    · exact .inl hlt
    · rcases hkept.row k hle with hsame | ⟨hgone, -⟩ | hfilled
      · exact .inr (.inl (hsame.symm.trans hk))
      · rw [hk] at hgone
        nomatch hgone
      · exact .inr (.inr hfilled)
  · intro h f hf
    refine ⟨f, hf, le_rfl, fun j hj => ?_⟩
    by_cases hjk : j = k
    · subst hjk
      rcases h f hf with hlt | hsame | hfilled
      · exact absurd hj hlt.not_ge
      · exact .inl (hk.trans hsame.symm)
      · exact .inr (.inr hfilled)
    · exact .inl (hne j hjk)

lemma Protects.row {f h : κ} {x : ν} (hprotects : Protects mark mark' old new) (hf : f ∈ mark)
    (hle : h ≤ f) (hx : old h = some x) :
    ∃ f' ∈ mark', f ≤ f' ∧ (new h = some x ∨ new h = none ∧ h < f') := by
  obtain ⟨f', hf', hkept⟩ := hprotects f hf
  refine ⟨f', hf', hkept.le, ?_⟩
  rcases hkept.row h hle with hsame | hgone | ⟨hempty, -⟩
  · exact .inl (hsame.trans hx)
  · exact .inr hgone
  · rw [hempty] at hx
    nomatch hx

/-! ### Runs -/

/-- A relation between states that composes and holds at each step holds along a run. -/
lemma run_of_step {σ : Type} {r R : σ → σ → Prop} (hrefl : ∀ s, R s s)
    (htrans : ∀ s t u, R s t → R t u → R s u) (hstep : ∀ s t, r s t → R s t) {s t : σ}
    (h : Relation.ReflTransGen r s t) : R s t := by
  induction h with
  | refl => exact hrefl s
  | tail _ hlast ih => exact htrans _ _ _ ih (hstep _ _ hlast)

end Watermark
