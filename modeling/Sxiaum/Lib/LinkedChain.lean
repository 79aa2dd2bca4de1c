import Mathlib.Data.Set.Insert
import Mathlib.Order.Basic

/-!
# One chain above a root

A replica that keeps undecided blocks keeps a set of nodes, each with an identifier, the
identifier of its parent and a height. The set is *one chain above a root* if no two nodes
share a height and each node is linked to a node of the set one below it, or to the root
directly. The lemmas say how the chain survives dropping nodes at the top, replacing the
top, and moving the root up to one of the nodes.
-/

variable {β κ : Type*}

/-- The nodes of `S` form one chain above a root of height `base`; with `root = none` nothing
can be linked to the root. -/
structure LinkedChain (ident parent : β → κ) (height : β → ℕ) (root : Option κ) (base : ℕ)
    (S : Set β) : Prop where
  above : ∀ b ∈ S, base < height b
  unique : ∀ b ∈ S, ∀ b' ∈ S, height b = height b' → ident b = ident b'
  linked : ∀ b ∈ S, (∃ p ∈ S, ident p = parent b ∧ height b = height p + 1) ∨
    some (parent b) = root ∧ height b = base + 1

namespace LinkedChain

variable {ident parent : β → κ} {height : β → ℕ} {root : Option κ} {base : ℕ} {S S' : Set β}
  {b c : β}

lemma empty : LinkedChain ident parent height root base (∅ : Set β) where
  above := by simp
  unique := by simp
  linked := by simp

/-- `c` may be linked to the chain: to a node one below it or to the root. -/
def Links (ident parent : β → κ) (height : β → ℕ) (root : Option κ) (base : ℕ) (S : Set β)
    (c : β) : Prop :=
  (∃ p ∈ S, ident p = parent c ∧ height c = height p + 1) ∨
    some (parent c) = root ∧ height c = base + 1

lemma base_lt_of_links (h : LinkedChain ident parent height root base S)
    (hc : Links ident parent height root base S c) : base < height c := by
  rcases hc with ⟨p, hp, -, hh⟩ | ⟨-, hh⟩
  · have := h.above p hp
    omega
  · omega

/-- Two nodes linked to the chain at one height have one parent. -/
lemma parent_eq_of_links (h : LinkedChain ident parent height root base S)
    (hb : Links ident parent height root base S b)
    (hc : Links ident parent height root base S c) (hh : height b = height c) :
    parent b = parent c := by
  rcases hb with ⟨p, hp, hpb, hhb⟩ | ⟨hrb, hhb⟩ <;> rcases hc with ⟨q, hq, hqc, hhc⟩ | ⟨hrc, hhc⟩
  · rw [← hpb, ← hqc]
    exact h.unique p hp q hq (by omega)
  · have := h.above p hp
    omega
  · have := h.above q hq
    omega
  · exact Option.some.inj (hrb.trans hrc.symm)

/-- Two nodes linked to the chain by one parent have one height, if no node is the root. -/
lemma height_eq_of_links (hident : ∀ a b, ident a = ident b → height a = height b)
    (hroot : ∀ p ∈ S, some (ident p) ≠ root)
    (hb : Links ident parent height root base S b)
    (hc : Links ident parent height root base S c) (hp : parent b = parent c) :
    height b = height c := by
  rcases hb with ⟨p, hpS, hpb, hhb⟩ | ⟨hrb, hhb⟩ <;>
    rcases hc with ⟨q, hqS, hqc, hhc⟩ | ⟨hrc, hhc⟩
  · rw [hhb, hhc, hident p q (by rw [hpb, hqc, hp])]
  · exact absurd (by rw [hpb, hp, hrc]) (hroot p hpS)
  · exact absurd (by rw [hqc, ← hp, hrb]) (hroot q hqS)
  · rw [hhb, hhc]

section

variable (h : LinkedChain ident parent height root base S)

include h

/-- A node directly above the root has the root as its parent. -/
lemma parent_eq_root (hb : b ∈ S) (hh : height b = base + 1) : some (parent b) = root := by
  rcases h.linked b hb with ⟨p, hp, -, hhp⟩ | ⟨hr, -⟩
  · have := h.above p hp
    omega
  · exact hr

/-- Dropping nodes that have no node above them keeps the chain. -/
lemma subset (hsub : S' ⊆ S) (htop : ∀ b ∈ S, b ∉ S' → ∀ x ∈ S, height x ≤ height b) :
    LinkedChain ident parent height root base S' where
  above b hb := h.above b (hsub hb)
  unique b hb b' hb' := h.unique b (hsub hb) b' (hsub hb')
  linked b hb := by
    rcases h.linked b (hsub hb) with ⟨p, hp, hpb, hh⟩ | hr
    · by_cases hp' : p ∈ S'
      · exact .inl ⟨p, hp', hpb, hh⟩
      · have := htop p hp hp' b (hsub hb)
        omega
    · exact .inr hr

/-- Adding a linked node at a height no other node has; nodes with the identifier of the new
one may be replaced by it. -/
lemma insert (hident : ∀ a b, ident a = ident b → height a = height b)
    (hc : Links ident parent height root base S c)
    (hfree : ∀ b ∈ S, height b = height c → ident b = ident c)
    (hsub : S' ⊆ Insert.insert c S) (hmem : c ∈ S')
    (hkeep : ∀ b ∈ S, b ∈ S' ∨ ident b = ident c) :
    LinkedChain ident parent height root base S' := by
  have hlinks : ∀ b, Links ident parent height root base S b →
      Links ident parent height root base S' b := by
    rintro b (⟨p, hp, hpb, hh⟩ | hr)
    · rcases hkeep p hp with hp' | hid
      · exact .inl ⟨p, hp', hpb, hh⟩
      · refine .inl ⟨c, hmem, hid ▸ hpb, ?_⟩
        rw [hh, hident p c hid]
    · exact .inr hr
  constructor
  · intro b hb
    rcases hsub hb with rfl | hbS
    · exact h.base_lt_of_links hc
    · exact h.above b hbS
  · intro b hb b' hb' hh
    rcases hsub hb with rfl | hbS <;> rcases hsub hb' with rfl | hbS'
    · rfl
    · exact (hfree b' hbS' hh.symm).symm
    · exact hfree b hbS hh
    · exact h.unique b hbS b' hbS' hh
  · intro b hb
    rcases hsub hb with rfl | hbS
    · exact hlinks b hc
    · exact hlinks b (h.linked b hbS)

/-- Moving the root up to a node keeps the nodes above it on one chain. -/
lemma cut (hb : b ∈ S) (hsub : ∀ x, x ∈ S' ↔ x ∈ S ∧ height b < height x) :
    LinkedChain ident parent height (some (ident b)) (height b) S' where
  above x hx := ((hsub x).1 hx).2
  unique x hx y hy := h.unique x ((hsub x).1 hx).1 y ((hsub y).1 hy).1
  linked x hx := by
    obtain ⟨hxS, hlt⟩ := (hsub x).1 hx
    rcases h.linked x hxS with ⟨p, hp, hpx, hh⟩ | ⟨-, hh⟩
    · by_cases heq : height p = height b
      · exact .inr ⟨by rw [← hpx, h.unique p hp b hb heq], by omega⟩
      · exact .inl ⟨p, (hsub p).2 ⟨hp, by omega⟩, hpx, hh⟩
    · have := h.above b hb
      omega

end

end LinkedChain
