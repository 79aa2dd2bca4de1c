import Mathlib.Logic.Relation
import Mathlib.Data.List.Chain

/-!
# Hash-linked nodes

Every node names the identifier of its parent and has a height; the identifier of a node may be
missing. A *log* lies on one chain if each entry descends from all the entries before it,
through nodes that need not be in the log, at heights that never go down.
-/

namespace HashChain

variable {β κ : Type*} (ident : β → Option κ) (parent : β → κ)

/-- `b` names `a` as its parent. -/
def Child (a b : β) : Prop := ident a = some (parent b)

/-- `b` is `a`, or a descendant of it. -/
def Descends : β → β → Prop := Relation.ReflTransGen (Child ident parent)

/-- `b` descends from a child of the node that `root` identifies. -/
def Above (root : κ) (b : β) : Prop := ∃ a, parent a = root ∧ Descends ident parent a b

variable (height : β → ℕ)

/-- `b` is `a` or a descendant, at no lower height. -/
def Extends (a b : β) : Prop := Descends ident parent a b ∧ height a ≤ height b

/-- Every entry extends the ones before it. -/
def OnOneChain (log : List β) : Prop := log.Pairwise (Extends ident parent height)

variable {ident parent height} {a b c : β} {root : κ} {log : List β}

lemma Child.descends (h : Child ident parent a b) : Descends ident parent a b :=
  Relation.ReflTransGen.single h

lemma Above.trans (h : Above ident parent root a) (hab : Descends ident parent a b) :
    Above ident parent root b := by
  obtain ⟨c, hc, hca⟩ := h
  exact ⟨c, hc, hca.trans hab⟩

lemma Extends.trans (hab : Extends ident parent height a b)
    (hbc : Extends ident parent height b c) : Extends ident parent height a c :=
  ⟨hab.1.trans hbc.1, hab.2.trans hbc.2⟩

/-- The last entry decides what extends the log. -/
lemma OnOneChain.snoc (h : OnOneChain ident parent height log)
    (hlast : ∀ a, log.getLast? = some a → Extends ident parent height a b) :
    OnOneChain ident parent height (log ++ [b]) := by
  refine List.pairwise_append.2 ⟨h, List.pairwise_singleton _ _, ?_⟩
  intro c hc d hd
  obtain rfl := List.mem_singleton.1 hd
  obtain rfl | ⟨front, last, rfl⟩ := List.eq_nil_or_concat' log
  · cases hc
  · have hext : Extends ident parent height last d := hlast last List.getLast?_concat
    rcases List.mem_append.1 hc with hfront | hc
    · have hbefore := (List.pairwise_append.1 h).2.2 c hfront last List.mem_cons_self
      exact hbefore.trans hext
    · obtain rfl := List.mem_singleton.1 hc
      exact hext

/-- The first entry decides whether the log is above a root. -/
lemma OnOneChain.above_iff (h : OnOneChain ident parent height log) {base : ℕ} :
    (∀ b ∈ log, Above ident parent root b ∧ base < height b) ↔
      ∀ b, log.head? = some b → Above ident parent root b ∧ base < height b := by
  constructor
  · intro hall b hb
    exact hall b (List.mem_of_head? hb)
  · intro hhead b hb
    cases log with
    | nil => cases hb
    | cons first rest =>
      obtain ⟨habove, hheight⟩ := hhead first rfl
      rcases List.mem_cons.1 hb with rfl | hb
      · exact ⟨habove, hheight⟩
      · obtain ⟨hdesc, hle⟩ := List.rel_of_pairwise_cons h hb
        exact ⟨habove.trans hdesc, hheight.trans_le hle⟩

/-! ### Ancestry -/

/-- Where related nodes have related parents, chains of one length with related ends are related
all along. -/
lemma forall₂_of_isChain {R E : β → β → Prop}
    (hback : ∀ {a b a' b'}, R a b → R a' b' → E b b' → E a a') {l l' : List β}
    (hlength : l.length = l'.length) (hl : l.IsChain R) (hl' : l'.IsChain R)
    (hlast : ∀ a a', l.getLast? = some a → l'.getLast? = some a' → E a a') :
    List.Forall₂ E l l' := by
  induction l generalizing l' with
  | nil =>
    obtain rfl := List.length_eq_zero_iff.1 hlength.symm
    exact .nil
  | cons a rest ih =>
    cases l' with
    | nil => cases hlength
    | cons a' rest' =>
      have hrest : rest.length = rest'.length := Nat.succ.inj hlength
      match rest, rest', hrest with
      | [], [], _ => exact .cons (hlast a a' rfl rfl) .nil
      | b :: l, b' :: l', hrest =>
        rw [List.getLast?_cons_cons, List.getLast?_cons_cons] at hlast
        obtain ⟨hab, hl⟩ := List.isChain_cons_cons.1 hl
        obtain ⟨hab', hl'⟩ := List.isChain_cons_cons.1 hl'
        have htail := ih hrest hl hl' hlast
        exact .cons (hback hab hab' (List.forall₂_cons.1 htail).1) htail

end HashChain
