import Mathlib

/-!
# Merkle trees by levels

A tree is built level by level: nodes are hashed in pairs, an odd last node with a padding node,
until one is left. Where pairs, padding and the nodes of the first level can be told apart, the
last node determines the first level, and a path of siblings that leads to it starts at a node
of the first level. Where only pairs and padding can be told apart, two levels that end alike are
levels of one tree.
-/

/-- How the nodes of a tree are made; a first level consists of fresh nodes. -/
structure Merkle (H : Type) where
  pair : H → H → H
  pad : H
  Fresh : H → Prop

namespace Merkle

variable {H : Type} (t : Merkle H)

def pairUp : List H → List (H × H)
  | [] => []
  | [a] => [(a, t.pad)]
  | a :: b :: rest => (a, b) :: pairUp rest

def nextLevel (level : List H) : List H := (t.pairUp level).map fun p => t.pair p.1 p.2

@[simp] lemma length_pairUp (level : List H) :
    (t.pairUp level).length = (level.length + 1) / 2 := by
  fun_induction pairUp t level <;> grind

@[simp] lemma length_nextLevel (level : List H) :
    (t.nextLevel level).length = (level.length + 1) / 2 := by simp [nextLevel]

/-- The level at which the construction ends. -/
def topLevel (level : List H) : List H :=
  if level.length ≤ 1 then level else topLevel (t.nextLevel level)
termination_by level.length
decreasing_by simp; omega

/-- The node reached from a node at an index by hashing it with siblings. -/
def walk : H → ℕ → List H → H
  | node, _, [] => node
  | node, index, sibling :: siblings =>
    walk (if index % 2 = 0 then t.pair node sibling else t.pair sibling node) (index / 2) siblings

def sibling (level : List H) (index : ℕ) : H :=
  level[if index % 2 = 0 then index + 1 else index - 1]?.getD t.pad

def siblings (level : List H) (index : ℕ) : List H :=
  if level.length ≤ 1 then []
  else t.sibling level index :: siblings (t.nextLevel level) (index / 2)
termination_by level.length
decreasing_by simp; omega

variable {t} {level level' : List H} {index k m : ℕ} {x : H}

lemma topLevel_of_le (h : level.length ≤ 1) : t.topLevel level = level := by
  rw [topLevel, if_pos h]

lemma topLevel_of_lt (h : ¬ level.length ≤ 1) :
    t.topLevel level = t.topLevel (t.nextLevel level) := by
  rw [topLevel, if_neg h]

lemma topLevel_eq_singleton (hne : level ≠ []) (d : H) :
    t.topLevel level = [(t.topLevel level).headD d] := by
  fun_induction topLevel t level with
  | case1 level h =>
    obtain ⟨r, rfl⟩ := List.length_eq_one_iff.1 (h.antisymm (List.length_pos_of_ne_nil hne))
    rfl
  | case2 level h ih =>
    exact ih (List.ne_nil_of_length_pos (by rw [length_nextLevel]; omega))

/-! ### Positions -/

lemma getElem?_pairUp (level : List H) (j : ℕ) :
    (t.pairUp level)[j]? = level[2 * j]?.map fun a => (a, level[2 * j + 1]?.getD t.pad) := by
  fun_induction pairUp t level generalizing j with
  | case1 => rfl
  | case2 a => cases j <;> rfl
  | case3 a b rest ih =>
    cases j with
    | zero => rfl
    | succ j => exact ih j

lemma getElem?_pairUp_half (hx : level[index]? = some x) : (t.pairUp level)[index / 2]? =
    some (if index % 2 = 0 then (x, t.sibling level index) else (t.sibling level index, x)) := by
  have hlt : index < level.length := (List.getElem?_eq_some_iff.1 hx).1
  rw [getElem?_pairUp, sibling]
  split_ifs with h
  · rw [show 2 * (index / 2) = index by omega, hx]
    rfl
  · rw [show 2 * (index / 2) = index - 1 by omega, show index - 1 + 1 = index by omega, hx,
      List.getElem?_eq_getElem (by omega)]
    rfl

lemma getElem?_nextLevel (level : List H) (j : ℕ) : (t.nextLevel level)[j]? =
    level[2 * j]?.map fun a => t.pair a (level[2 * j + 1]?.getD t.pad) := by
  rw [nextLevel, List.getElem?_map, getElem?_pairUp, Option.map_map]
  rfl

lemma getElem?_nextLevel_half (hx : level[index]? = some x) : (t.nextLevel level)[index / 2]? =
    some (t.walk x index [t.sibling level index]) := by
  rw [nextLevel, List.getElem?_map, getElem?_pairUp_half hx, walk]
  split_ifs <;> rfl

/-- The siblings of a node lead from it to the end of its level. -/
lemma topLevel_eq_walk (hx : level[index]? = some x) :
    t.topLevel level = [t.walk x index (t.siblings level index)] := by
  fun_induction siblings t level index generalizing x with
  | case1 level index h =>
    have hlt : index < level.length := (List.getElem?_eq_some_iff.1 hx).1
    obtain ⟨y, rfl⟩ := List.length_eq_one_iff.1 (h.antisymm (Nat.zero_lt_of_lt hlt))
    obtain rfl : index = 0 := Nat.lt_one_iff.1 hlt
    obtain rfl : y = x := Option.some.inj hx
    exact topLevel_of_le h
  | case2 level index h ih => exact (topLevel_of_lt h).trans (ih (getElem?_nextLevel_half hx))

/-! ### Nodes that can be told apart -/

/-- Pairs are collision free; padding, pairs and fresh nodes differ. -/
structure Separated (t : Merkle H) : Prop where
  pair_inj : ∀ {a b c d}, t.pair a b = t.pair c d → a = c ∧ b = d
  pair_ne_pad : ∀ {a b}, t.pair a b ≠ t.pad
  not_fresh_pad : ¬ t.Fresh t.pad
  not_fresh_pair : ∀ {a b}, ¬ t.Fresh (t.pair a b)

/-- The nodes that a number of steps leads to from a fresh node. -/
def Above (t : Merkle H) : ℕ → H → Prop
  | 0, x => t.Fresh x
  | k + 1, x => ∃ a b, x = t.pair a b ∧ (t.Above k a ∨ t.Above k b)

lemma Above.walk : ∀ {k : ℕ} {x : H} (index : ℕ) (siblings : List H), t.Above k x →
    t.Above (k + siblings.length) (t.walk x index siblings)
  | _, _, _, [], h => h
  | k, x, index, sibling :: siblings, h => by
    have hstep : t.Above (k + 1)
        (if index % 2 = 0 then t.pair x sibling else t.pair sibling x) := by
      split_ifs
      · exact ⟨x, sibling, rfl, .inl h⟩
      · exact ⟨sibling, x, rfl, .inr h⟩
    have hwalk := Above.walk (index / 2) siblings hstep
    rwa [Nat.add_assoc, Nat.add_comm 1] at hwalk

/-- Every path from a fresh node to the node has this length. -/
def Height (t : Merkle H) (k : ℕ) (x : H) : Prop := ∀ m, t.Above m x ↔ m = k

namespace Separated

variable (hsep : t.Separated)

include hsep

lemma ne_pad (h : t.Above k x) : x ≠ t.pad := by
  rintro rfl
  cases k with
  | zero => exact hsep.not_fresh_pad h
  | succ k =>
    obtain ⟨a, b, hpad, -⟩ := h
    exact hsep.pair_ne_pad hpad.symm

lemma height_fresh (h : t.Fresh x) : t.Height 0 x := by
  rintro (_ | m)
  · exact iff_of_true h rfl
  · refine iff_of_false ?_ (Nat.succ_ne_zero m)
    rintro ⟨a, b, rfl, -⟩
    exact hsep.not_fresh_pair h

lemma height_nextLevel (h : ∀ x ∈ level, t.Height k x) :
    ∀ x ∈ t.nextLevel level, t.Height (k + 1) x := by
  intro x hx m
  obtain ⟨j, hj⟩ := List.mem_iff_getElem?.1 hx
  rw [getElem?_nextLevel, Option.map_eq_some_iff] at hj
  obtain ⟨a, ha, rfl⟩ := hj
  have ha := h a (List.mem_of_getElem? ha)
  cases m with
  | zero => exact iff_of_false hsep.not_fresh_pair (Nat.succ_ne_zero k).symm
  | succ m =>
    rw [Nat.add_right_cancel_iff]
    refine ⟨?_, fun hm => ⟨a, _, rfl, .inl ((ha m).2 hm)⟩⟩
    rintro ⟨a', b', hpair, hcase⟩
    obtain ⟨rfl, hb⟩ := hsep.pair_inj hpair
    obtain ha' | hb' := hcase
    · exact (ha m).1 ha'
    · cases hsecond : level[2 * j + 1]? with
      | none => exact absurd (by rw [← hb, hsecond]; rfl) (hsep.ne_pad hb')
      | some b =>
        rw [hsecond, Option.getD_some] at hb
        exact (h b (List.mem_of_getElem? hsecond) m).1 (hb ▸ hb')

lemma topLevel_eq (hx : t.Above m x) (h : (t.topLevel level).headD t.pad = x) :
    t.topLevel level = [x] := by
  by_cases hne : level = []
  · rw [hne, topLevel_of_le (by simp)] at h
    exact absurd h.symm (hsep.ne_pad hx)
  · rw [topLevel_eq_singleton hne t.pad, h]

/-- A level ends at its height or above. -/
lemma le_of_above (h : ∀ x ∈ level, t.Height k x) (hx : x ∈ t.topLevel level)
    (hm : t.Above m x) : k ≤ m := by
  fun_induction topLevel t level generalizing k with
  | case1 level _ => exact ((h x hx m).1 hm).ge
  | case2 level _ ih => exact Nat.le_of_succ_le (ih (hsep.height_nextLevel h) hx)

/-- A path of any siblings that leads to the end of a level is as long as the level needs, and
starts at the node whose position the low bits of the index give. -/
lemma getElem?_of_walk : ∀ {k : ℕ} {level : List H} {x : H} (index : ℕ) (siblings : List H),
    (∀ y ∈ level, t.Height k y) → t.Above k x →
    (t.topLevel level).headD t.pad = t.walk x index siblings →
    level[index % 2 ^ siblings.length]? = some x ∧ level.length ≤ 2 ^ siblings.length
  | k, level, x, index, [], h, hx, htop => by
    replace htop := hsep.topLevel_eq hx htop
    have hlen : level.length ≤ 1 := by
      by_contra hlen
      rw [topLevel_of_lt hlen] at htop
      have := hsep.le_of_above (hsep.height_nextLevel h) (htop ▸ List.mem_singleton.2 rfl) hx
      omega
    rw [topLevel_of_le hlen] at htop
    refine ⟨?_, hlen⟩
    rw [htop, List.length_nil, pow_zero, Nat.mod_one]
    rfl
  | k, level, x, index, sibling :: siblings, h, hx, htop => by
    have hwalk := hx.walk index (sibling :: siblings)
    have hlen : ¬ level.length ≤ 1 := by
      intro hlen
      have hmem := hsep.topLevel_eq hwalk htop ▸ List.mem_singleton.2 rfl
      rw [topLevel_of_le hlen] at hmem
      have := (h _ hmem _).1 hwalk
      rw [List.length_cons] at this
      omega
    rw [topLevel_of_lt hlen, Merkle.walk] at htop
    obtain ⟨hnext, hle⟩ := getElem?_of_walk _ siblings (hsep.height_nextLevel h)
      (hx.walk index [sibling]) htop
    rw [length_nextLevel] at hle
    rw [getElem?_nextLevel, Option.map_eq_some_iff] at hnext
    obtain ⟨a, ha, hpair⟩ := hnext
    rw [List.length_cons, pow_succ', Nat.mod_mul]
    refine ⟨?_, by omega⟩
    rw [Merkle.walk, Merkle.walk] at hpair
    split_ifs at hpair with hparity
    · obtain ⟨rfl, -⟩ := hsep.pair_inj hpair
      rwa [hparity, Nat.zero_add]
    · obtain ⟨-, hb⟩ := hsep.pair_inj hpair
      rw [Nat.mod_two_ne_zero.1 hparity, Nat.add_comm]
      cases hsecond : level[2 * (index / 2 % 2 ^ siblings.length) + 1]? with
      -- the sibling that pads an odd level is no node
      | none => exact absurd (by rw [← hb, hsecond]; rfl) (hsep.ne_pad hx)
      | some b => rw [← hb, hsecond, Option.getD_some]

/-- A level of fresh nodes that ends like another one has its nodes. -/
lemma getElem?_of_headD (h : ∀ x ∈ level, t.Fresh x) (h' : ∀ x ∈ level', t.Fresh x)
    (htop : (t.topLevel level).headD t.pad = (t.topLevel level').headD t.pad)
    (hx : level[index]? = some x) : level'[index]? = some x := by
  have hfresh := h x (List.mem_of_getElem? hx)
  have hwalk : (t.topLevel level).headD t.pad = t.walk x index (t.siblings level index) := by
    rw [topLevel_eq_walk hx, List.headD_cons]
  have hle := (hsep.getElem?_of_walk _ _ (fun y hy => hsep.height_fresh (h y hy)) hfresh hwalk).2
  have hat := (hsep.getElem?_of_walk _ _ (fun y hy => hsep.height_fresh (h' y hy)) hfresh
    (htop ▸ hwalk)).1
  rwa [Nat.mod_eq_of_lt ((List.getElem?_eq_some_iff.1 hx).1.trans_le hle)] at hat

/-- The last node determines a level of fresh nodes. -/
lemma headD_inj (h : ∀ x ∈ level, t.Fresh x) (h' : ∀ x ∈ level', t.Fresh x)
    (htop : (t.topLevel level).headD t.pad = (t.topLevel level').headD t.pad) : level = level' :=
  List.ext_getElem? fun _ => Option.ext fun _ =>
    ⟨hsep.getElem?_of_headD h h' htop, hsep.getElem?_of_headD h' h htop.symm⟩

end Separated

/-! ### Levels that end alike -/

/-- The levels that the construction goes through. -/
inductive Leads (t : Merkle H) : List H → List H → Prop
  | refl (level : List H) : Leads t level level
  | step {level level' : List H} : ¬ level.length ≤ 1 → Leads t (t.nextLevel level) level' →
    Leads t level level'

/-- The second level is the first one, or has the padding node written out at its end. -/
def Fills (t : Merkle H) (level level' : List H) : Prop :=
  level' = level ∨ 1 < level.length ∧ level.length % 2 = 1 ∧ level' = level ++ [t.pad]

lemma pairUp_append_pad : ∀ {level : List H}, level.length % 2 = 1 →
    t.pairUp (level ++ [t.pad]) = t.pairUp level
  | [], h => by cases h
  | [_], _ => rfl
  | a :: b :: rest, h => by
    rw [List.length_cons, List.length_cons] at h
    exact congrArg ((a, b) :: ·) (pairUp_append_pad (by omega))

lemma eq_nil_of_pairUp_eq_nil (h : t.pairUp level = []) : level = [] := by
  have hlen := congrArg List.length h
  rw [length_pairUp, List.length_nil] at hlen
  exact List.length_eq_zero_iff.1 (by omega)

/-- Two levels with the same pairs differ at most in the padding node at their ends. -/
lemma eq_of_pairUp_eq : ∀ {level level' : List H}, t.pairUp level = t.pairUp level' →
    level = level' ∨ level.length % 2 = 1 ∧ level' = level ++ [t.pad] ∨
      level'.length % 2 = 1 ∧ level = level' ++ [t.pad]
  | [], [], _ => .inl rfl
  | [], [_], h | [], _ :: _ :: _, h | [_], [], h | _ :: _ :: _, [], h => by cases h
  | [a], [b], h => by
    cases h
    exact .inl rfl
  | [a], b :: c :: rest, h => by
    obtain ⟨hpair, hrest⟩ := List.cons.inj h
    obtain rfl := eq_nil_of_pairUp_eq_nil hrest.symm
    cases hpair
    exact .inr (.inl ⟨rfl, rfl⟩)
  | a :: b :: rest, [c], h => by
    obtain ⟨hpair, hrest⟩ := List.cons.inj h
    obtain rfl := eq_nil_of_pairUp_eq_nil hrest
    cases hpair
    exact .inr (.inr ⟨rfl, rfl⟩)
  | a :: b :: rest, c :: d :: rest', h => by
    obtain ⟨hpair, hrest⟩ := List.cons.inj h
    cases hpair
    rcases eq_of_pairUp_eq hrest with rfl | ⟨hodd, rfl⟩ | ⟨hodd, rfl⟩
    · exact .inl rfl
    · exact .inr (.inl ⟨by rw [List.length_cons, List.length_cons]; omega, rfl⟩)
    · exact .inr (.inr ⟨by rw [List.length_cons, List.length_cons]; omega, rfl⟩)

lemma Leads.topLevel_eq (h : t.Leads level level') : t.topLevel level = t.topLevel level' := by
  induction h with
  | refl => rfl
  | step hlen _ ih => rw [topLevel_of_lt hlen, ih]

lemma leads_topLevel (level : List H) : t.Leads level (t.topLevel level) := by
  fun_induction topLevel t level with
  | case1 level h => exact .refl level
  | case2 level h ih => exact .step h ih

lemma Fills.topLevel_eq (h : t.Fills level level') : t.topLevel level = t.topLevel level' := by
  rcases h with rfl | ⟨hlen, hodd, rfl⟩
  · rfl
  · have hlen' : ¬ (level ++ [t.pad]).length ≤ 1 := by
      rw [List.length_append, List.length_singleton]
      omega
    rw [topLevel_of_lt (by omega : ¬ level.length ≤ 1), topLevel_of_lt hlen', nextLevel, nextLevel,
      pairUp_append_pad hodd]

/-- A level on the way up from the next one has a level before it on the way up. -/
lemma Leads.exists_prev (hlen : ¬ level.length ≤ 1) (h : t.Leads (t.nextLevel level) level') :
    ∃ prev, t.Leads level prev ∧ 1 < prev.length ∧ t.nextLevel prev = level' ∧
      (prev = level ∨ ∃ first, prev = t.nextLevel first) := by
  generalize hnext : t.nextLevel level = next at h
  induction h generalizing level with
  | refl => exact ⟨level, .refl level, by omega, hnext, .inl rfl⟩
  | step hlen' _ ih =>
    subst hnext
    obtain ⟨prev, hleads, hprev, heq, hcase⟩ := ih hlen' rfl
    refine ⟨prev, .step hlen hleads, hprev, heq, .inr ?_⟩
    rcases hcase with rfl | hfirst
    · exact ⟨level, rfl⟩
    · exact hfirst

/-- One of two levels is reached from the other, up to the padding node. -/
def Overlap (t : Merkle H) (level level' : List H) : Prop :=
  (∃ upper, t.Leads level upper ∧ t.Fills upper level') ∨
    ∃ upper, t.Leads level' upper ∧ t.Fills upper level

lemma Overlap.symm (h : t.Overlap level level') : t.Overlap level' level := Or.symm h

namespace Separated

variable (hsep : t.Separated)

include hsep

lemma pad_notMem_nextLevel (level : List H) : t.pad ∉ t.nextLevel level := by
  intro h
  obtain ⟨p, -, hp⟩ := List.mem_map.1 h
  exact hsep.pair_ne_pad hp

lemma pairUp_eq_of_nextLevel_eq (h : t.nextLevel level = t.nextLevel level') :
    t.pairUp level = t.pairUp level' :=
  List.map_injective_iff.2 (fun _ _ hp => Prod.ext_iff.2 (hsep.pair_inj hp)) h

/-- If the next level of one leads to the next level of the other, the levels overlap. -/
lemma overlap_of_nextLevel (hlen : ¬ level.length ≤ 1) (hlen' : ¬ level'.length ≤ 1)
    {upper : List H} (hleads : t.Leads (t.nextLevel level) upper)
    (hfills : t.Fills upper (t.nextLevel level')) : t.Overlap level level' := by
  -- a next level has no padding node in it
  have hupper : t.nextLevel level' = upper := by
    rcases hfills with h | ⟨-, -, h⟩
    · exact h
    · exact absurd (h ▸ List.mem_append_right _ (List.mem_singleton.2 rfl))
        (hsep.pad_notMem_nextLevel level')
  obtain ⟨prev, hprev, hlen₁, hnext, hcase⟩ := hleads.exists_prev hlen
  rcases eq_of_pairUp_eq (hsep.pairUp_eq_of_nextLevel_eq (hnext.trans hupper.symm)) with
    rfl | ⟨hodd, rfl⟩ | ⟨hodd, rfl⟩
  · exact .inl ⟨prev, hprev, .inl rfl⟩
  · exact .inl ⟨prev, hprev, .inr ⟨hlen₁, hodd, rfl⟩⟩
  · rcases hcase with rfl | ⟨first, hfirst⟩
    · exact .inr ⟨level', .refl level', .inr ⟨by omega, hodd, rfl⟩⟩
    · exact absurd (hfirst ▸ List.mem_append_right _ (List.mem_singleton.2 rfl))
        (hsep.pad_notMem_nextLevel first)

/-- Two levels end alike exactly if they overlap. -/
theorem topLevel_eq_iff :
    t.topLevel level = t.topLevel level' ↔ t.Overlap level level' := by
  constructor
  · intro h
    fun_induction topLevel t level generalizing level' with
    | case1 level hlen =>
      exact .inr ⟨_, leads_topLevel level', .inl h⟩
    | case2 level hlen ih =>
      by_cases hlen' : level'.length ≤ 1
      · rw [topLevel_of_le hlen'] at h
        exact .inl ⟨_, .step hlen (leads_topLevel _), .inl h.symm⟩
      · rw [topLevel_of_lt hlen'] at h
        rcases ih h with ⟨upper, hleads, hfills⟩ | ⟨upper, hleads, hfills⟩
        · exact hsep.overlap_of_nextLevel hlen hlen' hleads hfills
        · exact (hsep.overlap_of_nextLevel hlen' hlen hleads hfills).symm
  · rintro (⟨upper, hleads, hfills⟩ | ⟨upper, hleads, hfills⟩)
    · rw [hleads.topLevel_eq, hfills.topLevel_eq]
    · rw [hleads.topLevel_eq, hfills.topLevel_eq]

end Separated

end Merkle
