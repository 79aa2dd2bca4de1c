import Mathlib.Data.List.Basic

/-!
# Sequences of checks

A validator is a sequence of checks in `Except`: each one stops with a message or lets the
next one run. The lemmas say what a validator that has not stopped has established.
-/

namespace Guards

variable {ε α β : Type}

def bailIf (c : Prop) [Decidable c] (e : ε) : Except ε Unit := if c then .error e else .ok ()

@[simp] lemma bailIf_ok {c : Prop} [Decidable c] {e : ε} {u : Unit} : bailIf c e = .ok u ↔ ¬ c := by
  unfold bailIf
  split_ifs with h <;> simp [h]

/-- A sequence has not stopped if neither of its parts has. -/
@[simp] lemma bind_ok {x : Except ε α} {f : α → Except ε β} {b : β} :
    (x >>= f) = .ok b ↔ ∃ a, x = .ok a ∧ f a = .ok b := by
  cases x with
  | error e => simp [bind, Except.bind]
  | ok a => simp [bind, Except.bind]

@[simp] lemma pure_ok {a b : α} : (pure a : Except ε α) = .ok b ↔ a = b := by
  simp [pure, Except.pure]

@[simp] lemma throw_ok {e : ε} {b : α} : ¬ (throw e : Except ε α) = .ok b := by
  simp [throw, throwThe, MonadExceptOf.throw]

@[simp] lemma ite_throw_last {c : Prop} [Decidable c] {e : ε} {x : Except ε β} {b : β} :
    (if c then throw e else x) = .ok b ↔ ¬ c ∧ x = .ok b := by
  split_ifs with h <;> simp [h]

@[simp] lemma ite_throw_ok {c : Prop} [Decidable c] {e : ε} {f : α → Except ε β} {x : Except ε β}
    {b : β} : (if c then throw e >>= f else x) = .ok b ↔ ¬ c ∧ x = .ok b := by
  split_ifs with h <;> simp [h]

def found (x : Option α) (e : ε) : Except ε α :=
  match x with
  | some a => .ok a
  | none => .error e

@[simp] lemma found_ok {x : Option α} {e : ε} {a : α} : found x e = .ok a ↔ x = some a := by
  cases x <;> simp [found]

lemma exists_unit {p : Unit → Prop} : (∃ u, p u) ↔ p () :=
  ⟨fun ⟨(), h⟩ => h, fun h => ⟨(), h⟩⟩

lemma exists_ok {x : Except ε α} (h : x.toOption.isSome = true) : ∃ a, x = .ok a := by
  cases x with
  | error e => cases h
  | ok a => exact ⟨a, rfl⟩

/-- Rewording a message stops nothing and lets nothing through. -/
lemma mapError_eq_ok {ε' : Type} (x : Except ε α) (f : ε → ε') (a : α) :
    x.mapError f = .ok a ↔ x = .ok a := by
  rcases x with e | b <;> simp only [Except.mapError, reduceCtorEq, Except.ok.injEq]

/-! ### Loops -/

/-- Run a check on every element; the check knows the element's position. -/
def checkAll (f : ℕ → α → Except ε Unit) : ℕ → List α → Except ε Unit
  | _, [] => .ok ()
  | i, x :: xs => do
    f i x
    checkAll f (i + 1) xs

lemma checkAll_ok {f : ℕ → α → Except ε Unit} {i : ℕ} {xs : List α} {u : Unit} :
    checkAll f i xs = .ok u ↔ ∀ j x, xs[j]? = some x → f (i + j) x = .ok () := by
  induction xs generalizing i with
  | nil => simp [checkAll]
  | cons y ys ih =>
    simp only [checkAll, bind_ok, exists_unit, ih]
    constructor
    · rintro ⟨hy, hys⟩ j x hx
      cases j with
      | zero =>
        obtain rfl : y = x := by simpa using hx
        exact hy
      | succ j =>
        rw [List.getElem?_cons_succ] at hx
        rw [show i + (j + 1) = i + 1 + j by omega]
        exact hys j x hx
    · intro h
      refine ⟨h 0 y rfl, fun j x hx => ?_⟩
      rw [Nat.add_right_comm]
      exact h (j + 1) x hx

lemma checkAll_ok_iff_forall {p : α → Prop} {f : ℕ → α → Except ε Unit} {i : ℕ} {xs : List α}
    {u : Unit} (hf : ∀ i x, f i x = .ok () ↔ p x) : checkAll f i xs = .ok u ↔ ∀ x ∈ xs, p x := by
  rw [checkAll_ok]
  constructor
  · intro h x hx
    obtain ⟨j, hj⟩ := List.mem_iff_getElem?.1 hx
    exact (hf _ _).1 (h j x hj)
  · intro h j x hx
    exact (hf _ _).2 (h x (List.mem_of_getElem? hx))

lemma checkAll_bailIf {c : α → Prop} [DecidablePred c] {e : ℕ → α → ε} {i : ℕ} {xs : List α}
    {u : Unit} : checkAll (fun i x => bailIf (c x) (e i x)) i xs = .ok u ↔ ∀ x ∈ xs, ¬ c x :=
  checkAll_ok_iff_forall fun _ _ => bailIf_ok

/-- Run a test on every element until one fails. -/
def allHold (f : α → Except ε Bool) : List α → Except ε Bool
  | [] => .ok true
  | x :: xs => do
    let ok ← f x
    if ok then allHold f xs else .ok false

lemma allHold_true {f : α → Except ε Bool} {xs : List α} :
    allHold f xs = .ok true ↔ ∀ x ∈ xs, f x = .ok true := by
  induction xs with
  | nil => simp [allHold]
  | cons x xs ih =>
    simp only [allHold, bind_ok, List.forall_mem_cons]
    constructor
    · rintro ⟨ok, hx, hrest⟩
      split_ifs at hrest with hok
      · rw [hok] at hx
        exact ⟨hx, ih.1 hrest⟩
      · simp at hrest
    · rintro ⟨hx, hxs⟩
      exact ⟨true, hx, ih.2 hxs⟩

end Guards
