import Mathlib.Data.List.Basic

/-!
# Programs that change a state and may fail

A program that stops with an error keeps the changes it has made. `Runs` says that a program
comes to its end, with a value and in a state; the lemmas take a run apart along the program.
`Keeps` says that a program leaves an invariant intact, whether it comes to its end or not.
-/

/-- A computation over a state that may stop with an error. -/
abbrev StateProgram (σ ε : Type) := ExceptT ε (StateM σ)

namespace StateProgram

variable {σ ε α β : Type} {s s' : σ}

/-- The program started in `s` comes to its end with `a` in `s'`. -/
def Runs (p : StateProgram σ ε α) (s : σ) (a : α) (s' : σ) : Prop := p.run s = (.ok a, s')

variable {p : StateProgram σ ε α}

lemma Runs.unique {a b : α} {s₁ s₂ : σ} (h₁ : Runs p s a s₁)
    (h₂ : Runs p s b s₂) : a = b ∧ s₁ = s₂ := by
  obtain ⟨hab, hs⟩ := Prod.mk.inj (Eq.trans (Eq.symm h₁) h₂)
  exact ⟨Except.ok.inj hab, hs⟩

@[simp] lemma runs_pure {a b : α} : Runs (pure a : StateProgram σ ε α) s b s' ↔ a = b ∧ s = s' := by
  change ((Except.ok a : Except ε α), s) = (.ok b, s') ↔ _
  simp

@[simp] lemma runs_throw {e : ε} {a : α} : ¬ Runs (throw e : StateProgram σ ε α) s a s' := by
  intro h
  cases h

@[simp] lemma runs_bind {f : α → StateProgram σ ε β} {b : β} :
    Runs (p >>= f) s b s' ↔ ∃ a s₁, Runs p s a s₁ ∧ Runs (f a) s₁ b s' := by
  have hrun : (p >>= f).run s = match p.run s with
      | (x, s₁) => ExceptT.bindCont f x s₁ := rfl
  rw [Runs, hrun]
  rcases hp : p.run s with ⟨e | a, s₁⟩
  · constructor
    · intro h
      cases h
    · rintro ⟨a, s₂, h, -⟩
      rw [Runs, hp] at h
      cases h
  · refine ⟨fun h => ⟨a, s₁, hp, h⟩, ?_⟩
    rintro ⟨a', s₂, h, hf⟩
    rw [Runs, hp] at h
    cases h
    exact hf

@[simp] lemma runs_get {a : σ} : Runs (get : StateProgram σ ε σ) s a s' ↔ s = a ∧ s = s' := by
  change ((Except.ok s : Except ε σ), s) = (.ok a, s') ↔ _
  simp

@[simp] lemma runs_set {t : σ} {u : PUnit} :
    Runs (set t : StateProgram σ ε PUnit) s u s' ↔ t = s' := by
  change ((Except.ok PUnit.unit : Except ε PUnit), t) = (.ok u, s') ↔ _
  simp

@[simp] lemma runs_modify {f : σ → σ} {u : PUnit} :
    Runs (modify f : StateProgram σ ε PUnit) s u s' ↔ f s = s' := by
  change ((Except.ok PUnit.unit : Except ε PUnit), f s) = (.ok u, s') ↔ _
  simp

@[simp] lemma runs_liftExcept {x : Except ε α} {a : α} :
    Runs (liftExcept x : StateProgram σ ε α) s a s' ↔ x = .ok a ∧ s = s' := by
  cases x with
  | ok b => exact runs_pure.trans (by simp)
  | error e => exact ⟨fun h => absurd h runs_throw, fun h => by simp at h⟩

/-- Rewording an error stops nothing and lets nothing through. -/
@[simp] lemma runs_adapt {ε' : Type} {f : ε → ε'} {a : α} :
    Runs (p.adapt f) s a s' ↔ Runs p s a s' := by
  have hrun : (p.adapt f).run s = match p.run s with
      | (x, s₁) => (x.mapError f, s₁) := rfl
  rw [Runs, Runs, hrun]
  rcases p.run s with ⟨e | b, s₁⟩
  · constructor <;> intro h <;> cases h
  · constructor <;> intro h <;> cases h <;> rfl

lemma run_get_bind (f : σ → StateProgram σ ε α) (s : σ) : (get >>= f).run s = (f s).run s := rfl

/-- A check lets a run through if its condition does not hold. -/
@[simp] lemma runs_guard {c : Prop} [Decidable c] {e : ε} {k : β → StateProgram σ ε α} {a : α} :
    Runs (if c then throw e >>= k else p) s a s' ↔ ¬ c ∧ Runs p s a s' := by
  split_ifs with h
  · simp [h]
  · simp [h]

/-! ### Where a program ends -/

/-- The program started in `s` ends in a result and a state that satisfy `Q`, be it with a
value or with an error. -/
def Ends (p : StateProgram σ ε α) (s : σ) (Q : Except ε α → σ → Prop) : Prop :=
  Q (p.run s).1 (p.run s).2

section Ends

variable {Q R : Except ε α → σ → Prop}

variable {p : StateProgram σ ε α}

lemma Ends.mono (h : Ends p s R) (hRQ : ∀ x s', R x s' → Q x s') : Ends p s Q := hRQ _ _ h

lemma ends_get {Q : Except ε σ → σ → Prop} :
    Ends (get : StateProgram σ ε σ) s Q ↔ Q (.ok s) s := Iff.rfl

lemma ends_set {t : σ} {Q : Except ε PUnit → σ → Prop} :
    Ends (set t : StateProgram σ ε PUnit) s Q ↔ Q (.ok ()) t := Iff.rfl

lemma ends_liftExcept {x : Except ε α} : Ends (liftExcept x : StateProgram σ ε α) s Q ↔ Q x s := by
  cases x <;> exact Iff.rfl

variable {f : α → StateProgram σ ε β}

/-- The first part ends with an error, which is the end, or with a value to go on from. -/
lemma ends_bind {Q : Except ε β → σ → Prop} :
    Ends (p >>= f) s Q ↔ Ends p s fun x s₁ =>
      match x with
      | .ok a => Ends (f a) s₁ Q
      | .error e => Q (.error e) s₁ := by
  have hrun : (p >>= f).run s = match p.run s with
      | (x, s₁) => ExceptT.bindCont f x s₁ := rfl
  rw [Ends, Ends, hrun]
  rcases p.run s with ⟨e | a, s₁⟩ <;> exact Iff.rfl

lemma run_tryCatch (p : StateProgram σ ε α) (f : ε → StateProgram σ ε α) :
    (tryCatch p f).run s = match p.run s with
      | (.ok a, s₁) => (.ok a, s₁)
      | (.error e, s₁) => (f e).run s₁ := by
  rcases hp : p.run s with ⟨e | a, s₁⟩
  · change (ExceptT.tryCatch p f).run s = (f e).run s₁
    rw [ExceptT.run] at hp ⊢
    rw [ExceptT.tryCatch]
    simp [ExceptT.mk, bind, StateT.bind, hp, ExceptT.run]
  · change (ExceptT.tryCatch p f).run s = (.ok a, s₁)
    rw [ExceptT.run] at hp ⊢
    rw [ExceptT.tryCatch]
    simp [ExceptT.mk, bind, StateT.bind, hp]
    rfl

/-- A handler goes on where the program has failed. -/
lemma ends_tryCatch {f : ε → StateProgram σ ε α} :
    Ends (tryCatch p f) s Q ↔ Ends p s fun x s₁ =>
      match x with
      | .ok a => Q (.ok a) s₁
      | .error e => Ends (f e) s₁ Q := by
  rw [Ends, Ends, run_tryCatch]
  rcases p.run s with ⟨e | a, s₁⟩ <;> exact Iff.rfl

/-- Sequencing: what holds where the first part ends is enough for the rest. -/
lemma Ends.bind
    {Q : Except ε β → σ → Prop} (hp : Ends p s R) (hok : ∀ a s₁, R (.ok a) s₁ → Ends (f a) s₁ Q)
    (herror : ∀ e s₁, R (.error e) s₁ → Q (.error e) s₁) : Ends (p >>= f) s Q := by
  rw [ends_bind]
  refine hp.mono fun x s₁ hx => ?_
  cases x with
  | ok a => exact hok a s₁ hx
  | error e => exact herror e s₁ hx

/-- The first part can only end with a value, from which the second goes on. -/
lemma Ends.bind_ok {a : α} {P : σ → Prop}
    {Q : Except ε β → σ → Prop} (hp : Ends p s fun x s' => x = .ok a ∧ P s')
    (hf : ∀ s₁, P s₁ → Ends (f a) s₁ Q) : Ends (p >>= f) s Q := by
  refine hp.bind ?_ ?_
  · rintro _ s₁ ⟨heq, hs₁⟩
    cases heq
    exact hf s₁ hs₁
  · rintro e s₁ ⟨herror, -⟩
    cases herror

lemma Ends.exists_runs {a : α} {P : σ → Prop}
    (h : Ends p s fun x s' => x = .ok a ∧ P s') : ∃ s', Runs p s a s' ∧ P s' :=
  ⟨(p.run s).2, Prod.ext h.1 rfl, h.2⟩

lemma Ends.and_runs (h : Ends p s Q) :
    Ends p s fun x s' => Q x s' ∧ ∀ a, x = .ok a → Runs p s a s' :=
  ⟨h, fun _ ha => Prod.ext ha rfl⟩

lemma ends_of_runs {a : α} (h : Runs p s a s') : Ends p s Q ↔ Q (.ok a) s' := by
  rw [Ends, h]

end Ends

/-! ### Invariants -/

/-- The program keeps `I`, also if it stops with an error. -/
def Keeps (I : σ → Prop) (p : StateProgram σ ε α) : Prop := ∀ s, I s → Ends p s fun _ s' => I s'

section Keeps

variable {I : σ → Prop}

lemma keeps_pure (a : α) : Keeps I (pure a : StateProgram σ ε α) := fun _ h => h

lemma keeps_throw (e : ε) : Keeps I (throw e : StateProgram σ ε α) := fun _ h => h

lemma keeps_get : Keeps I (get : StateProgram σ ε σ) := fun _ h => h

lemma keeps_modify {f : σ → σ} (hf : ∀ s, I s → I (f s)) :
    Keeps I (modify f : StateProgram σ ε PUnit) := hf

lemma keeps_liftExcept (x : Except ε α) : Keeps I (liftExcept x : StateProgram σ ε α) :=
  fun _ h => ends_liftExcept.2 h

lemma Keeps.bind {p : StateProgram σ ε α} {f : α → StateProgram σ ε β} (hp : Keeps I p)
    (hf : ∀ a, Keeps I (f a)) : Keeps I (p >>= f) := fun s hs =>
  (hp s hs).bind (fun a s₁ h => hf a s₁ h) fun _ _ h => h

/-- What follows on a check can rely on it. -/
lemma keeps_liftExcept_bind {x : Except ε α} {f : α → StateProgram σ ε β}
    (hf : ∀ a, x = .ok a → Keeps I (f a)) : Keeps I (liftExcept x >>= f) := by
  intro s hs
  rw [ends_bind, ends_liftExcept]
  cases x with
  | ok a => exact hf a rfl s hs
  | error e => exact hs

lemma keeps_ite {c : Prop} [Decidable c] {p q : StateProgram σ ε α} (hp : Keeps I p)
    (hq : Keeps I q) : Keeps I (if c then p else q) := by
  split_ifs
  · exact hp
  · exact hq

lemma keeps_forM {xs : List β} {f : β → StateProgram σ ε PUnit} (hf : ∀ x ∈ xs, Keeps I (f x)) :
    Keeps I (xs.forM f) := by
  induction xs with
  | nil => exact keeps_pure _
  | cons x xs ih =>
    obtain ⟨hx, hxs⟩ := List.forall_mem_cons.1 hf
    exact hx.bind fun _ => ih hxs

end Keeps

end StateProgram
