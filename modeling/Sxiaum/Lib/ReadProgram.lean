import Mathlib.Data.List.Basic
import Mathlib.Logic.Function.Basic

/-!
# Transactions as programs that read a key-value store

A `ReadProgram` asks for one row after the other, and the next key and the final
output may depend on every value it has seen so far. Its output carries a list of
writes; `none` in a write deletes the row. The serial meaning of a list of
transactions is to run each one on the rows its predecessors left.
-/

/-- A deterministic computation over the rows of a store. -/
inductive ReadProgram (κ ν ω : Type) where
  | ret (out : ω)
  | read (key : κ) (cont : Option ν → ReadProgram κ ν ω)

/-- Rows to store, in the order they are written; `none` deletes the row. -/
abbrev WriteSet (κ ν : Type) := List (κ × Option ν)

namespace ReadProgram

variable {κ ν ω : Type}

/-! ### Evaluation -/

/-- The output of a program whose reads are answered by `rows`. -/
def eval (rows : κ → Option ν) : ReadProgram κ ν ω → ω
  | .ret out => out
  | .read k cont => (cont (rows k)).eval rows

/-- The keys a program asks for when its reads are answered by `rows`. -/
def keysRead (rows : κ → Option ν) : ReadProgram κ ν ω → List κ
  | .ret _ => []
  | .read k cont => k :: (cont (rows k)).keysRead rows

/-- Stores that agree on the keys read are indistinguishable to the program. -/
theorem eval_congr {p : ReadProgram κ ν ω} {rows rows' : κ → Option ν}
    (h : ∀ k ∈ p.keysRead rows, rows' k = rows k) :
    p.eval rows' = p.eval rows ∧ p.keysRead rows' = p.keysRead rows := by
  induction p with
  | ret out => exact ⟨rfl, rfl⟩
  | read k cont ih =>
    simp only [keysRead, List.mem_cons, forall_eq_or_imp] at h
    obtain ⟨hk, hrest⟩ := h
    obtain ⟨he, hr⟩ := ih (rows k) hrest
    simp only [eval, keysRead, hk, he, hr, and_self]

/-! ### Sequencing -/

/-- Run a program and then the one its output selects. -/
def bind {α β : Type} : ReadProgram κ ν α → (α → ReadProgram κ ν β) → ReadProgram κ ν β
  | .ret a, f => f a
  | .read k cont, f => .read k fun v => (cont v).bind f

instance : Monad (ReadProgram κ ν) where
  pure := .ret
  bind := .bind

@[simp] lemma eval_pure {α : Type} (rows : κ → Option ν) (a : α) :
    (pure a : ReadProgram κ ν α).eval rows = a := rfl

@[simp] lemma eval_bind {α β : Type} (rows : κ → Option ν) (p : ReadProgram κ ν α)
    (f : α → ReadProgram κ ν β) : (p >>= f).eval rows = (f (p.eval rows)).eval rows := by
  change (p.bind f).eval rows = _
  induction p with
  | ret a => rfl
  | read k cont ih => exact ih (rows k)

/-- Answer the reads of a program by computations of another kind. -/
def interp {m : Type → Type} [Monad m] (answer : κ → m (Option ν)) : ReadProgram κ ν ω → m ω
  | .ret out => pure out
  | .read k cont => do
    let v ← answer k
    (cont v).interp answer

end ReadProgram

/-! ### Programs that may fail -/

/-- A program over the rows of a store that may stop with an error. -/
abbrev FallibleProgram (κ ν ε : Type) := ExceptT ε (ReadProgram κ ν)

namespace FallibleProgram

variable {κ ν ε α β : Type}

/-- Ask for one row. -/
def readRow (k : κ) : FallibleProgram κ ν ε (Option ν) :=
  ExceptT.lift (.read k .ret)

/-- What a program gives or fails with when its reads are answered by `rows`. -/
def result (rows : κ → Option ν) (p : FallibleProgram κ ν ε α) : Except ε α :=
  p.run.eval rows

variable (rows : κ → Option ν)

@[simp] lemma result_pure (a : α) : result rows (pure a : FallibleProgram κ ν ε α) = .ok a := rfl

@[simp] lemma result_throw (e : ε) :
    result rows (throw e : FallibleProgram κ ν ε α) = .error e := rfl

@[simp] lemma result_readRow (k : κ) :
    result rows (readRow k : FallibleProgram κ ν ε _) = .ok (rows k) := rfl

@[simp] lemma result_liftExcept (x : Except ε α) :
    result rows (liftExcept x : FallibleProgram κ ν ε α) = x := by
  cases x <;> rfl

@[simp] lemma result_bind (p : FallibleProgram κ ν ε α) (f : α → FallibleProgram κ ν ε β) :
    result rows (p >>= f) = result rows p >>= fun a => result rows (f a) := by
  change (p.run >>= ExceptT.bindCont f).eval rows = _
  rw [ReadProgram.eval_bind]
  unfold result
  cases p.run.eval rows with
  | error e => rfl
  | ok a => rfl

@[simp] lemma result_map (f : α → β) (p : FallibleProgram κ ν ε α) :
    result rows (f <$> p) = f <$> result rows p := by
  change (p.run >>= fun x => match x with
    | .ok a => pure (.ok (f a))
    | .error e => pure (.error e)).eval rows = f <$> p.run.eval rows
  rw [ReadProgram.eval_bind]
  cases p.run.eval rows with
  | error e => rfl
  | ok a => rfl

@[simp] lemma result_adapt {ε' : Type} (f : ε → ε')
    (p : FallibleProgram κ ν ε α) : result rows (p.adapt f) = (result rows p).mapError f := by
  change (p.run >>= fun x => pure (x.mapError f)).eval rows = (p.run.eval rows).mapError f
  rw [ReadProgram.eval_bind, ReadProgram.eval_pure]

/-- A program whose reads are answered by programs gives what it gives on their results. -/
theorem result_interp {κ' ν' : Type}
    (answer : κ' → FallibleProgram κ ν ε (Option ν')) (p : ReadProgram κ' ν' α) :
    result rows (p.interp answer) = p.interp fun k => result rows (answer k) := by
  induction p with
  | ret out => rfl
  | read k cont ih => simp [ReadProgram.interp, ih]

end FallibleProgram

/-! ### Write sets -/

namespace WriteSet

variable {κ ν : Type} [DecidableEq κ]

/-- The last value a write set stores under a key, if it writes the key at all. -/
def lastWrite : WriteSet κ ν → κ → Option (Option ν)
  | [], _ => none
  | (k', v) :: ws, k => (lastWrite ws k).or (if k' = k then some v else none)

/-- The rows after all writes have been stored in order. -/
def apply (ws : WriteSet κ ν) (rows : κ → Option ν) : κ → Option ν :=
  ws.foldl (fun r w => Function.update r w.1 w.2) rows

lemma lastWrite_isSome {ws : WriteSet κ ν} {k : κ} :
    (lastWrite ws k).isSome ↔ k ∈ ws.map Prod.fst := by
  induction ws with
  | nil => simp [lastWrite]
  | cons w ws ih =>
    obtain ⟨k', v⟩ := w
    simp only [lastWrite, Option.isSome_or, Bool.or_eq_true, ih, List.map_cons, List.mem_cons]
    by_cases hk : k' = k
    · simp [hk]
    · simp [hk, Ne.symm hk]

lemma lastWrite_eq_none {ws : WriteSet κ ν} {k : κ} :
    lastWrite ws k = none ↔ k ∉ ws.map Prod.fst := by
  rw [← lastWrite_isSome, Bool.not_eq_true, Option.isSome_eq_false_iff, Option.isNone_iff_eq_none]

lemma mem_of_lastWrite {ws : WriteSet κ ν} {k : κ} {x : Option ν} (h : lastWrite ws k = some x) :
    (k, x) ∈ ws := by
  induction ws with
  | nil => simp [lastWrite] at h
  | cons w ws ih =>
    obtain ⟨k', y⟩ := w
    rw [lastWrite] at h
    cases hl : lastWrite ws k with
    | some z =>
      rw [hl, Option.some_or] at h
      exact List.mem_cons_of_mem _ (ih (hl.trans h))
    | none =>
      rw [hl, Option.none_or] at h
      split_ifs at h with hk
      subst hk
      rw [Option.some.inj h]
      exact List.mem_cons_self ..

lemma lastWrite_append_singleton (ws : WriteSet κ ν) (k k' : κ) (x : Option ν) :
    lastWrite (ws ++ [(k', x)]) k = if k' = k then some x else lastWrite ws k := by
  induction ws with
  | nil => simp [lastWrite]
  | cons w ws ih =>
    obtain ⟨k'', y⟩ := w
    rw [List.cons_append, lastWrite, ih, lastWrite]
    split_ifs <;> simp

lemma apply_eq (ws : WriteSet κ ν) (rows : κ → Option ν) (k : κ) :
    apply ws rows k = (lastWrite ws k).getD (rows k) := by
  induction ws generalizing rows with
  | nil => rfl
  | cons w ws ih =>
    obtain ⟨k', v⟩ := w
    change apply ws (Function.update rows k' v) k = _
    rw [ih, lastWrite]
    cases hl : lastWrite ws k with
    | some x => simp
    | none =>
      by_cases hk : k' = k
      · subst hk; simp
      · simp [hk, Function.update_of_ne (Ne.symm hk)]

/-- Storing several write sets leaves at each key the last value any of them stores. -/
theorem foldl_apply_eq (wss : List (WriteSet κ ν)) (rows : κ → Option ν) (k : κ) :
    wss.foldl (fun r ws => apply ws r) rows k =
      (wss.reverse.findSome? (fun ws => lastWrite ws k)).getD (rows k) := by
  induction wss generalizing rows with
  | nil => rfl
  | cons ws wss ih =>
    rw [List.foldl_cons, ih, apply_eq, List.reverse_cons, List.findSome?_append]
    cases List.findSome? (fun ws => lastWrite ws k) wss.reverse with
    | some x => simp
    | none => cases hl : lastWrite ws k <;> simp [hl]

end WriteSet

/-! ### Serial execution -/

namespace Serial

variable {κ ν ω τ : Type} [DecidableEq κ] (run : (κ → Option ν) → τ → ω)
  (writes : ω → WriteSet κ ν)

/-- The outputs of the transactions `ts` run one after the other from `rows`. -/
def outputs (rows : κ → Option ν) : List τ → List ω
  | [] => []
  | t :: ts => run rows t :: outputs ((writes (run rows t)).apply rows) ts

/-- The rows the transactions `ts` leave when run one after the other. -/
def rowsAfter (rows : κ → Option ν) : List τ → (κ → Option ν)
  | [] => rows
  | t :: ts => rowsAfter ((writes (run rows t)).apply rows) ts

/-- Recorded outputs are the serial ones exactly when every transaction's output is what it
computes on the rows left by the recorded outputs of its predecessors. -/
theorem outputs_eq_map_iff {ts : List τ} {rows : κ → Option ν} (out : τ → ω) :
    outputs run writes rows ts = ts.map out ↔ ∀ pre t post, ts = pre ++ t :: post →
      out t = run (pre.foldl (fun r u => (writes (out u)).apply r) rows) t := by
  induction ts generalizing rows with
  | nil => simp [outputs]
  | cons t ts ih =>
    rw [outputs, List.map_cons, List.cons.injEq]
    constructor
    · rintro ⟨ht, hrest⟩ pre u post hsplit
      cases pre with
      | nil =>
        obtain ⟨rfl, -⟩ := List.cons.inj hsplit
        exact ht.symm
      | cons v pre =>
        obtain ⟨rfl, htail⟩ := List.cons.inj hsplit
        rw [ht] at hrest
        exact ih.1 hrest pre u post htail
    · intro h
      have ht : out t = run rows t := h [] t ts rfl
      refine ⟨ht.symm, ht ▸ ih.2 fun pre u post hsplit => ?_⟩
      exact h (t :: pre) u post (by rw [hsplit, List.cons_append])

lemma rowsAfter_eq_foldl (rows : κ → Option ν) (ts : List τ) :
    rowsAfter run writes rows ts =
      (outputs run writes rows ts).foldl (fun r o => (writes o).apply r) rows := by
  induction ts generalizing rows with
  | nil => rfl
  | cons t ts ih => exact ih _

end Serial
