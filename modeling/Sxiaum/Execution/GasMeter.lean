import Sxiaum.Lib.Ledger
import Sxiaum.Lib.StateProgram
import Sxiaum.Types

/-!
# Storage gas and its refunds

The net-metered price of a storage write and the meter that charges it. Clearing a slot that
was filled when the transaction began earns a credit on the refund counter, and filling it
again takes the credit back. The counter is a saturating machine integer. It never saturates:
it is what the slots that stand cleared have earned, and each credit is paid for in gas.
-/

namespace Sxiaum

open Ledger StateProgram

/-- The price of a storage write and the change it makes to the refund counter. -/
structure SStoreGas where
  gasCost : ℕ
  refundDelta : ℤ

/-- The entries of the gas schedule that storage writes and refunds read. -/
structure GasSchedule where
  coldSload : ℕ
  warmSload : ℕ
  sstoreSet : ℕ
  sstoreReset : ℕ
  sstoreClearsRefund : ℕ
  sstoreSentry : ℕ
  maxRefundQuotient : ℕ

def GasSchedule.mainnet : GasSchedule where
  coldSload := 20
  warmSload := 48
  sstoreSet := 200
  sstoreReset := 50
  sstoreClearsRefund := 48
  sstoreSentry := 23
  maxRefundQuotient := 5

def sstoreResetRefund : ℕ := 0

def sstoreSetRefund : ℕ := 0

/-- `u64 as i64`, which reads the same 64 bits as a signed number. -/
def asI64 (n : ℕ) : ℤ := (n : ℤ).bmod (2 ^ 64)

def sstoreGas (original current new : ℕ) (isWarm : Bool) (schedule : GasSchedule) : SStoreGas :=
  if current = new then
    -- a write of the same value pays for the access alone
    ⟨if isWarm then schedule.warmSload else satAdd64 schedule.coldSload schedule.warmSload, 0⟩
  else
    let clears := asI64 schedule.sstoreClearsRefund
    let (gasCost, refundDelta) :=
      if original = current then
        if original = 0 then (schedule.sstoreSet, 0)
        else (schedule.sstoreReset, if new = 0 then clears else 0)
      else
        let undone :=
          if original = 0 then 0 else if current = 0 then -clears else if new = 0 then clears else 0
        let restored :=
          if original = new then
            asI64 (if original = 0 then sstoreSetRefund else sstoreResetRefund)
          else 0
        (schedule.warmSload, undone + restored)
    ⟨if isWarm then gasCost else satAdd64 gasCost schedule.coldSload, refundDelta⟩

structure GasMeter where
  gasLimit : ℕ
  gasUsed : ℕ
  gasRefund : ℕ
  warmStorage : Finset Hash
  schedule : GasSchedule

namespace GasMeter

def new (limit : ℕ) : GasMeter := ⟨limit, 0, 0, ∅, .mainnet⟩

def consume (amount : ℕ) : StateProgram GasMeter String Unit := do
  let meter ← get
  let next := satAdd64 meter.gasUsed amount
  if next > meter.gasLimit then
    throw s!"out of gas: attempted to use {next}, limit {meter.gasLimit}"
  set { meter with gasUsed := next }

def remaining (meter : GasMeter) : ℕ := meter.gasLimit - meter.gasUsed

def recordRefund (meter : GasMeter) (amount : ℕ) : GasMeter :=
  { meter with gasRefund := satAdd64 meter.gasRefund amount }

def applyRefundDelta (meter : GasMeter) (delta : ℤ) : GasMeter :=
  if delta ≥ 0 then meter.recordRefund delta.toNat
  else { meter with gasRefund := meter.gasRefund - (-delta).toNat }

/-- The refund that is granted, and the meter after it. -/
def applyRefunds (meter : GasMeter) : ℕ × GasMeter :=
  if meter.schedule.maxRefundQuotient = 0 ∨ meter.gasUsed = 0 then
    (0, { meter with gasRefund := 0 })
  else
    let applied := min meter.gasRefund (meter.gasUsed / meter.schedule.maxRefundQuotient)
    (applied, { meter with gasUsed := meter.gasUsed - applied, gasRefund := 0 })

def effectiveGasUsed (meter : GasMeter) : ℕ :=
  if meter.schedule.maxRefundQuotient = 0 ∨ meter.gasUsed = 0 then meter.gasUsed
  else meter.gasUsed - min meter.gasRefund (meter.gasUsed / meter.schedule.maxRefundQuotient)

/-- Mark a storage key warm, and tell whether it was. -/
def touchStorage (key : Hash) : StateProgram GasMeter String Bool := do
  let meter ← get
  set { meter with warmStorage := insert key meter.warmStorage }
  return decide (key ∈ meter.warmStorage)

def chargeSstore (key : Hash) (original current new : ℕ) :
    StateProgram GasMeter String SStoreGas := do
  let meter ← get
  let sentry := meter.schedule.sstoreSentry
  if meter.remaining ≤ sentry then
    throw s!"out of gas: SSTORE sentry (remaining {meter.remaining}, sentry {sentry})"
  let warm ← touchStorage key
  let result := sstoreGas original current new warm meter.schedule
  consume result.gasCost
  modify (applyRefundDelta · result.refundDelta)
  return result

/-! ### The storage writes of a transaction -/

/-- What a transaction does to the meter: storage writes, and between them other charges and
accesses that warm a key. -/
inductive MeterOp (ι : Type)
  | sstore (slot : ι) (new : ℕ)
  | consume (amount : ℕ)
  | touch (slot : ι)

/-- The meter with the value each slot has, and the refund changes of the writes so far. -/
structure StorageRun (ι : Type) where
  meter : GasMeter
  current : ι → ℕ
  deltas : List ℤ

namespace StorageRun

variable {ι : Type} [DecidableEq ι] (keyOf : ι → Hash) (original : ι → ℕ)

/-- The transaction after a charge for a write. A write that is not paid for changes no slot. -/
def charged (s : StorageRun ι) (slot : ι) (new : ℕ) (meter : GasMeter) :
    Except String SStoreGas → StorageRun ι
  | .ok gas => ⟨meter, Function.update s.current slot new, s.deltas ++ [gas.refundDelta]⟩
  | .error _ => { s with meter }

def perform (s : StorageRun ι) : MeterOp ι → StorageRun ι
  | .sstore slot new =>
    let charge := chargeSstore (keyOf slot) (original slot) (s.current slot) new
    s.charged slot new (charge.run s.meter).2 (charge.run s.meter).1
  | .consume amount => { s with meter := ((GasMeter.consume amount).run s.meter).2 }
  | .touch slot => { s with meter := ((touchStorage (keyOf slot)).run s.meter).2 }

def transaction (limit : UInt64) (ops : List (MeterOp ι)) : StorageRun ι :=
  ops.foldl (perform keyOf original) ⟨GasMeter.new limit.toNat, original, []⟩

end StorageRun

/-! ### What the refund counter holds -/

/-- What a slot has earned that was filled and stands cleared. -/
def credit (original value : ℕ) : ℕ := if original ≠ 0 ∧ value = 0 then 48 else 0

/-- The counter moves by the change of the slot's credit, and a write costs at least the
credit it can earn. -/
lemma sstoreGas_spec (original current new : ℕ) (warm : Bool) :
    let gas := sstoreGas original current new warm .mainnet
    gas.refundDelta = (credit original new : ℤ) - credit original current ∧ 48 ≤ gas.gasCost := by
  have hclears : asI64 48 = 48 := by decide
  have hzero : asI64 0 = 0 := by decide
  simp only [sstoreGas, credit, GasSchedule.mainnet, sstoreSetRefund, sstoreResetRefund,
    ite_self, hclears, hzero, satAdd64, u64Max]
  grind

/-- A charge that cannot be paid leaves all but the warm keys as they were. -/
lemma ends_chargeSstore {key : Hash} {original current new : ℕ} {meter : GasMeter}
    {Q : Except String SStoreGas → GasMeter → Prop}
    (herror : ∀ e warmStorage, Q (.error e) { meter with warmStorage })
    (hok : ∀ gas warmStorage warm, sstoreGas original current new warm meter.schedule = gas →
      meter.schedule.sstoreSentry < meter.remaining →
        Q (.ok gas) (GasMeter.applyRefundDelta { meter with
          warmStorage, gasUsed := satAdd64 meter.gasUsed gas.gasCost } gas.refundDelta)) :
    Ends (chargeSstore key original current new) meter Q := by
  rw [chargeSstore, ends_bind, ends_get]
  change Ends (if _ then _ else _) meter Q
  split_ifs with hsentry
  · exact herror _ meter.warmStorage
  · change Ends (consume _ >>= _) { meter with warmStorage := insert key meter.warmStorage } Q
    rw [consume, bind_assoc, ends_bind, ends_get]
    change Ends ((if _ then _ else _) >>= _) _ Q
    split_ifs with hlimit
    · exact herror _ _
    · exact hok _ _ _ rfl (not_le.1 hsentry)

/-- The counter follows a change that leaves it in its range. -/
lemma applyRefundDelta_eq {meter : GasMeter} {delta : ℤ} (hlow : 0 ≤ meter.gasRefund + delta)
    (hhigh : meter.gasRefund + delta ≤ u64Max) :
    meter.applyRefundDelta delta =
      { meter with gasRefund := (meter.gasRefund + delta).toNat } := by
  rw [applyRefundDelta, recordRefund, satAdd64]
  split_ifs
  · congr
    omega
  · congr
    omega

namespace StorageRun

variable {ι : Type} [DecidableEq ι] {keyOf : ι → Hash} {original : ι → ℕ} {s : StorageRun ι}

/-- The counter is the sum of its changes, which is what the cleared slots have earned. It is
covered by the gas used, so that it has room for the next credit. -/
structure Exact (original : ι → ℕ) (s : StorageRun ι) : Prop where
  schedule : s.meter.schedule = .mainnet
  limit : s.meter.gasLimit ≤ u64Max
  used : s.meter.gasUsed ≤ u64Max
  counter : (s.meter.gasRefund : ℤ) = s.deltas.sum
  earned : TotalShift (fun _ => 0) (fun slot => credit (original slot) (s.current slot))
    s.deltas.sum
  paid : s.meter.gasRefund ≤ s.meter.gasUsed
  whole : s.meter.gasRefund % 48 = 0

/-- A charge keeps the counter exact. The gas that the sentry asks to remain leaves room for
one more credit, since the counter is made of whole credits. -/
theorem Exact.charged (h : Exact original s) (slot : ι) (new : ℕ) :
    Ends (chargeSstore (keyOf slot) (original slot) (s.current slot) new) s.meter fun x meter =>
      Exact original (s.charged slot new meter x) := by
  refine ends_chargeSstore (fun _ _ => { h with }) fun gas warmStorage warm hgas hsentry => ?_
  obtain ⟨hdelta, hcost⟩ := sstoreGas_spec (original slot) (s.current slot) new warm
  rw [← h.schedule, hgas] at hdelta hcost
  -- the write moves what the slots have earned by its refund change
  have hearned : TotalShift (fun _ => 0)
      (fun a => credit (original a) (Function.update s.current slot new a))
      (s.deltas.sum + gas.refundDelta) := by
    rw [hdelta]
    refine h.earned.trans ?_
    convert totalShift_update (fun a => credit (original a) (s.current a)) slot _ using 1
    funext a
    exact Function.apply_update (fun a => credit (original a)) s.current slot new a
  have hlow : 0 ≤ s.meter.gasRefund + gas.refundDelta := by
    obtain ⟨S, -, hsum⟩ := hearned
    simp only [Nat.cast_zero, Finset.sum_const_zero, zero_add, ← h.counter] at hsum
    rw [← hsum]
    exact Finset.sum_nonneg fun a _ => Int.natCast_nonneg _
  have hcredit : ∀ value, credit (original slot) value = 0 ∨ credit (original slot) value = 48 := by
    intro value
    rw [credit]
    split_ifs <;> simp
  have hnew := hcredit new
  have hcurrent := hcredit (s.current slot)
  obtain ⟨hschedule, hlimit, hused, hcounter, -, hpaid, hwhole⟩ := h
  rw [hschedule, remaining] at hsentry
  change 23 < _ at hsentry
  rw [u64Max] at hlimit hused
  have hhigh : s.meter.gasRefund + gas.refundDelta ≤ u64Max := by
    rw [u64Max]
    omega
  rw [applyRefundDelta_eq (by exact hlow) (by exact hhigh)]
  refine ⟨hschedule, hlimit, min_le_right _ _, ?_, ?_, ?_, ?_⟩
  all_goals simp only [StorageRun.charged, List.sum_append, List.sum_singleton, satAdd64]
  · omega
  · exact hearned
  · rw [u64Max]
    omega
  · omega

lemma exact_perform (h : Exact original s) (op : MeterOp ι) :
    Exact original (s.perform keyOf original op) := by
  cases op with
  | sstore slot new => exact h.charged slot new
  | consume amount =>
    change Ends (GasMeter.consume amount) s.meter fun _ meter => Exact original { s with meter }
    rw [GasMeter.consume, ends_bind, ends_get]
    change Ends (if _ then _ else _) _ _
    split_ifs
    · exact h
    · refine { h with used := min_le_right _ _, paid := ?_ }
      exact le_min (h.paid.trans (Nat.le_add_right _ _)) (h.paid.trans h.used)
  | touch slot => exact { h with }

theorem exact_transaction (limit : UInt64) (ops : List (MeterOp ι)) :
    Exact original (transaction keyOf original limit ops) := by
  refine List.foldlRecOn ops _ ?_ fun s hs op _ => exact_perform hs op
  refine ⟨rfl, Nat.le_of_lt_succ limit.toNat_lt, Nat.zero_le _, rfl, ?_, le_rfl, rfl⟩
  have hnone : (fun slot => credit (original slot) (original slot)) = fun _ => 0 := by
    funext slot
    exact if_neg fun h => h.1 h.2
  rw [hnone]
  exact .refl _

/-- In every transaction the counter is the signed sum of its changes, a claw-back takes what
it asks for, and the refund at the end is at most the share of the gas used. -/
theorem refund_exact (keyOf : ι → Hash) (original : ι → ℕ) (limit : UInt64)
    (ops : List (MeterOp ι)) :
    let s := transaction keyOf original limit ops
    (s.meter.gasRefund : ℤ) = s.deltas.sum ∧
      (∀ slot new gas meter,
        Runs (chargeSstore (keyOf slot) (original slot) (s.current slot) new) s.meter gas meter →
          -gas.refundDelta ≤ s.meter.gasRefund ∧
            (meter.gasRefund : ℤ) = s.meter.gasRefund + gas.refundDelta) ∧
      s.meter.applyRefunds.1 ≤ s.meter.gasUsed / s.meter.schedule.maxRefundQuotient ∧
      s.meter.applyRefunds.2.gasUsed = s.meter.effectiveGasUsed := by
  have h : Exact original (transaction keyOf original limit ops) := exact_transaction limit ops
  refine ⟨h.counter, fun slot new gas meter hruns => ?_, ?_, ?_⟩
  · have hcharged := ((ends_of_runs hruns).1 (h.charged slot new)).counter
    simp only [StorageRun.charged, List.sum_append, List.sum_singleton, ← h.counter] at hcharged
    omega
  all_goals rw [applyRefunds]
  · split_ifs <;> simp
  · rw [effectiveGasUsed]
    split_ifs <;> simp_all

end StorageRun

end GasMeter

end Sxiaum
