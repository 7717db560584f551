import Tas.FlowState
import Tas.Lib.Replay

/-! The budgets of VMs on cores, which the slow path raises (`boost_budget`) while the fast path
spends them. An `int64_t` is its 64 bits. -/
namespace Tas

open Replay Function

/-- The budget of each VM on each core, and what `boost_budget` is about to add, after its read. -/
structure Budgets where
  budget : ℕ → ℕ → U64
  boosting : Option (ℕ × ℕ × U64)

/-- `get_budget_delta`. -/
def getBudgetDelta (maxBudget budget : U64) : U64 := maxBudget - budget

/-- What `boost_budget` adds after it has read the budget. -/
def boostIncr (maxBudget oldBudget incr : U64) : U64 :=
  let newBudget := oldBudget + incr
  if maxBudget.slt newBudget then maxBudget - oldBudget else incr

def Budgets.set (s : Budgets) (vm core : ℕ) (b : U64) : Budgets :=
  { s with budget := update s.budget vm (update (s.budget vm) core b) }

/-- The atomic operations on budgets: the read and the add of `boost_budget`, and the subtraction
in `spend_budget`. -/
inductive BudgetOp
  | read (vm core : ℕ) (incr : U64)
  | add
  | spend (vm core : ℕ) (vmCycles : U64)

/-- There is one booster, so that each read is followed by its add. -/
def Budgets.exec (maxBudget : U64) (s : Budgets) : BudgetOp → Option Budgets
  | .read vm core incr =>
    if s.boosting = none then
      some { s with boosting := some (vm, core, boostIncr maxBudget (s.budget vm core) incr) }
    else none
  | .add => s.boosting.map fun (vm, core, incr) =>
      { s.set vm core (s.budget vm core + incr) with boosting := none }
  | .spend vm core vmCycles => some (s.set vm core (s.budget vm core - vmCycles))

/-- Increments are not negative, and neither they nor the cycles overflow 64 bits. -/
def BudgetFits (s : Budgets) : BudgetOp → Prop
  | .read vm core incr => 0 ≤ incr.toInt ∧ (s.budget vm core).toInt + incr.toInt < 2 ^ 63
  | .add => True
  | .spend vm core vmCycles => -2 ^ 63 ≤ (s.budget vm core).toInt - vmCycles.toNat

/-- The budget is at most the maximum, and the difference is what `get_budget_delta` returns. -/
def BudgetOk (maxBudget budget : U64) : Prop :=
  budget.toInt ≤ maxBudget.toInt ∧
    ((getBudgetDelta maxBudget budget).toNat : ℤ) = maxBudget.toInt - budget.toInt

/-- What is about to be added still fits, as a number without sign. -/
structure Boostable (maxBudget : U64) (s : Budgets) : Prop where
  le : ∀ vm core, (s.budget vm core).toInt ≤ maxBudget.toInt
  room : ∀ vm core incr, s.boosting = some (vm, core, incr) →
    (s.budget vm core).toInt + incr.toNat ≤ maxBudget.toInt

variable {maxBudget b x : U64} {s s' : Budgets}

theorem toInt_add_toNat (h : b.toInt + x.toNat < 2 ^ 63) : (b + x).toInt = b.toInt + x.toNat := by
  have := b.isLt
  rw [BitVec.toInt_eq_toNat_cond] at h ⊢
  rw [BitVec.toInt_eq_toNat_cond, BitVec.toNat_add]
  omega

theorem toInt_sub_toNat (h : -2 ^ 63 ≤ b.toInt - x.toNat) : (b - x).toInt = b.toInt - x.toNat := by
  have := b.isLt
  rw [BitVec.toInt_eq_toNat_cond] at h ⊢
  rw [BitVec.toInt_eq_toNat_cond, BitVec.toNat_sub]
  omega

theorem toNat_sub_toInt (h : b.toInt ≤ maxBudget.toInt) :
    ((maxBudget - b).toNat : ℤ) = maxBudget.toInt - b.toInt := by
  rw [BitVec.toInt_eq_toNat_cond, BitVec.toInt_eq_toNat_cond] at h ⊢
  rw [BitVec.toNat_sub]
  omega

theorem boostIncr_le (hle : b.toInt ≤ maxBudget.toInt) (hincr : 0 ≤ x.toInt)
    (hfits : b.toInt + x.toInt < 2 ^ 63) :
    b.toInt + (boostIncr maxBudget b x).toNat ≤ maxBudget.toInt := by
  have hx : x.toInt = x.toNat := by
    rw [BitVec.toInt_eq_toNat_cond] at hincr ⊢
    omega
  unfold boostIncr
  dsimp only
  split_ifs with hcap
  · have := toNat_sub_toInt hle
    omega
  · rw [BitVec.slt_iff_toInt_lt, toInt_add_toNat (hx ▸ hfits)] at hcap
    omega

/-- A budget at most the old one, or with the room that was reserved. -/
theorem set_le {vm core : ℕ} (h : Boostable maxBudget s) (hb : b.toInt ≤ maxBudget.toInt) :
    ∀ v c, ((s.set vm core b).budget v c).toInt ≤ maxBudget.toInt := by
  intro v c
  by_cases hv : v = vm <;> by_cases hc : c = core <;> simp_all [Budgets.set, h.le]

theorem Boostable.step (op : BudgetOp) (h : Boostable maxBudget s) (hP : BudgetFits s op)
    (hexec : s.exec maxBudget op = some s') : Boostable maxBudget s' := by
  cases op with
  | read vm core incr =>
    obtain ⟨-, rfl⟩ := of_guard hexec
    refine ⟨h.le, fun v c i hi => ?_⟩
    cases hi
    exact boostIncr_le (h.le _ _) hP.1 hP.2
  | add =>
    obtain ⟨⟨vm, core, incr⟩, hboost, rfl⟩ := Option.map_eq_some_iff.1 hexec
    have hroom := h.room vm core incr hboost
    have hmax := BitVec.toInt_lt (x := maxBudget)
    refine ⟨set_le h ?_, fun _ _ _ hi => by cases hi⟩
    rw [toInt_add_toNat (by omega)]
    exact hroom
  | spend vm core vmCycles =>
    cases hexec
    have hsub := toInt_sub_toNat hP
    have hle := h.le vm core
    refine ⟨set_le h (by omega), fun v c i hi => ?_⟩
    have hroom := h.room v c i hi
    by_cases hv : v = vm <;> by_cases hc : c = core <;> simp_all [Budgets.set]
    omega

/-- `dataplane_context_init` sets every budget to the maximum. -/
def Budgets.start (maxBudget : U64) : Budgets := ⟨fun _ _ => maxBudget, none⟩

theorem budgets_at_most_max (hrun : Run (Budgets.exec maxBudget) BudgetFits (.start maxBudget) s)
    (vm core : ℕ) : BudgetOk maxBudget (s.budget vm core) := by
  have hinv := hrun.invariant (Boostable maxBudget) ⟨fun _ _ => le_rfl, fun _ _ _ => nofun⟩
    fun _ op _ h hP hexec => h.step op hP hexec
  exact ⟨hinv.le vm core, toNat_sub_toInt (hinv.le vm core)⟩

instance (s : Budgets) (op : BudgetOp) : Decidable (BudgetFits s op) := by
  cases op <;> unfold BudgetFits <;> infer_instance

/-- Cycles are spent between the read and the add of a boost that is cut to 100. -/
theorem spent_while_boosted : ∃ s, Run (Budgets.exec 210000) BudgetFits (.start 210000) s ∧
    s.budget 0 0 = 209990 ∧ BudgetOk 210000 (s.budget 0 0) := by
  have hreach : ∃ s, Run (Budgets.exec 210000) BudgetFits (.start 210000) s ∧
      s.budget 0 0 = 209990 :=
    run_of_outcome [.spend 0 0 100, .read 0 0 500, .spend 0 0 10, .add] (by decide +kernel)
  obtain ⟨s, hrun, hbudget⟩ := hreach
  exact ⟨s, hrun, hbudget, budgets_at_most_max hrun 0 0⟩

end Tas
