import Tas.Qman
import Tas.Lib.Replay

/-! The counters by which a core divides its cycles among VMs, and the assertions about them in
`spend_budget`. -/
namespace Tas

open Outcome Replay Function Relation List

/-- The counters of a core, where an `int` is its 32 bits, and the registered VMs. -/
structure Counters where
  vmCounters : U16 → U32
  countersTotal : U32
  registered : List U16

/-- What is charged to a VM, and where: `fast_flows_packet`, `fast_appctx_poll_fetch`,
`vm_qman_poll`, and `fast_flows_retransmit` and `fast_flows_winretransmit`. -/
inductive Charge
  | packet (p : RxPacket)
  | atx (txBump : U32)
  | poll (bytesSum : U32)
  | retransmit

def Charge.amount : Charge → U32
  | packet p => p.payloadBytes
  | atx txBump => txBump
  | poll bytesSum => bytesSum
  | retransmit => 1

def Counters.charge (c : Counters) (v : U16) (n : U32) : Counters :=
  { c with
    vmCounters := update c.vmCounters v (c.vmCounters v + n)
    countersTotal := c.countersTotal + n }

/-- `tas_register_vm`. -/
def tasRegisterVm (c : Counters) (v : U16) : Except Fault Counters :=
  if v.toNat ≥ flexnicPlVmstNum then .error .assertion
  else if v ∈ c.registered then .ok c
  else .ok { c with registered := c.registered ++ [v] }

/-- The loop of `spend_budget`. The cycles that it takes from the budgets are left out. -/
def spendLoop (total : ℤ) : List U16 → ℤ → (U16 → U32) → Except Fault (ℤ × (U16 → U32))
  | [], sum, m => .ok (sum, m)
  | v :: vs, sum, m =>
    let counter := (m v).toInt
    let ratio : ℚ := counter / total
    if ¬ counter ≤ total then .error .assertion
    else if ¬ (ratio ≥ 0 ∧ ratio ≤ 1) then .error .assertion
    else spendLoop total vs (sum + counter) (update m v 0)

def spendBudget (c : Counters) : Except Fault Counters :=
  if c.countersTotal = 0 then .ok c
  else if c.registered = [] then .ok { c with vmCounters := fun _ => 0, countersTotal := 0 }
  else do
    let (sum, m) ← spendLoop c.countersTotal.toInt c.registered 0 c.vmCounters
    if sum ≠ c.countersTotal.toInt then .error .assertion
    else .ok { c with vmCounters := m, countersTotal := 0 }

inductive BudgetEvent
  | register (v : U16)
  | charge (v : U16) (source : Charge)
  | spend

/-- Flows and contexts belong to VMs that are registered. -/
def Counters.exec (c : Counters) : BudgetEvent → Option Counters
  | .register v => (tasRegisterVm c v).toOption
  | .charge v source => if v ∈ c.registered then some (c.charge v source.amount) else none
  | .spend => (spendBudget c).toOption

/-- What is charged fits the total. -/
def ChargeFits (c : Counters) : BudgetEvent → Prop
  | .charge _ source => c.countersTotal.toNat + source.amount.toNat < 2 ^ 31
  | _ => True

/-- The total is the sum of the counters, none of which is negative or above the total, so that
`spend_budget` returns. -/
structure CountersOk (c : Counters) : Prop where
  sum : c.countersTotal.toInt = (c.registered.map fun v => (c.vmCounters v).toInt).sum
  counter : ∀ v ∈ c.registered,
    0 ≤ (c.vmCounters v).toInt ∧ (c.vmCounters v).toInt ≤ c.countersTotal.toInt
  spends : ∃ c', spendBudget c = .ok c'

/-! ### The invariant -/

/-- The same as numbers, which is what every event keeps. -/
structure Balanced (c : Counters) : Prop where
  nodup : c.registered.Nodup
  other : ∀ v, v ∉ c.registered → c.vmCounters v = 0
  sum : c.countersTotal.toNat = (c.registered.map fun v => (c.vmCounters v).toNat).sum
  total : c.countersTotal.toNat < 2 ^ 31

variable {c c' : Counters} {v : U16} {vs : List U16} {m : U16 → U32}

theorem sum_map_congr {g : U16 → U32} (h : ∀ w ∈ vs, g w = m w) :
    (vs.map fun w => (g w).toNat).sum = (vs.map fun w => (m w).toNat).sum :=
  congrArg List.sum (map_congr_left fun w hw => congrArg BitVec.toNat (h w hw))

theorem sum_update {x : U32} (hnodup : vs.Nodup) (hv : v ∈ vs) :
    (vs.map fun w => (update m v x w).toNat).sum + (m v).toNat =
      (vs.map fun w => (m w).toNat).sum + x.toNat := by
  induction vs with
  | nil => cases hv
  | cons w vs ih =>
    obtain ⟨hw, hnodup⟩ := nodup_cons.1 hnodup
    simp only [map_cons, sum_cons]
    by_cases hwv : w = v
    · subst hwv
      rw [update_self, sum_map_congr fun u hu => update_of_ne (ne_of_mem_of_not_mem hu hw) x m]
      omega
    · rw [update_of_ne hwv]
      have := ih hnodup ((mem_cons.1 hv).resolve_left fun h => hwv h.symm)
      omega

theorem Balanced.le (h : Balanced c) (hv : v ∈ c.registered) :
    (c.vmCounters v).toNat ≤ c.countersTotal.toNat := by
  rw [h.sum]
  exact single_le_sum (fun _ _ => Nat.zero_le _) _ (mem_map_of_mem hv)

/-- The assertions hold for counters that are at most the total. -/
theorem spendLoop_ok {total : U32} (hpos : 0 < total.toNat) (htotal : total.toNat < 2 ^ 31)
    (hnodup : vs.Nodup) (hle : ∀ v ∈ vs, (m v).toNat ≤ total.toNat) (sum : ℕ) :
    ∃ m', spendLoop total.toInt vs sum m =
        .ok (((sum + (vs.map fun v => (m v).toNat).sum : ℕ) : ℤ), m') ∧
      ∀ v, m' v = if v ∈ vs then 0 else m v := by
  have hint : ∀ x : U32, x.toNat < 2 ^ 31 → x.toInt = x.toNat := fun x hx =>
    BitVec.toInt_eq_toNat_of_lt (by omega)
  induction vs generalizing sum m with
  | nil => exact ⟨m, by simp [spendLoop], by simp⟩
  | cons v vs ih =>
    obtain ⟨hv, hnodup⟩ := nodup_cons.1 hnodup
    have hle' := hle v mem_cons_self
    have hrest : ∀ w ∈ vs, update m v 0 w = m w := fun w hw =>
      update_of_ne (ne_of_mem_of_not_mem hw hv) 0 m
    have hratio : (((m v).toNat : ℤ) : ℚ) / ((total.toNat : ℤ) : ℚ) ≥ 0 ∧
        (((m v).toNat : ℤ) : ℚ) / ((total.toNat : ℤ) : ℚ) ≤ 1 :=
      ⟨by positivity, div_le_one_of_le₀ (by exact_mod_cast hle') (by positivity)⟩
    have hlt : (m v).toNat < 2 ^ 31 := by omega
    obtain ⟨m', hloop, hm'⟩ := ih (m := update m v 0) hnodup
      (fun w hw => by rw [hrest w hw]; exact hle w (mem_cons_of_mem _ hw)) (sum + (m v).toNat)
    refine ⟨m', ?_, fun w => ?_⟩
    · rw [spendLoop]
      simp only [hint _ hlt, hint _ htotal] at hloop ⊢
      rw [if_neg (by simpa using hle'), if_neg (by simpa using hratio)]
      rw [sum_map_congr hrest] at hloop
      simpa [add_assoc] using hloop
    · rw [hm']
      by_cases hw : w = v
      · simp [hw]
      · simp [hw]

theorem Balanced.spend (h : Balanced c) : ∃ c', spendBudget c = .ok c' ∧ Balanced c' := by
  unfold spendBudget
  split_ifs with hzero hempty
  · exact ⟨c, rfl, h⟩
  · have hsum := h.sum
    rw [hempty] at hsum
    exact absurd (BitVec.eq_of_toNat_eq hsum) hzero
  · have hpos : 0 < c.countersTotal.toNat :=
      Nat.pos_of_ne_zero fun h0 => hzero (BitVec.eq_of_toNat_eq h0)
    obtain ⟨m, hloop, hm⟩ := spendLoop_ok hpos h.total h.nodup (fun v hv => h.le hv) 0
    have hint : c.countersTotal.toInt = c.countersTotal.toNat :=
      BitVec.toInt_eq_toNat_of_lt (by have := h.total; omega)
    refine ⟨⟨m, 0, c.registered⟩, ?_, h.nodup, fun v hv => ?_, ?_, by simp⟩
    · rw [← h.sum, Nat.cast_zero, zero_add, ← hint] at hloop
      simp [hloop, bind, Except.bind]
    · exact (hm v).trans ((if_neg hv).trans (h.other v hv))
    · rw [sum_map_congr (m := fun _ => 0) fun v hv => (hm v).trans (if_pos hv)]
      simp

theorem Balanced.charge {n : U32} (h : Balanced c) (hv : v ∈ c.registered)
    (hfits : c.countersTotal.toNat + n.toNat < 2 ^ 31) : Balanced (c.charge v n) := by
  have hle := h.le hv
  have hadd : ∀ x : U32, x.toNat ≤ c.countersTotal.toNat → (x + n).toNat = x.toNat + n.toNat :=
    fun x hx => by rw [BitVec.toNat_add, Nat.mod_eq_of_lt (by omega)]
  have hsum := sum_update (m := c.vmCounters) (x := c.vmCounters v + n) h.nodup hv
  rw [hadd _ hle, ← h.sum] at hsum
  refine ⟨h.nodup, fun w hw => ?_, ?_, ?_⟩
  · exact (update_of_ne (ne_of_mem_of_not_mem hv hw).symm _ _).trans (h.other w hw)
  · change (c.countersTotal + n).toNat = (c.registered.map fun w => _).sum
    rw [hadd _ le_rfl]
    simp only [Counters.charge]
    omega
  · change (c.countersTotal + n).toNat < _
    rw [hadd _ le_rfl]
    exact hfits

theorem balanced_step (e : BudgetEvent) (h : Balanced c) (hP : ChargeFits c e)
    (hexec : c.exec e = some c') : Balanced c' := by
  cases e with
  | register v =>
    simp only [Counters.exec, tasRegisterVm] at hexec
    split_ifs at hexec with hinvalid hmem
    · cases hexec
    · cases hexec
      exact h
    · cases hexec
      refine ⟨nodup_append.2 ⟨h.nodup, nodup_singleton v, ?_⟩, fun w hw => ?_, ?_, h.total⟩
      · rintro w hw x hx rfl
        exact hmem (mem_singleton.1 hx ▸ hw)
      · exact h.other w fun hc => hw (mem_append_left _ hc)
      · simp [h.sum, h.other v hmem]
  | charge v source =>
    obtain ⟨hv, rfl⟩ := of_guard hexec
    exact h.charge hv hP
  | spend =>
    obtain ⟨c₁, hspend, hbal⟩ := h.spend
    simp only [Counters.exec, hspend] at hexec
    exact Option.some.inj hexec ▸ hbal

theorem Balanced.countersOk (h : Balanced c) : CountersOk c := by
  have hint : ∀ x : U32, x.toNat ≤ c.countersTotal.toNat → x.toInt = x.toNat := fun x hx =>
    BitVec.toInt_eq_toNat_of_lt (by have := h.total; omega)
  refine ⟨?_, fun v hv => ?_, ?_⟩
  · rw [hint _ le_rfl, h.sum, Nat.cast_list_sum, List.map_map]
    exact congrArg List.sum (map_congr_left fun v hv => (hint _ (h.le hv)).symm)
  · rw [hint _ (h.le hv), hint _ le_rfl]
    exact ⟨Int.natCast_nonneg _, by exact_mod_cast h.le hv⟩
  · obtain ⟨c', hc', -⟩ := h.spend
    exact ⟨c', hc'⟩

/-- Counters at the start. -/
def Counters.start : Counters := ⟨fun _ => 0, 0, []⟩

/-- In every run in which no charge takes the total to 2^31, the assertions of `spend_budget`
hold. -/
theorem budget_assertions_hold (hrun : Run Counters.exec ChargeFits .start c) : CountersOk c :=
  (hrun.invariant Balanced ⟨nodup_nil, fun _ _ => rfl, rfl, by decide⟩
    fun _ e _ h hP hexec => balanced_step e h hP hexec).countersOk

instance (c : Counters) (e : BudgetEvent) : Decidable (ChargeFits c e) :=
  match e with
  | .charge .. => inferInstanceAs (Decidable (_ < _))
  | .register _ | .spend => .isTrue trivial

/-- Two VMs with entries of 100 and 200 bytes. -/
theorem charged_vms_ok :
    ∃ c, Run Counters.exec ChargeFits .start c ∧ c.countersTotal = 300 ∧ CountersOk c := by
  have hreach : ∃ c, Run Counters.exec ChargeFits .start c ∧ c.countersTotal = 300 :=
    run_of_outcome [.register 0, .register 1, .charge 0 (.atx 100), .charge 1 (.atx 200)]
      (by decide +kernel)
  obtain ⟨c, hrun, htotal⟩ := hreach
  exact ⟨c, hrun, htotal, budget_assertions_hold hrun⟩

/-- A guest writes an entry with 2^31 as the number of bytes. -/
theorem large_bump_fails_assertion : ∃ c, Run Counters.exec Any .start c ∧ ¬ CountersOk c := by
  have hreach : ∃ c, Run Counters.exec Any .start c ∧ (spendBudget c).toOption.isNone = true :=
    run_of_outcome [.register 0, .register 1, .charge 0 (.atx (2 ^ 31)), .charge 1 (.atx 1)]
      (by decide +kernel)
  obtain ⟨c, hrun, hfail⟩ := hreach
  refine ⟨c, hrun, fun h => ?_⟩
  obtain ⟨c', hc'⟩ := h.spends
  rw [hc'] at hfail
  contradiction

end Tas
