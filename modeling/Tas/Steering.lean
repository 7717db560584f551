import Tas.Lib.Fibers
import Tas.Lib.Outcome

/-! Flow groups and the cores that process them: the redirection table of the NIC, its copy for the
fast path, and the number of groups of each core, when the number of cores changes. -/
namespace Tas

open Outcome Fibers Function Nat

/-! ### The redirection table -/

def retaGroupSize : ℕ := 64
def maxFlowgroups : ℕ := 4096

/-- `FLEXNIC_PL_APPST_CTX_MCS`, which `dataplane_init` checks `fp_cores_max` against. -/
def appstCtxMcs : ℕ := 32

/-- `struct rte_eth_rss_reta_entry64`. -/
structure RetaGroup where
  mask : BitVec 64
  reta : ℕ → ℕ

structure Rss where
  /-- `rss_reta_size`. -/
  size : ℕ
  /-- `rss_reta`. -/
  groups : ℕ → RetaGroup
  /-- `rss_core_buckets`, in 16 bits. -/
  buckets : ℕ → ℕ
  /-- `flow_group_steering`, in 8 bits. -/
  steering : ℕ → ℕ

namespace Rss

variable (r : Rss)

/-- The core of flow group `k` in the redirection table. -/
def entry (k : ℕ) : ℕ := (r.groups (k / retaGroupSize)).reta (k % retaGroupSize)

/-- The update mask names flow group `k`. -/
def marked (k : ℕ) : Bool := (r.groups (k / retaGroupSize)).mask.getLsbD (k % retaGroupSize)

/-- Flow group `k` is given to core `c`, and its mask is set. -/
def setReta (k c : ℕ) (mask : BitVec 64) : Rss :=
  { r with
    groups := update r.groups (k / retaGroupSize)
      { mask := mask
        reta := update (r.groups (k / retaGroupSize)).reta (k % retaGroupSize) c }
    steering := update r.steering k (c % 2 ^ 8) }

/-- The same, with the flow group added to the mask. -/
def setEntry (k c : ℕ) : Rss :=
  r.setReta k c
    ((r.groups (k / retaGroupSize)).mask ||| (1 : BitVec 64) <<< (k % retaGroupSize))

/-- `rss_core_buckets[o]--`, then `rss_core_buckets[n]++`. -/
def moveBucket (o n : ℕ) : Rss :=
  let b := update r.buckets o ((r.buckets o + (2 ^ 16 - 1)) % 2 ^ 16)
  { r with buckets := update b n ((b n + 1) % 2 ^ 16) }

/-- The loop that clears the masks. -/
def clearMask : Rss :=
  { r with groups := fun g =>
      if g * retaGroupSize < r.size then { r.groups g with mask := 0 } else r.groups g }

/-- Loop of `core_min`: the index and the count so far. The first bound is `UINT8_MAX`. -/
def coreMinLoop (buckets : ℕ → ℕ) : ℕ → ℕ × ℕ
  | 0 => (0, 255)
  | i + 1 =>
    let m := coreMinLoop buckets i
    if buckets i < m.2 then (i, buckets i) else m

def coreMin (num : ℕ) : ℕ := (coreMinLoop r.buckets num).1

def coreMaxLoop (buckets : ℕ → ℕ) : ℕ → ℕ × ℕ
  | 0 => (0, 0)
  | i + 1 =>
    let m := coreMaxLoop buckets i
    if buckets i ≥ m.2 then (i, buckets i) else m

def coreMax (num : ℕ) : ℕ := (coreMaxLoop r.buckets num).1

/-- The inner loop of `network_scale_up`, `n` times for core `j`. The search in it has no bound in
the source. -/
def scaleUpCore (fuel old j : ℕ) : ℕ → Rss × ℕ → Except Fault (Rss × ℕ)
  | 0, x => .ok x
  | n + 1, (r, k) =>
    let c := r.coreMax old
    match search (fun k => r.entry k = c) r.size fuel k with
    | none => .error .unfinished
    | some k => scaleUpCore fuel old j n ((r.setEntry k j).moveBucket c j, k)

/-- The outer loop, for `n` cores from `j` on. -/
def scaleUpLoop (fuel old share : ℕ) : ℕ → ℕ → Rss × ℕ → Except Fault (Rss × ℕ)
  | 0, _, x => .ok x
  | n + 1, j, x => do
    let x ← scaleUpCore fuel old j share x
    scaleUpLoop fuel old share n (j + 1) x

def networkScaleUp (fuel old new : ℕ) : Except Fault Rss := do
  let x ← scaleUpLoop fuel old (r.size / new) (new - old) old (r.clearMask, 0)
  return x.1

/-- One round of the loop of `network_scale_down`. -/
def scaleDownEntry (new i : ℕ) : Rss :=
  if r.entry i ≥ new then
    (r.setEntry i (r.coreMin new)).moveBucket (r.entry i) (r.coreMin new)
  else r

def scaleDownLoop (new : ℕ) : ℕ → Rss
  | 0 => r.clearMask
  | i + 1 => (scaleDownLoop new i).scaleDownEntry new i

def networkScaleDown (new : ℕ) : Rss := r.scaleDownLoop new r.size

end Rss

/-- One round of the loop of `reta_setup`. `c` goes round the cores. -/
def retaSetupLoop (cur size : ℕ) : ℕ → Rss × ℕ
  | 0 => (⟨size, fun _ => ⟨0, fun _ => 0⟩, fun _ => 0, fun _ => 0⟩, 0)
  | i + 1 =>
    let (r, c) := retaSetupLoop cur size i
    ({ r with buckets := update r.buckets c ((r.buckets c + 1) % 2 ^ 16) }.setReta i c
      (BitVec.allOnes 64), (c + 1) % cur)

/-- `rte_is_power_of_2`. -/
def isPowerOf2 (n : ℕ) : Bool := n ≠ 0 ∧ n &&& (n - 1) = 0

/-- `reta_setup`. A NIC that exposes no table has one entry for each core, rounded up. -/
def retaSetup (retaSize cur : ℕ) : Except Fault Rss :=
  let size := if retaSize = 0 then cur.nextPowerOfTwo else retaSize
  if size > maxFlowgroups then .error .assertion
  else if ¬ isPowerOf2 size then .error .assertion
  else .ok (retaSetupLoop cur size size).1

/-! ### Scaling -/

/-- The table with `fp_cores_cur` and `fp_scale_to`. -/
structure Scaling where
  rss : Rss
  cur : ℕ
  scaleTo : ℕ

/-- `flexnic_scale_to`. -/
def flexnicScaleTo (σ : Scaling) (cores : ℕ) : Scaling :=
  if σ.scaleTo ≠ 0 then σ else { σ with scaleTo := cores }

/-- `poll_scale`, when the NIC takes the new table. -/
def pollScale (fuel : ℕ) (σ : Scaling) : Except Fault Scaling :=
  let st := σ.scaleTo
  if st = 0 then .ok σ
  else do
    let rss ←
      if st < σ.cur then .ok (σ.rss.networkScaleDown (st % 2 ^ 16))
      else if st > σ.cur then σ.rss.networkScaleUp fuel (σ.cur % 2 ^ 16) (st % 2 ^ 16)
      else .ok σ.rss
    return ⟨rss, st, 0⟩

/-! ### Updates of the table -/

namespace Rss

variable {r r₀ : Rss} {k i c o n j num fuel : ℕ}

theorem index_eq_iff : (k / retaGroupSize = i / retaGroupSize ∧
    k % retaGroupSize = i % retaGroupSize) ↔ k = i := by
  constructor
  · rintro ⟨hd, hm⟩
    rw [← div_add_mod k retaGroupSize, hd, hm, div_add_mod]
  · rintro rfl
    exact ⟨rfl, rfl⟩

theorem entry_setReta {mask : BitVec 64} : (r.setReta k c mask).entry = update r.entry k c := by
  funext i
  unfold setReta entry
  dsimp only
  by_cases hd : i / retaGroupSize = k / retaGroupSize
  · rw [hd, update_self]
    dsimp only
    by_cases hm : i % retaGroupSize = k % retaGroupSize
    · obtain rfl : i = k := index_eq_iff.1 ⟨hd, hm⟩
      rw [update_self, update_self]
    · have hne : i ≠ k := fun he => hm (by rw [he])
      rw [update_of_ne hm, update_of_ne hne, hd]
  · have hne : i ≠ k := fun he => hd (by rw [he])
    rw [update_of_ne hd, update_of_ne hne]

@[simp] theorem entry_move : ((r.setEntry k c).moveBucket o n).entry = update r.entry k c :=
  entry_setReta

@[simp] theorem marked_move :
    ((r.setEntry k c).moveBucket o n).marked = update r.marked k true := by
  funext i
  have hlt : ∀ i, i % retaGroupSize < 64 := fun i => mod_lt i (by decide)
  have hbit : ∀ (m : BitVec 64) (a b : ℕ), a < 64 → b < 64 →
      (m ||| (1 : BitVec 64) <<< a).getLsbD b = (m.getLsbD b || decide (b = a)) := by
    intro m a b ha hb
    rw [BitVec.getLsbD_or, BitVec.getLsbD_shiftLeft]
    rcases lt_trichotomy b a with h | rfl | h
    · simp [h, Nat.ne_of_lt h]
    · simp [hb]
    · have hba : b - a ≠ 0 := by omega
      simp [hb, not_lt.2 h.le, ne_of_gt h, hba]
  unfold setEntry setReta moveBucket marked
  dsimp only
  by_cases hd : i / retaGroupSize = k / retaGroupSize
  · rw [hd, update_self, hbit _ _ _ (hlt k) (hlt i)]
    by_cases hm : i % retaGroupSize = k % retaGroupSize
    · obtain rfl : i = k := index_eq_iff.1 ⟨hd, hm⟩
      rw [update_self]
      simp
    · have hne : i ≠ k := fun he => hm (by rw [he])
      rw [update_of_ne hne, hd]
      simp [hm]
  · have hne : i ≠ k := fun he => hd (by rw [he])
    rw [update_of_ne hd, update_of_ne hne]

theorem buckets_move (hne : n ≠ o) : ((r.setEntry k c).moveBucket o n).buckets =
    update (update r.buckets o ((r.buckets o + (2 ^ 16 - 1)) % 2 ^ 16)) n
      ((r.buckets n + 1) % 2 ^ 16) := by
  unfold moveBucket
  dsimp only
  rw [update_of_ne hne]
  rfl

theorem entry_clearMask : r.clearMask.entry = r.entry := by
  funext k
  unfold clearMask entry
  dsimp only
  split_ifs <;> rfl

theorem marked_clearMask (hk : k < r.size) : r.clearMask.marked k = false := by
  have hle : k / retaGroupSize * retaGroupSize < r.size :=
    lt_of_le_of_lt (div_mul_le_self k retaGroupSize) hk
  unfold clearMask marked
  dsimp only
  rw [if_pos hle]
  exact BitVec.getLsbD_zero

/-! ### The cores with the fewest and the most groups -/

theorem coreMin_lt (hn : 0 < num) : r.coreMin num < num := by
  have hloop : ∀ i, (coreMinLoop r.buckets i).1 < i ∨ (coreMinLoop r.buckets i).1 = 0 := by
    intro i
    induction i with
    | zero => exact .inr rfl
    | succ i ih =>
      unfold coreMinLoop
      dsimp only
      split_ifs
      · exact .inl (lt_succ_self i)
      · rcases ih with ih | ih
        · exact .inl (lt_succ_of_lt ih)
        · exact .inr ih
  rcases hloop num with h | h
  · exact h
  · exact h.trans_lt hn

/-- The loop keeps the count of the core it names, and it is the largest so far. -/
theorem coreMaxLoop_spec (buckets : ℕ → ℕ) (i : ℕ) :
    (∀ c < i, buckets c ≤ (coreMaxLoop buckets i).2) ∧
      (0 < i → (coreMaxLoop buckets i).1 < i ∧
        (coreMaxLoop buckets i).2 = buckets (coreMaxLoop buckets i).1) := by
  induction i with
  | zero => exact ⟨fun c hc => absurd hc (not_lt_zero c), fun h => absurd h (lt_irrefl 0)⟩
  | succ i ih =>
    obtain ⟨hle, hself⟩ := ih
    unfold coreMaxLoop
    dsimp only
    split_ifs with hge
    · refine ⟨fun c hc => ?_, fun _ => ⟨lt_succ_self i, rfl⟩⟩
      rcases Nat.lt_succ_iff_lt_or_eq.1 hc with hc | rfl
      · exact (hle c hc).trans hge
      · exact le_rfl
    · have hi : 0 < i := by
        by_contra h0
        obtain rfl : i = 0 := by omega
        exact hge (zero_le _)
      obtain ⟨hlt, heq⟩ := hself hi
      refine ⟨fun c hc => ?_, fun _ => ⟨lt_succ_of_lt hlt, heq⟩⟩
      rcases Nat.lt_succ_iff_lt_or_eq.1 hc with hc | rfl
      · exact hle c hc
      · exact (Nat.lt_of_not_le hge).le

theorem coreMax_spec (hn : 0 < num) :
    r.coreMax num < num ∧ ∀ c < num, r.buckets c ≤ r.buckets (r.coreMax num) := by
  obtain ⟨hle, hself⟩ := coreMaxLoop_spec r.buckets num
  obtain ⟨hlt, heq⟩ := hself hn
  refine ⟨hlt, fun c hc => ?_⟩
  change _ ≤ r.buckets (coreMaxLoop r.buckets num).1
  rw [← heq]
  exact hle c hc

end Rss

/-! ### Consistency -/

/-- The table, its copy and the counts agree, and no entry names a core from `cores` on. -/
structure Steered (max cores : ℕ) (r : Rss) : Prop where
  entry_lt : ∀ k < r.size, r.entry k < cores
  steering : ∀ k < r.size, r.steering k = r.entry k
  buckets : ∀ c < max, r.buckets c = count r.entry r.size c
  cores_le : cores ≤ max
  max_le : max ≤ appstCtxMcs
  size_pos : 0 < r.size
  size_le : r.size ≤ maxFlowgroups

variable {r r' r₀ : Rss} {max cores k c j old new fuel n : ℕ} {x : Rss × ℕ} {cur i m retaSize : ℕ}
  {σ : Scaling}

theorem Steered.count_le (h : Steered max cores r) : count r.entry r.size c < 2 ^ 16 - 1 :=
  lt_of_le_of_lt (Fibers.count_le.trans h.size_le) (by decide)

/-- A flow group is moved to another core. -/
theorem Steered.move (h : Steered max cores r) (hk : k < r.size) (hj : j < cores)
    (hne : r.entry k ≠ j) : Steered max cores ((r.setEntry k j).moveBucket (r.entry k) j) := by
  have hjmax : j < max := lt_of_lt_of_le hj h.cores_le
  have homax : r.entry k < max := lt_of_lt_of_le (h.entry_lt k hk) h.cores_le
  have hj8 : j % 2 ^ 8 = j := mod_eq_of_lt <| by
    have hmax := h.max_le
    change max ≤ 32 at hmax
    omega
  have hpos : 0 < count r.entry r.size (r.entry k) := count_pos_iff.2 ⟨k, hk, rfl⟩
  refine ⟨fun i hi => ?_, fun i hi => ?_, fun c hc => ?_, h.cores_le, h.max_le, h.size_pos,
    h.size_le⟩
  · rw [Rss.entry_move]
    exact (forall_update_iff r.entry fun i c => i < r.size → c < cores).2
      ⟨fun _ => hj, fun i _ => h.entry_lt i⟩ i hi
  · change update r.steering k (j % 2 ^ 8) i = _
    rw [Rss.entry_move, hj8]
    by_cases hik : i = k
    · rw [hik, update_self, update_self]
    · rw [update_of_ne hik, update_of_ne hik]
      exact h.steering i hi
  · have hold := h.buckets c hc
    change _ = count _ r.size c
    rw [Rss.buckets_move (Ne.symm hne), Rss.entry_move]
    by_cases hcj : c = j
    · subst hcj
      rw [update_self, count_update_self hk hne, hold]
      exact mod_eq_of_lt (add_lt_of_lt_sub h.count_le)
    · rw [update_of_ne hcj]
      by_cases hco : c = r.entry k
      · subst hco
        have hcount := count_update_old (n := r.size) hk rfl (Ne.symm hne)
        rw [update_self, hold]
        have hlt := h.count_le (c := r.entry k)
        omega
      · rw [update_of_ne hco, hold,
          count_update_of_ne (Ne.symm hco) (Ne.symm hcj)]

/-! ### More cores -/

/-- The update mask names the entries that differ from `r₀`. -/
def Told (r₀ r : Rss) : Prop := ∀ k < r.size, r.marked k = true ↔ r.entry k ≠ r₀.entry k

/-- An entry that is as in `r₀` goes to another core. -/
theorem Told.move (h : Told r₀ r) (hsame : r.entry k = r₀.entry k) (hne : r.entry k ≠ j) :
    Told r₀ ((r.setEntry k j).moveBucket (r.entry k) j) := by
  intro i hi
  rw [Rss.entry_move, Rss.marked_move]
  by_cases hik : i = k
  · subst hik
    rw [update_self, update_self, ← hsame]
    exact iff_of_true rfl (Ne.symm hne)
  · rw [update_of_ne hik, update_of_ne hik]
    exact h i hi

theorem Told.clearMask : Told r r.clearMask := fun k hk => by
  rw [Rss.marked_clearMask (r := r) hk, Rss.entry_clearMask]
  exact iff_of_false (by decide) (not_not.2 rfl)

/-- Only entries of cores below `old` have changed, and to cores that are not. -/
structure Spread (old : ℕ) (r₀ r : Rss) : Prop where
  size : r.size = r₀.size
  told : Told r₀ r
  moved : ∀ k < r.size, r.entry k ≠ r₀.entry k → old ≤ r.entry k

/-- While there are entries that were not moved, the search finds one of the core with the most. -/
theorem Spread.search (h : Spread old r₀ r) (hr : Steered max cores r) (hold : old ≤ max)
    (hlt : ∀ k < r₀.size, r₀.entry k < old) (hcount : count r.marked r.size true < r.size)
    (hk : k < r.size) (hfuel : r.size ≤ fuel) :
    ∃ i, search (fun k => r.entry k = r.coreMax old) r.size fuel k = some i ∧ i < r.size ∧
      r.entry i = r.coreMax old ∧ r.coreMax old < old := by
  obtain ⟨i, hi, hmark⟩ := exists_ne_of_count_lt hcount
  have hsame := not_not.1 (mt (h.told i hi).2 hmark)
  have hiold : r.entry i < old := by
    rw [hsame]
    exact hlt i (h.size ▸ hi)
  obtain ⟨hmax, hle⟩ := r.coreMax_spec (zero_lt_of_lt hiold)
  -- The core of that entry has a group, and so has the core with the most.
  have hpos : 0 < count r.entry r.size (r.coreMax old) := by
    have hbi := hle _ hiold
    rw [hr.buckets _ (lt_of_lt_of_le hiold hold),
      hr.buckets _ (lt_of_lt_of_le hmax hold)] at hbi
    exact lt_of_lt_of_le (count_pos_iff.2 ⟨i, hi, rfl⟩) hbi
  obtain ⟨i', hi', heq⟩ := count_pos_iff.1 hpos
  obtain ⟨m, hm, hmlt, hmeq⟩ := search_round (p := fun k => decide (r.entry k = r.coreMax old)) hk
    hi' (decide_eq_true heq) hfuel
  exact ⟨m, hm, hmlt, of_decide_eq_true hmeq, hmax⟩

theorem Spread.move (h : Spread old r₀ r) (hk : k < r.size) (hkold : r.entry k < old)
    (hj : old ≤ j) : Spread old r₀ ((r.setEntry k j).moveBucket (r.entry k) j) ∧
      count ((r.setEntry k j).moveBucket (r.entry k) j).marked r.size true =
        count r.marked r.size true + 1 := by
  have hsame : r.entry k = r₀.entry k := by
    by_contra hne
    exact absurd hkold (not_lt.2 (h.moved k hk hne))
  refine ⟨⟨h.size, h.told.move hsame (Nat.ne_of_lt (Nat.lt_of_lt_of_le hkold hj)), ?_⟩, ?_⟩
  · rw [Rss.entry_move]
    exact (forall_update_iff r.entry fun i c => i < r.size → c ≠ r₀.entry i → old ≤ c).2
      ⟨fun _ _ => hj, fun i _ => h.moved i⟩
  · rw [Rss.marked_move]
    exact count_update_self hk fun hm => (h.told k hk).1 hm hsame

/-- What holds before and after `m` entries were moved. -/
structure Spreading (max old new : ℕ) (r₀ : Rss) (m : ℕ) (x : Rss × ℕ) : Prop where
  steered : Steered max new x.1
  spread : Spread old r₀ x.1
  count : count x.1.marked x.1.size true = m
  cursor : x.2 < x.1.size

theorem scaleUpCore_ok (h : Spreading max old new r₀ m x)
    (hold : old ≤ new) (hlt : ∀ k < r₀.size, r₀.entry k < old) (hj : old ≤ j) (hjn : j < new)
    (hfuel : r₀.size ≤ fuel) (hroom : m + n ≤ r₀.size) :
    ∃ y, Rss.scaleUpCore fuel old j n x = .ok y ∧ Spreading max old new r₀ (m + n) y := by
  induction n generalizing m x with
  | zero => exact ⟨x, rfl, h⟩
  | succ n ih =>
    obtain ⟨r, k⟩ := x
    have hsize : r.size = r₀.size := h.spread.size
    have hcount : Fibers.count r.marked r.size true < r.size := by
      rw [h.count, hsize]
      omega
    have hle : old ≤ max := hold.trans h.steered.cores_le
    obtain ⟨i, hfind, hi, hentry, hcore⟩ :=
      h.spread.search h.steered hle hlt hcount h.cursor (hsize.le.trans hfuel)
    have hiold : r.entry i < old := hentry ▸ hcore
    have hne : r.entry i ≠ j := Nat.ne_of_lt (Nat.lt_of_lt_of_le hiold hj)
    obtain ⟨hspread, hmarks⟩ := h.spread.move hi hiold hj
    have hnext : Spreading max old new r₀ (m + 1)
        ((r.setEntry i j).moveBucket (r.entry i) j, i) :=
      ⟨h.steered.move hi hjn hne, hspread, hmarks.trans (congrArg (· + 1) h.count), hi⟩
    rw [hentry] at hnext
    obtain ⟨y, hy, hspreading⟩ := ih hnext (by omega)
    refine ⟨y, ?_, by rwa [add_right_comm, add_assoc] at hspreading⟩
    unfold Rss.scaleUpCore
    dsimp only
    rw [hfind]
    exact hy

theorem scaleUpLoop_ok {share : ℕ} (h : Spreading max old new r₀ m x)
    (hold : old ≤ new) (hlt : ∀ k < r₀.size, r₀.entry k < old) (hj : old ≤ j) (hjn : j + n ≤ new)
    (hfuel : r₀.size ≤ fuel) (hroom : m + n * share ≤ r₀.size) :
    ∃ y, Rss.scaleUpLoop fuel old share n j x = .ok y ∧
      Spreading max old new r₀ (m + n * share) y := by
  induction n generalizing m x j with
  | zero =>
    rw [zero_mul]
    exact ⟨x, rfl, h⟩
  | succ n ih =>
    rw [succ_mul] at hroom ⊢
    obtain ⟨y, hy, hspreading⟩ :=
      scaleUpCore_ok (n := share) h hold hlt hj (by omega) hfuel (by omega)
    obtain ⟨z, hz, hdone⟩ := ih (j := j + 1) hspreading (by omega) (by omega) (by omega)
    refine ⟨z, ?_, ?_⟩
    · change (Rss.scaleUpCore fuel old j share x >>= _) = _
      rw [hy]
      exact hz
    · rwa [add_assoc, add_comm share] at hdone

/-- A call that changes the number of cores from `old` to `new`. -/
structure Rescaled (max new : ℕ) (r r' : Rss) : Prop where
  steered : Steered max new r'
  size : r'.size = r.size
  told : Told r r'

theorem Steered.clearMask (h : Steered max cores r) (hle : cores ≤ new) (hmax : new ≤ max) :
    Steered max new r.clearMask := by
  refine ⟨fun k hk => ?_, fun k hk => ?_, fun c hc => ?_, hmax, h.max_le, h.size_pos, h.size_le⟩
  · rw [Rss.entry_clearMask]
    exact lt_of_lt_of_le (h.entry_lt k hk) hle
  · rw [Rss.entry_clearMask]
    exact h.steering k hk
  · rw [Rss.entry_clearMask]
    exact h.buckets c hc

/-- The search always finds an entry: less than all entries are moved. -/
theorem networkScaleUp_ok (h : Steered max old r) (hlt : old < new) (hmax : new ≤ max)
    (hfuel : r.size ≤ fuel) :
    ∃ r', r.networkScaleUp fuel old new = .ok r' ∧ Rescaled max new r r' := by
  have hunmarked : count r.clearMask.marked r.size true = 0 := by
    by_contra hne
    obtain ⟨k, hk, hm⟩ := count_pos_iff.1 (pos_of_ne_zero hne)
    rw [Rss.marked_clearMask hk] at hm
    cases hm
  have hstart : Spreading max old new r 0 (r.clearMask, 0) :=
    ⟨h.clearMask hlt.le hmax, ⟨rfl, .clearMask, fun k _ hne =>
      (hne (congrFun Rss.entry_clearMask k)).elim⟩, hunmarked, h.size_pos⟩
  have hroom : 0 + (new - old) * (r.size / new) ≤ r.size := by
    rw [zero_add]
    exact (mul_le_mul_right _ (sub_le new old)).trans (mul_div_le r.size new)
  obtain ⟨⟨r', k⟩, hloop, hdone⟩ :=
    scaleUpLoop_ok hstart hlt.le h.entry_lt le_rfl (by omega) hfuel hroom
  refine ⟨r', ?_, hdone.steered, hdone.spread.size, hdone.spread.told⟩
  unfold Rss.networkScaleUp
  rw [hloop]
  rfl

/-! ### Fewer cores -/

/-- The first `i` entries are done, and the others are as in `r₀`. -/
structure Shrinking (max old new : ℕ) (r₀ : Rss) (i : ℕ) (r : Rss) : Prop where
  steered : Steered max old r
  size : r.size = r₀.size
  told : Told r₀ r
  done : ∀ k < i, r.entry k < new
  rest : ∀ k, i ≤ k → r.entry k = r₀.entry k

theorem scaleDownEntry_ok (h : Shrinking max old new r₀ i r) (hnew : 0 < new) (hlt : new ≤ old)
    (hi : i < r.size) : Shrinking max old new r₀ (i + 1) (r.scaleDownEntry new i) := by
  unfold Rss.scaleDownEntry
  split_ifs with hge
  · have hmin : r.coreMin new < new := Rss.coreMin_lt hnew
    have hne : r.entry i ≠ r.coreMin new := ne_of_gt (lt_of_lt_of_le hmin hge)
    refine ⟨h.steered.move hi (lt_of_lt_of_le hmin hlt) hne, h.size,
      h.told.move (h.rest i le_rfl) hne, ?_, ?_⟩
    · rw [Rss.entry_move]
      exact (forall_update_iff r.entry fun k c => k < i + 1 → c < new).2
        ⟨fun _ => hmin, fun k hki hk => h.done k (by omega)⟩
    · rw [Rss.entry_move]
      exact (forall_update_iff r.entry fun k c => i + 1 ≤ k → c = r₀.entry k).2
        ⟨fun hk => (not_succ_le_self i hk).elim, fun k _ hk => h.rest k (le_of_succ_le hk)⟩
  · refine ⟨h.steered, h.size, h.told, fun k hk => ?_, fun k hk => h.rest k (le_of_succ_le hk)⟩
    rcases Nat.lt_succ_iff_lt_or_eq.1 hk with hk | rfl
    · exact h.done k hk
    · exact Nat.lt_of_not_le hge

theorem scaleDownLoop_ok (h : Steered max old r) (hnew : 0 < new) (hlt : new ≤ old)
    (hi : i ≤ r.size) : Shrinking max old new r i (r.scaleDownLoop new i) := by
  induction i with
  | zero =>
    exact ⟨h.clearMask le_rfl h.cores_le, rfl, .clearMask, fun k hk => absurd hk (not_lt_zero k),
      fun k _ => congrFun Rss.entry_clearMask k⟩
  | succ i ih =>
    have hprev := ih (le_of_succ_le hi)
    exact scaleDownEntry_ok hprev hnew hlt (lt_of_lt_of_eq hi hprev.size.symm)

theorem networkScaleDown_ok (h : Steered max old r) (hnew : 0 < new) (hlt : new ≤ old) :
    Rescaled max new r (r.networkScaleDown new) := by
  have hloop := scaleDownLoop_ok h hnew hlt (le_refl r.size)
  exact ⟨⟨fun k hk => hloop.done k (lt_of_lt_of_eq hk hloop.size), hloop.steered.steering,
    hloop.steered.buckets, hlt.trans h.cores_le, h.max_le, hloop.steered.size_pos,
    hloop.steered.size_le⟩, hloop.size, hloop.told⟩

/-! ### The first table -/

/-- The first `i` entries go round the cores. -/
structure Filling (cur size i : ℕ) (x : Rss × ℕ) : Prop where
  size : x.1.size = size
  next : x.2 < cur
  entry_lt : ∀ k < i, x.1.entry k < cur
  steering : ∀ k < i, x.1.steering k = x.1.entry k
  buckets : ∀ c, x.1.buckets c = count x.1.entry i c

theorem retaSetupLoop_ok {size : ℕ} (hcur : 0 < cur) (hmax : cur ≤ appstCtxMcs)
    (hi : i ≤ maxFlowgroups) : Filling cur size i (retaSetupLoop cur size i) := by
  induction i with
  | zero =>
    refine ⟨rfl, hcur, fun k hk => absurd hk (not_lt_zero k),
      fun k hk => absurd hk (not_lt_zero k), fun c => rfl⟩
  | succ i ih =>
    obtain ⟨hsize, hnext, hlt, hsteer, hbuckets⟩ := ih (le_of_succ_le hi)
    unfold retaSetupLoop
    generalize retaSetupLoop cur size i = x at hsize hnext hlt hsteer hbuckets
    obtain ⟨r, c⟩ := x
    dsimp only at hsize hnext hlt hsteer hbuckets ⊢
    have hc8 : c % 2 ^ 8 = c := mod_eq_of_lt (hnext.trans_le (hmax.trans (by decide)))
    have hentry : (Rss.setReta { r with
        buckets := update r.buckets c ((r.buckets c + 1) % 2 ^ 16) } i c
        (BitVec.allOnes 64)).entry = update r.entry i c := Rss.entry_setReta
    refine ⟨hsize, mod_lt _ hcur, fun k hk => ?_, fun k hk => ?_, fun d => ?_⟩
    · rw [hentry]
      rcases Nat.lt_succ_iff_lt_or_eq.1 hk with hk | rfl
      · rw [update_of_ne (Nat.ne_of_lt hk)]
        exact hlt k hk
      · rw [update_self]
        exact hnext
    · rw [hentry]
      change update r.steering i (c % 2 ^ 8) k = _
      rw [hc8]
      rcases Nat.lt_succ_iff_lt_or_eq.1 hk with hk | rfl
      · rw [update_of_ne (Nat.ne_of_lt hk), update_of_ne (Nat.ne_of_lt hk)]
        exact hsteer k hk
      · rw [update_self, update_self]
    · rw [hentry, count_snoc]
      change update r.buckets c ((r.buckets c + 1) % 2 ^ 16) d = _
      by_cases hd : d = c
      · subst hd
        have hle : r.buckets d ≤ i := (hbuckets d).trans_le Fibers.count_le
        have hbound : i + 1 ≤ 4096 := hi
        rw [update_self, if_pos rfl, ← hbuckets]
        exact mod_eq_of_lt (by omega)
      · rw [update_of_ne hd, if_neg (Ne.symm hd), add_zero]
        exact hbuckets d

theorem retaSetup_steered (hcur : 0 < cur) (hle : cur ≤ max)
    (hmax : max ≤ appstCtxMcs) (hs : retaSetup retaSize cur = .ok r) : Steered max cur r := by
  unfold retaSetup at hs
  dsimp only at hs
  generalize (if retaSize = 0 then cur.nextPowerOfTwo else retaSize) = size at hs
  split_ifs at hs with hbig hpow
  cases hs
  obtain ⟨hsize, -, hlt, hsteer, hbuckets⟩ :=
    @retaSetupLoop_ok cur size size hcur (hle.trans hmax) (not_lt.1 hbig)
  have hpos : 0 < size := pos_of_ne_zero (of_decide_eq_true hpow).1
  refine ⟨?_, ?_, fun c _ => ?_, hle, hmax, ?_, ?_⟩
  · rw [hsize]
    exact hlt
  · rw [hsize]
    exact hsteer
  · rw [hsize]
    exact hbuckets c
  · rw [hsize]
    exact hpos
  · rw [hsize]
    exact not_lt.1 hbig

/-- The table is set up for every power of two that is not too large. -/
theorem retaSetup_ok (hm : 2 ^ m ≤ maxFlowgroups) : ∃ r, retaSetup (2 ^ m) cur = .ok r := by
  have hne : 2 ^ m ≠ 0 := Nat.ne_of_gt (Nat.two_pow_pos m)
  have hand : 2 ^ m &&& (2 ^ m - 1) = 0 := by
    rw [and_two_pow_sub_one_eq_mod, mod_self]
  have hpow : isPowerOf2 (2 ^ m) = true := decide_eq_true ⟨hne, hand⟩
  unfold retaSetup
  dsimp only
  rw [if_neg hne, if_neg (not_lt.2 hm), if_neg (not_not.2 hpow)]
  exact ⟨_, rfl⟩

/-! ### Runs -/

/-- Requests for a number of cores, and `poll_scale`, whose searches may go round the table. -/
inductive ScaleStep (max : ℕ) (σ : Scaling) : Scaling → Prop
  | request (cores : ℕ) (hpos : 0 < cores) (hle : cores ≤ max) :
    ScaleStep max σ (flexnicScaleTo σ cores)
  | poll (fuel : ℕ) (σ' : Scaling) (hfuel : σ.rss.size ≤ fuel)
    (h : pollScale fuel σ = .ok σ') : ScaleStep max σ σ'

structure ScaleInv (max : ℕ) (σ : Scaling) : Prop where
  steered : Steered max σ.cur σ.rss
  cur_pos : 0 < σ.cur
  scaleTo_le : σ.scaleTo ≤ max

/-- A call of `poll_scale`. If it changes the number of cores, the NIC is told of the entries that
have changed. -/
structure ScalePolled (max : ℕ) (σ σ' : Scaling) : Prop where
  inv : ScaleInv max σ'
  marked : σ'.cur ≠ σ.cur → ∀ k < σ'.rss.size,
    (σ'.rss.marked k = true ↔ σ'.rss.entry k ≠ σ.rss.entry k)

theorem pollScale_ok (h : ScaleInv max σ) (hfuel : σ.rss.size ≤ fuel) :
    ∃ σ', pollScale fuel σ = .ok σ' ∧ ScalePolled max σ σ' := by
  have hmax : max ≤ 32 := h.steered.max_le
  have hst : σ.scaleTo % 2 ^ 16 = σ.scaleTo :=
    mod_eq_of_lt (h.scaleTo_le.trans_lt (hmax.trans_lt (by decide)))
  have hcur : σ.cur % 2 ^ 16 = σ.cur :=
    mod_eq_of_lt (h.steered.cores_le.trans_lt (hmax.trans_lt (by decide)))
  unfold pollScale
  dsimp only
  by_cases h0 : σ.scaleTo = 0
  · rw [if_pos h0]
    exact ⟨σ, rfl, h, fun hne => (hne rfl).elim⟩
  rw [if_neg h0, hst, hcur]
  have hpos : 0 < σ.scaleTo := pos_of_ne_zero h0
  rcases lt_trichotomy σ.scaleTo σ.cur with hlt | heq | hgt
  · have hdown := networkScaleDown_ok h.steered hpos hlt.le
    rw [if_pos hlt]
    exact ⟨_, rfl, ⟨hdown.steered, hpos, zero_le max⟩, fun _ => hdown.told⟩
  · rw [if_neg (by omega), if_neg (by omega)]
    exact ⟨_, rfl, ⟨heq ▸ h.steered, hpos, zero_le max⟩, fun hne => (hne heq).elim⟩
  · obtain ⟨r', hup, hrescaled⟩ := networkScaleUp_ok h.steered hgt h.scaleTo_le hfuel
    rw [if_neg (by omega), if_pos hgt, hup]
    exact ⟨_, rfl, ⟨hrescaled.steered, hpos, zero_le max⟩, fun _ => hrescaled.told⟩

theorem scaleInv_step {σ' : Scaling} (h : ScaleInv max σ) (hs : ScaleStep max σ σ') :
    ScaleInv max σ' := by
  cases hs with
  | request cores hpos hle =>
    unfold flexnicScaleTo
    split_ifs
    · exact h
    · exact ⟨h.steered, h.cur_pos, hle⟩
  | poll fuel σ' hfuel hs =>
    obtain ⟨σ₁, hs₁, hpolled⟩ := pollScale_ok h hfuel
    cases hs₁.symm.trans hs
    exact hpolled.inv

theorem scaleInv_run (hcur : 0 < cur) (hle : cur ≤ max)
    (hmax : max ≤ appstCtxMcs) (hr : retaSetup retaSize cur = .ok r)
    (hrun : Relation.ReflTransGen (ScaleStep max) ⟨r, cur, 0⟩ σ) : ScaleInv max σ := by
  induction hrun with
  | refl => exact ⟨retaSetup_steered hcur hle hmax hr, hcur, zero_le max⟩
  | tail _ hs ih => exact scaleInv_step ih hs

/-- All that holds of a state of the table. -/
structure SteeringOk (max : ℕ) (σ : Scaling) : Prop where
  steered : Steered max σ.cur σ.rss
  polls : ∀ fuel, σ.rss.size ≤ fuel → ∃ σ', pollScale fuel σ = .ok σ' ∧ ScalePolled max σ σ'

/-- `reta_setup` takes every power of two that is not too large. In every state that is reached from
there, the tables agree, and `poll_scale` returns and marks what it has changed. -/
theorem steering_stays_consistent {cur : ℕ} (hcur : 0 < cur) (hle : cur ≤ max)
    (hmax : max ≤ appstCtxMcs) :
    (∀ m, 2 ^ m ≤ maxFlowgroups → ∃ r, retaSetup (2 ^ m) cur = .ok r) ∧
      ∀ retaSize r σ, retaSetup retaSize cur = .ok r →
        Relation.ReflTransGen (ScaleStep max) ⟨r, cur, 0⟩ σ → SteeringOk max σ := by
  refine ⟨fun m hm => retaSetup_ok hm, fun retaSize r σ hr hrun => ?_⟩
  have hinv := scaleInv_run hcur hle hmax hr hrun
  exact ⟨hinv.steered, fun fuel hfuel => pollScale_ok hinv hfuel⟩

/-- With 128 flow groups, and 3 of 4 cores. -/
theorem steering_of_128 : ∃ r, retaSetup (2 ^ 7) 3 = .ok r ∧
    ∀ σ, Relation.ReflTransGen (ScaleStep 4) ⟨r, 3, 0⟩ σ → SteeringOk 4 σ := by
  obtain ⟨hsetup, hok⟩ := @steering_stays_consistent 4 3 (by decide) (by decide) (by decide)
  obtain ⟨r, hr⟩ := hsetup 7 (by decide)
  exact ⟨r, hr, fun σ hrun => hok _ r σ hr hrun⟩

end Tas
