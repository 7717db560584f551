import Tas.Steering

/-! How evenly the flow groups are spread when cores are taken away, and the numbers of cores that
the fast path is asked to scale to. -/
namespace Tas

open Outcome Fibers Function Relation Finset

variable {r : Rss} {σ : Scaling} {max old new cores num n cur retaSize c i j : ℕ}

/-! ### Taking cores away -/

/-- The loop names a core with the fewest groups, or the first if none has less than 255. -/
theorem Rss.coreMin_spec :
    (r.coreMin n = 0 ∧ ∀ c < n, 255 ≤ r.buckets c) ∨
      r.buckets (r.coreMin n) < 255 ∧ ∀ c < n, r.buckets (r.coreMin n) ≤ r.buckets c := by
  have hloop : ∀ i, (coreMinLoop r.buckets i = (0, 255) ∧ ∀ c < i, 255 ≤ r.buckets c) ∨
      (coreMinLoop r.buckets i).2 = r.buckets (coreMinLoop r.buckets i).1 ∧
        r.buckets (coreMinLoop r.buckets i).1 < 255 ∧
          ∀ c < i, r.buckets (coreMinLoop r.buckets i).1 ≤ r.buckets c := by
    intro i
    induction i with
    | zero => exact .inl ⟨rfl, fun c hc => absurd hc (Nat.not_lt_zero c)⟩
    | succ i ih =>
      unfold coreMinLoop
      dsimp only
      split_ifs <;> grind
  rcases hloop n with ⟨h, hall⟩ | ⟨-, hlt, hall⟩
  · exact .inl ⟨congrArg Prod.fst h, hall⟩
  · exact .inr ⟨hlt, hall⟩

theorem Steered.sum_buckets (h : Steered max cores r) (hnum : num ≤ max) :
    ∑ c ∈ range num, r.buckets c =
      ((range r.size).filter fun k => r.entry k ∈ range num).card := by
  rw [sum_congr rfl fun c hc => h.buckets c ((mem_range.1 hc).trans_le hnum)]
  exact sum_card_fiberwise_eq_card_filter ..

/-- The counts of the remaining cores when a group is moved to core `j`. -/
theorem Steered.buckets_move (h : Steered max cores r) (hi : i < r.size) (hj : j < new)
    (hge : new ≤ r.entry i) (hc : c < new) :
    ((r.setEntry i j).moveBucket (r.entry i) j).buckets c =
      r.buckets c + if c = j then 1 else 0 := by
  have hjmax : j < max := (hj.trans_le hge).trans ((h.entry_lt i hi).trans_le h.cores_le)
  rw [Rss.buckets_move (by omega)]
  split_ifs with hcj
  · rw [hcj, update_self, h.buckets j hjmax]
    exact Nat.mod_eq_of_lt (Nat.add_lt_of_lt_sub h.count_le)
  · rw [update_of_ne hcj, update_of_ne (by omega), Nat.add_zero]

/-- No two of the first `n` cores differ by more than one group. -/
def Evened (n : ℕ) (r : Rss) : Prop := ∀ c < n, ∀ d < n, r.buckets c ≤ r.buckets d + 1

/-- Every group that `network_scale_down` moves goes to a remaining core with the fewest groups, and
counts that were even stay even. -/
structure ScaleDownBalances (new : ℕ) (r : Rss) : Prop where
  least : ∀ i < r.size, new ≤ (r.scaleDownLoop new i).entry i →
    (r.scaleDownLoop new i).coreMin new < new ∧
      ∀ c < new, (r.scaleDownLoop new i).buckets ((r.scaleDownLoop new i).coreMin new) ≤
        (r.scaleDownLoop new i).buckets c
  even : Evened new r → Evened new (r.networkScaleDown new)

/-- While a group is left to move, the remaining cores do not have all groups, so that one of them
is below the bound the search starts from. -/
theorem coreMin_least (h : Steered max old r) (hnew : new ≤ max)
    (hfew : new = 1 ∨ r.size ≤ 255 * new) (hi : i < r.size) (hge : new ≤ r.entry i) (hc : c < new) :
    r.buckets (r.coreMin new) ≤ r.buckets c := by
  rcases r.coreMin_spec (n := new) with ⟨hzero, hall⟩ | ⟨-, hall⟩
  · rcases hfew with rfl | hfew
    · rw [hzero, Nat.lt_one_iff.1 hc]
    · have hsub := card_lt_card (filter_ssubset (p := (r.entry · ∈ range new)).2
        ⟨i, mem_range.2 hi, fun hmem => (mem_range.1 hmem).not_ge hge⟩)
      have hsum := card_nsmul_le_sum (range new) r.buckets 255
        fun c hc => hall c (mem_range.1 hc)
      rw [h.sum_buckets hnew, card_range, smul_eq_mul] at hsum
      rw [card_range] at hsub
      omega
  · exact hall c hc

theorem scaleDown_balances (h : Steered max old r) (hnew : 0 < new) (hlt : new ≤ old)
    (hfew : new = 1 ∨ r.size ≤ 255 * new) : ScaleDownBalances new r := by
  have hloop := fun i hi => @scaleDownLoop_ok r max old new i h hnew hlt hi
  have hleast : ∀ i < r.size, new ≤ (r.scaleDownLoop new i).entry i → ∀ c < new,
      (r.scaleDownLoop new i).buckets ((r.scaleDownLoop new i).coreMin new) ≤
        (r.scaleDownLoop new i).buckets c := by
    intro i hi hge c hc
    have hs := hloop i hi.le
    exact coreMin_least hs.steered (hlt.trans h.cores_le) (by rwa [hs.size]) (by rwa [hs.size])
      hge hc
  refine ⟨fun i hi hge => ⟨Rss.coreMin_lt hnew, hleast i hi hge⟩, fun heven => ?_⟩
  have hrun : ∀ i ≤ r.size, Evened new (r.scaleDownLoop new i) := by
    intro i hi
    induction i with
    | zero => exact heven
    | succ i ih =>
      intro c hc d hd
      have hs := hloop i (Nat.le_of_succ_le hi)
      have hprev := ih (Nat.le_of_succ_le hi)
      unfold Rss.scaleDownLoop Rss.scaleDownEntry
      split_ifs with hge
      · have hmin := @Rss.coreMin_lt (r.scaleDownLoop new i) new hnew
        have hle := hleast i hi hge d hd
        rw [hs.steered.buckets_move (hs.size ▸ hi) hmin hge hc,
          hs.steered.buckets_move (hs.size ▸ hi) hmin hge hd]
        -- Only the core that gets the group gains on another, and no core has less.
        have hcd := hprev c hc d hd
        split_ifs with hcm <;> grind
      · exact hprev c hc d hd
  exact hrun r.size le_rfl

/-- In every state of the table that is reached, taking cores away keeps the balance if the
remaining cores have at most 255 groups each on average. -/
theorem scaling_down_keeps_balance (hcur : 0 < cur) (hle : cur ≤ max) (hmax : max ≤ appstCtxMcs)
    (hr : retaSetup retaSize cur = .ok r)
    (hrun : ReflTransGen (ScaleStep max) ⟨r, cur, 0⟩ σ) (hnew : 0 < new) (hlt : new < σ.cur)
    (hfew : new = 1 ∨ σ.rss.size ≤ 255 * new) : ScaleDownBalances new σ.rss :=
  scaleDown_balances (scaleInv_run hcur hle hmax hr hrun).steered hnew hlt.le hfew

/-- The table that `reta_setup` makes for four cores. -/
def fourCores (size : ℕ) : Rss := (retaSetupLoop 4 size size).1

def threeCores : Scaling := ⟨(fourCores 128).networkScaleDown 3, 3, 0⟩

/-- One core is taken away, and then another one. -/
theorem four_cores_to_two : retaSetup 128 4 = .ok (fourCores 128) ∧
    ScaleDownBalances 2 threeCores.rss := by
  have hrun : ReflTransGen (ScaleStep 4) ⟨fourCores 128, 4, 0⟩ threeCores :=
    .tail (.single (.request 3 (by decide) (by decide)))
      (.poll 128 threeCores (by decide +kernel) rfl)
  have hfew : threeCores.rss.size ≤ 255 * 2 := by decide +kernel
  exact ⟨rfl, @scaling_down_keeps_balance (fourCores 128) threeCores 4 2 4 128 (by decide)
    (by decide) (by decide) rfl hrun (by decide) (by decide) (.inr hfew)⟩

/-- With two cores left, the second never gets more than 255 groups, and the first gets more only
when the second has 255. -/
theorem scaleDownLoop_two (h : Steered max old r) (hold : 2 ≤ old) (h0 : r.buckets 0 ≤ 255)
    (h1 : r.buckets 1 ≤ 255) (hi : i ≤ r.size) :
    (r.scaleDownLoop 2 i).buckets 1 ≤ 255 ∧
      ((r.scaleDownLoop 2 i).buckets 0 ≤ 255 ∨ (r.scaleDownLoop 2 i).buckets 1 = 255) := by
  induction i with
  | zero => exact ⟨h1, .inl h0⟩
  | succ i ih =>
    have hs := @scaleDownLoop_ok r max old 2 i h (by decide) hold (Nat.le_of_succ_le hi)
    have hprev := ih (Nat.le_of_succ_le hi)
    unfold Rss.scaleDownLoop Rss.scaleDownEntry
    split_ifs with hge
    · have hmin := @Rss.coreMin_lt (r.scaleDownLoop 2 i) 2 (by decide)
      rw [hs.steered.buckets_move (hs.size ▸ hi) hmin hge (by decide),
        hs.steered.buckets_move (hs.size ▸ hi) hmin hge (by decide)]
      rcases (r.scaleDownLoop 2 i).coreMin_spec (n := 2) with ⟨hm, hall⟩ | ⟨hlow, -⟩
      · grind
      · grind
    · exact hprev

theorem last_group_to_first (h : Steered 4 4 r) (hsize : r.size = 512) (h0 : r.buckets 0 = 128)
    (h1 : r.buckets 1 = 128) (hlast : r.entry 511 = 3) : ¬ Evened 2 (r.networkScaleDown 2) := by
  intro heven
  have hs := @scaleDownLoop_ok _ 4 4 2 511 h (by decide) (by decide) (by omega)
  obtain ⟨hsecond, hfirst⟩ := @scaleDownLoop_two _ 4 4 511 h (by decide) (by omega) (by omega)
    (by omega)
  unfold Rss.networkScaleDown at heven
  rw [hsize] at heven
  unfold Rss.scaleDownLoop Rss.scaleDownEntry at heven
  have hsz := hs.size.trans hsize
  have hentry := (hs.rest 511 le_rfl).trans hlast
  generalize r.scaleDownLoop 2 511 = t at hs hsecond hfirst heven hsz hentry
  have hge : 2 ≤ t.entry 511 := by omega
  -- All groups but the last are on the two cores: 256 on the first and 255 on the second.
  have hset : (range t.size).filter (fun k => t.entry k ∈ range 2) =
      range 511 := by
    ext k
    simp only [mem_filter, mem_range, hsz]
    have hdone := hs.done k
    grind
  have hsum := hs.steered.sum_buckets (show 2 ≤ 4 by decide)
  rw [hset, card_range, sum_range_succ, sum_range_one] at hsum
  have hmin : t.coreMin 2 = 0 := by
    have hlt := @Rss.coreMin_lt t 2 (by decide)
    rcases t.coreMin_spec (n := 2) with ⟨hm, -⟩ | ⟨hlow, -⟩ <;> grind
  have hbad := heven 0 (by decide) 1 (by decide)
  rw [if_pos hge, hmin, hs.steered.buckets_move (by omega) (by decide) hge (by decide),
    hs.steered.buckets_move (by omega) (by decide) hge (by decide), if_pos rfl,
    if_neg (by decide)] at hbad
  omega

/-- Of 512 groups, the last goes to the first core, which has 256 while the second has 255. -/
theorem last_group_unbalanced : retaSetup 512 4 = .ok (fourCores 512) ∧ Evened 2 (fourCores 512) ∧
    ¬ Evened 2 ((fourCores 512).networkScaleDown 2) := by
  have hr : retaSetup 512 4 = .ok (fourCores 512) := rfl
  have h0 : (fourCores 512).buckets 0 = 128 := by decide +kernel
  have h1 : (fourCores 512).buckets 1 = 128 := by decide +kernel
  refine ⟨hr, fun c hc d hd => by interval_cases c <;> interval_cases d <;> omega, ?_⟩
  exact last_group_to_first (retaSetup_steered (by decide) (by decide) (by decide) hr)
    (by decide +kernel) h0 h1 (by decide +kernel)

/-! ### The numbers of cores asked for -/

/-- The numbers of cores that `poll_scale` calls `network_scale_up` or `network_scale_down` with. -/
def scaleArgs (σ : Scaling) : Option (ℕ × ℕ) :=
  if σ.scaleTo = 0 ∨ σ.scaleTo = σ.cur then none
  else some (σ.cur % 2 ^ 16, σ.scaleTo % 2 ^ 16)

theorem pollScale_eq (fuel : ℕ) : pollScale fuel σ =
    match scaleArgs σ with
    | none => .ok ⟨σ.rss, σ.cur, 0⟩
    | some (old, new) =>
      (if σ.scaleTo < σ.cur then .ok (σ.rss.networkScaleDown new)
        else σ.rss.networkScaleUp fuel old new) >>= fun rss => pure ⟨rss, σ.scaleTo, 0⟩ := by
  obtain ⟨rss, cur, scaleTo⟩ := σ
  unfold pollScale scaleArgs
  dsimp only
  by_cases h0 : scaleTo = 0
  · simp [h0]
  rcases Nat.lt_trichotomy scaleTo cur with hlt | rfl | hgt
  · simp [h0, hlt, hlt.ne]
  · simp [h0]
  · simp [h0, hgt, hgt.ne', hgt.not_gt]

/-- The decision of `flexnic_loadmon`, from the number of cores it has read and its averages. -/
def flexnicLoadmon (max numCores : ℕ) (ewmaBusy ewmaCycles : BitVec 64) : Option ℕ :=
  let total := BitVec.ofNat 64 numCores * ewmaCycles
  let idCyc := if total > ewmaBusy then total - ewmaBusy else 0
  if numCores > 1 ∧ idCyc > ewmaCycles * 5 / 4 then some (numCores - 1)
  else if numCores < max ∧ idCyc < ewmaCycles / 5 then some (numCores + 1)
  else none

/-- The requests of applications, of which those in `ok` may come, the decisions of
`flexnic_loadmon`, which are for the number of cores it has read, and `poll_scale`. -/
inductive ScaleAsked (max : ℕ) (ok : Scaling → BitVec 32 → Prop) :
    Scaling × ℕ → Scaling × ℕ → Prop
  | kinReqScale (s : Scaling) (n : ℕ) (numCores : BitVec 32) (hok : ok s numCores) :
    ScaleAsked max ok (s, n) (flexnicScaleTo s numCores.toNat, n)
  | loadmonRead (s : Scaling) (n : ℕ) : ScaleAsked max ok (s, n) (s, s.cur)
  | loadmonScale (s : Scaling) (n c : ℕ) (ewmaBusy ewmaCycles : BitVec 64)
    (h : flexnicLoadmon max n ewmaBusy ewmaCycles = some c) :
    ScaleAsked max ok (s, n) (flexnicScaleTo s c, n)
  | poll (s s' : Scaling) (n fuel : ℕ) (h : pollScale fuel s = .ok s') :
    ScaleAsked max ok (s, n) (s', n)

/-- The number of cores in use, the one read last and the one asked for are in range. -/
def InCores (max : ℕ) (x : Scaling × ℕ) : Prop :=
  (1 ≤ x.1.cur ∧ x.1.cur ≤ max) ∧ x.1.scaleTo ≤ max ∧ 1 ≤ x.2 ∧ x.2 ≤ max

/-- No request that is taken is for more than `fp_cores_max` cores. -/
def AsksFor (max : ℕ) (σ : Scaling) (numCores : BitVec 32) : Prop :=
  σ.scaleTo = 0 → numCores.toNat ≤ max

theorem inCores_step {x y : Scaling × ℕ} (h : InCores max x)
    (hs : ScaleAsked max (AsksFor max) x y) : InCores max y := by
  obtain ⟨hcur, hto, hread⟩ := h
  cases hs with
  | kinReqScale s n numCores hok =>
    unfold flexnicScaleTo
    split_ifs with hbusy
    · exact ⟨hcur, hto, hread⟩
    · exact ⟨hcur, hok (not_not.1 hbusy), hread⟩
  | loadmonRead s n => exact ⟨hcur, hto, hcur⟩
  | loadmonScale s n c ewmaBusy ewmaCycles hc =>
    have hcmax : c ≤ max := by
      unfold flexnicLoadmon at hc
      grind
    unfold flexnicScaleTo
    split_ifs
    · exact ⟨hcur, hto, hread⟩
    · exact ⟨hcur, hcmax, hread⟩
  | poll s s' n fuel hpoll =>
    rw [pollScale_eq] at hpoll
    cases hargs : scaleArgs s with
    | none =>
      rw [hargs] at hpoll
      cases hpoll
      exact ⟨hcur, Nat.zero_le max, hread⟩
    | some args =>
      rw [hargs] at hpoll
      obtain ⟨rss, -, hs'⟩ := of_bind_ok hpoll
      cases hs'
      unfold scaleArgs at hargs
      split_ifs at hargs with hnone
      exact ⟨⟨Nat.pos_of_ne_zero fun h0 => hnone (.inl h0), hto⟩, Nat.zero_le max, hread⟩

/-- `network_scale_up` and `network_scale_down` are only called with numbers of cores that exist,
if applications only ask for such numbers. -/
theorem scale_calls_in_cores {x : Scaling × ℕ} (hpos : 0 < max) (hmax : max ≤ appstCtxMcs)
    (hrun : ReflTransGen (ScaleAsked max (AsksFor max)) (⟨r, max, 0⟩, max) x) :
    ∀ old new, scaleArgs x.1 = some (old, new) →
      (1 ≤ old ∧ old ≤ max) ∧ 1 ≤ new ∧ new ≤ max := by
  have hinv : InCores max x := by
    induction hrun with
    | refl => exact ⟨⟨hpos, le_rfl⟩, Nat.zero_le max, hpos, le_rfl⟩
    | tail _ hs ih => exact inCores_step ih hs
  intro old new hargs
  obtain ⟨hcur, hto, -⟩ := hinv
  have hsmall : max ≤ 32 := hmax
  unfold scaleArgs at hargs
  grind

/-- A request for one of two cores. -/
theorem one_of_two_cores : scaleArgs (flexnicScaleTo ⟨fourCores 128, 2, 0⟩ 1) = some (2, 1) ∧
    (1 ≤ 2 ∧ 2 ≤ 2) ∧ 1 ≤ 1 ∧ 1 ≤ 2 :=
  ⟨by decide, scale_calls_in_cores (r := fourCores 128) (x := (_, 2)) (by decide) (by decide)
    (.single (.kinReqScale _ _ 1 fun _ => by decide)) 2 1 (by decide)⟩

/-- An application asks for 65536 cores, and the table's size is divided by 0. -/
theorem scale_to_no_core : ∃ x, ReflTransGen (ScaleAsked 1 fun _ _ => True)
    (⟨fourCores 128, 1, 0⟩, 1) x ∧ scaleArgs x.1 = some (1, 0) :=
  ⟨_, .single (.kinReqScale _ _ (2 ^ 16) trivial), by decide⟩

end Tas
