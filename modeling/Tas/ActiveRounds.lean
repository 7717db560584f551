import Tas.ActiveList

/-! Rounds of polling: the rings of active VMs and contexts stay well formed. -/
namespace Tas

open Outcome Cyclic Function Relation List

/-! ### A round over the active VMs -/

variable {p p' p₀ : Polling} {vs xs done : List U32} {cs : U32 → List U32} {r : ActiveRing}
  {i v w c : U32} {inp : RoundInput} {reg : Registry} {s s' : PollRound} {fuel : ℕ}
  {rem : List (U32 × U32)} {oob seen : List U32}

/-- One more round without an entry, and the context is recorded. -/
def Polling.Late (p : Polling) (x : U32 × U32) : Prop := maxNullRounds ≤ nextNullRounds (p.nulls x)

/-- There is a buffer and all VMs have budget, but no context has an entry. -/
def quietRound : RoundInput := ⟨fun _ => false, fun _ => 1, 1⟩

theorem fetchActiveCtxLoop_spec (inp : RoundInput) (n : ℕ) (h : Rings s.polling vs cs) (v c : U32) :
    Rings (fetchActiveCtxLoop inp v c n s).polling vs cs ∧
      ((fetchActiveCtxLoop inp v c n s).remCtxs = s.remCtxs ∨
        (fetchActiveCtxLoop inp v c n s).remCtxs = s.remCtxs ++ [(v, c)] ∧
          s.polling.Late (v, c)) ∧
      ∀ x ≠ (v, c), (fetchActiveCtxLoop inp v c n s).polling.nulls x = s.polling.nulls x := by
  have hnulls (k : U16) (x : U32 × U32) (hx : x ≠ (v, c)) :
      (s.polling.setNullRounds v c k).nulls x = s.polling.nulls x := by
    rw [nulls_setNullRounds, if_neg hx]
  induction n generalizing s with
  | zero => exact ⟨h, .inl rfl, fun _ _ => rfl⟩
  | succ n ih =>
    unfold fetchActiveCtxLoop
    dsimp only
    split_ifs with hk hfetched hlate
    · -- after an entry the context is not late
      have hzero (k : U16) (x : U32 × U32) (hx : x ≠ (v, c)) :
          ((s.polling.setNullRounds v c 0).setNullRounds v c k).nulls x =
            (s.polling.setNullRounds v c 0).nulls x := by
        rw [nulls_setNullRounds, if_neg hx]
      obtain ⟨hrings, hrem, hother⟩ := ih
        (s := { s with polling := _, k := s.k + 1, total := s.total + 1, calls := s.calls + 1 })
        (h.setNullRounds v c 0) hzero
      refine ⟨hrings, .inl (hrem.resolve_right fun hr => ?_), fun x hx =>
        (hother x hx).trans (hnulls 0 x hx)⟩
      have hlate : maxNullRounds ≤ nextNullRounds ((s.polling.setNullRounds v c 0).nulls (v, c)) :=
        hr.2
      rw [nulls_setNullRounds, if_pos rfl] at hlate
      exact absurd hlate (by decide)
    · exact ⟨h.setNullRounds v c _, .inr ⟨rfl, hlate⟩, hnulls _⟩
    · exact ⟨h.setNullRounds v c _, .inl rfl, hnulls _⟩
    · exact ⟨h, .inl rfl, fun _ _ => rfl⟩

/-- The visit of a context in a quiet round. -/
theorem fetchActiveCtxLoop_quiet (hk : s.k = 0) (v c : U32) :
    (fetchActiveCtxLoop quietRound v c batchSize s).k = 0 ∧
      (fetchActiveCtxLoop quietRound v c batchSize s).polling.nulls (v, c) =
        nextNullRounds (s.polling.nulls (v, c)) ∧
      (s.polling.Late (v, c) →
        (v, c) ∈ (fetchActiveCtxLoop quietRound v c batchSize s).remCtxs) := by
  have hbuf : s.k < quietRound.max := by
    rw [hk]
    decide
  have hnone : ¬ (quietRound.fetched s.calls = true) := Bool.false_ne_true
  unfold batchSize fetchActiveCtxLoop
  rw [if_pos hbuf, if_neg hnone]
  refine ⟨hk, ?_, fun hlate => ?_⟩
  · change (s.polling.setNullRounds v c _).nulls (v, c) = _
    rw [nulls_setNullRounds, if_pos rfl]
    rfl
  · unfold Polling.Late at hlate
    change (v, c) ∈ if maxNullRounds ≤ nextNullRounds (s.polling.nulls (v, c)) then _ else _
    rw [if_pos hlate]
    simp

/-- What a visit of the contexts `seen` of the VM `v` has recorded, after `rem`. -/
structure Recorded (v : U32) (rem : List (U32 × U32)) (seen : List U32) (s : PollRound) : Prop where
  extends_rem : ∃ new, s.remCtxs = rem ++ new ∧ new.Nodup ∧ ∀ x ∈ new, x.1 = v ∧ x.2 ∈ seen

theorem Recorded.visit (h : Recorded v rem seen s)
    (hc : c ∉ seen) (hs' : s'.remCtxs = s.remCtxs ∨ s'.remCtxs = s.remCtxs ++ [(v, c)]) :
    Recorded v rem (seen ++ [c]) s' := by
  obtain ⟨new, hrem, hnodup, hmem⟩ := h
  have hold (x : U32 × U32) (hx : x ∈ new) : x.1 = v ∧ x.2 ∈ seen ++ [c] :=
    ⟨(hmem x hx).1, mem_append_left _ (hmem x hx).2⟩
  obtain hs' | hs' := hs'
  · exact ⟨new, hs'.trans hrem, hnodup, hold⟩
  · refine ⟨new ++ [(v, c)], by rw [hs', hrem, append_assoc], ?_, fun x hx => ?_⟩
    · refine nodup_append.2 ⟨hnodup, nodup_singleton _, fun x hx y hy heq => ?_⟩
      obtain rfl := mem_singleton.1 hy
      have hseen := (hmem x hx).2
      rw [heq] at hseen
      exact hc hseen
    · obtain hx | hx := mem_append.1 hx
      · exact hold x hx
      · obtain rfl := mem_singleton.1 hx
        exact ⟨rfl, by simp⟩

/-- After the contexts `seen` of the VM `v` were visited: only late contexts were recorded, and in a
quiet round all of them, with one more round without an entry for each. -/
structure Watched (inp : RoundInput) (s₀ s : PollRound) (v : U32) (seen : List U32) : Prop extends
    Recorded v s₀.remCtxs seen s where
  frame : ∀ x, (x.1 = v → x.2 ∉ seen) → s.polling.nulls x = s₀.polling.nulls x
  late : ∀ x ∈ s.remCtxs, x ∈ s₀.remCtxs ∨ s₀.polling.Late x
  quiet : inp = quietRound → s₀.k = 0 → s.k = 0 ∧ ∀ c ∈ seen,
    s.polling.nulls (v, c) = nextNullRounds (s₀.polling.nulls (v, c)) ∧
      (s₀.polling.Late (v, c) → (v, c) ∈ s.remCtxs)

theorem Watched.visit {s₀ : PollRound} (h : Watched inp s₀ s v seen)
    (hrings : Rings s.polling vs cs) (hc : c ∉ seen) :
    Watched inp s₀ (fastAppctxPollFetchActiveCtx inp v c s) v (seen ++ [c]) := by
  obtain ⟨-, hrem, hother⟩ := fetchActiveCtxLoop_spec inp batchSize hrings v c
  have hsame : s.polling.nulls (v, c) = s₀.polling.nulls (v, c) := h.frame (v, c) fun _ => hc
  have hlater : s.polling.Late (v, c) ↔ s₀.polling.Late (v, c) := by
    unfold Polling.Late
    rw [hsame]
  have hmore : ∀ x ∈ s.remCtxs, x ∈ (fastAppctxPollFetchActiveCtx inp v c s).remCtxs := by
    intro x hx
    rcases hrem with hrem | ⟨hrem, -⟩
    · exact hrem ▸ hx
    · exact hrem ▸ mem_append_left _ hx
  refine ⟨h.toRecorded.visit hc (hrem.imp_right And.left), fun x hx => ?_, fun x hx => ?_,
    fun hinp hk => ?_⟩
  · have hne : x ≠ (v, c) := by
      rintro rfl
      exact hx rfl (by simp)
    exact (hother x hne).trans (h.frame x fun hv hin => hx hv (mem_append_left _ hin))
  · rcases hrem with hrem | ⟨hrem, hlate⟩
    · exact h.late x (hrem ▸ hx)
    · have hx : x ∈ s.remCtxs ++ [(v, c)] := hrem ▸ hx
      rcases mem_append.1 hx with hx | hx
      · exact h.late x hx
      · rw [mem_singleton.1 hx]
        exact .inr (hlater.1 hlate)
  · obtain ⟨hzero, hseen⟩ := h.quiet hinp hk
    subst hinp
    obtain ⟨hk', hnulls, hin⟩ := fetchActiveCtxLoop_quiet hzero v c
    refine ⟨hk', fun d hd => ?_⟩
    rcases mem_append.1 hd with hd | hd
    · have hne : (v, d) ≠ (v, c) := fun he => hc ((Prod.mk.inj he).2 ▸ hd)
      exact ⟨(hother (v, d) hne).trans (hseen d hd).1, fun hl => hmore _ ((hseen d hd).2 hl)⟩
    · obtain rfl := mem_singleton.1 hd
      rw [← hsame]
      exact ⟨hnulls, fun hl => hin (hlater.2 hl)⟩

theorem fastAppctxPollFetchActiveVm_spec (h : Rings s.polling vs cs) (hne : cs v ≠ []) :
    Meets ((cs v).length ≤ fuel)
      (fun s' => ∃ xs, xs.Perm (cs v) ∧ Rings s'.polling vs (update cs v xs) ∧
        Watched inp s s' v (cs v))
      (fastAppctxPollFetchActiveVm inp fuel v s) := by
  unfold fastAppctxPollFetchActiveVm
  have hring := (h.ctxs v).ring
  refine ((hring.doRing_rule True
    (fun seen s' => Rings s'.polling vs cs ∧ Watched inp s s' v seen) hne ?_
    ⟨h, ⟨[], by simp, nodup_nil, by simp⟩, fun _ _ => rfl, fun x hx => .inl hx,
      fun _ hk => ⟨hk, by simp⟩⟩).mono (fun h => ⟨trivial, h⟩) fun _ h => h).bind ?_
  · rintro seen c rest s₁ heq ⟨hrings, hwatch⟩
    have hrings' := (fetchActiveCtxLoop_spec inp batchSize hrings v c).1
    have hc : c ∉ seen := by
      have hnodup := hring.nodup
      rw [heq] at hnodup
      exact fun hmem => (nodup_append.1 hnodup).2.2 c hmem c (by simp) rfl
    have hlinks := (hrings'.ctxs v).ring.next_unique hring (by rw [heq]; simp : c ∈ cs v)
    refine meets_ok ⟨⟨hrings', hwatch.visit hrings hc⟩, hlinks.1, ?_⟩
    rw [Bool.or_eq_true]
    exact .inl (beq_iff_eq.2 hlinks.2.symm)
  · rintro s₁ ⟨seen, rest, heq, ⟨hrings, hwatch⟩, hstop⟩
    obtain ⟨c, ys, hcs⟩ := exists_cons_of_ne_nil hne
    have hturned := hrings.ctxs v
    rw [hcs] at hturned
    have hin : ∀ d ∈ seen, d ∈ cs v := fun d hd => heq ▸ mem_append_left _ hd
    obtain ⟨new, hrem, hnodup, hmem⟩ := hwatch.extends_rem
    refine meets_ok ⟨ys ++ [c], ?_, hrings.setCtxRing (ActiveRing.holds_rotate hturned),
      ⟨new, hrem, hnodup, fun x hx => ⟨(hmem x hx).1, hin _ (hmem x hx).2⟩⟩, fun x hx => ?_,
      hwatch.late, fun hinp hk => ?_⟩
    · rw [hcs]
      exact perm_append_singleton c ys
    · exact (nulls_setCtxRing s₁.polling v _ x).trans
        (hwatch.frame x fun hv hs => hx hv (hin _ hs))
    · obtain ⟨hk₁, hall⟩ := hwatch.quiet hinp hk
      -- nothing made the loop stop before it was back at the head
      have hrest : rest = [] := by
        cases rest with
        | nil => rfl
        | cons y ys =>
          obtain ⟨hy, hstop⟩ := hstop y rfl
          have hhead := ((hrings.ctxs v).ring.next_unique hring (by rw [heq]; simp : y ∈ cs v)).2
          rw [hinp, hk₁, Bool.or_eq_true] at hstop
          rcases hstop with hstop | hstop
          · exact absurd ((beq_iff_eq.1 hstop).trans hhead) hy
          · exact absurd hstop (by decide)
      rw [hrest, append_nil] at heq
      refine ⟨hk₁, fun d hd => ?_⟩
      rw [heq] at hd
      exact ⟨(nulls_setCtxRing s₁.polling v _ _).trans (hall d hd).1, (hall d hd).2⟩

/-- While entries are fetched from the VMs `done`, the rings of contexts are only turned, and each
context is recorded at most once. -/
structure Fetching (vs : List U32) (cs : U32 → List U32) (done : List U32) (s : PollRound) :
    Prop where
  turned : ∃ cs', Rings s.polling vs cs' ∧ ∀ v, (cs' v).Perm (cs v)
  nodup : s.remCtxs.Nodup
  mem : ∀ x ∈ s.remCtxs, x.1 ∈ done ∧ x.2 ∈ cs x.1

/-- The same with the counts of rounds, in a round that began with `p₀`. -/
structure Counting (inp : RoundInput) (p₀ : Polling) (vs : List U32) (cs : U32 → List U32)
    (done : List U32) (s : PollRound) : Prop extends Fetching vs cs done s where
  frame : ∀ x, x.1 ∉ done → s.polling.nulls x = p₀.nulls x
  late : ∀ x ∈ s.remCtxs, p₀.Late x
  quiet : inp = quietRound → s.k = 0 ∧ ∀ v ∈ done, ∀ c ∈ cs v,
    s.polling.nulls (v, c) = nextNullRounds (p₀.nulls (v, c)) ∧
      (p₀.Late (v, c) → (v, c) ∈ s.remCtxs)

theorem Counting.visit (h : Counting inp p₀ vs cs done s) (hne : cs v ≠ []) (hv : v ∉ done) :
    Meets ((cs v).length ≤ fuel) (Counting inp p₀ vs cs (v :: done))
      (fastAppctxPollFetchActiveVm inp fuel v s) := by
  obtain ⟨⟨⟨cs', hrings, hperm⟩, hnodup, hmem⟩, hframe, hlate, hquiet⟩ := h
  have hne' : cs' v ≠ [] := fun hnil => hne (nil_perm.1 (hnil ▸ hperm v))
  have hsame (c : U32) : s.polling.nulls (v, c) = p₀.nulls (v, c) := hframe (v, c) hv
  refine (fastAppctxPollFetchActiveVm_spec hrings hne').mono (fun h => ?_) ?_
  · rwa [(hperm v).length_eq]
  · rintro s' ⟨xs, hxs, hrings', hwatch⟩
    obtain ⟨new, hrem, hnew, hof⟩ := hwatch.extends_rem
    refine ⟨⟨⟨_, hrings', fun w => ?_⟩, ?_, fun x hx => ?_⟩, fun x hx => ?_, fun x hx => ?_,
      fun hinp => ?_⟩
    · by_cases hw : w = v
      · subst hw
        rw [update_self]
        exact hxs.trans (hperm w)
      · rw [update_of_ne hw]
        exact hperm w
    · rw [hrem]
      refine nodup_append.2 ⟨hnodup, hnew, fun x hx y hy heq => hv ?_⟩
      rw [← (hof y hy).1, ← heq]
      exact (hmem x hx).1
    · rw [hrem] at hx
      obtain hx | hx := mem_append.1 hx
      · exact ⟨mem_cons_of_mem _ (hmem x hx).1, (hmem x hx).2⟩
      · obtain ⟨hx1, hx2⟩ := hof x hx
        rw [hx1]
        exact ⟨by simp, (hperm v).mem_iff.1 hx2⟩
    · rw [hwatch.frame x fun hxv => (hx (by simp [hxv])).elim]
      exact hframe x fun hin => hx (mem_cons_of_mem _ hin)
    · rcases hwatch.late x hx with hx | hl
      · exact hlate x hx
      · rw [hrem] at hx
        rcases mem_append.1 hx with hx | hx
        · exact hlate x hx
        · obtain ⟨w, c⟩ := x
          obtain rfl : w = v := (hof _ hx).1
          unfold Polling.Late at hl ⊢
          rwa [hsame c] at hl
    · obtain ⟨hk, hdone⟩ := hquiet hinp
      obtain ⟨hk', hall⟩ := hwatch.quiet hinp hk
      refine ⟨hk', fun w hw c hc => ?_⟩
      by_cases hwv : w = v
      · subst hwv
        have hc := hall c ((hperm w).mem_iff.2 hc)
        unfold Polling.Late at hc ⊢
        rwa [hsame c] at hc
      · have hd := hdone w ((mem_cons.1 hw).resolve_left hwv) c hc
        refine ⟨(hwatch.frame (w, c) fun he => (hwv he).elim).trans hd.1, fun hl => ?_⟩
        rw [hrem]
        exact mem_append_left _ (hd.2 hl)

/-- The loops over the rings have enough rounds. -/
def EnoughRounds (vs : List U32) (cs : U32 → List U32) (fuel : ℕ) : Prop :=
  vs.length ≤ fuel ∧ ∀ v, (cs v).length ≤ fuel

theorem fetchActiveOob_spec (h : Counting inp p₀ vs cs done s) (hbusy : Busy vs cs)
    (hoob : ∀ v ∈ oob, v ∈ vs ∧ v ∉ done) (hnodup : oob.Nodup) :
    Meets (EnoughRounds vs cs fuel)
      (fun s' => ∃ done', Counting inp p₀ vs cs done' s' ∧ ∀ v ∈ done, v ∈ done')
      (fetchActiveOob inp fuel oob s) := by
  induction oob generalizing done s with
  | nil => exact meets_ok ⟨done, h, fun _ hv => hv⟩
  | cons v oob ih =>
    obtain ⟨hv, hnodup⟩ := nodup_cons.1 hnodup
    obtain ⟨hvs, hvdone⟩ := hoob v (by simp)
    unfold fetchActiveOob
    split_ifs with hk
    · refine ((h.visit ((hbusy v).1 hvs) hvdone).mono (fun h => h.2 v) fun _ h => h).bind ?_
      intro s' hs'
      refine (ih hs' (fun w hw => ?_) hnodup).mono id fun s'' ⟨done', hs'', hmore⟩ =>
        ⟨done', hs'', fun w hw => hmore w (mem_cons_of_mem _ hw)⟩
      obtain ⟨hwvs, hwdone⟩ := hoob w (mem_cons_of_mem _ hw)
      refine ⟨hwvs, fun hmem => ?_⟩
      obtain rfl | hmem := mem_cons.1 hmem
      · exact hv hw
      · exact hwdone hmem
    · exact ih h (fun w hw => hoob w (mem_cons_of_mem _ hw)) hnodup

/-- The VMs that were `seen` are done or have no budget. -/
structure SplitSeen (seen done oob : List U32) : Prop where
  nodup : oob.Nodup
  skipped : ∀ v ∈ oob, v ∈ seen
  fetched : ∀ v ∈ done, v ∈ seen ∧ v ∉ oob

theorem SplitSeen.fetch (h : SplitSeen seen done oob) (hv : v ∉ seen) :
    SplitSeen (seen ++ [v]) (v :: done) oob := by
  refine ⟨h.nodup, fun w hw => mem_append_left _ (h.skipped w hw), fun w hw => ?_⟩
  obtain rfl | hw := mem_cons.1 hw
  · exact ⟨by simp, fun hmem => hv (h.skipped w hmem)⟩
  · exact ⟨mem_append_left _ (h.fetched w hw).1, (h.fetched w hw).2⟩

theorem SplitSeen.skip (h : SplitSeen seen done oob) (hv : v ∉ seen) :
    SplitSeen (seen ++ [v]) done (oob ++ [v]) := by
  refine ⟨?_, fun w hw => ?_, fun w hw => ⟨mem_append_left _ (h.fetched w hw).1,
    fun hmem => ?_⟩⟩
  · refine nodup_append.2 ⟨h.nodup, nodup_singleton _, fun w hw u hu heq => ?_⟩
    rw [mem_singleton.1 hu] at heq
    exact hv (heq ▸ h.skipped w hw)
  · obtain hw | hw := mem_append.1 hw
    · exact mem_append_left _ (h.skipped w hw)
    · exact mem_append_right _ hw
  · obtain hmem | hmem := mem_append.1 hmem
    · exact (h.fetched w hw).2 hmem
    · obtain rfl := mem_singleton.1 hmem
      exact hv (h.fetched w hw).1

theorem fastAppctxPollFetchActive_spec (h : Counting inp p₀ vs cs [] s) (hbusy : Busy vs cs)
    (hne : vs ≠ []) :
    Meets (EnoughRounds vs cs fuel)
      (fun s' => ∃ done, Counting inp p₀ vs cs done s' ∧ (inp = quietRound → ∀ v ∈ vs, v ∈ done))
      (fastAppctxPollFetchActive inp fuel s) := by
  obtain ⟨cs₀, hrings₀, -⟩ := h.turned
  have hring := hrings₀.vms.ring
  unfold fastAppctxPollFetchActive
  refine ((hring.doRing_rule (EnoughRounds vs cs fuel)
    (fun seen (s' : PollRound × List U32) => ∃ done, Counting inp p₀ vs cs done s'.1 ∧
      SplitSeen seen done s'.2 ∧ (inp = quietRound → s'.2 = [] ∧ ∀ v ∈ seen, v ∈ done)) hne ?_
    ⟨[], h, ⟨nodup_nil, by simp, by simp⟩, fun _ => ⟨rfl, by simp⟩⟩).mono
      (fun h => ⟨h, h.1⟩) fun _ h => h).bind ?_
  · rintro seen v rest ⟨s₁, oob⟩ heq ⟨done, hfetch, hsplit, hquiet⟩
    have hv : v ∈ vs := by
      rw [heq]
      simp
    have hnew : v ∉ seen := by
      have hnodup := hring.nodup
      rw [heq] at hnodup
      exact fun hmem => (nodup_append.1 hnodup).2.2 v hmem v (by simp) rfl
    -- the ring of VMs is as before
    have hlinks (s₂ : PollRound) {done₂ : List U32} (h₂ : Counting inp p₀ vs cs done₂ s₂) :
        (s₂.polling.polledVms v).next = s.polling.ring.next v ∧
          (s.polling.ring.head == s₂.polling.actHead || !decide (s₂.k < inp.max)) = true := by
      obtain ⟨cs₂, hrings₂, -⟩ := h₂.turned
      obtain ⟨hnext, hhead⟩ := hrings₂.vms.ring.next_unique hring hv
      refine ⟨hnext, ?_⟩
      rw [Bool.or_eq_true]
      exact .inl (beq_iff_eq.2 hhead.symm)
    dsimp only
    split_ifs with hbudget
    · have hvdone : v ∉ done := fun hmem => hnew (hsplit.fetched v hmem).1
      refine ((hfetch.visit ((hbusy v).1 hv) hvdone).mono (fun h => h.2 v) fun _ h => h).bind ?_
      intro s₂ hs₂
      refine meets_ok ⟨⟨_, hs₂, hsplit.fetch hnew, fun hinp => ⟨(hquiet hinp).1, fun w hw => ?_⟩⟩,
        hlinks s₂ hs₂⟩
      rcases mem_append.1 hw with hw | hw
      · exact mem_cons_of_mem _ ((hquiet hinp).2 w hw)
      · simp [mem_singleton.1 hw]
    · refine meets_ok ⟨⟨done, hfetch, hsplit.skip hnew, fun hinp => ?_⟩, hlinks s₁ hfetch⟩
      rw [hinp] at hbudget
      exact absurd (by decide : (1 : ℤ) > 0) hbudget
  · rintro ⟨s₁, oob⟩ ⟨seen, rest, heq, ⟨done, hfetch, hsplit, hquiet⟩, hstop⟩
    have hall (hinp : inp = quietRound) : ∀ v ∈ vs, v ∈ done := by
      have hrest : rest = [] := by
        cases rest with
        | nil => rfl
        | cons y ys =>
          obtain ⟨hy, hstop⟩ := hstop y rfl
          obtain ⟨cs₁, hrings₁, -⟩ := hfetch.turned
          have hhead := (hrings₁.vms.ring.next_unique hring (by rw [heq]; simp : y ∈ vs)).2
          dsimp only at hstop
          rw [hinp, (hfetch.quiet hinp).1, Bool.or_eq_true] at hstop
          rcases hstop with hstop | hstop
          · exact absurd ((beq_iff_eq.1 hstop).trans hhead) hy
          · exact absurd hstop (by decide)
      rw [heq, hrest, append_nil]
      exact (hquiet hinp).2
    dsimp only
    split_ifs with hk
    · refine (fetchActiveOob_spec hfetch hbusy (fun v hv => ⟨?_, fun hmem => ?_⟩)
        hsplit.nodup).mono id fun s' ⟨done', hs', hmore⟩ =>
          ⟨done', hs', fun hinp v hv => hmore v (hall hinp v hv)⟩
      · rw [heq]
        exact mem_append_left _ (hsplit.skipped v hv)
      · exact (hsplit.fetched v hmem).2 hv
    · exact meets_ok ⟨done, hfetch, hall⟩

theorem visitActive_spec (h : Rings p vs cs) (hbusy : Busy vs cs) (hne : vs ≠ []) :
    Meets (EnoughRounds vs cs fuel) (fun _ => True) (visitActive fuel p) := by
  unfold visitActive
  refine (h.vms.ring.doRing_rule (EnoughRounds vs cs fuel) (fun _ _ => True) hne ?_ trivial).mono
    (fun h => ⟨h, h.1⟩) fun _ _ => trivial
  rintro seen v rest found heq -
  have hv : v ∈ vs := by
    rw [heq]
    simp
  refine ((h.ctxs v).ring.doRing_rule True (fun _ _ => True) ((hbusy v).1 hv) ?_ trivial).mono
    (fun h => ⟨trivial, h.2 v⟩) fun _ _ => ⟨trivial, rfl, beq_iff_eq.2 rfl⟩
  rintro seen c rest found heq -
  exact meets_ok ⟨trivial, rfl, beq_iff_eq.2 rfl⟩

/-- A round over the active VMs records contexts that are late, and the others stay as they are. -/
theorem pollActiveQueues_spec (h : Rings p vs cs) (hbusy : Busy vs cs) (hne : vs ≠ []) :
    Meets (EnoughRounds vs cs fuel)
      (fun r => r.2.Nodup ∧ (∀ x ∈ r.2, x.2 ∈ cs x.1 ∧ p.Late x) ∧
        (∃ vs' cs', Rings r.1 vs' cs' ∧ Busy vs' cs' ∧
          ∀ x ∉ r.2, x.2 ∈ cs x.1 ↔ x.2 ∈ cs' x.1) ∧
        (inp = quietRound → ∀ x, x.2 ∈ cs x.1 → (p.Late x → x ∈ r.2) ∧
          (x ∉ r.2 → r.1.nulls x = nextNullRounds (p.nulls x))))
      (pollActiveQueues inp fuel p) := by
  unfold pollActiveQueues
  refine (visitActive_spec h hbusy hne).bind fun _ _ => ?_
  have hstart : Counting inp p vs cs [] ⟨p, 0, 0, [], 0⟩ :=
    ⟨⟨⟨cs, h, fun v => List.Perm.refl _⟩, nodup_nil, by simp⟩, fun _ _ => rfl, by simp,
      fun _ => ⟨rfl, by simp⟩⟩
  refine (fastAppctxPollFetchActive_spec hstart hbusy hne).bind ?_
  rintro s ⟨done, ⟨⟨⟨cs', hrings, hperm⟩, hnodup, hmem⟩, -, hlate, hquiet⟩, hall⟩
  have hbusy' : Busy vs cs' := by
    intro v
    rw [hbusy v, ne_eq, ne_eq, not_iff_not]
    exact ⟨fun hnil => perm_nil.1 (hnil ▸ hperm v),
      fun hnil => nil_perm.1 (hnil ▸ hperm v)⟩
  have henough (h : EnoughRounds vs cs fuel) : EnoughRounds vs cs' fuel :=
    ⟨h.1, fun v => (hperm v).length_eq ▸ h.2 v⟩
  refine ((visitActive_spec hrings hbusy' hne).mono henough fun _ h => h).bind fun _ _ => ?_
  obtain ⟨v, ws, rfl⟩ := exists_cons_of_ne_nil hne
  have hturned := hrings.setRing (ActiveRing.holds_rotate hrings.vms)
  have hturning : Busy (ws ++ [v]) cs' := by
    intro w
    rw [← hbusy' w]
    simp [or_comm]
  obtain ⟨vs'', cs'', hrings'', hbusy'', hkept⟩ := hturned.removeCtxs hturning hnodup
    fun x hx => (hperm x.1).mem_iff.2 (hmem x hx).2
  refine meets_ok ⟨hnodup, fun x hx => ⟨(hmem x hx).2, hlate x hx⟩,
    ⟨vs'', cs'', hrings'', hbusy'', fun x hx => ?_⟩, fun hinp x hx => ?_⟩
  · exact (hperm x.1).mem_iff.symm.trans (hkept x hx).1
  · have hv : x.1 ∈ v :: ws := (hbusy x.1).2 (ne_nil_of_mem hx)
    obtain ⟨hnulls, hin⟩ := (hquiet hinp).2 x.1 (hall hinp _ hv) x.2 hx
    exact ⟨hin, fun hout => (hkept x hout).2.trans hnulls⟩

/-! ### A round over all VMs -/

/-- `FLEXNIC_PL_VMST_NUM` and `FLEXNIC_PL_APPCTX_NUM` bound what can be registered. -/
structure Registry.Valid (reg : Registry) : Prop where
  vmIds : ∀ n, (reg.vmIds n).toNat < 6
  ctxIds : ∀ v n, (reg.ctxIds v n).toNat < 32

theorem ne_inval_of_lt (h : i.toNat < 32) : i ≠ idxlistInval := by
  rintro rfl
  exact absurd h (by decide)

/-- The rings of a core are well formed, and the active VMs are those with active contexts. -/
def RingsOk (p : Polling) : Prop := ∃ vs cs, Rings p vs cs ∧ Busy vs cs

theorem Rings.to_update (h : Rings p vs cs) (v : U32) : Rings p vs (update cs v (cs v)) := by
  rwa [update_eq_self]

theorem fetchAllCtxLoop_spec (inp : RoundInput) (n : ℕ) {active : Bool} (h : Rings s.polling vs cs)
    (hc : c ≠ idxlistInval) (hactive : active = true → cs v ≠ []) :
    ∃ xs, Rings (fetchAllCtxLoop inp v c n active s).1.polling vs (update cs v xs) ∧
      (active = true → (fetchAllCtxLoop inp v c n active s).2 = true) ∧
      ((fetchAllCtxLoop inp v c n active s).2 = true → xs ≠ []) ∧
      ((fetchAllCtxLoop inp v c n active s).2 = false → xs = cs v) ∧ (cs v ≠ [] → xs ≠ []) := by
  induction n generalizing s active cs with
  | zero => exact ⟨cs v, h.to_update v, fun h => h, hactive, fun _ => rfl, fun h => h⟩
  | succ n ih =>
    unfold fetchAllCtxLoop
    dsimp only
    split_ifs with hk hfetched hin
    · -- the context is in the ring already
      have hrings := h.setNullRounds v c 0
      have hmem : c ∈ cs v := ((hrings.ctxs v).active c).1 hin
      obtain ⟨xs, hxs, htrue, hbusy, hidle, hmore⟩ := ih
        (s := { s with polling := _, k := s.k + 1, total := s.total + 1, calls := s.calls + 1 })
        hrings fun _ => ne_nil_of_mem hmem
      refine ⟨xs, hxs, fun _ => htrue rfl, hbusy, fun hfalse => ?_, hmore⟩
      exact absurd ((htrue rfl).symm.trans hfalse) (by decide)
    · -- the context becomes active
      have hrings := h.setNullRounds v c 0
      have hnew : c ∉ cs v := fun hmem => hin (((hrings.ctxs v).active c).2 hmem)
      have hadded : Rings _ vs (update cs v (cs v ++ [c])) :=
        hrings.setCtxRing (ActiveRing.holds_enqueue (hrings.ctxs v) hc hnew)
      have hne : update cs v (cs v ++ [c]) v ≠ [] := by simp
      obtain ⟨xs, hxs, htrue, hbusy, hidle, hmore⟩ := ih
        (s := { s with polling := _, k := s.k + 1, total := s.total + 1, calls := s.calls + 1 })
        hadded fun _ => hne
      rw [update_idem] at hxs
      refine ⟨xs, hxs, fun _ => htrue rfl, hbusy, fun hfalse => ?_, fun _ => hmore hne⟩
      exact absurd ((htrue rfl).symm.trans hfalse) (by decide)
    · exact ⟨cs v, (h.setNullRounds v c _).to_update v, fun h => h, hactive, fun _ => rfl,
        fun h => h⟩
    · exact ⟨cs v, h.to_update v, fun h => h, hactive, fun _ => rfl, fun h => h⟩

theorem Rings.setPollNextCtx (h : Rings p vs cs) (v i : U32) :
    Rings (p.setPollNextCtx v i) vs cs := by
  apply Rings.of_updated (v := v)
  exact h.setVm rfl (h.ctxs v) (h.ids v)

theorem ringsOk_setPollNextCtx (h : RingsOk p) (v i : U32) : RingsOk (p.setPollNextCtx v i) := by
  obtain ⟨vs, cs, hrings, hbusy⟩ := h
  exact ⟨vs, cs, hrings.setPollNextCtx v i, hbusy⟩

theorem ringsOk_setPollNextVm (h : RingsOk p) (i : U32) : RingsOk { p with pollNextVm := i } := by
  obtain ⟨vs, cs, hrings, hbusy⟩ := h
  exact ⟨vs, cs, ⟨hrings.vms, hrings.ctxs, hrings.ids⟩, hbusy⟩

theorem ringsOk_fetchAllCtx (inp : RoundInput) (h : RingsOk s.polling) (hv : v ≠ idxlistInval)
    (hc : c ≠ idxlistInval) :
    RingsOk (if ¬ ((fastAppctxPollFetchAllCtx inp v c s).1.polling.polledVms v).active ∧
        (fastAppctxPollFetchAllCtx inp v c s).2 then
        enqueueVmToActive (fastAppctxPollFetchAllCtx inp v c s).1.polling v
      else (fastAppctxPollFetchAllCtx inp v c s).1.polling) := by
  obtain ⟨vs, cs, hrings, hbusy⟩ := h
  obtain ⟨xs, hxs, -, hact, hidle, hmore⟩ :=
    fetchAllCtxLoop_spec inp batchSize hrings hc (v := v) (fun h : false = true => by cases h)
  change Rings (fastAppctxPollFetchAllCtx inp v c s).1.polling vs _ at hxs
  change (fastAppctxPollFetchAllCtx inp v c s).2 = true → _ at hact
  change (fastAppctxPollFetchAllCtx inp v c s).2 = false → _ at hidle
  generalize fastAppctxPollFetchAllCtx inp v c s = t at *
  have hin := hxs.vms.active v
  split_ifs with hnew
  · have hout : v ∉ vs := fun hmem => hnew.1 (hin.2 hmem)
    refine ⟨vs ++ [v], _, hxs.setRing (ActiveRing.holds_enqueue hxs.vms hv hout), fun w => ?_⟩
    by_cases hw : w = v
    · subst hw
      simpa using hact hnew.2
    · simpa [hw] using hbusy w
  · refine ⟨vs, _, hxs, fun w => ?_⟩
    by_cases hw : w = v
    · subst hw
      rw [update_self]
      cases ht : t.2 with
      | false => rw [hidle ht, hbusy w]
      | true =>
        have hmem : w ∈ vs := by
          by_contra hout
          exact hnew ⟨fun hflag => hout (hin.1 hflag), ht⟩
        exact ⟨fun _ => hact ht, fun _ => hmem⟩
    · rw [update_of_ne hw]
      exact hbusy w

theorem ringsOk_fetchAllVmLoop (inp : RoundInput) (hreg : reg.Valid) (hv : v ≠ idxlistInval)
    (n : ℕ) (h : RingsOk s.polling) : RingsOk (fetchAllVmLoop inp reg v n s).polling := by
  induction n generalizing s with
  | zero => exact h
  | succ n ih =>
    unfold fetchAllVmLoop
    dsimp only
    split
    · exact ih (ringsOk_setPollNextCtx
        (ringsOk_fetchAllCtx inp h hv (ne_inval_of_lt (hreg.ctxIds v _))) v _)
    · exact h

theorem ringsOk_fetchAllVm (inp : RoundInput) (hreg : reg.Valid) (hv : v ≠ idxlistInval)
    (h : RingsOk s.polling) : RingsOk (fastAppctxPollFetchAllVm inp reg v s).polling := by
  unfold fastAppctxPollFetchAllVm
  dsimp only
  split_ifs
  · exact h
  · exact ringsOk_fetchAllVmLoop inp hreg hv _ (ringsOk_setPollNextCtx h v 0)
  · exact ringsOk_fetchAllVmLoop inp hreg hv _ h

theorem ringsOk_fetchAllLoop (inp : RoundInput) (hreg : reg.Valid) (n : ℕ)
    (h : RingsOk s.polling) (hoob : ∀ v ∈ oob, v ≠ idxlistInval) :
    RingsOk (fetchAllLoop inp reg n (s, oob)).1.polling ∧
      ∀ v ∈ (fetchAllLoop inp reg n (s, oob)).2, v ≠ idxlistInval := by
  induction n generalizing s oob with
  | zero => exact ⟨h, hoob⟩
  | succ n ih =>
    have hv : reg.vmIds s.polling.pollNextVm.toNat ≠ idxlistInval :=
      ne_inval_of_lt ((hreg.vmIds _).trans (by decide))
    unfold fetchAllLoop
    dsimp only
    split
    · split
      · exact ih (ringsOk_setPollNextVm (ringsOk_fetchAllVm inp hreg hv h) _) hoob
      · refine ih (ringsOk_setPollNextVm h _) fun w hw => ?_
        obtain hw | hw := mem_append.1 hw
        · exact hoob w hw
        · rwa [mem_singleton.1 hw]
    · exact ⟨h, hoob⟩

theorem ringsOk_fetchAllOob (inp : RoundInput) (hreg : reg.Valid) (h : RingsOk s.polling)
    (hoob : ∀ v ∈ oob, v ≠ idxlistInval) : RingsOk (fetchAllOob inp reg oob s).polling := by
  induction oob generalizing s with
  | nil => exact h
  | cons v oob ih =>
    unfold fetchAllOob
    dsimp only
    refine ih (ringsOk_setPollNextVm ?_ _) fun w hw => hoob w (mem_cons_of_mem _ hw)
    split
    · exact ringsOk_fetchAllVm inp hreg (hoob v (by simp)) h
    · exact h

theorem ringsOk_pollAllQueues (inp : RoundInput) (hreg : reg.Valid) (h : RingsOk p) :
    RingsOk (pollAllQueues inp reg p) := by
  unfold pollAllQueues fastAppctxPollFetchAll
  dsimp only
  split
  · exact h
  · have hstart : RingsOk (if reg.vmCount ≤ p.pollNextVm.toNat then { p with pollNextVm := 0 }
        else p) := by
      split
      · exact ringsOk_setPollNextVm h 0
      · exact h
    generalize (if reg.vmCount ≤ p.pollNextVm.toNat then { p with pollNextVm := 0 } else p) = p₁
      at hstart ⊢
    obtain ⟨hloop, hoob⟩ := ringsOk_fetchAllLoop inp hreg reg.vmCount
      (s := ⟨p₁, 0, 0, [], 0⟩) hstart (fun v (hv : v ∈ []) => absurd hv not_mem_nil)
    split
    · exact ringsOk_fetchAllOob inp hreg hloop hoob
    · exact hloop

/-! ### Runs -/

/-- After `dataplane_context_init`. -/
structure PollStart (p : Polling) : Prop where
  vms : p.actHead = idxlistInval ∧ p.actTail = idxlistInval ∧ ∀ v, (p.polledVms v).flags = 0
  ctxs : ∀ v, (p.polledVms v).actCtxHead = idxlistInval ∧
    (p.polledVms v).actCtxTail = idxlistInval ∧ ∀ c, ((p.polledVms v).ctxs c).flags = 0
  ids : ∀ v c, ((p.polledVms v).ctxs c).id = c ∧ ((p.polledVms v).ctxs c).vmid = v

/-- A round over the active VMs, which `poll_queues` makes only if there are some, and in which not
more contexts time out than can be recorded; a round over all VMs; the count of rounds. -/
inductive PollStep : Polling → Polling → Prop
  | active {p p' : Polling} {inp : RoundInput} {fuel : ℕ} {rem : List (U32 × U32)}
    (hactive : p.actHead ≠ idxlistInval) (hrem : rem.length ≤ batchSize)
    (hr : pollActiveQueues inp fuel p = .ok (p', rem)) : PollStep p p'
  | all {p : Polling} {inp : RoundInput} {reg : Registry} (hreg : reg.Valid) :
    PollStep p (pollAllQueues inp reg p)
  | count {p : Polling} (n : U16) : PollStep p { p with pollRounds := n }

theorem holds_nil (hhead : r.head = idxlistInval) (htail : r.tail = idxlistInval)
    (hflags : ∀ i, (r.node i).flags = 0) : r.Holds [] := by
  refine ⟨?_, fun i => ?_⟩
  · rw [hhead, htail]
    exact ring_nil
  · simp [ActiveLinks.active, hflags i]

theorem ringsOk_start (h : PollStart p) : RingsOk p :=
  ⟨[], fun _ => [], ⟨holds_nil h.vms.1 h.vms.2.1 h.vms.2.2,
    fun v => holds_nil (h.ctxs v).1 (h.ctxs v).2.1 (h.ctxs v).2.2, h.ids⟩, fun v => by simp⟩

theorem Rings.exists_active (h : Rings p vs cs) (hactive : p.actHead ≠ idxlistInval) : vs ≠ [] :=
  fun hnil => hactive (h.vms.ring.eq_nil_iff.2 hnil)

theorem ringsOk_pollActiveQueues (h : RingsOk p) (hactive : p.actHead ≠ idxlistInval)
    (hr : pollActiveQueues inp fuel p = .ok (p', rem)) : RingsOk p' := by
  obtain ⟨vs, cs, hrings, hbusy⟩ := h
  obtain ⟨-, -, ⟨vs', cs', hrings', hbusy', -⟩, -⟩ :=
    (pollActiveQueues_spec hrings hbusy (hrings.exists_active hactive)).of_ok hr
  exact ⟨vs', cs', hrings', hbusy'⟩

theorem RingsOk.ends (h : RingsOk p) (hactive : p.actHead ≠ idxlistInval) (inp : RoundInput) :
    ∃ fuel r, pollActiveQueues inp fuel p = .ok r := by
  obtain ⟨vs, cs, hrings, hbusy⟩ := h
  have henough : EnoughRounds vs cs (Fintype.card U32) :=
    ⟨hrings.vms.ring.nodup.length_le_card, fun v => (hrings.ctxs v).ring.nodup.length_le_card⟩
  obtain ⟨r, hr, -⟩ := (pollActiveQueues_spec hrings hbusy
    (hrings.exists_active hactive)).returns henough
  exact ⟨_, r, hr⟩

theorem ringsOk_step (h : RingsOk p) (hstep : PollStep p p') : RingsOk p' := by
  cases hstep with
  | active hactive hrem hr => exact ringsOk_pollActiveQueues h hactive hr
  | all hreg => exact ringsOk_pollAllQueues _ hreg h
  | count n =>
    obtain ⟨vs, cs, hrings, hbusy⟩ := h
    exact ⟨vs, cs, ⟨hrings.vms, hrings.ctxs, hrings.ids⟩, hbusy⟩

theorem ringsOk_of_reachable (hstart : PollStart p₀)
    (hrun : ReflTransGen PollStep p₀ p) : RingsOk p := by
  induction hrun with
  | refl => exact ringsOk_start hstart
  | tail _ hstep ih => exact ringsOk_step ih hstep

/-- The rings are well formed, a round over the active VMs ends, and it records active contexts,
each once. -/
structure PollingOk (p : Polling) : Prop where
  rings : ∃ vs cs, Rings p vs cs ∧ Busy vs cs
  ends : p.actHead ≠ idxlistInval → ∀ inp, ∃ fuel r, pollActiveQueues inp fuel p = .ok r
  records : p.actHead ≠ idxlistInval → ∀ inp fuel p' rem,
    pollActiveQueues inp fuel p = .ok (p', rem) →
      rem.Nodup ∧ ∀ x ∈ rem, ((p.polledVms x.1).ctxs x.2).active = true

theorem active_rings_well_formed (hstart : PollStart p₀)
    (hrun : ReflTransGen PollStep p₀ p) : PollingOk p := by
  obtain ⟨vs, cs, hrings, hbusy⟩ := ringsOk_of_reachable hstart hrun
  have hok : RingsOk p := ⟨vs, cs, hrings, hbusy⟩
  refine ⟨hok, fun hactive => hok.ends hactive, fun hactive inp fuel p' rem hr => ?_⟩
  obtain ⟨hnodup, hmem, -⟩ := (pollActiveQueues_spec hrings hbusy
    (hrings.exists_active hactive)).of_ok hr
  exact ⟨hnodup, fun x hx => ((hrings.ctxs x.1).active x.2).2 (hmem x hx).1⟩

/-- No VM or context is active. -/
def idlePolling : Polling where
  pollRounds := 0
  pollNextVm := 0
  actHead := idxlistInval
  actTail := idxlistInval
  polledVms := fun v => ⟨⟨idxlistInval, idxlistInval, 0⟩, v, 0, idxlistInval, idxlistInval,
    fun c => ⟨⟨idxlistInval, idxlistInval, 0⟩, c, v, 0⟩⟩

/-- The VM 0 has `n` contexts. -/
def contextsOf (n : ℕ) : Registry := ⟨1, fun _ => 0, fun _ => n, fun _ k => BitVec.ofNat 32 (k % n)⟩

theorem contextsOf_valid {n : ℕ} (hpos : 0 < n) (hle : n ≤ 32) : (contextsOf n).Valid := by
  refine ⟨fun _ => (by decide : (0 : U32).toNat < 6), fun _ k => ?_⟩
  have hk := Nat.mod_lt k hpos
  change (BitVec.ofNat 32 (k % n)).toNat < 32
  rw [BitVec.toNat_ofNat, Nat.mod_eq_of_lt (by omega)]
  omega

/-- Every other call returns an entry. -/
def everyOther (max : ℕ) : RoundInput := ⟨fun k => k % 2 == 0, fun _ => 1, max⟩

theorem idlePolling_start : PollStart idlePolling :=
  ⟨⟨rfl, rfl, fun _ => rfl⟩, fun _ => ⟨rfl, rfl, fun _ => rfl⟩, fun _ _ => ⟨rfl, rfl⟩⟩

/-- Two contexts become active. -/
theorem twoContexts_polled :
    let p := pollAllQueues (everyOther 2) (contextsOf 2) idlePolling
    ((p.polledVms 0).ctxs 0).active = true ∧ ((p.polledVms 0).ctxs 1).active = true ∧
      PollingOk p :=
  ⟨by decide +kernel, by decide +kernel, active_rings_well_formed idlePolling_start
    (.single (.all (contextsOf_valid (by decide) (by decide))))⟩

end Tas
