import Tas.Lib.Stable
import Tas.QmanPoll

/-! The skip list of a VM as a priority queue: its levels are sorted by timestamp around the wrap,
and a poll takes the flows off in the order of their timestamps, first-in first-out among equal
ones. -/
namespace Tas

open Outcome Linked Layers Relation List

variable {D fuel num n cnt : ℕ} {v t f idx : U32} {c c' : VmCtx} {s s' : FlowPoll}
  {nl nl' : List U32} {lv lv' A B : ℕ → List U32} {w : U32}

/-! ### Timestamps -/

/-- How far `t` lies after `v`, around the wrap. -/
def tsAfter (v t : U32) : ℕ := (t - v).toNat

/-- `rel_time` is exact, but at half of the range its sign depends on the origin. -/
theorem relTime_eq : relTime v t =
    if tsAfter v t < 2 ^ 31 ∨ tsAfter v t = 2 ^ 31 ∧ 2 ^ 31 < v.toNat then (tsAfter v t : ℤ)
    else tsAfter v t - 2 ^ 32 := by
  have hv := v.isLt
  have ht := t.isLt
  have hd : tsAfter v t = (2 ^ 32 - v.toNat + t.toNat) % 2 ^ 32 := BitVec.toNat_sub ..
  have hrel : relTime v t = (Word.relative 31 (v.setWidth 64) (t.setWidth 64)).toInt := by
    simp only [relTime, ← apply_ite BitVec.toInt]
    rfl
  have hv64 : (v.setWidth 64).toNat = v.toNat := BitVec.toNat_setWidth_of_le (by decide)
  have ht64 : (t.setWidth 64).toNat = t.toNat := BitVec.toNat_setWidth_of_le (by decide)
  rw [hrel, Word.toInt_relative (by decide) (by rwa [hv64]) (by rwa [ht64]), hv64, ht64]
  split_ifs <;> omega

theorem relTime_of_lt (h : tsAfter v t < 2 ^ 31) : relTime v t = tsAfter v t := by
  rw [relTime_eq, if_pos (Or.inl h)]

theorem relTime_of_pos (h : 0 < relTime v t) : relTime v t = tsAfter v t := by
  have hlt : tsAfter v t < 2 ^ 32 := (t - v).isLt
  rw [relTime_eq] at h ⊢
  split_ifs at h ⊢ with hc
  · rfl
  · omega

theorem tsAfter_self : tsAfter v v = 0 := by
  simp [tsAfter]

theorem tsAfter_add (v d : U32) : tsAfter v (v + d) = d.toNat := by
  unfold tsAfter
  congr 1
  simp [BitVec.add_comm v d]

/-- The distance from a later origin. -/
theorem tsAfter_sub (h : tsAfter v w ≤ tsAfter v t) : tsAfter w t = tsAfter v t - tsAfter v w := by
  have heq : t - w = (t - v) - (w - v) := by
    ring
  unfold tsAfter
  rw [heq]
  exact Word.toNat_sub_of_le h

theorem timestampLessthaneq_iff {vq : VmQueue} {a b : U32} (ha : tsAfter vq.tsVirtual a < 2 ^ 31)
    (hb : tsAfter vq.tsVirtual b < 2 ^ 31) :
    timestampLessthaneq vq a b ↔ tsAfter vq.tsVirtual a ≤ tsAfter vq.tsVirtual b := by
  unfold timestampLessthaneq
  rw [decide_eq_true_iff, relTime_of_lt ha, relTime_of_lt hb, Nat.cast_le]

/-- The time to send `max_chunk` is short enough to be ordered after `D` has passed. -/
def FlowQueue.RateOk (D : ℕ) (q : FlowQueue) : Prop :=
  q.rate ≠ 0 → q.maxChunk.toNat * 8000000 / q.rate.toNat < 2 ^ 31 - D

/-- The time that sending `bytes` takes at the flow's rate. -/
theorem tsAfter_newTs {vq : VmQueue} {q : FlowQueue} {bytes : U32} (hrate : q.rate ≠ 0)
    (hok : q.RateOk D) (hbytes : bytes.toNat ≤ q.maxChunk.toNat) :
    tsAfter vq.tsVirtual (flowQueueNewTs vq q bytes) = bytes.toNat * 8000000 / q.rate.toNat ∧
      bytes.toNat * 8000000 / q.rate.toNat ≤ q.maxChunk.toNat * 8000000 / q.rate.toNat := by
  have hmax := q.maxChunk.isLt
  have hle : bytes.toNat * 8000000 / q.rate.toNat ≤ q.maxChunk.toNat * 8000000 / q.rate.toNat :=
    Nat.div_le_div_right (by omega)
  refine ⟨?_, hle⟩
  have hlt := hok hrate
  have hr := q.rate.isLt
  unfold flowQueueNewTs
  rw [tsAfter_add, BitVec.toNat_setWidth, BitVec.toNat_udiv, BitVec.toNat_mul, BitVec.toNat_mul,
    BitVec.toNat_setWidth, BitVec.toNat_setWidth]
  have h8 : (8 : U64).toNat = 8 := rfl
  have hmil : (1000000 : U64).toNat = 1000000 := by simp
  have hb : bytes.toNat % 2 ^ 64 * 8 % 2 ^ 64 * 1000000 % 2 ^ 64 = bytes.toNat * 8000000 := by
    omega
  have hshort : bytes.toNat * 8000000 / q.rate.toNat < 2 ^ 32 :=
    lt_of_le_of_lt hle (lt_of_lt_of_le hlt (by omega))
  rw [h8, hmil, hb, Nat.mod_eq_of_lt (a := q.rate.toNat) (by omega), Nat.mod_eq_of_lt hshort]

/-- The timestamp with which a flow enters the skip list is in the window. -/
theorem tsAfter_reasonableTs {vq : VmQueue} {q : FlowQueue} (hrate : q.rate ≠ 0)
    (hok : q.RateOk D) : tsAfter vq.tsVirtual (reasonableTs vq q) < 2 ^ 31 - D := by
  have hchunk : (q.maxChunk.setWidth 32).toNat = q.maxChunk.toNat := by
    rw [BitVec.toNat_setWidth]
    exact Nat.mod_eq_of_lt (by have := q.maxChunk.isLt; omega)
  have hmax : tsAfter vq.tsVirtual (flowQueueNewTs vq q (q.maxChunk.setWidth 32)) < 2 ^ 31 - D := by
    rw [(tsAfter_newTs hrate hok hchunk.le).1, hchunk]
    exact hok hrate
  unfold reasonableTs
  dsimp only
  by_cases hpast : timestampLessthaneq vq q.nextTs vq.tsVirtual
  · rw [if_pos hpast, tsAfter_self]
    omega
  · rw [if_neg hpast]
    by_cases hbeyond : timestampLessthaneq vq q.nextTs
        (flowQueueNewTs vq q (q.maxChunk.setWidth 32))
    · rw [if_neg (not_not.2 hbeyond)]
      have hzero : relTime vq.tsVirtual vq.tsVirtual = 0 := by
        rw [relTime_of_lt (by rw [tsAfter_self]; exact Nat.two_pow_pos 31), tsAfter_self]
        rfl
      unfold timestampLessthaneq at hpast hbeyond
      rw [decide_eq_true_iff, hzero] at hpast
      rw [decide_eq_true_iff, relTime_of_pos (not_le.1 hpast),
        relTime_of_lt (by omega)] at hbeyond
      omega
    · rw [if_pos hbeyond]
      exact hmax

/-! ### The flows queued -/

/-- A flow in the skip list, as the debug output tells: when it may send, and its level. -/
structure Queued where
  idx : U32
  ts : U32
  level : ℕ
deriving DecidableEq

/-- Effect of a line of the debug output on the flows queued, in the order of insertion. -/
def replay (ps : List Queued) : LinkOp → List Queued
  | .insert idx ts level => ps ++ [⟨idx, ts, level⟩]
  | .remove idx _ => ps.filter fun e => e.idx ≠ idx

/-- The flows queued after these lines, in the order of insertion. -/
def pending (trace : List LinkOp) : List Queued := trace.foldl replay []

/-- Timestamps of the flows taken off. -/
def removedTs (ops : List LinkOp) : List U32 :=
  ops.filterMap fun op =>
    match op with
    | .insert .. => none
    | .remove _ ts => some ts

theorem pending_append (trace : List LinkOp) (op : LinkOp) :
    pending (trace ++ [op]) = replay (pending trace) op := by
  simp [pending]

variable {qs qs' : List Queued} {e : Queued} {rest : List Queued}

/-- The skip list holds the flows `qs`, which are those queued, in the order in which they are to
leave. -/
structure SkipQueue (D : ℕ) (c : VmCtx) (nl : List U32) (lv : ℕ → List U32) (qs : List Queued) :
    Prop where
  lists : c.vq.fqman.Lists nl lv
  rates : ∀ f, (c.flow f).RateOk D
  queue : Stable.Queue (fun e => tsAfter c.vq.tsVirtual e.ts) (pending c.trace) qs
  bottom : lv 0 = qs.map Queued.idx
  ts : ∀ e ∈ qs, (c.flow e.idx).nextTs = e.ts
  levels : ∀ e ∈ qs, ∀ l, e.idx ∈ lv l ↔ l ≤ e.level
  window : ∀ e ∈ qs, tsAfter c.vq.tsVirtual e.ts < 2 ^ 31

section

variable (h : SkipQueue D c nl lv qs)
include h

theorem SkipQueue.idx_nodup : (qs.map Queued.idx).Nodup := by
  rw [← h.bottom]
  exact h.lists.nodup

theorem SkipQueue.mem_bottom (he : e ∈ qs) : e.idx ∈ lv 0 := by
  rw [h.bottom]
  exact mem_map_of_mem he

/-- Changes that leave the skip list and the timestamps alone. -/
theorem SkipQueue.frame (hlists : c'.vq.fqman.Lists nl' lv)
    (hrates : ∀ f, (c'.flow f).RateOk D) (hts : ∀ f ∈ lv 0, (c'.flow f).nextTs = (c.flow f).nextTs)
    (hvirtual : c'.vq.tsVirtual = c.vq.tsVirtual) (htrace : c'.trace = c.trace) :
    SkipQueue D c' nl' lv qs := by
  refine ⟨hlists, hrates, ?_, h.bottom, fun e he => ?_, h.levels, ?_⟩
  · rw [hvirtual, htrace]
    exact h.queue
  · rw [hts e.idx (h.mem_bottom he)]
    exact h.ts e he
  · rw [hvirtual]
    exact h.window

omit h in
/-- A later origin keeps the order. -/
theorem queue_advance {ps : List Queued} (h : Stable.Queue (fun e => tsAfter v e.ts) ps qs)
    (hfirst : ∀ e ∈ qs, tsAfter v t ≤ tsAfter v e.ts) :
    Stable.Queue (fun e => tsAfter t e.ts) ps qs := by
  refine h.congr (fun a ha b hb hab => ?_) fun a ha b hb hab => ?_
  · have hle := hfirst a ha
    rw [tsAfter_sub hle, tsAfter_sub (hfirst b hb)]
    omega
  · rw [tsAfter_sub (hfirst a ha), tsAfter_sub (hfirst b hb), hab]

/-- The virtual time may advance up to the first flow. -/
theorem SkipQueue.advance
    (hfirst : ∀ e ∈ qs, tsAfter c.vq.tsVirtual v ≤ tsAfter c.vq.tsVirtual e.ts) (tsReal : U32) :
    SkipQueue D { c with vq := { c.vq with tsVirtual := v, tsReal := tsReal } } nl lv qs := by
  refine { h with queue := queue_advance h.queue hfirst, window := fun e he => ?_ }
  change tsAfter v e.ts < 2 ^ 31
  have hw := h.window e he
  rw [tsAfter_sub (hfirst e he)]
  omega

omit h in
theorem FlowQueue.RateOk.congr {q q' : FlowQueue} (h : q.RateOk D) (hrate : q'.rate = q.rate)
    (hchunk : q'.maxChunk = q.maxChunk) : q'.RateOk D := by
  unfold FlowQueue.RateOk
  rw [hrate, hchunk]
  exact h

/-- Links and flags outside of the skip list. -/
theorem SkipQueue.relinked (hlists : c'.vq.fqman.Lists nl' lv)
    (hparams : ∀ f, (c'.flow f).SameParams (c.flow f)) (hvirtual : c'.vq.tsVirtual = c.vq.tsVirtual)
    (htrace : c'.trace = c.trace) : SkipQueue D c' nl' lv qs :=
  h.frame hlists (fun f => (h.rates f).congr (hparams f).rate (hparams f).maxChunk)
    (fun f _ => (hparams f).nextTs) hvirtual htrace

omit h in
/-- The level on which a flow stands after an insertion. -/
theorem mem_inserted_of_ne {level l : ℕ} {le : U32 → Bool} (hf : f ≠ idx)
    (hcut : l < qmanSkiplistLevels → Cut le (lv l) (A l) (B l))
    (hlevel : level < qmanSkiplistLevels) : f ∈ inserted level idx lv A B l ↔ f ∈ lv l := by
  by_cases hl : l ≤ level
  · rw [inserted_of_le hl, (hcut (by omega)).eq]
    simp [hf]
  · rw [inserted_of_lt (not_le.1 hl)]

/-- A flow that is linked joins the queue behind those that may send no later. -/
theorem SkipQueue.linked (hins : SkipInserted c c' idx nl lv A B)
    (hrate : (c.flow idx).rate ≠ 0) (hsk : (c.flow idx).inSkiplist = false) :
    ∃ qs', SkipQueue D c' nl (inserted (flowQueueLevel (c.rng 0)) idx lv A B) qs' := by
  set ts := reasonableTs c.vq (c.flow idx) with hts
  set level := flowQueueLevel (c.rng 0) with hlevel
  have hlt : level < qmanSkiplistLevels := flowQueueLevel_lt _
  have hnew := h.lists.not_mem_level hsk
  have hvirtual : c'.vq.tsVirtual = c.vq.tsVirtual := by rw [hins.outer]
  have hafter : tsAfter c.vq.tsVirtual ts < 2 ^ 31 :=
    lt_of_lt_of_le (tsAfter_reasonableTs hrate (h.rates idx)) (Nat.sub_le _ _)
  have hne : ∀ e ∈ qs, e.idx ≠ idx := fun e he heq => hnew 0 (heq ▸ h.mem_bottom he)
  have hkeep : ∀ e ∈ qs, (c'.flow e.idx).nextTs = e.ts := fun e he =>
    (FlowQueue.same (hins.others e.idx (hne e he))).nextTs.trans (h.ts e he)
  -- the cut on the lowest level splits the queue
  have hcut := hins.cut 0 (by decide)
  obtain ⟨qa, qb, rfl, hA, hB⟩ := map_eq_append_iff.1 (h.bottom.symm.trans hcut.eq)
  have hcutq : Cut (fun e : Queued => timestampLessthaneq c.vq e.ts ts) (qa ++ qb) qa qb := by
    refine ⟨rfl, fun a ha => ?_, fun b hb => ?_⟩
    · have hmem : a ∈ qa ++ qb := mem_append_left _ (mem_of_getLast? ha)
      have hlast := hcut.last a.idx (by rw [← hA, List.getLast?_map, ha]; rfl)
      rwa [hkeep a hmem] at hlast
    · have hmem : b ∈ qa ++ qb := mem_append_right _ (mem_of_mem_head? hb)
      have hstop := hcut.stop b.idx (by rw [← hB, List.head?_map, hb]; rfl)
      rwa [hkeep b hmem] at hstop
  obtain ⟨hbefore, hbehind⟩ := hcutq.of_sorted h.queue.sorted fun a ha =>
    timestampLessthaneq_iff (h.window a ha) hafter
  have hself : (c'.flow idx).nextTs = ts := congrArg FlowQueue.nextTs hins.self
  have hmem : ∀ e ∈ qa ++ ⟨idx, ts, level⟩ :: qb, e = ⟨idx, ts, level⟩ ∨ e ∈ qa ++ qb := by
    intro e he
    simp only [mem_append, mem_cons] at he ⊢
    tauto
  refine ⟨qa ++ ⟨idx, ts, level⟩ :: qb, hins.lists, fun f => ?_, ?_, ?_, ?_, ?_, ?_⟩
  · by_cases hf : f = idx
    · subst hf
      have hrate' := congrArg FlowQueue.rate hins.self
      have hchunk' := congrArg FlowQueue.maxChunk hins.self
      exact (h.rates f).congr hrate' hchunk'
    · have hsame := FlowQueue.same (hins.others f hf)
      exact (h.rates f).congr hsame.rate hsame.maxChunk
  · rw [hvirtual, hins.trace, pending_append]
    exact h.queue.insert hbefore hbehind
  · rw [inserted_of_le (Nat.zero_le _), ← hA, ← hB]
    simp
  · intro e he
    obtain rfl | he := hmem e he
    · exact hself
    · exact hkeep e he
  · intro e he l
    obtain rfl | he := hmem e he
    · by_cases hl : l ≤ level
      · rw [inserted_of_le hl]
        simp [hl]
      · rw [inserted_of_lt (not_le.1 hl)]
        exact iff_of_false (hnew l) hl
    · rw [mem_inserted_of_ne (hne e he) (hins.cut l) hlt]
      exact h.levels e he l
  · intro e he
    rw [hvirtual]
    obtain rfl | he := hmem e he
    · exact hafter
    · exact h.window e he

/-- The flow at the head of the skip list. -/
theorem SkipQueue.exists_head (hne : c.vq.fqman.headIdx 0 ≠ idxlistInval) :
    ∃ e rest, qs = e :: rest ∧ c.vq.fqman.headIdx 0 = e.idx ∧
      (c.flow (c.vq.fqman.headIdx 0)).nextTs = e.ts := by
  obtain ⟨rest, hrest, -⟩ := (h.lists.level 0 (by decide)).exists_cons hne
  rw [h.bottom] at hrest
  obtain ⟨e, qs', rfl, he, -⟩ := map_eq_cons_iff.1 hrest
  refine ⟨e, qs', rfl, he.symm, ?_⟩
  rw [← he]
  exact h.ts e mem_cons_self

omit h in
/-- The first flow leaves, and the virtual time advances to its timestamp. -/
theorem SkipQueue.popped (h : SkipQueue D c nl lv (e :: rest))
    (hhead : c.vq.fqman.headIdx 0 = e.idx) :
    SkipQueue D (skipPop c) nl (fun l => (lv l).erase e.idx) rest ∧
      (skipPop c).trace = c.trace ++ [.remove e.idx e.ts] ∧ (skipPop c).vq.tsVirtual = e.ts := by
  have hinval : e.idx ≠ idxlistInval :=
    (h.lists.level 0 (by decide)).ne_nil e.idx (h.mem_bottom mem_cons_self)
  obtain ⟨hlists, hchanged⟩ := skipPop_spec h.lists hhead hinval
  have hts : (c.flow e.idx).nextTs = e.ts := h.ts e mem_cons_self
  have hvirtual : (skipPop c).vq.tsVirtual = e.ts := by
    change (c.flow (c.vq.fqman.headIdx 0)).nextTs = _
    rw [hhead, hts]
  have htrace : (skipPop c).trace = c.trace ++ [.remove e.idx e.ts] := by
    change c.trace ++ [.remove (c.vq.fqman.headIdx 0)
      (c.flow (c.vq.fqman.headIdx 0)).nextTs] = _
    rw [hhead, hts]
  refine ⟨?_, htrace, hvirtual⟩
  have hidx := h.idx_nodup
  obtain ⟨hnot, -⟩ := nodup_cons.1 hidx
  have hnodup : (e :: rest).Nodup := List.Nodup.of_map _ hidx
  have hne : ∀ a ∈ rest, a.idx ≠ e.idx := fun a ha heq =>
    hnot (heq ▸ mem_map_of_mem ha)
  have hfirst : ∀ a ∈ rest, tsAfter c.vq.tsVirtual e.ts ≤ tsAfter c.vq.tsVirtual a.ts :=
    (pairwise_cons.1 h.queue.sorted).1
  -- among those queued, only this one has this index
  have hfilter : (pending c.trace).filter (fun a => a.idx ≠ e.idx) =
      (pending c.trace).filter (· ≠ e) := by
    refine filter_congr fun a ha => ?_
    obtain rfl | ha := mem_cons.1 (h.queue.perm.symm.subset ha)
    · simp
    · have hae : a ≠ e := fun heq => hne a ha (congrArg Queued.idx heq)
      simp [hne a ha, hae]
  have hpopped : Stable.Queue (fun a => tsAfter c.vq.tsVirtual a.ts)
      (pending (skipPop c).trace) rest := by
    rw [htrace, pending_append]
    change Stable.Queue _ ((pending c.trace).filter _) rest
    rw [hfilter]
    exact h.queue.pop hnodup
  have hkeep : ∀ f, ((skipPop c).flow f).SameParams (c.flow f) :=
    hchanged.params ⟨rfl, rfl, rfl, rfl⟩
  refine ⟨hlists, fun f => (h.rates f).congr (hkeep f).rate (hkeep f).maxChunk, ?_, ?_,
    fun a ha => ?_, fun a ha l => ?_, fun a ha => ?_⟩
  · rw [hvirtual]
    exact queue_advance hpopped hfirst
  · rw [h.bottom, map_cons, erase_cons_head]
  · rw [(hkeep a.idx).nextTs]
    exact h.ts a (mem_cons_of_mem _ ha)
  · rw [mem_erase_of_ne (hne a ha)]
    exact h.levels a (mem_cons_of_mem _ ha) l
  · rw [hvirtual, tsAfter_sub (hfirst a ha)]
    have hw := h.window a (mem_cons_of_mem _ ha)
    omega

/-! ### Activating and firing -/

/-- At most one flow was linked. -/
def LinkedOnly (trace trace' : List LinkOp) : Prop :=
  trace' = trace ∨ ∃ idx ts level, trace' = trace ++ [.insert idx ts level]

theorem SkipQueue.activated (hact : Activated c c' idx nl lv nl' lv')
    (hsk : (c.flow idx).inSkiplist = false) :
    (∃ qs', SkipQueue D c' nl' lv' qs') ∧ LinkedOnly c.trace c'.trace := by
  cases hact with
  | nolimit hrate hc' hnl hlv hlists hchanged =>
    subst hlv
    have htrace : c'.trace = c.trace := by
      rw [hc']
      rfl
    have hvirtual : c'.vq.tsVirtual = c.vq.tsVirtual := by
      rw [hc']
      rfl
    exact ⟨⟨qs, h.relinked hlists (hchanged.params ⟨rfl, rfl, rfl, rfl⟩) hvirtual htrace⟩,
      Or.inl htrace⟩
  | skiplist hrate hnl hlv hins =>
    subst hnl hlv
    exact ⟨h.linked hins hrate hsk, Or.inr ⟨_, _, _, hins.trace⟩⟩

end

theorem SkipQueue.charged (h : SkipQueue D s.toVmCtx nl lv qs)
    (hsk : (s.flow idx).inSkiplist = false) : SkipQueue D (s.charged idx) nl lv qs := by
  refine h.frame (charged_lists h.lists) (fun f => ?_) (fun f hf => ?_) rfl rfl
  · by_cases hf : f = idx
    · subst hf
      rw [charged_flow_self]
      exact (h.rates f).congr rfl rfl
    · rw [charged_flow_of_ne s hf]
      exact h.rates f
  · have hne : f ≠ idx := fun he => h.lists.not_mem_level hsk 0 (he ▸ hf)
    rw [charged_flow_of_ne s hne]

theorem SkipQueue.fired (h : SkipQueue D s.toVmCtx nl lv qs)
    (hfired : Fired s s' idx nl lv nl' lv') (hsk : (s.flow idx).inSkiplist = false) :
    (∃ qs', SkipQueue D s'.toVmCtx nl' lv' qs') ∧ LinkedOnly s.trace s'.trace ∧
      s'.vq.tsVirtual = s.vq.tsVirtual := by
  have hvirtual : s'.vq.tsVirtual = s.vq.tsVirtual := by rw [hfired.outer.1]
  have hcharged := h.charged hsk
  obtain ⟨-, hact⟩ | ⟨-, hctx, rfl, rfl⟩ := hfired.ctx
  · have hsk' : ((s.charged idx).flow idx).inSkiplist = false := by
      rw [charged_flow_self]
      exact hsk
    obtain ⟨hqueue, htrace⟩ := hcharged.activated hact hsk'
    exact ⟨hqueue, htrace, hvirtual⟩
  · rw [hctx] at hvirtual ⊢
    exact ⟨⟨qs, hcharged⟩, Or.inl rfl, hvirtual⟩

/-! ### Polling -/

/-- A poll that started at the virtual time `v₀`, with the debug output `trace`, and may reach
`limit`: each flow taken off was the first of those queued, where those with equal timestamps are
in the order of insertion; it comes after those taken off before it and not after the limit. -/
inductive PollOrder (v₀ limit : U32) (trace : List LinkOp) : List LinkOp → Prop
  | nil : PollOrder v₀ limit trace []
  | insert {ops : List LinkOp} (idx ts : U32) (level : ℕ) (h : PollOrder v₀ limit trace ops) :
      PollOrder v₀ limit trace (ops ++ [.insert idx ts level])
  | remove {ops : List LinkOp} {e : Queued} {as bs : List Queued}
      (h : PollOrder v₀ limit trace ops) (hpending : pending (trace ++ ops) = as ++ e :: bs)
      (hearlier : ∀ a ∈ as, tsAfter v₀ e.ts < tsAfter v₀ a.ts)
      (hlater : ∀ b ∈ bs, tsAfter v₀ e.ts ≤ tsAfter v₀ b.ts)
      (hsorted : ∀ t ∈ removedTs ops, tsAfter v₀ t ≤ tsAfter v₀ e.ts)
      (hlimit : tsAfter v₀ e.ts ≤ tsAfter v₀ limit) :
      PollOrder v₀ limit trace (ops ++ [.remove e.idx e.ts])

/-- Distances add up if they do not wrap. -/
theorem tsAfter_trans (h : tsAfter v w + tsAfter w t < 2 ^ 32) :
    tsAfter v t = tsAfter v w + tsAfter w t := by
  have heq : t - v = (w - v) + (t - w) := by
    ring
  unfold tsAfter at h ⊢
  rw [heq]
  exact Word.toNat_add_of_lt h

theorem LinkedOnly.order {v₀ limit : U32} {trace trace' ops : List LinkOp} {old : List LinkOp}
    (h : LinkedOnly trace trace') (htrace : trace = old ++ ops)
    (horder : PollOrder v₀ limit old ops) :
    ∃ ops', trace' = old ++ ops' ∧ PollOrder v₀ limit old ops' ∧
      removedTs ops' = removedTs ops := by
  obtain rfl | ⟨idx, ts, level, rfl⟩ := h
  · exact ⟨ops, htrace, horder, rfl⟩
  · refine ⟨ops ++ [.insert idx ts level], ?_, horder.insert idx ts level, ?_⟩
    · rw [htrace, append_assoc]
    · simp [removedTs]

/-- A state during a poll that started in `s₀`, after the lines `ops`. -/
structure PollState (D : ℕ) (s₀ s : FlowPoll) (nl : List U32) (lv : ℕ → List U32)
    (qs : List Queued) (ops : List LinkOp) : Prop where
  queue : SkipQueue D s.toVmCtx nl lv qs
  trace : s.trace = s₀.trace ++ ops
  order : PollOrder s₀.vq.tsVirtual s₀.maxVts s₀.trace ops
  reached : tsAfter s₀.vq.tsVirtual s.vq.tsVirtual ≤ tsAfter s₀.vq.tsVirtual s₀.maxVts
  past : ∀ t ∈ removedTs ops, tsAfter s₀.vq.tsVirtual t ≤ tsAfter s₀.vq.tsVirtual s.vq.tsVirtual
  clock : s.skpl.curTs = s₀.skpl.curTs ∧ s.skpl.origNum = s₀.skpl.origNum

variable {s₀ : FlowPoll} {ops : List LinkOp}

section

variable (h : PollState D s₀ s nl lv qs ops)
include h

section

variable (hD : tsAfter s₀.vq.tsVirtual s₀.maxVts ≤ D)
include hD

/-- The limit from the present virtual time. -/
theorem PollState.limit (hlt : D < 2 ^ 31) : tsAfter s.vq.tsVirtual s₀.maxVts < 2 ^ 31 := by
  rw [tsAfter_sub h.reached]
  omega

/-- Distances from the start of the poll. -/
theorem PollState.sum (hlt : D < 2 ^ 31)
    (ht : tsAfter s.vq.tsVirtual t < 2 ^ 31) : tsAfter s₀.vq.tsVirtual t =
      tsAfter s₀.vq.tsVirtual s.vq.tsVirtual + tsAfter s.vq.tsVirtual t := by
  have hreach := h.reached
  exact tsAfter_trans (by omega)

/-- The virtual time advances, at most to the limit and to the first flow. -/
theorem PollState.advance (hlt : D < 2 ^ 31)
    (hlimit : tsAfter s.vq.tsVirtual v ≤ tsAfter s.vq.tsVirtual s₀.maxVts)
    (hfirst : ∀ e ∈ qs, tsAfter s.vq.tsVirtual v ≤ tsAfter s.vq.tsVirtual e.ts) (tsReal : U32)
    (skpl : SkiplistFstate) (hskpl : skpl.curTs = s.skpl.curTs ∧ skpl.origNum = s.skpl.origNum) :
    PollState D s₀ { s with vq := { s.vq with tsVirtual := v, tsReal := tsReal }, skpl := skpl }
      nl lv qs ops := by
  have hmax := h.limit hD hlt
  have hmaxsum := h.sum hD hlt hmax
  have hsum := h.sum (t := v) hD hlt (by omega)
  refine ⟨h.queue.advance hfirst tsReal, h.trace, h.order, ?_, fun t ht => ?_,
    hskpl.1.trans h.clock.1, hskpl.2.trans h.clock.2⟩
  · change tsAfter s₀.vq.tsVirtual v ≤ _
    omega
  · have hpast := h.past t ht
    change _ ≤ tsAfter s₀.vq.tsVirtual v
    omega

omit hD in
omit h in
/-- A flow is taken off. -/
theorem PollState.popped (h : PollState D s₀ s nl lv (e :: rest) ops)
    (hD : tsAfter s₀.vq.tsVirtual s₀.maxVts ≤ D) (hlt : D < 2 ^ 31)
    (hhead : s.vq.fqman.headIdx 0 = e.idx)
    (hle : tsAfter s.vq.tsVirtual e.ts ≤ tsAfter s.vq.tsVirtual s₀.maxVts) :
    PollState D s₀ s.skipPopped nl (fun l => (lv l).erase e.idx) rest
      (ops ++ [.remove e.idx e.ts]) := by
  obtain ⟨hqueue, htrace, hvirtual⟩ := h.queue.popped hhead
  have hsum := fun a ha => h.sum hD hlt (h.queue.window a ha)
  have hmaxsum := h.sum hD hlt (h.limit hD hlt)
  have he := hsum e mem_cons_self
  obtain ⟨as, bs, hps, hearlier, hlater⟩ :=
    h.queue.queue.first (List.Nodup.of_map _ h.queue.idx_nodup)
  have hmem : ∀ a, a ∈ as ∨ a ∈ bs → a ∈ e :: rest := by
    intro a ha
    refine h.queue.queue.perm.symm.subset ?_
    rw [hps]
    simpa using ha.imp_right Or.inr
  refine ⟨hqueue, ?_, ?_, ?_, fun t ht => ?_, h.clock⟩
  · change (skipPop s.toVmCtx).trace = _
    rw [htrace, h.trace, append_assoc]
  · have hpending : pending (s₀.trace ++ ops) = as ++ e :: bs := by
      rw [← h.trace]
      exact hps
    refine h.order.remove hpending (fun a ha => ?_) (fun b hb => ?_) (fun t ht => ?_) ?_
    · have hlt' := hearlier a ha
      rw [he, hsum a (hmem a (Or.inl ha))]
      omega
    · have hle' := hlater b hb
      rw [he, hsum b (hmem b (Or.inr hb))]
      omega
    · have hpast := h.past t ht
      omega
    · omega
  · change tsAfter _ (skipPop s.toVmCtx).vq.tsVirtual ≤ _
    rw [hvirtual]
    omega
  · change _ ≤ tsAfter _ (skipPop s.toVmCtx).vq.tsVirtual
    rw [hvirtual]
    have hcases : t ∈ removedTs ops ∨ t = e.ts := by simpa [removedTs] using ht
    obtain hpast | rfl := hcases
    · have := h.past t hpast
      omega
    · exact le_rfl

omit hD in
/-- A flow fires. -/
theorem PollState.fired (hfired : Fired s s' idx nl lv nl' lv')
    (hsk : (s.flow idx).inSkiplist = false) : ∃ qs' ops', PollState D s₀ s' nl' lv' qs' ops' := by
  obtain ⟨⟨qs', hqueue⟩, hlinked, hvirtual⟩ := h.queue.fired hfired hsk
  obtain ⟨ops', htrace, horder, hremoved⟩ := hlinked.order h.trace h.order
  refine ⟨qs', ops', hqueue, htrace, horder, ?_, ?_, ?_⟩
  · rw [hvirtual]
    exact h.reached
  · rw [hvirtual, hremoved]
    exact h.past
  · rw [hfired.skpl]
    exact h.clock

/-- The virtual time is at the limit, or at the first flow if that is still due, counted from
`v₀`. -/
def VmQueue.CaughtUp (vq : VmQueue) (v₀ limit : U32) : Prop :=
  let q := vq.fqman.queues (vq.fqman.headIdx 0)
  vq.tsVirtual =
    if vq.fqman.headIdx 0 ≠ idxlistInval ∧ tsAfter v₀ q.nextTs ≤ tsAfter v₀ limit then q.nextTs
    else limit

/-- A flow that is queued is due now if it is due from the start of the poll. -/
theorem PollState.due_iff (hlt : D < 2 ^ 31) (he : e ∈ qs) :
    timestampLessthaneq s.vq e.ts s₀.maxVts ↔
      tsAfter s₀.vq.tsVirtual e.ts ≤ tsAfter s₀.vq.tsVirtual s₀.maxVts := by
  have hw := h.queue.window e he
  have hmax := tsAfter_sub h.reached
  have hreach := h.reached
  have hsum := h.sum hD hlt hw
  rw [timestampLessthaneq_iff hw (h.limit hD hlt)]
  omega

/-- What each round of `flow_poll_skiplist` keeps, with the work left. -/
def RoundOk (D fuel num : ℕ) (live : Prop) (s₀ : FlowPoll) (n cnt : ℕ) (s : FlowPoll) : Prop :=
  ∃ nl lv qs ops, PollState D s₀ s nl lv qs ops ∧ cnt ≤ num ∧
    (live → flexnicNumQmflowqueues < fuel ∧ (lv 0).length + (num - cnt) < n)

omit hD in
omit h in
theorem skiplistLoop_order (h : SkipQueue D s.toVmCtx nl lv qs)
    (hD : tsAfter s.vq.tsVirtual s.maxVts ≤ D) (hlt : D < 2 ^ 31) :
    Meets (flexnicNumQmflowqueues + num < fuel)
      (fun r => (∃ nl lv qs ops, PollState D s r.2 nl lv qs ops) ∧
        (r.1 ≠ num → r.2.vq.CaughtUp s.vq.tsVirtual s.maxVts))
      (skiplistLoop fuel num s.maxVts fuel 0 s) := by
  have hstart : RoundOk D fuel num (flexnicNumQmflowqueues + num < fuel) s fuel 0 s := by
    refine ⟨nl, lv, qs, [], ⟨h, (append_nil _).symm, .nil, ?_, by simp [removedTs], rfl, rfl⟩,
      Nat.zero_le _, fun hlive => ⟨by omega, ?_⟩⟩
    · rw [tsAfter_self]
      exact Nat.zero_le _
    · have := h.lists.level_length 0
      omega
  refine skiplistLoop_rule
    (I := RoundOk D fuel num (flexnicNumQmflowqueues + num < fuel) s) ?_ ?_ ?_ ?_ ?_ ?_ ?_ hstart
  · rintro cnt s' ⟨nl, lv, qs, ops, -, -, hwork⟩ hlive
    exact absurd (hwork hlive).2 (Nat.not_lt_zero _)
  · rintro n cnt s' ⟨nl, lv, qs, ops, hstate, hle, -⟩ hfull
    exact ⟨⟨nl, lv, qs, ops, hstate⟩, fun hne => (hfull (lt_of_le_of_ne hle hne)).elim⟩
  · rintro n cnt s' ⟨nl, lv, qs, ops, hstate, -⟩ - hhead
    have hnil : lv 0 = [] := (hstate.queue.lists.level 0 (by decide)).eq_nil_iff.1 hhead
    have hqs : qs = [] := by
      rw [hstate.queue.bottom] at hnil
      exact map_eq_nil_iff.1 hnil
    subst hqs
    exact ⟨⟨nl, lv, [], ops, hstate.advance hD hlt le_rfl (by simp) s'.vq.tsReal s'.skpl
      ⟨rfl, rfl⟩⟩, fun _ => (if_neg fun hc => hc.1 hhead).symm⟩
  · rintro n cnt s' ⟨nl, lv, qs, ops, hstate, -⟩ - hhead hbeyond
    obtain ⟨e, rest, rfl, -, hts⟩ := hstate.queue.exists_head hhead
    have hw := hstate.queue.window e mem_cons_self
    have hfirst : ∀ a ∈ e :: rest,
        tsAfter s'.vq.tsVirtual s.maxVts ≤ tsAfter s'.vq.tsVirtual a.ts := by
      have hnot : ¬ tsAfter s'.vq.tsVirtual e.ts ≤ tsAfter s'.vq.tsVirtual s.maxVts := by
        rw [← timestampLessthaneq_iff hw (hstate.limit hD hlt), ← hts, hbeyond]
        exact Bool.false_ne_true
      intro a ha
      obtain rfl | ha := mem_cons.1 ha
      · omega
      · have hsorted : tsAfter s'.vq.tsVirtual e.ts ≤ tsAfter s'.vq.tsVirtual a.ts :=
          (pairwise_cons.1 hstate.queue.queue.sorted).1 a ha
        omega
    refine ⟨⟨nl, lv, e :: rest, ops,
      hstate.advance hD hlt le_rfl hfirst s'.vq.tsReal _ ⟨rfl, rfl⟩⟩, fun _ => ?_⟩
    refine (if_neg fun hc => ?_).symm
    have hdue : tsAfter _ (s'.flow (s'.vq.fqman.headIdx 0)).nextTs ≤ _ := hc.2
    rw [hts, ← hstate.due_iff hD hlt mem_cons_self, ← hts, hbeyond] at hdue
    exact Bool.false_ne_true hdue
  · rintro n cnt s' ⟨nl, lv, qs, ops, hstate, -⟩ hhead
    exact (skipPopped_spec hstate.queue.lists hhead).1
  · rintro n cnt s' ⟨nl, lv, qs, ops, hstate, hcnt, hwork⟩ - hhead hle -
    obtain ⟨e, rest, rfl, hidx, hts⟩ := hstate.queue.exists_head hhead
    have hw := hstate.queue.window e mem_cons_self
    rw [hts, timestampLessthaneq_iff hw (hstate.limit hD hlt)] at hle
    refine ⟨nl, _, rest, _, hstate.popped hD hlt hidx hle, hcnt, fun hlive => ?_⟩
    have hleft := hwork hlive
    rw [hstate.queue.bottom, map_cons, length_cons] at hleft
    rw [hstate.queue.bottom, map_cons, erase_cons_head]
    exact ⟨hleft.1, by omega⟩
  · rintro n cnt s' ⟨nl, lv, qs, ops, hstate, -, hwork⟩ hcnt hhead hle hpos
    obtain ⟨-, -, -, htaken⟩ := skipPopped_spec hstate.queue.lists hhead
    obtain ⟨e, rest, rfl, hidx, hts⟩ := hstate.queue.exists_head hhead
    have hw := hstate.queue.window e mem_cons_self
    rw [hts, timestampLessthaneq_iff hw (hstate.limit hD hlt)] at hle
    have hpopped := hstate.popped hD hlt hidx hle
    refine (flowQueueFire_spec hpopped.queue.lists htaken.flow htaken.nolimit htaken.skiplist
      hpos).mono (fun hlive => (hwork hlive).1) ?_
    rintro s'' ⟨nl', lv', hfired⟩
    obtain ⟨qs', ops', hstate'⟩ := hpopped.fired hfired htaken.skiplist
    refine ⟨nl', lv', qs', ops', hstate', hcnt, fun hlive => ?_⟩
    have hleft := hwork hlive
    have hlen := hfired.lengths.2
    rw [hstate.queue.bottom, map_cons, length_cons] at hleft
    rw [hstate.queue.bottom, map_cons, erase_cons_head] at hlen
    exact ⟨hleft.1, by omega⟩

/-- The virtual time after a poll that reached its limit. -/
theorem PollState.limitTs (hlt : D < 2 ^ 31) :
    tsAfter s.vq.tsVirtual (limitTs s.vq s₀.maxVts) ≤ tsAfter s.vq.tsVirtual s₀.maxVts ∧
      ∀ e ∈ qs, tsAfter s.vq.tsVirtual (Tas.limitTs s.vq s₀.maxVts) ≤
        tsAfter s.vq.tsVirtual e.ts := by
  have hmax := h.limit hD hlt
  have hlater : ∀ e rest, qs = e :: rest → ∀ a ∈ qs,
      tsAfter s.vq.tsVirtual e.ts ≤ tsAfter s.vq.tsVirtual a.ts := by
    rintro e rest rfl a ha
    obtain rfl | ha := mem_cons.1 ha
    · exact le_rfl
    · exact (pairwise_cons.1 h.queue.queue.sorted).1 a ha
  unfold Tas.limitTs
  dsimp only
  by_cases hhead : s.vq.fqman.headIdx 0 = idxlistInval
  · have hnil : lv 0 = [] := (h.queue.lists.level 0 (by decide)).eq_nil_iff.1 hhead
    rw [h.queue.bottom] at hnil
    rw [if_neg (fun hc => hc.1 hhead), map_eq_nil_iff.1 hnil]
    exact ⟨le_rfl, by simp⟩
  · obtain ⟨e, rest, hqs, -, hts⟩ := h.queue.exists_head hhead
    have hts : (s.vq.fqman.queues (s.vq.fqman.headIdx 0)).nextTs = e.ts := hts
    have hw := h.queue.window e (by rw [hqs]; exact mem_cons_self)
    rw [hts]
    have hiff := timestampLessthaneq_iff hw hmax
    by_cases hle : tsAfter s.vq.tsVirtual e.ts ≤ tsAfter s.vq.tsVirtual s₀.maxVts
    · rw [if_pos ⟨hhead, hiff.2 hle⟩]
      exact ⟨hle, hlater e rest hqs⟩
    · rw [if_neg (fun hc => hle (hiff.1 hc.2))]
      refine ⟨le_rfl, fun a ha => ?_⟩
      have := hlater e rest hqs a ha
      omega

end

end

theorem flowPollSkiplist_order (h : SkipQueue D s.toVmCtx nl lv qs)
    (hD : tsAfter s.vq.tsVirtual s.maxVts ≤ D) (hlt : D < 2 ^ 31) :
    Meets (flexnicNumQmflowqueues + num < fuel)
      (fun r => (∃ nl lv qs ops, PollState D s r.2 nl lv qs ops) ∧
        (num = s.skpl.origNum ∨ r.1 ≠ num → r.2.vq.CaughtUp s.vq.tsVirtual s.maxVts))
      (flowPollSkiplist fuel num s) := by
  unfold flowPollSkiplist
  refine (skiplistLoop_order h hD hlt).bind ?_
  rintro ⟨cnt, s'⟩ ⟨⟨nl', lv', qs', ops, hstate⟩, hcaught⟩
  have hlimit := hstate.limitTs hD hlt
  dsimp only
  split_ifs with hcnt
  · refine meets_ok ⟨⟨nl', lv', qs', ops, hstate.advance hD hlt hlimit.1 hlimit.2 _ _ ⟨rfl, rfl⟩⟩,
      fun _ => if_congr (and_congr_right fun hhead => ?_) rfl rfl⟩
    obtain ⟨e, rest, rfl, -, hts⟩ := hstate.queue.exists_head hhead
    have hdue := hstate.due_iff hD hlt mem_cons_self
    rw [← hts] at hdue
    exact hdue
  · refine meets_ok ⟨⟨nl', lv', qs', ops, hstate.advance hD hlt ?_ (fun e he => ?_) _ _ ⟨rfl, rfl⟩⟩,
      fun hlast => hcaught (hlast.elim (fun hnum he => hcnt ?_) id)⟩
    · rw [tsAfter_self]
      exact Nat.zero_le _
    · rw [tsAfter_self]
      exact Nat.zero_le _
    · exact he.trans (hnum.trans hstate.clock.2.symm)

theorem SkipQueue.nolimitPopped (h : SkipQueue D s.toVmCtx nl lv qs)
    (hne : s.vq.fqman.nolimitHeadIdx ≠ idxlistInval) :
    ∃ nl lv qs, SkipQueue D s.nolimitPopped.toVmCtx nl lv qs := by
  obtain ⟨rest, -, hlists, hchanged⟩ := nolimitPop_spec h.lists hne
  exact ⟨rest, lv, qs, h.relinked hlists (hchanged.params ⟨rfl, rfl, rfl, rfl⟩) rfl rfl⟩

/-- Flows without rate limit may enter the skip list when they fire. -/
theorem flowPollNolimit_order (h : SkipQueue D s.toVmCtx nl lv qs) :
    Meets False (fun r => ∃ nl lv qs, SkipQueue D r.2.toVmCtx nl lv qs)
      (flowPollNolimit fuel num fuel 0 s) := by
  refine (flowPollNolimit_rule (I := fun _ _ s' => ∃ nl lv qs, SkipQueue D s'.toVmCtx nl lv qs)
    (fun _ _ _ => id) ?_ ?_ ⟨nl, lv, qs, h⟩).mono id ?_
  · rintro n cnt s' ⟨nl, lv, qs, hqueue⟩ - hne -
    exact hqueue.nolimitPopped hne
  · rintro n cnt s' ⟨nl, lv, qs, hqueue⟩ - hne hpos
    obtain ⟨-, -, -, htaken⟩ := nolimitPopped_spec hqueue.lists hne
    obtain ⟨nl', lv', qs', hpopped⟩ := hqueue.nolimitPopped hne
    refine (flowQueueFire_spec hpopped.lists htaken.flow htaken.nolimit htaken.skiplist hpos).mono
      False.elim ?_
    rintro s'' ⟨nl'', lv'', hfired⟩
    obtain ⟨⟨qs'', hqueue'⟩, -⟩ := hpopped.fired hfired htaken.skiplist
    exact ⟨nl'', lv'', qs'', hqueue'⟩
  · rintro r ⟨⟨k, hk⟩, -⟩
    exact hk

/-! ### Runs -/

/-- A VM whose flows were just initialised. -/
structure SkipStart (c : VmCtx) : Prop where
  flows : ∃ nolimitFirst, c.vq.fqman = flowcontInit nolimitFirst
  trace : c.trace = []

/-- A call that returns, at most `D` after the last poll, or a change of a flow outside of the
lists. The rates are high enough for `D`. -/
inductive SkipStep (D : ℕ) (c : VmCtx) : VmCtx → Prop
  | assign (f : U32) (q : FlowQueue) (hq : q.RateOk D)
      (hflags : (c.flow f).inNolimitl = false ∧ (c.flow f).inSkiplist = false)
      (hkeep : q.inNolimitl = false ∧ q.inSkiplist = false) :
      SkipStep D c (c.withFqman (c.vq.fqman.modify f fun _ => q))
  | set {c' : VmCtx} (fuel : ℕ) (f : U32) (a : FlowParams) (hf : IsFlow f)
      (hrate : ((c.flow f).apply a).RateOk D) (hset : flowSetImpl fuel c f a = .ok c') :
      SkipStep D c c'
  | activate {c' : VmCtx} (fuel : ℕ) (f : U32) (hf : IsFlow f) (hrate : (c.flow f).rate ≠ 0)
      (hact : flowQueueActivateSkiplist fuel c f = .ok c') : SkipStep D c c'
  | nolimit {s : FlowPoll} {r : ℕ × FlowPoll} (fuel num : ℕ) (hs : s.toVmCtx = c)
      (hpoll : flowPollNolimit fuel num fuel 0 s = .ok r) : SkipStep D c r.2.toVmCtx
  | poll {s : FlowPoll} {r : ℕ × FlowPoll} (fuel num : ℕ) (hs : s.toVmCtx = c)
      (helapsed : tsAfter c.vq.tsReal s.skpl.curTs ≤ D)
      (hpoll : flowPollSkiplist fuel num s = .ok r) : SkipStep D c r.2.toVmCtx

theorem skipQueue_start (h : SkipStart c) : SkipQueue D c [] (fun _ => []) [] := by
  obtain ⟨nolimitFirst, hflows⟩ := h.flows
  refine ⟨?_, fun f hrate => ?_, ?_, rfl, by simp, by simp, by simp⟩
  · rw [hflows]
    exact flowcontInit_lists _
  · unfold VmCtx.flow at hrate
    rw [hflows] at hrate
    exact absurd rfl hrate
  · rw [h.trace]
    exact Stable.queue_nil

/-- A change of the parameters of one flow, which keeps its timestamp if it is queued. -/
theorem SkipQueue.modify {g : FlowQueue → FlowQueue} (h : SkipQueue D c nl lv qs)
    (hlists : (c.vq.fqman.modify f g).Lists nl lv) (hrate : (g (c.flow f)).RateOk D)
    (hts : f ∈ lv 0 → (g (c.flow f)).nextTs = (c.flow f).nextTs) :
    SkipQueue D (c.withFqman (c.vq.fqman.modify f g)) nl lv qs := by
  have hself : (c.withFqman (c.vq.fqman.modify f g)).flow f = g (c.flow f) :=
    queues_modify_self ..
  have hother : ∀ k ≠ f, (c.withFqman (c.vq.fqman.modify f g)).flow k = c.flow k := fun k hk =>
    queues_modify_of_ne hk
  refine h.frame hlists (fun k => ?_) (fun k hk => ?_) rfl rfl
  · by_cases hkf : k = f
    · rw [hkf, hself]
      exact hrate
    · rw [hother k hkf]
      exact h.rates k
  · by_cases hkf : k = f
    · rw [hkf] at hk ⊢
      rw [hself]
      exact hts hk
    · rw [hother k hkf]

/-- A flow outside of the lists may be changed in any way, its links included. -/
theorem FlowQman.Lists.assign {m : FlowQman} {q : FlowQueue} (h : m.Lists nl lv)
    (hnl : (m.queues f).inNolimitl = false) (hsk : (m.queues f).inSkiplist = false)
    (hkeep : q.inNolimitl = false ∧ q.inSkiplist = false) :
    (m.modify f fun _ => q).Lists nl lv := by
  have hnext : ∀ l k, k ≠ f → (m.modify f fun _ => q).next l k = m.next l k := fun l k hk => by
    unfold FlowQman.next
    rw [queues_modify_of_ne hk]
  refine h.congr (h.nolimit.congr fun k hk => hnext 0 k fun he => h.not_mem_nolimit hnl (he ▸ hk))
    (fun l hl => (h.level l hl).congr fun k hk => hnext l k fun he =>
      h.not_mem_level hsk l (he ▸ hk)) fun k => ?_
  by_cases hk : k = f
  · rw [hk, queues_modify_self, hnl, hsk]
    exact hkeep
  · rw [queues_modify_of_ne hk]
    exact ⟨rfl, rfl⟩

theorem tsAfter_maxVts : tsAfter s.vq.tsVirtual s.maxVts = tsAfter s.vq.tsReal s.skpl.curTs :=
  tsAfter_add ..

/-- An activation that returned found the flow outside of the lists. -/
theorem flags_of_activated (h : flowQueueActivateSkiplist fuel c f = .ok c') :
    (c.flow f).inNolimitl = false ∧ (c.flow f).inSkiplist = false := by
  unfold flowQueueActivateSkiplist at h
  by_cases hflags : (c.flow f).inSkiplist ∨ (c.flow f).inNolimitl
  · rw [if_pos hflags] at h
    cases h
  · have hnot := not_or.1 hflags
    exact ⟨Bool.eq_false_iff.2 hnot.2, Bool.eq_false_iff.2 hnot.1⟩

theorem SkipQueue.set (h : SkipQueue D c nl lv qs) {a : FlowParams} (hf : IsFlow f)
    (hrate : ((c.flow f).apply a).RateOk D) (hset : flowSetImpl fuel c f a = .ok c') :
    ∃ nl lv qs, SkipQueue D c' nl lv qs := by
  have hwritten := h.modify (g := fun q => q.apply a) (h.lists.modify rfl rfl rfl) hrate
    fun _ => rfl
  unfold flowSetImpl at hset
  dsimp only at hset
  set c₁ := c.withFqman (c.vq.fqman.modify f fun q => q.apply a) with hc₁
  by_cases hgo : a.newAvail ∧ (c₁.flow f).avail > 0 ∧
      ¬ ((c₁.flow f).inSkiplist ∨ (c₁.flow f).inNolimitl)
  · rw [if_pos hgo] at hset
    have hflags := not_or.1 hgo.2.2
    have hsk := Bool.eq_false_iff.2 hflags.1
    obtain ⟨nl', lv', hact⟩ := (flowQueueActivate_spec hwritten.lists hf
      (Bool.eq_false_iff.2 hflags.2) hsk).of_ok hset
    obtain ⟨⟨qs', hqueue⟩, -⟩ := hwritten.activated hact hsk
    exact ⟨nl', lv', qs', hqueue⟩
  · rw [if_neg hgo] at hset
    rw [← Except.ok.inj hset]
    exact ⟨nl, lv, qs, hwritten⟩

theorem skipQueue_step (hlt : D < 2 ^ 31) (hs : SkipStep D c c') (h : SkipQueue D c nl lv qs) :
    ∃ nl lv qs, SkipQueue D c' nl lv qs := by
  cases hs with
  | assign f q hq hflags hkeep =>
    refine ⟨nl, lv, qs, h.modify (h.lists.assign hflags.1 hflags.2 hkeep) hq fun hf => ?_⟩
    exact (h.lists.not_mem_level hflags.2 0 hf).elim
  | set fuel f a hf hrate hset => exact h.set hf hrate hset
  | activate fuel f hf hrate hact =>
    obtain ⟨hnl, hsk⟩ := flags_of_activated hact
    obtain ⟨A, B, hins⟩ := (flowQueueActivateSkiplist_spec h.lists hf hnl hsk).of_ok hact
    obtain ⟨qs', hqueue⟩ := h.linked hins hrate hsk
    exact ⟨nl, _, qs', hqueue⟩
  | nolimit fuel num hs hpoll =>
    subst hs
    exact (flowPollNolimit_order h).of_ok hpoll
  | poll fuel num hs helapsed hpoll =>
    subst hs
    rw [← tsAfter_maxVts] at helapsed
    obtain ⟨⟨nl', lv', qs', ops, hstate⟩, -⟩ := (flowPollSkiplist_order h helapsed hlt).of_ok hpoll
    exact ⟨nl', lv', qs', hstate.queue⟩

theorem skipQueue_of_reachable {c₀ : VmCtx} (hlt : D < 2 ^ 31) (h₀ : SkipStart c₀)
    (h : ReflTransGen (SkipStep D) c₀ c) : ∃ nl lv qs, SkipQueue D c nl lv qs := by
  induction h with
  | refl => exact ⟨_, _, _, skipQueue_start h₀⟩
  | tail _ hs ih =>
    obtain ⟨nl, lv, qs, hqueue⟩ := ih
    exact skipQueue_step hlt hs hqueue

/-- Shape of the skip list: `lv l` is level `l`. -/
structure SkipShape (c : VmCtx) (lv : ℕ → List U32) : Prop where
  path : ∀ l < qmanSkiplistLevels,
    Path idxlistInval (c.vq.fqman.next l) (c.vq.fqman.headIdx l) (lv l)
  nodup : ∀ l, (lv l).Nodup
  layered : ∀ l, List.Sublist (lv (l + 1)) (lv l)
  sorted : ∀ l, (lv l).Pairwise fun f g =>
    tsAfter c.vq.tsVirtual (c.flow f).nextTs ≤ tsAfter c.vq.tsVirtual (c.flow g).nextTs
  window : ∀ f ∈ lv 0, tsAfter c.vq.tsVirtual (c.flow f).nextTs < 2 ^ 31
  flagged : ∀ f, f ∈ lv 0 ↔ (c.flow f).inSkiplist
  queued : ∀ f, f ∈ lv 0 ↔ ∃ e ∈ pending c.trace, e.idx = f
  entry : ∀ e ∈ pending c.trace, (c.flow e.idx).nextTs = e.ts ∧ e.level < qmanSkiplistLevels ∧
    ∀ l, e.idx ∈ lv l ↔ l ≤ e.level

theorem SkipQueue.shape (h : SkipQueue D c nl lv qs) : SkipShape c lv := by
  have hmem : ∀ e, e ∈ pending c.trace ↔ e ∈ qs := fun e => h.queue.perm.symm.mem_iff
  have hbottom : (lv 0).Pairwise fun f g =>
      tsAfter c.vq.tsVirtual (c.flow f).nextTs ≤ tsAfter c.vq.tsVirtual (c.flow g).nextTs := by
    rw [h.bottom, pairwise_map]
    refine h.queue.sorted.imp_of_mem fun ha hb hab => ?_
    rw [h.ts _ ha, h.ts _ hb]
    exact hab
  refine ⟨h.lists.level, h.lists.level_nodup, h.lists.layered,
    fun l => hbottom.sublist (h.lists.sublist l), fun f hf => ?_, h.lists.mem_skiplist,
    fun f => ?_, fun e he => ?_⟩
  · rw [h.bottom] at hf
    obtain ⟨e, he, rfl⟩ := mem_map.1 hf
    rw [h.ts e he]
    exact h.window e he
  · rw [h.bottom, mem_map]
    exact exists_congr fun e => and_congr_left' (hmem e).symm
  · have he := (hmem e).1 he
    refine ⟨h.ts e he, ?_, h.levels e he⟩
    by_contra hge
    have htop := (h.levels e he qmanSkiplistLevels).2 (not_lt.1 hge)
    rw [h.lists.top] at htop
    exact not_mem_nil htop

/-- In every state of a run the skip list has its shape, a flow can be linked, and a poll returns
and takes the flows off in order. -/
theorem skiplist_order {c₀ : VmCtx} (hlt : D < 2 ^ 31) (h₀ : SkipStart c₀)
    (h : ReflTransGen (SkipStep D) c₀ c) :
    (∃ lv, SkipShape c lv) ∧
    (∀ f, IsFlow f → (c.flow f).inNolimitl = false → (c.flow f).inSkiplist = false →
      ∃ fuel c', flowQueueActivateSkiplist fuel c f = .ok c') ∧
    ∀ num s, s.toVmCtx = c → tsAfter c.vq.tsReal s.skpl.curTs ≤ D →
      (∃ fuel r, flowPollSkiplist fuel num s = .ok r) ∧
      ∀ fuel r, flowPollSkiplist fuel num s = .ok r → ∃ ops, r.2.trace = c.trace ++ ops ∧
        PollOrder c.vq.tsVirtual s.maxVts c.trace ops := by
  obtain ⟨nl, lv, qs, hqueue⟩ := skipQueue_of_reachable hlt h₀ h
  refine ⟨⟨lv, hqueue.shape⟩, fun f hf hnl hsk => ?_, ?_⟩
  · obtain ⟨c', hc', -⟩ := (flowQueueActivateSkiplist_spec hqueue.lists hf hnl hsk).returns
      (Nat.lt_succ_self _)
    exact ⟨_, c', hc'⟩
  · rintro num s rfl helapsed
    rw [← tsAfter_maxVts] at helapsed
    have hspec : ∀ fuel, Meets (flexnicNumQmflowqueues + num < fuel)
        (fun r => ∃ nl lv qs ops, PollState D s r.2 nl lv qs ops) (flowPollSkiplist fuel num s) :=
      fun _ => (flowPollSkiplist_order hqueue helapsed hlt).mono id fun _ h => h.1
    constructor
    · obtain ⟨r, hr, -⟩ := (hspec (flexnicNumQmflowqueues + num + 1)).returns (Nat.lt_succ_self _)
      exact ⟨_, r, hr⟩
    · intro fuel r hr
      obtain ⟨nl', lv', qs', ops, hstate⟩ := (hspec fuel).of_ok hr
      exact ⟨ops, hstate.trace, hstate.order⟩

/-- A VM whose virtual time is about to wrap. -/
def wrapCtx : VmCtx where
  vq := {
    id := 0
    nextIdx := 0
    fqman := flowcontInit true
    avail := 0
    inNolimitl := false
    tsReal := 0
    tsVirtual := 0xffffffc0 }
  rng := fun _ => 1
  trace := []

/-- A flow that may send one byte in each unit of time. -/
def unitFlow : FlowQueue := { nextTs := 0xfffffff0, rate := 8000000, avail := 200, maxChunk := 100 }

def wrapAssigned : VmCtx := wrapCtx.withFqman (wrapCtx.vq.fqman.modify 0 fun _ => unitFlow)

def wrapActivated : VmCtx :=
  match flowQueueActivateSkiplist 9 wrapAssigned 0 with
  | .ok c => c
  | .error _ => wrapAssigned

theorem wrapActivated_reachable : ReflTransGen (SkipStep 1000) wrapCtx wrapActivated := by
  have hassign : SkipStep 1000 wrapCtx wrapAssigned :=
    .assign 0 unitFlow (fun _ => by decide) ⟨rfl, rfl⟩ ⟨rfl, rfl⟩
  have hok : (flowQueueActivateSkiplist 9 wrapAssigned 0).isOk = true := by decide +kernel
  refine (ReflTransGen.single hassign).tail ?_
  unfold wrapActivated
  cases hact : flowQueueActivateSkiplist 9 wrapAssigned 0 with
  | ok c => exact .activate 9 0 (by decide) (by decide) hact
  | error e =>
    rw [hact] at hok
    exact absurd hok Bool.false_ne_true

/-- A poll 500 after the start, which crosses the wrap. -/
def wrapPoll : FlowPoll := { wrapActivated with skpl := ⟨500, false, 2⟩, out := [], bytesSum := 0 }

theorem wrapPoll_ordered :
    1000 < 2 ^ 31 ∧ SkipStart wrapCtx ∧
      ReflTransGen (SkipStep 1000) wrapCtx wrapActivated ∧
      (∃ lv, SkipShape wrapActivated lv) ∧ tsAfter wrapActivated.vq.tsReal 500 ≤ 1000 ∧
      ∃ fuel r ops, flowPollSkiplist fuel 2 wrapPoll = .ok r ∧
        r.2.trace = wrapActivated.trace ++ ops ∧
        PollOrder wrapActivated.vq.tsVirtual wrapPoll.maxVts wrapActivated.trace ops := by
  have hstart : SkipStart wrapCtx := ⟨⟨true, rfl⟩, rfl⟩
  have helapsed : tsAfter wrapActivated.vq.tsReal 500 ≤ 1000 := by decide +kernel
  obtain ⟨hshape, -, hpoll⟩ := skiplist_order (by decide) hstart wrapActivated_reachable
  obtain ⟨⟨fuel, r, hr⟩, horder⟩ := hpoll 2 wrapPoll rfl helapsed
  obtain ⟨ops, htrace, hops⟩ := horder fuel r hr
  exact ⟨by decide, hstart, wrapActivated_reachable, hshape, helapsed, fuel, r, ops, hr, htrace,
    hops⟩

end Tas
