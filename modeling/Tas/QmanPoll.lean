import Tas.QmanFlows

/-! Polling the flows of one VM: every entry that a poll returns was taken off its flow's bytes,
and a flow with bytes left is in one of the two lists. -/
namespace Tas

open Outcome Linked Layers Function List Word FlowQueue

variable {m : FlowQman} {nl nl' : List U32} {lv lv' : ℕ → List U32} {c c' : VmCtx}
  {s s' s'' : FlowPoll} {fuel num n cnt : ℕ} {idx f : U32} {new new' : List QmanEntry}

/-! ### Activating and firing -/

/-- The flow `idx` entered the list its rate asks for. -/
inductive Activated (c c' : VmCtx) (idx : U32) (nl : List U32) (lv : ℕ → List U32)
    (nl' : List U32) (lv' : ℕ → List U32) : Prop
  | nolimit (hrate : (c.flow idx).rate = 0) (hc' : c' = c.withFqman c'.vq.fqman)
      (hnl : nl' = nl ++ [idx]) (hlv : lv' = lv) (hlists : c'.vq.fqman.Lists nl' lv')
      (hchanged : FlowChanged c.vq.fqman c'.vq.fqman idx { c.flow idx with inNolimitl := true })
  | skiplist {A B : ℕ → List U32} (hrate : (c.flow idx).rate ≠ 0) (hnl : nl' = nl)
      (hlv : lv' = inserted (flowQueueLevel (c.rng 0)) idx lv A B)
      (hins : SkipInserted c c' idx nl lv A B)

theorem flowQueueActivate_spec (h : c.vq.fqman.Lists nl lv) (hflow : IsFlow idx)
    (hnl : (c.flow idx).inNolimitl = false) (hsk : (c.flow idx).inSkiplist = false) :
    Meets (flexnicNumQmflowqueues < fuel) (fun c' => ∃ nl' lv', Activated c c' idx nl lv nl' lv')
      (flowQueueActivate fuel c idx) := by
  unfold flowQueueActivate
  by_cases hrate : (c.flow idx).rate = 0
  · rw [if_pos hrate]
    obtain ⟨m', hm', hlists, hchanged⟩ := flowQueueActivateNolimit_spec h hflow hnl hsk
    rw [hm']
    exact meets_ok ⟨_, _, .nolimit hrate rfl rfl rfl hlists hchanged⟩
  · rw [if_neg hrate]
    refine (flowQueueActivateSkiplist_spec h hflow hnl hsk).mono id ?_
    rintro c' ⟨A, B, hins⟩
    exact ⟨_, _, .skiplist hrate rfl rfl hins⟩

section

variable (h : Activated c c' idx nl lv nl' lv')
include h

theorem Activated.lists : c'.vq.fqman.Lists nl' lv' := by
  cases h with
  | nolimit _ _ _ _ hlists _ => exact hlists
  | skiplist _ hnl hlv hins => rw [hnl, hlv]; exact hins.lists

theorem Activated.others (hf : f ≠ idx) : (c'.flow f).Same (c.flow f) := by
  cases h with
  | nolimit _ _ _ _ _ hchanged => exact same (hchanged.others f hf)
  | skiplist _ _ _ hins => exact same (hins.others f hf)

/-- The flow itself is flagged and otherwise changes its timestamp at most. -/
theorem Activated.self :
    (c'.flow idx).avail = (c.flow idx).avail ∧ (c'.flow idx).rate = (c.flow idx).rate ∧
      (c'.flow idx).maxChunk = (c.flow idx).maxChunk ∧
      ((c'.flow idx).inNolimitl ∨ (c'.flow idx).inSkiplist) := by
  cases h with
  | nolimit _ _ _ _ _ hchanged =>
    have hself := hchanged.self
    have havail := congrArg avail hself
    have hrate := congrArg rate hself
    have hchunk := congrArg maxChunk hself
    have hflag := congrArg inNolimitl hself
    exact ⟨havail, hrate, hchunk, Or.inl hflag⟩
  | skiplist _ _ _ hins =>
    have hself := hins.self
    have havail := congrArg avail hself
    have hrate := congrArg rate hself
    have hchunk := congrArg maxChunk hself
    have hflag := congrArg inSkiplist hself
    exact ⟨havail, hrate, hchunk, Or.inr hflag⟩

theorem Activated.outer :
    c'.vq = { c.vq with fqman := c'.vq.fqman } ∧
      c'.vq.fqman.nolimitFirst = c.vq.fqman.nolimitFirst := by
  cases h with
  | nolimit _ hc' _ _ _ hchanged =>
    refine ⟨?_, hchanged.first⟩
    conv_lhs => rw [hc']
    rfl
  | skiplist _ _ _ hins => exact ⟨hins.outer, hins.first⟩

omit h in
theorem inserted_zero {A B : ℕ → List U32} {level : ℕ} {le : U32 → Bool}
    (hcut : Cut le (lv 0) (A 0) (B 0)) :
    (inserted level idx lv A B 0).length = (lv 0).length + 1 ∧
      ∀ f, f ∈ inserted level idx lv A B 0 ↔ f = idx ∨ f ∈ lv 0 := by
  rw [inserted_of_le (Nat.zero_le _), hcut.eq]
  refine ⟨by simp; omega, fun f => ?_⟩
  simp only [mem_append, mem_cons]
  tauto

theorem Activated.lengths : nl'.length ≤ nl.length + 1 ∧ (lv' 0).length ≤ (lv 0).length + 1 := by
  cases h with
  | nolimit _ _ hnl hlv _ _ =>
    rw [hnl, hlv]
    simp
  | skiplist _ hnl hlv hins =>
    rw [hnl, hlv, (inserted_zero (hins.cut 0 (by decide))).1]
    simp

end

/-- Bytes of the entries of a flow. -/
def bytesOf (f : U32) (es : List QmanEntry) : ℕ :=
  ((es.filter fun e => e.qId = f).map fun e => e.bytes.toNat).sum

/-- Bytes of all entries. -/
def totalBytes (es : List QmanEntry) : ℕ := (es.map fun e => e.bytes.toNat).sum

theorem bytesOf_append (es es' : List QmanEntry) :
    bytesOf f (es ++ es') = bytesOf f es + bytesOf f es' := by
  simp [bytesOf]

theorem totalBytes_append (es es' : List QmanEntry) :
    totalBytes (es ++ es') = totalBytes es + totalBytes es' := by
  simp [totalBytes]

/-- No flow without bytes is in the skip list. -/
def FlowQman.NoStale (m : FlowQman) : Prop :=
  ∀ f, (m.queues f).inSkiplist → 0 < (m.queues f).avail

/-- Every flow with bytes is in a list. -/
def FlowQman.Covered (m : FlowQman) : Prop :=
  ∀ f, 0 < (m.queues f).avail → (m.queues f).inNolimitl ∨ (m.queues f).inSkiplist

/-- Part of a poll that returned the entries `new`. -/
structure Polled (s s' : FlowPoll) (new : List QmanEntry) : Prop where
  out : s'.out = s.out ++ new
  sum : s'.bytesSum = s.bytesSum + BitVec.ofNat 32 (totalBytes new)
  entry : ∀ e ∈ new, e.vmId = s.vq.id ∧ IsFlow e.qId ∧ e.bytes ≤ (s.flow e.qId).maxChunk
  spent : ∀ f, (s'.flow f).avail.toNat + bytesOf f new = (s.flow f).avail.toNat
  params : ∀ f, (s'.flow f).rate = (s.flow f).rate ∧ (s'.flow f).maxChunk = (s.flow f).maxChunk
  outer : s'.vq.id = s.vq.id ∧ s'.vq.nextIdx = s.vq.nextIdx ∧ s'.vq.avail = s.vq.avail ∧
    s'.vq.inNolimitl = s.vq.inNolimitl
  clock : s'.skpl.curTs = s.skpl.curTs ∧ s'.skpl.origNum = s.skpl.origNum
  fresh : s.vq.fqman.NoStale → s'.vq.fqman.NoStale

theorem Polled.trans (h : Polled s s' new) (h' : Polled s' s'' new') :
    Polled s s'' (new ++ new') := by
  constructor
  · rw [h'.out, h.out, append_assoc]
  · rw [h'.sum, h.sum, totalBytes_append, BitVec.ofNat_add, BitVec.add_assoc]
  · intro e he
    obtain he | he := mem_append.1 he
    · exact h.entry e he
    · obtain ⟨hvm, hflow, hchunk⟩ := h'.entry e he
      rw [h.outer.1] at hvm
      rw [(h.params e.qId).2] at hchunk
      exact ⟨hvm, hflow, hchunk⟩
  · intro f
    rw [bytesOf_append]
    have h₁ := h.spent f
    have h₂ := h'.spent f
    omega
  · intro f
    exact ⟨(h'.params f).1.trans (h.params f).1, (h'.params f).2.trans (h.params f).2⟩
  · obtain ⟨h₁, h₂, h₃, h₄⟩ := h.outer
    obtain ⟨h₁', h₂', h₃', h₄'⟩ := h'.outer
    exact ⟨h₁'.trans h₁, h₂'.trans h₂, h₃'.trans h₃, h₄'.trans h₄⟩
  · exact ⟨h'.clock.1.trans h.clock.1, h'.clock.2.trans h.clock.2⟩
  · exact fun hs => h'.fresh (h.fresh hs)

section

variable (hout : s'.out = s.out) (hsum : s'.bytesSum = s.bytesSum)
  (houter : s'.vq.id = s.vq.id ∧ s'.vq.nextIdx = s.vq.nextIdx ∧ s'.vq.avail = s.vq.avail ∧
    s'.vq.inNolimitl = s.vq.inNolimitl)
  (hclock : s'.skpl.curTs = s.skpl.curTs ∧ s'.skpl.origNum = s.skpl.origNum)
include hout hsum houter hclock

/-- A part of a poll that returns nothing. -/
theorem Polled.quiet (havail : ∀ f, (s'.flow f).avail = (s.flow f).avail)
    (hparams : ∀ f, (s'.flow f).rate = (s.flow f).rate ∧ (s'.flow f).maxChunk = (s.flow f).maxChunk)
    (hskip : ∀ f, (s'.flow f).inSkiplist → (s.flow f).inSkiplist) : Polled s s' [] := by
  refine ⟨by simpa using hout, by simpa [totalBytes] using hsum, by simp, fun f => ?_, hparams,
    houter, hclock, fun hs f hf => ?_⟩
  · rw [havail f]
    rfl
  · have hpos := hs f (hskip f hf)
    rw [← show (s'.flow f).avail = (s.vq.fqman.queues f).avail from havail f] at hpos
    exact hpos

/-- Nothing of the flows changes. -/
theorem Polled.frame (hflows : s'.vq.fqman.queues = s.vq.fqman.queues) : Polled s s' [] := by
  have hflow : ∀ f, s'.flow f = s.flow f := congrFun hflows
  refine Polled.quiet hout hsum houter hclock (fun f => ?_) (fun f => ?_) (fun f => ?_) <;>
    rw [hflow f]
  · exact ⟨rfl, rfl⟩
  · exact id

end

theorem Polled.refl (s : FlowPoll) : Polled s s [] :=
  Polled.frame rfl rfl ⟨rfl, rfl, rfl, rfl⟩ ⟨rfl, rfl⟩ rfl

theorem Polled.trans_quiet (h : Polled s s' new) (h' : Polled s' s'' []) : Polled s s'' new := by
  simpa using h.trans h'

/-- The state in which a firing flow is activated again. -/
def FlowPoll.charged (s : FlowPoll) (idx : U32) : VmCtx :=
  s.withFqman (s.vq.fqman.modify idx fun q => q.fired s.vq)

theorem charged_flow_self (s : FlowPoll) (idx : U32) :
    (s.charged idx).flow idx = (s.flow idx).fired s.vq :=
  queues_modify_self ..

theorem charged_flow_of_ne (s : FlowPoll) (h : f ≠ idx) : (s.charged idx).flow f = s.flow f :=
  queues_modify_of_ne h

/-- The flow fired: its bytes are charged, and it is in a list again if some are left. -/
structure Fired (s s' : FlowPoll) (idx : U32) (nl : List U32) (lv : ℕ → List U32)
    (nl' : List U32) (lv' : ℕ → List U32) : Prop where
  ctx : 0 < ((s.charged idx).flow idx).avail ∧
      Activated (s.charged idx) s'.toVmCtx idx nl lv nl' lv' ∨
    ((s.charged idx).flow idx).avail = 0 ∧ s'.toVmCtx = s.charged idx ∧ nl' = nl ∧ lv' = lv
  skpl : s'.skpl = s.skpl
  out : s'.out = s.out ++ [⟨s.vq.id, idx, (s.flow idx).chunk.setWidth 16⟩]
  sum : s'.bytesSum = s.bytesSum + (s.flow idx).chunk

theorem charged_lists (h : s.vq.fqman.Lists nl lv) : (s.charged idx).vq.fqman.Lists nl lv :=
  h.modify rfl rfl rfl

theorem flowQueueFire_spec (h : s.vq.fqman.Lists nl lv) (hflow : IsFlow idx)
    (hnl : (s.flow idx).inNolimitl = false) (hsk : (s.flow idx).inSkiplist = false)
    (havail : 0 < (s.flow idx).avail) :
    Meets (flexnicNumQmflowqueues < fuel) (fun s' => ∃ nl' lv', Fired s s' idx nl lv nl' lv')
      (flowQueueFire fuel s idx) := by
  have hself := charged_flow_self s idx
  have hleft : Meets (flexnicNumQmflowqueues < fuel) (fun c => ∃ nl' lv',
      0 < ((s.charged idx).flow idx).avail ∧ Activated (s.charged idx) c idx nl lv nl' lv' ∨
      ((s.charged idx).flow idx).avail = 0 ∧ c = s.charged idx ∧ nl' = nl ∧ lv' = lv)
      (activateLeft fuel (s.charged idx) idx) := by
    unfold activateLeft
    by_cases hleft : ((s.charged idx).flow idx).avail > 0
    · rw [if_pos hleft]
      refine (flowQueueActivate_spec (charged_lists h) hflow (by rw [hself]; exact hnl)
        (by rw [hself]; exact hsk)).mono id ?_
      rintro c ⟨nl', lv', hact⟩
      exact ⟨nl', lv', Or.inl ⟨hleft, hact⟩⟩
    · rw [if_neg hleft]
      exact meets_ok ⟨nl, lv, Or.inr ⟨eq_zero_of_not_pos hleft, rfl, rfl, rfl⟩⟩
  unfold flowQueueFire
  rw [if_neg (pos_iff_ne_zero.1 havail)]
  refine hleft.bind ?_
  rintro c ⟨nl', lv', hctx⟩
  exact meets_ok ⟨nl', lv', hctx, rfl, rfl, rfl⟩

section

variable (h : Fired s s' idx nl lv nl' lv')
include h

theorem Fired.lists (hl : s.vq.fqman.Lists nl lv) : s'.vq.fqman.Lists nl' lv' := by
  obtain ⟨-, hact⟩ | ⟨-, hctx, rfl, rfl⟩ := h.ctx
  · exact hact.lists
  · rw [hctx]
    exact charged_lists hl

theorem Fired.lengths : nl'.length ≤ nl.length + 1 ∧ (lv' 0).length ≤ (lv 0).length + 1 := by
  obtain ⟨-, hact⟩ | ⟨-, -, rfl, rfl⟩ := h.ctx
  · exact hact.lengths
  · exact ⟨Nat.le_succ _, Nat.le_succ _⟩

theorem Fired.others (hf : f ≠ idx) : (s'.flow f).Same (s.flow f) := by
  rw [← charged_flow_of_ne s hf]
  obtain ⟨-, hact⟩ | ⟨-, hctx, -, -⟩ := h.ctx
  · exact hact.others hf
  · rw [hctx]
    exact same rfl

/-- The fired flow itself. -/
theorem Fired.self :
    (s'.flow idx).avail = (s.flow idx).avail - (s.flow idx).chunk ∧
      (s'.flow idx).rate = (s.flow idx).rate ∧
      (s'.flow idx).maxChunk = (s.flow idx).maxChunk ∧
      (0 < (s'.flow idx).avail → (s'.flow idx).inNolimitl ∨ (s'.flow idx).inSkiplist) ∧
      ((s.flow idx).inSkiplist = false → (s'.flow idx).inSkiplist → 0 < (s'.flow idx).avail) := by
  have hself := charged_flow_self s idx
  obtain ⟨hleft, hact⟩ | ⟨hzero, hctx, -, -⟩ := h.ctx
  · obtain ⟨havail, hrate, hchunk, hflag⟩ := hact.self
    rw [← havail] at hleft
    rw [hself] at havail hrate hchunk
    exact ⟨havail, hrate, hchunk, fun _ => hflag, fun _ _ => hleft⟩
  · rw [hctx]
    refine ⟨?_, ?_, ?_, fun hpos => ?_, fun hsk hin => ?_⟩
    · rw [hself]; rfl
    · rw [hself]; rfl
    · rw [hself]; rfl
    · rw [hzero] at hpos
      cases hpos
    · rw [hself] at hin
      exact nomatch hsk.symm.trans hin

theorem Fired.outer :
    s'.vq = { s.vq with fqman := s'.vq.fqman } ∧
      s'.vq.fqman.nolimitFirst = s.vq.fqman.nolimitFirst := by
  obtain ⟨-, hact⟩ | ⟨-, hctx, -, -⟩ := h.ctx
  · exact hact.outer
  · rw [hctx]
    exact ⟨rfl, rfl⟩

omit h in
/-- A chunk is at most what is available and at most `max_chunk`. -/
theorem toNat_chunk (q : FlowQueue) :
    q.chunk.toNat ≤ q.avail.toNat ∧ q.chunk.toNat ≤ q.maxChunk.toNat ∧
      (q.chunk.setWidth 16).toNat = q.chunk.toNat := by
  have hmax : (q.maxChunk.setWidth 32).toNat = q.maxChunk.toNat := by
    rw [BitVec.toNat_setWidth]
    exact Nat.mod_eq_of_lt (by have := q.maxChunk.isLt; omega)
  have hle : q.chunk.toNat ≤ q.avail.toNat ∧ q.chunk.toNat ≤ q.maxChunk.toNat := by
    unfold chunk
    by_cases h : q.avail ≤ q.maxChunk.setWidth 32
    · rw [if_pos h]
      rw [BitVec.le_def, hmax] at h
      exact ⟨le_rfl, h⟩
    · rw [if_neg h, hmax]
      rw [BitVec.le_def, hmax] at h
      exact ⟨by omega, le_rfl⟩
  refine ⟨hle.1, hle.2, ?_⟩
  rw [BitVec.toNat_setWidth]
  exact Nat.mod_eq_of_lt (by have := q.maxChunk.isLt; omega)

theorem Fired.polled (hflow : IsFlow idx) (hsk : (s.flow idx).inSkiplist = false) :
    Polled s s' [⟨s.vq.id, idx, (s.flow idx).chunk.setWidth 16⟩] := by
  obtain ⟨havail, hrate, hchunk, -, hfresh⟩ := h.self
  obtain ⟨hle, hmax, hwidth⟩ := toNat_chunk (s.flow idx)
  have hvq := h.outer.1
  constructor
  · exact h.out
  · rw [h.sum]
    congr 1
    apply BitVec.eq_of_toNat_eq
    simp [totalBytes, hwidth]
  · intro e he
    rw [mem_singleton.1 he]
    refine ⟨rfl, hflow, ?_⟩
    rw [BitVec.le_def]
    change ((s.flow idx).chunk.setWidth 16).toNat ≤ _
    rw [hwidth]
    exact hmax
  · intro f
    by_cases hf : f = idx
    · subst hf
      rw [havail, toNat_sub_of_le hle]
      simp only [bytesOf, filter_cons, decide_true, if_true, filter_nil, map_cons,
        map_nil, sum_cons, sum_nil, Nat.add_zero, hwidth]
      omega
    · rw [(h.others hf).avail]
      simp [bytesOf, Ne.symm hf]
  · intro f
    by_cases hf : f = idx
    · subst hf
      exact ⟨hrate, hchunk⟩
    · exact ⟨(h.others hf).rate, (h.others hf).maxChunk⟩
  · rw [hvq]
    exact ⟨rfl, rfl, rfl, rfl⟩
  · rw [h.skpl]
    exact ⟨rfl, rfl⟩
  · intro hs f hin
    by_cases hf : f = idx
    · subst hf
      exact hfresh hsk hin
    · change 0 < (s'.flow f).avail
      rw [(h.others hf).avail]
      exact hs f ((h.others hf).inSkiplist.symm.trans hin)

/-- A flow with bytes is in a list. -/
def FlowQueue.Covered (q : FlowQueue) : Prop := 0 < q.avail → q.inNolimitl ∨ q.inSkiplist

omit h in
theorem FlowQueue.Same.covered {q q' : FlowQueue} (h : q.Same q') (hq : q'.Covered) :
    q.Covered := by
  unfold FlowQueue.Covered
  rw [h.avail, h.inNolimitl, h.inSkiplist]
  exact hq

/-- Firing covers the flow again. -/
theorem Fired.covered (hcov : ∀ f ≠ idx, (s.flow f).Covered) : s'.vq.fqman.Covered := by
  intro f
  by_cases hf : f = idx
  · subst hf
    exact h.self.2.2.2.1
  · exact (h.others hf).covered (hcov f hf)

end

/-! ### The loops -/

section Rules

variable {live : Prop} {I : ℕ → ℕ → FlowPoll → Prop} {Q : ℕ × FlowPoll → Prop} {maxVts : U32}

/-- What each round keeps holds at the end, when enough entries are found or the list is empty. -/
theorem flowPollNolimit_rule (hzero : ∀ cnt s, I 0 cnt s → ¬ live)
    (hdrop : ∀ n cnt s, I (n + 1) cnt s → cnt < num → s.vq.fqman.nolimitHeadIdx ≠ idxlistInval →
      (s.nolimitPopped.flow s.vq.fqman.nolimitHeadIdx).avail = 0 → I n cnt s.nolimitPopped)
    (hfire : ∀ n cnt s, I (n + 1) cnt s → cnt < num → s.vq.fqman.nolimitHeadIdx ≠ idxlistInval →
      0 < (s.nolimitPopped.flow s.vq.fqman.nolimitHeadIdx).avail →
      Meets live (I n (cnt + 1))
        (flowQueueFire fuel s.nolimitPopped s.vq.fqman.nolimitHeadIdx)) (h : I n cnt s) :
    Meets live (fun r => (∃ k, I k r.1 r.2) ∧
        ¬ (r.1 < num ∧ r.2.vq.fqman.nolimitHeadIdx ≠ idxlistInval))
      (flowPollNolimit fuel num n cnt s) := by
  induction n generalizing cnt s with
  | zero => exact hzero cnt s h
  | succ n ih =>
    unfold flowPollNolimit
    by_cases hgo : cnt < num ∧ s.vq.fqman.nolimitHeadIdx ≠ idxlistInval
    · rw [if_pos hgo]
      by_cases hpos : 0 < (s.nolimitPopped.flow s.vq.fqman.nolimitHeadIdx).avail
      · rw [if_pos hpos]
        exact (hfire n cnt s h hgo.1 hgo.2 hpos).bind fun s' hs' => ih hs'
      · rw [if_neg hpos]
        exact ih (hdrop n cnt s h hgo.1 hgo.2 (eq_zero_of_not_pos hpos))
    · rw [if_neg hgo]
      exact meets_ok ⟨⟨_, h⟩, hgo⟩

/-- What each round keeps gives the result at each of the three ends. -/
theorem skiplistLoop_rule (hzero : ∀ cnt s, I 0 cnt s → ¬ live)
    (hfull : ∀ n cnt s, I n cnt s → ¬ cnt < num → Q (cnt, s))
    (hempty : ∀ n cnt s, I n cnt s → cnt < num → s.vq.fqman.headIdx 0 = idxlistInval →
      Q (cnt, s.advance maxVts))
    (hbeyond : ∀ n cnt s, I n cnt s → cnt < num → s.vq.fqman.headIdx 0 ≠ idxlistInval →
      timestampLessthaneq s.vq (s.flow (s.vq.fqman.headIdx 0)).nextTs maxVts = false →
      Q (cnt, { s.advance maxVts with skpl := { s.skpl with rateLimited := true } }))
    (hflag : ∀ n cnt s, I n cnt s → s.vq.fqman.headIdx 0 ≠ idxlistInval →
      (s.flow (s.vq.fqman.headIdx 0)).inSkiplist)
    (hdrop : ∀ n cnt s, I (n + 1) cnt s → cnt < num → s.vq.fqman.headIdx 0 ≠ idxlistInval →
      timestampLessthaneq s.vq (s.flow (s.vq.fqman.headIdx 0)).nextTs maxVts →
      (s.skipPopped.flow (s.vq.fqman.headIdx 0)).avail = 0 → I n cnt s.skipPopped)
    (hfire : ∀ n cnt s, I (n + 1) cnt s → cnt < num → s.vq.fqman.headIdx 0 ≠ idxlistInval →
      timestampLessthaneq s.vq (s.flow (s.vq.fqman.headIdx 0)).nextTs maxVts →
      0 < (s.skipPopped.flow (s.vq.fqman.headIdx 0)).avail →
      Meets live (I n (cnt + 1)) (flowQueueFire fuel s.skipPopped (s.vq.fqman.headIdx 0)))
    (h : I n cnt s) : Meets live Q (skiplistLoop fuel num maxVts n cnt s) := by
  induction n generalizing cnt s with
  | zero => exact hzero cnt s h
  | succ n ih =>
    unfold skiplistLoop
    by_cases hcnt : cnt < num
    · rw [if_pos hcnt]
      by_cases hhead : s.vq.fqman.headIdx 0 = idxlistInval
      · rw [if_pos hhead]
        exact meets_ok (hempty _ cnt s h hcnt hhead)
      · rw [if_neg hhead]
        by_cases hle : timestampLessthaneq s.vq (s.flow (s.vq.fqman.headIdx 0)).nextTs maxVts
        · rw [if_neg (not_not.2 hle), if_neg (not_not.2 (hflag _ cnt s h hhead))]
          by_cases hpos : 0 < (s.skipPopped.flow (s.vq.fqman.headIdx 0)).avail
          · rw [if_pos hpos]
            exact (hfire n cnt s h hcnt hhead hle hpos).bind fun s' hs' => ih hs'
          · rw [if_neg hpos]
            exact ih (hdrop n cnt s h hcnt hhead hle (eq_zero_of_not_pos hpos))
        · rw [if_pos hle]
          exact meets_ok (hbeyond _ cnt s h hcnt hhead (by simpa using hle))
    · rw [if_neg hcnt]
      exact meets_ok (hfull _ cnt s h hcnt)

end Rules

/-! ### The lists of flows during a poll -/

/-- The lists are well formed, and every flow with bytes is in one of them. -/
structure FlowQman.Ok (m : FlowQman) : Prop where
  lists : ∃ nl lv, m.Lists nl lv
  covered : m.Covered

/-- A flow was taken off its list: the state in which it may fire. -/
structure TakenOff (s s' : FlowPoll) (idx : U32) : Prop where
  flow : IsFlow idx
  nolimit : (s'.flow idx).inNolimitl = false
  skiplist : (s'.flow idx).inSkiplist = false
  others : ∀ f ≠ idx, (s'.flow f).Same (s.flow f)
  polled : Polled s s' []

theorem TakenOff.of_changed {q : FlowQueue} (hflow : IsFlow idx)
    (hc : FlowChanged s.vq.fqman s'.vq.fqman idx q) (hnl : q.inNolimitl = false)
    (hsk : q.inSkiplist = false) (hq : q.SameParams (s.flow idx))
    (hout : s'.out = s.out) (hsum : s'.bytesSum = s.bytesSum)
    (houter : s'.vq.id = s.vq.id ∧ s'.vq.nextIdx = s.vq.nextIdx ∧ s'.vq.avail = s.vq.avail ∧
      s'.vq.inNolimitl = s.vq.inNolimitl) (hskpl : s'.skpl = s.skpl) : TakenOff s s' idx := by
  have hself : (s'.flow idx).Same q := same hc.self
  have hsk' : (s'.flow idx).inSkiplist = false := hself.inSkiplist.trans hsk
  have hparams : ∀ f, (s'.flow f).SameParams (s.flow f) := hc.params hq
  refine ⟨hflow, hself.inNolimitl.trans hnl, hsk', fun f hf => same (hc.others f hf), ?_⟩
  refine Polled.quiet hout hsum houter (by rw [hskpl]; exact ⟨rfl, rfl⟩)
    (fun f => (hparams f).avail) (fun f => ⟨(hparams f).rate, (hparams f).maxChunk⟩) fun f hin => ?_
  by_cases hf : f = idx
  · rw [hf, hsk'] at hin
    cases hin
  · exact (same (hc.others f hf)).inSkiplist.symm.trans hin

theorem nolimitPopped_spec (h : s.vq.fqman.Lists nl lv)
    (hne : s.vq.fqman.nolimitHeadIdx ≠ idxlistInval) :
    ∃ rest, nl = s.vq.fqman.nolimitHeadIdx :: rest ∧ s.nolimitPopped.vq.fqman.Lists rest lv ∧
      TakenOff s s.nolimitPopped s.vq.fqman.nolimitHeadIdx := by
  obtain ⟨rest, hnl, hlists, hchanged⟩ := nolimitPop_spec h hne
  have hflag := (h.mem_nolimit s.vq.fqman.nolimitHeadIdx).1 (by rw [hnl]; simp)
  have hsk : (s.vq.fqman.queues s.vq.fqman.nolimitHeadIdx).inSkiplist = false := by
    have hapart := h.apart s.vq.fqman.nolimitHeadIdx
    simpa [hflag] using hapart
  exact ⟨rest, hnl, hlists, TakenOff.of_changed (h.flows _ (Or.inl hflag)) hchanged rfl hsk
    ⟨rfl, rfl, rfl, rfl⟩ rfl rfl ⟨rfl, rfl, rfl, rfl⟩ rfl⟩

theorem skipPopped_spec (h : s.vq.fqman.Lists nl lv) (hne : s.vq.fqman.headIdx 0 ≠ idxlistInval) :
    (s.flow (s.vq.fqman.headIdx 0)).inSkiplist ∧
      (∃ rest, lv 0 = s.vq.fqman.headIdx 0 :: rest) ∧
      s.skipPopped.vq.fqman.Lists nl (fun l => (lv l).erase (s.vq.fqman.headIdx 0)) ∧
      TakenOff s s.skipPopped (s.vq.fqman.headIdx 0) := by
  obtain ⟨rest, hrest, -⟩ := (h.level 0 (by decide)).exists_cons hne
  obtain ⟨hlists, hchanged⟩ := skipPop_spec (s := s.toVmCtx) h rfl hne
  have hflag := (h.mem_skiplist (s.vq.fqman.headIdx 0)).1 (by rw [hrest]; simp)
  have hnl : (s.vq.fqman.queues (s.vq.fqman.headIdx 0)).inNolimitl = false := by
    have hapart := h.apart (s.vq.fqman.headIdx 0)
    simpa [hflag] using hapart
  exact ⟨hflag, ⟨rest, hrest⟩, hlists, TakenOff.of_changed (h.flows _ (Or.inr hflag)) hchanged hnl
    rfl ⟨rfl, rfl, rfl, rfl⟩ rfl rfl ⟨rfl, rfl, rfl, rfl⟩ rfl⟩

theorem nolimitPopped_inSkiplist :
    ∀ f, (s.nolimitPopped.flow f).inSkiplist = (s.flow f).inSkiplist :=
  (forall_update_iff s.vq.fqman.queues fun f q => q.inSkiplist = (s.flow f).inSkiplist).2
    ⟨rfl, fun _ _ => rfl⟩

theorem skipPopped_inNolimitl : ∀ f, (s.skipPopped.flow f).inNolimitl = (s.flow f).inNolimitl :=
  (forall_update_iff s.vq.fqman.queues fun f q => q.inNolimitl = (s.flow f).inNolimitl).2
    ⟨rfl, fun _ _ => rfl⟩

/-- The other flows are covered as before. -/
theorem TakenOff.covered (h : TakenOff s s' idx) (hcov : s.vq.fqman.Covered) :
    ∀ f ≠ idx, (s'.flow f).Covered := fun f hf => (h.others f hf).covered (hcov f)

/-- A flow without bytes may stay off. -/
theorem TakenOff.covered_of_empty (h : TakenOff s s' idx) (hcov : s.vq.fqman.Covered)
    (hzero : (s'.flow idx).avail = 0) : s'.vq.fqman.Covered := by
  intro f hpos
  by_cases hf : f = idx
  · have hpos : 0 < (s'.flow f).avail := hpos
    rw [hf, hzero] at hpos
    cases hpos
  · exact h.covered hcov f hf hpos

/-- A poll of a list of flows for `num` entries: it returned `new`. -/
structure FlowsPolled (num : ℕ) (s : FlowPoll) (r : ℕ × FlowPoll) (new : List QmanEntry) :
    Prop where
  ok : r.2.vq.fqman.Ok
  polled : Polled s r.2 new
  cnt : r.1 = new.length
  le : r.1 ≤ num

/-- What each round of `flow_poll_nolimit` keeps. -/
structure NolimitInv (fuel num : ℕ) (live : Prop) (s₀ : FlowPoll) (n cnt : ℕ) (s : FlowPoll)
    (nl : List U32) (lv : ℕ → List U32) (new : List QmanEntry) : Prop where
  lists : s.vq.fqman.Lists nl lv
  covered : s.vq.fqman.Covered
  polled : Polled s₀ s new
  count : cnt = new.length
  le : cnt ≤ num
  skpl : s.skpl = s₀.skpl
  grows : ∀ f, (s₀.flow f).inSkiplist → (s.flow f).inSkiplist
  idle : new = [] → ∀ f, (s.flow f).inSkiplist → (s₀.flow f).inSkiplist
  work : live → flexnicNumQmflowqueues < fuel ∧ nl.length + (num - cnt) < n

theorem flowPollNolimit_spec (h : s.vq.fqman.Ok) :
    Meets (flexnicNumQmflowqueues + num < fuel)
      (fun r => ∃ new, FlowsPolled num s r new ∧ r.2.skpl = s.skpl ∧
        (∀ f, (s.flow f).inSkiplist → (r.2.flow f).inSkiplist) ∧
        (new = [] → ∀ f, (r.2.flow f).inSkiplist → (s.flow f).inSkiplist) ∧
        (r.1 < num → ∀ f, (r.2.flow f).inNolimitl = false))
      (flowPollNolimit fuel num fuel 0 s) := by
  obtain ⟨nl, lv, hlists⟩ := h.lists
  have hstart : ∃ nl lv new, NolimitInv fuel num (flexnicNumQmflowqueues + num < fuel) s fuel 0 s
      nl lv new := by
    refine ⟨nl, lv, [], hlists, h.covered, Polled.refl s, rfl, Nat.zero_le _, rfl, fun _ => id,
      fun _ _ => id, fun hlive => ⟨by omega, ?_⟩⟩
    have := hlists.nolimit_length
    omega
  refine (flowPollNolimit_rule (I := fun n cnt s' => ∃ nl lv new,
    NolimitInv fuel num (flexnicNumQmflowqueues + num < fuel) s n cnt s' nl lv new)
    ?_ ?_ ?_ hstart).mono id ?_
  · rintro cnt s' ⟨nl, lv, new, hinv⟩ hlive
    exact absurd (hinv.work hlive).2 (Nat.not_lt_zero _)
  · rintro n cnt s' ⟨nl, lv, new, hinv⟩ hcnt hne hzero
    obtain ⟨rest, rfl, hlists, htaken⟩ := nolimitPopped_spec hinv.lists hne
    refine ⟨rest, lv, new, hlists, htaken.covered_of_empty hinv.covered hzero, ?_, hinv.count,
      hinv.le, hinv.skpl, fun f hf => ?_, fun hnew f hf => ?_, fun hlive => ?_⟩
    · exact hinv.polled.trans_quiet htaken.polled
    · rw [nolimitPopped_inSkiplist]
      exact hinv.grows f hf
    · rw [nolimitPopped_inSkiplist] at hf
      exact hinv.idle hnew f hf
    · have := hinv.work hlive
      simp only [length_cons] at this
      exact ⟨this.1, by omega⟩
  · rintro n cnt s' ⟨nl, lv, new, hinv⟩ hcnt hne hpos
    obtain ⟨rest, rfl, hlists, htaken⟩ := nolimitPopped_spec hinv.lists hne
    refine (flowQueueFire_spec hlists htaken.flow htaken.nolimit htaken.skiplist hpos).mono
      (fun hlive => (hinv.work hlive).1) ?_
    rintro s'' ⟨nl', lv', hfired⟩
    have hpolled := (hinv.polled.trans htaken.polled).trans
      (hfired.polled htaken.flow htaken.skiplist)
    refine ⟨nl', lv', _, hfired.lists hlists, hfired.covered (htaken.covered hinv.covered),
      hpolled, ?_, by omega, ?_, ?_, by simp, fun hlive => ?_⟩
    · simp [hinv.count]
    · rw [hfired.skpl]
      exact hinv.skpl
    · intro f hf
      have hin := hinv.grows f hf
      by_cases hidx : f = s'.vq.fqman.nolimitHeadIdx
      · subst hidx
        rw [← nolimitPopped_inSkiplist, htaken.skiplist] at hin
        cases hin
      · rw [(hfired.others hidx).inSkiplist, (htaken.others f hidx).inSkiplist]
        exact hin
    · have hwork := hinv.work hlive
      have hlen := hfired.lengths.1
      simp only [length_cons] at hwork
      exact ⟨hwork.1, by omega⟩
  · rintro ⟨cnt, s'⟩ ⟨⟨k, nl, lv, new, hinv⟩, hstop⟩
    refine ⟨new, ⟨⟨⟨nl, lv, hinv.lists⟩, hinv.covered⟩, hinv.polled, hinv.count, hinv.le⟩,
      hinv.skpl, hinv.grows, hinv.idle, fun hlt f => ?_⟩
    have hhead : s'.vq.fqman.nolimitHeadIdx = idxlistInval := by
      by_contra hne
      exact hstop ⟨hlt, hne⟩
    have hnil : nl = [] := hinv.lists.nolimit.path.eq_nil_iff.1 hhead
    have hmem := hinv.lists.mem_nolimit f
    rw [hnil] at hmem
    exact Bool.eq_false_iff.2 fun hin => not_mem_nil (hmem.2 hin)

/-- What each round of `flow_poll_skiplist` keeps. -/
structure SkiplistInv (fuel num : ℕ) (live : Prop) (s₀ : FlowPoll) (n cnt : ℕ) (s : FlowPoll)
    (nl : List U32) (lv : ℕ → List U32) (new : List QmanEntry) : Prop where
  lists : s.vq.fqman.Lists nl lv
  covered : s.vq.fqman.Covered
  polled : Polled s₀ s new
  count : cnt = new.length
  le : cnt ≤ num
  skpl : s.skpl = s₀.skpl
  idle : new = [] → ∀ f, (s.flow f).inNolimitl → (s₀.flow f).inNolimitl
  work : live → flexnicNumQmflowqueues < fuel ∧ (lv 0).length + (num - cnt) < n

/-- Result of a poll of the skip list. -/
structure SkiplistDone (num : ℕ) (s : FlowPoll) (r : ℕ × FlowPoll) (new : List QmanEntry) :
    Prop extends FlowsPolled num s r new where
  idle : new = [] → ∀ f, (r.2.flow f).inNolimitl → (s.flow f).inNolimitl
  limited : r.2.skpl.rateLimited → s.skpl.rateLimited ∨ ∃ f, (r.2.flow f).inSkiplist
  drained : r.1 < num → ¬ r.2.skpl.rateLimited → ∀ f, (r.2.flow f).inSkiplist = false

theorem skiplistLoop_spec (h : s.vq.fqman.Ok) (maxVts : U32) :
    Meets (flexnicNumQmflowqueues + num < fuel) (fun r => ∃ new, SkiplistDone num s r new)
      (skiplistLoop fuel num maxVts fuel 0 s) := by
  obtain ⟨nl, lv, hlists⟩ := h.lists
  have hstart : ∃ nl lv new, SkiplistInv fuel num (flexnicNumQmflowqueues + num < fuel) s fuel 0 s
      nl lv new := by
    refine ⟨nl, lv, [], hlists, h.covered, Polled.refl s, rfl, Nat.zero_le _, rfl,
      fun _ _ => id, fun hlive => ⟨by omega, ?_⟩⟩
    have := hlists.level_length 0
    omega
  refine skiplistLoop_rule (I := fun n cnt s' => ∃ nl lv new,
    SkiplistInv fuel num (flexnicNumQmflowqueues + num < fuel) s n cnt s' nl lv new)
    ?_ ?_ ?_ ?_ ?_ ?_ ?_ hstart
  · rintro cnt s' ⟨nl, lv, new, hinv⟩ hlive
    exact absurd (hinv.work hlive).2 (Nat.not_lt_zero _)
  · rintro n cnt s' ⟨nl, lv, new, hinv⟩ hcnt
    refine ⟨new, ⟨⟨⟨⟨nl, lv, hinv.lists⟩, hinv.covered⟩, hinv.polled, hinv.count, hinv.le⟩,
      hinv.idle, fun hl => ?_, fun hlt => absurd hlt hcnt⟩⟩
    rw [hinv.skpl] at hl
    exact Or.inl hl
  · rintro n cnt s' ⟨nl, lv, new, hinv⟩ hcnt hhead
    have hadv : Polled s' (s'.advance maxVts) [] :=
      Polled.frame rfl rfl ⟨rfl, rfl, rfl, rfl⟩ ⟨rfl, rfl⟩ rfl
    have hnil : lv 0 = [] := (hinv.lists.level 0 (by decide)).eq_nil_iff.1 hhead
    refine ⟨new, ⟨⟨⟨⟨nl, lv, hinv.lists⟩, hinv.covered⟩, ?_, hinv.count, hinv.le⟩,
      hinv.idle, fun hl => ?_, fun _ _ f => ?_⟩⟩
    · exact hinv.polled.trans_quiet hadv
    · have hl : s'.skpl.rateLimited := hl
      rw [hinv.skpl] at hl
      exact Or.inl hl
    · have hmem := hinv.lists.mem_skiplist f
      rw [hnil] at hmem
      exact Bool.eq_false_iff.2 fun hin => not_mem_nil (hmem.2 hin)
  · rintro n cnt s' ⟨nl, lv, new, hinv⟩ hcnt hhead -
    have hadv : Polled s' { s'.advance maxVts with skpl := { s'.skpl with rateLimited := true } }
        [] :=
      Polled.frame rfl rfl ⟨rfl, rfl, rfl, rfl⟩ ⟨rfl, rfl⟩ rfl
    have hflag := (skipPopped_spec hinv.lists hhead).1
    refine ⟨new, ⟨⟨⟨⟨nl, lv, hinv.lists⟩, hinv.covered⟩, ?_, hinv.count, hinv.le⟩,
      hinv.idle, fun _ => Or.inr ⟨_, hflag⟩, fun _ hno => absurd rfl hno⟩⟩
    exact hinv.polled.trans_quiet hadv
  · rintro n cnt s' ⟨nl, lv, new, hinv⟩ hhead
    exact (skipPopped_spec hinv.lists hhead).1
  · rintro n cnt s' ⟨nl, lv, new, hinv⟩ hcnt hhead - hzero
    obtain ⟨-, ⟨rest, hrest⟩, hlists, htaken⟩ := skipPopped_spec hinv.lists hhead
    refine ⟨nl, _, new, hlists, htaken.covered_of_empty hinv.covered hzero, ?_, hinv.count,
      hinv.le, hinv.skpl, fun hnew f hf => ?_, fun hlive => ?_⟩
    · exact hinv.polled.trans_quiet htaken.polled
    · rw [skipPopped_inNolimitl] at hf
      exact hinv.idle hnew f hf
    · have hwork := hinv.work hlive
      rw [hrest, length_cons] at hwork
      rw [hrest, erase_cons_head]
      exact ⟨hwork.1, by omega⟩
  · rintro n cnt s' ⟨nl, lv, new, hinv⟩ hcnt hhead - hpos
    obtain ⟨-, ⟨rest, hrest⟩, hlists, htaken⟩ := skipPopped_spec hinv.lists hhead
    refine (flowQueueFire_spec hlists htaken.flow htaken.nolimit htaken.skiplist hpos).mono
      (fun hlive => (hinv.work hlive).1) ?_
    rintro s'' ⟨nl', lv', hfired⟩
    have hpolled := (hinv.polled.trans htaken.polled).trans
      (hfired.polled htaken.flow htaken.skiplist)
    refine ⟨nl', lv', _, hfired.lists hlists, hfired.covered (htaken.covered hinv.covered),
      hpolled, ?_, by omega, ?_, by simp, fun hlive => ?_⟩
    · simp [hinv.count]
    · rw [hfired.skpl]
      exact hinv.skpl
    · have hwork := hinv.work hlive
      have hlen := hfired.lengths.2
      rw [hrest, length_cons] at hwork
      rw [hrest, erase_cons_head] at hlen
      exact ⟨hwork.1, by omega⟩

/-- Setting the timestamps does not concern the flows. -/
theorem SkiplistDone.timestamps {new : List QmanEntry} {r : ℕ × FlowPoll} {tsReal tsVirtual : U32}
    (h : SkiplistDone num s r new) :
    SkiplistDone num s (r.1, { r.2 with vq := { r.2.vq with
      tsReal := tsReal
      tsVirtual := tsVirtual } }) new := by
  have hquiet : Polled r.2 { r.2 with vq := { r.2.vq with
      tsReal := tsReal
      tsVirtual := tsVirtual } } [] :=
    Polled.frame rfl rfl ⟨rfl, rfl, rfl, rfl⟩ ⟨rfl, rfl⟩ rfl
  exact { h with polled := h.polled.trans_quiet hquiet }

theorem flowPollSkiplist_spec (h : s.vq.fqman.Ok) :
    Meets (flexnicNumQmflowqueues + num < fuel) (fun r => ∃ new, SkiplistDone num s r new)
      (flowPollSkiplist fuel num s) := by
  unfold flowPollSkiplist
  refine (skiplistLoop_spec h s.maxVts).bind ?_
  rintro ⟨cnt, s'⟩ ⟨new, hdone⟩
  refine meets_ok ⟨new, ?_⟩
  by_cases hcnt : cnt = s'.skpl.origNum
  · simp only [if_pos hcnt]
    exact hdone.timestamps
  · simp only [if_neg hcnt]
    exact hdone.timestamps

/-- Result of a poll of a VM's flows. -/
structure VmPolled (num : ℕ) (s : FlowPoll) (r : ℕ × FlowPoll) (new : List QmanEntry) : Prop
    extends FlowsPolled num s r new where
  limited : s.skpl.rateLimited = false → s.vq.fqman.NoStale → r.2.skpl.rateLimited →
    ∃ f, 0 < (r.2.flow f).avail
  idle : 0 < num → new = [] → r.2.skpl.rateLimited = false → ∀ f, (r.2.flow f).avail = 0

theorem FlowQman.Ok.no_bytes (h : m.Ok) (hnl : ∀ f, (m.queues f).inNolimitl = false)
    (hsk : ∀ f, (m.queues f).inSkiplist = false) (f : U32) : (m.queues f).avail = 0 := by
  by_contra hne
  obtain hflag | hflag := h.covered f (pos_iff_ne_zero.2 hne)
  · exact nomatch (hnl f).symm.trans hflag
  · exact nomatch (hsk f).symm.trans hflag

theorem FlowsPolled.alternate {r : ℕ × FlowPoll} (h : FlowsPolled num s r new) :
    FlowsPolled num s (r.1, r.2.alternate) new := by
  obtain ⟨nl, lv, hlists⟩ := h.ok.lists
  have hquiet : Polled r.2 r.2.alternate [] :=
    Polled.frame rfl rfl ⟨rfl, rfl, rfl, rfl⟩ ⟨rfl, rfl⟩ rfl
  exact ⟨⟨⟨nl, lv, hlists.congr hlists.nolimit hlists.level fun _ => ⟨rfl, rfl⟩⟩, h.ok.covered⟩,
    h.polled.trans_quiet hquiet, h.cnt, h.le⟩

theorem FlowsPolled.trans {x y : ℕ} (h : FlowsPolled num s (x, s') new)
    (h' : FlowsPolled (num - x) s' (y, s'') new') :
    FlowsPolled num s (x + y, s'') (new ++ new') := by
  have hx := h.le
  have hy := h'.le
  have hcnt := h.cnt
  have hcnt' := h'.cnt
  dsimp only at hx hy hcnt hcnt'
  refine ⟨h'.ok, h.polled.trans h'.polled, ?_, ?_⟩
  · simp [hcnt, hcnt']
  · change x + y ≤ num
    omega

theorem flowQmanPoll_spec (h : s.vq.fqman.Ok) :
    Meets (flexnicNumQmflowqueues + num < fuel) (fun r => ∃ new, VmPolled num s r new)
      (flowQmanPoll fuel num s) := by
  unfold flowQmanPoll
  by_cases hfirst : s.vq.fqman.nolimitFirst
  · rw [if_pos hfirst]
    refine (flowPollNolimit_spec h).bind ?_
    rintro ⟨x, s₁⟩ ⟨new₁, hdone₁, hskpl, hgrows, hidle₁, hdrained₁⟩
    refine Meets.bind ((flowPollSkiplist_spec hdone₁.ok).mono (by omega) fun _ => id) ?_
    rintro ⟨y, s₂⟩ ⟨new₂, hdone₂⟩
    refine meets_ok ⟨new₁ ++ new₂, (hdone₁.trans hdone₂.toFlowsPolled).alternate, ?_, ?_⟩
    · intro hlim hfresh hlim'
      obtain hlim₁ | ⟨f, hf⟩ := hdone₂.limited hlim'
      · rw [show s₁.skpl = s.skpl from hskpl, hlim] at hlim₁
        cases hlim₁
      · exact ⟨f, (hdone₁.polled.trans hdone₂.polled).fresh hfresh f hf⟩
    · intro hnum hnew hlim
      obtain ⟨rfl, rfl⟩ := append_eq_nil_iff.1 hnew
      have hx : x = 0 := hdone₁.cnt
      have hy : y = 0 := hdone₂.cnt
      have hnolimit := hdrained₁ (show x < num by omega)
      refine hdone₂.ok.no_bytes ?_ ?_
      · intro f
        refine Bool.eq_false_iff.2 fun hin => ?_
        exact nomatch (hnolimit f).symm.trans (hdone₂.idle rfl f hin)
      · exact hdone₂.drained (show y < num - x by omega) (Bool.eq_false_iff.1 hlim)
  · rw [if_neg hfirst]
    refine (flowPollSkiplist_spec h).bind ?_
    rintro ⟨x, s₁⟩ ⟨new₁, hdone₁⟩
    refine Meets.bind ((flowPollNolimit_spec hdone₁.ok).mono (by omega) fun _ => id) ?_
    rintro ⟨y, s₂⟩ ⟨new₂, hdone₂, hskpl, hgrows, hidle₂, hdrained₂⟩
    refine meets_ok ⟨new₁ ++ new₂, (hdone₁.toFlowsPolled.trans hdone₂).alternate, ?_, ?_⟩
    · intro hlim hfresh hlim'
      have hlim₁ : s₁.skpl.rateLimited := by
        rw [← show s₂.skpl = s₁.skpl from hskpl]
        exact hlim'
      obtain hlim₀ | ⟨f, hf⟩ := hdone₁.limited hlim₁
      · exact nomatch hlim.symm.trans hlim₀
      · exact ⟨f, (hdone₁.polled.trans hdone₂.polled).fresh hfresh f (hgrows f hf)⟩
    · intro hnum hnew hlim
      obtain ⟨rfl, rfl⟩ := append_eq_nil_iff.1 hnew
      have hx : x = 0 := hdone₁.cnt
      have hy : y = 0 := hdone₂.cnt
      have hlim₁ : s₁.skpl.rateLimited = false := by
        rw [← show s₂.skpl = s₁.skpl from hskpl]
        exact hlim
      have hdrained := hdone₁.drained (show x < num by omega) (Bool.eq_false_iff.1 hlim₁)
      refine hdone₂.ok.no_bytes ?_ ?_
      · exact hdrained₂ (show y < num - x by omega)
      · intro f
        refine Bool.eq_false_iff.2 fun hin => ?_
        exact nomatch (hdrained f).symm.trans (hidle₂ rfl f hin)

end Tas
