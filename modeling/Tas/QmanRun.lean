import Tas.QmanVms

/-! Runs of the queue manager: sequences of `tas_qman_set` and `tas_qman_poll`. -/
namespace Tas

open Outcome Linked Function Relation Word Finset

variable {m m' : VmQman} {vl : List U32} {v w f g : U32} {a : FlowParams} {c c' : VmCtx}
  {fuel num : ℕ} {t₀ t t' : QmanThread} {env : PollEnv} {s : FlowPoll} {budgets : U32 → ℤ}

/-! ### Setting a flow's parameters -/

/-- The lists of VMs and of flows are well formed and miss nothing. -/
structure VmQman.Ok (m : VmQman) : Prop where
  lists : ∃ vl, m.Lists vl
  flows : ∀ v, (m.queues v).fqman.Ok
  covered : ∀ v, 0 < (m.queues v).avail → (m.queues v).inNolimitl

/-- A flow has the parameters of the call, and the others kept theirs. -/
structure FlowWritten (m m' : FlowQman) (f : U32) (a : FlowParams) : Prop where
  self : (m'.queues f).avail = ((m.queues f).apply a).avail ∧
    (m'.queues f).maxChunk = ((m.queues f).apply a).maxChunk
  others : ∀ g ≠ f, (m'.queues g).avail = (m.queues g).avail ∧
    (m'.queues g).maxChunk = (m.queues g).maxChunk

theorem flags_of_not_newAvail (h : a.newAvail = false) :
    a.flags &&& qmanSetAvail = 0 ∧ a.flags &&& qmanAddAvail = 0 := by
  simpa [FlowParams.newAvail] using h

theorem apply_avail_of_not_newAvail (q : FlowQueue) (h : a.newAvail = false) :
    (q.apply a).avail = q.avail := by
  obtain ⟨hset, hadd⟩ := flags_of_not_newAvail h
  unfold FlowQueue.apply
  dsimp only
  rw [if_neg (not_not.2 hset), if_neg (not_not.2 hadd)]

theorem flowSetImpl_spec (hok : c.vq.fqman.Ok) (hf : IsFlow f) :
    Meets (flexnicNumQmflowqueues < fuel)
      (fun c' => c'.vq.fqman.Ok ∧ FlowWritten c.vq.fqman c'.vq.fqman f a ∧
        c'.vq = { c.vq with fqman := c'.vq.fqman }) (flowSetImpl fuel c f a) := by
  obtain ⟨nl, lv, hlists⟩ := hok.lists
  unfold flowSetImpl
  have hlists₁ : (c.vq.fqman.modify f fun q => q.apply a).Lists nl lv :=
    hlists.modify rfl rfl rfl
  set c₁ := c.withFqman (c.vq.fqman.modify f fun q => q.apply a)
  have hself : c₁.flow f = (c.flow f).apply a := update_self ..
  have hothers : ∀ g ≠ f, c₁.flow g = c.flow g := fun g hg => update_of_ne hg ..
  -- What is left after the parameters are written is whether the flow is listed.
  have hpost : ∀ {c' : VmCtx} {nl' lv'}, c'.vq.fqman.Lists nl' lv' →
      ((c'.flow f).avail = (c₁.flow f).avail ∧ (c'.flow f).maxChunk = (c₁.flow f).maxChunk) →
      (∀ g ≠ f, (c'.flow g).Same (c₁.flow g)) → (c'.flow f).Covered →
      c'.vq.fqman.Ok ∧ FlowWritten c.vq.fqman c'.vq.fqman f a := by
    intro c' nl' lv' hlists' hparams hsame hcov
    have hsame' : ∀ g ≠ f, (c'.flow g).Same (c.flow g) := fun g hg => hothers g hg ▸ hsame g hg
    refine ⟨⟨⟨nl', lv', hlists'⟩, fun g => ?_⟩, hself ▸ hparams, fun g hg => ?_⟩
    · by_cases hgf : g = f
      · exact hgf ▸ hcov
      · exact (hsame' g hgf).covered (hok.covered g)
    · exact ⟨(hsame' g hg).avail, (hsame' g hg).maxChunk⟩
  by_cases hact : a.newAvail ∧ (c₁.flow f).avail > 0 ∧
      ¬ ((c₁.flow f).inSkiplist ∨ (c₁.flow f).inNolimitl)
  · rw [if_pos hact]
    have hsk : (c₁.flow f).inSkiplist = false := by
      simpa using fun h => hact.2.2 (Or.inl h)
    have hnl : (c₁.flow f).inNolimitl = false := by
      simpa using fun h => hact.2.2 (Or.inr h)
    refine (flowQueueActivate_spec hlists₁ hf hnl hsk).mono id ?_
    rintro c' ⟨nl', lv', hact'⟩
    obtain ⟨havail, -, hchunk, hflag⟩ := hact'.self
    obtain ⟨hok', hwritten⟩ := hpost hact'.lists ⟨havail, hchunk⟩ (fun g => hact'.others)
      fun _ => hflag
    exact ⟨hok', hwritten, hact'.outer.1⟩
  · rw [if_neg hact]
    obtain ⟨hok', hwritten⟩ := hpost hlists₁ ⟨rfl, rfl⟩ (fun g _ => FlowQueue.same rfl)
      fun havail => by
        by_cases hnew : a.newAvail
        · by_contra hflag
          exact hact ⟨hnew, havail, fun h => hflag h.symm⟩
        · rw [hself] at havail ⊢
          rw [apply_avail_of_not_newAvail (c.flow f) (by simpa using hnew)] at havail
          exact hok.covered f havail
    exact meets_ok ⟨hok', hwritten, rfl⟩

theorem vm_apply_avail_of_not_newAvail (q : VmQueue) (h : a.newAvail = false) :
    (q.apply f a).avail = q.avail := by
  obtain ⟨hset, hadd⟩ := flags_of_not_newAvail h
  unfold VmQueue.apply
  dsimp only
  rw [if_neg (not_not.2 hset), if_neg (not_not.2 hadd)]

theorem vmSetImpl_spec (hok : m.Ok) (hv : IsVm v) :
    ∃ m' vl' q, vmSetImpl m v f a = .ok m' ∧ m'.Lists vl' ∧ VmChanged m m' v q ∧
      q.fqman = (m.queues v).fqman ∧ q.avail = ((m.queues v).apply f a).avail ∧
      (0 < q.avail → q.inNolimitl) := by
  obtain ⟨vl, hlists⟩ := hok.lists
  unfold vmSetImpl
  have hself := vm_modify_self m v fun q => q.apply f a
  have hothers : ∀ w ≠ v, (m.modify v fun q => q.apply f a).queues w = m.queues w :=
    fun w hw => vm_modify_of_ne hw
  have hlists₁ : (m.modify v fun q => q.apply f a).Lists vl := hlists.modify rfl rfl rfl
  set m₁ := m.modify v fun q => q.apply f a with hm₁
  by_cases hact : a.newAvail ∧ (m₁.queues v).avail > 0 ∧ ¬ (m₁.queues v).inNolimitl
  · rw [if_pos hact]
    obtain ⟨m', hm', hlists', hchanged⟩ :=
      vmQueueActivate_spec hlists₁ hv (by simpa using hact.2.2)
    refine ⟨m', _, _, hm', hlists', ⟨hchanged.self, fun w hw => ?_⟩, ?_, ?_, fun _ => rfl⟩
    · rw [hchanged.others w hw, hothers w hw]
    · rw [hself]
      rfl
    · rw [hself]
  · rw [if_neg hact]
    refine ⟨m₁, vl, m₁.queues v, rfl, hlists₁, ⟨rfl, fun w hw => by rw [hothers w hw]⟩, ?_, ?_,
      fun hpos => ?_⟩
    · rw [hself]
      rfl
    · rw [hself]
    · by_cases hnew : a.newAvail
      · by_contra hflag
        exact hact ⟨hnew, hpos, hflag⟩
      · rw [hself] at hpos ⊢
        rw [vm_apply_avail_of_not_newAvail _ (by simpa using hnew)] at hpos
        exact hok.covered v hpos

/-- What `tas_qman_set` did. -/
structure QmanWritten (m m' : VmQman) (v f : U32) (a : FlowParams) : Prop where
  ok : m'.Ok
  flow : FlowWritten (m.queues v).fqman (m'.queues v).fqman f a
  vm : (m'.queues v).avail = ((m.queues v).apply f a).avail
  others : ∀ w ≠ v, (m'.queues w).fqman = (m.queues w).fqman ∧
    (m'.queues w).avail = (m.queues w).avail

theorem tasQmanSet_spec (hok : t.vqman.Ok) (hv : IsVm v) (hf : IsFlow f) :
    Meets (flexnicNumQmflowqueues < fuel)
      (fun r => r.2 = 0 ∧ QmanWritten t.vqman r.1.vqman v f a) (tasQmanSet fuel t v f a) := by
  obtain ⟨m₁, vl, q, hm₁, hlists₁, hchanged₁, hfqman, havail, hflag⟩ :=
    vmSetImpl_spec (f := f) (a := a) hok hv
  have hself₁ := VmQueue.same hchanged₁.self
  have hother₁ : ∀ w ≠ v, (m₁.queues w).Same (t.vqman.queues w) := fun w hw =>
    VmQueue.same (hchanged₁.others w hw)
  have hsame : (m₁.queues v).fqman = (t.vqman.queues v).fqman := hself₁.fqman.trans hfqman
  unfold tasQmanSet vmQmanSet
  rw [if_neg (Nat.not_le.2 hv), hm₁]
  change Meets _ _ (flowQmanSet fuel ⟨m₁.queues v, t.rng, t.trace⟩ f a >>= _)
  have hset : Meets (flexnicNumQmflowqueues < fuel)
      (fun r : VmCtx × ℤ => r.2 = 0 ∧ r.1.vq.fqman.Ok ∧
        FlowWritten (m₁.queues v).fqman r.1.vq.fqman f a ∧
        r.1.vq = { m₁.queues v with fqman := r.1.vq.fqman })
      (flowQmanSet fuel ⟨m₁.queues v, t.rng, t.trace⟩ f a) := by
    unfold flowQmanSet
    rw [if_neg (Nat.not_le.2 hf)]
    have hok₁ : (m₁.queues v).fqman.Ok := by
      rw [hsame]
      exact hok.flows v
    refine (flowSetImpl_spec (c := ⟨m₁.queues v, t.rng, t.trace⟩) hok₁ hf).bind ?_
    rintro c' ⟨hok', hwritten, hvq⟩
    exact meets_ok ⟨rfl, hok', hwritten, hvq⟩
  refine hset.bind ?_
  rintro ⟨c', ret⟩ ⟨hret, hok', hwritten, hvq⟩
  dsimp only at hret hok' hwritten hvq
  have hself₂ : ((m₁.modify v fun _ => c'.vq).queues v) = c'.vq := vm_modify_self ..
  have hlists₂ : (m₁.modify v fun _ => c'.vq).Lists vl := by
    refine hlists₁.modify ?_ ?_ ?_
    all_goals rw [hvq]
  refine meets_ok ⟨hret, ⟨⟨vl, hlists₂⟩, ?_, ?_⟩, ?_, ?_, fun w hw => ?_⟩
  · exact (forall_update_iff m₁.queues fun _ x => x.fqman.Ok).2
      ⟨hok', fun w hw => (hother₁ w hw).fqman ▸ hok.flows w⟩
  · refine (forall_update_iff m₁.queues fun _ x => 0 < x.avail → x.inNolimitl = true).2
      ⟨?_, fun w hw => ?_⟩
    · rw [hvq]
      change 0 < (m₁.queues v).avail → (m₁.queues v).inNolimitl = true
      rw [hself₁.avail, hself₁.inNolimitl]
      exact hflag
    · rw [(hother₁ w hw).avail, (hother₁ w hw).inNolimitl]
      exact hok.covered w
  · change FlowWritten _ ((m₁.modify v fun _ => c'.vq).queues v).fqman f a
    rw [hself₂, ← hsame]
    exact hwritten
  · change ((m₁.modify v fun _ => c'.vq).queues v).avail = _
    rw [hself₂, hvq]
    exact hself₁.avail.trans havail
  · change ((m₁.modify v fun _ => c'.vq).queues w).fqman = _ ∧
      ((m₁.modify v fun _ => c'.vq).queues w).avail = _
    rw [vm_modify_of_ne hw]
    exact ⟨(hother₁ w hw).fqman, (hother₁ w hw).avail⟩

/-! ### Polling -/

/-- No flow without bytes is in the skip list of a VM that is listed and in budget. -/
def VmQman.Fresh (m : VmQman) (budgets : U32 → ℤ) : Prop :=
  ∀ v, (m.queues v).inNolimitl → 0 < budgets v → (m.queues v).fqman.NoStale

theorem tasQmanPoll_spec (hok : t.vqman.Ok) (vmCounters : U32 → ℤ) (countersTotal : ℤ) :
    Meets (flexnicNumQmflowqueues + num < fuel ∧ (∀ v, (t.vqman.queues v).Accounted) ∧
        t.vqman.Fresh env.budgets)
      (fun s => ∃ vl, VmInv num t.vqman s.vqman s.out s.cnt vl [])
      (tasQmanPoll fuel env num t vmCounters countersTotal) := by
  obtain ⟨vl, hlists⟩ := hok.lists
  have hlen := hlists.length_le
  have hnum : flexnicNumQmflowqueues = 131072 := rfl
  have hvms : flexnicPlVmstNum = 6 := rfl
  have hinv : VmInv num t.vqman t.vqman [] 0 vl [] := by
    refine ⟨hlists, hok.flows, List.nodup_nil, by simp, fun v hv => Or.inl (hok.covered v hv), rfl,
      Nat.zero_le _, by simp, fun v f => rfl, fun v f => rfl, fun h => h⟩
  unfold tasQmanPoll vmQmanPoll
  refine Meets.bind (vmLoop_spec hinv (fun hlive => ?_) fun hlive => ?_) ?_
  · have := hlive.1
    omega
  · refine ⟨by have := hlive.1; omega, hlive.2.1, fun v hv => hlive.2.2 v ((hlists.mem v).1 hv),
      by simp, ?_⟩
    have := hlive.1
    change num - 0 + (6 + 1 + vl.length) < fuel
    omega
  · rintro s ⟨vl', hinv'⟩
    refine (oobLoop_spec hinv').mono (fun hlive => ?_) fun _ => id
    have := hlive.1
    omega

theorem VmInv.to_ok {m₀ : VmQman} {out : List QmanEntry} {cnt : ℕ}
    (h : VmInv num m₀ m out cnt vl []) : m.Ok :=
  ⟨⟨vl, h.lists⟩, h.ok, fun v hv => (h.covered v hv).resolve_right List.not_mem_nil⟩

/-! ### Runs -/

/-- Bytes a flow has after the call, if they fit. -/
def FlowParams.bytesAfter (a : FlowParams) (q : FlowQueue) : ℕ :=
  if a.flags &&& qmanSetAvail ≠ 0 then a.avail.toNat
  else if a.flags &&& qmanAddAvail ≠ 0 then q.avail.toNat + a.avail.toNat
  else q.avail.toNat

/-- Bytes of the VM's flows after the call. -/
def VmQman.bytesAfter (m : VmQman) (v f : U32) (a : FlowParams) : ℕ :=
  (m.queues v).flowBytes - ((m.queues v).fqman.queues f).avail.toNat +
    a.bytesAfter ((m.queues v).fqman.queues f)

/-- A call that returns: `tas_qman_set` for an existing VM and flow that keeps the VM's bytes
below 2^32, or `tas_qman_poll`. -/
inductive QmanStep (t : QmanThread) : QmanThread → Prop
  | set {t' : QmanThread} {ret : ℤ} (fuel : ℕ) (v f : U32) (a : FlowParams) (hv : IsVm v)
      (hf : IsFlow f) (hbytes : t.vqman.bytesAfter v f a < 2 ^ 32)
      (hset : tasQmanSet fuel t v f a = .ok (t', ret)) : QmanStep t t'
  | poll {s : VmPoll} (fuel : ℕ) (env : PollEnv) (num : ℕ) (vmCounters : U32 → ℤ)
      (countersTotal : ℤ)
      (hpoll : tasQmanPoll fuel env num t vmCounters countersTotal = .ok s) :
      QmanStep t s.toQmanThread

/-- A thread that was just initialised. -/
def QmanStart (t : QmanThread) : Prop :=
  ∃ timestamp nolimitFirst rng, t = tasQmanThreadInit timestamp nolimitFirst rng

/-- What every call keeps. -/
structure QmanInv (t : QmanThread) : Prop where
  ok : t.vqman.Ok
  accounted : ∀ v, (t.vqman.queues v).Accounted

theorem qmanInv_start (h : QmanStart t) : QmanInv t := by
  obtain ⟨timestamp, nolimitFirst, rng, rfl⟩ := h
  refine ⟨⟨⟨[], fifo_empty, fun v => ?_, fun v => ?_, fun v => rfl⟩, fun v => ?_, fun v hv => ?_⟩,
    fun v => ?_⟩
  · simp [tasQmanThreadInit, vmcontInit]
  · simp [tasQmanThreadInit, vmcontInit]
  · refine ⟨⟨[], fun _ => [], flowcontInit_lists _⟩, fun f hf => ?_⟩
    exact absurd hf (lt_irrefl 0)
  · exact absurd hv (lt_irrefl 0)
  · exact (sum_eq_zero fun i _ => rfl).symm

theorem VmQueue.avail_le_flowBytes (q : VmQueue) (hf : IsFlow f) :
    (q.fqman.queues f).avail.toNat ≤ q.flowBytes := by
  have hmem : f.toNat ∈ range flexnicNumQmflowqueues := mem_range.2 hf
  have hle := single_le_sum (f := fun i => (q.fqman.queues (BitVec.ofNat 32 i)).avail.toNat)
    (fun i _ => Nat.zero_le _) hmem
  simpa [VmQueue.flowBytes] using hle

/-- The flows' bytes after one flow was written. -/
theorem QmanWritten.flowBytes (h : QmanWritten m m' v f a) (hf : IsFlow f) :
    (m'.queues v).flowBytes + ((m.queues v).fqman.queues f).avail.toNat =
      (m.queues v).flowBytes + ((m'.queues v).fqman.queues f).avail.toNat := by
  have hmem : f.toNat ∈ range flexnicNumQmflowqueues := mem_range.2 hf
  unfold VmQueue.flowBytes
  rw [← add_sum_erase _ _ hmem, ← add_sum_erase _ _ hmem]
  have hrest : ∑ i ∈ (range flexnicNumQmflowqueues).erase f.toNat,
      ((m'.queues v).fqman.queues (BitVec.ofNat 32 i)).avail.toNat =
      ∑ i ∈ (range flexnicNumQmflowqueues).erase f.toNat,
      ((m.queues v).fqman.queues (BitVec.ofNat 32 i)).avail.toNat := by
    refine sum_congr rfl fun i hi => ?_
    obtain ⟨hne, hi⟩ := mem_erase.1 hi
    rw [(h.flow.others (BitVec.ofNat 32 i) fun he => hne (by rw [← he, isFlow_ofNat hi])).1]
  rw [hrest]
  simp only [BitVec.ofNat_toNat, BitVec.setWidth_eq]
  omega

theorem QmanWritten.accounted (h : QmanWritten m m' v f a) (hf : IsFlow f)
    (hbytes : m.bytesAfter v f a < 2 ^ 32) (hacc : ∀ w, (m.queues w).Accounted) (w : U32) :
    (m'.queues w).Accounted := by
  by_cases hw : w = v
  swap
  · have hother := h.others w hw
    have := hacc w
    unfold VmQueue.Accounted VmQueue.flowBytes at this ⊢
    rw [hother.1, hother.2]
    exact this
  subst hw
  have hsum := h.flowBytes hf
  have hle := (m.queues w).avail_le_flowBytes hf
  have hold : (m.queues w).avail.toNat = (m.queues w).flowBytes := hacc w
  change (m'.queues w).avail.toNat = (m'.queues w).flowBytes
  rw [h.flow.self.1] at hsum
  rw [h.vm]
  unfold VmQman.bytesAfter FlowParams.bytesAfter at hbytes
  unfold VmQueue.apply
  unfold FlowQueue.apply at hsum
  dsimp only at hsum ⊢
  by_cases hset : a.flags &&& qmanSetAvail ≠ 0
  · rw [if_pos hset] at hbytes hsum ⊢
    have hsub : ((m.queues w).avail - ((m.queues w).fqman.queues f).avail).toNat =
        (m.queues w).avail.toNat - ((m.queues w).fqman.queues f).avail.toNat :=
      toNat_sub_of_le (by omega)
    rw [toNat_add_of_lt (by omega)]
    omega
  · rw [if_neg hset] at hbytes hsum ⊢
    by_cases hadd : a.flags &&& qmanAddAvail ≠ 0
    · rw [if_pos hadd] at hbytes hsum ⊢
      rw [toNat_add_of_lt (by omega)] at hsum
      rw [toNat_add_of_lt (by omega)]
      omega
    · rw [if_neg hadd] at hbytes hsum ⊢
      omega

theorem qmanInv_step (hs : QmanStep t t') (h : QmanInv t) : QmanInv t' := by
  cases hs with
  | set fuel v f a hv hf hbytes hset =>
    obtain ⟨-, hwritten⟩ := (tasQmanSet_spec h.ok hv hf).of_ok hset
    exact ⟨hwritten.ok, hwritten.accounted hf hbytes h.accounted⟩
  | poll fuel env num vmCounters countersTotal hpoll =>
    obtain ⟨vl, hinv⟩ := (tasQmanPoll_spec h.ok vmCounters countersTotal).of_ok hpoll
    exact ⟨hinv.to_ok, hinv.accounted h.accounted⟩

theorem qmanInv_of_reachable (h₀ : QmanStart t₀) (h : ReflTransGen QmanStep t₀ t) : QmanInv t := by
  induction h with
  | refl => exact qmanInv_start h₀
  | tail _ hs ih => exact qmanInv_step hs ih

/-! ### Accounting and membership -/

/-- What holds of the queue manager between calls. -/
structure QmanConsistent (m : VmQman) : Prop where
  bytes : ∀ v, IsVm v → (m.queues v).avail.toNat = (m.queues v).flowBytes
  vmList : ∃ vl, Fifo idxlistInval m.next m.headIdx m.tailIdx vl ∧
    (∀ v, v ∈ vl ↔ (m.queues v).inNolimitl) ∧ ∀ v ∈ vl, IsVm v
  flowLists : ∀ v, IsVm v → ∃ nl sl,
    Fifo idxlistInval ((m.queues v).fqman.next 0) (m.queues v).fqman.nolimitHeadIdx
      (m.queues v).fqman.nolimitTailIdx nl ∧
    Path idxlistInval ((m.queues v).fqman.next 0) ((m.queues v).fqman.headIdx 0) sl ∧ sl.Nodup ∧
    (∀ f, f ∈ nl ↔ ((m.queues v).fqman.queues f).inNolimitl) ∧
    (∀ f, f ∈ sl ↔ ((m.queues v).fqman.queues f).inSkiplist) ∧
    (∀ f ∈ nl, IsFlow f ∧ f ∉ sl) ∧ ∀ f ∈ sl, IsFlow f
  flowsListed : ∀ v f, IsVm v → 0 < ((m.queues v).fqman.queues f).avail →
    ((m.queues v).fqman.queues f).inNolimitl ∨ ((m.queues v).fqman.queues f).inSkiplist
  vmsListed : ∀ v, 0 < (m.queues v).avail → (m.queues v).inNolimitl

theorem QmanInv.consistent (h : QmanInv t) : QmanConsistent t.vqman := by
  obtain ⟨vl, hlists⟩ := h.ok.lists
  refine ⟨fun v _ => h.accounted v,
    ⟨vl, hlists.fifo, hlists.mem, fun v hv => hlists.vms v ((hlists.mem v).1 hv)⟩, ?_, ?_,
    h.ok.covered⟩
  · intro v _
    obtain ⟨nl, lv, hl⟩ := (h.ok.flows v).lists
    refine ⟨nl, lv 0, hl.nolimit, hl.level 0 (by decide), hl.nodup, hl.mem_nolimit, hl.mem_skiplist,
      fun f hf => ?_, fun f hf => hl.isFlow hf⟩
    have hnl := (hl.mem_nolimit f).1 hf
    exact ⟨hl.flows f (Or.inl hnl), fun hsl => hl.apart f ⟨hnl, (hl.mem_skiplist f).1 hsl⟩⟩
  · intro v f _ hf
    exact (h.ok.flows v).covered f hf

/-- What a poll that returns did: the entries are within the limit, and each was taken off its
flow's bytes, which nothing else changed. -/
structure PollAccounted (m : VmQman) (num : ℕ) (s : VmPoll) : Prop where
  count : s.cnt = s.out.length
  limit : s.cnt ≤ num
  entry : ∀ e ∈ s.out, IsVm e.vmId ∧ IsFlow e.qId
  spent : ∀ v f, ((s.vqman.queues v).fqman.queues f).avail.toNat + spentOf v f s.out =
    ((m.queues v).fqman.queues f).avail.toNat

/-- Thread whose clock starts at zero and whose flows all get level zero. -/
def zeroThread : QmanThread := tasQmanThreadInit (fun _ => 0) (fun _ => true) fun _ => 1

/-- All parameters are set. -/
def oneByteFlags : U8 := qmanSetRate ||| qmanSetMaxchunk ||| qmanSetAvail

/-- Parameters of a flow that sends one byte at a time. -/
def oneByteParams (rate avail : U32) : FlowParams := ⟨rate, avail, 1, oneByteFlags⟩

/-- All VMs are in budget, and the clock stands still. -/
def zeroEnv : PollEnv := ⟨fun _ => 1, 0, 0⟩

/-- The thread after a set that needs few iterations. -/
def QmanThread.afterSet (t : QmanThread) (v f rate avail : U32) : QmanThread :=
  match tasQmanSet 9 t v f (oneByteParams rate avail) with
  | .ok r => r.1
  | .error _ => t

/-- The thread after a poll that needs few iterations. -/
def QmanThread.afterPoll (t : QmanThread) (num : ℕ) : QmanThread :=
  match tasQmanPoll 9 zeroEnv num t (fun _ => 0) 0 with
  | .ok s => s.toQmanThread
  | .error _ => t

/-- Both VMs have one rate limited flow that fired once. -/
def limitedThread : QmanThread :=
  ((zeroThread.afterSet 0 0 1 2).afterSet 1 0 1 2).afterPoll 2

/-- The rate limited flow of VM 0 has no bytes left but stays in the skip list, and another flow of
VM 0 has one byte. -/
def staleThread : QmanThread := (limitedThread.afterSet 0 0 0 0).afterSet 0 1 0 1

/-- A set whose call returns is a step, if the bytes fit. -/
theorem afterSet_step {rate avail : U32} (h₀ : QmanStart t₀) (h : ReflTransGen QmanStep t₀ t)
    (hv : IsVm v) (hf : IsFlow f) (hbytes : (t.vqman.queues v).avail.toNat + avail.toNat < 2 ^ 32)
    (hok : (tasQmanSet 9 t v f (oneByteParams rate avail)).isOk = true) :
    ReflTransGen QmanStep t₀ (t.afterSet v f rate avail) := by
  have hacc : (t.vqman.queues v).avail.toNat = (t.vqman.queues v).flowBytes :=
    (qmanInv_of_reachable h₀ h).accounted v
  obtain ⟨r, hr⟩ := exists_of_isOk hok
  refine h.tail ?_
  unfold QmanThread.afterSet
  rw [hr]
  refine .set 9 v f (oneByteParams rate avail) hv hf ?_ hr
  have hafter : (oneByteParams rate avail).bytesAfter ((t.vqman.queues v).fqman.queues f) =
      avail.toNat := if_pos (show oneByteFlags &&& qmanSetAvail ≠ 0 by decide)
  unfold VmQman.bytesAfter
  rw [hafter]
  omega

theorem afterPoll_step (h : ReflTransGen QmanStep t₀ t)
    (hok : (tasQmanPoll 9 zeroEnv num t (fun _ => 0) 0).isOk = true) :
    ReflTransGen QmanStep t₀ (t.afterPoll num) := by
  obtain ⟨s, hr⟩ := exists_of_isOk hok
  refine h.tail ?_
  unfold QmanThread.afterPoll
  rw [hr]
  exact .poll 9 zeroEnv num (fun _ => 0) 0 hr

theorem zeroThread_start : QmanStart zeroThread := ⟨_, _, _, rfl⟩

theorem limitedThread_reachable : ReflTransGen QmanStep zeroThread limitedThread := by
  have h₁ : ReflTransGen QmanStep zeroThread (zeroThread.afterSet 0 0 1 2) :=
    afterSet_step zeroThread_start .refl (by decide) (by decide) (by decide +kernel)
      (by decide +kernel)
  have h₂ : ReflTransGen QmanStep zeroThread
      ((zeroThread.afterSet 0 0 1 2).afterSet 1 0 1 2) :=
    afterSet_step zeroThread_start h₁ (by decide) (by decide) (by decide +kernel)
      (by decide +kernel)
  exact afterPoll_step h₂ (by decide +kernel)

theorem staleThread_reachable : ReflTransGen QmanStep zeroThread staleThread := by
  have h₁ : ReflTransGen QmanStep zeroThread (limitedThread.afterSet 0 0 0 0) :=
    afterSet_step zeroThread_start limitedThread_reachable (by decide) (by decide)
      (by decide +kernel) (by decide +kernel)
  exact afterSet_step zeroThread_start h₁ (by decide) (by decide) (by decide +kernel)
    (by decide +kernel)

/-- In every state of a run the accounting and the lists are right, no call fails an assertion, a
`tas_qman_set` returns, a poll that returns took what it returned off the flows, and it does return
if it finds no flow without bytes in the skip list of a VM in budget. -/
theorem qman_accounting {t₀ : QmanThread} (h₀ : QmanStart t₀) (h : ReflTransGen QmanStep t₀ t) :
    QmanConsistent t.vqman ∧
    (∀ v f a, IsVm v → IsFlow f →
      (∀ fuel, tasQmanSet fuel t v f a ≠ .error .assertion) ∧
      ∃ fuel t', tasQmanSet fuel t v f a = .ok (t', 0)) ∧
    ∀ env num vmCounters countersTotal,
      (∀ fuel, tasQmanPoll fuel env num t vmCounters countersTotal ≠ .error .assertion) ∧
      (∀ fuel s, tasQmanPoll fuel env num t vmCounters countersTotal = .ok s →
        PollAccounted t.vqman num s) ∧
      (t.vqman.Fresh env.budgets →
        ∃ fuel s, tasQmanPoll fuel env num t vmCounters countersTotal = .ok s) := by
  have hinv := qmanInv_of_reachable h₀ h
  refine ⟨hinv.consistent, fun v f a hv hf => ⟨fun fuel => ?_, ?_⟩,
    fun env num vmCounters countersTotal => ⟨fun fuel => ?_, fun fuel s hs => ?_, fun hfresh => ?_⟩⟩
  · exact (tasQmanSet_spec hinv.ok hv hf).no_assertion
  · obtain ⟨⟨t', ret⟩, hr, hret, -⟩ :=
      (tasQmanSet_spec (a := a) hinv.ok hv hf).returns (Nat.lt_succ_self _)
    exact ⟨_, t', by rw [hr, show ret = 0 from hret]⟩
  · exact (tasQmanPoll_spec hinv.ok vmCounters countersTotal).no_assertion
  · obtain ⟨vl, hpoll⟩ := (tasQmanPoll_spec hinv.ok vmCounters countersTotal).of_ok hs
    exact ⟨hpoll.count, hpoll.le, fun e he => ⟨(hpoll.entry e he).1, (hpoll.entry e he).2.1⟩,
      hpoll.spent⟩
  · obtain ⟨s, hs, -⟩ := (tasQmanPoll_spec hinv.ok vmCounters countersTotal).returns
      ⟨Nat.lt_succ_self _, hinv.accounted, hfresh⟩
    exact ⟨_, s, hs⟩

/-- In the two VMs one flow each is in the skip list, with a byte left. -/
theorem limitedThread_fresh : limitedThread.vqman.Fresh zeroEnv.budgets := by
  intro v hv _ f hf
  have hconsistent := (qmanInv_of_reachable zeroThread_start limitedThread_reachable).consistent
  obtain ⟨vl, -, hlisted, hvms⟩ := hconsistent.vmList
  have hvm : IsVm v := hvms v ((hlisted v).2 hv)
  have hheads : ∀ i < 6, let m := (limitedThread.vqman.queues (BitVec.ofNat 32 i)).fqman
      m.headIdx 0 = idxlistInval ∨
        m.headIdx 0 = 0 ∧ m.next 0 0 = idxlistInval ∧ 0 < (m.queues 0).avail := by
    decide +kernel
  have hhead := hheads v.toNat hvm
  rw [BitVec.ofNat_toNat, BitVec.setWidth_eq] at hhead
  obtain ⟨nl, sl, -, hpath, -, -, hflags, -⟩ := hconsistent.flowLists v hvm
  have hmem := (hflags f).2 hf
  obtain hnull | ⟨hzero, hlast, havail⟩ := hhead
  · rw [hpath.eq_nil_iff.1 hnull] at hmem
    cases hmem
  · obtain ⟨rest, rfl, hrest⟩ := hpath.exists_cons (by rw [hzero]; decide)
    rw [hzero] at hmem hrest
    rw [hrest.eq_nil_iff.1 hlast, List.mem_singleton] at hmem
    rw [hmem]
    exact havail

/-- A run with two sets and a poll, and the next poll returns. -/
theorem limitedThread_accounted :
    QmanStart zeroThread ∧ ReflTransGen QmanStep zeroThread limitedThread ∧
      QmanConsistent limitedThread.vqman ∧ IsVm 0 ∧ IsFlow 0 ∧
      limitedThread.vqman.Fresh zeroEnv.budgets ∧
      ∃ fuel s, tasQmanPoll fuel zeroEnv 2 limitedThread (fun _ => 0) 0 = .ok s := by
  have haccounting := qman_accounting zeroThread_start limitedThread_reachable
  exact ⟨zeroThread_start, limitedThread_reachable, haccounting.1, by decide, by decide,
    limitedThread_fresh, (haccounting.2.2 zeroEnv 2 (fun _ => 0) 0).2.2 limitedThread_fresh⟩

/-- A poll ends, and each of its loops makes at most as many iterations as there are entries asked
for and flows. -/
def QmanThread.PollEnds (t : QmanThread) (env : PollEnv) (num : ℕ) : Prop :=
  ∀ fuel vmCounters countersTotal, flexnicNumQmflowqueues + num < fuel →
    ∃ s, tasQmanPoll fuel env num t vmCounters countersTotal = .ok s

theorem poll_ends_of_fresh {t₀ : QmanThread} (h₀ : QmanStart t₀) (h : ReflTransGen QmanStep t₀ t)
    (env : PollEnv) (num : ℕ) (hfresh : t.vqman.Fresh env.budgets) : t.PollEnds env num := by
  intro fuel vmCounters countersTotal hfuel
  have hinv := qmanInv_of_reachable h₀ h
  obtain ⟨s, hs, -⟩ := (tasQmanPoll_spec hinv.ok vmCounters countersTotal).returns
    ⟨hfuel, hinv.accounted, hfresh⟩
  exact ⟨s, hs⟩

/-- The rate limited flows of VMs in budget. -/
theorem limitedThread_poll_ends :
    QmanStart zeroThread ∧ ReflTransGen QmanStep zeroThread limitedThread ∧
      limitedThread.PollEnds zeroEnv 2 :=
  ⟨zeroThread_start, limitedThread_reachable, poll_ends_of_fresh zeroThread_start
    limitedThread_reachable zeroEnv 2 limitedThread_fresh⟩

/-! ### A poll that never returns -/

/-- Nothing to send and no time to advance to: the flows of the VM are rate limited. -/
structure VmQueue.Limited (q : VmQueue) (curTs : U32) : Prop where
  nolimit : q.fqman.nolimitHeadIdx = idxlistInval
  skiplist : q.fqman.headIdx 0 ≠ idxlistInval
  later : timestampLessthaneq q (q.fqman.queues (q.fqman.headIdx 0)).nextTs q.tsVirtual = false
  now : q.tsReal = curTs

theorem flowPollNolimit_of_empty {n : ℕ} (h : s.vq.fqman.nolimitHeadIdx = idxlistInval) :
    flowPollNolimit fuel num (n + 1) 0 s = .ok (0, s) := by
  unfold flowPollNolimit
  rw [if_neg fun hc => hc.2 h]

theorem flowPollSkiplist_of_limited (hnum : 0 < num)
    (horig : s.skpl.origNum ≠ 0) (h : s.vq.Limited s.skpl.curTs) :
    flowPollSkiplist (fuel + 1) num s =
      .ok (0, { s with skpl := { s.skpl with rateLimited := true } }) := by
  have hmax : s.maxVts = s.vq.tsVirtual := by
    unfold FlowPoll.maxVts
    rw [h.now]
    simp
  have hself : s.advance s.vq.tsVirtual = s := rfl
  have hreal : { s.vq with tsReal := s.skpl.curTs } = s.vq := by
    rw [← h.now]
  unfold flowPollSkiplist skiplistLoop
  rw [hmax, if_pos hnum, if_neg h.skiplist, if_pos (by simp [VmCtx.flow, h.later]), hself]
  change Except.ok (0, _) = _
  rw [if_neg horig.symm]
  change Except.ok (0, ({ s with
    vq := { s.vq with tsReal := s.skpl.curTs }
    skpl := { s.skpl with rateLimited := true } } : FlowPoll)) = _
  rw [hreal]

theorem flowQmanPoll_of_limited (hnum : 0 < num)
    (horig : s.skpl.origNum ≠ 0) (h : s.vq.Limited s.skpl.curTs) :
    flowQmanPoll (fuel + 1) num s =
      .ok (0, { s with skpl := { s.skpl with rateLimited := true } }.alternate) := by
  unfold flowQmanPoll
  by_cases hfirst : s.vq.fqman.nolimitFirst
  · rw [if_pos hfirst, flowPollNolimit_of_empty h.nolimit]
    change flowPollSkiplist (fuel + 1) (num - 0) s >>= _ = _
    rw [flowPollSkiplist_of_limited (by simpa using hnum) horig h]
    rfl
  · rw [if_neg hfirst, flowPollSkiplist_of_limited hnum horig h]
    let s' : FlowPoll := { s with skpl := { s.skpl with rateLimited := true } }
    have hpoll : flowPollNolimit (fuel + 1) (num - 0) (fuel + 1) 0 s' = .ok (0, s') :=
      flowPollNolimit_of_empty h.nolimit
    change flowPollNolimit (fuel + 1) (num - 0) (fuel + 1) 0 s' >>= _ = _
    rw [hpoll]
    rfl

/-- The loop waits for a VM that is no longer in the list, and the only VM in the list is rate
limited and comes back at once. -/
structure VmPoll.Stuck (s : VmPoll) (num : ℕ) (budgets : U32 → ℤ) (v : U32) : Prop where
  head : s.vqman.headIdx = v
  last : (s.vqman.queues v).nextIdx = idxlistInval
  valid : v ≠ idxlistInval
  more : s.cnt < num
  waits : ∃ w, s.rvq = some w ∧ w ≠ v
  budget : 0 < budgets v
  bytes : 0 < (s.vqman.queues v).avail
  limited : (s.vqman.queues v).Limited s.skpl.curTs

/-- A VM that sent nothing returns to the empty list. -/
theorem vmQueueFire_alone (hempty : m.tailIdx = idxlistInval)
    (hoff : (m.queues v).inNolimitl = false) (hbytes : 0 < (m.queues v).avail) :
    vmQueueFire m v v 0 = .ok
      ⟨update m.queues v
        { m.queues v with inNolimitl := true, nextIdx := idxlistInval }, v, v⟩ := by
  have hne : (m.queues v).avail ≠ 0 := pos_iff_ne_zero.1 hbytes
  have hsame : m.modify v (fun q => { q with avail := q.avail - 0 }) = m := by
    simp [VmQman.modify]
  unfold vmQueueFire
  rw [if_neg hne, hsame, if_pos hbytes]
  unfold vmQueueActivate
  rw [if_neg (by simp [hoff])]
  exact if_pos hempty

theorem VmPoll.Stuck.serve {s : VmPoll} (h : s.Stuck num budgets v) (fuel : ℕ) :
    ∃ s', s'.Stuck num budgets v ∧
      VmPoll.serve (fuel + 1) num { s with
        vqman := vmPop s.vqman
        skpl := { s.skpl with origNum := num } } v = .ok s' := by
  have hnum : 0 < num - s.cnt := Nat.sub_pos_of_lt h.more
  have hpop : (vmPop s.vqman).queues v = { s.vqman.queues v with inNolimitl := false } := by
    simp [vmPop, VmQman.modify, h.head]
  have hempty : (vmPop s.vqman).tailIdx = idxlistInval := by
    simp [vmPop, h.head, h.last]
  let p : FlowPoll := {
    vq := (vmPop s.vqman).queues v
    rng := s.rng
    trace := s.trace
    skpl := ⟨s.skpl.curTs, false, num⟩
    out := s.out
    bytesSum := 0 }
  have hlimited : p.vq.Limited p.skpl.curTs := by
    change ((vmPop s.vqman).queues v).Limited s.skpl.curTs
    rw [hpop]
    exact ⟨h.limited.nolimit, h.limited.skiplist, h.limited.later, h.limited.now⟩
  let p' : FlowPoll := { p with skpl := { p.skpl with rateLimited := true } }.alternate
  have hpoll : flowQmanPoll (fuel + 1) (num - s.cnt) p = .ok (0, p') :=
    flowQmanPoll_of_limited hnum (Nat.ne_of_gt (Nat.zero_lt_of_lt h.more)) hlimited
  let m : VmQman := (vmPop s.vqman).modify v fun _ => p'.vq
  have hm : m.queues v = p'.vq := update_self ..
  have hvq : p'.vq = { s.vqman.queues v with
      inNolimitl := false
      fqman := { (s.vqman.queues v).fqman with
        nolimitFirst := !(s.vqman.queues v).fqman.nolimitFirst } } := by
    change ({ (vmPop s.vqman).queues v with
      fqman := { ((vmPop s.vqman).queues v).fqman with
        nolimitFirst := !((vmPop s.vqman).queues v).fqman.nolimitFirst } } : VmQueue) = _
    rw [hpop]
  have hbytes : 0 < (m.queues v).avail := by
    rw [hm, hvq]
    exact h.bytes
  have hfire := vmQueueFire_alone (m := m) (v := v) hempty (by rw [hm, hvq]) hbytes
  obtain ⟨w, hw, hwv⟩ := h.waits
  unfold VmPoll.serve VmPoll.pollFlows
  change ∃ s', _ ∧ (flowQmanPoll (fuel + 1) (num - s.cnt) p >>= _) >>= _ = _
  rw [hpoll]
  change ∃ s', _ ∧ VmPoll.fire { s with
    vqman := m
    rng := p'.rng
    trace := p'.trace
    skpl := p'.skpl
    out := p'.out
    cnt := s.cnt + 0 } v 0 >>= _ = _
  unfold VmPoll.fire
  rw [if_pos hbytes]
  dsimp only
  rw [hfire]
  refine ⟨_, ?_, rfl⟩
  constructor
  · rfl
  · change (update m.queues v _ v).nextIdx = idxlistInval
    rw [update_self]
  · exact h.valid
  · exact h.more
  · refine ⟨w, ?_, hwv⟩
    change (if _ ∧ s.rvq = none then some v else s.rvq) = some w
    rw [if_neg (by simp [hw]), hw]
  · exact h.budget
  · change 0 < (update m.queues v _ v).avail
    rw [update_self]
    exact hbytes
  · change (update m.queues v _ v).Limited s.skpl.curTs
    rw [update_self, hm, hvq]
    exact ⟨h.limited.nolimit, h.limited.skiplist, h.limited.later, h.limited.now⟩

/-- From such a state the loop never ends. -/
theorem VmPoll.Stuck.unfinished {s : VmPoll} (h : s.Stuck num budgets v)
    (n : ℕ) : vmLoop (fuel + 1) num budgets n s = .error .unfinished := by
  induction n generalizing s with
  | zero => rfl
  | succ n ih =>
    obtain ⟨s', hs', hserve⟩ := h.serve fuel
    obtain ⟨w, hw, hwv⟩ := h.waits
    have hhead := h.head
    have hinval : s.vqman.headIdx ≠ idxlistInval := by
      rw [hhead]
      exact h.valid
    have hrvq : s.rvq ≠ some s.vqman.headIdx := by
      rw [hw, hhead]
      exact fun hc => hwv (Option.some.inj hc)
    rw [vmLoop, if_pos ⟨h.more, hinval⟩, if_neg hrvq]
    dsimp only
    rw [hhead, if_pos h.budget, hserve]
    exact ih hs'

/-- State in which the loop of a poll of `staleThread` starts. -/
def stalePoll (num : ℕ) : VmPoll :=
  { staleThread with
    skpl := ⟨0, false, num⟩
    out := []
    cnt := 0
    rvq := none
    oobVms := []
    vmCounters := fun _ => 0
    countersTotal := 0 }

/-- The first visit sends the byte of VM 0, which leaves the list and is remembered as the first
rate limited one. -/
theorem stalePoll_first (k : ℕ) :
    ∃ s, VmPoll.serve (k + 2) 2 { stalePoll 2 with vqman := vmPop staleThread.vqman } 0 = .ok s ∧
      s.Stuck 2 zeroEnv.budgets 1 := by
  refine ⟨_, rfl, ?_⟩
  constructor
  · rfl
  · rfl
  · decide
  · exact Nat.lt_succ_self 1
  · exact ⟨0, rfl, by decide⟩
  · exact Int.one_pos
  · change (0 : U32) < 1
    decide
  · constructor
    · rfl
    · change (0 : U32) ≠ idxlistInval
      decide
    · rfl
    · rfl

theorem staleThread_hangs (fuel : ℕ) :
    tasQmanPoll fuel zeroEnv 2 staleThread (fun _ => 0) 0 = .error .unfinished := by
  match fuel with
  | 0 => rfl
  | 1 => rfl
  | k + 2 =>
    obtain ⟨s, hs, hstuck⟩ := stalePoll_first k
    have hloop : vmLoop (k + 2) 2 zeroEnv.budgets (k + 2) (stalePoll 0) = .error .unfinished := by
      change VmPoll.serve (k + 2) 2 { stalePoll 2 with vqman := vmPop staleThread.vqman } 0 >>=
        vmLoop (k + 2) 2 zeroEnv.budgets (k + 1) = _
      rw [hs]
      exact hstuck.unfinished (k + 1)
    change vmLoop (k + 2) 2 zeroEnv.budgets (k + 2) (stalePoll 0) >>= _ = _
    rw [hloop]
    rfl

/-- A poll that waits for a VM that left the list never returns: no number of iterations is
enough. -/
theorem stale_flow_hangs_poll :
    QmanStart zeroThread ∧ ReflTransGen QmanStep zeroThread staleThread ∧
      ∀ fuel, tasQmanPoll fuel zeroEnv 2 staleThread (fun _ => 0) 0 = .error .unfinished :=
  ⟨zeroThread_start, staleThread_reachable, staleThread_hangs⟩

theorem stale_flow_poll_endless :
    QmanStart zeroThread ∧ ReflTransGen QmanStep zeroThread staleThread ∧
      ¬ staleThread.PollEnds zeroEnv 2 := by
  refine ⟨zeroThread_start, staleThread_reachable, fun hends => ?_⟩
  obtain ⟨s, hs⟩ := hends _ (fun _ => 0) 0 (Nat.lt_succ_self _)
  rw [staleThread_hangs] at hs
  contradiction

end Tas
