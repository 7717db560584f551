import Tas.Appctx
import Tas.FlowViews

/-! What the updates from the queues of one VM do to the flows of others. The VM of the queue, the
flow that an update names and the VM of that flow are independent of each other. -/
namespace Tas

open Function

/-- The flows, and the contexts of each VM on one core. -/
structure FpState where
  flowst : U32 → FlowState
  appctx : U16 → U32 → Appctx

/-- An entry found at the head of a queue, and how it is polled. -/
structure AtxPoll where
  vmId : U16
  ctxId : U32
  atx : AtxEntry
  env : U16 → FpEnv
  spendBudget : Bool
  ts : U32

/-- An applied update: the flow and what was done for it. -/
structure FlowUpdate where
  flowId : U32
  out : BumpOut

/-- `fast_appctx_poll_fetch`, and `fast_appctx_poll_bump` on what it fetched. -/
def pollUpdate (s : FpState) (p : AtxPoll) : Checked (FpState × Option FlowUpdate) :=
  match fastAppctxPollFetch (s.appctx p.vmId p.ctxId) p.atx p.spendBudget with
  | .abort => .abort
  | .done none => .done (s, none)
  | .done (some f) =>
    let r := fastAppctxPollBump p.env s.flowst p.atx p.ts
    .done (⟨r.1, update s.appctx p.vmId
      (update (s.appctx p.vmId) p.ctxId f.actx)⟩, some ⟨p.atx.flowId, r.2⟩)

variable {s s' t t' : FpState} {p q : AtxPoll} {v w : U16} {id : U32} {fs : FlowState} {m : Atx}
  {u u' : Option FlowUpdate} {ps : List AtxPoll}

/-- The poll changes no flow of a VM other than `v`, schedules no transmission for it and sends
nothing for it. -/
def Isolated (v : U16) (s : FpState) : Checked (FpState × Option FlowUpdate) → Prop
  | .abort => True
  | .done (s', u) => ∀ id, (s.flowst id).vmId ≠ v → s'.flowst id = s.flowst id ∧
      ∀ x, u = some x → (∀ c, x.out.qset = some c → c.flowId ≠ id) ∧
        (x.out.tx.isSome → x.flowId ≠ id)

/-! ### Updates without effect -/

/-- The update is refused by the checks of its bytes. -/
def Refused (fs : FlowState) (m : Atx) : Prop :=
  (bumpCloses fs m.flags ∧ m.txBump = 0) ∨ ¬ bumpTxFits fs (bumpTxBytes fs m.txBump) ∨
    ¬ bumpRxFits fs m.rxBump

/-- The update is out of order, or it repeats the update number and moves no bytes. -/
def Inert (fs : FlowState) (m : Atx) : Prop :=
  bumpOutOfOrder fs.bumpSeq m.bumpSeq ∨
    (m.bumpSeq = fs.bumpSeq ∧ (Refused fs m ∨ (m.rxBump = 0 ∧ bumpTxBytes fs m.txBump = 0)))

/-- The poll finds no update, one that ends in an abort, one for a flow of VM `v`, or one without
effect. -/
def Confined (v : U16) (s : FpState) (p : AtxPoll) : Prop :=
  (s.appctx p.vmId p.ctxId).txLen = 0 ∨ p.atx.type ≠ atxConnupdate ∨ p.atx.flowId ≥ flowIdLimit ∨
    (s.flowst p.atx.flowId).vmId = v ∨ Inert (s.flowst p.atx.flowId) p.atx.msg

section Bump

variable {env : FpEnv} {flowId ts : U32}

/-- The call of `fast_flows_bump` for an update. -/
def bumpWith (env : FpEnv) (fs : FlowState) (flowId : U32) (m : Atx) (ts : U32) :
    FlowState × BumpOut :=
  fastFlowsBump env fs flowId m.bumpSeq m.rxBump m.txBump m.flags ts

theorem bumpWith_outOfOrder (h : bumpOutOfOrder fs.bumpSeq m.bumpSeq) :
    bumpWith env fs flowId m ts = (fs, { accepted := false }) := by
  unfold bumpWith fastFlowsBump
  rw [if_pos h]

theorem bumpWith_refused (hseq : bumpOutOfOrder fs.bumpSeq m.bumpSeq = false) (h : Refused fs m) :
    bumpWith env fs flowId m ts = ({ fs with bumpSeq := m.bumpSeq }, { accepted := false }) := by
  unfold bumpWith fastFlowsBump
  rw [if_neg (by simp [hseq])]
  by_cases hclose : bumpCloses fs m.flags ∧ m.txBump = 0
  · rw [if_pos hclose]
  rw [if_neg hclose]
  by_cases htx : bumpTxFits fs (bumpTxBytes fs m.txBump)
  · rw [if_neg (not_not.mpr htx), if_pos]
    obtain hclose' | htx' | hrx := h
    · exact (hclose hclose').elim
    · exact (htx' htx).elim
    · exact hrx
  · rw [if_pos htx]

/-- State after an accepted update. -/
def bumpAccepted (fs : FlowState) (m : Atx) : FlowState :=
  bumpState fs m.bumpSeq m.rxBump (bumpTxBytes fs m.txBump) (bumpCloses fs m.flags)

/-- Bytes that the flow could send after an accepted update. -/
def bumpNewAvail (fs : FlowState) (m : Atx) : U32 :=
  tcpTxavail fs (some (fs.txAvail + bumpTxBytes fs m.txBump))

theorem bumpWith_accepted (hseq : bumpOutOfOrder fs.bumpSeq m.bumpSeq = false)
    (h : ¬ Refused fs m) :
    bumpWith env fs flowId m ts = (bumpAccepted fs m, {
      accepted := true
      qset :=
        if tcpTxavail fs none < bumpNewAvail fs m then
          some (qmanRearm (bumpAccepted fs m) flowId (bumpNewAvail fs m))
        else none
      tx :=
        if bumpNewAvail fs m = 0 ∧ fs.rxAvail = 0 ∧ (bumpAccepted fs m).rxAvail ≠ 0 then
          some (fastFlowsWinretransmit env (bumpAccepted fs m) ts)
        else none }) := by
  unfold Refused at h
  push Not at h
  obtain ⟨hclose, htxfits, hrxfits⟩ := h
  unfold bumpWith fastFlowsBump
  rw [if_neg (by simp [hseq]), if_neg fun h => hclose h.1 h.2, if_neg (not_not.mpr htxfits),
    if_neg (not_not.mpr hrxfits)]
  rfl

/-- An accepted close comes with a byte. -/
theorem not_closes_of_no_bytes (hok : ¬ Refused fs m) (hbytes : bumpTxBytes fs m.txBump = 0) :
    bumpCloses fs m.flags = false := by
  cases hcloses : bumpCloses fs m.flags with
  | false => rfl
  | true =>
    refine (hok (.inl ⟨hcloses, ?_⟩)).elim
    have hopen : fs.flag flowstTxfin = false := by
      unfold bumpCloses at hcloses
      simpa using (Bool.and_eq_true_iff.1 hcloses).2
    unfold bumpTxBytes at hbytes
    rwa [if_neg (by simp [hopen])] at hbytes

/-- An accepted update that moves no bytes has no effect. -/
theorem bumpWith_idle (hsame : m.bumpSeq = fs.bumpSeq) (hfits : ¬ Refused fs m) (hrx : m.rxBump = 0)
    (htx : bumpTxBytes fs m.txBump = 0) :
    (bumpWith env fs flowId m ts).1 = fs ∧ (bumpWith env fs flowId m ts).2.qset = none ∧
      (bumpWith env fs flowId m ts).2.tx = none := by
  have hstate : bumpAccepted fs m = fs := by
    unfold bumpAccepted
    rw [not_closes_of_no_bytes hfits htx, hsame, hrx, htx]
    simp [bumpState]
  have havail : bumpNewAvail fs m = tcpTxavail fs none := by
    unfold bumpNewAvail
    rw [htx]
    simp [tcpTxavail]
  rw [bumpWith_accepted (by simp [bumpOutOfOrder, hsame]) hfits, hstate, havail]
  dsimp only
  refine ⟨rfl, if_neg (BitVec.lt_irrefl _), if_neg fun hall => ?_⟩
  exact hall.2.2 hall.2.1

theorem bumpWith_inert (env : FpEnv) (flowId ts : U32) (h : Inert fs m) :
    (bumpWith env fs flowId m ts).1 = fs ∧ (bumpWith env fs flowId m ts).2.qset = none ∧
      (bumpWith env fs flowId m ts).2.tx = none := by
  obtain hooo | ⟨hsame, hmoves⟩ := h
  · rw [bumpWith_outOfOrder hooo]
    exact ⟨rfl, rfl, rfl⟩
  · by_cases hrefused : Refused fs m
    · rw [bumpWith_refused (by simp [bumpOutOfOrder, hsame]) hrefused, hsame]
      exact ⟨rfl, rfl, rfl⟩
    · obtain hrefused' | ⟨hrx, htx⟩ := hmoves
      · exact (hrefused hrefused').elim
      · exact bumpWith_idle hsame hrefused hrx htx

theorem bumpWith_not_inert (h : ¬ Inert fs m) : (bumpWith env fs flowId m ts).1 ≠ fs := by
  intro heq
  refine h ?_
  cases hseq : bumpOutOfOrder fs.bumpSeq m.bumpSeq with
  | true => exact .inl hseq
  | false =>
    by_cases hrefused : Refused fs m
    · rw [bumpWith_refused hseq hrefused] at heq
      exact .inr ⟨congrArg FlowState.bumpSeq heq, .inl hrefused⟩
    · rw [bumpWith_accepted hseq hrefused] at heq
      dsimp only at heq
      have hnum : (bumpAccepted fs m).bumpSeq = m.bumpSeq := rfl
      have hrx : (bumpAccepted fs m).rxAvail = fs.rxAvail + m.rxBump := rfl
      have htx : (bumpAccepted fs m).txAvail = fs.txAvail + bumpTxBytes fs m.txBump := rfl
      rw [heq] at hnum hrx htx
      refine .inr ⟨hnum.symm, .inr ⟨?_, ?_⟩⟩
      · simpa using hrx.symm
      · simpa using htx.symm

/-- The queue is set for the flow of the call only. -/
theorem bumpWith_qset_flowId {c : QmanSet} (h : (bumpWith env fs flowId m ts).2.qset = some c) :
    c.flowId = flowId := by
  cases hseq : bumpOutOfOrder fs.bumpSeq m.bumpSeq with
  | true =>
    rw [bumpWith_outOfOrder hseq] at h
    cases h
  | false =>
    by_cases hrefused : Refused fs m
    · rw [bumpWith_refused hseq hrefused] at h
      cases h
    · rw [bumpWith_accepted hseq hrefused] at h
      dsimp only at h
      split_ifs at h
      rw [← Option.some.inj h]
      rfl

/-- The state after an update depends on nothing else. -/
theorem bumpWith_fst (env' : FpEnv) (flowId' ts' : U32) :
    (bumpWith env fs flowId m ts).1 = (bumpWith env' fs flowId' m ts').1 := by
  cases hseq : bumpOutOfOrder fs.bumpSeq m.bumpSeq with
  | true => rw [bumpWith_outOfOrder hseq, bumpWith_outOfOrder hseq]
  | false =>
    by_cases hrefused : Refused fs m
    · rw [bumpWith_refused hseq hrefused, bumpWith_refused hseq hrefused]
    · rw [bumpWith_accepted hseq hrefused, bumpWith_accepted hseq hrefused]

theorem bumpWith_vmId : (bumpWith env fs flowId m ts).1.vmId = fs.vmId := by
  cases hseq : bumpOutOfOrder fs.bumpSeq m.bumpSeq with
  | true => rw [bumpWith_outOfOrder hseq]
  | false =>
    by_cases hrefused : Refused fs m
    · rw [bumpWith_refused hseq hrefused]
    · rw [bumpWith_accepted hseq hrefused]
      dsimp only [bumpAccepted, bumpState]
      cases bumpCloses fs m.flags with
      | false => rfl
      | true => rfl

end Bump

/-! ### One poll -/

/-- The poll finds an update that is applied. -/
def Applies (s : FpState) (p : AtxPoll) : Prop :=
  (s.appctx p.vmId p.ctxId).txLen ≠ 0 ∧ p.atx.type = atxConnupdate ∧ p.atx.flowId < flowIdLimit

/-- State after an applied update. -/
def applied (s : FpState) (p : AtxPoll) : FpState :=
  let actx := s.appctx p.vmId p.ctxId
  let fs := s.flowst p.atx.flowId
  { flowst := update s.flowst p.atx.flowId
      (bumpWith (p.env fs.vmId) fs p.atx.flowId p.atx.msg p.ts).1
    appctx := update s.appctx p.vmId
      (update (s.appctx p.vmId) p.ctxId { actx with txHead := nextTxHead actx }) }

theorem pollUpdate_applies (h : Applies s p) :
    pollUpdate s p = .done (applied s p, some ⟨p.atx.flowId,
      (bumpWith (p.env (s.flowst p.atx.flowId).vmId) (s.flowst p.atx.flowId) p.atx.flowId
        p.atx.msg p.ts).2⟩) := by
  obtain ⟨hlen, htype, hflow⟩ := h
  have hzero : ¬ p.atx.type = 0 := by
    rw [htype]
    decide
  unfold pollUpdate fastAppctxPollFetch
  rw [if_neg hlen, if_neg hzero, if_neg (not_not.mpr htype), if_neg (BitVec.not_le.mpr hflow)]
  rfl

theorem pollUpdate_not_applies (h : ¬ Applies s p) :
    pollUpdate s p = .abort ∨ pollUpdate s p = .done (s, none) := by
  unfold pollUpdate fastAppctxPollFetch
  by_cases hlen : (s.appctx p.vmId p.ctxId).txLen = 0
  · rw [if_pos hlen]
    exact .inr rfl
  rw [if_neg hlen]
  by_cases hzero : p.atx.type = 0
  · rw [if_pos hzero]
    exact .inr rfl
  rw [if_neg hzero]
  by_cases htype : p.atx.type = atxConnupdate
  · have hflow : p.atx.flowId ≥ flowIdLimit :=
      BitVec.not_lt.1 fun hlt => h ⟨hlen, htype, hlt⟩
    rw [if_neg (not_not.mpr htype), if_pos hflow]
    exact .inl rfl
  · rw [if_pos htype]
    exact .inl rfl

theorem confined_iff :
    Confined v s p ↔ (Applies s p → (s.flowst p.atx.flowId).vmId = v ∨
      Inert (s.flowst p.atx.flowId) p.atx.msg) := by
  unfold Confined Applies
  rw [ge_iff_le, ← BitVec.not_lt]
  tauto

theorem isolated_of_confined (h : Confined v s p) : Isolated v s (pollUpdate s p) := by
  by_cases happ : Applies s p
  · rw [pollUpdate_applies happ]
    intro id hid
    obtain hown | hinert := confined_iff.1 h happ
    · -- the update is for another flow
      have hne : id ≠ p.atx.flowId := by
        rintro rfl
        exact hid hown
      refine ⟨update_of_ne hne .., ?_⟩
      intro x hx
      cases hx
      refine ⟨fun c hc => ?_, fun _ => hne.symm⟩
      rw [bumpWith_qset_flowId hc]
      exact hne.symm
    · obtain ⟨hfs, hqset, htx⟩ := bumpWith_inert (p.env (s.flowst p.atx.flowId).vmId)
        p.atx.flowId p.ts hinert
      refine ⟨?_, ?_⟩
      · unfold applied
        dsimp only
        rw [hfs, update_eq_self]
      · intro x hx
        cases hx
        refine ⟨fun c hc => ?_, fun hsome => ?_⟩
        · rw [hqset] at hc
          cases hc
        · rw [htx] at hsome
          cases hsome
  · obtain he | he := pollUpdate_not_applies happ
    · rw [he]
      trivial
    · rw [he]
      intro id _
      exact ⟨rfl, fun x hx => by cases hx⟩

theorem confined_of_isolated (h : Isolated v s (pollUpdate s p)) : Confined v s p := by
  refine confined_iff.2 fun happ => ?_
  rw [pollUpdate_applies happ] at h
  by_contra hneither
  push Not at hneither
  have hsame := (h p.atx.flowId hneither.1).1
  unfold applied at hsame
  dsimp only at hsame
  rw [update_self] at hsame
  exact bumpWith_not_inert hneither.2 hsame

/-! ### Runs -/

/-- Polls one after the other, unless one aborts. -/
def runPolls : FpState → List AtxPoll → Checked FpState
  | s, [] => .done s
  | s, p :: ps =>
    match pollUpdate s p with
    | .abort => .abort
    | .done (s', _) => runPolls s' ps

/-- Each poll of a queue of VM `v` is confined to it. -/
def ConfinedRun (v : U16) : FpState → List AtxPoll → Prop
  | _, [] => True
  | s, p :: ps => (p.vmId = v → Confined v s p) ∧
      ∀ s' u, pollUpdate s p = .done (s', u) → ConfinedRun v s' ps

/-- The polls differ only in what VM `v` wrote to its queues, and in budgets and times. -/
def SameButVm (v : U16) (p q : AtxPoll) : Prop :=
  p.vmId = q.vmId ∧ p.ctxId = q.ctxId ∧ (p.vmId ≠ v → p.atx = q.atx)

/-- The states agree on all flows and contexts of other VMs. -/
structure AgreeButVm (v : U16) (s t : FpState) : Prop where
  flowst : ∀ id, (s.flowst id).vmId ≠ v ∨ (t.flowst id).vmId ≠ v → s.flowst id = t.flowst id
  appctx : ∀ w, w ≠ v → s.appctx w = t.appctx w

theorem agreeButVm_refl (v : U16) (s : FpState) : AgreeButVm v s s :=
  ⟨fun _ _ => rfl, fun _ _ => rfl⟩

theorem AgreeButVm.symm (h : AgreeButVm v s t) : AgreeButVm v t s :=
  ⟨fun id hid => (h.flowst id hid.symm).symm, fun w hw => (h.appctx w hw).symm⟩

theorem AgreeButVm.trans {u : FpState} (h : AgreeButVm v s t) (h' : AgreeButVm v t u) :
    AgreeButVm v s u := by
  refine ⟨fun id hid => ?_, fun w hw => (h.appctx w hw).trans (h'.appctx w hw)⟩
  obtain hid | hid := hid
  · have hst := h.flowst id (.inl hid)
    rw [hst] at hid ⊢
    exact h'.flowst id (.inl hid)
  · have htu := h'.flowst id (.inr hid)
    rw [← htu] at hid ⊢
    exact h.flowst id (.inr hid)

theorem vmId_applied (s : FpState) (p : AtxPoll) (id : U32) :
    ((applied s p).flowst id).vmId = (s.flowst id).vmId := by
  unfold applied
  dsimp only
  by_cases hid : id = p.atx.flowId
  · subst hid
    rw [update_self]
    exact bumpWith_vmId
  · rw [update_of_ne hid]

/-- A confined poll of VM `v` leaves everything of the others. -/
theorem agreeButVm_of_confined (hvm : p.vmId = v) (h : Confined v s p)
    (hs : pollUpdate s p = .done (s', u)) : AgreeButVm v s s' := by
  have hiso := isolated_of_confined h
  by_cases happ : Applies s p
  · rw [pollUpdate_applies happ] at hs hiso
    cases hs
    refine ⟨fun id hid => ?_, fun w hw => ?_⟩
    · rw [vmId_applied, or_self] at hid
      exact (hiso id hid).1.symm
    · rw [← hvm] at hw
      exact (update_of_ne hw ..).symm
  · obtain he | he := pollUpdate_not_applies happ
    · rw [he] at hs
      cases hs
    · rw [he] at hs
      cases hs
      exact agreeButVm_refl v s

/-- Polls of the same entry of another VM keep the agreement. -/
theorem AgreeButVm.other (h : AgreeButVm v s t)
    (hvm : p.vmId ≠ v) (hpq : SameButVm v p q) (hs : pollUpdate s p = .done (s', u))
    (ht : pollUpdate t q = .done (t', u')) : AgreeButVm v s' t' := by
  obtain ⟨hvmId, hctxId, hatx⟩ := hpq
  have hatx := hatx hvm
  have hactx := h.appctx p.vmId hvm
  have hiff : Applies s p ↔ Applies t q := by
    unfold Applies
    rw [hactx, hvmId, hctxId, hatx]
  by_cases happ : Applies s p
  · rw [pollUpdate_applies happ] at hs
    rw [pollUpdate_applies (hiff.1 happ)] at ht
    cases hs
    cases ht
    refine ⟨fun id hid => ?_, fun w hw => ?_⟩
    · rw [vmId_applied, vmId_applied] at hid
      have hsame := h.flowst id hid
      unfold applied
      dsimp only
      rw [← hatx]
      by_cases hflow : id = p.atx.flowId
      · subst hflow
        rw [update_self, update_self, hsame]
        exact bumpWith_fst ..
      · rw [update_of_ne hflow, update_of_ne hflow]
        exact hsame
    · unfold applied
      dsimp only
      rw [← hvmId, ← hctxId, ← hactx]
      by_cases hself : w = p.vmId
      · subst hself
        rw [update_self, update_self]
      · rw [update_of_ne hself, update_of_ne hself]
        exact h.appctx w hw
  · obtain he | he := pollUpdate_not_applies happ
    · rw [he] at hs
      cases hs
    · rw [he] at hs
      cases hs
      obtain he' | he' := pollUpdate_not_applies fun ht' => happ (hiff.2 ht')
      · rw [he'] at ht
        cases ht
      · rw [he'] at ht
        cases ht
        exact h

theorem AgreeButVm.step (h : AgreeButVm v s t) (hpq : SameButVm v p q)
    (hp : p.vmId = v → Confined v s p) (hq : q.vmId = v → Confined v t q)
    (hs : pollUpdate s p = .done (s', u)) (ht : pollUpdate t q = .done (t', u')) :
    AgreeButVm v s' t' := by
  by_cases hvm : p.vmId = v
  · have hvm' : q.vmId = v := hpq.1.symm.trans hvm
    have hleft := agreeButVm_of_confined hvm (hp hvm) hs
    have hright := agreeButVm_of_confined hvm' (hq hvm') ht
    exact hleft.symm.trans (h.trans hright)
  · exact h.other hvm hpq hs ht

theorem AgreeButVm.run {qs : List AtxPoll} (hsame : List.Forall₂ (SameButVm v) ps qs)
    (h : AgreeButVm v s t) (hps : ConfinedRun v s ps) (hqs : ConfinedRun v t qs)
    (hs : runPolls s ps = .done s') (ht : runPolls t qs = .done t') : AgreeButVm v s' t' := by
  induction hsame generalizing s t with
  | nil =>
    cases hs
    cases ht
    exact h
  | @cons p q ps qs hpq _ ih =>
    unfold runPolls at hs ht
    cases hsp : pollUpdate s p with
    | abort =>
      rw [hsp] at hs
      cases hs
    | done r =>
      cases htq : pollUpdate t q with
      | abort =>
        rw [htq] at ht
        cases ht
      | done r' =>
        rw [hsp] at hs
        rw [htq] at ht
        have hstep := h.step hpq hps.1 hqs.1 hsp htq
        exact ih hstep (hps.2 r.1 r.2 hsp) (hqs.2 r'.1 r'.2 htq) hs ht

theorem runPolls_vmId (hs : runPolls s ps = .done s') :
    (s'.flowst id).vmId = (s.flowst id).vmId := by
  induction ps generalizing s with
  | nil =>
    cases hs
    rfl
  | cons p ps ih =>
    unfold runPolls at hs
    by_cases happ : Applies s p
    · rw [pollUpdate_applies happ] at hs
      exact (ih hs).trans (vmId_applied s p id)
    · obtain he | he := pollUpdate_not_applies happ
      · rw [he] at hs
        cases hs
      · rw [he] at hs
        exact ih hs

/-- A poll of VM `v` is isolated exactly if it is confined. Hence two runs from the same state
whose polls of VM `v` are confined, and that differ only in what it wrote, leave the flows of the
other VMs equal. -/
theorem guest_updates_isolated (v : U16) :
    (∀ s p, p.vmId = v → (Isolated v s (pollUpdate s p) ↔ Confined v s p)) ∧
      ∀ s s₁ s₂ ps qs, List.Forall₂ (SameButVm v) ps qs → ConfinedRun v s ps →
        ConfinedRun v s qs → runPolls s ps = .done s₁ → runPolls s qs = .done s₂ →
        ∀ id, (s.flowst id).vmId ≠ v → s₁.flowst id = s₂.flowst id := by
  refine ⟨fun s p _ => ⟨confined_of_isolated, isolated_of_confined⟩, ?_⟩
  intro s s₁ s₂ ps qs hsame hps hqs hs₁ hs₂ id hid
  have hagree := (agreeButVm_refl v s).run hsame hps hqs hs₁ hs₂
  refine hagree.flowst id (.inl ?_)
  rwa [runPolls_vmId hs₁]

/-- All flows belong to VM zero and have room in their buffers. -/
def victimState : FpState where
  flowst _ := { (default : FlowState) with txLen := 16, rxRemoteAvail := 16 }
  appctx _ _ := { (default : Appctx) with txLen := 64 }

/-- Ten bytes to send for flow five. -/
def tenBytes : AtxEntry :=
  ⟨atxConnupdate, 5, { rxBump := 0, txBump := 10, bumpSeq := 0, flags := 0 }⟩

/-- The entry in a queue of a VM. -/
def tenBytesFrom (vm : U16) : AtxPoll := ⟨vm, 0, tenBytes, fun _ => default, false, 0⟩

/-- Flow five belongs to VM one. -/
def sharedState : FpState :=
  { victimState with
    flowst := update victimState.flowst 5 { victimState.flowst 5 with vmId := 1 } }

/-- The queue of the VM is empty. -/
def nothingFrom (vm : U16) : AtxPoll := { tenBytesFrom vm with atx := { tenBytes with type := 0 } }

theorem sharedState_isolated :
    Isolated 1 sharedState (pollUpdate sharedState (tenBytesFrom 1)) ∧
      ∃ s₁ s₂, runPolls sharedState [tenBytesFrom 1] = .done s₁ ∧
        runPolls sharedState [nothingFrom 1] = .done s₂ ∧ s₁.flowst 6 = s₂.flowst 6 := by
  have hown : Confined 1 sharedState (tenBytesFrom 1) := .inr (.inr (.inr (.inl rfl)))
  have hnothing : Confined 1 sharedState (nothingFrom 1) := .inr (.inl (by decide))
  have hsame : SameButVm 1 (tenBytesFrom 1) (nothingFrom 1) :=
    ⟨rfl, rfl, fun hne => (hne rfl).elim⟩
  have hiff := (guest_updates_isolated 1).1 sharedState (tenBytesFrom 1) rfl
  refine ⟨hiff.2 hown, _, _, rfl, rfl, ?_⟩
  refine (guest_updates_isolated 1).2 sharedState _ _ [tenBytesFrom 1] [nothingFrom 1]
    (.cons hsame .nil) ⟨fun _ => hown, fun _ _ _ => trivial⟩
    ⟨fun _ => hnothing, fun _ _ _ => trivial⟩ rfl rfl 6 (by decide)

/-- An update in a queue of VM one is applied to a flow of VM zero, which is then scheduled. -/
theorem forged_update_applied :
    ∃ s' u, pollUpdate victimState (tenBytesFrom 1) = .done (s', some u) ∧
      (victimState.flowst 5).vmId ≠ 1 ∧ (victimState.flowst 5).txAvail = 0 ∧
      (s'.flowst 5).txAvail = 10 ∧ u.out.qset.map QmanSet.flowId = some 5 := by
  refine ⟨_, _, rfl, ?_⟩
  decide +kernel

end Tas
