import Tas.FlowViews
import Tas.QmanRun

/-! Scheduling of transmissions over all cores: what a flow may send is held by the queue manager
of some core, or the flow is on its way to another core. -/
namespace Tas

open Outcome List Function

variable {fs fs' : FlowState} {f g id : U32} {q : Option QmanSet} {fuel : ℕ} {ts v : U32}
  {a : FlowParams} {env : FpEnv} {txbuf : ℕ → Byte}

/-! ### Cores -/

/-- What of a core's `dataplane_context` takes part in scheduling. -/
structure SchedCore where
  qman : QmanThread
  /-- Flows in `qman_fwd_ring`. -/
  ring : List U32
  /-- Entries that `tas_qman_poll` returned and `fast_flows_qman` was not called for yet. -/
  polled : List QmanEntry

/-- The shared flow states and the cores. -/
structure Sched where
  flows : U32 → FlowState
  cores : U16 → SchedCore
  /-- `flow_group_steering` -/
  steering : U16 → U16

def QmanSet.params (q : QmanSet) : FlowParams := ⟨q.rate, q.avail, q.maxChunk, q.flags⟩

/-- Call `tas_qman_set` if there is a reason to; the callers abort if it fails. -/
def armQueue (fuel : ℕ) (c : SchedCore) : Option QmanSet → Except Fault SchedCore
  | none => .ok c
  | some q => do
    let (t, ret) ← tasQmanSet fuel c.qman q.vmId q.flowId q.params
    if ret ≠ 0 then .error .assertion else .ok { c with qman := t }

namespace Sched

/-- One flow and one core change. -/
def update (s : Sched) (f : U32) (fs : FlowState) (core : U16) (c : SchedCore) : Sched :=
  { s with
    flows := Function.update s.flows f fs
    cores := Function.update s.cores core c }

/-- The VM of a flow, as the queue manager numbers it. -/
def vm (s : Sched) (f : U32) : U32 := (s.flows f).vmId.setWidth 32

variable {s : Sched} {core d : U16} {c : SchedCore}

theorem flows_update_self : (s.update f fs core c).flows f = fs := Function.update_self ..

theorem flows_update_of_ne (h : f ≠ g) : (s.update g fs core c).flows f = s.flows f :=
  Function.update_of_ne h ..

theorem cores_update_self : (s.update f fs core c).cores core = c := Function.update_self ..

theorem cores_update_of_ne (h : d ≠ core) : (s.update f fs core c).cores d = s.cores d :=
  Function.update_of_ne h ..

end Sched

/-- One operation on some core. Operations that hold the flow id in 16 bits carry it. -/
inductive SchedStep (s : Sched) : Option U32 → Sched → Prop
  | bump {c : SchedCore} (fuel : ℕ) (core : U16) (env : FpEnv) (f : U32) (bumpSeq : U16)
      (rxBump txBump : U32) (flags : U8) (ts : U32)
      (harm : armQueue fuel (s.cores core)
        (fastFlowsBump env (s.flows f) f bumpSeq rxBump txBump flags ts).2.qset = .ok c) :
      SchedStep s none
        (s.update f (fastFlowsBump env (s.flows f) f bumpSeq rxBump txBump flags ts).1 core c)
  | packet {c : SchedCore} (fuel : ℕ) (core : U16) (env : FpEnv) (f : U32) (p : RxPacket)
      (spendBudget : Bool) (ts : U32)
      (harm : armQueue fuel (s.cores core)
        (fastFlowsPacket env (s.flows f) f p spendBudget ts).2.qset = .ok c) :
      SchedStep s (some f)
        (s.update f (fastFlowsPacket env (s.flows f) f p spendBudget ts).1 core c)
  | retransmit {c : SchedCore} (fuel : ℕ) (core : U16) (f : U32)
      (harm : armQueue fuel (s.cores core) (fastFlowsRetransmit (s.flows f) f).2 = .ok c) :
      SchedStep s none (s.update f (fastFlowsRetransmit (s.flows f) f).1 core c)
  | poll {r : VmPoll} (fuel : ℕ) (core : U16) (env : PollEnv) (num : ℕ) (vmCounters : U32 → ℤ)
      (countersTotal : ℤ)
      (hpoll : tasQmanPoll fuel env num (s.cores core).qman vmCounters countersTotal = .ok r) :
      SchedStep s none { s with cores := Function.update s.cores core { s.cores core with
        qman := r.toQmanThread
        polled := (s.cores core).polled ++ r.out } }
  | send {fs : FlowState} {out : QmanOut} {e : QmanEntry} {rest : List QmanEntry} (core : U16)
      (env : FpEnv) (txbuf : ℕ → Byte) (ts : U32) (hpolled : (s.cores core).polled = e :: rest)
      (hsend : fastFlowsQman env core (s.steering (s.flows e.qId).flowGroup) (s.flows e.qId)
        txbuf ts = (fs, out)) (hstay : ∀ n, out ≠ .forward n) :
      SchedStep s none (s.update e.qId fs core { s.cores core with polled := rest })
  | forward {fs : FlowState} {n : U16} {e : QmanEntry} {rest : List QmanEntry} {c : SchedCore}
      (fuel : ℕ) (core : U16) (env : FpEnv) (txbuf : ℕ → Byte) (ts : U32)
      (hpolled : (s.cores core).polled = e :: rest)
      (hsend : fastFlowsQman env core (s.steering (s.flows e.qId).flowGroup) (s.flows e.qId)
        txbuf ts = (fs, .forward n))
      (harm : armQueue fuel { s.cores core with polled := rest }
        (some (qmanClear e.vmId e.qId)) = .ok c) :
      SchedStep s none { s.update e.qId fs core c with
        cores := Function.update (Function.update s.cores core c) n
          { s.cores n with ring := (s.cores n).ring ++ [e.qId] } }
  | qmanFwd {c : SchedCore} {f : U32} {rest : List U32} (fuel : ℕ) (core : U16)
      (hring : (s.cores core).ring = f :: rest)
      (harm : armQueue fuel { s.cores core with ring := rest }
        (some (fastFlowsQmanFwd (s.flows f) f)) = .ok c) :
      SchedStep s (some f) (s.update f (s.flows f) core c)
  | steer (steering : U16 → U16) : SchedStep s none { s with steering := steering }

/-! ### The queues of a core -/

namespace SchedCore

/-- Bytes the core's queue manager holds for a flow. -/
def avail (c : SchedCore) (v f : U32) : ℕ := ((c.qman.vqman.queues v).fqman.queues f).avail.toNat

def maxChunk (c : SchedCore) (v f : U32) : ℕ :=
  ((c.qman.vqman.queues v).fqman.queues f).maxChunk.toNat

/-- Entries of a flow that are still to be sent. -/
def outstanding (c : SchedCore) (v f : U32) : ℕ :=
  c.polled.countP fun e => e.vmId = v ∧ e.qId = f

end SchedCore

/-- The queue named by the call has its parameters, and nothing else changed. -/
structure Armed (c c' : SchedCore) (q : Option QmanSet) : Prop where
  ok : c'.qman.vqman.Ok
  ring : c'.ring = c.ring
  polled : c'.polled = c.polled
  self : ∀ x, q = some x → x.flags = qmanSetRate ||| qmanSetMaxchunk ||| qmanSetAvail →
    c'.avail x.vmId x.flowId = x.avail.toNat ∧ c'.maxChunk x.vmId x.flowId = x.maxChunk.toNat
  others : ∀ v f, (∀ x, q = some x → x.vmId = v → x.flowId ≠ f) →
    c'.avail v f = c.avail v f ∧ c'.maxChunk v f = c.maxChunk v f

/-- A call that succeeds was made for an existing VM and flow. -/
theorem tasQmanSet_valid {t t' : QmanThread} (h : tasQmanSet fuel t v f a = .ok (t', 0)) :
    IsVm v ∧ IsFlow f := by
  unfold tasQmanSet vmQmanSet at h
  by_cases hv : v.toNat ≥ flexnicPlVmstNum
  · rw [if_pos hv] at h
    cases h
  · rw [if_neg hv] at h
    refine ⟨not_le.1 hv, ?_⟩
    by_contra hf
    cases hm : vmSetImpl t.vqman v f a with
    | error e =>
      rw [hm] at h
      cases h
    | ok m =>
      rw [hm] at h
      have hflow : flowQmanSet fuel ⟨m.queues v, t.rng, t.trace⟩ f a =
          .ok (⟨m.queues v, t.rng, t.trace⟩, -1) := if_pos (not_lt.1 hf)
      change (flowQmanSet fuel ⟨m.queues v, t.rng, t.trace⟩ f a >>= _) = _ at h
      rw [hflow] at h
      cases h

theorem apply_all (q : FlowQueue) (h : a.flags = qmanSetRate ||| qmanSetMaxchunk ||| qmanSetAvail) :
    (q.apply a).avail = a.avail ∧ (q.apply a).maxChunk = a.maxChunk := by
  have hset : a.flags &&& qmanSetAvail ≠ 0 ∧ a.flags &&& qmanSetMaxchunk ≠ 0 := by
    rw [h]
    decide
  exact ⟨if_pos hset.1, if_pos hset.2⟩

theorem armQueue_spec {c c' : SchedCore} (hok : c.qman.vqman.Ok) (h : armQueue fuel c q = .ok c') :
    Armed c c' q := by
  cases q with
  | none =>
    cases h
    exact ⟨hok, rfl, rfl, by simp, fun _ _ _ => ⟨rfl, rfl⟩⟩
  | some x =>
    change (tasQmanSet fuel c.qman x.vmId x.flowId x.params >>= _) = _ at h
    cases hset : tasQmanSet fuel c.qman x.vmId x.flowId x.params with
    | error e =>
      rw [hset] at h
      cases h
    | ok r =>
      obtain ⟨t, ret⟩ := r
      rw [hset] at h
      change (if ret ≠ 0 then _ else _) = _ at h
      by_cases hret : ret = 0
      · subst hret
        rw [if_neg (not_not.2 rfl)] at h
        cases h
        obtain ⟨hv, hf⟩ := tasQmanSet_valid hset
        obtain ⟨-, hwritten⟩ := (tasQmanSet_spec hok hv hf).of_ok hset
        refine ⟨hwritten.ok, rfl, rfl, ?_, fun v f hne => ?_⟩
        · rintro y hy hflags
          cases hy
          have hself := hwritten.flow.self
          have hall := apply_all ((c.qman.vqman.queues x.vmId).fqman.queues x.flowId)
            (show x.params.flags = _ from hflags)
          rw [hall.1, hall.2] at hself
          exact ⟨congrArg BitVec.toNat hself.1, congrArg BitVec.toNat hself.2⟩
        · by_cases hvm : x.vmId = v
          · subst hvm
            have hother := hwritten.flow.others f (hne x rfl rfl).symm
            exact ⟨congrArg BitVec.toNat hother.1, congrArg BitVec.toNat hother.2⟩
          · have hother : (t.vqman.queues v).fqman = (c.qman.vqman.queues v).fqman :=
              (hwritten.others v (Ne.symm hvm)).1
            unfold SchedCore.avail SchedCore.maxChunk
            dsimp only
            rw [hother]
            exact ⟨rfl, rfl⟩
      · rw [if_pos hret] at h
        cases h

/-! ### What an operation on a flow asks for -/

/-- A flow went from `fs` to `fs'`, and either it cannot send more than before, or the call sets
its queue, under the index `id`, to what it can send. -/
structure Rearms (fs fs' : FlowState) (id : U32) (q : Option QmanSet) : Prop where
  vm : fs'.vmId = fs.vmId
  quiet : q = none → (tcpTxavail fs' none).toNat ≤ (tcpTxavail fs none).toNat
  armed : ∀ x, q = some x → x = qmanRearm fs' id (tcpTxavail fs' none)

/-- The usual test: arm the queue if there is more to send than before. -/
theorem Rearms.of_more (hvm : fs'.vmId = fs.vmId)
    (hq : q = if tcpTxavail fs none < tcpTxavail fs' none then
      some (qmanRearm fs' id (tcpTxavail fs' none)) else none) : Rearms fs fs' id q := by
  subst hq
  by_cases hmore : tcpTxavail fs none < tcpTxavail fs' none
  · rw [if_pos hmore]
    exact ⟨hvm, by simp, fun x hx => (Option.some.inj hx).symm⟩
  · rw [if_neg hmore]
    exact ⟨hvm, fun _ => not_lt.1 hmore, by simp⟩

theorem Rearms.of_same (hvm : fs'.vmId = fs.vmId)
    (hsame : tcpTxavail fs' none = tcpTxavail fs none) : Rearms fs fs' id none :=
  ⟨hvm, fun _ => by rw [hsame], by simp⟩

theorem fastFlowsBump_rearms (bumpSeq : U16) (rxBump txBump : U32) (flags : U8) :
    Rearms fs (fastFlowsBump env fs f bumpSeq rxBump txBump flags ts).1 f
      (fastFlowsBump env fs f bumpSeq rxBump txBump flags ts).2.qset := by
  by_cases h : BumpOk fs bumpSeq rxBump txBump flags
  · obtain ⟨hseq, hclose, htx, hrx⟩ := h
    have hstate : ∀ closes, (bumpState fs bumpSeq rxBump (bumpTxBytes fs txBump) closes).vmId =
          fs.vmId ∧
        tcpTxavail (bumpState fs bumpSeq rxBump (bumpTxBytes fs txBump) closes) none =
          tcpTxavail fs (some (fs.txAvail + bumpTxBytes fs txBump)) := by
      intro closes
      cases closes <;> exact ⟨rfl, rfl⟩
    unfold fastFlowsBump
    rw [if_neg (by simp [hseq]), if_neg hclose, if_neg (not_not.2 htx), if_neg (not_not.2 hrx)]
    refine .of_more (hstate _).1 ?_
    rw [(hstate _).2]
  · rcases @fastFlowsBump_not_ok env fs ts f rxBump txBump bumpSeq flags h with he | he
    all_goals
      rw [he]
      exact .of_same rfl rfl

theorem fastFlowsPacket_rearms (p : RxPacket) (spendBudget : Bool) :
    Rearms fs (fastFlowsPacket env fs f p spendBudget ts).1 (cutId f)
      (fastFlowsPacket env fs f p spendBudget ts).2.qset := by
  have hvm : (fastFlowsPacket env fs f p spendBudget ts).1.vmId = fs.vmId :=
    congrArg KeptView.vmId fastFlowsPacket_kept
  by_cases h : Processed env fs p spendBudget
  · rw [fastFlowsPacket_processed h] at hvm ⊢
    exact .of_more hvm rfl
  · obtain ⟨ret, counted, he | he⟩ := @fastFlowsPacket_not_processed env fs p ts f spendBudget h
    all_goals
      rw [he]
      exact .of_same rfl rfl

theorem fastFlowsRetransmit_rearms :
    Rearms fs (fastFlowsRetransmit fs f).1 f (fastFlowsRetransmit fs f).2 := by
  unfold fastFlowsRetransmit
  by_cases hsent : fs.txSent = 0
  · rw [if_pos hsent]
    exact .of_same rfl rfl
  · rw [if_neg hsent]
    exact .of_more rfl rfl

/-- A segment is as long as what can be sent, up to the segment size. -/
theorem fastFlowsQman_txavail {core : U16} :
    (tcpTxavail (fastFlowsQman env core core fs txbuf ts).1 none).toNat =
      (tcpTxavail fs none).toNat - 1400 := by
  unfold fastFlowsQman
  rw [if_neg (not_not.2 rfl)]
  by_cases hidle : tcpTxavail fs none = 0
  · rw [if_pos hidle, hidle]
    rfl
  rw [if_neg hidle]
  have hpos : 0 < (tcpTxavail fs none).toNat :=
    Nat.pos_of_ne_zero fun he => hidle (BitVec.eq_of_toNat_eq he)
  have hlen : (qmanLen fs).toNat = min 1400 (tcpTxavail fs none).toNat := by
    have hmss : tcpMss.toNat = 1400 := rfl
    unfold qmanLen
    dsimp only
    by_cases hlt : tcpMss < tcpTxavail fs none
    · rw [if_pos hlt]
      rw [BitVec.lt_def] at hlt
      omega
    · rw [if_neg hlt]
      rw [BitVec.lt_def] at hlt
      omega
  have hold := toNat_tcpTxavail fs none
  have hnew := toNat_tcpTxavail (txAdvance fs (qmanLen fs)) none
  have hremote := fs.rxRemoteAvail.isLt
  change _ = min fs.txAvail.toNat (fs.rxRemoteAvail.toNat - fs.txSent.toNat) at hold
  change _ = min (fs.txAvail - qmanLen fs).toNat
    (fs.rxRemoteAvail.toNat - (fs.txSent + qmanLen fs).toNat) at hnew
  rw [Word.toNat_sub_of_le (by omega), Word.toNat_add_of_lt (by omega)] at hnew
  change (tcpTxavail (txAdvance fs (qmanLen fs)) none).toNat = _
  omega

/-! ### The invariant -/

/-- The flow waits in the ring of the core, or its queue manager holds the bytes that the flow can
send, where an entry that was polled counts for one segment. -/
def SchedCore.Serves (c : SchedCore) (v f : U32) (bytes : ℕ) : Prop :=
  f ∈ c.ring ∨ bytes ≤ c.avail v f + 1400 * c.outstanding v f

/-- Its queues are polled in chunks of one segment at most. -/
structure SchedCore.Ok (c : SchedCore) : Prop where
  qman : c.qman.vqman.Ok
  chunk : ∀ v f, c.maxChunk v f ≤ 1400

/-- Some core serves what the flow can send. -/
def Sched.Covered (s : Sched) (f : U32) : Prop :=
  ∃ c, (s.cores c).Serves (s.vm f) f (tcpTxavail (s.flows f) none).toNat

structure SchedInv (s : Sched) : Prop where
  cores : ∀ c, (s.cores c).Ok
  covered : ∀ f, f.toNat < 65536 → s.Covered f

/-- The 16-bit flow id does not name the queue of another flow of the same VM. -/
def Sched.Apart (s : Sched) (f : U32) : Prop := cutId f = f ∨ s.vm f ≠ s.vm (cutId f)

variable {s s' : Sched} {core : U16} {c : SchedCore} {e : QmanEntry} {rest : List QmanEntry}

theorem vm_update (hvm : fs'.vmId = (s.flows g).vmId) (f : U32) :
    (s.update g fs' core c).vm f = s.vm f := by
  unfold Sched.vm Sched.update
  by_cases hf : f = g
  · subst hf
    simp [hvm]
  · simp [hf]

/-- A flow that cannot send more stays covered if the core that changed goes on to serve it. -/
theorem Sched.Covered.update (h : s.Covered f) (hvm : s'.vm f = s.vm f)
    (hcores : s'.cores = Function.update s.cores core c)
    (havail : (tcpTxavail (s'.flows f) none).toNat ≤ (tcpTxavail (s.flows f) none).toNat)
    (hcore : (s.cores core).Serves (s.vm f) f (tcpTxavail (s.flows f) none).toNat →
      c.Serves (s.vm f) f (tcpTxavail (s'.flows f) none).toNat) : s'.Covered f := by
  obtain ⟨d, hd⟩ := h
  refine ⟨d, ?_⟩
  rw [hvm, hcores]
  by_cases hdc : d = core
  · subst hdc
    rw [update_self]
    exact hcore hd
  · rw [update_of_ne hdc]
    exact hd.imp_right havail.trans

/-- What the update of one core leaves of the others. -/
theorem cores_update {P : SchedCore → Prop} (hc : P c) (hs : ∀ d, P (s.cores d)) (d : U16) :
    P (update s.cores core c d) :=
  (forall_update_iff s.cores fun _ => P).2 ⟨hc, fun d _ => hs d⟩ d

/-- Queues are armed with chunks of one segment at most. -/
theorem Armed.coreOk {c c' : SchedCore} (h : Armed c c' q)
    (hq : ∀ x, q = some x → x.flags = qmanSetRate ||| qmanSetMaxchunk ||| qmanSetAvail ∧
      x.maxChunk.toNat ≤ 1400) (hc : c.Ok) : c'.Ok := by
  refine ⟨h.ok, fun v f => ?_⟩
  by_cases hself : ∃ x, q = some x ∧ x.vmId = v ∧ x.flowId = f
  · obtain ⟨x, hx, rfl, rfl⟩ := hself
    rw [(h.self x hx (hq x hx).1).2]
    exact (hq x hx).2
  · rw [(h.others v f fun x hx hv hf => hself ⟨x, hx, hv, hf⟩).2]
    exact hc.chunk v f

/-- A core serves a flow as before if its queue was not armed. -/
theorem Armed.serves {c c' : SchedCore} {n : ℕ} (h : Armed c c' q)
    (hne : ∀ x, q = some x → x.vmId = v → x.flowId ≠ f) (hc : c.Serves v f n) :
    c'.Serves v f n := by
  unfold SchedCore.Serves SchedCore.outstanding
  rw [h.ring, h.polled, (h.others v f hne).1]
  exact hc

/-- An operation on the flow `g` that arms its queue as it should, under the index `id`. -/
theorem SchedInv.operate {ring : List U32} (h : SchedInv s) (hrearms : Rearms (s.flows g) fs' id q)
    (hid : id = g ∨ id = cutId g) (hapart : id = g ∨ s.Apart g)
    (hring : ∀ f, f ∈ (s.cores core).ring → f ∈ ring ∨ f = g ∧ q ≠ none)
    (harm : armQueue fuel { s.cores core with ring := ring } q = .ok c) :
    SchedInv (s.update g fs' core c) := by
  have hcore : SchedCore.Ok { s.cores core with ring := ring } :=
    ⟨(h.cores core).1, (h.cores core).2⟩
  have harmed := armQueue_spec hcore.qman harm
  have hrearm : ∀ x, q = some x → x = qmanRearm fs' id (tcpTxavail fs' none) := hrearms.armed
  refine ⟨cores_update (harmed.coreOk ?_ hcore) h.cores, fun f hf => ?_⟩
  · intro x hx
    rw [hrearm x hx]
    exact ⟨rfl, le_rfl⟩
  have hvm : (s.update g fs' core c).vm f = s.vm f := vm_update hrearms.vm f
  by_cases harms : f = g ∧ q ≠ none
  · -- the flow's own queue is set to what it can send
    obtain ⟨rfl, hq⟩ := harms
    obtain ⟨x, hx⟩ := Option.ne_none_iff_exists'.1 hq
    have hidf : id = f := by
      obtain rfl | rfl := hid
      · rfl
      · exact cutId_of_lt hf
    have hself := (harmed.self x hx (by rw [hrearm x hx]; rfl)).1
    have hxvm : x.vmId = s.vm f := by
      rw [hrearm x hx]
      exact congrArg (BitVec.setWidth 32) hrearms.vm
    have hxid : x.flowId = f := by
      rw [hrearm x hx]
      exact hidf
    have hxavail : x.avail = tcpTxavail fs' none := by
      rw [hrearm x hx]
      rfl
    rw [hxvm, hxid, hxavail] at hself
    refine ⟨core, .inr ?_⟩
    rw [Sched.flows_update_self, Sched.cores_update_self, hvm, hself]
    exact Nat.le_add_right _ _
  · have hother : ∀ x, q = some x → x.vmId = s.vm f → x.flowId ≠ f := by
      intro x hx hxvm hxid
      rw [hrearm x hx] at hxvm hxid
      have hxvm : s.vm g = s.vm f := by
        rw [← hxvm]
        exact congrArg (BitVec.setWidth 32) hrearms.vm.symm
      have hxid : id = f := hxid
      have hne : f ≠ g := fun he => harms ⟨he, by simp [hx]⟩
      obtain heq | hcut | hvms := hapart
      · exact hne (hxid.symm.trans heq)
      · obtain heq | heq := hid
        · exact hne (hxid.symm.trans heq)
        · exact hne (hxid.symm.trans (heq.trans hcut))
      · obtain heq | heq := hid
        · exact hne (hxid.symm.trans heq)
        · rw [← heq, hxid] at hvms
          exact hvms hxvm
    have hle : (tcpTxavail ((s.update g fs' core c).flows f) none).toNat ≤
        (tcpTxavail (s.flows f) none).toNat := by
      by_cases hfg : f = g
      · subst hfg
        rw [Sched.flows_update_self]
        exact hrearms.quiet (not_not.1 fun hq => harms ⟨rfl, hq⟩)
      · rw [Sched.flows_update_of_ne hfg]
    exact (h.covered f hf).update hvm rfl hle fun hd => harmed.serves hother
      (hd.imp (fun hr => (hring f hr).resolve_right harms) hle.trans)

/-- The entries of a poll stand for what it took off the queue. -/
theorem spentOf_le {es : List QmanEntry} (h : ∀ e ∈ es, e.vmId = v → e.qId = f →
    e.bytes.toNat ≤ 1400) :
    spentOf v f es ≤ 1400 * es.countP fun e => e.vmId = v ∧ e.qId = f := by
  unfold spentOf
  rw [countP_eq_length_filter, Nat.mul_comm]
  refine (sum_le_card_nsmul _ 1400 fun n hn => ?_).trans (by simp)
  obtain ⟨e, he, rfl⟩ := mem_map.1 hn
  obtain ⟨hmem, hkey⟩ := mem_filter.1 he
  have hkey : e.vmId = v ∧ e.qId = f := by simpa using hkey
  exact h e hmem hkey.1 hkey.2

theorem SchedInv.poll {r : VmPoll} {env : PollEnv} {num : ℕ} {vmCounters : U32 → ℤ}
    {countersTotal : ℤ} (h : SchedInv s)
    (hpoll : tasQmanPoll fuel env num (s.cores core).qman vmCounters countersTotal = .ok r) :
    SchedInv { s with cores := Function.update s.cores core { s.cores core with
      qman := r.toQmanThread
      polled := (s.cores core).polled ++ r.out } } := by
  obtain ⟨vl, hinv⟩ := (tasQmanPoll_spec (h.cores core).qman vmCounters countersTotal).of_ok hpoll
  set c : SchedCore := { s.cores core with
    qman := r.toQmanThread
    polled := (s.cores core).polled ++ r.out } with hc
  have hchunk : ∀ v f, c.maxChunk v f = (s.cores core).maxChunk v f := fun v f =>
    congrArg BitVec.toNat (hinv.chunk v f)
  refine ⟨cores_update ⟨hinv.to_ok, fun v f => ?_⟩ h.cores, fun f hf => ?_⟩
  · rw [hchunk]
    exact (h.cores core).chunk v f
  · refine (h.covered f hf).update rfl rfl le_rfl (Or.imp_right fun hd => ?_)
    have hspent : c.avail (s.vm f) f + spentOf (s.vm f) f r.out =
        (s.cores core).avail (s.vm f) f := hinv.spent (s.vm f) f
    have hle : spentOf (s.vm f) f r.out ≤
        1400 * r.out.countP fun e => e.vmId = s.vm f ∧ e.qId = f := by
      refine spentOf_le fun e he hv hid => ?_
      have hbytes := (hinv.entry e he).2.2
      rw [BitVec.le_def] at hbytes
      exact hbytes.trans ((h.cores core).chunk e.vmId e.qId)
    have hout : c.outstanding (s.vm f) f = (s.cores core).outstanding (s.vm f) f +
        r.out.countP fun e => e.vmId = s.vm f ∧ e.qId = f := countP_append ..
    rw [hout]
    change (tcpTxavail (s.flows f) none).toNat ≤ _
    omega

/-- An entry for the flow itself, or for another one, is taken off. -/
theorem outstanding_cons (hpolled : (s.cores core).polled = e :: rest) (v f : U32) :
    (s.cores core).outstanding v f =
      SchedCore.outstanding { s.cores core with polled := rest } v f +
        if e.vmId = v ∧ e.qId = f then 1 else 0 := by
  unfold SchedCore.outstanding
  rw [hpolled, countP_cons]
  simp

theorem SchedInv.send {out : QmanOut} (h : SchedInv s) (hpolled : (s.cores core).polled = e :: rest)
    (hsend : fastFlowsQman env core (s.steering (s.flows e.qId).flowGroup) (s.flows e.qId)
      txbuf ts = (fs', out)) (hstay : ∀ n, out ≠ .forward n) :
    SchedInv (s.update e.qId fs' core { s.cores core with polled := rest }) := by
  have hfs : (fastFlowsQman env core (s.steering (s.flows e.qId).flowGroup) (s.flows e.qId)
      txbuf ts).1 = fs' := by rw [hsend]
  have hvm : fs'.vmId = (s.flows e.qId).vmId := by
    rw [← hfs]
    exact fastFlowsQman_txOnly.view (v := FlowState.vmId)
  have hcore : s.steering (s.flows e.qId).flowGroup = core := by
    by_contra hne
    unfold fastFlowsQman at hsend
    rw [if_pos hne] at hsend
    exact hstay _ (Prod.mk.inj hsend).2.symm
  have hsent : (tcpTxavail fs' none).toNat = (tcpTxavail (s.flows e.qId) none).toNat - 1400 := by
    rw [← hfs, hcore]
    exact fastFlowsQman_txavail
  refine ⟨cores_update ⟨(h.cores core).1, (h.cores core).2⟩ h.cores, fun f hf => ?_⟩
  have hcount := outstanding_cons hpolled (s.vm f) f
  have hkeep : SchedCore.avail { s.cores core with polled := rest } (s.vm f) f =
      (s.cores core).avail (s.vm f) f := rfl
  by_cases hfe : f = e.qId
  · subst hfe
    refine (h.covered e.qId hf).update (vm_update hvm _) rfl ?_ (Or.imp_right fun hd => ?_)
    · rw [Sched.flows_update_self, hsent]
      exact Nat.sub_le _ _
    · rw [Sched.flows_update_self, hsent]
      split_ifs at hcount <;> omega
  · have hflow : (s.update e.qId fs' core { s.cores core with polled := rest }).flows f =
        s.flows f := Sched.flows_update_of_ne hfe
    rw [if_neg fun hc => hfe hc.2.symm] at hcount
    refine (h.covered f hf).update (vm_update hvm f) rfl (by rw [hflow]) (Or.imp_right fun hd => ?_)
    rw [hflow]
    omega

theorem SchedInv.forward {n : U16} (h : SchedInv s) (hpolled : (s.cores core).polled = e :: rest)
    (hsend : fastFlowsQman env core (s.steering (s.flows e.qId).flowGroup) (s.flows e.qId)
      txbuf ts = (fs', .forward n)) (harm : armQueue fuel { s.cores core with polled := rest }
      (some (qmanClear e.vmId e.qId)) = .ok c) :
    SchedInv { s.update e.qId fs' core c with
      cores := Function.update (Function.update s.cores core c) n
        { s.cores n with ring := (s.cores n).ring ++ [e.qId] } } := by
  have hcore : SchedCore.Ok { s.cores core with polled := rest } :=
    ⟨(h.cores core).1, (h.cores core).2⟩
  have harmed := armQueue_spec hcore.qman harm
  have hfs : fs' = s.flows e.qId ∧ n ≠ core := by
    unfold fastFlowsQman at hsend
    split_ifs at hsend with hmoved
    · obtain ⟨rfl, hn⟩ := Prod.mk.inj hsend
      rw [← QmanOut.forward.inj hn]
      exact ⟨rfl, hmoved⟩
    all_goals exact absurd (Prod.mk.inj hsend).2 (by simp)
  obtain ⟨rfl, hn⟩ := hfs
  have hsn : (s.update e.qId (s.flows e.qId) core c).cores n = s.cores n :=
    Sched.cores_update_of_ne hn
  have hc : c.Ok := harmed.coreOk
    (fun x hx => by rw [← Option.some.inj hx]; exact ⟨rfl, Nat.zero_le _⟩) hcore
  refine ⟨(forall_update_iff _ fun _ => SchedCore.Ok).2
    ⟨⟨(h.cores n).1, (h.cores n).2⟩, fun d _ => cores_update hc h.cores d⟩, fun f hf => ?_⟩
  by_cases hfe : f = e.qId
  · refine ⟨n, .inl ?_⟩
    dsimp only
    rw [update_self, hfe]
    simp
  have hflow : (s.update e.qId (s.flows e.qId) core c).flows f = s.flows f :=
    Sched.flows_update_of_ne hfe
  have hcount := outstanding_cons hpolled (s.vm f) f
  rw [if_neg fun hc => hfe hc.2.symm] at hcount
  have hmid : (s.update e.qId (s.flows e.qId) core c).Covered f := by
    refine (h.covered f hf).update (vm_update rfl f) rfl (by rw [hflow]) fun hd => ?_
    rw [hflow]
    refine harmed.serves (fun x hx _ hid => ?_) (hd.imp_right fun hd => ?_)
    · rw [← Option.some.inj hx] at hid
      exact hfe hid.symm
    · rw [hcount] at hd
      exact hd
  refine hmid.update rfl rfl le_rfl fun hd => ?_
  rw [hsn] at hd
  exact hd.imp_left (mem_append_left _)

/-- Arming the queue of a flow that does not change. -/
theorem fastFlowsQmanFwd_rearms : Rearms fs fs (cutId f) (some (fastFlowsQmanFwd fs f)) :=
  ⟨rfl, by simp, fun _ hx => (Option.some.inj hx).symm⟩

/-- A step of a run in which no 16-bit flow id names another flow's queue. -/
def ApartStep (s s' : Sched) : Prop := ∃ cut, SchedStep s cut s' ∧ ∀ f, cut = some f → s.Apart f

theorem schedInv_step (h : SchedInv s) (hs : ApartStep s s') : SchedInv s' := by
  obtain ⟨cut, hs, hapart⟩ := hs
  cases hs with
  | bump fuel core env f bumpSeq rxBump txBump flags ts harm =>
    exact h.operate (fastFlowsBump_rearms ..) (Or.inl rfl) (Or.inl rfl) (fun _ hf => Or.inl hf) harm
  | packet fuel core env f p spendBudget ts harm =>
    exact h.operate (fastFlowsPacket_rearms ..) (Or.inr rfl) (Or.inr (hapart f rfl))
      (fun _ hf => Or.inl hf) harm
  | retransmit fuel core f harm =>
    exact h.operate fastFlowsRetransmit_rearms (Or.inl rfl) (Or.inl rfl)
      (fun _ hf => Or.inl hf) harm
  | poll fuel core env num vmCounters countersTotal hpoll => exact h.poll hpoll
  | send core env txbuf ts hpolled hsend hstay => exact h.send hpolled hsend hstay
  | forward fuel core env txbuf ts hpolled hsend harm => exact h.forward hpolled hsend harm
  | @qmanFwd c f rest fuel core hring harm =>
    refine h.operate fastFlowsQmanFwd_rearms (Or.inr rfl) (Or.inr (hapart f rfl))
      (fun g hg => ?_) harm
    rw [hring] at hg
    obtain rfl | hg := mem_cons.1 hg
    · exact Or.inr ⟨rfl, by simp⟩
    · exact Or.inl hg
  | steer steering => exact ⟨h.cores, h.covered⟩

/-- All flows are idle and all queue managers were just initialised. -/
structure SchedStart (s : Sched) : Prop where
  idle : ∀ f, tcpTxavail (s.flows f) none = 0
  qman : ∀ c, QmanStart (s.cores c).qman

theorem schedInv_start (h : SchedStart s) : SchedInv s := by
  refine ⟨fun c => ⟨(qmanInv_start (h.qman c)).ok, fun v f => ?_⟩, fun f _ => ?_⟩
  · obtain ⟨timestamp, nolimitFirst, rng, hq⟩ := h.qman c
    unfold SchedCore.maxChunk
    rw [hq]
    exact Nat.zero_le _
  · refine ⟨0, .inr ?_⟩
    rw [h.idle f]
    exact Nat.zero_le _

theorem schedInv_of_reachable {s₀ : Sched} (h₀ : SchedStart s₀)
    (h : Relation.ReflTransGen ApartStep s₀ s) : SchedInv s := by
  induction h with
  | refl => exact schedInv_start h₀
  | tail _ hs ih => exact schedInv_step ih hs

/-- The flow waits in a ring, or some core's queue manager holds what it can send. -/
def Sched.Scheduled (s : Sched) (f : U32) : Prop :=
  (∃ c, f ∈ (s.cores c).ring) ∨
    ∃ c, (tcpTxavail (s.flows f) none).toNat ≤ (s.cores c).avail (s.vm f) f

/-- `fast_flows_qman` was called for all entries of the flow that were polled. -/
def Sched.Settled (s : Sched) (f : U32) : Prop :=
  ∀ c, ∀ e ∈ (s.cores c).polled, e.vmId = s.vm f → e.qId ≠ f

/-- What a flow can send is always scheduled, if the cut flow ids do not mix up two flows. -/
theorem sendable_scheduled {s₀ : Sched} (h₀ : SchedStart s₀)
    (h : Relation.ReflTransGen ApartStep s₀ s) (hf : f.toNat < 65536) (hsettled : s.Settled f) :
    s.Scheduled f := by
  obtain ⟨c, hring | hc⟩ := (schedInv_of_reachable h₀ h).covered f hf
  · exact Or.inl ⟨c, hring⟩
  · refine Or.inr ⟨c, ?_⟩
    have hnone : (s.cores c).outstanding (s.vm f) f = 0 := by
      refine countP_eq_zero.2 fun e he => ?_
      have := hsettled c e he
      simpa using this
    rw [hnone] at hc
    exact hc

/-! ### Two flows with one 16-bit id -/

/-- A call for an existing VM and flow succeeds. -/
theorem armQueue_returns {x : QmanSet} (hok : c.qman.vqman.Ok) (hv : IsVm x.vmId)
    (hf : IsFlow x.flowId) : ∃ c', armQueue (flexnicNumQmflowqueues + 1) c (some x) = .ok c' := by
  obtain ⟨⟨t, ret⟩, hset, hret, -⟩ := (tasQmanSet_spec (a := x.params) hok hv hf).returns
    (Nat.lt_succ_self _)
  refine ⟨{ c with qman := t }, ?_⟩
  change (tasQmanSet (flexnicNumQmflowqueues + 1) c.qman x.vmId x.flowId x.params >>= _) = _
  rw [hset]
  exact if_neg (not_not.2 hret)

/-- An established flow with a remote window of `wnd` bytes. -/
def windowFlow (vmId : U16) (wnd : U32) : FlowState :=
  { (default : FlowState) with vmId := vmId, rxLen := 1000, txLen := 1000, rxRemoteAvail := wnd }

/-- The VM of all flows but flow 0, which is of VM 0. -/
def vmOfOthers (apart : Bool) : U16 := if apart then 1 else 0

/-- Flow 0 may send at once, the others wait for a window. -/
def windowSched (apart : Bool) : Sched where
  flows := fun f => if f = 0 then windowFlow 0 1000 else windowFlow (vmOfOthers apart) 0
  cores := fun _ => ⟨zeroThread, [], []⟩
  steering := fun _ => 0

/-- An acknowledgement that opens a window of ten bytes. -/
def windowPacket : RxPacket :=
  { (default : RxPacket) with ipLen := 52, hdrlen := 8, flags := tcpAck, wnd := 10 }

theorem windowSched_start (apart : Bool) : SchedStart (windowSched apart) := by
  refine ⟨fun f => ?_, fun _ => zeroThread_start⟩
  unfold windowSched
  dsimp only
  split_ifs
  · decide
  · cases apart <;> decide

/-- Flow 0 with a hundred bytes to send. -/
def filledFlow : FlowState := (fastFlowsBump default (windowFlow 0 1000) 0 1 0 100 0 0).1

/-- Flow 65536 with ten bytes to send and no window. -/
def waitingFlow (apart : Bool) : FlowState :=
  (fastFlowsBump default (windowFlow (vmOfOthers apart) 0) 65536 1 0 10 0 0).1

/-- Flow 65536 after its window opened. -/
def openedFlow (apart : Bool) : FlowState :=
  (fastFlowsPacket default (waitingFlow apart) 65536 windowPacket false 0).1

/-- What is left after flow 65536 has got its window, and the queue with its 16-bit id was set. -/
structure WindowOpened (apart : Bool) (s : Sched) : Prop where
  flow : s.flows 0 = filledFlow
  settled : s.Settled 0
  ring : ∀ d, (s.cores d).ring = []
  queue : ∀ d, (s.cores d).avail ((vmOfOthers apart).setWidth 32) 0 ≤ 10

/-- The application hands a hundred bytes to flow 0 and ten to flow 65536, whose window opens. -/
theorem windowSched_steps (apart : Bool) : ∃ s₁ s₂ s₃, SchedStep (windowSched apart) none s₁ ∧
    SchedStep s₁ none s₂ ∧ SchedStep s₂ (some 65536) s₃ ∧ s₂.flows 65536 = waitingFlow apart ∧
    s₂.flows 0 = filledFlow ∧ WindowOpened apart s₃ := by
  have hok : zeroThread.vqman.Ok := (qmanInv_start zeroThread_start).ok
  have hqset : (fastFlowsBump default (windowFlow 0 1000) 0 1 0 100 0 0).2.qset =
      some (qmanRearm filledFlow 0 100) := by decide
  obtain ⟨c, hc⟩ := armQueue_returns (c := ⟨zeroThread, [], []⟩)
    (x := qmanRearm filledFlow 0 100) hok (by decide) (by decide)
  have harmed := armQueue_spec hok hc
  have hqset' : (fastFlowsPacket default (waitingFlow apart) 65536 windowPacket false 0).2.qset =
      some (qmanRearm (openedFlow apart) 0 10) := by cases apart <;> decide
  obtain ⟨c', hc'⟩ := armQueue_returns (x := qmanRearm (openedFlow apart) 0 10) harmed.ok
    (by cases apart <;> decide) (by cases apart <;> decide)
  have harmed' := armQueue_spec harmed.ok hc'
  set s₁ := (windowSched apart).update 0 filledFlow 0 c with hs₁
  set s₂ := s₁.update 65536 (waitingFlow apart) 0 c with hs₂
  have hflow₁ : s₁.flows 65536 = windowFlow (vmOfOthers apart) 0 :=
    Sched.flows_update_of_ne (by decide)
  have hcore₁ : s₁.cores 0 = c := Sched.cores_update_self
  have hflow₂ : s₂.flows 65536 = waitingFlow apart := Sched.flows_update_self
  have hcore₂ : s₂.cores 0 = c := Sched.cores_update_self
  have hzero₂ : s₂.flows 0 = filledFlow := by
    rw [hs₂, Sched.flows_update_of_ne (by decide), hs₁, Sched.flows_update_self]
  have hfirst : SchedStep (windowSched apart) none s₁ := by
    have hb := SchedStep.bump (s := windowSched apart) (c := c) (flexnicNumQmflowqueues + 1) 0
      default 0 1 0 100 0 0
    rw [show (windowSched apart).flows 0 = windowFlow 0 1000 by simp [windowSched], hqset] at hb
    exact hb hc
  have hbump : SchedStep s₁ none s₂ := by
    have hb := SchedStep.bump (s := s₁) (c := c) 0 0 default 65536 1 0 10 0 0
    rw [hflow₁, hcore₁] at hb
    exact hb (by cases apart <;> rfl)
  have hpacket : SchedStep s₂ (some 65536) (s₂.update 65536 (openedFlow apart) 0 c') := by
    have hp := SchedStep.packet (s := s₂) (c := c') (flexnicNumQmflowqueues + 1) 0 default 65536
      windowPacket false 0
    rw [hflow₂, hcore₂, hqset'] at hp
    exact hp hc'
  have hcores : ∀ P : SchedCore → Prop, P c' → P ⟨zeroThread, [], []⟩ →
      ∀ d, P ((s₂.update 65536 (openedFlow apart) 0 c').cores d) := by
    intro P hP hzero d
    by_cases hd : d = 0
    · subst hd
      rwa [Sched.cores_update_self]
    · rwa [Sched.cores_update_of_ne hd, hs₂, Sched.cores_update_of_ne hd, hs₁,
        Sched.cores_update_of_ne hd]
  have hten : c'.avail ((vmOfOthers apart).setWidth 32) 0 = 10 := by
    rw [← show (openedFlow apart).vmId = vmOfOthers apart by cases apart <;> rfl]
    exact (harmed'.self _ rfl rfl).1
  refine ⟨s₁, s₂, _, hfirst, hbump, hpacket, hflow₂, hzero₂,
    (Sched.flows_update_of_ne (by decide)).trans hzero₂, fun d e he => ?_,
    hcores (fun x => x.ring = []) (harmed'.ring.trans harmed.ring) rfl,
    hcores (fun x => x.avail _ 0 ≤ 10) hten.le (by cases apart <;> decide)⟩
  rw [hcores (fun x => x.polled = []) (harmed'.polled.trans harmed.polled) rfl d] at he
  cases he

/-- Flow 65536 is of another VM, so that its 16-bit id names no queue of flow 0. -/
theorem filledFlow_scheduled : SchedStart (windowSched true) ∧
    ∃ s, Relation.ReflTransGen ApartStep (windowSched true) s ∧ (0 : U32).toNat < 65536 ∧
      s.Settled 0 ∧ tcpTxavail (s.flows 0) none = 100 ∧ s.Scheduled 0 := by
  obtain ⟨s₁, s₂, s₃, h₁, h₂, h₃, hwaiting, hfilled, hopened⟩ := windowSched_steps true
  have hapart : s₂.Apart 65536 := by
    refine .inr ?_
    change (s₂.flows 65536).vmId.setWidth 32 ≠ (s₂.flows 0).vmId.setWidth 32
    rw [hwaiting, hfilled]
    decide
  have hrun : Relation.ReflTransGen ApartStep (windowSched true) s₃ :=
    .tail (.tail (.single ⟨none, h₁, by simp⟩) ⟨none, h₂, by simp⟩)
      ⟨some 65536, h₃, fun f hf => Option.some.inj hf ▸ hapart⟩
  refine ⟨windowSched_start true, s₃, hrun, by decide, hopened.settled, ?_,
    sendable_scheduled (windowSched_start true) hrun (by decide) hopened.settled⟩
  rw [hopened.flow]
  decide

/-- Another flow of the VM with the same 16-bit id gets a window, and the queue of flow 0 is set to
what that flow can send. -/
theorem cut_id_unschedules : ∃ s₁ s₂ s₃, SchedStart (windowSched false) ∧
    SchedStep (windowSched false) none s₁ ∧ SchedStep s₁ none s₂ ∧ SchedStep s₂ (some 65536) s₃ ∧
    s₃.Settled 0 ∧ tcpTxavail (s₃.flows 0) none = 100 ∧ ¬ s₃.Scheduled 0 := by
  obtain ⟨s₁, s₂, s₃, h₁, h₂, h₃, -, -, hopened⟩ := windowSched_steps false
  have havail : tcpTxavail filledFlow none = 100 := by decide
  refine ⟨s₁, s₂, s₃, windowSched_start false, h₁, h₂, h₃, hopened.settled,
    by rw [hopened.flow, havail], ?_⟩
  rintro (⟨d, hd⟩ | ⟨d, hd⟩)
  · rw [hopened.ring d] at hd
    cases hd
  · have hvm : s₃.vm 0 = 0 := by
      unfold Sched.vm
      rw [hopened.flow]
      decide
    have hless : (s₃.cores d).avail 0 0 ≤ 10 := hopened.queue d
    rw [hopened.flow, havail, hvm] at hd
    exact absurd (hd.trans hless) (by decide)

end Tas
