import Tas.FlowViews
import Tas.Gre
import Tas.Lib.Replay

/-! The queues that flows are scheduled on: the calls of `tas_qman_set` of all operations on flows,
the entries that they leave in the queue managers, and the segments sent for them. -/
namespace Tas

open Replay Function List

/-- A queue with bytes to send in the queue manager of a core. -/
structure SchedEntry where
  core : U16
  vmId : U32
  queue : U32
deriving DecidableEq

/-- A call of `tas_qman_set` with the flow that was processed and its VM. -/
structure SchedCall where
  flow : U32
  vmId : U16
  set : QmanSet
deriving DecidableEq

/-- A segment sent for an entry, with the addresses of the flow of that index. -/
structure SchedSend where
  queue : U32
  place : FlowPlace
  seg : Segment
deriving DecidableEq

/-- All flows and the queue managers and forwarding rings of all cores. -/
structure SchedSys where
  flows : U32 → FlowState
  queued : List SchedEntry
  /-- `qman_fwd_ring`, by core. -/
  fwd : List (U16 × U32)
  calls : List SchedCall
  sent : List SchedSend

inductive SchedEvent
  /-- The slow path sets up a connection in the slot. -/
  | install (i : U32) (fs : FlowState)
  | packet (core : U16) (i : U32) (env : FpEnv) (p : RxPacket) (spendBudget : Bool) (ts : U32)
  /-- The same in the build with GRE. -/
  | packetGre (core : U16) (i : U32) (env : FpEnv) (p : GrePacket) (spendBudget : Bool) (ts : U32)
  | bump (core : U16) (i : U32) (env : FpEnv) (bumpSeq : U16) (rxBump txBump : U32) (flags : U8)
      (ts : U32)
  | retransmit (core : U16) (i : U32)
  /-- The queue manager returns a queue, which stays queued if `rest` is set; the group of the flow
  is steered to `newCore`. -/
  | poll (e : SchedEntry) (rest : Bool) (env : FpEnv) (newCore : U16) (txbuf : ℕ → Byte) (ts : U32)
  | forwarded (core : U16) (i : U32)

namespace SchedSys

variable {s s' s₀ : SchedSys} {i : U32} {core : U16} {q : QmanSet} {fs : FlowState}

def put (s : SchedSys) (i : U32) (fs : FlowState) : SchedSys :=
  { s with flows := update s.flows i fs }

/-- `tas_qman_set` on the queue manager of `core` while the flow `i` is processed. -/
def call (s : SchedSys) (core : U16) (i : U32) (q : QmanSet) : SchedSys :=
  { s with
    queued :=
      if q.avail = 0 then s.queued.erase ⟨core, q.vmId, q.flowId⟩
      else ⟨core, q.vmId, q.flowId⟩ :: s.queued
    calls := ⟨i, (s.flows i).vmId, q⟩ :: s.calls }

def callAll (s : SchedSys) (core : U16) (i : U32) : Option QmanSet → SchedSys
  | none => s
  | some q => s.call core i q

/-- The entry was returned by its queue manager. -/
def taken (s : SchedSys) (e : SchedEntry) (rest : Bool) : SchedSys :=
  if rest then s else { s with queued := s.queued.erase e }

/-- What `fast_flows_qman` does for an entry. -/
def transmit (s : SchedSys) (e : SchedEntry) : FlowState × QmanOut → SchedSys
  | (fs, .forward newCore) =>
    { s.put e.queue fs with fwd := s.fwd ++ [(newCore, e.queue)] }.call e.core e.queue
      (qmanClear e.vmId e.queue)
  | (fs, .idle) => s.put e.queue fs
  | (fs, .segment seg) =>
    { s.put e.queue fs with sent := ⟨e.queue, (s.flows e.queue).place, seg⟩ :: s.sent }

def exec (s : SchedSys) : SchedEvent → Option SchedSys
  | .install i fs => if i.toNat < flowstNum then some (s.put i fs) else none
  | .packet core i env p spendBudget ts =>
    if i.toNat < flowstNum then
      let x := fastFlowsPacket env (s.flows i) i p spendBudget ts
      some ((s.put i x.1).callAll core i x.2.qset)
    else none
  | .packetGre core i env p spendBudget ts =>
    if i.toNat < flowstNum then
      let x := fastFlowsPacketGre env (s.flows i) i p spendBudget ts
      some ((s.put i x.1).callAll core i x.2.qset)
    else none
  | .bump core i env bumpSeq rxBump txBump flags ts =>
    if i.toNat < flowstNum then
      let x := fastFlowsBump env (s.flows i) i bumpSeq rxBump txBump flags ts
      some ((s.put i x.1).callAll core i x.2.qset)
    else none
  | .retransmit core i =>
    if i.toNat < flowstNum then
      let x := fastFlowsRetransmit (s.flows i) i
      some ((s.put i x.1).callAll core i x.2)
    else none
  | .poll e rest env newCore txbuf ts =>
    if e ∈ s.queued then
      some ((s.taken e rest).transmit e
        (fastFlowsQman env e.core newCore (s.flows e.queue) txbuf ts))
    else none
  | .forwarded core i =>
    if (core, i) ∈ s.fwd then
      some ({ s with fwd := s.fwd.erase (core, i) }.call core i (fastFlowsQmanFwd (s.flows i) i))
    else none

/-- The flows of a fast path that has not done anything yet. -/
structure Start (s : SchedSys) : Prop where
  queued : s.queued = []
  fwd : s.fwd = []
  calls : s.calls = []
  sent : s.sent = []

/-- The segment carries the addresses of the flow. -/
structure Carries (seg : Segment) (place : FlowPlace) : Prop where
  mac : seg.ethDst = place.remoteMac
  ips : seg.ipSrc = place.outLocalIp ∧ seg.ipDst = place.outRemoteIp
  ports : seg.portSrc = place.localPort ∧ seg.portDst = place.remotePort

/-- Flows are scheduled on their own queue: every call names the flow that was processed and its
VM, every entry is of the VM of its flow and comes from a call for this flow, and segments sent for
an entry are segments of its flow. -/
structure Targeted (s : SchedSys) : Prop where
  calls : ∀ c ∈ s.calls, c.set.flowId = c.flow ∧ c.set.vmId = c.vmId.setWidth 32
  vms : ∀ e ∈ s.queued, e.vmId = (s.flows e.queue).vmId.setWidth 32
  called : ∀ e ∈ s.queued, ∃ c ∈ s.calls, c.flow = e.queue
  sent : ∀ t ∈ s.sent, Carries t.seg t.place ∧ ∃ c ∈ s.calls, c.flow = t.queue

/-- The index fits `flow_id` of `fast_flows_packet`, `fast_flows_packet_gre` and
`fast_flows_qman_fwd`. -/
def Fits (i : U32) : Prop := i.toNat < 2 ^ 16

/-- The flows of packets and forwarded flows have an index that fits, and a slot is set up for
another VM only when it is not queued for the old one. -/
def Addressed (s : SchedSys) : SchedEvent → Prop
  | .install i fs => ∀ e ∈ s.queued, e.queue = i → e.vmId = fs.vmId.setWidth 32
  | .packet _ i _ _ _ _ | .packetGre _ i _ _ _ _ | .forwarded _ i => Fits i
  | _ => True

instance decidableFits (i : U32) : Decidable (Fits i) := inferInstanceAs (Decidable (_ < _))

instance decidableAddressed (s : SchedSys) (e : SchedEvent) : Decidable (s.Addressed e) :=
  match e with
  | .install i fs =>
    inferInstanceAs (Decidable (∀ e ∈ s.queued, e.queue = i → e.vmId = fs.vmId.setWidth 32))
  | .packet _ i _ _ _ _ | .packetGre _ i _ _ _ _ | .forwarded _ i => decidableFits i
  | .bump .. => .isTrue trivial
  | .retransmit .. => .isTrue trivial
  | .poll .. => .isTrue trivial

/-! ### The calls of each operation -/

section Calls

variable {env : FpEnv} {p : RxPacket} {spendBudget : Bool} {ts rxBump txBump : U32} {bumpSeq : U16}
  {flags : U8}

/-- The call names the queue and the VM of a flow. -/
def Names (q : QmanSet) (i : U32) (fs : FlowState) : Prop :=
  q.flowId = i ∧ q.vmId = fs.vmId.setWidth 32

theorem packet_names (h : q ∈ (fastFlowsPacket env fs i p spendBudget ts).2.qset) (hi : Fits i) :
    Names q i (fastFlowsPacket env fs i p spendBudget ts).1 := by
  by_cases hproc : Processed env fs p spendBudget
  · rw [fastFlowsPacket_processed hproc] at h ⊢
    obtain ⟨_, rfl⟩ := of_guard h
    exact ⟨cutId_of_lt hi, rfl⟩
  · obtain ⟨ret, counted, he | he⟩ :=
      @fastFlowsPacket_not_processed env fs p ts i spendBudget hproc
    all_goals
      rw [he] at h
      cases h

/-- In a tunnel the flow and its queue are handled as for the packet inside. -/
theorem fastFlowsPacketGre_inner {p : GrePacket} :
    (fastFlowsPacketGre env fs i p spendBudget ts).1 =
        (fastFlowsPacket env fs i p.inner spendBudget ts).1 ∧
      (fastFlowsPacketGre env fs i p spendBudget ts).2.qset =
        (fastFlowsPacket env fs i p.inner spendBudget ts).2.qset := by
  have hflags : p.inner.flags = p.flags := rfl
  unfold fastFlowsPacketGre fastFlowsPacket
  rw [hflags]
  split_ifs <;> exact ⟨rfl, rfl⟩

theorem bump_names (h : q ∈ (fastFlowsBump env fs i bumpSeq rxBump txBump flags ts).2.qset) :
    Names q i (fastFlowsBump env fs i bumpSeq rxBump txBump flags ts).1 := by
  by_cases hok : BumpOk fs bumpSeq rxBump txBump flags
  · obtain ⟨hseq, hclose, htx, hrx⟩ := hok
    unfold fastFlowsBump at h ⊢
    rw [if_neg (by simp [hseq]), if_neg hclose, if_neg (not_not.mpr htx),
      if_neg (not_not.mpr hrx)] at h ⊢
    obtain ⟨_, rfl⟩ := of_guard h
    exact ⟨rfl, rfl⟩
  · obtain he | he := @fastFlowsBump_not_ok env fs ts i rxBump txBump bumpSeq flags hok
    all_goals
      rw [he] at h
      cases h

theorem retransmit_names (h : q ∈ (fastFlowsRetransmit fs i).2) :
    Names q i (fastFlowsRetransmit fs i).1 := by
  unfold fastFlowsRetransmit at h ⊢
  split_ifs at h ⊢
  · cases h
  · obtain ⟨_, rfl⟩ := of_guard h
    exact ⟨rfl, rfl⟩

end Calls

/-! ### Steps keep the targets -/

namespace Targeted

theorem start (h : Start s) : s.Targeted := by
  refine ⟨?_, ?_, ?_, ?_⟩
  · rw [h.calls]
    nofun
  · rw [h.queued]
    nofun
  · rw [h.queued]
    nofun
  · rw [h.sent]
    nofun

/-- A flow changes whose entries are all of its VM. -/
theorem put (h : s.Targeted) (hvm : ∀ e ∈ s.queued, e.queue = i → e.vmId = fs.vmId.setWidth 32) :
    (s.put i fs).Targeted := by
  refine ⟨h.calls, fun e he => ?_, h.called, h.sent⟩
  change e.vmId = (update s.flows i fs e.queue).vmId.setWidth 32
  by_cases hi : e.queue = i
  · rw [hi, update_self]
    exact hvm e he hi
  · rw [update_of_ne hi]
    exact h.vms e he

theorem put_place (h : s.Targeted) (hplace : fs.place = (s.flows i).place) :
    (s.put i fs).Targeted := by
  apply h.put
  intro e he hi
  rw [h.vms e he, hi, show fs.vmId = (s.flows i).vmId from congrArg FlowPlace.vmId hplace]

theorem call (h : s.Targeted) (hq : Names q i (s.flows i)) : (s.call core i q).Targeted := by
  have holder : ∀ j, (∃ c ∈ s.calls, c.flow = j) → ∃ c ∈ (s.call core i q).calls, c.flow = j :=
    fun j ⟨c, hc, hj⟩ => ⟨c, mem_cons_of_mem _ hc, hj⟩
  have hentry : ∀ e ∈ (s.call core i q).queued, e ∈ s.queued ∨ e = ⟨core, q.vmId, q.flowId⟩ := by
    intro e he
    change e ∈ (if q.avail = 0 then _ else _) at he
    split_ifs at he
    · exact .inl (mem_of_mem_erase he)
    · obtain rfl | he := mem_cons.1 he
      · exact .inr rfl
      · exact .inl he
  refine ⟨fun c hc => ?_, fun e he => ?_, fun e he => ?_, fun t ht => ?_⟩
  · obtain rfl | hc := mem_cons.1 hc
    · exact hq
    · exact h.calls c hc
  · obtain he | rfl := hentry e he
    · exact h.vms e he
    · change q.vmId = (s.flows q.flowId).vmId.setWidth 32
      rw [hq.1, hq.2]
  · obtain he | rfl := hentry e he
    · exact holder _ (h.called e he)
    · exact ⟨_, mem_cons_self, hq.1.symm⟩
  · exact ⟨(h.sent t ht).1, holder _ (h.sent t ht).2⟩

/-- A flow is processed and its queue set, if there is a call. -/
theorem process {o : Option QmanSet} (h : s.Targeted) (hplace : fs.place = (s.flows i).place)
    (hq : ∀ q ∈ o, Names q i fs) : ((s.put i fs).callAll core i o).Targeted := by
  cases o with
  | none => exact h.put_place hplace
  | some q =>
    apply (h.put_place hplace).call
    change Names q i (update s.flows i fs i)
    rw [update_self]
    exact hq q rfl

theorem taken {e : SchedEntry} {rest : Bool} (h : s.Targeted) : (s.taken e rest).Targeted := by
  unfold SchedSys.taken
  split_ifs
  · exact h
  · exact ⟨h.calls, fun e he => h.vms e (mem_of_mem_erase he),
      fun e he => h.called e (mem_of_mem_erase he), h.sent⟩

end Targeted

/-- The segment sent for a flow carries its addresses. -/
theorem qman_carries {env : FpEnv} {newCore : U16} {txbuf : ℕ → Byte} {ts : U32} {seg : Segment}
    (h : (fastFlowsQman env core newCore fs txbuf ts).2 = .segment seg) : Carries seg fs.place := by
  unfold fastFlowsQman at h
  split_ifs at h
  cases h
  exact ⟨rfl, ⟨rfl, rfl⟩, rfl, rfl⟩

theorem Targeted.transmit {e : SchedEntry} {x : FlowState × QmanOut} (h : s.Targeted)
    (hvm : e.vmId = (s.flows e.queue).vmId.setWidth 32) (hcall : ∃ c ∈ s.calls, c.flow = e.queue)
    (hplace : x.1.place = (s.flows e.queue).place)
    (hseg : ∀ seg, x.2 = .segment seg → Carries seg (s.flows e.queue).place) :
    (s.transmit e x).Targeted := by
  obtain ⟨fs, out⟩ := x
  have hput : (s.put e.queue fs).Targeted := h.put_place hplace
  cases out with
  | forward newCore =>
    have hfwd : { s.put e.queue fs with fwd := s.fwd ++ [(newCore, e.queue)] }.Targeted :=
      { hput with }
    apply hfwd.call
    refine ⟨rfl, ?_⟩
    change e.vmId = (update s.flows e.queue fs e.queue).vmId.setWidth 32
    rw [update_self, hvm,
      show fs.vmId = (s.flows e.queue).vmId from congrArg FlowPlace.vmId hplace]
  | idle => exact hput
  | segment seg =>
    refine ⟨hput.calls, hput.vms, hput.called, fun t ht => ?_⟩
    obtain rfl | ht := mem_cons.1 ht
    · exact ⟨hseg seg rfl, hcall⟩
    · exact hput.sent t ht

theorem Targeted.step {e : SchedEvent} (h : s.Targeted) (hallowed : s.Addressed e)
    (hexec : s.exec e = some s') : s'.Targeted := by
  cases e with
  | install i fs =>
    obtain ⟨_, rfl⟩ := of_guard hexec
    exact h.put hallowed
  | packet core i env p spendBudget ts =>
    obtain ⟨_, rfl⟩ := of_guard hexec
    apply h.process fastFlowsPacket_place
    intro q hq
    exact packet_names hq hallowed
  | packetGre core i env p spendBudget ts =>
    obtain ⟨_, rfl⟩ := of_guard hexec
    obtain ⟨hfs, hqset⟩ := @fastFlowsPacketGre_inner i (s.flows i) env spendBudget ts p
    rw [hfs, hqset]
    apply h.process fastFlowsPacket_place
    intro q hq
    exact packet_names hq hallowed
  | bump core i env bumpSeq rxBump txBump flags ts =>
    obtain ⟨_, rfl⟩ := of_guard hexec
    exact h.process fastFlowsBump_place fun q hq => bump_names hq
  | retransmit core i =>
    obtain ⟨_, rfl⟩ := of_guard hexec
    exact h.process fastFlowsRetransmit_txOnly.view fun q hq => retransmit_names hq
  | poll e rest env newCore txbuf ts =>
    obtain ⟨he, rfl⟩ := of_guard hexec
    have hflows : (s.taken e rest).flows = s.flows := by
      unfold SchedSys.taken
      split_ifs <;> rfl
    have hcalls : (s.taken e rest).calls = s.calls := by
      unfold SchedSys.taken
      split_ifs <;> rfl
    apply h.taken.transmit
    · rw [hflows]
      exact h.vms e he
    · rw [hcalls]
      exact h.called e he
    · rw [hflows]
      exact fastFlowsQman_txOnly.view
    · rw [hflows]
      intro seg hseg
      exact qman_carries hseg
  | forwarded core i =>
    obtain ⟨_, rfl⟩ := of_guard hexec
    have herase : { s with fwd := s.fwd.erase (core, i) }.Targeted :=
      { h with }
    exact herase.call ⟨cutId_of_lt hallowed, rfl⟩

end SchedSys

/-- As long as the flows of packets and forwarded flows have indices of 16 bits, and slots are not
given to another VM while they are queued, all flows are scheduled on their own queue. -/
theorem flows_scheduled_on_own_queue {s₀ s : SchedSys} (h₀ : s₀.Start)
    (hrun : Replay.Run SchedSys.exec SchedSys.Addressed s₀ s) : s.Targeted :=
  hrun.invariant SchedSys.Targeted (.start h₀) fun _ _ _ h hallowed hexec => h.step hallowed hexec

/-! ### An index that does not fit -/

/-- A flow with ten bytes to send and a window of five. -/
def fiveWindowFlow (vmId port : U16) : FlowState :=
  { (default : FlowState) with
    vmId := vmId, localPort := port, rxLen := 64, rxAvail := 64, txLen := 64, txAvail := 10
    rxRemoteAvail := 5 }

/-- The flow 65541 is of VM 0, all others are of VM 1. -/
def wideSys : SchedSys where
  flows i := if i = 65541 then fiveWindowFlow 0 1000 else fiveWindowFlow 1 2000
  queued := []
  fwd := []
  calls := []
  sent := []

theorem wideSys_start : wideSys.Start := ⟨rfl, rfl, rfl, rfl⟩

/-- An empty segment that opens the window. -/
def openWindow : RxPacket :=
  { (default : RxPacket) with ipLen := 40, hdrlen := 5, flags := tcpAck, wnd := 500 }

/-- A larger window for a flow schedules queue 5, which is then polled for the VM. -/
def windowRun (i : U32) (vmId : U32) : List SchedEvent :=
  [.packet 0 i default openWindow false 0, .poll ⟨0, vmId, 5⟩ true default 0 (fun _ => 0) 0]

/-- Flow 5 sends what it was scheduled for. -/
theorem narrow_flow_scheduled : ∃ s, Replay.Run SchedSys.exec SchedSys.Addressed wideSys s ∧
    s.Targeted ∧ s.calls.map (fun c => (c.flow, c.set.flowId)) = [(5, 5)] ∧
    s.sent.map (fun t => (t.queue, t.seg.portSrc)) = [(5, 2000)] := by
  have hreach : ∃ s, Replay.Run SchedSys.exec SchedSys.Addressed wideSys s ∧
      (s.calls.map (fun c => (c.flow, c.set.flowId)),
        s.sent.map fun t => (t.queue, t.seg.portSrc)) = ([(5, 5)], [(5, 2000)]) :=
    Replay.run_of_outcome (windowRun 5 1) (by decide +kernel)
  obtain ⟨s, hrun, hdata⟩ := hreach
  obtain ⟨hcalls, hsent⟩ := Prod.mk.inj hdata
  exact ⟨s, hrun, flows_scheduled_on_own_queue wideSys_start hrun, hcalls, hsent⟩

/-- A window for flow 65541 of VM 0 schedules queue 5 for VM 0, and flow 5 of VM 1 is sent
instead. Flow 65541 stays without an entry. -/
theorem wide_flow_schedules_other : ∃ s, Replay.Run SchedSys.exec Replay.Any wideSys s ∧
    s.calls.map (fun c => (c.flow, c.vmId, c.set.flowId)) = [(65541, 0, 5)] ∧
    s.queued = [⟨0, 0, 5⟩] ∧ (s.flows 5).vmId = 1 ∧
    s.sent.map (fun t => (t.queue, t.seg.portSrc)) = [(5, 2000)] ∧ ¬ s.Targeted := by
  have hreach : ∃ s, Replay.Run SchedSys.exec Replay.Any wideSys s ∧
      (s.calls.map (fun c => (c.flow, c.vmId, c.set.flowId)), s.queued, (s.flows 5).vmId,
        s.sent.map fun t => (t.queue, t.seg.portSrc)) =
      ([(65541, 0, 5)], [⟨0, 0, 5⟩], 1, [(5, 2000)]) :=
    Replay.run_of_outcome (windowRun 65541 0) (by decide +kernel)
  obtain ⟨s, hrun, hdata⟩ := hreach
  obtain ⟨hcalls, hqueued, hvm, hsent⟩ := by simpa only [Prod.mk.injEq] using hdata
  refine ⟨s, hrun, hcalls, hqueued, hvm, hsent, fun h => ?_⟩
  have hentry := h.vms ⟨0, 0, 5⟩ (by rw [hqueued]; exact mem_singleton_self _)
  rw [hvm] at hentry
  cases hentry

end Tas
