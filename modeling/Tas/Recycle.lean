import Tas.FlowViews

/-! Two connections on the same flow state slot: what of the earlier one the later one can
observe. -/
namespace Tas

/-- Registers that no operation reads, or reads only while an interval is stored. -/
structure Leftover where
  tunnelId : U32
  inLocalIp : U32
  inRemoteIp : U32
  rxOooStart : U32

namespace FlowState

def leave (fs : FlowState) (d : Leftover) : FlowState :=
  { fs with
    tunnelId := d.tunnelId
    inLocalIp := d.inLocalIp
    inRemoteIp := d.inRemoteIp
    rxOooStart := d.rxOooStart }

/-- Equal but for registers that are not read. -/
def Alike (fs fs' : FlowState) : Prop :=
  ∃ d : Leftover, fs' = fs.leave d ∧ (fs.rxOooLen ≠ 0 → d.rxOooStart = fs.rxOooStart)

end FlowState

open FlowState (Alike)

variable {fs fs' : FlowState} {p : RxPacket} {d : Leftover} {ts bytes seq : U32} {src : ℕ → Byte}
  {env : FpEnv}

/-! ### Received packets -/

theorem ackAdvance_leave {n : U32} : ackAdvance (fs.leave d) n = (ackAdvance fs n).leave d := by
  unfold ackAdvance
  rw [apply_ite (FlowState.leave · d)]
  rfl

def AckResult.leave (a : AckResult) (d : Leftover) : AckResult := { a with fs := a.fs.leave d }

theorem packetDupack_leave {n origPayload : U32} :
    packetDupack (fs.leave d) n origPayload = (packetDupack fs n origPayload).leave d := by
  unfold packetDupack
  simp only [apply_ite (AckResult.leave · d)]
  rfl

theorem packetAck_leave : packetAck (fs.leave d) p = (packetAck fs p).leave d := by
  unfold packetAck
  by_cases hack : p.flag tcpAck
  · rw [if_pos hack, if_pos hack]
    have hvalid : tcpValidRxack (countAck (fs.leave d)) p.ackno =
        tcpValidRxack (countAck fs) p.ackno := rfl
    rw [hvalid]
    cases tcpValidRxack (countAck fs) p.ackno with
    | none => rfl
    | some n =>
      have hcount : countAckBytes (countAck (fs.leave d)) p n =
          (countAckBytes (countAck fs) p n).leave d := rfl
      dsimp only
      rw [hcount, ackAdvance_leave, packetDupack_leave]
  · rw [if_neg hack, if_neg hack]
    rfl

/-- Receive results that differ in registers that are not read. -/
def RxAlike (r r' : RxResult) : Prop := Alike r.fs r'.fs ∧ r' = { r with fs := r'.fs }

/-- Two runs that take the same branch. -/
theorem ite_both {α : Type*} {R : α → α → Prop} {c : Prop} [Decidable c] {x x' y y' : α}
    (ht : c → R x x') (hf : ¬ c → R y y') : R (if c then x else y) (if c then x' else y') := by
  split_ifs with hc
  · exact ht hc
  · exact hf hc

theorem packetFin_alike {r r' : RxResult} (h : RxAlike r r') :
    RxAlike (packetFin r p) (packetFin r' p) := by
  obtain ⟨⟨d, hfs, hd⟩, hr⟩ := h
  rw [hfs] at hr
  subst hr
  unfold packetFin
  refine ite_both (fun _ => ?_) fun _ => ⟨⟨d, rfl, hd⟩, rfl⟩
  exact ite_both (fun _ => ⟨⟨d, rfl, hd⟩, rfl⟩) fun _ => ⟨⟨d, rfl, hd⟩, rfl⟩

section

variable (h : Alike fs fs')
include h

theorem packetAck_alike :
    Alike (packetAck fs p).fs (packetAck fs' p).fs ∧
      packetAck fs' p = { packetAck fs p with fs := (packetAck fs' p).fs } := by
  obtain ⟨d, rfl, hd⟩ := h
  rw [packetAck_leave]
  have hview := @packetAck_rxView fs p
  have hlen : (packetAck fs p).fs.rxOooLen = fs.rxOooLen := congrArg RxView.oooLen hview
  have hstart : (packetAck fs p).fs.rxOooStart = fs.rxOooStart := congrArg RxView.oooStart hview
  refine ⟨⟨d, rfl, fun hl => ?_⟩, rfl⟩
  rw [hstart, hd (hlen ▸ hl)]

theorem packetOoo_alike : RxAlike (packetOoo fs seq bytes src) (packetOoo fs' seq bytes src) := by
  obtain ⟨d, rfl, hd⟩ := h
  unfold packetOoo
  refine ite_both (fun _ => ⟨⟨d, rfl, hd⟩, rfl⟩) fun _ => ?_
  refine ite_both (fun _ => ⟨⟨{ d with rxOooStart := seq }, rfl, fun _ => rfl⟩, rfl⟩) fun hl => ?_
  -- from here on an interval is stored, and both runs know its start
  obtain ⟨t, i, r, s⟩ := d
  obtain rfl : s = fs.rxOooStart := hd hl
  refine ite_both (fun _ => ⟨⟨⟨t, i, r, seq⟩, rfl, fun _ => rfl⟩, rfl⟩) fun _ => ?_
  exact ite_both (fun _ => ⟨⟨⟨t, i, r, fs.rxOooStart⟩, rfl, fun _ => rfl⟩, rfl⟩)
    fun _ => ⟨⟨_, rfl, hd⟩, rfl⟩

/-- State and output of an operation, in two runs. -/
def OutAlike {α : Type*} (x x' : FlowState × α) : Prop := Alike x.1 x'.1 ∧ x'.2 = x.2

theorem oooMerge_alike : OutAlike (oooMerge fs) (oooMerge fs') := by
  obtain ⟨d, rfl, hd⟩ := h
  unfold oooMerge
  have hiff : (fs.rxOooLen > 0 ∧ fs.rxOooStart = fs.rxNextSeq) ↔
      ((fs.leave d).rxOooLen > 0 ∧ (fs.leave d).rxOooStart = (fs.leave d).rxNextSeq) := by
    refine and_congr_right fun hl => ?_
    rw [show (fs.leave d).rxOooStart = fs.rxOooStart from hd (Word.pos_iff_ne_zero.mp hl)]
    rfl
  rw [if_congr hiff rfl rfl]
  exact ite_both (fun _ => ⟨⟨d, rfl, fun h => absurd rfl h⟩, rfl⟩) fun _ => ⟨⟨d, rfl, hd⟩, rfl⟩

theorem packetCatchUp_alike : OutAlike (packetCatchUp fs) (packetCatchUp fs') := by
  obtain ⟨d, rfl, hd⟩ := h
  unfold packetCatchUp
  refine ite_both (fun hl => ?_) fun _ => ⟨⟨d, rfl, hd⟩, rfl⟩
  have htrim : tcpTrimRxbuf (fs.leave d).rxNextSeq (fs.leave d).rxAvail (fs.leave d).rxOooStart
      ((fs.leave d).rxOooLen.setWidth 16) =
      tcpTrimRxbuf fs.rxNextSeq fs.rxAvail fs.rxOooStart (fs.rxOooLen.setWidth 16) := by
    rw [show (fs.leave d).rxOooStart = fs.rxOooStart from hd hl]
    rfl
  rw [htrim]
  cases tcpTrimRxbuf fs.rxNextSeq fs.rxAvail fs.rxOooStart (fs.rxOooLen.setWidth 16) with
  | none => exact ⟨⟨d, rfl, fun h => absurd rfl h⟩, rfl⟩
  | some t =>
    refine oooMerge_alike ⟨{ d with rxOooStart := d.rxOooStart + t.1.setWidth 32 }, rfl,
      fun _ => ?_⟩
    exact congrArg (· + t.1.setWidth 32) (hd hl)

theorem packetDeliver_alike :
    RxAlike (packetDeliver fs bytes src) (packetDeliver fs' bytes src) := by
  unfold packetDeliver
  refine ite_both (fun _ => ?_) fun _ => ⟨h, rfl⟩
  obtain ⟨d, rfl, hd⟩ := h
  have hadvance : Alike (rxAdvance fs bytes) (rxAdvance (fs.leave d) bytes) := ⟨d, rfl, hd⟩
  obtain ⟨halike, hbump⟩ := packetCatchUp_alike hadvance
  refine ⟨halike, ?_⟩
  dsimp only
  rw [hbump]
  rfl

theorem packetInOrder_alike :
    RxAlike (packetInOrder fs p ts bytes src) (packetInOrder fs' p ts bytes src) := by
  obtain ⟨d, rfl, hd⟩ := h
  have halike : Alike (packetEstimate fs p ts) (packetEstimate (fs.leave d) p ts) := ⟨d, rfl, hd⟩
  unfold packetInOrder
  exact ite_both (fun _ => ⟨halike, rfl⟩) fun _ => packetFin_alike (packetDeliver_alike halike)

theorem packetRx_alike : RxAlike (packetRx fs p ts) (packetRx fs' p ts) := by
  have hsame : fs'.rxNextSeq = fs.rxNextSeq ∧ fs'.rxAvail = fs.rxAvail := by
    obtain ⟨d, rfl, -⟩ := h
    exact ⟨rfl, rfl⟩
  unfold packetRx
  rw [hsame.1, hsame.2]
  cases tcpTrimRxbuf fs.rxNextSeq fs.rxAvail p.seqno (p.payloadBytes.setWidth 16) with
  | none => exact ⟨h, rfl⟩
  | some t =>
    dsimp only
    split_ifs
    · exact packetOoo_alike h
    · exact packetInOrder_alike h

/-! ### Operations -/

variable {flowId rxBump txBump counted : U32} {bumpSeq core newCore : U16} {flags : U8}
  {txbuf : ℕ → Byte} {spendBudget : Bool}

theorem packetUnlock_alike {a a' : AckResult} {r r' : RxResult} (ha : a'.txBump = a.txBump)
    (hr : RxAlike r r') :
    packetUnlock env fs' a' r' flowId p counted ts =
      packetUnlock env fs a r flowId p counted ts := by
  obtain ⟨d, rfl, -⟩ := h
  obtain ⟨⟨e, hfs, -⟩, hr⟩ := hr
  rw [hfs] at hr
  subst hr
  unfold packetUnlock
  rw [ha]
  rfl

theorem fastFlowsPacket_alike :
    OutAlike (fastFlowsPacket env fs flowId p spendBudget ts)
      (fastFlowsPacket env fs' flowId p spendBudget ts) := by
  obtain ⟨hack, heq⟩ := packetAck_alike (p := p) h
  have hbody : RxAlike
      (if (packetAck fs p).reset then { fs := (packetAck fs p).fs }
        else packetRx (packetAck fs p).fs p ts)
      (if (packetAck fs p).reset then { fs := (packetAck fs' p).fs }
        else packetRx (packetAck fs' p).fs p ts) :=
    ite_both (fun _ => ⟨hack, rfl⟩) fun _ => packetRx_alike hack
  have hreset : (packetAck fs' p).reset = (packetAck fs p).reset := by rw [heq]
  have hbump : (packetAck fs' p).txBump = (packetAck fs p).txBump := by rw [heq]
  have hunlock := fun counted =>
    @packetUnlock_alike fs fs' p ts env h flowId counted _ _ _ _ hbump hbody
  unfold fastFlowsPacket
  dsimp only
  rw [hreset]
  obtain ⟨d, rfl, hd⟩ := h
  refine ite_both (fun _ => ⟨⟨d, rfl, hd⟩, rfl⟩) fun _ => ?_
  refine ite_both (fun _ => ⟨⟨d, rfl, hd⟩, rfl⟩) fun _ => ?_
  refine ite_both (fun _ => ?_) fun _ => ⟨hbody.1, hunlock _⟩
  exact ite_both (fun _ => ⟨⟨d, rfl, hd⟩, rfl⟩) fun _ => ⟨⟨d, rfl, hd⟩, rfl⟩

theorem fastFlowsBump_alike :
    OutAlike (fastFlowsBump env fs flowId bumpSeq rxBump txBump flags ts)
      (fastFlowsBump env fs' flowId bumpSeq rxBump txBump flags ts) := by
  obtain ⟨d, rfl, hd⟩ := h
  unfold fastFlowsBump
  refine ite_both (fun _ => ⟨⟨d, rfl, hd⟩, rfl⟩) fun _ => ?_
  refine ite_both (fun _ => ⟨⟨d, rfl, hd⟩, rfl⟩) fun _ => ?_
  refine ite_both (fun _ => ⟨⟨d, rfl, hd⟩, rfl⟩) fun _ => ?_
  refine ite_both (fun _ => ⟨⟨d, rfl, hd⟩, rfl⟩) fun _ => ?_
  rw [show bumpCloses (fs.leave d) flags = bumpCloses fs flags from rfl]
  cases bumpCloses fs flags with
  | true => exact ⟨⟨d, rfl, hd⟩, rfl⟩
  | false => exact ⟨⟨d, rfl, hd⟩, rfl⟩

theorem fastFlowsQman_alike :
    OutAlike (fastFlowsQman env core newCore fs txbuf ts)
      (fastFlowsQman env core newCore fs' txbuf ts) := by
  obtain ⟨d, rfl, hd⟩ := h
  unfold fastFlowsQman
  refine ite_both (fun _ => ⟨⟨d, rfl, hd⟩, rfl⟩) fun _ => ?_
  exact ite_both (fun _ => ⟨⟨d, rfl, hd⟩, rfl⟩) fun _ => ⟨⟨d, rfl, hd⟩, rfl⟩

theorem fastFlowsRetransmit_alike :
    OutAlike (fastFlowsRetransmit fs flowId) (fastFlowsRetransmit fs' flowId) := by
  obtain ⟨d, rfl, hd⟩ := h
  unfold fastFlowsRetransmit
  exact ite_both (fun _ => ⟨⟨d, rfl, hd⟩, rfl⟩) fun _ => ⟨⟨d, rfl, hd⟩, rfl⟩

/-! ### Congestion control statistics -/

/-- What `cc_poll_vm` keeps of a connection: the counters at the last poll, and the state `κ` of
the congestion control algorithm. -/
structure CcConn (κ : Type*) where
  lastDrops : U16
  lastAcks : U16
  lastAckb : U32
  lastEcnb : U32
  alg : κ

/-- The algorithm: whether a poll at a time is due, and the update of its state and of the rate
from the statistics since the last poll. -/
structure CcAlg (κ : Type*) where
  due : κ → U32 → Bool
  update : κ → ConnStats → U32 → U32 → κ × U32

/-- The differences to the last poll. -/
def ccStats {κ : Type*} (c : CcConn κ) (st : ConnStats) : ConnStats :=
  { st with
    cDrops := st.cDrops - c.lastDrops
    cAcks := st.cAcks - c.lastAcks
    cAckb := st.cAckb - c.lastAckb
    cEcnb := st.cEcnb - c.lastEcnb }

/-- One connection's turn in `cc_poll_vm`. -/
def ccPollConn {κ : Type*} (alg : CcAlg κ) (c : CcConn κ) (fs : FlowState) (curTs diffTs : U32) :
    CcConn κ × FlowState × Option ConnStats :=
  if ¬ alg.due c.alg curTs then (c, fs, none)
  else
    let st := nicifConnectionStats fs
    let diff := ccStats c st
    let u := alg.update c.alg diff curTs diffTs
    (⟨st.cDrops, st.cAcks, st.cAckb, st.cEcnb, u.1⟩, { fs with txRate := u.2 }, some diff)

theorem ccPollConn_alike {κ : Type*} {alg : CcAlg κ} {c : CcConn κ} {curTs diffTs : U32} :
    (ccPollConn alg c fs' curTs diffTs).1 = (ccPollConn alg c fs curTs diffTs).1 ∧
      OutAlike (ccPollConn alg c fs curTs diffTs).2 (ccPollConn alg c fs' curTs diffTs).2 := by
  obtain ⟨d, rfl, hd⟩ := h
  unfold ccPollConn
  split_ifs
  all_goals exact ⟨rfl, ⟨d, rfl, hd⟩, rfl⟩

end

/-! ### Runs -/

/-- A flow and its slow path connection. -/
structure Conn (κ : Type*) where
  fs : FlowState
  cc : CcConn κ

inductive FlowEvent
  | packet (env : FpEnv) (flowId : U32) (p : RxPacket) (spendBudget : Bool) (ts : U32)
  | bump (env : FpEnv) (flowId : U32) (bumpSeq : U16) (rxBump txBump : U32) (flags : U8) (ts : U32)
  | qman (env : FpEnv) (core newCore : U16) (txbuf : ℕ → Byte) (ts : U32)
  | retransmit (flowId : U32)
  | winretransmit (env : FpEnv) (ts : U32)
  | poll (curTs diffTs : U32)

/-- Everything an event makes visible outside of the flow state. -/
inductive FlowOut
  | packet (o : PacketOut)
  | bump (o : BumpOut)
  | qman (o : QmanOut)
  | retransmit (o : Option QmanSet)
  | segment (o : Segment)
  | stats (o : Option ConnStats)

namespace Conn

variable {κ : Type*} {alg : CcAlg κ} {σ σ' : Conn κ}

def step (alg : CcAlg κ) (σ : Conn κ) : FlowEvent → Conn κ × FlowOut
  | .packet env flowId p spendBudget ts =>
    let x := fastFlowsPacket env σ.fs flowId p spendBudget ts
    ({ σ with fs := x.1 }, .packet x.2)
  | .bump env flowId bumpSeq rxBump txBump flags ts =>
    let x := fastFlowsBump env σ.fs flowId bumpSeq rxBump txBump flags ts
    ({ σ with fs := x.1 }, .bump x.2)
  | .qman env core newCore txbuf ts =>
    let x := fastFlowsQman env core newCore σ.fs txbuf ts
    ({ σ with fs := x.1 }, .qman x.2)
  | .retransmit flowId =>
    let x := fastFlowsRetransmit σ.fs flowId
    ({ σ with fs := x.1 }, .retransmit x.2)
  | .winretransmit env ts => (σ, .segment (fastFlowsWinretransmit env σ.fs ts))
  | .poll curTs diffTs =>
    let x := ccPollConn alg σ.cc σ.fs curTs diffTs
    (⟨x.2.1, x.1⟩, .stats x.2.2)

/-- The outputs of a run. -/
def outputs (alg : CcAlg κ) : Conn κ → List FlowEvent → List FlowOut
  | _, [] => []
  | σ, e :: es => (σ.step alg e).2 :: outputs alg (σ.step alg e).1 es

/-- A connection just after `nicif_connection_add`, on a slot with contents `fs`. -/
def opened (fs : FlowState) (c : ConnArgs) (k : κ) : Conn κ := ⟨connectionInit fs c, 0, 0, 0, 0, k⟩

/-- States that the same events drive through the same outputs. -/
def Same (σ σ' : Conn κ) : Prop := Alike σ.fs σ'.fs ∧ σ'.cc = σ.cc

theorem same_step (h : Same σ σ') (e : FlowEvent) :
    Same (σ.step alg e).1 (σ'.step alg e).1 ∧ (σ'.step alg e).2 = (σ.step alg e).2 := by
  obtain ⟨fs, c⟩ := σ
  obtain ⟨fs', c'⟩ := σ'
  obtain ⟨hfs, rfl⟩ : Alike fs fs' ∧ c' = c := h
  cases e with
  | packet env flowId p spendBudget ts =>
    obtain ⟨h, ho⟩ := fastFlowsPacket_alike hfs
    exact ⟨⟨h, rfl⟩, congrArg FlowOut.packet ho⟩
  | bump env flowId bumpSeq rxBump txBump flags ts =>
    obtain ⟨h, ho⟩ := fastFlowsBump_alike hfs
    exact ⟨⟨h, rfl⟩, congrArg FlowOut.bump ho⟩
  | qman env core newCore txbuf ts =>
    obtain ⟨h, ho⟩ := fastFlowsQman_alike hfs
    exact ⟨⟨h, rfl⟩, congrArg FlowOut.qman ho⟩
  | retransmit flowId =>
    obtain ⟨h, ho⟩ := fastFlowsRetransmit_alike hfs
    exact ⟨⟨h, rfl⟩, congrArg FlowOut.retransmit ho⟩
  | winretransmit env ts =>
    refine ⟨⟨hfs, rfl⟩, ?_⟩
    obtain ⟨d, rfl, -⟩ := hfs
    rfl
  | poll curTs diffTs =>
    obtain ⟨hcc, h, ho⟩ := ccPollConn_alike hfs
    exact ⟨⟨h, hcc⟩, congrArg FlowOut.stats ho⟩

theorem outputs_same (h : Same σ σ') (es : List FlowEvent) :
    outputs alg σ' es = outputs alg σ es := by
  induction es generalizing σ σ' with
  | nil => rfl
  | cons e es ih =>
    obtain ⟨hsame, hout⟩ := @same_step κ alg σ σ' h e
    unfold outputs
    rw [hout, ih hsame]

end Conn

/-- Contents of a slot that agree in what `nicif_connection_add` does not write and the
connection reads. -/
structure SameResidue (fs fs' : FlowState) : Prop where
  oooLen : fs'.rxOooLen = fs.rxOooLen
  oooStart : fs.rxOooLen ≠ 0 → fs'.rxOooStart = fs.rxOooStart
  dupack : fs'.rxDupackCnt = fs.rxDupackCnt
  drops : fs'.cntTxDrops = fs.cntTxDrops
  acks : fs'.cntRxAcks = fs.cntRxAcks
  ackBytes : fs'.cntRxAckBytes = fs.cntRxAckBytes
  ecnBytes : fs'.cntRxEcnBytes = fs.cntRxEcnBytes

theorem SameResidue.connectionInit (h : SameResidue fs fs') (c : ConnArgs) :
    Alike (connectionInit fs c) (connectionInit fs' c) := by
  refine ⟨⟨fs'.tunnelId, fs'.inLocalIp, fs'.inRemoteIp, fs'.rxOooStart⟩, ?_, h.oooStart⟩
  unfold Tas.connectionInit FlowState.leave
  rw [h.oooLen, h.dupack, h.drops, h.acks, h.ackBytes, h.ecnBytes]

/-- If the slot's contents agree in the residue, no later event tells them apart. -/
theorem recycled_outputs_eq {κ : Type*} (alg : CcAlg κ) (h : SameResidue fs fs') (c : ConnArgs)
    (k : κ) (es : List FlowEvent) :
    Conn.outputs alg (Conn.opened fs' c k) es = Conn.outputs alg (Conn.opened fs c k) es := by
  have hsame : Conn.Same (Conn.opened fs c k) (Conn.opened fs' c k) := ⟨h.connectionInit c, rfl⟩
  exact Conn.outputs_same hsame es

/-! ### Registers that are not set up again -/

/-- Bytes that an output reports as received. -/
def FlowOut.reported : FlowOut → Option U32
  | .packet o => o.arx.map Arx.rxBump
  | _ => none

/-- Drops that an output shows to the congestion control. -/
def FlowOut.drops : FlowOut → Option U16
  | .stats o => o.map ConnStats.cDrops
  | _ => none

/-- A connection with buffers of 1024 bytes that expects sequence number 1. -/
def smallConn : ConnArgs :=
  { (default : ConnArgs) with rxLen := 1024, txLen := 1024, remoteSeq := 1 }

def alwaysDue : CcAlg Unit := ⟨fun _ _ => true, fun _ _ _ _ => ((), 0)⟩

/-- One byte at sequence number 1, then a poll. -/
def oneByteRun : List FlowEvent :=
  [.packet default 0 { (default : RxPacket) with ipLen := 41, hdrlen := 5, seqno := 1 } false 0,
    .poll 0 0]

/-- A start of an interval without a length is not seen. -/
theorem stale_start_not_seen :
    (Conn.outputs alwaysDue
      (Conn.opened { (default : FlowState) with rxOooStart := 2, tunnelId := 7 } smallConn ())
      oneByteRun).map FlowOut.reported = [some 1, none] := by
  have hres : SameResidue default { (default : FlowState) with rxOooStart := 2, tunnelId := 7 } :=
    ⟨rfl, fun h => absurd rfl h, rfl, rfl, rfl, rfl, rfl⟩
  rw [recycled_outputs_eq alwaysDue hres smallConn () oneByteRun]
  decide

/-- The interval and the drop counter of the last connection show through: one received byte is
reported as 101, and a connection without a loss has 3 drops. -/
theorem residue_seen : let left : FlowState :=
      { (default : FlowState) with rxOooStart := 2, rxOooLen := 100, cntTxDrops := 3 }
    let fresh := Conn.outputs alwaysDue (Conn.opened default smallConn ()) oneByteRun
    let reused := Conn.outputs alwaysDue (Conn.opened left smallConn ()) oneByteRun
    fresh.map FlowOut.reported = [some 1, none] ∧ reused.map FlowOut.reported = [some 101, none] ∧
      fresh.map FlowOut.drops = [none, some 0] ∧ reused.map FlowOut.drops = [none, some 3] := by
  decide

end Tas
