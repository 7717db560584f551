import Tas.Lib.Circ
import Tas.FastFlows
import Tas.Nicif

/-! Receive and transmit registers are updated independently: what each operation leaves
unchanged of either side. -/
namespace Tas

open FlowState

/-- The flow id as `fast_flows_packet` and `fast_flows_qman_fwd` hold it, in 16 bits. -/
def cutId (f : U32) : U32 := (f.setWidth 16).setWidth 32

theorem cutId_of_lt {f : U32} (h : f.toNat < 65536) : cutId f = f := by
  apply BitVec.eq_of_toNat_eq
  unfold cutId
  rw [BitVec.toNat_setWidth, BitVec.toNat_setWidth]
  omega

/-- The receive side of a flow state. -/
@[ext] structure RxView where
  len : U32
  avail : U32
  pos : U32
  seq : U32
  oooStart : U32
  oooLen : U32
  fin : Bool

/-- The transmit side of a flow state. -/
@[ext] structure TxView where
  len : U32
  avail : U32
  sent : U32
  pos : U32
  seq : U32
  fin : Bool

def FlowState.rxView (fs : FlowState) : RxView where
  len := fs.rxLen
  avail := fs.rxAvail
  pos := fs.rxNextPos
  seq := fs.rxNextSeq
  oooStart := fs.rxOooStart
  oooLen := fs.rxOooLen
  fin := fs.flag flowstRxfin

def FlowState.txView (fs : FlowState) : TxView where
  len := fs.txLen
  avail := fs.txAvail
  sent := fs.txSent
  pos := fs.txNextPos
  seq := fs.txNextSeq
  fin := fs.flag flowstTxfin

variable {env : FpEnv} {fs : FlowState} {p : RxPacket} {r : RxResult} {f : U64}
  {ts bytes seq n : U32} {src : ℕ → Byte}

theorem rxView_setFlag (h : f &&& flowstRxfin = 0) : (fs.setFlag f).rxView = fs.rxView := by
  have hflag : (fs.setFlag f).flag flowstRxfin = fs.flag flowstRxfin :=
    flag_setFlag_of_disjoint h
  simp only [rxView, hflag]
  rfl

theorem txView_setFlag (h : f &&& flowstTxfin = 0) : (fs.setFlag f).txView = fs.txView := by
  have hflag : (fs.setFlag f).flag flowstTxfin = fs.flag flowstTxfin :=
    flag_setFlag_of_disjoint h
  simp only [txView, hflag]
  rfl

/-! ### Acknowledgements and transmission keep the receive side -/

/-- A flow state without the registers that acknowledgements and transmission write. -/
def FlowState.untx (fs : FlowState) : FlowState :=
  { fs with
    rxDupackCnt := 0
    txNextSeq := 0
    txNextPos := 0
    txAvail := 0
    txSent := 0
    txRate := 0
    cntTxDrops := 0
    cntRxAcks := 0
    cntRxAckBytes := 0
    cntRxEcnBytes := 0 }

/-- The states differ in these registers only. -/
def TxOnly (fs fs' : FlowState) : Prop := fs'.untx = fs.untx

theorem TxOnly.view {α : Type} {v : FlowState → α} {fs' : FlowState} (h : TxOnly fs fs')
    (hv : ∀ fs : FlowState, v fs.untx = v fs := by exact fun _ => rfl) : v fs' = v fs := by
  rw [← hv fs', h, hv fs]

theorem packetAck_txOnly : TxOnly fs (packetAck fs p).fs := by
  unfold packetAck
  split_ifs
  · cases tcpValidRxack (countAck fs) p.ackno with
    | none => rfl
    | some txBump =>
      have hadv : TxOnly fs (ackAdvance (countAckBytes (countAck fs) p txBump) txBump) := by
        unfold ackAdvance
        split_ifs <;> rfl
      refine Eq.trans ?_ hadv
      dsimp only [packetDupack]
      split_ifs <;> rfl
  · rfl

theorem packetAck_rxView : (packetAck fs p).fs.rxView = fs.rxView :=
  packetAck_txOnly.view

theorem fastFlowsQman_txOnly {core newCore : U16} {txbuf : ℕ → Byte} :
    TxOnly fs (fastFlowsQman env core newCore fs txbuf ts).1 := by
  unfold fastFlowsQman
  split_ifs <;> rfl

theorem fastFlowsRetransmit_txOnly {flowId : U32} :
    TxOnly fs (fastFlowsRetransmit fs flowId).1 := by
  unfold fastFlowsRetransmit
  split_ifs <;> rfl

/-! ### Outcomes of an update from the application -/

section Bump

/-- The next number and the same one again are in order, also across the wrap. -/
theorem bumpOutOfOrder_next {s t : U16} (h : t = s ∨ t = s + 1) : bumpOutOfOrder s t = false := by
  have hone : (1 : U16).toNat = 1 := rfl
  have hnext := Word.toNat_add_cases s 1
  have hs := s.isLt
  have hsub := Word.toNat_sub_cases t s
  have ht : t.toNat = s.toNat ∨ t.toNat = (s + 1).toNat := by
    rcases h with rfl | rfl
    · exact Or.inl rfl
    · exact Or.inr rfl
  unfold bumpOutOfOrder
  rw [decide_eq_false_iff_not]
  simp only [ge_iff_le, gt_iff_lt, BitVec.le_def, BitVec.lt_def]
  have h₁ : (32767 : U16).toNat = 32767 := rfl
  have h₂ : (49149 : U16).toNat = 49149 := rfl
  have h₃ : (16383 : U16).toNat = 16383 := rfl
  omega

variable {flowId rxBump txBump : U32} {bumpSeq : U16} {flags : U8}

/-- `fast_flows_bump` accepts the update. -/
def BumpOk (fs : FlowState) (bumpSeq : U16) (rxBump txBump : U32) (flags : U8) : Prop :=
  bumpOutOfOrder fs.bumpSeq bumpSeq = false ∧ ¬ (bumpCloses fs flags ∧ txBump = 0) ∧
    bumpTxFits fs (bumpTxBytes fs txBump) ∧ bumpRxFits fs rxBump

instance : Decidable (BumpOk fs bumpSeq rxBump txBump flags) := by
  unfold BumpOk; infer_instance

theorem fastFlowsBump_ok (h : BumpOk fs bumpSeq rxBump txBump flags) :
    (fastFlowsBump env fs flowId bumpSeq rxBump txBump flags ts).1 =
        bumpState fs bumpSeq rxBump (bumpTxBytes fs txBump) (bumpCloses fs flags) ∧
      (fastFlowsBump env fs flowId bumpSeq rxBump txBump flags ts).2.accepted = true := by
  obtain ⟨hseq, hclose, htx, hrx⟩ := h
  unfold fastFlowsBump
  rw [if_neg (by simp [hseq]), if_neg hclose, if_neg (not_not.mpr htx), if_neg (not_not.mpr hrx)]
  exact ⟨rfl, rfl⟩

/-- A rejected update changes no more than the update number. -/
theorem fastFlowsBump_not_ok (h : ¬ BumpOk fs bumpSeq rxBump txBump flags) :
    fastFlowsBump env fs flowId bumpSeq rxBump txBump flags ts = (fs, { accepted := false }) ∨
      fastFlowsBump env fs flowId bumpSeq rxBump txBump flags ts =
        ({ fs with bumpSeq := bumpSeq }, { accepted := false }) := by
  unfold fastFlowsBump
  by_cases hseq : bumpOutOfOrder fs.bumpSeq bumpSeq
  · rw [if_pos hseq]
    exact Or.inl rfl
  rw [if_neg hseq]
  by_cases hclose : bumpCloses fs flags ∧ txBump = 0
  · rw [if_pos hclose]
    exact Or.inr rfl
  rw [if_neg hclose]
  by_cases htx : bumpTxFits fs (bumpTxBytes fs txBump)
  · have hrx : ¬ bumpRxFits fs rxBump := fun hrx => h ⟨by simpa using hseq, hclose, htx, hrx⟩
    rw [if_neg (not_not.mpr htx), if_pos hrx]
    exact Or.inr rfl
  · rw [if_pos htx]
    exact Or.inr rfl

theorem bumpState_rxView {txBytes : U32} {closes : Bool} :
    (bumpState fs bumpSeq rxBump txBytes closes).rxView =
      { fs.rxView with avail := fs.rxAvail + rxBump } := by
  cases closes with
  | false => rfl
  | true =>
    have hflag : (fs.setFlag flowstTxfin).flag flowstRxfin = fs.flag flowstRxfin :=
      rxfin_setFlag_txfin
    simp only [rxView, ← hflag]
    rfl

theorem bumpState_txView {txBytes : U32} {closes : Bool} :
    (bumpState fs bumpSeq rxBump txBytes closes).txView =
      { fs.txView with
        avail := fs.txAvail + txBytes
        fin := closes || fs.flag flowstTxfin } := by
  cases closes with
  | false => rfl
  | true =>
    have hflag : (bumpState fs bumpSeq rxBump txBytes true).flag flowstTxfin = true :=
      flag_setFlag_self
    simp only [txView, hflag, Bool.true_or]
    rfl

theorem fastFlowsBump_rxView_not_ok (h : ¬ BumpOk fs bumpSeq rxBump txBump flags) :
    (fastFlowsBump env fs flowId bumpSeq rxBump txBump flags ts).1.rxView = fs.rxView ∧
      (fastFlowsBump env fs flowId bumpSeq rxBump txBump flags ts).2.accepted = false := by
  rcases @fastFlowsBump_not_ok env fs ts flowId rxBump txBump bumpSeq flags h with he | he
  all_goals
    rw [he]
    exact ⟨rfl, rfl⟩

end Bump

/-! ### Outcomes of a packet -/

/-- The packet is handled on the fast path and within the VM's budget. -/
def Processed (env : FpEnv) (fs : FlowState) (p : RxPacket) (spendBudget : Bool) : Prop :=
  ¬ (spendBudget ∧ env.budget ≤ 0) ∧ ¬ fs.flag flowstSlowpath ∧ p.flags &&& ~~~fastFlags = 0

instance (env : FpEnv) (fs : FlowState) (p : RxPacket) (spendBudget : Bool) :
    Decidable (Processed env fs p spendBudget) := by
  unfold Processed; infer_instance

/-- Receive stage of a processed packet: skipped after the third duplicate acknowledgement. -/
def packetBody (fs : FlowState) (p : RxPacket) (ts : U32) : RxResult :=
  if (packetAck fs p).reset then { fs := (packetAck fs p).fs }
  else packetRx (packetAck fs p).fs p ts

variable {flowId : U32} {spendBudget : Bool}

theorem fastFlowsPacket_processed (h : Processed env fs p spendBudget) :
    fastFlowsPacket env fs flowId p spendBudget ts =
      ((packetBody fs p ts).fs,
        packetUnlock env fs (packetAck fs p) (packetBody fs p ts) flowId p
          (if spendBudget then p.payloadBytes else 0) ts) := by
  obtain ⟨hb, hs, hf⟩ := h
  unfold fastFlowsPacket
  rw [if_neg hb, if_neg hs, if_neg (by simp [hf])]
  rfl

/-- A packet that is not processed has no effect but the slow path flag. -/
theorem fastFlowsPacket_not_processed (h : ¬ Processed env fs p spendBudget) :
    ∃ ret counted,
      fastFlowsPacket env fs flowId p spendBudget ts = (fs, { ret := ret, counted := counted }) ∨
      fastFlowsPacket env fs flowId p spendBudget ts =
        (fs.setFlag flowstSlowpath, { ret := ret, counted := counted }) := by
  unfold fastFlowsPacket
  by_cases hb : spendBudget ∧ env.budget ≤ 0
  · rw [if_pos hb]
    exact ⟨_, _, Or.inl rfl⟩
  rw [if_neg hb]
  by_cases hs : fs.flag flowstSlowpath
  · rw [if_pos hs]
    exact ⟨_, _, Or.inr rfl⟩
  rw [if_neg hs]
  have hf : p.flags &&& ~~~fastFlags ≠ 0 := fun hf => h ⟨hb, hs, hf⟩
  rw [if_pos hf]
  by_cases hsyn : p.flags &&& tcpSyn ≠ 0
  · rw [if_pos hsyn]
    exact ⟨_, _, Or.inl rfl⟩
  · rw [if_neg hsyn]
    exact ⟨_, _, Or.inr rfl⟩

theorem fastFlowsPacket_views (h : ¬ Processed env fs p spendBudget) :
    (fastFlowsPacket env fs flowId p spendBudget ts).1.rxView = fs.rxView ∧
      (fastFlowsPacket env fs flowId p spendBudget ts).1.txView = fs.txView := by
  obtain ⟨ret, counted, he | he⟩ := @fastFlowsPacket_not_processed env fs p ts flowId spendBudget h
  · rw [he]
    exact ⟨rfl, rfl⟩
  · rw [he]
    exact ⟨rxView_setFlag (by decide), txView_setFlag (by decide)⟩

/-- FINs that a packet reports. -/
def RxResult.fins (r : RxResult) : ℕ := if r.finBump then 1 else 0

/-- The notification has what the packet reports; without one there is nothing to report. -/
theorem packetUnlock_arx {a : AckResult} {counted : U32} :
    (∃ x, (packetUnlock env fs a r flowId p counted ts).arx = some x ∧ x.rxPos = fs.rxNextPos ∧
      x.rxBump = r.rxBump ∧ x.txBump = a.txBump ∧ x.fins = r.fins) ∨
    ((packetUnlock env fs a r flowId p counted ts).arx = none ∧ r.rxBump = 0 ∧ a.txBump = 0 ∧
      r.fins = 0) := by
  unfold packetUnlock RxResult.fins
  dsimp only
  split_ifs with h hf
  · exact Or.inl ⟨_, rfl, rfl, rfl, rfl, by simp [Arx.fins]⟩
  · exact Or.inl ⟨_, rfl, rfl, rfl, rfl, by simp [Arx.fins, arxFlrxdone]⟩
  · simp_all
  · simp only [not_or, not_not] at h
    exact Or.inr ⟨rfl, h.1, h.2.1, rfl⟩

/-- Only a packet without payload resets the transmission. -/
theorem packetAck_reset (h : (packetAck fs p).reset = true) : p.payloadBytes = 0 := by
  unfold packetAck at h
  split_ifs at h
  cases hack : tcpValidRxack (countAck fs) p.ackno with
  | none => simp [hack] at h
  | some txBump =>
    simp only [hack] at h
    unfold packetDupack at h
    split_ifs at h with hbump hzero
    exact hzero

/-! ### Registers that receive processing changes -/

/-- The registers that receive processing writes. -/
structure RxRegs where
  rxBaseSp : U64
  rxAvail : U32
  rxNextPos : U32
  rxNextSeq : U32
  rxRemoteAvail : U32
  rxOooStart : U32
  rxOooLen : U32
  txNextTs : U32
  rttEst : U32

def FlowState.rxRegs (fs : FlowState) : RxRegs where
  rxBaseSp := fs.rxBaseSp
  rxAvail := fs.rxAvail
  rxNextPos := fs.rxNextPos
  rxNextSeq := fs.rxNextSeq
  rxRemoteAvail := fs.rxRemoteAvail
  rxOooStart := fs.rxOooStart
  rxOooLen := fs.rxOooLen
  txNextTs := fs.txNextTs
  rttEst := fs.rttEst

def FlowState.withRx (fs : FlowState) (v : RxRegs) : FlowState :=
  { fs with
    rxBaseSp := v.rxBaseSp
    rxAvail := v.rxAvail
    rxNextPos := v.rxNextPos
    rxNextSeq := v.rxNextSeq
    rxRemoteAvail := v.rxRemoteAvail
    rxOooStart := v.rxOooStart
    rxOooLen := v.rxOooLen
    txNextTs := v.txNextTs
    rttEst := v.rttEst }

/-- The states differ in these registers only. -/
def RxOnly (fs fs' : FlowState) : Prop := fs' = fs.withRx fs'.rxRegs

/-- Receive processing writes no others, and of the flags it sets at most the end mark. -/
structure RxFrame (fs fs' : FlowState) : Prop where
  only : RxOnly fs fs'
  base : fs'.rxBaseSp = fs.rxBaseSp ∨ fs'.rxBaseSp = (fs.setFlag flowstRxfin).rxBaseSp

theorem packetCatchUp_regs (fs : FlowState) : ∃ avail pos seq start len, (packetCatchUp fs).1 =
    { fs with
      rxAvail := avail
      rxNextPos := pos
      rxNextSeq := seq
      rxOooStart := start
      rxOooLen := len } := by
  unfold packetCatchUp
  split_ifs
  · cases tcpTrimRxbuf fs.rxNextSeq fs.rxAvail fs.rxOooStart (fs.rxOooLen.setWidth 16) with
    | none => exact ⟨_, _, _, _, _, rfl⟩
    | some t =>
      dsimp only [oooMerge]
      split_ifs <;> exact ⟨_, _, _, _, _, rfl⟩
  · exact ⟨_, _, _, _, _, rfl⟩

theorem packetDeliver_regs (fs : FlowState) (bytes : U32) (src : ℕ → Byte) :
    ∃ avail pos seq start len, (packetDeliver fs bytes src).fs =
      { fs with
        rxAvail := avail
        rxNextPos := pos
        rxNextSeq := seq
        rxOooStart := start
        rxOooLen := len } := by
  unfold packetDeliver
  split_ifs
  · exact packetCatchUp_regs (rxAdvance fs bytes)
  · exact ⟨_, _, _, _, _, rfl⟩

theorem packetInOrder_frame : RxFrame fs (packetInOrder fs p ts bytes src).fs := by
  unfold packetInOrder
  dsimp only
  split_ifs
  · exact ⟨rfl, .inl rfl⟩
  · obtain ⟨avail, pos, seq, start, len, hdeliver⟩ :=
      packetDeliver_regs (packetEstimate fs p ts) bytes src
    unfold packetFin
    split_ifs
    · dsimp only
      rw [hdeliver]
      exact ⟨rfl, .inr rfl⟩
    all_goals
      rw [hdeliver]
      exact ⟨rfl, .inl rfl⟩

theorem packetRx_frame : RxFrame fs (packetRx fs p ts).fs := by
  unfold packetRx
  cases tcpTrimRxbuf fs.rxNextSeq fs.rxAvail p.seqno (p.payloadBytes.setWidth 16) with
  | none => exact ⟨rfl, .inl rfl⟩
  | some t =>
    dsimp only
    split_ifs
    · unfold packetOoo
      split_ifs <;> exact ⟨rfl, .inl rfl⟩
    · exact packetInOrder_frame

theorem RxFrame.flag {fs' : FlowState} (h : RxFrame fs fs') (hf : flowstRxfin &&& f = 0) :
    fs'.flag f = fs.flag f := by
  have hset : (fs.setFlag flowstRxfin).flag f = fs.flag f :=
    flag_setFlag_of_disjoint hf
  unfold FlowState.flag at hset ⊢
  rcases h.base with he | he
  · rw [he]
  · rw [he, hset]

theorem packetRx_txView : (packetRx fs p ts).fs.txView = fs.txView := by
  have hframe := @packetRx_frame fs p ts
  have hfin := hframe.flag (f := flowstTxfin) (by decide)
  unfold txView
  rw [hfin, hframe.only]
  rfl

theorem packetBody_txView : (packetBody fs p ts).fs.txView = (packetAck fs p).fs.txView := by
  unfold packetBody
  split_ifs
  · rfl
  · exact packetRx_txView

/-! ### Registers that only updates change -/

/-- Buffer lengths, placement, update number and close mark of a flow. -/
@[ext] structure KeptView where
  rxLen : U32
  txLen : U32
  vmId : U16
  flowGroup : U16
  bumpSeq : U16
  txfin : Bool

def FlowState.kept (fs : FlowState) : KeptView where
  rxLen := fs.rxLen
  txLen := fs.txLen
  vmId := fs.vmId
  flowGroup := fs.flowGroup
  bumpSeq := fs.bumpSeq
  txfin := fs.flag flowstTxfin

theorem kept_setFlag (h : f &&& flowstTxfin = 0) : (fs.setFlag f).kept = fs.kept := by
  have hflag : (fs.setFlag f).flag flowstTxfin = fs.flag flowstTxfin :=
    flag_setFlag_of_disjoint h
  simp only [kept, hflag]
  rfl

theorem packetAck_kept : (packetAck fs p).fs.kept = fs.kept :=
  packetAck_txOnly.view

theorem packetRx_kept : (packetRx fs p ts).fs.kept = fs.kept := by
  have hframe := @packetRx_frame fs p ts
  have hfin := hframe.flag (f := flowstTxfin) (by decide)
  unfold kept
  rw [hfin, hframe.only]
  rfl

theorem packetBody_kept : (packetBody fs p ts).fs.kept = fs.kept := by
  unfold packetBody
  split_ifs
  · exact packetAck_kept
  · rw [packetRx_kept, packetAck_kept]

theorem fastFlowsPacket_kept :
    (fastFlowsPacket env fs flowId p spendBudget ts).1.kept = fs.kept := by
  by_cases h : Processed env fs p spendBudget
  · rw [fastFlowsPacket_processed h]
    exact packetBody_kept
  · obtain ⟨ret, counted, he | he⟩ :=
      @fastFlowsPacket_not_processed env fs p ts flowId spendBudget h
    · rw [he]
    · rw [he]
      exact kept_setFlag (by decide)

/-! ### Registers that stay for the life of a flow -/

/-- The VM of a flow and the addresses of its segments. -/
@[ext] structure FlowPlace where
  vmId : U16
  remoteMac : U48
  outLocalIp : U32
  outRemoteIp : U32
  localPort : U16
  remotePort : U16
deriving DecidableEq

def FlowState.place (fs : FlowState) : FlowPlace where
  vmId := fs.vmId
  remoteMac := fs.remoteMac
  outLocalIp := fs.outLocalIp
  outRemoteIp := fs.outRemoteIp
  localPort := fs.localPort
  remotePort := fs.remotePort

theorem packetAck_place : (packetAck fs p).fs.place = fs.place :=
  packetAck_txOnly.view

theorem packetBody_place : (packetBody fs p ts).fs.place = fs.place := by
  unfold packetBody
  split_ifs
  · exact packetAck_place
  · have hframe := @packetRx_frame (packetAck fs p).fs p ts
    rw [hframe.only]
    exact packetAck_place

theorem fastFlowsPacket_place :
    (fastFlowsPacket env fs flowId p spendBudget ts).1.place = fs.place := by
  by_cases h : Processed env fs p spendBudget
  · rw [fastFlowsPacket_processed h]
    exact packetBody_place
  · obtain ⟨ret, counted, he | he⟩ :=
      @fastFlowsPacket_not_processed env fs p ts flowId spendBudget h
    · rw [he]
    · rw [he]
      rfl

theorem fastFlowsBump_place {rxBump txBump : U32} {bumpSeq : U16} {flags : U8} :
    (fastFlowsBump env fs flowId bumpSeq rxBump txBump flags ts).1.place = fs.place := by
  by_cases h : BumpOk fs bumpSeq rxBump txBump flags
  · rw [(fastFlowsBump_ok h).1]
    unfold bumpState
    split_ifs <;> rfl
  · obtain he | he := @fastFlowsBump_not_ok env fs ts flowId rxBump txBump bumpSeq flags h
    · rw [he]
    · rw [he]
      rfl

end Tas
