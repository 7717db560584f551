import Tas.FastFlows

/-! The receive path for packets in a GRE tunnel, and the layout of plain and tunnelled packets.
The functions for the two kinds of packets are copies of each other that read the headers at
different places. -/
namespace Tas

/-! ### Packets in a buffer -/

def be16 (b : ℕ → Byte) (o : ℕ) : U16 := b o ++ b (o + 1)

def be32 (b : ℕ → Byte) (o : ℕ) : U32 := be16 b o ++ be16 b (o + 2)

def be48 (b : ℕ → Byte) (o : ℕ) : U48 := be32 b o ++ be16 b (o + 4)

/-- `IPH_ECN` of the IP header at `o`. -/
def iphEcn (b : ℕ → Byte) (o : ℕ) : BitVec 2 := (b (o + 1)).setWidth 2

/-- `TCPH_HDRLEN` of the TCP header at `o`. -/
def tcphHdrlen (b : ℕ → Byte) (o : ℕ) : BitVec 4 := (be16 b (o + 12) >>> 12).setWidth 4

/-- `TCPH_FLAGS` of the TCP header at `o`. -/
def tcphFlags (b : ℕ → Byte) (o : ℕ) : U16 := be16 b (o + 12) &&& 0x1ff

/-- The packet in a buffer, as `struct pkt_tcp`, with the timestamp option at `tsOff` behind it. -/
def pktTcp (b : ℕ → Byte) (tsOff : ℕ) : RxPacket where
  ethDst := be48 b 0
  ethSrc := be48 b 6
  ipLen := be16 b (14 + 2)
  ipEcn := iphEcn b 14
  ipSrc := be32 b (14 + 12)
  ipDst := be32 b (14 + 16)
  portSrc := be16 b 34
  portDst := be16 b (34 + 2)
  seqno := be32 b (34 + 4)
  ackno := be32 b (34 + 8)
  hdrlen := tcphHdrlen b 34
  flags := tcphFlags b 34
  wnd := be16 b (34 + 14)
  tsVal := be32 b (54 + tsOff + 2)
  tsEcr := be32 b (54 + tsOff + 6)
  payload i := b (54 + (((tcphHdrlen b 34).setWidth 16 - 5) * 4 : U16).toNat + i)

/-- What the fast path reads of a packet in a tunnel. -/
structure GrePacket where
  ethSrc : U48
  ethDst : U48
  outIpSrc : U32
  outIpDst : U32
  greKey : U32
  inIpSrc : U32
  inIpDst : U32
  portSrc : U16
  portDst : U16
  inIpLen : U16
  inIpEcn : BitVec 2
  hdrlen : BitVec 4
  flags : U16
  seqno : U32
  ackno : U32
  wnd : U16
  tsVal : U32
  tsEcr : U32
  payload : ℕ → Byte

/-- The packet in a buffer, as `struct pkt_gre`, with the timestamp option at `tsOff` behind it. -/
def pktGre (b : ℕ → Byte) (tsOff : ℕ) : GrePacket where
  ethDst := be48 b 0
  ethSrc := be48 b 6
  outIpSrc := be32 b (14 + 12)
  outIpDst := be32 b (14 + 16)
  greKey := be32 b (34 + 4)
  inIpLen := be16 b (42 + 2)
  inIpEcn := iphEcn b 42
  inIpSrc := be32 b (42 + 12)
  inIpDst := be32 b (42 + 16)
  portSrc := be16 b 62
  portDst := be16 b (62 + 2)
  seqno := be32 b (62 + 4)
  ackno := be32 b (62 + 8)
  hdrlen := tcphHdrlen b 62
  flags := tcphFlags b 62
  wnd := be16 b (62 + 14)
  tsVal := be32 b (82 + tsOff + 2)
  tsEcr := be32 b (82 + tsOff + 6)
  payload i := b (82 + (((tcphHdrlen b 62).setWidth 16 - 5) * 4 : U16).toNat + i)

namespace GrePacket

/-- The fields that the branches of the receive path read, from the inner headers. -/
def inner (p : GrePacket) : RxPacket where
  ethSrc := p.ethSrc
  ethDst := p.ethDst
  ipSrc := p.inIpSrc
  ipDst := p.inIpDst
  portSrc := p.portSrc
  portDst := p.portDst
  ipLen := p.inIpLen
  ipEcn := p.inIpEcn
  hdrlen := p.hdrlen
  flags := p.flags
  seqno := p.seqno
  ackno := p.ackno
  wnd := p.wnd
  tsVal := p.tsVal
  tsEcr := p.tsEcr
  payload := p.payload

def tcpExtraHlen (p : GrePacket) : U16 := (p.hdrlen.setWidth 16 - 5) * 4

/-- `in_ip.len` less the inner headers. -/
def payloadBytes (p : GrePacket) : U32 :=
  p.inIpLen.setWidth 32 - (20 + 20 + p.tcpExtraHlen.setWidth 32)

end GrePacket

/-! ### The receive path -/

/-- An emitted segment in a tunnel. -/
structure GreSegment where
  ethSrc : U48
  ethDst : U48
  outIpSrc : U32
  outIpDst : U32
  outIpLen : U16
  outIpEcn : BitVec 2
  greKey : U32
  inIpSrc : U32
  inIpDst : U32
  inIpLen : U16
  inIpEcn : BitVec 2
  portSrc : U16
  portDst : U16
  hdrlen : BitVec 4
  flags : U16
  seqno : U32
  ackno : U32
  wnd : U16
  tsVal : U32
  tsEcr : U32

/-- Turn the received packet around into an acknowledgement. -/
def flowTxAckGre (env : FpEnv) (fs : FlowState) (seq ack rxwnd echots myts : U32)
    (p : GrePacket) : GreSegment where
  ethSrc := p.ethDst
  ethDst := p.ethSrc
  inIpSrc := p.inIpDst
  inIpDst := p.inIpSrc
  outIpSrc := p.outIpDst
  outIpDst := p.outIpSrc
  portSrc := p.portDst
  portDst := p.portSrc
  wnd := wndField rxwnd
  inIpEcn := 0
  outIpEcn := 0
  greKey := p.greKey
  seqno := seq
  ackno := ack
  hdrlen := p.hdrlen
  flags := tcpAck ||| (if p.inIpEcn = 3 then tcpEce else 0) |||
    (if fs.flag flowstEcn && env.signalEce then tcpEce else 0)
  tsVal := myts
  tsEcr := echots
  inIpLen := 40 + p.tcpExtraHlen
  outIpLen := 68 + p.tcpExtraHlen

/-- Effects of `fast_flows_packet_gre` outside of the flow state. -/
structure GreOut where
  ret : ℤ
  counted : U32 := 0
  writes : List DmaWrite := []
  arx : Option Arx := none
  qset : Option QmanSet := none
  ack : Option GreSegment := none

/-- From the label `unlock` on: notification, queue manager, acknowledgement. -/
def packetUnlockGre (env : FpEnv) (fs₀ : FlowState) (a : AckResult) (r : RxResult)
    (flowId : U32) (p : GrePacket) (counted ts : U32) : GreOut :=
  let oldAvail := tcpTxavail fs₀ none
  let newAvail := tcpTxavail r.fs none
  let trigger := decide (p.payloadBytes > 0) || r.triggerAck
  { ret := if trigger then 1 else 0
    counted := counted
    writes := r.writes
    arx :=
      if r.rxBump ≠ 0 ∨ a.txBump ≠ 0 ∨ r.finBump then
        some {
          ctxId := r.fs.dbId
          vmId := r.fs.vmId
          appOpaque := r.fs.appOpaque
          rxBump := r.rxBump
          rxPos := fs₀.rxNextPos
          txBump := a.txBump
          flags := if r.finBump then arxFlrxdone else 0 }
      else none
    qset :=
      if newAvail > oldAvail then
        some (qmanRearm r.fs ((flowId.setWidth 16).setWidth 32) newAvail)
      else none
    ack :=
      if trigger then
        some (flowTxAckGre env r.fs r.fs.txNextSeq r.fs.rxNextSeq r.fs.rxAvail r.fs.txNextTs ts p)
      else none }

/-- Process a received packet in a tunnel, of the flow `flowId`. The acknowledgement and the
receive branches are those of the plain path, on the inner headers. -/
def fastFlowsPacketGre (env : FpEnv) (fs : FlowState) (flowId : U32) (p : GrePacket)
    (spendBudget : Bool) (ts : U32) : FlowState × GreOut :=
  let counted := if spendBudget then p.payloadBytes else 0
  if spendBudget ∧ env.budget ≤ 0 then
    (fs, { ret := 0, counted := counted })
  else if fs.flag flowstSlowpath then
    (fs.setFlag flowstSlowpath, { ret := -1, counted := counted })
  else if p.flags &&& ~~~fastFlags ≠ 0 then
    if p.flags &&& tcpSyn ≠ 0 then (fs, { ret := -1, counted := counted })
    else (fs.setFlag flowstSlowpath, { ret := -1, counted := counted })
  else
    let a := packetAck fs p.inner
    let r := if a.reset then { fs := a.fs } else packetRx a.fs p.inner ts
    (r.fs, packetUnlockGre env fs a r flowId p counted ts)

/-! ### Encapsulation -/

variable {b g : ℕ → Byte} {tsOff o : ℕ} {p q : RxPacket}

/-- From the inner IP header on, the packet in the tunnel has the bytes of the plain one. -/
def Encapsulates (g b : ℕ → Byte) : Prop := ∀ i, g (42 + i) = b (14 + i)

theorem Encapsulates.byte (h : Encapsulates g b) (ho : 14 ≤ o) : g (o + 28) = b o := by
  have hi := h (o - 14)
  rwa [show 42 + (o - 14) = o + 28 by omega, Nat.add_sub_cancel' ho] at hi

theorem Encapsulates.be16 (h : Encapsulates g b) (ho : 14 ≤ o) : be16 g (o + 28) = be16 b o := by
  unfold Tas.be16
  rw [h.byte ho, show o + 28 + 1 = o + 1 + 28 by omega, h.byte (by omega)]

theorem Encapsulates.be32 (h : Encapsulates g b) (ho : 14 ≤ o) : be32 g (o + 28) = be32 b o := by
  unfold Tas.be32
  rw [h.be16 ho, show o + 28 + 2 = o + 2 + 28 by omega, h.be16 (by omega)]

/-- The packets differ in the Ethernet addresses at most. -/
def SameSegment (p q : RxPacket) : Prop := q = { p with ethSrc := q.ethSrc, ethDst := q.ethDst }

theorem Encapsulates.sameSegment (h : Encapsulates g b) (tsOff : ℕ) :
    SameSegment (pktTcp b tsOff) (pktGre g tsOff).inner := by
  have hword : Tas.be16 g (62 + 12) = Tas.be16 b (34 + 12) := h.be16 (by omega)
  have hhdrlen : tcphHdrlen g 62 = tcphHdrlen b 34 := by
    unfold tcphHdrlen
    rw [hword]
  have hflags : tcphFlags g 62 = tcphFlags b 34 := by
    unfold tcphFlags
    rw [hword]
  have hecn : iphEcn g 42 = iphEcn b 14 := by
    unfold iphEcn
    rw [h.byte (by omega : 14 ≤ 14 + 1)]
  have hpayload : (pktGre g tsOff).payload = (pktTcp b tsOff).payload := by
    funext i
    change g (82 + _ + i) = b (54 + _ + i)
    rw [hhdrlen, show ∀ n, 82 + n + i = 54 + n + i + 28 by omega]
    exact h.byte (by omega)
  have hts : ∀ k, Tas.be32 g (82 + tsOff + k) = Tas.be32 b (54 + tsOff + k) := by
    intro k
    rw [show 82 + tsOff + k = 54 + tsOff + k + 28 by omega]
    exact h.be32 (by omega)
  unfold SameSegment GrePacket.inner
  rw [RxPacket.mk.injEq]
  exact ⟨rfl, rfl, h.be32 (by omega), h.be32 (by omega), h.be16 (by omega), h.be16 (by omega),
    h.be16 (by omega), hecn, hhdrlen, hflags, h.be32 (by omega), h.be32 (by omega),
    h.be16 (by omega), hts 2, hts 6, hpayload⟩

/-! No branch reads the Ethernet addresses. -/

theorem SameSegment.packetAck_eq (h : SameSegment p q) (fs : FlowState) :
    packetAck fs q = packetAck fs p := by
  rw [h]
  rfl

theorem SameSegment.packetRx_eq (h : SameSegment p q) (fs : FlowState) (ts : U32) :
    packetRx fs q ts = packetRx fs p ts := by
  rw [h]
  rfl

theorem SameSegment.payloadBytes_eq {pg : GrePacket} (h : SameSegment p pg.inner) :
    pg.payloadBytes = p.payloadBytes := by
  have hlen : pg.inIpLen = p.ipLen := congrArg RxPacket.ipLen h
  have hhdrlen : pg.hdrlen = p.hdrlen := congrArg RxPacket.hdrlen h
  unfold GrePacket.payloadBytes GrePacket.tcpExtraHlen
  rw [hlen, hhdrlen]
  rfl

/-- The fields of an acknowledgement that its receiver's TCP looks at. -/
def Segment.ackFields (s : Segment) : U32 × U32 × U16 × U16 := (s.seqno, s.ackno, s.wnd, s.flags)

def GreSegment.ackFields (s : GreSegment) : U32 × U32 × U16 × U16 :=
  (s.seqno, s.ackno, s.wnd, s.flags)

/-- The two functions leave the same flow state and have the same effects. -/
structure SameEffect (r : FlowState × PacketOut) (r' : FlowState × GreOut) : Prop where
  fs : r'.1 = r.1
  ret : r'.2.ret = r.2.ret
  counted : r'.2.counted = r.2.counted
  writes : r'.2.writes = r.2.writes
  arx : r'.2.arx = r.2.arx
  qset : r'.2.qset = r.2.qset
  ack : r'.2.ack.map GreSegment.ackFields = r.2.ack.map Segment.ackFields

theorem packetUnlock_sameEffect {pg : GrePacket} (h : SameSegment p pg.inner) (env : FpEnv)
    (fs₀ : FlowState) (a : AckResult) (r : RxResult) (flowId counted ts : U32) :
    SameEffect (r.fs, packetUnlock env fs₀ a r flowId p counted ts)
      (r.fs, packetUnlockGre env fs₀ a r flowId pg counted ts) := by
  have hecn : pg.inIpEcn = p.ipEcn := congrArg RxPacket.ipEcn h
  have hbytes := h.payloadBytes_eq
  refine ⟨rfl, ?_, rfl, rfl, rfl, rfl, ?_⟩
  · unfold packetUnlockGre packetUnlock
    rw [hbytes]
  · unfold packetUnlockGre packetUnlock
    simp only [hbytes]
    cases decide (p.payloadBytes > 0) || r.triggerAck with
    | false => rfl
    | true =>
      simp only [if_true, Option.map_some]
      unfold GreSegment.ackFields Segment.ackFields flowTxAckGre flowTxAck
      rw [hecn]

theorem gre_receive_agrees (h : Encapsulates g b) (tsOff : ℕ) (env : FpEnv) (fs : FlowState)
    (flowId : U32) (spendBudget : Bool) (ts : U32) :
    SameEffect (fastFlowsPacket env fs flowId (pktTcp b tsOff) spendBudget ts)
      (fastFlowsPacketGre env fs flowId (pktGre g tsOff) spendBudget ts) := by
  have hsame := h.sameSegment tsOff
  have hflags : (pktGre g tsOff).flags = (pktTcp b tsOff).flags :=
    congrArg RxPacket.flags hsame
  have hbytes := hsame.payloadBytes_eq
  unfold fastFlowsPacket fastFlowsPacketGre
  simp only [hflags, hbytes, hsame.packetAck_eq, hsame.packetRx_eq]
  generalize (if spendBudget then (pktTcp b tsOff).payloadBytes else 0) = counted
  split_ifs with hbudget hslow hother hsyn hreset
  iterate 4 exact ⟨rfl, rfl, rfl, rfl, rfl, rfl, rfl⟩
  all_goals exact packetUnlock_sameEffect hsame env fs _ _ flowId _ ts

/-- A data segment with five bytes, and no checksums. -/
def fiveBytes (i : ℕ) : Byte :=
  [2, 0, 0, 0, 0, 1, 2, 0, 0, 0, 0, 2, 8, 0,
    0x45, 3, 0, 57, 0, 0, 0, 0, 64, 6, 0, 0, 10, 0, 0, 2, 10, 0, 0, 1,
    0, 80, 4, 0, 0, 0, 0, 0, 0, 0, 0, 0, 0x80, 0x18, 0, 9, 0, 0, 0, 0,
    1, 1, 8, 10, 0, 0, 0, 7, 0, 0, 0, 0, 104, 101, 108, 108, 111].getD i 0

/-- The segment behind an outer header and a tunnel header. -/
def fiveBytesGre (i : ℕ) : Byte := if i < 42 then 0 else fiveBytes (i - 28)

/-- A flow with an empty receive buffer of eight bytes. -/
def eightFlow : FlowState := { (default : FlowState) with rxLen := 8, rxAvail := 8 }

theorem fiveBytes_agrees :
    ((fastFlowsPacket default eightFlow 3 (pktTcp fiveBytes 2) false 0).2.ack.map
      Segment.ackFields) = some (0, 5, 3, tcpAck ||| tcpEce) ∧
    SameEffect (fastFlowsPacket default eightFlow 3 (pktTcp fiveBytes 2) false 0)
      (fastFlowsPacketGre default eightFlow 3 (pktGre fiveBytesGre 2) false 0) := by
  have hencap : Encapsulates fiveBytesGre fiveBytes := by
    intro i
    unfold fiveBytesGre
    rw [if_neg (by omega), show 42 + i - 28 = 14 + i by omega]
  exact ⟨by decide +kernel, gre_receive_agrees hencap 2 default eightFlow 3 false 0⟩

end Tas
