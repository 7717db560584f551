import Tas.Gre
import Tas.SlowPath

/-! Replies to received packets: acknowledgements of the fast path, and resets of the slow path. -/
namespace Tas

/-- The addresses of this host: `eth_addr` and `config.ip`. -/
structure HostAddr where
  eth : U48
  ip : U32

/-- The bytes of the options that `send_control_raw` adds, rounded up to words. -/
def controlOptlen (tsOpt : Bool) (mss : U16) : ℕ :=
  ((if mss ≠ 0 then 4 else 0) + (if tsOpt then 10 else 0) + 3) / 4 * 4

/-- `send_control_raw`. -/
def Control.segment (host : HostAddr) (c : Control) : Segment where
  ethDst := c.remoteMac.setWidth 48
  ethSrc := host.eth
  ipLen := BitVec.ofNat 16 (40 + controlOptlen c.tsEcr.isSome c.mss)
  ipEcn := 0
  ipSrc := host.ip
  ipDst := c.remoteIp
  portSrc := c.localPort
  portDst := c.remotePort
  seqno := c.seqno
  ackno := c.ackno
  hdrlen := BitVec.ofNat 4 (5 + controlOptlen c.tsEcr.isSome c.mss / 4)
  flags := c.flags
  wnd := 11680
  tsVal := 0
  tsEcr := c.tsEcr.getD 0
  payload := []

/-- `send_control_raw_gre`, with the arguments that it has besides those for a plain segment. -/
def sendControlRawGre (host : HostAddr) (tunnelId inLocalIp inRemoteIp : U32) (c : Control) :
    GreSegment where
  ethDst := c.remoteMac.setWidth 48
  ethSrc := host.eth
  outIpLen := BitVec.ofNat 16 (68 + controlOptlen c.tsEcr.isSome c.mss)
  outIpEcn := 0
  outIpSrc := host.ip
  outIpDst := c.remoteIp
  greKey := tunnelId
  inIpLen := BitVec.ofNat 16 (40 + controlOptlen c.tsEcr.isSome c.mss)
  inIpEcn := 0
  inIpSrc := inLocalIp
  inIpDst := inRemoteIp
  portSrc := c.localPort
  portDst := c.remotePort
  seqno := c.seqno
  ackno := c.ackno
  hdrlen := BitVec.ofNat 4 (5 + controlOptlen c.tsEcr.isSome c.mss / 4)
  flags := c.flags
  wnd := 11680
  tsVal := 0
  tsEcr := c.tsEcr.getD 0

/-- The inner remote address is given as the outer local one. -/
def sendResetGre (host : HostAddr) (p : GrePacket) (ts : Option U32) : GreSegment :=
  sendControlRawGre host p.greKey p.inIpDst p.outIpDst
    ⟨p.ethSrc.setWidth 64, p.outIpSrc, p.portSrc, p.portDst, p.ackno, p.seqno + 1,
      tcpRst ||| tcpAck, ts, 0⟩

/-- At every layer the segment goes from where the packet went to where it came from. -/
def Segment.Mirrors (r : Segment) (p : RxPacket) : Prop :=
  (r.ethSrc = p.ethDst ∧ r.ethDst = p.ethSrc) ∧ (r.ipSrc = p.ipDst ∧ r.ipDst = p.ipSrc) ∧
    r.portSrc = p.portDst ∧ r.portDst = p.portSrc

def GreSegment.Mirrors (r : GreSegment) (p : GrePacket) : Prop :=
  (r.ethSrc = p.ethDst ∧ r.ethDst = p.ethSrc) ∧
    (r.outIpSrc = p.outIpDst ∧ r.outIpDst = p.outIpSrc) ∧ r.greKey = p.greKey ∧
    (r.inIpSrc = p.inIpDst ∧ r.inIpDst = p.inIpSrc) ∧
    r.portSrc = p.portDst ∧ r.portDst = p.portSrc

/-- Acknowledgements mirror every packet, a plain reset those that were sent to this host, and a
reset in a tunnel only those whose inner source is the outer address of this host. -/
theorem replies_mirror_iff (host : HostAddr) :
    (∀ env fs seq ack rxwnd echots myts p,
      (flowTxAck env fs seq ack rxwnd echots myts p).Mirrors p) ∧
    (∀ env fs seq ack rxwnd echots myts p,
      (flowTxAckGre env fs seq ack rxwnd echots myts p).Mirrors p) ∧
    (∀ (p : TcpPacket) ts, ((sendReset p ts).segment host).Mirrors p.toRxPacket ↔
      p.ethDst = host.eth ∧ p.ipDst = host.ip) ∧
    ∀ p ts, (sendResetGre host p ts).Mirrors p ↔
      p.ethDst = host.eth ∧ p.outIpDst = host.ip ∧ p.inIpSrc = p.outIpDst := by
  refine ⟨fun _ _ _ _ _ _ _ p => ?_, fun _ _ _ _ _ _ _ p => ?_, fun p ts => ?_, fun p ts => ?_⟩
  · exact ⟨⟨rfl, rfl⟩, ⟨rfl, rfl⟩, rfl, rfl⟩
  · exact ⟨⟨rfl, rfl⟩, ⟨rfl, rfl⟩, rfl, ⟨rfl, rfl⟩, rfl, rfl⟩
  · simp [Segment.Mirrors, Control.segment, sendReset, eq_comm]
  · simp [GreSegment.Mirrors, sendResetGre, sendControlRawGre, eq_comm]

/-- The reset of a packet to this host is sent to another inner address than it came from. -/
theorem tunnel_reset_astray : ∃ host p, p.ethDst = host.eth ∧ p.outIpDst = host.ip ∧
    ¬ (sendResetGre host p none).Mirrors p := by
  let p := pktGre (BitVec.ofNat 8) 0
  refine ⟨⟨p.ethDst, p.outIpDst⟩, p, rfl, rfl, fun h => ?_⟩
  obtain ⟨-, -, -, ⟨-, hinner⟩, -⟩ := h
  cases hinner

end Tas
