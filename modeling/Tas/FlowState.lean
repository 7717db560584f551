import Tas.Lib.Word

/-! The per-flow registers that fast path and slow path share, and the packets
the fast path reads and emits. -/
namespace Tas

abbrev Byte := BitVec 8
abbrev U8 := BitVec 8
abbrev U16 := BitVec 16
abbrev U32 := BitVec 32
abbrev U48 := BitVec 48
abbrev U64 := BitVec 64

/-- `struct flextcp_pl_flowst`, without its lock: every operation below runs
between lock and unlock and is one atomic step. -/
@[ext] structure FlowState where
  appOpaque : U64
  /-- Receive buffer base, with the flags in the low six bits. -/
  rxBaseSp : U64
  txBase : U64
  rxLen : U32
  txLen : U32
  tunnelId : U32
  outLocalIp : U32
  outRemoteIp : U32
  inLocalIp : U32
  inRemoteIp : U32
  localPort : U16
  remotePort : U16
  remoteMac : U48
  dbId : U16
  appId : U16
  vmId : U16
  flowGroup : U16
  bumpSeq : U16
  /-- Bytes free for received segments at the next position. -/
  rxAvail : U32
  rxNextPos : U32
  rxNextSeq : U32
  /-- Bytes free at the remote end. -/
  rxRemoteAvail : U32
  rxDupackCnt : U32
  rxOooStart : U32
  rxOooLen : U32
  /-- Bytes in the transmit buffer that were not sent yet. -/
  txAvail : U32
  /-- Bytes before the next position that were sent and not acknowledged. -/
  txSent : U32
  txNextPos : U32
  txNextSeq : U32
  txNextTs : U32
  txRate : U32
  cntTxDrops : U16
  cntRxAcks : U16
  cntRxAckBytes : U32
  cntRxEcnBytes : U32
  rttEst : U32
deriving DecidableEq, Inhabited

/-- Flag bits of `rx_base_sp`. -/
def flowstSlowpath : U64 := 1
def flowstEcn : U64 := 8
def flowstTxfin : U64 := 16
def flowstRxfin : U64 := 32

namespace FlowState

/-- The test `(fs->rx_base_sp & f) == f`. -/
def flag (fs : FlowState) (f : U64) : Bool := fs.rxBaseSp &&& f == f

/-- The assignment `fs->rx_base_sp |= f`. -/
def setFlag (fs : FlowState) (f : U64) : FlowState := { fs with rxBaseSp := fs.rxBaseSp ||| f }

variable {fs : FlowState} {f g : U64}

@[simp] theorem flag_setFlag_self : (fs.setFlag f).flag f = true := by
  simp [flag, setFlag, Word.and_or_self]

theorem flag_setFlag_of_disjoint (h : f &&& g = 0#64) : (fs.setFlag f).flag g = fs.flag g := by
  simp [flag, setFlag, Word.and_or_of_disjoint h]

@[simp] theorem rxfin_setFlag_txfin :
    (fs.setFlag flowstTxfin).flag flowstRxfin = fs.flag flowstRxfin :=
  flag_setFlag_of_disjoint (by decide)

end FlowState

/-- Bits of `TCPH_FLAGS`. -/
def tcpFin : U16 := 0x01
def tcpSyn : U16 := 0x02
def tcpPsh : U16 := 0x08
def tcpAck : U16 := 0x10
def tcpEce : U16 := 0x40
def tcpCwr : U16 := 0x80

/-- What the fast path reads of a received TCP packet, in host byte order. The
constant header fields and the checksums are left out. -/
structure RxPacket where
  ethSrc : U48
  ethDst : U48
  ipSrc : U32
  ipDst : U32
  portSrc : U16
  portDst : U16
  ipLen : U16
  ipEcn : BitVec 2
  /-- `TCPH_HDRLEN`: TCP header length in words. -/
  hdrlen : BitVec 4
  /-- `TCPH_FLAGS`. -/
  flags : U16
  seqno : U32
  ackno : U32
  wnd : U16
  tsVal : U32
  tsEcr : U32
  /-- Byte `i` after the TCP header, as the buffer holds it. -/
  payload : ℕ → Byte
deriving Inhabited

namespace RxPacket

/-- The test `(TCPH_FLAGS & f) == f`. -/
def flag (p : RxPacket) (f : U16) : Bool := p.flags &&& f == f

def tcpExtraHlen (p : RxPacket) : U16 := (p.hdrlen.setWidth 16 - 5) * 4

/-- `ip.len` less both headers: wraps around for a length below them. -/
def payloadBytes (p : RxPacket) : U32 :=
  p.ipLen.setWidth 32 - (20 + 20 + p.tcpExtraHlen.setWidth 32)

end RxPacket

/-- An emitted segment. -/
structure Segment where
  ethSrc : U48
  ethDst : U48
  ipSrc : U32
  ipDst : U32
  portSrc : U16
  portDst : U16
  ipLen : U16
  ipEcn : BitVec 2
  hdrlen : BitVec 4
  flags : U16
  seqno : U32
  ackno : U32
  wnd : U16
  tsVal : U32
  tsEcr : U32
  payload : List Byte
deriving DecidableEq

/-- An entry for the application's receive queue (`flextcp_pl_arx_connupdate`),
with the context and VM it is addressed to. -/
structure Arx where
  ctxId : U16
  vmId : U16
  appOpaque : U64
  rxBump : U32
  rxPos : U32
  txBump : U32
  flags : U8
deriving DecidableEq

def arxFlrxdone : U8 := 1
def atxFltxdone : U8 := 1

/-- FINs that the entry reports. -/
def Arx.fins (a : Arx) : ℕ := if a.flags &&& arxFlrxdone = arxFlrxdone then 1 else 0

/-- The arguments of one `tas_qman_set` call. -/
structure QmanSet where
  vmId : U32
  flowId : U32
  rate : U32
  avail : U32
  maxChunk : U16
  flags : U8
deriving DecidableEq

def qmanSetRate : U8 := 1
def qmanSetMaxchunk : U8 := 2
def qmanSetAvail : U8 := 8
def qmanAddAvail : U8 := 16

/-- `sizeof(struct pkt_tcp)`. -/
def pktTcpSize : ℕ := 54

/-- `FLEXNIC_PL_FLOWST_NUM`. -/
def flowstNum : ℕ := 131072

def tcpMss : U32 := 1400
def tcpMaxRtt : U32 := 100000

/-- One `dma_write` into the receive buffer, at an offset from its base. -/
structure DmaWrite where
  off : ℕ
  data : List Byte
deriving DecidableEq

end Tas
