import Tas.TcpCommon

/-! The per-flow operations of `fast_flows.c`, built without GRE tunnelling and with
out-of-order receive processing. -/
namespace Tas

/-- What an operation reads of its core's `dataplane_context` and configuration. -/
structure FpEnv where
  ethAddr : U48
  /-- Remaining budget of the flow's VM. -/
  budget : ℤ
  /-- Result of `flow_should_signal_ece`, a floating point comparison. -/
  signalEce : Bool
deriving Inhabited

/-! ### Buffers -/

/-- The `n` bytes of `src` from `start` on. -/
def bytesAt (src : ℕ → Byte) (start n : ℕ) : List Byte :=
  (List.range n).map fun i => src (start + i)

/-- Write `len` bytes to position `pos` of the circular receive buffer. -/
def flowRxWrite (fs : FlowState) (pos : U32) (len : U16) (src : ℕ → Byte) : List DmaWrite :=
  if pos + len.setWidth 32 ≤ fs.rxLen then
    [⟨pos.toNat, bytesAt src 0 len.toNat⟩]
  else
    let part := fs.rxLen - pos
    [⟨pos.toNat, bytesAt src 0 part.toNat⟩,
      ⟨0, bytesAt src part.toNat (len.setWidth 32 - part).toNat⟩]

/-- Write `len` bytes at the position that sequence number `seq` has in the receive buffer. -/
def flowRxSeqWrite (fs : FlowState) (seq : U32) (len : U16) (src : ℕ → Byte) : List DmaWrite :=
  let diff := seq - fs.rxNextSeq
  let pos := fs.rxNextPos + diff
  let pos := if pos ≥ fs.rxLen then pos - fs.rxLen else pos
  flowRxWrite fs pos len src

/-- Read `len` bytes from position `pos` of the circular transmit buffer. -/
def flowTxRead (fs : FlowState) (txbuf : ℕ → Byte) (pos : U32) (len : U16) : List Byte :=
  if pos + len.setWidth 32 ≤ fs.txLen then
    bytesAt txbuf pos.toNat len.toNat
  else
    let part := fs.txLen - pos
    bytesAt txbuf pos.toNat part.toNat ++ bytesAt txbuf 0 (len.setWidth 32 - part).toNat

/-! ### Segments -/

/-- `TAS_MIN(0xFFFF, rxwnd)` as a header field. -/
def wndField (rxwnd : U32) : U16 := (if rxwnd < 0xffff then rxwnd else 0xffff).setWidth 16

/-- A data segment with the timestamp option, 12 bytes of options after the TCP header. -/
def flowTxSegment (env : FpEnv) (fs : FlowState) (txbuf : ℕ → Byte) (seq ack rxwnd : U32)
    (payload : U16) (payloadPos tsEcho tsMy : U32) (fin : Bool) : Segment where
  ethSrc := env.ethAddr
  ethDst := fs.remoteMac
  ipSrc := fs.outLocalIp
  ipDst := fs.outRemoteIp
  portSrc := fs.localPort
  portDst := fs.remotePort
  ipLen := 52 + payload
  ipEcn := if fs.flag flowstEcn then 2 else 0
  hdrlen := 8
  flags := tcpPsh ||| tcpAck ||| (if fin then tcpFin else 0) |||
    (if fs.flag flowstEcn && env.signalEce then tcpEce else 0)
  seqno := seq
  ackno := ack
  wnd := wndField rxwnd
  tsVal := tsMy
  tsEcr := tsEcho
  payload := if payload > 0 then flowTxRead fs txbuf payloadPos payload else []

/-- Turn the received packet around into an acknowledgement. -/
def flowTxAck (env : FpEnv) (fs : FlowState) (seq ack rxwnd echots myts : U32) (p : RxPacket) :
    Segment where
  ethSrc := p.ethDst
  ethDst := p.ethSrc
  ipSrc := p.ipDst
  ipDst := p.ipSrc
  portSrc := p.portDst
  portDst := p.portSrc
  ipLen := 40 + p.tcpExtraHlen
  ipEcn := 0
  hdrlen := p.hdrlen
  flags := tcpAck ||| (if p.ipEcn = 3 then tcpEce else 0) |||
    (if fs.flag flowstEcn && env.signalEce then tcpEce else 0)
  seqno := seq
  ackno := ack
  wnd := wndField rxwnd
  tsVal := myts
  tsEcr := echots
  payload := []

/-! ### Received packets -/

/-- Reset the transmit state as if the unacknowledged segments were never sent. -/
def flowResetRetransmit (fs : FlowState) : FlowState :=
  { fs with
    rxDupackCnt := 0
    txNextSeq := fs.txNextSeq - fs.txSent
    txNextPos := if fs.txNextPos ≥ fs.txSent then fs.txNextPos - fs.txSent
      else fs.txLen - (fs.txSent - fs.txNextPos)
    txAvail := fs.txAvail + fs.txSent
    txSent := 0
    -- cut rate by half if first drop in control interval
    txRate := if fs.cntTxDrops = 0 then fs.txRate / 2 else fs.txRate
    cntTxDrops := fs.cntTxDrops + 1 }

/-- Take `txBump` acknowledged bytes off the sent ones, and the rest off the available ones. -/
def ackAdvance (fs : FlowState) (txBump : U32) : FlowState :=
  if txBump ≤ fs.txSent then
    { fs with txSent := fs.txSent - txBump }
  else
    let pos := fs.txNextPos + (txBump - fs.txSent)
    { fs with
      txNextSeq := fs.txNextSeq + (txBump - fs.txSent)
      txNextPos := if pos ≥ fs.txLen then pos - fs.txLen else pos
      txAvail := fs.txAvail - (txBump - fs.txSent)
      txSent := 0 }

/-- State after acknowledgement processing, with the acknowledged bytes and whether the
third duplicate acknowledgement ended the packet's processing. -/
structure AckResult where
  fs : FlowState
  txBump : U32
  reset : Bool

/-- Duplicate acknowledgement detection after `ackAdvance`. -/
def packetDupack (fs : FlowState) (txBump origPayload : U32) : AckResult :=
  if txBump ≠ 0 then
    ⟨{ fs with rxDupackCnt := 0 }, txBump, false⟩
  else if origPayload = 0 then
    let fs := { fs with rxDupackCnt := fs.rxDupackCnt + 1 }
    if fs.rxDupackCnt ≥ 3 then ⟨flowResetRetransmit fs, txBump, true⟩ else ⟨fs, txBump, false⟩
  else
    ⟨fs, txBump, false⟩

/-- Statistics for congestion control: the acknowledgements. -/
def countAck (fs : FlowState) : FlowState := { fs with cntRxAcks := fs.cntRxAcks + 1 }

/-- Statistics for congestion control: the acknowledged bytes, and those with an ECN echo. -/
def countAckBytes (fs : FlowState) (p : RxPacket) (txBump : U32) : FlowState :=
  { fs with
    cntRxAckBytes := fs.cntRxAckBytes + txBump
    cntRxEcnBytes := if p.flag tcpEce then fs.cntRxEcnBytes + txBump else fs.cntRxEcnBytes }

/-- Acknowledgement part of `fast_flows_packet`. -/
def packetAck (fs : FlowState) (p : RxPacket) : AckResult :=
  if p.flag tcpAck then
    match tcpValidRxack (countAck fs) p.ackno with
    | none => ⟨countAck fs, 0, false⟩
    | some txBump =>
      packetDupack (ackAdvance (countAckBytes (countAck fs) p txBump) txBump) txBump p.payloadBytes
  else
    ⟨fs, 0, false⟩

/-- State after receive processing, with what it reports and writes. -/
structure RxResult where
  fs : FlowState
  rxBump : U32 := 0
  finBump : Bool := false
  triggerAck : Bool := false
  writes : List DmaWrite := []

/-- A segment that does not start at the next expected byte: it may create the out-of-order
interval or extend it at either end. -/
def packetOoo (fs : FlowState) (seq bytes : U32) (src : ℕ → Byte) : RxResult :=
  if bytes = 0 then
    { fs := fs, triggerAck := true }
  else if fs.rxOooLen = 0 then
    { fs := { fs with rxOooStart := seq, rxOooLen := bytes }
      triggerAck := true
      writes := flowRxSeqWrite fs seq (bytes.setWidth 16) src }
  else if seq + bytes = fs.rxOooStart then
    { fs := { fs with rxOooStart := seq, rxOooLen := fs.rxOooLen + bytes }
      triggerAck := true
      writes := flowRxSeqWrite fs seq (bytes.setWidth 16) src }
  else if fs.rxOooStart + fs.rxOooLen = seq then
    { fs := { fs with rxOooLen := fs.rxOooLen + bytes }
      triggerAck := true
      writes := flowRxSeqWrite fs seq (bytes.setWidth 16) src }
  else
    { fs := fs, triggerAck := true }

/-- Move the next expected byte by `n`: sequence number, buffer position and window. -/
def rxAdvance (fs : FlowState) (n : U32) : FlowState :=
  let pos := fs.rxNextPos + n
  { fs with
    rxAvail := fs.rxAvail - n
    rxNextPos := if pos ≥ fs.rxLen then pos - fs.rxLen else pos
    rxNextSeq := fs.rxNextSeq + n }

/-- Cut the out-of-order interval at both ends. -/
def oooTrim (fs : FlowState) (trimStart trimEnd : U16) : FlowState :=
  { fs with
    rxOooStart := fs.rxOooStart + trimStart.setWidth 32
    rxOooLen := fs.rxOooLen - (trimStart.setWidth 32 + trimEnd.setWidth 32) }

/-- If the out-of-order interval starts at the next expected byte, make it continuous and drop
it. Also returns its bytes. -/
def oooMerge (fs : FlowState) : FlowState × U32 :=
  if fs.rxOooLen > 0 ∧ fs.rxOooStart = fs.rxNextSeq then
    ({ rxAdvance fs fs.rxOooLen with rxOooLen := 0 }, fs.rxOooLen)
  else (fs, 0)

/-- After in-order data: check whether the out-of-order interval is continuous or superfluous.
Also returns the bytes that became continuous. -/
def packetCatchUp (fs : FlowState) : FlowState × U32 :=
  if fs.rxOooLen ≠ 0 then
    match tcpTrimRxbuf fs.rxNextSeq fs.rxAvail fs.rxOooStart (fs.rxOooLen.setWidth 16) with
    | none => ({ fs with rxOooLen := 0 }, 0)
    | some (trimStart, trimEnd) => oooMerge (oooTrim fs trimStart trimEnd)
  else (fs, 0)

/-- Timestamp echo, round trip estimate and remote window of an in-order segment. -/
def packetEstimate (fs : FlowState) (p : RxPacket) (ts : U32) : FlowState :=
  let rtt := ts - p.tsEcr
  { fs with
    txNextTs := p.tsVal
    rttEst :=
      if p.flag tcpAck ∧ p.tsEcr ≠ 0 ∧ rtt < tcpMaxRtt then
        if fs.rttEst ≠ 0 then (fs.rttEst * 7 + rtt) / 8 else rtt
      else fs.rttEst
    rxRemoteAvail := p.wnd.setWidth 32 }

/-- Store in-order payload and report it, together with what it makes continuous. -/
def packetDeliver (fs : FlowState) (bytes : U32) (src : ℕ → Byte) : RxResult :=
  if bytes > 0 then
    let r := packetCatchUp (rxAdvance fs bytes)
    { fs := r.1
      rxBump := bytes + r.2
      triggerAck := true
      writes := flowRxWrite fs fs.rxNextPos (bytes.setWidth 16) src }
  else
    { fs := fs }

/-- A FIN counts when it is next in sequence and nothing is stored out of order. -/
def packetFin (r : RxResult) (p : RxPacket) : RxResult :=
  if p.flag tcpFin ∧ ¬ r.fs.flag flowstRxfin then
    if r.fs.rxNextSeq = p.seqno + p.payloadBytes ∧ r.fs.rxOooLen = 0 then
      { r with
        fs := { r.fs.setFlag flowstRxfin with rxNextSeq := r.fs.rxNextSeq + 1 }
        finBump := true
        triggerAck := true }
    else r
  else r

/-- A segment that starts, after trimming, at the next expected byte. -/
def packetInOrder (fs : FlowState) (p : RxPacket) (ts bytes : U32) (src : ℕ → Byte) : RxResult :=
  let fs := packetEstimate fs p ts
  if fs.flag flowstRxfin ∧ bytes > 0 then
    { fs := fs }
  else
    packetFin (packetDeliver fs bytes src) p

/-- Receive part of `fast_flows_packet`. -/
def packetRx (fs : FlowState) (p : RxPacket) (ts : U32) : RxResult :=
  match tcpTrimRxbuf fs.rxNextSeq fs.rxAvail p.seqno (p.payloadBytes.setWidth 16) with
  | none => { fs := fs, triggerAck := true }
  | some (trimStart, trimEnd) =>
    let bytes := p.payloadBytes - (trimStart.setWidth 32 + trimEnd.setWidth 32)
    let seq := p.seqno + trimStart.setWidth 32
    let src := fun i => p.payload (trimStart.toNat + i)
    if seq ≠ fs.rxNextSeq then packetOoo fs seq bytes src
    else packetInOrder fs p ts bytes src

/-- The call that re-arms a flow's queue with what it may send now. -/
def qmanRearm (fs : FlowState) (flowId avail : U32) : QmanSet where
  vmId := fs.vmId.setWidth 32
  flowId := flowId
  rate := fs.txRate
  avail := avail
  maxChunk := tcpMss.setWidth 16
  flags := qmanSetRate ||| qmanSetMaxchunk ||| qmanSetAvail

/-- The call with which `fast_flows_qman` clears the queue of a flow that moved. -/
def qmanClear (vmId flowId : U32) : QmanSet where
  vmId := vmId
  flowId := flowId
  rate := 0
  avail := 0
  maxChunk := 0
  flags := qmanSetRate ||| qmanSetMaxchunk ||| qmanSetAvail

/-- Effects of `fast_flows_packet` outside of the flow state. -/
structure PacketOut where
  ret : ℤ
  /-- Bytes charged to the VM's counter. -/
  counted : U32 := 0
  writes : List DmaWrite := []
  arx : Option Arx := none
  qset : Option QmanSet := none
  ack : Option Segment := none

/-- Flags the fast path handles; any other one sends the packet to the slow path. -/
def fastFlags : U16 := tcpAck ||| tcpPsh ||| tcpEce ||| tcpCwr ||| tcpFin

/-- From the label `unlock` on: notification, queue manager, acknowledgement. The flow id is
cut to 16 bits, as `flow_id` is declared. -/
def packetUnlock (env : FpEnv) (fs₀ : FlowState) (a : AckResult) (r : RxResult)
    (flowId : U32) (p : RxPacket) (counted ts : U32) : PacketOut :=
  let oldAvail := tcpTxavail fs₀ none
  let newAvail := tcpTxavail r.fs none
  let trigger := decide (p.payloadBytes > 0) || r.triggerAck
  { ret := if trigger then 1 else 0
    counted := counted
    writes := r.writes
    arx :=
      if r.rxBump ≠ 0 ∨ a.txBump ≠ 0 ∨ r.finBump then
        some {
          ctxId := r.fs.dbId
          vmId := r.fs.vmId
          appOpaque := r.fs.appOpaque
          rxBump := r.rxBump
          rxPos := fs₀.rxNextPos
          txBump := a.txBump
          flags := if r.finBump then arxFlrxdone else 0 }
      else none
    qset :=
      if newAvail > oldAvail then
        some (qmanRearm r.fs ((flowId.setWidth 16).setWidth 32) newAvail)
      else none
    ack :=
      if trigger then
        some (flowTxAck env r.fs r.fs.txNextSeq r.fs.rxNextSeq r.fs.rxAvail r.fs.txNextTs ts p)
      else none }

/-- Process a received packet of the flow `flowId`. -/
def fastFlowsPacket (env : FpEnv) (fs : FlowState) (flowId : U32) (p : RxPacket)
    (spendBudget : Bool) (ts : U32) : FlowState × PacketOut :=
  let counted := if spendBudget then p.payloadBytes else 0
  if spendBudget ∧ env.budget ≤ 0 then
    (fs, { ret := 0, counted := counted })
  else if fs.flag flowstSlowpath then
    (fs.setFlag flowstSlowpath, { ret := -1, counted := counted })
  else if p.flags &&& ~~~fastFlags ≠ 0 then
    -- SYN packets are handled out of band and leave the flow on the fast path
    if p.flags &&& tcpSyn ≠ 0 then (fs, { ret := -1, counted := counted })
    else (fs.setFlag flowstSlowpath, { ret := -1, counted := counted })
  else
    let a := packetAck fs p
    let r := if a.reset then { fs := a.fs } else packetRx a.fs p ts
    (r.fs, packetUnlock env fs a r flowId p counted ts)

/-! ### Queue manager, application and retransmission events -/

/-- What `fast_flows_qman` does besides the flow state: hand the flow to another core's
ring, nothing, or emit a segment. -/
inductive QmanOut
  | forward (newCore : U16)
  | idle
  | segment (seg : Segment)
deriving DecidableEq

/-- Bytes the next segment takes out of the transmit buffer. -/
def qmanLen (fs : FlowState) : U32 :=
  let avail := tcpTxavail fs none
  if tcpMss < avail then tcpMss else avail

/-- Transmit state after sending `len` bytes. -/
def txAdvance (fs : FlowState) (len : U32) : FlowState :=
  let pos := fs.txNextPos + len
  { fs with
    txNextSeq := fs.txNextSeq + len
    txNextPos := if pos ≥ fs.txLen then pos - fs.txLen else pos
    txSent := fs.txSent + len
    txAvail := fs.txAvail - len }

/-- Send a segment of a flow whose group is steered to `newCore`, on the core `core`. -/
def fastFlowsQman (env : FpEnv) (core newCore : U16) (fs : FlowState) (txbuf : ℕ → Byte)
    (ts : U32) : FlowState × QmanOut :=
  if newCore ≠ core then
    (fs, .forward newCore)
  else if tcpTxavail fs none = 0 then
    (fs, .idle)
  else
    let len := qmanLen fs
    let fs' := txAdvance fs len
    let fin := fs'.flag flowstTxfin && fs'.txAvail == 0
    -- the dummy byte of the FIN is not sent out
    let payload := if fin then len - 1 else len
    (fs', .segment (flowTxSegment env fs' txbuf fs.txNextSeq fs.rxNextSeq fs.rxAvail
      (payload.setWidth 16) fs.txNextPos fs'.txNextTs ts fin))

/-- Re-arm the queue of a forwarded flow on its new core. The flow id is cut to 16 bits. -/
def fastFlowsQmanFwd (fs : FlowState) (flowId : U32) : QmanSet :=
  qmanRearm fs ((flowId.setWidth 16).setWidth 32) (tcpTxavail fs none)

/-- Update numbers that count as out of order. -/
def bumpOutOfOrder (fsSeq bumpSeq : U16) : Bool :=
  decide ((bumpSeq ≥ fsSeq ∧ bumpSeq - fsSeq > 32767) ∨
    (bumpSeq < fsSeq ∧ (fsSeq < 49149 ∨ bumpSeq > 16383)))

/-- Effects of `fast_flows_bump` outside of the flow state. -/
structure BumpOut where
  /-- The update took effect. -/
  accepted : Bool
  qset : Option QmanSet := none
  /-- Window update. -/
  tx : Option Segment := none

/-- The update closes the transmit direction. -/
def bumpCloses (fs : FlowState) (flags : U8) : Bool :=
  flags &&& atxFltxdone == atxFltxdone && !fs.flag flowstTxfin

/-- Bytes accepted for transmission: none after the close. -/
def bumpTxBytes (fs : FlowState) (txBump : U32) : U32 :=
  if fs.flag flowstTxfin then 0 else txBump

/-- Check of the bytes to transmit. -/
def bumpTxFits (fs : FlowState) (txBytes : U32) : Bool :=
  !decide (txBytes > fs.txLen ∨ fs.txAvail + txBytes > fs.txLen ∨
    fs.txAvail + txBytes + fs.txSent > fs.txLen)

/-- Check of the returned receive buffer. The sum is compared with the length of the transmit
buffer. -/
def bumpRxFits (fs : FlowState) (rxBump : U32) : Bool :=
  !decide (rxBump > fs.rxLen ∨ rxBump + fs.rxAvail > fs.txLen)

/-- Flow state after an accepted update. -/
def bumpState (fs : FlowState) (bumpSeq : U16) (rxBump txBytes : U32) (closes : Bool) :
    FlowState :=
  { if closes then fs.setFlag flowstTxfin else fs with
    bumpSeq := bumpSeq
    txAvail := fs.txAvail + txBytes
    rxAvail := fs.rxAvail + rxBump }

/-- Update the queue pointers of a flow from the application. -/
def fastFlowsBump (env : FpEnv) (fs : FlowState) (flowId : U32) (bumpSeq : U16)
    (rxBump txBump : U32) (flags : U8) (ts : U32) : FlowState × BumpOut :=
  if bumpOutOfOrder fs.bumpSeq bumpSeq then
    (fs, { accepted := false })
  else if bumpCloses fs flags ∧ txBump = 0 then
    -- closing needs a dummy byte
    ({ fs with bumpSeq := bumpSeq }, { accepted := false })
  else if ¬ bumpTxFits fs (bumpTxBytes fs txBump) then
    ({ fs with bumpSeq := bumpSeq }, { accepted := false })
  else if ¬ bumpRxFits fs rxBump then
    ({ fs with bumpSeq := bumpSeq }, { accepted := false })
  else
    let fs' := bumpState fs bumpSeq rxBump (bumpTxBytes fs txBump) (bumpCloses fs flags)
    let oldAvail := tcpTxavail fs none
    let newAvail := tcpTxavail fs (some (fs.txAvail + bumpTxBytes fs txBump))
    (fs', {
      accepted := true
      qset := if oldAvail < newAvail then some (qmanRearm fs' flowId newAvail) else none
      tx :=
        -- receive buffer freed up from empty and nothing to send that would tell
        if newAvail = 0 ∧ fs.rxAvail = 0 ∧ fs'.rxAvail ≠ 0 then
          some (flowTxSegment env fs' (fun _ => 0) fs'.txNextSeq fs'.rxNextSeq fs'.rxAvail
            0 0 fs'.txNextTs ts false)
        else none })

/-- Retransmit an empty segment as a window update. -/
def fastFlowsWinretransmit (env : FpEnv) (fs : FlowState) (ts : U32) : Segment :=
  flowTxSegment env fs (fun _ => 0) fs.txNextSeq fs.rxNextSeq fs.rxAvail 0 0 fs.txNextTs ts false

/-- Start retransmitting. -/
def fastFlowsRetransmit (fs : FlowState) (flowId : U32) : FlowState × Option QmanSet :=
  if fs.txSent = 0 then (fs, none)
  else
    let fs' := flowResetRetransmit fs
    let newAvail := tcpTxavail fs' none
    (fs', if newAvail > tcpTxavail fs none then some (qmanRearm fs' flowId newAvail) else none)

end Tas
