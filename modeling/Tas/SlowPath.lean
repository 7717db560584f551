import Tas.Backoff
import Tas.FlowTableRun
import Tas.Lib.Circ
import Tas.Lib.Outcome

/-! Connections and listeners of the slow path: `tcp.c`, and the lists of `cc.c` that hold its
connections. The build is the one without GRE tunnelling. -/
namespace Tas

open Outcome Function

def tcpRst : U16 := 0x04

/-- `TCP_MSS` of `tcp.c`, which is not that of the fast path. -/
def slowMss : U16 := 1412

/-! ### Packets -/

/-- A received packet: what the fast path reads of it, and the bytes after its fixed headers. -/
structure TcpPacket extends RxPacket where
  opt : ℕ → Byte

/-- What is left of `q` after the first `n` bytes of `p` are copied over it, in the fields that
`listener_packet` and `listener_accept` read again. An address of Ethernet starts with its lowest
byte, the other fields with their highest. -/
def TcpPacket.over (p q : TcpPacket) (n : ℕ) : TcpPacket :=
  { p with
    ethSrc := Word.merge (BitVec.allOnes 48 <<< (8 * (n - 6))) p.ethSrc q.ethSrc
    ipSrc := Word.copyHigh (n - 26) p.ipSrc q.ipSrc
    ipDst := Word.copyHigh (n - 30) p.ipDst q.ipDst
    portSrc := Word.copyHigh (n - 34) p.portSrc q.portSrc
    portDst := Word.copyHigh (n - 36) p.portDst q.portDst
    seqno := Word.copyHigh (n - 38) p.seqno q.seqno
    hdrlen := Word.copyHigh (n - 46) p.hdrlen q.hdrlen
    flags := Word.copyHigh (n - 46) p.flags q.flags
    opt i := if pktTcpSize + i < n then p.opt i else q.opt i }

/-- Result of `parse_options`: the timestamp value if there is one, an error, or no return, which
is what an option of length 0 leads to. -/
inductive Parsed
  | ok (ts : Option U32)
  | failed
  | hangs
deriving DecidableEq

/-- The loop of `parse_options` over options of length `optsLen`, from `off` on. -/
def parseLoop (opt : ℕ → Byte) (optsLen : ℕ) : ℕ → ℕ → Option U32 → Parsed
  | 0, _, _ => .hangs
  | fuel + 1, off, ts =>
    if optsLen ≤ off then .ok ts
    else if opt off = 0 then .ok ts
    else if opt off = 1 then parseLoop opt optsLen fuel (off + 1) ts
    else if optsLen - off < 2 then .failed
    else if opt off = 2 ∧ opt (off + 1) ≠ 4 then .failed
    else if opt off = 8 ∧ opt (off + 1) ≠ 10 then .failed
    else
      let ts := if opt off = 8 then
          some (opt (off + 2) ++ opt (off + 3) ++ opt (off + 4) ++ opt (off + 5)) else ts
      if opt (off + 1) = 0 then .hangs
      else parseLoop opt optsLen fuel (off + (opt (off + 1)).toNat) ts

/-- A length below the size of the headers passes the check, which is in unsigned arithmetic. -/
def parseOptions (p : TcpPacket) (len : U16) : Parsed :=
  let optsLen := p.hdrlen.toNat * 4 - 20
  if p.hdrlen < 5 ∨ (pktTcpSize ≤ len.toNat ∧ len.toNat - pktTcpSize < optsLen) then .failed
  else parseLoop p.opt optsLen (optsLen + 1) 0 none

/-- A segment that `send_control_raw` builds. Its own timestamp is 0. -/
structure Control where
  remoteMac : U64
  remoteIp : U32
  remotePort : U16
  localPort : U16
  seqno : U32
  ackno : U32
  flags : U16
  tsEcr : Option U32
  mss : U16
deriving DecidableEq

def sendReset (p : TcpPacket) (ts : Option U32) : Control :=
  ⟨p.ethSrc.setWidth 64, p.ipSrc, p.portSrc, p.portDst, p.ackno, p.seqno + 1, tcpRst ||| tcpAck,
    ts, 0⟩

/-! ### Connections -/

/-- `enum connection_status`. -/
inductive ConnState
  | synWait
  | ovsPending
  | ovsComp
  | arpPending
  | synSent
  | regSynack
  | opened
  | closed
  | failed
deriving DecidableEq

/-- The timers of a connection. -/
inductive ConnTimer
  | handshake
  | closed
deriving DecidableEq

/-- Results of the two `packetmem_alloc` calls of `conn_alloc`. -/
structure ConnBufs where
  rxHandle : ℕ
  rxBase : U64
  txHandle : ℕ
  txBase : U64

/-- `struct connection`. -/
structure Connection where
  appOpaque : U64
  ctx : ℕ
  dbId : U32
  bufs : ConnBufs
  rxLen : U32
  txLen : U32
  remoteMac : U64
  outRemoteIp : U32
  outLocalIp : U32
  remotePort : U16
  localPort : U16
  status : ConnState
  remoteSeq : U32
  localSeq : U32
  synTs : U32
  timeout : U32
  toAttempts : U32
  toArmed : Bool
  toType : ConnTimer
  flags : U32
  fnCore : U32
  flowGroup : U16
  flowId : U32
  compStatus : ℤ
  ccNext : ℕ
  ccRate : U32
  /-- The struct is allocated, and so are its buffers. -/
  live : Bool
  /-- The connection was made by `tcp_open`. -/
  active : Bool
  /-- `cc_conn_init` was called, and `cc_conn_remove` was not. -/
  ccListed : Bool
  /-- The arguments of the `nicif_connection_add` call that succeeded. -/
  installed : Option ConnArgs

/-- What the slow path reads of its configuration, and the hash functions of its tables. -/
structure SlowCfg extends BackoffConfig where
  ip : U32
  rxbufLen : U32
  txbufLen : U32
  /-- The random number that is drawn after so many segments were sent. -/
  rnd : ℕ → U32
  /-- The rate that `cc_conn_init` sets. -/
  ccRate : U32
  vmOf : ℕ → ℕ
  appOf : ℕ → U16
  connHash : FlowKey → U32
  flowHash : FlowKey → U32

variable (cfg : SlowCfg)

def connAlloc (b : ConnBufs) (active : Bool) : Connection where
  appOpaque := 0
  ctx := 0
  dbId := 0
  bufs := b
  rxLen := cfg.rxbufLen
  txLen := cfg.txbufLen
  remoteMac := 0
  outRemoteIp := 0
  outLocalIp := 0
  remotePort := 0
  localPort := 0
  status := .synWait
  remoteSeq := 0
  localSeq := 0
  synTs := 0
  timeout := 0
  toAttempts := 0
  toArmed := false
  toType := .handshake
  flags := 0
  fnCore := 0
  flowGroup := 0
  flowId := 0
  compStatus := 0
  ccNext := 0
  ccRate := 0
  live := true
  active := active
  ccListed := false
  installed := none

namespace Connection

/-- The 4-tuple of the connection. -/
def key (c : Connection) : FlowKey := ⟨c.outLocalIp, c.localPort, c.outRemoteIp, c.remotePort⟩

def sendControl (c : Connection) (flags : U16) (tsEcr : Option U32) (mss : U16) : Control :=
  ⟨c.remoteMac, c.outRemoteIp, c.remotePort, c.localPort, c.localSeq, c.remoteSeq, flags, tsEcr,
    mss⟩

/-- The arguments with which the connection is added to the flow table. -/
def args (c : Connection) (localSeq : U32) : ConnArgs where
  db := c.dbId
  vmId := BitVec.ofNat 16 (cfg.vmOf c.ctx)
  appId := cfg.appOf c.ctx
  macRemote := c.remoteMac
  ipLocal := c.outLocalIp
  portLocal := c.localPort
  ipRemote := c.outRemoteIp
  portRemote := c.remotePort
  rxBase := c.bufs.rxBase
  rxLen := c.rxLen
  txBase := c.bufs.txBase
  txLen := c.txLen
  remoteSeq := c.remoteSeq
  localSeq := localSeq
  appOpaque := c.appOpaque
  flags := c.flags
  rate := c.ccRate
  flowGroup := c.flowGroup

def ecn (c : Connection) : Bool := c.flags &&& nicifConnEcn == nicifConnEcn

/-- The flags of a SYN-ACK of the connection. -/
def synAckFlags (c : Connection) : U16 :=
  tcpSyn ||| tcpAck ||| (if c.ecn then tcpEce else 0)

/-- The fields that `tcp_open` sets before it resolves the address. -/
def openTo (c : Connection) (ctx : ℕ) (appOpaque : U64) (remoteIp : U32) (remotePort : U16)
    (dbId : U32) (localPort : U16) : Connection :=
  { c with
    ctx := ctx
    appOpaque := appOpaque
    outLocalIp := cfg.ip
    remotePort := remotePort
    localPort := localPort
    localSeq := 0
    remoteSeq := 0
    dbId := dbId
    flags := 0
    outRemoteIp := remoteIp
    status := .arpPending
    compStatus := 0 }

/-- `conn_arp_done`, once the timer is armed and without the segment. -/
def arpDone (c : Connection) : Connection :=
  { c with
    status := .synSent
    toAttempts := 0
    timeout := cfg.tcpHandshakeTo
    toArmed := true
    toType := .handshake }

/-- The timer for the SYN, without the time it was armed for. -/
def timer (c : Connection) : HandshakeTimer := ⟨c.timeout, c.toAttempts, 0⟩

/-- The SYN, also when it is sent again. -/
def syn (c : Connection) : Control :=
  c.sendControl (tcpSyn ||| tcpEce ||| tcpCwr) (some 0) slowMss

/-- What `conn_syn_sent_packet` takes from a SYN-ACK. -/
def synAcked (c : Connection) (p : TcpPacket) (ts : U32) : Connection :=
  { c with
    remoteSeq := p.seqno + 1
    localSeq := p.ackno
    synTs := ts
    flags := if p.flags &&& (tcpEce ||| tcpCwr) = tcpEce then c.flags ||| nicifConnEcn else c.flags
    compStatus := 0 }

/-- The SYN-ACK, with the timestamp `ts` of the SYN. -/
def synAck (c : Connection) (ts : U32) : Control :=
  c.sendControl c.synAckFlags (some ts) slowMss

end Connection

/-! ### Listeners -/

/-- A slot of the backlog: the packet, its length, and where it was received. -/
structure BacklogSlot where
  pkt : TcpPacket
  len : U16
  core : U32
  flowGroup : U16

def backlogLen : ℕ := 2048
def listenMultiMax : ℕ := 32

instance : NeZero backlogLen := ⟨by decide⟩

/-- The test for a 4-tuple that is in the backlog. -/
def sameTuple (p q : TcpPacket) : Bool :=
  p.ipSrc = q.ipSrc ∧ p.ipDst = q.ipDst ∧ p.portSrc = q.portSrc ∧ p.portDst = q.portDst

/-- `sizeof(p->eth) + f_beui16(p->ip.len)`, in 16 bits. -/
def slotLen (p : TcpPacket) : U16 := 14 + p.ipLen

/-- The slots of a listener, which are used again, `backlog_pos` and `backlog_used`. -/
structure Backlog where
  slot : ℕ → BacklogSlot
  pos : Fin backlogLen
  used : Fin (backlogLen + 1)

namespace Backlog

variable (r : Backlog)

/-- The loop that looks for the 4-tuple in `n` slots, from index `bp` on. -/
def finds (p : TcpPacket) : ℕ → ℕ → Bool
  | 0, _ => false
  | n + 1, bp => sameTuple p (r.slot bp).pkt || finds p n ((bp + 1) % backlogLen)

/-- The tests of `listener_packet` for a SYN. -/
def admits (p : TcpPacket) : Bool :=
  (slotLen p).toNat ≤ 126 && !r.finds p r.used r.pos && r.used.val != backlogLen

/-- The slot after the used ones. -/
def free : ℕ := (r.pos + r.used) % backlogLen

/-- What this slot holds once the packet is copied to it. -/
def entry (p : TcpPacket) (core : U32) (flowGroup : U16) : BacklogSlot :=
  ⟨p.over (r.slot r.free).pkt (slotLen p).toNat, slotLen p, core, flowGroup⟩

def push (p : TcpPacket) (core : U32) (flowGroup : U16) : Backlog :=
  { r with slot := update r.slot r.free (r.entry p core flowGroup), used := .ofNat _ (r.used + 1) }

/-- The first slot is given up. -/
def pop : Backlog := { r with pos := .ofNat _ (r.pos + 1), used := .ofNat _ (r.used - 1) }

/-- The slots that are used, the oldest one first. -/
def slots : List BacklogSlot := Circ.window backlogLen r.slot r.pos r.used

end Backlog

/-- `struct listener`, with its waiting connections in order. -/
structure Listener where
  ctx : ℕ
  appOpaque : U64
  port : U16
  backlog : Backlog
  waitConns : List ℕ
  live : Bool

/-- Entries of the port table. -/
inductive Port
  | unused
  | listen (l : ℕ)
  | lmulti (ls : List ℕ)
  | conn (c : ℕ)
deriving DecidableEq

def hash64To32 (key : U64) : U32 :=
  let key := ~~~key + (key <<< 18)
  let key := key ^^^ (key >>> 31)
  let key := key * 21
  let key := key ^^^ (key >>> 11)
  let key := key + (key <<< 6)
  let key := key ^^^ (key >>> 22)
  key.setWidth 32

/-- The hash that picks a listener of a group. -/
def listenHash (p : TcpPacket) : U32 := hash64To32 (p.ipSrc ++ p.portSrc ++ p.portDst)

/-- What `listener_accept` takes from a SYN. -/
def Connection.acceptSyn (c : Connection) (port : U16) (b : BacklogSlot) (ts : U32) : Connection :=
  { c with
    fnCore := b.core
    flowGroup := b.flowGroup
    remoteMac := b.pkt.ethSrc.setWidth 64
    outRemoteIp := b.pkt.ipSrc
    outLocalIp := cfg.ip
    remotePort := b.pkt.portSrc
    localPort := port
    remoteSeq := b.pkt.seqno + 1
    localSeq := 1
    synTs := ts
    flags := if b.pkt.flags &&& (tcpEce ||| tcpCwr) = tcpEce ||| tcpCwr then
        c.flags ||| nicifConnEcn else c.flags
    status := .regSynack
    compStatus := 0 }

/-! ### State -/

/-- The tables and queues of the slow path, over the memory of its connections and listeners. -/
structure SlowPath where
  mem : ℕ → Connection
  listener : ℕ → Listener
  ports : U16 → Port
  portEphHint : U16
  /-- The chains of `tcp_hashtable`. -/
  table : ℕ → List ℕ
  asyncQ : List ℕ
  /-- Connections that wait for an address. -/
  resolving : List ℕ
  ccConns : ℕ → ℕ
  nextConn : ℕ → ℕ
  nic : FlowTable
  /-- The connection that a flow id was given to, until it is returned. -/
  owner : U32 → Option ℕ
  /-- Segments that were sent. -/
  sent : List Control

namespace SlowPath

variable (s : SlowPath)

def setConn (c : ℕ) (x : Connection) : SlowPath := { s with mem := update s.mem c x }

def setListener (l : ℕ) (x : Listener) : SlowPath :=
  { s with listener := update s.listener l x }

def setPort (p : U16) (e : Port) : SlowPath := { s with ports := update s.ports p e }

def send (m : Control) : SlowPath := { s with sent := m :: s.sent }

def tcpHtsize : ℕ := 4096

/-- The chain for a 4-tuple. -/
def bucket (key : FlowKey) : ℕ := (cfg.connHash key).toNat % tcpHtsize

def connRegister (c : ℕ) : SlowPath :=
  let h := bucket cfg (s.mem c).key
  { s with table := update s.table h (c :: s.table h) }

def connUnregister (c : ℕ) : Except Fault SlowPath :=
  let h := bucket cfg (s.mem c).key
  if c ∈ s.table h then .ok { s with table := update s.table h ((s.table h).erase c) }
  else .error .assertion

/-- The test of `conn_lookup`. -/
def hits (p : TcpPacket) (x : Connection) : Bool :=
  p.ipSrc = x.outRemoteIp ∧ p.portDst = x.localPort ∧ p.portSrc = x.remotePort

def pktKey (p : TcpPacket) : FlowKey := ⟨p.ipDst, p.portDst, p.ipSrc, p.portSrc⟩

def connLookup (p : TcpPacket) : Option ℕ :=
  (s.table (bucket cfg (pktKey p))).find? fun c => hits p (s.mem c)

/-! ### Congestion control lists -/

def ccConnInit (c : ℕ) : SlowPath :=
  let vm := cfg.vmOf (s.mem c).ctx
  { s.setConn c { s.mem c with
      ccNext := s.ccConns vm
      ccRate := cfg.ccRate
      ccListed := true } with ccConns := update s.ccConns vm c }

/-- The node before `c`, from `cp` on, or null. -/
def ccPred (mem : ℕ → Connection) (c : ℕ) : ℕ → ℕ → Except Fault ℕ
  | 0, _ => .error .unfinished
  | fuel + 1, cp =>
    if cp ≠ 0 ∧ (mem cp).ccNext ≠ c then ccPred mem c fuel (mem cp).ccNext else .ok cp

/-- The cursor is moved off a connection that is removed. -/
def ccSkip (c : ℕ) : SlowPath :=
  let vm := cfg.vmOf (s.mem c).ctx
  if s.nextConn vm = c then
    { s with nextConn := update s.nextConn vm (s.mem c).ccNext }
  else s

def ccUnlist (c : ℕ) : SlowPath := s.setConn c { s.mem c with ccListed := false }

def ccConnRemove (fuel c : ℕ) : Except Fault SlowPath :=
  let vm := cfg.vmOf (s.mem c).ctx
  let s := ccSkip cfg s c
  if s.ccConns vm = c then
    .ok (ccUnlist { s with ccConns := update s.ccConns vm (s.mem c).ccNext } c)
  else do
    let cp ← ccPred s.mem c fuel (s.ccConns vm)
    if cp = 0 then .error .assertion
    else .ok (ccUnlist (s.setConn cp { s.mem cp with ccNext := (s.mem c).ccNext }) c)

/-- The connections that the loop of `cc_poll_vm` visits from `c` on, and where it stops. -/
def ccPollLoop (next : ℕ → ℕ) (head first : ℕ) : ℕ → ℕ → List ℕ × ℕ
  | 0, c => ([], c)
  | n + 1, c =>
    let c' := if next c ≠ 0 then next c else head
    if c' = first then ([c], c')
    else
      let r := ccPollLoop next head first n c'
      (c :: r.1, r.2)

/-- The links of the lists. -/
def ccNexts (c : ℕ) : ℕ := (s.mem c).ccNext

/-- `cc_poll_vm` with budget `n`: the connections it visits, in a state with the new cursor. What
it does to a connection is left out, as it touches neither the links nor the status. -/
def ccPollVm (n vm : ℕ) : List ℕ × SlowPath :=
  let c := if s.nextConn vm ≠ 0 then s.nextConn vm else s.ccConns vm
  if c = 0 then ([], s)
  else
    let r := ccPollLoop s.ccNexts (s.ccConns vm) c n c
    (r.1, { s with nextConn := update s.nextConn vm r.2 })

/-- The connections that the loop of `cc_next_ts_vm` visits. -/
def ccWalk (next : ℕ → ℕ) : ℕ → ℕ → Except Fault (List ℕ)
  | 0, c => if c = 0 then .ok [] else .error .unfinished
  | fuel + 1, c => if c = 0 then .ok [] else (c :: ·) <$> ccWalk next fuel (next c)

/-! ### Connections of the fast path -/

/-- `nicif_connection_add` for a connection. The flag tells whether it succeeded. -/
def nicAdd (c : ℕ) (localSeq : U32) : Except Fault (SlowPath × Bool) :=
  let a := (s.mem c).args cfg localSeq
  match nicifConnectionAdd cfg.flowHash s.nic a with
  | (_, .stuck) => .error .assertion
  | (τ, .failed) => .ok ({ s with nic := τ }, false)
  | (τ, .ok f) =>
    .ok ({ s.setConn c { s.mem c with flowId := f, installed := some a } with
      nic := τ
      owner := update s.owner f (some c) }, true)

/-- Both ends of the flow are closed, with nothing left to be acknowledged. -/
def bothClosed (fs : FlowState) : Bool :=
  (fs.flag flowstTxfin && fs.txSent == 0) && fs.flag flowstRxfin

/-- `nicif_connection_free`. -/
def nicFree (f : U32) : SlowPath :=
  { s with nic := nicifConnectionFree s.nic f, owner := update s.owner f none }

/-! ### Ports -/

def portFirstEph : U16 := 8192

def portNext (p : U16) : U16 := if p + 1 < portFirstEph then portFirstEph else p + 1

/-- The loop of `port_alloc`. -/
def portSearch (ports : U16 → Port) : ℕ → U16 → Option U16
  | 0, _ => none
  | n + 1, p => if ports p = .unused then some p else portSearch ports n (portNext p)

/-- `port_alloc` in `tcp_open`. If there is no port, or only port 0, the connection is freed
through its context, which is not yet set. -/
def portAlloc : Except Fault (SlowPath × U16) :=
  match portSearch s.ports (2 ^ 16 + 1) s.portEphHint with
  | none => .error .assertion
  | some p =>
    if p = 0 then .error .assertion else .ok ({ s with portEphHint := portNext p }, p)

/-! ### Requests -/

/-- Result of `routing_resolve`. -/
inductive Route
  | failed
  | done (mac : U64)
  | pending

/-- `malloc` returned `c`. -/
def fresh (c : ℕ) : Prop := c ≠ 0 ∧ (s.mem c).live = false

instance (c : ℕ) : Decidable (s.fresh c) := inferInstanceAs (Decidable (_ ∧ _))

/-- Arguments of `tcp_open`. -/
structure OpenArgs where
  ctx : ℕ
  appOpaque : U64
  remoteIp : U32
  remotePort : U16
  dbId : U32

/-- `tcp_open` once it has a port. -/
def openAt (o : OpenArgs) (c : ℕ) (b : ConnBufs) (route : Route) (port : U16) : SlowPath :=
  let x := (connAlloc cfg b true).openTo cfg o.ctx o.appOpaque o.remoteIp o.remotePort o.dbId port
  match route with
  | .failed => s.setConn c { x with live := false }
  | .done mac =>
    let x := { x with remoteMac := mac }
    let s := connRegister cfg (s.setConn c x) c
    ((s.setConn c (x.arpDone cfg)).send (x.arpDone cfg).syn).setPort port (.conn c)
  | .pending =>
    let s := connRegister cfg (s.setConn c x) c
    { s with resolving := c :: s.resolving }.setPort port (.conn c)

/-- The timer for the first SYN of a connection, which ends the process if it is out of range. -/
def armSyn : Except Fault HandshakeTimer :=
  orAbort (firstSyn cfg.toBackoffConfig (cfg.rnd s.sent.length))

def tcpOpen (o : OpenArgs) (c : ℕ) (b : ConnBufs) (route : Route) : Except Fault SlowPath := do
  let (s, port) ← s.portAlloc
  if let .done _ := route then
    let _ ← armSyn cfg s
  return openAt cfg s o c b route port

/-- The slots are memory of `malloc`, with what it held before. -/
def newListener (ctx : ℕ) (appOpaque : U64) (port : U16) (slot : ℕ → BacklogSlot) : Listener :=
  ⟨ctx, appOpaque, port, ⟨slot, 0, 0⟩, [], true⟩

def tcpListen (ctx : ℕ) (appOpaque : U64) (port : U16) (reuseport : Bool) (l : ℕ) : SlowPath :=
  let s' := s.setListener l (newListener ctx appOpaque port (s.listener l).backlog.slot)
  match s.ports port, reuseport with
  | .unused, false => s'.setPort port (.listen l)
  | .unused, true => s'.setPort port (.lmulti [l])
  | .lmulti ls, true =>
    if ls.length = listenMultiMax then s else s'.setPort port (.lmulti (ls ++ [l]))
  | _, _ => s

/-! ### Listeners -/

def popBacklog (l : ℕ) : SlowPath :=
  s.setListener l { s.listener l with backlog := (s.listener l).backlog.pop }

def popWait (l : ℕ) : SlowPath :=
  s.setListener l { s.listener l with waitConns := (s.listener l).waitConns.tail }

/-- `listener_accept` up to `nicif_connection_add`: waiting connection `c` takes the SYN of backlog
slot `b`, which has timestamp `ts`. -/
def acceptInit (l c : ℕ) (b : BacklogSlot) (ts : U32) : SlowPath :=
  ccConnInit cfg (s.setConn c ((s.mem c).acceptSyn cfg (s.listener l).port b ts)) c

/-- The connection no longer waits. -/
def acceptDone (l c : ℕ) : SlowPath :=
  let s := connRegister cfg (s.popWait l) c
  { s with asyncQ := s.asyncQ ++ [c] }.popBacklog l

def acceptSlot (l c : ℕ) (b : BacklogSlot) (ts : U32) : Except Fault SlowPath := do
  let s := acceptInit cfg s l c b ts
  let (s, ok) ← nicAdd cfg s c ((s.mem c).localSeq + 1)
  return if ok then acceptDone cfg s l c else s.popBacklog l

def listenerAccept (l : ℕ) : Except Fault SlowPath :=
  match (s.listener l).waitConns, (s.listener l).backlog.slots with
  | c :: _, b :: _ =>
    match parseOptions b.pkt b.len with
    | .hangs => .error .unfinished
    | .failed | .ok none => .ok (s.popBacklog l)
    | .ok (some ts) => acceptSlot cfg s l c b ts
  | _, _ => .error .assertion

/-- Arguments of `tcp_accept`. -/
structure AcceptArgs where
  ctx : ℕ
  appOpaque : U64
  dbId : U32

/-- The connection that `tcp_accept` appends to the waiting ones. -/
def waitConn (a : AcceptArgs) (b : ConnBufs) (port : U16) : Connection :=
  { connAlloc cfg b false with
    ctx := a.ctx
    appOpaque := a.appOpaque
    status := .synWait
    localPort := port
    dbId := a.dbId
    flags := 0 }

def pushWait (l c : ℕ) : SlowPath :=
  s.setListener l { s.listener l with waitConns := (s.listener l).waitConns ++ [c] }

def tcpAccept (a : AcceptArgs) (l c : ℕ) (b : ConnBufs) : Except Fault SlowPath :=
  let s := (s.setConn c (waitConn cfg a b (s.listener l).port)).pushWait l c
  if (s.listener l).backlog.used.val > 0 then listenerAccept cfg s l else .ok s

def listenerLookup (p : TcpPacket) : Option ℕ :=
  match s.ports p.portDst with
  | .listen l => some l
  | .lmulti ls => ls[(listenHash p).toNat % ls.length]?
  | _ => none

def pushBacklog (l : ℕ) (p : TcpPacket) (core : U32) (flowGroup : U16) : SlowPath :=
  s.setListener l { s.listener l with backlog := (s.listener l).backlog.push p core flowGroup }

def listenerPacket (l : ℕ) (p : TcpPacket) (ts : Option U32) (core : U32) (flowGroup : U16) :
    Except Fault SlowPath :=
  if p.flags &&& ~~~(tcpEce ||| tcpCwr) ≠ tcpSyn then .ok (s.send (sendReset p ts))
  else if (s.listener l).backlog.admits p then
    let s := s.pushBacklog l p core flowGroup
    if (s.listener l).waitConns ≠ [] then listenerAccept cfg s l else .ok s
  else .ok s

/-! ### Connections -/

/-- `conn_failed`. If there is room for the notification the connection is destroyed. An
application that does not know the connection aborts the slow path, and ends the run. -/
def connFailed (c : ℕ) (room : Bool) : Except Fault SlowPath := do
  let s ← connUnregister cfg s c
  return s.setConn c { s.mem c with
    toArmed := false
    status := .failed
    live := (s.mem c).live && !room }

/-- `conn_syn_sent_packet` for a SYN-ACK, up to `nicif_connection_add`. -/
def establishInit (c : ℕ) (p : TcpPacket) (ts : U32) : SlowPath :=
  ccConnInit cfg (s.setConn c ((s.mem c).synAcked p ts)) c

/-- The connection is open, and the SYN-ACK is acknowledged. -/
def establishDone (c : ℕ) : SlowPath :=
  let x := { s.mem c with status := .opened }
  (s.setConn c x).send (x.sendControl tcpAck (some x.synTs) 0)

def establish (c : ℕ) (p : TcpPacket) (ts : U32) : Except Fault (SlowPath × Bool) := do
  let s := establishInit cfg s c p ts
  let (s, ok) ← nicAdd cfg s c (s.mem c).localSeq
  return (if ok then establishDone s c else s, ok)

def connSynSentPacket (c : ℕ) (p : TcpPacket) (ts : Option U32) :
    Except Fault (SlowPath × Bool) :=
  if ¬ (s.mem c).toArmed then .error .assertion
  else
    let s := s.setConn c { s.mem c with toArmed := false }
    if p.flags &&& (tcpSyn ||| tcpAck) ≠ tcpSyn ||| tcpAck then .ok (s, false)
    else
      match ts with
      | none => .ok (s, false)
      | some ts => establish cfg s c p ts

def connPacket (c : ℕ) (p : TcpPacket) (ts : Option U32) (core : U32) (flowGroup : U16)
    (room : Bool) : Except Fault SlowPath :=
  let x := s.mem c
  if x.status = .synSent then do
    let s := s.setConn c { x with fnCore := core, flowGroup := flowGroup }
    let (s, ok) ← connSynSentPacket cfg s c p ts
    if ok then return s else connFailed cfg s c room
  else if x.status = .opened ∧ p.flags = tcpSyn then
    match ts with
    | none => connFailed cfg s c room
    | some ts => .ok (s.send (x.synAck ts))
  else if x.status = .opened ∧ p.flags &&& tcpSyn = tcpSyn then .ok s
  else if x.status = .closed ∧ p.flags &&& tcpFin = tcpFin then
    .ok (s.send (x.sendControl tcpAck (some 0) 0))
  else .ok s

/-- An option without length leaves `parse_options` in its loop. Without a connection or a listener
the packet is answered by a reset, unless it is one. -/
def tcpPacket (p : TcpPacket) (len : U16) (core : U32) (flowGroup : U16) (room : Bool) :
    Except Fault SlowPath :=
  if len.toNat < pktTcpSize then .ok s
  else if p.ipDst ≠ cfg.ip then .ok s
  else
    match parseOptions p len with
    | .failed => .ok s
    | .hangs => .error .unfinished
    | .ok ts =>
      match connLookup cfg s p with
      | some c => connPacket cfg s c p ts core flowGroup room
      | none =>
        match s.listenerLookup p with
        | some l => listenerPacket cfg s l p ts core flowGroup
        | none => .ok (if p.flags &&& tcpRst = 0 then s.send (sendReset p ts) else s)

/-- One round of the loop of `tcp_poll`. -/
def tcpPoll (room : Bool) : Except Fault SlowPath :=
  match s.asyncQ with
  | [] => .ok s
  | c :: q =>
    let s := { s with asyncQ := q }
    let x := s.mem c
    if x.status = .arpPending then
      if x.compStatus ≠ 0 then connFailed cfg s c room
      else if x.toArmed then .error .assertion
      else do
        let _ ← armSyn cfg s
        return (s.setConn c (x.arpDone cfg)).send (x.arpDone cfg).syn
    else if x.status = .regSynack then
      if x.compStatus ≠ 0 then connFailed cfg s c room
      else .ok ((s.setConn c { x with status := .opened }).send (x.synAck x.synTs))
    else .ok s

/-- The first part of `tcp_close`: the flow is disabled, and reset unless both ends have closed. -/
def disableConn (c : ℕ) : SlowPath :=
  let fs := s.nic.flowst (s.mem c).flowId
  let x := { s.mem c with remoteSeq := fs.rxNextSeq, localSeq := fs.txNextSeq }
  let s := { s with nic := (nicifConnectionDisable cfg.flowHash s.nic x.flowId).1 }.setConn c x
  if bothClosed fs then s else s.send (x.sendControl tcpRst none 0)

def tcpClose (fuel c : ℕ) : Except Fault SlowPath :=
  if (s.mem c).status ≠ .opened then .ok s
  else do
    let s ← ccConnRemove cfg (disableConn cfg s c) fuel c
    if (s.mem c).toArmed then .error .assertion
    else return s.setConn c { s.mem c with status := .closed, toArmed := true, toType := .closed }

/-- The port of a connection is unused again. The port of a listener stays as it is. -/
def freePort (p : U16) : SlowPath :=
  match s.ports p with
  | .conn _ => s.setPort p .unused
  | _ => s

def connCloseTimeout (c : ℕ) : Except Fault SlowPath := do
  let x := s.mem c
  let s ← connUnregister cfg (s.freePort x.localPort) c
  return (s.nicFree x.flowId).setConn c { x with live := false }

def tcpTimeout (c : ℕ) (room : Bool) : Except Fault SlowPath :=
  if ¬ (s.mem c).toArmed then .error .assertion
  else
    let x := { s.mem c with toArmed := false }
    if x.toType = .closed then connCloseTimeout cfg (s.setConn c x) c
    else if x.status ≠ .synSent then .error .assertion
    else do
      match ← orAbort (handshakeTimeout cfg.toBackoffConfig x.timer (cfg.rnd s.sent.length)) with
      | none => connFailed cfg (s.setConn c { x with toAttempts := x.toAttempts + 1 }) c room
      | some t =>
        let x := { x with
          timeout := t.timeout
          toAttempts := t.toAttempts
          toArmed := true
          toType := .handshake }
        return (s.setConn c x).send x.syn

/-! ### Steps -/

/-- The address of a connection is resolved, or could not be. -/
def resolved (c : ℕ) (mac : U64) (status : ℤ) : SlowPath :=
  { s.setConn c { s.mem c with remoteMac := mac, compStatus := status } with
    resolving := s.resolving.erase c
    asyncQ := s.asyncQ ++ [c] }

end SlowPath

open SlowPath

/-- What the slow path does next. Allocations name what they return. -/
inductive SlowEvent
  | open (o : OpenArgs) (c : ℕ) (b : ConnBufs) (route : Route)
  | listen (ctx : ℕ) (appOpaque : U64) (port : U16) (reuseport : Bool) (l : ℕ)
  | accept (a : AcceptArgs) (l c : ℕ) (b : ConnBufs)
  | packet (p : TcpPacket) (len : U16) (core : U32) (flowGroup : U16) (room : Bool)
  | resolved (c : ℕ) (mac : U64) (status : ℤ)
  | poll (room : Bool)
  | close (fuel c : ℕ)
  | timeout (c : ℕ) (room : Bool)
  | ccPoll (n vm : ℕ)
  /-- The fast path changes a flow state. -/
  | fast (f : U32) (fs : FlowState)

/-- What the callers promise: memory that is allocated is not in use, requests name connections and
listeners that exist, the timer of an existing connection fires, and the fast path does not change
the addresses of a flow. -/
def SlowPath.Enabled (s : SlowPath) : SlowEvent → Prop
  | .open _ c _ _ => s.fresh c
  | .listen _ _ _ _ l => (s.listener l).live = false
  | .accept _ l c _ => (s.listener l).live = true ∧ s.fresh c
  | .resolved c _ _ => c ∈ s.resolving
  | .close _ c | .timeout c _ => (s.mem c).live = true
  | .fast f fs => fs.key = (s.nic.flowst f).key
  | .packet .. | .poll _ | .ccPoll _ _ => True

instance (s : SlowPath) : (e : SlowEvent) → Decidable (s.Enabled e)
  | .open _ c _ _ => inferInstanceAs (Decidable (s.fresh c))
  | .listen _ _ _ _ l => inferInstanceAs (Decidable ((s.listener l).live = false))
  | .accept _ l c _ => inferInstanceAs (Decidable ((s.listener l).live = true ∧ s.fresh c))
  | .resolved c _ _ => inferInstanceAs (Decidable (c ∈ s.resolving))
  | .close _ c | .timeout c _ => inferInstanceAs (Decidable ((s.mem c).live = true))
  | .fast f fs => inferInstanceAs (Decidable (fs.key = (s.nic.flowst f).key))
  | .packet .. | .poll _ | .ccPoll _ _ => inferInstanceAs (Decidable True)

def SlowPath.next (cfg : SlowCfg) (s : SlowPath) : SlowEvent → Except Fault SlowPath
  | .open o c b route => tcpOpen cfg s o c b route
  | .listen ctx appOpaque port reuseport l => .ok (s.tcpListen ctx appOpaque port reuseport l)
  | .accept a l c b => tcpAccept cfg s a l c b
  | .packet p len core flowGroup room => tcpPacket cfg s p len core flowGroup room
  | .resolved c mac status => .ok (s.resolved c mac status)
  | .poll room => tcpPoll cfg s room
  | .close fuel c => tcpClose cfg s fuel c
  | .timeout c room => tcpTimeout cfg s c room
  | .ccPoll n vm => .ok (ccPollVm s n vm).2
  | .fast f fs => .ok { s with nic := { s.nic with flowst := update s.nic.flowst f fs } }

/-- A step of the slow path that returns. -/
def SlowStep (cfg : SlowCfg) (s : SlowPath) (e : SlowEvent) (s' : SlowPath) : Prop :=
  s.Enabled e ∧ s.next cfg e = .ok s'

/-- After `tcp_init`, `cc_init` and `nicif_init`: there are no connections and no listeners. -/
structure SlowStart (s : SlowPath) : Prop where
  mem : ∀ c, (s.mem c).live = false
  listener : ∀ l, (s.listener l).live = false
  waitConns : ∀ l, (s.listener l).waitConns = []
  backlog : ∀ l, (s.listener l).backlog.used = 0
  ports : ∀ p, s.ports p = .unused
  table : ∀ h, s.table h = []
  asyncQ : s.asyncQ = []
  resolving : s.resolving = []
  ccConns : ∀ vm, s.ccConns vm = 0
  nextConn : ∀ vm, s.nextConn vm = 0
  flowht : ∀ k, s.nic.flowht k = ⟨0, 0⟩
  freeIds : s.nic.freeIds = TableRun.idList 0 flowstNum
  owner : ∀ f, s.owner f = none
  sent : s.sent = []

/-! ### Replaying events -/

/-- The state after an event that returns. -/
def SlowPath.after (cfg : SlowCfg) (s : SlowPath) (e : SlowEvent) : SlowPath :=
  match s.next cfg e with
  | .ok s' => s'
  | .error _ => s

theorem slowStep_after {cfg : SlowCfg} {s : SlowPath} {e : SlowEvent} (hen : s.Enabled e)
    (hok : (s.next cfg e).isOk = true) : SlowStep cfg s e (s.after cfg e) := by
  obtain ⟨s', hs⟩ := exists_of_isOk hok
  refine ⟨hen, ?_⟩
  unfold SlowPath.after
  rw [hs]

/-- A configuration in which all 4-tuples collide. -/
def plainCfg : SlowCfg where
  ip := 1
  rxbufLen := 1024
  txbufLen := 1024
  rnd _ := 0
  ccRate := 10000
  vmOf _ := 0
  appOf _ := 0
  connHash _ := 0
  flowHash _ := 0

/-- A segment from port `src` of host 7 to port `dst`. Its only option is a timestamp, or a MSS. -/
def controlPkt (flags src dst : U16) (ts : Bool) : TcpPacket where
  toRxPacket := { (default : RxPacket) with
    ipSrc := 7
    ipDst := 1
    portSrc := src
    portDst := dst
    ipLen := 52
    hdrlen := 8
    flags := flags }
  opt i := if ts then [8, 10].getD i 0 else [2, 4].getD i 0

def noBufs : ConnBufs := ⟨0, 0, 0, 0⟩

/-- No connections and no listeners. -/
def idleSlow : SlowPath where
  mem _ := { connAlloc plainCfg noBufs false with live := false }
  listener _ := ⟨0, 0, 0, ⟨fun _ => ⟨controlPkt 0 0 0 false, 0, 0, 0⟩, 0, 0⟩, [], false⟩
  ports _ := .unused
  portEphHint := portFirstEph
  table _ := []
  asyncQ := []
  resolving := []
  ccConns _ := 0
  nextConn _ := 0
  nic := ⟨fun _ => default, fun _ => ⟨0, 0⟩, TableRun.idList 0 flowstNum⟩
  owner _ := none
  sent := []

theorem slowStart_idle : SlowStart idleSlow :=
  ⟨fun _ => rfl, fun _ => rfl, fun _ => rfl, fun _ => rfl, fun _ => rfl, fun _ => rfl, rfl, rfl,
    fun _ => rfl, fun _ => rfl, fun _ => rfl, rfl, fun _ => rfl, rfl⟩

end Tas
