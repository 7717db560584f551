import Tas.FlowState

/-! The connection of the application library, `flextcp_connection`, and what it posts to and
reads from the fast path. -/
namespace Tas

inductive ConnStatus
  | closed
  | openRequested
  | acceptRequested
  | opened
  | closeRequested
deriving DecidableEq

/-- `struct flextcp_connection`. -/
structure LibConn where
  rxbLen : U32
  rxbHead : U32
  /-- Received bytes that the application has not freed yet. -/
  rxbUsed : U32
  /-- Freed bytes that were not posted yet. -/
  rxbBump : U32
  txbLen : U32
  txbHead : U32
  /-- Sent bytes that were not acknowledged yet. -/
  txbSent : U32
  txbAllocated : U32
  /-- Sent bytes that were not posted yet. -/
  txbBump : U32
  seqRx : U32
  bumpSeq : U32
  fnCore : U16
  bumpPending : Bool
  status : ConnStatus
  /-- `CONN_FLAG_TXEOS`, `CONN_FLAG_TXEOS_ALLOC`, `CONN_FLAG_TXEOS_ACK`. -/
  txeos : Bool
  txeosAlloc : Bool
  txeosAck : Bool
  rxClosed : Bool
deriving DecidableEq

/-- `struct flextcp_pl_atx_connupdate`, without the flow id. -/
structure Atx where
  rxBump : U32
  txBump : U32
  bumpSeq : U16
  flags : U8
deriving DecidableEq

/-- Events for the application: received bytes at an offset of the buffer, space in an exhausted
transmit buffer, the close of a direction. -/
inductive LibEvent
  | received (off len : U32)
  | sendbuf
  | txclosed
  | rxclosed
deriving DecidableEq

/-- Bytes of the transmit buffer that can be allocated. -/
def connTxAllocbytes (c : LibConn) : U32 := c.txbLen - c.txbSent - c.txbAllocated

/-- Bytes that were allocated and not sent. -/
def connTxSendbytes (c : LibConn) : U32 := c.txbAllocated

def connMarkBump (c : LibConn) : LibConn := { c with bumpPending := true }

/-- Position `n` bytes after `head`, as the library wraps it. -/
def txbWrap (c : LibConn) (n : U32) : U32 :=
  let head := c.txbHead + n
  if head ≥ c.txbLen then head - c.txbLen else head

/-- Free `n` received bytes. -/
def rxFree (c : LibConn) (n : U32) : LibConn :=
  { c with rxbUsed := c.rxbUsed - n, rxbBump := c.rxbBump + n }

/-- `flextcp_connection_rx_done`; `none` is an error. -/
def connectionRxDone (c : LibConn) (len : ℕ) : Option LibConn :=
  if c.rxbUsed.toNat < len then none
  else
    let c := rxFree c (BitVec.ofNat 32 len)
    some (if c.rxbBump > c.rxbLen / 4 then connMarkBump c else c)

/-- Take `len` bytes of the transmit buffer. -/
def allocate (c : LibConn) (len : ℕ) : LibConn × ℕ :=
  ({ c with txbAllocated := c.txbAllocated + BitVec.ofNat 32 len }, len)

/-- `flextcp_connection_tx_alloc`: at most to the end of the buffer. -/
def connectionTxAlloc (c : LibConn) (len : ℕ) : Option (LibConn × ℕ) :=
  if c.txeos then none
  else
    let len := min len (connTxAllocbytes c).toNat
    let head := txbWrap c c.txbAllocated
    some (allocate c
      (if head.toNat + len > c.txbLen.toNat then (c.txbLen - head).toNat else len))

/-- `flextcp_connection_tx_alloc2`: in one part or two. -/
def connectionTxAlloc2 (c : LibConn) (len : ℕ) : Option (LibConn × ℕ) :=
  if c.txeos then none
  else some (allocate c (min len (connTxAllocbytes c).toNat))

def connectionTxSend (c : LibConn) (len : ℕ) : Option LibConn :=
  if (connTxSendbytes c).toNat < len then none
  else
    let n := BitVec.ofNat 32 len
    some (connMarkBump { c with
      txbAllocated := c.txbAllocated - n
      txbSent := c.txbSent + n
      txbHead := txbWrap c n
      txbBump := c.txbBump + n })

/-- Result of a call that may run into an assertion. -/
inductive Checked (α : Type*)
  | abort
  | done (a : α)
deriving DecidableEq

/-- `flextcp_conn_pushtxeos`: send the dummy byte of the close. `none` is an error. -/
def connPushtxeos (c : LibConn) : Checked (Option LibConn) :=
  if connTxSendbytes c ≠ 0 ∨ ¬ c.txeos then .abort
  else if connTxAllocbytes c = 0 then .done none
  else
    .done (some (connMarkBump { c with
      txbSent := c.txbSent + 1
      txbHead := txbWrap c 1
      txeosAlloc := true
      txbBump := c.txbBump + 1 }))

/-- `flextcp_connection_tx_close`; `none` is an error. -/
def connectionTxClose (c : LibConn) : Checked (Option LibConn) :=
  if connTxSendbytes c > 0 then .done none
  else if c.txeos then .done none
  else
    let c := { c with txeos := true }
    match connPushtxeos c with
    | .abort => .abort
    -- without space the dummy byte is pushed after the next acknowledgement
    | .done none => .done (some c)
    | .done (some c) => .done (some c)

/-- The calls of an application on a connection. -/
inductive AppCall
  | txAlloc (len : ℕ)
  | txAlloc2 (len : ℕ)
  | txSend (len : ℕ)
  | rxDone (len : ℕ)
  | txClose

/-- The connection after a call, which an error leaves as it was. -/
def LibConn.call (c : LibConn) : AppCall → Checked LibConn
  | .txAlloc len => .done (((connectionTxAlloc c len).map Prod.fst).getD c)
  | .txAlloc2 len => .done (((connectionTxAlloc2 c len).map Prod.fst).getD c)
  | .txSend len => .done ((connectionTxSend c len).getD c)
  | .rxDone len => .done ((connectionRxDone c len).getD c)
  | .txClose =>
    match connectionTxClose c with
    | .abort => .abort
    | .done o => .done (o.getD c)

/-! ### Notifications -/

/-- Events for received bytes: two if they wrap around. -/
def rxEvents (c : LibConn) (rxBump : U32) : List LibEvent :=
  if rxBump > 0 then
    if c.rxbHead + rxBump > c.rxbLen then
      let len := c.rxbLen - c.rxbHead
      [.received c.rxbHead len, .received 0 (rxBump - len)]
    else [.received c.rxbHead rxBump]
  else []

/-- Update of the receive buffer. -/
def rxUpdate (c : LibConn) (rxBump : U32) : LibConn :=
  if rxBump > 0 then
    let head := c.rxbHead + rxBump
    { c with
      seqRx := c.seqRx + rxBump
      rxbHead := if head ≥ c.rxbLen then head - c.rxbLen else head
      rxbUsed := c.rxbUsed + rxBump }
  else c

/-- Update of the transmit buffer, with the event that its close was acknowledged. -/
def txUpdate (c : LibConn) (txBump : U32) : Checked (LibConn × List LibEvent) :=
  if txBump > 0 then
    let c := { c with txbSent := c.txbSent - txBump }
    if c.txeos ∧ ¬ c.txeosAlloc then
      match connPushtxeos c with
      | .done (some c) => .done (c, [])
      | _ => .abort
    else if c.txeosAlloc then
      if c.txeosAck then .abort
      else if c.txbSent = 0 then .done ({ c with txeosAck := true }, [.txclosed])
      else .done (c, [])
    else .done (c, [])
  else .done (c, [])

/-- The event slots that `event_arx_connupdate` asks for. -/
def evsNeeded (c : LibConn) (a : Arx) : ℕ :=
  (rxEvents c a.rxBump).length +
    (if a.txBump > 0 ∧ connTxAllocbytes c = 0 then 1 else 0) +
    (if c.txeosAlloc ∧ c.txbSent - a.txBump = 0 then 1 else 0) +
    (if a.flags &&& arxFlrxdone = arxFlrxdone then 1 else 0)

/-- `event_arx_connupdate` for an open connection. Without events it did not fit into `outn`
slots, and the entry stays in its queue. -/
def openConnupdate (c : LibConn) (a : Arx) (outn : ℕ) :
    Checked (LibConn × Option (List LibEvent)) :=
  if evsNeeded c a > outn then .done (c, none)
  else
    let eos := decide (a.flags &&& arxFlrxdone = arxFlrxdone)
    let avail := if a.txBump > 0 ∧ connTxAllocbytes c = 0 then [LibEvent.sendbuf] else []
    match txUpdate (rxUpdate c a.rxBump) a.txBump with
    | .abort => .abort
    | .done (c', closed) =>
      .done ({ c' with rxClosed := c'.rxClosed || eos },
        some (rxEvents c a.rxBump ++ avail ++ closed ++ if eos then [.rxclosed] else []))

def eventArxConnupdate (c : LibConn) (a : Arx) (outn : ℕ) (fnCore : U16) :
    Checked (LibConn × Option (List LibEvent)) :=
  let c := { c with fnCore := fnCore }
  match c.status with
  | .openRequested | .acceptRequested =>
    -- an update may overtake the kernel's confirmation of the connection
    if a.txBump ≠ 0 then .abort
    else
      .done ({ c with
        rxClosed := decide (a.flags &&& arxFlrxdone = arxFlrxdone)
        rxbHead := c.rxbHead + a.rxBump
        rxbUsed := c.rxbUsed + a.rxBump }, some [])
  | .closed | .closeRequested => .done (c, some [])
  | .opened => openConnupdate c a outn

/-! ### Updates -/

/-- The update that `conns_bump` would post now. -/
def pendingAtx (c : LibConn) : Atx where
  rxBump := c.rxbBump
  txBump := c.txbBump
  bumpSeq := c.bumpSeq.setWidth 16
  flags := if c.txeosAlloc then atxFltxdone else 0

/-- One connection's turn in `conns_bump`, if it is marked: `full` tells whether the queue of its
core has no space. -/
def connsBump (c : LibConn) (full : Bool) : Checked (LibConn × Option Atx) :=
  if ¬ c.bumpPending then .done (c, none)
  else if c.status ≠ .opened then .abort
  else if full then .done (c, none)
  else
    .done ({ c with
      bumpSeq := c.bumpSeq + 1
      rxbBump := 0
      txbBump := 0
      bumpPending := false }, some (pendingAtx c))

end Tas
