import Tas.LibTasSpec

/-! The end of a received stream, from the notifications of the fast path cores over the library's
events, `init.c`, to the receive calls of a socket, `context.c` and `transfer.c`. -/
namespace Tas

open Relation List Word

/-- The entry carries the end mark. -/
def Arx.eos (a : Arx) : Bool := decide (a.flags &&& arxFlrxdone = arxFlrxdone)

/-! ### Confirmation of a connection -/

/-- An event of a connection: the confirmation, with its success, or one of the fast path. -/
inductive ConnEvent
  | open (ok : Bool)
  | accept (ok : Bool)
  | lib (e : LibEvent)
deriving DecidableEq

/-- `struct kernel_appin_conn_opened` and `struct kernel_appin_accept_conn`: what the connection
keeps, without addresses. -/
structure Confirmation where
  status : U32
  rxLen : U32
  txLen : U32
  seqRx : U32
  fnCore : U16

/-- The connection is open, and what was received before is counted. -/
def confirmed (c : LibConn) (m : Confirmation) : LibConn :=
  { c with
    status := .opened
    seqRx := if c.rxbUsed > 0 then m.seqRx + c.rxbUsed else m.seqRx
    fnCore := m.fnCore
    rxbLen := m.rxLen
    txbLen := m.txLen }

/-- The events injected for updates that overtook the confirmation. -/
def injected (c : LibConn) : List LibEvent :=
  (if c.rxbUsed > 0 then [.received 0 c.rxbUsed] else []) ++ if c.rxClosed then [.rxclosed] else []

/-- A confirmation, which becomes the event `ev`. Nothing is returned if the events do not fit into
`avail` slots; it stays in its queue then. -/
def eventKappinConfirm (ev : Bool → ConnEvent) (c : LibConn) (m : Confirmation) (avail : ℕ) :
    LibConn × Option (List ConnEvent) :=
  if m.status ≠ 0 then ({ c with status := .closed }, some [ev false])
  else if c.rxbUsed > 0 ∧ c.rxClosed ∧ avail < 3 then (c, none)
  else if (c.rxbUsed > 0 ∨ c.rxClosed) ∧ avail < 2 then (c, none)
  else (confirmed c m, some (ev true :: (injected c).map .lib))

def eventKappinConnOpened := eventKappinConfirm .open

def eventKappinAcceptConn := eventKappinConfirm .accept

/-! ### Sockets -/

inductive SockStatus
  | connecting
  | connected
  | failed
deriving DecidableEq

/-- `struct socket_conn`: the received data that was not read yet is in up to two pieces, at
offsets of the receive buffer. -/
structure Sock where
  status : SockStatus
  rxClosed : Bool
  rxBuf1 : Option ℕ
  rxLen1 : ℕ
  rxBuf2 : Option ℕ
  rxLen2 : ℕ
deriving DecidableEq

/-- `ev_conn_open` and the part of `ev_listen_accept` for the accepted socket. -/
def evConnOpen (s : Sock) (ok : Bool) : Checked Sock :=
  if s.status ≠ .connecting then .abort
  else .done { s with status := if ok then .connected else .failed }

def evConnReceived (s : Sock) (buf len : ℕ) : Checked Sock :=
  if s.status ≠ .connected then .abort
  else if s.rxLen1 = 0 then
    .done { s with rxLen1 := len, rxBuf1 := some buf, rxLen2 := 0 }
  else if s.rxLen2 = 0 ∧ some buf = s.rxBuf1.map (· + s.rxLen1) then
    .done { s with rxLen1 := s.rxLen1 + len }
  else if some buf = s.rxBuf2.map (· + s.rxLen2) then
    .done { s with rxLen2 := s.rxLen2 + len }
  else if s.rxLen2 ≠ 0 then .abort
  else .done { s with rxLen2 := len, rxBuf2 := some buf }

def evConnRxclosed (s : Sock) : Checked Sock :=
  if s.status ≠ .connected then .abort else .done { s with rxClosed := true }

/-- The socket's part of `flextcp_sockctx_poll` for one event. -/
def Sock.handle (s : Sock) : ConnEvent → Checked Sock
  | .open ok => evConnOpen s ok
  | .accept ok => evConnOpen s ok
  | .lib (.received off len) => evConnReceived s off.toNat len.toNat
  | .lib .rxclosed => evConnRxclosed s
  | .lib .sendbuf => .done s
  | .lib .txclosed => .done s

/-- Copy received data to a buffer of `len` bytes; also returns how many. -/
def copyOut (s : Sock) (len : ℕ) : Sock × ℕ :=
  let (s, off) :=
    if s.rxLen1 ≤ len then
      ({ s with rxBuf1 := s.rxBuf2, rxLen1 := s.rxLen2, rxBuf2 := none, rxLen2 := 0 }, s.rxLen1)
    else (s, 0)
  let len2 := min s.rxLen1 (len - off)
  ({ s with rxBuf1 := s.rxBuf1.map (· + len2), rxLen1 := s.rxLen1 - len2 }, off + len2)

/-- The loop of `tas_recvmsg` over the buffers. -/
def copyOuts (s : Sock) : List ℕ → Sock × ℕ
  | [] => (s, 0)
  | len :: lens =>
    if s.rxLen1 > 0 then
      let (s, n) := copyOut s len
      let (s, m) := copyOuts s lens
      (s, n + m)
    else (s, 0)

/-- A receive call on a socket. -/
inductive RecvCall
  | recv (len : ℕ)
  | recvmsg (lens : List ℕ)

/-- Bytes that the call has room for. -/
def RecvCall.room : RecvCall → ℕ
  | .recv len => len
  | .recvmsg lens => lens.sum

/-- `recv_simple` and `tas_recvmsg`. Nothing is returned if the socket is not connected, or if there
is no data and no end of the stream: the call waits or fails. -/
def Sock.recv (s : Sock) (call : RecvCall) : Option (Sock × ℕ) :=
  if s.status ≠ .connected then none
  else if call.room = 0 then some (s, 0)
  else if s.rxLen1 = 0 ∧ ¬ s.rxClosed then none
  else
    match call with
    | .recv len => some (copyOut s len)
    | .recvmsg lens => some (copyOuts s lens)

/-! ### Runs -/

/-- A connection, the entries that were produced for it and not drained yet, each with its queue, in
stream order; the events for the application and those that the socket has not handled yet. Also
the bytes and the end mark produced so far, the bytes that were returned to the fast path, and
those that receive calls returned. -/
structure EosRun where
  conn : LibConn
  pending : List (ℕ × Arx)
  events : List ConnEvent
  unhandled : List ConnEvent
  sock : Sock
  total : ℕ
  fin : Bool
  freed : ℕ
  returned : ℕ

/-- The connection waits for a confirmation. -/
def LibConn.requested (c : LibConn) : Prop :=
  c.status = .openRequested ∨ c.status = .acceptRequested

/-- The bytes that a call of the application returns. -/
def AppCall.freed (c : LibConn) : AppCall → ℕ
  | .rxDone n => rxDoneBytes c n
  | _ => 0

/-- Steps of the system, for a receive buffer of `rxLen` bytes. The cores produce entries for any
queue, and never more bytes than the receive buffer has room for; after the end mark no data
follows. Each queue is drained in order, the queues in any order. -/
inductive EosStep (rxLen : U32) (s : EosRun) : EosRun → Prop
  | produce (q : ℕ) (a : Arx) (hnew : a.rxBump ≠ 0 ∨ a.txBump ≠ 0 ∨ a.eos)
      (hfin : s.fin → a.rxBump = 0 ∧ a.eos = false)
      (hroom : s.total + a.rxBump.toNat ≤ s.freed + rxLen.toNat) :
      EosStep rxLen s { s with
        pending := s.pending ++ [(q, a)]
        total := s.total + a.rxBump.toNat
        fin := s.fin || a.eos }
  | drain {pre post : List (ℕ × Arx)} {q : ℕ} {a : Arx} {c : LibConn} {evs : List LibEvent}
      (outn : ℕ) (hpending : s.pending = pre ++ (q, a) :: post) (hfirst : ∀ e ∈ pre, e.1 ≠ q)
      (hevent : eventArxConnupdate s.conn a outn (BitVec.ofNat 16 q) = .done (c, some evs)) :
      EosStep rxLen s { s with
        conn := c
        pending := pre ++ post
        events := s.events ++ evs.map .lib
        unhandled := s.unhandled ++ evs.map .lib }
  | confirm {c : LibConn} {evs : List ConnEvent} (m : Confirmation) (avail : ℕ)
      (hlen : m.rxLen = rxLen)
      (hevent : s.conn.status = .openRequested ∧
          eventKappinConnOpened s.conn m avail = (c, some evs) ∨
        s.conn.status = .acceptRequested ∧
          eventKappinAcceptConn s.conn m avail = (c, some evs)) :
      EosStep rxLen s { s with
        conn := c
        events := s.events ++ evs
        unhandled := s.unhandled ++ evs }
  | call {c : LibConn} (a : AppCall) (hopen : s.conn.status = .opened)
      (hcall : s.conn.call a = .done c) :
      EosStep rxLen s { s with conn := c, freed := s.freed + a.freed s.conn }
  | bump {c : LibConn} {o : Option Atx} (full : Bool)
      (hbump : connsBump s.conn full = .done (c, o)) : EosStep rxLen s { s with conn := c }
  | handle {ev : ConnEvent} {rest : List ConnEvent} {sock : Sock} (hnext : s.unhandled = ev :: rest)
      (hev : s.sock.handle ev = .done sock) :
      EosStep rxLen s { s with unhandled := rest, sock := sock }
  | recv {sock : Sock} {n : ℕ} (call : RecvCall) (hrecv : s.sock.recv call = some (sock, n)) :
      EosStep rxLen s { s with
        sock := sock
        conn := (connectionRxDone s.conn n).getD s.conn
        returned := s.returned + n
        freed := s.freed + rxDoneBytes s.conn n }

/-- The state before the first entry: `connection_init` zeroed the connection and it waits for its
confirmation. -/
structure EosStart (s : EosRun) : Prop where
  requested : s.conn.requested
  conn : s.conn.rxbHead = 0 ∧ s.conn.rxbUsed = 0 ∧ s.conn.rxClosed = false
  lists : s.pending = [] ∧ s.events = [] ∧ s.unhandled = []
  sock : s.sock.rxLen1 = 0 ∧ s.sock.rxLen2 = 0 ∧ s.sock.rxClosed = false
  counts : s.total = 0 ∧ s.fin = false ∧ s.freed = 0 ∧ s.returned = 0

/-- Bytes that an event reports. -/
def ConnEvent.bytes : ConnEvent → ℕ
  | .lib (.received _ len) => len.toNat
  | _ => 0

def receivedBytes (evs : List ConnEvent) : ℕ := (evs.map ConnEvent.bytes).sum

/-- The end of the stream is reported once, after all bytes of the stream, and a receive call
returns zero only when all of them were returned. -/
structure EosOk (s : EosRun) : Prop where
  last : ∀ pre post, s.events = pre ++ .lib .rxclosed :: post →
    s.fin ∧ receivedBytes pre = s.total ∧ .lib .rxclosed ∉ post
  reported : s.conn.status = .opened → s.fin → (∀ e ∈ s.pending, e.2.eos = false) →
    .lib .rxclosed ∈ s.events
  recv_zero : ∀ call sock, 0 < call.room → s.sock.recv call = some (sock, 0) →
    s.fin ∧ s.returned = s.total

/-- The end mark is drained while an entry with data that was produced before it is still in another
queue. -/
def OvertakesData (s s' : EosRun) : Prop :=
  ∃ pre q a post, s.pending = pre ++ (q, a) :: post ∧ s'.pending = pre ++ post ∧ a.eos ∧
    ∃ e ∈ pre, e.2.rxBump ≠ 0

/-- A step that does not drain the end mark too early. -/
def OrderedStep (rxLen : U32) (s s' : EosRun) : Prop := EosStep rxLen s s' ∧ ¬ OvertakesData s s'

/-! ### What the library does with an entry -/

section Library

variable {c c' : LibConn} {a : Arx} {outn : ℕ} {core : U16} {evs : List LibEvent}

theorem connPushtxeos_frees (h : connPushtxeos c = .done (some c')) : Frees c c' 0 := by
  unfold connPushtxeos at h
  split_ifs at h
  · cases h
  · cases Checked.done.inj h
    exact ⟨rfl, rfl, rfl, rfl, rfl⟩

/-- Acknowledged bytes change nothing on the receive side, and the events say nothing about it. -/
theorem txUpdate_frees {n : U32} (h : txUpdate c n = .done (c', evs)) :
    Frees c c' 0 ∧ (evs = [] ∨ evs = [.txclosed]) := by
  unfold txUpdate at h
  dsimp only at h
  split_ifs at h with hn hpush halloc hack hlast
  · split at h
    · next hdone =>
      cases h
      exact ⟨{ connPushtxeos_frees hdone with }, Or.inl rfl⟩
    · cases h
  all_goals
    cases h
    exact ⟨⟨rfl, rfl, rfl, rfl, rfl⟩, by simp⟩

theorem receivedBytes_append (xs ys : List ConnEvent) :
    receivedBytes (xs ++ ys) = receivedBytes xs + receivedBytes ys := by
  simp [receivedBytes]

/-- The events for received bytes report all of them. -/
theorem receivedBytes_rxEvents (hhead : c.rxbHead ≤ c.rxbLen) (n : U32) :
    receivedBytes ((rxEvents c n).map .lib) = n.toNat := by
  unfold rxEvents
  split_ifs with hpos hwrap
  · -- the first part ends at the end of the buffer
    have hle : c.rxbLen - c.rxbHead ≤ n := by
      rw [BitVec.le_def, toNat_sub_of_le hhead]
      have := BitVec.le_def.1 hhead
      have hlt := BitVec.lt_def.1 hwrap
      have hn := n.isLt
      rcases toNat_add_cases c.rxbHead n with hadd | hadd <;> omega
    have hsub := toNat_sub_of_le hle
    have := BitVec.le_def.1 hle
    simp only [receivedBytes, map_cons, map_nil, sum_cons, sum_nil,
      ConnEvent.bytes]
    omega
  · simp [receivedBytes, ConnEvent.bytes]
  · simp [receivedBytes, eq_zero_of_not_pos hpos]

theorem rxclosed_not_mem_rxEvents (n : U32) : LibEvent.rxclosed ∉ rxEvents c n := by
  unfold rxEvents
  split_ifs <;> simp

/-- An open connection handles an entry: it reports the bytes, then other things, then the end. -/
structure Handled (c c' : LibConn) (a : Arx) (evs : List LibEvent) : Prop where
  rx : Frees { rxUpdate c a.rxBump with rxClosed := c.rxClosed || a.eos } c' 0
  events : ∃ others, evs = rxEvents c a.rxBump ++ others ++ (if a.eos then [.rxclosed] else []) ∧
    LibEvent.rxclosed ∉ others ∧ receivedBytes (others.map .lib) = 0

theorem openConnupdate_handled (h : openConnupdate c a outn = .done (c', some evs)) :
    Handled c c' a evs := by
  unfold openConnupdate at h
  by_cases hfull : evsNeeded c a > outn
  · rw [if_pos hfull] at h
    cases h
  rw [if_neg hfull] at h
  dsimp only at h
  generalize havail : (if a.txBump > 0 ∧ connTxAllocbytes c = 0 then [LibEvent.sendbuf] else []) =
    avail at h
  have hsendbuf : avail = [] ∨ avail = [.sendbuf] := by
    rw [← havail]
    split_ifs
    · exact Or.inr rfl
    · exact Or.inl rfl
  cases hupdate : txUpdate (rxUpdate c a.rxBump) a.txBump with
  | abort =>
    rw [hupdate] at h
    cases h
  | done r =>
    obtain ⟨c₁, closed⟩ := r
    rw [hupdate] at h
    obtain ⟨rfl, hevs⟩ := Prod.mk.inj (Checked.done.inj h)
    obtain ⟨hsame, hclosed⟩ := txUpdate_frees hupdate
    have hkeeps := (rxUpdate_keeps (c := c) a.rxBump).1
    refine ⟨{ hsame with rxClosed := ?_ }, avail ++ closed, ?_, ?_⟩
    · rw [hsame.rxClosed, hkeeps]
      rfl
    · rw [← Option.some.inj hevs]
      simp [Arx.eos]
    · rcases hsendbuf with rfl | rfl <;> rcases hclosed with rfl | rfl <;>
        simp [receivedBytes, ConnEvent.bytes]

end Library

/-! ### Calls of the application -/

section Calls

variable {c c' : LibConn}

theorem connectionTxClose_frees {o : Option LibConn} (h : connectionTxClose c = .done o) :
    Frees c (o.getD c) 0 := by
  unfold connectionTxClose at h
  split_ifs at h
  · cases h
    exact ⟨rfl, rfl, rfl, rfl, rfl⟩
  · cases h
    exact ⟨rfl, rfl, rfl, rfl, rfl⟩
  · dsimp only at h
    cases hpush : connPushtxeos { c with txeos := true } with
    | abort =>
      rw [hpush] at h
      cases h
    | done p =>
      rw [hpush] at h
      cases p with
      | none =>
        cases h
        exact ⟨rfl, rfl, rfl, rfl, rfl⟩
      | some c₁ =>
        cases h
        exact { connPushtxeos_frees hpush with }

theorem call_frees {a : AppCall} (h : c.call a = .done c') : Frees c c' (a.freed c) := by
  cases a with
  | txAlloc n | txAlloc2 n | txSend n =>
    cases h
    simp only [connectionTxAlloc, connectionTxAlloc2, connectionTxSend]
    split_ifs <;> exact ⟨rfl, rfl, rfl, rfl, rfl⟩
  | rxDone n =>
    cases h
    exact connectionRxDone_frees c n
  | txClose =>
    unfold LibConn.call at h
    dsimp only at h
    cases hclose : connectionTxClose c with
    | abort =>
      rw [hclose] at h
      cases h
    | done o =>
      rw [hclose] at h
      cases h
      exact connectionTxClose_frees hclose

theorem connsBump_frees {full : Bool} {o : Option Atx} (h : connsBump c full = .done (c', o)) :
    Frees c c' 0 := by
  unfold connsBump at h
  split_ifs at h
  all_goals
    cases h
    exact ⟨rfl, rfl, rfl, rfl, rfl⟩

end Calls

/-! ### What a receive call does -/

section Sockets

variable {s s' : Sock} {n : ℕ}

/-- Bytes that the socket holds. -/
def Sock.bytes (s : Sock) : ℕ := s.rxLen1 + s.rxLen2

/-- The second piece is used only if the first one is. -/
def Sock.Filled (s : Sock) : Prop := s.rxLen1 = 0 → s.rxLen2 = 0

theorem copyOut_bytes (s : Sock) (len : ℕ) :
    (copyOut s len).1.bytes + (copyOut s len).2 = s.bytes := by
  unfold copyOut Sock.bytes
  split_ifs <;> dsimp only <;> omega

theorem copyOut_keeps (s : Sock) (len : ℕ) :
    (copyOut s len).1.Filled ∧ (copyOut s len).1.rxClosed = s.rxClosed := by
  unfold copyOut Sock.Filled at *
  split_ifs with hle
  · exact ⟨fun _ => rfl, rfl⟩
  · refine ⟨fun hzero => ?_, rfl⟩
    dsimp only at hzero ⊢
    omega

theorem copyOut_pos {len : ℕ} (hlen : 0 < len) (hsome : 0 < s.rxLen1) : 0 < (copyOut s len).2 := by
  unfold copyOut
  split_ifs <;> dsimp only <;> omega

theorem copyOuts_spec (hf : s.Filled) (lens : List ℕ) :
    (copyOuts s lens).1.bytes + (copyOuts s lens).2 = s.bytes ∧ (copyOuts s lens).1.Filled ∧
      (copyOuts s lens).1.rxClosed = s.rxClosed := by
  induction lens generalizing s with
  | nil => exact ⟨rfl, hf, rfl⟩
  | cons len lens ih =>
    unfold copyOuts
    split_ifs
    · have hbytes := copyOut_bytes s len
      obtain ⟨hf₁, hclosed⟩ := copyOut_keeps s len
      obtain ⟨hrest, hf₂, hclosed₂⟩ := ih hf₁
      refine ⟨?_, hf₂, hclosed₂.trans hclosed⟩
      dsimp only
      omega
    · exact ⟨rfl, hf, rfl⟩

theorem copyOuts_pos {lens : List ℕ} (hroom : 0 < lens.sum) (hsome : 0 < s.rxLen1) :
    0 < (copyOuts s lens).2 := by
  induction lens generalizing s with
  | nil => simp at hroom
  | cons len lens ih =>
    unfold copyOuts
    rw [if_pos hsome]
    rw [sum_cons] at hroom
    dsimp only
    rcases Nat.eq_zero_or_pos len with rfl | hlen
    · -- a buffer without room takes nothing
      have hkept : (copyOut s 0).1.rxLen1 = s.rxLen1 := by
        unfold copyOut
        rw [if_neg (by omega)]
        simp
      have hrest := @ih (copyOut s 0).1 (by omega) (by omega)
      omega
    · have hfirst := copyOut_pos hlen hsome
      omega

/-- A receive call returns what it takes out of the socket, and returns nothing only at the end. -/
theorem Sock.recv_spec {call : RecvCall} (hf : s.Filled) (h : s.recv call = some (s', n)) :
    s'.bytes + n = s.bytes ∧ s'.Filled ∧ s'.rxClosed = s.rxClosed ∧
      (0 < call.room → n = 0 → s.rxClosed ∧ s.bytes = 0) := by
  unfold Sock.recv at h
  split_ifs at h with hstatus hroom hwait
  · cases h
    exact ⟨rfl, hf, rfl, fun hpos => absurd hroom hpos.ne'⟩
  have hend : s.rxLen1 = 0 → s.rxClosed = true ∧ s.bytes = 0 := by
    intro hzero
    refine ⟨?_, ?_⟩
    · by_contra hopen
      exact hwait ⟨hzero, hopen⟩
    · rw [Sock.bytes, hzero, hf hzero]
  cases call with
  | recv len =>
    cases h
    obtain ⟨hf', hclosed⟩ := copyOut_keeps s len
    refine ⟨copyOut_bytes s len, hf', hclosed, fun hpos hzero => hend ?_⟩
    by_contra hsome
    exact absurd hzero (copyOut_pos hpos (Nat.pos_of_ne_zero hsome)).ne'
  | recvmsg lens =>
    obtain ⟨rfl, rfl⟩ := Prod.mk.inj (Option.some.inj h)
    obtain ⟨hbytes, hf', hclosed⟩ := copyOuts_spec hf lens
    refine ⟨hbytes, hf', hclosed, fun hpos hzero => hend ?_⟩
    by_contra hsome
    exact absurd hzero (copyOuts_pos hpos (Nat.pos_of_ne_zero hsome)).ne'

/-- An event adds its bytes, and only the end of the stream closes the socket. -/
theorem Sock.handle_spec {ev : ConnEvent} (hf : s.Filled) (h : s.handle ev = .done s') :
    s'.bytes = s.bytes + ev.bytes ∧ s'.Filled ∧
      (s'.rxClosed → s.rxClosed ∨ ev = .lib .rxclosed) := by
  have hopen : ∀ ok, evConnOpen s ok = .done s' →
      s'.bytes = s.bytes ∧ s'.Filled ∧ s'.rxClosed = s.rxClosed := by
    intro ok h
    unfold evConnOpen at h
    split_ifs at h <;> cases h <;> exact ⟨rfl, hf, rfl⟩
  cases ev with
  | «open» ok | accept ok =>
    obtain ⟨hbytes, hf', hclosed⟩ := hopen ok h
    exact ⟨hbytes, hf', fun h => Or.inl (hclosed ▸ h)⟩
  | lib e =>
    cases e with
    | received off len =>
      unfold Sock.handle evConnReceived at h
      unfold Sock.bytes Sock.Filled at *
      dsimp only at h
      split_ifs at h with hstatus hempty hfirst hsecond hlost <;> cases h <;>
        dsimp only [ConnEvent.bytes]
      · exact ⟨by rw [hempty, hf hempty]; omega, fun _ => rfl, Or.inl⟩
      · exact ⟨by omega, fun _ => hfirst.1, Or.inl⟩
      all_goals exact ⟨by omega, fun hzero => absurd hzero hempty, Or.inl⟩
    | rxclosed =>
      unfold Sock.handle evConnRxclosed at h
      dsimp only at h
      split_ifs at h
      cases h
      exact ⟨rfl, hf, fun _ => Or.inr rfl⟩
    | sendbuf | txclosed =>
      cases h
      exact ⟨rfl, hf, Or.inl⟩

end Sockets

/-! ### Runs in which the end mark comes last -/

section Runs

variable {rxLen : U32} {s s' : EosRun} {pre post xs ys : List (ℕ × Arx)} {q : ℕ} {a : Arx}
  {c c' : LibConn} {evs : List LibEvent} {outn : ℕ} {core : U16}

/-- Bytes of the entries that were not drained. -/
def pendingBytes (es : List (ℕ × Arx)) : ℕ := (es.map fun e => e.2.rxBump.toNat).sum

/-- End marks that were not drained. -/
def pendingMarks (es : List (ℕ × Arx)) : ℕ := es.countP fun e => e.2.eos

theorem pendingBytes_append : pendingBytes (xs ++ ys) = pendingBytes xs + pendingBytes ys := by
  simp [pendingBytes]

theorem pendingBytes_cons (e : ℕ × Arx) :
    pendingBytes (e :: xs) = e.2.rxBump.toNat + pendingBytes xs := by
  simp [pendingBytes]

theorem pendingBytes_eq_zero (h : ∀ e ∈ xs, e.2.rxBump = 0) : pendingBytes xs = 0 := by
  apply sum_eq_zero
  intro n hn
  obtain ⟨e, he, rfl⟩ := mem_map.1 hn
  rw [h e he]
  rfl

/-- The connection still delivers events. -/
def EosRun.Alive (s : EosRun) : Prop := s.conn.requested ∨ s.conn.status = .opened

/-- The receive side of the connection, as long as it delivers events. -/
structure EosConn (rxLen : U32) (s : EosRun) : Prop where
  used : s.conn.rxbUsed.toNat + s.freed + pendingBytes s.pending = s.total
  room : s.total ≤ s.freed + rxLen.toNat
  marks : pendingMarks s.pending + s.conn.rxClosed.toNat = s.fin.toNat
  drained : s.conn.rxClosed → pendingBytes s.pending = 0
  requested : s.conn.requested →
    s.events = [] ∧ s.freed = 0 ∧ s.conn.rxbHead = s.conn.rxbUsed
  opened : s.conn.status = .opened → s.conn.rxbLen = rxLen ∧ s.conn.rxbHead ≤ rxLen ∧
    receivedBytes s.events + pendingBytes s.pending = s.total ∧
    (.lib .rxclosed ∈ s.events ↔ s.conn.rxClosed)

/-- What the steps keep. -/
structure EosInv (rxLen : U32) (s : EosRun) : Prop where
  status : s.Alive ∨ s.conn.status = .closed ∧ .lib .rxclosed ∉ s.events
  conn : s.Alive → EosConn rxLen s
  /-- Entries say something. -/
  news : ∀ e ∈ s.pending, e.2.rxBump ≠ 0 ∨ e.2.txBump ≠ 0 ∨ e.2.eos
  /-- No data follows the end mark. -/
  behind : s.pending.Pairwise fun e e' => e.2.eos → e'.2.rxBump = 0
  fin : ∀ e ∈ s.pending, e.2.eos → s.fin
  last : ∀ pre post, s.events = pre ++ .lib .rxclosed :: post →
    s.fin ∧ receivedBytes pre = s.total ∧ .lib .rxclosed ∉ post
  sock : ∃ done, s.events = done ++ s.unhandled ∧ s.sock.Filled ∧
    s.sock.bytes + s.returned = receivedBytes done ∧
    (s.sock.rxClosed → .lib .rxclosed ∈ done)

theorem eosInv_start (h : EosStart s) : EosInv rxLen s := by
  obtain ⟨hreq, ⟨hhead, hused, hclosed⟩, ⟨hpending, hevents, hunhandled⟩, ⟨hlen1, hlen2, hsock⟩,
    htotal, hfin, hfreed, hreturned⟩ := h
  refine ⟨Or.inl (Or.inl hreq), fun _ => ⟨?_, ?_, ?_, ?_, ?_, ?_⟩, ?_, ?_, ?_, ?_, [], ?_, ?_,
    ?_, ?_⟩
  · simp [hused, hfreed, hpending, htotal, pendingBytes]
  · simp [htotal]
  · simp [hpending, hclosed, hfin, pendingMarks]
  · simp [hpending, pendingBytes]
  · exact fun _ => ⟨hevents, hfreed, by rw [hhead, hused]⟩
  · intro hopen
    rcases hreq with hreq | hreq <;> rw [hreq] at hopen <;> cases hopen
  · simp [hpending]
  · simp [hpending]
  · simp [hpending]
  · simp [hevents]
  · simp [hevents, hunhandled]
  · exact fun _ => hlen2
  · simp [Sock.bytes, hlen1, hlen2, hreturned, receivedBytes]
  · simp [hsock]

/-- The order in the log when the end mark is added, if `closed`, after other events. -/
theorem last_append {evs new : List ConnEvent} {total : ℕ} {fin : Prop} {closed : Bool}
    (hlast : ∀ pre post, evs = pre ++ .lib .rxclosed :: post →
      fin ∧ receivedBytes pre = total ∧ .lib .rxclosed ∉ post)
    (hnew : ConnEvent.lib .rxclosed ∉ new)
    (hend : closed = true → .lib .rxclosed ∉ evs ∧ fin ∧ receivedBytes (evs ++ new) = total)
    (pre post : List ConnEvent)
    (h : evs ++ (new ++ if closed then [.lib .rxclosed] else []) = pre ++ .lib .rxclosed :: post) :
    fin ∧ receivedBytes pre = total ∧ .lib .rxclosed ∉ post := by
  cases closed with
  | true =>
    obtain ⟨hevs, hfin, hbytes⟩ := hend rfl
    rw [if_pos rfl, ← append_assoc] at h
    have hnone : ConnEvent.lib .rxclosed ∉ evs ++ new := by simp [hevs, hnew]
    obtain ⟨rfl, -, rfl⟩ := (append_cons_inj_of_notMem hnone not_mem_nil).1 h
    exact ⟨hfin, hbytes, not_mem_nil⟩
  | false =>
    rw [if_neg Bool.false_ne_true, append_nil] at h
    have hmem : ConnEvent.lib .rxclosed ∈ evs ++ new := by simp [h]
    obtain ⟨as, bs, rfl, has⟩ :=
      eq_append_cons_of_mem ((mem_append.1 hmem).resolve_right hnew)
    obtain ⟨hfin, hbytes, hnot⟩ := hlast as bs rfl
    have hrest : ConnEvent.lib .rxclosed ∉ bs ++ new := by simp [hnot, hnew]
    rw [append_assoc, cons_append] at h
    obtain ⟨rfl, -, rfl⟩ := (append_cons_inj_of_notMem has hrest).1 h
    exact ⟨hfin, hbytes, hrest⟩

theorem EosRun.Alive.not_closed (h : s.Alive) : s.conn.status ≠ .closed := by
  intro hclosed
  rcases h with (h | h) | h <;> rw [hclosed] at h <;> cases h

theorem LibConn.requested.not_opened (h : c.requested) : c.status ≠ .opened := by
  intro hopen
  rcases h with h | h <;> rw [hopen] at h <;> cases h

section

variable (h : EosInv rxLen s)
include h

/-- Calls that only return bytes keep everything. -/
theorem EosInv.frees {n : ℕ} (hf : Frees s.conn c n) (hfreed : s.conn.requested → n = 0) :
    EosInv rxLen { s with conn := c, freed := s.freed + n } := by
  have halive : ({ s with conn := c, freed := s.freed + n } : EosRun).Alive ↔ s.Alive := by
    simp only [EosRun.Alive, LibConn.requested, hf.status]
  refine ⟨?_, fun ha => ?_, h.news, h.behind, h.fin, h.last, h.sock⟩
  · rw [halive]
    rcases h.status with ha | hclosed
    · exact Or.inl ha
    · exact Or.inr ⟨hf.status.trans hclosed.1, hclosed.2⟩
  · obtain ⟨hused, hroom, hmarks, hdrained, hreq, hopen⟩ := h.conn (halive.1 ha)
    have hbytes := hf.rxbUsed
    refine ⟨?_, ?_, ?_, ?_, ?_, ?_⟩
    · dsimp only
      omega
    · dsimp only
      omega
    · rw [← hmarks]
      simp only [hf.rxClosed]
    · intro hcl
      exact hdrained (hf.rxClosed ▸ hcl)
    · intro hr
      have hr' : s.conn.requested := by
        unfold LibConn.requested at *
        rwa [hf.status] at hr
      obtain ⟨hev, hfr, hhead⟩ := hreq hr'
      have hzero := hfreed hr'
      refine ⟨hev, by dsimp only; omega, ?_⟩
      dsimp only
      rw [hf.rxbHead, hhead, ← BitVec.toNat_inj]
      omega
    · intro ho
      obtain ⟨hlen, hhead, hrecv, hiff⟩ := hopen (hf.status.symm.trans ho)
      exact ⟨hf.rxbLen.trans hlen, by rw [hf.rxbHead]; exact hhead, hrecv, by
        rw [hiff, hf.rxClosed]⟩

theorem EosInv.produce (hnew : a.rxBump ≠ 0 ∨ a.txBump ≠ 0 ∨ a.eos)
    (hfin : s.fin → a.rxBump = 0 ∧ a.eos = false)
    (hroom : s.total + a.rxBump.toNat ≤ s.freed + rxLen.toNat) :
    EosInv rxLen { s with
      pending := s.pending ++ [(q, a)]
      total := s.total + a.rxBump.toNat
      fin := s.fin || a.eos } := by
  have hbytes : pendingBytes (s.pending ++ [(q, a)]) = pendingBytes s.pending + a.rxBump.toNat := by
    rw [pendingBytes_append]
    simp [pendingBytes]
  refine ⟨h.status, fun ha => ?_, ?_, ?_, ?_, ?_, h.sock⟩
  · obtain ⟨hused, -, hmarks, hdrained, hreq, hopen⟩ := h.conn ha
    refine ⟨?_, hroom, ?_, ?_, hreq, ?_⟩
    · dsimp only
      omega
    · have hadd : pendingMarks (s.pending ++ [(q, a)]) = pendingMarks s.pending + a.eos.toNat := by
        simp only [pendingMarks, countP_append, countP_cons, countP_nil]
        cases a.eos <;> rfl
      dsimp only
      rw [hadd]
      cases hf : s.fin with
      | false =>
        rw [hf, Bool.toNat_false] at hmarks
        rw [Bool.false_or]
        omega
      | true =>
        rw [hf] at hmarks
        rw [(hfin hf).2, Bool.or_false, Bool.toNat_false]
        omega
    · intro hcl
      have hf : s.fin = true := by
        by_contra hnot
        rw [hcl] at hmarks
        simp [hnot] at hmarks
      have hzero := hdrained hcl
      dsimp only
      rw [hbytes, hzero, (hfin hf).1]
      rfl
    · intro ho
      obtain ⟨hlen, hhead, hrecv, hiff⟩ := hopen ho
      refine ⟨hlen, hhead, ?_, hiff⟩
      dsimp only
      omega
  · intro e he
    rcases mem_append.1 he with he | he
    · exact h.news e he
    · rw [mem_singleton.1 he]
      exact hnew
  · refine pairwise_append.2 ⟨h.behind, pairwise_singleton _ _, fun e he e' he' heos => ?_⟩
    rw [mem_singleton.1 he']
    exact (hfin (h.fin e he heos)).1
  · intro e he heos
    rcases mem_append.1 he with he | he
    · simp [h.fin e he heos]
    · rw [mem_singleton.1 he] at heos
      simp [heos]
  · intro pre post heq
    obtain ⟨hf, hrecv, hnot⟩ := h.last pre post heq
    refine ⟨by simp [hf], ?_, hnot⟩
    rw [hrecv, (hfin hf).1]
    rfl

/-- What is left after an entry was drained. -/
structure Drained (pending : List (ℕ × Arx)) (a : Arx) (rest : List (ℕ × Arx)) : Prop where
  bytes : pendingBytes pending = a.rxBump.toNat + pendingBytes rest
  marks : pendingMarks pending = a.eos.toNat + pendingMarks rest
  sublist : rest.Sublist pending

omit h in
theorem drained_split (hp : s.pending = pre ++ (q, a) :: post) :
    Drained s.pending a (pre ++ post) where
  bytes := by
    rw [hp, pendingBytes_append, pendingBytes_append, pendingBytes_cons]
    dsimp only
    omega
  marks := by
    rw [hp]
    simp only [pendingMarks, countP_append, countP_cons]
    cases a.eos
    · simp
    · simp
      omega
  sublist := by
    rw [hp]
    exact (List.Sublist.refl pre).append (sublist_cons_self _ _)

/-- When the end mark is drained in order, all data was drained before. -/
theorem EosInv.drained_all (hp : s.pending = pre ++ (q, a) :: post)
    (heos : a.eos) (hordered : ∀ e ∈ pre, e.2.rxBump = 0) : pendingBytes (pre ++ post) = 0 := by
  apply pendingBytes_eq_zero
  intro e he
  rcases mem_append.1 he with he | he
  · exact hordered e he
  · have hbehind := h.behind
    rw [hp] at hbehind
    have hcons := (pairwise_append.1 hbehind).2.1
    exact (pairwise_cons.1 hcons).1 e he heos

/-- The run after an entry was drained, or after a confirmation. -/
def EosRun.after (s : EosRun) (c : LibConn) (rest : List (ℕ × Arx)) (new : List ConnEvent) :
    EosRun :=
  { s with conn := c, pending := rest, events := s.events ++ new, unhandled := s.unhandled ++ new }

/-- The parts of the invariant that do not depend on what the library does. -/
theorem EosInv.after {rest : List (ℕ × Arx)} {new : List ConnEvent} (hsub : rest.Sublist s.pending)
    (hstatus : (s.after c rest new).Alive ∨
      (s.after c rest new).conn.status = .closed ∧ .lib .rxclosed ∉ (s.after c rest new).events)
    (hconn : (s.after c rest new).Alive → EosConn rxLen (s.after c rest new))
    (hlast : ∀ pre post, s.events ++ new = pre ++ .lib .rxclosed :: post →
      s.fin ∧ receivedBytes pre = s.total ∧ .lib .rxclosed ∉ post) :
    EosInv rxLen (s.after c rest new) where
  status := hstatus
  conn := hconn
  news e he := h.news e (hsub.subset he)
  behind := h.behind.sublist hsub
  fin e he := h.fin e (hsub.subset he)
  last := hlast
  sock := by
    obtain ⟨done, hevents, hrest⟩ := h.sock
    refine ⟨done, ?_, hrest⟩
    simp only [EosRun.after]
    rw [hevents, append_assoc]

omit h in
theorem not_mem_map_lib (h : LibEvent.rxclosed ∉ evs) : ConnEvent.lib .rxclosed ∉ evs.map .lib := by
  intro hmem
  obtain ⟨e, he, heq⟩ := mem_map.1 hmem
  cases heq
  exact h he

omit h in
theorem eventArxConnupdate_requested
    (hreq : c.requested) (h : eventArxConnupdate c a outn core = .done (c', some evs)) :
    a.txBump = 0 ∧ c'.status = c.status ∧ c'.rxClosed = a.eos ∧
      c'.rxbHead = c.rxbHead + a.rxBump ∧ c'.rxbUsed = c.rxbUsed + a.rxBump ∧ evs = [] := by
  unfold eventArxConnupdate at h
  rcases hreq with hreq | hreq
  all_goals
    simp only [hreq] at h
    split_ifs at h with htx
    obtain ⟨rfl, hnone⟩ := Prod.mk.inj (Checked.done.inj h)
    exact ⟨not_not.1 htx, hreq.symm, rfl, rfl, rfl, (Option.some.inj hnone).symm⟩

/-- An entry overtakes the confirmation. -/
theorem EosInv.drain_requested (hp : s.pending = pre ++ (q, a) :: post)
    (hordered : a.eos → ∀ e ∈ pre, e.2.rxBump = 0) (hreq : s.conn.requested)
    (hevent : eventArxConnupdate s.conn a outn core = .done (c, some evs)) :
    EosInv rxLen (s.after c (pre ++ post) (evs.map .lib)) := by
  have hd := drained_split hp
  obtain ⟨hused, hroom, hmarks, hdrained, hreq', -⟩ := h.conn (Or.inl hreq)
  obtain ⟨hevents, hfreed, hhead⟩ := hreq' hreq
  obtain ⟨htx, hstatus, hclosed, hhead', hused', rfl⟩ := eventArxConnupdate_requested hreq hevent
  have hreq₂ : c.requested := by
    unfold LibConn.requested
    rwa [hstatus]
  have hb := hd.bytes
  have hm := hd.marks
  -- an update after the end mark would acknowledge something
  have hopen : s.conn.rxClosed = false := by
    by_contra hcl
    have hcl : s.conn.rxClosed = true := by simpa using hcl
    have hzero := hdrained hcl
    have hbump : a.rxBump = 0 := toNat_eq_zero.1 (by omega)
    have hmark : a.eos = false := by
      have hle := Bool.toNat_le s.fin
      rw [hcl, Bool.toNat_true] at hmarks
      exact Bool.toNat_eq_zero.1 (by omega)
    rcases h.news (q, a) (by rw [hp]; simp) with hn | hn | hn
    · exact hn hbump
    · exact hn htx
    · rw [hmark] at hn
      cases hn
  refine h.after hd.sublist (Or.inl (Or.inl hreq₂))
    (fun _ => ⟨?_, hroom, ?_, ?_, fun _ => ?_, ?_⟩) ?_
  · have hlt := rxLen.isLt
    have hadd : (s.conn.rxbUsed + a.rxBump).toNat = s.conn.rxbUsed.toNat + a.rxBump.toNat :=
      toNat_add_of_lt (by omega)
    simp only [EosRun.after]
    rw [hused']
    omega
  · simp only [EosRun.after]
    rw [hopen, Bool.toNat_false] at hmarks
    rw [hclosed]
    omega
  · intro heos
    have heos : a.eos := hclosed ▸ heos
    exact h.drained_all hp heos (hordered heos)
  · refine ⟨by simp [EosRun.after, hevents], hfreed, ?_⟩
    simp only [EosRun.after]
    rw [hhead', hused', hhead]
  · intro hopen'
    exact absurd hopen' hreq₂.not_opened
  · simp [hevents]

omit h in
/-- The bounds on an entry of an open connection. -/
theorem EosConn.bump_le {rest : List (ℕ × Arx)} (h : EosConn rxLen s)
    (hd : Drained s.pending a rest) : a.rxBump ≤ rxLen := by
  have hused := h.used
  have hroom := h.room
  have hb := hd.bytes
  rw [BitVec.le_def]
  omega

omit h in
/-- The head stays within the buffer. -/
theorem rxUpdate_head_le {n : U32} (hhead : c.rxbHead ≤ c.rxbLen) (hn : n ≤ c.rxbLen) :
    (rxUpdate c n).rxbHead ≤ c.rxbLen := by
  have h₁ := BitVec.le_def.1 hhead
  have h₂ := BitVec.le_def.1 hn
  unfold rxUpdate
  dsimp only
  split_ifs with hpos hwrap
  · have h₃ := BitVec.le_def.1 hwrap
    rw [BitVec.le_def]
    simp only
    rw [toNat_sub_of_le h₃]
    rcases toNat_add_cases c.rxbHead n with hadd | hadd <;> omega
  · rw [BitVec.not_le] at hwrap
    rw [BitVec.le_def]
    have := BitVec.lt_def.1 hwrap
    simp only
    omega
  · exact hhead

/-- An entry of an open connection. -/
theorem EosInv.drain_opened (hp : s.pending = pre ++ (q, a) :: post)
    (hordered : a.eos → ∀ e ∈ pre, e.2.rxBump = 0) (hopen : s.conn.status = .opened)
    (hh : Handled s.conn c a evs) : EosInv rxLen (s.after c (pre ++ post) (evs.map .lib)) := by
  have hd := drained_split hp
  have hconn := h.conn (Or.inr hopen)
  have hbump := hconn.bump_le hd
  obtain ⟨hused, hroom, hmarks, hdrained, -, hopen'⟩ := hconn
  obtain ⟨hlen, hhead, hrecv, hiff⟩ := hopen' hopen
  have hb := hd.bytes
  have hm := hd.marks
  obtain ⟨hclosed, hstatus, hrxb⟩ := rxUpdate_keeps (c := s.conn) a.rxBump
  have hclosed' : c.rxClosed = (s.conn.rxClosed || a.eos) := hh.rx.rxClosed
  have hstatus' : c.status = .opened := by
    rw [hh.rx.status]
    exact hstatus.trans hopen
  have hlt := rxLen.isLt
  have hused' := toNat_rxUpdate_used (c := s.conn) (n := a.rxBump) (by omega)
  obtain ⟨others, rfl, hnot, hothers⟩ := hh.events
  rw [← hlen] at hhead hbump
  have hbytes := receivedBytes_rxEvents hhead a.rxBump
  -- with the mark, the end was not reported before
  have hfresh : a.eos = true → s.conn.rxClosed = false ∧ s.fin = true := by
    intro heos
    rw [heos, Bool.toNat_true] at hm
    have hf := h.fin (q, a) (by rw [hp]; simp) heos
    rw [hf, Bool.toNat_true] at hmarks
    exact ⟨Bool.toNat_eq_zero.1 (by omega), hf⟩
  have hdata : receivedBytes (s.events ++ (rxEvents s.conn a.rxBump ++ others).map .lib) +
      pendingBytes (pre ++ post) = s.total := by
    rw [map_append, receivedBytes_append, receivedBytes_append]
    omega
  have hquiet : ConnEvent.lib .rxclosed ∉ (rxEvents s.conn a.rxBump ++ others).map .lib := by
    refine not_mem_map_lib fun hmem => ?_
    rcases mem_append.1 hmem with hmem | hmem
    · exact rxclosed_not_mem_rxEvents _ hmem
    · exact hnot hmem
  refine h.after hd.sublist (Or.inl (Or.inr hstatus'))
    (fun _ => ⟨?_, hroom, ?_, ?_, ?_, fun _ => ?_⟩) ?_
  · have hsame := hh.rx.rxbUsed
    simp only [EosRun.after]
    dsimp only at hsame
    omega
  · simp only [EosRun.after]
    rw [hclosed']
    cases heos : a.eos with
    | false =>
      rw [heos, Bool.toNat_false] at hm
      rw [Bool.or_false]
      omega
    | true =>
      rw [heos] at hm
      rw [(hfresh heos).1, Bool.toNat_false] at hmarks
      rw [Bool.or_true]
      omega
  · intro hcl
    simp only [EosRun.after] at hcl ⊢
    cases heos : a.eos with
    | false =>
      rw [hclosed', heos, Bool.or_false] at hcl
      have := hdrained hcl
      omega
    | true => exact h.drained_all hp heos (hordered heos)
  · intro hr
    exact absurd hstatus' (LibConn.requested.not_opened hr)
  · refine ⟨?_, ?_, ?_, ?_⟩
    · simp only [EosRun.after]
      rw [hh.rx.rxbLen]
      exact hrxb.trans hlen
    · simp only [EosRun.after]
      rw [hh.rx.rxbHead, ← hlen]
      exact rxUpdate_head_le hhead hbump
    · simp only [EosRun.after]
      rw [map_append, ← append_assoc, receivedBytes_append]
      split_ifs <;> simp only [map_cons, map_nil, receivedBytes, sum_cons, sum_nil,
        ConnEvent.bytes] at hdata ⊢ <;> omega
    · simp only [EosRun.after]
      rw [hclosed', map_append, ← append_assoc, mem_append, mem_append]
      have hno : ConnEvent.lib .rxclosed ∈ (rxEvents s.conn a.rxBump ++ others).map .lib ↔ False :=
        iff_false_intro hquiet
      rw [hno, hiff]
      cases a.eos <;> simp
  · rw [map_append, apply_ite (List.map ConnEvent.lib)]
    refine last_append h.last hquiet fun heos => ?_
    obtain ⟨hcl, hf⟩ := hfresh heos
    have hall := h.drained_all hp heos (hordered heos)
    refine ⟨?_, hf, by omega⟩
    rw [hiff, hcl]
    exact Bool.false_ne_true

end

end Runs

section Steps

variable {rxLen : U32} {s s' : EosRun} {pre post : List (ℕ × Arx)} {q : ℕ} {a : Arx} {c : LibConn}
  {evs : List LibEvent} {outn : ℕ} {core : U16}

/-- An entry is drained, and the end mark only in order. -/
theorem EosInv.drain (h : EosInv rxLen s) (hp : s.pending = pre ++ (q, a) :: post)
    (hordered : a.eos → ∀ e ∈ pre, e.2.rxBump = 0)
    (hevent : eventArxConnupdate s.conn a outn core = .done (c, some evs)) :
    EosInv rxLen (s.after c (pre ++ post) (evs.map .lib)) := by
  rcases h.status with (hreq | hopen) | ⟨hclosed, hnot⟩
  · exact h.drain_requested hp hordered hreq hevent
  · rw [eventArxConnupdate_opened hopen] at hevent
    have hcore : Frees s.conn { s.conn with fnCore := core } 0 := ⟨rfl, rfl, rfl, rfl, rfl⟩
    have h' := h.frees hcore fun _ => rfl
    exact h'.drain_opened hp hordered hopen (openConnupdate_handled hevent)
  · -- entries of a closed connection are dropped
    obtain ⟨hstatus, rfl⟩ : c.status = .closed ∧ evs = [] := by
      unfold eventArxConnupdate at hevent
      simp only [hclosed] at hevent
      obtain ⟨rfl, hnone⟩ := Prod.mk.inj (Checked.done.inj hevent)
      exact ⟨rfl, (Option.some.inj hnone).symm⟩
    refine h.after (drained_split hp).sublist (Or.inr ⟨hstatus, ?_⟩) (fun ha => ?_) ?_
    · simpa [EosRun.after] using hnot
    · exact absurd hstatus ha.not_closed
    · simpa using h.last

/-- The confirmation of a connection, which is the event `ev`. -/
theorem EosInv.confirm {evs : List ConnEvent} {m : Confirmation} {avail : ℕ}
    {ev : Bool → ConnEvent} (h : EosInv rxLen s) (hev : ∀ ok, ev ok ≠ .lib .rxclosed)
    (hbytes : ∀ ok, (ev ok).bytes = 0) (hreq : s.conn.requested) (hlen : m.rxLen = rxLen)
    (hevent : eventKappinConfirm ev s.conn m avail = (c, some evs)) :
    EosInv rxLen (s.after c s.pending evs) := by
  obtain ⟨hused, hroom, hmarks, hdrained, hreq', -⟩ := h.conn (Or.inl hreq)
  obtain ⟨hevents, hfreed, hhead⟩ := hreq' hreq
  unfold eventKappinConfirm at hevent
  split_ifs at hevent with hfail hthree htwo <;> cases hevent
  · refine h.after (List.Sublist.refl _) (Or.inr ⟨rfl, ?_⟩) (fun ha => absurd rfl ha.not_closed) ?_
    · simp only [EosRun.after, hevents, nil_append, mem_singleton]
      exact (hev false).symm
    · have hlast := @last_append _ [ev false] _ _ false h.last ?_ nofun
      · simpa using hlast
      · rw [mem_singleton]
        exact (hev false).symm
  -- the bytes that were counted before are reported now
  let data : List ConnEvent :=
    if s.conn.rxbUsed > 0 then [.lib (.received 0 s.conn.rxbUsed)] else []
  have hdata : receivedBytes (ev true :: data) = s.conn.rxbUsed.toNat ∧
      .lib .rxclosed ∉ ev true :: data := by
    have htrue := hbytes true
    by_cases hpos : s.conn.rxbUsed > 0
    · have hone : (ConnEvent.lib (.received 0 s.conn.rxbUsed)).bytes = s.conn.rxbUsed.toNat := rfl
      simp only [data, if_pos hpos, receivedBytes, map_cons, map_nil, sum_cons,
        sum_nil, htrue, hone]
      refine ⟨by omega, ?_⟩
      simpa using (hev true).symm
    · have hzero : s.conn.rxbUsed = 0 := eq_zero_of_not_pos hpos
      simp only [data, if_neg hpos, receivedBytes, map_cons, map_nil, sum_cons,
        sum_nil, htrue, hzero]
      exact ⟨rfl, by simpa using (hev true).symm⟩
  have hinjected : ev true :: (injected s.conn).map .lib =
      (ev true :: data) ++ if s.conn.rxClosed then [.lib .rxclosed] else [] := by
    simp only [injected, data]
    split_ifs <;> simp
  rw [hinjected]
  refine h.after (List.Sublist.refl _) (Or.inl (Or.inr rfl))
    (fun _ => ⟨hused, hroom, hmarks, hdrained, fun hr => ?_, fun _ => ⟨hlen, ?_, ?_, ?_⟩⟩) ?_
  · exact absurd rfl hr.not_opened
  · simp only [EosRun.after, confirmed]
    rw [hhead, BitVec.le_def]
    omega
  · simp only [EosRun.after, hevents, nil_append]
    rw [receivedBytes_append, hdata.1]
    have hnone : receivedBytes (if s.conn.rxClosed then [.lib .rxclosed] else []) = 0 := by
      split_ifs <;> rfl
    omega
  · simp only [EosRun.after, confirmed, hevents, nil_append]
    rw [mem_append, iff_false_intro hdata.2]
    cases s.conn.rxClosed <;> simp
  · refine last_append h.last hdata.2 fun hcl => ?_
    have hzero := hdrained hcl
    rw [hevents, nil_append]
    refine ⟨not_mem_nil, ?_, by omega⟩
    by_contra hf
    rw [Bool.not_eq_true] at hf
    rw [hcl, hf, Bool.toNat_true, Bool.toNat_false] at hmarks
    omega

/-- The socket handles the next event. -/
theorem EosInv.handle {ev : ConnEvent} {rest : List ConnEvent} {sock : Sock} (h : EosInv rxLen s)
    (hnext : s.unhandled = ev :: rest) (hev : s.sock.handle ev = .done sock) :
    EosInv rxLen { s with unhandled := rest, sock := sock } := by
  obtain ⟨done, hevents, hfilled, hbytes, hclosed⟩ := h.sock
  obtain ⟨hbytes', hfilled', hclosed'⟩ := Sock.handle_spec hfilled hev
  refine { h with
    sock := ⟨done ++ [ev], ?_, hfilled', ?_, ?_⟩
    conn := fun ha => { h.conn ha with } }
  · rw [hevents, hnext]
    simp
  · have hone : receivedBytes [ev] = ev.bytes := by simp [receivedBytes]
    rw [receivedBytes_append, hone]
    dsimp only
    omega
  · intro hcl
    rw [mem_append, mem_singleton]
    rcases hclosed' hcl with hcl | rfl
    · exact Or.inl (hclosed hcl)
    · exact Or.inr rfl

/-- A receive call takes bytes out of the socket and returns them to the fast path. -/
theorem EosInv.recv {call : RecvCall} {sock : Sock} {n : ℕ} (h : EosInv rxLen s)
    (hrecv : s.sock.recv call = some (sock, n)) :
    EosInv rxLen { s with
      sock := sock
      conn := (connectionRxDone s.conn n).getD s.conn
      returned := s.returned + n
      freed := s.freed + rxDoneBytes s.conn n } := by
  obtain ⟨done, hevents, hfilled, hbytes, hclosed⟩ := h.sock
  obtain ⟨hbytes', hfilled', hclosed', -⟩ := Sock.recv_spec hfilled hrecv
  -- before the confirmation there is nothing to receive
  have hnone : s.conn.requested → rxDoneBytes s.conn n = 0 := by
    intro hreq
    have hempty := ((h.conn (Or.inl hreq)).requested hreq).1
    rw [hempty] at hevents
    obtain ⟨rfl, -⟩ := append_eq_nil_iff.1 hevents.symm
    have hzero : receivedBytes [] = 0 := rfl
    have hn : n = 0 := by omega
    unfold rxDoneBytes
    split_ifs
    · rfl
    · exact hn
  have hframe := h.frees (connectionRxDone_frees s.conn n) hnone
  have hsock : sock.bytes + (s.returned + n) = receivedBytes done := by omega
  exact { hframe with
    conn := fun ha => { hframe.conn ha with }
    sock := ⟨done, hevents, hfilled', hsock, fun hcl => hclosed (hclosed' ▸ hcl)⟩ }

theorem eosInv_step (h : EosInv rxLen s) (hstep : OrderedStep rxLen s s') : EosInv rxLen s' := by
  obtain ⟨hstep, hordered⟩ := hstep
  cases hstep with
  | produce q a hnew hfin hroom => exact h.produce hnew hfin hroom
  | @drain pre post q a c evs outn hpending hfirst hevent =>
    refine h.drain hpending (fun heos e he => ?_) hevent
    by_contra hdata
    exact hordered ⟨pre, q, a, post, hpending, rfl, heos, e, he, hdata⟩
  | confirm m avail hlen hevent =>
    rcases hevent with ⟨hstatus, hevent⟩ | ⟨hstatus, hevent⟩
    · exact h.confirm (by simp) (fun _ => rfl) (Or.inl hstatus) hlen hevent
    · exact h.confirm (by simp) (fun _ => rfl) (Or.inr hstatus) hlen hevent
  | call a hopen hcall =>
    exact h.frees (call_frees hcall) fun hreq => absurd hopen hreq.not_opened
  | bump full hbump =>
    exact h.frees (connsBump_frees hbump) fun _ => rfl
  | handle hnext hev => exact h.handle hnext hev
  | recv call hrecv => exact h.recv hrecv

theorem EosInv.ok (h : EosInv rxLen s) : EosOk s where
  last := h.last
  reported hopen hfin hnone := by
    obtain ⟨-, -, hmarks, -, -, hopen'⟩ := h.conn (Or.inr hopen)
    have hzero : pendingMarks s.pending = 0 := by
      refine countP_eq_zero.2 fun e he => ?_
      rw [hnone e he]
      decide
    refine (hopen' hopen).2.2.2.2 ?_
    rw [hzero, hfin, Bool.toNat_true] at hmarks
    exact Bool.toNat_eq_one.1 (by omega)
  recv_zero call sock hroom hrecv := by
    obtain ⟨done, hevents, hfilled, hbytes, hclosed⟩ := h.sock
    obtain ⟨-, -, -, hend⟩ := Sock.recv_spec hfilled hrecv
    obtain ⟨hcl, hempty⟩ := hend hroom rfl
    -- all that was received before the end mark was handled before it
    obtain ⟨pre, post, rfl⟩ := append_of_mem (hclosed hcl)
    rw [append_assoc, cons_append] at hevents
    obtain ⟨hfin, hall, -⟩ := h.last pre (post ++ s.unhandled) hevents
    refine ⟨hfin, ?_⟩
    have hmem : ConnEvent.lib .rxclosed ∈ s.events := by
      rw [hevents]
      simp
    have hopen : s.conn.status = .opened := by
      rcases h.status with (hreq | hopen) | ⟨-, hnot⟩
      · rw [((h.conn (Or.inl hreq)).requested hreq).1] at hmem
        cases hmem
      · exact hopen
      · exact absurd hmem hnot
    have hrecvd := ((h.conn (Or.inr hopen)).opened hopen).2.2.1
    have hsplit : receivedBytes (pre ++ .lib .rxclosed :: post) + receivedBytes s.unhandled =
        receivedBytes s.events := by
      rw [← receivedBytes_append, hevents]
      simp
    rw [receivedBytes_append] at hbytes hsplit
    omega

end Steps

/-- If the end mark is never drained before data that was produced earlier, libtas reports the end
of the stream once and last, and receive calls return zero only there. -/
theorem end_of_stream_last {rxLen : U32} {s₀ s : EosRun} (hstart : EosStart s₀)
    (hrun : ReflTransGen (OrderedStep rxLen) s₀ s) : EosOk s := by
  have hinv : EosInv rxLen s := by
    induction hrun with
    | refl => exact eosInv_start hstart
    | tail _ hstep ih => exact eosInv_step ih hstep
  exact hinv.ok

/-- A connection that was just requested. -/
def requestedConn : LibConn where
  rxbLen := 0
  rxbHead := 0
  rxbUsed := 0
  rxbBump := 0
  txbLen := 0
  txbHead := 0
  txbSent := 0
  txbAllocated := 0
  txbBump := 0
  seqRx := 0
  bumpSeq := 0
  fnCore := 0
  bumpPending := false
  status := .openRequested
  txeos := false
  txeosAlloc := false
  txeosAck := false
  rxClosed := false

def requestedRun : EosRun where
  conn := requestedConn
  pending := []
  events := []
  unhandled := []
  sock := ⟨.connecting, false, none, 0, none, 0⟩
  total := 0
  fin := false
  freed := 0
  returned := 0

theorem requestedRun_starts : EosStart requestedRun :=
  ⟨Or.inl rfl, ⟨rfl, rfl, rfl⟩, ⟨rfl, rfl, rfl⟩, ⟨rfl, rfl, rfl⟩, ⟨rfl, rfl, rfl, rfl⟩⟩

/-- The confirmation of a connection with a receive buffer of 64 bytes. -/
def confirm64 : Confirmation := ⟨0, 64, 64, 0, 0⟩

/-- The connection was confirmed. -/
def openedRun : EosRun :=
  { requestedRun with
    conn := confirmed requestedConn confirm64
    events := [.open true]
    unhandled := [.open true] }

theorem openedRun_step : EosStep 64 requestedRun openedRun :=
  .confirm confirm64 16 rfl (Or.inl ⟨rfl, rfl⟩)

/-- An entry for ten bytes, and one for the end of the stream. -/
def tenReceived : Arx := ⟨0, 0, 0, 10, 0, 0, 0⟩

def streamEnd : Arx := ⟨0, 0, 0, 0, 10, 0, arxFlrxdone⟩

/-- The bytes are in queue 0, the end mark is in queue 1. -/
def endProduced : EosRun :=
  { openedRun with pending := [(0, tenReceived), (1, streamEnd)], total := 10, fin := true }

theorem endProduced_run : ReflTransGen (EosStep 64) requestedRun endProduced :=
  ((ReflTransGen.single openedRun_step).tail
    (.produce 0 tenReceived (by decide) (by decide) (by decide))).tail
      (.produce 1 streamEnd (by decide) (by decide) (by decide))

/-- Queue 1 was drained, and the socket has handled the events. -/
def endDrained : EosRun :=
  { endProduced with
    conn := { openedRun.conn with fnCore := 1, rxClosed := true }
    pending := [(0, tenReceived)]
    events := [.open true, .lib .rxclosed]
    unhandled := []
    sock := ⟨.connected, true, none, 0, none, 0⟩ }

/-- The end mark overtakes ten bytes in the queue of another core: the end of the stream is reported
first, and a receive call returns zero although nothing was returned yet. -/
theorem end_mark_overtakes_data : EosStart requestedRun ∧
    ReflTransGen (EosStep 64) requestedRun endDrained ∧
    endDrained.sock.recv (.recv 1) = some (⟨.connected, true, none, 0, none, 0⟩, 0) ∧
    endDrained.events = [.open true, .lib .rxclosed] ∧
    endDrained.returned = 0 ∧ endDrained.total = 10 := by
  refine ⟨requestedRun_starts, ?_, rfl, rfl, rfl, rfl⟩
  have hdrain : EosStep 64 endProduced { endDrained with
      unhandled := [.open true, .lib .rxclosed]
      sock := ⟨.connecting, false, none, 0, none, 0⟩ } :=
    @EosStep.drain 64 endProduced [(0, tenReceived)] [] 1 streamEnd _ [.rxclosed] 16 rfl
      (by decide) rfl
  exact ((endProduced_run.tail hdrain).tail (.handle rfl rfl)).tail (.handle rfl rfl)

/-- A single entry overtakes nothing. -/
theorem not_overtakesData {s s' : EosRun} (h : s.pending.length ≤ 1) : ¬ OvertakesData s s' := by
  rintro ⟨pre, q, a, post, hsplit, -, -, e, he, -⟩
  rw [hsplit, length_append, length_cons] at h
  have hpos := length_pos_of_mem he
  omega

/-- The ten bytes were drained before the end mark was produced, and then the end mark. -/
def endInOrder : EosRun :=
  { openedRun with
    conn := { openedRun.conn with
      fnCore := 1, seqRx := 10, rxbHead := 10, rxbUsed := 10, rxClosed := true }
    events := [.open true, .lib (.received 0 10), .lib .rxclosed]
    unhandled := [.open true, .lib (.received 0 10), .lib .rxclosed]
    total := 10
    fin := true }

/-- The states between: the bytes were produced, were drained, and the end mark was produced. -/
def tenProduced : EosRun := { openedRun with pending := [(0, tenReceived)], total := 10 }

def tenDrained : EosRun :=
  { tenProduced with
    conn := { openedRun.conn with seqRx := 10, rxbHead := 10, rxbUsed := 10 }
    pending := []
    events := [.open true, .lib (.received 0 10)]
    unhandled := [.open true, .lib (.received 0 10)] }

def markProduced : EosRun := { tenDrained with pending := [(1, streamEnd)], fin := true }

theorem endInOrder_ok : endInOrder.events = [.open true, .lib (.received 0 10), .lib .rxclosed] ∧
    EosOk endInOrder := by
  have hopened : OrderedStep 64 requestedRun openedRun :=
    ⟨openedRun_step, not_overtakesData (by decide)⟩
  have hten : OrderedStep 64 openedRun tenProduced :=
    ⟨.produce 0 tenReceived (by decide) (by decide) (by decide), not_overtakesData (by decide)⟩
  have hdrain : OrderedStep 64 tenProduced tenDrained :=
    ⟨@EosStep.drain 64 tenProduced [] [] 0 tenReceived _ [.received 0 10] 16 rfl (by decide) rfl,
      not_overtakesData (by decide)⟩
  have hmark : OrderedStep 64 tenDrained markProduced :=
    ⟨.produce 1 streamEnd (by decide) (by decide) (by decide), not_overtakesData (by decide)⟩
  have hlast : OrderedStep 64 markProduced endInOrder :=
    ⟨@EosStep.drain 64 markProduced [] [] 1 streamEnd _ [.rxclosed] 16 rfl (by decide) rfl,
      not_overtakesData (by decide)⟩
  exact ⟨rfl, end_of_stream_last requestedRun_starts
    (((((ReflTransGen.single hopened).tail hten).tail hdrain).tail hmark).tail hlast)⟩

end Tas
