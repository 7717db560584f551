import Tas.Lib.Circ
import Tas.Lib.Outcome
import Tas.LibTasSpec

/-! The receive side of a socket, with the bytes and the events: the pieces of the receive buffer
it remembers, and the calls that copy them out. -/
namespace Tas

open List Word Nat

def epollIn : U32 := 0x001
def epollRdhup : U32 := 0x2000

namespace SocketRx

open Circ Outcome

inductive SocStatus
  | connecting
  | connected
  | failed
  | closed
deriving DecidableEq

/-- The receive part of `struct socket_conn`, with what it reads of its `struct socket`. Pointers
are addresses. -/
structure SocketConn where
  conn : LibConn
  status : SocStatus
  /-- `CSTF_RXCLOSED`. -/
  rxClosed : Bool
  rxBuf1 : ℕ
  rxBuf2 : ℕ
  rxLen1 : ℕ
  rxLen2 : ℕ
  /-- `SOF_NONBLOCK`. -/
  nonblock : Bool
  epEvents : U32

/-- What `flextcp_epoll_set` does to the events of the socket. -/
def SocketConn.setEvents (s : SocketConn) (evts : U32) : SocketConn :=
  if ~~~ s.epEvents &&& evts = 0 then s else { s with epEvents := s.epEvents ||| evts }

/-- What `flextcp_epoll_clear` does to the events of the socket. -/
def SocketConn.clearEvents (s : SocketConn) (evts : U32) : SocketConn :=
  { s with epEvents := s.epEvents &&& ~~~ evts }

/-- Remember the `len` bytes at `buf`: as the first piece, or behind one of the two. -/
def addPiece (s : SocketConn) (buf len : ℕ) : Except Fault SocketConn :=
  if s.rxLen1 = 0 then .ok { s with rxLen1 := len, rxBuf1 := buf, rxLen2 := 0 }
  else if s.rxLen2 = 0 ∧ buf = s.rxBuf1 + s.rxLen1 then .ok { s with rxLen1 := s.rxLen1 + len }
  else if buf = s.rxBuf2 + s.rxLen2 then .ok { s with rxLen2 := s.rxLen2 + len }
  -- more than two pieces
  else if s.rxLen2 ≠ 0 then .error .assertion
  else .ok { s with rxLen2 := len, rxBuf2 := buf }

/-- `ev_conn_received`. -/
def evConnReceived (s : SocketConn) (buf len : ℕ) : Except Fault SocketConn :=
  -- data of a closed socket is ignored
  if s.status = .closed then .ok s
  else if s.status ≠ .connected then .error .assertion
  else (addPiece s buf len).map fun s => s.setEvents epollIn

/-- `ev_conn_rxclosed` for a connected socket. -/
def evConnRxclosed (s : SocketConn) : SocketConn :=
  SocketConn.setEvents { s with rxClosed := true } (epollIn ||| epollRdhup)

/-! ### Receive calls -/

/-- The source of a `memcpy` of `n` bytes. -/
def readMem (mem : ℕ → Byte) (addr n : ℕ) : List Byte :=
  (List.range n).map fun i => mem (addr + i)

/-- Go on to the second piece. -/
def SocketConn.nextPiece (s : SocketConn) : SocketConn :=
  { s with rxBuf1 := s.rxBuf2, rxLen1 := s.rxLen2, rxBuf2 := 0, rxLen2 := 0 }

/-- Take `n` bytes off the first piece. -/
def SocketConn.skip (s : SocketConn) (n : ℕ) : SocketConn :=
  { s with rxBuf1 := s.rxBuf1 + n, rxLen1 := s.rxLen1 - n }

/-- The copy into one buffer of `len` bytes: the whole first piece if it fits, and as much as
fits of what is then the first piece. -/
def copyOut (mem : ℕ → Byte) (s : SocketConn) (len : ℕ) : SocketConn × List Byte :=
  let off := if s.rxLen1 ≤ len then s.rxLen1 else 0
  let s' := if s.rxLen1 ≤ len then s.nextPiece else s
  let n := min (len - off) s'.rxLen1
  (s'.skip n, readMem mem s.rxBuf1 off ++ readMem mem s'.rxBuf1 n)

/-- The loop of `tas_recvmsg` over its buffers, with the bytes that each gets. -/
def copyIovs (mem : ℕ → Byte) : SocketConn → List ℕ → SocketConn × List (List Byte)
  | s, [] => (s, [])
  | s, len :: iov =>
    if s.rxLen1 = 0 then (s, [])
    else
      let (s', part) := copyOut mem s len
      let (s'', parts) := copyIovs mem s' iov
      (s'', part :: parts)

/-- A call of `tas_recvmsg` with buffers of these lengths, or of `recv_simple`. -/
inductive RecvCall
  | msg (iov : List ℕ)
  | simple (len : ℕ)

/-- The lengths of the buffers of a call. -/
def RecvCall.iov : RecvCall → List ℕ
  | .msg iov => iov
  | .simple len => [len]

/-- The length that the calls compare with zero, a `size_t`. -/
def RecvCall.size (call : RecvCall) : ℕ := call.iov.sum % 2 ^ 64

def RecvCall.copy (mem : ℕ → Byte) (s : SocketConn) : RecvCall → SocketConn × List (List Byte)
  | .msg iov => copyIovs mem s iov
  | .simple len => ((copyOut mem s len).1, [(copyOut mem s len).2])

/-- How a turn of a receive call ends: with data, with `ENOTCONN` or `EAGAIN`, or without the
lock, to poll the context. -/
inductive RecvResult
  | data (parts : List (List Byte))
  | notConnected
  | again
  | polls
deriving DecidableEq

/-- The bytes that a turn returns to the application. -/
def RecvResult.bytes : RecvResult → List Byte
  | .data parts => parts.flatten
  | _ => []

/-- The end of a call that copied `ret` bytes, with what it passed to
`flextcp_connection_rx_done`. -/
def recvFinish (s : SocketConn) (ret : ℕ) : SocketConn × Option ℕ :=
  if ret > 0 then
    let s := if s.rxLen1 = 0 ∧ ¬ s.rxClosed then s.clearEvents epollIn else s
    ({ s with conn := (connectionRxDone s.conn ret).getD s.conn }, some ret)
  else (s, none)

/-- What a receive call does while it holds the lock, from its start or after it `polled` the
context: the socket, the result and the argument of `flextcp_connection_rx_done`. -/
def recvTurn (mem : ℕ → Byte) (s : SocketConn) (call : RecvCall) (polled : Bool) :
    SocketConn × RecvResult × Option ℕ :=
  if ¬ polled ∧ s.status ≠ .connected then (s, .notConnected, none)
  else if ¬ polled ∧ call.size = 0 then (s, .data [], none)
  else if s.rxLen1 = 0 ∧ ¬ s.rxClosed then
    if polled ∧ s.nonblock then (s, .again, none)
    else (s.clearEvents epollIn, .polls, none)
  else
    let (s', parts) := call.copy mem s
    let (s'', done) := recvFinish s' parts.flatten.length
    (s'', .data parts, done)

/-! ### The remembered pieces -/

variable {base len c n : ℕ} {s s' : SocketConn} {mem : ℕ → Byte} {k m off : ℕ}

/-- The pieces are the `n` bytes from stream index `c` on, in a buffer of `len` bytes at
`base`. -/
structure Pieces (base len c n : ℕ) (s : SocketConn) : Prop where
  size : s.rxLen1 + s.rxLen2 = n
  order : s.rxLen1 = 0 → s.rxLen2 = 0
  first : s.rxLen1 ≠ 0 → s.rxBuf1 = base + c % len ∧ c % len + s.rxLen1 ≤ len
  second : s.rxLen2 ≠ 0 → s.rxBuf2 = base ∧ c % len + s.rxLen1 = len
  room : n ≤ len

/-- Without bytes in the first piece there are none. -/
theorem Pieces.eq_zero (h : Pieces base len c n s) (hempty : s.rxLen1 = 0) : n = 0 := by
  have hsecond := h.order hempty
  have hsize := h.size
  omega

/-- Events and the connection do not matter for the pieces. -/
theorem Pieces.congr (h : Pieces base len c n s) (hb1 : s'.rxBuf1 = s.rxBuf1)
    (hb2 : s'.rxBuf2 = s.rxBuf2) (hl1 : s'.rxLen1 = s.rxLen1) (hl2 : s'.rxLen2 = s.rxLen2) :
    Pieces base len c n s' := by
  obtain ⟨hsize, horder, hfirst, hsecond, hroom⟩ := h
  refine ⟨?_, ?_, ?_, ?_, hroom⟩ <;> simp only [hb1, hb2, hl1, hl2] <;> assumption

theorem setEvents_eq (evts : U32) :
    s.setEvents evts = { s with epEvents := (s.setEvents evts).epEvents } := by
  unfold SocketConn.setEvents
  split_ifs <;> rfl

/-- Setting events that contain `EPOLLIN` sets it, also if some were set before. -/
theorem setEvents_epollIn {evts : U32} (h : evts &&& epollIn ≠ 0) :
    (s.setEvents evts).epEvents &&& epollIn ≠ 0 := by
  unfold SocketConn.setEvents epollIn at *
  split_ifs with hnew <;> grind

theorem mod_add_eq (h : c % len + k < len) : (c + k) % len = c % len + k := by
  rw [add_mod, mod_eq_of_lt (show k < len by omega), mod_eq_of_lt h]

theorem mod_add_wrap (h : c % len + k = len) : (c + k) % len = 0 := by
  have hsum : (c % len + k) % len = (c + k) % len := by simp
  rw [← hsum, h, mod_self]

section

variable (h : Pieces base len c n s)
include h

/-- Where the next region of the stream is: behind the last piece, or at the begin of the buffer
if the first piece ends with it. -/
theorem Pieces.next_offset (hpos : off % len = (c + n) % len) (hend : off + m ≤ len) :
    (s.rxLen1 = 0 ∧ (m ≠ 0 → off = c % len)) ∨
      (s.rxLen1 ≠ 0 ∧ s.rxLen2 = 0 ∧ off = c % len + s.rxLen1) ∨
      (s.rxLen1 ≠ 0 ∧ s.rxLen2 = 0 ∧ off = 0 ∧ c % len + s.rxLen1 = len) ∨
      (s.rxLen1 ≠ 0 ∧ s.rxLen2 ≠ 0 ∧ off = s.rxLen2) := by
  have hnone := h.eq_zero
  obtain ⟨hsize, -, hfirst, hsecond, hroom⟩ := h
  have hoff : off % len = if off = len then 0 else off := by
    split_ifs with heq
    · rw [heq, mod_self]
    · exact mod_eq_of_lt (by omega)
  rw [hoff] at hpos
  by_cases hempty : s.rxLen1 = 0
  · refine .inl ⟨hempty, fun hm => ?_⟩
    rwa [hnone hempty, add_zero, if_neg (by omega)] at hpos
  obtain ⟨-, hfit⟩ := hfirst hempty
  by_cases hone : s.rxLen2 = 0
  · obtain rfl : n = s.rxLen1 := by omega
    obtain hlt | hwrap := lt_or_eq_of_le hfit
    · rw [mod_add_eq hlt] at hpos
      refine .inr (.inl ⟨hempty, hone, ?_⟩)
      split_ifs at hpos <;> omega
    · rw [mod_add_wrap hwrap] at hpos
      split_ifs at hpos with hfull
      · exact .inr (.inl ⟨hempty, hone, hfull.trans hwrap.symm⟩)
      · exact .inr (.inr (.inl ⟨hempty, hone, hpos, hwrap⟩))
  · obtain ⟨-, hwrap⟩ := hsecond hone
    have hmod : (c + n) % len = s.rxLen2 := by
      rw [← hsize, ← add_assoc, add_mod, mod_add_wrap hwrap, zero_add, mod_mod,
        mod_eq_of_lt (by omega)]
    rw [hmod] at hpos
    refine .inr (.inr (.inr ⟨hempty, hone, ?_⟩))
    split_ifs at hpos <;> omega

/-- A region that continues the stream never makes a third piece. -/
theorem Pieces.addPiece (hpos : off % len = (c + n) % len) (hend : off + m ≤ len)
    (hroom : n + m ≤ len) :
    ∃ s', addPiece s (base + off) m = .ok s' ∧ Pieces base len c (n + m) s' ∧
      s'.conn = s.conn ∧ s'.status = s.status ∧ s'.rxClosed = s.rxClosed := by
  have hnext := h.next_offset hpos hend
  have hnone := h.eq_zero
  obtain ⟨hsize, -, hfirst, hsecond, -⟩ := h
  unfold SocketRx.addPiece
  obtain ⟨hempty, hoff⟩ | ⟨hne, hone, hoff⟩ | ⟨hne, hone, rfl, hwrap⟩ | ⟨hne, htwo, rfl⟩ := hnext
  · have hn := hnone hempty
    rw [if_pos hempty]
    refine ⟨_, rfl, ⟨by simp [hn], fun _ => rfl, fun hm => ?_, fun hm => absurd rfl hm, hroom⟩,
      rfl, rfl, rfl⟩
    obtain rfl := hoff hm
    exact ⟨rfl, hend⟩
  · obtain ⟨hbuf, -⟩ := hfirst hne
    rw [if_neg hne, if_pos ⟨hone, by omega⟩]
    refine ⟨_, rfl, ⟨?_, fun _ => hone, fun _ => ⟨hbuf, ?_⟩, fun htwo => absurd hone htwo, hroom⟩,
      rfl, rfl, rfl⟩ <;> dsimp only <;> omega
  · obtain ⟨hbuf, hfit⟩ := hfirst hne
    rw [if_neg hne, if_neg (by omega)]
    -- an old address of a second piece is as good as none
    by_cases hstale : base + 0 = s.rxBuf2 + s.rxLen2
    · rw [if_pos hstale]
      refine ⟨_, rfl, ⟨?_, fun hz => absurd hz hne, fun _ => ⟨hbuf, hfit⟩,
        fun _ => ⟨?_, hwrap⟩, hroom⟩, rfl, rfl, rfl⟩ <;> dsimp only <;> omega
    · rw [if_neg hstale, if_neg (not_not.2 hone)]
      refine ⟨_, rfl, ⟨?_, fun hz => absurd hz hne, fun _ => ⟨hbuf, hfit⟩,
        fun _ => ⟨rfl, hwrap⟩, hroom⟩, rfl, rfl, rfl⟩
      dsimp only
      omega
  · obtain ⟨hbuf, hfit⟩ := hfirst hne
    obtain ⟨hbuf2, hwrap⟩ := hsecond htwo
    rw [if_neg hne, if_neg fun hand => htwo hand.1, if_pos (by rw [hbuf2])]
    refine ⟨_, rfl, ⟨?_, fun hz => absurd hz hne, fun _ => ⟨hbuf, hfit⟩,
      fun _ => ⟨hbuf2, hwrap⟩, hroom⟩, rfl, rfl, rfl⟩
    dsimp only
    omega

/-- The event of a region that continues the stream is handled, and the socket is readable. -/
theorem Pieces.received (hopen : s.status = .connected)
    (hpos : off % len = (c + n) % len) (hend : off + m ≤ len) (hroom : n + m ≤ len) :
    ∃ s', evConnReceived s (base + off) m = .ok s' ∧ Pieces base len c (n + m) s' ∧
      s'.epEvents &&& epollIn ≠ 0 ∧ s'.conn = s.conn ∧ s'.status = s.status := by
  obtain ⟨t, ht, hpieces, hconn, hstatus, -⟩ := h.addPiece hpos hend hroom
  unfold evConnReceived
  rw [if_neg (by rw [hopen]; decide), if_neg (not_not.2 hopen), ht]
  refine ⟨t.setEvents epollIn, rfl, ?_, setEvents_epollIn (by decide), ?_⟩
  all_goals rw [setEvents_eq]
  · exact hpieces.congr rfl rfl rfl rfl
  · exact ⟨hconn, hstatus⟩

/-! ### Copies -/

omit h in
theorem readMem_eq_window (h : c % len + k ≤ len) :
    readMem mem (base + c % len) k = window len (fun i => mem (base + i)) c k := by
  unfold readMem window
  refine map_congr_left fun i hi => ?_
  rw [mem_range] at hi
  rw [mod_add_eq (by omega), add_assoc]

/-- The first piece has the first bytes of the stream. -/
theorem Pieces.read (hk : k ≤ s.rxLen1) :
    readMem mem s.rxBuf1 k = window len (fun i => mem (base + i)) c k := by
  obtain rfl | hpos := Nat.eq_zero_or_pos k
  · rfl
  · obtain ⟨hbuf, hfit⟩ := h.first (by omega)
    rw [hbuf]
    exact readMem_eq_window (by omega)

theorem Pieces.nextPiece : Pieces base len (c + s.rxLen1) s.rxLen2 s.nextPiece := by
  have hroom := h.room
  have hsize := h.size
  refine ⟨rfl, fun _ => rfl, fun htwo => ?_, fun hne => absurd rfl hne, by omega⟩
  obtain ⟨hbuf, hwrap⟩ := h.second htwo
  rw [mod_add_wrap hwrap]
  exact ⟨hbuf, by change 0 + s.rxLen2 ≤ len; omega⟩

theorem Pieces.skip (hk : k < s.rxLen1 ∨ s.rxLen2 = 0 ∧ k = s.rxLen1) :
    Pieces base len (c + k) (n - k) (s.skip k) := by
  obtain ⟨hsize, horder, hfirst, hsecond, hroom⟩ := h
  have hmod : s.rxLen1 - k ≠ 0 → (c + k) % len = c % len + k := fun hne =>
    mod_add_eq (by have := hfirst (by omega); omega)
  refine ⟨?_, fun hz => ?_, fun hne => ?_, fun hne => ?_, by omega⟩
  · change s.rxLen1 - k + s.rxLen2 = n - k
    omega
  · change s.rxLen1 - k = 0 at hz
    change s.rxLen2 = 0
    omega
  · change s.rxLen1 - k ≠ 0 at hne
    change s.rxBuf1 + k = base + (c + k) % len ∧ (c + k) % len + (s.rxLen1 - k) ≤ len
    obtain ⟨hbuf, hfit⟩ := hfirst (by omega)
    rw [hmod hne]
    omega
  · change s.rxLen2 ≠ 0 at hne
    change s.rxBuf2 = base ∧ (c + k) % len + (s.rxLen1 - k) = len
    obtain ⟨hbuf, hwrap⟩ := hsecond hne
    rw [hmod (by omega)]
    omega

/-- A copy takes as many bytes as fit from the front of the stream. -/
theorem Pieces.copyOut (mem : ℕ → Byte) (m : ℕ) :
    (copyOut mem s m).2 = window len (fun i => mem (base + i)) c (min m n) ∧
      Pieces base len (c + min m n) (n - min m n) (copyOut mem s m).1 := by
  have hsize := h.size
  unfold SocketRx.copyOut
  dsimp only
  by_cases hfits : s.rxLen1 ≤ m
  · rw [if_pos hfits, if_pos hfits]
    have hnext := h.nextPiece
    set k := min (m - s.rxLen1) s.nextPiece.rxLen1 with hk
    have hk' : k = min (m - s.rxLen1) s.rxLen2 := hk
    have hsum : min m n = s.rxLen1 + k := by omega
    rw [h.read le_rfl, hnext.read (by omega), window_append, hsum]
    refine ⟨rfl, ?_⟩
    have hskip := hnext.skip (k := k) (by
      change k < s.rxLen2 ∨ 0 = 0 ∧ k = s.rxLen2
      omega)
    rw [add_assoc] at hskip
    have hleft : s.rxLen2 - k = n - (s.rxLen1 + k) := by omega
    rwa [hleft] at hskip
  · rw [if_neg hfits, if_neg hfits]
    have hk : min (m - 0) s.rxLen1 = m := by omega
    have hmin : min m n = m := by omega
    rw [hk, hmin, h.read (k := m) (by omega)]
    exact ⟨rfl, h.skip (by omega)⟩

end

/-- How a stream is laid out over buffers of these lengths. -/
def scatter : List ℕ → List Byte → List (List Byte)
  | [], _ => []
  | len :: iov, bs => if bs = [] then [] else bs.take len :: scatter iov (bs.drop len)

theorem scatter_nil (iov : List ℕ) : scatter iov [] = [] := by
  cases iov <;> rfl

/-- Read one after the other, the buffers hold the front of the stream. -/
theorem flatten_scatter (iov : List ℕ) (bs : List Byte) :
    (scatter iov bs).flatten = bs.take iov.sum := by
  induction iov generalizing bs with
  | nil => simp [scatter]
  | cons len iov ih =>
    unfold scatter
    split_ifs with hbs
    · simp [hbs]
    · rw [flatten_cons, ih, sum_cons, take_add]

theorem window_drop_min (buf : ℕ → Byte) :
    (window len buf c n).drop m = window len buf (c + min m n) (n - min m n) := by
  obtain hle | hlt := le_total m n
  · rw [min_eq_left hle]
    apply ext_getElem
    · simp [window]
    · intro i _ _
      simp [window, add_assoc]
  · rw [min_eq_right hlt, Nat.sub_self, drop_of_length_le (by rw [window_length]; exact hlt)]
    rfl

theorem window_ne_nil (buf : ℕ → Byte) (hn : n ≠ 0) : window len buf c n ≠ [] := by
  intro hnil
  have hzero := congrArg List.length hnil
  rw [window_length] at hzero
  exact hn hzero

/-- The loop over the buffers lays the stream out over them. -/
theorem Pieces.copyIovs (h : Pieces base len c n s) (mem : ℕ → Byte) (iov : List ℕ) :
    (copyIovs mem s iov).2 = scatter iov (window len (fun i => mem (base + i)) c n) ∧
      Pieces base len (c + min iov.sum n) (n - min iov.sum n) (copyIovs mem s iov).1 := by
  induction iov generalizing s c n with
  | nil =>
    rw [sum_nil, zero_min]
    exact ⟨rfl, h⟩
  | cons m iov ih =>
    unfold SocketRx.copyIovs
    by_cases hempty : s.rxLen1 = 0
    · obtain rfl := h.eq_zero hempty
      rw [if_pos hempty, min_zero]
      exact ⟨(scatter_nil _).symm, h⟩
    · have hsize := h.size
      obtain ⟨hpart, hrest⟩ := h.copyOut mem m
      obtain ⟨hparts, hleft⟩ := ih hrest
      rw [if_neg hempty]
      refine ⟨?_, ?_⟩
      · unfold scatter
        rw [if_neg (window_ne_nil _ (by omega)), window_take, window_drop_min, ← hparts, ← hpart]
      · have hsum : min m n + min iov.sum (n - min m n) = min (m :: iov).sum n := by
          rw [sum_cons]
          omega
        rw [Nat.add_assoc, Nat.sub_sub, hsum] at hleft
        exact hleft

/-- Copies change the pieces only. -/
structure Untouched (s s' : SocketConn) : Prop where
  conn : s'.conn = s.conn
  status : s'.status = s.status
  rxClosed : s'.rxClosed = s.rxClosed
  epEvents : s'.epEvents = s.epEvents

theorem copyOut_untouched (mem : ℕ → Byte) (m : ℕ) : Untouched s (copyOut mem s m).1 := by
  unfold copyOut
  dsimp only
  split_ifs <;> exact ⟨rfl, rfl, rfl, rfl⟩

theorem copyIovs_untouched (mem : ℕ → Byte) (iov : List ℕ) :
    Untouched s (copyIovs mem s iov).1 := by
  induction iov generalizing s with
  | nil => exact ⟨rfl, rfl, rfl, rfl⟩
  | cons m iov ih =>
    unfold copyIovs
    split_ifs
    · exact ⟨rfl, rfl, rfl, rfl⟩
    · obtain ⟨hconn, hstatus, hclosed, hevents⟩ := copyOut_untouched (s := s) mem m
      obtain ⟨hconn', hstatus', hclosed', hevents'⟩ := ih (s := (copyOut mem s m).1)
      exact ⟨hconn'.trans hconn, hstatus'.trans hstatus, hclosed'.trans hclosed,
        hevents'.trans hevents⟩

theorem RecvCall.copy_untouched (mem : ℕ → Byte) (call : RecvCall) :
    Untouched s (call.copy mem s).1 := by
  cases call with
  | msg iov => exact copyIovs_untouched mem iov
  | simple m => exact copyOut_untouched mem m

/-- Both calls copy the front of the stream. -/
theorem Pieces.copy (h : Pieces base len c n s) (mem : ℕ → Byte) (call : RecvCall) :
    (call.copy mem s).2.flatten =
        (window len (fun i => mem (base + i)) c n).take call.iov.sum ∧
      (n ≠ 0 →
        (call.copy mem s).2 = scatter call.iov (window len (fun i => mem (base + i)) c n)) ∧
      Pieces base len (c + min call.iov.sum n) (n - min call.iov.sum n) (call.copy mem s).1 := by
  cases call with
  | msg iov =>
    obtain ⟨hparts, hleft⟩ := h.copyIovs mem iov
    refine ⟨?_, fun _ => hparts, hleft⟩
    change (SocketRx.copyIovs mem s iov).2.flatten = _
    rw [hparts, flatten_scatter]
    rfl
  | simple m =>
    obtain ⟨hpart, hleft⟩ := h.copyOut mem m
    have hsum : (RecvCall.simple m).iov.sum = m := by simp [RecvCall.iov]
    rw [hsum]
    change [(SocketRx.copyOut mem s m).2].flatten = _ ∧
      (n ≠ 0 → [(SocketRx.copyOut mem s m).2] = _) ∧ _
    rw [flatten_singleton, hpart, window_take]
    refine ⟨rfl, fun hn => ?_, hleft⟩
    change _ = (if _ = [] then [] else _ :: scatter [] _)
    rw [if_neg (window_ne_nil _ hn), window_take]
    rfl

/-! ### Runs -/

/-- The socket of one connection, the memory with its receive buffer, the bytes that were
announced and returned so far and the total passed to `flextcp_connection_rx_done`. -/
structure RecvState where
  sock : SocketConn
  mem : ℕ → Byte
  announced : List Byte
  returned : List Byte
  freed : ℕ

/-- Length of the receive buffer. -/
def RecvState.size (s : RecvState) : ℕ := s.sock.conn.rxbLen.toNat

/-- Bytes that were announced and not returned. -/
def RecvState.left (s : RecvState) : ℕ := s.announced.length - s.returned.length

inductive RecvEvent
  /-- Bytes of the buffer change that were not announced, or returned already. -/
  | write (mem : ℕ → Byte)
  /-- The library counts `n` more bytes in `rxb_used`. -/
  | notify (n : U32)
  /-- `FLEXTCP_EV_CONN_RECEIVED` for `len` bytes from offset `off` of the buffer on. -/
  | received (off len : ℕ)
  | rxclosed
  | turn (call : RecvCall) (polled : Bool)

/-- The region is consecutive to the bytes announced so far, lies in the buffer and holds bytes
that the library counted. -/
structure NextRegion (s : RecvState) (off len : ℕ) : Prop where
  pos : off % s.size = s.announced.length % s.size
  fits : off + len ≤ s.size
  counted : s.left + len ≤ s.sock.conn.rxbUsed.toNat

/-- Steps on a receive buffer at address `base`. -/
inductive RecvStep (base : ℕ) : RecvState → RecvEvent → RecvState → Prop
  | write {s : RecvState} {mem : ℕ → Byte}
      (hkeep : ∀ k, s.returned.length ≤ k → k < s.announced.length →
        mem (base + k % s.size) = s.mem (base + k % s.size)) :
      RecvStep base s (.write mem) { s with mem := mem }
  | notify {s : RecvState} {n : U32} (hroom : s.sock.conn.rxbUsed.toNat + n.toNat ≤ s.size) :
      RecvStep base s (.notify n)
        { s with sock := { s.sock with conn := rxUpdate s.sock.conn n } }
  | received {s : RecvState} {off len : ℕ} {sock : SocketConn} (hnext : NextRegion s off len)
      (hsock : evConnReceived s.sock (base + off) len = .ok sock) :
      RecvStep base s (.received off len)
        { s with sock := sock, announced := s.announced ++ readMem s.mem (base + off) len }
  | rxclosed {s : RecvState} :
      RecvStep base s .rxclosed { s with sock := evConnRxclosed s.sock }
  | turn {s : RecvState} {call : RecvCall} {polled : Bool} {sock : SocketConn} {r : RecvResult}
      {done : Option ℕ} (hturn : recvTurn s.mem s.sock call polled = (sock, r, done)) :
      RecvStep base s (.turn call polled)
        { s with
          sock := sock
          returned := s.returned ++ r.bytes
          freed := s.freed + done.getD 0 }

def RecvRun (base : ℕ) : RecvState → RecvState → Prop :=
  Relation.ReflTransGen fun s s' => ∃ e, RecvStep base s e s'

/-- A connected socket without pieces. The library may have counted bytes before. -/
structure RecvStart (s : RecvState) : Prop where
  status : s.sock.status = .connected
  rxClosed : s.sock.rxClosed = false
  empty : s.sock.rxLen1 = 0 ∧ s.sock.rxLen2 = 0
  announced : s.announced = []
  returned : s.returned = []
  freed : s.freed = 0
  used : s.sock.conn.rxbUsed.toNat ≤ s.size

/-- The pieces are what was announced and not returned, the buffer still has these bytes, and
the library counts them as used. -/
structure RecvInv (base : ℕ) (s : RecvState) : Prop where
  status : s.sock.status = .connected
  pieces : Pieces base s.size s.returned.length s.left s.sock
  stream : s.announced =
    s.returned ++ window s.size (fun i => s.mem (base + i)) s.returned.length s.left
  freed : s.freed = s.returned.length
  readable : s.sock.epEvents &&& epollIn = 0 → s.left = 0 ∧ s.sock.rxClosed = false
  counted : s.left ≤ s.sock.conn.rxbUsed.toNat
  used : s.sock.conn.rxbUsed.toNat ≤ s.size

variable {s₀ t t' : RecvState} {e : RecvEvent}

theorem RecvStart.inv (h : RecvStart t) : RecvInv base t := by
  have hleft : t.left = 0 := by
    unfold RecvState.left
    rw [h.announced, h.returned]
    rfl
  refine ⟨h.status, ⟨?_, fun _ => h.empty.2, fun hne => absurd h.empty.1 hne,
    fun hne => absurd h.empty.2 hne, ?_⟩, ?_, ?_, fun _ => ⟨hleft, h.rxClosed⟩, ?_, h.used⟩
  · rw [hleft, h.empty.1, h.empty.2]
  · omega
  · rw [hleft, h.announced, h.returned]
    rfl
  · rw [h.freed, h.returned]
    rfl
  · omega

section

variable (h : RecvInv base t)
include h

theorem RecvInv.length : t.announced.length = t.returned.length + t.left := by
  have hlen := congrArg List.length h.stream
  rwa [length_append, window_length] at hlen

/-- The announced bytes that were not returned. -/
theorem RecvInv.rest :
    t.announced.drop t.returned.length =
      window t.size (fun i => t.mem (base + i)) t.returned.length t.left := by
  rw [h.stream, drop_left]

theorem RecvInv.write {mem : ℕ → Byte}
    (hkeep : ∀ k, t.returned.length ≤ k → k < t.announced.length →
      mem (base + k % t.size) = t.mem (base + k % t.size)) :
    RecvInv base { t with mem := mem } := by
  have hlen := h.length
  refine ⟨h.status, h.pieces, ?_, h.freed, h.readable, h.counted, h.used⟩
  change t.announced =
    t.returned ++ window t.size (fun i => mem (base + i)) t.returned.length t.left
  have hwindow : window t.size (fun i => mem (base + i)) t.returned.length t.left =
      window t.size (fun i => t.mem (base + i)) t.returned.length t.left := by
    refine map_congr_left fun i hi => hkeep _ (by omega) ?_
    rw [mem_range] at hi
    omega
  rw [hwindow]
  exact h.stream

/-- A socket with the same pieces. -/
theorem RecvInv.setSock {sock : SocketConn} (hlen : sock.conn.rxbLen = t.sock.conn.rxbLen)
    (hstatus : sock.status = t.sock.status)
    (hpieces : ∀ {c n}, Pieces base t.size c n t.sock → Pieces base t.size c n sock)
    (hreadable : sock.epEvents &&& epollIn = 0 → t.left = 0 ∧ sock.rxClosed = false)
    (hcounted : t.sock.conn.rxbUsed.toNat ≤ sock.conn.rxbUsed.toNat)
    (hused : sock.conn.rxbUsed.toNat ≤ t.size) : RecvInv base { t with sock := sock } := by
  have hsize : RecvState.size { t with sock := sock } = t.size := congrArg BitVec.toNat hlen
  refine ⟨hstatus.trans h.status, ?_, ?_, h.freed, hreadable, h.counted.trans hcounted, ?_⟩
  all_goals rw [hsize]
  · exact hpieces h.pieces
  · exact h.stream
  · exact hused

theorem RecvInv.notify {k : U32} (hroom : t.sock.conn.rxbUsed.toNat + k.toNat ≤ t.size) :
    RecvInv base { t with sock := { t.sock with conn := rxUpdate t.sock.conn k } } := by
  have hused := toNat_rxUpdate_used (hroom.trans_lt t.sock.conn.rxbLen.isLt)
  refine h.setSock (rxUpdate_keeps k).2.2 rfl (fun hp => hp.congr rfl rfl rfl rfl) h.readable ?_ ?_
  · exact hused ▸ le_add_right _ _
  · exact hused.trans_le hroom

/-- The next region is remembered. -/
theorem RecvInv.handled (hnext : NextRegion t off m) :
    ∃ sock, evConnReceived t.sock (base + off) m = .ok sock ∧
      Pieces base t.size t.returned.length (t.left + m) sock ∧
      sock.epEvents &&& epollIn ≠ 0 ∧ sock.conn = t.sock.conn ∧ sock.status = t.sock.status := by
  refine h.pieces.received h.status ?_ hnext.fits ?_
  · rw [hnext.pos, h.length]
  · have hcounted := hnext.counted
    have hused := h.used
    omega

theorem RecvInv.received {sock : SocketConn} (hnext : NextRegion t off m)
    (hsock : evConnReceived t.sock (base + off) m = .ok sock) :
    RecvInv base
      { t with sock := sock, announced := t.announced ++ readMem t.mem (base + off) m } := by
  obtain ⟨sock', hsock', hpieces, hevents, hconn, hstatus⟩ := h.handled hnext
  obtain rfl : sock' = sock := by
    rw [hsock] at hsock'
    exact (Except.ok.inj hsock').symm
  set t' : RecvState :=
    { t with sock := sock', announced := t.announced ++ readMem t.mem (base + off) m } with ht'
  have hlen := h.length
  have hsize : t'.size = t.size := by
    change sock'.conn.rxbLen.toNat = _
    rw [hconn]
    rfl
  have hleft : t'.left = t.left + m := by
    change (t.announced ++ readMem t.mem (base + off) m).length - t.returned.length = _
    rw [length_append, readMem, length_map, length_range]
    omega
  refine ⟨hstatus.trans h.status, ?_, ?_, h.freed, fun hclear => absurd hclear hevents, ?_, ?_⟩
  · rw [hsize, hleft]
    exact hpieces
  · rw [hsize, hleft]
    change t.announced ++ readMem t.mem (base + off) m =
      t.returned ++ window t.size (fun i => t.mem (base + i)) t.returned.length (t.left + m)
    rw [← window_append, ← append_assoc, ← h.stream, ← hlen]
    -- the region starts where the stream continues
    congr 1
    obtain rfl | hm := Nat.eq_zero_or_pos m
    · rfl
    · have hoff : off = t.announced.length % t.size := by
        rw [← hnext.pos, mod_eq_of_lt (by have := hnext.fits; omega)]
      have hfits := hnext.fits
      rw [hoff] at hfits ⊢
      exact readMem_eq_window hfits
  · rw [hleft]
    change _ ≤ sock'.conn.rxbUsed.toNat
    rw [hconn]
    exact hnext.counted
  · rw [hsize]
    change sock'.conn.rxbUsed.toNat ≤ _
    rw [hconn]
    exact h.used

theorem RecvInv.rxclosed : RecvInv base { t with sock := evConnRxclosed t.sock } := by
  have hset : (evConnRxclosed t.sock).epEvents &&& epollIn ≠ 0 := setEvents_epollIn (by decide)
  have hsame : evConnRxclosed t.sock =
      { t.sock with rxClosed := true, epEvents := (evConnRxclosed t.sock).epEvents } :=
    setEvents_eq ..
  generalize (evConnRxclosed t.sock).epEvents = evts at hset hsame
  rw [hsame]
  exact h.setSock rfl rfl (fun hp => hp.congr rfl rfl rfl rfl) (fun hclear => absurd hclear hset)
    le_rfl h.used

/-- What the end of a call leaves: the bytes are freed, and `EPOLLIN` is cleared only without
data on an open stream. -/
structure Finished (s : SocketConn) (ret : ℕ) (s' : SocketConn) : Prop where
  same : s' = { s with conn := s'.conn, epEvents := s'.epEvents }
  frees : Frees s.conn s'.conn ret
  events : s'.epEvents &&& epollIn = 0 →
    s.epEvents &&& epollIn = 0 ∨ s.rxLen1 = 0 ∧ s.rxClosed = false

omit h in
theorem recvFinish_finished (ret : ℕ) (h : ret ≤ s.conn.rxbUsed.toNat) :
    Finished s ret (recvFinish s ret).1 ∧ (recvFinish s ret).2.getD 0 = ret := by
  unfold recvFinish
  by_cases hpos : ret > 0
  · rw [if_pos hpos]
    have hfrees := connectionRxDone_frees s.conn ret
    unfold rxDoneBytes at hfrees
    rw [if_neg h.not_gt] at hfrees
    by_cases hempty : s.rxLen1 = 0 ∧ ¬ s.rxClosed
    · have hclosed : s.rxClosed = false := by simpa using hempty.2
      simp only [if_pos hempty]
      exact ⟨⟨rfl, hfrees, fun _ => .inr ⟨hempty.1, hclosed⟩⟩, rfl⟩
    · simp only [if_neg hempty]
      exact ⟨⟨rfl, hfrees, .inl⟩, rfl⟩
  · obtain rfl : ret = 0 := by omega
    rw [if_neg hpos]
    exact ⟨⟨rfl, ⟨rfl, rfl, rfl, rfl, rfl⟩, .inl⟩, rfl⟩

/-- The state after a turn. -/
def RecvState.afterTurn (t : RecvState) (r : SocketConn × RecvResult × Option ℕ) : RecvState :=
  { t with
    sock := r.1
    returned := t.returned ++ r.2.1.bytes
    freed := t.freed + r.2.2.getD 0 }

/-- The state after a copy of the bytes that fit. -/
theorem RecvInv.copies (call : RecvCall) (hready : ¬ (t.sock.rxLen1 = 0 ∧ ¬ t.sock.rxClosed)) :
    RecvInv base (t.afterTurn
      ((recvFinish (call.copy t.mem t.sock).1 (call.copy t.mem t.sock).2.flatten.length).1,
        .data (call.copy t.mem t.sock).2,
        (recvFinish (call.copy t.mem t.sock).1 (call.copy t.mem t.sock).2.flatten.length).2)) := by
  obtain ⟨hbytes, -, hpieces⟩ := h.pieces.copy t.mem call
  obtain ⟨hconn, hstatus, hclosed, hevents⟩ := call.copy_untouched (s := t.sock) t.mem
  set copied := call.copy t.mem t.sock
  set k := min call.iov.sum t.left
  have hret : copied.2.flatten.length = k := by
    rw [hbytes, window_take, window_length]
  have hk : k ≤ t.left := min_le_right _ _
  rw [hret]
  have hcounted := h.counted
  have hlen := h.length
  obtain ⟨hfin, hdone⟩ := recvFinish_finished (s := copied.1) k (by rw [hconn]; omega)
  set t' := t.afterTurn ((recvFinish copied.1 k).1, .data copied.2, (recvFinish copied.1 k).2)
    with ht'
  have hreturned : t'.returned = t.returned ++ copied.2.flatten := rfl
  have hsize : t'.size = t.size := by
    change (recvFinish copied.1 k).1.conn.rxbLen.toNat = _
    rw [hfin.frees.rxbLen, hconn]
    rfl
  have hreturnedLen : t'.returned.length = t.returned.length + k := by
    rw [hreturned, length_append, hret]
  have hleft : t'.left = t.left - k := by
    change t.announced.length - t'.returned.length = _
    omega
  have hused : t'.sock.conn.rxbUsed.toNat + k = t.sock.conn.rxbUsed.toNat := by
    rw [← hconn]
    exact hfin.frees.rxbUsed
  refine ⟨?_, ?_, ?_, ?_, fun hclear => ?_, ?_, ?_⟩
  · change (recvFinish copied.1 k).1.status = _
    rw [hfin.same]
    exact hstatus.trans h.status
  · rw [hsize, hreturnedLen, hleft]
    change Pieces _ _ _ _ (recvFinish copied.1 k).1
    rw [hfin.same]
    exact hpieces.congr rfl rfl rfl rfl
  · rw [hsize, hreturnedLen, hleft]
    change t.announced = t.returned ++ copied.2.flatten ++
      window t.size (fun i => t.mem (base + i)) (t.returned.length + k) (t.left - k)
    rw [hbytes, window_take, append_assoc, window_append, Nat.add_sub_cancel' hk]
    exact h.stream
  · change t.freed + (recvFinish copied.1 k).2.getD 0 = _
    rw [hdone, hreturnedLen, h.freed]
  · obtain hclear | ⟨hempty, hopen⟩ := hfin.events hclear
    · rw [hevents] at hclear
      obtain ⟨hnone, hopen⟩ := h.readable hclear
      have hfirst := h.pieces.size
      exact absurd ⟨by omega, by simp [hopen]⟩ hready
    · refine ⟨hleft.trans (hpieces.eq_zero hempty), ?_⟩
      change (recvFinish copied.1 k).1.rxClosed = _
      rw [hfin.same]
      exact hopen
  · omega
  · rw [hsize]
    have hle := h.used
    omega

theorem RecvInv.turn (call : RecvCall) (polled : Bool) :
    RecvInv base (t.afterTurn (recvTurn t.mem t.sock call polled)) := by
  have hsame : ∀ r : RecvResult, r.bytes = [] → t.afterTurn (t.sock, r, none) = t := by
    intro r hr
    unfold RecvState.afterTurn
    rw [hr, append_nil]
    rfl
  unfold recvTurn
  rw [if_neg fun hand => hand.2 h.status]
  split_ifs with hzero hempty hnow
  · rw [hsame _ rfl]
    exact h
  · rw [hsame _ rfl]
    exact h
  · have hclosed : t.sock.rxClosed = false := by simpa using hempty.2
    unfold RecvState.afterTurn
    rw [show RecvResult.polls.bytes = [] from rfl, append_nil]
    exact h.setSock rfl rfl (fun hp => hp.congr rfl rfl rfl rfl)
      (fun _ => ⟨h.pieces.eq_zero hempty.1, hclosed⟩) le_rfl h.used
  · exact h.copies call hempty

end

theorem recvInv_step (hstep : RecvStep base t e t') (h : RecvInv base t) : RecvInv base t' := by
  cases hstep with
  | write hkeep => exact h.write hkeep
  | notify hroom => exact h.notify hroom
  | received hnext hsock => exact h.received hnext hsock
  | rxclosed => exact h.rxclosed
  | @turn call polled sock r done hturn =>
    have hinv := h.turn call polled
    rw [hturn] at hinv
    exact hinv

theorem recvInv_run (h₀ : RecvStart s₀) (hrun : RecvRun base s₀ t) : RecvInv base t := by
  induction hrun with
  | refl => exact h₀.inv
  | tail _ hstep ih =>
    obtain ⟨e, he⟩ := hstep
    exact recvInv_step he ih

/-- A call that finds bytes returns the next ones, laid out over its buffers. -/
theorem RecvInv.returns (h : RecvInv base t) {call : RecvCall} {polled : Bool}
    (hcall : polled = true ∨ call.size ≠ 0) (hleft : t.announced.length ≠ t.returned.length) :
    (recvTurn t.mem t.sock call polled).2.1 =
      .data (scatter call.iov (t.announced.drop t.returned.length)) := by
  have hlen := h.length
  have hne : t.left ≠ 0 := by omega
  have hfirst : t.sock.rxLen1 ≠ 0 := fun hz => hne (h.pieces.eq_zero hz)
  obtain ⟨-, hparts, -⟩ := h.pieces.copy t.mem call
  unfold recvTurn
  rw [if_neg fun hand => hand.2 h.status, if_neg, if_neg fun hand => hfirst hand.1]
  · change RecvResult.data (call.copy t.mem t.sock).2 = _
    rw [hparts hne, h.rest]
  · rintro ⟨hnot, hz⟩
    obtain hp | hs := hcall
    · exact hnot hp
    · exact hs hz

/-- The application reads what was announced: in order, without loss or repetition, with all of
it freed. It waits only without data on an open stream, the next region is always accepted, and
a call returns the next bytes if there are any. -/
structure StreamOk (base : ℕ) (s : RecvState) : Prop where
  inOrder : s.returned <+: s.announced
  freed : s.freed = s.returned.length
  readable : s.sock.epEvents &&& epollIn = 0 → s.returned = s.announced ∧ s.sock.rxClosed = false
  accepts : ∀ off len, NextRegion s off len →
    ∃ sock, evConnReceived s.sock (base + off) len = .ok sock
  returns : ∀ call polled, polled = true ∨ call.size ≠ 0 → s.returned ≠ s.announced →
    (recvTurn s.mem s.sock call polled).2.1 =
      .data (scatter call.iov (s.announced.drop s.returned.length))

theorem receive_stream_exact (h₀ : RecvStart s₀) (hrun : RecvRun base s₀ t) : StreamOk base t := by
  have hinv := recvInv_run h₀ hrun
  have hlen := hinv.length
  refine ⟨⟨_, hinv.stream.symm⟩, hinv.freed, fun hclear => ?_, fun off m hnext => ?_,
    fun call polled hcall hne => ?_⟩
  · obtain ⟨hleft, hopen⟩ := hinv.readable hclear
    have hstream := hinv.stream
    rw [hleft] at hstream
    exact ⟨(hstream.trans (append_nil _)).symm, hopen⟩
  · obtain ⟨sock, hsock, -⟩ := hinv.handled hnext
    exact ⟨sock, hsock⟩
  · refine hinv.returns hcall fun heq => hne ?_
    have hleft : t.left = 0 := by omega
    have hstream := hinv.stream
    rw [hleft] at hstream
    exact (hstream.trans (append_nil _)).symm

/-- A fresh socket with a buffer of eight bytes. -/
def freshRecv : RecvState where
  sock :=
    { conn :=
        { rxbLen := 8, rxbHead := 0, rxbUsed := 0, rxbBump := 0, txbLen := 8, txbHead := 0,
          txbSent := 0, txbAllocated := 0, txbBump := 0, seqRx := 0, bumpSeq := 0, fnCore := 0,
          bumpPending := false, status := .opened, txeos := false, txeosAlloc := false,
          txeosAck := false, rxClosed := false }
      status := .connected
      rxClosed := false
      rxBuf1 := 0
      rxBuf2 := 0
      rxLen1 := 0
      rxLen2 := 0
      nonblock := false
      epEvents := 0 }
  mem := fun addr => BitVec.ofNat 8 addr
  announced := []
  returned := []
  freed := 0

/-- The library counts six bytes. -/
def notifiedRecv : RecvState :=
  { freshRecv with sock := { freshRecv.sock with conn := rxUpdate freshRecv.sock.conn 6 } }

/-- The six bytes, at address 100, are announced. -/
def announcedRecv : RecvState :=
  { notifiedRecv with
    sock := { notifiedRecv.sock with rxBuf1 := 100, rxLen1 := 6, epEvents := epollIn }
    announced := [100, 101, 102, 103, 104, 105] }

/-- Four of six bytes are read into two buffers. -/
theorem freshRecv_stream : ∃ t, RecvRun 100 freshRecv t ∧
    t.announced = [100, 101, 102, 103, 104, 105] ∧ t.returned = [100, 101, 102, 103] ∧
    StreamOk 100 t := by
  have hstart : RecvStart freshRecv := ⟨rfl, rfl, ⟨rfl, rfl⟩, rfl, rfl, rfl, by decide⟩
  have hnotify : RecvStep 100 freshRecv (.notify 6) notifiedRecv := .notify (by decide)
  have hreceived : RecvStep 100 notifiedRecv (.received 0 6) announcedRecv :=
    .received ⟨rfl, by decide, by decide⟩ rfl
  have hturn : RecvStep 100 announcedRecv (.turn (.msg [1, 3]) false)
      (announcedRecv.afterTurn
        (recvTurn announcedRecv.mem announcedRecv.sock (.msg [1, 3]) false)) := .turn rfl
  have hrun : RecvRun 100 freshRecv _ :=
    .tail (.tail (.tail .refl ⟨_, hnotify⟩) ⟨_, hreceived⟩) ⟨_, hturn⟩
  exact ⟨_, hrun, rfl, by decide, receive_stream_exact hstart hrun⟩

/-! ### The regions of a notification -/

/-- The events are regions that continue the stream from `a` to `b`. -/
def ConsecutiveRegions (len : ℕ) : ℕ → List LibEvent → ℕ → Prop
  | a, [], b => a = b
  | a, .received off m :: evs, b =>
    off.toNat % len = a % len ∧ off.toNat + m.toNat ≤ len ∧
      ConsecutiveRegions len (a + m.toNat) evs b
  | _, _ :: _, _ => False

/-- The library announces received bytes as consecutive regions, two if they wrap around, and
its head follows the stream. -/
theorem rxEvents_consecutive {conn : LibConn} {k : U32} {a : ℕ}
    (hhead : conn.rxbHead.toNat ≤ conn.rxbLen.toNat)
    (hpos : conn.rxbHead.toNat % conn.rxbLen.toNat = a % conn.rxbLen.toNat)
    (hk : k.toNat ≤ conn.rxbLen.toNat) (hsum : conn.rxbHead.toNat + k.toNat < 2 ^ 32) :
    ConsecutiveRegions conn.rxbLen.toNat a (rxEvents conn k) (a + k.toNat) ∧
      (rxUpdate conn k).rxbHead.toNat % conn.rxbLen.toNat = (a + k.toNat) % conn.rxbLen.toNat := by
  have hadd : (conn.rxbHead + k).toNat = conn.rxbHead.toNat + k.toNat := toNat_add_of_lt hsum
  constructor
  swap
  · rw [Nat.add_mod, ← hpos, ← Nat.add_mod, ← hadd]
    unfold rxUpdate
    split_ifs with hz
    · dsimp only
      split_ifs with hwrap
      · rw [toNat_sub_of_le hwrap, ← Nat.mod_eq_sub_mod hwrap]
      · rfl
    · rw [hadd, Nat.eq_zero_of_not_pos hz]
      rfl
  have hsub : (conn.rxbLen - conn.rxbHead).toNat = conn.rxbLen.toNat - conn.rxbHead.toNat :=
    toNat_sub_of_le hhead
  unfold rxEvents
  by_cases hzero : k > 0
  · rw [if_pos hzero]
    by_cases hwrap : conn.rxbHead + k > conn.rxbLen
    · have hlt : conn.rxbLen.toNat < conn.rxbHead.toNat + k.toNat := by
        rw [← hadd]
        exact hwrap
      rw [if_pos hwrap]
      have hrest : (k - (conn.rxbLen - conn.rxbHead)).toNat =
          k.toNat - (conn.rxbLen.toNat - conn.rxbHead.toNat) := by
        rw [toNat_sub_of_le (by omega), hsub]
      refine ⟨hpos, by omega, ?_, by rw [hrest]; simp; omega, ?_⟩
      · rw [hsub, Nat.add_mod, ← hpos, ← Nat.add_mod, Nat.add_sub_cancel' hhead, Nat.mod_self]
        rfl
      · change a + _ + _ = _
        omega
    · have hle : conn.rxbHead.toNat + k.toNat ≤ conn.rxbLen.toNat := by
        rw [← hadd]
        exact Nat.le_of_not_lt hwrap
      rw [if_neg hwrap]
      exact ⟨hpos, hle, rfl⟩
  · have hz : k.toNat = 0 := Nat.eq_zero_of_not_pos hzero
    rw [if_neg hzero, hz]
    rfl

/-- Four bytes from position 6 of a buffer of eight bytes on. -/
theorem wrapped_regions :
    ConsecutiveRegions 8 6 (rxEvents { freshRecv.sock.conn with rxbHead := 6 } 4) 10 :=
  (@rxEvents_consecutive { freshRecv.sock.conn with rxbHead := 6 } 4 6 (by decide) rfl (by decide)
    (by decide)).1

end SocketRx

end Tas
