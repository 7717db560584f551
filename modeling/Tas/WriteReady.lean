import Tas.EndOfStream
import Tas.Epoll

/-! When a connected socket is reported writable. The event is set when the connection is confirmed
and when a full transmit buffer gets space, and no function clears it. -/
namespace Tas

open Word Relation

/-- A socket, and the connection in it. -/
structure TxSocket where
  conn : LibConn
  epEvents : U32
  connected : Bool

namespace TxSocket

inductive Event
  /-- An open or an accept succeeds. -/
  | confirm (m : Confirmation)
  /-- A send that does not wait for space in the queue to the fast path. -/
  | send (n : ℕ)
  /-- An update from the fast path, with the events that the library reports for it. -/
  | update (a : Arx) (outn : ℕ) (core : U16)

/-- `tas_sendmsg` from the allocation on: what fits into the buffer is sent. -/
def sendmsg (c : LibConn) (n : ℕ) : LibConn :=
  match connectionTxAlloc2 c n with
  | none => c
  | some (c', len) => if len = 0 then c else (connectionTxSend c' len).getD c'

def next (t : TxSocket) : Event → TxSocket
  | .confirm m => ⟨confirmed t.conn m, t.epEvents ||| epollOut, true⟩
  | .send n => if t.connected ∧ n ≠ 0 then { t with conn := sendmsg t.conn n } else t
  | .update a outn core =>
    match eventArxConnupdate t.conn a outn core with
    | .abort => t
    | .done (c, evs) => { t with
        conn := c
        epEvents := if .sendbuf ∈ evs.getD [] then t.epEvents ||| epollOut else t.epEvents }

/-- A connection is confirmed once, with a buffer, and only bytes that were sent are
acknowledged. -/
def Valid (t : TxSocket) : Event → Prop
  | .confirm m => t.connected = false ∧ 0 < m.txLen
  | .send _ => True
  | .update a _ _ => a.txBump ≤ t.conn.txbSent

/-- A send is for fewer bytes than there is space for. -/
def LeavesSpace (t : TxSocket) : Event → Prop
  | .send n => n < (connTxAllocbytes t.conn).toNat
  | _ => True

/-- The socket is writable exactly if its buffer has space. -/
def Exact (t : TxSocket) : Prop := t.epEvents &&& epollOut ≠ 0 ↔ connTxAllocbytes t.conn ≠ 0

def Run : TxSocket → TxSocket → Prop :=
  ReflTransGen fun t t' => ∃ e, t.Valid e ∧ t.LeavesSpace e ∧ t' = t.next e

/-- Nothing is allocated between calls, and nothing was closed. -/
structure Idle (c : LibConn) : Prop where
  alloc : c.txbAllocated = 0
  txeos : c.txeos = false
  txeosAlloc : c.txeosAlloc = false

structure Inv (t : TxSocket) : Prop where
  idle : Idle t.conn
  unused : t.connected = false → t.conn.txbSent = 0
  space : t.connected = true → t.conn.txbSent < t.conn.txbLen
  writable : t.connected = true → t.epEvents &&& epollOut ≠ 0

variable {t : TxSocket} {e : Event} {n : ℕ} {c : LibConn}

theorem sendmsg_sent (h : Idle c) : ∃ k : U32, k.toNat = min n (connTxAllocbytes c).toNat ∧
    Idle (sendmsg c n) ∧ (sendmsg c n).txbSent = c.txbSent + k ∧
    (sendmsg c n).txbLen = c.txbLen := by
  have hlt := (connTxAllocbytes c).isLt
  refine ⟨BitVec.ofNat 32 (min n (connTxAllocbytes c).toNat), toNat_ofNat_of_lt (by omega), ?_⟩
  obtain ⟨halloc, heos, heos'⟩ := h
  unfold sendmsg connectionTxAlloc2 allocate connectionTxSend connTxSendbytes connMarkBump
  grind [Idle]

theorem Idle.allocbytes (h : Idle c) : connTxAllocbytes c = c.txbLen - c.txbSent := by
  rw [connTxAllocbytes, h.alloc, sub_zero]

theorem Inv.exact (h : t.Inv) (hc : t.connected = true) : t.Exact := by
  have hs := h.space hc
  refine iff_of_true (h.writable hc) ?_
  rw [h.idle.allocbytes]
  bv_omega

theorem Inv.next (h : t.Inv) (hvalid : t.Valid e) (hspace : t.LeavesSpace e) : (t.next e).Inv := by
  obtain ⟨hidle, hunused, hs, hw⟩ := h
  have hout : epollOut ≠ 0 := by decide
  cases e with
  | confirm m =>
    obtain ⟨hc, hm⟩ := hvalid
    refine ⟨⟨hidle.alloc, hidle.txeos, hidle.txeosAlloc⟩, nofun, fun _ => ?_, fun _ => ?_⟩
    · exact (hunused hc).symm ▸ hm
    · rwa [TxSocket.next, and_or_self]
  | send n =>
    obtain ⟨k, hk, hidle', hsent, hlen⟩ := @sendmsg_sent n _ hidle
    have hless : t.connected = true → t.conn.txbSent + k < t.conn.txbLen := by
      intro hc
      have hlt := hs hc
      unfold LeavesSpace at hspace
      rw [hidle.allocbytes] at hspace hk
      bv_omega
    unfold TxSocket.next
    constructor <;> grind
  | update a outn core =>
    have hsub : t.conn.txbSent - a.txBump ≤ t.conn.txbSent := by
      unfold Valid at hvalid
      bv_omega
    obtain ⟨halloc, heos, heos'⟩ := hidle
    unfold TxSocket.next eventArxConnupdate openConnupdate txUpdate rxUpdate
    dsimp only
    constructor <;> grind [Idle, and_or_self]

/-- In every run in which sends leave space, a connected socket is writable exactly if it has
space, and it stays so exactly if the next step is not a send that leaves no space. -/
theorem writable_exact_iff {t₀ : TxSocket} (hnew : t₀.connected = false) (hidle : Idle t₀.conn)
    (hsent : t₀.conn.txbSent = 0) (hrun : Run t₀ t) (hc : t.connected = true) (hvalid : t.Valid e) :
    t.Exact ∧ ((t.next e).Exact ↔ t.LeavesSpace e) := by
  have h : t.Inv := by
    clear hc hvalid
    induction hrun with
    | refl => exact ⟨hidle, fun _ => hsent, by simp [hnew], by simp [hnew]⟩
    | tail _ hstep ih =>
      obtain ⟨e, hvalid, hspace, rfl⟩ := hstep
      exact ih.next hvalid hspace
  have hnext : (t.next e).connected = true := by
    cases e <;> grind [TxSocket.next]
  refine ⟨h.exact hc, fun hexact => ?_, fun hspace => (h.next hvalid hspace).exact hnext⟩
  cases e with
  | send n =>
    have hs := h.space hc
    obtain ⟨k, hk, hidle, hsent, hlen⟩ := @sendmsg_sent n _ h.idle
    unfold LeavesSpace
    rw [h.idle.allocbytes] at hk ⊢
    by_cases hn : n = 0
    · bv_omega
    · have hsend : t.next (.send n) = { t with conn := sendmsg t.conn n } := if_pos ⟨hc, hn⟩
      rw [hsend] at hexact
      have hfree := hexact.1 (h.writable hc)
      rw [hidle.allocbytes, hsent, hlen] at hfree
      bv_omega
  | confirm | update => trivial

/-- A connection with four bytes for each direction was confirmed. -/
def fourBytes : TxSocket := next ⟨requestedConn, 0, false⟩ (.confirm ⟨0, 4, 4, 0, 0⟩)

theorem three_of_four_exact : (fourBytes.next (.send 3)).Exact := by
  have hrun : Run ⟨requestedConn, 0, false⟩ fourBytes :=
    .single ⟨.confirm ⟨0, 4, 4, 0, 0⟩, ⟨rfl, by decide⟩, trivial, rfl⟩
  have hexact := writable_exact_iff (e := .send 3) rfl ⟨rfl, rfl, rfl⟩ rfl hrun rfl trivial
  exact hexact.2.2 (show 3 < _ by decide)

/-- The socket is writable, and no byte can be sent. -/
theorem full_buffer_writable : ¬ (fourBytes.next (.send 4)).Exact := by
  intro h
  exact absurd (h.1 (by decide)) (by decide)

end TxSocket

end Tas
