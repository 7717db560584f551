import Tas.SlowPath

/-! What each operation of the slow path can do, with the tests that lead there. -/
namespace Tas

open Outcome SlowPath Function

variable {cfg : SlowCfg} {c l : ℕ} {s s' : SlowPath} {p : TcpPacket} {ts : Option U32} {len : U16}
  {core : U32} {fg : U16} {room ok : Bool} {fuel : ℕ} {b : ConnBufs} {t : U32}

theorem mem_setConn_self {z : Connection} : (s.setConn c z).mem c = z :=
  update_self ..

theorem mem_setConn_of_ne {d : ℕ} {z : Connection} (hd : d ≠ c) :
    (s.setConn c z).mem d = s.mem d :=
  update_of_ne hd ..

/-! ### The backlog of a listener -/

namespace Backlog

variable {r : Backlog} {n i : ℕ}

theorem slots_push (hroom : r.used.val ≠ backlogLen) :
    (r.push p core fg).slots = r.slots ++ [r.entry p core fg] := by
  have hlt := r.used.isLt
  have hused : (r.push p core fg).used.val = r.used.val + 1 :=
    (Fin.val_ofNat ..).trans (Nat.mod_eq_of_lt (by omega))
  unfold slots
  rw [hused]
  exact Circ.window_update _ (by omega)

theorem slots_eq (hpos : r.pos.val = i) (hused : r.used.val = n) :
    r.slots = Circ.window backlogLen r.slot i n := by
  unfold slots
  rw [hpos, hused]

theorem slots_eq_nil (h : r.used.val = 0) : r.slots = [] := slots_eq rfl h

theorem slots_pop : r.pop.slots = r.slots.tail := by
  have hlt := r.used.isLt
  have hpos : r.pop.pos.val = (r.pos.val + 1) % backlogLen := rfl
  have hused : r.pop.used.val = r.used.val - 1 :=
    (Fin.val_ofNat ..).trans (Nat.mod_eq_of_lt (by omega))
  unfold slots
  rw [hpos, hused, Circ.window_mod]
  cases r.used.val with
  | zero => rfl
  | succ n =>
    rw [Circ.window_cons]
    rfl

theorem finds_eq (hi : i < backlogLen) :
    r.finds p n i = (Circ.window backlogLen r.slot i n).any fun b => sameTuple p b.pkt := by
  induction n generalizing i with
  | zero => rfl
  | succ n ih =>
    unfold finds
    rw [ih (Nat.mod_lt _ (by decide)), Circ.window_mod, Circ.window_cons, Nat.mod_eq_of_lt hi]
    rfl

/-- A SYN that is admitted fits into a slot, there is one, and none has its 4-tuple. -/
theorem admits_iff : r.admits p = true ↔ (slotLen p).toNat ≤ 126 ∧
    (∀ b ∈ r.slots, sameTuple p b.pkt = false) ∧ r.used.val ≠ backlogLen := by
  unfold admits slots
  rw [finds_eq r.pos.isLt]
  simp [and_assoc]

end Backlog

/-- All the headers of the packet are copied to its slot. -/
abbrev TcpPacket.HeadersCopied (p : TcpPacket) : Prop := pktTcpSize ≤ (slotLen p).toNat

/-- Only bytes after the headers may be those of another packet. -/
theorem over_eq {q : TcpPacket} {n : ℕ} (h : pktTcpSize ≤ n) :
    p.over q n = { p with opt := fun i => if pktTcpSize + i < n then p.opt i else q.opt i } := by
  have hn : 54 ≤ n := h
  unfold TcpPacket.over
  rw [BitVec.shiftLeft_eq_zero (by omega), Word.merge_zero]
  iterate 7 rw [Word.copyHigh_eq (by omega)]

/-! ### Parts of operations -/

theorem connUnregister_ok (h : connUnregister cfg s c = .ok s') :
    c ∈ s.table (SlowPath.bucket cfg (s.mem c).key) ∧ s' = { s with
      table := update s.table (SlowPath.bucket cfg (s.mem c).key)
        ((s.table (SlowPath.bucket cfg (s.mem c).key)).erase c) } := by
  unfold connUnregister at h
  dsimp only at h
  split_ifs at h with hc
  exact ⟨hc, (Except.ok.inj h).symm⟩

theorem connFailed_ok (h : connFailed cfg s c room = .ok s') :
    ∃ s₁, connUnregister cfg s c = .ok s₁ ∧ s' = s₁.setConn c { s₁.mem c with
      toArmed := false
      status := .failed
      live := (s₁.mem c).live && !room } := by
  obtain ⟨s₁, hu, hs⟩ := of_bind_ok h
  exact ⟨s₁, hu, (Except.ok.inj hs).symm⟩

/-- What `nicif_connection_add` returned for a connection. -/
theorem nicAdd_cases {ls : U32} (h : nicAdd cfg s c ls = .ok (s', ok)) :
    (ok = false ∧ ∃ τ,
      nicifConnectionAdd cfg.flowHash s.nic ((s.mem c).args cfg ls) = (τ, .failed) ∧
      s' = { s with nic := τ }) ∨
    (ok = true ∧ ∃ τ f,
      nicifConnectionAdd cfg.flowHash s.nic ((s.mem c).args cfg ls) = (τ, .ok f) ∧
      s' = { s.setConn c { s.mem c with
          flowId := f
          installed := some ((s.mem c).args cfg ls) } with
        nic := τ
        owner := update s.owner f (some c) }) := by
  unfold nicAdd at h
  dsimp only at h
  split at h
  · cases h
  · rename_i τ hadd
    cases Except.ok.inj h
    exact .inl ⟨rfl, τ, hadd, rfl⟩
  · rename_i τ f hadd
    cases Except.ok.inj h
    exact .inr ⟨rfl, τ, f, hadd, rfl⟩

theorem portSearch_unused {ports : U16 → Port} {n : ℕ} {p q : U16}
    (h : portSearch ports n p = some q) : ports q = .unused := by
  induction n generalizing p with
  | zero => cases h
  | succ n ih =>
    unfold portSearch at h
    split_ifs at h with hp
    · exact Option.some.inj h ▸ hp
    · exact ih h

theorem portAlloc_ok {p : U16} (h : s.portAlloc = .ok (s', p)) :
    s.ports p = .unused ∧ s' = { s with portEphHint := portNext p } := by
  unfold portAlloc at h
  split at h
  · cases h
  · rename_i q hq
    split_ifs at h with hz
    cases Except.ok.inj h
    exact ⟨portSearch_unused hq, rfl⟩

theorem freePort_cases {p : U16} : s.freePort p = s ∨
    (∃ d, s.ports p = .conn d) ∧ s.freePort p = s.setPort p .unused := by
  unfold freePort
  split
  · rename_i d hd
    exact .inr ⟨⟨d, hd⟩, rfl⟩
  · exact .inl rfl

/-- The cursor of the connection's VM after `cc_conn_remove`. -/
def SlowPath.skipped (cfg : SlowCfg) (s : SlowPath) (c : ℕ) : ℕ → ℕ :=
  update s.nextConn (cfg.vmOf (s.mem c).ctx)
    (if s.nextConn (cfg.vmOf (s.mem c).ctx) = c then s.ccNexts c
      else s.nextConn (cfg.vmOf (s.mem c).ctx))

theorem ccSkip_eq : ccSkip cfg s c = { s with nextConn := skipped cfg s c } := by
  unfold ccSkip SlowPath.skipped
  dsimp only
  split_ifs
  · rfl
  · rw [update_eq_self]

/-- The connection was the first of its list, or there is a node before it. -/
theorem ccConnRemove_ok (h : ccConnRemove cfg s fuel c = .ok s') :
    (s.ccConns (cfg.vmOf (s.mem c).ctx) = c ∧ s' = ({ s with
        nextConn := skipped cfg s c
        ccConns := update s.ccConns (cfg.vmOf (s.mem c).ctx) (s.ccNexts c) }).ccUnlist c) ∨
      (s.ccConns (cfg.vmOf (s.mem c).ctx) ≠ c ∧ ∃ cp,
        ccPred s.mem c fuel (s.ccConns (cfg.vmOf (s.mem c).ctx)) = .ok cp ∧ cp ≠ 0 ∧
        s' = ({ s with nextConn := skipped cfg s c }.setConn cp
          { s.mem cp with ccNext := s.ccNexts c }).ccUnlist c) := by
  unfold ccConnRemove at h
  rw [ccSkip_eq] at h
  dsimp only at h
  split_ifs at h with hhead
  · exact .inl ⟨hhead, (Except.ok.inj h).symm⟩
  · obtain ⟨cp, hpred, h⟩ := of_bind_ok h
    split_ifs at h with hcp
    exact .inr ⟨hhead, cp, hpred, hcp, (Except.ok.inj h).symm⟩

/-! ### Requests -/

/-- The state of `tcp_open` once the port is taken. -/
theorem tcpOpen_ok {o : OpenArgs} {route : Route}
    (h : tcpOpen cfg s o c b route = .ok s') :
    ∃ p, s.ports p = .unused ∧
      s' = openAt cfg { s with portEphHint := portNext p } o c b route p := by
  obtain ⟨⟨s₁, p⟩, hport, hs⟩ := of_bind_ok h
  obtain ⟨hp, rfl⟩ := portAlloc_ok hport
  refine ⟨p, hp, ?_⟩
  cases route with
  | done mac =>
    obtain ⟨-, -, hs⟩ := of_bind_ok hs
    exact (Except.ok.inj hs).symm
  | failed | pending => exact (Except.ok.inj hs).symm

theorem acceptSlot_cases {b : BacklogSlot} (h : acceptSlot cfg s l c b t = .ok s') :
    ∃ s₁ ok, nicAdd cfg (acceptInit cfg s l c b t) c
        (((acceptInit cfg s l c b t).mem c).localSeq + 1) = .ok (s₁, ok) ∧
      s' = if ok then acceptDone cfg s₁ l c else s₁.popBacklog l := by
  obtain ⟨⟨s₁, ok⟩, hadd, hs⟩ := of_bind_ok h
  exact ⟨s₁, ok, hadd, (Except.ok.inj hs).symm⟩

/-- A slot that has no timestamp is dropped, any other is taken for the first that waits. -/
theorem listenerAccept_cases (h : listenerAccept cfg s l = .ok s') :
    ∃ c ws b bs, (s.listener l).waitConns = c :: ws ∧
      (s.listener l).backlog.slots = b :: bs ∧ (s' = s.popBacklog l ∨
        ∃ t, parseOptions b.pkt b.len = .ok (some t) ∧ acceptSlot cfg s l c b t = .ok s') := by
  unfold listenerAccept at h
  split at h
  · rename_i c ws b bs hw hb
    refine ⟨c, ws, b, bs, hw, hb, ?_⟩
    split at h
    · cases h
    · exact .inl (Except.ok.inj h).symm
    · exact .inl (Except.ok.inj h).symm
    · rename_i t hparse
      exact .inr ⟨t, hparse, h⟩
  · cases h

/-- `tcp_accept` before it looks at the backlog. -/
def SlowPath.enqueueAccept (cfg : SlowCfg) (s : SlowPath) (a : AcceptArgs) (l c : ℕ)
    (b : ConnBufs) : SlowPath :=
  (s.setConn c (waitConn cfg a b (s.listener l).port)).pushWait l c

theorem tcpAccept_cases {a : AcceptArgs} (h : tcpAccept cfg s a l c b = .ok s') :
    s' = enqueueAccept cfg s a l c b ∨
      listenerAccept cfg (enqueueAccept cfg s a l c b) l = .ok s' := by
  unfold tcpAccept at h
  dsimp only at h
  split_ifs at h
  · exact .inr h
  · exact .inl (Except.ok.inj h).symm

/-! ### Packets -/

/-- A packet for a listener is dropped, answered by a reset, or put into the backlog. -/
theorem listenerPacket_cases (h : listenerPacket cfg s l p ts core fg = .ok s') :
    s' = s ∨ s' = s.send (sendReset p ts) ∨
      (p.flags &&& ~~~(tcpEce ||| tcpCwr) = tcpSyn ∧ (s.listener l).backlog.admits p = true ∧
        (s' = s.pushBacklog l p core fg ∨
          listenerAccept cfg (s.pushBacklog l p core fg) l = .ok s')) := by
  unfold listenerPacket at h
  dsimp only at h
  split_ifs at h with hsyn hadmits hwaiting
  · exact .inr (.inl (Except.ok.inj h).symm)
  · exact .inr (.inr ⟨not_not.1 hsyn, hadmits, .inr h⟩)
  · exact .inr (.inr ⟨not_not.1 hsyn, hadmits, .inl (Except.ok.inj h).symm⟩)
  · exact .inl (Except.ok.inj h).symm

/-- The SYN-ACK was added to the fast path, or could not be. -/
theorem establish_cases (h : establish cfg s c p t = .ok (s', ok)) :
    ∃ s₁, nicAdd cfg (establishInit cfg s c p t) c
        ((establishInit cfg s c p t).mem c).localSeq = .ok (s₁, ok) ∧
      s' = if ok then establishDone s₁ c else s₁ := by
  obtain ⟨⟨s₁, ok₁⟩, hadd, hs⟩ := of_bind_ok h
  cases Except.ok.inj hs
  exact ⟨s₁, hadd, rfl⟩

theorem connSynSentPacket_cases (h : connSynSentPacket cfg s c p ts = .ok (s', ok)) :
    (s.mem c).toArmed = true ∧
      (((p.flags &&& (tcpSyn ||| tcpAck) ≠ tcpSyn ||| tcpAck ∨ ts = none) ∧ ok = false ∧
        s' = s.setConn c { s.mem c with toArmed := false }) ∨
      (p.flags &&& (tcpSyn ||| tcpAck) = tcpSyn ||| tcpAck ∧ ∃ t, ts = some t ∧
        establish cfg (s.setConn c { s.mem c with toArmed := false }) c p t = .ok (s', ok))) := by
  unfold connSynSentPacket at h
  dsimp only at h
  split_ifs at h with harm hflags
  · cases Except.ok.inj h
    exact ⟨harm, .inl ⟨.inl hflags, rfl, rfl⟩⟩
  · refine ⟨harm, ?_⟩
    cases ts with
    | none =>
      cases Except.ok.inj h
      exact .inl ⟨.inr rfl, rfl, rfl⟩
    | some t => exact .inr ⟨not_not.1 hflags, t, rfl, h⟩

/-- A packet for a connection that waits for its SYN-ACK, that is open, or any other. -/
theorem connPacket_cases (h : connPacket cfg s c p ts core fg room = .ok s') :
    ((s.mem c).status = .synSent ∧ ∃ s₁ ok,
        connSynSentPacket cfg (s.setConn c { s.mem c with fnCore := core, flowGroup := fg }) c p
          ts = .ok (s₁, ok) ∧ (if ok then .ok s₁ else connFailed cfg s₁ c room) = .ok s') ∨
      ((s.mem c).status = .opened ∧ p.flags = tcpSyn ∧ ts = none ∧
        connFailed cfg s c room = .ok s') ∨
      (∃ t, (s.mem c).status = .opened ∧ p.flags = tcpSyn ∧ ts = some t ∧
        s' = s.send ((s.mem c).synAck t)) ∨
      ((s.mem c).status = .closed ∧ s' = s.send ((s.mem c).sendControl tcpAck (some 0) 0)) ∨
      s' = s := by
  unfold connPacket at h
  dsimp only at h
  split_ifs at h with hsyn hopen hdup hfin
  · obtain ⟨⟨s₁, ok⟩, hpkt, hs⟩ := of_bind_ok h
    refine .inl ⟨hsyn, s₁, ok, hpkt, ?_⟩
    cases ok with
    | true => exact hs
    | false => exact hs
  · cases ts with
    | none => exact .inr (.inl ⟨hopen.1, hopen.2, rfl, h⟩)
    | some t => exact .inr (.inr (.inl ⟨t, hopen.1, hopen.2, rfl, (Except.ok.inj h).symm⟩))
  · exact .inr (.inr (.inr (.inr (Except.ok.inj h).symm)))
  · exact .inr (.inr (.inr (.inl ⟨hfin.1, (Except.ok.inj h).symm⟩)))
  · exact .inr (.inr (.inr (.inr (Except.ok.inj h).symm)))

/-- A packet is dropped, answered by a reset, or handed to a connection or to a listener. -/
theorem tcpPacket_cases (h : tcpPacket cfg s p len core fg room = .ok s') :
    s' = s ∨ (∃ ts, s' = s.send (sendReset p ts)) ∨
      (∃ c ts, parseOptions p len = .ok ts ∧ connLookup cfg s p = some c ∧
        connPacket cfg s c p ts core fg room = .ok s') ∨
      (∃ l ts, p.ipDst = cfg.ip ∧ connLookup cfg s p = none ∧ s.listenerLookup p = some l ∧
        listenerPacket cfg s l p ts core fg = .ok s') := by
  unfold tcpPacket at h
  split at h
  · exact .inl (Except.ok.inj h).symm
  split at h
  · exact .inl (Except.ok.inj h).symm
  rename_i hip
  split at h
  · exact .inl (Except.ok.inj h).symm
  · cases h
  rename_i ts hparse
  split at h
  · rename_i c hc
    exact .inr (.inr (.inl ⟨c, ts, hparse, hc, h⟩))
  rename_i hc
  split at h
  · rename_i l hl
    exact .inr (.inr (.inr ⟨l, ts, not_not.1 hip, hc, hl, h⟩))
  · cases h
    split_ifs
    · exact .inr (.inl ⟨ts, rfl⟩)
    · exact .inl rfl

/-! ### The queue and timers -/

theorem tcpPoll_cases (h : tcpPoll cfg s room = .ok s') :
    s' = s ∨ ∃ c q, s.asyncQ = c :: q ∧
      (((s.mem c).status = .arpPending ∧ (s.mem c).compStatus = 0 ∧ (s.mem c).toArmed = false ∧
          s' = ({ s with asyncQ := q }.setConn c ((s.mem c).arpDone cfg)).send
            ((s.mem c).arpDone cfg).syn) ∨
        ((s.mem c).status = .regSynack ∧ (s.mem c).compStatus = 0 ∧
          s' = ({ s with asyncQ := q }.setConn c { s.mem c with status := .opened }).send
            ((s.mem c).synAck (s.mem c).synTs)) ∨
        (((s.mem c).status = .arpPending ∨ (s.mem c).status = .regSynack) ∧
          (s.mem c).compStatus ≠ 0 ∧ connFailed cfg { s with asyncQ := q } c room = .ok s') ∨
        s' = { s with asyncQ := q }) := by
  unfold tcpPoll at h
  split at h
  · exact .inl (Except.ok.inj h).symm
  rename_i c q hq
  refine .inr ⟨c, q, hq, ?_⟩
  dsimp only at h
  split_ifs at h with harp hcomp harm hsyn hcomp
  · exact .inr (.inr (.inl ⟨.inl harp, hcomp, h⟩))
  · obtain ⟨-, -, h⟩ := of_bind_ok h
    exact .inl ⟨harp, not_not.1 hcomp, Bool.eq_false_of_not_eq_true harm, (Except.ok.inj h).symm⟩
  · exact .inr (.inr (.inl ⟨.inr hsyn, hcomp, h⟩))
  · exact .inr (.inl ⟨hsyn, not_not.1 hcomp, (Except.ok.inj h).symm⟩)
  · exact .inr (.inr (.inr (Except.ok.inj h).symm))

theorem tcpClose_cases (h : tcpClose cfg s fuel c = .ok s') :
    s' = s ∨ (s.mem c).status = .opened ∧ ∃ s₁,
      ccConnRemove cfg (disableConn cfg s c) fuel c = .ok s₁ ∧
      s' = s₁.setConn c
        { s₁.mem c with status := .closed, toArmed := true, toType := .closed } := by
  unfold tcpClose at h
  split_ifs at h with ho
  · exact .inl (Except.ok.inj h).symm
  · obtain ⟨s₁, hremove, h⟩ := of_bind_ok h
    split_ifs at h with harm
    exact .inr ⟨not_not.1 ho, s₁, hremove, (Except.ok.inj h).symm⟩

/-- `conn_close_timeout` with the port given up last. -/
theorem connCloseTimeout_ok (h : connCloseTimeout cfg s c = .ok s') :
    ∃ s₁, connUnregister cfg s c = .ok s₁ ∧
      s' = ((s₁.freePort (s.mem c).localPort).nicFree (s.mem c).flowId).setConn c
        { s.mem c with live := false } := by
  obtain ⟨s₂, hu, h⟩ := of_bind_ok h
  cases h
  obtain ⟨hc, rfl⟩ := connUnregister_ok hu
  have hmem : ∀ p, (s.freePort p).mem = s.mem ∧ (s.freePort p).table = s.table := by
    intro p
    rcases freePort_cases (s := s) (p := p) with he | ⟨-, he⟩ <;> rw [he] <;> exact ⟨rfl, rfl⟩
  rw [(hmem _).1, (hmem _).2] at hc
  refine ⟨_, if_pos hc, ?_⟩
  rw [(hmem _).1, (hmem _).2]
  unfold freePort
  dsimp only
  split <;> rfl

/-- The connection with its timer gone, and after one more attempt. -/
def Connection.disarmed (x : Connection) : Connection := { x with toArmed := false }

def Connection.attempted (x : Connection) : Connection :=
  { x with toArmed := false, toAttempts := x.toAttempts + 1 }

def Connection.rearmed (x : Connection) : Connection :=
  { x.attempted with timeout := x.timeout * 2, toArmed := true, toType := .handshake }

theorem tcpTimeout_cases (h : tcpTimeout cfg s c room = .ok s') :
    (s.mem c).toArmed = true ∧
      (((s.mem c).toType = .closed ∧
          connCloseTimeout cfg (s.setConn c (s.mem c).disarmed) c = .ok s') ∨
        ((s.mem c).toType = .handshake ∧ (s.mem c).status = .synSent ∧
          cfg.tcpHandshakeRetries < (s.mem c).toAttempts + 1 ∧
          connFailed cfg (s.setConn c (s.mem c).attempted) c room = .ok s') ∨
        ((s.mem c).toType = .handshake ∧ (s.mem c).status = .synSent ∧
          s' = (s.setConn c (s.mem c).rearmed).send (s.mem c).rearmed.syn)) := by
  unfold tcpTimeout at h
  dsimp only at h
  split_ifs at h with harm hclosed hsyn
  · exact ⟨harm, .inl ⟨hclosed, h⟩⟩
  have htype : (s.mem c).toType = .handshake := by
    cases ht : (s.mem c).toType with
    | handshake => rfl
    | closed => exact (hclosed ht).elim
  obtain ⟨r, hr, h⟩ := of_bind_ok h
  obtain ⟨hretry, rfl⟩ | ⟨us, -, rfl⟩ := handshakeTimeout_ok (ok_of_orAbort hr)
  · exact ⟨harm, .inr (.inl ⟨htype, not_not.1 hsyn, hretry, h⟩)⟩
  · exact ⟨harm, .inr (.inr ⟨htype, not_not.1 hsyn, (Except.ok.inj h).symm⟩)⟩

/-! ### Failing connections -/

/-- The arguments with which a connection is added once it has its SYN-ACK. -/
def Connection.synAckedArgs (cfg : SlowCfg) (x : Connection) (p : TcpPacket) (t : U32) (core : U32)
    (fg : U16) : ConnArgs :=
  ({ ({ x with fnCore := core, flowGroup := fg }).synAcked p t with ccRate := cfg.ccRate }).args cfg
    p.ackno

/-- Why `conn_failed` was called. -/
inductive FailReason
  | notSynAck
  | addFailed
  | synNoTs
  | unresolved
  | retries
deriving DecidableEq

/-- The ways in which an event makes `conn_failed` destroy a connection. -/
inductive ConnFails (cfg : SlowCfg) (s : SlowPath) : SlowEvent → ℕ → FailReason → Prop
  | notSynAck {p : TcpPacket} {len : U16} {core : U32} {fg : U16} {c : ℕ} {ts : Option U32}
    (hlookup : connLookup cfg s p = some c) (hstatus : (s.mem c).status = .synSent)
    (hparse : parseOptions p len = .ok ts)
    (hbad : p.flags &&& (tcpSyn ||| tcpAck) ≠ tcpSyn ||| tcpAck ∨ ts = none) :
    ConnFails cfg s (.packet p len core fg true) c .notSynAck
  | addFailed {p : TcpPacket} {len : U16} {core : U32} {fg : U16} {c : ℕ} {t : U32}
    (hlookup : connLookup cfg s p = some c) (hstatus : (s.mem c).status = .synSent)
    (hparse : parseOptions p len = .ok (some t))
    (hadd : (nicifConnectionAdd cfg.flowHash s.nic
      ((s.mem c).synAckedArgs cfg p t core fg)).2 = .failed) :
    ConnFails cfg s (.packet p len core fg true) c .addFailed
  | synNoTs {p : TcpPacket} {len : U16} {core : U32} {fg : U16} {c : ℕ}
    (hlookup : connLookup cfg s p = some c) (hstatus : (s.mem c).status = .opened)
    (hsyn : p.flags = tcpSyn) (hparse : parseOptions p len = .ok none) :
    ConnFails cfg s (.packet p len core fg true) c .synNoTs
  | unresolved {c : ℕ} {q : List ℕ} (hq : s.asyncQ = c :: q) (hcomp : (s.mem c).compStatus ≠ 0)
    (hstatus : (s.mem c).status = .arpPending ∨ (s.mem c).status = .regSynack) :
    ConnFails cfg s (.poll true) c .unresolved
  | retries {c : ℕ} (hstatus : (s.mem c).status = .synSent)
    (hretry : cfg.tcpHandshakeRetries < (s.mem c).toAttempts + 1) :
    ConnFails cfg s (.timeout c true) c .retries

theorem mem_establishInit : (establishInit cfg s c p t).mem c =
    { (s.mem c).synAcked p t with
      ccNext := s.ccConns (cfg.vmOf (s.mem c).ctx)
      ccRate := cfg.ccRate
      ccListed := true } := by
  unfold establishInit ccConnInit
  dsimp only
  rw [mem_setConn_self (z := (s.mem c).synAcked p t)]
  exact mem_setConn_self

/-- A connection that waited for its SYN-ACK fails for one of three reasons. -/
theorem synSent_fails {s₁ : SlowPath}
    (h : connSynSentPacket cfg (s.setConn c { s.mem c with fnCore := core, flowGroup := fg }) c p
      ts = .ok (s₁, false)) :
    (p.flags &&& (tcpSyn ||| tcpAck) ≠ tcpSyn ||| tcpAck ∨ ts = none) ∨
      ∃ t, ts = some t ∧ (nicifConnectionAdd cfg.flowHash s.nic
        ((s.mem c).synAckedArgs cfg p t core fg)).2 = .failed := by
  rcases (connSynSentPacket_cases h).2 with ⟨hbad, -⟩ | ⟨-, t, rfl, hest⟩
  · exact .inl hbad
  · refine .inr ⟨t, rfl, ?_⟩
    obtain ⟨s₂, hadd, -⟩ := establish_cases hest
    rcases nicAdd_cases hadd with ⟨-, τ, hτ, -⟩ | ⟨hf, -⟩
    · rw [mem_establishInit] at hτ
      rw [mem_setConn_self, mem_setConn_self] at hτ
      exact congrArg Prod.snd hτ
    · cases hf

end Tas
