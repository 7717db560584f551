import Tas.Sessions

/-! Handshakes between two hosts. The network loses, repeats and reorders segments, but makes up no
SYN of the connection. -/
namespace Tas

open Outcome SlowPath Function

/-! ### Two hosts -/

/-- Two hosts, and the ports of a connection between them. -/
structure HostPair where
  cfg : Bool → SlowCfg
  port : Bool → U16

/-- The 4-tuple of the connection at one of its ends. -/
def HostPair.key (H : HostPair) (i : Bool) : FlowKey :=
  ⟨(H.cfg i).ip, H.port i, (H.cfg (!i)).ip, H.port (!i)⟩

/-- Packet `p` carries segment `m` of host `ip`. -/
structure CarriesControl (ip : U32) (m : Control) (p : TcpPacket) : Prop where
  ipSrc : p.ipSrc = ip
  ipDst : p.ipDst = m.remoteIp
  portSrc : p.portSrc = m.localPort
  portDst : p.portDst = m.remotePort
  seqno : p.seqno = m.seqno
  ackno : p.ackno = m.ackno
  flags : p.flags = m.flags

/-- A SYN that reaches end `i` has an IP length that covers its headers, and one of the connection
was sent by the other end at some time before. -/
def Delivered (H : HostPair) (w : Bool → SlowPath) (i : Bool) (e : SlowEvent) : Prop :=
  ∀ p len core fg room, e = .packet p len core fg room → p.flags &&& tcpSyn ≠ 0 →
    p.HeadersCopied ∧
      (pktKey p = H.key i → ∃ m ∈ (w (!i)).sent, CarriesControl (H.cfg (!i)).ip m p)

/-- One of the hosts makes a step. -/
def PairStep (H : HostPair) (w w' : Bool → SlowPath) : Prop :=
  ∃ i e, Delivered H w i e ∧ SlowStep (H.cfg i) (w i) e (w' i) ∧ w' (!i) = w (!i)

def PairRun (H : HostPair) : (Bool → SlowPath) → (Bool → SlowPath) → Prop :=
  Relation.ReflTransGen (PairStep H)

/-! ### What one end knows -/

/-- The flags of a SYN, and of a SYN-ACK of a connection with ECN. -/
def synFlags : U16 := tcpSyn ||| tcpEce ||| tcpCwr
def ecnSynAckFlags : U16 := tcpSyn ||| tcpAck ||| tcpEce

/-- The segment belongs to the connection with 4-tuple `key`. -/
def Control.Of (m : Control) (key : FlowKey) : Prop :=
  m.remoteIp = key.remoteIp ∧ m.remotePort = key.remotePort ∧ m.localPort = key.localPort

/-- A SYN has sequence number 0. A SYN-ACK has sequence number 1 and acknowledges the SYN. -/
def Control.Opening (m : Control) : Prop :=
  (m.flags = synFlags ∧ m.seqno = 0) ∨ (m.flags = ecnSynAckFlags ∧ m.seqno = 1 ∧ m.ackno = 1)

/-- The fast path was given these sequence numbers, and ECN. -/
def Session.Installed (x : Session) (localSeq remoteSeq : U32) : Prop :=
  ∃ a, x.installed = some a ∧ a.localSeq = localSeq ∧ a.remoteSeq = remoteSeq ∧
    a.flags &&& nicifConnEcn = nicifConnEcn

/-- How far the handshake of a session has come. `reg` says that it is in the hash table. -/
structure Session.Agrees (x : Session) (reg : Prop) : Prop where
  opening : x.status = .arpPending ∨ x.status = .synSent → x.localSeq = 0
  answering : x.status = .regSynack → x.localSeq = 1 ∧ x.remoteSeq = 1 ∧
    x.flags &&& nicifConnEcn = nicifConnEcn ∧ (reg → x.Installed 2 1)
  active : x.status = .opened → x.active = true → x.Installed 1 2
  passive : x.status = .opened → x.active = false → x.Installed 2 1

/-- What holds at an end with 4-tuple `key`. -/
structure EndInv (cfg : SlowCfg) (key : FlowKey) (s : SlowPath) : Prop where
  sent : ∀ m ∈ s.sent, m.Of key → m.flags &&& tcpSyn ≠ 0 → m.Opening
  backlog : ∀ l, ∀ b ∈ (s.listener l).backlog.slots, acceptKey cfg s l b = key →
    b.pkt.flags = synFlags ∧ b.pkt.seqno = 0
  conn : ∀ c, (s.mem c).live = true → (s.mem c).key = key →
    (s.mem c).session.Agrees (s.tables.Registered c)

variable {H : HostPair} {w w' : Bool → SlowPath} {cfg : SlowCfg} {key : FlowKey} {s s' : SlowPath}
  {e : SlowEvent} {c : ℕ} {p : TcpPacket} {i room : Bool} {fg len : U16} {core f t : U32}
  {b : BacklogSlot} {x : Connection} {r reg : Prop} {w₀ : Bool → SlowPath}

/-- The SYNs that an event brings are copied with their headers, and those for the connection are
those of the other end. -/
def Opens (key : FlowKey) (e : SlowEvent) : Prop :=
  ∀ p len core fg room, e = .packet p len core fg room → p.flags &&& tcpSyn ≠ 0 →
    p.HeadersCopied ∧ (pktKey p = key →
      (p.flags = synFlags ∧ p.seqno = 0) ∨ (p.flags = ecnSynAckFlags ∧ p.seqno = 1 ∧ p.ackno = 1))

theorem Delivered.opens (hd : Delivered H w i e)
    (hpeer : EndInv (H.cfg (!i)) (H.key (!i)) (w (!i))) : Opens (H.key i) e := by
  intro p len core fg room he hsyn
  obtain ⟨hcopied, hsent⟩ := hd p len core fg room he hsyn
  refine ⟨hcopied, fun hkey => ?_⟩
  obtain ⟨m, hm, hcarry⟩ := hsent hkey
  obtain ⟨hip, hport, hrip, hrport⟩ := FlowKey.mk.inj hkey
  have hof : m.Of (H.key (!i)) := by
    refine ⟨?_, ?_, ?_⟩
    · rw [← hcarry.ipDst, hip]
      change _ = (H.cfg (!!i)).ip
      rw [Bool.not_not]
    · rw [← hcarry.portDst, hport]
      change _ = H.port (!!i)
      rw [Bool.not_not]
    · rw [← hcarry.portSrc, hrport]
      rfl
  rw [hcarry.flags] at hsyn ⊢
  rw [hcarry.seqno, hcarry.ackno]
  exact hpeer.sent m hm hof hsyn

/-- A SYN without an acknowledgement, whatever it says about ECN. -/
theorem Opens.syn (ho : Opens key (.packet p len core fg room))
    (hflags : p.flags &&& ~~~(tcpEce ||| tcpCwr) = tcpSyn) :
    p.HeadersCopied ∧ (pktKey p = key → p.flags = synFlags ∧ p.seqno = 0) := by
  have hsyn : p.flags &&& tcpSyn ≠ 0 := by
    intro h0
    have hand : (p.flags &&& ~~~(tcpEce ||| tcpCwr)) &&& tcpSyn = p.flags &&& tcpSyn := by
      rw [BitVec.and_assoc]
      rfl
    rw [h0, hflags] at hand
    exact absurd hand (by decide)
  obtain ⟨hcopied, hopens⟩ := ho p len core fg room rfl hsyn
  refine ⟨hcopied, fun hkey => ?_⟩
  rcases hopens hkey with h | ⟨h, -⟩
  · exact h
  · rw [h] at hflags
    exact absurd hflags (by decide)

theorem Opens.synAck (ho : Opens key (.packet p len core fg room)) (hkey : pktKey p = key)
    (hflags : p.flags &&& (tcpSyn ||| tcpAck) = tcpSyn ||| tcpAck) :
    p.flags = ecnSynAckFlags ∧ p.seqno = 1 ∧ p.ackno = 1 := by
  have hsyn : p.flags &&& tcpSyn ≠ 0 := by
    intro h0
    have hand : (p.flags &&& (tcpSyn ||| tcpAck)) &&& tcpSyn = p.flags &&& tcpSyn := by
      rw [BitVec.and_assoc]
      rfl
    rw [h0, hflags] at hand
    exact absurd hand (by decide)
  rcases (ho p len core fg room rfl hsyn).2 hkey with ⟨h, -⟩ | h
  · rw [h] at hflags
    exact absurd hflags (by decide)
  · exact h

/-- The packets that find a connection have its 4-tuple. -/
theorem pktKey_of_lookup (hi : s.Ok cfg) (hc : connLookup cfg s p = some c)
    (hip : p.ipDst = cfg.ip) : pktKey p = (s.mem c).key := by
  obtain ⟨hmem, hhits⟩ := connLookup_some hc
  have hlocal : (s.mem c).outLocalIp = cfg.ip := ((hi.placed c).reg ⟨_, hmem⟩).ip
  have hhits : p.ipSrc = (s.mem c).outRemoteIp ∧ p.portDst = (s.mem c).localPort ∧
      p.portSrc = (s.mem c).remotePort := by simpa [hits] using hhits
  unfold pktKey Connection.key
  rw [hip, hlocal, hhits.1, hhits.2.1, hhits.2.2]

/-! ### One step -/

/-- A SYN in a backlog, or one that comes, is as the other end sends it. -/
theorem EndInv.slot {l : ℕ} (h : EndInv cfg key s) (hi : s.Ok cfg) (ho : Opens key e)
    (hb : b ∈ (s.listener l).backlog.slots ∨ Brings cfg s e l b)
    (hkey : acceptKey cfg s l b = key) : b.pkt.flags = synFlags ∧ b.pkt.seqno = 0 := by
  rcases hb with hb | ⟨p, len, core, fg, room, rfl, rfl, hip, hl, -, hsyn⟩
  · exact h.backlog l b hb hkey
  · have hport := (listenerLookup_some hi.tables hl).2.1
    obtain ⟨hcopied, hopens⟩ := ho.syn hsyn
    have hpkt : ((s.listener l).backlog.entry p core fg).pkt = _ := over_eq hcopied
    unfold acceptKey at hkey
    rw [hpkt] at hkey ⊢
    refine hopens ?_
    rw [← hkey]
    unfold pktKey
    rw [hip, hport]

theorem agrees_accepts {port : U16}
    {a : Option ConnArgs} (hb : b.pkt.flags = synFlags ∧ b.pkt.seqno = 0)
    (ha : reg → a = some ({ x.acceptSyn cfg port b t with ccRate := cfg.ccRate }.args cfg 2)) :
    Session.Agrees { (x.acceptSyn cfg port b t).session with flowId := f, installed := a } reg := by
  have hremote : (x.acceptSyn cfg port b t).remoteSeq = 1 := by
    change b.pkt.seqno + 1 = 1
    rw [hb.2]
    rfl
  have hecn : (x.acceptSyn cfg port b t).flags &&& nicifConnEcn = nicifConnEcn := by
    change (if b.pkt.flags &&& (tcpEce ||| tcpCwr) = tcpEce ||| tcpCwr then
      x.flags ||| nicifConnEcn else x.flags) &&& nicifConnEcn = nicifConnEcn
    rw [hb.1, if_pos (by decide)]
    exact Word.and_or_self
  refine ⟨nofun, fun _ => ⟨rfl, hremote, hecn, fun hr => ⟨_, ha hr, rfl, hremote, hecn⟩⟩, nofun,
    nofun⟩

theorem agrees_establishes (hp : p.flags = ecnSynAckFlags ∧ p.seqno = 1 ∧ p.ackno = 1)
    (hactive : x.active = true) :
    Session.Agrees { (x.synAcked p t).session with
      status := .opened
      toArmed := false
      flowId := f
      installed := some (x.synAckedArgs cfg p t core fg) } reg := by
  have hecn : (x.synAckedArgs cfg p t core fg).flags &&& nicifConnEcn = nicifConnEcn := by
    change (if p.flags &&& (tcpEce ||| tcpCwr) = tcpEce then x.flags ||| nicifConnEcn
      else x.flags) &&& nicifConnEcn = nicifConnEcn
    rw [hp.1, if_pos (by decide)]
    exact Word.and_or_self
  have hremote : (x.synAckedArgs cfg p t core fg).remoteSeq = 2 := by
    change p.seqno + 1 = 2
    rw [hp.2.1]
    rfl
  refine ⟨nofun, nofun, fun _ _ => ⟨_, rfl, hp.2.2, hremote, hecn⟩, fun _ hpassive => ?_⟩
  exact absurd (hactive.symm.trans hpassive) (by decide)

theorem Session.Agrees.mono {x : Session} {r' : Prop} (h : x.Agrees r) (hr : r' → r) :
    x.Agrees r' := by
  refine ⟨h.opening, fun hs => ?_, h.active, h.passive⟩
  obtain ⟨hl, hremote, hecn, hins⟩ := h.answering hs
  exact ⟨hl, hremote, hecn, fun hr' => hins (hr hr')⟩

/-- A connection that is neither open nor on its way there. -/
theorem agrees_of_idle {x : Session}
    (h : x.status = .failed ∨ x.status = .synWait ∨ x.status = .closed) : x.Agrees r := by
  rcases h with h | h | h <;> constructor <;> rw [h] <;> nofun

theorem agrees_step (h : EndInv cfg key s) (hi : s.Ok cfg) (ho : Opens key e)
    (hstep : ConnStep cfg s e s' c) (hlive : (s'.mem c).live = true) (hkey : (s'.mem c).key = key) :
    (s'.mem c).session.Agrees (s'.tables.Registered c) := by
  have hlive' : (s'.mem c).session.live = true := hlive
  have hkey' : (s'.mem c).session.key = key := hkey
  cases hstep with
  | keep hy hreg =>
    rw [hy] at hlive' hkey' ⊢
    exact (h.conn c hlive' hkey').mono hreg
  | dead hy => exact absurd (hlive.symm.trans hy) (by decide)
  | failed _ hy => exact agrees_of_idle (.inl hy)
  | waits hx hy => exact agrees_of_idle (.inr (.inl hy))
  | opens hx hstatus hactive hl harm =>
    have hnot : ∀ st : ConnState, (s'.mem c).session.status = st →
        st = .arpPending ∨ st = .synSent := by
      intro st hst
      rw [← hst]
      exact hstatus
    refine ⟨fun _ => hl, fun hs => ?_, fun hs => ?_, fun hs => ?_⟩
    all_goals exact absurd (hnot _ hs) (by decide)
  | resolved hx hreg hy =>
    have hold := h.conn c ((hi.placed c).reg hreg).live (by rw [hy] at hkey'; exact hkey')
    rw [hy]
    exact ⟨fun _ => hold.opening (.inl hx), nofun, nofun, nofun⟩
  | accepts l b t x f a hx hb hy ha =>
    rw [hy] at hkey' ⊢
    exact agrees_accepts (h.slot hi ho hb hkey') ha
  | establishes p len core fg room t f he hc hip hx hflags hy =>
    subst he
    have hreg : s.tables.Registered c := ⟨_, (connLookup_some hc).1⟩
    have hstatus : (s.mem c).status.InTable (s.mem c).active := ((hi.placed c).reg hreg).status
    rw [hx] at hstatus
    rw [hy] at hkey' ⊢
    exact agrees_establishes (ho.synAck ((pktKey_of_lookup hi hc hip).trans hkey') hflags) hstatus
  | addressed mac hx hreg hy =>
    have hold := h.conn c ((hi.placed c).reg hreg).live (by rw [hy] at hkey'; exact hkey')
    rw [hy]
    refine ⟨hold.opening, fun hs => ?_, hold.active, hold.passive⟩
    obtain ⟨hl, hremote, hecn, hins⟩ := hold.answering hs
    exact ⟨hl, hremote, hecn, fun _ => hins hreg⟩
  | answers hx hreg hy hsent =>
    have hold := h.conn c ((hi.placed c).reg hreg).live (by rw [hy] at hkey'; exact hkey')
    have hstatus : (s.mem c).status.InTable (s.mem c).active := ((hi.placed c).reg hreg).status
    rw [hx] at hstatus
    rw [hy]
    refine ⟨nofun, nofun, fun _ hactive => ?_, fun _ _ => (hold.answering hx).2.2.2 hreg⟩
    exact absurd (hactive.symm.trans hstatus) (by decide)
  | closes _ hx hy => exact agrees_of_idle (.inr (.inr hy))

/-- A segment of a connection with the 4-tuple. -/
theorem key_of_control {flags mss : U16} {ts : Option U32} (hkey : key.localIp = x.outLocalIp)
    (hof : (x.sendControl flags ts mss).Of key) : x.key = key := by
  obtain ⟨hip, hport, hlport⟩ := hof
  unfold Connection.key
  rw [show x.outRemoteIp = key.remoteIp from hip, show x.remotePort = key.remotePort from hport,
    show x.localPort = key.localPort from hlport, ← hkey]

theorem opening_step (h : EndInv cfg key s) (hi : s.Ok cfg) (ho : Opens key e)
    (hip : key.localIp = cfg.ip) (hview : StepView cfg s e s')
    (hconn : ∀ c, (s'.mem c).live = true → (s'.mem c).key = key →
      (s'.mem c).session.Agrees (s'.tables.Registered c)) :
    ∀ m ∈ s'.sent, m.Of key → m.flags &&& tcpSyn ≠ 0 → m.Opening := by
  -- Only the segment that the step has sent is new.
  have hnew : ∀ m, s'.sent = m :: s.sent → (m.Of key → m.flags &&& tcpSyn ≠ 0 → m.Opening) →
      ∀ m ∈ s'.sent, m.Of key → m.flags &&& tcpSyn ≠ 0 → m.Opening := by
    intro m hm hok m' hm'
    rw [hm] at hm'
    rcases List.mem_cons.1 hm' with rfl | hm'
    · exact hok
    · exact h.sent m' hm'
  cases hview.sent with
  | none hs =>
    rw [hs]
    exact h.sent
  | plain m hs hm => exact hnew m hs fun _ hsyn => (hsyn hm).elim
  | syn c hs hlive hstatus hlocal =>
    refine hnew _ hs fun hof _ => .inl ⟨rfl, ?_⟩
    have hkey := key_of_control (hip.trans hlocal.symm) hof
    exact (hconn c hlive hkey).opening (.inr hstatus)
  | synAck c hs hstatus hreg =>
    have hok := (hi.placed c).reg hreg
    refine hnew _ hs fun hof _ => .inr ?_
    have hlocal : (s.mem c).outLocalIp = cfg.ip := hok.ip
    have hkey := key_of_control (hip.trans hlocal.symm) hof
    obtain ⟨hl, hremote, hecn, -⟩ := (h.conn c hok.live hkey).answering hstatus
    have hecn : (s.mem c).ecn = true := beq_iff_eq.2 hecn
    refine ⟨?_, hl, hremote⟩
    change (s.mem c).synAckFlags = _
    unfold Connection.synAckFlags
    rw [hecn]
    rfl
  | again p len core fg room c t he hc hpip hsyn hs =>
    -- The other end never sends a SYN without ECN.
    subst he
    refine hnew _ hs fun hof _ => ?_
    have hlocal : (s.mem c).outLocalIp = cfg.ip :=
      ((hi.placed c).reg ⟨_, (connLookup_some hc).1⟩).ip
    have hkey := key_of_control (hip.trans hlocal.symm) hof
    obtain ⟨hflags, -⟩ := (ho.syn (by rw [hsyn]; decide)).2
      ((pktKey_of_lookup hi hc hpip).trans hkey)
    rw [hsyn] at hflags
    exact absurd hflags (by decide)

theorem endInv_step (h : EndInv cfg key s) (hi : s.Ok cfg) (ho : Opens key e)
    (hip : key.localIp = cfg.ip) (hs : SlowStep cfg s e s') : EndInv cfg key s' := by
  have hview := (slowEffect_step hi hs).toStepView
  have hconn := fun c => agrees_step h hi ho (hview.conn c)
  refine ⟨opening_step h hi ho hip hview hconn, fun l b hb hkey => ?_, hconn⟩
  obtain ⟨hport, hb⟩ := hview.backlog l b hb
  refine h.slot hi ho hb ?_
  rw [← hkey]
  unfold acceptKey
  rw [hport]

/-! ### Runs -/

theorem endInv_start (h : SlowStart s) : EndInv cfg key s := by
  refine ⟨fun m hm => ?_, fun l b hb => ?_, fun c hl => ?_⟩
  · rw [h.sent] at hm
    cases hm
  · rw [Backlog.slots_eq_nil (congrArg Fin.val (h.backlog l))] at hb
    cases hb
  · exact absurd (hl.symm.trans (h.mem c)) (by decide)

theorem endInv_run (h₀ : ∀ i, SlowStart (w₀ i)) (h : PairRun H w₀ w) :
    ∀ i, SlowInv (H.cfg i) (w i).tables (w i).mem ∧ EndInv (H.cfg i) (H.key i) (w i) := by
  induction h with
  | refl => exact fun i => ⟨slowInv_start (h₀ i), endInv_start (h₀ i)⟩
  | tail _ hstep ih =>
    obtain ⟨i, e, hdel, hs, hrest⟩ := hstep
    intro j
    by_cases hj : j = i
    · subst hj
      have hopens := hdel.opens (ih (!j)).2
      exact ⟨slowInv_step (ih j).1 hs, endInv_step (ih j).2 (ih j).1 hopens rfl hs⟩
    · obtain rfl : j = !i := Bool.eq_not_of_ne hj
      rw [hrest]
      exact ih (!i)

/-- Connection `c` is open, and was made by `tcp_open` or by a listener. -/
structure OpenAs (s : SlowPath) (c : ℕ) (key : FlowKey) (active : Bool) : Prop where
  live : (s.mem c).live = true
  opened : (s.mem c).status = .opened
  key : (s.mem c).key = key
  active : (s.mem c).active = active

/-- Two flows, as `nicif_connection_add` sets them up, that continue each other. -/
structure FlowsAgree (fs fs' : FlowState) : Prop where
  sent : fs.txNextSeq = fs'.rxNextSeq
  received : fs'.txNextSeq = fs.rxNextSeq
  ecn : fs.flag flowstEcn = fs'.flag flowstEcn

theorem connectionInit_ecn {a : ConnArgs} (fs : FlowState)
    (h : a.flags &&& nicifConnEcn = nicifConnEcn) :
    (connectionInit fs a).flag flowstEcn = true := by
  unfold connectionInit FlowState.flag
  dsimp only
  rw [if_pos h, Word.and_or_self]
  exact beq_self_eq_true _

/-- The client and the server have given the same numbers to the fast path, in every run in which
both are open. -/
theorem handshake_agrees {w₀ : Bool → SlowPath} (h₀ : ∀ i, SlowStart (w₀ i)) (h : PairRun H w₀ w)
    {i : Bool} {c d : ℕ} (hc : OpenAs (w i) c (H.key i) true)
    (hd : OpenAs (w (!i)) d (H.key (!i)) false) :
    ∃ a b, ((w i).mem c).installed = some a ∧ ((w (!i)).mem d).installed = some b ∧
      ∀ fs fs', FlowsAgree (connectionInit fs a) (connectionInit fs' b) := by
  have hinv := endInv_run h₀ h
  obtain ⟨a, ha, hal, har, haecn⟩ :=
    ((hinv i).2.conn c hc.live hc.key).active hc.opened hc.active
  obtain ⟨b, hb, hbl, hbr, hbecn⟩ :=
    ((hinv (!i)).2.conn d hd.live hd.key).passive hd.opened hd.active
  refine ⟨a, b, ha, hb, fun fs fs' => ⟨?_, ?_, ?_⟩⟩
  · exact hal.trans hbr.symm
  · exact hbl.trans har.symm
  · rw [connectionInit_ecn fs haecn, connectionInit_ecn fs' hbecn]

/-! ### A handshake -/

theorem PairRun.after (h : PairRun H w₀ w) (i : Bool) {e : SlowEvent} (hd : Delivered H w i e)
    (hen : (w i).Enabled e) (hok : ((w i).next (H.cfg i) e).isOk = true) :
    PairRun H w₀ (update w i ((w i).after (H.cfg i) e)) := by
  refine .tail h ⟨i, e, hd, ?_, ?_⟩
  · rw [update_self]
    exact slowStep_after hen hok
  · exact update_of_ne (by simp) ..

/-- A packet with segment `m` of host `ip`, and a timestamp. -/
def carrier (ip : U32) (m : Control) : TcpPacket where
  toRxPacket := { (default : RxPacket) with
    ipSrc := ip
    ipDst := m.remoteIp
    portSrc := m.localPort
    portDst := m.remotePort
    ipLen := 52
    hdrlen := 8
    seqno := m.seqno
    ackno := m.ackno
    flags := m.flags }
  opt i := [8, 10].getD i 0

theorem carries_carrier (ip : U32) (m : Control) : CarriesControl ip m (carrier ip m) :=
  ⟨rfl, rfl, rfl, rfl, rfl, rfl, rfl⟩

theorem delivered_carrier {m : Control} (hm : m ∈ (w (!i)).sent) :
    Delivered H w i (.packet (carrier (H.cfg (!i)).ip m) len core fg room) := by
  rintro p len core fg room he -
  obtain ⟨rfl, -⟩ := SlowEvent.packet.inj he
  have hlen : (slotLen (carrier (H.cfg (!i)).ip m)).toNat = 66 := rfl
  exact ⟨by rw [TcpPacket.HeadersCopied, hlen]; decide, fun _ => ⟨m, hm, carries_carrier ..⟩⟩

/-- Port 8192 of host 7 connects to port 80 of host 1. -/
def webPair : HostPair where
  cfg i := if i then { plainCfg with ip := 7 } else plainCfg
  port i := if i then 8192 else 80

def webSyn : Control := ⟨5, 1, 80, 8192, 0, 0, synFlags, some 0, 1412⟩
def webSynAck : Control := ⟨0, 7, 8192, 80, 1, 1, ecnSynAckFlags, some 0, 1412⟩

/-- The server listens, and the client has sent its SYN. -/
def synOnWire : Bool → SlowPath :=
  let w : Bool → SlowPath := fun _ => idleSlow
  let w := update w false ((w false).after (webPair.cfg false) (.listen 0 0 80 false 21))
  update w true
    ((w true).after (webPair.cfg true) (.open ⟨0, 0, 1, 80, 0⟩ 12 noBufs (.done 5)))

/-- The SYN is accepted. -/
def synAccepted : Bool → SlowPath :=
  let w := update synOnWire false ((synOnWire false).after (webPair.cfg false)
    (.packet (carrier 7 webSyn) 66 0 0 true))
  update w false
    ((w false).after (webPair.cfg false) (.accept ⟨0, 0, 0⟩ 21 11 noBufs))

/-- The SYN-ACK is sent, and received. -/
def bothOpen : Bool → SlowPath :=
  let w := update synAccepted false
    ((synAccepted false).after (webPair.cfg false) (.poll true))
  update w true
    ((w true).after (webPair.cfg true) (.packet (carrier 1 webSynAck) 66 0 0 true))

theorem delivered_request (he : ∀ p len core fg room, e ≠ .packet p len core fg room) :
    Delivered H w i e :=
  fun p len core fg room h => (he p len core fg room h).elim

theorem pairRun_bothOpen : PairRun webPair (fun _ => idleSlow) bothOpen := by
  have hwire : PairRun webPair (fun _ => idleSlow) synOnWire :=
    (PairRun.after .refl false (e := .listen 0 0 80 false 21) (delivered_request nofun)
      (by decide +kernel) (by decide +kernel)).after true
      (e := .open ⟨0, 0, 1, 80, 0⟩ 12 noBufs (.done 5)) (delivered_request nofun)
      (by decide +kernel) (by decide +kernel)
  have hsyn : webSyn ∈ (synOnWire true).sent := by decide +kernel
  have haccepted : PairRun webPair (fun _ => idleSlow) synAccepted :=
    (hwire.after false (e := .packet (carrier 7 webSyn) 66 0 0 true) (delivered_carrier hsyn)
      trivial (by decide +kernel)).after false (e := .accept ⟨0, 0, 0⟩ 21 11 noBufs)
      (delivered_request nofun) (by decide +kernel) (by decide +kernel)
  have hpolled := haccepted.after false (e := .poll true) (delivered_request nofun) trivial
    (by decide +kernel)
  refine hpolled.after true (e := .packet (carrier 1 webSynAck) 66 0 0 true) (delivered_carrier ?_)
    trivial (by decide +kernel)
  decide +kernel

theorem bothOpen_agree :
    ∃ a b, ((bothOpen true).mem 12).installed = some a ∧
      ((bothOpen false).mem 11).installed = some b ∧
      ∀ fs fs', FlowsAgree (connectionInit fs a) (connectionInit fs' b) := by
  have hstart : ∀ i : Bool, SlowStart ((fun _ => idleSlow) i) := fun _ => slowStart_idle
  refine handshake_agrees (i := true) hstart pairRun_bothOpen ?_ ?_
  all_goals exact ⟨by decide +kernel, by decide +kernel, by decide +kernel, by decide +kernel⟩

end Tas
