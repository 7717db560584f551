import Tas.CcLists
import Tas.FourTuple

/-! What a step of the slow path does to one connection, to the segments that were sent, to the SYNs
that wait in backlogs, and to the flows of connections. -/
namespace Tas

open Outcome SlowPath Function List

variable {cfg : SlowCfg} {c d l : ℕ} {f g : U32} {up : Bool} {p : TcpPacket} {s s' : SlowPath}
  {e : SlowEvent} {o : OpenArgs} {b : ConnBufs} {route : Route} {fg len q : U16} {s₁ : SlowPath}
  {ok room : Bool} {core : U32} {ts : Option U32}

/-- What the peer and the fast path see of a connection. -/
structure Session where
  key : FlowKey
  live : Bool
  active : Bool
  status : ConnState
  localSeq : U32
  remoteSeq : U32
  flags : U32
  synTs : U32
  remoteMac : U64
  flowId : U32
  bufs : ConnBufs
  toArmed : Bool
  installed : Option ConnArgs

def Connection.session (x : Connection) : Session where
  key := x.key
  live := x.live
  active := x.active
  status := x.status
  localSeq := x.localSeq
  remoteSeq := x.remoteSeq
  flags := x.flags
  synTs := x.synTs
  remoteMac := x.remoteMac
  flowId := x.flowId
  bufs := x.bufs
  toArmed := x.toArmed
  installed := x.installed

/-- The event brings SYN `b` for listener `l`. -/
def Brings (cfg : SlowCfg) (s : SlowPath) (e : SlowEvent) (l : ℕ) (b : BacklogSlot) : Prop :=
  ∃ p len core fg room, e = .packet p len core fg room ∧
    b = (s.listener l).backlog.entry p core fg ∧ p.ipDst = cfg.ip ∧
    s.listenerLookup p = some l ∧ connLookup cfg s p = none ∧
    p.flags &&& ~~~(tcpEce ||| tcpCwr) = tcpSyn

/-- What may become of a connection in a step. -/
inductive ConnStep (cfg : SlowCfg) (s : SlowPath) (e : SlowEvent) (s' : SlowPath) (c : ℕ) : Prop
  | keep (hy : (s'.mem c).session = (s.mem c).session)
    (hreg : s'.tables.Registered c → s.tables.Registered c)
  | dead (hy : (s'.mem c).live = false)
  | failed (hlive : (s.mem c).live = true) (hy : (s'.mem c).status = .failed)
  | waits (hx : (s.mem c).live = false) (hy : (s'.mem c).status = .synWait)
  | opens (hx : (s.mem c).live = false) (hstatus : (s'.mem c).status = .arpPending ∨
      (s'.mem c).status = .synSent) (hactive : (s'.mem c).active = true)
    (hl : (s'.mem c).localSeq = 0)
    (harm : (s'.mem c).status = .synSent → (s'.mem c).toArmed = true)
  | resolved (hx : (s.mem c).status = .arpPending) (hreg : s.tables.Registered c)
    (hy : (s'.mem c).session = { (s.mem c).session with status := .synSent, toArmed := true })
  | accepts (l : ℕ) (b : BacklogSlot) (t : U32) (x : Connection) (f : U32) (a : Option ConnArgs)
    (hx : x.live = true ∧ x.active = false)
    (hb : b ∈ (s.listener l).backlog.slots ∨ Brings cfg s e l b)
    (hy : (s'.mem c).session = { (x.acceptSyn cfg (s.listener l).port b t).session with
      flowId := f
      installed := a })
    (ha : s'.tables.Registered c → a = some ({ x.acceptSyn cfg (s.listener l).port b t with
      ccRate := cfg.ccRate }.args cfg 2))
    (hfrom : (s.mem c).live = true →
      (s.mem c).status = .synWait ∨ (s.mem c).status = .regSynack)
  | establishes (p : TcpPacket) (len : U16) (core : U32) (fg : U16) (room : Bool) (t f : U32)
    (he : e = .packet p len core fg room) (hc : connLookup cfg s p = some c)
    (hip : p.ipDst = cfg.ip) (hx : (s.mem c).status = .synSent)
    (hflags : p.flags &&& (tcpSyn ||| tcpAck) = tcpSyn ||| tcpAck)
    (hy : (s'.mem c).session = { ((s.mem c).synAcked p t).session with
      status := .opened
      toArmed := false
      flowId := f
      installed := some ((s.mem c).synAckedArgs cfg p t core fg) })
  | addressed (mac : U64)
    (hx : (s.mem c).status = .arpPending ∨ (s.mem c).status = .regSynack)
    (hreg : s.tables.Registered c)
    (hy : (s'.mem c).session = { (s.mem c).session with remoteMac := mac })
  | answers (hx : (s.mem c).status = .regSynack) (hreg : s.tables.Registered c)
    (hy : (s'.mem c).session = { (s.mem c).session with status := .opened })
    (hsent : s'.sent = (s.mem c).synAck (s.mem c).synTs :: s.sent)
  | closes (hlive : (s.mem c).live = true) (hx : (s.mem c).status = .opened)
    (hy : (s'.mem c).status = .closed)

/-- What may be sent in a step. -/
inductive SentStep (cfg : SlowCfg) (s : SlowPath) (e : SlowEvent) (s' : SlowPath) : Prop
  | none (h : s'.sent = s.sent)
  | plain (m : Control) (h : s'.sent = m :: s.sent) (hm : m.flags &&& tcpSyn = 0)
  | syn (c : ℕ) (h : s'.sent = (s'.mem c).syn :: s.sent) (hlive : (s'.mem c).live = true)
    (hstatus : (s'.mem c).status = .synSent) (hip : (s'.mem c).outLocalIp = cfg.ip)
  | synAck (c : ℕ) (h : s'.sent = (s.mem c).synAck (s.mem c).synTs :: s.sent)
    (hstatus : (s.mem c).status = .regSynack) (hreg : s.tables.Registered c)
  | again (p : TcpPacket) (len : U16) (core : U32) (fg : U16) (room : Bool) (c : ℕ) (t : U32)
    (he : e = .packet p len core fg room) (hc : connLookup cfg s p = some c)
    (hip : p.ipDst = cfg.ip) (hsyn : p.flags = tcpSyn)
    (h : s'.sent = (s.mem c).synAck t :: s.sent)

/-- The SYNs in backlogs after a step. -/
def BacklogStep (cfg : SlowCfg) (s : SlowPath) (e : SlowEvent) (s' : SlowPath) : Prop :=
  ∀ l, ∀ b ∈ (s'.listener l).backlog.slots, (s'.listener l).port = (s.listener l).port ∧
    (b ∈ (s.listener l).backlog.slots ∨ Brings cfg s e l b)

structure StepView (cfg : SlowCfg) (s : SlowPath) (e : SlowEvent) (s' : SlowPath) : Prop where
  conn : ∀ c, ConnStep cfg s e s' c
  sent : SentStep cfg s e s'
  backlog : BacklogStep cfg s e s'

/-! ### Connections and their flows -/

/-- The states of a connection that may have a flow id. -/
def ConnState.holds : ConnState → Bool
  | .regSynack | .opened | .closed | .failed => true
  | _ => false

/-- The connection has got its flow id. -/
def HasFlow (t : ConnTables) (c : ℕ) (x : Connection) : Prop :=
  x.status = .opened ∨ x.status = .closed ∨ (x.status = .regSynack ∧ t.Registered c)

/-- The 4-tuple for which `listener_accept` adds a connection. -/
def acceptKey (cfg : SlowCfg) (s : SlowPath) (l : ℕ) (b : BacklogSlot) : FlowKey :=
  ⟨cfg.ip, (s.listener l).port, b.pkt.ipSrc, b.pkt.portSrc⟩

/-- The 4-tuples for which an event may call `nicif_connection_add`. -/
inductive Adds (cfg : SlowCfg) (s : SlowPath) : SlowEvent → FlowKey → Prop
  | synAck {p : TcpPacket} {len : U16} {core : U32} {fg : U16} {room : Bool} {c : ℕ}
    (hlookup : connLookup cfg s p = some c) (hstatus : (s.mem c).status = .synSent) :
    Adds cfg s (.packet p len core fg room) (s.mem c).key
  | request {a : AcceptArgs} {l c : ℕ} {b : ConnBufs} {slot : BacklogSlot} {bs : List BacklogSlot}
    (hb : (s.listener l).backlog.slots = slot :: bs) :
    Adds cfg s (.accept a l c b) (acceptKey cfg s l slot)
  | syn {p : TcpPacket} {len : U16} {core : U32} {fg : U16} {room : Bool} {l : ℕ}
    {slot : BacklogSlot} {bs : List BacklogSlot} (hc : connLookup cfg s p = none)
    (hl : s.listenerLookup p = some l) (hw : (s.listener l).waitConns ≠ [])
    (hb : ((s.listener l).backlog.push p core fg).slots = slot :: bs) :
    Adds cfg s (.packet p len core fg room) (acceptKey cfg s l slot)

/-- The connection has no flow yet, unless `listener_accept` gives it one again. -/
def Flowless (cfg : SlowCfg) (s : SlowPath) (e : SlowEvent) (c : ℕ) : Prop :=
  (s.mem c).live = false ∨ (s.mem c).status.holds = false ∨ Accepts cfg s e c

/-- What becomes of a connection that is not given a flow and does not give one up. -/
inductive FlowKeeps (cfg : SlowCfg) (s : SlowPath) (e : SlowEvent) (s' : SlowPath) (c : ℕ) : Prop
  | same (hlive : (s'.mem c).live = (s.mem c).live) (hid : (s'.mem c).flowId = (s.mem c).flowId)
    (hstatus : (s'.mem c).status = (s.mem c).status)
    (hreg : s'.tables.Registered c → s.tables.Registered c)
  | none (hx : Flowless cfg s e c)
    (hy : (s'.mem c).live = true → ¬ HasFlow s'.tables c (s'.mem c))
  | answers (hlive : (s'.mem c).live = (s.mem c).live)
    (hid : (s'.mem c).flowId = (s.mem c).flowId) (hx : (s.mem c).status = .regSynack)
    (hreg : s.tables.Registered c) (hy : (s'.mem c).status = .opened)
  | fails (room : Bool) (hlive : (s'.mem c).live = ((s.mem c).live && !room))
    (hid : (s'.mem c).flowId = (s.mem c).flowId) (hy : (s'.mem c).status = .failed)
    (hroom : room = true → ∃ r, ConnFails cfg s e c r)

/-- No flow is added, unless to a table that has no room for it. -/
def KeepsFlows (cfg : SlowCfg) (s : SlowPath) (e : SlowEvent) (τ : FlowTable) : Prop :=
  τ = s.nic ∨ ∃ a, Adds cfg s e a.key ∧ nicifConnectionAdd cfg.flowHash s.nic a = (τ, .failed)

/-- What a step does to flows, with the connection it is for. -/
inductive FlowStep (cfg : SlowCfg) (s : SlowPath) (e : SlowEvent) (s' : SlowPath) : Prop
  | stay (hnic : KeepsFlows cfg s e s'.nic) (howner : s'.owner = s.owner)
    (hkeep : ∀ d, FlowKeeps cfg s e s' d)
  | take (c : ℕ) (f : U32) (a : ConnArgs) (ha : Adds cfg s e a.key)
    (hadd : nicifConnectionAdd cfg.flowHash s.nic a = (s'.nic, .ok f))
    (howner : s'.owner = update s.owner f (some c)) (hx : Flowless cfg s e c)
    (hbufs : a.rxBase = (s'.mem c).bufs.rxBase) (hlive : (s'.mem c).live = true)
    (hid : (s'.mem c).flowId = f)
    (hy : (s'.mem c).status = .regSynack ∨ (s'.mem c).status = .opened)
    (hkeep : ∀ d, d ≠ c → FlowKeeps cfg s e s' d)
  | disable (c : ℕ) (hlive : (s.mem c).live = true) (hx : (s.mem c).status = .opened)
    (hnic : s'.nic = (nicifConnectionDisable cfg.flowHash s.nic (s.mem c).flowId).1)
    (howner : s'.owner = s.owner) (hlive' : (s'.mem c).live = true)
    (hid : (s'.mem c).flowId = (s.mem c).flowId) (hy : (s'.mem c).status = .closed)
    (hkeep : ∀ d, d ≠ c → FlowKeeps cfg s e s' d)
  | give (c : ℕ) (hlive : (s.mem c).live = true) (hx : (s.mem c).status = .closed)
    (hnic : s'.nic = nicifConnectionFree s.nic (s.mem c).flowId)
    (howner : s'.owner = update s.owner (s.mem c).flowId none) (hy : (s'.mem c).live = false)
    (hkeep : ∀ d, d ≠ c → FlowKeeps cfg s e s' d)

/-- The buffers that come with an event. -/
def SlowEvent.newBufs : SlowEvent → Option ConnBufs
  | .open _ _ b _ => some b
  | .accept _ _ _ b => some b
  | _ => none

/-- Connections keep their buffers. -/
def KeepsBufs (e : SlowEvent) (s s' : SlowPath) : Prop :=
  ∀ d, (s'.mem d).live = true →
    ((s.mem d).live = true ∧ (s'.mem d).bufs = (s.mem d).bufs) ∨ e.newBufs = some (s'.mem d).bufs

/-- What a step does, with the flows and buffers of connections. -/
structure SlowEffect (cfg : SlowCfg) (s : SlowPath) (e : SlowEvent) (s' : SlowPath) : Prop
    extends StepView cfg s e s' where
  flow : (∀ f fs, e ≠ .fast f fs) → FlowStep cfg s e s'
  bufs : KeepsBufs e s s'

theorem not_hasFlow {t : ConnTables} {x : Connection} (h : x.status.holds = false) :
    ¬ HasFlow t c x := by
  rintro (hx | hx | ⟨hx, -⟩) <;> simp [hx, ConnState.holds] at h

theorem flowKeeps_of_session (h : (s'.mem c).session = (s.mem c).session)
    (hreg : s'.tables.Registered c → s.tables.Registered c) : FlowKeeps cfg s e s' c :=
  .same (congrArg Session.live h) (congrArg Session.flowId h) (congrArg Session.status h) hreg

theorem FlowStep.of_stay (hnic : KeepsFlows cfg s e s'.nic) (howner : s'.owner = s.owner)
    (hself : FlowKeeps cfg s e s' c) (hkeep : ∀ d, d ≠ c → FlowKeeps cfg s e s' d) :
    FlowStep cfg s e s' := by
  refine .stay hnic howner fun d => ?_
  by_cases hd : d = c
  · subst hd
    exact hself
  · exact hkeep d hd

/-! ### One connection at a time -/

/-- `tcp_open` enters at most the new connection. -/
theorem registered_openAt (h : (openAt cfg s o c b route q).tables.Registered d) (hd : d ≠ c) :
    s.tables.Registered d := by
  obtain ⟨k, hk⟩ := h
  cases route with
  | failed => exact ⟨k, hk⟩
  | done | pending =>
    change d ∈ update s.table _ (c :: s.table _) k at hk
    exact ⟨k, (mem_update_cons.1 hk).resolve_left fun he => hd he.1⟩

theorem registered_of_table (ht : s'.table = s.table) (h : s'.tables.Registered d) :
    s.tables.Registered d := by
  obtain ⟨k, hk⟩ := h
  change d ∈ s'.table k at hk
  rw [ht] at hk
  exact ⟨k, hk⟩

theorem backlogStep_of_eq (h : s'.listener = s.listener) : BacklogStep cfg s e s' := by
  intro l b hb
  rw [h] at hb ⊢
  exact ⟨rfl, .inl hb⟩

/-- Connections other than `c` are as they were. -/
theorem SlowEffect.only (hother : ∀ d, d ≠ c → (s'.mem d).session = (s.mem d).session)
    (hreg : ∀ d, d ≠ c → s'.tables.Registered d → s.tables.Registered d)
    (hself : ConnStep cfg s e s' c) (hsent : SentStep cfg s e s') (hback : BacklogStep cfg s e s')
    (hflow : (∀ d, d ≠ c → FlowKeeps cfg s e s' d) → FlowStep cfg s e s')
    (hbufs : (s'.mem c).live = true → ((s.mem c).live = true ∧ (s'.mem c).bufs = (s.mem c).bufs) ∨
      e.newBufs = some (s'.mem c).bufs) : SlowEffect cfg s e s' := by
  refine ⟨⟨fun d => ?_, hsent, hback⟩, fun _ => hflow fun d hd =>
    flowKeeps_of_session (hother d hd) (hreg d hd), fun d hd => ?_⟩
  · by_cases hdc : d = c
    · rw [hdc]
      exact hself
    · exact .keep (hother d hdc) (hreg d hdc)
  · by_cases hdc : d = c
    · subst hdc
      exact hbufs hd
    · exact .inl ⟨(congrArg Session.live (hother d hdc)).symm.trans hd,
        congrArg Session.bufs (hother d hdc)⟩

/-- A step that does nothing to connections and their flows. -/
theorem slowEffect_frame (hmem : s'.mem = s.mem) (htable : s'.table = s.table)
    (hnic : s'.nic = s.nic) (howner : s'.owner = s.owner) (hsent : SentStep cfg s e s')
    (hback : BacklogStep cfg s e s') : SlowEffect cfg s e s' := by
  have hsame : ∀ d, (s'.mem d).session = (s.mem d).session := fun d => by rw [hmem]
  refine .only (c := 0) (fun d _ => hsame d) (fun _ _ => registered_of_table htable)
    (.keep (hsame 0) (registered_of_table htable)) hsent hback (fun _ => ?_) fun hl => .inl ?_
  · exact .stay (.inl hnic) howner fun d =>
      flowKeeps_of_session (hsame d) (registered_of_table htable)
  · exact ⟨(congrArg Session.live (hsame 0)).symm.trans hl, congrArg Session.bufs (hsame 0)⟩

/-- The same if backlogs are as they were, too. -/
theorem slowEffect_of_sent (hmem : s'.mem = s.mem) (htable : s'.table = s.table)
    (hnic : s'.nic = s.nic) (howner : s'.owner = s.owner) (hlistener : s'.listener = s.listener)
    (hsent : SentStep cfg s e s') : SlowEffect cfg s e s' :=
  slowEffect_frame hmem htable hnic howner hsent (backlogStep_of_eq hlistener)

theorem SlowEffect.refl : SlowEffect cfg s e s := slowEffect_of_sent rfl rfl rfl rfl rfl (.none rfl)

/-- One connection is assigned, and its flow is as it was. -/
theorem slowEffect_setConn {z : Connection} (hmem : s'.mem = update s.mem c z)
    (htable : s'.table = s.table) (hnic : s'.nic = s.nic) (howner : s'.owner = s.owner)
    (hlistener : s'.listener = s.listener)
    (hlive : (s.mem c).live = true) (hbufs : z.bufs = (s.mem c).bufs)
    (hself : s'.mem c = z → ConnStep cfg s e s' c ∧ FlowKeeps cfg s e s' c ∧ SentStep cfg s e s') :
    SlowEffect cfg s e s' := by
  have hz : s'.mem c = z := by rw [hmem, update_self]
  obtain ⟨hconn, hflow, hsent⟩ := hself hz
  refine .only (c := c) (fun d hd => by rw [hmem, update_of_ne hd])
    (fun _ _ => registered_of_table htable) hconn hsent (backlogStep_of_eq hlistener)
    (.of_stay (.inl hnic) howner hflow) fun _ => .inl ⟨hlive, ?_⟩
  rw [hz, hbufs]

theorem noSyn_reset : (tcpRst ||| tcpAck) &&& tcpSyn = 0 := by decide

theorem noSyn_ack : tcpAck &&& tcpSyn = 0 := by decide

theorem noSyn_rst : tcpRst &&& tcpSyn = 0 := by decide

/-- A connection fails, after changes that concern it alone. -/
theorem slowEffect_connFailed (hi : s.Ok cfg) (hother : ∀ d, d ≠ c → s₁.mem d = s.mem d)
    (hsame : (s₁.mem c).live = (s.mem c).live ∧ (s₁.mem c).flowId = (s.mem c).flowId ∧
      (s₁.mem c).bufs = (s.mem c).bufs) (htable : s₁.table = s.table)
    (hlistener : s₁.listener = s.listener) (hsent : s₁.sent = s.sent) (howner : s₁.owner = s.owner)
    (hnic : KeepsFlows cfg s e s₁.nic) (hroom : room = true → ∃ r, ConnFails cfg s e c r)
    (hs : connFailed cfg s₁ c room = .ok s') : SlowEffect cfg s e s' := by
  obtain ⟨hnic', howner', -, -, hmem, hself, hreg⟩ := connFailed_fields hs
  obtain ⟨s₂, hu, rfl⟩ := connFailed_ok hs
  obtain ⟨hin, rfl⟩ := connUnregister_ok hu
  have hlive : (s.mem c).live = true := ((hi.placed c).reg ⟨_, htable ▸ hin⟩).live
  refine .only (c := c) (fun d hd => ?_) (fun d _ hr => ?_) (.failed hlive ?_) (.none hsent)
    (backlogStep_of_eq hlistener)
    (.of_stay ?_ (howner'.trans howner) (.fails room ?_ ?_ ?_ hroom)) fun _ => .inl ⟨hlive, ?_⟩
  · rw [hmem d hd, hother d hd]
  · exact registered_of_table htable (hreg d hr)
  · rw [hself]
  · rw [hnic']
    exact hnic
  · rw [hself, ← hsame.1]
  · rw [hself]
    exact hsame.2.1
  · rw [hself]
  · rw [hself]
    exact hsame.2.2

/-! ### Requests -/

theorem slowEffect_tcpOpen (hc : s.fresh c)
    (hs : tcpOpen cfg s o c b route = .ok s') : SlowEffect cfg s (.open o c b route) s' := by
  obtain ⟨q, -, rfl⟩ := tcpOpen_ok hs
  set x := (connAlloc cfg b true).openTo cfg o.ctx o.appOpaque o.remoteIp o.remotePort o.dbId q
    with hx
  set s₁ := openAt cfg { s with portEphHint := portNext q } o c b route q with hs₁
  have hsame : s₁.nic = s.nic ∧ s₁.owner = s.owner ∧ s₁.listener = s.listener := by
    cases route <;> exact ⟨rfl, rfl, rfl⟩
  have hmem : ∀ d, d ≠ c → s₁.mem d = s.mem d := by
    intro d hd
    cases route with
    | failed | pending => exact mem_setConn_of_ne hd
    | done mac => exact (mem_setConn_of_ne hd).trans (mem_setConn_of_ne hd)
  have hself : s₁.mem c = match route with
      | .failed => { x with live := false }
      | .done mac => { x with remoteMac := mac }.arpDone cfg
      | .pending => x := by
    cases route <;> exact mem_setConn_self
  refine .only (c := c) (fun d hd => by rw [hmem d hd]) (fun d hd hr => ?_) ?_ ?_
    (backlogStep_of_eq hsame.2.2)
    (.of_stay (.inl hsame.1) hsame.2.1 (.none (.inl hc.2) fun _ => not_hasFlow ?_)) fun _ => .inr ?_
  · exact registered_openAt (s := { s with portEphHint := portNext q }) hr hd
  · cases route with
    | failed => exact .dead (by rw [hself])
    | done mac => refine .opens hc.2 (.inr ?_) ?_ ?_ fun _ => ?_ <;> rw [hself] <;> rfl
    | pending =>
      refine .opens hc.2 (.inl ?_) ?_ ?_ fun hsyn => ?_
      · rw [hself]
        rfl
      · rw [hself]
        rfl
      · rw [hself]
        rfl
      · rw [hself] at hsyn
        cases hsyn
  · cases route with
    | failed => exact .none rfl
    | done mac =>
      refine .syn c ?_ ?_ ?_ ?_ <;> rw [hself] <;> rfl
    | pending => exact .none rfl
  all_goals cases route <;> rw [hself] <;> rfl

theorem slowEffect_tcpListen {ctx : ℕ} {op : U64} {reuse : Bool} :
    SlowEffect cfg s e (s.tcpListen ctx op q reuse l) := by
  have hnew : ∀ entry, BacklogStep cfg s e
      ((s.setListener l (newListener ctx op q (s.listener l).backlog.slot)).setPort q entry) := by
    intro entry
    refine (forall_update_iff s.listener fun l' y => ∀ b ∈ y.backlog.slots,
      y.port = (s.listener l').port ∧ (b ∈ (s.listener l').backlog.slots ∨ Brings cfg s e l' b)).2
      ⟨fun _ hb => (nomatch hb), fun _ _ _ hb => ⟨rfl, .inl hb⟩⟩
  unfold tcpListen
  dsimp only
  split
  · exact slowEffect_frame rfl rfl rfl rfl (.none rfl) (hnew _)
  · exact slowEffect_frame rfl rfl rfl rfl (.none rfl) (hnew _)
  · split_ifs
    · exact .refl
    · exact slowEffect_frame rfl rfl rfl rfl (.none rfl) (hnew _)
  · exact .refl

/-! ### Accepting -/

/-- Listeners keep their ports, and backlogs get no slot. -/
def Drains (s s' : SlowPath) : Prop := ∀ l, (s'.listener l).port = (s.listener l).port ∧
  (s'.listener l).backlog.slots ⊆ (s.listener l).backlog.slots

theorem BacklogStep.drains (h : BacklogStep cfg s e s₁) (hd : Drains s₁ s') :
    BacklogStep cfg s e s' := by
  intro l b hb
  obtain ⟨hport, hsub⟩ := hd l
  rw [hport]
  exact h l b (hsub hb)

theorem drains_setListener {y : Listener} (hl : s'.listener = update s.listener l y)
    (hport : y.port = (s.listener l).port) (hsub : y.backlog.slots ⊆ (s.listener l).backlog.slots) :
    Drains s s' := by
  unfold Drains
  rw [hl]
  exact (forall_update_iff s.listener fun l y => y.port = (s.listener l).port ∧
    y.backlog.slots ⊆ (s.listener l).backlog.slots).2
      ⟨⟨hport, hsub⟩, fun _ _ => ⟨rfl, List.Subset.refl _⟩⟩

theorem drains_popBacklog : Drains s (s.popBacklog l) :=
  drains_setListener rfl rfl (Backlog.slots_pop ▸ tail_subset _)

theorem nicAdd_frame {ls : U32} (h : nicAdd cfg s c ls = .ok (s', ok)) :
    s'.sent = s.sent ∧ s'.listener = s.listener ∧ s'.table = s.table := by
  rcases nicAdd_cases h with ⟨-, τ, -, rfl⟩ | ⟨-, τ, f, -, rfl⟩ <;> exact ⟨rfl, rfl, rfl⟩

/-- A SYN is taken after changes that leave flows alone: the first slot of the backlog is gone, and
at most the first connection that waits has taken it. -/
theorem slowEffect_listenerAccept {s₀ : SlowPath} (hi : s.Ok cfg) (hpush : SlowEffect cfg s₀ e s)
    (hsent : s.sent = s₀.sent) (hnic : s.nic = s₀.nic) (howner : s.owner = s₀.owner)
    (hfirst : ∀ d ws b bs, (s.listener l).waitConns = d :: ws →
      (s.listener l).backlog.slots = b :: bs →
        Flowless cfg s₀ e d ∧ Adds cfg s₀ e (acceptKey cfg s l b))
    (hrest : ∀ {s₂ : SlowPath} d, (s₂.mem d).session = (s.mem d).session →
      (s₂.tables.Registered d → s.tables.Registered d) →
      ConnStep cfg s₀ e s₂ d ∧ FlowKeeps cfg s₀ e s₂ d)
    (hfrom : ∀ d, (s₀.mem d).live = true → s.mem d = s₀.mem d)
    (hs : listenerAccept cfg s l = .ok s') : SlowEffect cfg s₀ e s' := by
  obtain ⟨c, ws, b, bs, hw, hb, rfl | ⟨t, -, hslot⟩⟩ := listenerAccept_cases hs
  · have hsame : ∀ d, ConnStep cfg s₀ e (s.popBacklog l) d ∧
        FlowKeeps cfg s₀ e (s.popBacklog l) d := fun d => hrest d rfl fun hr => hr
    exact ⟨⟨fun d => (hsame d).1, .none hsent, hpush.backlog.drains drains_popBacklog⟩,
      fun _ => .stay (.inl hnic) howner fun d => (hsame d).2, hpush.bufs⟩
  obtain ⟨s₁, ok, hadd, rfl⟩ := acceptSlot_cases hslot
  obtain ⟨hless, hadds⟩ := hfirst c ws b bs hw hb
  have hok := (hi.placed c).wait l (waits_of_head hw)
  obtain ⟨hport, hb⟩ := hpush.backlog l b (hb ▸ mem_cons_self)
  obtain ⟨hsent₁, hlisten, htable⟩ := nicAdd_frame hadd
  have hlisten : s₁.listener = s.listener := hlisten
  have htable : s₁.table = s.table := htable
  have hother : ∀ d, d ≠ c → s₁.mem d = s.mem d := fun d hd =>
    (nicAdd_mem hadd).1.other d hd |>.trans
      ((mem_setConn_of_ne hd).trans (mem_setConn_of_ne hd))
  obtain ⟨-, f', a, hself⟩ := nicAdd_mem hadd
  rw [mem_acceptInit] at hself
  have hstatus : (s₁.mem c).status = .regSynack := congrArg Connection.status hself
  have hlive : (s₁.mem c).live = true := (congrArg Connection.live hself).trans hok.live
  have hbufs : KeepsBufs e s₀ s₁ := by
    intro d hd
    by_cases hdc : d = c
    · subst hdc
      rw [hself]
      exact hpush.bufs d hok.live
    · rw [hother d hdc] at hd ⊢
      exact hpush.bufs d hd
  have hfrom : (s₀.mem c).live = true →
      (s₀.mem c).status = .synWait ∨ (s₀.mem c).status = .regSynack := fun hl =>
    hfrom c hl ▸ hok.status
  have hadds : Adds cfg s₀ e (((acceptInit cfg s l c b t).mem c).args cfg
      (((acceptInit cfg s l c b t).mem c).localSeq + 1)).key := by
    rw [mem_acceptInit]
    exact hadds
  have hback : BacklogStep cfg s₀ e s₁ := by
    unfold BacklogStep
    rw [hlisten]
    exact hpush.backlog
  -- Whether there is an entry for the flow or not, the connection has taken the SYN.
  have htaken : ∀ {r : SlowPath}, r.mem = s₁.mem → r.sent = s₁.sent → Drains s₁ r →
      (∀ d, d ≠ c → r.tables.Registered d → s.tables.Registered d) →
      (r.tables.Registered c → a = some ({ (s.mem c).acceptSyn cfg (s.listener l).port b t with
        ccRate := cfg.ccRate }.args cfg 2)) →
      ((∀ d, d ≠ c → FlowKeeps cfg s₀ e r d) → FlowStep cfg s₀ e r) →
      SlowEffect cfg s₀ e r := by
    intro r hmem hsent₂ hdrains hreg hinst hflow
    have hsame : ∀ d, d ≠ c → ConnStep cfg s₀ e r d ∧ FlowKeeps cfg s₀ e r d := fun d hd =>
      hrest d (by rw [hmem, hother d hd]) (hreg d hd)
    refine ⟨⟨fun d => ?_, .none (hsent₂.trans (hsent₁.trans hsent)), hback.drains hdrains⟩,
      fun _ => hflow fun d hd => (hsame d hd).2, ?_⟩
    · by_cases hd : d = c
      · subst hd
        have hy := congrArg Connection.session ((congrFun hmem d).trans hself)
        rw [hport] at hy hinst
        exact .accepts l b t _ f' a ⟨hok.live, hok.passive⟩ hb hy hinst hfrom
      · exact (hsame d hd).1
    · unfold KeepsBufs
      rw [hmem]
      exact hbufs
  rcases nicAdd_cases hadd with ⟨rfl, τ, hτ, hs₁⟩ | ⟨rfl, τ, f, hτ, hs₁⟩
  · -- There is no entry for the flow: the connection waits on, with what it took from the SYN.
    have hreg : ∀ d, s₁.tables.Registered d → s.tables.Registered d := fun d =>
      registered_of_table htable
    have hnot : ¬ s₁.tables.Registered c := fun hr => hok.notReg (hreg c hr)
    refine htaken (r := s₁.popBacklog l) rfl rfl drains_popBacklog (fun d _ => hreg d)
      (fun hr => (hnot hr).elim)
      (.of_stay (c := c) (.inr ⟨_, hadds, ?_⟩) ?_ (.none hless fun _ => ?_))
    · rw [← hnic, hs₁]
      exact hτ
    · rw [← howner, hs₁]
      rfl
    · rintro (hx | hx | ⟨-, hr⟩)
      · exact nomatch hstatus.symm.trans hx
      · exact nomatch hstatus.symm.trans hx
      · exact hnot hr
  · have hflow : s₁.mem c = _ := (congrArg (fun z => SlowPath.mem z c) hs₁).trans
      mem_setConn_self
    rw [mem_acceptInit] at hflow
    refine htaken (r := acceptDone cfg s₁ l c) rfl rfl
      (drains_setListener listener_acceptDone rfl
        (Backlog.slots_pop ▸ tail_subset _)) (fun d hd ⟨k, hk⟩ => ?_)
      (fun _ => congrArg Connection.installed (hself.symm.trans hflow))
      (.take c f _ hadds ?_ ?_ hless ?_ hlive (congrArg Connection.flowId hflow) (.inl hstatus))
    · exact registered_of_table htable (registered_connRegister (s := s₁.popWait l) ⟨k, hk⟩ hd)
    · rw [← hnic, hs₁]
      exact hτ
    · rw [← howner, hs₁]
      rfl
    · rw [mem_acceptInit]
      exact (congrArg (fun x => x.bufs.rxBase) hself).symm

theorem slowEffect_tcpAccept {a : AcceptArgs} (hi : s.Ok cfg)
    (hl : (s.listener l).live = true) (hc : s.fresh c) (hs : tcpAccept cfg s a l c b = .ok s') :
    SlowEffect cfg s (.accept a l c b) s' := by
  have hself : (enqueueAccept cfg s a l c b).mem c = waitConn cfg a b (s.listener l).port :=
    mem_setConn_self
  have hother : ∀ d, d ≠ c → (enqueueAccept cfg s a l c b).mem d = s.mem d := fun d hd =>
    mem_setConn_of_ne hd
  have hlist : (enqueueAccept cfg s a l c b).listener l = { s.listener l with
      waitConns := (s.listener l).waitConns ++ [c] } := update_self ..
  -- A connection that is not accepted in this step is new, or as it was.
  have hrest : ∀ {s₂ : SlowPath} d,
      (s₂.mem d).session = ((enqueueAccept cfg s a l c b).mem d).session →
      (s₂.tables.Registered d → s.tables.Registered d) →
      ConnStep cfg s (.accept a l c b) s₂ d ∧ FlowKeeps cfg s (.accept a l c b) s₂ d := by
    intro s₂ d hy hreg
    by_cases hd : d = c
    · subst hd
      rw [hself] at hy
      have hstatus : (s₂.mem d).status = .synWait := congrArg Session.status hy
      exact ⟨.waits hc.2 hstatus, .none (.inl hc.2) fun _ => not_hasFlow (by rw [hstatus]; rfl)⟩
    · rw [hother d hd] at hy
      exact ⟨.keep hy hreg, flowKeeps_of_session hy hreg⟩
  have hback : BacklogStep cfg s (.accept a l c b) (enqueueAccept cfg s a l c b) :=
    (backlogStep_of_eq rfl).drains (drains_setListener (l := l) rfl rfl (List.Subset.refl _))
  have hpush : SlowEffect cfg s (.accept a l c b) (enqueueAccept cfg s a l c b) :=
    .only (c := c) (fun d hd => by rw [hother d hd]) (fun d _ hr => hr) (hrest c rfl fun hr => hr).1
      (.none rfl) hback (.of_stay (.inl rfl) rfl (hrest c rfl fun hr => hr).2)
      fun _ => .inr (by rw [hself]; rfl)
  rcases tcpAccept_cases hs with rfl | hs
  · exact hpush
  refine slowEffect_listenerAccept (slowInv_enqueueAccept a b hi hl hc) hpush rfl rfl rfl
    (fun d ws slot bs hw hb => ⟨?_, ?_⟩) hrest (fun d hlive => hother d ?_) hs
  · rcases accept_head hs hw with rfl | hd
    · exact .inl hc.2
    · exact .inr (.inr hd)
  · rw [hlist] at hb
    unfold acceptKey
    rw [hlist]
    exact .request hb
  · rintro rfl
    exact nomatch hc.2.symm.trans hlive

/-! ### Packets -/

theorem tcpPacket_ip (h : tcpPacket cfg s p len core fg room = .ok s') :
    s' = s ∨ p.ipDst = cfg.ip := by
  unfold tcpPacket at h
  split at h
  · exact .inl (Except.ok.inj h).symm
  split at h
  · exact .inl (Except.ok.inj h).symm
  · rename_i hip
    exact .inr (not_not.1 hip)

theorem slowEffect_listenerPacket (hi : s.Ok cfg) (hip : p.ipDst = cfg.ip)
    (hc : connLookup cfg s p = none) (hl : s.listenerLookup p = some l)
    (hs : listenerPacket cfg s l p ts core fg = .ok s') :
    SlowEffect cfg s (.packet p len core fg room) s' := by
  rcases listenerPacket_cases hs with rfl | rfl | ⟨hsyn, hadmits, hs⟩
  · exact .refl
  · exact slowEffect_of_sent rfl rfl rfl rfl rfl (.plain _ rfl noSyn_reset)
  have hslots : ((s.listener l).backlog.push p core fg).slots =
      (s.listener l).backlog.slots ++ [(s.listener l).backlog.entry p core fg] :=
    Backlog.slots_push (Backlog.admits_iff.1 hadmits).2.2
  have hback : BacklogStep cfg s (.packet p len core fg room) (s.pushBacklog l p core fg) := by
    refine (forall_update_iff s.listener fun l' y => ∀ b' ∈ y.backlog.slots,
      y.port = (s.listener l').port ∧
        (b' ∈ (s.listener l').backlog.slots ∨ Brings cfg s _ l' b')).2
      ⟨fun b' hb' => ⟨rfl, ?_⟩, fun _ _ _ hb' => ⟨rfl, .inl hb'⟩⟩
    rcases mem_append.1 (hslots ▸ hb') with hb' | hb'
    · exact .inl hb'
    · obtain rfl := mem_singleton.1 hb'
      exact .inr ⟨p, len, core, fg, room, rfl, rfl, hip, hl, hc, hsyn⟩
  have hpush : SlowEffect cfg s (.packet p len core fg room) (s.pushBacklog l p core fg) :=
    slowEffect_frame rfl rfl rfl rfl (.none rfl) hback
  rcases hs with rfl | hs
  · exact hpush
  have hlist : (s.pushBacklog l p core fg).listener l = { s.listener l with
      backlog := (s.listener l).backlog.push p core fg } := update_self ..
  have hpushed : (s.pushBacklog l p core fg).Ok cfg := hi.setBacklog
  refine slowEffect_listenerAccept hpushed hpush rfl rfl rfl (fun d ws slot bs hw hslot => ?_)
    (fun d hy hreg => ⟨.keep hy hreg, flowKeeps_of_session hy hreg⟩) (fun d _ => rfl) hs
  rw [hlist] at hw hslot
  have hw : (s.listener l).waitConns = d :: ws := hw
  refine ⟨.inr (.inr (.syn hc hl hw hsyn)), ?_⟩
  unfold acceptKey
  rw [hlist]
  exact .syn hc hl (by rw [hw]; exact cons_ne_nil d ws) hslot

theorem slowEffect_synSent (hi : s.Ok cfg) (hip : p.ipDst = cfg.ip)
    (hparse : parseOptions p len = .ok ts) (hc : connLookup cfg s p = some c)
    (hx : (s.mem c).status = .synSent)
    (hpkt : connSynSentPacket cfg (s.setConn c { s.mem c with fnCore := core, flowGroup := fg })
      c p ts = .ok (s₁, ok)) (hs : (if ok then .ok s₁ else connFailed cfg s₁ c room) = .ok s') :
    SlowEffect cfg s (.packet p len core fg room) s' := by
  set s₀ := (s.setConn c { s.mem c with fnCore := core, flowGroup := fg }).setConn c
    { (s.setConn c { s.mem c with fnCore := core, flowGroup := fg }).mem c with toArmed := false }
    with hs₀
  have hother₀ : ∀ d, d ≠ c → s₀.mem d = s.mem d := fun d hd =>
    (mem_setConn_of_ne hd).trans (mem_setConn_of_ne hd)
  have hself₀ : s₀.mem c = { s.mem c with
      fnCore := core
      flowGroup := fg
      toArmed := false } := by
    rw [hs₀, mem_setConn_self, mem_setConn_self]
  have hfails : ok = false → room = true →
      ∃ r, ConnFails cfg s (.packet p len core fg room) c r := by
    rintro rfl rfl
    rcases synSent_fails hpkt with hbad | ⟨t, rfl, hadd⟩
    · exact ⟨_, .notSynAck hc hx hparse hbad⟩
    · exact ⟨_, .addFailed hc hx hparse hadd⟩
  obtain ⟨-, ⟨-, rfl, rfl⟩ | ⟨hflags, t, rfl, hest⟩⟩ := connSynSentPacket_cases hpkt
  · exact slowEffect_connFailed hi hother₀ (by rw [hself₀]; exact ⟨rfl, rfl, rfl⟩) rfl rfl rfl rfl
      (.inl rfl) (hfails rfl) hs
  obtain ⟨s₂, hadd, rfl⟩ := establish_cases hest
  have hother : ∀ d, d ≠ c → s₂.mem d = s.mem d := fun d hd =>
    ((nicAdd_mem hadd).1.other d hd).trans
      ((mem_setConn_of_ne hd).trans ((mem_setConn_of_ne hd).trans (hother₀ d hd)))
  obtain ⟨hsent, hlisten, htable⟩ := nicAdd_frame hadd
  have hadds : Adds cfg s (.packet p len core fg room)
      ((s.mem c).synAckedArgs cfg p t core fg).key := .synAck hc hx
  rcases nicAdd_cases hadd with ⟨rfl, τ, hτ, hs₂⟩ | ⟨rfl, τ, f, hτ, hs₂⟩
  · have hself : s₂.mem c = _ := congrArg (fun z => SlowPath.mem z c) hs₂
    rw [mem_establishInit, hself₀] at hself
    rw [mem_establishInit, hself₀] at hτ
    exact slowEffect_connFailed hi hother (by rw [hself]; exact ⟨rfl, rfl, rfl⟩) htable hlisten
      hsent (by rw [hs₂]; rfl) (.inr ⟨_, hadds, by rw [hs₂]; exact hτ⟩) (hfails rfl) hs
  · cases hs
    have hself : s₂.mem c = _ := (congrArg (fun z => SlowPath.mem z c) hs₂).trans
      mem_setConn_self
    rw [mem_establishInit, hself₀] at hself hτ
    have hdone : (establishDone s₂ c).mem c = { s₂.mem c with status := .opened } :=
      mem_setConn_self
    rw [hself] at hdone
    have hlive : (s.mem c).live = true := ((hi.placed c).reg ⟨_, (connLookup_some hc).1⟩).live
    have hout : (establishDone s₂ c).sent = ({ s₂.mem c with status := .opened }.sendControl tcpAck
        (some (s₂.mem c).synTs) 0) :: s.sent := congrArg _ hsent
    refine .only (c := c) (fun d hd => ?_) (fun d _ hr => registered_of_table htable hr)
      (.establishes p len core fg room t f rfl hc hip hx hflags (congrArg Connection.session hdone))
      (.plain _ hout noSyn_ack) (backlogStep_of_eq hlisten)
      (.take c f _ hadds ?_ ?_ (.inr (.inl (by rw [hx]; rfl))) ?_ ?_
        (congrArg Connection.flowId hdone) (.inr (congrArg Connection.status hdone)))
      fun _ => .inl ⟨hlive, ?_⟩
    · exact congrArg Connection.session ((mem_setConn_of_ne hd).trans (hother d hd))
    · rw [hs₂]
      exact hτ
    · rw [hs₂]
      rfl
    · exact (congrArg (fun x => x.bufs.rxBase) hdone).symm
    · exact (congrArg Connection.live hdone).trans hlive
    · rw [if_pos rfl, hdone]
      rfl

theorem slowEffect_tcpPacket (hi : s.Ok cfg) (hs : tcpPacket cfg s p len core fg room = .ok s') :
    SlowEffect cfg s (.packet p len core fg room) s' := by
  rcases tcpPacket_ip hs with rfl | hip
  · exact .refl
  obtain rfl | ⟨ts, rfl⟩ | ⟨c, ts, hparse, hc, hs⟩ | ⟨l, ts, -, hc, hl, hs⟩ := tcpPacket_cases hs
  · exact .refl
  · exact slowEffect_of_sent rfl rfl rfl rfl rfl (.plain _ rfl noSyn_reset)
  · obtain ⟨hsyn, s₁, ok, hpkt, hs⟩ | ⟨hopen, hflags, rfl, hfail⟩ | ⟨t, -, hsyn, -, rfl⟩ |
      ⟨-, rfl⟩ | rfl :=
      connPacket_cases hs
    · exact slowEffect_synSent hi hip hparse hc hsyn hpkt hs
    · refine slowEffect_connFailed hi (fun _ _ => rfl) ⟨rfl, rfl, rfl⟩ rfl rfl rfl rfl (.inl rfl)
        (fun hroom => ?_) hfail
      subst hroom
      exact ⟨_, .synNoTs hc hopen hflags hparse⟩
    · exact slowEffect_of_sent rfl rfl rfl rfl rfl
        (.again p len core fg room c t rfl hc hip hsyn rfl)
    · exact slowEffect_of_sent rfl rfl rfl rfl rfl (.plain _ rfl noSyn_ack)
    · exact .refl
  · exact slowEffect_listenerPacket hi hip hc hl hs

/-! ### The queue and timers -/

theorem slowEffect_tcpPoll (hi : s.Ok cfg)
    (hs : tcpPoll cfg s room = .ok s') : SlowEffect cfg s (.poll room) s' := by
  obtain rfl | ⟨c, q, hq, hs⟩ := tcpPoll_cases hs
  · exact .refl
  have hreg : s.tables.Registered c := (hi.dequeue hq).2.2.1
  have hok := (hi.placed c).reg hreg
  obtain ⟨harp, -, -, rfl⟩ | ⟨hsyn, -, rfl⟩ | ⟨hstatus, hcomp, hs⟩ | rfl := hs
  · refine slowEffect_setConn (c := c) rfl rfl rfl rfl rfl hok.live rfl fun hself => ⟨?_, ?_, ?_⟩
    · exact .resolved harp hreg (congrArg Connection.session hself)
    · refine .none (.inr (.inl (by rw [harp]; rfl))) fun _ => not_hasFlow ?_
      rw [hself]
      rfl
    · refine .syn c ?_ ((congrArg Connection.live hself).trans hok.live)
        (congrArg Connection.status hself) ((congrArg Connection.outLocalIp hself).trans hok.ip)
      rw [hself]
      rfl
  · refine slowEffect_setConn (c := c) rfl rfl rfl rfl rfl hok.live rfl fun hself => ⟨?_, ?_, ?_⟩
    · exact .answers hsyn hreg (congrArg Connection.session hself) rfl
    · exact .answers (congrArg Connection.live hself :) (congrArg Connection.flowId hself :) hsyn
        hreg (congrArg Connection.status hself)
    · exact .synAck c rfl hsyn hreg
  · have hother : ∀ d, d ≠ c → { s with asyncQ := q }.mem d = s.mem d := fun _ _ => rfl
    refine slowEffect_connFailed hi hother ⟨rfl, rfl, rfl⟩ rfl rfl rfl rfl (.inl rfl)
      (fun hroom => ?_) hs
    subst hroom
    exact ⟨_, .unresolved hq hcomp hstatus⟩
  · exact slowEffect_of_sent rfl rfl rfl rfl rfl (.none rfl)

theorem slowEffect_resolved {mac : U64} {status : ℤ} (hi : s.Ok cfg)
    (hc : c ∈ s.resolving) : SlowEffect cfg s e (s.resolved c mac status) := by
  obtain ⟨hreg, -, hstatus⟩ := (hi.placed c).queued (mem_append_right _ hc)
  refine slowEffect_setConn (c := c) rfl rfl rfl rfl rfl ((hi.placed c).reg hreg).live rfl
    fun hself => ⟨.addressed mac hstatus hreg (congrArg Connection.session hself), ?_, .none rfl⟩
  refine .same ?_ ?_ ?_ fun hr => hr
  all_goals rw [hself]

theorem slowEffect_tcpClose {fuel : ℕ} (hl : (s.mem c).live = true)
    (hs : tcpClose cfg s fuel c = .ok s') : SlowEffect cfg s e s' := by
  obtain rfl | ⟨ho, s₁, hremove, rfl⟩ := tcpClose_cases hs
  · exact .refl
  obtain ⟨htable, hlisten, hsent, hnic, howner, -⟩ := ccConnRemove_fields hremove
  have hsession : ∀ d, (s₁.mem d).session = ((disableConn cfg s c).mem d).session := by
    intro d
    obtain ⟨n, hn⟩ := ccConnRemove_mem hremove d
    rw [hn]
    rfl
  have hmem := (@disableConn_fields cfg c s).1
  have hdisable : (disableConn cfg s c).table = s.table ∧
      (disableConn cfg s c).listener = s.listener ∧ (disableConn cfg s c).owner = s.owner ∧
      (disableConn cfg s c).nic = (nicifConnectionDisable cfg.flowHash s.nic (s.mem c).flowId).1 ∧
      ((disableConn cfg s c).sent = s.sent ∨
        ∃ m : Control, (disableConn cfg s c).sent = m :: s.sent ∧ m.flags &&& tcpSyn = 0) := by
    unfold disableConn
    dsimp only
    split_ifs
    · exact ⟨rfl, rfl, rfl, rfl, .inl rfl⟩
    · exact ⟨rfl, rfl, rfl, rfl, .inr ⟨_, rfl, noSyn_rst⟩⟩
  obtain ⟨htable', hlisten', howner', hnic', hsent'⟩ := hdisable
  have hself := hsession c
  rw [hmem, mem_setConn_self] at hself
  refine .only (c := c) (fun d hd => ?_) (fun d _ hr => ?_) (.closes hl ho ?_) ?_
    (backlogStep_of_eq (hlisten.trans hlisten'))
    (.disable c hl ho (hnic.trans hnic') (howner.trans howner') ?_ ?_ ?_) fun _ => .inl ⟨hl, ?_⟩
  · rw [mem_setConn_of_ne hd, hsession, hmem, mem_setConn_of_ne hd]
  · exact registered_of_table (htable.trans htable') hr
  · rw [mem_setConn_self]
  · rcases hsent' with hsent' | ⟨m, hsent', hm⟩
    · exact .none (hsent.trans hsent')
    · exact .plain m (hsent.trans hsent') hm
  · rw [mem_setConn_self]
    exact (congrArg Session.live hself).trans hl
  · rw [mem_setConn_self]
    exact congrArg Session.flowId hself
  · rw [mem_setConn_self]
  · rw [mem_setConn_self]
    exact congrArg Session.bufs hself

theorem slowEffect_connCloseTimeout (hl : (s.mem c).live = true)
    (hclosed : (s.mem c).status = .closed)
    (hs : connCloseTimeout cfg (s.setConn c (s.mem c).disarmed) c = .ok s') :
    SlowEffect cfg s e s' := by
  obtain ⟨s₁, hu, rfl⟩ := connCloseTimeout_ok hs
  have hreg := fun d => registered_connUnregister (d := d) hu
  obtain ⟨-, rfl⟩ := connUnregister_ok hu
  have hid : ((s.setConn c (s.mem c).disarmed).mem c).flowId = (s.mem c).flowId := by
    rw [mem_setConn_self]
    rfl
  have hother : ∀ (s₂ : SlowPath) z d, d ≠ c → s₂.mem = (s.setConn c (s.mem c).disarmed).mem →
      ((s₂.setConn c z).mem d).session = (s.mem d).session := by
    intro s₂ z d hd hmem
    rw [mem_setConn_of_ne hd, hmem, mem_setConn_of_ne hd]
  -- Whether the port is given up makes no difference here.
  rcases freePort_cases (s := { s.setConn c (s.mem c).disarmed with table := _ })
    (p := ((s.setConn c (s.mem c).disarmed).mem c).localPort) with he | ⟨-, he⟩
  all_goals
    rw [he]
    refine .only (c := c) (fun d hd => hother _ _ d hd rfl) (fun d _ hr => hreg d hr) (.dead ?_)
      (.none rfl) (backlogStep_of_eq rfl)
      (.give c hl hclosed (congrArg (nicifConnectionFree s.nic) hid)
        (congrArg (fun f => update s.owner f none) hid) ?_) fun hlive => ?_
    · rw [mem_setConn_self]
    · rw [mem_setConn_self]
    · rw [mem_setConn_self] at hlive
      cases hlive

theorem slowEffect_tcpTimeout (hi : s.Ok cfg) (hl : (s.mem c).live = true)
    (hs : tcpTimeout cfg s c room = .ok s') : SlowEffect cfg s (.timeout c room) s' := by
  obtain ⟨harm, ⟨htype, hs⟩ | ⟨-, hsyn, hretry, hs⟩ | ⟨-, hsyn, rfl⟩⟩ := tcpTimeout_cases hs
  · obtain ⟨-, ⟨-, ht⟩ | ⟨hclosed, -⟩⟩ := (hi.placed c).armed hl harm
    · exact nomatch htype.symm.trans ht
    · exact slowEffect_connCloseTimeout hl hclosed hs
  · refine slowEffect_connFailed hi (fun d hd => mem_setConn_of_ne hd)
      (by rw [mem_setConn_self]; exact ⟨rfl, rfl, rfl⟩) rfl rfl rfl rfl (.inl rfl)
      (fun hroom => ?_) hs
    subst hroom
    exact ⟨_, .retries hsyn hretry⟩
  · have hok := (hi.placed c).reg ((hi.placed c).armed hl harm).1
    refine slowEffect_setConn (c := c) rfl rfl rfl rfl rfl hl rfl fun hself => ?_
    have hsame : (((s.setConn c (s.mem c).rearmed).send (s.mem c).rearmed.syn).mem c).session =
        (s.mem c).session := by
      rw [hself]
      unfold Connection.session
      rw [harm]
      rfl
    refine ⟨.keep hsame fun hr => hr, flowKeeps_of_session hsame fun hr => hr, .syn c ?_
      ((congrArg Connection.live hself).trans hl) ((congrArg Connection.status hself).trans hsyn)
      ((congrArg Connection.outLocalIp hself).trans hok.ip)⟩
    rw [hself]
    rfl

/-! ### All steps -/

theorem slowEffect_step (hi : s.Ok cfg) (hs : SlowStep cfg s e s') : SlowEffect cfg s e s' := by
  obtain ⟨hen, hs⟩ := hs
  cases e with
  | «open» o c b route => exact slowEffect_tcpOpen hen hs
  | listen ctx op q reuse l =>
    cases hs
    exact slowEffect_tcpListen
  | accept a l c b => exact slowEffect_tcpAccept hi hen.1 hen.2 hs
  | packet p len core fg room => exact slowEffect_tcpPacket hi hs
  | resolved c mac status =>
    cases hs
    exact slowEffect_resolved hi hen
  | poll room => exact slowEffect_tcpPoll hi hs
  | close fuel c => exact slowEffect_tcpClose hen hs
  | timeout c room => exact slowEffect_tcpTimeout hi hen hs
  | ccPoll n vm =>
    cases hs
    have hpoll : ∃ next, (ccPollVm s n vm).2 = { s with nextConn := next } := by
      unfold ccPollVm
      dsimp only
      split_ifs <;> exact ⟨_, rfl⟩
    obtain ⟨next, hnext⟩ := hpoll
    rw [hnext]
    exact slowEffect_of_sent rfl rfl rfl rfl rfl (.none rfl)
  | fast f fs =>
    cases hs
    exact ⟨⟨fun d => .keep rfl fun hr => hr, .none rfl, backlogStep_of_eq rfl⟩,
      fun he => (he f fs rfl).elim, fun d hd => .inl ⟨hd, rfl⟩⟩

end Tas
