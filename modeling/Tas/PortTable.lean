import Tas.SlowTables

/-! The port table and the connections that were opened from here: an entry for each of them, and
no other. -/
namespace Tas

open Outcome SlowPath Function

/-- The connection was opened from here, still exists, and has local port `p`. -/
def Connection.Owns (x : Connection) (p : U16) : Prop :=
  x.live = true ∧ x.active = true ∧ x.localPort = p

/-- A port is taken for a connection exactly if that connection owns it. -/
def PortsOk (s : SlowPath) : Prop := ∀ p c, s.ports p = .conn c ↔ (s.mem c).Owns p

/-- No connection that was opened from here is destroyed by a failure. -/
def KeepsOpened (cfg : SlowCfg) (s : SlowPath) (e : SlowEvent) : Prop :=
  ∀ c r, ConnFails cfg s e c r → (s.mem c).active = false

variable {cfg : SlowCfg} {c l : ℕ} {e : SlowEvent} {s s' s'' : SlowPath} {x z : Connection}
  {q : U16} {b : ConnBufs}

/-! ### Steps that leave ports alone -/

/-- The entries for connections are as before, and so are the owners of ports. -/
structure KeepsPorts (s s' : SlowPath) : Prop where
  ports : ∀ p c, s'.ports p = .conn c ↔ s.ports p = .conn c
  owns : ∀ p c, (s'.mem c).Owns p ↔ (s.mem c).Owns p

theorem PortsOk.keep (h : PortsOk s) (hk : KeepsPorts s s') : PortsOk s' :=
  fun p c => (hk.ports p c).trans ((h p c).trans (hk.owns p c).symm)

theorem KeepsPorts.refl (s : SlowPath) : KeepsPorts s s := ⟨fun _ _ => Iff.rfl, fun _ _ => Iff.rfl⟩

theorem KeepsPorts.trans (h : KeepsPorts s s') (h' : KeepsPorts s' s'') : KeepsPorts s s'' :=
  ⟨fun p c => (h'.ports p c).trans (h.ports p c), fun p c => (h'.owns p c).trans (h.owns p c)⟩

theorem keepsPorts_of_eq (hports : s'.ports = s.ports) (hmem : s'.mem = s.mem) : KeepsPorts s s' :=
  ⟨fun p c => by rw [hports], fun p c => by rw [hmem]⟩

theorem keepsPorts_setConn (hz : ∀ p, z.Owns p ↔ (s.mem c).Owns p) : KeepsPorts s (s.setConn c z) :=
  ⟨fun _ _ => Iff.rfl, fun p => (forall_update_iff s.mem fun d x => x.Owns p ↔ (s.mem d).Owns p).2
    ⟨hz p, fun _ _ => Iff.rfl⟩⟩

theorem owns_congr (hlive : x.core.live = z.core.live) (hactive : x.core.active = z.core.active)
    (hport : x.core.key.localPort = z.core.key.localPort) (p : U16) : x.Owns p ↔ z.Owns p :=
  and_congr (Eq.congr_left hlive) (and_congr (Eq.congr_left hactive) (Eq.congr_left hport))

theorem owns_of_core (h : x.core = z.core) (p : U16) : x.Owns p ↔ z.Owns p :=
  owns_congr (by rw [h]) (by rw [h]) (by rw [h]) p

theorem keepsPorts_retouch {y : ConnCore} (h : Retouch c s s' y) (hlive : y.live = (s.mem c).live)
    (hactive : y.active = (s.mem c).active) (hport : y.key.localPort = (s.mem c).localPort) :
    KeepsPorts s s' := by
  have hports : s'.ports = s.ports := congrArg ConnTables.ports h.tables
  refine ⟨fun p d => by rw [hports], fun p d => ?_⟩
  by_cases hd : d = c
  · subst hd
    exact owns_congr ((congrArg ConnCore.live h.self).trans hlive)
      ((congrArg ConnCore.active h.self).trans hactive) (h.self ▸ hport) p
  · exact owns_of_core (h.other d hd) p

/-- A connection that owns no port before or after. -/
theorem not_owns_of_passive (h : x.active = false) (p : U16) : ¬ x.Owns p :=
  fun ho => nomatch h.symm.trans ho.2.1

theorem not_owns_of_dead (h : x.live = false) (p : U16) : ¬ x.Owns p :=
  fun ho => nomatch h.symm.trans ho.1

/-! ### Requests -/

/-- A connection that is new takes a port that is not in use. -/
theorem portsOk_take (h : PortsOk s) (hc : s.fresh c)
    (hq : s.ports q = .unused) (hports : s'.ports = update s.ports q (.conn c))
    (hmem : s'.mem = update s.mem c z) (hz : z.Owns q) : PortsOk s' := by
  have hnone : ∀ p, s.ports p ≠ .conn c := fun p hp => not_owns_of_dead hc.2 p ((h p c).1 hp)
  unfold PortsOk
  rw [hports, hmem]
  refine (forall_update_iff s.ports fun p e => ∀ d, e = .conn d ↔ (update s.mem c z d).Owns p).2
    ⟨(forall_update_iff s.mem fun d x => Port.conn c = .conn d ↔ x.Owns q).2
      ⟨iff_of_true rfl hz, fun d hd => ?_⟩,
    fun p hp => (forall_update_iff s.mem fun d x => s.ports p = .conn d ↔ x.Owns p).2
      ⟨?_, fun d _ => h p d⟩⟩
  · refine iff_of_false (fun he => hd (Port.conn.inj he).symm) fun ho => ?_
    exact nomatch hq.symm.trans ((h q d).2 ho)
  · exact iff_of_false (hnone p) fun ho => hp (ho.2.2.symm.trans hz.2.2)

theorem portsOk_tcpOpen {o : OpenArgs} {route : Route} (h : PortsOk s)
    (hc : s.fresh c) (hs : tcpOpen cfg s o c b route = .ok s') : PortsOk s' := by
  obtain ⟨q, hq, rfl⟩ := tcpOpen_ok hs
  cases route with
  | failed =>
    have hhint : KeepsPorts s { s with portEphHint := portNext q } := keepsPorts_of_eq rfl rfl
    refine h.keep (hhint.trans (keepsPorts_setConn (s := { s with portEphHint := portNext q })
      fun p => ?_))
    exact iff_of_false (not_owns_of_dead rfl p) (not_owns_of_dead hc.2 p)
  | done mac => exact portsOk_take h hc hq rfl (update_idem ..) ⟨rfl, rfl, rfl⟩
  | pending => exact portsOk_take h hc hq rfl rfl ⟨rfl, rfl, rfl⟩

theorem keepsPorts_setPort {e : Port} (hold : ∀ c, s.ports q ≠ .conn c)
    (hnew : ∀ c, e ≠ .conn c) : KeepsPorts s (s.setPort q e) :=
  ⟨fun p c => (forall_update_iff s.ports fun p e' => e' = .conn c ↔ s.ports p = .conn c).2
    ⟨iff_of_false (hnew c) (hold c), fun _ _ => Iff.rfl⟩ p, fun _ _ => Iff.rfl⟩

theorem keepsPorts_tcpListen {ctx : ℕ} {op : U64} {reuse : Bool} :
    KeepsPorts s (s.tcpListen ctx op q reuse l) := by
  have hset {y : Listener} : KeepsPorts s (s.setListener l y) := keepsPorts_of_eq rfl rfl
  have hlisten : ∀ {y : Listener} {e : Port}, (∀ c, s.ports q ≠ .conn c) → (∀ c, e ≠ .conn c) →
      KeepsPorts s ((s.setListener l y).setPort q e) :=
    fun hold hnew => hset.trans (keepsPorts_setPort (s := s.setListener l _) hold hnew)
  unfold tcpListen
  dsimp only
  split
  · rename_i hq
    exact hlisten (fun c hc => nomatch hq.symm.trans hc) nofun
  · rename_i hq
    exact hlisten (fun c hc => nomatch hq.symm.trans hc) nofun
  · rename_i ls hq
    split_ifs
    · exact KeepsPorts.refl s
    · exact hlisten (fun c hc => nomatch hq.symm.trans hc) nofun
  · exact KeepsPorts.refl s

/-- The connection that takes a SYN was not opened from here. -/
theorem keepsPorts_listenerAccept (hi : s.Ok cfg)
    (hs : listenerAccept cfg s l = .ok s') : KeepsPorts s s' := by
  obtain ⟨c, ws, b, bs, hw, -, rfl | ⟨t, -, hslot⟩⟩ := listenerAccept_cases hs
  · exact keepsPorts_of_eq rfl rfl
  · obtain ⟨s₁, ok, hadd, rfl⟩ := acceptSlot_cases hslot
    have hok := (hi.placed c).wait l (waits_of_head hw)
    have hport : (s.mem c).localPort = (s.listener l).port := hok.port
    have hkeep := keepsPorts_retouch (slowInv_acceptAdd hi hw hadd).1 rfl rfl hport.symm
    cases ok with
    | false => exact hkeep.trans (keepsPorts_of_eq rfl rfl)
    | true => exact hkeep.trans (keepsPorts_of_eq rfl rfl)

theorem keepsPorts_tcpAccept {a : AcceptArgs} (hi : s.Ok cfg) (hl : (s.listener l).live = true)
    (hc : s.fresh c) (hs : tcpAccept cfg s a l c b = .ok s') : KeepsPorts s s' := by
  have hpush : KeepsPorts s (enqueueAccept cfg s a l c b) := by
    have hset : KeepsPorts s (s.setConn c (waitConn cfg a b (s.listener l).port)) :=
      keepsPorts_setConn fun p =>
        iff_of_false (not_owns_of_passive rfl p) (not_owns_of_dead hc.2 p)
    exact hset.trans (keepsPorts_of_eq rfl rfl)
  rcases tcpAccept_cases hs with rfl | hs
  · exact hpush
  · exact hpush.trans (keepsPorts_listenerAccept (slowInv_enqueueAccept a b hi hl hc) hs)

theorem keepsPorts_listenerPacket {p : TcpPacket} {ts : Option U32} {core : U32} {fg : U16}
    (hi : s.Ok cfg) (hs : listenerPacket cfg s l p ts core fg = .ok s') : KeepsPorts s s' := by
  obtain rfl | rfl | ⟨-, -, rfl | hs⟩ := listenerPacket_cases hs
  · exact KeepsPorts.refl _
  · exact keepsPorts_of_eq rfl rfl
  · exact keepsPorts_of_eq rfl rfl
  · have hpush : KeepsPorts s (s.pushBacklog l p core fg) :=
      keepsPorts_of_eq rfl rfl
    exact hpush.trans (keepsPorts_listenerAccept hi.setBacklog hs)

/-! ### Steps about one connection -/

/-- A connection that fails keeps its port, so it must not have one or must not be destroyed. The
port of one that is freed is given up exactly if the connection owns it. -/
theorem PortsOk.connOnly (h : PortsOk s) (hi : s.Ok cfg) (hfail : KeepsOpened cfg s e)
    (hs : ConnOnly cfg s e s') : PortsOk s' := by
  obtain ⟨c, ha, hfate⟩ := hs
  have hport : (s'.mem c).core.key.localPort = (s.mem c).core.key.localPort :=
    congrArg (·.localPort) ha.key
  have hother : ∀ d, d ≠ c → ∀ p, (s'.mem d).Owns p ↔ (s.mem d).Owns p :=
    fun d hd => owns_of_core (ha.other d hd)
  have hkeep : s'.ports = s.ports → (∀ p, (s'.mem c).Owns p ↔ (s.mem c).Owns p) → PortsOk s' := by
    intro hports hself
    refine h.keep ⟨fun p d => by rw [hports], fun p d => ?_⟩
    by_cases hd : d = c
    · subst hd
      exact hself p
    · exact hother d hd p
  cases hfate with
  | kept hports hlive => exact hkeep hports (owns_congr hlive ha.active hport)
  | failed hports hlive hfails =>
    obtain ⟨r, hr⟩ := hfails
    exact hkeep hports fun p =>
      iff_of_false (not_owns_of_dead hlive p) (not_owns_of_passive (hfail c r hr) p)
  | freed hports hgone hlive hreg =>
    refine fun p d => ⟨fun hp => ?_, fun ho => ?_⟩
    · obtain hsame | ⟨-, hunused⟩ := hports p
      · have ho := (h p d).1 (hsame.symm.trans hp)
        refine (hother d (fun hd => ?_) p).2 ho
        subst hd
        exact hgone d (ho.2.2 ▸ hp)
      · exact nomatch hunused.symm.trans hp
    · have hd : d ≠ c := fun hd => not_owns_of_dead hlive p (hd ▸ ho)
      have hp := (h p d).2 ((hother d hd p).1 ho)
      obtain hsame | ⟨rfl, -⟩ := hports p
      · exact hsame.trans hp
      · have hok := (hi.placed c).reg hreg
        cases hc : (s.mem c).active with
        | true => exact (hd (Port.conn.inj (hp.symm.trans (hok.active hc)))).elim
        | false =>
          -- the port belongs to a listener
          obtain ⟨l, hl⟩ := hok.passive hc
          change (s.ports (s.mem c).localPort).Listens l at hl
          rw [hp] at hl
          exact hl.elim

/-! ### Runs -/

theorem portsOk_step (h : PortsOk s) (hi : s.Ok cfg) (hfail : KeepsOpened cfg s e)
    (hs : SlowStep cfg s e s') : PortsOk s' := by
  have hone : ConnOnly cfg s e s' → PortsOk s' := h.connOnly hi hfail
  obtain ⟨hen, hs⟩ := hs
  cases e with
  | «open» o c b route => exact portsOk_tcpOpen h hen hs
  | listen ctx op q reuse l =>
    cases hs
    exact h.keep keepsPorts_tcpListen
  | accept a l c b => exact h.keep (keepsPorts_tcpAccept hi hen.1 hen.2 hs)
  | packet p len core fg room =>
    obtain rfl | ⟨ts, rfl⟩ | ⟨c, ts, hparse, hc, hs⟩ | ⟨l, ts, -, -, -, hs⟩ := tcpPacket_cases hs
    · exact h
    · exact h
    · exact hone (connOnly_connPacket hparse hc hs)
    · exact h.keep (keepsPorts_listenerPacket hi hs)
  | resolved c mac status =>
    cases hs
    exact hone (connOnly_setConn rfl rfl (fun _ hr => hr) rfl rfl rfl rfl)
  | poll room => exact hone (connOnly_tcpPoll hs)
  | close fuel c => exact hone (connOnly_tcpClose hs)
  | timeout c room => exact hone (connOnly_tcpTimeout hs)
  | ccPoll n vm =>
    cases hs
    exact h.keep (keepsPorts_of_eq (congrArg ConnTables.ports ccPollVm_tables.1) ccPollVm_tables.2)
  | fast f fs =>
    cases hs
    exact h

theorem portsOk_start (h : SlowStart s) : PortsOk s := by
  intro p c
  rw [h.ports p]
  exact iff_of_false (by simp) (not_owns_of_dead (h.mem c) p)

/-- In every run in which no connection that was opened from here is destroyed by a failure, the
port table names the connections that own ports. -/
theorem ports_name_their_owners {s₀ s : SlowPath} (h₀ : SlowStart s₀)
    (h : SlowRun cfg (KeepsOpened cfg) s₀ s) (p : U16) (c : ℕ) :
    s.ports p = .conn c ↔ (s.mem c).live = true ∧ (s.mem c).active = true ∧
      (s.mem c).localPort = p := by
  have hports : PortsOk s := h.invariant h₀ (portsOk_start h₀) fun _ _ _ ih hi hfail hs =>
    portsOk_step ih hi hfail hs
  exact hports p c

/-- A connection is opened, and its address is being resolved. -/
def openPending : SlowPath := idleSlow.after plainCfg (.open ⟨0, 0, 2, 80, 0⟩ 11 noBufs .pending)

/-- There is no answer to the ARP requests, and the connection fails. -/
def openUnresolved : SlowPath :=
  (openPending.after plainCfg (.resolved 11 0 (-1))).after plainCfg (.poll true)

/-- The port stays taken, and its entry is for a connection that was freed. -/
theorem failed_open_leaks_port :
    ∃ s₀ s, SlowStart s₀ ∧ SlowRun plainCfg (fun _ _ => True) s₀ s ∧
      s.ports 8192 = .conn 11 ∧ (s.mem 11).live = false := by
  refine ⟨idleSlow, openUnresolved, slowStart_idle, ?_, by decide +kernel, by decide +kernel⟩
  have hopen : SlowRun plainCfg (fun _ _ => True) idleSlow openPending :=
    slowRun_refl.after trivial (by decide +kernel)
  exact (hopen.after trivial (by decide +kernel)).after trivial (by decide +kernel)

/-- The address is resolved, and the SYN sent. -/
def openResolved : SlowPath :=
  (openPending.after plainCfg (.resolved 11 5 0)).after plainCfg (.poll true)

theorem openResolved_owns_port :
    SlowRun plainCfg (KeepsOpened plainCfg) idleSlow openResolved ∧
      (openResolved.ports 8192 = .conn 11 ↔ (openResolved.mem 11).live = true ∧
        (openResolved.mem 11).active = true ∧ (openResolved.mem 11).localPort = 8192) ∧
      openResolved.ports 8192 = .conn 11 := by
  have hopen : SlowRun plainCfg (KeepsOpened plainCfg) idleSlow openPending :=
    slowRun_refl.after (fun _ _ hf => nomatch hf) (by decide +kernel)
  have hresolved : SlowRun plainCfg (KeepsOpened plainCfg) idleSlow
      (openPending.after plainCfg (.resolved 11 5 0)) :=
    hopen.after (fun _ _ hf => nomatch hf) (by decide +kernel)
  have hcomp : ((openPending.after plainCfg (.resolved 11 5 0)).asyncQ = [11]) ∧
      ((openPending.after plainCfg (.resolved 11 5 0)).mem 11).compStatus = 0 := by decide +kernel
  have hrun : SlowRun plainCfg (KeepsOpened plainCfg) idleSlow openResolved := by
    refine hresolved.after (fun c r hf => ?_) (by decide +kernel)
    cases hf with
    | unresolved hq hbad hstatus =>
      obtain ⟨rfl, -⟩ := List.cons.inj (hcomp.1.symm.trans hq)
      exact (hbad hcomp.2).elim
  exact ⟨hrun, ports_name_their_owners slowStart_idle hrun 8192 11, by decide +kernel⟩

end Tas
