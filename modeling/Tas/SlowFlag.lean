import Tas.Recycle
import Tas.Sessions

/-! Flows that the fast path has given up. A flow with the slow path flag is no longer processed by
the fast path, and the slow path does not process it either. -/
namespace Tas

open Outcome SlowPath Function List FlowState

/-! ### The flag in the fast path -/

section Flow

variable {fs : FlowState} {p : RxPacket} {r : RxResult} {ts bytes : U32} {src : ℕ → Byte}
  {env : FpEnv}

/-- The fast path has given the flow up. -/
def FlowState.slow (fs : FlowState) : Bool := fs.flag flowstSlowpath

theorem slow_setFlag {f : U64} (h : f &&& flowstSlowpath = 0) : (fs.setFlag f).slow = fs.slow :=
  flag_setFlag_of_disjoint h

theorem packetAck_slow : (packetAck fs p).fs.slow = fs.slow :=
  packetAck_txOnly.view

theorem packetBody_slow : (packetBody fs p ts).fs.slow = fs.slow := by
  unfold packetBody
  split_ifs
  · exact packetAck_slow
  · have hflag := (@packetRx_frame (packetAck fs p).fs p ts).flag (f := flowstSlowpath) (by decide)
    exact hflag.trans packetAck_slow

/-- Packets that do not make the fast path give a flow up. -/
def RxPacket.Mild (p : RxPacket) : Prop := p.flags &&& tcpSyn ≠ 0 ∨ p.flags &&& ~~~fastFlags = 0

theorem fastFlowsPacket_slow {flowId : U32} {spendBudget : Bool} (hp : p.Mild)
    (hs : fs.slow = false) : (fastFlowsPacket env fs flowId p spendBudget ts).1.slow = false := by
  by_cases h : Processed env fs p spendBudget
  · rw [fastFlowsPacket_processed h]
    exact packetBody_slow.trans hs
  · have hflag : ¬ (fs.flag flowstSlowpath = true) := by
      rw [show fs.flag flowstSlowpath = false from hs]
      decide
    unfold fastFlowsPacket
    by_cases hb : spendBudget ∧ env.budget ≤ 0
    · rw [if_pos hb]
      exact hs
    · have hodd : p.flags &&& ~~~fastFlags ≠ 0 := fun hf => h ⟨hb, hflag, hf⟩
      rw [if_neg hb, if_neg hflag, if_pos hodd, if_pos (hp.resolve_right hodd)]
      exact hs

theorem fastFlowsBump_slow {flowId rxBump txBump : U32} {bumpSeq : U16} {flags : U8} :
    (fastFlowsBump env fs flowId bumpSeq rxBump txBump flags ts).1.slow = fs.slow := by
  by_cases h : BumpOk fs bumpSeq rxBump txBump flags
  · rw [(fastFlowsBump_ok h).1]
    unfold bumpState
    cases bumpCloses fs flags with
    | false => rfl
    | true =>
      have hset : (fs.setFlag flowstTxfin).slow = fs.slow := slow_setFlag (by decide)
      exact hset
  · rcases @fastFlowsBump_not_ok env fs ts flowId rxBump txBump bumpSeq flags h with he | he
    · rw [he]
    · rw [he]
      rfl

/-- Everything but packets with odd flags. -/
def FlowEvent.Mild : FlowEvent → Prop
  | .packet _ _ p _ _ => p.Mild
  | _ => True

theorem flowStep_slow {κ : Type} {alg : CcAlg κ} {cc : CcConn κ} {ev : FlowEvent} (hev : ev.Mild)
    (hs : fs.slow = false) : (Conn.step alg ⟨fs, cc⟩ ev).1.fs.slow = false := by
  cases ev with
  | packet env flowId p spendBudget ts => exact fastFlowsPacket_slow hev hs
  | bump env flowId bumpSeq rxBump txBump flags ts => exact fastFlowsBump_slow.trans hs
  | qman env core newCore txbuf ts =>
    exact (TxOnly.view (v := slow) fastFlowsQman_txOnly).trans hs
  | retransmit flowId => exact (TxOnly.view (v := slow) fastFlowsRetransmit_txOnly).trans hs
  | winretransmit env ts => exact hs
  | poll curTs diffTs =>
    refine Eq.trans ?_ hs
    change (ccPollConn alg cc fs curTs diffTs).2.1.slow = fs.slow
    unfold ccPollConn
    split_ifs <;> rfl

end Flow

/-! ### Runs -/

variable {cfg : SlowCfg} {c : ℕ} {f : U32} {up : Bool} {s s' : SlowPath} {e : SlowEvent}

/-- The connection has a flow that is set up, or one that is disabled. -/
def InUse (t : ConnTables) (c : ℕ) (x : Connection) : Bool → Prop
  | true => x.status = .opened ∨ (x.status = .regSynack ∧ t.Registered c)
  | false => x.status = .closed

structure Uses (s : SlowPath) (c : ℕ) (f : U32) (up : Bool) : Prop where
  live : (s.mem c).live = true
  flowId : (s.mem c).flowId = f
  state : InUse s.tables c (s.mem c) up

/-- Flow states change as the fast path changes them, in events that meet `M`. Receive buffers are
at even offsets, since the flag is the lowest bit of that offset. -/
def FastSteps (M : FlowEvent → Prop) (s : SlowPath) (e : SlowEvent) : Prop :=
  (∀ b, e.newBufs = some b → b.rxBase &&& flowstSlowpath = 0) ∧
    ∀ f fs, e = .fast f fs → ∃ (κ : Type) (alg : CcAlg κ) (cc : CcConn κ) (ev : FlowEvent), M ev ∧
      fs = (Conn.step alg ⟨s.nic.flowst f, cc⟩ ev).1.fs

/-- Connections have flows of their own, and those that are set up are on the fast path. -/
structure FastInv (s : SlowPath) : Prop where
  nodup : s.nic.freeIds.Nodup
  held : ∀ c f up, Uses s c f up → f ∉ s.nic.freeIds
  apart : ∀ c d f up up', Uses s c f up → Uses s d f up' → c = d
  bufs : ∀ c, (s.mem c).live = true → (s.mem c).bufs.rxBase &&& flowstSlowpath = 0
  fast : ∀ c f, Uses s c f true → (s.nic.flowst f).slow = false

theorem connectionInit_slow {fs : FlowState} {a : ConnArgs} (h : a.rxBase &&& flowstSlowpath = 0) :
    (connectionInit fs a).slow = false := by
  have hbase : a.rxBase &&& flowstSlowpath ≠ flowstSlowpath := by
    rw [h]
    decide
  unfold connectionInit slow flag
  dsimp only
  split_ifs
  · rw [Word.and_or_of_disjoint (by decide)]
    exact beq_false_of_ne hbase
  · exact beq_false_of_ne hbase

theorem Uses.hasFlow (h : Uses s c f up) : HasFlow s.tables c (s.mem c) := by
  obtain ⟨-, -, hstate⟩ := h
  cases up with
  | true => exact hstate.imp_right .inr
  | false => exact .inr (.inl hstate)

/-- A connection that is given no flow has none but the one it had. -/
theorem FlowKeeps.uses (h : FlowKeeps cfg s e s' c) (hu : Uses s' c f up) : Uses s c f up := by
  have hstate := hu.state
  cases h with
  | same hlive hid hstatus hreg =>
    refine ⟨hlive.symm.trans hu.live, hid.symm.trans hu.flowId, ?_⟩
    unfold InUse at hstate ⊢
    rw [hstatus] at hstate
    cases up with
    | true => exact hstate.imp_right (And.imp_right hreg)
    | false => exact hstate
  | none hx hy => exact (hy hu.live hu.hasFlow).elim
  | answers hlive hid hx hreg hy =>
    refine ⟨hlive.symm.trans hu.live, hid.symm.trans hu.flowId, ?_⟩
    cases up with
    | true => exact .inr ⟨hx, hreg⟩
    | false => cases hy.symm.trans hstate
  | fails room hlive hid hy hroom =>
    have hflow := hu.hasFlow
    unfold HasFlow at hflow
    rw [hy] at hflow
    rcases hflow with hx | hx | ⟨hx, -⟩ <;> cases hx

/-- What `nicif_connection_add` does to flow states and ids. -/
theorem nicifConnectionAdd_ids {hash : FlowKey → U32} {τ τ' : FlowTable} {a : ConnArgs}
    {r : AddResult} (h : nicifConnectionAdd hash τ a = (τ', r)) :
    (∀ f, r ≠ .ok f) ∧ τ'.flowst = τ.flowst ∧ τ'.freeIds = τ.freeIds ∨
      ∃ f, r = .ok f ∧ τ.freeIds = f :: τ'.freeIds ∧
        τ'.flowst = update τ.flowst f (connectionInit (τ.flowst f) a) := by
  unfold nicifConnectionAdd at h
  split at h
  · cases h
    exact .inl ⟨nofun, rfl, rfl⟩
  · rename_i fid ids hids
    dsimp only at h
    split at h
    · cases h
      exact .inl ⟨nofun, rfl, rfl⟩
    · cases h
      exact .inl ⟨nofun, rfl, rfl⟩
    · split_ifs at h
      · cases h
        exact .inr ⟨fid, rfl, hids, rfl⟩
      · cases h
        exact .inl ⟨nofun, rfl, rfl⟩

/-- A step after which every use of a flow is one from before. -/
theorem FastInv.of_uses (h : FastInv s) (hnodup : s'.nic.freeIds.Nodup)
    (hheld : ∀ c f up, Uses s' c f up → f ∉ s'.nic.freeIds)
    (hold : ∀ c f up, Uses s' c f up → ∃ b, Uses s c f b ∧
      (up = true → b = true ∧ s'.nic.flowst f = s.nic.flowst f))
    (hbufs : ∀ c, (s'.mem c).live = true → (s'.mem c).bufs.rxBase &&& flowstSlowpath = 0) :
    FastInv s' := by
  refine ⟨hnodup, hheld, fun c d f up up' hu hu' => ?_, hbufs, fun c f hu => ?_⟩
  · obtain ⟨b, hb, -⟩ := hold c f up hu
    obtain ⟨b', hb', -⟩ := hold d f up' hu'
    exact h.apart c d f b b' hb hb'
  · obtain ⟨b, hb, hup⟩ := hold c f true hu
    obtain ⟨rfl, hst⟩ := hup rfl
    rw [hst]
    exact h.fast c f hb

theorem fastInv_flowStep (h : FastInv s) (hflow : FlowStep cfg s e s')
    (hbufs : ∀ c, (s'.mem c).live = true → (s'.mem c).bufs.rxBase &&& flowstSlowpath = 0) :
    FastInv s' := by
  cases hflow with
  | stay hnic howner hkeep =>
    have hsame : s'.nic.flowst = s.nic.flowst ∧ s'.nic.freeIds = s.nic.freeIds := by
      rcases hnic with hnic | ⟨a, -, hadd⟩
      · exact ⟨by rw [hnic], by rw [hnic]⟩
      · rcases nicifConnectionAdd_ids hadd with ⟨-, hsame⟩ | ⟨f, hf, -⟩
        · exact hsame
        · cases hf
    obtain ⟨hst, hids⟩ := hsame
    refine h.of_uses (hids ▸ h.nodup) (fun c f up hu => ?_)
      (fun c f up hu => ⟨up, (hkeep c).uses hu, fun hup => ⟨hup, by rw [hst]⟩⟩) hbufs
    rw [hids]
    exact h.held c f up ((hkeep c).uses hu)
  | take c f a ha hadd howner hless hbase hlive hid hy hkeep =>
    rcases nicifConnectionAdd_ids hadd with ⟨hf, -⟩ | ⟨f₁, hf, hids, hst⟩
    · exact (hf f rfl).elim
    cases hf
    have hself : ∀ g up, Uses s' c g up → g = f := fun g up hu => hu.flowId.symm.trans hid
    have hnodup : (f :: s'.nic.freeIds).Nodup := hids ▸ h.nodup
    -- The new flow was free, so no other connection has it.
    have hother : ∀ d g up, d ≠ c → Uses s' d g up → g ∉ f :: s'.nic.freeIds := by
      intro d g up hd hu
      rw [← hids]
      exact h.held d g up ((hkeep d hd).uses hu)
    have hnew : ∀ d up, Uses s' d f up → d = c := by
      intro d up hu
      by_contra hd
      exact hother d f up hd hu mem_cons_self
    refine ⟨(nodup_cons.1 hnodup).2, fun d g up hu => ?_, fun d d' g up up' hu hu' => ?_,
      hbufs, fun d g hu => ?_⟩
    · by_cases hd : d = c
      · subst hd
        obtain rfl := hself g up hu
        exact (nodup_cons.1 hnodup).1
      · exact fun hg => hother d g up hd hu (mem_cons_of_mem _ hg)
    · by_cases hg : g = f
      · subst hg
        rw [hnew d up hu, hnew d' up' hu']
      · have hne : ∀ {x up}, Uses s' x g up → x ≠ c := fun hx he => by
          subst he
          exact hg (hself g _ hx)
        exact h.apart d d' g up up' ((hkeep d (hne hu)).uses hu) ((hkeep d' (hne hu')).uses hu')
    · rw [hst]
      by_cases hg : g = f
      · subst hg
        rw [update_self]
        refine connectionInit_slow ?_
        rw [hbase]
        exact hbufs c hlive
      · have hd : d ≠ c := by
          rintro rfl
          exact hg (hself g _ hu)
        rw [update_of_ne hg]
        exact h.fast d g ((hkeep d hd).uses hu)
  | disable c hlive hopen hnic howner hlive' hid hy hkeep =>
    generalize hf : (s.mem c).flowId = f at hnic hid
    have hc : Uses s c f true := ⟨hlive, hf, .inl hopen⟩
    have hids : s'.nic.freeIds = s.nic.freeIds := by
      rw [hnic]
      rfl
    have hst : ∀ g, g ≠ f → s'.nic.flowst g = s.nic.flowst g := by
      intro g hg
      rw [hnic]
      exact update_of_ne hg ..
    -- A connection has after the step the flow it had before.
    have hold : ∀ d g up, Uses s' d g up → ∃ b, Uses s d g b ∧
        (up = true → b = true ∧ s'.nic.flowst g = s.nic.flowst g) := by
      intro d g up hu
      by_cases hd : d = c
      · subst hd
        obtain rfl : g = f := hu.flowId.symm.trans hid
        refine ⟨true, hc, ?_⟩
        rintro rfl
        rcases hu.state with hx | ⟨hx, -⟩ <;> cases hy.symm.trans hx
      · have hu := (hkeep d hd).uses hu
        refine ⟨up, hu, fun hup => ⟨hup, hst g ?_⟩⟩
        rintro rfl
        exact hd (h.apart d c g up true hu hc)
    refine h.of_uses (hids ▸ h.nodup) (fun d g up hu => ?_) hold hbufs
    obtain ⟨b, hb, -⟩ := hold d g up hu
    rw [hids]
    exact h.held d g b hb
  | give c hlive hclosed hnic howner hself hkeep =>
    generalize hf : (s.mem c).flowId = f at hnic
    have hc : Uses s c f false := ⟨hlive, hf, hclosed⟩
    have hids : s'.nic.freeIds = f :: s.nic.freeIds := by
      rw [hnic]
      rfl
    have hst : s'.nic.flowst = s.nic.flowst := by
      rw [hnic]
      rfl
    have hne : ∀ d g up, Uses s' d g up → d ≠ c := by
      rintro d g up hu rfl
      exact Bool.noConfusion (hu.live.symm.trans hself)
    have hold : ∀ d g up, Uses s' d g up → Uses s d g up :=
      fun d g up hu => (hkeep d (hne d g up hu)).uses hu
    refine h.of_uses ?_ (fun d g up hu => ?_)
      (fun d g up hu => ⟨up, hold d g up hu, fun hup => ⟨hup, by rw [hst]⟩⟩) hbufs
    · rw [hids]
      exact nodup_cons.2 ⟨h.held c f false hc, h.nodup⟩
    · rw [hids]
      intro hmem
      rcases mem_cons.1 hmem with rfl | hmem
      · exact hne d g up hu (h.apart d c g up false (hold d g up hu) hc)
      · exact h.held d g up (hold d g up hu) hmem

theorem fastInv_step (h : FastInv s) (hi : s.Ok cfg)
    (hP : FastSteps FlowEvent.Mild s e) (hs : SlowStep cfg s e s') : FastInv s' := by
  by_cases he : ∃ f fs, e = .fast f fs
  · obtain ⟨f, fs, rfl⟩ := he
    obtain ⟨κ, alg, cc, ev, hev, hfs⟩ := hP.2 f fs rfl
    obtain rfl := Except.ok.inj hs.2
    have hback : ∀ {c g up}, Uses { s with nic := { s.nic with
        flowst := update s.nic.flowst f fs } } c g up → Uses s c g up := fun hu =>
      ⟨hu.live, hu.flowId, hu.state⟩
    refine ⟨h.nodup, fun c g up hu => h.held c g up (hback hu),
      fun c d g up up' hu hu' => h.apart c d g up up' (hback hu) (hback hu'), h.bufs,
      fun c g hu => ?_⟩
    change (update s.nic.flowst f fs g).slow = false
    by_cases hg : g = f
    · subst hg
      rw [update_self, hfs]
      exact flowStep_slow hev (h.fast c g (hback hu))
    · rw [update_of_ne hg]
      exact h.fast c g (hback hu)
  · have heffect := slowEffect_step hi hs
    refine fastInv_flowStep h (heffect.flow fun f fs hf => he ⟨f, fs, hf⟩) fun c hl => ?_
    rcases heffect.bufs c hl with ⟨hl', hsame⟩ | hnew
    · rw [hsame]
      exact h.bufs c hl'
    · exact hP.1 _ hnew

theorem fastInv_start (h : SlowStart s) : FastInv s := by
  have hnone : ∀ c f up, ¬ Uses s c f up := fun c f up hu =>
    Bool.noConfusion (hu.live.symm.trans (h.mem c))
  refine ⟨?_, fun c f up hu => (hnone c f up hu).elim,
    fun c d f up up' hu => (hnone c f up hu).elim, fun c hl => ?_,
    fun c f hu => (hnone c f true hu).elim⟩
  · rw [h.freeIds]
    exact (TableRun.idList_spec (Nat.zero_add _).le).1
  · cases hl.symm.trans (h.mem c)

theorem fastInv_run {s₀ : SlowPath} (h₀ : SlowStart s₀)
    (h : SlowRun cfg (FastSteps FlowEvent.Mild) s₀ s) : FastInv s :=
  h.invariant h₀ (fastInv_start h₀) fun _ _ _ ih hi hP hs => fastInv_step ih hi hP hs

/-- In every run in which no packet has odd flags, the flows of open connections are on the fast
path. -/
theorem open_flows_stay_fast {s₀ : SlowPath} (h₀ : SlowStart s₀)
    (h : SlowRun cfg (FastSteps FlowEvent.Mild) s₀ s) (hlive : (s.mem c).live = true)
    (hopened : (s.mem c).status = .opened) :
    (s.nic.flowst (s.mem c).flowId).flag flowstSlowpath = false :=
  (fastInv_run h₀ h).fast c _ ⟨hlive, rfl, .inl hopened⟩

/-! ### A reset -/

theorem fastSteps_other {M : FlowEvent → Prop} (hb : e.newBufs = none)
    (he : ∀ f fs, e ≠ .fast f fs) : FastSteps M s e := by
  refine ⟨fun b h => ?_, fun f fs h => (he f fs h).elim⟩
  cases hb.symm.trans h

theorem slowRun_acceptedFast {M : FlowEvent → Prop} :
    SlowRun plainCfg (FastSteps M) idleSlow acceptedOpen := by
  have hbufs : FastSteps M synQueued (.accept ⟨0, 0, 0⟩ 21 11 noBufs) := by
    refine ⟨fun b hb => ?_, nofun⟩
    cases hb
    rfl
  exact slowRun_acceptedOpen (fastSteps_other rfl nofun) (fastSteps_other rfl nofun) hbufs
    (fastSteps_other rfl nofun)

def anyEnv : FpEnv := default

/-- The fast path receives a segment of the flow. -/
def fastReceives (flags : U16) : SlowEvent :=
  .fast 0 (fastFlowsPacket anyEnv (acceptedOpen.nic.flowst 0) 0
    (controlPkt flags 1 80 true).toRxPacket false 0).1

theorem fastSteps_receives {M : FlowEvent → Prop} {flags : U16}
    (hM : M (.packet anyEnv 0 (controlPkt flags 1 80 true).toRxPacket false 0)) :
    FastSteps M acceptedOpen (fastReceives flags) := by
  refine ⟨nofun, fun f fs hf => ?_⟩
  cases hf
  exact ⟨Unit, ⟨fun _ _ => false, fun _ _ _ _ => ((), 0)⟩, ⟨0, 0, 0, 0, ()⟩, _, hM, rfl⟩

/-- A reset is handed to the slow path. -/
def resetReceived : SlowPath :=
  (acceptedOpen.after plainCfg (fastReceives tcpRst)).after plainCfg
    (.packet (controlPkt tcpRst 1 80 true) 66 0 0 true)

/-- After a reset the fast path no longer processes the flow, and the connection is still open. -/
theorem reset_abandons_connection :
    ∃ s₀ s c, SlowStart s₀ ∧ SlowRun plainCfg (FastSteps fun _ => True) s₀ s ∧
      (s.mem c).live = true ∧ (s.mem c).status = .opened ∧
      (s.nic.flowst (s.mem c).flowId).flag flowstSlowpath = true := by
  have hrun : SlowRun plainCfg (FastSteps fun _ => True) idleSlow resetReceived :=
    (slowRun_acceptedFast.after (e := fastReceives tcpRst) (fastSteps_receives trivial)
      (by decide +kernel)).after (e := .packet (controlPkt tcpRst 1 80 true) 66 0 0 true)
      (fastSteps_other rfl nofun) (by decide +kernel)
  exact ⟨idleSlow, resetReceived, 11, slowStart_idle, hrun, by decide +kernel, by decide +kernel,
    by decide +kernel⟩

/-- An acknowledgement is received. -/
def ackReceived : SlowPath := acceptedOpen.after plainCfg (fastReceives tcpAck)

theorem ackReceived_fast :
    (ackReceived.nic.flowst (ackReceived.mem 11).flowId).flag flowstSlowpath = false := by
  have hrun : SlowRun plainCfg (FastSteps FlowEvent.Mild) idleSlow ackReceived :=
    slowRun_acceptedFast.after (fastSteps_receives (.inr (by decide))) (by decide +kernel)
  exact open_flows_stay_fast slowStart_idle hrun (by decide +kernel) (by decide +kernel)

end Tas
