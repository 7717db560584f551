import Tas.CcLists

/-! Accepts that wait at a listener next to SYNs in its backlog. -/
namespace Tas

open Outcome SlowPath Function

variable {cfg : SlowCfg} {c l l' : ℕ} {s s' : SlowPath} {p : TcpPacket} {ts : Option U32}
  {core : U32} {fg : U16} {room : Bool} {e : SlowEvent}

/-- No accept waits while there are SYNs in the backlog. -/
def ServedAt (x : Listener) : Prop := x.waitConns = [] ∨ x.backlog.slots = []

def BacklogServed (s : SlowPath) : Prop := ∀ l, ServedAt (s.listener l)

/-- The arguments with which a waiting connection is added for the SYN of a backlog slot. -/
def Connection.acceptedArgs (cfg : SlowCfg) (x : Connection) (port : U16) (b : BacklogSlot)
    (t : U32) : ConnArgs :=
  { x.acceptSyn cfg port b t with ccRate := cfg.ccRate }.args cfg 2

/-- The SYN has a timestamp, and the connection can be added to the fast path. -/
def Usable (cfg : SlowCfg) (s : SlowPath) (x : Connection) (port : U16) (b : BacklogSlot) : Prop :=
  ∃ t, parseOptions b.pkt b.len = .ok (some t) ∧
    (nicifConnectionAdd cfg.flowHash s.nic (x.acceptedArgs cfg port b t)).2 ≠ .failed

/-- An accept finds a usable SYN at the head of the backlog, unless there is at most one SYN. -/
def HeadUsable (cfg : SlowCfg) (s : SlowPath) : SlowEvent → Prop
  | .accept a l _ bufs => ∀ b b' bs, (s.listener l).backlog.slots = b :: b' :: bs →
    Usable cfg s (waitConn cfg a bufs (s.listener l).port) (s.listener l).port b
  | _ => True

/-! ### Listeners -/

theorem listener_tcpOpen {o : OpenArgs} {b : ConnBufs} {route : Route}
    (hs : tcpOpen cfg s o c b route = .ok s') : s'.listener = s.listener := by
  obtain ⟨q, -, rfl⟩ := tcpOpen_ok hs
  cases route <;> rfl

/-! ### Accepting -/

theorem BacklogServed.setListener {y : Listener} (h : BacklogServed s) (hy : ServedAt y) :
    BacklogServed (s.setListener l y) :=
  (forall_update_iff s.listener fun _ => ServedAt).2 ⟨hy, fun k _ => h k⟩

theorem BacklogServed.congr (h : BacklogServed s) (heq : s'.listener = s.listener) :
    BacklogServed s' := fun k => heq ▸ h k

/-- A slot is given up with the accept that takes it, unless it is not usable. -/
theorem acceptSlot_listener {b : BacklogSlot} {t : U32}
    (hparse : parseOptions b.pkt b.len = .ok (some t)) (hs : acceptSlot cfg s l c b t = .ok s') :
    ∃ ws, s'.listener = update s.listener l { s.listener l with
        waitConns := ws
        backlog := (s.listener l).backlog.pop } ∧
      (ws = (s.listener l).waitConns.tail ∨ ¬ Usable cfg s (s.mem c) (s.listener l).port b) := by
  obtain ⟨s₁, ok, hadd, rfl⟩ := acceptSlot_cases hs
  have hlistener : s₁.listener = s.listener := congrArg ConnTables.listener
    ((retouch_acceptInit cfg s l c b t).trans (retouch_nicAdd hadd)).tables
  cases ok with
  | true => exact ⟨_, hlistener ▸ listener_acceptDone, .inl rfl⟩
  | false =>
    refine ⟨(s.listener l).waitConns, hlistener ▸ rfl, .inr ?_⟩
    rintro ⟨t', hparse', hok⟩
    cases Parsed.ok.inj (hparse.symm.trans hparse')
    obtain ⟨-, τ, hτ, -⟩ | ⟨hf, -⟩ := nicAdd_cases hadd
    · rw [mem_acceptInit] at hτ
      exact hok (congrArg Prod.snd hτ)
    · cases hf

/-- `listener_accept` gives up the first SYN, and the first accept if the SYN is usable. -/
theorem listenerAccept_listener (hs : listenerAccept cfg s l = .ok s') :
    ∃ c ws b bs ws', (s.listener l).waitConns = c :: ws ∧
      (s.listener l).backlog.slots = b :: bs ∧ s'.listener = update s.listener l { s.listener l with
        waitConns := ws'
        backlog := (s.listener l).backlog.pop } ∧
      (ws' = ws ∨ ¬ Usable cfg s (s.mem c) (s.listener l).port b) := by
  unfold listenerAccept at hs
  split at hs
  · rename_i c ws b bs hw hb
    have hdropped : s' = s.popBacklog l → (∀ t, parseOptions b.pkt b.len ≠ .ok (some t)) →
        ∃ ws', s'.listener = update s.listener l { s.listener l with
          waitConns := ws', backlog := (s.listener l).backlog.pop } ∧
        (ws' = ws ∨ ¬ Usable cfg s (s.mem c) (s.listener l).port b) := by
      rintro rfl hno
      exact ⟨(s.listener l).waitConns, rfl, .inr fun ⟨t, ht, _⟩ => hno t ht⟩
    suffices hnext : ∃ ws', _ from
      let ⟨ws', hnext⟩ := hnext
      ⟨c, ws, b, bs, ws', hw, hb, hnext⟩
    split at hs
    · cases hs
    · rename_i hparse
      exact hdropped (Except.ok.inj hs).symm fun t ht => nomatch hparse.symm.trans ht
    · rename_i hparse
      exact hdropped (Except.ok.inj hs).symm fun t ht => nomatch hparse.symm.trans ht
    · rename_i t hparse
      have hslot := acceptSlot_listener hparse hs
      rw [hw, List.tail_cons] at hslot
      exact hslot
  · cases hs

/-- After an accept with the backlog and the waiting accepts of before. -/
theorem BacklogServed.accept (h : ∀ k, k ≠ l → ServedAt (s.listener k))
    (hhead : ∀ c ws b bs, (s.listener l).waitConns = c :: ws →
      (s.listener l).backlog.slots = b :: bs →
        bs = [] ∨ ws = [] ∧ Usable cfg s (s.mem c) (s.listener l).port b)
    (hs : listenerAccept cfg s l = .ok s') : BacklogServed s' := by
  obtain ⟨c, ws, b, bs, ws', hw, hb, hlistener, hwait⟩ := listenerAccept_listener hs
  unfold BacklogServed
  rw [hlistener]
  refine (forall_update_iff s.listener fun _ => ServedAt).2 ⟨?_, h⟩
  obtain hbs | ⟨hws, husable⟩ := hhead c ws b bs hw hb
  · refine .inr (Backlog.slots_pop.trans ?_)
    rw [hb, hbs, List.tail_cons]
  · obtain hwait | hnot := hwait
    · exact .inl (hwait.trans hws)
    · exact absurd husable hnot

theorem served_tcpAccept {a : AcceptArgs} {b : ConnBufs} (h : BacklogServed s)
    (hhead : HeadUsable cfg s (.accept a l c b)) (hs : tcpAccept cfg s a l c b = .ok s') :
    BacklogServed s' := by
  have hself : (enqueueAccept cfg s a l c b).listener l = { s.listener l with
      waitConns := (s.listener l).waitConns ++ [c] } := update_self ..
  have hother : ∀ k, k ≠ l → ServedAt ((enqueueAccept cfg s a l c b).listener k) := by
    intro k hk
    have heq : (enqueueAccept cfg s a l c b).listener k = s.listener k :=
      update_of_ne hk ..
    rw [heq]
    exact h k
  unfold tcpAccept at hs
  dsimp only at hs
  split_ifs at hs with hpos
  · refine BacklogServed.accept hother (fun d ws b₁ bs hw hb => ?_) hs
    change ((enqueueAccept cfg s a l c b).listener l).waitConns = d :: ws at hw
    change ((enqueueAccept cfg s a l c b).listener l).backlog.slots = b₁ :: bs at hb
    rw [hself] at hw hb
    cases bs with
    | nil => exact .inl rfl
    | cons b₂ bs =>
      -- nobody waited before, so that the new accept is the first one
      have hnone : (s.listener l).waitConns = [] := by
        obtain hnone | hnone := h l
        · exact hnone
        · cases hnone.symm.trans hb
      have hw : (s.listener l).waitConns ++ [c] = d :: ws := hw
      rw [hnone] at hw
      cases hw
      refine .inr ⟨rfl, ?_⟩
      have hmem : (enqueueAccept cfg s a l c b).mem c = waitConn cfg a b (s.listener l).port :=
        mem_setConn_self
      change Usable cfg s ((enqueueAccept cfg s a l c b).mem c)
        ((enqueueAccept cfg s a l c b).listener l).port b₁
      rw [hmem, hself]
      exact hhead b₁ b₂ bs hb
  · cases hs
    have hempty : ((enqueueAccept cfg s a l c b).listener l).backlog.slots = [] :=
      Backlog.slots_eq_nil (Nat.eq_zero_of_not_pos hpos)
    rw [hself] at hempty
    exact h.setListener (.inr hempty)

theorem served_listenerPacket (h : BacklogServed s)
    (hs : listenerPacket cfg s l p ts core fg = .ok s') : BacklogServed s' := by
  have hself : (s.pushBacklog l p core fg).listener l = { s.listener l with
      backlog := (s.listener l).backlog.push p core fg } := update_self ..
  have hother : ∀ k, k ≠ l → (s.pushBacklog l p core fg).listener k = s.listener k := fun k hk =>
    update_of_ne hk ..
  unfold listenerPacket at hs
  dsimp only at hs
  split_ifs at hs with hsyn hadmits hwaiting
  · cases hs
    exact h
  · refine BacklogServed.accept (fun k hk => ?_) (fun c ws b₁ bs hw hb => .inl ?_) hs
    · rw [hother k hk]
      exact h k
    · -- somebody waited, so that the backlog was empty
      rw [hself] at hw hb
      have hempty : (s.listener l).backlog.slots = [] := by
        obtain hnone | hempty := h l
        · cases hnone.symm.trans hw
        · exact hempty
      have hroom := (Backlog.admits_iff.1 hadmits).2.2
      have hb : ((s.listener l).backlog.push p core fg).slots = b₁ :: bs := hb
      rw [Backlog.slots_push hroom, hempty] at hb
      exact (List.cons.inj hb).2.symm
  · cases hs
    exact h.setListener (.inl ((congrArg Listener.waitConns hself).symm.trans (not_not.1 hwaiting)))
  · exact Except.ok.inj hs ▸ h

theorem served_tcpListen {ctx : ℕ} {op : U64} {q : U16} {reuse : Bool} (h : BacklogServed s) :
    BacklogServed (s.tcpListen ctx op q reuse l) := by
  have hnew {slot : ℕ → BacklogSlot} :
      BacklogServed (s.setListener l (newListener ctx op q slot)) := h.setListener (.inl rfl)
  unfold tcpListen
  dsimp only
  split
  · exact hnew.congr rfl
  · exact hnew.congr rfl
  · split_ifs
    · exact h
    · exact hnew.congr rfl
  · exact h

theorem served_step (h : BacklogServed s) (hhead : HeadUsable cfg s e) (hs : SlowStep cfg s e s') :
    BacklogServed s' := by
  have hone : ConnOnly cfg s e s' → BacklogServed s' := fun ⟨_, ha, _⟩ => h.congr ha.listener
  obtain ⟨-, hs⟩ := hs
  cases e with
  | «open» o c b route => exact h.congr (listener_tcpOpen hs)
  | listen ctx op q reuse l =>
    cases hs
    exact served_tcpListen h
  | accept a l c b => exact served_tcpAccept h hhead hs
  | packet p len core fg room =>
    obtain rfl | ⟨ts, rfl⟩ | ⟨c, ts, hparse, hc, hs⟩ | ⟨l, ts, -, -, -, hs⟩ := tcpPacket_cases hs
    · exact h
    · exact h
    · exact hone (connOnly_connPacket hparse hc hs)
    · exact served_listenerPacket h hs
  | resolved | fast =>
    cases hs
    exact h
  | poll room => exact hone (connOnly_tcpPoll hs)
  | close fuel c => exact hone (connOnly_tcpClose hs)
  | timeout c room => exact hone (connOnly_tcpTimeout hs)
  | ccPoll n vm =>
    cases hs
    exact h.congr (congrArg ConnTables.listener ccPollVm_tables.1)

/-- In every run in which accepts that find several SYNs find a usable one at the head of the
backlog, no accept waits next to a SYN. -/
theorem accepts_served {s₀ s : SlowPath} (h₀ : SlowStart s₀)
    (h : SlowRun cfg (HeadUsable cfg) s₀ s) : BacklogServed s :=
  h.invariant h₀ (fun l => .inl (h₀.waitConns l)) fun _ _ _ ih _ hhead hs =>
    served_step ih hhead hs

/-- Two SYNs are in the backlog of a listener, the first one with or without a timestamp. -/
def twoSyns (stamped : Bool) : SlowPath :=
  ((idleSlow.after plainCfg (.listen 0 0 80 false 21)).after plainCfg
    (.packet (controlPkt tcpSyn 1 80 stamped) 66 0 0 true)).after plainCfg
    (.packet (controlPkt tcpSyn 2 80 true) 66 0 0 true)

theorem slowRun_twoSyns (stamped : Bool) {P : SlowPath → SlowEvent → Prop}
    (hlisten : ∀ s ctx op q reuse l, P s (.listen ctx op q reuse l))
    (hpacket : ∀ s p len core fg room, P s (.packet p len core fg room)) :
    SlowRun plainCfg P idleSlow (twoSyns stamped) := by
  have hfirst : SlowRun plainCfg P idleSlow
      (idleSlow.after plainCfg (.listen 0 0 80 false 21)) :=
    slowRun_refl.after (hlisten ..) (by decide +kernel)
  refine SlowRun.after (SlowRun.after hfirst (hpacket ..) ?_) (hpacket ..) ?_
  all_goals cases stamped <;> decide +kernel

/-- The application accepts. -/
def twoSynsAccept (stamped : Bool) : SlowPath :=
  (twoSyns stamped).after plainCfg (.accept ⟨0, 0, 0⟩ 21 11 noBufs)

/-- The SYN without a timestamp is dropped, and the connection waits next to the other one. -/
theorem accept_waits_next_to_syn :
    ∃ s₀ s, SlowStart s₀ ∧ SlowRun plainCfg (fun _ _ => True) s₀ s ∧
      (s.listener 21).waitConns = [11] ∧
      (∃ b, (s.listener 21).backlog.slots = [b] ∧ Usable plainCfg s (s.mem 11) 80 b) ∧
      ¬ BacklogServed s := by
  have hrun : SlowRun plainCfg (fun _ _ => True) idleSlow (twoSynsAccept false) :=
    (slowRun_twoSyns false (fun _ _ _ _ _ _ => trivial) fun _ _ _ _ _ _ => trivial).after trivial
      (by decide +kernel)
  have hwait : ((twoSynsAccept false).listener 21).waitConns = [11] := by decide +kernel
  have hback : ((twoSynsAccept false).listener 21).backlog.slots =
      [((twoSynsAccept false).listener 21).backlog.slot 1] :=
    Backlog.slots_eq (i := 1) (n := 1) (by decide +kernel) (by decide +kernel)
  refine ⟨idleSlow, twoSynsAccept false, slowStart_idle, hrun, hwait, ⟨_, hback, ?_⟩, ?_⟩
  · exact ⟨0, by decide +kernel, by decide +kernel⟩
  · intro h
    obtain h | h := h 21
    · cases hwait.symm.trans h
    · cases hback.symm.trans h

theorem stamped_syn_accepted :
    SlowRun plainCfg (HeadUsable plainCfg) idleSlow (twoSynsAccept true) ∧
      ((twoSynsAccept true).listener 21).backlog.used = 1 ∧ BacklogServed (twoSynsAccept true) := by
  have hrun : SlowRun plainCfg (HeadUsable plainCfg) idleSlow (twoSynsAccept true) := by
    refine (slowRun_twoSyns true (fun _ _ _ _ _ _ => trivial) fun _ _ _ _ _ _ => trivial).after
      (fun b b' bs hb => ?_) (by decide +kernel)
    have hback : ((twoSyns true).listener 21).backlog.slots =
        [((twoSyns true).listener 21).backlog.slot 0,
          ((twoSyns true).listener 21).backlog.slot 1] :=
      Backlog.slots_eq (i := 0) (n := 2) (by decide +kernel) (by decide +kernel)
    obtain ⟨rfl, -⟩ := List.cons.inj (hback.symm.trans hb)
    exact ⟨0, by decide +kernel, by decide +kernel⟩
  exact ⟨hrun, by decide +kernel, accepts_served slowStart_idle hrun⟩

end Tas
