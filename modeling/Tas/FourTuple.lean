import Tas.SlowTables

/-! One connection for a 4-tuple: the hash table against the backlogs of the listeners. -/
namespace Tas

open Outcome SlowPath Function List

/-- A listener joins a group only while no SYN is in a backlog of the group, and SYNs have an IP
length that covers their headers. -/
def Orderly (s : SlowPath) : SlowEvent → Prop
  | .listen _ _ p true _ =>
    ∀ ls, s.ports p = .lmulti ls → ∀ l ∈ ls, (s.listener l).backlog.slots = []
  | .packet p _ _ _ _ => p.flags &&& ~~~(tcpEce ||| tcpCwr) = tcpSyn → p.HeadersCopied
  | _ => True

/-- A backlog holds SYNs for its port, one for each 4-tuple, and in a group the hash of the packet
tells which listener of the group has it. -/
structure BacklogInv (cfg : SlowCfg) (t : ConnTables) : Prop where
  slot : ∀ l, (t.listener l).live = true → ∀ b ∈ (t.listener l).backlog.slots,
    b.pkt.ipDst = cfg.ip ∧ b.pkt.portDst = (t.listener l).port
  nodup : ∀ l, (t.listener l).live = true →
    ((t.listener l).backlog.slots.map fun b => pktKey b.pkt).Nodup
  hash : ∀ p ls, t.ports p = .lmulti ls → ∀ i l, ls[i]? = some l →
    ∀ b ∈ (t.listener l).backlog.slots, (listenHash b.pkt).toNat % ls.length = i

/-- The 4-tuples of the hash table and of the backlogs. -/
structure TupleInv (cfg : SlowCfg) (t : ConnTables) (mem : ℕ → Connection) : Prop where
  backlog : BacklogInv cfg t
  unique : ∀ c d, t.Registered c → t.Registered d → (mem c).key = (mem d).key → c = d
  apart : ∀ l, (t.listener l).live = true → ∀ b ∈ (t.listener l).backlog.slots,
    ∀ c, t.Registered c → (mem c).key ≠ pktKey b.pkt

abbrev SlowPath.Tuples (s : SlowPath) (cfg : SlowCfg) : Prop := TupleInv cfg s.tables s.mem

variable {cfg : SlowCfg} {t t' : ConnTables} {c d l l' : ℕ} {s s' : SlowPath}
  {mem mem' : ℕ → Connection} {p q : TcpPacket} {b : BacklogSlot} {e : SlowEvent} {o : OpenArgs}
  {route : Route} {y : Listener} {ws : List ℕ} {bs : List BacklogSlot}

/-! ### Backlogs -/

theorem listenHash_congr (h : pktKey p = pktKey q) : listenHash p = listenHash q := by
  obtain ⟨-, hport, hip, hsrc⟩ := FlowKey.mk.inj h
  unfold listenHash
  rw [hip, hsrc, hport]

/-- The slot of a SYN has its 4-tuple. -/
theorem pktKey_over {n : ℕ} (h : pktTcpSize ≤ n) : pktKey (p.over q n) = pktKey p := by
  rw [over_eq h]
  rfl

/-- Two listeners do not hold the same 4-tuple. -/
theorem BacklogInv.slots_apart (h : BacklogInv cfg t) (ht : TablesOk t)
    (hl : (t.listener l).live = true) (hl' : (t.listener l').live = true) {b' : BacklogSlot}
    (hb : b ∈ (t.listener l).backlog.slots) (hb' : b' ∈ (t.listener l').backlog.slots)
    (hkey : pktKey b.pkt = pktKey b'.pkt) : l = l' := by
  have hport : (t.listener l').port = (t.listener l).port := by
    rw [← (h.slot l hl b hb).2, ← (h.slot l' hl' b' hb').2]
    exact (FlowKey.mk.inj hkey).2.1.symm
  have hn := (ht.listens (t.listener l).port l).2 ⟨hl, rfl⟩
  have hn' := (ht.listens (t.listener l).port l').2 ⟨hl', hport⟩
  cases he : t.ports (t.listener l).port with
  | unused | conn =>
    rw [he] at hn
    exact hn.elim
  | listen l₀ =>
    rw [he] at hn hn'
    exact hn.symm.trans hn'
  | lmulti ls =>
    rw [he] at hn hn'
    obtain ⟨i, hi⟩ := mem_iff_getElem?.1 hn
    obtain ⟨j, hj⟩ := mem_iff_getElem?.1 hn'
    have hij : i = j := by
      rw [← h.hash _ ls he i l hi b hb, ← h.hash _ ls he j l' hj b' hb', listenHash_congr hkey]
    rw [hij, hj] at hi
    exact (Option.some.inj hi).symm

/-- Listeners keep their port, backlogs lose slots, and groups stay as they are. -/
structure Shrinks (t t' : ConnTables) : Prop where
  listener : ∀ l, (t'.listener l).live = true → (t.listener l).live = true ∧
    (t'.listener l).port = (t.listener l).port ∧
    (t'.listener l).backlog.slots.Sublist (t.listener l).backlog.slots
  ports : ∀ p ls, t'.ports p = .lmulti ls → t.ports p = .lmulti ls

theorem shrinks_of_eq (hl : t'.listener = t.listener) (hp : t'.ports = t.ports) : Shrinks t t' :=
  ⟨fun l h => by rw [hl] at h ⊢; exact ⟨h, rfl, List.Sublist.refl _⟩,
    fun p ls h => by rwa [hp] at h⟩

theorem BacklogInv.shrink (h : BacklogInv cfg t) (hs : Shrinks t t') (ht : TablesOk t') :
    BacklogInv cfg t' where
  slot l hl b hb := by
    obtain ⟨hl₀, hport, hsub⟩ := hs.listener l hl
    rw [hport]
    exact h.slot l hl₀ b (hsub.subset hb)
  nodup l hl := by
    obtain ⟨hl₀, -, hsub⟩ := hs.listener l hl
    exact (h.nodup l hl₀).sublist (hsub.map _)
  hash p ls hp i l hi b hb := by
    have hl : (t'.listener l).live = true := by
      refine ((ht.listens p l).1 ?_).1
      rw [hp]
      exact mem_of_getElem? hi
    exact h.hash p ls (hs.ports p ls hp) i l hi b ((hs.listener l hl).2.2.subset hb)

/-- The table loses connections, and the backlogs lose slots. -/
theorem TupleInv.shrink (h : TupleInv cfg t mem) (hs : Shrinks t t') (ht : TablesOk t')
    (hreg : ∀ d, t'.Registered d → t.Registered d ∧ (mem' d).key = (mem d).key) :
    TupleInv cfg t' mem' where
  backlog := h.backlog.shrink hs ht
  unique c d hc hd he := by
    obtain ⟨hc, hkc⟩ := hreg c hc
    obtain ⟨hd, hkd⟩ := hreg d hd
    rw [hkc, hkd] at he
    exact h.unique c d hc hd he
  apart l hl b hb c hc := by
    obtain ⟨hl₀, -, hsub⟩ := hs.listener l hl
    obtain ⟨hc, hk⟩ := hreg c hc
    rw [hk]
    exact h.apart l hl₀ b (hsub.subset hb) c hc

/-- A connection whose 4-tuple is new is entered into the table. -/
theorem TupleInv.enter (h : TupleInv cfg t mem) (hs : Shrinks t t') (ht : TablesOk t')
    (hreg : ∀ d, t'.Registered d → d ≠ c → t.Registered d ∧ (mem' d).key = (mem d).key)
    (hnew : ∀ d, t.Registered d → (mem d).key ≠ (mem' c).key)
    (hslots : ∀ l, (t'.listener l).live = true → ∀ b ∈ (t'.listener l).backlog.slots,
      (mem' c).key ≠ pktKey b.pkt) : TupleInv cfg t' mem' where
  backlog := h.backlog.shrink hs ht
  unique d e hd he heq := by
    by_cases hdc : d = c <;> by_cases hec : e = c
    · exact hdc.trans hec.symm
    · obtain ⟨he, hke⟩ := hreg e he hec
      exact (hnew e he (by rw [← hke, ← hdc]; exact heq.symm)).elim
    · obtain ⟨hd, hkd⟩ := hreg d hd hdc
      exact (hnew d hd (by rw [← hkd, ← hec]; exact heq)).elim
    · obtain ⟨hd, hkd⟩ := hreg d hd hdc
      obtain ⟨he, hke⟩ := hreg e he hec
      rw [hkd, hke] at heq
      exact h.unique d e hd he heq
  apart l hl b hb d hd := by
    by_cases hdc : d = c
    · subst hdc
      exact hslots l hl b hb
    · obtain ⟨hl₀, -, hsub⟩ := hs.listener l hl
      obtain ⟨hd, hk⟩ := hreg d hd hdc
      rw [hk]
      exact h.apart l hl₀ b (hsub.subset hb) d hd

/-! ### Requests -/

/-- A registered connection, or a listener, has an entry in the port table. -/
theorem SlowInv.port_in_use (h : s.Ok cfg) (hr : s.tables.Registered c) :
    s.ports (s.mem c).localPort ≠ .unused := by
  intro hu
  have hok := (h.placed c).reg hr
  cases ha : (s.mem c).core.active with
  | true => exact nomatch hu.symm.trans (hok.active ha)
  | false =>
    obtain ⟨l, hl⟩ := hok.passive ha
    change (s.ports (s.mem c).localPort).Listens l at hl
    rw [hu] at hl
    exact hl

theorem shrinks_setPort {p : U16} {e : Port} (he : ∀ ls, e ≠ .lmulti ls) :
    Shrinks s.tables (s.setPort p e).tables :=
  ⟨fun _ hl => ⟨hl, rfl, List.Sublist.refl _⟩,
    (forall_update_iff s.ports fun q e' => ∀ ls, e' = .lmulti ls → s.ports q = .lmulti ls).2
      ⟨fun ls hq => (he ls hq).elim, fun _ _ _ hq => hq⟩⟩

section

variable (h : s.Tuples cfg)
include h

/-- A new connection is entered, with a port that was not in use. -/
theorem tupleInv_newConn {z : Connection} (hi : s.Ok cfg) (hp : s.ports z.localPort = .unused)
    (hkey : (mem' c).key = z.key) (hmem : ∀ d, d ≠ c → mem' d = s.mem d) (ht : TablesOk t')
    (htable : t'.table = (connRegister cfg (s.setConn c z) c).table)
    (hlistener : t'.listener = s.listener)
    (hports : t'.ports = (s.setPort z.localPort (.conn c)).ports) : TupleInv cfg t' mem' := by
  have hset := shrinks_setPort (s := s) (p := z.localPort) (e := .conn c) nofun
  have hshrink : Shrinks s.tables t' := by
    refine ⟨fun l hl => ?_, fun q ls hq => hset.ports q ls ((congrFun hports q).symm.trans hq)⟩
    rw [hlistener] at hl ⊢
    exact ⟨hl, rfl, List.Sublist.refl _⟩
  refine h.enter (c := c) hshrink ht (fun d hd hdc => ?_) (fun d hd he => ?_) fun l hl b hb he => ?_
  · obtain ⟨k, hk⟩ := hd
    rw [htable] at hk
    refine ⟨registered_connRegister (s := s.setConn c z) ⟨k, hk⟩ hdc, ?_⟩
    rw [hmem d hdc]
  · -- nothing else has the local port
    refine hi.port_in_use hd ?_
    have hlp : (s.mem d).localPort = z.localPort := (FlowKey.mk.inj (he.trans hkey)).2.1
    rw [hlp]
    exact hp
  · rw [hlistener] at hl hb
    have hslot := (h.backlog.slot l hl b hb).2
    have hlisten := (hi.tables.listens _ l).2 ⟨hl, rfl⟩
    have hlp : z.localPort = b.pkt.portDst := (FlowKey.mk.inj (hkey.symm.trans he)).2.1
    rw [← hslot, ← hlp] at hlisten
    change (s.ports z.localPort).Listens l at hlisten
    rw [hp] at hlisten
    exact hlisten

theorem tupleInv_openAt {b : ConnBufs} {p : U16} (hi : s.Ok cfg) (hc : s.fresh c)
    (hp : s.ports p = .unused) : (openAt cfg s o c b route p).Tuples cfg := by
  have ht := (slowInv_openAt hi o b route hc hp).tables
  have hnot := ((hi.placed c).nowhere hc.2).1
  set x := (connAlloc cfg b true).openTo cfg o.ctx o.appOpaque o.remoteIp o.remotePort o.dbId p
    with hx
  cases route with
  | failed =>
    refine h.shrink (shrinks_of_eq rfl rfl) ht fun d hd => ⟨hd, ?_⟩
    have hdc : d ≠ c := fun he => hnot (he ▸ hd)
    exact congrArg Connection.key (update_of_ne hdc ..)
  | done mac =>
    have hself : (openAt cfg s o c b (.done mac) p).mem c =
        ({ x with remoteMac := mac }).arpDone cfg := update_self ..
    refine tupleInv_newConn (z := { x with remoteMac := mac }) h hi hp ?_ (fun d hd => ?_) ht rfl
      rfl rfl
    · rw [hself]
      rfl
    · exact (update_of_ne hd ..).trans (update_of_ne hd ..)
  | pending =>
    have hself : (openAt cfg s o c b .pending p).mem c = x := update_self ..
    refine tupleInv_newConn (z := x) h hi hp ?_ (fun d hd => ?_) ht rfl rfl rfl
    · rw [hself]
    · exact update_of_ne hd ..

theorem tupleInv_tcpOpen {b : ConnBufs} (hi : s.Ok cfg) (hc : s.fresh c)
    (hs : tcpOpen cfg s o c b route = .ok s') : s'.Tuples cfg := by
  obtain ⟨p, hp, rfl⟩ := tcpOpen_ok hs
  exact tupleInv_openAt (s := { s with portEphHint := portNext p }) h hi hc hp

/-- A new listener has an empty backlog, and those of its group have too. -/
theorem tupleInv_newListener {e : Port} (hempty : y.backlog.slots = [])
    (hgroup : ∀ ls, e = .lmulti ls → ∀ l' ∈ ls, l' ≠ l → (s.listener l').backlog.slots = []) :
    TupleInv cfg ((s.setListener l y).setPort y.port e).tables s.mem := by
  have hnone {P : BacklogSlot → Prop} : ∀ b ∈ y.backlog.slots, P b := by
    rw [hempty]
    exact forall_mem_nil P
  refine ⟨⟨?_, ?_, ?_⟩, h.unique, ?_⟩
  · exact (forall_update_iff s.listener fun _ x => x.live = true → ∀ b ∈ x.backlog.slots,
      b.pkt.ipDst = cfg.ip ∧ b.pkt.portDst = x.port).2
      ⟨fun _ => hnone, fun l' _ => h.backlog.slot l'⟩
  · refine (forall_update_iff s.listener fun _ x => x.live = true →
      (x.backlog.slots.map fun b : BacklogSlot => pktKey b.pkt).Nodup).2
      ⟨fun _ => ?_, fun l' _ => h.backlog.nodup l'⟩
    rw [hempty]
    exact nodup_nil
  · -- slots of the group are in the backlogs of the others
    have hslots {ls : List ℕ} {i : ℕ} : (∀ l' ≠ l, ls[i]? = some l' →
        ∀ b ∈ (s.listener l').backlog.slots, (listenHash b.pkt).toNat % ls.length = i) →
        ∀ l', ls[i]? = some l' → ∀ b ∈ (update s.listener l y l').backlog.slots,
          (listenHash b.pkt).toNat % ls.length = i := fun hold =>
      (forall_update_iff s.listener fun l' x => ls[i]? = some l' → ∀ b ∈ x.backlog.slots,
        (listenHash b.pkt).toNat % ls.length = i).2 ⟨fun _ => hnone, hold⟩
    refine (forall_update_iff s.ports fun _ e' => ∀ ls, e' = .lmulti ls → ∀ i l', ls[i]? = some l' →
      ∀ b ∈ (update s.listener l y l').backlog.slots, (listenHash b.pkt).toNat % ls.length = i).2
      ⟨fun ls hq i => hslots fun l' hne hi b hb => ?_,
        fun q _ ls hq i => hslots fun l' _ => h.backlog.hash q ls hq i l'⟩
    rw [hgroup ls hq l' (mem_of_getElem? hi) hne] at hb
    cases hb
  · exact (forall_update_iff s.listener fun _ x => x.live = true → ∀ b ∈ x.backlog.slots, ∀ c,
      s.tables.Registered c → (s.mem c).key ≠ pktKey b.pkt).2
      ⟨fun _ => hnone, fun l' _ => h.apart l'⟩

theorem tupleInv_tcpListen {ctx : ℕ} {op : U64} {p : U16} {reuse : Bool}
    (hidle : Orderly s (.listen ctx op p reuse l)) :
    (s.tcpListen ctx op p reuse l).Tuples cfg := by
  unfold tcpListen
  dsimp only
  split
  · exact tupleInv_newListener (y := newListener ctx op p _) h rfl fun ls he => by cases he
  · refine tupleInv_newListener (y := newListener ctx op p _) h rfl fun ls he l' hl' hne => ?_
    cases he
    exact (hne (mem_singleton.1 hl')).elim
  · rename_i ls hp
    split_ifs
    · exact h
    · refine tupleInv_newListener (y := newListener ctx op p _) h rfl fun ls' he l' hl' hne => ?_
      cases he
      rcases mem_append.1 hl' with hl' | hl'
      · exact hidle ls hp l' hl'
      · exact (hne (mem_singleton.1 hl')).elim
  · exact h

/-! ### Accepting -/

omit h in
/-- The listener `l` changes, and its backlog loses slots. -/
theorem shrinks_setListener (hlive : y.live = (s.listener l).live)
    (hport : y.port = (s.listener l).port)
    (hsub : y.backlog.slots.Sublist (s.listener l).backlog.slots) :
    Shrinks s.tables (s.setListener l y).tables :=
  ⟨(forall_update_iff s.listener fun l' x => x.live = true → (s.listener l').live = true ∧
    x.port = (s.listener l').port ∧ x.backlog.slots.Sublist (s.listener l').backlog.slots).2
      ⟨fun hl => ⟨hlive.symm.trans hl, hport, hsub⟩, fun _ _ hl => ⟨hl, rfl, List.Sublist.refl _⟩⟩,
    fun _ _ hp => hp⟩

/-- Only connections that are not in the table change. -/
theorem TupleInv.retouch {y : ConnCore} (hi : s'.Ok cfg) (hr : Retouch c s s' y)
    (hc : s.tables.Registered c → y.key = (s.mem c).key) : s'.Tuples cfg := by
  refine h.shrink (shrinks_of_eq ?_ ?_) hi.tables fun d hd => ?_
  · rw [hr.tables]
  · rw [hr.tables]
  · rw [hr.tables] at hd
    refine ⟨hd, ?_⟩
    by_cases hdc : d = c
    · subst hdc
      exact (congrArg ConnCore.key hr.self).trans (hc hd)
    · exact congrArg ConnCore.key (hr.other d hdc)

omit h in
theorem Shrinks.trans {t'' : ConnTables} (h : Shrinks t t') (h' : Shrinks t' t'') :
    Shrinks t t'' := by
  refine ⟨fun l hl => ?_, fun p ls hp => h.ports p ls (h'.ports p ls hp)⟩
  obtain ⟨hl', hport', hsub'⟩ := h'.listener l hl
  obtain ⟨hl, hport, hsub⟩ := h.listener l hl'
  exact ⟨hl, hport'.trans hport, hsub'.trans hsub⟩

omit h in
theorem shrinks_popBacklog : Shrinks s.tables (s.popBacklog l).tables :=
  shrinks_setListener rfl rfl (Backlog.slots_pop ▸ tail_sublist _)

/-- The slot that is taken names no connection and no other slot. -/
theorem tupleInv_acceptDone (hi : s.Ok cfg) (hi' : SlowInv cfg (acceptDone cfg s l c).tables s.mem)
    (hw : (s.listener l).waitConns = c :: ws) (hb : (s.listener l).backlog.slots = b :: bs)
    (hkey : (s.mem c).key = pktKey b.pkt) : TupleInv cfg (acceptDone cfg s l c).tables s.mem := by
  have hlive : (s.listener l).live = true := ((hi.placed c).wait l (waits_of_head hw)).listens
  have hmem : b ∈ (s.listener l).backlog.slots := by
    rw [hb]
    exact mem_cons_self
  have hpop : Shrinks s.tables (s.popWait l).tables :=
    shrinks_setListener rfl rfl (List.Sublist.refl _)
  have hshrink : Shrinks s.tables (acceptDone cfg s l c).tables := by
    refine hpop.trans (Shrinks.trans ?_ shrinks_popBacklog)
    exact shrinks_of_eq rfl rfl
  have hself : (acceptDone cfg s l c).tables.listener l =
      { (s.popWait l).listener l with backlog := ((s.popWait l).listener l).backlog.pop } :=
    update_self ..
  have hself' : (s.popWait l).listener l =
      { s.listener l with waitConns := (s.listener l).waitConns.tail } := update_self ..
  refine h.enter (c := c) hshrink hi'.tables (fun d hd hdc => ⟨?_, rfl⟩) (fun d hd he => ?_)
    fun l' hl' b' hb' he => ?_
  · exact registered_connRegister (s := s.popWait l) hd hdc
  · exact h.apart l hlive b hmem d hd (he.trans hkey)
  · obtain ⟨hl₀, -, hsub⟩ := hshrink.listener l' hl'
    have hsame : l = l' := h.backlog.slots_apart hi.tables hlive hl₀ hmem (hsub.subset hb')
      (hkey.symm.trans he)
    subst hsame
    have hnodup := h.backlog.nodup l hlive
    change ((s.listener l).backlog.slots.map fun b => pktKey b.pkt).Nodup at hnodup
    rw [hb, map_cons, nodup_cons] at hnodup
    rw [hself, hself', Backlog.slots_pop, hb] at hb'
    exact hnodup.1 (mem_map.2 ⟨b', hb', (hkey.symm.trans he).symm⟩)

theorem tupleInv_acceptSlot {ts : U32} (hi : s.Ok cfg)
    (hw : (s.listener l).waitConns = c :: ws) (hb : (s.listener l).backlog.slots = b :: bs)
    (hs : acceptSlot cfg s l c b ts = .ok s') : s'.Tuples cfg := by
  have hi' := slowInv_acceptSlot hi hw hs
  have hok := (hi.placed c).wait l (waits_of_head hw)
  obtain ⟨s₁, ok, hadd, rfl⟩ := acceptSlot_cases hs
  obtain ⟨hnic, hi₁⟩ := slowInv_acceptAdd hi hw hadd
  have h₁ : s₁.Tuples cfg := h.retouch hi₁ hnic fun hr => (hok.notReg hr).elim
  have hlistener : s₁.listener = s.listener := congrArg ConnTables.listener hnic.tables
  have hkey : (s₁.mem c).key = pktKey b.pkt := by
    have hself := congrArg ConnCore.key hnic.self
    have hslot := h.backlog.slot l hok.listens b (by
      change b ∈ (s.listener l).backlog.slots
      rw [hb]
      exact mem_cons_self)
    unfold pktKey
    rw [hslot.1, hslot.2]
    exact hself
  cases ok with
  | false => exact h₁.shrink shrinks_popBacklog hi'.tables fun d hd => ⟨hd, rfl⟩
  | true =>
    exact tupleInv_acceptDone h₁ hi₁ hi' (by rw [hlistener]; exact hw) (by rw [hlistener]; exact hb)
      hkey

theorem tupleInv_listenerAccept (hi : s.Ok cfg)
    (hs : listenerAccept cfg s l = .ok s') : s'.Tuples cfg := by
  have hi' := slowInv_listenerAccept hi hs
  obtain ⟨c, ws, b, bs, hw, hb, rfl | ⟨t, -, hslot⟩⟩ := listenerAccept_cases hs
  · exact h.shrink shrinks_popBacklog hi'.tables fun d hd => ⟨hd, rfl⟩
  · exact tupleInv_acceptSlot h hi hw hb hslot

theorem tupleInv_tcpAccept {a : AcceptArgs} {b : ConnBufs} (hi : s.Ok cfg)
    (hl : (s.listener l).live = true) (hc : s.fresh c) (hs : tcpAccept cfg s a l c b = .ok s') :
    s'.Tuples cfg := by
  have hnot := ((hi.placed c).nowhere hc.2).1
  have hpush := slowInv_enqueueAccept a b hi hl hc
  have h₁ : (enqueueAccept cfg s a l c b).Tuples cfg := by
    refine h.shrink (shrinks_setListener (s := s.setConn c _) rfl rfl (List.Sublist.refl _))
      hpush.tables fun d hd => ⟨hd, ?_⟩
    have hdc : d ≠ c := fun he => hnot (he ▸ hd)
    exact congrArg Connection.key (update_of_ne hdc ..)
  rcases tcpAccept_cases hs with rfl | hs
  · exact h₁
  · exact tupleInv_listenerAccept h₁ hpush hs

/-! ### Received SYNs -/

omit h in
/-- The 4-tuple of a packet that finds no connection is not in the table. -/
theorem connLookup_none (hi : s.Ok cfg) (h : connLookup cfg s p = none)
    (hr : s.tables.Registered c) : (s.mem c).key ≠ pktKey p := by
  intro hkey
  obtain ⟨k, hk⟩ := hr
  have hbucket : SlowPath.bucket cfg (s.mem c).key = k := (hi.placed c).bucket k hk
  have hmem : c ∈ s.table (SlowPath.bucket cfg (pktKey p)) := by
    rw [← hkey, hbucket]
    exact hk
  have hmiss := List.find?_eq_none.1 h c hmem
  obtain ⟨-, hport, hip, hsrc⟩ := FlowKey.mk.inj hkey
  exact hmiss (by simp [hits, hip, hport, hsrc])

omit h in
/-- The listener of a packet is that of its port, by its hash in a group. -/
theorem listenerLookup_some (ht : TablesOk s.tables) (h : s.listenerLookup p = some l) :
    (s.listener l).live = true ∧ (s.listener l).port = p.portDst ∧
      ∀ ls i, s.ports p.portDst = .lmulti ls → ls[i]? = some l →
        (listenHash p).toNat % ls.length = i := by
  unfold listenerLookup at h
  split at h
  · rename_i l₀ hp
    obtain rfl := Option.some.inj h
    have hl : (s.ports p.portDst).Listens l₀ := by
      rw [hp]
      rfl
    obtain ⟨hlive, hport⟩ := (ht.listens _ _).1 hl
    refine ⟨hlive, hport, fun ls i hls => ?_⟩
    rw [hp] at hls
    cases hls
  · rename_i ls hp
    have hl : (s.ports p.portDst).Listens l := by
      rw [hp]
      exact mem_of_getElem? h
    obtain ⟨hlive, hport⟩ := (ht.listens _ _).1 hl
    refine ⟨hlive, hport, fun ls' i hls hi => ?_⟩
    cases hp.symm.trans hls
    obtain ⟨hlt, heq⟩ := List.getElem?_eq_some_iff.1 h
    obtain ⟨hlt', heq'⟩ := List.getElem?_eq_some_iff.1 hi
    exact (List.Nodup.getElem_inj_iff (ht.group _ _ hp)).1 (heq.trans heq'.symm)
  · cases h

theorem tupleInv_pushBacklog {core : U32} {fg : U16} (hi : s.Ok cfg) (hip : p.ipDst = cfg.ip)
    (hc : connLookup cfg s p = none) (hl : s.listenerLookup p = some l) (hcopied : p.HeadersCopied)
    (hadmits : (s.listener l).backlog.admits p = true) :
    TupleInv cfg (s.pushBacklog l p core fg).tables s.mem := by
  obtain ⟨hlive, hport, hhash⟩ := listenerLookup_some hi.tables hl
  obtain ⟨-, hnew, hroom⟩ := Backlog.admits_iff.1 hadmits
  -- a slot is an old one, or the one that was added
  have hslot {P : BacklogSlot → Prop} (hold : ∀ b ∈ (s.listener l).backlog.slots, P b)
      (hb : P ((s.listener l).backlog.entry p core fg)) :
      ∀ b ∈ ((s.listener l).backlog.push p core fg).slots, P b := by
    rw [Backlog.slots_push hroom]
    exact forall_mem_append.2 ⟨hold, forall_mem_singleton.2 hb⟩
  have hkey : pktKey ((s.listener l).backlog.entry p core fg).pkt = pktKey p :=
    pktKey_over hcopied
  obtain ⟨hipDst, hportDst, -, -⟩ := FlowKey.mk.inj hkey
  refine ⟨⟨?_, ?_, fun q ls hq i => ?_⟩, h.unique, ?_⟩
  · exact (forall_update_iff s.listener fun _ x => x.live = true → ∀ b ∈ x.backlog.slots,
      b.pkt.ipDst = cfg.ip ∧ b.pkt.portDst = x.port).2
      ⟨fun _ => hslot (h.backlog.slot l hlive) ⟨hipDst.trans hip, hportDst.trans hport.symm⟩,
        fun l' _ => h.backlog.slot l'⟩
  · refine (forall_update_iff s.listener fun _ x => x.live = true →
      (x.backlog.slots.map fun b : BacklogSlot => pktKey b.pkt).Nodup).2
      ⟨fun _ => ?_, fun l' _ => h.backlog.nodup l'⟩
    change (((s.listener l).backlog.push p core fg).slots.map fun b => pktKey b.pkt).Nodup
    rw [Backlog.slots_push hroom, map_append]
    refine nodup_append.2 ⟨h.backlog.nodup l hlive, nodup_singleton _, ?_⟩
    rintro k hk k' hk' rfl
    obtain ⟨b', hb', hsame⟩ := mem_map.1 hk
    have hsame : pktKey b'.pkt = pktKey p := hsame.trans ((mem_singleton.1 hk').trans hkey)
    obtain ⟨h1, h2, h3, h4⟩ := FlowKey.mk.inj hsame
    have hdup := hnew b' hb'
    simp [sameTuple, h1, h2, h3, h4] at hdup
  · refine (forall_update_iff s.listener fun l' x => ls[i]? = some l' → ∀ b ∈ x.backlog.slots,
      (listenHash b.pkt).toNat % ls.length = i).2
      ⟨fun hl' => hslot (h.backlog.hash q ls hq i l hl') ?_,
        fun l' _ => h.backlog.hash q ls hq i l'⟩
    rw [listenHash_congr hkey]
    refine hhash ls i ?_ hl'
    -- the port of the group is that of the packet
    change s.ports q = .lmulti ls at hq
    have hlisten : (s.ports q).Listens l := by
      rw [hq]
      exact mem_of_getElem? hl'
    obtain rfl : (s.listener l).port = q := ((hi.tables.listens q l).1 hlisten).2
    rwa [← hport]
  · exact (forall_update_iff s.listener fun _ x => x.live = true → ∀ b ∈ x.backlog.slots, ∀ c,
      s.tables.Registered c → (s.mem c).key ≠ pktKey b.pkt).2
      ⟨fun _ => hslot (h.apart l hlive) fun d hd => by
          rw [hkey]
          exact connLookup_none hi hc hd,
        fun l' _ => h.apart l'⟩

theorem tupleInv_listenerPacket {ts : Option U32} {len : U16} {core : U32} {fg : U16} {room : Bool}
    (hi : s.Ok cfg) (hcopied : Orderly s (.packet p len core fg room)) (hip : p.ipDst = cfg.ip)
    (hc : connLookup cfg s p = none) (hl : s.listenerLookup p = some l)
    (hs : listenerPacket cfg s l p ts core fg = .ok s') : s'.Tuples cfg := by
  obtain rfl | rfl | ⟨hsyn, hadmits, hs⟩ := listenerPacket_cases hs
  · exact h
  · exact h
  have hpush : TupleInv cfg (s.pushBacklog l p core fg).tables s.mem :=
    tupleInv_pushBacklog h hi hip hc hl (hcopied hsyn) hadmits
  rcases hs with rfl | hs
  · exact hpush
  · exact tupleInv_listenerAccept hpush hi.setBacklog hs

/-! ### Steps that enter nothing -/

/-- Registered connections were so before, with the same 4-tuple, and no group is new. -/
theorem TupleInv.connOnly (hi' : s'.Ok cfg) (hs : ConnOnly cfg s e s') : s'.Tuples cfg := by
  obtain ⟨c, ha, hfate⟩ := hs
  have hports : ∀ p ls, s'.ports p = .lmulti ls → s.ports p = .lmulti ls := by
    cases hfate with
    | kept hp | failed hp => exact fun p ls he => hp ▸ he
    | freed hp =>
      intro p ls he
      obtain hp | ⟨-, hp⟩ := hp p
      · exact hp ▸ he
      · exact nomatch hp.symm.trans he
  refine h.shrink ⟨fun l hl => ?_, hports⟩ hi'.tables fun d hd => ⟨ha.registered d hd, ?_⟩
  · rw [show s'.tables.listener = s.tables.listener from ha.listener] at hl ⊢
    exact ⟨hl, rfl, List.Sublist.refl _⟩
  · by_cases hdc : d = c
    · subst hdc
      exact ha.key
    · exact congrArg ConnCore.key (ha.other d hdc)

/-! ### Runs -/

theorem tupleInv_step (hi : s.Ok cfg) (hidle : Orderly s e)
    (hstep : SlowStep cfg s e s') : s'.Tuples cfg := by
  have hkeep : ConnOnly cfg s e s' → s'.Tuples cfg := h.connOnly (slowInv_step hi hstep)
  obtain ⟨hen, hs⟩ := hstep
  cases e with
  | «open» o c b route => exact tupleInv_tcpOpen h hi hen hs
  | listen ctx op p reuse l =>
    cases hs
    exact tupleInv_tcpListen h hidle
  | accept a l c b => exact tupleInv_tcpAccept h hi hen.1 hen.2 hs
  | packet p len core fg room =>
    obtain rfl | ⟨ts, rfl⟩ | ⟨c, ts, hparse, hc, hs⟩ | ⟨l, ts, hip, hc, hl, hs⟩ :=
      tcpPacket_cases hs
    · exact h
    · exact h
    · exact hkeep (connOnly_connPacket hparse hc hs)
    · exact tupleInv_listenerPacket h hi hidle hip hc hl hs
  | resolved c mac status =>
    cases hs
    exact hkeep (connOnly_setConn rfl rfl (fun _ hr => hr) rfl rfl rfl rfl)
  | poll room => exact hkeep (connOnly_tcpPoll hs)
  | close fuel c => exact hkeep (connOnly_tcpClose hs)
  | timeout c room => exact hkeep (connOnly_tcpTimeout hs)
  | ccPoll n vm =>
    cases hs
    unfold SlowPath.Tuples
    rw [ccPollVm_tables.1, ccPollVm_tables.2]
    exact h
  | fast f fs =>
    cases hs
    exact h

end

theorem tupleInv_start (h : SlowStart s) : s.Tuples cfg := by
  have hdead : ∀ l, (s.tables.listener l).live = true → False := fun l hl =>
    absurd (Eq.trans (Eq.symm (h.listener l)) hl) (by decide)
  refine ⟨⟨fun l hl => (hdead l hl).elim, fun l hl => (hdead l hl).elim, fun p ls hp => ?_⟩,
    fun c d hc => ?_, fun l hl => (hdead l hl).elim⟩
  · exact absurd ((h.ports p).symm.trans hp) (by simp)
  · obtain ⟨k, hk⟩ := hc
    change c ∈ s.table k at hk
    rw [h.table k] at hk
    cases hk

theorem tupleInv_run {s₀ : SlowPath} (h₀ : SlowStart s₀) (h : SlowRun cfg Orderly s₀ s) :
    s.Tuples cfg :=
  h.invariant h₀ (tupleInv_start h₀) fun _ _ _ ih hi hidle hs => tupleInv_step ih hi hidle hs

/-- Local port, remote address and remote port. -/
def Connection.tuple (x : Connection) : U16 × U32 × U16 :=
  (x.localPort, x.outRemoteIp, x.remotePort)

/-- The same of a packet. -/
def TcpPacket.tuple (p : TcpPacket) : U16 × U32 × U16 := (p.portDst, p.ipSrc, p.portSrc)

theorem hits_iff {x : Connection} : hits p x = true ↔ x.tuple = p.tuple := by
  simp [hits, Connection.tuple, TcpPacket.tuple]
  tauto

theorem SlowInv.key_of_tuple (h : s.Ok cfg) (hc : s.tables.Registered c)
    (hd : s.tables.Registered d) (he : (s.mem c).tuple = (s.mem d).tuple) :
    (s.mem c).key = (s.mem d).key := by
  have hip : (s.mem c).outLocalIp = (s.mem d).outLocalIp :=
    ((h.placed c).reg hc).ip.trans ((h.placed d).reg hd).ip.symm
  obtain ⟨hport, hrest⟩ := Prod.mk.inj he
  obtain ⟨hrip, hrport⟩ := Prod.mk.inj hrest
  unfold Connection.key
  rw [hip, hport, hrip, hrport]

/-- One connection for each 4-tuple: the table holds no two with the same one, no backlog holds one
that is in the table, and a packet is handed to the only connection it fits, in whatever order the
chain is. -/
structure OneConn (cfg : SlowCfg) (s : SlowPath) : Prop where
  unique : ∀ h h' c d, c ∈ s.table h → d ∈ s.table h' → (s.mem c).tuple = (s.mem d).tuple → c = d
  apart : ∀ l b, (s.listener l).live = true → b ∈ (s.listener l).backlog.slots →
    ∀ h, ∀ c ∈ s.table h, (s.mem c).tuple ≠ b.pkt.tuple
  handed : ∀ (p : TcpPacket) (chain : List ℕ),
    chain.Perm (s.table (SlowPath.bucket cfg (pktKey p))) →
    (chain.find? fun c => hits p (s.mem c)) = connLookup cfg s p

/-- The only element that meets a test is found in any order. -/
theorem find?_perm {α : Type*} {f : α → Bool} {xs ys : List α} (h : xs.Perm ys)
    (hone : ∀ x ∈ ys, ∀ y ∈ ys, f x = true → f y = true → x = y) : xs.find? f = ys.find? f := by
  cases hx : xs.find? f with
  | none =>
    refine (List.find?_eq_none.2 fun y hy => ?_).symm
    exact List.find?_eq_none.1 hx y (h.mem_iff.2 hy)
  | some x =>
    have hmem := h.mem_iff.1 (mem_of_find?_eq_some hx)
    cases hy : ys.find? f with
    | none => exact (List.find?_eq_none.1 hy x hmem (List.find?_some hx)).elim
    | some y =>
      rw [hone x hmem y (mem_of_find?_eq_some hy) (List.find?_some hx) (List.find?_some hy)]

theorem TupleInv.oneConn (h : s.Tuples cfg) (hi : s.Ok cfg) : OneConn cfg s := by
  have hunique : ∀ h h' c d, c ∈ s.table h → d ∈ s.table h' →
      (s.mem c).tuple = (s.mem d).tuple → c = d := fun k k' c d hc hd he =>
    h.unique c d ⟨k, hc⟩ ⟨k', hd⟩ (hi.key_of_tuple ⟨k, hc⟩ ⟨k', hd⟩ he)
  refine ⟨hunique, fun l b hl hb k c hc he => ?_, fun p chain hperm => ?_⟩
  · refine h.apart l hl b hb c ⟨k, hc⟩ ?_
    have hip : (s.mem c).outLocalIp = b.pkt.ipDst :=
      (((hi.placed c).reg ⟨k, hc⟩).ip).trans (h.backlog.slot l hl b hb).1.symm
    obtain ⟨hport, hrest⟩ := Prod.mk.inj he
    obtain ⟨hrip, hrport⟩ := Prod.mk.inj hrest
    unfold Connection.key pktKey
    rw [hip, hport, hrip, hrport]
  · refine find?_perm hperm fun c hc d hd hcp hdp => hunique _ _ c d hc hd ?_
    rw [hits_iff.1 hcp, hits_iff.1 hdp]

/-- In every run in which listeners join a group only while its backlogs are empty, and in which the
headers of SYNs are copied, there is one connection for each 4-tuple. -/
theorem one_connection_per_tuple {s₀ s : SlowPath} (h₀ : SlowStart s₀)
    (h : SlowRun cfg Orderly s₀ s) : OneConn cfg s :=
  (tupleInv_run h₀ h).oneConn (slowInv_run h₀ h)

/-- The SYN that is sent twice. -/
def resentSyn : SlowEvent := .packet (controlPkt tcpSyn 1 80 true) 66 0 0 true

/-- A SYN in the backlog of the only listener of a group. -/
def groupOfOne : SlowPath :=
  (idleSlow.after plainCfg (.listen 0 0 80 true 21)).after plainCfg resentSyn

/-- The group grows, and the SYN is in a second backlog. -/
def groupOfTwo : SlowPath :=
  (groupOfOne.after plainCfg (.listen 0 0 80 true 22)).after plainCfg resentSyn

/-- One SYN is accepted. -/
def acceptedOnce : SlowPath := groupOfTwo.after plainCfg (.accept ⟨0, 0, 0⟩ 21 11 noBufs)

def acceptedTwice : SlowPath := acceptedOnce.after plainCfg (.accept ⟨0, 0, 0⟩ 22 12 noBufs)

/-- A SYN that is sent again after its group grew becomes a second connection. -/
theorem grown_group_doubles_connection :
    ∃ s₀ s, SlowStart s₀ ∧ SlowRun plainCfg (fun _ _ => True) s₀ s ∧ ¬ OneConn plainCfg s := by
  have hone : SlowRun plainCfg (fun _ _ => True) idleSlow groupOfOne :=
    (slowRun_refl.after (e := .listen 0 0 80 true 21) trivial (by decide +kernel)).after
      (e := resentSyn) trivial (by decide +kernel)
  have htwo : SlowRun plainCfg (fun _ _ => True) idleSlow groupOfTwo :=
    (hone.after (e := .listen 0 0 80 true 22) trivial (by decide +kernel)).after
      (e := resentSyn) trivial (by decide +kernel)
  have haccepted : SlowRun plainCfg (fun _ _ => True) idleSlow acceptedTwice :=
    (htwo.after (e := .accept ⟨0, 0, 0⟩ 21 11 noBufs) trivial (by decide +kernel)).after
      (e := .accept ⟨0, 0, 0⟩ 22 12 noBufs) trivial (by decide +kernel)
  refine ⟨idleSlow, acceptedTwice, slowStart_idle, haccepted, fun h => ?_⟩
  have htable : acceptedTwice.table 0 = [12, 11] := by decide +kernel
  have hsame : (acceptedTwice.mem 11).tuple = (acceptedTwice.mem 12).tuple := by decide +kernel
  have heq := h.unique 0 0 11 12 (by rw [htable]; decide) (by rw [htable]; decide) hsame
  cases heq

/-- The second listener joins before the SYN comes. -/
def acceptedAlone : SlowPath :=
  (((idleSlow.after plainCfg (.listen 0 0 80 true 21)).after plainCfg
    (.listen 0 0 80 true 22)).after plainCfg resentSyn).after plainCfg
    (.accept ⟨0, 0, 0⟩ 22 12 noBufs)

theorem acceptedAlone_oneConn :
    SlowRun plainCfg Orderly idleSlow acceptedAlone ∧ acceptedAlone.table 0 = [12] ∧
      OneConn plainCfg acceptedAlone := by
  have hrun : SlowRun plainCfg Orderly idleSlow acceptedAlone :=
    (((slowRun_refl.after (e := .listen 0 0 80 true 21) (fun ls hls => nomatch hls)
      (by decide +kernel)).after (e := .listen 0 0 80 true 22)
      (fun ls hls l hl => by
        cases hls
        obtain rfl := mem_singleton.1 hl
        rfl) (by decide +kernel)).after (e := resentSyn) (fun _ => by decide)
      (by decide +kernel)).after (e := .accept ⟨0, 0, 0⟩ 22 12 noBufs) trivial (by decide +kernel)
  exact ⟨hrun, by decide +kernel, one_connection_per_tuple slowStart_idle hrun⟩

end Tas
