import Tas.SlowSteps

/-! Where the slow path keeps its connections: in the hash table, waiting for a SYN, or in a queue.
What the tables say of a connection holds in every run. -/
namespace Tas

open Outcome SlowPath Function List

/-- The tables that place a connection. -/
structure ConnTables where
  table : ℕ → List ℕ
  listener : ℕ → Listener
  asyncQ : List ℕ
  resolving : List ℕ
  ports : U16 → Port

def SlowPath.tables (s : SlowPath) : ConnTables :=
  ⟨s.table, s.listener, s.asyncQ, s.resolving, s.ports⟩

/-- What the tables depend on in a connection. -/
structure ConnCore where
  key : FlowKey
  live : Bool
  active : Bool
  status : ConnState
  toArmed : Bool
  toType : ConnTimer

def Connection.core (x : Connection) : ConnCore :=
  ⟨x.key, x.live, x.active, x.status, x.toArmed, x.toType⟩

/-- The entry names the listener. -/
def Port.Listens : Port → ℕ → Prop
  | .listen l', l => l' = l
  | .lmulti ls, l => l ∈ ls
  | _, _ => False

namespace ConnTables

def Registered (t : ConnTables) (c : ℕ) : Prop := ∃ h, c ∈ t.table h

def queue (t : ConnTables) : List ℕ := t.asyncQ ++ t.resolving

def Waits (t : ConnTables) (l c : ℕ) : Prop := c ∈ (t.listener l).waitConns

end ConnTables

/-- The states of a connection that is in the hash table. -/
def ConnState.InTable : ConnState → Bool → Prop
  | .arpPending, active | .synSent, active => active = true
  | .regSynack, active => active = false
  | .opened, _ | .closed, _ => True
  | _, _ => False

/-- What holds of a connection in the hash table. -/
structure RegOk (cfg : SlowCfg) (ports : U16 → Port) (c : ℕ) (x : ConnCore) : Prop where
  live : x.live = true
  ip : x.key.localIp = cfg.ip
  status : x.status.InTable x.active
  active : x.active = true → ports x.key.localPort = .conn c
  passive : x.active = false → ∃ l, (ports x.key.localPort).Listens l

/-- What holds of a connection that waits for a SYN. -/
structure WaitOk (t : ConnTables) (l c : ℕ) (x : ConnCore) : Prop where
  live : x.live = true
  notReg : ¬ t.Registered c
  passive : x.active = false
  unarmed : x.toArmed = false
  status : x.status = .synWait ∨ x.status = .regSynack
  port : x.key.localPort = (t.listener l).port
  listens : (t.listener l).live = true

/-- The tables agree with a connection. -/
structure Placed (cfg : SlowCfg) (t : ConnTables) (c : ℕ) (x : ConnCore) : Prop where
  bucket : ∀ h, c ∈ t.table h → bucket cfg x.key = h
  reg : t.Registered c → RegOk cfg t.ports c x
  wait : ∀ l, t.Waits l c → WaitOk t l c x
  queued : c ∈ t.queue → t.Registered c ∧ x.toArmed = false ∧
    (x.status = .arpPending ∨ x.status = .regSynack)
  armed : x.live = true → x.toArmed = true → t.Registered c ∧
    (x.status = .synSent ∧ x.toType = .handshake ∨ x.status = .closed ∧ x.toType = .closed)
  opened : x.live = true → x.status = .opened → t.Registered c
  nonnull : x.live = true → c ≠ 0

structure TablesOk (t : ConnTables) : Prop where
  nodup : ∀ h, (t.table h).Nodup
  queue : t.queue.Nodup
  waitNodup : ∀ l, (t.listener l).waitConns.Nodup
  waitApart : ∀ l l' c, t.Waits l c → t.Waits l' c → l = l'
  listens : ∀ p l, (t.ports p).Listens l ↔ (t.listener l).live = true ∧ (t.listener l).port = p
  group : ∀ p ls, t.ports p = .lmulti ls → ls.Nodup

structure SlowInv (cfg : SlowCfg) (t : ConnTables) (mem : ℕ → Connection) : Prop where
  tables : TablesOk t
  placed : ∀ c, Placed cfg t c (mem c).core

/-- The invariant in a state. -/
abbrev SlowPath.Ok (s : SlowPath) (cfg : SlowCfg) : Prop := SlowInv cfg s.tables s.mem

variable {cfg : SlowCfg} {t t' : ConnTables} {c d l : ℕ} {x y : ConnCore} {s s' : SlowPath}
  {mem : ℕ → Connection} {f : ℕ → List ℕ} {fuel i k : ℕ} {q r ws : List ℕ} {ports : U16 → Port}
  {s₁ s₂ : SlowPath} {ls core : U32} {ok room : Bool} {b : BacklogSlot} {z : Connection}
  {p : TcpPacket} {ts : Option U32} {len fg : U16}

/-! ### Connections that are not touched -/

/-- What a waiting connection depends on is as before. -/
theorem WaitOk.congr (h : WaitOk t l c x) (hreg : t'.Registered c → t.Registered c)
    (hport : (t'.listener l).port = (t.listener l).port)
    (hlive : (t'.listener l).live = (t.listener l).live) : WaitOk t' l c x :=
  ⟨h.live, fun hr => h.notReg (hreg hr), h.passive, h.unarmed, h.status, h.port.trans hport.symm,
    hlive.trans h.listens⟩

theorem Placed.frame (h : Placed cfg t c x) (htable : ∀ k, c ∈ t'.table k ↔ c ∈ t.table k)
    (hwait : ∀ l, t'.Waits l c → WaitOk t' l c x) (hqueue : c ∈ t'.queue → c ∈ t.queue)
    (hconn : t.Registered c → t.ports x.key.localPort = .conn c →
      t'.ports x.key.localPort = .conn c) (hports : (∃ l, (t.ports x.key.localPort).Listens l) →
      ∃ l, (t'.ports x.key.localPort).Listens l) : Placed cfg t' c x := by
  have hreg : t'.Registered c ↔ t.Registered c := exists_congr htable
  refine ⟨fun k hk => h.bucket k ((htable k).1 hk), fun hr => ?_, hwait, fun hq => ?_,
    fun hl ha => ?_, fun hl ho => hreg.2 (h.opened hl ho), h.nonnull⟩
  · have hr := hreg.1 hr
    have hok := h.reg hr
    exact ⟨hok.live, hok.ip, hok.status, fun ha => hconn hr (hok.active ha),
      fun hp => hports (hok.passive hp)⟩
  · obtain ⟨hr, hrest⟩ := h.queued (hqueue hq)
    exact ⟨hreg.2 hr, hrest⟩
  · obtain ⟨hr, hrest⟩ := h.armed hl ha
    exact ⟨hreg.2 hr, hrest⟩

/-- Nothing but the hash table changes, and not for this connection. -/
theorem Placed.of_table (h : Placed cfg t c x) {table : ℕ → List ℕ}
    (htable : ∀ k, c ∈ table k ↔ c ∈ t.table k) : Placed cfg { t with table := table } c x :=
  h.frame htable (fun l hw => (h.wait l hw).congr (exists_congr htable).1 rfl rfl) (fun hq => hq)
    (fun _ he => he) fun he => he

/-- A connection that is not live is nowhere. -/
theorem Placed.nowhere (h : Placed cfg t c x) (hdead : x.live = false) :
    ¬ t.Registered c ∧ (∀ l, ¬ t.Waits l c) ∧ c ∉ t.queue := by
  have hne : x.live ≠ true := by simp [hdead]
  have hreg : ¬ t.Registered c := fun hr => hne (h.reg hr).live
  exact ⟨hreg, fun l hw => hne (h.wait l hw).live, fun hq => hreg (h.queued hq).1⟩

/-- What the tables do not name they agree with, as long as it has no timer. -/
theorem placed_nowhere (hreg : ¬ t.Registered c) (hwait : ∀ l, ¬ t.Waits l c) (hq : c ∉ t.queue)
    (harm : x.live = true → x.toArmed = false ∧ x.status ≠ .opened)
    (hnull : x.live = true → c ≠ 0) : Placed cfg t c x where
  bucket h hh := (hreg ⟨h, hh⟩).elim
  reg hr := (hreg hr).elim
  wait l hw := (hwait l hw).elim
  queued h := (hq h).elim
  armed hl ha := by simp [(harm hl).1] at ha
  opened hl ho := ((harm hl).2 ho).elim
  nonnull := hnull

theorem SlowInv.setConn (h : SlowInv cfg t mem) (hz : Placed cfg t c z.core) :
    SlowInv cfg t (update mem c z) :=
  ⟨h.tables, (forall_update_iff mem fun d y => Placed cfg t d y.core).2
    ⟨hz, fun d _ => h.placed d⟩⟩

/-- A change that the tables do not depend on. -/
theorem SlowInv.setConn_core (h : SlowInv cfg t mem)
    (hz : z.core = (mem c).core) : SlowInv cfg t (update mem c z) :=
  h.setConn (hz ▸ h.placed c)

/-- The status or the timer of a registered connection changes. -/
theorem Placed.restate (h : Placed cfg t c x) (hr : t.Registered c) (hkey : y.key = x.key)
    (hlive : y.live = x.live) (hactive : y.active = x.active) (hstatus : y.status.InTable y.active)
    (hqueue : c ∈ t.queue → y.toArmed = false ∧ (y.status = .arpPending ∨ y.status = .regSynack))
    (harm : y.toArmed = true →
      y.status = .synSent ∧ y.toType = .handshake ∨ y.status = .closed ∧ y.toType = .closed) :
    Placed cfg t c y := by
  have hok := h.reg hr
  refine ⟨fun k hk => hkey ▸ h.bucket k hk, fun _ => ⟨hlive.trans hok.live, ?_, hstatus, ?_, ?_⟩,
    fun l hw => ((h.wait l hw).notReg hr).elim, fun hq => ⟨hr, hqueue hq⟩,
    fun _ ha => ⟨hr, harm ha⟩, fun _ _ => hr, fun hl => h.nonnull (hlive ▸ hl)⟩
  · rw [hkey]
    exact hok.ip
  · intro ha
    rw [hkey]
    exact hok.active (hactive ▸ ha)
  · intro hp
    rw [hkey]
    exact hok.passive (hactive ▸ hp)

/-! ### The hash table -/

theorem mem_update_cons : d ∈ update f i (c :: f i) k ↔ (d = c ∧ k = i) ∨ d ∈ f k := by
  by_cases hk : k = i
  · subst hk
    simp
  · simp [hk]

theorem mem_update_erase (hnodup : (f i).Nodup) :
    d ∈ update f i ((f i).erase c) k ↔ d ∈ f k ∧ ¬ (d = c ∧ k = i) := by
  by_cases hk : k = i
  · subst hk
    rw [update_self, hnodup.mem_erase_iff]
    tauto
  · simp [hk]

theorem registered_connRegister (h : (connRegister cfg s c).tables.Registered d) (hd : d ≠ c) :
    s.tables.Registered d := by
  obtain ⟨k, hk⟩ := h
  rcases mem_update_cons.1 hk with ⟨hc, -⟩ | hk
  · exact (hd hc).elim
  · exact ⟨k, hk⟩

theorem registered_connUnregister (hu : connUnregister cfg s c = .ok s')
    (h : s'.tables.Registered d) : s.tables.Registered d := by
  obtain ⟨-, rfl⟩ := connUnregister_ok hu
  obtain ⟨k, hk⟩ := h
  exact ⟨k, (forall_update_iff s.table fun k xs => d ∈ xs → d ∈ s.table k).2
    ⟨mem_of_mem_erase, fun _ _ hd => hd⟩ k hk⟩

theorem mem_connRegister : (connRegister cfg s c).tables.Registered c :=
  ⟨_, mem_update_cons.2 (.inl ⟨rfl, rfl⟩)⟩

/-- A connection that is not in the table is entered. -/
theorem SlowInv.register (h : s.Ok cfg) (hreg : ¬ s.tables.Registered c)
    (hwait : ∀ l, ¬ s.tables.Waits l c) (hnull : c ≠ 0) (hok : RegOk cfg s.ports c (s.mem c).core)
    (harm : (s.mem c).toArmed = true → (s.mem c).status = .synSent ∧
    (s.mem c).toType = .handshake) :
    (connRegister cfg s c).Ok cfg := by
  have hmem : ∀ k d, d ∈ (connRegister cfg s c).tables.table k ↔
      (d = c ∧ k = SlowPath.bucket cfg (s.mem c).key) ∨ d ∈ s.tables.table k :=
    fun k d => mem_update_cons
  have hnodup : ∀ k, ((connRegister cfg s c).table k).Nodup :=
    (forall_update_iff s.table fun _ xs => xs.Nodup).2
      ⟨nodup_cons.2 ⟨fun hc => hreg ⟨_, hc⟩, h.tables.nodup _⟩, fun k _ => h.tables.nodup k⟩
  refine ⟨⟨hnodup, h.tables.queue, h.tables.waitNodup, h.tables.waitApart, h.tables.listens,
    h.tables.group⟩, fun d => ?_⟩
  by_cases hd : d = c
  · subst hd
    refine ⟨fun k hk => ?_, fun _ => hok, fun l hw => (hwait l hw).elim,
      fun hq => (hreg ((h.placed d).queued hq).1).elim,
      fun _ ha => ⟨mem_connRegister, .inl (harm ha)⟩, fun _ _ => mem_connRegister, fun _ => hnull⟩
    rcases (hmem k d).1 hk with ⟨-, rfl⟩ | hk
    · rfl
    · exact (hreg ⟨k, hk⟩).elim
  · exact (h.placed d).of_table fun k => (hmem k d).trans (by simp [hd])

/-- A connection is taken out of the table, and has no timer and is in no queue from then on. -/
theorem SlowInv.unregister (h : s.Ok cfg) (hu : connUnregister cfg s c = .ok s')
    (hq : c ∉ s.tables.queue) (hz : z.live = true → z.toArmed = false ∧ z.status ≠ .opened) :
    SlowInv cfg s'.tables (update s'.mem c z) ∧ ¬ s'.tables.Registered c := by
  obtain ⟨hc, rfl⟩ := connUnregister_ok hu
  set k₀ := SlowPath.bucket cfg (s.mem c).key with hk₀
  have hmem : ∀ k d, d ∈ update s.table k₀ ((s.table k₀).erase c) k ↔
      d ∈ s.table k ∧ ¬ (d = c ∧ k = k₀) := fun k d => mem_update_erase (h.tables.nodup _)
  have hplaced := h.placed c
  have hreg : s.tables.Registered c := ⟨_, hc⟩
  have hnot : ∀ k, c ∉ update s.table k₀ ((s.table k₀).erase c) k := by
    intro k hk
    obtain ⟨hk, hne⟩ := (hmem k c).1 hk
    exact hne ⟨rfl, (hplaced.bucket k hk).symm⟩
  have hnodup : ∀ k, (update s.table k₀ ((s.table k₀).erase c) k).Nodup :=
    (forall_update_iff s.table fun _ xs => xs.Nodup).2
      ⟨(h.tables.nodup _).erase c, fun k _ => h.tables.nodup k⟩
  refine ⟨⟨⟨hnodup, h.tables.queue, h.tables.waitNodup, h.tables.waitApart, h.tables.listens,
    h.tables.group⟩, (forall_update_iff s.mem fun d y => Placed cfg _ d y.core).2
      ⟨?_, fun d hd => ?_⟩⟩, fun ⟨k, hk⟩ => hnot k hk⟩
  · exact placed_nowhere (fun ⟨k, hk⟩ => hnot k hk)
      (fun l hw => (hplaced.wait l hw).notReg hreg) hq hz
      fun _ => hplaced.nonnull (hplaced.reg hreg).live
  · exact (h.placed d).of_table fun k => (hmem k d).trans (by simp [hd, SlowPath.tables])

/-! ### Queues, ports and listeners -/

theorem SlowInv.setQueue (h : s.Ok cfg) (hnodup : (q ++ r).Nodup)
    (hok : ∀ d ∈ q ++ r, s.tables.Registered d ∧ (s.mem d).toArmed = false ∧
      ((s.mem d).status = .arpPending ∨ (s.mem d).status = .regSynack)) :
    SlowInv cfg { s with asyncQ := q, resolving := r }.tables s.mem where
  tables := ⟨h.tables.nodup, hnodup, h.tables.waitNodup, h.tables.waitApart, h.tables.listens,
    h.tables.group⟩
  placed d :=
    have hd := h.placed d
    ⟨hd.bucket, hd.reg, fun l hw => (hd.wait l hw).congr (fun hr => hr) rfl rfl, hok d, hd.armed,
      hd.opened, hd.nonnull⟩

/-- The queues lose elements or are reordered. -/
theorem SlowInv.requeue (h : s.Ok cfg) (hsub : (q ++ r).Subperm (s.asyncQ ++ s.resolving)) :
    SlowInv cfg { s with asyncQ := q, resolving := r }.tables s.mem := by
  refine h.setQueue ?_ fun d hd => (h.placed d).queued (hsub.subset hd)
  obtain ⟨ds, hperm, hds⟩ := hsub
  exact hperm.nodup_iff.1 (h.tables.queue.sublist hds)

theorem listens_update {p q : U16} {e : Port} (hold : ¬ (ports p).Listens l)
    (hnew : ¬ e.Listens l) : (update ports p e q).Listens l ↔ (ports q).Listens l := by
  by_cases hq : q = p
  · subst hq
    rw [update_self]
    exact iff_of_false hnew hold
  · rw [update_of_ne hq]

/-- A port that no registered connection owns gets an entry that is no listener. -/
theorem SlowInv.setPort {p : U16} {e : Port} (h : s.Ok cfg) (hold : ∀ l, ¬ (s.ports p).Listens l)
    (hnew : ∀ l, ¬ e.Listens l) (hconn : ∀ d, s.tables.Registered d → s.ports p ≠ .conn d) :
    SlowInv cfg (s.setPort p e).tables s.mem where
  tables := by
    refine ⟨h.tables.nodup, h.tables.queue, h.tables.waitNodup, h.tables.waitApart, fun q l => ?_,
      (forall_update_iff s.ports fun _ e => ∀ ls, e = .lmulti ls → ls.Nodup).2
        ⟨fun ls he => ?_, fun q _ => h.tables.group q⟩⟩
    · exact (listens_update (hold l) (hnew l)).trans (h.tables.listens q l)
    · have hnil : ls = [] :=
        eq_nil_iff_forall_not_mem.2 fun l hl => hnew l (by rw [he]; exact hl)
      rw [hnil]
      exact nodup_nil
  placed d := by
    refine (h.placed d).frame (fun _ => Iff.rfl)
      (fun l hw => ((h.placed d).wait l hw).congr (fun hr => hr) rfl rfl) (fun hq => hq)
      (fun hr he => ?_) fun ⟨l, hl⟩ => ⟨l, (listens_update (hold l) (hnew l)).2 hl⟩
    have hne : (s.mem d).core.key.localPort ≠ p := by
      rintro rfl
      exact hconn d hr he
    exact (update_of_ne hne _ _).trans he

/-- The listener `l` becomes `y`, and the port table changes with it. -/
theorem SlowInv.relisten {y : Listener} (h : s.Ok cfg) (hnodup : y.waitConns.Nodup)
    (hwait : ∀ c ∈ y.waitConns, WaitOk s.tables l c (s.mem c).core ∧
      (∀ l', s.tables.Waits l' c → l' = l) ∧ y.port = (s.listener l).port ∧
      y.live = (s.listener l).live) (hlistens : ∀ l' p, (ports p).Listens l' ↔
      (update s.listener l y l').live = true ∧ (update s.listener l y l').port = p)
    (hgroup : ∀ p ls, ports p = .lmulti ls → ls.Nodup)
    (hconn : ∀ p d, s.ports p = .conn d → ports p = .conn d)
    (hports : ∀ p l', (s.ports p).Listens l' → (ports p).Listens l') :
    SlowInv cfg { s.setListener l y with ports := ports }.tables s.mem := by
  -- who waits at `l` is in the new list, and the others are as before
  have hcases : ∀ l' c, c ∈ (update s.listener l y l').waitConns →
      (l' = l ∧ c ∈ y.waitConns) ∨ (l' ≠ l ∧ s.tables.Waits l' c) :=
    fun l' c => (forall_update_iff s.listener fun l' x => c ∈ x.waitConns →
      (l' = l ∧ c ∈ y.waitConns) ∨ (l' ≠ l ∧ s.tables.Waits l' c)).2
      ⟨fun hc => .inl ⟨rfl, hc⟩, fun _ hl' hc => .inr ⟨hl', hc⟩⟩ l'
  refine ⟨⟨h.tables.nodup, h.tables.queue, ?_, fun l₁ l₂ c h₁ h₂ => ?_, fun p l' => hlistens l' p,
    hgroup⟩, fun c => (h.placed c).frame (fun _ => Iff.rfl) (fun l' hw => ?_) (fun hq => hq)
      (fun _ => hconn _ c) fun ⟨l', hl'⟩ => ⟨l', hports _ l' hl'⟩⟩
  · exact (forall_update_iff s.listener fun _ x => x.waitConns.Nodup).2
      ⟨hnodup, fun l' _ => h.tables.waitNodup l'⟩
  · rcases hcases l₁ c h₁ with ⟨e₁, w₁⟩ | ⟨e₁, w₁⟩ <;>
      rcases hcases l₂ c h₂ with ⟨e₂, w₂⟩ | ⟨e₂, w₂⟩
    · exact e₁.trans e₂.symm
    · exact (e₂ ((hwait c w₁).2.1 l₂ w₂)).elim
    · exact (e₁ ((hwait c w₂).2.1 l₁ w₁)).elim
    · exact h.tables.waitApart l₁ l₂ c w₁ w₂
  · rcases hcases l' c hw with ⟨rfl, hy⟩ | ⟨hne, hy⟩
    · obtain ⟨hok, -, hport, hlive⟩ := hwait c hy
      have hself : update s.listener l' y l' = y := update_self ..
      exact hok.congr (fun hr => hr) ((congrArg Listener.port hself).trans hport)
        ((congrArg Listener.live hself).trans hlive)
    · have hother : update s.listener l y l' = s.listener l' := update_of_ne hne ..
      exact ((h.placed c).wait l' hy).congr (fun hr => hr) (congrArg Listener.port hother)
        (congrArg Listener.live hother)

/-- The backlog or the waiting connections of a listener change. -/
theorem SlowInv.setListener {y : Listener} (h : s.Ok cfg) (hport : y.port = (s.listener l).port)
    (hlive : y.live = (s.listener l).live) (hnodup : y.waitConns.Nodup)
    (hwait : ∀ c ∈ y.waitConns, WaitOk s.tables l c (s.mem c).core ∧
      ∀ l', s.tables.Waits l' c → l' = l) : SlowInv cfg (s.setListener l y).tables s.mem := by
  refine h.relisten hnodup (fun c hc => ⟨(hwait c hc).1, (hwait c hc).2, hport, hlive⟩)
    ((forall_update_iff s.listener fun l' x => ∀ p, (s.ports p).Listens l' ↔
      x.live = true ∧ x.port = p).2 ⟨fun p => ?_, fun l' _ p => h.tables.listens p l'⟩)
    h.tables.group (fun _ _ he => he) fun _ _ hl => hl
  rw [hport, hlive]
  exact h.tables.listens p l

/-- The backlog does not place connections. -/
theorem SlowInv.setBacklog {r : Backlog} (h : s.Ok cfg) :
    SlowInv cfg (s.setListener l { s.listener l with backlog := r }).tables s.mem :=
  h.setListener rfl rfl (h.tables.waitNodup l) fun c hc =>
    ⟨(h.placed c).wait l hc, fun l' hw => h.tables.waitApart l' l c hw hc⟩

/-- A waiting connection changes and still waits. -/
theorem Placed.rewait (h : Placed cfg t c x) (hw : t.Waits l c) (hlive : y.live = x.live)
    (hactive : y.active = x.active) (harm : y.toArmed = x.toArmed)
    (hstatus : y.status = .synWait ∨ y.status = .regSynack)
    (hport : y.key.localPort = (t.listener l).port)
    (hapart : ∀ l', t.Waits l' c → l' = l) : Placed cfg t c y := by
  have hok := h.wait l hw
  have hunarmed : y.toArmed = false := harm.trans hok.unarmed
  refine ⟨fun k hk => (hok.notReg ⟨k, hk⟩).elim, fun hr => (hok.notReg hr).elim, fun l' hw' => ?_,
    fun hq => (hok.notReg (h.queued hq).1).elim, fun _ ha => by simp [hunarmed] at ha,
    fun _ ho => by simp [ho] at hstatus, fun hl => h.nonnull (hlive ▸ hl)⟩
  obtain rfl := hapart l' hw'
  exact ⟨hlive.trans hok.live, hok.notReg, hactive.trans hok.passive, hunarmed, hstatus, hport,
    hok.listens⟩

/-! ### Changes to one connection -/

/-- Tables and other connections are as before, and `c` is `y` as far as the tables go. -/
structure Retouch (c : ℕ) (s s' : SlowPath) (y : ConnCore) : Prop where
  tables : s'.tables = s.tables
  self : (s'.mem c).core = y
  other : ∀ d, d ≠ c → (s'.mem d).core = (s.mem d).core

theorem retouch_setConn : Retouch c s (s.setConn c z) z.core :=
  ⟨rfl, congrArg Connection.core (update_self ..),
    fun _ hd => congrArg Connection.core (update_of_ne hd ..)⟩

theorem Retouch.trans (h : Retouch c s s₁ x) (h' : Retouch c s₁ s₂ y) : Retouch c s s₂ y :=
  ⟨h'.tables.trans h.tables, h'.self, fun d hd => (h'.other d hd).trans (h.other d hd)⟩

/-- The rest of the state is no matter. -/
theorem Retouch.congr (h : Retouch c s s₁ x) (ht : s₂.tables = s₁.tables)
    (hm : s₂.mem = s₁.mem) : Retouch c s s₂ x :=
  ⟨ht.trans h.tables, by rw [hm]; exact h.self, fun d hd => by rw [hm]; exact h.other d hd⟩

theorem SlowInv.retouch (h : s.Ok cfg) (hr : Retouch c s s' y)
    (hy : Placed cfg s.tables c y) : s'.Ok cfg := by
  unfold SlowPath.Ok
  rw [hr.tables]
  refine ⟨h.tables, fun d => ?_⟩
  by_cases hd : d = c
  · subst hd
    rwa [hr.self]
  · rw [hr.other d hd]
    exact h.placed d

theorem retouch_ccConnInit (cfg : SlowCfg) : Retouch c s (ccConnInit cfg s c) (s.mem c).core :=
  (retouch_setConn (z := { s.mem c with
    ccNext := s.ccConns (cfg.vmOf (s.mem c).ctx)
    ccRate := cfg.ccRate
    ccListed := true })).congr rfl rfl

theorem retouch_nicAdd (h : nicAdd cfg s c ls = .ok (s', ok)) : Retouch c s s' (s.mem c).core := by
  rcases nicAdd_cases h with ⟨-, τ, -, rfl⟩ | ⟨-, τ, f, -, rfl⟩
  · exact ⟨rfl, rfl, fun _ _ => rfl⟩
  · exact (retouch_setConn (z := { s.mem c with
      flowId := f
      installed := some ((s.mem c).args cfg ls) })).congr rfl rfl

theorem retouch_establishInit (cfg : SlowCfg) (s : SlowPath) (c : ℕ) (p : TcpPacket) (ts : U32) :
    Retouch c s (establishInit cfg s c p ts) (s.mem c).core := by
  have hacked : Retouch c s (s.setConn c ((s.mem c).synAcked p ts)) (s.mem c).core :=
    retouch_setConn
  have hinit := hacked.trans (retouch_ccConnInit cfg)
  rwa [hacked.self] at hinit

theorem retouch_establish {ts : U32} (h : establish cfg s c p ts = .ok (s', ok)) :
    Retouch c s s' { (s.mem c).core with
      status := if ok then .opened else (s.mem c).core.status } := by
  obtain ⟨s₁, hadd, rfl⟩ := establish_cases h
  have hinit := retouch_establishInit cfg s c p ts
  have hnic := hinit.trans (retouch_nicAdd hadd)
  rw [hinit.self] at hnic
  cases ok with
  | false => exact hnic
  | true =>
    have hopen := hnic.trans (retouch_setConn (z := { s₁.mem c with status := .opened }))
    have hcore : { s₁.mem c with status := .opened }.core =
        { (s.mem c).core with status := .opened } := by
      rw [← hnic.self]
      rfl
    rw [hcore] at hopen
    exact hopen.congr rfl rfl

theorem retouch_connSynSentPacket (h : connSynSentPacket cfg s c p ts = .ok (s', ok)) :
    Retouch c s s' { (s.mem c).core with
      toArmed := false
      status := if ok then .opened else (s.mem c).core.status } := by
  have hdisarm : Retouch c s (s.setConn c { s.mem c with toArmed := false })
      { (s.mem c).core with toArmed := false } := retouch_setConn
  obtain ⟨-, ⟨-, rfl, rfl⟩ | ⟨-, t, rfl, hest⟩⟩ := connSynSentPacket_cases h
  · exact hdisarm
  · have hest := retouch_establish hest
    rw [hdisarm.self] at hest
    exact hdisarm.trans hest

/-- The same from the state in which the packet was received. -/
theorem retouch_synSent
    (h : connSynSentPacket cfg (s.setConn c { s.mem c with fnCore := core, flowGroup := fg }) c p
      ts = .ok (s', ok)) :
    Retouch c s s' { (s.mem c).core with
      toArmed := false
      status := if ok then .opened else (s.mem c).core.status } := by
  have hfields : Retouch c s (s.setConn c { s.mem c with fnCore := core, flowGroup := fg })
      (s.mem c).core := retouch_setConn
  have hsent := hfields.trans (retouch_connSynSentPacket h)
  rwa [hfields.self] at hsent

theorem retouch_ccConnRemove (h : ccConnRemove cfg s fuel c = .ok s') :
    Retouch c s s' (s.mem c).core := by
  have hunlist : ∀ s₁ : SlowPath, (∀ d, (s₁.mem d).core = (s.mem d).core) →
      s₁.tables = s.tables → Retouch c s (s₁.ccUnlist c) (s.mem c).core := by
    intro s₁ hcore ht
    have hr : Retouch c s₁ (s₁.ccUnlist c) (s₁.mem c).core := retouch_setConn
    rw [hcore] at hr
    exact ⟨hr.tables.trans ht, hr.self, fun d hd => (hr.other d hd).trans (hcore d)⟩
  obtain ⟨-, rfl⟩ | ⟨-, cp, -, -, rfl⟩ := ccConnRemove_ok h
  · exact hunlist _ (fun d => rfl) rfl
  · refine hunlist _ (fun d => ?_) rfl
    have hr : Retouch cp s (s.setConn cp { s.mem cp with ccNext := s.ccNexts c })
        (s.mem cp).core := retouch_setConn
    by_cases hd : d = cp
    · subst hd
      exact hr.self
    · exact hr.other d hd

theorem retouch_disableConn : Retouch c s (disableConn cfg s c) (s.mem c).core := by
  have hset := retouch_setConn (c := c)
    (s := { s with nic := (nicifConnectionDisable cfg.flowHash s.nic (s.mem c).flowId).1 })
    (z := { s.mem c with
      remoteSeq := (s.nic.flowst (s.mem c).flowId).rxNextSeq
      localSeq := (s.nic.flowst (s.mem c).flowId).txNextSeq })
  unfold disableConn
  dsimp only
  split_ifs <;> exact ⟨hset.tables, hset.self, hset.other⟩

theorem retouch_tcpClose (h : tcpClose cfg s fuel c = .ok s') (ho : (s.mem c).status = .opened) :
    Retouch c s s' { (s.mem c).core with
      status := .closed
      toArmed := true
      toType := .closed } := by
  unfold tcpClose at h
  rw [if_neg (not_not.2 ho)] at h
  obtain ⟨s₂, hremove, h⟩ := of_bind_ok h
  split_ifs at h with harm
  cases h
  have hall := retouch_disableConn.trans (retouch_ccConnRemove hremove)
  have hself : (s₂.mem c).core = (s.mem c).core := by
    rw [hall.self]
    exact retouch_disableConn.self
  rw [← hself]
  exact hall.trans retouch_setConn

/-! ### Requests -/

theorem waits_of_head (hw : (s.listener l).waitConns = c :: ws) : s.tables.Waits l c := by
  change c ∈ (s.listener l).waitConns
  rw [hw]
  exact mem_cons_self

theorem listener_acceptDone : (acceptDone cfg s l c).listener = update s.listener l
    { s.listener l with
      waitConns := (s.listener l).waitConns.tail
      backlog := (s.listener l).backlog.pop } := by
  have hpop : (s.popWait l).listener l =
      { s.listener l with waitConns := (s.listener l).waitConns.tail } := update_self ..
  refine (congrArg (update (s.popWait l).listener l) (congrArg
    (fun x : Listener => { x with backlog := x.backlog.pop }) hpop)).trans (update_idem ..)

theorem retouch_acceptInit (cfg : SlowCfg) (s : SlowPath) (l c : ℕ) (b : BacklogSlot) (ts : U32) :
    Retouch c s (acceptInit cfg s l c b ts)
      ((s.mem c).acceptSyn cfg (s.listener l).port b ts).core := by
  have hset : Retouch c s (s.setConn c ((s.mem c).acceptSyn cfg (s.listener l).port b ts)) _ :=
    retouch_setConn
  have hinit := hset.trans (retouch_ccConnInit cfg)
  rwa [hset.self] at hinit

theorem slowInv_enqueueAccept (a : AcceptArgs) (b : ConnBufs) (h : s.Ok cfg)
    (hl : (s.listener l).live = true) (hc : s.fresh c) : (enqueueAccept cfg s a l c b).Ok cfg := by
  obtain ⟨hreg, hwait, hq⟩ := (h.placed c).nowhere hc.2
  set z := waitConn cfg a b (s.listener l).port with hz
  have hset : (s.setConn c z).Ok cfg :=
    h.setConn (placed_nowhere hreg hwait hq (fun _ => ⟨rfl, nofun⟩) fun _ => hc.1)
  have hself : (s.setConn c z).mem c = z := update_self ..
  refine hset.setListener rfl rfl ?_ fun d hd => ?_
  · refine nodup_append.2 ⟨h.tables.waitNodup l, nodup_singleton c, ?_⟩
    rintro d hd e he rfl
    exact hwait l (mem_singleton.1 he ▸ hd)
  · rcases mem_append.1 hd with hd | hd
    · exact ⟨(hset.placed d).wait l hd, fun l' hw => h.tables.waitApart l' l d hw hd⟩
    · obtain rfl := mem_singleton.1 hd
      refine ⟨?_, fun l' hw => (hwait l' hw).elim⟩
      rw [hself]
      exact ⟨rfl, hreg, rfl, rfl, .inl rfl, rfl, hl⟩

/-- A connection in this state is in no queue. -/
theorem Placed.notQueued {st : ConnState} (h : Placed cfg t c x) (hst : x.status = st)
    (hnot : st ≠ .arpPending ∧ st ≠ .regSynack) : c ∉ t.queue := fun hq =>
  (h.queued hq).2.2.elim (fun he => hnot.1 (hst.symm.trans he)) fun he => hnot.2 (hst.symm.trans he)

theorem connLookup_some (h : connLookup cfg s p = some c) :
    c ∈ s.table (SlowPath.bucket cfg (pktKey p)) ∧ hits p (s.mem c) = true := by
  unfold connLookup at h
  exact ⟨mem_of_find?_eq_some h, by simpa using List.find?_some h⟩

theorem Placed.armed_notQueued (h : Placed cfg t c x) (harm : x.toArmed = true) : c ∉ t.queue :=
  fun hq => absurd (Eq.trans (Eq.symm harm) (h.queued hq).2.1) (by decide)

section

variable (h : s.Ok cfg)
include h

/-- A new connection with a port of its own is entered into the table. -/
theorem slowInv_newConn (hc : s.fresh c)
    (hp : s.ports z.localPort = .unused) (hlive : z.live = true) (hactive : z.active = true)
    (hstatus : z.status = .arpPending) (harm : z.toArmed = false) (hip : z.outLocalIp = cfg.ip) :
    (connRegister cfg ((s.setPort z.localPort (.conn c)).setConn c z) c).Ok cfg := by
  obtain ⟨hreg, hwait, hq⟩ := (h.placed c).nowhere hc.2
  have hport : SlowInv cfg (s.setPort z.localPort (.conn c)).tables s.mem :=
    h.setPort (fun l => by rw [hp]; exact id) (fun l => id) fun d _ => by simp [hp]
  have hset : ((s.setPort z.localPort (.conn c)).setConn c z).Ok cfg :=
    hport.setConn (placed_nowhere hreg hwait hq
      (fun _ => ⟨harm, fun ho => nomatch hstatus.symm.trans ho⟩) fun _ => hc.1)
  have hself : ((s.setPort z.localPort (.conn c)).setConn c z).mem c = z := update_self ..
  refine hset.register hreg hwait hc.1 ?_ ?_
  · rw [hself]
    refine ⟨hlive, hip, ?_, fun _ => update_self .., fun hp => nomatch hactive.symm.trans hp⟩
    change z.status.InTable z.active
    rw [hstatus]
    exact hactive
  · rw [hself, harm]
    exact nofun

theorem slowInv_openAt (o : OpenArgs) (b : ConnBufs) (route : Route) {p : U16}
    (hc : s.fresh c) (hp : s.ports p = .unused) : (openAt cfg s o c b route p).Ok cfg := by
  obtain ⟨hreg, hwait, hq⟩ := (h.placed c).nowhere hc.2
  set x := (connAlloc cfg b true).openTo cfg o.ctx o.appOpaque o.remoteIp o.remotePort o.dbId p
    with hx
  cases route with
  | failed => exact h.setConn (placed_nowhere hreg hwait hq nofun nofun)
  | done mac =>
    set y := { x with remoteMac := mac } with hy
    have hnew := slowInv_newConn (z := y) h hc hp rfl rfl rfl rfl rfl
    have hplaced := hnew.placed c
    have hself : (connRegister cfg ((s.setPort y.localPort (.conn c)).setConn c y) c).mem c = y :=
      update_self ..
    rw [hself] at hplaced
    -- the port is entered last, which is no matter to the other tables
    exact hnew.setConn (z := y.arpDone cfg) (hplaced.restate mem_connRegister rfl rfl rfl rfl
      (fun hq' => (hq hq').elim) fun _ => .inl ⟨rfl, rfl⟩)
  | pending =>
    have hnew := slowInv_newConn (z := x) h hc hp rfl rfl rfl rfl rfl
    refine hnew.setQueue (q := s.asyncQ) (r := c :: s.resolving) ?_ fun d hd => ?_
    · exact (nodup_middle).2 (nodup_cons.2 ⟨hq, h.tables.queue⟩)
    · rcases mem_cons.1 (perm_middle.mem_iff.1 hd) with rfl | hd
      · refine ⟨mem_connRegister, ?_⟩
        have hself :
            (connRegister cfg ((s.setPort x.localPort (.conn d)).setConn d x) d).mem d = x :=
          update_self ..
        rw [hself]
        exact ⟨rfl, .inl rfl⟩
      · exact (hnew.placed d).queued hd

theorem slowInv_tcpOpen {o : OpenArgs} {b : ConnBufs} {route : Route} (hc : s.fresh c)
    (hs : tcpOpen cfg s o c b route = .ok s') : s'.Ok cfg := by
  obtain ⟨p, hp, rfl⟩ := tcpOpen_ok hs
  exact slowInv_openAt (s := { s with portEphHint := portNext p }) h o b route hc hp

theorem SlowInv.not_listens (hl : (s.listener l).live = false) (p : U16) :
    ¬ (s.ports p).Listens l :=
  fun hp => nomatch hl.symm.trans ((h.tables.listens p l).1 hp).1

/-- A new listener gets a port that was not in use, or joins the group of a port. -/
theorem slowInv_newListener {y : Listener} {e : Port} (hl : (s.listener l).live = false)
    (hlive : y.live = true) (hwait : y.waitConns = [])
    (hnew : ∀ l', e.Listens l' ↔ l' = l ∨ (s.ports y.port).Listens l')
    (hconn : ∀ d, s.ports y.port ≠ .conn d) (hgroup : ∀ ls, e = .lmulti ls → ls.Nodup) :
    SlowInv cfg ((s.setListener l y).setPort y.port e).tables s.mem := by
  have hport : update s.ports y.port e y.port = e := update_self ..
  -- the new listener is the only difference between the old and the new port table
  have hports : ∀ l' p, (update s.ports y.port e p).Listens l' ↔
      l' = l ∧ p = y.port ∨ (s.ports p).Listens l' := fun l' =>
    (forall_update_iff s.ports fun p e' => e'.Listens l' ↔
      l' = l ∧ p = y.port ∨ (s.ports p).Listens l').2
      ⟨(hnew l').trans (by simp), fun p hp => by simp [hp]⟩
  refine h.relisten (hwait ▸ nodup_nil) (fun c hc => ?_)
    ((forall_update_iff s.listener fun l' x => ∀ p, (update s.ports y.port e p).Listens l' ↔
      x.live = true ∧ x.port = p).2 ⟨fun p => ?_, fun l' hl' p => ?_⟩)
    ((forall_update_iff s.ports fun _ e' => ∀ ls, e' = .lmulti ls → ls.Nodup).2
      ⟨hgroup, fun q _ => h.tables.group q⟩)
    (fun p d he => ?_) fun p l' hl' => (hports l' p).2 (.inr hl')
  · rw [hwait] at hc
    cases hc
  · rw [hports]
    simp [h.not_listens hl p, hlive, eq_comm]
  · rw [hports, or_iff_right fun hc => hl' hc.1]
    exact h.tables.listens p l'
  · have hp : p ≠ y.port := by
      rintro rfl
      exact hconn d he
    exact (update_of_ne hp ..).trans he

theorem slowInv_tcpListen {ctx : ℕ} {op : U64} {p : U16} {reuse : Bool}
    (hl : (s.listener l).live = false) : (s.tcpListen ctx op p reuse l).Ok cfg := by
  have hnone := h.not_listens hl p
  unfold tcpListen
  dsimp only
  split
  · rename_i hp
    refine slowInv_newListener (y := newListener ctx op p _) h hl rfl rfl (fun l' => ?_)
      (fun d => by simp [newListener, hp]) fun ls he => by cases he
    simp only [newListener, hp, Port.Listens, or_false]
    exact eq_comm
  · rename_i hp
    refine slowInv_newListener (y := newListener ctx op p _) h hl rfl rfl (fun l' => ?_)
      (fun d => by simp [newListener, hp]) fun ls he => ?_
    · simp [newListener, hp, Port.Listens]
    · cases he
      exact nodup_singleton l
  · rename_i ls hp
    split_ifs
    · exact h
    · refine slowInv_newListener (y := newListener ctx op p _) h hl rfl rfl (fun l' => ?_)
        (fun d => by simp [newListener, hp]) fun ls' he => ?_
      · simp only [newListener, hp, Port.Listens, mem_append, mem_singleton]
        exact or_comm
      · cases he
        rw [hp] at hnone
        exact nodup_append.2 ⟨h.tables.group p ls hp, nodup_singleton l,
          fun a ha b hb he => hnone (by rw [mem_singleton.1 hb] at he; exact he ▸ ha)⟩
  · exact h

/-! ### Accepting -/

theorem SlowInv.listens_of_live (hl : (s.listener l).live = true) :
    (s.ports (s.listener l).port).Listens l :=
  (h.tables.listens _ l).2 ⟨hl, rfl⟩

/-- The waiting connection `c` is in the fast path: it is taken off the waiting ones, entered into
the table, and queued. -/
theorem slowInv_acceptDone (hw : (s.listener l).waitConns = c :: ws)
    (hstatus : (s.mem c).status = .regSynack) (hip : (s.mem c).outLocalIp = cfg.ip) :
    SlowInv cfg (acceptDone cfg s l c).tables s.mem := by
  have hwait := waits_of_head hw
  have hok := (h.placed c).wait l hwait
  have hnodup := h.tables.waitNodup l
  change (s.listener l).waitConns.Nodup at hnodup
  rw [hw, nodup_cons] at hnodup
  have hpop : SlowInv cfg (s.popWait l).tables s.mem := by
    refine h.setListener rfl rfl ?_ fun d hd => ?_
    · rw [hw]
      exact hnodup.2
    · have hd : s.tables.Waits l d := mem_of_mem_tail hd
      exact ⟨(h.placed d).wait l hd, fun l' hw' => h.tables.waitApart l' l d hw' hd⟩
  have hgone : ∀ l', ¬ (s.popWait l).tables.Waits l' c := by
    refine (forall_update_iff s.listener fun _ x => c ∉ x.waitConns).2
      ⟨?_, fun l' hl' hw' => hl' (h.tables.waitApart l' l c hw' hwait)⟩
    rw [hw]
    exact hnodup.1
  have hreg : SlowInv cfg (connRegister cfg (s.popWait l) c).tables s.mem := by
    refine SlowInv.register (s := s.popWait l) hpop hok.notReg hgone
      ((h.placed c).nonnull hok.live) ⟨hok.live, hip, ?_,
        fun ha => (nomatch ha.symm.trans hok.passive), fun _ => ⟨l, ?_⟩⟩
      fun ha => nomatch ha.symm.trans hok.unarmed
    · change (s.mem c).status.InTable (s.mem c).active
      rw [hstatus]
      exact hok.passive
    · have hport : (s.mem c).core.key.localPort = (s.listener l).port := hok.port
      change (s.ports (s.mem c).core.key.localPort).Listens l
      rw [hport]
      exact h.listens_of_live hok.listens
  have hnotq : c ∉ s.tables.queue := fun hq => hok.notReg ((h.placed c).queued hq).1
  have hqueue : SlowInv cfg { connRegister cfg (s.popWait l) c with
      asyncQ := s.asyncQ ++ [c] }.tables s.mem := by
    refine hreg.setQueue (q := s.asyncQ ++ [c]) (r := s.resolving) ?_ fun d hd => ?_
    · rw [append_assoc, singleton_append]
      exact nodup_middle.2 (nodup_cons.2 ⟨hnotq, h.tables.queue⟩)
    · rw [append_assoc, singleton_append] at hd
      rcases mem_cons.1 (perm_middle.mem_iff.1 hd) with rfl | hd
      · exact ⟨mem_connRegister, hok.unarmed, .inr hstatus⟩
      · exact (hreg.placed d).queued hd
  exact SlowInv.setBacklog (s := { connRegister cfg (s.popWait l) c with
    asyncQ := s.asyncQ ++ [c] }) hqueue

/-- After `nicif_connection_add` the connection still waits. -/
theorem slowInv_acceptAdd {ts : U32} (hw : (s.listener l).waitConns = c :: ws)
    (hadd : nicAdd cfg (acceptInit cfg s l c b ts) c ls = .ok (s', ok)) :
    Retouch c s s' ((s.mem c).acceptSyn cfg (s.listener l).port b ts).core ∧
      s'.Ok cfg := by
  have hwait := waits_of_head hw
  have hinit := retouch_acceptInit cfg s l c b ts
  have hnic := hinit.trans (retouch_nicAdd hadd)
  rw [hinit.self] at hnic
  exact ⟨hnic, h.retouch hnic ((h.placed c).rewait hwait rfl rfl rfl (.inr rfl) rfl
    fun l' hw' => h.tables.waitApart l' l c hw' hwait)⟩

theorem slowInv_acceptSlot {ts : U32} (hw : (s.listener l).waitConns = c :: ws)
    (hs : acceptSlot cfg s l c b ts = .ok s') : s'.Ok cfg := by
  obtain ⟨s₁, ok, hadd, rfl⟩ := acceptSlot_cases hs
  obtain ⟨hnic, h₁⟩ := slowInv_acceptAdd h hw hadd
  have hlistener : s₁.listener = s.listener := congrArg ConnTables.listener hnic.tables
  cases ok with
  | false => exact SlowInv.setBacklog (s := s₁) h₁
  | true =>
    refine slowInv_acceptDone h₁ (by rw [hlistener]; exact hw)
      (congrArg ConnCore.status hnic.self) ?_
    exact congrArg (fun x : ConnCore => x.key.localIp) hnic.self

theorem slowInv_listenerAccept (hs : listenerAccept cfg s l = .ok s') : s'.Ok cfg := by
  obtain ⟨c, ws, b, bs, hw, -, rfl | ⟨t, -, hslot⟩⟩ := listenerAccept_cases hs
  · exact h.setBacklog
  · exact slowInv_acceptSlot h hw hslot

theorem slowInv_tcpAccept {a : AcceptArgs} {b : ConnBufs} (hl : (s.listener l).live = true)
    (hc : s.fresh c) (hs : tcpAccept cfg s a l c b = .ok s') : s'.Ok cfg := by
  have hpush := slowInv_enqueueAccept a b h hl hc
  rcases tcpAccept_cases hs with rfl | hs
  · exact hpush
  · exact slowInv_listenerAccept hpush hs

theorem slowInv_listenerPacket (hs : listenerPacket cfg s l p ts core fg = .ok s') : s'.Ok cfg := by
  obtain rfl | rfl | ⟨-, -, rfl | hs⟩ := listenerPacket_cases hs
  · exact h
  · exact h
  · exact h.setBacklog
  · exact slowInv_listenerAccept h.setBacklog hs

/-! ### Connections -/

theorem slowInv_connFailed (hq : c ∉ s.tables.queue)
    (hs : connFailed cfg s c room = .ok s') : s'.Ok cfg := by
  obtain ⟨s₁, hu, rfl⟩ := connFailed_ok hs
  exact (h.unregister hu hq fun _ => ⟨rfl, fun ho => by cases ho⟩).1

/-- A connection that waited for its SYN-ACK has handled a packet. -/
theorem slowInv_synSentPacket (hr : s.tables.Registered c)
    (hsyn : (s.mem c).status = .synSent) (hsent : Retouch c s s' { (s.mem c).core with
      toArmed := false
      status := if ok then .opened else (s.mem c).core.status }) : s'.Ok cfg := by
  have hplaced := h.placed c
  refine h.retouch hsent (hplaced.restate hr rfl rfl rfl ?_
    (fun hq => (hplaced.notQueued hsyn (by decide) hq).elim) nofun)
  cases ok with
  | false => exact (hplaced.reg hr).status
  | true => trivial

theorem slowInv_connPacket (hr : s.tables.Registered c)
    (hs : connPacket cfg s c p ts core fg room = .ok s') : s'.Ok cfg := by
  obtain ⟨hsyn, s₁, ok, hpkt, hs⟩ | ⟨hopen, -, -, hs⟩ | ⟨t, -, -, -, rfl⟩ | ⟨-, rfl⟩ | rfl :=
    connPacket_cases hs
  · have hsent := retouch_synSent hpkt
    have h₁ := slowInv_synSentPacket h hr hsyn hsent
    cases ok with
    | true =>
      cases hs
      exact h₁
    | false =>
      refine slowInv_connFailed h₁ ?_ hs
      rw [hsent.tables]
      exact (h.placed c).notQueued hsyn (by decide)
  · exact slowInv_connFailed h ((h.placed c).notQueued hopen (by decide)) hs
  · exact h
  · exact h
  · exact h

theorem slowInv_tcpPacket (hs : tcpPacket cfg s p len core fg room = .ok s') : s'.Ok cfg := by
  obtain rfl | ⟨ts, rfl⟩ | ⟨c, ts, -, hc, hs⟩ | ⟨l, ts, -, -, -, hs⟩ := tcpPacket_cases hs
  · exact h
  · exact h
  · exact slowInv_connPacket h ⟨_, (connLookup_some hc).1⟩ hs
  · exact slowInv_listenerPacket h hs

/-- A connection is taken off the queue. -/
theorem SlowInv.dequeue (hq : s.asyncQ = c :: q) :
    SlowInv cfg { s with asyncQ := q }.tables s.mem ∧ c ∉ q ++ s.resolving ∧
      s.tables.Registered c ∧ (s.mem c).toArmed = false := by
  have hnodup := h.tables.queue
  unfold ConnTables.queue at hnodup
  change (s.asyncQ ++ s.resolving).Nodup at hnodup
  rw [hq, cons_append, nodup_cons] at hnodup
  have hmem : c ∈ s.tables.queue := mem_append_left _ (by
    change c ∈ s.asyncQ
    rw [hq]
    exact mem_cons_self)
  obtain ⟨hr, harm, -⟩ := (h.placed c).queued hmem
  refine ⟨h.requeue (q := q) (r := s.resolving) ?_, hnodup.1, hr, harm⟩
  rw [hq, cons_append]
  exact (sublist_cons_self c _).subperm

theorem slowInv_tcpPoll (hs : tcpPoll cfg s room = .ok s') : s'.Ok cfg := by
  obtain rfl | ⟨c, q, hq, hs⟩ := tcpPoll_cases hs
  · exact h
  obtain ⟨hpop, hnotq, hr, harm⟩ := h.dequeue hq
  have hplaced := hpop.placed c
  have hstatus := (hplaced.reg hr).status
  obtain ⟨harp, -, -, rfl⟩ | ⟨-, -, rfl⟩ | ⟨-, -, hs⟩ | rfl := hs
  · refine hpop.setConn (hplaced.restate hr rfl rfl rfl ?_ (fun hq' => (hnotq hq').elim)
      fun _ => .inl ⟨rfl, rfl⟩)
    rw [show (s.mem c).core.status = .arpPending from harp] at hstatus
    exact hstatus
  · refine hpop.setConn (hplaced.restate hr rfl rfl rfl trivial (fun hq' => (hnotq hq').elim)
      fun ha => ?_)
    cases ha.symm.trans harm
  · exact slowInv_connFailed (s := { s with asyncQ := q }) hpop hnotq hs
  · exact hpop

theorem slowInv_resolved {mac : U64} {status : ℤ} (hc : c ∈ s.resolving) :
    (s.resolved c mac status).Ok cfg := by
  have hset : SlowInv cfg s.tables (s.setConn c
      { s.mem c with remoteMac := mac, compStatus := status }).mem := h.setConn_core rfl
  refine SlowInv.requeue (s := s.setConn c { s.mem c with
    remoteMac := mac, compStatus := status }) hset (q := s.asyncQ ++ [c])
    (r := s.resolving.erase c) ?_
  rw [append_assoc, singleton_append]
  exact (List.Perm.append_left _ (perm_cons_erase hc).symm).subperm

/-! ### Closing and timers -/

theorem slowInv_tcpClose (hl : (s.mem c).live = true)
    (hs : tcpClose cfg s fuel c = .ok s') : s'.Ok cfg := by
  obtain rfl | ⟨ho, -⟩ := tcpClose_cases hs
  · exact h
  · have hplaced := h.placed c
    exact h.retouch (retouch_tcpClose hs ho) (hplaced.restate (hplaced.opened hl ho) rfl rfl rfl
      trivial (fun hq => (hplaced.notQueued ho (by decide) hq).elim) fun _ => .inr ⟨rfl, rfl⟩)

theorem slowInv_connCloseTimeout (hq : c ∉ s.tables.queue)
    (hs : connCloseTimeout cfg s c = .ok s') : s'.Ok cfg := by
  obtain ⟨s₁, hu, rfl⟩ := connCloseTimeout_ok hs
  obtain ⟨h₁, hgone⟩ := h.unregister (z := { s.mem c with live := false }) hu hq
    fun hl => by cases hl
  obtain ⟨hc, hs₁⟩ := connUnregister_ok hu
  have hports : s₁.ports = s.ports := by rw [hs₁]
  rcases freePort_cases (s := s₁) (p := (s.mem c).localPort) with he | ⟨⟨d, hd⟩, he⟩
  · rw [he]
    exact h₁
  · rw [he]
    refine SlowInv.setPort (s := s₁.setConn c { s.mem c with live := false }) h₁
      (fun l => ?_) (fun l => id) fun e hreg heq => ?_
    · change ¬ (s₁.ports _).Listens l
      rw [hd]
      exact id
    · -- the owner of the port is the connection itself, which is no longer in the table
      have hown := (h.placed c).reg ⟨_, hc⟩
      change s₁.ports (s.mem c).localPort = .conn e at heq
      rw [hports] at heq
      have hactive : (s.mem c).core.active = true := by
        by_contra hp
        obtain ⟨l, hl⟩ := hown.passive (Bool.eq_false_of_not_eq_true hp)
        change (s.ports (s.mem c).localPort).Listens l at hl
        rw [heq] at hl
        exact hl
      have hce := hown.active hactive
      change s.ports (s.mem c).localPort = .conn c at hce
      cases hce.symm.trans heq
      exact hgone hreg

/-- The timer of a connection has fired. -/
theorem slowInv_disarm (hl : (s.mem c).live = true) (harm : (s.mem c).toArmed = true)
    (z : Connection) (hz : z.core = { (s.mem c).core with toArmed := false }) :
    (s.setConn c z).Ok cfg := by
  have hplaced := h.placed c
  obtain ⟨hr, -⟩ := hplaced.armed hl harm
  refine h.setConn ?_
  rw [hz]
  exact hplaced.restate hr rfl rfl rfl (hplaced.reg hr).status
    (fun hq => (hplaced.armed_notQueued harm hq).elim) fun ha => by cases ha

theorem slowInv_tcpTimeout (hl : (s.mem c).live = true)
    (hs : tcpTimeout cfg s c room = .ok s') : s'.Ok cfg := by
  have hplaced := h.placed c
  obtain ⟨harm, hs⟩ := tcpTimeout_cases hs
  have hnotq : c ∉ s.tables.queue := hplaced.armed_notQueued harm
  have hset := slowInv_disarm h hl harm
  obtain ⟨-, hs⟩ | ⟨-, -, -, hs⟩ | ⟨-, hsyn, rfl⟩ := hs
  · exact slowInv_connCloseTimeout (hset _ rfl) hnotq hs
  · exact slowInv_connFailed (hset _ rfl) hnotq hs
  · have hr := (hplaced.armed hl harm).1
    exact h.setConn (hplaced.restate hr rfl rfl rfl (hplaced.reg hr).status
      (fun hq => (hnotq hq).elim) fun _ => .inl ⟨hsyn, rfl⟩)

end

/-! ### Steps about one connection -/

/-- A step is about connection `c` alone: it keeps its 4-tuple, and the hash table loses at most
that connection. -/
structure AboutConn (c : ℕ) (s s' : SlowPath) : Prop where
  listener : s'.listener = s.listener
  other : ∀ d, d ≠ c → (s'.mem d).core = (s.mem d).core
  key : (s'.mem c).key = (s.mem c).key
  active : (s'.mem c).active = (s.mem c).active
  registered : ∀ d, s'.tables.Registered d → s.tables.Registered d

/-- What becomes of the connection and of its port. -/
inductive ConnFate (cfg : SlowCfg) (s : SlowPath) (e : SlowEvent) (s' : SlowPath) (c : ℕ) : Prop
  | kept (hports : s'.ports = s.ports) (hlive : (s'.mem c).live = (s.mem c).live)
  | failed (hports : s'.ports = s.ports) (hlive : (s'.mem c).live = false)
    (hfails : ∃ r, ConnFails cfg s e c r)
  | freed (hports : ∀ p, s'.ports p = s.ports p ∨ p = (s.mem c).localPort ∧ s'.ports p = .unused)
    (hgone : ∀ d, s'.ports (s.mem c).localPort ≠ .conn d) (hlive : (s'.mem c).live = false)
    (hreg : s.tables.Registered c)

def ConnOnly (cfg : SlowCfg) (s : SlowPath) (e : SlowEvent) (s' : SlowPath) : Prop :=
  ∃ c, AboutConn c s s' ∧ ConnFate cfg s e s' c

variable {e : SlowEvent} {P : SlowPath → SlowEvent → Prop} {s₀ : SlowPath}

theorem Retouch.about (h : Retouch c s s' y) (hkey : y.key = (s.mem c).key)
    (hactive : y.active = (s.mem c).active) : AboutConn c s s' :=
  ⟨congrArg ConnTables.listener h.tables, h.other, (congrArg ConnCore.key h.self).trans hkey,
    (congrArg ConnCore.active h.self).trans hactive, fun _ hd => h.tables ▸ hd⟩

/-- One connection is assigned, or none. -/
theorem about_setConn (hm : s'.mem = update s.mem c z) (hl : s'.listener = s.listener)
    (hreg : ∀ d, s'.tables.Registered d → s.tables.Registered d) (hkey : z.key = (s.mem c).key)
    (hactive : z.active = (s.mem c).active) : AboutConn c s s' := by
  refine ⟨hl, fun d hd => ?_, ?_, ?_, hreg⟩
  · rw [hm, update_of_ne hd]
  · rw [hm, update_self, hkey]
  · rw [hm, update_self, hactive]

theorem connOnly_setConn (hm : s'.mem = update s.mem c z) (hl : s'.listener = s.listener)
    (hreg : ∀ d, s'.tables.Registered d → s.tables.Registered d) (hp : s'.ports = s.ports)
    (hkey : z.key = (s.mem c).key) (hactive : z.active = (s.mem c).active)
    (hlive : z.live = (s.mem c).live) : ConnOnly cfg s e s' :=
  ⟨c, about_setConn hm hl hreg hkey hactive, .kept hp (by rw [hm, update_self, hlive])⟩

/-- Connections and tables are as they were. -/
theorem connOnly_frame (hm : s'.mem = s.mem) (hl : s'.listener = s.listener)
    (hreg : ∀ d, s'.tables.Registered d → s.tables.Registered d) (hp : s'.ports = s.ports) :
    ConnOnly cfg s e s' :=
  connOnly_setConn (hm.trans (update_eq_self 0 s.mem).symm) hl hreg hp rfl rfl rfl

/-- What `conn_failed` does. -/
theorem connFailed_fields (hs : connFailed cfg s c room = .ok s') :
    s'.nic = s.nic ∧ s'.owner = s.owner ∧ s'.listener = s.listener ∧ s'.ports = s.ports ∧
      (∀ d, d ≠ c → s'.mem d = s.mem d) ∧
      s'.mem c = { s.mem c with
        toArmed := false
        status := .failed
        live := (s.mem c).live && !room } ∧
      ∀ d, s'.tables.Registered d → s.tables.Registered d := by
  obtain ⟨s₁, hu, rfl⟩ := connFailed_ok hs
  have hreg := fun d => registered_connUnregister (d := d) hu
  obtain ⟨-, rfl⟩ := connUnregister_ok hu
  exact ⟨rfl, rfl, rfl, rfl, fun d hd => mem_setConn_of_ne hd, mem_setConn_self, hreg⟩

/-- What `conn_close_timeout` does to the tables. -/
theorem connCloseTimeout_fields (hs : connCloseTimeout cfg s c = .ok s') :
    s'.mem = update s.mem c { s.mem c with live := false } ∧ s'.listener = s.listener ∧
      (∀ p, s'.ports p = s.ports p ∨ p = (s.mem c).localPort ∧ s'.ports p = .unused) ∧
      (∀ d, s'.ports (s.mem c).localPort ≠ .conn d) ∧ s.tables.Registered c ∧
      ∀ d, s'.tables.Registered d → s.tables.Registered d := by
  obtain ⟨s₁, hu, rfl⟩ := connCloseTimeout_ok hs
  have hreg := fun d => registered_connUnregister (d := d) hu
  obtain ⟨hc, rfl⟩ := connUnregister_ok hu
  unfold freePort
  dsimp only
  cases hp : s.ports (s.mem c).localPort with
  | conn d =>
    refine ⟨rfl, rfl, ?_, fun d => ?_, ⟨_, hc⟩, hreg⟩
    · exact (forall_update_iff s.ports fun p e => e = s.ports p ∨
        p = (s.mem c).localPort ∧ e = .unused).2 ⟨.inr ⟨rfl, rfl⟩, fun _ _ => .inl rfl⟩
    · change update s.ports _ _ _ ≠ _
      rw [update_self]
      nofun
  | _ => exact ⟨rfl, rfl, fun _ => .inl rfl, fun d hd => (nomatch hp.symm.trans hd), ⟨_, hc⟩, hreg⟩

theorem connOnly_connFailed {r : SlowPath} (ha : AboutConn c s r) (hp : r.ports = s.ports)
    (hlive : (r.mem c).live = (s.mem c).live) (hroom : room = true → ∃ r, ConnFails cfg s e c r)
    (hs : connFailed cfg r c room = .ok s') : ConnOnly cfg s e s' := by
  obtain ⟨-, -, hl, hports, hother, hself, hreg⟩ := connFailed_fields hs
  refine ⟨c, ⟨hl.trans ha.listener, fun d hd => ?_, (congrArg Connection.key hself).trans ha.key,
    (congrArg Connection.active hself).trans ha.active, fun d hd => ha.registered d (hreg d hd)⟩,
    ?_⟩
  · rw [hother d hd]
    exact ha.other d hd
  · have hself := congrArg Connection.live hself
    cases room with
    | true => exact .failed (hports.trans hp) (hself.trans (Bool.and_false _)) (hroom rfl)
    | false => exact .kept (hports.trans hp) (hself.trans ((Bool.and_true _).trans hlive))

theorem connOnly_connPacket (hparse : parseOptions p len = .ok ts)
    (hc : connLookup cfg s p = some c) (hs : connPacket cfg s c p ts core fg room = .ok s') :
    ConnOnly cfg s (.packet p len core fg room) s' := by
  obtain ⟨hsyn, s₁, ok, hpkt, hs'⟩ | ⟨hopen, hflags, rfl, hs'⟩ | ⟨t, -, -, -, rfl⟩ | ⟨-, rfl⟩ |
    rfl := connPacket_cases hs
  · have hsent := retouch_synSent hpkt
    have hports := congrArg ConnTables.ports hsent.tables
    have hlive := congrArg ConnCore.live hsent.self
    cases ok with
    | true =>
      cases hs'
      exact ⟨c, hsent.about rfl rfl, .kept hports hlive⟩
    | false =>
      refine connOnly_connFailed (hsent.about rfl rfl) hports hlive (fun hroom => ?_) hs'
      subst hroom
      rcases synSent_fails hpkt with hbad | ⟨t, rfl, hadd⟩
      · exact ⟨_, .notSynAck hc hsyn hparse hbad⟩
      · exact ⟨_, .addFailed hc hsyn hparse hadd⟩
  · refine connOnly_connFailed ⟨rfl, fun _ _ => rfl, rfl, rfl, fun _ hr => hr⟩ rfl rfl
      (fun hroom => ?_) hs'
    subst hroom
    exact ⟨_, .synNoTs hc hopen hflags hparse⟩
  all_goals exact connOnly_frame rfl rfl (fun _ hr => hr) rfl

theorem connOnly_tcpPoll (hs : tcpPoll cfg s room = .ok s') : ConnOnly cfg s (.poll room) s' := by
  obtain rfl | ⟨c, q, hq, ⟨-, -, -, rfl⟩ | ⟨-, -, rfl⟩ | ⟨hstatus, hcomp, hs⟩ | rfl⟩ :=
    tcpPoll_cases hs
  · exact connOnly_frame rfl rfl (fun _ hr => hr) rfl
  · exact connOnly_setConn rfl rfl (fun _ hr => hr) rfl rfl rfl rfl
  · exact connOnly_setConn rfl rfl (fun _ hr => hr) rfl rfl rfl rfl
  · refine connOnly_connFailed (r := { s with asyncQ := q })
      ⟨rfl, fun _ _ => rfl, rfl, rfl, fun _ hr => hr⟩ rfl rfl (fun hroom => ?_) hs
    subst hroom
    exact ⟨_, .unresolved hq hcomp hstatus⟩
  · exact connOnly_frame rfl rfl (fun _ hr => hr) rfl

theorem connOnly_tcpClose (hs : tcpClose cfg s fuel c = .ok s') : ConnOnly cfg s e s' := by
  obtain rfl | ⟨ho, -⟩ := tcpClose_cases hs
  · exact connOnly_frame rfl rfl (fun _ hr => hr) rfl
  · have hclose := retouch_tcpClose hs ho
    exact ⟨c, hclose.about rfl rfl, .kept (congrArg ConnTables.ports hclose.tables)
      (congrArg ConnCore.live hclose.self)⟩

theorem connOnly_tcpTimeout (hs : tcpTimeout cfg s c room = .ok s') :
    ConnOnly cfg s (.timeout c room) s' := by
  obtain ⟨-, ⟨-, hs⟩ | ⟨-, hsyn, hretry, hs⟩ | ⟨-, -, rfl⟩⟩ := tcpTimeout_cases hs
  · obtain ⟨hm, hl, hp, hgone, hc, hreg⟩ := connCloseTimeout_fields hs
    rw [mem_setConn_self] at hm hp hgone
    have hm := hm.trans (update_idem ..)
    exact ⟨c, about_setConn hm hl hreg rfl rfl, .freed hp hgone (by rw [hm, update_self]) hc⟩
  · refine connOnly_connFailed (r := s.setConn c (s.mem c).attempted)
      (about_setConn rfl rfl (fun _ hr => hr) rfl rfl) rfl
      (by rw [mem_setConn_self]; rfl) (fun hroom => ?_) hs
    subst hroom
    exact ⟨_, .retries hsyn hretry⟩
  · exact connOnly_setConn rfl rfl (fun _ hr => hr) rfl rfl rfl rfl

/-! ### Runs -/

theorem ccPollVm_tables {n vm : ℕ} :
    (ccPollVm s n vm).2.tables = s.tables ∧ (ccPollVm s n vm).2.mem = s.mem := by
  unfold ccPollVm
  dsimp only
  split_ifs <;> exact ⟨rfl, rfl⟩

theorem slowInv_step (h : s.Ok cfg) (hs : SlowStep cfg s e s') : s'.Ok cfg := by
  obtain ⟨hen, hs⟩ := hs
  cases e with
  | «open» o c b route => exact slowInv_tcpOpen h hen hs
  | listen ctx op p reuse l =>
    cases hs
    exact slowInv_tcpListen h hen
  | accept a l c b => exact slowInv_tcpAccept h hen.1 hen.2 hs
  | packet p len core fg room => exact slowInv_tcpPacket h hs
  | resolved c mac status =>
    cases hs
    exact slowInv_resolved h hen
  | poll room => exact slowInv_tcpPoll h hs
  | close fuel c => exact slowInv_tcpClose h hen hs
  | timeout c room => exact slowInv_tcpTimeout h hen hs
  | ccPoll n vm =>
    cases hs
    unfold SlowPath.Ok
    rw [ccPollVm_tables.1, ccPollVm_tables.2]
    exact h
  | fast f fs =>
    cases hs
    exact h

theorem slowInv_start (h : SlowStart s) : s.Ok cfg := by
  have htable : ∀ k, s.tables.table k = [] := h.table
  have hwaits : ∀ l, (s.tables.listener l).waitConns = [] := h.waitConns
  have hqueue : s.tables.queue = [] := by
    change s.asyncQ ++ s.resolving = []
    rw [h.asyncQ, h.resolving]
    rfl
  have hwait : ∀ l c, ¬ s.tables.Waits l c := by
    intro l c hw
    unfold ConnTables.Waits at hw
    rw [hwaits l] at hw
    cases hw
  have hdead : ∀ c, (s.mem c).core.live ≠ true := fun c hl => nomatch (h.mem c).symm.trans hl
  refine ⟨⟨fun k => htable k ▸ nodup_nil, hqueue ▸ nodup_nil,
    fun l => hwaits l ▸ nodup_nil, fun l l' c hw => (hwait l c hw).elim, fun p l => ?_,
    fun p ls hp => nomatch (h.ports p).symm.trans hp⟩, fun c => placed_nowhere ?_
      (fun l => hwait l c) (hqueue ▸ not_mem_nil) (fun hl => (hdead c hl).elim)
      fun hl => (hdead c hl).elim⟩
  · refine iff_of_false ?_ fun hl => nomatch (h.listener l).symm.trans hl.1
    change ¬ (s.ports p).Listens l
    rw [h.ports p]
    exact id
  · rintro ⟨k, hk⟩
    rw [htable k] at hk
    cases hk

/-- Runs of the slow path whose steps meet a condition. -/
def SlowRun (cfg : SlowCfg) (P : SlowPath → SlowEvent → Prop) (s s' : SlowPath) : Prop :=
  Relation.ReflTransGen (fun s s' => ∃ e, P s e ∧ SlowStep cfg s e s') s s'

/-- What the steps of a run keep, in states whose tables are sound. -/
theorem SlowRun.invariant {I : SlowPath → Prop} (h : SlowRun cfg P s₀ s) (h₀ : SlowStart s₀)
    (hI : I s₀) (hstep : ∀ s e s', I s → s.Ok cfg → P s e → SlowStep cfg s e s' → I s') : I s := by
  suffices hall : I s ∧ s.Ok cfg from hall.1
  induction h with
  | refl => exact ⟨hI, slowInv_start h₀⟩
  | tail _ hlast ih =>
    obtain ⟨e, hP, hs⟩ := hlast
    exact ⟨hstep _ e _ ih.1 ih.2 hP hs, slowInv_step ih.2 hs⟩

theorem slowInv_run (h₀ : SlowStart s₀) (h : SlowRun cfg P s₀ s) : s.Ok cfg :=
  h.invariant h₀ (slowInv_start h₀) fun _ _ _ hi _ _ hs => slowInv_step hi hs

theorem slowRun_refl : SlowRun cfg P s s := .refl

/-- One more event that returns. -/
theorem SlowRun.after {e : SlowEvent} (h : SlowRun cfg P s₀ s) (hP : P s e)
    (hok : s.Enabled e ∧ (s.next cfg e).isOk = true) : SlowRun cfg P s₀ (s.after cfg e) :=
  .tail h ⟨e, hP, slowStep_after hok.1 hok.2⟩

end Tas
