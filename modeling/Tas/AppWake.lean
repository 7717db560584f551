import Tas.Blocking
import Tas.Lib.Replay

/-! Wakeups of an application thread: `flextcp_context_poll`, `flextcp_context_canwait` and
`flextcp_context_waitclear`, with the fast path cores that write entries for the context. -/
namespace Tas

open Replay Function

/-- The flags of a context for waiting, and when it became idle. -/
structure WaitState where
  pollCalled : Bool
  pollEvents : Bool
  wantwait : Bool
  lastwait : Bool
  lastInevTs : U64
deriving DecidableEq

/-- `flextcp_context_canwait`, with the clock at `now`, and whether the thread may wait. -/
def flextcpContextCanwait (pollCycleApp now : U64) (ctx : WaitState) : WaitState × Bool :=
  if pollCycleApp = noBlocking then (ctx, false)
  else if ctx.pollEvents then
    ({ ctx with pollEvents := false, wantwait := false, lastwait := false }, false)
  else if ctx.wantwait then
    if now - ctx.lastInevTs > pollCycleApp then
      ({ ctx with pollCalled := false, wantwait := false, lastwait := true }, false)
    else (ctx, false)
  else if ctx.lastwait then (ctx, ctx.pollCalled)
  else if ctx.pollCalled then ({ ctx with lastInevTs := now, wantwait := true }, false)
  else (ctx, false)

/-- The flags after `flextcp_context_waitclear`. -/
def flextcpContextWaitclear (ctx : WaitState) : WaitState :=
  { ctx with pollCalled := false, wantwait := false, lastwait := false }

/-- Where the thread is: between calls, in `flextcp_context_poll`, or blocked on the event
descriptor of its context. -/
inductive ThreadPc
  | running
  | polling
  | blocked
deriving DecidableEq

/-- A thread with its context, and the cores that write entries for it. -/
structure AppWait (κ : Type) where
  clock : U64
  posters : Posters κ
  /-- The clock at the begin of the round of a core. -/
  cyc : κ → U64
  ctx : WaitState
  pc : ThreadPc
  /-- Queues that the poll has not looked at. -/
  todo : Finset κ

inductive AppWaitEvent (κ : Type)
  /-- Time passes. -/
  | tick (t : U64)
  /-- A core starts a round. -/
  | round (c : κ)
  /-- A core writes an entry. -/
  | write (c : κ)
  /-- `notify_appctx` after entries were written. -/
  | notify (c : κ)
  /-- The slow path writes to the event descriptor. -/
  | kernelNotify
  /-- A poll with room for `num` events. -/
  | pollBegin (num : ℕ)
  /-- The poll looks at the queue of a core and takes `k` entries. -/
  | look (c : κ) (k : ℕ)
  /-- The poll finds an entry of the slow path. -/
  | kernelEvent
  | pollEnd
  | canwait
  /-- The thread no longer blocks, and may call `flextcp_context_waitclear`. -/
  | wake (clear : Bool)

variable {κ : Type}

/-- An event of the thread or of a core. -/
def AppWait.exec [Fintype κ] [DecidableEq κ] (pollCycleApp : U64) (s : AppWait κ) :
    AppWaitEvent κ → Option (AppWait κ)
  | .tick t => if s.clock ≤ t then some { s with clock := t } else none
  | .round c =>
    if s.posters.owed c = false then some { s with cyc := update s.cyc c s.clock }
    else none
  | .write c => some { s with posters := s.posters.post c }
  | .notify c =>
    if s.posters.owed c then
      some { s with
        posters := s.posters.notify c (notifyCore (s.posters.lastTs c) (s.cyc c) pollCycleApp) }
    else none
  | .kernelNotify => some { s with posters := s.posters.ring }
  | .pollBegin num =>
    if s.pc = .running then
      some { s with
        pc := .polling
        ctx := { s.ctx with pollCalled := true }
        -- without room for events no queue is looked at
        todo := if num = 0 then ∅ else Finset.univ }
    else none
  | .look c k =>
    if s.pc = .polling ∧ c ∈ s.todo ∧ s.posters.seen c + k ≤ s.posters.posted c then
      some { s with
        posters := s.posters.poll c k
        -- also if there is no room for the events of an entry
        ctx := { s.ctx with
          pollEvents := s.ctx.pollEvents || decide (¬ s.posters.allSeen c) }
        todo := s.todo.erase c }
    else none
  | .kernelEvent =>
    if s.pc = .polling then some { s with ctx := { s.ctx with pollEvents := true } } else none
  | .pollEnd =>
    if s.pc = .polling ∧ (s.todo = ∅ ∨ s.ctx.pollEvents) then some { s with pc := .running }
    else none
  | .canwait =>
    if s.pc = .running then
      let (ctx, waits) := flextcpContextCanwait pollCycleApp s.clock s.ctx
      some { s with ctx := ctx, pc := if waits then .blocked else .running }
    else none
  | .wake clear =>
    if s.pc = .blocked then
      if clear then
        some { s with
          pc := .running
          ctx := flextcpContextWaitclear s.ctx
          posters := { s.posters with bell := false } }
      else some { s with pc := .running }
    else none

/-- A new context: nothing was written for it, and all time stamps are in the past. -/
structure AppWaitStart (s : AppWait κ) : Prop where
  posters : s.posters.Fresh
  stamps : ∀ c, s.posters.lastTs c ≤ s.cyc c ∧ s.cyc c ≤ s.clock
  flags : s.ctx.wantwait = false ∧ s.ctx.lastwait = false
  pc : s.pc = .running

/-- The entries of the core were seen, or the event descriptor was written after the last poll that
missed them and is readable, or the notification that is still to come will write it. -/
def AppWait.Announced (pollCycleApp : U64) (s : AppWait κ) (c : κ) : Prop :=
  s.posters.allSeen c ∨ (s.posters.rung c = true ∧ s.posters.bell = true) ∨
    (s.posters.owed c = true ∧
      (notifyCore (s.posters.lastTs c) (s.cyc c) pollCycleApp).2 = true)

/-- After the grace period the thread has looked at the queue of the core once more, and it will
block if the other queues are empty too. -/
def AppWait.LookedAt (s : AppWait κ) (c : κ) : Prop :=
  s.ctx.lastwait = true ∧ s.ctx.pollCalled = true ∧ s.ctx.pollEvents = false ∧ c ∉ s.todo

/-- Polls have room for events, and once the thread has looked at the queue of a core for the last
time before it blocks, the core writes entries only in rounds that started after the grace
period. -/
def AppWait.Recent (pollCycleApp : U64) (s : AppWait κ) : AppWaitEvent κ → Prop
  | .pollBegin num => num ≠ 0
  | .write c =>
    s.LookedAt c → s.ctx.lastInevTs.toNat + pollCycleApp.toNat < (s.cyc c).toNat
  | _ => True

/-! ### Invariant -/

instance [DecidableEq κ] (s : AppWait κ) (c : κ) : Decidable (s.LookedAt c) :=
  inferInstanceAs (Decidable (_ ∧ _))

variable {pollCycleApp : U64} {s s' s₀ : AppWait κ} {mark k : ℕ} {c : κ} {t : U64}

variable [DecidableEq κ]

/-- The end of the grace period, for the cores whose queues were looked at since. -/
def AppWait.since (pollCycleApp : U64) (s : AppWait κ) (c : κ) : Option ℕ :=
  if s.LookedAt c then some (s.ctx.lastInevTs.toNat + pollCycleApp.toNat + 1) else none

structure AppWaitInv (pollCycleApp : U64) (s : AppWait κ) (mark : ℕ) : Prop where
  guarded : s.posters.Guarded pollCycleApp mark (s.since pollCycleApp)
  bounded : s.posters.Bounded s.clock
  stamps : ∀ c, s.posters.lastTs c ≤ s.cyc c ∧ s.cyc c ≤ s.clock
  past : mark ≤ s.clock.toNat
  waits : s.ctx.wantwait = true ∨ s.ctx.lastwait = true → s.ctx.lastInevTs ≤ s.clock ∧
    (s.ctx.pollEvents = false → mark ≤ s.ctx.lastInevTs.toNat)
  /-- A core whose entries were seen before it notifies took its time stamp before. -/
  hurried : ∀ c, s.posters.owed c = true → s.posters.allSeen c → (s.cyc c).toNat ≤ mark
  /-- A core that wrote an entry after the last look took its time stamp after the grace period. -/
  late : ∀ c, s.posters.owed c = true → ¬ s.posters.allSeen c → s.LookedAt c →
    s.ctx.lastInevTs.toNat + pollCycleApp.toNat < (s.cyc c).toNat
  looked : s.pc ≠ .polling → s.ctx.lastwait = true → s.ctx.pollCalled = true →
    s.ctx.pollEvents = false → s.todo = ∅
  blocked : s.pc = .blocked → s.ctx.lastwait = true ∧ s.ctx.pollCalled = true ∧
    s.ctx.pollEvents = false

theorem AppWait.since_some {a : ℕ} (h : a ∈ s.since pollCycleApp c) :
    s.LookedAt c ∧ a = s.ctx.lastInevTs.toNat + pollCycleApp.toNat + 1 := by
  unfold AppWait.since at h
  split_ifs at h with hlooked
  · refine ⟨hlooked, ?_⟩
    simpa using h.symm
  · simp at h

/-- A thread that is not about to block has looked at no queue. -/
theorem AppWaitInv.of_awake (hlast : ∀ c, ¬ s.LookedAt c)
    (hguarded : s.posters.Guarded pollCycleApp mark fun _ => none)
    (hbounded : s.posters.Bounded s.clock)
    (hstamps : ∀ c, s.posters.lastTs c ≤ s.cyc c ∧ s.cyc c ≤ s.clock) (hpast : mark ≤ s.clock.toNat)
    (hwaits : s.ctx.wantwait = true ∨ s.ctx.lastwait = true → s.ctx.lastInevTs ≤ s.clock ∧
      (s.ctx.pollEvents = false → mark ≤ s.ctx.lastInevTs.toNat))
    (hhurried : ∀ c, s.posters.owed c = true → s.posters.allSeen c → (s.cyc c).toNat ≤ mark)
    (hpc : s.pc ≠ .polling →
      s.ctx.lastwait = false ∨ s.ctx.pollCalled = false ∨ s.ctx.pollEvents = true)
    (hblocked : s.pc ≠ .blocked) : AppWaitInv pollCycleApp s mark := by
  refine ⟨?_, hbounded, hstamps, hpast, hwaits, hhurried, fun c _ _ hl => absurd hl (hlast c),
    fun hp hl hcalled hev => ?_, fun hb => absurd hb hblocked⟩
  · have hnone : s.since pollCycleApp = fun _ => none := by
      funext c
      exact if_neg (hlast c)
    rw [hnone]
    exact hguarded
  · obtain hl' | hcalled' | hev' := hpc hp
    · cases hl'.symm.trans hl
    · cases hcalled'.symm.trans hcalled
    · cases hev.symm.trans hev'

theorem AppWaitStart.inv (h : AppWaitStart s) : AppWaitInv pollCycleApp s s.clock.toNat := by
  have hpast : ∀ c, s.posters.lastTs c ≤ s.clock := fun c =>
    Nat.le_trans (h.stamps c).1 (h.stamps c).2
  refine .of_awake (fun c hl => absurd (h.flags.2.symm.trans hl.1) (by decide))
    (fun c => .take fun _ => hpast c) ⟨fun c => ?_, hpast⟩ h.stamps le_rfl ?_ (fun c howed => ?_)
    (fun _ => .inl h.flags.2) (by rw [h.pc]; decide)
  · rw [h.posters.seen]
    exact Nat.zero_le _
  · rintro (hw | hl)
    · cases h.flags.1.symm.trans hw
    · cases h.flags.2.symm.trans hl
  · cases (h.posters.owed c).symm.trans howed

section

variable (h : AppWaitInv pollCycleApp s mark)
include h

theorem AppWaitInv.tick (ht : s.clock ≤ t) :
    AppWaitInv pollCycleApp { s with clock := t } mark := by
  refine { h with
    bounded := h.bounded.tick ht
    stamps := fun c => ⟨(h.stamps c).1, Nat.le_trans (h.stamps c).2 ht⟩
    past := Nat.le_trans h.past ht
    waits := fun hw => ?_ }
  exact ⟨Nat.le_trans (h.waits hw).1 ht, (h.waits hw).2⟩

/-- A core starts a round when all its notifications are sent. -/
theorem AppWaitInv.round (howed : s.posters.owed c = false) :
    AppWaitInv pollCycleApp { s with cyc := update s.cyc c s.clock } mark := by
  have hother : ∀ q, s.posters.owed q = true → q ≠ c := by
    rintro q hq rfl
    cases howed.symm.trans hq
  refine { h with
    stamps := ?_, hurried := fun q hq hall => ?_, late := fun q hq hunseen hl => ?_ }
  · exact (forall_update_iff s.cyc fun q t => s.posters.lastTs q ≤ t ∧ t ≤ s.clock).2
      ⟨⟨h.bounded.past c, Nat.le_refl _⟩, fun q _ => h.stamps q⟩
  · change (update s.cyc c s.clock q).toNat ≤ mark
    rw [update_of_ne (hother q hq)]
    exact h.hurried q hq hall
  · change _ < (update s.cyc c s.clock q).toNat
    rw [update_of_ne (hother q hq)]
    exact h.late q hq hunseen hl

theorem AppWaitInv.write
    (hrecent : s.LookedAt c → s.ctx.lastInevTs.toNat + pollCycleApp.toNat < (s.cyc c).toNat) :
    AppWaitInv pollCycleApp { s with posters := s.posters.post c } mark := by
  have hposted : ∀ q, q ≠ c → (s.posters.post c).posted q = s.posters.posted q :=
    fun q hq => update_of_ne hq _ _
  have howed : ∀ q, q ≠ c → (s.posters.post c).owed q = s.posters.owed q :=
    fun q hq => update_of_ne hq _ _
  have hself : (s.posters.post c).posted c = s.posters.posted c + 1 := update_self _ _ _
  have hle := h.bounded.seen_le c
  refine { h with
    guarded := h.guarded.post hle, bounded := h.bounded.post c
    hurried := fun q ho hall => ?_, late := fun q ho hunseen hl => ?_ }
  · change s.posters.seen q = (s.posters.post c).posted q at hall
    by_cases hq : q = c
    · subst hq
      omega
    · exact h.hurried q ((howed q hq).symm.trans ho) (hall.trans (hposted q hq))
  · by_cases hq : q = c
    · subst hq
      exact hrecent hl
    · refine h.late q ((howed q hq).symm.trans ho) (fun hall => hunseen ?_) hl
      exact hall.trans (hposted q hq).symm

theorem AppWaitInv.notify (hon : pollCycleApp ≠ noBlocking) (howed : s.posters.owed c = true) :
    AppWaitInv pollCycleApp { s with
      posters := s.posters.notify c (notifyCore (s.posters.lastTs c) (s.cyc c) pollCycleApp) }
      mark := by
  rw [notifyCore_eq hon]
  have hstill : ∀ q, (s.posters.notify c (s.cyc c,
      decide (s.cyc c - s.posters.lastTs c > pollCycleApp))).owed q = true →
      s.posters.owed q = true := by
    intro q hq
    change update s.posters.owed c false q = true at hq
    by_cases hqc : q = c
    · rw [hqc, update_self] at hq
      cases hq
    · rwa [update_of_ne hqc] at hq
  refine { h with
    guarded := h.guarded.notify (h.stamps c).1 (h.hurried c howed) ?_
    bounded := h.bounded.notify (h.stamps c).2
    stamps := ?_
    hurried := fun q hq => h.hurried q (hstill q hq)
    late := fun q hq => h.late q (hstill q hq) }
  · intro a ha hunseen
    obtain ⟨hl, rfl⟩ := AppWait.since_some ha
    exact h.late c howed hunseen hl
  · exact (forall_update_iff s.posters.lastTs fun q t => t ≤ s.cyc q ∧ s.cyc q ≤ s.clock).2
      ⟨⟨Nat.le_refl _, (h.stamps c).2⟩, fun q _ => h.stamps q⟩

theorem AppWaitInv.kernelNotify :
    AppWaitInv pollCycleApp { s with posters := s.posters.ring } mark :=
  { h with guarded := h.guarded.ring, bounded := ⟨h.bounded.seen_le, h.bounded.past⟩ }

theorem AppWaitInv.pollBegin {todo : Finset κ} (htodo : ∀ c, c ∈ todo) :
    AppWaitInv pollCycleApp { s with
      pc := .polling, ctx := { s.ctx with pollCalled := true }, todo := todo } mark :=
  .of_awake (fun c hl => hl.2.2.2 (htodo c)) (h.guarded.active le_rfl) h.bounded h.stamps h.past
    h.waits h.hurried (fun hp => absurd rfl hp) nofun

/-- The queue of a core is empty. -/
theorem AppWaitInv.lookEmpty (hpc : s.pc = .polling) (hall : s.posters.allSeen c) :
    AppWaitInv pollCycleApp { s with
      posters := s.posters.poll c 0, todo := s.todo.erase c } mark := by
  have hseen : ∀ q, (s.posters.poll c 0).seen q = s.posters.seen q := by
    intro q
    change update s.posters.seen c (s.posters.seen c + 0) q = _
    rw [Nat.add_zero, update_eq_self]
  have hother : ∀ q, q ≠ c → (AppWait.LookedAt { s with
      posters := s.posters.poll c 0, todo := s.todo.erase c } q ↔ s.LookedAt q) := by
    intro q hq
    have hmem : q ∉ s.todo.erase c ↔ q ∉ s.todo := by simp [hq]
    exact and_congr_right' (and_congr_right' (and_congr_right' hmem))
  refine { h with
    guarded := h.guarded.look hall (fun q hq => ?_) fun a ha => ?_
    bounded := h.bounded.poll (h.bounded.seen_le c)
    hurried := fun q hq hq' => h.hurried q hq ((hseen q).symm.trans hq')
    late := fun q hq hunseen hl => ?_
    looked := fun hp => absurd hpc hp }
  · unfold AppWait.since
    simp only [hother q hq]
  · obtain ⟨⟨hlast, -, hev, -⟩, rfl⟩ := AppWait.since_some ha
    have hmark := (h.waits (.inr hlast)).2 hev
    change mark + pollCycleApp.toNat < s.ctx.lastInevTs.toNat + pollCycleApp.toNat + 1
    omega
  · have hunseen' : ¬ s.posters.allSeen q := fun hq' => hunseen ((hseen q).trans hq')
    by_cases hqc : q = c
    · subst hqc
      exact absurd hall hunseen'
    · exact h.late q hq hunseen' ((hother q hqc).1 hl)

/-- The poll finds entries, and takes some of them. The mark moves to the present. -/
theorem AppWaitInv.lookFull (hpc : s.pc = .polling)
    (hk : s.posters.seen c + k ≤ s.posters.posted c) :
    AppWaitInv pollCycleApp { s with
      posters := s.posters.poll c k, ctx := { s.ctx with pollEvents := true },
      todo := s.todo.erase c } s.clock.toNat := by
  refine .of_awake (fun c hl => absurd hl.2.2.1 (by simp))
    (h.guarded.take h.past (h.bounded.past c)) (h.bounded.poll hk) h.stamps le_rfl
    (fun hw => ⟨(h.waits hw).1, nofun⟩) (fun q _ _ => (h.stamps q).2) (fun _ => .inr (.inr rfl))
    (fun hb => absurd (hpc.symm.trans hb) (by decide))

theorem AppWaitInv.kernelEvent (hpc : s.pc = .polling) :
    AppWaitInv pollCycleApp { s with ctx := { s.ctx with pollEvents := true } } mark :=
  .of_awake (fun c hl => absurd hl.2.2.1 (by simp)) (h.guarded.active le_rfl) h.bounded h.stamps
    h.past (fun hw => ⟨(h.waits hw).1, nofun⟩) h.hurried (fun _ => .inr (.inr rfl))
    fun hb => absurd (hpc.symm.trans hb) (by decide)

theorem AppWaitInv.pollEnd (hdone : s.todo = ∅ ∨ s.ctx.pollEvents = true) :
    AppWaitInv pollCycleApp { s with pc := .running } mark := by
  refine { h with looked := fun _ _ _ hev => ?_, blocked := nofun }
  obtain htodo | hev' := hdone
  · exact htodo
  · cases hev.symm.trans hev'

omit h in
/-- What a call of `flextcp_context_canwait` can do. -/
theorem flextcpContextCanwait_cases {ctx : WaitState} {now : U64} {r : WaitState × Bool}
    (hon : pollCycleApp ≠ noBlocking) (h : flextcpContextCanwait pollCycleApp now ctx = r) :
    (r.2 = false ∧ r.1 = ctx) ∨
      (r.2 = true ∧ r.1 = ctx ∧ ctx.lastwait = true ∧ ctx.pollCalled = true ∧
        ctx.pollEvents = false) ∨
      (r.2 = false ∧ r.1.wantwait = false ∧ r.1.lastwait = false) ∨
      (r.2 = false ∧ ctx.pollEvents = false ∧ ctx.wantwait = true ∧
        r.1 = { ctx with pollCalled := false, wantwait := false, lastwait := true }) ∨
      (r.2 = false ∧ ctx.pollEvents = false ∧ ctx.lastwait = false ∧
        r.1 = { ctx with lastInevTs := now, wantwait := true }) := by
  subst h
  unfold flextcpContextCanwait
  rw [if_neg hon]
  cases hev : ctx.pollEvents with
  | true => exact .inr (.inr (.inl ⟨rfl, rfl, rfl⟩))
  | false =>
    cases hwant : ctx.wantwait with
    | true =>
      by_cases hlong : now - ctx.lastInevTs > pollCycleApp
      · simp [hlong]
      · simp [hlong]
    | false =>
      cases hlast : ctx.lastwait with
      | true | false =>
        cases hcalled : ctx.pollCalled <;> simp

theorem AppWaitInv.canwait {r : WaitState × Bool} (hon : pollCycleApp ≠ noBlocking)
    (hpc : s.pc = .running) (hr : flextcpContextCanwait pollCycleApp s.clock s.ctx = r) :
    AppWaitInv pollCycleApp { s with
      ctx := r.1, pc := if r.2 then .blocked else .running } mark := by
  obtain ⟨ctx, waits⟩ := r
  have hlooked := h.looked (by rw [hpc]; decide)
  obtain ⟨rfl, rfl⟩ | ⟨rfl, rfl, hlast, hcalled, hev⟩ | ⟨rfl, hwant, hlast⟩ |
    ⟨rfl, hev, hwant, rfl⟩ | ⟨rfl, hev, hlast, rfl⟩ := flextcpContextCanwait_cases hon hr
  · exact { h with looked := fun _ => hlooked, blocked := nofun }
  · -- the thread blocks
    exact { h with looked := fun _ => hlooked, blocked := fun _ => ⟨hlast, hcalled, hev⟩ }
  · -- there were events
    refine .of_awake (fun c hl => absurd (hlast.symm.trans hl.1) (by decide))
      (h.guarded.active le_rfl) h.bounded h.stamps h.past ?_ h.hurried (fun _ => .inl hlast) nofun
    rintro (hw | hl)
    · cases hwant.symm.trans hw
    · cases hlast.symm.trans hl
  · -- the grace period is over
    exact .of_awake (fun c hl => absurd hl.2.1 (by simp)) (h.guarded.active le_rfl) h.bounded
      h.stamps h.past (fun _ => h.waits (.inl hwant)) h.hurried (fun _ => .inr (.inl rfl)) nofun
  · -- the thread starts to wait
    exact .of_awake (fun c hl => absurd (hlast.symm.trans hl.1) (by decide))
      (h.guarded.active le_rfl) h.bounded h.stamps h.past
      (fun _ => ⟨Nat.le_refl _, fun _ => h.past⟩) h.hurried (fun _ => .inl hlast) nofun

theorem AppWaitInv.wake (hpc : s.pc = .blocked) :
    AppWaitInv pollCycleApp { s with pc := .running } mark :=
  { h with looked := fun _ => h.looked (by rw [hpc]; decide), blocked := nofun }

theorem AppWaitInv.waitclear :
    AppWaitInv pollCycleApp { s with
      pc := .running, ctx := flextcpContextWaitclear s.ctx,
      posters := { s.posters with bell := false } } mark := by
  refine .of_awake (fun c hl => absurd hl.1 Bool.false_ne_true) h.guarded.read
    ⟨h.bounded.seen_le, h.bounded.past⟩ h.stamps h.past ?_ h.hurried (fun _ => .inl rfl) nofun
  rintro (hw | hl)
  · exact absurd hw Bool.false_ne_true
  · exact absurd hl Bool.false_ne_true

omit h in
theorem appWaitInv_step [Fintype κ] {e : AppWaitEvent κ} (hon : pollCycleApp ≠ noBlocking)
    (h : ∃ mark, AppWaitInv pollCycleApp s mark) (hrecent : s.Recent pollCycleApp e)
    (hexec : s.exec pollCycleApp e = some s') : ∃ mark, AppWaitInv pollCycleApp s' mark := by
  obtain ⟨mark, h⟩ := h
  unfold AppWait.exec at hexec
  cases e with
  | tick t =>
    obtain ⟨ht, rfl⟩ := of_guard hexec
    exact ⟨mark, h.tick ht⟩
  | round c =>
    obtain ⟨howed, rfl⟩ := of_guard hexec
    exact ⟨mark, h.round howed⟩
  | write c =>
    cases hexec
    exact ⟨mark, h.write hrecent⟩
  | notify c =>
    obtain ⟨howed, rfl⟩ := of_guard hexec
    exact ⟨mark, h.notify hon howed⟩
  | kernelNotify =>
    cases hexec
    exact ⟨mark, h.kernelNotify⟩
  | pollBegin num =>
    obtain ⟨-, rfl⟩ := of_guard hexec
    refine ⟨mark, h.pollBegin fun c => ?_⟩
    rw [if_neg hrecent]
    exact Finset.mem_univ c
  | look c k =>
    obtain ⟨⟨hpc, -, hk⟩, rfl⟩ := of_guard hexec
    by_cases hall : s.posters.allSeen c
    · obtain rfl : k = 0 := by
        unfold Posters.allSeen at hall
        omega
      rw [show (s.ctx.pollEvents || decide (¬ s.posters.allSeen c)) = s.ctx.pollEvents by
        simp [hall]]
      exact ⟨mark, h.lookEmpty hpc hall⟩
    · rw [show (s.ctx.pollEvents || decide (¬ s.posters.allSeen c)) = true by simp [hall]]
      exact ⟨s.clock.toNat, h.lookFull hpc hk⟩
  | kernelEvent =>
    obtain ⟨hpc, rfl⟩ := of_guard hexec
    exact ⟨mark, h.kernelEvent hpc⟩
  | pollEnd =>
    obtain ⟨⟨-, hdone⟩, rfl⟩ := of_guard hexec
    exact ⟨mark, h.pollEnd hdone⟩
  | canwait =>
    obtain ⟨hpc, rfl⟩ := of_guard hexec
    exact ⟨mark, h.canwait hon hpc rfl⟩
  | wake clear =>
    cases clear with
    | true =>
      obtain ⟨-, rfl⟩ := of_guard hexec
      exact ⟨mark, h.waitclear⟩
    | false =>
      obtain ⟨hpc, rfl⟩ := of_guard hexec
      exact ⟨mark, h.wake hpc⟩

omit h in
/-- Without a poll cycle the thread never blocks. -/
theorem appWait_not_blocked_step [Fintype κ] {e : AppWaitEvent κ} (hoff : pollCycleApp = noBlocking)
    (h : s.pc ≠ .blocked) (hexec : s.exec pollCycleApp e = some s') : s'.pc ≠ .blocked := by
  unfold AppWait.exec at hexec
  cases e with
  | canwait =>
    obtain ⟨-, rfl⟩ := of_guard hexec
    have hstay : (flextcpContextCanwait pollCycleApp s.clock s.ctx).2 = false := by
      unfold flextcpContextCanwait
      rw [if_pos hoff]
    change (if (flextcpContextCanwait pollCycleApp s.clock s.ctx).2 then ThreadPc.blocked
      else .running) ≠ _
    rw [hstay]
    decide
  | wake clear =>
    exact absurd (Option.ite_none_right_eq_some.1 hexec).1 h
  | pollBegin | pollEnd =>
    obtain ⟨-, rfl⟩ := of_guard hexec
    exact nofun
  | write | kernelNotify =>
    cases hexec
    exact h
  | tick | round | notify | look | kernelEvent =>
    obtain ⟨-, rfl⟩ := of_guard hexec
    exact h

/-- A thread that blocks has looked at all queues after the grace period. -/
theorem AppWaitInv.announced (hon : pollCycleApp ≠ noBlocking)
    (hblocked : s.pc = .blocked) (c : κ) : s.Announced pollCycleApp c := by
  obtain ⟨hlast, hcalled, hev⟩ := h.blocked hblocked
  have htodo := h.looked (by rw [hblocked]; decide) hlast hcalled hev
  have hlooked : s.LookedAt c := ⟨hlast, hcalled, hev, by rw [htodo]; exact Finset.notMem_empty c⟩
  have hguarded := h.guarded c
  rw [show s.since pollCycleApp c = some _ from if_pos hlooked] at hguarded
  by_cases hall : s.posters.allSeen c
  · exact .inl hall
  obtain hseen | hrung | ⟨howed, hrings⟩ := hguarded.announced
  · exact .inl (not_not.1 hseen)
  · exact .inr (.inl hrung)
  · refine .inr (.inr ⟨howed, ?_⟩)
    rw [notifyCore_eq hon]
    exact decide_eq_true ((elapsed_iff (h.stamps c).1).2
      (hrings (s.cyc c).toNat (h.late c howed hall hlooked)))

end

/-- Whenever the thread blocks, all entries were seen or are announced. -/
theorem app_wakeups_kept [Fintype κ] (h₀ : AppWaitStart s₀)
    (hrun : Run (AppWait.exec pollCycleApp) (AppWait.Recent pollCycleApp) s₀ s)
    (hblocked : s.pc = .blocked) (c : κ) : s.Announced pollCycleApp c := by
  by_cases hon : pollCycleApp = noBlocking
  · have hnot := hrun.invariant (fun s => s.pc ≠ .blocked) (by rw [h₀.pc]; decide)
      fun t e t' ht _ hexec => appWait_not_blocked_step hon ht hexec
    exact absurd hblocked hnot
  · obtain ⟨mark, hinv⟩ := hrun.invariant (fun s => ∃ mark, AppWaitInv pollCycleApp s mark)
      ⟨_, h₀.inv⟩ fun t e t' ht hP hexec => appWaitInv_step hon ht hP hexec
    exact hinv.announced hon hblocked c

/-! ### Runs with one core -/

instance AppWait.decidableRecent (s : AppWait κ) (e : AppWaitEvent κ) :
    Decidable (s.Recent pollCycleApp e) :=
  match e with
  | .pollBegin _ => inferInstanceAs (Decidable (_ ≠ _))
  | .write _ => inferInstanceAs (Decidable (_ → _))
  | .tick _ | .round _ | .notify _ | .kernelNotify | .look _ _ | .kernelEvent | .pollEnd |
    .canwait | .wake _ => .isTrue trivial

/-- The clock is at 1000. -/
def appWaitFirst : AppWait (Fin 1) where
  clock := 1000
  posters := .silent
  cyc _ := 0
  ctx := ⟨false, false, false, false, 0⟩
  pc := .running
  todo := ∅

theorem appWaitStart_first : AppWaitStart appWaitFirst :=
  ⟨Posters.fresh_silent, fun _ => ⟨Nat.le_refl _, Nat.zero_le _⟩, ⟨rfl, rfl⟩, rfl⟩

/-- A poll that takes `k` entries, and a call of `flextcp_context_canwait`. -/
def pollThenWait (k : ℕ) : List (AppWaitEvent (Fin 1)) :=
  [.pollBegin 8, .look (Fin.last 0) k, .pollEnd, .canwait]

/-- An entry that is written while the thread blocks is announced. -/
theorem written_while_thread_blocked :
    ∃ s, Run (AppWait.exec 100) (AppWait.Recent 100) appWaitFirst s ∧
      (s.pc, s.posters.posted 0, s.posters.seen 0) = (.blocked, 1, 0) ∧ s.Announced 100 0 := by
  have hreach : ∃ s, Run (AppWait.exec 100) (AppWait.Recent 100) appWaitFirst s ∧
      (s.pc, s.posters.posted 0, s.posters.seen 0) = (.blocked, 1, 0) :=
    run_of_outcome
      (pollThenWait 0 ++ [.tick 1101] ++ pollThenWait 0 ++ pollThenWait 0 ++
        [.tick 1102, .round 0, .write 0, .notify 0]) (by decide +kernel)
  obtain ⟨s, hrun, hs⟩ := hreach
  exact ⟨s, hrun, hs, app_wakeups_kept appWaitStart_first hrun (congrArg Prod.fst hs) 0⟩

/-- A round of the core starts at the end of the grace period, and writes its entry when the thread
has already looked at the queue for the last time. The time stamp is that of the round, so the
notification is suppressed. -/
theorem stamp_of_round_loses_wakeup :
    ∃ s, Run (AppWait.exec 100) Any appWaitFirst s ∧ AppWaitStart appWaitFirst ∧
      s.pc = .blocked ∧ s.posters.bell = false ∧ ¬ s.Announced 100 0 := by
  have hreach : ∃ s, Run (AppWait.exec 100) Any appWaitFirst s ∧
      (s.pc, s.posters.posted 0, s.posters.seen 0, s.posters.bell, s.posters.rung 0,
        s.posters.owed 0) = (.blocked, 2, 1, false, false, false) :=
    run_of_outcome
      (pollThenWait 0 ++ [.tick 1101] ++ pollThenWait 0 ++ pollThenWait 0 ++
        [.tick 1200, .round 0, .write 0, .notify 0, .wake true] ++ pollThenWait 1 ++
        pollThenWait 0 ++ [.tick 1300, .round 0, .tick 1301] ++ pollThenWait 0 ++
        pollThenWait 0 ++ [.write 0, .notify 0]) (by decide +kernel)
  obtain ⟨s, hrun, hs⟩ := hreach
  simp only [Prod.mk.injEq] at hs
  obtain ⟨hblocked, hposted, hseen, hbell, hrung, howed⟩ := hs
  exact ⟨s, hrun, appWaitStart_first, hblocked, hbell,
    Posters.not_announced (by omega) hrung howed⟩

end Tas
