import Tas.Lib.Replay

/-! Doorbells of the proxies: each message in the channel between the host proxy and a guest proxy
is followed by an interrupt, which the other side counts. -/
namespace Tas

open Replay Function

/-- Messages of the channel, by their type. -/
inductive ProxyMsg
  | hello
  | tasinfoReq
  | tasinfoRes
  | contextReq
  | contextRes
  | pokeAppCtx
  | pokeTasKernel
  | pokeTasCore
  | newappReq
  | newappRes
deriving DecidableEq

inductive Side
  | host
  | guest
deriving DecidableEq

def Side.peer : Side → Side
  | host => guest
  | guest => host

/-- The message that the handler of a message writes, unless it fails. -/
def ProxyMsg.reply : Side → ProxyMsg → Option ProxyMsg
  | .host, .tasinfoReq => some .tasinfoRes
  | .host, .contextReq => some .contextRes
  | .host, .newappReq => some .newappRes
  | .guest, .hello => some .tasinfoReq
  | _, _ => none

/-- Messages after which a count is drained: all that a proxy knows, except for pokes of application
contexts. -/
def ProxyMsg.drained : Side → ProxyMsg → Bool
  | .host, .tasinfoReq | .host, .contextReq | .host, .newappReq | .host, .pokeTasCore
  | .host, .pokeTasKernel => true
  | .guest, .hello | .guest, .tasinfoRes | .guest, .newappRes | .guest, .contextRes => true
  | _, _ => false

/-- Messages that a proxy writes without being asked. -/
def ProxyMsg.sent : Side → ProxyMsg → Bool
  | .host, .hello | .host, .pokeAppCtx => true
  | .guest, .newappReq | .guest, .contextReq | .guest, .pokeTasCore | .guest, .pokeTasKernel => true
  | _, _ => false

/-- One end of the channel of a VM, with the queue that is read there and its counter. -/
abbrev ProxyEnd (ι : Type) := ι × Side

def ProxyEnd.peer {ι : Type} (x : ProxyEnd ι) : ProxyEnd ι := (x.1, x.2.peer)

/-- The thread that reads at an end: there is one host proxy, and a guest proxy for each VM. -/
def ProxyEnd.thread {ι : Type} (x : ProxyEnd ι) : Option ι :=
  match x.2 with
  | .host => none
  | .guest => some x.1

/-- Where a proxy is. -/
inductive ProxyPc (ι : Type)
  /-- In its loop, between messages. -/
  | loop
  /-- It has taken a message from the queue. -/
  | handling (x : ProxyEnd ι) (m : ProxyMsg)
  /-- The host has written the response with a context, and adds it to its epoll descriptors. -/
  | linking (x : ProxyEnd ι)
  /-- It has written a message to the other end, and now raises the counter there. -/
  | raising (x : ProxyEnd ι) (drains : Bool)
  | draining (x : ProxyEnd ι)
  /-- In `epoll_wait` without a timeout. -/
  | blocked
deriving DecidableEq

/-- The host proxy and the guest proxies. -/
structure Proxies (ι : Type) where
  queue : ProxyEnd ι → List ProxyMsg
  count : ProxyEnd ι → ℕ
  pc : Option ι → ProxyPc ι

inductive ProxyEvent (ι : Type)
  /-- The next message is read. -/
  | pop (x : ProxyEnd ι) (m : ProxyMsg)
  /-- The handler runs, and may fail before it writes a message. -/
  | handle (x : ProxyEnd ι) (m : ProxyMsg) (ok : Bool)
  /-- The calls of `epoll_ctl` for a new context. -/
  | link (x : ProxyEnd ι) (ok : Bool)
  /-- A message is written for an application, a VM that connects or an event descriptor. -/
  | send (x : ProxyEnd ι) (m : ProxyMsg)
  /-- `notify_guest` or `ivshmem_notify_host`. -/
  | raise (x : ProxyEnd ι) (drains : Bool)
  /-- `ivshmem_drain_evfd`, which takes one count if there is one. -/
  | drain (x : ProxyEnd ι)
  | block (t : Option ι)
  /-- `epoll_wait` returns, for a counter or for another descriptor. -/
  | wake (t : Option ι) (counter : Option (ProxyEnd ι))

/-- The proxy whose event this is. -/
def ProxyEvent.thread {ι : Type} : ProxyEvent ι → Option ι
  | .pop x _ | .handle x _ _ | .link x _ | .send x _ | .raise x _ | .drain x => x.thread
  | .block t | .wake t _ => t

variable {ι : Type}

section Exec

variable [DecidableEq ι]

def Proxies.setPc (s : Proxies ι) (t : Option ι) (p : ProxyPc ι) : Proxies ι :=
  { s with pc := update s.pc t p }

/-- Write a message to the other end. -/
def Proxies.write (s : Proxies ι) (x : ProxyEnd ι) (m : ProxyMsg) : Proxies ι :=
  { s with queue := update s.queue x.peer (s.queue x.peer ++ [m]) }

/-- An event of a proxy. -/
def Proxies.exec (s : Proxies ι) : ProxyEvent ι → Option (Proxies ι)
  | .pop x m =>
    if s.pc x.thread = .loop ∧ (s.queue x).head? = some m then
      some ({ s with queue := update s.queue x (s.queue x).tail }.setPc x.thread
        (.handling x m))
    else none
  | .handle x m ok =>
    if s.pc x.thread = .handling x m then
      match if ok then m.reply x.2 else none with
      | some r =>
        some ((s.write x r).setPc x.thread
          (if m = .contextReq then .linking x else .raising x true))
      | none => some (s.setPc x.thread (if m.drained x.2 then .draining x else .loop))
    else none
  | .link x ok =>
    if s.pc x.thread = .linking x then
      some (s.setPc x.thread (if ok then .raising x true else .draining x))
    else none
  | .send x m =>
    if s.pc x.thread = .loop ∧ m.sent x.2 then
      some ((s.write x m).setPc x.thread (.raising x false))
    else none
  | .raise x drains =>
    if s.pc x.thread = .raising x drains then
      some ({ s with count := update s.count x.peer (s.count x.peer + 1) }.setPc x.thread
        (if drains then .draining x else .loop))
    else none
  | .drain x =>
    if s.pc x.thread = .draining x then
      some ({ s with count := update s.count x (s.count x - 1) }.setPc x.thread .loop)
    else none
  | .block t => if s.pc t = .loop then some (s.setPc t .blocked) else none
  | .wake t counter =>
    if s.pc t = .blocked ∧ ∀ x ∈ counter, x.thread = t ∧ 0 < s.count x then some (s.setPc t .loop)
    else none

end Exec

/-- No messages, and no proxy blocks. -/
structure ProxiesStart (s : Proxies ι) : Prop where
  queue : ∀ x, s.queue x = []
  pc : ∀ t, s.pc t = .loop

/-- A writer that has written a message raises the counter: the only calls between are those of
`epoll_ctl` for a new context. -/
def Proxies.Raises (_ : Proxies ι) : ProxyEvent ι → Prop
  | .link _ ok => ok = true
  | _ => True

/-! ### Counts -/

@[simp] theorem ProxyEnd.peer_peer (x : ProxyEnd ι) : x.peer.peer = x := by
  obtain ⟨v, side⟩ := x
  cases side <;> rfl

theorem ProxyEnd.peer_thread_ne (x : ProxyEnd ι) : x.peer.thread ≠ x.thread := by
  obtain ⟨v, side⟩ := x
  cases side <;> simp [ProxyEnd.peer, Side.peer, ProxyEnd.thread]

variable [DecidableEq ι]

/-- The proxy has still to drain a count at this end. -/
def ProxyPc.owed (x : ProxyEnd ι) : ProxyPc ι → ℕ
  | .handling y _ | .linking y | .raising y true | .draining y => if y = x then 1 else 0
  | .loop | .raising _ false | .blocked => 0

/-- The proxy has still to raise the counter of this end. -/
def ProxyPc.pending (x : ProxyEnd ι) : ProxyPc ι → ℕ
  | .linking y | .raising y _ => if y.peer = x then 1 else 0
  | .loop | .handling _ _ | .draining _ | .blocked => 0

/-- Raises of the counter of this end that are still to come for messages in the channel. -/
def Proxies.pendingRaises (s : Proxies ι) (x : ProxyEnd ι) : ℕ := (s.pc x.peer.thread).pending x

/-- Each message has a count, or a raise that is still to come. -/
def Proxies.Covered (s : Proxies ι) (x : ProxyEnd ι) : Prop :=
  (s.queue x).length + (s.pc x.thread).owed x ≤ s.count x + s.pendingRaises x

/-- The proxy is busy with an end that it reads. -/
def ProxyPc.In (t : Option ι) : ProxyPc ι → Prop
  | .handling y _ | .linking y | .raising y _ | .draining y => y.thread = t
  | .loop | .blocked => True

variable {s s' s₀ : Proxies ι} {x y : ProxyEnd ι} {t : Option ι} {m : ProxyMsg} {drains : Bool}
  {p p' : ProxyPc ι} {e : ProxyEvent ι}

theorem ProxyPc.In.owed (h : p.In t) (hx : x.thread ≠ t) : p.owed x = 0 := by
  cases p with
  | handling y m | linking y | draining y => exact if_neg fun hy : y = x => hx (hy ▸ h)
  | raising y drains =>
    cases drains with
    | true => exact if_neg fun hy : y = x => hx (hy ▸ h)
    | false => rfl
  | loop | blocked => rfl

theorem ProxyPc.In.pending (h : p.In t) (hx : x.peer.thread ≠ t) : p.pending x = 0 := by
  cases p with
  | linking y | raising y drains =>
    refine if_neg fun hy => hx ?_
    rw [← hy, y.peer_peer]
    exact h
  | handling y m | draining y | loop | blocked => rfl

/-- A step of one proxy: at each end, the messages, what is owed for them and the raises to come
change with the count. -/
theorem covered_of_balance (h : ∀ x, s.Covered x) (hpc : s.pc t = p) (hp : p.In t)
    (hpc' : s'.pc = update s.pc t p') (hp' : p'.In t)
    (hbalance : ∀ x, (s'.queue x).length + p'.owed x + p.pending x + s.count x ≤
      s'.count x + p'.pending x + ((s.queue x).length + p.owed x)) : ∀ x, s'.Covered x := by
  intro x
  have hx := h x
  have hle := hbalance x
  unfold Proxies.Covered Proxies.pendingRaises at hx ⊢
  rw [hpc', update_apply, update_apply]
  by_cases ht : x.thread = t
  · -- the proxy at the other end stays where it is
    have hne : x.peer.thread ≠ t := ht ▸ x.peer_thread_ne
    rw [hp.pending hne, hp'.pending hne] at hle
    rw [ht, hpc] at hx
    rw [if_pos ht, if_neg hne]
    omega
  rw [hp.owed ht, hp'.owed ht] at hle
  rw [if_neg ht]
  by_cases hpeer : x.peer.thread = t
  · rw [hpeer, hpc] at hx
    rw [if_pos hpeer]
    omega
  · rw [hp.pending hpeer, hp'.pending hpeer] at hle
    rw [if_neg hpeer]
    omega

theorem covered_start (h : ProxiesStart s) (x : ProxyEnd ι) : s.Covered x := by
  unfold Proxies.Covered
  rw [h.queue, h.pc]
  exact Nat.zero_le _

attribute [simp] Proxies.setPc ProxyPc.owed ProxyPc.pending

theorem length_write (s : Proxies ι) (y : ProxyEnd ι) (m : ProxyMsg) (x : ProxyEnd ι) :
    ((s.write y m).queue x).length = (s.queue x).length + if y.peer = x then 1 else 0 := by
  by_cases hx : y.peer = x
  · simp [Proxies.write, hx]
  · simp [Proxies.write, hx, update_of_ne (Ne.symm hx)]

/-- The handler of a message, which may write another one. -/
theorem covered_handle {ok : Bool} (h : ∀ x, s.Covered x)
    (hexec : s.exec (.handle y m ok) = some s') : ∀ x, s'.Covered x := by
  obtain ⟨hpc, hexec⟩ := Option.ite_none_right_eq_some.1 hexec
  cases hr : (if ok then m.reply y.2 else none) with
  | some r =>
    rw [hr] at hexec
    cases hexec
    refine covered_of_balance h hpc rfl rfl (by split <;> exact rfl) fun x => ?_
    have hlen := length_write s y r x
    split <;> simp_all [Proxies.write] <;> omega
  | none =>
    rw [hr] at hexec
    cases hexec
    refine covered_of_balance h hpc rfl rfl (by split <;> trivial) fun x => ?_
    split <;> simp <;> omega

theorem covered_step (h : ∀ x, s.Covered x) (hraises : s.Raises e)
    (hexec : s.exec e = some s') : ∀ x, s'.Covered x := by
  cases e with
  | handle y m ok => exact covered_handle h hexec
  | pop y m =>
    obtain ⟨⟨hpc, hhead⟩, rfl⟩ := of_guard hexec
    refine covered_of_balance h hpc trivial rfl rfl fun x => ?_
    obtain ⟨q, hq⟩ := List.head?_eq_some_iff.1 hhead
    by_cases hx : x = y
    · simp [hx, hq]
      omega
    · simp [hx, Ne.symm hx]
      omega
  | link y ok =>
    obtain ⟨hpc, rfl⟩ := of_guard hexec
    rw [if_pos (show ok = true from hraises)]
    refine covered_of_balance h hpc rfl rfl rfl fun x => ?_
    simp
    omega
  | send y m =>
    obtain ⟨⟨hpc, -⟩, rfl⟩ := of_guard hexec
    refine covered_of_balance h hpc trivial rfl rfl fun x => ?_
    have hlen := length_write s y m x
    simp_all [Proxies.write]
    omega
  | raise y drains =>
    obtain ⟨hpc, rfl⟩ := of_guard hexec
    refine covered_of_balance h hpc rfl rfl (by split <;> trivial) fun x => ?_
    by_cases hx : x = y.peer
    · cases drains <;> simp [hx] <;> omega
    · cases drains <;>
        simp [hx, Ne.symm hx] <;> omega
  | drain y =>
    obtain ⟨hpc, rfl⟩ := of_guard hexec
    refine covered_of_balance h hpc rfl rfl trivial fun x => ?_
    -- without a count to drain, a raise is still to come
    by_cases hx : x = y
    · simp [hx]
      omega
    · simp [hx, Ne.symm hx]
      omega
  | block t =>
    obtain ⟨hpc, rfl⟩ := of_guard hexec
    exact covered_of_balance h hpc trivial rfl trivial fun x => by
      simp; omega
  | wake t counter =>
    obtain ⟨⟨hpc, -⟩, rfl⟩ := of_guard hexec
    exact covered_of_balance h hpc trivial rfl trivial fun x => by
      simp; omega

/-! ### Progress -/

/-- A proxy that can run: it does not block, or one of its counters is not zero. -/
def Proxies.Runnable (s : Proxies ι) (t : Option ι) : Prop :=
  s.pc t ≠ .blocked ∨ ∃ x : ProxyEnd ι, x.thread = t ∧ 0 < s.count x

/-- A proxy that can run does so at some time. -/
def ProxiesFair (E : Execution (@Proxies.exec ι _) Proxies.Raises) : Prop :=
  ∀ n t, (E.state n).Runnable t → ∃ m, n ≤ m ∧ ∃ e, E.event m = some e ∧ e.thread = t

/-- Where the proxy is before an event. -/
def ProxyEvent.before : ProxyEvent ι → ProxyPc ι
  | .pop _ _ | .send _ _ | .block _ => .loop
  | .handle x m _ => .handling x m
  | .link x _ => .linking x
  | .raise x drains => .raising x drains
  | .drain x => .draining x
  | .wake _ _ => .blocked

section

variable (hexec : s.exec e = some s')
include hexec

theorem exec_before : s.pc e.thread = e.before := by
  cases e with
  | handle => exact (Option.ite_none_right_eq_some.1 hexec).1
  | pop | send | wake => exact (of_guard hexec).1.1
  | link | raise | drain | block => exact (of_guard hexec).1

theorem exec_pc_of_ne (ht : e.thread ≠ t) : s'.pc t = s.pc t := by
  cases e with
  | handle y m ok =>
    obtain ⟨-, hexec⟩ := Option.ite_none_right_eq_some.1 hexec
    cases hr : (if ok then m.reply y.2 else none) with
    | some r | none =>
      rw [hr] at hexec
      cases hexec
      exact update_of_ne ht.symm _ _
  | pop | link | send | raise | drain | block | wake =>
    obtain ⟨-, rfl⟩ := of_guard hexec
    exact update_of_ne ht.symm _ _

/-- The next event of a proxy that blocks is that it wakes up. -/
theorem awake_after (ht : e.thread = t) (hpc : s.pc t = .blocked) : s'.pc t ≠ .blocked := by
  subst ht
  have hbefore := (exec_before hexec).symm.trans hpc
  cases e <;> simp only [ProxyEvent.before, reduceCtorEq] at hbefore
  case wake u counter =>
    obtain ⟨-, rfl⟩ := of_guard hexec
    change update s.pc u .loop u ≠ .blocked
    rw [update_self]
    exact nofun

theorem raised_after (ht : e.thread = y.thread)
    (hpc : s.pc y.thread = .raising y drains) : 0 < s'.count y.peer := by
  have hbefore := (exec_before hexec).symm.trans (ht ▸ hpc)
  cases e <;> simp only [ProxyEvent.before, reduceCtorEq, ProxyPc.raising.injEq] at hbefore
  case raise x d =>
    obtain ⟨rfl, rfl⟩ := hbefore
    obtain ⟨-, rfl⟩ := of_guard hexec
    change 0 < update s.count x.peer (s.count x.peer + 1) x.peer
    rw [update_self]
    exact Nat.succ_pos _

theorem raising_after (hraises : s.Raises e) (ht : e.thread = y.thread)
    (hpc : s.pc y.thread = .linking y) : s'.pc y.thread = .raising y true := by
  have hbefore := (exec_before hexec).symm.trans (ht ▸ hpc)
  cases e <;> simp only [ProxyEvent.before, reduceCtorEq, ProxyPc.linking.injEq] at hbefore
  case link x ok =>
    subst hbefore
    obtain ⟨-, rfl⟩ := of_guard hexec
    change update s.pc x.thread (if ok then _ else _) x.thread = _
    rw [update_self]
    exact if_pos hraises

end

section Fair

variable {E : Execution (@Proxies.exec ι _) Proxies.Raises} {n : ℕ}

/-- The next event of a proxy, if it stays where it is until then. -/
theorem ProxiesFair.next (hfair : ProxiesFair E) (hrun : (E.state n).Runnable t) :
    ∃ m, n ≤ m ∧ ∃ e, E.event m = some e ∧ e.thread = t ∧
      (E.state m).pc t = (E.state n).pc t :=
  E.first_act (Q := fun s => s.pc t = (E.state n).pc t) (A := fun e => e.thread = t)
    (fun _ _ _ hQ hne _ hexec => (exec_pc_of_ne hexec hne).trans hQ) rfl (hfair n t hrun)

/-- A proxy with a count wakes up. -/
theorem ProxiesFair.awake_of_count (hfair : ProxiesFair E) (hcount : 0 < (E.state n).count x)
    (hpc : (E.state n).pc x.thread = .blocked) :
    ∃ m, n < m ∧ (E.state m).pc x.thread ≠ .blocked := by
  obtain ⟨m, hm, e, he, ht, hsame⟩ := hfair.next (.inr ⟨x, rfl, hcount⟩)
  exact ⟨m + 1, Nat.lt_succ_of_le hm, awake_after (E.step m e he).2 ht (hsame.trans hpc)⟩

/-- A proxy that is about to raise a counter does so. -/
theorem ProxiesFair.count_of_raising (hfair : ProxiesFair E)
    (hpc : (E.state n).pc y.thread = .raising y drains) :
    ∃ m, n < m ∧ 0 < (E.state m).count y.peer := by
  obtain ⟨m, hm, e, he, ht, hsame⟩ := hfair.next (t := y.thread) (.inl (by rw [hpc]; exact nofun))
  exact ⟨m + 1, Nat.lt_succ_of_le hm, raised_after (E.step m e he).2 ht (hsame.trans hpc)⟩

theorem ProxiesFair.raising_of_linking (hfair : ProxiesFair E)
    (hpc : (E.state n).pc y.thread = .linking y) :
    ∃ m, n < m ∧ (E.state m).pc y.thread = .raising y true := by
  obtain ⟨m, hm, e, he, ht, hsame⟩ := hfair.next (t := y.thread) (.inl (by rw [hpc]; exact nofun))
  obtain ⟨hraises, hexec⟩ := E.step m e he
  exact ⟨m + 1, Nat.lt_succ_of_le hm, raising_after hexec hraises ht (hsame.trans hpc)⟩

/-- A raise that is still to come happens. -/
theorem ProxiesFair.count_of_pending (hfair : ProxiesFair E)
    (hpending : 0 < (E.state n).pendingRaises x) : ∃ m, n < m ∧ 0 < (E.state m).count x := by
  unfold Proxies.pendingRaises at hpending
  cases hpc : (E.state n).pc x.peer.thread with
  | raising y drains =>
    rw [hpc] at hpending
    obtain rfl : y.peer = x := by
      by_contra hne
      rw [show (ProxyPc.raising y drains).pending x = 0 from if_neg hne] at hpending
      exact absurd hpending (lt_irrefl 0)
    rw [ProxyEnd.peer_peer] at hpc
    exact hfair.count_of_raising hpc
  | linking y =>
    rw [hpc] at hpending
    obtain rfl : y.peer = x := by
      by_contra hne
      rw [show (ProxyPc.linking y).pending x = 0 from if_neg hne] at hpending
      exact absurd hpending (lt_irrefl 0)
    rw [ProxyEnd.peer_peer] at hpc
    obtain ⟨m, hm, hraising⟩ := hfair.raising_of_linking hpc
    obtain ⟨k, hk, hcount⟩ := hfair.count_of_raising hraising
    exact ⟨k, hm.trans hk, hcount⟩
  | loop | handling y m | draining y | blocked =>
    rw [hpc] at hpending
    exact absurd hpending (lt_irrefl 0)

end Fair

theorem Proxies.Covered.pending_of_blocked (h : s.Covered x) (hpc : s.pc x.thread = .blocked) :
    (s.queue x).length ≤ s.count x + s.pendingRaises x := by
  unfold Proxies.Covered at h
  rw [hpc] at h
  exact h

/-- While a proxy blocks and its counter is zero, each message that waits for it has a raise that is
still to come. So no proxy sleeps for ever next to a message. -/
theorem doorbells_never_lost (h₀ : ProxiesStart s₀) :
    (∀ s, Run Proxies.exec Proxies.Raises s₀ s → ∀ x : ProxyEnd ι, s.pc x.thread = .blocked →
      s.count x = 0 → (s.queue x).length ≤ s.pendingRaises x) ∧
    ∀ E : Execution (@Proxies.exec ι _) Proxies.Raises, E.state 0 = s₀ → ProxiesFair E →
      ∀ n x, (E.state n).pc x.thread = .blocked → (E.state n).queue x ≠ [] →
        ∃ m, n < m ∧ (E.state m).pc x.thread ≠ .blocked := by
  have hcovered : ∀ s, Run Proxies.exec Proxies.Raises s₀ s → ∀ x : ProxyEnd ι, s.Covered x :=
    fun s hrun => hrun.invariant (fun s => ∀ x : ProxyEnd ι, s.Covered x)
      (fun x => covered_start h₀ x) fun t e t' ht hP hexec => covered_step ht hP hexec
  refine ⟨fun s hrun x hpc hzero => ?_, fun E hE hfair n x hpc hwaits => ?_⟩
  · have hle := (hcovered s hrun x).pending_of_blocked hpc
    rwa [hzero, Nat.zero_add] at hle
  · have hle := (hcovered _ (hE ▸ E.run n) x).pending_of_blocked hpc
    have hpos := List.length_pos_of_ne_nil hwaits
    by_cases hcount : 0 < (E.state n).count x
    · exact hfair.awake_of_count hcount hpc
    · obtain ⟨m, hm, hraised⟩ := hfair.count_of_pending (x := x) (n := n) (by omega)
      by_cases hstill : (E.state m).pc x.thread = .blocked
      · obtain ⟨k, hk, hawake⟩ := hfair.awake_of_count hraised hstill
        exact ⟨k, hm.trans hk, hawake⟩
      · exact ⟨m, hm, hstill⟩

/-- One VM. -/
def oneVm : Proxies (Fin 1) where
  queue _ := []
  count _ := 0
  pc _ := .loop

instance (s : Proxies ι) (e : ProxyEvent ι) : Decidable (s.Raises e) :=
  match e with
  | .link _ _ => inferInstanceAs (Decidable (_ = _))
  | .pop _ _ | .handle _ _ _ | .send _ _ | .raise _ _ | .drain _ | .block _ | .wake _ _ =>
    .isTrue trivial

instance : Fintype Side := ⟨{.host, .guest}, fun x => by cases x <;> decide⟩

instance (s : Proxies (Fin 1)) (t : Option (Fin 1)) : Decidable (s.Runnable t) :=
  inferInstanceAs (Decidable (_ ∨ _))

/-- The guest proxy blocks, and the host has written the hello message. -/
def helloSent : List (ProxyEvent (Fin 1)) := [.block (some 0), .send (0, .host) .hello]

/-- The counter is raised, and the guest asks for the description of the shared memory. -/
def helloAnswered : List (ProxyEvent (Fin 1)) :=
  [.raise (0, .host) false, .wake (some 0) (some (0, .guest)), .pop (0, .guest) .hello,
    .handle (0, .guest) .hello true, .raise (0, .guest) true, .drain (0, .guest),
    .pop (0, .host) .tasinfoReq, .handle (0, .host) .tasinfoReq true, .raise (0, .host) true,
    .drain (0, .host), .pop (0, .guest) .tasinfoRes, .handle (0, .guest) .tasinfoRes true,
    .drain (0, .guest), .block (some 0), .block none]

def helloRun : Execution (@Proxies.exec (Fin 1) _) Proxies.Raises :=
  .ofReplay (s := oneVm) (helloSent ++ helloAnswered) (by decide +kernel)

theorem helloRun_fair : ProxiesFair helloRun := by
  intro n t hrun
  by_cases hn : n < 17
  · have hacts : ∀ n < 17, ∀ t, (helloRun.state n).Runnable t →
        ∃ m < 17, n ≤ m ∧ (helloRun.event m).map ProxyEvent.thread = some t := by
      decide +kernel
    obtain ⟨m, -, hm, ht⟩ := hacts n hn t hrun
    obtain ⟨e, he, hthread⟩ := Option.map_eq_some_iff.1 ht
    exact ⟨m, hm, e, he, hthread⟩
  · -- both proxies block at the end
    have hend : helloRun.state n = helloRun.state 17 :=
      Execution.ofReplay_last _ (Nat.le_of_not_lt hn)
    have hblocked : ∀ t, ¬ (helloRun.state 17).Runnable t := by decide +kernel
    exact absurd (hend ▸ hrun) (hblocked t)

/-- The counter is not raised yet when the guest proxy blocks, and later it wakes up. -/
theorem hello_before_doorbell :
    let s := helloRun.state 2
    s.pc (some 0) = .blocked ∧ s.queue (0, .guest) = [.hello] ∧ s.count (0, .guest) = 0 ∧
      (s.queue (0, .guest)).length ≤ s.pendingRaises (0, .guest) ∧
      ∃ m, 2 < m ∧ (helloRun.state m).pc (some 0) ≠ .blocked := by
  intro s
  have hpc : s.pc (some 0) = .blocked := by decide +kernel
  have hqueue : s.queue (0, .guest) = [.hello] := by decide +kernel
  have hcount : s.count (0, .guest) = 0 := by decide +kernel
  have hstart : ProxiesStart oneVm := ⟨fun _ => rfl, fun _ => rfl⟩
  obtain ⟨hraise, hawake⟩ := doorbells_never_lost hstart
  exact ⟨hpc, hqueue, hcount, hraise s (helloRun.run 2) (0, .guest) hpc hcount,
    hawake helloRun rfl helloRun_fair 2 (0, .guest) hpc (hqueue ▸ List.cons_ne_nil _ _)⟩

end Tas
