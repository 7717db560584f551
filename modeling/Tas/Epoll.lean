import Tas.Lib.Threaded
import Tas.SocketRx

/-! Epoll for sockets, `epoll.c`: registrations of sockets with epolls, in lists of the epoll and
of the socket. Pointers are numbers, and zero is the null pointer. -/
namespace Tas

open Outcome Linked Function List

def epollOut : U32 := 0x004
def epollErr : U32 := 0x008
def epollHup : U32 := 0x010
def epollExclusive : U32 := 1 <<< 28
def epollEt : U32 := 1 <<< 31

/-- The events that can be asked for. -/
def epollKnown : U32 := epollIn ||| epollOut ||| epollErr ||| epollHup ||| epollRdhup

/-- `struct epoll_event`. -/
structure EpollEvent where
  events : U32
  data : U64
deriving DecidableEq

/-- The memory that epoll works on, field by field. At most `MAXSOCK` sockets exist, so the
counter of active ones is a plain number. -/
structure EpollMem where
  /-- The fields of `struct epoll_socket`, a registration. -/
  esEp : ℕ → ℕ
  esSock : ℕ → ℕ
  epNext : ℕ → ℕ
  epPrev : ℕ → ℕ
  soNext : ℕ → ℕ
  soPrev : ℕ → ℕ
  data : ℕ → U64
  mask : ℕ → U32
  active : ℕ → Bool
  /-- The fields of `struct epoll`. -/
  inactive : ℕ → ℕ
  activeFirst : ℕ → ℕ
  activeLast : ℕ → ℕ
  numActive : ℕ → ℕ
  numTas : ℕ → U32
  /-- The fields of `struct socket`. -/
  epEvents : ℕ → U32
  eps : ℕ → ℕ
  /-- The registrations that are allocated. -/
  live : Finset ℕ

/-! ### Lists -/

/-- Unlink a registration from the inactive list. -/
def unlinkInactive (m : EpollMem) (e : ℕ) : EpollMem :=
  let prev := m.epPrev e
  let next := m.epNext e
  { m with
    epNext := setLink 0 m.epNext prev next
    inactive := if prev ≠ 0 then m.inactive else update m.inactive (m.esEp e) next
    epPrev := setLink 0 m.epPrev next prev }

def esRemoveInactive (m : EpollMem) (e : ℕ) : Except Fault EpollMem :=
  if m.active e then .error .assertion else .ok (unlinkInactive m e)

def esAddInactive (m : EpollMem) (e : ℕ) : EpollMem :=
  let first := m.inactive (m.esEp e)
  { m with
    epPrev := setLink 0 (update m.epPrev e 0) first e
    epNext := update m.epNext e first
    inactive := update m.inactive (m.esEp e) e }

/-- Unlink a registration from the active list. -/
def unlinkActive (m : EpollMem) (e : ℕ) : EpollMem :=
  let ep := m.esEp e
  let prev := m.epPrev e
  let next := m.epNext e
  { m with
    epNext := setLink 0 m.epNext prev next
    activeFirst := if prev ≠ 0 then m.activeFirst else update m.activeFirst ep next
    epPrev := setLink 0 m.epPrev next prev
    activeLast := if next ≠ 0 then m.activeLast else update m.activeLast ep prev
    numActive := update m.numActive ep (m.numActive ep - 1) }

def esRemoveActive (m : EpollMem) (e : ℕ) : Except Fault EpollMem :=
  if m.active e = false then .error .assertion
  else if m.numActive (m.esEp e) = 0 then .error .assertion
  else .ok (unlinkActive m e)

def esAddActive (m : EpollMem) (e : ℕ) : EpollMem :=
  let ep := m.esEp e
  let last := m.activeLast ep
  { m with
    epNext := setLink 0 (update m.epNext e 0) last e
    epPrev := update m.epPrev e last
    activeFirst := if last = 0 then update m.activeFirst ep e else m.activeFirst
    activeLast := update m.activeLast ep e
    numActive := update m.numActive ep (m.numActive ep + 1) }

/-- Ensure that a registration is active. -/
def esActivate (m : EpollMem) (e : ℕ) : Except Fault EpollMem :=
  if m.active e then .ok m
  else do
    let m ← esRemoveInactive m e
    .ok (esAddActive { m with active := update m.active e true } e)

def esDeactivate (m : EpollMem) (e : ℕ) : Except Fault EpollMem :=
  if m.active e = false then .ok m
  else do
    let m ← esRemoveActive m e
    .ok (esAddInactive { m with active := update m.active e false } e)

def esActivePushback (m : EpollMem) (e : ℕ) : Except Fault EpollMem :=
  if m.active e = false then .error .assertion
  else do
    let m ← esRemoveActive m e
    .ok (esAddActive m e)

/-- Remove a registration from the lists of its epoll. -/
def esRemoveEp (m : EpollMem) (e : ℕ) : Except Fault EpollMem :=
  if m.active e then esRemoveActive m e else esRemoveInactive m e

/-- Remove a registration from the list of its socket. -/
def esRemoveSock (m : EpollMem) (e : ℕ) : EpollMem :=
  let prev := m.soPrev e
  let next := m.soNext e
  { m with
    eps := if prev = 0 then update m.eps (m.esSock e) next else m.eps
    soNext := setLink 0 m.soNext prev next
    soPrev := setLink 0 m.soPrev next prev }

/-- Remove a registration from all lists, and free it. -/
def esRelease (m : EpollMem) (e : ℕ) : Except Fault EpollMem := do
  let m ← esRemoveEp (esRemoveSock m e) e
  .ok { m with live := m.live.erase e }

/-- Register socket `s` with epoll `ep`: link the new registration `e` into the list of the socket
and into the inactive list. -/
def esRegister (m : EpollMem) (e ep s : ℕ) (event : EpollEvent) : EpollMem :=
  let first := m.eps s
  esAddInactive { m with
    live := insert e m.live
    esEp := update m.esEp e ep
    esSock := update m.esSock e s
    data := update m.data e event.data
    mask := update m.mask e (event.events ||| epollErr)
    active := update m.active e false
    soPrev := setLink 0 (update m.soPrev e 0) first e
    soNext := update m.soNext e first
    eps := update m.eps s e } e

/-! ### Operations -/

inductive CtlOp
  | add
  | mod
  | del
  | other
deriving DecidableEq

/-- What `tas_epoll_ctl` returns, with `errno`. -/
inductive CtlResult
  | done
  | einval
  | eexist
  | enomem
  | enoent
deriving DecidableEq

/-- The registration with `ep` in the list of a socket, from `e` on. -/
def ctlLookup (m : EpollMem) (ep : ℕ) : ℕ → ℕ → Except Fault ℕ
  | 0, e => if e = 0 ∨ m.esEp e = ep then .ok e else .error .unfinished
  | fuel + 1, e =>
    if e = 0 ∨ m.esEp e = ep then .ok e else ctlLookup m ep fuel (m.soNext e)

/-- Is an event of the registration pending on its socket? -/
def EpollMem.pending (m : EpollMem) (e : ℕ) : U32 := m.epEvents (m.esSock e) &&& m.mask e

/-- Activate a registration whose mask was set, if an event is pending. -/
def esCheck (m : EpollMem) (e : ℕ) : Except Fault (EpollMem × CtlResult) :=
  if m.pending e ≠ 0 then do
    let m ← esActivate m e
    .ok (m, .done)
  else .ok (m, .done)

/-- `tas_epoll_ctl` for a socket; `fresh` is what `calloc` returns. -/
def tasEpollCtl (fuel : ℕ) (m : EpollMem) (ep : ℕ) (op : CtlOp) (s : ℕ) (event : EpollEvent)
    (fresh : Option ℕ) : Except Fault (EpollMem × CtlResult) := do
  let e ← ctlLookup m ep fuel (m.eps s)
  -- edge triggering and exclusive wakeups are masked
  let event := { event with events := event.events &&& ~~~ epollEt &&& ~~~ epollExclusive }
  if (op = .add ∨ op = .mod) ∧ event.events &&& ~~~ epollKnown ≠ 0 then .ok (m, .einval)
  else
    match op with
    | .add =>
      let m := { m with numTas := update m.numTas ep (m.numTas ep + 1) }
      if e ≠ 0 then .ok (m, .eexist)
      else
        match fresh with
        | none => .ok (m, .enomem)
        | some e => esCheck (esRegister m e ep s event) e
    | .mod =>
      if e = 0 then .ok (m, .enoent)
      else esCheck { m with mask := update m.mask e (event.events ||| epollErr) } e
    | .del =>
      let m := { m with numTas := update m.numTas ep (m.numTas ep - 1) }
      if e = 0 then .ok (m, .enoent)
      else do
        let m ← esRelease m e
        .ok (m, .done)
    | .other => .ok (m, .einval)

/-- Activate the registrations from `e` on that wait for one of the new events. -/
def setLoop (newevs : U32) : ℕ → EpollMem → ℕ → Except Fault EpollMem
  | 0, m, e => if e = 0 then .ok m else .error .unfinished
  | fuel + 1, m, e =>
    if e = 0 then .ok m
    else if newevs &&& m.mask e = 0 then setLoop newevs fuel m (m.soNext e)
    else do
      let m ← esActivate m e
      setLoop newevs fuel m (m.soNext e)

/-- `flextcp_epoll_set`. -/
def epollSet (fuel : ℕ) (m : EpollMem) (s : ℕ) (evts : U32) : Except Fault EpollMem :=
  let newevs := ~~~ m.epEvents s &&& evts
  if newevs = 0 then .ok m
  else
    setLoop newevs fuel { m with epEvents := update m.epEvents s (m.epEvents s ||| evts) }
      (m.eps s)

/-- `flextcp_epoll_clear`. -/
def epollClear (m : EpollMem) (s : ℕ) (evts : U32) : EpollMem :=
  { m with epEvents := update m.epEvents s (m.epEvents s &&& ~~~ evts) }

/-- Release registrations as long as there is a first one. -/
def drain (first : EpollMem → ℕ) : ℕ → EpollMem → Except Fault EpollMem
  | 0, m => if first m = 0 then .ok m else .error .unfinished
  | fuel + 1, m =>
    if first m = 0 then .ok m
    else do
      let m ← esRelease m (first m)
      drain first fuel m

/-- `flextcp_epoll_sockclose`. -/
def epollSockclose (fuel : ℕ) (m : EpollMem) (s : ℕ) : Except Fault EpollMem :=
  drain (fun m => m.eps s) fuel m

/-- `flextcp_epoll_destroy`. -/
def epollDestroy (fuel : ℕ) (m : EpollMem) (ep : ℕ) : Except Fault EpollMem := do
  let m ← drain (fun m => m.activeFirst ep) fuel m
  drain (fun m => m.inactive ep) fuel m

/-- The loop of `ep_poll_tas`, with `i` iterations left and space for `room` events: the events,
and the registration that each is for. -/
def pollLoop (ep : ℕ) : ℕ → ℕ → EpollMem → Except Fault (EpollMem × List (ℕ × EpollEvent))
  | 0, _, m => .ok (m, [])
  | _ + 1, 0, m => .ok (m, [])
  | i + 1, room + 1, m =>
    let e := m.activeFirst ep
    if e = 0 then .ok (m, [])
    else if m.pending e ≠ 0 then do
      let m' ← esActivePushback m e
      let (m', out) ← pollLoop ep i room m'
      .ok (m', (e, ⟨m.pending e, m.data e⟩) :: out)
    else do
      let m ← esDeactivate m e
      pollLoop ep i (room + 1) m

/-- `ep_poll_tas`, after it polled the context. -/
def epPollTas (m : EpollMem) (ep maxevents : ℕ) :
    Except Fault (EpollMem × List (ℕ × EpollEvent)) :=
  pollLoop ep (m.numActive ep) maxevents m

/-! ### The lists of the epolls -/

variable {m m' : EpollMem} {lists lists' : ℕ × Bool → List ℕ} {regs regs' : ℕ → List ℕ} {e ep s : ℕ}
  {b c : Bool}

/-- The first registrations of the active and the inactive lists. -/
def EpollMem.heads (m : EpollMem) (k : ℕ × Bool) : ℕ :=
  if k.2 then m.activeFirst k.1 else m.inactive k.1

/-- The active and inactive lists of all epolls, with the ends and lengths of the active ones. -/
structure EpThreads (m : EpollMem) (lists : ℕ × Bool → List ℕ) : Prop where
  links : Threads 0 m.epNext m.epPrev m.heads lists
  last : ∀ p, m.activeLast p = (lists (p, true)).getLast?.getD 0
  count : ∀ p, m.numActive p = (lists (p, true)).length

/-- Only links, ends and lengths of the epolls' lists differ. -/
structure Relinked (m m' : EpollMem) : Prop where
  esEp : m'.esEp = m.esEp
  esSock : m'.esSock = m.esSock
  soNext : m'.soNext = m.soNext
  soPrev : m'.soPrev = m.soPrev
  data : m'.data = m.data
  mask : m'.mask = m.mask
  epEvents : m'.epEvents = m.epEvents
  eps : m'.eps = m.eps
  live : m'.live = m.live

theorem Relinked.refl (m : EpollMem) : Relinked m m := ⟨rfl, rfl, rfl, rfl, rfl, rfl, rfl, rfl, rfl⟩

theorem Relinked.trans {m'' : EpollMem} (h : Relinked m m') (h' : Relinked m' m'') :
    Relinked m m'' :=
  ⟨h'.esEp.trans h.esEp, h'.esSock.trans h.esSock, h'.soNext.trans h.soNext,
    h'.soPrev.trans h.soPrev, h'.data.trans h.data, h'.mask.trans h.mask,
    h'.epEvents.trans h.epEvents, h'.eps.trans h.eps, h'.live.trans h.live⟩

theorem Relinked.pending (h : Relinked m m') (e : ℕ) : m'.pending e = m.pending e := by
  unfold EpollMem.pending
  rw [h.epEvents, h.esSock, h.mask]

/-- Flags and registrations do not matter for the links. -/
theorem EpThreads.congr (h : EpThreads m lists) (hnext : m'.epNext = m.epNext)
    (hprev : m'.epPrev = m.epPrev) (hfirst : m'.activeFirst = m.activeFirst)
    (hinactive : m'.inactive = m.inactive) (hlast : m'.activeLast = m.activeLast)
    (hcount : m'.numActive = m.numActive) : EpThreads m' lists := by
  have hheads : m'.heads = m.heads := by
    unfold EpollMem.heads
    rw [hfirst, hinactive]
  refine ⟨?_, fun p => ?_, fun p => ?_⟩
  · rw [hnext, hprev, hheads]
    exact h.links
  · rw [hlast]
    exact h.last p
  · rw [hcount]
    exact h.count p

theorem heads_update {v : ℕ} (hb : ∀ p, m'.heads (p, b) = update (fun p => m.heads (p, b)) ep v p)
    (hother : ∀ p, m'.heads (p, !b) = m.heads (p, !b)) : m'.heads = update m.heads (ep, b) v := by
  funext k
  obtain ⟨p, c⟩ := k
  by_cases hc : c = b
  · subst hc
    rw [hb]
    by_cases hp : p = ep
    · rw [hp, update_self, update_self]
    · rw [update_of_ne hp, update_of_ne (by simp [hp])]
  · rw [Bool.eq_not_of_ne hc, hother, update_of_ne (by simp)]

/-- A value of each epoll's active list, after one of the lists changed. -/
theorem update_active {f : ℕ → ℕ} {g : List ℕ → ℕ} {v : ℕ} {xs : List ℕ}
    (hf : ∀ p, f p = g (lists (p, true))) (hv : v = g xs) (p : ℕ) :
    update f ep v p = g (update lists (ep, true) xs (p, true)) := by
  by_cases hp : p = ep
  · rw [hp, update_self, update_self, hv]
  · rw [update_of_ne hp, update_of_ne (by simp [hp]), hf]

theorem ite_update {f : ℕ → ℕ} {q p v : ℕ} :
    (if q ≠ 0 then f else update f p v) =
      update f p (if q = 0 then v else f p) := by
  by_cases hq : q = 0
  · rw [if_neg (not_not.2 hq), if_pos hq]
  · rw [if_pos hq, if_neg hq, update_eq_self]

theorem EpThreads.ne_zero {k : ℕ × Bool} (h : EpThreads m lists) (he : e ∈ lists k) : e ≠ 0 :=
  h.links.ne_nil he

theorem EpThreads.removeInactive (h : EpThreads m lists) (hflag : m.active e = false)
    (he : e ∈ lists (m.esEp e, false)) :
    ∃ m', esRemoveInactive m e = .ok m' ∧ Relinked m m' ∧ m'.active = m.active ∧
      EpThreads m' (update lists (m.esEp e, false)
        ((lists (m.esEp e, false)).erase e)) := by
  have hheads : (unlinkInactive m e).heads = update m.heads (m.esEp e, false)
      (if m.epPrev e = 0 then m.epNext e else m.inactive (m.esEp e)) :=
    heads_update (congrFun ite_update) fun _ => rfl
  unfold esRemoveInactive
  rw [if_neg (by rw [hflag]; exact Bool.false_ne_true)]
  refine ⟨_, rfl, ⟨rfl, rfl, rfl, rfl, rfl, rfl, rfl, rfl, rfl⟩, rfl, ?_, fun p => ?_, fun p => ?_⟩
  · rw [hheads]
    exact h.links.erase he
  · rw [update_of_ne (by simp)]
    exact h.last p
  · rw [update_of_ne (by simp)]
    exact h.count p

theorem EpThreads.removeActive (h : EpThreads m lists) (hflag : m.active e = true)
    (he : e ∈ lists (m.esEp e, true)) :
    ∃ m', esRemoveActive m e = .ok m' ∧ Relinked m m' ∧ m'.active = m.active ∧
      EpThreads m' (update lists (m.esEp e, true)
        ((lists (m.esEp e, true)).erase e)) := by
  have hpos : 0 < (lists (m.esEp e, true)).length := length_pos_of_mem he
  have hcount := h.count (m.esEp e)
  have hheads : (unlinkActive m e).heads = update m.heads (m.esEp e, true)
      (if m.epPrev e = 0 then m.epNext e else m.activeFirst (m.esEp e)) :=
    heads_update (congrFun ite_update) fun _ => rfl
  have hlast : (unlinkActive m e).activeLast = update m.activeLast (m.esEp e)
      (if m.epNext e = 0 then m.epPrev e else m.activeLast (m.esEp e)) := ite_update
  unfold esRemoveActive
  rw [if_neg (by rw [hflag]; decide), if_neg (by omega)]
  refine ⟨_, rfl, ⟨rfl, rfl, rfl, rfl, rfl, rfl, rfl, rfl, rfl⟩, rfl, ?_, fun p => ?_, fun p => ?_⟩
  · rw [hheads]
    exact h.links.erase he
  · rw [hlast]
    exact update_active (g := fun xs => xs.getLast?.getD 0) h.last
      (h.links.last_erase he (h.last _)) p
  · exact update_active h.count (by rw [length_erase_of_mem he, hcount]) p

theorem EpThreads.addInactive (h : EpThreads m lists) (hne : e ≠ 0) (hnew : ∀ k, e ∉ lists k) :
    Relinked m (esAddInactive m e) ∧ (esAddInactive m e).active = m.active ∧
      EpThreads (esAddInactive m e)
        (update lists (m.esEp e, false) (e :: lists (m.esEp e, false))) := by
  refine ⟨⟨rfl, rfl, rfl, rfl, rfl, rfl, rfl, rfl, rfl⟩, rfl, ?_, fun p => ?_, fun p => ?_⟩
  · have hheads : (esAddInactive m e).heads = update m.heads (m.esEp e, false) e :=
      heads_update (fun _ => rfl) fun _ => rfl
    rw [hheads]
    exact h.links.push_front (k := (m.esEp e, false)) hne hnew
  · rw [update_of_ne (by simp)]
    exact h.last p
  · rw [update_of_ne (by simp)]
    exact h.count p

theorem EpThreads.addActive (h : EpThreads m lists) (hne : e ≠ 0) (hnew : ∀ k, e ∉ lists k) :
    Relinked m (esAddActive m e) ∧ (esAddActive m e).active = m.active ∧
      EpThreads (esAddActive m e)
        (update lists (m.esEp e, true) (lists (m.esEp e, true) ++ [e])) := by
  refine ⟨⟨rfl, rfl, rfl, rfl, rfl, rfl, rfl, rfl, rfl⟩, rfl, ?_, fun p => ?_, fun p => ?_⟩
  · have hfirst : (esAddActive m e).activeFirst = update m.activeFirst (m.esEp e)
        (if m.activeLast (m.esEp e) = 0 then e else m.activeFirst (m.esEp e)) := by
      change (if m.activeLast (m.esEp e) = 0 then _ else _) = _
      split_ifs
      · rfl
      · rw [update_eq_self]
    rw [heads_update (b := true) (congrFun hfirst) fun _ => rfl]
    exact h.links.push_back hne hnew (h.last _)
  · exact update_active (g := fun xs => xs.getLast?.getD 0) h.last (by simp) p
  · exact update_active h.count (by rw [h.count, length_append]; rfl) p

/-! ### Registrations in their lists -/

/-- Each registration is in the one list of its epoll that its flag says, and in the list of its
socket. -/
structure EpollShape (m : EpollMem) (lists : ℕ × Bool → List ℕ) (regs : ℕ → List ℕ) : Prop where
  threads : EpThreads m lists
  member : ∀ e k, e ∈ lists k ↔ e ∈ m.live ∧ (m.esEp e, m.active e) = k
  socket : Threads 0 m.soNext m.soPrev m.eps regs
  registered : ∀ e s, e ∈ regs s ↔ e ∈ m.live ∧ m.esSock e = s

section

variable (h : EpollShape m lists regs)
include h

theorem EpollShape.listed (he : e ∈ m.live) :
    e ∈ lists (m.esEp e, m.active e) := (h.member e _).2 ⟨he, rfl⟩

theorem EpollShape.ne_zero (he : e ∈ m.live) : e ≠ 0 :=
  h.threads.ne_zero (h.listed he)

theorem EpollShape.nodup (k : ℕ × Bool) : (lists k).Nodup :=
  (h.threads.links.chain k).nodup

/-- The lists without a registration of flag `c`. -/
def without (m : EpollMem) (lists : ℕ × Bool → List ℕ) (e : ℕ) (c : Bool) : ℕ × Bool → List ℕ :=
  update lists (m.esEp e, c) ((lists (m.esEp e, c)).erase e)

theorem EpollShape.filed_without (hflag : m.active e = c) :
    Filed (m.live.erase e) (fun y => (m.esEp y, m.active y)) (without m lists e c) :=
  hflag ▸ Filed.erase h.member (h.nodup _)

/-- Add a registration that was taken out of its list to the list for the flag `b`. -/
theorem EpollShape.moved {m₁ : EpollMem} (he : e ∈ m.live) (hflag : m.active e = c)
    (add : EpollMem → ℕ → EpollMem) (new : List ℕ → List ℕ)
    (hout : Relinked m m₁ ∧ m₁.active = m.active ∧ EpThreads m₁ (without m lists e c))
    (hadd : ∀ {m : EpollMem} {lists : ℕ × Bool → List ℕ}, EpThreads m lists → e ≠ 0 →
      (∀ k, e ∉ lists k) → Relinked m (add m e) ∧ (add m e).active = m.active ∧
        EpThreads (add m e) (update lists (m.esEp e, b) (new (lists (m.esEp e, b)))))
    (hnew : ∀ xs y, y ∈ new xs ↔ y ∈ xs ∨ y = e) :
    let m₂ := add { m₁ with active := update m₁.active e b } e
    Relinked m m₂ ∧ m₂.active = update m.active e b ∧
      EpollShape m₂ (update (without m lists e c) (m.esEp e, b)
        (new (without m lists e c (m.esEp e, b)))) regs := by
  obtain ⟨hlinks₁, hactive₁, hthreads₁⟩ := hout
  have hfiled := h.filed_without hflag
  have hgone : ∀ k, e ∉ without m lists e c k := fun k hmem =>
    Finset.notMem_erase e _ ((hfiled e k).1 hmem).1
  have hthreads₂ : EpThreads { m₁ with active := update m₁.active e b } (without m lists e c) :=
    hthreads₁.congr rfl rfl rfl rfl rfl rfl
  have hflags : Relinked m₁ { m₁ with active := update m₁.active e b } :=
    ⟨rfl, rfl, rfl, rfl, rfl, rfl, rfl, rfl, rfl⟩
  obtain ⟨hlinks₂, hactive₂, hthreads⟩ := hadd hthreads₂ (h.ne_zero he) hgone
  have hlinks := (hlinks₁.trans hflags).trans hlinks₂
  have hactive := hactive₂.trans (congrArg (update · e b) hactive₁)
  have hep : m₁.esEp e = m.esEp e := congrFun hlinks₁.esEp e
  dsimp only at hthreads
  rw [hep] at hthreads
  refine ⟨hlinks, hactive, hthreads, ?_, ?_, ?_⟩
  · rw [hlinks.live, hlinks.esEp, hactive, ← Finset.insert_erase he]
    apply hfiled.insert (Finset.notMem_erase e _)
    · rw [update_self]
    · intro y hy
      rw [update_of_ne hy]
    · exact hnew _
  · rw [hlinks.soNext, hlinks.soPrev, hlinks.eps]
    exact h.socket
  · rw [hlinks.live, hlinks.esSock]
    exact h.registered

/-- The lists after a registration was activated. -/
def activated (m : EpollMem) (lists : ℕ × Bool → List ℕ) (e : ℕ) : ℕ × Bool → List ℕ :=
  if m.active e then lists
  else
    update (without m lists e false) (m.esEp e, true) (lists (m.esEp e, true) ++ [e])

theorem EpollShape.activate (he : e ∈ m.live) :
    ∃ m', esActivate m e = .ok m' ∧ Relinked m m' ∧
      m'.active = update m.active e true ∧
      EpollShape m' (activated m lists e) regs := by
  unfold esActivate activated
  by_cases hflag : m.active e = true
  · rw [if_pos hflag, if_pos hflag]
    exact ⟨m, rfl, .refl m, by rw [← hflag, update_eq_self], h⟩
  · rw [Bool.not_eq_true] at hflag
    have hmem : e ∈ lists (m.esEp e, false) := hflag ▸ h.listed he
    obtain ⟨m₁, hremove, hout⟩ := h.threads.removeInactive hflag hmem
    have hmoved := h.moved he hflag esAddActive (· ++ [e]) hout EpThreads.addActive
      fun _ _ => by simp
    have hother : without m lists e false (m.esEp e, true) = lists (m.esEp e, true) :=
      update_of_ne (by simp) _ _
    rw [hother] at hmoved
    rw [hflag, if_neg Bool.false_ne_true, if_neg Bool.false_ne_true, hremove]
    exact ⟨_, rfl, hmoved⟩

theorem EpollShape.deactivate (he : e ∈ m.live) (hflag : m.active e = true) :
    ∃ m', esDeactivate m e = .ok m' ∧ Relinked m m' ∧
      m'.active = update m.active e false ∧
      EpollShape m' (update (without m lists e true) (m.esEp e, false)
        (e :: lists (m.esEp e, false))) regs := by
  have hmem : e ∈ lists (m.esEp e, true) := hflag ▸ h.listed he
  obtain ⟨m₁, hremove, hout⟩ := h.threads.removeActive hflag hmem
  have hmoved := h.moved he hflag esAddInactive (e :: ·) hout EpThreads.addInactive fun _ _ => by
    rw [mem_cons, or_comm]
  have hother : without m lists e true (m.esEp e, false) = lists (m.esEp e, false) :=
    update_of_ne (by simp) _ _
  rw [hother] at hmoved
  unfold esDeactivate
  rw [hflag, if_neg (by decide), hremove]
  exact ⟨_, rfl, hmoved⟩

theorem EpollShape.pushback (he : e ∈ m.live) (hflag : m.active e = true) :
    ∃ m', esActivePushback m e = .ok m' ∧ Relinked m m' ∧ m'.active = m.active ∧
      EpollShape m' (update lists (m.esEp e, true)
        ((lists (m.esEp e, true)).erase e ++ [e])) regs := by
  have hmem : e ∈ lists (m.esEp e, true) := hflag ▸ h.listed he
  obtain ⟨m₁, hremove, hout⟩ := h.threads.removeActive hflag hmem
  have hmoved := h.moved he hflag esAddActive (· ++ [e]) hout EpThreads.addActive fun _ _ => by simp
  have hsame : update m.active e true = m.active := by rw [← hflag, update_eq_self]
  rw [without, update_self, update_idem, hout.2.1, hsame, ← hout.2.1] at hmoved
  unfold esActivePushback
  rw [hflag, if_neg (by decide), hremove]
  exact ⟨_, rfl, hout.2.1 ▸ hmoved⟩

omit h in
/-- An active list only grows at its end. -/
theorem activated_grows (m : EpollMem) (lists : ℕ × Bool → List ℕ) (e p : ℕ) :
    lists (p, true) <+: activated m lists e (p, true) := by
  unfold activated
  split_ifs
  · exact prefix_rfl
  · by_cases hp : p = m.esEp e
    · subst hp
      rw [update_self]
      exact prefix_append _ _
    · rw [update_of_ne (by simpa using hp), without, update_of_ne (by simp)]

/-- Remove a registration from all lists, and free it. -/
theorem EpollShape.release (he : e ∈ m.live) :
    ∃ m', esRelease m e = .ok m' ∧
      EpollShape m' (without m lists e (m.active e))
        (update regs (m.esSock e) ((regs (m.esSock e)).erase e)) ∧
      m'.live = m.live.erase e ∧ m'.esEp = m.esEp ∧ m'.esSock = m.esSock ∧ m'.mask = m.mask ∧
      m'.active = m.active ∧ m'.epEvents = m.epEvents := by
  set m₁ := esRemoveSock m e with hm₁
  have hthreads₁ : EpThreads m₁ lists := h.threads.congr rfl rfl rfl rfl rfl rfl
  have hmem := h.listed he
  have hreg : e ∈ regs (m.esSock e) := (h.registered e _).2 ⟨he, rfl⟩
  have hsocket : Threads 0 m₁.soNext m₁.soPrev m₁.eps
      (update regs (m.esSock e) ((regs (m.esSock e)).erase e)) := by
    have heps : m₁.eps = update m.eps (m.esSock e)
        (if m.soPrev e = 0 then m.soNext e else m.eps (m.esSock e)) := by
      rw [← ite_update, ite_not]
      rfl
    rw [heps]
    exact h.socket.erase hreg
  have hremove : ∃ m₂, esRemoveEp m₁ e = .ok m₂ ∧ Relinked m₁ m₂ ∧ m₂.active = m₁.active ∧
      EpThreads m₂ (without m lists e (m.active e)) := by
    unfold esRemoveEp
    cases hflag : m.active e with
    | true =>
      rw [hflag] at hmem
      rw [if_pos (show m₁.active e = true from hflag)]
      exact hthreads₁.removeActive hflag hmem
    | false =>
      rw [hflag] at hmem
      rw [if_neg (show ¬ m₁.active e = true by rw [show m₁.active e = false from hflag]; decide)]
      exact hthreads₁.removeInactive hflag hmem
  obtain ⟨m₂, hm₂, hlinks, hactive, hthreads₂⟩ := hremove
  unfold esRelease
  rw [hm₂]
  refine ⟨{ m₂ with live := m₂.live.erase e }, rfl, ⟨hthreads₂.congr rfl rfl rfl rfl rfl rfl,
    ?_, ?_, ?_⟩, congrArg (fun l => Finset.erase l e) hlinks.live,
    hlinks.esEp, hlinks.esSock, hlinks.mask, hactive, hlinks.epEvents⟩
  · change Filed (m₂.live.erase e) (fun y => (m₂.esEp y, m₂.active y)) _
    rw [hlinks.live, hlinks.esEp, hactive]
    exact h.filed_without rfl
  · change Threads 0 m₂.soNext m₂.soPrev m₂.eps _
    rw [hlinks.soNext, hlinks.soPrev, hlinks.eps]
    exact hsocket
  · change Filed (m₂.live.erase e) m₂.esSock _
    rw [hlinks.live, hlinks.esSock]
    exact Filed.erase h.registered (h.socket.chain _).nodup

theorem EpollShape.register {event : EpollEvent} (hne : e ≠ 0) (hfresh : e ∉ m.live) :
    EpollShape (esRegister m e ep s event)
      (update lists (ep, false) (e :: lists (ep, false)))
      (update regs s (e :: regs s)) := by
  have hnew : ∀ k, e ∉ lists k := fun k hmem => hfresh ((h.member e k).1 hmem).1
  have hunreg : ∀ t, e ∉ regs t := fun t hmem => hfresh ((h.registered e t).1 hmem).1
  set m₁ : EpollMem := { m with
    live := insert e m.live
    esEp := update m.esEp e ep
    esSock := update m.esSock e s
    data := update m.data e event.data
    mask := update m.mask e (event.events ||| epollErr)
    active := update m.active e false
    soPrev := setLink 0 (update m.soPrev e 0) (m.eps s) e
    soNext := update m.soNext e (m.eps s)
    eps := update m.eps s e } with hm₁
  have hthreads₁ : EpThreads m₁ lists := h.threads.congr rfl rfl rfl rfl rfl rfl
  obtain ⟨hlinks, hactive, hthreads⟩ := hthreads₁.addInactive hne hnew
  have hep : m₁.esEp e = ep := update_self _ _ _
  rw [hep] at hthreads
  have hmem : ∀ (xs : List ℕ) (y : ℕ), y ∈ e :: xs ↔ y ∈ xs ∨ y = e := fun xs y => by
    rw [mem_cons, or_comm]
  refine ⟨hthreads, ?_, h.socket.push_front hne hunreg, ?_⟩
  · apply Filed.insert h.member hfresh
    · change (update m.esEp e ep e, update m.active e false e) = _
      rw [update_self, update_self]
    · intro y hy
      change (update m.esEp e ep y, update m.active e false y) = _
      rw [update_of_ne hy, update_of_ne hy]
    · exact hmem _
  · exact Filed.insert h.registered hfresh (update_self ..) (fun y hy => update_of_ne hy ..)
      (hmem _)

end

end Tas
