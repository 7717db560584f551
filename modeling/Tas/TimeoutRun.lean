import Tas.Timeout

/-! Runs of the timer manager: deadlines in real time, while the time stamps wrap. -/
namespace Tas

open Outcome Linked Function Relation List

/-! ### Deadlines -/

variable {m m' : Timers} {pend due as bs : List ℕ} {p q : ℕ} {us ts : U32} {D : ℕ → ℕ} {now t : ℕ}
  {α : Type*} {ready rest xs : List ℕ}

/-- At the time `now` the lists hold the timers with the deadlines `D`, in their order. The
deadlines of the pending timers lie in front, at most half of the range away. -/
structure Timed (m : Timers) (D : ℕ → ℕ) (now : ℕ) (pend due : List ℕ) : Prop where
  lists : TimerLists m pend due
  stamps : ∀ p ∈ pend, ((m.timeout p).timeoutType &&& timeoutMask).toNat = D p % 2 ^ 28
  ahead : ∀ p ∈ pend, now ≤ D p
  near : ∀ p ∈ pend, D p < now + 2 ^ 27
  late : ∀ p ∈ due, D p ≤ now
  sorted : (due ++ pend).Pairwise fun p q => D p ≤ D q

/-- The 28 bits of a time. -/
theorem toNat_curTs (t : ℕ) : (BitVec.ofNat 32 t &&& timeoutMask).toNat = t % 2 ^ 28 := by
  rw [toNat_and_timeoutMask, BitVec.toNat_ofNat]
  exact Nat.mod_mod_of_dvd t (by norm_num)

theorem takeWhile_eq_of_mem {f g : α → Bool} {xs : List α} (h : ∀ x ∈ xs, f x = g x) :
    xs.takeWhile f = xs.takeWhile g ∧ xs.dropWhile f = xs.dropWhile g := by
  induction xs with
  | nil => exact ⟨rfl, rfl⟩
  | cons x xs ih =>
    obtain ⟨htake, hdrop⟩ := ih fun y hy => h y (mem_cons_of_mem _ hy)
    rw [takeWhile_cons, takeWhile_cons, dropWhile_cons, dropWhile_cons,
      h x (by simp), htake, hdrop]
    exact ⟨rfl, rfl⟩

theorem lt_of_mem_dropWhile (hsorted : xs.Pairwise fun p q => D p ≤ D q)
    (hp : p ∈ xs.dropWhile fun q => decide (D q ≤ t)) : t < D p := by
  induction xs with
  | nil => simp at hp
  | cons x xs ih =>
    obtain ⟨hx, hxs⟩ := pairwise_cons.1 hsorted
    rw [dropWhile_cons] at hp
    split_ifs at hp with hdue
    · exact ih hxs hp
    · have hlt : t < D x := by simpa using hdue
      obtain rfl | hmem := mem_cons.1 hp
      · exact hlt
      · exact hlt.trans_le (hx p hmem)

/-- Time goes on, and the timers that become due are moved. -/
theorem Timed.advance (h : Timed m D now (ready ++ rest) due)
    (hle : now ≤ t) (hlists : TimerLists m' rest (due ++ ready)) (hsame : SameTypes m m')
    (hready : ∀ p ∈ ready, D p ≤ t) (hrest : ∀ p ∈ rest, t < D p) :
    Timed m' D t rest (due ++ ready) where
  lists := hlists
  stamps p hp := by
    rw [hsame p]
    exact h.stamps p (mem_append_right _ hp)
  ahead p hp := (hrest p hp).le
  near p hp := by
    have hclose := h.near p (mem_append_right _ hp)
    omega
  late p hp := by
    obtain hp | hp := mem_append.1 hp
    · exact (h.late p hp).trans hle
    · exact hready p hp
  sorted := by
    rw [append_assoc]
    exact h.sorted

theorem armedType_and_mask (type : U8) :
    (armedType us type (BitVec.ofNat 32 t) &&& timeoutMask).toNat = (t + us.toNat) % 2 ^ 28 := by
  have htype : (type.setWidth 32 <<< 28).toNat % 2 ^ 28 = 0 := by
    rw [BitVec.toNat_shiftLeft, Nat.shiftLeft_eq]
    omega
  unfold armedType
  rw [toNat_and_timeoutMask, BitVec.toNat_or, Nat.or_mod_two_pow, htype, Nat.zero_or,
    toNat_and_timeoutMask, BitVec.toNat_add, toNat_curTs]
  omega

theorem pairwise_insert {R : α → α → Prop} {xs ys : List α} {x : α} (h : (xs ++ ys).Pairwise R)
    (hxs : ∀ y ∈ xs, R y x) (hys : ∀ y ∈ ys, R x y) : (xs ++ x :: ys).Pairwise R := by
  obtain ⟨hleft, hright, hboth⟩ := pairwise_append.1 h
  refine pairwise_append.2 ⟨hleft, pairwise_cons.2 ⟨hys, hright⟩, fun y hy z hz => ?_⟩
  obtain rfl | hz := mem_cons.1 hz
  · exact hxs y hy
  · exact hboth y hy z hz

/-- In a sorted list the last element bounds all of them. -/
theorem le_of_getLast? {b : ℕ} (hsorted : xs.Pairwise fun p q => D p ≤ D q)
    (hlast : ∀ q ∈ xs.getLast?, D q ≤ b) (hp : p ∈ xs) : D p ≤ b := by
  obtain rfl | ⟨ys, x, rfl⟩ := eq_nil_or_concat xs
  · simp at hp
  · rw [concat_eq_append] at hsorted hlast hp
    have hx : D x ≤ b := hlast x (by simp)
    obtain hp | hp := mem_append.1 hp
    · exact ((pairwise_append.1 hsorted).2.2 p hp x (by simp)).trans hx
    · rwa [mem_singleton.1 hp]

/-- The deadlines after a timer was added between `as` and `bs`. -/
theorem Timed.insert (h : Timed m D now (as ++ bs) due) (hlists : TimerLists m' (as ++ q :: bs) due)
    (hnew : q ∉ due ++ (as ++ bs)) (d : ℕ)
    (hstamp : ((m'.timeout q).timeoutType &&& timeoutMask).toNat = d % 2 ^ 28)
    (hothers : ∀ r, r ≠ q → (m'.timeout r).timeoutType = (m.timeout r).timeoutType)
    (hahead : now ≤ d) (hnear : d < now + 2 ^ 27) (has : ∀ r ∈ as, D r ≤ d)
    (hbs : ∀ r ∈ bs, d ≤ D r) : Timed m' (update D q d) now (as ++ q :: bs) due := by
  have hother (r : ℕ) (hr : r ∈ due ++ (as ++ bs)) : r ≠ q := fun heq => hnew (heq ▸ hr)
  have hold (r : ℕ) (hr : r ∈ due ++ (as ++ bs)) : update D q d r = D r :=
    update_of_ne (hother r hr) ..
  have hself : update D q d q = d := update_self ..
  -- a property of a pending timer is one of the new timer and of those from before
  have hall {P : ℕ → Prop} (hq : P q) (hrest : ∀ r ∈ as ++ bs, P r) : ∀ r ∈ as ++ q :: bs, P r := by
    intro r hr
    obtain rfl | hr := mem_cons.1 (perm_middle.mem_iff.1 hr)
    · exact hq
    · exact hrest r hr
  refine ⟨hlists, hall (by rwa [hself]) fun r hr => ?_, hall (by rwa [hself]) fun r hr => ?_,
    hall (by rwa [hself]) fun r hr => ?_, fun r hr => ?_, ?_⟩
  · rw [hold r (mem_append_right _ hr), hothers r (hother r (mem_append_right _ hr))]
    exact h.stamps r hr
  · rw [hold r (mem_append_right _ hr)]
    exact h.ahead r hr
  · rw [hold r (mem_append_right _ hr)]
    exact h.near r hr
  · rw [hold r (mem_append_left _ hr)]
    exact h.late r hr
  · have hsorted : ((due ++ as) ++ bs).Pairwise
        fun p q' => update D q d p ≤ update D q d q' := by
      rw [append_assoc]
      refine h.sorted.imp_of_mem fun {x y} hx hy hxy => ?_
      rwa [hold x hx, hold y hy]
    rw [← append_assoc]
    refine pairwise_insert hsorted (fun r hr => ?_) fun r hr => ?_
    · rw [hself, hold r (by rw [← append_assoc]; exact mem_append_left _ hr)]
      obtain hr | hr := mem_append.1 hr
      · exact (h.late r hr).trans hahead
      · exact has r hr
    · rw [hself, hold r (by simp [hr])]
      exact hbs r hr

section

variable (h : Timed m D now pend due) (hle : now ≤ t) (hnear : t < now + 2 ^ 27)
include h hle hnear

theorem Timed.toInt_relTime (hp : p ∈ pend) :
    ((m.timeout p).relTime (BitVec.ofNat 32 t &&& timeoutMask)).toInt = (D p : ℤ) - t := by
  have hahead := h.ahead p hp
  have hclose := h.near p hp
  exact Tas.toInt_relTime (toNat_curTs t) (h.stamps p hp) (by omega) (by omega)

theorem Timed.timeoutDue_iff (hp : p ∈ pend) :
    timeoutDue (m.timeout p) (BitVec.ofNat 32 t &&& timeoutMask) = decide (D p ≤ t) := by
  unfold timeoutDue
  rw [h.toInt_relTime hle hnear hp]
  exact decide_eq_decide.2 (by omega)

/-- The timers that become due by the time `t`. -/
theorem Timed.split :
    ∃ ready rest, pend = ready ++ rest ∧
      (pend.takeWhile fun q => timeoutDue (m.timeout q) (BitVec.ofNat 32 t &&& timeoutMask)) =
        ready ∧
      (pend.dropWhile fun q => timeoutDue (m.timeout q) (BitVec.ofNat 32 t &&& timeoutMask)) =
        rest ∧
      (∀ p ∈ ready, D p ≤ t) ∧ ∀ p ∈ rest, t < D p := by
  have hsame := takeWhile_eq_of_mem fun p (hp : p ∈ pend) => h.timeoutDue_iff hle hnear hp
  refine ⟨_, _, takeWhile_append_dropWhile.symm, hsame.1, hsame.2, fun p hp => ?_,
    fun p hp => lt_of_mem_dropWhile (pairwise_append.1 h.sorted).2.1 hp⟩
  simpa using mem_takeWhile_imp hp

theorem Timed.moveDueTimeouts (fuel : ℕ) :
    Meets (pend.length < fuel)
      (fun m' => ∃ ready rest, pend = ready ++ rest ∧ Timed m' D t rest (due ++ ready) ∧
        ∀ p ∈ rest, t < D p)
      (moveDueTimeouts (BitVec.ofNat 32 t &&& timeoutMask) fuel m) := by
  obtain ⟨ready, rest, rfl, htake, hdrop, hready, hrest⟩ := h.split hle hnear
  refine (moveDueTimeouts_spec _ fuel h.lists).mono (fun h => h) ?_
  rintro m' ⟨hsame, hlists⟩
  rw [htake, hdrop] at hlists
  exact ⟨ready, rest, rfl, h.advance hle hlists hsame hready hrest, hrest⟩

/-- Of a timer that is not due, the relative time is the time left. -/
theorem Timed.toNat_relTime (hp : p ∈ pend) (hlt : t < D p) :
    ((m.timeout p).relTime (BitVec.ofNat 32 t &&& timeoutMask)).toNat = D p - t := by
  have hrel := h.toInt_relTime hle hnear hp
  have hclose := h.near p hp
  rw [BitVec.toInt_eq_toNat_cond] at hrel
  split_ifs at hrel <;> omega

/-- Arm a timer that is not armed. -/
theorem Timed.arm (fuel : ℕ) (type : U8) (hus : us < timeoutMiddle) (hq : q ≠ 0)
    (hnew : q ∉ due ++ pend) :
    Meets (pend.length < fuel)
      (fun m' => ∃ ready rest as bs, pend = ready ++ rest ∧ rest = as ++ bs ∧
        Timed m' (update D q (t + us.toNat)) t (as ++ q :: bs) (due ++ ready))
      (utilTimeoutArmTs fuel m q us type (BitVec.ofNat 32 t)) := by
  obtain ⟨ready, rest, rfl, htake, hdrop, hready, hrest⟩ := h.split hle hnear
  have hdue : q ∉ due := fun hmem => hnew (mem_append_left _ hmem)
  have hpend : q ∉ ready ++ rest := fun hmem => hnew (mem_append_right _ hmem)
  have husNat : us.toNat < 2 ^ 27 := BitVec.lt_def.1 hus
  have hleft (r : ℕ) (hr : r ∈ rest) := h.toNat_relTime hle hnear (mem_append_right _ hr)
    (hrest r hr)
  refine (utilTimeoutArmTs_spec h.lists type hus hq hpend hdue).mono (fun h => h) ?_
  rintro m' ⟨m₁, as, bs, hsplit, hsame, hmoved, hbs, has, hself, hothers, hlists⟩
  rw [hdrop] at hsplit
  rw [htake] at hmoved hlists
  subst hsplit
  have hnow := h.advance hle hmoved hsame hready hrest
  have hbs' (r : ℕ) (hr : r ∈ bs) : t + us.toNat ≤ D r := by
    have hlater := BitVec.lt_def.1 (hbs r hr)
    rw [hleft r (mem_append_right _ hr)] at hlater
    omega
  have has' (r : ℕ) (hr : r ∈ as) : D r ≤ t + us.toNat := by
    have hsorted := (pairwise_append.1 (pairwise_append.1 hnow.sorted).2.1).1
    refine le_of_getLast? hsorted (fun x hx => ?_) hr
    have hearlier := BitVec.le_def.1 (has x hx)
    rw [hleft x (mem_append_left _ (mem_of_getLast? hx))] at hearlier
    omega
  have hnew' : q ∉ (due ++ ready) ++ (as ++ bs) := by
    rwa [append_assoc]
  refine ⟨ready, as ++ bs, as, bs, rfl, rfl, hnow.insert hlists hnew' _ ?_ hothers (by omega)
    (by omega) has' hbs'⟩
  rw [hself, armedType_and_mask]

end

/-- Fewer timers, with their times kept. -/
theorem Timed.sublist {pend' due' : List ℕ} (h : Timed m D now pend due)
    (hlists : TimerLists m' pend' due') (hsame : SameTypes m m') (hpend : pend'.Sublist pend)
    (hdue : due'.Sublist due) : Timed m' D now pend' due' where
  lists := hlists
  stamps p hp := by
    rw [hsame p]
    exact h.stamps p (hpend.subset hp)
  ahead p hp := h.ahead p (hpend.subset hp)
  near p hp := h.near p (hpend.subset hp)
  late p hp := h.late p (hdue.subset hp)
  sorted := h.sorted.sublist (hdue.append hpend)

theorem erase_middle (h : (as ++ p :: bs).Nodup) : (as ++ p :: bs).erase p = as ++ bs := by
  have hp : p ∉ as := fun hmem => (nodup_append.1 h).2.2 p hmem p (by simp) rfl
  rw [erase_append_right _ hp, erase_cons_head]

/-- Disarm a timer that is armed. -/
theorem Timed.disarm (h : Timed m D now pend due) (hp : p ∈ due ++ pend) :
    ∃ m', utilTimeoutDisarm m p = .ok m' ∧ Timed m' D now (pend.erase p) (due.erase p) := by
  have hsame {m' : Timers} (hmem : m'.timeout = m.timeout.unlink p) : SameTypes m m' := by
    intro q
    rw [hmem, TimeoutMem.timeoutType_unlink]
  obtain hdue | hpend := mem_append.1 hp
  · have hout : p ∉ pend := h.lists.apart p hdue
    obtain ⟨as, bs, rfl⟩ := append_of_mem hdue
    obtain ⟨m', hr, hmem, hlists⟩ := disarm_waiting h.lists
    rw [erase_of_not_mem hout, erase_middle h.lists.waiting.chain.nodup]
    exact ⟨m', hr, h.sublist hlists (hsame hmem) (List.Sublist.refl _)
      ((sublist_cons_self p bs).append_left as)⟩
  · have hout : p ∉ due := fun hmem => h.lists.apart p hmem hpend
    obtain ⟨as, bs, rfl⟩ := append_of_mem hpend
    obtain ⟨m', hr, hmem, hlists⟩ := disarm_pending h.lists
    rw [erase_of_not_mem hout, erase_middle h.lists.pending.chain.nodup]
    exact ⟨m', hr, h.sublist hlists (hsame hmem) ((sublist_cons_self p bs).append_left as)
      (List.Sublist.refl _)⟩

theorem Timed.popDue (h : Timed m D now pend (p :: due)) :
    m.dueFirst = p ∧ Timed (popDue m) D now pend due := by
  obtain ⟨hfirst, hlists⟩ := timerLists_popDue h.lists
  exact ⟨hfirst, h.sublist hlists (sameTypes_popDue m) (List.Sublist.refl _)
    (sublist_cons_self _ _)⟩

theorem Timed.next_waiting (h : Timed m D now pend (p :: due)) : utilTimeoutNext m ts = 0 := by
  have hfirst : m.dueFirst = p := h.lists.waiting.chain.path.1
  have hp : p ≠ 0 := h.lists.due_ne (by simp)
  unfold utilTimeoutNext
  rw [if_pos (hfirst ▸ hp)]

theorem Timed.next_none (h : Timed m D now [] []) (ts : U32) : utilTimeoutNext m ts = -1 := by
  have hdue : m.dueFirst = 0 := h.lists.waiting.chain.path
  have hpend : m.timeoutsFirst = 0 := h.lists.pending.chain.path
  unfold utilTimeoutNext
  rw [if_neg (not_not.2 hdue), if_pos hpend]

theorem Timed.next_pending (h : Timed m D now (p :: pend) []) (hle : now ≤ t)
    (hnear : t < now + 2 ^ 27) : (utilTimeoutNext m (BitVec.ofNat 32 t)).toNat = D p - t := by
  have hdue : m.dueFirst = 0 := h.lists.waiting.chain.path
  have hfirst : m.timeoutsFirst = p := h.lists.pending.chain.path.1
  have hp : p ≠ 0 := h.lists.pend_ne (by simp)
  have hrel := h.toInt_relTime hle hnear (mem_cons_self)
  unfold utilTimeoutNext
  rw [if_neg (not_not.2 hdue), if_neg (hfirst ▸ hp), hfirst]
  dsimp only
  split_ifs with hneg
  · rw [hrel] at hneg
    simp
    omega
  · rw [BitVec.toInt_eq_toNat_cond] at hrel hneg
    split_ifs at hrel hneg <;> omega

/-! ### Events -/

/-- A timer is armed with a deadline or disarmed, its handler is called, a poll begins. -/
inductive TimerEvent
  | armed (tmo deadline : ℕ)
  | disarmed (tmo : ℕ)
  | fired (tmo deadline time : ℕ)
  | polled (time : ℕ)
deriving DecidableEq

/-- The deadline of a timer that is armed. The latest event comes first. -/
def deadlineOf (p : ℕ) : List TimerEvent → Option ℕ
  | [] => none
  | .armed q d :: log => if p = q then some d else deadlineOf p log
  | .disarmed q :: log => if p = q then none else deadlineOf p log
  | .fired q _ _ :: log => if p = q then none else deadlineOf p log
  | .polled _ :: log => deadlineOf p log

/-- A handler is called only for a timer that is armed, when its deadline is reached. -/
def FiresArmed : List TimerEvent → Prop
  | [] => True
  | .fired p d t :: log => (deadlineOf p log = some d ∧ d ≤ t) ∧ FiresArmed log
  | .armed p _ :: log => deadlineOf p log = none ∧ FiresArmed log
  | .disarmed p :: log => deadlineOf p log ≠ none ∧ FiresArmed log
  | .polled _ :: log => FiresArmed log

/-- The deadlines for which handlers were called. -/
def firedDeadlines : List TimerEvent → List ℕ
  | [] => []
  | .fired _ d _ :: log => d :: firedDeadlines log
  | .armed _ _ :: log => firedDeadlines log
  | .disarmed _ :: log => firedDeadlines log
  | .polled _ :: log => firedDeadlines log

/-- The timer is no longer armed after the event. -/
def TimerEvent.Ends (p : ℕ) : TimerEvent → Prop
  | .disarmed q => q = p
  | .fired q _ _ => q = p
  | .armed _ _ => False
  | .polled _ => False

/-- A timer whose deadline was reached at a poll has its handler called, or is disarmed, or is
kept in the due list. -/
def Served (log : List TimerEvent) (due : List ℕ) : Prop :=
  ∀ newer t older, log = newer ++ .polled t :: older → ∀ p d, deadlineOf p older = some d →
    d ≤ t → p ∈ due ∨ ∃ e ∈ newer, e.Ends p

/-! ### Runs -/

/-- The time of the last call that was given one, and the events. -/
structure TimerTrace where
  now : ℕ
  log : List TimerEvent

/-- The manager with its trace. -/
abbrev TimerRun := Timers × TimerTrace

/-- After `util_timeout_init`. -/
structure TimerStart (s : TimerRun) : Prop where
  timeouts : s.1.timeoutsFirst = 0 ∧ s.1.timeoutsLast = 0
  due : s.1.dueFirst = 0 ∧ s.1.dueLast = 0
  log : s.2.log = []

/-- The time `t` of a call is not before and less than half of the range after the time `now`. -/
def Soon (now t : ℕ) : Prop := now ≤ t ∧ t < now + 2 ^ 27

instance (now t : ℕ) : Decidable (Soon now t) := inferInstanceAs (Decidable (_ ∧ _))

/-- A timer that is not armed is armed, or one that is armed is disarmed, by a handler or outside
of a poll. -/
inductive TimerCall : TimerRun → TimerRun → Prop
  | arm {s : TimerRun} {m' : Timers} {fuel p t : ℕ} {us : U32} {type : U8} (hp : p ≠ 0)
    (hidle : deadlineOf p s.2.log = none) (hsoon : Soon s.2.now t)
    (hr : utilTimeoutArmTs fuel s.1 p us type (BitVec.ofNat 32 t) = .ok m') :
    TimerCall s (m', ⟨t, .armed p (t + us.toNat) :: s.2.log⟩)
  | disarm {s : TimerRun} {m' : Timers} {p : ℕ} (harmed : deadlineOf p s.2.log ≠ none)
    (hr : utilTimeoutDisarm s.1 p = .ok m') :
    TimerCall s (m', ⟨s.2.now, .disarmed p :: s.2.log⟩)

/-- The handler of the timer `p` is called. -/
def TimerTrace.fire (x : TimerTrace) (p : ℕ) : TimerTrace :=
  ⟨x.now, .fired p ((deadlineOf p x.log).getD 0) x.now :: x.log⟩

/-- `util_timeout_poll_ts` at the time `t`, with its beginning and the calls of its handler in the
trace. -/
def tracedPoll (handler : ℕ → U8 → TimerRun → Except Fault TimerRun) (fuel : ℕ) (s : TimerRun)
    (t : ℕ) : Except Fault TimerRun :=
  utilTimeoutPollTs (fun p type s => handler p type (s.1, s.2.fire p)) fuel
    (s.1, ⟨t, .polled t :: s.2.log⟩) (BitVec.ofNat 32 t)

/-- When it is called for a timer that fires, the handler only arms and disarms timers. -/
def HandlerCalls (handler : ℕ → U8 → TimerRun → Except Fault TimerRun) : Prop :=
  ∀ p type s s' d t log, p ≠ 0 → s.2.log = .fired p d t :: log → handler p type s = .ok s' →
    ReflTransGen TimerCall s s'

/-- Timers are armed and disarmed, and polls are made with handlers that arm and disarm. -/
inductive TimerStep : TimerRun → TimerRun → Prop
  | call {s s' : TimerRun} (h : TimerCall s s') : TimerStep s s'
  | poll {s s' : TimerRun} {fuel t : ℕ} {handler : ℕ → U8 → TimerRun → Except Fault TimerRun}
    (hsoon : Soon s.2.now t) (hcalls : HandlerCalls handler)
    (hr : tracedPoll handler fuel s t = .ok s') : TimerStep s s'

/-- The timers in the lists are those that are armed, with the deadlines `D`. -/
structure TimerInv (s : TimerRun) (D : ℕ → ℕ) (pend due : List ℕ) : Prop where
  timed : Timed s.1 D s.2.now pend due
  armed : ∀ p d, deadlineOf p s.2.log = some d ↔ p ∈ due ++ pend ∧ D p = d
  fires : FiresArmed s.2.log
  order : (firedDeadlines s.2.log).Pairwise (· ≥ ·)
  past : ∀ d ∈ firedDeadlines s.2.log, d ≤ s.2.now ∧ ∀ p ∈ due, d ≤ D p
  served : Served s.2.log due

/-- The lists hold the armed timers, in their order. -/
def TimersSound (s : TimerRun) : Prop := ∃ D pend due, TimerInv s D pend due

/-- When it is called for a timer that fires, the handler returns. -/
def HandlerReturns (handler : ℕ → U8 → TimerRun → Except Fault TimerRun) : Prop :=
  ∀ p type s d t log, TimersSound s → p ≠ 0 → s.2.log = .fired p d t :: log →
    ∃ s', handler p type s = .ok s'

variable {s s' s₀ : TimerRun} {log : List TimerEvent} {e : TimerEvent} {due' : List ℕ} {fuel : ℕ}
  {type : U8} {num : ℕ} {newer : List TimerEvent}
  {handler : ℕ → U8 → TimerRun → Except Fault TimerRun}

theorem Served.cons (h : Served log due) (hkeep : ∀ p ∈ due, p ∈ due' ∨ e.Ends p)
    (hpoll : ∀ t, e = .polled t → ∀ p d, deadlineOf p log = some d → d ≤ t → p ∈ due') :
    Served (e :: log) due' := by
  intro newer t older heq p d hd hle
  cases newer with
  | nil =>
    cases heq
    exact .inl (hpoll t rfl p d hd hle)
  | cons e' newer =>
    obtain ⟨rfl, hlog⟩ := List.cons.inj heq
    obtain hp | ⟨e', he', hends⟩ := h newer t older hlog p d hd hle
    · obtain hp | hp := hkeep p hp
      · exact .inl hp
      · exact .inr ⟨e, by simp, hp⟩
    · exact .inr ⟨e', mem_cons_of_mem _ he', hends⟩

section

variable (h : TimerInv s D pend due)
include h

theorem TimerInv.not_mem (hidle : deadlineOf p s.2.log = none) : p ∉ due ++ pend := by
  intro hp
  have hd := (h.armed p (D p)).2 ⟨hp, rfl⟩
  rw [hidle] at hd
  cases hd

theorem TimerInv.mem (harmed : deadlineOf p s.2.log ≠ none) : p ∈ due ++ pend := by
  obtain ⟨d, hd⟩ := Option.ne_none_iff_exists'.1 harmed
  exact ((h.armed p d).1 hd).1

omit h in
theorem us_lt_of_arm (hr : utilTimeoutArmTs fuel m p us type ts = .ok m') : us < timeoutMiddle := by
  by_contra hus
  unfold utilTimeoutArmTs at hr
  simp only [ge_iff_le] at hr
  rw [if_pos (BitVec.not_lt.1 hus)] at hr
  cases hr

omit h in
/-- After time went on, the deadlines of handlers that were called are still before those of the
timers that are due. -/
theorem TimerInv.past_of_moved (h : TimerInv s D (ready ++ rest) due) (hle : s.2.now ≤ t) (d : ℕ)
    (hd : d ∈ firedDeadlines s.2.log) : d ≤ t ∧ ∀ p ∈ due ++ ready, d ≤ D p := by
  obtain ⟨hnow, hpast⟩ := h.past d hd
  refine ⟨hnow.trans hle, fun p hp => ?_⟩
  obtain hp | hp := mem_append.1 hp
  · exact hpast p hp
  · exact hnow.trans (h.timed.ahead p (mem_append_left _ hp))

theorem TimerInv.arm (hp : p ≠ 0) (hidle : deadlineOf p s.2.log = none) (hsoon : Soon s.2.now t)
    (hr : utilTimeoutArmTs fuel s.1 p us type (BitVec.ofNat 32 t) = .ok m') :
    TimersSound (m', ⟨t, .armed p (t + us.toNat) :: s.2.log⟩) := by
  have hnew := h.not_mem hidle
  obtain ⟨ready, rest, as, bs, rfl, rfl, htimed⟩ := (h.timed.arm hsoon.1 hsoon.2 fuel type
    (us_lt_of_arm hr) hp hnew).of_ok hr
  have hold (q : ℕ) (hq : q ≠ p) : update D p (t + us.toNat) q = D q :=
    update_of_ne hq ..
  refine ⟨_, _, _, htimed, fun q d => ?_, ⟨hidle, h.fires⟩, h.order, fun d hd => ?_, ?_⟩
  · rw [deadlineOf]
    by_cases hq : q = p
    · subst hq
      simp
    · rw [if_neg hq, h.armed q d, hold q hq]
      simp [hq]
  · obtain ⟨hnow, hpast⟩ := h.past_of_moved hsoon.1 d hd
    refine ⟨hnow, fun q hq => ?_⟩
    rw [hold q]
    · exact hpast q hq
    · rintro rfl
      apply hnew
      simp only [mem_append] at hq ⊢
      tauto
  · exact h.served.cons (fun q hq => .inl (mem_append_left _ hq)) (fun t he => by cases he)

theorem TimerInv.disarm (harmed : deadlineOf p s.2.log ≠ none)
    (hr : utilTimeoutDisarm s.1 p = .ok m') :
    TimersSound (m', ⟨s.2.now, .disarmed p :: s.2.log⟩) := by
  obtain ⟨m₁, hr₁, htimed⟩ := h.timed.disarm (h.mem harmed)
  obtain rfl : m' = m₁ := Except.ok.inj (hr.symm.trans hr₁)
  have hdue := h.timed.lists.waiting.chain.nodup
  have hpend := h.timed.lists.pending.chain.nodup
  refine ⟨D, _, _, htimed, fun q d => ?_, ⟨harmed, h.fires⟩, h.order, fun d hd => ?_, ?_⟩
  · rw [deadlineOf, mem_append, hdue.mem_erase_iff, hpend.mem_erase_iff]
    by_cases hq : q = p
    · simp [hq]
    · rw [if_neg hq, h.armed q d, mem_append]
      simp [hq]
  · obtain ⟨hnow, hpast⟩ := h.past d hd
    exact ⟨hnow, fun q hq => hpast q (mem_of_mem_erase hq)⟩
  · refine h.served.cons (fun q hq => ?_) (fun t he => by cases he)
    by_cases hqp : q = p
    · exact .inr hqp.symm
    · exact .inl (hdue.mem_erase_iff.2 ⟨hqp, hq⟩)

theorem TimerInv.poll (hsoon : Soon s.2.now t)
    (hr : moveDueTimeouts (BitVec.ofNat 32 t &&& timeoutMask) fuel s.1 = .ok m') :
    TimersSound (m', ⟨t, .polled t :: s.2.log⟩) := by
  obtain ⟨ready, rest, rfl, htimed, hrest⟩ :=
    (h.timed.moveDueTimeouts hsoon.1 hsoon.2 fuel).of_ok hr
  refine ⟨D, rest, due ++ ready, htimed, fun q d => ?_, h.fires, h.order,
    h.past_of_moved hsoon.1, ?_⟩
  · rw [append_assoc]
    exact h.armed q d
  · refine h.served.cons (fun q hq => .inl (mem_append_left _ hq)) ?_
    rintro t' ht' q d hd hle
    cases ht'
    obtain ⟨hmem, rfl⟩ := (h.armed q d).1 hd
    rw [← append_assoc] at hmem
    obtain hmem | hmem := mem_append.1 hmem
    · exact hmem
    · exact absurd (hrest q hmem) (not_lt.2 hle)

theorem TimerInv.fire (hmore : s.1.dueFirst ≠ 0) :
    TimersSound (popDue s.1, s.2.fire s.1.dueFirst) := by
  cases due with
  | nil => exact absurd h.timed.lists.waiting.chain.path hmore
  | cons p due =>
    obtain ⟨hfirst, htimed⟩ := h.timed.popDue
    have hd : deadlineOf p s.2.log = some (D p) := (h.armed p (D p)).2 ⟨by simp, rfl⟩
    have hsorted := pairwise_cons.1 h.timed.sorted
    have hout : p ∉ due ++ pend := by
      intro hmem
      obtain hmem | hmem := mem_append.1 hmem
      · exact (nodup_cons.1 h.timed.lists.waiting.chain.nodup).1 hmem
      · exact h.timed.lists.apart p (by simp) hmem
    unfold TimerTrace.fire
    rw [hfirst, hd, Option.getD_some]
    refine ⟨D, pend, due, htimed, fun q d => ?_, ⟨⟨hd, h.timed.late p (by simp)⟩, h.fires⟩, ?_, ?_,
      ?_⟩
    · rw [deadlineOf]
      by_cases hq : q = p
      · subst hq
        simp [hout]
      · rw [if_neg hq, h.armed q d]
        simp [hq]
    · exact pairwise_cons.2 ⟨fun d hd => (h.past d hd).2 p (by simp), h.order⟩
    · intro d hd
      obtain rfl | hd := mem_cons.1 hd
      · exact ⟨h.timed.late p (by simp), fun q hq => hsorted.1 q (mem_append_left _ hq)⟩
      · exact ⟨(h.past d hd).1, fun q hq => (h.past d hd).2 q (mem_cons_of_mem _ hq)⟩
    · refine h.served.cons (fun q hq => ?_) (fun t he => by cases he)
      obtain rfl | hq := mem_cons.1 hq
      · exact .inr rfl
      · exact .inl hq

end

/-! ### Calls and polls -/

theorem firedDeadlines_append (xs ys : List TimerEvent) :
    firedDeadlines (xs ++ ys) = firedDeadlines xs ++ firedDeadlines ys := by
  induction xs with
  | nil => rfl
  | cons e xs ih => cases e <;> simp [firedDeadlines, ih]

/-- A handler keeps the lists in order, and no other handler is called meanwhile. -/
theorem timersSound_calls (h : TimersSound s) (hrun : ReflTransGen TimerCall s s') :
    TimersSound s' ∧ ∃ newer, s'.2.log = newer ++ s.2.log ∧ firedDeadlines newer = [] := by
  induction hrun with
  | refl => exact ⟨h, [], rfl, rfl⟩
  | tail _ hcall ih =>
    obtain ⟨⟨D, pend, due, h⟩, newer, hlog, hnone⟩ := ih
    cases hcall with
    | arm hp hidle hsoon hr =>
      exact ⟨h.arm hp hidle hsoon hr, .armed _ _ :: newer, by rw [hlog]; rfl, hnone⟩
    | disarm harmed hr =>
      exact ⟨h.disarm harmed hr, .disarmed _ :: newer, by rw [hlog]; rfl, hnone⟩

section Loop

variable (h : TimersSound s) (hcalls : HandlerCalls handler) (hnum : num ≤ maxTimeouts)
include h hcalls hnum

/-- The loop ends when no timer is due or when it has called the largest number of handlers. -/
theorem processDue_calls
    (hr : processDue (fun p type s => handler p type (s.1, s.2.fire p)) num fuel s = .ok s') :
    TimersSound s' ∧ ∃ newer, s'.2.log = newer ++ s.2.log ∧
      num + (firedDeadlines newer).length ≤ maxTimeouts ∧
      (num + (firedDeadlines newer).length = maxTimeouts ∨ s'.1.dueFirst = 0) := by
  induction fuel generalizing s num with
  | zero => cases hr
  | succ fuel ih =>
    obtain ⟨D, pend, due, hinv⟩ := h
    unfold processDue at hr
    by_cases hmore : s.1.dueFirst ≠ 0 ∧ num < maxTimeouts
    · rw [if_pos hmore] at hr
      obtain ⟨s₁, hhandler, hr⟩ := of_bind_ok hr
      obtain ⟨hsound, new₁, hlog₁, hnone⟩ := timersSound_calls (hinv.fire hmore.1)
        (hcalls _ _ _ _ _ _ _ hmore.1 rfl hhandler)
      obtain ⟨hsound', new₂, hlog₂, hle, hend⟩ := ih hsound hmore.2 hr
      let e := TimerEvent.fired s.1.dueFirst ((deadlineOf s.1.dueFirst s.2.log).getD 0) s.2.now
      have hcount : (firedDeadlines (new₂ ++ (new₁ ++ [e]))).length =
          (firedDeadlines new₂).length + 1 := by
        rw [firedDeadlines_append, firedDeadlines_append, hnone]
        simp [firedDeadlines, e]
      refine ⟨hsound', new₂ ++ (new₁ ++ [e]), ?_, ?_⟩
      · rw [hlog₂, hlog₁]
        simp [TimerTrace.fire, e]
      · rw [hcount]
        exact ⟨by omega, hend.imp (by omega) id⟩
    · rw [if_neg hmore] at hr
      cases hr
      refine ⟨⟨D, pend, due, hinv⟩, [], rfl, hnum, ?_⟩
      by_cases hdue : s.1.dueFirst = 0
      · exact .inr hdue
      · exact .inl (le_antisymm hnum (not_lt.1 fun hlt => hmore ⟨hdue, hlt⟩))

theorem processDue_returns (hreturns : HandlerReturns handler)
    (hfuel : maxTimeouts < num + fuel) :
    ∃ s', processDue (fun p type s => handler p type (s.1, s.2.fire p)) num fuel s = .ok s' := by
  induction fuel generalizing s num with
  | zero => omega
  | succ fuel ih =>
    obtain ⟨D, pend, due, hinv⟩ := h
    unfold processDue
    by_cases hmore : s.1.dueFirst ≠ 0 ∧ num < maxTimeouts
    · rw [if_pos hmore]
      obtain ⟨s₁, hhandler⟩ := hreturns _ (s.1.timeout s.1.dueFirst).type _ _ _ _
        (hinv.fire hmore.1) hmore.1 rfl
      obtain ⟨hsound, -⟩ := timersSound_calls (hinv.fire hmore.1)
        (hcalls _ _ _ _ _ _ _ hmore.1 rfl hhandler)
      rw [hhandler]
      exact ih hsound hmore.2 (by omega)
    · rw [if_neg hmore]
      exact ⟨_, rfl⟩

end Loop

/-- A timer that was armed and for which nothing has happened since is still armed. -/
theorem deadlineOf_append {d : ℕ} (hfires : FiresArmed (newer ++ log))
    (hd : deadlineOf p log = some d) (hnone : ∀ e ∈ newer, ¬ e.Ends p) :
    deadlineOf p (newer ++ log) = some d := by
  induction newer with
  | nil => exact hd
  | cons e newer ih =>
    have hends : ¬ e.Ends p := hnone e (by simp)
    have hrest := fun hf => ih hf fun e' he' => hnone e' (mem_cons_of_mem _ he')
    cases e with
    | armed q d' =>
      have hstill := hrest hfires.2
      have hne : p ≠ q := by
        rintro rfl
        cases hstill.symm.trans hfires.1
      rw [cons_append, deadlineOf, if_neg hne, hstill]
    | disarmed q | fired q _ _ =>
      rw [cons_append, deadlineOf, if_neg fun heq => hends heq.symm]
      exact hrest hfires.2
    | polled _ => exact hrest hfires

/-- What a poll at the time `t` has done. It has called at most 64 handlers. The handler of each
timer whose deadline was reached was called, unless the timer was disarmed before, or unless 64
handlers were called, and then the timer is still armed. -/
def PollDone (s s' : TimerRun) (t : ℕ) : Prop :=
  ∃ newer, s'.2.log = newer ++ .polled t :: s.2.log ∧
    (firedDeadlines newer).length ≤ maxTimeouts ∧
    ∀ p d, deadlineOf p s.2.log = some d → d ≤ t → (∃ e ∈ newer, e.Ends p) ∨
      ((firedDeadlines newer).length = maxTimeouts ∧ deadlineOf p s'.2.log = some d)

theorem tracedPoll_done (h : TimersSound s) (hsoon : Soon s.2.now t)
    (hcalls : HandlerCalls handler) (hr : tracedPoll handler fuel s t = .ok s') :
    TimersSound s' ∧ PollDone s s' t := by
  obtain ⟨D, pend, due, h⟩ := h
  obtain ⟨m₁, hmove, hr⟩ := of_bind_ok hr
  obtain ⟨hsound, newer, hlog, hle, hend⟩ :=
    processDue_calls (h.poll hsoon hmove) hcalls (Nat.zero_le _) hr
  refine ⟨hsound, newer, hlog, by omega, fun p d hd hdt => ?_⟩
  obtain ⟨D', pend', due', h'⟩ := hsound
  by_cases hended : ∃ e ∈ newer, e.Ends p
  · exact .inl hended
  · have hnone : ∀ e ∈ newer, ¬ e.Ends p := fun e he hp => hended ⟨e, he, hp⟩
    have hstill : deadlineOf p s'.2.log = some d := by
      rw [hlog]
      exact deadlineOf_append (by rw [← hlog]; exact h'.fires) hd hnone
    refine .inr ⟨?_, hstill⟩
    obtain hmax | hempty := hend
    · omega
    · -- the due list is empty, so the timer is not kept there
      have hnil : due' = [] := by
        cases due' with
        | nil => rfl
        | cons q due' =>
          have hfirst : s'.1.dueFirst = q := h'.timed.lists.waiting.chain.path.1
          exact absurd (hfirst.symm.trans hempty) (h'.timed.lists.due_ne (by simp))
      obtain hmem | hmem := h'.served newer t s.2.log hlog p d hd hdt
      · rw [hnil] at hmem
        cases hmem
      · exact absurd hmem hended

theorem tracedPoll_returns (h : TimersSound s) (hsoon : Soon s.2.now t)
    (hcalls : HandlerCalls handler) (hreturns : HandlerReturns handler) :
    ∃ fuel s', tracedPoll handler fuel s t = .ok s' := by
  obtain ⟨D, pend, due, h⟩ := h
  -- enough for both loops
  let fuel := pend.length + maxTimeouts + 1
  obtain ⟨m₁, hmove, -⟩ := (h.timed.moveDueTimeouts hsoon.1 hsoon.2 fuel).returns (by omega)
  obtain ⟨s', hr⟩ := processDue_returns (h.poll hsoon hmove) hcalls (Nat.zero_le _) hreturns
    (by omega : maxTimeouts < 0 + fuel)
  refine ⟨fuel, s', ?_⟩
  unfold tracedPoll utilTimeoutPollTs
  rw [hmove]
  exact hr

theorem timersSound_start (h : TimerStart s) : TimersSound s := by
  obtain ⟨⟨htf, htl⟩, ⟨hdf, hdl⟩, hlog⟩ := h
  refine ⟨fun _ => 0, [], [], ⟨⟨?_, ?_, by simp⟩, by simp, by simp, by simp, by simp, by simp⟩,
    ?_, ?_, ?_, ?_, ?_⟩
  · rw [htf, htl]
    exact deque_nil
  · rw [hdf, hdl]
    exact deque_nil
  · simp [hlog, deadlineOf]
  · rw [hlog]
    trivial
  · simp [hlog, firedDeadlines]
  · simp [hlog, firedDeadlines]
  · intro newer t older heq
    rw [hlog] at heq
    simp at heq

theorem timersSound_of_reachable (hstart : TimerStart s₀)
    (hrun : ReflTransGen TimerStep s₀ s) : TimersSound s := by
  induction hrun with
  | refl => exact timersSound_start hstart
  | tail _ hstep ih =>
    cases hstep with
    | call hcall => exact (timersSound_calls ih (.single hcall)).1
    | poll hsoon hcalls hr => exact (tracedPoll_done ih hsoon hcalls hr).1

/-! ### Correctness -/

/-- The earliest deadline of the timers that are armed. -/
def Earliest (log : List TimerEvent) (d : ℕ) : Prop :=
  (∃ p, deadlineOf p log = some d) ∧ ∀ p e, deadlineOf p log = some e → d ≤ e

/-- The lists hold the armed timers in the order of their deadlines, handlers are called once for
each armed timer, in time and in order, the calls return, and the time until the next timer is due
is exact. -/
structure TimersOk (s : TimerRun) : Prop where
  lists : ∃ (D : ℕ → ℕ) (pend due : List ℕ), TimerLists s.1 pend due ∧
    (∀ p d, deadlineOf p s.2.log = some d ↔ p ∈ due ++ pend ∧ D p = d) ∧
    ((due ++ pend).Pairwise fun p q => D p ≤ D q) ∧ Served s.2.log due
  fires : FiresArmed s.2.log
  order : (firedDeadlines s.2.log).Pairwise (· ≥ ·)
  next : ∀ t, Soon s.2.now t →
    (∀ d, Earliest s.2.log d → (utilTimeoutNext s.1 (BitVec.ofNat 32 t)).toNat = d - t) ∧
    ((∀ p, deadlineOf p s.2.log = none) → utilTimeoutNext s.1 (BitVec.ofNat 32 t) = -1)
  arms : ∀ p us type t, p ≠ 0 → deadlineOf p s.2.log = none → us < timeoutMiddle → Soon s.2.now t →
    ∃ fuel m', utilTimeoutArmTs fuel s.1 p us type (BitVec.ofNat 32 t) = .ok m'
  disarms : ∀ p, deadlineOf p s.2.log ≠ none → ∃ m', utilTimeoutDisarm s.1 p = .ok m'
  polls : ∀ t handler, Soon s.2.now t → HandlerCalls handler →
    (∀ fuel s', tracedPoll handler fuel s t = .ok s' → PollDone s s' t) ∧
    (HandlerReturns handler → ∃ fuel s', tracedPoll handler fuel s t = .ok s')

theorem TimerInv.earliest {ps : List ℕ} (h : TimerInv s D pend due) (hps : due ++ pend = p :: ps)
    {d : ℕ} (hd : Earliest s.2.log d) : d = D p := by
  obtain ⟨⟨q, hq⟩, hleast⟩ := hd
  have hsorted := h.timed.sorted
  rw [hps] at hsorted
  refine le_antisymm (hleast p _ ((h.armed p _).2 ⟨by simp [hps], rfl⟩)) ?_
  obtain ⟨hmem, rfl⟩ := (h.armed q d).1 hq
  rw [hps] at hmem
  obtain rfl | hmem := mem_cons.1 hmem
  · exact le_rfl
  · exact (pairwise_cons.1 hsorted).1 q hmem

theorem TimerInv.next (h : TimerInv s D pend due) (hsoon : Soon s.2.now t) :
    (∀ d, Earliest s.2.log d → (utilTimeoutNext s.1 (BitVec.ofNat 32 t)).toNat = d - t) ∧
    ((∀ p, deadlineOf p s.2.log = none) → utilTimeoutNext s.1 (BitVec.ofNat 32 t) = -1) := by
  refine ⟨fun d hd => ?_, fun hnone => ?_⟩
  · cases due with
    | cons p due =>
      obtain rfl := h.earliest rfl hd
      have hlate := h.timed.late p (by simp)
      have hle := hsoon.1
      rw [h.timed.next_waiting]
      simp
      omega
    | nil =>
      cases pend with
      | cons p pend =>
        obtain rfl := h.earliest rfl hd
        exact h.timed.next_pending hsoon.1 hsoon.2
      | nil =>
        obtain ⟨⟨p, hp⟩, -⟩ := hd
        exact absurd ((h.armed p d).1 hp).1 (by simp)
  · have hempty : due ++ pend = [] := by
      apply eq_nil_iff_forall_not_mem.2
      exact fun p => h.not_mem (hnone p)
    obtain ⟨rfl, rfl⟩ := append_eq_nil_iff.1 hempty
    exact h.timed.next_none _

/-- Timers fire once, in time and in order, in every run in which calls that are given a time are
less than half of the range of the time stamps apart. -/
theorem timers_fire_in_order (hstart : TimerStart s₀)
    (hrun : ReflTransGen TimerStep s₀ s) : TimersOk s := by
  have hsound := timersSound_of_reachable hstart hrun
  obtain ⟨D, pend, due, h⟩ := id hsound
  refine ⟨⟨D, pend, due, h.timed.lists, h.armed, h.timed.sorted, h.served⟩, h.fires, h.order,
    fun t hsoon => h.next hsoon, fun p us type t hp hidle hus hsoon => ?_, fun p harmed => ?_,
    fun t handler hsoon hcalls => ⟨fun fuel s' hr => (tracedPoll_done hsound hsoon hcalls hr).2,
      tracedPoll_returns hsound hsoon hcalls⟩⟩
  · obtain ⟨m', hr, -⟩ := (h.timed.arm hsoon.1 hsoon.2 (pend.length + 1) type hus hp
      (h.not_mem hidle)).returns (Nat.lt_succ_self _)
    exact ⟨_, m', hr⟩
  · obtain ⟨m', hr, -⟩ := h.timed.disarm (h.mem harmed)
    exact ⟨m', hr⟩

/-- No timers, at the time `now`. -/
def idleRun (now : ℕ) : TimerRun := (⟨0, 0, 0, 0, fun _ => ⟨0, 0, 0⟩⟩, ⟨now, []⟩)

/-- The timer 1 is armed for 10 microseconds. -/
def oneArmed (now : ℕ) : TimerRun :=
  (insertBetween (idleRun now).1 1 0 0 (armedType 10 0 (BitVec.ofNat 32 now)),
    ⟨now, [.armed 1 (now + 10)]⟩)

/-- The timer 2 is armed for 20. -/
def twoArmed (now : ℕ) : TimerRun :=
  (insertBetween (oneArmed now).1 2 1 0 (armedType 20 0 (BitVec.ofNat 32 now)),
    ⟨now, [.armed 2 (now + 20), .armed 1 (now + 10)]⟩)

theorem idleRun_start (now : ℕ) : TimerStart (idleRun now) := ⟨⟨rfl, rfl⟩, ⟨rfl, rfl⟩, rfl⟩

theorem oneArmed_step (now : ℕ) : TimerCall (idleRun now) (oneArmed now) :=
  @TimerCall.arm (idleRun now) (oneArmed now).1 1 1 now 10 0 (by decide) rfl
    ⟨le_rfl, Nat.lt_add_of_pos_right (by decide)⟩ rfl

/-- A handler that arms the timer again, for 100 microseconds. -/
def armAgain (p : ℕ) (type : U8) (s : TimerRun) : Except Fault TimerRun := do
  let m ← utilTimeoutArmTs 3 s.1 p 100 type (BitVec.ofNat 32 s.2.now)
  .ok (m, ⟨s.2.now, .armed p (s.2.now + 100) :: s.2.log⟩)

theorem armAgain_calls : HandlerCalls armAgain := by
  intro p type s s' d t log hp hlog hr
  obtain ⟨m, harm, hr⟩ := of_bind_ok hr
  cases hr
  refine .single (.arm hp ?_ ⟨le_rfl, Nat.lt_add_of_pos_right (by decide)⟩ harm)
  rw [hlog, deadlineOf, if_pos rfl]

theorem twoArmed_step (now : ℕ) (hr : utilTimeoutArmTs 2 (oneArmed now).1 2 20 0
    (BitVec.ofNat 32 now) = .ok (twoArmed now).1) :
    ReflTransGen TimerCall (idleRun now) (twoArmed now) :=
  (ReflTransGen.single (oneArmed_step now)).tail (@TimerCall.arm (oneArmed now) (twoArmed now).1 2 2
    now 20 0 (by decide) rfl ⟨le_rfl, Nat.lt_add_of_pos_right (by decide)⟩ hr)

/-- Both timers fire in a poll after the time stamps have wrapped, in their order, and are armed
again. -/
theorem twoArmed_polled : ∃ s, TimersOk s ∧ s.2.log =
    [.armed 2 (2 ^ 28 + 106), .fired 2 (2 ^ 28 + 5) (2 ^ 28 + 6), .armed 1 (2 ^ 28 + 106),
      .fired 1 (2 ^ 28 - 5) (2 ^ 28 + 6), .polled (2 ^ 28 + 6), .armed 2 (2 ^ 28 + 5),
      .armed 1 (2 ^ 28 - 5)] := by
  have hlog : (tracedPoll armAgain 4 (twoArmed (2 ^ 28 - 15)) (2 ^ 28 + 6)).map (·.2.log) = .ok
    [.armed 2 (2 ^ 28 + 106), .fired 2 (2 ^ 28 + 5) (2 ^ 28 + 6), .armed 1 (2 ^ 28 + 106),
      .fired 1 (2 ^ 28 - 5) (2 ^ 28 + 6), .polled (2 ^ 28 + 6), .armed 2 (2 ^ 28 + 5),
      .armed 1 (2 ^ 28 - 5)] := by
    decide +kernel
  cases hr : tracedPoll armAgain 4 (twoArmed (2 ^ 28 - 15)) (2 ^ 28 + 6) with
  | error e =>
    rw [hr] at hlog
    cases hlog
  | ok s =>
    rw [hr] at hlog
    have harmed : ReflTransGen TimerStep (idleRun (2 ^ 28 - 15)) (twoArmed (2 ^ 28 - 15)) :=
      (twoArmed_step _ rfl).lift id fun _ _ => .call
    have hpoll := TimerStep.poll (by decide) armAgain_calls hr
    exact ⟨s, timers_fire_in_order (idleRun_start _) (harmed.tail hpoll), Except.ok.inj hlog⟩

/-- Calls are less than half of the range apart, and a call that disarms a timer counts as one
although it is given no time. -/
inductive LooseStep : TimerRun → TimerRun → Prop
  | timed {s s' : TimerRun} (h : TimerStep s s') : LooseStep s s'
  | disarm {s : TimerRun} {m' : Timers} {p t : ℕ} (harmed : deadlineOf p s.2.log ≠ none)
    (hsoon : Soon s.2.now t) (hr : utilTimeoutDisarm s.1 p = .ok m') :
    LooseStep s (m', ⟨t, .disarmed p :: s.2.log⟩)

/-- The timer 2 was disarmed almost half of the range later. -/
def disarmedLate : TimerRun :=
  ({ (twoArmed 0).1 with timeoutsLast := 1, timeout := (twoArmed 0).1.timeout.setNext 1 0 },
    ⟨2 ^ 27 - 1, [.disarmed 2, .armed 2 20, .armed 1 10]⟩)

theorem disarmedLate_step : LooseStep (twoArmed 0) disarmedLate :=
  @LooseStep.disarm (twoArmed 0) disarmedLate.1 2 (2 ^ 27 - 1) (by decide) (by decide) rfl

theorem disarmedLate_earliest : Earliest disarmedLate.2.log 10 := by
  refine ⟨⟨1, rfl⟩, fun p e he => ?_⟩
  simp only [disarmedLate, deadlineOf] at he
  split_ifs at he with h2 h1
  exact (Option.some.inj he).le

/-- If a call that disarms a timer counts, a timer can be overlooked: its deadline is long over, but
a poll does not call its handler, and the delay to the next timer is not zero. -/
theorem overdue_timer_delayed :
    ∃ s₀ s : TimerRun, TimerStart s₀ ∧ ReflTransGen LooseStep s₀ s ∧
      Soon s.2.now (2 ^ 28 - 2) ∧ Earliest s.2.log 10 ∧
      (∀ handler, tracedPoll handler 1 s (2 ^ 28 - 2) =
        .ok (s.1, ⟨2 ^ 28 - 2, .polled (2 ^ 28 - 2) :: s.2.log⟩)) ∧
      (utilTimeoutNext s.1 (BitVec.ofNat 32 (2 ^ 28 - 2))).toNat = 12 := by
  refine ⟨idleRun 0, disarmedLate, idleRun_start 0, ?_, by decide, disarmedLate_earliest,
    fun _ => rfl, by decide +kernel⟩
  have harmed : ReflTransGen LooseStep (idleRun 0) (twoArmed 0) :=
    (twoArmed_step 0 rfl).lift id fun _ _ h => .timed (.call h)
  exact harmed.tail disarmedLate_step

end Tas
