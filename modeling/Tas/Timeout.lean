import Tas.FlowState
import Tas.Lib.Outcome
import Tas.Lib.Threaded

/-! The timer manager, `timeout.c`. Pointers to timers are numbers, and zero is the null pointer. -/
namespace Tas

open Outcome Linked Function List

/-- `TIMEOUT_MASK`: the low 28 bits, `TIMEOUT_BITS` many. -/
def timeoutMask : U32 := 0x0fffffff

/-- The number of time stamps, `1 << TIMEOUT_BITS`. -/
def timeoutRange : U32 := 1 <<< 28

/-- Half of the range of time stamps. -/
def timeoutMiddle : U32 := 1 <<< 27

/-- `MAX_TIMEOUTS`, for one poll. -/
def maxTimeouts : ℕ := 64

/-- `struct timeout`: the type in the high 4 bits and the time in the low 28 bits, and the links. -/
structure Timeout where
  timeoutType : U32
  next : ℕ
  prev : ℕ
deriving DecidableEq

/-- The type of a timer. -/
def Timeout.type (tmo : Timeout) : U8 := (tmo.timeoutType >>> 28).setWidth 8

/-- The timers in memory. -/
abbrev TimeoutMem := ℕ → Timeout

namespace TimeoutMem

def next (t : TimeoutMem) (p : ℕ) : ℕ := (t p).next

def prev (t : TimeoutMem) (p : ℕ) : ℕ := (t p).prev

def write (t : TimeoutMem) (p : ℕ) (tmo : Timeout) : TimeoutMem := update t p tmo

/-- Set the link of `p` to its successor, if `p` is not null. -/
def setNext (t : TimeoutMem) (p q : ℕ) : TimeoutMem :=
  if p = 0 then t else t.write p { t p with next := q }

/-- Set the link of `p` to its predecessor, if `p` is not null. -/
def setPrev (t : TimeoutMem) (p q : ℕ) : TimeoutMem :=
  if p = 0 then t else t.write p { t p with prev := q }

end TimeoutMem

/-- `struct timeout_manager` without its handler, and the timers in memory. -/
structure Timers where
  timeoutsFirst : ℕ
  timeoutsLast : ℕ
  dueFirst : ℕ
  dueLast : ℕ
  timeout : TimeoutMem

/-- Time from `curTs` to the timer, as the bits of a signed number. -/
def Timeout.relTime (curTs : U32) (tmo : Timeout) : U32 :=
  let toTs := tmo.timeoutType &&& timeoutMask
  if curTs < timeoutMiddle then
    -- the negative interval is split in half
    let start := (curTs - timeoutMiddle) &&& timeoutMask
    if start ≤ toTs ∧ toTs < timeoutRange then toTs - start - timeoutMiddle
    else toTs - curTs
  else if curTs = timeoutMiddle then toTs - curTs
  else
    -- the positive interval is split in half
    let stop := ((curTs + timeoutMiddle) &&& timeoutMask) + 1
    if 0 ≤ curTs ∧ toTs < stop then toTs + (timeoutRange - curTs)
    else toTs - curTs

def timeoutDue (tmo : Timeout) (ts : U32) : Bool := (tmo.relTime ts).toInt ≤ 0

/-- Take the first timer off the timeouts list. -/
def dropFirst (m : Timers) : Timers :=
  let next := m.timeout.next m.timeoutsFirst
  { m with
    timeoutsFirst := next
    timeoutsLast := if next = 0 then 0 else m.timeoutsLast
    timeout := m.timeout.setPrev next 0 }

/-- Add a timer to the due list. -/
def pushDue (m : Timers) (tmo : ℕ) : Timers :=
  { m with
    dueFirst := if m.dueLast = 0 then tmo else m.dueFirst
    dueLast := tmo
    timeout := ((m.timeout.setNext tmo 0).setPrev tmo m.dueLast).setNext m.dueLast tmo }

def moveDueTimeouts (curTs : U32) : ℕ → Timers → Except Fault Timers
  | 0, _ => .error .unfinished
  | fuel + 1, m =>
    if m.timeoutsFirst ≠ 0 ∧ timeoutDue (m.timeout m.timeoutsFirst) curTs then
      moveDueTimeouts curTs fuel (pushDue (dropFirst m) m.timeoutsFirst)
    else .ok m

/-- The last timer that is not later than `us`, from `tp` backwards. The comparison is unsigned. -/
def findPred (m : Timers) (curTs us : U32) : ℕ → ℕ → Except Fault ℕ
  | 0, _ => .error .unfinished
  | fuel + 1, tp =>
    if tp ≠ 0 ∧ (m.timeout tp).relTime curTs > us then findPred m curTs us fuel (m.timeout.prev tp)
    else .ok tp

/-- The timer `tmo` between `tp` and `tn`. -/
def insertBetween (m : Timers) (tmo tp tn : ℕ) (timeoutType : U32) : Timers :=
  { m with
    timeoutsFirst := if tp = 0 then tmo else m.timeoutsFirst
    timeoutsLast := if tn = 0 then tmo else m.timeoutsLast
    timeout := ((m.timeout.write tmo ⟨timeoutType, tn, tp⟩).setNext tp tmo).setPrev tn tmo }

/-- Arm a timer. A timeout out of range is an error. -/
def utilTimeoutArmTs (fuel : ℕ) (m : Timers) (tmo : ℕ) (us : U32) (type : U8) (ts : U32) :
    Except Fault Timers := do
  let curTs := ts &&& timeoutMask
  if us ≥ timeoutMiddle then .error .assertion
  else
    let m ← moveDueTimeouts curTs fuel m
    let tp ← findPred m curTs us fuel m.timeoutsLast
    let tn := if tp ≠ 0 then m.timeout.next tp else m.timeoutsFirst
    .ok (insertBetween m tmo tp tn
      (type.setWidth 32 <<< 28 ||| ((curTs + us) &&& timeoutMask)))

/-- Disarm a timer. A timer without predecessor that starts none of the lists is an error, and so
is one without successor that ends none. -/
def utilTimeoutDisarm (m : Timers) (tmo : ℕ) : Except Fault Timers := do
  let prev := m.timeout.prev tmo
  let next := m.timeout.next tmo
  let m ←
    if prev = 0 then
      if m.timeoutsFirst = tmo then .ok { m with timeoutsFirst := next }
      else if m.dueFirst = tmo then .ok { m with dueFirst := next }
      else .error .assertion
    else .ok { m with timeout := m.timeout.setNext prev next }
  if next = 0 then
    if m.timeoutsLast = tmo then .ok { m with timeoutsLast := prev }
    else if m.dueLast = tmo then .ok { m with dueLast := prev }
    else .error .assertion
  else .ok { m with timeout := m.timeout.setPrev next prev }

/-- Time until the next timer is due, or all ones. -/
def utilTimeoutNext (m : Timers) (ts : U32) : U32 :=
  if m.dueFirst ≠ 0 then 0
  else if m.timeoutsFirst = 0 then -1
  else
    let next := (m.timeout m.timeoutsFirst).relTime (ts &&& timeoutMask)
    if next.toInt < 0 then 0 else next

/-- Take the first timer off the due list, before its handler is called. -/
def popDue (m : Timers) : Timers :=
  let next := m.timeout.next m.dueFirst
  { m with
    dueFirst := next
    dueLast := if next = 0 then 0 else m.dueLast
    timeout := m.timeout.setPrev next 0 }

/-- The loop of `util_timeout_poll_ts`, with the number of handlers called so far. A handler may
change the rest of the state as well. -/
def processDue {σ : Type} (handler : ℕ → U8 → Timers × σ → Except Fault (Timers × σ)) (num : ℕ) :
    ℕ → Timers × σ → Except Fault (Timers × σ)
  | 0, _ => .error .unfinished
  | fuel + 1, (m, x) =>
    if m.dueFirst ≠ 0 ∧ num < maxTimeouts then do
      let s ← handler m.dueFirst (m.timeout m.dueFirst).type (popDue m, x)
      processDue handler (num + 1) fuel s
    else .ok (m, x)

/-- Process timers. The handler may arm and disarm timers. -/
def utilTimeoutPollTs {σ : Type} (handler : ℕ → U8 → Timers × σ → Except Fault (Timers × σ))
    (fuel : ℕ) (s : Timers × σ) (ts : U32) : Except Fault (Timers × σ) := do
  let m ← moveDueTimeouts (ts &&& timeoutMask) fuel s.1
  processDue handler 0 fuel (m, s.2)

/-! ### Relative times -/

theorem toNat_and_timeoutMask (x : U32) : (x &&& timeoutMask).toNat = x.toNat % 2 ^ 28 :=
  @Word.toNat_and_ofNat 32 28 (by decide) x

/-- Near the deadline the relative time is exact, across any number of wraps. -/
theorem toInt_relTime {tmo : Timeout} {t d : ℕ} {curTs : U32} (hcur : curTs.toNat = t % 2 ^ 28)
    (hto : (tmo.timeoutType &&& timeoutMask).toNat = d % 2 ^ 28) (hlow : t < d + 2 ^ 27)
    (hhigh : d < t + 2 ^ 27) : (tmo.relTime curTs).toInt = (d : ℤ) - t := by
  have hrel : tmo.relTime curTs = Word.relative 27 curTs (tmo.timeoutType &&& timeoutMask) := rfl
  rw [hrel, Word.toInt_relative (by decide) (by omega) (by omega), hcur, hto]
  split_ifs <;> omega

/-! ### The lists -/

variable {m m' : Timers} {pend due as bs : List ℕ} {p q r fuel : ℕ} {ts us : U32} {t : TimeoutMem}
  {first last : ℕ} {a b : Timeout}

namespace TimeoutMem

/-- What is read of the timers after one is written. -/
theorem comp_write {α : Type*} (f : Timeout → α) (t : TimeoutMem) (p : ℕ) (tmo : Timeout) :
    f ∘ t.write p tmo = update (f ∘ t) p (f tmo) := comp_update ..

theorem comp_write_of_eq {α : Type*} (f : Timeout → α) (h : f a = f (t p)) :
    f ∘ t.write p a = f ∘ t := by
  rw [comp_write, h]
  exact update_eq_self ..

variable (t)

theorem write_self (tmo : Timeout) : t.write p tmo p = tmo :=
  update_self ..

theorem write_of_ne (tmo : Timeout) (h : r ≠ p) : t.write p tmo r = t r := update_of_ne h ..

theorem next_setNext : (t.setNext p q).next = setLink 0 t.next p q := by
  unfold setNext setLink
  split_ifs
  · rfl
  · exact comp_write Timeout.next ..

theorem prev_setPrev : (t.setPrev p q).prev = setLink 0 t.prev p q := by
  unfold setPrev setLink
  split_ifs
  · rfl
  · exact comp_write Timeout.prev ..

@[simp] theorem prev_setNext : (t.setNext p q).prev = t.prev := by
  unfold setNext
  split_ifs
  · rfl
  · exact comp_write_of_eq Timeout.prev rfl

@[simp] theorem next_setPrev : (t.setPrev p q).next = t.next := by
  unfold setPrev
  split_ifs
  · rfl
  · exact comp_write_of_eq Timeout.next rfl

@[simp] theorem timeoutType_setNext : (t.setNext p q r).timeoutType = (t r).timeoutType := by
  unfold setNext
  split_ifs
  · rfl
  · have hcomp : Timeout.timeoutType ∘ t.write p { t p with next := q } = _ :=
      comp_write_of_eq _ rfl
    exact congrFun hcomp r

@[simp] theorem timeoutType_setPrev : (t.setPrev p q r).timeoutType = (t r).timeoutType := by
  unfold setPrev
  split_ifs
  · rfl
  · have hcomp : Timeout.timeoutType ∘ t.write p { t p with prev := q } = _ :=
      comp_write_of_eq _ rfl
    exact congrFun hcomp r

/-- The neighbours of a timer linked to each other. -/
def unlink (t : TimeoutMem) (p : ℕ) : TimeoutMem :=
  (t.setNext (t.prev p) (t.next p)).setPrev (t.next p) (t.prev p)

theorem next_unlink : (t.unlink p).next = setLink 0 t.next (t.prev p) (t.next p) := by
  unfold unlink
  rw [next_setPrev, next_setNext]

theorem prev_unlink : (t.unlink p).prev = setLink 0 t.prev (t.next p) (t.prev p) := by
  unfold unlink
  rw [prev_setPrev, prev_setNext]

@[simp] theorem timeoutType_unlink : (t.unlink p r).timeoutType = (t r).timeoutType := by
  unfold unlink
  rw [timeoutType_setPrev, timeoutType_setNext]

end TimeoutMem

open TimeoutMem

/-- The pending timers are `pend` and the due ones are `due`, in the order of the lists. -/
structure TimerLists (m : Timers) (pend due : List ℕ) : Prop where
  pending : Deque 0 m.timeout.next m.timeout.prev m.timeoutsFirst m.timeoutsLast pend
  waiting : Deque 0 m.timeout.next m.timeout.prev m.dueFirst m.dueLast due
  apart : ∀ p ∈ due, p ∉ pend

theorem TimerLists.pend_ne (h : TimerLists m pend due) (hp : p ∈ pend) : p ≠ 0 :=
  h.pending.chain.path.ne_nil p hp

theorem TimerLists.due_ne (h : TimerLists m pend due) (hp : p ∈ due) : p ≠ 0 :=
  h.waiting.chain.path.ne_nil p hp

/-- The first timers of the pending list and of the due list. -/
def Timers.heads (m : Timers) (isDue : Bool) : ℕ := if isDue then m.dueFirst else m.timeoutsFirst

/-- The pending timers and the due ones. -/
def timerList (pend due : List ℕ) (isDue : Bool) : List ℕ := if isDue then due else pend

theorem TimerLists.threads (h : TimerLists m pend due) :
    Threads 0 m.timeout.next m.timeout.prev m.heads (timerList pend due) where
  chain isDue := by
    cases isDue
    · exact h.pending.chain
    · exact h.waiting.chain
  apart k l p hk hl := by
    cases k <;> cases l
    · rfl
    · exact absurd hk (h.apart p hl)
    · exact absurd hl (h.apart p hk)
    · rfl

theorem timerLists_of_threads {head : Bool → ℕ} {lists : Bool → List ℕ}
    (h : Threads 0 m.timeout.next m.timeout.prev head lists) (hpend : m.timeoutsFirst = head false)
    (hdue : m.dueFirst = head true) (hlast : m.timeoutsLast = (lists false).getLast?.getD 0)
    (hlast' : m.dueLast = (lists true).getLast?.getD 0) :
    TimerLists m (lists false) (lists true) where
  pending := ⟨hpend ▸ h.chain false, hlast⟩
  waiting := ⟨hdue ▸ h.chain true, hlast'⟩
  apart p hp hmem := nomatch h.apart true false p hp hmem

/-- Without the pending timer `p`. -/
def unlinkPending (m : Timers) (p : ℕ) : Timers :=
  { m with
    timeoutsFirst := if m.timeout.prev p = 0 then m.timeout.next p else m.timeoutsFirst
    timeoutsLast := if m.timeout.next p = 0 then m.timeout.prev p else m.timeoutsLast
    timeout := m.timeout.unlink p }

/-- Without the timer `p` of the due list. -/
def unlinkDue (m : Timers) (p : ℕ) : Timers :=
  { m with
    dueFirst := if m.timeout.prev p = 0 then m.timeout.next p else m.dueFirst
    dueLast := if m.timeout.next p = 0 then m.timeout.prev p else m.dueLast
    timeout := m.timeout.unlink p }

theorem timerLists_unlinkPending (h : TimerLists m (as ++ p :: bs) due) :
    TimerLists (unlinkPending m p) (as ++ bs) due := by
  have hk : timerList (as ++ p :: bs) due false = as ++ p :: bs := rfl
  have hthreads := h.threads.remove hk
  rw [← next_unlink, ← prev_unlink] at hthreads
  exact timerLists_of_threads (m := unlinkPending m p) hthreads rfl rfl
    (h.pending.chain.last_remove h.pending.last_eq) h.waiting.last_eq

theorem timerLists_unlinkDue (h : TimerLists m pend (as ++ p :: bs)) :
    TimerLists (unlinkDue m p) pend (as ++ bs) := by
  have hk : timerList pend (as ++ p :: bs) true = as ++ p :: bs := rfl
  have hthreads := h.threads.remove hk
  rw [← next_unlink, ← prev_unlink] at hthreads
  exact timerLists_of_threads (m := unlinkDue m p) hthreads rfl rfl h.pending.last_eq
    (h.waiting.chain.last_remove h.waiting.last_eq)

theorem timerLists_dropFirst (h : TimerLists m (p :: pend) due) :
    m.timeoutsFirst = p ∧ TimerLists (dropFirst m) pend due := by
  obtain rfl : m.timeoutsFirst = p := h.pending.chain.path.1
  have hprev : m.timeout.prev m.timeoutsFirst = 0 := h.pending.chain.back.1
  have heq : dropFirst m = unlinkPending m m.timeoutsFirst := by
    simp [dropFirst, unlinkPending, unlink, hprev, setNext]
  rw [← nil_append (_ :: pend)] at h
  exact ⟨rfl, heq ▸ timerLists_unlinkPending h⟩

theorem timerLists_popDue (h : TimerLists m pend (p :: due)) :
    m.dueFirst = p ∧ TimerLists (popDue m) pend due := by
  obtain rfl : m.dueFirst = p := h.waiting.chain.path.1
  have hprev : m.timeout.prev m.dueFirst = 0 := h.waiting.chain.back.1
  have heq : popDue m = unlinkDue m m.dueFirst := by
    simp [popDue, unlinkDue, unlink, hprev, setNext]
  rw [← nil_append (_ :: due)] at h
  exact ⟨rfl, heq ▸ timerLists_unlinkDue h⟩

/-- A timer of neither list is in no list. -/
theorem not_mem_timerList (hpend : p ∉ pend) (hdue : p ∉ due) (isDue : Bool) :
    p ∉ timerList pend due isDue := by
  cases isDue
  · exact hpend
  · exact hdue

theorem timerLists_pushDue (h : TimerLists m pend due) (hp : p ≠ 0) (hpend : p ∉ pend)
    (hdue : p ∉ due) : TimerLists (pushDue m p) pend (due ++ [p]) := by
  have hnext : (pushDue m p).timeout.next =
      setLink 0 (update m.timeout.next p 0) m.dueLast p := by
    unfold pushDue
    rw [TimeoutMem.next_setNext, next_setPrev, TimeoutMem.next_setNext, setLink_eq_update hp]
  have hprev : (pushDue m p).timeout.prev = update m.timeout.prev p m.dueLast := by
    unfold pushDue
    rw [prev_setNext, prev_setPrev, prev_setNext, setLink_eq_update hp]
  have hlast : m.dueLast = (timerList pend due true).getLast?.getD 0 := h.waiting.last_eq
  have hthreads := h.threads.push_back hp (not_mem_timerList hpend hdue) hlast
  rw [← hnext, ← hprev] at hthreads
  exact timerLists_of_threads hthreads rfl rfl h.pending.last_eq (by simp [pushDue])

theorem timerLists_insertBetween (h : TimerLists m (as ++ bs) due) (type : U32) (hq : q ≠ 0)
    (hpend : q ∉ as ++ bs) (hdue : q ∉ due) (hp : p = as.getLast?.getD 0)
    (hr : r = bs.head?.getD 0) :
    TimerLists (insertBetween m q p r type) (as ++ q :: bs) due := by
  have hnext : (insertBetween m q p r type).timeout.next =
      setLink 0 (update m.timeout.next q r) p q := by
    unfold insertBetween
    rw [next_setPrev, TimeoutMem.next_setNext]
    exact congrArg (setLink 0 · p q) (comp_write Timeout.next ..)
  have hprev : (insertBetween m q p r type).timeout.prev =
      setLink 0 (update m.timeout.prev q p) r q := by
    unfold insertBetween
    rw [prev_setPrev, prev_setNext]
    exact congrArg (setLink 0 · r q) (comp_write Timeout.prev ..)
  have hk : timerList (as ++ bs) due false = as ++ bs := rfl
  have hthreads := h.threads.insert hk hq (not_mem_timerList hpend hdue) hp hr
  rw [← hnext, ← hprev] at hthreads
  exact timerLists_of_threads hthreads rfl rfl
    (h.pending.chain.last_insert hr h.pending.last_eq) h.waiting.last_eq

/-- Disarm a timer that is pending. -/
theorem disarm_pending (h : TimerLists m (as ++ p :: bs) due) :
    ∃ m', utilTimeoutDisarm m p = .ok m' ∧ m'.timeout = m.timeout.unlink p ∧
      TimerLists m' (as ++ bs) due := by
  have hfirst := h.pending.first_eq_of_prev
  have hlast := h.pending.last_eq_of_next
  have heq : utilTimeoutDisarm m p = .ok (unlinkPending m p) := by
    unfold utilTimeoutDisarm unlinkPending unlink
    by_cases hprev : m.timeout.prev p = 0 <;> by_cases hnext : m.timeout.next p = 0 <;>
      simp_all [Bind.bind, Except.bind, setNext, setPrev]
  exact ⟨_, heq, rfl, timerLists_unlinkPending h⟩

/-- Disarm a timer that is due. -/
theorem disarm_waiting (h : TimerLists m pend (as ++ p :: bs)) :
    ∃ m', utilTimeoutDisarm m p = .ok m' ∧ m'.timeout = m.timeout.unlink p ∧
      TimerLists m' pend (as ++ bs) := by
  have hfirst := h.waiting.first_eq_of_prev
  have hlast := h.waiting.last_eq_of_next
  have hp0 : p ≠ 0 := h.due_ne (by simp)
  have hpend : p ∉ pend := h.apart p (by simp)
  have hnotFirst : m.timeoutsFirst ≠ p := by
    rintro rfl
    exact hpend (h.pending.first_mem hp0)
  have hnotLast : m.timeoutsLast ≠ p := by
    rintro rfl
    exact hpend (h.pending.last_mem hp0)
  have heq : utilTimeoutDisarm m p = .ok (unlinkDue m p) := by
    unfold utilTimeoutDisarm unlinkDue unlink
    by_cases hprev : m.timeout.prev p = 0 <;> by_cases hnext : m.timeout.next p = 0 <;>
      simp_all [Bind.bind, Except.bind, setNext, setPrev]
  exact ⟨_, heq, rfl, timerLists_unlinkDue h⟩

/-! ### The calls on the lists -/

/-- The times and types of the timers are kept. -/
def SameTypes (m m' : Timers) : Prop :=
  ∀ q, (m'.timeout q).timeoutType = (m.timeout q).timeoutType

theorem SameTypes.trans {m'' : Timers} (h : SameTypes m m') (h' : SameTypes m' m'') :
    SameTypes m m'' := fun q => (h' q).trans (h q)

theorem relTime_congr (ts : U32) (h : a.timeoutType = b.timeoutType) :
    a.relTime ts = b.relTime ts := by
  unfold Timeout.relTime
  rw [h]

theorem timeoutDue_congr (h : a.timeoutType = b.timeoutType) :
    timeoutDue a ts = timeoutDue b ts := by
  unfold timeoutDue
  rw [relTime_congr ts h]

theorem sameTypes_move (m : Timers) (p : ℕ) : SameTypes m (pushDue (dropFirst m) p) := by
  intro q
  simp [pushDue, dropFirst]

theorem sameTypes_popDue (m : Timers) : SameTypes m (popDue m) := by
  intro q
  simp [popDue]

/-- The timers at the front that are due go to the end of the due list. -/
theorem moveDueTimeouts_spec (ts : U32) (fuel : ℕ) (h : TimerLists m pend due) :
    Meets (pend.length < fuel)
      (fun m' => SameTypes m m' ∧
        TimerLists m' (pend.dropWhile fun q => timeoutDue (m.timeout q) ts)
          (due ++ pend.takeWhile fun q => timeoutDue (m.timeout q) ts))
      (moveDueTimeouts ts fuel m) := by
  induction fuel generalizing m pend due with
  | zero => exact Nat.not_lt_zero _
  | succ fuel ih =>
    unfold moveDueTimeouts
    cases pend with
    | nil =>
      have hfirst : m.timeoutsFirst = 0 := h.pending.chain.path
      rw [if_neg fun hc => hc.1 hfirst]
      exact meets_ok ⟨fun _ => rfl, by simpa using h⟩
    | cons p pend =>
      obtain ⟨rfl, hdrop⟩ := timerLists_dropFirst h
      have hp : m.timeoutsFirst ≠ 0 := h.pend_ne (by simp)
      by_cases hdue : timeoutDue (m.timeout m.timeoutsFirst) ts
      · rw [if_pos ⟨hp, hdue⟩]
        have hpend := (nodup_cons.1 h.pending.chain.nodup).1
        have hout : m.timeoutsFirst ∉ due := fun hmem => h.apart _ hmem (by simp)
        have hsame := sameTypes_move m m.timeoutsFirst
        refine (ih (timerLists_pushDue hdrop hp hpend hout)).mono (by simp) ?_
        rintro m' ⟨hsame', hlists⟩
        refine ⟨hsame.trans hsame', ?_⟩
        simpa [timeoutDue_congr (hsame _), dropWhile_cons, takeWhile_cons, hdue]
          using hlists
      · rw [if_neg fun hc => hdue hc.2]
        refine meets_ok ⟨fun _ => rfl, ?_⟩
        simpa [dropWhile_cons, takeWhile_cons, hdue] using h

/-- The search stops behind the timers that are not later. -/
theorem findPred_spec (ts us : U32) (fuel : ℕ)
    (h : Deque 0 m.timeout.next m.timeout.prev first last (as ++ bs)) :
    Meets (as.length < fuel)
      (fun tp => ∃ cs ds, as = cs ++ ds ∧ tp = cs.getLast?.getD 0 ∧
        (∀ q ∈ ds, us < (m.timeout q).relTime ts) ∧
        ∀ q ∈ cs.getLast?, (m.timeout q).relTime ts ≤ us)
      (findPred m ts us fuel (as.getLast?.getD 0)) := by
  induction fuel generalizing as bs with
  | zero => exact Nat.not_lt_zero _
  | succ fuel ih =>
    unfold findPred
    obtain rfl | ⟨cs, p, rfl⟩ := eq_nil_or_concat as
    · rw [if_neg fun hc => hc.1 rfl]
      exact meets_ok ⟨[], [], rfl, rfl, by simp, by simp⟩
    · rw [concat_eq_append] at h ⊢
      have hlast : (cs ++ [p]).getLast?.getD 0 = p := by simp
      rw [append_assoc, singleton_append] at h
      have hp : p ≠ 0 := h.chain.path.ne_nil p (by simp)
      rw [hlast]
      by_cases hlater : us < (m.timeout p).relTime ts
      · rw [if_pos ⟨hp, hlater⟩, h.chain.back.prev_eq]
        refine (ih h).mono (by simp) ?_
        rintro tp ⟨as', ds, rfl, htp, hds, has'⟩
        refine ⟨as', ds ++ [p], by simp, htp, fun q hq => ?_, has'⟩
        obtain hq | hq := mem_append.1 hq
        · exact hds q hq
        · rwa [mem_singleton.1 hq]
      · rw [if_neg fun hc => hlater hc.2]
        refine meets_ok ⟨cs ++ [p], [], by simp, hlast.symm, by simp, fun q hq => ?_⟩
        obtain rfl : p = q := by simpa using hq
        exact BitVec.not_lt.1 hlater

/-- The bits of a timer that is armed. -/
def armedType (us : U32) (type : U8) (ts : U32) : U32 :=
  type.setWidth 32 <<< 28 ||| (((ts &&& timeoutMask) + us) &&& timeoutMask)

/-- Arm a timer that is in none of the lists: due timers are moved, then it goes behind the timers
that are not later. -/
theorem utilTimeoutArmTs_spec (h : TimerLists m pend due) (type : U8) (hus : us < timeoutMiddle)
    (hq : q ≠ 0) (hpend : q ∉ pend) (hdue : q ∉ due) :
    Meets (pend.length < fuel)
      (fun m' => ∃ m₁ as bs,
        pend.dropWhile (fun r => timeoutDue (m.timeout r) (ts &&& timeoutMask)) = as ++ bs ∧
        SameTypes m m₁ ∧
        TimerLists m₁ (as ++ bs)
          (due ++ pend.takeWhile fun r => timeoutDue (m.timeout r) (ts &&& timeoutMask)) ∧
        (∀ r ∈ bs, us < (m.timeout r).relTime (ts &&& timeoutMask)) ∧
        (∀ r ∈ as.getLast?, (m.timeout r).relTime (ts &&& timeoutMask) ≤ us) ∧
        (m'.timeout q).timeoutType = armedType us type ts ∧
        (∀ r, r ≠ q → (m'.timeout r).timeoutType = (m₁.timeout r).timeoutType) ∧
        TimerLists m' (as ++ q :: bs)
          (due ++ pend.takeWhile fun r => timeoutDue (m.timeout r) (ts &&& timeoutMask)))
      (utilTimeoutArmTs fuel m q us type ts) := by
  unfold utilTimeoutArmTs
  generalize htaken : pend.takeWhile (fun r => timeoutDue (m.timeout r) _) = ready
  generalize hleft : pend.dropWhile (fun r => timeoutDue (m.timeout r) _) = rest
  have hsplit : ready ++ rest = pend := by
    rw [← htaken, ← hleft]
    exact takeWhile_append_dropWhile
  have hmove := moveDueTimeouts_spec (ts &&& timeoutMask) fuel h
  rw [htaken, hleft] at hmove
  simp only [ge_iff_le]
  rw [if_neg (BitVec.not_le.2 hus)]
  refine hmove.bind ?_
  rintro m₁ ⟨hsame, hlists⟩
  have hend := hlists.pending.last_eq
  rw [hend]
  have hall := hlists.pending
  rw [← append_nil rest] at hall
  have hfind := findPred_spec (ts &&& timeoutMask) us fuel hall
  refine (hfind.mono ?_ fun _ h => h).bind ?_
  · have hlen := congrArg List.length hsplit
    rw [length_append] at hlen
    omega
  · rintro tp ⟨cs, ds, rfl, htp, hds, hcs⟩
    have hnew : q ∉ cs ++ ds := fun hmem => hpend (hsplit ▸ mem_append_right _ hmem)
    have hnew' : q ∉ due ++ ready := by
      rintro hmem
      obtain hmem | hmem := mem_append.1 hmem
      · exact hdue hmem
      · exact hpend (hsplit ▸ mem_append_left _ hmem)
    have hrel (r : ℕ) := relTime_congr (ts &&& timeoutMask) (hsame r)
    refine meets_ok ⟨m₁, cs, ds, rfl, hsame, hlists, fun r hr => hrel r ▸ hds r hr,
      fun r hr => hrel r ▸ hcs r hr, ?_, fun r hr => ?_,
      timerLists_insertBetween hlists _ hq hnew hnew' htp (hlists.pending.chain.after htp)⟩
    · simp [insertBetween, write_self, armedType]
    · simp [insertBetween, write_of_ne _ _ hr]

end Tas
