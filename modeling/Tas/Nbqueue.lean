import Tas.Lib.Outcome
import Tas.Lib.Replay
import Tas.Lib.Threaded

/-! The queue of `utils_nbqueue.h`: a doubly linked list with the newest element first, and a
mutex. A call that finds the mutex locked does not return. -/
namespace Tas

open Outcome Linked Replay Function List

structure Nbqueue where
  next : ℕ → ℕ
  prev : ℕ → ℕ
  head : ℕ
  locked : Bool

namespace Nbqueue

def enq (q : Nbqueue) (el : ℕ) : Nbqueue :=
  { q with
    prev := update (setLink 0 q.prev q.head el) el 0
    next := update q.next el q.head
    head := el }

/-- The loop of `nbqueue_deq`: the last element, and the one before it. -/
def deqLoop (next : ℕ → ℕ) : ℕ → ℕ → ℕ → Except Fault (ℕ × ℕ)
  | 0, _, _ => .error .unfinished
  | fuel + 1, el, elP =>
    if el ≠ 0 ∧ next el ≠ 0 then deqLoop next fuel (next el) el else .ok (el, elP)

def deq (q : Nbqueue) (fuel : ℕ) : Except Fault (Nbqueue × ℕ) := do
  let (el, elP) ← deqLoop q.next fuel q.head 0
  if q.next el ≠ 0 then .error .assertion
  else .ok ({ q with
    next := setLink 0 q.next elP 0
    head := if elP ≠ 0 then q.head else 0 }, el)

/-- The cases for both ends return with the mutex locked. -/
def remove (q : Nbqueue) (el : ℕ) : Nbqueue :=
  if q.next el = 0 then { q with head := 0, locked := true }
  else if q.prev el = 0 then
    { q with head := q.next el, prev := update q.prev (q.next el) 0, locked := true }
  else
    { q with
      next := update q.next (q.prev el) (q.next el)
      prev := update q.prev (q.next el) (q.prev el) }

inductive Op
  | enq (el : ℕ)
  | deq
  | remove (el : ℕ)

/-- A call, with the element it returns. -/
def exec (q : Nbqueue) (fuel : ℕ) : Op → Except Fault (Nbqueue × ℕ)
  | .enq el => if q.locked then .error .unfinished else .ok (q.enq el, 0)
  | .deq =>
    if q.head = 0 then .ok (q, 0)
    else if q.locked then .error .unfinished
    else q.deq fuel
  | .remove el => if q.locked then .error .unfinished else .ok (q.remove el, 0)

/-- The same call for a list of elements, the newest first. -/
def Op.fifo (xs : List ℕ) : Op → List ℕ × ℕ
  | .enq el => (el :: xs, 0)
  | .deq => (xs.dropLast, xs.getLast?.getD 0)
  | .remove el => (xs.erase el, 0)

/-- Only an element that is not in the queue is put there, and only one that is there is removed. -/
def Op.Valid (xs : List ℕ) : Op → Prop
  | .enq el => el ≠ 0 ∧ el ∉ xs
  | .deq => True
  | .remove el => el ∈ xs

/-- A removed element is neither the newest nor the oldest one. -/
def Op.Inner (xs : List ℕ) : Op → Prop
  | .remove el => xs.head? ≠ some el ∧ xs.getLast? ≠ some el
  | _ => True

/-- The queue holds these elements, and its lock is free. -/
structure Holds (q : Nbqueue) (xs : List ℕ) : Prop where
  chain : Chain 0 q.next q.prev q.head xs
  free : q.locked = false

/-- A call, and the same call for the list. -/
def both (s : Nbqueue × List ℕ) (op : Op) : Option (Nbqueue × List ℕ) :=
  (s.1.exec s.2.length op).toOption.map fun r => (r.1, (op.fifo s.2).1)

variable {q : Nbqueue} {xs ys as bs : List ℕ} {op : Op} {el elP x fuel : ℕ}

theorem deqLoop_last {next : ℕ → ℕ} (hp : Path 0 next el (ys ++ [x])) (hf : ys.length < fuel) :
    deqLoop next fuel el elP = .ok (x, ys.getLast?.getD elP) := by
  induction ys generalizing el elP fuel with
  | nil =>
    obtain ⟨rfl, -, hend⟩ := hp
    cases fuel with
    | zero => cases hf
    | succ fuel => exact if_neg fun h => h.2 hend
  | cons y ys ih =>
    obtain ⟨rfl, hne, hrest⟩ := hp
    have hnext : next el ≠ 0 := fun hz => by simpa using hrest.eq_nil_iff.1 hz
    cases fuel with
    | zero => cases hf
    | succ fuel =>
      rw [deqLoop, if_pos ⟨hne, hnext⟩, ih hrest (by simpa using hf), getLast?_cons]
      cases ys.getLast? <;> rfl

theorem Holds.enq (h : q.Holds xs) (hne : el ≠ 0) (hnew : el ∉ xs) :
    (q.enq el).Holds (el :: xs) := by
  have hother : ∀ y ∈ xs, y ≠ el := fun y hy => ne_of_mem_of_not_mem hy hnew
  refine ⟨h.chain.push_front hne hnew (update_self ..) (update_self ..)
    (fun y hy => update_of_ne (hother y hy) ..) fun y hy => ?_, h.free⟩
  exact (update_of_ne (hother y hy) ..).trans (setLink_of_ne (h.chain.path.ne_nil y hy))

theorem Holds.deq (h : q.Holds (ys ++ [x])) (hf : ys.length < fuel) :
    ∃ q', q.deq fuel = .ok (q', x) ∧ q'.Holds ys := by
  have hprev := h.chain.back.prev_eq
  have hnext : q.next x = 0 := h.chain.path.right.2.2
  have hne := h.chain.path.ne_nil
  unfold Nbqueue.deq
  rw [deqLoop_last h.chain.path hf, ← hprev]
  refine ⟨_, if_neg (not_not.2 hnext), ?_, h.free⟩
  rw [← append_nil ys]
  refine h.chain.remove (by simp [hnext]) (fun y hy => ?_) fun y hy => ?_
  · rw [hnext]
    exact setLink_of_ne (hne y (by simp_all))
  · rw [hnext, if_neg (hne y (by simp_all))]

theorem Holds.remove (h : q.Holds (as ++ el :: bs)) (has : as ≠ []) (hbs : bs ≠ []) :
    (q.remove el).Holds (as ++ bs) := by
  have hnext : q.next el ≠ 0 := mt h.chain.path.right.2.2.eq_nil_iff.1 hbs
  have hprev : q.prev el ≠ 0 := by
    obtain ⟨cs, y, rfl⟩ := (eq_nil_or_concat' as).resolve_left has
    simp [h.chain.back.prev_eq, h.chain.path.ne_nil y]
  unfold Nbqueue.remove
  rw [if_neg hnext, if_neg hprev]
  exact ⟨h.chain.remove (if_neg hprev).symm (fun _ _ => update_apply ..) fun _ _ => update_apply ..,
    h.free⟩

/-- A call on a queue that holds a list does what it does to the list. -/
theorem Holds.exec (h : q.Holds xs) (hvalid : op.Valid xs) (hinner : op.Inner xs)
    (hf : xs.length ≤ fuel) :
    ∃ q', q.exec fuel op = .ok (q', (op.fifo xs).2) ∧ q'.Holds (op.fifo xs).1 := by
  have hfree : ¬ q.locked = true := by simp [h.free]
  cases op with
  | enq el => exact ⟨_, if_neg hfree, h.enq hvalid.1 hvalid.2⟩
  | deq =>
    obtain rfl | ⟨ys, x, rfl⟩ := eq_nil_or_concat' xs
    · exact ⟨q, if_pos h.chain.path, h⟩
    · have hne : q.head ≠ 0 := fun hz => by simpa using h.chain.path.eq_nil_iff.1 hz
      have hlt : ys.length < fuel := by simpa using hf
      obtain ⟨q', hdeq, hq'⟩ := h.deq hlt
      refine ⟨q', ?_, by simpa [Op.fifo] using hq'⟩
      rw [Nbqueue.exec, if_neg hne, if_neg hfree, hdeq]
      simp [Op.fifo]
  | remove el =>
    obtain ⟨as, bs, rfl⟩ := append_of_mem hvalid
    have hnot : el ∉ as := by
      have hout := (nodup_cons.1 (perm_middle.nodup_iff.1 h.chain.nodup)).1
      exact fun hel => hout (mem_append_left _ hel)
    refine ⟨_, if_neg hfree, ?_⟩
    rw [Op.fifo, erase_append_right _ hnot, erase_cons_head]
    refine h.remove ?_ ?_
    · rintro rfl
      exact hinner.1 rfl
    · rintro rfl
      exact hinner.2 (by simp)

/-- As long as neither the newest nor the oldest element is removed, the queue holds the list, and
each call returns what it returns for the list. -/
theorem nbqueue_is_fifo {q₀ : Nbqueue} (hhead : q₀.head = 0) (hfree : q₀.locked = false)
    (hrun : Run both (fun s op => op.Valid s.2 ∧ op.Inner s.2) (q₀, []) (q, xs))
    (hvalid : op.Valid xs) (hinner : op.Inner xs) (hf : xs.length ≤ fuel) :
    q.Holds xs ∧ ∃ q', q.exec fuel op = .ok (q', (op.fifo xs).2) ∧ q'.Holds (op.fifo xs).1 := by
  have hq : q.Holds xs := by
    refine hrun.invariant (fun s => s.1.Holds s.2) ⟨?_, hfree⟩ ?_
    · rw [hhead]
      exact chain_nil
    · intro s op t h hop hs
      obtain ⟨q', hexec, hq'⟩ := h.exec hop.1 hop.2 le_rfl
      rw [both, hexec] at hs
      cases hs
      exact hq'
  exact ⟨hq, hq.exec hvalid hinner hf⟩

def emptyQueue : Nbqueue := ⟨fun _ => 0, fun _ => 0, 0, false⟩

/-- The middle one of three elements is removed. -/
def middleRemoved : Nbqueue := (((emptyQueue.enq 1).enq 2).enq 3).remove 2

theorem middleRemoved_dequeued : ∃ q', middleRemoved.exec 2 .deq = .ok (q', 1) ∧ q'.Holds [3] := by
  have hrun : Run both (fun s op => op.Valid s.2 ∧ op.Inner s.2) (emptyQueue, [])
      (middleRemoved, [3, 1]) :=
    .tail (.tail (.tail (.single ⟨.enq 1, ⟨⟨by decide, by decide⟩, trivial⟩, rfl⟩)
      ⟨.enq 2, ⟨⟨by decide, by decide⟩, trivial⟩, rfl⟩)
      ⟨.enq 3, ⟨⟨by decide, by decide⟩, trivial⟩, rfl⟩)
      ⟨.remove 2, ⟨(by decide : 2 ∈ [3, 2, 1]), by decide, by decide⟩, rfl⟩
  have hvalid : Op.deq.Valid [3, 1] := trivial
  exact (nbqueue_is_fifo rfl rfl hrun hvalid trivial le_rfl).2

/-- The older of two elements is removed: both are lost, and the next call hangs. -/
theorem oldest_removed_locks : ∃ q', ((emptyQueue.enq 1).enq 2).exec 2 (.remove 1) = .ok (q', 0) ∧
    q'.head = 0 ∧ ∀ el, q'.exec 2 (.enq el) = .error .unfinished :=
  ⟨_, rfl, rfl, fun _ => rfl⟩

end Nbqueue

end Tas
