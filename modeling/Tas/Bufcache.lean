import Tas.ActiveList
import Tas.Lib.Circ

/-! The network buffers of a fast path core, `fastemu.c` and `fastemu.h`: the cache of buffers that
are ready for use, the buffers queued for transmission, and where each buffer is. -/
namespace Tas

open Circ Function List

/-- `BUFCACHE_SIZE`. -/
def bufcacheSize : ℕ := 128

/-- `TXBUF_SIZE`. -/
def txbufSize : ℕ := 2 * batchSize

/-- Why a poll does not return. -/
inductive Stop
  /-- `tx_send` finds the transmit buffer full. -/
  | txFull
  /-- The assertion of `bufcache_alloc` fails. -/
  | notReserved
  /-- `arx_cache_add` writes behind the end of its array. -/
  | arxOverflow
  /-- Any other assertion or check. -/
  | aborted
  /-- The given number of iterations does not suffice. -/
  | unfinished
deriving DecidableEq

/-- The buffers and notifications in `struct dataplane_context`. The last four lists record, newest
first, the handles obtained from the driver, those given back unused, those it sent, and those of
the segments that were emitted. -/
structure Dataplane (H : Type*) where
  bufcacheHandles : ℕ → H
  bufcacheHead : ℕ
  bufcacheNum : ℕ
  txHandles : ℕ → H
  txNum : ℕ
  arxCache : List Arx
  taken : List H
  freed : List H
  sent : List H
  emitted : List H

variable {H : Type*} {c c' : Dataplane H} {h x : H} {n off : ℕ} {hs flight : List H}

namespace Dataplane

/-- The handles in the cache, in the order in which they are used. -/
def cached (c : Dataplane H) : List H :=
  window bufcacheSize c.bufcacheHandles c.bufcacheHead c.bufcacheNum

/-- The handles of the segments that wait for transmission. -/
def queued (c : Dataplane H) : List H := (List.range c.txNum).map c.txHandles

end Dataplane

/-! ### Operations -/

/-- Put handles the driver allocated into the cells from `pos` on. -/
def loadHandles (c : Dataplane H) (pos : ℕ) (hs : List H) : Dataplane H :=
  { c with
    bufcacheHandles := splice c.bufcacheHandles pos hs
    bufcacheNum := c.bufcacheNum + hs.length
    taken := hs ++ c.taken }

/-- The refill in `bufcache_prealloc`, with `alloc` for `network_buf_alloc`. What is free is one
or two parts of the array; the second is tried only if the first could be filled. -/
def refill (alloc : Dataplane H → ℕ → List H) (c : Dataplane H) : Dataplane H :=
  let grow := bufcacheSize - c.bufcacheNum
  let head := (c.bufcacheHead + c.bufcacheNum) % bufcacheSize
  if head + grow ≤ bufcacheSize then
    loadHandles c head (alloc c grow)
  else
    let g := bufcacheSize - head
    let hs := alloc c g
    let c := loadHandles c head hs
    if hs.length = g then loadHandles c 0 (alloc c (grow - g)) else c

/-- Make up to `num` handles available, which are the cells from the head on. -/
def bufcachePrealloc (alloc : Dataplane H → ℕ → List H) (c : Dataplane H) (num : ℕ) :
    Dataplane H × ℕ :=
  let c := if c.bufcacheNum < num then refill alloc c else c
  (c, min num (if c.bufcacheHead + c.bufcacheNum ≤ bufcacheSize then c.bufcacheNum
    else bufcacheSize - c.bufcacheHead))

/-- The cache without its first `num` handles. -/
def reserve (c : Dataplane H) (num : ℕ) : Dataplane H :=
  { c with
    bufcacheHead := (c.bufcacheHead + num) % bufcacheSize
    bufcacheNum := c.bufcacheNum - num }

/-- Take `num` handles that were used out of the cache. -/
def bufcacheAlloc (c : Dataplane H) (num : ℕ) : Except Stop (Dataplane H) :=
  if num ≤ c.bufcacheNum then .ok (reserve c num) else .error .notReserved

/-- Return a handle to the cache, or to the driver if the cache is full. -/
def bufcacheFree (c : Dataplane H) (handle : H) : Dataplane H :=
  if c.bufcacheNum < bufcacheSize then
    { c with
      bufcacheHandles := update c.bufcacheHandles
        ((c.bufcacheHead + c.bufcacheNum) % bufcacheSize) handle
      bufcacheNum := c.bufcacheNum + 1 }
  else { c with freed := handle :: c.freed }

/-- Emit a segment that is in the buffer `nbh`. -/
def txSend (c : Dataplane H) (nbh : H) : Except Stop (Dataplane H) :=
  if c.txNum ≥ txbufSize then .error .txFull
  else
    .ok { c with
      txHandles := update c.txHandles c.txNum nbh
      txNum := c.txNum + 1
      emitted := nbh :: c.emitted }

/-- The loop of `tx_flush` that moves the handles behind the first `ret` to the front. -/
def moveToFront (tx : ℕ → H) (ret : ℕ) : ℕ → ℕ → H
  | 0 => tx
  | n + 1 =>
    let tx' := moveToFront tx ret n
    update tx' n (tx' (n + ret))

/-- Try to send out what is queued; the driver takes the first `ret` handles. -/
def txFlush (c : Dataplane H) (ret : ℕ) : Dataplane H :=
  if c.txNum = 0 then c
  else if ret = c.txNum then { c with txNum := 0, sent := c.queued ++ c.sent }
  else if ret > 0 then
    { c with
      txHandles := moveToFront c.txHandles ret (c.txNum - ret)
      txNum := c.txNum - ret
      sent := c.queued.take ret ++ c.sent }
  else c

/-- Remember a notification until the end of the batch. -/
def arxCacheAdd (c : Dataplane H) (a : Arx) : Except Stop (Dataplane H) :=
  if c.arxCache.length < batchSize then .ok { c with arxCache := c.arxCache ++ [a] }
  else .error .arxOverflow

/-- Write the notifications to the queues of the applications. `full i` says that there is no room
for entry `i`. -/
def arxCacheFlush (c : Dataplane H) (full : ℕ → Bool) : Except Stop (Dataplane H) :=
  if (List.range c.arxCache.length).any full then .error .aborted
  else .ok { c with arxCache := [] }

/-! ### Lemmas of single operations -/

theorem reserve_reserve : reserve (reserve c n) off = reserve c (n + off) := by
  simp [reserve, Nat.add_assoc, Nat.sub_sub]

theorem txSend_ok (hroom : c.txNum < txbufSize) (nbh : H) :
    txSend c nbh = .ok { c with
      txHandles := update c.txHandles c.txNum nbh
      txNum := c.txNum + 1
      emitted := nbh :: c.emitted } :=
  if_neg (Nat.not_le.2 hroom)

theorem moveToFront_eq (tx : ℕ → H) (ret : ℕ) (n i : ℕ) :
    moveToFront tx ret n i = if i < n then tx (i + ret) else tx i := by
  induction n generalizing i with
  | zero => simp [moveToFront]
  | succ n ih =>
    -- the source cell lies behind all cells that were written so far
    have hsrc : moveToFront tx ret n (n + ret) = tx (n + ret) := by
      rw [ih, if_neg (by omega)]
    simp only [moveToFront, hsrc]
    by_cases hi : i = n
    · subst hi
      simp
    · rw [update_of_ne hi, ih]
      have hiff : i < n ↔ i < n + 1 := by omega
      simp only [hiff]

theorem queued_moveToFront (ret : ℕ) :
    (List.range (c.txNum - ret)).map (moveToFront c.txHandles ret (c.txNum - ret)) =
      c.queued.drop ret := by
  apply ext_getElem
  · simp [Dataplane.queued]
  intro i hi _
  rw [length_map, length_range] at hi
  simp [Dataplane.queued, moveToFront_eq, hi, Nat.add_comm]

theorem foldl_bufcacheFree_arx (hs : List H) (c : Dataplane H) :
    (hs.foldl bufcacheFree c).arxCache = c.arxCache := by
  induction hs generalizing c with
  | nil => rfl
  | cons h hs ih =>
    rw [foldl_cons, ih]
    unfold bufcacheFree
    split_ifs <;> rfl

/-! ### Where a handle is -/

variable [DecidableEq H]

/-- The driver has the handle: whatever was obtained was given back or sent. -/
def Dataplane.AtDriver (c : Dataplane H) (h : H) : Prop :=
  c.taken.count h = c.freed.count h + c.sent.count h

instance : Decidable (c.AtDriver h) := inferInstanceAs (Decidable (_ = _))

/-- What the driver hands out when it is asked for `n` handles: handles it has, each once. -/
structure HandsOut (c : Dataplane H) (n : ℕ) (hs : List H) : Prop where
  length_le : hs.length ≤ n
  nodup : hs.Nodup
  atDriver : ∀ h ∈ hs, c.AtDriver h

/-- Each handle is in one place: with the driver, in the cache, queued for transmission, or among
those in `flight`, which a poll works on. A handle is emitted once for each time that the driver
takes it for transmission. -/
structure Conserved (c : Dataplane H) (flight : List H) : Prop where
  head_lt : c.bufcacheHead < bufcacheSize
  num_le : c.bufcacheNum ≤ bufcacheSize
  tx_le : c.txNum ≤ txbufSize
  taken : ∀ h, c.taken.count h =
    c.freed.count h + c.sent.count h + (c.cached.count h + c.queued.count h + flight.count h)
  once : ∀ h, c.cached.count h + c.queued.count h + flight.count h ≤ 1
  emitted : ∀ h, c.emitted.count h = c.sent.count h + c.queued.count h

theorem Conserved.atDriver_iff (hc : Conserved c flight) :
    c.AtDriver h ↔ c.cached.count h + c.queued.count h + flight.count h = 0 := by
  have htaken := hc.taken h
  unfold Dataplane.AtDriver
  omega

theorem Conserved.one_place (hc : Conserved c []) (h : H) :
    c.cached.count h + c.queued.count h + (if c.AtDriver h then 1 else 0) = 1 := by
  have honce := hc.once h
  have hiff := hc.atDriver_iff (h := h)
  rw [count_nil] at honce hiff
  split_ifs with hat
  · have hzero := hiff.1 hat
    omega
  · have hne := mt hiff.2 hat
    omega

/-- Only the numbers of handles in flight matter. -/
theorem Conserved.perm {flight' : List H} (hc : Conserved c flight) (hp : flight.Perm flight') :
    Conserved c flight' where
  head_lt := hc.head_lt
  num_le := hc.num_le
  tx_le := hc.tx_le
  taken h := by rw [hc.taken h, hp.count_eq]
  once h := by rw [← hp.count_eq]; exact hc.once h
  emitted := hc.emitted

/-- Handles from the driver are not anywhere else. -/
theorem HandsOut.count_le (ho : HandsOut c n hs) (hc : Conserved c flight) (h : H) :
    c.cached.count h + c.queued.count h + flight.count h + hs.count h ≤ 1 := by
  by_cases hmem : h ∈ hs
  · have hone := count_eq_one_of_mem ho.nodup hmem
    have hzero := hc.atDriver_iff.1 (ho.atDriver h hmem)
    omega
  · rw [count_eq_zero_of_not_mem hmem]
    exact hc.once h

/-- The driver hands out handles that a poll works on. -/
theorem Conserved.receive (hc : Conserved c []) (ho : HandsOut c n hs) :
    Conserved { c with taken := hs ++ c.taken } hs where
  head_lt := hc.head_lt
  num_le := hc.num_le
  tx_le := hc.tx_le
  taken h := by
    have htaken := hc.taken h
    have hcached : ({ c with taken := hs ++ c.taken } : Dataplane H).cached = c.cached := rfl
    have hqueued : ({ c with taken := hs ++ c.taken } : Dataplane H).queued = c.queued := rfl
    rw [hcached, hqueued]
    simp only [count_append, count_nil] at *
    omega
  once h := by
    have hle := ho.count_le hc h
    rw [count_nil] at hle
    exact hle
  emitted := hc.emitted

/-- The driver hands out handles that go into the cache. -/
theorem Conserved.load (hc : Conserved c []) (ho : HandsOut c n hs) {pos : ℕ}
    (hpos : pos = (c.bufcacheHead + c.bufcacheNum) % bufcacheSize)
    (hend : pos + hs.length ≤ bufcacheSize) (hroom : c.bufcacheNum + hs.length ≤ bufcacheSize) :
    Conserved (loadHandles c pos hs) [] := by
  subst hpos
  have hcached : (loadHandles c ((c.bufcacheHead + c.bufcacheNum) % bufcacheSize) hs).cached =
      c.cached ++ hs := window_splice hend hroom
  have hqueued : (loadHandles c ((c.bufcacheHead + c.bufcacheNum) % bufcacheSize) hs).queued =
      c.queued := rfl
  refine ⟨hc.head_lt, hroom, hc.tx_le, fun h => ?_, fun h => ?_, hc.emitted⟩
  · have htaken := hc.taken h
    rw [hcached, hqueued, count_append]
    simp only [loadHandles, count_append, count_nil] at *
    omega
  · have hle := ho.count_le hc h
    rw [hcached, hqueued, count_append]
    simp only [count_nil] at *
    omega

/-- The first handle of the cache is worked on. -/
theorem Conserved.reserve_one (hc : Conserved c flight) (hnum : 0 < c.bufcacheNum) :
    Conserved (reserve c 1) (c.bufcacheHandles c.bufcacheHead :: flight) := by
  have hcached : c.cached = c.bufcacheHandles c.bufcacheHead :: (reserve c 1).cached := by
    obtain ⟨m, hm⟩ := Nat.exists_eq_succ_of_ne_zero hnum.ne'
    have hwin := @window_cons _ bufcacheSize c.bufcacheHead m c.bufcacheHandles
    rw [Nat.mod_eq_of_lt hc.head_lt] at hwin
    unfold Dataplane.cached reserve
    rw [hm, hwin]
    simp [window_mod]
  have hqueued : (reserve c 1).queued = c.queued := rfl
  have hcount : ∀ h, c.cached.count h + flight.count h = (reserve c 1).cached.count h +
      (c.bufcacheHandles c.bufcacheHead :: flight).count h := by
    intro h
    rw [hcached, count_cons, count_cons]
    omega
  refine ⟨Nat.mod_lt _ (by decide), (Nat.sub_le _ _).trans hc.num_le, hc.tx_le, fun h => ?_,
    fun h => ?_, hc.emitted⟩
  · have htaken := hc.taken h
    have := hcount h
    rw [hqueued]
    simp only [reserve] at *
    omega
  · have honce := hc.once h
    have := hcount h
    rw [hqueued]
    omega

theorem reserve_zero (hc : Conserved c flight) : reserve c 0 = c := by
  simp [reserve, Nat.mod_eq_of_lt hc.head_lt]

/-- A handle that is worked on is queued for transmission. -/
theorem Conserved.txSend (hc : Conserved c (h :: flight)) (hroom : c.txNum < txbufSize) :
    Conserved { c with
      txHandles := update c.txHandles c.txNum h
      txNum := c.txNum + 1
      emitted := h :: c.emitted } flight := by
  have hqueued : ∀ em, ({ c with
      txHandles := update c.txHandles c.txNum h
      txNum := c.txNum + 1
      emitted := em } : Dataplane H).queued = c.queued ++ [h] := by
    intro em
    unfold Dataplane.queued
    rw [range_succ, map_append]
    congr 1
    · refine map_congr_left fun i hi => ?_
      rw [mem_range] at hi
      exact update_of_ne hi.ne _ _
    · simp
  refine ⟨hc.head_lt, hc.num_le, hroom, fun x => ?_, fun x => ?_, fun x => ?_⟩
  · have htaken := hc.taken x
    rw [hqueued, count_append, count_singleton]
    rw [count_cons] at htaken
    simp only [Dataplane.cached] at *
    omega
  · have honce := hc.once x
    rw [hqueued, count_append, count_singleton]
    rw [count_cons] at honce
    simp only [Dataplane.cached] at *
    omega
  · have hemitted := hc.emitted x
    rw [hqueued, count_append, count_singleton, count_cons]
    simp only at *
    omega

/-- A handle that is worked on is freed. -/
theorem Conserved.free (hc : Conserved c (h :: flight)) : Conserved (bufcacheFree c h) flight := by
  unfold bufcacheFree
  split_ifs with hroom
  · have hcached : ({ c with
        bufcacheHandles := update c.bufcacheHandles
          ((c.bufcacheHead + c.bufcacheNum) % bufcacheSize) h
        bufcacheNum := c.bufcacheNum + 1 } : Dataplane H).cached = c.cached ++ [h] :=
      window_update h hroom
    refine ⟨hc.head_lt, hroom, hc.tx_le, fun x => ?_, fun x => ?_, hc.emitted⟩
    · have htaken := hc.taken x
      rw [hcached, count_append, count_singleton]
      rw [count_cons] at htaken
      simp only [Dataplane.queued] at *
      omega
    · have honce := hc.once x
      rw [hcached, count_append, count_singleton]
      rw [count_cons] at honce
      simp only [Dataplane.queued] at *
      omega
  · refine ⟨hc.head_lt, hc.num_le, hc.tx_le, fun x => ?_, fun x => ?_, hc.emitted⟩
    · have htaken := hc.taken x
      rw [count_cons] at htaken
      simp only [Dataplane.queued, Dataplane.cached, count_cons] at *
      omega
    · have honce := hc.once x
      rw [count_cons] at honce
      simp only [Dataplane.queued, Dataplane.cached] at *
      omega

theorem Conserved.freeAll (hc : Conserved c flight) :
    Conserved (flight.foldl bufcacheFree c) [] := by
  induction flight generalizing c with
  | nil => exact hc
  | cons h flight ih => exact ih hc.free

/-! ### Transmission -/

theorem Conserved.flush (hc : Conserved c []) (ret : ℕ) : Conserved (txFlush c ret) [] := by
  unfold txFlush
  split_ifs with hzero hall hpos
  · exact hc
  · refine ⟨hc.head_lt, hc.num_le, Nat.zero_le _, fun x => ?_, fun x => ?_, fun x => ?_⟩
    · have htaken := hc.taken x
      simp only [Dataplane.queued, Dataplane.cached, count_append, range_zero,
        map_nil, count_nil] at *
      omega
    · have honce := hc.once x
      simp only [Dataplane.queued, Dataplane.cached, range_zero, map_nil,
        count_nil] at *
      omega
    · have hemitted := hc.emitted x
      simp only [Dataplane.queued, count_append, range_zero, map_nil,
        count_nil] at *
      omega
  · have hsplit : ∀ x, c.queued.count x = (c.queued.take ret).count x +
        (c.queued.drop ret).count x := by
      intro x
      rw [← count_append, take_append_drop]
    have hqueued : ∀ st, ({ c with
        txHandles := moveToFront c.txHandles ret (c.txNum - ret)
        txNum := c.txNum - ret
        sent := st } : Dataplane H).queued = c.queued.drop ret := fun _ => queued_moveToFront ret
    refine ⟨hc.head_lt, hc.num_le, (Nat.sub_le _ _).trans hc.tx_le, fun x => ?_, fun x => ?_,
      fun x => ?_⟩
    · have htaken := hc.taken x
      have := hsplit x
      rw [hqueued]
      simp only [Dataplane.cached, count_append] at *
      omega
    · have honce := hc.once x
      have := hsplit x
      rw [hqueued]
      simp only [Dataplane.cached] at *
      omega
    · have hemitted := hc.emitted x
      have := hsplit x
      rw [hqueued]
      simp only [count_append] at *
      omega
  · exact hc

/-! ### The cache -/

/-- What `bufcache_prealloc` may change. -/
structure Refilled (c c' : Dataplane H) : Prop where
  conserved : Conserved c' []
  txNum : c'.txNum = c.txNum
  arxCache : c'.arxCache = c.arxCache

theorem refill_spec {alloc : Dataplane H → ℕ → List H} (halloc : ∀ c n, HandsOut c n (alloc c n))
    (hc : Conserved c []) : Refilled c (refill alloc c) := by
  have hnum := hc.num_le
  have hpos : (c.bufcacheHead + c.bufcacheNum) % bufcacheSize < bufcacheSize :=
    Nat.mod_lt _ (by decide)
  unfold refill
  dsimp only
  generalize hp : (c.bufcacheHead + c.bufcacheNum) % bufcacheSize = pos at *
  by_cases hfits : pos + (bufcacheSize - c.bufcacheNum) ≤ bufcacheSize
  · rw [if_pos hfits]
    have hout := halloc c (bufcacheSize - c.bufcacheNum)
    have hlen := hout.length_le
    exact ⟨hc.load hout hp.symm (by omega) (by omega), rfl, rfl⟩
  rw [if_neg hfits]
  have hout := halloc c (bufcacheSize - pos)
  generalize alloc c (bufcacheSize - pos) = hs at *
  have hlen := hout.length_le
  have hc₁ := hc.load hout hp.symm (by omega) (by omega)
  split_ifs with hall
  · -- the first part is full, so the cells that follow start at zero
    have hwrap : 0 = ((loadHandles c pos hs).bufcacheHead + (loadHandles c pos hs).bufcacheNum) %
        bufcacheSize := by
      change 0 = (c.bufcacheHead + (c.bufcacheNum + hs.length)) % bufcacheSize
      rw [hall, ← Nat.add_assoc, ← Nat.mod_add_mod, hp, Nat.add_sub_cancel' hpos.le, Nat.mod_self]
    have hout₂ := halloc (loadHandles c pos hs)
      (bufcacheSize - c.bufcacheNum - (bufcacheSize - pos))
    have hlen₂ := hout₂.length_le
    refine ⟨hc₁.load hout₂ hwrap (by omega) ?_, rfl, rfl⟩
    change c.bufcacheNum + hs.length + _ ≤ _
    omega
  · exact ⟨hc₁, rfl, rfl⟩

/-- The handles that `bufcache_prealloc` returns are in the cache and do not wrap. -/
structure Prealloc (c c' : Dataplane H) (num max : ℕ) : Prop extends Refilled c c' where
  max_le : max ≤ num
  cached : max ≤ c'.bufcacheNum
  no_wrap : c'.bufcacheHead + max ≤ bufcacheSize

theorem bufcachePrealloc_spec {alloc : Dataplane H → ℕ → List H}
    (halloc : ∀ c n, HandsOut c n (alloc c n)) (hc : Conserved c []) (num : ℕ) :
    Prealloc c (bufcachePrealloc alloc c num).1 num (bufcachePrealloc alloc c num).2 := by
  have hfill : Refilled c (if c.bufcacheNum < num then refill alloc c else c) := by
    split_ifs
    · exact refill_spec halloc hc
    · exact ⟨hc, rfl, rfl⟩
  unfold bufcachePrealloc
  dsimp only
  generalize (if c.bufcacheNum < num then refill alloc c else c) = c' at *
  have hhead := hfill.conserved.head_lt
  refine ⟨hfill, Nat.min_le_left _ _, ?_, ?_⟩ <;> split_ifs <;> omega

end Tas
