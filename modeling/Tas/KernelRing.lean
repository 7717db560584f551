import Tas.Appctx
import Tas.Lib.SlotRing

/-! The ring by which the slow path sends commands to a fast path core: `nicif.c` writes and
`fast_kernel_poll` reads. The type of a slot is the only thing by which it is handed over. -/
namespace Tas

open SlotRing Function Relation List Word

/-- The union in `struct flextcp_pl_ktx`, by what was written last. -/
inductive KtxMsg
  | packet (addr : U64) (len : U16)
  | connretran (flowId : U32)
deriving DecidableEq

/-- `msg.connretran.flow_id`, which overlaps the address of a packet. -/
def KtxMsg.flowId : KtxMsg → U32
  | .packet addr _ => addr.setWidth 32
  | .connretran f => f

/-- `struct flextcp_pl_ktx`. -/
structure Ktx where
  type : U8
  msg : KtxMsg
deriving DecidableEq

def ktxPacket : U8 := 1
def ktxConnretran : U8 := 2
def ktxWinretran : U8 := 3
def ktxPacketNots : U8 := 4

/-- `sizeof(struct flextcp_pl_ktx)`. -/
def ktxSize : U32 := 64

/-- The ring of one core: the slow path's lengths and tail, the slots and their buffers, and
the fast path's length and head in bytes. -/
structure KernelRing where
  rxqLen : U32
  txqLen : U32
  tail : U32
  slots : U32 → Ktx
  bufAddr : U32 → U64
  txLen : U32
  txHead : U32

/-- The ring after `adminq_init` and `adminq_init_core` for the configured lengths: the slots of
the queue are zero. What lies behind them is arbitrary. -/
structure RingInit (nicRxLen nicTxLen : U64) (r : KernelRing) : Prop where
  rxqLen : r.rxqLen = nicRxLen.setWidth 32
  txqLen : r.txqLen = nicTxLen.setWidth 32
  txLen : r.txLen = (nicTxLen * 64).setWidth 32
  tail : r.tail = 0
  txHead : r.txHead = 0
  slots : ∀ i, i.toNat < nicTxLen.toNat → (r.slots i).type = 0

/-! ### Slow path -/

def KernelRing.write (r : KernelRing) (slot : U32) (k : Ktx) : KernelRing :=
  { r with slots := update r.slots slot k }

/-- The tail behind the next slot, unless the queue is full. -/
def ktxTryAlloc (r : KernelRing) : Option U32 :=
  if (r.slots r.tail).type ≠ 0 then none
  else
    let tail := r.tail + 1
    -- wraps at the length of the other queue
    some (if tail = r.rxqLen then tail - r.rxqLen else tail)

/-- A command for a flow. Nothing is returned if the VM has no budget or the queue is full. -/
def connectionCommand (type : U8) (r : KernelRing) (budget : ℤ) (fId : U32) :
    Option KernelRing :=
  if budget ≤ 0 then none
  else (ktxTryAlloc r).map fun tail => { r.write r.tail ⟨type, .connretran fId⟩ with tail := tail }

def nicifConnectionWinretransmit := connectionCommand ktxWinretran

def nicifConnectionRetransmit := connectionCommand ktxConnretran

/-- Prepare a packet. Also returns the new tail, which `nicif_tx_send` gets. -/
def nicifTxAlloc (r : KernelRing) (len : U16) : Option (KernelRing × U32) :=
  (ktxTryAlloc r).map fun tail =>
    (r.write r.tail { r.slots r.tail with msg := .packet (r.bufAddr r.tail) len }, tail)

/-- The slot before the new tail. -/
def sendSlot (r : KernelRing) (newTail : U32) : U32 :=
  if newTail = 0 then r.txqLen - 1 else newTail - 1

def nicifTxSend (r : KernelRing) (newTail : U32) (noTs : Bool) : KernelRing :=
  let slot := sendSlot r newTail
  { r.write slot { r.slots slot with type := if noTs then ktxPacketNots else ktxPacket } with
    tail := newTail }

/-! ### Fast path -/

/-- The slot at the head. -/
def headSlot (r : KernelRing) : U32 := r.txHead / ktxSize

/-- The ring after the slot at the head was consumed. -/
def consumeHead (r : KernelRing) : KernelRing :=
  let head := r.txHead + ktxSize
  { r.write (headSlot r) { r.slots (headSlot r) with type := 0 } with
    txHead := if head ≥ r.txLen then head - r.txLen else head }

/-- Consume a command, if there is one. -/
def fastKernelPoll (r : KernelRing) : Checked (Option (KernelRing × Ktx)) :=
  let ktx := r.slots (headSlot r)
  if r.txLen = 0 then .done none
  else if ktx.type = 0 then .done none
  else if ktx.type = ktxPacket then .done (some (consumeHead r, ktx))
  else if ktx.type = ktxPacketNots then .done (some (consumeHead r, ktx))
  else if ktx.type = ktxConnretran ∨ ktx.type = ktxWinretran then
    if ktx.msg.flowId ≥ flowIdLimit then .abort else .done (some (consumeHead r, ktx))
  else .abort

/-! ### Runs -/

/-- The ring, the tail of a packet that was allocated and not sent yet, and the commands written
and consumed so far. -/
structure RingRun where
  ring : KernelRing
  pending : Option U32
  written : List Ktx
  consumed : List Ktx

/-- The slow path runs on one thread, and sends a packet right after it was allocated. -/
inductive RingStep : RingRun → RingRun → Prop
  | retransmit {s : RingRun} {r' : KernelRing} {budget : ℤ} {fId : U32} (hp : s.pending = none)
    (hr : nicifConnectionRetransmit s.ring budget fId = some r') :
    RingStep s { s with
      ring := r', written := s.written ++ [⟨ktxConnretran, .connretran fId⟩] }
  | winretransmit {s : RingRun} {r' : KernelRing} {budget : ℤ} {fId : U32} (hp : s.pending = none)
    (hr : nicifConnectionWinretransmit s.ring budget fId = some r') :
    RingStep s { s with
      ring := r', written := s.written ++ [⟨ktxWinretran, .connretran fId⟩] }
  | txAlloc {s : RingRun} {r' : KernelRing} {len : U16} {newTail : U32} (hp : s.pending = none)
    (hr : nicifTxAlloc s.ring len = some (r', newTail)) :
    RingStep s { s with ring := r', pending := some newTail }
  | txSend {s : RingRun} {newTail : U32} (noTs : Bool) (hp : s.pending = some newTail) :
    RingStep s { s with
      ring := nicifTxSend s.ring newTail noTs
      pending := none
      written := s.written ++
        [(nicifTxSend s.ring newTail noTs).slots (sendSlot s.ring newTail)] }
  | poll {s : RingRun} {r' : KernelRing} {k : Ktx}
    (hr : fastKernelPoll s.ring = .done (some (r', k))) :
    RingStep s { s with ring := r', consumed := s.consumed ++ [k] }

/-- A command that makes `fast_kernel_poll` abort. -/
def Ktx.Invalid (k : Ktx) : Prop :=
  (k.type = ktxConnretran ∨ k.type = ktxWinretran) ∧ k.msg.flowId ≥ flowIdLimit

/-- The commands were consumed once and in order, those outstanding are each in a slot of
their own, and a poll takes the oldest of them, or aborts if it is for an invalid flow. -/
structure InOrder (s : RingRun) : Prop where
  consumed : s.consumed <+: s.written
  kept : ∃ slot : ℕ → U32, ∀ i, s.consumed.length ≤ i → i < s.written.length →
    s.written[i]? = some (s.ring.slots (slot i)) ∧
      ∀ j, s.consumed.length ≤ j → j < s.written.length → slot i = slot j → i = j
  next : ∀ k, s.written[s.consumed.length]? = some k →
    fastKernelPoll s.ring = .done (some (consumeHead s.ring, k)) ∨
      (k.Invalid ∧ fastKernelPoll s.ring = .abort)

/-! ### The slots as a ring -/

variable {r : KernelRing} {s t : RingRun} {n i : ℕ} {k : Ktx} {slot tail : U32} {r' : KernelRing}
  {type : U8} {budget : ℤ} {fId : U32}

/-- What the fast path sees in a slot. -/
def Ktx.view (k : Ktx) : Option Ktx := if k.type = 0 then none else some k

theorem Ktx.view_of_zero (h : k.type = 0) : k.view = none := if_pos h

theorem Ktx.view_of_ne (h : k.type ≠ 0) : k.view = some k := if_neg h

/-- The types that the slow path writes. -/
def Ktx.Known (k : Ktx) : Prop :=
  k.type = ktxPacket ∨ k.type = ktxPacketNots ∨ k.type = ktxConnretran ∨ k.type = ktxWinretran

theorem Ktx.Known.ne_zero (h : k.Known) : k.type ≠ 0 := by
  obtain h | h | h | h := h <;> rw [h] <;> decide

theorem slots_write_self : (r.write slot k).slots slot = k := update_self ..

theorem slots_write_of_ne (r : KernelRing) (k : Ktx) {slot' : U32} (h : slot' ≠ slot) :
    (r.write slot k).slots slot' = r.slots slot' := update_of_ne h ..

def slotView (r : KernelRing) (i : ℕ) : Option Ktx := (r.slots (BitVec.ofNat 32 i)).view

theorem slotView_toNat : slotView r slot.toNat = (r.slots slot).view := by
  unfold slotView
  rw [BitVec.ofNat_toNat, BitVec.setWidth_eq]

theorem slotView_write_self : slotView (r.write slot k) slot.toNat = k.view := by
  rw [slotView_toNat, slots_write_self]

theorem slotView_write_of_ne (r : KernelRing) (hi : i < 2 ^ 32) (hne : i ≠ slot.toNat) :
    slotView (r.write slot k) i = slotView r i := by
  have hslot : BitVec.ofNat 32 i ≠ slot := by
    rintro rfl
    exact hne (toNat_ofNat_of_lt hi).symm
  exact congrArg Ktx.view (slots_write_of_ne r k hslot)

/-- The ring has `n` slots for both sides, and holds the commands that were not consumed. -/
structure RingInv (n : ℕ) (s : RingRun) : Prop where
  pos : 0 < n
  lt : n < 2 ^ 26
  rxqLen : s.ring.rxqLen.toNat = n
  txqLen : s.ring.txqLen.toNat = n
  txLen : s.ring.txLen.toNat = 64 * n
  tail : s.ring.tail.toNat = s.written.length % n
  head : s.ring.txHead.toNat = 64 * (s.consumed.length % n)
  slots : Ring n (slotView s.ring) s.written s.consumed.length
  consumed : s.consumed <+: s.written
  known : ∀ k ∈ s.written, k.Known
  pending : ∀ newTail, s.pending = some newTail → ktxTryAlloc s.ring = some newTail

theorem ktxTryAlloc_eq (h : ktxTryAlloc r = some tail) :
    (r.slots r.tail).type = 0 ∧ tail = if r.tail + 1 = r.rxqLen then 0 else r.tail + 1 := by
  unfold ktxTryAlloc at h
  by_cases hfull : (r.slots r.tail).type ≠ 0
  · rw [if_pos hfull] at h
    cases h
  · rw [if_neg hfull] at h
    refine ⟨not_not.1 hfull, ?_⟩
    rw [← Option.some.inj h]
    by_cases hwrap : r.tail + 1 = r.rxqLen
    · rw [if_pos hwrap, if_pos hwrap, hwrap]
      exact BitVec.sub_self _
    · rw [if_neg hwrap, if_neg hwrap]

namespace RingInv

section

variable (h : RingInv n s)
include h

theorem tail_lt : s.ring.tail.toNat < n := by
  rw [h.tail]
  exact Nat.mod_lt _ h.pos

theorem toNat_succ_tail : (s.ring.tail + 1).toNat = s.ring.tail.toNat + 1 := by
  have hlt := h.tail_lt
  have hn := h.lt
  exact toNat_add_of_lt (show _ + 1 < 2 ^ 32 by omega)

theorem newTail (htail : ktxTryAlloc s.ring = some tail) :
    tail.toNat = (s.written.length + 1) % n := by
  rw [(ktxTryAlloc_eq htail).2, succ_mod h.pos, ← h.tail]
  have hsucc := h.toNat_succ_tail
  by_cases hwrap : s.ring.tail + 1 = s.ring.rxqLen
  · have heq : s.ring.tail.toNat + 1 = n := by
      rw [← hsucc, hwrap, h.rxqLen]
    rw [if_pos hwrap, if_pos heq]
    rfl
  · have hne : s.ring.tail.toNat + 1 ≠ n := by
      intro heq
      exact hwrap (BitVec.eq_of_toNat_eq (by rw [hsucc, heq, h.rxqLen]))
    rw [if_neg hwrap, if_neg hne, hsucc]

/-- The slot that `nicif_tx_send` goes back to is the allocated one. -/
theorem sendSlot_eq (htail : ktxTryAlloc s.ring = some tail) :
    sendSlot s.ring tail = s.ring.tail := by
  have hsucc := h.toNat_succ_tail
  have heq := (ktxTryAlloc_eq htail).2
  unfold sendSlot
  by_cases hwrap : s.ring.tail + 1 = s.ring.rxqLen
  · rw [if_pos hwrap] at heq
    have hlen : s.ring.txqLen = s.ring.rxqLen :=
      BitVec.eq_of_toNat_eq (h.txqLen.trans h.rxqLen.symm)
    rw [if_pos heq, hlen, ← hwrap, BitVec.add_sub_cancel]
  · rw [if_neg hwrap] at heq
    have hne : tail ≠ 0 := by
      rintro rfl
      have hzero := congrArg BitVec.toNat heq
      rw [hsucc] at hzero
      simp at hzero
    rw [if_neg hne, heq, BitVec.add_sub_cancel]

/-- There is room for a command if its slot is free. -/
theorem room (hfree : (s.ring.slots s.ring.tail).type = 0) :
    s.written.length < s.consumed.length + n := by
  refine (h.slots.free_iff h.pos).1 ?_
  rw [← h.tail, slotView_toNat]
  exact Ktx.view_of_zero hfree

theorem index_lt (hi : i < n) : i < 2 ^ 32 := by
  have hn := h.lt
  omega

/-- Write a command to the slot at the tail. -/
theorem put (htail : ktxTryAlloc s.ring = some tail) (hk : k.Known) :
    RingInv n ⟨{ s.ring.write s.ring.tail k with tail := tail }, none, s.written ++ [k],
      s.consumed⟩ := by
  have hroom := h.room (ktxTryAlloc_eq htail).1
  refine ⟨h.pos, h.lt, h.rxqLen, h.txqLen, h.txLen, ?_, h.head, ?_, ?_, ?_,
    fun _ hp => by cases hp⟩
  · rw [length_append, length_singleton]
    exact h.newTail htail
  · refine h.slots.put hroom ?_ fun i hi hne => ?_
    · rw [← h.tail]
      exact slotView_write_self.trans (Ktx.view_of_ne hk.ne_zero)
    · rw [← h.tail] at hne
      exact slotView_write_of_ne s.ring (h.index_lt hi) hne
  · exact h.consumed.trans (prefix_append ..)
  · intro k' hk'
    obtain hk' | hk' := mem_append.1 hk'
    · exact h.known k' hk'
    · rwa [mem_singleton.1 hk']

end

end RingInv

/-- The allocation looks at the tail's slot only, and at whether it is free. -/
theorem ktxTryAlloc_congr (htail : ktxTryAlloc r = some tail)
    (hsame : r'.tail = r.tail) (hlen : r'.rxqLen = r.rxqLen)
    (hfree : (r'.slots r.tail).type = 0) : ktxTryAlloc r' = some tail := by
  rw [← htail]
  unfold ktxTryAlloc
  rw [hsame, hlen, if_neg (not_not.2 hfree), if_neg (not_not.2 (ktxTryAlloc_eq htail).1)]

theorem connectionCommand_eq (h : connectionCommand type r budget fId = some r') :
    ∃ tail, ktxTryAlloc r = some tail ∧
      r' = { r.write r.tail ⟨type, .connretran fId⟩ with tail := tail } := by
  unfold connectionCommand at h
  split_ifs at h
  obtain ⟨tail, htail, heq⟩ := Option.map_eq_some_iff.1 h
  exact ⟨tail, htail, heq.symm⟩

theorem fastKernelPoll_some (h : fastKernelPoll r = .done (some (r', k))) :
    r' = consumeHead r ∧ k = r.slots (headSlot r) ∧ k.type ≠ 0 := by
  unfold fastKernelPoll at h
  dsimp only at h
  split_ifs at h with hlen hzero hpacket hnots hretran hflow
  all_goals
    cases h
    try exact ⟨rfl, rfl, hzero⟩

/-- A known command at the head is consumed, unless it is for an invalid flow. -/
theorem fastKernelPoll_known (hlen : r.txLen ≠ 0) (hk : r.slots (headSlot r) = k)
    (hknown : k.Known) :
    fastKernelPoll r = .done (some (consumeHead r, k)) ∨
      (k.Invalid ∧ fastKernelPoll r = .abort) := by
  have hzero := hknown.ne_zero
  unfold fastKernelPoll
  rw [hk]
  dsimp only
  rw [if_neg hlen, if_neg hzero]
  obtain h | h | h := hknown
  · rw [if_pos h]
    exact .inl rfl
  · rw [if_neg (by rw [h]; decide), if_pos h]
    exact .inl rfl
  · have hne : k.type ≠ ktxPacket ∧ k.type ≠ ktxPacketNots := by
      obtain h | h := h <;> rw [h] <;> decide
    rw [if_neg hne.1, if_neg hne.2, if_pos h]
    by_cases hflow : k.msg.flowId ≥ flowIdLimit
    · rw [if_pos hflow]
      exact .inr ⟨⟨h, hflow⟩, rfl⟩
    · rw [if_neg hflow]
      exact .inl rfl

namespace RingInv

section

variable (h : RingInv n s)
include h

theorem toNat_headSlot : (headSlot s.ring).toNat = s.consumed.length % n := by
  unfold headSlot
  rw [BitVec.toNat_udiv, h.head]
  exact Nat.mul_div_cancel_left _ (by decide)

theorem toNat_consumeHead :
    (consumeHead s.ring).txHead.toNat = 64 * ((s.consumed.length + 1) % n) := by
  have hmod := Nat.mod_lt s.consumed.length h.pos
  have hn := h.lt
  have hsize : ktxSize.toNat = 64 := rfl
  have hwrap : (consumeHead s.ring).txHead.toNat =
      (s.ring.txHead.toNat + ktxSize.toNat) % s.ring.txLen.toNat := by
    refine toNat_wrap ?_ ?_ ?_
    · rw [h.head, h.txLen]
      omega
    · rw [h.txLen, hsize]
      omega
    · rw [h.head, hsize]
      omega
  rw [hwrap, h.head, h.txLen, hsize]
  calc (64 * (s.consumed.length % n) + 64) % (64 * n)
      = 64 * ((s.consumed.length % n + 1) % n) := by
        rw [← Nat.mul_mod_mul_left 64 (s.consumed.length % n + 1), Nat.mul_add, Nat.mul_one]
    _ = 64 * ((s.consumed.length + 1) % n) := by rw [Nat.mod_add_mod]

theorem alloc {len : U16} (hr : nicifTxAlloc s.ring len = some (r', tail)) :
    RingInv n { s with ring := r', pending := some tail } := by
  obtain ⟨tail', htail, heq⟩ := Option.map_eq_some_iff.1 hr
  cases heq
  have hfree := (ktxTryAlloc_eq htail).1
  have hview : ∀ i < n, slotView (s.ring.write s.ring.tail
      { s.ring.slots s.ring.tail with msg := .packet (s.ring.bufAddr s.ring.tail) len }) i =
      slotView s.ring i := by
    intro i hi
    by_cases hself : i = s.ring.tail.toNat
    · rw [hself, slotView_write_self, slotView_toNat, Ktx.view_of_zero hfree]
      exact Ktx.view_of_zero hfree
    · exact slotView_write_of_ne s.ring (h.index_lt hi) hself
  refine { h with slots := ?_, pending := ?_ }
  · refine ⟨h.slots.le, h.slots.room, fun j hj hlt => ?_⟩
    rw [hview _ (Nat.mod_lt _ h.pos)]
    exact h.slots.read j hj hlt
  · intro newTail hp
    cases hp
    refine ktxTryAlloc_congr htail rfl rfl ?_
    rw [slots_write_self]
    exact hfree

/-- The command at the head is the oldest outstanding one. -/
theorem at_head : (s.ring.slots (headSlot s.ring)).view = s.written[s.consumed.length]? := by
  rw [← slotView_toNat, h.toNat_headSlot]
  exact h.slots.next h.pos

theorem poll (hr : fastKernelPoll s.ring = .done (some (r', k))) :
    RingInv n { s with ring := r', consumed := s.consumed ++ [k] } := by
  obtain ⟨rfl, hk, hne⟩ := fastKernelPoll_some hr
  have hhead := h.at_head
  rw [← hk, Ktx.view_of_ne hne] at hhead
  have hlt : s.consumed.length < s.written.length := (List.getElem?_eq_some_iff.1 hhead.symm).1
  refine ⟨h.pos, h.lt, h.rxqLen, h.txqLen, h.txLen, h.tail, ?_, ?_, ?_, h.known, ?_⟩
  · rw [length_append, length_singleton]
    exact h.toNat_consumeHead
  · rw [length_append, length_singleton]
    refine h.slots.take hlt ?_ fun i hi hne' => ?_
    · rw [← h.toNat_headSlot]
      exact slotView_write_self.trans (Ktx.view_of_zero rfl)
    · rw [← h.toNat_headSlot] at hne'
      exact slotView_write_of_ne s.ring (h.index_lt hi) hne'
  · obtain ⟨rest, hrest⟩ := h.consumed
    rw [← hrest, List.getElem?_append_right le_rfl, Nat.sub_self] at hhead
    cases rest with
    | nil => cases hhead
    | cons x rest =>
      cases hhead
      exact ⟨rest, by rw [← hrest, append_assoc, singleton_append]⟩
  · intro newTail hp
    have htail := h.pending newTail hp
    refine ktxTryAlloc_congr htail rfl rfl ?_
    change ((s.ring.write _ _).slots s.ring.tail).type = 0
    by_cases hsame : s.ring.tail = headSlot s.ring
    · rw [hsame, slots_write_self]
    · rw [slots_write_of_ne s.ring _ hsame]
      exact (ktxTryAlloc_eq htail).1

theorem command (hknown : Ktx.Known ⟨type, .connretran fId⟩)
    (hp : s.pending = none) (hr : connectionCommand type s.ring budget fId = some r') :
    RingInv n { s with ring := r', written := s.written ++ [⟨type, .connretran fId⟩] } := by
  obtain ⟨tail, htail, rfl⟩ := connectionCommand_eq hr
  have hput := h.put htail hknown
  rwa [← hp] at hput

theorem send (hp : s.pending = some tail) (noTs : Bool) :
    RingInv n ⟨nicifTxSend s.ring tail noTs, none,
      s.written ++ [(nicifTxSend s.ring tail noTs).slots (sendSlot s.ring tail)], s.consumed⟩ := by
  have htail := h.pending tail hp
  have hslot := h.sendSlot_eq htail
  have hknown : ∀ k : Ktx,
      Ktx.Known { k with type := if noTs then ktxPacketNots else ktxPacket } := by
    intro k
    cases noTs with
    | false => exact .inl rfl
    | true => exact .inr (.inl rfl)
  have hput := h.put htail (hknown (s.ring.slots s.ring.tail))
  have hcell : (nicifTxSend s.ring tail noTs).slots (sendSlot s.ring tail) =
      { s.ring.slots s.ring.tail with type := if noTs then ktxPacketNots else ktxPacket } := by
    rw [← hslot]
    exact slots_write_self
  rw [hcell]
  unfold nicifTxSend
  rw [hslot]
  exact hput

end

theorem step (hstep : RingStep s t) (h : RingInv n s) : RingInv n t := by
  cases hstep with
  | retransmit hp hr => exact h.command (.inr (.inr (.inl rfl))) hp hr
  | winretransmit hp hr => exact h.command (.inr (.inr (.inr rfl))) hp hr
  | txAlloc hp hr => exact h.alloc hr
  | txSend noTs hp => exact h.send hp noTs
  | poll hr => exact h.poll hr

theorem inOrder (h : RingInv n s) : InOrder s := by
  have hlen : s.ring.txLen ≠ 0 := by
    intro hzero
    have hn := h.txLen
    rw [hzero] at hn
    have hpos := h.pos
    simp at hn
    omega
  refine ⟨h.consumed, ⟨fun i => BitVec.ofNat 32 (i % n), fun i hi hlt => ⟨?_, ?_⟩⟩, ?_⟩
  · have hroom := h.slots.room
    have hread := h.slots.read i hi (by omega)
    rw [List.getElem?_eq_getElem hlt] at hread ⊢
    unfold slotView Ktx.view at hread
    split_ifs at hread
    rw [← hread]
  · intro j hj hjlt hsame
    have hroom := h.slots.room
    have hmod := congrArg BitVec.toNat hsame
    rw [toNat_ofNat_of_lt (h.index_lt (Nat.mod_lt _ h.pos)),
      toNat_ofNat_of_lt (h.index_lt (Nat.mod_lt _ h.pos))] at hmod
    exact Circ.mod_inj_of_lt hmod (by omega) (by omega)
  · intro k hk
    have hhead := h.at_head
    have hknown := h.known k (mem_of_getElem? hk)
    rw [hk] at hhead
    unfold Ktx.view at hhead
    split_ifs at hhead
    exact fastKernelPoll_known hlen (Option.some.inj hhead) hknown

end RingInv

/-- The lengths for which both sides have the same ring: the producer and the consumer wrap at
the same slot, and the length in bytes fits into its register. -/
def SameRing (nicRxLen nicTxLen : U64) : Prop :=
  (nicRxLen.setWidth 32 : U32) = nicTxLen.setWidth 32 ∧ 0 < (nicTxLen.setWidth 32 : U32).toNat ∧
    (nicTxLen.setWidth 32 : U32).toNat < 2 ^ 26

/-- Nothing was written yet. -/
structure RingStart (nicRxLen nicTxLen : U64) (s : RingRun) : Prop where
  ring : RingInit nicRxLen nicTxLen s.ring
  pending : s.pending = none
  written : s.written = []
  consumed : s.consumed = []

variable {nicRxLen nicTxLen : U64}

theorem ringInv_start (hlen : SameRing nicRxLen nicTxLen) (h : RingStart nicRxLen nicTxLen s) :
    RingInv (nicTxLen.setWidth 32 : U32).toNat s := by
  obtain ⟨hsame, hpos, hlt⟩ := hlen
  refine ⟨hpos, hlt, ?_, ?_, ?_, ?_, ?_, ?_, ?_, ?_, ?_⟩
  · rw [h.ring.rxqLen, hsame]
  · rw [h.ring.txqLen]
  · rw [h.ring.txLen]
    simp at hlt ⊢
    omega
  · rw [h.ring.tail, h.written]
    simp
  · rw [h.ring.txHead, h.consumed]
    simp
  · rw [h.written, h.consumed]
    refine ring_empty fun i hi => Ktx.view_of_zero (h.ring.slots _ ?_)
    rw [toNat_ofNat_of_lt (by omega)]
    simp at hi
    omega
  · rw [h.consumed]
    exact nil_prefix
  · rw [h.written]
    simp
  · intro newTail hp
    rw [h.pending] at hp
    cases hp

theorem ringInv_of_reachable {s₀ : RingRun} (h : RingInv n s₀)
    (hrun : ReflTransGen RingStep s₀ s) : RingInv n s := by
  induction hrun with
  | refl => exact h
  | tail _ hstep ih => exact ih.step hstep

theorem kernel_commands_in_order {s₀ : RingRun} (hlen : SameRing nicRxLen nicTxLen)
    (hstart : RingStart nicRxLen nicTxLen s₀) (hrun : ReflTransGen RingStep s₀ s) : InOrder s :=
  (ringInv_of_reachable (ringInv_start hlen hstart) hrun).inOrder

/-- The ring for the configured lengths, in zeroed memory. -/
def zeroRing (nicRxLen nicTxLen : U64) : KernelRing where
  rxqLen := nicRxLen.setWidth 32
  txqLen := nicTxLen.setWidth 32
  tail := 0
  slots _ := ⟨0, .connretran 0⟩
  bufAddr _ := 0
  txLen := (nicTxLen * 64).setWidth 32
  txHead := 0

def zeroRun (nicRxLen nicTxLen : U64) : RingRun := ⟨zeroRing nicRxLen nicTxLen, none, [], []⟩

theorem zeroRun_starts (nicRxLen nicTxLen : U64) :
    RingStart nicRxLen nicTxLen (zeroRun nicRxLen nicTxLen) :=
  ⟨⟨rfl, rfl, rfl, rfl, rfl, fun _ _ => rfl⟩, rfl, rfl, rfl⟩

/-- A command for a flow is written, if there is room. -/
def wroteRun (s : RingRun) (fId : U32) : RingRun :=
  { s with
    ring := (nicifConnectionRetransmit s.ring 1 fId).getD s.ring
    written := s.written ++ [⟨ktxConnretran, .connretran fId⟩] }

/-- The command at the head is consumed. -/
def polledRun (s : RingRun) : RingRun :=
  { s with
    ring := consumeHead s.ring
    consumed := s.consumed ++ [s.ring.slots (headSlot s.ring)] }

/-- Two commands fill the ring, and are consumed. -/
def twoWritten : RingRun := wroteRun (wroteRun (zeroRun 2 2) 7) 8

theorem twoSlots_in_order :
    ReflTransGen RingStep (zeroRun 2 2) (polledRun (polledRun twoWritten)) ∧
      (polledRun (polledRun twoWritten)).consumed =
        [⟨ktxConnretran, .connretran 7⟩, ⟨ktxConnretran, .connretran 8⟩] ∧
      InOrder (polledRun (polledRun twoWritten)) := by
  have hlen : SameRing 2 2 := by
    unfold SameRing
    decide
  have hfirst : RingStep (zeroRun 2 2) (wroteRun (zeroRun 2 2) 7) :=
    @RingStep.retransmit _ _ 1 7 rfl rfl
  have hsecond : RingStep (wroteRun (zeroRun 2 2) 7) twoWritten :=
    @RingStep.retransmit _ _ 1 8 rfl rfl
  have hpoll : RingStep twoWritten (polledRun twoWritten) := .poll rfl
  have hagain : RingStep (polledRun twoWritten) (polledRun (polledRun twoWritten)) := .poll rfl
  have hrun := (((ReflTransGen.single hfirst).tail hsecond).tail hpoll).tail hagain
  exact ⟨hrun, rfl, kernel_commands_in_order hlen (zeroRun_starts 2 2) hrun⟩

/-- The run with a receive queue of one slot and a transmit queue of two. The second command goes
to the first slot again, and the fast path waits for it at the second slot. -/
def shortRun : RingRun := wroteRun (polledRun (wroteRun (zeroRun 1 2) 7)) 8

theorem short_rx_ring_stalls :
    ReflTransGen RingStep (zeroRun 1 2) shortRun ∧ shortRun.written.length = 2 ∧
      shortRun.consumed.length = 1 ∧ fastKernelPoll shortRun.ring = .done none ∧
      ¬ InOrder shortRun := by
  have hwrite : RingStep (zeroRun 1 2) (wroteRun (zeroRun 1 2) 7) :=
    @RingStep.retransmit _ _ 1 7 rfl rfl
  have hpoll : RingStep (wroteRun (zeroRun 1 2) 7) (polledRun (wroteRun (zeroRun 1 2) 7)) :=
    .poll rfl
  have hagain : RingStep (polledRun (wroteRun (zeroRun 1 2) 7)) shortRun :=
    @RingStep.retransmit _ _ 1 8 rfl rfl
  have hrun := ((ReflTransGen.single hwrite).tail hpoll).tail hagain
  have hidle : fastKernelPoll shortRun.ring = .done none := rfl
  refine ⟨hrun, rfl, rfl, hidle, fun hin => ?_⟩
  obtain hdone | ⟨-, habort⟩ := hin.next ⟨ktxConnretran, .connretran 8⟩ rfl
  · cases hidle.symm.trans hdone
  · cases hidle.symm.trans habort

end Tas
