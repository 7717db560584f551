import Tas.FlowState
import Tas.Lib.Outcome

/-! The queue manager of `qman.c`. Each core keeps a list of VMs with bytes to send, and each VM
a list of flows without a rate limit and a skip list of rate limited flows. -/
namespace Tas

open Outcome Function

def flexnicPlVmstNum : ℕ := 6

def flexnicNumQmflowqueues : ℕ := 128 * 1024

def qmanSkiplistLevels : ℕ := 4

def skiplistBits : ℕ := 3

def idxlistInval : U32 := 0xffffffff

/-- `struct flow_queue`. -/
structure FlowQueue where
  /-- Next indices, by level of the skip list. -/
  nextIdxs : ℕ → U32 := fun _ => 0
  nextTs : U32 := 0
  rate : U32 := 0
  avail : U32 := 0
  maxChunk : U16 := 0
  /-- `FLAG_INSKIPLIST` -/
  inSkiplist : Bool := false
  /-- `FLAG_INNOLIMITL` -/
  inNolimitl : Bool := false

/-- `struct flow_qman`. -/
structure FlowQman where
  queues : U32 → FlowQueue
  /-- Heads of the skip list, by level. -/
  headIdx : ℕ → U32
  nolimitHeadIdx : U32
  nolimitTailIdx : U32
  nolimitFirst : Bool

/-- `struct vm_queue`, with the flow container it points to. -/
structure VmQueue where
  id : U32
  nextIdx : U32
  fqman : FlowQman
  avail : U32
  /-- `FLAG_INNOLIMITL` -/
  inNolimitl : Bool
  tsReal : U32
  tsVirtual : U32

/-- `struct vm_qman`. -/
structure VmQman where
  queues : U32 → VmQueue
  headIdx : U32
  tailIdx : U32

/-- What the debug output tells about a skip list: a flow was linked on the levels up to `level`,
or it was taken off. -/
inductive LinkOp
  | insert (idx ts : U32) (level : ℕ)
  | remove (idx ts : U32)
deriving DecidableEq

/-- `struct qman_thread`. -/
structure QmanThread where
  vqman : VmQman
  /-- The numbers `utils_rng_gen32` is going to return. -/
  rng : ℕ → U32
  /-- Debug output so far, of all VMs. -/
  trace : List LinkOp

/-- One VM of a thread, as the functions on its flows see it. -/
structure VmCtx where
  vq : VmQueue
  rng : ℕ → U32
  trace : List LinkOp

def FlowQman.modify (m : FlowQman) (idx : U32) (f : FlowQueue → FlowQueue) : FlowQman :=
  { m with queues := update m.queues idx (f (m.queues idx)) }

/-- The links of level `l`. The list without rate limit uses those of level 0 too. -/
def FlowQman.next (m : FlowQman) (l : ℕ) (idx : U32) : U32 := (m.queues idx).nextIdxs l

def FlowQman.setNext (m : FlowQman) (idx : U32) (l : ℕ) (v : U32) : FlowQman :=
  m.modify idx fun q => { q with nextIdxs := update q.nextIdxs l v }

def VmCtx.flow (s : VmCtx) (idx : U32) : FlowQueue := s.vq.fqman.queues idx

def VmCtx.withFqman (s : VmCtx) (m : FlowQman) : VmCtx := { s with vq := { s.vq with fqman := m } }

def VmQman.modify (m : VmQman) (idx : U32) (f : VmQueue → VmQueue) : VmQman :=
  { m with queues := update m.queues idx (f (m.queues idx)) }

/-! ### Timestamps -/

/-- Relative timestamp, ignoring wrap-arounds, computed with 64 bits. -/
def relTime (curTs tsIn : U32) : ℤ :=
  let ts : U64 := tsIn.setWidth 64
  let cur : U64 := curTs.setWidth 64
  let middle : U64 := 0x80000000
  if cur < middle then
    -- negative interval is split in half
    let start := (cur - middle) &&& 0xffffffff
    if start ≤ ts ∧ ts < 0x100000000 then (ts - start - middle).toInt else (ts - cur).toInt
  else if cur = middle then
    (ts - cur).toInt
  else
    -- higher interval is split
    let stop := ((cur + middle) &&& 0xffffffff) + 1
    if 0 ≤ cur ∧ ts < stop then (ts + (0x100000000 - cur)).toInt else (ts - cur).toInt

def timestampLessthaneq (vq : VmQueue) (a b : U32) : Bool :=
  decide (relTime vq.tsVirtual a ≤ relTime vq.tsVirtual b)

/-- When the flow may send again after `bytes`. -/
def flowQueueNewTs (vq : VmQueue) (q : FlowQueue) (bytes : U32) : U32 :=
  vq.tsVirtual + (bytes.setWidth 64 * 8 * 1000000 / q.rate.setWidth 64 : U64).setWidth 32

/-! ### Activating a flow -/

/-- Add a flow to the list without rate limit. -/
def flowQueueActivateNolimit (m : FlowQman) (idx : U32) : Except Fault FlowQman :=
  if (m.queues idx).inSkiplist ∨ (m.queues idx).inNolimitl then .error .assertion
  else
    let m := (m.modify idx fun q => { q with inNolimitl := true }).setNext idx 0 idxlistInval
    if m.nolimitTailIdx = idxlistInval then
      .ok { m with nolimitHeadIdx := idx, nolimitTailIdx := idx }
    else
      .ok { m.setNext m.nolimitTailIdx 0 idx with nolimitTailIdx := idx }

/-- Index of the lowest bit that is set, counted from 1. -/
def builtinFfs (x : U32) : ℕ :=
  match (List.range 32).find? fun i => x.getLsbD i with
  | some i => i + 1
  | none => 0

/-- Level of a flow in the skip list, from a random number. -/
def flowQueueLevel (x : U32) : ℕ :=
  let x := (((builtinFfs x : ℤ) - 1).tdiv skiplistBits).toNat
  if x < qmanSkiplistLevels then x else qmanSkiplistLevels - 1

/-- A reasonable `next_ts`: not in the past, and not more than if the flow just sent `max_chunk`
at the current rate. -/
def reasonableTs (vq : VmQueue) (q : FlowQueue) : U32 :=
  let maxTs := flowQueueNewTs vq q (q.maxChunk.setWidth 32)
  if timestampLessthaneq vq q.nextTs vq.tsVirtual then vq.tsVirtual
  else if ¬ timestampLessthaneq vq q.nextTs maxTs then maxTs
  else q.nextTs

/-- Walk along level `l` while `le` holds. Returns the last node passed. -/
def skipWalk (m : FlowQman) (le : U32 → Bool) (l : ℕ) : ℕ → U32 → U32 → Except Fault U32
  | 0, _, _ => .error .unfinished
  | fuel + 1, pred, idx =>
    if idx ≠ idxlistInval ∧ le idx then
      skipWalk m le l fuel idx (m.next l idx)
    else .ok pred

/-- Predecessors on the levels below `l`, top-down, given the one above. -/
def skipPreds (fuel : ℕ) (m : FlowQman) (le : U32 → Bool) : ℕ → U32 → Except Fault (ℕ → U32)
  | 0, _ => .ok fun _ => idxlistInval
  | l + 1, pred => do
    let p ← skipWalk m le l fuel pred (if pred ≠ idxlistInval then pred else m.headIdx l)
    let preds ← skipPreds fuel m le l p
    .ok (update preds l p)

/-- Insert a flow into level `l` of the skip list. -/
def skipLink (idx : U32) (preds : ℕ → U32) (level : ℕ) (m : FlowQman) (l : ℕ) : FlowQman :=
  if l > level then m.setNext idx l idxlistInval
  else if preds l ≠ idxlistInval then
    (m.setNext idx l (m.next l (preds l))).setNext (preds l) l idx
  else
    { m.setNext idx l (m.headIdx l) with headIdx := update m.headIdx l idx }

/-- Insert a flow into the levels below `l`, top-down. -/
def skipLinks (idx : U32) (preds : ℕ → U32) (level : ℕ) : ℕ → FlowQman → FlowQman
  | 0, m => m
  | l + 1, m => skipLinks idx preds level l (skipLink idx preds level m l)

/-- Add a flow to the skip list. -/
def flowQueueActivateSkiplist (fuel : ℕ) (s : VmCtx) (idx : U32) : Except Fault VmCtx :=
  if (s.flow idx).inSkiplist ∨ (s.flow idx).inNolimitl then .error .assertion
  else
    let ts := reasonableTs s.vq (s.flow idx)
    let m := s.vq.fqman.modify idx fun q => { q with nextTs := ts }
    let level := flowQueueLevel (s.rng 0)
    do
      let preds ← skipPreds fuel m
        (fun i => timestampLessthaneq s.vq (m.queues i).nextTs ts) qmanSkiplistLevels idxlistInval
      let m := skipLinks idx preds level qmanSkiplistLevels m
      let m := m.modify idx fun q => { q with inSkiplist := true }
      .ok {
        vq := { s.vq with fqman := m }
        rng := fun n => s.rng (n + 1)
        trace := s.trace ++ [.insert idx ts level] }

def flowQueueActivate (fuel : ℕ) (s : VmCtx) (idx : U32) : Except Fault VmCtx :=
  if (s.flow idx).rate = 0 then do
    let m ← flowQueueActivateNolimit s.vq.fqman idx
    .ok (s.withFqman m)
  else
    flowQueueActivateSkiplist fuel s idx

/-! ### Setting a flow's parameters -/

/-- The arguments of `tas_qman_set` for one flow. -/
structure FlowParams where
  rate : U32
  avail : U32
  maxChunk : U16
  flags : U8

/-- The flow's entry after a call with these parameters. -/
def FlowQueue.apply (q : FlowQueue) (a : FlowParams) : FlowQueue :=
  { q with
    rate := if a.flags &&& qmanSetRate ≠ 0 then a.rate else q.rate
    maxChunk := if a.flags &&& qmanSetMaxchunk ≠ 0 then a.maxChunk else q.maxChunk
    avail :=
      if a.flags &&& qmanSetAvail ≠ 0 then a.avail
      else if a.flags &&& qmanAddAvail ≠ 0 then q.avail + a.avail
      else q.avail }

/-- The call sets or adds available bytes. -/
def FlowParams.newAvail (a : FlowParams) : Bool :=
  a.flags &&& qmanSetAvail ≠ 0 || a.flags &&& qmanAddAvail ≠ 0

def flowSetImpl (fuel : ℕ) (s : VmCtx) (idx : U32) (a : FlowParams) : Except Fault VmCtx :=
  let s := s.withFqman (s.vq.fqman.modify idx fun q => q.apply a)
  let q := s.flow idx
  if a.newAvail ∧ q.avail > 0 ∧ ¬ (q.inSkiplist ∨ q.inNolimitl) then flowQueueActivate fuel s idx
  else .ok s

def flowQmanSet (fuel : ℕ) (s : VmCtx) (id : U32) (a : FlowParams) : Except Fault (VmCtx × ℤ) :=
  if id.toNat ≥ flexnicNumQmflowqueues then .ok (s, -1)
  else do
    let s ← flowSetImpl fuel s id a
    .ok (s, 0)

/-- Append the VM `q` to the list of VMs, under the index `idx`. -/
def vmQueueActivate (m : VmQman) (q idx : U32) : Except Fault VmQman :=
  if (m.queues q).inNolimitl then .error .assertion
  else
    let m := m.modify q fun v => { v with inNolimitl := true, nextIdx := idxlistInval }
    if m.tailIdx = idxlistInval then .ok { m with headIdx := idx, tailIdx := idx }
    else
      let m' := m.modify m.tailIdx fun v => { v with nextIdx := idx }
      .ok { m' with tailIdx := idx }

/-- The VM's bytes after a call for the flow `fIdx`. -/
def VmQueue.apply (v : VmQueue) (fIdx : U32) (a : FlowParams) : VmQueue :=
  { v with
    avail :=
      if a.flags &&& qmanSetAvail ≠ 0 then v.avail - (v.fqman.queues fIdx).avail + a.avail
      else if a.flags &&& qmanAddAvail ≠ 0 then v.avail + a.avail
      else v.avail }

def vmSetImpl (m : VmQman) (vIdx fIdx : U32) (a : FlowParams) : Except Fault VmQman :=
  let m := m.modify vIdx fun v => v.apply fIdx a
  if a.newAvail ∧ (m.queues vIdx).avail > 0 ∧ ¬ (m.queues vIdx).inNolimitl then
    vmQueueActivate m vIdx vIdx
  else .ok m

def vmQmanSet (fuel : ℕ) (t : QmanThread) (vmId flowId : U32) (a : FlowParams) :
    Except Fault (QmanThread × ℤ) :=
  if vmId.toNat ≥ flexnicPlVmstNum then .ok (t, -1)
  else do
    let m ← vmSetImpl t.vqman vmId flowId a
    let (s, ret) ← flowQmanSet fuel ⟨m.queues vmId, t.rng, t.trace⟩ flowId a
    .ok (⟨m.modify vmId fun _ => s.vq, s.rng, s.trace⟩, ret)

/-- Change the parameters of a flow. -/
def tasQmanSet (fuel : ℕ) (t : QmanThread) (vmId flowId : U32) (a : FlowParams) :
    Except Fault (QmanThread × ℤ) :=
  vmQmanSet fuel t vmId flowId a

/-! ### Polling the flows of a VM -/

/-- An entry of the arrays that a poll fills. -/
structure QmanEntry where
  vmId : U32
  qId : U32
  bytes : U16
deriving DecidableEq

/-- `struct skiplist_fstate`. -/
structure SkiplistFstate where
  curTs : U32
  rateLimited : Bool
  origNum : ℕ

/-- State of a poll of one VM's flows. -/
structure FlowPoll extends VmCtx where
  skpl : SkiplistFstate
  out : List QmanEntry
  bytesSum : U32

/-- Bytes a flow sends when it fires. -/
def FlowQueue.chunk (q : FlowQueue) : U32 :=
  if q.avail ≤ q.maxChunk.setWidth 32 then q.avail else q.maxChunk.setWidth 32

/-- The flow's entry when it fires. -/
def FlowQueue.fired (vq : VmQueue) (q : FlowQueue) : FlowQueue :=
  { q with
    avail := q.avail - q.chunk
    nextTs := if q.rate > 0 then flowQueueNewTs vq q q.chunk else q.nextTs }

/-- Activate a flow that has bytes left. -/
def activateLeft (fuel : ℕ) (c : VmCtx) (idx : U32) : Except Fault VmCtx :=
  if (c.flow idx).avail > 0 then flowQueueActivate fuel c idx else .ok c

def flowQueueFire (fuel : ℕ) (s : FlowPoll) (idx : U32) : Except Fault FlowPoll :=
  let q := s.flow idx
  if q.avail = 0 then .error .assertion
  else
    let c := s.withFqman (s.vq.fqman.modify idx fun q => q.fired s.vq)
    do
      let c ← activateLeft fuel c idx
      .ok { c with
        skpl := s.skpl
        out := s.out ++ [⟨s.vq.id, idx, q.chunk.setWidth 16⟩]
        bytesSum := s.bytesSum + q.chunk }

/-- Take the first flow off the list without rate limit. -/
def nolimitPop (m : FlowQman) : FlowQman :=
  let idx := m.nolimitHeadIdx
  let next := m.next 0 idx
  { m.modify idx fun q => { q with inNolimitl := false } with
    nolimitHeadIdx := next
    nolimitTailIdx := if next = idxlistInval then idxlistInval else m.nolimitTailIdx }

/-- After the first flow was taken off the list without rate limit. -/
def FlowPoll.nolimitPopped (s : FlowPoll) : FlowPoll :=
  { s with toVmCtx := s.withFqman (nolimitPop s.vq.fqman) }

/-- Poll the flows without rate limit until `num` entries are found, `cnt` of which exist. -/
def flowPollNolimit (fuel num : ℕ) : ℕ → ℕ → FlowPoll → Except Fault (ℕ × FlowPoll)
  | 0, _, _ => .error .unfinished
  | n + 1, cnt, s =>
    if cnt < num ∧ s.vq.fqman.nolimitHeadIdx ≠ idxlistInval then
      let idx := s.vq.fqman.nolimitHeadIdx
      if (s.nolimitPopped.flow idx).avail > 0 then do
        let s ← flowQueueFire fuel s.nolimitPopped idx
        flowPollNolimit fuel num n (cnt + 1) s
      else
        flowPollNolimit fuel num n cnt s.nolimitPopped
    else .ok (cnt, s)

/-- Take `idx` off the levels from `l` on whose head it is, `n` levels at most. -/
def skipUnlink (q : FlowQueue) (idx : U32) : ℕ → ℕ → (ℕ → U32) → ℕ → U32
  | 0, _, head => head
  | n + 1, l, head =>
    if head l = idx then skipUnlink q idx n (l + 1) (update head l (q.nextIdxs l))
    else head

/-- Take the first flow off the skip list and advance the virtual timestamp to its own. -/
def skipPop (s : VmCtx) : VmCtx :=
  let m := s.vq.fqman
  let idx := m.headIdx 0
  let q := m.queues idx
  let m' := m.modify idx fun q => { q with inSkiplist := false }
  { s with
    vq := { s.vq with
      fqman := { m' with headIdx := skipUnlink q idx qmanSkiplistLevels 0 m.headIdx }
      tsVirtual := q.nextTs }
    trace := s.trace ++ [.remove idx q.nextTs] }

/-- After the first flow was taken off the skip list. -/
def FlowPoll.skipPopped (s : FlowPoll) : FlowPoll := { s with toVmCtx := skipPop s.toVmCtx }

/-- Set the virtual timestamp. -/
def FlowPoll.advance (s : FlowPoll) (ts : U32) : FlowPoll :=
  { s with vq := { s.vq with tsVirtual := ts } }

/-- The loop of `flow_poll_skiplist`. -/
def skiplistLoop (fuel num : ℕ) (maxVts : U32) : ℕ → ℕ → FlowPoll → Except Fault (ℕ × FlowPoll)
  | 0, _, _ => .error .unfinished
  | n + 1, cnt, s =>
    if cnt < num then
      let idx := s.vq.fqman.headIdx 0
      if idx = idxlistInval then
        .ok (cnt, s.advance maxVts)
      else if ¬ timestampLessthaneq s.vq (s.flow idx).nextTs maxVts then
        .ok (cnt, { s.advance maxVts with skpl := { s.skpl with rateLimited := true } })
      else if ¬ (s.flow idx).inSkiplist then
        .error .assertion
      else
        if (s.skipPopped.flow idx).avail > 0 then do
          let s ← flowQueueFire fuel s.skipPopped idx
          skiplistLoop fuel num maxVts n (cnt + 1) s
        else
          skiplistLoop fuel num maxVts n cnt s.skipPopped
    else .ok (cnt, s)

/-- Virtual timestamp after a poll that found all the entries asked for. -/
def limitTs (vq : VmQueue) (maxVts : U32) : U32 :=
  let idx := vq.fqman.headIdx 0
  if idx ≠ idxlistInval ∧ timestampLessthaneq vq (vq.fqman.queues idx).nextTs maxVts then
    (vq.fqman.queues idx).nextTs
  else maxVts

/-- Maximum virtual timestamp that can be reached. -/
def FlowPoll.maxVts (s : FlowPoll) : U32 := s.vq.tsVirtual + (s.skpl.curTs - s.vq.tsReal)

/-- Poll the rate limited flows. -/
def flowPollSkiplist (fuel num : ℕ) (s : FlowPoll) : Except Fault (ℕ × FlowPoll) := do
  let (cnt, s') ← skiplistLoop fuel num s.maxVts fuel 0 s
  let s' := if cnt = s'.skpl.origNum then s'.advance (limitTs s'.vq s.maxVts) else s'
  .ok (cnt, { s' with vq := { s'.vq with tsReal := s'.skpl.curTs } })

/-- The other list comes first next time. -/
def FlowPoll.alternate (s : FlowPoll) : FlowPoll :=
  { s with toVmCtx :=
      s.withFqman { s.vq.fqman with nolimitFirst := !s.vq.fqman.nolimitFirst } }

/-- Poll both lists, alternating the order between them. -/
def flowQmanPoll (fuel num : ℕ) (s : FlowPoll) : Except Fault (ℕ × FlowPoll) :=
  if s.vq.fqman.nolimitFirst then do
    let (x, s) ← flowPollNolimit fuel num fuel 0 s
    let (y, s) ← flowPollSkiplist fuel (num - x) s
    .ok (x + y, s.alternate)
  else do
    let (x, s) ← flowPollSkiplist fuel num s
    let (y, s) ← flowPollNolimit fuel (num - x) fuel 0 s
    .ok (x + y, s.alternate)

/-! ### Polling the VMs -/

/-- State of a poll. -/
structure VmPoll extends QmanThread where
  skpl : SkiplistFstate
  out : List QmanEntry
  cnt : ℕ
  /-- The first VM that was rate limited. -/
  rvq : Option U32
  /-- VMs out of budget. -/
  oobVms : List U32
  vmCounters : U32 → ℤ
  countersTotal : ℤ

/-- Poll the flows of the VM `idx`. Also returns the bytes. -/
def VmPoll.pollFlows (fuel num : ℕ) (s : VmPoll) (idx : U32) : Except Fault (VmPoll × U32) := do
  let (x, p) ← flowQmanPoll fuel (num - s.cnt) {
    vq := s.vqman.queues idx
    rng := s.rng
    trace := s.trace
    skpl := { s.skpl with rateLimited := false }
    out := s.out
    bytesSum := 0 }
  .ok ({ s with
    vqman := s.vqman.modify idx fun _ => p.vq
    rng := p.rng
    trace := p.trace
    skpl := p.skpl
    out := p.out
    cnt := s.cnt + x }, p.bytesSum)

def vmQueueFire (m : VmQman) (q idx bytesSum : U32) : Except Fault VmQman :=
  if (m.queues q).avail = 0 then .error .assertion
  else
    let m := m.modify q fun v => { v with avail := v.avail - bytesSum }
    if (m.queues q).avail > 0 then vmQueueActivate m q idx else .ok m

/-- Take the first VM off the list. -/
def vmPop (m : VmQman) : VmQman :=
  let idx := m.headIdx
  let next := (m.queues idx).nextIdx
  { m.modify idx fun v => { v with inNolimitl := false } with
    headIdx := next
    tailIdx := if next = idxlistInval then idxlistInval else m.tailIdx }

/-- After a VM in budget was polled: charge its bytes, and remember the first one that was rate
limited. -/
def VmPoll.fire (s : VmPoll) (idx bytesSum : U32) : Except Fault VmPoll :=
  if (s.vqman.queues idx).avail > 0 then do
    let m ← vmQueueFire s.vqman idx idx bytesSum
    .ok { s with
      vqman := m
      rvq := if s.skpl.rateLimited ∧ s.rvq = none then some idx else s.rvq }
  else .ok s

/-- Serve a VM that is in budget. -/
def VmPoll.serve (fuel num : ℕ) (s : VmPoll) (idx : U32) : Except Fault VmPoll := do
  let (s, bytesSum) ← s.pollFlows fuel num idx
  let s ← s.fire idx bytesSum
  .ok { s with
    vmCounters := update s.vmCounters idx (s.vmCounters idx + bytesSum.toInt)
    countersTotal := s.countersTotal + bytesSum.toInt }

/-- The first loop of `vm_qman_poll`. -/
def vmLoop (fuel num : ℕ) (budgets : U32 → ℤ) : ℕ → VmPoll → Except Fault VmPoll
  | 0, _ => .error .unfinished
  | n + 1, s =>
    if s.cnt < num ∧ s.vqman.headIdx ≠ idxlistInval then
      let idx := s.vqman.headIdx
      if s.rvq = some idx then .ok s
      else
        let s := { s with vqman := vmPop s.vqman }
        if budgets idx > 0 then do
          let s ← VmPoll.serve fuel num { s with skpl := { s.skpl with origNum := num } } idx
          vmLoop fuel num budgets n s
        else
          vmLoop fuel num budgets n
            { s with oobVms := if (s.vqman.queues idx).avail > 0 then s.oobVms ++ [idx]
                else s.oobVms }
    else .ok s

/-- Serve a VM that is out of budget. -/
def VmPoll.serveOob (fuel num : ℕ) (s : VmPoll) (q : U32) : Except Fault VmPoll := do
  let (s, bytesSum) ← s.pollFlows fuel num q
  if (s.vqman.queues q).avail > 0 then do
    let m ← vmQueueFire s.vqman q (s.vqman.queues q).id bytesSum
    .ok { s with vqman := m }
  else .ok s

/-- The second loop of `vm_qman_poll`, over the VMs out of budget. They are served only if the
batch was empty. -/
def oobLoop (fuel num tempCnt : ℕ) : List U32 → VmPoll → Except Fault VmPoll
  | [], s => .ok s
  | q :: qs, s =>
    let s := { s with vqman := s.vqman.modify q fun v => { v with inNolimitl := false } }
    if s.cnt < num ∧ tempCnt = 0 then do
      let s ← s.serveOob fuel num q
      oobLoop fuel num tempCnt qs s
    else do
      let m ← vmQueueActivate s.vqman q (s.vqman.queues q).id
      oobLoop fuel num tempCnt qs { s with vqman := m }

/-- What a poll reads besides the thread: the budgets, the clock, and what the stack held where
`orig_num` is. -/
structure PollEnv where
  budgets : U32 → ℤ
  timestamp : U32
  origNum : ℕ

def vmQmanPoll (fuel : ℕ) (env : PollEnv) (num : ℕ) (t : QmanThread) (vmCounters : U32 → ℤ)
    (countersTotal : ℤ) : Except Fault VmPoll := do
  let s ← vmLoop fuel num env.budgets fuel {
    t with
    skpl := ⟨env.timestamp, false, env.origNum⟩
    out := []
    cnt := 0
    rvq := none
    oobVms := []
    vmCounters := vmCounters
    countersTotal := countersTotal }
  oobLoop fuel num s.cnt s.oobVms s

/-- Poll for up to `num` flows that may send. -/
def tasQmanPoll (fuel : ℕ) (env : PollEnv) (num : ℕ) (t : QmanThread) (vmCounters : U32 → ℤ)
    (countersTotal : ℤ) : Except Fault VmPoll :=
  vmQmanPoll fuel env num t vmCounters countersTotal

/-! ### Initial state -/

/-- Allocated memory for `nolimit_first` is not cleared. -/
def flowcontInit (nolimitFirst : Bool) : FlowQman where
  queues := fun _ => {}
  headIdx := fun _ => idxlistInval
  nolimitHeadIdx := idxlistInval
  nolimitTailIdx := idxlistInval
  nolimitFirst := nolimitFirst

def vmcontInit (timestamp : U32 → U32) (nolimitFirst : U32 → Bool) : VmQman where
  queues := fun i => {
    id := i
    nextIdx := 0
    fqman := flowcontInit (nolimitFirst i)
    avail := 0
    inNolimitl := false
    tsReal := timestamp i
    tsVirtual := 0 }
  headIdx := idxlistInval
  tailIdx := idxlistInval

def tasQmanThreadInit (timestamp : U32 → U32) (nolimitFirst : U32 → Bool) (rng : ℕ → U32) :
    QmanThread :=
  ⟨vmcontInit timestamp nolimitFirst, rng, []⟩

end Tas
