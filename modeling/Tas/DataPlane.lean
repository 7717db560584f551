import Tas.Bufcache
import Tas.Gre
import Tas.KernelRing

/-! The data plane loop of a fast path core, `fastemu.c`: how its polls use network buffers. Flow
states, application queues and the kernel queue are shared with other cores and with the slow path,
so each call finds there whatever its input says. -/
namespace Tas

open Circ Cyclic Outcome List

variable {H : Type*} [DecidableEq H] {k : ℕ}

/-! ### The driver -/

/-- A received packet as `network_buf_bufoff` finds it, depending on how the fast path was built. -/
inductive Frame
  | plain (p : RxPacket)
  | gre (p : GrePacket)

/-- A received buffer, with the flow that the lookup finds, its VM, whether the headers pass the
checks of `fast_flows_packet_parse`, and the state of the flow when the packet is processed. -/
structure Received (H : Type*) where
  handle : H
  frame : Frame
  flowId : Option U32
  vmId : U16
  parses : Bool
  fs : FlowState

/-- The driver: the buffers it receives, those it allocates, and how many of the queued ones it
accepts for transmission. It hands out only what it has. -/
structure Driver (H : Type*) [DecidableEq H] where
  recv : Dataplane H → ℕ → List (Received H)
  alloc : Dataplane H → ℕ → List H
  send : Dataplane H → ℕ
  recv_ok : ∀ c n, HandsOut c n ((recv c n).map Received.handle)
  alloc_ok : ∀ c n, HandsOut c n (alloc c n)
  send_le : ∀ c, send c ≤ c.txNum

/-- Buffers that fit into the transmit buffer, one batch at most. -/
def batchRoom (c : Dataplane H) : ℕ := min batchSize (txbufSize - c.txNum)

/-! ### Received packets -/

/-- What `fast_flows_packet` or `fast_flows_packet_gre` does besides the flow state. -/
structure FrameOut where
  ret : ℤ
  arx : Option Arx
  acks : Bool

def Frame.process (env : FpEnv) (fs : FlowState) (flowId : U32) (spendBudget : Bool) (ts : U32) :
    Frame → FrameOut
  | .plain p =>
    let out := (fastFlowsPacket env fs flowId p spendBudget ts).2
    ⟨out.ret, out.arx, out.ack.isSome⟩
  | .gre p =>
    let out := (fastFlowsPacketGre env fs flowId p spendBudget ts).2
    ⟨out.ret, out.arx, out.ack.isSome⟩

/-- The notification of a packet, if there is one. -/
def notifyArx (c : Dataplane H) : Option Arx → Except Stop (Dataplane H)
  | some a => arxCacheAdd c a
  | none => .ok c

/-- The notification and the acknowledgement of a packet; the latter reuses its buffer. -/
def FrameOut.apply (o : FrameOut) (c : Dataplane H) (nbh : H) : Except Stop (Dataplane H) := do
  let c ← notifyArx c o.arx
  if o.acks then txSend c nbh else .ok c

/-- What `poll_rx` reads besides the packets: the budgets of the VMs, the rest of the core's
context, the clock, and the queues of the applications that have no room. -/
structure RxInput where
  budget : U16 → ℤ
  env : U16 → FpEnv
  ts : U32
  full : ℕ → Bool

/-- `rx_spend_budget`: the packet's flow was found, and its VM has budget. -/
def RxInput.spends (inp : RxInput) (r : Received H) : Bool :=
  r.flowId.isSome && decide (inp.budget r.vmId > 0)

/-- Process one packet. Also says whether its buffer is still to be freed. A packet without flow
state is copied to the kernel queue. -/
def rxPacket (inp : RxInput) (hasBudgeted : Bool) (c : Dataplane H) (r : Received H) :
    Except Stop (Dataplane H × Bool) :=
  let spends := inp.spends r
  -- packets of VMs without budget are dropped if another one has budget
  if hasBudgeted && r.flowId.isSome && !spends then .ok (c, true)
  else
    match if r.parses then r.flowId else none with
    | some flowId => do
      let o := r.frame.process (inp.env r.fs.vmId) r.fs flowId spends inp.ts
      let c ← o.apply c r.handle
      .ok (c, !decide (o.ret > 0))
    | none => .ok (c, true)

/-- The loop over the packets of a batch, with the handles to free. -/
def rxLoop (inp : RxInput) (hasBudgeted : Bool) :
    List (Received H) → Dataplane H × List H → Except Stop (Dataplane H × List H)
  | [], s => .ok s
  | r :: rs, (c, free) => do
    let (c, frees) ← rxPacket inp hasBudgeted c r
    rxLoop inp hasBudgeted rs (c, if frees then free ++ [r.handle] else free)

/-- Receive and process a batch of packets. -/
def pollRx (d : Driver H) (inp : RxInput) (c : Dataplane H) : Except Stop (Dataplane H) :=
  match d.recv c (batchRoom c) with
  | [] => .ok c
  | r :: rs => do
    let c := { c with taken := (r :: rs).map Received.handle ++ c.taken }
    let (c, free) ← rxLoop inp ((r :: rs).any inp.spends) (r :: rs) (c, [])
    let c ← arxCacheFlush c inp.full
    .ok (free.foldl bufcacheFree c)

/-! ### Segments from the cache -/

/-- A loop of calls that may emit a segment in the next handle: `uses` says which calls do. Also
returns the number of handles used. -/
def useHandles (handles : ℕ → H) : List Bool → ℕ → Dataplane H → Except Stop (Dataplane H × ℕ)
  | [], off, c => .ok (c, off)
  | use :: uses, off, c =>
    if use then do
      let c ← txSend c (handles off)
      useHandles handles uses (off + 1) c
    else useHandles handles uses off c

/-- What a call of `fast_flows_qman` reads. -/
structure QmanRead where
  env : FpEnv
  newCore : U16
  fs : FlowState
  txbuf : ℕ → Byte

/-- `fast_flows_qman` returns zero: it emitted a segment. -/
def QmanRead.uses (core : U16) (ts : U32) (r : QmanRead) : Bool :=
  match (fastFlowsQman r.env core r.newCore r.fs r.txbuf ts).2 with
  | .segment _ => true
  | _ => false

/-- What `poll_qman` reads: the core's queue manager, and for each entry that it returns what
`fast_flows_qman` finds. -/
structure QmanInput where
  fuel : ℕ
  core : U16
  ts : U32
  thread : QmanThread
  env : PollEnv
  vmCounters : U32 → ℤ
  countersTotal : ℤ
  reads : ℕ → QmanEntry → QmanRead

/-- A fault in a part that does not handle buffers. -/
def Stop.ofFault : Fault → Stop
  | .assertion => .aborted
  | .unfinished => .unfinished

/-- Send segments of the flows that the queue manager chooses. -/
def pollQman (d : Driver H) (inp : QmanInput) (c : Dataplane H) : Except Stop (Dataplane H) :=
  let (c, max) := bufcachePrealloc d.alloc c (batchRoom c)
  match tasQmanPoll inp.fuel inp.env max inp.thread inp.vmCounters inp.countersTotal with
  | .error e => .error (.ofFault e)
  | .ok s =>
    if s.cnt = 0 then .ok c
    else do
      let handles := fun i => c.bufcacheHandles (c.bufcacheHead + i)
      let uses := (s.out.mapIdx inp.reads).map (QmanRead.uses inp.core inp.ts)
      let (c, off) ← useHandles handles uses 0 c
      bufcacheAlloc c off

/-- What a call of `fast_appctx_poll_bump` reads. -/
structure BumpRead where
  env : U16 → FpEnv
  flowst : U32 → FlowState
  atx : AtxEntry

/-- `fast_appctx_poll_bump` returns zero: it emitted a window update. -/
def BumpRead.uses (ts : U32) (r : BumpRead) : Bool :=
  (fastAppctxPollBump r.env r.flowst r.atx ts).2.tx.isSome

/-- What `poll_queues` reads: the polling state of the core, and the entries it fetches. -/
structure QueuesInput where
  fuel : ℕ
  ts : U32
  polling : Polling
  registry : Registry
  fetched : ℕ → Bool
  budget : U32 → ℤ
  reads : ℕ → BumpRead

/-- The number of entries that `poll_all_queues` or `poll_active_queues` fetches. -/
def QueuesInput.fetch (inp : QueuesInput) (max : ℕ) : Except Fault ℕ :=
  let round : RoundInput := ⟨inp.fetched, inp.budget, max⟩
  let p := inp.polling
  if p.pollRounds % maxPollRounds = 0 ∨ p.actHead = idxlistInval then
    .ok (fastAppctxPollFetchAll round inp.registry ⟨p, 0, 0, [], 0⟩).k
  else do
    let s ← fastAppctxPollFetchActive round inp.fuel ⟨p, 0, 0, [], 0⟩
    .ok s.k

/-- Apply the updates that applications have posted. -/
def pollQueuesBufs (d : Driver H) (inp : QueuesInput) (c : Dataplane H) :
    Except Stop (Dataplane H) :=
  let (c, max) := bufcachePrealloc d.alloc c (batchRoom c)
  match inp.fetch max with
  | .error e => .error (.ofFault e)
  | .ok k => do
    let handles := fun i => c.bufcacheHandles (c.bufcacheHead + i)
    let uses := (List.range k).map fun i => (inp.reads i).uses inp.ts
    let (c, numBufs) ← useHandles handles uses 0 c
    bufcacheAlloc c numBufs

/-- The return value of `fast_kernel_poll` for a command. A retransmission does not use the
buffer, a packet and a window update do. -/
def Ktx.ret (k : Ktx) : ℤ := if k.type = ktxConnretran then 1 else 0

/-- The loop of `poll_kernel`. `rings i` is the kernel queue at call `i`. -/
def kernelLoop (handles : ℕ → H) (rings : ℕ → KernelRing) (max : ℕ) :
    ℕ → ℕ → ℕ → Dataplane H → Except Stop (Dataplane H × ℕ)
  | 0, _, _, _ => .error .unfinished
  | fuel + 1, call, k, c =>
    if k < max then
      match fastKernelPoll (rings call) with
      | .abort => .error .aborted
      | .done none => .ok (c, k)
      | .done (some (_, ktx)) =>
        if ktx.ret = 0 then do
          let c ← txSend c (handles k)
          kernelLoop handles rings max fuel (call + 1) (k + 1) c
        else kernelLoop handles rings max fuel (call + 1) k c
    else .ok (c, k)

/-- Process commands of the slow path. -/
def pollKernel (d : Driver H) (fuel : ℕ) (rings : ℕ → KernelRing) (c : Dataplane H) :
    Except Stop (Dataplane H) := do
  let max := batchRoom c
  let (c, max) := bufcachePrealloc d.alloc c (if max > 8 then 8 else max)
  let (c, k) ← kernelLoop (fun i => c.bufcacheHandles (c.bufcacheHead + i)) rings max fuel 0 0 c
  bufcacheAlloc c k

/-- One part of an iteration of `dataplane_loop`. -/
inductive LoopPart
  | rx (inp : RxInput)
  | qman (inp : QmanInput)
  | queues (inp : QueuesInput)
  | kernel (fuel : ℕ) (rings : ℕ → KernelRing)
  | flush

def LoopPart.run (d : Driver H) (c : Dataplane H) : LoopPart → Except Stop (Dataplane H)
  | .rx inp => pollRx d inp c
  | .qman inp => pollQman d inp c
  | .queues inp => pollQueuesBufs d inp c
  | .kernel fuel rings => pollKernel d fuel rings c
  | .flush => .ok (txFlush c (d.send c))

/-- The parts run in any order, and the driver does anything it may do. -/
def LoopStep (c c' : Dataplane H) : Prop :=
  ∃ (d : Driver H) (part : LoopPart), part.run d c = .ok c'

/-- A context that was just initialised: the whole structure is zeroed, and no handle is in it. -/
structure FreshDataplane (c : Dataplane H) : Prop where
  bufcacheHead : c.bufcacheHead = 0
  bufcacheNum : c.bufcacheNum = 0
  txNum : c.txNum = 0
  arxCache : c.arxCache = []
  logs : c.taken = [] ∧ c.freed = [] ∧ c.sent = [] ∧ c.emitted = []

/-! ### The batch is within the limit -/

section Limits

variable {fuel num n cnt : ℕ} {idx : U32} {cnt' : ℕ} {s s' : FlowPoll}

/-- A poll that had found `cnt` entries found `cnt'`, at most `num`, and appended the new ones. -/
structure Within (num cnt cnt' : ℕ) (out out' : List QmanEntry) : Prop where
  le : cnt' ≤ num
  length : out'.length + cnt = out.length + cnt'

theorem flowQueueFire_length
    (h : flowQueueFire fuel s idx = .ok s') : s'.out.length = s.out.length + 1 := by
  unfold flowQueueFire at h
  dsimp only at h
  split_ifs at h
  obtain ⟨c, -, h⟩ := of_bind_ok h
  cases h
  simp

theorem flowPollNolimit_within (hle : cnt ≤ num)
    (h : flowPollNolimit fuel num n cnt s = .ok (cnt', s')) : Within num cnt cnt' s.out s'.out := by
  induction n generalizing cnt s with
  | zero => cases h
  | succ n ih =>
    unfold flowPollNolimit at h
    dsimp only at h
    split_ifs at h with hmore hbytes
    · obtain ⟨s₁, hfire, h⟩ := of_bind_ok h
      have hlen := flowQueueFire_length hfire
      have hrec := ih (by omega) h
      have hout : s.nolimitPopped.out = s.out := rfl
      rw [hout] at hlen
      exact ⟨hrec.le, by have := hrec.length; omega⟩
    · have hrec := ih hle h
      exact hrec
    · cases h
      exact ⟨hle, rfl⟩

theorem skiplistLoop_within {maxVts : U32} (hle : cnt ≤ num)
    (h : skiplistLoop fuel num maxVts n cnt s = .ok (cnt', s')) :
    Within num cnt cnt' s.out s'.out := by
  induction n generalizing cnt s with
  | zero => cases h
  | succ n ih =>
    unfold skiplistLoop at h
    dsimp only at h
    split_ifs at h with hmore hempty hlate hoff hbytes
    · cases h
      exact ⟨hle, rfl⟩
    · obtain ⟨s₁, hfire, h⟩ := of_bind_ok h
      have hlen := flowQueueFire_length hfire
      have hrec := ih (by omega) h
      have hout : s.skipPopped.out = s.out := rfl
      rw [hout] at hlen
      exact ⟨hrec.le, by have := hrec.length; omega⟩
    · have hrec := ih hle h
      exact hrec
    all_goals
      cases h
      exact ⟨hle, rfl⟩

theorem flowPollSkiplist_within
    (h : flowPollSkiplist fuel num s = .ok (cnt', s')) : Within num 0 cnt' s.out s'.out := by
  obtain ⟨⟨cnt, s₁⟩, hloop, h⟩ := of_bind_ok h
  have hrec := skiplistLoop_within (Nat.zero_le _) hloop
  cases h
  refine ⟨hrec.le, ?_⟩
  split_ifs <;> exact hrec.length

theorem flowQmanPoll_within
    (h : flowQmanPoll fuel num s = .ok (cnt', s')) : Within num 0 cnt' s.out s'.out := by
  unfold flowQmanPoll at h
  split_ifs at h
  · obtain ⟨⟨x, s₁⟩, hx, h⟩ := of_bind_ok h
    obtain ⟨⟨y, s₂⟩, hy, h⟩ := of_bind_ok h
    have hx' := flowPollNolimit_within (Nat.zero_le _) hx
    have hy' := flowPollSkiplist_within hy
    cases h
    have h₁ := hx'.le
    have h₂ := hy'.le
    have h₃ := hx'.length
    have h₄ := hy'.length
    exact ⟨by omega, by simp only [FlowPoll.alternate]; omega⟩
  · obtain ⟨⟨x, s₁⟩, hx, h⟩ := of_bind_ok h
    obtain ⟨⟨y, s₂⟩, hy, h⟩ := of_bind_ok h
    have hx' := flowPollSkiplist_within hx
    have hy' := flowPollNolimit_within (Nat.zero_le _) hy
    cases h
    have h₁ := hx'.le
    have h₂ := hy'.le
    have h₃ := hx'.length
    have h₄ := hy'.length
    exact ⟨by omega, by simp only [FlowPoll.alternate]; omega⟩

/-- As many entries as counted, and not too many. -/
def VmPoll.Within (num : ℕ) (s : VmPoll) : Prop := s.cnt ≤ num ∧ s.out.length = s.cnt

variable {s s' : VmPoll}

theorem pollFlows_within {b : U32} (hs : s.Within num)
    (h : s.pollFlows fuel num idx = .ok (s', b)) : s'.Within num := by
  obtain ⟨⟨x, p⟩, hpoll, h⟩ := of_bind_ok h
  have hw := flowQmanPoll_within hpoll
  have hle := hw.le
  have hlen := hw.length
  cases h
  obtain ⟨hcnt, hout⟩ := hs
  dsimp only at hlen
  exact ⟨by dsimp only; omega, by dsimp only; omega⟩

theorem serve_within (hs : s.Within num) (h : s.serve fuel num idx = .ok s') : s'.Within num := by
  obtain ⟨⟨s₁, b⟩, hpoll, h⟩ := of_bind_ok h
  obtain ⟨s₂, hfire, h⟩ := of_bind_ok h
  have h₁ := pollFlows_within hs hpoll
  have h₂ : s₂.Within num := by
    unfold VmPoll.fire at hfire
    split at hfire
    · obtain ⟨m, -, hfire⟩ := of_bind_ok hfire
      cases hfire
      exact h₁
    · cases hfire
      exact h₁
  cases h
  exact h₂

theorem vmLoop_within {budgets : U32 → ℤ} (hs : s.Within num)
    (h : vmLoop fuel num budgets n s = .ok s') : s'.Within num := by
  induction n generalizing s with
  | zero => cases h
  | succ n ih =>
    unfold vmLoop at h
    dsimp only at h
    split_ifs at h with hmore hlast hbudget
    · cases h
      exact hs
    · obtain ⟨s₁, hserve, h⟩ := of_bind_ok h
      refine ih (serve_within ?_ hserve) h
      exact hs
    · refine ih ?_ h
      exact hs
    · refine ih ?_ h
      exact hs
    · cases h
      exact hs

theorem serveOob_within {q : U32} (hs : s.Within num)
    (h : s.serveOob fuel num q = .ok s') : s'.Within num := by
  obtain ⟨⟨s₁, b⟩, hpoll, h⟩ := of_bind_ok h
  have h₁ := pollFlows_within hs hpoll
  dsimp only at h
  split_ifs at h
  · obtain ⟨m, -, h⟩ := of_bind_ok h
    cases h
    exact h₁
  · cases h
    exact h₁

theorem oobLoop_within {tempCnt : ℕ} {qs : List U32} (hs : s.Within num)
    (h : oobLoop fuel num tempCnt qs s = .ok s') : s'.Within num := by
  induction qs generalizing s with
  | nil =>
    cases h
    exact hs
  | cons q qs ih =>
    unfold oobLoop at h
    dsimp only at h
    split_ifs at h
    · obtain ⟨s₁, hserve, h⟩ := of_bind_ok h
      refine ih (serveOob_within ?_ hserve) h
      exact hs
    · obtain ⟨m, -, h⟩ := of_bind_ok h
      refine ih ?_ h
      exact hs

theorem tasQmanPoll_within {env : PollEnv} {t : QmanThread} {vmCounters : U32 → ℤ}
    {countersTotal : ℤ} {s : VmPoll}
    (h : tasQmanPoll fuel env num t vmCounters countersTotal = .ok s) : s.Within num := by
  obtain ⟨s₁, hloop, h⟩ := of_bind_ok h
  exact oobLoop_within (vmLoop_within ⟨Nat.zero_le _, rfl⟩ hloop) h

/-! The number of entries fetched from the queues of the applications. -/

variable {inp : RoundInput} {reg : Registry} {s s' : PollRound} {v c : U32} {vs : List U32}

theorem fetchActiveCtxLoop_le (hs : s.k ≤ inp.max) :
    (fetchActiveCtxLoop inp v c n s).k ≤ inp.max := by
  induction n generalizing s with
  | zero => exact hs
  | succ n ih =>
    unfold fetchActiveCtxLoop
    split_ifs with hmore hfetched
    · exact ih hmore
    · exact hs
    · exact hs

theorem fetchActiveVm_le (hs : s.k ≤ inp.max)
    (h : fastAppctxPollFetchActiveVm inp fuel v s = .ok s') : s'.k ≤ inp.max := by
  obtain ⟨s₁, hring, h⟩ := of_bind_ok h
  have h₁ : s₁.k ≤ inp.max := by
    refine doRing_keeps (P := fun s : PollRound => s.k ≤ inp.max) ?_ hs hring
    rintro c s s' hle hbody
    cases hbody
    exact fetchActiveCtxLoop_le hle
  cases h
  exact h₁

theorem fetchActiveOob_le (hs : s.k ≤ inp.max)
    (h : fetchActiveOob inp fuel vs s = .ok s') : s'.k ≤ inp.max := by
  induction vs generalizing s with
  | nil =>
    cases h
    exact hs
  | cons v vs ih =>
    unfold fetchActiveOob at h
    split_ifs at h
    · obtain ⟨s₁, hvm, h⟩ := of_bind_ok h
      exact ih (fetchActiveVm_le hs hvm) h
    · exact ih hs h

theorem fetchActive_le (inp : RoundInput) (hs : s.k ≤ inp.max)
    (h : fastAppctxPollFetchActive inp fuel s = .ok s') : s'.k ≤ inp.max := by
  obtain ⟨⟨s₁, oob⟩, hring, h⟩ := of_bind_ok h
  have h₁ : s₁.k ≤ inp.max := by
    refine doRing_keeps (P := fun s : PollRound × List U32 => s.1.k ≤ inp.max) ?_ hs hring
    rintro v s s' hle hbody
    split_ifs at hbody
    · obtain ⟨s₂, hvm, hbody⟩ := of_bind_ok hbody
      cases hbody
      exact fetchActiveVm_le hle hvm
    · cases hbody
      exact hle
  dsimp only at h
  split_ifs at h
  · exact fetchActiveOob_le h₁ h
  · cases h
    exact h₁

theorem fetchAllCtxLoop_le {active : Bool} (hs : s.k ≤ inp.max) :
    (fetchAllCtxLoop inp v c n active s).1.k ≤ inp.max := by
  induction n generalizing s active with
  | zero => exact hs
  | succ n ih =>
    unfold fetchAllCtxLoop
    split_ifs with hmore hfetched
    · exact ih hmore
    · exact hs
    · exact hs

theorem fetchAllCtx_le (hs : s.k ≤ inp.max) : (fastAppctxPollFetchAllCtx inp v c s).1.k ≤ inp.max :=
  fetchAllCtxLoop_le hs

theorem fetchAllVmLoop_le (hs : s.k ≤ inp.max) : (fetchAllVmLoop inp reg v n s).k ≤ inp.max := by
  induction n generalizing s with
  | zero => exact hs
  | succ n ih =>
    unfold fetchAllVmLoop
    split_ifs with hmore
    · have hctx := fetchAllCtx_le (v := v)
        (c := reg.ctxIds v (s.polling.polledVms v).pollNextCtx.toNat) hs
      exact ih hctx
    · exact hs

theorem fetchAllVm_le (reg : Registry) (hs : s.k ≤ inp.max) (v : U32) :
    (fastAppctxPollFetchAllVm inp reg v s).k ≤ inp.max := by
  unfold fastAppctxPollFetchAllVm
  split_ifs
  · exact hs
  · exact fetchAllVmLoop_le hs

theorem fetchAllLoop_le {oob : List U32} (hs : s.k ≤ inp.max) :
    (fetchAllLoop inp reg n (s, oob)).1.k ≤ inp.max := by
  induction n generalizing s oob with
  | zero => exact hs
  | succ n ih =>
    unfold fetchAllLoop
    split_ifs with hmore
    · dsimp only
      by_cases hb : inp.budget (reg.vmIds s.polling.pollNextVm.toNat) > 0
      · rw [if_pos hb]
        have hvm := fetchAllVm_le reg hs (reg.vmIds s.polling.pollNextVm.toNat)
        exact ih hvm
      · rw [if_neg hb]
        exact ih hs
    · exact hs

theorem fetchAllOob_le (hs : s.k ≤ inp.max) : (fetchAllOob inp reg vs s).k ≤ inp.max := by
  induction vs generalizing s with
  | nil => exact hs
  | cons v vs ih =>
    refine ih ?_
    dsimp only
    split_ifs
    · exact fetchAllVm_le reg hs v
    · exact hs

theorem fetchAll_le (inp : RoundInput) (hs : s.k ≤ inp.max) :
    (fastAppctxPollFetchAll inp reg s).k ≤ inp.max := by
  unfold fastAppctxPollFetchAll
  split_ifs
  · exact hs
  · have hloop : ∀ p, (fetchAllLoop inp reg reg.vmCount ({ s with polling := p }, [])).1.k ≤
        inp.max := fun p => fetchAllLoop_le hs
    dsimp only
    split_ifs
    · exact fetchAllOob_le (hloop _)
    · exact hloop _
    · exact fetchAllOob_le (hloop _)
    · exact hloop _

theorem QueuesInput.fetch_le {q : QueuesInput} {max : ℕ} (h : q.fetch max = .ok k) : k ≤ max := by
  unfold QueuesInput.fetch at h
  dsimp only at h
  split at h
  · cases h
    exact fetchAll_le ⟨q.fetched, q.budget, max⟩ (Nat.zero_le _)
  · obtain ⟨s, hfetch, h⟩ := of_bind_ok h
    cases h
    exact fetchActive_le ⟨q.fetched, q.budget, max⟩ (Nat.zero_le _) hfetch

end Limits

/-! ### Each part keeps the handles apart -/

variable {c c' : Dataplane H} {d : Driver H} {flight : List H} {max off : ℕ} {n : ℕ}
  {c₀ : Dataplane H}

theorem fastFlowsPacket_ack (env : FpEnv) (fs : FlowState) (id : U32) (p : RxPacket) (spend : Bool)
    (ts : U32) : (fastFlowsPacket env fs id p spend ts).2.ack.isSome =
      decide ((fastFlowsPacket env fs id p spend ts).2.ret > 0) := by
  unfold fastFlowsPacket
  dsimp only
  split_ifs <;> simp [packetUnlock]
  all_goals split_ifs <;> simp_all

theorem fastFlowsPacketGre_ack (env : FpEnv) (fs : FlowState) (id : U32) (p : GrePacket)
    (spend : Bool) (ts : U32) : (fastFlowsPacketGre env fs id p spend ts).2.ack.isSome =
      decide ((fastFlowsPacketGre env fs id p spend ts).2.ret > 0) := by
  unfold fastFlowsPacketGre
  dsimp only
  split_ifs <;> simp [packetUnlockGre]
  all_goals split_ifs <;> simp_all

/-- The buffer of a packet is used exactly if the return value is positive. -/
theorem Frame.process_acks (env : FpEnv) (fs : FlowState) (id : U32) (spend : Bool) (ts : U32)
    (f : Frame) : (f.process env fs id spend ts).acks =
      decide ((f.process env fs id spend ts).ret > 0) := by
  cases f with
  | plain p => exact fastFlowsPacket_ack env fs id p spend ts
  | gre p => exact fastFlowsPacketGre_ack env fs id p spend ts

/-- Notifications are not handles. -/
theorem Conserved.setArx (hc : Conserved c flight) (as : List Arx) :
    Conserved { c with arxCache := as } flight :=
  { hc with }

/-- Room for the notifications and acknowledgements of `n` packets. -/
structure RxRoom (c : Dataplane H) (n : ℕ) : Prop where
  arx : c.arxCache.length + n ≤ batchSize
  tx : c.txNum + n ≤ txbufSize

theorem FrameOut.apply_ok {o : FrameOut} {h : H} (hc : Conserved c (h :: flight))
    (hroom : RxRoom c (n + 1)) :
    ∃ c', o.apply c h = .ok c' ∧ RxRoom c' n ∧
      Conserved c' (if o.acks then flight else h :: flight) := by
  obtain ⟨harx, htx⟩ := hroom
  obtain ⟨c₁, hadd, hc₁, harx₁, htx₁⟩ : ∃ c₁, notifyArx c o.arx = .ok c₁ ∧
      Conserved c₁ (h :: flight) ∧ c₁.arxCache.length + n ≤ batchSize ∧ c₁.txNum = c.txNum := by
    cases o.arx with
    | none => exact ⟨c, rfl, hc, by omega, rfl⟩
    | some a =>
      refine ⟨_, if_pos (by omega), hc.setArx (c.arxCache ++ [a]), ?_, rfl⟩
      simp only [length_append, length_singleton]
      omega
  unfold FrameOut.apply
  rw [hadd]
  cases o.acks with
  | false => exact ⟨c₁, rfl, ⟨harx₁, by omega⟩, hc₁⟩
  | true =>
    have htx : c₁.txNum < txbufSize := by omega
    refine ⟨_, txSend_ok htx h, ⟨harx₁, ?_⟩, hc₁.txSend htx⟩
    dsimp only
    omega

theorem rxPacket_ok (inp : RxInput) (has : Bool) {r : Received H}
    (hc : Conserved c (r.handle :: flight)) (hroom : RxRoom c (n + 1)) :
    ∃ c' frees, rxPacket inp has c r = .ok (c', frees) ∧ RxRoom c' n ∧
      Conserved c' (if frees then r.handle :: flight else flight) := by
  have hkeep : RxRoom c n := ⟨by have := hroom.arx; omega, by have := hroom.tx; omega⟩
  unfold rxPacket
  dsimp only
  by_cases hdrop : (has && r.flowId.isSome && !inp.spends r) = true
  · rw [if_pos hdrop]
    exact ⟨c, true, rfl, hkeep, hc⟩
  rw [if_neg hdrop]
  cases (if r.parses = true then r.flowId else none) with
  | none => exact ⟨c, true, rfl, hkeep, hc⟩
  | some id =>
    have hacks := r.frame.process_acks (inp.env r.fs.vmId) r.fs id (inp.spends r) inp.ts
    obtain ⟨c', happly, hroom', hc'⟩ := FrameOut.apply_ok
      (o := r.frame.process (inp.env r.fs.vmId) r.fs id (inp.spends r) inp.ts) hc hroom
    refine ⟨c', _, by dsimp only; rw [happly]; rfl, hroom', ?_⟩
    rw [hacks] at hc'
    split_ifs at hc' ⊢ <;> simp_all

/-- The loop over the packets: `free` are the handles that are to be freed. -/
theorem rxLoop_ok (inp : RxInput) (has : Bool) {rs : List (Received H)} {free : List H}
    (hc : Conserved c (rs.map Received.handle ++ free)) (hroom : RxRoom c rs.length) :
    ∃ c' free', rxLoop inp has rs (c, free) = .ok (c', free') ∧ Conserved c' free' := by
  induction rs generalizing c free with
  | nil => exact ⟨c, free, rfl, hc⟩
  | cons r rs ih =>
    obtain ⟨c₁, frees, hpacket, hroom₁, hc₁⟩ := rxPacket_ok inp has hc hroom
    have hnext : Conserved c₁
        (rs.map Received.handle ++ if frees then free ++ [r.handle] else free) := by
      cases frees with
      | false => exact hc₁
      | true =>
        refine hc₁.perm ?_
        change (r.handle :: (rs.map Received.handle ++ free)).Perm
          (rs.map Received.handle ++ (free ++ [r.handle]))
        rw [← append_assoc]
        exact (perm_append_singleton _ _).symm
    obtain ⟨c', free', hloop, hc'⟩ := ih hnext hroom₁
    refine ⟨c', free', ?_, hc'⟩
    unfold rxLoop
    rw [hpacket]
    exact hloop

/-- What a part may do: it ends with the handles conserved and no notification left, or for a
reason that has nothing to do with buffers. -/
def Safe : Except Stop (Dataplane H) → Prop
  | .ok c => Conserved c [] ∧ c.arxCache = []
  | .error e => e = .aborted ∨ e = .unfinished

theorem pollRx_safe (hc : Conserved c []) (harx : c.arxCache = []) (inp : RxInput) :
    Safe (pollRx d inp c) := by
  unfold pollRx
  have hout := d.recv_ok c (batchRoom c)
  cases hrecv : d.recv c (batchRoom c) with
  | nil => exact ⟨hc, harx⟩
  | cons r rs =>
    rw [hrecv] at hout
    have hlen : (r :: rs).length ≤ batchRoom c := by
      have := hout.length_le
      rwa [length_map] at this
    have hflight := hc.receive hout
    have hroom : RxRoom { c with taken := (r :: rs).map Received.handle ++ c.taken }
        (r :: rs).length := by
      have htx := hc.tx_le
      unfold batchRoom at hlen
      refine ⟨?_, ?_⟩
      · simp only [harx, length_nil]
        omega
      · dsimp only
        omega
    obtain ⟨c', free, hloop, hc'⟩ := rxLoop_ok inp ((r :: rs).any inp.spends)
      (hflight.perm (List.Perm.of_eq (append_nil _).symm)) hroom
    dsimp only
    rw [hloop]
    change Safe (arxCacheFlush c' inp.full >>= fun c => .ok (free.foldl bufcacheFree c))
    unfold arxCacheFlush
    split_ifs
    · exact Or.inl rfl
    · have hempty := (hc'.setArx []).freeAll
      refine ⟨hempty, ?_⟩
      exact foldl_bufcacheFree_arx free _

/-- While handles of the cache are used and not yet taken out of it: `max` of them may be used,
`off` were. -/
structure Using (c₀ c : Dataplane H) (max off : ℕ) : Prop where
  conserved : Conserved (reserve c off) []
  handles : c.bufcacheHandles = c₀.bufcacheHandles
  head : c.bufcacheHead = c₀.bufcacheHead
  cached : max ≤ c.bufcacheNum
  no_wrap : c.bufcacheHead + max ≤ bufcacheSize
  room : c.txNum + (max - off) ≤ txbufSize
  arx : c.arxCache = []

/-- The next handle is used for a segment. -/
theorem Using.send (hu : Using c₀ c max off) (hoff : off < max) :
    ∃ c', txSend c (c₀.bufcacheHandles (c₀.bufcacheHead + off)) = .ok c' ∧
      Using c₀ c' max (off + 1) := by
  obtain ⟨hc, hhandles, hhead, hcached, hwrap, hroom, harx⟩ := hu
  have htx : c.txNum < txbufSize := by omega
  have hfirst : (reserve c off).bufcacheHandles (reserve c off).bufcacheHead =
      c₀.bufcacheHandles (c₀.bufcacheHead + off) := by
    simp only [reserve]
    rw [Nat.mod_eq_of_lt (by omega), hhandles, hhead]
  have hnext := hc.reserve_one (by simp only [reserve]; omega)
  rw [hfirst, reserve_reserve] at hnext
  refine ⟨_, txSend_ok htx _, hnext.txSend htx, hhandles, hhead, hcached, hwrap, ?_, harx⟩
  dsimp only
  omega

theorem useHandles_ok (uses : List Bool) (hu : Using c₀ c max off)
    (huses : off + uses.length ≤ max) :
    ∃ c' off', useHandles (fun i => c₀.bufcacheHandles (c₀.bufcacheHead + i)) uses off c =
      .ok (c', off') ∧ off' ≤ max ∧ Using c₀ c' max off' := by
  induction uses generalizing c off with
  | nil => exact ⟨c, off, rfl, huses, hu⟩
  | cons use uses ih =>
    rw [length_cons] at huses
    cases use with
    | false =>
      obtain ⟨c', off', hloop, hrest⟩ := ih hu (by omega)
      exact ⟨c', off', hloop, hrest⟩
    | true =>
      obtain ⟨c₁, hsend, hu₁⟩ := hu.send (by omega)
      obtain ⟨c', off', hloop, hrest⟩ := ih hu₁ (by omega)
      refine ⟨c', off', ?_, hrest⟩
      unfold useHandles
      rw [if_pos rfl, hsend]
      exact hloop

/-- The handles that were used leave the cache. -/
theorem Using.alloc (hu : Using c₀ c max off) (hoff : off ≤ max) : Safe (bufcacheAlloc c off) := by
  unfold bufcacheAlloc
  rw [if_pos (hoff.trans hu.cached)]
  exact ⟨hu.conserved, hu.arx⟩

theorem Prealloc.begin {num : ℕ} (hp : Prealloc c c' num max) (harx : c.arxCache = [])
    (hnum : c.txNum + num ≤ txbufSize) : Using c' c' max 0 := by
  have hle := hp.max_le
  have htx := hp.txNum
  refine ⟨?_, rfl, rfl, hp.cached, hp.no_wrap, by omega, hp.arxCache.trans harx⟩
  rw [reserve_zero hp.conserved]
  exact hp.conserved

theorem batchRoom_le (hc : Conserved c []) : c.txNum + batchRoom c ≤ txbufSize := by
  have htx := hc.tx_le
  unfold batchRoom
  omega

theorem pollQman_safe (hc : Conserved c []) (harx : c.arxCache = []) (inp : QmanInput) :
    Safe (pollQman d inp c) := by
  have hp := bufcachePrealloc_spec d.alloc_ok hc (batchRoom c)
  unfold pollQman
  dsimp only
  generalize bufcachePrealloc d.alloc c (batchRoom c) = r at *
  obtain ⟨c₁, max⟩ := r
  have hu := hp.begin harx (batchRoom_le hc)
  dsimp only at hp hu ⊢
  cases hpoll : tasQmanPoll inp.fuel inp.env max inp.thread inp.vmCounters inp.countersTotal with
  | error e => cases e <;> simp [Safe, Stop.ofFault]
  | ok s =>
    obtain ⟨hcnt, hlen⟩ := tasQmanPoll_within hpoll
    dsimp only
    split_ifs
    · exact ⟨hp.conserved, hp.arxCache.trans harx⟩
    · obtain ⟨c₂, off, hloop, hoff, hu₂⟩ := useHandles_ok
        ((s.out.mapIdx inp.reads).map (QmanRead.uses inp.core inp.ts)) hu (by simp; omega)
      rw [hloop]
      exact hu₂.alloc hoff

theorem pollQueues_safe (hc : Conserved c []) (harx : c.arxCache = []) (inp : QueuesInput) :
    Safe (pollQueuesBufs d inp c) := by
  have hp := bufcachePrealloc_spec d.alloc_ok hc (batchRoom c)
  unfold pollQueuesBufs
  dsimp only
  generalize bufcachePrealloc d.alloc c (batchRoom c) = r at *
  obtain ⟨c₁, max⟩ := r
  have hu := hp.begin harx (batchRoom_le hc)
  dsimp only at hu ⊢
  cases hfetch : inp.fetch max with
  | error e => cases e <;> simp [Safe, Stop.ofFault]
  | ok k =>
    have hk := QueuesInput.fetch_le hfetch
    obtain ⟨c₂, off, hloop, hoff, hu₂⟩ := useHandles_ok
      ((List.range k).map fun i => (inp.reads i).uses inp.ts) hu (by simp; omega)
    dsimp only
    rw [hloop]
    exact hu₂.alloc hoff

/-- The loop over the commands of the slow path stops at the last handle. -/
theorem kernelLoop_safe {rings : ℕ → KernelRing} {fuel call : ℕ}
    (hu : Using c₀ c max k) (hk : k ≤ max) :
    Safe (kernelLoop (fun i => c₀.bufcacheHandles (c₀.bufcacheHead + i)) rings max fuel call k c >>=
      fun r => bufcacheAlloc r.1 r.2) := by
  induction fuel generalizing call k c with
  | zero => exact Or.inr rfl
  | succ fuel ih =>
    unfold kernelLoop
    by_cases hmore : k < max
    · rw [if_pos hmore]
      cases fastKernelPoll (rings call) with
      | abort => exact Or.inl rfl
      | done r =>
        cases r with
        | none => exact hu.alloc hk
        | some p =>
          dsimp only
          split_ifs
          · obtain ⟨c₁, hsend, hu₁⟩ := hu.send hmore
            rw [hsend]
            exact ih hu₁ hmore
          · exact ih hu hk
    · rw [if_neg hmore]
      exact hu.alloc hk

theorem pollKernel_safe (hc : Conserved c []) (harx : c.arxCache = []) (fuel : ℕ)
    (rings : ℕ → KernelRing) : Safe (pollKernel d fuel rings c) := by
  have hnum : c.txNum + (if batchRoom c > 8 then 8 else batchRoom c) ≤ txbufSize := by
    have hroom := batchRoom_le hc
    split_ifs <;> omega
  have hp := bufcachePrealloc_spec d.alloc_ok hc (if batchRoom c > 8 then 8 else batchRoom c)
  unfold pollKernel
  dsimp only
  generalize bufcachePrealloc d.alloc c (if batchRoom c > 8 then 8 else batchRoom c) = r at *
  obtain ⟨c₁, max⟩ := r
  exact kernelLoop_safe (hp.begin harx hnum) (Nat.zero_le _)

theorem LoopPart.run_safe (hc : Conserved c []) (harx : c.arxCache = []) (part : LoopPart) :
    Safe (part.run d c) := by
  cases part with
  | rx inp => exact pollRx_safe hc harx inp
  | qman inp => exact pollQman_safe hc harx inp
  | queues inp => exact pollQueues_safe hc harx inp
  | kernel fuel rings => exact pollKernel_safe hc harx fuel rings
  | flush =>
    refine ⟨hc.flush _, ?_⟩
    unfold txFlush
    split_ifs <;> exact harx

/-! ### Runs of the loop -/

theorem FreshDataplane.conserved (hf : FreshDataplane c) : Conserved c [] := by
  obtain ⟨hhead, hnum, htx, -, htaken, hfreed, hsent, hemitted⟩ := hf
  have hcached : c.cached = [] := by
    simp [Dataplane.cached, hnum, window]
  have hqueued : c.queued = [] := by
    simp [Dataplane.queued, htx]
  refine ⟨by rw [hhead]; decide, by omega, by omega, fun h => ?_, fun h => ?_, fun h => ?_⟩
  · simp [htaken, hfreed, hsent, hcached, hqueued]
  · simp [hcached, hqueued]
  · simp [hsent, hemitted, hqueued]

theorem loopStep_conserved (h : LoopStep c c') (hc : Conserved c [] ∧ c.arxCache = []) :
    Conserved c' [] ∧ c'.arxCache = [] := by
  obtain ⟨d, part, hrun⟩ := h
  have hsafe := part.run_safe (d := d) hc.1 hc.2
  rw [hrun] at hsafe
  exact hsafe

/-- What holds of the buffers in a state of the loop. -/
structure BuffersOk (c : Dataplane H) : Prop where
  /-- Each handle is once in the cache, once in the transmit buffer, or with the driver. -/
  one_place : ∀ h, c.cached.count h + c.queued.count h + (if c.AtDriver h then 1 else 0) = 1
  /-- A handle is emitted again only after the driver has sent the segment before. -/
  emitted : ∀ h, c.emitted.count h = c.sent.count h + c.queued.count h
  tx_le : c.txNum ≤ txbufSize
  arx_le : c.arxCache.length ≤ batchSize
  /-- Whatever is polled next, no transmit buffer overflows, no notification is written out of
  bounds, and no more handles are taken out of the cache than it has. -/
  next : ∀ (d : Driver H) (part : LoopPart) (e : Stop), part.run d c = .error e →
    e ≠ .txFull ∧ e ≠ .arxOverflow ∧ e ≠ .notReserved

/-- Every run of the data plane loop keeps every network buffer in exactly one place. -/
theorem buffers_conserved {c₀ c : Dataplane H} (hfresh : FreshDataplane c₀)
    (hrun : Relation.ReflTransGen LoopStep c₀ c) : BuffersOk c := by
  have hinv : Conserved c [] ∧ c.arxCache = [] := by
    induction hrun with
    | refl => exact ⟨hfresh.conserved, hfresh.arxCache⟩
    | tail _ hstep ih => exact loopStep_conserved hstep ih
  obtain ⟨hc, harx⟩ := hinv
  refine ⟨hc.one_place, hc.emitted, hc.tx_le, by simp [harx], fun d part e herr => ?_⟩
  have hsafe := part.run_safe (d := d) hc harx
  rw [herr] at hsafe
  rcases hsafe with rfl | rfl <;> decide

/-- A driver that has one buffer to give. -/
def oneBuffer : Driver ℕ where
  recv _ _ := []
  alloc c n := if 0 < n ∧ c.AtDriver 7 then [7] else []
  send _ := 0
  recv_ok _ _ := ⟨Nat.zero_le _, nodup_nil, fun _ h => by cases h⟩
  alloc_ok c n := by
    split_ifs with h
    · refine ⟨h.1, nodup_singleton 7, fun x hx => ?_⟩
      rw [mem_singleton.1 hx]
      exact h.2
    · exact ⟨Nat.zero_le _, nodup_nil, fun _ h => by cases h⟩
  send_le _ := Nat.zero_le _

/-- A context in zeroed memory. -/
def zeroDataplane : Dataplane ℕ := ⟨fun _ => 0, 0, 0, fun _ => 0, 0, [], [], [], [], []⟩

/-- A kernel queue whose first command is a window update of flow zero. -/
def winretranRing : KernelRing :=
  { zeroRing 1 1 with slots := fun _ => ⟨ktxWinretran, .connretran 0⟩ }

/-- The context after the window update was emitted. -/
def oneQueued : Dataplane ℕ where
  bufcacheHandles := splice (fun _ => 0) 0 [7]
  bufcacheHead := 1
  bufcacheNum := 0
  txHandles := Function.update (fun _ => 0) 0 7
  txNum := 1
  arxCache := []
  taken := [7]
  freed := []
  sent := []
  emitted := [7]

theorem oneBuffer_queued : oneQueued.queued = [7] ∧ BuffersOk oneQueued := by
  have hstep : LoopStep zeroDataplane oneQueued :=
    ⟨oneBuffer, .kernel 2 fun _ => winretranRing, rfl⟩
  exact ⟨rfl, buffers_conserved ⟨rfl, rfl, rfl, rfl, rfl, rfl, rfl, rfl⟩
    (Relation.ReflTransGen.single hstep)⟩

end Tas
