import Tas.Qman
import Tas.Lib.Cyclic

/-! The rings of active VMs and contexts that a core polls, `fast_appctx.c` and `fastemu.c`. -/
namespace Tas

open Outcome Cyclic Function List

/-- `FLAG_ACTIVE`. -/
def flagActive : U16 := 1

/-- `MAX_NULL_ROUNDS`. -/
def maxNullRounds : U16 := 2000

/-- `BATCH_SIZE`. -/
def batchSize : ℕ := 16

/-- `MAX_POLL_ROUNDS`. -/
def maxPollRounds : U16 := 15

/-- The links and flags of a VM or of a context. -/
structure ActiveLinks where
  next : U32
  prev : U32
  flags : U16
deriving DecidableEq

def ActiveLinks.active (l : ActiveLinks) : Bool := l.flags &&& flagActive != 0

/-- `struct polled_context`. -/
structure PolledContext extends ActiveLinks where
  id : U32
  vmid : U32
  nullRounds : U16
deriving DecidableEq

/-- `struct polled_vm`. -/
structure PolledVm extends ActiveLinks where
  id : U32
  pollNextCtx : U32
  actCtxHead : U32
  actCtxTail : U32
  ctxs : U32 → PolledContext

/-- The part of `struct dataplane_context` for polling queues. -/
structure Polling where
  pollRounds : U16
  pollNextVm : U32
  actHead : U32
  actTail : U32
  polledVms : U32 → PolledVm

/-! ### Rings -/

/-- A ring in an array, of VMs or of contexts. -/
structure ActiveRing where
  head : U32
  tail : U32
  node : U32 → ActiveLinks

namespace ActiveRing

def next (r : ActiveRing) (i : U32) : U32 := (r.node i).next

def prev (r : ActiveRing) (i : U32) : U32 := (r.node i).prev

/-- The nodes with the link of `i` set. -/
def setNext (node : U32 → ActiveLinks) (i j : U32) : U32 → ActiveLinks :=
  update node i { node i with next := j }

/-- The nodes with the link back of `i` set. -/
def setPrev (node : U32 → ActiveLinks) (i j : U32) : U32 → ActiveLinks :=
  update node i { node i with prev := j }

def enqueue (r : ActiveRing) (i : U32) : ActiveRing :=
  let flags := (r.node i).flags ||| flagActive
  if r.tail = idxlistInval then ⟨i, i, update r.node i ⟨i, i, flags⟩⟩
  else
    { r with
      tail := i
      node := update (setPrev (setNext r.node r.tail i) r.head i) i
        ⟨r.head, r.tail, flags⟩ }

def remove (r : ActiveRing) (i : U32) : ActiveRing :=
  let l := r.node i
  let out : ActiveLinks := ⟨idxlistInval, idxlistInval, l.flags &&& ~~~flagActive⟩
  if r.tail = r.head then ⟨idxlistInval, idxlistInval, update r.node i out⟩
  else
    { head := if l.next = r.head then r.head else if l.prev = r.tail then l.next else r.head
      tail := if l.next = r.head then l.prev else r.tail
      node := update (setPrev (setNext r.node l.prev l.next) l.next l.prev) i out }

/-- Head and tail one further. -/
def rotate (r : ActiveRing) : ActiveRing :=
  { r with head := r.next r.head, tail := r.next r.tail }

end ActiveRing

/-- The ring of a VM's active contexts. -/
def PolledVm.ring (vm : PolledVm) : ActiveRing :=
  ⟨vm.actCtxHead, vm.actCtxTail, fun c => (vm.ctxs c).toActiveLinks⟩

def PolledVm.setRing (vm : PolledVm) (r : ActiveRing) : PolledVm :=
  { vm with
    actCtxHead := r.head
    actCtxTail := r.tail
    ctxs := fun c => { vm.ctxs c with toActiveLinks := r.node c } }

/-- The ring of active VMs. -/
def Polling.ring (p : Polling) : ActiveRing :=
  ⟨p.actHead, p.actTail, fun v => (p.polledVms v).toActiveLinks⟩

def Polling.setRing (p : Polling) (r : ActiveRing) : Polling :=
  { p with
    actHead := r.head
    actTail := r.tail
    polledVms := fun v => { p.polledVms v with toActiveLinks := r.node v } }

def Polling.setVm (p : Polling) (v : U32) (vm : PolledVm) : Polling :=
  { p with polledVms := update p.polledVms v vm }

def PolledVm.setNullRounds (vm : PolledVm) (c : U32) (n : U16) : PolledVm :=
  { vm with ctxs := update vm.ctxs c { vm.ctxs c with nullRounds := n } }

def Polling.setNullRounds (p : Polling) (v c : U32) (n : U16) : Polling :=
  p.setVm v ((p.polledVms v).setNullRounds c n)

def enqueueCtxToActive (vm : PolledVm) (cid : U32) : PolledVm := vm.setRing (vm.ring.enqueue cid)

def removeCtxFromActive (vm : PolledVm) (cid : U32) : PolledVm :=
  (vm.setRing (vm.ring.remove cid)).setNullRounds cid 0

def enqueueVmToActive (p : Polling) (vmid : U32) : Polling := p.setRing (p.ring.enqueue vmid)

def removeVmFromActive (p : Polling) (vmid : U32) : Polling := p.setRing (p.ring.remove vmid)

/-- Remove the contexts that were recorded, given by VM and index, and VMs without active
contexts. -/
def removeCtxsFromActive (p : Polling) : List (U32 × U32) → Polling
  | [] => p
  | (v, c) :: ctxs =>
    let ctx := (p.polledVms v).ctxs c
    let vm := removeCtxFromActive (p.polledVms ctx.vmid) ctx.id
    let p := p.setVm ctx.vmid vm
    removeCtxsFromActive
      (if vm.actCtxHead = idxlistInval then removeVmFromActive p ctx.vmid else p) ctxs

/-! ### Fetching from active contexts -/

/-- What a round reads: for each call of `fast_appctx_poll_fetch` whether it returns an entry (a
call that aborts ends the run), the budgets, and the number of buffers. -/
structure RoundInput where
  fetched : ℕ → Bool
  budget : U32 → ℤ
  max : ℕ

/-- The local state of a round, with the contexts recorded for removal and the number of calls of
`fast_appctx_poll_fetch`. -/
structure PollRound where
  polling : Polling
  k : ℕ
  total : ℕ
  remCtxs : List (U32 × U32)
  calls : ℕ

/-- One more round without an entry. -/
def nextNullRounds (n : U16) : U16 := if n = maxNullRounds then maxNullRounds else n + 1

/-- The loop of `fast_appctx_poll_fetch_active_ctx`, with the number of rounds that are left. -/
def fetchActiveCtxLoop (inp : RoundInput) (v c : U32) : ℕ → PollRound → PollRound
  | 0, s => s
  | n + 1, s =>
    if s.k < inp.max then
      if inp.fetched s.calls then
        fetchActiveCtxLoop inp v c n
          { s with
            polling := s.polling.setNullRounds v c 0
            k := s.k + 1
            total := s.total + 1
            calls := s.calls + 1 }
      else
        let nulls := nextNullRounds ((s.polling.polledVms v).ctxs c).nullRounds
        { s with
          polling := s.polling.setNullRounds v c nulls
          remCtxs := if nulls ≥ maxNullRounds then s.remCtxs ++ [(v, c)] else s.remCtxs
          calls := s.calls + 1 }
    else s

def fastAppctxPollFetchActiveCtx (inp : RoundInput) (v c : U32) (s : PollRound) : PollRound :=
  fetchActiveCtxLoop inp v c batchSize s

/-- Fetch from the active contexts of a VM, and move its ring on. -/
def fastAppctxPollFetchActiveVm (inp : RoundInput) (fuel : ℕ) (v : U32) (s : PollRound) :
    Except Fault PollRound := do
  let s ← doRing (fun c s => .ok (fastAppctxPollFetchActiveCtx inp v c s))
    (fun s c => ((s.polling.polledVms v).ctxs c).next)
    (fun s c => c == (s.polling.polledVms v).actCtxHead || !decide (s.k < inp.max))
    fuel (s.polling.polledVms v).actCtxHead s
  let vm := s.polling.polledVms v
  .ok { s with polling := s.polling.setVm v (vm.setRing vm.ring.rotate) }

/-- The loop over the VMs that have no budget, if nothing was fetched before. -/
def fetchActiveOob (inp : RoundInput) (fuel : ℕ) : List U32 → PollRound → Except Fault PollRound
  | [], s => .ok s
  | v :: vs, s =>
    if s.k < inp.max then do
      let s ← fastAppctxPollFetchActiveVm inp fuel v s
      fetchActiveOob inp fuel vs s
    else fetchActiveOob inp fuel vs s

/-- Fetch from the active VMs, first from those that have budget. -/
def fastAppctxPollFetchActive (inp : RoundInput) (fuel : ℕ) (s : PollRound) :
    Except Fault PollRound := do
  let (s, oob) ← doRing
    (fun v (s : PollRound × List U32) =>
      if inp.budget v > 0 then do
        let s' ← fastAppctxPollFetchActiveVm inp fuel v s.1
        .ok (s', s.2)
      else .ok (s.1, s.2 ++ [v]))
    (fun s v => (s.1.polling.polledVms v).next)
    (fun s v => v == s.1.polling.actHead || !decide (s.1.k < inp.max))
    fuel s.polling.actHead (s, [])
  if s.k = 0 then fetchActiveOob inp fuel oob s else .ok s

/-- The loops of `fast_appctx_poll_pf_active` and of `fast_actx_rxq_probe_active`: the contexts
they visit. -/
def visitActive (fuel : ℕ) (p : Polling) : Except Fault (List (U32 × U32)) :=
  doRing
    (fun v seen =>
      doRing (fun c seen => .ok (seen ++ [(v, c)])) (fun _ c => ((p.polledVms v).ctxs c).next)
        (fun _ c => c == (p.polledVms v).actCtxHead) fuel (p.polledVms v).actCtxHead seen)
    (fun _ v => (p.polledVms v).next) (fun _ v => v == p.actHead) fuel p.actHead []

/-- Poll the active VMs. The entries that were fetched and the receive queues are not modelled. -/
def pollActiveQueues (inp : RoundInput) (fuel : ℕ) (p : Polling) :
    Except Fault (Polling × List (U32 × U32)) := do
  let _ ← visitActive fuel p
  let s ← fastAppctxPollFetchActive inp fuel ⟨p, 0, 0, [], 0⟩
  let _ ← visitActive fuel s.polling
  .ok (removeCtxsFromActive (s.polling.setRing s.polling.ring.rotate) s.remCtxs, s.remCtxs)

/-! ### Fetching from all contexts -/

/-- The VMs and contexts that are registered. -/
structure Registry where
  vmCount : ℕ
  vmIds : ℕ → U32
  ctxCount : U32 → ℕ
  ctxIds : U32 → ℕ → U32

/-- The loop of `fast_appctx_poll_fetch_all_ctx`, which also says whether the VM is active. -/
def fetchAllCtxLoop (inp : RoundInput) (v c : U32) : ℕ → Bool → PollRound → PollRound × Bool
  | 0, active, s => (s, active)
  | n + 1, active, s =>
    if s.k < inp.max then
      if inp.fetched s.calls then
        let p := s.polling.setNullRounds v c 0
        let vm := p.polledVms v
        fetchAllCtxLoop inp v c n true
          { s with
            polling := if (vm.ctxs c).active then p else p.setVm v (enqueueCtxToActive vm c)
            k := s.k + 1
            total := s.total + 1
            calls := s.calls + 1 }
      else
        let nulls := nextNullRounds ((s.polling.polledVms v).ctxs c).nullRounds
        ({ s with polling := s.polling.setNullRounds v c nulls, calls := s.calls + 1 }, active)
    else (s, active)

def fastAppctxPollFetchAllCtx (inp : RoundInput) (v c : U32) (s : PollRound) : PollRound × Bool :=
  fetchAllCtxLoop inp v c batchSize false s

def Polling.setPollNextCtx (p : Polling) (v i : U32) : Polling :=
  p.setVm v { p.polledVms v with pollNextCtx := i }

/-- The loop of `fast_appctx_poll_fetch_all_vm`. -/
def fetchAllVmLoop (inp : RoundInput) (reg : Registry) (v : U32) : ℕ → PollRound → PollRound
  | 0, s => s
  | n + 1, s =>
    if s.k < inp.max then
      let c := reg.ctxIds v (s.polling.polledVms v).pollNextCtx.toNat
      let (s, active) := fastAppctxPollFetchAllCtx inp v c s
      let p := if ¬ (s.polling.polledVms v).active ∧ active then enqueueVmToActive s.polling v
        else s.polling
      let i := ((p.polledVms v).pollNextCtx + 1) % BitVec.ofNat 32 (reg.ctxCount v)
      fetchAllVmLoop inp reg v n { s with polling := p.setPollNextCtx v i }
    else s

def fastAppctxPollFetchAllVm (inp : RoundInput) (reg : Registry) (v : U32) (s : PollRound) :
    PollRound :=
  if reg.ctxCount v = 0 then s
  else
    let p := s.polling
    let p := if reg.ctxCount v ≤ (p.polledVms v).pollNextCtx.toNat then p.setPollNextCtx v 0 else p
    fetchAllVmLoop inp reg v (reg.ctxCount v) { s with polling := p }

def Polling.advanceVm (p : Polling) (count : ℕ) : Polling :=
  { p with pollNextVm := (p.pollNextVm + 1) % BitVec.ofNat 32 count }

/-- The first loop of `fast_appctx_poll_fetch_all`, with the VMs that have no budget. -/
def fetchAllLoop (inp : RoundInput) (reg : Registry) :
    ℕ → PollRound × List U32 → PollRound × List U32
  | 0, s => s
  | n + 1, (s, oob) =>
    if s.k < inp.max then
      let v := reg.vmIds s.polling.pollNextVm.toNat
      let (s, oob) := if inp.budget v > 0 then (fastAppctxPollFetchAllVm inp reg v s, oob)
        else (s, oob ++ [v])
      fetchAllLoop inp reg n ({ s with polling := s.polling.advanceVm reg.vmCount }, oob)
    else (s, oob)

/-- The loop over the VMs that have no budget, if nothing was fetched before. -/
def fetchAllOob (inp : RoundInput) (reg : Registry) : List U32 → PollRound → PollRound
  | [], s => s
  | v :: vs, s =>
    let s := if s.k < inp.max then fastAppctxPollFetchAllVm inp reg v s else s
    fetchAllOob inp reg vs { s with polling := s.polling.advanceVm reg.vmCount }

def fastAppctxPollFetchAll (inp : RoundInput) (reg : Registry) (s : PollRound) : PollRound :=
  if reg.vmCount = 0 then s
  else
    let p := s.polling
    let p := if reg.vmCount ≤ p.pollNextVm.toNat then { p with pollNextVm := 0 } else p
    let (s, oob) := fetchAllLoop inp reg reg.vmCount ({ s with polling := p }, [])
    if s.k = 0 then fetchAllOob inp reg oob s else s

/-- Poll all VMs that are registered. -/
def pollAllQueues (inp : RoundInput) (reg : Registry) (p : Polling) : Polling :=
  (fastAppctxPollFetchAll inp reg ⟨p, 0, 0, [], 0⟩).polling

/-- One round: all VMs from time to time and when none is active, else the active ones. -/
def pollQueues (inp : RoundInput) (reg : Registry) (fuel : ℕ) (p : Polling) :
    Except Fault Polling := do
  let p ←
    if p.pollRounds % maxPollRounds = 0 ∨ p.actHead = idxlistInval then
      .ok (pollAllQueues inp reg p)
    else do
      let r ← pollActiveQueues inp fuel p
      .ok r.1
  .ok { p with pollRounds := (p.pollRounds + 1) % maxPollRounds }

/-! ### Ring operations -/

variable {r : ActiveRing} {xs as bs : List U32} {i j k v w c x : U32}

/-- The ring is that of `xs`, whose nodes are those with `FLAG_ACTIVE`. -/
structure ActiveRing.Holds (r : ActiveRing) (xs : List U32) : Prop where
  ring : Ring idxlistInval r.next r.prev r.head r.tail xs
  active : ∀ i, (r.node i).active = true ↔ i ∈ xs

theorem active_set (n p : U32) (flags : U16) :
    (ActiveLinks.mk n p (flags ||| flagActive)).active = true := by
  have h : (flags ||| flagActive) &&& flagActive = flagActive := by
    ext k hk
    simp only [BitVec.getElem_and, BitVec.getElem_or]
    cases flags[k] <;> simp
  unfold ActiveLinks.active
  rw [h]
  decide

theorem active_clear (n p : U32) (flags : U16) :
    (ActiveLinks.mk n p (flags &&& ~~~flagActive)).active = false := by
  have h : (flags &&& ~~~flagActive) &&& flagActive = 0 := by
    ext k hk
    simp [BitVec.getElem_and, BitVec.getElem_not]
  unfold ActiveLinks.active
  rw [h]
  decide

namespace ActiveRing

variable (node : U32 → ActiveLinks)

theorem setNext_eq :
    setNext node i j k = { node k with next := if k = i then j else (node k).next } := by
  unfold setNext
  by_cases h : k = i
  · subst h
    simp
  · simp [h]

theorem setPrev_eq :
    setPrev node i j k = { node k with prev := if k = i then j else (node k).prev } := by
  unfold setPrev
  by_cases h : k = i
  · subst h
    simp
  · simp [h]

theorem active_setPrev_setNext (i j i' j' k : U32) :
    (setPrev (setNext node i j) i' j' k).active = (node k).active := by
  rw [setPrev_eq, setNext_eq]
  rfl

end ActiveRing

theorem ActiveRing.holds_enqueue (h : r.Holds xs) (hi : i ≠ idxlistInval) (hnew : i ∉ xs) :
    (r.enqueue i).Holds (xs ++ [i]) := by
  unfold ActiveRing.enqueue
  dsimp only
  by_cases hempty : r.tail = idxlistInval
  · obtain rfl := h.ring.tail_eq_inval_iff.1 hempty
    rw [if_pos hempty]
    refine ⟨ring_singleton hi (by simp [next]) (by simp [prev]), fun k => ?_⟩
    by_cases hk : k = i
    · simp [hk, active_set]
    · simpa [hk] using (h.active k).not.2 (by simp)
  · have hne : xs ≠ [] := fun hnil => hempty (h.ring.tail_eq_inval_iff.2 hnil)
    rw [if_neg hempty]
    have hother (y : U32) (hy : y ∈ xs) : y ≠ i := fun heq => hnew (heq ▸ hy)
    refine ⟨h.ring.enqueue hne hi hnew (by simp [next]) (by simp [prev]) (fun y hy => ?_)
      fun y hy => ?_, fun k => ?_⟩
    · simp [next, hother y hy, setPrev_eq, setNext_eq]
    · simp [prev, hother y hy, setPrev_eq, setNext_eq]
    · by_cases hk : k = i
      · simp [hk, active_set]
      · simpa [hk, active_setPrev_setNext] using h.active k

theorem ActiveRing.holds_remove (h : r.Holds (as ++ x :: bs)) : (r.remove x).Holds (as ++ bs) := by
  have hout : x ∉ as ++ bs := fun hmem =>
    h.ring.not_mem (perm_append_comm.mem_iff.1 hmem)
  have hother (y : U32) (hy : y ∈ as ++ bs) : y ≠ x := fun heq => hout (heq ▸ hy)
  have hactive (k : U32) (hk : k ≠ x) : (r.node k).active = true ↔ k ∈ as ++ bs := by
    rw [h.active k]
    simp [hk]
  unfold ActiveRing.remove
  dsimp only
  by_cases hone : r.tail = r.head
  · have hxs := (h.ring.singleton_iff (by simp : x ∈ as ++ x :: bs)).1 hone
    obtain ⟨rfl, rfl⟩ : as = [] ∧ bs = [] := by
      have hlen := congrArg List.length hxs
      simp only [length_append, length_cons, length_nil] at hlen
      exact ⟨length_eq_zero_iff.1 (by omega), length_eq_zero_iff.1 (by omega)⟩
    rw [if_pos hone]
    refine ⟨ring_nil, fun k => ?_⟩
    by_cases hk : k = x
    · simp [hk, active_clear]
    · simpa [hk] using hactive k hk
  · rw [if_neg hone]
    have hne : bs ++ as ≠ [] := by
      intro hnil
      obtain ⟨rfl, rfl⟩ := append_eq_nil_iff.1 hnil
      exact hone ((h.ring.singleton_iff (by simp)).2 rfl)
    refine ⟨h.ring.remove hne rfl rfl (fun y hy => ?_) fun y hy => ?_, fun k => ?_⟩
    · simp only [next, prev, setPrev_eq, setNext_eq, update_of_ne (hother y hy)]
      congr
    · simp only [next, prev, setPrev_eq, setNext_eq, update_of_ne (hother y hy)]
      congr
    · by_cases hk : k = x
      · simpa [hk, active_clear] using hout
      · simpa [hk, active_setPrev_setNext] using hactive k hk

theorem ActiveRing.holds_rotate (h : r.Holds (x :: xs)) : r.rotate.Holds (xs ++ [x]) := by
  refine ⟨h.ring.rotate, fun i => (h.active i).trans ?_⟩
  simp [or_comm]

/-! ### The rings of a core -/

variable {p p' : Polling} {vm : PolledVm} {vs : List U32} {cs : U32 → List U32}

/-- The active VMs are `vs` and the active contexts of the VM `v` are `cs v`, in the order of their
rings. -/
structure Rings (p : Polling) (vs : List U32) (cs : U32 → List U32) : Prop where
  vms : p.ring.Holds vs
  ctxs : ∀ v, (p.polledVms v).ring.Holds (cs v)
  ids : ∀ v c, ((p.polledVms v).ctxs c).id = c ∧ ((p.polledVms v).ctxs c).vmid = v

/-- A VM is active if one of its contexts is. -/
def Busy (vs : List U32) (cs : U32 → List U32) : Prop := ∀ v, v ∈ vs ↔ cs v ≠ []

/-- A VM with another ring in the place of `v`. -/
theorem Rings.setVm (h : Rings p vs cs) (hlinks : vm.toActiveLinks = (p.polledVms v).toActiveLinks)
    (hring : vm.ring.Holds xs) (hids : ∀ c, (vm.ctxs c).id = c ∧ (vm.ctxs c).vmid = v) :
    Rings (p.setVm v vm) vs (update cs v xs) := by
  have hself : (p.setVm v vm).polledVms v = vm := update_self ..
  have hother (w : U32) (hw : w ≠ v) : (p.setVm v vm).polledVms w = p.polledVms w :=
    update_of_ne hw ..
  have hvms : (p.setVm v vm).ring = p.ring := by
    unfold Polling.ring
    congr 1
    funext w
    by_cases hw : w = v
    · rw [hw, hself, hlinks]
    · rw [hother w hw]
  refine ⟨hvms ▸ h.vms, fun w => ?_, fun w => ?_⟩
  · by_cases hw : w = v
    · subst hw
      rwa [hself, update_self]
    · rw [hother w hw, update_of_ne hw]
      exact h.ctxs w
  · by_cases hw : w = v
    · subst hw
      rwa [hself]
    · rw [hother w hw]
      exact h.ids w

theorem Rings.setRing (h : Rings p vs cs) (hring : r.Holds xs) : Rings (p.setRing r) xs cs :=
  ⟨hring, h.ctxs, h.ids⟩

theorem ring_setNullRounds (n : U16) : (vm.setNullRounds c n).ring = vm.ring := by
  unfold PolledVm.ring PolledVm.setNullRounds
  congr 1
  funext d
  by_cases hd : d = c
  · simp [hd]
  · simp [hd]

theorem ids_setNullRounds (vm : PolledVm) (c d : U32) (n : U16) :
    ((vm.setNullRounds c n).ctxs d).id = (vm.ctxs d).id ∧
      ((vm.setNullRounds c n).ctxs d).vmid = (vm.ctxs d).vmid := by
  unfold PolledVm.setNullRounds
  by_cases hd : d = c
  · simp [hd]
  · simp [hd]

theorem Rings.of_updated (h : Rings p vs (update cs v (cs v))) : Rings p vs cs := by
  rwa [update_eq_self] at h

theorem Rings.setNullRounds (h : Rings p vs cs) (v c : U32) (n : U16) :
    Rings (p.setNullRounds v c n) vs cs := by
  apply Rings.of_updated (v := v)
  refine h.setVm rfl ?_ fun d => ?_
  · rw [ring_setNullRounds]
    exact h.ctxs v
  · obtain ⟨hid, hvmid⟩ := ids_setNullRounds (p.polledVms v) c d n
    rw [hid, hvmid]
    exact h.ids v d

/-- Another ring of contexts for a VM. -/
theorem Rings.setCtxRing (h : Rings p vs cs) (hring : r.Holds xs) :
    Rings (p.setVm v ((p.polledVms v).setRing r)) vs (update cs v xs) :=
  h.setVm rfl hring (h.ids v)

/-! ### Rounds without an entry -/

/-- How many rounds in a row a context had no entry. -/
def Polling.nulls (p : Polling) (x : U32 × U32) : U16 := ((p.polledVms x.1).ctxs x.2).nullRounds

theorem nulls_setVm (p : Polling) (v : U32) (vm : PolledVm) (x : U32 × U32) :
    (p.setVm v vm).nulls x = if x.1 = v then (vm.ctxs x.2).nullRounds else p.nulls x := by
  unfold Polling.nulls Polling.setVm
  by_cases hx : x.1 = v
  · simp [hx]
  · simp [hx]

theorem nullRounds_setNullRounds (c d : U32) (n : U16) :
    ((vm.setNullRounds c n).ctxs d).nullRounds = if d = c then n else (vm.ctxs d).nullRounds := by
  unfold PolledVm.setNullRounds
  by_cases hd : d = c
  · simp [hd]
  · simp [hd]

theorem nulls_setNullRounds (n : U16) (x : U32 × U32) :
    (p.setNullRounds v c n).nulls x = if x = (v, c) then n else p.nulls x := by
  obtain ⟨w, d⟩ := x
  unfold Polling.setNullRounds
  rw [nulls_setVm, nullRounds_setNullRounds]
  by_cases hw : w = v
  · by_cases hd : d = c <;> simp [hw, hd, Polling.nulls]
  · simp [hw]

/-- Another ring changes no counts. -/
theorem nulls_setCtxRing (p : Polling) (v : U32) (r : ActiveRing) (x : U32 × U32) :
    (p.setVm v ((p.polledVms v).setRing r)).nulls x = p.nulls x := by
  rw [nulls_setVm]
  by_cases hx : x.1 = v
  · rw [if_pos hx, ← hx]
    rfl
  · rw [if_neg hx]

theorem nulls_removeCtx (p : Polling) {v c : U32} {x : U32 × U32} (hx : x ≠ (v, c)) :
    (p.setVm v (removeCtxFromActive (p.polledVms v) c)).nulls x = p.nulls x := by
  rw [← nulls_setCtxRing p v ((p.polledVms v).ring.remove c) x, nulls_setVm, nulls_setVm]
  by_cases hv : x.1 = v
  · have hc : x.2 ≠ c := fun hc => hx (Prod.ext hv hc)
    rw [if_pos hv, if_pos hv]
    exact (nullRounds_setNullRounds ..).trans (if_neg hc)
  · rw [if_neg hv, if_neg hv]

/-! ### Removal -/

/-- Remove a context that is active. -/
theorem Rings.removeCtx (h : Rings p vs cs) (hc : cs v = as ++ c :: bs) :
    Rings (p.setVm v (removeCtxFromActive (p.polledVms v) c)) vs
      (update cs v (as ++ bs)) := by
  have hring := h.ctxs v
  rw [hc] at hring
  refine h.setVm rfl ?_ fun d => ?_
  · unfold removeCtxFromActive
    rw [ring_setNullRounds]
    exact ActiveRing.holds_remove hring
  · obtain ⟨hid, hvmid⟩ :=
      ids_setNullRounds ((p.polledVms v).setRing ((p.polledVms v).ring.remove c)) c d 0
    unfold removeCtxFromActive
    rw [hid, hvmid]
    exact h.ids v d

theorem Rings.head_eq_inval_iff (h : Rings p vs cs) (v : U32) :
    (p.polledVms v).actCtxHead = idxlistInval ↔ cs v = [] := (h.ctxs v).ring.eq_nil_iff

/-- Remove contexts that are active, each once. The others stay. -/
theorem Rings.removeCtxs {rem : List (U32 × U32)} (h : Rings p vs cs) (hbusy : Busy vs cs)
    (hnodup : rem.Nodup) (hmem : ∀ x ∈ rem, x.2 ∈ cs x.1) :
    ∃ vs' cs', Rings (removeCtxsFromActive p rem) vs' cs' ∧ Busy vs' cs' ∧
      ∀ x ∉ rem, (x.2 ∈ cs x.1 ↔ x.2 ∈ cs' x.1) ∧
        (removeCtxsFromActive p rem).nulls x = p.nulls x := by
  induction rem generalizing p vs cs with
  | nil => exact ⟨vs, cs, h, hbusy, fun x _ => ⟨.rfl, rfl⟩⟩
  | cons x rem ih =>
    obtain ⟨v, c⟩ := x
    obtain ⟨hnew, hnodup⟩ := nodup_cons.1 hnodup
    have hc : c ∈ cs v := hmem (v, c) (by simp)
    obtain ⟨as, bs, heq⟩ := append_of_mem hc
    have hremoved := h.removeCtx heq
    -- the other contexts stay as they are
    have hother (y : U32 × U32) (hy : y ≠ (v, c)) :
        y.2 ∈ cs y.1 ↔ y.2 ∈ update cs v (as ++ bs) y.1 := by
      obtain ⟨w, d⟩ := y
      by_cases hw : w = v
      · subst hw
        have hdc : d ≠ c := by
          rintro rfl
          exact hy rfl
        simp [heq, hdc]
      · simp [hw]
    have hstill (y : U32 × U32) (hy : y ∈ rem) : y.2 ∈ update cs v (as ++ bs) y.1 := by
      refine (hother y ?_).1 (hmem y (mem_cons_of_mem _ hy))
      rintro rfl
      exact hnew hy
    have hkeeps {p₁ : Polling} {cs₁ : U32 → List U32}
        (hnulls : ∀ x, p₁.nulls x =
          (p.setVm v (removeCtxFromActive (p.polledVms v) c)).nulls x)
        (h₁ : ∀ x ∉ rem, (x.2 ∈ update cs v (as ++ bs) x.1 ↔ x.2 ∈ cs₁ x.1) ∧
          (removeCtxsFromActive p₁ rem).nulls x = p₁.nulls x) :
        ∀ x ∉ (v, c) :: rem, (x.2 ∈ cs x.1 ↔ x.2 ∈ cs₁ x.1) ∧
          (removeCtxsFromActive p₁ rem).nulls x = p.nulls x := by
      intro x hx
      have hne : x ≠ (v, c) := fun he => hx (by simp [he])
      obtain ⟨hin, heq⟩ := h₁ x fun hmem => hx (mem_cons_of_mem _ hmem)
      refine ⟨(hother x hne).trans hin, ?_⟩
      rw [heq, hnulls, nulls_removeCtx p hne]
    unfold removeCtxsFromActive
    dsimp only
    rw [(h.ids v c).1, (h.ids v c).2]
    have hhead := hremoved.head_eq_inval_iff v
    have hself : (p.setVm v (removeCtxFromActive (p.polledVms v) c)).polledVms v =
        removeCtxFromActive (p.polledVms v) c := update_self ..
    rw [hself, update_self] at hhead
    by_cases hlast : as ++ bs = []
    · -- the VM has no active contexts any more
      rw [if_pos (hhead.2 hlast)]
      have hv : v ∈ vs := (hbusy v).2 (ne_nil_of_mem hc)
      obtain ⟨ls, rs, rfl⟩ := append_of_mem hv
      have hvout := hremoved.vms.ring.not_mem
      have hbusy₁ : Busy (ls ++ rs) (update cs v (as ++ bs)) := by
        intro w
        by_cases hw : w = v
        · subst hw
          rw [update_self, hlast]
          simpa [and_comm] using hvout
        · rw [update_of_ne hw, ← hbusy w]
          simp [hw]
      obtain ⟨vs', cs', hrings', hbusy', h'⟩ :=
        ih (hremoved.setRing (ActiveRing.holds_remove hremoved.vms)) hbusy₁ hnodup hstill
      exact ⟨vs', cs', hrings', hbusy', hkeeps (fun _ => rfl) h'⟩
    · rw [if_neg (hhead.not.2 hlast)]
      have hbusy₁ : Busy vs (update cs v (as ++ bs)) := by
        intro w
        by_cases hw : w = v
        · subst hw
          rw [update_self, hbusy w]
          exact ⟨fun _ => hlast, fun _ => ne_nil_of_mem hc⟩
        · rw [update_of_ne hw]
          exact hbusy w
      obtain ⟨vs', cs', hrings', hbusy', h'⟩ := ih hremoved hbusy₁ hnodup hstill
      exact ⟨vs', cs', hrings', hbusy', hkeeps (fun _ => rfl) h'⟩

end Tas
