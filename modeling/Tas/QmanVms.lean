import Tas.QmanPoll

/-! The list of VMs and a poll that serves them: VMs are taken off the list, parked while they are
out of budget and appended again, and no VM with bytes is lost. -/
namespace Tas

open Outcome Linked Function List

variable {m m' : VmQman} {vl : List U32} {v w idx f bytes : U32} {q : VmQueue} {fuel num : ℕ}
  {s s' : VmPoll} {new : List QmanEntry}

/-- An index of the array of VM queues. -/
def IsVm (v : U32) : Prop := v.toNat < flexnicPlVmstNum

instance : DecidablePred IsVm := fun _ => inferInstanceAs (Decidable (_ < _))

theorem IsVm.ne_inval (h : IsVm v) : v ≠ idxlistInval := by
  rintro rfl
  exact absurd h (by decide)

def VmQman.next (m : VmQman) (v : U32) : U32 := (m.queues v).nextIdx

/-- The list of VMs is `vl`, and the flags tell which VMs are in it. -/
structure VmQman.Lists (m : VmQman) (vl : List U32) : Prop where
  fifo : Fifo idxlistInval m.next m.headIdx m.tailIdx vl
  mem : ∀ v, v ∈ vl ↔ (m.queues v).inNolimitl
  vms : ∀ v, (m.queues v).inNolimitl → IsVm v
  ids : ∀ v, (m.queues v).id = v

/-- A VM's entry without its link. -/
def VmQueue.unlinked (q : VmQueue) : VmQueue := { q with nextIdx := 0 }

/-- A VM's entry changed, and the others kept everything but their links. -/
structure VmChanged (m m' : VmQman) (v : U32) (q : VmQueue) : Prop where
  self : (m'.queues v).unlinked = q.unlinked
  others : ∀ w ≠ v, (m'.queues w).unlinked = (m.queues w).unlinked

/-- Two entries that differ in their link at most. -/
structure VmQueue.Same (q q' : VmQueue) : Prop where
  id : q.id = q'.id
  fqman : q.fqman = q'.fqman
  avail : q.avail = q'.avail
  inNolimitl : q.inNolimitl = q'.inNolimitl

theorem VmQueue.same {q q' : VmQueue} (h : q.unlinked = q'.unlinked) : q.Same q' := by
  cases q
  cases q'
  obtain ⟨h₁, -, h₂, h₃, h₄, -, -⟩ := VmQueue.mk.inj h
  exact ⟨h₁, h₂, h₃, h₄⟩

theorem vm_modify_self (m : VmQman) (v : U32) (g : VmQueue → VmQueue) :
    (m.modify v g).queues v = g (m.queues v) := by
  simp [VmQman.modify]

theorem vm_modify_of_ne {g : VmQueue → VmQueue} (h : w ≠ v) :
    (m.modify v g).queues w = m.queues w := by
  simp [VmQman.modify, h]

theorem VmChanged.of_modify {g : VmQueue → VmQueue} (hq : m'.queues = (m.modify v g).queues) :
    VmChanged m m' v (g (m.queues v)) := by
  refine ⟨?_, fun w hw => ?_⟩
  · rw [hq, vm_modify_self]
  · rw [hq, vm_modify_of_ne hw]

theorem VmChanged.same (hc : VmChanged m m' v q) :
    ∀ w, (m'.queues w).Same (update m.queues v q w) :=
  (forall_update_iff m.queues fun w x => (m'.queues w).Same x).2
    ⟨VmQueue.same hc.self, fun w hw => VmQueue.same (hc.others w hw)⟩

theorem VmChanged.fqman (hc : VmChanged m m' v q) (hq : q.fqman = (m.queues v).fqman) (w : U32) :
    (m'.queues w).fqman = (m.queues w).fqman :=
  (hc.same w).fqman.trans ((forall_update_iff m.queues fun w x => x.fqman = (m.queues w).fqman).2
    ⟨hq, fun _ _ => rfl⟩ w)

theorem vm_next_congr (hself : (m'.queues v).nextIdx = (m.queues v).nextIdx)
    (hother : ∀ w ≠ v, m'.queues w = m.queues w) : m'.next = m.next := by
  funext w
  by_cases hw : w = v
  · exact hw ▸ hself
  · exact congrArg VmQueue.nextIdx (hother w hw)

theorem VmQman.Lists.of_changed {vl' : List U32} (h : m.Lists vl) (hc : VmChanged m m' v q)
    (hfifo : Fifo idxlistInval m'.next m'.headIdx m'.tailIdx vl') (hid : q.id = v)
    (hmem : (v ∈ vl' ↔ q.inNolimitl = true) ∧ ∀ w ≠ v, (w ∈ vl' ↔ w ∈ vl))
    (hv : q.inNolimitl → IsVm v) : m'.Lists vl' := by
  have hflag : ∀ w, (m'.queues w).inNolimitl = (update m.queues v q w).inNolimitl := fun w =>
    (hc.same w).inNolimitl
  refine ⟨hfifo, ?_, ?_, fun w => (hc.same w).id.trans ?_⟩
  · simp only [hflag]
    exact (forall_update_iff m.queues fun w x => w ∈ vl' ↔ x.inNolimitl = true).2
      ⟨hmem.1, fun w hw => (hmem.2 w hw).trans (h.mem w)⟩
  · simp only [hflag]
    exact (forall_update_iff m.queues fun w x => x.inNolimitl → IsVm w).2 ⟨hv, fun w _ => h.vms w⟩
  · exact (forall_update_iff m.queues fun w x => x.id = w).2 ⟨hid, fun w _ => h.ids w⟩ w

/-- A change of an entry that keeps its link, its flag and its number. -/
theorem VmQman.Lists.modify (h : m.Lists vl) {g : VmQueue → VmQueue}
    (hnext : (g (m.queues v)).nextIdx = (m.queues v).nextIdx)
    (hid : (g (m.queues v)).id = (m.queues v).id)
    (hflag : (g (m.queues v)).inNolimitl = (m.queues v).inNolimitl) : (m.modify v g).Lists vl := by
  have hkeeps : (m.modify v g).next = m.next :=
    vm_next_congr (by rw [vm_modify_self, hnext]) fun w hw => vm_modify_of_ne hw
  refine h.of_changed (VmChanged.of_modify rfl) ?_ (hid.trans (h.ids v))
    ⟨hflag ▸ h.mem v, fun _ _ => Iff.rfl⟩ (hflag ▸ h.vms v)
  rw [hkeeps]
  exact h.fifo

theorem vmPop_spec (h : m.Lists vl) (hne : m.headIdx ≠ idxlistInval) :
    ∃ rest, vl = m.headIdx :: rest ∧ (vmPop m).Lists rest ∧ IsVm m.headIdx ∧
      (vmPop m).queues = (m.modify m.headIdx fun q => { q with inNolimitl := false }).queues := by
  obtain ⟨rest, rfl, -⟩ := h.fifo.path.exists_cons hne
  have hq : (vmPop m).queues =
      (m.modify m.headIdx fun q => { q with inNolimitl := false }).queues := rfl
  have hkeeps : (vmPop m).next = m.next :=
    vm_next_congr (by rw [hq, vm_modify_self]) fun w hw => by rw [hq, vm_modify_of_ne hw]
  refine ⟨rest, rfl, ?_, h.vms _ ((h.mem _).1 (by simp)), hq⟩
  refine h.of_changed (VmChanged.of_modify hq) ?_ (h.ids _) ?_ (by simp)
  · rw [hkeeps]
    exact h.fifo.pop
  · have hnot := (nodup_cons.1 h.fifo.nodup).1
    exact ⟨by simp [hnot], fun w hw => by simp [hw]⟩

theorem vmQueueActivate_spec (h : m.Lists vl) (hv : IsVm v)
    (hflag : (m.queues v).inNolimitl = false) :
    ∃ m', vmQueueActivate m v v = .ok m' ∧ m'.Lists (vl ++ [v]) ∧
      VmChanged m m' v { m.queues v with inNolimitl := true } := by
  have hnew : v ∉ vl := fun hmem => nomatch hflag.symm.trans ((h.mem v).1 hmem)
  have hmem : (v ∈ vl ++ [v] ↔ true = true) ∧ ∀ w ≠ v, (w ∈ vl ++ [v] ↔ w ∈ vl) :=
    ⟨by simp, fun w hw => by simp [hw]⟩
  unfold vmQueueActivate
  rw [if_neg (by simp [hflag])]
  set m₁ := m.modify v fun q => { q with inNolimitl := true, nextIdx := idxlistInval } with hm₁
  have hself : m₁.queues v = { m.queues v with inNolimitl := true, nextIdx := idxlistInval } :=
    vm_modify_self ..
  have hothers : ∀ w ≠ v, m₁.queues w = m.queues w := fun w hw => vm_modify_of_ne hw
  have hchanged : VmChanged m m₁ v { m.queues v with inNolimitl := true } := by
    refine ⟨?_, fun w hw => ?_⟩
    · rw [hself]
      rfl
    · rw [hothers w hw]
  by_cases htail : m₁.tailIdx = idxlistInval
  · rw [if_pos htail]
    have hempty : vl = [] := h.fifo.tail_eq_nil_iff.1 htail
    refine ⟨_, rfl, ?_, hchanged.self, hchanged.others⟩
    refine h.of_changed ⟨hchanged.self, hchanged.others⟩ ?_ (h.ids v) hmem fun _ => hv
    rw [hempty]
    refine Fifo.push_empty hv.ne_inval ?_
    exact congrArg VmQueue.nextIdx hself
  · rw [if_neg htail]
    have htail' : m.tailIdx ≠ idxlistInval := htail
    have htmem : m.tailIdx ∈ vl := h.fifo.tail_mem htail'
    have htv : m.tailIdx ≠ v := fun he => hnew (he ▸ htmem)
    set m₂ := m₁.modify m₁.tailIdx fun q => { q with nextIdx := v } with hm₂
    have htself : m₂.queues m.tailIdx = { m₁.queues m.tailIdx with nextIdx := v } :=
      vm_modify_self ..
    have htothers : ∀ w ≠ m.tailIdx, m₂.queues w = m₁.queues w := fun w hw =>
      vm_modify_of_ne hw
    have hchanged' : VmChanged m { m₂ with tailIdx := v } v
        { m.queues v with inNolimitl := true } := by
      refine ⟨?_, fun w hw => ?_⟩
      · exact (congrArg VmQueue.unlinked (htothers v htv.symm)).trans hchanged.self
      · by_cases hwt : w = m.tailIdx
        · rw [hwt]
          exact (congrArg VmQueue.unlinked htself).trans (hchanged.others _ (hwt ▸ hw))
        · exact (congrArg VmQueue.unlinked (htothers w hwt)).trans (hchanged.others w hw)
    refine ⟨_, rfl, ?_, hchanged'⟩
    refine h.of_changed hchanged' ?_ (h.ids v) hmem fun _ => hv
    refine h.fifo.push htail' hv.ne_inval hnew ?_ ?_ fun w hw hwt => ?_
    · exact congrArg VmQueue.nextIdx ((htothers v htv.symm).trans hself)
    · exact congrArg VmQueue.nextIdx htself
    · have hwv : w ≠ v := by rintro rfl; exact hnew hw
      exact congrArg VmQueue.nextIdx ((htothers w hwt).trans (hothers w hwv))

/-! ### Bytes of a VM -/

/-- Bytes of a VM's flows. -/
def VmQueue.flowBytes (q : VmQueue) : ℕ :=
  ∑ i ∈ Finset.range flexnicNumQmflowqueues, (q.fqman.queues (BitVec.ofNat 32 i)).avail.toNat

/-- The VM's bytes are those of its flows. -/
def VmQueue.Accounted (q : VmQueue) : Prop := q.avail.toNat = q.flowBytes

theorem isFlow_ofNat {i : ℕ} (hi : i ∈ Finset.range flexnicNumQmflowqueues) :
    (BitVec.ofNat 32 i).toNat = i := by
  have hlt := Finset.mem_range.1 hi
  have hnum : flexnicNumQmflowqueues = 131072 := rfl
  exact Word.toNat_ofNat_of_lt (by omega)

/-- The entries of all flows are all the entries. -/
theorem sum_bytesOf (h : ∀ e ∈ new, IsFlow e.qId) :
    ∑ i ∈ Finset.range flexnicNumQmflowqueues, bytesOf (BitVec.ofNat 32 i) new =
      totalBytes new := by
  induction new with
  | nil => simp [bytesOf, totalBytes]
  | cons e es ih =>
    have hcons : ∀ f, bytesOf f (e :: es) = (if e.qId = f then e.bytes.toNat else 0) +
        bytesOf f es := by
      intro f
      by_cases hf : e.qId = f <;> simp [bytesOf, hf]
    have htotal : totalBytes (e :: es) = e.bytes.toNat + totalBytes es := by simp [totalBytes]
    have hself : ∑ i ∈ Finset.range flexnicNumQmflowqueues,
        (if e.qId = BitVec.ofNat 32 i then e.bytes.toNat else 0) = e.bytes.toNat := by
      have hmem : e.qId.toNat ∈ Finset.range flexnicNumQmflowqueues :=
        Finset.mem_range.2 (h e (by simp))
      rw [Finset.sum_eq_single_of_mem e.qId.toNat hmem]
      · simp
      · intro i hi hne
        rw [if_neg]
        intro heq
        exact hne (by rw [heq, isFlow_ofNat hi])
    simp only [hcons, htotal]
    rw [Finset.sum_add_distrib, hself, ih fun e' he' => h e' (by simp [he'])]

theorem VmQueue.flowBytes_pos {q : VmQueue} (hflow : IsFlow f) (hpos : 0 <
    (q.fqman.queues f).avail) :
    0 < q.flowBytes := by
  have hmem : f.toNat ∈ Finset.range flexnicNumQmflowqueues := Finset.mem_range.2 hflow
  have hle := Finset.single_le_sum (f := fun i => (q.fqman.queues (BitVec.ofNat 32 i)).avail.toNat)
    (fun i _ => Nat.zero_le _) hmem
  have hpos' : 0 < (q.fqman.queues f).avail.toNat := hpos
  simp only [BitVec.ofNat_toNat, BitVec.setWidth_eq] at hle
  exact lt_of_lt_of_le hpos' hle

/-! ### Polling one VM -/

/-- The flows of the VM `idx` were polled and returned `new`. -/
structure FlowsServed (num : ℕ) (s s' : VmPoll) (idx bytes : U32) (new : List QmanEntry) :
    Prop where
  others : ∀ w ≠ idx, s'.vqman.queues w = s.vqman.queues w
  ends : s'.vqman.headIdx = s.vqman.headIdx ∧ s'.vqman.tailIdx = s.vqman.tailIdx
  outer : (s'.vqman.queues idx).id = (s.vqman.queues idx).id ∧
    (s'.vqman.queues idx).nextIdx = (s.vqman.queues idx).nextIdx ∧
    (s'.vqman.queues idx).avail = (s.vqman.queues idx).avail ∧
    (s'.vqman.queues idx).inNolimitl = (s.vqman.queues idx).inNolimitl
  ok : (s'.vqman.queues idx).fqman.Ok
  out : s'.out = s.out ++ new
  cnt : s'.cnt = s.cnt + new.length
  le : s'.cnt ≤ num
  bytes_eq : bytes = BitVec.ofNat 32 (totalBytes new)
  entry : ∀ e ∈ new, e.vmId = (s.vqman.queues idx).id ∧ IsFlow e.qId ∧
    e.bytes ≤ ((s.vqman.queues idx).fqman.queues e.qId).maxChunk
  spent : ∀ f, ((s'.vqman.queues idx).fqman.queues f).avail.toNat + bytesOf f new =
    ((s.vqman.queues idx).fqman.queues f).avail.toNat
  params : ∀ f, ((s'.vqman.queues idx).fqman.queues f).maxChunk =
    ((s.vqman.queues idx).fqman.queues f).maxChunk
  fresh : (s.vqman.queues idx).fqman.NoStale → (s'.vqman.queues idx).fqman.NoStale
  limited : (s.vqman.queues idx).fqman.NoStale → s'.skpl.rateLimited →
    ∃ f, 0 < ((s'.vqman.queues idx).fqman.queues f).avail
  idle : s.cnt < num → new = [] → s'.skpl.rateLimited = false →
    ∀ f, ((s'.vqman.queues idx).fqman.queues f).avail = 0
  rvq : s'.rvq = s.rvq
  oobVms : s'.oobVms = s.oobVms

theorem pollFlows_spec (hok : (s.vqman.queues idx).fqman.Ok) (hcnt : s.cnt ≤ num) :
    Meets (flexnicNumQmflowqueues + num < fuel)
      (fun r => ∃ new, FlowsServed num s r.1 idx r.2 new) (s.pollFlows fuel num idx) := by
  unfold VmPoll.pollFlows
  refine Meets.bind ((flowQmanPoll_spec hok).mono (by omega) fun _ => id) ?_
  rintro ⟨x, p⟩ ⟨new, hp⟩
  have hself : ((s.vqman.modify idx fun _ => p.vq).queues idx) = p.vq := vm_modify_self ..
  have hx : x = new.length := hp.cnt
  have hle : x ≤ num - s.cnt := hp.le
  refine meets_ok ⟨new, ?_⟩
  constructor
  · intro w hw
    exact vm_modify_of_ne (g := fun _ => p.vq) hw
  · exact ⟨rfl, rfl⟩
  · rw [hself]
    exact hp.polled.outer
  · rw [hself]
    exact hp.ok
  · exact hp.polled.out
  · change s.cnt + x = _
    rw [hx]
  · change s.cnt + x ≤ num
    omega
  · change p.bytesSum = _
    rw [hp.polled.sum]
    simp
  · exact hp.polled.entry
  · intro f
    rw [hself]
    exact hp.polled.spent f
  · intro f
    rw [hself]
    exact (hp.polled.params f).2
  · intro hs
    rw [hself]
    exact hp.polled.fresh hs
  · intro hs hlim
    rw [hself]
    exact hp.limited rfl hs hlim
  · intro hlt hnew hlim f
    rw [hself]
    exact hp.idle (by omega) hnew hlim f
  · rfl
  · rfl

/-- The flows' bytes went down by those of the entries. -/
theorem FlowsServed.flowBytes (h : FlowsServed num s s' idx bytes new) :
    (s'.vqman.queues idx).flowBytes + totalBytes new = (s.vqman.queues idx).flowBytes := by
  rw [← sum_bytesOf fun e he => (h.entry e he).2.1]
  unfold VmQueue.flowBytes
  rw [← Finset.sum_add_distrib]
  exact Finset.sum_congr rfl fun i _ => h.spent _

/-- Charge a VM the bytes it sent, and append it to the list again if it has some left. -/
def settle (m : VmQman) (idx bytes : U32) : Except Fault VmQman :=
  if (m.queues idx).avail > 0 then vmQueueFire m idx idx bytes else .ok m

/-- The VM's bytes after they are charged. -/
def VmQueue.left (q : VmQueue) (bytes : U32) : U32 :=
  if q.avail > 0 then q.avail - bytes else q.avail

theorem settle_spec (h : m.Lists vl) (hv : IsVm v) (hflag : (m.queues v).inNolimitl = false)
    (bytes : U32) :
    ∃ m', settle m v bytes = .ok m' ∧
      m'.Lists (if 0 < (m.queues v).left bytes then vl ++ [v] else vl) ∧
      VmChanged m m' v { m.queues v with
        avail := (m.queues v).left bytes
        inNolimitl := decide (0 < (m.queues v).left bytes) } := by
  unfold settle
  by_cases hpos : (m.queues v).avail > 0
  · have hleft : (m.queues v).left bytes = (m.queues v).avail - bytes := if_pos hpos
    rw [if_pos hpos]
    unfold vmQueueFire
    rw [if_neg (Word.pos_iff_ne_zero.1 hpos)]
    have hself := vm_modify_self m v fun q => { q with avail := q.avail - bytes }
    have hothers : ∀ w ≠ v, (m.modify v fun q => { q with avail := q.avail - bytes }).queues w =
        m.queues w := fun w hw => vm_modify_of_ne hw
    have hlists : (m.modify v fun q => { q with avail := q.avail - bytes }).Lists vl :=
      h.modify rfl rfl rfl
    set m₁ := m.modify v fun q => { q with avail := q.avail - bytes } with hm₁
    have havail : (m₁.queues v).avail = (m.queues v).avail - bytes := by rw [hself]
    by_cases hrest : 0 < (m.queues v).avail - bytes
    · obtain ⟨m', hm', hlists', hchanged⟩ :=
        vmQueueActivate_spec hlists hv (by rw [hself]; exact hflag)
      refine ⟨m', ?_, ?_, ?_, fun w hw => ?_⟩
      · rw [if_pos (by rw [havail]; exact hrest), hm']
      · rw [hleft, if_pos hrest]
        exact hlists'
      · rw [hchanged.self, hself, hleft, decide_eq_true hrest]
      · rw [hchanged.others w hw, hothers w hw]
    · refine ⟨m₁, ?_, ?_, ?_, fun w hw => ?_⟩
      · rw [if_neg (by rw [havail]; exact hrest)]
      · rw [hleft, if_neg hrest]
        exact hlists
      · rw [hself, hleft, decide_eq_false hrest, ← hflag]
      · rw [hothers w hw]
  · have hleft : (m.queues v).left bytes = (m.queues v).avail := if_neg hpos
    refine ⟨m, if_neg hpos, ?_, ?_, fun w hw => rfl⟩
    · rw [hleft, if_neg hpos]
      exact h
    · rw [hleft, decide_eq_false hpos, ← hflag]

/-! ### What a poll keeps -/

/-- Bytes of the entries of a VM's flow. -/
def spentOf (v f : U32) (es : List QmanEntry) : ℕ :=
  ((es.filter fun e => e.vmId = v ∧ e.qId = f).map fun e => e.bytes.toNat).sum

/-- In a poll that began in `m₀` and returned `out` so far: the list is `vl`, and the VMs in
`parked` are off the list for the moment. -/
structure VmInv (num : ℕ) (m₀ m : VmQman) (out : List QmanEntry) (cnt : ℕ) (vl parked : List U32) :
    Prop where
  lists : m.Lists vl
  ok : ∀ v, (m.queues v).fqman.Ok
  nodup : parked.Nodup
  parked_off : ∀ v ∈ parked, IsVm v ∧ (m.queues v).inNolimitl = false
  covered : ∀ v, 0 < (m.queues v).avail → (m.queues v).inNolimitl ∨ v ∈ parked
  count : cnt = out.length
  le : cnt ≤ num
  entry : ∀ e ∈ out, IsVm e.vmId ∧ IsFlow e.qId ∧
    e.bytes ≤ ((m₀.queues e.vmId).fqman.queues e.qId).maxChunk
  spent : ∀ v f, ((m.queues v).fqman.queues f).avail.toNat + spentOf v f out =
    ((m₀.queues v).fqman.queues f).avail.toNat
  chunk : ∀ v f, ((m.queues v).fqman.queues f).maxChunk = ((m₀.queues v).fqman.queues f).maxChunk
  accounted : (∀ v, (m₀.queues v).Accounted) → ∀ v, (m.queues v).Accounted

theorem spentOf_append (es es' : List QmanEntry) :
    spentOf v f (es ++ es') = spentOf v f es + spentOf v f es' := by
  simp [spentOf]

theorem spentOf_eq (h : ∀ e ∈ new, e.vmId = v) (f : U32) : spentOf v f new = bytesOf f new := by
  unfold spentOf bytesOf
  congr 2
  refine filter_congr fun e he => ?_
  simp [h e he]

theorem spentOf_of_ne (h : ∀ e ∈ new, e.vmId = v) (hw : w ≠ v) (f : U32) : spentOf w f new = 0 := by
  unfold spentOf
  rw [filter_eq_nil_iff.2]
  · rfl
  · intro e he
    simp [h e he, hw.symm]

section Invariant

variable {m₀ : VmQman} {out : List QmanEntry} {cnt : ℕ} {parked parked' rest : List U32}

/-- Changes of one VM that leave its flows alone. -/
theorem VmInv.of_changed {vl' : List U32} (h : VmInv num m₀ m out cnt vl parked)
    (hlists : m'.Lists vl') (hc : VmChanged m m' v q) (hfqman : q.fqman = (m.queues v).fqman)
    (havail : q.avail = (m.queues v).avail) (hnodup : parked'.Nodup)
    (hoff : ∀ w ∈ parked', IsVm w ∧ (m'.queues w).inNolimitl = false)
    (hcov : ∀ w, 0 < (m.queues w).avail → (m'.queues w).inNolimitl ∨ w ∈ parked') :
    VmInv num m₀ m' out cnt vl' parked' := by
  have hflows := hc.fqman hfqman
  have hbytes : ∀ w, (m'.queues w).avail = (m.queues w).avail := fun w => (hc.same w).avail.trans
    ((forall_update_iff m.queues fun w x => x.avail = (m.queues w).avail).2
      ⟨havail, fun _ _ => rfl⟩ w)
  refine ⟨hlists, fun w => ?_, hnodup, hoff, fun w hw => ?_, h.count, h.le, h.entry, fun w f => ?_,
    fun w f => ?_, fun h₀ w => ?_⟩
  · exact hflows w ▸ h.ok w
  · exact hcov w (hbytes w ▸ hw)
  · rw [hflows w]
    exact h.spent w f
  · rw [hflows w]
    exact h.chunk w f
  · have hacc := h.accounted h₀ w
    unfold VmQueue.Accounted VmQueue.flowBytes at hacc ⊢
    rw [hflows w, hbytes w]
    exact hacc

theorem VmInv.pop (h : VmInv num m₀ m out cnt vl parked) (hne : m.headIdx ≠ idxlistInval) :
    ∃ rest, vl = m.headIdx :: rest ∧
      VmInv num m₀ (vmPop m) out cnt rest (m.headIdx :: parked) := by
  obtain ⟨rest, hvl, hlists, hvm, hq⟩ := vmPop_spec h.lists hne
  have hflag : (m.queues m.headIdx).inNolimitl := (h.lists.mem _).1 (by rw [hvl]; simp)
  have hself : (vmPop m).queues m.headIdx = { m.queues m.headIdx with inNolimitl := false } := by
    rw [hq, vm_modify_self]
  have hothers : ∀ w ≠ m.headIdx, (vmPop m).queues w = m.queues w := fun w hw => by
    rw [hq, vm_modify_of_ne hw]
  refine ⟨rest, hvl, h.of_changed hlists (VmChanged.of_modify hq) rfl rfl ?_ ?_ ?_⟩
  · refine nodup_cons.2 ⟨fun hmem => ?_, h.nodup⟩
    exact nomatch (h.parked_off _ hmem).2.symm.trans hflag
  · intro w hw
    by_cases hwh : w = m.headIdx
    · rw [hwh, hself]
      exact ⟨hvm, rfl⟩
    · rw [hothers w hwh]
      exact h.parked_off w ((mem_cons.1 hw).resolve_left hwh)
  · intro w hpos
    by_cases hwh : w = m.headIdx
    · exact Or.inr (by simp [hwh])
    · rw [hothers w hwh]
      exact (h.covered w hpos).imp_right fun hmem => mem_cons_of_mem _ hmem

/-- The order of the parked VMs does not matter, and those without bytes may be forgotten. -/
theorem VmInv.repark (h : VmInv num m₀ m out cnt vl parked) (hnodup : parked'.Nodup)
    (hsub : ∀ v ∈ parked', v ∈ parked) (hcov : ∀ v ∈ parked, 0 < (m.queues v).avail → v ∈ parked') :
    VmInv num m₀ m out cnt vl parked' :=
  { h with
    nodup := hnodup
    parked_off := fun v hv => h.parked_off v (hsub v hv)
    covered := fun v hpos => (h.covered v hpos).imp_right fun hmem => hcov v hmem hpos }

/-- Append a parked VM to the list again. -/
theorem VmInv.activate (h : VmInv num m₀ m out cnt vl (v :: parked)) :
    ∃ m', vmQueueActivate m v (m.queues v).id = .ok m' ∧
      VmInv num m₀ m' out cnt (vl ++ [v]) parked := by
  obtain ⟨hvm, hflag⟩ := h.parked_off v (by simp)
  obtain ⟨m', hm', hlists, hchanged⟩ := vmQueueActivate_spec h.lists hvm hflag
  obtain ⟨hnot, hnodup⟩ := nodup_cons.1 h.nodup
  rw [h.lists.ids v]
  refine ⟨m', hm', h.of_changed hlists hchanged rfl rfl hnodup ?_ ?_⟩
  · intro w hw
    have hwv : w ≠ v := by rintro rfl; exact hnot hw
    rw [(VmQueue.same (hchanged.others w hwv)).inNolimitl]
    exact h.parked_off w (mem_cons_of_mem _ hw)
  · intro w hpos
    by_cases hwv : w = v
    · rw [hwv, (VmQueue.same hchanged.self).inNolimitl]
      exact Or.inl rfl
    · rw [(VmQueue.same (hchanged.others w hwv)).inNolimitl]
      exact (h.covered w hpos).imp_right fun hmem => (mem_cons.1 hmem).resolve_left hwv

/-- The bytes charged to a VM are those of the entries. -/
theorem FlowsServed.accounted (h : FlowsServed num s s' idx bytes new)
    (hacc : (s.vqman.queues idx).Accounted) :
    ((s'.vqman.queues idx).left bytes).toNat = (s'.vqman.queues idx).flowBytes := by
  have hflow := h.flowBytes
  have hacc : (s.vqman.queues idx).avail.toNat = (s.vqman.queues idx).flowBytes := hacc
  have havail := h.outer.2.2.1
  have hlt := (s.vqman.queues idx).avail.isLt
  have hbytes : bytes.toNat = totalBytes new := by
    rw [h.bytes_eq]
    exact Word.toNat_ofNat_of_lt (by omega)
  unfold VmQueue.left
  rw [havail]
  by_cases hpos : (s.vqman.queues idx).avail > 0
  · rw [if_pos hpos, Word.toNat_sub_of_le (by omega)]
    omega
  · rw [if_neg hpos]
    have hzero : (s.vqman.queues idx).avail.toNat = 0 := by
      have hle : ¬ 0 < (s.vqman.queues idx).avail.toNat := hpos
      omega
    omega

/-- Poll a parked VM, charge it and append it again if it has bytes left. -/
theorem VmInv.serve (h : VmInv num m₀ s.vqman s.out s.cnt vl (idx :: parked))
    (hserved : FlowsServed num s s' idx bytes new) :
    ∃ m', settle s'.vqman idx bytes = .ok m' ∧
      VmInv num m₀ m' s'.out s'.cnt
        (if 0 < (s'.vqman.queues idx).left bytes then vl ++ [idx] else vl) parked ∧
      VmChanged s'.vqman m' idx { s'.vqman.queues idx with
        avail := (s'.vqman.queues idx).left bytes
        inNolimitl := decide (0 < (s'.vqman.queues idx).left bytes) } := by
  obtain ⟨hvm, hflag⟩ := h.parked_off idx (by simp)
  obtain ⟨hnot, hnodup⟩ := nodup_cons.1 h.nodup
  obtain ⟨hid, hnext, havail, hflag'⟩ := hserved.outer
  rw [h.lists.ids idx] at hid
  have hvmId : ∀ e ∈ new, e.vmId = idx := fun e he =>
    (hserved.entry e he).1.trans (h.lists.ids idx)
  -- polling the flows does not touch the list of VMs
  have hlists : s'.vqman.Lists vl := by
    refine h.lists.of_changed (v := idx) ⟨rfl, fun w hw => by rw [hserved.others w hw]⟩ ?_ hid
      ⟨hflag' ▸ h.lists.mem idx, fun _ _ => Iff.rfl⟩ fun _ => hvm
    rw [vm_next_congr hnext hserved.others, hserved.ends.1, hserved.ends.2]
    exact h.lists.fifo
  obtain ⟨m', hm', hlists', hchanged⟩ := settle_spec hlists hvm (hflag'.trans hflag) bytes
  have hself := VmQueue.same hchanged.self
  have hother : ∀ w ≠ idx, (m'.queues w).Same (s.vqman.queues w) := fun w hw => by
    rw [← hserved.others w hw]
    exact VmQueue.same (hchanged.others w hw)
  refine ⟨m', hm', ⟨hlists', fun w => ?_, hnodup, fun w hw => ?_, fun w hpos => ?_, ?_, hserved.le,
    fun e he => ?_, fun w f => ?_, fun w f => ?_, fun h₀ w => ?_⟩, hchanged⟩
  · by_cases hw : w = idx
    · rw [hw, hself.fqman]
      exact hserved.ok
    · rw [(hother w hw).fqman]
      exact h.ok w
  · have hwi : w ≠ idx := by rintro rfl; exact hnot hw
    rw [(hother w hwi).inNolimitl]
    exact h.parked_off w (mem_cons_of_mem _ hw)
  · by_cases hw : w = idx
    · rw [hw, hself.avail] at hpos
      rw [hw, hself.inNolimitl]
      exact Or.inl (decide_eq_true hpos)
    · rw [(hother w hw).avail] at hpos
      rw [(hother w hw).inNolimitl]
      exact (h.covered w hpos).imp_right fun hmem => (mem_cons.1 hmem).resolve_left hw
  · rw [hserved.cnt, hserved.out, length_append, h.count]
  · rw [hserved.out] at he
    obtain he | he := mem_append.1 he
    · exact h.entry e he
    · obtain ⟨-, hflow, hchunk⟩ := hserved.entry e he
      rw [hvmId e he, ← h.chunk idx e.qId]
      exact ⟨hvm, hflow, hchunk⟩
  · rw [hserved.out, spentOf_append]
    have hspent := h.spent w f
    by_cases hw : w = idx
    · subst hw
      have hnew := hserved.spent f
      rw [hself.fqman, spentOf_eq hvmId]
      change ((s'.vqman.queues w).fqman.queues f).avail.toNat + _ = _
      omega
    · rw [(hother w hw).fqman, spentOf_of_ne hvmId hw]
      exact hspent
  · by_cases hw : w = idx
    · rw [hw, hself.fqman]
      exact (hserved.params f).trans (h.chunk idx f)
    · rw [(hother w hw).fqman]
      exact h.chunk w f
  · have hacc := h.accounted h₀ w
    by_cases hw : w = idx
    · rw [hw] at hacc ⊢
      have hleft := hserved.accounted hacc
      unfold VmQueue.Accounted VmQueue.flowBytes
      rw [hself.avail, hself.fqman]
      exact hleft
    · unfold VmQueue.Accounted VmQueue.flowBytes at hacc ⊢
      rw [(hother w hw).avail, (hother w hw).fqman]
      exact hacc

end Invariant

/-! ### The loops over VMs -/

section Loops

variable {m₀ : VmQman} {budgets : U32 → ℤ} {rest : List U32} {n : ℕ} {rvq : Option U32}

theorem VmQman.Lists.length_le (h : m.Lists vl) : vl.length ≤ flexnicPlVmstNum :=
  length_le_of_lt h.fifo.nodup fun v hv => h.vms v ((h.mem v).1 hv)

/-- How many more VMs are visited if none returns an entry: all of them, until one is found to be
rate limited, and then those before it. -/
def visitsLeft (rvq : Option U32) (vl : List U32) : ℕ :=
  match rvq with
  | none => flexnicPlVmstNum + 1 + vl.length
  | some v => vl.idxOf v

theorem visitsLeft_cons (hrvq : rvq ≠ some idx) :
    visitsLeft rvq rest < visitsLeft rvq (idx :: rest) := by
  cases rvq with
  | none =>
    simp only [visitsLeft, length_cons]
    omega
  | some v =>
    have hne : idx ≠ v := fun he => hrvq (by rw [he])
    change rest.idxOf v < (idx :: rest).idxOf v
    rw [idxOf_cons_ne _ hne]
    exact Nat.lt_succ_self _

theorem visitsLeft_append (hmem : v ∈ rest) :
    visitsLeft (some v) (rest ++ [idx]) = visitsLeft (some v) rest :=
  idxOf_append_of_mem hmem

/-- Conditions under which the first loop ends, and the work that is left for it. -/
structure LoopWork (fuel num : ℕ) (budgets : U32 → ℤ) (m₀ : VmQman) (n : ℕ) (s : VmPoll)
    (vl : List U32) : Prop where
  enough : flexnicNumQmflowqueues + num < fuel
  accounted : ∀ v, (m₀.queues v).Accounted
  fresh : ∀ v ∈ vl, 0 < budgets v → (s.vqman.queues v).fqman.NoStale
  listed : ∀ v, s.rvq = some v → v ∈ vl
  left : num - s.cnt + visitsLeft s.rvq vl < n

theorem fire_eq (h : settle s.vqman idx bytes = .ok m') :
    s.fire idx bytes = .ok { s with
      vqman := m'
      rvq := if (s.vqman.queues idx).avail > 0 ∧ s.skpl.rateLimited ∧ s.rvq = none then some idx
        else s.rvq } := by
  unfold settle at h
  unfold VmPoll.fire
  by_cases hpos : (s.vqman.queues idx).avail > 0
  · rw [if_pos hpos] at h
    rw [if_pos hpos, h]
    simp only [hpos, true_and]
    rfl
  · rw [if_neg hpos] at h
    rw [if_neg hpos, if_neg fun hc => hpos hc.1, ← Except.ok.inj h]

/-- A VM that was found rate limited and has no idle entries in its skip list keeps bytes. -/
theorem FlowsServed.left_pos (h : FlowsServed num s s' idx bytes new)
    (hacc : (s.vqman.queues idx).Accounted) (hfresh : (s.vqman.queues idx).fqman.NoStale)
    (hlim : s'.skpl.rateLimited) : 0 < (s'.vqman.queues idx).left bytes := by
  obtain ⟨f, hf⟩ := h.limited hfresh hlim
  have hflow : IsFlow f := by
    obtain ⟨nl, lv, hlists⟩ := h.ok.lists
    exact hlists.flows f (h.ok.covered f hf)
  have hpos := VmQueue.flowBytes_pos hflow hf
  rw [← h.accounted hacc] at hpos
  exact hpos

/-- A VM that returned nothing and was not rate limited has no bytes. -/
theorem FlowsServed.left_zero (h : FlowsServed num s s' idx bytes new)
    (hacc : (s.vqman.queues idx).Accounted) (hcnt : s.cnt < num) (hnew : new = [])
    (hlim : s'.skpl.rateLimited = false) : ¬ 0 < (s'.vqman.queues idx).left bytes := by
  have hzero : (s'.vqman.queues idx).flowBytes = 0 := by
    unfold VmQueue.flowBytes
    refine Finset.sum_eq_zero fun i _ => ?_
    rw [h.idle hcnt hnew hlim]
    rfl
  have hleft := h.accounted hacc
  rw [hzero] at hleft
  intro hpos
  have hpos : 0 < ((s'.vqman.queues idx).left bytes).toNat := hpos
  omega

/-- The work left after a VM in budget was served. -/
theorem LoopWork.serve (h : LoopWork fuel num budgets m₀ (n + 1) s vl) {s₁ : VmPoll}
    (hvl : vl = idx :: rest) (hnodup : vl.Nodup) (hrvq : s.rvq ≠ some idx)
    (hbudget : 0 < budgets idx) (hcnt : s.cnt < num) (hserved : FlowsServed num s₁ s' idx bytes new)
    (hs₁ : s₁.cnt = s.cnt ∧ s₁.rvq = s.rvq)
    (hfqman : ∀ v, (s₁.vqman.queues v).fqman = (s.vqman.queues v).fqman)
    (hacc : (s₁.vqman.queues idx).Accounted)
    (hchanged : ∀ v, (m'.queues v).fqman = (s'.vqman.queues v).fqman) (s'' : VmPoll)
    (hs'' : s''.cnt = s'.cnt ∧ s''.vqman = m' ∧ s''.rvq =
      if (s'.vqman.queues idx).avail > 0 ∧ s'.skpl.rateLimited ∧ s'.rvq = none then some idx
        else s'.rvq) :
    LoopWork fuel num budgets m₀ n s''
      (if 0 < (s'.vqman.queues idx).left bytes then rest ++ [idx] else rest) := by
  have hfresh : (s₁.vqman.queues idx).fqman.NoStale := by
    rw [hfqman]
    exact h.fresh idx (by simp [hvl]) hbudget
  obtain ⟨hcnt'', hm'', hrvq''⟩ := hs''
  rw [hserved.rvq, hs₁.2] at hrvq''
  have hidx : idx ∉ rest := by
    rw [hvl] at hnodup
    exact (nodup_cons.1 hnodup).1
  set vl' := if 0 < (s'.vqman.queues idx).left bytes then rest ++ [idx] else rest with hvl'
  have hrest : ∀ v ∈ rest, v ∈ vl' := by
    intro v hv
    rw [hvl']
    split
    · exact mem_append_left _ hv
    · exact hv
  have hmem : ∀ v ∈ vl', v = idx ∨ v ∈ rest := by
    intro v hv
    rw [hvl'] at hv
    split at hv
    · obtain hv | hv := mem_append.1 hv
      · exact Or.inr hv
      · exact Or.inl (mem_singleton.1 hv)
    · exact Or.inr hv
  have hcnt₁ := hserved.cnt
  rw [hs₁.1] at hcnt₁
  have hle := hserved.le
  refine ⟨h.enough, h.accounted, fun v hv hb => ?_, fun v hv => ?_, ?_⟩
  · rw [hm'', hchanged]
    by_cases hvi : v = idx
    · rw [hvi]
      exact hserved.fresh hfresh
    · rw [hserved.others v hvi, hfqman]
      exact h.fresh v (by rw [hvl]; exact mem_cons_of_mem _ ((hmem v hv).resolve_left hvi)) hb
  · rw [hrvq''] at hv
    by_cases hset : (s'.vqman.queues idx).avail > 0 ∧ s'.skpl.rateLimited ∧ s.rvq = none
    · rw [if_pos hset] at hv
      rw [← Option.some.inj hv, hvl', if_pos (hserved.left_pos hacc hfresh hset.2.1)]
      simp
    · rw [if_neg hset] at hv
      have hvi : v ≠ idx := fun he => hrvq (by rw [hv, he])
      have hin := h.listed v hv
      rw [hvl] at hin
      exact hrest v ((mem_cons.1 hin).resolve_left hvi)
  · have hwork := h.left
    rw [hvl] at hwork
    rw [hcnt'']
    suffices hstep : num - s'.cnt + visitsLeft s''.rvq vl' <
        num - s.cnt + visitsLeft s.rvq (idx :: rest) by omega
    have hshort : vl'.length ≤ rest.length + 1 := by
      rw [hvl']
      split <;> simp
    cases hr : s.rvq with
    | some v =>
      rw [hr, if_neg (by simp)] at hrvq''
      have hin := h.listed v hr
      have hvi : v ≠ idx := fun he => hrvq (by rw [hr, he])
      rw [hvl] at hin
      have hsame : visitsLeft (some v) vl' = visitsLeft (some v) rest := by
        rw [hvl']
        split
        · exact visitsLeft_append ((mem_cons.1 hin).resolve_left hvi)
        · rfl
      have hless := @visitsLeft_cons _ rest _ (hr ▸ hrvq)
      rw [hrvq'', hsame]
      omega
    | none =>
      by_cases hset : (s'.vqman.queues idx).avail > 0 ∧ s'.skpl.rateLimited
      · rw [hrvq'', hr, if_pos ⟨hset.1, hset.2, rfl⟩]
        have := idxOf_le_length (a := idx) (l := vl')
        simp only [visitsLeft, length_cons]
        omega
      rw [hrvq'', hr, if_neg fun hc => hset ⟨hc.1, hc.2.1⟩]
      simp only [visitsLeft, length_cons]
      by_cases hnew : new = []
      · -- nothing returned and not rate limited: the VM leaves the list
        have hlim : s'.skpl.rateLimited = false := by
          by_contra hlim
          have hlim : s'.skpl.rateLimited = true := by simpa using hlim
          have hpos := hserved.left_pos hacc hfresh hlim
          unfold VmQueue.left at hpos
          split at hpos
          · exact hset ⟨by assumption, hlim⟩
          · contradiction
        have hgone := hserved.left_zero hacc (by rw [hs₁.1]; exact hcnt) hnew hlim
        have hvl'' : vl' = rest := by rw [hvl', if_neg hgone]
        rw [hvl'']
        omega
      · have hpos : 0 < new.length := length_pos_of_ne_nil hnew
        omega

theorem vmLoop_spec {live : Prop} (h : VmInv num m₀ s.vqman s.out s.cnt vl s.oobVms)
    (henough : live → flexnicNumQmflowqueues + num < fuel)
    (hwork : live → LoopWork fuel num budgets m₀ n s vl) :
    Meets live (fun s' => ∃ vl', VmInv num m₀ s'.vqman s'.out s'.cnt vl' s'.oobVms)
      (vmLoop fuel num budgets n s) := by
  induction n generalizing s vl with
  | zero => exact fun hlive => absurd (hwork hlive).left (Nat.not_lt_zero _)
  | succ n ih =>
    unfold vmLoop
    by_cases hgo : s.cnt < num ∧ s.vqman.headIdx ≠ idxlistInval
    swap
    · rw [if_neg hgo]
      exact meets_ok ⟨vl, h⟩
    rw [if_pos hgo]
    obtain ⟨hcnt, hne⟩ := hgo
    by_cases hrvq : s.rvq = some s.vqman.headIdx
    · rw [if_pos hrvq]
      exact meets_ok ⟨vl, h⟩
    rw [if_neg hrvq]
    obtain ⟨rest, hvl, hpop⟩ := h.pop hne
    have hq : ∀ v, ((vmPop s.vqman).queues v).fqman = (s.vqman.queues v).fqman := by
      obtain ⟨-, -, -, -, hq⟩ := vmPop_spec h.lists hne
      exact (VmChanged.of_modify hq).fqman rfl
    have hoff : s.vqman.headIdx ∉ s.oobVms := (nodup_cons.1 hpop.nodup).1
    by_cases hbudget : budgets s.vqman.headIdx > 0
    · rw [if_pos hbudget]
      have hserve : Meets live (fun s'' => ∃ vl', VmInv num m₀ s''.vqman s''.out s''.cnt vl'
          s''.oobVms ∧ (live → LoopWork fuel num budgets m₀ n s'' vl'))
          (VmPoll.serve fuel num
            { s with vqman := vmPop s.vqman, skpl := { s.skpl with origNum := num } }
            s.vqman.headIdx) := by
        unfold VmPoll.serve
        refine Meets.bind ((pollFlows_spec
          (s := { s with vqman := vmPop s.vqman, skpl := { s.skpl with origNum := num } })
          (hpop.ok _) hpop.le).mono henough fun _ => id) ?_
        rintro ⟨s', bytes⟩ ⟨new, hserved⟩
        obtain ⟨m', hm', hinv, hchanged⟩ := hpop.serve hserved
        simp only [fire_eq hm']
        have hoob : s'.oobVms = s.oobVms := hserved.oobVms
        rw [← hoob] at hinv
        refine meets_ok ⟨_, hinv, fun hlive => ?_⟩
        have hw := hwork hlive
        exact hw.serve hvl h.lists.fifo.nodup hrvq hbudget hcnt hserved ⟨rfl, rfl⟩ hq
          (hpop.accounted hw.accounted _) (hchanged.fqman rfl) _ ⟨rfl, rfl, rfl⟩
      refine hserve.bind ?_
      rintro s'' ⟨vl', hinv, hw⟩
      exact ih hinv hw
    · rw [if_neg hbudget]
      refine @ih rest _ ?_ fun hlive => ?_
      · refine hpop.repark ?_ ?_ ?_
        · dsimp only
          split
          · rw [nodup_append]
            refine ⟨(nodup_cons.1 hpop.nodup).2, nodup_singleton _, ?_⟩
            rintro a ha b hb rfl
            exact hoff (by simpa [mem_singleton.1 hb] using ha)
          · exact (nodup_cons.1 hpop.nodup).2
        · intro v hv
          dsimp only at hv
          split at hv
          · simpa [or_comm] using hv
          · exact mem_cons_of_mem _ hv
        · intro v hv hpos
          dsimp only
          obtain rfl | hv := mem_cons.1 hv
          · rw [if_pos hpos]
            simp
          · split
            · exact mem_append_left _ hv
            · exact hv
      · have hw := hwork hlive
        refine ⟨hw.enough, hw.accounted, fun v hv hb => ?_, fun v hv => ?_, ?_⟩
        · change ((vmPop s.vqman).queues v).fqman.NoStale
          rw [hq]
          exact hw.fresh v (by rw [hvl]; exact mem_cons_of_mem _ hv) hb
        · have hin := hw.listed v hv
          rw [hvl] at hin
          exact (mem_cons.1 hin).resolve_left fun he => hrvq (by rw [← he]; exact hv)
        · have hleft := hw.left
          rw [hvl] at hleft
          have hless : visitsLeft s.rvq rest < visitsLeft s.rvq (s.vqman.headIdx :: rest) :=
            visitsLeft_cons hrvq
          change num - s.cnt + visitsLeft s.rvq rest < n
          omega

/-- The flag of a parked VM is clear already. -/
theorem modify_clear (h : (m.queues v).inNolimitl = false) :
    (m.modify v fun q => { q with inNolimitl := false }) = m := by
  have hq : (m.modify v fun q => { q with inNolimitl := false }).queues = m.queues := by
    funext w
    by_cases hw : w = v
    · rw [hw, vm_modify_self, ← h]
    · rw [vm_modify_of_ne hw]
  calc (m.modify v fun q => { q with inNolimitl := false })
      = { m with queues := (m.modify v fun q => { q with inNolimitl := false }).queues } := rfl
    _ = m := by rw [hq]

theorem oobLoop_spec {parked : List U32} {tempCnt : ℕ}
    (h : VmInv num m₀ s.vqman s.out s.cnt vl parked) :
    Meets (flexnicNumQmflowqueues + num < fuel)
      (fun s' => ∃ vl', VmInv num m₀ s'.vqman s'.out s'.cnt vl' [])
      (oobLoop fuel num tempCnt parked s) := by
  induction parked generalizing s vl with
  | nil => exact meets_ok ⟨vl, h⟩
  | cons v parked ih =>
    unfold oobLoop
    rw [modify_clear (h.parked_off v (by simp)).2]
    by_cases hserve : s.cnt < num ∧ tempCnt = 0
    · rw [if_pos hserve]
      have hserve : Meets (flexnicNumQmflowqueues + num < fuel)
          (fun s'' => ∃ vl', VmInv num m₀ s''.vqman s''.out s''.cnt vl' parked)
          (s.serveOob fuel num v) := by
        unfold VmPoll.serveOob
        refine Meets.bind (pollFlows_spec (h.ok v) h.le) ?_
        rintro ⟨s', bytes⟩ ⟨new, hserved⟩
        obtain ⟨m', hm', hinv, -⟩ := h.serve hserved
        have hid : (s'.vqman.queues v).id = v := hserved.outer.1.trans (h.lists.ids v)
        dsimp only
        rw [hid]
        unfold settle at hm'
        by_cases hpos : (s'.vqman.queues v).avail > 0
        · rw [if_pos hpos] at hm'
          rw [if_pos hpos, hm']
          exact meets_ok ⟨_, hinv⟩
        · rw [if_neg hpos] at hm'
          rw [if_neg hpos]
          rw [← Except.ok.inj hm'] at hinv
          exact meets_ok ⟨_, hinv⟩
      refine hserve.bind ?_
      rintro s'' ⟨vl', hinv⟩
      exact ih hinv
    · rw [if_neg hserve]
      obtain ⟨m', hm', hinv⟩ := h.activate
      rw [hm']
      exact ih hinv

end Loops

end Tas
