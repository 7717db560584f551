import Tas.Lib.Linked
import Tas.Lib.Outcome
import Tas.Lib.Tiling

/-! The allocator of packet memory, `packetmem.c`. Pointers to handles are numbers, and zero is the
null pointer. -/
namespace Tas

open Outcome Linked Tiling Function Relation List

/-- `struct packetmem_handle`. -/
structure PacketmemHandle where
  base : ℕ
  len : ℕ
  next : ℕ
deriving DecidableEq

/-- The handles in memory, and the first free one of each VM. -/
structure Packetmem where
  heap : ℕ → PacketmemHandle
  freelist : ℕ → ℕ

/-- One free list for each VM, and one for the slow path. -/
def packetmemVms : ℕ := 7

namespace Packetmem

def next (m : Packetmem) (p : ℕ) : ℕ := (m.heap p).next

def region (m : Packetmem) (p : ℕ) : Region := ⟨(m.heap p).base, (m.heap p).len⟩

def write (m : Packetmem) (p : ℕ) (x : PacketmemHandle) : Packetmem :=
  { m with heap := update m.heap p x }

def setFreelist (m : Packetmem) (vmid p : ℕ) : Packetmem :=
  { m with freelist := update m.freelist vmid p }

end Packetmem

/-! ### Allocation -/

/-- Look for the first fit. Returns it with its predecessor. -/
def firstFit (m : Packetmem) (length : ℕ) : ℕ → ℕ → ℕ → Except Fault (ℕ × ℕ)
  | 0, _, _ => .error .unfinished
  | fuel + 1, prev, ph =>
    if ph ≠ 0 ∧ (m.heap ph).len < length then firstFit m length fuel ph (m.next ph)
    else .ok (prev, ph)

/-- Take the item `ph` behind `prev` off the list. -/
def takeOff (m : Packetmem) (vmid prev ph : ℕ) : Packetmem :=
  if prev = 0 then m.setFreelist vmid (m.next ph)
  else m.write prev { m.heap prev with next := m.next ph }

/-- Cut `length` off the front of the item `ph`, for the new handle `phNew`. -/
def splitOff (m : Packetmem) (length ph phNew : ℕ) : Packetmem :=
  (m.write phNew ⟨(m.heap ph).base, length, 0⟩).write ph
    { m.heap ph with base := (m.heap ph).base + length, len := (m.heap ph).len - length }

/-- Allocate `length` bytes. `fresh` is what `ph_alloc` returns, if it is called. Returns the
handle, whose base is the offset, or nothing on failure. -/
def packetmemAlloc (fuel : ℕ) (m : Packetmem) (length : ℕ) (fresh : Option ℕ) (vmid : ℕ) :
    Except Fault (Packetmem × Option ℕ) := do
  let (prev, ph) ← firstFit m length fuel 0 (m.freelist vmid)
  if ph = 0 then .ok (m, none)
  else if (m.heap ph).len = length then .ok (takeOff m vmid prev ph, some ph)
  else
    match fresh with
    | none => .ok (m, none)
    | some phNew => .ok (splitOff m length ph phNew, some phNew)

/-! ### Release -/

/-- Look for the place of a handle with this base. Returns the predecessor. -/
def findPlace (m : Packetmem) (base : ℕ) : ℕ → ℕ → ℕ → Except Fault ℕ
  | 0, _, _ => .error .unfinished
  | fuel + 1, prev, ph =>
    if ph ≠ 0 ∧ m.next ph ≠ 0 ∧ (m.heap (m.next ph)).base < base then
      findPlace m base fuel ph (m.next ph)
    else .ok prev

/-- Add a handle to the list behind `prev`. -/
def addTo (m : Packetmem) (vmid prev handle : ℕ) : Packetmem :=
  if prev = 0 then
    (m.write handle { m.heap handle with next := m.freelist vmid }).setFreelist vmid handle
  else
    let m' := m.write handle { m.heap handle with next := m.next prev }
    m'.write prev { m'.heap prev with next := handle }

/-- The item behind `p` becomes part of `p`. -/
def absorb (m : Packetmem) (p : ℕ) : Packetmem :=
  let q := m.next p
  m.write p { m.heap p with len := (m.heap p).len + (m.heap q).len, next := m.next q }

/-- During a merge: the item whose successor is next, and the items released so far. -/
structure Merging where
  mem : Packetmem
  ph : ℕ
  freed : List ℕ

/-- Try to merge with the predecessor if there is one. -/
def mergePrev (m : Packetmem) (prev vmid : ℕ) : Merging :=
  if prev ≠ 0 then
    let ph := m.next prev
    if (m.heap prev).base + (m.heap prev).len = (m.heap ph).base then ⟨absorb m prev, prev, [ph]⟩
    else ⟨m, ph, []⟩
  else ⟨m, m.freelist vmid, []⟩

/-- Try to merge with the successor if there is one. -/
def mergeNext (s : Merging) : Packetmem × List ℕ :=
  let phNext := s.mem.next s.ph
  if phNext ≠ 0 ∧
      (s.mem.heap s.ph).base + (s.mem.heap s.ph).len = (s.mem.heap phNext).base then
    (absorb s.mem s.ph, s.freed ++ [phNext])
  else (s.mem, s.freed)

/-- Merge handles around a newly inserted item. Also returns the released ones. -/
def mergeItems (m : Packetmem) (prev vmid : ℕ) : Packetmem × List ℕ :=
  mergeNext (mergePrev m prev vmid)

/-- Release a handle. Also returns the list items released by merging. -/
def packetmemFree (fuel : ℕ) (m : Packetmem) (handle vmid : ℕ) :
    Except Fault (Packetmem × List ℕ) := do
  let prev ← findPlace m (m.heap handle).base fuel 0 (m.freelist vmid)
  .ok (mergeItems (addTo m vmid prev handle) prev vmid)

/-! ### The memory of one VM -/

variable {m m' : Packetmem} {v w p ph prev length fuel lo hi : ℕ} {xs ys as bs : List ℕ} {q : ℕ}

/-- The free list of the VM is `xs`, and with the handles `ys` it makes up the region. -/
structure VmMem (m : Packetmem) (v : ℕ) (xs ys : List ℕ) (lo hi : ℕ) : Prop where
  path : Path 0 m.next (m.freelist v) xs
  nodup : (xs ++ ys).Nodup
  null : 0 ∉ xs ++ ys
  tiles : Tiles ((xs ++ ys).map m.region) lo hi

/-- Only the given handles changed, and no other list. -/
structure OnlyChanged (m m' : Packetmem) (v : ℕ) (ps : List ℕ) : Prop where
  heap : ∀ p, p ∉ ps → m'.heap p = m.heap p
  freelist : ∀ w ≠ v, m'.freelist w = m.freelist w

theorem OnlyChanged.mono {ps qs : List ℕ} (h : OnlyChanged m m' v ps) (hsub : ps ⊆ qs) :
    OnlyChanged m m' v qs :=
  ⟨fun p hp => h.heap p fun hmem => hp (hsub hmem), h.freelist⟩

theorem OnlyChanged.trans {m'' : Packetmem} {ps : List ℕ} (h : OnlyChanged m m' v ps)
    (h' : OnlyChanged m' m'' v ps) : OnlyChanged m m'' v ps :=
  ⟨fun p hp => (h'.heap p hp).trans (h.heap p hp),
    fun w hw => (h'.freelist w hw).trans (h.freelist w hw)⟩

theorem OnlyChanged.write (m : Packetmem) (v p : ℕ) (x : PacketmemHandle) :
    OnlyChanged m (m.write p x) v [p] := by
  refine ⟨fun q hq => ?_, fun _ _ => rfl⟩
  exact update_of_ne (ne_of_not_mem_cons hq) ..

theorem heap_write_self (x : PacketmemHandle) : (m.write p x).heap p = x :=
  update_self ..

theorem heap_write_of_ne {x : PacketmemHandle} (h : w ≠ p) :
    (m.write p x).heap w = m.heap w := update_of_ne h ..

theorem map_region_congr (h : ∀ p ∈ xs, m'.heap p = m.heap p) :
    xs.map m'.region = xs.map m.region := by
  refine map_congr_left fun p hp => ?_
  unfold Packetmem.region
  rw [h p hp]

/-- A VM none of whose handles changed. -/
theorem VmMem.frame {ps : List ℕ} (h : VmMem m w xs ys lo hi) (hc : OnlyChanged m m' v ps)
    (hw : w ≠ v) (hps : ∀ p ∈ xs ++ ys, p ∉ ps) : VmMem m' w xs ys lo hi := by
  have hsame : ∀ p ∈ xs ++ ys, m'.heap p = m.heap p := fun p hp => hc.heap p (hps p hp)
  refine ⟨?_, h.nodup, h.null, ?_⟩
  · rw [hc.freelist w hw]
    refine h.path.congr fun p hp => ?_
    exact congrArg PacketmemHandle.next (hsame p (mem_append_left _ hp))
  · rw [map_region_congr hsame]
    exact h.tiles

/-! ### Specifications -/

theorem firstFit_spec (hpath : Path 0 m.next ph xs) :
    Meets (xs.length < fuel)
      (fun r => ∃ as bs, xs = as ++ bs ∧ (∀ p ∈ as, (m.heap p).len < length) ∧
        r.1 = as.getLast?.getD prev ∧ Path 0 m.next r.2 bs ∧
        (r.2 ≠ 0 → length ≤ (m.heap r.2).len))
      (firstFit m length fuel prev ph) := by
  induction fuel generalizing prev ph xs with
  | zero => exact Nat.not_lt_zero _
  | succ fuel ih =>
    unfold firstFit
    by_cases hgo : ph ≠ 0 ∧ (m.heap ph).len < length
    · rw [if_pos hgo]
      obtain ⟨ws, rfl, hrest⟩ := hpath.exists_cons hgo.1
      refine (ih hrest).mono (by simp) ?_
      rintro r ⟨as, bs, rfl, hshort, hprev, hbs, hfit⟩
      refine ⟨ph :: as, bs, rfl, ?_, ?_, hbs, hfit⟩
      · intro p hp
        obtain rfl | hp := mem_cons.1 hp
        · exact hgo.2
        · exact hshort p hp
      · rw [hprev, List.getLast?_cons]
        cases as.getLast? <;> rfl
    · rw [if_neg hgo]
      refine meets_ok ⟨[], xs, rfl, by simp, rfl, hpath, fun hne => ?_⟩
      exact not_lt.1 fun hlt => hgo ⟨hne, hlt⟩

theorem findPlace_spec {base : ℕ} (hpath : Path 0 m.next ph xs) :
    Meets (xs.length < fuel)
      (fun r => ∃ as bs, xs = as ++ bs ∧ r = as.getLast?.getD prev)
      (findPlace m base fuel prev ph) := by
  induction fuel generalizing prev ph xs with
  | zero => exact Nat.not_lt_zero _
  | succ fuel ih =>
    unfold findPlace
    by_cases hgo : ph ≠ 0 ∧ m.next ph ≠ 0 ∧ (m.heap (m.next ph)).base < base
    · rw [if_pos hgo]
      obtain ⟨ws, rfl, hrest⟩ := hpath.exists_cons hgo.1
      refine (ih hrest).mono (by simp) ?_
      rintro r ⟨as, bs, rfl, hprev⟩
      refine ⟨ph :: as, bs, rfl, ?_⟩
      rw [hprev, List.getLast?_cons]
      cases as.getLast? <;> rfl
    · rw [if_neg hgo]
      exact meets_ok ⟨[], xs, rfl, rfl⟩

/-! ### What the steps do to the memory of a VM -/

theorem region_write (m : Packetmem) (x : PacketmemHandle) (hbase : x.base = (m.heap p).base)
    (hlen : x.len = (m.heap p).len) : (m.write p x).region = m.region := by
  funext q
  unfold Packetmem.region
  by_cases hq : q = p
  · subst hq
    rw [heap_write_self, hbase, hlen]
  · rw [heap_write_of_ne hq]

theorem region_takeOff (m : Packetmem) (v prev ph : ℕ) :
    (takeOff m v prev ph).region = m.region := by
  unfold takeOff
  split_ifs
  · rfl
  · exact region_write m _ rfl rfl

theorem region_addTo (m : Packetmem) (v prev ph : ℕ) : (addTo m v prev ph).region = m.region := by
  unfold addTo
  split_ifs
  · exact region_write m _ rfl rfl
  · refine Eq.trans ?_ (region_write (p := ph) m { m.heap ph with next := m.next prev } rfl rfl)
    exact region_write _ _ rfl rfl

/-- The predecessor is null, or the last item before. -/
theorem prev_cases (h : prev = as.getLast?.getD 0) :
    (as = [] ∧ prev = 0) ∨ ∃ cs, as = cs ++ [prev] := by
  obtain rfl | ⟨cs, q, rfl⟩ := eq_nil_or_concat as
  · exact .inl ⟨rfl, h⟩
  · refine .inr ⟨cs, ?_⟩
    simp at h
    rw [h, concat_eq_append]

theorem VmMem.takeOff (h : VmMem m v (as ++ ph :: bs) ys lo hi)
    (hprev : prev = as.getLast?.getD 0) :
    VmMem (takeOff m v prev ph) v (as ++ bs) (ph :: ys) lo hi := by
  have hperm : (as ++ ph :: bs ++ ys).Perm (as ++ bs ++ ph :: ys) := by
    rw [append_assoc, append_assoc]
    exact List.Perm.append_left as perm_middle.symm
  refine ⟨?_, hperm.nodup_iff.1 h.nodup, fun hz => h.null (hperm.mem_iff.2 hz), ?_⟩
  · obtain ⟨rfl, rfl⟩ | ⟨cs, rfl⟩ := prev_cases hprev
    · obtain ⟨-, -, hrest⟩ := h.path
      have hlist : (Tas.takeOff m v 0 ph).freelist v = m.next ph := update_self ..
      rw [hlist]
      exact hrest
    · have hne : prev ≠ 0 := h.path.ne_nil prev (by simp)
      have hnodup := h.nodup
      have hpath := h.path
      unfold Tas.takeOff
      rw [if_neg hne]
      rw [append_assoc] at hpath ⊢
      refine hpath.remove (congrArg _ (heap_write_self ..)) fun x hx => ?_
      have hxne : x ≠ prev := by
        rintro rfl
        simp [nodup_append] at hnodup hx
        grind
      exact congrArg _ (heap_write_of_ne hxne)
  · rw [region_takeOff]
    exact h.tiles.perm (hperm.map _)

theorem VmMem.splitOff {phNew : ℕ} (h : VmMem m v xs ys lo hi) (hph : ph ∈ xs)
    (hlen : length ≤ (m.heap ph).len) (hnull : phNew ≠ 0) (hnew : phNew ∉ xs ++ ys) :
    VmMem (splitOff m length ph phNew) v xs (phNew :: ys) lo hi := by
  have hne : ph ≠ phNew := by
    rintro rfl
    exact hnew (mem_append_left _ hph)
  have hperm : (xs ++ phNew :: ys).Perm (phNew :: (xs ++ ys)) := perm_middle
  refine ⟨?_, ?_, ?_, ?_⟩
  · refine h.path.congr fun x hx => ?_
    have hxne : x ≠ phNew := by
      rintro rfl
      exact hnew (mem_append_left _ hx)
    unfold Tas.splitOff Packetmem.next
    by_cases hxph : x = ph
    · subst hxph
      rw [heap_write_self]
    · rw [heap_write_of_ne hxph, heap_write_of_ne hxne]
  · exact hperm.nodup_iff.2 (nodup_cons.2 ⟨hnew, h.nodup⟩)
  · intro hz
    obtain hz | hz := mem_cons.1 (hperm.mem_iff.1 hz)
    · exact hnull hz.symm
    · exact h.null hz
  · obtain ⟨zs, hzs⟩ : ∃ zs, (xs ++ ys).Perm (ph :: zs) :=
      ⟨_, perm_cons_erase (mem_append_left _ hph)⟩
    have hnodup := hzs.nodup_iff.1 h.nodup
    have hold := h.tiles.perm (hzs.map m.region)
    have hrest : zs.map (Tas.splitOff m length ph phNew).region = zs.map m.region := by
      refine map_region_congr fun x hx => ?_
      have hxph : x ≠ ph := by
        rintro rfl
        exact (nodup_cons.1 hnodup).1 hx
      have hxnew : x ≠ phNew := by
        rintro rfl
        exact hnew (hzs.mem_iff.2 (mem_cons_of_mem _ hx))
      unfold Tas.splitOff
      rw [heap_write_of_ne hxph, heap_write_of_ne hxnew]
    have hfront : (Tas.splitOff m length ph phNew).region phNew = ⟨(m.heap ph).base, length⟩ := by
      unfold Tas.splitOff Packetmem.region
      rw [heap_write_of_ne hne.symm, heap_write_self]
    have hback : (Tas.splitOff m length ph phNew).region ph =
        ⟨(m.heap ph).base + length, (m.heap ph).len - length⟩ := by
      unfold Tas.splitOff Packetmem.region
      rw [heap_write_self]
    refine Tiles.perm ?_ ((hperm.trans (hzs.cons phNew)).map _).symm
    rw [map_cons, map_cons, hfront, hback, hrest]
    exact (tiles_split_iff (r := m.region ph) hlen).2 hold

theorem VmMem.addTo (h : VmMem m v (as ++ bs) ys lo hi) (hprev : prev = as.getLast?.getD 0)
    (hp : p ∈ ys) : VmMem (addTo m v prev p) v (as ++ p :: bs) (ys.erase p) lo hi := by
  have hperm : (as ++ bs ++ ys).Perm (as ++ p :: bs ++ ys.erase p) := by
    have hys := (perm_cons_erase hp).append_left (as ++ bs)
    refine hys.trans (perm_middle.trans ?_)
    rw [append_assoc, append_assoc]
    exact perm_middle.symm
  have hpne : p ≠ 0 := by
    rintro rfl
    exact h.null (mem_append_right _ hp)
  have hout : ∀ x ∈ as ++ bs, x ≠ p := by
    rintro x hx rfl
    exact (nodup_append.1 h.nodup).2.2 x hx x hp rfl
  refine ⟨?_, hperm.nodup_iff.1 h.nodup, fun hz => h.null (hperm.mem_iff.2 hz), ?_⟩
  · obtain ⟨rfl, rfl⟩ | ⟨cs, rfl⟩ := prev_cases hprev
    · have hlist : (Tas.addTo m v 0 p).freelist v = p := by
        simp [Tas.addTo, Packetmem.setFreelist]
      rw [hlist]
      refine h.path.push_front hpne (congrArg _ (heap_write_self ..)) fun x hx => ?_
      exact congrArg _ (heap_write_of_ne (hout x hx))
    · have hne : prev ≠ 0 := h.path.ne_nil prev (by simp)
      have hprevp : prev ≠ p := hout prev (by simp)
      have hnodup := (nodup_append.1 h.nodup).1
      have hpath := h.path
      unfold Tas.addTo
      rw [if_neg hne]
      rw [append_assoc] at hpath hnodup ⊢
      refine hpath.insert hpne ?_ (congrArg _ (heap_write_self ..)) fun x hx => ?_
      · unfold Packetmem.next
        rw [heap_write_of_ne hprevp.symm, heap_write_self]
      · have hxp : x ≠ p := hout x (by simp at hx ⊢; tauto)
        have hxprev : x ≠ prev := by
          rintro rfl
          simp [nodup_append] at hnodup hx
          grind
        unfold Packetmem.next
        rw [heap_write_of_ne hxprev, heap_write_of_ne hxp]
  · rw [region_addTo]
    exact h.tiles.perm (hperm.map _)

theorem VmMem.absorb (h : VmMem m v (as ++ p :: q :: bs) ys lo hi)
    (hmeet : (m.heap p).base + (m.heap p).len = (m.heap q).base) :
    VmMem (absorb m p) v (as ++ p :: bs) ys lo hi := by
  have hq : m.next p = q := h.path.right.2.2.1
  have hperm : (as ++ p :: q :: bs ++ ys).Perm (p :: q :: (as ++ bs ++ ys)) := by
    rw [append_assoc, append_assoc]
    exact perm_middle.trans (perm_middle.cons p)
  have hperm' : (as ++ p :: bs ++ ys).Perm (p :: (as ++ bs ++ ys)) := by
    rw [append_assoc, append_assoc]
    exact perm_middle
  have hnodup := hperm.nodup_iff.1 h.nodup
  obtain ⟨hp, hnodup'⟩ := nodup_cons.1 hnodup
  have hother : ∀ x ∈ as ++ bs ++ ys, (Tas.absorb m p).heap x = m.heap x := by
    intro x hx
    refine heap_write_of_ne ?_
    rintro rfl
    exact hp (mem_cons_of_mem _ hx)
  have hself : (Tas.absorb m p).heap p =
      ⟨(m.heap p).base, (m.heap p).len + (m.heap q).len, m.next q⟩ := by
    unfold Tas.absorb
    rw [heap_write_self, hq]
  refine ⟨?_, ?_, ?_, ?_⟩
  · have hnext : (Tas.absorb m p).next p = m.next q := by
      have heq := congrArg PacketmemHandle.next hself
      exact heq
    refine h.path.remove hnext fun x hx => ?_
    exact congrArg _ (hother x (mem_append_left _ hx))
  · refine hperm'.nodup_iff.2 (nodup_cons.2 ⟨?_, (nodup_cons.1 hnodup').2⟩)
    exact fun hmem => hp (mem_cons_of_mem _ hmem)
  · intro hz
    refine h.null (hperm.mem_iff.2 ?_)
    obtain hz | hz := mem_cons.1 (hperm'.mem_iff.1 hz)
    · simp [← hz]
    · simp only [mem_cons]
      exact .inr (.inr hz)
  · have hold := h.tiles.perm (hperm.map m.region)
    refine Tiles.perm ?_ (hperm'.map _).symm
    rw [map_cons, map_region_congr hother]
    unfold Packetmem.region at hold ⊢
    rw [hself]
    refine (tiles_split_iff (k := (m.heap p).len) (Nat.le_add_right _ _)).1 ?_
    rw [Nat.add_sub_cancel_left, hmeet]
    exact hold

/-! ### What the calls do to the memory of a VM -/

/-- The free list `xs` became `xs'` by merging items, and the items `freed` are gone. -/
structure Merged (m m' : Packetmem) (v : ℕ) (xs xs' ys freed : List ℕ) (lo hi : ℕ) : Prop where
  mem : VmMem m' v xs' ys lo hi
  changed : OnlyChanged m m' v xs
  sub : xs' ⊆ xs
  freed_sub : freed ⊆ xs
  gone : ∀ p ∈ freed, p ∉ xs' ++ ys

variable {m'' : Packetmem} {xs' xs'' freed freed' : List ℕ} {fresh : Option ℕ}

theorem VmMem.merged_refl (h : VmMem m v xs ys lo hi) : Merged m m v xs xs ys [] lo hi :=
  ⟨h, ⟨fun _ _ => rfl, fun _ _ => rfl⟩, List.Subset.refl _, nil_subset _, by simp⟩

theorem VmMem.merged_absorb (h : VmMem m v (as ++ p :: q :: bs) ys lo hi)
    (hmeet : (m.heap p).base + (m.heap p).len = (m.heap q).base) :
    Merged m (Tas.absorb m p) v (as ++ p :: q :: bs) (as ++ p :: bs) ys [q] lo hi := by
  refine ⟨h.absorb hmeet, (OnlyChanged.write m v p _).mono (by simp), ?_, by simp, ?_⟩
  · intro x hx
    simp at hx ⊢
    tauto
  · intro x hx hmem
    obtain rfl := mem_singleton.1 hx
    have hnodup := h.nodup
    simp [nodup_append] at hnodup hmem
    grind

theorem Merged.trans (h : Merged m m' v xs xs' ys freed lo hi)
    (h' : Merged m' m'' v xs' xs'' ys freed' lo hi) :
    Merged m m'' v xs xs'' ys (freed ++ freed') lo hi := by
  refine ⟨h'.mem, h.changed.trans (h'.changed.mono h.sub), fun x hx => h.sub (h'.sub hx), ?_, ?_⟩
  · exact append_subset.2 ⟨h.freed_sub, fun x hx => h.sub (h'.freed_sub hx)⟩
  · intro p hp hmem
    obtain hp | hp := mem_append.1 hp
    · refine h.gone p hp ?_
      obtain hx | hy := mem_append.1 hmem
      · exact mem_append_left _ (h'.sub hx)
      · exact mem_append_right _ hy
    · exact h'.gone p hp hmem

theorem mergePrev_spec (h : VmMem m v (as ++ p :: bs) ys lo hi)
    (hprev : prev = as.getLast?.getD 0) :
    ∃ cs, Merged m (mergePrev m prev v).mem v (as ++ p :: bs)
      (cs ++ (mergePrev m prev v).ph :: bs) ys (mergePrev m prev v).freed lo hi := by
  unfold mergePrev
  obtain ⟨rfl, rfl⟩ | ⟨cs, rfl⟩ := prev_cases hprev
  · rw [if_neg (by simp)]
    refine ⟨[], ?_⟩
    rw [show m.freelist v = p from h.path.1]
    exact h.merged_refl
  · have hne : prev ≠ 0 := h.path.ne_nil prev (by simp)
    have heq : cs ++ [prev] ++ p :: bs = cs ++ prev :: p :: bs := by simp
    have hnext : m.next prev = p := by
      have hpath := h.path
      rw [heq] at hpath
      exact hpath.right.2.2.1
    rw [if_pos hne]
    simp only [hnext]
    by_cases hmeet : (m.heap prev).base + (m.heap prev).len = (m.heap p).base
    · rw [if_pos hmeet]
      refine ⟨cs, ?_⟩
      rw [heq] at h ⊢
      exact h.merged_absorb hmeet
    · rw [if_neg hmeet]
      exact ⟨cs ++ [prev], h.merged_refl⟩

theorem mergeNext_spec {s : Merging} (h : VmMem s.mem v (as ++ s.ph :: bs) ys lo hi) :
    ∃ xs' freed, (mergeNext s).2 = s.freed ++ freed ∧
      Merged s.mem (mergeNext s).1 v (as ++ s.ph :: bs) xs' ys freed lo hi := by
  unfold mergeNext
  by_cases hmeet : s.mem.next s.ph ≠ 0 ∧
      (s.mem.heap s.ph).base + (s.mem.heap s.ph).len = (s.mem.heap (s.mem.next s.ph)).base
  · simp only [if_pos hmeet]
    obtain ⟨cs, rfl, -⟩ := h.path.right.2.2.exists_cons hmeet.1
    exact ⟨_, _, rfl, h.merged_absorb hmeet.2⟩
  · simp only [if_neg hmeet]
    exact ⟨_, [], (append_nil _).symm, h.merged_refl⟩

theorem mergeItems_spec (h : VmMem m v (as ++ p :: bs) ys lo hi)
    (hprev : prev = as.getLast?.getD 0) :
    ∃ xs', Merged m (mergeItems m prev v).1 v (as ++ p :: bs) xs' ys (mergeItems m prev v).2
      lo hi := by
  obtain ⟨cs, hfirst⟩ := mergePrev_spec h hprev
  obtain ⟨xs', freed, hfreed, hsecond⟩ := mergeNext_spec hfirst.mem
  refine ⟨xs', ?_⟩
  unfold mergeItems
  rw [hfreed]
  exact hfirst.trans hsecond

theorem addTo_changed (hprev : prev = as.getLast?.getD 0) :
    OnlyChanged m (addTo m v prev p) v (as ++ p :: bs) := by
  unfold addTo
  split_ifs with hzero
  · refine ⟨fun x hx => ?_, fun w hw => update_of_ne hw ..⟩
    exact heap_write_of_ne (by simp at hx; tauto)
  · obtain ⟨-, rfl⟩ | ⟨cs, rfl⟩ := prev_cases hprev
    · exact absurd rfl hzero
    · exact ((OnlyChanged.write m v p _).mono (by simp)).trans
        ((OnlyChanged.write _ v prev _).mono (by simp))

/-- What a release does. -/
structure Released (m m' : Packetmem) (v p : ℕ) (xs xs' ys freed : List ℕ) (lo hi : ℕ) : Prop where
  mem : VmMem m' v xs' (ys.erase p) lo hi
  changed : OnlyChanged m m' v (xs ++ ys)
  sub : xs' ⊆ xs ++ ys
  freed_sub : freed ⊆ xs ++ ys
  gone : ∀ p' ∈ freed, p' ∉ xs' ++ ys.erase p

theorem packetmemFree_spec (h : VmMem m v xs ys lo hi) (hp : p ∈ ys) :
    Meets (xs.length < fuel) (fun r => ∃ xs', Released m r.1 v p xs xs' ys r.2 lo hi)
      (packetmemFree fuel m p v) := by
  refine (findPlace_spec h.path).bind ?_
  rintro prev ⟨as, bs, rfl, hprev⟩
  refine meets_ok ?_
  obtain ⟨xs', hmerged⟩ := mergeItems_spec (h.addTo hprev hp) hprev
  have hsub : as ++ p :: bs ⊆ as ++ bs ++ ys := by
    intro x hx
    simp at hx ⊢
    obtain hx | rfl | hx := hx
    · exact .inl hx
    · exact .inr (.inr hp)
    · exact .inr (.inl hx)
  refine ⟨xs', hmerged.mem, ?_, fun x hx => hsub (hmerged.sub hx),
    fun x hx => hsub (hmerged.freed_sub hx), hmerged.gone⟩
  exact ((addTo_changed hprev).trans hmerged.changed).mono hsub

/-- What an allocation does. -/
inductive Allocated (m : Packetmem) (v length : ℕ) (fresh : Option ℕ) (xs ys : List ℕ)
    (lo hi : ℕ) : Packetmem × Option ℕ → Prop
  | failed (hwhy : (∀ p ∈ xs, (m.heap p).len < length) ∨
      fresh = none ∧ ∃ p ∈ xs, length < (m.heap p).len) :
    Allocated m v length fresh xs ys lo hi (m, none)
  | done {m' : Packetmem} {p : ℕ} {xs' : List ℕ} (hmem : VmMem m' v xs' (p :: ys) lo hi)
    (hchanged : OnlyChanged m m' v (p :: xs)) (hsub : xs'.Sublist xs)
    (hcut : ∀ q ∈ xs', (m.heap q).base ≤ (m'.heap q).base ∧
      (m'.heap q).base + (m'.heap q).len = (m.heap q).base + (m.heap q).len)
    (hp : p ∈ xs ∨ fresh = some p) (hlen : (m'.heap p).len = length) :
    Allocated m v length fresh xs ys lo hi (m', some p)

theorem packetmemAlloc_spec (h : VmMem m v xs ys lo hi)
    (hfresh : ∀ p, fresh = some p → p ≠ 0 ∧ p ∉ xs ++ ys) :
    Meets (xs.length < fuel) (Allocated m v length fresh xs ys lo hi)
      (packetmemAlloc fuel m length fresh v) := by
  refine (firstFit_spec h.path).bind ?_
  rintro ⟨prev, ph⟩ ⟨as, bs, rfl, hshort, hprev, hbs, hfit⟩
  by_cases hnull : ph = 0
  · simp only [if_pos hnull]
    obtain rfl := hbs.eq_nil_iff.1 hnull
    refine .failed (.inl ?_)
    rwa [append_nil]
  simp only [if_neg hnull]
  obtain ⟨cs, rfl, -⟩ := hbs.exists_cons hnull
  by_cases hexact : (m.heap ph).len = length
  · simp only [if_pos hexact]
    have hregion : ∀ q, ((takeOff m v prev ph).heap q).base = (m.heap q).base ∧
        ((takeOff m v prev ph).heap q).len = (m.heap q).len := fun q =>
      Region.mk.inj (congrFun (region_takeOff m v prev ph) q)
    refine .done (h.takeOff hprev) ?_ ((sublist_cons_self ph cs).append_left as)
      (fun q _ => ?_) (.inl (by simp)) ((hregion ph).2.trans hexact)
    · unfold takeOff
      obtain ⟨rfl, rfl⟩ | ⟨ds, rfl⟩ := prev_cases hprev
      · rw [if_pos rfl]
        exact ⟨fun _ _ => rfl, fun w hw => update_of_ne hw ..⟩
      · have hne : prev ≠ 0 := h.path.ne_nil prev (by simp)
        rw [if_neg hne]
        exact (OnlyChanged.write m v prev _).mono (by simp)
    · rw [(hregion q).1, (hregion q).2]
      exact ⟨le_rfl, rfl⟩
  · simp only [if_neg hexact]
    have hlen : length ≤ (m.heap ph).len := hfit hnull
    cases fresh with
    | none => exact .failed (.inr ⟨rfl, ph, by simp, lt_of_le_of_ne hlen (Ne.symm hexact)⟩)
    | some phNew =>
      obtain ⟨hne, hnew⟩ := hfresh phNew rfl
      have hph : ph ≠ phNew := by
        rintro rfl
        exact hnew (by simp)
      refine .done (h.splitOff (by simp) hlen hne hnew) ?_ (Sublist.refl _) (fun q hq => ?_)
        (.inr rfl) ?_
      · exact ((OnlyChanged.write m v phNew _).mono (by simp)).trans
          ((OnlyChanged.write _ v ph _).mono (by simp))
      · unfold splitOff
        by_cases hqph : q = ph
        · subst hqph
          rw [heap_write_self]
          dsimp only
          omega
        · rw [heap_write_of_ne hqph, heap_write_of_ne fun heq : q = phNew =>
            hnew (heq ▸ mem_append_left _ hq)]
          exact ⟨le_rfl, rfl⟩
      · unfold splitOff
        rw [heap_write_of_ne hph.symm, heap_write_self]

/-! ### Runs -/

/-- Set up the lists of the first VMs. `phAlloc` gives the handles. -/
def packetmemInit (m : Packetmem) (phAlloc : ℕ → Option ℕ) (base len : ℕ) : ℕ → Option Packetmem
  | 0 => some m
  | i + 1 => do
    let m' ← packetmemInit m phAlloc base len i
    let ph ← phAlloc i
    some ((m'.write ph ⟨base, len, 0⟩).setFreelist i ph)

/-- The allocator, the live handles of each VM, and the pointers that `malloc` has given out. -/
structure PmRun where
  mem : Packetmem
  live : ℕ → List ℕ
  used : Set ℕ

/-- After `packetmem_init`. -/
structure PmStart (base len : ℕ) (s : PmRun) : Prop where
  init : ∃ m₀ phAlloc, packetmemInit m₀ phAlloc base len packetmemVms = some s.mem ∧
    (∀ i < packetmemVms, ∀ p, phAlloc i = some p → p ∈ s.used) ∧
    ∀ i < packetmemVms, Mallocs {p | ∃ j < i, phAlloc j = some p} (phAlloc i)
  live : ∀ v, s.live v = []

/-- One call, by which handles become live or stop to be. -/
inductive PmStep : PmRun → PmRun → Prop
  | alloc {s : PmRun} {m' : Packetmem} {fuel length v p : ℕ} {fresh : Option ℕ}
    (hv : v < packetmemVms) (hlen : 0 < length) (hfresh : Mallocs s.used fresh)
    (hr : packetmemAlloc fuel s.mem length fresh v = .ok (m', some p)) :
    PmStep s ⟨m', update s.live v (p :: s.live v), insert p s.used⟩
  | allocFailed {s : PmRun} {m' : Packetmem} {fuel length v : ℕ} {fresh : Option ℕ}
    (hv : v < packetmemVms) (hlen : 0 < length) (hfresh : Mallocs s.used fresh)
    (hr : packetmemAlloc fuel s.mem length fresh v = .ok (m', none)) :
    PmStep s { s with mem := m' }
  | free {s : PmRun} {m' : Packetmem} {fuel v p : ℕ} {freed : List ℕ}
    (hv : v < packetmemVms) (hp : p ∈ s.live v)
    (hr : packetmemFree fuel s.mem p v = .ok (m', freed)) :
    PmStep s ⟨m', update s.live v ((s.live v).erase p), s.used \ {q | q ∈ freed}⟩

/-- The handles of a VM make up its region, and no two VMs have one in common. -/
structure PmInv (lo hi : ℕ) (s : PmRun) (free : ℕ → List ℕ) : Prop where
  mem : ∀ v < packetmemVms, VmMem s.mem v (free v) (s.live v) lo hi
  used : ∀ v < packetmemVms, ∀ p ∈ free v ++ s.live v, p ∈ s.used
  apart : ∀ v < packetmemVms, ∀ w < packetmemVms, v ≠ w → ∀ p ∈ free v ++ s.live v,
    p ∉ free w ++ s.live w

variable {s t : PmRun} {free : ℕ → List ℕ} {ps ys' : List ℕ} {base len : ℕ}

/-- The handles of other VMs are neither handles of this one nor new. -/
theorem PmInv.untouched (h : PmInv lo hi s free) (hv : v < packetmemVms)
    (hps : ∀ p ∈ ps, p ∈ free v ++ s.live v ∨ p ∉ s.used) (hw : w < packetmemVms) (hne : w ≠ v)
    (hp : p ∈ free w ++ s.live w) : p ∉ ps := by
  intro hin
  obtain hin | hout := hps p hin
  · exact h.apart w hw v hv hne p hp hin
  · exact hout (h.used w hw p hp)

/-- A call for one VM that touches its own and new handles only. -/
theorem PmInv.change (h : PmInv lo hi s free) (hv : v < packetmemVms)
    (hmem : VmMem t.mem v xs' ys' lo hi) (hys : t.live v = ys')
    (hlive : ∀ w ≠ v, t.live w = s.live w) (hchanged : OnlyChanged s.mem t.mem v ps)
    (hps : ∀ p ∈ ps, p ∈ free v ++ s.live v ∨ p ∉ s.used)
    (hown : ∀ p ∈ xs' ++ ys', p ∈ free v ++ s.live v ∨ p ∉ s.used)
    (hused : ∀ p ∈ xs' ++ ys', p ∈ t.used)
    (hkept : ∀ p ∈ s.used, p ∉ free v ++ s.live v → p ∈ t.used) :
    PmInv lo hi t (update free v xs') := by
  have hsame : ∀ w ≠ v, update free v xs' w ++ t.live w = free w ++ s.live w := by
    intro w hne
    rw [update_of_ne hne, hlive w hne]
  have hself : update free v xs' v ++ t.live v = xs' ++ ys' := by
    rw [update_self, hys]
  refine ⟨fun w hw => ?_, fun w hw p hp => ?_, fun w hw u hu hne p hp hp' => ?_⟩
  · by_cases hwv : w = v
    · subst hwv
      rwa [update_self, hys]
    · rw [update_of_ne hwv, hlive w hwv]
      exact (h.mem w hw).frame hchanged hwv fun p hp => h.untouched hv hps hw hwv hp
  · by_cases hwv : w = v
    · subst hwv
      rw [hself] at hp
      exact hused p hp
    · rw [hsame w hwv] at hp
      exact hkept p (h.used w hw p hp) (h.apart w hw v hv hwv p hp)
  · by_cases hwv : w = v
    · subst hwv
      rw [hself] at hp
      rw [hsame u hne.symm] at hp'
      exact h.untouched hv hown hu hne.symm hp' hp
    · rw [hsame w hwv] at hp
      by_cases huv : u = v
      · subst huv
        rw [hself] at hp'
        exact h.untouched hv hown hw hwv hp hp'
      · rw [hsame u huv] at hp'
        exact h.apart w hw u hu hne p hp hp'

theorem PmInv.alloc_spec (h : PmInv lo hi s free) (hv : v < packetmemVms)
    (hfresh : Mallocs s.used fresh) (length fuel : ℕ) :
    Meets ((free v).length < fuel) (Allocated s.mem v length fresh (free v) (s.live v) lo hi)
      (packetmemAlloc fuel s.mem length fresh v) := by
  refine packetmemAlloc_spec (h.mem v hv) fun p hp => ?_
  obtain ⟨hnull, hnew⟩ := hfresh p hp
  exact ⟨hnull, fun hin => hnew (h.used v hv p hin)⟩

theorem pmInv_step (hstep : PmStep s t) (h : PmInv lo hi s free) :
    ∃ free', PmInv lo hi t free' := by
  cases hstep with
  | @alloc m' fuel length v p fresh hv hlen hfresh hr =>
    have hspec := h.alloc_spec hv hfresh length fuel
    rw [hr] at hspec
    cases hspec with
    | @done _ _ xs' hmem hchanged hsub _ hp _ =>
      have hnew : p ∈ free v ++ s.live v ∨ p ∉ s.used := by
        obtain hp | hp := hp
        · exact .inl (mem_append_left _ hp)
        · exact .inr (hfresh p hp).2
      have hcases : ∀ q ∈ xs' ++ p :: s.live v, q = p ∨ q ∈ free v ++ s.live v := by
        intro q hq
        simp only [mem_append, mem_cons] at hq ⊢
        obtain hq | hq | hq := hq
        · exact .inr (.inl (hsub.subset hq))
        · exact .inl hq
        · exact .inr (.inr hq)
      refine ⟨_, h.change hv hmem (update_self ..)
        (fun w hw => update_of_ne hw ..) hchanged ?_ ?_ ?_ ?_⟩
      · intro q hq
        obtain rfl | hq := mem_cons.1 hq
        · exact hnew
        · exact .inl (mem_append_left _ hq)
      · intro q hq
        obtain rfl | hq := hcases q hq
        · exact hnew
        · exact .inl hq
      · intro q hq
        obtain rfl | hq := hcases q hq
        · exact Set.mem_insert ..
        · exact Set.mem_insert_of_mem _ (h.used v hv q hq)
      · exact fun q hq _ => Set.mem_insert_of_mem _ hq
  | @allocFailed m' fuel length v fresh hv hlen hfresh hr =>
    have hspec := h.alloc_spec hv hfresh length fuel
    rw [hr] at hspec
    cases hspec with
    | failed _ => exact ⟨free, h⟩
  | @free m' fuel v p freed hv hp hr =>
    obtain ⟨xs', hrel⟩ := (packetmemFree_spec (h.mem v hv) hp).of_ok hr
    have hsub : ∀ q ∈ xs' ++ (s.live v).erase p, q ∈ free v ++ s.live v := by
      intro q hq
      obtain hq | hq := mem_append.1 hq
      · exact hrel.sub hq
      · exact mem_append_right _ (mem_of_mem_erase hq)
    refine ⟨_, h.change hv hrel.mem (update_self ..)
      (fun w hw => update_of_ne hw ..) hrel.changed (fun q hq => .inl hq) ?_ ?_ ?_⟩
    · intro q hq
      exact .inl (hsub q hq)
    · intro q hq
      exact ⟨h.used v hv q (hsub q hq), fun hfreed => hrel.gone q hfreed hq⟩
    · exact fun q hq hout => ⟨hq, fun hfreed => hout (hrel.freed_sub hfreed)⟩

theorem packetmemInit_spec {m₀ : Packetmem} {phAlloc : ℕ → Option ℕ} {n : ℕ}
    (hinit : packetmemInit m₀ phAlloc base len n = some m)
    (hfresh : ∀ i < n, Mallocs {p | ∃ j < i, phAlloc j = some p} (phAlloc i)) :
    ∀ i < n, ∃ p, phAlloc i = some p ∧ p ≠ 0 ∧ m.freelist i = p ∧ m.heap p = ⟨base, len, 0⟩ := by
  induction n generalizing m with
  | zero => exact fun i hi => (Nat.not_lt_zero i hi).elim
  | succ n ih =>
    unfold packetmemInit at hinit
    obtain ⟨m', hm', hinit⟩ := Option.bind_eq_some_iff.1 hinit
    obtain ⟨ph, hph, hinit⟩ := Option.bind_eq_some_iff.1 hinit
    cases hinit
    intro i hi
    obtain ⟨hnull, hnew⟩ := hfresh n (Nat.lt_succ_self n) ph hph
    by_cases hin : i = n
    · subst hin
      exact ⟨ph, hph, hnull, update_self .., heap_write_self ..⟩
    · have hlt : i < n := by omega
      obtain ⟨p, hp, hpnull, hlist, hheap⟩ := ih hm' (fun j hj => hfresh j (by omega)) i hlt
      have hne : p ≠ ph := by
        rintro rfl
        exact hnew ⟨i, hlt, hp⟩
      refine ⟨p, hp, hpnull, ?_, ?_⟩
      · exact (update_of_ne hin ..).trans hlist
      · exact (heap_write_of_ne hne).trans hheap

theorem pmInv_start (h : PmStart base len s) : ∃ free, PmInv base (base + len) s free := by
  obtain ⟨m₀, phAlloc, hinit, hused, hfresh⟩ := h.init
  have hspec := packetmemInit_spec hinit hfresh
  refine ⟨fun v => [s.mem.freelist v], fun v hv => ?_, fun v hv p hp => ?_,
    fun v hv w hw hne p hp hp' => ?_⟩
  · obtain ⟨p, -, hnull, hlist, hheap⟩ := hspec v hv
    rw [h.live v, hlist]
    refine ⟨⟨hlist, hnull, ?_⟩, by simp, by simpa using hnull.symm, ?_⟩
    · exact congrArg PacketmemHandle.next hheap
    · have hregion : s.mem.region p = ⟨base, len⟩ := by
        unfold Packetmem.region
        rw [hheap]
      simpa [hregion] using tiles_singleton base len
  · obtain ⟨q, hq, -, hlist, -⟩ := hspec v hv
    rw [h.live v, append_nil, mem_singleton, hlist] at hp
    subst hp
    exact hused v hv p hq
  · obtain ⟨q, hq, -, hlist, -⟩ := hspec v hv
    obtain ⟨q', hq', -, hlist', -⟩ := hspec w hw
    rw [h.live v, append_nil, mem_singleton, hlist] at hp
    rw [h.live w, append_nil, mem_singleton, hlist'] at hp'
    subst hp hp'
    -- of the two, the later pointer was new
    obtain hlt | hlt := Nat.lt_or_gt_of_ne hne
    · exact (hfresh w hw p hq').2 ⟨v, hlt, hq⟩
    · exact (hfresh v hv p hq).2 ⟨w, hlt, hq'⟩

theorem pmInv_of_reachable {s₀ : PmRun} (hstart : PmStart base len s₀)
    (hrun : ReflTransGen PmStep s₀ s) : ∃ free, PmInv base (base + len) s free := by
  induction hrun with
  | refl => exact pmInv_start hstart
  | tail _ hstep ih =>
    obtain ⟨free, hinv⟩ := ih
    exact pmInv_step hstep hinv

/-- What holds of the memory of a VM: the free list and the live handles are apart and cover the
region, an allocation returns and fails only if nothing fits or there is no handle, and a release
returns. -/
structure PmSound (base len : ℕ) (s : PmRun) (v : ℕ) (xs : List ℕ) : Prop where
  path : Path 0 s.mem.next (s.mem.freelist v) xs
  apart : ((xs ++ s.live v).map s.mem.region).Pairwise Region.Apart
  cover : ∀ a, (∃ p ∈ xs ++ s.live v, a ∈ s.mem.region p) ↔ base ≤ a ∧ a < base + len
  alloc : ∀ length fuel fresh, 0 < length → xs.length < fuel → Mallocs s.used fresh →
    ∃ m' r, packetmemAlloc fuel s.mem length fresh v = .ok (m', r) ∧
      (∀ p, r = some p → length ≤ (m'.heap p).len ∧ base ≤ (m'.heap p).base ∧
        (m'.heap p).base + (m'.heap p).len ≤ base + len) ∧
      (r = none → (∀ p ∈ xs, (s.mem.heap p).len < length) ∨ fresh = none)
  free : ∀ p ∈ s.live v, ∀ fuel, xs.length < fuel →
    ∃ r, packetmemFree fuel s.mem p v = .ok r

theorem PmInv.alloc_returns (h : PmInv lo hi s free) (hv : v < packetmemVms) (hlen : 0 < length)
    (hfuel : (free v).length < fuel) (hfresh : Mallocs s.used fresh) :
    ∃ m' r, packetmemAlloc fuel s.mem length fresh v = .ok (m', r) ∧
      (∀ p, r = some p → length ≤ (m'.heap p).len ∧ lo ≤ (m'.heap p).base ∧
        (m'.heap p).base + (m'.heap p).len ≤ hi) ∧
      (r = none → (∀ p ∈ free v, (s.mem.heap p).len < length) ∨ fresh = none) := by
  obtain ⟨⟨m', r⟩, hr, hdone⟩ := (h.alloc_spec hv hfresh length fuel).returns hfuel
  refine ⟨m', r, hr, ?_⟩
  cases hdone with
  | failed hwhy => exact ⟨by simp, fun _ => hwhy.imp_right And.left⟩
  | @done _ p xs' hmem _ _ _ _ hplen =>
    refine ⟨fun q hq => ?_, by simp⟩
    cases hq
    have hin : m'.region p ∈ (xs' ++ p :: s.live v).map m'.region :=
      mem_map.2 ⟨p, by simp, rfl⟩
    have hpos : 0 < (m'.region p).len := by
      unfold Packetmem.region
      rwa [hplen]
    exact ⟨hplen.ge, hmem.tiles.inside hin hpos⟩

theorem packet_memory_tiled {s₀ : PmRun} (hstart : PmStart base len s₀)
    (hrun : ReflTransGen PmStep s₀ s) (hv : v < packetmemVms) : ∃ xs, PmSound base len s v xs := by
  obtain ⟨free, hinv⟩ := pmInv_of_reachable hstart hrun
  have hmem := hinv.mem v hv
  refine ⟨free v, hmem.path, hmem.tiles.pairwise, fun a => ?_, ?_, ?_⟩
  · rw [← hmem.tiles.mem_iff]
    simp only [mem_map, exists_exists_and_eq_and]
  · exact fun length fuel fresh hlen hfuel hfresh => hinv.alloc_returns hv hlen hfuel hfresh
  · intro p hp fuel hfuel
    obtain ⟨r, hr, -⟩ := (packetmemFree_spec hmem hp).returns hfuel
    exact ⟨r, hr⟩

def emptyPacketmem : Packetmem := ⟨fun _ => ⟨0, 0, 0⟩, fun _ => 0⟩

/-- After `packetmem_init` with the pointers from one on, over fifty bytes. -/
def fiftyStart : PmRun where
  mem := (packetmemInit emptyPacketmem (fun i => some (i + 1)) 100 50 packetmemVms).getD
    emptyPacketmem
  live _ := []
  used := {p | 0 < p ∧ p ≤ packetmemVms}

/-- A handle of ten bytes was split off for the third VM. -/
def fiftySplit : PmRun where
  mem := splitOff fiftyStart.mem 10 3 8
  live := update fiftyStart.live 2 [8]
  used := insert 8 fiftyStart.used

theorem fiftyStart_starts : PmStart 100 50 fiftyStart := by
  refine ⟨⟨emptyPacketmem, fun i => some (i + 1), rfl, ?_, ?_⟩, fun _ => rfl⟩
  · intro i hi p hp
    cases hp
    exact ⟨Nat.succ_pos i, hi⟩
  · intro i _ p hp
    cases hp
    refine ⟨Nat.succ_ne_zero i, ?_⟩
    rintro ⟨j, hj, heq⟩
    have hij := Option.some.inj heq
    omega

theorem fiftySplit_step : PmStep fiftyStart fiftySplit := by
  have hfresh : Mallocs fiftyStart.used (some 8) := by
    intro p hp
    cases hp
    exact ⟨by decide, fun hin => absurd hin.2 (by decide)⟩
  have hr : packetmemAlloc 2 fiftyStart.mem 10 (some 8) 2 = .ok (fiftySplit.mem, some 8) := rfl
  exact .alloc (by decide) (by decide) hfresh hr

theorem fiftySplit_tiled :
    PmStart 100 50 fiftyStart ∧ ReflTransGen PmStep fiftyStart fiftySplit ∧
      ∃ xs, PmSound 100 50 fiftySplit 2 xs := by
  have hrun := ReflTransGen.single fiftySplit_step
  exact ⟨fiftyStart_starts, hrun, packet_memory_tiled fiftyStart_starts hrun (by decide)⟩

end Tas
