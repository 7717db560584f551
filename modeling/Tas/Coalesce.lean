import Tas.Packetmem

/-! The order of the free list of packet memory. `packetmem_free` looks at the item after the next
one, so a handle ends up in front of the last item below it. -/
namespace Tas

open Outcome Linked Tiling Function Relation List

variable {m m' : Packetmem} {v w p q length lo hi base len : ℕ} {xs xs' ys : List ℕ} {ps : List ℕ}
  {fresh : Option ℕ} {s t : PmRun} {free free' : ℕ → List ℕ}

/-- The items are in order, with gaps between them. -/
def Gapped (m : Packetmem) (xs : List ℕ) : Prop :=
  xs.Pairwise fun p q => (m.heap p).base + (m.heap p).len < (m.heap q).base

theorem Gapped.congr (h : Gapped m xs) (heq : ∀ p ∈ xs, m'.heap p = m.heap p) : Gapped m' xs :=
  h.imp_of_mem fun ha hb hab => by rwa [heq _ ha, heq _ hb]

/-- The new item stays apart from the next one, or takes it in. -/
theorem mergeNext_gapped {g : Merging} (hmem : VmMem g.mem v (g.ph :: xs) ys lo hi)
    (hg : Gapped g.mem xs)
    (hle : ∀ q ∈ xs, (g.mem.heap g.ph).base + (g.mem.heap g.ph).len ≤ (g.mem.heap q).base) :
    ∃ xs', Path 0 (mergeNext g).1.next ((mergeNext g).1.freelist v) xs' ∧
      Gapped (mergeNext g).1 xs' := by
  unfold mergeNext
  by_cases hmeet : g.mem.next g.ph ≠ 0 ∧
      (g.mem.heap g.ph).base + (g.mem.heap g.ph).len = (g.mem.heap (g.mem.next g.ph)).base
  · simp only [if_pos hmeet]
    obtain ⟨bs, rfl, -⟩ := hmem.path.2.2.exists_cons hmeet.1
    have hnodup := (nodup_append.1 hmem.nodup).1
    have hother : ∀ q ∈ bs, (absorb g.mem g.ph).heap q = g.mem.heap q := fun q hq =>
      heap_write_of_ne (by simp at hnodup; grind)
    have hself : (absorb g.mem g.ph).heap g.ph = _ := heap_write_self ..
    have habsorb : VmMem (absorb g.mem g.ph) v ([] ++ g.ph :: bs) ys lo hi :=
      VmMem.absorb hmem hmeet.2
    obtain ⟨hnext, hrest⟩ := pairwise_cons.1 hg
    refine ⟨_, habsorb.path, pairwise_cons.2 ⟨fun q hq => ?_, Gapped.congr hrest hother⟩⟩
    have hlt := hnext q hq
    rw [hself, hother q hq]
    dsimp only
    omega
  · simp only [if_neg hmeet]
    refine ⟨_, hmem.path, pairwise_cons.2 ⟨fun q hq => ?_, hg⟩⟩
    obtain ⟨-, -, hpath⟩ := hmem.path
    cases xs with
    | nil => cases hq
    | cons x bs =>
      obtain ⟨hx, hxne, -⟩ := hpath
      rw [hx] at hmeet
      have hxlt := hle x mem_cons_self
      obtain rfl | hq := mem_cons.1 hq
      · exact lt_of_le_of_ne hxlt fun heq => hmeet ⟨hxne, heq⟩
      · have hqlt := (pairwise_cons.1 hg).1 q hq
        omega

/-- A handle below all free items is found no predecessor. -/
theorem findPlace_front (hpath : Path 0 m.next (m.freelist v) xs)
    (hfront : ∀ q ∈ xs, base ≤ (m.heap q).base) (fuel : ℕ) :
    findPlace m base (fuel + 1) 0 (m.freelist v) = .ok 0 := by
  unfold findPlace
  refine if_neg ?_
  rintro ⟨hne, hnext, hlt⟩
  obtain ⟨ws, rfl, hrest⟩ := hpath.exists_cons hne
  obtain ⟨zs, rfl, -⟩ := hrest.exists_cons hnext
  exact absurd hlt (hfront _ (by simp)).not_gt

theorem packetmemFree_gapped {fuel : ℕ} {r : Packetmem × List ℕ} (hmem : VmMem m v xs ys lo hi)
    (hg : Gapped m xs) (hp : p ∈ ys)
    (hfront : ∀ q ∈ xs, (m.heap p).base + (m.heap p).len ≤ (m.heap q).base)
    (hr : packetmemFree fuel m p v = .ok r) :
    ∃ xs', Path 0 r.1.next (r.1.freelist v) xs' ∧ Gapped r.1 xs' := by
  obtain _ | fuel := fuel
  · cases hr
  have hplace :=
    findPlace_front hmem.path (fun q hq => (Nat.le_add_right ..).trans (hfront q hq)) fuel
  unfold packetmemFree at hr
  rw [hplace] at hr
  cases hr
  have hadd : VmMem (addTo m v 0 p) v ([] ++ p :: xs) (ys.erase p) lo hi :=
    VmMem.addTo hmem rfl hp
  have hregion : ∀ q, ((addTo m v 0 p).heap q).base = (m.heap q).base ∧
      ((addTo m v 0 p).heap q).len = (m.heap q).len := fun q =>
    Region.mk.inj (congrFun (region_addTo m v 0 p) q)
  have hmerge : mergeItems (addTo m v 0 p) 0 v = mergeNext ⟨addTo m v 0 p, p, []⟩ := by
    unfold mergeItems mergePrev
    rw [if_neg (by simp), show (addTo m v 0 p).freelist v = p from hadd.path.1]
  rw [hmerge]
  refine mergeNext_gapped hadd ?_ ?_
  all_goals simp only [Gapped, hregion]
  · exact hg
  · exact hfront

/-! ### Runs -/

/-- What a call leaves in order for its VM stays so for all. -/
theorem gapped_of_call (h : PmInv lo hi s free) (h' : PmInv lo hi t free')
    (hg : ∀ w < packetmemVms, Gapped s.mem (free w)) (hv : v < packetmemVms)
    (hnew : ∃ xs', Path 0 t.mem.next (t.mem.freelist v) xs' ∧ Gapped t.mem xs')
    (hchanged : OnlyChanged s.mem t.mem v ps)
    (hps : ∀ p ∈ ps, p ∈ free v ++ s.live v ∨ p ∉ s.used) :
    ∀ w < packetmemVms, Gapped t.mem (free' w) := by
  intro w hw
  by_cases hwv : w = v
  · subst hwv
    obtain ⟨xs', hpath, hg'⟩ := hnew
    rwa [(h'.mem w hw).path.unique hpath]
  · have hsame : ∀ p ∈ free w ++ s.live w, p ∉ ps := fun p hp => h.untouched hv hps hw hwv hp
    rw [(h'.mem w hw).path.unique ((h.mem w hw).frame hchanged hwv hsame).path]
    exact (hg w hw).congr fun p hp => hchanged.heap p (hsame p (mem_append_left _ hp))

/-- A handle is released only if it lies below everything that is free. -/
def InFront (s t : PmRun) : Prop :=
  ∀ v p, p ∈ s.live v → p ∉ t.live v → ∀ xs, Path 0 s.mem.next (s.mem.freelist v) xs →
    ∀ q ∈ xs, (s.mem.heap p).base + (s.mem.heap p).len ≤ (s.mem.heap q).base

theorem gapped_step (hstep : PmStep s t) (hfront : InFront s t) (h : PmInv lo hi s free)
    (h' : PmInv lo hi t free') (hg : ∀ v < packetmemVms, Gapped s.mem (free v)) :
    ∀ v < packetmemVms, Gapped t.mem (free' v) := by
  cases hstep with
  | @alloc m' fuel length v p fresh hv hlen hfresh hr =>
    have hspec := h.alloc_spec hv hfresh length fuel
    rw [hr] at hspec
    cases hspec with
    | done hmem hchanged hsub hcut hp _ =>
      refine gapped_of_call h h' hg hv ⟨_, hmem.path, ?_⟩ hchanged fun q hq => ?_
      · refine ((hg v hv).sublist hsub).imp_of_mem fun ha hb hab => ?_
        have hcuta := hcut _ ha
        have hcutb := hcut _ hb
        dsimp only
        omega
      · obtain rfl | hq := mem_cons.1 hq
        · exact hp.imp (mem_append_left _) fun hp => (hfresh _ hp).2
        · exact .inl (mem_append_left _ hq)
  | @allocFailed m' fuel length v fresh hv hlen hfresh hr =>
    have hspec := h.alloc_spec hv hfresh length fuel
    rw [hr] at hspec
    cases hspec with
    | failed _ =>
      intro w hw
      rw [(h'.mem w hw).path.unique (h.mem w hw).path]
      exact hg w hw
  | @free m' fuel v p freed hv hp hr =>
    have hmem := h.mem v hv
    obtain ⟨_, hrel⟩ := (packetmemFree_spec hmem hp).of_ok hr
    have hgone : p ∉ update s.live v ((s.live v).erase p) v := by
      rw [update_self]
      exact (nodup_append.1 hmem.nodup).2.1.not_mem_erase
    have hnew := packetmemFree_gapped hmem (hg v hv) hp (hfront v p hp hgone _ hmem.path) hr
    exact gapped_of_call h h' hg hv hnew hrel.changed fun q hq => .inl hq

theorem gapped_of_reachable {s₀ : PmRun} (hstart : PmStart base len s₀)
    (hrun : ReflTransGen (fun s t => PmStep s t ∧ InFront s t) s₀ s) :
    ∃ free, PmInv base (base + len) s free ∧ ∀ v < packetmemVms, Gapped s.mem (free v) := by
  induction hrun with
  | refl =>
    obtain ⟨m₀, phAlloc, hinit, -, hfresh⟩ := hstart.init
    obtain ⟨free, hinv⟩ := pmInv_start hstart
    refine ⟨free, hinv, fun v hv => ?_⟩
    obtain ⟨p, -, hnull, hlist, hheap⟩ := packetmemInit_spec hinit hfresh v hv
    have hpath : Path 0 s₀.mem.next (s₀.mem.freelist v) [p] :=
      ⟨hlist, hnull, congrArg PacketmemHandle.next hheap⟩
    rw [(hinv.mem v hv).path.unique hpath]
    exact pairwise_singleton ..
  | tail _ hstep ih =>
    obtain ⟨free, hinv, hg⟩ := ih
    obtain ⟨free', hinv'⟩ := pmInv_step hstep.1 hinv
    exact ⟨free', hinv', gapped_step hstep.1 hstep.2 hinv hinv' hg⟩

/-- With gaps between the items, one that tiles the region alone is all there is. -/
theorem Gapped.exists_whole (hg : Gapped m xs) (htiles : Tiles (xs.map m.region) lo hi)
    (hlt : lo < hi) : ∃ p ∈ xs, hi ≤ lo + (m.heap p).len := by
  obtain ⟨r, hr, hfirst⟩ := htiles.mem_iff.2 ⟨le_rfl, hlt⟩
  obtain ⟨p, hp, rfl⟩ := mem_map.1 hr
  refine ⟨p, hp, not_lt.1 fun hend => ?_⟩
  obtain ⟨hle, hin⟩ : (m.heap p).base ≤ lo ∧ lo < (m.heap p).base + (m.heap p).len := hfirst
  have hbase : lo ≤ (m.heap p).base :=
    (htiles.inside hr (show 0 < (m.heap p).len by omega)).1
  -- the first address behind the item would lie in another one
  obtain ⟨r, hr, hmem⟩ := htiles.mem_iff.2
    (show lo ≤ (m.heap p).base + (m.heap p).len ∧ (m.heap p).base + (m.heap p).len < hi by omega)
  obtain ⟨q, hq, rfl⟩ := mem_map.1 hr
  obtain ⟨hqle, hqin⟩ : (m.heap q).base ≤ (m.heap p).base + (m.heap p).len ∧
    (m.heap p).base + (m.heap p).len < (m.heap q).base + (m.heap q).len := hmem
  have hne : p ≠ q := by
    rintro rfl
    omega
  obtain ⟨as, bs, rfl⟩ := append_of_mem hp
  simp only [Gapped, pairwise_append, pairwise_cons, mem_append, mem_cons] at hg hq
  grind

/-- The free list is sorted, no two adjacent items touch, and once all handles are free the whole
region can be allocated. -/
structure FreeSorted (base len : ℕ) (s : PmRun) (v : ℕ) (xs : List ℕ) : Prop where
  path : Path 0 s.mem.next (s.mem.freelist v) xs
  sorted : xs.Pairwise fun p q => (s.mem.heap p).base < (s.mem.heap q).base
  apart : xs.IsChain fun p q => (s.mem.heap p).base + (s.mem.heap p).len ≠ (s.mem.heap q).base
  whole : 0 < len → s.live v = [] → ∀ fuel fresh, xs.length < fuel → Mallocs s.used fresh →
    ∃ m' p, packetmemAlloc fuel s.mem len fresh v = .ok (m', some p)

theorem packet_memory_coalesces {s₀ : PmRun} (hstart : PmStart base len s₀)
    (hrun : ReflTransGen (fun s t => PmStep s t ∧ InFront s t) s₀ s) (hv : v < packetmemVms) :
    ∃ xs, FreeSorted base len s v xs := by
  obtain ⟨free, hinv, hg⟩ := gapped_of_reachable hstart hrun
  refine ⟨free v, (hinv.mem v hv).path, (hg v hv).imp fun hab => by omega,
    ((hg v hv).imp fun hab => hab.ne).isChain, fun hlen hlive fuel fresh hfuel hfresh => ?_⟩
  have htiles := (hinv.mem v hv).tiles
  rw [hlive, append_nil] at htiles
  obtain ⟨⟨m', r⟩, hr, hdone⟩ := (hinv.alloc_spec hv hfresh len fuel).returns hfuel
  cases hdone with
  | done => exact ⟨_, _, hr⟩
  | failed hwhy =>
    obtain hshort | ⟨-, p, hp, hlong⟩ := hwhy
    · obtain ⟨p, hp, hle⟩ := (hg v hv).exists_whole htiles (by omega)
      have hlt := hshort p hp
      omega
    · have hin := htiles.inside (mem_map_of_mem hp) (show 0 < (s.mem.heap p).len by omega)
      unfold Packetmem.region at hin
      dsimp only at hin
      omega

/-- The handle of `fiftySplit` was released. -/
def fiftyJoined : PmRun where
  mem := absorb (addTo fiftySplit.mem 2 0 8) 8
  live := update fiftySplit.live 2 []
  used := fiftySplit.used \ {q | q ∈ [3]}

theorem fiftyJoined_coalesces :
    ReflTransGen (fun s t => PmStep s t ∧ InFront s t) fiftyStart fiftyJoined ∧
      ∃ xs, FreeSorted 100 50 fiftyJoined 2 xs := by
  have hfree : packetmemFree 2 fiftySplit.mem 8 2 = .ok (fiftyJoined.mem, [3]) := rfl
  have hlist : Path 0 fiftySplit.mem.next (fiftySplit.mem.freelist 2) [3] :=
    ⟨rfl, by decide, rfl⟩
  have hjoin : PmStep fiftySplit fiftyJoined := .free (by decide) (by decide) hfree
  have hrun : ReflTransGen (fun s t => PmStep s t ∧ InFront s t) fiftyStart fiftyJoined := by
    refine .tail (.single ⟨fiftySplit_step, fun v p hp _ => ?_⟩) ⟨hjoin, fun v p hp _ xs hxs => ?_⟩
    · cases hp
    · by_cases hv : v = 2
      · subst hv
        obtain rfl := mem_singleton.1 hp
        rw [hxs.unique hlist]
        decide
      · have hlive : fiftySplit.live v = [] := update_of_ne hv ..
        rw [hlive] at hp
        cases hp
  exact ⟨hrun, packet_memory_coalesces fiftyStart_starts hrun (by decide)⟩

/-- A second handle was split off. -/
def fiftyTwice : PmRun where
  mem := splitOff fiftySplit.mem 10 3 9
  live := update fiftySplit.live 2 [9, 8]
  used := insert 9 fiftySplit.used

/-- A handle of the third VM became the first free item, and nothing was merged. -/
def putFirst (s : PmRun) (p : ℕ) : PmRun where
  mem := addTo s.mem 2 0 p
  live := update s.live 2 ((s.live 2).erase p)
  used := s.used \ {q | q ∈ []}

/-- Of two handles the lower one is released first. The other one goes in front of it. -/
theorem lower_released_first : ∃ s, ReflTransGen PmStep fiftyStart s ∧ s.live 2 = [] ∧
    packetmemAlloc 4 s.mem 50 (some 10) 2 = .ok (s.mem, none) ∧
    ¬ ∃ xs, FreeSorted 100 50 s 2 xs := by
  have halloc : packetmemAlloc 2 fiftySplit.mem 10 (some 9) 2 = .ok (fiftyTwice.mem, some 9) := rfl
  have hfresh : Mallocs fiftySplit.used (some 9) := by
    intro p hp
    cases hp
    refine ⟨by decide, ?_⟩
    rintro (heq | hin)
    · cases heq
    · exact absurd hin.2 (by decide)
  have hsplit : PmStep fiftySplit fiftyTwice := .alloc (by decide) (by decide) hfresh halloc
  have hlow : packetmemFree 4 fiftyTwice.mem 8 2 = .ok ((putFirst fiftyTwice 8).mem, []) := rfl
  have hhigh : packetmemFree 4 (putFirst fiftyTwice 8).mem 9 2 =
    .ok ((putFirst (putFirst fiftyTwice 8) 9).mem, []) := rfl
  have hrun : ReflTransGen PmStep fiftyStart (putFirst fiftyTwice 8) :=
    .tail (.tail (.single fiftySplit_step) hsplit) (.free (by decide) (by decide) hlow)
  refine ⟨_, .tail hrun (.free (by decide) (by decide) hhigh), rfl, rfl, ?_⟩
  rintro ⟨xs, h⟩
  have hlist : Path 0 (putFirst (putFirst fiftyTwice 8) 9).mem.next
      ((putFirst (putFirst fiftyTwice 8) 9).mem.freelist 2) [9, 8, 3] :=
    ⟨rfl, by decide, rfl, by decide, rfl, by decide, rfl⟩
  have hsorted := h.sorted
  rw [h.path.unique hlist] at hsorted
  exact absurd hsorted (by decide)

end Tas
