import Tas.Epoll

/-! Runs of epoll: no readiness is lost, and ready sockets take turns. -/
namespace Tas

open Outcome Linked Function List

variable {m m' : EpollMem} {lists lists' : ℕ × Bool → List ℕ} {regs regs' : ℕ → List ℕ}
  {e ep s fuel : ℕ} {xs ys : List ℕ} {lists'' : ℕ × Bool → List ℕ} {f : ℕ → U32} {mask : U32}
  {done : List ℕ}

/-- The registrations are in their lists, at most one for each socket and epoll, and those with a
pending event are active. -/
structure EpollInv (m : EpollMem) (lists : ℕ × Bool → List ℕ) (regs : ℕ → List ℕ) : Prop where
  shape : EpollShape m lists regs
  once : ∀ e ∈ m.live, ∀ e' ∈ m.live, m.esEp e = m.esEp e' → m.esSock e = m.esSock e' → e = e'
  ready : ∀ e ∈ m.live, m.pending e ≠ 0 → m.active e = true

/-- Registrations may move between the lists, if those with a pending event stay active. -/
theorem EpollInv.relinked (h : EpollInv m lists regs) (hshape : EpollShape m' lists' regs)
    (hlinks : Relinked m m')
    (hactive : ∀ y, m.pending y ≠ 0 → m.active y = true → m'.active y = true) :
    EpollInv m' lists' regs := by
  refine ⟨hshape, ?_, ?_⟩
  · rw [hlinks.live, hlinks.esEp, hlinks.esSock]
    exact h.once
  · rw [hlinks.live]
    intro y hy hp
    rw [hlinks.pending] at hp
    exact hactive y hp (h.ready y hy hp)

/-- Active lists grow at their ends. -/
def Grows (lists lists' : ℕ × Bool → List ℕ) : Prop := ∀ p, lists (p, true) <+: lists' (p, true)

/-- Active lists lose registrations. -/
def Loses (lists lists' : ℕ × Bool → List ℕ) : Prop :=
  ∀ p, (lists' (p, true)).Sublist (lists (p, true))

theorem Grows.refl (lists : ℕ × Bool → List ℕ) : Grows lists lists := fun _ => prefix_rfl

theorem Grows.trans (h : Grows lists lists')
    (h' : Grows lists' lists'') : Grows lists lists'' := fun p => (h p).trans (h' p)

theorem Loses.trans (h : Loses lists lists')
    (h' : Loses lists' lists'') : Loses lists lists'' := fun p => (h' p).trans (h p)

/-! ### Loops over the list of a socket -/

theorem ctlLookup_stops (h : e = 0 ∨ m.esEp e = ep) : ctlLookup m ep fuel e = .ok e := by
  cases fuel <;> exact if_pos h

theorem ctlLookup_meets (hpath : Path 0 m.soNext e xs) :
    Meets (xs.length ≤ fuel)
      (fun r => (r = 0 ∧ ∀ y ∈ xs, m.esEp y ≠ ep) ∨ (r ∈ xs ∧ m.esEp r = ep))
      (ctlLookup m ep fuel e) := by
  induction xs generalizing e fuel with
  | nil =>
    rw [ctlLookup_stops (.inl hpath)]
    exact .inl ⟨hpath, by simp⟩
  | cons x xs ih =>
    obtain ⟨rfl, hz, hrest⟩ := hpath
    by_cases hep : m.esEp e = ep
    · rw [ctlLookup_stops (.inr hep)]
      exact .inr ⟨mem_cons_self, hep⟩
    have hgo : ¬ (e = 0 ∨ m.esEp e = ep) := not_or.2 ⟨hz, hep⟩
    cases fuel with
    | zero =>
      rw [ctlLookup, if_neg hgo]
      exact fun hlen => absurd hlen (by simp)
    | succ fuel =>
      rw [ctlLookup, if_neg hgo]
      refine (ih hrest).mono (fun hlen => by simpa using hlen) fun r hr => ?_
      obtain ⟨hr, hnone⟩ | ⟨hr, hfound⟩ := hr
      · exact .inl ⟨hr, forall_mem_cons.2 ⟨hep, hnone⟩⟩
      · exact .inr ⟨mem_cons_of_mem _ hr, hfound⟩

/-- What the loop of `flextcp_epoll_set` achieves for the registrations `xs`. -/
structure Woken (newevs : U32) (xs : List ℕ) (m : EpollMem) (lists : ℕ × Bool → List ℕ)
    (regs : ℕ → List ℕ) (m' : EpollMem) (lists' : ℕ × Bool → List ℕ) : Prop where
  shape : EpollShape m' lists' regs
  links : Relinked m m'
  grows : Grows lists lists'
  keeps : ∀ y, m.active y = true → m'.active y = true
  wakes : ∀ y ∈ xs, newevs &&& m.mask y ≠ 0 → m'.active y = true

theorem setLoop_meets {newevs : U32} (h : EpollShape m lists regs) (hpath : Path 0 m.soNext e xs)
    (hxs : ∀ y ∈ xs, y ∈ m.live) :
    Meets (xs.length ≤ fuel) (fun m' => ∃ lists', Woken newevs xs m lists regs m' lists')
      (setLoop newevs fuel m e) := by
  induction xs generalizing m lists e fuel with
  | nil =>
    have hstops : setLoop newevs fuel m e = .ok m := by cases fuel <;> exact if_pos hpath
    rw [hstops]
    exact ⟨lists, h, .refl m, .refl lists, fun _ hy => hy, by simp⟩
  | cons x xs ih =>
    obtain ⟨rfl, hz, hrest⟩ := hpath
    obtain ⟨he, hys⟩ := forall_mem_cons.1 hxs
    cases fuel with
    | zero =>
      rw [setLoop, if_neg hz]
      exact fun hlen => absurd hlen (by simp)
    | succ fuel =>
      rw [setLoop, if_neg hz]
      by_cases hmask : newevs &&& m.mask e = 0
      · rw [if_pos hmask]
        refine (ih h hrest hys).mono (fun hlen => by simpa using hlen) ?_
        rintro m' ⟨lists', hw⟩
        exact ⟨lists', hw.shape, hw.links, hw.grows, hw.keeps,
          forall_mem_cons.2 ⟨fun hnew => absurd hmask hnew, hw.wakes⟩⟩
      · obtain ⟨m₁, hm₁, hlinks, hactive, hshape⟩ := h.activate he
        rw [if_neg hmask, hm₁]
        refine (ih hshape (by rwa [hlinks.soNext]) (by rwa [hlinks.live])).mono
          (fun hlen => by simpa using hlen) ?_
        rintro m' ⟨lists', hw⟩
        have hkeep : ∀ y, m.active y = true → m₁.active y = true := by
          rw [hactive]
          exact (forall_update_iff m.active fun y b => m.active y = true → b = true).2
            ⟨fun _ => rfl, fun _ _ hy => hy⟩
        have hself : m₁.active e = true := by rw [hactive, update_self]
        have hwakes := hw.wakes
        rw [hlinks.mask] at hwakes
        exact ⟨lists', hw.shape, hlinks.trans hw.links,
          Grows.trans (activated_grows m lists e) hw.grows, fun y hy => hw.keeps y (hkeep y hy),
          forall_mem_cons.2 ⟨fun _ => hw.keeps e hself, hwakes⟩⟩

/-! ### Effects of the operations -/

/-- What an operation other than a poll does to a memory with its invariant. -/
structure Effect (m : EpollMem) (lists : ℕ × Bool → List ℕ) (m' : EpollMem)
    (lists' : ℕ × Bool → List ℕ) (regs' : ℕ → List ℕ) : Prop where
  inv : EpollInv m' lists' regs'
  turns : Grows lists lists' ∨ Loses lists lists'
  same : ∀ y ∈ m.live, y ∈ m'.live → m'.esEp y = m.esEp y

/-- Masks, events and counters do not matter for the lists. -/
theorem EpollShape.retouch {g u : ℕ → U32} (h : EpollShape m lists regs) :
    EpollShape { m with mask := f, numTas := g, epEvents := u } lists regs :=
  ⟨h.threads.congr rfl rfl rfl rfl rfl rfl, h.member, h.socket, h.registered⟩

section

variable (h : EpollInv m lists regs)
include h

theorem EpollInv.unchanged : Effect m lists m lists regs :=
  ⟨h, .inl (.refl lists), fun _ _ _ => rfl⟩

omit h in
/-- A bit of the new events is an old one, or it was not set before. -/
theorem pending_or {old evts : U32} (h : (old ||| evts) &&& mask ≠ 0) :
    old &&& mask ≠ 0 ∨ (~~~ old &&& evts) &&& mask ≠ 0 := by
  by_contra hnot
  rw [not_or, not_not, not_not] at hnot
  obtain ⟨hold, hnew⟩ := hnot
  refine h ?_
  ext i hi
  have hold' : (old &&& mask)[i] = false := by
    rw [hold]
    exact BitVec.getElem_zero hi
  have hnew' : ((~~~ old &&& evts) &&& mask)[i] = false := by
    rw [hnew]
    exact BitVec.getElem_zero hi
  change ((old ||| evts) &&& mask)[i] = (0#32)[i]
  rw [BitVec.getElem_zero]
  simp only [BitVec.getElem_and, BitVec.getElem_or, BitVec.getElem_not] at hold' hnew' ⊢
  revert hold' hnew'
  cases old[i] <;> cases evts[i] <;> cases mask[i] <;> decide

theorem EpollInv.set (s : ℕ) (evts : U32) :
    Meets ((regs s).length ≤ fuel) (fun m' => ∃ lists', Effect m lists m' lists' regs)
      (epollSet fuel m s evts) := by
  unfold epollSet
  dsimp only
  by_cases hnone : ~~~ m.epEvents s &&& evts = 0
  · rw [if_pos hnone]
    exact ⟨lists, h.unchanged⟩
  · rw [if_neg hnone]
    set m₁ : EpollMem :=
      { m with epEvents := update m.epEvents s (m.epEvents s ||| evts) } with hm₁
    have hshape : EpollShape m₁ lists regs := h.shape.retouch
    have hpath : Path 0 m₁.soNext (m.eps s) (regs s) := (h.shape.socket.chain s).path
    have hlive : ∀ y ∈ regs s, y ∈ m₁.live := fun y hy => ((h.shape.registered y s).1 hy).1
    refine (setLoop_meets hshape hpath hlive).mono id ?_
    rintro m' ⟨lists', hw⟩
    refine ⟨lists', ⟨hw.shape, ?_, ?_⟩, .inl hw.grows, ?_⟩
    · rw [hw.links.live, hw.links.esEp, hw.links.esSock]
      exact h.once
    · rw [hw.links.live]
      intro y hy hpending
      rw [hw.links.pending] at hpending
      change update m.epEvents s (m.epEvents s ||| evts) (m.esSock y) &&& m.mask y ≠ 0
        at hpending
      by_cases hs : m.esSock y = s
      · rw [hs, update_self] at hpending
        obtain hold | hnew := pending_or hpending
        · refine hw.keeps y (h.ready y hy ?_)
          unfold EpollMem.pending
          rwa [hs]
        · exact hw.wakes y ((h.shape.registered y s).2 ⟨hy, hs⟩) hnew
      · rw [update_of_ne hs] at hpending
        exact hw.keeps y (h.ready y hy hpending)
    · intro y _ _
      rw [hw.links.esEp]

theorem EpollInv.clear (s : ℕ) (evts : U32) : Effect m lists (epollClear m s evts) lists regs := by
  refine ⟨⟨h.shape.retouch, h.once, fun y hy hpending => h.ready y hy fun hz => hpending ?_⟩,
    .inl (.refl lists), fun _ _ _ => rfl⟩
  change update m.epEvents s (m.epEvents s &&& ~~~ evts) (m.esSock y) &&& m.mask y = 0
  by_cases hs : m.esSock y = s
  · unfold EpollMem.pending at hz
    rw [hs] at hz
    rw [hs, update_self, BitVec.and_assoc, BitVec.and_comm (~~~ evts), ← BitVec.and_assoc,
      hz]
    exact BitVec.zero_and
  · rwa [update_of_ne hs]

theorem EpollInv.release (he : e ∈ m.live) :
    ∃ m' lists' regs', esRelease m e = .ok m' ∧ EpollInv m' lists' regs' ∧
      Loses lists lists' ∧ m'.live = m.live.erase e ∧ m'.esEp = m.esEp := by
  obtain ⟨m', hm', hshape, hlive, hep, hsock, hmask, hactive, hevents⟩ := h.shape.release he
  refine ⟨m', _, _, hm', ⟨hshape, ?_, ?_⟩, fun p => ?_, hlive, hep⟩
  · rw [hlive, hep, hsock]
    intro y hy y' hy'
    exact h.once y (Finset.mem_of_mem_erase hy) y' (Finset.mem_of_mem_erase hy')
  · rw [hlive, hactive]
    intro y hy hpending
    refine h.ready y (Finset.mem_of_mem_erase hy) ?_
    unfold EpollMem.pending at *
    rwa [hevents, hsock, hmask] at hpending
  · by_cases hk : (p, true) = (m.esEp e, m.active e)
    · rw [without, hk, update_self]
      exact erase_sublist
    · rw [without, update_of_ne hk]

theorem drain_meets {first : EpollMem → ℕ}
    (hfirst : ∀ m lists regs, EpollShape m lists regs → first m = 0 ∨ first m ∈ m.live) :
    Meets (m.live.card ≤ fuel) (fun m' => ∃ lists' regs', EpollInv m' lists' regs' ∧
        Loses lists lists' ∧ m'.live.card ≤ m.live.card ∧ m'.esEp = m.esEp)
      (drain first fuel m) := by
  induction fuel generalizing m lists regs with
  | zero =>
    unfold drain
    by_cases hz : first m = 0
    · rw [if_pos hz]
      exact ⟨lists, regs, h, fun _ => List.Sublist.refl _, le_rfl, rfl⟩
    · rw [if_neg hz]
      intro hlen
      have hmem := (hfirst m lists regs h.shape).resolve_left hz
      have hpos := Finset.card_pos.2 ⟨_, hmem⟩
      omega
  | succ fuel ih =>
    unfold drain
    by_cases hz : first m = 0
    · rw [if_pos hz]
      exact ⟨lists, regs, h, fun _ => List.Sublist.refl _, le_rfl, rfl⟩
    · have hmem := (hfirst m lists regs h.shape).resolve_left hz
      obtain ⟨m₁, lists₁, regs₁, hm₁, hinv, hshrinks, hlive, hep⟩ := h.release hmem
      have hcard : m₁.live.card = m.live.card - 1 := by
        rw [hlive, Finset.card_erase_of_mem hmem]
      rw [if_neg hz, hm₁]
      refine (ih hinv).mono (fun hlen => by omega) ?_
      rintro m' ⟨lists', regs', hinv', hshrinks', hle, hep'⟩
      exact ⟨lists', regs', hinv', hshrinks.trans hshrinks', by omega, hep'.trans hep⟩

omit h in
/-- The first registration of a list is none or one that is allocated. -/
theorem EpollShape.eps_live (h : EpollShape m lists regs) (s : ℕ) :
    m.eps s = 0 ∨ m.eps s ∈ m.live :=
  (h.socket.head_mem s).imp_right fun hmem => ((h.registered _ s).1 hmem).1

omit h in
theorem EpollShape.heads_live (h : EpollShape m lists regs) (k : ℕ × Bool) :
    m.heads k = 0 ∨ m.heads k ∈ m.live :=
  (h.threads.links.head_mem k).imp_right fun hmem => ((h.member _ k).1 hmem).1

theorem EpollInv.sockclose (s : ℕ) :
    Meets (m.live.card ≤ fuel) (fun m' => ∃ lists' regs', Effect m lists m' lists' regs')
      (epollSockclose fuel m s) := by
  refine (drain_meets h fun m _ _ hshape => hshape.eps_live s).mono id ?_
  rintro m' ⟨lists', regs', hinv, hshrinks, -, hep⟩
  exact ⟨lists', regs', hinv, .inr hshrinks, fun y _ _ => congrFun hep y⟩

theorem EpollInv.destroy (ep : ℕ) :
    Meets (m.live.card ≤ fuel) (fun m' => ∃ lists' regs', Effect m lists m' lists' regs')
      (epollDestroy fuel m ep) := by
  unfold epollDestroy
  refine Meets.bind (drain_meets h fun m _ _ hshape => hshape.heads_live (ep, true)) ?_
  rintro m₁ ⟨lists₁, regs₁, hinv, hshrinks, hle, hep⟩
  refine (drain_meets hinv fun m _ _ hshape => hshape.heads_live (ep, false)).mono
    (fun hlen => hle.trans hlen) ?_
  rintro m' ⟨lists', regs', hinv', hshrinks', -, hep'⟩
  exact ⟨lists', regs', hinv', .inr (hshrinks.trans hshrinks'),
    fun y _ _ => congrFun (hep'.trans hep) y⟩

omit h in
/-- After a change of one registration, the check restores the invariant. -/
theorem EpollShape.check (h : EpollShape m lists regs) (he : e ∈ m.live)
    (honce : ∀ y ∈ m.live, ∀ z ∈ m.live, m.esEp y = m.esEp z → m.esSock y = m.esSock z → y = z)
    (hready : ∀ y ∈ m.live, y ≠ e → m.pending y ≠ 0 → m.active y = true) :
    ∃ m' lists', esCheck m e = .ok (m', .done) ∧ EpollInv m' lists' regs ∧ Grows lists lists' ∧
      m'.live = m.live ∧ m'.esEp = m.esEp := by
  unfold esCheck
  by_cases hpending : m.pending e ≠ 0
  · obtain ⟨m', hm', hlinks, hactive, hshape⟩ := h.activate he
    rw [if_pos hpending, hm']
    refine ⟨m', _, rfl, ⟨hshape, ?_, ?_⟩, activated_grows m lists e, hlinks.live, hlinks.esEp⟩
    · rw [hlinks.live, hlinks.esEp, hlinks.esSock]
      exact honce
    · rw [hlinks.live, hactive]
      intro y hy hp
      rw [hlinks.pending] at hp
      by_cases hye : y = e
      · rw [hye, update_self]
      · rw [update_of_ne hye]
        exact hready y hy hye hp
  · rw [if_neg hpending]
    refine ⟨m, lists, rfl, ⟨h, honce, fun y hy hp => ?_⟩, .refl lists, rfl, rfl⟩
    by_cases hye : y = e
    · rw [hye] at hp
      exact absurd hp hpending
    · exact hready y hy hye hp

theorem EpollInv.counted : EpollInv { m with numTas := f } lists regs :=
  ⟨h.shape.retouch, h.once, h.ready⟩

theorem EpollInv.modify (he : e ∈ m.live) :
    ∃ m' lists', esCheck { m with mask := update m.mask e mask } e = .ok (m', .done) ∧
      Effect m lists m' lists' regs := by
  set m₁ : EpollMem := { m with mask := update m.mask e mask } with hm₁
  have hshape : EpollShape m₁ lists regs := h.shape.retouch
  have hready : ∀ y ∈ m₁.live, y ≠ e → m₁.pending y ≠ 0 → m₁.active y = true := by
    intro y hy hye hp
    refine h.ready y hy ?_
    change m.epEvents (m.esSock y) &&& update m.mask e mask y ≠ 0 at hp
    rwa [update_of_ne hye] at hp
  obtain ⟨m', lists', hm', hinv, hgrows, -, hep⟩ := hshape.check he h.once hready
  exact ⟨m', lists', hm', hinv, .inl hgrows, fun y _ _ => congrFun hep y⟩

omit h in
theorem EpollInv.add (event : EpollEvent) (h : EpollInv m lists regs) (hne : e ≠ 0)
    (hfresh : e ∉ m.live) (hnone : ∀ y ∈ regs s, m.esEp y ≠ ep) :
    ∃ m' lists' regs', esCheck (esRegister m e ep s event) e = .ok (m', .done) ∧
      Effect m lists m' lists' regs' := by
  have hshape : EpollShape (esRegister m e ep s event) _ _ := h.shape.register hne hfresh
  set m₁ := esRegister m e ep s event with hm₁
  have hkept : ∀ y ∈ m.live, m₁.esEp y = m.esEp y ∧ m₁.esSock y = m.esSock y ∧
      m₁.mask y = m.mask y ∧ m₁.active y = m.active y := by
    intro y hy
    have hye : y ≠ e := fun heq => hfresh (heq ▸ hy)
    exact ⟨update_of_ne hye .., update_of_ne hye .., update_of_ne hye .., update_of_ne hye ..⟩
  -- the socket had no registration with the epoll
  have hnew : ∀ y ∈ m.live, m₁.esEp e = m₁.esEp y → m₁.esSock e ≠ m₁.esSock y := by
    intro y hy hep hsock
    rw [(hkept y hy).1, show m₁.esEp e = ep from update_self ..] at hep
    rw [(hkept y hy).2.1, show m₁.esSock e = s from update_self ..] at hsock
    exact hnone y ((h.shape.registered y s).2 ⟨hy, hsock.symm⟩) hep.symm
  have honce : ∀ y ∈ m₁.live, ∀ z ∈ m₁.live, m₁.esEp y = m₁.esEp z →
      m₁.esSock y = m₁.esSock z → y = z := by
    intro y hy z hz hep hsock
    obtain hye | hy := Finset.mem_insert.1 hy
    · obtain hze | hz := Finset.mem_insert.1 hz
      · rw [hye, hze]
      · rw [hye] at hep hsock
        exact absurd hsock (hnew z hz hep)
    · obtain hze | hz := Finset.mem_insert.1 hz
      · rw [hze] at hep hsock
        exact absurd hsock.symm (hnew y hy hep.symm)
      · rw [(hkept y hy).1, (hkept z hz).1] at hep
        rw [(hkept y hy).2.1, (hkept z hz).2.1] at hsock
        exact h.once y hy z hz hep hsock
  have hready : ∀ y ∈ m₁.live, y ≠ e → m₁.pending y ≠ 0 → m₁.active y = true := by
    intro y hy hye hp
    have hy : y ∈ m.live := (Finset.mem_insert.1 hy).resolve_left hye
    obtain ⟨-, hsock, hmask, hactive⟩ := hkept y hy
    unfold EpollMem.pending at hp
    rw [hsock, hmask] at hp
    rw [hactive]
    exact h.ready y hy hp
  obtain ⟨m', lists', hm', hinv, hgrows, -, hep'⟩ :=
    hshape.check (Finset.mem_insert_self e m.live) honce hready
  refine ⟨m', lists', _, hm', hinv, .inl (Grows.trans (fun p => ?_) hgrows), fun y hy _ => ?_⟩
  · rw [update_of_ne (by simp)]
  · rw [hep', (hkept y hy).1]

/-- `calloc` returns memory that no registration uses. -/
theorem EpollInv.ctl {op : CtlOp} {event : EpollEvent} {fresh : Option ℕ}
    (hfresh : Mallocs (m.live : Set ℕ) fresh) :
    Meets ((regs s).length ≤ fuel)
      (fun r => ∃ lists' regs', Effect m lists r.1 lists' regs')
      (tasEpollCtl fuel m ep op s event fresh) := by
  unfold tasEpollCtl
  refine (ctlLookup_meets (h.shape.socket.chain s).path).bind fun r hr => ?_
  dsimp only
  split
  · exact ⟨lists, regs, h.unchanged⟩
  have hlive : r ≠ 0 → r ∈ m.live := by
    intro hne
    obtain ⟨hz, -⟩ | ⟨hmem, -⟩ := hr
    · exact absurd hz hne
    · exact ((h.shape.registered r s).1 hmem).1
  have hcounted : ∀ f : ℕ → U32, Effect m lists { m with numTas := f } lists regs :=
    fun f => ⟨h.counted, .inl (.refl lists), fun _ _ _ => rfl⟩
  cases op with
  | add =>
    dsimp only
    by_cases hfound : r ≠ 0
    · rw [if_pos hfound]
      exact ⟨lists, regs, hcounted _⟩
    · rw [if_neg hfound]
      rw [not_not] at hfound
      have hnone : ∀ y ∈ regs s, m.esEp y ≠ ep := by
        obtain ⟨-, hnone⟩ | ⟨hmem, -⟩ := hr
        · exact hnone
        · exact absurd hfound (h.shape.socket.ne_nil hmem)
      cases hcalloc : fresh with
      | none => exact ⟨lists, regs, hcounted _⟩
      | some e =>
        obtain ⟨hne, hunused⟩ := hfresh e hcalloc
        obtain ⟨m', lists', regs', hm', hinv, hturns, hsame⟩ := EpollInv.add
          { event with events := event.events &&& ~~~ epollEt &&& ~~~ epollExclusive }
          (h.counted (f := update m.numTas ep (m.numTas ep + 1))) hne hunused hnone
        dsimp only
        rw [hm']
        exact ⟨lists', regs', hinv, hturns, hsame⟩
  | mod =>
    dsimp only
    by_cases hz : r = 0
    · rw [if_pos hz]
      exact ⟨lists, regs, h.unchanged⟩
    · obtain ⟨m', lists', hm', heffect⟩ := h.modify (hlive hz)
      rw [if_neg hz, hm']
      exact ⟨lists', regs, heffect⟩
  | del =>
    dsimp only
    by_cases hz : r = 0
    · rw [if_pos hz]
      exact ⟨lists, regs, hcounted _⟩
    · obtain ⟨m', lists', regs', hm', hinv, hshrinks, -, hep⟩ :=
        (h.counted (f := update m.numTas ep (m.numTas ep - 1))).release (hlive hz)
      rw [if_neg hz, hm']
      exact ⟨lists', regs', hinv, .inr hshrinks, fun y _ _ => congrFun hep y⟩
  | other => exact ⟨lists, regs, h.unchanged⟩

/-! ### Polls -/

/-- The event that a poll reports for a registration. -/
def EpollMem.report (m : EpollMem) (e : ℕ) : ℕ × EpollEvent := (e, ⟨m.pending e, m.data e⟩)

/-- A poll goes over the registrations `seen`, reports those with a pending event and puts them
behind the others. -/
structure PollEffect (ep room : ℕ) (seen unseen done : List ℕ) (m : EpollMem)
    (lists : ℕ × Bool → List ℕ) (regs : ℕ → List ℕ) (m' : EpollMem)
    (out : List (ℕ × EpollEvent)) (lists' : ℕ × Bool → List ℕ) : Prop where
  inv : EpollInv m' lists' regs
  links : Relinked m m'
  list : lists' (ep, true) = unseen ++ done ++ seen.filter fun e => m.pending e ≠ 0
  others : ∀ p, p ≠ ep → lists' (p, true) = lists (p, true)
  reports : out = (seen.filter fun e => m.pending e ≠ 0).map m.report
  fits : out.length ≤ room
  full : unseen = [] ∨ out.length = room

omit h in
/-- What a poll did after the step from `m` to `m₁`. -/
theorem PollEffect.of_relinked {room : ℕ} {seen unseen : List ℕ} {m₁ : EpollMem}
    {lists₁ : ℕ × Bool → List ℕ} {out : List (ℕ × EpollEvent)}
    (h : PollEffect ep room seen unseen done m₁ lists₁ regs m' out lists') (hlinks : Relinked m m₁)
    (hothers : ∀ p ≠ ep, lists₁ (p, true) = lists (p, true)) :
    PollEffect ep room seen unseen done m lists regs m' out lists' := by
  have hpending : m₁.pending = m.pending := funext hlinks.pending
  have hreport : m₁.report = m.report := by
    unfold EpollMem.report
    rw [hpending, hlinks.data]
  refine ⟨h.inv, hlinks.trans h.links, ?_, fun p hp => (h.others p hp).trans (hothers p hp), ?_,
    h.fits, h.full⟩
  · rw [h.list, hpending]
  · rw [h.reports, hpending, hreport]

omit h in
theorem pollLoop_spec {todo : List ℕ} (room : ℕ) (h : EpollInv m lists regs)
    (hlist : lists (ep, true) = todo ++ done) :
    ∃ seen unseen m' out lists', todo = seen ++ unseen ∧
      pollLoop ep todo.length room m = .ok (m', out) ∧
      PollEffect ep room seen unseen done m lists regs m' out lists' := by
  induction todo generalizing m lists done room with
  | nil =>
    refine ⟨[], [], m, [], lists, rfl, rfl, h, .refl m, ?_, fun _ _ => rfl, rfl, Nat.zero_le _,
      .inl rfl⟩
    simpa using hlist
  | cons e todo ih =>
    cases room with
    | zero =>
      refine ⟨[], e :: todo, m, [], lists, rfl, rfl, h, .refl m, ?_, fun _ _ => rfl, rfl, le_rfl,
        .inr rfl⟩
      simpa using hlist
    | succ room =>
      have hmem : e ∈ lists (ep, true) := by
        rw [hlist]
        exact mem_cons_self
      obtain ⟨hlive, hkey⟩ := (h.shape.member e _).1 hmem
      obtain ⟨hep, hflag⟩ := Prod.mk.inj hkey
      have hfirst : m.activeFirst ep = e := by
        have hpath := (h.shape.threads.links.chain (ep, true)).path
        rw [hlist] at hpath
        exact hpath.1
      have hrest : (lists (ep, true)).erase e = todo ++ done := by
        rw [hlist]
        exact erase_cons_head e (todo ++ done)
      have hne : e ≠ 0 := h.shape.ne_zero hlive
      rw [length_cons]
      unfold pollLoop
      rw [hfirst, if_neg hne]
      by_cases hpending : m.pending e ≠ 0
      · obtain ⟨m₁, hm₁, hlinks, hactive, hshape⟩ := h.shape.pushback hlive hflag
        rw [hep, hrest] at hshape
        have hinv := h.relinked hshape hlinks fun y _ hy => by rwa [hactive]
        have hlist₁ : update lists (ep, true) (todo ++ done ++ [e]) (ep, true) =
            todo ++ (done ++ [e]) := by
          rw [update_self, append_assoc]
        obtain ⟨seen, unseen, m', out, lists', hsplit, hloop, hpoll⟩ := ih room hinv hlist₁
        obtain ⟨hinv', hlinks', hlist', hothers, hout, hfits, hfull⟩ :=
          hpoll.of_relinked hlinks fun p hp => update_of_ne (by simp [hp]) ..
        have hkept : (e :: seen).filter (fun e => m.pending e ≠ 0) =
            e :: seen.filter fun e => m.pending e ≠ 0 := filter_cons_of_pos (by simpa)
        rw [if_pos hpending, hm₁]
        refine ⟨e :: seen, unseen, m', m.report e :: out, lists', by rw [hsplit]; rfl, ?_, hinv',
          hlinks', ?_, hothers, ?_, by simpa using hfits, hfull.imp_right (congrArg (· + 1))⟩
        · change (pollLoop ep todo.length room m₁ >>= _) = _
          rw [hloop]
          rfl
        · rw [hlist', hkept]
          simp
        · rw [hkept, hout]
          rfl
      · rw [not_not] at hpending
        obtain ⟨m₁, hm₁, hlinks, hactive, hshape⟩ := h.shape.deactivate hlive hflag
        have hinv := h.relinked hshape hlinks fun y hp hy => by
          have hye : y ≠ e := by
            rintro rfl
            exact hp hpending
          rwa [hactive, update_of_ne hye]
        have hlist₁ : update (without m lists e true) (m.esEp e, false)
            (e :: lists (m.esEp e, false)) (ep, true) = todo ++ done := by
          rw [update_of_ne (by simp), without, hep, update_self, hrest]
        obtain ⟨seen, unseen, m', out, lists', hsplit, hloop, hpoll⟩ := ih (room + 1) hinv hlist₁
        obtain ⟨hinv', hlinks', hlist', hothers, hout, hfits, hfull⟩ :=
          hpoll.of_relinked hlinks fun p hp => by
            rw [update_of_ne (by simp), without, update_of_ne (by simp [hep, hp])]
        have hdropped : (e :: seen).filter (fun e => m.pending e ≠ 0) =
            seen.filter fun e => m.pending e ≠ 0 := filter_cons_of_neg (by simpa)
        rw [if_neg (not_not.2 hpending), hm₁]
        exact ⟨e :: seen, unseen, m', out, lists', by rw [hsplit]; rfl, hloop, hinv',
          hlinks', by rw [hlist', hdropped], hothers, by rw [hdropped, hout], hfits, hfull⟩

/-! ### Runs -/

inductive EpollOp
  | ctl (ep : ℕ) (op : CtlOp) (s : ℕ) (event : EpollEvent) (fresh : Option ℕ)
  | set (s : ℕ) (evts : U32)
  | clear (s : ℕ) (evts : U32)
  | poll (ep maxevents : ℕ)
  | sockclose (s : ℕ)
  | destroy (ep : ℕ)

/-- The events that polls report, each with the registration it is for. -/
abbrev Reports := List (ℕ × EpollEvent)

def EpollOp.exec (fuel : ℕ) (m : EpollMem) : EpollOp → Except Fault (EpollMem × Reports)
  | .ctl ep op s event fresh => (tasEpollCtl fuel m ep op s event fresh).map fun r => (r.1, [])
  | .set s evts => (epollSet fuel m s evts).map fun m => (m, [])
  | .clear s evts => .ok (epollClear m s evts, [])
  | .poll ep maxevents => epPollTas m ep maxevents
  | .sockclose s => (epollSockclose fuel m s).map fun m => (m, [])
  | .destroy ep => (epollDestroy fuel m ep).map fun m => (m, [])

/-- `calloc` returns memory that no registration uses. -/
def EpollOp.Valid (m : EpollMem) : EpollOp → Prop
  | .ctl _ _ _ _ fresh => Mallocs (m.live : Set ℕ) fresh
  | _ => True

def EpollStep (m : EpollMem) (op : EpollOp) (out : Reports) (m' : EpollMem) : Prop :=
  op.Valid m ∧ ∃ fuel, op.exec fuel m = .ok (m', out)

def EpollRun : EpollMem → EpollMem → Prop :=
  Relation.ReflTransGen fun m m' => ∃ op out, EpollStep m op out m'

/-- New epolls and sockets, as `tas_epoll_create1` and `flextcp_epoll_sockinit` leave them. -/
structure EpollStart (m : EpollMem) : Prop where
  live : m.live = ∅
  inactive : ∀ ep, m.inactive ep = 0
  active : ∀ ep, m.activeFirst ep = 0 ∧ m.activeLast ep = 0 ∧ m.numActive ep = 0
  eps : ∀ s, m.eps s = 0

omit h in
theorem EpollStart.inv (h : EpollStart m) : EpollInv m (fun _ => []) fun _ => [] := by
  have hheads : ∀ k, m.heads k = 0 := by
    rintro ⟨p, b⟩
    cases b with
    | true => exact (h.active p).1
    | false => exact h.inactive p
  refine ⟨⟨⟨⟨fun k => ?_, fun _ _ _ hx => absurd hx not_mem_nil⟩, fun p => (h.active p).2.1,
    fun p => (h.active p).2.2⟩, fun e k => ?_, ⟨fun s => ?_, fun _ _ _ hx =>
    absurd hx not_mem_nil⟩, fun e s => ?_⟩, ?_, ?_⟩
  · rw [hheads k]
    exact chain_nil
  · simp [h.live]
  · rw [h.eps s]
    exact chain_nil
  all_goals simp [h.live]

variable {op : EpollOp} {out : Reports} {k : ℕ}

/-- What a step does to a memory with its invariant. -/
def StepEffect (m : EpollMem) (lists : ℕ × Bool → List ℕ) (regs : ℕ → List ℕ) (op : EpollOp)
    (out : Reports) (m' : EpollMem) (lists' : ℕ × Bool → List ℕ) (regs' : ℕ → List ℕ) : Prop :=
  match op with
  | .poll ep maxevents => regs' = regs ∧ ∃ seen unseen, lists (ep, true) = seen ++ unseen ∧
      PollEffect ep maxevents seen unseen [] m lists regs m' out lists'
  | _ => Effect m lists m' lists' regs' ∧ out = []

omit h in
theorem StepEffect.inv (h : StepEffect m lists regs op out m' lists' regs') :
    EpollInv m' lists' regs' := by
  cases op with
  | poll ep maxevents =>
    obtain ⟨rfl, _, _, -, heffect⟩ := h
    exact heffect.inv
  | ctl | set | clear | sockclose | destroy => exact h.1.inv

/-- Each operation runs without a failed assertion, and ends. -/
theorem EpollInv.exec (hvalid : op.Valid m) :
    ∃ bound, ∀ fuel, Meets (bound ≤ fuel)
      (fun r => ∃ lists' regs', StepEffect m lists regs op r.2 r.1 lists' regs')
      (op.exec fuel m) := by
  cases op with
  | ctl ep op s event fresh =>
    refine ⟨(regs s).length, fun fuel => (h.ctl hvalid).map ?_⟩
    rintro r ⟨lists', regs', heffect⟩
    exact ⟨lists', regs', heffect, rfl⟩
  | set s evts =>
    refine ⟨(regs s).length, fun fuel => (h.set s evts).map ?_⟩
    rintro m' ⟨lists', heffect⟩
    exact ⟨lists', regs, heffect, rfl⟩
  | clear s evts => exact ⟨0, fun fuel => ⟨lists, regs, h.clear s evts, rfl⟩⟩
  | poll ep maxevents =>
    obtain ⟨seen, unseen, m', out, lists', hsplit, hloop, heffect⟩ :=
      pollLoop_spec maxevents h (append_nil (lists (ep, true))).symm
    refine ⟨0, fun fuel => ?_⟩
    change Meets _ _ (pollLoop ep (m.numActive ep) maxevents m)
    rw [h.shape.threads.count, hloop]
    exact ⟨lists', regs, rfl, seen, unseen, hsplit, heffect⟩
  | sockclose s =>
    refine ⟨m.live.card, fun fuel => (h.sockclose s).map ?_⟩
    rintro m' ⟨lists', regs', heffect⟩
    exact ⟨lists', regs', heffect, rfl⟩
  | destroy ep =>
    refine ⟨m.live.card, fun fuel => (h.destroy ep).map ?_⟩
    rintro m' ⟨lists', regs', heffect⟩
    exact ⟨lists', regs', heffect, rfl⟩

theorem EpollInv.step (hstep : EpollStep m op out m') :
    ∃ lists' regs', StepEffect m lists regs op out m' lists' regs' := by
  obtain ⟨hvalid, fuel, hexec⟩ := hstep
  obtain ⟨bound, hmeets⟩ := h.exec hvalid
  exact (hmeets fuel).of_ok hexec

omit h in
theorem epollInv_run {m₀ : EpollMem} (h₀ : EpollStart m₀) (hrun : EpollRun m₀ m) :
    ∃ lists regs, EpollInv m lists regs := by
  induction hrun with
  | refl => exact ⟨_, _, h₀.inv⟩
  | tail _ hstep ih =>
    obtain ⟨lists, regs, hinv⟩ := ih
    obtain ⟨op, out, hstep⟩ := hstep
    obtain ⟨lists', regs', heffect⟩ := hinv.step hstep
    exact ⟨lists', regs', heffect.inv⟩

/-! ### Turns -/

omit h in
theorem idxOf_of_isPrefix (h : xs <+: ys) (he : e ∈ xs) : ys.idxOf e = xs.idxOf e := by
  obtain ⟨zs, rfl⟩ := h
  exact idxOf_append_of_mem he

omit h in
theorem idxOf_le_of_sublist (h : ys.Sublist xs) (hnodup : xs.Nodup) (he : e ∈ ys) :
    ys.idxOf e ≤ xs.idxOf e := by
  induction h with
  | slnil => exact le_rfl
  | @cons ys xs x hsub ih =>
    have hne : x ≠ e := by
      rintro rfl
      exact (nodup_cons.1 hnodup).1 (hsub.subset he)
    rw [idxOf_cons_ne _ hne]
    exact (ih (nodup_cons.1 hnodup).2 he).trans (Nat.le_succ _)
  | @cons_cons ys xs x hsub ih =>
    by_cases hx : x = e
    · rw [hx, idxOf_cons_self, idxOf_cons_self]
    · rw [idxOf_cons_ne _ hx, idxOf_cons_ne _ hx]
      have hmem : e ∈ ys := (mem_cons.1 he).resolve_left (Ne.symm hx)
      exact Nat.succ_le_succ (ih (nodup_cons.1 hnodup).2 hmem)

/-- The registration exists, and its socket has an event it waits for. -/
def EpollMem.Ready (m : EpollMem) (e : ℕ) : Prop := e ∈ m.live ∧ m.pending e ≠ 0

theorem EpollInv.ready_mem (he : m.Ready e) : e ∈ lists (m.esEp e, true) := by
  have hmem := h.shape.listed he.1
  rwa [h.ready e he.1 he.2] at hmem

/-- Is it a poll of `ep` for at least `k` events? -/
def EpollOp.pollsFor (ep k : ℕ) : EpollOp → Bool
  | .poll p maxevents => p = ep ∧ k ≤ maxevents
  | _ => false

/-- A ready registration moves on in the active list: by `k` positions with each poll for `k` events
that does not report it, and never back. -/
theorem EpollInv.moves_on (hready : m.Ready e) (hstep : EpollStep m op out m')
    (hready' : m'.Ready e) (hout : ∀ ev, (e, ev) ∉ out) :
    ∃ lists' regs', EpollInv m' lists' regs' ∧ m'.esEp e = m.esEp e ∧
      (lists' (m.esEp e, true)).idxOf e + (if op.pollsFor (m.esEp e) k then k else 0) ≤
        (lists (m.esEp e, true)).idxOf e := by
  obtain ⟨lists', regs', heffect⟩ := h.step hstep
  have hinv := heffect.inv
  have hmem := h.ready_mem hready
  have hmem' := hinv.ready_mem hready'
  have hquiet : Effect m lists m' lists' regs' → m'.esEp e = m.esEp e ∧
      (lists' (m.esEp e, true)).idxOf e ≤ (lists (m.esEp e, true)).idxOf e := by
    intro hq
    have hep := hq.same e hready.1 hready'.1
    rw [hep] at hmem'
    refine ⟨hep, ?_⟩
    obtain hgrows | hshrinks := hq.turns
    · exact (idxOf_of_isPrefix (hgrows _) hmem).le
    · exact idxOf_le_of_sublist (hshrinks _) (h.shape.nodup _) hmem'
  refine ⟨lists', regs', hinv, ?_⟩
  cases op with
  | poll ep maxevents =>
    obtain ⟨-, seen, unseen, hsplit, hpoll⟩ := heffect
    have hep := congrFun hpoll.links.esEp e
    refine ⟨hep, ?_⟩
    by_cases hp : m.esEp e = ep
    · rw [hp] at hmem ⊢
      -- it was not reported, so the poll ended before it
      have hnot : e ∉ seen := by
        intro hseen
        refine hout ⟨m.pending e, m.data e⟩ ?_
        rw [hpoll.reports]
        exact mem_map.2 ⟨e, mem_filter.2 ⟨hseen, by simpa using hready.2⟩, rfl⟩
      have hunseen : e ∈ unseen := by
        rw [hsplit, mem_append] at hmem
        exact hmem.resolve_left hnot
      have hlen : out.length ≤ seen.length := by
        rw [hpoll.reports, length_map]
        exact length_filter_le _ _
      have hfull : out.length = maxevents :=
        hpoll.full.resolve_left (ne_nil_of_mem hunseen)
      have hold : (lists (ep, true)).idxOf e = seen.length + unseen.idxOf e := by
        rw [hsplit, idxOf_append_of_notMem hnot]
      have hnew : (lists' (ep, true)).idxOf e = unseen.idxOf e := by
        rw [hpoll.list, append_assoc]
        exact idxOf_append_of_mem hunseen
      rw [hold, hnew]
      split_ifs with hk
      · have hle : k ≤ maxevents := by
          unfold EpollOp.pollsFor at hk
          simpa using hk
        omega
      · omega
    · have hk : EpollOp.pollsFor (m.esEp e) k (.poll ep maxevents) = false := by
        unfold EpollOp.pollsFor
        simp [Ne.symm hp]
      rw [hk, hpoll.others _ hp]
      simp
  | ctl | set | clear | sockclose | destroy => exact hquiet heffect.1

/-- Steps during which a registration stays ready. -/
inductive ReadyTrace (e : ℕ) : EpollMem → List (EpollOp × Reports) → EpollMem → Prop
  | nil {m : EpollMem} : ReadyTrace e m [] m
  | cons {m m₁ m' : EpollMem} {op : EpollOp} {out : Reports} {tr : List (EpollOp × Reports)}
      (hstep : EpollStep m op out m₁) (hready : m₁.Ready e) (hrest : ReadyTrace e m₁ tr m') :
      ReadyTrace e m ((op, out) :: tr) m'

/-- The number of polls of `ep` for at least `k` events. -/
def polls (ep k : ℕ) (tr : List (EpollOp × Reports)) : ℕ :=
  tr.countP fun x => x.1.pollsFor ep k

omit h in
/-- Polls that do not report a ready registration use up its position. -/
theorem EpollInv.waits {tr : List (EpollOp × Reports)} (htrace : ReadyTrace e m tr m')
    (h : EpollInv m lists regs) (hready : m.Ready e) (hout : ∀ x ∈ tr, ∀ ev, (e, ev) ∉ x.2) :
    polls (m.esEp e) k tr * k ≤ (lists (m.esEp e, true)).idxOf e := by
  induction htrace generalizing lists regs with
  | nil => simp [polls]
  | @cons m m₁ m' op out tr hstep hready₁ hrest ih =>
    obtain ⟨lists₁, regs₁, hinv, hep, hidx⟩ := h.moves_on (k := k) hready hstep hready₁
      (hout _ mem_cons_self)
    have hrest := ih hinv hready₁ fun x hx => hout x (mem_cons_of_mem _ hx)
    rw [hep] at hrest
    have hcount : polls (m.esEp e) k ((op, out) :: tr) =
        polls (m.esEp e) k tr + if op.pollsFor (m.esEp e) k then 1 else 0 := by
      unfold polls
      rw [countP_cons]
    rw [hcount, Nat.add_mul]
    split_ifs at hidx ⊢ <;> omega

/-- A poll reports each socket at most once, with the events that hold. -/
structure ReportsRight (m : EpollMem) (ep : ℕ) (out : Reports) : Prop where
  once : (out.map fun x => m.esSock x.1).Nodup
  holds : ∀ x ∈ out, x.1 ∈ m.live ∧ m.esEp x.1 = ep ∧ m.pending x.1 ≠ 0 ∧
    x.2 = ⟨m.pending x.1, m.data x.1⟩

theorem EpollInv.reports {maxevents : ℕ} (hstep : EpollStep m (.poll ep maxevents) out m') :
    ReportsRight m ep out := by
  obtain ⟨lists', regs', -, seen, unseen, hsplit, hpoll⟩ := h.step hstep
  have hseen : ∀ y ∈ seen, y ∈ m.live ∧ m.esEp y = ep := by
    intro y hy
    have hmem : y ∈ lists (ep, true) := by
      rw [hsplit]
      exact mem_append_left _ hy
    obtain ⟨hlive, hkey⟩ := (h.shape.member y _).1 hmem
    exact ⟨hlive, (Prod.mk.inj hkey).1⟩
  have hnodup : seen.Nodup := by
    have hall := h.shape.nodup (ep, true)
    rw [hsplit] at hall
    exact (nodup_append.1 hall).1
  constructor
  · rw [hpoll.reports, map_map]
    refine List.Nodup.map_on (fun y hy z hz heq => ?_) (hnodup.filter _)
    obtain ⟨hy, hyep⟩ := hseen y (mem_of_mem_filter hy)
    obtain ⟨hz, hzep⟩ := hseen z (mem_of_mem_filter hz)
    exact h.once y hy z hz (hyep.trans hzep.symm) heq
  · intro x hx
    rw [hpoll.reports] at hx
    obtain ⟨y, hy, rfl⟩ := mem_map.1 hx
    obtain ⟨hmem, hpending⟩ := mem_filter.1 hy
    obtain ⟨hlive, hep⟩ := hseen y hmem
    have hne : m.pending y ≠ 0 := by simpa using hpending
    exact ⟨hlive, hep, hne, rfl⟩

end

/-- The lists are right, every operation works, and readiness is reported: each socket at most once
in a poll, and a ready one within `⌈active / k⌉` polls for `k` events. -/
structure EpollOk (m : EpollMem) : Prop where
  lists : ∃ lists regs, EpollInv m lists regs
  safe : ∀ op : EpollOp, op.Valid m → ∀ fuel, op.exec fuel m ≠ .error .assertion
  returns : ∀ op : EpollOp, op.Valid m → ∃ fuel r, op.exec fuel m = .ok r
  reports : ∀ ep maxevents out m', EpollStep m (.poll ep maxevents) out m' → ReportsRight m ep out
  turns : ∀ e, m.Ready e → ∀ active k, m.numActive (m.esEp e) ≤ active → 0 < k →
    ∀ tr m', ReadyTrace e m tr m' → (active + k - 1) / k ≤ polls (m.esEp e) k tr →
      ∃ x ∈ tr, ∃ ev, (e, ev) ∈ x.2

theorem epoll_loses_no_readiness {m₀ : EpollMem} (h₀ : EpollStart m₀) (hrun : EpollRun m₀ m) :
    EpollOk m := by
  obtain ⟨lists, regs, hinv⟩ := epollInv_run h₀ hrun
  refine ⟨⟨lists, regs, hinv⟩, fun op hvalid fuel => ?_, fun op hvalid => ?_,
    fun ep maxevents out m' hstep => hinv.reports hstep, ?_⟩
  · obtain ⟨bound, hmeets⟩ := hinv.exec hvalid
    exact (hmeets fuel).no_assertion
  · obtain ⟨bound, hmeets⟩ := hinv.exec hvalid
    obtain ⟨r, hr, -⟩ := (hmeets bound).returns le_rfl
    exact ⟨bound, r, hr⟩
  · intro e hready active k hactive hk tr m' htrace hpolls
    by_contra hnot
    have hwaits := hinv.waits (k := k) htrace hready fun x hx ev hev => hnot ⟨x, hx, ev, hev⟩
    have hidx := idxOf_lt_length_of_mem (hinv.ready_mem hready)
    rw [← hinv.shape.threads.count] at hidx
    have hceil : active ≤ (active + k - 1) / k * k := by
      have hdiv := Nat.div_add_mod (active + k - 1) k
      have hmod := Nat.mod_lt (active + k - 1) hk
      rw [Nat.mul_comm] at hdiv
      omega
    have hmul := Nat.mul_le_mul_right k hpolls
    omega

/-- Memory without registrations. -/
def noRegistrations : EpollMem where
  esEp _ := 0
  esSock _ := 0
  epNext _ := 0
  epPrev _ := 0
  soNext _ := 0
  soPrev _ := 0
  data _ := 0
  mask _ := 0
  active _ := false
  inactive _ := 0
  activeFirst _ := 0
  activeLast _ := 0
  numActive _ := 0
  numTas _ := 0
  epEvents _ := 0
  eps _ := 0
  live := ∅

/-- The memory after an operation that takes at most two iterations of a loop. -/
def EpollMem.after (m : EpollMem) (op : EpollOp) : EpollMem :=
  match op.exec 2 m with
  | .ok r => r.1
  | .error _ => m

/-- Socket 5 is registered with epoll 1. -/
def oneRegistration : EpollMem := noRegistrations.after (.ctl 1 .add 5 ⟨epollIn, 0⟩ (some 7))

/-- Socket 5 is registered with epolls 1 and 2. -/
def twoRegistrations : EpollMem := oneRegistration.after (.ctl 2 .add 5 ⟨epollIn, 1⟩ (some 9))

/-- Data arrives on a socket that is registered twice. -/
theorem twoRegistrations_ready : ∃ m, EpollRun noRegistrations m ∧ m.Ready 7 ∧ m.Ready 9 ∧
    EpollOk m := by
  have hstart : EpollStart noRegistrations :=
    ⟨rfl, fun _ => rfl, fun _ => ⟨rfl, rfl, rfl⟩, fun _ => rfl⟩
  have hfirst : EpollStep noRegistrations (.ctl 1 .add 5 ⟨epollIn, 0⟩ (some 7)) []
      oneRegistration := ⟨by rintro p ⟨rfl⟩; exact ⟨by decide, by decide⟩, 2, rfl⟩
  have hsecond : EpollStep oneRegistration (.ctl 2 .add 5 ⟨epollIn, 1⟩ (some 9)) []
      twoRegistrations := ⟨by rintro p ⟨rfl⟩; exact ⟨by decide, by decide⟩, 2, rfl⟩
  have hset : EpollStep twoRegistrations (.set 5 epollIn) []
      (twoRegistrations.after (.set 5 epollIn)) := ⟨trivial, 2, rfl⟩
  have hrun : EpollRun noRegistrations _ :=
    .tail (.tail (.tail .refl ⟨_, _, hfirst⟩) ⟨_, _, hsecond⟩) ⟨_, _, hset⟩
  exact ⟨_, hrun, ⟨by decide, by decide⟩, ⟨by decide, by decide⟩,
    epoll_loses_no_readiness hstart hrun⟩

end Tas
