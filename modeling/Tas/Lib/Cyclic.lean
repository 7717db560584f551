import Mathlib
import Tas.Lib.Doubly
import Tas.Lib.Outcome

/-! Circular doubly linked lists threaded through two arrays of indices, with a head and a tail, and
loops around them. -/
namespace Cyclic

open Linked Outcome List

variable {ι : Type*} {inval head tail head' tail' x q : ι} {next next' prev prev' : ι → ι}
  {xs ys as bs : List ι}

/-- The links from `x` to `y` and back. -/
def Link (next prev : ι → ι) (x y : ι) : Prop := next x = y ∧ prev y = x

/-- The ring of `xs`, from its head to its tail. The empty ring has none. -/
structure Ring (inval : ι) (next prev : ι → ι) (head tail : ι) (xs : List ι) : Prop where
  links : Cycle.Chain (Link next prev) xs
  nodup : xs.Nodup
  valid : inval ∉ xs
  head_eq : head = xs.head?.getD inval
  tail_eq : tail = xs.getLast?.getD inval

theorem ring_nil : Ring inval next prev inval inval [] :=
  ⟨Cycle.Chain.nil _, nodup_nil, not_mem_nil, rfl, rfl⟩

/-- A cycle from one of its elements on. -/
theorem chain_cons_iff {R : ι → ι → Prop} (hys : ys ≠ []) :
    Cycle.Chain R (x :: ys : List ι) ↔
      List.IsChain R ys ∧ (∀ y ∈ ys.head?, R x y) ∧ ∀ z ∈ ys.getLast?, R z x := by
  rw [Cycle.chain_coe_cons, isChain_cons, isChain_append]
  cases ys with
  | nil => exact absurd rfl hys
  | cons y ys => simp [and_left_comm]

theorem chain_rotate {R : ι → ι → Prop} :
    Cycle.Chain R (as ++ x :: bs : List ι) ↔ Cycle.Chain R (x :: (bs ++ as) : List ι) := by
  have heq : ((as ++ x :: bs : List ι) : Cycle ι) = (x :: (bs ++ as) : List ι) :=
    Cycle.coe_eq_coe.2 isRotated_append
  rw [heq]

theorem getLast?_getD_mem_cons (xs : List ι) (y : ι) : xs.getLast?.getD y ∈ y :: xs := by
  rw [← getLastD_eq_getLast?]
  exact getLastD_mem_cons

theorem ring_singleton (hq : q ≠ inval) (hnext : next q = q) (hprev : prev q = q) :
    Ring inval next prev q q [q] := by
  refine ⟨(Cycle.chain_singleton _ q).2 ⟨hnext, hprev⟩, nodup_singleton q, ?_, rfl, rfl⟩
  simpa using hq.symm

section

variable (hr : Ring inval next prev head tail xs)
include hr

theorem Ring.eq_nil_iff : head = inval ↔ xs = [] := by
  cases xs with
  | nil => exact ⟨fun _ => rfl, fun _ => hr.head_eq⟩
  | cons y ys =>
    have hhead : head = y := hr.head_eq
    refine ⟨fun h => absurd ?_ hr.valid, fun h => by cases h⟩
    rw [← h, hhead]
    exact mem_cons_self

theorem Ring.tail_eq_inval_iff : tail = inval ↔ xs = [] := by
  obtain rfl | ⟨ys, y, rfl⟩ := eq_nil_or_concat xs
  · exact ⟨fun _ => rfl, fun _ => hr.tail_eq⟩
  · rw [concat_eq_append] at hr ⊢
    have htail : tail = y := by simpa using hr.tail_eq
    refine ⟨fun h => absurd ?_ hr.valid, fun h => by simp at h⟩
    rw [← h, htail]
    simp

/-- The tail and the head are linked to each other. -/
theorem Ring.closed (hne : xs ≠ []) : Link next prev tail head := by
  have hlinks := hr.links
  rw [Cycle.chain_ne_nil _ hne] at hlinks
  cases xs with
  | nil => exact absurd rfl hne
  | cons y ys =>
    have htail : tail = (y :: ys).getLast hne := by
      rw [hr.tail_eq, List.getLast?_eq_some_getLast hne]
      rfl
    obtain rfl : head = y := hr.head_eq
    rw [htail]
    exact (isChain_cons_cons.1 hlinks).1

/-- Only a ring of one node has the same head and tail. -/
theorem Ring.singleton_iff (hx : x ∈ xs) : tail = head ↔ xs = [x] := by
  cases xs with
  | nil => cases hx
  | cons y ys =>
    have hhead : head = y := hr.head_eq
    have htail := hr.tail_eq
    rw [List.getLast?_cons] at htail
    cases ys with
    | nil =>
      obtain rfl := mem_singleton.1 hx
      exact ⟨fun _ => rfl, fun _ => htail.trans hhead.symm⟩
    | cons z zs =>
      refine ⟨fun heq => ?_, fun h => by simp at h⟩
      have hmem : tail ∈ z :: zs := by
        have hlast : tail = zs.getLast?.getD z := by
          rw [htail, List.getLast?_cons]
          rfl
        rw [hlast]
        exact getLast?_getD_mem_cons zs z
      rw [heq, hhead] at hmem
      exact absurd hmem (nodup_cons.1 hr.nodup).1

variable [DecidableEq ι]

/-- Put a node behind the tail of a ring. -/
theorem Ring.enqueue (hne : xs ≠ []) (hq : q ≠ inval) (hnew : q ∉ xs) (hnextq : next' q = head)
    (hprevq : prev' q = tail) (hnext : ∀ y ∈ xs, next' y = if y = tail then q else next y)
    (hprev : ∀ y ∈ xs, prev' y = if y = head then q else prev y) :
    Ring inval next' prev' head q (xs ++ [q]) := by
  have hclosed := hr.closed hne
  have hhead? : xs.head? = some head := by
    cases xs with
    | nil => exact absurd rfl hne
    | cons y ys => rw [hr.head_eq]; rfl
  have hlast? : xs.getLast? = some tail := by
    rw [hr.tail_eq, List.getLast?_eq_some_getLast hne]
    rfl
  refine ⟨?_, ?_, ?_, ?_, by simp⟩
  · rw [← Cycle.coe_cons_eq_coe_append, chain_cons_iff hne]
    have hchain := hr.links
    rw [Cycle.chain_ne_nil _ hne, isChain_cons] at hchain
    refine ⟨hchain.2.imp_of_mem_tail_imp fun a b ha hb hab => ?_, fun y hy => ?_, fun z hz => ?_⟩
    · have hbhead : b ≠ head := by
        rintro rfl
        cases xs with
        | nil => exact absurd rfl hne
        | cons y ys =>
          obtain rfl := Option.some.inj hhead?
          exact (nodup_cons.1 hr.nodup).1 hb
      have hatail : a ≠ tail := by
        rintro rfl
        exact hbhead (hab.1.symm.trans hclosed.1)
      exact ⟨by rw [hnext a ha, if_neg hatail, hab.1],
        by rw [hprev b (mem_of_mem_tail hb), if_neg hbhead, hab.2]⟩
    · obtain rfl : head = y := Option.some.inj (hhead?.symm.trans hy)
      exact ⟨hnextq, by rw [hprev _ (mem_of_head? hhead?), if_pos rfl]⟩
    · obtain rfl : tail = z := Option.some.inj (hlast?.symm.trans hz)
      exact ⟨by rw [hnext _ (mem_of_getLast? hlast?), if_pos rfl], hprevq⟩
  · exact nodup_append.2 ⟨hr.nodup, nodup_singleton q, fun y hy z hz heq =>
      hnew (mem_singleton.1 hz ▸ heq ▸ hy)⟩
  · simp only [mem_append, mem_singleton]
    rintro (hin | rfl)
    · exact hr.valid hin
    · exact hq rfl
  · rw [List.head?_append, hhead?]
    rfl

end

/-- Head and tail move on by one. -/
theorem Ring.rotate (hr : Ring inval next prev head tail (x :: xs)) :
    Ring inval next prev (next head) (next tail) (xs ++ [x]) := by
  obtain rfl : head = x := hr.head_eq
  have hclosed := hr.closed (by simp)
  refine ⟨?_, ?_, ?_, ?_, ?_⟩
  · rw [chain_rotate]
    simpa using hr.links
  · exact nodup_append_comm.1 (by simpa using hr.nodup)
  · have hvalid := hr.valid
    simp only [mem_cons, mem_append] at hvalid ⊢
    tauto
  · cases xs with
    | nil =>
      have htail : tail = head := hr.tail_eq
      simpa [htail] using hclosed.1
    | cons y ys =>
      have haround := (chain_cons_iff (by simp)).1 hr.links
      exact (haround.2.1 y rfl).1
  · simpa using hclosed.1

section

variable (hr : Ring inval next prev head tail (as ++ x :: bs))
include hr

/-- The links of a node of a ring with others. -/
theorem Ring.around (hne : bs ++ as ≠ []) :
    List.IsChain (Link next prev) (bs ++ as) ∧
      (∀ y ∈ (bs ++ as).head?, Link next prev x y) ∧
      ∀ z ∈ (bs ++ as).getLast?, Link next prev z x :=
  (chain_cons_iff hne).1 (chain_rotate.1 hr.links)

theorem Ring.not_mem : x ∉ bs ++ as := by
  have hnodup := perm_middle.nodup_iff.1 hr.nodup
  have hx := (nodup_cons.1 hnodup).1
  simp only [mem_append] at hx ⊢
  tauto

/-- The neighbours of a node of a ring with others. -/
theorem Ring.neighbours (hne : bs ++ as ≠ []) :
    next x = (bs ++ as).head?.getD inval ∧ prev x = (bs ++ as).getLast?.getD inval := by
  obtain ⟨-, hfirst, hlast⟩ := hr.around hne
  have hhead := List.head?_eq_some_head hne
  have hend := List.getLast?_eq_some_getLast hne
  refine ⟨?_, ?_⟩
  · rw [(hfirst _ hhead).1, hhead]
    rfl
  · rw [(hlast _ hend).2, hend]
    rfl

theorem Ring.next_eq : next x = bs.head?.getD head := by
  cases bs with
  | nil =>
    have htail : tail = x := by simpa using hr.tail_eq
    rw [← htail]
    exact (hr.closed (by simp)).1
  | cons y bs => exact (hr.neighbours (by simp)).1

variable [DecidableEq ι]

/-- The ends of a ring from which a node is taken. -/
theorem Ring.remove_ends (hne : bs ++ as ≠ []) :
    (if next x = head then head else if prev x = tail then next x else head) =
        (as ++ bs).head?.getD inval ∧
      (if next x = head then prev x else tail) = (as ++ bs).getLast?.getD inval := by
  obtain ⟨hnext, hprev⟩ := hr.neighbours hne
  have hout := hr.not_mem
  have hhead := hr.head_eq
  have htail := hr.tail_eq
  have hnodup := hr.nodup
  cases as with
  | nil =>
    -- the node is the head
    cases bs with
    | nil => exact absurd rfl hne
    | cons b bs =>
      obtain rfl : head = x := hhead
      have hb : next head = b := hnext
      have hbne : b ≠ head := fun heq => hout (by simp [heq])
      have hlast : prev head = tail := by
        rw [hprev, htail]
        simp
      rw [hb, if_neg hbne, if_pos hlast, if_neg hbne, htail]
      simp
  | cons a as =>
    obtain rfl : head = a := hhead
    cases bs with
    | nil =>
      -- the node is the tail
      have hfirst : next x = head := hnext
      rw [if_pos hfirst, if_pos hfirst, hprev]
      simp
    | cons b bs =>
      have hb : next x = b := hnext
      have hbne : b ≠ head := by
        rintro rfl
        simp at hnodup
      have hend : tail = bs.getLast?.getD b := by
        rw [htail, getLast?_getD_append_cons, List.getLast?_cons]
        rfl
      have hlast : prev x ≠ tail := by
        rw [hprev, getLast?_getD_append_cons, hend]
        refine (nodup_append.1 hnodup).2.2 _ (getLast?_getD_mem_cons as head) _ ?_
        exact mem_cons_of_mem _ (getLast?_getD_mem_cons bs b)
      rw [hb, if_neg hbne, if_neg hlast, if_neg hbne, hend, getLast?_getD_append_cons]
      exact ⟨rfl, rfl⟩

/-- Take a node out of a ring with others. -/
theorem Ring.remove (hne : bs ++ as ≠ [])
    (hhead : head' = if next x = head then head else if prev x = tail then next x else head)
    (htail : tail' = if next x = head then prev x else tail)
    (hnext : ∀ y ∈ as ++ bs, next' y = if y = prev x then next x else next y)
    (hprev : ∀ y ∈ as ++ bs, prev' y = if y = next x then prev x else prev y) :
    Ring inval next' prev' head' tail' (as ++ bs) := by
  obtain ⟨hchain, hfirst, hlast⟩ := hr.around hne
  have hends := hr.remove_ends hne
  have hout := hr.not_mem
  have hmem {y : ι} (hy : y ∈ bs ++ as) : y ∈ as ++ bs := perm_append_comm.mem_iff.1 hy
  have hnodup := (nodup_cons.1 (perm_middle.nodup_iff.1 hr.nodup)).2
  refine ⟨?_, hnodup, fun hin => hr.valid ?_, hhead.trans hends.1, htail.trans hends.2⟩
  · have hrot : ((as ++ bs : List ι) : Cycle ι) = (bs ++ as : List ι) :=
      Cycle.coe_eq_coe.2 isRotated_append
    have hhead? := List.head?_eq_some_head hne
    have hlast? := List.getLast?_eq_some_getLast hne
    have hx := hfirst _ hhead?
    have hz := hlast _ hlast?
    rw [hrot, Cycle.chain_ne_nil _ hne, isChain_cons]
    refine ⟨fun y hy => ?_, hchain.imp_of_mem_imp fun a b ha hb hab => ?_⟩
    · -- the neighbours of the node are linked to each other
      cases hhead?.symm.trans hy
      refine ⟨?_, ?_⟩
      · rw [hnext _ (hmem (getLast_mem hne)), if_pos hz.2.symm, hx.1]
      · rw [hprev _ (hmem (head_mem hne)), if_pos hx.1.symm, hz.2]
    · have hanot : a ≠ prev x := by
        rintro rfl
        have hbx : x = b := hz.1.symm.trans (hz.2 ▸ hab.1)
        exact hout (hbx ▸ hb)
      have hbnot : b ≠ next x := by
        rintro rfl
        have hax : x = a := hx.2.symm.trans (hx.1 ▸ hab.2)
        exact hout (hax ▸ ha)
      exact ⟨by rw [hnext a (hmem ha), if_neg hanot, hab.1],
        by rw [hprev b (hmem hb), if_neg hbnot, hab.2]⟩
  · simp only [mem_append, mem_cons] at hin ⊢
    tauto

end

/-! ### Loops -/

variable {σ : Type} {body : ι → σ → Except Fault σ} {succ : σ → ι → ι} {stop : σ → ι → Bool}
  {P : List ι → σ → Prop} {live : Prop} {fuel : ℕ} {s : σ}

/-- The loop `do body; while (more)` over the nodes of a ring. -/
def doRing (body : ι → σ → Except Fault σ) (succ : σ → ι → ι) (stop : σ → ι → Bool) :
    ℕ → ι → σ → Except Fault σ
  | 0, _, _ => .error .unfinished
  | fuel + 1, i, s => do
    let s ← body i s
    if stop s (succ s i) then .ok s else doRing body succ stop fuel (succ s i) s

/-- What each visit keeps holds after the loop. -/
theorem doRing_keeps {P : σ → Prop} {body : ι → σ → Except Fault σ} {succ : σ → ι → ι}
    {stop : σ → ι → Bool} {fuel : ℕ} {i : ι} {s s' : σ}
    (hbody : ∀ i s s', P s → body i s = .ok s' → P s') (hP : P s)
    (h : doRing body succ stop fuel i s = .ok s') : P s' := by
  induction fuel generalizing i s with
  | zero => cases h
  | succ fuel ih =>
    unfold doRing at h
    cases hb : body i s with
    | error e =>
      rw [hb] at h
      cases h
    | ok s₁ =>
      rw [hb] at h
      have h₁ := hbody i s s₁ hP hb
      change (if stop s₁ (succ s₁ i) then Except.ok s₁ else _) = _ at h
      split_ifs at h
      · cases h
        exact h₁
      · exact ih h₁ h

/-- Two rings of the same nodes have the same links. -/
theorem Ring.next_unique {hd tl : ι} (hr : Ring inval next prev head tail xs)
    (hr' : Ring inval next' prev' hd tl xs) (hx : x ∈ xs) : next x = next' x ∧ head = hd := by
  have hheads : head = hd := hr.head_eq.trans hr'.head_eq.symm
  obtain ⟨as, bs, rfl⟩ := append_of_mem hx
  exact ⟨by rw [hr.next_eq, hr'.next_eq, hheads], hheads⟩

/-- A loop that stops at the head of a ring visits its first nodes, one after the other, and ends at
another node only if it is made to stop there. -/
theorem Ring.doRing_from (hr : Ring inval next prev head tail (as ++ x :: bs))
    (hbody : ∀ cs y ds s, as ++ x :: bs = cs ++ y :: ds → P cs s →
      Meets live (fun s' => P (cs ++ [y]) s' ∧ succ s' y = next y ∧ stop s' head = true) (body y s))
    (hP : P as s) :
    Meets (live ∧ bs.length < fuel)
      (fun s' => ∃ cs ds, as ++ x :: bs = cs ++ ds ∧ P cs s' ∧
        ∀ y ∈ ds.head?, y ≠ head ∧ stop s' y = true)
      (doRing body succ stop fuel x s) := by
  induction fuel generalizing as x bs s with
  | zero => exact fun h => Nat.not_lt_zero _ h.2
  | succ fuel ih =>
    unfold doRing
    refine ((hbody as x bs s rfl hP).mono (fun h => h.1) fun _ h => h).bind ?_
    rintro s' ⟨hP', hsucc, hstop⟩
    have hnext := hsucc.trans hr.next_eq
    by_cases hdone : stop s' (succ s' x) = true
    · rw [if_pos hdone]
      refine meets_ok ⟨as ++ [x], bs, by simp, hP', fun y hy => ⟨?_, ?_⟩⟩
      · rintro rfl
        have hhead := hr.head_eq
        have hnodup := hr.nodup
        have hmem := mem_of_head? hy
        cases as with
        | nil =>
          rw [hhead] at hmem
          exact (nodup_cons.1 hnodup).1 hmem
        | cons a as =>
          rw [hhead] at hmem
          exact (nodup_cons.1 hnodup).1 (by simp [show a ∈ bs from hmem])
      · rw [hnext, hy] at hdone
        exact hdone
    · rw [if_neg hdone]
      cases bs with
      | nil =>
        rw [hnext] at hdone
        exact absurd hstop hdone
      | cons y bs =>
        rw [hnext]
        have heq : as ++ x :: y :: bs = (as ++ [x]) ++ y :: bs := by simp
        rw [heq] at hr hbody ⊢
        exact (ih hr hbody hP').mono (by simp) fun _ h => h

theorem Ring.doRing_rule (hr : Ring inval next prev head tail xs) (live : Prop)
    (P : List ι → σ → Prop) (hne : xs ≠ []) (hbody : ∀ cs y ds s, xs = cs ++ y :: ds → P cs s →
      Meets live (fun s' => P (cs ++ [y]) s' ∧ succ s' y = next y ∧ stop s' head = true) (body y s))
    (hP : P [] s) :
    Meets (live ∧ xs.length ≤ fuel)
      (fun s' => ∃ cs ds, xs = cs ++ ds ∧ P cs s' ∧ ∀ y ∈ ds.head?, y ≠ head ∧ stop s' y = true)
      (doRing body succ stop fuel head s) := by
  cases xs with
  | nil => exact absurd rfl hne
  | cons x xs =>
    obtain rfl : head = x := hr.head_eq
    rw [← nil_append (head :: xs)] at hr hbody ⊢
    exact (hr.doRing_from hbody hP).mono (by simp) fun _ h => h

end Cyclic
