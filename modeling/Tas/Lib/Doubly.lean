import Tas.Lib.Linked

/-! Doubly linked lists threaded through two arrays of indices, with an end mark. -/
namespace Linked

open List

variable {ι : Type*} {nil h h' p q x : ι} {next next' prev prev' : ι → ι} {xs as bs : List ι}

/-- The links back along `xs`, the first of them to `p`. -/
def Back (prev : ι → ι) : ι → List ι → Prop
  | _, [] => True
  | p, x :: xs => prev x = p ∧ Back prev x xs

theorem Back.congr (hb : Back prev p xs) (heq : ∀ x ∈ xs, prev' x = prev x) : Back prev' p xs := by
  induction xs generalizing p with
  | nil => trivial
  | cons y ys ih =>
    refine ⟨(heq y (by simp)).trans hb.1, ih hb.2 fun x hx => heq x (by simp [hx])⟩

theorem back_append :
    Back prev p (as ++ bs) ↔ Back prev p as ∧ Back prev (as.getLast?.getD p) bs := by
  induction as generalizing p with
  | nil => exact (and_iff_right trivial).symm
  | cons a as ih =>
    have hlast : (a :: as).getLast?.getD p = as.getLast?.getD a := by
      rw [getLast?_cons]
      cases as.getLast? <;> rfl
    rw [hlast]
    exact (and_congr_right fun _ => ih).trans and_assoc.symm

/-- The link back of a node is to the node before. -/
theorem Back.prev_eq (hb : Back prev p (as ++ x :: bs)) : prev x = as.getLast?.getD p :=
  (back_append.1 hb).2.1

/-- The first node `q` of a list gets another node before it. -/
theorem Back.setFirst [DecidableEq ι] (hb : Back prev x bs) (hnodup : bs.Nodup)
    (hfirst : bs.head? = some q ∨ bs = [])
    (hprev : ∀ y ∈ bs, prev' y = if y = q then p else prev y) : Back prev' p bs := by
  cases bs with
  | nil => trivial
  | cons y ys =>
    obtain rfl : y = q := by simpa using hfirst
    refine ⟨(hprev y (by simp)).trans (if_pos rfl), hb.2.congr fun z hz => ?_⟩
    rw [hprev z (by simp [hz]), if_neg]
    rintro rfl
    exact (nodup_cons.1 hnodup).1 hz

/-- Unlink a node: the node behind it gets the one before it. -/
theorem Back.remove [DecidableEq ι] (hb : Back prev p (as ++ x :: bs))
    (hnext : bs.head? = some q ∨ bs = []) (hq : q ∉ as) (hnodup : bs.Nodup)
    (hprev : ∀ y ∈ as ++ bs, prev' y = if y = q then prev x else prev y) :
    Back prev' p (as ++ bs) := by
  obtain ⟨has, hx, hbs⟩ := back_append.1 hb
  refine back_append.2 ⟨has.congr fun y hy => ?_, hx ▸ hbs.setFirst hnodup hnext fun y hy => ?_⟩
  · rw [hprev y (mem_append_left _ hy), if_neg (ne_of_mem_of_not_mem hy hq)]
  · exact hprev y (mem_append_right _ hy)

/-- Link `q` between `as` and `bs`. -/
theorem Back.insert [DecidableEq ι] (hb : Back prev p (as ++ bs))
    (hq : prev' q = as.getLast?.getD p) (hhead : bs.head? = some x ∨ bs = []) (hx : x ∉ as)
    (hnodup : bs.Nodup) (hprev : ∀ y ∈ as ++ bs, prev' y = if y = x then q else prev y) :
    Back prev' p (as ++ q :: bs) := by
  obtain ⟨has, hbs⟩ := back_append.1 hb
  refine back_append.2 ⟨has.congr fun y hy => ?_, hq, hbs.setFirst hnodup hhead fun y hy => ?_⟩
  · rw [hprev y (mem_append_left _ hy), if_neg (ne_of_mem_of_not_mem hy hx)]
  · exact hprev y (mem_append_right _ hy)

/-- A list with links both ways. -/
structure Chain (nil : ι) (next prev : ι → ι) (h : ι) (xs : List ι) : Prop where
  path : Path nil next h xs
  back : Back prev nil xs
  nodup : xs.Nodup

theorem chain_nil : Chain nil next prev nil [] := ⟨rfl, trivial, nodup_nil⟩

theorem Chain.congr (hc : Chain nil next prev h xs) (hnext : ∀ x ∈ xs, next' x = next x)
    (hprev : ∀ x ∈ xs, prev' x = prev x) : Chain nil next' prev' h xs :=
  ⟨hc.path.congr hnext, hc.back.congr hprev, hc.nodup⟩

/-- Unlink a node: its neighbours are linked to each other. -/
theorem Chain.remove [DecidableEq ι] (hc : Chain nil next prev h (as ++ x :: bs))
    (hhead : h' = if prev x = nil then next x else h)
    (hnext : ∀ y ∈ as ++ bs, next' y = if y = prev x then next x else next y)
    (hprev : ∀ y ∈ as ++ bs, prev' y = if y = next x then prev x else prev y) :
    Chain nil next' prev' h' (as ++ bs) := by
  have hnodup : (as ++ bs).Nodup ∧ x ∉ as ++ bs := by
    have hperm := (perm_middle.nodup_iff.1 hc.nodup)
    exact ⟨(nodup_cons.1 hperm).2, (nodup_cons.1 hperm).1⟩
  have hne := hc.path.ne_nil
  have hafter : Path nil next (next x) bs := hc.path.right.2.2
  have hback := hc.back.prev_eq
  refine ⟨?_, ?_, hnodup.1⟩
  · obtain rfl | ⟨cs, p, rfl⟩ := eq_nil_or_concat as
    · have hnil : prev x = nil := hback
      rw [hhead, if_pos hnil]
      refine hafter.congr fun y hy => ?_
      rw [hnext y hy, if_neg]
      rintro rfl
      exact hne _ (by simp [hy]) hnil
    · rw [concat_eq_append] at *
      have hp : prev x = p := by
        rw [hback]
        simp
      have hpne : p ≠ nil := hne p (by simp)
      have hpath := hc.path
      rw [hhead, hp, if_neg hpne]
      rw [append_assoc] at hpath ⊢
      refine hpath.remove ?_ fun y hy => ?_
      · rw [hnext p (by simp), if_pos hp.symm]
      · have hyp : y ≠ p := by
          rintro rfl
          have hnd := hnodup.1
          simp [nodup_append] at hnd hy
          grind
        rw [hnext y (by simp at hy ⊢; tauto), if_neg (hp ▸ hyp)]
  · have hhead? : bs.head? = some (next x) ∨ bs = [] := by
      cases bs with
      | nil => exact .inr rfl
      | cons y ys => exact .inl (by rw [hafter.1]; rfl)
    refine hc.back.remove hhead? ?_ (nodup_append.1 hnodup.1).2.1 hprev
    intro hmem
    cases bs with
    | nil => exact hne (next x) (by simp [hmem]) hafter
    | cons y ys =>
      have hy := hafter.1
      have hnd := hnodup.1
      rw [hy] at hmem
      exact (nodup_append.1 hnd).2.2 y hmem y (by simp) rfl

/-- The node behind `as`, or the end mark, is none of `as`. -/
theorem Chain.head_not_mem (hc : Chain nil next prev h (as ++ bs)) : bs.head?.getD nil ∉ as := by
  intro hmem
  cases bs with
  | nil => exact hc.path.ne_nil nil (mem_append_left _ hmem) rfl
  | cons y ys => exact (nodup_append.1 hc.nodup).2.2 y hmem y (by simp) rfl

/-- The node behind `as` is the successor of its last node, or the first node. -/
theorem Chain.after [DecidableEq ι] (hc : Chain nil next prev h (as ++ bs))
    (hp : p = as.getLast?.getD nil) : (if p ≠ nil then next p else h) = bs.head?.getD nil := by
  obtain rfl | ⟨cs, a, rfl⟩ := eq_nil_or_concat as
  · have hnil : p = nil := hp
    rw [if_neg (not_not.2 hnil)]
    exact hc.path.head_eq
  · obtain rfl : p = a := by simpa using hp
    have hpath := hc.path
    rw [if_pos (hpath.ne_nil p (by simp))]
    rw [concat_eq_append, append_assoc] at hpath
    exact hpath.right.2.2.head_eq

/-- Link `q` between `as` and `bs`. -/
theorem Chain.insert [DecidableEq ι] (hc : Chain nil next prev h (as ++ bs)) (hq : q ≠ nil)
    (hnew : q ∉ as ++ bs) (hp : p = as.getLast?.getD nil) (hx : x = bs.head?.getD nil)
    (hhead : h' = if p = nil then q else h) (hnextq : next' q = x) (hprevq : prev' q = p)
    (hnext : ∀ y ∈ as ++ bs, next' y = if y = p then q else next y)
    (hprev : ∀ y ∈ as ++ bs, prev' y = if y = x then q else prev y) :
    Chain nil next' prev' h' (as ++ q :: bs) := by
  have hne := hc.path.ne_nil
  have hhead? : bs.head? = some x ∨ bs = [] := by
    cases bs with
    | nil => exact .inr rfl
    | cons y ys => exact .inl (by rw [hx]; rfl)
  refine ⟨?_, ?_, perm_middle.nodup_iff.2 (nodup_cons.2 ⟨hnew, hc.nodup⟩)⟩
  · obtain rfl | ⟨cs, a, rfl⟩ := eq_nil_or_concat as
    · have hnil : p = nil := hp
      rw [hhead, if_pos hnil]
      refine hc.path.push_front hq (hnextq.trans (hx.trans hc.path.head_eq.symm)) fun y hy => ?_
      rw [hnext y hy, if_neg]
      exact fun heq => hne y hy (heq.trans hnil)
    · rw [concat_eq_append] at *
      have hpa : p = a := by
        rw [hp]
        simp
      have hane : a ≠ nil := hne a (by simp)
      have hpath := hc.path
      have hnodup := hc.nodup
      rw [hhead, hpa, if_neg hane]
      rw [append_assoc] at hpath hnodup ⊢
      have hafter : next a = x := by
        rw [hx]
        exact hpath.right.2.2.head_eq
      refine hpath.insert hq (hnextq.trans hafter.symm) ?_ fun y hy => ?_
      · rw [hnext a (by simp), if_pos hpa.symm]
      · have hya : y ≠ a := by
          rintro rfl
          simp [nodup_append] at hnodup hy
          grind
        rw [hnext y (by simp at hy ⊢; tauto), if_neg (hpa ▸ hya)]
  · refine hc.back.insert (hprevq.trans hp) hhead? ?_ (nodup_append.1 hc.nodup).2.1 hprev
    rw [hx]
    exact hc.head_not_mem

/-- Link `q` in front. -/
theorem Chain.push_front [DecidableEq ι] (hc : Chain nil next prev h xs) (hq : q ≠ nil)
    (hnew : q ∉ xs) (hnextq : next' q = h) (hprevq : prev' q = nil)
    (hnext : ∀ x ∈ xs, next' x = next x) (hprev : ∀ x ∈ xs, prev' x = if x = h then q else prev x) :
    Chain nil next' prev' q (q :: xs) := by
  have hall : Chain nil next prev h ([] ++ xs) := hc
  refine hall.insert hq hnew rfl hc.path.head_eq (if_pos rfl).symm hnextq hprevq ?_ hprev
  exact fun y hy => (hnext y hy).trans (if_neg (hc.path.ne_nil y hy)).symm

theorem getLast?_getD_append_cons : (as ++ q :: bs).getLast?.getD nil = bs.getLast?.getD q := by
  rw [getLast?_append, getLast?_cons]
  cases bs.getLast? <;> rfl

/-- The last node after `q` is linked between `as` and `bs`. -/
theorem Chain.last_insert [DecidableEq ι] (hc : Chain nil next prev h (as ++ bs))
    (hx : x = bs.head?.getD nil) (hp : p = (as ++ bs).getLast?.getD nil) :
    (if x = nil then q else p) = (as ++ q :: bs).getLast?.getD nil := by
  rw [getLast?_getD_append_cons]
  cases bs with
  | nil => exact if_pos hx
  | cons y ys =>
    have hne : x ≠ nil := by
      rw [hx]
      exact hc.path.ne_nil y (by simp)
    rw [if_neg hne, hp, getLast?_getD_append_cons, getLast?_cons]
    cases ys.getLast? <;> rfl

/-- The last node after `x` is unlinked. -/
theorem Chain.last_remove [DecidableEq ι] (hc : Chain nil next prev h (as ++ x :: bs))
    (hp : p = (as ++ x :: bs).getLast?.getD nil) :
    (if next x = nil then prev x else p) = (as ++ bs).getLast?.getD nil := by
  have hafter : next x = bs.head?.getD nil := hc.path.right.2.2.head_eq
  cases bs with
  | nil =>
    have hend : next x = nil := hafter
    rw [if_pos hend, append_nil, hc.back.prev_eq]
  | cons y ys =>
    have hne : next x ≠ nil := by
      rw [hafter]
      exact hc.path.ne_nil y (by simp)
    rw [if_neg hne, hp, getLast?_getD_append_cons, getLast?_getD_append_cons, getLast?_cons]
    cases ys.getLast? <;> rfl

/-- A list with links both ways, and its last node. -/
structure Deque (nil : ι) (next prev : ι → ι) (first last : ι) (xs : List ι) : Prop where
  chain : Chain nil next prev first xs
  last_eq : last = xs.getLast?.getD nil

variable {first last : ι}

theorem deque_nil : Deque nil next prev nil nil [] := ⟨chain_nil, rfl⟩

theorem Deque.last_mem (hd : Deque nil next prev first last xs) (hne : last ≠ nil) : last ∈ xs := by
  obtain rfl := hd.last_eq
  exact (getLast?_getD_mem xs nil).resolve_left hne

theorem Deque.first_mem (hd : Deque nil next prev first last xs) (hne : first ≠ nil) :
    first ∈ xs := by
  obtain rfl := hd.chain.path.head_eq
  exact (head?_getD_mem xs nil).resolve_left hne

/-- A node without predecessor is the first one. -/
theorem Deque.first_eq_of_prev (hd : Deque nil next prev first last (as ++ x :: bs))
    (hx : prev x = nil) : first = x := by
  have hlast : as.getLast?.getD nil = nil := hd.chain.back.prev_eq.symm.trans hx
  obtain rfl | ⟨cs, y, rfl⟩ := eq_nil_or_concat as
  · exact hd.chain.path.1
  · have hy : y = nil := by simpa using hlast
    exact absurd hy (hd.chain.path.ne_nil y (by simp))

/-- A node without successor is the last one. -/
theorem Deque.last_eq_of_next (hd : Deque nil next prev first last (as ++ x :: bs))
    (hx : next x = nil) : last = x := by
  obtain rfl := hd.chain.path.right.2.2.eq_nil_iff.1 hx
  simpa using hd.last_eq

end Linked
