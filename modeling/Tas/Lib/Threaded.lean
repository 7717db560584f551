import Tas.Lib.Doubly

/-! Several disjoint doubly linked lists, threaded through the same two arrays of links. -/
namespace Linked

open Function List

variable {ι κ : Type*} {nil p q x y v : ι} {f next prev : ι → ι} {head : κ → ι} {lists : κ → List ι}
  {k : κ} {as bs : List ι}

section

variable [DecidableEq ι]

/-- Set the link of `p`, unless `p` is the end mark. -/
def setLink (nil : ι) (f : ι → ι) (p v : ι) : ι → ι :=
  if p = nil then f else update f p v

theorem setLink_eq_update (hp : p ≠ nil) : setLink nil f p v = update f p v := if_neg hp

theorem setLink_of_ne (hy : y ≠ nil) : setLink nil f p v y = if y = p then v else f y := by
  unfold setLink
  by_cases hp : p = nil
  · subst hp
    rw [if_pos rfl, if_neg hy]
  · rw [if_neg hp, update_apply]

end

/-- The lists are linked both ways, and no node is in two of them. -/
structure Threads (nil : ι) (next prev : ι → ι) (head : κ → ι) (lists : κ → List ι) : Prop where
  chain : ∀ k, Chain nil next prev (head k) (lists k)
  apart : ∀ k l x, x ∈ lists k → x ∈ lists l → k = l

section

variable (h : Threads nil next prev head lists)
include h

theorem Threads.ne_nil (hx : x ∈ lists k) : x ≠ nil :=
  (h.chain k).path.ne_nil x hx

theorem Threads.head_mem (k : κ) : head k = nil ∨ head k ∈ lists k := by
  rw [(h.chain k).path.head_eq]
  exact head?_getD_mem ..

/-- The neighbours of a node are in its list, or there are none. -/
theorem Threads.neighbours (hk : lists k = as ++ x :: bs) :
    (prev x = nil ∨ prev x ∈ lists k) ∧ (next x = nil ∨ next x ∈ lists k) := by
  have hc := h.chain k
  rw [hk] at hc ⊢
  constructor
  · rw [hc.back.prev_eq]
    exact (getLast?_getD_mem as nil).imp_right (mem_append_left _)
  · rw [hc.path.right.2.2.head_eq]
    refine (head?_getD_mem bs nil).imp_right fun hmem => ?_
    exact mem_append_right _ (mem_cons_of_mem _ hmem)

/-- A node of one list, or no node, is in no other list. -/
theorem Threads.ne_of_mem {l : κ} (hp : p = nil ∨ p ∈ lists k)
    (hl : l ≠ k) (hy : y ∈ lists l) : y ≠ p := by
  rintro rfl
  exact hp.elim (h.ne_nil hy) fun hmem => hl (h.apart _ _ _ hy hmem)

/-- One list is changed, and the links of the others are kept. -/
theorem Threads.change [DecidableEq κ] {next' prev' : ι → ι} {xs : List ι}
    (hchain : Chain nil next' prev' p xs) (hapart : ∀ l ≠ k, ∀ y ∈ lists l, y ∉ xs)
    (hnext : ∀ l ≠ k, ∀ y ∈ lists l, next' y = next y)
    (hprev : ∀ l ≠ k, ∀ y ∈ lists l, prev' y = prev y) :
    Threads nil next' prev' (update head k p) (update lists k xs) := by
  constructor
  · intro l
    by_cases hl : l = k
    · subst hl
      rwa [update_self, update_self]
    · rw [update_of_ne hl, update_of_ne hl]
      exact (h.chain l).congr (hnext l hl) (hprev l hl)
  · intro l l' y hy hy'
    by_cases hl : l = k <;> by_cases hl' : l' = k
    · rw [hl, hl']
    · rw [hl, update_self] at hy
      rw [update_of_ne hl'] at hy'
      exact absurd hy (hapart l' hl' y hy')
    · rw [update_of_ne hl] at hy
      rw [hl', update_self] at hy'
      exact absurd hy' (hapart l hl y hy)
    · rw [update_of_ne hl] at hy
      rw [update_of_ne hl'] at hy'
      exact h.apart l l' y hy hy'

variable [DecidableEq ι]

/-- The last node after the removal of a node. -/
theorem Threads.last_erase (hx : x ∈ lists k) (hp : p = (lists k).getLast?.getD nil) :
    (if next x = nil then prev x else p) = ((lists k).erase x).getLast?.getD nil := by
  obtain ⟨as, bs, -, hk, herase⟩ := exists_erase_eq hx
  have hc := h.chain k
  rw [hk] at hc hp
  rw [herase]
  exact hc.last_remove hp

variable [DecidableEq κ]

/-- Unlink a node. -/
theorem Threads.remove (hk : lists k = as ++ x :: bs) :
    Threads nil (setLink nil next (prev x) (next x)) (setLink nil prev (next x) (prev x))
      (update head k (if prev x = nil then next x else head k))
      (update lists k (as ++ bs)) := by
  have hsub : ∀ y ∈ as ++ bs, y ∈ lists k := by
    intro y hy
    rw [hk]
    simp only [mem_append, mem_cons] at hy ⊢
    tauto
  obtain ⟨hbefore, hafter⟩ := h.neighbours hk
  have hc := h.chain k
  rw [hk] at hc
  refine h.change (hc.remove rfl (fun y hy => setLink_of_ne (h.ne_nil (hsub y hy)))
    fun y hy => setLink_of_ne (h.ne_nil (hsub y hy))) (fun l hl y hy hmem => ?_)
    (fun l hl y hy => ?_) fun l hl y hy => ?_
  · exact hl (h.apart _ _ _ hy (hsub y hmem))
  · rw [setLink_of_ne (h.ne_nil hy), if_neg (h.ne_of_mem hbefore hl hy)]
  · rw [setLink_of_ne (h.ne_nil hy), if_neg (h.ne_of_mem hafter hl hy)]

/-- Link a node that is in no list between `as` and `bs`. -/
theorem Threads.insert (hk : lists k = as ++ bs) (hq : q ≠ nil) (hnew : ∀ l, q ∉ lists l)
    (hp : p = as.getLast?.getD nil) (hx : x = bs.head?.getD nil) :
    Threads nil (setLink nil (update next q x) p q)
      (setLink nil (update prev q p) x q)
      (update head k (if p = nil then q else head k))
      (update lists k (as ++ q :: bs)) := by
  have hbefore : p = nil ∨ p ∈ lists k := by
    rw [hk, hp]
    exact (getLast?_getD_mem as nil).imp_right (mem_append_left _)
  have hafter : x = nil ∨ x ∈ lists k := by
    rw [hk, hx]
    exact (head?_getD_mem bs nil).imp_right (mem_append_right _)
  have hself {r : ι} (hr : r = nil ∨ r ∈ lists k) : q ≠ r := by
    rintro rfl
    exact hr.elim hq (hnew k)
  have hlink (f : ι → ι) (r v : ι) {l : κ} : ∀ y ∈ lists l, setLink nil (update f q v) r q y =
      if y = r then q else f y := by
    intro y hy
    have hne : y ≠ q := fun heq => hnew l (heq ▸ hy)
    rw [setLink_of_ne (h.ne_nil hy), update_of_ne hne]
  have hc := h.chain k
  have hnext := hlink next p x (l := k)
  have hprev := hlink prev x p (l := k)
  have hout := hnew k
  rw [hk] at hc hnext hprev hout
  refine h.change (hc.insert hq hout hp hx rfl ?_ ?_ hnext hprev) (fun l hl y hy hmem => ?_)
    (fun l hl y hy => ?_) fun l hl y hy => ?_
  · rw [setLink_of_ne hq, if_neg (hself hbefore), update_self]
  · rw [setLink_of_ne hq, if_neg (hself hafter), update_self]
  · obtain rfl | hmem := mem_cons.1 (perm_middle.mem_iff.1 hmem)
    · exact hnew l hy
    · exact hl (h.apart _ _ _ hy (hk ▸ hmem))
  · rw [hlink next p x y hy, if_neg (h.ne_of_mem hbefore hl hy)]
  · rw [hlink prev x p y hy, if_neg (h.ne_of_mem hafter hl hy)]

/-- Unlink a node of a list. -/
theorem Threads.erase (hx : x ∈ lists k) :
    Threads nil (setLink nil next (prev x) (next x)) (setLink nil prev (next x) (prev x))
      (update head k (if prev x = nil then next x else head k))
      (update lists k ((lists k).erase x)) := by
  obtain ⟨as, bs, -, hk, herase⟩ := exists_erase_eq hx
  rw [herase]
  exact h.remove hk

/-- Link a node in front of a list. -/
theorem Threads.push_front (hq : q ≠ nil) (hnew : ∀ l, q ∉ lists l) :
    Threads nil (update next q (head k))
      (setLink nil (update prev q nil) (head k) q)
      (update head k q) (update lists k (q :: lists k)) := by
  have hinsert := h.insert (show lists k = [] ++ lists k from rfl) hq hnew rfl
    (h.chain k).path.head_eq
  rwa [if_pos (show [].getLast?.getD nil = nil from rfl), setLink,
    if_pos (show [].getLast?.getD nil = nil from rfl)] at hinsert

/-- Link a node behind a list, whose last node is known. -/
theorem Threads.push_back (hq : q ≠ nil) (hnew : ∀ l, q ∉ lists l)
    (hp : p = (lists k).getLast?.getD nil) :
    Threads nil (setLink nil (update next q nil) p q) (update prev q p)
      (update head k (if p = nil then q else head k))
      (update lists k (lists k ++ [q])) := by
  have hinsert := h.insert (show lists k = lists k ++ [] from (append_nil _).symm) hq hnew hp
    (x := nil) rfl
  rw [show setLink nil (update prev q p) nil q = update prev q p from
    if_pos rfl] at hinsert
  exact hinsert

end

variable [DecidableEq ι] [DecidableEq κ]

/-- Each of the nodes `live` is in the list of its key, and no other node is in a list. -/
def Filed (live : Finset ι) (key : ι → κ) (lists : κ → List ι) : Prop :=
  ∀ x k, x ∈ lists k ↔ x ∈ live ∧ key x = k

variable {live : Finset ι} {key : ι → κ}

theorem Filed.erase (h : Filed live key lists) (hnodup : (lists (key x)).Nodup) :
    Filed (live.erase x) key (update lists (key x) ((lists (key x)).erase x)) := by
  intro y k
  rw [Finset.mem_erase]
  by_cases hk : k = key x
  · subst hk
    rw [update_self, hnodup.mem_erase_iff, h]
    tauto
  · rw [update_of_ne hk, h]
    constructor
    · rintro ⟨hy, rfl⟩
      exact ⟨⟨fun heq => hk (heq ▸ rfl), hy⟩, rfl⟩
    · tauto

theorem Filed.insert {key' : ι → κ} (h : Filed live key lists) (hx : x ∉ live) (hself : key' x = k)
    (hkey : ∀ y ≠ x, key' y = key y) (hnew : ∀ y, y ∈ as ↔ y ∈ lists k ∨ y = x) :
    Filed (Insert.insert x live) key' (update lists k as) := by
  subst hself
  intro y k
  rw [Finset.mem_insert]
  by_cases hy : y = x
  · subst hy
    by_cases hk : k = key' y
    · subst hk
      rw [update_self, hnew]
      tauto
    · rw [update_of_ne hk, h]
      tauto
  · rw [hkey y hy]
    by_cases hk : k = key' x
    · subst hk
      rw [update_self, hnew, h]
      tauto
    · rw [update_of_ne hk, h]
      tauto

end Linked
