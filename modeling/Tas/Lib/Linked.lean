import Mathlib

/-! Singly linked lists threaded through an array of next indices, with an end mark, and queues
that also keep the index of their last node. -/
namespace Linked

open List

variable {ι : Type*} {nil h p q tail : ι} {next next' : ι → ι} {xs ys as bs : List ι}

/-- From `h` on, `next` runs through the nodes `xs` and ends in the mark `nil`. -/
def Path (nil : ι) (next : ι → ι) : ι → List ι → Prop
  | h, [] => h = nil
  | h, x :: xs => h = x ∧ x ≠ nil ∧ Path nil next (next x) xs

section

variable (hp : Path nil next h xs)
include hp

theorem Path.ne_nil : ∀ x ∈ xs, x ≠ nil := by
  induction xs generalizing h with
  | nil => simp
  | cons y ys ih =>
    obtain ⟨_, hy, hrest⟩ := hp
    intro x hx
    obtain rfl | hx := mem_cons.1 hx
    · exact hy
    · exact ih hrest x hx

/-- The path depends on its own nodes only. -/
theorem Path.congr (heq : ∀ x ∈ xs, next' x = next x) : Path nil next' h xs := by
  induction xs generalizing h with
  | nil => exact hp
  | cons y ys ih =>
    obtain ⟨rfl, hy, hrest⟩ := hp
    refine ⟨rfl, hy, ?_⟩
    rw [heq h (by simp)]
    exact ih hrest fun x hx => heq x (by simp [hx])

/-- A path is determined by its first node. -/
theorem Path.unique (hp' : Path nil next h ys) : xs = ys := by
  induction xs generalizing h ys with
  | nil =>
    cases ys with
    | nil => rfl
    | cons y ys => exact (hp'.2.1 (hp'.1.symm.trans hp)).elim
  | cons x xs ih =>
    obtain ⟨rfl, hx, hrest⟩ := hp
    cases ys with
    | nil => exact (hx hp').elim
    | cons y ys =>
      obtain ⟨rfl, _, hrest'⟩ := hp'
      rw [ih hrest hrest']

theorem Path.eq_nil_iff : h = nil ↔ xs = [] := by
  cases xs with
  | nil => exact ⟨fun _ => rfl, fun _ => hp⟩
  | cons x xs =>
    obtain ⟨rfl, hx, _⟩ := hp
    simp [hx]

/-- A path that has not ended starts with the node at hand. -/
theorem Path.exists_cons (hne : h ≠ nil) : ∃ ys, xs = h :: ys ∧ Path nil next (next h) ys := by
  cases xs with
  | nil => exact (hne hp).elim
  | cons x xs =>
    obtain ⟨rfl, _, hrest⟩ := hp
    exact ⟨xs, rfl, hrest⟩

omit hp in
theorem Path.right (hp : Path nil next h (as ++ p :: bs)) : Path nil next p (p :: bs) := by
  induction as generalizing h with
  | nil =>
    obtain ⟨rfl, hx, hrest⟩ := hp
    exact ⟨rfl, hx, hrest⟩
  | cons a as ih => exact ih hp.2.2

/-- Link `q` in front. -/
theorem Path.push_front (hq : q ≠ nil) (hnext : next' q = h)
    (hother : ∀ x ∈ xs, next' x = next x) : Path nil next' q (q :: xs) := by
  refine ⟨rfl, hq, ?_⟩
  rw [hnext]
  exact hp.congr hother

end

/-- The nodes behind `p` exchanged for others. -/
theorem Path.replace (hp : Path nil next h (as ++ p :: bs)) (hrest : Path nil next' (next' p) ys)
    (hother : ∀ x ∈ as, next' x = next x) : Path nil next' h (as ++ p :: ys) := by
  induction as generalizing h with
  | nil => exact ⟨hp.1, hp.2.1, hrest⟩
  | cons a as ih =>
    obtain ⟨rfl, hx, htail⟩ := hp
    refine ⟨rfl, hx, ?_⟩
    rw [hother h (by simp)]
    exact ih htail fun x hmem => hother x (mem_cons_of_mem _ hmem)

/-- Link `q` behind `p`. -/
theorem Path.insert (hp : Path nil next h (as ++ p :: bs)) (hq : q ≠ nil)
    (hnext : next' q = next p) (hpq : next' p = q) (hother : ∀ x ∈ as ++ bs, next' x = next x) :
    Path nil next' h (as ++ p :: q :: bs) := by
  refine hp.replace ?_ fun x hx => hother x (mem_append_left _ hx)
  rw [hpq]
  exact hp.right.2.2.push_front hq hnext fun x hx => hother x (mem_append_right _ hx)

/-- Unlink the node behind `p`. -/
theorem Path.remove (hp : Path nil next h (as ++ p :: q :: bs)) (hnext : next' p = next q)
    (hother : ∀ x ∈ as ++ bs, next' x = next x) : Path nil next' h (as ++ p :: bs) := by
  refine hp.replace ?_ fun x hx => hother x (mem_append_left _ hx)
  rw [hnext]
  exact hp.right.2.2.2.2.congr fun x hx => hother x (mem_append_right _ hx)

theorem Path.head_eq (hp : Path nil next h xs) : h = xs.head?.getD nil := by
  cases xs with
  | nil => exact hp
  | cons x xs => exact hp.1

/-- The first node of a list is in it, or there is none. -/
theorem head?_getD_mem (xs : List ι) (nil : ι) :
    xs.head?.getD nil = nil ∨ xs.head?.getD nil ∈ xs := by
  cases xs with
  | nil => exact .inl rfl
  | cons x xs => exact .inr mem_cons_self

/-- The last node of a list is in it, or there is none. -/
theorem getLast?_getD_mem (xs : List ι) (nil : ι) :
    xs.getLast?.getD nil = nil ∨ xs.getLast?.getD nil ∈ xs := by
  cases hlast : xs.getLast? with
  | none => exact .inl rfl
  | some x => exact .inr (mem_of_getLast? hlast)

/-- A first-in first-out queue: a path without repetition, and its last node. -/
structure Fifo (nil : ι) (next : ι → ι) (head tail : ι) (xs : List ι) : Prop where
  path : Path nil next head xs
  tail_eq : tail = xs.getLast?.getD nil
  nodup : xs.Nodup

theorem fifo_empty : Fifo nil next nil nil [] := ⟨rfl, rfl, nodup_nil⟩

theorem Fifo.tail_eq_nil_iff (hf : Fifo nil next h tail xs) : tail = nil ↔ xs = [] := by
  rw [hf.tail_eq]
  cases hlast : xs.getLast? with
  | none => simpa using getLast?_eq_none_iff.1 hlast
  | some x =>
    have hmem := mem_of_getLast? hlast
    have hne := hf.path.ne_nil x hmem
    simp [hne, ne_nil_of_mem hmem]

theorem Fifo.tail_mem (hf : Fifo nil next h tail xs) (hne : tail ≠ nil) : tail ∈ xs := by
  obtain rfl := hf.tail_eq
  exact (getLast?_getD_mem xs nil).resolve_left hne

theorem Fifo.congr (hf : Fifo nil next h tail xs) (heq : ∀ x ∈ xs, next' x = next x) :
    Fifo nil next' h tail xs :=
  ⟨hf.path.congr heq, hf.tail_eq, hf.nodup⟩

/-- Take off the first node. -/
theorem Fifo.pop [DecidableEq ι] (hf : Fifo nil next h tail (h :: xs)) :
    Fifo nil next (next h) (if next h = nil then nil else tail) xs := by
  have hrest : Path nil next (next h) xs := hf.path.2.2
  refine ⟨hrest, ?_, (nodup_cons.1 hf.nodup).2⟩
  cases xs with
  | nil => rw [if_pos (hrest.eq_nil_iff.2 rfl)]; rfl
  | cons x xs =>
    rw [if_neg (by simpa using hrest.eq_nil_iff.not), hf.tail_eq, getLast?_cons_cons]

/-- Add a node to an empty queue. -/
theorem Fifo.push_empty (hq : q ≠ nil) (hnext : next q = nil) : Fifo nil next q q [q] :=
  ⟨⟨rfl, hq, hnext⟩, rfl, nodup_singleton q⟩

/-- Add a node behind the last one. -/
theorem Fifo.push (hf : Fifo nil next h tail xs) (hne : tail ≠ nil) (hq : q ≠ nil) (hnew : q ∉ xs)
    (hnext : next' q = nil) (htail : next' tail = q)
    (hother : ∀ x ∈ xs, x ≠ tail → next' x = next x) : Fifo nil next' h q (xs ++ [q]) := by
  have hxs : xs ≠ [] := fun he => hne (hf.tail_eq_nil_iff.2 he)
  obtain ⟨as, p, rfl⟩ := (eq_nil_or_concat' xs).resolve_left hxs
  have htp : tail = p := by simpa using hf.tail_eq
  subst htp
  have hnodup := hf.nodup
  have hlast : next tail = nil := hf.path.right.2.2
  refine ⟨?_, by simp, ?_⟩
  · have hpath := Path.insert hf.path hq (hnext.trans hlast.symm) htail fun x hx => ?_
    · simpa using hpath
    · have hx : x ∈ as := by simpa using hx
      refine hother x (by simp [hx]) ?_
      rintro rfl
      have := nodup_append.1 hnodup
      exact this.2.2 x hx x (by simp) rfl
  · rw [nodup_append]
    refine ⟨hnodup, nodup_singleton q, ?_⟩
    rintro a ha b hb rfl
    exact hnew (by simpa [mem_singleton.1 hb] using ha)

/-! ### Lists with a cursor -/

/-- The node after a member is a member too, or there is none. -/
theorem Path.next_mem (hp : Path nil next h xs) (hq : q ∈ xs) : next q = nil ∨ next q ∈ xs := by
  obtain ⟨as, bs, rfl⟩ := append_of_mem hq
  rw [hp.right.2.2.head_eq]
  refine (head?_getD_mem bs nil).imp_right fun hmem => ?_
  exact mem_append_right _ (mem_cons_of_mem _ hmem)

/-- A path without repetition, and a cursor that is on it or nowhere. -/
structure Cursored (nil : ι) (next : ι → ι) (head cursor : ι) (xs : List ι) : Prop where
  path : Path nil next head xs
  nodup : xs.Nodup
  cursor : cursor = nil ∨ cursor ∈ xs

variable {cur : ι}

theorem cursored_empty : Cursored nil next nil nil [] := ⟨rfl, nodup_nil, .inl rfl⟩

theorem Cursored.congr (hc : Cursored nil next h cur xs) (heq : ∀ x ∈ xs, next' x = next x) :
    Cursored nil next' h cur xs :=
  ⟨hc.path.congr heq, hc.nodup, hc.cursor⟩

theorem Cursored.push (hc : Cursored nil next h cur xs) (hq : q ≠ nil) (hnew : q ∉ xs)
    (hnext : next' q = h) (hother : ∀ x ∈ xs, next' x = next x) :
    Cursored nil next' q cur (q :: xs) :=
  ⟨hc.path.push_front hq hnext hother, nodup_cons.2 ⟨hnew, hc.nodup⟩,
    hc.cursor.imp_right (mem_cons_of_mem q)⟩

/-- The cursor is taken off a node that is about to be unlinked. -/
theorem Path.skip [DecidableEq ι] (hp : Path nil next h (as ++ q :: bs))
    (hcur : cur = nil ∨ cur ∈ as ++ q :: bs) :
    (if cur = q then next q else cur) = nil ∨ (if cur = q then next q else cur) ∈ as ++ bs := by
  split_ifs with he
  · rw [hp.right.2.2.head_eq]
    exact (head?_getD_mem bs nil).imp_right (mem_append_right _)
  · refine hcur.imp_right fun hmem => ?_
    rcases mem_append.1 hmem with hmem | hmem
    · exact mem_append_left _ hmem
    · exact mem_append_right _ ((mem_cons.1 hmem).resolve_left he)

/-- Unlink the first node. -/
theorem Cursored.pop [DecidableEq ι] (hc : Cursored nil next h cur (h :: xs))
    (hother : ∀ x ∈ xs, next' x = next x) :
    Cursored nil next' (next h) (if cur = h then next h else cur) xs :=
  ⟨hc.path.2.2.congr hother, (nodup_cons.1 hc.nodup).2,
    (show Path nil next h ([] ++ h :: xs) from hc.path).skip hc.cursor⟩

/-- Unlink the node behind `p`. -/
theorem Cursored.unlink [DecidableEq ι] (hc : Cursored nil next h cur (as ++ p :: q :: bs))
    (hnext : next' p = next q) (hother : ∀ x ∈ as ++ bs, next' x = next x) :
    Cursored nil next' h (if cur = q then next q else cur) (as ++ p :: bs) := by
  have hsplit : as ++ p :: q :: bs = (as ++ [p]) ++ q :: bs := by simp
  have hrest : as ++ p :: bs = (as ++ [p]) ++ bs := by simp
  refine ⟨hc.path.remove hnext hother, ?_, ?_⟩
  · have hnodup := hc.nodup
    rw [hsplit] at hnodup
    rw [hrest]
    exact hnodup.sublist ((List.Sublist.refl _).append (sublist_cons_self q bs))
  · have hpath := hc.path
    have hcur := hc.cursor
    rw [hsplit] at hpath hcur
    rw [hrest]
    exact hpath.skip hcur

end Linked
