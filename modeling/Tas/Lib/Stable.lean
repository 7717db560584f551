import Tas.Lib.Layers

/-! Priority queues that are first-in first-out among equal keys: the queue is a sorted
arrangement of the elements, which are given in the order in which they came. -/
namespace Stable

open List

variable {α : Type*} {β : Type*} [LinearOrder β] {key key' : α → β} {x y : α} {ps l as bs : List α}

/-- `x` goes before `y`: its key is less, or it came first. -/
def Before (key : α → β) (ps : List α) (x y : α) : Prop :=
  key x < key y ∨ key x = key y ∧ List.Sublist [x, y] ps

/-- `l` holds the elements `ps` in the order in which they are to leave. -/
structure Queue (key : α → β) (ps l : List α) : Prop where
  perm : l.Perm ps
  ordered : l.Pairwise (Before key ps)

theorem Before.le (h : Before key ps x y) : key x ≤ key y := by
  obtain hlt | ⟨heq, -⟩ := h
  · exact hlt.le
  · exact heq.le

theorem Before.mono {qs : List α} (h : Before key ps x y)
    (hsub : List.Sublist [x, y] ps → List.Sublist [x, y] qs) : Before key qs x y := by
  obtain hlt | ⟨heq, hxy⟩ := h
  · exact Or.inl hlt
  · exact Or.inr ⟨heq, hsub hxy⟩

theorem queue_nil : Queue key [] [] := ⟨List.Perm.refl _, List.Pairwise.nil⟩

theorem Queue.sorted (h : Queue key ps l) : l.Pairwise fun a b => key a ≤ key b :=
  h.ordered.imp Before.le

/-- Only the order of the keys matters. -/
theorem Queue.congr (h : Queue key ps l) (hlt : ∀ a ∈ l, ∀ b ∈ l, key a < key b → key' a < key' b)
    (heq : ∀ a ∈ l, ∀ b ∈ l, key a = key b → key' a = key' b) : Queue key' ps l := by
  refine ⟨h.perm, h.ordered.imp_of_mem fun ha hb hab => ?_⟩
  obtain hab | ⟨hab, hsub⟩ := hab
  · exact Or.inl (hlt _ ha _ hb hab)
  · exact Or.inr ⟨heq _ ha _ hb hab, hsub⟩

/-- A new element goes behind those whose key is not greater. -/
theorem Queue.insert (h : Queue key ps (as ++ bs)) (has : ∀ a ∈ as, key a ≤ key x)
    (hbs : ∀ b ∈ bs, key x < key b) : Queue key (ps ++ [x]) (as ++ x :: bs) := by
  have hgrow : ∀ {a b}, Before key ps a b → Before key (ps ++ [x]) a b := fun hab =>
    hab.mono fun hsub => hsub.trans (sublist_append_left _ _)
  obtain ⟨has', hbs', hcross⟩ := pairwise_append.1 h.ordered
  constructor
  · calc (as ++ x :: bs).Perm (x :: (as ++ bs)) := perm_middle
      _ |>.Perm (x :: ps) := h.perm.cons x
      _ |>.Perm (ps ++ [x]) := (perm_append_singleton x ps).symm
  · refine pairwise_append.2 ⟨has'.imp hgrow,
      pairwise_cons.2 ⟨fun b hb => Or.inl (hbs b hb), hbs'.imp hgrow⟩, fun a ha b hb => ?_⟩
    obtain rfl | hb := mem_cons.1 hb
    · obtain hlt | heq := (has a ha).lt_or_eq
      · exact Or.inl hlt
      · have hmem : a ∈ ps := h.perm.subset (mem_append_left _ ha)
        exact Or.inr ⟨heq, (singleton_sublist.2 hmem).append (List.Sublist.refl [b])⟩
    · exact hgrow (hcross a ha b hb)

/-- The first element leaves. -/
theorem Queue.pop [DecidableEq α] (h : Queue key ps (x :: l)) (hnodup : (x :: l).Nodup) :
    Queue key (ps.filter (· ≠ x)) l := by
  obtain ⟨hx, hl⟩ := nodup_cons.1 hnodup
  have hkeep : ∀ a ∈ l, a ≠ x := fun a ha he => hx (he ▸ ha)
  constructor
  · have hfilter : (x :: l).filter (· ≠ x) = l := by
      rw [filter_cons_of_neg (by simp)]
      exact filter_eq_self.2 fun a ha => by simpa using hkeep a ha
    have hperm := h.perm.filter (· ≠ x)
    rwa [hfilter] at hperm
  · refine (pairwise_cons.1 h.ordered).2.imp_of_mem fun ha hb hab => hab.mono fun hsub => ?_
    have hfilter := hsub.filter (· ≠ x)
    have hsame : [_, _].filter (· ≠ x) = [_, _] :=
      filter_eq_self.2 (by simpa using ⟨hkeep _ ha, hkeep _ hb⟩)
    rwa [hsame] at hfilter

/-- What leaves first: no key is less, and those that are equal came later. -/
theorem Queue.first (h : Queue key ps (x :: l)) (hnodup : (x :: l).Nodup) :
    ∃ as bs, ps = as ++ x :: bs ∧ (∀ a ∈ as, key x < key a) ∧ ∀ b ∈ bs, key x ≤ key b := by
  obtain ⟨as, bs, rfl⟩ := append_of_mem (h.perm.subset mem_cons_self)
  have hps : (as ++ x :: bs).Nodup := h.perm.nodup_iff.1 hnodup
  obtain ⟨hx, hmid⟩ := nodup_cons.1 (nodup_middle.1 hps)
  have hbefore : ∀ a, a ∈ as ∨ a ∈ bs → Before key (as ++ x :: bs) x a := by
    intro a ha
    have hmem : a ∈ as ++ x :: bs := by simpa using ha.imp_right Or.inr
    obtain rfl | hal := mem_cons.1 (h.perm.symm.subset hmem)
    · exact (hx (mem_append.2 ha)).elim
    · exact (pairwise_cons.1 h.ordered).1 a hal
  refine ⟨as, bs, rfl, fun a ha => ?_, fun b hb => (hbefore b (Or.inr hb)).le⟩
  obtain hlt | ⟨-, hsub⟩ := hbefore a (Or.inl ha)
  · exact hlt
  -- `a` came before `x`
  · exfalso
    have hsub' : List.Sublist ([] ++ x :: [a]) (as ++ x :: bs) := hsub
    have hab : a ∈ bs := singleton_sublist.1 (Layers.sublist_of_cons hps hsub').2
    exact (nodup_append.1 hmid).2.2 a ha a hab rfl

end Stable
