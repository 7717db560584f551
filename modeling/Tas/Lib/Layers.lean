import Mathlib

/-! Lists in layers, each a sublist of the one below, and the search that descends through them:
in each layer it goes on, from where the layer above left it, to the first element that fails a
test. -/
namespace Layers

open List

variable {α : Type*} {P : α → Bool} {x : α} {l l' as as' bs bs' ts : List α}

/-- The search stops in `l` between `as` and `bs`. -/
structure Cut (P : α → Bool) (l as bs : List α) : Prop where
  eq : l = as ++ bs
  last : ∀ a, as.getLast? = some a → P a
  stop : ∀ b, bs.head? = some b → ¬ P b

theorem cut_nil : Cut P [] [] [] := ⟨rfl, by simp, by simp⟩

/-- A sublist of a list without repetition is split by a common element as the list is. -/
theorem sublist_of_cons (hnodup : (as ++ x :: bs).Nodup)
    (hsub : List.Sublist (as' ++ x :: bs') (as ++ x :: bs)) :
    List.Sublist as' as ∧ List.Sublist bs' bs := by
  obtain ⟨r₁, r₂, hr, has, hright⟩ := append_sublist_iff.1 hsub
  obtain ⟨s₁, s₂, rfl, hx, hbs⟩ := cons_sublist_iff.1 hright
  obtain ⟨u, w, rfl⟩ := append_of_mem hx
  have hr' : as ++ x :: bs = (r₁ ++ u) ++ x :: (w ++ s₂) := by simpa using hr
  have hnot : x ∉ as := fun hmem =>
    (nodup_append.1 hnodup).2.2 x hmem x (by simp) rfl
  have hnot' : x ∉ bs := (nodup_cons.1 (nodup_append.1 hnodup).2.1).1
  obtain ⟨rfl, -, rfl⟩ := (append_cons_inj_of_notMem hnot hnot').1 hr'
  exact ⟨has.trans (sublist_append_left _ _), hbs.trans (sublist_append_right _ _)⟩

/-- A sublist whose first element fails the test lies behind the elements that pass it. -/
theorem sublist_of_append (hsub : List.Sublist bs' (ts ++ bs)) (hts : ∀ a ∈ ts, P a)
    (hstop : ∀ b, bs'.head? = some b → ¬ P b) : List.Sublist bs' bs := by
  obtain ⟨l₁, l₂, rfl, h₁, h₂⟩ := sublist_append_iff.1 hsub
  cases l₁ with
  | nil => exact h₂
  | cons b l₁ => exact (hstop b rfl (hts b (h₁.subset (by simp)))).elim

theorem cut_of_start {cs ss : List α} (hstart : ss.takeWhile P = [] → cs = []) :
    Cut P (cs ++ ss) (cs ++ ss.takeWhile P) (ss.dropWhile P) := by
  refine ⟨by simp, fun a ha => ?_, fun b hb => ?_⟩
  · have hne : ss.takeWhile P ≠ [] := by
      intro he
      simp [he, hstart he] at ha
    rw [getLast?_append_of_ne_nil _ hne] at ha
    exact mem_takeWhile_imp (mem_of_getLast? ha)
  · have hnot := head?_dropWhile_not P ss
    rw [hb] at hnot
    simpa using hnot

/-- One layer down: the search starts at the last element passed above, or at the first one if
none was passed, and what it stops before and behind extends the cut above. -/
theorem Cut.descend (hc : Cut P l' as' bs') (hsub : List.Sublist l' l) (hnodup : l.Nodup) :
    ∃ cs ss, l = cs ++ ss ∧ (as' = [] → cs = []) ∧
      (∀ a, as'.getLast? = some a → ss.head? = some a ∧ ss.takeWhile P ≠ []) ∧
      Cut P l (cs ++ ss.takeWhile P) (ss.dropWhile P) ∧
      List.Sublist as' (cs ++ ss.takeWhile P) ∧ List.Sublist bs' (ss.dropWhile P) := by
  obtain rfl | ⟨as₀, a, rfl⟩ := eq_nil_or_concat' as'
  · refine ⟨[], l, rfl, fun _ => rfl, by simp, cut_of_start fun _ => rfl, nil_sublist _, ?_⟩
    have hsplit : List.Sublist bs' (l.takeWhile P ++ l.dropWhile P) := by
      simpa [hc.eq] using hsub
    exact sublist_of_append hsplit (fun a ha => mem_takeWhile_imp ha) hc.stop
  · have hPa : P a := hc.last a (by simp)
    have hl' : l' = as₀ ++ a :: bs' := by simpa using hc.eq
    subst hl'
    obtain ⟨cs, ws, rfl⟩ := append_of_mem (hsub.subset (by simp : a ∈ as₀ ++ a :: bs'))
    obtain ⟨has, hbs⟩ := sublist_of_cons hnodup hsub
    have htake : (a :: ws).takeWhile P = a :: ws.takeWhile P := takeWhile_cons_of_pos hPa
    refine ⟨cs, a :: ws, rfl, by simp, ?_, cut_of_start (by simp [htake]), ?_, ?_⟩
    · intro b hb
      have hb : a = b := by simpa using hb
      subst hb
      exact ⟨rfl, by simp [htake]⟩
    · rw [htake]
      exact has.append (by simp)
    · rw [dropWhile_cons_of_pos hPa]
      have hsplit : List.Sublist bs' (ws.takeWhile P ++ ws.dropWhile P) := by simpa using hbs
      exact sublist_of_append hsplit (fun a ha => mem_takeWhile_imp ha) hc.stop

/-- In a sorted list the search for the last element not above a bound separates the list by
that bound. -/
theorem Cut.of_sorted {β : Type*} [LinearOrder β] {key : α → β} {t : β} (hc : Cut P l as bs)
    (hsorted : l.Pairwise fun a b => key a ≤ key b) (hP : ∀ a ∈ l, P a ↔ key a ≤ t) :
    (∀ a ∈ as, key a ≤ t) ∧ ∀ b ∈ bs, t < key b := by
  obtain ⟨rfl, hlast, hstop⟩ := hc
  obtain ⟨hasorted, hbsorted, _⟩ := pairwise_append.1 hsorted
  constructor
  · obtain rfl | ⟨as, p, rfl⟩ := eq_nil_or_concat' as
    · simp
    · have hp : key p ≤ t := (hP p (by simp)).1 (hlast p (by simp))
      intro a ha
      obtain ha | ha := mem_append.1 ha
      · exact ((pairwise_append.1 hasorted).2.2 a ha p (by simp)).trans hp
      · rw [mem_singleton.1 ha]
        exact hp
  · cases bs with
    | nil => simp
    | cons c bs =>
      have hcgt : t < key c := not_le.1 fun hle => hstop c rfl ((hP c (by simp)).2 hle)
      intro b hb
      obtain rfl | hb := mem_cons.1 hb
      · exact hcgt
      · exact hcgt.trans_le ((pairwise_cons.1 hbsorted).1 b hb)

/-- The first element of the lowest layer is the first one of each layer it is in. -/
theorem head_of_mem (hnodup : (x :: l).Nodup) (hsub : List.Sublist l' (x :: l)) (hx : x ∈ l') :
    l'.head? = some x := by
  cases hsub with
  | cons _ h => exact ((nodup_cons.1 hnodup).1 (h.subset hx)).elim
  | cons_cons _ _ => rfl

end Layers
