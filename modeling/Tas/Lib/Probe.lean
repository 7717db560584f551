import Mathlib

/-! Tables whose entries sit in cells near to their key: which id is stored is independent of
where, as long as entries move to free cells. -/
namespace Probe

open Function

variable {σ ι κ : Type*} {near : σ → κ → Prop} {t : σ → Option (ι × κ)} {E : ι → Option κ}
  {s s' : σ} {i : ι} {k : κ} {x : ι × κ}

/-- The table `t` stores the map `E`, each id in one cell, which is near to its key. -/
structure Stores (near : σ → κ → Prop) (t : σ → Option (ι × κ)) (E : ι → Option κ) : Prop where
  near : ∀ s x, t s = some x → near s x.2
  live : ∀ s x, t s = some x → E x.1 = some x.2
  unique : ∀ s s' x y, t s = some x → t s' = some y → x.1 = y.1 → s = s'
  placed : ∀ i k, E i = some k → ∃ s, t s = some (i, k)

namespace Stores

theorem empty : Stores near (fun _ => none) (fun _ : ι => none) where
  near _ _ h := by simp at h
  live _ _ h := by simp at h
  unique _ _ _ _ h := by simp at h
  placed _ _ h := by simp at h

variable [DecidableEq σ]

/-- An entry may move to a free cell near its key. -/
theorem move (h : Stores near t E) (hs : t s = some x) (hfree : t s' = none) (hnear : near s' x.2) :
    Stores near (update (update t s' (some x)) s none) E := by
  have hne : s' ≠ s := by
    rintro rfl
    simp [hs] at hfree
  -- an entry of the new table is an old one away from `s`, or the moved one
  have hcases : ∀ u y, update (update t s' (some x)) s none u = some y →
      (u = s' ∧ y = x) ∨ (u ≠ s ∧ u ≠ s' ∧ t u = some y) := by
    intro u y hu
    by_cases hus : u = s
    · simp [hus] at hu
    · rw [update_of_ne hus] at hu
      by_cases hus' : u = s'
      · subst hus'
        simp only [update_self, Option.some.injEq] at hu
        exact Or.inl ⟨rfl, hu.symm⟩
      · rw [update_of_ne hus'] at hu
        exact Or.inr ⟨hus, hus', hu⟩
  constructor
  · intro u y hu
    rcases hcases u y hu with ⟨rfl, rfl⟩ | ⟨-, -, hy⟩
    · exact hnear
    · exact h.near u y hy
  · intro u y hu
    rcases hcases u y hu with ⟨rfl, rfl⟩ | ⟨-, -, hy⟩
    · exact h.live s _ hs
    · exact h.live u y hy
  · intro u v y z hu hv hyz
    rcases hcases u y hu with ⟨rfl, rfl⟩ | ⟨hus, -, hy⟩ <;>
      rcases hcases v z hv with ⟨rfl, rfl⟩ | ⟨hvs, -, hz⟩
    · rfl
    · exact absurd (h.unique s v _ z hs hz hyz).symm hvs
    · exact absurd (h.unique u s y _ hy hs hyz) hus
    · exact h.unique u v y z hy hz hyz
  · intro i k hi
    obtain ⟨u, hu⟩ := h.placed i k hi
    by_cases hus : u = s
    · subst hus
      refine ⟨s', ?_⟩
      rw [update_of_ne hne, update_self, ← hs, hu]
    · refine ⟨u, ?_⟩
      have hus' : u ≠ s' := by
        rintro rfl
        simp [hu] at hfree
      rw [update_of_ne hus, update_of_ne hus', hu]

variable [DecidableEq ι]

theorem insert (h : Stores near t E) (hfree : t s = none) (hnew : E i = none) (hnear : near s k) :
    Stores near (update t s (some (i, k))) (update E i (some k)) := by
  have hcases : ∀ u y, update t s (some (i, k)) u = some y →
      (u = s ∧ y = (i, k)) ∨ (u ≠ s ∧ t u = some y ∧ y.1 ≠ i) := by
    intro u y hu
    by_cases hus : u = s
    · subst hus
      simp only [update_self, Option.some.injEq] at hu
      exact Or.inl ⟨rfl, hu.symm⟩
    · rw [update_of_ne hus] at hu
      refine Or.inr ⟨hus, hu, fun hy => ?_⟩
      have hlive := h.live u y hu
      rw [hy, hnew] at hlive
      simp at hlive
  constructor
  · intro u y hu
    rcases hcases u y hu with ⟨rfl, rfl⟩ | ⟨-, hy, -⟩
    · exact hnear
    · exact h.near u y hy
  · intro u y hu
    rcases hcases u y hu with ⟨rfl, rfl⟩ | ⟨-, hy, hne⟩
    · exact update_self ..
    · rw [update_of_ne hne]
      exact h.live u y hy
  · intro u v y z hu hv hyz
    rcases hcases u y hu with ⟨rfl, rfl⟩ | ⟨hus, hy, hyne⟩ <;>
      rcases hcases v z hv with ⟨rfl, rfl⟩ | ⟨hvs, hz, hzne⟩
    · rfl
    · exact absurd hyz.symm hzne
    · exact absurd hyz hyne
    · exact h.unique u v y z hy hz hyz
  · intro j l hj
    by_cases hji : j = i
    · subst hji
      rw [update_self, Option.some.injEq] at hj
      exact ⟨s, by rw [update_self, hj]⟩
    · rw [update_of_ne hji] at hj
      obtain ⟨u, hu⟩ := h.placed j l hj
      have hus : u ≠ s := by
        rintro rfl
        simp [hu] at hfree
      exact ⟨u, by rw [update_of_ne hus, hu]⟩

theorem remove (h : Stores near t E) (hs : t s = some (i, k)) :
    Stores near (update t s none) (update E i none) := by
  have hcases : ∀ u y, update t s none u = some y →
      t u = some y ∧ y.1 ≠ i := by
    intro u y hu
    by_cases hus : u = s
    · simp [hus] at hu
    · rw [update_of_ne hus] at hu
      exact ⟨hu, fun hy => hus (h.unique u s y _ hu hs hy)⟩
  constructor
  · intro u y hu
    exact h.near u y (hcases u y hu).1
  · intro u y hu
    obtain ⟨hy, hne⟩ := hcases u y hu
    rw [update_of_ne hne]
    exact h.live u y hy
  · intro u v y z hu hv hyz
    exact h.unique u v y z (hcases u y hu).1 (hcases v z hv).1 hyz
  · intro j l hj
    by_cases hji : j = i
    · simp [hji] at hj
    · rw [update_of_ne hji] at hj
      obtain ⟨u, hu⟩ := h.placed j l hj
      have hus : u ≠ s := by
        rintro rfl
        rw [hs] at hu
        simp only [Option.some.injEq, Prod.mk.injEq] at hu
        exact hji hu.1.symm
      exact ⟨u, by rw [update_of_ne hus, hu]⟩

end Stores

/-- Moving an entry to a free cell exchanges the contents of the two cells. -/
theorem update_eq_swap [DecidableEq σ] {α : Type*} {u : σ → Option α} {c d : σ}
    (hfree : u d = none) (s : σ) :
    update (update u d (u c)) c none s = u (Equiv.swap c d s) := by
  by_cases hc : s = c
  · rw [hc, update_self, Equiv.swap_apply_left, hfree]
  · rw [update_of_ne hc]
    by_cases hd : s = d
    · rw [hd, update_self, Equiv.swap_apply_right]
    · rw [update_of_ne hd, Equiv.swap_apply_of_ne_of_ne hc hd]

end Probe
