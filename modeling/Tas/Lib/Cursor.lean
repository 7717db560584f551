import Mathlib

/-! A cursor that moves over an area of `n` positions: at each position of the area a step stops
with a result or moves on by some width. -/
namespace Cursor

variable {ρ σ : Type*}

inductive Next (ρ σ : Type*)
  | stop (r : ρ)
  | move (w : ℕ) (s : σ)

variable (step : ℕ → σ → Next ρ σ) (fin : σ → ρ) (n : ℕ)

/-- The result after at most `fuel` steps; outside of the area it is `fin` of the state. -/
def walk : ℕ → ℕ → σ → Option ρ
  | 0, off, s => if off < n then none else some (fin s)
  | fuel + 1, off, s =>
    if off < n then
      match step off s with
      | .stop r => some r
      | .move w s' => walk fuel (off + w) s'
    else some (fin s)

/-- The walk ends with a result. -/
inductive Ends : ℕ → σ → ρ → Prop
  | out {off s} : ¬ off < n → Ends off s (fin s)
  | stop {off s r} : off < n → step off s = .stop r → Ends off s r
  | move {off s w s' r} : off < n → step off s = .move w s' → Ends (off + w) s' r → Ends off s r

/-- The walk from the first position and state comes by the second ones. -/
inductive Reaches (off₀ : ℕ) (s₀ : σ) : ℕ → σ → Prop
  | start : Reaches off₀ s₀ off₀ s₀
  | move {off s w s'} : Reaches off₀ s₀ off s → off < n → step off s = .move w s' →
      Reaches off₀ s₀ (off + w) s'

variable {step fin n} {fuel off off₀ w : ℕ} {s s₀ s' : σ} {r : ρ}

theorem ends_of_walk (h : walk step fin n fuel off s = some r) : Ends step fin n off s r := by
  induction fuel generalizing off s with
  | zero =>
    unfold walk at h
    split_ifs at h with hlt
    cases h
    exact .out hlt
  | succ fuel ih =>
    unfold walk at h
    split_ifs at h with hlt
    · cases hstep : step off s with
      | stop r' =>
        rw [hstep] at h
        cases h
        exact .stop hlt hstep
      | move w s' =>
        rw [hstep] at h
        exact .move hlt hstep (ih h)
    · cases h
      exact .out hlt

theorem walk_of_ends (h : Ends step fin n off s r) :
    ∃ fuel, walk step fin n fuel off s = some r := by
  induction h with
  | out hlt => exact ⟨0, if_neg hlt⟩
  | stop hlt hstep =>
    refine ⟨1, ?_⟩
    unfold walk
    rw [if_pos hlt, hstep]
  | move hlt hstep _ ih =>
    obtain ⟨fuel, hwalk⟩ := ih
    refine ⟨fuel + 1, ?_⟩
    unfold walk
    rw [if_pos hlt, hstep]
    exact hwalk

theorem ends_iff_walk : Ends step fin n off s r ↔ ∃ fuel, walk step fin n fuel off s = some r :=
  ⟨walk_of_ends, fun ⟨_, h⟩ => ends_of_walk h⟩

/-- Where the walk comes by, it ends as from the start. -/
theorem Reaches.ends (h : Reaches step n off₀ s₀ off s) (hends : Ends step fin n off₀ s₀ r) :
    Ends step fin n off s r := by
  induction h with
  | start => exact hends
  | move _ hlt hstep ih =>
    cases ih with
    | out hnot => exact absurd hlt hnot
    | stop _ hstop => cases hstep.symm.trans hstop
    | move _ hmove hrest =>
      cases hstep.symm.trans hmove
      exact hrest

/-- A walk that moves forward at every position ends, with a step for each position left. -/
theorem walk_ends
    (hfwd : ∀ off s w s', Reaches step n off₀ s₀ off s → off < n → step off s = .move w s' → 0 < w)
    (hr : Reaches step n off₀ s₀ off s) (hfuel : n ≤ off + fuel) :
    ∃ r, walk step fin n fuel off s = some r := by
  induction fuel generalizing off s with
  | zero => exact ⟨_, if_neg (by omega)⟩
  | succ fuel ih =>
    by_cases hlt : off < n
    · unfold walk
      rw [if_pos hlt]
      cases hstep : step off s with
      | stop r => exact ⟨r, rfl⟩
      | move w s' =>
        have hw := hfwd off s w s' hr hlt hstep
        exact ih (hr.move hlt hstep) (by omega)
    · exact ⟨_, if_neg hlt⟩

/-- A step that moves by nothing and leaves the state as it is repeats for ever. -/
theorem walk_stuck (hlt : off < n) (hstep : step off s = .move 0 s) :
    walk step fin n fuel off s = none := by
  induction fuel with
  | zero => exact if_pos hlt
  | succ fuel ih =>
    unfold walk
    rw [if_pos hlt, hstep]
    exact ih

theorem Reaches.walk_stuck (h : Reaches step n off₀ s₀ off s) (hlt : off < n)
    (hstep : step off s = .move 0 s) : walk step fin n fuel off₀ s₀ = none := by
  cases hwalk : walk step fin n fuel off₀ s₀ with
  | none => rfl
  | some r =>
    obtain ⟨fuel', hsome⟩ := walk_of_ends (h.ends (ends_of_walk hwalk))
    exact nomatch (Cursor.walk_stuck hlt hstep).symm.trans hsome

end Cursor
