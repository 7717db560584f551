import Mathlib

/-! Several first-in first-out queues in one list: entries are tagged with their queue and kept in
the order in which they were put in. -/
namespace Tagged

variable {κ α : Type*} [DecidableEq κ] {k j : κ} {a : α} {q r : List (κ × α)}

/-- Take the first entry of queue `k`. -/
def take (k : κ) : List (κ × α) → Option (α × List (κ × α))
  | [] => none
  | x :: q => if x.1 = k then some (x.2, q) else (take k q).map fun y => (y.1, x :: y.2)

theorem take_of_ne {x : κ × α} (hx : x.1 ≠ k) (h : take k (x :: q) = some (a, r)) :
    ∃ r', take k q = some (a, r') ∧ r = x :: r' := by
  unfold take at h
  rw [if_neg hx, Option.map_eq_some_iff] at h
  obtain ⟨⟨b, r'⟩, htake, heq⟩ := h
  cases heq
  exact ⟨r', htake, rfl⟩

/-- Nothing else is taken. -/
theorem sum_take (f : α → ℕ) (h : take k q = some (a, r)) :
    ((q.map Prod.snd).map f).sum = ((r.map Prod.snd).map f).sum + f a := by
  induction q generalizing r with
  | nil => simp [take] at h
  | cons x q ih =>
    by_cases hx : x.1 = k
    · unfold take at h
      rw [if_pos hx] at h
      cases Option.some.inj h
      simp [Nat.add_comm]
    · obtain ⟨r', htake, rfl⟩ := take_of_ne hx h
      have hsum := ih htake
      simp only [List.map_cons, List.sum_cons]
      omega

end Tagged
