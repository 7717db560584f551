import Tas.Lib.Circ

/-! A ring of slots between a producer and a consumer, where a slot is free or holds an item and
nothing but the slots themselves is shared. -/
namespace SlotRing

open Circ List

variable {α : Type*} {n i j : ℕ} {slot slot' : ℕ → Option α} {all : List α} {done : ℕ} {x : α}

/-- Of the items `all` put into the `n` slots, the first `done` were taken and the rest is there. -/
structure Ring (n : ℕ) (slot : ℕ → Option α) (all : List α) (done : ℕ) : Prop where
  le : done ≤ all.length
  room : all.length ≤ done + n
  read : ∀ j, done ≤ j → j < done + n → slot (j % n) = all[j]?

theorem ring_empty (h : ∀ i < n, slot i = none) : Ring n slot [] 0 := by
  refine ⟨le_rfl, Nat.zero_le _, fun j _ hj => ?_⟩
  rw [Nat.zero_add] at hj
  rw [Nat.mod_eq_of_lt hj, h j hj]
  rfl

/-- The next slot of the producer is free if and only if there is room. -/
theorem Ring.free_iff (h : Ring n slot all done) (hn : 0 < n) :
    slot (all.length % n) = none ↔ all.length < done + n := by
  obtain hlt | heq := Nat.lt_or_eq_of_le h.room
  · rw [h.read _ h.le hlt]
    simp [hlt]
  · have hread := h.read done le_rfl (by omega)
    rw [heq, Nat.add_mod_right, hread, List.getElem?_eq_none_iff]
    omega

/-- The next slot of the consumer holds the oldest item. -/
theorem Ring.next (h : Ring n slot all done) (hn : 0 < n) : slot (done % n) = all[done]? :=
  h.read done le_rfl (by omega)

theorem Ring.put (h : Ring n slot all done) (hroom : all.length < done + n)
    (hself : slot' (all.length % n) = some x)
    (hother : ∀ i < n, i ≠ all.length % n → slot' i = slot i) : Ring n slot' (all ++ [x]) done := by
  refine ⟨?_, ?_, fun j hj hlt => ?_⟩
  · have hle := h.le
    rw [length_append]
    omega
  · rw [length_append, length_singleton]
    omega
  · have hn : 0 < n := by omega
    obtain heq | hne := eq_or_ne j all.length
    · rw [heq, hself, List.getElem?_concat_length]
    · have hmod : j % n ≠ all.length % n := by
        intro hmod
        have hle := h.le
        exact hne (mod_inj_of_lt hmod (by omega) (by omega))
      rw [hother _ (Nat.mod_lt _ hn) hmod, h.read j hj hlt]
      by_cases hold : j < all.length
      · rw [List.getElem?_append_left hold]
      · rw [List.getElem?_eq_none (by omega), List.getElem?_eq_none]
        rw [length_append, length_singleton]
        omega

theorem Ring.take (h : Ring n slot all done) (hsome : done < all.length)
    (hself : slot' (done % n) = none)
    (hother : ∀ i < n, i ≠ done % n → slot' i = slot i) : Ring n slot' all (done + 1) := by
  have hroom := h.room
  refine ⟨hsome, by omega, fun j hj hlt => ?_⟩
  have hn : 0 < n := by omega
  obtain heq | hne := eq_or_ne j (done + n)
  · rw [heq, Nat.add_mod_right, hself, List.getElem?_eq_none (by omega)]
  · have hmod : j % n ≠ done % n := by
      intro hmod
      have heq := mod_inj_of_lt hmod (by omega) (by omega)
      omega
    rw [hother _ (Nat.mod_lt _ hn) hmod]
    exact h.read j (by omega) (by omega)

/-- A cursor that steps through the slots. -/
theorem succ_mod (hn : 0 < n) (j : ℕ) : (j + 1) % n = if j % n + 1 = n then 0 else j % n + 1 := by
  have hlt := Nat.mod_lt j hn
  rw [← Nat.mod_add_mod]
  split_ifs with h
  · rw [h, Nat.mod_self]
  · exact Nat.mod_eq_of_lt (by omega)

end SlotRing
