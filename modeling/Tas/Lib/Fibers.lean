import Mathlib

/-! Tables of `n` entries: how many entries have a value, and searches that go round the table. -/
namespace Fibers

open Function Finset

variable {α : Type*} [DecidableEq α] {f : ℕ → α} {p : ℕ → Bool} {n k fuel : ℕ} {a b c : α}

/-- The number of entries with value `c`. -/
def count (f : ℕ → α) (n : ℕ) (c : α) : ℕ := ((range n).filter fun k => f k = c).card

theorem count_le : count f n c ≤ n :=
  (card_filter_le _ _).trans (card_range n).le

theorem count_pos_iff : 0 < count f n c ↔ ∃ k < n, f k = c := by
  unfold count
  rw [card_pos]
  constructor
  · rintro ⟨k, hk⟩
    obtain ⟨hlt, hc⟩ := mem_filter.1 hk
    exact ⟨k, mem_range.1 hlt, hc⟩
  · rintro ⟨k, hlt, hc⟩
    exact ⟨k, mem_filter.2 ⟨mem_range.2 hlt, hc⟩⟩

/-- An entry that gets the value `b` counts for it. -/
theorem count_update_self (hk : k < n) (hb : f k ≠ b) :
    count (update f k b) n b = count f n b + 1 := by
  have hset : (range n).filter (fun i => update f k b i = b) =
      insert k ((range n).filter fun i => f i = b) := by
    ext i
    by_cases hi : i = k
    · subst hi
      simp [hk]
    · simp [hi]
  unfold count
  rw [hset, card_insert_of_notMem]
  intro hmem
  exact hb (mem_filter.1 hmem).2

/-- It no longer counts for the value it had. -/
theorem count_update_old (hk : k < n) (ha : f k = a) (hb : b ≠ a) :
    count (update f k b) n a + 1 = count f n a := by
  have hback := count_update_self (f := update f k b) (b := a) hk (by simpa using hb)
  rw [update_idem, ← ha, update_eq_self, ha] at hback
  exact hback.symm

theorem count_update_of_ne (ha : f k ≠ c) (hb : b ≠ c) :
    count (update f k b) n c = count f n c := by
  unfold count
  congr 1
  ext i
  by_cases hi : i = k
  · subst hi
    simp [ha, hb]
  · simp [update_of_ne hi]

/-- A table that grows by an entry. -/
theorem count_snoc : count (update f n b) (n + 1) c =
    count f n c + if b = c then 1 else 0 := by
  have hset : (range n).filter (fun i => update f n b i = c) =
      (range n).filter fun i => f i = c := by
    refine filter_congr fun i hi => ?_
    rw [update_of_ne (Nat.ne_of_lt (mem_range.1 hi))]
  unfold count
  rw [range_add_one, filter_insert, update_self, hset]
  split_ifs with hb
  · exact card_insert_of_notMem (by simp)
  · rfl

/-- If not all entries have value `c`, there is one that has another. -/
theorem exists_ne_of_count_lt (h : count f n c < n) : ∃ k < n, f k ≠ c := by
  by_contra hall
  have hset : (range n).filter (fun k => f k = c) = range n := by
    refine filter_true_of_mem fun k hk => ?_
    by_contra hne
    exact hall ⟨k, mem_range.1 hk, hne⟩
  unfold count at h
  rw [hset, card_range] at h
  exact lt_irrefl n h

/-! ### Searches -/

/-- The first entry from `k` on, going round, that meets `p`. The search stops after `fuel`
entries. -/
def search (p : ℕ → Bool) (n : ℕ) : ℕ → ℕ → Option ℕ
  | 0, _ => none
  | fuel + 1, k => if p k then some k else search p n fuel ((k + 1) % n)

theorem search_meets {j : ℕ} (hk : k < n) (h : search p n fuel k = some j) :
    j < n ∧ p j = true := by
  induction fuel generalizing k with
  | zero => cases h
  | succ fuel ih =>
    unfold search at h
    split_ifs at h with hp
    · cases h
      exact ⟨hk, hp⟩
    · exact ih (Nat.mod_lt _ (Nat.zero_lt_of_lt hk)) h

/-- An entry at distance `d` is found within `d + 1` steps. -/
theorem search_finds {d : ℕ} (hk : k < n) (hp : p ((k + d) % n) = true) (hfuel : d < fuel) :
    ∃ j, search p n fuel k = some j := by
  induction fuel generalizing k d with
  | zero => exact absurd hfuel (Nat.not_lt_zero d)
  | succ fuel ih =>
    unfold search
    split_ifs with hpk
    · exact ⟨k, rfl⟩
    · cases d with
      | zero =>
        rw [Nat.add_zero, Nat.mod_eq_of_lt hk] at hp
        exact (hpk hp).elim
      | succ d =>
        refine ih (d := d) (Nat.mod_lt _ (Nat.zero_lt_of_lt hk)) ?_ (Nat.lt_of_succ_lt_succ hfuel)
        rw [Nat.mod_add_mod, Nat.add_right_comm]
        exact hp

/-- Once around is enough. -/
theorem search_round {i : ℕ} (hk : k < n) (hi : i < n) (hp : p i = true) (hfuel : n ≤ fuel) :
    ∃ j, search p n fuel k = some j ∧ j < n ∧ p j = true := by
  have hd : ∃ d < n, (k + d) % n = i := by
    rcases Nat.lt_or_ge i k with hik | hki
    · refine ⟨i + n - k, by omega, ?_⟩
      rw [show k + (i + n - k) = i + n by omega, Nat.add_mod_right, Nat.mod_eq_of_lt hi]
    · refine ⟨i - k, by omega, ?_⟩
      rw [Nat.add_sub_cancel' hki, Nat.mod_eq_of_lt hi]
  obtain ⟨d, hdn, hdi⟩ := hd
  rw [← hdi] at hp
  obtain ⟨j, hj⟩ := search_finds hk hp (Nat.lt_of_lt_of_le hdn hfuel)
  exact ⟨j, hj, search_meets hk hj⟩

end Fibers
