import Mathlib

/-! Circular buffers: a stream lives in a cyclic memory, element `k` in cell `k % len`. -/
namespace Circ

open Function List Nat

variable {α : Type*} {len a b c n m k : ℕ} {buf buf' : ℕ → α} {S src : ℕ → α} {i off : ℕ}
  {xs : List α}

/-- `buf` with the elements of `xs` in the cells from `off` on. -/
def splice (buf : ℕ → α) (off : ℕ) (xs : List α) : ℕ → α :=
  fun k => if off ≤ k then xs.getD (k - off) (buf k) else buf k

theorem splice_hit (h : i < xs.length) : splice buf off xs (off + i) = xs[i] := by
  simp [splice, h]

theorem splice_miss (h : ∀ i < xs.length, k ≠ off + i) : splice buf off xs k = buf k := by
  by_cases hk : off ≤ k
  · have hlen : xs.length ≤ k - off := by
      by_contra hlt
      exact h (k - off) (by omega) (by omega)
    simp [splice, hk, List.getElem?_eq_none hlen]
  · simp [splice, hk]

/-- The `n` elements from stream index `c` on. -/
def window (len : ℕ) (buf : ℕ → α) (c n : ℕ) : List α :=
  (List.range n).map fun i => buf ((c + i) % len)

/-- `buf` holds the part of `S` from `a` to `b`. -/
def Holds (len : ℕ) (buf S : ℕ → α) (a b : ℕ) : Prop :=
  ∀ k, a ≤ k → k < b → buf (k % len) = S k

/-- `buf'` is `buf` after a store of `src 0, …, src (n - 1)` from stream index `c` on. -/
structure Stored (len c n : ℕ) (src buf buf' : ℕ → α) : Prop where
  hit : ∀ i < n, buf' ((c + i) % len) = src i
  miss : ∀ k, (∀ i < n, k ≠ (c + i) % len) → buf' k = buf k

theorem mod_inj_of_lt {j : ℕ} (h : i % len = j % len) (hij : i < j + len)
    (hji : j < i + len) : i = j := by
  obtain ⟨q, hq⟩ := (modEq_iff_dvd.mp h : (len : ℤ) ∣ (j : ℤ) - i)
  have hlt : |(j : ℤ) - i| < len := by rw [abs_lt]; omega
  have hz := Int.eq_zero_of_abs_lt_dvd ⟨q, hq⟩ hlt
  omega

/-- Going back `s` cells from the cell of `a + s`. -/
theorem mod_of_add_mod {s r : ℕ} (hs : s ≤ len) (hr : (a + s) % len = r) :
    a % len = if s ≤ r then r - s else len - (s - r) := by
  rcases Nat.eq_zero_or_pos len with rfl | hlen
  · simp only [mod_zero] at *
    rw [if_pos (by omega)]
    omega
  have hlt : r < len := hr ▸ mod_lt _ hlen
  have hcong : ∀ t, (t + s) % len = r → t < len → a % len = t := by
    intro t ht htlen
    have hmod : a ≡ t [MOD len] := Nat.ModEq.add_right_cancel' s (hr.trans ht.symm)
    rw [hmod, mod_eq_of_lt htlen]
  split_ifs with h
  · exact hcong _ (by rw [Nat.sub_add_cancel h, Nat.mod_eq_of_lt hlt]) (by omega)
  · apply hcong
    · rw [show len - (s - r) + s = r + len by omega, add_mod_right, mod_eq_of_lt hlt]
    · omega

theorem window_length : (window len buf c n).length = n := by simp [window]

theorem window_append :
    window len buf c n ++ window len buf (c + n) m = window len buf c (n + m) := by
  simp only [window, range_add, map_append, map_map]
  congr 1
  apply map_congr_left
  intro i _
  simp [add_assoc]

theorem window_take : (window len buf c n).take m = window len buf c (min m n) := by
  rw [window, window, ← map_take, take_range]

/-- Dropping the first cells of a stream leaves a window. -/
theorem drop_map_range :
    (((List.range n).map fun i => i % len).drop c).map buf = window len buf c (n - c) := by
  apply ext_getElem
  · simp [window]
  · intro i _ _
    simp [window]

/-- A window depends on its start modulo the buffer length. -/
theorem window_mod : window len buf (c % len) n = window len buf c n := by
  simp [window]

theorem window_cons : window len buf c (n + 1) = buf (c % len) :: window len buf (c + 1) n := by
  rw [add_comm n 1, ← window_append]
  simp [window]

/-- Elements stored behind a window extend it. -/
theorem window_splice (hend : (c + n) % len + xs.length ≤ len) (hroom : n + xs.length ≤ len) :
    window len (splice buf ((c + n) % len) xs) c (n + xs.length) = window len buf c n ++ xs := by
  apply ext_getElem
  · simp [window]
  intro i hi _
  rw [window_length] at hi
  simp only [window, getElem_map, getElem_range, getElem_append, length_map,
    length_range]
  split_ifs with hin
  · apply splice_miss
    intro j hj heq
    have hmod : ((c + n) % len + j) % len = (c + n) % len + j := mod_eq_of_lt (by omega)
    rw [← hmod, mod_add_mod] at heq
    have := mod_inj_of_lt heq (by omega) (by omega)
    omega
  · obtain ⟨j, rfl⟩ := Nat.exists_eq_add_of_le (Nat.not_lt.1 hin)
    have hj : j < xs.length := by omega
    have hmod : (c + (n + j)) % len = (c + n) % len + j := by
      rw [← add_assoc, ← mod_add_mod, mod_eq_of_lt (by omega)]
    rw [hmod, splice_hit hj]
    simp

theorem splice_singleton (x : α) : splice buf k [x] = update buf k x := by
  funext i
  by_cases hi : i = k
  · subst hi
    simp [splice]
  · rw [update_of_ne hi]
    refine splice_miss fun j hj heq => hi ?_
    simp only [length_singleton, lt_one_iff] at hj
    rw [heq, hj, add_zero]

theorem window_update (x : α) (hroom : n < len) :
    window len (update buf ((c + n) % len) x) c (n + 1) = window len buf c n ++ [x] := by
  rw [← splice_singleton]
  exact @window_splice _ len c n buf [x] (mod_lt _ (by omega)) hroom

namespace Holds

theorem mono (h : Holds len buf S a b) (ha : a ≤ c) (hb : m ≤ b) : Holds len buf S c m :=
  fun k hk hkm => h k (by omega) (by omega)

theorem append (h : Holds len buf S a b) (h' : Holds len buf S b c) : Holds len buf S a c := by
  intro k hk hkc
  by_cases hb : k < b
  · exact h k hk hb
  · exact h' k (by omega) hkc

theorem of_le (h : b ≤ a) : Holds len buf S a b := fun k hk hkb => by omega

theorem window_eq (h : Holds len buf S c (c + n)) :
    window len buf c n = (List.range n).map fun i => S (c + i) := by
  apply map_congr_left
  intro i hi
  rw [mem_range] at hi
  exact h (c + i) (by omega) (by omega)

end Holds

namespace Stored

/-- Only the start modulo the buffer length matters. -/
theorem of_mod (h : Stored len (c % len) n src buf buf') : Stored len c n src buf buf' where
  hit i hi := by simpa using h.hit i hi
  miss k hk := h.miss k (by simpa using hk)

theorem holds_new (h : Stored len c n src buf buf') (hS : ∀ i < n, src i = S (c + i)) :
    Holds len buf' S c (c + n) := by
  intro k hk hkn
  obtain ⟨i, rfl⟩ := Nat.exists_eq_add_of_le hk
  rw [h.hit i (by omega), hS i (by omega)]

/-- A store of the right elements keeps what the buffer holds, overlapping or not. -/
theorem holds_old (h : Stored len c n src buf buf') (hS : ∀ i < n, src i = S (c + i))
    (hold : Holds len buf S a b) (hhi : c + n ≤ a + len) (hlo : b ≤ c + len) :
    Holds len buf' S a b := by
  intro k hk hkb
  by_cases hin : ∃ i < n, k % len = (c + i) % len
  · obtain ⟨i, hi, hmod⟩ := hin
    have hki : k = c + i := mod_inj_of_lt hmod (by omega) (by omega)
    rw [hmod, h.hit i hi, hS i hi, hki]
  · rw [h.miss _ (fun i hi heq => hin ⟨i, hi, heq⟩)]
    exact hold k hk hkb

/-- A store of anything keeps what the buffer holds elsewhere. -/
theorem holds_apart (h : Stored len c n src buf buf') (hold : Holds len buf S a b)
    (hhi : c + n ≤ a + len) (hlo : b ≤ c) : Holds len buf' S a b := by
  intro k hk hkb
  rw [h.miss]
  · exact hold k hk hkb
  · intro i hi hmod
    have hki : k = c + i := mod_inj_of_lt hmod (by omega) (by omega)
    omega

theorem splice_one (hxs : xs = (List.range n).map src) (h : c + n ≤ len) :
    Stored len c n src buf (splice buf c xs) := by
  subst hxs
  have hmod : ∀ i < n, (c + i) % len = c + i := fun i hi => mod_eq_of_lt (by omega)
  constructor
  · intro i hi
    rw [hmod i hi, splice_hit (by simpa using hi)]
    simp
  · intro k hk
    apply splice_miss
    intro i hi
    rw [length_map, length_range] at hi
    rw [← hmod i hi]
    exact hk i hi

/-- A store that crosses the end of the buffer is done in two parts. -/
theorem splice_two {ys : List α} (hxs : xs = (List.range (len - c)).map src)
    (hys : ys = (List.range (n - (len - c))).map fun i => src (len - c + i)) (hc : c < len)
    (hn : n ≤ len) (h : len < c + n) : Stored len c n src buf (splice (splice buf c xs) 0 ys) := by
  have hxlen : xs.length = len - c := by simp [hxs]
  have hylen : ys.length = n - (len - c) := by simp [hys]
  have hlow : ∀ i < len - c, (c + i) % len = c + i := fun i hi => mod_eq_of_lt (by omega)
  have hhigh : ∀ i < n - (len - c), (c + (len - c + i)) % len = i := by
    intro i hi
    rw [show c + (len - c + i) = i + len by omega, add_mod_right, mod_eq_of_lt (by omega)]
  constructor
  · intro i hi
    by_cases hlt : i < len - c
    · rw [hlow i hlt, splice_miss (by intro j hj; omega), splice_hit (by omega)]
      simp [hxs]
    · obtain ⟨j, rfl⟩ := Nat.exists_eq_add_of_le (Nat.not_lt.mp hlt)
      rw [hhigh j (by omega)]
      have hhit : splice (splice buf c xs) 0 ys (0 + j) = ys[j] := splice_hit (by omega)
      rw [zero_add] at hhit
      rw [hhit]
      simp [hys]
  · intro k hk
    rw [splice_miss, splice_miss]
    · intro i hi
      rw [← hlow i (by omega)]
      exact hk i (by omega)
    · intro i hi
      rw [zero_add, ← hhigh i (by omega)]
      exact hk _ (by omega)

end Stored

end Circ
