import Mathlib

/-! Machine words: the two outcomes of wrapping arithmetic, clocks, and flag bits. -/
namespace Word

variable {w : ℕ} {x y m n : BitVec w}

/-- A wrapping sum is exact or short by one full turn. -/
theorem toNat_add_cases (x y : BitVec w) :
    ((x + y).toNat = x.toNat + y.toNat ∧ x.toNat + y.toNat < 2 ^ w) ∨
      (x + y).toNat + 2 ^ w = x.toNat + y.toNat := by
  have hx := x.isLt
  have hy := y.isLt
  by_cases h : x.toNat + y.toNat < 2 ^ w
  · exact Or.inl ⟨by rw [BitVec.toNat_add, Nat.mod_eq_of_lt h], h⟩
  · right
    rw [BitVec.toNat_add, Nat.mod_eq_sub_mod (by omega), Nat.mod_eq_of_lt (by omega)]
    omega

/-- A wrapping difference is exact or ahead by one full turn. -/
theorem toNat_sub_cases (x y : BitVec w) :
    (x - y).toNat + y.toNat = x.toNat ∨ (x - y).toNat + y.toNat = x.toNat + 2 ^ w := by
  have h := toNat_add_cases (x - y) y
  rw [BitVec.sub_add_cancel] at h
  omega

export BitVec (toNat_add_of_lt)

theorem toNat_sub_of_le (h : y.toNat ≤ x.toNat) : (x - y).toNat = x.toNat - y.toNat := by
  have hx := x.isLt
  have hd := (x - y).isLt
  have hc := toNat_sub_cases x y
  omega

theorem toNat_sub_sub {z : BitVec w} (hy : z.toNat ≤ y.toNat) (hx : y.toNat ≤ x.toNat + z.toNat) :
    (y - z).toNat = y.toNat - z.toNat ∧
      (x - (y - z)).toNat = x.toNat - (y.toNat - z.toNat) := by
  have hyz := toNat_sub_of_le hy
  exact ⟨hyz, by rw [toNat_sub_of_le (by omega), hyz]⟩

/-- A position advanced by at most the length of a cyclic buffer wraps at most once. -/
theorem toNat_wrap {len pos n : BitVec w} (hpos : pos.toNat < len.toNat) (hn : n.toNat ≤ len.toNat)
    (hlt : pos.toNat + n.toNat < 2 ^ w) :
    (if pos + n ≥ len then pos + n - len else pos + n).toNat =
      (pos.toNat + n.toNat) % len.toNat := by
  have hsum := toNat_add_of_lt hlt
  split_ifs with h
  · rw [ge_iff_le, BitVec.le_def, hsum] at h
    rw [toNat_sub_of_le (by omega), hsum, Nat.mod_eq_sub_mod h, Nat.mod_eq_of_lt (by omega)]
  · rw [ge_iff_le, BitVec.le_def, hsum] at h
    rw [hsum, Nat.mod_eq_of_lt (by omega)]

theorem toNat_eq_zero : x.toNat = 0 ↔ x = 0 := by
  rw [← BitVec.toNat_inj]
  simp

theorem pos_iff_ne_zero : 0 < x ↔ x ≠ 0 := by
  rw [BitVec.lt_def, ne_eq, ← toNat_eq_zero]
  simp [Nat.pos_iff_ne_zero]

theorem eq_zero_of_not_pos (h : ¬ 0 < x) : x = 0 := not_not.1 fun hne => h (pos_iff_ne_zero.2 hne)

theorem add_ofNat_toNat_sub (x y : BitVec w) : x + BitVec.ofNat w (y - x).toNat = y := by
  rw [BitVec.ofNat_toNat, BitVec.setWidth_eq, add_sub_cancel]

/-- Distance of a word that lies `d` ahead. -/
theorem toNat_add_ofNat_sub {d : ℕ} (x : BitVec w) (hd : d < 2 ^ w) :
    (x + BitVec.ofNat w d - x).toNat = d := by
  rw [BitVec.add_comm, BitVec.add_sub_cancel, BitVec.toNat_ofNat, Nat.mod_eq_of_lt hd]

theorem toNat_ofNat_of_lt {d : ℕ} (hd : d < 2 ^ w) : (BitVec.ofNat w d).toNat = d := by
  rw [BitVec.toNat_ofNat, Nat.mod_eq_of_lt hd]

theorem toNat_sub_eq_zero : (x - y).toNat = 0 ↔ x = y := by
  constructor
  · intro h
    have hc := BitVec.sub_add_cancel x y
    rw [toNat_eq_zero.mp h] at hc
    simpa using hc.symm
  · rintro rfl
    simp

/-- The two distances between distinct words make one full turn. -/
theorem toNat_sub_add_swap (h : x ≠ y) : (x - y).toNat + (y - x).toNat = 2 ^ w := by
  have hpos : (x - y).toNat ≠ 0 := fun hz => h (toNat_sub_eq_zero.mp hz)
  have h₁ := toNat_sub_cases x y
  have h₂ := toNat_sub_cases y x
  have h₃ := (y - x).isLt
  omega

/-- A difference of words within half of the range, as a signed number. -/
theorem toInt_sub_of_near (hlow : 2 * y.toNat < 2 * x.toNat + 2 ^ w)
    (hhigh : 2 * x.toNat < 2 * y.toNat + 2 ^ w) : (x - y).toInt = (x.toNat : ℤ) - y.toNat := by
  have hdiff := toNat_sub_cases x y
  have hlt := (x - y).isLt
  rw [BitVec.toInt_eq_toNat_cond]
  split_ifs <;> omega

theorem toNat_and_ofNat {k : ℕ} (hk : k ≤ w) (x : BitVec w) :
    (x &&& BitVec.ofNat w (2 ^ k - 1)).toNat = x.toNat % 2 ^ k := by
  have hle : 2 ^ k ≤ 2 ^ w := Nat.pow_le_pow_right (by decide) hk
  have hpos := Nat.two_pow_pos k
  rw [BitVec.toNat_and, toNat_ofNat_of_lt (by omega), Nat.and_two_pow_sub_one_eq_mod]

/-- The way from `cur` to `ts` on a clock with `2 ^ (k + 1)` ticks. The interval that wraps around
is split in half. -/
def relative (k : ℕ) (cur ts : BitVec w) : BitVec w :=
  let middle := BitVec.ofNat w (2 ^ k)
  let mask := BitVec.ofNat w (2 ^ (k + 1) - 1)
  let range := BitVec.ofNat w (2 ^ (k + 1))
  if cur < middle then
    let start := (cur - middle) &&& mask
    if start ≤ ts ∧ ts < range then ts - start - middle else ts - cur
  else if cur = middle then ts - cur
  else
    let stop := ((cur + middle) &&& mask) + 1
    if 0 ≤ cur ∧ ts < stop then ts + (range - cur) else ts - cur

/-- It is the shorter way; half a turn leads back, unless the clock is past its middle. -/
theorem toInt_relative {k : ℕ} {cur ts : BitVec w} (hk : k + 2 ≤ w) (hcur : cur.toNat < 2 ^ (k + 1))
    (hts : ts.toNat < 2 ^ (k + 1)) :
    (relative k cur ts).toInt =
      if cur.toNat + 2 ^ k ≤ ts.toNat then (ts.toNat : ℤ) - cur.toNat - 2 ^ (k + 1)
      else if ts.toNat + 2 ^ k ≤ cur.toNat ∧ 2 ^ k < cur.toNat then
        (ts.toNat : ℤ) - cur.toNat + 2 ^ (k + 1)
      else (ts.toNat : ℤ) - cur.toNat := by
  obtain ⟨q, hturn⟩ : ∃ q, 2 ^ w = 2 ^ (k + 1) + 2 ^ (k + 1) * (q + 1) := by
    obtain ⟨j, rfl⟩ := Nat.exists_eq_add_of_le hk
    obtain ⟨q, hq⟩ := Nat.exists_eq_add_of_lt (Nat.two_pow_pos j)
    refine ⟨2 * q, ?_⟩
    rw [show k + 2 + j = k + 1 + 1 + j by omega, pow_add, pow_succ, hq]
    ring
  have hhalf : 2 ^ (k + 1) = 2 * 2 ^ k := pow_succ' 2 k
  have hroom : 2 ^ (k + 1) ≤ 2 ^ (k + 1) * (q + 1) := Nat.le_mul_of_pos_right _ (Nat.succ_pos q)
  have hmid : (BitVec.ofNat w (2 ^ k)).toNat = 2 ^ k := toNat_ofNat_of_lt (by omega)
  have hrange : (BitVec.ofNat w (2 ^ (k + 1))).toNat = 2 ^ (k + 1) := toNat_ofNat_of_lt (by omega)
  have hmask := toNat_and_ofNat (w := w) (k := k + 1) (by omega)
  have hcast : ((2 ^ (k + 1) : ℕ) : ℤ) = 2 ^ (k + 1) := by norm_cast
  have hstraight : (ts - cur).toInt = (ts.toNat : ℤ) - cur.toNat :=
    toInt_sub_of_near (by omega) (by omega)
  unfold relative
  dsimp only
  generalize BitVec.ofNat w (2 ^ k) = middle at hmid ⊢
  generalize BitVec.ofNat w (2 ^ (k + 1)) = range at hrange ⊢
  generalize BitVec.ofNat w (2 ^ (k + 1) - 1) = mask at hmask ⊢
  by_cases hlow : cur < middle
  · rw [if_pos hlow]
    rw [BitVec.lt_def, hmid] at hlow
    have hstart : ((cur - middle) &&& mask).toNat = cur.toNat + 2 ^ k := by
      have hsub := toNat_sub_cases cur middle
      have hlt := (cur - middle).isLt
      have heq : (cur - middle).toNat = cur.toNat + 2 ^ k + 2 ^ (k + 1) * (q + 1) := by omega
      rw [hmask, heq, Nat.add_mul_mod_self_left, Nat.mod_eq_of_lt (by omega)]
    simp only [BitVec.le_def, BitVec.lt_def, hstart, hrange, hts, and_true]
    split_ifs with hin
    · have hsub := toNat_sub_of_le (hstart.trans_le hin)
      rw [toInt_sub_of_near (by omega) (by omega)]
      omega
    · omega
    · exact hstraight
  · rw [if_neg hlow]
    rw [BitVec.lt_def, hmid] at hlow
    by_cases heq : cur = middle
    · rw [if_pos heq, hstraight, heq, hmid, if_neg (by omega), if_neg (by omega)]
    have hne : cur.toNat ≠ 2 ^ k := fun h => heq (BitVec.eq_of_toNat_eq (h.trans hmid.symm))
    have hstop : (((cur + middle) &&& mask) + 1).toNat = cur.toNat - 2 ^ k + 1 := by
      have hone : (1 : BitVec w).toNat = 1 := BitVec.toNat_one (by omega)
      have hand : ((cur + middle) &&& mask).toNat = cur.toNat - 2 ^ k := by
        rw [hmask, toNat_add_of_lt (by omega), hmid, Nat.mod_eq_sub_mod (by omega),
          Nat.mod_eq_of_lt (by omega)]
        omega
      rw [toNat_add_of_lt (by omega), hand, hone]
    have hzero : (0 : BitVec w) ≤ cur := BitVec.le_def.2 (by simp)
    rw [if_neg heq]
    simp only [hzero, true_and, BitVec.lt_def, hstop]
    split_ifs with hin
    · omega
    · have hsub : (range - cur).toNat = 2 ^ (k + 1) - cur.toNat := by
        rw [toNat_sub_of_le (by omega), hrange]
      have hadd := toNat_add_of_lt (x := ts) (y := range - cur) (by omega)
      rw [BitVec.toInt_eq_toNat_cond, hadd, if_pos (by omega)]
      omega
    all_goals omega

/-- Setting one flag leaves the test of a disjoint flag unchanged. -/
theorem and_or_of_disjoint (h : m &&& n = 0#w) : (x ||| m) &&& n = x &&& n := by
  ext i hi
  have hi' := congrArg (fun v => v.getLsbD i) h
  simp only [BitVec.getLsbD_and, BitVec.getLsbD_zero] at hi'
  simp only [← BitVec.getLsbD_eq_getElem, BitVec.getLsbD_and, BitVec.getLsbD_or]
  cases hm : m.getLsbD i <;> simp_all

theorem and_or_self : (x ||| m) &&& m = m := by
  ext i hi
  simp only [BitVec.getElem_and, BitVec.getElem_or]
  cases m[i] <;> simp

/-! ### Partial copies -/

/-- `old` where `keep` has ones, and `new` elsewhere. -/
def merge (keep new old : BitVec w) : BitVec w := (new &&& ~~~keep) ||| (old &&& keep)

theorem merge_zero : merge 0#w x y = x := by
  unfold merge
  rw [BitVec.not_zero, BitVec.and_allOnes, BitVec.and_zero, BitVec.or_zero]

/-- The highest `n` bytes of `new`, over `old`. -/
def copyHigh (n : ℕ) (new old : BitVec w) : BitVec w := merge (BitVec.allOnes w >>> (8 * n)) new old

theorem copyHigh_eq {n : ℕ} (h : w ≤ 8 * n) : copyHigh n x y = x := by
  unfold copyHigh
  rw [BitVec.ushiftRight_eq_zero h]
  exact merge_zero

end Word
