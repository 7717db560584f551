import Mathlib

/-! Regions of an address space, given by base and length, that tile an interval: each address in
it lies in exactly one region, and no other address lies in any. -/
namespace Tiling

open List

/-- The addresses from `base` on, `len` of them. -/
structure Region where
  base : ℕ
  len : ℕ
deriving DecidableEq

variable {r s : Region} {rs ss : List Region} {a b k lo hi : ℕ}

instance : Membership ℕ Region := ⟨fun r a => r.base ≤ a ∧ a < r.base + r.len⟩

theorem Region.mem_iff : a ∈ r ↔ r.base ≤ a ∧ a < r.base + r.len := Iff.rfl

instance : Decidable (a ∈ r) := inferInstanceAs (Decidable (r.base ≤ a ∧ a < r.base + r.len))

/-- The regions have no address in common. -/
def Region.Apart (r s : Region) : Prop := ∀ a, a ∈ r → a ∉ s

/-- How many of the regions an address lies in. -/
def hits (rs : List Region) (a : ℕ) : ℕ := rs.countP fun r => a ∈ r

/-- The regions tile the interval from `lo` to `hi`. -/
def Tiles (rs : List Region) (lo hi : ℕ) : Prop :=
  ∀ a, hits rs a = if lo ≤ a ∧ a < hi then 1 else 0

theorem hits_cons : hits (r :: rs) a = hits rs a + if a ∈ r then 1 else 0 := by
  simp [hits, countP_cons]

theorem tiles_singleton (base len : ℕ) : Tiles [⟨base, len⟩] base (base + len) := by
  intro a
  rw [hits_cons]
  simp [hits, Region.mem_iff]

theorem Tiles.perm (h : Tiles rs lo hi) (hp : rs.Perm ss) : Tiles ss lo hi := by
  intro a
  rw [← h a]
  exact (hp.countP_eq _).symm

/-- A region is as good as its two parts. -/
theorem tiles_split_iff (hk : k ≤ r.len) :
    Tiles (⟨r.base, k⟩ :: ⟨r.base + k, r.len - k⟩ :: rs) lo hi ↔ Tiles (r :: rs) lo hi := by
  refine forall_congr' fun a => ?_
  rw [hits_cons, hits_cons, hits_cons]
  simp only [Region.mem_iff]
  have hparts : ((if r.base + k ≤ a ∧ a < r.base + k + (r.len - k) then 1 else 0) +
      if r.base ≤ a ∧ a < r.base + k then 1 else 0) =
      if r.base ≤ a ∧ a < r.base + r.len then 1 else 0 := by
    split_ifs <;> omega
  rw [Nat.add_assoc, hparts]

theorem Tiles.mem_iff (h : Tiles rs lo hi) : (∃ r ∈ rs, a ∈ r) ↔ lo ≤ a ∧ a < hi := by
  have ha := h a
  constructor
  · intro hex
    by_contra hout
    rw [if_neg hout] at ha
    obtain ⟨r, hr, har⟩ := hex
    have hnone := countP_eq_zero.1 ha r hr
    simp [har] at hnone
  · intro hin
    rw [if_pos hin] at ha
    have hpos : 0 < hits rs a := by omega
    obtain ⟨r, hr, har⟩ := countP_pos_iff.1 hpos
    exact ⟨r, hr, by simpa using har⟩

theorem pairwise_of_hits (h : ∀ a, hits rs a ≤ 1) : rs.Pairwise Region.Apart := by
  induction rs with
  | nil => exact List.Pairwise.nil
  | cons r rs ih =>
    refine pairwise_cons.2 ⟨fun s hs a har has => ?_, ih fun a => ?_⟩
    · have hle := h a
      have hpos : 0 < hits rs a := countP_pos_iff.2 ⟨s, hs, by simpa using has⟩
      rw [hits_cons, if_pos har] at hle
      omega
    · have hle := h a
      rw [hits_cons] at hle
      omega

theorem Tiles.pairwise (h : Tiles rs lo hi) : rs.Pairwise Region.Apart := by
  refine pairwise_of_hits fun a => ?_
  rw [h a]
  split_ifs <;> omega

/-- A region of a tiling that is not empty lies in the interval. -/
theorem Tiles.inside (h : Tiles rs lo hi) (hr : r ∈ rs) (hlen : 0 < r.len) :
    lo ≤ r.base ∧ r.base + r.len ≤ hi := by
  have hfirst := h.mem_iff.1 ⟨r, hr, show r.base ∈ r from ⟨le_rfl, by omega⟩⟩
  have hlast := h.mem_iff.1 ⟨r, hr, show r.base + (r.len - 1) ∈ r from ⟨by omega, by omega⟩⟩
  exact ⟨hfirst.1, by omega⟩

end Tiling
