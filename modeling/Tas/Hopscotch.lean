import Tas.FlowTable

/-! The lookup table stores exactly the live flows, as long as relocation meets only entries
that store their true distance. -/
namespace Tas

open Function Word FlowHte

open Probe (Stores)

/-! ### The words of an entry -/

section Words

variable {d f : U32} {e : FlowHte}

theorem toNat_hteWord (hd : d.toNat < 4) (hf : f.toNat < 2 ^ 29) :
    (hteWord d f).toNat = 2 ^ 31 + d.toNat * 2 ^ 29 + f.toNat := by
  have hshift : (d <<< 29).toNat = d.toNat * 2 ^ 29 := by
    rw [BitVec.toNat_shiftLeft, Nat.shiftLeft_eq, Nat.mod_eq_of_lt (by omega)]
  have hhigh : flowhteValid.toNat ||| d.toNat * 2 ^ 29 = 2 ^ 29 * (4 + d.toNat) := by
    have h := Nat.two_pow_add_eq_or_of_lt (show d.toNat * 2 ^ 29 < 2 ^ 31 by omega) 1
    change 2 ^ 31 * 1 ||| _ = _
    rw [← h]
    omega
  unfold hteWord
  rw [BitVec.toNat_or, BitVec.toNat_or, hshift, hhigh, ← Nat.two_pow_add_eq_or_of_lt hf]
  omega

theorem FlowHte.toNat_fid : e.fid.toNat = e.flowId.toNat % 2 ^ 29 := by
  rw [fid, BitVec.toNat_and]
  exact Nat.and_two_pow_sub_one_eq_mod _ 29

theorem FlowHte.toNat_pos : e.pos.toNat = e.flowId.toNat / 2 ^ 29 % 4 := by
  rw [pos, BitVec.toNat_and, BitVec.toNat_ushiftRight, Nat.shiftRight_eq_div_pow]
  exact Nat.and_two_pow_sub_one_eq_mod _ 2

theorem FlowHte.valid_iff : e.valid = true ↔ 2 ^ 31 ≤ e.flowId.toNat := by
  have hlt := e.flowId.isLt
  have hand : (e.flowId &&& flowhteValid).toNat = (e.flowId.toNat.testBit 31).toNat * 2 ^ 31 := by
    rw [BitVec.toNat_and]
    exact Nat.and_two_pow _ 31
  rw [valid, bne_iff_ne, ne_eq, ← toNat_eq_zero, hand,
    Nat.testBit_eq_decide_div_mod_eq]
  simp
  omega

/-- Moving an entry copies its word: the stored distance stays what it was. -/
theorem hteWord_of_valid (h : e.valid = true) : hteWord e.pos e.fid = e.flowId := by
  have hv := valid_iff.mp h
  have hlt := e.flowId.isLt
  have hpos := toNat_pos (e := e)
  have hfid := toNat_fid (e := e)
  apply BitVec.eq_of_toNat_eq
  rw [toNat_hteWord (by omega) (by omega)]
  omega

theorem hteWord_entry {h : U32} (hd : d.toNat < 4) (hf : f.toNat < 2 ^ 29) :
    (mk (hteWord d f) h).valid = true ∧ (mk (hteWord d f) h).fid = f := by
  have hw := toNat_hteWord hd hf
  constructor
  · rw [valid_iff]
    dsimp only
    omega
  · apply BitVec.eq_of_toNat_eq
    rw [toNat_fid]
    dsimp only
    omega

/-- Flow id and hash of a valid entry. -/
def FlowHte.entry (e : FlowHte) : Option (U32 × U32) :=
  if e.valid then some (e.fid, e.flowHash) else none

theorem FlowHte.entry_eq_some {x : U32 × U32} :
    e.entry = some x ↔ e.valid = true ∧ e.fid = x.1 ∧ e.flowHash = x.2 := by
  unfold entry
  split_ifs with h
  · simp [h, Prod.ext_iff]
  · simp [h]

theorem FlowHte.entry_eq_none : e.entry = none ↔ e.valid = false := by
  unfold entry
  split_ifs with h <;> simp [h]

theorem FlowHte.valid_zero {h : U32} : (mk 0 h).valid = false := by
  simp [valid]

theorem FlowHte.valid_cleared {h : U32} : (mk (e.flowId &&& ~~~flowhteValid) h).valid = false := by
  unfold valid
  rw [BitVec.and_assoc]
  simp

end Words

/-- The slot is one of the `FLEXNIC_PL_FLOWHT_NBSZ` ones that start at the hash. -/
def NearHash (s : Slot) (h : U32) : Prop := (s - homeSlot h).toNat < flowhtNbsz

instance (s : Slot) (h : U32) : Decidable (NearHash s h) := by
  unfold NearHash; infer_instance

/-- The contents of a table. -/
def entries (ht : Slot → FlowHte) : Slot → Option (U32 × U32) := fun s => (ht s).entry

variable {ht : Slot → FlowHte} {i j k : Slot} {n d e : ℕ} {E : U32 → Option U32}

/-! ### Searching -/

theorem slot_add_succ : i + BitVec.ofNat 18 (d + 1) = i + 1 + BitVec.ofNat 18 d := by
  rw [BitVec.ofNat_add, BitVec.add_comm (BitVec.ofNat 18 d), ← BitVec.add_assoc]
  rfl

theorem findFree_some (h : findFree ht i n = some d) :
    d < n ∧ (ht (i + BitVec.ofNat 18 d)).valid = false ∧
      ∀ e < d, (ht (i + BitVec.ofNat 18 e)).valid = true := by
  induction n generalizing i d with
  | zero => simp [findFree] at h
  | succ n ih =>
    unfold findFree at h
    split_ifs at h with hv
    · obtain ⟨d', hd', rfl⟩ := Option.map_eq_some_iff.mp h
      obtain ⟨hlt, hfree, hbefore⟩ := ih hd'
      refine ⟨by omega, by rw [slot_add_succ]; exact hfree, fun e he => ?_⟩
      cases e with
      | zero => simpa using hv
      | succ e =>
        rw [slot_add_succ]
        exact hbefore e (by omega)
    · obtain rfl : 0 = d := by simpa using h
      exact ⟨by omega, by simpa using hv, fun e he => absurd he (Nat.not_lt_zero e)⟩

theorem findFree_none (h : findFree ht i n = none) :
    ∀ e < n, (ht (i + BitVec.ofNat 18 e)).valid = true := by
  induction n generalizing i with
  | zero => exact fun e he => absurd he (Nat.not_lt_zero e)
  | succ n ih =>
    unfold findFree at h
    split_ifs at h with hv
    · intro e he
      cases e with
      | zero => simpa using hv
      | succ e =>
        rw [slot_add_succ]
        exact ih (Option.map_eq_none_iff.mp h) e (by omega)

/-- Among valid entries the search does not fail, and what it finds may move up to `k` by its
stored distance. -/
theorem findMovable_cases (hn : n ≤ flowhtNbsz)
    (hv : ∀ m, 1 ≤ m → m ≤ n → (ht (k - BitVec.ofNat 18 m)).valid = true) :
    findMovable ht k n = .none ∨
      ∃ m, 1 ≤ m ∧ m ≤ n ∧ findMovable ht k n = .at (k - BitVec.ofNat 18 m) ∧
        m + (ht (k - BitVec.ofNat 18 m)).pos.toNat ≤ 3 := by
  unfold flowhtNbsz at hn
  induction n with
  | zero => exact Or.inl rfl
  | succ n ih =>
    have hdist : (k - (k - BitVec.ofNat 18 (n + 1))).toNat = n + 1 := by
      rw [sub_sub_cancel, toNat_ofNat_of_lt (by omega)]
    have hpos := toNat_pos (e := ht (k - BitVec.ofNat 18 (n + 1)))
    unfold findMovable
    dsimp only
    rw [if_neg (by simp [hv (n + 1) (by omega) le_rfl]), hdist]
    split_ifs with hm
    · right
      refine ⟨n + 1, by omega, le_rfl, rfl, ?_⟩
      unfold flowhtNbsz at hm
      omega
    · rcases ih (by omega) (fun m h₁ h₂ => hv m h₁ (by omega)) with h | ⟨m, h₁, h₂, h₃, h₄⟩
      · exact Or.inl h
      · exact Or.inr ⟨m, h₁, by omega, h₃, h₄⟩

/-- The range test of the source in terms of the distance from the hash slot. -/
theorem outOfRange_iff (he : e < 2 ^ 18) :
    OutOfRange j (j + BitVec.ofNat 18 flowhtNbsz) (j + BitVec.ofNat 18 e) ↔ flowhtNbsz ≤ e := by
  have h₁ := toNat_add_cases j (BitVec.ofNat 18 flowhtNbsz)
  have h₂ := toNat_add_cases j (BitVec.ofNat 18 e)
  have h₃ : (BitVec.ofNat 18 flowhtNbsz).toNat = 4 := rfl
  have h₄ : (BitVec.ofNat 18 e).toNat = e := toNat_ofNat_of_lt he
  unfold OutOfRange
  simp only [gt_iff_lt, ge_iff_le, BitVec.lt_def, BitVec.le_def]
  unfold flowhtNbsz at *
  omega

/-! ### Relocation -/

/-- The entry stores its distance from the slot of its hash. -/
def FreshAt (ht : Slot → FlowHte) (s : Slot) : Prop :=
  (ht s).pos.toNat = (s - homeSlot (ht s).flowHash).toNat

instance (s : Slot) : Decidable (FreshAt ht s) := by
  unfold FreshAt; infer_instance

/-- The entry does not store less than its distance from the slot of its hash. -/
def RoomAt (ht : Slot → FlowHte) (s : Slot) : Prop :=
  (s - homeSlot (ht s).flowHash).toNat ≤ (ht s).pos.toNat

instance (s : Slot) : Decidable (RoomAt ht s) := by
  unfold RoomAt; infer_instance

/-- What may be moved by its stored distance may be moved by its real one. -/
theorem RoomAt.near (hroom : RoomAt ht i) (hd : d + (ht i).pos.toNat ≤ 3) :
    NearHash (i + BitVec.ofNat 18 d) (ht i).flowHash := by
  unfold RoomAt at hroom
  unfold NearHash flowhtNbsz
  have hsum : i + BitVec.ofNat 18 d - homeSlot (ht i).flowHash =
      i - homeSlot (ht i).flowHash + BitVec.ofNat 18 d := by abel
  have hdn : (BitVec.ofNat 18 d).toNat = d := toNat_ofNat_of_lt (by omega)
  have := toNat_add_cases (i - homeSlot (ht i).flowHash) (BitVec.ofNat 18 d)
  rw [hsum]
  omega

theorem entries_moveUp (hik : i ≠ k) (hv : (ht i).valid = true) :
    entries (moveUp ht i k) =
      update (update (entries ht) k (entries ht i)) i none := by
  funext s
  unfold moveUp entries
  rw [hteWord_of_valid hv]
  by_cases hsi : s = i
  · subst hsi
    rw [update_self, update_self]
    exact entry_eq_none.mpr valid_zero
  · rw [update_of_ne hsi, update_of_ne hsi]
    by_cases hsk : s = k
    · subst hsk
      rw [update_self, update_self]
    · rw [update_of_ne hsk, update_of_ne hsk]

theorem moveUp_of_ne {s : Slot} (hi : s ≠ i) (hk : s ≠ k) : moveUp ht i k s = ht s := by
  unfold moveUp
  rw [update_of_ne hi, update_of_ne hk]

theorem slot_ne (hd : d < 2 ^ 18) (he : e < 2 ^ 18) (hne : d ≠ e) :
    j + BitVec.ofNat 18 d ≠ j + BitVec.ofNat 18 e := by
  intro h
  have := congrArg BitVec.toNat (add_left_cancel h)
  rw [toNat_ofNat_of_lt hd, toNat_ofNat_of_lt he] at this
  exact hne this

theorem slot_sub {m : ℕ} (hm : m ≤ e) :
    j + BitVec.ofNat 18 e - BitVec.ofNat 18 m = j + BitVec.ofNat 18 (e - m) := by
  obtain ⟨r, rfl⟩ := Nat.exists_eq_add_of_le hm
  rw [Nat.add_sub_cancel_left, BitVec.ofNat_add, add_sub_assoc, add_sub_cancel_left]

/-- One round keeps the contents: the element that moves has room by its true distance. -/
theorem stores_moveUp (h : Stores NearHash (entries ht) E) (hv : (ht i).valid = true)
    (hfresh : FreshAt ht i) (hfree : (ht (i + BitVec.ofNat 18 d)).valid = false)
    (hroom : d + (ht i).pos.toNat ≤ 3) :
    Stores NearHash (entries (moveUp ht i (i + BitVec.ofNat 18 d))) E := by
  have hne : i ≠ i + BitVec.ofNat 18 d := by
    intro hi
    rw [← hi, hv] at hfree
    simp at hfree
  have hentry : entries ht i = some ((ht i).fid, (ht i).flowHash) :=
    entry_eq_some.mpr ⟨hv, rfl, rfl⟩
  rw [entries_moveUp hne hv, hentry]
  exact h.move hentry (entry_eq_none.mpr hfree) (RoomAt.near (Nat.le_of_eq hfresh.symm) hroom)

/-- The slots before the free one hold valid entries with true distances: then relocation
keeps the contents and ends, with a free slot in range or without one. -/
theorem moveBack_spec {fuel : ℕ} (h : Stores NearHash (entries ht) E) (hfuel : 1 ≤ fuel)
    (he : e ≤ fuel + 2) (hlt : e < 2 ^ 18)
    (hbefore : ∀ d < e, (ht (j + BitVec.ofNat 18 d)).valid = true ∧
      FreshAt ht (j + BitVec.ofNat 18 d)) (hfree : (ht (j + BitVec.ofNat 18 e)).valid = false) :
    ∃ ht' r, moveBack fuel ht j (j + BitVec.ofNat 18 e) = (ht', r) ∧
      Stores NearHash (entries ht') E ∧
      (r = .full ∨ ∃ d < flowhtNbsz, r = .found (j + BitVec.ofNat 18 d) d ∧
        (ht' (j + BitVec.ofNat 18 d)).valid = false) := by
  induction fuel generalizing ht e with
  | zero => omega
  | succ fuel ih =>
    unfold moveBack
    by_cases hrange : flowhtNbsz ≤ e
    · rw [if_pos ((outOfRange_iff hlt).mpr hrange)]
      have hr : 4 ≤ e := hrange
      have hvalid : ∀ m, 1 ≤ m → m ≤ flowhtNbsz →
          (ht (j + BitVec.ofNat 18 e - BitVec.ofNat 18 m)).valid = true := by
        intro m h₁ h₂
        rw [slot_sub (by omega)]
        exact (hbefore (e - m) (by omega)).1
      rcases findMovable_cases le_rfl hvalid with hnone | ⟨m, hm₁, hm₂, hat, hroom⟩
      · exact ⟨ht, .full, by rw [hnone], h, Or.inl rfl⟩
      · rw [hat]
        dsimp only
        rw [if_neg (by simp [hfree]), slot_sub (by omega)]
        rw [slot_sub (by omega)] at hroom
        have hm₄ : m ≤ 4 := hm₂
        obtain ⟨hv, hfresh⟩ := hbefore (e - m) (by omega)
        have hup : j + BitVec.ofNat 18 e = j + BitVec.ofNat 18 (e - m) + BitVec.ofNat 18 m := by
          rw [add_assoc, ← BitVec.ofNat_add, Nat.sub_add_cancel (by omega)]
        have hstores := stores_moveUp h hv hfresh (hup ▸ hfree) hroom
        rw [← hup] at hstores
        refine ih hstores (by omega) (by omega) (by omega) (fun d hd => ?_) ?_
        · -- the slots before the one that was freed are as they were
          have hsame := @moveUp_of_ne ht (j + BitVec.ofNat 18 (e - m)) (j + BitVec.ofNat 18 e) _
            (@slot_ne j d (e - m) (by omega) (by omega) (by omega))
            (@slot_ne j d e (by omega) (by omega) (by omega))
          unfold FreshAt
          rw [hsame]
          exact hbefore d (by omega)
        · unfold moveUp
          rw [update_self]
          exact valid_zero
    · rw [if_neg (fun ho => hrange ((outOfRange_iff hlt).mp ho))]
      refine ⟨ht, _, rfl, h, Or.inr ⟨e, by omega, ?_, hfree⟩⟩
      rw [add_sub_cancel_left, toNat_ofNat_of_lt hlt]

/-- Every entry that an insertion at the slot of `h` may have to move stores its true distance. -/
def HopFresh (ht : Slot → FlowHte) (h : U32) : Prop :=
  (∃ d < flowhtNbsz, (ht (homeSlot h + BitVec.ofNat 18 d)).valid = false) ∨
    ∀ d < 5 * flowhtNbsz - 1, (ht (homeSlot h + BitVec.ofNat 18 d)).valid = true →
      FreshAt ht (homeSlot h + BitVec.ofNat 18 d)

instance (h : U32) : Decidable (HopFresh ht h) := by
  unfold HopFresh; infer_instance

/-- The first free slot, if it is not near: where it is, and that all slots before it are used. -/
theorem findFree_far {h : U32} {d : ℕ}
    (hfull : ∀ e < flowhtNbsz, (ht (homeSlot h + BitVec.ofNat 18 e)).valid = true)
    (hfar : findFree ht (homeSlot h + BitVec.ofNat 18 flowhtNbsz) (4 * flowhtNbsz) = some d) :
    homeSlot h + BitVec.ofNat 18 flowhtNbsz + BitVec.ofNat 18 d =
        homeSlot h + BitVec.ofNat 18 (flowhtNbsz + d) ∧ d < 16 ∧
      (ht (homeSlot h + BitVec.ofNat 18 (flowhtNbsz + d))).valid = false ∧
      ∀ e < flowhtNbsz + d, (ht (homeSlot h + BitVec.ofNat 18 e)).valid = true := by
  obtain ⟨hd, hfree, hvalid⟩ := findFree_some hfar
  have hslot : ∀ e, homeSlot h + BitVec.ofNat 18 flowhtNbsz + BitVec.ofNat 18 e =
      homeSlot h + BitVec.ofNat 18 (flowhtNbsz + e) := by
    intro e
    rw [add_assoc, ← BitVec.ofNat_add]
  simp only [hslot] at hfree hvalid
  refine ⟨hslot d, hd, hfree, fun e he => ?_⟩
  by_cases hlt : e < flowhtNbsz
  · exact hfull e hlt
  · have := hvalid (e - flowhtNbsz) (by omega)
    rwa [Nat.add_sub_cancel' (by omega)] at this

theorem flowSlotAlloc_spec {h : U32} (hs : Stores NearHash (entries ht) E) (hhop : HopFresh ht h) :
    ∃ ht' r, flowSlotAlloc ht h = (ht', r) ∧ Stores NearHash (entries ht') E ∧
      (r = .full ∨ ∃ d < flowhtNbsz, r = .found (homeSlot h + BitVec.ofNat 18 d) d ∧
        (ht' (homeSlot h + BitVec.ofNat 18 d)).valid = false) := by
  unfold flowSlotAlloc
  dsimp only
  cases hnear : findFree ht (homeSlot h) flowhtNbsz with
  | some d =>
    obtain ⟨hd, hfree, -⟩ := findFree_some hnear
    exact ⟨ht, _, rfl, hs, Or.inr ⟨d, hd, rfl, hfree⟩⟩
  | none =>
    have hfull := findFree_none hnear
    cases hfar : findFree ht (homeSlot h + BitVec.ofNat 18 flowhtNbsz) (4 * flowhtNbsz) with
    | none => exact ⟨ht, _, rfl, hs, Or.inl rfl⟩
    | some d =>
      obtain ⟨hslot, hd', hfree, hbefore⟩ := findFree_far hfull hfar
      dsimp only
      rw [hslot]
      rcases hhop with ⟨e, he, hinvalid⟩ | hfresh
      · rw [hfull e he] at hinvalid
        simp at hinvalid
      · have hn : flowhtNbsz = 4 := rfl
        exact moveBack_spec hs (by omega) (by omega) (by omega)
          (fun e he => ⟨hbefore e he, hfresh e (by omega) (hbefore e he)⟩) hfree

end Tas
