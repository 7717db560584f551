import Tas.FlowTableRun

/-! Insertions into the flow table that fail after entries were already displaced: what the lookup
finds then. -/
namespace Tas

variable {ht : Slot → FlowHte} {flowst : U32 → FlowState} {i j k s : Slot} {d e fuel : ℕ}
  {h f : U32} {key : FlowKey}

/-! ### What the lookup finds -/

/-- The lookup of `key` with hash `h` stops at this slot, if it does not stop before. -/
structure MatchAt (flowst : U32 → FlowState) (ht : Slot → FlowHte) (h : U32) (key : FlowKey)
    (s : Slot) : Prop where
  near : NearHash s h
  valid : (ht s).valid = true
  hash : (ht s).flowHash = h
  key : (flowst (ht s).fid).key = key

/-- The lookup finds the flow, and there is no second entry at which it could stop. -/
structure FoundOnce (flowst : U32 → FlowState) (ht : Slot → FlowHte) (h : U32) (key : FlowKey)
    (f : U32) : Prop where
  found : findFlow flowst ht h key (homeSlot h) flowhtNbsz = some f
  once : ∀ s s', MatchAt flowst ht h key s → MatchAt flowst ht h key s' → s = s'

/-- All valid entries lie near to their hash. -/
def AllNear (ht : Slot → FlowHte) : Prop :=
  ∀ s, (ht s).valid = true → NearHash s (ht s).flowHash

theorem nearHash_offset (hd : d < flowhtNbsz) : NearHash (homeSlot h + BitVec.ofNat 18 d) h := by
  have hd : d < 4 := hd
  unfold NearHash flowhtNbsz
  rw [add_sub_cancel_left, Word.toNat_ofNat_of_lt (by omega)]
  exact hd

theorem matchAt_iff : MatchAt flowst ht h key s ↔
    NearHash s h ∧ ∃ f, entries ht s = some (f, h) ∧ (flowst f).key = key := by
  constructor
  · intro hm
    exact ⟨hm.near, _, FlowHte.entry_eq_some.mpr ⟨hm.valid, rfl, hm.hash⟩, hm.key⟩
  · rintro ⟨hnear, f, he, hkey⟩
    obtain ⟨hv, rfl, hh⟩ := FlowHte.entry_eq_some.mp he
    exact ⟨hnear, hv, hh, hkey⟩

theorem foundOnce_iff : FoundOnce flowst ht h key f ↔
    ∃ s, NearHash s h ∧ entries ht s = some (f, h) ∧ (flowst f).key = key ∧
      ∀ s', MatchAt flowst ht h key s' → s' = s := by
  constructor
  · intro hfound
    obtain ⟨d, hd, he, hkey⟩ := findFlow_some hfound.found
    have hnear := @nearHash_offset d h hd
    exact ⟨_, hnear, he, hkey, fun s' hs' =>
      hfound.once s' _ hs' (matchAt_iff.2 ⟨hnear, f, he, hkey⟩)⟩
  · rintro ⟨s, hnear, he, hkey, honly⟩
    refine ⟨?_, fun s₁ s₂ h₁ h₂ => (honly s₁ h₁).trans (honly s₂ h₂).symm⟩
    cases hl : findFlow flowst ht h key (homeSlot h) flowhtNbsz with
    | none =>
      obtain ⟨d, hd, rfl⟩ := hnear.exists_offset
      exact absurd ⟨he, hkey⟩ (findFlow_none hl d hd)
    | some g =>
      obtain ⟨d, hd, he', hkey'⟩ := findFlow_some hl
      obtain rfl := honly _ (matchAt_iff.2 ⟨nearHash_offset hd, g, he', hkey'⟩)
      exact congrArg some (Prod.mk.inj (Option.some.inj (he'.symm.trans he))).1

theorem AllNear.of_entry (hnear : AllNear ht) (hx : entries ht s = some (f, h)) : NearHash s h := by
  obtain ⟨hv, _, hh⟩ := FlowHte.entry_eq_some.mp hx
  rw [← show (ht s).flowHash = h from hh]
  exact hnear s hv

/-! ### One move -/

section Move

variable (hv : (ht i).valid = true) (hfree : (ht k).valid = false)
include hv hfree

theorem entries_moveUp_swap (s : Slot) :
    entries (moveUp ht i k) s = entries ht (Equiv.swap i k s) := by
  have hne : i ≠ k := by
    rintro rfl
    cases hv.symm.trans hfree
  have hnone : entries ht k = none := FlowHte.entry_eq_none.mpr hfree
  rw [entries_moveUp hne hv, Probe.update_eq_swap hnone]

variable (hnear : AllNear ht) (hk : NearHash k (ht i).flowHash)
include hnear hk

omit hv in
/-- Entries are near to their hash after the move, if the one that is moved is. -/
theorem near_swap (he : entries ht s = some (f, h)) : NearHash (Equiv.swap i k s) h := by
  obtain ⟨hvs, _, hh⟩ := FlowHte.entry_eq_some.mp he
  by_cases hsi : s = i
  · rw [hsi, Equiv.swap_apply_left, ← show (ht i).flowHash = h by rw [← hsi]; exact hh]
    exact hk
  · rw [Equiv.swap_apply_of_ne_of_ne hsi]
    · exact hnear.of_entry he
    · rintro rfl
      cases hfree.symm.trans hvs

theorem AllNear.moveUp : AllNear (moveUp ht i k) := by
  intro s hs
  have he : entries (Tas.moveUp ht i k) s = some (_, _) := FlowHte.entry_eq_some.mpr ⟨hs, rfl, rfl⟩
  rw [entries_moveUp_swap hv hfree] at he
  have hmoved := near_swap hfree hnear hk he
  rwa [Equiv.swap_apply_self] at hmoved

/-- A flow that was found once is found once after the move. -/
theorem FoundOnce.moveUp (hfound : FoundOnce flowst ht h key f) :
    FoundOnce flowst (moveUp ht i k) h key f := by
  obtain ⟨s, hs, he, hkey, honly⟩ := foundOnce_iff.1 hfound
  refine foundOnce_iff.2 ⟨Equiv.swap i k s, near_swap hfree hnear hk he, ?_, hkey,
    fun s' hs' => ?_⟩
  · rw [entries_moveUp_swap hv hfree, Equiv.swap_apply_self, he]
  · -- what matches after the move matched before it, in the other slot
    obtain ⟨_, g, he', hkey'⟩ := matchAt_iff.1 hs'
    rw [entries_moveUp_swap hv hfree] at he'
    rw [← honly _ (matchAt_iff.2 ⟨hnear.of_entry he', g, he', hkey'⟩), Equiv.swap_apply_self]

end Move

/-! ### The moves of an insertion -/

/-- All flows that are found once in the first table are found once in the second. -/
def KeepsFound (ht ht' : Slot → FlowHte) : Prop :=
  ∀ flowst hash key f, FoundOnce flowst ht hash key f → FoundOnce flowst ht' hash key f

/-- The entries behind the neighbourhood of `h`, up to the first free slot, do not store less than
their distance. Entries of the neighbourhood are moved only by an insertion that succeeds. -/
def HopRoom (ht : Slot → FlowHte) (h : U32) : Prop :=
  ∀ d < 5 * flowhtNbsz - 1, flowhtNbsz ≤ d →
    (∀ e ≤ d, (ht (homeSlot h + BitVec.ofNat 18 e)).valid = true) →
      RoomAt ht (homeSlot h + BitVec.ofNat 18 d)

instance (h : U32) : Decidable (HopRoom ht h) := by
  unfold HopRoom; infer_instance

theorem moveBack_inRange (hfuel : 1 ≤ fuel) (he : e < flowhtNbsz) :
    moveBack fuel ht j (j + BitVec.ofNat 18 e) =
      (ht, .found (j + BitVec.ofNat 18 e) (j + BitVec.ofNat 18 e - j).toNat) := by
  obtain ⟨fuel, rfl⟩ := Nat.exists_eq_add_of_le' hfuel
  have hn : flowhtNbsz = 4 := rfl
  unfold moveBack
  rw [if_neg fun ho => absurd ((outOfRange_iff (by omega)).mp ho) (by omega)]

/-- The slots before the free one hold valid entries: then the moves end, whatever distances the
entries store. If they end without a slot, only entries behind the neighbourhood were moved. -/
theorem moveBack_keeps (hfuel : 1 ≤ fuel) (he : e ≤ fuel + 2) (hlt : e < 2 ^ 18)
    (hbefore : ∀ d < e, (ht (j + BitVec.ofNat 18 d)).valid = true)
    (hfree : (ht (j + BitVec.ofNat 18 e)).valid = false) :
    (moveBack fuel ht j (j + BitVec.ofNat 18 e)).2 ≠ .stuck ∧
      (AllNear ht → (∀ d < e, flowhtNbsz ≤ d → RoomAt ht (j + BitVec.ofNat 18 d)) →
        (moveBack fuel ht j (j + BitVec.ofNat 18 e)).2 = .full →
          KeepsFound ht (moveBack fuel ht j (j + BitVec.ofNat 18 e)).1) := by
  induction fuel generalizing ht e with
  | zero => omega
  | succ fuel ih =>
    by_cases hrange : e < flowhtNbsz
    · rw [moveBack_inRange hfuel hrange]
      exact ⟨nofun, fun _ _ => nofun⟩
    · have hr : 4 ≤ e := Nat.le_of_not_lt hrange
      have hvalid : ∀ m, 1 ≤ m → m ≤ flowhtNbsz →
          (ht (j + BitVec.ofNat 18 e - BitVec.ofNat 18 m)).valid = true := by
        intro m h₁ h₂
        have h₂ : m ≤ 4 := h₂
        rw [slot_sub (by omega)]
        exact hbefore (e - m) (by omega)
      unfold moveBack
      rw [if_pos ((outOfRange_iff hlt).mpr hr)]
      obtain hnone | ⟨m, hm₁, hm₂, hat, hdist⟩ := findMovable_cases le_rfl hvalid
      · rw [hnone]
        exact ⟨by simp, fun _ _ _ _ _ _ _ hfound => hfound⟩
      · have hm₄ : m ≤ 4 := hm₂
        rw [hat]
        dsimp only
        rw [if_neg (by simp [hfree]), slot_sub (by omega)]
        rw [slot_sub (by omega)] at hdist
        have hv := hbefore (e - m) (by omega)
        have hsame : ∀ d < e - m, moveUp ht (j + BitVec.ofNat 18 (e - m)) (j + BitVec.ofNat 18 e)
            (j + BitVec.ofNat 18 d) = ht (j + BitVec.ofNat 18 d) := fun d hd =>
          moveUp_of_ne (slot_ne (by omega) (by omega) (by omega))
            (slot_ne (by omega) (by omega) (by omega))
        have hfreed : (moveUp ht (j + BitVec.ofNat 18 (e - m)) (j + BitVec.ofNat 18 e)
            (j + BitVec.ofNat 18 (e - m))).valid = false := by
          unfold moveUp
          rw [Function.update_self]
          exact FlowHte.valid_zero
        obtain ⟨hends, hkeeps⟩ := ih (by omega) (by omega) (by omega)
          (fun d hd => by rw [hsame d hd]; exact hbefore d (by omega)) hfreed
        refine ⟨hends, fun hnear hroom hfull flowst hash key f hfound => ?_⟩
        by_cases hin : e - m < flowhtNbsz
        · rw [moveBack_inRange (by omega) hin] at hfull
          cases hfull
        · have hroom' := (hroom (e - m) (by omega) (Nat.le_of_not_lt hin)).near hdist
          rw [add_assoc, ← BitVec.ofNat_add, Nat.sub_add_cancel (by omega)] at hroom'
          refine hkeeps (hnear.moveUp hv hfree hroom') (fun d hd hle => ?_) hfull _ _ _ _
            (hfound.moveUp hv hfree hnear hroom')
          unfold RoomAt
          rw [hsame d hd]
          exact hroom d (by omega) hle

/-- A flow state of its own for one flow. -/
def ownKey (f : U32) : U32 → FlowState := fun g =>
  if g = f then { (default : FlowState) with localPort := 1 } else default

theorem eq_of_ownKey {g : U32} (h : (ownKey f g).key = ⟨0, 1, 0, 0⟩) : g = f := by
  by_contra hg
  unfold ownKey at h
  rw [if_neg hg] at h
  exact absurd h (by decide)

/-- Slots 0 to 3 hold four entries of the hash 0, slots 4 to 6 one entry each. The one in slot 4 is
of the hash `h`, and stores that it is at the slot of its hash. -/
def crowdedTable (h : U32) : Slot → FlowHte := fun s =>
  if s = 0 then ⟨hteWord 0 10, 0⟩ else if s = 1 then ⟨hteWord 1 11, 0⟩
  else if s = 2 then ⟨hteWord 2 12, 0⟩ else if s = 3 then ⟨hteWord 3 13, 0⟩
  else if s = 4 then ⟨hteWord 0 14, h⟩ else if s = 5 then ⟨hteWord 0 15, 5⟩
  else if s = 6 then ⟨hteWord 0 16, 6⟩ else ⟨0, 0⟩

theorem crowdedTable_near (hh : NearHash 4 h) : AllNear (crowdedTable h) := by
  intro s hs
  unfold crowdedTable at hs ⊢
  split_ifs at hs ⊢ with h0 h1 h2 h3 h4 h5 h6
  · rw [h0]; decide
  · rw [h1]; decide
  · rw [h2]; decide
  · rw [h3]; decide
  · rw [h4]; exact hh
  · rw [h5]; decide
  · rw [h6]; decide
  · cases hs

/-- The flow in slot 4 is found, and only there. -/
theorem crowdedTable_found (hh : NearHash 4 h) :
    FoundOnce (ownKey 14) (crowdedTable h) h ⟨0, 1, 0, 0⟩ 14 := by
  obtain ⟨hv, hf⟩ := @hteWord_entry 0 14 h (by decide) (by decide)
  refine foundOnce_iff.2 ⟨4, hh, FlowHte.entry_eq_some.mpr ⟨hv, hf, rfl⟩, by decide, fun s hs => ?_⟩
  obtain ⟨_, g, he, hkey⟩ := matchAt_iff.1 hs
  rw [eq_of_ownKey hkey] at he
  unfold entries crowdedTable at he
  split_ifs at he with h0 h1 h2 h3 h4 h5 h6
  all_goals first
    | exact h4
    | cases (Prod.mk.inj (Option.some.inj he)).1
    | cases he

end Tas
