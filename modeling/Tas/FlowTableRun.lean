import Tas.Hopscotch

/-! Runs of the slow path on the flow table: adding, disabling and freeing connections. -/
namespace Tas

open Function Relation List

open Probe (Stores)

variable {ht : Slot → FlowHte} {flowst : U32 → FlowState} {k s : Slot} {n : ℕ} {h f : U32}
  {key : FlowKey} {hash : FlowKey → U32}

/-! ### What the searches find -/

theorem findFlow_some (hf : findFlow flowst ht h key k n = some f) :
    ∃ d < n, entries ht (k + BitVec.ofNat 18 d) = some (f, h) ∧ (flowst f).key = key := by
  induction n generalizing k with
  | zero => simp [findFlow] at hf
  | succ n ih =>
    unfold findFlow at hf
    split_ifs at hf with hm
    · obtain ⟨hv, hh, hkey⟩ := hm
      obtain rfl : (ht k).fid = f := Option.some.inj hf
      refine ⟨0, by omega, ?_, hkey⟩
      rw [BitVec.add_zero]
      exact FlowHte.entry_eq_some.mpr ⟨hv, rfl, hh⟩
    · obtain ⟨d, hd, he, hkey⟩ := ih hf
      refine ⟨d + 1, by omega, ?_, hkey⟩
      rw [slot_add_succ]
      exact he

theorem findFlow_none (hf : findFlow flowst ht h key k n = none) :
    ∀ d < n, ¬ (entries ht (k + BitVec.ofNat 18 d) = some (f, h) ∧ (flowst f).key = key) := by
  induction n generalizing k with
  | zero => exact fun d hd => absurd hd (Nat.not_lt_zero d)
  | succ n ih =>
    unfold findFlow at hf
    split_ifs at hf with hm
    rintro d hd ⟨he, hkey⟩
    cases d with
    | zero =>
      obtain ⟨hv, rfl, hh⟩ := FlowHte.entry_eq_some.mp he
      simp only [BitVec.add_zero] at hv hh hkey
      exact hm ⟨hv, hh, hkey⟩
    | succ d =>
      rw [slot_add_succ] at he
      exact ih hf d (by omega) ⟨he, hkey⟩

theorem flowSlotClear_cases :
    (∃ s, entries ht s = some (f, h) ∧ (flowSlotClear ht h f k n).2 = true ∧
      entries (flowSlotClear ht h f k n).1 = update (entries ht) s none) ∨
    (flowSlotClear ht h f k n = (ht, false) ∧
      ∀ d < n, entries ht (k + BitVec.ofNat 18 d) ≠ some (f, h)) := by
  induction n generalizing k with
  | zero => exact Or.inr ⟨rfl, fun d hd => absurd hd (Nat.not_lt_zero d)⟩
  | succ n ih =>
    unfold flowSlotClear
    split_ifs with hm
    · left
      refine ⟨k, FlowHte.entry_eq_some.mpr ⟨hm.1, hm.2.2, hm.2.1⟩, rfl, ?_⟩
      funext s
      by_cases hs : s = k
      · subst hs
        simp only [entries, update_self]
        exact FlowHte.entry_eq_none.mpr FlowHte.valid_cleared
      · simp only [entries, update_of_ne hs]
    · rcases ih (k := k + 1) with hfound | ⟨heq, hnone⟩
      · exact Or.inl hfound
      · refine Or.inr ⟨heq, fun d hd he => ?_⟩
        cases d with
        | zero =>
          obtain ⟨hv, hf, hh⟩ := FlowHte.entry_eq_some.mp he
          simp only [BitVec.add_zero] at hv hf hh
          exact hm ⟨hv, hh, hf⟩
        | succ d =>
          rw [slot_add_succ] at he
          exact hnone d (by omega) he

/-- A slot near a hash is one of those the searches visit. -/
theorem NearHash.exists_offset (hs : NearHash s h) :
    ∃ d < flowhtNbsz, s = homeSlot h + BitVec.ofNat 18 d :=
  ⟨(s - homeSlot h).toNat, hs, (Word.add_ofNat_toNat_sub _ _).symm⟩

/-! ### Runs -/

/-- The tables with the connections that were added and not disabled since. -/
structure TableRun where
  table : FlowTable
  live : U32 → Option FlowKey

inductive TableEvent
  | add (c : ConnArgs)
  | disable (f : U32)
  | free (f : U32)

namespace TableRun

def step (hash : FlowKey → U32) (σ : TableRun) : TableEvent → TableRun
  | .add c =>
    match nicifConnectionAdd hash σ.table c with
    | (τ, .ok f) => ⟨τ, update σ.live f (some c.key)⟩
    | (τ, _) => ⟨τ, σ.live⟩
  | .disable f => ⟨(nicifConnectionDisable hash σ.table f).1, update σ.live f none⟩
  | .free f => ⟨nicifConnectionFree σ.table f, σ.live⟩

/-- Connections are added for new 4-tuples, where relocation meets no entry that was relocated
before, and ids are freed once, after their connection was disabled. -/
def Allowed (hash : FlowKey → U32) (σ : TableRun) : TableEvent → Prop
  | .add c => (∀ f, σ.live f ≠ some c.key) ∧ HopFresh σ.table.flowht (hash c.key)
  | .disable _ => True
  | .free f => f.toNat < flowstNum ∧ σ.live f = none ∧ f ∉ σ.table.freeIds

def Step (hash : FlowKey → U32) (σ σ' : TableRun) : Prop :=
  ∃ e, σ.Allowed hash e ∧ σ' = σ.step hash e

/-- Flow ids from `k` on, in order. -/
def idList (k : ℕ) : ℕ → List U32
  | 0 => []
  | n + 1 => BitVec.ofNat 32 k :: idList (k + 1) n

/-- After `flow_id_alloc_init`, with an empty table and any contents of the flow states. -/
def start (flowst : U32 → FlowState) : TableRun :=
  ⟨⟨flowst, fun _ => ⟨0, 0⟩, idList 0 flowstNum⟩, fun _ => none⟩

variable {σ σ' : TableRun} {live : U32 → Option FlowKey} {o : Option FlowKey} {c : ConnArgs}

theorem idList_spec {i : ℕ} (hi : i + n ≤ flowstNum) :
    (idList i n).Nodup ∧ ∀ f ∈ idList i n, i ≤ f.toNat ∧ f.toNat < flowstNum := by
  induction n generalizing i with
  | zero => exact ⟨nodup_nil, fun f hf => absurd hf not_mem_nil⟩
  | succ n ih =>
    obtain ⟨hnodup, hrange⟩ := ih (i := i + 1) (by omega)
    have hnum : flowstNum = 131072 := rfl
    have hi' : (BitVec.ofNat 32 i).toNat = i := Word.toNat_ofNat_of_lt (by omega)
    constructor
    · refine nodup_cons.mpr ⟨fun hmem => ?_, hnodup⟩
      have := (hrange _ hmem).1
      omega
    · intro f hf
      rcases mem_cons.mp hf with rfl | hf
      · omega
      · have := hrange f hf
        omega

/-- The table stores the live connections under their hashes, and ids that are free are not in
use. -/
structure TableOk (hash : FlowKey → U32) (σ : TableRun) : Prop where
  stores : Stores NearHash (entries σ.table.flowht) fun f => (σ.live f).map hash
  keys : ∀ f key, σ.live f = some key → (σ.table.flowst f).key = key
  ids : ∀ f ∈ σ.table.freeIds, f.toNat < flowstNum ∧ σ.live f = none
  nodup : σ.table.freeIds.Nodup

/-- No two live connections have the same 4-tuple, either. -/
structure Inv (hash : FlowKey → U32) (σ : TableRun) : Prop extends TableOk hash σ where
  distinct : ∀ f g key, σ.live f = some key → σ.live g = some key → f = g

theorem inv_start : Inv hash (start flowst) where
  stores := by
    have hempty : entries (start flowst).table.flowht = fun _ => none := by
      funext s
      exact FlowHte.entry_eq_none.mpr FlowHte.valid_zero
    rw [hempty]
    exact Stores.empty
  keys f key h := by simp [start] at h
  distinct f g key h := by simp [start] at h
  ids f hf := ⟨((idList_spec (Nat.zero_add _).le).2 f hf).2, rfl⟩
  nodup := (idList_spec (Nat.zero_add _).le).1

theorem map_update :
    (fun g => (update live f o g).map hash) =
      update (fun g => (live g).map hash) f (o.map hash) := by
  funext g
  by_cases hg : g = f
  · subst hg
    rw [update_self, update_self]
  · rw [update_of_ne hg, update_of_ne hg]

/-- Distinct keys stay distinct under an update that brings none of the present ones. -/
theorem distinct_update (h : ∀ f g key, live f = some key → live g = some key → f = g)
    (ho : ∀ key, o = some key → ∀ g, live g ≠ some key) (f₁ f₂ : U32) (key : FlowKey)
    (h₁ : update live f o f₁ = some key) (h₂ : update live f o f₂ = some key) : f₁ = f₂ := by
  by_cases e₁ : f₁ = f <;> by_cases e₂ : f₂ = f
  · rw [e₁, e₂]
  · subst e₁
    rw [update_self] at h₁
    rw [update_of_ne e₂] at h₂
    exact absurd h₂ (ho key h₁ f₂)
  · subst e₂
    rw [update_self] at h₂
    rw [update_of_ne e₁] at h₁
    exact absurd h₁ (ho key h₂ f₁)
  · rw [update_of_ne e₁] at h₁
    rw [update_of_ne e₂] at h₂
    exact h f₁ f₂ key h₁ h₂

/-- Adding a connection fails and moves entries at most, or takes the next free id. -/
theorem add_cases (hinv : TableOk hash σ) (hhop : HopFresh σ.table.flowht (hash c.key)) :
    (∃ ht, nicifConnectionAdd hash σ.table c = ({ σ.table with flowht := ht }, .failed) ∧
      Stores NearHash (entries ht) fun f => (σ.live f).map hash) ∨
    (∃ f ids ht, σ.table.freeIds = f :: ids ∧
      nicifConnectionAdd hash σ.table c =
        (⟨update σ.table.flowst f (connectionInit (σ.table.flowst f) c), ht, ids⟩,
          .ok f) ∧
      Stores NearHash (entries ht)
        (update (fun f => (σ.live f).map hash) f (some (hash c.key)))) := by
  unfold nicifConnectionAdd
  cases hids : σ.table.freeIds with
  | nil => exact Or.inl ⟨σ.table.flowht, rfl, hinv.stores⟩
  | cons f ids =>
    have hf := hinv.ids f (by rw [hids]; exact mem_cons_self)
    have hnum : flowstNum = 131072 := rfl
    obtain ⟨ht, r, halloc, hstores, rfl | ⟨d, hd, rfl, hfree⟩⟩ :=
      flowSlotAlloc_spec hinv.stores hhop
    · refine Or.inl ⟨ht, ?_, hstores⟩
      simp only [halloc, hids]
    · right
      refine ⟨f, ids, update ht (homeSlot (hash c.key) + BitVec.ofNat 18 d)
        ⟨hteWord (BitVec.ofNat 32 d) f, hash c.key⟩, rfl, ?_, ?_⟩
      · simp only [halloc, hd, not_true, if_false]
      · have hd₄ : d < 4 := hd
        obtain ⟨hv, hfid⟩ := hteWord_entry (d := BitVec.ofNat 32 d) (f := f) (h := hash c.key)
          (by rw [Word.toNat_ofNat_of_lt (by omega)]; omega) (by omega)
        have hentries : entries (update ht (homeSlot (hash c.key) + BitVec.ofNat 18 d)
            ⟨hteWord (BitVec.ofNat 32 d) f, hash c.key⟩) =
            update (entries ht) (homeSlot (hash c.key) + BitVec.ofNat 18 d)
              (some (f, hash c.key)) := by
          funext s
          by_cases hs : s = homeSlot (hash c.key) + BitVec.ofNat 18 d
          · subst hs
            simp only [entries, update_self]
            exact FlowHte.entry_eq_some.mpr ⟨hv, hfid, rfl⟩
          · simp only [entries, update_of_ne hs]
        rw [hentries]
        refine hstores.insert (FlowHte.entry_eq_none.mpr hfree) (by simp [hf.2]) ?_
        unfold NearHash
        rw [Word.toNat_add_ofNat_sub _ (by omega)]
        exact hd

theorem tableOk_add (hinv : TableOk hash σ)
    (hhop : HopFresh σ.table.flowht (hash c.key)) : TableOk hash (σ.step hash (.add c)) := by
  rcases add_cases hinv hhop with ⟨ht, hadd, hstores⟩ | ⟨f, ids, ht, hids, hadd, hstores⟩
  · simp only [step, hadd]
    exact { hinv with stores := hstores }
  · have hnodup := hinv.nodup
    rw [hids, nodup_cons] at hnodup
    simp only [step, hadd]
    exact {
      stores := by
        rw [map_update]
        exact hstores
      keys := by
        intro g key hg
        dsimp only at hg ⊢
        by_cases hgf : g = f
        · subst hgf
          rw [update_self] at hg
          rw [update_self, ← Option.some.inj hg]
          rfl
        · rw [update_of_ne hgf] at hg
          rw [update_of_ne hgf]
          exact hinv.keys g key hg
      ids := by
        intro g hg
        obtain ⟨hlt, hlive⟩ := hinv.ids g (by rw [hids]; exact mem_cons_of_mem _ hg)
        have hgf : g ≠ f := by
          rintro rfl
          exact hnodup.1 hg
        dsimp only
        exact ⟨hlt, by rw [update_of_ne hgf, hlive]⟩
      nodup := hnodup.2 }

theorem inv_add (hinv : Inv hash σ) (hnew : ∀ f, σ.live f ≠ some c.key)
    (hhop : HopFresh σ.table.flowht (hash c.key)) : Inv hash (σ.step hash (.add c)) := by
  refine ⟨tableOk_add hinv.toTableOk hhop, ?_⟩
  rcases add_cases hinv.toTableOk hhop with ⟨ht, hadd, -⟩ | ⟨f, ids, ht, -, hadd, -⟩
  · simp only [step, hadd]
    exact hinv.distinct
  · simp only [step, hadd]
    exact distinct_update hinv.distinct fun key hkey => Option.some.inj hkey ▸ hnew

/-- The clearing of a live flow finds its entry; of any other flow it changes nothing. -/
theorem disable_cases (hinv : TableOk hash σ) :
    ((nicifConnectionDisable hash σ.table f).2 = true ↔ σ.live f ≠ none) ∧
      Stores NearHash (entries (nicifConnectionDisable hash σ.table f).1.flowht)
        (update (fun f => (σ.live f).map hash) f none) := by
  unfold nicifConnectionDisable
  dsimp only
  rcases @flowSlotClear_cases σ.table.flowht
    (homeSlot (hash ((σ.table.flowst f).setFlag flowstSlowpath).key)) flowhtNbsz
    (hash ((σ.table.flowst f).setFlag flowstSlowpath).key) f with
    ⟨s, hs, htrue, hentries⟩ | ⟨hclear, hnone⟩
  · rw [htrue, hentries]
    have hlive := hinv.stores.live s _ hs
    refine ⟨⟨fun _ hl => ?_, fun _ => rfl⟩, hinv.stores.remove hs⟩
    rw [hl] at hlive
    simp at hlive
  · rw [hclear]
    cases hl : σ.live f with
    | none =>
      refine ⟨by simp, ?_⟩
      rw [update_eq_self_iff.mpr (by simp [hl])]
      exact hinv.stores
    | some key =>
      obtain ⟨s, hs⟩ := hinv.stores.placed f (hash key) (by simp [hl])
      obtain ⟨d, hd, rfl⟩ := NearHash.exists_offset (hinv.stores.near s _ hs)
      have hkey : ((σ.table.flowst f).setFlag flowstSlowpath).key = key := hinv.keys f key hl
      rw [hkey] at hnone
      exact absurd hs (hnone d hd)

theorem tableOk_disable (hinv : TableOk hash σ) :
    TableOk hash (σ.step hash (.disable f)) where
  stores := by
    have h := (disable_cases (f := f) hinv).2
    unfold step
    rw [map_update]
    exact h
  keys := by
    intro g key hg
    change update σ.live f none g = some key at hg
    have hgf : g ≠ f := by
      rintro rfl
      simp at hg
    rw [update_of_ne hgf] at hg
    change (update σ.table.flowst f _ g).key = key
    rw [update_of_ne hgf]
    exact hinv.keys g key hg
  ids := by
    intro g hg
    obtain ⟨hlt, hlive⟩ := hinv.ids g hg
    refine ⟨hlt, ?_⟩
    change update σ.live f none g = none
    by_cases hgf : g = f
    · rw [hgf, update_self]
    · rw [update_of_ne hgf, hlive]
  nodup := hinv.nodup

theorem tableOk_free (hinv : TableOk hash σ) (hlt : f.toNat < flowstNum) (hlive : σ.live f = none)
    (hfree : f ∉ σ.table.freeIds) : TableOk hash (σ.step hash (.free f)) where
  stores := hinv.stores
  keys := hinv.keys
  ids := fun g hg => by
    rcases mem_cons.mp hg with rfl | hg
    · exact ⟨hlt, hlive⟩
    · exact hinv.ids g hg
  nodup := nodup_cons.mpr ⟨hfree, hinv.nodup⟩

theorem inv_step (hinv : Inv hash σ) (hs : Step hash σ σ') : Inv hash σ' := by
  obtain ⟨e, hallowed, rfl⟩ := hs
  cases e with
  | add c => exact inv_add hinv hallowed.1 hallowed.2
  | disable f =>
    exact ⟨tableOk_disable hinv.toTableOk,
      distinct_update hinv.distinct fun key hkey => by simp at hkey⟩
  | free f =>
    obtain ⟨hlt, hlive, hfree⟩ := hallowed
    exact ⟨tableOk_free hinv.toTableOk hlt hlive hfree, hinv.distinct⟩

theorem inv_of_reachable (h : ReflTransGen (Step hash) (start flowst) σ) : Inv hash σ := by
  induction h with
  | refl => exact inv_start
  | tail _ hs ih => exact inv_step ih hs

/-- A flow that the lookup finds is live under the 4-tuple. -/
theorem Inv.live_of_lookup (hinv : Inv hash σ)
    (hf : fastFlowsPacketFss hash σ.table key = some f) : σ.live f = some key := by
  obtain ⟨d, _, hs, hkey⟩ := findFlow_some hf
  have hlive := hinv.stores.live _ _ hs
  obtain ⟨key', hkey', -⟩ := Option.map_eq_some_iff.mp hlive
  rw [hkey', ← hkey, hinv.keys f key' hkey']

theorem Inv.lookup_live (hinv : Inv hash σ) (hf : σ.live f = some key) :
    fastFlowsPacketFss hash σ.table key = some f := by
  cases hl : fastFlowsPacketFss hash σ.table key with
  | some g => rw [hinv.distinct g f key (hinv.live_of_lookup hl) hf]
  | none =>
    obtain ⟨s, hs⟩ := hinv.stores.placed f (hash key) (by simp [hf])
    obtain ⟨d, hd, rfl⟩ := NearHash.exists_offset (hinv.stores.near s _ hs)
    exact absurd ⟨hs, hinv.keys f key hf⟩ (findFlow_none hl d hd)

theorem Inv.lookup_other (hinv : Inv hash σ) (hkey : ∀ f, σ.live f ≠ some key) :
    fastFlowsPacketFss hash σ.table key = none := by
  cases hl : fastFlowsPacketFss hash σ.table key with
  | some g => exact absurd (hinv.live_of_lookup hl) (hkey g)
  | none => rfl

/-- A connection whose 4-tuple the lookup does not know may be added. -/
theorem reachable_add (h : ReflTransGen (Step hash) (start flowst) σ)
    (hl : fastFlowsPacketFss hash σ.table c.key = none)
    (hhop : HopFresh σ.table.flowht (hash c.key)) :
    ReflTransGen (Step hash) (start flowst) (σ.step hash (.add c)) := by
  refine h.tail ⟨.add c, ⟨fun f hf => ?_, hhop⟩, rfl⟩
  rw [(inv_of_reachable h).lookup_live hf] at hl
  simp at hl

end TableRun

open TableRun in
/-- In every run in which relocation meets no entry that was relocated before, the lookup knows
exactly the live connections, and adding or disabling one succeeds on the table. -/
theorem flow_table_complete {σ : TableRun}
    (h : ReflTransGen (TableRun.Step hash) (TableRun.start flowst) σ) :
    (∀ f key, σ.live f = some key → fastFlowsPacketFss hash σ.table key = some f) ∧
    (∀ key, (∀ f, σ.live f ≠ some key) → fastFlowsPacketFss hash σ.table key = none) ∧
    (∀ f key, σ.live f = some key → (nicifConnectionDisable hash σ.table f).2 = true ∧
      ∀ s, let e := (nicifConnectionDisable hash σ.table f).1.flowht s
        ¬ (e.valid = true ∧ e.fid = f)) ∧
    (∀ c, σ.Allowed hash (.add c) → (nicifConnectionAdd hash σ.table c).2 ≠ .stuck) ∧
    (∀ s, (σ.table.flowht s).valid = true → NearHash s (σ.table.flowht s).flowHash) := by
  have hinv := inv_of_reachable h
  refine ⟨fun f key hf => hinv.lookup_live hf, fun key hkey => hinv.lookup_other hkey,
    fun f key hf => ?_, fun c hc => ?_, fun s hs => ?_⟩
  · obtain ⟨hiff, hstores⟩ := disable_cases (f := f) hinv.toTableOk
    refine ⟨hiff.mpr (by simp [hf]), fun s hs => ?_⟩
    have := hstores.live s (f, _) (FlowHte.entry_eq_some.mpr ⟨hs.1, hs.2, rfl⟩)
    simp at this
  · rcases add_cases hinv.toTableOk hc.2 with ⟨ht, hadd, -⟩ | ⟨f, ids, ht, -, hadd, -⟩
    · rw [hadd]
      simp
    · rw [hadd]
      simp
  · have hentry : entries σ.table.flowht s =
        some ((σ.table.flowht s).fid, (σ.table.flowht s).flowHash) :=
      FlowHte.entry_eq_some.mpr ⟨hs, rfl, rfl⟩
    have hnear := hinv.stores.near s _ hentry
    exact hnear

/-! ### Entries that were relocated before -/

/-- A connection from port `port`, told apart by its remote port. -/
def portConn (port remote : U16) : ConnArgs :=
  { (default : ConnArgs) with portLocal := port, portRemote := remote }

/-- The hash of a 4-tuple is its local port. -/
def portHash (key : FlowKey) : U32 := key.localPort.setWidth 32

def addAll (cs : List ConnArgs) : TableRun :=
  cs.foldl (fun σ c => σ.step portHash (.add c)) (TableRun.start fun _ => default)

/-- The fifth connection relocates the first. -/
def relocated : TableRun :=
  addAll [portConn 1 0, portConn 0 1, portConn 0 2, portConn 0 3, portConn 0 4]

theorem relocated_found :
    fastFlowsPacketFss portHash relocated.table (portConn 1 0).key = some 0 := by
  have h₀ : ReflTransGen (TableRun.Step portHash) (TableRun.start fun _ => default)
      (addAll []) := .refl
  have h₁ := TableRun.reachable_add (c := portConn 1 0) h₀ (by decide +kernel) (by decide +kernel)
  have h₂ := TableRun.reachable_add (c := portConn 0 1) h₁ (by decide +kernel) (by decide +kernel)
  have h₃ := TableRun.reachable_add (c := portConn 0 2) h₂ (by decide +kernel) (by decide +kernel)
  have h₄ := TableRun.reachable_add (c := portConn 0 3) h₃ (by decide +kernel) (by decide +kernel)
  have h₅ := TableRun.reachable_add (c := portConn 0 4) h₄ (by decide +kernel) (by decide +kernel)
  exact (flow_table_complete h₅).1 0 _ (by decide +kernel)

/-- The sixth connection relocates the first once more, out of reach of the lookup: the copied
entry still stores the distance it had before it was first moved. -/
theorem relocated_twice_lost : let σ := relocated.step portHash (.add (portConn 1 5))
    σ.live 0 = some (portConn 1 0).key ∧ (σ.table.flowht 5).fid = 0 ∧
      (σ.table.flowht 5).valid = true ∧ ¬ NearHash 5 (σ.table.flowht 5).flowHash ∧
      fastFlowsPacketFss portHash σ.table (portConn 1 0).key = none ∧
      (nicifConnectionDisable portHash σ.table 0).2 = false := by
  decide +kernel

end Tas
