import Tas.Sessions

/-! Flow ids and the entries of the flow table that belong to connections: what is freed is not in
use any more. -/
namespace Tas

open Outcome SlowPath TableRun Function List

variable {cfg : SlowCfg} {c d : ℕ} {f : U32} {s s' : SlowPath} {e : SlowEvent}
  {live : U32 → Option FlowKey}

/-- The connection holds flow id `f`. -/
structure HoldsFlow (x : Connection) (f : U32) : Prop where
  live : x.live = true
  flowId : x.flowId = f
  status : x.status.holds = true

/-- The flow table has the flows `live`, each of which a connection holds that is not closed, and
flow ids are held or free. -/
structure FlowsOk (cfg : SlowCfg) (s : SlowPath) (live : U32 → Option FlowKey) : Prop where
  table : TableOk cfg.flowHash ⟨s.nic, live⟩
  entry : ∀ f key, live f = some key → ∃ c, s.owner f = some c ∧ (s.mem c).status ≠ .closed
  owned : ∀ f c, s.owner f = some c →
    HoldsFlow (s.mem c) f ∧ f.toNat < flowstNum ∧ f ∉ s.nic.freeIds
  holder : ∀ c, (s.mem c).live = true → HasFlow s.tables c (s.mem c) →
    s.owner (s.mem c).flowId = some c
  conserved : ∀ f, f.toNat < flowstNum → f ∈ s.nic.freeIds ∨ s.owner f ≠ none

/-- What a step does to the flow ids: nothing, it gives one to a connection, or it takes the one of
a connection that it frees. -/
inductive FlowMove (s s' : SlowPath) : Prop
  | stay (howner : s'.owner = s.owner) (hids : s'.nic.freeIds = s.nic.freeIds)
  | take (f : U32) (c : ℕ) (hids : s.nic.freeIds = f :: s'.nic.freeIds)
    (howner : s'.owner = update s.owner f (some c))
  | give (f : U32) (c : ℕ) (hown : s.owner f = some c)
    (hentry : ∀ k, ¬ ((s.nic.flowht k).valid = true ∧ (s.nic.flowht k).fid = f))
    (hids : s'.nic.freeIds = f :: s.nic.freeIds)
    (howner : s'.owner = update s.owner f none) (hdead : (s'.mem c).live = false)

/-- The step keeps the flows in order. -/
def FlowStepOk (cfg : SlowCfg) (s s' : SlowPath) : Prop :=
  FlowMove s s' ∧ ∃ live, FlowsOk cfg s' live

/-! ### Connections that keep their flows -/

/-- Besides what the lists of connections need, insertions into the flow table do not move entries
that were moved before. -/
structure FlowSafe (cfg : SlowCfg) (s : SlowPath) (e : SlowEvent) : Prop
    extends CcSafe cfg s e where
  adds : ∀ key, Adds cfg s e key → HopFresh s.nic.flowht (cfg.flowHash key)

section

variable (h : FlowsOk cfg s live)
include h

theorem FlowsOk.unowned (hc : (s.mem c).live = false ∨
    (s.mem c).status.holds = false) (f : U32) : s.owner f ≠ some c := by
  intro hf
  have hholds := (h.owned f c hf).1
  rcases hc with hc | hc
  · cases hc.symm.trans hholds.live
  · cases hc.symm.trans hholds.status

omit h in
theorem FlowSafe.flowless (h : FlowSafe cfg s e) (hx : Flowless cfg s e c) :
    (s.mem c).live = false ∨ (s.mem c).status.holds = false := by
  rcases hx with hx | hx | hx
  · exact .inl hx
  · exact .inr hx
  · exact .inr (by rw [h.accepts c hx]; rfl)

/-- The table has no room, or no flow id is left. -/
theorem tableOk_addFailed {a : ConnArgs} {τ : FlowTable}
    (hhop : HopFresh s.nic.flowht (cfg.flowHash a.key))
    (hadd : nicifConnectionAdd cfg.flowHash s.nic a = (τ, .failed)) :
    TableOk cfg.flowHash ⟨τ, live⟩ ∧ τ.freeIds = s.nic.freeIds := by
  have htable := tableOk_add h.table hhop
  unfold TableRun.step at htable
  dsimp only at htable
  rw [hadd] at htable
  refine ⟨htable, ?_⟩
  rcases add_cases h.table hhop with ⟨ht, hfail, -⟩ | ⟨f, ids, ht, -, hok, -⟩
  · have hτ := (Prod.mk.inj (hadd.symm.trans hfail)).1
    rw [hτ]
  · cases hadd.symm.trans hok

theorem FlowsOk.no_entry (hf : live f = none) (k : Slot) :
    ¬ ((s.nic.flowht k).valid = true ∧ (s.nic.flowht k).fid = f) := by
  rintro ⟨hv, hfid⟩
  have hlive := h.table.stores.live k (f, (s.nic.flowht k).flowHash)
    (FlowHte.entry_eq_some.mpr ⟨hv, hfid, rfl⟩)
  simp [hf] at hlive

section

variable (hcc : CcInv cfg s) (hsafe : FlowSafe cfg s e)
include hcc hsafe

/-- A connection that has a flow is not destroyed by a failure. -/
theorem FlowsOk.not_fails {r : FailReason} (hf : s.owner f = some c) : ¬ ConnFails cfg s e c r := by
  have hstate : ∀ st, (s.mem c).status = st → st.holds = false → False := fun st hx hst =>
    h.unowned (.inr (by rw [hx]; exact hst)) f hf
  intro hr
  cases hr with
  | notSynAck _ hx | addFailed _ hx | retries hx => exact hstate _ hx rfl
  | synNoTs hlookup hx hsyn hparse =>
    exact (hsafe.fails c _ (.synNoTs hlookup hx hsyn hparse)).2 rfl
  | unresolved hq hcomp hx =>
    rcases hx with harp | hreg
    · exact hstate _ harp rfl
    · exact hcomp ((hcc.ok c (h.owned f c hf).1.live).comp hreg)

/-- The connection keeps the flow it has, and has no other. -/
theorem FlowsOk.keeps (hk : FlowKeeps cfg s e s' c) :
    (∀ f, s.owner f = some c → HoldsFlow (s'.mem c) f ∧
      ((s.mem c).status ≠ .closed → (s'.mem c).status ≠ .closed)) ∧
    ((s'.mem c).live = true → HasFlow s'.tables c (s'.mem c) →
      s.owner (s'.mem c).flowId = some c) := by
  cases hk with
  | same hlive hid hstatus hreg =>
    refine ⟨fun f hf => ?_, fun hl hx => ?_⟩
    · have hholds := (h.owned f c hf).1
      rw [hstatus]
      exact ⟨⟨hlive.trans hholds.live, hid.trans hholds.flowId, by rw [hstatus, hholds.status]⟩,
        fun hx => hx⟩
    · unfold HasFlow at hx
      rw [hstatus] at hx
      rw [hid]
      exact h.holder c (hlive.symm.trans hl) (hx.imp_right (Or.imp_right (And.imp_right hreg)))
  | none hx hy =>
    exact ⟨fun f hf => (h.unowned (hsafe.flowless hx) f hf).elim, fun hl hf => (hy hl hf).elim⟩
  | answers hlive hid hx hreg hy =>
    refine ⟨fun f hf => ?_, fun hl _ => ?_⟩
    · have hholds := (h.owned f c hf).1
      rw [hy]
      exact ⟨⟨hlive.trans hholds.live, hid.trans hholds.flowId, by rw [hy]; rfl⟩, fun _ => nofun⟩
    · rw [hid]
      exact h.holder c (hlive.symm.trans hl) (.inr (.inr ⟨hx, hreg⟩))
  | fails room hlive hid hy hroom =>
    refine ⟨fun f hf => ?_, fun _ hx => ?_⟩
    · have hholds := (h.owned f c hf).1
      have hkept : room = false := Bool.eq_false_of_not_eq_true fun ht =>
        (hroom ht).elim fun r => h.not_fails hcc hsafe hf
      rw [hkept, hholds.live] at hlive
      rw [hy]
      exact ⟨⟨hlive, hid.trans hholds.flowId, by rw [hy]; rfl⟩, fun _ => nofun⟩
    · unfold HasFlow at hx
      rw [hy] at hx
      rcases hx with hx | hx | ⟨hx, -⟩ <;> cases hx

theorem flowsOk_stay
    (htable : TableOk cfg.flowHash ⟨s'.nic, live⟩) (hids : s'.nic.freeIds = s.nic.freeIds)
    (howner : s'.owner = s.owner) (hkeep : ∀ d, FlowKeeps cfg s e s' d) : FlowsOk cfg s' live := by
  have hk := fun d => h.keeps hcc hsafe (hkeep d)
  refine ⟨htable, fun f key hf => ?_, fun f d hd => ?_, fun d hl hd => ?_, ?_⟩
  · obtain ⟨d, hd, hstatus⟩ := h.entry f key hf
    exact ⟨d, by rw [howner]; exact hd, ((hk d).1 f hd).2 hstatus⟩
  · rw [howner] at hd
    rw [hids]
    exact ⟨((hk d).1 f hd).1, (h.owned f d hd).2⟩
  · rw [howner]
    exact (hk d).2 hl hd
  · rw [hids, howner]
    exact h.conserved

/-! ### Changes to the flow table -/

/-- A flow id is given to a connection that has none. -/
theorem flowsOk_take {a : ConnArgs}
    (ha : Adds cfg s e a.key) (hadd : nicifConnectionAdd cfg.flowHash s.nic a = (s'.nic, .ok f))
    (howner : s'.owner = update s.owner f (some c)) (hx : Flowless cfg s e c)
    (hholds : HoldsFlow (s'.mem c) f) (hopen : (s'.mem c).status ≠ .closed)
    (hkeep : ∀ d, d ≠ c → FlowKeeps cfg s e s' d) : FlowStepOk cfg s s' := by
  have hhop := hsafe.adds _ ha
  have hno := h.unowned (hsafe.flowless hx)
  have hk := fun d hd => h.keeps hcc hsafe (hkeep d hd)
  have htable := tableOk_add h.table hhop
  have hids : s.nic.freeIds = f :: s'.nic.freeIds := by
    rcases add_cases h.table hhop with ⟨ht, hfail, -⟩ | ⟨g, ids, ht, hids, hok, -⟩
    · cases (Prod.mk.inj (hadd.symm.trans hfail)).2
    · obtain ⟨hτ, hg⟩ := Prod.mk.inj (hadd.symm.trans hok)
      cases hg
      rw [hτ]
      exact hids
  unfold TableRun.step at htable
  dsimp only at htable
  rw [hadd] at htable
  have hmem : f ∈ s.nic.freeIds := by
    rw [hids]
    exact mem_cons_self
  have hnodup : f ∉ s'.nic.freeIds := (nodup_cons.1 (hids ▸ h.table.nodup)).1
  have hnone : ∀ d, s.owner f ≠ some d := fun d hd => (h.owned f d hd).2.2 hmem
  refine ⟨.take f c hids howner, update live f (some a.key), htable, fun g key hg => ?_,
    fun g d hd => ?_, fun d hl hd => ?_, fun g hg => ?_⟩
  · by_cases hgf : g = f
    · subst hgf
      exact ⟨c, by rw [howner, update_self], hopen⟩
    · rw [update_of_ne hgf] at hg
      obtain ⟨d, hd, hstatus⟩ := h.entry g key hg
      have hdc : d ≠ c := fun he => hno g (he ▸ hd)
      exact ⟨d, by rw [howner, update_of_ne hgf]; exact hd, ((hk d hdc).1 g hd).2 hstatus⟩
  · rw [howner] at hd
    by_cases hgf : g = f
    · subst hgf
      rw [update_self] at hd
      cases hd
      exact ⟨hholds, (h.table.ids g hmem).1, hnodup⟩
    · rw [update_of_ne hgf] at hd
      obtain ⟨-, hlt, hfree⟩ := h.owned g d hd
      refine ⟨((hk d fun he => hno g (he ▸ hd)).1 g hd).1, hlt, fun hg => hfree ?_⟩
      rw [hids]
      exact mem_cons_of_mem _ hg
  · rw [howner]
    by_cases hdc : d = c
    · subst hdc
      rw [hholds.flowId, update_self]
    · have hd := (hk d hdc).2 hl hd
      have hne : (s'.mem d).flowId ≠ f := fun he => hnone d (he ▸ hd)
      rw [update_of_ne hne]
      exact hd
  · rw [howner]
    by_cases hgf : g = f
    · subst hgf
      rw [update_self]
      exact .inr (by simp)
    · rw [update_of_ne hgf]
      refine (h.conserved g hg).imp_left fun hmem => ?_
      rw [hids] at hmem
      exact (mem_cons.1 hmem).resolve_left hgf

/-- The entry of a flow is invalidated, and its connection closed. -/
theorem flowsOk_disable
    (hown : s.owner f = some c) (hnic : s'.nic = (nicifConnectionDisable cfg.flowHash s.nic f).1)
    (howner : s'.owner = s.owner) (hholds : HoldsFlow (s'.mem c) f)
    (hkeep : ∀ d, d ≠ c → FlowKeeps cfg s e s' d) : FlowStepOk cfg s s' := by
  have hk := fun d hd => h.keeps hcc hsafe (hkeep d hd)
  have hids : s'.nic.freeIds = s.nic.freeIds := by
    rw [hnic]
    rfl
  have hself : ∀ g, s.owner g = some c → g = f := fun g hg =>
    (h.owned g c hg).1.flowId.symm.trans (h.owned f c hown).1.flowId
  have htable := tableOk_disable (f := f) h.table
  refine ⟨.stay howner hids, update live f none, by rw [hnic]; exact htable, fun g key hg => ?_,
    fun g d hd => ?_, fun d hl hd => ?_, ?_⟩
  · have hgf : g ≠ f := by
      rintro rfl
      rw [update_self] at hg
      cases hg
    rw [update_of_ne hgf] at hg
    obtain ⟨d, hd, hstatus⟩ := h.entry g key hg
    have hdc : d ≠ c := fun he => hgf (hself g (he ▸ hd))
    exact ⟨d, by rw [howner]; exact hd, ((hk d hdc).1 g hd).2 hstatus⟩
  · rw [howner] at hd
    rw [hids]
    refine ⟨?_, (h.owned g d hd).2⟩
    by_cases hdc : d = c
    · subst hdc
      rw [hself g hd]
      exact hholds
    · exact ((hk d hdc).1 g hd).1
  · rw [howner]
    by_cases hdc : d = c
    · subst hdc
      rw [hholds.flowId]
      exact hown
    · exact (hk d hdc).2 hl hd
  · rw [hids, howner]
    exact h.conserved

/-- A closed connection is freed, and its flow id returned. -/
theorem flowsOk_give (hown : s.owner f = some c)
    (hclosed : (s.mem c).status = .closed) (hnic : s'.nic = nicifConnectionFree s.nic f)
    (howner : s'.owner = update s.owner f none) (hdead : (s'.mem c).live = false)
    (hkeep : ∀ d, d ≠ c → FlowKeeps cfg s e s' d) : FlowStepOk cfg s s' := by
  have hk := fun d hd => h.keeps hcc hsafe (hkeep d hd)
  obtain ⟨hholds, hlt, hfree⟩ := h.owned f c hown
  have hnone : live f = none := by
    cases hf : live f with
    | none => rfl
    | some key =>
      obtain ⟨d, hd, hstatus⟩ := h.entry f key hf
      cases hown.symm.trans hd
      exact (hstatus hclosed).elim
  refine ⟨.give f c hown (h.no_entry hnone) (by rw [hnic]; rfl) howner hdead, live, ?_,
    fun g key hg => ?_, fun g d hd => ?_, fun d hl hd => ?_, fun g hg => ?_⟩
  · rw [hnic]
    exact tableOk_free h.table hlt hnone hfree
  · have hgf : g ≠ f := by
      rintro rfl
      rw [hnone] at hg
      cases hg
    obtain ⟨d, hd, hstatus⟩ := h.entry g key hg
    have hdc : d ≠ c := by
      rintro rfl
      exact hstatus hclosed
    exact ⟨d, by rw [howner, update_of_ne hgf]; exact hd, ((hk d hdc).1 g hd).2 hstatus⟩
  · rw [howner] at hd
    have hgf : g ≠ f := by
      rintro rfl
      rw [update_self] at hd
      cases hd
    rw [update_of_ne hgf] at hd
    obtain ⟨hd', hlt', hfree'⟩ := h.owned g d hd
    have hdc : d ≠ c := by
      rintro rfl
      exact hgf (hd'.flowId.symm.trans hholds.flowId)
    rw [hnic]
    exact ⟨((hk d hdc).1 g hd).1, hlt', fun hmem => (mem_cons.1 hmem).elim hgf hfree'⟩
  · have hdc : d ≠ c := by
      rintro rfl
      cases hdead.symm.trans hl
    have hd := (hk d hdc).2 hl hd
    have hne : (s'.mem d).flowId ≠ f := by
      intro he
      rw [he] at hd
      exact hdc (Option.some.inj (hd.symm.trans hown))
    rw [howner, update_of_ne hne]
    exact hd
  · rw [hnic, howner]
    by_cases hgf : g = f
    · exact .inl (mem_cons.2 (.inl hgf))
    · rw [update_of_ne hgf]
      exact (h.conserved g hg).imp_left (mem_cons_of_mem f)

theorem flowsOk_flowStep (hs : FlowStep cfg s e s') : FlowStepOk cfg s s' := by
  cases hs with
  | stay hnic howner hkeep =>
    have htable : TableOk cfg.flowHash ⟨s'.nic, live⟩ ∧ s'.nic.freeIds = s.nic.freeIds := by
      rcases hnic with hnic | ⟨a, ha, hadd⟩
      · rw [hnic]
        exact ⟨h.table, rfl⟩
      · exact tableOk_addFailed h (hsafe.adds _ ha) hadd
    exact ⟨.stay howner htable.2, live, flowsOk_stay h hcc hsafe htable.1 htable.2 howner hkeep⟩
  | take c f a ha hadd howner hx hbufs hlive hid hy hkeep =>
    refine flowsOk_take h hcc hsafe ha hadd howner hx ⟨hlive, hid, ?_⟩ ?_ hkeep
    · rcases hy with hy | hy <;> rw [hy] <;> rfl
    · rcases hy with hy | hy <;> rw [hy] <;> nofun
  | disable c hlive hx hnic howner hlive' hid hy hkeep =>
    exact flowsOk_disable h hcc hsafe (h.holder c hlive (.inl hx)) hnic howner
      ⟨hlive', hid, by rw [hy]; rfl⟩ hkeep
  | give c hlive hx hnic howner hy hkeep =>
    exact flowsOk_give h hcc hsafe (h.holder c hlive (.inr (.inl hx))) hx hnic howner hy hkeep

/-! ### Runs -/

end

theorem flowsOk_fast {fs : FlowState} (hkey : fs.key = (s.nic.flowst f).key) :
    FlowsOk cfg { s with nic := { s.nic with flowst := update s.nic.flowst f fs } } live := by
  refine ⟨⟨h.table.stores, fun g key hg => ?_, h.table.ids, h.table.nodup⟩, h.entry, h.owned,
    h.holder, h.conserved⟩
  change (update s.nic.flowst f fs g).key = key
  by_cases hgf : g = f
  · subst hgf
    rw [update_self, hkey]
    exact h.table.keys g key hg
  · rw [update_of_ne hgf]
    exact h.table.keys g key hg

theorem flowsOk_step (hi : s.Ok cfg) (hcc : CcInv cfg s)
    (hsafe : FlowSafe cfg s e) (hs : SlowStep cfg s e s') : FlowStepOk cfg s s' := by
  by_cases he : ∃ f fs, e = .fast f fs
  · obtain ⟨f, fs, rfl⟩ := he
    obtain rfl := Except.ok.inj hs.2
    exact ⟨.stay rfl rfl, live, flowsOk_fast h hs.1⟩
  · exact flowsOk_flowStep h hcc hsafe ((slowEffect_step hi hs).flow fun f fs hf => he ⟨f, fs, hf⟩)

omit h in
theorem mem_idList {n k : ℕ} (h₁ : k ≤ f.toNat) (h₂ : f.toNat < k + n) : f ∈ idList k n := by
  induction n generalizing k with
  | zero => omega
  | succ n ih =>
    by_cases hk : f.toNat = k
    · refine mem_cons.2 (.inl ?_)
      rw [← hk, BitVec.ofNat_toNat, BitVec.setWidth_eq]
    · exact mem_cons_of_mem _ (ih (by omega) (by omega))

omit h in
theorem flowsOk_start (h : SlowStart s) : FlowsOk cfg s fun _ => none := by
  have hnone : ∀ f c, s.owner f ≠ some c := by
    intro f c hf
    rw [h.owner f] at hf
    cases hf
  refine ⟨⟨?_, nofun, fun f hf => ?_, ?_⟩, nofun, fun f c hf => (hnone f c hf).elim,
    fun c hl => ?_, fun f hf => ?_⟩
  · have hempty : entries s.nic.flowht = fun _ => none := by
      funext k
      unfold entries
      rw [h.flowht k]
      exact FlowHte.entry_eq_none.mpr FlowHte.valid_zero
    rw [hempty]
    exact Probe.Stores.empty
  · change f ∈ s.nic.freeIds at hf
    rw [h.freeIds] at hf
    exact ⟨((idList_spec (Nat.zero_add _).le).2 f hf).2, rfl⟩
  · change s.nic.freeIds.Nodup
    rw [h.freeIds]
    exact (idList_spec (Nat.zero_add _).le).1
  · cases (h.mem c).symm.trans hl
  · rw [h.freeIds]
    exact .inl (mem_idList (Nat.zero_le _) (by omega))

omit h in
theorem flowsOk_run {s₀ : SlowPath} (h₀ : SlowStart s₀) (h : SlowRun cfg (FlowSafe cfg) s₀ s) :
    (∃ live, FlowsOk cfg s live) ∧ CcInv cfg s := by
  refine h.invariant (I := fun s => (∃ live, FlowsOk cfg s live) ∧ CcInv cfg s) h₀
    ⟨⟨_, flowsOk_start h₀⟩, ccInv_start h₀⟩ fun s e s' ih hi hsafe hs => ?_
  obtain ⟨⟨live, hflows⟩, hcc⟩ := ih
  exact ⟨(flowsOk_step hflows hi hcc hsafe hs).2, ccInv_step hcc hi hsafe.toCcSafe hs⟩

/-- A flow table entry refers to the flow id. -/
def SlowPath.Referred (s : SlowPath) (f : U32) : Prop :=
  ∃ k, (s.nic.flowht k).valid = true ∧ (s.nic.flowht k).fid = f

/-- What holds of flow ids in a state: table entries are for flows of connections that exist, and
ids that were not given to one are free, without repetition and not referred to. -/
structure ResourcesOk (cfg : SlowCfg) (s : SlowPath) : Prop where
  referred : ∀ f, s.Referred f → ∃ c, s.owner f = some c
  owned : ∀ f c, s.owner f = some c →
    (s.mem c).live = true ∧ (s.mem c).flowId = f ∧ f ∉ s.nic.freeIds
  free : ∀ f ∈ s.nic.freeIds, s.owner f = none ∧ ¬ s.Referred f
  nodup : s.nic.freeIds.Nodup
  conserved : ∀ f, f.toNat < flowstNum → f ∈ s.nic.freeIds ∨ ∃ c, s.owner f = some c
  lists : ∀ vm, ∃ xs, CcListOk cfg s vm xs

/-- What holds of a connection that a step frees, with its buffers: it is in no list, the entry of
its flow had been invalidated, and the flow id is returned by that step. -/
structure FreedOk (s s' : SlowPath) (c : ℕ) : Prop where
  notListed : ∀ vm xs, Linked.Path 0 s'.ccNexts (s'.ccConns vm) xs → c ∉ xs
  invalidated : ∀ f, s.owner f = some c → ¬ s.Referred f ∧ ¬ s'.Referred f
  returned : ∀ f, s.owner f = some c → f ∉ s.nic.freeIds ∧ s'.nic.freeIds = f :: s.nic.freeIds

theorem FlowsOk.referred (hf : s.Referred f) : ∃ c, s.owner f = some c := by
  obtain ⟨k, hk⟩ := hf
  cases hl : live f with
  | none => exact (h.no_entry hl k hk).elim
  | some key =>
    obtain ⟨c, hc, -⟩ := h.entry f key hl
    exact ⟨c, hc⟩

theorem FlowsOk.resourcesOk (hcc : CcInv cfg s) : ResourcesOk cfg s := by
  have hnone : ∀ f ∈ s.nic.freeIds, s.owner f = none := by
    intro f hf
    cases ho : s.owner f with
    | none => rfl
    | some c => exact ((h.owned f c ho).2.2 hf).elim
  refine ⟨fun f => h.referred, fun f c hc => ?_, fun f hf => ⟨hnone f hf, fun hr => ?_⟩,
    h.table.nodup, fun f hf => ?_, hcc.listOk⟩
  · obtain ⟨hholds, -, hfree⟩ := h.owned f c hc
    exact ⟨hholds.live, hholds.flowId, hfree⟩
  · obtain ⟨c, hc⟩ := h.referred hr
    rw [hnone f hf] at hc
    cases hc
  · exact (h.conserved f hf).imp_right Option.ne_none_iff_exists'.1

/-- A connection that a step frees has no flow, or is the one whose flow id is returned. -/
theorem freedOk_of_step {live' : U32 → Option FlowKey} (h' : FlowsOk cfg s' live')
    (hcc : CcInv cfg s') (hmove : FlowMove s s') (hdead : (s'.mem c).live = false) :
    FreedOk s s' c := by
  have hgone : ∀ f, s'.owner f ≠ some c := h'.unowned (.inl hdead)
  have hlists : ∀ vm xs, Linked.Path 0 s'.ccNexts (s'.ccConns vm) xs → c ∉ xs := by
    intro vm xs hxs hc
    obtain ⟨ys, hys, hmem⟩ := hcc.lists vm
    obtain rfl := hxs.unique hys.path
    cases hdead.symm.trans ((hmem c).1 hc).1
  cases hmove with
  | stay howner hids =>
    have hno : ∀ f, s.owner f ≠ some c := by
      intro f
      rw [← howner]
      exact hgone f
    exact ⟨hlists, fun f hf => (hno f hf).elim, fun f hf => (hno f hf).elim⟩
  | take g d hids howner =>
    have hno : ∀ f, s.owner f ≠ some c := by
      intro f hf
      have hfg : f ≠ g := by
        rintro rfl
        refine (h.owned f c hf).2.2 ?_
        rw [hids]
        exact mem_cons_self
      refine hgone f ?_
      rw [howner, update_of_ne hfg]
      exact hf
    exact ⟨hlists, fun f hf => (hno f hf).elim, fun f hf => (hno f hf).elim⟩
  | give g d hown hentry hids howner hdead' =>
    have hown' : ∀ f, s.owner f = some c → f = g := by
      intro f hf
      by_contra hfg
      refine hgone f ?_
      rw [howner, update_of_ne hfg]
      exact hf
    refine ⟨hlists, fun f hf => ?_, fun f hf => ?_⟩
    · obtain rfl := hown' f hf
      refine ⟨fun ⟨k, hk⟩ => hentry k hk, fun hr => ?_⟩
      obtain ⟨e, he⟩ := h'.referred hr
      rw [howner, update_self] at he
      cases he
    · obtain rfl := hown' f hf
      exact ⟨(h.owned f c hf).2.2, hids⟩

/-- A flow id is returned only with the connection that it was given to. -/
theorem returned_with_connection (hmove : FlowMove s s')
    (hf' : f ∈ s'.nic.freeIds) (hf : f ∉ s.nic.freeIds) :
    ∃ c, s.owner f = some c ∧ (s.mem c).live = true ∧ (s'.mem c).live = false := by
  cases hmove with
  | stay howner hids =>
    rw [hids] at hf'
    exact (hf hf').elim
  | take g d hids howner =>
    rw [hids] at hf
    exact (hf (mem_cons_of_mem g hf')).elim
  | give g d hown hentry hids howner hdead =>
    rw [hids] at hf'
    obtain rfl := (mem_cons.1 hf').resolve_right hf
    exact ⟨d, hown, (h.owned f d hown).1.live, hdead⟩

end

/-- In every run in which no connection fails that is in its list, none is taken by
`listener_accept` twice, and no table entry is moved twice, a connection is freed only when nothing
refers to it, and flow ids are returned once, with their connection. -/
theorem resources_outlive_users {s₀ s s' : SlowPath} {e : SlowEvent} (h₀ : SlowStart s₀)
    (h : SlowRun cfg (FlowSafe cfg) s₀ s) (hsafe : FlowSafe cfg s e) (hs : SlowStep cfg s e s') :
    ResourcesOk cfg s ∧
      (∀ c, (s.mem c).live = true → (s'.mem c).live = false → FreedOk s s' c) ∧
      ∀ f ∈ s'.nic.freeIds, f ∉ s.nic.freeIds →
        ∃ c, s.owner f = some c ∧ (s.mem c).live = true ∧ (s'.mem c).live = false := by
  obtain ⟨⟨live, hflows⟩, hcc⟩ := flowsOk_run h₀ h
  have hi := slowInv_run h₀ h
  obtain ⟨hmove, live', hflows'⟩ := flowsOk_step hflows hi hcc hsafe hs
  have hcc' := ccInv_step hcc hi hsafe.toCcSafe hs
  exact ⟨hflows.resourcesOk hcc, fun c _ hdead => freedOk_of_step hflows hflows' hcc' hmove hdead,
    fun f hf' hf => returned_with_connection hflows hmove hf' hf⟩

/-- A SYN without a timestamp makes the slow path free an open connection whose flow is still in the
flow table. -/
theorem syn_without_timestamp_keeps_entry :
    ∃ s₀ s e s', SlowStart s₀ ∧ SlowRun plainCfg (fun _ _ => True) s₀ s ∧ SlowStep plainCfg s e s' ∧
      (s.mem 11).live = true ∧ (s'.mem 11).live = false ∧ s.owner 0 = some 11 ∧ s'.Referred 0 ∧
      ¬ FreedOk s s' 11 := by
  have hstep : SlowStep plainCfg acceptedOpen
      (.packet (controlPkt tcpSyn 1 80 false) 66 0 0 true) acceptedFailed :=
    slowStep_after trivial (by decide +kernel)
  have hown : acceptedOpen.owner 0 = some 11 := by decide +kernel
  have hentry : acceptedFailed.Referred 0 := ⟨0, by decide +kernel, by decide +kernel⟩
  refine ⟨idleSlow, acceptedOpen, _, acceptedFailed, slowStart_idle,
    slowRun_acceptedOpen trivial trivial trivial trivial, hstep,
    by decide +kernel, by decide +kernel, hown, hentry, fun h => ?_⟩
  exact (h.invalidated 0 hown).2 hentry

/-- The connection is closed. -/
def acceptedClosed : SlowPath := acceptedOpen.after plainCfg (.close 1 11)

/-- Its timer fires. -/
def acceptedFreed : SlowPath := acceptedClosed.after plainCfg (.timeout 11 true)

theorem flowSafe_acceptedClosed : SlowRun plainCfg (FlowSafe plainCfg) idleSlow acceptedClosed := by
  have hopen : SlowRun plainCfg (FlowSafe plainCfg) idleSlow acceptedOpen := by
    refine slowRun_acceptedOpen ⟨⟨nofun, nofun⟩, nofun⟩ ⟨ccSafe_syn, fun key ha => ?_⟩
      ⟨ccSafe_accept, fun key ha => ?_⟩ ⟨ccSafe_poll, nofun⟩
    · cases ha with
      | synAck hlookup => cases hlookup
      | syn hc hl hw hb =>
        cases hl
        exact (hw rfl).elim
    · have hhop : HopFresh synQueued.nic.flowht 0 := by decide +kernel
      exact hhop
  exact hopen.after (e := .close 1 11) ⟨⟨nofun, nofun⟩, nofun⟩ (by decide +kernel)

theorem acceptedFreed_resources :
    (acceptedClosed.mem 11).live = true ∧ (acceptedFreed.mem 11).live = false ∧
      acceptedClosed.owner 0 = some 11 ∧ FreedOk acceptedClosed acceptedFreed 11 := by
  have hsafe : FlowSafe plainCfg acceptedClosed (.timeout 11 true) := by
    refine ⟨⟨fun c r hf => ?_, nofun⟩, nofun⟩
    cases hf with
    | retries => exact ⟨nofun, nofun⟩
  have hstep : SlowStep plainCfg acceptedClosed (.timeout 11 true) acceptedFreed :=
    slowStep_after (by decide +kernel) (by decide +kernel)
  have hlive : (acceptedClosed.mem 11).live = true := by decide +kernel
  have hdead : (acceptedFreed.mem 11).live = false := by decide +kernel
  exact ⟨hlive, hdead, by decide +kernel,
    (resources_outlive_users slowStart_idle flowSafe_acceptedClosed hsafe hstep).2.1 11 hlive hdead⟩

end Tas
