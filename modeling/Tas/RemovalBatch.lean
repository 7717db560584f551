import Tas.ActiveRounds
import Tas.Lib.Replay

/-! The contexts that one round over the active VMs records to remove them. There is room for a
batch of them, and more may time out in the same round. -/
namespace Tas

open Outcome Replay List

variable {p p' p₀ : Polling} {rem : List (U32 × U32)} {n k : ℕ} {c : U32}
  {ctxs : List U32}

/-- A call of `poll_queues`: what it reads, with at most a batch of buffers, and how many iterations
its loops may make. -/
structure QueuePoll where
  inp : RoundInput
  reg : Registry
  fuel : ℕ
  buffers : inp.max ≤ batchSize
  valid : reg.Valid

def pollNext (p : Polling) (q : QueuePoll) : Option Polling :=
  (pollQueues q.inp q.reg q.fuel p).toOption

theorem pollNext_cases {q : QueuePoll} (h : pollNext p q = some p') :
    (p.pollRounds % maxPollRounds = 0 ∨ p.actHead = idxlistInval) ∧
        p' = { pollAllQueues q.inp q.reg p with
          pollRounds := ((pollAllQueues q.inp q.reg p).pollRounds + 1) % maxPollRounds } ∨
      p.actHead ≠ idxlistInval ∧ ∃ r, pollActiveQueues q.inp q.fuel p = .ok r ∧
        p' = { r.1 with pollRounds := (r.1.pollRounds + 1) % maxPollRounds } := by
  unfold pollNext pollQueues at h
  split_ifs at h with hall
  · exact .inl ⟨hall, (Option.some.inj h).symm⟩
  · refine .inr ⟨fun hnone => hall (.inr hnone), ?_⟩
    cases hr : pollActiveQueues q.inp q.fuel p with
    | error e =>
      rw [hr] at h
      cases h
    | ok r =>
      rw [hr] at h
      exact ⟨r, rfl, (Option.some.inj h).symm⟩

theorem ringsOk_count (h : RingsOk p) (k : U16) : RingsOk { p with pollRounds := k } :=
  ringsOk_step h (.count k)

theorem ringsOk_pollNext {q : QueuePoll} (h : RingsOk p) (hs : pollNext p q = some p') :
    RingsOk p' := by
  rcases pollNext_cases hs with ⟨-, rfl⟩ | ⟨hactive, ⟨p₁, rem⟩, hr, rfl⟩
  · exact ringsOk_count (ringsOk_pollAllQueues q.inp q.valid h) _
  · exact ringsOk_count (ringsOk_pollActiveQueues h hactive hr) _

theorem ringsOk_run (hstart : PollStart p₀) (hrun : Run pollNext Any p₀ p) : RingsOk p :=
  hrun.invariant RingsOk (ringsOk_start hstart) fun _ _ _ h _ hs => ringsOk_pollNext h hs

/-- `n` contexts are registered, and every other call returns an entry. -/
def registered (n : ℕ) (hn : 0 < n ∧ n ≤ 32) (max : ℕ) (hmax : max ≤ batchSize) : QueuePoll :=
  ⟨everyOther max, contextsOf n, 20, hmax, contextsOf_valid hn.1 hn.2⟩

def Polling.Active (p : Polling) (x : U32 × U32) : Prop :=
  ((p.polledVms x.1).ctxs x.2).active = true

/-! ### Contexts without entries -/

/-- Contexts of the first VM are active and had no entry for `n` rounds. -/
structure Idle (ctxs : List U32) (n : ℕ) (p : Polling) : Prop where
  ne_nil : ctxs ≠ []
  rings : RingsOk p
  rounds : p.pollRounds < maxPollRounds
  active : ∀ c ∈ ctxs, p.Active (0, c)
  nulls : ∀ c ∈ ctxs, p.nulls (0, c) = BitVec.ofNat 16 n

theorem Idle.head (h : Idle ctxs n p) : p.actHead ≠ idxlistInval := by
  obtain ⟨c, hc⟩ := exists_mem_of_ne_nil _ h.ne_nil
  obtain ⟨vs, cs, hrings, hbusy⟩ := h.rings
  have hin : c ∈ cs 0 := ((hrings.ctxs 0).active c).1 (h.active c hc)
  have hvm : (0 : U32) ∈ vs := (hbusy 0).2 (ne_nil_of_mem hin)
  exact fun hnone => ne_nil_of_mem hvm (hrings.vms.ring.eq_nil_iff.1 hnone)

theorem nextRounds_lt (k : U16) : (k + 1) % maxPollRounds < maxPollRounds := by
  change ((k + 1) % maxPollRounds).toNat < maxPollRounds.toNat
  rw [BitVec.toNat_umod]
  exact Nat.mod_lt _ (by decide)

theorem nextNullRounds_ofNat (hn : n < 2000) :
    nextNullRounds (BitVec.ofNat 16 n) = BitVec.ofNat 16 (n + 1) := by
  unfold nextNullRounds
  rw [if_neg fun he => ?_, BitVec.ofNat_add]
  · rfl
  · have hlt := congrArg BitVec.toNat he
    rw [BitVec.toNat_ofNat, Nat.mod_eq_of_lt (by omega)] at hlt
    have hmax : maxNullRounds.toNat = 2000 := rfl
    omega

theorem Idle.late_iff (h : Idle ctxs n p) (hn : n < 2000) (hc : c ∈ ctxs) :
    p.Late (0, c) ↔ n = 1999 := by
  have hmax : maxNullRounds.toNat = 2000 := rfl
  unfold Polling.Late
  rw [h.nulls c hc, nextNullRounds_ofNat hn, BitVec.le_def, BitVec.toNat_ofNat,
    Nat.mod_eq_of_lt (by omega)]
  omega

/-- Without buffers a round over all VMs changes no context. -/
theorem pollAllQueues_noBuffers {fetched : ℕ → Bool} {budget : U32 → ℤ} {reg : Registry} :
    (pollAllQueues ⟨fetched, budget, 0⟩ reg p).polledVms = p.polledVms ∧
      (pollAllQueues ⟨fetched, budget, 0⟩ reg p).pollRounds = p.pollRounds := by
  have hloop : ∀ k s oob, fetchAllLoop ⟨fetched, budget, 0⟩ reg k (s, oob) = (s, oob) := by
    intro k s oob
    cases k with
    | zero => rfl
    | succ k => exact if_neg (Nat.not_lt_zero _)
  unfold pollAllQueues fastAppctxPollFetchAll
  split_ifs with hnone
  · exact ⟨rfl, rfl⟩
  · dsimp only
    rw [hloop]
    split_ifs <;> exact ⟨rfl, rfl⟩

def idleFor (ctxs : List U32) (k : ℕ) (p : Polling) : Bool :=
  decide (p.pollRounds < maxPollRounds) &&
    ctxs.all fun c => ((p.polledVms 0).ctxs c).active && p.nulls (0, c) == BitVec.ofNat 16 k

theorem Idle.of_run (hne : ctxs ≠ []) (hrun : Run pollNext Any idlePolling p)
    (hp : idleFor ctxs n p = true) : Idle ctxs n p := by
  unfold idleFor at hp
  simp only [Bool.and_eq_true, all_eq_true, beq_iff_eq, decide_eq_true_eq] at hp
  exact ⟨hne, ringsOk_run idlePolling_start hrun, hp.1, fun c hc => (hp.2 c hc).1,
    fun c hc => (hp.2 c hc).2⟩

/-- A run to a round over the active VMs, in which no context becomes active. -/
def Idles (ctxs : List U32) (n : ℕ) (p : Polling) : Prop :=
  ∃ p', Run pollNext Any p p' ∧ Idle ctxs n p' ∧ (∀ x, p'.Active x → p.Active x) ∧
    p'.pollRounds % maxPollRounds ≠ 0

/-- No buffers for a round over all VMs. -/
theorem Idle.pass (h : Idle ctxs n p) (hall : p.pollRounds % maxPollRounds = 0) :
    Idles ctxs n p := by
  let q := registered 1 (by decide) 0 (by decide)
  obtain ⟨hvms, hcount⟩ : (pollAllQueues q.inp q.reg p).polledVms = p.polledVms ∧
      (pollAllQueues q.inp q.reg p).pollRounds = p.pollRounds := pollAllQueues_noBuffers
  have hzero : p.pollRounds = 0 := by
    rw [← hall]
    exact (BitVec.umod_eq_of_lt h.rounds).symm
  let p' := { pollAllQueues q.inp q.reg p with
    pollRounds := ((pollAllQueues q.inp q.reg p).pollRounds + 1) % maxPollRounds }
  have hstep : pollNext p q = some p' := by
    unfold pollNext pollQueues
    rw [if_pos (.inl hall)]
    rfl
  have hactive (x : U32 × U32) : p'.Active x ↔ p.Active x := by
    unfold Polling.Active
    change (((pollAllQueues q.inp q.reg p).polledVms x.1).ctxs x.2).active = true ↔ _
    rw [hvms]
  refine ⟨p', .single ⟨q, trivial, hstep⟩, ⟨h.ne_nil, ringsOk_pollNext h.rings hstep,
    nextRounds_lt _, fun c hc => (hactive _).2 (h.active c hc), ?_⟩, fun x => (hactive x).1, ?_⟩
  · intro c hc
    change (((pollAllQueues q.inp q.reg p).polledVms 0).ctxs c).nullRounds = _
    rw [hvms]
    exact h.nulls c hc
  · change ((pollAllQueues q.inp q.reg p).pollRounds + 1) % maxPollRounds % maxPollRounds ≠ 0
    rw [hcount, hzero]
    decide

/-- A round over the active VMs finds no entry. -/
theorem Idle.quiet (h : Idle ctxs n p) (hn : n < 2000) :
    ∃ fuel p' rem, pollActiveQueues quietRound fuel p = .ok (p', rem) ∧ RingsOk p' ∧
      (∀ x, p'.Active x → p.Active x) ∧
      ∀ c ∈ ctxs, ((0, c) ∈ rem ↔ n = 1999) ∧ ((0, c) ∉ rem →
        p'.Active (0, c) ∧ p'.nulls (0, c) = BitVec.ofNat 16 (n + 1)) := by
  obtain ⟨fuel, ⟨p', rem⟩, hr⟩ := h.rings.ends h.head quietRound
  obtain ⟨vs, cs, hrings, hbusy⟩ := h.rings
  obtain ⟨-, hmem, ⟨vs', cs', hrings', hbusy', hkept⟩, hquiet⟩ :=
    (pollActiveQueues_spec hrings hbusy (hrings.exists_active h.head)).of_ok hr
  refine ⟨fuel, p', rem, hr, ⟨vs', cs', hrings', hbusy'⟩, fun x hx => ?_, fun c hc => ?_⟩
  · refine ((hrings.ctxs x.1).active x.2).2 ?_
    by_cases hrem : x ∈ rem
    · exact (hmem x hrem).1
    · exact (hkept x hrem).2 (((hrings'.ctxs x.1).active x.2).1 hx)
  have hin : c ∈ cs 0 := ((hrings.ctxs 0).active c).1 (h.active c hc)
  obtain ⟨hlate, hnulls⟩ := hquiet rfl (0, c) hin
  refine ⟨⟨fun hx => (h.late_iff hn hc).1 (hmem _ hx).2, fun he => hlate ((h.late_iff hn hc).2 he)⟩,
    fun hx => ⟨((hrings'.ctxs 0).active c).2 ((hkept _ hx).1 hin), ?_⟩⟩
  rw [hnulls hx, h.nulls c hc, nextNullRounds_ofNat hn]

theorem Idle.more (h : Idle ctxs n p) (hn : n < 1999) (hsome : p.pollRounds % maxPollRounds ≠ 0) :
    ∃ p', Run pollNext Any p p' ∧ Idle ctxs (n + 1) p' ∧ ∀ x, p'.Active x → p.Active x := by
  obtain ⟨fuel, p', rem, hr, hrings, hfewer, hctxs⟩ := h.quiet (by omega)
  let q : QueuePoll :=
    ⟨quietRound, contextsOf 1, fuel, by decide, contextsOf_valid (by decide) (by decide)⟩
  have hstep : pollNext p q =
      some { p' with pollRounds := (p'.pollRounds + 1) % maxPollRounds } := by
    unfold pollNext pollQueues
    rw [if_neg (not_or.2 ⟨hsome, h.head⟩), hr]
    rfl
  have hstays (c : U32) (hc : c ∈ ctxs) := (hctxs c hc).2 fun hx => by
    have := (hctxs c hc).1.1 hx
    omega
  exact ⟨_, .single ⟨q, trivial, hstep⟩, ⟨h.ne_nil, ringsOk_count hrings _, nextRounds_lt _,
    fun c hc => (hstays c hc).1, fun c hc => (hstays c hc).2⟩, hfewer⟩

theorem Idle.to_active (h : Idle ctxs n p) : Idles ctxs n p := by
  by_cases hall : p.pollRounds % maxPollRounds = 0
  · exact h.pass hall
  · exact ⟨p, .refl, h, fun _ hx => hx, hall⟩

theorem Idle.run (h : Idle ctxs k p) (hle : k ≤ n) (hn : n < 2000) : Idles ctxs n p := by
  induction n, hle using Nat.le_induction with
  | base => exact h.to_active
  | succ n _ ih =>
    obtain ⟨p₁, hrun, hidle, hfewer, hsome⟩ := ih (by omega)
    obtain ⟨p₂, hrun₁, hidle₁, hfewer₁⟩ := hidle.more (by omega) hsome
    obtain ⟨p₃, hrun₂, hidle₂, hfewer₂, hsome₂⟩ := hidle₁.to_active
    exact ⟨p₃, (hrun.trans hrun₁).trans hrun₂, hidle₂,
      fun x hx => hfewer x (hfewer₁ x (hfewer₂ x hx)), hsome₂⟩

/-! ### The batch -/

/-- Not more active contexts than a batch are late. -/
def FewLate (p : Polling) : Prop := {x | p.Active x ∧ p.Late x}.ncard ≤ batchSize

/-- In every run of the data-plane loop, a round over the active VMs records at most a batch if not
more active contexts are late when it starts. -/
theorem removal_batch_fits {inp : RoundInput} {fuel : ℕ} (hstart : PollStart p₀)
    (hrun : Run pollNext Any p₀ p) (hfew : FewLate p)
    (hactive : p.actHead ≠ idxlistInval) (hr : pollActiveQueues inp fuel p = .ok (p', rem)) :
    rem.length ≤ batchSize := by
  obtain ⟨vs, cs, hrings, hbusy⟩ := ringsOk_run hstart hrun
  obtain ⟨hnodup, hmem, -⟩ :=
    (pollActiveQueues_spec hrings hbusy (hrings.exists_active hactive)).of_ok hr
  have hsub : (rem.toFinset : Set (U32 × U32)) ⊆
      {x | p.Active x ∧ p.Late x} := by
    intro x hx
    obtain ⟨hin, hlate⟩ := hmem x (mem_toFinset.1 hx)
    exact ⟨((hrings.ctxs x.1).active x.2).2 hin, hlate⟩
  calc rem.length = rem.toFinset.card := (toFinset_card_of_nodup hnodup).symm
    _ = (rem.toFinset : Set (U32 × U32)).ncard := (Set.ncard_coe_finset _).symm
    _ ≤ _ := Set.ncard_le_ncard hsub (Set.toFinite _)
    _ ≤ batchSize := hfew

/-- Only one context is in the rings. -/
theorem eq_of_active {v : U32} (h : RingsOk p) (hc : p.Active (v, c))
    (hvms : p.actTail = p.actHead)
    (hctxs : (p.polledVms v).actCtxTail = (p.polledVms v).actCtxHead) {x : U32 × U32}
    (hx : p.Active x) : x = (v, c) := by
  obtain ⟨vs, cs, hrings, hbusy⟩ := h
  have hin : c ∈ cs v := ((hrings.ctxs v).active c).1 hc
  have hvs := (hrings.vms.ring.singleton_iff ((hbusy v).2 (ne_nil_of_mem hin))).1 hvms
  have hcs := ((hrings.ctxs v).ring.singleton_iff hin).1 hctxs
  have hxin : x.2 ∈ cs x.1 := ((hrings.ctxs x.1).active x.2).1 hx
  have hxvm : x.1 ∈ vs := (hbusy x.1).2 (ne_nil_of_mem hxin)
  rw [hvs, mem_singleton] at hxvm
  rw [hxvm, hcs, mem_singleton] at hxin
  exact Prod.ext hxvm hxin

/-- The context 0 of the VM 0 becomes active and times out. -/
theorem oneContext_batch_fits : ∃ p fuel p' rem, Run pollNext Any idlePolling p ∧
    pollActiveQueues quietRound fuel p = .ok (p', rem) ∧ (0, 0) ∈ rem ∧
      rem.length ≤ batchSize := by
  obtain ⟨p₀, hrun₀, hp⟩ : ∃ p, Run pollNext Any idlePolling p ∧ (idleFor [0] 0 p &&
      p.actTail == p.actHead && (p.polledVms 0).actCtxTail == (p.polledVms 0).actCtxHead) = true :=
    run_of_outcome [registered 1 (by decide) 1 (by decide)] (by decide +kernel)
  simp only [Bool.and_eq_true, beq_iff_eq] at hp
  have hidle₀ : Idle [0] 0 p₀ := .of_run (by decide) hrun₀ hp.1.1
  obtain ⟨p, hrun, hidle, hfewer, -⟩ := hidle₀.run (n := 1999) (by decide) (by decide)
  obtain ⟨fuel, p', rem, hr, -, -, hctxs⟩ := hidle.quiet (by decide)
  have hfew : FewLate p := by
    have hsub : {x | p.Active x ∧ p.Late x} ⊆ {(0, 0)} := fun x hx =>
      eq_of_active hidle₀.rings (hidle₀.active 0 (by simp)) hp.1.2 hp.2 (hfewer x hx.1)
    calc _ ≤ ({(0, 0)} : Set (U32 × U32)).ncard := Set.ncard_le_ncard hsub (Set.toFinite _)
      _ = 1 := Set.ncard_singleton _
      _ ≤ batchSize := by decide
  have hreach := hrun₀.trans hrun
  exact ⟨p, fuel, p', rem, hreach, hr, (hctxs 0 (by simp)).1.2 rfl,
    removal_batch_fits idlePolling_start hreach hfew hidle.head hr⟩

/-- Contexts of the first VM. -/
def idleCtxs : List U32 := [0, 1, 2, 3, 4, 5, 6, 7, 8, 9, 10, 11, 12, 13, 14, 16, 17]

/-- They become active in two rounds over all of them, one after the other because the rounds
without buffers before them are counted too. -/
def activating : List QueuePoll :=
  List.replicate 14 (registered 19 (by decide) 0 (by decide)) ++
    [registered 19 (by decide) 16 (by decide), registered 19 (by decide) 3 (by decide)]

/-- The contexts have had no entry for all but one of the rounds after which they time out, and then
one round records all of them. -/
theorem idle_contexts_overflow_batch :
    ∃ p₀ p inp fuel p' rem, PollStart p₀ ∧ Run pollNext Any p₀ p ∧
      p.pollRounds % maxPollRounds ≠ 0 ∧ p.actHead ≠ idxlistInval ∧ inp.max ≤ batchSize ∧
      pollActiveQueues inp fuel p = .ok (p', rem) ∧ batchSize < rem.length := by
  obtain ⟨p, hrun, hp⟩ : ∃ p, Run pollNext Any idlePolling p ∧ idleFor idleCtxs 1 p = true :=
    run_of_outcome activating (by decide +kernel)
  obtain ⟨p₁, hrun₁, hidle₁, -, hsome⟩ :=
    (Idle.of_run (by decide) hrun hp).run (n := 1999) (by decide) (by decide)
  obtain ⟨fuel, p', rem, hr, -, -, hctxs⟩ := hidle₁.quiet (by decide)
  refine ⟨idlePolling, p₁, quietRound, fuel, p', rem, idlePolling_start, hrun.trans hrun₁, hsome,
    hidle₁.head, by decide, hr, ?_⟩
  have hsub : idleCtxs.map (Prod.mk 0) ⊆ rem := by
    intro x hx
    obtain ⟨c, hc, rfl⟩ := mem_map.1 hx
    exact (hctxs c hc).1.2 rfl
  have hnodup : (idleCtxs.map (Prod.mk (0 : U32))).Nodup := by decide
  calc batchSize < (idleCtxs.map (Prod.mk (0 : U32))).length := by decide
    _ ≤ rem.length := (hnodup.subperm hsub).length_le

end Tas
