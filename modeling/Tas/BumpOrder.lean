import Tas.Credit
import Tas.Lib.Tagged

/-! A connection served by several cores: the library posts each update to the core it last heard
from, and every core drains its own queue. -/
namespace Tas

open Relation List

/-- Library, flow state and the queues of all cores, with the totals of all updates. -/
structure CoreSys where
  conn : LibConn
  fs : FlowState
  atx : List (U16 × Atx)
  arx : List (U16 × Arx)
  /-- Bytes in the updates posted so far. -/
  postedRx : ℕ
  postedTx : ℕ
  /-- Bytes by which updates raised the free receive and the unsent transmit buffer. -/
  addedRx : ℕ
  addedTx : ℕ

inductive CoreEvent
  | app (a : AppCall)
  | connupdate (core : U16) (outn : ℕ)
  | connsBump (full : Bool)
  | bump (core : U16) (env : FpEnv) (flowId : U32) (ts : U32)
  | packet (core : U16) (env : FpEnv) (flowId : U32) (p : RxPacket) (spendBudget : Bool) (ts : U32)
  | qman (env : FpEnv) (core newCore : U16) (txbuf : ℕ → Byte) (ts : U32)
  | retransmit (flowId : U32)

namespace CoreSys

/-- The queues of all cores as one, in the order of posting. -/
def flat (σ : CoreSys) : CreditSys :=
  ⟨σ.conn, σ.fs, σ.atx.map Prod.snd, σ.arx.map Prod.snd⟩

def step (σ : CoreSys) : CoreEvent → CoreSys
  | .app a =>
    match σ.conn.call a with
    | .abort => σ
    | .done c => { σ with conn := c }
  | .connupdate core outn =>
    match Tagged.take core σ.arx with
    | none => σ
    | some (a, arx) =>
      match eventArxConnupdate σ.conn a outn core with
      | .abort => σ
      | .done (c, none) => { σ with conn := c }
      | .done (c, some _) => { σ with conn := c, arx := arx }
  | .connsBump full =>
    match connsBump σ.conn full with
    | .abort => σ
    | .done (c, none) => { σ with conn := c }
    | .done (c, some a) =>
      { σ with
        conn := c
        atx := σ.atx ++ [(σ.conn.fnCore, a)]
        postedRx := σ.postedRx + a.rxBump.toNat
        postedTx := σ.postedTx + a.txBump.toNat }
  | .bump core env flowId ts =>
    match Tagged.take core σ.atx with
    | none => σ
    | some (a, atx) =>
      let fs := (fastFlowsBump env σ.fs flowId a.bumpSeq a.rxBump a.txBump a.flags ts).1
      { σ with
        fs := fs
        atx := atx
        addedRx := σ.addedRx + (fs.rxAvail - σ.fs.rxAvail).toNat
        addedTx := σ.addedTx + (fs.txAvail - σ.fs.txAvail).toNat }
  | .packet core env flowId p spendBudget ts =>
    let x := fastFlowsPacket env σ.fs flowId p spendBudget ts
    { σ with fs := x.1, arx := σ.arx ++ x.2.arx.toList.map fun a => (core, a) }
  | .qman env core newCore txbuf ts =>
    { σ with fs := (fastFlowsQman env core newCore σ.fs txbuf ts).1 }
  | .retransmit flowId => { σ with fs := (fastFlowsRetransmit σ.fs flowId).1 }

/-- No update that was posted earlier waits at another core. -/
def Oldest (σ : CoreSys) (core : U16) : Prop := ∀ x ∈ σ.atx.head?, x.1 = core

/-- A core drains an update only when no older one waits elsewhere, and segments are ones that the
trimming handles. -/
def Allowed (σ : CoreSys) : CoreEvent → Prop
  | .bump core _ _ _ => σ.Oldest core
  | .packet _ _ _ p _ _ => Trimmable σ.fs p
  | _ => True

def Step (σ σ' : CoreSys) : Prop := ∃ e, σ.Allowed e ∧ σ' = σ.step e

structure Start (σ : CoreSys) : Prop where
  flat : CreditSys.Start σ.flat
  totals : σ.postedRx = 0 ∧ σ.postedTx = 0 ∧ σ.addedRx = 0 ∧ σ.addedTx = 0

def queuedRx (σ : CoreSys) : ℕ := ((σ.atx.map Prod.snd).map fun a => a.rxBump.toNat).sum

def queuedTx (σ : CoreSys) : ℕ := ((σ.atx.map Prod.snd).map fun a => a.txBump.toNat).sum

/-- Every posted byte was added or waits in a queue. -/
structure Inv (σ : CoreSys) : Prop where
  credit : CreditSys.Inv σ.flat
  rx : σ.addedRx + σ.queuedRx = σ.postedRx
  tx : σ.addedTx + σ.queuedTx = σ.postedTx

variable {σ σ' : CoreSys}

theorem take_of_oldest {core : U16} {a : Atx} {atx : List (U16 × Atx)} (h : σ.Oldest core)
    (ht : Tagged.take core σ.atx = some (a, atx)) : σ.atx = (core, a) :: atx := by
  cases hq : σ.atx with
  | nil => simp [hq, Tagged.take] at ht
  | cons x q =>
    have hx : x.1 = core := h x (by simp [hq])
    rw [hq] at ht
    unfold Tagged.take at ht
    rw [if_pos hx] at ht
    cases Option.some.inj ht
    rw [← hx]

/-- The update that is drained next raises both buffers by what it carries. -/
theorem Inv.bump {core : U16} {env : FpEnv} {flowId ts : U32} (h : Inv σ) (ho : σ.Oldest core) :
    Inv (σ.step (.bump core env flowId ts)) := by
  cases ht : Tagged.take core σ.atx with
  | none => simpa only [step, ht] using h
  | some x =>
    obtain ⟨a, atx⟩ := x
    have hatx := take_of_oldest ho ht
    have hflat : σ.flat.atx = a :: atx.map Prod.snd := by
      change σ.atx.map Prod.snd = _
      rw [hatx, map_cons]
    obtain ⟨hok, hbytes⟩ := h.credit.bump_ok hflat
    have hcredit := @CreditSys.Inv.bump σ.flat (atx.map Prod.snd) env flowId ts h.credit a hflat
    have hfs := (@fastFlowsBump_ok env σ.fs ts flowId a.rxBump a.txBump a.bumpSeq a.flags hok).1
    have hbytes : bumpTxBytes σ.fs a.txBump = a.txBump := hbytes
    have hrx : ((fastFlowsBump env σ.fs flowId a.bumpSeq a.rxBump a.txBump a.flags ts).1.rxAvail -
        σ.fs.rxAvail) = a.rxBump := by
      rw [hfs, show (bumpState σ.fs a.bumpSeq a.rxBump (bumpTxBytes σ.fs a.txBump)
        (bumpCloses σ.fs a.flags)).rxAvail = σ.fs.rxAvail + a.rxBump from rfl, add_sub_cancel_left]
    have htx : ((fastFlowsBump env σ.fs flowId a.bumpSeq a.rxBump a.txBump a.flags ts).1.txAvail -
        σ.fs.txAvail) = a.txBump := by
      rw [hfs, show (bumpState σ.fs a.bumpSeq a.rxBump (bumpTxBytes σ.fs a.txBump)
        (bumpCloses σ.fs a.flags)).txAvail = σ.fs.txAvail + bumpTxBytes σ.fs a.txBump from rfl,
        hbytes, add_sub_cancel_left]
    have hqrx := h.rx
    have hqtx := h.tx
    unfold queuedRx at hqrx
    unfold queuedTx at hqtx
    rw [hatx] at hqrx hqtx
    simp only [map_cons, sum_cons] at hqrx hqtx
    simp only [CreditSys.step, hflat] at hcredit
    simp only [step, ht]
    refine ⟨hcredit, ?_, ?_⟩
    · simp only [hrx, queuedRx]
      omega
    · simp only [htx, queuedTx]
      omega

theorem Inv.post {full : Bool} (h : Inv σ) : Inv (σ.step (.connsBump full)) := by
  have hcredit := (@CreditSys.Inv.connsBump σ.flat h.credit full).2
  simp only [CreditSys.step] at hcredit
  rw [show σ.flat.conn = σ.conn from rfl] at hcredit
  cases hb : connsBump σ.conn full with
  | abort => simpa only [step, hb] using h
  | done x =>
    obtain ⟨c, o⟩ := x
    simp only [hb] at hcredit
    cases o with
    | none =>
      simp only [step, hb]
      rw [Option.toList_none, append_nil] at hcredit
      exact ⟨hcredit, h.rx, h.tx⟩
    | some a =>
      have hqrx := h.rx
      have hqtx := h.tx
      unfold queuedRx at hqrx
      unfold queuedTx at hqtx
      simp only [step, hb]
      refine ⟨?_, ?_, ?_⟩
      · simpa only [flat, map_append, map_cons, map_nil, Option.toList_some]
          using hcredit
      · simp only [queuedRx, map_append, sum_append, map_cons, map_nil,
          sum_cons, sum_nil]
        omega
      · simp only [queuedTx, map_append, sum_append, map_cons, map_nil,
          sum_cons, sum_nil]
        omega

/-- Steps that neither post nor drain. -/
theorem Inv.of_flat (h : Inv σ) (hcredit : CreditSys.Inv σ'.flat) (hatx : σ'.atx = σ.atx)
    (hposted : σ'.postedRx = σ.postedRx ∧ σ'.postedTx = σ.postedTx)
    (hadded : σ'.addedRx = σ.addedRx ∧ σ'.addedTx = σ.addedTx) : Inv σ' := by
  refine ⟨hcredit, ?_, ?_⟩
  · rw [hposted.1, hadded.1, queuedRx, hatx]
    exact h.rx
  · rw [hposted.2, hadded.2, queuedTx, hatx]
    exact h.tx

theorem inv_step (h : Inv σ) (hs : Step σ σ') : Inv σ' := by
  obtain ⟨e, hallowed, rfl⟩ := hs
  cases e with
  | app a =>
    obtain ⟨c, hcall, hinv⟩ := h.credit.app a
    have hcall : σ.conn.call a = .done c := hcall
    simp only [step, hcall]
    exact h.of_flat hinv rfl ⟨rfl, rfl⟩ ⟨rfl, rfl⟩
  | connupdate core outn =>
    cases ht : Tagged.take core σ.arx with
    | none => simpa only [step, ht] using h
    | some x =>
      obtain ⟨a, arx⟩ := x
      rcases @CreditSys.Inv.connupdate σ.flat (arx.map Prod.snd) h.credit a outn core
        (Tagged.sum_take _ ht) (Tagged.sum_take _ ht) with ⟨c, heq, hinv⟩ | ⟨c, evs, heq, hinv⟩
      · have heq : eventArxConnupdate σ.conn a outn core = .done (c, none) := heq
        simp only [step, ht, heq]
        exact h.of_flat hinv rfl ⟨rfl, rfl⟩ ⟨rfl, rfl⟩
      · have heq : eventArxConnupdate σ.conn a outn core = .done (c, some evs) := heq
        simp only [step, ht, heq]
        exact h.of_flat hinv rfl ⟨rfl, rfl⟩ ⟨rfl, rfl⟩
  | connsBump full => exact h.post
  | bump core env flowId ts => exact h.bump hallowed
  | packet core env flowId p spendBudget ts =>
    have hinv := @CreditSys.Inv.packet σ.flat env flowId ts h.credit p spendBudget hallowed
    refine h.of_flat ?_ rfl ⟨rfl, rfl⟩ ⟨rfl, rfl⟩
    simpa only [flat, step, CreditSys.step, map_append, List.map_map, Function.comp_def,
      map_id'] using hinv
  | qman env core newCore txbuf ts =>
    exact h.of_flat (CreditSys.inv_step h.credit ⟨.qman env core newCore txbuf ts, trivial, rfl⟩)
      rfl ⟨rfl, rfl⟩ ⟨rfl, rfl⟩
  | retransmit flowId =>
    exact h.of_flat (CreditSys.inv_step h.credit ⟨.retransmit flowId, trivial, rfl⟩) rfl
      ⟨rfl, rfl⟩ ⟨rfl, rfl⟩

theorem inv_of_reachable {σ₀ : CoreSys} (h₀ : Start σ₀)
    (hlens : σ₀.fs.rxLen.toNat ≤ σ₀.fs.txLen.toNat) (h : ReflTransGen Step σ₀ σ) : Inv σ := by
  induction h with
  | refl =>
    have hatx : σ₀.atx = [] := map_eq_nil_iff.mp h₀.flat.queues.1
    obtain ⟨hprx, hptx, harx, hatxt⟩ := h₀.totals
    refine ⟨CreditSys.inv_of_reachable h₀.flat hlens .refl, ?_, ?_⟩
    · rw [harx, hprx, queuedRx, hatx]
      rfl
    · rw [hatxt, hptx, queuedTx, hatx]
      rfl
  | tail _ hs ih => exact inv_step ih hs

end CoreSys

/-- If every core drains updates in the order in which they were posted, none is lost: each posted
byte was added to its buffer or waits in a queue. -/
theorem no_update_lost {σ₀ σ : CoreSys} (h₀ : CoreSys.Start σ₀)
    (hlens : σ₀.fs.rxLen.toNat ≤ σ₀.fs.txLen.toNat) (h : ReflTransGen CoreSys.Step σ₀ σ) :
    σ.addedRx + σ.queuedRx = σ.postedRx ∧ σ.addedTx + σ.queuedTx = σ.postedTx ∧
      (σ.atx = [] → σ.addedRx = σ.postedRx ∧ σ.addedTx = σ.postedTx) := by
  have hinv := CoreSys.inv_of_reachable h₀ hlens h
  have hrx := hinv.rx
  have htx := hinv.tx
  refine ⟨hrx, htx, fun hempty => ?_⟩
  rw [CoreSys.queuedRx, hempty] at hrx
  rw [CoreSys.queuedTx, hempty] at htx
  exact ⟨hrx, htx⟩

/-! ### An update that is overtaken -/

/-- A connection after it was opened, with buffers of 8 bytes. -/
def smallCoreSys : CoreSys :=
  ⟨(openSys 8 8).conn, (openSys 8 8).fs, [], [], 0, 0, 0, 0⟩

theorem smallCoreSys_start : CoreSys.Start smallCoreSys := ⟨openSys_start 8 8, rfl, rfl, rfl, rfl⟩

/-- The application sends a byte, and the library posts it to the core it last heard from. -/
def postByte (σ : CoreSys) : CoreSys :=
  ((σ.step (.app (.txAlloc 1))).step (.app (.txSend 1))).step (.connsBump false)

theorem postByte_added : let σ := (postByte smallCoreSys).step (.bump 0 default 0 0)
    σ.addedTx = σ.postedTx ∧ σ.postedTx = 1 := by
  have hrun : ReflTransGen CoreSys.Step smallCoreSys (postByte smallCoreSys) :=
    ((ReflTransGen.refl.tail ⟨.app (.txAlloc 1), trivial, rfl⟩).tail
      ⟨.app (.txSend 1), trivial, rfl⟩).tail ⟨.connsBump false, trivial, rfl⟩
  have hold : (postByte smallCoreSys).Oldest 0 := by
    intro x hx
    rw [show (postByte smallCoreSys).atx = [(0, ⟨0, 1, 0, 0⟩)] by decide] at hx
    rw [← Option.some.inj hx]
  have hdrain := hrun.tail ⟨.bump 0 default 0 0, hold, rfl⟩
  exact ⟨((no_update_lost smallCoreSys_start (by decide) hdrain).2.2 (by decide)).2, by decide⟩

/-- One byte at the next expected sequence number. -/
def nextByte : RxPacket := { (default : RxPacket) with ipLen := 41, hdrlen := 5 }

/-- A byte is posted to core 0. The flow moves to core 1, which reports a received byte, so the
next byte is posted to core 1. Core 1 drains its update first, and core 0 drops the older one. -/
theorem overtaken_update_lost :
    let moved := ((postByte smallCoreSys).step (.packet 1 default 0 nextByte false 0)).step
      (.connupdate 1 8)
    let σ := ((postByte moved).step (.bump 1 default 0 0)).step (.bump 0 default 0 0)
    (postByte moved).atx = [(0, ⟨0, 1, 0, 0⟩), (1, ⟨0, 1, 1, 0⟩)] ∧ σ.atx = [] ∧
      σ.postedTx = 2 ∧ σ.addedTx = 1 ∧ σ.fs.txAvail = 1 := by
  decide

end Tas
