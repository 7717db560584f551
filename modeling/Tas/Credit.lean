import Tas.FlowCredit
import Tas.LibTasSpec

/-! One connection between application library and fast path: buffer space is neither lost nor
made up by the updates and notifications in the queues between them. -/
namespace Tas

open Relation List Word FlowState

/-! ### Numbers and close marks of queued updates -/

/-- The update closes the transmit direction. -/
def Atx.closes (a : Atx) : Bool := a.flags &&& atxFltxdone == atxFltxdone

/-- The updates are numbered one by one from `s` to `t`. -/
def Consecutive : U16 → List Atx → U16 → Prop
  | s, [], t => s = t
  | s, a :: q, t => a.bumpSeq = s ∧ Consecutive (s + 1) q t

/-- An update that carries `txBump` bytes behind a close or not: the close has its dummy byte,
and nothing follows it. -/
def UpdateOk (closed : Bool) (txBump : U32) (closes : Bool) : Prop :=
  (closed = true → txBump = 0) ∧ (closes = true → closed = false → txBump ≠ 0)

/-- Queued updates after a close or not. -/
def UpdatesOk : Bool → List Atx → Prop
  | _, [] => True
  | closed, a :: q => UpdateOk closed a.txBump a.closes ∧ UpdatesOk (closed || a.closes) q

/-- The direction is closed once the queued updates took effect. -/
def closedBy (closed : Bool) (q : List Atx) : Bool := closed || q.any Atx.closes

variable {q : List Atx} {a : Atx} {closed : Bool}

theorem Consecutive.append (h : Consecutive s q t) (ha : a.bumpSeq = t) :
    Consecutive s (q ++ [a]) (t + 1) := by
  induction q generalizing s with
  | nil =>
    obtain rfl : s = t := h
    exact ⟨ha, rfl⟩
  | cons b q ih => exact ⟨h.1, ih h.2⟩

theorem closedBy_cons : closedBy closed (a :: q) = closedBy (closed || a.closes) q := by
  simp only [closedBy, any_cons, Bool.or_assoc]

theorem closedBy_append : closedBy closed (q ++ [a]) = (closedBy closed q || a.closes) := by
  simp [closedBy, any_append, Bool.or_assoc]

theorem UpdatesOk.append (h : UpdatesOk closed q)
    (ha : UpdateOk (closedBy closed q) a.txBump a.closes) : UpdatesOk closed (q ++ [a]) := by
  induction q generalizing closed with
  | nil =>
    rw [closedBy, any_nil, Bool.or_false] at ha
    exact ⟨ha, trivial⟩
  | cons b q ih =>
    rw [closedBy_cons] at ha
    exact ⟨h.1, ih h.2 ha⟩

/-! ### The system -/

/-- Application library, flow state and the two queues between them. -/
structure CreditSys where
  conn : LibConn
  fs : FlowState
  atx : List Atx
  arx : List Arx

inductive CreditEvent
  | app (a : AppCall)
  /-- The library takes a notification, with space for `outn` events. -/
  | connupdate (outn : ℕ) (core : U16)
  | connsBump (full : Bool)
  /-- The fast path takes an update. -/
  | bump (env : FpEnv) (flowId : U32) (ts : U32)
  | packet (env : FpEnv) (flowId : U32) (p : RxPacket) (spendBudget : Bool) (ts : U32)
  | qman (env : FpEnv) (core newCore : U16) (txbuf : ℕ → Byte) (ts : U32)
  | retransmit (flowId : U32)

namespace CreditSys

def step (σ : CreditSys) : CreditEvent → CreditSys
  | .app a =>
    match σ.conn.call a with
    | .abort => σ
    | .done c => { σ with conn := c }
  | .connupdate outn core =>
    match σ.arx with
    | [] => σ
    | a :: arx =>
      match eventArxConnupdate σ.conn a outn core with
      | .abort => σ
      | .done (c, none) => { σ with conn := c }
      | .done (c, some _) => { σ with conn := c, arx := arx }
  | .connsBump full =>
    match connsBump σ.conn full with
    | .abort => σ
    | .done (c, a) => { σ with conn := c, atx := σ.atx ++ a.toList }
  | .bump env flowId ts =>
    match σ.atx with
    | [] => σ
    | a :: atx =>
      { σ with
        fs := (fastFlowsBump env σ.fs flowId a.bumpSeq a.rxBump a.txBump a.flags ts).1
        atx := atx }
  | .packet env flowId p spendBudget ts =>
    let x := fastFlowsPacket env σ.fs flowId p spendBudget ts
    { σ with fs := x.1, arx := σ.arx ++ x.2.arx.toList }
  | .qman env core newCore txbuf ts =>
    { σ with fs := (fastFlowsQman env core newCore σ.fs txbuf ts).1 }
  | .retransmit flowId => { σ with fs := (fastFlowsRetransmit σ.fs flowId).1 }

/-- Segments are ones that the trimming handles; everything else is unrestricted. -/
def Allowed (σ : CreditSys) : CreditEvent → Prop
  | .packet _ _ p _ _ => Trimmable σ.fs p
  | _ => True

def Step (σ σ' : CreditSys) : Prop := ∃ e, σ.Allowed e ∧ σ' = σ.step e

/-- Received bytes on the way to the application, and freed ones on the way back. -/
def rxQueued (σ : CreditSys) : ℕ :=
  (σ.arx.map fun a => a.rxBump.toNat).sum + (σ.atx.map fun a => a.rxBump.toNat).sum

/-- Sent bytes on the way to the fast path, and acknowledged ones on the way back. -/
def txQueued (σ : CreditSys) : ℕ :=
  (σ.atx.map fun a => a.txBump.toNat).sum + (σ.arx.map fun a => a.txBump.toNat).sum

/-- The flow state that `nicif_connection_add` sets up and the connection of the library for it,
with empty queues. -/
structure Start (σ : CreditSys) : Prop where
  conn : ConnOk σ.conn
  init : ∃ prior c, σ.fs = connectionInit prior c ∧ prior.rxOooLen = 0
  aligned : σ.fs.flag flowstTxfin = false
  rxLen : σ.conn.rxbLen = σ.fs.rxLen
  txLen : σ.conn.txbLen = σ.fs.txLen
  zero : σ.conn.rxbUsed = 0 ∧ σ.conn.rxbBump = 0 ∧ σ.conn.txbSent = 0 ∧ σ.conn.txbBump = 0 ∧
    σ.conn.bumpSeq = 0
  unclosed : σ.conn.txeosAlloc = false
  queues : σ.atx = [] ∧ σ.arx = []

/-- Space in the buffers is accounted for on both sides. -/
structure Inv (σ : CreditSys) : Prop where
  conn : ConnOk σ.conn
  rxLen : σ.fs.rxLen = σ.conn.rxbLen
  txLen : σ.fs.txLen = σ.conn.txbLen
  lens : σ.conn.rxbLen.toNat ≤ σ.conn.txbLen.toNat
  rx : σ.fs.rxAvail.toNat + σ.rxQueued + σ.conn.rxbUsed.toNat + σ.conn.rxbBump.toNat =
    σ.conn.rxbLen.toNat
  tx : σ.fs.txHeld + σ.txQueued + σ.conn.txbBump.toNat = σ.conn.txbSent.toNat
  ooo : OooInside σ.fs
  numbered : ∃ s, (s = σ.fs.bumpSeq ∨ s = σ.fs.bumpSeq + 1) ∧
    Consecutive s σ.atx (σ.conn.bumpSeq.setWidth 16)
  updates : UpdatesOk (σ.fs.flag flowstTxfin) σ.atx
  pending : UpdateOk (closedBy (σ.fs.flag flowstTxfin) σ.atx) σ.conn.txbBump σ.conn.txeosAlloc
  closed : closedBy (σ.fs.flag flowstTxfin) σ.atx = true → σ.conn.txeosAlloc = true

variable {σ σ' : CreditSys} {c : LibConn} {fs : FlowState} {arx : List Arx} {atx : List Atx} {r : ℕ}
  {env : FpEnv} {flowId ts : U32}

theorem inv_start (h : Start σ) (hlens : σ.conn.rxbLen.toNat ≤ σ.conn.txbLen.toNat) : Inv σ := by
  obtain ⟨⟨prior, ca, hfs, hooo⟩, haligned, hzero, hqueues⟩ :=
    And.intro h.init (And.intro h.aligned (And.intro h.zero h.queues))
  obtain ⟨hused, hbump, hsent, htbump, hseq⟩ := hzero
  have hclosed : closedBy (σ.fs.flag flowstTxfin) σ.atx = false := by
    rw [haligned, hqueues.1]
    rfl
  refine ⟨h.conn, h.rxLen.symm, h.txLen.symm, hlens, ?_, ?_, ?_, ?_, ?_, ?_, ?_⟩
  · rw [h.rxLen, rxQueued, hqueues.1, hqueues.2, hused, hbump, hfs]
    rfl
  · rw [txQueued, hqueues.1, hqueues.2, hsent, htbump, hfs]
    rfl
  · rw [hfs]
    exact Or.inl hooo
  · refine ⟨0, Or.inl ?_, ?_⟩
    · rw [hfs]
      rfl
    · rw [hqueues.1, hseq]
      rfl
  · rw [hqueues.1]
    trivial
  · rw [hclosed, h.unclosed]
    exact ⟨fun hc => by simp at hc, fun hc => by simp at hc⟩
  · rw [hclosed]
    intro hc
    simp at hc

/-! ### The library's steps -/

theorem pendingAtx_closes : (pendingAtx c).closes = c.txeosAlloc := by
  unfold pendingAtx Atx.closes
  dsimp only
  cases c.txeosAlloc <;> decide

theorem bumpCloses_or {a : Atx} :
    (bumpCloses fs a.flags || fs.flag flowstTxfin) = (fs.flag flowstTxfin || a.closes) := by
  unfold bumpCloses Atx.closes
  cases fs.flag flowstTxfin <;> simp

section

variable (h : Inv σ)
include h

/-- The library may move bytes between its counters and take over what it takes out of the
notification queue. -/
theorem Inv.moves {t : ℕ} (hok : ConnOk c) (hm : Moves σ.conn c r t)
    (hr : (σ.arx.map fun a => a.rxBump.toNat).sum = (arx.map fun a => a.rxBump.toNat).sum + r)
    (ht : (σ.arx.map fun a => a.txBump.toNat).sum = (arx.map fun a => a.txBump.toNat).sum + t) :
    Inv { σ with conn := c, arx := arx } := by
  have hrx := h.rx
  have htx := h.tx
  have hmrx := hm.rx
  have hmtx := hm.tx
  unfold rxQueued at hrx
  unfold txQueued at htx
  refine ⟨hok, h.rxLen.trans hm.rxLen.symm, h.txLen.trans hm.txLen.symm, ?_, ?_, ?_, h.ooo, ?_,
    h.updates, ?_, ?_⟩
  · dsimp only
    rw [hm.rxLen, hm.txLen]
    exact h.lens
  · dsimp only [rxQueued]
    rw [hm.rxLen]
    omega
  · dsimp only [txQueued]
    omega
  · dsimp only
    rw [hm.seq]
    exact h.numbered
  · rcases hm.pending with ⟨halloc, hbump⟩ | ⟨halloc, hbump⟩
    · dsimp only
      rw [halloc, hbump]
      exact h.pending
    · refine ⟨fun hc => ?_, fun hc _ => hbump hc⟩
      have := h.closed hc
      rw [halloc] at this
      simp at this
  · intro hc
    have hold := h.closed hc
    rcases hm.pending with ⟨halloc, -⟩ | ⟨halloc, -⟩
    · exact halloc.trans hold
    · rw [halloc] at hold
      simp at hold

theorem Inv.moves_own (hok : ConnOk c) (hm : Moves σ.conn c 0 0) : Inv { σ with conn := c } :=
  h.moves hok hm rfl rfl

theorem Inv.bump_le : σ.conn.txbBump.toNat ≤ σ.conn.txbSent.toNat := by
  have htx := h.tx
  omega

theorem Inv.used_lt : σ.conn.rxbUsed.toNat + σ.conn.rxbBump.toNat < 2 ^ 32 := by
  have hrx := h.rx
  have hlt := σ.conn.rxbLen.isLt
  omega

theorem Inv.app (a : AppCall) : ∃ c, σ.conn.call a = .done c ∧ Inv { σ with conn := c } := by
  obtain ⟨c, hcall, hok, hm⟩ := LibConn.call_spec h.conn h.bump_le h.used_lt a
  exact ⟨c, hcall, h.moves_own hok hm⟩

/-- A notification stays queued for lack of event space, or is taken over as a whole. -/
theorem Inv.connupdate {a : Arx} {outn : ℕ} {core : U16}
    (hr : (σ.arx.map fun a => a.rxBump.toNat).sum =
      (arx.map fun a => a.rxBump.toNat).sum + a.rxBump.toNat)
    (ht : (σ.arx.map fun a => a.txBump.toNat).sum =
      (arx.map fun a => a.txBump.toNat).sum + a.txBump.toNat) :
    (∃ c, eventArxConnupdate σ.conn a outn core = .done (c, none) ∧ Inv { σ with conn := c }) ∨
      ∃ c evs, eventArxConnupdate σ.conn a outn core = .done (c, some evs) ∧
        Inv { σ with conn := c, arx := arx } := by
  have hrx := h.rx
  have htx := h.tx
  have hlt := σ.conn.rxbLen.isLt
  unfold rxQueued at hrx
  unfold txQueued at htx
  have hok : ConnOk { σ.conn with fnCore := core } :=
    { h.conn with }
  have hspec := @openConnupdate_spec { σ.conn with fnCore := core } a outn hok
    (show σ.conn.rxbUsed.toNat + σ.conn.rxbBump.toNat + a.rxBump.toNat < 2 ^ 32 by omega)
    (show σ.conn.txbBump.toNat + a.txBump.toNat ≤ σ.conn.txbSent.toNat by omega)
  rw [← eventArxConnupdate_opened h.conn.status] at hspec
  rcases hspec with heq | ⟨c, evs, heq, hok', hm⟩
  · exact Or.inl ⟨_, heq, h.moves_own hok ⟨rfl, rfl, rfl, rfl, rfl, Or.inl ⟨rfl, rfl⟩⟩⟩
  · exact Or.inr ⟨c, evs, heq, h.moves hok' { hm with } hr ht⟩

/-- Posting an update moves the freed and sent bytes into the queue. -/
theorem Inv.post :
    Inv { σ with
      conn := { σ.conn with
        bumpSeq := σ.conn.bumpSeq + 1, rxbBump := 0, txbBump := 0, bumpPending := false }
      atx := σ.atx ++ [pendingAtx σ.conn] } := by
  have hrx := h.rx
  have htx := h.tx
  have hzero : (0 : U32).toNat = 0 := rfl
  unfold rxQueued at hrx
  unfold txQueued at htx
  refine ⟨⟨h.conn.status, h.conn.room, h.conn.head, h.conn.alloc, h.conn.drained, h.conn.acked⟩,
    h.rxLen, h.txLen, h.lens, ?_, ?_, h.ooo, ?_, ?_, ?_, ?_⟩
  · simp only [rxQueued, map_append, sum_append, map_cons, map_nil,
      sum_cons, sum_nil, pendingAtx, hzero]
    omega
  · simp only [txQueued, map_append, sum_append, map_cons, map_nil,
      sum_cons, sum_nil, pendingAtx, hzero]
    omega
  · obtain ⟨s, hs, hnum⟩ := h.numbered
    refine ⟨s, hs, ?_⟩
    dsimp only
    rw [BitVec.setWidth_add _ _ (by decide)]
    exact hnum.append rfl
  · refine h.updates.append ?_
    rw [pendingAtx_closes]
    exact h.pending
  · dsimp only
    rw [closedBy_append, pendingAtx_closes]
    refine ⟨fun _ => rfl, fun halloc hc => ?_⟩
    rw [halloc, Bool.or_true] at hc
    simp at hc
  · dsimp only
    rw [closedBy_append, pendingAtx_closes, Bool.or_eq_true]
    exact fun hc => hc.elim h.closed id

theorem Inv.connsBump {full : Bool} :
    connsBump σ.conn full ≠ .abort ∧ Inv (σ.step (.connsBump full)) := by
  have hsame : Inv { σ with atx := σ.atx ++ [] } := by
    rw [append_nil]
    exact h
  simp only [step]
  unfold Tas.connsBump
  by_cases hpending : σ.conn.bumpPending = true
  · rw [if_neg (not_not.mpr hpending), if_neg (not_not.mpr h.conn.status)]
    cases full with
    | true => exact ⟨by simp, hsame⟩
    | false => exact ⟨by simp, h.post⟩
  · rw [if_pos hpending]
    exact ⟨by simp, hsame⟩

/-! ### The fast path's steps -/

/-- The first update is accepted, and all its bytes count. -/
theorem Inv.bump_ok {a : Atx} (ha : σ.atx = a :: atx) :
    BumpOk σ.fs a.bumpSeq a.rxBump a.txBump a.flags ∧ bumpTxBytes σ.fs a.txBump = a.txBump := by
  have hrx := h.rx
  have htx := h.tx
  have hroom := h.conn.room
  have hlens := h.lens
  have hlt := σ.conn.txbLen.isLt
  unfold rxQueued at hrx
  unfold txQueued txHeld at htx
  rw [ha, map_cons, sum_cons] at hrx htx
  obtain ⟨s, hs, hnum⟩ := h.numbered
  rw [ha] at hnum
  have hupd := h.updates
  rw [ha] at hupd
  obtain ⟨⟨hbehind, hdummy⟩, -⟩ := hupd
  have hbytes : bumpTxBytes σ.fs a.txBump = a.txBump := by
    unfold bumpTxBytes
    split_ifs with hfin
    · exact (hbehind hfin).symm
    · rfl
  refine ⟨⟨bumpOutOfOrder_next (by rw [hnum.1]; exact hs), ?_, ?_, ?_⟩, hbytes⟩
  · rintro ⟨hcloses, hzero⟩
    unfold bumpCloses at hcloses
    rw [Bool.and_eq_true, Bool.not_eq_true'] at hcloses
    exact hdummy hcloses.1 hcloses.2 hzero
  · rw [hbytes]
    have h₁ : (σ.fs.txAvail + a.txBump).toNat = σ.fs.txAvail.toNat + a.txBump.toNat :=
      toNat_add_of_lt (by omega)
    have h₂ : (σ.fs.txAvail + a.txBump + σ.fs.txSent).toNat =
        σ.fs.txAvail.toNat + a.txBump.toNat + σ.fs.txSent.toNat := by
      rw [toNat_add_of_lt (by omega), h₁]
    unfold bumpTxFits
    simp only [gt_iff_lt, BitVec.lt_def, Bool.not_eq_true', decide_eq_false_iff_not, h.txLen]
    omega
  · have h₁ : (a.rxBump + σ.fs.rxAvail).toNat = a.rxBump.toNat + σ.fs.rxAvail.toNat :=
      toNat_add_of_lt (by omega)
    unfold bumpRxFits
    simp only [gt_iff_lt, BitVec.lt_def, Bool.not_eq_true', decide_eq_false_iff_not, h.txLen,
      h.rxLen]
    omega

theorem Inv.bump {a : Atx} (ha : σ.atx = a :: atx) : Inv (σ.step (.bump env flowId ts)) := by
  obtain ⟨hok, hbytes⟩ := h.bump_ok ha
  have hfs := (@fastFlowsBump_ok env σ.fs ts flowId a.rxBump a.txBump a.bumpSeq a.flags hok).1
  have hrxv := @bumpState_rxView σ.fs a.rxBump a.bumpSeq a.txBump (bumpCloses σ.fs a.flags)
  have htxv := @bumpState_txView σ.fs a.rxBump a.bumpSeq a.txBump (bumpCloses σ.fs a.flags)
  rw [hbytes] at hfs
  simp only [step, ha, hfs]
  generalize hb : bumpState σ.fs a.bumpSeq a.rxBump a.txBump (bumpCloses σ.fs a.flags) = fs' at *
  have hseq : fs'.bumpSeq = a.bumpSeq := by
    rw [← hb]
    rfl
  have hrx := h.rx
  have htx := h.tx
  have hroom := h.conn.room
  have hlt := σ.conn.txbLen.isLt
  have hlt' := σ.conn.rxbLen.isLt
  unfold rxQueued at hrx
  unfold txQueued txHeld at htx
  rw [ha, map_cons, sum_cons] at hrx htx
  simp only [rxView, RxView.mk.injEq] at hrxv
  simp only [txView, TxView.mk.injEq] at htxv
  obtain ⟨hrlen, hrav, -, hrseq, hstart, holen, -⟩ := hrxv
  obtain ⟨htlen, htav, hsent, -, -, hfin⟩ := htxv
  rw [bumpCloses_or] at hfin
  have hrav' : fs'.rxAvail.toNat = σ.fs.rxAvail.toNat + a.rxBump.toNat := by
    rw [hrav, toNat_add_of_lt (by omega)]
  have htav' : fs'.txAvail.toNat = σ.fs.txAvail.toNat + a.txBump.toNat := by
    rw [htav, toNat_add_of_lt (by omega)]
  refine ⟨h.conn, hrlen.trans h.rxLen, htlen.trans h.txLen, h.lens, ?_, ?_, ?_, ?_, ?_, ?_, ?_⟩
  · dsimp only [rxQueued]
    omega
  · dsimp only [txQueued, txHeld]
    rw [hsent]
    omega
  · have hin := oooInside_iff.mp h.ooo
    rw [oooInside_iff, holen, hstart, hrseq]
    dsimp only
    omega
  · obtain ⟨s, -, hnum⟩ := h.numbered
    rw [ha] at hnum
    refine ⟨s + 1, Or.inr ?_, hnum.2⟩
    dsimp only
    rw [hseq, hnum.1]
  · have hupd := h.updates
    rw [ha] at hupd
    dsimp only
    rw [hfin]
    exact hupd.2
  · have hpend := h.pending
    rw [ha, closedBy_cons, ← hfin] at hpend
    exact hpend
  · have hclosed := h.closed
    rw [ha, closedBy_cons, ← hfin] at hclosed
    exact hclosed

/-- Steps of the fast path that report `r` received and `t` acknowledged bytes. -/
theorem Inv.reports {x : List Arx} {t : ℕ} (hkept : fs.kept = σ.fs.kept)
    (hooo : OooInside fs) (hrx : fs.rxAvail.toNat + r = σ.fs.rxAvail.toNat)
    (htx : fs.txHeld + t = σ.fs.txHeld) (hxr : (x.map fun a => a.rxBump.toNat).sum = r)
    (hxt : (x.map fun a => a.txBump.toNat).sum = t) :
    Inv { σ with fs := fs, arx := σ.arx ++ x } := by
  have hrx₀ := h.rx
  have htx₀ := h.tx
  unfold rxQueued at hrx₀
  unfold txQueued at htx₀
  simp only [kept, KeptView.mk.injEq] at hkept
  obtain ⟨hrlen, htlen, -, -, hseq, hfin⟩ := hkept
  refine ⟨h.conn, hrlen.trans h.rxLen, htlen.trans h.txLen, h.lens, ?_, ?_, hooo, ?_, ?_, ?_, ?_⟩
  · simp only [rxQueued, map_append, sum_append]
    omega
  · simp only [txQueued, map_append, sum_append]
    omega
  · dsimp only
    rw [hseq]
    exact h.numbered
  · dsimp only
    rw [hfin]
    exact h.updates
  · dsimp only
    rw [hfin]
    exact h.pending
  · dsimp only
    rw [hfin]
    exact h.closed

theorem Inv.held_lt : σ.fs.txHeld < 2 ^ 32 := by
  have htx := h.tx
  have hlt := σ.conn.txbSent.isLt
  omega

theorem Inv.packet {p : RxPacket} {spendBudget : Bool} (ht : Trimmable σ.fs p) :
    Inv (σ.step (.packet env flowId p spendBudget ts)) := by
  simp only [step]
  have hkept := @fastFlowsPacket_kept env σ.fs p ts flowId spendBudget
  by_cases hp : Processed env σ.fs p spendBudget
  · have hspent := @packetBody_spent σ.fs p ts h.ooo ht
    have hheld := @packetAck_txHeld σ.fs p h.held_lt
    rw [← txHeld_of_txView (@packetBody_txView σ.fs p ts)] at hheld
    rw [fastFlowsPacket_processed hp] at hkept ⊢
    refine h.reports hkept hspent.ooo hspent.avail hheld ?_ ?_
    all_goals
      rcases @packetUnlock_arx env σ.fs p (packetBody σ.fs p ts) ts flowId (packetAck σ.fs p)
        (if spendBudget then p.payloadBytes else 0) with
        ⟨x, hx, -, hxr, hxt, -⟩ | ⟨hx, hxr, hxt, -⟩
      all_goals
        rw [hx]
        simp [hxr, hxt]
  · obtain ⟨hrxv, htxv⟩ := @fastFlowsPacket_views env σ.fs p ts flowId spendBudget hp
    obtain ⟨ret, counted, he⟩ := @fastFlowsPacket_not_processed env σ.fs p ts flowId spendBudget hp
    have harx : (fastFlowsPacket env σ.fs flowId p spendBudget ts).2.arx = none := by
      rcases he with he | he <;> rw [he]
    have hav : (fastFlowsPacket env σ.fs flowId p spendBudget ts).1.rxAvail = σ.fs.rxAvail :=
      congrArg RxView.avail hrxv
    rw [harx]
    exact h.reports hkept (h.ooo.of_rxView hrxv) (congrArg BitVec.toNat hav)
      (txHeld_of_txView htxv) rfl rfl

/-- Steps that only move bytes between the sent and the unsent ones. -/
theorem Inv.resends (hkept : fs.kept = σ.fs.kept) (hview : fs.rxView = σ.fs.rxView)
    (hheld : fs.txHeld = σ.fs.txHeld) : Inv { σ with fs := fs } := by
  have hav : fs.rxAvail = σ.fs.rxAvail := congrArg RxView.avail hview
  have hnew := h.reports (x := []) hkept (h.ooo.of_rxView hview) (congrArg BitVec.toNat hav) hheld
    rfl rfl
  rw [append_nil] at hnew
  exact hnew

theorem inv_step (hs : Step σ σ') : Inv σ' := by
  obtain ⟨e, hallowed, rfl⟩ := hs
  cases e with
  | app a =>
    obtain ⟨c, hcall, hinv⟩ := h.app a
    simpa only [step, hcall] using hinv
  | connupdate outn core =>
    cases ha : σ.arx with
    | nil => simpa only [step, ha] using h
    | cons a arx =>
      rcases @Inv.connupdate σ arx h a outn core (by rw [ha]; simp [Nat.add_comm])
        (by rw [ha]; simp [Nat.add_comm]) with ⟨c, heq, hinv⟩ | ⟨c, evs, heq, hinv⟩
      · rw [ha] at hinv
        simpa only [step, ha, heq] using hinv
      · simpa only [step, ha, heq] using hinv
  | connsBump full => exact h.connsBump.2
  | bump env flowId ts =>
    cases ha : σ.atx with
    | nil => simpa only [step, ha] using h
    | cons a atx => exact h.bump ha
  | packet env flowId p spendBudget ts => exact h.packet hallowed
  | qman env core newCore txbuf ts =>
    exact h.resends fastFlowsQman_txOnly.view fastFlowsQman_txOnly.view
      (fastFlowsQman_txHeld h.held_lt)
  | retransmit flowId =>
    exact h.resends fastFlowsRetransmit_txOnly.view fastFlowsRetransmit_txOnly.view
      (fastFlowsRetransmit_txHeld h.held_lt)

end

theorem inv_of_reachable {σ₀ : CreditSys} (h₀ : Start σ₀)
    (hlens : σ₀.fs.rxLen.toNat ≤ σ₀.fs.txLen.toNat) (h : ReflTransGen Step σ₀ σ) : Inv σ := by
  induction h with
  | refl => exact inv_start h₀ (by rw [h₀.rxLen, h₀.txLen]; exact hlens)
  | tail _ hs ih => exact inv_step ih hs

end CreditSys

open CreditSys in
/-- If the receive buffer is not longer than the transmit buffer, space is conserved in every
run: what the two sides and the queues hold adds up to the buffer lengths, the fast path accepts
every update, and no check of the library fails. -/
theorem credit_conserved {σ₀ σ : CreditSys} (h₀ : Start σ₀)
    (hlens : σ₀.fs.rxLen.toNat ≤ σ₀.fs.txLen.toNat) (h : ReflTransGen CreditSys.Step σ₀ σ) :
    σ.fs.rxAvail.toNat + σ.rxQueued + σ.conn.rxbUsed.toNat + σ.conn.rxbBump.toNat =
      σ.fs.rxLen.toNat ∧
    (σ.fs.txAvail.toNat + σ.fs.txSent.toNat + σ.txQueued + σ.conn.txbBump.toNat =
      σ.conn.txbSent.toNat ∧ σ.conn.txbSent.toNat ≤ σ.conn.txbLen.toNat) ∧
    (∀ a atx env flowId ts, σ.atx = a :: atx →
      (fastFlowsBump env σ.fs flowId a.bumpSeq a.rxBump a.txBump a.flags ts).2.accepted = true) ∧
    (∀ a arx outn core, σ.arx = a :: arx → eventArxConnupdate σ.conn a outn core ≠ .abort) ∧
    (∀ a, σ.conn.call a ≠ .abort) ∧ ∀ full, connsBump σ.conn full ≠ .abort := by
  have hinv := inv_of_reachable h₀ hlens h
  have hroom := hinv.conn.room
  refine ⟨by rw [hinv.rxLen]; exact hinv.rx, ⟨hinv.tx, by omega⟩, ?_, ?_, ?_, ?_⟩
  · intro a atx env flowId ts ha
    exact (fastFlowsBump_ok (hinv.bump_ok ha).1).2
  · intro a arx outn core ha
    rcases @Inv.connupdate σ arx hinv a outn core (by rw [ha]; simp [Nat.add_comm])
      (by rw [ha]; simp [Nat.add_comm]) with ⟨c, heq, -⟩ | ⟨c, evs, heq, -⟩
    · rw [heq]
      simp
    · rw [heq]
      simp
  · intro a
    obtain ⟨c, hcall, -⟩ := hinv.app a
    rw [hcall]
    simp
  · exact fun full => hinv.connsBump.1

/-! ### Receive buffers longer than the transmit buffer -/

/-- A connection after it was opened. -/
def openSys (rxLen txLen : U32) : CreditSys where
  conn := {
    rxbLen := rxLen, rxbHead := 0, rxbUsed := 0, rxbBump := 0, txbLen := txLen, txbHead := 0
    txbSent := 0, txbAllocated := 0, txbBump := 0, seqRx := 0, bumpSeq := 0, fnCore := 0
    bumpPending := false, status := .opened, txeos := false, txeosAlloc := false
    txeosAck := false, rxClosed := false }
  fs := connectionInit default { (default : ConnArgs) with rxLen := rxLen, txLen := txLen }
  atx := []
  arx := []

theorem openSys_start (rxLen txLen : U32) : CreditSys.Start (openSys rxLen txLen) where
  conn := ⟨rfl, Nat.zero_le _, Or.inr rfl, fun h => by simp [openSys] at h, fun _ => rfl,
    fun h => by simp [openSys] at h⟩
  init := ⟨_, _, rfl, rfl⟩
  aligned := by
    have hflag : (openSys 0 0).fs.flag flowstTxfin = false := by decide
    exact hflag
  rxLen := rfl
  txLen := rfl
  zero := ⟨rfl, rfl, rfl, rfl, rfl⟩
  unclosed := rfl
  queues := ⟨rfl, rfl⟩

/-- The application sends a byte and the library posts it. -/
def sendByte (σ : CreditSys) : CreditSys :=
  ((σ.step (.app (.txAlloc 1))).step (.app (.txSend 1))).step (.connsBump false)

theorem sendByte_accepted :
    (fastFlowsBump default (sendByte (openSys 8 8)).fs 0 0 0 1 0 0).2.accepted = true := by
  have hrun : ReflTransGen CreditSys.Step (openSys 8 8) (sendByte (openSys 8 8)) :=
    ((ReflTransGen.refl.tail ⟨.app (.txAlloc 1), trivial, rfl⟩).tail
      ⟨.app (.txSend 1), trivial, rfl⟩).tail ⟨.connsBump false, trivial, rfl⟩
  exact (credit_conserved (openSys_start 8 8) (by decide) hrun).2.2.1 ⟨0, 1, 0, 0⟩ [] default 0 0
    (by decide)

/-- With 16 bytes of receive buffer and 8 of transmit buffer the first byte that is sent is
rejected, and its space is lost. -/
theorem sendByte_rejected : let σ := sendByte (openSys 16 8)
    let σ' := σ.step (.bump default 0 0)
    CreditSys.Start (openSys 16 8) ∧ σ.atx = [⟨0, 1, 0, 0⟩] ∧
      (fastFlowsBump default σ.fs 0 0 0 1 0 0).2.accepted = false ∧
      σ'.fs.txAvail.toNat + σ'.fs.txSent.toNat + σ'.txQueued + σ'.conn.txbBump.toNat = 0 ∧
      σ'.conn.txbSent = 1 := by
  exact ⟨openSys_start 16 8, by decide, by decide, by decide, by decide⟩

end Tas
