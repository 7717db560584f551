import Tas.RxPath

/-! What a segment of an arbitrary sender can do to the receive buffer. -/
namespace Tas

open Word

/-- Position and free space fit the receive buffer. -/
structure RxBase (fs : FlowState) : Prop where
  pos_lt : fs.rxNextPos.toNat < fs.rxLen.toNat
  avail_le : fs.rxAvail.toNat ≤ fs.rxLen.toNat
  len_lt : fs.rxLen.toNat < 2 ^ 31

/-- The receive side is well formed: also the out-of-order interval lies in the free space. -/
structure RxOk (fs : FlowState) : Prop extends RxBase fs where
  ooo : OooInside fs

/-- Offset `k` is one of the `rx_avail` free ones that start at `rx_next_pos`. -/
def InFree (fs : FlowState) (k : ℕ) : Prop :=
  ∃ i < fs.rxAvail.toNat, k = (fs.rxNextPos.toNat + i) % fs.rxLen.toNat

/-- Every written byte lands in the free part of the receive buffer. -/
def WritesFree (fs : FlowState) (ws : List DmaWrite) : Prop :=
  ∀ w ∈ ws, ∀ k, w.Touches k → InFree fs k

variable {env : FpEnv} {fs fs' : FlowState} {p : RxPacket} {ts flowId : U32} {spendBudget : Bool}
  {src : ℕ → Byte} {skip d m : ℕ}

theorem writesFree_nil : WritesFree fs [] := fun w hw => by simp at hw

theorem RxOk.of_rxView (h : RxOk fs) (he : fs'.rxView = fs.rxView) : RxOk fs' := by
  obtain ⟨⟨hpos, hav, hlen⟩, hooo⟩ := h
  simp only [FlowState.rxView, RxView.mk.injEq] at he
  obtain ⟨h₁, h₂, h₃, h₄, h₅, h₆, -⟩ := he
  refine ⟨⟨?_, ?_, ?_⟩, ?_⟩
  · rwa [h₁, h₃]
  · rwa [h₁, h₂]
  · rwa [h₁]
  · unfold OooInside at *
    rwa [h₂, h₄, h₅, h₆]

theorem WritesFree.of_rxView {ws : List DmaWrite} (h : WritesFree fs ws)
    (he : fs'.rxView = fs.rxView) : WritesFree fs' ws := by
  simp only [FlowState.rxView, RxView.mk.injEq] at he
  obtain ⟨h₁, h₂, h₃, -⟩ := he
  unfold WritesFree InFree at *
  rwa [h₁, h₂, h₃]

/-! ### In-order data -/

theorem RxBase.rxAdvance {n : U32} (h : RxBase fs) (hn : n.toNat ≤ fs.rxAvail.toNat) :
    RxBase (rxAdvance fs n) where
  pos_lt := by
    have hlen := h.avail_le
    have hpos := h.pos_lt
    have hlt := h.len_lt
    have hwrap := toNat_wrap h.pos_lt (n := n) (by omega) (by omega)
    have hmod := Nat.mod_lt (fs.rxNextPos.toNat + n.toNat) (show 0 < fs.rxLen.toNat by omega)
    simp only [Tas.rxAdvance]
    omega
  avail_le := by
    have hlen := h.avail_le
    have hav : (fs.rxAvail - n).toNat = fs.rxAvail.toNat - n.toNat := toNat_sub_of_le hn
    simp only [Tas.rxAdvance]
    omega
  len_lt := h.len_lt

theorem CatchUp.rxOk {r : FlowState × U32} (h : RxBase fs) (hc : CatchUp fs r) : RxOk r.1 := by
  cases hc with
  | keep hin _ => exact ⟨h, hin⟩
  | discard start => exact ⟨⟨h.pos_lt, h.avail_le, h.len_lt⟩, Or.inl rfl⟩
  | merge start c hle _ =>
    have hb := h.rxAdvance hle
    exact ⟨⟨hb.pos_lt, hb.avail_le, hb.len_lt⟩, Or.inl rfl⟩

theorem packetDeliver_window (src : ℕ → Byte) (h : RxOk fs) (hm : m ≤ fs.rxAvail.toNat)
    (hn : m < 2 ^ 16) :
    RxOk (packetDeliver fs (BitVec.ofNat 32 m) src).fs ∧
      WritesFree fs (packetDeliver fs (BitVec.ofNat 32 m) src).writes := by
  have hm32 : (BitVec.ofNat 32 m).toNat = m := toNat_ofNat_of_lt (by omega)
  have hm16 : ((BitVec.ofNat 32 m).setWidth 16).toNat = m := by
    rw [BitVec.toNat_setWidth, hm32, Nat.mod_eq_of_lt hn]
  have hle := h.avail_le
  unfold packetDeliver
  split_ifs
  · constructor
    · exact (packetCatchUp_cases (rxAdvance_ooo h.ooo (by omega))).rxOk
        (h.toRxBase.rxAdvance (by omega))
    · intro w hw k hk
      obtain ⟨i, hi, hki⟩ := flowRxWrite_touches h.pos_lt h.len_lt (by omega) hw hk
      exact ⟨i, by omega, hki⟩
  · exact ⟨h, writesFree_nil⟩

theorem packetFin_rxOk {r : RxResult} (h : RxOk r.fs) : RxOk (packetFin r p).fs := by
  unfold packetFin
  split_ifs with hfin hlast
  · exact ⟨⟨h.pos_lt, h.avail_le, h.len_lt⟩, Or.inl hlast.2⟩
  · exact h
  · exact h

theorem packetFin_writes {r : RxResult} : (packetFin r p).writes = r.writes := by
  unfold packetFin
  split_ifs <;> rfl

theorem packetInOrder_window (h : RxOk fs) (hm : m ≤ fs.rxAvail.toNat) (hn : m < 2 ^ 16) :
    RxOk (packetInOrder fs p ts (BitVec.ofNat 32 m) src).fs ∧
      WritesFree fs (packetInOrder fs p ts (BitVec.ofNat 32 m) src).writes := by
  have he : (packetEstimate fs p ts).rxView = fs.rxView := rfl
  have hok := h.of_rxView he
  unfold packetInOrder
  dsimp only
  split_ifs
  · exact ⟨hok, writesFree_nil⟩
  · obtain ⟨hd, hw⟩ := packetDeliver_window src hok hm hn
    rw [packetFin_writes]
    exact ⟨packetFin_rxOk hd, hw.of_rxView he.symm⟩

/-! ### Out-of-order data -/

theorem flowRxSeqWrite_free (h : RxBase fs) (hfit : d + m ≤ fs.rxAvail.toNat) (hn : m < 2 ^ 16)
    (hm : 0 < m) :
    WritesFree fs
      (flowRxSeqWrite fs (fs.rxNextSeq + BitVec.ofNat 32 d) (BitVec.ofNat 16 m) src) := by
  have hle := h.avail_le
  have hlen := h.len_lt
  have hd := toNat_add_ofNat_sub fs.rxNextSeq (show d < 2 ^ 32 by omega)
  have hm16 : (BitVec.ofNat 16 m).toNat = m := toNat_ofNat_of_lt hn
  obtain ⟨pos, hpos, he⟩ := flowRxSeqWrite_eq (BitVec.ofNat 16 m) src h.pos_lt hlen
    (q := fs.rxNextSeq + BitVec.ofNat 32 d) (by omega)
  rw [he]
  rw [hd] at hpos
  intro w hw k hk
  obtain ⟨i, hi, hki⟩ := flowRxWrite_touches
    (by rw [hpos]; exact Nat.mod_lt _ (by omega)) hlen (by omega) hw hk
  refine ⟨d + i, by omega, ?_⟩
  rw [hki, hpos, Nat.mod_add_mod, Nat.add_assoc]

/-- A segment kept within the window leaves the interval within the window. -/
theorem OooExtends.le {o l o' l' a : ℕ} (h : OooExtends o l d m o' l') (hfit : d + m ≤ a)
    (hin : l = 0 ∨ o + l ≤ a) : o' + l' ≤ a := by
  unfold OooExtends at h
  omega

theorem packetOoo_window (h : RxOk fs) (hfit : d + m ≤ fs.rxAvail.toNat) (hn : m < 2 ^ 16) :
    RxOk (packetOoo fs (fs.rxNextSeq + BitVec.ofNat 32 d) (BitVec.ofNat 32 m) src).fs ∧
      WritesFree fs
        (packetOoo fs (fs.rxNextSeq + BitVec.ofNat 32 d) (BitVec.ofNat 32 m) src).writes := by
  have ha := fs.rxAvail.isLt
  rcases @packetOoo_cases fs d m src hn (show d + m < 2 ^ 32 by omega) with
    he | ⟨start, len, hm, hext, he⟩
  · rw [he]
    exact ⟨h, writesFree_nil⟩
  · rw [he]
    exact ⟨⟨⟨h.pos_lt, h.avail_le, h.len_lt⟩,
      Or.inr ((hext h.ooo).le hfit (oooInside_iff.mp h.ooo))⟩,
      flowRxSeqWrite_free h.toRxBase hfit hn hm⟩

/-! ### Any segment -/

theorem packetRx_window (h : RxOk fs) (hn : p.payloadBytes.toNat < 2 ^ 16)
    (hu : ¬ Untrimmed fs.rxNextSeq fs.rxAvail p.seqno p.payloadBytes.toNat) :
    RxOk (packetRx fs p ts).fs ∧ WritesFree fs (packetRx fs p ts).writes := by
  have hle := h.avail_le
  have hlen := h.len_lt
  rcases packetRx_cases ts hn (by omega) hu with
    he | ⟨skip, d, m, ht, ⟨hd, he⟩ | ⟨hd, he⟩⟩
  · rw [he]
    exact ⟨h, writesFree_nil⟩
  · have hm := ht.le
    rw [he]
    exact packetOoo_window h ht.fits (by omega)
  · have hm := ht.le
    have hfit := ht.fits
    rw [he]
    exact packetInOrder_window h (by omega) (by omega)

/-- A segment that overruns the window is stored when it starts the out-of-order interval or
extends it at its right end. -/
def StoresOverrun (env : FpEnv) (fs : FlowState) (p : RxPacket) (spendBudget : Bool) : Prop :=
  Processed env fs p spendBudget ∧
    Untrimmed fs.rxNextSeq fs.rxAvail p.seqno p.payloadBytes.toNat ∧
    (fs.rxOooLen = 0 ∨ fs.rxOooStart + fs.rxOooLen = p.seqno)

instance (env : FpEnv) (fs : FlowState) (p : RxPacket) (spendBudget : Bool) :
    Decidable (StoresOverrun env fs p spendBudget) := by
  unfold StoresOverrun; infer_instance

/-- An overrunning segment reaches the out-of-order interval uncut. -/
theorem packetRx_untrimmed (hn : p.payloadBytes.toNat < 2 ^ 16) (hlen : fs.rxAvail.toNat < 2 ^ 31)
    (hu : Untrimmed fs.rxNextSeq fs.rxAvail p.seqno p.payloadBytes.toNat) :
    packetRx fs p ts = packetOoo fs p.seqno p.payloadBytes (p.payloadFrom 0) := by
  have hn16 : (p.payloadBytes.setWidth 16).toNat = p.payloadBytes.toNat := by
    rw [BitVec.toNat_setWidth, Nat.mod_eq_of_lt hn]
  have hin := hu.2.1
  have htrim : tcpTrimRxbuf fs.rxNextSeq fs.rxAvail p.seqno (p.payloadBytes.setWidth 16) =
      some (BitVec.ofNat 16 0, BitVec.ofNat 16 0) :=
    tcpTrimRxbuf_untrimmed (by rwa [hn16]) (by omega)
  have hne : p.seqno ≠ fs.rxNextSeq := by
    intro he
    have hpos := hu.1
    rw [he, BitVec.sub_self, BitVec.toNat_zero] at hpos
    omega
  rw [packetRx_some (t := 0) (by omega) (by omega) (by omega) htrim]
  simp [hne]

/-- It ends behind the window. -/
theorem Untrimmed.overruns {s a q : U32} {n : ℕ} (hu : Untrimmed s a q n) :
    a.toNat < (q - s).toNat + n := by
  obtain ⟨hpos, hin, hs, hq⟩ := hu
  have hc := toNat_sub_cases q s
  omega

theorem packetOoo_ignored {q b : U32} (hl : fs.rxOooLen ≠ 0) (hleft : q + b ≠ fs.rxOooStart)
    (hright : fs.rxOooStart + fs.rxOooLen ≠ q) :
    packetOoo fs q b src = { fs := fs, triggerAck := true } := by
  unfold packetOoo
  split_ifs <;> rfl

theorem packetOoo_rxOooLen (src : ℕ → Byte) {q b : U32}
    (h : fs.rxOooLen = 0 ∨ fs.rxOooStart + fs.rxOooLen = q) :
    (packetOoo fs q b src).fs.rxOooLen = fs.rxOooLen + b := by
  unfold packetOoo
  split_ifs with hb hl hleft hright
  · simp [hb]
  · simp [hl]
  · rfl
  · rfl
  · exact (h.elim hl hright).elim

/-- Stored at the start or right end of the interval, it breaks the window condition; elsewhere
it is ignored. -/
theorem packetRx_untrimmed_window (h : RxOk fs) (hn : p.payloadBytes.toNat < 2 ^ 16)
    (hu : Untrimmed fs.rxNextSeq fs.rxAvail p.seqno p.payloadBytes.toNat) :
    (RxOk (packetRx fs p ts).fs ∧ WritesFree fs (packetRx fs p ts).writes) ↔
      ¬ (fs.rxOooLen = 0 ∨ fs.rxOooStart + fs.rxOooLen = p.seqno) := by
  have hle := h.avail_le
  have hlen := h.len_lt
  have hin := hu.2.1
  have hover := hu.overruns
  have hq := add_ofNat_toNat_sub fs.rxNextSeq p.seqno
  have hb : BitVec.ofNat 32 p.payloadBytes.toNat = p.payloadBytes := by
    rw [BitVec.ofNat_toNat, BitVec.setWidth_eq]
  have hcases := @packetOoo_cases fs _ _ (p.payloadFrom 0) hn
    (show (p.seqno - fs.rxNextSeq).toNat + p.payloadBytes.toNat < 2 ^ 32 by omega)
  rw [hq, hb] at hcases
  rw [packetRx_untrimmed hn (by omega) hu]
  constructor
  · rintro ⟨hok, -⟩ hadj
    rcases hcases with he | ⟨start, len, hm, hext, he⟩
    · have hgrow := packetOoo_rxOooLen (p.payloadFrom 0) (b := p.payloadBytes) hadj
      rw [he] at hgrow
      have hzero : p.payloadBytes = 0 := by simpa using hgrow
      rw [toNat_eq_zero.mpr hzero] at hover
      omega
    · rw [he] at hok
      have hnew := oooInside_iff.mp hok.ooo
      have hold := oooInside_iff.mp h.ooo
      have hext := hext h.ooo
      dsimp only at hnew
      unfold OooExtends at hext
      omega
  · intro hadj
    rw [not_or] at hadj
    have hleft : p.seqno + p.payloadBytes ≠ fs.rxOooStart := by
      intro he
      have hold := h.ooo.resolve_left hadj.1
      have h₁ := toNat_add_cases p.seqno p.payloadBytes
      have h₂ := toNat_sub_cases p.seqno fs.rxNextSeq
      have h₃ := toNat_sub_cases fs.rxOooStart fs.rxNextSeq
      rw [he] at h₁
      omega
    rw [packetOoo_ignored hadj.1 hleft hadj.2]
    exact ⟨h, writesFree_nil⟩

/-- For a segment of any sender, `fast_flows_packet` keeps the receive side well formed and
writes to the free part of the buffer only, except for the overruns it stores. -/
theorem fastFlowsPacket_window_iff (h : RxOk fs) (hn : p.payloadBytes.toNat ≤ 65535) :
    (RxOk (fastFlowsPacket env fs flowId p spendBudget ts).1 ∧
      WritesFree fs (fastFlowsPacket env fs flowId p spendBudget ts).2.writes) ↔
      ¬ StoresOverrun env fs p spendBudget := by
  by_cases hp : Processed env fs p spendBudget
  · have hview : (packetAck fs p).fs.rxView = fs.rxView := packetAck_rxView
    have hok := h.of_rxView hview
    simp only [FlowState.rxView, RxView.mk.injEq] at hview
    obtain ⟨hlen, hav, hpos, hseq, hstart, hooo, -⟩ := hview
    have hfree : ∀ ws, WritesFree (packetAck fs p).fs ws ↔ WritesFree fs ws := by
      intro ws
      simp only [WritesFree, InFree, hlen, hav, hpos]
    rw [fastFlowsPacket_processed hp]
    simp only [packetUnlock, StoresOverrun, hp, true_and, packetBody]
    split_ifs with hreset
    · have hzero := toNat_eq_zero.mpr (packetAck_reset hreset)
      have hu : ¬ Untrimmed fs.rxNextSeq fs.rxAvail p.seqno p.payloadBytes.toNat := by
        have hlt := p.seqno.isLt
        unfold Untrimmed
        omega
      exact ⟨fun _ hu' => hu hu'.1, fun _ => ⟨hok, writesFree_nil⟩⟩
    · rw [← hfree, ← hseq, ← hav, ← hstart, ← hooo]
      by_cases hu : Untrimmed (packetAck fs p).fs.rxNextSeq (packetAck fs p).fs.rxAvail p.seqno
          p.payloadBytes.toNat
      · rw [packetRx_untrimmed_window hok (by omega) hu]
        exact ⟨fun hadj hs => hadj hs.2, fun hs hadj => hs ⟨hu, hadj⟩⟩
      · exact ⟨fun _ hs => hu hs.1, fun _ => packetRx_window hok (by omega) hu⟩
  · obtain ⟨ret, counted, he⟩ := @fastFlowsPacket_not_processed env fs p ts flowId spendBudget hp
    have hview := (@fastFlowsPacket_views env fs p ts flowId spendBudget hp).1
    have hw : (fastFlowsPacket env fs flowId p spendBudget ts).2.writes = [] := by
      rcases he with he | he <;> rw [he]
    rw [hw]
    exact ⟨fun _ hs => hp hs.1, fun _ => ⟨h.of_rxView hview, writesFree_nil⟩⟩

/-- A 16 byte buffer with 8 bytes free, whose window starts at `seq`. -/
def halfFullFlow (seq : U32) : FlowState :=
  { (default : FlowState) with rxLen := 16, rxAvail := 8, rxNextSeq := seq }

/-- A segment with 8 bytes of payload at `seq`. -/
def eightBytes (seq : U32) : RxPacket :=
  { (default : RxPacket) with ipLen := 48, hdrlen := 5, seqno := seq }

theorem halfFullFlow_rxOk (seq : U32) : RxOk (halfFullFlow seq) :=
  ⟨⟨show 0 < 16 by decide, show 8 ≤ 16 by decide, show 16 < 2 ^ 31 by decide⟩, Or.inl rfl⟩

/-- The window ends two bytes before the largest sequence number, and the segment starts two
bytes before that end. Its last six bytes overwrite data that was reported before. -/
theorem overrun_overwrites_reported :
    RxOk (halfFullFlow 4294967286) ∧ (eightBytes 4294967292).payloadBytes.toNat ≤ 65535 ∧
      ¬ OooInside (fastFlowsPacket default (halfFullFlow 4294967286) 0 (eightBytes 4294967292)
        false 0).1 ∧
      ∃ w ∈ (fastFlowsPacket default (halfFullFlow 4294967286) 0 (eightBytes 4294967292)
        false 0).2.writes, w.Touches 8 ∧ ¬ InFree (halfFullFlow 4294967286) 8 := by
  refine ⟨halfFullFlow_rxOk _, by decide, ?_, ⟨6, List.replicate 8 0⟩, by decide, ?_, ?_⟩
  · unfold OooInside
    decide
  · unfold DmaWrite.Touches
    decide
  · rintro ⟨i, hi, he⟩
    have hlt : i < 8 := hi
    have he' : 8 = (0 + i) % 16 := he
    omega

/-- The same overrun away from the largest sequence number is cut off. -/
theorem window_safe_at_zero :
    RxOk (fastFlowsPacket default (halfFullFlow 0) 0 (eightBytes 6) false 0).1 ∧
      WritesFree (halfFullFlow 0)
        (fastFlowsPacket default (halfFullFlow 0) 0 (eightBytes 6) false 0).2.writes :=
  (fastFlowsPacket_window_iff (halfFullFlow_rxOk 0) (by decide)).mpr (by decide)

end Tas
