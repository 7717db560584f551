import Tas.RxPath

/-! What the fast path operations take out of a flow's free receive buffer and put into its
transmit buffer, to the byte. -/
namespace Tas

open Word FlowState

variable {env : FpEnv} {fs fs' : FlowState} {p : RxPacket} {r : RxResult} {ts n flowId : U32}
  {src : ℕ → Byte} {d m : ℕ} {spendBudget : Bool}

/-! ### Receive buffer -/

/-- Length of the segment and its place in the window are such that trimming works. -/
structure Trimmable (fs : FlowState) (p : RxPacket) : Prop where
  bytes : p.payloadBytes.toNat ≤ 65535
  nowrap : (p.seqno - fs.rxNextSeq).toNat ≤ fs.rxAvail.toNat →
    (p.seqno - fs.rxNextSeq).toNat + p.payloadBytes.toNat < 2 ^ 32
  cut : ¬ Untrimmed fs.rxNextSeq fs.rxAvail p.seqno p.payloadBytes.toNat

/-- The free buffer shrinks by the reported bytes. -/
structure RxSpent (fs : FlowState) (r : RxResult) : Prop where
  avail : r.fs.rxAvail.toNat + r.rxBump.toNat = fs.rxAvail.toNat
  len : r.fs.rxLen = fs.rxLen
  ooo : OooInside r.fs

theorem OooInside.of_rxView (h : OooInside fs) (he : fs'.rxView = fs.rxView) : OooInside fs' := by
  simp only [rxView, RxView.mk.injEq] at he
  obtain ⟨-, h₂, -, h₄, h₅, h₆, -⟩ := he
  unfold OooInside at *
  rwa [h₂, h₄, h₅, h₆]

theorem CatchUp.spent {x : FlowState × U32} (h : CatchUp fs x) :
    x.1.rxAvail.toNat + x.2.toNat = fs.rxAvail.toNat ∧ x.1.rxLen = fs.rxLen ∧ OooInside x.1 := by
  cases h with
  | keep hin _ => exact ⟨rfl, rfl, hin⟩
  | discard start => exact ⟨rfl, rfl, Or.inl rfl⟩
  | merge start c hc _ =>
    refine ⟨?_, rfl, Or.inl rfl⟩
    change (fs.rxAvail - c).toNat + c.toNat = fs.rxAvail.toNat
    rw [toNat_sub_of_le hc]
    omega

theorem packetDeliver_spent (src : ℕ → Byte) (h : OooInside fs) (hm : m ≤ fs.rxAvail.toNat) :
    RxSpent fs (packetDeliver fs (BitVec.ofNat 32 m) src) := by
  have ha := fs.rxAvail.isLt
  have hm32 : (BitVec.ofNat 32 m).toNat = m := toNat_ofNat_of_lt (by omega)
  unfold packetDeliver
  split_ifs
  · obtain ⟨hav, hlen, hooo⟩ :=
      (packetCatchUp_cases (rxAdvance_ooo h (show (BitVec.ofNat 32 m).toNat ≤ _ by omega))).spent
    have hadv : (rxAdvance fs (BitVec.ofNat 32 m)).rxAvail.toNat = fs.rxAvail.toNat - m := by
      change (fs.rxAvail - BitVec.ofNat 32 m).toNat = _
      rw [toNat_sub_of_le (by omega), hm32]
    refine ⟨?_, hlen, hooo⟩
    dsimp only
    rw [toNat_add_of_lt (by omega)]
    omega
  · exact ⟨rfl, rfl, h⟩

theorem packetFin_spent (h : RxSpent fs r) : RxSpent fs (packetFin r p) := by
  unfold packetFin
  split_ifs with hfin hlast
  · exact ⟨h.avail, h.len, Or.inl hlast.2⟩
  · exact h
  · exact h

theorem packetInOrder_spent (h : OooInside fs) (hm : m ≤ fs.rxAvail.toNat) :
    RxSpent fs (packetInOrder fs p ts (BitVec.ofNat 32 m) src) := by
  have hest : OooInside (packetEstimate fs p ts) := h.of_rxView rfl
  unfold packetInOrder
  dsimp only
  split_ifs
  · exact ⟨rfl, rfl, hest⟩
  · obtain ⟨hav, hlen, hooo⟩ := packetDeliver_spent src hest hm
    exact packetFin_spent ⟨hav, hlen, hooo⟩

theorem packetOoo_spent (h : OooInside fs) (hfit : d + m ≤ fs.rxAvail.toNat) (hn : m < 2 ^ 16) :
    RxSpent fs (packetOoo fs (fs.rxNextSeq + BitVec.ofNat 32 d) (BitVec.ofNat 32 m) src) := by
  have ha := fs.rxAvail.isLt
  rcases @packetOoo_cases fs d m src hn (show d + m < 2 ^ 32 by omega) with
    he | ⟨start, len, -, hext, he⟩
  · rw [he]
    exact ⟨rfl, rfl, h⟩
  · rw [he]
    refine ⟨rfl, rfl, Or.inr ?_⟩
    have hext := hext h
    have hin := oooInside_iff.mp h
    unfold OooExtends at hext
    dsimp only
    omega

theorem packetRx_spent (h : OooInside fs) (ht : Trimmable fs p) :
    RxSpent fs (packetRx fs p ts) := by
  have hn := ht.bytes
  rcases packetRx_cases ts (by omega) ht.nowrap ht.cut with
    he | ⟨skip, d, m, htrim, ⟨hd, he⟩ | ⟨hd, he⟩⟩
  · rw [he]
    exact ⟨rfl, rfl, h⟩
  · have hle := htrim.le
    rw [he]
    exact packetOoo_spent h htrim.fits (by omega)
  · have hfit := htrim.fits
    rw [he]
    exact packetInOrder_spent h (by omega)

theorem Trimmable.of_rxView (h : Trimmable fs p) (he : fs'.rxView = fs.rxView) :
    Trimmable fs' p := by
  simp only [rxView, RxView.mk.injEq] at he
  obtain ⟨-, h₂, -, h₄, -⟩ := he
  refine ⟨h.bytes, ?_, ?_⟩
  · rw [h₂, h₄]
    exact h.nowrap
  · rw [h₂, h₄]
    exact h.cut

theorem packetBody_spent (h : OooInside fs) (ht : Trimmable fs p) :
    RxSpent fs (packetBody fs p ts) := by
  have hview : (packetAck fs p).fs.rxView = fs.rxView := packetAck_rxView
  have hav : (packetAck fs p).fs.rxAvail = fs.rxAvail := congrArg RxView.avail hview
  have hlen : (packetAck fs p).fs.rxLen = fs.rxLen := congrArg RxView.len hview
  have hooo := h.of_rxView hview
  unfold packetBody
  split_ifs
  · refine ⟨?_, hlen, hooo⟩
    change (packetAck fs p).fs.rxAvail.toNat + 0 = _
    rw [hav, Nat.add_zero]
  · obtain ⟨h₁, h₂, h₃⟩ := @packetRx_spent _ _ ts hooo (ht.of_rxView hview)
    exact ⟨by rw [h₁, hav], by rw [h₂, hlen], h₃⟩

/-! ### Transmit buffer -/

/-- Bytes in the transmit buffer, sent or not. -/
def FlowState.txHeld (fs : FlowState) : ℕ := fs.txAvail.toNat + fs.txSent.toNat

theorem FlowState.txHeld_of_txView (he : fs'.txView = fs.txView) : fs'.txHeld = fs.txHeld := by
  have hav : fs'.txAvail = fs.txAvail := congrArg TxView.avail he
  have hsent : fs'.txSent = fs.txSent := congrArg TxView.sent he
  unfold txHeld
  rw [hav, hsent]

theorem ackAdvance_txHeld (hn : n.toNat ≤ fs.txHeld) :
    (ackAdvance fs n).txHeld + n.toNat = fs.txHeld := by
  unfold txHeld at *
  unfold ackAdvance
  split_ifs with hle
  · rw [BitVec.le_def] at hle
    have hsent : (fs.txSent - n).toNat = fs.txSent.toNat - n.toNat := toNat_sub_of_le hle
    dsimp only
    omega
  · rw [BitVec.le_def] at hle
    obtain ⟨hover, hav⟩ := toNat_sub_sub (x := fs.txAvail) (Nat.le_of_not_le hle) (by omega)
    change (fs.txAvail - (n - fs.txSent)).toNat + 0 + n.toNat = _
    omega

theorem flowResetRetransmit_txHeld (h : fs.txHeld < 2 ^ 32) :
    (flowResetRetransmit fs).txHeld = fs.txHeld := by
  unfold txHeld at *
  change (fs.txAvail + fs.txSent).toNat + 0 = _
  rw [toNat_add_of_lt (by omega), Nat.add_zero]

theorem packetDupack_txHeld {bytes : U32} (h : fs.txHeld < 2 ^ 32) :
    (packetDupack fs n bytes).fs.txHeld = fs.txHeld ∧ (packetDupack fs n bytes).txBump = n := by
  unfold packetDupack
  split_ifs
  · exact ⟨rfl, rfl⟩
  · dsimp only
    split_ifs
    · exact ⟨flowResetRetransmit_txHeld h, rfl⟩
    · exact ⟨rfl, rfl⟩
  · exact ⟨rfl, rfl⟩

theorem packetAck_txHeld (h : fs.txHeld < 2 ^ 32) :
    (packetAck fs p).fs.txHeld + (packetAck fs p).txBump.toNat = fs.txHeld := by
  unfold packetAck
  split_ifs
  · cases hack : tcpValidRxack (countAck fs) p.ackno with
    | none => rfl
    | some b =>
      have hle : b.toNat ≤ fs.txSent.toNat + fs.txAvail.toNat := by
        refine (tcpValidRxack_some hack ?_).1
        change fs.txSent.toNat + fs.txAvail.toNat < 2 ^ 32
        unfold txHeld at h
        omega
      have hadv := @ackAdvance_txHeld (countAckBytes (countAck fs) p b) b
        (show b.toNat ≤ fs.txAvail.toNat + fs.txSent.toNat by omega)
      change _ = fs.txHeld at hadv
      obtain ⟨hheld, hbump⟩ := @packetDupack_txHeld
        (ackAdvance (countAckBytes (countAck fs) p b) b) b p.payloadBytes (by omega)
      dsimp only
      rw [hheld, hbump, hadv]
  · rfl

theorem fastFlowsQman_txHeld {core newCore : U16} {txbuf : ℕ → Byte} (h : fs.txHeld < 2 ^ 32) :
    (fastFlowsQman env core newCore fs txbuf ts).1.txHeld = fs.txHeld := by
  unfold fastFlowsQman
  split_ifs with hcore hav
  · rfl
  · rfl
  · have hle : (qmanLen fs).toNat ≤ fs.txAvail.toNat := by
      have hmin := toNat_tcpTxavail fs none
      simp only [Option.getD_none] at hmin
      unfold qmanLen
      simp only [BitVec.lt_def]
      split_ifs <;> omega
    unfold txHeld at *
    change (fs.txAvail - qmanLen fs).toNat + (fs.txSent + qmanLen fs).toNat = _
    rw [toNat_sub_of_le hle, toNat_add_of_lt (by omega)]
    omega

theorem fastFlowsRetransmit_txHeld (h : fs.txHeld < 2 ^ 32) :
    (fastFlowsRetransmit fs flowId).1.txHeld = fs.txHeld := by
  unfold fastFlowsRetransmit
  split_ifs
  · rfl
  · exact flowResetRetransmit_txHeld h

end Tas
