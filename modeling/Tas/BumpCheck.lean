import Tas.FlowViews

/-! The checks of `fast_flows_bump`: which updates from the application keep the buffers within
their lengths, and which updates that fit are accepted. -/
namespace Tas

open Word

variable {env : FpEnv} {fs : FlowState} {flowId rxBump txBump ts : U32} {bumpSeq : U16} {flags : U8}

/-- The bytes of either direction are within the buffer. -/
structure BufferBounds (fs : FlowState) : Prop where
  rx : fs.rxAvail.toNat ≤ fs.rxLen.toNat
  tx : fs.txAvail.toNat + fs.txSent.toNat ≤ fs.txLen.toNat

/-- The update fits the free space of both buffers. -/
def BumpFits (fs : FlowState) (rxBump txBump : U32) : Prop :=
  fs.rxAvail.toNat + rxBump.toNat ≤ fs.rxLen.toNat ∧
    fs.txAvail.toNat + fs.txSent.toNat + txBump.toNat ≤ fs.txLen.toNat

/-- An update is validated. -/
structure BumpValidated (env : FpEnv) (fs : FlowState) (flowId : U32) (bumpSeq : U16)
    (rxBump txBump : U32) (flags : U8) (ts : U32) : Prop where
  bounds : BufferBounds (fastFlowsBump env fs flowId bumpSeq rxBump txBump flags ts).1
  accepts : bumpSeq = fs.bumpSeq + 1 → BumpFits fs rxBump txBump →
    (fastFlowsBump env fs flowId bumpSeq rxBump txBump flags ts).2.accepted = true ∧
      (fastFlowsBump env fs flowId bumpSeq rxBump txBump flags ts).1.rxAvail =
        fs.rxAvail + rxBump ∧
      (fastFlowsBump env fs flowId bumpSeq rxBump txBump flags ts).1.txAvail = fs.txAvail + txBump
  rejects : (fastFlowsBump env fs flowId bumpSeq rxBump txBump flags ts).2.accepted = false →
    ((fastFlowsBump env fs flowId bumpSeq rxBump txBump flags ts).1 = fs ∨
      (fastFlowsBump env fs flowId bumpSeq rxBump txBump flags ts).1 =
        { fs with bumpSeq := bumpSeq }) ∧
      (fastFlowsBump env fs flowId bumpSeq rxBump txBump flags ts).2.qset = none ∧
      (fastFlowsBump env fs flowId bumpSeq rxBump txBump flags ts).2.tx = none

/-- The checks decide correctly: no sum wraps around where it matters, the length of the transmit
buffer does for the receive buffer, and the update obeys the rules of a closed stream. -/
structure BumpChecks (fs : FlowState) (bumpSeq : U16) (rxBump txBump : U32) (flags : U8) :
    Prop where
  rx : BumpOk fs bumpSeq rxBump txBump flags →
    fs.rxAvail.toNat + rxBump.toNat ≤ fs.rxLen.toNat ∨ 2 ^ 32 ≤ fs.rxAvail.toNat + rxBump.toNat
  tx : BumpOk fs bumpSeq rxBump txBump flags →
    (fs.txAvail + bumpTxBytes fs txBump).toNat + fs.txSent.toNat < 2 ^ 32
  fits : bumpSeq = fs.bumpSeq + 1 → BumpFits fs rxBump txBump →
    fs.rxAvail.toNat + rxBump.toNat ≤ fs.txLen.toNat ∧
      (bumpCloses fs flags = true → txBump ≠ 0) ∧ (fs.flag flowstTxfin = true → txBump = 0)

theorem bumpTxFits_iff_le {b : U32} : bumpTxFits fs b = true ↔
    b.toNat ≤ fs.txLen.toNat ∧ (fs.txAvail + b).toNat ≤ fs.txLen.toNat ∧
      (fs.txAvail + b + fs.txSent).toNat ≤ fs.txLen.toNat := by
  unfold bumpTxFits
  simp [BitVec.lt_def]

theorem bumpRxFits_iff_le : bumpRxFits fs rxBump = true ↔
    rxBump.toNat ≤ fs.rxLen.toNat ∧ (rxBump + fs.rxAvail).toNat ≤ fs.txLen.toNat := by
  unfold bumpRxFits
  simp [BitVec.lt_def]

/-- An update that is next and fits passes the checks, if the sum fits the transmit buffer too and
the update does not close without a byte. -/
theorem bumpOk_of_fits (hfits : BumpFits fs rxBump txBump)
    (hrx : fs.rxAvail.toNat + rxBump.toNat ≤ fs.txLen.toNat)
    (hclose : bumpCloses fs flags = true → txBump ≠ 0) :
    BumpOk fs (fs.bumpSeq + 1) rxBump txBump flags := by
  obtain ⟨hrxfit, htxfit⟩ := hfits
  have hlen := fs.txLen.isLt
  refine ⟨bumpOutOfOrder_next (.inr rfl), fun h => hclose h.1 h.2, bumpTxFits_iff_le.2 ?_,
    bumpRxFits_iff_le.2 ?_⟩
  · have hle : (bumpTxBytes fs txBump).toNat ≤ txBump.toNat := by
      unfold bumpTxBytes
      split_ifs
      · exact Nat.zero_le _
      · exact le_rfl
    have hsum : (fs.txAvail + bumpTxBytes fs txBump).toNat =
        fs.txAvail.toNat + (bumpTxBytes fs txBump).toNat := toNat_add_of_lt (by omega)
    have hall : (fs.txAvail + bumpTxBytes fs txBump + fs.txSent).toNat =
        (fs.txAvail + bumpTxBytes fs txBump).toNat + fs.txSent.toNat :=
      toNat_add_of_lt (by omega)
    omega
  · have hsum : (rxBump + fs.rxAvail).toNat = rxBump.toNat + fs.rxAvail.toNat :=
      toNat_add_of_lt (by omega)
    omega

theorem bump_accepted_iff :
    (fastFlowsBump env fs flowId bumpSeq rxBump txBump flags ts).2.accepted = true ↔
      BumpOk fs bumpSeq rxBump txBump flags := by
  refine ⟨fun h => ?_, fun hok => (fastFlowsBump_ok hok).2⟩
  by_contra hno
  have hrejected := (@fastFlowsBump_rxView_not_ok env fs ts flowId rxBump txBump bumpSeq flags
    hno).2
  exact absurd (hrejected.symm.trans h) Bool.false_ne_true

/-- The registers that the checks are about, after an accepted update. -/
theorem bumped_of_ok (hok : BumpOk fs bumpSeq rxBump txBump flags) :
    (fastFlowsBump env fs flowId bumpSeq rxBump txBump flags ts).1.rxView =
        { fs.rxView with avail := fs.rxAvail + rxBump } ∧
      (fastFlowsBump env fs flowId bumpSeq rxBump txBump flags ts).1.txView =
        { fs.txView with
          avail := fs.txAvail + bumpTxBytes fs txBump
          fin := bumpCloses fs flags || fs.flag flowstTxfin } := by
  rw [(fastFlowsBump_ok hok).1]
  exact ⟨bumpState_rxView, bumpState_txView⟩

/-- The buffers after an accepted update: only a sum that does not wrap around can be too large. -/
theorem bounds_of_ok (h : BufferBounds fs) (hok : BumpOk fs bumpSeq rxBump txBump flags) :
    BufferBounds (fastFlowsBump env fs flowId bumpSeq rxBump txBump flags ts).1 ↔
      (fs.rxAvail.toNat + rxBump.toNat ≤ fs.rxLen.toNat ∨
        2 ^ 32 ≤ fs.rxAvail.toNat + rxBump.toNat) ∧
      (fs.txAvail + bumpTxBytes fs txBump).toNat + fs.txSent.toNat < 2 ^ 32 := by
  obtain ⟨hrxView, htxView⟩ :=
    @bumped_of_ok env fs flowId rxBump txBump ts bumpSeq flags hok
  generalize (fastFlowsBump env fs flowId bumpSeq rxBump txBump flags ts).1 = fs' at *
  have hrxLen : fs'.rxLen = fs.rxLen := congrArg RxView.len hrxView
  have hrxAvail : fs'.rxAvail = fs.rxAvail + rxBump := congrArg RxView.avail hrxView
  have htxLen : fs'.txLen = fs.txLen := congrArg TxView.len htxView
  have htxSent : fs'.txSent = fs.txSent := congrArg TxView.sent htxView
  have htxAvail : fs'.txAvail = fs.txAvail + bumpTxBytes fs txBump := congrArg TxView.avail htxView
  have hrxsum := toNat_add_cases fs.rxAvail rxBump
  have htxsum := toNat_add_cases (fs.txAvail + bumpTxBytes fs txBump) fs.txSent
  have hrx := h.rx
  have hcheck := (bumpTxFits_iff_le.1 hok.2.2.1).2.2
  have hlen := fs.txLen.isLt
  refine ⟨fun hb => ?_, fun ⟨hrxok, htxok⟩ => ⟨?_, ?_⟩⟩
  · have hb₁ := hb.rx
    have hb₂ := hb.tx
    rw [hrxAvail, hrxLen] at hb₁
    rw [htxAvail, htxSent, htxLen] at hb₂
    omega
  · rw [hrxAvail, hrxLen]
    omega
  · rw [htxAvail, htxSent, htxLen]
    omega

/-- An update that is next and fits takes effect exactly if the sum fits the transmit buffer too and
the update obeys the rules of a closed stream. -/
theorem takes_effect_iff (hfits : BumpFits fs rxBump txBump) :
    ((fastFlowsBump env fs flowId (fs.bumpSeq + 1) rxBump txBump flags ts).2.accepted = true ∧
      (fastFlowsBump env fs flowId (fs.bumpSeq + 1) rxBump txBump flags ts).1.rxAvail =
        fs.rxAvail + rxBump ∧
      (fastFlowsBump env fs flowId (fs.bumpSeq + 1) rxBump txBump flags ts).1.txAvail =
        fs.txAvail + txBump) ↔
    fs.rxAvail.toNat + rxBump.toNat ≤ fs.txLen.toNat ∧
      (bumpCloses fs flags = true → txBump ≠ 0) ∧
      (fs.flag flowstTxfin = true → txBump = 0) := by
  refine ⟨fun ⟨haccepted, _, htx⟩ => ?_, fun ⟨hrx, hclose, hfin⟩ => ?_⟩
  · have hok := bump_accepted_iff.1 haccepted
    have htxAvail := congrArg TxView.avail
      (@bumped_of_ok env fs flowId rxBump txBump ts (fs.bumpSeq + 1) flags hok).2
    have hlen := fs.rxLen.isLt
    have hle := hfits.1
    have hsum : (rxBump + fs.rxAvail).toNat = rxBump.toNat + fs.rxAvail.toNat :=
      toNat_add_of_lt (by omega)
    have hcheck := (bumpRxFits_iff_le.1 hok.2.2.2).2
    refine ⟨by omega, fun hcl hz => hok.2.1 ⟨hcl, hz⟩, fun hclosed => ?_⟩
    -- after the close no bytes are taken
    have hnone : bumpTxBytes fs txBump = 0 := if_pos hclosed
    have hsame : fs.txAvail + txBump = fs.txAvail + 0 := by
      rw [← hnone]
      exact htx.symm.trans htxAvail
    exact (BitVec.add_right_inj fs.txAvail).1 hsame
  · have hok := bumpOk_of_fits hfits hrx hclose
    obtain ⟨hrxView, htxView⟩ :=
      @bumped_of_ok env fs flowId rxBump txBump ts (fs.bumpSeq + 1) flags hok
    refine ⟨bump_accepted_iff.2 hok, congrArg RxView.avail hrxView, ?_⟩
    have hbytes : bumpTxBytes fs txBump = txBump := by
      unfold bumpTxBytes
      split_ifs with hclosed
      · exact (hfin hclosed).symm
      · rfl
    exact (congrArg TxView.avail htxView).trans (congrArg (fs.txAvail + ·) hbytes)

theorem rejected_changes_nothing
    (h : (fastFlowsBump env fs flowId bumpSeq rxBump txBump flags ts).2.accepted = false) :
    ((fastFlowsBump env fs flowId bumpSeq rxBump txBump flags ts).1 = fs ∨
      (fastFlowsBump env fs flowId bumpSeq rxBump txBump flags ts).1 =
        { fs with bumpSeq := bumpSeq }) ∧
      (fastFlowsBump env fs flowId bumpSeq rxBump txBump flags ts).2.qset = none ∧
      (fastFlowsBump env fs flowId bumpSeq rxBump txBump flags ts).2.tx = none := by
  have hno : ¬ BumpOk fs bumpSeq rxBump txBump flags := fun hok =>
    absurd (h.symm.trans (fastFlowsBump_ok hok).2) Bool.false_ne_true
  obtain he | he := @fastFlowsBump_not_ok env fs ts flowId rxBump txBump bumpSeq flags hno
  · rw [he]
    exact ⟨.inl rfl, rfl, rfl⟩
  · rw [he]
    exact ⟨.inr rfl, rfl, rfl⟩

/-- Updates are validated exactly if the checks decide correctly. -/
theorem bump_validated_iff (h : BufferBounds fs) :
    BumpValidated env fs flowId bumpSeq rxBump txBump flags ts ↔
      BumpChecks fs bumpSeq rxBump txBump flags := by
  refine ⟨fun hv => ⟨fun hok => ?_, fun hok => ?_, ?_⟩,
    fun hc => ⟨?_, ?_, rejected_changes_nothing⟩⟩
  · exact ((bounds_of_ok h hok).1 hv.bounds).1
  · exact ((bounds_of_ok h hok).1 hv.bounds).2
  · rintro rfl hfits
    exact (takes_effect_iff hfits).1 (hv.accepts rfl hfits)
  · by_cases hok : BumpOk fs bumpSeq rxBump txBump flags
    · exact (bounds_of_ok h hok).2 ⟨hc.rx hok, hc.tx hok⟩
    · obtain he | he := @fastFlowsBump_not_ok env fs ts flowId rxBump txBump bumpSeq flags hok
      · rw [he]
        exact h
      · rw [he]
        exact ⟨h.rx, h.tx⟩
  · rintro rfl hfits
    exact (takes_effect_iff hfits).2 (hc.fits rfl hfits)

/-- A flow with buffers of the given lengths, a receive buffer that is free but for one byte, and
nothing to send. -/
def buffersFlow (rxLen txLen : U32) : FlowState :=
  { (default : FlowState) with rxLen := rxLen, txLen := txLen, rxAvail := rxLen - 1 }

/-- With equal lengths the last byte can be returned. -/
theorem equal_buffers_validated : BumpValidated default (buffersFlow 8 8) 0 1 1 0 0 0 := by
  refine (bump_validated_iff ⟨by decide, by decide⟩).2 ⟨fun _ => .inl (by decide),
    fun _ => by decide, fun _ _ => ⟨by decide, fun h => ?_, fun h => ?_⟩⟩
  all_goals cases h

/-- The check compares with the length of the transmit buffer. If that is longer, then more than the
receive buffer is given back; if it is shorter, then an update that fits is rejected. A sum that
wraps around lets more bytes in than the transmit buffer has, and a close needs a byte. -/
theorem bump_checks_fail :
    (BufferBounds (buffersFlow 8 16) ∧
      ¬ BufferBounds (fastFlowsBump default (buffersFlow 8 16) 0 1 8 0 0 0).1) ∧
    (BumpFits (buffersFlow 16 8) 1 0 ∧
      (fastFlowsBump default (buffersFlow 16 8) 0 1 1 0 0 0).2.accepted = false) ∧
    (BufferBounds { buffersFlow 8 0xffffffff with txSent := 0x80000000 } ∧
      ¬ BufferBounds (fastFlowsBump default { buffersFlow 8 0xffffffff with txSent := 0x80000000 }
        0 1 0 0x80000000 0 0).1) ∧
    (BumpFits (buffersFlow 8 8) 1 0 ∧
      (fastFlowsBump default (buffersFlow 8 8) 0 1 1 0 atxFltxdone 0).2.accepted = false) := by
  refine ⟨⟨⟨by decide, by decide⟩, fun h => ?_⟩, ⟨⟨by decide, by decide⟩, by decide⟩,
    ⟨⟨by decide, by decide⟩, fun h => ?_⟩, ⟨by decide, by decide⟩, by decide⟩
  · exact absurd h.rx (by decide)
  · exact absurd h.tx (by decide)

end Tas
