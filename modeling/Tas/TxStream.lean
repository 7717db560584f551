import Tas.FlowViews

/-! Every emitted segment carries the stream bytes of its sequence number: over every run of
updates, transmissions, acknowledgements and retransmissions. -/
namespace Tas

open Relation List Word Nat

open Circ (Holds)

/-- Element `k` of the transmitted stream. -/
def streamAt (T : List Byte) (k : ℕ) : Byte := T.getD k 0

/-- Transmit side of a flow that accepted the stream `T`, whose first `U` bytes were
acknowledged. Byte `d` of the stream is the dummy byte if `D = some d`. -/
structure TxCore (isn : U32) (L : ℕ) (fs : FlowState) (buf : ℕ → Byte) (T : List Byte)
    (U : ℕ) (D : Option ℕ) : Prop where
  len : fs.txLen.toNat = L
  len_pos : 0 < L
  len_lt : L < 2 ^ 30
  fit : fs.txSent.toNat + fs.txAvail.toNat ≤ L
  pos : fs.txNextPos.toNat = (U + fs.txSent.toNat) % L
  seq : fs.txNextSeq = isn + BitVec.ofNat 32 (U + fs.txSent.toNat)
  total : T.length = U + fs.txSent.toNat + fs.txAvail.toNat
  held : Holds L buf (streamAt T) U T.length
  open_ : D = none → fs.flag flowstTxfin → T = []
  closed : ∀ d, D = some d → fs.flag flowstTxfin ∧ T.length = d + 1

variable {isn : U32} {L U : ℕ} {fs fs' : FlowState} {buf buf' : ℕ → Byte} {T : List Byte}
  {D : Option ℕ} {env : FpEnv} {p : RxPacket} {ts n : U32}
  {ack b bytes flowId pos rxwnd seq tsEcho tsMy : U32} {core m newCore : U16} {fin : Bool}
  {seg : Segment}

namespace TxCore

section

variable (h : TxCore isn L fs buf T U D)
include h

theorem of_txView (he : fs'.txView = fs.txView) : TxCore isn L fs' buf T U D := by
  simp only [FlowState.txView, TxView.mk.injEq] at he
  obtain ⟨h₁, h₂, h₃, h₄, h₅, h₆⟩ := he
  refine ⟨?_, h.len_pos, h.len_lt, ?_, ?_, ?_, ?_, h.held, ?_, ?_⟩
  · rw [h₁, h.len]
  · rw [h₂, h₃]
    exact h.fit
  · rw [h₄, h₃, h.pos]
  · rw [h₅, h₃, h.seq]
  · rw [h₃, h₂, h.total]
  · rw [h₆]
    exact h.open_
  · rw [h₆]
    exact h.closed

/-! ### Acknowledgements -/

theorem pos_lt : fs.txNextPos.toNat < fs.txLen.toNat := by
  rw [h.pos, h.len]
  exact mod_lt _ h.len_pos

/-- The next position moved by `m` bytes. -/
theorem wrap_next (hn : n.toNat ≤ L) :
    (if fs.txNextPos + n ≥ fs.txLen then fs.txNextPos + n - fs.txLen else fs.txNextPos + n).toNat =
      (U + fs.txSent.toNat + n.toNat) % L := by
  have hlt := h.len_lt
  have hlen := h.len
  have hpos := h.pos_lt
  rw [toNat_wrap h.pos_lt (by omega) (by omega), h.pos, h.len, mod_add_mod]

/-- The next sequence number moved by `m` bytes. -/
theorem seq_next : fs.txNextSeq + n = isn + BitVec.ofNat 32 (U + fs.txSent.toNat + n.toNat) := by
  rw [h.seq, BitVec.ofNat_add _ n.toNat, BitVec.ofNat_toNat, BitVec.setWidth_eq, BitVec.add_assoc]

theorem ackAdvance (hn : n.toNat ≤ fs.txSent.toNat + fs.txAvail.toNat) :
    TxCore isn L (ackAdvance fs n) buf T (U + n.toNat) D := by
  have hfit := h.fit
  have hlt := h.len_lt
  have htot := h.total
  unfold Tas.ackAdvance
  split_ifs with hle
  · rw [BitVec.le_def] at hle
    have hsent : (fs.txSent - n).toNat = fs.txSent.toNat - n.toNat := toNat_sub_of_le hle
    have hsum : U + n.toNat + (fs.txSent.toNat - n.toNat) = U + fs.txSent.toNat := by omega
    refine ⟨h.len, h.len_pos, h.len_lt, ?_, ?_, ?_, ?_, h.held.mono (by omega) le_rfl, h.open_,
      h.closed⟩
    · simp only [hsent]
      omega
    · simp only [hsent, hsum, h.pos]
    · simp only [hsent, hsum, h.seq]
    · simp only [hsent]
      omega
  · -- a future acknowledgement also covers bytes that were never sent since the last reset
    rw [BitVec.le_def] at hle
    obtain ⟨hover, havail⟩ := toNat_sub_sub (x := fs.txAvail) (Nat.le_of_not_le hle) (by omega)
    have hsum : U + fs.txSent.toNat + (n - fs.txSent).toNat = U + n.toNat := by omega
    have hpos := h.wrap_next (n := n - fs.txSent) (by omega)
    have hseq := h.seq_next (n := n - fs.txSent)
    rw [hsum] at hpos hseq
    refine ⟨h.len, h.len_pos, h.len_lt, ?_, hpos, hseq, ?_, h.held.mono (by omega) le_rfl, h.open_,
      h.closed⟩
    · change 0 + (fs.txAvail - (n - fs.txSent)).toNat ≤ L
      omega
    · change T.length = U + n.toNat + 0 + (fs.txAvail - (n - fs.txSent)).toNat
      omega

/-- Going back to the last acknowledged byte. -/
theorem flowResetRetransmit : TxCore isn L (flowResetRetransmit fs) buf T U D := by
  have hfit := h.fit
  have hlt := h.len_lt
  have hlen := h.len
  have htot := h.total
  have hposlt := h.pos_lt
  have havail : (fs.txAvail + fs.txSent).toNat = fs.txAvail.toNat + fs.txSent.toNat :=
    toNat_add_of_lt (by omega)
  refine ⟨h.len, h.len_pos, h.len_lt, ?_, ?_, ?_, ?_, h.held, h.open_, h.closed⟩
  · change 0 + (fs.txAvail + fs.txSent).toNat ≤ _
    omega
  · have hback := Circ.mod_of_add_mod (show fs.txSent.toNat ≤ L by omega) h.pos.symm
    change _ = (U + 0) % L
    rw [add_zero, hback]
    simp only [Tas.flowResetRetransmit, ge_iff_le, BitVec.le_def]
    split_ifs with hle
    · exact toNat_sub_of_le hle
    · have hx : (fs.txSent - fs.txNextPos).toNat = fs.txSent.toNat - fs.txNextPos.toNat :=
        toNat_sub_of_le (by omega)
      rw [toNat_sub_of_le (by omega), hx, hlen]
  · change fs.txNextSeq - fs.txSent = isn + BitVec.ofNat 32 (U + 0)
    rw [h.seq, add_zero, BitVec.ofNat_add, BitVec.ofNat_toNat, BitVec.setWidth_eq,
      ← BitVec.add_assoc, BitVec.add_sub_cancel]
  · change T.length = U + 0 + (fs.txAvail + fs.txSent).toNat
    omega

theorem packetDupack : TxCore isn L (packetDupack fs n bytes).fs buf T U D := by
  unfold Tas.packetDupack
  split_ifs
  · exact h.of_txView rfl
  · dsimp only
    split_ifs
    · exact flowResetRetransmit (h.of_txView rfl)
    · exact h.of_txView rfl
  · exact h

omit h in
theorem packetDupack_txBump : (Tas.packetDupack fs n bytes).txBump = n := by
  unfold Tas.packetDupack
  split_ifs
  · rfl
  · dsimp only
    split_ifs <;> rfl
  · rfl

/-- An acknowledgement moves the first unacknowledged byte by the reported bytes. -/
theorem packetAck :
    (packetAck fs p).txBump.toNat ≤ L ∧
      TxCore isn L (packetAck fs p).fs buf T (U + (packetAck fs p).txBump.toNat) D := by
  have hfit := h.fit
  have hlt := h.len_lt
  have hc : TxCore isn L (countAck fs) buf T U D := h.of_txView rfl
  unfold Tas.packetAck
  split_ifs
  · cases hack : tcpValidRxack (countAck fs) p.ackno with
    | none => exact ⟨zero_le _, hc⟩
    | some txBump =>
      have hle := (tcpValidRxack_some hack
        (by change fs.txSent.toNat + fs.txAvail.toNat < _; omega)).1
      change txBump.toNat ≤ fs.txSent.toNat + fs.txAvail.toNat at hle
      have hb : TxCore isn L (countAckBytes (countAck fs) p txBump) buf T U D := hc.of_txView rfl
      dsimp only
      rw [packetDupack_txBump]
      exact ⟨by omega, (hb.ackAdvance hle).packetDupack⟩
  · exact ⟨zero_le _, h⟩

/-! ### Transmission -/

theorem txAdvance (hn : n.toNat ≤ fs.txAvail.toNat) : TxCore isn L (txAdvance fs n) buf T U D := by
  have hfit := h.fit
  have hlt := h.len_lt
  have htot := h.total
  have hsent : (fs.txSent + n).toNat = fs.txSent.toNat + n.toNat :=
    toNat_add_of_lt (by omega)
  have havail : (fs.txAvail - n).toNat = fs.txAvail.toNat - n.toNat := toNat_sub_of_le hn
  have hpos := h.wrap_next (n := n) (by omega)
  have hseq := h.seq_next (n := n)
  rw [add_assoc] at hpos hseq
  refine ⟨h.len, h.len_pos, h.len_lt, ?_, ?_, ?_, ?_, h.held, h.open_, h.closed⟩
  · simp only [Tas.txAdvance, hsent, havail]
    omega
  · simp only [Tas.txAdvance, hsent]
    exact hpos
  · simp only [Tas.txAdvance, hsent]
    exact hseq
  · simp only [Tas.txAdvance, hsent, havail]
    omega

end

end TxCore

theorem flowTxRead_eq (hpos : pos.toNat < fs.txLen.toNat)
    (hlen : fs.txLen.toNat < 2 ^ 31) (hm : m.toNat ≤ fs.txLen.toNat) :
    flowTxRead fs buf pos m = Circ.window fs.txLen.toNat buf pos.toNat m.toNat := by
  have hw : (m.setWidth 32).toNat = m.toNat := BitVec.toNat_setWidth_of_le (by decide)
  have hend : (pos + m.setWidth 32).toNat = pos.toNat + m.toNat := by
    rw [toNat_add_of_lt (by omega), hw]
  have hlow : ∀ k, pos.toNat + k ≤ fs.txLen.toNat →
      bytesAt buf pos.toNat k = Circ.window fs.txLen.toNat buf pos.toNat k := by
    intro k hk
    apply map_congr_left
    intro i hi
    rw [mem_range] at hi
    rw [mod_eq_of_lt (by omega)]
  unfold flowTxRead
  split_ifs with h
  · rw [BitVec.le_def, hend] at h
    exact hlow m.toNat h
  · rw [BitVec.le_def, hend] at h
    have hpart : (fs.txLen - pos).toNat = fs.txLen.toNat - pos.toNat :=
      toNat_sub_of_le (by omega)
    have hrest : (m.setWidth 32 - (fs.txLen - pos)).toNat =
        m.toNat - (fs.txLen.toNat - pos.toNat) := by
      rw [toNat_sub_of_le (by omega), hw, hpart]
    have hhigh : bytesAt buf 0 (m.toNat - (fs.txLen.toNat - pos.toNat)) =
        Circ.window fs.txLen.toNat buf (pos.toNat + (fs.txLen.toNat - pos.toNat))
          (m.toNat - (fs.txLen.toNat - pos.toNat)) := by
      apply map_congr_left
      intro i hi
      rw [mem_range] at hi
      rw [Nat.add_sub_cancel' (by omega), Nat.zero_add, Nat.add_mod_left,
        Nat.mod_eq_of_lt (by omega)]
    simp only [hpart, hrest]
    rw [hlow _ (by omega), hhigh, Circ.window_append, Nat.add_sub_cancel' (by omega)]

/-- What a segment at stream offset `off` has to carry. -/
structure Carries (isn : U32) (T : List Byte) (D : Option ℕ) (off : ℕ) (seg : Segment) : Prop where
  seqno : seg.seqno = isn + BitVec.ofNat 32 off
  inside : off + seg.payload.length ≤ T.length
  payload : seg.payload = (T.drop off).take seg.payload.length
  fin : seg.flags &&& tcpFin = tcpFin → D = some (off + seg.payload.length)
  dummy : ∀ d, D = some d → off + seg.payload.length ≤ d

theorem map_streamAt {off m : ℕ} (h : off + m ≤ T.length) :
    ((List.range m).map fun i => streamAt T (off + i)) = (T.drop off).take m := by
  apply ext_getElem
  · simp
    omega
  · intro i h₁ h₂
    simp only [length_map, length_range] at h₁
    simp [streamAt, show off + i < T.length by omega]

/-- The FIN flag of a segment is the one asked for. -/
theorem flowTxSegment_fin :
    (flowTxSegment env fs buf seq ack rxwnd m pos tsEcho tsMy fin).flags &&& tcpFin = tcpFin ↔
      fin = true := by
  dsimp only [flowTxSegment]
  cases fin <;> cases fs.flag flowstEcn <;> cases env.signalEce <;> decide

theorem fastFlowsQman_segment (h : (fastFlowsQman env core newCore fs buf ts).2 = .segment seg) :
    newCore = core ∧ tcpTxavail fs none ≠ 0 := by
  unfold fastFlowsQman at h
  split_ifs at h with hcore hav
  exact ⟨not_not.mp hcore, hav⟩

theorem toNat_qmanLen (h : tcpTxavail fs none ≠ 0) :
    0 < (qmanLen fs).toNat ∧ (qmanLen fs).toNat ≤ 1400 ∧
      (qmanLen fs).toNat ≤ fs.txAvail.toNat ∧
      fs.txSent.toNat + (qmanLen fs).toNat ≤ fs.rxRemoteAvail.toNat := by
  have hav := toNat_tcpTxavail fs none
  have hne := toNat_eq_zero.not.mpr h
  have hmss : tcpMss.toNat = 1400 := rfl
  simp only [Option.getD_none] at hav
  unfold qmanLen
  simp only [BitVec.lt_def]
  split_ifs <;> omega

namespace TxCore

section

variable (h : TxCore isn L fs buf T U D)
include h

/-- The payload of a segment of `m` bytes at the next position. -/
theorem segment_payload (hlen : fs'.txLen = fs.txLen) (hm : m.toNat ≤ fs.txAvail.toNat) :
    (flowTxSegment env fs' buf seq ack rxwnd m fs.txNextPos tsEcho tsMy fin).payload =
      (T.drop (U + fs.txSent.toNat)).take m.toNat := by
  have hfit := h.fit
  have hlt := h.len_lt
  have htot := h.total
  have hL := h.len
  have hread : flowTxRead fs' buf fs.txNextPos m =
      (T.drop (U + fs.txSent.toNat)).take m.toNat := by
    rw [flowTxRead_eq (by rw [hlen]; exact h.pos_lt) (by rw [hlen]; omega)
      (by rw [hlen]; omega), hlen, h.len, h.pos, Circ.window_mod]
    rw [(h.held.mono (by omega) (by omega) : Holds L buf (streamAt T) _ _).window_eq]
    exact map_streamAt (by omega)
  dsimp only [flowTxSegment]
  split_ifs with hpos
  · exact hread
  · have hz : m.toNat = 0 := by
      rw [gt_iff_lt, BitVec.lt_def] at hpos
      exact Nat.eq_zero_of_not_pos hpos
    simp [hz]

/-- Every emitted segment carries the stream at its offset and keeps within the remote window. -/
theorem fastFlowsQman_carries (hs : (fastFlowsQman env core newCore fs buf ts).2 = .segment seg) :
    Carries isn T D (U + fs.txSent.toNat) seg ∧
      (fastFlowsQman env core newCore fs buf ts).1.txSent.toNat ≤ fs.rxRemoteAvail.toNat := by
  obtain ⟨hcore, hav⟩ := fastFlowsQman_segment hs
  obtain ⟨hpos, hmss, hle, hwnd⟩ := toNat_qmanLen hav
  have hfit := h.fit
  have hlt := h.len_lt
  have htot := h.total
  unfold fastFlowsQman at hs ⊢
  rw [if_neg (not_not.mpr hcore), if_neg hav] at hs ⊢
  simp only [QmanOut.segment.injEq] at hs
  have hsent : (fs.txSent + qmanLen fs).toNat = fs.txSent.toNat + (qmanLen fs).toNat :=
    toNat_add_of_lt (by omega)
  have havail : (fs.txAvail - qmanLen fs).toNat = fs.txAvail.toNat - (qmanLen fs).toNat :=
    toNat_sub_of_le hle
  refine ⟨?_, by simp only [Tas.txAdvance, hsent]; exact hwnd⟩
  generalize hfin : ((Tas.txAdvance fs (qmanLen fs)).flag flowstTxfin &&
    (Tas.txAdvance fs (qmanLen fs)).txAvail == 0) = fin at hs
  -- the last byte of the stream is left out exactly if it is the dummy byte
  have hlast : fin = true ↔ fs.flag flowstTxfin = true ∧ fs.txAvail.toNat = (qmanLen fs).toNat := by
    rw [← hfin, Bool.and_eq_true, beq_iff_eq, ← toNat_eq_zero]
    change fs.flag flowstTxfin = true ∧ (fs.txAvail - qmanLen fs).toNat = 0 ↔ _
    rw [havail]
    exact and_congr_right fun _ => by omega
  have hm : ((if fin = true then qmanLen fs - 1 else qmanLen fs).setWidth 16).toNat =
      (qmanLen fs).toNat - (if fin then 1 else 0) := by
    have hone : (1 : U32).toNat = 1 := rfl
    rw [BitVec.toNat_setWidth]
    split_ifs
    · rw [toNat_sub_of_le (by omega), hone, mod_eq_of_lt (by omega)]
    · rw [mod_eq_of_lt (by omega)]
      rfl
  have hpl : seg.payload = (T.drop (U + fs.txSent.toNat)).take
      ((qmanLen fs).toNat - (if fin then 1 else 0)) := by
    rw [← hs, ← hm]
    exact h.segment_payload rfl (by omega)
  have hlen : seg.payload.length = (qmanLen fs).toNat - (if fin then 1 else 0) := by
    rw [hpl, length_take, length_drop]
    omega
  have hseq : seg.seqno = fs.txNextSeq := by rw [← hs]; rfl
  have hflags : seg.flags &&& tcpFin = tcpFin ↔ fin = true := by
    rw [← hs]
    exact flowTxSegment_fin
  refine ⟨by rw [hseq, h.seq], by omega, by rw [hlen]; exact hpl, ?_, ?_⟩
  · rw [hflags, hlen]
    rintro rfl
    obtain ⟨hclosed, hall⟩ := hlast.mp rfl
    cases D with
    | none =>
      have hempty := h.open_ rfl hclosed
      rw [hempty, length_nil] at htot
      omega
    | some d =>
      have hd := (h.closed d rfl).2
      rw [if_pos rfl]
      congr 1
      omega
  · rintro d rfl
    obtain ⟨hclosed, hd⟩ := h.closed d rfl
    rw [hlen]
    cases fin with
    | true =>
      rw [if_pos rfl]
      omega
    | false =>
      have hmore : fs.txAvail.toNat ≠ (qmanLen fs).toNat := fun he => by
        simp [hclosed, he] at hlast
      rw [if_neg (by decide)]
      omega

theorem fastFlowsQman : TxCore isn L (fastFlowsQman env core newCore fs buf ts).1 buf T U D := by
  unfold Tas.fastFlowsQman
  split_ifs with hcore hav
  · exact h
  · exact h
  · exact h.txAdvance (toNat_qmanLen hav).2.2.1

theorem fastFlowsRetransmit : TxCore isn L (fastFlowsRetransmit fs flowId).1 buf T U D := by
  unfold Tas.fastFlowsRetransmit
  split_ifs
  · exact h
  · exact h.flowResetRetransmit

/-! ### Updates from the application -/

theorem bumpTxFits_iff :
    bumpTxFits fs b = true ↔ fs.txSent.toNat + fs.txAvail.toNat + b.toNat ≤ L := by
  have hfit := h.fit
  have hlt := h.len_lt
  have hL := h.len
  have h₁ := toNat_add_cases fs.txAvail b
  have h₂ := toNat_add_cases (fs.txAvail + b) fs.txSent
  simp only [bumpTxFits, Bool.not_eq_true', decide_eq_false_iff_not, gt_iff_lt, BitVec.lt_def]
  omega

/-- An accepted update appends the bytes that the buffer has behind those in flight; a closing
one makes the last of them the dummy byte. -/
theorem bump {closes : Bool} (hfits : bumpTxFits fs b = true) (hopen : fs.flag flowstTxfin → b = 0)
    (hclose : closes = true → b ≠ 0) (he : fs'.txView = { fs.txView with
      avail := fs.txAvail + b
      fin := closes || fs.flag flowstTxfin }) :
    TxCore isn L fs' buf
      (T ++ Circ.window L buf (fs.txNextPos.toNat + fs.txAvail.toNat) b.toNat) U
      (if closes then some (T.length + b.toNat - 1) else D) := by
  have hfit := h.bumpTxFits_iff.mp hfits
  have hlt := h.len_lt
  have htot := h.total
  have havail : (fs.txAvail + b).toNat = fs.txAvail.toNat + b.toNat :=
    toNat_add_of_lt (by omega)
  have hzero : b.toNat = 0 → T ++ Circ.window L buf (fs.txNextPos.toNat + fs.txAvail.toNat) b.toNat
      = T := by
    intro hz
    simp [hz, Circ.window]
  simp only [FlowState.txView, TxView.mk.injEq] at he
  obtain ⟨h₁, h₂, h₃, h₄, h₅, h₆⟩ := he
  refine ⟨?_, h.len_pos, h.len_lt, ?_, ?_, ?_, ?_, ?_, ?_, ?_⟩
  · rw [h₁, h.len]
  · rw [h₂, h₃]
    omega
  · rw [h₄, h₃, h.pos]
  · rw [h₅, h₃, h.seq]
  · rw [length_append, Circ.window_length, h₃, h₂]
    omega
  · intro k hk hkn
    rw [length_append, Circ.window_length] at hkn
    by_cases hold : k < T.length
    · rw [h.held k hk hold]
      simp [streamAt, List.getElem?_append_left hold]
    · obtain ⟨j, rfl⟩ := Nat.exists_eq_add_of_le (Nat.not_lt.mp hold)
      have hj : j < b.toNat := by omega
      have hcell : (fs.txNextPos.toNat + fs.txAvail.toNat + j) % L = (T.length + j) % L := by
        rw [h.pos, htot, add_assoc, mod_add_mod]
        congr 1
        omega
      simp [streamAt, Circ.window, hj, hcell]
  · intro hD hflag
    cases closes with
    | true => simp at hD
    | false =>
      rw [h₆, Bool.false_or] at hflag
      rw [hzero (toNat_eq_zero.mpr (hopen hflag))]
      exact h.open_ hD hflag
  · intro d hD
    cases closes with
    | true =>
      have hb := toNat_eq_zero.not.mpr (hclose rfl)
      simp only [if_true, Option.some.injEq] at hD
      rw [h₆, length_append, Circ.window_length]
      exact ⟨rfl, by omega⟩
    | false =>
      obtain ⟨hflag, hd⟩ := h.closed d hD
      rw [h₆, hzero (toNat_eq_zero.mpr (hopen hflag))]
      exact ⟨hflag, hd⟩

end

end TxCore

/-- Offset `k` holds one of the bytes in flight: the `tx_sent + tx_avail` ones that end at
position `tx_next_pos + tx_avail`. -/
def InFlight (fs : FlowState) (k : ℕ) : Prop :=
  k < fs.txLen.toNat ∧ ∃ j < fs.txSent.toNat + fs.txAvail.toNat,
    (k + j + 1) % fs.txLen.toNat = (fs.txNextPos.toNat + fs.txAvail.toNat) % fs.txLen.toNat

/-- The application may write anywhere else. -/
theorem TxCore.write (h : TxCore isn L fs buf T U D)
    (hw : ∀ k, InFlight fs k → buf' k = buf k) : TxCore isn L fs buf' T U D := by
  have htot := h.total
  refine { h with held := fun k hk hkT => ?_ }
  rw [hw (k % L), h.held k hk hkT]
  refine ⟨by rw [h.len]; exact mod_lt _ h.len_pos, T.length - 1 - k, by omega, ?_⟩
  rw [h.len, h.pos, mod_add_mod, add_assoc, mod_add_mod]
  congr 1
  omega

/-! ### Runs -/

/-- A flow's transmit side, its buffer, and what passed between application and fast path. -/
structure TxRun where
  fs : FlowState
  buf : ℕ → Byte
  /-- Bytes accepted for transmission so far, with the dummy byte of the close. -/
  stream : List Byte
  /-- Stream index of the dummy byte, once closed. -/
  dummy : Option ℕ
  /-- Sum of the `tx_bump` values reported through `arx_cache_add`. -/
  acked : ℕ

inductive TxEvent
  /-- The application writes to the buffer. -/
  | write (buf : ℕ → Byte)
  /-- `fast_flows_bump`. -/
  | bump (env : FpEnv) (flowId : U32) (bumpSeq : U16) (rxBump txBump : U32) (flags : U8) (ts : U32)
  /-- `fast_flows_qman`. -/
  | qman (env : FpEnv) (core newCore : U16) (ts : U32)
  /-- `fast_flows_packet`. -/
  | packet (env : FpEnv) (flowId : U32) (p : RxPacket) (spendBudget : Bool) (ts : U32)
  /-- `fast_flows_retransmit`. -/
  | retransmit (flowId : U32)

def TxRun.step (σ : TxRun) : TxEvent → TxRun
  | .write buf => { σ with buf := buf }
  | .bump env flowId bumpSeq rxBump txBump flags ts =>
    let r := fastFlowsBump env σ.fs flowId bumpSeq rxBump txBump flags ts
    -- the bytes behind those in flight join the stream
    let bytes := Circ.window σ.fs.txLen.toNat σ.buf
      (σ.fs.txNextPos.toNat + σ.fs.txAvail.toNat) (r.1.txAvail - σ.fs.txAvail).toNat
    { σ with
      fs := r.1
      stream := σ.stream ++ bytes
      dummy :=
        if r.1.flag flowstTxfin ∧ ¬ σ.fs.flag flowstTxfin then
          some ((σ.stream ++ bytes).length - 1)
        else σ.dummy }
  | .qman env core newCore ts => { σ with fs := (fastFlowsQman env core newCore σ.fs σ.buf ts).1 }
  | .packet env flowId p spendBudget ts =>
    let r := fastFlowsPacket env σ.fs flowId p spendBudget ts
    { σ with
      fs := r.1
      acked := σ.acked + (r.2.arx.map fun a => a.txBump.toNat).getD 0 }
  | .retransmit flowId => { σ with fs := (fastFlowsRetransmit σ.fs flowId).1 }

/-- The application leaves the bytes in flight alone; everything else is arbitrary. -/
def TxRun.Allowed (σ : TxRun) : TxEvent → Prop
  | .write buf => ∀ k, InFlight σ.fs k → buf k = σ.buf k
  | _ => True

def TxRun.Step (σ σ' : TxRun) : Prop := ∃ e, σ.Allowed e ∧ σ' = σ.step e

/-- The flow after `nicif_connection_add`. -/
def TxRun.start (prior : FlowState) (c : ConnArgs) (buf : ℕ → Byte) : TxRun where
  fs := connectionInit prior c
  buf := buf
  stream := []
  dummy := none
  acked := 0

/-- The invariant of a run. -/
def TxInv (c : ConnArgs) (σ : TxRun) : Prop :=
  TxCore c.localSeq c.txLen.toNat σ.fs σ.buf σ.stream σ.acked σ.dummy

variable {c : ConnArgs} {prior : FlowState} {σ σ' : TxRun}

theorem TxInv.start (hpos : 0 < c.txLen.toNat) (hlen : c.txLen.toNat < 2 ^ 30) :
    TxInv c (TxRun.start prior c buf) := by
  refine ⟨rfl, hpos, hlen, zero_le _, ?_, ?_, rfl, fun k _ hk => ?_, fun _ _ => rfl, ?_⟩
  · exact (zero_mod _).symm
  · simp [TxRun.start, connectionInit]
  · exact absurd hk (not_lt_zero k)
  · intro d hd
    exact absurd hd (by simp [TxRun.start])

theorem TxInv.bump {rxBump txBump : U32} {bumpSeq : U16} {flags : U8} (h : TxInv c σ) :
    TxInv c (σ.step (.bump env flowId bumpSeq rxBump txBump flags ts)) := by
  by_cases hok : BumpOk σ.fs bumpSeq rxBump txBump flags
  · have hfs := (@fastFlowsBump_ok env σ.fs ts flowId rxBump txBump bumpSeq flags hok).1
    have hview := @bumpState_txView σ.fs rxBump bumpSeq (bumpTxBytes σ.fs txBump)
      (bumpCloses σ.fs flags)
    have hopen : σ.fs.flag flowstTxfin → bumpTxBytes σ.fs txBump = 0 := fun hf => if_pos hf
    have hclose : bumpCloses σ.fs flags = true → bumpTxBytes σ.fs txBump ≠ 0 := by
      intro hc hz
      have hf : ¬ σ.fs.flag flowstTxfin := by
        simp only [bumpCloses, Bool.and_eq_true, Bool.not_eq_true'] at hc
        simp [hc.2]
      rw [bumpTxBytes, if_neg hf] at hz
      exact hok.2.1 ⟨hc, hz⟩
    have hcore := TxCore.bump h hok.2.2.1 hopen hclose hview
    have hbytes : (bumpState σ.fs bumpSeq rxBump (bumpTxBytes σ.fs txBump)
        (bumpCloses σ.fs flags)).txAvail - σ.fs.txAvail = bumpTxBytes σ.fs txBump := by
      change σ.fs.txAvail + bumpTxBytes σ.fs txBump - σ.fs.txAvail = _
      rw [BitVec.add_comm, BitVec.add_sub_cancel]
    have hflag : (bumpState σ.fs bumpSeq rxBump (bumpTxBytes σ.fs txBump)
        (bumpCloses σ.fs flags)).flag flowstTxfin =
        (bumpCloses σ.fs flags || σ.fs.flag flowstTxfin) := congrArg TxView.fin hview
    have hcloses : ((bumpState σ.fs bumpSeq rxBump (bumpTxBytes σ.fs txBump)
        (bumpCloses σ.fs flags)).flag flowstTxfin = true ∧ ¬ σ.fs.flag flowstTxfin = true) ↔
        bumpCloses σ.fs flags = true := by
      rw [hflag]
      cases hf : σ.fs.flag flowstTxfin <;> simp [bumpCloses, hf]
    simp only [TxInv, TxRun.step]
    rw [hfs, hbytes, length_append, Circ.window_length, h.len]
    simp only [hcloses]
    exact hcore
  · have hrej : ∀ fs', fs'.txView = σ.fs.txView → TxInv c { σ with
        fs := fs'
        stream := σ.stream ++ Circ.window σ.fs.txLen.toNat σ.buf
          (σ.fs.txNextPos.toNat + σ.fs.txAvail.toNat) (fs'.txAvail - σ.fs.txAvail).toNat
        dummy :=
          if fs'.flag flowstTxfin ∧ ¬ σ.fs.flag flowstTxfin then
            some ((σ.stream ++ Circ.window σ.fs.txLen.toNat σ.buf
              (σ.fs.txNextPos.toNat + σ.fs.txAvail.toNat)
              (fs'.txAvail - σ.fs.txAvail).toNat).length - 1)
          else σ.dummy } := by
      intro fs' hview
      have havail : fs'.txAvail = σ.fs.txAvail := congrArg TxView.avail hview
      have hflag : fs'.flag flowstTxfin = σ.fs.flag flowstTxfin := congrArg TxView.fin hview
      simp only [havail, hflag, BitVec.sub_self, BitVec.toNat_zero, and_not_self, if_false,
        Circ.window, range_zero, map_nil, append_nil]
      exact TxCore.of_txView h hview
    simp only [TxRun.step]
    rcases @fastFlowsBump_not_ok env σ.fs ts flowId rxBump txBump bumpSeq flags hok with he | he
    all_goals
      rw [he]
      exact hrej _ rfl

theorem TxInv.packet {spendBudget : Bool} (h : TxInv c σ) :
    TxInv c (σ.step (.packet env flowId p spendBudget ts)) ∧
      (σ.step (.packet env flowId p spendBudget ts)).acked ≤ σ.acked + c.txLen.toNat := by
  by_cases hp : Processed env σ.fs p spendBudget
  · obtain ⟨hle, hack⟩ := TxCore.packetAck (p := p) h
    have hbody := hack.of_txView (@packetBody_txView σ.fs p ts)
    simp only [TxInv, TxRun.step]
    rw [fastFlowsPacket_processed hp]
    rcases @packetUnlock_arx env σ.fs p (packetBody σ.fs p ts) ts flowId (packetAck σ.fs p)
      (if spendBudget then p.payloadBytes else 0) with ⟨x, hx, -, -, hb, -⟩ | ⟨hx, -, hb, -⟩
    · simp only [hx, Option.map_some, Option.getD_some, hb]
      exact ⟨hbody, by omega⟩
    · simp only [hx, Option.map_none, Option.getD_none]
      rw [hb] at hbody
      exact ⟨hbody, by omega⟩
  · obtain ⟨ret, counted, he⟩ :=
      @fastFlowsPacket_not_processed env σ.fs p ts flowId spendBudget hp
    have hview := (@fastFlowsPacket_views env σ.fs p ts flowId spendBudget hp).2
    have hout : (fastFlowsPacket env σ.fs flowId p spendBudget ts).2 =
        { ret := ret, counted := counted } := by
      rcases he with he | he <;> rw [he]
    simp only [TxInv, TxRun.step, hout, Option.map_none, Option.getD_none]
    exact ⟨h.of_txView hview, by omega⟩

theorem TxInv.step (h : TxInv c σ) (hs : TxRun.Step σ σ') :
    TxInv c σ' ∧ σ.acked ≤ σ'.acked ∧ σ'.acked ≤ σ.acked + c.txLen.toNat := by
  obtain ⟨e, ha, rfl⟩ := hs
  cases e with
  | write buf => exact ⟨TxCore.write h ha, le_rfl, le_add_right _ _⟩
  | bump env flowId bumpSeq rxBump txBump flags ts =>
    exact ⟨h.bump, le_rfl, le_add_right _ _⟩
  | qman env core newCore ts =>
    exact ⟨TxCore.fastFlowsQman h, le_rfl, le_add_right _ _⟩
  | packet env flowId p spendBudget ts =>
    exact ⟨h.packet.1, le_add_right _ _, h.packet.2⟩
  | retransmit flowId =>
    exact ⟨TxCore.fastFlowsRetransmit h, le_rfl, le_add_right _ _⟩

theorem TxInv.run (hpos : 0 < c.txLen.toNat) (hlen : c.txLen.toNat < 2 ^ 30)
    (h : ReflTransGen TxRun.Step (TxRun.start prior c buf) σ) : TxInv c σ := by
  induction h with
  | refl => exact TxInv.start hpos hlen
  | tail _ hs ih => exact (ih.step hs).1

/-- In every state of a run: position and counters fit the buffer; the first unacknowledged
sequence number is the initial one plus the bytes reported as acknowledged, and a step moves it
forward by at most the buffer length; and a segment emitted by `fast_flows_qman` carries the
stream at its sequence number, keeps within the remote window and has the FIN flag only if it
ends at the dummy byte. -/
theorem tx_stream_integrity (hpos : 0 < c.txLen.toNat) (hlen : c.txLen.toNat < 2 ^ 30)
    (h : ReflTransGen TxRun.Step (TxRun.start prior c buf) σ) :
    (σ.fs.txNextPos.toNat < σ.fs.txLen.toNat ∧
      σ.fs.txSent.toNat + σ.fs.txAvail.toNat ≤ σ.fs.txLen.toNat) ∧
    σ.fs.txNextSeq - σ.fs.txSent = c.localSeq + BitVec.ofNat 32 σ.acked ∧
    (∀ σ', TxRun.Step σ σ' → σ.acked ≤ σ'.acked ∧ σ'.acked ≤ σ.acked + c.txLen.toNat) ∧
    ∀ env core newCore ts seg,
      (fastFlowsQman env core newCore σ.fs σ.buf ts).2 = .segment seg →
        Carries c.localSeq σ.stream σ.dummy (σ.acked + σ.fs.txSent.toNat) seg ∧
        (fastFlowsQman env core newCore σ.fs σ.buf ts).1.txSent.toNat ≤
          σ.fs.rxRemoteAvail.toNat := by
  have hinv := TxInv.run hpos hlen h
  refine ⟨⟨hinv.pos_lt, by rw [hinv.len]; exact hinv.fit⟩, ?_, ?_, ?_⟩
  · rw [hinv.seq, BitVec.ofNat_add, BitVec.ofNat_toNat, BitVec.setWidth_eq, ← BitVec.add_assoc,
      BitVec.add_sub_cancel]
  · intro σ' hs
    exact (hinv.step hs).2
  · intro env core newCore ts seg hs
    exact hinv.fastFlowsQman_carries hs

/-! Two bytes and the dummy byte in a four byte buffer, sent twice. -/

def closeConn : ConnArgs :=
  { (default : ConnArgs) with txLen := 4, rxLen := 4, localSeq := 4294967295 }

def closeStart : TxRun := TxRun.start default closeConn fun k => BitVec.ofNat 8 (k + 7)
def closeBump : TxRun := closeStart.step (.bump default 0 1 0 3 atxFltxdone 0)
def closeSent : TxRun := closeBump.step (.qman default 0 0 0)
def closeReset : TxRun := closeSent.step (.retransmit 0)

/-- Both bytes and the FIN, without the dummy byte. -/
def closeSegment : Segment where
  ethSrc := 0
  ethDst := 0
  ipSrc := 0
  ipDst := 0
  portSrc := 0
  portDst := 0
  ipLen := 54
  ipEcn := 0
  hdrlen := 8
  flags := tcpPsh ||| tcpAck ||| tcpFin
  seqno := 4294967295
  ackno := 0
  wnd := 4
  tsVal := 0
  tsEcr := 0
  payload := [7, 8]

theorem closeReset_segment :
    (fastFlowsQman default 0 0 closeSent.fs closeSent.buf 0).2 = .idle ∧
    (fastFlowsQman default 0 0 closeReset.fs closeReset.buf 0).2 = .segment closeSegment ∧
    Carries 4294967295 [7, 8, 9] (some 2) 0 closeSegment := by
  have hrun : ReflTransGen TxRun.Step closeStart closeReset :=
    ((ReflTransGen.single ⟨.bump default 0 1 0 3 atxFltxdone 0, trivial, rfl⟩).tail
      ⟨.qman default 0 0 0, trivial, rfl⟩).tail ⟨.retransmit 0, trivial, rfl⟩
  have hseg : (fastFlowsQman default 0 0 closeReset.fs closeReset.buf 0).2 =
      .segment closeSegment := by decide
  have h := (tx_stream_integrity (by decide) (by decide) hrun).2.2.2 default 0 0 0 _ hseg
  have hstream : closeReset.stream = [7, 8, 9] := by decide
  have hdummy : closeReset.dummy = some 2 := by decide
  have hoff : closeReset.acked + closeReset.fs.txSent.toNat = 0 := by decide
  rw [hstream, hdummy, hoff] at h
  exact ⟨by decide, hseg, h.1⟩

end Tas
