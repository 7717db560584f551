import Tas.FlowViews

/-! Receive processing in window coordinates: distances from the next expected byte, as natural
numbers, instead of wrapping sequence numbers. -/
namespace Tas

open Word

/-! ### Buffer writes -/

/-- Receive buffer memory after a list of writes. -/
def applyWrites (buf : ℕ → Byte) (ws : List DmaWrite) : ℕ → Byte :=
  ws.foldl (fun b w => Circ.splice b w.off w.data) buf

/-- The write covers offset `k`. -/
def DmaWrite.Touches (w : DmaWrite) (k : ℕ) : Prop := w.off ≤ k ∧ k < w.off + w.data.length

section Writes

variable {fs : FlowState} {pos : U32} {n : U16} {src buf : ℕ → Byte} {w : DmaWrite} {k d : ℕ}

@[simp] theorem bytesAt_length {start m : ℕ} : (bytesAt src start m).length = m := by
  simp [bytesAt]

/-- `flow_rx_write` in one part or in two. -/
theorem flowRxWrite_cases (hpos : pos.toNat < fs.rxLen.toNat) (hlen : fs.rxLen.toNat < 2 ^ 31) :
    (pos.toNat + n.toNat ≤ fs.rxLen.toNat ∧
      flowRxWrite fs pos n src = [⟨pos.toNat, bytesAt src 0 n.toNat⟩]) ∨
    (fs.rxLen.toNat < pos.toNat + n.toNat ∧
      flowRxWrite fs pos n src =
        [⟨pos.toNat, bytesAt src 0 (fs.rxLen.toNat - pos.toNat)⟩,
          ⟨0, bytesAt src (fs.rxLen.toNat - pos.toNat)
            (n.toNat - (fs.rxLen.toNat - pos.toNat))⟩]) := by
  have hw : (n.setWidth 32).toNat = n.toNat := BitVec.toNat_setWidth_of_le (by decide)
  have hend : (pos + n.setWidth 32).toNat = pos.toNat + n.toNat := by
    rw [toNat_add_of_lt (by omega), hw]
  have hpart : (fs.rxLen - pos).toNat = fs.rxLen.toNat - pos.toNat :=
    toNat_sub_of_le (by omega)
  unfold flowRxWrite
  by_cases h : pos.toNat + n.toNat ≤ fs.rxLen.toNat
  · left
    rw [if_pos (by rw [BitVec.le_def]; omega)]
    exact ⟨h, rfl⟩
  · right
    have hrest : (n.setWidth 32 - (fs.rxLen - pos)).toNat =
        n.toNat - (fs.rxLen.toNat - pos.toNat) := by
      rw [toNat_sub_of_le (by omega), hw, hpart]
    rw [if_neg (by rw [BitVec.le_def]; omega)]
    refine ⟨by omega, ?_⟩
    simp only [hpart, hrest]

theorem flowRxWrite_stored (src buf : ℕ → Byte) (hpos : pos.toNat < fs.rxLen.toNat)
    (hlen : fs.rxLen.toNat < 2 ^ 31) (hn : n.toNat ≤ fs.rxLen.toNat) :
    Circ.Stored fs.rxLen.toNat pos.toNat n.toNat src buf
      (applyWrites buf (flowRxWrite fs pos n src)) := by
  rcases flowRxWrite_cases hpos hlen with ⟨h, he⟩ | ⟨h, he⟩
  · rw [he]
    exact Circ.Stored.splice_one (by simp [bytesAt]) h
  · rw [he]
    exact Circ.Stored.splice_two (by simp [bytesAt]) (by simp [bytesAt]) hpos hn h

theorem flowRxWrite_touches (hpos : pos.toNat < fs.rxLen.toNat) (hlen : fs.rxLen.toNat < 2 ^ 31)
    (hn : n.toNat ≤ fs.rxLen.toNat) (hw : w ∈ flowRxWrite fs pos n src) (hk : w.Touches k) :
    ∃ i < n.toNat, k = (pos.toNat + i) % fs.rxLen.toNat := by
  unfold DmaWrite.Touches at hk
  rcases flowRxWrite_cases hpos hlen with ⟨h, he⟩ | ⟨h, he⟩
  · rw [he, List.mem_singleton] at hw
    subst hw
    simp only [bytesAt_length] at hk
    exact ⟨k - pos.toNat, by omega, by rw [Nat.mod_eq_of_lt] <;> omega⟩
  · rw [he, List.mem_cons, List.mem_singleton] at hw
    rcases hw with rfl | rfl
    · simp only [bytesAt_length] at hk
      exact ⟨k - pos.toNat, by omega, by rw [Nat.mod_eq_of_lt] <;> omega⟩
    · simp only [bytesAt_length] at hk
      refine ⟨fs.rxLen.toNat - pos.toNat + k, by omega, ?_⟩
      rw [show pos.toNat + (fs.rxLen.toNat - pos.toNat + k) = k + fs.rxLen.toNat by omega,
        Nat.add_mod_right, Nat.mod_eq_of_lt (by omega)]

/-- Bytes at distance `d` from the next expected one go `d` places behind its position. -/
theorem flowRxSeqWrite_eq (n : U16) (src : ℕ → Byte) {q : U32}
    (hpos : fs.rxNextPos.toNat < fs.rxLen.toNat) (hlen : fs.rxLen.toNat < 2 ^ 31)
    (hd : (q - fs.rxNextSeq).toNat ≤ fs.rxLen.toNat) :
    ∃ pos : U32, pos.toNat = (fs.rxNextPos.toNat + (q - fs.rxNextSeq).toNat) % fs.rxLen.toNat ∧
      flowRxSeqWrite fs q n src = flowRxWrite fs pos n src :=
  ⟨_, toNat_wrap hpos hd (by omega), rfl⟩

end Writes

/-! ### The out-of-order interval -/

/-- The out-of-order interval is empty or lies in the free part of the receive buffer. -/
def OooInside (fs : FlowState) : Prop :=
  fs.rxOooLen = 0 ∨
    (fs.rxOooStart - fs.rxNextSeq).toNat + fs.rxOooLen.toNat ≤ fs.rxAvail.toNat

theorem oooInside_iff {fs : FlowState} :
    OooInside fs ↔ fs.rxOooLen.toNat = 0 ∨
      (fs.rxOooStart - fs.rxNextSeq).toNat + fs.rxOooLen.toNat ≤ fs.rxAvail.toNat := by
  rw [toNat_eq_zero]
  rfl

/-- After an advance the interval may start behind the next expected byte. -/
def OooReaches (fs : FlowState) : Prop :=
  fs.rxOooLen.toNat ≤ (fs.rxNextSeq - fs.rxOooStart).toNat + fs.rxAvail.toNat ∧
    (fs.rxNextSeq - fs.rxOooStart).toNat + fs.rxAvail.toNat < 2 ^ 32

/-- What `packetCatchUp` does to the interval: leave it ahead, discard it, or append its
remaining `c` bytes to the continuous ones. -/
inductive CatchUp (fs : FlowState) : FlowState × U32 → Prop
  | keep (hin : OooInside fs) (hne : fs.rxOooLen = 0 ∨ fs.rxOooStart ≠ fs.rxNextSeq) :
      CatchUp fs (fs, 0)
  | discard (start : U32) : CatchUp fs ({ fs with rxOooStart := start, rxOooLen := 0 }, 0)
  | merge (start c : U32) (hc : c.toNat ≤ fs.rxAvail.toNat)
      (hlen : (fs.rxNextSeq - fs.rxOooStart).toNat + c.toNat = fs.rxOooLen.toNat) :
      CatchUp fs ({ rxAdvance fs c with rxOooStart := start, rxOooLen := 0 }, c)

section CatchUp

variable {fs : FlowState}

theorem oooTrim_zero : oooTrim fs 0 0 = fs := by
  simp [oooTrim]

/-- An interval ahead of the next expected byte is not trimmed, also when its length is cut to
16 bits. -/
theorem packetCatchUp_inside (hlen : fs.rxOooLen ≠ 0)
    (hin : (fs.rxOooStart - fs.rxNextSeq).toNat + fs.rxOooLen.toNat ≤ fs.rxAvail.toNat) :
    CatchUp fs (packetCatchUp fs) := by
  have ha := fs.rxAvail.isLt
  have hn : (fs.rxOooLen.setWidth 16).toNat ≤ fs.rxOooLen.toNat := by
    rw [BitVec.toNat_setWidth]
    exact Nat.mod_le _ _
  have hu : ¬ Untrimmed fs.rxNextSeq fs.rxAvail fs.rxOooStart (fs.rxOooLen.setWidth 16).toNat := by
    have hs := toNat_sub_cases fs.rxOooStart fs.rxNextSeq
    unfold Untrimmed
    omega
  have htrim : tcpTrimRxbuf fs.rxNextSeq fs.rxAvail fs.rxOooStart (fs.rxOooLen.setWidth 16) =
      some (0, 0) := by
    rw [tcpTrimRxbuf_eq (by omega) hu, if_pos (by omega), Nat.sub_eq_zero_of_le (by omega)]
    rfl
  unfold packetCatchUp
  rw [if_pos hlen, htrim]
  dsimp only
  rw [oooTrim_zero]
  unfold oooMerge
  split_ifs with h
  · refine CatchUp.merge fs.rxOooStart fs.rxOooLen (by omega) ?_
    rw [h.2, BitVec.sub_self]
    simp
  · refine CatchUp.keep (Or.inr hin) (Or.inr fun he => h ⟨?_, he⟩)
    exact pos_iff_ne_zero.mpr hlen

/-- Of an interval behind the next expected byte the rest is merged, or nothing is left. -/
theorem packetCatchUp_behind (hlen : fs.rxOooLen ≠ 0) (hne : fs.rxOooStart ≠ fs.rxNextSeq)
    (hr : OooReaches fs) : CatchUp fs (packetCatchUp fs) := by
  obtain ⟨hreach, hlt⟩ := hr
  have hn : (fs.rxOooLen.setWidth 16).toNat ≤ fs.rxOooLen.toNat := by
    rw [BitVec.toNat_setWidth]
    exact Nat.mod_le _ _
  have hn16 := (fs.rxOooLen.setWidth 16).isLt
  have hd := toNat_sub_add_swap hne
  have htrim : tcpTrimRxbuf fs.rxNextSeq fs.rxAvail fs.rxOooStart (fs.rxOooLen.setWidth 16) =
      if (fs.rxOooLen.setWidth 16).toNat < (fs.rxNextSeq - fs.rxOooStart).toNat then none
      else some (BitVec.ofNat 16 (fs.rxNextSeq - fs.rxOooStart).toNat, 0) := by
    rw [tcpTrimRxbuf_eq (by omega) (by unfold Untrimmed; omega), if_neg (by omega)]
    by_cases h : (fs.rxOooLen.setWidth 16).toNat < (fs.rxNextSeq - fs.rxOooStart).toNat
    · rw [if_pos (by omega), if_pos h]
    · have hcut : 2 ^ 32 - (fs.rxOooStart - fs.rxNextSeq).toNat =
          (fs.rxNextSeq - fs.rxOooStart).toNat := by omega
      rw [if_neg (by omega), if_neg h, hcut, Nat.sub_eq_zero_of_le (by omega)]
      rfl
  unfold packetCatchUp
  rw [if_pos hlen, htrim]
  split_ifs with h
  · exact CatchUp.discard fs.rxOooStart
  · have hk : (BitVec.ofNat 16 (fs.rxNextSeq - fs.rxOooStart).toNat).setWidth 32 =
        fs.rxNextSeq - fs.rxOooStart := by
      apply BitVec.eq_of_toNat_eq
      rw [BitVec.toNat_setWidth_of_le (by decide), BitVec.toNat_ofNat, Nat.mod_eq_of_lt (by omega)]
    have hstart := add_sub_cancel fs.rxOooStart fs.rxNextSeq
    have hrest : (fs.rxOooLen - (fs.rxNextSeq - fs.rxOooStart)).toNat =
        fs.rxOooLen.toNat - (fs.rxNextSeq - fs.rxOooStart).toNat := toNat_sub_of_le (by omega)
    have htrimmed : oooTrim fs (BitVec.ofNat 16 (fs.rxNextSeq - fs.rxOooStart).toNat) 0 =
        { fs with
          rxOooStart := fs.rxNextSeq
          rxOooLen := fs.rxOooLen - (fs.rxNextSeq - fs.rxOooStart) } := by
      simp only [oooTrim, hk, hstart]
      simp
    dsimp only
    rw [htrimmed]
    unfold oooMerge
    split_ifs with hm
    · exact CatchUp.merge fs.rxNextSeq (fs.rxOooLen - (fs.rxNextSeq - fs.rxOooStart)) (by omega)
        (by omega)
    · have hz : fs.rxOooLen - (fs.rxNextSeq - fs.rxOooStart) = 0 := by
        by_contra hz
        exact hm ⟨pos_iff_ne_zero.mpr hz, rfl⟩
      rw [hz]
      exact CatchUp.discard fs.rxNextSeq

theorem packetCatchUp_cases (h : OooInside fs ∨ OooReaches fs) : CatchUp fs (packetCatchUp fs) := by
  by_cases hlen : fs.rxOooLen = 0
  · have he : packetCatchUp fs = (fs, 0) := by
      unfold packetCatchUp
      rw [if_neg (not_not.mpr hlen)]
    rw [he]
    exact CatchUp.keep (Or.inl hlen) (Or.inl hlen)
  · rcases h with (hz | hin) | hr
    · exact absurd hz hlen
    · exact packetCatchUp_inside hlen hin
    · by_cases hne : fs.rxOooStart = fs.rxNextSeq
      · apply packetCatchUp_inside hlen
        have hreach := hr.1
        rw [hne, BitVec.sub_self] at hreach ⊢
        simpa using hreach
      · exact packetCatchUp_behind hlen hne hr

/-- In-order data moves the next expected byte towards the interval or past its start. -/
theorem rxAdvance_ooo {m : U32} (h : OooInside fs) (hm : m.toNat ≤ fs.rxAvail.toNat) :
    OooInside (rxAdvance fs m) ∨ OooReaches (rxAdvance fs m) := by
  rcases h with hz | hin
  · exact Or.inl (Or.inl hz)
  · have hav : (fs.rxAvail - m).toNat = fs.rxAvail.toNat - m.toNat := toNat_sub_of_le hm
    have ha := fs.rxAvail.isLt
    have hseq := toNat_add_cases fs.rxNextSeq m
    have h₁ := toNat_sub_cases fs.rxOooStart fs.rxNextSeq
    have h₂ := toNat_sub_cases fs.rxOooStart (fs.rxNextSeq + m)
    have h₃ := toNat_sub_cases (fs.rxNextSeq + m) fs.rxOooStart
    simp only [OooInside, OooReaches, rxAdvance, hav]
    by_cases hd : m.toNat ≤ (fs.rxOooStart - fs.rxNextSeq).toNat
    · left; right
      omega
    · right
      omega

end CatchUp

/-! ### Segments -/

/-- After trimming, `m` bytes from index `skip` of the payload on are left, and they lie in the
window at distance `d` from the next expected byte. -/
structure Trimmed (fs : FlowState) (p : RxPacket) (skip d m : ℕ) : Prop where
  skip_lt : skip < 2 ^ 16
  le : skip + m ≤ p.payloadBytes.toNat
  fits : d + m ≤ fs.rxAvail.toNat
  seq : p.seqno + BitVec.ofNat 32 skip = fs.rxNextSeq + BitVec.ofNat 32 d

section Segment

variable {fs : FlowState} {p : RxPacket} {ts : U32} {d m : ℕ}

/-- The payload that `packetRx` passes on after trimming. -/
def RxPacket.payloadFrom (p : RxPacket) (skip : ℕ) : ℕ → Byte := fun i => p.payload (skip + i)

theorem setWidth_ofNat_of_lt {t : ℕ} (ht : t < 2 ^ 16) :
    (BitVec.ofNat 16 t).setWidth 32 = BitVec.ofNat 32 t := by
  apply BitVec.eq_of_toNat_eq
  rw [BitVec.toNat_setWidth_of_le (by decide), BitVec.toNat_ofNat, BitVec.toNat_ofNat,
    Nat.mod_eq_of_lt ht, Nat.mod_eq_of_lt (by omega)]

theorem packetRx_some {t e : ℕ} (ht : t < 2 ^ 16) (he : e < 2 ^ 16)
    (hle : t + e ≤ p.payloadBytes.toNat)
    (htrim : tcpTrimRxbuf fs.rxNextSeq fs.rxAvail p.seqno (p.payloadBytes.setWidth 16) =
      some (BitVec.ofNat 16 t, BitVec.ofNat 16 e)) :
    packetRx fs p ts =
      if p.seqno + BitVec.ofNat 32 t ≠ fs.rxNextSeq then
        packetOoo fs (p.seqno + BitVec.ofNat 32 t)
          (BitVec.ofNat 32 (p.payloadBytes.toNat - (t + e))) (p.payloadFrom t)
      else
        packetInOrder fs p ts (BitVec.ofNat 32 (p.payloadBytes.toNat - (t + e)))
          (p.payloadFrom t) := by
  have hbytes : p.payloadBytes - (BitVec.ofNat 32 t + BitVec.ofNat 32 e) =
      BitVec.ofNat 32 (p.payloadBytes.toNat - (t + e)) := by
    have hlt := p.payloadBytes.isLt
    have hsum : (BitVec.ofNat 32 t + BitVec.ofNat 32 e).toNat = t + e := by
      rw [← BitVec.ofNat_add, BitVec.toNat_ofNat, Nat.mod_eq_of_lt (by omega)]
    apply BitVec.eq_of_toNat_eq
    rw [toNat_sub_of_le (by omega), hsum, BitVec.toNat_ofNat, Nat.mod_eq_of_lt (by omega)]
  have hskip : (BitVec.ofNat 16 t).toNat = t := toNat_ofNat_of_lt ht
  unfold packetRx
  rw [htrim]
  simp only [setWidth_ofNat_of_lt ht, setWidth_ofNat_of_lt he, hbytes, hskip]
  rfl

/-- A segment is dropped, or trimmed to the window and handled by its distance. -/
theorem packetRx_cases (ts : U32) (hn : p.payloadBytes.toNat < 2 ^ 16)
    (hwrap : (p.seqno - fs.rxNextSeq).toNat ≤ fs.rxAvail.toNat →
      (p.seqno - fs.rxNextSeq).toNat + p.payloadBytes.toNat < 2 ^ 32)
    (hu : ¬ Untrimmed fs.rxNextSeq fs.rxAvail p.seqno p.payloadBytes.toNat) :
    packetRx fs p ts = { fs := fs, triggerAck := true } ∨
    ∃ skip d m, Trimmed fs p skip d m ∧
      ((0 < d ∧ packetRx fs p ts =
          packetOoo fs (fs.rxNextSeq + BitVec.ofNat 32 d) (BitVec.ofNat 32 m)
            (p.payloadFrom skip)) ∨
        (d = 0 ∧ packetRx fs p ts =
          packetInOrder fs p ts (BitVec.ofNat 32 m) (p.payloadFrom skip))) := by
  have hn16 : (p.payloadBytes.setWidth 16).toNat = p.payloadBytes.toNat := by
    rw [BitVec.toNat_setWidth, Nat.mod_eq_of_lt hn]
  have htrim := @tcpTrimRxbuf_eq fs.rxNextSeq fs.rxAvail p.seqno (p.payloadBytes.setWidth 16)
    (by rwa [hn16]) (by rwa [hn16])
  rw [hn16] at htrim
  have hlt := (p.seqno - fs.rxNextSeq).isLt
  have hseq := (add_ofNat_toNat_sub fs.rxNextSeq p.seqno).symm
  have hzero : (p.seqno - fs.rxNextSeq).toNat = 0 ↔ p.seqno = fs.rxNextSeq :=
    toNat_sub_eq_zero
  generalize (p.seqno - fs.rxNextSeq).toNat = dist at *
  split_ifs at htrim with hin hbefore
  · -- the segment starts in the window
    right
    refine ⟨0, dist, p.payloadBytes.toNat - (0 + (dist + p.payloadBytes.toNat - fs.rxAvail.toNat)),
      ⟨by omega, by omega, by omega, by simpa using hseq⟩, ?_⟩
    rw [packetRx_some (t := 0) (by omega) (by omega) (by omega) htrim]
    simp only [BitVec.add_zero]
    by_cases hz : dist = 0
    · right
      rw [if_neg (not_not.mpr (hzero.mp hz))]
      exact ⟨hz, rfl⟩
    · left
      rw [if_pos (fun he => hz (hzero.mpr he)), ← hseq]
      exact ⟨by omega, rfl⟩
  · left
    unfold packetRx
    rw [htrim]
  · -- the segment starts before the window and reaches it
    right
    have hstart : p.seqno + BitVec.ofNat 32 (2 ^ 32 - dist) = fs.rxNextSeq := by
      rw [hseq, BitVec.add_assoc, ← BitVec.ofNat_add, Nat.add_sub_cancel' (by omega)]
      simp
    refine ⟨2 ^ 32 - dist, 0, p.payloadBytes.toNat - (2 ^ 32 - dist +
      (dist + p.payloadBytes.toNat - 2 ^ 32 - fs.rxAvail.toNat)),
      ⟨by omega, by omega, by omega, by simpa using hstart⟩, Or.inr ⟨rfl, ?_⟩⟩
    rw [packetRx_some (by omega) (by omega) (by omega) htrim, if_neg (not_not.mpr hstart)]

/-- `packetOoo` ignores the segment, or writes it and changes the interval. -/
theorem packetOoo_shape (fs : FlowState) (q b : U32) (src : ℕ → Byte) :
    packetOoo fs q b src = { fs := fs, triggerAck := true } ∨
    ∃ start len, b ≠ 0 ∧
      ((fs.rxOooLen = 0 ∧ start = q ∧ len = b) ∨
        (fs.rxOooLen ≠ 0 ∧ q + b = fs.rxOooStart ∧ start = q ∧ len = fs.rxOooLen + b) ∨
        (fs.rxOooLen ≠ 0 ∧ fs.rxOooStart + fs.rxOooLen = q ∧ start = fs.rxOooStart ∧
          len = fs.rxOooLen + b)) ∧
      packetOoo fs q b src =
        { fs := { fs with rxOooStart := start, rxOooLen := len }
          triggerAck := true
          writes := flowRxSeqWrite fs q (b.setWidth 16) src } := by
  unfold packetOoo
  by_cases hz : b = 0
  · rw [if_pos hz]
    exact Or.inl rfl
  rw [if_neg hz]
  by_cases hl : fs.rxOooLen = 0
  · rw [if_pos hl]
    exact Or.inr ⟨q, b, hz, Or.inl ⟨hl, rfl, rfl⟩, rfl⟩
  rw [if_neg hl]
  by_cases hleft : q + b = fs.rxOooStart
  · rw [if_pos hleft]
    exact Or.inr ⟨q, _, hz, Or.inr (Or.inl ⟨hl, hleft, rfl, rfl⟩), rfl⟩
  rw [if_neg hleft]
  by_cases hright : fs.rxOooStart + fs.rxOooLen = q
  · rw [if_pos hright]
    exact Or.inr ⟨fs.rxOooStart, _, hz, Or.inr (Or.inr ⟨hl, hright, rfl, rfl⟩), rfl⟩
  rw [if_neg hright]
  exact Or.inl rfl

/-- The interval is created, or extended at the left or right end. `o`, `l` and `o'`, `l'` are
its distance and length before and after. -/
def OooExtends (o l d m o' l' : ℕ) : Prop :=
  (l = 0 ∧ o' = d ∧ l' = m) ∨ (l ≠ 0 ∧ d + m = o ∧ o' = d ∧ l' = m + l) ∨
    (l ≠ 0 ∧ o + l = d ∧ o' = o ∧ l' = l + m)

/-- A segment at distance `d` is ignored, or written and, unless the interval was broken
before, added to the interval. -/
theorem packetOoo_cases (src : ℕ → Byte) (hn : m < 2 ^ 16) (hfit : d + m < 2 ^ 32) :
    packetOoo fs (fs.rxNextSeq + BitVec.ofNat 32 d) (BitVec.ofNat 32 m) src =
        { fs := fs, triggerAck := true } ∨
    ∃ start len : U32, 0 < m ∧
      (OooInside fs → OooExtends (fs.rxOooStart - fs.rxNextSeq).toNat fs.rxOooLen.toNat d m
        (start - fs.rxNextSeq).toNat len.toNat) ∧
      packetOoo fs (fs.rxNextSeq + BitVec.ofNat 32 d) (BitVec.ofNat 32 m) src =
        { fs := { fs with rxOooStart := start, rxOooLen := len }
          triggerAck := true
          writes :=
            flowRxSeqWrite fs (fs.rxNextSeq + BitVec.ofNat 32 d) (BitVec.ofNat 16 m) src } := by
  have ha := fs.rxAvail.isLt
  have hm : (BitVec.ofNat 32 m).toNat = m := toNat_ofNat_of_lt (by omega)
  have hm16 : (BitVec.ofNat 32 m).setWidth 16 = BitVec.ofNat 16 m := by
    apply BitVec.eq_of_toNat_eq
    rw [BitVec.toNat_setWidth, hm, BitVec.toNat_ofNat]
  have hd := toNat_add_ofNat_sub fs.rxNextSeq (show d < 2 ^ 32 by omega)
  generalize fs.rxNextSeq + BitVec.ofNat 32 d = q at *
  rcases packetOoo_shape fs q (BitVec.ofNat 32 m) src with he | ⟨start, len, hb, hcase, he⟩
  · exact Or.inl he
  right
  have hpos : 0 < m := by
    have hne := toNat_eq_zero.not.mpr hb
    omega
  rw [hm16] at he
  refine ⟨start, len, hpos, fun hin => ?_, he⟩
  have hin' := oooInside_iff.mp hin
  have ho := toNat_sub_cases fs.rxOooStart fs.rxNextSeq
  have hq := toNat_sub_cases q fs.rxNextSeq
  rcases hcase with ⟨hl, rfl, rfl⟩ | ⟨hl, hadj, rfl, rfl⟩ | ⟨hl, hadj, rfl, rfl⟩
  · exact Or.inl ⟨toNat_eq_zero.mpr hl, hd, hm⟩
  · have hl' := toNat_eq_zero.not.mpr hl
    have hend := toNat_add_cases start (BitVec.ofNat 32 m)
    have hlen := toNat_add_cases fs.rxOooLen (BitVec.ofNat 32 m)
    rw [hadj] at hend
    exact Or.inr (Or.inl ⟨hl', by omega, hd, by omega⟩)
  · have hl' := toNat_eq_zero.not.mpr hl
    have hend := toNat_add_cases fs.rxOooStart fs.rxOooLen
    have hlen := toNat_add_cases fs.rxOooLen (BitVec.ofNat 32 m)
    rw [hadj] at hend
    exact Or.inr (Or.inr ⟨hl', by omega, rfl, by omega⟩)

end Segment

end Tas
