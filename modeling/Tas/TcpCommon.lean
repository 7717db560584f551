import Tas.FlowState

/-! Window and acknowledgement arithmetic of `tcp_common.h`. -/
namespace Tas

open Word

/-- Trim a segment to the free part of the receive buffer: `none` drops it,
otherwise the bytes to cut off at either end. -/
def tcpTrimRxbuf (rxNextSeq rxAvail pktSeq : U32) (pktBytes : U16) : Option (U16 × U16) :=
  let pseqA := pktSeq
  let pseqB := pktSeq + pktBytes.setWidth 32
  let sseqA := rxNextSeq
  let sseqB := rxNextSeq + rxAvail
  if pseqA ≤ pseqB ∧ sseqA ≤ sseqB then
    -- neither packet interval nor receive buffer split
    if pseqB < sseqA then none
    else if pseqA > sseqB then none
    else
      some ((if pseqA < sseqA then sseqA - pseqA else 0).setWidth 16,
        (if pseqB > sseqB then pseqB - sseqB else 0).setWidth 16)
  else if pseqA ≤ pseqB ∧ sseqA > sseqB then
    -- packet interval not split, but receive buffer split
    if pseqA > sseqB ∧ pseqB < sseqA then none
    else
      some ((if pseqA > sseqB ∧ pseqA < sseqA then sseqA - pseqA else 0).setWidth 16,
        (if pseqB ≥ sseqB ∧ pseqB < sseqA then pseqB - sseqB else 0).setWidth 16)
  else if pseqA > pseqB ∧ sseqA ≤ sseqB then
    -- packet interval split, receive buffer not split
    if pseqA > sseqB ∧ pseqB < sseqA then none
    else
      some ((if sseqA ≤ pseqB ∨ sseqA > pseqA then sseqA - pseqA else 0).setWidth 16,
        (if pseqB > sseqB ∨ sseqA ≥ pseqA then pseqB - sseqB else 0).setWidth 16)
  else
    -- both intervals split
    some ((if pseqA < sseqA then sseqA - pseqA else 0).setWidth 16,
      (if pseqB > sseqB then pseqB - sseqB else 0).setWidth 16)

/-- The acknowledged bytes, unless the number lies outside of sent and future data
(`ALLOW_FUTURE_ACKS` is defined). -/
def tcpValidRxack (fs : FlowState) (ack : U32) : Option U32 :=
  let fsackA := fs.txNextSeq - fs.txSent
  let fsackB := fs.txNextSeq + fs.txAvail
  if fsackA ≤ fsackB then
    if ack < fsackA ∨ ack > fsackB then none else some (ack - fsackA)
  else
    if fsackA > ack ∧ ack > fsackB then none else some (ack - fsackA)

/-- Bytes that buffer and flow control window allow to send. -/
def tcpTxavail (fs : FlowState) (pavail : Option U32) : U32 :=
  let bufAvail := pavail.getD fs.txAvail
  let fcAvail := if fs.txSent > fs.rxRemoteAvail then 0 else fs.rxRemoteAvail - fs.txSent
  if fcAvail < bufAvail then fcAvail else bufAvail

/-! ### Trimming, by the distance of the segment from the window start -/

section Trim

variable {s a p : U32} {n : U16}

/-- The segments that `tcpTrimRxbuf` fails to cut at the end: those that start inside of
an unsplit window behind its first byte and reach past the largest sequence number. -/
def Untrimmed (s a p : U32) (n : ℕ) : Prop :=
  0 < (p - s).toNat ∧ (p - s).toNat ≤ a.toNat ∧ s.toNat + a.toNat < 2 ^ 32 ∧
    2 ^ 32 ≤ p.toNat + n

instance (s a p : U32) (n : ℕ) : Decidable (Untrimmed s a p n) := by
  unfold Untrimmed; infer_instance

/-- By the distance from the window start: a segment that starts inside loses only what
overruns the window, one that starts behind reaches the window or is dropped. -/
theorem tcpTrimRxbuf_eq (hn : (p - s).toNat ≤ a.toNat → (p - s).toNat + n.toNat < 2 ^ 32)
    (hu : ¬ Untrimmed s a p n.toNat) :
    tcpTrimRxbuf s a p n =
      if (p - s).toNat ≤ a.toNat then
        some (0, BitVec.ofNat 16 ((p - s).toNat + n.toNat - a.toNat))
      else if (p - s).toNat + n.toNat < 2 ^ 32 then none
      else some (BitVec.ofNat 16 (2 ^ 32 - (p - s).toNat),
        BitVec.ofNat 16 ((p - s).toNat + n.toNat - 2 ^ 32 - a.toNat)) := by
  have hds := toNat_sub_cases p s
  have hpb := toNat_add_cases p (n.setWidth 32)
  have hsb := toNat_add_cases s a
  rw [BitVec.toNat_setWidth_of_le (by decide)] at hpb
  unfold Untrimmed at hu
  unfold tcpTrimRxbuf
  generalize p + n.setWidth 32 = pb at *
  generalize s + a = sb at *
  have hend := toNat_sub_cases pb sb
  have hstart := toNat_sub_cases s p
  simp only [BitVec.le_def, BitVec.lt_def, gt_iff_lt, ge_iff_le]
  rcases hpb with ⟨hpb, hp⟩ | hpb <;> rcases hsb with ⟨hsb, hs⟩ | hsb
  -- exact ends on both sides leave one of the four branches of the source
  all_goals first
    | rw [if_pos (by omega)]
    | rw [if_neg (by omega), if_pos (by omega)]
    | rw [if_neg (by omega), if_neg (by omega), if_pos (by omega)]
    | rw [if_neg (by omega), if_neg (by omega), if_neg (by omega)]
  all_goals
    split_ifs
    all_goals first
      | rfl
      | (exfalso; omega)
      | (simp only [Option.some.injEq, Prod.mk.injEq, ← BitVec.toNat_inj, BitVec.toNat_setWidth,
          BitVec.toNat_ofNat, BitVec.ofNat_eq_ofNat, true_and]
         omega)

/-- The overrunning bytes of such a segment stay. -/
theorem tcpTrimRxbuf_untrimmed (hu : Untrimmed s a p n.toNat)
    (hn : (p - s).toNat + n.toNat < 2 ^ 32) : tcpTrimRxbuf s a p n = some (0, 0) := by
  obtain ⟨hpos, hin, hs, hp⟩ := hu
  have hds := toNat_sub_cases p s
  have hpb := toNat_add_cases p (n.setWidth 32)
  have hsb := toNat_add_of_lt hs
  rw [BitVec.toNat_setWidth_of_le (by decide)] at hpb
  unfold tcpTrimRxbuf
  generalize p + n.setWidth 32 = pb at *
  generalize s + a = sb at *
  simp only [BitVec.le_def, BitVec.lt_def, gt_iff_lt, ge_iff_le]
  rw [if_neg (by omega), if_neg (by omega), if_pos (by omega), if_neg (by omega),
    if_neg (by omega), if_neg (by omega)]
  rfl

/-- The cyclic closed interval from `x` to `x + n`. -/
def InSpan (x : U32) (n : ℕ) (y : U32) : Prop := (y - x).toNat ≤ n

theorem inSpan_self (x : U32) (n : ℕ) : InSpan x n x := by simp [InSpan]

/-- A segment is dropped if it has no number in common with the window, closed at both ends, and
else cut to what they have in common. -/
def TrimsExactly (s a p : U32) (n : U16) : Prop :=
  match tcpTrimRxbuf s a p n with
  | none => ∀ y, ¬ (InSpan p n.toNat y ∧ InSpan s a.toNat y)
  | some (start, stop) =>
    (∃ y, InSpan p n.toNat y ∧ InSpan s a.toNat y) ∧ start.toNat + stop.toNat ≤ n.toNat ∧
      ∀ y, InSpan (p + start.setWidth 32) (n.toNat - start.toNat - stop.toNat) y ↔
        InSpan p n.toNat y ∧ InSpan s a.toNat y

/-- What is left of a segment, by the distance of its start from that of the window. -/
theorem inSpan_trimmed {i j : ℕ} (ha : a.toNat < 2 ^ 31)
    (hi : i = if (p - s).toNat ≤ a.toNat then 0 else 2 ^ 32 - (p - s).toNat)
    (hj : j = if (p - s).toNat ≤ a.toNat then (p - s).toNat + n.toNat - a.toNat
      else (p - s).toNat + n.toNat - 2 ^ 32 - a.toNat) (hij : i + j ≤ n.toNat) (y : U32) :
    InSpan (p + (BitVec.ofNat 16 i).setWidth 32) (n.toNat - i - j) y ↔
      InSpan p n.toNat y ∧ InSpan s a.toNat y := by
  have hn := n.isLt
  have hstart : ((BitVec.ofNat 16 i).setWidth 32).toNat = i := by
    rw [BitVec.toNat_setWidth_of_le (by decide), BitVec.toNat_ofNat]
    exact Nat.mod_eq_of_lt (by omega)
  have hps := toNat_sub_cases p s
  have hys := toNat_sub_cases y s
  have hyp := toNat_sub_cases y p
  have hsum := toNat_add_cases p ((BitVec.ofNat 16 i).setWidth 32)
  have hy := toNat_sub_cases y (p + (BitVec.ofNat 16 i).setWidth 32)
  rw [hstart] at hsum
  unfold InSpan
  split_ifs at hi hj <;> omega

/-- Trimming is exact for all segments but those that are not cut at the end. -/
theorem trims_exactly_iff (ha : a.toNat < 2 ^ 31) :
    TrimsExactly s a p n ↔ ¬ Untrimmed s a p n.toNat := by
  have hn := n.isLt
  have hzero : (0 : U16).toNat = 0 := rfl
  unfold TrimsExactly
  constructor
  · intro h hu
    rw [tcpTrimRxbuf_untrimmed hu (by have := hu.2.1; omega)] at h
    obtain ⟨hpos, hin, hs, hp⟩ := hu
    -- the number behind the window is in the segment
    have hwin := (h.2.2 (s + a + 1)).1
    have hone : (1 : U32).toNat = 1 := rfl
    have hsame : p + (0 : U16).setWidth 32 = p := by simp
    rw [hsame] at hwin
    have hps := toNat_sub_cases p s
    have hyp := toNat_sub_cases (s + a + 1) p
    have hys := toNat_sub_cases (s + a + 1) s
    have hsum := toNat_add_of_lt hs
    have hnext := toNat_add_cases (s + a) 1
    unfold InSpan at hwin
    omega
  · intro hu
    have hnat {i : ℕ} (hi : i ≤ n.toNat) : (BitVec.ofNat 16 i).toNat = i := by
      rw [BitVec.toNat_ofNat]
      exact Nat.mod_eq_of_lt (by omega)
    rw [tcpTrimRxbuf_eq (by omega) hu]
    split_ifs with hin hout
    · have hcut := inSpan_trimmed (n := n) ha (if_pos hin).symm (if_pos hin).symm (by omega)
      dsimp only
      rw [hnat (by omega)]
      exact ⟨⟨_, (hcut _).1 (inSpan_self ..)⟩, by omega, hcut⟩
    · rintro y ⟨hseg, hwin⟩
      have hps := toNat_sub_cases p s
      have hys := toNat_sub_cases y s
      have hyp := toNat_sub_cases y p
      unfold InSpan at hseg hwin
      omega
    · have hps := (p - s).isLt
      have hcut := inSpan_trimmed (n := n) ha (if_neg hin).symm (if_neg hin).symm (by omega)
      dsimp only
      rw [hnat (by omega), hnat (by omega)]
      exact ⟨⟨_, (hcut _).1 (inSpan_self ..)⟩, by omega, hcut⟩

/-- A segment that starts before the window and ends inside. -/
theorem trims_exactly_below : TrimsExactly 100 50 90 20 :=
  (trims_exactly_iff (by decide)).2 (by decide)

/-- A segment that wraps, and a window that ends before the largest number. -/
theorem wrapped_segment_uncut :
    ∃ (s a p : U32) (n : U16), a.toNat < 2 ^ 31 ∧ ¬ TrimsExactly s a p n := by
  refine ⟨0xffffff38, 100, 0xffffff6a, 200, by decide, fun h => ?_⟩
  have hout := ((show _ ∧ _ ∧ ∀ y : U32, _ ↔ _ from h).2.2 0xffffffff).1
  exact absurd (hout (by unfold InSpan; decide)).2 (by unfold InSpan; decide)

end Trim

/-! ### Acknowledgements and the send window -/

section Send

variable {fs : FlowState} {ack b : U32}

/-- An accepted acknowledgement covers no more than sent and available bytes. -/
theorem tcpValidRxack_some (h : tcpValidRxack fs ack = some b)
    (hle : fs.txSent.toNat + fs.txAvail.toNat < 2 ^ 32) :
    b.toNat ≤ fs.txSent.toNat + fs.txAvail.toNat ∧ ack = fs.txNextSeq - fs.txSent + b := by
  unfold tcpValidRxack at h
  have hspan : fs.txNextSeq + fs.txAvail =
      fs.txNextSeq - fs.txSent + (fs.txSent + fs.txAvail) := by
    rw [← BitVec.add_assoc, BitVec.sub_add_cancel]
  have hlen := toNat_add_of_lt hle
  rw [hspan] at h
  generalize fs.txNextSeq - fs.txSent = lo at *
  generalize fs.txSent + fs.txAvail = len at *
  have hhi := toNat_add_cases lo len
  have hb := toNat_sub_cases ack lo
  simp only [BitVec.le_def, BitVec.lt_def, gt_iff_lt] at h
  split_ifs at h <;> simp only [Option.some.injEq] at h <;> subst h <;>
    exact ⟨by omega, by rw [BitVec.add_comm, BitVec.sub_add_cancel]⟩

theorem toNat_tcpTxavail (fs : FlowState) (pavail : Option U32) :
    (tcpTxavail fs pavail).toNat =
      min (pavail.getD fs.txAvail).toNat (fs.rxRemoteAvail.toNat - fs.txSent.toNat) := by
  have hc := toNat_sub_cases fs.rxRemoteAvail fs.txSent
  unfold tcpTxavail
  simp only [BitVec.lt_def, gt_iff_lt]
  split_ifs <;> simp_all <;> omega

end Send

end Tas
