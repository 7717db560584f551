import Tas.RxWindow

/-! The bytes reported to the application are the sender's stream: over every run of segments,
reads and returned buffer space. -/
namespace Tas

open Relation List Word

open Circ (Holds Stored)

/-- Receive side of a flow that reported `A` bytes and `F` FINs of the stream `S`, of which
`B` bytes were returned: sequence number, position and free space follow from these counts,
and the buffer holds the bytes not returned. -/
structure RxFront (S : ℕ → Byte) (isn : U32) (L : ℕ) (fs : FlowState) (buf : ℕ → Byte)
    (A B F : ℕ) : Prop where
  len : fs.rxLen.toNat = L
  len_lt : L < 2 ^ 31
  le : B ≤ A
  seq : fs.rxNextSeq = isn + BitVec.ofNat 32 (A + F)
  pos : fs.rxNextPos.toNat = A % L
  avail : fs.rxAvail.toNat + A = L + B
  held : Holds L buf S B A
  fin : F = 0 ∨ F = 1 ∧ fs.flag flowstRxfin

/-- Until the FIN the buffer also holds the out-of-order interval. -/
structure RxCore (S : ℕ → Byte) (isn : U32) (L : ℕ) (fs : FlowState) (buf : ℕ → Byte)
    (A B F : ℕ) : Prop extends RxFront S isn L fs buf A B F where
  inside : F = 0 → OooInside fs
  ooo : F = 0 → Holds L buf S (A + (fs.rxOooStart - fs.rxNextSeq).toNat)
    (A + (fs.rxOooStart - fs.rxNextSeq).toNat + fs.rxOooLen.toNat)

/-- The payload is the slice of `S` at the segment's sequence number, where `next` is the
stream index of the next expected byte, and ends inside of the window. Payload before the
start of the stream is arbitrary. -/
structure Slice (S : ℕ → Byte) (next : ℕ) (fs : FlowState) (p : RxPacket) : Prop where
  short : p.payloadBytes.toNat ≤ 65535
  inside : (p.seqno - fs.rxNextSeq).toInt + p.payloadBytes.toNat ≤ fs.rxAvail.toNat
  bytes : ∀ i < p.payloadBytes.toNat, ∀ k : ℕ,
    (k : ℤ) = next + (p.seqno - fs.rxNextSeq).toInt + i → p.payload i = S k

variable {S : ℕ → Byte} {isn : U32} {L A B F : ℕ} {fs fs' : FlowState} {buf : ℕ → Byte}
  {p : RxPacket} {ts : U32} {src : ℕ → Byte} {skip d m : ℕ} {next : ℕ} {n : U32}

theorem RxFront.avail_le (h : RxFront S isn L fs buf A B F) : fs.rxAvail.toNat ≤ L := by
  have := h.avail
  have := h.le
  omega

theorem RxCore.of_rxView (h : RxCore S isn L fs buf A B F) (he : fs'.rxView = fs.rxView) :
    RxCore S isn L fs' buf A B F := by
  simp only [FlowState.rxView, RxView.mk.injEq] at he
  obtain ⟨h₁, h₂, h₃, h₄, h₅, h₆, h₇⟩ := he
  refine ⟨⟨?_, h.len_lt, h.le, ?_, ?_, ?_, h.held, ?_⟩, ?_, ?_⟩
  · rw [h₁, h.len]
  · rw [h₄, h.seq]
  · rw [h₃, h.pos]
  · rw [h₂, h.avail]
  · rw [h₇]
    exact h.fin
  · unfold OooInside
    rw [h₂, h₄, h₅, h₆]
    exact h.inside
  · rw [h₄, h₅, h₆]
    exact h.ooo

/-- The wrapped distance of a trimmed segment is exact. -/
theorem Trimmed.toInt_eq (h : Trimmed fs p skip d m) (ha : fs.rxAvail.toNat < 2 ^ 31) :
    (p.seqno - fs.rxNextSeq).toInt = d - skip := by
  have hskip := h.skip_lt
  have hfit := h.fits
  have hx : p.seqno - fs.rxNextSeq + BitVec.ofNat 32 skip = BitVec.ofNat 32 d := by
    have hseq := congrArg (fun q => q - fs.rxNextSeq) h.seq
    simp only [BitVec.add_comm fs.rxNextSeq, BitVec.add_sub_cancel] at hseq
    rw [← hseq]
    simp only [BitVec.sub_eq_add_neg]
    rw [BitVec.add_assoc, BitVec.add_comm (-_), ← BitVec.add_assoc]
  have hs : (BitVec.ofNat 32 skip).toNat = skip := toNat_ofNat_of_lt (by omega)
  have hd : (BitVec.ofNat 32 d).toNat = d := toNat_ofNat_of_lt (by omega)
  have hc := toNat_add_cases (p.seqno - fs.rxNextSeq) (BitVec.ofNat 32 skip)
  rw [hx, hs, hd] at hc
  rw [BitVec.toInt_eq_toNat_cond]
  split_ifs <;> omega

/-- What is left after trimming is the slice of `S` at distance `d`. -/
theorem Slice.payloadFrom (h : Slice S next fs p) (ht : Trimmed fs p skip d m)
    (ha : fs.rxAvail.toNat < 2 ^ 31) {i : ℕ} (hi : i < m) :
    p.payloadFrom skip i = S (next + d + i) := by
  have hle := ht.le
  apply h.bytes (skip + i) (by omega)
  rw [ht.toInt_eq ha]
  push_cast
  ring

theorem Slice.not_untrimmed (h : Slice S next fs p) (ha : fs.rxAvail.toNat < 2 ^ 31) :
    ¬ Untrimmed fs.rxNextSeq fs.rxAvail p.seqno p.payloadBytes.toNat := by
  intro hu
  have hover := hu.overruns
  have hin := h.inside
  have hd := hu.2.1
  rw [BitVec.toInt_eq_toNat_cond] at hin
  split_ifs at hin <;> omega

/-! ### One segment -/

theorem RxFront.base (h : RxFront S isn L fs buf A B F) (hL : 0 < L) : RxBase fs where
  pos_lt := by
    rw [h.pos, h.len]
    exact Nat.mod_lt _ hL
  avail_le := by
    rw [h.len]
    exact h.avail_le
  len_lt := by
    rw [h.len]
    exact h.len_lt

/-- Reporting `n` more bytes that the buffer holds. -/
theorem RxFront.rxAdvance (h : RxFront S isn L fs buf A B F) (hL : 0 < L)
    (hn : n.toNat ≤ fs.rxAvail.toNat) (hheld : Holds L buf S A (A + n.toNat)) :
    RxFront S isn L (rxAdvance fs n) buf (A + n.toNat) B F := by
  have hle := h.avail_le
  have hb := h.base hL
  have hB := h.le
  have hav := h.avail
  have hlen := h.len
  have hlt := h.len_lt
  have hposlt := hb.pos_lt
  have hpos := toNat_wrap hb.pos_lt (n := n) (by omega) (by omega)
  rw [h.pos, h.len, Nat.mod_add_mod] at hpos
  refine ⟨h.len, h.len_lt, by omega, ?_, hpos, ?_, h.held.append hheld, h.fin⟩
  · simp only [Tas.rxAdvance, h.seq]
    rw [show A + n.toNat + F = A + F + n.toNat by omega, BitVec.ofNat_add (A + F),
      ← BitVec.add_assoc, BitVec.ofNat_toNat, BitVec.setWidth_eq]
  · have hsub : (fs.rxAvail - n).toNat = fs.rxAvail.toNat - n.toNat := toNat_sub_of_le hn
    simp only [Tas.rxAdvance, hsub]
    omega

/-- Catching up with an interval that started at distance `o` before the last `m` bytes. -/
theorem CatchUp.rxCore {r : FlowState × U32} {s : U32} {A₀ o : ℕ} (hc : CatchUp fs r)
    (h : RxFront S isn L fs buf (A₀ + m) B 0) (hL : 0 < L)
    (hstart : fs.rxOooStart = s + BitVec.ofNat 32 o) (hnext : fs.rxNextSeq = s + BitVec.ofNat 32 m)
    (hm : m < 2 ^ 31) (hl : fs.rxOooLen.toNat = 0 ∨ o + fs.rxOooLen.toNat ≤ m + fs.rxAvail.toNat)
    (hbuf : Holds L buf S (A₀ + o) (A₀ + o + fs.rxOooLen.toNat)) :
    RxCore S isn L r.1 buf (A₀ + m + r.2.toNat) B 0 := by
  have hlt := h.len_lt
  have hav := h.avail_le
  have hdist : fs.rxOooLen.toNat ≠ 0 →
      ((fs.rxOooStart - fs.rxNextSeq).toNat + m = o ∨
        (fs.rxOooStart - fs.rxNextSeq).toNat + m = o + 2 ^ 32) ∧
      ((fs.rxNextSeq - fs.rxOooStart).toNat + o = m ∨
        (fs.rxNextSeq - fs.rxOooStart).toNat + o = m + 2 ^ 32) := by
    intro hne
    have ho : (BitVec.ofNat 32 o).toNat = o := toNat_ofNat_of_lt (by omega)
    have hm' : (BitVec.ofNat 32 m).toNat = m := toNat_ofNat_of_lt (by omega)
    have h₁ := toNat_sub_cases fs.rxOooStart fs.rxNextSeq
    have h₂ := toNat_sub_cases fs.rxNextSeq fs.rxOooStart
    have h₃ := toNat_add_cases s (BitVec.ofNat 32 o)
    have h₄ := toNat_add_cases s (BitVec.ofNat 32 m)
    rw [← hstart] at h₃
    rw [← hnext] at h₄
    omega
  cases hc with
  | keep hin _ =>
    refine { h with inside := fun _ => hin, ooo := fun _ => ?_ }
    change Holds L buf S (A₀ + m + 0 + (fs.rxOooStart - fs.rxNextSeq).toNat)
      (A₀ + m + 0 + (fs.rxOooStart - fs.rxNextSeq).toNat + fs.rxOooLen.toNat)
    have hin := oooInside_iff.mp hin
    by_cases hz : fs.rxOooLen.toNat = 0
    · exact Holds.of_le (by omega)
    · have hd := hdist hz
      exact hbuf.mono (by omega) (by omega)
  | discard start =>
    exact { h with inside := fun _ => Or.inl rfl, ooo := fun _ => Holds.of_le (by simp) }
  | merge start c hle hlen =>
    have hheld : Holds L buf S (A₀ + m) (A₀ + m + c.toNat) := by
      by_cases hz : fs.rxOooLen.toNat = 0
      · exact Holds.of_le (by omega)
      · have hd := hdist hz
        exact hbuf.mono (by omega) (by omega)
    exact { h.rxAdvance hL hle hheld with
      inside := fun _ => Or.inl rfl
      ooo := fun _ => Holds.of_le (by simp) }

namespace RxCore

/-- Memory after `m` bytes are written at distance `d` from the next expected byte. -/
theorem stored_seq (src : ℕ → Byte) (h : RxCore S isn L fs buf A B F)
    (hfit : d + m ≤ fs.rxAvail.toNat) (hm : 0 < m) (hn : m < 2 ^ 16) :
    Stored L (A + d) m src buf (applyWrites buf
      (flowRxSeqWrite fs (fs.rxNextSeq + BitVec.ofNat 32 d) (BitVec.ofNat 16 m) src)) := by
  have hle := h.avail_le
  have hlen := h.len_lt
  have hb := h.base (by omega)
  have hd := toNat_add_ofNat_sub fs.rxNextSeq (show d < 2 ^ 32 by omega)
  have hm16 : (BitVec.ofNat 16 m).toNat = m := toNat_ofNat_of_lt hn
  obtain ⟨pos, hpos, he⟩ := flowRxSeqWrite_eq (BitVec.ofNat 16 m) src hb.pos_lt hb.len_lt
    (q := fs.rxNextSeq + BitVec.ofNat 32 d) (by rw [h.len]; omega)
  rw [hd, h.pos, h.len, Nat.mod_add_mod] at hpos
  have hst : Stored fs.rxLen.toNat pos.toNat (BitVec.ofNat 16 m).toNat src buf
      (applyWrites buf (flowRxWrite fs pos (BitVec.ofNat 16 m) src)) := by
    apply flowRxWrite_stored src buf _ hb.len_lt
    · rw [h.len]
      omega
    · rw [hpos, h.len]
      exact Nat.mod_lt _ (by omega)
  rw [h.len, hm16, hpos] at hst
  rw [he]
  exact hst.of_mod

theorem packetOoo (h : RxCore S isn L fs buf A B F) (hfit : d + m ≤ fs.rxAvail.toNat)
    (hn : m < 2 ^ 16) (hsrc : F = 0 → ∀ i < m, src i = S (A + d + i)) :
    RxCore S isn L
      (Tas.packetOoo fs (fs.rxNextSeq + BitVec.ofNat 32 d) (BitVec.ofNat 32 m) src).fs
      (applyWrites buf
        (Tas.packetOoo fs (fs.rxNextSeq + BitVec.ofNat 32 d) (BitVec.ofNat 32 m) src).writes)
      A B F := by
  have ha := fs.rxAvail.isLt
  rcases @packetOoo_cases fs d m src hn (by omega) with he | ⟨start, len, hm, hext, he⟩
  · rw [he]
    exact h
  · rw [he]
    have hst := h.stored_seq src hfit hm hn
    have hav := h.avail
    have hle := h.le
    refine { h with held := ?_, inside := ?_, ooo := ?_ }
    · exact hst.holds_apart h.held (by omega) (by omega)
    · intro hF
      exact Or.inr ((hext (h.inside hF)).le hfit (oooInside_iff.mp (h.inside hF)))
    · intro hF
      have hin := oooInside_iff.mp (h.inside hF)
      have hnew := hst.holds_new (hsrc hF)
      have hold : fs.rxOooLen.toNat ≠ 0 → Holds L _ S _ _ := fun hl =>
        hst.holds_old (hsrc hF) (h.ooo hF) (by omega) (by omega)
      dsimp only
      rcases hext (h.inside hF) with ⟨hl, ho', hl'⟩ | ⟨hl, hadj, ho', hl'⟩ | ⟨hl, hadj, ho', hl'⟩
      · rw [ho', hl']
        exact hnew
      · have hend : A + (fs.rxOooStart - fs.rxNextSeq).toNat = A + d + m := by omega
        have hold := hold hl
        rw [hend] at hold
        rw [ho', hl', ← Nat.add_assoc]
        exact hnew.append hold
      · have hend : A + d = A + (fs.rxOooStart - fs.rxNextSeq).toNat + fs.rxOooLen.toNat := by
          omega
        rw [hend] at hnew
        rw [ho', hl', ← Nat.add_assoc]
        exact (hold hl).append hnew

theorem packetDeliver (h : RxCore S isn L fs buf A B 0) (hm : m ≤ fs.rxAvail.toNat)
    (hn : m < 2 ^ 16) (hsrc : ∀ i < m, src i = S (A + i)) :
    RxCore S isn L (packetDeliver fs (BitVec.ofNat 32 m) src).fs
      (applyWrites buf (packetDeliver fs (BitVec.ofNat 32 m) src).writes)
      (A + (packetDeliver fs (BitVec.ofNat 32 m) src).rxBump.toNat) B 0 := by
  have hle := h.avail_le
  have hlt := h.len_lt
  have hav := h.avail
  have hB := h.le
  have hin := oooInside_iff.mp (h.inside rfl)
  have hm32 : (BitVec.ofNat 32 m).toNat = m := toNat_ofNat_of_lt (by omega)
  have hm16 : ((BitVec.ofNat 32 m).setWidth 16).toNat = m := by
    rw [BitVec.toNat_setWidth, hm32, Nat.mod_eq_of_lt hn]
  unfold Tas.packetDeliver
  split_ifs with hpos
  · rw [gt_iff_lt, pos_iff_ne_zero, ne_eq, ← toNat_eq_zero, hm32] at hpos
    have hb := h.base (by omega)
    have hst : Stored L A m src buf
        (applyWrites buf (flowRxWrite fs fs.rxNextPos ((BitVec.ofNat 32 m).setWidth 16) src)) := by
      have hst := flowRxWrite_stored (n := (BitVec.ofNat 32 m).setWidth 16) src buf hb.pos_lt
        hb.len_lt (by rw [h.len]; omega)
      rw [h.len, hm16, h.pos] at hst
      exact hst.of_mod
    dsimp only
    generalize applyWrites buf _ = buf' at hst ⊢
    have hnew := hst.holds_new hsrc
    have hfront : RxFront S isn L fs buf' A B 0 :=
      { h with held := hst.holds_apart h.held (by omega) (by omega) }
    have hadv := hfront.rxAdvance (n := BitVec.ofNat 32 m) (by omega) (by omega) (by rwa [hm32])
    rw [hm32] at hadv
    have hold : Holds L buf' S (A + (fs.rxOooStart - fs.rxNextSeq).toNat)
        (A + (fs.rxOooStart - fs.rxNextSeq).toNat + fs.rxOooLen.toNat) := by
      by_cases hz : fs.rxOooLen.toNat = 0
      · exact Holds.of_le (by omega)
      · exact hst.holds_old hsrc (h.ooo rfl) (by omega) (by omega)
    have hcatch := packetCatchUp_cases (rxAdvance_ooo (h.inside rfl)
      (show (BitVec.ofNat 32 m).toNat ≤ _ by omega))
    have hsub : (fs.rxAvail - BitVec.ofNat 32 m).toNat = fs.rxAvail.toNat - m := by
      rw [toNat_sub_of_le (by omega), hm32]
    have hcore := hcatch.rxCore (s := fs.rxNextSeq) (o := (fs.rxOooStart - fs.rxNextSeq).toNat)
      hadv (by omega) (add_ofNat_toNat_sub _ _).symm rfl (by omega)
      (by simp only [rxAdvance, hsub]; omega) hold
    have hsum := hcore.avail
    have hbump : (BitVec.ofNat 32 m + (packetCatchUp (rxAdvance fs (BitVec.ofNat 32 m))).2).toNat =
        m + (packetCatchUp (rxAdvance fs (BitVec.ofNat 32 m))).2.toNat := by
      rw [toNat_add_of_lt (by omega), hm32]
    rw [hbump, ← Nat.add_assoc]
    exact hcore
  · exact h

end RxCore

/-- The state after a packet, with what it reports added to the counts. -/
def RxCoreAfter (S : ℕ → Byte) (isn : U32) (L : ℕ) (r : RxResult) (buf : ℕ → Byte)
    (A B F : ℕ) : Prop :=
  RxCore S isn L r.fs (applyWrites buf r.writes) (A + r.rxBump.toNat) B (F + r.fins)

namespace RxCore

theorem after_of_rxView (h : RxCore S isn L fs buf A B F) {ack : Bool}
    (he : fs'.rxView = fs.rxView) :
    RxCoreAfter S isn L { fs := fs', triggerAck := ack } buf A B F :=
  h.of_rxView he

/-- A FIN that is next in sequence and has nothing missing before it is counted. -/
theorem packetFin {r : RxResult} (h : RxCoreAfter S isn L r buf A B 0) (hr : r.finBump = false) :
    RxCoreAfter S isn L (packetFin r p) buf A B 0 := by
  have hfins : r.fins = 0 := by simp [RxResult.fins, hr]
  unfold Tas.packetFin
  split_ifs with hfin hlast
  · unfold RxCoreAfter at *
    rw [hfins, Nat.zero_add] at h
    refine ⟨⟨h.len, h.len_lt, h.le, ?_, h.pos, h.avail, h.held, ?_⟩, ?_, ?_⟩
    · change r.fs.rxNextSeq + 1 = isn + BitVec.ofNat 32 (A + r.rxBump.toNat + 1)
      rw [h.seq, Nat.add_zero, BitVec.ofNat_add _ 1, ← BitVec.add_assoc]
      rfl
    · exact Or.inr ⟨rfl, FlowState.flag_setFlag_self⟩
    all_goals
      intro hF
      simp [RxResult.fins] at hF
  · exact h
  · exact h

/-- After a FIN nothing is reported any more. -/
theorem packetInOrder_closed (h : RxCore S isn L fs buf A B F) (hfin : fs.flag flowstRxfin)
    {bytes : U32} : RxCoreAfter S isn L (packetInOrder fs p ts bytes src) buf A B F := by
  have he : (packetEstimate fs p ts).rxView = fs.rxView := rfl
  have hflag : (packetEstimate fs p ts).flag flowstRxfin := hfin
  unfold packetInOrder
  dsimp only
  by_cases hb : bytes > 0
  · rw [if_pos ⟨hflag, hb⟩]
    exact h.after_of_rxView he
  · have hzero : Tas.packetDeliver (packetEstimate fs p ts) bytes src =
        { fs := packetEstimate fs p ts } := by
      unfold Tas.packetDeliver
      rw [if_neg hb]
    rw [if_neg (fun hc => hb hc.2), hzero]
    unfold Tas.packetFin
    rw [if_neg (fun hc => hc.2 hflag)]
    exact h.after_of_rxView he

theorem packetInOrder (h : RxCore S isn L fs buf A B F) (hm : m ≤ fs.rxAvail.toNat)
    (hn : m < 2 ^ 16) (hsrc : F = 0 → ∀ i < m, src i = S (A + i)) :
    RxCoreAfter S isn L (packetInOrder fs p ts (BitVec.ofNat 32 m) src) buf A B F := by
  by_cases hfin : fs.flag flowstRxfin
  · exact h.packetInOrder_closed hfin
  · obtain rfl : F = 0 := by
      rcases h.fin with hF | ⟨-, hflag⟩
      · exact hF
      · exact absurd hflag hfin
    have he : RxCore S isn L (packetEstimate fs p ts) buf A B 0 := h.of_rxView rfl
    have hd : (Tas.packetDeliver (packetEstimate fs p ts) (BitVec.ofNat 32 m) src).finBump =
        false := by
      unfold Tas.packetDeliver
      split_ifs <;> rfl
    unfold Tas.packetInOrder
    dsimp only
    rw [if_neg (fun hc => hfin hc.1)]
    apply packetFin _ hd
    have hcore := he.packetDeliver hm hn (hsrc rfl)
    unfold RxCoreAfter RxResult.fins
    rw [hd]
    exact hcore

theorem packetRx (h : RxCore S isn L fs buf A B F) (hs : Slice S (A + F) fs p) :
    RxCoreAfter S isn L (packetRx fs p ts) buf A B F := by
  have hav := h.avail_le
  have hlt := h.len_lt
  have hshort := hs.short
  rcases packetRx_cases ts (by omega) (by omega) (hs.not_untrimmed (by omega)) with
    he | ⟨skip, d, m, ht, ⟨hd, he⟩ | ⟨rfl, he⟩⟩
  · rw [he]
    exact h.after_of_rxView rfl
  · have hle := ht.le
    have hsrc : F = 0 → ∀ i < m, p.payloadFrom skip i = S (A + d + i) := by
      rintro rfl i hi
      exact hs.payloadFrom ht (by omega) hi
    have hooo := h.packetOoo ht.fits (by omega) hsrc
    rw [he]
    unfold RxCoreAfter
    rcases @packetOoo_cases fs d m (p.payloadFrom skip) (by omega) (by have := ht.fits; omega) with
      hr | ⟨start, len, -, -, hr⟩
    all_goals
      rw [hr] at hooo ⊢
      exact hooo
  · have hle := ht.le
    have hfit := ht.fits
    rw [he]
    apply h.packetInOrder (by omega) (by omega)
    rintro rfl i hi
    exact hs.payloadFrom ht (by omega) hi

end RxCore

/-! ### Runs -/

/-- A flow's receive side, its buffer, and what passed between fast path and application. -/
structure RxRun where
  fs : FlowState
  buf : ℕ → Byte
  /-- Position and length of each range reported through `arx_cache_add`, in order. -/
  ranges : List (U32 × U32)
  /-- Number of FINs reported. -/
  fins : ℕ
  /-- What the application has read from the buffer so far. -/
  out : List Byte
  /-- Bytes that accepted bumps gave back. -/
  returned : ℕ

/-- Offsets of a reported range in a buffer of length `len`. -/
def rangeOffsets (len : ℕ) (r : U32 × U32) : List ℕ :=
  (List.range r.2.toNat).map fun i => (r.1.toNat + i) % len

/-- Buffer offsets of all reported bytes, in order. -/
def RxRun.offsets (σ : RxRun) : List ℕ := σ.ranges.flatMap (rangeOffsets σ.fs.rxLen.toNat)

/-- What the application has read, and what it would read of the rest now. -/
def RxRun.stream (σ : RxRun) : List Byte := σ.out ++ (σ.offsets.drop σ.out.length).map σ.buf

/-- Bytes reported so far. -/
def RxRun.reported (σ : RxRun) : ℕ := (σ.ranges.map fun r => r.2.toNat).sum

inductive RxEvent
  /-- `fast_flows_packet`. -/
  | segment (env : FpEnv) (flowId : U32) (p : RxPacket) (spendBudget : Bool) (ts : U32)
  /-- The application reads up to `n` more of the reported bytes. -/
  | read (n : ℕ)
  /-- `fast_flows_bump`. -/
  | bump (env : FpEnv) (flowId : U32) (bumpSeq : U16) (rxBump txBump : U32) (flags : U8) (ts : U32)

def RxRun.step (σ : RxRun) : RxEvent → RxRun
  | .segment env flowId p spendBudget ts =>
    let r := fastFlowsPacket env σ.fs flowId p spendBudget ts
    { σ with
      fs := r.1
      buf := applyWrites σ.buf r.2.writes
      ranges := σ.ranges ++ (r.2.arx.map fun a => (a.rxPos, a.rxBump)).toList
      fins := σ.fins + (r.2.arx.map Arx.fins).getD 0 }
  | .read n => { σ with out := σ.out ++ ((σ.offsets.drop σ.out.length).take n).map σ.buf }
  | .bump env flowId bumpSeq rxBump txBump flags ts =>
    let r := fastFlowsBump env σ.fs flowId bumpSeq rxBump txBump flags ts
    { σ with
      fs := r.1
      returned := if r.2.accepted then σ.returned + rxBump.toNat else σ.returned }

/-- Segments carry slices of `S` that end inside of the window, and bumps return only bytes
that were reported and read. -/
def RxRun.Allowed (S : ℕ → Byte) (σ : RxRun) : RxEvent → Prop
  | .segment _ _ p _ _ => Slice S (σ.reported + σ.fins) σ.fs p
  | .read _ => True
  | .bump _ _ _ rxBump _ _ _ => σ.returned + rxBump.toNat ≤ σ.out.length

/-- The flow after `nicif_connection_add`, with nothing reported. -/
def RxRun.start (prior : FlowState) (c : ConnArgs) (buf : ℕ → Byte) : RxRun where
  fs := connectionInit prior c
  buf := buf
  ranges := []
  fins := 0
  out := []
  returned := 0

def RxRun.Step (S : ℕ → Byte) (σ σ' : RxRun) : Prop := ∃ e, σ.Allowed S e ∧ σ' = σ.step e

/-- The reported ranges are consecutive, and what was read of them is the stream. -/
structure RxInv (S : ℕ → Byte) (c : ConnArgs) (σ : RxRun) : Prop where
  core : RxCore S c.remoteSeq c.rxLen.toNat σ.fs σ.buf σ.reported σ.returned σ.fins
  consecutive : σ.ranges.flatMap (rangeOffsets c.rxLen.toNat) =
    (List.range σ.reported).map fun i => i % c.rxLen.toNat
  out : σ.out = (List.range σ.out.length).map S
  returned_le : σ.returned ≤ σ.out.length
  out_le : σ.out.length ≤ σ.reported

variable {c : ConnArgs} {prior : FlowState} {σ σ' : RxRun} {env : FpEnv} {flowId : U32}

theorem RxInv.start (hlen : c.rxLen.toNat < 2 ^ 31) (hooo : prior.rxOooLen = 0) :
    RxInv S c (RxRun.start prior c buf) := by
  refine ⟨⟨⟨rfl, hlen, le_rfl, ?_, ?_, rfl, Holds.of_le le_rfl, Or.inl rfl⟩, ?_, ?_⟩, rfl, rfl,
    le_rfl, le_rfl⟩
  · simp [RxRun.start, RxRun.reported, connectionInit]
  · simp [RxRun.start, RxRun.reported, connectionInit]
  · exact fun _ => Or.inl hooo
  · intro _
    apply Holds.of_le
    change _ + prior.rxOooLen.toNat ≤ _
    rw [toNat_eq_zero.mpr hooo]
    exact le_rfl

/-- Returned bytes become free space. -/
theorem RxCore.giveBack (h : RxCore S isn L fs buf A B F) (hn : B + n.toNat ≤ A)
    (he : fs'.rxView = { fs.rxView with avail := fs.rxAvail + n }) :
    RxCore S isn L fs' buf A (B + n.toNat) F := by
  have hav := h.avail
  have hlt := h.len_lt
  have hsum : (fs.rxAvail + n).toNat = fs.rxAvail.toNat + n.toNat :=
    toNat_add_of_lt (by omega)
  simp only [FlowState.rxView, RxView.mk.injEq] at he
  obtain ⟨h₁, h₂, h₃, h₄, h₅, h₆, h₇⟩ := he
  refine ⟨⟨?_, h.len_lt, hn, ?_, ?_, ?_, h.held.mono (by omega) le_rfl, ?_⟩, ?_, ?_⟩
  · rw [h₁, h.len]
  · rw [h₄, h.seq]
  · rw [h₃, h.pos]
  · rw [h₂]
    omega
  · rw [h₇]
    exact h.fin
  · intro hF
    have hin := h.inside hF
    unfold OooInside at *
    rw [h₂, h₄, h₅, h₆, hsum]
    exact hin.imp_right fun hin => by omega
  · rw [h₄, h₅, h₆]
    exact h.ooo

theorem RxInv.bump {rxBump txBump : U32} {bumpSeq : U16} {flags : U8}
    (h : RxInv S c σ) (ha : σ.returned + rxBump.toNat ≤ σ.out.length) :
    RxInv S c (σ.step (.bump env flowId bumpSeq rxBump txBump flags ts)) := by
  have hout := h.out_le
  by_cases hok : BumpOk σ.fs bumpSeq rxBump txBump flags
  · obtain ⟨hfs, hacc⟩ := @fastFlowsBump_ok env σ.fs ts flowId rxBump txBump bumpSeq flags hok
    have hview : (fastFlowsBump env σ.fs flowId bumpSeq rxBump txBump flags ts).1.rxView =
        { σ.fs.rxView with avail := σ.fs.rxAvail + rxBump } := by
      rw [hfs]
      exact bumpState_rxView
    have hcore := h.core.giveBack (by omega) hview
    simp only [RxRun.step, hacc, if_true]
    exact ⟨hcore, h.consecutive, h.out, ha, hout⟩
  · obtain ⟨hview, hacc⟩ :=
      @fastFlowsBump_rxView_not_ok env σ.fs ts flowId rxBump txBump bumpSeq flags hok
    simp only [RxRun.step, hacc]
    exact ⟨h.core.of_rxView hview, h.consecutive, h.out, h.returned_le, hout⟩

/-- Unread bytes are in the buffer. -/
theorem RxInv.unread (h : RxInv S c σ) :
    (σ.offsets.drop σ.out.length).map σ.buf =
      Circ.window c.rxLen.toNat σ.buf σ.out.length (σ.reported - σ.out.length) := by
  rw [RxRun.offsets, h.core.len, h.consecutive, Circ.drop_map_range]

theorem RxInv.window_eq (h : RxInv S c σ) {n : ℕ} (hn : σ.out.length + n ≤ σ.reported) :
    σ.out ++ Circ.window c.rxLen.toNat σ.buf σ.out.length n =
      (List.range (σ.out.length + n)).map S := by
  have hheld : Holds c.rxLen.toNat σ.buf S σ.out.length (σ.out.length + n) :=
    h.core.held.mono h.returned_le hn
  rw [hheld.window_eq, range_add, map_append, List.map_map, ← h.out]
  rfl

theorem RxInv.read (h : RxInv S c σ) (n : ℕ) : RxInv S c (σ.step (.read n)) := by
  have hle := h.out_le
  have hret := h.returned_le
  have hout : (σ.step (.read n)).out =
      (List.range (σ.out.length + min n (σ.reported - σ.out.length))).map S := by
    simp only [RxRun.step]
    rw [map_take, h.unread, Circ.window_take, h.window_eq (by omega)]
  have hlen : (σ.step (.read n)).out.length = σ.out.length + min n (σ.reported - σ.out.length) := by
    rw [hout, length_map, length_range]
  refine ⟨h.core, h.consecutive, by rw [hlen, hout], ?_, ?_⟩
  · rw [hlen]
    exact hret.trans (Nat.le_add_right _ _)
  · rw [hlen]
    change _ ≤ σ.reported
    omega

/-- Reporting `n` bytes from the current position continues the ranges. -/
theorem rangeOffsets_append {pos : U32} (hpos : pos.toNat = A % L) :
    ((List.range A).map fun i => i % L) ++ rangeOffsets L (pos, n) =
      (List.range (A + n.toNat)).map fun i => i % L := by
  rw [range_add, map_append, List.map_map]
  simp [rangeOffsets, hpos]

/-- A notification adds its range and FIN to what was reported. -/
theorem RxInv.report (h : RxInv S c σ) {arx : Option Arx} {f : ℕ}
    (hcore : RxCore S c.remoteSeq c.rxLen.toNat fs' buf (σ.reported + n.toNat) σ.returned
      (σ.fins + f))
    (harx : (∃ x, arx = some x ∧ x.rxPos = σ.fs.rxNextPos ∧ x.rxBump = n ∧ x.fins = f) ∨
      (arx = none ∧ n = 0 ∧ f = 0)) :
    RxInv S c { σ with
      fs := fs'
      buf := buf
      ranges := σ.ranges ++ (arx.map fun a => (a.rxPos, a.rxBump)).toList
      fins := σ.fins + (arx.map Arx.fins).getD 0 } := by
  have hle := h.out_le
  rcases harx with ⟨x, rfl, hpos, rfl, rfl⟩ | ⟨rfl, rfl, rfl⟩
  · have hrep : RxRun.reported { σ with
        fs := fs'
        buf := buf
        ranges := σ.ranges ++ [(x.rxPos, x.rxBump)]
        fins := σ.fins + x.fins } = σ.reported + x.rxBump.toNat := by
      simp [RxRun.reported]
    refine ⟨?_, ?_, h.out, h.returned_le, ?_⟩
    · change RxCore S _ _ fs' buf (RxRun.reported _) σ.returned (σ.fins + x.fins)
      rw [Option.map_some, Option.toList_some, Option.map_some, Option.getD_some, hrep]
      exact hcore
    · rw [Option.map_some, Option.toList_some, Option.map_some, Option.getD_some, hrep]
      rw [flatMap_append, h.consecutive, flatMap_singleton,
        rangeOffsets_append (by rw [hpos, h.core.pos])]
    · rw [Option.map_some, Option.toList_some, Option.map_some, Option.getD_some, hrep]
      change σ.out.length ≤ _
      omega
  · simp only [Option.map_none, Option.toList_none, append_nil, Option.getD_none]
    exact { h with core := hcore }

theorem RxInv.segment {spendBudget : Bool} (h : RxInv S c σ)
    (hs : Slice S (σ.reported + σ.fins) σ.fs p) :
    RxInv S c (σ.step (.segment env flowId p spendBudget ts)) := by
  by_cases hp : Processed env σ.fs p spendBudget
  · have hview : (packetAck σ.fs p).fs.rxView = σ.fs.rxView := packetAck_rxView
    have hack := h.core.of_rxView hview
    have hbody : RxCoreAfter S c.remoteSeq c.rxLen.toNat (packetBody σ.fs p ts) σ.buf σ.reported
        σ.returned σ.fins := by
      unfold packetBody
      split_ifs
      · exact hack
      · refine hack.packetRx ⟨hs.short, ?_, ?_⟩
        · simp only [FlowState.rxView, RxView.mk.injEq] at hview
          rw [hview.2.1, hview.2.2.2.1]
          exact hs.inside
        · simp only [FlowState.rxView, RxView.mk.injEq] at hview
          rw [hview.2.2.2.1]
          exact hs.bytes
    simp only [RxRun.step]
    rw [fastFlowsPacket_processed hp]
    refine h.report hbody ?_
    rcases @packetUnlock_arx env σ.fs p (packetBody σ.fs p ts) ts flowId (packetAck σ.fs p)
      (if spendBudget then p.payloadBytes else 0) with ⟨x, hx, hpos, hr, -, hf⟩ | ⟨hx, hr, -, hf⟩
    · exact Or.inl ⟨x, hx, hpos, hr, hf⟩
    · exact Or.inr ⟨hx, hr, hf⟩
  · obtain ⟨ret, counted, he⟩ :=
      @fastFlowsPacket_not_processed env σ.fs p ts flowId spendBudget hp
    have hview := (@fastFlowsPacket_views env σ.fs p ts flowId spendBudget hp).1
    have hcore := h.core.of_rxView hview
    have hout : (fastFlowsPacket env σ.fs flowId p spendBudget ts).2 =
        { ret := ret, counted := counted } := by
      rcases he with he | he <;> rw [he]
    simp only [RxRun.step, hout]
    exact h.report (n := 0) (f := 0) hcore (Or.inr ⟨rfl, rfl, rfl⟩)

theorem RxInv.step (h : RxInv S c σ) (hs : RxRun.Step S σ σ') : RxInv S c σ' := by
  obtain ⟨e, ha, rfl⟩ := hs
  cases e with
  | segment env flowId p spendBudget ts => exact h.segment ha
  | read n => exact h.read n
  | bump env flowId bumpSeq rxBump txBump flags ts => exact h.bump ha

theorem RxInv.run (hlen : c.rxLen.toNat < 2 ^ 31) (hooo : prior.rxOooLen = 0)
    (h : ReflTransGen (RxRun.Step S) (RxRun.start prior c buf) σ) : RxInv S c σ := by
  induction h with
  | refl => exact RxInv.start hlen hooo
  | tail _ hs ih => exact ih.step hs

/-- Whatever the order of segments, reads and bumps, the reported ranges read out of the buffer
are the first bytes of the stream, as many as the next expected sequence number has advanced
beyond the FIN. -/
theorem rx_stream_integrity (hlen : c.rxLen.toNat < 2 ^ 31) (hooo : prior.rxOooLen = 0)
    (h : ReflTransGen (RxRun.Step S) (RxRun.start prior c buf) σ) :
    σ.stream = (List.range σ.reported).map S ∧ σ.fins ≤ 1 ∧
      σ.fs.rxNextSeq = c.remoteSeq + BitVec.ofNat 32 (σ.reported + σ.fins) := by
  have hinv := RxInv.run hlen hooo h
  have hle := hinv.out_le
  refine ⟨?_, ?_, hinv.core.seq⟩
  · rw [RxRun.stream, hinv.unread, hinv.window_eq (by omega), Nat.add_sub_cancel' hle]
  · rcases hinv.core.fin with hF | ⟨hF, -⟩ <;> omega

/-! A stream of three bytes that crosses the largest sequence number, in two segments that
arrive in the wrong order. -/

def wrapConn : ConnArgs := { (default : ConnArgs) with rxLen := 8, remoteSeq := 4294967295 }

/-- `len` bytes of the stream `0, 1, 2, …` from index `off` on. -/
def wrapSegment (off : ℕ) (len : U16) : RxPacket :=
  { (default : RxPacket) with
    ipLen := 40 + len
    hdrlen := 5
    seqno := 4294967295 + BitVec.ofNat 32 off
    payload := fun i => BitVec.ofNat 8 (off + i) }

def wrapStart : RxRun := RxRun.start default wrapConn fun _ => 0
def wrapFirst : RxRun := wrapStart.step (.segment default 0 (wrapSegment 1 2) false 0)
def wrapSecond : RxRun := wrapFirst.step (.segment default 0 (wrapSegment 0 1) false 0)
def wrapRead : RxRun := wrapSecond.step (.read 2)

theorem wrapRead_stream :
    wrapRead.stream = (List.range wrapRead.reported).map (BitVec.ofNat 8) ∧
      wrapRead.reported = 3 ∧ wrapRead.fs.rxNextSeq = 2 := by
  have hfirst : wrapStart.Allowed (BitVec.ofNat 8)
      (.segment default 0 (wrapSegment 1 2) false 0) := by
    refine ⟨by decide, by decide, fun i _ k hk => ?_⟩
    have hd : ((wrapSegment 1 2).seqno - wrapStart.fs.rxNextSeq).toInt = 1 := by decide
    have hz : wrapStart.reported + wrapStart.fins = 0 := by decide
    rw [hd, hz] at hk
    obtain rfl : k = 1 + i := by omega
    rfl
  have hsecond : wrapFirst.Allowed (BitVec.ofNat 8)
      (.segment default 0 (wrapSegment 0 1) false 0) := by
    refine ⟨by decide, by decide, fun i _ k hk => ?_⟩
    have hd : ((wrapSegment 0 1).seqno - wrapFirst.fs.rxNextSeq).toInt = 0 := by decide
    have hz : wrapFirst.reported + wrapFirst.fins = 0 := by decide
    rw [hd, hz] at hk
    obtain rfl : k = 0 + i := by omega
    rfl
  have hread : wrapSecond.Allowed (BitVec.ofNat 8) (.read 2) := trivial
  have hrun : ReflTransGen (RxRun.Step (BitVec.ofNat 8)) wrapStart wrapRead :=
    ((ReflTransGen.single ⟨_, hfirst, rfl⟩).tail ⟨_, hsecond, rfl⟩).tail
      ⟨_, hread, rfl⟩
  have h := rx_stream_integrity (by decide) rfl hrun
  exact ⟨h.1, by decide, by decide⟩

end Tas
