import Tas.FlowViews

/-! Duplicate acknowledgements: what `fast_flows_packet` does with the third one, and what it skips
then. -/
namespace Tas

variable {env : FpEnv} {fs : FlowState} {p : RxPacket} {r : RxResult} {ts bytes seq n : U32}
  {src : ℕ → Byte} {flowId : U32} {spendBudget : Bool}

/-- An empty segment that acknowledges nothing new. -/
def Dupack (fs : FlowState) (p : RxPacket) : Prop :=
  p.flag tcpAck = true ∧ p.ackno = fs.txNextSeq - fs.txSent ∧ p.payloadBytes = 0

/-- The counter of duplicate acknowledgements reaches three. -/
def ThirdDupack (fs : FlowState) (p : RxPacket) : Prop := Dupack fs p ∧ fs.rxDupackCnt + 1 ≥ 3

instance (fs : FlowState) (p : RxPacket) : Decidable (ThirdDupack fs p) := by
  unfold ThirdDupack Dupack; infer_instance

/-- What is left of the segment after trimming starts at the next expected byte. -/
def SeqInOrder (fs : FlowState) (p : RxPacket) : Prop :=
  ∃ cut ∈ tcpTrimRxbuf fs.rxNextSeq fs.rxAvail p.seqno (p.payloadBytes.setWidth 16),
    p.seqno + cut.1.setWidth 32 = fs.rxNextSeq

def ValidAck (fs : FlowState) (p : RxPacket) : Prop :=
  p.flag tcpAck = true ∧ tcpValidRxack fs p.ackno ≠ none

/-- No FIN of the segment is left that is next in sequence. -/
def FinHandled (p : RxPacket) (fs : FlowState) : Prop :=
  p.flag tcpFin = true → fs.flag flowstRxfin = true ∨ fs.rxNextSeq ≠ p.seqno + p.payloadBytes ∨
    fs.rxOooLen ≠ 0

/-- `fast_flows_packet` calls `flow_reset_retransmit`. -/
def Resets (env : FpEnv) (fs : FlowState) (p : RxPacket) (spendBudget : Bool) : Prop :=
  Processed env fs p spendBudget ∧ (packetAck fs p).reset = true

/-- Acknowledgements are handled without loss: resets are for outstanding bytes, windows and FINs of
in-order segments are recorded, and a limited rate stays limited. -/
structure AcksHandled (env : FpEnv) (fs : FlowState) (flowId : U32) (p : RxPacket)
    (spendBudget : Bool) (ts : U32) : Prop where
  outstanding : Resets env fs p spendBudget → fs.txSent ≠ 0
  window : SeqInOrder fs p → ValidAck fs p →
    (fastFlowsPacket env fs flowId p spendBudget ts).1.rxRemoteAvail = p.wnd.setWidth 32
  fin : SeqInOrder fs p → ValidAck fs p →
    FinHandled p (fastFlowsPacket env fs flowId p spendBudget ts).1
  rate : fs.txRate ≠ 0 → (fastFlowsPacket env fs flowId p spendBudget ts).1.txRate ≠ 0

/-- Nothing is lost by the third duplicate acknowledgement: bytes are outstanding, the rate can be
halved or was halved before, and there is nothing new in the segment. -/
structure DupackHarmless (env : FpEnv) (fs : FlowState) (p : RxPacket) (spendBudget : Bool) :
    Prop where
  outstanding : Processed env fs p spendBudget → ThirdDupack fs p → fs.txSent ≠ 0
  rate : Processed env fs p spendBudget → ThirdDupack fs p → fs.txRate = 1 → fs.cntTxDrops ≠ 0
  nothing_new : ¬ Processed env fs p spendBudget ∨ ThirdDupack fs p → SeqInOrder fs p →
    ValidAck fs p → fs.rxRemoteAvail = p.wnd.setWidth 32 ∧ FinHandled p fs

/-! ### Rate and window -/

/-- The rate of a flow and the window of its peer. -/
def FlowState.pacing (fs : FlowState) : U32 × U32 := (fs.txRate, fs.rxRemoteAvail)

theorem packetFin_remoteAvail : (packetFin r p).fs.rxRemoteAvail = r.fs.rxRemoteAvail := by
  unfold packetFin
  split_ifs <;> rfl

theorem packetInOrder_remoteAvail :
    (packetInOrder fs p ts bytes src).fs.rxRemoteAvail = p.wnd.setWidth 32 := by
  unfold packetInOrder
  dsimp only
  split_ifs
  · rfl
  · obtain ⟨_, _, _, _, _, hdeliver⟩ := packetDeliver_regs (packetEstimate fs p ts) bytes src
    rw [packetFin_remoteAvail, hdeliver]
    rfl

theorem packetRx_txRate : (packetRx fs p ts).fs.txRate = fs.txRate := by
  rw [(@packetRx_frame fs p ts).only]
  rfl

/-! ### The third duplicate -/

/-- Exactly the number of the first outstanding byte acknowledges nothing. -/
theorem tcpValidRxack_zero_iff {ack : U32} :
    tcpValidRxack fs ack = some 0 ↔ ack = fs.txNextSeq - fs.txSent := by
  have hzero : ∀ a : U32, ack - a = 0 ↔ ack = a := by
    intro a
    refine ⟨fun h => ?_, fun h => by rw [h, BitVec.sub_self]; rfl⟩
    rw [← BitVec.sub_add_cancel ack a, h]
    exact BitVec.zero_add a
  unfold tcpValidRxack
  generalize fs.txNextSeq - fs.txSent = lo
  generalize fs.txNextSeq + fs.txAvail = hi
  refine ⟨fun h => ?_, ?_⟩
  · dsimp only at h
    split_ifs at h
    all_goals exact (hzero lo).1 (Option.some.inj h)
  · rintro rfl
    dsimp only
    rw [BitVec.sub_self]
    split_ifs with hle hout hout
    · have hlo : ack.toNat ≤ hi.toNat := hle
      obtain hlt | hlt := hout
      · exact absurd hlt (Nat.lt_irrefl _)
      · exact absurd hlo (Nat.not_le.2 hlt)
    · rfl
    · exact absurd hout.1 (Nat.lt_irrefl _)
    · rfl

/-- The acknowledgement part, by whether the segment is the third duplicate. -/
theorem packetAck_reset_iff : (packetAck fs p).reset = true ↔ ThirdDupack fs p := by
  unfold packetAck ThirdDupack Dupack
  by_cases hack : p.flag tcpAck = true
  · rw [if_pos hack]
    have hvalid : tcpValidRxack (countAck fs) p.ackno = tcpValidRxack fs p.ackno := rfl
    rw [hvalid, ← tcpValidRxack_zero_iff]
    cases hv : tcpValidRxack fs p.ackno with
    | none => simp
    | some b =>
      dsimp only
      unfold packetDupack
      by_cases hb : b = 0
      · subst hb
        have hcnt : (ackAdvance (countAckBytes (countAck fs) p 0) 0).rxDupackCnt =
            fs.rxDupackCnt := by
          unfold ackAdvance
          split_ifs <;> rfl
        rw [if_neg (by simp)]
        by_cases hpay : p.payloadBytes = 0
        · rw [if_pos hpay]
          dsimp only
          rw [hcnt]
          split_ifs with hthree
          · exact ⟨fun _ => ⟨⟨hack, rfl, hpay⟩, hthree⟩, fun _ => rfl⟩
          · exact ⟨fun h => absurd h (by simp), fun h => absurd h.2 hthree⟩
        · rw [if_neg hpay]
          exact ⟨fun h => absurd h (by simp), fun h => absurd h.1.2.2 hpay⟩
      · rw [if_pos hb]
        refine ⟨fun h => absurd h (by simp), fun h => ?_⟩
        exact absurd (Option.some.inj h.1.2.1) hb
  · rw [if_neg hack]
    exact ⟨fun h => absurd h (by simp), fun h => absurd h.1.1 hack⟩

theorem ackAdvance_kept_pacing : (ackAdvance fs n).pacing = fs.pacing ∧
    (ackAdvance fs n).cntTxDrops = fs.cntTxDrops := by
  unfold ackAdvance
  split_ifs <;> exact ⟨rfl, rfl⟩

theorem packetDupack_pacing :
    (packetDupack fs n bytes).fs.rxRemoteAvail = fs.rxRemoteAvail ∧
      (packetDupack fs n bytes).fs.txRate =
        if (packetDupack fs n bytes).reset = true ∧ fs.cntTxDrops = 0 then fs.txRate / 2
        else fs.txRate := by
  unfold packetDupack
  by_cases hn : n ≠ 0
  · rw [if_pos hn]
    exact ⟨rfl, rfl⟩
  rw [if_neg hn]
  by_cases hb : bytes = 0
  · rw [if_pos hb]
    dsimp only
    split
    · refine ⟨rfl, ?_⟩
      simp only [true_and]
      rfl
    · exact ⟨rfl, rfl⟩
  · rw [if_neg hb]
    exact ⟨rfl, rfl⟩

/-- The rate is halved by a reset, and only by the first one in a control interval. -/
theorem packetAck_pacing :
    (packetAck fs p).fs.rxRemoteAvail = fs.rxRemoteAvail ∧
      (packetAck fs p).fs.txRate =
        if (packetAck fs p).reset = true ∧ fs.cntTxDrops = 0 then fs.txRate / 2
        else fs.txRate := by
  unfold packetAck
  by_cases hack : p.flag tcpAck = true
  · rw [if_pos hack]
    cases hv : tcpValidRxack (countAck fs) p.ackno with
    | none => exact ⟨rfl, rfl⟩
    | some b =>
      dsimp only
      obtain ⟨hpacing, hdrops⟩ := @ackAdvance_kept_pacing (countAckBytes (countAck fs) p b) b
      set fs' := ackAdvance (countAckBytes (countAck fs) p b) b
      have hrate : fs'.txRate = fs.txRate := congrArg Prod.fst hpacing
      have hdrops : fs'.cntTxDrops = fs.cntTxDrops := hdrops
      obtain ⟨hwnd, hhalf⟩ := @packetDupack_pacing fs' p.payloadBytes b
      refine ⟨hwnd.trans (congrArg Prod.snd hpacing), hhalf.trans ?_⟩
      simp only [hdrops, hrate]
      rfl
  · rw [if_neg hack]
    exact ⟨rfl, rfl⟩

theorem half_ne_zero_iff {x : U32} (hx : x ≠ 0) : x / 2 ≠ 0 ↔ x ≠ 1 := by
  have hx' : x.toNat ≠ 0 := fun h => hx (BitVec.eq_of_toNat_eq h)
  have htwo : (x / 2).toNat = x.toNat / 2 := BitVec.toNat_udiv
  refine ⟨?_, fun hne hzero => hne (BitVec.eq_of_toNat_eq ?_)⟩
  · rintro hne rfl
    exact hne rfl
  · have hhalf : x.toNat / 2 = 0 := by
      rw [← htwo, hzero]
      rfl
    change x.toNat = 1
    omega

/-! ### In-order segments -/

theorem SeqInOrder.congr {fs' : FlowState} (h : SeqInOrder fs p) (he : fs'.rxView = fs.rxView) :
    SeqInOrder fs' p := by
  have hseq : fs'.rxNextSeq = fs.rxNextSeq := congrArg RxView.seq he
  have havail : fs'.rxAvail = fs.rxAvail := congrArg RxView.avail he
  unfold SeqInOrder
  rw [hseq, havail]
  exact h

theorem FinHandled.congr {fs' : FlowState} (he : fs'.rxView = fs.rxView) :
    FinHandled p fs' ↔ FinHandled p fs := by
  have hseq : fs'.rxNextSeq = fs.rxNextSeq := congrArg RxView.seq he
  have hooo : fs'.rxOooLen = fs.rxOooLen := congrArg RxView.oooLen he
  have hfin : fs'.flag flowstRxfin = fs.flag flowstRxfin := congrArg RxView.fin he
  unfold FinHandled
  rw [hseq, hooo, hfin]

/-- A FIN that is next in sequence is taken. -/
theorem packetFin_handled : FinHandled p (packetFin r p).fs := by
  intro hflag
  unfold packetFin
  by_cases hfin : r.fs.flag flowstRxfin = true
  · rw [if_neg fun h => h.2 hfin]
    exact .inl hfin
  rw [if_pos ⟨hflag, hfin⟩]
  by_cases hnext : r.fs.rxNextSeq = p.seqno + p.payloadBytes ∧ r.fs.rxOooLen = 0
  · rw [if_pos hnext]
    exact .inl FlowState.flag_setFlag_self
  · rw [if_neg hnext]
    obtain hseq | hooo := not_and_or.1 hnext
    · exact .inr (.inl hseq)
    · exact .inr (.inr hooo)

theorem packetInOrder_handled : FinHandled p (packetInOrder fs p ts bytes src).fs := by
  unfold packetInOrder
  dsimp only
  split_ifs with hafter
  · exact fun _ => .inl hafter.1
  · exact packetFin_handled

theorem packetRx_inOrder (h : SeqInOrder fs p) :
    (packetRx fs p ts).fs.rxRemoteAvail = p.wnd.setWidth 32 ∧
      FinHandled p (packetRx fs p ts).fs := by
  obtain ⟨⟨trimStart, trimEnd⟩, hcut, hseq⟩ := h
  unfold packetRx
  rw [Option.mem_def.1 hcut]
  dsimp only at hseq ⊢
  rw [if_neg (not_not.2 hseq)]
  exact ⟨packetInOrder_remoteAvail, packetInOrder_handled⟩

/-! ### One segment -/

theorem not_processed_pacing (h : ¬ Processed env fs p spendBudget) :
    (fastFlowsPacket env fs flowId p spendBudget ts).1.pacing = fs.pacing := by
  obtain ⟨ret, counted, he | he⟩ := @fastFlowsPacket_not_processed env fs p ts flowId spendBudget h
  · rw [he]
  · rw [he]
    rfl

theorem acksHandled_not_processed (h : ¬ Processed env fs p spendBudget) :
    AcksHandled env fs flowId p spendBudget ts ↔ DupackHarmless env fs p spendBudget := by
  have hpacing := @not_processed_pacing env fs p ts flowId spendBudget h
  have hrate := congrArg Prod.fst hpacing
  have hwnd := congrArg Prod.snd hpacing
  have hview := (@fastFlowsPacket_views env fs p ts flowId spendBudget h).1
  refine ⟨fun hok => ?_, fun hsafe => ?_⟩
  · refine ⟨fun hp => absurd hp h, fun hp => absurd hp h, fun _ hin hvalid => ⟨?_, ?_⟩⟩
    · exact hwnd.symm.trans (hok.window hin hvalid)
    · exact (FinHandled.congr hview).1 (hok.fin hin hvalid)
  · refine ⟨fun hreset => absurd hreset.1 h, fun hin hvalid => ?_, fun hin hvalid => ?_,
      fun hne => ?_⟩
    · exact hwnd.trans (hsafe.nothing_new (.inl h) hin hvalid).1
    · exact (FinHandled.congr hview).2 (hsafe.nothing_new (.inl h) hin hvalid).2
    · exact fun hzero => hne (hrate.symm.trans hzero)

/-- The third duplicate ends the processing of the segment. -/
theorem acksHandled_third (h : Processed env fs p spendBudget) (hthird : ThirdDupack fs p) :
    AcksHandled env fs flowId p spendBudget ts ↔ DupackHarmless env fs p spendBudget := by
  have hreset : (packetAck fs p).reset = true := packetAck_reset_iff.2 hthird
  have hstate : (fastFlowsPacket env fs flowId p spendBudget ts).1 = (packetAck fs p).fs := by
    rw [fastFlowsPacket_processed h]
    unfold packetBody
    rw [if_pos hreset]
  obtain ⟨hwnd, hrate⟩ := @packetAck_pacing fs p
  have hview := @packetAck_rxView fs p
  have hdrops : (fs.txRate ≠ 0 → (packetAck fs p).fs.txRate ≠ 0) ↔
      (fs.txRate = 1 → fs.cntTxDrops ≠ 0) := by
    rw [hrate]
    by_cases hzero : fs.cntTxDrops = 0
    · rw [if_pos ⟨hreset, hzero⟩]
      refine ⟨fun hkeep hone => ?_, fun hone hne => ?_⟩
      · have hne : fs.txRate ≠ 0 := by
          rw [hone]
          decide
        exact absurd hone ((half_ne_zero_iff hne).1 (hkeep hne))
      · exact (half_ne_zero_iff hne).2 fun heq => hone heq hzero
    · rw [if_neg fun hboth => hzero hboth.2]
      exact ⟨fun _ _ => hzero, fun _ hne => hne⟩
  refine ⟨fun hok => ?_, fun hsafe => ?_⟩
  · have hwindow := hok.window
    have hfin := hok.fin
    have hlimited := hok.rate
    rw [hstate] at hwindow hfin hlimited
    refine ⟨fun _ _ => hok.outstanding ⟨h, hreset⟩, fun _ _ => hdrops.1 hlimited,
      fun _ hin hvalid => ⟨?_, ?_⟩⟩
    · exact hwnd.symm.trans (hwindow hin hvalid)
    · exact (FinHandled.congr hview).1 (hfin hin hvalid)
  · refine ⟨fun _ => hsafe.outstanding h hthird, fun hin hvalid => ?_, fun hin hvalid => ?_, ?_⟩
    · rw [hstate]
      exact hwnd.trans (hsafe.nothing_new (.inr hthird) hin hvalid).1
    · rw [hstate]
      exact (FinHandled.congr hview).2 (hsafe.nothing_new (.inr hthird) hin hvalid).2
    · rw [hstate]
      exact hdrops.2 (hsafe.rate h hthird)

theorem acksHandled_other (h : Processed env fs p spendBudget) (hother : ¬ ThirdDupack fs p) :
    AcksHandled env fs flowId p spendBudget ts ∧ DupackHarmless env fs p spendBudget := by
  have hreset : ¬ (packetAck fs p).reset = true := fun hr => hother (packetAck_reset_iff.1 hr)
  have hstate : (fastFlowsPacket env fs flowId p spendBudget ts).1 =
      (packetRx (packetAck fs p).fs p ts).fs := by
    rw [fastFlowsPacket_processed h]
    unfold packetBody
    rw [if_neg hreset]
  refine ⟨⟨fun hr => absurd hr.2 hreset, fun hin _ => ?_, fun hin _ => ?_, fun hne => ?_⟩,
    fun _ hthird => absurd hthird hother, fun _ hthird => absurd hthird hother, ?_⟩
  · rw [hstate]
    exact (packetRx_inOrder (hin.congr packetAck_rxView)).1
  · rw [hstate]
    exact (packetRx_inOrder (hin.congr packetAck_rxView)).2
  · rw [hstate, packetRx_txRate, packetAck_pacing.2, if_neg fun hboth => hreset hboth.1]
    exact hne
  · rintro (hp | hthird)
    · exact absurd h hp
    · exact absurd hthird hother

/-- For each flow state and segment: acknowledgements are handled without loss exactly if the third
duplicate loses nothing. -/
theorem acks_handled_iff : AcksHandled env fs flowId p spendBudget ts ↔
    DupackHarmless env fs p spendBudget := by
  by_cases h : Processed env fs p spendBudget
  · by_cases hthird : ThirdDupack fs p
    · exact acksHandled_third h hthird
    · obtain ⟨hok, hsafe⟩ := @acksHandled_other env fs p ts flowId spendBudget h hthird
      exact ⟨fun _ => hsafe, fun _ => hok⟩
  · exact acksHandled_not_processed h

/-- A flow with nothing outstanding that has seen two duplicates, at a rate of 1. -/
def quietFlow : FlowState :=
  { (default : FlowState) with rxLen := 64, rxAvail := 64, rxDupackCnt := 2, txRate := 1 }

/-- An empty segment with a FIN that opens the window. -/
def windowFin : RxPacket :=
  { (default : RxPacket) with ipLen := 40, hdrlen := 5, flags := tcpAck ||| tcpFin, wnd := 500 }

/-- The third empty segment resets a flow with nothing outstanding, its window and its FIN are
lost, and the rate becomes unlimited. -/
theorem third_dupack_loses : let fs := (fastFlowsPacket default quietFlow 0 windowFin false 0).1
    Resets default quietFlow windowFin false ∧ quietFlow.txSent = 0 ∧
      SeqInOrder quietFlow windowFin ∧ ValidAck quietFlow windowFin ∧
      fs.rxRemoteAvail ≠ windowFin.wnd.setWidth 32 ∧ ¬ FinHandled windowFin fs ∧
      quietFlow.txRate ≠ 0 ∧ fs.txRate = 0 := by
  refine ⟨⟨by decide, by decide⟩, rfl, ⟨(0, 0), by decide, by decide⟩, ⟨by decide, by decide⟩,
    by decide, fun h => ?_, by decide, by decide⟩
  exact absurd (h (by decide)) (by decide)

end Tas
