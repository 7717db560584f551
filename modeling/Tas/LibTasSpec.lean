import Tas.LibTas

/-! What the operations of the application library do to the counters of a connection. -/
namespace Tas

open Word

/-- A connection in use: its counters fit the transmit buffer, and the close comes last. -/
structure ConnOk (c : LibConn) : Prop where
  status : c.status = .opened
  room : c.txbSent.toNat + c.txbAllocated.toNat ≤ c.txbLen.toNat
  head : c.txbHead.toNat < c.txbLen.toNat ∨ c.txbHead.toNat = 0
  alloc : c.txeosAlloc = true → c.txeos = true
  drained : c.txeos = true → c.txbAllocated.toNat = 0
  acked : c.txeosAck = true → c.txeosAlloc = true ∧ c.txbSent.toNat = 0

/-- The connection takes over `rx` received and `tx` acknowledged bytes, and otherwise moves
bytes between its own counters only. -/
structure Moves (c c' : LibConn) (rx tx : ℕ) : Prop where
  rxLen : c'.rxbLen = c.rxbLen
  txLen : c'.txbLen = c.txbLen
  seq : c'.bumpSeq = c.bumpSeq
  rx : c'.rxbUsed.toNat + c'.rxbBump.toNat = c.rxbUsed.toNat + c.rxbBump.toNat + rx
  tx : c'.txbSent.toNat + tx + c.txbBump.toNat = c.txbSent.toNat + c'.txbBump.toNat
  pending : (c'.txeosAlloc = c.txeosAlloc ∧ c'.txbBump = c.txbBump) ∨
    (c.txeosAlloc = false ∧ (c'.txeosAlloc = true → c'.txbBump ≠ 0))

variable {c c' : LibConn} {len n : ℕ} {x : LibConn × ℕ} {a : Arx} {outn : ℕ}

theorem Moves.refl (c : LibConn) : Moves c c 0 0 :=
  ⟨rfl, rfl, rfl, rfl, rfl, Or.inl ⟨rfl, rfl⟩⟩

section

variable (h : ConnOk c)
include h

theorem toNat_connTxAllocbytes :
    (connTxAllocbytes c).toNat = c.txbLen.toNat - c.txbSent.toNat - c.txbAllocated.toNat := by
  have hroom := h.room
  unfold connTxAllocbytes
  have hsub : (c.txbLen - c.txbSent).toNat = c.txbLen.toNat - c.txbSent.toNat :=
    toNat_sub_of_le (by omega)
  rw [toNat_sub_of_le (by omega), hsub]

/-- Positions stay in the buffer, also if the sum overflows. -/
theorem txbWrap_lt {n : U32} (hn : n.toNat ≤ c.txbLen.toNat) :
    (txbWrap c n).toNat < c.txbLen.toNat ∨ (txbWrap c n).toNat = 0 := by
  have hhead := h.head
  have hsum := toNat_add_cases c.txbHead n
  have hsub := toNat_sub_cases (c.txbHead + n) c.txbLen
  have hlt := c.txbLen.isLt
  unfold txbWrap
  simp only [ge_iff_le, BitVec.le_def]
  split_ifs <;> omega

theorem allocate_spec (hopen : c.txeos = false) (hlen : len ≤ (connTxAllocbytes c).toNat) :
    ConnOk (allocate c len).1 ∧ Moves c (allocate c len).1 0 0 := by
  have hroom := h.room
  have hlt := c.txbLen.isLt
  rw [toNat_connTxAllocbytes h] at hlen
  have hsum : (c.txbAllocated + BitVec.ofNat 32 len).toNat = c.txbAllocated.toNat + len := by
    rw [toNat_add_of_lt] <;> rw [toNat_ofNat_of_lt (by omega)]
    omega
  refine ⟨{ h with room := ?_, drained := ?_ }, rfl, rfl, rfl, rfl, rfl, Or.inl ⟨rfl, rfl⟩⟩
  · change c.txbSent.toNat + (c.txbAllocated + BitVec.ofNat 32 len).toNat ≤ c.txbLen.toNat
    omega
  · exact fun heos => absurd heos (by simp [allocate, hopen])

theorem connectionTxAlloc_spec (hx : connectionTxAlloc c len = some x) :
    ConnOk x.1 ∧ Moves c x.1 0 0 := by
  have hroom := h.room
  unfold connectionTxAlloc at hx
  split_ifs at hx with heos
  cases hx
  have hwrap := txbWrap_lt h (show c.txbAllocated.toNat ≤ c.txbLen.toNat by omega)
  have hsub : (c.txbLen - txbWrap c c.txbAllocated).toNat =
      c.txbLen.toNat - (txbWrap c c.txbAllocated).toNat := toNat_sub_of_le (by omega)
  refine allocate_spec h (by simpa using heos) ?_
  split_ifs <;> omega

theorem connectionTxAlloc2_spec (hx : connectionTxAlloc2 c len = some x) :
    ConnOk x.1 ∧ Moves c x.1 0 0 := by
  unfold connectionTxAlloc2 at hx
  split_ifs at hx with heos
  cases hx
  exact allocate_spec h (by simpa using heos) (Nat.min_le_right _ _)

section

variable (hbump : c.txbBump.toNat ≤ c.txbSent.toNat)
include hbump

theorem connectionTxSend_spec (hx : connectionTxSend c len = some c') :
    ConnOk c' ∧ Moves c c' 0 0 := by
  have hroom := h.room
  have hlt := c.txbLen.isLt
  unfold connectionTxSend at hx
  split_ifs at hx with hfew
  unfold connTxSendbytes at hfew
  cases hx
  have hn : (BitVec.ofNat 32 len).toNat = len := toNat_ofNat_of_lt (by omega)
  have halloc : (c.txbAllocated - BitVec.ofNat 32 len).toNat = c.txbAllocated.toNat - len := by
    rw [toNat_sub_of_le (by omega), hn]
  have hsent : (c.txbSent + BitVec.ofNat 32 len).toNat = c.txbSent.toNat + len := by
    rw [toNat_add_of_lt (by omega), hn]
  have hbump' : (c.txbBump + BitVec.ofNat 32 len).toNat = c.txbBump.toNat + len := by
    rw [toNat_add_of_lt (by omega), hn]
  refine ⟨⟨h.status, ?_, txbWrap_lt h (by omega), h.alloc, ?_, ?_⟩, rfl, rfl, rfl, rfl, ?_, ?_⟩
  · change (c.txbSent + BitVec.ofNat 32 len).toNat +
      (c.txbAllocated - BitVec.ofNat 32 len).toNat ≤ c.txbLen.toNat
    omega
  · intro heos
    have hz := h.drained heos
    change (c.txbAllocated - BitVec.ofNat 32 len).toNat = 0
    omega
  · intro hack
    obtain ⟨halloc', hz⟩ := h.acked hack
    have hnone := h.drained (h.alloc halloc')
    refine ⟨halloc', ?_⟩
    change (c.txbSent + BitVec.ofNat 32 len).toNat = 0
    omega
  · change (c.txbSent + BitVec.ofNat 32 len).toNat + 0 + c.txbBump.toNat =
      c.txbSent.toNat + (c.txbBump + BitVec.ofNat 32 len).toNat
    omega
  · -- after the close only an empty send goes through
    by_cases heos : c.txeosAlloc = true
    · left
      have hz := h.drained (h.alloc heos)
      refine ⟨rfl, BitVec.eq_of_toNat_eq ?_⟩
      change (c.txbBump + BitVec.ofNat 32 len).toNat = c.txbBump.toNat
      omega
    · right
      refine ⟨by simpa using heos, fun heos' => absurd heos' heos⟩

omit hbump in
theorem connectionRxDone_spec (hheld : c.rxbUsed.toNat + c.rxbBump.toNat < 2 ^ 32)
    (hx : connectionRxDone c len = some c') : ConnOk c' ∧ Moves c c' 0 0 := by
  unfold connectionRxDone at hx
  split_ifs at hx with hfew
  have hn : (BitVec.ofNat 32 len).toNat = len := toNat_ofNat_of_lt (by omega)
  have hrx : (rxFree c (BitVec.ofNat 32 len)).rxbUsed.toNat +
      (rxFree c (BitVec.ofNat 32 len)).rxbBump.toNat = c.rxbUsed.toNat + c.rxbBump.toNat := by
    change (c.rxbUsed - BitVec.ofNat 32 len).toNat + (c.rxbBump + BitVec.ofNat 32 len).toNat = _
    rw [toNat_sub_of_le (by omega), toNat_add_of_lt (by omega)]
    omega
  cases hx
  split_ifs <;> exact ⟨{ h with }, rfl, rfl, rfl, hrx, rfl, Or.inl ⟨rfl, rfl⟩⟩

/-- The dummy byte is sent if there is space for it. -/
theorem connPushtxeos_spec (heos : c.txeos = true) (halloc : c.txeosAlloc = false) :
    (connPushtxeos c = .done none ∧ c.txbSent.toNat = c.txbLen.toNat) ∨
      ∃ c', connPushtxeos c = .done (some c') ∧ ConnOk c' ∧ Moves c c' 0 0 := by
  have hroom := h.room
  have hz := h.drained heos
  have hlt := c.txbLen.isLt
  have hone : (1 : U32).toNat = 1 := rfl
  have hav := toNat_connTxAllocbytes h
  unfold connPushtxeos
  rw [if_neg (by
    rw [not_or, not_not, not_not]
    exact ⟨toNat_eq_zero.mp hz, heos⟩)]
  split_ifs with hfull
  · left
    rw [← toNat_eq_zero] at hfull
    exact ⟨rfl, by omega⟩
  · right
    rw [← toNat_eq_zero] at hfull
    have hsent : (c.txbSent + 1).toNat = c.txbSent.toNat + 1 := toNat_add_of_lt (by omega)
    have hbump' : (c.txbBump + 1).toNat = c.txbBump.toNat + 1 := toNat_add_of_lt (by omega)
    refine ⟨_, rfl, ⟨h.status, ?_, txbWrap_lt h (by omega), fun _ => heos, h.drained, ?_⟩, rfl, rfl,
      rfl, rfl, ?_, Or.inr ⟨halloc, fun _ hzero => ?_⟩⟩
    · change (c.txbSent + 1).toNat + c.txbAllocated.toNat ≤ c.txbLen.toNat
      omega
    · intro hack
      have hcontra := (h.acked hack).1
      rw [halloc] at hcontra
      simp at hcontra
    · change (c.txbSent + 1).toNat + 0 + c.txbBump.toNat =
        c.txbSent.toNat + (c.txbBump + 1).toNat
      omega
    · change c.txbBump + 1 = 0 at hzero
      rw [← toNat_eq_zero] at hzero
      omega

theorem connectionTxClose_spec :
    ∃ o, connectionTxClose c = .done o ∧ ∀ c', o = some c' → ConnOk c' ∧ Moves c c' 0 0 := by
  unfold connectionTxClose
  split_ifs with hsend heos
  · exact ⟨none, rfl, fun c' hc => by simp at hc⟩
  · exact ⟨none, rfl, fun c' hc => by simp at hc⟩
  · have hz := toNat_eq_zero.2 (eq_zero_of_not_pos hsend)
    have halloc : c.txeosAlloc = false := by
      cases hc : c.txeosAlloc with
      | false => rfl
      | true => exact absurd (h.alloc hc) heos
    have hok : ConnOk { c with txeos := true } :=
      { h with alloc := fun _ => rfl, drained := fun _ => hz }
    rcases connPushtxeos_spec hok hbump rfl halloc with ⟨hpush, -⟩ | ⟨c', hpush, hok', hmoves⟩
    · refine ⟨some { c with txeos := true }, by simp only [hpush], fun c' hc => ?_⟩
      cases hc
      exact ⟨hok, rfl, rfl, rfl, rfl, rfl, Or.inl ⟨rfl, rfl⟩⟩
    · refine ⟨some c', by simp only [hpush], fun c'' hc => ?_⟩
      cases hc
      exact ⟨hok', { hmoves with }⟩

omit hbump in
/-- A call that fails leaves the connection as it was. -/
theorem Moves.getD {o : Option LibConn} (ho : ∀ c', o = some c' → ConnOk c' ∧ Moves c c' 0 0) :
    ConnOk (o.getD c) ∧ Moves c (o.getD c) 0 0 := by
  cases o with
  | none => exact ⟨h, Moves.refl c⟩
  | some c' => exact ho c' rfl

/-- No call runs into an assertion, and bytes only move between the connection's counters. -/
theorem LibConn.call_spec (hheld : c.rxbUsed.toNat + c.rxbBump.toNat < 2 ^ 32) (a : AppCall) :
    ∃ c', c.call a = .done c' ∧ ConnOk c' ∧ Moves c c' 0 0 := by
  cases a with
  | txAlloc len =>
    refine ⟨_, rfl, Moves.getD h fun c' hc => ?_⟩
    obtain ⟨x, hx, rfl⟩ := Option.map_eq_some_iff.mp hc
    exact connectionTxAlloc_spec h hx
  | txAlloc2 len =>
    refine ⟨_, rfl, Moves.getD h fun c' hc => ?_⟩
    obtain ⟨x, hx, rfl⟩ := Option.map_eq_some_iff.mp hc
    exact connectionTxAlloc2_spec h hx
  | txSend len => exact ⟨_, rfl, Moves.getD h fun c' hc => connectionTxSend_spec h hbump hc⟩
  | rxDone len => exact ⟨_, rfl, Moves.getD h fun c' hc => connectionRxDone_spec h hheld hc⟩
  | txClose =>
    obtain ⟨o, ho, hspec⟩ := connectionTxClose_spec h hbump
    refine ⟨o.getD c, ?_, Moves.getD h hspec⟩
    simp only [LibConn.call, ho]

end

omit h in
theorem Moves.trans {c₁ c₂ : LibConn} {r t r' t' : ℕ} (h : Moves c c₁ r t)
    (h' : Moves c₁ c₂ r' t') :
    Moves c c₂ (r + r') (t + t') where
  rxLen := h'.rxLen.trans h.rxLen
  txLen := h'.txLen.trans h.txLen
  seq := h'.seq.trans h.seq
  rx := by
    have h₁ := h.rx
    have h₂ := h'.rx
    omega
  tx := by
    have h₁ := h.tx
    have h₂ := h'.tx
    omega
  pending := by
    rcases h'.pending with ⟨ha', hb'⟩ | ⟨ha', hb'⟩
    · rw [ha', hb']
      exact h.pending
    · right
      refine ⟨?_, hb'⟩
      rcases h.pending with ⟨ha, -⟩ | ⟨ha, -⟩
      · rw [← ha, ha']
      · exact ha

theorem rxUpdate_spec {n : U32} (hrx : c.rxbUsed.toNat + c.rxbBump.toNat + n.toNat < 2 ^ 32) :
    ConnOk (rxUpdate c n) ∧ Moves c (rxUpdate c n) n.toNat 0 := by
  unfold rxUpdate
  split_ifs with hpos
  · refine ⟨{ h with }, rfl, rfl, rfl, ?_, rfl, Or.inl ⟨rfl, rfl⟩⟩
    change (c.rxbUsed + n).toNat + c.rxbBump.toNat = _
    rw [toNat_add_of_lt (by omega)]
    omega
  · obtain rfl := eq_zero_of_not_pos hpos
    exact ⟨h, Moves.refl c⟩

/-- Acknowledged bytes fit what was sent, so no check fails, and a postponed close finds
space. -/
theorem txUpdate_spec {n : U32} (htx : c.txbBump.toNat + n.toNat ≤ c.txbSent.toNat) :
    ∃ c' evs, txUpdate c n = .done (c', evs) ∧ ConnOk c' ∧ Moves c c' 0 n.toNat := by
  unfold txUpdate
  by_cases hpos : n > 0
  · rw [if_pos hpos]
    rw [gt_iff_lt, BitVec.lt_def] at hpos
    change 0 < n.toNat at hpos
    have hroom := h.room
    have hsent : (c.txbSent - n).toNat = c.txbSent.toNat - n.toNat :=
      toNat_sub_of_le (by omega)
    have hack : c.txeosAck = false := by
      cases hc : c.txeosAck with
      | false => rfl
      | true =>
        have hz := (h.acked hc).2
        omega
    have hok : ConnOk { c with txbSent := c.txbSent - n } := by
      refine { h with room := ?_, acked := fun hc => ?_ }
      · dsimp only
        omega
      · simp [hack] at hc
    have hmoves : Moves c { c with txbSent := c.txbSent - n } 0 n.toNat := by
      refine ⟨rfl, rfl, rfl, rfl, ?_, Or.inl ⟨rfl, rfl⟩⟩
      dsimp only
      omega
    dsimp only
    by_cases heos : c.txeos = true ∧ ¬ c.txeosAlloc = true
    · rw [if_pos heos]
      have hbump : c.txbBump.toNat ≤ (c.txbSent - n).toNat := by omega
      rcases connPushtxeos_spec hok hbump heos.1 (by simpa using heos.2) with
        ⟨-, hfull⟩ | ⟨c', hpush, hok', hmoves'⟩
      · dsimp only at hfull
        omega
      · refine ⟨c', [], by simp only [hpush], hok', ?_⟩
        simpa using hmoves.trans hmoves'
    · rw [if_neg heos]
      by_cases halloc : c.txeosAlloc = true
      · rw [if_pos halloc, if_neg (by simp [hack])]
        by_cases hz : c.txbSent - n = 0
        · rw [if_pos hz]
          exact ⟨_, _, rfl, { hok with acked := fun _ => ⟨halloc, toNat_eq_zero.mpr hz⟩ },
            { hmoves with }⟩
        · rw [if_neg hz]
          exact ⟨_, _, rfl, hok, hmoves⟩
      · rw [if_neg halloc]
        exact ⟨_, _, rfl, hok, hmoves⟩
  · rw [if_neg hpos]
    obtain rfl := eq_zero_of_not_pos hpos
    exact ⟨c, [], rfl, h, Moves.refl c⟩

omit h in
theorem eventArxConnupdate_opened {core : U16} (h : c.status = .opened) :
    eventArxConnupdate c a outn core = openConnupdate { c with fnCore := core } a outn := by
  unfold eventArxConnupdate
  dsimp only
  split <;> simp_all

/-- A notification waits for event space or is taken over as a whole. -/
theorem openConnupdate_spec (hrx : c.rxbUsed.toNat + c.rxbBump.toNat + a.rxBump.toNat < 2 ^ 32)
    (htx : c.txbBump.toNat + a.txBump.toNat ≤ c.txbSent.toNat) :
    openConnupdate c a outn = .done (c, none) ∨
      ∃ c' evs, openConnupdate c a outn = .done (c', some evs) ∧ ConnOk c' ∧
        Moves c c' a.rxBump.toNat a.txBump.toNat := by
  unfold openConnupdate
  by_cases hevs : evsNeeded c a > outn
  · rw [if_pos hevs]
    exact Or.inl rfl
  · right
    rw [if_neg hevs]
    obtain ⟨hok₁, hmoves₁⟩ := rxUpdate_spec h hrx
    have hsame : (rxUpdate c a.rxBump).txbBump = c.txbBump ∧
        (rxUpdate c a.rxBump).txbSent = c.txbSent := by
      unfold rxUpdate
      split_ifs <;> exact ⟨rfl, rfl⟩
    obtain ⟨c', closed, hupdate, hok, hmoves₂⟩ :=
      txUpdate_spec hok₁ (n := a.txBump) (by rw [hsame.1, hsame.2]; exact htx)
    have hmoves := hmoves₁.trans hmoves₂
    rw [Nat.add_zero, Nat.zero_add] at hmoves
    dsimp only
    rw [hupdate]
    exact ⟨_, _, rfl, { hok with }, { hmoves with }⟩

end

/-! ### The receive side -/

/-- The receive side of a connection is the same, except for the bytes that are returned. -/
structure Frees (c c' : LibConn) (n : ℕ) : Prop where
  status : c'.status = c.status
  rxbLen : c'.rxbLen = c.rxbLen
  rxbHead : c'.rxbHead = c.rxbHead
  rxClosed : c'.rxClosed = c.rxClosed
  rxbUsed : c'.rxbUsed.toNat + n = c.rxbUsed.toNat

/-- The bytes that `flextcp_connection_rx_done` returns. -/
def rxDoneBytes (c : LibConn) (n : ℕ) : ℕ := if c.rxbUsed.toNat < n then 0 else n

theorem connectionRxDone_frees (c : LibConn) (n : ℕ) :
    Frees c ((connectionRxDone c n).getD c) (rxDoneBytes c n) := by
  unfold connectionRxDone rxDoneBytes
  split_ifs with hless
  · exact ⟨rfl, rfl, rfl, rfl, rfl⟩
  · have hlt := c.rxbUsed.isLt
    have hn : (BitVec.ofNat 32 n).toNat = n := toNat_ofNat_of_lt (by omega)
    have hused : (c.rxbUsed - BitVec.ofNat 32 n).toNat + n = c.rxbUsed.toNat := by
      rw [toNat_sub_of_le (by omega), hn]
      omega
    dsimp only
    split_ifs <;> exact ⟨rfl, rfl, rfl, rfl, hused⟩

theorem rxUpdate_keeps (n : U32) : (rxUpdate c n).rxClosed = c.rxClosed ∧
    (rxUpdate c n).status = c.status ∧ (rxUpdate c n).rxbLen = c.rxbLen := by
  unfold rxUpdate
  dsimp only
  split_ifs <;> exact ⟨rfl, rfl, rfl⟩

theorem toNat_rxUpdate_used {n : U32} (hlt : c.rxbUsed.toNat + n.toNat < 2 ^ 32) :
    (rxUpdate c n).rxbUsed.toNat = c.rxbUsed.toNat + n.toNat := by
  unfold rxUpdate
  dsimp only
  by_cases hpos : n > 0
  · rw [if_pos hpos]
    exact toNat_add_of_lt hlt
  · rw [if_neg hpos]
    simp [eq_zero_of_not_pos hpos]

end Tas
