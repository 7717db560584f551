import Tas.SlowPath

/-! The search of `port_alloc` for an ephemeral port. -/
namespace Tas

open Outcome SlowPath

/-- The loop of `port_alloc`. It ends without a port when it is back at `start`. -/
def portLoop (ports : U16 → Port) (start : U16) : ℕ → U16 → Except Fault (Option U16)
  | 0, _ => .error .unfinished
  | n + 1, p =>
    if ports p = .unused then .ok (some p)
    else if portNext p = start then .ok none
    else portLoop ports start n (portNext p)

/-- The values of the hint: a random one after `tcp_init`, and the successors of ports found. -/
inductive EphHint : U16 → Prop
  | init (random : U32) : EphHint (BitVec.ofNat 16 (random.toNat % (2 ^ 16 - 1 - 8192)))
  | alloc {hint p : U16} (ports : U16 → Port) (n : ℕ) (h : EphHint hint)
    (hp : portLoop ports hint n hint = .ok (some p)) : EphHint (portNext p)

def Ephemeral (p : U16) : Prop := portFirstEph.toNat ≤ p.toNat

def NoEphemeral (ports : U16 → Port) : Prop := ∀ q, Ephemeral q → ports q ≠ .unused

/-- The search ends, with an unused ephemeral port if there is one, and with 0 only if not. -/
def PortAllocOk (ports : U16 → Port) (hint : U16) : Prop :=
  ∃ n r, portLoop ports hint n hint = .ok r ∧
    (¬ NoEphemeral ports → Ephemeral (r.getD 0) ∧ ports (r.getD 0) = .unused) ∧
    (r.getD 0 = 0 → NoEphemeral ports)

/-! ### The ports that the search visits -/

variable {ports : U16 → Port} {start hint p q : U16} {n i j : ℕ}

theorem toNat_portNext : (portNext p).toNat =
    if p.toNat + 1 < 8192 ∨ p.toNat + 1 = 65536 then 8192 else p.toNat + 1 := by
  have hlt := p.isLt
  have hone : (1 : U16).toNat = 1 := rfl
  have hfirst : portFirstEph.toNat = 8192 := rfl
  unfold portNext
  simp only [BitVec.lt_def, BitVec.toNat_add, apply_ite BitVec.toNat, hone, hfirst]
  split_ifs <;> omega

/-- From a hint below the range the search goes on at its start. -/
theorem portNext_low (h : ¬ Ephemeral hint) : portNext hint = portFirstEph := by
  have hlow : ¬ 8192 ≤ hint.toNat := h
  apply BitVec.eq_of_toNat_eq
  rw [toNat_portNext]
  change _ = 8192
  split_ifs <;> omega

theorem toNat_visited (hs : Ephemeral start) (i : ℕ) :
    (portNext^[i] start).toNat = 8192 + (start.toNat - 8192 + i) % 57344 := by
  have hfirst : 8192 ≤ start.toNat := hs
  have hlt := start.isLt
  induction i with
  | zero =>
    rw [Function.iterate_zero_apply]
    omega
  | succ i ih =>
    rw [Function.iterate_succ_apply', toNat_portNext, ih]
    split_ifs <;> omega

theorem ephemeral_visited (hs : Ephemeral start) (i : ℕ) : Ephemeral (portNext^[i] start) := by
  unfold Ephemeral
  rw [toNat_visited hs]
  exact Nat.le_add_right ..

theorem Ephemeral.ne_zero (h : Ephemeral p) : p ≠ 0 := by
  rintro rfl
  cases show 8192 ≤ 0 from h

theorem exists_ephemeral (h : ¬ NoEphemeral ports) : ∃ q, Ephemeral q ∧ ports q = .unused := by
  by_contra hnone
  exact h fun q hq hfree => hnone ⟨q, hq, hfree⟩

/-- From an ephemeral port all of them are visited, and the search is back after the last. -/
theorem exists_visited (hs : Ephemeral start) (hq : Ephemeral q) :
    ∃ i < 57344, portNext^[i] start = q := by
  have hfirst : 8192 ≤ start.toNat := hs
  have hlast : 8192 ≤ q.toNat := hq
  have hlt := start.isLt
  have hqlt := q.isLt
  refine ⟨(q.toNat + 57344 - start.toNat) % 57344, Nat.mod_lt _ (by decide), ?_⟩
  apply BitVec.eq_of_toNat_eq
  rw [toNat_visited hs]
  omega

theorem visited_eq_start (hs : Ephemeral start) (hi : 0 < i) (hlt : i ≤ 57344) :
    portNext^[i] start = start ↔ i = 57344 := by
  have hfirst : 8192 ≤ start.toNat := hs
  have hstart := start.isLt
  rw [← BitVec.toNat_inj, toNat_visited hs]
  omega

/-- The search passes ports that are in use. -/
theorem portLoop_pass (hused : ∀ i < j, ports (portNext^[i] start) ≠ .unused)
    (hback : ∀ i, 0 < i → i ≤ j → portNext^[i] start ≠ start) :
    portLoop ports start (n + j) start = portLoop ports start n (portNext^[j] start) := by
  induction j generalizing n with
  | zero => rfl
  | succ j ih =>
    have hnext : portNext (portNext^[j] start) = portNext^[j + 1] start :=
      (Function.iterate_succ_apply' ..).symm
    rw [Nat.add_succ, ← Nat.succ_add, ih (fun i hi => hused i (by omega))
      fun i hpos hi => hback i hpos (by omega)]
    conv_lhs => unfold portLoop
    rw [if_neg (hused j (by omega)), hnext, if_neg (hback (j + 1) (by omega) le_rfl)]

/-- The first unused port that is visited is found. -/
theorem portLoop_finds (hfree : ports (portNext^[i] start) = .unused)
    (hback : ∀ k, 0 < k → k ≤ i → portNext^[k] start ≠ start) :
    ∃ n j, j ≤ i ∧ portLoop ports start n start = .ok (some (portNext^[j] start)) ∧
      ports (portNext^[j] start) = .unused := by
  classical
  have hex : ∃ j, ports (portNext^[j] start) = .unused := ⟨i, hfree⟩
  have hle : Nat.find hex ≤ i := Nat.find_min' hex hfree
  refine ⟨1 + Nat.find hex, Nat.find hex, hle, ?_, Nat.find_spec hex⟩
  rw [portLoop_pass (fun k hk => Nat.find_min hex hk) fun k hpos hk => hback k hpos (hk.trans hle)]
  unfold portLoop
  rw [if_pos (Nat.find_spec hex)]

/-! ### Searches from any hint -/

theorem portAllocOk_ephemeral (hs : Ephemeral hint) : PortAllocOk ports hint := by
  by_cases hnone : NoEphemeral ports
  · have hused (i : ℕ) : ports (portNext^[i] hint) ≠ .unused := hnone _ (ephemeral_visited hs i)
    refine ⟨1 + 57343, none, ?_, fun hsome => absurd hnone hsome, fun _ => hnone⟩
    rw [portLoop_pass (fun i _ => hused i) fun i hpos hi =>
      mt (visited_eq_start hs hpos (by omega)).1 (by omega)]
    unfold portLoop
    rw [if_neg (hused _), ← Function.iterate_succ_apply' portNext,
      if_pos ((visited_eq_start hs (by decide) le_rfl).2 rfl)]
  · obtain ⟨q, hq, hfree⟩ := exists_ephemeral hnone
    obtain ⟨i, hi, rfl⟩ := exists_visited hs hq
    obtain ⟨n, j, -, hr, hfree⟩ := portLoop_finds hfree fun k hpos hk =>
      mt (visited_eq_start hs hpos (by omega)).1 (by omega)
    exact ⟨n, _, hr, fun _ => ⟨ephemeral_visited hs j, hfree⟩,
      fun hz => absurd hz (ephemeral_visited hs j).ne_zero⟩

/-- A hint below the range: its own port is returned if it is unused. -/
theorem portAllocOk_low (hlow : ¬ Ephemeral hint) :
    PortAllocOk ports hint ↔ (ports hint = .unused ↔ NoEphemeral ports) := by
  have hvisit (i : ℕ) : portNext^[i + 1] hint = portNext^[i] portFirstEph := by
    rw [Function.iterate_succ_apply, portNext_low hlow]
  have hback (i : ℕ) (hi : 0 < i) : portNext^[i] hint ≠ hint := by
    intro he
    obtain ⟨k, rfl⟩ := Nat.exists_eq_succ_of_ne_zero hi.ne'
    rw [hvisit] at he
    exact hlow (he ▸ ephemeral_visited (Nat.le_refl _) k)
  by_cases hfree : ports hint = .unused
  · have hr (n : ℕ) : portLoop ports hint (n + 1) hint = .ok (some hint) := if_pos hfree
    rw [iff_true_left hfree]
    constructor
    · rintro ⟨n, r, hn, hall, -⟩
      cases n with
      | zero => cases hn
      | succ n =>
        cases hn.symm.trans (hr n)
        by_contra hsome
        exact hlow (hall hsome).1
    · exact fun hnone => ⟨1, _, hr 0, fun hsome => absurd hnone hsome, fun _ => hnone⟩
  · rw [iff_false_left hfree]
    constructor
    · -- with no port in the range the search never comes back
      rintro ⟨n, r, hn, -, -⟩ hnone
      have hused (i : ℕ) : ports (portNext^[i] hint) ≠ .unused := by
        cases i with
        | zero => exact hfree
        | succ i =>
          rw [hvisit]
          exact hnone _ (ephemeral_visited (Nat.le_refl _) i)
      have hpass := portLoop_pass (n := 0) (j := n) (fun i _ => hused i)
        fun i hpos _ => hback i hpos
      rw [Nat.zero_add, hn] at hpass
      cases hpass
    · intro hsome
      obtain ⟨q, hq, hfree⟩ := exists_ephemeral hsome
      obtain ⟨i, -, rfl⟩ := exists_visited (Nat.le_refl _ : Ephemeral portFirstEph) hq
      rw [← hvisit] at hfree
      obtain ⟨n, j, -, hr, hfound⟩ := portLoop_finds hfree fun k hpos _ => hback k hpos
      have hj : Ephemeral (portNext^[j] hint) := by
        cases j with
        | zero => exact absurd hfound ‹_›
        | succ j =>
          rw [hvisit]
          exact ephemeral_visited (Nat.le_refl _) j
      exact ⟨n, _, hr, fun _ => ⟨hj, hfound⟩, fun hz => absurd hz hj.ne_zero⟩

/-- Port allocation is right from an ephemeral hint. From any other, it is if the port of the hint
is unused exactly when no ephemeral port is. -/
theorem port_alloc_ok_iff (ports : U16 → Port) (hint : U16) :
    PortAllocOk ports hint ↔ Ephemeral hint ∨ (ports hint = .unused ↔ NoEphemeral ports) := by
  by_cases hs : Ephemeral hint
  · exact iff_of_true (portAllocOk_ephemeral hs) (.inl hs)
  · rw [portAllocOk_low hs, or_iff_right hs]

/-- The random hint may be 0, and port 0 is returned although all others are unused. -/
theorem zero_hint_fails_alloc : EphHint 0 ∧ ¬ PortAllocOk (fun _ => .unused) 0 := by
  refine ⟨.init 0, ?_⟩
  rintro ⟨n, r, hn, hall, -⟩
  have hsome : ¬ NoEphemeral fun _ => Port.unused := fun hnone =>
    hnone portFirstEph (Nat.le_refl _) rfl
  cases n with
  | zero => cases hn
  | succ n =>
    cases hn
    exact absurd rfl (hall hsome).1.ne_zero

end Tas
