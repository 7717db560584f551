import Mathlib

/-! Machines whose steps are computed: an event takes a state to the next one, or cannot happen.
Runs may be restricted to events that meet a condition on the state they happen in. -/
namespace Replay

variable {σ ε : Type*} {exec : σ → ε → Option σ} {P : σ → ε → Prop} {s s' : σ}

/-- Runs whose events meet `P`. -/
def Run (exec : σ → ε → Option σ) (P : σ → ε → Prop) : σ → σ → Prop :=
  Relation.ReflTransGen fun s s' => ∃ e, P s e ∧ exec s e = some s'

/-- Runs without a condition. -/
def Any : σ → ε → Prop := fun _ _ => True

/-- An event with a guard happened. -/
theorem of_guard {p : Prop} [Decidable p] (h : (if p then some s else none) = some s') :
    p ∧ s' = s := by
  obtain ⟨hp, hs⟩ := Option.ite_none_right_eq_some.1 h
  exact ⟨hp, (Option.some.inj hs).symm⟩

theorem Run.invariant (hrun : Run exec P s s') (inv : σ → Prop) (hs : inv s)
    (hstep : ∀ t e t', inv t → P t e → exec t e = some t' → inv t') : inv s' := by
  induction hrun with
  | refl => exact hs
  | tail _ hlast ih =>
    obtain ⟨e, he, hexec⟩ := hlast
    exact hstep _ e _ ih he hexec

instance (s : σ) (e : ε) : Decidable (Any s e) := .isTrue trivial

/-- The state after the events of a list, if all of them can happen and meet the condition. -/
def replay (exec : σ → ε → Option σ) (P : σ → ε → Prop) [∀ s e, Decidable (P s e)] :
    List ε → σ → Option σ
  | [], s => some s
  | e :: es, s => if P s e then (exec s e).bind (replay exec P es) else none

theorem run_of_replay [∀ s e, Decidable (P s e)] {es : List ε}
    (h : replay exec P es s = some s') : Run exec P s s' := by
  induction es generalizing s with
  | nil =>
    cases h
    exact .refl
  | cons e es ih =>
    obtain ⟨hP, hrest⟩ := Option.ite_none_right_eq_some.1 h
    obtain ⟨t, ht, hrest⟩ := Option.bind_eq_some_iff.1 hrest
    exact .head ⟨e, hP, ht⟩ (ih hrest)

/-- A run to a state of which some data is known. -/
theorem run_of_outcome [∀ s e, Decidable (P s e)] (es : List ε) {α : Type*} {f : σ → α} {x : α}
    (h : (replay exec P es s).map f = some x) : ∃ s', Run exec P s s' ∧ f s' = x := by
  obtain ⟨s', hs', hx⟩ := Option.map_eq_some_iff.1 h
  exact ⟨s', run_of_replay hs', hx⟩

/-! ### Infinite runs -/

/-- An infinite run, in which nothing may happen for some time. -/
structure Execution (exec : σ → ε → Option σ) (P : σ → ε → Prop) where
  state : ℕ → σ
  event : ℕ → Option ε
  idle : ∀ n, event n = none → state (n + 1) = state n
  step : ∀ n e, event n = some e → P (state n) e ∧ exec (state n) e = some (state (n + 1))

namespace Execution

variable (E : Execution exec P) {Q : σ → Prop} {A : ε → Prop} {n m : ℕ}

theorem run (n : ℕ) : Run exec P (E.state 0) (E.state n) := by
  induction n with
  | zero => exact .refl
  | succ n ih =>
    cases he : E.event n with
    | none =>
      rw [E.idle n he]
      exact ih
    | some e => exact ih.tail ⟨e, E.step n e he⟩

/-- An agent acts at some time, and until then it is as before: the first time it acts. -/
theorem first_act (hkeep : ∀ s e s', Q s → ¬ A e → P s e → exec s e = some s' → Q s')
    (hQ : Q (E.state n)) (hA : ∃ m, n ≤ m ∧ ∃ e, E.event m = some e ∧ A e) :
    ∃ m, n ≤ m ∧ ∃ e, E.event m = some e ∧ A e ∧ Q (E.state m) := by
  obtain ⟨m, hnm, e, he, ha⟩ := hA
  obtain ⟨k, rfl⟩ := Nat.exists_eq_add_of_le hnm
  -- on the number of events before the one that is known
  induction k generalizing n with
  | zero => exact ⟨n, le_rfl, e, he, ha, hQ⟩
  | succ k ih =>
    by_cases hnow : ∃ f, E.event n = some f ∧ A f
    · obtain ⟨f, hf, hacts⟩ := hnow
      exact ⟨n, le_rfl, f, hf, hacts, hQ⟩
    · have hnext : Q (E.state (n + 1)) := by
        cases hf : E.event n with
        | none =>
          rw [E.idle n hf]
          exact hQ
        | some f =>
          obtain ⟨hP, hexec⟩ := E.step n f hf
          exact hkeep _ f _ hQ (fun hacts => hnow ⟨f, hf, hacts⟩) hP hexec
      rw [show n + (k + 1) = n + 1 + k by omega] at he
      obtain ⟨m, hm, hrest⟩ := ih hnext (Nat.le_add_right _ _) he
      exact ⟨m, by omega, hrest⟩

end Execution

section Finite

variable [∀ s e, Decidable (P s e)] {es : List ε} {n : ℕ} {e : ε}

theorem replay_take (h : replay exec P es s = some s') (he : es[n]? = some e) :
    ∃ t t', replay exec P (es.take n) s = some t ∧ P t e ∧ exec t e = some t' ∧
      replay exec P (es.take (n + 1)) s = some t' := by
  induction es generalizing s n with
  | nil => cases he
  | cons f es ih =>
    obtain ⟨hf, hrest⟩ := Option.ite_none_right_eq_some.1 h
    obtain ⟨u, hu, hrest⟩ := Option.bind_eq_some_iff.1 hrest
    cases n with
    | zero =>
      cases he
      exact ⟨s, u, rfl, hf, hu, by simp [replay, hf, hu]⟩
    | succ n =>
      obtain ⟨t, t', ht, hP, hexec, ht'⟩ := ih hrest he
      exact ⟨t, t', by simp [replay, hf, hu, ht], hP, hexec, by simp [replay, hf, hu, ht']⟩

/-- The run of a list, after which nothing happens. -/
def Execution.ofReplay (es : List ε) (h : (replay exec P es s).isSome) : Execution exec P where
  state n := (replay exec P (es.take n) s).getD s
  event n := es[n]?
  idle n hn := by
    rw [List.getElem?_eq_none_iff] at hn
    rw [List.take_of_length_le hn, List.take_of_length_le (Nat.le_succ_of_le hn)]
  step n e he := by
    obtain ⟨t, t', ht, hP, hexec, ht'⟩ := replay_take (Option.get_mem h) he
    rw [ht, ht']
    exact ⟨hP, hexec⟩

theorem Execution.ofReplay_last (h : (replay exec P es s).isSome) (hn : es.length ≤ n) :
    (ofReplay es h).state n = (ofReplay es h).state es.length := by
  unfold ofReplay
  dsimp only
  rw [List.take_of_length_le hn, List.take_length]

end Finite

end Replay
