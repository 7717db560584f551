import Mathlib

/-! Outcomes of code with assertions and loops: it returns, an assertion fails, or the given
number of iterations does not suffice. -/
namespace Outcome

/-- Why a computation has no result. -/
inductive Fault
  | assertion
  | unfinished
deriving DecidableEq

variable {α β : Type} {live live' : Prop} {post post' : α → Prop} {r : Except Fault α} {a : α}
  {goal : β → Prop} {ε : Type} {x : Except ε α}

/-- No assertion fails, a result meets `post`, and if `live` holds there is a result. -/
def Meets (live : Prop) (post : α → Prop) : Except Fault α → Prop
  | .ok a => post a
  | .error .assertion => False
  | .error .unfinished => ¬ live

theorem meets_ok (h : post a) : Meets live post (.ok a) := h

section

variable (h : Meets live post r)
include h

theorem Meets.mono (hlive : live' → live) (hpost : ∀ a, post a → post' a) :
    Meets live' post' r := by
  cases r with
  | ok a => exact hpost a h
  | error e =>
    cases e with
    | assertion => exact h
    | unfinished => exact fun hl => h (hlive hl)

theorem Meets.bind {f : α → Except Fault β} (hf : ∀ a, post a → Meets live goal (f a)) :
    Meets live goal (r >>= f) := by
  cases r with
  | ok a => exact hf a h
  | error e =>
    cases e with
    | assertion => exact h
    | unfinished => exact h

theorem Meets.map {f : α → β} (hf : ∀ a, post a → goal (f a)) : Meets live goal (r.map f) := by
  cases r with
  | ok a => exact hf a h
  | error e =>
    cases e with
    | assertion => exact h
    | unfinished => exact h

theorem Meets.of_ok (hr : r = .ok a) : post a := by
  subst hr
  exact h

theorem Meets.returns (hl : live) : ∃ a, r = .ok a ∧ post a := by
  cases r with
  | ok a => exact ⟨a, rfl, h⟩
  | error e =>
    cases e with
    | assertion => exact h.elim
    | unfinished => exact (h hl).elim

theorem Meets.no_assertion : r ≠ .error .assertion := by
  rintro rfl
  exact h

end

/-- A result meets `post`, and if `live` holds there is a result. -/
structure Yields (live : Prop) (post : α → Prop) (x : Except ε α) : Prop where
  of_ok : ∀ a, x = .ok a → post a
  returns : live → ∃ a, x = .ok a

theorem yields_ok (h : post a) : Yields live post (.ok a : Except ε α) :=
  ⟨fun _ ha => Except.ok.inj ha ▸ h, fun _ => ⟨a, rfl⟩⟩

theorem Meets.yields (h : Meets live post r) : Yields live post r :=
  ⟨fun _ => h.of_ok, fun hl => (h.returns hl).imp fun _ => And.left⟩

theorem Yields.bind {f : α → Except ε β} (h : Yields live post x)
    (hf : ∀ a, post a → Yields live goal (f a)) : Yields live goal (x >>= f) := by
  cases x with
  | ok a => exact hf a (h.of_ok a rfl)
  | error e => exact ⟨nofun, fun hl => by obtain ⟨a, ⟨⟩⟩ := h.returns hl⟩

theorem exists_of_isOk (h : x.isOk = true) : ∃ a, x = .ok a := by
  cases x with
  | ok a => exact ⟨a, rfl⟩
  | error e => cases h

/-- What is known of a result. -/
theorem of_map_ok {f : α → β} {b : β} (h : x.map f = .ok b) : ∃ a, x = .ok a ∧ f a = b := by
  cases x with
  | ok a => exact ⟨a, rfl, Except.ok.inj h⟩
  | error e => cases h

/-- What a sequence returns, its second part returns from the result of the first. -/
theorem of_bind_ok {f : α → Except ε β} {b : β}
    (h : x >>= f = .ok b) : ∃ a, x = .ok a ∧ f a = .ok b := by
  cases x with
  | error e => cases h
  | ok a => exact ⟨a, rfl, h⟩

/-- `malloc` returns null or a pointer that is not in use. -/
def Mallocs (used : Set ℕ) (fresh : Option ℕ) : Prop := ∀ p, fresh = some p → p ≠ 0 ∧ p ∉ used

end Outcome
