import Mathlib

/-! A waiter that goes to sleep after an idle time, and posters that ring for it only if they have
not posted for that time. Each poster keeps the time of its last post, its stamp; the waiter has a
mark, a time that no stamp of a poster is past whose entries it has all taken. -/
namespace Doze

/-- What matters of one poster. -/
structure View where
  /-- The time of its last post. -/
  stamp : ℕ
  /-- An entry was not taken yet. -/
  unseen : Prop
  /-- It posted, and has still to decide whether to ring. -/
  owed : Prop
  /-- Someone rang since the waiter last looked at its entries. -/
  rung : Prop

/-- The poster is safe for a waiter with this mark. If it was looked at after the idle time had
passed, at `since`, then it was rung for, or it will ring for its next entry. -/
structure Guarded (idle mark : ℕ) (bell : Prop) (since : Option ℕ) (v : View) : Prop where
  settled : ¬ v.unseen → v.stamp ≤ mark
  covered : ∀ a ∈ since, mark + idle < a ∧
    ((v.rung ∧ bell) ∨ (v.stamp ≤ mark ∧ (v.unseen → v.owed)))

variable {idle mark mark' : ℕ} {bell bell' : Prop} {since since' : Option ℕ} {v v' : View} {a t : ℕ}

section

variable (h : Guarded idle mark bell since v)
include h

/-- Someone else rings. -/
theorem Guarded.ring (hstamp : v'.stamp = v.stamp)
    (hunseen : v'.unseen ↔ v.unseen) (howed : v'.owed ↔ v.owed) (hrung : v.rung → v'.rung)
    (hbell : bell → bell') : Guarded idle mark bell' since v' := by
  refine ⟨fun hseen => ?_, fun a ha => ?_⟩
  · rw [hstamp]
    exact h.settled (hunseen.not.1 hseen)
  · obtain ⟨hmark, hcover⟩ := h.covered a ha
    refine ⟨hmark, ?_⟩
    obtain ⟨hr, hb⟩ | ⟨hle, hkick⟩ := hcover
    · exact .inl ⟨hrung hr, hbell hb⟩
    · refine .inr ⟨hstamp.trans_le hle, fun hu => ?_⟩
      exact howed.2 (hkick (hunseen.1 hu))

/-- It posts an entry. -/
theorem Guarded.post (hstamp : v'.stamp = v.stamp) (hunseen : v'.unseen) (howed : v'.owed)
    (hrung : v.rung → v'.rung) : Guarded idle mark bell since v' := by
  refine ⟨fun hseen => absurd hunseen hseen, fun a ha => ?_⟩
  obtain ⟨hmark, hcover⟩ := h.covered a ha
  refine ⟨hmark, ?_⟩
  obtain ⟨hr, hb⟩ | ⟨hle, -⟩ := hcover
  · exact .inl ⟨hrung hr, hb⟩
  · exact .inr ⟨hstamp.trans_le hle, fun _ => howed⟩

/-- It decides whether to ring. If its entries were taken before, then the new stamp is not past the
mark; otherwise it is not before the time at which the waiter had been idle for long enough. -/
theorem Guarded.kick (hstamp : v'.stamp = t)
    (hunseen : v'.unseen ↔ v.unseen) (hring : v.stamp + idle < t → v'.rung ∧ bell')
    (hrung : v.rung → v'.rung) (hbell : bell → bell') (hseen : ¬ v.unseen → t ≤ mark)
    (hlate : ∀ a ∈ since, v.unseen → a ≤ t) : Guarded idle mark bell' since v' := by
  refine ⟨fun hs => ?_, fun a ha => ?_⟩
  · rw [hstamp]
    exact hseen (hunseen.not.1 hs)
  · obtain ⟨hmark, hcover⟩ := h.covered a ha
    refine ⟨hmark, ?_⟩
    obtain ⟨hr, hb⟩ | ⟨hle, -⟩ := hcover
    · exact .inl ⟨hrung hr, hbell hb⟩
    · by_cases hu : v.unseen
      · have hat := hlate a ha hu
        exact .inl (hring (by omega))
      · refine .inr ⟨hstamp.trans_le (hseen hu), fun hu' => ?_⟩
        exact absurd (hunseen.1 hu') hu

/-- The waiter looks at it after the idle time, and finds nothing. -/
theorem Guarded.look (hstamp : v'.stamp = v.stamp)
    (hnone : ¬ v.unseen) (hunseen : v'.unseen ↔ v.unseen) (hmark : ∀ a ∈ since', mark + idle < a) :
    Guarded idle mark bell since' v' := by
  have hle : v'.stamp ≤ mark := hstamp.trans_le (h.settled hnone)
  refine ⟨fun _ => hle, fun a ha => ⟨hmark a ha, .inr ⟨hle, fun hu => ?_⟩⟩⟩
  exact absurd (hunseen.1 hu) hnone

/-- The waiter is active, and its mark advances. -/
theorem Guarded.advance (hle : mark ≤ mark') (hstamp : v'.stamp = v.stamp)
    (hunseen : v'.unseen ↔ v.unseen) : Guarded idle mark' bell' none v' := by
  refine ⟨fun hs => ?_, fun a ha => absurd ha (by simp)⟩
  rw [hstamp]
  exact (h.settled (hunseen.not.1 hs)).trans hle

end

/-- The waiter takes entries. -/
theorem Guarded.take (hle : ¬ v.unseen → v.stamp ≤ mark) : Guarded idle mark bell none v :=
  ⟨hle, fun a ha => absurd ha (by simp)⟩

/-- The waiter found nothing after the idle time: an entry that waits was rung for, or its poster
will ring, with any stamp from `a` on. -/
theorem Guarded.announced (h : Guarded idle mark bell (some a) v) :
    ¬ v.unseen ∨ (v.rung ∧ bell) ∨ (v.owed ∧ ∀ t, a ≤ t → v.stamp + idle < t) := by
  obtain ⟨hmark, hcover⟩ := h.covered a rfl
  by_cases hu : v.unseen
  · obtain hrung | ⟨hle, howed⟩ := hcover
    · exact .inr (.inl hrung)
    · exact .inr (.inr ⟨howed hu, fun t ht => by omega⟩)
  · exact .inl hu

end Doze
