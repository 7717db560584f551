import Tas.FlowState
import Tas.Lib.Doze

/-! Blocking and notifications, `blocking.c`: threads sleep on an event descriptor after an idle
time, and others write to it only if their last notification is older than that. -/
namespace Tas

open Function

/-- `UINT64_MAX` as poll cycle: blocking is disabled. -/
def noBlocking : U64 := BitVec.allOnes 64

/-- `notify_core`: the new `last_ts`, and whether the event descriptor is written. -/
def notifyCore (lastTs tsc delta : U64) : U64 × Bool :=
  if delta = noBlocking then (lastTs, false) else (tsc, decide (tsc - lastTs > delta))

/-- `flextcp_kernel_kick`, with the clock at `now`. -/
def kernelKick (lastTs now pollCycle : U64) : U64 × Bool := (now, decide (now - lastTs > pollCycle))

/-- `flextcp_flexnic_kick`, with the clock at `now`. -/
def flexnicKick (lastTs now pollCycle : U64) : U64 × Bool :=
  if pollCycle = noBlocking then (lastTs, false) else (now, decide (now - lastTs > pollCycle))

/-- `struct notify_blockstate`. -/
structure BlockState where
  lastActiveTs : U64
  canBlock : Bool
  secondBar : Bool
deriving DecidableEq

/-- `notify_canblock`, with its result. -/
def notifyCanblock (pollCycle : U64) (nbs : BlockState) (hadData : Bool) (tsc : U64) :
    BlockState × Bool :=
  if pollCycle = noBlocking then (nbs, false)
  else if hadData then (⟨tsc, false, false⟩, false)
  else if nbs.secondBar then (⟨tsc, false, false⟩, true)
  else if nbs.canBlock ∧ tsc - nbs.lastActiveTs > pollCycle then
    -- the interval has passed, so poll once more
    ({ nbs with secondBar := true }, false)
  else ({ nbs with canBlock := true }, false)

/-- `notify_canblock_reset`, which leaves the time stamp alone. -/
def notifyCanblockReset (nbs : BlockState) : BlockState :=
  { nbs with canBlock := false, secondBar := false }

variable {pollCycle tsc lastTs now : U64} {nbs : BlockState} {had : Bool}

/-- What a call of `notify_canblock` can do. -/
theorem notifyCanblock_cases {r : BlockState × Bool}
    (h : notifyCanblock pollCycle nbs had tsc = r) :
    (pollCycle = noBlocking ∧ r = (nbs, false)) ∨
      (pollCycle ≠ noBlocking ∧ had = true ∧ r = (⟨tsc, false, false⟩, false)) ∨
      (pollCycle ≠ noBlocking ∧ had = false ∧ nbs.secondBar = true ∧
        r = (⟨tsc, false, false⟩, true)) ∨
      (pollCycle ≠ noBlocking ∧ had = false ∧ nbs.secondBar = false ∧
        tsc - nbs.lastActiveTs > pollCycle ∧ r = ({ nbs with secondBar := true }, false)) ∨
      (pollCycle ≠ noBlocking ∧ had = false ∧ nbs.secondBar = false ∧
        r = ({ nbs with canBlock := true }, false)) := by
  unfold notifyCanblock at h
  by_cases hoff : pollCycle = noBlocking
  · rw [if_pos hoff] at h
    exact .inl ⟨hoff, h.symm⟩
  rw [if_neg hoff] at h
  cases hhad : had with
  | true =>
    rw [if_pos hhad] at h
    exact .inr (.inl ⟨hoff, rfl, h.symm⟩)
  | false =>
    rw [if_neg (by rw [hhad]; exact Bool.false_ne_true)] at h
    cases hbar : nbs.secondBar with
    | true =>
      rw [if_pos hbar] at h
      exact .inr (.inr (.inl ⟨hoff, rfl, rfl, h.symm⟩))
    | false =>
      rw [if_neg (by rw [hbar]; exact Bool.false_ne_true)] at h
      by_cases hlong : nbs.canBlock ∧ tsc - nbs.lastActiveTs > pollCycle
      · rw [if_pos hlong] at h
        exact .inr (.inr (.inr (.inl ⟨hoff, rfl, rfl, hlong.2, h.symm⟩)))
      · rw [if_neg hlong, hbar] at h
        exact .inr (.inr (.inr (.inr ⟨hoff, rfl, rfl, h.symm⟩)))

/-- Times are compared as numbers as long as the clock does not go back. -/
theorem elapsed_iff (h : lastTs ≤ tsc) :
    tsc - lastTs > pollCycle ↔ lastTs.toNat + pollCycle.toNat < tsc.toNat := by
  have hle : lastTs.toNat ≤ tsc.toNat := h
  rw [gt_iff_lt, BitVec.lt_def, Word.toNat_sub_of_le hle]
  omega

theorem notifyCore_eq (h : pollCycle ≠ noBlocking) :
    notifyCore lastTs tsc pollCycle = (tsc, decide (tsc - lastTs > pollCycle)) := if_neg h

/-- The kicks of the library decide like `notify_core`. -/
theorem kicks_agree (h : pollCycle ≠ noBlocking) :
    kernelKick lastTs now pollCycle = notifyCore lastTs now pollCycle ∧
      flexnicKick lastTs now pollCycle = notifyCore lastTs now pollCycle :=
  ⟨(notifyCore_eq h).symm, rfl⟩

/-! ### Posters -/

/-- Threads that post entries for a sleeper, each in a queue of its own, with what became of the
entries. -/
structure Posters (ι : Type) where
  posted : ι → ℕ
  /-- Entries that a poll has seen. -/
  seen : ι → ℕ
  /-- An entry was posted, and the call that notifies is still to come. -/
  owed : ι → Bool
  lastTs : ι → U64
  /-- The event descriptor was written since the last poll of this queue. -/
  rung : ι → Bool
  /-- The event descriptor is readable. -/
  bell : Bool

variable {ι : Type} {ps : Posters ι} {p q : ι} {k : ℕ}

namespace Posters

variable [DecidableEq ι]

def post (ps : Posters ι) (p : ι) : Posters ι :=
  { ps with
    posted := update ps.posted p (ps.posted p + 1)
    owed := update ps.owed p true }

/-- The notification with the outcome `r`: the new time stamp, and whether it is written. -/
def notify (ps : Posters ι) (p : ι) (r : U64 × Bool) : Posters ι :=
  { ps with
    owed := update ps.owed p false
    lastTs := update ps.lastTs p r.1
    rung := fun q => r.2 || ps.rung q
    bell := r.2 || ps.bell }

/-- The event descriptor is written by someone else. -/
def ring (ps : Posters ι) : Posters ι := { ps with rung := fun _ => true, bell := true }

/-- A poll of a queue sees `k` entries. -/
def poll (ps : Posters ι) (p : ι) (k : ℕ) : Posters ι :=
  { ps with
    seen := update ps.seen p (ps.seen p + k)
    rung := update ps.rung p false }

/-- All entries of a queue were seen. -/
def allSeen (ps : Posters ι) (p : ι) : Prop := ps.seen p = ps.posted p

instance (ps : Posters ι) (p : ι) : Decidable (ps.allSeen p) :=
  inferInstanceAs (Decidable (_ = _))

/-- No entries were posted, and no notification was ever sent. -/
structure Fresh (ps : Posters ι) : Prop where
  posted : ∀ p, ps.posted p = 0
  seen : ∀ p, ps.seen p = 0
  owed : ∀ p, ps.owed p = false
  rung : ∀ p, ps.rung p = false
  bell : ps.bell = false

/-- No poster has done anything. -/
def silent : Posters ι :=
  ⟨fun _ => 0, fun _ => 0, fun _ => false, fun _ => 0, fun _ => false, false⟩

omit [DecidableEq ι] in
theorem fresh_silent : (silent : Posters ι).Fresh :=
  ⟨fun _ => rfl, fun _ => rfl, fun _ => rfl, fun _ => rfl, rfl⟩

/-- The sleeper's view of a poster. -/
def view (ps : Posters ι) (p : ι) : Doze.View where
  stamp := (ps.lastTs p).toNat
  unseen := ¬ ps.allSeen p
  owed := ps.owed p = true
  rung := ps.rung p = true

theorem view_post_of_ne (hq : q ≠ p) : (ps.post p).view q = ps.view q := by
  simp [view, post, allSeen, hq]

theorem view_poll_of_ne (hq : q ≠ p) : (ps.poll p k).view q = ps.view q := by
  simp [view, poll, allSeen, hq]

/-- The posters are safe for a sleeper with this mark. -/
def Guarded (delta : U64) (mark : ℕ) (since : ι → Option ℕ) (ps : Posters ι) : Prop :=
  ∀ p, Doze.Guarded delta.toNat mark (ps.bell = true) (since p) (ps.view p)

variable {delta : U64} {mark mark' : ℕ} {since since' : ι → Option ℕ}

section

variable (h : ps.Guarded delta mark since)
include h

theorem Guarded.post (hle : ps.seen p ≤ ps.posted p) : (ps.post p).Guarded delta mark since := by
  intro q
  by_cases hq : q = p
  · subst hq
    refine (h q).post rfl ?_ ?_ id
    · intro hall
      change ps.seen q = update ps.posted q (ps.posted q + 1) q at hall
      rw [update_self] at hall
      omega
    · exact update_self _ _ _
  · rw [view_post_of_ne hq]
    exact h q

/-- The call that notifies, with the time `tsc`. -/
theorem Guarded.notify (hclock : ps.lastTs p ≤ tsc) (hseen : ps.allSeen p → tsc.toNat ≤ mark)
    (hlate : ∀ a ∈ since p, ¬ ps.allSeen p → a ≤ tsc.toNat) :
    (ps.notify p (tsc, decide (tsc - ps.lastTs p > delta))).Guarded delta mark since := by
  intro q
  by_cases hq : q = p
  · subst hq
    refine (h q).kick (t := tsc.toNat) ?_ Iff.rfl ?_ ?_ ?_ (fun hs => hseen (not_not.1 hs)) hlate
    · change (update ps.lastTs q tsc q).toNat = _
      rw [update_self]
    · intro hlong
      have hring : decide (tsc - ps.lastTs q > delta) = true :=
        decide_eq_true ((elapsed_iff hclock).2 hlong)
      change (decide (tsc - ps.lastTs q > delta) || ps.rung q) = true ∧
        (decide (tsc - ps.lastTs q > delta) || ps.bell) = true
      rw [hring]
      exact ⟨rfl, rfl⟩
    · intro hr
      change (_ || ps.rung q) = true
      rw [show ps.rung q = true from hr, Bool.or_true]
    · intro hb
      change (_ || ps.bell) = true
      rw [hb, Bool.or_true]
  · refine (h q).ring ?_ Iff.rfl ?_ ?_ ?_
    · change (update ps.lastTs p tsc q).toNat = _
      rw [update_of_ne hq]
      rfl
    · change update ps.owed p false q = true ↔ _
      rw [update_of_ne hq]
      rfl
    · intro hr
      change (_ || ps.rung q) = true
      rw [show ps.rung q = true from hr, Bool.or_true]
    · intro hb
      change (_ || ps.bell) = true
      rw [hb, Bool.or_true]

omit [DecidableEq ι] in
theorem Guarded.ring : ps.ring.Guarded delta mark since :=
  fun q => (h q).ring rfl Iff.rfl Iff.rfl (fun _ => rfl) fun _ => rfl

/-- A poll after the idle time finds nothing: the queue counts as looked at. -/
theorem Guarded.look (hall : ps.allSeen p) (hsince : ∀ q, q ≠ p → since' q = since q)
    (hmark : ∀ a ∈ since' p, mark + delta.toNat < a) : (ps.poll p 0).Guarded delta mark since' := by
  intro q
  by_cases hq : q = p
  · subst hq
    have hsame : ¬ (ps.poll q 0).allSeen q ↔ ¬ ps.allSeen q := by
      change ¬ update ps.seen q (ps.seen q + 0) q = _ ↔ _
      rw [update_self]
      rfl
    exact (h q).look rfl (not_not.2 hall) hsame hmark
  · rw [hsince q hq, view_poll_of_ne hq]
    exact h q

/-- A poll sees entries, and the mark advances past the time stamp of their poster. -/
theorem Guarded.take (hmark : mark ≤ mark')
    (hstamp : (ps.lastTs p).toNat ≤ mark') : (ps.poll p k).Guarded delta mark' fun _ => none := by
  intro q
  by_cases hq : q = p
  · subst hq
    exact .take fun _ => hstamp
  · rw [view_poll_of_ne hq]
    exact (h q).advance hmark rfl Iff.rfl

omit [DecidableEq ι] in
/-- The sleeper is active. -/
theorem Guarded.active (hmark : mark ≤ mark') : ps.Guarded delta mark' fun _ => none :=
  fun q => (h q).advance hmark rfl Iff.rfl

omit [DecidableEq ι] in
theorem Guarded.read {bell : Bool} : Guarded delta mark (fun _ => none) { ps with bell := bell } :=
  fun q => (h q).advance le_rfl rfl Iff.rfl

end

/-- Polls see what was posted, and time stamps are in the past. -/
structure Bounded (ps : Posters ι) (clock : U64) : Prop where
  seen_le : ∀ p, ps.seen p ≤ ps.posted p
  past : ∀ p, ps.lastTs p ≤ clock

variable {clock : U64}

omit [DecidableEq ι] in
theorem Bounded.tick {t : U64} (h : ps.Bounded clock) (ht : clock ≤ t) : ps.Bounded t :=
  ⟨h.seen_le, fun p => Nat.le_trans (h.past p) ht⟩

theorem Bounded.post (h : ps.Bounded clock) (p : ι) : (ps.post p).Bounded clock :=
  ⟨(forall_update_iff ps.posted fun q n => ps.seen q ≤ n).2
    ⟨Nat.le_succ_of_le (h.seen_le p), fun q _ => h.seen_le q⟩, h.past⟩

theorem Bounded.notify {rings : Bool} (h : ps.Bounded clock) (htsc : tsc ≤ clock) :
    (ps.notify p (tsc, rings)).Bounded clock :=
  ⟨h.seen_le, (forall_update_iff ps.lastTs fun _ t => t ≤ clock).2 ⟨htsc, fun q _ => h.past q⟩⟩

theorem Bounded.poll (h : ps.Bounded clock) (hk : ps.seen p + k ≤ ps.posted p) :
    (ps.poll p k).Bounded clock :=
  ⟨(forall_update_iff ps.seen fun q n => n ≤ ps.posted q).2 ⟨hk, fun q _ => h.seen_le q⟩, h.past⟩

/-- No entry is seen before its poster has notified. -/
def Unhurried (ps : Posters ι) : Prop := ∀ p, ps.owed p = true → ¬ ps.allSeen p

theorem Unhurried.post (h : ps.Unhurried) (hle : ps.seen p ≤ ps.posted p) :
    (ps.post p).Unhurried := by
  intro q howed
  change update ps.owed p true q = true at howed
  change ¬ ps.seen q = update ps.posted p (ps.posted p + 1) q
  by_cases hq : q = p
  · rw [hq, update_self]
    omega
  · rw [update_of_ne hq] at howed ⊢
    exact h q howed

theorem Unhurried.notify {r : U64 × Bool} (h : ps.Unhurried) : (ps.notify p r).Unhurried := by
  intro q howed
  change update ps.owed p false q = true at howed
  by_cases hq : q = p
  · rw [hq, update_self] at howed
    cases howed
  · rw [update_of_ne hq] at howed
    exact h q howed

/-- A poll sees entries only of posters that have notified. -/
theorem Unhurried.poll (h : ps.Unhurried) (hk : k ≠ 0 → ps.owed p = false) :
    (ps.poll p k).Unhurried := by
  intro q howed
  have hunseen := h q howed
  change ¬ update ps.seen p (ps.seen p + k) q = ps.posted q
  by_cases hq : q = p
  · subst hq
    rw [update_self]
    by_cases hz : k = 0
    · rwa [hz, Nat.add_zero]
    · cases (hk hz).symm.trans howed
  · rwa [update_of_ne hq]

omit [DecidableEq ι] in
/-- An entry waits, nobody has rung for it, and the kick for it is over. -/
theorem not_announced {later : Prop} (hunseen : ps.seen p < ps.posted p)
    (hrung : ps.rung p = false) (howed : ps.owed p = false) :
    ¬ (ps.allSeen p ∨ (ps.rung p = true ∧ ps.bell = true) ∨ (ps.owed p = true ∧ later)) := by
  rintro (hall | ⟨hr, -⟩ | ⟨ho, -⟩)
  · exact absurd hall hunseen.ne
  · cases hrung.symm.trans hr
  · cases howed.symm.trans ho

end Posters

/-! ### Loops that end their rounds with `notify_canblock` -/

/-- What matters of such a loop. -/
structure Sleeper (ι : Type) where
  clock : U64
  posters : Posters ι
  nbs : BlockState
  /-- The round had work. -/
  hadData : Bool
  /-- The next call of `notify_canblock` gets this time, or a later one. -/
  time : U64
  blocked : Bool
  /-- Queues that the round has polled. -/
  looked : ι → Bool

namespace Sleeper

variable {x : Sleeper ι} {mark a : ℕ} {t t' : U64} {looked : ι → Bool}

/-- It is about to block, or does. -/
def Idle (x : Sleeper ι) : Prop :=
  x.blocked = true ∨ (x.nbs.secondBar = true ∧ x.hadData = false)

/-- When it had been idle for long enough, for the queues it looked at since. -/
def since (x : Sleeper ι) (a : ℕ) (p : ι) : Option ℕ :=
  if x.blocked = true ∨ (x.nbs.secondBar = true ∧ x.hadData = false ∧ x.looked p = true) then some a
  else none

structure Inv (pollCycle : U64) (x : Sleeper ι) (mark a : ℕ) : Prop where
  guarded : x.posters.Guarded pollCycle mark (x.since a)
  bounded : x.posters.Bounded x.clock
  unhurried : x.posters.Unhurried
  time_le : x.time ≤ x.clock
  past : mark ≤ x.time.toNat
  quiet : x.hadData = false → (mark ≤ x.nbs.lastActiveTs.toNat ∧ x.nbs.lastActiveTs ≤ x.time) ∨
    (mark = 0 ∧ pollCycle < x.time)
  idle : x.Idle → mark + pollCycle.toNat < a ∧ a ≤ x.clock.toNat

theorem not_idle_of_work (hb : x.blocked = false) (hhad : x.hadData = true) : ¬ x.Idle := by
  rintro (hb' | ⟨-, hhad'⟩)
  · cases hb.symm.trans hb'
  · cases hhad.symm.trans hhad'

theorem not_idle_of_bar (hb : x.blocked = false) (hbar : x.nbs.secondBar = false) : ¬ x.Idle := by
  rintro (hb' | ⟨hbar', -⟩)
  · cases hb.symm.trans hb'
  · cases hbar.symm.trans hbar'

/-- A queue that counts as looked at makes it idle. -/
theorem idle_of_since {b : ℕ} (h : b ∈ x.since a p) : a = b ∧ x.Idle := by
  unfold since at h
  split_ifs at h with hsince
  · exact ⟨by simpa using h, hsince.imp id fun hs => ⟨hs.1, hs.2.1⟩⟩
  · simp at h

/-- One that is not about to block has looked at no queue. -/
theorem Inv.of_awake (hidle : ¬ x.Idle) (hguarded : x.posters.Guarded pollCycle mark fun _ => none)
    (hbounded : x.posters.Bounded x.clock) (hunhurried : x.posters.Unhurried)
    (htime : x.time ≤ x.clock) (hpast : mark ≤ x.time.toNat) (hquiet : x.hadData = false →
      (mark ≤ x.nbs.lastActiveTs.toNat ∧ x.nbs.lastActiveTs ≤ x.time) ∨
        (mark = 0 ∧ pollCycle < x.time)) : Inv pollCycle x mark a := by
  refine ⟨fun p => ?_, hbounded, hunhurried, htime, hpast, hquiet, fun hi => absurd hi hidle⟩
  rw [show x.since a p = none from Option.eq_none_iff_forall_not_mem.2 fun b hb =>
    hidle (idle_of_since hb).2]
  exact hguarded p

theorem Inv.start (hfresh : x.posters.Fresh) (hzero : ∀ p, x.posters.lastTs p = 0)
    (hidle : ¬ x.Idle) (htime : x.time ≤ x.clock)
    (htimed : x.nbs.lastActiveTs ≤ x.time ∨ pollCycle < x.time) : Inv pollCycle x 0 0 := by
  refine .of_awake hidle (fun p => .take fun _ => ?_) ⟨fun p => ?_, fun p => ?_⟩
    (fun p howed => ?_) htime (Nat.zero_le _) fun _ => ?_
  · change (x.posters.lastTs p).toNat ≤ 0
    rw [hzero]
    rfl
  · rw [hfresh.seen]
    exact Nat.zero_le _
  · rw [hzero]
    exact Nat.zero_le _
  · cases (hfresh.owed p).symm.trans howed
  · exact htimed.imp (fun hpast => ⟨Nat.zero_le _, hpast⟩) fun hlate => ⟨rfl, hlate⟩

section

variable (h : Inv pollCycle x mark a)
include h

/-- The times that the quiet loop depends on are still in the past later. -/
theorem Inv.quiet_at (ht : x.time ≤ t) (hhad : x.hadData = false) :
    (mark ≤ x.nbs.lastActiveTs.toNat ∧ x.nbs.lastActiveTs ≤ t) ∨ (mark = 0 ∧ pollCycle < t) := by
  obtain ⟨hmark, hbase⟩ | ⟨hmark, hlate⟩ := h.quiet hhad
  · exact .inl ⟨hmark, Nat.le_trans hbase ht⟩
  · exact .inr ⟨hmark, Nat.lt_of_lt_of_le hlate ht⟩

theorem Inv.tick (ht : x.clock ≤ t) (hle : x.time ≤ t')
    (hle' : t' ≤ t) : Inv pollCycle { x with clock := t, time := t' } mark a :=
  ⟨h.guarded, h.bounded.tick ht, h.unhurried, hle', Nat.le_trans h.past hle,
    fun hhad => h.quiet_at hle hhad, fun hi => ⟨(h.idle hi).1, Nat.le_trans (h.idle hi).2 ht⟩⟩

theorem Inv.post [DecidableEq ι] (p : ι) :
    Inv pollCycle { x with posters := x.posters.post p } mark a :=
  ⟨h.guarded.post (h.bounded.seen_le p), h.bounded.post p, h.unhurried.post (h.bounded.seen_le p),
    h.time_le, h.past, h.quiet, h.idle⟩

/-- The poster reads the clock after the sleeper had been idle for long enough. -/
theorem Inv.kick [DecidableEq ι] (hunseen : ¬ x.posters.allSeen p) :
    Inv pollCycle { x with
      posters :=
        x.posters.notify p (x.clock, decide (x.clock - x.posters.lastTs p > pollCycle)) }
      mark a := by
  refine ⟨h.guarded.notify (h.bounded.past p) (fun hall => absurd hall hunseen) ?_,
    h.bounded.notify (Nat.le_refl _), h.unhurried.notify, h.time_le, h.past, h.quiet, h.idle⟩
  intro b hb _
  obtain ⟨rfl, hi⟩ := idle_of_since hb
  exact (h.idle hi).2

/-- A poll that finds its queue empty. -/
theorem Inv.look [DecidableEq ι] (hall : x.posters.allSeen p)
    (hlooked : ∀ q, q ≠ p → looked q = x.looked q) :
    Inv pollCycle { x with posters := x.posters.poll p 0, looked := looked } mark a := by
  refine ⟨h.guarded.look hall (fun q hq => ?_) fun b hb => ?_,
    h.bounded.poll (h.bounded.seen_le p), h.unhurried.poll fun hne => absurd rfl hne, h.time_le,
    h.past, h.quiet, h.idle⟩
  · simp only [since, hlooked q hq]
  · obtain ⟨rfl, hi⟩ := idle_of_since hb
    exact (h.idle hi).1

/-- A poll that sees entries, with stamps that are not past the time of the round. -/
theorem Inv.take [DecidableEq ι] (hblocked : x.blocked = false) (howed : x.posters.owed p = false)
    (hstamp : x.posters.lastTs p ≤ x.time) (hk : x.posters.seen p + k ≤ x.posters.posted p) :
    Inv pollCycle { x with posters := x.posters.poll p k, hadData := true, looked := looked }
      x.time.toNat a :=
  .of_awake (not_idle_of_work hblocked rfl) (h.guarded.take h.past hstamp) (h.bounded.poll hk)
    (h.unhurried.poll fun _ => howed) h.time_le le_rfl nofun

theorem Inv.work (hblocked : x.blocked = false) : Inv pollCycle { x with hadData := true } mark a :=
  .of_awake (not_idle_of_work hblocked rfl) (h.guarded.active le_rfl) h.bounded h.unhurried
    h.time_le h.past nofun

/-- A new round, or one that skips queues because it is not followed by blocking. -/
theorem Inv.again (hblocked : x.blocked = false)
    (hlooked : x.nbs.secondBar = true → x.hadData = false → ∀ p, looked p = false)
    (hle : x.time ≤ t) (hle' : t ≤ x.clock) :
    Inv pollCycle { x with time := t, looked := looked } mark a := by
  refine ⟨fun p => ?_, h.bounded, h.unhurried, hle', Nat.le_trans h.past hle,
    fun hhad => h.quiet_at hle hhad, h.idle⟩
  rw [show Sleeper.since _ a p = none from if_neg ?_]
  · exact h.guarded.active le_rfl p
  · rintro (hb | ⟨hbar, hhad, hp⟩)
    · cases hblocked.symm.trans hb
    · cases (hlooked hbar hhad p).symm.trans hp

/-- A round ends. Before it blocks, the sleeper has polled all queues. -/
theorem Inv.check {r : BlockState × Bool} (hon : pollCycle ≠ noBlocking)
    (hall : x.nbs.secondBar = true → x.hadData = false → ∀ p, x.looked p = true)
    (hr : notifyCanblock pollCycle x.nbs x.hadData x.time = r) (hlooked : ∀ p, looked p = false)
    (hle : x.time ≤ t) (hle' : t ≤ x.clock) :
    ∃ a', Inv pollCycle { x with
      nbs := r.1, hadData := false, time := t, blocked := r.2, looked := looked } mark a' := by
  have hpast : mark ≤ t.toNat := Nat.le_trans h.past hle
  obtain ⟨hoff, -⟩ | ⟨-, -, rfl⟩ | ⟨-, hhad, hbar, rfl⟩ | ⟨-, hhad, hbar, hlong, rfl⟩ |
    ⟨-, hhad, hbar, rfl⟩ := notifyCanblock_cases hr
  · exact absurd hoff hon
  · -- a busy round: the idle time starts with the time of the round
    exact ⟨a, .of_awake (not_idle_of_bar rfl rfl) (h.guarded.active le_rfl) h.bounded h.unhurried
      hle' hpast fun _ => .inl ⟨h.past, hle⟩⟩
  · -- it blocks: all queues were polled since it had been idle for long enough
    refine ⟨a, fun p => ?_, h.bounded, h.unhurried, hle', hpast, fun _ => .inl ⟨h.past, hle⟩,
      fun _ => h.idle (.inr ⟨hbar, hhad⟩)⟩
    have hguarded := h.guarded p
    rw [show x.since a p = some a from if_pos (.inr ⟨hbar, hhad, hall hbar hhad p⟩)] at hguarded
    rw [show Sleeper.since _ a p = some a from if_pos (.inl rfl)]
    exact hguarded
  · -- the interval has passed, and queues are looked at from now on
    have hmark : mark + pollCycle.toNat < x.time.toNat := by
      obtain ⟨hmark, hbase⟩ | ⟨hmark, hlate⟩ := h.quiet hhad
      · have hgap := (elapsed_iff hbase).1 hlong
        omega
      · have hlate : pollCycle.toNat < x.time.toNat := hlate
        omega
    refine ⟨x.time.toNat, fun p => ?_, h.bounded, h.unhurried, hle', hpast,
      fun _ => h.quiet_at hle hhad, fun _ => ⟨hmark, h.time_le⟩⟩
    rw [show Sleeper.since _ x.time.toNat p = none from if_neg ?_]
    · exact h.guarded.active le_rfl p
    · rintro (hb | ⟨-, -, hp⟩)
      · exact absurd hb Bool.false_ne_true
      · cases (hlooked p).symm.trans hp
  · exact ⟨a, .of_awake (not_idle_of_bar rfl hbar) (h.guarded.active le_rfl) h.bounded h.unhurried
      hle' hpast fun _ => h.quiet_at hle hhad⟩

theorem Inv.wake {bell : Bool} :
    Inv pollCycle { x with
      blocked := false
      nbs := notifyCanblockReset x.nbs
      posters := { x.posters with bell := bell } } mark a :=
  .of_awake (not_idle_of_bar rfl rfl) h.guarded.read ⟨h.bounded.seen_le, h.bounded.past⟩ h.unhurried
    h.time_le h.past h.quiet

/-- While it blocks, entries were seen or rung for, or the next kick of their poster is written. -/
theorem Inv.announced (hblocked : x.blocked = true) (p : ι) :
    x.posters.allSeen p ∨ (x.posters.rung p = true ∧ x.posters.bell = true) ∨
      (x.posters.owed p = true ∧ ∀ now, x.clock ≤ now →
        decide (now - x.posters.lastTs p > pollCycle) = true) := by
  have hguarded := h.guarded p
  rw [show x.since a p = some a from if_pos (.inl hblocked)] at hguarded
  obtain hseen | hrung | ⟨howed, hrings⟩ := hguarded.announced
  · exact .inl (not_not.1 hseen)
  · exact .inr (.inl hrung)
  · refine .inr (.inr ⟨howed, fun now hnow => ?_⟩)
    have hpast : (x.posters.lastTs p).toNat ≤ now.toNat := Nat.le_trans (h.bounded.past p) hnow
    refine decide_eq_true ((elapsed_iff hpast).2 (hrings now.toNat ?_))
    exact Nat.le_trans (h.idle (.inl hblocked)).2 hnow

end

end Sleeper

end Tas
