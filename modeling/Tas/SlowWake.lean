import Tas.Blocking
import Tas.Lib.Replay

/-! Wakeups of the slow path: the loop of `slowpath_main`, and the threads that post entries for
it. -/
namespace Tas

open Replay

variable {ι : Type}

/-- The queues that the slow path polls, each with the thread that posts to it. -/
structure SlowQueues (ι : Type) where
  /-- `poll_cycle_tas`. -/
  pollCycle : U64
  /-- The thread is one of an application, and uses `flextcp_kernel_kick`. -/
  app : ι → Bool
  /-- Entries seen in the queue count as work of the round. Those of the thread for unix sockets
  do not. -/
  counted : ι → Bool

/-- The kick of a poster, with the clock at `now`. -/
def SlowQueues.kick (cfg : SlowQueues ι) (p : ι) (lastTs now : U64) : U64 × Bool :=
  if cfg.app p then kernelKick lastTs now cfg.pollCycle else notifyCore lastTs now cfg.pollCycle

/-- The slow path in its loop. -/
structure SlowLoop (ι : Type) where
  clock : U64
  posters : Posters ι
  nbs : BlockState
  /-- Queues that the round has not polled. -/
  todo : Finset ι
  /-- The round had work. -/
  hadData : Bool
  blocked : Bool

inductive SlowLoopEvent (ι : Type)
  /-- Time passes. -/
  | tick (t : U64)
  | post (p : ι)
  /-- A kick. The thread for unix sockets does one after each of its rounds, with or without an
  entry. -/
  | kick (p : ι)
  /-- A poll of the queue of `p` sees `k` entries. It sees none if there is none, or if there is
  no space for a response. -/
  | poll (p : ι) (k : ℕ)
  /-- Work that is not in a queue of a poster. -/
  | work
  /-- The end of a round. -/
  | check
  /-- The slow path wakes up, by a timeout or by its event descriptor. -/
  | wake (timeout : Bool)

/-- An event of the slow path or of a poster. -/
def SlowLoop.exec [Fintype ι] [DecidableEq ι] (cfg : SlowQueues ι) (s : SlowLoop ι) :
    SlowLoopEvent ι → Option (SlowLoop ι)
  | .tick t => if s.clock ≤ t then some { s with clock := t } else none
  | .post p => some { s with posters := s.posters.post p }
  | .kick p =>
    some { s with posters := s.posters.notify p (cfg.kick p (s.posters.lastTs p) s.clock) }
  | .poll p k =>
    if s.blocked = false ∧ s.posters.seen p + k ≤ s.posters.posted p then
      some { s with
        posters := s.posters.poll p k
        todo := s.todo.erase p
        hadData := s.hadData || (decide (k ≠ 0) && cfg.counted p) }
    else none
  | .work => if s.blocked = false then some { s with hadData := true } else none
  | .check =>
    if s.blocked = false ∧ s.todo = ∅ then
      let (nbs, block) := notifyCanblock cfg.pollCycle s.nbs s.hadData s.clock
      some { s with nbs := nbs, blocked := block, todo := Finset.univ, hadData := false }
    else none
  | .wake timeout =>
    if s.blocked ∧ (timeout ∨ s.posters.bell) then
      some { s with
        blocked := false
        nbs := notifyCanblockReset s.nbs
        posters := { s.posters with bell := timeout && s.posters.bell } }
    else none

/-- The loop before its first round. The time stamp of the block state is not initialised. -/
structure SlowLoopStart [Fintype ι] (s : SlowLoop ι) : Prop where
  posters : s.posters.Fresh
  lastTs : ∀ p, s.posters.lastTs p = 0
  nbs : s.nbs.canBlock = false ∧ s.nbs.secondBar = false
  todo : s.todo = Finset.univ
  hadData : s.hadData = false
  blocked : s.blocked = false

/-- The entries of `p` were seen, or the event descriptor was written after the last poll that
missed them and is readable, or it will be written by the kick that is still to come. -/
def SlowLoop.Announced (cfg : SlowQueues ι) (s : SlowLoop ι) (p : ι) : Prop :=
  s.posters.allSeen p ∨ (s.posters.rung p = true ∧ s.posters.bell = true) ∨
    (s.posters.owed p = true ∧ ∀ now, s.clock ≤ now →
      (cfg.kick p (s.posters.lastTs p) now).2 = true)

/-- The time stamp of the block state is in the past, or the first kick is past the idle time. -/
def SlowLoop.Timed (cfg : SlowQueues ι) (s : SlowLoop ι) : Prop :=
  s.nbs.lastActiveTs ≤ s.clock ∨ cfg.pollCycle < s.clock

/-- A poll sees an entry if there is one, counts it, and does not see it before the kick for it has
read the clock. A kick comes only while an entry is not seen. -/
def SlowLoop.Prompt (cfg : SlowQueues ι) (s : SlowLoop ι) : SlowLoopEvent ι → Prop
  | .kick p => ¬ s.posters.allSeen p
  | .poll p k => (k = 0 → s.posters.allSeen p) ∧
      (k ≠ 0 → cfg.counted p = true ∧ s.posters.owed p = false)
  | _ => True

/-! ### Invariant -/

variable {cfg : SlowQueues ι} {s s' s₀ : SlowLoop ι} {mark a k : ℕ} {p : ι} {t : U64}

/-- If blocking is enabled, all kicks decide in the same way. -/
theorem SlowQueues.kick_eq {lastTs now : U64} (h : cfg.pollCycle ≠ noBlocking) :
    cfg.kick p lastTs now = (now, decide (now - lastTs > cfg.pollCycle)) := by
  unfold SlowQueues.kick
  rw [(kicks_agree h).1, notifyCore_eq h, ite_self]

variable [DecidableEq ι]

/-- The loop as one that may block at the end of its rounds. -/
def SlowLoop.sleeper (s : SlowLoop ι) : Sleeper ι where
  clock := s.clock
  posters := s.posters
  nbs := s.nbs
  hadData := s.hadData
  time := s.clock
  blocked := s.blocked
  looked p := decide (p ∉ s.todo)

theorem slowLoop_start [Fintype ι] (h : SlowLoopStart s) (htimed : s.Timed cfg) :
    s.sleeper.Inv cfg.pollCycle 0 0 :=
  .start h.posters h.lastTs (Sleeper.not_idle_of_bar h.blocked h.nbs.2) (Nat.le_refl _) htimed

theorem slowLoop_step [Fintype ι] {e : SlowLoopEvent ι} (hon : cfg.pollCycle ≠ noBlocking)
    (h : ∃ mark a, s.sleeper.Inv cfg.pollCycle mark a) (hprompt : s.Prompt cfg e)
    (hexec : s.exec cfg e = some s') : ∃ mark a, s'.sleeper.Inv cfg.pollCycle mark a := by
  obtain ⟨mark, a, h⟩ := h
  unfold SlowLoop.exec at hexec
  cases e with
  | tick t =>
    obtain ⟨ht, rfl⟩ := of_guard hexec
    exact ⟨mark, a, h.tick ht ht (Nat.le_refl _)⟩
  | post p =>
    cases hexec
    exact ⟨mark, a, h.post p⟩
  | kick p =>
    cases hexec
    rw [SlowQueues.kick_eq hon]
    exact ⟨mark, a, h.kick hprompt⟩
  | poll p k =>
    obtain ⟨⟨hblocked, hk⟩, rfl⟩ := of_guard hexec
    obtain ⟨hempty, htakes⟩ := hprompt
    by_cases hz : k = 0
    · subst hz
      rw [show (s.hadData || (decide ((0 : ℕ) ≠ 0) && cfg.counted p)) = s.hadData by simp]
      exact ⟨mark, a, h.look (hempty rfl) fun q hq => by simp [SlowLoop.sleeper, hq]⟩
    · obtain ⟨hcounted, howed⟩ := htakes hz
      rw [show (s.hadData || (decide (k ≠ 0) && cfg.counted p)) = true by simp [hz, hcounted]]
      exact ⟨s.clock.toNat, a, h.take hblocked howed (h.bounded.past p) hk⟩
  | work =>
    obtain ⟨hblocked, rfl⟩ := of_guard hexec
    exact ⟨mark, a, h.work hblocked⟩
  | check =>
    obtain ⟨⟨-, htodo⟩, rfl⟩ := of_guard hexec
    exact ⟨mark, h.check hon (fun _ _ p => by simp [SlowLoop.sleeper, htodo]) rfl (by simp)
      (Nat.le_refl _) (Nat.le_refl _)⟩
  | wake timeout =>
    obtain ⟨-, rfl⟩ := of_guard hexec
    exact ⟨mark, a, h.wake⟩

/-- Without a poll cycle the slow path never blocks. -/
theorem not_blocked_step [Fintype ι] {e : SlowLoopEvent ι} (hoff : cfg.pollCycle = noBlocking)
    (h : s.blocked = false) (hexec : s.exec cfg e = some s') : s'.blocked = false := by
  unfold SlowLoop.exec at hexec
  cases e with
  | check =>
    obtain ⟨-, rfl⟩ := of_guard hexec
    change (notifyCanblock cfg.pollCycle s.nbs s.hadData s.clock).2 = false
    unfold notifyCanblock
    rw [if_pos hoff]
  | wake timeout =>
    obtain ⟨⟨hblocked, -⟩, -⟩ := of_guard hexec
    cases h.symm.trans hblocked
  | post p | kick p =>
    cases hexec
    exact h
  | tick | poll | work =>
    obtain ⟨-, rfl⟩ := of_guard hexec
    exact h

/-- Whenever the slow path blocks, all entries were seen or are announced. -/
theorem slowpath_wakeups_kept [Fintype ι] (h₀ : SlowLoopStart s₀) (htimed : s₀.Timed cfg)
    (hrun : Run (SlowLoop.exec cfg) (SlowLoop.Prompt cfg) s₀ s) (hblocked : s.blocked = true)
    (p : ι) : s.Announced cfg p := by
  by_cases hon : cfg.pollCycle = noBlocking
  · have hnot := hrun.invariant (fun s => s.blocked = false) h₀.blocked
      fun t e t' ht _ hexec => not_blocked_step hon ht hexec
    cases hnot.symm.trans hblocked
  · obtain ⟨mark, a, hinv⟩ := hrun.invariant
      (fun s => ∃ mark a, s.sleeper.Inv cfg.pollCycle mark a)
      ⟨0, 0, slowLoop_start h₀ htimed⟩ fun t e t' ht hP hexec => slowLoop_step hon ht hP hexec
    unfold SlowLoop.Announced
    simp only [SlowQueues.kick_eq hon]
    exact hinv.announced hblocked p

/-! ### Runs with one poster -/

instance (s : SlowLoop ι) (e : SlowLoopEvent ι) : Decidable (s.Prompt cfg e) :=
  match e with
  | .kick _ => inferInstanceAs (Decidable (¬ _))
  | .poll _ _ => inferInstanceAs (Decidable (_ ∧ _))
  | .tick _ | .post _ | .work | .check | .wake _ => .isTrue trivial

/-- One queue of a fast path core, and a poll cycle of 100. -/
def oneQueue : SlowQueues (Fin 1) where
  pollCycle := 100
  app _ := false
  counted _ := true

/-- The clock is at 1000. -/
def slowLoopFirst : SlowLoop (Fin 1) where
  clock := 1000
  posters := .silent
  nbs := ⟨0, false, false⟩
  todo := Finset.univ
  hadData := false
  blocked := false

theorem slowLoopStart_first : SlowLoopStart slowLoopFirst :=
  ⟨Posters.fresh_silent, fun _ => rfl, ⟨rfl, rfl⟩, rfl, rfl, rfl⟩

/-- A round that sees nothing. -/
def idleRound : List (SlowLoopEvent (Fin 1)) := [.poll (Fin.last 0) 0, .check]

/-- Three rounds without work, and the slow path blocks. -/
def goToSleep : List (SlowLoopEvent (Fin 1)) := idleRound ++ idleRound ++ idleRound

/-- An entry that is posted while the slow path blocks is announced. -/
theorem posted_while_blocked : ∃ s, Run (SlowLoop.exec oneQueue) (SlowLoop.Prompt oneQueue)
    slowLoopFirst s ∧ (s.blocked, s.posters.posted 0, s.posters.seen 0) = (true, 1, 0) ∧
    s.Announced oneQueue 0 := by
  have hreach : ∃ s, Run (SlowLoop.exec oneQueue) (SlowLoop.Prompt oneQueue) slowLoopFirst s ∧
      (s.blocked, s.posters.posted 0, s.posters.seen 0) = (true, 1, 0) :=
    run_of_outcome (goToSleep ++ [.post 0, .kick 0]) (by decide +kernel)
  obtain ⟨s, hrun, hs⟩ := hreach
  exact ⟨s, hrun, hs, slowpath_wakeups_kept slowLoopStart_first (.inl (by decide)) hrun
    (congrArg Prod.fst hs) 0⟩

/-- The slow path sees the second entry before the kick for it, so its idle time starts before the
time stamp of the kick. The third entry comes when it blocks, and is not announced. -/
theorem delayed_kick_loses_wakeup : ∃ s, Run (SlowLoop.exec oneQueue) Any slowLoopFirst s ∧
    SlowLoopStart slowLoopFirst ∧ slowLoopFirst.Timed oneQueue ∧ s.blocked = true ∧
    s.posters.bell = false ∧ ¬ s.Announced oneQueue 0 := by
  have hreach : ∃ s, Run (SlowLoop.exec oneQueue) Any slowLoopFirst s ∧
      (s.blocked, s.posters.posted 0, s.posters.seen 0, s.posters.bell, s.posters.rung 0,
        s.posters.owed 0) = (true, 3, 2, false, false, false) :=
    run_of_outcome (goToSleep ++ [.tick 1200, .post 0, .kick 0, .wake false, .poll 0 1, .check] ++
      [.tick 1202, .post 0, .poll 0 1, .check, .tick 1250, .kick 0, .tick 1305] ++ goToSleep ++
      [.tick 1306, .post 0, .kick 0]) (by decide +kernel)
  obtain ⟨s, hrun, hs⟩ := hreach
  simp only [Prod.mk.injEq] at hs
  obtain ⟨hblocked, hposted, hseen, hbell, hrung, howed⟩ := hs
  exact ⟨s, hrun, slowLoopStart_first, .inl (by decide), hblocked, hbell,
    Posters.not_announced (by omega) hrung howed⟩

end Tas
