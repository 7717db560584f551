import Tas.ActiveList
import Tas.Blocking
import Tas.Lib.Replay

/-! Wakeups of a fast path core: the loop of `dataplane_loop` with `fp_interrupts`, and the
application contexts that post entries for the core. -/
namespace Tas

open Replay

/-- Where the core is in its loop: before the clock is read, in the polls of a round, or in
`dataplane_block`. -/
inductive LoopPc
  | top
  | polling
  | blocked
deriving DecidableEq

/-- A core in its loop, with the contexts that post for it. -/
structure FastLoop (ι : Type) where
  clock : U64
  posters : Posters ι
  nbs : BlockState
  pc : LoopPc
  /-- The clock at the begin of the round. -/
  cyc : U64
  pollRounds : U16
  active : Finset ι
  nullRounds : ι → U16
  /-- The round polls all contexts, not only the active ones. -/
  pollsAll : Bool
  /-- Contexts that the round has not polled. -/
  todo : Finset ι
  /-- The round had work. -/
  hadData : Bool

inductive FastLoopEvent (ι : Type)
  /-- Time passes. -/
  | tick (t : U64)
  | post (p : ι)
  | kick (p : ι)
  /-- A round starts. -/
  | start
  /-- `k` entries of a context are fetched. If `full`, then the batch is full or there are no more
  buffers; otherwise the last fetch found nothing. -/
  | fetch (p : ι) (k : ℕ) (full : Bool)
  /-- Received packets, flows of the queue manager or entries of the slow path. -/
  | work
  /-- The end of a round. -/
  | check
  /-- The core wakes up, by a timeout or a packet, or by its event descriptor. -/
  | wake (timeout : Bool)

variable {ι : Type}

/-- `null_rounds` after `k` entries were fetched. -/
def fetchNulls (nulls : U16) (k : ℕ) (full : Bool) : U16 :=
  let nulls := if k ≠ 0 then 0 else nulls
  if full then nulls else nextNullRounds nulls

/-- The active contexts after entries were fetched from `p`: a poll of all contexts adds it, a poll
of the active ones removes it after enough rounds without entries. -/
def FastLoop.fetchActive [DecidableEq ι] (s : FastLoop ι) (p : ι) (k : ℕ) (full : Bool) :
    Finset ι :=
  if s.pollsAll then if k ≠ 0 then insert p s.active else s.active
  else if full = false ∧ fetchNulls (s.nullRounds p) k full ≥ maxNullRounds then s.active.erase p
  else s.active

/-- An event of the core or of a context. -/
def FastLoop.exec [Fintype ι] [DecidableEq ι] (pollCycle : U64) (s : FastLoop ι) :
    FastLoopEvent ι → Option (FastLoop ι)
  | .tick t => if s.clock ≤ t then some { s with clock := t } else none
  | .post p => some { s with posters := s.posters.post p }
  | .kick p =>
    if s.posters.owed p then
      some { s with
        posters := s.posters.notify p (flexnicKick (s.posters.lastTs p) s.clock pollCycle) }
    else none
  | .start =>
    if s.pc = .top then
      let pollsAll := decide (s.pollRounds % maxPollRounds = 0 ∨ s.active = ∅)
      some { s with
        pc := .polling
        cyc := s.clock
        pollsAll := pollsAll
        todo := if pollsAll then Finset.univ else s.active
        hadData := false }
    else none
  | .fetch p k full =>
    if s.pc = .polling ∧ p ∈ s.todo ∧ s.posters.seen p + k ≤ s.posters.posted p ∧
        (full = false → s.posters.seen p + k = s.posters.posted p) then
      some { s with
        -- without buffers the queue is not even looked at
        posters := if k = 0 ∧ full then s.posters else s.posters.poll p k
        todo := s.todo.erase p
        hadData := s.hadData || decide (k ≠ 0)
        nullRounds :=
          Function.update s.nullRounds p (fetchNulls (s.nullRounds p) k full)
        active := s.fetchActive p k full }
    else none
  | .work => if s.pc = .polling then some { s with hadData := true } else none
  | .check =>
    if s.pc = .polling ∧ s.todo = ∅ then
      let (nbs, block) := notifyCanblock pollCycle s.nbs s.hadData s.cyc
      some { s with
        nbs := nbs
        pc := if block then .blocked else .top
        pollRounds := (s.pollRounds + 1) % maxPollRounds
        hadData := false }
    else none
  | .wake timeout =>
    if s.pc = .blocked ∧ (timeout ∨ s.posters.bell) then
      some { s with
        pc := .top
        nbs := notifyCanblockReset s.nbs
        posters := { s.posters with bell := timeout && s.posters.bell } }
    else none

/-- The loop before its first round. The time stamp of the block state is not initialised. -/
structure FastLoopStart (s : FastLoop ι) : Prop where
  posters : s.posters.Fresh
  lastTs : ∀ p, s.posters.lastTs p = 0
  nbs : s.nbs.canBlock = false ∧ s.nbs.secondBar = false
  pc : s.pc = .top
  hadData : s.hadData = false

/-- The entries of `p` were fetched, or the event descriptor was written after the last poll that
missed them and is readable, or it will be written by the kick that is still to come. -/
def FastLoop.Announced (pollCycle : U64) (s : FastLoop ι) (p : ι) : Prop :=
  s.posters.allSeen p ∨ (s.posters.rung p = true ∧ s.posters.bell = true) ∨
    (s.posters.owed p = true ∧ ∀ now, s.clock ≤ now →
      (flexnicKick (s.posters.lastTs p) now pollCycle).2 = true)

/-- The time stamp of the block state is in the past, or the first kick is past the idle time. -/
def FastLoop.Timed (pollCycle : U64) (s : FastLoop ι) : Prop :=
  s.nbs.lastActiveTs ≤ s.clock ∨ pollCycle < s.clock

/-- Entries are fetched in rounds that started after the kick for them. The last round before the
core blocks polls all contexts, and has a buffer. -/
def FastLoop.Prompt (s : FastLoop ι) : FastLoopEvent ι → Prop
  | .fetch p k full =>
    (k ≠ 0 → s.posters.owed p = false ∧ s.posters.lastTs p ≤ s.cyc) ∧
      (k = 0 → full = true → s.nbs.secondBar = true → s.hadData = true)
  | .check => s.nbs.secondBar = true → s.hadData = false → s.pollsAll = true
  | _ => True

/-! ### Invariant -/

variable {pollCycle : U64} {s s' s₀ : FastLoop ι} {mark a k : ℕ} {p : ι} {t : U64} {full : Bool}

variable [DecidableEq ι]

/-- The time that the next call of `notify_canblock` gets is not before this one. -/
def FastLoop.time (s : FastLoop ι) : U64 := if s.pc = .polling then s.cyc else s.clock

/-- The core as a loop that may block at the end of its rounds. Only rounds that poll all contexts
look at them. -/
def FastLoop.sleeper (s : FastLoop ι) : Sleeper ι where
  clock := s.clock
  posters := s.posters
  nbs := s.nbs
  hadData := s.hadData
  time := s.time
  blocked := decide (s.pc = .blocked)
  looked p := decide (s.pc = .polling ∧ s.pollsAll = true ∧ p ∉ s.todo)

theorem fastLoop_start (h : FastLoopStart s) (htimed : s.Timed pollCycle) :
    s.sleeper.Inv pollCycle 0 0 := by
  have htime : s.time = s.clock := if_neg (by rw [h.pc]; decide)
  have hblocked : s.sleeper.blocked = false := decide_eq_false (by rw [h.pc]; decide)
  refine .start h.posters h.lastTs (Sleeper.not_idle_of_bar hblocked h.nbs.2) ?_ ?_
  · change s.time ≤ s.clock
    rw [htime]
    exact Nat.le_refl _
  · change s.nbs.lastActiveTs ≤ s.time ∨ pollCycle < s.time
    rw [htime]
    exact htimed

/-- Rounds start, and the core blocks, without data of an earlier round. -/
def FastLoop.Reset (s : FastLoop ι) : Prop := s.pc ≠ .polling → s.hadData = false

omit [DecidableEq ι] in
theorem FastLoop.time_tick (h : s.time ≤ s.clock) (ht : s.clock ≤ t) :
    s.time ≤ FastLoop.time { s with clock := t } ∧ FastLoop.time { s with clock := t } ≤ t := by
  unfold FastLoop.time at h ⊢
  dsimp only
  split_ifs at h ⊢
  · exact ⟨Nat.le_refl _, Nat.le_trans h ht⟩
  · exact ⟨ht, Nat.le_refl _⟩

/-- A fetch takes entries, finds nothing, or does not look at the queue because there are no
buffers. The core does not block after a round without buffers. -/
theorem fastLoop_fetch {posters : Posters ι} {had : Bool} {nulls : ι → U16} {active : Finset ι}
    (h : s.sleeper.Inv pollCycle mark a) (hpc : s.pc = .polling)
    (hk : s.posters.seen p + k ≤ s.posters.posted p)
    (hfull : full = false → s.posters.seen p + k = s.posters.posted p)
    (hprompt : s.Prompt (.fetch p k full))
    (hposters : posters = if k = 0 ∧ full then s.posters else s.posters.poll p k)
    (hhad : had = (s.hadData || decide (k ≠ 0))) :
    ∃ mark, (FastLoop.sleeper { s with
      posters := posters
      todo := s.todo.erase p
      hadData := had
      nullRounds := nulls
      active := active }).Inv pollCycle mark a := by
  have hblocked : s.sleeper.blocked = false := decide_eq_false (by rw [hpc]; decide)
  have htime : s.time = s.cyc := if_pos hpc
  obtain ⟨htakes, hskips⟩ := hprompt
  by_cases hz : k = 0
  · subst hz
    obtain rfl : had = s.hadData := by simpa using hhad
    cases full with
    | true =>
      rw [if_pos ⟨rfl, rfl⟩] at hposters
      subst hposters
      refine ⟨mark, h.again hblocked (fun hbar hnone => ?_) (Nat.le_refl _) h.time_le⟩
      cases (hskips rfl rfl hbar).symm.trans hnone
    | false =>
      rw [if_neg (by simp)] at hposters
      subst hposters
      exact ⟨mark, h.look (hfull rfl) fun q hq => by simp [FastLoop.sleeper, hq]⟩
  · obtain ⟨howed, hstamp⟩ := htakes hz
    obtain rfl : had = true := by simpa [hz] using hhad
    rw [if_neg (by simp [hz])] at hposters
    subst hposters
    exact ⟨s.time.toNat, h.take hblocked howed (by rw [← htime] at hstamp; exact hstamp) hk⟩

theorem fastLoop_step [Fintype ι] {e : FastLoopEvent ι} (hon : pollCycle ≠ noBlocking)
    (h : ∃ mark a, s.sleeper.Inv pollCycle mark a) (hreset : s.Reset) (hprompt : s.Prompt e)
    (hexec : s.exec pollCycle e = some s') :
    (∃ mark a, s'.sleeper.Inv pollCycle mark a) ∧ s'.Reset := by
  obtain ⟨mark, a, h⟩ := h
  unfold FastLoop.exec at hexec
  cases e with
  | tick t =>
    obtain ⟨ht, rfl⟩ := of_guard hexec
    obtain ⟨hle, hle'⟩ := FastLoop.time_tick h.time_le ht
    exact ⟨⟨mark, a, h.tick ht hle hle'⟩, hreset⟩
  | post p =>
    cases hexec
    exact ⟨⟨mark, a, h.post p⟩, hreset⟩
  | kick p =>
    obtain ⟨howed, rfl⟩ := of_guard hexec
    rw [(kicks_agree hon).2, notifyCore_eq hon]
    exact ⟨⟨mark, a, h.kick (h.unhurried p howed)⟩, hreset⟩
  | start =>
    obtain ⟨hpc, rfl⟩ := of_guard hexec
    have hhad := hreset (by rw [hpc]; decide)
    cases s
    subst hpc hhad
    refine ⟨⟨mark, a, h.again rfl (fun _ _ p => decide_eq_false ?_) h.time_le (Nat.le_refl _)⟩,
      fun _ => rfl⟩
    rintro ⟨-, hall, hp⟩
    rw [if_pos hall] at hp
    exact hp (Finset.mem_univ p)
  | fetch p k full =>
    obtain ⟨⟨hpc, hp, hk, hfull⟩, rfl⟩ := of_guard hexec
    obtain ⟨mark, h⟩ := fastLoop_fetch h hpc hk hfull hprompt rfl rfl
    exact ⟨⟨mark, a, h⟩, fun hne => absurd hpc hne⟩
  | work =>
    obtain ⟨hpc, rfl⟩ := of_guard hexec
    exact ⟨⟨mark, a, h.work (decide_eq_false (by rw [hpc]; decide))⟩, fun hne => absurd hpc hne⟩
  | check =>
    generalize hr : notifyCanblock pollCycle s.nbs s.hadData s.cyc = r at hexec
    obtain ⟨⟨hpc, htodo⟩, rfl⟩ := of_guard hexec
    cases s
    subst hpc htodo
    obtain ⟨a', h'⟩ := h.check hon (fun hbar hhad p => decide_eq_true
      ⟨rfl, hprompt hbar hhad, Finset.notMem_empty p⟩) hr (fun _ => rfl) h.time_le (Nat.le_refl _)
    obtain ⟨nbs, _ | _⟩ := r
    all_goals exact ⟨⟨mark, a', h'⟩, fun _ => rfl⟩
  | wake timeout =>
    obtain ⟨⟨hpc, -⟩, rfl⟩ := of_guard hexec
    have hhad := hreset (by rw [hpc]; decide)
    cases s
    subst hpc
    exact ⟨⟨mark, a, h.wake⟩, fun _ => hhad⟩

/-- Without a poll cycle the core never blocks. -/
theorem fastLoop_not_blocked_step [Fintype ι] {e : FastLoopEvent ι} (hoff : pollCycle = noBlocking)
    (h : s.pc ≠ .blocked) (hexec : s.exec pollCycle e = some s') : s'.pc ≠ .blocked := by
  unfold FastLoop.exec at hexec
  cases e with
  | check =>
    obtain ⟨-, rfl⟩ := of_guard hexec
    have hstay : (notifyCanblock pollCycle s.nbs s.hadData s.cyc).2 = false := by
      unfold notifyCanblock
      rw [if_pos hoff]
    change (if (notifyCanblock pollCycle s.nbs s.hadData s.cyc).2 then LoopPc.blocked else .top) ≠ _
    rw [hstay]
    decide
  | wake timeout =>
    obtain ⟨⟨hpc, -⟩, -⟩ := of_guard hexec
    exact absurd hpc h
  | start =>
    obtain ⟨-, rfl⟩ := of_guard hexec
    exact nofun
  | post p =>
    cases hexec
    exact h
  | tick | kick | fetch | work =>
    obtain ⟨-, rfl⟩ := of_guard hexec
    exact h

/-- Whenever the core blocks, all entries were fetched or are announced. -/
theorem fastpath_wakeups_kept [Fintype ι] (h₀ : FastLoopStart s₀) (htimed : s₀.Timed pollCycle)
    (hrun : Run (FastLoop.exec pollCycle) FastLoop.Prompt s₀ s) (hblocked : s.pc = .blocked)
    (p : ι) : s.Announced pollCycle p := by
  by_cases hon : pollCycle = noBlocking
  · have hnot := hrun.invariant (fun s => s.pc ≠ .blocked) (by rw [h₀.pc]; decide)
      fun t e t' ht _ hexec => fastLoop_not_blocked_step hon ht hexec
    exact absurd hblocked hnot
  · obtain ⟨⟨mark, a, hinv⟩, -⟩ := hrun.invariant
      (fun s => (∃ mark a, s.sleeper.Inv pollCycle mark a) ∧ s.Reset)
      ⟨⟨0, 0, fastLoop_start h₀ htimed⟩, fun _ => h₀.hadData⟩
      fun t e t' ht hP hexec => fastLoop_step hon ht.1 ht.2 hP hexec
    unfold FastLoop.Announced
    simp only [(kicks_agree hon).2, notifyCore_eq hon]
    exact hinv.announced (decide_eq_true hblocked) p

/-! ### Runs with one context -/

instance FastLoop.decidablePrompt (s : FastLoop ι) (e : FastLoopEvent ι) :
    Decidable (s.Prompt e) :=
  match e with
  | .fetch _ _ _ => inferInstanceAs (Decidable (_ ∧ _))
  | .check => inferInstanceAs (Decidable (_ → _))
  | .tick _ | .post _ | .kick _ | .start | .work | .wake _ => .isTrue trivial

/-- The clock is at 1000. -/
def fastLoopFirst : FastLoop (Fin 1) where
  clock := 1000
  posters := .silent
  nbs := ⟨0, false, false⟩
  pc := .top
  cyc := 0
  pollRounds := 0
  active := ∅
  nullRounds _ := 0
  pollsAll := false
  todo := ∅
  hadData := false

theorem fastLoopStart_first : FastLoopStart fastLoopFirst :=
  ⟨Posters.fresh_silent, fun _ => rfl, ⟨rfl, rfl⟩, rfl, rfl⟩

/-- A round that finds nothing. -/
def emptyRound : List (FastLoopEvent (Fin 1)) := [.start, .fetch (Fin.last 0) 0 false, .check]

/-- Three rounds without work, and the core blocks. -/
def coreSleeps : List (FastLoopEvent (Fin 1)) := emptyRound ++ emptyRound ++ emptyRound

/-- The first entry is fetched, and the core blocks after a round that polls all contexts. The entry
that is posted then is announced. -/
theorem posted_while_core_blocked : ∃ s, Run (FastLoop.exec 100) FastLoop.Prompt fastLoopFirst s ∧
    (s.pc, s.posters.posted 0, s.posters.seen 0) = (.blocked, 2, 1) ∧ s.Announced 100 0 := by
  have hreach : ∃ s, Run (FastLoop.exec 100) FastLoop.Prompt fastLoopFirst s ∧
      (s.pc, s.posters.posted 0, s.posters.seen 0) = (.blocked, 2, 1) :=
    run_of_outcome
      ([.post 0, .kick 0, .start, .fetch 0 1 false, .check] ++
        (List.replicate 13 emptyRound).flatten ++ [.tick 1200] ++ emptyRound ++ emptyRound ++
        [.post 0, .kick 0]) (by decide +kernel)
  obtain ⟨s, hrun, hs⟩ := hreach
  exact ⟨s, hrun, hs, fastpath_wakeups_kept fastLoopStart_first (.inl (by decide)) hrun
    (congrArg Prod.fst hs) 0⟩

/-- The core fetches the second entry in a round that started before the kick for it, and its idle
time starts with that round. The third entry comes when it blocks, and is not announced. -/
theorem kick_within_round_loses_wakeup :
    ∃ s, Run (FastLoop.exec 100) Any fastLoopFirst s ∧ FastLoopStart fastLoopFirst ∧
      fastLoopFirst.Timed 100 ∧ s.pc = .blocked ∧ s.posters.bell = false ∧
      ¬ s.Announced 100 0 := by
  have hreach : ∃ s, Run (FastLoop.exec 100) Any fastLoopFirst s ∧
      (s.pc, s.posters.posted 0, s.posters.seen 0, s.posters.bell, s.posters.rung 0,
        s.posters.owed 0) = (.blocked, 3, 2, false, false, false) :=
    run_of_outcome
      (coreSleeps ++
        [.tick 1200, .post 0, .kick 0, .wake false, .start, .fetch 0 1 false, .check] ++
        [.tick 1201, .start, .tick 1210, .post 0, .kick 0, .fetch 0 1 false, .check, .tick 1302] ++
        coreSleeps ++ [.tick 1303, .post 0, .kick 0]) (by decide +kernel)
  obtain ⟨s, hrun, hs⟩ := hreach
  simp only [Prod.mk.injEq] at hs
  obtain ⟨hblocked, hposted, hseen, hbell, hrung, howed⟩ := hs
  exact ⟨s, hrun, fastLoopStart_first, .inl (by decide), hblocked, hbell,
    Posters.not_announced (by omega) hrung howed⟩

end Tas
