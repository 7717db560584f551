import Tas.Timeout

/-! The timeouts of handshakes and of ARP requests, which double with every retry, and the options
that set them. -/
namespace Tas

open Outcome

/-! ### Options -/

def isspace (c : Char) : Bool := c = ' ' || 9 ≤ c.toNat && c.toNat ≤ 13

/-- `strtoul` in base 10: the number, and what follows it. -/
def strtoul (s : List Char) : ℕ × List Char :=
  let t := s.dropWhile isspace
  let u := if t.head? = some '-' ∨ t.head? = some '+' then t.tail else t
  let digits := u.takeWhile Char.isDigit
  let n := digits.foldl (fun n c => 10 * n + (c.toNat - '0'.toNat)) 0
  if digits = [] then (0, s)
  else if n ≥ 2 ^ 64 then (2 ^ 64 - 1, u.dropWhile Char.isDigit)
  else (if t.head? = some '-' then (2 ^ 64 - n) % 2 ^ 64 else n, u.dropWhile Char.isDigit)

def parseInt32 (s : List Char) : Option U32 :=
  let (v, rest) := strtoul s
  if s = [] ∨ rest ≠ [] then none else some (BitVec.ofNat 32 v)

/-- The fields of the configuration that timeouts come from, with their defaults. -/
structure BackoffConfig where
  tcpHandshakeTo : U32 := 10000
  tcpHandshakeRetries : U32 := 10
  arpTo : U32 := 500
  arpToMax : U32 := 10000000

inductive BackoffOption
  | tcpHandshakeTimeout
  | tcpHandshakeRetries
  | arpTimeout
  | arpTimeoutMax

def BackoffConfig.parse (cfg : BackoffConfig) (opt : BackoffOption × List Char) :
    Option BackoffConfig := do
  let v ← parseInt32 opt.2
  match opt.1 with
  | .tcpHandshakeTimeout => some { cfg with tcpHandshakeTo := v }
  | .tcpHandshakeRetries => some { cfg with tcpHandshakeRetries := v }
  | .arpTimeout => some { cfg with arpTo := v }
  | .arpTimeoutMax => some { cfg with arpToMax := v }

/-- The configuration for a command line. -/
def configParse (opts : List (BackoffOption × List Char)) : Option BackoffConfig :=
  opts.foldlM BackoffConfig.parse {}

/-! ### Timers -/

/-- What ends the process: a division by zero, or the check of `util_timeout_arm_ts`. -/
inductive BackoffFault
  | zeroModulus
  | outOfRange

/-- The check of `util_timeout_arm_ts`. Returns the time until the timer fires. -/
def utilTimeoutArm (us : U32) : Except BackoffFault U32 :=
  if us ≥ timeoutMiddle then .error .outOfRange else .ok us

def connTimeoutArm (timeout rnd : U32) : Except BackoffFault U32 :=
  if timeout = 0 then .error .zeroModulus
  else utilTimeoutArm (timeout / 2 + rnd % timeout)

/-- A timer that cannot be armed ends the process. -/
def orAbort {α : Type} : Except BackoffFault α → Except Fault α :=
  Except.mapError fun _ => .assertion

theorem ok_of_orAbort {α : Type} {x : Except BackoffFault α} {a : α} (h : orAbort x = .ok a) :
    x = .ok a := by
  cases x with
  | ok b => exact congrArg _ (Except.ok.inj h)
  | error e => cases h

/-- The timer of a connection that sent a SYN. -/
structure HandshakeTimer where
  timeout : U32
  toAttempts : U32
  /-- The time that was passed to `util_timeout_arm`. -/
  us : U32

/-- The timer is armed when the first SYN is sent. -/
def firstSyn (cfg : BackoffConfig) (rnd : U32) : Except BackoffFault HandshakeTimer := do
  let us ← connTimeoutArm cfg.tcpHandshakeTo rnd
  .ok ⟨cfg.tcpHandshakeTo, 0, us⟩

/-- `tcp_timeout` for a handshake: gives up, or sends another SYN. -/
def handshakeTimeout (cfg : BackoffConfig) (c : HandshakeTimer) (rnd : U32) :
    Except BackoffFault (Option HandshakeTimer) :=
  if c.toAttempts + 1 > cfg.tcpHandshakeRetries then .ok none
  else do
    let us ← connTimeoutArm (c.timeout * 2) rnd
    .ok (some ⟨c.timeout * 2, c.toAttempts + 1, us⟩)

/-- The timer of `arp_timeout`, for an entry with this timeout: it gives up, or the timer is armed
for another request. -/
def requestTimeout (cfg : BackoffConfig) (timeout : U32) : Except BackoffFault (Option U32) :=
  if timeout * 2 ≥ cfg.arpToMax then .ok none
  else do
    let us ← utilTimeoutArm (timeout * 2)
    .ok (some us)

/-- Timers of a handshake after any number of retries. -/
inductive HandshakeReach (cfg : BackoffConfig) : HandshakeTimer → Prop
  | first {c : HandshakeTimer} (rnd : U32) (h : firstSyn cfg rnd = .ok c) : HandshakeReach cfg c
  | retry {c c' : HandshakeTimer} (hc : HandshakeReach cfg c) (rnd : U32)
      (h : handshakeTimeout cfg c rnd = .ok (some c')) : HandshakeReach cfg c'

/-- Timeouts of an ARP request after any number of retries. -/
inductive RequestReach (cfg : BackoffConfig) : U32 → Prop
  | first {t : U32} (h : utilTimeoutArm cfg.arpTo = .ok t) : RequestReach cfg t
  | retry {t t' : U32} (ht : RequestReach cfg t) (h : requestTimeout cfg t = .ok (some t')) :
      RequestReach cfg t'

/-- The time that was armed is the timeout, give or take a half. -/
def HandshakeTimer.Spread (c : HandshakeTimer) (rnd : U32) : Prop :=
  c.us.toNat = c.timeout.toNat / 2 + rnd.toNat % c.timeout.toNat

/-- No timer is out of range, whatever numbers are drawn, and a timeout is doubled without a
wrap. -/
structure BackoffInRange (cfg : BackoffConfig) : Prop where
  first : ∀ rnd, ∃ c, firstSyn cfg rnd = .ok c ∧ c.Spread rnd
  retry : ∀ c, HandshakeReach cfg c → ∀ rnd, ∃ r, handshakeTimeout cfg c rnd = .ok r ∧
    ∀ c', r = some c' → c'.timeout.toNat = c.timeout.toNat * 2 ∧ c'.Spread rnd
  request : ∃ t, utilTimeoutArm cfg.arpTo = .ok t
  again : ∀ t, RequestReach cfg t → ∃ r, requestTimeout cfg t = .ok r ∧
    ∀ t', r = some t' → t'.toNat = t.toNat * 2

/-! ### Handshakes -/

/-- One and a half times the timeout is in range. -/
def Fits (t : ℕ) : Prop := 0 < t ∧ t / 2 + (t - 1) < 2 ^ 27

variable {cfg : BackoffConfig} {t us rnd : U32} {c : HandshakeTimer}

theorem utilTimeoutArm_eq_ok : utilTimeoutArm t = .ok us ↔ t.toNat < 2 ^ 27 ∧ us = t := by
  have hmiddle : timeoutMiddle.toNat = 2 ^ 27 := rfl
  unfold utilTimeoutArm
  simp only [ge_iff_le, BitVec.le_def, hmiddle]
  split
  · simp; omega
  · simp only [Except.ok.injEq, eq_comm (a := t)]
    simp; omega

theorem spread_toNat (h : t.toNat / 2 + rnd.toNat % t.toNat < 2 ^ 32) :
    (t / 2 + rnd % t).toNat = t.toNat / 2 + rnd.toNat % t.toNat := by
  have htwo : (2 : U32).toNat = 2 := rfl
  rw [BitVec.toNat_add, BitVec.toNat_udiv, BitVec.toNat_umod, htwo, Nat.mod_eq_of_lt h]

theorem double_toNat (h : t.toNat < 2 ^ 31) : (t * 2).toNat = t.toNat * 2 := by
  have htwo : (2 : U32).toNat = 2 := rfl
  rw [BitVec.toNat_mul, htwo, Nat.mod_eq_of_lt (by omega)]

theorem Fits.of_le {a b : ℕ} (h : Fits b) (hpos : 0 < a) (hle : a ≤ b) : Fits a := by
  obtain ⟨-, hb⟩ := h
  exact ⟨hpos, by omega⟩

theorem Fits.arm (h : Fits t.toNat) (rnd : U32) : ∃ us, connTimeoutArm t rnd = .ok us ∧
    us.toNat = t.toNat / 2 + rnd.toNat % t.toNat := by
  obtain ⟨hpos, hlt⟩ := h
  have hmod := Nat.mod_lt rnd.toNat hpos
  have hne : t ≠ 0 := by
    rintro rfl
    exact absurd hpos (lt_irrefl 0)
  have hus : (t / 2 + rnd % t).toNat = _ := spread_toNat (by omega)
  refine ⟨t / 2 + rnd % t, ?_, hus⟩
  rw [connTimeoutArm, if_neg hne, utilTimeoutArm_eq_ok]
  exact ⟨by omega, rfl⟩

/-- The smallest and the largest number tell whether every number is fine. -/
theorem fits_of_arm (h : ∀ rnd, ∃ us, connTimeoutArm t rnd = .ok us) : Fits t.toNat := by
  have hne : t ≠ 0 := by
    rintro rfl
    obtain ⟨us, hus⟩ := h 0
    contradiction
  have hlt : ∀ rnd, (t / 2 + rnd % t).toNat < 2 ^ 27 := by
    intro rnd
    obtain ⟨us, hus⟩ := h rnd
    rw [connTimeoutArm, if_neg hne, utilTimeoutArm_eq_ok] at hus
    exact hus.1
  have hpos : 0 < t.toNat := by
    have : t.toNat ≠ 0 := fun h0 => hne (BitVec.eq_of_toNat_eq h0)
    omega
  have hlow := hlt 0
  rw [spread_toNat (by simp; omega)] at hlow
  have hone : (1 : U32).toNat = 1 := rfl
  have hmax : (t - 1).toNat = t.toNat - 1 := by
    rw [BitVec.toNat_sub_of_le (by rw [BitVec.le_def]; omega), hone]
  have hhigh := hlt (t - 1)
  rw [spread_toNat (by rw [hmax, Nat.mod_eq_of_lt (by omega)]; omega), hmax,
    Nat.mod_eq_of_lt (by omega)] at hhigh
  exact ⟨hpos, hhigh⟩

/-- A handshake is given up, or its timeout is doubled. -/
theorem handshakeTimeout_ok {r : Option HandshakeTimer} (h : handshakeTimeout cfg c rnd = .ok r) :
    (cfg.tcpHandshakeRetries < c.toAttempts + 1 ∧ r = none) ∨
      ∃ us, connTimeoutArm (c.timeout * 2) rnd = .ok us ∧
        r = some ⟨c.timeout * 2, c.toAttempts + 1, us⟩ := by
  unfold handshakeTimeout at h
  split_ifs at h with hretry
  · exact .inl ⟨hretry, (Except.ok.inj h).symm⟩
  · obtain ⟨us, harm, h⟩ := of_bind_ok h
    exact .inr ⟨us, harm, (Except.ok.inj h).symm⟩

/-- The timeout is known from the number of attempts. -/
structure HandshakeTimer.Doubled (cfg : BackoffConfig) (c : HandshakeTimer) : Prop where
  le : c.toAttempts.toNat ≤ cfg.tcpHandshakeRetries.toNat
  timeout : c.timeout.toNat = cfg.tcpHandshakeTo.toNat * 2 ^ c.toAttempts.toNat

theorem HandshakeTimer.Doubled.next (h : c.Doubled cfg) (hfits : Fits c.timeout.toNat)
    (hmore : c.toAttempts.toNat < cfg.tcpHandshakeRetries.toNat) :
    (c.toAttempts + 1).toNat = c.toAttempts.toNat + 1 ∧
      ∀ us, HandshakeTimer.Doubled cfg ⟨c.timeout * 2, c.toAttempts + 1, us⟩ := by
  have hone : (1 : U32).toNat = 1 := rfl
  have hk : (c.toAttempts + 1).toNat = c.toAttempts.toNat + 1 := by
    rw [BitVec.toNat_add, hone, Nat.mod_eq_of_lt (by omega)]
  obtain ⟨-, hlt⟩ := hfits
  refine ⟨hk, fun us => ⟨by rw [hk]; omega, ?_⟩⟩
  rw [double_toNat (by omega), hk, h.timeout, pow_succ, mul_assoc]

theorem Fits.retries_lt {a k : ℕ} (h : Fits (a * 2 ^ k)) : k < 28 := by
  obtain ⟨hpos, hlt⟩ := h
  have hle : 2 ^ k ≤ a * 2 ^ k := Nat.le_mul_of_pos_left _ (Nat.pos_of_mul_pos_right hpos)
  exact (Nat.pow_lt_pow_iff_right (a := 2) (by decide)).1 (by omega)

/-- With a configuration in range, a timeout gives up or doubles. -/
theorem HandshakeTimer.Doubled.step (h : c.Doubled cfg)
    (hall : Fits (cfg.tcpHandshakeTo.toNat * 2 ^ cfg.tcpHandshakeRetries.toNat)) (rnd : U32) :
    handshakeTimeout cfg c rnd = .ok none ∨ ∃ us : U32,
      let c' : HandshakeTimer := ⟨c.timeout * 2, c.toAttempts + 1, us⟩
      handshakeTimeout cfg c rnd = .ok (some c') ∧ c'.Doubled cfg ∧
        c'.timeout.toNat = c.timeout.toNat * 2 ∧ c'.Spread rnd := by
  have hone : (1 : U32).toNat = 1 := rfl
  have hto : 0 < cfg.tcpHandshakeTo.toNat := Nat.pos_of_mul_pos_right hall.1
  have hfits : ∀ c' : HandshakeTimer, c'.Doubled cfg → Fits c'.timeout.toNat := by
    intro c' hc'
    rw [hc'.timeout]
    exact hall.of_le (Nat.mul_pos hto (by positivity))
      (Nat.mul_le_mul_left _ (Nat.pow_le_pow_right (by decide) hc'.le))
  have hlt := (hfits c h).2
  by_cases hmore : c.toAttempts.toNat < cfg.tcpHandshakeRetries.toNat
  · obtain ⟨hk, hnext⟩ := h.next (hfits c h) hmore
    obtain ⟨us, harm, hus⟩ := (hfits _ (hnext 0)).arm rnd
    refine Or.inr ⟨us, ?_, hnext us, double_toNat (by omega), hus⟩
    rw [handshakeTimeout, if_neg (by rw [gt_iff_lt, BitVec.lt_def]; omega), harm]
    rfl
  · have hsmall := hall.retries_lt
    have hle := h.le
    refine Or.inl (if_pos ?_)
    rw [gt_iff_lt, BitVec.lt_def, BitVec.toNat_add, hone]
    omega

theorem HandshakeReach.doubled (h : HandshakeReach cfg c)
    (hall : Fits (cfg.tcpHandshakeTo.toNat * 2 ^ cfg.tcpHandshakeRetries.toNat)) :
    c.Doubled cfg := by
  induction h with
  | first rnd h =>
    obtain ⟨us, -, ⟨⟩⟩ := of_bind_ok h
    exact ⟨Nat.zero_le _, by simp⟩
  | retry hc rnd h ih =>
    obtain hnone | ⟨us, hsome, hnext, -⟩ := ih.step hall rnd
    · rw [hnone] at h
      cases h
    · rw [hsome] at h
      exact Option.some.inj (Except.ok.inj h) ▸ hnext

/-- If no timer is out of range, then neither is the one after `k` retries, which is reached. -/
theorem BackoffInRange.reach (h : BackoffInRange cfg) {k : ℕ}
    (hk : k ≤ cfg.tcpHandshakeRetries.toNat) : ∃ c, HandshakeReach cfg c ∧ c.Doubled cfg ∧
      c.toAttempts.toNat = k ∧ Fits c.timeout.toNat := by
  induction k with
  | zero =>
    obtain ⟨c, hc, -⟩ := h.first 0
    obtain ⟨us, -, ⟨⟩⟩ := of_bind_ok hc
    refine ⟨_, .first 0 hc, ⟨Nat.zero_le _, by simp⟩, rfl, fits_of_arm fun rnd => ?_⟩
    obtain ⟨c', hc', -⟩ := h.first rnd
    obtain ⟨us', harm, -⟩ := of_bind_ok hc'
    exact ⟨us', harm⟩
  | succ k ih =>
    obtain ⟨c, hc, hd, rfl, hfits⟩ := ih (by omega)
    obtain ⟨hsucc, hnext⟩ := hd.next hfits hk
    have hretry : ∀ rnd, ∃ us, connTimeoutArm (c.timeout * 2) rnd = .ok us ∧
        handshakeTimeout cfg c rnd = .ok (some ⟨c.timeout * 2, c.toAttempts + 1, us⟩) := by
      intro rnd
      obtain ⟨r, hr, -⟩ := h.retry c hc rnd
      have hr' := hr
      rw [handshakeTimeout, if_neg (by rw [gt_iff_lt, BitVec.lt_def]; omega)] at hr'
      obtain ⟨us, harm, ⟨⟩⟩ := of_bind_ok hr'
      exact ⟨us, harm, hr⟩
    obtain ⟨us, -, hr⟩ := hretry 0
    refine ⟨_, hc.retry 0 hr, hnext us, hsucc, fits_of_arm fun rnd => ?_⟩
    obtain ⟨us', harm, -⟩ := hretry rnd
    exact ⟨us', harm⟩

/-! ### ARP requests -/

theorem requestTimeout_eq_some {t' : U32} : requestTimeout cfg t = .ok (some t') ↔
    t * 2 < cfg.arpToMax ∧ (t * 2).toNat < 2 ^ 27 ∧ t' = t * 2 := by
  unfold requestTimeout
  split
  · simp only [Except.ok.injEq, reduceCtorEq, false_iff]
    intro hc
    exact absurd hc.1 (by simpa using ‹_›)
  · simp only [← @utilTimeoutArm_eq_ok (t * 2) t']
    cases utilTimeoutArm (t * 2) <;> simp_all [bind, Except.bind]

theorem RequestReach.lt (h : RequestReach cfg t) : t.toNat < 2 ^ 27 := by
  cases h with
  | first h => simp_all [utilTimeoutArm_eq_ok]
  | retry ht h => simp_all [requestTimeout_eq_some]

theorem RequestReach.doubled (h : RequestReach cfg t) : ∃ k, t.toNat = cfg.arpTo.toNat * 2 ^ k := by
  induction h with
  | first h => exact ⟨0, by simp_all [utilTimeoutArm_eq_ok]⟩
  | retry ht h ih =>
    obtain ⟨k, hk⟩ := ih
    have hlt := ht.lt
    obtain ⟨-, -, rfl⟩ := requestTimeout_eq_some.1 h
    exact ⟨k + 1, by rw [double_toNat (by omega), hk, pow_succ, mul_assoc]⟩

theorem BackoffInRange.request_reach (h : BackoffInRange cfg) {k : ℕ}
    (hk : k ≠ 0 → cfg.arpTo.toNat * 2 ^ k < cfg.arpToMax.toNat) :
    ∃ t, RequestReach cfg t ∧ t.toNat = cfg.arpTo.toNat * 2 ^ k := by
  induction k with
  | zero =>
    obtain ⟨t, ht⟩ := h.request
    exact ⟨t, .first ht, by simp_all [utilTimeoutArm_eq_ok]⟩
  | succ k ih =>
    have hlt := hk (Nat.succ_ne_zero k)
    rw [pow_succ, ← mul_assoc] at hlt ⊢
    obtain ⟨t, ht, hval⟩ := ih fun _ => by omega
    have hdouble : (t * 2).toNat = t.toNat * 2 := double_toNat (by have := ht.lt; omega)
    obtain ⟨r, hr, -⟩ := h.again t ht
    have hsome : requestTimeout cfg t = .ok (some (t * 2)) := by
      have hless : ¬ t * 2 ≥ cfg.arpToMax := by
        rw [ge_iff_le, BitVec.le_def]
        omega
      rw [requestTimeout, if_neg hless] at hr ⊢
      cases harm : utilTimeoutArm (t * 2) with
      | error e =>
        rw [harm] at hr
        contradiction
      | ok us => rw [(utilTimeoutArm_eq_ok.1 harm).2]; rfl
    exact ⟨t * 2, ht.retry hsome, by rw [hdouble, hval]⟩

/-- Without timeouts between the limit of the timers and the configured maximum, a request is sent
again or given up. -/
theorem RequestReach.again (ht : RequestReach cfg t)
    (hmax : ∀ k, cfg.arpTo.toNat * 2 ^ (k + 1) < cfg.arpToMax.toNat →
      cfg.arpTo.toNat * 2 ^ (k + 1) < 2 ^ 27) :
    ∃ r, requestTimeout cfg t = .ok r ∧ ∀ t', r = some t' → t'.toNat = t.toNat * 2 := by
  have hdouble : (t * 2).toNat = t.toNat * 2 := double_toNat (by have := ht.lt; omega)
  by_cases hless : t * 2 < cfg.arpToMax
  · obtain ⟨k, hk⟩ := ht.doubled
    have hbelow := hmax k
    rw [pow_succ, ← mul_assoc, ← hk, ← hdouble] at hbelow
    refine ⟨_, requestTimeout_eq_some.2 ⟨hless, hbelow hless, rfl⟩, ?_⟩
    rintro t' ⟨⟩
    exact hdouble
  · exact ⟨none, if_pos (BitVec.not_lt.1 hless), nofun⟩

/-! ### Configurations in range -/

/-- Timeouts stay in range exactly if the last timeout of a handshake is positive and one and a
half times as long as it is still below the limit of the timers, and no timeout of an ARP request
lies between that limit and the configured maximum. -/
theorem backoff_in_range_iff (cfg : BackoffConfig) : BackoffInRange cfg ↔
    Fits (cfg.tcpHandshakeTo.toNat * 2 ^ cfg.tcpHandshakeRetries.toNat) ∧
    cfg.arpTo.toNat < 2 ^ 27 ∧ ∀ k, cfg.arpTo.toNat * 2 ^ (k + 1) < cfg.arpToMax.toNat →
      cfg.arpTo.toNat * 2 ^ (k + 1) < 2 ^ 27 := by
  constructor
  · intro h
    obtain ⟨c, -, hd, hk, hfits⟩ := h.reach le_rfl
    refine ⟨by rwa [hd.timeout, hk] at hfits, ?_, fun k hk => ?_⟩
    · obtain ⟨t, ht⟩ := h.request
      exact (utilTimeoutArm_eq_ok.1 ht).1
    · obtain ⟨t, ht, hval⟩ := h.request_reach (k := k + 1) fun _ => hk
      exact hval ▸ ht.lt
  · rintro ⟨hall, harp, hmax⟩
    refine ⟨fun rnd => ?_, fun c hc rnd => ?_, ⟨_, utilTimeoutArm_eq_ok.2 ⟨harp, rfl⟩⟩,
      fun t ht => ht.again hmax⟩
    · have hfits : Fits cfg.tcpHandshakeTo.toNat :=
        hall.of_le (Nat.pos_of_mul_pos_right hall.1) (Nat.le_mul_of_pos_right _ (by positivity))
      obtain ⟨us, harm, hus⟩ := hfits.arm rnd
      exact ⟨⟨_, 0, us⟩, by rw [firstSyn, harm]; rfl, hus⟩
    · obtain hnone | ⟨us, hsome, -, hvals⟩ := (hc.doubled hall).step hall rnd
      · exact ⟨_, hnone, nofun⟩
      · refine ⟨_, hsome, ?_⟩
        rintro c' ⟨⟩
        exact hvals

/-- `--tcp-handshake-timeout=0` is accepted, and the first SYN divides by zero. -/
theorem zero_handshake_timeout : ∃ cfg,
    configParse [(.tcpHandshakeTimeout, ['0'])] = some cfg ∧
      firstSyn cfg 0 = .error .zeroModulus ∧ ¬ BackoffInRange cfg := by
  refine ⟨{ tcpHandshakeTo := 0 }, rfl, rfl, fun h => ?_⟩
  obtain ⟨c, hc, -⟩ := h.first 0
  contradiction

end Tas
