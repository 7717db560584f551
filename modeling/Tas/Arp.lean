import Tas.Backoff
import Tas.LibTas

/-! Address resolution in the slow path, `arp.c`. Pointers to entries and to completions are
numbers, and zero is the null pointer. -/
namespace Tas

open Outcome Linked Function Relation List

inductive ArpStatus
  | resolved
  | pending
deriving DecidableEq

/-- `struct arp_entry`. -/
structure ArpEntry where
  status : ArpStatus
  ip : U32
  mac : U48
  /-- First of the completions that wait for the entry. -/
  compl : ℕ
  timeout : U32
  /-- The timer `to` is armed. -/
  armed : Bool
  prev : ℕ
  next : ℕ
deriving DecidableEq

/-- The configuration that is read: own address, and the timeouts. -/
structure ArpConfig extends BackoffConfig where
  ip : U32
  ethAddr : U48

/-- The entries in memory, the first one of `arp_table`, and the links `el.next` of the
completions, which belong to the queue once a completion was handed back. -/
structure Arp where
  entry : ℕ → ArpEntry
  table : ℕ
  compNext : ℕ → ℕ

namespace Arp

def next (m : Arp) (p : ℕ) : ℕ := (m.entry p).next

def prev (m : Arp) (p : ℕ) : ℕ := (m.entry p).prev

def write (m : Arp) (p : ℕ) (e : ArpEntry) : Arp := { m with entry := update m.entry p e }

end Arp

/-- A completion that is enqueued back, with its status and the address written through its
pointer. -/
structure Answer where
  comp : ℕ
  status : ℤ
  mac : Option U48
deriving DecidableEq

/-- Packets handed to `nicif_tx_alloc`, which may be out of buffers. -/
inductive ArpTx
  | request (dstIp : U32)
  | response (dstMac : U48) (dstIp : U32)
deriving DecidableEq

/-- The entry for an address, or null. -/
def aeLookup (m : Arp) (ip : U32) : ℕ → ℕ → Except Fault ℕ
  | 0, _ => .error .unfinished
  | fuel + 1, p =>
    if p = 0 then .ok 0
    else if (m.entry p).ip = ip then .ok p
    else aeLookup m ip fuel (m.next p)

/-- The table with the entry `p` in front. -/
def insertEntry (m : Arp) (p : ℕ) (e : ArpEntry) : Arp :=
  let m' := m.write p { e with prev := 0, next := m.table }
  if m.table = 0 then { m' with table := p }
  else { m'.write m.table { m'.entry m.table with prev := p } with table := p }

/-- Result of `arp_request`: zero with the address, one, or an error. -/
inductive RequestResult
  | found (mac : U48)
  | waiting
  | failed
deriving DecidableEq

/-- The entry for a new request. Its address is not initialised. -/
def pendingEntry (cfg : ArpConfig) (comp : ℕ) (ip : U32) : ArpEntry where
  status := .pending
  ip := ip
  mac := 0
  compl := comp
  timeout := cfg.arpTo
  armed := true
  prev := 0
  next := 0

/-- Look up an address. `fresh` is what `malloc` returns, if it is called. -/
def arpRequest (cfg : ArpConfig) (fuel : ℕ) (m : Arp) (comp : ℕ) (ip : U32) (fresh : Option ℕ) :
    Except Fault (Arp × RequestResult × Option ArpTx) := do
  let ae ← aeLookup m ip fuel m.table
  if ae ≠ 0 then
    match (m.entry ae).status with
    | .resolved => .ok (m, .found (m.entry ae).mac, none)
    | .pending =>
      .ok ({ m.write ae { m.entry ae with compl := comp } with
        compNext := update m.compNext comp (m.entry ae).compl }, .waiting, none)
  else
    match fresh with
    | none => .ok (m, .failed, none)
    | some p => do
      let _ ← orAbort (utilTimeoutArm cfg.arpTo)
      .ok ({ insertEntry m p (pendingEntry cfg comp ip) with
        compNext := update m.compNext comp 0 }, .waiting, some (.request ip))

/-- Hand back a chain of completions. The link is read before the completion is enqueued. -/
def notifyAll (compNext : ℕ → ℕ) (status : ℤ) (mac : Option U48) :
    ℕ → ℕ → Except Fault (List Answer)
  | 0, _ => .error .unfinished
  | fuel + 1, comp =>
    if comp = 0 then .ok []
    else do
      let rest ← notifyAll compNext status mac fuel (compNext comp)
      .ok (⟨comp, status, mac⟩ :: rest)

/-- What is read of an ARP packet. -/
structure ArpPacket where
  htype : U16
  ptype : U16
  hlen : U8
  plen : U8
  oper : U16
  sha : U48
  spa : U32
  tpa : U32

/-- The packet passes the filter for bad packets. -/
def ArpPacket.good (p : ArpPacket) : Bool :=
  p.htype == 1 && p.ptype == 0x0800 && p.hlen == 6 && p.plen == 4

/-- The entry after a reply. Its timer is disarmed if it was pending. -/
def resolvedEntry (e : ArpEntry) (mac : U48) : ArpEntry :=
  { e with
    armed := if e.status = .pending then false else e.armed
    mac := mac
    status := .resolved
    compl := 0 }

/-- A reply: fill in the entry and notify waiting connections. -/
def arpReply (fuel : ℕ) (m : Arp) (p : ArpPacket) : Except Fault (Arp × List Answer) := do
  let ae ← aeLookup m p.spa fuel m.table
  if ae = 0 then .ok (m, [])
  else
    let answers ← notifyAll m.compNext 0 (some p.sha) fuel (m.entry ae).compl
    .ok (m.write ae (resolvedEntry (m.entry ae) p.sha), answers)

/-- A received ARP packet. -/
def arpPacket (cfg : ArpConfig) (fuel : ℕ) (m : Arp) (p : ArpPacket) :
    Except Fault (Arp × List Answer × Option ArpTx) :=
  if ¬ p.good then .ok (m, [], none)
  else if p.oper = 1 then
    if p.tpa ≠ cfg.ip then .ok (m, [], none)
    else .ok (m, [], some (.response p.sha p.spa))
  else if p.oper = 2 then do
    let r ← arpReply fuel m p
    .ok (r.1, r.2, none)
  else .ok (m, [], none)

/-- Remove the entry from the table. -/
def removeEntry (m : Arp) (ae : ℕ) : Arp :=
  let e := m.entry ae
  let m' := if e.prev ≠ 0 then m.write e.prev { m.entry e.prev with next := e.next }
    else { m with table := e.next }
  if e.next ≠ 0 then m'.write e.next { m'.entry e.next with prev := e.prev } else m'

/-- The timer of the entry has fired. A timer of a resolved entry is an error. -/
def arpTimeout (cfg : ArpConfig) (fuel : ℕ) (m : Arp) (ae : ℕ) :
    Except Fault (Arp × List Answer × Option ArpTx) :=
  let e := m.entry ae
  if e.status = .resolved then .error .assertion
  else do
    match ← orAbort (requestTimeout cfg.toBackoffConfig e.timeout) with
    | none =>
      let answers ← notifyAll m.compNext (-1) none fuel e.compl
      .ok (removeEntry m ae, answers, none)
    | some timeout =>
      .ok (m.write ae { e with timeout := timeout, armed := true }, [], some (.request e.ip))

/-! ### Events -/

/-- What happened to requests: one waits for an address, a reply for it came, its retries were
used up, or a completion was handed back. -/
inductive ArpEvent
  | asked (comp : ℕ) (ip : U32)
  | reply (ip : U32) (mac : U48)
  | gaveUp (ip : U32)
  | answered (a : Answer)

/-- The address that a completion waits for. The latest event comes first. -/
def waitingFor (c : ℕ) : List ArpEvent → Option U32
  | [] => none
  | .asked c' ip :: log => if c = c' then some ip else waitingFor c log
  | .answered a :: log => if c = a.comp then none else waitingFor c log
  | .reply _ _ :: log => waitingFor c log
  | .gaveUp _ :: log => waitingFor c log

/-- The latest event that is no answer. -/
def cause : List ArpEvent → Option ArpEvent
  | [] => none
  | .answered _ :: log => cause log
  | .asked c ip :: _ => some (.asked c ip)
  | .reply ip mac :: _ => some (.reply ip mac)
  | .gaveUp ip :: _ => some (.gaveUp ip)

/-- The answer is caused by a reply for the address with the address it carries, or by the end of
the retries. -/
def Answer.CausedBy (a : Answer) (ip : U32) (e : Option ArpEvent) : Prop :=
  (∃ mac, a.status = 0 ∧ a.mac = some mac ∧ e = some (.reply ip mac)) ∨
    (a.status = -1 ∧ a.mac = none ∧ e = some (.gaveUp ip))

/-- A completion that is asked for does not wait already, and it is answered only while it waits,
and then for a cause. -/
def Justified : List ArpEvent → Prop
  | [] => True
  | .answered a :: log =>
    (∃ ip, waitingFor a.comp log = some ip ∧ a.CausedBy ip (cause log)) ∧ Justified log
  | .asked c _ :: log => waitingFor c log = none ∧ Justified log
  | .reply _ _ :: log => Justified log
  | .gaveUp _ :: log => Justified log

/-- Answers given one after the other. -/
def logAnswers : List Answer → List ArpEvent → List ArpEvent
  | [], log => log
  | a :: as, log => logAnswers as (.answered a :: log)

variable {log : List ArpEvent} {answers : List Answer} {c : ℕ} {ip : U32}

theorem waitingFor_logAnswers :
    waitingFor c (logAnswers answers log) =
      if c ∈ answers.map Answer.comp then none else waitingFor c log := by
  induction answers generalizing log with
  | nil => simp [logAnswers]
  | cons a as ih =>
    unfold logAnswers
    rw [ih, waitingFor, map_cons]
    by_cases hc : c = a.comp
    · simp [hc]
    · simp [hc]

theorem justified_logAnswers (ip : U32) (hlog : Justified log)
    (hnodup : (answers.map Answer.comp).Nodup)
    (hwait : ∀ a ∈ answers, waitingFor a.comp log = some ip)
    (hcause : ∀ a ∈ answers, a.CausedBy ip (cause log)) : Justified (logAnswers answers log) := by
  induction answers generalizing log with
  | nil => exact hlog
  | cons a as ih =>
    obtain ⟨hnew, hnodup⟩ := nodup_cons.1 hnodup
    refine ih ⟨⟨ip, hwait a (by simp), hcause a (by simp)⟩, hlog⟩ hnodup (fun b hb => ?_)
      fun b hb => hcause b (by simp [hb])
    have hne : b.comp ≠ a.comp := fun heq => hnew (heq ▸ mem_map_of_mem hb)
    rw [waitingFor, if_neg hne]
    exact hwait b (by simp [hb])

/-! ### Loops -/

variable {m m' : Arp} {ps qs cs : List ℕ} {p q fuel : ℕ} {status : ℤ} {mac : Option U48}

theorem aeLookup_spec (hpath : Path 0 m.next p ps) :
    Meets (ps.length < fuel)
      (fun r => (r = 0 ∧ ∀ q ∈ ps, (m.entry q).ip ≠ ip) ∨
        (r ≠ 0 ∧ r ∈ ps ∧ (m.entry r).ip = ip))
      (aeLookup m ip fuel p) := by
  induction fuel generalizing p ps with
  | zero => exact Nat.not_lt_zero _
  | succ fuel ih =>
    unfold aeLookup
    by_cases hnull : p = 0
    · rw [if_pos hnull]
      obtain rfl := hpath.eq_nil_iff.1 hnull
      exact meets_ok (.inl ⟨rfl, by simp⟩)
    rw [if_neg hnull]
    obtain ⟨qs, rfl, hrest⟩ := hpath.exists_cons hnull
    by_cases hip : (m.entry p).ip = ip
    · rw [if_pos hip]
      exact meets_ok (.inr ⟨hnull, by simp, hip⟩)
    · rw [if_neg hip]
      refine (ih hrest).mono (by simp) ?_
      rintro r (⟨rfl, hnone⟩ | ⟨hr, hmem, hfound⟩)
      · refine .inl ⟨rfl, fun q hq => ?_⟩
        obtain rfl | hq := mem_cons.1 hq
        · exact hip
        · exact hnone q hq
      · exact .inr ⟨hr, mem_cons_of_mem _ hmem, hfound⟩

theorem notifyAll_spec {next : ℕ → ℕ} (hpath : Path 0 next c cs) :
    Meets (cs.length < fuel) (fun r => r = cs.map fun c => ⟨c, status, mac⟩)
      (notifyAll next status mac fuel c) := by
  induction fuel generalizing c cs with
  | zero => exact Nat.not_lt_zero _
  | succ fuel ih =>
    unfold notifyAll
    by_cases hnull : c = 0
    · rw [if_pos hnull]
      obtain rfl := hpath.eq_nil_iff.1 hnull
      exact meets_ok rfl
    · rw [if_neg hnull]
      obtain ⟨ds, rfl, hrest⟩ := hpath.exists_cons hnull
      refine ((ih hrest).mono (by simp) fun _ h => h).bind ?_
      rintro r rfl
      exact meets_ok rfl

/-! ### Runs -/

/-- The table, the entries that are allocated, and the events so far. -/
structure ArpRun where
  arp : Arp
  used : Set ℕ
  log : List ArpEvent

/-- After `arp_init`. -/
structure ArpStart (cfg : ArpConfig) (s : ArpRun) : Prop where
  entry : ∃ lb, lb ≠ 0 ∧ s.arp.table = lb ∧ s.used = {lb} ∧
    ∃ timeout, s.arp.entry lb = ⟨.resolved, cfg.ip, cfg.ethAddr, 0, timeout, false, 0, 0⟩
  log : s.log = []

/-- The log after a request. -/
def requestLog (comp : ℕ) (ip : U32) (log : List ArpEvent) : RequestResult → List ArpEvent
  | .waiting => .asked comp ip :: log
  | .found _ => log
  | .failed => log

/-- The log after a packet. -/
def packetLog (p : ArpPacket) (answers : List Answer) (log : List ArpEvent) : List ArpEvent :=
  logAnswers answers (if p.good ∧ p.oper = 2 then .reply p.spa p.sha :: log else log)

/-- The retries of the entry are used up. -/
def ArpEntry.UsedUp (cfg : ArpConfig) (e : ArpEntry) : Prop := e.timeout * 2 ≥ cfg.arpToMax

instance (cfg : ArpConfig) (e : ArpEntry) : Decidable (e.UsedUp cfg) :=
  inferInstanceAs (Decidable (e.timeout * 2 ≥ cfg.arpToMax))

/-- No timeout lies between the limit of the timers and the maximum that is configured. -/
def ArpConfig.InRange (cfg : ArpConfig) : Prop :=
  cfg.arpTo.toNat < 2 ^ 27 ∧ ∀ k, cfg.arpTo.toNat * 2 ^ (k + 1) < cfg.arpToMax.toNat →
    cfg.arpTo.toNat * 2 ^ (k + 1) < 2 ^ 27

/-- The log after a timeout. -/
def timeoutLog (cfg : ArpConfig) (e : ArpEntry) (answers : List Answer) (log : List ArpEvent) :
    List ArpEvent :=
  logAnswers answers (if e.UsedUp cfg then .gaveUp e.ip :: log else log)

/-- The table when the timer of the entry fires. -/
def Arp.fire (m : Arp) (ae : ℕ) : Arp := m.write ae { m.entry ae with armed := false }

/-- A request, with a completion that does not wait already; a packet; a timer that fires. -/
inductive ArpStep (cfg : ArpConfig) : ArpRun → ArpRun → Prop
  | request {s : ArpRun} {m' : Arp} {fuel comp : ℕ} {ip : U32} {fresh : Option ℕ}
    {r : RequestResult} {tx : Option ArpTx} (hcomp : comp ≠ 0)
    (hidle : waitingFor comp s.log = none) (hfresh : Mallocs s.used fresh)
    (hr : arpRequest cfg fuel s.arp comp ip fresh = .ok (m', r, tx)) :
    ArpStep cfg s ⟨m', {p | p ∈ s.used ∨ (tx.isSome ∧ fresh = some p)}, requestLog comp ip s.log r⟩
  | packet {s : ArpRun} {m' : Arp} {fuel : ℕ} {p : ArpPacket} {answers : List Answer}
    {tx : Option ArpTx} (hr : arpPacket cfg fuel s.arp p = .ok (m', answers, tx)) :
    ArpStep cfg s ⟨m', s.used, packetLog p answers s.log⟩
  | timeout {s : ArpRun} {m' : Arp} {fuel ae : ℕ} {answers : List Answer} {tx : Option ArpTx}
    (hae : ae ∈ s.used) (harmed : (s.arp.entry ae).armed)
    (hr : arpTimeout cfg fuel (s.arp.fire ae) ae = .ok (m', answers, tx)) :
    ArpStep cfg s ⟨m', {p | p ∈ s.used ∧ (p = ae → ¬ (s.arp.entry ae).UsedUp cfg)},
      timeoutLog cfg (s.arp.entry ae) answers s.log⟩

/-- The entries are `ps`, and the completions `chain p` wait for the entry `p`. -/
structure ArpInv (cfg : ArpConfig) (s : ArpRun) (ps : List ℕ) (chain : ℕ → List ℕ) : Prop where
  table : Chain 0 s.arp.next s.arp.prev s.arp.table ps
  used : ∀ p, p ∈ s.used ↔ p ∈ ps
  ips : ∀ p ∈ ps, ∀ q ∈ ps, (s.arp.entry p).ip = (s.arp.entry q).ip → p = q
  timer : ∀ p ∈ ps, (s.arp.entry p).status = .pending ↔ (s.arp.entry p).armed = true
  comps : ∀ p ∈ ps, Path 0 s.arp.compNext (s.arp.entry p).compl (chain p)
  nodup : ∀ p ∈ ps, (chain p).Nodup
  resolved : ∀ p ∈ ps, (s.arp.entry p).status = .resolved → chain p = []
  reach : ∀ p ∈ ps, (s.arp.entry p).status = .pending →
    RequestReach cfg.toBackoffConfig (s.arp.entry p).timeout
  waiting : ∀ c ip, waitingFor c s.log = some ip ↔
    ∃ p ∈ ps, (s.arp.entry p).ip = ip ∧ c ∈ chain p
  justified : Justified s.log

/-- An entry with the completions that wait for it. -/
structure ArpEntry.Ok (cfg : ArpConfig) (next : ℕ → ℕ) (e : ArpEntry) (cs : List ℕ) : Prop where
  timer : e.status = .pending ↔ e.armed = true
  comps : Path 0 next e.compl cs
  nodup : cs.Nodup
  resolved : e.status = .resolved → cs = []
  reach : e.status = .pending → RequestReach cfg.toBackoffConfig e.timeout

/-! ### Changes to one entry -/

variable {e : ArpEntry} {s t : ArpRun} {chain : ℕ → List ℕ} {cfg : ArpConfig} {used' : Set ℕ}
  {comp : ℕ} {pkt : ArpPacket}

theorem entry_write_self : (m.write p e).entry p = e :=
  update_self ..

theorem entry_write_of_ne (h : q ≠ p) :
    (m.write p e).entry q = m.entry q := update_of_ne h ..

theorem next_write (h : e.next = (m.entry p).next) : (m.write p e).next = m.next := by
  funext q
  unfold Arp.next
  by_cases hq : q = p
  · rw [hq, entry_write_self, h]
  · rw [entry_write_of_ne hq]

theorem prev_write (h : e.prev = (m.entry p).prev) : (m.write p e).prev = m.prev := by
  funext q
  unfold Arp.prev
  by_cases hq : q = p
  · rw [hq, entry_write_self, h]
  · rw [entry_write_of_ne hq]

/-- Only the links of its completions matter to an entry. -/
theorem ArpEntry.Ok.congr {next' : ℕ → ℕ} {prev next : ℕ} (h : e.Ok cfg m.compNext cs)
    (hlinks : ∀ c ∈ cs, next' c = m.compNext c) :
    ArpEntry.Ok cfg next' { e with prev := prev, next := next } cs :=
  ⟨h.timer, h.comps.congr hlinks, h.nodup, h.resolved, h.reach⟩

theorem ArpInv.of_entries (htable : Chain 0 s.arp.next s.arp.prev s.arp.table ps)
    (hused : ∀ p, p ∈ s.used ↔ p ∈ ps)
    (hips : ∀ p ∈ ps, ∀ q ∈ ps, (s.arp.entry p).ip = (s.arp.entry q).ip → p = q)
    (hentries : ∀ p ∈ ps, (s.arp.entry p).Ok cfg s.arp.compNext (chain p))
    (hwaiting : ∀ c ip, waitingFor c s.log = some ip ↔
      ∃ p ∈ ps, (s.arp.entry p).ip = ip ∧ c ∈ chain p)
    (hjust : Justified s.log) : ArpInv cfg s ps chain :=
  ⟨htable, hused, hips, fun p hp => (hentries p hp).timer, fun p hp => (hentries p hp).comps,
    fun p hp => (hentries p hp).nodup, fun p hp => (hentries p hp).resolved,
    fun p hp => (hentries p hp).reach, hwaiting, hjust⟩

section

variable (h : ArpInv cfg s ps chain)
include h

theorem ArpInv.entryOk (hp : p ∈ ps) : (s.arp.entry p).Ok cfg s.arp.compNext (chain p) :=
  ⟨h.timer p hp, h.comps p hp, h.nodup p hp, h.resolved p hp, h.reach p hp⟩

/-- Another entry's completions. -/
theorem ArpInv.apart (hp : p ∈ ps) (hq : q ∈ ps) (hne : q ≠ p)
    (hc : c ∈ chain q) : c ∉ chain p := by
  intro hcp
  have hwaitq := (h.waiting c _).2 ⟨q, hq, rfl, hc⟩
  have hwaitp := (h.waiting c _).2 ⟨p, hp, rfl, hcp⟩
  exact hne (h.ips q hq p hp (Option.some.inj (hwaitq.symm.trans hwaitp)))

omit h in
/-- An entry of the table is changed, with its place and its address kept. -/
theorem ArpInv.modify {next' : ℕ → ℕ} {log' : List ArpEvent} (cs : List ℕ)
    (h : ArpInv cfg s ps chain) (hp : p ∈ ps)
    (hplace : e.next = (s.arp.entry p).next ∧ e.prev = (s.arp.entry p).prev)
    (hip : e.ip = (s.arp.entry p).ip) (hused : ∀ q, q ∈ used' ↔ q ∈ s.used)
    (hlinks : ∀ q ∈ ps, q ≠ p → ∀ c ∈ chain q, next' c = s.arp.compNext c) (hok : e.Ok cfg next' cs)
    (hwait : ∀ c ip, waitingFor c log' = some ip ↔
      (e.ip = ip ∧ c ∈ cs) ∨ ∃ q ∈ ps, q ≠ p ∧ (s.arp.entry q).ip = ip ∧ c ∈ chain q)
    (hjust : Justified log') :
    ArpInv cfg ⟨{ s.arp.write p e with compNext := next' }, used', log'⟩ ps
      (update chain p cs) := by
  have hself : ({ s.arp.write p e with compNext := next' } : Arp).entry p = e :=
    entry_write_self
  have hother : ∀ q ≠ p, ({ s.arp.write p e with compNext := next' } : Arp).entry q =
      s.arp.entry q := fun q hq => entry_write_of_ne hq
  have hips : ∀ q, (({ s.arp.write p e with compNext := next' } : Arp).entry q).ip =
      (s.arp.entry q).ip := by
    intro q
    by_cases hq : q = p
    · rw [hq, hself, hip]
    · rw [hother q hq]
  refine .of_entries ?_ (fun q => (hused q).trans (h.used q)) (fun q hq r hr heq => ?_)
    (fun q hq => ?_) (fun c ip => ?_) hjust
  · refine h.table.congr (fun x _ => ?_) fun x _ => ?_
    · exact congrFun (next_write hplace.1) x
    · exact congrFun (prev_write hplace.2) x
  · dsimp only at heq
    rw [hips, hips] at heq
    exact h.ips q hq r hr heq
  · dsimp only
    by_cases hqp : q = p
    · rw [hqp, hself, update_self]
      exact hok
    · rw [hother q hqp, update_of_ne hqp]
      exact (h.entryOk hq).congr (hlinks q hq hqp)
  · rw [hwait]
    dsimp only
    constructor
    · rintro (⟨heip, hc⟩ | ⟨q, hq, hqp, hqip, hc⟩)
      · exact ⟨p, hp, by rw [hself, heip], by rwa [update_self]⟩
      · exact ⟨q, hq, by rw [hother q hqp, hqip], by rwa [update_of_ne hqp]⟩
    · rintro ⟨q, hq, hqip, hc⟩
      by_cases hqp : q = p
      · rw [hqp, hself] at hqip
        rw [hqp, update_self] at hc
        exact .inl ⟨hqip, hc⟩
      · rw [hother q hqp] at hqip
        rw [update_of_ne hqp] at hc
        exact .inr ⟨q, hq, hqp, hqip, hc⟩

theorem ArpInv.waiting_split (hp : p ∈ ps) (c : ℕ) (ip : U32) :
    waitingFor c s.log = some ip ↔ ((s.arp.entry p).ip = ip ∧ c ∈ chain p) ∨
      ∃ q ∈ ps, q ≠ p ∧ (s.arp.entry q).ip = ip ∧ c ∈ chain q := by
  rw [h.waiting]
  constructor
  · rintro ⟨q, hq, hip, hc⟩
    by_cases hqp : q = p
    · subst hqp
      exact .inl ⟨hip, hc⟩
    · exact .inr ⟨q, hq, hqp, hip, hc⟩
  · rintro (⟨hip, hc⟩ | ⟨q, hq, -, hip, hc⟩)
    · exact ⟨p, hp, hip, hc⟩
    · exact ⟨q, hq, hip, hc⟩

/-- A completion that waits for nothing is in no chain. -/
theorem ArpInv.not_mem_chain (hidle : waitingFor c s.log = none) (hp : p ∈ ps) : c ∉ chain p := by
  intro hc
  have hwait := (h.waiting c _).2 ⟨p, hp, rfl, hc⟩
  rw [hidle] at hwait
  cases hwait

/-! ### Requests -/

/-- What a request does. -/
inductive Requested (cfg : ArpConfig) (m : Arp) (comp : ℕ) (ip : U32) (fresh : Option ℕ)
    (ps : List ℕ) : Arp × RequestResult × Option ArpTx → Prop
  | found {p : ℕ} (hp : p ∈ ps) (hip : (m.entry p).ip = ip)
    (hres : (m.entry p).status = .resolved) :
    Requested cfg m comp ip fresh ps (m, .found (m.entry p).mac, none)
  | queued {p : ℕ} (hp : p ∈ ps) (hip : (m.entry p).ip = ip)
    (hpend : (m.entry p).status = .pending) :
    Requested cfg m comp ip fresh ps ({ m.write p { m.entry p with compl := comp } with
      compNext := update m.compNext comp (m.entry p).compl }, .waiting, none)
  | failed (hnone : ∀ q ∈ ps, (m.entry q).ip ≠ ip) (hfresh : fresh = none) :
    Requested cfg m comp ip fresh ps (m, .failed, none)
  | added {p : ℕ} (hnone : ∀ q ∈ ps, (m.entry q).ip ≠ ip) (hfresh : fresh = some p)
    (hreach : RequestReach cfg.toBackoffConfig cfg.arpTo) :
    Requested cfg m comp ip fresh ps ({ insertEntry m p (pendingEntry cfg comp ip) with
      compNext := update m.compNext comp 0 }, .waiting, some (.request ip))

omit h in
theorem arm_yields {live : Prop} (hlive : live → cfg.InRange) :
    Yields live (fun us => RequestReach cfg.toBackoffConfig cfg.arpTo ∧ us = cfg.arpTo)
      (orAbort (utilTimeoutArm cfg.arpTo)) := by
  constructor
  · intro us hus
    obtain ⟨hlt, rfl⟩ := utilTimeoutArm_eq_ok.1 (ok_of_orAbort hus)
    exact ⟨.first (utilTimeoutArm_eq_ok.2 ⟨hlt, rfl⟩), rfl⟩
  · intro hl
    rw [utilTimeoutArm_eq_ok.2 ⟨(hlive hl).1, rfl⟩]
    exact ⟨_, rfl⟩

omit h in
theorem arpRequest_spec {fresh : Option ℕ} (hpath : Path 0 m.next m.table ps) :
    Yields (cfg.InRange ∧ ps.length < fuel) (Requested cfg m comp ip fresh ps)
      (arpRequest cfg fuel m comp ip fresh) := by
  refine ((aeLookup_spec hpath).mono And.right fun _ hr => hr).yields.bind ?_
  rintro ae (⟨rfl, hnone⟩ | ⟨hnull, hmem, hip⟩)
  · rw [if_neg (by simp)]
    cases fresh with
    | none => exact yields_ok (.failed hnone rfl)
    | some p =>
      exact (arm_yields And.left).bind fun _ hreach => yields_ok (.added hnone rfl hreach.1)
  · rw [if_pos hnull]
    cases hst : (m.entry ae).status with
    | resolved => exact yields_ok (.found hmem hip hst)
    | pending => exact yields_ok (.queued hmem hip hst)

/-- The completion is put in front of the chain. -/
theorem ArpInv.queue (hp : p ∈ ps) (hip : (s.arp.entry p).ip = ip)
    (hpend : (s.arp.entry p).status = .pending) (hcomp : comp ≠ 0)
    (hidle : waitingFor comp s.log = none) (hused : ∀ q, q ∈ used' ↔ q ∈ s.used) :
    ∃ chain', ArpInv cfg ⟨{ s.arp.write p { s.arp.entry p with compl := comp } with
      compNext := update s.arp.compNext comp (s.arp.entry p).compl }, used',
      .asked comp ip :: s.log⟩ ps chain' := by
  have hnew : ∀ q ∈ ps, ∀ c ∈ chain q, c ≠ comp := by
    rintro q hq c hc rfl
    exact h.not_mem_chain hidle hq hc
  have hlinks : ∀ q ∈ ps, ∀ c ∈ chain q,
      update s.arp.compNext comp (s.arp.entry p).compl c = s.arp.compNext c :=
    fun q hq c hc => update_of_ne (hnew q hq c hc) ..
  refine ⟨_, h.modify (comp :: chain p) hp ⟨rfl, rfl⟩ rfl hused (fun q hq _ => hlinks q hq)
    ⟨h.timer p hp, ?_, ?_, ?_, h.reach p hp⟩ ?_ ⟨hidle, h.justified⟩⟩
  · exact (h.comps p hp).push_front hcomp (update_self ..) (hlinks p hp)
  · exact nodup_cons.2 ⟨h.not_mem_chain hidle hp, h.nodup p hp⟩
  · intro hres
    exact (ArpStatus.noConfusion (hpend.symm.trans hres))
  · intro c ip'
    rw [waitingFor]
    by_cases hc : c = comp
    · rw [if_pos hc, hc]
      constructor
      · intro heq
        exact .inl ⟨hip.trans (Option.some.inj heq), by simp⟩
      · rintro (⟨heq, -⟩ | ⟨q, hq, -, -, hmem⟩)
        · exact congrArg some (hip.symm.trans heq)
        · exact (hnew q hq comp hmem rfl).elim
    · rw [if_neg hc, h.waiting_split hp]
      simp [hc]

omit h in
theorem insertEntry_self (m : Arp) (e : ArpEntry) (hne : m.table ≠ p) :
    (insertEntry m p e).entry p = { e with prev := 0, next := m.table } := by
  unfold insertEntry
  dsimp only
  split_ifs
  · exact entry_write_self
  · dsimp only
    rw [entry_write_of_ne hne.symm]
    exact entry_write_self

omit h in
theorem insertEntry_other (m : Arp) (e : ArpEntry) (hq : q ≠ p) (hnull : q ≠ 0) :
    (insertEntry m p e).entry q =
      { m.entry q with prev := if q = m.table then p else (m.entry q).prev } := by
  unfold insertEntry
  dsimp only
  by_cases htable : m.table = 0
  · rw [if_pos htable, if_neg (htable ▸ hnull)]
    exact entry_write_of_ne hq
  · rw [if_neg htable]
    dsimp only
    by_cases hself : q = m.table
    · rw [if_pos hself, ← hself, entry_write_self, entry_write_of_ne hq]
    · rw [if_neg hself, entry_write_of_ne hself, entry_write_of_ne hq]

omit h in
theorem insertEntry_table : (insertEntry m p e).table = p := by
  unfold insertEntry
  dsimp only
  split_ifs <;> rfl

/-- A new entry in front of the table. -/
theorem ArpInv.insert (hnull : p ≠ 0) (hnew : p ∉ ps) (hnone : ∀ q ∈ ps, (s.arp.entry q).ip ≠ ip)
    (hcomp : comp ≠ 0) (hidle : waitingFor comp s.log = none)
    (hused : ∀ q, q ∈ used' ↔ q = p ∨ q ∈ s.used)
    (hreach : RequestReach cfg.toBackoffConfig cfg.arpTo) :
    ∃ chain', ArpInv cfg ⟨{ insertEntry s.arp p (pendingEntry cfg comp ip) with
      compNext := update s.arp.compNext comp 0 }, used', .asked comp ip :: s.log⟩
      (p :: ps) chain' := by
  have htable : s.arp.table ≠ p := by
    intro heq
    cases ps with
    | nil => exact hnull (heq ▸ h.table.path)
    | cons q qs => exact hnew (by rw [← heq, h.table.path.1]; simp)
  have hself := insertEntry_self s.arp (pendingEntry cfg comp ip) htable
  have hother : ∀ q ∈ ps, (insertEntry s.arp p (pendingEntry cfg comp ip)).entry q =
      { s.arp.entry q with
        prev := if q = s.arp.table then p else (s.arp.entry q).prev } := by
    intro q hq
    refine insertEntry_other s.arp _ ?_ (h.table.path.ne_nil q hq)
    rintro rfl
    exact hnew hq
  have hne : ∀ q ∈ ps, q ≠ p := by
    rintro q hq rfl
    exact hnew hq
  refine ⟨update chain p [comp], .of_entries ?_ (fun q => ?_) ?_ ?_ ?_ ⟨hidle, h.justified⟩⟩
  · dsimp only
    rw [insertEntry_table]
    refine h.table.push_front hnull hnew (congrArg ArpEntry.next hself)
      (congrArg ArpEntry.prev hself) (fun q hq => ?_) fun q hq => ?_
    · have heq := congrArg ArpEntry.next (hother q hq)
      exact heq
    · have heq := congrArg ArpEntry.prev (hother q hq)
      exact heq
  · rw [hused q, h.used q, mem_cons]
  · intro q hq r hr heq
    dsimp only at heq
    obtain hqp | hqs := mem_cons.1 hq
    · obtain hrp | hrs := mem_cons.1 hr
      · rw [hqp, hrp]
      · rw [hqp, hself, hother r hrs] at heq
        exact (hnone r hrs heq.symm).elim
    · obtain hrp | hrs := mem_cons.1 hr
      · rw [hrp, hself, hother q hqs] at heq
        exact (hnone q hqs heq).elim
      · rw [hother q hqs, hother r hrs] at heq
        exact h.ips q hqs r hrs heq
  · intro q hq
    dsimp only
    obtain rfl | hq := mem_cons.1 hq
    · rw [hself, update_self]
      exact ⟨iff_of_true rfl rfl, ⟨rfl, hcomp, update_self ..⟩, nodup_singleton _, nofun,
        fun _ => hreach⟩
    · rw [hother q hq, update_of_ne (hne q hq)]
      refine (h.entryOk hq).congr fun c hc => update_of_ne ?_ ..
      rintro rfl
      exact h.not_mem_chain hidle hq hc
  · intro c ip'
    dsimp only
    rw [waitingFor]
    by_cases hc : c = comp
    · rw [if_pos hc, hc]
      constructor
      · intro heq
        refine ⟨p, by simp, ?_, by rw [update_self]; simp⟩
        rw [hself]
        exact Option.some.inj heq
      · rintro ⟨q, hq, hip, hmem⟩
        obtain rfl | hq := mem_cons.1 hq
        · rw [hself] at hip
          exact congrArg some hip
        · rw [update_of_ne (hne q hq)] at hmem
          exact (h.not_mem_chain hidle hq hmem).elim
    · rw [if_neg hc, h.waiting]
      constructor
      · rintro ⟨q, hq, hip, hmem⟩
        refine ⟨q, by simp [hq], ?_, by rwa [update_of_ne (hne q hq)]⟩
        rw [hother q hq]
        exact hip
      · rintro ⟨q, hq, hip, hmem⟩
        obtain rfl | hq := mem_cons.1 hq
        · rw [update_self] at hmem
          exact (hc (mem_singleton.1 hmem)).elim
        · rw [hother q hq] at hip
          rw [update_of_ne (hne q hq)] at hmem
          exact ⟨q, hq, hip, hmem⟩

/-! ### Answers -/

omit h in
/-- The completions of the entry `p` are all answered. -/
theorem ArpInv.answered (status : ℤ) (mac : Option U48) (ev : ArpEvent) (h : ArpInv cfg s ps chain)
    (hp : p ∈ ps) (hev : ∀ c, waitingFor c (ev :: s.log) = waitingFor c s.log)
    (hjust : Justified (ev :: s.log))
    (hcause : ∀ c, Answer.CausedBy ⟨c, status, mac⟩ (s.arp.entry p).ip (cause (ev :: s.log))) :
    Justified (logAnswers ((chain p).map fun c => ⟨c, status, mac⟩) (ev :: s.log)) ∧
      ∀ c ip, waitingFor c (logAnswers ((chain p).map fun c => ⟨c, status, mac⟩) (ev :: s.log)) =
        some ip ↔ ∃ q ∈ ps, q ≠ p ∧ (s.arp.entry q).ip = ip ∧ c ∈ chain q := by
  have hcomps : ((chain p).map fun c => (⟨c, status, mac⟩ : Answer)).map Answer.comp = chain p := by
    rw [List.map_map]
    exact map_id _
  constructor
  · refine justified_logAnswers (s.arp.entry p).ip hjust ?_ ?_ ?_
    · rw [hcomps]
      exact h.nodup p hp
    · intro a ha
      obtain ⟨c, hc, rfl⟩ := mem_map.1 ha
      rw [hev]
      exact (h.waiting c _).2 ⟨p, hp, rfl, hc⟩
    · intro a ha
      obtain ⟨c, hc, rfl⟩ := mem_map.1 ha
      exact hcause c
  · intro c ip
    rw [waitingFor_logAnswers, hcomps, hev]
    by_cases hc : c ∈ chain p
    · rw [if_pos hc]
      refine ⟨(fun hfalse => by cases hfalse), ?_⟩
      rintro ⟨q, hq, hne, -, hcq⟩
      exact (h.apart hp hq hne hcq hc).elim
    · rw [if_neg hc, h.waiting_split hp]
      simp [hc]

theorem ArpInv.resolve (hp : p ∈ ps) (mac : U48) :
    ∃ chain', ArpInv cfg ⟨s.arp.write p (resolvedEntry (s.arp.entry p) mac), s.used,
      logAnswers ((chain p).map fun c => ⟨c, 0, some mac⟩)
        (.reply (s.arp.entry p).ip mac :: s.log)⟩ ps chain' := by
  have htimer : (resolvedEntry (s.arp.entry p) mac).armed = false := by
    unfold resolvedEntry
    dsimp only
    split_ifs with hpend
    · rfl
    · cases harmed : (s.arp.entry p).armed with
      | false => rfl
      | true => exact (hpend ((h.timer p hp).2 harmed)).elim
  obtain ⟨hjust, hwait⟩ := h.answered 0 (some mac) (.reply (s.arp.entry p).ip mac) hp
    (fun _ => rfl) h.justified fun c => .inl ⟨mac, rfl, rfl, rfl⟩
  refine ⟨_, h.modify [] hp ⟨rfl, rfl⟩ rfl (fun _ => Iff.rfl) (fun _ _ _ _ _ => rfl)
    ⟨?_, rfl, nodup_nil, fun _ => rfl, nofun⟩ ?_ hjust⟩
  · rw [htimer]
    exact ⟨(fun hpend => by cases hpend), (fun hfalse => by cases hfalse)⟩
  · intro c ip
    rw [hwait]
    simp

omit h in
/-- One of the writes by which an entry is taken out. -/
theorem relink_entry (m m' : Arp) (f : ArpEntry → ArpEntry) (hq : q ≠ 0)
    (hsame : m'.entry = m.entry) :
    (if p ≠ 0 then m.write p (f (m.entry p)) else m').entry q =
      if q = p then f (m.entry q) else m.entry q := by
  by_cases hp : p ≠ 0
  · rw [if_pos hp]
    by_cases hqp : q = p
    · rw [if_pos hqp, hqp, entry_write_self]
    · rw [if_neg hqp, entry_write_of_ne hqp]
  · rw [if_neg hp, if_neg fun heq : q = p => hp (heq ▸ hq), hsame]

omit h in
theorem removeEntry_entry (m : Arp) (p : ℕ) (hq : q ≠ 0) :
    (removeEntry m p).entry q =
      { m.entry q with
        next := if q = (m.entry p).prev then (m.entry p).next else (m.entry q).next
        prev := if q = (m.entry p).next then (m.entry p).prev else (m.entry q).prev } := by
  unfold removeEntry
  dsimp only
  rw [relink_entry _ _ (fun e => { e with prev := (m.entry p).prev }) hq rfl,
    relink_entry m { m with table := (m.entry p).next }
      (fun e => { e with next := (m.entry p).next }) hq rfl]
  split_ifs <;> rfl

omit h in
theorem removeEntry_table :
    (removeEntry m p).table = if (m.entry p).prev = 0 then (m.entry p).next else m.table := by
  unfold removeEntry
  dsimp only
  split_ifs <;> first | rfl | contradiction

omit h in
theorem removeEntry_compNext : (removeEntry m p).compNext = m.compNext := by
  unfold removeEntry
  dsimp only
  split_ifs <;> rfl

/-- The timer of the entry fired for the last time. -/
theorem ArpInv.giveUp (hp : p ∈ ps) (hused : ∀ q, q ∈ used' ↔ q ∈ s.used ∧ q ≠ p) :
    ∃ ps' chain', ArpInv cfg ⟨removeEntry (s.arp.fire p) p, used',
      logAnswers ((chain p).map fun c => ⟨c, -1, none⟩)
        (.gaveUp (s.arp.entry p).ip :: s.log)⟩ ps' chain' := by
  obtain ⟨as, bs, rfl⟩ := append_of_mem hp
  have hnodup : p ∉ as ++ bs := (nodup_cons.1 (perm_middle.nodup_iff.1 h.table.nodup)).1
  have hsub : ∀ q ∈ as ++ bs, q ∈ as ++ p :: bs ∧ q ≠ p := by
    intro q hq
    refine ⟨by simp at hq ⊢; tauto, ?_⟩
    rintro rfl
    exact hnodup hq
  have hmem : ∀ q, q ∈ as ++ p :: bs → q ≠ p → q ∈ as ++ bs := by
    intro q hq hne
    simp at hq ⊢
    tauto
  have hfire : (s.arp.fire p).entry p = { s.arp.entry p with armed := false } :=
    entry_write_self
  have hentry : ∀ q ∈ as ++ bs, (removeEntry (s.arp.fire p) p).entry q =
      { s.arp.entry q with
        next := if q = s.arp.prev p then s.arp.next p else s.arp.next q
        prev := if q = s.arp.next p then s.arp.prev p else s.arp.prev q } := by
    intro q hq
    obtain ⟨hq', hne⟩ := hsub q hq
    have hkept : (s.arp.fire p).entry q = s.arp.entry q := entry_write_of_ne hne
    rw [removeEntry_entry _ _ (h.table.path.ne_nil q hq'), hfire, hkept]
    rfl
  obtain ⟨hjust, hwait⟩ := h.answered (-1) none (.gaveUp (s.arp.entry p).ip) hp
    (fun _ => rfl) h.justified fun c => .inr ⟨rfl, rfl, rfl⟩
  refine ⟨as ++ bs, chain, .of_entries ?_ (fun q => ?_) ?_ ?_ (fun c ip => ?_) hjust⟩
  · refine h.table.remove ?_ (fun q hq => ?_) fun q hq => ?_
    · dsimp only
      rw [removeEntry_table, hfire]
      rfl
    · have heq := congrArg ArpEntry.next (hentry q hq)
      exact heq
    · have heq := congrArg ArpEntry.prev (hentry q hq)
      exact heq
  · rw [hused, h.used]
    exact ⟨fun hq => hmem q hq.1 hq.2, hsub q⟩
  · intro q hq r hr heq
    dsimp only at heq
    rw [hentry q hq, hentry r hr] at heq
    exact h.ips q (hsub q hq).1 r (hsub r hr).1 heq
  · intro q hq
    dsimp only
    rw [hentry q hq, removeEntry_compNext]
    exact (h.entryOk (hsub q hq).1).congr fun _ _ => rfl
  · rw [hwait]
    dsimp only
    constructor
    · rintro ⟨q, hq, hne, hip, hc⟩
      have hq' := hmem q hq hne
      exact ⟨q, hq', by rw [hentry q hq']; exact hip, hc⟩
    · rintro ⟨q, hq, hip, hc⟩
      rw [hentry q hq] at hip
      exact ⟨q, (hsub q hq).1, (hsub q hq).2, hip, hc⟩

/-! ### Packets and timeouts -/

/-- The loops over the table and over the completions end. -/
def Enough (fuel : ℕ) (ps : List ℕ) (chain : ℕ → List ℕ) : Prop :=
  ps.length < fuel ∧ ∀ p ∈ ps, (chain p).length < fuel

theorem ArpInv.notifyAll_spec (hp : p ∈ ps) :
    Meets (Enough fuel ps chain) (fun r => r = (chain p).map fun c => ⟨c, status, mac⟩)
      (notifyAll s.arp.compNext status mac fuel (s.arp.entry p).compl) :=
  (Tas.notifyAll_spec (h.comps p hp)).mono (fun hfuel => hfuel.2 p hp) fun _ hr => hr

/-- What a reply for the entry `p` does. -/
def Resolves (s : ArpRun) (chain : ℕ → List ℕ) (pkt : ArpPacket) (p : ℕ) (m' : Arp)
    (answers : List Answer) : Prop :=
  (s.arp.entry p).ip = pkt.spa ∧
    m' = s.arp.write p (resolvedEntry (s.arp.entry p) pkt.sha) ∧
    answers = (chain p).map fun c => ⟨c, 0, some pkt.sha⟩

theorem arpReply_spec :
    Meets (Enough fuel ps chain)
      (fun r => (r.1 = s.arp ∧ r.2 = []) ∨ ∃ p ∈ ps, Resolves s chain pkt p r.1 r.2)
      (arpReply fuel s.arp pkt) := by
  refine ((aeLookup_spec h.table.path).mono And.left fun _ hr => hr).bind ?_
  rintro ae (⟨rfl, -⟩ | ⟨hnull, hmem, hip⟩)
  · rw [if_pos rfl]
    exact meets_ok (.inl ⟨rfl, rfl⟩)
  · rw [if_neg hnull]
    refine (h.notifyAll_spec hmem).bind ?_
    rintro answers rfl
    exact meets_ok (.inr ⟨ae, hmem, hip, rfl, rfl⟩)

theorem arpPacket_spec :
    Meets (Enough fuel ps chain)
      (fun r => (r.1 = s.arp ∧ r.2.1 = []) ∨ ((pkt.good ∧ pkt.oper = 2) ∧
        ∃ p ∈ ps, Resolves s chain pkt p r.1 r.2.1))
      (arpPacket cfg fuel s.arp pkt) := by
  unfold arpPacket
  by_cases hgood : pkt.good
  · rw [if_neg (not_not.2 hgood)]
    by_cases hreq : pkt.oper = 1
    · rw [if_pos hreq]
      split_ifs
      all_goals exact meets_ok (.inl ⟨rfl, rfl⟩)
    rw [if_neg hreq]
    by_cases hreply : pkt.oper = 2
    · rw [if_pos hreply]
      refine (arpReply_spec h).bind ?_
      rintro r (hsame | hres)
      · exact meets_ok (.inl hsame)
      · exact meets_ok (.inr ⟨⟨hgood, hreply⟩, hres⟩)
    · rw [if_neg hreply]
      exact meets_ok (.inl ⟨rfl, rfl⟩)
  · rw [if_pos hgood]
    exact meets_ok (.inl ⟨rfl, rfl⟩)

omit h in
theorem write_write (e e' : ArpEntry) : (m.write p e).write p e' = m.write p e' := by
  unfold Arp.write
  dsimp only
  rw [update_idem]

/-- What a timeout of the entry `p` does: its end, or another request. -/
def TimesOut (cfg : ArpConfig) (s : ArpRun) (chain : ℕ → List ℕ) (p : ℕ) (m' : Arp)
    (answers : List Answer) : Prop :=
  ((s.arp.entry p).UsedUp cfg ∧ m' = removeEntry (s.arp.fire p) p ∧
      answers = (chain p).map fun c => ⟨c, -1, none⟩) ∨
    (¬ (s.arp.entry p).UsedUp cfg ∧ answers = [] ∧ ∃ timeout,
      RequestReach cfg.toBackoffConfig timeout ∧
      m' = s.arp.write p { s.arp.entry p with timeout := timeout, armed := true })

theorem arpTimeout_spec (hp : p ∈ ps) (harmed : (s.arp.entry p).armed = true) :
    Yields (cfg.InRange ∧ Enough fuel ps chain) (fun r => TimesOut cfg s chain p r.1 r.2.1)
      (arpTimeout cfg fuel (s.arp.fire p) p) := by
  have hpend := (h.timer p hp).2 harmed
  have hreach := h.reach p hp hpend
  have hentry : (s.arp.fire p).entry p = { s.arp.entry p with armed := false } :=
    entry_write_self
  unfold arpTimeout
  rw [hentry]
  dsimp only
  rw [if_neg (by rw [hpend]; decide)]
  have harm : Yields (cfg.InRange ∧ Enough fuel ps chain)
      (fun r => requestTimeout cfg.toBackoffConfig (s.arp.entry p).timeout = .ok r)
      (orAbort (requestTimeout cfg.toBackoffConfig (s.arp.entry p).timeout)) := by
    refine ⟨fun r => ok_of_orAbort, fun hl => ?_⟩
    obtain ⟨r, hr, -⟩ := hreach.again hl.1.2
    exact ⟨r, by rw [hr]; rfl⟩
  refine harm.bind fun r hr => ?_
  cases r with
  | none =>
    have hup : (s.arp.entry p).UsedUp cfg := by
      by_contra hup
      unfold ArpEntry.UsedUp at hup
      unfold requestTimeout at hr
      rw [if_neg hup] at hr
      obtain ⟨us, -, hus⟩ := of_bind_ok hr
      cases hus
    refine ((h.notifyAll_spec hp).mono And.right fun _ hr => hr).yields.bind ?_
    rintro answers rfl
    exact yields_ok (.inl ⟨hup, rfl, rfl⟩)
  | some timeout =>
    have hless := (requestTimeout_eq_some.1 hr).1
    refine yields_ok (.inr ⟨BitVec.not_le.2 hless, rfl, timeout, hreach.retry hr, ?_⟩)
    exact write_write ..

/-! ### Every state -/

theorem ArpInv.retry (hp : p ∈ ps) (harmed : (s.arp.entry p).armed = true)
    (hused : ∀ q, q ∈ used' ↔ q ∈ s.used) {timeout : U32}
    (hreach : RequestReach cfg.toBackoffConfig timeout) :
    ∃ chain', ArpInv cfg ⟨s.arp.write p { s.arp.entry p with timeout := timeout, armed := true },
      used', s.log⟩ ps chain' := by
  have hpend := (h.timer p hp).2 harmed
  exact ⟨_, h.modify (chain p) hp ⟨rfl, rfl⟩ rfl hused (fun _ _ _ _ _ => rfl)
    { h.entryOk hp with timer := iff_of_true hpend rfl, reach := fun _ => hreach }
    (h.waiting_split hp) h.justified⟩

theorem ArpInv.packet {tx : Option ArpTx}
    (hr : arpPacket cfg fuel s.arp pkt = .ok (m', answers, tx)) :
    ∃ chain', ArpInv cfg ⟨m', s.used, packetLog pkt answers s.log⟩ ps chain' := by
  unfold packetLog
  obtain ⟨rfl, rfl⟩ | ⟨hreply, p, hp, hip, rfl, rfl⟩ := (arpPacket_spec h).of_ok hr
  · by_cases hreply : pkt.good ∧ pkt.oper = 2
    · rw [if_pos hreply]
      exact ⟨chain, { h with }⟩
    · rw [if_neg hreply]
      exact ⟨chain, h⟩
  · rw [if_pos hreply, ← hip]
    exact h.resolve hp pkt.sha

end

theorem arpInv_step (hstep : ArpStep cfg s t) (h : ArpInv cfg s ps chain) :
    ∃ ps' chain', ArpInv cfg t ps' chain' := by
  cases hstep with
  | @request m' fuel comp ip fresh r tx hcomp hidle hfresh hr =>
    have hspec := (arpRequest_spec h.table.path).of_ok _ hr
    cases hspec with
    | found | failed =>
      exact ⟨ps, chain, { h with used := fun q => by simp [h.used] }⟩
    | queued hp hip hpend =>
      exact ⟨ps, h.queue hp hip hpend hcomp hidle fun q => by simp⟩
    | @added p hnone hsome hreach =>
      obtain ⟨hnull, hnew⟩ := hfresh p hsome
      refine ⟨p :: ps, h.insert hnull ?_ hnone hcomp hidle (fun q => ?_) hreach⟩
      · exact fun hmem => hnew ((h.used p).2 hmem)
      · simp [hsome, or_comm, eq_comm]
  | packet hr =>
    exact ⟨ps, h.packet hr⟩
  | @timeout m' fuel ae answers tx hae harmed hr =>
    have hp := (h.used ae).1 hae
    unfold timeoutLog
    obtain ⟨hup, rfl, rfl⟩ | ⟨hup, rfl, timeout, hreach, rfl⟩ :=
      (arpTimeout_spec h hp harmed).of_ok _ hr
    · rw [if_pos hup]
      refine h.giveUp hp fun q => ?_
      simp [hup]
    · rw [if_neg hup]
      refine ⟨ps, h.retry hp harmed (fun q => ?_) hreach⟩
      simp [hup]

theorem arpInv_start (h : ArpStart cfg s) : ∃ ps chain, ArpInv cfg s ps chain := by
  obtain ⟨lb, hnull, htable, hused, timeout, hentry⟩ := h.entry
  refine ⟨[lb], fun _ => [], .of_entries ?_ ?_ ?_ ?_ ?_ ?_⟩
  · refine ⟨⟨htable, hnull, ?_⟩, ⟨?_, trivial⟩, nodup_singleton lb⟩
    · exact congrArg ArpEntry.next hentry
    · exact congrArg ArpEntry.prev hentry
  · simp [hused]
  · intro p hp q hq _
    rw [mem_singleton.1 hp, mem_singleton.1 hq]
  · intro p hp
    rw [mem_singleton.1 hp, hentry]
    exact ⟨by simp, rfl, nodup_nil, fun _ => rfl, nofun⟩
  · simp [h.log, waitingFor]
  · rw [h.log]
    trivial

theorem arpInv_of_reachable {s₀ : ArpRun} (hstart : ArpStart cfg s₀)
    (hrun : ReflTransGen (ArpStep cfg) s₀ s) : ∃ ps chain, ArpInv cfg s ps chain := by
  induction hrun with
  | refl => exact arpInv_start hstart
  | tail _ hstep ih =>
    obtain ⟨ps, chain, hinv⟩ := ih
    exact arpInv_step hstep hinv

/-- The calls return: a request that is answered at once gets the address of a resolved entry,
and no timer fires for a resolved entry. -/
structure ArpReturns (cfg : ArpConfig) (s : ArpRun) (ps : List ℕ) (chain : ℕ → List ℕ) :
    Prop where
  request : ∀ fuel comp ip fresh, ps.length < fuel →
    ∃ r, arpRequest cfg fuel s.arp comp ip fresh = .ok r ∧
      ∀ mac, r.2.1 = .found mac → ∃ p ∈ ps, (s.arp.entry p).ip = ip ∧
        (s.arp.entry p).status = .resolved ∧ (s.arp.entry p).mac = mac
  packet : ∀ fuel pkt, Enough fuel ps chain → ∃ r, arpPacket cfg fuel s.arp pkt = .ok r
  timeout : ∀ fuel, ∀ p ∈ ps, (s.arp.entry p).armed = true → Enough fuel ps chain →
    ∃ r, arpTimeout cfg fuel (s.arp.fire p) p = .ok r

theorem ArpInv.returns (hrange : cfg.InRange) (h : ArpInv cfg s ps chain) :
    ArpReturns cfg s ps chain := by
  refine ⟨fun fuel comp ip fresh hfuel => ?_, fun fuel pkt hfuel => ?_,
    fun fuel p hp harmed hfuel => (arpTimeout_spec h hp harmed).returns ⟨hrange, hfuel⟩⟩
  · have hspec : Yields _ _ (arpRequest cfg fuel s.arp comp ip fresh) :=
      arpRequest_spec h.table.path
    obtain ⟨r, hr⟩ := hspec.returns ⟨hrange, hfuel⟩
    refine ⟨r, hr, fun mac hmac => ?_⟩
    cases hspec.of_ok r hr with
    | @found p hp hip hres => exact ⟨p, hp, hip, hres, RequestResult.found.inj hmac⟩
    | queued | failed | added => cases hmac
  · obtain ⟨r, hr, -⟩ := (arpPacket_spec h).returns hfuel
    exact ⟨r, hr⟩

def arpStart : ArpRun where
  arp := ⟨fun _ => ⟨.resolved, 1, 0xaa, 0, 0, false, 0, 0⟩, 1, fun _ => 0⟩
  used := {1}
  log := []

/-- The completion 5 waits for the address 9. -/
def askedRun (cfg : ArpConfig) : ArpRun where
  arp := { insertEntry arpStart.arp 2 (pendingEntry cfg 5 9) with
    compNext := update arpStart.arp.compNext 5 0 }
  used := {p | p ∈ arpStart.used ∨ (true ∧ some 2 = some p)}
  log := [.asked 5 9]

theorem askedRun_step (hr : arpRequest cfg 2 arpStart.arp 5 9 (some 2) =
    .ok ((askedRun cfg).arp, .waiting, some (.request 9))) :
    ArpStep cfg arpStart (askedRun cfg) := by
  have hfresh : Mallocs arpStart.used (some 2) := by
    intro p hp
    cases hp
    exact ⟨by decide, fun hin => absurd hin (by simp [arpStart])⟩
  exact .request (by decide) rfl hfresh hr

def sampleConfig : ArpConfig where
  arpToMax := 10000
  ip := 1
  ethAddr := 0xaa

theorem sampleConfig_inRange : sampleConfig.InRange := by
  refine ⟨by decide, fun k hk => ?_⟩
  have hmax : sampleConfig.arpToMax.toNat = 10000 := rfl
  omega

def sampleReply : ArpPacket := ⟨1, 0x0800, 6, 4, 2, 0xbb, 9, 1⟩

def answeredRun : ArpRun where
  arp := (askedRun sampleConfig).arp.write 2
    (resolvedEntry ((askedRun sampleConfig).arp.entry 2) 0xbb)
  used := (askedRun sampleConfig).used
  log := [.answered ⟨5, 0, some 0xbb⟩, .reply 9 0xbb, .asked 5 9]

end Tas
