import Tas.AcceptWait
import Tas.Lib.Circ
import Tas.Lib.Replay

/-! The backlog of a listener as a queue, and the lengths that `listener_packet` stores in it for
`parse_options`. -/
namespace Tas

open Outcome SlowPath Circ Replay Function List

/-- The backlog of a listener. Also, in order, the SYNs that were put into slots, each with the
number of bytes received, and those that were given up. -/
structure BacklogRing extends Backlog where
  entered : List (BacklogSlot × U16)
  taken : List BacklogSlot

namespace BacklogRing

section Ring

variable (r : BacklogRing)

def push (p : TcpPacket) (len : U16) (core : U32) (fg : U16) : BacklogRing :=
  { r with
    toBacklog := r.toBacklog.push p core fg
    entered := r.entered ++ [(r.entry p core fg, len)] }

/-- `listener_accept`, which gives up the first slot whatever comes of it. Nothing is returned if an
assertion fails, or if it never leaves `parse_options`. -/
def listenerAccept : Option BacklogRing :=
  match r.slots with
  | [] => none
  | b :: _ =>
    if parseOptions b.pkt b.len = .hangs then none
    else some { r with toBacklog := r.pop, taken := r.taken ++ [b] }

/-- `listener_packet` for a packet of `len` bytes, when an accept waits or not. -/
def listenerPacket (p : TcpPacket) (len : U16) (core : U32) (fg : U16) (waits : Bool) :
    Option BacklogRing :=
  if p.flags &&& ~~~(tcpEce ||| tcpCwr) ≠ tcpSyn then some r
  else if r.admits p then
    let r := r.push p len core fg
    if waits then r.listenerAccept else some r
  else some r

end Ring

inductive Event
  /-- `tcp_packet` finds the listener for a packet of `len` bytes. -/
  | packet (p : TcpPacket) (len : U16) (core : U32) (fg : U16) (waits : Bool)
  | accept

def next (r : BacklogRing) : Event → Option BacklogRing
  | .packet p len core fg waits =>
    if len.toNat < pktTcpSize then some r
    else
      match parseOptions p len with
      | .hangs => none
      | .failed => some r
      | .ok _ => r.listenerPacket p len core fg waits
  | .accept => if r.used.val > 0 then r.listenerAccept else some r

/-- The stored length, for a packet of which `len` bytes were received. -/
structure LenOk (b : BacklogSlot) (len : U16) : Prop where
  eq : b.len.toNat = 14 + b.pkt.ipLen.toNat
  slot : b.len.toNat ≤ 126
  received : b.len.toNat ≤ len.toNat
  header : pktTcpSize + (b.pkt.hdrlen.toNat * 4 - 20) ≤ b.len.toNat

/-- A queue, in which no 4-tuple is twice, and with correct lengths. -/
structure Ok (r : BacklogRing) : Prop where
  fifo : r.entered.map Prod.fst = r.taken ++ r.slots
  length : r.slots.length ≤ backlogLen
  apart : r.slots.Pairwise fun b b' => sameTuple b'.pkt b.pkt = false
  lengths : ∀ x ∈ r.entered, LenOk x.1 x.2

/-- The IP length of the packet covers its TCP header, and was received. -/
def Event.Whole : Event → Prop
  | .packet p len _ _ _ => pktTcpSize + (p.hdrlen.toNat * 4 - 20) ≤ 14 + p.ipLen.toNat ∧
    14 + p.ipLen.toNat ≤ len.toNat
  | .accept => True

/-- After `tcp_listen`. -/
structure Start (r : BacklogRing) : Prop where
  ring : r.pos = 0 ∧ r.used = 0
  logs : r.entered = [] ∧ r.taken = []

/-! ### The state machine -/

variable {r r' r₀ : BacklogRing} {b : BacklogSlot} {p : TcpPacket} {len : U16} {core : U32}
  {fg : U16} {waits : Bool} {cfg : SlowCfg} {s s' : SlowPath} {l : ℕ}

/-- The slow path gives up the slot that the ring does. -/
theorem listenerAccept_slowPath (hs : SlowPath.listenerAccept cfg s l = .ok s')
    (hr : r.toBacklog = (s.listener l).backlog) :
    ∃ r', r.listenerAccept = some r' ∧ r'.toBacklog = (s'.listener l).backlog := by
  have hpop : (s'.listener l).backlog = r.pop := by
    obtain ⟨_, _, _, _, _, -, -, hlistener, -⟩ := listenerAccept_listener hs
    rw [hlistener, update_self, hr]
  unfold SlowPath.listenerAccept at hs
  rw [← hr] at hs
  split at hs
  · rename_i c ws b bs hw hslots
    refine ⟨{ r with toBacklog := r.pop, taken := r.taken ++ [b] }, ?_, hpop.symm⟩
    unfold listenerAccept
    rw [hslots]
    refine if_neg fun hhangs => ?_
    rw [hhangs] at hs
    cases hs
  · cases hs

/-- A packet that the slow path hands to a listener does to its backlog what it does to the ring. -/
theorem listenerPacket_slowPath {ts : Option U32}
    (hs : SlowPath.listenerPacket cfg s l p ts core fg = .ok s')
    (hr : r.toBacklog = (s.listener l).backlog)
    (hwaits : waits = true ↔ (s.listener l).waitConns ≠ []) :
    ∃ r', r.listenerPacket p len core fg waits = some r' ∧
      r'.toBacklog = (s'.listener l).backlog := by
  have hpush : (s.pushBacklog l p core fg).listener l = { s.listener l with
      backlog := (s.listener l).backlog.push p core fg } := update_self ..
  have hring : (r.push p len core fg).toBacklog =
      ((s.pushBacklog l p core fg).listener l).backlog := by
    rw [hpush, ← hr]
    rfl
  unfold SlowPath.listenerPacket at hs
  unfold listenerPacket
  dsimp only at hs ⊢
  rw [congrArg Listener.waitConns hpush, ← hr] at hs
  simp only [← hwaits] at hs
  split_ifs at hs ⊢ with hsyn hadmits hwait
  · cases hs
    exact ⟨r, rfl, hr⟩
  · exact listenerAccept_slowPath hs hring
  · cases hs
    exact ⟨_, rfl, hring⟩
  · cases hs
    exact ⟨r, rfl, hr⟩

/-! ### Runs -/

/-- The oldest SYN is given up. -/
theorem listenerAccept_some (h : r.listenerAccept = some r') :
    ∃ b, r.slots = b :: r'.slots ∧ r'.entered = r.entered ∧ r'.taken = r.taken ++ [b] := by
  unfold listenerAccept at h
  split at h
  · cases h
  · rename_i b bs hslots
    split_ifs at h
    cases h
    refine ⟨b, ?_, rfl, rfl⟩
    dsimp only
    rw [Backlog.slots_pop, hslots, tail_cons]

theorem Ok.accept (h : r.Ok) (hr : r.listenerAccept = some r') : r'.Ok := by
  obtain ⟨b, hslots, hentered, htaken⟩ := listenerAccept_some hr
  have hlength := h.length
  have hapart := h.apart
  rw [hslots] at hlength hapart
  refine ⟨?_, Nat.le_of_succ_le hlength, (pairwise_cons.1 hapart).2, ?_⟩
  · rw [hentered, h.fifo, hslots, htaken, append_assoc]
    rfl
  · rw [hentered]
    exact h.lengths

/-- The stored packet is the received one, up to bytes behind its options. -/
theorem entry_of_whole (hwhole : (Event.packet p len core fg waits).Whole)
    (hfits : (slotLen p).toNat ≤ 126) :
    LenOk (r.entry p core fg) len ∧ ∀ q, sameTuple (r.entry p core fg).pkt q = sameTuple p q := by
  obtain ⟨hheader, hreceived⟩ := hwhole
  have hlt := len.isLt
  have heq : (slotLen p).toNat = 14 + p.ipLen.toNat := Word.toNat_add_of_lt (by
    change 14 + p.ipLen.toNat < 2 ^ 16
    omega)
  have hpkt : (r.entry p core fg).pkt = _ := over_eq (by omega)
  refine ⟨⟨?_, hfits, heq.trans_le hreceived, ?_⟩, fun q => ?_⟩
  · rw [hpkt]
    exact heq
  · rw [hpkt]
    exact hheader.trans_eq heq.symm
  · rw [hpkt]
    rfl

theorem Ok.push (h : r.Ok) (hadmits : r.admits p = true)
    (hwhole : (Event.packet p len core fg waits).Whole) : (r.push p len core fg).Ok := by
  obtain ⟨hfits, hnew, hroom⟩ := Backlog.admits_iff.1 hadmits
  obtain ⟨hlen, htuple⟩ := entry_of_whole (r := r) hwhole hfits
  have hslots : (r.push p len core fg).slots = r.slots ++ [r.entry p core fg] :=
    Backlog.slots_push hroom
  refine ⟨?_, ?_, ?_, fun x hx => ?_⟩
  · change (r.entered ++ [(r.entry p core fg, len)]).map Prod.fst = r.taken ++ _
    rw [hslots, map_append, h.fifo, append_assoc]
    rfl
  · rw [Backlog.slots, window_length]
    exact Nat.le_of_lt_succ (r.push p len core fg).used.isLt
  · rw [hslots]
    refine pairwise_append.2 ⟨h.apart, pairwise_singleton _ _, fun a ha c hc => ?_⟩
    rw [mem_singleton.1 hc, htuple]
    exact hnew a ha
  · obtain hx | hx := mem_append.1 hx
    · exact h.lengths x hx
    · rw [mem_singleton.1 hx]
      exact hlen

/-- A packet is dropped, or its SYN enters and is at once given up if an accept waits. -/
theorem Ok.packet (h : r.Ok) (hwhole : (Event.packet p len core fg waits).Whole)
    (hr : r.listenerPacket p len core fg waits = some r') : r'.Ok := by
  unfold listenerPacket at hr
  dsimp only at hr
  split_ifs at hr with hsyn hadmits hwaits
  · exact Option.some.inj hr ▸ h
  · exact (h.push hadmits hwhole).accept hr
  · exact Option.some.inj hr ▸ h.push hadmits hwhole
  · exact Option.some.inj hr ▸ h

theorem Ok.next {e : Event} (h : r.Ok) (hwhole : e.Whole) (hr : r.next e = some r') : r'.Ok := by
  unfold BacklogRing.next at hr
  cases e with
  | accept =>
    dsimp only at hr
    split_ifs at hr
    · exact h.accept hr
    · exact Option.some.inj hr ▸ h
  | packet p len core fg waits =>
    dsimp only at hr
    split_ifs at hr
    · exact Option.some.inj hr ▸ h
    · split at hr
      · cases hr
      · exact Option.some.inj hr ▸ h
      · exact h.packet hwhole hr

theorem Start.ok (h : r.Start) : r.Ok := by
  have hempty : r.slots = [] := Backlog.slots_eq_nil (congrArg Fin.val h.ring.2)
  refine ⟨?_, ?_, ?_, ?_⟩
  · rw [hempty, h.logs.1, h.logs.2]
    rfl
  · rw [hempty]
    exact Nat.zero_le _
  · rw [hempty]
    exact .nil
  · rw [h.logs.1]
    nofun

/-- In every run in which the IP lengths of the packets are right, the backlog is a queue with the
right lengths. -/
theorem backlog_queue (hstart : r₀.Start) (hrun : Run next (fun _ e => e.Whole) r₀ r) : r.Ok :=
  hrun.invariant Ok hstart.ok fun _ _ _ h hwhole hr => h.next hwhole hr

instance (e : Event) : Decidable e.Whole :=
  match e with
  | .packet .. => inferInstanceAs (Decidable (_ ∧ _))
  | .accept => .isTrue trivial

/-- A ring without SYNs. -/
def empty : BacklogRing := ⟨(idleSlow.listener 0).backlog, [], []⟩

/-- A SYN from port `src` of which `len` bytes are received, with IP length `ipLen`. -/
def synEvent (src ipLen len : U16) : Event :=
  .packet { controlPkt tcpSyn src 80 true with ipLen := ipLen } len 0 0 false

theorem two_syns_queued : ∃ r, Run next (fun _ e => e.Whole) empty r ∧
    (r.used, r.pos, r.entered.map fun x => (x.1.len, x.2)) = (1, 1, [(66, 66), (66, 80)]) ∧
      r.Ok := by
  have hreach : ∃ r, Run next (fun _ e => e.Whole) empty r ∧
      (r.used, r.pos, r.entered.map fun x => (x.1.len, x.2)) = (1, 1, [(66, 66), (66, 80)]) :=
    run_of_outcome [synEvent 1 52 66, synEvent 2 52 80, .accept] (by decide +kernel)
  obtain ⟨r, hrun, hr⟩ := hreach
  exact ⟨r, hrun, hr, backlog_queue ⟨⟨rfl, rfl⟩, ⟨rfl, rfl⟩⟩ hrun⟩

/-- The IP length of a SYN is above what was received, that of a second one is below its headers,
and that of a third one wraps around. -/
theorem ip_length_unchecked : ∃ r₀ r, r₀.Start ∧ Run next Any r₀ r ∧
    r.entered.map (fun x => (x.1.pkt.ipLen, x.1.len, x.2)) =
      [(112, 126, 66), (0, 14, 66), (65530, 8, 66)] ∧ ¬ r.Ok := by
  have hreach : ∃ r, Run next Any empty r ∧
      r.entered.map (fun x => (x.1.pkt.ipLen, x.1.len, x.2)) =
        [(112, 126, 66), (0, 14, 66), (65530, 8, 66)] :=
    run_of_outcome [synEvent 1 112 66, synEvent 2 0 66, synEvent 3 65530 66] (by decide +kernel)
  obtain ⟨r, hrun, hr⟩ := hreach
  refine ⟨empty, r, ⟨⟨rfl, rfl⟩, ⟨rfl, rfl⟩⟩, hrun, hr, fun hok => ?_⟩
  have hmem : ((112, 126, 66) : U16 × U16 × U16) ∈
      r.entered.map fun x => (x.1.pkt.ipLen, x.1.len, x.2) := by
    rw [hr]
    exact mem_cons_self
  obtain ⟨x, hx, heq⟩ := mem_map.1 hmem
  simp only [Prod.mk.injEq] at heq
  have hle := (hok.lengths x hx).received
  rw [heq.2.1, heq.2.2] at hle
  exact absurd hle (by decide)

end BacklogRing

end Tas
