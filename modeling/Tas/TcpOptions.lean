import Tas.Gre
import Tas.SlowPath
import Tas.Lib.Cursor
import Tas.Lib.Tlv

/-! The parsers of TCP options of the fast path (`tcp_common.h`) and of the slow path (`tcp.c`), for
plain packets and for packets in a GRE tunnel. -/
namespace Tas

/-- `struct tcp_opts`: where the options start in the option area. -/
structure TcpOpts where
  ts : Option ℕ := none
  mss : Option ℕ := none
deriving DecidableEq, Inhabited

def tcpOptEndOfOptions : Byte := 0
def tcpOptNoOp : Byte := 1
def tcpOptMss : Byte := 2
def tcpOptTimestamp : Byte := 8

/-- `sizeof(struct tcp_mss_opt)` -/
def tcpMssOptSize : Byte := 4

/-- `sizeof(struct tcp_timestamp_opt)` -/
def tcpTimestampOptSize : Byte := 10

/-- `sizeof(struct pkt_gre)` -/
def pktGreSize : ℕ := 82

/-- `sizeof(struct tcp_hdr)` -/
def tcpHdrSize : ℕ := 20

/-- One iteration of the loop at `off`. Only the parsers of the slow path know the MSS option. -/
def optStep (knowsMss : Bool) (opt : ℕ → Byte) (optsLen off : ℕ) (o : TcpOpts) :
    Cursor.Next (ℤ × TcpOpts) TcpOpts :=
  if opt off = tcpOptEndOfOptions then .stop (0, o)
  else if opt off = tcpOptNoOp then .move 1 o
  else if optsLen - off < 2 then .stop (-1, o)
  else if knowsMss ∧ opt off = tcpOptMss then
    if opt (off + 1) ≠ tcpMssOptSize then .stop (-1, o)
    else .move (opt (off + 1)).toNat { o with mss := some off }
  else if opt off = tcpOptTimestamp then
    if opt (off + 1) ≠ tcpTimestampOptSize then .stop (-1, o)
    else .move (opt (off + 1)).toNat { o with ts := some off }
  else .move (opt (off + 1)).toNat o

/-- The parser for packets with `size` bytes before the options: return value and options after at
most `iters` iterations, or nothing if the loop then still runs. The difference of the lengths is
of type `size_t`. -/
def parseWith (knowsMss : Bool) (size : ℕ) (pkt : ℕ → Byte) (len : U16) (iters : ℕ) :
    Option (ℤ × TcpOpts) :=
  let hdrlen := (tcphHdrlen pkt (size - tcpHdrSize)).toNat
  let optsLen := hdrlen * 4 - 20
  if hdrlen < 5 ∨ BitVec.ofNat 64 optsLen > len.setWidth 64 - BitVec.ofNat 64 size then
    some (-1, {})
  else
    Cursor.walk (optStep knowsMss (fun i => pkt (size + i)) optsLen) (fun o => (0, o)) optsLen iters
      0 {}

namespace OptParser

def tcpParseOptions : (ℕ → Byte) → U16 → ℕ → Option (ℤ × TcpOpts) := parseWith false pktTcpSize

def tcpParseOptionsGre : (ℕ → Byte) → U16 → ℕ → Option (ℤ × TcpOpts) := parseWith false pktGreSize

def parseOptions : (ℕ → Byte) → U16 → ℕ → Option (ℤ × TcpOpts) := parseWith true pktTcpSize

def parseOptionsGre : (ℕ → Byte) → U16 → ℕ → Option (ℤ × TcpOpts) := parseWith true pktGreSize

end OptParser

/-! ### One iteration -/

/-- The parser accepts the length byte for this kind. -/
def ProperLen (knowsMss : Bool) (kind len : Byte) : Prop :=
  (kind = tcpOptTimestamp → len = tcpTimestampOptSize) ∧
    (knowsMss = true → kind = tcpOptMss → len = tcpMssOptSize)

instance decidableProperLen {k : Bool} {kind len : Byte} : Decidable (ProperLen k kind len) :=
  inferInstanceAs (Decidable (_ ∧ _))

/-- The options after one of this kind at `off`. -/
def TcpOpts.mark (o : TcpOpts) (knowsMss : Bool) (kind : Byte) (off : ℕ) : TcpOpts where
  ts := if kind = tcpOptTimestamp then some off else o.ts
  mss := if knowsMss = true ∧ kind = tcpOptMss then some off else o.mss

section Step

variable {k : Bool} {opt opt' : ℕ → Byte} {n off w : ℕ} {s s' o : TcpOpts}

theorem optStep_end (h : opt off = tcpOptEndOfOptions) : optStep k opt n off s = .stop (0, s) :=
  if_pos h

theorem optStep_nop (h : opt off = tcpOptNoOp) : optStep k opt n off s = .move 1 s := by
  unfold optStep
  rw [if_neg (by rw [h]; decide), if_pos h]

theorem optStep_option (hend : opt off ≠ tcpOptEndOfOptions) (hnop : opt off ≠ tcpOptNoOp)
    (hin : off + 2 ≤ n) (hlen : ProperLen k (opt off) (opt (off + 1))) :
    optStep k opt n off s = .move (opt (off + 1)).toNat (s.mark k (opt off) off) := by
  unfold optStep TcpOpts.mark
  rw [if_neg hend, if_neg hnop, if_neg (by omega)]
  by_cases hmss : k = true ∧ opt off = tcpOptMss
  · have hts : opt off ≠ tcpOptTimestamp := by
      rw [hmss.2]
      decide
    rw [if_pos hmss, if_neg (not_not.mpr (hlen.2 hmss.1 hmss.2)), if_neg hts, if_pos hmss]
  · rw [if_neg hmss, if_neg hmss]
    by_cases hts : opt off = tcpOptTimestamp
    · rw [if_pos hts, if_neg (not_not.mpr (hlen.1 hts)), if_pos hts]
    · rw [if_neg hts, if_neg hts]

theorem optStep_reject (hend : opt off ≠ tcpOptEndOfOptions) (hnop : opt off ≠ tcpOptNoOp)
    (hbad : ¬ (off + 2 ≤ n ∧ ProperLen k (opt off) (opt (off + 1)))) :
    optStep k opt n off s = .stop (-1, s) := by
  unfold optStep
  rw [if_neg hend, if_neg hnop]
  by_cases hin : n - off < 2
  · rw [if_pos hin]
  · have hlen : ¬ ProperLen k (opt off) (opt (off + 1)) := fun hlen => hbad ⟨by omega, hlen⟩
    rw [if_neg hin]
    by_cases hmss : k = true ∧ opt off = tcpOptMss
    · rw [if_pos hmss, if_pos]
      intro heq
      refine hlen ⟨fun hts => ?_, fun _ _ => heq⟩
      rw [hmss.2] at hts
      exact absurd hts (by decide)
    · rw [if_neg hmss]
      have hts : opt off = tcpOptTimestamp := by
        by_contra hts
        exact hlen ⟨fun h => absurd h hts, fun hk h => absurd ⟨hk, h⟩ hmss⟩
      rw [if_pos hts, if_pos]
      intro heq
      exact hlen ⟨fun _ => heq, fun hk h => absurd ⟨hk, h⟩ hmss⟩

/-- The two ways in which an iteration goes on. -/
theorem optStep_move (h : optStep k opt n off s = .move w s') :
    (opt off = tcpOptNoOp ∧ w = 1 ∧ s' = s) ∨
      (opt off ≠ tcpOptEndOfOptions ∧ opt off ≠ tcpOptNoOp ∧ off + 2 ≤ n ∧
        ProperLen k (opt off) (opt (off + 1)) ∧ w = (opt (off + 1)).toNat ∧
        s' = s.mark k (opt off) off) := by
  by_cases hend : opt off = tcpOptEndOfOptions
  · cases (optStep_end hend).symm.trans h
  by_cases hnop : opt off = tcpOptNoOp
  · obtain ⟨rfl, rfl⟩ := Cursor.Next.move.inj ((optStep_nop hnop).symm.trans h)
    exact .inl ⟨hnop, rfl, rfl⟩
  by_cases hok : off + 2 ≤ n ∧ ProperLen k (opt off) (opt (off + 1))
  · obtain ⟨rfl, rfl⟩ := Cursor.Next.move.inj ((optStep_option hend hnop hok.1 hok.2).symm.trans h)
    exact .inr ⟨hend, hnop, hok.1, hok.2, rfl, rfl⟩
  · cases (optStep_reject hend hnop hok).symm.trans h

end Step

/-! ### All iterations -/

/-- The loop comes by `off`. -/
abbrev OptReaches (k : Bool) (opt : ℕ → Byte) (n off : ℕ) (s : TcpOpts) : Prop :=
  Cursor.Reaches (optStep k opt n) n 0 {} off s

/-- The loop from `off` on returns 0 with these options. -/
abbrev OptAccepts (k : Bool) (opt : ℕ → Byte) (n off : ℕ) (s o : TcpOpts) : Prop :=
  Cursor.Ends (optStep k opt n) (fun o => ((0 : ℤ), o)) n off s (0, o)

section Accepts

variable {k k' : Bool} {opt opt' : ℕ → Byte} {n off : ℕ} {s s' o o' : TcpOpts}

theorem OptAccepts.nop (hlt : off < n) (hnop : opt off = tcpOptNoOp)
    (h : OptAccepts k opt n (off + 1) s o) : OptAccepts k opt n off s o :=
  .move hlt (optStep_nop hnop) h

theorem OptAccepts.option (hend : opt off ≠ tcpOptEndOfOptions) (hnop : opt off ≠ tcpOptNoOp)
    (hin : off + 2 ≤ n) (hlen : ProperLen k (opt off) (opt (off + 1)))
    (h : OptAccepts k opt n (off + (opt (off + 1)).toNat) (s.mark k (opt off) off) o) :
    OptAccepts k opt n off s o :=
  .move (by omega) (optStep_option hend hnop hin hlen) h

/-- Induction over an accepted area, by the kinds of its options. -/
theorem OptAccepts.rec_on {P : ℕ → TcpOpts → Prop} (h : OptAccepts k opt n off s o)
    (out : ∀ off, ¬ off < n → P off o)
    (fin : ∀ off, off < n → opt off = tcpOptEndOfOptions → P off o)
    (nop : ∀ off s, off < n → opt off = tcpOptNoOp → P (off + 1) s → P off s)
    (option : ∀ off s, opt off ≠ tcpOptEndOfOptions → opt off ≠ tcpOptNoOp → off + 2 ≤ n →
      ProperLen k (opt off) (opt (off + 1)) →
      P (off + (opt (off + 1)).toNat) (s.mark k (opt off) off) → P off s) : P off s := by
  unfold OptAccepts at h
  generalize hr : ((0 : ℤ), o) = r at h
  induction h with
  | out hlt =>
    obtain ⟨_, rfl⟩ := Prod.mk.inj hr
    exact out _ hlt
  | @stop off s r hlt hstep =>
    subst hr
    by_cases hend : opt off = tcpOptEndOfOptions
    · have hstop := Cursor.Next.stop.inj ((optStep_end hend).symm.trans hstep)
      obtain ⟨_, rfl⟩ := Prod.mk.inj hstop
      exact fin off hlt hend
    by_cases hnop : opt off = tcpOptNoOp
    · cases (optStep_nop hnop).symm.trans hstep
    by_cases hok : off + 2 ≤ n ∧ ProperLen k (opt off) (opt (off + 1))
    · cases (optStep_option hend hnop hok.1 hok.2).symm.trans hstep
    · have hstop := Cursor.Next.stop.inj ((optStep_reject hend hnop hok).symm.trans hstep)
      exact absurd (Prod.mk.inj hstop).1 (by decide)
  | move hlt hstep _ ih =>
    obtain ⟨hnop, rfl, rfl⟩ | ⟨hend, hnop, hin, hlen, rfl, rfl⟩ := optStep_move hstep
    · exact nop _ _ hlt hnop (ih hr)
    · exact option _ _ hend hnop hin hlen (ih hr)

/-- The loop reads only the option area. -/
theorem OptAccepts.congr (h : OptAccepts k opt n off s o) (heq : ∀ i < n, opt' i = opt i) :
    OptAccepts k opt' n off s o := by
  refine OptAccepts.rec_on (P := fun off s => OptAccepts k opt' n off s o) h ?_ ?_ ?_ ?_
  · intro off hlt
    exact .out hlt
  · intro off hlt hend
    exact .stop hlt (optStep_end (by rw [heq off hlt, hend]))
  · intro off s hlt hnop ih
    exact .nop hlt (by rw [heq off hlt, hnop]) ih
  · intro off s hend hnop hin hlen ih
    have hkind := heq off (by omega)
    have hbyte := heq (off + 1) (by omega)
    apply OptAccepts.option
    · rwa [hkind]
    · rwa [hkind]
    · exact hin
    · rwa [hkind, hbyte]
    · rwa [hkind, hbyte]

theorem OptReaches.nop (h : OptReaches k opt n off s) (hlt : off < n)
    (hnop : opt off = tcpOptNoOp) : OptReaches k opt n (off + 1) s :=
  .move h hlt (optStep_nop hnop)

theorem OptReaches.option (h : OptReaches k opt n off s) (hend : opt off ≠ tcpOptEndOfOptions)
    (hnop : opt off ≠ tcpOptNoOp) (hin : off + 2 ≤ n)
    (hlen : ProperLen k (opt off) (opt (off + 1))) :
    OptReaches k opt n (off + (opt (off + 1)).toNat) (s.mark k (opt off) off) :=
  .move h (by omega) (optStep_option hend hnop hin hlen)

/-- Where an accepting loop comes by an option, its length is proper. -/
theorem OptAccepts.properLen (h : OptAccepts k opt n off s o) (hlt : off < n)
    (hend : opt off ≠ tcpOptEndOfOptions) (hnop : opt off ≠ tcpOptNoOp) :
    off + 2 ≤ n ∧ ProperLen k (opt off) (opt (off + 1)) := by
  by_contra hbad
  cases h with
  | out hnot => exact hnot hlt
  | stop _ hstep =>
    have hstop := Cursor.Next.stop.inj ((optStep_reject hend hnop hbad).symm.trans hstep)
    exact absurd (Prod.mk.inj hstop).1 (by decide)
  | move _ hstep => cases (optStep_reject hend hnop hbad).symm.trans hstep

/-- An accepting loop of another parser comes by the same positions. -/
theorem OptReaches.other (h : OptReaches k opt n off s) (hacc : OptAccepts k' opt n 0 {} o) :
    ∃ s', OptReaches k' opt n off s' := by
  induction h with
  | start => exact ⟨_, .start⟩
  | move _ hlt hstep ih =>
    obtain ⟨s', hreach⟩ := ih
    obtain ⟨hnop, rfl, _⟩ | ⟨hend, hnop, _, _, rfl, _⟩ := optStep_move hstep
    · exact ⟨_, hreach.nop hlt hnop⟩
    · obtain ⟨hin, hlen⟩ := OptAccepts.properLen (hreach.ends hacc) hlt hend hnop
      exact ⟨_, hreach.option hend hnop hin hlen⟩

end Accepts

/-! ### Termination -/

/-- The four parsers. -/
inductive OptParser
  | fast
  | fastGre
  | slow
  | slowGre
deriving DecidableEq

namespace OptParser

variable {P Q : OptParser} {pkt pkt' : ℕ → Byte} {len len' : U16} {iters : ℕ} {r : ℤ × TcpOpts}
  {k : Bool} {opt : ℕ → Byte} {n off : ℕ} {s : TcpOpts}

def parse : OptParser → (ℕ → Byte) → U16 → ℕ → Option (ℤ × TcpOpts)
  | fast => tcpParseOptions
  | fastGre => tcpParseOptionsGre
  | slow => parseOptions
  | slowGre => parseOptionsGre

def knowsMss : OptParser → Bool
  | fast | fastGre => false
  | slow | slowGre => true

/-- Bytes before the options. -/
def size : OptParser → ℕ
  | fast | slow => pktTcpSize
  | fastGre | slowGre => pktGreSize

def hdrlen (P : OptParser) (pkt : ℕ → Byte) : ℕ := (tcphHdrlen pkt (P.size - tcpHdrSize)).toNat

/-- Number of option bytes by the header. -/
def optBytes (P : OptParser) (pkt : ℕ → Byte) : ℕ := P.hdrlen pkt * 4 - 20

def area (P : OptParser) (pkt : ℕ → Byte) : ℕ → Byte := fun i => pkt (P.size + i)

/-- The parser starts with the options. -/
def Starts (P : OptParser) (pkt : ℕ → Byte) (len : U16) : Prop :=
  ¬ (P.hdrlen pkt < 5 ∨
    BitVec.ofNat 64 (P.optBytes pkt) > len.setWidth 64 - BitVec.ofNat 64 P.size)

theorem parse_eq : P.parse pkt len iters =
    if P.hdrlen pkt < 5 ∨
      BitVec.ofNat 64 (P.optBytes pkt) > len.setWidth 64 - BitVec.ofNat 64 P.size then some (-1, {})
    else Cursor.walk (optStep P.knowsMss (P.area pkt) (P.optBytes pkt)) (fun o => (0, o))
      (P.optBytes pkt) iters 0 {} := by
  cases P <;> rfl

theorem parse_of_starts (h : P.Starts pkt len) : P.parse pkt len iters =
    Cursor.walk (optStep P.knowsMss (P.area pkt) (P.optBytes pkt)) (fun o => (0, o))
      (P.optBytes pkt) iters 0 {} := by
  rw [parse_eq, if_neg h]

theorem parse_of_not_starts (h : ¬ P.Starts pkt len) : P.parse pkt len iters = some (-1, {}) := by
  rw [parse_eq, if_pos (not_not.mp h)]

/-- An option with the length byte 0 of a kind that the parser does not know. -/
def ZeroOption (k : Bool) (opt : ℕ → Byte) (n off : ℕ) : Prop :=
  off + 2 ≤ n ∧ opt off ≠ tcpOptEndOfOptions ∧ opt off ≠ tcpOptNoOp ∧
    opt off ≠ tcpOptTimestamp ∧ ¬ (k = true ∧ opt off = tcpOptMss) ∧ opt (off + 1) = 0

/-- The parser comes by an option with the length byte 0. -/
def Stalls (P : OptParser) (pkt : ℕ → Byte) (len : U16) : Prop :=
  P.Starts pkt len ∧ ∃ off s, OptReaches P.knowsMss (P.area pkt) (P.optBytes pkt) off s ∧
    ZeroOption P.knowsMss (P.area pkt) (P.optBytes pkt) off

theorem zeroOption_stuck (h : ZeroOption k opt n off) : optStep k opt n off s = .move 0 s := by
  obtain ⟨hin, hend, hnop, hts, hmss, hzero⟩ := h
  have hlen : ProperLen k (opt off) (opt (off + 1)) :=
    ⟨fun h => absurd h hts, fun hk h => absurd ⟨hk, h⟩ hmss⟩
  rw [optStep_option hend hnop hin hlen, hzero]
  unfold TcpOpts.mark
  rw [if_neg hts, if_neg hmss]
  rfl

/-- A step that does not move forward is at an option with the length byte 0. -/
theorem zeroOption_of_move {s' : TcpOpts}
    (h : optStep k opt n off s = .move 0 s') : ZeroOption k opt n off := by
  obtain ⟨_, hw, _⟩ | ⟨hend, hnop, hin, hlen, hw, _⟩ := optStep_move h
  · cases hw
  · have hzero : opt (off + 1) = 0 := BitVec.eq_of_toNat_eq hw.symm
    refine ⟨hin, hend, hnop, fun hts => ?_, fun hmss => ?_, hzero⟩
    · exact absurd (hzero.symm.trans (hlen.1 hts)) (by decide)
    · exact absurd (hzero.symm.trans (hlen.2 hmss.1 hmss.2)) (by decide)

theorem parse_of_stalls (h : P.Stalls pkt len) : P.parse pkt len iters = none := by
  obtain ⟨hstarts, off, s, hreach, hzero⟩ := h
  rw [parse_of_starts hstarts]
  exact hreach.walk_stuck (by have := hzero.1; omega) (zeroOption_stuck hzero)

theorem parse_of_not_stalls (h : ¬ P.Stalls pkt len) :
    ∃ r, P.parse pkt len (P.optBytes pkt) = some r := by
  by_cases hstarts : P.Starts pkt len
  · rw [parse_of_starts hstarts]
    refine Cursor.walk_ends (fun off s w s' hreach _ hstep => ?_) .start (by omega)
    apply Nat.pos_of_ne_zero
    rintro rfl
    exact h ⟨hstarts, off, s, hreach, zeroOption_of_move hstep⟩
  · exact ⟨_, parse_of_not_starts hstarts⟩

end OptParser

/-- The option loops end, with one iteration for each option byte at most, exactly for the packets
in which no parser comes by an option of length 0 of a kind that it does not know. -/
theorem option_loops_end_iff {pkt : ℕ → Byte} {len : U16} :
    (∀ P : OptParser, ∃ r, P.parse pkt len (P.optBytes pkt) = some r) ↔
      ∀ P : OptParser, ¬ P.Stalls pkt len := by
  constructor
  · intro h P hstalls
    obtain ⟨r, hr⟩ := h P
    exact nomatch (OptParser.parse_of_stalls hstalls).symm.trans hr
  · intro h P
    exact OptParser.parse_of_not_stalls (h P)

/-- A header with four option bytes, the first of which is of kind 3, with the length byte 0. -/
def zeroLengthPacket (size : ℕ) : ℕ → Byte := fun i =>
  if i = size - tcpHdrSize + 12 then 0x60 else if i = size then 3 else 0

/-- On this packet none of the parsers ever returns. -/
theorem zero_length_option_loops :
    ¬ ∃ (P : OptParser) (iters : ℕ), P.parse (zeroLengthPacket P.size) 100 iters ≠ none := by
  rintro ⟨P, iters, hsome⟩
  apply hsome
  have hstarts : P.Starts (zeroLengthPacket P.size) 100 := by
    unfold OptParser.Starts
    cases P <;> decide
  have hzero : OptParser.ZeroOption P.knowsMss (P.area (zeroLengthPacket P.size))
      (P.optBytes (zeroLengthPacket P.size)) 0 := by
    unfold OptParser.ZeroOption
    cases P <;> decide
  exact OptParser.parse_of_stalls ⟨hstarts, 0, {}, .start, hzero⟩

/-! ### Options by the grammar -/

/-- The area splits into these options from a position on. -/
abbrev OptSplits (opt : ℕ → Byte) (n : ℕ) : ℕ → List Tlv.Item → Prop :=
  Tlv.Splits tcpOptEndOfOptions tcpOptNoOp opt n

/-- The option at a position has room for kind and length, ends inside of the area, and is of the
proper length if it is an MSS option. -/
def OptionOk (opt : ℕ → Byte) (n off : ℕ) : Prop :=
  2 ≤ (opt (off + 1)).toNat ∧ off + (opt (off + 1)).toNat ≤ n ∧
    (opt off = tcpOptMss → opt (off + 1) = tcpMssOptSize)

/-- All options that the loop comes by are like that. -/
def OptionsOk (k : Bool) (opt : ℕ → Byte) (n : ℕ) : Prop :=
  ∀ off s, OptReaches k opt n off s → off < n → opt off ≠ tcpOptEndOfOptions →
    opt off ≠ tcpOptNoOp → OptionOk opt n off

/-- The returned pointers are the last options of their kind, and these are of proper length. -/
structure LastOptions (k : Bool) (items : List Tlv.Item) (o : TcpOpts) : Prop where
  ts : o.ts = Tlv.lastOf tcpOptTimestamp items
  tsLen : ∀ it ∈ items, it.kind = tcpOptTimestamp → it.len = tcpTimestampOptSize.toNat
  mss : k = true → o.mss = Tlv.lastOf tcpOptMss items
  mssLen : k = true → ∀ it ∈ items, it.kind = tcpOptMss → it.len = tcpMssOptSize.toNat

section Grammar

variable {k k' : Bool} {opt : ℕ → Byte} {n off : ℕ} {s s' o : TcpOpts} {items : List Tlv.Item}

/-- An accepted area splits into options, if those that the loop comes by are as they should be. -/
theorem OptAccepts.splits (h : OptAccepts k opt n off s o) (hok : OptionsOk k opt n)
    (hreach : OptReaches k opt n off s) (hle : off ≤ n) :
    ∃ items, OptSplits opt n off items ∧
      o.ts = (Tlv.lastOf tcpOptTimestamp items).or s.ts ∧
      (k = true → o.mss = (Tlv.lastOf tcpOptMss items).or s.mss) ∧
      ∀ it ∈ items, ∃ len : Byte, it.len = len.toNat ∧ ProperLen k it.kind len := by
  revert hreach hle
  refine OptAccepts.rec_on (P := fun off s => OptReaches k opt n off s → off ≤ n →
    ∃ items, OptSplits opt n off items ∧ o.ts = (Tlv.lastOf tcpOptTimestamp items).or s.ts ∧
      (k = true → o.mss = (Tlv.lastOf tcpOptMss items).or s.mss) ∧
      ∀ it ∈ items, ∃ len : Byte, it.len = len.toNat ∧ ProperLen k it.kind len) h ?_ ?_ ?_ ?_
  · intro off hnot _ hle
    obtain rfl : off = n := by omega
    exact ⟨[], .out, rfl, fun _ => rfl, nofun⟩
  · intro off hlt hend _ _
    exact ⟨[], .fin hlt hend, rfl, fun _ => rfl, nofun⟩
  · intro off s hlt hnop ih hreach _
    obtain ⟨items, hsplits, hrest⟩ := ih (hreach.nop hlt hnop) hlt
    exact ⟨items, .nop hlt hnop hsplits, hrest⟩
  · intro off s hend hnop hin hlen ih hreach _
    obtain ⟨htwo, hfits, _⟩ := hok off s hreach (by omega) hend hnop
    obtain ⟨items, hsplits, hts, hmss, hproper⟩ :=
      ih (hreach.option hend hnop hin hlen) hfits
    refine ⟨_, .item hend hnop htwo hfits hsplits, ?_, fun hk => ?_, fun it hit => ?_⟩
    · rw [hts, ← Tlv.lastOf_or_cons]
      rfl
    · rw [hmss hk, ← Tlv.lastOf_or_cons]
      unfold TcpOpts.mark
      simp only [hk, true_and]
    · obtain rfl | hit := List.mem_cons.1 hit
      · exact ⟨_, rfl, hlen⟩
      · exact hproper it hit

theorem OptAccepts.lastOptions (h : OptAccepts k opt n 0 {} o) (hok : OptionsOk k opt n) :
    ∃ items, OptSplits opt n 0 items ∧ LastOptions k items o := by
  obtain ⟨items, hsplits, hts, hmss, hproper⟩ := h.splits hok .start (Nat.zero_le n)
  rw [Option.or_none] at hts
  refine ⟨items, hsplits, hts, fun it hit hkind => ?_, fun hk => ?_, fun hk it hit hkind => ?_⟩
  · obtain ⟨len, hlen, hp⟩ := hproper it hit
    rw [hlen, hp.1 hkind]
  · rw [hmss hk, Option.or_none]
  · obtain ⟨len, hlen, hp⟩ := hproper it hit
    rw [hlen, hp.2 hk hkind]

/-- What two parsers found at the same position. -/
structure SameOpts (k k' : Bool) (o o' : TcpOpts) : Prop where
  ts : o'.ts = o.ts
  mss : k = true → k' = true → o'.mss = o.mss

theorem SameOpts.mark {kind : Byte} (h : SameOpts k k' s s') :
    SameOpts k k' (s.mark k kind off) (s'.mark k' kind off) := by
  constructor
  · change (if _ then _ else s'.ts) = if _ then _ else s.ts
    rw [h.ts]
  · intro hk hk'
    unfold TcpOpts.mark
    simp only [hk, hk', h.mss hk hk']

/-- The other parsers accept the area too, with the same options. -/
theorem OptAccepts.other (h : OptAccepts k opt n off s o) (hok : OptionsOk k opt n)
    (hreach : OptReaches k opt n off s) (hsame : SameOpts k k' s s') :
    ∃ o', OptAccepts k' opt n off s' o' ∧ SameOpts k k' o o' := by
  suffices hall : ∀ s', SameOpts k k' s s' → OptReaches k opt n off s →
      ∃ o', OptAccepts k' opt n off s' o' ∧ SameOpts k k' o o' from hall s' hsame hreach
  refine OptAccepts.rec_on (P := fun off s => ∀ s', SameOpts k k' s s' →
    OptReaches k opt n off s → ∃ o', OptAccepts k' opt n off s' o' ∧ SameOpts k k' o o') h
    ?_ ?_ ?_ ?_
  · intro off hnot s' hsame _
    exact ⟨s', .out hnot, hsame⟩
  · intro off hlt hend s' hsame _
    exact ⟨s', .stop hlt (optStep_end hend), hsame⟩
  · intro off s hlt hnop ih s' hsame hreach
    obtain ⟨o', hacc, hlast⟩ := ih s' hsame (hreach.nop hlt hnop)
    exact ⟨o', .nop hlt hnop hacc, hlast⟩
  · intro off s hend hnop hin hlen ih s' hsame hreach
    have hmss := (hok off s hreach (by omega) hend hnop).2.2
    obtain ⟨o', hacc, hlast⟩ := ih _ hsame.mark (hreach.option hend hnop hin hlen)
    exact ⟨o', .option hend hnop hin ⟨hlen.1, fun _ => hmss⟩ hacc, hlast⟩

/-- By the grammar the loop comes only by positions where options start. -/
theorem OptReaches.splits (h : OptReaches k opt n off s) (hsplits : OptSplits opt n 0 items) :
    ∃ items, OptSplits opt n off items := by
  induction h with
  | start => exact ⟨items, hsplits⟩
  | move _ hlt hstep ih =>
    obtain ⟨items, hsplits⟩ := ih
    obtain ⟨hnop, rfl, _⟩ | ⟨hend, hnop, _, _, rfl, _⟩ := optStep_move hstep
    · cases hsplits with
      | out => omega
      | fin _ hfin => exact absurd (hnop.symm.trans hfin) (by decide)
      | nop _ _ hrest => exact ⟨_, hrest⟩
      | item _ hne => exact absurd hnop hne
    · cases hsplits with
      | out => omega
      | fin _ hfin => exact absurd hfin hend
      | nop _ hnop' => exact absurd hnop' hnop
      | item _ _ _ _ hrest => exact ⟨_, hrest⟩

/-- If the area splits by the grammar and a parser accepts it that knows the MSS option, then all
options are as they should be. -/
theorem optionsOk_of_splits (hsplits : OptSplits opt n 0 items)
    (hacc : OptAccepts true opt n 0 {} o) : OptionsOk k opt n := by
  intro off s hreach hlt hend hnop
  obtain ⟨s', hreach'⟩ := hreach.other hacc
  have hproper := (OptAccepts.properLen (hreach'.ends hacc) hlt hend hnop).2
  obtain ⟨items, hrest⟩ := hreach.splits hsplits
  cases hrest with
  | out => omega
  | fin _ hfin => exact absurd hfin hend
  | nop _ hnop' => exact absurd hnop' hnop
  | item _ _ htwo hfits _ => exact ⟨htwo, hfits, hproper.2 rfl⟩

end Grammar

namespace OptParser

variable {P Q : OptParser} {pkt pkt' : ℕ → Byte} {len len' : U16} {iters : ℕ} {o : TcpOpts}

/-- The parser returns 0 with these options. -/
def Returns (P : OptParser) (pkt : ℕ → Byte) (len : U16) (o : TcpOpts) : Prop :=
  ∃ iters, P.parse pkt len iters = some (0, o)

/-- The second packet has the same options as the first one, all of them in the packet. -/
structure SameArea (P Q : OptParser) (pkt pkt' : ℕ → Byte) (len' : U16) : Prop where
  starts : Q.Starts pkt' len'
  bytes : Q.optBytes pkt' = P.optBytes pkt
  area : ∀ i < P.optBytes pkt, Q.area pkt' i = P.area pkt i

/-- What the parser returns for a packet is what the grammar says, and all parsers return the same
for the same options. -/
def Faithful (P : OptParser) (pkt : ℕ → Byte) (len : U16) : Prop :=
  ∀ o, P.Returns pkt len o →
    (∃ items, OptSplits (P.area pkt) (P.optBytes pkt) 0 items ∧ LastOptions P.knowsMss items o) ∧
    ∀ Q pkt' len', SameArea P Q pkt pkt' len' →
      ∃ o', Q.Returns pkt' len' o' ∧ SameOpts P.knowsMss Q.knowsMss o o'

theorem returns_iff : P.Returns pkt len o ↔ P.Starts pkt len ∧
    OptAccepts P.knowsMss (P.area pkt) (P.optBytes pkt) 0 {} o := by
  by_cases hstarts : P.Starts pkt len
  · unfold Returns OptAccepts
    rw [Cursor.ends_iff_walk]
    simp only [parse_of_starts hstarts, hstarts, true_and]
  · constructor
    · rintro ⟨iters, h⟩
      have hret := Option.some.inj ((parse_of_not_starts hstarts).symm.trans h)
      exact absurd (Prod.mk.inj hret).1 (by decide)
    · intro h
      exact absurd h.1 hstarts

/-- The parser of the slow path for the same packets. -/
def inSlowPath : OptParser → OptParser
  | fast | slow => slow
  | fastGre | slowGre => slowGre

theorem inSlowPath_same (h : P.Starts pkt len) : SameArea P P.inSlowPath pkt pkt len := by
  cases P <;> exact ⟨h, rfl, fun _ _ => rfl⟩

end OptParser

/-- A parser that returns 0 returns the options that the grammar gives, and agrees with the other
parsers, exactly if all options that its loop comes by then have a length of at least 2, end inside
of the area, and are of the proper length if they are MSS options. -/
theorem options_faithful_iff {P : OptParser} {pkt : ℕ → Byte} {len : U16} :
    P.Faithful pkt len ↔ ((∃ o, P.Returns pkt len o) →
      OptionsOk P.knowsMss (P.area pkt) (P.optBytes pkt)) := by
  constructor
  · rintro h ⟨o, hret⟩
    obtain ⟨hstarts, _⟩ := OptParser.returns_iff.1 hret
    obtain ⟨⟨items, hsplits, _⟩, hothers⟩ := h o hret
    -- the slow path accepts the same packet, so that MSS options are of the proper length
    obtain ⟨o', hret', _⟩ := hothers _ _ _ (OptParser.inSlowPath_same hstarts)
    have hacc := (OptParser.returns_iff.1 hret').2
    cases P <;> exact optionsOk_of_splits hsplits hacc
  · intro hok o hret
    have hok := hok ⟨o, hret⟩
    obtain ⟨hstarts, hacc⟩ := OptParser.returns_iff.1 hret
    refine ⟨hacc.lastOptions hok, fun Q pkt' len' hsame => ?_⟩
    obtain ⟨o', hacc', hlast⟩ :=
      @OptAccepts.other P.knowsMss Q.knowsMss _ _ 0 {} {} o hacc hok .start ⟨rfl, fun _ _ => rfl⟩
    refine ⟨o', OptParser.returns_iff.2 ⟨hsame.starts, ?_⟩, hlast⟩
    rw [hsame.bytes]
    exact hacc'.congr hsame.area

/-- A plain packet with four option bytes, the last two of which are zero. -/
def optionPacket (kind len : Byte) : ℕ → Byte := fun i =>
  if i = 46 then 0x60 else if i = 54 then kind else if i = 55 then len else 0

/-- A timestamp option of ten bytes is found in an area of four bytes, and an MSS option of length 2
is skipped by the fast path and rejected by the slow path. -/
theorem overrunning_option_returned :
    (OptParser.fast.Returns (optionPacket 8 10) 100 ⟨some 0, none⟩ ∧
      OptParser.fast.optBytes (optionPacket 8 10) = 4 ∧
      ¬ ∃ items, OptSplits (OptParser.fast.area (optionPacket 8 10)) 4 0 items) ∧
    OptParser.fast.Returns (optionPacket 2 2) 100 {} ∧
      OptParser.slow.parse (optionPacket 2 2) 100 4 = some (-1, {}) := by
  refine ⟨⟨⟨4, by decide⟩, by decide, ?_⟩, ⟨4, by decide⟩, by decide⟩
  rintro ⟨items, h⟩
  generalize hoff : 0 = off at h
  cases h with
  | out => cases hoff
  | fin _ hfin =>
    subst hoff
    exact absurd hfin (by decide)
  | nop _ hnop =>
    subst hoff
    exact absurd hnop (by decide)
  | item _ _ _ hfits _ =>
    subst hoff
    exact absurd hfits (by decide)

/-! ### The parser in the model of the slow path -/

/-- The value of the timestamp option at `off`. -/
def tsValueAt (opt : ℕ → Byte) (off : ℕ) : U32 :=
  opt (off + 2) ++ opt (off + 3) ++ opt (off + 4) ++ opt (off + 5)

/-- What the slow path takes from the result of the parser. -/
def slowView (opt : ℕ → Byte) : Option (ℤ × TcpOpts) → Parsed
  | none => .hangs
  | some (ret, o) => if ret = 0 then .ok (o.ts.map (tsValueAt opt)) else .failed

section SlowView

variable {opt : ℕ → Byte} {n off fuel : ℕ} {s : TcpOpts}

theorem parseLoop_option {ts : Option U32} (hlt : off < n) (hend : opt off ≠ tcpOptEndOfOptions)
    (hnop : opt off ≠ tcpOptNoOp) :
    parseLoop opt n (fuel + 1) off ts =
      if off + 2 ≤ n ∧ ProperLen true (opt off) (opt (off + 1)) then
        if opt (off + 1) = 0 then .hangs
        else parseLoop opt n fuel (off + (opt (off + 1)).toNat)
          (if opt off = tcpOptTimestamp then some (tsValueAt opt off) else ts)
      else .failed := by
  have hend : opt off ≠ 0 := hend
  have hnop : opt off ≠ 1 := hnop
  rw [parseLoop, if_neg (by omega), if_neg hend, if_neg hnop]
  by_cases hin : off + 2 ≤ n
  · rw [if_neg (by omega)]
    by_cases hmss : opt off = 2 ∧ opt (off + 1) ≠ 4
    · rw [if_pos hmss, if_neg fun h => hmss.2 (h.2.2 rfl hmss.1)]
    · rw [if_neg hmss]
      by_cases hts : opt off = 8 ∧ opt (off + 1) ≠ 10
      · rw [if_pos hts, if_neg fun h => hts.2 (h.2.1 hts.1)]
      · have hlen : ProperLen true (opt off) (opt (off + 1)) :=
          ⟨fun h => by_contra fun hne => hts ⟨h, hne⟩,
            fun _ h => by_contra fun hne => hmss ⟨h, hne⟩⟩
        rw [if_neg hts, if_pos (And.intro hin hlen)]
        rfl
  · rw [if_pos (by omega), if_neg fun h => hin h.1]

theorem parseLoop_eq_walk (hfuel : n ≤ off + fuel) :
    parseLoop opt n (fuel + 1) off (s.ts.map (tsValueAt opt)) =
      slowView opt (Cursor.walk (optStep true opt n) (fun o => (0, o)) n fuel off s) := by
  induction fuel generalizing off s with
  | zero =>
    rw [parseLoop, if_pos (by omega), Cursor.walk, if_neg (by omega)]
    rfl
  | succ fuel ih =>
    by_cases hlt : off < n
    · rw [Cursor.walk, if_pos hlt]
      by_cases hend : opt off = tcpOptEndOfOptions
      · have hzero : opt off = 0 := hend
        rw [parseLoop, if_neg (by omega), if_pos hzero, optStep_end hend]
        rfl
      by_cases hnop : opt off = tcpOptNoOp
      · have hone : opt off = 1 := hnop
        have hnotend : opt off ≠ 0 := hend
        rw [parseLoop, if_neg (by omega), if_neg hnotend, if_pos hone, optStep_nop hnop]
        exact ih (by omega)
      rw [parseLoop_option hlt hend hnop]
      by_cases hok : off + 2 ≤ n ∧ ProperLen true (opt off) (opt (off + 1))
      · rw [if_pos hok, optStep_option hend hnop hok.1 hok.2]
        by_cases hzero : opt (off + 1) = 0
        · -- the loop stays at this option
          have hmove : optStep true opt n off s = .move 0 (s.mark true (opt off) off) := by
            rw [optStep_option hend hnop hok.1 hok.2, hzero]
            rfl
          have hstuck := OptParser.zeroOption_stuck (OptParser.zeroOption_of_move hmove) (s := s)
          obtain ⟨_, hs⟩ := Cursor.Next.move.inj (hmove.symm.trans hstuck)
          rw [if_pos hzero, hzero, hs]
          dsimp only
          rw [show off + (0 : Byte).toNat = off from rfl, Cursor.walk_stuck hlt hstuck]
          rfl
        · have hpos : (opt (off + 1)).toNat ≠ 0 := fun h => hzero (BitVec.eq_of_toNat_eq h)
          rw [if_neg hzero]
          dsimp only
          rw [← ih (by omega)]
          unfold TcpOpts.mark
          split_ifs <;> rfl
      · rw [if_neg hok, optStep_reject hend hnop hok]
        rfl
    · rw [parseLoop, if_pos (by omega), Cursor.walk, if_neg hlt]
      rfl

end SlowView

/-- The slow path handles a packet by what its parser returns for the bytes of the packet. -/
theorem parseOptions_eq_view {r : RxPacket} {pkt : ℕ → Byte} {len : U16} :
    parseOptions ⟨{ r with hdrlen := tcphHdrlen pkt 34 }, OptParser.slow.area pkt⟩ len =
      slowView (OptParser.slow.area pkt)
        (OptParser.parseOptions pkt len (OptParser.slow.optBytes pkt)) := by
  have hstarts : (tcphHdrlen pkt 34 < 5 ∨ (pktTcpSize ≤ len.toNat ∧
      len.toNat - pktTcpSize < (tcphHdrlen pkt 34).toNat * 4 - 20)) ↔
      ¬ OptParser.slow.Starts pkt len := by
    have hlen := len.isLt
    have hhdrlt := (tcphHdrlen pkt 34).isLt
    have hfive : OptParser.slow.hdrlen pkt = (tcphHdrlen pkt 34).toNat := rfl
    unfold OptParser.Starts OptParser.optBytes
    rw [not_not, hfive, show OptParser.slow.size = 54 from rfl, show pktTcpSize = 54 from rfl]
    bv_omega
  by_cases h : OptParser.slow.Starts pkt len
  · have hwalk := @OptParser.parse_of_starts .slow pkt len (OptParser.slow.optBytes pkt) h
    have hloop := @parseLoop_eq_walk (OptParser.slow.area pkt) (OptParser.slow.optBytes pkt) 0
      (OptParser.slow.optBytes pkt) {} (by omega)
    rw [show OptParser.parseOptions = OptParser.slow.parse from rfl, hwalk]
    exact (if_neg fun hbad => hstarts.1 hbad h).trans hloop
  · rw [show OptParser.parseOptions = OptParser.slow.parse from rfl,
      OptParser.parse_of_not_starts h]
    exact if_pos (hstarts.2 h)

end Tas
