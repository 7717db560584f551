import Tas.TcpOptions

/-! The checks that a packet has to pass before it is processed as a segment of a flow,
`fast_flows_packet_parse` and `fast_flows_packet_parse_gre`, and the payload that is then cut out
of it. -/
namespace Tas

def ethTypeIp : U16 := 0x0800
def ipProtoTcp : Byte := 6
def ipProtoGre : Byte := 47
def greProtoIp : U16 := 0x0800

/-- `IPH_V` of the IP header at `o`. -/
def iphV (b : ℕ → Byte) (o : ℕ) : Byte := b o >>> 4

/-- `IPH_HL` of the IP header at `o`. -/
def iphHl (b : ℕ → Byte) (o : ℕ) : Byte := b o &&& 0x0f

/-- What becomes of the flow of a packet: nothing if the option loop still runs after `iters`
iterations, otherwise the options if the flow is kept. The terms of the condition are joined by
`|`, so that the options are parsed in any case. -/
def gate (parse : (ℕ → Byte) → U16 → ℕ → Option (ℤ × TcpOpts)) (dropped : Bool) (pkt : ℕ → Byte)
    (len : U16) (iters : ℕ) : Option (Option TcpOpts) :=
  match parse pkt len iters with
  | none => none
  | some (ret, o) => some (if dropped || ret != 0 || o.ts == none then none else some o)

/-- One packet in the loop of `fast_flows_packet_parse`. -/
def fastFlowsPacketParse (pkt : ℕ → Byte) (len : U16) : ℕ → Option (Option TcpOpts) :=
  gate OptParser.tcpParseOptions
    (decide (len.toNat < pktTcpSize) ||
      be16 pkt 12 != ethTypeIp ||
      pkt (14 + 9) != ipProtoTcp ||
      iphV pkt 14 != 4 ||
      iphHl pkt 14 != 5 ||
      decide (tcphHdrlen pkt 34 < 5) ||
      decide (len.toNat < (be16 pkt (14 + 2)).toNat + 14)) pkt len

/-- One packet in the loop of `fast_flows_packet_parse_gre`. -/
def fastFlowsPacketParseGre (pkt : ℕ → Byte) (len : U16) : ℕ → Option (Option TcpOpts) :=
  gate OptParser.tcpParseOptionsGre
    (decide (len.toNat < pktGreSize) ||
      be16 pkt 12 != ethTypeIp ||
      pkt (14 + 9) != ipProtoGre ||
      pkt (42 + 9) != ipProtoTcp ||
      be16 pkt (34 + 2) != greProtoIp ||
      iphV pkt 14 != 4 ||
      iphHl pkt 14 != 5 ||
      iphV pkt 42 != 4 ||
      iphHl pkt 42 != 5 ||
      decide (tcphHdrlen pkt 62 < 5) ||
      decide (len.toNat < (be16 pkt (14 + 2)).toNat + 14)) pkt len

/-- The packet keeps its flow, with these options. -/
def Admitted (pkt : ℕ → Byte) (len : U16) (o : TcpOpts) : Prop :=
  ∃ iters, fastFlowsPacketParse pkt len iters = some (some o)

def AdmittedGre (pkt : ℕ → Byte) (len : U16) (o : TcpOpts) : Prop :=
  ∃ iters, fastFlowsPacketParseGre pkt len iters = some (some o)

/-- The payload length is the length of the IP packet less its headers, and the payload lies in the
received bytes. -/
structure PayloadInside (ipLen : U16) (hdrlen : BitVec 4) (off : ℕ) (bytes : U32) (len : U16) :
    Prop where
  exact : (bytes.toNat : ℤ) = ipLen.toNat - (20 + 4 * hdrlen.toNat)
  inside : off + bytes.toNat ≤ len.toNat

/-- `payload_off` in `fast_flows_packet`. -/
def payloadOff (p : RxPacket) : ℕ := pktTcpSize + p.tcpExtraHlen.toNat

/-- `payload_off` in `fast_flows_packet_gre`. -/
def payloadOffGre (p : GrePacket) : ℕ := pktGreSize + p.tcpExtraHlen.toNat

/-- The gate admits the packet only if its payload is inside. -/
def GateConsistent (pkt : ℕ → Byte) (len : U16) : Prop :=
  ∀ o tsOff, Admitted pkt len o →
    let p := pktTcp pkt tsOff
    PayloadInside p.ipLen p.hdrlen (payloadOff p) p.payloadBytes len

def GateConsistentGre (pkt : ℕ → Byte) (len : U16) : Prop :=
  ∀ o tsOff, AdmittedGre pkt len o →
    let p := pktGre pkt tsOff
    PayloadInside p.inIpLen p.hdrlen (payloadOffGre p) p.payloadBytes len

/-! ### Lengths -/

section Lengths

variable {hdrlen : BitVec 4} {ipLen len : U16} {off : ℕ}

theorem extraHlen_toNat (h : 5 ≤ hdrlen.toNat) :
    ((hdrlen.setWidth 16 - 5) * 4 : U16).toNat = 4 * hdrlen.toNat - 20 := by
  have hlt := hdrlen.isLt
  have hsub : (hdrlen.setWidth 16 - 5 : U16).toNat = hdrlen.toNat - 5 := by
    rw [BitVec.toNat_sub_of_le]
    · rw [BitVec.toNat_setWidth, Nat.mod_eq_of_lt (by omega)]
      rfl
    · change (5 : U16).toNat ≤ (hdrlen.setWidth 16).toNat
      rw [BitVec.toNat_setWidth, Nat.mod_eq_of_lt (by omega)]
      exact h
  rw [BitVec.toNat_mul, hsub]
  change (hdrlen.toNat - 5) * 4 % 65536 = _
  omega

/-- `payload_bytes` as a number: it wraps around if the headers are longer than the packet. -/
theorem payload_toNat (h : 5 ≤ hdrlen.toNat) :
    (ipLen.setWidth 32 - (20 + 20 + ((hdrlen.setWidth 16 - 5) * 4 : U16).setWidth 32) : U32).toNat =
      if 20 + 4 * hdrlen.toNat ≤ ipLen.toNat then ipLen.toNat - (20 + 4 * hdrlen.toNat)
      else 2 ^ 32 + ipLen.toNat - (20 + 4 * hdrlen.toNat) := by
  have hextra := extraHlen_toNat h
  have hlt := hdrlen.isLt
  have hip := ipLen.isLt
  generalize ((hdrlen.setWidth 16 - 5) * 4 : U16) = extra at hextra ⊢
  split_ifs
  · bv_omega
  · bv_omega

/-- The payload is inside exactly if the length of the IP packet covers the headers, and the packet
that starts `before` bytes after the first byte ends in the received bytes. -/
theorem payloadInside_iff {before : ℕ} (h : 5 ≤ hdrlen.toNat) (hlen : off = before + 40) :
    PayloadInside ipLen hdrlen (off + ((hdrlen.setWidth 16 - 5) * 4 : U16).toNat)
        (ipLen.setWidth 32 - (20 + 20 + ((hdrlen.setWidth 16 - 5) * 4 : U16).setWidth 32)) len ↔
      20 + 4 * hdrlen.toNat ≤ ipLen.toNat ∧ before + ipLen.toNat ≤ len.toNat := by
  have hbytes := @payload_toNat hdrlen ipLen h
  have hextra := extraHlen_toNat h
  have hip := ipLen.isLt
  constructor
  · rintro ⟨hexact, hinside⟩
    rw [hbytes] at hexact hinside
    split_ifs at hexact hinside with hcovers
    · exact ⟨hcovers, by omega⟩
    · omega
  · rintro ⟨hcovers, hfits⟩
    rw [if_pos hcovers] at hbytes
    constructor
    · rw [hbytes]
      omega
    · rw [hbytes, hextra]
      omega

end Lengths

/-! ### What the gate checks -/

section Gate

variable {pkt : ℕ → Byte} {len : U16} {o : TcpOpts} {dropped : Bool} {iters : ℕ}
  {parse : (ℕ → Byte) → U16 → ℕ → Option (ℤ × TcpOpts)}

theorem gate_some (h : gate parse dropped pkt len iters = some (some o)) : dropped = false := by
  unfold gate at h
  cases hp : parse pkt len iters with
  | none =>
    rw [hp] at h
    cases h
  | some r =>
    rw [hp] at h
    obtain ⟨hkept, _⟩ := Option.ite_none_left_eq_some.1 (Option.some.inj h)
    simp only [Bool.or_eq_true, not_or, Bool.not_eq_true] at hkept
    exact hkept.1.1

theorem Admitted.lengths (h : Admitted pkt len o) :
    5 ≤ (tcphHdrlen pkt 34).toNat ∧ (be16 pkt (14 + 2)).toNat + 14 ≤ len.toNat := by
  obtain ⟨iters, hgate⟩ := h
  have hchecks := gate_some hgate
  simp only [Bool.or_eq_false_iff, decide_eq_false_iff_not] at hchecks
  obtain ⟨⟨_, hhdr⟩, hlen⟩ := hchecks
  exact ⟨Nat.le_of_not_lt hhdr, Nat.le_of_not_lt hlen⟩

theorem AdmittedGre.lengths (h : AdmittedGre pkt len o) : 5 ≤ (tcphHdrlen pkt 62).toNat := by
  obtain ⟨iters, hgate⟩ := h
  have hchecks := gate_some hgate
  simp only [Bool.or_eq_false_iff, decide_eq_false_iff_not] at hchecks
  obtain ⟨⟨_, hhdr⟩, _⟩ := hchecks
  exact Nat.le_of_not_lt hhdr

end Gate

/-- Admitted packets have a payload inside of the received bytes exactly if the length of the IP
packet that holds the segment covers its headers and, in a tunnel, this packet ends in the received
bytes. -/
theorem parse_gate_consistent_iff {pkt : ℕ → Byte} {len : U16} :
    (GateConsistent pkt len ↔ ∀ o, Admitted pkt len o →
      20 + 4 * (tcphHdrlen pkt 34).toNat ≤ (be16 pkt 16).toNat) ∧
    (GateConsistentGre pkt len ↔ ∀ o, AdmittedGre pkt len o →
      20 + 4 * (tcphHdrlen pkt 62).toNat ≤ (be16 pkt 44).toNat ∧
        42 + (be16 pkt 44).toNat ≤ len.toNat) := by
  refine ⟨⟨fun h o hadm => ?_, fun h o tsOff hadm => ?_⟩, fun h o hadm => ?_,
    fun h o tsOff hadm => ?_⟩
  · exact ((payloadInside_iff hadm.lengths.1 rfl).1 (h o 0 hadm)).1
  · obtain ⟨hhdr, hlen⟩ := hadm.lengths
    refine (payloadInside_iff hhdr rfl).2 ⟨h o hadm, ?_⟩
    rw [Nat.add_comm]
    exact hlen
  · exact (payloadInside_iff hadm.lengths rfl).1 (h o 0 hadm)
  · exact (payloadInside_iff hadm.lengths rfl).2 (h o hadm)

/-- A packet in a tunnel with a timestamp option, whose inner IP header gives no length. -/
def noLengthGre : ℕ → Byte := fun i =>
  if i = 12 then 8 else if i = 14 then 0x45 else if i = 23 then 47 else if i = 36 then 8
  else if i = 42 then 0x45 else if i = 51 then 6 else if i = 74 then 0x80
  else if i = 82 then 8 else if i = 83 then 10 else 0

/-- The same without a tunnel. -/
def noLengthPacket : ℕ → Byte := fun i =>
  if i = 12 then 8 else if i = 14 then 0x45 else if i = 23 then 6 else if i = 46 then 0x80
  else if i = 54 then 8 else if i = 55 then 10 else 0

/-- Packets whose IP header gives the length 0 are admitted, and their payload is almost 4 GiB. -/
theorem packet_without_length_admitted :
    (Admitted noLengthPacket 66 ⟨some 0, none⟩ ∧
      (pktTcp noLengthPacket 0).payloadBytes = 0xffffffcc) ∧
    AdmittedGre noLengthGre 94 ⟨some 0, none⟩ ∧ (pktGre noLengthGre 0).payloadBytes = 0xffffffcc :=
  ⟨⟨⟨12, by decide⟩, by decide⟩, ⟨12, by decide⟩, by decide⟩

end Tas
