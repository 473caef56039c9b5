import UdpBalancer.Translation
import UdpBalancer.RawSource

/-! The two packet builders against a reader of IPv4 and UDP headers that knows
nothing of them: what was put in comes back out, and which payloads the 16-bit
length fields can carry. -/
namespace UdpBalancer.RawSocket
open Backends

def readByte (bytes : Bytes) (i : Nat) : Nat := (bytes.getD i 0).toNat

def readU16 (bytes : Bytes) (i : Nat) : Nat := 256*readByte bytes i+readByte bytes (i+1)

def addressAt (bytes : Bytes) (i : Nat) : Ipv4Addr :=
  .new (bytes.getD i 0) (bytes.getD (i+1) 0) (bytes.getD (i+2) 0) (bytes.getD (i+3) 0)

structure UdpDatagram where
  sourcePort : UInt16
  destinationPort : UInt16
  payload : Bytes
  deriving DecidableEq, Repr

def parseUdp (segment : Bytes) : Option UdpDatagram :=
  if 8 ≤ segment.length ∧ readU16 segment 4 = segment.length then
    some ⟨.ofNat (readU16 segment 0),.ofNat (readU16 segment 2),segment.drop 8⟩
  else none

structure Ipv4Header where
  headerLength : Nat
  totalLength : Nat
  dontFragment : Bool
  moreFragments : Bool
  fragmentOffset : Nat
  protocol : Nat
  source : Ipv4Addr
  destination : Ipv4Addr
  deriving DecidableEq, Repr

def parseIpv4Header (bytes : Bytes) : Option Ipv4Header :=
  let headerLength := 4*(readByte bytes 0 % 16)
  let totalLength := readU16 bytes 2
  if 20 ≤ bytes.length ∧ readByte bytes 0/16 = 4 ∧ 20 ≤ headerLength ∧
      headerLength ≤ totalLength ∧ totalLength ≤ bytes.length then
    some ⟨headerLength,totalLength,decide (readU16 bytes 6/16384 % 2 = 1),
      decide (readU16 bytes 6/8192 % 2 = 1),readU16 bytes 6 % 8192,readByte bytes 9,
      addressAt bytes 12,addressAt bytes 16⟩
  else none

def whole (totalLength : Nat) (source destination : Ipv4Addr) : Ipv4Header :=
  ⟨20,totalLength,true,false,0,17,source,destination⟩

def parseIpv4Udp (bytes : Bytes) : Option (Ipv4Header × UdpDatagram) := do
  let header ← parseIpv4Header bytes
  if header.protocol = 17 ∧ header.moreFragments = false ∧ header.fragmentOffset = 0 then
    let datagram ← parseUdp ((bytes.take header.totalLength).drop header.headerLength)
    some (header,datagram)
  else none

def ipv4Packet (srcIp dstIp : Ipv4Addr) (srcPort dstPort : UInt16) (payload : Bytes)
    (ipChecksum udpChecksum : UInt16) : Bytes :=
  setU16 (ipv4Header srcIp dstIp (20+(8+payload.length))) 10 ipChecksum ++
    (udpHeader srcPort dstPort (8+payload.length) udpChecksum ++ payload)

theorem ipv4Built (srcIp dstIp : Ipv4Addr) (srcPort dstPort : UInt16) (payload : Bytes) :
    ∃ ipChecksum udpChecksum,
      checksum (ipv4Header srcIp dstIp (20+(8+payload.length))) = some ipChecksum ∧
      udpChecksumV4 srcIp dstIp (udpHeader srcPort dstPort (8+payload.length) 0 ++ payload) =
        some udpChecksum ∧
      buildIpv4UdpPacket srcIp dstIp srcPort dstPort payload =
        some (ipv4Packet srcIp dstIp srcPort dstPort payload ipChecksum udpChecksum) := by
  obtain ⟨ipChecksum,headed⟩ := checksumEnds (ipv4Header srcIp dstIp (20+(8+payload.length)))
  have sums : ∀ segment, ∃ c, udpChecksumV4 srcIp dstIp segment = some c :=
    fun segment => closingEnds _
  obtain ⟨udpChecksum,summed⟩ := sums (udpHeader srcPort dstPort (8+payload.length) 0 ++ payload)
  refine ⟨ipChecksum,udpChecksum,headed,summed,?_⟩
  simp only [buildIpv4UdpPacket,headed,summed,bind,Option.bind,setChecksum,ipv4Packet]

theorem ipv6Built (srcIp dstIp : Ipv6Addr) (srcPort dstPort : UInt16) (payload : Bytes) :
    ∃ udpChecksum,
      udpChecksumV6 srcIp dstIp (udpHeader srcPort dstPort (8+payload.length) 0 ++ payload) =
        some udpChecksum ∧
      buildIpv6UdpPacket srcIp dstIp srcPort dstPort payload =
        some (udpHeader srcPort dstPort (8+payload.length) udpChecksum ++ payload) := by
  have sums : ∀ segment, ∃ c, udpChecksumV6 srcIp dstIp segment = some c :=
    fun segment => closingEnds _
  obtain ⟨udpChecksum,summed⟩ := sums (udpHeader srcPort dstPort (8+payload.length) 0 ++ payload)
  refine ⟨udpChecksum,summed,?_⟩
  simp only [buildIpv6UdpPacket,summed,bind,Option.bind,setChecksum]

theorem ipv4Split (ip : Ipv4Addr) : ∃ a b c d, ip = .new a b c d := by
  obtain ⟨octets⟩ := ip
  have four := octets.length_toList
  have back : Vector.ofFn (fun i : Fin 4 => octets.toList.getD i 0) = octets := by
    ext i inside
    simp [List.getD_eq_getElem?_getD]
  exact ⟨octets.toList.getD 0 0,octets.toList.getD 1 0,octets.toList.getD 2 0,
    octets.toList.getD 3 0,congrArg Ipv4Addr.mk back.symm⟩

theorem readPort (bytes : Bytes) {i : Nat} {port : UInt16} (high : bytes.getD i 0 = highByte port)
    (low : bytes.getD (i+1) 0 = lowByte port) : readU16 bytes i = port.toNat := by
  rw [readU16,readByte,readByte,high,low,wordBytes]

theorem readLength (bytes : Bytes) {i n : Nat} (high : bytes.getD i 0 = UInt8.ofNat (n >>> 8))
    (low : bytes.getD (i+1) 0 = UInt8.ofNat n) : readU16 bytes i = n % 65536 := by
  rw [readU16,readByte,readByte,high,low,lengthBytes]

section segment
variable (srcPort dstPort : UInt16) (udpChecksum : UInt16) (payload : Bytes)

def segment : Bytes := udpHeader srcPort dstPort (8+payload.length) udpChecksum ++ payload

theorem segmentUdpLength : readU16 (segment srcPort dstPort udpChecksum payload) 4 =
    (8+payload.length) % 65536 := readLength _ rfl rfl

theorem segmentParsed (fits : payload.length ≤ 65527) :
    parseUdp (segment srcPort dstPort udpChecksum payload) =
      some ⟨srcPort,dstPort,payload⟩ := by
  have length : (segment srcPort dstPort udpChecksum payload).length = 8+payload.length :=
    segmentLength srcPort dstPort (8+payload.length) udpChecksum payload
  have udpLength := segmentUdpLength srcPort dstPort udpChecksum payload
  rw [Nat.mod_eq_of_lt (by omega)] at udpLength
  have source : readU16 (segment srcPort dstPort udpChecksum payload) 0 = srcPort.toNat :=
    readPort _ rfl rfl
  have destination : readU16 (segment srcPort dstPort udpChecksum payload) 2 = dstPort.toNat :=
    readPort _ rfl rfl
  have rest : (segment srcPort dstPort udpChecksum payload).drop 8 = payload := rfl
  rw [parseUdp,length,udpLength,if_pos ⟨Nat.le_add_right 8 _,rfl⟩,source,destination,rest,
    UInt16.ofNat_toNat,UInt16.ofNat_toNat]

end segment

section packet
variable (srcIp dstIp : Ipv4Addr) (srcPort dstPort : UInt16) (payload : Bytes)
variable (ipChecksum udpChecksum : UInt16)

theorem headerLength :
    (setU16 (ipv4Header srcIp dstIp (20+(8+payload.length))) 10 ipChecksum).length = 20 := by
  simp only [setU16,ipv4Header,List.length_set,List.length_append,List.length_cons,
    List.length_nil,Vector.length_toList]

theorem packetLength :
    (ipv4Packet srcIp dstIp srcPort dstPort payload ipChecksum udpChecksum).length =
      28+payload.length := by
  rw [ipv4Packet,List.length_append,headerLength,segmentLength]
  omega

theorem packetTotalLength :
    readU16 (ipv4Packet srcIp dstIp srcPort dstPort payload ipChecksum udpChecksum) 2 =
      (28+payload.length) % 65536 := by
  have written : readU16
      (ipv4Packet srcIp dstIp srcPort dstPort payload ipChecksum udpChecksum) 2 =
        (20+(8+payload.length)) % 65536 := readLength _ rfl rfl
  rw [written]
  omega

theorem packetSegment :
    (ipv4Packet srcIp dstIp srcPort dstPort payload ipChecksum udpChecksum).drop 20 =
      segment srcPort dstPort udpChecksum payload :=
  List.drop_left' (headerLength srcIp dstIp payload ipChecksum)

theorem packetSource :
    addressAt (ipv4Packet srcIp dstIp srcPort dstPort payload ipChecksum udpChecksum) 12 =
      srcIp := by
  obtain ⟨a,b,c,d,rfl⟩ := ipv4Split srcIp
  rfl

theorem packetDestination :
    addressAt (ipv4Packet srcIp dstIp srcPort dstPort payload ipChecksum udpChecksum) 16 =
      dstIp := by
  obtain ⟨a,b,c,d,rfl⟩ := ipv4Split srcIp
  obtain ⟨e,f,g,h,rfl⟩ := ipv4Split dstIp
  rfl

theorem headerParsed (fits : payload.length ≤ 65507) :
    parseIpv4Header (ipv4Packet srcIp dstIp srcPort dstPort payload ipChecksum udpChecksum) =
      some (whole (28+payload.length) srcIp dstIp) := by
  have length := packetLength srcIp dstIp srcPort dstPort payload ipChecksum udpChecksum
  have total := packetTotalLength srcIp dstIp srcPort dstPort payload ipChecksum udpChecksum
  rw [Nat.mod_eq_of_lt (by omega)] at total
  have source := packetSource srcIp dstIp srcPort dstPort payload ipChecksum udpChecksum
  have destination := packetDestination srcIp dstIp srcPort dstPort payload ipChecksum udpChecksum
  have first : readByte (ipv4Packet srcIp dstIp srcPort dstPort payload ipChecksum udpChecksum)
      0 = 69 := rfl
  have protocol : readByte (ipv4Packet srcIp dstIp srcPort dstPort payload ipChecksum udpChecksum)
      9 = 17 := rfl
  have fragment : readU16 (ipv4Packet srcIp dstIp srcPort dstPort payload ipChecksum udpChecksum)
      6 = 16384 := rfl
  unfold parseIpv4Header
  simp only [length,total,first,protocol,fragment,source,destination]
  refine (if_pos ?_).trans ?_
  · exact ⟨by omega,trivial,by omega,by omega,Nat.le_refl _⟩
  · simp [whole]

theorem packetParsed (fits : payload.length ≤ 65507) :
    parseIpv4Udp (ipv4Packet srcIp dstIp srcPort dstPort payload ipChecksum udpChecksum) =
      some (whole (28+payload.length) srcIp dstIp,⟨srcPort,dstPort,payload⟩) := by
  have all : (ipv4Packet srcIp dstIp srcPort dstPort payload ipChecksum udpChecksum).take
      (28+payload.length) = ipv4Packet srcIp dstIp srcPort dstPort payload ipChecksum udpChecksum :=
    List.take_of_length_le (packetLength _ _ _ _ _ _ _).le
  have udp := segmentParsed srcPort dstPort udpChecksum payload (by omega)
  simp only [parseIpv4Udp,headerParsed srcIp dstIp srcPort dstPort payload ipChecksum udpChecksum
    fits,bind,Option.bind,whole,and_self,if_true,all,packetSegment,udp]

end packet

theorem segmentOutside (srcPort dstPort a b : UInt16) (payload : Bytes) {i : Nat}
    (six : i ≠ 6) (seven : i ≠ 7) :
    (segment srcPort dstPort a payload)[i]? = (segment srcPort dstPort b payload)[i]? := by
  have patched : ∀ c, segment srcPort dstPort c payload =
      ((segment srcPort dstPort 0 payload).set 6 (highByte c)).set 7 (lowByte c) := fun _ => rfl
  rw [patched a,patched b,List.getElem?_set_ne seven.symm,List.getElem?_set_ne six.symm,
    List.getElem?_set_ne seven.symm,List.getElem?_set_ne six.symm]

theorem packetsRoundTrip :
    (∀ (srcIp dstIp : Ipv4Addr) (srcPort dstPort : UInt16) (payload : Bytes),
      payload.length ≤ 65507 →
      ∃ packet, buildIpv4UdpPacket srcIp dstIp srcPort dstPort payload = some packet ∧
        parseIpv4Udp packet =
          some (whole packet.length srcIp dstIp,⟨srcPort,dstPort,payload⟩)) ∧
    (∀ (srcIp dstIp : Ipv6Addr) (srcPort dstPort : UInt16) (payload : Bytes),
      payload.length ≤ 65527 →
      ∃ packet, buildIpv6UdpPacket srcIp dstIp srcPort dstPort payload = some packet ∧
        parseUdp packet = some ⟨srcPort,dstPort,payload⟩) ∧
    ∀ (srcV4 dstV4 : Ipv4Addr) (srcV6 dstV6 : Ipv6Addr) (srcPort dstPort : UInt16)
      (payload : Bytes), ∃ packet udp,
        buildIpv4UdpPacket srcV4 dstV4 srcPort dstPort payload = some packet ∧
        buildIpv6UdpPacket srcV6 dstV6 srcPort dstPort payload = some udp ∧
        ∀ i, i ≠ 6 → i ≠ 7 → (packet.drop 20)[i]? = udp[i]? := by
  refine ⟨?_,?_,?_⟩
  · intro srcIp dstIp srcPort dstPort payload fits
    obtain ⟨a,b,_,_,built⟩ := ipv4Built srcIp dstIp srcPort dstPort payload
    refine ⟨_,built,?_⟩
    rw [packetLength]
    exact packetParsed srcIp dstIp srcPort dstPort payload a b fits
  · intro srcIp dstIp srcPort dstPort payload fits
    obtain ⟨c,_,built⟩ := ipv6Built srcIp dstIp srcPort dstPort payload
    exact ⟨_,built,segmentParsed srcPort dstPort c payload fits⟩
  · intro srcV4 dstV4 srcV6 dstV6 srcPort dstPort payload
    obtain ⟨a,b,_,_,first⟩ := ipv4Built srcV4 dstV4 srcPort dstPort payload
    obtain ⟨c,_,second⟩ := ipv6Built srcV6 dstV6 srcPort dstPort payload
    refine ⟨_,_,first,second,fun i six seven => ?_⟩
    rw [packetSegment]
    exact segmentOutside srcPort dstPort b c payload six seven

section lengths
variable (s : RawSocket) (srcAddr dstAddr : SocketAddr) (payload : Bytes)

def Passes (packet : Bytes) : Prop :=
  ∀ (ε : Type) (os : Bytes → SocketAddr → Except ε Nat),
    sendTo s os srcAddr dstAddr payload = some ((os packet dstAddr).mapError .socketCreation)

def Refuses : Prop := ∀ (ε : Type) (os : Bytes → SocketAddr → Except ε Nat),
  ∃ e, sendTo s os srcAddr dstAddr payload = some (.error e)

/- The length fields against the bytes: a whole packet towards IPv4, a segment
towards IPv6. -/
def LengthsTrue (packet : Bytes) : Prop :=
  if dstAddr.isIpv4 then
    readU16 packet 2 = packet.length ∧ readU16 (packet.drop 20) 4 = (packet.drop 20).length
  else readU16 packet 4 = packet.length

def payloadLimit : Nat := if dstAddr.isIpv4 then 65507 else 65527

structure NeverWraps : Prop where
  lengths : ∀ packet, Passes s srcAddr dstAddr payload packet → LengthsTrue dstAddr packet
  refused : payloadLimit dstAddr < payload.length → Refuses s srcAddr dstAddr payload

def Mismatched : Prop :=
  dstAddr.isIpv4 = s.isIpv6 ∨ dstAddr.isIpv4 = true ∧ srcAddr.isIpv4 = false

variable {s srcAddr dstAddr payload}

theorem passesOne {p q : Bytes} (left : Passes s srcAddr dstAddr payload p)
    (right : Passes s srcAddr dstAddr payload q) : p = q := by
  have answers := (left Unit fun b _ => .ok (if b = p then 1 else 0)).symm.trans
    (right Unit fun b _ => .ok (if b = p then 1 else 0))
  by_contra apart
  simp [Except.mapError,Ne.symm apart] at answers

theorem passesNotRefuses {p : Bytes} (passed : Passes s srcAddr dstAddr payload p) :
    ¬ Refuses s srcAddr dstAddr payload := by
  intro refused
  obtain ⟨e,failed⟩ := refused Unit fun _ _ => .ok 0
  rw [passed] at failed
  cases Option.some.inj failed

theorem refusesBuild {error : ∀ ε, RawSocketError ε}
    (none : ∀ ε, buildFor s srcAddr dstAddr = .error (error ε)) :
    Refuses s srcAddr dstAddr payload := by
  intro ε os
  exact ⟨error ε,by simp only [sendTo,none]⟩

theorem passesBuild {build : Build} {packet : Bytes}
    (chosen : ∀ ε, buildFor (ε := ε) s srcAddr dstAddr = .ok build)
    (built : build.packet payload = some packet) : Passes s srcAddr dstAddr payload packet := by
  intro ε os
  simp only [sendTo,chosen,built,bind,Option.bind]

theorem ipv4Lengths {dstIp : Ipv4Addr} {dstPort : UInt16} {srcIp : Ipv4Addr} {srcPort : UInt16}
    (a b : UInt16) :
    LengthsTrue (.v4 dstIp dstPort) (ipv4Packet srcIp dstIp srcPort dstPort payload a b) ↔
      payload.length ≤ payloadLimit (.v4 dstIp dstPort) := by
  have length := segmentLength srcPort dstPort (8+payload.length) b payload
  have udp := segmentUdpLength srcPort dstPort b payload
  have shown : (segment srcPort dstPort b payload).length = 8+payload.length := length
  unfold LengthsTrue payloadLimit
  simp only [SocketAddr.isIpv4,if_true,packetTotalLength,packetLength,packetSegment,udp,shown]
  omega

theorem ipv6Lengths {dstIp : Ipv6Addr} {dstPort : UInt16} {flowinfo scopeId : UInt32}
    (srcPort c : UInt16) : LengthsTrue (.v6 dstIp dstPort flowinfo scopeId)
        (segment srcPort dstPort c payload) ↔
      payload.length ≤ payloadLimit (.v6 dstIp dstPort flowinfo scopeId) := by
  have shown : (segment srcPort dstPort c payload).length = 8+payload.length :=
    segmentLength srcPort dstPort (8+payload.length) c payload
  unfold LengthsTrue payloadLimit
  simp only [SocketAddr.isIpv4,Bool.false_eq_true,if_false,segmentUdpLength,shown]
  omega

theorem sendOutcome (s : RawSocket) (srcAddr dstAddr : SocketAddr) (payload : Bytes) :
    Mismatched s srcAddr dstAddr ∧ Refuses s srcAddr dstAddr payload ∨
    ¬ Mismatched s srcAddr dstAddr ∧ ∃ packet, Passes s srcAddr dstAddr payload packet ∧
      (LengthsTrue dstAddr packet ↔ payload.length ≤ payloadLimit dstAddr) := by
  obtain ⟨isIpv6⟩ := s
  cases dstAddr with
  | v4 dstIp dstPort =>
    cases srcAddr with
    | v4 srcIp srcPort =>
      cases isIpv6 with
      | true => exact .inl ⟨.inl rfl,refusesBuild fun _ => rfl⟩
      | false =>
        obtain ⟨a,b,_,_,built⟩ := ipv4Built srcIp dstIp srcPort dstPort payload
        exact .inr ⟨by simp [Mismatched,SocketAddr.isIpv4],_,
          passesBuild (fun _ => rfl) built,ipv4Lengths a b⟩
    | v6 srcIp srcPort _ _ => exact .inl ⟨.inr ⟨rfl,rfl⟩,refusesBuild fun _ => rfl⟩
  | v6 dstIp dstPort _ _ =>
    cases isIpv6 with
    | false =>
      cases srcAddr with
      | v4 srcIp srcPort => exact .inl ⟨.inl rfl,refusesBuild fun _ => rfl⟩
      | v6 srcIp srcPort _ _ => exact .inl ⟨.inl rfl,refusesBuild fun _ => rfl⟩
    | true =>
      refine .inr ⟨by simp [Mismatched,SocketAddr.isIpv4],?_⟩
      cases srcAddr with
      | v4 srcIp srcPort =>
        obtain ⟨c,_,built⟩ :=
          ipv6Built (ipv4ToIpv6Mapped srcIp) dstIp srcPort dstPort payload
        exact ⟨_,passesBuild (fun _ => rfl) built,ipv6Lengths srcPort c⟩
      | v6 srcIp srcPort _ _ =>
        obtain ⟨c,_,built⟩ := ipv6Built srcIp dstIp srcPort dstPort payload
        exact ⟨_,passesBuild (fun _ => rfl) built,ipv6Lengths srcPort c⟩

theorem wrapsExactly (s : RawSocket) (srcAddr dstAddr : SocketAddr) (payload : Bytes) :
    NeverWraps s srcAddr dstAddr payload ↔
      Mismatched s srcAddr dstAddr ∨ payload.length ≤ payloadLimit dstAddr := by
  rcases sendOutcome s srcAddr dstAddr payload with
    ⟨mismatched,refused⟩ | ⟨matched,packet,passed,true⟩
  · refine iff_of_true ⟨fun packet passed => ?_,fun _ => refused⟩ (.inl mismatched)
    exact absurd refused (passesNotRefuses passed)
  · constructor
    · intro never
      exact .inr (true.mp (never.lengths packet passed))
    · intro condition
      have fits := condition.resolve_left matched
      refine ⟨fun other again => ?_,fun large => absurd fits (by omega)⟩
      rw [passesOne again passed]
      exact true.mpr fits

def longPayload : Bytes := List.replicate 65508 0

theorem longPayloadWraps : longPayload.length = 65508 ∧
    (∃ packet, Passes ⟨false⟩ (localhost 5000) (localhost 2055) longPayload packet ∧
      packet.length = 65536 ∧ readU16 packet 2 = 0) ∧
    ¬ NeverWraps ⟨false⟩ (localhost 5000) (localhost 2055) longPayload := by
  have long : longPayload.length = 65508 := List.length_replicate
  obtain ⟨a,b,_,_,built⟩ :=
    ipv4Built ⟨#v[127,0,0,1]⟩ ⟨#v[127,0,0,1]⟩ 5000 2055 longPayload
  have passed : Passes ⟨false⟩ (localhost 5000) (localhost 2055) longPayload _ :=
    passesBuild (fun _ => rfl) built
  have length := packetLength ⟨#v[127,0,0,1]⟩ ⟨#v[127,0,0,1]⟩ 5000 2055 longPayload a b
  have total := packetTotalLength ⟨#v[127,0,0,1]⟩ ⟨#v[127,0,0,1]⟩ 5000 2055 longPayload a b
  rw [long] at length total
  refine ⟨long,⟨_,passed,length,total⟩,fun never => ?_⟩
  have fits := (ipv4Lengths a b).mp (never.lengths _ passed)
  rw [long] at fits
  exact absurd fits (by unfold payloadLimit; decide)

end lengths

end UdpBalancer.RawSocket
