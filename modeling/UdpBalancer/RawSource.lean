import UdpBalancer.RawSocket

/-! What arrives when `RawSocket::send_to` uses its IPv6 socket. No option makes
the kernel take a header from the caller, so it writes one with a source of its
own; the requested source only enters the checksum. -/
namespace UdpBalancer.RawSocket
open Backends OnesComplement

structure Datagram where
  source : Ipv6Addr
  destination : Ipv6Addr
  segment : Bytes
  deriving DecidableEq, Repr

def rawV6Output (hostSource destination : Ipv6Addr) (packet : Bytes) : Datagram :=
  ⟨hostSource,destination,packet⟩

def pseudoHeader (source destination : Ipv6Addr) (length : Nat) : List Nat :=
  (words source.octets.toList).map UInt32.toNat ++
    (words destination.octets.toList).map UInt32.toNat ++ [length/65536,length % 65536,0,17]

namespace Datagram

def Verifies (d : Datagram) : Prop :=
  onesSum (pseudoHeader d.source d.destination d.segment.length ++
    (words d.segment).map UInt32.toNat) = 0xFFFF

instance (d : Datagram) : Decidable d.Verifies := inferInstanceAs (Decidable (_ = _))

def Genuine (d : Datagram) (requested : Ipv6Addr) : Prop := d.source = requested ∧ d.Verifies

end Datagram

structure V6Send where
  source : SocketAddr
  destination : Ipv6Addr
  port : UInt16
  flowinfo : UInt32
  scopeId : UInt32
  payload : Bytes
  fits : payload.length ≤ 65527

namespace V6Send
variable (m : V6Send)

def requested : Ipv6Addr :=
  match m.source with
  | .v4 ip _ => ip.embedded
  | .v6 ip _ _ _ => ip

def sourcePort : UInt16 :=
  match m.source with
  | .v4 _ port => port
  | .v6 _ port _ _ => port

def dstAddr : SocketAddr := .v6 m.destination m.port m.flowinfo m.scopeId

/- Whatever the system call answers, these are the bytes it was given. -/
def HandsOver (packet : Bytes) : Prop :=
  ∀ (ε : Type) (os : Bytes → SocketAddr → Except ε Nat),
    sendTo ⟨true⟩ os m.source m.dstAddr m.payload =
      some ((os packet m.dstAddr).mapError .socketCreation)

end V6Send

theorem lengthBytes (n : Nat) : 256*(UInt8.ofNat (n >>> 8)).toNat+(UInt8.ofNat n).toNat =
    n % 65536 := by
  rw [UInt8.toNat_ofNat',UInt8.toNat_ofNat',Nat.shiftRight_eq_div_pow]
  omega

theorem headerValue (srcPort dstPort : UInt16) (udpLen : Nat) (udpChecksum : UInt16) :
    value (udpHeader srcPort dstPort udpLen udpChecksum) =
      srcPort.toNat+dstPort.toNat+udpLen % 65536+udpChecksum.toNat := by
  simp only [udpHeader,value,wordBytes,lengthBytes]
  omega

theorem setChecksum (srcPort dstPort : UInt16) (udpLen : Nat) (udpChecksum : UInt16)
    (payload : Bytes) : setU16 (udpHeader srcPort dstPort udpLen 0 ++ payload) 6 udpChecksum =
      udpHeader srcPort dstPort udpLen udpChecksum ++ payload := rfl

theorem segmentLength (srcPort dstPort : UInt16) (udpLen : Nat) (udpChecksum : UInt16)
    (payload : Bytes) :
    (udpHeader srcPort dstPort udpLen udpChecksum ++ payload).length = 8+payload.length := by
  rw [List.length_append]
  rfl

theorem segmentValue (srcPort dstPort : UInt16) (udpLen : Nat) (udpChecksum : UInt16)
    (payload : Bytes) : value (udpHeader srcPort dstPort udpLen udpChecksum ++ payload) =
      srcPort.toNat+dstPort.toNat+udpLen % 65536+udpChecksum.toNat+value payload := by
  have even : (udpHeader srcPort dstPort udpLen udpChecksum).length % 2 = 0 := by
    simp only [udpHeader,List.length_cons,List.length_nil]
  rw [valueAppend even,headerValue]

def addressValue (ip : Ipv6Addr) : Nat := value ip.octets.toList

theorem addressBound (ip : Ipv6Addr) : addressValue ip ≤ 65535*8 := by
  have bound := valueBound ip.octets.toList
  rwa [Vector.length_toList] at bound

theorem wordsLength (ip : Ipv6Addr) : (words ip.octets.toList).length = 8 := by
  have count : ∀ bytes : Bytes, (words bytes).length = (bytes.length+1)/2 := by
    intro bytes
    induction bytes using words.induct with
    | case1 high low rest ih =>
      simp only [words,List.length_cons,ih]
      omega
    | case2 high => simp only [words,List.length_cons,List.length_nil]
    | case3 => rfl
  rw [count,Vector.length_toList]

theorem lengthHalves {n : Nat} (small : n < 65536) : (UInt32.ofNat (n >>> 16)).toNat = 0 ∧
    (UInt32.ofNat (n &&& 0xFFFF)).toNat = n := by
  constructor
  · rw [UInt32.toNat_ofNat',Nat.shiftRight_eq_div_pow]
    omega
  · rw [UInt32.toNat_ofNat',show n &&& 0xFFFF = n % 65536 from
      Nat.and_two_pow_sub_one_eq_mod _ 16]
    omega

theorem udpChecksumV6Exact (srcIp dstIp : Ipv6Addr) (segment : Bytes)
    (fits : segment.length < 65536) : ∃ c, udpChecksumV6 srcIp dstIp segment = some c ∧
      0 < c.toNat ∧ (addressValue srcIp+addressValue dstIp+segment.length+17+value segment+
        c.toNat) % 65535 = 0 := by
  have src := addressBound srcIp
  have dst := addressBound dstIp
  have bytes := valueBound segment
  have same := (wordsLength srcIp).trans (wordsLength dstIp).symm
  have pairs := pairsNat same 0
  rw [wordsSum,wordsSum] at pairs
  have zero : (0 : UInt32).toNat = 0 := rfl
  have protocol : (17 : UInt32).toNat = 17 := rfl
  obtain ⟨high,low⟩ := lengthHalves fits
  unfold addressValue at src dst ⊢
  obtain ⟨c,closed,positive,residue⟩ := closingExact (addWords
    ((((words srcIp.octets.toList).zip (words dstIp.octets.toList)).foldl
      (fun sum pair => sum+pair.1+pair.2) 0)+UInt32.ofNat (segment.length >>> 16)+
        UInt32.ofNat (segment.length &&& 0xFFFF)+17) segment)
  refine ⟨c,closed,positive,?_⟩
  rw [addWordsNat,UInt32.toNat_add,UInt32.toNat_add,UInt32.toNat_add,pairs,zero,protocol,high,
    low] at residue
  simp only [Nat.zero_add,Nat.add_zero,Nat.mod_add_mod] at residue
  have small : value srcIp.octets.toList+value dstIp.octets.toList+segment.length+17+
      value segment < 2^32 := by omega
  rwa [Nat.mod_eq_of_lt small] at residue

theorem buildIpv6Verifies (srcIp dstIp : Ipv6Addr) (srcPort dstPort : UInt16) {payload : Bytes}
    (fits : payload.length ≤ 65527) :
    ∃ packet, buildIpv6UdpPacket srcIp dstIp srcPort dstPort payload = some packet ∧
      ∀ h, (rawV6Output h dstIp packet).Verifies ↔
        addressValue h % 65535 = addressValue srcIp % 65535 := by
  have plain := segmentLength srcPort dstPort (8+payload.length) 0 payload
  have blank := segmentValue srcPort dstPort (8+payload.length) 0 payload
  obtain ⟨c,built,positive,residue⟩ := udpChecksumV6Exact srcIp dstIp
    (udpHeader srcPort dstPort (8+payload.length) 0 ++ payload) (by omega)
  refine ⟨udpHeader srcPort dstPort (8+payload.length) c ++ payload,?_,fun h => ?_⟩
  · simp only [buildIpv6UdpPacket,built,bind,Option.bind,setChecksum]
  · have length := segmentLength srcPort dstPort (8+payload.length) c payload
    have bytes := segmentValue srcPort dstPort (8+payload.length) c payload
    have zero : (0 : UInt16).toNat = 0 := rfl
    have terms : ∀ t ∈ pseudoHeader h dstIp (8+payload.length) ++
        (words (udpHeader srcPort dstPort (8+payload.length) c ++ payload)).map UInt32.toNat,
        t < 65536 := by
      intro t mem
      simp only [pseudoHeader,List.mem_append,List.mem_cons,List.not_mem_nil,or_false] at mem
      rcases mem with ((mem | mem) | mem) | mem
      · exact wordsSmall _ t mem
      · exact wordsSmall _ t mem
      · omega
      · exact wordsSmall _ t mem
    unfold Datagram.Verifies
    simp only [rawV6Output,length]
    rw [onesSumResidue terms,residueTop]
    simp only [pseudoHeader,List.sum_append,List.sum_cons,List.sum_nil,wordsSum,bytes]
    rw [plain,blank,zero] at residue
    unfold addressValue at residue ⊢
    omega

namespace V6Send

theorem handsOver (m : V6Send) : ∃ packet, m.HandsOver packet ∧
    ∀ h, (rawV6Output h m.destination packet).Verifies ↔
      addressValue h % 65535 = addressValue m.requested % 65535 := by
  obtain ⟨packet,built,verifies⟩ :=
    buildIpv6Verifies m.requested m.destination m.sourcePort m.port m.fits
  refine ⟨packet,fun ε os => ?_,verifies⟩
  have chosen : buildFor (ε := ε) ⟨true⟩ m.source m.dstAddr =
      .ok (.ipv6 m.requested m.destination m.sourcePort m.port) := by
    unfold requested sourcePort dstAddr
    cases m.source with
    | v4 ip port =>
      simp only [← embeddedOctets]
      exact rfl
    | v6 ip port flowinfo scopeId => rfl
  simp only [sendTo,chosen,Build.packet,built,bind,Option.bind]

/- The datagram carries the requested source, with a checksum that verifies, just
when the kernel happens to choose that source itself. -/
theorem sourceExactly (m : V6Send) : ∃ packet, m.HandsOver packet ∧
    ∀ h, (rawV6Output h m.destination packet).Genuine m.requested ↔ h = m.requested := by
  obtain ⟨packet,handed,verifies⟩ := m.handsOver
  refine ⟨packet,handed,fun h => ⟨fun genuine => genuine.1,fun same => ⟨same,?_⟩⟩⟩
  rw [verifies,same]

def relayed : V6Send where
  source := .v6 (.new 0x2001 0xdb8 1 0 0 0 0 5) 5000 0 0
  destination := .new 0x2001 0xdb8 0 0 0 0 0 2
  port := 17
  flowinfo := 0
  scopeId := 0
  payload := [1,2,3]
  fits := by decide

def balancerHost : Ipv6Addr := .new 0x2001 0xdb8 0 0 0 0 0 0x10

theorem relayedForeign : ∃ packet, relayed.HandsOver packet ∧
    ¬ (rawV6Output balancerHost relayed.destination packet).Genuine relayed.requested ∧
    ¬ (rawV6Output balancerHost relayed.destination packet).Verifies := by
  obtain ⟨packet,handed,verifies⟩ := relayed.handsOver
  refine ⟨packet,handed,fun genuine => ?_,fun good => ?_⟩
  · have same : balancerHost = relayed.requested := genuine.1
    exact absurd same (by decide)
  · exact absurd ((verifies balancerHost).mp good) (by decide)

end V6Send

end UdpBalancer.RawSocket
