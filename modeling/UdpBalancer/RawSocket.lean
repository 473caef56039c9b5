import UdpBalancer.Backends
import UdpBalancer.OnesComplement

/-! `RawSocket`: UDP packets with a source address of the caller's choosing. The
IPv4 socket carries whole packets, the IPv6 socket only the UDP segment. -/
namespace UdpBalancer
open Backends OnesComplement

def highByte (x : UInt16) : UInt8 := (x >>> 8).toUInt8

def lowByte (x : UInt16) : UInt8 := x.toUInt8

theorem wordBytes (x : UInt16) : 256*(highByte x).toNat+(lowByte x).toNat = x.toNat := by
  have bound := x.toNat_lt
  have high : (highByte x).toNat = x.toNat/256 % 256 := by
    rw [highByte,UInt16.toNat_toUInt8,UInt16.toNat_shiftRight]
    exact congrArg (· % 256) (Nat.shiftRight_eq_div_pow _ 8)
  have low : (lowByte x).toNat = x.toNat % 256 := UInt16.toNat_toUInt8 x
  omega

theorem bytesOfWord {x : UInt16} {high low : UInt8}
    (word : x.toNat = 256*high.toNat+low.toNat) : highByte x = high ∧ lowByte x = low := by
  have parts := wordBytes x
  have first := (highByte x).toNat_lt
  have second := (lowByte x).toNat_lt
  have third := high.toNat_lt
  have last := low.toNat_lt
  constructor
  · exact UInt8.toNat.inj (by omega)
  · exact UInt8.toNat.inj (by omega)

theorem pairNat (high low : UInt8) :
    (high.toUInt16 <<< 8 ||| low.toUInt16).toNat = 256*high.toNat+low.toNat := by
  have bound := high.toNat_lt
  have lower : low.toNat < 2^8 := low.toNat_lt
  have small : high.toNat <<< 8 < 2^16 := by
    rw [Nat.shiftLeft_eq]
    omega
  have shifted : (high.toUInt16 <<< 8).toNat = high.toNat <<< 8 := by
    rw [UInt16.toNat_shiftLeft,UInt8.toNat_toUInt16]
    exact Nat.mod_eq_of_lt small
  rw [UInt16.toNat_or,shifted,UInt8.toNat_toUInt16,← Nat.shiftLeft_add_eq_or_of_lt lower,
    Nat.shiftLeft_eq]
  omega

def Backends.Ipv6Addr.new (a b c d e f g h : UInt16) : Ipv6Addr :=
  ⟨#v[highByte a,lowByte a,highByte b,lowByte b,highByte c,lowByte c,highByte d,lowByte d,
    highByte e,lowByte e,highByte f,lowByte f,highByte g,lowByte g,highByte h,lowByte h]⟩

def Backends.Ipv4Addr.octet (ip : Ipv4Addr) (i : Nat) : UInt8 := ip.octets.toList.getD i 0

-- 64:ff9b::/96 with the four octets behind its twelve
def Backends.Ipv4Addr.embedded (ip : Ipv4Addr) : Ipv6Addr :=
  ⟨(#v[0x00,0x64,0xff,0x9b,0,0,0,0,0,0,0,0] : Vector UInt8 12) ++ ip.octets⟩

structure RawSocket where
  isIpv6 : Bool
  deriving DecidableEq, Repr

inductive RawSocketError (ε : Type) where
  | socketCreation (error : ε)
  | addressFamilyMismatch
  | notSupported
  deriving DecidableEq, Repr

namespace RawSocket

def ipv4ToIpv6Mapped (ipv4 : Ipv4Addr) : Ipv6Addr :=
  .new 0x0064 0xff9b 0 0 0 0
    ((ipv4.octet 0).toUInt16 <<< 8 ||| (ipv4.octet 1).toUInt16)
    ((ipv4.octet 2).toUInt16 <<< 8 ||| (ipv4.octet 3).toUInt16)

theorem embeddedOctets (ip : Ipv4Addr) : ipv4ToIpv6Mapped ip = ip.embedded := by
  obtain ⟨⟨⟨bytes⟩,size⟩⟩ := ip
  match bytes,size with
  | [a,b,c,d],_ =>
    obtain ⟨high,low⟩ := bytesOfWord (pairNat a b)
    obtain ⟨upper,lower⟩ := bytesOfWord (pairNat c d)
    simp only [ipv4ToIpv6Mapped,Ipv6Addr.new,Ipv4Addr.octet,Vector.toList_mk,List.getD_cons_zero,
      List.getD_cons_succ,high,low,upper,lower]
    exact rfl

example : ipv4ToIpv6Mapped ⟨#v[192,0,2,1]⟩ = .new 0x0064 0xff9b 0 0 0 0 0xc000 0x0201 := by decide

def setU16 (packet : Bytes) (offset : Nat) (x : UInt16) : Bytes :=
  (packet.set offset (highByte x)).set (offset+1) (lowByte x)

def checksum (data : Bytes) : Option UInt16 := do
  let sum ← fold (addWords 0 data)
  some (complement sum)

def udpChecksumV4 (srcIp dstIp : Ipv4Addr) (udpSegment : Bytes) : Option UInt16 :=
  let sum := addWords (addWords 0 srcIp.octets.toList) dstIp.octets.toList
  closing (addWords (sum+17+UInt32.ofNat udpSegment.length) udpSegment)

def udpChecksumV6 (srcIp dstIp : Ipv6Addr) (udpSegment : Bytes) : Option UInt16 :=
  let pairs := (words srcIp.octets.toList).zip (words dstIp.octets.toList)
  let sum := pairs.foldl (fun sum pair => sum+pair.1+pair.2) 0
  let length := UInt32.ofNat (udpSegment.length >>> 16)
  let rest := UInt32.ofNat (udpSegment.length &&& 0xFFFF)
  closing (addWords (sum+length+rest+17) udpSegment)

def udpHeader (srcPort dstPort : UInt16) (udpLen : Nat) (udpChecksum : UInt16) : Bytes :=
  [highByte srcPort,lowByte srcPort,highByte dstPort,lowByte dstPort,
    UInt8.ofNat (udpLen >>> 8),UInt8.ofNat udpLen,highByte udpChecksum,lowByte udpChecksum]

def ipv4Header (srcIp dstIp : Ipv4Addr) (totalLen : Nat) : Bytes :=
  [0x45,0x00,UInt8.ofNat (totalLen >>> 8),UInt8.ofNat totalLen,0x00,0x00,0x40,0x00,64,17,
    0x00,0x00] ++ srcIp.octets.toList ++ dstIp.octets.toList

def buildIpv4UdpPacket (srcIp dstIp : Ipv4Addr) (srcPort dstPort : UInt16) (payload : Bytes) :
    Option Bytes := do
  let udpLen := 8+payload.length
  let header := ipv4Header srcIp dstIp (20+udpLen)
  let ipChecksum ← checksum header
  let segment := udpHeader srcPort dstPort udpLen 0 ++ payload
  let udpChecksum ← udpChecksumV4 srcIp dstIp segment
  some (setU16 header 10 ipChecksum ++ setU16 segment 6 udpChecksum)

def buildIpv6UdpPacket (srcIp dstIp : Ipv6Addr) (srcPort dstPort : UInt16) (payload : Bytes) :
    Option Bytes := do
  let packet := udpHeader srcPort dstPort (8+payload.length) 0 ++ payload
  let udpChecksum ← udpChecksumV6 srcIp dstIp packet
  some (setU16 packet 6 udpChecksum)

inductive Build where
  | ipv4 (srcIp dstIp : Ipv4Addr) (srcPort dstPort : UInt16)
  | ipv6 (srcIp dstIp : Ipv6Addr) (srcPort dstPort : UInt16)
  deriving DecidableEq, Repr

def Build.packet (payload : Bytes) : Build → Option Bytes
  | .ipv4 srcIp dstIp srcPort dstPort => buildIpv4UdpPacket srcIp dstIp srcPort dstPort payload
  | .ipv6 srcIp dstIp srcPort dstPort => buildIpv6UdpPacket srcIp dstIp srcPort dstPort payload

variable {ε : Type}

def buildFor (s : RawSocket) (srcAddr dstAddr : SocketAddr) : Except (RawSocketError ε) Build :=
  match srcAddr,dstAddr with
  | .v4 srcIp srcPort,.v4 dstIp dstPort =>
      if s.isIpv6 then .error .addressFamilyMismatch else .ok (.ipv4 srcIp dstIp srcPort dstPort)
  | .v6 srcIp srcPort _ _,.v6 dstIp dstPort _ _ =>
      if !s.isIpv6 then .error .addressFamilyMismatch else .ok (.ipv6 srcIp dstIp srcPort dstPort)
  | .v4 srcIp srcPort,.v6 dstIp dstPort _ _ =>
      if !s.isIpv6 then .error .addressFamilyMismatch
      else .ok (.ipv6 (ipv4ToIpv6Mapped srcIp) dstIp srcPort dstPort)
  | .v6 _ _ _ _,.v4 _ _ => .error .addressFamilyMismatch

/- `os` is the system call that takes a packet and a destination. The outer `none`
would be a checksum loop without an end. -/
def sendTo (s : RawSocket) (os : Bytes → SocketAddr → Except ε Nat)
    (srcAddr dstAddr : SocketAddr) (payload : Bytes) :
    Option (Except (RawSocketError ε) Nat) :=
  match s.buildFor srcAddr dstAddr with
  | .error e => some (.error e)
  | .ok build => do
      let packet ← build.packet payload
      some ((os packet dstAddr).mapError .socketCreation)

end RawSocket
end UdpBalancer
