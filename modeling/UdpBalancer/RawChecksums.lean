import UdpBalancer.RawPackets

/-! The checksums of built packets as a receiver takes them, and the summing
routines with additions that trap: no accumulator leaves 32 bits for a payload
that the length fields can carry. -/
namespace UdpBalancer.RawSocket
open Backends OnesComplement

def checksumChecked (data : Bytes) : Option UInt16 := do
  let sum ← addChecked 0 data
  let folded ← foldChecked sum
  some (complement folded)

def udpChecksumV4Checked (srcIp dstIp : Ipv4Addr) (udpSegment : Bytes) : Option UInt16 := do
  let sum ← addChecked 0 srcIp.octets.toList
  let sum ← addChecked sum dstIp.octets.toList
  let sum ← checkedAdd sum 17
  let sum ← checkedAdd sum (UInt32.ofNat udpSegment.length)
  let sum ← addChecked sum udpSegment
  closingChecked sum

def udpChecksumV6Checked (srcIp dstIp : Ipv6Addr) (udpSegment : Bytes) : Option UInt16 := do
  let pairs := (words srcIp.octets.toList).zip (words dstIp.octets.toList)
  let sum ← (pairs.flatMap fun pair => [pair.1,pair.2]).foldlM checkedAdd 0
  let sum ← checkedAdd sum (UInt32.ofNat (udpSegment.length >>> 16))
  let sum ← checkedAdd sum (UInt32.ofNat (udpSegment.length &&& 0xFFFF))
  let sum ← checkedAdd sum 17
  let sum ← addChecked sum udpSegment
  closingChecked sum

def buildIpv4Checked (srcIp dstIp : Ipv4Addr) (srcPort dstPort : UInt16) (payload : Bytes) :
    Option Bytes := do
  let udpLen := 8+payload.length
  let header := ipv4Header srcIp dstIp (20+udpLen)
  let ipChecksum ← checksumChecked header
  let segment := udpHeader srcPort dstPort udpLen 0 ++ payload
  let udpChecksum ← udpChecksumV4Checked srcIp dstIp segment
  some (setU16 header 10 ipChecksum ++ setU16 segment 6 udpChecksum)

def buildIpv6Checked (srcIp dstIp : Ipv6Addr) (srcPort dstPort : UInt16) (payload : Bytes) :
    Option Bytes := do
  let packet := udpHeader srcPort dstPort (8+payload.length) 0 ++ payload
  let udpChecksum ← udpChecksumV6Checked srcIp dstIp packet
  some (setU16 packet 6 udpChecksum)

theorem octetsBound (ip : Ipv4Addr) : value ip.octets.toList ≤ 65535*2 := by
  have bound := valueBound ip.octets.toList
  rwa [Vector.length_toList] at bound

theorem checksumSame {data : Bytes} (fits : data.length < 65536) :
    checksumChecked data = checksum data := by
  have bound := valueBound data
  have zero : (0 : UInt32).toNat = 0 := rfl
  have added := addCheckedFits 0 data (by omega)
  simp only [checksumChecked,added.1,bind,Option.bind,foldCheckedSame,checksum]

theorem udpChecksumV4Same (srcIp dstIp : Ipv4Addr) {segment : Bytes}
    (fits : segment.length < 65536) :
    udpChecksumV4Checked srcIp dstIp segment = udpChecksumV4 srcIp dstIp segment ∧
      ∃ sum, udpChecksumV4 srcIp dstIp segment = closing sum ∧
        sum.toNat = value srcIp.octets.toList+value dstIp.octets.toList+17+segment.length+
          value segment := by
  have src := octetsBound srcIp
  have dst := octetsBound dstIp
  have bytes := valueBound segment
  have zero : (0 : UInt32).toNat = 0 := rfl
  have protocol : (17 : UInt32).toNat = 17 := rfl
  have length : (UInt32.ofNat segment.length).toNat = segment.length := by
    rw [UInt32.toNat_ofNat']
    omega
  obtain ⟨first,firstNat⟩ := addCheckedFits 0 srcIp.octets.toList (by omega)
  obtain ⟨second,secondNat⟩ := addCheckedFits (addWords 0 srcIp.octets.toList)
    dstIp.octets.toList (by omega)
  obtain ⟨third,thirdNat⟩ := checkedFits
    (a := addWords (addWords 0 srcIp.octets.toList) dstIp.octets.toList) (b := 17) (by omega)
  obtain ⟨fourth,fourthNat⟩ := checkedFits
    (a := addWords (addWords 0 srcIp.octets.toList) dstIp.octets.toList+17)
    (b := UInt32.ofNat segment.length) (by omega)
  obtain ⟨last,lastNat⟩ := addCheckedFits
    (addWords (addWords 0 srcIp.octets.toList) dstIp.octets.toList+17+
      UInt32.ofNat segment.length) segment (by omega)
  refine ⟨?_,_,rfl,by omega⟩
  simp only [udpChecksumV4Checked,first,second,third,fourth,last,bind,Option.bind,
    closingCheckedSame,udpChecksumV4]

theorem turnsFold (pairs : List (UInt32 × UInt32)) (sum : UInt32) :
    (pairs.flatMap fun pair => [pair.1,pair.2]).foldl (· + ·) sum =
      pairs.foldl (fun sum pair => sum+pair.1+pair.2) sum := by
  induction pairs generalizing sum with
  | nil => rfl
  | cons pair rest ih => exact ih _

theorem turnsSum {left right : List UInt32} (same : left.length = right.length) :
    (((left.zip right).flatMap fun pair => [pair.1,pair.2]).map UInt32.toNat).sum =
      (left.map UInt32.toNat).sum+(right.map UInt32.toNat).sum := by
  induction left generalizing right with
  | nil =>
    cases right with
    | nil => rfl
    | cons y right => contradiction
  | cons x left ih =>
    cases right with
    | nil => contradiction
    | cons y right =>
      have rest := ih (Nat.succ.inj same)
      simp only [List.zip_cons_cons,List.flatMap_cons,List.map_append,List.map_cons,List.map_nil,
        List.sum_append,List.sum_cons,List.sum_nil,rest]
      omega

theorem udpChecksumV6Same (srcIp dstIp : Ipv6Addr) {segment : Bytes}
    (fits : segment.length < 65536) :
    udpChecksumV6Checked srcIp dstIp segment = udpChecksumV6 srcIp dstIp segment := by
  have src := addressBound srcIp
  have dst := addressBound dstIp
  have bytes := valueBound segment
  unfold addressValue at src dst
  have zero : (0 : UInt32).toNat = 0 := rfl
  have protocol : (17 : UInt32).toNat = 17 := rfl
  obtain ⟨high,low⟩ := lengthHalves fits
  have same := (wordsLength srcIp).trans (wordsLength dstIp).symm
  have total := turnsSum same
  have pairs := pairsNat same 0
  rw [wordsSum,wordsSum] at total pairs
  have first := checkedSum
    (((words srcIp.octets.toList).zip (words dstIp.octets.toList)).flatMap
      fun pair => [pair.1,pair.2]) 0 (by omega)
  rw [turnsFold] at first
  obtain ⟨sum,summed⟩ : ∃ sum, ((words srcIp.octets.toList).zip (words dstIp.octets.toList)).foldl
    (fun sum pair => sum+pair.1+pair.2) 0 = sum := ⟨_,rfl⟩
  rw [summed] at first pairs
  obtain ⟨second,secondNat⟩ := checkedFits (a := sum)
    (b := UInt32.ofNat (segment.length >>> 16)) (by omega)
  obtain ⟨third,thirdNat⟩ := checkedFits (a := sum+UInt32.ofNat (segment.length >>> 16))
    (b := UInt32.ofNat (segment.length &&& 0xFFFF)) (by omega)
  obtain ⟨fourth,fourthNat⟩ := checkedFits (a := sum+UInt32.ofNat (segment.length >>> 16)+
    UInt32.ofNat (segment.length &&& 0xFFFF)) (b := 17) (by omega)
  obtain ⟨last,_⟩ := addCheckedFits (sum+UInt32.ofNat (segment.length >>> 16)+
    UInt32.ofNat (segment.length &&& 0xFFFF)+17) segment (by omega)
  simp only [udpChecksumV6Checked,first,second,third,fourth,last,bind,Option.bind,
    closingCheckedSame,udpChecksumV6,summed]

theorem sealedValue (srcIp dstIp : Ipv4Addr) (totalLen : Nat) (c : UInt16) :
    value (setU16 (ipv4Header srcIp dstIp totalLen) 10 c) =
      value (ipv4Header srcIp dstIp totalLen)+c.toNat := by
  obtain ⟨a,b,d,e,rfl⟩ := ipv4Split srcIp
  obtain ⟨f,g,h,k,rfl⟩ := ipv4Split dstIp
  have blank : (0x00 : UInt8).toNat = 0 := rfl
  have plain : ipv4Header (.new a b d e) (.new f g h k) totalLen =
      [0x45,0x00,UInt8.ofNat (totalLen >>> 8),UInt8.ofNat totalLen,0x00,0x00,0x40,0x00,64,17,
        0x00,0x00,a,b,d,e,f,g,h,k] := rfl
  have filled : setU16 (ipv4Header (.new a b d e) (.new f g h k) totalLen) 10 c =
      [0x45,0x00,UInt8.ofNat (totalLen >>> 8),UInt8.ofNat totalLen,0x00,0x00,0x40,0x00,64,17,
        highByte c,lowByte c,a,b,d,e,f,g,h,k] := rfl
  rw [filled,plain]
  simp only [value,wordBytes,blank]
  omega

theorem headerPositive (srcIp dstIp : Ipv4Addr) (totalLen : Nat) :
    0 < value (ipv4Header srcIp dstIp totalLen) := by
  obtain ⟨a,b,d,e,rfl⟩ := ipv4Split srcIp
  obtain ⟨f,g,h,k,rfl⟩ := ipv4Split dstIp
  have version : (0x45 : UInt8).toNat = 69 := rfl
  have shown : ipv4Header (.new a b d e) (.new f g h k) totalLen =
      0x45::0x00::[UInt8.ofNat (totalLen >>> 8),UInt8.ofNat totalLen,0x00,0x00,0x40,0x00,64,17,
        0x00,0x00,a,b,d,e,f,g,h,k] := rfl
  rw [shown,value,version]
  omega

theorem checksumExact {data : Bytes} (fits : data.length < 65536) {c : UInt16}
    (ok : checksum data = some c) : c.toNat = 65535-residue (value data) := by
  have bound := valueBound data
  have zero : (0 : UInt32).toNat = 0 := rfl
  obtain ⟨r,folded,exact⟩ := foldExact (addWords 0 data)
  rw [(addCheckedFits 0 data (by omega)).2,zero,Nat.zero_add] at exact
  simp only [checksum,folded,bind,Option.bind,Option.some.injEq] at ok
  have small : r.toNat < 65536 := by
    rw [exact]
    unfold residue
    split <;> omega
  rw [← ok,complementNat small,exact]

theorem sealedVerifies {srcIp dstIp : Ipv4Addr} {totalLen : Nat} {c : UInt16}
    (ok : checksum (ipv4Header srcIp dstIp totalLen) = some c) :
    checksum (setU16 (ipv4Header srcIp dstIp totalLen) 10 c) = some 0 := by
  have length : (ipv4Header srcIp dstIp totalLen).length = 20 := by
    simp only [ipv4Header,List.length_append,List.length_cons,List.length_nil,
      Vector.length_toList]
  have sealedLength : (setU16 (ipv4Header srcIp dstIp totalLen) 10 c).length = 20 := by
    simp only [setU16,List.length_set,length]
  have taken := checksumExact (by omega) ok
  have positive := headerPositive srcIp dstIp totalLen
  have filled := sealedValue srcIp dstIp totalLen c
  obtain ⟨again,ended⟩ := checksumEnds (setU16 (ipv4Header srcIp dstIp totalLen) 10 c)
  have exact := checksumExact (by omega) ended
  have full : residue (value (setU16 (ipv4Header srcIp dstIp totalLen) 10 c)) = 65535 := by
    rw [residueTop,filled,taken]
    unfold residue
    split <;> omega
  have zero : again = 0 := by
    apply UInt16.toNat.inj
    rw [exact,full]
    rfl
  rw [ended,zero]

/- What the receiver of an IPv4 packet sums up before the segment: the addresses,
the protocol behind a zero byte and the UDP length. -/
def pseudoHeaderV4 (source destination : Ipv4Addr) (length : Nat) : List Nat :=
  (words source.octets.toList).map UInt32.toNat ++
    (words destination.octets.toList).map UInt32.toNat ++ [17,length]

def receivedSum (source destination : Ipv4Addr) (udpSegment : Bytes) : Nat :=
  onesSum (pseudoHeaderV4 source destination udpSegment.length ++
    (words udpSegment).map UInt32.toNat)

theorem receivedTop (source destination : Ipv4Addr) {udpSegment : Bytes}
    (fits : udpSegment.length < 65536) :
    receivedSum source destination udpSegment = 0xFFFF ↔
      (value source.octets.toList+value destination.octets.toList+17+udpSegment.length+
        value udpSegment) % 65535 = 0 := by
  have terms : ∀ t ∈ pseudoHeaderV4 source destination udpSegment.length ++
      (words udpSegment).map UInt32.toNat, t < 65536 := by
    intro t mem
    simp only [pseudoHeaderV4,List.mem_append,List.mem_cons,List.not_mem_nil,or_false] at mem
    rcases mem with ((mem | mem) | mem) | mem
    · exact wordsSmall _ t mem
    · exact wordsSmall _ t mem
    · omega
    · exact wordsSmall _ t mem
  rw [receivedSum,onesSumResidue terms,residueTop]
  simp only [pseudoHeaderV4,List.sum_append,List.sum_cons,List.sum_nil,wordsSum]
  omega

theorem segmentClosed {srcIp dstIp : Ipv4Addr} {srcPort dstPort c : UInt16} {payload : Bytes}
    (fits : payload.length ≤ 65507)
    (ok : udpChecksumV4 srcIp dstIp (udpHeader srcPort dstPort (8+payload.length) 0 ++ payload) =
      some c) : 0 < c.toNat ∧
        receivedSum srcIp dstIp (segment srcPort dstPort c payload) = 0xFFFF := by
  have blankLength := segmentLength srcPort dstPort (8+payload.length) 0 payload
  have length : (segment srcPort dstPort c payload).length = 8+payload.length :=
    segmentLength srcPort dstPort (8+payload.length) c payload
  have blank := segmentValue srcPort dstPort (8+payload.length) 0 payload
  have bytes : value (segment srcPort dstPort c payload) = _ :=
    segmentValue srcPort dstPort (8+payload.length) c payload
  have zero : (0 : UInt16).toNat = 0 := rfl
  obtain ⟨_,sum,closes,total⟩ := udpChecksumV4Same srcIp dstIp (by omega :
    (udpHeader srcPort dstPort (8+payload.length) 0 ++ payload).length < 65536)
  obtain ⟨d,closed,positive,residue⟩ := closingExact sum
  cases Option.some.inj (ok.symm.trans (closes.trans closed))
  refine ⟨positive,(receivedTop srcIp dstIp (by omega)).mpr ?_⟩
  rw [length,bytes]
  rw [total,blank,blankLength,zero] at residue
  omega

theorem checksumsVerify :
    (∀ (srcIp dstIp : Ipv4Addr) (srcPort dstPort : UInt16) (payload : Bytes),
      payload.length ≤ 65507 → ∃ packet,
        buildIpv4UdpPacket srcIp dstIp srcPort dstPort payload = some packet ∧
        buildIpv4Checked srcIp dstIp srcPort dstPort payload = some packet ∧
        checksum (packet.take 20) = some 0 ∧ checksumChecked (packet.take 20) = some 0 ∧
        receivedSum srcIp dstIp (packet.drop 20) = 0xFFFF ∧ readU16 (packet.drop 20) 6 ≠ 0) ∧
    (∀ (srcIp dstIp : Ipv6Addr) (srcPort dstPort : UInt16) (payload : Bytes),
      payload.length ≤ 65527 → ∃ packet,
        buildIpv6UdpPacket srcIp dstIp srcPort dstPort payload = some packet ∧
        buildIpv6Checked srcIp dstIp srcPort dstPort payload = some packet ∧
        (rawV6Output srcIp dstIp packet).Verifies ∧ readU16 packet 6 ≠ 0) ∧
    ∀ sum, ∃ r, Loop.Returns foldStep sum r := by
  refine ⟨?_,?_,foldEnds⟩
  · intro srcIp dstIp srcPort dstPort payload fits
    obtain ⟨a,c,headed,summed,built⟩ := ipv4Built srcIp dstIp srcPort dstPort payload
    have blankLength := segmentLength srcPort dstPort (8+payload.length) 0 payload
    have header : (ipv4Header srcIp dstIp (20+(8+payload.length))).length = 20 := by
      simp only [ipv4Header,List.length_append,List.length_cons,List.length_nil,
        Vector.length_toList]
    have sealed : (ipv4Packet srcIp dstIp srcPort dstPort payload a c).take 20 =
        setU16 (ipv4Header srcIp dstIp (20+(8+payload.length))) 10 a :=
      List.take_left' (headerLength srcIp dstIp payload a)
    have same := checksumSame (by omega :
      (ipv4Header srcIp dstIp (20+(8+payload.length))).length < 65536)
    have udpSame := (udpChecksumV4Same srcIp dstIp (by omega :
      (udpHeader srcPort dstPort (8+payload.length) 0 ++ payload).length < 65536)).1
    obtain ⟨positive,received⟩ := segmentClosed fits summed
    have field : readU16 (segment srcPort dstPort c payload) 6 = c.toNat := readPort _ rfl rfl
    refine ⟨_,built,?_,?_,?_,?_,?_⟩
    · simp only [buildIpv4Checked,same,udpSame,headed,summed,bind,Option.bind,setChecksum,
        ipv4Packet]
    · rw [sealed,sealedVerifies headed]
    · rw [sealed,checksumSame (by rw [headerLength]; omega),sealedVerifies headed]
    · rw [packetSegment,received]
    · rw [packetSegment]
      omega
  · intro srcIp dstIp srcPort dstPort payload fits
    obtain ⟨c,summed,built⟩ := ipv6Built srcIp dstIp srcPort dstPort payload
    have blankLength := segmentLength srcPort dstPort (8+payload.length) 0 payload
    have udpSame := udpChecksumV6Same srcIp dstIp (by omega :
      (udpHeader srcPort dstPort (8+payload.length) 0 ++ payload).length < 65536)
    obtain ⟨d,closed,positive,_⟩ := udpChecksumV6Exact srcIp dstIp
      (udpHeader srcPort dstPort (8+payload.length) 0 ++ payload) (by omega)
    cases Option.some.inj (summed.symm.trans closed)
    obtain ⟨packet,again,verifies⟩ := buildIpv6Verifies srcIp dstIp srcPort dstPort fits
    cases Option.some.inj (again.symm.trans built)
    have field : readU16 (udpHeader srcPort dstPort (8+payload.length) c ++ payload) 6 = c.toNat :=
      readPort _ rfl rfl
    refine ⟨_,built,?_,(verifies srcIp).mpr rfl,?_⟩
    · simp only [buildIpv6Checked,udpSame,summed,bind,Option.bind,setChecksum]
    · omega

end UdpBalancer.RawSocket
