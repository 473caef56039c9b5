import UdpBalancer.Config
import UdpBalancer.RawSource

/-! `Balancer::build_hash_key`: the bytes by which the hashing algorithms tell
packets apart, and what they identify. The key has no delimiters; blocks of two
packets line up because one packet's are nowhere longer than the other's. -/
namespace UdpBalancer.HashKey
open Backends Config RawSocket

def u16FromBeBytes (a b : UInt8) : UInt16 := a.toUInt16 <<< 8 ||| b.toUInt16

def u32FromBeBytes (a b c d : UInt8) : UInt32 :=
  a.toUInt32 <<< 24 ||| b.toUInt32 <<< 16 ||| c.toUInt32 <<< 8 ||| d.toUInt32

def u16ToBeBytes (x : UInt16) : Bytes := [highByte x,lowByte x]

def u32ToBeBytes (x : UInt32) : Bytes :=
  [(x >>> 24).toUInt8,(x >>> 16).toUInt8,(x >>> 8).toUInt8,x.toUInt8]

def byteAt (payload : Bytes) (i : Nat) : UInt8 := payload.getD i 0

def extractIpfixObservationDomainId (payload : Bytes) : Option UInt32 :=
  if payload.length < 16 then none
  else if u16FromBeBytes (byteAt payload 0) (byteAt payload 1) ≠ 10 then none
  else some (u32FromBeBytes (byteAt payload 12) (byteAt payload 13) (byteAt payload 14)
    (byteAt payload 15))

def extractIpfixTemplateId (payload : Bytes) : Option UInt16 :=
  if payload.length < 18 then none
  else if u16FromBeBytes (byteAt payload 0) (byteAt payload 1) ≠ 10 then none
  else
    let setId := u16FromBeBytes (byteAt payload 16) (byteAt payload 17)
    if 256 ≤ setId then some setId else none

def ipOctets : IpAddr → Bytes
  | .v4 ip => ip.octets.toList
  | .v6 ip => ip.octets.toList

def fieldBytes (srcIp dstIp : IpAddr) (srcPort dstPort : UInt16) (payload : Bytes) :
    HashKeyField → Bytes
  | .srcIp => ipOctets srcIp
  | .dstIp => ipOctets dstIp
  | .srcPort => u16ToBeBytes srcPort
  | .dstPort => u16ToBeBytes dstPort
  | .ipfix => (extractIpfixObservationDomainId payload).elim [] u32ToBeBytes
  | .ipfixTemplateId => (extractIpfixTemplateId payload).elim [] u16ToBeBytes

def buildHashKey (hashKeyFields : List HashKeyField) (srcIp dstIp : IpAddr)
    (srcPort dstPort : UInt16) (payload : Bytes) : Bytes :=
  hashKeyFields.foldl (fun key field => key ++ fieldBytes srcIp dstIp srcPort dstPort payload field) []

example : buildHashKey [.srcIp,.dstIp,.srcPort,.dstPort] (.v4 (.new 192 168 1 1))
    (.v4 (.new 10 0 0 1)) 0x3039 0x0807 [] =
      [192,168,1,1,10,0,0,1,0x30,0x39,0x08,0x07] := by decide

/- Concatenated blocks: where those of one side are never the longer ones, equal
concatenations have equal blocks. -/
section blocks
variable {α β : Type} {xs : List α} {f g : α → List β}

theorem blocksLength (le : ∀ x ∈ xs, (f x).length ≤ (g x).length) :
    (xs.flatMap f).length ≤ (xs.flatMap g).length := by
  induction xs with
  | nil => exact Nat.le_refl 0
  | cons x rest ih =>
    have head := le x List.mem_cons_self
    have tail := ih (fun y mem => le y (List.mem_cons_of_mem x mem))
    simp only [List.flatMap_cons,List.length_append]
    omega

theorem blocksEqual (le : ∀ x ∈ xs, (f x).length ≤ (g x).length)
    (same : xs.flatMap f = xs.flatMap g) : ∀ x ∈ xs, f x = g x := by
  induction xs with
  | nil =>
    intro x mem
    exact absurd mem List.not_mem_nil
  | cons x rest ih =>
    have after : ∀ y ∈ rest, (f y).length ≤ (g y).length :=
      fun y mem => le y (List.mem_cons_of_mem x mem)
    simp only [List.flatMap_cons] at same
    have total := congrArg List.length same
    simp only [List.length_append] at total
    have head := le x List.mem_cons_self
    have tail := blocksLength after
    obtain ⟨first,others⟩ := List.append_inj same (by omega)
    intro y mem
    rcases List.mem_cons.mp mem with rfl | later
    · exact first
    · exact ih after others y later

theorem foldlBlocks (start : List β) :
    xs.foldl (fun key x => key ++ f x) start = start ++ xs.flatMap f := by
  induction xs generalizing start with
  | nil => exact (List.append_nil start).symm
  | cons x rest ih => rw [List.foldl_cons,ih,List.flatMap_cons,List.append_assoc]

theorem optionalLe {n : Nat} (length : ∀ x, (f x).length = n) {a b : Option α}
    (covered : a.isSome → b.isSome) : (a.elim [] f).length ≤ (b.elim [] f).length := by
  cases a with
  | none => exact Nat.zero_le _
  | some x =>
    obtain ⟨y,rfl⟩ := Option.isSome_iff_exists.mp (covered rfl)
    exact ((length x).trans (length y).symm).le

theorem optionalEqual (inj : ∀ {x y}, f x = f y → x = y) (present : ∀ x, f x ≠ [])
    {a b : Option α} : a.elim [] f = b.elim [] f ↔ a = b := by
  refine ⟨fun same => ?_,congrArg (Option.elim · [] f)⟩
  cases a with
  | none =>
    cases b with
    | none => rfl
    | some y => exact absurd same.symm (present y)
  | some x =>
    cases b with
    | none => exact absurd same (present x)
    | some y => exact congrArg some (inj same)

end blocks

theorem u16BytesInj {x y : UInt16} (same : u16ToBeBytes x = u16ToBeBytes y) : x = y := by
  simp only [u16ToBeBytes,List.cons.injEq,and_true] at same
  apply UInt16.toNat.inj
  rw [← wordBytes x,← wordBytes y,same.1,same.2]

theorem u32BytesValue (x : UInt32) :
    16777216*(x >>> 24).toUInt8.toNat+65536*(x >>> 16).toUInt8.toNat+
      256*(x >>> 8).toUInt8.toNat+x.toUInt8.toNat = x.toNat := by
  have bound := x.toNat_lt
  simp only [UInt32.toNat_toUInt8,UInt32.toNat_shiftRight,Nat.shiftRight_eq_div_pow]
  change 16777216*(x.toNat/2^24 % 256)+65536*(x.toNat/2^16 % 256)+256*(x.toNat/2^8 % 256)+
    x.toNat % 256 = x.toNat
  omega

theorem u32BytesInj {x y : UInt32} (same : u32ToBeBytes x = u32ToBeBytes y) : x = y := by
  simp only [u32ToBeBytes,List.cons.injEq,and_true] at same
  obtain ⟨first,second,third,last⟩ := same
  apply UInt32.toNat.inj
  rw [← u32BytesValue x,← u32BytesValue y,first,second,third,last]

theorem shiftedNat (x : UInt8) {n : UInt32} {k : Nat} (same : n.toNat % 32 = k) (small : k ≤ 24) :
    (x.toUInt32 <<< n).toNat = x.toNat <<< k := by
  have fits : x.toNat <<< k < 2^32 := by
    rw [Nat.shiftLeft_eq]
    calc x.toNat*2^k < 2^8*2^k := Nat.mul_lt_mul_of_pos_right x.toNat_lt (Nat.two_pow_pos k)
      _ ≤ 2^8*2^24 := Nat.mul_le_mul_left _ (Nat.pow_le_pow_right (by decide) small)
      _ = 2^32 := by norm_num
  rw [UInt32.toNat_shiftLeft,UInt8.toNat_toUInt32,same]
  exact Nat.mod_eq_of_lt fits

theorem shiftedOr (n : Nat) (x : UInt8) : n <<< 8 ||| x.toNat = 256*n+x.toNat := by
  rw [← Nat.shiftLeft_add_eq_or_of_lt x.toNat_lt,Nat.shiftLeft_eq,Nat.mul_comm]

theorem u16Value (a b : UInt8) : (u16FromBeBytes a b).toNat = 256*a.toNat+b.toNat :=
  pairNat a b

theorem u32Value (a b c d : UInt8) : (u32FromBeBytes a b c d).toNat =
    16777216*a.toNat+65536*b.toNat+256*c.toNat+d.toNat := by
  rw [u32FromBeBytes,UInt32.toNat_or,UInt32.toNat_or,UInt32.toNat_or,
    shiftedNat a (k := 24) rfl (by decide),shiftedNat b (k := 16) rfl (by decide),
    shiftedNat c (k := 8) rfl (by decide),UInt8.toNat_toUInt32]
  have horner : a.toNat <<< 24 ||| b.toNat <<< 16 ||| c.toNat <<< 8 =
      ((a.toNat <<< 8 ||| b.toNat) <<< 8 ||| c.toNat) <<< 8 := by
    simp only [Nat.shiftLeft_or_distrib,← Nat.shiftLeft_add]
  rw [horner,shiftedOr,shiftedOr,shiftedOr]
  omega

theorem u16Bytes (a b : UInt8) : u16ToBeBytes (u16FromBeBytes a b) = [a,b] := by
  obtain ⟨high,low⟩ := bytesOfWord (u16Value a b)
  rw [u16ToBeBytes,high,low]

theorem u32Bytes (a b c d : UInt8) : u32ToBeBytes (u32FromBeBytes a b c d) = [a,b,c,d] := by
  have value := (u32BytesValue (u32FromBeBytes a b c d)).trans (u32Value a b c d)
  have ha := a.toNat_lt
  have hb := b.toNat_lt
  have hc := c.toNat_lt
  have hd := d.toNat_lt
  have first := (u32FromBeBytes a b c d >>> 24).toUInt8.toNat_lt
  have second := (u32FromBeBytes a b c d >>> 16).toUInt8.toNat_lt
  have third := (u32FromBeBytes a b c d >>> 8).toUInt8.toNat_lt
  have last := (u32FromBeBytes a b c d).toUInt8.toNat_lt
  simp only [u32ToBeBytes,List.cons.injEq,and_true,← UInt8.toNat_inj]
  omega

/- What a payload says of itself, without the code that reads it: an IPFIX message
has version 10 in its first two bytes. Its observation domain id are bytes 12 to 15;
the id of its first set, bytes 16 and 17, is a template's from 256 on. -/
def CarriesAt (start : Nat) (payload id : Bytes) : Prop :=
  ∃ header rest, payload = 0::10::header ++ id ++ rest ∧ header.length+2 = start

def CarriesDomain (payload id : Bytes) : Prop := CarriesAt 12 payload id ∧ id.length = 4

def CarriesTemplate (payload id : Bytes) : Prop :=
  CarriesAt 16 payload id ∧ ∃ a b, id = [a,b] ∧ 256 ≤ 256*a.toNat+b.toNat

def SameIn (carries : Bytes → Bytes → Prop) (one two : Bytes) : Prop :=
  (∀ id, ¬carries one id) ∧ (∀ id, ¬carries two id) ∨ ∃ id, carries one id ∧ carries two id

theorem versionTen {a b : UInt8} : u16FromBeBytes a b = 10 ↔ a = 0 ∧ b = 10 := by
  constructor
  · intro same
    have value := u16Value a b
    rw [same] at value
    change 10 = 256*a.toNat+b.toNat at value
    have low := b.toNat_lt
    exact ⟨UInt8.toNat.inj (show a.toNat = 0 by omega),UInt8.toNat.inj (show b.toNat = 10 by omega)⟩
  · rintro ⟨rfl,rfl⟩
    rfl

theorem carriedBytes {start : Nat} {payload id : Bytes} (behind : 2 ≤ start) :
    CarriesAt start payload id ↔ start+id.length ≤ payload.length ∧
      u16FromBeBytes (byteAt payload 0) (byteAt payload 1) = 10 ∧
      (payload.drop start).take id.length = id := by
  constructor
  · rintro ⟨header,rest,rfl,rfl⟩
    refine ⟨?_,versionTen.mpr ⟨rfl,rfl⟩,?_⟩
    · simp only [List.length_append,List.length_cons]
      omega
    · simp only [List.cons_append,List.append_assoc,List.drop_succ_cons,List.drop_left,
        List.take_left]
  · rintro ⟨long,version,shown⟩
    rcases payload with _ | ⟨a,_ | ⟨b,tail⟩⟩
    · simp only [List.length_nil] at long
      omega
    · simp only [List.length_cons,List.length_nil] at long
      omega
    · obtain ⟨rfl,rfl⟩ := versionTen.mp version
      obtain ⟨n,rfl⟩ := Nat.exists_eq_add_of_le' behind
      simp only [List.length_cons,List.drop_succ_cons] at long shown
      refine ⟨tail.take n,tail.drop (n+id.length),?_,?_⟩
      · have parts : tail = tail.take n ++ (tail.drop n).take id.length ++
            tail.drop (n+id.length) := by
          rw [List.append_assoc,← List.drop_drop,List.take_append_drop,List.take_append_drop]
        rw [shown] at parts
        simpa only [List.cons_append] using congrArg (fun rest => 0::10::rest) parts
      · rw [List.length_take]
        omega

theorem bytesAt {payload : Bytes} {start n : Nat} (long : start+n ≤ payload.length) :
    (payload.drop start).take n = (List.range n).map fun k => byteAt payload (start+k) := by
  refine List.ext_getElem ?_ fun k left right => ?_
  · rw [List.length_take,List.length_drop,List.length_map,List.length_range]
    omega
  · rw [List.length_map,List.length_range] at right
    rw [List.getElem_take,List.getElem_drop,List.getElem_map,List.getElem_range]
    exact List.getElem_eq_getD 0

/- Both readers look at the length first and at the version then. -/
theorem guardedRead {α : Type} {n : Nat} {payload id : Bytes} {value : Option α}
    {encode : α → Bytes} {Carries : Prop}
    (there : Carries → n ≤ payload.length ∧
      u16FromBeBytes (byteAt payload 0) (byteAt payload 1) = 10)
    (reads : n ≤ payload.length → u16FromBeBytes (byteAt payload 0) (byteAt payload 1) = 10 →
      (value.map encode = some id ↔ Carries)) :
    (if payload.length < n then none
      else if u16FromBeBytes (byteAt payload 0) (byteAt payload 1) ≠ 10 then none
      else value).map encode = some id ↔ Carries := by
  split
  · rename_i short
    refine ⟨fun none => absurd none (Option.some_ne_none id).symm,fun carried => ?_⟩
    have long := (there carried).1
    omega
  · rename_i long
    split
    · rename_i version
      exact ⟨fun none => absurd none (Option.some_ne_none id).symm,
        fun carried => absurd (there carried).2 version⟩
    · rename_i version
      exact reads (Nat.le_of_not_lt long) (not_not.mp version)

theorem domainCarried (payload id : Bytes) :
    (extractIpfixObservationDomainId payload).map u32ToBeBytes = some id ↔
      CarriesDomain payload id := by
  rw [CarriesDomain,carriedBytes (by decide)]
  refine guardedRead (fun ⟨⟨long,version,_⟩,four⟩ => ⟨by omega,version⟩) fun long version => ?_
  have shown : (payload.drop 12).take 4 = u32ToBeBytes
      (u32FromBeBytes (byteAt payload 12) (byteAt payload 13) (byteAt payload 14)
        (byteAt payload 15)) := by
    rw [u32Bytes,bytesAt long]
    rfl
  rw [Option.map_some,Option.some.injEq,← shown]
  constructor
  · rintro rfl
    have four : ((payload.drop 12).take 4).length = 4 := by
      rw [List.length_take,List.length_drop]
      omega
    rw [four]
    exact ⟨⟨long,version,rfl⟩,rfl⟩
  · rintro ⟨⟨_,_,same⟩,four⟩
    rwa [four] at same

theorem templateCarried (payload id : Bytes) :
    (extractIpfixTemplateId payload).map u16ToBeBytes = some id ↔ CarriesTemplate payload id := by
  rw [CarriesTemplate,carriedBytes (by decide)]
  refine guardedRead (fun ⟨⟨long,version,_⟩,_,_,pair,_⟩ => ?_) fun long version => ?_
  · rw [pair] at long
    exact ⟨long,version⟩
  have shown : (payload.drop 16).take 2 = [byteAt payload 16,byteAt payload 17] := bytesAt long
  have data : (256 ≤ u16FromBeBytes (byteAt payload 16) (byteAt payload 17)) ↔
      256 ≤ 256*(byteAt payload 16).toNat+(byteAt payload 17).toNat := by
    rw [← u16Value,UInt16.le_iff_toNat_le]
    rfl
  simp only [data]
  split
  · rename_i data
    rw [Option.map_some,Option.some.injEq,u16Bytes]
    constructor
    · rintro rfl
      exact ⟨⟨long,version,shown⟩,_,_,rfl,data⟩
    · rintro ⟨⟨_,_,same⟩,a,b,rfl,_⟩
      exact shown.symm.trans same
  · rename_i small
    constructor
    · intro none
      contradiction
    · rintro ⟨⟨_,_,same⟩,a,b,rfl,data⟩
      have pair := shown.symm.trans same
      simp only [List.cons.injEq,and_true] at pair
      rw [pair.1,pair.2] at small
      exact absurd data small

theorem sameRead {α : Type} {read : Bytes → Option α} {encode : α → Bytes}
    {carries : Bytes → Bytes → Prop} (inj : ∀ {x y}, encode x = encode y → x = y)
    (reads : ∀ payload id, (read payload).map encode = some id ↔ carries payload id)
    (one two : Bytes) : read one = read two ↔ SameIn carries one two := by
  have finds {payload : Bytes} {x : α} (found : read payload = some x) :
      ∀ id, carries payload id ↔ encode x = id := by
    intro id
    rw [← reads,found,Option.map_some,Option.some.injEq]
  have misses {payload : Bytes} (nothing : read payload = none) : ∀ id, ¬carries payload id := by
    intro id carried
    rw [← reads,nothing] at carried
    contradiction
  constructor
  · intro same
    cases found : read two with
    | none => exact .inl ⟨misses (same.trans found),misses found⟩
    | some x =>
      exact .inr ⟨encode x,(finds (same.trans found) _).mpr rfl,(finds found _).mpr rfl⟩
  · rintro (⟨first,second⟩ | ⟨id,first,second⟩)
    · have nothing {payload : Bytes} (without : ∀ id, ¬carries payload id) :
          read payload = none := by
        cases found : read payload with
        | none => rfl
        | some x => exact absurd ((finds found _).mpr rfl) (without (encode x))
      rw [nothing first,nothing second]
    · obtain ⟨x,left,here⟩ := Option.map_eq_some_iff.mp ((reads one id).mpr first)
      obtain ⟨y,right,there⟩ := Option.map_eq_some_iff.mp ((reads two id).mpr second)
      rw [left,right,inj (here.trans there.symm)]

structure Packet where
  srcIp : IpAddr
  dstIp : IpAddr
  srcPort : UInt16
  dstPort : UInt16
  payload : Bytes
  deriving DecidableEq

namespace Packet

def hashKey (hashKeyFields : List HashKeyField) (p : Packet) : Bytes :=
  buildHashKey hashKeyFields p.srcIp p.dstIp p.srcPort p.dstPort p.payload

def block (p : Packet) : HashKeyField → Bytes :=
  fieldBytes p.srcIp p.dstIp p.srcPort p.dstPort p.payload

def Agree (p q : Packet) : HashKeyField → Prop
  | .srcIp => p.srcIp = q.srcIp
  | .dstIp => p.dstIp = q.dstIp
  | .srcPort => p.srcPort = q.srcPort
  | .dstPort => p.dstPort = q.dstPort
  | .ipfix => SameIn CarriesDomain p.payload q.payload
  | .ipfixTemplateId => SameIn CarriesTemplate p.payload q.payload

/- What one listener guarantees of two packets it receives. -/
structure SameFamily (p q : Packet) : Prop where
  src : p.srcIp.isIpv6 = q.srcIp.isIpv6
  dst : p.dstIp.isIpv6 = q.dstIp.isIpv6

variable {p q : Packet}

theorem keyBlocks (fields : List HashKeyField) (p : Packet) :
    p.hashKey fields = fields.flatMap p.block := by
  unfold hashKey buildHashKey
  rw [foldlBlocks,List.nil_append]
  rfl

theorem templateHasDomain (payload : Bytes) (present : (extractIpfixTemplateId payload).isSome) :
    (extractIpfixObservationDomainId payload).isSome := by
  unfold extractIpfixTemplateId at present
  unfold extractIpfixObservationDomainId
  split at present
  · contradiction
  · rename_i long
    split at present
    · contradiction
    · rename_i version
      rw [if_neg (by omega),if_neg version]
      exact rfl

theorem ipOctetsLength (ip : IpAddr) :
    (ipOctets ip).length = if ip.isIpv6 then 16 else 4 := by
  cases ip with
  | v4 ip => exact ip.octets.length_toList
  | v6 ip => exact ip.octets.length_toList

theorem ipOctetsInj {a b : IpAddr} (family : a.isIpv6 = b.isIpv6)
    (same : ipOctets a = ipOctets b) : a = b := by
  cases a with
  | v4 a =>
    cases b with
    | v4 b => rw [show a = b from congrArg Ipv4Addr.mk (Vector.toList_inj.mp same)]
    | v6 b => contradiction
  | v6 a =>
    cases b with
    | v4 b => contradiction
    | v6 b => rw [show a = b from congrArg Ipv6Addr.mk (Vector.toList_inj.mp same)]

structure Covered (p q : Packet) : Prop where
  domain : (extractIpfixObservationDomainId p.payload).isSome →
    (extractIpfixObservationDomainId q.payload).isSome
  template : (extractIpfixTemplateId p.payload).isSome → (extractIpfixTemplateId q.payload).isSome

theorem coveredTotal (p q : Packet) : Covered p q ∨ Covered q p := by
  have left := templateHasDomain p.payload
  have right := templateHasDomain q.payload
  by_cases domain : (extractIpfixObservationDomainId p.payload).isSome →
      (extractIpfixObservationDomainId q.payload).isSome
  · by_cases template : (extractIpfixTemplateId p.payload).isSome →
        (extractIpfixTemplateId q.payload).isSome
    · exact .inl ⟨domain,template⟩
    · exact .inr ⟨by tauto,by tauto⟩
  · exact .inr ⟨by tauto,by tauto⟩

theorem blockLe (family : SameFamily p q) (covered : Covered p q) (field : HashKeyField) :
    (p.block field).length ≤ (q.block field).length := by
  cases field with
  | srcIp =>
    simp only [block,fieldBytes,ipOctetsLength,family.src]
    exact Nat.le_refl _
  | dstIp =>
    simp only [block,fieldBytes,ipOctetsLength,family.dst]
    exact Nat.le_refl _
  | srcPort => exact Nat.le_refl 2
  | dstPort => exact Nat.le_refl 2
  | ipfix => exact optionalLe (f := u32ToBeBytes) (n := 4) (fun _ => rfl) covered.domain
  | ipfixTemplateId =>
    exact optionalLe (f := u16ToBeBytes) (n := 2) (fun _ => rfl) covered.template

theorem agreeBlock {field : HashKeyField} (agree : Agree p q field) :
    p.block field = q.block field := by
  cases field with
  | srcIp => exact congrArg ipOctets agree
  | dstIp => exact congrArg ipOctets agree
  | srcPort => exact congrArg u16ToBeBytes agree
  | dstPort => exact congrArg u16ToBeBytes agree
  | ipfix =>
    have read := (sameRead u32BytesInj domainCarried _ _).mpr agree
    exact congrArg (Option.elim · [] u32ToBeBytes) read
  | ipfixTemplateId =>
    have read := (sameRead u16BytesInj templateCarried _ _).mpr agree
    exact congrArg (Option.elim · [] u16ToBeBytes) read

theorem blockAgrees (family : SameFamily p q) {field : HashKeyField}
    (same : p.block field = q.block field) : Agree p q field := by
  cases field with
  | srcIp => exact ipOctetsInj family.src same
  | dstIp => exact ipOctetsInj family.dst same
  | srcPort => exact u16BytesInj same
  | dstPort => exact u16BytesInj same
  | ipfix =>
    have read := (optionalEqual u32BytesInj (fun _ => List.cons_ne_nil _ _)).mp same
    exact (sameRead u32BytesInj domainCarried _ _).mp read
  | ipfixTemplateId =>
    have read := (optionalEqual u16BytesInj (fun _ => List.cons_ne_nil _ _)).mp same
    exact (sameRead u16BytesInj templateCarried _ _).mp read

theorem flowKey {fields : List HashKeyField} (flow : ∀ field ∈ fields, Agree p q field) :
    p.hashKey fields = q.hashKey fields := by
  rw [keyBlocks,keyBlocks]
  exact List.flatMap_congr fun field mem => agreeBlock (flow field mem)

theorem keyLinesUp (family : SameFamily p q) (covered : Covered p q)
    {fields : List HashKeyField} (same : p.hashKey fields = q.hashKey fields) :
    ∀ field ∈ fields, p.block field = q.block field := by
  rw [keyBlocks,keyBlocks] at same
  exact blocksEqual (fun field _ => blockLe family covered field) same

theorem keysExact (hashKeyFields : List HashKeyField) (p q : Packet)
    (family : SameFamily p q) :
    p.hashKey hashKeyFields = q.hashKey hashKeyFields ↔
      ∀ field ∈ hashKeyFields, Agree p q field := by
  have swapped : SameFamily q p := ⟨family.src.symm,family.dst.symm⟩
  refine ⟨fun same field mem => blockAgrees family ?_,flowKey⟩
  rcases coveredTotal p q with covered | covered
  · exact keyLinesUp family covered same field mem
  · exact (keyLinesUp swapped covered same.symm field mem).symm

/- An IPFIX message of one data set against one of another template: the domain
id alone does not separate them, the template id does. -/
def ipfixMessage (setId : UInt8) : Bytes := [0,10,0,18,0,0,0,0,0,0,0,0,0,0,0,7,1,setId]

def ipfixPacket (setId : UInt8) : Packet :=
  ⟨.v4 (.new 192 0 2 1),.v4 (.new 192 0 2 2),4739,2055,ipfixMessage setId⟩

theorem templatesTellApart :
    (ipfixPacket 0).hashKey [.ipfix] = (ipfixPacket 1).hashKey [.ipfix] ∧
    (ipfixPacket 0).hashKey [.ipfixTemplateId,.ipfix] ≠
      (ipfixPacket 1).hashKey [.ipfixTemplateId,.ipfix] := by
  have family : SameFamily (ipfixPacket 0) (ipfixPacket 1) := ⟨rfl,rfl⟩
  refine ⟨(keysExact _ _ _ family).mpr ?_,fun same => ?_⟩
  · intro field mem
    cases List.mem_singleton.mp mem
    have carried (setId : UInt8) : CarriesDomain (ipfixMessage setId) [0,0,0,7] :=
      ⟨⟨[0,18,0,0,0,0,0,0,0,0],[1,setId],rfl,rfl⟩,rfl⟩
    exact .inr ⟨_,carried 0,carried 1⟩
  · have agree := (keysExact _ _ _ family).mp same .ipfixTemplateId List.mem_cons_self
    have read := (sameRead u16BytesInj templateCarried _ _).mpr agree
    exact absurd read (by decide : extractIpfixTemplateId (ipfixMessage 0) ≠
      extractIpfixTemplateId (ipfixMessage 1))

end Packet
end UdpBalancer.HashKey
