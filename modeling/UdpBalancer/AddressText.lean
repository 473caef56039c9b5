import UdpBalancer.Forwarding

/-! The text that `to_string` prints for a socket address, read back by the readers
of the standard library. Everything comes back but the flow label, which is not
printed; what stands after an address only has to end it. -/
namespace UdpBalancer
open Backends NetParse Reader

namespace AddressText

def chars (bytes : Bytes) : List Char := bytes.map fun byte => Char.ofNat byte.toNat

theorem textChars (address : SocketAddr) : address.text.toList = chars address.display :=
  String.toList_ofList

theorem charsAppend (a b : Bytes) : chars (a ++ b) = chars a ++ chars b := List.map_append

theorem charsDigits {radix : Nat} (prints : Prints radix) (n : Nat) :
    chars (digits radix n) = Nat.toDigits radix n := by
  have back : ∀ d < 16, Char.ofNat (UInt8.ofNat (Nat.digitChar d).toNat).toNat =
      Nat.digitChar d := by decide
  rw [chars,digits,List.map_map]
  refine (List.map_congr_left fun c mem => ?_).trans (List.map_id _)
  obtain ⟨d,small,rfl⟩ := printedDigit prints.base mem
  exact back d (small.trans_le prints.most)

theorem charsJoined {radix : Nat} (prints : Prints radix) (separator : UInt8) (n : Nat)
    (ns : List Nat) : chars (joinWith separator ((n::ns).map (digits radix))) =
      Nat.toDigits radix n ++ later (Char.ofNat separator.toNat) (Nat.toDigits radix) ns := by
  induction ns generalizing n with
  | nil => simpa [joinWith,later] using charsDigits prints n
  | cons m ns ih =>
    have others := ih m
    simp only [List.map_cons,joinWith,charsAppend,charsDigits prints] at others ⊢
    rw [others]
    simp [chars,later]

theorem octetRead (octet : UInt8) {rest : List Char} (ends : Ends 10 rest) :
    number 10 (some 3) false 255 (Nat.toDigits 10 octet.toNat ++ rest) =
      some (octet.toNat,rest) := by
  have bound : octet.toNat < 256 := octet.toNat_lt
  exact numberPrinted decimal false
    (fitsFew decimal.base (by decide) (by omega)) (by omega) ends

theorem v4Octets (ip : Ipv4Addr) : ∃ a b c d, ip = .new a b c d := by
  obtain ⟨⟨⟨octets⟩,size⟩⟩ := ip
  match octets,size with
  | [a,b,c,d],_ => exact ⟨a,b,c,d,rfl⟩

theorem v4Chars (a b c d : UInt8) : chars (Ipv4Addr.new a b c d).display =
    Nat.toDigits 10 a.toNat ++ later '.' (Nat.toDigits 10) [b.toNat,c.toNat,d.toNat] :=
  charsJoined decimal 46 a.toNat [b.toNat,c.toNat,d.toNat]

theorem v4Read (ip : Ipv4Addr) {rest : List Char} (ends : Ends 10 rest) :
    readIpv4Addr (chars ip.display ++ rest) = some (ip,rest) := by
  obtain ⟨a,b,c,d,rfl⟩ := v4Octets ip
  have reads : ∀ n ∈ [a.toNat,b.toNat,c.toNat,d.toNat],∀ rest,Ends 10 rest →
      number 10 (some 3) false 255 (Nat.toDigits 10 n ++ rest) = some (n,rest) := by
    intro n mem rest ends
    simp only [List.mem_cons,List.not_mem_nil,or_false] at mem
    rcases mem with rfl | rfl | rfl | rfl
    all_goals exact octetRead _ ends
  have dot : toDigit 10 '.' = none := by decide
  have groups := partsWritten (endsAt dot) reads ends
  rw [v4Chars,List.append_assoc]
  simp only [readIpv4Addr,bind,Option.bind]
  rw [show 4 = [b.toNat,c.toNat,d.toNat].length+1 from rfl,groups]
  simp

def Halts (rest : List Char) : Prop := Ends 16 rest ∧ rest.head? ≠ some '.'

theorem endsTen {s : List Char} (ends : Ends 16 s) : Ends 10 s := by
  intro c mem
  have none := ends c mem
  simp only [toDigit,Option.filter_eq_none_iff] at none ⊢
  intro digit found
  have large := none digit found
  simp only [decide_eq_true_eq] at large ⊢
  omega

theorem hexDotless (n : Nat) : '.' ∉ Nat.toDigits 16 n := by
  intro mem
  have read := printedRead hexadecimal mem
  exact absurd read (by decide)

theorem digitRunLeaves {maxDigits : Option Nat} {limit result count : Nat} {w rest t : List Char}
    {x : Nat × Nat} (dotless : '.' ∉ w) (halts : Halts rest)
    (run : digitRun 10 maxDigits limit result count (w ++ rest) = some (x,t)) :
    t.head? ≠ some '.' := by
  induction w generalizing result count with
  | nil =>
    rw [List.nil_append,digitRunEnds (endsTen halts.1)] at run
    cases run
    exact halts.2
  | cons c w ih =>
    simp only [List.mem_cons,not_or] at dotless
    rw [List.cons_append,digitRun] at run
    split at run
    · cases run
      simpa using Ne.symm dotless.1
    · rw [Option.ite_none_left_eq_some] at run
      exact ih dotless.2 run.2

theorem numberLeaves {maxDigits : Option Nat} {allowZeroPrefix : Bool} {limit x : Nat}
    {w rest t : List Char} (dotless : '.' ∉ w) (halts : Halts rest)
    (read : number 10 maxDigits allowZeroPrefix limit (w ++ rest) = some (x,t)) :
    t.head? ≠ some '.' := by
  simp only [number,bind,Option.bind_eq_some_iff] at read
  obtain ⟨⟨⟨n,m⟩,u⟩,run,last⟩ := read
  split at last
  · contradiction
  · split at last
    · contradiction
    · split at last
      · contradiction
      · cases last
        exact digitRunLeaves dotless halts run

theorem givenFails {target : Char} {s : List Char} (other : s.head? ≠ some target) :
    given target s = none := by
  cases s with
  | nil => rfl
  | cons c s => exact if_neg fun same => other (congrArg some same)

theorem noOctets {w rest : List Char} (dotless : '.' ∉ w) (halts : Halts rest) :
    readIpv4Addr (w ++ rest) = none := by
  simp only [readIpv4Addr,parts,separated,Nat.lt_irrefl,if_false]
  cases read : number 10 (some 3) false 255 (w ++ rest) with
  | none => rfl
  | some found =>
    obtain ⟨x,t⟩ := found
    have stop := givenFails (numberLeaves dotless halts read)
    simp [bind,Option.bind,stop]

def Stuck (rest : List Char) : Prop := Halts rest ∧ ∀ s, rest = ':'::s → Ends 16 s

theorem numberFails {radix limit : Nat} {maxDigits : Option Nat} {allowZeroPrefix : Bool}
    {s : List Char} (ends : Ends radix s) :
    number radix maxDigits allowZeroPrefix limit s = none := by
  simp [number,digitRunEnds ends]

theorem octetsFail {s : List Char} (ends : Ends 16 s) : readIpv4Addr s = none := by
  simp [readIpv4Addr,parts,separated,numberFails (endsTen ends)]

theorem separatedFails {α : Type} {inner : Reader α} (index : Nat) {rest : List Char}
    (fails : ∀ s, Ends 16 s → inner s = none) (stuck : Stuck rest) :
    separated ':' index inner rest = none := by
  unfold separated
  split
  · cases rest with
    | nil => rfl
    | cons c s =>
      by_cases colon : c = ':'
      · subst colon
        simp [given,fails s (stuck.2 s rfl)]
      · simp [given,colon]
  · exact fails rest stuck.1.1

theorem groupsFail (index left : Nat) {rest : List Char} (stuck : Stuck rest) :
    readGroups index left rest = (([],false),rest) := by
  cases left with
  | zero => rfl
  | succ left =>
    have first := separatedFails index (fun s => octetsFail (s := s)) stuck
    have second : separated ':' index (number 16 (some 4) true 65535) rest = none :=
      separatedFails index (fun s => numberFails) stuck
    rw [readGroups,first,ite_self,second]

def lead (index : Nat) (s : List Char) : List Char := if index = 0 then s else ':'::s

theorem separatedLead {α : Type} (index : Nat) (inner : Reader α) (s : List Char) :
    separated ':' index inner (lead index s) = inner s := by
  cases index with
  | zero => rfl
  | succ index => exact separatedLater index s

theorem groupRead {n : Nat} (small : n < 65536) {rest : List Char} (ends : Ends 16 rest) :
    number 16 (some 4) true 65535 (Nat.toDigits 16 n ++ rest) = some (n,rest) := by
  exact numberPrinted hexadecimal true
    (fitsFew hexadecimal.base (by decide) (by omega)) (by omega) ends

theorem groupPrinted (index left : Nat) {n : Nat} (small : n < 65536) {rest t : List Char}
    {groups : List UInt16} {ipv4 : Bool} (halts : Halts rest)
    (others : readGroups (index+1) left rest = ((groups,ipv4),t)) :
    readGroups index (left+1) (lead index (Nat.toDigits 16 n ++ rest)) =
      ((UInt16.ofNat n::groups,ipv4),t) := by
  rw [readGroups,separatedLead,separatedLead,noOctets (hexDotless n) halts,ite_self,
    groupRead small halts.1]
  simp only [others]

theorem colonHalts (s : List Char) : Halts (':'::s) := ⟨endsAt (by decide) s,by simp⟩

theorem haltsLater {rest : List Char} (halts : Halts rest) (ns : List Nat) :
    Halts (later ':' (Nat.toDigits 16) ns ++ rest) :=
  stopsLater colonHalts halts ns

theorem groupsLater (index left : Nat) {ns : List Nat} (small : ∀ n ∈ ns, n < 65536)
    (room : ns.length ≤ left) {rest : List Char} (stuck : Stuck rest) :
    readGroups (index+1) left (later ':' (Nat.toDigits 16) ns ++ rest) =
      ((ns.map UInt16.ofNat,false),rest) := by
  induction ns generalizing index left with
  | nil => exact groupsFail (index+1) left stuck
  | cons n ns ih =>
    obtain ⟨left,rfl⟩ : ∃ k, left = k+1 := ⟨left-1,by rw [List.length_cons] at room; omega⟩
    have others := ih (index+1) left (fun m mem => small m (List.mem_cons_of_mem n mem))
      (by simpa using room)
    have text : later ':' (Nat.toDigits 16) (n::ns) ++ rest =
        lead (index+1) (Nat.toDigits 16 n ++ (later ':' (Nat.toDigits 16) ns ++ rest)) := by
      simp [later,lead]
    rw [text,groupPrinted (index+1) left (small n List.mem_cons_self) (haltsLater stuck.1 ns)
      others,List.map_cons]

def hex (ns : List Nat) : Bytes := joinWith 58 (ns.map (digits 16))

theorem groupsPrinted (left : Nat) {ns : List Nat} (small : ∀ n ∈ ns, n < 65536)
    (room : ns.length ≤ left) {rest : List Char} (stuck : Stuck rest) :
    readGroups 0 left (chars (hex ns) ++ rest) = ((ns.map UInt16.ofNat,false),rest) := by
  cases ns with
  | nil => exact groupsFail 0 left stuck
  | cons n ns =>
    obtain ⟨left,rfl⟩ : ∃ k, left = k+1 := ⟨left-1,by rw [List.length_cons] at room; omega⟩
    have others := groupsLater 0 left (fun m mem => small m (List.mem_cons_of_mem n mem))
      (by simpa using room) stuck
    rw [hex,charsJoined hexadecimal,List.append_assoc]
    exact groupPrinted 0 left (small n List.mem_cons_self) (haltsLater stuck.1 ns) others

theorem segmentsSmall (ip : Ipv6Addr) : ∀ n ∈ ip.segments, n < 65536 := by
  intro n mem
  obtain ⟨i,_,rfl⟩ := List.mem_map.1 mem
  exact OnesComplement.wordLt _ _

theorem segmentsLength (ip : Ipv6Addr) : ip.segments.length = 8 := by
  rw [Ipv6Addr.segments,List.length_map,List.length_finRange]

theorem ofSegments (ip : Ipv6Addr) : ofGroups (ip.segments.map UInt16.ofNat) = ip := by
  have bytes : ∀ high low : UInt8,
      highByte (UInt16.ofNat (256*high.toNat+low.toNat)) = high ∧
        lowByte (UInt16.ofNat (256*high.toNat+low.toNat)) = low := fun high low =>
    bytesOfWord (UInt16.toNat_ofNat_of_lt (OnesComplement.wordLt high low))
  obtain ⟨⟨⟨octets⟩,size⟩⟩ := ip
  match octets,size with
  | [a,b,c,d,e,f,g,h,i,j,k,l,m,n,o,p],_ =>
    simp [ofGroups,Ipv6Addr.segments,Ipv6Addr.new,List.finRange,bytes,-UInt16.ofNat_add]

def Zeros (ns : List Nat) (span : Span) : Prop :=
  span.start+span.len ≤ ns.length ∧
    ∀ i, span.start ≤ i → i < span.start+span.len → ns[i]? = some 0

theorem longestFound {ns rest : List Nat} {index : Nat} {current longest : Span}
    (position : ns.drop index = rest) (running : Zeros ns current)
    (reaches : current.len = 0 ∨ current.start+current.len = index) (found : Zeros ns longest) :
    Zeros ns (longestZeros rest index current longest) := by
  induction rest generalizing index current longest with
  | nil => exact found
  | cons n rest ih =>
    have here : ns[index]? = some n := by
      rw [← List.head?_drop,position]
      exact rfl
    have inside : index < ns.length := (List.getElem?_eq_some_iff.1 here).1
    have next : ns.drop (index+1) = rest := by
      rw [← List.tail_drop,position]
      exact rfl
    unfold longestZeros
    split
    · rename_i zero
      let grown : Span := ⟨if current.len = 0 then index else current.start,current.len+1⟩
      have reached : grown.start+grown.len = index+1 := by
        show (if current.len = 0 then index else current.start)+(current.len+1) = index+1
        split
        · omega
        · omega
      have zeros : Zeros ns grown := by
        refine ⟨by omega,fun i low high => ?_⟩
        rcases Nat.lt_or_ge i index with before | last
        · have low : (if current.len = 0 then index else current.start) ≤ i := low
          split at low
          · omega
          · exact running.2 i low (by omega)
        · have same : i = index := by omega
          rw [same,here,zero]
      have kept : Zeros ns (if longest.len < grown.len then grown else longest) := by
        by_cases longer : longest.len < grown.len
        · exact (if_pos longer).symm ▸ zeros
        · exact (if_neg longer).symm ▸ found
      exact ih next zeros (.inr reached) kept
    · exact ih next ⟨Nat.zero_le _,fun i _ high => absurd high (by simp)⟩ (.inl rfl) found

theorem zerosSplit {ns : List Nat} {span : Span} (zeros : Zeros ns span) :
    ns = ns.take span.start ++
      (List.replicate span.len 0 ++ ns.drop (span.start+span.len)) := by
  have middle : (ns.drop span.start).take span.len = List.replicate span.len 0 := by
    have length := zeros.1
    refine List.eq_replicate_iff.2 ⟨by rw [List.length_take,List.length_drop]; omega,?_⟩
    intro n mem
    obtain ⟨i,bound,rfl⟩ := List.getElem_of_mem mem
    rw [List.length_take,List.length_drop] at bound
    have zero := zeros.2 (span.start+i) (by omega) (by omega)
    rw [List.getElem_take,List.getElem_drop]
    exact (List.getElem?_eq_some_iff.1 zero).2
  rw [← middle,← List.drop_drop,List.take_append_drop,List.take_append_drop]

theorem doubleStuck (s : List Char) : Stuck (':' :: ':' :: s) := by
  refine ⟨colonHalts _,fun t same => ?_⟩
  cases same
  exact (colonHalts s).1

theorem readWhole {ns : List Nat} (small : ∀ n ∈ ns, n < 65536) (length : ns.length = 8)
    {rest : List Char} (stuck : Stuck rest) :
    readIpv6Addr (chars (hex ns) ++ rest) = some (ofGroups (ns.map UInt16.ofNat),rest) := by
  simp [readIpv6Addr,groupsPrinted 8 small (by omega) stuck,length]

theorem readCompressed {ns : List Nat} (small : ∀ n ∈ ns, n < 65536) (length : ns.length = 8)
    {span : Span} (zeros : Zeros ns span) (many : 1 < span.len) {rest : List Char}
    (stuck : Stuck rest) :
    readIpv6Addr (chars (hex (ns.take span.start) ++ [58,58] ++
      hex (ns.drop (span.start+span.len))) ++ rest) =
        some (ofGroups (ns.map UInt16.ofNat),rest) := by
  have bound := zeros.1
  have before : (ns.take span.start).length = span.start := by
    rw [List.length_take]
    omega
  have after : (ns.drop (span.start+span.len)).length = 8-(span.start+span.len) := by
    rw [List.length_drop,length]
  have smallBefore : ∀ n ∈ ns.take span.start, n < 65536 := fun n mem =>
    small n (List.mem_of_mem_take mem)
  have smallAfter : ∀ n ∈ ns.drop (span.start+span.len), n < 65536 := fun n mem =>
    small n (List.mem_of_mem_drop mem)
  have head := groupsPrinted 8 smallBefore (by omega)
    (doubleStuck (chars (hex (ns.drop (span.start+span.len))) ++ rest))
  have tail := groupsPrinted (8-(span.start+1)) smallAfter (by omega) stuck
  have text : chars (hex (ns.take span.start) ++ [58,58] ++
      hex (ns.drop (span.start+span.len))) ++ rest = chars (hex (ns.take span.start)) ++
        ':' :: ':' :: (chars (hex (ns.drop (span.start+span.len))) ++ rest) := by
    simp [chars]
  have filled : 8-span.start-(8-(span.start+span.len)) = span.len := by omega
  have whole := congrArg (List.map UInt16.ofNat) (zerosSplit zeros)
  rw [List.map_append,List.map_append,List.map_replicate] at whole
  rw [text,readIpv6Addr,head]
  simp only [List.length_map,before,if_neg (show ¬ span.start = 8 by omega),given,if_true,bind,
    Option.bind,tail,after,filled]
  rw [whole]
  simp

theorem mappedOctets {ip : Ipv6Addr} {v4 : Ipv4Addr} (mapped : ip.toIpv4Mapped = some v4) :
    ∃ a b c d, v4 = .new a b c d ∧
      ip = ⟨#v[0,0,0,0,0,0,0,0,0,0,0xff,0xff,a,b,c,d]⟩ := by
  obtain ⟨⟨⟨octets⟩,size⟩⟩ := ip
  match octets,size with
  | [a,b,c,d,e,f,g,h,i,j,k,l,m,n,o,p],_ =>
    rw [Ipv6Addr.toIpv4Mapped,Option.ite_none_right_eq_some] at mapped
    obtain ⟨zeros,last⟩ := mapped
    simp only [Vector.toList_mk,List.take_succ_cons,List.take_zero,List.cons.injEq] at zeros
    obtain ⟨rfl,rfl,rfl,rfl,rfl,rfl,rfl,rfl,rfl,rfl,rfl,rfl,_⟩ := zeros
    exact ⟨m,n,o,p,(Option.some.inj last).symm,rfl⟩

theorem readMapped {ip : Ipv6Addr} {v4 : Ipv4Addr} (mapped : ip.toIpv4Mapped = some v4)
    {rest : List Char} (ends : Ends 16 rest) :
    readIpv6Addr (chars ([58,58,102,102,102,102,58] ++ v4.display) ++ rest) =
      some (ip,rest) := by
  obtain ⟨a,b,c,d,rfl,rfl⟩ := mappedOctets mapped
  have octets := v4Read (.new a b c d) (endsTen ends)
  have embedded : readGroups 1 6 (':'::(chars (Ipv4Addr.new a b c d).display ++ rest)) =
      (([a.toUInt16 <<< 8 ||| b.toUInt16,c.toUInt16 <<< 8 ||| d.toUInt16],true),rest) := by
    rw [readGroups,if_pos (by decide),separatedLater 0,octets]
    exact rfl
  have tail := groupPrinted 0 6 (show 0xffff < 65536 by decide) (colonHalts _) embedded
  have text : chars ([58,58,102,102,102,102,58] ++ (Ipv4Addr.new a b c d).display) ++ rest =
      ':' :: ':' :: (lead 0 (Nat.toDigits 16 0xffff ++
        (':'::(chars (Ipv4Addr.new a b c d).display ++ rest)))) := by
    rw [charsAppend]
    exact rfl
  have first := bytesOfWord (pairNat a b)
  have second := bytesOfWord (pairNat c d)
  rw [text,readIpv6Addr,groupsFail 0 8 (doubleStuck _)]
  simp only [List.length_nil,given,if_true,bind,Option.bind,tail]
  simp [ofGroups,Ipv6Addr.new,first,second]
  decide

theorem v6Read (ip : Ipv6Addr) {rest : List Char} (stuck : Stuck rest) :
    readIpv6Addr (chars ip.display ++ rest) = some (ip,rest) := by
  have small := segmentsSmall ip
  have length := segmentsLength ip
  unfold Ipv6Addr.display
  split
  · exact readMapped (by assumption) stuck.1.1
  · have none : Zeros ip.segments ⟨0,0⟩ := ⟨Nat.zero_le _,fun i _ high => absurd high (by simp)⟩
    have longest : Zeros ip.segments (longestZeros ip.segments 0 ⟨0,0⟩ ⟨0,0⟩) :=
      longestFound rfl none (.inl rfl) none
    simp only
    split
    · exact (readCompressed small length longest (by assumption) stuck).trans
        (by rw [ofSegments])
    · exact (readWhole small length stuck).trans (by rw [ofSegments])

theorem portRead (port : UInt16) :
    readPort (':'::Nat.toDigits 10 port.toNat) = some (port,[]) := by
  have bound : port.toNat ≤ 65535 := Nat.le_of_lt_succ port.toNat_lt
  have read := numberPrinted decimal true (fitsFree bound) bound (endsNil 10)
  rw [List.append_nil] at read
  simp [readPort,given,read]

theorem stuckAt {c : Char} (other : toDigit 16 c = none) (dot : c ≠ '.') (colon : c ≠ ':')
    (s : List Char) : Stuck (c::s) := by
  exact ⟨⟨endsAt other s,by simpa using dot⟩,fun t same => absurd (List.cons.inj same).1 colon⟩

theorem closeStuck (s : List Char) : Stuck (']'::s) :=
  stuckAt (by decide) (by decide) (by decide) s

theorem scopeRead (scopeId : UInt32) (rest : List Char) :
    readScopeId ('%'::(Nat.toDigits 10 scopeId.toNat ++ ']'::rest)) =
      some (scopeId,']'::rest) := by
  have bound : scopeId.toNat ≤ 4294967295 := Nat.le_of_lt_succ scopeId.toNat_lt
  have read := numberPrinted decimal true (fitsFree bound) bound
    (endsTen (closeStuck rest).1.1)
  simp [readScopeId,given,read]

end AddressText

def Backends.SocketAddr.printed : SocketAddr → SocketAddr
  | .v4 ip port => .v4 ip port
  | .v6 ip port _ scopeId => .v6 ip port 0 scopeId

namespace AddressText

theorem printedText (address : SocketAddr) : address.printed.text = address.text := by
  cases address with
  | v4 ip port => rfl
  | v6 ip port flowinfo scopeId => rfl

theorem printedPort (address : SocketAddr) : address.printed.port = address.port := by
  cases address with
  | v4 ip port => rfl
  | v6 ip port flowinfo scopeId => rfl

theorem v4Display (ip : Ipv4Addr) (port : UInt16) : chars (SocketAddr.v4 ip port).display =
    chars ip.display ++ ':'::Nat.toDigits 10 port.toNat := by
  rw [SocketAddr.display,charsAppend,charsAppend,charsDigits decimal]
  simp [chars]

theorem v6Display (ip : Ipv6Addr) (port : UInt16) (flowinfo scopeId : UInt32) :
    chars (SocketAddr.v6 ip port flowinfo scopeId).display =
      '['::(chars ip.display ++
        ((if scopeId = 0 then [] else '%'::Nat.toDigits 10 scopeId.toNat) ++
          ']' :: ':' :: Nat.toDigits 10 port.toNat)) := by
  have scope : chars (if scopeId = 0 then [] else [37] ++ digits 10 scopeId.toNat) =
      if scopeId = 0 then [] else '%'::Nat.toDigits 10 scopeId.toNat := by
    split
    · exact rfl
    · rw [charsAppend,charsDigits decimal]
      exact rfl
  simp only [SocketAddr.display,charsAppend,charsDigits decimal,scope]
  simp [chars]

theorem v4SocketRead (ip : Ipv4Addr) (port : UInt16) :
    readSocketAddr (chars (SocketAddr.v4 ip port).display) = some (.v4 ip port,[]) := by
  have ends := endsTen (colonHalts (Nat.toDigits 10 port.toNat)).1
  rw [v4Display,readSocketAddr,readSocketAddrV4]
  simp [v4Read ip ends,portRead]

theorem v6SocketRead (ip : Ipv6Addr) (port : UInt16) (flowinfo scopeId : UInt32) :
    readSocketAddr (chars (SocketAddr.v6 ip port flowinfo scopeId).display) =
      some (.v6 ip port 0 scopeId,[]) := by
  have bracket : ∀ s, readIpv4Addr ('['::s) = none := fun s =>
    octetsFail (stuckAt (by decide) (by decide) (by decide) s).1.1
  rw [v6Display,readSocketAddr,readSocketAddrV4]
  simp only [bracket,bind,Option.bind,readSocketAddrV6,given,if_true]
  by_cases zero : scopeId = 0
  · rw [if_pos zero,List.nil_append,v6Read ip (closeStuck _)]
    simp [readScopeId,given,portRead,zero]
  · have percent : Stuck ('%'::(Nat.toDigits 10 scopeId.toNat ++
        ']' :: ':' :: Nat.toDigits 10 port.toNat)) :=
      stuckAt (by decide) (by decide) (by decide) _
    rw [if_neg zero,List.cons_append,v6Read ip percent]
    simp [scopeRead,portRead]

theorem socketRead (address : SocketAddr) :
    readSocketAddr (chars address.display) = some (address.printed,[]) := by
  cases address with
  | v4 ip port => exact v4SocketRead ip port
  | v6 ip port flowinfo scopeId => exact v6SocketRead ip port flowinfo scopeId

theorem beginsPlain (address : SocketAddr) (s : List Char) :
    chars address.display ≠ ':'::s := by
  cases address with
  | v4 ip port =>
    obtain ⟨a,b,c,d,rfl⟩ := v4Octets ip
    obtain ⟨x,first,digit⟩ := printedHead decimal a.toNat
      (later '.' (Nat.toDigits 10) [b.toNat,c.toNat,d.toNat] ++
        ':'::Nat.toDigits 10 port.toNat)
    intro same
    rw [v4Display,v4Chars,List.append_assoc] at same
    rw [same] at first
    cases first
    exact absurd digit (by decide)
  | v6 ip port flowinfo scopeId =>
    rw [v6Display]
    exact fun same => absurd (List.cons.inj same).1 (by decide)

theorem parseText (address : SocketAddr) : parseAddress address.text = .ok address.printed := by
  unfold parseAddress
  split
  · rename_i port same
    rw [textChars] at same
    exact absurd same (beginsPlain address port)
  · rw [textChars,parseWith,socketRead]

def Canonical (text : String) : Prop := ∃ address : SocketAddr, text = address.text

theorem canonicalExactly {text : String} {address : SocketAddr}
    (parsed : parseAddress text = .ok address) : Canonical text ↔ text = address.text := by
  constructor
  · intro ⟨spelled,same⟩
    rw [same,parseText] at parsed
    cases parsed
    rw [same,printedText]
  · exact fun same => ⟨address,same⟩

theorem shorthandNever (port : String) : ¬ Canonical (":" ++ port) := by
  intro ⟨address,same⟩
  have begins := congrArg String.toList same
  rw [textChars,String.toList_append] at begins
  exact beginsPlain address _ begins.symm

theorem readPrinted {s rest : List Char} {address : SocketAddr}
    (read : readSocketAddr s = some (address,rest)) : address.printed = address := by
  unfold readSocketAddr at read
  split at read
  · rename_i found first
    cases read
    obtain ⟨⟨ip,s⟩,_,first⟩ := Option.bind_eq_some_iff.mp first
    obtain ⟨⟨port,s⟩,_,first⟩ := Option.bind_eq_some_iff.mp first
    cases first
    exact rfl
  · obtain ⟨⟨u,s⟩,_,read⟩ := Option.bind_eq_some_iff.mp read
    obtain ⟨⟨ip,s⟩,_,read⟩ := Option.bind_eq_some_iff.mp read
    obtain ⟨⟨v,s⟩,_,read⟩ := Option.bind_eq_some_iff.mp read
    obtain ⟨⟨port,s⟩,_,read⟩ := Option.bind_eq_some_iff.mp read
    cases read
    exact rfl

theorem parsedPrinted {text : String} {address : SocketAddr}
    (parsed : parseAddress text = .ok address) : address.printed = address := by
  unfold parseAddress at parsed
  split at parsed
  · split at parsed
    · cases parsed
      exact rfl
    · contradiction
  · split at parsed
    · rename_i found whole
      cases parsed
      unfold parseWith at whole
      split at whole
      · rename_i read
        cases whole
        exact readPrinted read
      · contradiction
    · contradiction

/- Printing what was read and reading that again changes nothing, and the printed texts
tell apart exactly the addresses that differ. -/
theorem addressesRoundTrip {s t : String} {a b : SocketAddr} (first : parseSocketAddr s = .ok a)
    (second : parseSocketAddr t = .ok b) :
    parseSocketAddr a.text = .ok a ∧ (a.text = b.text ↔ a = b) := by
  have again : ∀ {u : String} {c : SocketAddr}, parseAddress u = .ok c →
      parseAddress c.text = .ok c := by
    intro u c parsed
    rw [parseText,parsedPrinted parsed]
  refine ⟨again first,fun same => ?_,congrArg SocketAddr.text⟩
  have read := again second
  rw [← same,again first] at read
  exact Except.ok.inj read

theorem spellingsMeet : parseSocketAddr
      (SocketAddr.v6 (.new 0x2001 0xdb8 0 0 0 0 0 1) 53 0 0).text =
        .ok (.v6 (.new 0x2001 0xdb8 0 0 0 0 0 1) 53 0 0) ∧
    ((SocketAddr.v6 (.new 0x2001 0xdb8 0 0 0 0 0 1) 53 0 0).text =
      (SocketAddr.v6 (.new 0x2001 0xdb8 0 0 0 0 0 2) 53 0 0).text ↔
        SocketAddr.v6 (.new 0x2001 0xdb8 0 0 0 0 0 1) 53 0 0 =
          SocketAddr.v6 (.new 0x2001 0xdb8 0 0 0 0 0 2) 53 0 0) :=
  addressesRoundTrip (s := "[2001:DB8:0:0::0:1]:053") (t := "[2001:db8::2]:53")
    (by decide +kernel) (by decide +kernel)

end AddressText
end UdpBalancer
