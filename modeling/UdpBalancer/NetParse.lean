import UdpBalancer.RawSocket
import UdpBalancer.Reader

/-! The standard library's readers of network addresses and port numbers, and
`parse_address` of the configuration. A text is read by its characters; one that
is not ASCII is refused as its bytes would be. -/
namespace UdpBalancer
open Backends

inductive Backends.IpAddr where
  | v4 (ip : Ipv4Addr)
  | v6 (ip : Ipv6Addr)
  deriving DecidableEq, Repr

namespace Backends.SocketAddr

def new : IpAddr → UInt16 → SocketAddr
  | .v4 ip,port => .v4 ip port
  | .v6 ip,port => .v6 ip port 0 0

def ip : SocketAddr → IpAddr
  | .v4 ip _ => .v4 ip
  | .v6 ip _ _ _ => .v6 ip

def port : SocketAddr → UInt16
  | .v4 _ port => port
  | .v6 _ port _ _ => port

def isIpv4 : SocketAddr → Bool
  | .v4 _ _ => true
  | .v6 _ _ _ _ => false

end Backends.SocketAddr

def Backends.IpAddr.isIpv6 : IpAddr → Bool
  | .v4 _ => false
  | .v6 _ => true

def Backends.Ipv4Addr.new (a b c d : UInt8) : Ipv4Addr := ⟨#v[a,b,c,d]⟩

namespace NetParse
open Reader

inductive AddrKind where
  | ip
  | ipv4
  | socket
  deriving DecidableEq, Repr

def AddrKind.text : AddrKind → String
  | .ip => "invalid IP address syntax"
  | .ipv4 => "invalid IPv4 address syntax"
  | .socket => "invalid socket address syntax"

def readIpv4Addr : Reader Ipv4Addr := fun s => do
  let (groups,s) ← parts '.' (number 10 (some 3) false 255) 0 4 s
  let octet := fun i => UInt8.ofNat (groups.getD i 0)
  some (.new (octet 0) (octet 1) (octet 2) (octet 3),s)

/- `read_groups` with `left` slots still to fill: the groups read, and whether
they end in an embedded IPv4 address. -/
def readGroups : (index left : Nat) → List Char → (List UInt16 × Bool) × List Char
  | _, 0, s => (([],false),s)
  | index, left+1, s =>
      match if 0 < left then separated ':' index readIpv4Addr s else none with
      | some (v4,s) =>
          let pair := fun (high low : UInt8) => high.toUInt16 <<< 8 ||| low.toUInt16
          (([pair (v4.octet 0) (v4.octet 1),pair (v4.octet 2) (v4.octet 3)],true),s)
      | none => match separated ':' index (number 16 (some 4) true 65535) s with
        | some (group,s) =>
            let ((groups,ipv4),s) := readGroups (index+1) left s
            ((UInt16.ofNat group::groups,ipv4),s)
        | none => (([],false),s)

def ofGroups (groups : List UInt16) : Ipv6Addr :=
  let group := fun i => groups.getD i 0
  .new (group 0) (group 1) (group 2) (group 3) (group 4) (group 5) (group 6) (group 7)

def readIpv6Addr : Reader Ipv6Addr := fun s => do
  let ((head,headIpv4),s) := readGroups 0 8 s
  if head.length = 8 then some (ofGroups head,s)
  else if headIpv4 then none
  else do
    let (_,s) ← given ':' s
    let (_,s) ← given ':' s
    let ((tail,_),s) := readGroups 0 (8-(head.length+1)) s
    some (ofGroups (head ++ List.replicate (8-head.length-tail.length) 0 ++ tail),s)

def readIpAddr : Reader IpAddr := fun s =>
  match readIpv4Addr s with
  | some (ip,s) => some (.v4 ip,s)
  | none => (readIpv6Addr s).map fun (ip,s) => (.v6 ip,s)

def readPort : Reader UInt16 := fun s => do
  let (_,s) ← given ':' s
  let (port,s) ← number 10 none true 65535 s
  some (UInt16.ofNat port,s)

def readScopeId : Reader UInt32 := fun s => do
  let (_,s) ← given '%' s
  let (scopeId,s) ← number 10 none true 4294967295 s
  some (UInt32.ofNat scopeId,s)

def readSocketAddrV4 : Reader SocketAddr := fun s => do
  let (ip,s) ← readIpv4Addr s
  let (port,s) ← readPort s
  some (.v4 ip port,s)

def readSocketAddrV6 : Reader SocketAddr := fun s => do
  let (_,s) ← given '[' s
  let (ip,s) ← readIpv6Addr s
  let (scopeId,s) := (readScopeId s).getD (0,s)
  let (_,s) ← given ']' s
  let (port,s) ← readPort s
  some (.v6 ip port 0 scopeId,s)

def readSocketAddr : Reader SocketAddr := fun s =>
  match readSocketAddrV4 s with
  | some found => some found
  | none => readSocketAddrV6 s

def parseWith {α : Type} (inner : Reader α) (kind : AddrKind) (s : List Char) :
    Except AddrKind α :=
  match inner s with
  | some (x,[]) => .ok x
  | _ => .error kind

def parseIpAddr (s : String) : Except AddrKind IpAddr := parseWith readIpAddr .ip s.toList

def parseIpv4Addr (s : String) : Except AddrKind Ipv4Addr :=
  if 15 < s.toList.length then .error .ipv4 else parseWith readIpv4Addr .ipv4 s.toList

inductive IntErrorKind where
  | empty
  | invalidDigit
  | posOverflow
  deriving DecidableEq, Repr

def IntErrorKind.text : IntErrorKind → String
  | .empty => "cannot parse integer from empty string"
  | .invalidDigit => "invalid digit found in string"
  | .posOverflow => "number too large to fit in target type"

def digitsU16 : (result : Nat) → List Char → Except IntErrorKind UInt16
  | result, [] => .ok (UInt16.ofNat result)
  | result, c::rest => match toDigit 10 c with
    | none => .error .invalidDigit
    | some digit =>
        if 65535 < result*10+digit then .error .posOverflow else digitsU16 (result*10+digit) rest

def parseU16 : List Char → Except IntErrorKind UInt16
  | [] => .error .empty
  | ['+'] => .error .invalidDigit
  | ['-'] => .error .invalidDigit
  | '+'::digits => digitsU16 0 digits
  | digits => digitsU16 0 digits

def unspecified : Ipv6Addr := .new 0 0 0 0 0 0 0 0

def parseAddress (addr : String) : Except String SocketAddr :=
  match addr.toList with
  | ':'::portStr => match parseU16 portStr with
    | .ok port => .ok (.new (.v6 unspecified) port)
    | .error e => .error ("invalid port: " ++ e.text)
  | text => match parseWith readSocketAddr .socket text with
    | .ok found => .ok found
    | .error e => .error ("invalid address: " ++ e.text)

def parseSocketAddr (addr : String) : Except String SocketAddr := parseAddress addr

example : parseAddress ":8080" = .ok (.v6 unspecified 8080 0 0) := by decide +kernel
example : parseAddress "[2001:db8::1]:53" =
    .ok (.v6 (.new 0x2001 0xdb8 0 0 0 0 0 1) 53 0 0) := by decide +kernel
example : parseAddress "invalid" = .error "invalid address: invalid socket address syntax" := by
  decide +kernel

theorem readIpv4AddrTakes : Takes 15 readIpv4Addr := by
  intro s ip rest taken
  simp only [readIpv4Addr,bind,Option.bind_eq_some_iff] at taken
  obtain ⟨⟨groups,t⟩,read,last⟩ := taken
  cases last
  exact partsTakesFirst '.' (numberTakes 10 3 false 255) 3 read

/- The validator reads any address and the application an IPv4 one: they agree on
the texts the validator takes for IPv4. -/
theorem ipv4Again {s : String} {ip : Ipv4Addr} (ok : parseIpAddr s = .ok (.v4 ip)) :
    parseIpv4Addr s = .ok ip := by
  unfold parseIpAddr parseWith readIpAddr at ok
  cases read : readIpv4Addr s.toList with
  | none =>
    rw [read] at ok
    cases second : readIpv6Addr s.toList with
    | none => simp [second] at ok
    | some found =>
      obtain ⟨v6,rest⟩ := found
      cases rest with
      | nil => simp [second] at ok
      | cons c rest => simp [second] at ok
  | some found =>
    obtain ⟨v4,rest⟩ := found
    rw [read] at ok
    cases rest with
    | cons c rest => simp at ok
    | nil =>
      have short := readIpv4AddrTakes read
      simp only [List.length_nil,Nat.zero_add] at short
      cases ok
      rw [parseIpv4Addr,if_neg (by omega),parseWith,read]

end NetParse
end UdpBalancer
