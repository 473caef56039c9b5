import Mathlib.Data.Rat.Floor
import Mathlib.Data.Fintype.Basic

/-! Socket addresses, the text `to_string` prints for them and backends.
Texts are byte strings, as the hashers read them (`as_bytes`). A pool carries
what `Config::validate` and the `Vec` holding it guarantee. -/
namespace UdpBalancer.Backends

abbrev Bytes := List UInt8

-- FNV-1a with its 64-bit parameters, the function `FnvHasher` computes
def fnv1a (bytes : Bytes) : UInt64 :=
  bytes.foldl (fun hash byte => (hash ^^^ byte.toUInt64)*0x100000001b3) 0xcbf29ce484222325

structure Ipv4Addr where
  octets : Vector UInt8 4
  deriving DecidableEq, Repr

structure Ipv6Addr where
  octets : Vector UInt8 16
  deriving DecidableEq, Repr

inductive SocketAddr where
  | v4 (ip : Ipv4Addr) (port : UInt16)
  | v6 (ip : Ipv6Addr) (port : UInt16) (flowinfo scopeId : UInt32)
  deriving DecidableEq, Repr

def digits (base n : Nat) : Bytes := (Nat.toDigits base n).map (fun c => UInt8.ofNat c.toNat)

def joinWith (separator : UInt8) : List Bytes → Bytes
  | [] => []
  | [part] => part
  | part::rest => part ++ [separator] ++ joinWith separator rest

-- 46 is '.', 58 is ':', 91 and 93 are the brackets and 37 is '%'
def Ipv4Addr.display (ip : Ipv4Addr) : Bytes :=
  joinWith 46 (ip.octets.toList.map (fun octet => digits 10 octet.toNat))

def Ipv6Addr.segments (ip : Ipv6Addr) : List Nat :=
  (List.finRange 8).map fun i =>
    256 * (ip.octets[2*i.val]).toNat + (ip.octets[2*i.val+1]).toNat

def Ipv6Addr.toIpv4Mapped (ip : Ipv6Addr) : Option Ipv4Addr :=
  if ip.octets.toList.take 12 = [0,0,0,0,0,0,0,0,0,0,0xff,0xff] then
    some ⟨#v[ip.octets[12],ip.octets[13],ip.octets[14],ip.octets[15]]⟩
  else none

structure Span where
  start : Nat
  len : Nat
  deriving DecidableEq, Repr

def longestZeros : List Nat → (index : Nat) → (current longest : Span) → Span
  | [], _, _, longest => longest
  | segment::rest, index, current, longest =>
      if segment = 0 then
        let current : Span := ⟨if current.len = 0 then index else current.start, current.len+1⟩
        longestZeros rest (index+1) current (if longest.len < current.len then current else longest)
      else longestZeros rest (index+1) ⟨0,0⟩ longest

def Ipv6Addr.display (ip : Ipv6Addr) : Bytes :=
  match ip.toIpv4Mapped with
  | some v4 => [58,58,102,102,102,102,58] ++ v4.display
  | none =>
      let segments := ip.segments
      let zeros := longestZeros segments 0 ⟨0,0⟩ ⟨0,0⟩
      let hex := fun part : List Nat => joinWith 58 (part.map (digits 16))
      if 1 < zeros.len then
        hex (segments.take zeros.start) ++ [58,58] ++ hex (segments.drop (zeros.start+zeros.len))
      else hex segments

def SocketAddr.display : SocketAddr → Bytes
  | .v4 ip port => ip.display ++ [58] ++ digits 10 port.toNat
  | .v6 ip port _ scopeId =>
      let scope := if scopeId = 0 then [] else [37] ++ digits 10 scopeId.toNat
      [91] ++ ip.display ++ scope ++ [93,58] ++ digits 10 port.toNat

def localhost (port : UInt16) : SocketAddr := .v4 ⟨#v[127,0,0,1]⟩ port

example : (localhost 20000).display =
    [49,50,55,46,48,46,48,46,49,58,50,48,48,48,48] := by decide
example : (SocketAddr.v6 ⟨#v[0,0,0,0,0,0,0,0,0,0,0,0,0,0,0,1]⟩ 20000 0 0).display =
    [91,58,58,49,93,58,50,48,48,48,48] := by decide

structure Backend where
  address : SocketAddr
  weight : ℚ

def usizeMax : Nat := 2^64 - 1

/- Weights are the exact values of finite floats, positive as `validate_backend`
demands; the length bound is that of a `Vec` of pointers. -/
structure Pool where
  backends : List Backend
  positive : ∀ b ∈ backends, 0 < b.weight
  addressable : backends.length < usizeMax

abbrev Pool.Index (pool : Pool) : Type := Fin pool.backends.length

def Pool.backend (pool : Pool) (i : pool.Index) : Backend := pool.backends[i]

def Pool.weight (pool : Pool) (i : pool.Index) : ℚ := (pool.backend i).weight

theorem weightPositive (pool : Pool) (i : pool.Index) : 0 < pool.weight i :=
  pool.positive _ (List.getElem_mem i.isLt)

theorem indexLt (pool : Pool) (i : pool.Index) : i.val < usizeMax :=
  Nat.lt_trans i.isLt pool.addressable

abbrev Alive (pool : Pool) : Type := pool.Index → Bool

def setAlive {pool : Pool} (alive : Alive pool) (i : pool.Index) (flag : Bool) : Alive pool :=
  Function.update alive i flag

def SomeAlive {pool : Pool} (alive : Alive pool) : Prop := ∃ i, alive i = true

def aliveIndices {pool : Pool} (alive : Alive pool) : List pool.Index :=
  (List.finRange _).filter alive

@[simp] theorem memAliveIndices {pool : Pool} {alive : Alive pool} {i} :
    i ∈ aliveIndices alive ↔ alive i = true := by
  simp [aliveIndices]

theorem aliveIndicesNil {pool : Pool} {alive : Alive pool} :
    aliveIndices alive = [] ↔ ¬ SomeAlive alive := by
  simp [SomeAlive,List.eq_nil_iff_forall_not_mem]

end UdpBalancer.Backends
