import UdpBalancer.Config

/-! `UdpBackend` on Linux: its sockets, the choice of a source address in `send`,
and how `App` makes backends and mirror targets from their configuration. -/
namespace UdpBalancer
open Backends NetParse Config

structure Os (ε : Type) where
  text : ε → String
  bind : String → Except ε Unit
  connect : SocketAddr → Except ε Unit
  raw : (isIpv6 : Bool) → Except ε Unit
  send : Bytes → Except ε Nat
  sendTo : Bytes → SocketAddr → Except ε Nat
  rawSendTo : Bytes → SocketAddr → Except ε Nat

inductive IoError (ε : Type) where
  | os (error : ε)
  | other (text : String)

inductive BackendError (ε : Type) where
  | socketCreation (error : IoError ε)
  | sendFailed (error : IoError ε)
  | rawSocketNotSupported

inductive SendMode where
  | standard
  | preserveSrcAddr (fallbackIpv4 : Option Ipv4Addr)
  | fakeSrcAddr (ip : IpAddr)
  deriving DecidableEq, Repr

structure UdpSocket where
  bindAddr : String
  deriving DecidableEq, Repr

structure UdpBackend where
  address : SocketAddr
  socket : Option UdpSocket
  rawSocket : Option RawSocket
  mode : SendMode
  probability : F64 ℚ
  weight : F64 ℚ
  connected : Bool
  deriving DecidableEq, Repr

variable {ε : Type} (os : Os ε)

def RawSocketError.text : RawSocketError ε → String
  | .socketCreation error => "socket creation failed: " ++ os.text error
  | .addressFamilyMismatch => "address family mismatch"
  | .notSupported => "raw sockets not supported on this platform"

namespace RawSocket

def newV4 : Except (RawSocketError ε) RawSocket :=
  match os.raw false with
  | .ok () => .ok ⟨false⟩
  | .error e => .error (.socketCreation e)

def newV6 : Except (RawSocketError ε) RawSocket :=
  match os.raw true with
  | .ok () => .ok ⟨true⟩
  | .error e => .error (.socketCreation e)

end RawSocket

namespace UdpBackend

def rawFailed (e : RawSocketError ε) : BackendError ε := .sendFailed (.other (e.text os))

def failed (text : String) : BackendError ε := .sendFailed (.other text)

def bindAddr (address : SocketAddr) : String :=
  if address.isIpv4 then "0.0.0.0:0" else "[::]:0"

def new (address : SocketAddr) (mode : SendMode) (probability weight : F64 ℚ) :
    Except (BackendError ε) UdpBackend :=
  match mode with
  | .standard => do
      (os.bind (bindAddr address)).mapError fun e => .socketCreation (.os e)
      (os.connect address).mapError fun e => .socketCreation (.os e)
      .ok ⟨address,some ⟨bindAddr address⟩,none,mode,probability,weight,true⟩
  | _ => do
      let raw ← (if address.isIpv4 then RawSocket.newV4 os else RawSocket.newV6 os).mapError
        (rawFailed os)
      .ok ⟨address,none,some raw,mode,probability,weight,true⟩

def newUnconnected (address : SocketAddr) (probability weight : F64 ℚ) :
    Except (BackendError ε) UdpBackend := do
  (os.bind (bindAddr address)).mapError fun e => .socketCreation (.os e)
  .ok ⟨address,some ⟨bindAddr address⟩,none,.standard,probability,weight,false⟩

-- `draw` is the value of `random::<f64>()`
def shouldSend (b : UdpBackend) (draw : ℚ) : Bool :=
  if F64.le (.fin 1) b.probability then true
  else if F64.le b.probability (.fin 0) then false
  else F64.gt b.probability (.fin draw)

def realSrc (srcAddr : SocketAddr) : SocketAddr :=
  match srcAddr.ip with
  | .v6 v6 => match v6.toIpv4Mapped with
    | some v4 => .new (.v4 v4) srcAddr.port
    | none => srcAddr
  | .v4 _ => srcAddr

def needsFallback : String := "IPv6 client to IPv4 backend requires fallback_source_address"

def effectiveSrc (b : UdpBackend) (fallbackIpv4 : Option Ipv4Addr) (srcAddr : SocketAddr) :
    Except (BackendError ε) SocketAddr :=
  if !(realSrc srcAddr).isIpv4 && b.address.isIpv4 then
    match fallbackIpv4 with
    | some fallback => .ok (.new (.v4 fallback) srcAddr.port)
    | none => .error (failed needsFallback)
  else .ok (realSrc srcAddr)

def rawSend (b : UdpBackend) (raw : RawSocket) (source : SocketAddr) (payload : Bytes) :
    Option (Except (BackendError ε) Nat) :=
  (raw.sendTo os.rawSendTo source b.address payload).map (·.mapError (rawFailed os))

def send (b : UdpBackend) (draw : ℚ) (srcAddr : SocketAddr) (payload : Bytes) :
    Option (Except (BackendError ε) Nat) :=
  if !b.shouldSend draw then some (.ok 0) else
    match b.mode with
    | .standard => match b.socket with
      | some _ =>
          let sent := if b.connected then os.send payload else os.sendTo payload b.address
          some (sent.mapError fun e => .sendFailed (.os e))
      | none => some (.error (failed "no socket available"))
    | .preserveSrcAddr fallbackIpv4 => match b.rawSocket with
      | some raw => match b.effectiveSrc fallbackIpv4 srcAddr with
        | .ok source => b.rawSend os raw source payload
        | .error e => some (.error e)
      | none => some (.error (failed "no raw socket available"))
    | .fakeSrcAddr fakeIp => match b.rawSocket with
      | some raw => b.rawSend os raw (.new fakeIp srcAddr.port) payload
      | none => some (.error (failed "no raw socket available"))

end UdpBackend

namespace App

inductive AppError (ε : Type) where
  | text (message : String)
  | addr (kind : AddrKind)
  | backend (error : BackendError ε)

def preserveMode (fallback : Option String) : Except (AppError ε) SendMode :=
  match fallback with
  | none => .ok (.preserveSrcAddr none)
  | some s => match parseIpv4Addr s with
    | .ok ip => .ok (.preserveSrcAddr (some ip))
    | .error kind => .error (.addr kind)

def fakeMode (srcAddr : String) : Except (AppError ε) SendMode :=
  match parseIpAddr srcAddr with
  | .ok ip => .ok (.fakeSrcAddr ip)
  | .error kind => .error (.addr kind)

def address (addr : String) : Except (AppError ε) SocketAddr :=
  (parseSocketAddr addr).mapError .text

def createBackend (cfg : BackendConfig) : Except (AppError ε) UdpBackend := do
  let addr ← address cfg.address
  let mode ← if cfg.preserveSrcAddress then preserveMode cfg.fallbackSourceAddress
    else match cfg.sourceAddress with
      | some srcAddr => fakeMode srcAddr
      | none => .ok .standard
  (UdpBackend.new os addr mode (.fin 1) cfg.weight).mapError .backend

def createMirrorBackend (cfg : MirrorConfig) : Except (AppError ε) UdpBackend := do
  let addr ← address cfg.address
  if cfg.preserveSrcAddress then do
    let mode ← preserveMode cfg.fallbackSourceAddress
    (UdpBackend.new os addr mode cfg.probability (.fin 1)).mapError .backend
  else match cfg.sourceAddress with
    | some srcAddr => do
        let mode ← fakeMode srcAddr
        (UdpBackend.new os addr mode cfg.probability (.fin 1)).mapError .backend
    | none => (UdpBackend.newUnconnected os addr cfg.probability (.fin 1)).mapError .backend

end App
end UdpBalancer
