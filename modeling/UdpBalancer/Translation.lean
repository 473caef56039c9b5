import UdpBalancer.UdpBackend

/-! The source address of a relayed packet, from the configuration the validator
accepts to the builder of the packet. -/
namespace UdpBalancer
open Backends NetParse Config RawSocket App

namespace RawSocket

def Build.source : Build → IpAddr
  | .ipv4 srcIp _ _ _ => .v4 srcIp
  | .ipv6 srcIp _ _ _ => .v6 srcIp

def Build.destination : Build → IpAddr
  | .ipv4 _ dstIp _ _ => .v4 dstIp
  | .ipv6 _ dstIp _ _ => .v6 dstIp

def Build.sourcePort : Build → UInt16
  | .ipv4 _ _ srcPort _ => srcPort
  | .ipv6 _ _ srcPort _ => srcPort

def Build.port : Build → UInt16
  | .ipv4 _ _ _ dstPort => dstPort
  | .ipv6 _ _ _ dstPort => dstPort

theorem checksumEnds (data : Bytes) : ∃ c, checksum data = some c := by
  obtain ⟨sum,folded,_⟩ := OnesComplement.foldExact (OnesComplement.addWords 0 data)
  refine ⟨OnesComplement.complement sum,?_⟩
  simp only [checksum,folded,bind,Option.bind]

theorem closingEnds (sum : UInt32) : ∃ c, OnesComplement.closing sum = some c := by
  obtain ⟨c,closed,_⟩ := OnesComplement.closingExact sum
  exact ⟨c,closed⟩

theorem packetBuilt (build : Build) (payload : Bytes) :
    ∃ packet, build.packet payload = some packet := by
  cases build with
  | ipv4 srcIp dstIp srcPort dstPort =>
    obtain ⟨header,headed⟩ := checksumEnds (ipv4Header srcIp dstIp (20+(8+payload.length)))
    have sums : ∀ segment, ∃ c, udpChecksumV4 srcIp dstIp segment = some c :=
      fun segment => closingEnds _
    obtain ⟨c,summed⟩ := sums (udpHeader srcPort dstPort (8+payload.length) 0 ++ payload)
    simp only [Build.packet,buildIpv4UdpPacket,headed,summed,bind,Option.bind,Option.some.injEq,
      exists_eq']
  | ipv6 srcIp dstIp srcPort dstPort =>
    have sums : ∀ segment, ∃ c, udpChecksumV6 srcIp dstIp segment = some c :=
      fun segment => closingEnds _
    obtain ⟨c,summed⟩ := sums (udpHeader srcPort dstPort (8+payload.length) 0 ++ payload)
    simp only [Build.packet,buildIpv6UdpPacket,summed,bind,Option.bind,Option.some.injEq,
      exists_eq']

end RawSocket

namespace Backends.IpAddr

def unmapped : IpAddr → IpAddr
  | .v6 ip => match ip.toIpv4Mapped with
    | some real => .v4 real
    | none => .v6 ip
  | .v4 ip => .v4 ip

def towards (source destination : IpAddr) : IpAddr :=
  match source,destination with
  | .v4 ip,.v6 _ => .v6 ip.embedded
  | source,_ => source

end Backends.IpAddr

/- The source each mode promises for a client and a backend; `none` where there is
no address to use. -/
def SendMode.promised (mode : SendMode) (client backend : IpAddr) : Option IpAddr :=
  match mode with
  | .standard => none
  | .fakeSrcAddr ip => some (ip.towards backend)
  | .preserveSrcAddr fallback => match client.unmapped,backend with
    | .v4 c,.v4 _ => some (.v4 c)
    | .v6 c,.v6 _ => some (.v6 c)
    | .v4 c,.v6 _ => some (.v6 c.embedded)
    | .v6 _,.v4 _ => fallback.map .v4

inductive Configured (relay : Relay) : SendMode → Prop where
  | preserve (on : relay.preserveSrcAddress = true) (unset : relay.fallbackSourceAddress = none) :
      Configured relay (.preserveSrcAddr none)
  | fallback {text ip} (on : relay.preserveSrcAddress = true)
      (set : relay.fallbackSourceAddress = some text) (parsed : parseIpAddr text = .ok (.v4 ip)) :
      Configured relay (.preserveSrcAddr (some ip))
  | fake {text ip} (off : relay.preserveSrcAddress = false)
      (set : relay.sourceAddress = some text) (parsed : parseIpAddr text = .ok ip) :
      Configured relay (.fakeSrcAddr ip)

def SendMode.Suits (mode : SendMode) (address : SocketAddr) : Prop :=
  ∀ ip, mode = .fakeSrcAddr ip → ip.isIpv6 = true → address.isIpv4 = false

theorem fallbackAccepted {path : String} {relay : Relay} {text : String}
    (ok : validateFallback path relay text = .ok ()) :
    ∃ ip, relay.preserveSrcAddress = true ∧ parseIpAddr text = .ok (.v4 ip) := by
  simp only [validateFallback,thenOk,unitOk,checkOk,expectOk,parseIpOk,Bool.not_eq_false'] at ok
  obtain ⟨on,ip,parsed,last⟩ := ok
  cases ip with
  | v4 ip => exact ⟨ip,on,parsed⟩
  | v6 ip => simp [IpAddr.isIpv6] at last

theorem sourceAccepted {path noun : String} {relay : Relay} {text : String} {address : SocketAddr}
    (ok : validateSource path noun relay text = .ok ())
    (parsed : parseAddress relay.address = .ok address) :
    ∃ ip, parseIpAddr text = .ok ip ∧ (SendMode.fakeSrcAddr ip).Suits address := by
  simp only [validateSource,expectAddress,thenOk,checkOk,expectOk,parseIpOk] at ok
  obtain ⟨ip,read,found,again,last⟩ := ok
  cases parsed.symm.trans again
  refine ⟨ip,read,fun same eq six => ?_⟩
  cases eq
  simpa [six] using last

theorem relayAccepted {path noun : String} {relay : Relay} {address : SocketAddr}
    (ok : validateRelay path noun relay = .ok ())
    (parsed : parseAddress relay.address = .ok address)
    (raw : relay.preserveSrcAddress = true ∨ relay.sourceAddress.isSome = true) :
    ∃ mode, Configured relay mode ∧ mode.Suits address := by
  simp only [validateRelay,thenOk,unitOk,optionalOk] at ok
  obtain ⟨_,fallback,source⟩ := ok
  cases on : relay.preserveSrcAddress with
  | true =>
    cases set : relay.fallbackSourceAddress with
    | none => exact ⟨_,.preserve on set,fun ip eq => by contradiction⟩
    | some text =>
      obtain ⟨ip,_,read⟩ := fallbackAccepted (fallback text set)
      exact ⟨_,.fallback on set read,fun ip eq => by contradiction⟩
  | false =>
    simp only [on,Bool.false_eq_true,false_or] at raw
    obtain ⟨text,set⟩ := Option.isSome_iff_exists.mp raw
    obtain ⟨ip,read,suits⟩ := sourceAccepted (source text set) parsed
    exact ⟨_,.fake on set read,suits⟩

inductive Target where
  | backend (cfg : BackendConfig)
  | mirror (cfg : MirrorConfig)

namespace Target

def relay : Target → Relay
  | .backend cfg => ⟨cfg.address,cfg.preserveSrcAddress,cfg.sourceAddress,
      cfg.fallbackSourceAddress⟩
  | .mirror cfg => ⟨cfg.address,cfg.preserveSrcAddress,cfg.sourceAddress,
      cfg.fallbackSourceAddress⟩

def validate (showF64 : F64 ℚ → String) (serverIndex index : Nat) :
    Target → Except ConfigError Unit
  | .backend cfg => validateBackend showF64 cfg serverIndex index
  | .mirror cfg => validateMirror showF64 cfg serverIndex index

variable {ε : Type} (os : Os ε)

def create : Target → Except (AppError ε) UdpBackend
  | .backend cfg => createBackend os cfg
  | .mirror cfg => createMirrorBackend os cfg

def opened (address : SocketAddr) (mode : SendMode) : Target → UdpBackend
  | .backend cfg => ⟨address,none,some ⟨!address.isIpv4⟩,mode,.fin 1,cfg.weight,true⟩
  | .mirror cfg => ⟨address,none,some ⟨!address.isIpv4⟩,mode,cfg.probability,.fin 1,true⟩

end Target

structure RawTarget where
  target : Target
  showF64 : F64 ℚ → String
  serverIndex : Nat
  index : Nat
  accepted : target.validate showF64 serverIndex index = .ok ()
  raw : target.relay.preserveSrcAddress = true ∨ target.relay.sourceAddress.isSome = true

instance : Inhabited RawTarget where
  default := ⟨.backend { address := "[2001:db8::2]:2055", sourceAddress := some "192.0.2.1" },
    fun _ => "",0,0,by decide +kernel,.inr rfl⟩

theorem addressAccepted (t : RawTarget) : ∃ address path noun,
    parseAddress t.target.relay.address = .ok address ∧
    validateRelay path noun t.target.relay = .ok () := by
  obtain ⟨target,showF64,i,j,accepted,_⟩ := t
  cases target with
  | backend cfg =>
    simp only [Target.validate,validateBackend,expectAddress,thenOk,unitOk,expectOk] at accepted
    obtain ⟨address,parsed,_,relay,_⟩ := accepted
    exact ⟨address,_,_,parsed,relay⟩
  | mirror cfg =>
    simp only [Target.validate,validateMirror,expectAddress,thenOk,unitOk,expectOk] at accepted
    obtain ⟨address,parsed,_,relay⟩ := accepted
    exact ⟨address,_,_,parsed,relay⟩

section
variable {ε : Type} (os : Os ε)

def Opens (made : Except (AppError ε) UdpBackend) (b : UdpBackend) : Prop :=
  (os.raw (!b.address.isIpv4) = .ok () → made = .ok b) ∧
  ∀ e, os.raw (!b.address.isIpv4) = .error e →
    made = .error (.backend (UdpBackend.rawFailed os (.socketCreation e)))

theorem newRaw {mode : SendMode} (raw : mode ≠ .standard) (address : SocketAddr)
    (probability weight : F64 ℚ) :
    Opens os ((UdpBackend.new os address mode probability weight).mapError .backend)
      ⟨address,none,some ⟨!address.isIpv4⟩,mode,probability,weight,true⟩ := by
  have socket : UdpBackend.new os address mode probability weight = (do
      let raw ← (if address.isIpv4 then newV4 os else newV6 os).mapError (UdpBackend.rawFailed os)
      .ok ⟨address,none,some raw,mode,probability,weight,true⟩) := by
    cases mode with
    | standard => contradiction
    | _ => rfl
  rw [socket]
  cases family : address.isIpv4 with
  | true =>
    refine ⟨fun up => ?_,fun e down => ?_⟩
    · simp only [family,Bool.not_true] at up
      simp only [if_true,newV4,up,Except.mapError,bind,Except.bind,Bool.not_true]
    · simp only [family,Bool.not_true] at down
      simp only [if_true,newV4,down,Except.mapError,bind,Except.bind]
  | false =>
    refine ⟨fun up => ?_,fun e down => ?_⟩
    · simp only [family,Bool.not_false] at up
      simp only [Bool.false_eq_true,if_false,newV6,up,Except.mapError,bind,Except.bind,
        Bool.not_false]
    · simp only [family,Bool.not_false] at down
      simp only [Bool.false_eq_true,if_false,newV6,down,Except.mapError,bind,Except.bind]

theorem modeRead {relay : Relay} {mode : SendMode} (configured : Configured relay mode) :
    relay.preserveSrcAddress = true ∧
        preserveMode relay.fallbackSourceAddress = (.ok mode : Except (AppError ε) SendMode) ∨
      relay.preserveSrcAddress = false ∧ ∃ text, relay.sourceAddress = some text ∧
        fakeMode text = (.ok mode : Except (AppError ε) SendMode) := by
  cases configured with
  | preserve on unset => exact .inl ⟨on,by simp only [preserveMode,unset]⟩
  | fallback on set parsed => exact .inl ⟨on,by simp only [preserveMode,set,ipv4Again parsed]⟩
  | fake off set parsed => exact .inr ⟨off,_,set,by simp only [fakeMode,parsed]⟩

theorem Configured.notStandard {relay : Relay} {mode : SendMode}
    (configured : Configured relay mode) : mode ≠ .standard := by
  cases configured with
  | preserve _ _ => exact fun eq => nomatch eq
  | fallback _ _ _ => exact fun eq => nomatch eq
  | fake _ _ _ => exact fun eq => nomatch eq

theorem createdRaw (t : Target) {address : SocketAddr} {mode : SendMode}
    (parsed : parseAddress t.relay.address = .ok address) (configured : Configured t.relay mode) :
    Opens os (t.create os) (t.opened address mode) := by
  have found : App.address (ε := ε) t.relay.address = .ok address := by
    simp only [App.address,parseSocketAddr,parsed,Except.mapError]
  have raw := configured.notStandard
  have read := modeRead (ε := ε) configured
  cases t with
  | backend cfg =>
    have made : createBackend os cfg =
        (UdpBackend.new os address mode (.fin 1) cfg.weight).mapError .backend := by
      simp only [Target.relay] at found read
      rcases read with ⟨on,read⟩ | ⟨off,text,set,read⟩
      · simp only [createBackend,found,on,read,bind,Except.bind,if_true]
      · simp only [createBackend,found,off,set,read,bind,Except.bind,Bool.false_eq_true,if_false]
    rw [Target.create,made]
    exact newRaw os raw address _ _
  | mirror cfg =>
    have made : createMirrorBackend os cfg =
        (UdpBackend.new os address mode cfg.probability (.fin 1)).mapError .backend := by
      simp only [Target.relay] at found read
      rcases read with ⟨on,read⟩ | ⟨off,text,set,read⟩
      · simp only [createMirrorBackend,found,on,read,bind,Except.bind,if_true]
      · simp only [createMirrorBackend,found,off,set,read,bind,Except.bind,Bool.false_eq_true,
          if_false]
    rw [Target.create,made]
    exact newRaw os raw address _ _

/- `send` hands the builder the address `s`, the client's port and the backend's
address, and the packet built so goes to the operating system. -/
def Hands (b : UdpBackend) (client : SocketAddr) (draw : ℚ) (payload : Bytes) (s : IpAddr) : Prop :=
  ∃ raw source build packet, b.rawSocket = some raw ∧
    b.send os draw client payload = b.rawSend os raw source payload ∧
    raw.buildFor source b.address = (.ok build : Except (RawSocketError ε) Build) ∧
    build.source = s ∧ build.sourcePort = client.port ∧
    build.destination = b.address.ip ∧ build.port = b.address.port ∧
    build.packet payload = some packet ∧
    b.send os draw client payload = some ((os.rawSendTo packet b.address).mapError
      fun e => UdpBackend.rawFailed os (.socketCreation e))

theorem buildExact {source address : SocketAddr}
    (suits : source.ip.isIpv6 = true → address.isIpv4 = false) :
    ∃ build, buildFor ⟨!address.isIpv4⟩ source address =
        (.ok build : Except (RawSocketError ε) Build) ∧
      build.source = source.ip.towards address.ip ∧ build.sourcePort = source.port ∧
      build.destination = address.ip ∧ build.port = address.port := by
  cases source with
  | v4 ip port =>
    cases address with
    | v4 dst dstPort => exact ⟨_,rfl,rfl,rfl,rfl,rfl⟩
    | v6 dst dstPort flowinfo scopeId =>
      exact ⟨_,rfl,congrArg IpAddr.v6 (embeddedOctets ip),rfl,rfl,rfl⟩
  | v6 ip port flowinfo scopeId =>
    cases address with
    | v4 dst dstPort => exact nomatch suits rfl
    | v6 dst dstPort flowinfo scopeId => exact ⟨_,rfl,rfl,rfl,rfl,rfl⟩

theorem rawHands {b : UdpBackend} {client source : SocketAddr} {draw : ℚ} {payload : Bytes}
    (socket : b.rawSocket = some ⟨!b.address.isIpv4⟩)
    (sent : b.send os draw client payload = b.rawSend os ⟨!b.address.isIpv4⟩ source payload)
    (suits : source.ip.isIpv6 = true → b.address.isIpv4 = false)
    (port : source.port = client.port) :
    Hands os b client draw payload (source.ip.towards b.address.ip) := by
  obtain ⟨build,chosen,origin,srcPort,destination,dstPort⟩ := buildExact (ε := ε) suits
  obtain ⟨packet,built⟩ := packetBuilt build payload
  refine ⟨_,source,build,packet,socket,sent,chosen,origin,srcPort.trans port,destination,dstPort,
    built,?_⟩
  rw [sent]
  simp only [UdpBackend.rawSend,sendTo,chosen,built,bind,Option.bind,Option.map_some]
  cases os.rawSendTo packet b.address with
  | ok n => rfl
  | error e => rfl

theorem realExact (client : SocketAddr) :
    (UdpBackend.realSrc client).ip = client.ip.unmapped ∧
      (UdpBackend.realSrc client).port = client.port := by
  cases client with
  | v4 ip port => exact ⟨rfl,rfl⟩
  | v6 ip port flowinfo scopeId =>
    cases mapped : ip.toIpv4Mapped with
    | none => simp [UdpBackend.realSrc,SocketAddr.ip,IpAddr.unmapped,SocketAddr.port,mapped]
    | some real =>
      simp [UdpBackend.realSrc,SocketAddr.ip,IpAddr.unmapped,SocketAddr.port,SocketAddr.new,mapped]

theorem familyIp (address : SocketAddr) : address.isIpv4 = !address.ip.isIpv6 := by
  cases address with
  | v4 ip port => rfl
  | v6 ip port flowinfo scopeId => rfl

theorem promisedKept (fallback : Option Ipv4Addr) {client backend : IpAddr}
    (fits : client.unmapped.isIpv6 = true → backend.isIpv6 = true) :
    (SendMode.preserveSrcAddr fallback).promised client backend =
      some (client.unmapped.towards backend) := by
  unfold SendMode.promised
  cases family : client.unmapped with
  | v4 c =>
    cases backend with
    | v4 d => rfl
    | v6 d => rfl
  | v6 c =>
    cases backend with
    | v4 d => exact absurd (fits (by rw [family]; exact rfl)) Bool.false_ne_true
    | v6 d => rfl

theorem preservedSource (b : UdpBackend) (fallback : Option Ipv4Addr) (client : SocketAddr) :
    (∀ s, (SendMode.preserveSrcAddr fallback).promised client.ip b.address.ip = some s →
      ∃ source, b.effectiveSrc fallback client =
          (.ok source : Except (BackendError ε) SocketAddr) ∧ source.port = client.port ∧
        (source.ip.isIpv6 = true → b.address.isIpv4 = false) ∧
        source.ip.towards b.address.ip = s) ∧
    ((SendMode.preserveSrcAddr fallback).promised client.ip b.address.ip = none →
      b.effectiveSrc fallback client = (.error (UdpBackend.failed UdpBackend.needsFallback) :
        Except (BackendError ε) SocketAddr)) := by
  obtain ⟨realIp,realPort⟩ := realExact client
  unfold UdpBackend.effectiveSrc
  rw [familyIp b.address,familyIp (UdpBackend.realSrc client),realIp]
  cases lost : !(!client.ip.unmapped.isIpv6) && !b.address.ip.isIpv6 with
  | false =>
    have fits : client.ip.unmapped.isIpv6 = true → b.address.ip.isIpv6 = true := by
      intro six
      simpa [six] using lost
    rw [promisedKept fallback fits]
    refine ⟨fun s eq => ⟨_,rfl,realPort,?_,?_⟩,fun eq => by contradiction⟩
    · intro six
      rw [realIp] at six
      rw [fits six]
      exact rfl
    · rw [realIp]
      exact Option.some.inj eq
  | true =>
    have arm : (SendMode.preserveSrcAddr fallback).promised client.ip b.address.ip =
        fallback.map .v4 := by
      unfold SendMode.promised
      cases family : client.ip.unmapped with
      | v4 c => simp [family,IpAddr.isIpv6] at lost
      | v6 c =>
        cases backend : b.address.ip with
        | v4 d => rfl
        | v6 d => simp [backend,IpAddr.isIpv6] at lost
    rw [arm]
    cases fallback with
    | none => exact ⟨fun s eq => by contradiction,fun _ => rfl⟩
    | some ip =>
      refine ⟨fun s eq => ⟨_,rfl,rfl,fun six => by contradiction,?_⟩,fun eq => by contradiction⟩
      cases lostFamily : b.address.ip with
      | v4 d => exact Option.some.inj eq
      | v6 d => simp [lostFamily,IpAddr.isIpv6] at lost

theorem preserveSends {b : UdpBackend} {fallback : Option Ipv4Addr} {draw : ℚ}
    (moded : b.mode = .preserveSrcAddr fallback) (socket : b.rawSocket = some ⟨!b.address.isIpv4⟩)
    (through : b.shouldSend draw = true) (client : SocketAddr) (payload : Bytes) :
    (∀ s, b.mode.promised client.ip b.address.ip = some s → Hands os b client draw payload s) ∧
    (b.mode.promised client.ip b.address.ip = none → b.send os draw client payload =
      some (.error (UdpBackend.failed UdpBackend.needsFallback))) := by
  obtain ⟨handed,lost⟩ := preservedSource (ε := ε) b fallback client
  rw [moded]
  refine ⟨fun s eq => ?_,fun eq => ?_⟩
  · obtain ⟨source,chosen,port,fits,same⟩ := handed s eq
    have sent : b.send os draw client payload =
        b.rawSend os ⟨!b.address.isIpv4⟩ source payload := by
      simp [UdpBackend.send,through,moded,socket,chosen]
    rw [← same]
    exact rawHands os socket sent fits port
  · simp [UdpBackend.send,through,moded,socket,lost eq]

theorem fakeSends {b : UdpBackend} {ip : IpAddr} {draw : ℚ} (moded : b.mode = .fakeSrcAddr ip)
    (suits : b.mode.Suits b.address) (socket : b.rawSocket = some ⟨!b.address.isIpv4⟩)
    (through : b.shouldSend draw = true) (client : SocketAddr) (payload : Bytes) :
    Hands os b client draw payload (ip.towards b.address.ip) := by
  have parts : (SocketAddr.new ip client.port).ip = ip ∧
      (SocketAddr.new ip client.port).port = client.port := by
    cases ip with
    | v4 ip => exact ⟨rfl,rfl⟩
    | v6 ip => exact ⟨rfl,rfl⟩
  have sent : b.send os draw client payload =
      b.rawSend os ⟨!b.address.isIpv4⟩ (.new ip client.port) payload := by
    simp [UdpBackend.send,through,moded,socket]
  have handed := rawHands os socket sent (fun six => suits ip moded (parts.1 ▸ six)) parts.2
  rwa [parts.1] at handed

end

theorem openedFields (t : Target) (address : SocketAddr) (mode : SendMode) :
    (t.opened address mode).address = address ∧ (t.opened address mode).mode = mode ∧
      (t.opened address mode).rawSocket = some ⟨!address.isIpv4⟩ := by
  cases t with
  | backend cfg => exact ⟨rfl,rfl,rfl⟩
  | mirror cfg => exact ⟨rfl,rfl,rfl⟩

theorem translated (t : RawTarget) : ∃ mode address,
    parseAddress t.target.relay.address = .ok address ∧ Configured t.target.relay mode ∧
    ∀ (ε : Type) (os : Os ε),
      Opens os (t.target.create os) (t.target.opened address mode) ∧
      ∀ client draw payload, (t.target.opened address mode).shouldSend draw = true →
        (∀ s, mode.promised client.ip address.ip = some s →
          Hands os (t.target.opened address mode) client draw payload s) ∧
        (mode.promised client.ip address.ip = none →
          (t.target.opened address mode).send os draw client payload =
            some (.error (UdpBackend.failed UdpBackend.needsFallback))) := by
  obtain ⟨address,path,noun,parsed,relay⟩ := addressAccepted t
  obtain ⟨mode,configured,suits⟩ := relayAccepted relay parsed t.raw
  refine ⟨mode,address,parsed,configured,fun ε os => ⟨createdRaw os t.target parsed configured,?_⟩⟩
  intro client draw payload through
  have fields := openedFields t.target address mode
  generalize t.target.opened address mode = b at through fields
  obtain ⟨located,moded,socket⟩ := fields
  subst located moded
  cases moded : b.mode with
  | standard => exact absurd moded configured.notStandard
  | preserveSrcAddr fallback =>
    rw [← moded]
    exact preserveSends os moded socket through client payload
  | fakeSrcAddr ip =>
    refine ⟨fun s eq => ?_,fun eq => by contradiction⟩
    cases eq
    exact fakeSends os moded suits socket through client payload

end UdpBalancer
