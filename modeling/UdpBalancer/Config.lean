import UdpBalancer.F64
import UdpBalancer.NetParse

/-! The configuration and `Config::validate` with its error texts. Durations are
nanoseconds; how a float prints in a message is a parameter. -/
namespace UdpBalancer
open Backends NetParse

inductive ConfigError where
  | validation (message : String)
  deriving DecidableEq, Repr

inductive Algorithm where
  | wrr
  | rh
  | maglev
  deriving DecidableEq, Repr

inductive ListenerMode where
  | standard
  | batch
  deriving DecidableEq, Repr

inductive HashKeyField where
  | srcIp
  | dstIp
  | srcPort
  | dstPort
  | ipfix
  | ipfixTemplateId
  deriving DecidableEq, Repr

def seconds (n : Nat) : Nat := n*10^9

structure HealthCheckConfig where
  url : String
  interval : Nat := seconds 5
  timeout : Nat := seconds 2
  deriving DecidableEq, Repr

structure BackendConfig where
  address : String
  weight : F64 ℚ := .fin 1
  preserveSrcAddress : Bool := false
  sourceAddress : Option String := none
  fallbackSourceAddress : Option String := none
  healthcheck : Option HealthCheckConfig := none
  deriving DecidableEq, Repr

structure MirrorConfig where
  address : String
  preserveSrcAddress : Bool := false
  sourceAddress : Option String := none
  fallbackSourceAddress : Option String := none
  probability : F64 ℚ := .fin 1
  deriving DecidableEq, Repr

structure BalancerConfig where
  algorithm : Algorithm := .wrr
  hashKey : List HashKeyField := [.srcIp,.dstIp,.srcPort,.dstPort]
  proxyTimeout : Nat := seconds 30
  backends : List BackendConfig := []
  deriving DecidableEq, Repr

structure MirrorSectionConfig where
  targets : List MirrorConfig := []
  deriving DecidableEq, Repr

structure ServerConfig where
  address : String
  listenerMode : ListenerMode := .batch
  listenerWorkers : UInt16 := 0
  balancer : Option BalancerConfig := none
  mirror : Option MirrorSectionConfig := none
  deriving DecidableEq, Repr

structure Config where
  status : String := ":8989"
  servers : List ServerConfig := []
  deriving DecidableEq, Repr

namespace Config

def check (bad : Bool) (message : String) : Except ConfigError Unit :=
  if bad then .error (.validation message) else .ok ()

def expect {α : Type} (read : Except String α) (message : String) : Except ConfigError α :=
  read.mapError fun e => .validation (message ++ e)

def parseIp (s : String) : Except String IpAddr := (parseIpAddr s).mapError AddrKind.text

structure Relay where
  address : String
  preserveSrcAddress : Bool
  sourceAddress : Option String
  fallbackSourceAddress : Option String

def validateFallback (path : String) (relay : Relay) (fallback : String) :
    Except ConfigError Unit := do
  check (!relay.preserveSrcAddress)
    (path ++ ": fallback_source_address requires preserve_src_address")
  let fallbackIp ← expect (parseIp fallback)
    (path ++ ": invalid fallback_source_address '" ++ fallback ++ "': ")
  check fallbackIp.isIpv6 (path ++ ": fallback_source_address must be IPv4")

def expectAddress (path address : String) : Except ConfigError SocketAddr :=
  expect (parseAddress address) (path ++ ": invalid address '" ++ address ++ "': ")

-- an IPv4 source may be used with an IPv6 destination, not the other way round
def validateSource (path noun : String) (relay : Relay) (srcAddr : String) :
    Except ConfigError Unit := do
  let srcIp ← expect (parseIp srcAddr)
    (path ++ ": invalid source_address '" ++ srcAddr ++ "': ")
  let addr ← expectAddress path relay.address
  check (srcIp.isIpv6 && addr.isIpv4)
    (path ++ ": IPv6 source_address cannot be used with IPv4 " ++ noun)

def optional {α : Type} (field : Option α) (validate : α → Except ConfigError Unit) :
    Except ConfigError Unit :=
  match field with
  | none => .ok ()
  | some x => validate x

def validateRelay (path noun : String) (relay : Relay) : Except ConfigError Unit := do
  check (relay.preserveSrcAddress && relay.sourceAddress.isSome)
    (path ++ ": cannot use both preserve_src_address and source_address")
  optional relay.fallbackSourceAddress (validateFallback path relay)
  optional relay.sourceAddress (validateSource path noun relay)

def startsWith (s start : String) : Bool := start.toList.isPrefixOf s.toList

def validateHealthcheck (path : String) (healthcheck : HealthCheckConfig) :
    Except ConfigError Unit := do
  check (!startsWith healthcheck.url "http://" && !startsWith healthcheck.url "https://")
    (path ++ ": healthcheck.url must start with http:// or https://")
  check (healthcheck.interval == 0) (path ++ ": healthcheck.interval must be greater than 0")
  check (healthcheck.timeout == 0) (path ++ ": healthcheck.timeout must be greater than 0")

def validateAll {α : Type} (xs : List α) (validate : α → Nat → Except ConfigError Unit) :
    (index : Nat) → Except ConfigError Unit :=
  match xs with
  | [] => fun _ => .ok ()
  | x::rest => fun index => do
      validate x index
      validateAll rest validate (index+1)

def serverPath (index : Nat) : String := "server[" ++ toString index ++ "]"

def backendPath (server index : Nat) : String :=
  serverPath server ++ ".backend[" ++ toString index ++ "]"

def mirrorPath (server index : Nat) : String :=
  serverPath server ++ ".mirror.targets[" ++ toString index ++ "]"

variable (showF64 : F64 ℚ → String)

def validateBackend (backend : BackendConfig) (serverIndex backendIndex : Nat) :
    Except ConfigError Unit := do
  let path := backendPath serverIndex backendIndex
  let _ ← expectAddress path backend.address
  check (F64.le backend.weight (.fin 0))
    (path ++ ": weight must be positive, got " ++ showF64 backend.weight)
  validateRelay path "backend" ⟨backend.address,backend.preserveSrcAddress,
    backend.sourceAddress,backend.fallbackSourceAddress⟩
  optional backend.healthcheck (validateHealthcheck path)

def validateMirror (mirror : MirrorConfig) (serverIndex mirrorIndex : Nat) :
    Except ConfigError Unit := do
  let path := mirrorPath serverIndex mirrorIndex
  let _ ← expectAddress path mirror.address
  check (F64.gt (.fin 0) mirror.probability || F64.gt mirror.probability (.fin 1))
    (path ++ ": probability must be between 0.0 and 1.0, got " ++ showF64 mirror.probability)
  validateRelay path "mirror" ⟨mirror.address,mirror.preserveSrcAddress,
    mirror.sourceAddress,mirror.fallbackSourceAddress⟩

def algorithmName : Algorithm → String
  | .wrr => "wrr"
  | .rh => "rh"
  | .maglev => "maglev"

def validateBalancer (balancer : BalancerConfig) (index : Nat) : Except ConfigError Unit := do
  let path := serverPath index
  check balancer.backends.isEmpty (path ++ ": balancer must have at least one backend")
  check ((balancer.algorithm == .rh || balancer.algorithm == .maglev) && balancer.hashKey.isEmpty)
    (path ++ ": " ++ algorithmName balancer.algorithm ++
      " algorithm requires at least one hash_key field")
  check (balancer.proxyTimeout == 0) (path ++ ": proxy_timeout must be greater than 0")
  validateAll balancer.backends (fun backend j => validateBackend showF64 backend index j) 0

def hasMirror (server : ServerConfig) : Bool :=
  match server.mirror with
  | none => false
  | some mirrors => !mirrors.targets.isEmpty

def validateServer (server : ServerConfig) (index : Nat) : Except ConfigError Unit := do
  let path := serverPath index
  let _ ← expectAddress path server.address
  check (decide (1024 < server.listenerWorkers))
    (path ++ ": listener_workers must be 0-1024, got " ++ toString server.listenerWorkers)
  check (server.balancer.isNone && !hasMirror server)
    (path ++ ": must have at least one balancer or mirror")
  optional server.balancer fun balancer => validateBalancer showF64 balancer index
  optional server.mirror fun mirrors =>
    validateAll mirrors.targets (fun mirror j => validateMirror showF64 mirror index j) 0

def validateStatusAddr (status : String) : Except ConfigError Unit := do
  let _ ← expect (parseAddress status) ("invalid status address '" ++ status ++ "': ")

def validate (config : Config) : Except ConfigError Unit := do
  validateStatusAddr config.status
  validateAll config.servers (validateServer showF64) 0

theorem thenOk {ε α β : Type} {x : Except ε α} {f : α → Except ε β} {y : β} :
    (x >>= f) = .ok y ↔ ∃ a, x = .ok a ∧ f a = .ok y := by
  cases x with
  | error e => simp [bind,Except.bind]
  | ok a => simp [bind,Except.bind]

theorem mapErrorOk {ε δ α : Type} {x : Except ε α} {f : ε → δ} {y : α} :
    x.mapError f = .ok y ↔ x = .ok y := by
  cases x with
  | error e => simp [Except.mapError]
  | ok a => simp [Except.mapError]

theorem unitOk {P : Unit → Prop} : (∃ u, P u) ↔ P () := Unique.exists_iff

@[simp] theorem checkOk {bad : Bool} {message : String} :
    check bad message = .ok () ↔ bad = false := by
  cases bad with
  | false => simp [check]
  | true => simp [check]

@[simp] theorem expectOk {α : Type} {read : Except String α} {message : String} {x : α} :
    expect read message = .ok x ↔ read = .ok x := mapErrorOk

@[simp] theorem parseIpOk {s : String} {ip : IpAddr} :
    parseIp s = .ok ip ↔ parseIpAddr s = .ok ip := mapErrorOk

@[simp] theorem optionalOk {α : Type} {field : Option α} {validate : α → Except ConfigError Unit} :
    optional field validate = .ok () ↔ ∀ x, field = some x → validate x = .ok () := by
  cases field with
  | none => simp [optional]
  | some x => simp [optional]

theorem validateAllOk {α : Type} {xs : List α} {validate : α → Nat → Except ConfigError Unit}
    {index : Nat} : validateAll xs validate index = .ok () ↔
      ∀ k x, xs[k]? = some x → validate x (index+k) = .ok () := by
  induction xs generalizing index with
  | nil => simp [validateAll]
  | cons x rest ih =>
    simp only [validateAll,thenOk,ih]
    constructor
    · intro ⟨_,first,later⟩ k y found
      cases k with
      | zero =>
        cases Option.some.inj found
        exact first
      | succ k =>
        have next := later k y found
        rwa [Nat.add_assoc,Nat.add_comm 1] at next
    · intro all
      refine ⟨(),all 0 x rfl,fun k y found => ?_⟩
      have next := all (k+1) y found
      rwa [Nat.add_assoc,Nat.add_comm 1]

/- Defaults pass their own checks: what is left to check of a configuration with
nothing but an address is the address. -/
theorem backendDefaults (address : String) (i j : Nat) :
    validateBackend showF64 { address := address } i j = .ok () ↔
      ∃ found, parseAddress address = .ok found := by
  simp [validateBackend,expectAddress,thenOk,unitOk,validateRelay,F64.leFin]

theorem mirrorDefaults (address : String) (i j : Nat) :
    validateMirror showF64 { address := address } i j = .ok () ↔
      ∃ found, parseAddress address = .ok found := by
  simp [validateMirror,expectAddress,thenOk,unitOk,validateRelay,F64.gtFin]

theorem healthcheckDefaults (path url : String) :
    validateHealthcheck path { url := url } = .ok () ↔
      startsWith url "http://" = true ∨ startsWith url "https://" = true := by
  simp only [validateHealthcheck,thenOk,unitOk,checkOk]
  cases startsWith url "http://" with
  | true => simp [seconds]
  | false => simp [seconds]

theorem balancerDefaults (backends : List BackendConfig) (i : Nat) :
    validateBalancer showF64 { backends := backends } i = .ok () ↔ backends ≠ [] ∧
      validateAll backends (fun backend j => validateBackend showF64 backend i j) 0 = .ok () := by
  simp [validateBalancer,thenOk,unitOk,seconds]

def Begins (path message : String) : Prop := ∃ rest, message = path ++ rest

def Names {α : Type} (path : String) (x : Except ConfigError α) : Prop :=
  ∀ message, x = .error (.validation message) → Begins path message

theorem beginsSelf (path rest : String) : Begins path (path ++ rest) := ⟨rest,rfl⟩

theorem beginsMore {path message : String} (begins : Begins path message) (rest : String) :
    Begins path (message ++ rest) := by
  obtain ⟨first,rfl⟩ := begins
  exact ⟨first ++ rest,String.append_assoc ..⟩

theorem beginsShown (path text shown : String) : Begins path (path ++ text ++ shown) :=
  beginsMore (beginsSelf path text) shown

theorem beginsQuoted (path text quoted last : String) :
    Begins path (path ++ text ++ quoted ++ last) := beginsMore (beginsShown path text quoted) last

theorem namesWiden {α : Type} {path part : String} {x : Except ConfigError α}
    (begins : Begins path part) (names : Names part x) : Names path x := by
  intro message failed
  obtain ⟨rest,rfl⟩ := names message failed
  exact beginsMore begins rest

theorem namesCheck {path message : String} (begins : Begins path message) (bad : Bool) :
    Names path (check bad message) := by
  intro text failed
  cases bad with
  | false => contradiction
  | true =>
    cases failed
    exact begins

theorem namesExpect {α : Type} {path message : String} (begins : Begins path message)
    (read : Except String α) : Names path (expect read message) := by
  intro text failed
  cases read with
  | ok x => contradiction
  | error e =>
    cases failed
    exact beginsMore begins e

theorem namesThen {α β : Type} {path : String} {x : Except ConfigError α}
    {f : α → Except ConfigError β} (first : Names path x) (later : ∀ a, Names path (f a)) :
    Names path (x >>= f) := by
  cases x with
  | error e => exact fun message failed => first message (by cases failed; exact rfl)
  | ok a => exact later a

theorem namesOptional {α : Type} {path : String} {field : Option α}
    {validate : α → Except ConfigError Unit} (each : ∀ x, Names path (validate x)) :
    Names path (optional field validate) := by
  cases field with
  | none => exact fun _ failed => by contradiction
  | some x => exact each x

theorem namesAll {α : Type} {path : String} {xs : List α}
    {validate : α → Nat → Except ConfigError Unit} (each : ∀ x k, Names path (validate x k))
    (index : Nat) : Names path (validateAll xs validate index) := by
  induction xs generalizing index with
  | nil => exact fun _ failed => by contradiction
  | cons x rest ih => exact namesThen (each x index) fun _ => ih (index+1)

theorem relayNames (path noun : String) (relay : Relay) :
    Names path (validateRelay path noun relay) := by
  refine namesThen (namesCheck (beginsSelf ..) _) fun _ =>
    namesThen (namesOptional fun fallback => ?_) fun _ => namesOptional fun srcAddr => ?_
  · exact namesThen (namesCheck (beginsSelf ..) _) fun _ =>
      namesThen (namesExpect (beginsQuoted ..) _) fun _ => namesCheck (beginsSelf ..) _
  · exact namesThen (namesExpect (beginsQuoted ..) _) fun _ =>
      namesThen (namesExpect (beginsQuoted ..) _) fun _ => namesCheck (beginsShown ..) _

theorem backendNames (backend : BackendConfig) (i j : Nat) :
    Names (backendPath i j) (validateBackend showF64 backend i j) := by
  refine namesThen (namesExpect (beginsQuoted ..) _) fun _ =>
    namesThen (namesCheck (beginsShown ..) _) fun _ => namesThen (relayNames _ _ _) fun _ =>
    namesOptional fun healthcheck => ?_
  exact namesThen (namesCheck (beginsSelf ..) _) fun _ =>
    namesThen (namesCheck (beginsSelf ..) _) fun _ => namesCheck (beginsSelf ..) _

theorem mirrorNames (mirror : MirrorConfig) (i j : Nat) :
    Names (mirrorPath i j) (validateMirror showF64 mirror i j) :=
  namesThen (namesExpect (beginsQuoted ..) _) fun _ =>
    namesThen (namesCheck (beginsShown ..) _) fun _ => relayNames _ _ _

theorem balancerNames (balancer : BalancerConfig) (i : Nat) :
    Names (serverPath i) (validateBalancer showF64 balancer i) := by
  refine namesThen (namesCheck (beginsSelf ..) _) fun _ =>
    namesThen (namesCheck (beginsQuoted ..) _) fun _ =>
    namesThen (namesCheck (beginsSelf ..) _) fun _ => namesAll (fun backend j => ?_) 0
  exact namesWiden (beginsQuoted ..) (backendNames showF64 backend i j)

theorem serverNames (server : ServerConfig) (i : Nat) :
    Names (serverPath i) (validateServer showF64 server i) := by
  refine namesThen (namesExpect (beginsQuoted ..) _) fun _ =>
    namesThen (namesCheck (beginsShown ..) _) fun _ =>
    namesThen (namesCheck (beginsSelf ..) _) fun _ =>
    namesThen (namesOptional fun balancer => balancerNames showF64 balancer i) fun _ =>
    namesOptional fun mirrors => namesAll (fun mirror j => ?_) 0
  exact namesWiden (beginsQuoted ..) (mirrorNames showF64 mirror i j)

end Config
end UdpBalancer
