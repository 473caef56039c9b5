import UdpBalancer.Requests
import UdpBalancer.SeriesLabels

/-! What `App::run` needs before it serves, read off an accepted configuration: the
sockets of every backend and target, the algorithm of every balancer and every
listener, in order. -/
namespace UdpBalancer.App
open Backends NetParse Config Requests
open Forwarding (Balancer)

inductive Request where
  | bind (addr : String)
  | connect (address : SocketAddr)
  | raw (isIpv6 : Bool)
  | construct (algorithm : Algorithm) (weights : List (F64 ℚ))
  | listen (index : Nat) (address : SocketAddr)
  deriving DecidableEq

/- The constructors ask nothing of the system, but one of them may not return. -/
def Request.issue {ε : Type} (m : Machine ε) (fuel : Nat) : Request → Except (RunError ε) Unit
  | .bind addr => (m.os.bind addr).mapError fun e => .app (.backend (.socketCreation (.os e)))
  | .connect address =>
      (m.os.connect address).mapError fun e => .app (.backend (.socketCreation (.os e)))
  | .raw isIpv6 =>
      (m.os.raw isIpv6).mapError fun e =>
        .app (.backend (UdpBackend.rawFailed m.os (.socketCreation e)))
  | .construct algorithm weights => newAlgorithm fuel algorithm weights
  | .listen index address =>
      ((m.bindListener index address).mapError RunError.listener).map fun _ => ()

def socketRequests (b : UdpBackend) : List Request :=
  (b.socket.toList.flatMap fun socket =>
    .bind socket.bindAddr::if b.connected then [.connect b.address] else []) ++
  b.rawSocket.toList.map fun raw => .raw raw.isIpv6

def sourceMode (relay : Relay) : Option SendMode :=
  if relay.preserveSrcAddress then
    match relay.fallbackSourceAddress with
    | none => some (.preserveSrcAddr none)
    | some text => match parseIpAddr text with
      | .ok (.v4 ip) => some (.preserveSrcAddr (some ip))
      | _ => none
  else match relay.sourceAddress with
    | none => some .standard
    | some text => (parseIpAddr text).toOption.map .fakeSrcAddr

def sending (address : SocketAddr) (mode : SendMode) (t : Target) : UdpBackend :=
  let socket := some ⟨UdpBackend.bindAddr address⟩
  match mode,t with
  | .standard,.backend cfg => ⟨address,socket,none,mode,.fin 1,cfg.weight,true⟩
  | .standard,.mirror cfg => ⟨address,socket,none,mode,cfg.probability,.fin 1,false⟩
  | mode,t => t.opened address mode

def plannedTarget (t : Target) : Option UdpBackend := do
  let address ← (parseAddress t.relay.address).toOption
  let mode ← sourceMode t.relay
  some (sending address mode t)

structure Planned where
  address : SocketAddr
  server : Server

def plannedChecks (listenerAddr : String) (index : Nat) (cfgs : List BackendConfig) :
    List HealthCheck :=
  (cfgs.zipIdx index).flatMap fun (cfg,i) => (healthCheck listenerAddr i cfg).toList

def plannedBalancer (server : ServerConfig) :
    Option (Option Balancer × Option Nat × List HealthCheck) :=
  match server.balancer with
  | none => some (none,none,[])
  | some balCfg => do
    let backends ← balCfg.backends.mapM fun cfg => plannedTarget (.backend cfg)
    some (some ⟨backends,balCfg.algorithm,balCfg.hashKey,server.address,balCfg.proxyTimeout⟩,
      some (balCfg.proxyTimeout/2),plannedChecks server.address 0 balCfg.backends)

def plannedMirror (server : ServerConfig) : Option (Option Mirror) :=
  match server.mirror with
  | none => some none
  | some mirrorCfg =>
    if mirrorCfg.targets.isEmpty then some none else do
      let backends ← mirrorCfg.targets.mapM fun cfg => plannedTarget (.mirror cfg)
      some (some ⟨backends,server.address⟩)

def plannedServer (server : ServerConfig) : Option Planned := do
  let address ← (parseAddress server.address).toOption
  let (balancer,cleanup,checks) ← plannedBalancer server
  let mirror ← plannedMirror server
  some ⟨address,balancer,cleanup,mirror,checks⟩

def planned (config : Config) : Option (List Planned) := do
  let _ ← (parseAddress config.status).toOption
  config.servers.mapM plannedServer

def balancerRequests (b : Balancer) : List Request :=
  b.backends.flatMap socketRequests ++ [.construct b.algorithmType (b.backends.map UdpBackend.weight)]

def Planned.requests (p : Planned) (index : Nat) : List Request :=
  p.server.balancer.toList.flatMap balancerRequests ++
    (p.server.mirror.toList.flatMap fun mirror => mirror.backends.flatMap socketRequests) ++
    [.listen index p.address]

def requests (index : Nat) (plan : List Planned) : List Request :=
  (plan.zipIdx index).flatMap fun (p,i) => p.requests i

def Planned.listening (p : Planned) (bound : String) : Server where
  balancer := p.server.balancer.map (·.setListenerAddr bound)
  sessionCleanup := p.server.sessionCleanup
  mirror := p.server.mirror.map (·.setListenerAddr bound)
  healthChecks := p.server.healthChecks

variable {showF64 : F64 ℚ → String}

section
variable {ε : Type} (m : Machine ε) (fuel : Nat)

theorem consPlanned {α β : Type} {f : α → Option β} {x : α} {xs : List α} {ys : List β}
    (plan : (x::xs).mapM f = some ys) : ∃ y rest, ys = y::rest ∧ f x = some y ∧
      xs.mapM f = some rest := by
  simp only [List.mapM_cons,bind,Option.bind_eq_some_iff,pure] at plan
  obtain ⟨y,first,rest,later,last⟩ := plan
  exact ⟨y,rest,(Option.some.inj last).symm,first,later⟩

end

theorem sendingWeight (address : SocketAddr) (mode : SendMode) (cfg : BackendConfig) :
    (sending address mode (.backend cfg)).weight = cfg.weight := by
  cases mode with
  | _ => exact rfl

theorem plannedWeights {cfgs : List BackendConfig} {backends : List UdpBackend}
    (plan : cfgs.mapM (fun cfg => plannedTarget (.backend cfg)) = some backends) :
    backends.map UdpBackend.weight = cfgs.map BackendConfig.weight := by
  induction cfgs generalizing backends with
  | nil =>
    cases plan
    exact rfl
  | cons cfg rest ih =>
    obtain ⟨b,others,rfl,first,later⟩ := consPlanned plan
    obtain ⟨address,_,first⟩ := Option.bind_eq_some_iff.mp first
    obtain ⟨mode,_,last⟩ := Option.bind_eq_some_iff.mp first
    cases Option.some.inj last
    rw [List.map_cons,List.map_cons,ih later,sendingWeight]

theorem constructAsked {p : Planned} {index : Nat} {algorithm : Algorithm} {weights : List (F64 ℚ)}
    (asked : .construct algorithm weights ∈ p.requests index) :
    ∃ b, p.server.balancer = some b ∧ b.algorithmType = algorithm ∧
      b.backends.map UdpBackend.weight = weights := by
  have sockets : ∀ b, Request.construct algorithm weights ∉ socketRequests b := by
    intro b mem
    simp only [socketRequests,List.mem_append,List.mem_flatMap,List.mem_cons,List.mem_map] at mem
    rcases mem with ⟨socket,_,same | later⟩ | ⟨raw,_,same⟩
    · contradiction
    · split at later
      · cases List.mem_singleton.mp later
      · contradiction
    · contradiction
  simp only [Planned.requests,balancerRequests,List.mem_append,List.mem_flatMap,List.mem_singleton,
    Option.mem_toList] at asked
  rcases asked with (⟨b,found,⟨t,_,mem⟩ | same⟩ | ⟨mirror,_,t,_,mem⟩) | same
  · exact absurd mem (sockets t)
  · obtain ⟨rfl,rfl⟩ := Request.construct.inj same
    exact ⟨b,found,rfl,rfl⟩
  · exact absurd mem (sockets t)
  · contradiction

theorem mapMFrom {α β : Type} {f : α → Option β} {xs : List α} {ys : List β}
    (read : xs.mapM f = some ys) {y : β} (mem : y ∈ ys) : ∃ x ∈ xs, f x = some y := by
  induction xs generalizing ys with
  | nil =>
    cases read
    contradiction
  | cons x rest ih =>
    obtain ⟨first,others,rfl,here,later⟩ := consPlanned read
    rcases List.mem_cons.mp mem with rfl | tail
    · exact ⟨x,List.mem_cons_self,here⟩
    · obtain ⟨z,inside,found⟩ := ih later tail
      exact ⟨z,List.mem_cons_of_mem x inside,found⟩

/- On weights that are finite numbers the constructors return: only what the validator
misses may keep one from it. -/
theorem regularConstructs (c : Accepted) (regular : ∀ server ∈ c.config.servers, Regular server)
    {plan : List Planned} (read : planned c.config = some plan) {algorithm : Algorithm}
    {weights : List (F64 ℚ)} (asked : .construct algorithm weights ∈ requests 0 plan) {ε : Type} :
    ∃ fuel, (newAlgorithm fuel algorithm weights : Except (RunError ε) Unit) = .ok () := by
  obtain ⟨_,_,each⟩ := Option.bind_eq_some_iff.mp read
  obtain ⟨⟨p,index⟩,mem,asked⟩ := List.mem_flatMap.mp asked
  obtain ⟨b,found,rfl,rfl⟩ := constructAsked asked
  obtain ⟨server,inside,plan⟩ := mapMFrom each (List.fst_mem_of_mem_zipIdx mem)
  have ok := c.accepted
  simp only [validate,thenOk,unitOk] at ok
  obtain ⟨j,ok⟩ := elementAccepted ok.2 inside
  simp only [plannedServer,bind,Option.bind_eq_some_iff] at plan
  obtain ⟨_,_,⟨balancer,_,_⟩,balanced,_,_,last⟩ := plan
  cases Option.some.inj last
  cases set : server.balancer with
  | none =>
    simp only [plannedBalancer,set] at balanced
    cases balanced
    contradiction
  | some balCfg =>
    simp only [plannedBalancer,set,bind,Option.bind_eq_some_iff] at balanced
    obtain ⟨backends,targets,last⟩ := balanced
    cases Option.some.inj last
    cases found
    have runs := (balancerRuns ((serverAccepted ok).1 balCfg set)).mpr
      ((regular server inside).balancer balCfg set)
    cases algorithm : balCfg.algorithm with
    | wrr =>
      obtain ⟨fuel,w,made⟩ := runs.start algorithm
      rw [← plannedWeights targets] at made
      exact ⟨fuel,by simp only [newAlgorithm,made]⟩
    | rh => exact ⟨0,rfl⟩
    | maglev => exact ⟨0,rfl⟩

example : (planned shorthand.config).map (requests 0) = some [.bind "0.0.0.0:0",
    .connect (.v4 (.new 127 0 0 1) 2056),.construct .wrr [.fin 1],.listen 0 (.v6 unspecified 2055 0 0)] := by
  decide +kernel

end UdpBalancer.App
