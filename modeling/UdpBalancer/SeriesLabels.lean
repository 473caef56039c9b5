import UdpBalancer.AddressText
import UdpBalancer.Preconditions

/-! The labels of the health series and of the traffic series. `App::run` gives both
the address as configured, and the balancer alone the bound one; `HealthChecker`
keeps the configured texts, and `forward` prints the backend's parsed address. -/
namespace UdpBalancer

structure HealthCheck where
  url : String
  interval : Nat
  timeout : Nat
  -- the place, in its server's balancer, of the backend whose flag it shares
  alive : Nat
  listenerAddr : String
  backendAddr : String
  deriving DecidableEq

namespace HealthCheck
open Forwarding (Label incBy)

def label (check : HealthCheck) : Label := (check.listenerAddr,check.backendAddr)

structure Series where
  backendAlive : Label → Option Nat
  healthCheckTotal : Label → Nat
  healthCheckFailed : Label → Nat
  alive : Bool

def setGauge (series : Label → Option Nat) (label : Label) (n : Nat) : Label → Option Nat :=
  Function.update series label (some n)

def tick (check : HealthCheck) (s : Series) (isAlive : Bool) : Series where
  backendAlive := setGauge s.backendAlive check.label (if isAlive then 1 else 0)
  healthCheckTotal := incBy s.healthCheckTotal check.label 1
  healthCheckFailed :=
    if isAlive then s.healthCheckFailed else incBy s.healthCheckFailed check.label 1
  alive := isAlive

def runCheck (check : HealthCheck) (results : List Bool) (s : Series) : Series :=
  results.foldl (tick check) {s with backendAlive := setGauge s.backendAlive check.label 1}

structure Same (other : Label) (s t : Series) : Prop where
  backendAlive : t.backendAlive other = s.backendAlive other
  healthCheckTotal : t.healthCheckTotal other = s.healthCheckTotal other
  healthCheckFailed : t.healthCheckFailed other = s.healthCheckFailed other

theorem tickElsewhere {check : HealthCheck} {other : Label} (apart : other ≠ check.label)
    (s : Series) (isAlive : Bool) : Same other s (tick check s isAlive) := by
  refine ⟨Function.update_of_ne apart ..,Forwarding.incByOther _ apart _,?_⟩
  cases isAlive with
  | true => rfl
  | false => exact Forwarding.incByOther _ apart _

theorem ticksElsewhere {check : HealthCheck} {other : Label} (apart : other ≠ check.label)
    (results : List Bool) (s : Series) : Same other s (results.foldl (tick check) s) := by
  induction results generalizing s with
  | nil => exact ⟨rfl,rfl,rfl⟩
  | cons isAlive results ih =>
    have first := tickElsewhere apart s isAlive
    have others := ih (tick check s isAlive)
    exact ⟨others.backendAlive.trans first.backendAlive,
      others.healthCheckTotal.trans first.healthCheckTotal,
      others.healthCheckFailed.trans first.healthCheckFailed⟩

theorem runElsewhere {check : HealthCheck} {other : Label} (apart : other ≠ check.label)
    (results : List Bool) (s : Series) : Same other s (runCheck check results s) := by
  have ticks := ticksElsewhere apart results
    {s with backendAlive := setGauge s.backendAlive check.label 1}
  exact ⟨ticks.backendAlive.trans (Function.update_of_ne apart ..),ticks.healthCheckTotal,
    ticks.healthCheckFailed⟩

theorem ticksCount (check : HealthCheck) (results : List Bool) (s : Series) :
    (results.foldl (tick check) s).healthCheckTotal check.label =
        s.healthCheckTotal check.label+results.length ∧
      (results.foldl (tick check) s).healthCheckFailed check.label =
        s.healthCheckFailed check.label+results.countP (!·) := by
  induction results generalizing s with
  | nil => exact ⟨rfl,rfl⟩
  | cons isAlive results ih =>
    obtain ⟨total,failed⟩ := ih (tick check s isAlive)
    rw [List.foldl_cons,total,failed,List.length_cons,List.countP_cons]
    have counted : (tick check s isAlive).healthCheckTotal check.label =
        s.healthCheckTotal check.label+1 := Forwarding.incByHere ..
    refine ⟨by omega,?_⟩
    cases isAlive with
    | true => exact rfl
    | false =>
      have missed : (tick check s false).healthCheckFailed check.label =
          s.healthCheckFailed check.label+1 := Forwarding.incByHere ..
      simp only [Bool.not_false,if_true]
      omega

def shows (isAlive : Bool) : Option Nat := some (if isAlive then 1 else 0)

theorem ticksShow (check : HealthCheck) (results : List Bool) {s : Series} {before : Bool}
    (shown : s.backendAlive check.label = shows before) :
    (results.foldl (tick check) s).backendAlive check.label =
      shows (results.getLast?.getD before) := by
  induction results generalizing s before with
  | nil => exact shown
  | cons isAlive results ih =>
    rw [List.foldl_cons,List.getLast?_cons,Option.getD_some]
    exact ih (Function.update_self ..)

theorem ticksFlag (check : HealthCheck) (results : List Bool) (s : Series) :
    (results.foldl (tick check) s).alive = results.getLast?.getD s.alive := by
  induction results generalizing s with
  | nil => rfl
  | cons isAlive results ih =>
    rw [List.foldl_cons,List.getLast?_cons,Option.getD_some]
    exact ih (tick check s isAlive)

theorem runPublishes (check : HealthCheck) (results : List Bool) (s : Series) :
    (runCheck check results s).backendAlive check.label = shows (results.getLast?.getD true) ∧
      (runCheck check results s).alive = results.getLast?.getD s.alive ∧
      (runCheck check results s).healthCheckTotal check.label =
        s.healthCheckTotal check.label+results.length ∧
      (runCheck check results s).healthCheckFailed check.label =
        s.healthCheckFailed check.label+results.countP (!·) := by
  have counts := ticksCount check results
    {s with backendAlive := setGauge s.backendAlive check.label 1}
  exact ⟨ticksShow check results (Function.update_self ..),ticksFlag check results _,counts⟩

end HealthCheck

def Forwarding.Balancer.setListenerAddr (b : Balancer) (addr : String) : Balancer :=
  {b with listenerAddr := addr}

def Forwarding.Balancer.startSessionCleanup (b : Balancer) : Nat :=
  Config.cleanupInterval b.proxyTimeout

namespace App
open Backends NetParse Config AddressText
open Forwarding (Balancer labelOf)

-- `unfinished` is no error of the program: it has not come to an end by then
inductive RunError (ε : Type) where
  | app (error : AppError ε)
  | listener (error : ε)
  | unfinished

structure Mirror where
  backends : List UdpBackend
  listenerAddr : String

/- The system a process starts on. What a listener is bound to prints as the address
it was given, and port 0 makes the system choose a port. -/
structure Machine (ε : Type) where
  os : Os ε
  bindListener : Nat → SocketAddr → Except ε SocketAddr
  kept : ∀ {i address bound}, bindListener i address = .ok bound → address.port ≠ 0 →
    bound.text = address.text
  chosen : ∀ {i address bound}, bindListener i address = .ok bound → address.port = 0 →
    bound.port ≠ 0

variable {ε : Type} (m : Machine ε)

def healthCheck (listenerAddr : String) (index : Nat) (cfg : BackendConfig) :
    Option HealthCheck :=
  cfg.healthcheck.map fun healthcheck =>
    ⟨healthcheck.url,healthcheck.interval,healthcheck.timeout,index,listenerAddr,cfg.address⟩

def createBackends (listenerAddr : String) : (index : Nat) → List BackendConfig →
    Except (AppError ε) (List UdpBackend × List HealthCheck)
  | _,[] => .ok ([],[])
  | index,cfg::rest => do
    let backend ← createBackend m.os cfg
    let (backends,checks) ← createBackends listenerAddr (index+1) rest
    .ok (backend::backends,(healthCheck listenerAddr index cfg).toList ++ checks)

def createMirrorBackends : List MirrorConfig → Except (AppError ε) (List UdpBackend)
  | [] => .ok []
  | cfg::rest => do
    let backend ← createMirrorBackend m.os cfg
    let backends ← createMirrorBackends rest
    .ok (backend::backends)

structure Server where
  balancer : Option Balancer
  sessionCleanup : Option Nat
  mirror : Option Mirror
  healthChecks : List HealthCheck

/- The constructors of the algorithms. `gcd_f64` recurses without a bound, `fuel` counts
its calls; `MaglevTable.populateComplete` bounds what `Maglev::new` does. -/
def newAlgorithm (fuel : Nat) (algorithm : Algorithm) (weights : List (F64 ℚ)) :
    Except (RunError ε) Unit :=
  match algorithm with
  | .wrr => match Wrr.newF64 fuel weights with
    | none => .error .unfinished
    | some _ => .ok ()
  | .rh | .maglev => .ok ()

def createBalancer (fuel : Nat) (server : ServerConfig) :
    Except (RunError ε) (Option Balancer × Option Nat × List HealthCheck) :=
  match server.balancer with
  | none => .ok (none,none,[])
  | some balCfg => do
    let (backends,checks) ← (createBackends m server.address 0 balCfg.backends).mapError .app
    newAlgorithm fuel balCfg.algorithm (backends.map UdpBackend.weight)
    let balancer : Balancer :=
      ⟨backends,balCfg.algorithm,balCfg.hashKey,server.address,balCfg.proxyTimeout⟩
    .ok (some balancer,some balancer.startSessionCleanup,checks)

def createMirror (server : ServerConfig) : Except (AppError ε) (Option Mirror) :=
  match server.mirror with
  | none => .ok none
  | some mirrorCfg =>
    if mirrorCfg.targets.isEmpty then .ok none else do
      let backends ← createMirrorBackends m mirrorCfg.targets
      .ok (some ⟨backends,server.address⟩)

def Mirror.setListenerAddr (mirror : Mirror) (addr : String) : Mirror :=
  {mirror with listenerAddr := addr}

def createServer (fuel index : Nat) (server : ServerConfig) : Except (RunError ε) Server := do
  let serverAddr ← (address server.address).mapError .app
  let (balancer,cleanup,checks) ← createBalancer m fuel server
  let mirror ← (createMirror m server).mapError .app
  let boundAddr ← (m.bindListener index serverAddr).mapError .listener
  let bound := boundAddr.text
  .ok ⟨balancer.map (·.setListenerAddr bound),cleanup,mirror.map (·.setListenerAddr bound),checks⟩

def createServers (fuel : Nat) : (index : Nat) → List ServerConfig →
    Except (RunError ε) (List Server)
  | _,[] => .ok []
  | index,server::rest => do
    let created ← createServer m fuel index server
    let servers ← createServers fuel (index+1) rest
    .ok (created::servers)

def start (fuel : Nat) (config : Config) : Except (RunError ε) (List Server) := do
  let _ ← ((address config.status).mapError .app : Except (RunError ε) SocketAddr)
  createServers m fuel 0 config.servers

structure Started (ε : Type) where
  accepted : Accepted
  machine : Machine ε
  fuel : Nat
  servers : List Server
  started : start machine fuel accepted.config = .ok servers

structure Watched {ε : Type} (r : Started ε) where
  server : Fin r.accepted.config.servers.length
  balancer : BalancerConfig
  serves : (r.accepted.config.servers.get server).balancer = some balancer
  index : Fin balancer.backends.length
  watched : (balancer.backends.get index).healthcheck.isSome = true

namespace Watched
variable {r : Started ε} (w : Watched r)

def serverConfig : ServerConfig := r.accepted.config.servers.get w.server

def backendConfig : BackendConfig := w.balancer.backends.get w.index

def healthLabels : List Forwarding.Label :=
  (r.servers[w.server.val]?).elim [] fun server =>
    (server.healthChecks.filter fun check => check.alive = w.index.val).map HealthCheck.label

def trafficLabel : Option Forwarding.Label := do
  let server ← r.servers[w.server.val]?
  let b ← server.balancer
  let backend ← b.backends[w.index.val]?
  some (labelOf b backend)

def Shares : Prop := ∃ label, w.healthLabels = [label] ∧ w.trafficLabel = some label

structure Spelled : Prop where
  listener : ∃ address : SocketAddr, w.serverConfig.address = address.text ∧ address.port ≠ 0
  backend : Canonical w.backendConfig.address

end Watched

theorem addressRead {text : String} {found : SocketAddr}
    (read : (address text : Except (AppError ε) SocketAddr) = .ok found) :
    parseAddress text = .ok found := mapErrorOk.1 read

theorem newAddress {os : Os ε} {address : SocketAddr} {mode : SendMode}
    {probability weight : F64 ℚ} {backend : UdpBackend}
    (made : UdpBackend.new os address mode probability weight = .ok backend) :
    backend.address = address := by
  cases mode with
  | standard =>
    simp only [UdpBackend.new,thenOk] at made
    obtain ⟨_,_,_,_,last⟩ := made
    cases last
    exact rfl
  | _ =>
    simp only [UdpBackend.new,thenOk] at made
    obtain ⟨_,_,last⟩ := made
    cases last
    exact rfl

theorem createdAddress {os : Os ε} {cfg : BackendConfig} {backend : UdpBackend}
    (made : createBackend os cfg = .ok backend) :
    parseAddress cfg.address = .ok backend.address := by
  simp only [createBackend,thenOk] at made
  obtain ⟨addr,read,made⟩ := made
  have opened : ∀ {reads : Except (AppError ε) SendMode}, (do
      let mode ← reads
      (UdpBackend.new os addr mode (.fin 1) cfg.weight).mapError .backend) = .ok backend →
        backend.address = addr := by
    intro reads goes
    obtain ⟨mode,_,new⟩ := thenOk.1 goes
    exact newAddress (mapErrorOk.1 new)
  have same : backend.address = addr := by
    split at made
    · exact opened made
    · split at made
      · exact opened made
      · exact opened made
  rw [same]
  exact addressRead read

variable {m : Machine ε} {listenerAddr : String} {fuel index : Nat} {cfgs : List BackendConfig}
  {backends : List UdpBackend} {checks : List HealthCheck}

theorem healthCheckAlive {cfg : BackendConfig} {check : HealthCheck}
    (mem : check ∈ (healthCheck listenerAddr index cfg).toList) : check.alive = index := by
  rw [Option.mem_toList,healthCheck,Option.map_eq_some_iff] at mem
  obtain ⟨_,_,rfl⟩ := mem
  exact rfl

theorem createdLater (made : createBackends m listenerAddr index cfgs = .ok (backends,checks)) :
    ∀ check ∈ checks, index ≤ check.alive := by
  induction cfgs generalizing index backends checks with
  | nil =>
    cases made
    simp
  | cons cfg rest ih =>
    simp only [createBackends,thenOk] at made
    obtain ⟨backend,_,⟨others,later⟩,made,last⟩ := made
    cases last
    intro check mem
    rcases List.mem_append.1 mem with first | mem
    · exact (healthCheckAlive first).ge
    · exact Nat.le_of_succ_le (ih made check mem)

theorem createdAt (made : createBackends m listenerAddr index cfgs = .ok (backends,checks))
    {j : Nat} {cfg : BackendConfig} (found : cfgs[j]? = some cfg) :
    (∃ backend, backends[j]? = some backend ∧ parseAddress cfg.address = .ok backend.address) ∧
      (checks.filter fun check => check.alive = index+j) =
        (healthCheck listenerAddr (index+j) cfg).toList := by
  induction cfgs generalizing index backends checks j with
  | nil => contradiction
  | cons first rest ih =>
    simp only [createBackends,thenOk] at made
    obtain ⟨backend,created,⟨others,later⟩,made,last⟩ := made
    cases last
    rw [List.filter_append]
    cases j with
    | zero =>
      cases found
      have here : (healthCheck listenerAddr index cfg).toList.filter
          (fun check => check.alive = index+0) = (healthCheck listenerAddr index cfg).toList :=
        List.filter_eq_self.2 fun check mem => by simpa using healthCheckAlive mem
      have none : (later.filter fun check => check.alive = index+0) = [] := by
        refine List.filter_eq_nil_iff.2 fun check mem => ?_
        have after := createdLater made check mem
        simp only [decide_eq_true_eq]
        omega
      rw [here,none,List.append_nil]
      exact ⟨⟨backend,rfl,createdAddress created⟩,rfl⟩
    | succ j =>
      have none : (healthCheck listenerAddr index first).toList.filter
          (fun check => check.alive = index+(j+1)) = [] := by
        refine List.filter_eq_nil_iff.2 fun check mem => ?_
        have same := healthCheckAlive mem
        simp only [decide_eq_true_eq]
        omega
      have place : index+(j+1) = index+1+j := by omega
      rw [none,List.nil_append,place]
      exact ih made found

theorem createdServer {server : ServerConfig} {created : Server}
    (made : createServer m fuel index server = .ok created) {balancer : BalancerConfig}
    (serves : server.balancer = some balancer) :
    ∃ serverAddr bound backends, parseAddress server.address = .ok serverAddr ∧
      m.bindListener index serverAddr = .ok bound ∧
      created.balancer = some ⟨backends,balancer.algorithm,balancer.hashKey,bound.text,
        balancer.proxyTimeout⟩ ∧
      createBackends m server.address 0 balancer.backends =
        .ok (backends,created.healthChecks) := by
  simp only [createServer,createBalancer,serves,thenOk,mapErrorOk] at made
  obtain ⟨serverAddr,read,⟨b,cleanup,checks⟩,⟨⟨backends,_⟩,each,_,_,last⟩,mirror,_,bound,bind,
    done⟩ := made
  cases last
  cases done
  exact ⟨serverAddr,bound,backends,addressRead read,bind,rfl,each⟩

theorem serversAt {configs : List ServerConfig} {servers : List Server}
    (made : createServers m fuel index configs = .ok servers) {i : Nat} {server : ServerConfig}
    (found : configs[i]? = some server) :
    ∃ created, servers[i]? = some created ∧ createServer m fuel (index+i) server = .ok created := by
  induction configs generalizing index servers i with
  | nil => contradiction
  | cons first rest ih =>
    simp only [createServers,thenOk] at made
    obtain ⟨created,here,others,later,last⟩ := made
    cases last
    cases i with
    | zero =>
      cases found
      exact ⟨created,rfl,here⟩
    | succ i =>
      obtain ⟨created,place,made⟩ := ih later found
      refine ⟨created,place,?_⟩
      rwa [Nat.add_right_comm] at made

namespace Watched
variable {r : Started ε} (w : Watched r)

theorem labels : ∃ serverAddr bound backendAddr,
    parseAddress w.serverConfig.address = .ok serverAddr ∧
    r.machine.bindListener w.server.val serverAddr = .ok bound ∧
    parseAddress w.backendConfig.address = .ok backendAddr ∧
    w.healthLabels = [(w.serverConfig.address,w.backendConfig.address)] ∧
    w.trafficLabel = some (bound.text,backendAddr.text) := by
  have started := r.started
  simp only [start,thenOk] at started
  obtain ⟨_,_,started⟩ := started
  obtain ⟨created,place,made⟩ := serversAt started
    (List.getElem?_eq_getElem w.server.isLt)
  obtain ⟨serverAddr,bound,backends,read,listens,balanced,each⟩ := createdServer made w.serves
  obtain ⟨⟨backend,stands,parsed⟩,checks⟩ := createdAt each
    (List.getElem?_eq_getElem w.index.isLt)
  obtain ⟨healthcheck,asked⟩ := Option.isSome_iff_exists.1 w.watched
  rw [Nat.zero_add] at listens checks
  refine ⟨serverAddr,bound,backend.address,read,listens,parsed,?_,?_⟩
  · have asked : (w.balancer.backends[w.index.val]).healthcheck = some healthcheck := asked
    rw [healthLabels,place,Option.elim_some,checks,healthCheck,asked]
    exact rfl
  · simp only [trafficLabel,place,balanced,stands,bind,Option.bind]
    exact rfl

theorem labelsExactly : w.Shares ↔ w.Spelled := by
  obtain ⟨serverAddr,bound,backendAddr,read,listens,parsed,health,traffic⟩ := w.labels
  constructor
  · intro ⟨label,under,counted⟩
    have same := (List.cons.inj (health.symm.trans under)).1.trans
      (Option.some.inj (counted.symm.trans traffic))
    obtain ⟨listener,backend⟩ := Prod.mk.inj same
    refine ⟨⟨bound,listener,fun zero => ?_⟩,⟨backendAddr,backend⟩⟩
    rw [listener,parseText] at read
    cases read
    exact r.machine.chosen listens ((printedPort bound).trans zero) zero
  · intro ⟨⟨address,listener,fixed⟩,spelled⟩
    rw [listener,parseText] at read
    cases read
    have kept := r.machine.kept listens (fun zero => fixed ((printedPort address).symm.trans zero))
    rw [printedText] at kept
    have backend := (canonicalExactly parsed).1 spelled
    refine ⟨_,health,?_⟩
    rw [traffic,kept,listener,← backend]

end Watched

def monitored : BackendConfig :=
  { collector with healthcheck := some { url := "http://127.0.0.1:8080/ping" } }

def obliging : Machine Empty where
  os := ⟨fun _ => "",fun _ => .ok (),fun _ => .ok (),fun _ => .ok (),fun payload =>
    .ok payload.length,fun payload _ => .ok payload.length,fun packet _ => .ok packet.length⟩
  bindListener _ address := .ok (if address.port = 0 then .new address.ip 40000 else address)
  kept := by
    intro i address bound answer fixed
    cases answer
    rw [if_neg fixed]
  chosen := by
    intro i address bound answer free
    cases answer
    rw [if_pos free]
    cases address.ip with
    | v4 ip => exact (by decide : (40000 : UInt16) ≠ 0)
    | v6 ip => exact (by decide : (40000 : UInt16) ≠ 0)

def shorthand : Accepted where
  config := serving { backends := [monitored] }
  showF64 _ := ""
  accepted := by decide +kernel

theorem shorthandApart : ∃ (r : Started Empty) (w : Watched r), r.accepted = shorthand ∧
    w.healthLabels = [(":2055","127.0.0.1:2056")] ∧
    w.trafficLabel = some ("[::]:2055","127.0.0.1:2056") ∧ ¬ w.Shares := by
  have starts : (start obliging 2 shorthand.config).isOk = true := by decide +kernel
  cases started : start obliging 2 shorthand.config with
  | error e =>
    rw [started] at starts
    contradiction
  | ok servers =>
    let r : Started Empty := ⟨shorthand,obliging,2,servers,started⟩
    let w : Watched r :=
      ⟨⟨0,Nat.one_pos⟩,{ backends := [monitored] },rfl,⟨0,Nat.one_pos⟩,rfl⟩
    have listening : parseAddress ":2055" = .ok (.v6 unspecified 2055 0 0) := by decide +kernel
    have sending : parseAddress "127.0.0.1:2056" = .ok (.v4 (.new 127 0 0 1) 2056) := by
      decide +kernel
    obtain ⟨serverAddr,bound,backendAddr,read,listens,parsed,health,traffic⟩ := w.labels
    cases listening.symm.trans read
    cases sending.symm.trans parsed
    cases listens
    have printed : (SocketAddr.v6 unspecified 2055 0 0).text = "[::]:2055" := by decide +kernel
    have target : (SocketAddr.v4 (.new 127 0 0 1) 2056).text = "127.0.0.1:2056" := by
      decide +kernel
    rw [target] at traffic
    have traffic : w.trafficLabel = some ("[::]:2055","127.0.0.1:2056") := by
      rw [traffic,← printed]
      exact rfl
    refine ⟨r,w,rfl,health,traffic,?_⟩
    intro ⟨label,under,counted⟩
    have same := (List.cons.inj (health.symm.trans under)).1.trans
      (Option.some.inj (counted.symm.trans traffic))
    exact absurd (Prod.mk.inj same).1 (show ":2055" ≠ "[::]:2055" by decide)

end App
end UdpBalancer
