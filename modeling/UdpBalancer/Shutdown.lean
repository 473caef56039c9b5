import Mathlib.Data.Fintype.Sum
import Mathlib.Data.Fintype.Sigma
import Mathlib.Tactic.DeriveFintype
import UdpBalancer.Startup
import UdpBalancer.Supervision

/-! The tasks that `App::run` spawns and how they stop: `ctrl_c`, the messages on the
shutdown channels of capacity one and the handles that are awaited. -/
namespace UdpBalancer.Shutdown
open Config App

def healthChecks (config : Config) : List HealthCheck :=
  config.servers.flatMap fun server =>
    server.balancer.elim [] fun b => plannedChecks server.address 0 b.backends

def balancers (config : Config) : List BalancerConfig :=
  config.servers.filterMap ServerConfig.balancer

def numWorkers (cpus : Nat) (server : ServerConfig) : Nat :=
  match server.listenerMode with
  | .standard => 0
  | .batch => if server.listenerWorkers = 0 then cpus else server.listenerWorkers.toNat

inductive Task (config : Config) (cpus : Nat) where
  | app
  | statusServer
  | healthChecker
  | healthCheck (i : Fin (healthChecks config).length)
  | listener (i : Fin config.servers.length)
  | worker (i : Fin config.servers.length) (j : Fin (numWorkers cpus (config.servers.get i)))
  | sessionCleanup (i : Fin (balancers config).length)
  deriving DecidableEq, Fintype

variable {config : Config} {cpus : Nat}

/- `tokio::time::interval` panics when it is given no time at all. -/
def timeless (i : Fin (balancers config).length) : Bool :=
  cleanupInterval ((balancers config).get i).proxyTimeout = 0

namespace Task

def children : Task config cpus → List (Task config cpus)
  | .app => .statusServer::.healthChecker::
      ((List.finRange _).map .listener ++ (List.finRange _).map .sessionCleanup)
  | .healthChecker => (List.finRange _).map .healthCheck
  | .listener i => (List.finRange _).map (.worker i)
  | _ => []

def awaited : Task config cpus → List (Task config cpus)
  | .app => [.statusServer]
  | task => task.children

/- The loops over `select!`, and the connections of the status server; the others only
wait to be told. -/
def works : Task config cpus → Bool
  | .healthCheck _ | .worker _ _ | .statusServer => true
  | .sessionCleanup i => !timeless i
  | .listener i => (config.servers.get i).listenerMode = .standard
  | _ => false

def drains : Task config cpus → Bool
  | .statusServer => true
  | _ => false

-- a cleanup makes its timer first; a status server may fail to bind its address
def doomed : Task config cpus → Bool
  | .sessionCleanup i => timeless i
  | _ => false

def fails : Task config cpus → Bool
  | .statusServer => true
  | task => task.doomed

def keeps : Task config cpus → Bool
  | .listener _ | .sessionCleanup _ => false
  | _ => true

def depth : Task config cpus → Nat
  | .app => 0
  | .healthCheck _ | .worker _ _ => 2
  | _ => 1

def parent : Task config cpus → Option (Task config cpus)
  | .app => none
  | .healthCheck _ => some .healthChecker
  | .worker i _ => some (.listener i)
  | _ => some .app

end Task

def pair : Config where
  servers := [{
    address := "127.0.0.1:5353"
    listenerWorkers := 2
    balancer := some {backends := [collector],proxyTimeout := 1} }]

def busy : Fin 2 := ⟨0,by decide⟩

def idle : Fin 2 := ⟨1,by decide⟩

def worker (i : Fin 2) : Task pair 1 := .worker ⟨0,by decide⟩ i

def listener : Task pair 1 := .listener ⟨0,by decide⟩

def cleanup : Task pair 1 := .sessionCleanup ⟨0,by decide⟩

def closing : List (Supervision.Label (Task pair 1)) :=
  [.task .app .hear,.task .app .tell,.task .app .tell,.task .app .tell,.task .app .tell,
    .task .app .told,.task .statusServer .hear,.task .statusServer .told,
    .task .healthChecker .hear,.task .healthChecker .told,.task .healthChecker .stop,
    .task listener .hear,.task listener .tell,.task listener .tell,.task listener .told,
    .task (worker idle) .hear,.task (worker idle) .told,.task (worker idle) .stop,
    .task (worker busy) .finish,.task (worker busy) .hear,.task (worker busy) .told,
    .task (worker busy) .stop,.task listener .join,.task listener .join,.task listener .stop]

end UdpBalancer.Shutdown
