import UdpBalancer.Config
import UdpBalancer.WrrFloats

/-! What the running program needs of a server's configuration, beside what
`Config::validate` lets through: its comparisons miss NaN and infinity, and it
does not halve the timeout. -/
namespace UdpBalancer.Config

def cleanupInterval (timeout : Nat) : Nat := timeout/2

structure BalancerRuns (balancer : BalancerConfig) : Prop where
  weight : ∀ b ∈ balancer.backends, ∃ w, b.weight = .fin w ∧ 0 < w
  check : ∀ b ∈ balancer.backends, ∀ hc, b.healthcheck = some hc → 0 < hc.interval ∧ 0 < hc.timeout
  cleanup : 0 < cleanupInterval balancer.proxyTimeout
  start : balancer.algorithm = .wrr →
    ∃ fuel w, Wrr.newF64 fuel (balancer.backends.map BackendConfig.weight) = some w

structure Runs (server : ServerConfig) : Prop where
  balancer : ∀ balancer, server.balancer = some balancer → BalancerRuns balancer
  mirror : ∀ mirrors, server.mirror = some mirrors → ∀ m ∈ mirrors.targets,
    ∃ p, m.probability = .fin p ∧ 0 ≤ p ∧ p ≤ 1

/- What the validator does not look at. -/
structure BalancerRegular (balancer : BalancerConfig) : Prop where
  weight : ∀ b ∈ balancer.backends, b.weight ≠ .nan ∧ b.weight ≠ .posInf
  timeout : 2 ≤ balancer.proxyTimeout

structure Regular (server : ServerConfig) : Prop where
  balancer : ∀ balancer, server.balancer = some balancer → BalancerRegular balancer
  mirror : ∀ mirrors, server.mirror = some mirrors → ∀ m ∈ mirrors.targets, m.probability ≠ .nan

structure Accepted where
  config : Config
  showF64 : F64 ℚ → String
  accepted : config.validate showF64 = .ok ()

theorem weightLeft {w : F64 ℚ} (ok : F64.le w (.fin 0) = false) (number : w ≠ .nan)
    (finite : w ≠ .posInf) : ∃ q, w = .fin q ∧ 0 < q := by
  cases w with
  | nan => contradiction
  | negInf => simp [F64.le,F64.rank] at ok
  | posInf => contradiction
  | fin q =>
    rw [F64.leFin,decide_eq_false_iff_not,not_le] at ok
    exact ⟨q,rfl,ok⟩

theorem probabilityLeft {p : F64 ℚ} (low : F64.gt (.fin 0) p = false)
    (high : F64.gt p (.fin 1) = false) (number : p ≠ .nan) :
    ∃ q, p = .fin q ∧ 0 ≤ q ∧ q ≤ 1 := by
  cases p with
  | nan => contradiction
  | negInf => simp [F64.gt,F64.rank] at low
  | posInf => simp [F64.posInfGt] at high
  | fin q =>
    rw [F64.gtFin,decide_eq_false_iff_not,not_lt] at low high
    exact ⟨q,rfl,low,high⟩

variable {showF64 : F64 ℚ → String}

theorem backendAccepted {b : BackendConfig} {i j : Nat}
    (ok : validateBackend showF64 b i j = .ok ()) : F64.le b.weight (.fin 0) = false ∧
      ∀ hc, b.healthcheck = some hc → 0 < hc.interval ∧ 0 < hc.timeout := by
  simp only [validateBackend,thenOk,unitOk,checkOk,optionalOk] at ok
  obtain ⟨_,_,weight,_,healthcheck⟩ := ok
  refine ⟨weight,fun hc set => ?_⟩
  have checked := healthcheck hc set
  simp only [validateHealthcheck,thenOk,unitOk,checkOk,beq_eq_false_iff_ne] at checked
  exact ⟨Nat.pos_of_ne_zero checked.2.1,Nat.pos_of_ne_zero checked.2.2⟩

theorem mirrorAccepted {m : MirrorConfig} {i j : Nat}
    (ok : validateMirror showF64 m i j = .ok ()) :
    F64.gt (.fin 0) m.probability = false ∧ F64.gt m.probability (.fin 1) = false := by
  simp only [validateMirror,thenOk,unitOk,checkOk,Bool.or_eq_false_iff] at ok
  obtain ⟨_,_,probability,_⟩ := ok
  exact probability

theorem elementAccepted {α : Type} {xs : List α} {validate : α → Nat → Except ConfigError Unit}
    (ok : validateAll xs validate 0 = .ok ()) {x : α} (mem : x ∈ xs) :
    ∃ k, validate x k = .ok () := by
  obtain ⟨k,found⟩ := List.mem_iff_getElem?.mp mem
  exact ⟨_,validateAllOk.mp ok k x found⟩

theorem balancerRuns {balancer : BalancerConfig} {i : Nat}
    (ok : validateBalancer showF64 balancer i = .ok ()) :
    BalancerRuns balancer ↔ BalancerRegular balancer := by
  simp only [validateBalancer,thenOk,unitOk,checkOk] at ok
  obtain ⟨_,_,_,backends⟩ := ok
  constructor
  · intro runs
    refine ⟨fun b mem => ?_,?_⟩
    · obtain ⟨w,same,_⟩ := runs.weight b mem
      rw [same]
      exact ⟨fun eq => by contradiction,fun eq => by contradiction⟩
    · have half := runs.cleanup
      unfold cleanupInterval at half
      omega
  · intro regular
    have weight : ∀ b ∈ balancer.backends, ∃ w, b.weight = .fin w ∧ 0 < w := by
      intro b mem
      obtain ⟨j,accepted⟩ := elementAccepted backends mem
      have left := regular.weight b mem
      exact weightLeft (backendAccepted accepted).1 left.1 left.2
    refine ⟨weight,fun b mem => ?_,?_,fun _ => ?_⟩
    · obtain ⟨j,accepted⟩ := elementAccepted backends mem
      exact (backendAccepted accepted).2
    · have two := regular.timeout
      unfold cleanupInterval
      omega
    · obtain ⟨weights,same,positive⟩ := Wrr.positiveWeights fun w mem => by
        obtain ⟨b,inside,rfl⟩ := List.mem_map.mp mem
        exact weight b inside
      obtain ⟨fuel,g,_,ends⟩ := Wrr.newEnds positive
      rw [same]
      exact ⟨fuel,_,ends⟩

theorem serverAccepted {server : ServerConfig} {i : Nat}
    (ok : validateServer showF64 server i = .ok ()) :
    (∀ balancer, server.balancer = some balancer → validateBalancer showF64 balancer i = .ok ()) ∧
    ∀ mirrors, server.mirror = some mirrors →
      validateAll mirrors.targets (fun m j => validateMirror showF64 m i j) 0 = .ok () := by
  simp only [validateServer,thenOk,unitOk,optionalOk] at ok
  obtain ⟨_,_,_,_,balancer,mirror⟩ := ok
  exact ⟨balancer,mirror⟩

/- An accepted server runs just when its floats are numbers, its weights finite and
its timeout is two nanoseconds at least. -/
theorem runsExactly (c : Accepted) (i : Fin c.config.servers.length) :
    Runs (c.config.servers.get i) ↔ Regular (c.config.servers.get i) := by
  obtain ⟨j,ok⟩ : ∃ j, validateServer c.showF64 (c.config.servers.get i) j = .ok () := by
    have accepted := c.accepted
    simp only [validate,thenOk,unitOk] at accepted
    exact elementAccepted accepted.2 (List.get_mem _ i)
  obtain ⟨balancer,mirror⟩ := serverAccepted ok
  constructor
  · intro runs
    refine ⟨fun b set => (balancerRuns (balancer b set)).mp (runs.balancer b set),?_⟩
    intro mirrors set m mem
    obtain ⟨p,same,_⟩ := runs.mirror mirrors set m mem
    rw [same]
    exact fun eq => nomatch eq
  · intro regular
    refine ⟨fun b set => (balancerRuns (balancer b set)).mpr (regular.balancer b set),?_⟩
    intro mirrors set m mem
    obtain ⟨k,accepted⟩ := elementAccepted (mirror mirrors set) mem
    obtain ⟨low,high⟩ := mirrorAccepted accepted
    exact probabilityLeft low high (regular.mirror mirrors set m mem)

def collector : BackendConfig := { address := "127.0.0.1:2056" }

def unweighted : BackendConfig := { collector with weight := .nan }

def serving (balancer : BalancerConfig) : Config where
  servers := [{ address := ":2055", balancer := some balancer }]

def mirroring (target : MirrorConfig) : Config where
  servers := [{ address := ":2055", mirror := some { targets := [target] } }]

def nanWeight : Accepted where
  config := serving { backends := [unweighted] }
  showF64 _ := ""
  accepted := by decide +kernel

def shortTimeout : Accepted where
  config := serving { backends := [collector], proxyTimeout := 1 }
  showF64 _ := ""
  accepted := by decide +kernel

def nanProbability : Accepted where
  config := mirroring { address := "127.0.0.1:2056", probability := .nan }
  showF64 _ := ""
  accepted := by decide +kernel

theorem acceptedStuck : (∃ i, ¬ Runs (nanWeight.config.servers.get i)) ∧
    (∀ fuel, Wrr.newF64 fuel ([unweighted].map BackendConfig.weight) = none) ∧
    (∃ i, ¬ Runs (shortTimeout.config.servers.get i)) ∧ cleanupInterval 1 = 0 ∧
    (∃ i, ¬ Runs (nanProbability.config.servers.get i)) := by
  refine ⟨⟨⟨0,by decide⟩,fun runs => ?_⟩,Wrr.newNan List.mem_cons_self,
    ⟨⟨0,by decide⟩,fun runs => ?_⟩,rfl,⟨⟨0,by decide⟩,fun runs => ?_⟩⟩
  · obtain ⟨w,same,_⟩ := (runs.balancer _ rfl).weight _ List.mem_cons_self
    exact nomatch same
  · exact absurd (runs.balancer _ rfl).cleanup (by decide)
  · obtain ⟨p,same,_⟩ := runs.mirror _ rfl _ List.mem_cons_self
    exact nomatch same

end UdpBalancer.Config
