import UdpBalancer.LiveBooks

/-! `/api/v1/status`: what the page shows of a node, read from the registry that the
listeners count in. The figures of a server add up. -/
namespace UdpBalancer.StatusApi
open Backends App NodeBooks
open Forwarding (Balancer Call Label fourBytes labelOf mixed working)

variable {ε : Type}

structure ListenerStats where
  rxPackets : Nat
  rxBytes : Nat
  txPackets : Nat
  txBytes : Nat

structure BackendStats where
  rxPackets : Nat
  rxBytes : Nat
  txPackets : Nat
  txBytes : Nat
  txFailed : Nat

structure MirrorStats where
  txPackets : Nat
  txBytes : Nat
  txFailed : Nat

def getListenerStats (books : Books) (listener : String) : ListenerStats :=
  ⟨books.packetsReceived listener,books.bytesReceived listener,books.packetsSent listener,
    books.bytesSent listener⟩

def getMirrorStats (books : Books) (listener mirror : String) : MirrorStats :=
  ⟨books.mirror.packetsSent (listener,mirror),books.mirror.bytesSent (listener,mirror),
    books.mirror.packetsFailed (listener,mirror)⟩

def getBackendStats (books : Books) (listener backend : String) : BackendStats where
  rxPackets := books.balancer.responsesReceived (listener,backend)
  rxBytes := books.balancer.responseBytesReceived (listener,backend)
  txPackets := books.balancer.packetsSent (listener,backend)
  txBytes := books.balancer.bytesSent (listener,backend)
  txFailed := books.balancer.packetsFailed (listener,backend)

structure BackendStatus where
  address : String
  alive : Bool
  weight : F64 ℚ
  stats : BackendStats

structure MirrorStatus where
  address : String
  probability : F64 ℚ
  stats : MirrorStats

structure ServerStatus where
  listener : String
  algorithm : Option Algorithm
  hashKey : List HashKeyField
  stats : ListenerStats
  backends : List BackendStatus
  mirrors : List MirrorStatus

structure StatusResponse where
  version : String
  servers : List ServerStatus

structure BalancerInfo where
  balancer : Balancer
  algorithmType : Algorithm
  isAlive : Nat → Bool

structure ServerInfo where
  balancer : Option BalancerInfo
  mirror : Option Mirror

def listenerAddr (info : ServerInfo) : Option String :=
  match info.balancer,info.mirror with
  | some b,_ => some b.balancer.listenerAddr
  | none,some m => some m.listenerAddr
  | none,none => none

def backendStatuses (books : Books) (listener : String) (b : BalancerInfo) : List BackendStatus :=
  b.balancer.backends.zipIdx.map fun (backend,i) =>
    ⟨backend.address.text,b.isAlive i,backend.weight,
      getBackendStats books listener backend.address.text⟩

def mirrorStatuses (books : Books) (listener : String) (m : Mirror) : List MirrorStatus :=
  m.backends.map fun backend =>
    ⟨backend.address.text,backend.probability,getMirrorStats books listener backend.address.text⟩

def shownKey (b : BalancerInfo) : List HashKeyField :=
  if b.algorithmType = .wrr then [] else b.balancer.hashKeyFields

def serverStatus (books : Books) (info : ServerInfo) (listener : String) : ServerStatus where
  listener := listener
  algorithm := info.balancer.map BalancerInfo.algorithmType
  hashKey := info.balancer.elim [] shownKey
  stats := getListenerStats books listener
  backends := info.balancer.elim [] (backendStatuses books listener)
  mirrors := info.mirror.elim [] (mirrorStatuses books listener)

def apiStatusHandler (version : String) (servers : List ServerInfo) (books : Books) :
    StatusResponse :=
  ⟨version,servers.filterMap fun info => (listenerAddr info).map (serverStatus books info)⟩

structure Site where
  listener : Listener
  algorithmType : Algorithm
  isAlive : Nat → Bool

namespace Site

def info (site : Site) : ServerInfo :=
  ⟨site.listener.balancer.map fun b => ⟨b,site.algorithmType,site.isAlive⟩,site.listener.mirror⟩

def visible (site : Site) : Bool :=
  site.listener.balancer.isSome || site.listener.mirror.isSome

end Site

theorem visibleAddr (site : Site) :
    listenerAddr site.info = if site.visible then some site.listener.addr else none := by
  cases balanced : site.listener.balancer with
  | some b =>
    simp only [listenerAddr,Site.info,Site.visible,balanced,Option.map_some,Option.isSome_some,
      Bool.true_or,if_true,site.listener.balancerAddr b balanced]
  | none =>
    cases mirrored : site.listener.mirror with
    | some m =>
      simp only [listenerAddr,Site.info,Site.visible,balanced,mirrored,Option.map_none,
        Option.isSome_some,Bool.or_true,if_true,site.listener.mirrorAddr m mirrored]
    | none =>
      simp only [listenerAddr,Site.info,Site.visible,balanced,mirrored,Option.map_none,
        Option.isSome_none,Bool.or_false,Bool.false_eq_true,if_false]

theorem shownServers (version : String) (sites : List Site) (books : Books) :
    (apiStatusHandler version (sites.map Site.info) books).servers =
      (sites.filter Site.visible).map fun site =>
        serverStatus books site.info site.listener.addr := by
  induction sites with
  | nil => exact rfl
  | cons site rest ih =>
    have others : (rest.map Site.info).filterMap (fun info =>
        (listenerAddr info).map (serverStatus books info)) = _ := ih
    rw [apiStatusHandler,List.map_cons,List.filterMap_cons,visibleAddr,others,List.filter_cons]
    cases site.visible with
    | true => exact rfl
    | false => exact rfl

theorem backendsTotal (books : Books) (site : Site) (figure : BackendStats → Nat) :
    ((serverStatus books site.info site.listener.addr).backends.map fun b => figure b.stats).sum =
      (site.listener.labels.map fun label =>
        figure (getBackendStats books label.1 label.2)).sum := by
  unfold serverStatus Site.info Listener.labels
  cases balanced : site.listener.balancer with
  | none => exact rfl
  | some b =>
    have addr := site.listener.balancerAddr b balanced
    have each : ((backendStatuses books site.listener.addr
        ⟨b,site.algorithmType,site.isAlive⟩).map fun shown => figure shown.stats) =
          (b.backends.map (labelOf b)).map fun label =>
            figure (getBackendStats books label.1 label.2) := by
      calc (backendStatuses books site.listener.addr
            ⟨b,site.algorithmType,site.isAlive⟩).map (fun shown => figure shown.stats)
          = (b.backends.zipIdx.map Prod.fst).map fun backend => figure
              (getBackendStats books site.listener.addr backend.address.text) := by
            rw [backendStatuses,List.map_map,List.map_map]
            exact rfl
        _ = (b.backends.map (labelOf b)).map fun label =>
              figure (getBackendStats books label.1 label.2) := by
            rw [List.zipIdx_map_fst,List.map_map,← addr]
            exact rfl
    exact congrArg List.sum each

/- No other listener is bound to the same address, and no two backends share theirs. -/
structure Alone (node : List Listener) (l : Listener) : Prop where
  only : node.filter (fun other => other.addr = l.addr) = [l]
  once : l.labels.Nodup

theorem aloneTotal {node : List Listener} {l : Listener} (alone : Alone node l)
    (f : Label → Nat) : ∑ label ∈ labelsAt node l.addr, f label = (l.labels.map f).sum := by
  rw [labelsAt,alone.only,List.flatMap_singleton,List.sum_toFinset f alone.once]

structure Shown (node : List Listener) (events : List (NodeEvent ε node)) (l : Listener)
    (entry : ServerStatus) : Prop where
  listener : entry.listener = l.addr
  packets : entry.stats.rxPackets = (received l.addr events).length
  forwarded : Alone node l → entry.stats.rxPackets =
    (entry.backends.map fun b => b.stats.txPackets+b.stats.txFailed).sum+
      (received l.addr events).countP Receipt.lost
  answered : Alone node l → (entry.backends.map fun b => b.stats.rxPackets).sum =
    entry.stats.txPackets+(received l.addr events).countP Receipt.undelivered
  answeredBytes : Alone node l → (entry.backends.map fun b => b.stats.rxBytes).sum =
    entry.stats.txBytes+(((received l.addr events).filter Receipt.undelivered).map
      Receipt.answer).sum
  mirrored : ∀ m ∈ entry.mirrors, m.stats.txPackets+m.stats.txFailed+
    skipped events (l.addr,m.address) = offered events (l.addr,m.address)

theorem shown {node : List Listener} {events : List (NodeEvent ε node)} {books : Books}
    (balanced : ∀ addr, Balanced events books addr) (mirrored : ∀ label, Mirrored events books label)
    (site : Site) : Shown node events site.listener
      (serverStatus books site.info site.listener.addr) where
  listener := rfl
  packets := (balanced _).packets
  forwarded := by
    intro alone
    have total := backendsTotal books site fun stats => stats.txPackets+stats.txFailed
    rw [total,← aloneTotal alone]
    exact (balanced _).forwarded
  answered := by
    intro alone
    have total := backendsTotal books site BackendStats.rxPackets
    rw [total,← aloneTotal alone]
    exact (balanced _).answered
  answeredBytes := by
    intro alone
    have total := backendsTotal books site BackendStats.rxBytes
    rw [total,← aloneTotal alone]
    exact (balanced _).answeredBytes
  mirrored := by
    intro m mem
    unfold serverStatus Site.info at mem
    cases set : site.listener.mirror with
    | none =>
      rw [set] at mem
      contradiction
    | some target =>
      rw [set] at mem
      obtain ⟨backend,_,rfl⟩ := List.mem_map.mp mem
      exact (mirrored (site.listener.addr,backend.address.text)).accounted

theorem statusAddsUp (version : String) (sites : List Site)
    (events : List (NodeEvent ε (sites.map Site.listener))) :
    ∃ books, run events blank = some books ∧ List.Forall₂
      (fun site entry => Shown (sites.map Site.listener) events site.listener entry)
      (sites.filter Site.visible)
      (apiStatusHandler version (sites.map Site.info) books).servers := by
  refine ⟨_,runPosts events blank,?_⟩
  rw [shownServers,List.forall₂_map_right_iff,List.forall₂_same]
  exact fun site _ => shown (booksBalanced events) (booksMirrored events) site

def site : Site := ⟨collector,.wrr,fun _ => true⟩

def droppedCall : Call Unit mixed := fourBytes ⟨0,Nat.two_pos⟩ (.error ())

def dropped : Arrival Unit collector where
  srcAddr := droppedCall.srcAddr
  payload := droppedCall.payload
  nonempty := droppedCall.nonempty
  call _ set := Option.some.inj set ▸ ⟨droppedCall,rfl,rfl,rfl⟩
  reply := .ok ()
  envs _ := ⟨droppedCall.draw,working,droppedCall.whole,workingWhole,droppedCall.rawWhole⟩

def arrivals : List (NodeEvent Unit ([site].map Site.listener)) :=
  [⟨⟨0,Nat.one_pos⟩,.packet exported⟩,⟨⟨0,Nat.one_pos⟩,.packet dropped⟩]

theorem collectorAlone : Alone ([site].map Site.listener) collector :=
  ⟨rfl,by decide +kernel⟩

theorem collectorReceived : (received collector.addr arrivals).length = 2 ∧
    (received collector.addr arrivals).countP Receipt.lost = 1 ∧
    (received collector.addr arrivals).countP Receipt.undelivered = 0 := by
  decide +kernel

theorem collectorAddsUp : ∃ books entry, run arrivals blank = some books ∧
    (apiStatusHandler "0.1.0" [site.info] books).servers = [entry] ∧ entry.stats.rxPackets = 2 ∧
    (entry.backends.map fun b => b.stats.txPackets+b.stats.txFailed).sum = 1 ∧
    (entry.backends.map fun b => b.stats.rxPackets).sum = entry.stats.txPackets := by
  obtain ⟨books,ran,shown⟩ := statusAddsUp "0.1.0" [site] arrivals
  obtain ⟨packets,lost,undelivered⟩ := collectorReceived
  obtain ⟨entry,rest,adds,nothing,same⟩ := List.forall₂_cons_left_iff.mp shown
  cases List.forall₂_nil_left_iff.mp nothing
  have total := adds.packets.trans packets
  have forwarded := adds.forwarded collectorAlone
  have answered := adds.answered collectorAlone
  refine ⟨books,entry,ran,same,total,?_,?_⟩
  · have one : entry.stats.rxPackets = _+1 := forwarded.trans (congrArg _ lost)
    omega
  · exact answered.trans (congrArg _ undelivered)

end UdpBalancer.StatusApi
