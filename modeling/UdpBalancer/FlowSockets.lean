import UdpBalancer.HealthChecks
import UdpBalancer.RendezvousFlows
import UdpBalancer.SessionStickiness

/-! A rendezvous balancer as one system: the probes store the flags, the calls of `next`
load them one by one, and the tasks of `handle_packet` take the backend they are given to
a session. What a client sends in one flow leaves through one socket. -/
namespace UdpBalancer.FlowSockets
open Backends (Bytes SocketAddr)
open SessionManager (Packet Pc Move Shared Took advanceTook)
open HashKey.Packet (Agree)
open Rendezvous (Index)
open Rendezvous.Threads (Setting Progress callStep)
open HealthChecks (Checks Event)
open SessionStickiness (opened pause)

variable {R κ : Type} [Field R] [LinearOrder R] [DecidableEq κ]

structure Service (R : Type) [Field R] [LinearOrder R] where
  setting : Setting R
  hashKeyFields : List HashKeyField
  proxyTimeout : Nat

abbrev Service.Backend (s : Service R) : Type := Index s.setting.backends

def Service.address (s : Service R) (i : s.Backend) : SocketAddr := s.setting.backends[i].address

def facts (packet : Packet) : HashKey.Packet :=
  ⟨packet.srcAddr.ip,packet.dstAddr.ip,packet.srcAddr.port,packet.dstAddr.port,packet.payload⟩

def Service.key (s : Service R) (packet : Packet) : Bytes :=
  (facts packet).hashKey s.hashKeyFields

structure World (s : Service R) (κ : Type) where
  health : HealthChecks.World κ s.Backend
  calls : Rendezvous.Threads.World s.setting
  manager : SessionManager.World

def World.goto {s : Service R} (x : World s κ) (t : Nat)
    (pc : Rendezvous.Threads.Pc s.setting) : World s κ :=
  {x with calls := Rendezvous.Threads.goto x.calls t pc}

/- `next t` begins the call of task `t`, and `chosen t` is its return. -/
inductive Label (κ : Type) where
  | check (event : Event κ)
  | next (t : Nat)
  | visit (t : Nat)
  | chosen (t : Nat)
  | manager (label : SessionManager.Label)

def Chooses : SessionManager.Label → Prop
  | .task _ (.choose _) => True
  | _ => False

inductive Step {s : Service R} (c : Checks κ s.Backend) (x : World s κ) :
    Label κ → World s κ → Prop where
  | check {event health} (moved : c.step x.health event = some health) :
      Step c x (.check event) ⟨health,{x.calls with alive := health.board.alive},x.manager⟩
  | next {t packet} (forwards : x.manager.tasks t = .forwarding packet)
      (idle : x.calls.calls t = .idle) : Step c x (.next t)
        (x.goto t (Rendezvous.Threads.start s.setting (s.key packet)))
  | visit (t : Nat) : Step c x (.visit t) {x with calls := callStep t x.calls}
  | chosen {t r manager} (returned : x.calls.calls t = .returned r)
      (moved : SessionManager.step s.proxyTimeout x.manager
        (.task t (.choose (r.map s.address))) = some manager) :
      Step c x (.chosen t) {x.goto t .idle with manager := manager}
  | manager {label manager} (other : ¬ Chooses label)
      (moved : SessionManager.step s.proxyTimeout x.manager label = some manager) :
      Step c x (.manager label) {x with manager := manager}

def begins (s : Service R) : World s κ :=
  ⟨HealthChecks.start,⟨fun _ => true,fun _ => .idle⟩,SessionManager.start⟩

def system {s : Service R} (c : Checks κ s.Backend) : Transition.System (World s κ) (Label κ) where
  init x := x = begins s
  step := Step c

def Well {φ : Type} (c : Checks κ φ) (h : HealthChecks.World κ φ) (i : φ) : Prop :=
  ∀ k, c.flag k = i → ∀ a ∈ h.answers k, a.isOk = true

variable {s : Service R} {c : Checks κ s.Backend} {x y : World s κ}

/- The backend at `b` is what `next` picked for the packet, under a view that knew
every backend without a failed probe as alive. -/
def Picked (c : Checks κ s.Backend) (h : HealthChecks.World κ s.Backend) (packet : Packet)
    (b : SocketAddr) : Prop :=
  ∃ i view, Rendezvous.next s.setting.arith s.setting.hash s.setting.backends view (s.key packet) =
    some i ∧ s.address i = b ∧ ∀ j, Well c h j → view j = true

def Calling (c : Checks κ s.Backend) (h : HealthChecks.World κ s.Backend) (packet : Packet)
    (now : s.Backend → Bool) (pc : Rendezvous.Threads.Pc s.setting) : Prop :=
  ∃ alive stores, Progress alive (s.key packet) stores pc ∧
    (∀ i, Moments.Between alive stores i (now i)) ∧
    ∀ i, Well c h i → Moments.Steady alive stores i

def held : Pc → Option (Packet × SocketAddr)
  | .idle | .forwarding _ | .done => none
  | .looking packet b | .binding packet b | .connecting packet b _ | .stamping packet b _
  | .entering packet b _ | .sending packet b _ | .awaiting packet b _ _
  | .responding packet b _ => some (packet,b)

structure Inv (c : Checks κ s.Backend) (x : World s κ) : Prop where
  sound : ∀ k, HealthChecks.Sound (x.health.answers k) (x.health.tasks k)
  flags : x.calls.alive = x.health.board.alive
  up : ∀ i, Well c x.health i → x.calls.alive i = true
  calling : ∀ t, x.calls.calls t ≠ .idle → ∃ packet, x.manager.tasks t = .forwarding packet ∧
    Calling c x.health packet x.calls.alive (x.calls.calls t)
  picked : ∀ t packet b, held (x.manager.tasks t) = some (packet,b) → Picked c x.health packet b
  sockets : ∀ id socket, x.manager.shared.sockets id = some socket → ∃ packet,
    packet.srcAddr = socket.owner.clientAddr ∧ Picked c x.health packet socket.owner.backendAddr

section later
variable {h g : HealthChecks.World κ s.Backend} (fewer : ∀ i, Well c g i → Well c h i)
include fewer

omit [DecidableEq κ] in
theorem pickedLater {packet : Packet} {b : SocketAddr} (picked : Picked c h packet b) :
    Picked c g packet b := by
  obtain ⟨i,view,chosen,at_,known⟩ := picked
  exact ⟨i,view,chosen,at_,fun j well => known j (fewer j well)⟩

omit [DecidableEq κ] in
theorem callingLater {packet : Packet} {now : s.Backend → Bool}
    {pc : Rendezvous.Threads.Pc s.setting} (calling : Calling c h packet now pc) :
    Calling c g packet now pc := by
  obtain ⟨alive,stores,progress,between,steady⟩ := calling
  exact ⟨alive,stores,progress,between,fun i well => steady i (fewer i well)⟩

end later

theorem wellEarlier {φ : Type} [DecidableEq φ] {c : Checks κ φ} {h g : HealthChecks.World κ φ}
    (took : HealthChecks.Took c h g) (i : φ) (well : Well c g i) : Well c h i :=
  fun k own a mem => well k own a (HealthChecks.tookAnswers took k mem)

omit [DecidableEq κ] in
theorem storedCalling {h : HealthChecks.World κ s.Backend} {packet : Packet}
    {now : s.Backend → Bool} {pc : Rendezvous.Threads.Pc s.setting}
    (calling : Calling c h packet now pc) {k : κ} {a : HealthChecks.Answer}
    (got : a ∈ h.answers k) :
    Calling c h packet (Function.update now (c.flag k) a.isOk) pc := by
  obtain ⟨alive,stores,progress,between,steady⟩ := calling
  refine ⟨alive,stores ++ [(c.flag k,a.isOk)],Rendezvous.Threads.progressLater progress _,
    Moments.betweenStore between _ _,fun i well => ⟨(steady i well).1,fun mem => ?_⟩⟩
  rcases List.mem_append.mp mem with before | now
  · exact (steady i well).2 before
  · obtain ⟨own,failed⟩ := Prod.mk.inj (List.mem_singleton.mp now)
    rw [well k own.symm a got] at failed
    contradiction

theorem checkInv (inv : Inv c x) {health : HealthChecks.World κ s.Backend}
    (took : HealthChecks.Took c x.health health)
    (sound : ∀ k, HealthChecks.Sound (health.answers k) (health.tasks k)) :
    Inv c ⟨health,{x.calls with alive := health.board.alive},x.manager⟩ := by
  have fewer := wellEarlier took
  have flags : (∀ i, Well c health i → health.board.alive i = true) ∧ ∀ packet pc,
      Calling c x.health packet x.calls.alive pc →
        Calling c health packet health.board.alive pc := by
    rcases HealthChecks.tookFlags inv.sound took with still | ⟨k,a,got,stored⟩
    · rw [still,← inv.flags]
      exact ⟨fun i well => inv.up i (fewer i well),fun _ _ => callingLater fewer⟩
    · rw [stored,← inv.flags]
      refine ⟨fun i well => ?_,fun _ _ calling => callingLater fewer (storedCalling calling got)⟩
      by_cases own : i = c.flag k
      · subst own
        rw [Function.update_self]
        exact well k rfl a (HealthChecks.tookAnswers took k got)
      · rw [Function.update_of_ne own]
        exact inv.up i (fewer i well)
  refine ⟨sound,rfl,flags.1,fun t busy => ?_,fun t packet b holds => ?_,fun id socket at_ => ?_⟩
  · obtain ⟨packet,forwards,calling⟩ := inv.calling t busy
    exact ⟨packet,forwards,flags.2 packet _ calling⟩
  · exact pickedLater fewer (inv.picked t packet b holds)
  · obtain ⟨packet,client,picked⟩ := inv.sockets id socket at_
    exact ⟨packet,client,pickedLater fewer picked⟩

omit [DecidableEq κ] in
theorem callsInv (inv : Inv c x) {calls : Rendezvous.Threads.World s.setting}
    (alive : calls.alive = x.calls.alive)
    (calling : ∀ t, calls.calls t ≠ .idle → ∃ packet, x.manager.tasks t = .forwarding packet ∧
      Calling c x.health packet x.calls.alive (calls.calls t)) :
    Inv c {x with calls := calls} :=
  ⟨inv.sound,alive.trans inv.flags,fun i well => alive ▸ inv.up i well,
    alive.symm ▸ calling,inv.picked,inv.sockets⟩

omit [DecidableEq κ] in
theorem nextInv (inv : Inv c x) {t : Nat} {packet : Packet}
    (forwards : x.manager.tasks t = .forwarding packet) :
    Inv c (x.goto t (Rendezvous.Threads.start s.setting (s.key packet))) := by
  refine callsInv inv rfl fun u busy => ?_
  by_cases same : u = t
  · subst same
    rw [Rendezvous.Threads.gotoCall]
    refine ⟨packet,forwards,x.calls.alive,[],Rendezvous.Threads.startProgress _ _,
      Moments.betweenNil,fun i well => ⟨inv.up i well,List.not_mem_nil⟩⟩
  · rw [Rendezvous.Threads.callOther x.calls same] at busy ⊢
    exact inv.calling u busy

theorem callStepIdle {p : Setting R} {calls : Rendezvous.Threads.World p} {t : Nat}
    (idle : calls.calls t = .idle) : (callStep t calls).calls t = .idle := by
  simp only [callStep,idle]

omit [DecidableEq κ] in
theorem visitInv (inv : Inv c x) (t : Nat) : Inv c {x with calls := callStep t x.calls} := by
  refine callsInv inv (Rendezvous.Threads.stepAlive x.calls t) fun u busy => ?_
  by_cases same : u = t
  · subst same
    obtain ⟨packet,forwards,alive,stores,progress,between,steady⟩ :=
      inv.calling u fun idle => busy (callStepIdle idle)
    exact ⟨packet,forwards,alive,stores,Rendezvous.Threads.callProgress between progress,between,
      steady⟩
  · rw [Rendezvous.Threads.stepOther x.calls same] at busy ⊢
    exact inv.calling u busy

theorem tookHeld {m n : Shared} {pc after : Pc} {move : Move} (took : Took m pc move n after)
    {packet : Packet} {b : SocketAddr} (holds : held after = some (packet,b)) :
    held pc = some (packet,b) ∨ move = .choose (some b) ∧ pc = .forwarding packet := by
  cases took with
  | chosen =>
    cases holds
    exact .inr ⟨rfl,rfl⟩
  | sent at_ =>
    split at holds
    · exact .inl holds
    · contradiction
  | _ => first | contradiction | exact .inl holds

theorem replacedOwner {sockets : Nat → Option SessionManager.Socket}
    {old new socket : SessionManager.Socket} {id i : Nat} (at_ : sockets i = some old)
    (stored : Function.update sockets i (some new) id = some socket) (own : new.owner = old.owner) :
    ∃ before, sockets id = some before ∧ before.owner = socket.owner := by
  simp only [Function.update_apply] at stored
  split at stored
  · next same =>
    cases Option.some.inj stored
    exact ⟨old,same ▸ at_,own.symm⟩
  · exact ⟨socket,stored,rfl⟩

theorem tookSockets {m n : Shared} {pc after : Pc} {move : Move} (took : Took m pc move n after)
    {id : Nat} {socket : SessionManager.Socket} (stored : n.sockets id = some socket) :
    (∃ before, m.sockets id = some before ∧ before.owner = socket.owner) ∨
      ∃ packet b, held pc = some (packet,b) ∧ socket.owner = ⟨packet.srcAddr,b⟩ := by
  cases took with
  | bound =>
    simp only [SessionManager.setSocket,Function.update_apply] at stored
    split at stored
    · cases Option.some.inj stored
      exact .inr ⟨_,_,rfl,rfl⟩
    · exact .inl ⟨socket,stored,rfl⟩
  | connected at_ => exact .inl (replacedOwner at_ stored rfl)
  | sent at_ => exact .inl (replacedOwner at_ stored rfl)
  | answered at_ queue => exact .inl (replacedOwner at_ stored rfl)
  | emptied at_ queue => exact .inl (replacedOwner at_ stored rfl)
  | _ => exact .inl ⟨socket,stored,rfl⟩

theorem aroundSockets {timeout : Nat} {m n : Shared} {event : SessionManager.Around}
    (moved : SessionManager.around timeout m event = some n) {id : Nat}
    {socket : SessionManager.Socket} (stored : n.sockets id = some socket) :
    ∃ before, m.sockets id = some before ∧ before.owner = socket.owner := by
  cases event with
  | arrive n =>
    obtain ⟨⟨i,d⟩,_,moved⟩ := Option.bind_eq_some_iff.mp moved
    obtain ⟨old,at_,moved⟩ := Option.bind_eq_some_iff.mp moved
    split at moved
    · cases Option.some.inj moved
      exact replacedOwner at_ stored rfl
    · cases Option.some.inj moved
      exact ⟨socket,stored,rfl⟩
  | retain u key =>
    obtain ⟨now,_,moved⟩ := Option.bind_eq_some_iff.mp moved
    cases Option.some.inj moved
    exact ⟨socket,stored,rfl⟩
  | _ =>
    cases Option.some.inj moved
    exact ⟨socket,stored,rfl⟩

omit [DecidableEq κ] in
theorem ownerPicked (inv : Inv c x) {id : Nat} {socket : SessionManager.Socket}
    (before : ∃ old, x.manager.shared.sockets id = some old ∧ old.owner = socket.owner) :
    ∃ packet, packet.srcAddr = socket.owner.clientAddr ∧
      Picked c x.health packet socket.owner.backendAddr := by
  obtain ⟨old,at_,same⟩ := before
  exact same ▸ inv.sockets id old at_

omit [DecidableEq κ] in
theorem taskInv (inv : Inv c x) {t : Nat} {move : Move} {m : Shared} {after : Pc}
    (took : Took x.manager.shared (x.manager.tasks t) move m after)
    {calls : Rendezvous.Threads.World s.setting} (alive : calls.alive = x.calls.alive)
    (others : ∀ u, u ≠ t → calls.calls u = x.calls.calls u) (idle : calls.calls t = .idle)
    (given : ∀ packet b, move = .choose (some b) → x.manager.tasks t = .forwarding packet →
      Picked c x.health packet b) :
    Inv c ⟨x.health,calls,⟨SessionManager.numbered m,Function.update x.manager.tasks t after⟩⟩ := by
  refine ⟨inv.sound,alive.trans inv.flags,fun i well => alive ▸ inv.up i well,fun u busy => ?_,
    fun u packet b holds => ?_,fun id socket stored => ?_⟩
  · have apart : u ≠ t := fun same => busy (same ▸ idle)
    rw [others u apart] at busy ⊢
    rw [alive]
    simp only [Function.update_of_ne apart]
    exact inv.calling u busy
  · by_cases same : u = t
    · subst same
      simp only [Function.update_self] at holds
      rcases tookHeld took holds with before | ⟨choice,forwards⟩
      · exact inv.picked u packet b before
      · exact given packet b choice forwards
    · simp only [Function.update_of_ne same] at holds
      exact inv.picked u packet b holds
  · rcases tookSockets took stored with before | ⟨packet,b,holds,own⟩
    · exact ownerPicked inv before
    · rw [own]
      exact ⟨packet,rfl,inv.picked t packet b holds⟩

omit [DecidableEq κ] in
theorem chosenInv (inv : Inv c x) {t : Nat} {r : Option s.Backend}
    {manager : SessionManager.World} (returned : x.calls.calls t = .returned r)
    (moved : SessionManager.step s.proxyTimeout x.manager
      (.task t (.choose (r.map s.address))) = some manager) :
    Inv c {x.goto t .idle with manager := manager} := by
  obtain ⟨⟨m,after⟩,advanced,moved⟩ := Option.bind_eq_some_iff.mp moved
  cases Option.some.inj moved
  refine taskInv inv (advanceTook advanced) rfl
    (fun u apart => Rendezvous.Threads.callOther x.calls apart _)
    (Rendezvous.Threads.gotoCall ..) fun packet b choice forwards => ?_
  have busy : x.calls.calls t ≠ .idle := by
    intro idle
    rw [returned] at idle
    contradiction
  obtain ⟨own,forwards',alive,stores,progress,_,steady⟩ := inv.calling t busy
  cases forwards.symm.trans forwards'
  rw [returned] at progress
  obtain ⟨view,between,answer⟩ := progress
  obtain ⟨i,found,at_⟩ := Option.map_eq_some_iff.mp (Move.choose.inj choice)
  exact ⟨i,view,answer.symm.trans found,at_,fun j well => (between j).1 (steady j well)⟩

theorem forwardingWaits {m n : Shared} {packet : Packet} {move : Move} {after : Pc}
    (took : Took m (.forwarding packet) move n after) : ∃ b, move = .choose b := by
  cases took with
  | unchosen => exact ⟨_,rfl⟩
  | chosen => exact ⟨_,rfl⟩

omit [DecidableEq κ] in
theorem managerInv (inv : Inv c x) {label : SessionManager.Label} {manager : SessionManager.World}
    (other : ¬ Chooses label)
    (moved : SessionManager.step s.proxyTimeout x.manager label = some manager) :
    Inv c {x with manager := manager} := by
  cases label with
  | task t move =>
    obtain ⟨⟨m,after⟩,advanced,moved⟩ := Option.bind_eq_some_iff.mp moved
    cases Option.some.inj moved
    have took := advanceTook advanced
    have waits : ∀ b, move ≠ .choose b := fun b same => other (same ▸ trivial)
    have idle : x.calls.calls t = .idle := by
      by_contra busy
      obtain ⟨packet,forwards,_⟩ := inv.calling t busy
      rw [forwards] at took
      obtain ⟨b,choice⟩ := forwardingWaits took
      exact waits b choice
    exact taskInv inv took rfl (fun _ _ => rfl) idle fun _ b choice _ => absurd choice (waits _)
  | around event =>
    obtain ⟨m,happened,moved⟩ := Option.bind_eq_some_iff.mp moved
    cases Option.some.inj moved
    exact ⟨inv.sound,inv.flags,inv.up,inv.calling,inv.picked,
      fun id socket stored => ownerPicked inv (aroundSockets happened stored)⟩

omit [DecidableEq κ] in
theorem beginsInv : Inv c (begins s) where
  sound _ := rfl
  flags := rfl
  up _ _ := rfl
  calling _ busy := absurd rfl busy
  picked _ _ _ holds := by cases holds
  sockets _ _ stored := by cases stored

theorem stepManager {label : Label κ} (moved : Step c x label y) : y.manager = x.manager ∨
    ∃ event, SessionManager.step s.proxyTimeout x.manager event = some y.manager := by
  cases moved with
  | chosen returned moved => exact .inr ⟨_,moved⟩
  | manager other moved => exact .inr ⟨_,moved⟩
  | _ => exact .inl rfl

theorem stepHealth {label : Label κ} (moved : Step c x label y) : y.health = x.health ∨
    ∃ event, c.step x.health event = some y.health := by
  cases moved with
  | check moved => exact .inr ⟨_,moved⟩
  | _ => exact .inl rfl

theorem managerReachable (reach : Transition.Reachable (system c) x) :
    Transition.Reachable (SessionManager.system s.proxyTimeout) x.manager := by
  induction reach with
  | init start =>
    cases start
    exact .init rfl
  | step _ moved ih =>
    rcases stepManager moved with same | ⟨event,moved⟩
    · exact same ▸ ih
    · exact .step ih moved

theorem healthReachable (reach : Transition.Reachable (system c) x) :
    Transition.Reachable c.system x.health := by
  induction reach with
  | init start =>
    cases start
    exact .init rfl
  | step _ moved ih =>
    rcases stepHealth moved with same | ⟨event,moved⟩
    · exact same ▸ ih
    · exact .step ih moved

theorem reachableInv [Fintype κ] (reach : Transition.Reachable (system c) x) : Inv c x := by
  induction reach with
  | init start =>
    cases start
    exact beginsInv
  | @step x label y before moved ih =>
    cases moved with
    | check moved =>
      have health := HealthChecks.reachableInv (healthReachable (.step before (.check moved)))
      exact checkInv ih (HealthChecks.stepTook moved) health.sound
    | next forwards idle => exact nextInv ih forwards
    | visit t => exact visitInv ih t
    | chosen returned moved => exact chosenInv ih returned moved
    | manager other moved => exact managerInv ih other moved

/- The last step of a task's `get_or_create_session`: the packet goes to the backend at
`b` through this socket. -/
def Decides (c : Checks κ s.Backend) (x y : World s κ) (packet : Packet) (b : SocketAddr)
    (socket : Nat) : Prop :=
  ∃ t move, Step c x (.manager (.task t move)) y ∧
    y.manager.tasks t = .sending packet b socket

theorem decidesSession {packet : Packet} {b : SocketAddr} {socket : Nat}
    (decides : Decides c x y packet b socket) : SessionStickiness.Decides s.proxyTimeout
      x.manager y.manager ⟨packet.srcAddr,b⟩ socket := by
  obtain ⟨t,move,moved,ends⟩ := decides
  cases moved with
  | manager other moved => exact ⟨t,move,packet,b,moved,ends,rfl⟩

theorem decidesPicked [Fintype κ] (reach : Transition.Reachable (system c) x) {packet : Packet}
    {b : SocketAddr} {socket : Nat} (decides : Decides c x y packet b socket) :
    Picked c y.health packet b := by
  obtain ⟨t,move,moved,ends⟩ := decides
  have inv := reachableInv (.step reach moved)
  refine inv.picked t packet b ?_
  rw [ends]
  exact rfl

theorem decidesHealth {packet : Packet} {b : SocketAddr} {socket : Nat}
    (decides : Decides c x y packet b socket) : y.health = x.health := by
  obtain ⟨t,move,moved,_⟩ := decides
  cases moved with
  | manager other moved => exact rfl

theorem runKept {labels : List (Label κ)} (ran : Transition.Run (system c) x labels y)
    (past : SessionStickiness.Past x.manager) {key : SessionManager.SessionKey}
    {socket stamp : Nat} (kept : SessionStickiness.Kept s.proxyTimeout key socket stamp x.manager) :
    SessionStickiness.Past y.manager ∧
      SessionStickiness.Kept s.proxyTimeout key socket stamp y.manager := by
  induction ran with
  | nil => exact ⟨past,kept⟩
  | step _ moved ih =>
    obtain ⟨past,kept⟩ := ih
    rcases stepManager moved with same | ⟨event,moved⟩
    · exact same ▸ ⟨past,kept⟩
    · exact ⟨(SessionStickiness.stepPast past moved).1,SessionStickiness.stepKept past moved kept⟩

/- Two datagrams of one client that agree on the fields of the hash key go to one backend
through one socket while the session was active within the timeout, however the calls,
probes, sweeps and other tasks are interleaved: unless a probe of the first backend has
failed by the second decision, or one of the second had failed by the first. Any stamp
that the session bears in between sets the deadline. -/
theorem flowKeepsSocket [Fintype κ] {w u m v z : World s κ}
    (reach : Transition.Reachable (system c) w) {one two : Packet} {b d : SocketAddr}
    {socket other : Nat} {session : SessionManager.Session} {early late : List (Label κ)}
    (first : Decides c w u one b socket) (ran : Transition.Run (system c) u early m)
    (stored : m.manager.shared.sessions ⟨one.srcAddr,b⟩ = some session)
    (own : session.socket = socket) (later : Transition.Run (system c) m late v)
    (second : Decides c v z two d other) (client : two.srcAddr = one.srcAddr)
    (flow : ∀ field ∈ s.hashKeyFields, Agree (facts one) (facts two) field)
    (stays : ∀ i, s.address i = b → Well c v.health i)
    (known : ∀ j, s.address j = d → Well c u.health j)
    (intime : v.manager.shared.clock ≤ session.lastActivity+s.proxyTimeout) :
    d = b ∧ other = socket := by
  have reachU : Transition.Reachable (system c) u := by
    obtain ⟨t,move,moved,_⟩ := first
    exact .step reach moved
  have reachM := Transition.runExtends reachU ran
  have reachV := Transition.runExtends reachM later
  obtain ⟨i,A,before,here,knownA⟩ := decidesPicked reach first
  obtain ⟨j,B,after,there,knownB⟩ := decidesPicked reachV second
  rw [decidesHealth second] at knownB
  have key : s.key one = s.key two := HashKey.Packet.flowKey flow
  rw [key] at before
  have same : i = j := Rendezvous.Threads.viewsAgree before after
    (knownB i (stays i here)) (knownA j (known j there))
  have backend : d = b := by rw [← there,← here,same]
  refine ⟨backend,?_⟩
  subst backend
  have past := SessionStickiness.reachablePast (managerReachable reachM)
  obtain ⟨_,late | ⟨last,held,equal,_⟩⟩ := runKept later past
    (.inr ⟨session,stored,own,Nat.le_refl _⟩)
  · exact absurd intime (by omega)
  · have again := decidesSession second
    rw [client] at again
    exact ((SessionStickiness.decisionStored again).2 last held).symm.trans equal

theorem visitsRun {calls : Rendezvous.Threads.World s.setting}
    {labels : List (Rendezvous.Threads.Label s.setting)}
    (ran : Transition.Run (Rendezvous.Threads.system s.setting) x.calls labels calls)
    (visits : ∀ label ∈ labels, ∃ t, label = .step t) :
    ∃ later, Transition.Run (system c) x later {x with calls := calls} := by
  induction ran with
  | nil => exact ⟨[],.nil⟩
  | step _ moved ih =>
    obtain ⟨later,before⟩ := ih fun label mem => visits label (List.mem_append_left _ mem)
    obtain ⟨t,rfl⟩ := visits _ (List.mem_append_right _ List.mem_cons_self)
    cases moved with
    | step t => exact ⟨_,.step before (.visit t)⟩

theorem checksRun {events : List (Event κ)} {health : HealthChecks.World κ s.Backend}
    (flags : x.calls.alive = x.health.board.alive)
    (ran : events.foldlM c.step x.health = some health) : ∃ later, Transition.Run (system c) x later
      ⟨health,{x.calls with alive := health.board.alive},x.manager⟩ := by
  induction events generalizing x with
  | nil =>
    cases Option.some.inj ran
    rw [← flags]
    exact ⟨[],.nil⟩
  | cons event rest ih =>
    obtain ⟨h,moved,ran⟩ := Option.bind_eq_some_iff.mp ran
    obtain ⟨later,after⟩ := ih (x := ⟨h,{x.calls with alive := h.board.alive},x.manager⟩) rfl ran
    exact ⟨_,Transition.runAppend (.step .nil (.check moved)) after⟩

def spare : SocketAddr := .v4 ⟨#v[10,0,0,3]⟩ 53

noncomputable def pair : Service ℝ :=
  ⟨⟨Rendezvous.exactArith,Rendezvous.hashWithBackend Backends.fnv1a,
    [⟨spare,.fin 1⟩,⟨SessionManager.server,.fin 1⟩]⟩,[.srcIp],30⟩

noncomputable def exactPair : Rendezvous.ExactPool where
  backends := pair.setting.backends
  weight _ := 1
  weighted := Fin.forall_fin_two.mpr ⟨rfl,rfl⟩
  positive _ := one_pos

noncomputable def lesser : pair.Backend := ⟨0,Nat.two_pos⟩

noncomputable def favoured : pair.Backend := ⟨1,Nat.one_lt_two⟩

theorem pairHashes : exactPair.hashOf pair.setting.hash (pair.key (SessionManager.query 5000))
      favoured ≠ 0 ∧
    exactPair.hashOf pair.setting.hash (pair.key (SessionManager.query 5000)) favoured <
      exactPair.hashOf pair.setting.hash (pair.key (SessionManager.query 5000)) lesser := by
  decide +kernel

theorem pairNext {alive : pair.Backend → Bool} (up : ∀ i, alive i = true) :
    Rendezvous.next pair.setting.arith pair.setting.hash pair.setting.backends alive
      (pair.key (SessionManager.query 5000)) = some favoured := by
  obtain ⟨nonzero,less⟩ := pairHashes
  obtain ⟨i,found⟩ := exactPair.nextNonzero (up favoured) nonzero
  have found : Rendezvous.next pair.setting.arith pair.setting.hash pair.setting.backends alive
      (pair.key (SessionManager.query 5000)) = some i := found
  have above := Rendezvous.ExactPool.scoreAbove (p := exactPair) (i := favoured) (j := lesser)
    rfl nonzero less
  have unbeaten := Rendezvous.nextUnbeaten pair.setting.arith pair.setting.hash
    pair.setting.backends found (up favoured)
  have either : ∀ j : pair.Backend, j = lesser ∨ j = favoured :=
    Fin.forall_fin_two.mpr ⟨.inl rfl,.inr rfl⟩
  rcases either i with rfl | rfl
  · exact absurd above (ne_true_of_eq_false unbeaten)
  · exact found

def plain : SessionManager.Label → Bool
  | .task _ (.packet packet) => packet = SessionManager.query 5000
  | .task _ (.choose b) => b = some SessionManager.server
  | _ => true

structure Quiet (x : World pair κ) : Prop where
  idle : ∀ t, x.calls.calls t = .idle
  up : ∀ i, x.calls.alive i = true
  asked : ∀ t packet, x.manager.tasks t = .forwarding packet → packet = SessionManager.query 5000

variable {p : Checks κ pair.Backend} {q : World pair κ} {m : SessionManager.World}

theorem asksRun (quiet : Quiet q) {t : Nat}
    (forwards : q.manager.tasks t = .forwarding (SessionManager.query 5000))
    (moved : SessionManager.step 30 q.manager (.task t (.choose (some SessionManager.server))) =
      some m) : ∃ later, Transition.Run (system p) q later {q with manager := m} := by
  obtain ⟨n,ran⟩ := Rendezvous.Threads.soloReturns q.calls t (pair.key (SessionManager.query 5000))
  rw [pairNext quiet.up] at ran
  obtain ⟨later,visited⟩ := visitsRun (c := p) (x := q.goto t (Rendezvous.Threads.start pair.setting
    (pair.key (SessionManager.query 5000)))) ran
      fun label mem => ⟨t,List.eq_of_mem_replicate mem⟩
  have chosen := Step.chosen (c := p) (x := q.goto t (.returned (some favoured))) (t := t)
    (Rendezvous.Threads.gotoCall ..) moved
  have same : ({(q.goto t (.returned (some favoured))).goto t .idle with manager := m} :
      World pair κ) = {q with manager := m} := by
    simp only [World.goto,Rendezvous.Threads.goto,Function.update_idem]
    rw [← quiet.idle t,Function.update_eq_self]
  rw [same] at chosen
  exact ⟨_,Transition.runAppend (.step .nil (.next forwards (quiet.idle t))) (.step visited chosen)⟩

theorem plainAsked {m n : Shared} {pc after : Pc} {move : Move} {t : Nat}
    (took : Took m pc move n after) (simple : plain (.task t move) = true)
    {packet : Packet} (forwards : after = .forwarding packet) :
    packet = SessionManager.query 5000 := by
  cases took with
  | arrived =>
    cases forwards
    exact of_decide_eq_true simple
  | sent at_ => split at forwards <;> contradiction
  | _ => contradiction

theorem stepPlain (quiet : Quiet q) {label : SessionManager.Label} (simple : plain label = true)
    (moved : SessionManager.step 30 q.manager label = some m) :
    (∃ later, Transition.Run (system p) q later {q with manager := m}) ∧
      Quiet {q with manager := m} := by
  cases label with
  | around event =>
    have still := moved
    obtain ⟨n,happened,moved⟩ := Option.bind_eq_some_iff.mp moved
    cases Option.some.inj moved
    exact ⟨⟨_,.step .nil (.manager id still)⟩,quiet.idle,quiet.up,quiet.asked⟩
  | task t move =>
    have still := moved
    obtain ⟨⟨n,after⟩,advanced,moved⟩ := Option.bind_eq_some_iff.mp moved
    cases Option.some.inj moved
    have took := advanceTook advanced
    refine ⟨?_,quiet.idle,quiet.up,fun u packet forwards => ?_⟩
    · by_cases choice : Chooses (.task t move)
      · cases move with
        | choose b =>
          have lone : b = some SessionManager.server := of_decide_eq_true simple
          subst lone
          generalize here : q.manager.tasks t = pc at took
          cases took with
          | @chosen packet =>
            cases quiet.asked t packet here
            exact asksRun quiet here still
        | _ => exact choice.elim
      · exact ⟨_,.step .nil (.manager choice still)⟩
    · by_cases same : u = t
      · subst same
        simp only [Function.update_self] at forwards
        exact plainAsked took simple forwards
      · simp only [Function.update_of_ne same] at forwards
        exact quiet.asked u packet forwards

theorem plainRun (quiet : Quiet q) {labels : List SessionManager.Label}
    (simple : labels.all plain = true) (ran : SessionManager.run 30 q.manager labels = some m) :
    (∃ later, Transition.Run (system p) q later {q with manager := m}) ∧
      Quiet {q with manager := m} := by
  induction labels generalizing q with
  | nil =>
    cases Option.some.inj ran
    exact ⟨⟨[],.nil⟩,quiet⟩
  | cons label rest ih =>
    obtain ⟨n,moved,ran⟩ := Option.bind_eq_some_iff.mp ran
    obtain ⟨first,others⟩ := Bool.and_eq_true_iff.mp (List.all_cons ▸ simple)
    obtain ⟨⟨_,one⟩,still⟩ := stepPlain (p := p) quiet first moved
    obtain ⟨⟨_,later⟩,ends⟩ := ih still others ran
    exact ⟨⟨_,Transition.runAppend one later⟩,ends⟩

noncomputable def pairChecks : Checks Bool pair.Backend where
  check k := if k then HealthChecks.probe 1 else HealthChecks.probe 0
  flag k := if k then favoured else lesser
  apart := Bool.injective_iff.mpr fun same => Nat.zero_ne_one (congrArg Fin.val same)

def probed : List (Event Bool) :=
  [.run false,.tick false,.run true,.tick true,.probed true (.ok ⟨204,"204 No Content"⟩),
    .probed false (.ok ⟨200,"200 OK"⟩)] ++
  List.replicate 5 (.run false) ++ List.replicate 5 (.run true)

theorem probedWell : ∃ health, probed.foldlM pairChecks.step HealthChecks.start = some health ∧
    (∀ k, health.answers k = [.ok ()]) ∧ ∀ i, health.board.alive i = true :=
  ⟨_,rfl,Bool.forall_bool.mpr ⟨rfl,rfl⟩,Fin.forall_fin_two.mpr ⟨rfl,rfl⟩⟩

theorem servesPlain {labels : List SessionManager.Label} (simple : labels.all plain = true)
    (ran : SessionManager.run 30 SessionManager.start labels = some m) :
    ∃ (before : List (Label Bool)) (w : World pair Bool),
      Transition.Run (system pairChecks) (begins pair) before w ∧ Quiet w ∧ w.manager = m ∧
      ∀ k, w.health.answers k = [.ok ()] := by
  obtain ⟨health,checked,answers,alive⟩ := probedWell
  obtain ⟨_,before⟩ := checksRun (c := pairChecks) (x := begins pair) rfl checked
  have quiet : Quiet (⟨health,⟨health.board.alive,fun _ => .idle⟩,SessionManager.start⟩ :
      World pair Bool) := ⟨fun _ => rfl,alive,fun _ _ forwards => by cases forwards⟩
  obtain ⟨⟨_,later⟩,still⟩ := plainRun (p := pairChecks) quiet simple ran
  exact ⟨_,_,Transition.runAppend before later,still,rfl,answers⟩

theorem answeredWell {w : World pair Bool} (answers : ∀ k, w.health.answers k = [.ok ()])
    (i : pair.Backend) : Well pairChecks w.health i := by
  intro k own a mem
  rw [answers k] at mem
  cases List.mem_singleton.mp mem
  exact rfl

def stamped : List SessionManager.Label :=
  [.around (.tick 20),.around (.updateActivity ⟨SessionManager.client 5000,SessionManager.server⟩)]

theorem stampedFinds : ((SessionManager.run 30 SessionManager.start opened).bind fun w =>
    (SessionManager.step 30 w (.task 0 .enter)).bind fun u =>
    (SessionManager.run 30 u stamped).bind fun n => (SessionManager.run 30 n pause).bind fun v =>
    (SessionManager.step 30 v (.task 1 .lookup)).map fun x =>
      (u.tasks 0,n.shared.sessions ⟨SessionManager.client 5000,SessionManager.server⟩,
        v.shared.clock,x.tasks 1)) =
    some (.sending (SessionManager.query 5000) SessionManager.server 0,
      some ⟨SessionManager.server,0,20⟩,50,
      .sending (SessionManager.query 5000) SessionManager.server 0) := by
  decide +kernel

theorem pairSticks : ∃ w u n v z : World pair Bool, Transition.Reachable (system pairChecks) w ∧
    (∀ k, w.health.answers k = [.ok ()]) ∧
    Decides pairChecks w u (SessionManager.query 5000) SessionManager.server 0 ∧
    (∃ early, Transition.Run (system pairChecks) u early n) ∧
    n.manager.shared.sessions ⟨SessionManager.client 5000,SessionManager.server⟩ =
      some ⟨SessionManager.server,0,20⟩ ∧
    (∃ late, Transition.Run (system pairChecks) n late v) ∧ v.manager.shared.clock = 50 ∧
    (∃ other, Decides pairChecks v z (SessionManager.query 5000) SessionManager.server other) ∧
    ∀ d other, Decides pairChecks v z (SessionManager.query 5000) d other →
      d = SessionManager.server ∧ other = 0 := by
  obtain ⟨a,opens,enters⟩ := Option.bind_eq_some_iff.mp stampedFinds
  obtain ⟨b,enters,stamps⟩ := Option.bind_eq_some_iff.mp enters
  obtain ⟨n,stamps,waits⟩ := Option.bind_eq_some_iff.mp stamps
  obtain ⟨v,waits,finds⟩ := Option.bind_eq_some_iff.mp waits
  obtain ⟨z,finds,seen⟩ := Option.map_eq_some_iff.mp finds
  simp only [Prod.mk.injEq] at seen
  obtain ⟨sends,session,clock,again⟩ := seen
  obtain ⟨_,w,ran,quiet,rfl,answers⟩ := servesPlain (by decide : opened.all plain = true) opens
  have reach := Transition.runExtends (.init (S := system pairChecks) rfl) ran
  have first : Decides pairChecks w {w with manager := b} (SessionManager.query 5000)
      SessionManager.server 0 := ⟨0,.enter,.manager id enters,sends⟩
  obtain ⟨_,quiet⟩ := stepPlain (p := pairChecks) quiet
    (rfl : plain (.task 0 .enter) = true) enters
  obtain ⟨⟨early,ran⟩,quiet⟩ := plainRun (p := pairChecks) quiet
    (by decide : stamped.all plain = true) stamps
  obtain ⟨⟨late,later⟩,_⟩ := plainRun (p := pairChecks) quiet
    (by decide : pause.all plain = true) waits
  have second : Decides pairChecks {w with manager := v} {w with manager := z}
      (SessionManager.query 5000) SessionManager.server 0 := ⟨1,.lookup,.manager id finds,again⟩
  have well := answeredWell answers
  have flow : ∀ field ∈ pair.hashKeyFields, Agree (facts (SessionManager.query 5000))
      (facts (SessionManager.query 5000)) field := by
    intro field mem
    cases List.mem_singleton.mp mem
    exact rfl
  refine ⟨w,_,_,_,_,reach,answers,first,⟨early,ran⟩,session,⟨late,later⟩,clock,⟨0,second⟩,
    fun d other decides => ?_⟩
  exact flowKeepsSocket reach first ran session rfl later decides rfl flow (fun i _ => well i)
    (fun i _ => well i) clock.le

end UdpBalancer.FlowSockets
