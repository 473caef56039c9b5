import UdpBalancer.Transition
import UdpBalancer.Backends

/-! `SessionManager`, `Balancer::forward` in Standard mode and the listeners'
`handle_packet` as one system of tasks over a shared session map, sockets and
network. Every await and every per-key operation of the map is its own step. -/
namespace UdpBalancer.SessionManager
open Backends (Bytes SocketAddr localhost)

structure SessionKey where
  clientAddr : SocketAddr
  backendAddr : SocketAddr
  deriving DecidableEq, Repr

structure Session where
  backendAddr : SocketAddr
  socket : Nat
  lastActivity : Nat
  deriving DecidableEq, Repr

abbrev Sessions := SessionKey → Option Session

structure Packet where
  srcAddr : SocketAddr
  dstAddr : SocketAddr
  payload : Bytes
  deriving DecidableEq, Repr

structure Datagram where
  sender : SocketAddr
  payload : Bytes
  sentAt : Nat
  deriving DecidableEq, Repr

/- A bound UDP socket. `owner` is the key it was created for and `carried` the
clients whose requests it has sent; no code reads these two. -/
structure Socket where
  owner : SessionKey
  peer : Option SocketAddr
  queue : List Datagram
  carried : List SocketAddr
  deriving DecidableEq, Repr

structure Reply where
  socket : Nat
  requestAt : Nat
  datagram : Datagram
  deriving DecidableEq, Repr

/- Where a `handle_packet` stands. From `looking` to `entering` it is inside
`get_or_create_session`, up to `awaiting` inside `forward`. -/
inductive Pc where
  | idle
  | forwarding (packet : Packet)
  | looking (packet : Packet) (backend : SocketAddr)
  | binding (packet : Packet) (backend : SocketAddr)
  | connecting (packet : Packet) (backend : SocketAddr) (socket : Nat)
  | stamping (packet : Packet) (backend : SocketAddr) (socket : Nat)
  | entering (packet : Packet) (backend : SocketAddr) (new : Session)
  | sending (packet : Packet) (backend : SocketAddr) (socket : Nat)
  | awaiting (packet : Packet) (backend : SocketAddr) (socket requestAt : Nat)
  | responding (packet : Packet) (backend : SocketAddr) (reply : Reply)
  | done
  deriving DecidableEq, Repr

inductive Move where
  | packet (packet : Packet)
  | choose (backend : Option SocketAddr)
  | lookup
  | bind (ok : Bool)
  | connect (ok : Bool)
  | stamp
  | enter
  | send (sent : Option Nat)
  | recv
  | expire
  | respond (ok : Bool)
  deriving DecidableEq, Repr

/- `order` numbers the steps of a run, `sweeps` holds the `now` of every
`cleanup_expired` under way, `flight` what is on its way to a socket. `answers`
are the responses `forward` returned, `responses` those sent to clients. -/
structure Shared where
  clock : Nat
  order : Nat
  sessions : Sessions
  sockets : Nat → Option Socket
  nextSocket : Nat
  sweeps : Nat → Option Nat
  flight : List (Nat × Datagram)
  answers : List Reply
  responses : List (SocketAddr × Reply)

def touch (s : Sessions) (key : SessionKey) (now : Nat) : Sessions :=
  match s key with
  | none => s
  | some session => Function.update s key (some {session with lastActivity := now})

def entry (s : Sessions) (key : SessionKey) (new : Session) (now : Nat) : Sessions × Nat :=
  match s key with
  | some session => (touch s key now,session.socket)
  | none => (Function.update s key (some new),new.socket)

-- `duration_since` is zero when the activity is later than `now`
def retain (timeout now : Nat) (s : Sessions) (key : SessionKey) : Sessions :=
  match s key with
  | none => s
  | some session =>
    if timeout < now-session.lastActivity then Function.update s key none else s

def setSocket (m : Shared) (id : Nat) (socket : Socket) : Shared :=
  {m with sockets := Function.update m.sockets id (some socket)}

def advance (m : Shared) : Pc → Move → Option (Shared × Pc)
  | .idle,.packet packet => if packet.payload = [] then none else some (m,.forwarding packet)
  | .forwarding _,.choose none => some (m,.done)
  | .forwarding packet,.choose (some b) => some (m,.looking packet b)
  | .looking packet b,.lookup =>
      match m.sessions ⟨packet.srcAddr,b⟩ with
      | some session =>
        some ({m with sessions := touch m.sessions ⟨packet.srcAddr,b⟩ m.clock},
          .sending packet b session.socket)
      | none => some (m,.binding packet b)
  | .binding packet b,.bind ok =>
      if ok then
        some ({setSocket m m.nextSocket ⟨⟨packet.srcAddr,b⟩,none,[],[]⟩ with
          nextSocket := m.nextSocket+1},.connecting packet b m.nextSocket)
      else some (m,.done)
  | .connecting packet b id,.connect ok => do
      let socket ← m.sockets id
      if ok then some (setSocket m id {socket with peer := some b},.stamping packet b id)
      else some (m,.done)
  | .stamping packet b id,.stamp => some (m,.entering packet b ⟨b,id,m.clock⟩)
  | .entering packet b new,.enter =>
      let (sessions,socket) := entry m.sessions ⟨packet.srcAddr,b⟩ new m.clock
      some ({m with sessions := sessions},.sending packet b socket)
  | .sending _ _ _,.send none => some (m,.done)
  | .sending packet b id,.send (some sent) => do
      let socket ← m.sockets id
      some (setSocket m id {socket with carried := packet.srcAddr::socket.carried},
        if 0 < sent then .awaiting packet b id (m.order+1) else .done)
  | .awaiting packet b id requestAt,.recv => do
      let socket ← m.sockets id
      match socket.queue with
      | [] => none
      | d::rest =>
        let taken := setSocket m id {socket with queue := rest}
        if 0 < d.payload.length then
          some ({taken with answers := ⟨id,requestAt,d⟩::m.answers},
            .responding packet b ⟨id,requestAt,d⟩)
        else some (taken,.done)
  | .awaiting _ _ _ _,.expire => some (m,.done)
  | .responding packet _ reply,.respond ok =>
      some (if ok then {m with responses := (packet.srcAddr,reply)::m.responses} else m,.done)
  | _,_ => none

inductive Took (m : Shared) : Pc → Move → Shared → Pc → Prop where
  | arrived {packet} : Took m .idle (.packet packet) m (.forwarding packet)
  | unchosen {packet} : Took m (.forwarding packet) (.choose none) m .done
  | chosen {packet b} : Took m (.forwarding packet) (.choose (some b)) m (.looking packet b)
  | found {packet b session} (stored : m.sessions ⟨packet.srcAddr,b⟩ = some session) :
      Took m (.looking packet b) .lookup
        {m with sessions := touch m.sessions ⟨packet.srcAddr,b⟩ m.clock}
        (.sending packet b session.socket)
  | missed {packet b} : Took m (.looking packet b) .lookup m (.binding packet b)
  | bound {packet b} : Took m (.binding packet b) (.bind true)
      {setSocket m m.nextSocket ⟨⟨packet.srcAddr,b⟩,none,[],[]⟩ with nextSocket := m.nextSocket+1}
      (.connecting packet b m.nextSocket)
  | unbound {packet b} : Took m (.binding packet b) (.bind false) m .done
  | connected {packet b id socket} (held : m.sockets id = some socket) :
      Took m (.connecting packet b id) (.connect true)
        (setSocket m id {socket with peer := some b}) (.stamping packet b id)
  | refused {packet b id} : Took m (.connecting packet b id) (.connect false) m .done
  | stamped {packet b id} :
      Took m (.stamping packet b id) .stamp m (.entering packet b ⟨b,id,m.clock⟩)
  | entered {packet b new} : Took m (.entering packet b new) .enter
      {m with sessions := (entry m.sessions ⟨packet.srcAddr,b⟩ new m.clock).1}
      (.sending packet b (entry m.sessions ⟨packet.srcAddr,b⟩ new m.clock).2)
  | unsent {packet b id} : Took m (.sending packet b id) (.send none) m .done
  | sent {packet b id n socket} (held : m.sockets id = some socket) :
      Took m (.sending packet b id) (.send (some n))
        (setSocket m id {socket with carried := packet.srcAddr::socket.carried})
        (if 0 < n then .awaiting packet b id (m.order+1) else .done)
  | answered {packet b id requestAt socket d rest} (held : m.sockets id = some socket)
      (queue : socket.queue = d::rest) : Took m (.awaiting packet b id requestAt) .recv
        {setSocket m id {socket with queue := rest} with answers := ⟨id,requestAt,d⟩::m.answers}
        (.responding packet b ⟨id,requestAt,d⟩)
  | emptied {packet b id requestAt socket d rest} (held : m.sockets id = some socket)
      (queue : socket.queue = d::rest) : Took m (.awaiting packet b id requestAt) .recv
        (setSocket m id {socket with queue := rest}) .done
  | expired {packet b id requestAt} : Took m (.awaiting packet b id requestAt) .expire m .done
  | responded {packet b reply} : Took m (.responding packet b reply) (.respond true)
      {m with responses := (packet.srcAddr,reply)::m.responses} .done
  | unresponded {packet b reply} : Took m (.responding packet b reply) (.respond false) m .done

theorem advanceTook {m n : Shared} {pc after : Pc} {move}
    (moved : advance m pc move = some (n,after)) : Took m pc move n after := by
  unfold advance at moved
  split at moved
  · split at moved
    · contradiction
    · cases Option.some.inj moved
      exact .arrived
  · cases Option.some.inj moved
    exact .unchosen
  · cases Option.some.inj moved
    exact .chosen
  · split at moved
    · rename_i session stored
      cases Option.some.inj moved
      exact .found stored
    · cases Option.some.inj moved
      exact .missed
  · rename_i packet b ok
    cases ok with
    | true => cases Option.some.inj moved; exact .bound
    | false => cases Option.some.inj moved; exact .unbound
  · rename_i packet b id ok
    obtain ⟨socket,held,moved⟩ := Option.bind_eq_some_iff.mp moved
    cases ok with
    | true => cases Option.some.inj moved; exact .connected held
    | false => cases Option.some.inj moved; exact .refused
  · cases Option.some.inj moved
    exact .stamped
  · cases Option.some.inj moved
    exact .entered
  · cases Option.some.inj moved
    exact .unsent
  · obtain ⟨socket,held,moved⟩ := Option.bind_eq_some_iff.mp moved
    cases Option.some.inj moved
    exact .sent held
  · obtain ⟨socket,held,moved⟩ := Option.bind_eq_some_iff.mp moved
    split at moved
    · contradiction
    · rename_i d rest queue
      split at moved
      · cases Option.some.inj moved
        exact .answered held queue
      · cases Option.some.inj moved
        exact .emptied held queue
  · cases Option.some.inj moved
    exact .expired
  · rename_i packet b reply ok
    cases ok with
    | true => cases Option.some.inj moved; exact .responded
    | false => cases Option.some.inj moved; exact .unresponded
  · contradiction

/- What happens around the tasks: the other users of the map, the backends, the
network and the clock. A connected socket takes datagrams of its peer only. That this
covers what reached it before `connect` is assumed of the operating system. -/
inductive Around where
  | updateActivity (key : SessionKey)
  | cleanup (u : Nat)
  | retain (u : Nat) (key : SessionKey)
  | backendSend (sender : SocketAddr) (socket : Nat) (payload : Bytes)
  | arrive (n : Nat)
  | lose (n : Nat)
  | tick (d : Nat)
  deriving DecidableEq, Repr

def around (timeout : Nat) (m : Shared) : Around → Option Shared
  | .updateActivity key => some {m with sessions := touch m.sessions key m.clock}
  | .cleanup u => some {m with sweeps := Function.update m.sweeps u (some m.clock)}
  | .retain u key => do
      let now ← m.sweeps u
      some {m with sessions := retain timeout now m.sessions key}
  | .backendSend sender id payload =>
      some {m with flight := m.flight ++ [(id,⟨sender,payload,m.order+1⟩)]}
  | .arrive n => do
      let (id,d) ← m.flight[n]?
      let socket ← m.sockets id
      let rest := {m with flight := m.flight.eraseIdx n}
      if socket.peer = some d.sender then
        some (setSocket rest id {socket with queue := socket.queue ++ [d]})
      else some rest
  | .lose n => some {m with flight := m.flight.eraseIdx n}
  | .tick d => some {m with clock := m.clock+d}

structure World where
  shared : Shared
  tasks : Nat → Pc

inductive Label where
  | task (t : Nat) (move : Move)
  | around (event : Around)
  deriving DecidableEq, Repr

def numbered (m : Shared) : Shared := {m with order := m.order+1}

def step (timeout : Nat) (w : World) : Label → Option World
  | .task t move => do
      let (m,pc) ← advance w.shared (w.tasks t) move
      some ⟨numbered m,Function.update w.tasks t pc⟩
  | .around event => do
      let m ← around timeout w.shared event
      some {w with shared := numbered m}

def start : World :=
  ⟨⟨0,0,fun _ => none,fun _ => none,0,fun _ => none,[],[],[]⟩,fun _ => .idle⟩

def run (timeout : Nat) (w : World) (labels : List Label) : Option World :=
  labels.foldlM (step timeout) w

def system (timeout : Nat) : Transition.System World Label :=
  Transition.computed (fun w => w = start) (step timeout)

def client (port : UInt16) : SocketAddr := .v4 ⟨#v[192,0,2,1]⟩ port

def server : SocketAddr := .v4 ⟨#v[10,0,0,1]⟩ 53

def query (port : UInt16) : Packet := ⟨client port,localhost 5353,[1]⟩

def steps (t : Nat) (moves : List Move) : List Label := moves.map (.task t)

end UdpBalancer.SessionManager
