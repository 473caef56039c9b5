import UdpBalancer.SessionManager

/-! Responses stay with their client. A socket belongs to one key from its bind
on; the map, the tasks and the sent responses only ever name sockets of their
own key, whoever wins an insert, removes an entry or holds on to a socket. -/
namespace UdpBalancer.SessionIsolation
open Backends (SocketAddr)
open SessionManager

structure SocketSound (socket : Socket) : Prop where
  peered : socket.peer = none ∨ socket.peer = some socket.owner.backendAddr
  carried : ∀ c ∈ socket.carried, c = socket.owner.clientAddr
  queue : ∀ d ∈ socket.queue, socket.peer = some d.sender

def Created (sockets : Nat → Option Socket) (key : SessionKey) (id : Nat) : Prop :=
  ∃ socket, sockets id = some socket ∧ socket.owner = key

def Owned (sockets : Nat → Option Socket) (key : SessionKey) (id : Nat) : Prop :=
  ∃ socket, sockets id = some socket ∧ socket.owner = key ∧ socket.peer = some key.backendAddr

def PcSound (sockets : Nat → Option Socket) : Pc → Prop
  | .connecting packet b id => Created sockets ⟨packet.srcAddr,b⟩ id
  | .stamping packet b id => Owned sockets ⟨packet.srcAddr,b⟩ id
  | .entering packet b new => Owned sockets ⟨packet.srcAddr,b⟩ new.socket
  | .sending packet b id => Owned sockets ⟨packet.srcAddr,b⟩ id
  | .awaiting packet b id _ => Owned sockets ⟨packet.srcAddr,b⟩ id
  | .responding packet b reply =>
      Owned sockets ⟨packet.srcAddr,b⟩ reply.socket ∧ reply.datagram.sender = b
  | _ => True

structure Sound (m : Shared) : Prop where
  unused : ∀ id, m.nextSocket ≤ id → m.sockets id = none
  sockets : ∀ id socket, m.sockets id = some socket → SocketSound socket
  sessions : ∀ key session, m.sessions key = some session → Owned m.sockets key session.socket
  responses : ∀ c reply, (c,reply) ∈ m.responses →
    Owned m.sockets ⟨c,reply.datagram.sender⟩ reply.socket

/- What any step may do to the sockets: bind new ones, connect one, change the
queue or the ghosts. Owners and connections stay. -/
def Grows (before after : Nat → Option Socket) : Prop :=
  ∀ id socket, before id = some socket → ∃ later, after id = some later ∧
    later.owner = socket.owner ∧ (socket.peer = none ∨ later.peer = socket.peer)

theorem growsRefl (sockets : Nat → Option Socket) : Grows sockets sockets :=
  fun _ socket held => ⟨socket,held,rfl,.inr rfl⟩

theorem growsSet {sockets : Nat → Option Socket} {id socket later} (held : sockets id = some socket)
    (owner : later.owner = socket.owner) (peer : socket.peer = none ∨ later.peer = socket.peer) :
    Grows sockets (Function.update sockets id (some later)) := by
  intro other old at_other
  by_cases same : other = id
  · subst same
    cases Option.some.inj (held.symm.trans at_other)
    exact ⟨later,Function.update_self ..,owner,peer⟩
  · exact ⟨old,(Function.update_of_ne same _ _).trans at_other,rfl,.inr rfl⟩

theorem createdGrows {before after key id} (grows : Grows before after)
    (created : Created before key id) : Created after key id := by
  obtain ⟨socket,held,owner⟩ := created
  obtain ⟨later,now,same,_⟩ := grows id socket held
  exact ⟨later,now,same.trans owner⟩

theorem ownedGrows {before after key id} (grows : Grows before after)
    (owned : Owned before key id) : Owned after key id := by
  obtain ⟨socket,held,owner,peer⟩ := owned
  obtain ⟨later,now,same,kept⟩ := grows id socket held
  refine ⟨later,now,same.trans owner,?_⟩
  rcases kept with unconnected | same
  · rw [unconnected] at peer
    contradiction
  · exact same.trans peer

theorem pcGrows {before after} (grows : Grows before after) {pc : Pc}
    (sound : PcSound before pc) : PcSound after pc := by
  cases pc with
  | connecting packet b id => exact createdGrows grows sound
  | responding packet b reply => exact ⟨ownedGrows grows sound.1,sound.2⟩
  | stamping packet b id => exact ownedGrows grows sound
  | entering packet b new => exact ownedGrows grows sound
  | sending packet b id => exact ownedGrows grows sound
  | awaiting packet b id requestAt => exact ownedGrows grows sound
  | _ => trivial

theorem setSound {m : Shared} (sound : Sound m) {id socket later} (held : m.sockets id = some socket)
    (owner : later.owner = socket.owner) (peer : socket.peer = none ∨ later.peer = socket.peer)
    (inner : SocketSound later) : Sound (setSocket m id later) where
  unused := by
    intro other beyond
    have apart : other ≠ id := by
      intro same
      rw [same] at beyond
      rw [sound.unused id beyond] at held
      contradiction
    exact (Function.update_of_ne apart _ _).trans (sound.unused other beyond)
  sockets := by
    intro other value at_other
    simp only [setSocket,Function.update_apply] at at_other
    split at at_other
    · cases Option.some.inj at_other
      exact inner
    · exact sound.sockets other value at_other
  sessions := fun key session stored =>
    ownedGrows (growsSet held owner peer) (sound.sessions key session stored)
  responses := fun c reply mem =>
    ownedGrows (growsSet held owner peer) (sound.responses c reply mem)

theorem touchStored {s : Sessions} {key : SessionKey} {now : Nat} {other session}
    (stored : touch s key now other = some session) :
    ∃ old, s other = some old ∧ old.socket = session.socket := by
  cases held : s key with
  | none =>
    simp only [touch,held] at stored
    exact ⟨session,stored,rfl⟩
  | some old =>
    simp only [touch,held,Function.update_apply] at stored
    split at stored
    · rename_i same
      cases Option.some.inj stored
      exact ⟨old,same ▸ held,rfl⟩
    · exact ⟨session,stored,rfl⟩

theorem retainStored {timeout now : Nat} {s : Sessions} {key : SessionKey} {other session}
    (stored : retain timeout now s key other = some session) : s other = some session := by
  cases held : s key with
  | none =>
    simp only [retain,held] at stored
    exact stored
  | some old =>
    by_cases expired : timeout < now-old.lastActivity
    · simp only [retain,held,expired,if_true,Function.update_apply] at stored
      split at stored
      · contradiction
      · exact stored
    · simp only [retain,held,expired,if_false] at stored
      exact stored

theorem entryStored {s : Sessions} {key : SessionKey} {new : Session} {now : Nat} {other session}
    (stored : (entry s key new now).1 other = some session) :
    (∃ old, s other = some old ∧ old.socket = session.socket) ∨
      other = key ∧ session.socket = new.socket := by
  unfold entry at stored
  split at stored
  · exact .inl (touchStored stored)
  · simp only [Function.update_apply] at stored
    split at stored
    · rename_i same
      cases Option.some.inj stored
      exact .inr ⟨same,rfl⟩
    · exact .inl ⟨session,stored,rfl⟩

theorem entrySocket (s : Sessions) (key : SessionKey) (new : Session) (now : Nat) :
    (∃ old, s key = some old ∧ old.socket = (entry s key new now).2) ∨
      (entry s key new now).2 = new.socket := by
  unfold entry
  split
  · rename_i old held
    exact .inl ⟨old,held,rfl⟩
  · exact .inr rfl

theorem sessionsSound {m : Shared} (sound : Sound m) {sessions : Sessions}
    (stored : ∀ key session, sessions key = some session → Owned m.sockets key session.socket) :
    Sound {m with sessions := sessions} :=
  ⟨sound.unused,sound.sockets,stored,sound.responses⟩

theorem touchSound {m : Shared} (sound : Sound m) (key : SessionKey) (now : Nat) :
    Sound {m with sessions := touch m.sessions key now} := by
  apply sessionsSound sound
  intro other session stored
  obtain ⟨old,held,same⟩ := touchStored stored
  exact same ▸ sound.sessions other old held

theorem bindSound {m : Shared} (sound : Sound m) (key : SessionKey) :
    Sound {setSocket m m.nextSocket ⟨key,none,[],[]⟩ with nextSocket := m.nextSocket+1} ∧
      Grows m.sockets (Function.update m.sockets m.nextSocket (some ⟨key,none,[],[]⟩)) := by
  have free := sound.unused m.nextSocket (Nat.le_refl _)
  have grows : Grows m.sockets
      (Function.update m.sockets m.nextSocket (some ⟨key,none,[],[]⟩)) := by
    intro other old held
    have apart : other ≠ m.nextSocket := by
      intro same
      rw [same,free] at held
      contradiction
    exact ⟨old,(Function.update_of_ne apart _ _).trans held,rfl,.inr rfl⟩
  refine ⟨⟨?_,?_,?_,?_⟩,grows⟩
  · intro other beyond
    have beyond : m.nextSocket+1 ≤ other := beyond
    exact (Function.update_of_ne (by omega) _ _).trans (sound.unused other (by omega))
  · intro other socket held
    simp only [setSocket,Function.update_apply] at held
    split at held
    · cases Option.some.inj held
      exact ⟨.inl rfl,by simp,by simp⟩
    · exact sound.sockets other socket held
  · exact fun other session stored => ownedGrows grows (sound.sessions other session stored)
  · exact fun c reply mem => ownedGrows grows (sound.responses c reply mem)

section
variable {m : Shared} (sound : Sound m) {packet : Packet} {b : SocketAddr} {id : Nat} {socket : Socket}
  (held : m.sockets id = some socket)
include sound held

theorem connectSound (created : Created m.sockets ⟨packet.srcAddr,b⟩ id) :
    Sound (setSocket m id {socket with peer := some b}) ∧
      Owned (setSocket m id {socket with peer := some b}).sockets ⟨packet.srcAddr,b⟩ id ∧
      Grows m.sockets (setSocket m id {socket with peer := some b}).sockets := by
  obtain ⟨found,here,owner⟩ := created
  cases Option.some.inj (here.symm.trans held)
  have inner := sound.sockets _ _ held
  have target : socket.owner.backendAddr = b := congrArg SessionKey.backendAddr owner
  have peer : socket.peer = none ∨ some b = socket.peer :=
    inner.peered.imp_right fun set => (set.trans (congrArg some target)).symm
  have queue : ∀ d ∈ socket.queue, some b = some d.sender := by
    intro d mem
    have sender := inner.queue d mem
    rcases peer with unset | set
    · rw [unset] at sender
      contradiction
    · exact set.trans sender
  have connected : SocketSound {socket with peer := some b} :=
    ⟨.inr (congrArg some target.symm),inner.carried,queue⟩
  exact ⟨setSound sound held rfl peer connected,⟨_,Function.update_self ..,owner,rfl⟩,
    growsSet held rfl peer⟩

theorem sendSound (owned : Owned m.sockets ⟨packet.srcAddr,b⟩ id) :
    Sound (setSocket m id {socket with carried := packet.srcAddr::socket.carried}) ∧
      Grows m.sockets
        (setSocket m id {socket with carried := packet.srcAddr::socket.carried}).sockets := by
  obtain ⟨found,here,owner,_⟩ := owned
  cases Option.some.inj (here.symm.trans held)
  have inner := sound.sockets _ _ held
  have carried : ∀ c ∈ packet.srcAddr::socket.carried, c = socket.owner.clientAddr := by
    intro c mem
    rcases List.mem_cons.mp mem with rfl | before
    · exact (congrArg SessionKey.clientAddr owner).symm
    · exact inner.carried c before
  exact ⟨setSound sound held rfl (.inr rfl) ⟨inner.peered,carried,inner.queue⟩,
    growsSet held rfl (.inr rfl)⟩

theorem recvSound {d : Datagram} {rest : List Datagram} (queue : socket.queue = d::rest)
    (owned : Owned m.sockets ⟨packet.srcAddr,b⟩ id) :
    Sound (setSocket m id {socket with queue := rest}) ∧ d.sender = b ∧
      Grows m.sockets (setSocket m id {socket with queue := rest}).sockets := by
  obtain ⟨found,here,_,peer⟩ := owned
  cases Option.some.inj (here.symm.trans held)
  have inner := sound.sockets _ _ held
  have first : d ∈ socket.queue := by rw [queue]; exact List.mem_cons_self
  have left : SocketSound {socket with queue := rest} :=
    ⟨inner.peered,inner.carried,fun x mem =>
      inner.queue x (by rw [queue]; exact List.mem_cons_of_mem d mem)⟩
  exact ⟨setSound sound held rfl (.inr rfl) left,
    (Option.some.inj (peer.symm.trans (inner.queue d first))).symm,growsSet held rfl (.inr rfl)⟩

end

theorem enterSound {m : Shared} (sound : Sound m) {key : SessionKey} {new : Session}
    (owned : Owned m.sockets key new.socket) (now : Nat) :
    Sound {m with sessions := (entry m.sessions key new now).1} ∧
      Owned m.sockets key (entry m.sessions key new now).2 := by
  constructor
  · apply sessionsSound sound
    intro other session stored
    rcases entryStored stored with ⟨old,held,equal⟩ | ⟨here,equal⟩
    · exact equal ▸ sound.sessions other old held
    · rw [here,equal]
      exact owned
  · rcases entrySocket m.sessions key new now with ⟨old,held,equal⟩ | equal
    · exact equal ▸ sound.sessions _ old held
    · exact equal.symm ▸ owned

theorem advanceSound {m n : Shared} {pc after : Pc} {move} (sound : Sound m)
    (own : PcSound m.sockets pc) (moved : advance m pc move = some (n,after)) :
    Sound n ∧ PcSound n.sockets after ∧ Grows m.sockets n.sockets := by
  have same := growsRefl m.sockets
  cases advanceTook moved with
  | found stored => exact ⟨touchSound sound _ _,sound.sessions _ _ stored,same⟩
  | bound =>
    obtain ⟨bound,grows⟩ := bindSound sound _
    exact ⟨bound,⟨_,Function.update_self ..,rfl⟩,grows⟩
  | connected held => exact connectSound sound held own
  | stamped => exact ⟨sound,own,same⟩
  | entered =>
    obtain ⟨entered,owned⟩ := enterSound sound own m.clock
    exact ⟨entered,owned,same⟩
  | sent held =>
    obtain ⟨used,grows⟩ := sendSound sound held own
    refine ⟨used,?_,grows⟩
    split
    · exact ownedGrows grows own
    · trivial
  | answered held queue =>
    obtain ⟨taken,sender,grows⟩ := recvSound sound held queue own
    exact ⟨⟨taken.unused,taken.sockets,taken.sessions,taken.responses⟩,
      ⟨ownedGrows grows own,sender⟩,grows⟩
  | emptied held queue =>
    obtain ⟨taken,_,grows⟩ := recvSound sound held queue own
    exact ⟨taken,trivial,grows⟩
  | responded =>
    refine ⟨⟨sound.unused,sound.sockets,sound.sessions,?_⟩,trivial,same⟩
    intro c r mem
    rcases List.mem_cons.mp mem with new | old
    · cases new
      exact own.2.symm ▸ own.1
    · exact sound.responses c r old
  | _ => exact ⟨sound,trivial,same⟩

theorem aroundSound {timeout : Nat} {m n : Shared} {event} (sound : Sound m)
    (moved : around timeout m event = some n) : Sound n ∧ Grows m.sockets n.sockets := by
  have same := growsRefl m.sockets
  cases event with
  | updateActivity key =>
    cases Option.some.inj moved
    exact ⟨touchSound sound key m.clock,same⟩
  | cleanup u =>
    cases Option.some.inj moved
    exact ⟨⟨sound.unused,sound.sockets,sound.sessions,sound.responses⟩,same⟩
  | retain u key =>
    obtain ⟨now,_,moved⟩ := Option.bind_eq_some_iff.mp moved
    cases Option.some.inj moved
    exact ⟨sessionsSound sound fun other session stored =>
      sound.sessions other session (retainStored stored),same⟩
  | backendSend sender id payload =>
    cases Option.some.inj moved
    exact ⟨⟨sound.unused,sound.sockets,sound.sessions,sound.responses⟩,same⟩
  | arrive n =>
    obtain ⟨⟨id,d⟩,_,moved⟩ := Option.bind_eq_some_iff.mp moved
    obtain ⟨socket,held,moved⟩ := Option.bind_eq_some_iff.mp moved
    have inner := sound.sockets _ _ held
    split at moved
    · rename_i accepted
      cases Option.some.inj moved
      have longer : SocketSound {socket with queue := socket.queue ++ [d]} := by
        refine ⟨inner.peered,inner.carried,fun x mem => ?_⟩
        rcases List.mem_append.mp mem with before | last
        · exact inner.queue x before
        · exact List.mem_singleton.mp last ▸ accepted
      have rest : Sound {m with flight := m.flight.eraseIdx n} :=
        ⟨sound.unused,sound.sockets,sound.sessions,sound.responses⟩
      exact ⟨setSound rest held rfl (.inr rfl) longer,growsSet held rfl (.inr rfl)⟩
    · cases Option.some.inj moved
      exact ⟨⟨sound.unused,sound.sockets,sound.sessions,sound.responses⟩,same⟩
  | lose n =>
    cases Option.some.inj moved
    exact ⟨⟨sound.unused,sound.sockets,sound.sessions,sound.responses⟩,same⟩
  | tick d =>
    cases Option.some.inj moved
    exact ⟨⟨sound.unused,sound.sockets,sound.sessions,sound.responses⟩,same⟩

structure Inv (w : World) : Prop where
  shared : Sound w.shared
  tasks : ∀ t, PcSound w.shared.sockets (w.tasks t)

theorem startInv : Inv start where
  shared := ⟨fun _ _ => rfl,fun _ _ held => by contradiction,fun _ _ held => by contradiction,
    fun _ _ mem => absurd mem List.not_mem_nil⟩
  tasks := fun _ => trivial

theorem stepInv {timeout : Nat} {w u : World} {label} (inv : Inv w)
    (moved : step timeout w label = some u) : Inv u := by
  cases label with
  | task t move =>
    obtain ⟨⟨m,pc⟩,advanced,moved⟩ := Option.bind_eq_some_iff.mp moved
    cases Option.some.inj moved
    obtain ⟨sound,own,grows⟩ := advanceSound inv.shared (inv.tasks t) advanced
    refine ⟨⟨sound.unused,sound.sockets,sound.sessions,sound.responses⟩,fun other => ?_⟩
    simp only [Function.update_apply]
    split
    · exact own
    · exact pcGrows grows (inv.tasks other)
  | around event =>
    obtain ⟨m,happened,moved⟩ := Option.bind_eq_some_iff.mp moved
    cases Option.some.inj moved
    obtain ⟨sound,grows⟩ := aroundSound inv.shared happened
    exact ⟨⟨sound.unused,sound.sockets,sound.sessions,sound.responses⟩,
      fun other => pcGrows grows (inv.tasks other)⟩

theorem reachableInv {timeout : Nat} {w : World}
    (reach : Transition.Reachable (system timeout) w) : Inv w := by
  refine Transition.invariant Inv ?_ (fun _ _ _ inv moved => stepInv inv moved) reach
  intro s begins
  have same : s = start := begins
  exact same ▸ startInv

/- Every response sent to a client came from a socket that was created for that
client and a backend, is connected to that backend, and has carried requests of
no other client. -/
theorem responsesIsolated {timeout : Nat} {w : World}
    (reach : Transition.Reachable (system timeout) w) :
    ∀ client reply, (client,reply) ∈ w.shared.responses →
      ∃ socket backend, w.shared.sockets reply.socket = some socket ∧
        socket.owner = ⟨client,backend⟩ ∧ socket.peer = some backend ∧
        reply.datagram.sender = backend ∧ ∀ c ∈ socket.carried, c = client := by
  intro client reply sent
  have inv := reachableInv reach
  obtain ⟨socket,held,owner,peer⟩ := inv.shared.responses client reply sent
  refine ⟨socket,reply.datagram.sender,held,owner,peer,rfl,fun c mem => ?_⟩
  rw [(inv.shared.sockets _ _ held).carried c mem,owner]

def race : List Label :=
  steps 0 [.packet (query 5000),.choose (some server),.lookup,.bind true] ++
  steps 1 [.packet (query 5000),.choose (some server),.lookup,.bind true,.connect true,.stamp,.enter] ++
  steps 2 [.packet (query 6000),.choose (some server),.lookup,.bind true,.connect true,.stamp,.enter,
    .send (some 1)] ++
  steps 0 [.connect true,.stamp,.enter,.send (some 1)] ++
  [.around (.backendSend server 2 [7]),.around (.backendSend server 1 [8]),.around (.arrive 1),
    .around (.arrive 0)] ++
  steps 0 [.recv,.respond true] ++ steps 2 [.recv,.respond true]

theorem raceResponses : (run 30 start race).map (fun w => w.shared.responses) =
    some [(client 6000,⟨2,19,⟨server,[7],24⟩⟩),(client 5000,⟨1,23,⟨server,[8],25⟩⟩)] := by
  decide +kernel

theorem raceIsolated : ∃ w, run 30 start race = some w ∧
    (client 5000,(⟨1,23,⟨server,[8],25⟩⟩ : Reply)) ∈ w.shared.responses ∧
    ∃ socket backend, w.shared.sockets 1 = some socket ∧ socket.owner = ⟨client 5000,backend⟩ ∧
      socket.peer = some backend ∧ ∀ c ∈ socket.carried, c = client 5000 := by
  obtain ⟨w,ran,sent⟩ := Option.map_eq_some_iff.mp raceResponses
  have reach := Transition.runReachable (.init (S := system 30) (s := start) rfl) ran
  have mem : (client 5000,(⟨1,23,⟨server,[8],25⟩⟩ : Reply)) ∈ w.shared.responses := by
    rw [sent]
    exact List.mem_cons_of_mem _ List.mem_cons_self
  obtain ⟨socket,backend,held,owner,peer,_,carried⟩ := responsesIsolated reach _ _ mem
  exact ⟨w,ran,mem,socket,backend,held,owner,peer,carried⟩

end UdpBalancer.SessionIsolation
