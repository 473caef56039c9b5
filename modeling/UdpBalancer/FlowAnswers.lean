import UdpBalancer.FlowSockets
import UdpBalancer.SessionOnce

/-! Where a response comes from in the whole system. A packet that a task carries was
received by it, and the request it awaits an answer to was sent in a step of its own: a
response to a client is traced back to both. -/
namespace UdpBalancer.FlowAnswers
open Backends (SocketAddr)
open SessionManager (Packet Pc Move Shared Reply Took advanceTook numbered)
open HealthChecks (Checks)
open FlowSockets

variable {R κ : Type} [Field R] [LinearOrder R] [DecidableEq κ] {s : Service R}
  {c : Checks κ s.Backend} {x y : World s κ} {labels : List (Label κ)}

/- In the run to `x` a task received the packet and the step numbered `requestAt` sent it
through the socket to the backend at `b`, which `next` had picked for it. -/
def Asked (c : Checks κ s.Backend) (labels : List (Label κ)) (x : World s κ) (packet : Packet)
    (b : SocketAddr) (socket requestAt : Nat) : Prop :=
  ∃ t n early late u v, labels = early ++ .manager (.task t (.send (some n)))::late ∧
    .manager (.task t (.packet packet)) ∈ early ∧
    Transition.Run (system c) (begins s) early u ∧
    Step c u (.manager (.task t (.send (some n)))) v ∧ Transition.Run (system c) v late x ∧
    u.manager.tasks t = .sending packet b socket ∧ v.manager.shared.order = requestAt ∧
    Picked c u.health packet b

theorem askedLater {packet : Packet} {b : SocketAddr} {socket requestAt : Nat}
    (asked : Asked c labels x packet b socket requestAt) {label : Label κ}
    (moved : Step c x label y) : Asked c (labels ++ [label]) y packet b socket requestAt := by
  obtain ⟨t,n,early,late,u,v,rfl,received,before,sends,after,facts⟩ := asked
  exact ⟨t,n,early,late ++ [label],u,v,by rw [List.append_assoc,List.cons_append],received,before,
    sends,.step after moved,facts⟩

def carried : Pc → Option Packet
  | .idle | .done => none
  | .forwarding packet | .looking packet _ | .binding packet _ | .connecting packet _ _
  | .stamping packet _ _ | .entering packet _ _ | .sending packet _ _ | .awaiting packet _ _ _
  | .responding packet _ _ => some packet

def request : Pc → Option (Packet × SocketAddr × Nat × Nat)
  | .awaiting packet b socket requestAt => some (packet,b,socket,requestAt)
  | .responding packet b reply => some (packet,b,reply.socket,reply.requestAt)
  | _ => none

section took
variable {m n : Shared} {pc after : Pc} {move : Move} (took : Took m pc move n after)
include took

theorem tookCarried {packet : Packet} (carries : carried after = some packet) :
    carried pc = some packet ∨ move = .packet packet := by
  cases took with
  | arrived =>
    cases carries
    exact .inr rfl
  | sent at_ =>
    split at carries
    · exact .inl carries
    · contradiction
  | _ => first | contradiction | exact .inl carries

theorem tookRequest {packet : Packet} {b : SocketAddr} {socket requestAt : Nat}
    (waits : request after = some (packet,b,socket,requestAt)) :
    request pc = some (packet,b,socket,requestAt) ∨ (∃ sent, move = .send (some sent)) ∧
      pc = .sending packet b socket ∧ n.order+1 = requestAt := by
  cases took with
  | sent at_ =>
    split at waits
    · cases waits
      exact .inr ⟨⟨_,rfl⟩,rfl,rfl⟩
    · contradiction
  | answered at_ queue => exact .inl waits
  | _ => contradiction

theorem tookResponse {client : SocketAddr} {reply : Reply} (sent : (client,reply) ∈ n.responses) :
    (client,reply) ∈ m.responses ∨
      ∃ packet b, pc = .responding packet b reply ∧ packet.srcAddr = client := by
  cases took with
  | responded =>
    rcases List.mem_cons.mp sent with new | old
    · cases new
      exact .inr ⟨_,_,rfl,rfl⟩
    · exact .inl old
  | _ => exact .inl sent

end took

theorem stepTook {label : Label κ} (moved : Step c x label y) :
    (y.manager.tasks = x.manager.tasks ∧
      y.manager.shared.responses = x.manager.shared.responses) ∨
    ∃ t move m after, Took x.manager.shared (x.manager.tasks t) move m after ∧
      y.manager = ⟨numbered m,Function.update x.manager.tasks t after⟩ ∧
      ((∃ b, move = .choose b) ∨ label = .manager (.task t move)) := by
  cases moved with
  | chosen returned moved =>
    obtain ⟨⟨m,after⟩,advanced,moved⟩ := Option.bind_eq_some_iff.mp moved
    exact .inr ⟨_,_,m,after,advanceTook advanced,(Option.some.inj moved).symm,.inl ⟨_,rfl⟩⟩
  | @manager label _ other moved =>
    cases label with
    | task t move =>
      obtain ⟨⟨m,after⟩,advanced,moved⟩ := Option.bind_eq_some_iff.mp moved
      exact .inr ⟨t,move,m,after,advanceTook advanced,(Option.some.inj moved).symm,.inr rfl⟩
    | around event =>
      obtain ⟨m,happened,moved⟩ := Option.bind_eq_some_iff.mp moved
      cases Option.some.inj moved
      exact .inl ⟨rfl,(SessionOnce.aroundFrame happened).2.1⟩
  | _ => exact .inl ⟨rfl,rfl⟩

structure History (c : Checks κ s.Backend) (labels : List (Label κ)) (x : World s κ) : Prop where
  received : ∀ t packet, carried (x.manager.tasks t) = some packet →
    .manager (.task t (.packet packet)) ∈ labels
  asked : ∀ t packet b socket requestAt,
    request (x.manager.tasks t) = some (packet,b,socket,requestAt) →
      Asked c labels x packet b socket requestAt
  answered : ∀ client reply, (client,reply) ∈ x.manager.shared.responses →
    ∃ packet : Packet, packet.srcAddr = client ∧
      Asked c labels x packet reply.datagram.sender reply.socket reply.requestAt

theorem stepHistory [Fintype κ] (ran : Transition.Run (system c) (begins s) labels x)
    (history : History c labels x) {label : Label κ} (moved : Step c x label y) :
    History c (labels ++ [label]) y := by
  have answered : ∀ client reply, (client,reply) ∈ x.manager.shared.responses →
      ∃ packet : Packet, packet.srcAddr = client ∧ Asked c (labels ++ [label]) y packet
        reply.datagram.sender reply.socket reply.requestAt := by
    intro client reply sent
    obtain ⟨packet,own,asked⟩ := history.answered client reply sent
    exact ⟨packet,own,askedLater asked moved⟩
  have reach : Transition.Reachable (system c) x := Transition.runExtends (.init rfl) ran
  rcases stepTook moved with ⟨tasks,responses⟩ | ⟨t,move,m,after,took,ends,own⟩
  · refine ⟨fun t packet carries => ?_,fun t packet b socket requestAt waits => ?_,
      fun client reply sent => answered client reply (responses ▸ sent)⟩
    · exact List.mem_append_left _ (history.received t packet (tasks ▸ carries))
    · exact askedLater (history.asked t packet b socket requestAt (tasks ▸ waits)) moved
  · have named : (∀ b, move ≠ .choose b) → label = .manager (.task t move) :=
      fun apart => own.resolve_left fun ⟨b,same⟩ => apart b same
    refine ⟨fun u packet carries => ?_,fun u packet b socket requestAt waits => ?_,
      fun client reply sent => ?_⟩
    · rw [ends] at carries
      by_cases same : u = t
      · subst same
        simp only [Function.update_self] at carries
        rcases tookCarried took carries with before | rfl
        · exact List.mem_append_left _ (history.received u packet before)
        · rw [named fun _ => Move.noConfusion]
          exact List.mem_append_right _ List.mem_cons_self
      · simp only [Function.update_of_ne same] at carries
        exact List.mem_append_left _ (history.received u packet carries)
    · have still : request (x.manager.tasks u) = some (packet,b,socket,requestAt) →
          Asked c (labels ++ [label]) y packet b socket requestAt :=
        fun before => askedLater (history.asked u packet b socket requestAt before) moved
      have waiting := waits
      rw [ends] at waiting
      by_cases same : u = t
      · subst same
        simp only [Function.update_self] at waiting
        rcases tookRequest took waiting with before | ⟨⟨n,rfl⟩,sends,numbers⟩
        · exact still before
        · obtain rfl := named fun _ => Move.noConfusion
          refine ⟨u,n,labels,[],x,y,rfl,history.received u packet (by rw [sends]; rfl),ran,moved,
            .nil,sends,?_,(reachableInv reach).picked u packet b (by rw [sends]; rfl)⟩
          rw [ends]
          exact numbers
      · simp only [Function.update_of_ne same] at waiting
        exact still waiting
    · rw [ends] at sent
      rcases tookResponse took sent with before | ⟨packet,b,responds,client⟩
      · exact answered _ _ before
      · have sound := (SessionIsolation.reachableInv (managerReachable reach)).tasks t
        rw [responds] at sound
        refine ⟨packet,client,askedLater ?_ moved⟩
        rw [sound.2]
        exact history.asked t packet b reply.socket reply.requestAt (by rw [responds]; rfl)

theorem beginsHistory : History c [] (begins s) where
  received _ _ carries := by cases carries
  asked _ _ _ _ _ waits := by cases waits
  answered _ _ sent := by cases sent

theorem runHistory [Fintype κ] (ran : Transition.Run (system c) (begins s) labels x) :
    History c labels x := by
  induction ran with
  | nil => exact beginsHistory
  | step before moved ih => exact stepHistory before ih moved

/- Whoever a client is answered by is the backend that `next` picked for a datagram which
was received from this client and sent there through the session's socket; the response
answers that request. -/
theorem answersPicked [Fintype κ] (ran : Transition.Run (system c) (begins s) labels x)
    {client : SocketAddr} {reply : Reply} (sent : (client,reply) ∈ x.manager.shared.responses) :
    ∃ packet : Packet, packet.srcAddr = client ∧
      Asked c labels x packet reply.datagram.sender reply.socket reply.requestAt :=
  (runHistory ran).answered client reply sent

def replied : List SessionManager.Label :=
  SessionStickiness.opened ++ SessionManager.steps 0 [.enter,.send (some 1)] ++
  [.around (.backendSend SessionManager.server 0 [9]),.around (.arrive 0)] ++
  SessionManager.steps 0 [.recv,.respond true]

theorem repliedResponses : (SessionManager.run 30 SessionManager.start replied).map
    (fun m => m.shared.responses) = some [(SessionManager.client 5000,
      ⟨0,8,⟨SessionManager.server,[9],9⟩⟩)] := by
  decide +kernel

theorem pairPicked : ∃ (labels : List (Label Bool)) (x : World pair Bool),
    Transition.Run (system pairChecks) (begins pair) labels x ∧
    (∀ k, x.health.answers k = [.ok ()]) ∧ x.manager.shared.responses =
      [(SessionManager.client 5000,⟨0,8,⟨SessionManager.server,[9],9⟩⟩)] ∧
    ∃ packet : Packet, packet.srcAddr = SessionManager.client 5000 ∧
      Asked pairChecks labels x packet SessionManager.server 0 8 := by
  obtain ⟨m,ran,sent⟩ := Option.map_eq_some_iff.mp repliedResponses
  obtain ⟨labels,x,served,_,rfl,answers⟩ := servesPlain (by decide : replied.all plain = true) ran
  exact ⟨labels,x,served,answers,sent,answersPicked served (sent ▸ List.mem_cons_self)⟩

end UdpBalancer.FlowAnswers
