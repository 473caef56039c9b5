import UdpBalancer.SessionManager

/-! Which request a response answers. `forward` takes the next datagram of the
session's socket, so a response is fresh in every run whose requests are sent on
drained sockets, and a leftover datagram is returned otherwise. -/
namespace UdpBalancer.SessionReplies
open Backends (SocketAddr)
open SessionManager

structure Later (m : Shared) (id requestAt : Nat) : Prop where
  queue : ∀ socket, m.sockets id = some socket → ∀ d ∈ socket.queue, requestAt < d.sentAt
  flight : ∀ d, (id,d) ∈ m.flight → requestAt < d.sentAt

def sendsOn (w : World) : Label → Option Nat
  | .task t (.send (some _)) =>
      match w.tasks t with
      | .sending _ _ id => some id
      | _ => none
  | _ => none

def Drained (w : World) (label : Label) : Prop :=
  ∀ id ∈ sendsOn w label, (∀ socket ∈ w.shared.sockets id, socket.queue = []) ∧
    ∀ f ∈ w.shared.flight, f.1 ≠ id

instance (w : World) (label : Label) : Decidable (Drained w label) :=
  inferInstanceAs (Decidable (∀ id ∈ sendsOn w label, _ ∧ _))

structure Consumes (m n : Shared) : Prop where
  flight : n.flight = m.flight
  order : n.order = m.order
  queue : ∀ id socket, n.sockets id = some socket → ∀ d ∈ socket.queue,
    ∃ old, m.sockets id = some old ∧ d ∈ old.queue

theorem consumesAt {m : Shared} {id later} (known : ∀ d ∈ later.queue,
    ∃ old, m.sockets id = some old ∧ d ∈ old.queue) : Consumes m (setSocket m id later) where
  flight := rfl
  order := rfl
  queue := by
    intro other value at_other d mem
    simp only [setSocket,Function.update_apply] at at_other
    split at at_other
    · rename_i same
      cases Option.some.inj at_other
      exact same ▸ known d mem
    · exact ⟨value,at_other,mem⟩

theorem consumesSet {m : Shared} {id socket later} (held : m.sockets id = some socket)
    (fewer : ∀ d ∈ later.queue, d ∈ socket.queue) : Consumes m (setSocket m id later) :=
  consumesAt fun d mem => ⟨socket,held,fewer d mem⟩

theorem consumesTail {socket : Socket} {d rest} (queue : socket.queue = d::rest) :
    ∀ x ∈ ({socket with queue := rest} : Socket).queue, x ∈ socket.queue := by
  intro x mem
  rw [queue]
  exact List.mem_cons_of_mem d mem

theorem consumesSame {m n : Shared} (sockets : n.sockets = m.sockets) (flight : n.flight = m.flight)
    (order : n.order = m.order) : Consumes m n :=
  ⟨flight,order,fun _ socket held _ mem => ⟨socket,sockets ▸ held,mem⟩⟩

theorem laterConsumes {m n : Shared} {id requestAt : Nat} (consumes : Consumes m n)
    (later : Later m id requestAt) : Later n id requestAt where
  queue := by
    intro socket held d mem
    obtain ⟨old,before,there⟩ := consumes.queue id socket held d mem
    exact later.queue old before d there
  flight := fun d mem => later.flight d (consumes.flight ▸ mem)

theorem consumesBind (m : Shared) (key : SessionKey) :
    Consumes m {setSocket m m.nextSocket ⟨key,none,[],[]⟩ with nextSocket := m.nextSocket+1} := by
  have fresh : Consumes m (setSocket m m.nextSocket ⟨key,none,[],[]⟩) :=
    consumesAt fun d mem => absurd mem List.not_mem_nil
  exact ⟨fresh.flight,fresh.order,fresh.queue⟩

structure Progress (m : Shared) (pc : Pc) (move : Move) (n : Shared) (after : Pc) : Prop where
  consumes : Consumes m n
  answers : n.answers = m.answers ∨ ∃ packet b id requestAt socket d,
    pc = .awaiting packet b id requestAt ∧ m.sockets id = some socket ∧ d ∈ socket.queue ∧
    n.answers = ⟨id,requestAt,d⟩::m.answers
  waits : ∀ packet b id requestAt, after = .awaiting packet b id requestAt →
    requestAt = m.order+1 ∧ ∃ sent, pc = .sending packet b id ∧ move = .send (some sent)

theorem advanceProgress {m n : Shared} {pc after : Pc} {move}
    (moved : advance m pc move = some (n,after)) : Progress m pc move n after := by
  cases advanceTook moved with
  | bound => exact ⟨consumesBind m _,.inl rfl,fun _ _ _ _ wait => by contradiction⟩
  | connected held =>
    exact ⟨consumesSet held fun _ mem => mem,.inl rfl,fun _ _ _ _ wait => by contradiction⟩
  | sent held =>
    refine ⟨consumesSet held fun _ mem => mem,.inl rfl,?_⟩
    intro _ _ _ _ wait
    split at wait
    · cases wait
      exact ⟨rfl,_,rfl,rfl⟩
    · contradiction
  | answered held queue =>
    have taken := consumesSet held (consumesTail queue)
    exact ⟨⟨taken.flight,taken.order,taken.queue⟩,
      .inr ⟨_,_,_,_,_,_,rfl,held,by rw [queue]; exact List.mem_cons_self,rfl⟩,
      fun _ _ _ _ wait => by contradiction⟩
  | emptied held queue =>
    exact ⟨consumesSet held (consumesTail queue),.inl rfl,fun _ _ _ _ wait => by contradiction⟩
  | _ => exact ⟨consumesSame rfl rfl rfl,.inl rfl,fun _ _ _ _ wait => by contradiction⟩

theorem aroundFrame {timeout : Nat} {m n : Shared} {event}
    (moved : around timeout m event = some n) : n.answers = m.answers ∧ n.order = m.order := by
  cases event with
  | retain u key =>
    obtain ⟨now,_,moved⟩ := Option.bind_eq_some_iff.mp moved
    cases Option.some.inj moved
    exact ⟨rfl,rfl⟩
  | arrive n =>
    obtain ⟨⟨id,d⟩,_,moved⟩ := Option.bind_eq_some_iff.mp moved
    obtain ⟨socket,_,moved⟩ := Option.bind_eq_some_iff.mp moved
    split at moved
    · cases Option.some.inj moved
      exact ⟨rfl,rfl⟩
    · cases Option.some.inj moved
      exact ⟨rfl,rfl⟩
  | _ =>
    cases Option.some.inj moved
    exact ⟨rfl,rfl⟩

theorem aroundLater {timeout : Nat} {m n : Shared} {event} (moved : around timeout m event = some n)
    {id requestAt : Nat} (past : requestAt ≤ m.order) (later : Later m id requestAt) :
    Later n id requestAt := by
  cases event with
  | updateActivity key =>
    cases Option.some.inj moved
    exact ⟨later.queue,later.flight⟩
  | cleanup u =>
    cases Option.some.inj moved
    exact ⟨later.queue,later.flight⟩
  | retain u key =>
    obtain ⟨now,_,moved⟩ := Option.bind_eq_some_iff.mp moved
    cases Option.some.inj moved
    exact ⟨later.queue,later.flight⟩
  | backendSend sender target payload =>
    cases Option.some.inj moved
    refine ⟨later.queue,fun d mem => ?_⟩
    rcases List.mem_append.mp mem with before | new
    · exact later.flight d before
    · cases List.mem_singleton.mp new
      exact Nat.lt_succ_of_le past
  | arrive k =>
    obtain ⟨⟨target,d⟩,flying,moved⟩ := Option.bind_eq_some_iff.mp moved
    obtain ⟨socket,held,moved⟩ := Option.bind_eq_some_iff.mp moved
    have fewer : ∀ x, x ∈ m.flight.eraseIdx k → x ∈ m.flight :=
      fun x mem => List.mem_of_mem_eraseIdx mem
    split at moved
    · cases Option.some.inj moved
      refine ⟨fun value at_id x mem => ?_,fun x mem => later.flight x (fewer _ mem)⟩
      simp only [setSocket,Function.update_apply] at at_id
      split at at_id
      · rename_i same
        subst same
        cases Option.some.inj at_id
        rcases List.mem_append.mp mem with before | last
        · exact later.queue socket held x before
        · cases List.mem_singleton.mp last
          exact later.flight _ (List.mem_of_getElem? flying)
      · exact later.queue value at_id x mem
    · cases Option.some.inj moved
      exact ⟨later.queue,fun x mem => later.flight x (fewer _ mem)⟩
  | lose k =>
    cases Option.some.inj moved
    exact ⟨later.queue,fun d mem => later.flight d (List.mem_of_mem_eraseIdx mem)⟩
  | tick d =>
    cases Option.some.inj moved
    exact ⟨later.queue,later.flight⟩

structure Inv (w : World) : Prop where
  answers : ∀ r ∈ w.shared.answers, r.requestAt < r.datagram.sentAt
  waits : ∀ t packet b id requestAt, w.tasks t = .awaiting packet b id requestAt →
    requestAt ≤ w.shared.order ∧ Later w.shared id requestAt

theorem stepInv {timeout : Nat} {w u : World} {label} (inv : Inv w) (drained : Drained w label)
    (moved : step timeout w label = some u) : Inv u := by
  cases label with
  | task t move =>
    obtain ⟨⟨m,pc⟩,advanced,moved⟩ := Option.bind_eq_some_iff.mp moved
    cases Option.some.inj moved
    have progress := advanceProgress advanced
    have order : m.order = w.shared.order := progress.consumes.order
    refine ⟨fun r mem => ?_,fun other packet b id requestAt wait => ?_⟩
    · rcases progress.answers with same | ⟨packet,b,id,requestAt,socket,d,at_t,held,queued,more⟩
      · exact inv.answers r (same ▸ mem)
      · have new : r ∈ Reply.mk id requestAt d::w.shared.answers := more ▸ mem
        rcases List.mem_cons.mp new with rfl | before
        · exact (inv.waits t packet b id requestAt at_t).2.queue socket held d queued
        · exact inv.answers r before
    · change requestAt ≤ m.order+1 ∧ _
      simp only [Function.update_apply] at wait
      split at wait
      · obtain ⟨now,sent,at_t,sends⟩ := progress.waits packet b id requestAt wait
        have on : id ∈ sendsOn w (.task t move) := by simp only [sendsOn,sends,at_t,Option.mem_def]
        obtain ⟨queue,flight⟩ := drained id on
        have empty : Later w.shared id requestAt := by
          refine ⟨fun socket held d mem => ?_,fun d mem => absurd rfl (flight _ mem)⟩
          rw [queue socket held] at mem
          exact absurd mem List.not_mem_nil
        have after := laterConsumes progress.consumes empty
        exact ⟨by rw [now,order],after.queue,after.flight⟩
      · obtain ⟨past,later⟩ := inv.waits other packet b id requestAt wait
        have after := laterConsumes progress.consumes later
        exact ⟨by omega,after.queue,after.flight⟩
  | around event =>
    obtain ⟨m,happened,moved⟩ := Option.bind_eq_some_iff.mp moved
    cases Option.some.inj moved
    obtain ⟨answers,order⟩ := aroundFrame happened
    refine ⟨fun r mem => inv.answers r (answers ▸ mem),fun t packet b id requestAt wait => ?_⟩
    obtain ⟨past,later⟩ := inv.waits t packet b id requestAt wait
    have after := aroundLater happened past later
    change requestAt ≤ m.order+1 ∧ _
    exact ⟨by omega,after.queue,after.flight⟩

/- In every run that sends requests on drained sockets only, whatever else
happens, `forward` returns nothing that was sent before its own request. -/
theorem answersFresh {timeout : Nat} {w : World}
    (reach : Transition.Reachable (Transition.restrict (system timeout) Drained) w) :
    ∀ r ∈ w.shared.answers, r.requestAt < r.datagram.sentAt := by
  have inv : Inv w := by
    refine Transition.invariant (S := Transition.restrict (system timeout) Drained) Inv ?_ ?_ reach
    · intro s begins
      have same : s = start := begins
      subst same
      exact ⟨fun r mem => absurd mem List.not_mem_nil,
        fun t packet b id requestAt wait => by contradiction⟩
    · intro s label t inv moved
      exact stepInv inv moved.1 moved.2
  exact inv.answers

/- What happens otherwise: a datagram that waits when a request is sent is the
response that the request gets. -/
theorem leftoverAnswers {m : Shared} {packet b id socket d rest} {sent : Nat} (positive : 0 < sent)
    (held : m.sockets id = some socket) (waiting : socket.queue = d::rest)
    (nonempty : 0 < d.payload.length) :
    ∃ n, advance m (.sending packet b id) (.send (some sent)) =
        some (n,.awaiting packet b id (m.order+1)) ∧
      (advance (numbered n) (.awaiting packet b id (m.order+1)) .recv).map (fun r => r.1.answers) =
        some (⟨id,m.order+1,d⟩::m.answers) := by
  have sends : advance m (.sending packet b id) (.send (some sent)) =
      some (setSocket m id {socket with carried := packet.srcAddr::socket.carried},
        .awaiting packet b id (m.order+1)) := by
    simp only [advance,held,bind,Option.bind,positive,if_true]
  refine ⟨_,sends,?_⟩
  simp only [advance,numbered,setSocket,Function.update_self,bind,Option.bind,waiting,nonempty,
    if_true,Option.map_some]

def quick : List Label :=
  steps 0 [.packet (query 5000),.choose (some server),.lookup,.bind true,.connect true,.stamp,
    .enter,.send (some 1)] ++
  [.around (.backendSend server 0 [7]),.around (.arrive 0)] ++ steps 0 [.recv,.respond true] ++
  steps 1 [.packet (query 5000),.choose (some server),.lookup,.send (some 1)] ++
  [.around (.backendSend server 0 [8]),.around (.arrive 0)] ++ steps 1 [.recv,.respond true]

theorem quickAnswers : (Transition.checkedRun (step 30) Drained start quick).map
    (fun w => w.shared.answers) = some [⟨0,16,⟨server,[8],17⟩⟩,⟨0,8,⟨server,[7],9⟩⟩] := by
  decide +kernel

theorem quickFresh : ∃ w, Transition.checkedRun (step 30) Drained start quick = some w ∧
    w.shared.answers = [⟨0,16,⟨server,[8],17⟩⟩,⟨0,8,⟨server,[7],9⟩⟩] ∧
    ∀ r ∈ w.shared.answers, r.requestAt < r.datagram.sentAt := by
  obtain ⟨w,ran,answers⟩ := Option.map_eq_some_iff.mp quickAnswers
  have begins : Transition.Reachable (Transition.restrict (system 30) Drained) start := .init rfl
  exact ⟨w,ran,answers,answersFresh (Transition.checkedReachable begins ran)⟩

def late : List Label :=
  steps 0 [.packet (query 5000),.choose (some server),.lookup,.bind true,.connect true,.stamp,
    .enter,.send (some 1)] ++
  [.around (.tick 30)] ++ steps 0 [.expire] ++
  [.around (.backendSend server 0 [7]),.around (.arrive 0)] ++
  steps 1 [.packet (query 5000),.choose (some server),.lookup,.send (some 1),.recv]

theorem lateAnswers : (run 30 start late).map (fun w => w.shared.answers) =
    some [⟨0,16,⟨server,[7],11⟩⟩] := by
  decide +kernel

theorem lateAnswerReturned : ∃ w r, run 30 start late = some w ∧
    r ∈ w.shared.answers ∧ r.datagram.sentAt < r.requestAt := by
  obtain ⟨w,ran,answers⟩ := Option.map_eq_some_iff.mp lateAnswers
  have mem : (⟨0,16,⟨server,[7],11⟩⟩ : Reply) ∈ w.shared.answers := by
    rw [answers]
    exact List.mem_cons_self
  exact ⟨w,_,ran,mem,by decide⟩

end UdpBalancer.SessionReplies
