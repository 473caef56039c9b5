import UdpBalancer.SessionIsolation

/-! The workers of a listener: each takes datagrams off its own socket, one at a
time, and goes through `handle_packet` before it looks at the next. They share
one balancer, and every run of theirs is a run of its packet tasks. -/
namespace UdpBalancer.ListenerWorker
open Backends (Bytes SocketAddr)
open SessionManager (Packet Pc Move Shared Around advance around numbered Took advanceTook)

structure Listener where
  address : SocketAddr
  workers : Nat
  mirrors : Nat
  proxyTimeout : Nat

inductive Phase where
  | selecting
  | handling (packet : Packet) (pc : Pc)
  | mirroring (packet : Packet) (left : Nat)
  | stopped
  deriving DecidableEq, Repr

structure Worker where
  queue : List (SocketAddr × Bytes)
  phase : Phase
  deriving DecidableEq, Repr

/- The steps of a worker. `move` is one of `handle_packet` up to its response. -/
inductive Act where
  | receive
  | receiveError
  | move (move : Move)
  | finish
  | mirror
  | shutdown
  deriving DecidableEq, Repr

structure World (l : Listener) where
  shared : Shared
  workers : Fin l.workers → Worker

inductive Label (l : Listener) where
  | deliver (k : Fin l.workers) (client : SocketAddr) (payload : Bytes)
  | worker (k : Fin l.workers) (act : Act)
  | around (event : Around)
  deriving DecidableEq, Repr

variable (l : Listener)

def act (m : Shared) (w : Worker) : Act → Option (Shared × Worker)
  | .receive => match w.phase,w.queue with
    | .selecting,(client,payload)::rest =>
        if payload = [] then some (m,⟨rest,.selecting⟩) else do
          let packet : Packet := ⟨client,l.address,payload⟩
          let (n,pc) ← advance m .idle (.packet packet)
          some (numbered n,⟨rest,.handling packet pc⟩)
    | _,_ => none
  | .receiveError => match w.phase with
    | .selecting => some (m,w)
    | _ => none
  | .move move => match w.phase with
    | .handling packet pc => do
        let (n,after) ← advance m pc move
        some (numbered n,⟨w.queue,.handling packet after⟩)
    | _ => none
  | .finish => match w.phase with
    | .handling packet .done => some (m,⟨w.queue,.mirroring packet l.mirrors⟩)
    | _ => none
  | .mirror => match w.phase with
    | .mirroring packet (left+1) => some (m,⟨w.queue,.mirroring packet left⟩)
    | .mirroring _ 0 => some (m,⟨w.queue,.selecting⟩)
    | _ => none
  | .shutdown => match w.phase with
    | .selecting => some (m,⟨w.queue,.stopped⟩)
    | _ => none

def step (w : World l) : Label l → Option (World l)
  | .deliver k client payload =>
      let worker := w.workers k
      some {w with workers :=
        Function.update w.workers k {worker with queue := worker.queue ++ [(client,payload)]}}
  | .worker k a => do
      let (m,worker) ← act l w.shared (w.workers k) a
      some ⟨m,Function.update w.workers k worker⟩
  | .around event => do
      let m ← around l.proxyTimeout w.shared event
      some {w with shared := numbered m}

def start : World l := ⟨SessionManager.start.shared,fun _ => ⟨[],.selecting⟩⟩

def system : Transition.System (World l) (Label l) :=
  Transition.computed (fun w => w = start l) (step l)

variable {l}

inductive Did (m : Shared) (w : Worker) : Act → Shared → Worker → Prop where
  | skipped {client rest} (selects : w.phase = .selecting) (queue : w.queue = (client,[])::rest) :
      Did m w .receive m ⟨rest,.selecting⟩
  | received {client payload rest} (selects : w.phase = .selecting)
      (queue : w.queue = (client,payload)::rest) (filled : payload ≠ []) :
      Did m w .receive (numbered m)
        ⟨rest,.handling ⟨client,l.address,payload⟩ (.forwarding ⟨client,l.address,payload⟩)⟩
  | logged (selects : w.phase = .selecting) : Did m w .receiveError m w
  | moved {packet pc move n after} (handles : w.phase = .handling packet pc)
      (moved : advance m pc move = some (n,after)) :
      Did m w (.move move) (numbered n) ⟨w.queue,.handling packet after⟩
  | finished {packet} (handles : w.phase = .handling packet .done) :
      Did m w .finish m ⟨w.queue,.mirroring packet l.mirrors⟩
  | mirrored {packet left} (mirrors : w.phase = .mirroring packet (left+1)) :
      Did m w .mirror m ⟨w.queue,.mirroring packet left⟩
  | returned {packet} (mirrors : w.phase = .mirroring packet 0) :
      Did m w .mirror m ⟨w.queue,.selecting⟩
  | stopped (selects : w.phase = .selecting) : Did m w .shutdown m ⟨w.queue,.stopped⟩

theorem arrives (m : Shared) (packet : Packet) (filled : packet.payload ≠ []) :
    advance m .idle (.packet packet) = some (m,.forwarding packet) := if_neg filled

theorem actDid {m n : Shared} {w after : Worker} {a : Act} (done : act l m w a = some (n,after)) :
    Did (l := l) m w a n after := by
  cases a with
  | receive =>
    simp only [act] at done
    split at done
    · rename_i client payload rest selects queue
      split at done
      · rename_i empty
        cases Option.some.inj done
        exact .skipped selects (empty ▸ queue)
      · rename_i filled
        simp only [arrives m ⟨client,l.address,payload⟩ filled,bind,Option.bind] at done
        cases Option.some.inj done
        exact .received selects queue filled
    · contradiction
  | receiveError =>
    simp only [act] at done
    split at done
    · cases Option.some.inj done
      exact .logged (by assumption)
    · contradiction
  | move move =>
    simp only [act] at done
    split at done
    · obtain ⟨⟨t,pc⟩,moved,done⟩ := Option.bind_eq_some_iff.mp done
      cases Option.some.inj done
      exact .moved (by assumption) moved
    · contradiction
  | finish =>
    simp only [act] at done
    split at done
    · cases Option.some.inj done
      exact .finished (by assumption)
    · contradiction
  | mirror =>
    simp only [act] at done
    split at done
    · cases Option.some.inj done
      exact .mirrored (by assumption)
    · cases Option.some.inj done
      exact .returned (by assumption)
    · contradiction
  | shutdown =>
    simp only [act] at done
    split at done
    · cases Option.some.inj done
      exact .stopped (by assumption)
    · contradiction

theorem workerStepped {w u : World l} {k a} (moved : step l w (.worker k a) = some u) :
    ∃ m after, Did (l := l) w.shared (w.workers k) a m after ∧
      u = ⟨m,Function.update w.workers k after⟩ := by
  obtain ⟨⟨m,after⟩,done,moved⟩ := Option.bind_eq_some_iff.mp moved
  cases Option.some.inj moved
  exact ⟨m,after,actDid done,rfl⟩

/- A worker in `handle_packet` is a task of the balancer; with the next datagram it
becomes a fresh one. -/
structure Assigned (task : Fin l.workers → Nat) (fresh : Nat) (w : World l)
    (v : SessionManager.World) : Prop where
  shared : v.shared = w.shared
  below : ∀ k, task k < fresh
  apart : ∀ i j, task i = task j → i = j
  idle : ∀ t, fresh ≤ t → v.tasks t = .idle
  handles : ∀ k packet pc, (w.workers k).phase = .handling packet pc →
    v.tasks (task k) = pc ∧ pc ≠ .idle

theorem startAssigned : Assigned (l := l) Fin.val l.workers (start l) SessionManager.start where
  shared := rfl
  below k := k.isLt
  apart _ _ same := Fin.ext same
  idle _ _ := rfl
  handles _ _ _ handles := nomatch handles

variable {task : Fin l.workers → Nat} {fresh : Nat} {w : World l} {v : SessionManager.World}

theorem keepsAssigned (assigned : Assigned task fresh w v) {k : Fin l.workers} {after : Worker}
    (quiet : ∀ packet pc, after.phase = .handling packet pc →
      (w.workers k).phase = .handling packet pc) :
    Assigned task fresh ⟨w.shared,Function.update w.workers k after⟩ v := by
  refine {assigned with handles := fun j packet pc handles => ?_}
  simp only [Function.update_apply] at handles
  split at handles
  · rename_i same
    exact same ▸ assigned.handles k packet pc (quiet packet pc handles)
  · exact assigned.handles j packet pc handles

theorem receiveAssigned (assigned : Assigned task fresh w v) {k : Fin l.workers}
    (packet : Packet) (filled : packet.payload ≠ []) {rest : List (SocketAddr × Bytes)} :
    ∃ u, SessionManager.step l.proxyTimeout v (.task fresh (.packet packet)) = some u ∧
      Assigned (Function.update task k fresh) (fresh+1)
        ⟨numbered w.shared,Function.update w.workers k
          ⟨rest,.handling packet (.forwarding packet)⟩⟩ u := by
  refine ⟨⟨numbered v.shared,Function.update v.tasks fresh (.forwarding packet)⟩,?_,?_⟩
  · simp only [SessionManager.step,assigned.idle fresh (Nat.le_refl _),arrives v.shared packet filled,
      bind,Option.bind]
  · refine ⟨congrArg numbered assigned.shared,fun j => ?_,fun i j same => ?_,fun t le => ?_,
      fun j p pc handles => ?_⟩
    · simp only [Function.update_apply]
      have := assigned.below j
      split <;> omega
    · simp only [Function.update_apply] at same
      have left := assigned.below i
      have right := assigned.below j
      split at same <;> split at same
      · simp_all
      · omega
      · omega
      · exact assigned.apart i j same
    · simp only [Function.update_apply]
      rw [if_neg (by omega)]
      exact assigned.idle t (by omega)
    · simp only [Function.update_apply] at handles ⊢
      split at handles
      · rename_i same
        cases handles
        simp only [same,if_true]
        exact ⟨trivial,Pc.noConfusion⟩
      · rename_i other
        have := assigned.below j
        simp only [other,if_false]
        rw [if_neg (by omega)]
        exact assigned.handles j p pc handles

theorem neverIdle {m n : Shared} {pc after : Pc} {move : Move}
    (moved : advance m pc move = some (n,after)) : after ≠ .idle := by
  intro same
  cases advanceTook moved with
  | sent _ => split at same <;> contradiction
  | _ => contradiction

theorem moveAssigned (assigned : Assigned task fresh w v) {k : Fin l.workers} {packet : Packet}
    {pc after : Pc} {move : Move} {m : Shared}
    (handles : (w.workers k).phase = .handling packet pc)
    (moved : advance w.shared pc move = some (m,after)) :
    ∃ u, SessionManager.step l.proxyTimeout v (.task (task k) move) = some u ∧
      Assigned task fresh
        ⟨numbered m,Function.update w.workers k ⟨(w.workers k).queue,.handling packet after⟩⟩ u := by
  refine ⟨⟨numbered m,Function.update v.tasks (task k) after⟩,?_,?_⟩
  · simp only [SessionManager.step,(assigned.handles k packet pc handles).1,assigned.shared,moved,
      bind,Option.bind]
  · refine ⟨rfl,assigned.below,assigned.apart,fun t le => ?_,fun j p now busy => ?_⟩
    · have := assigned.below k
      simp only [Function.update_apply]
      rw [if_neg (by omega)]
      exact assigned.idle t le
    · simp only [Function.update_apply] at busy ⊢
      split at busy
      · rename_i same
        cases busy
        simp only [same,if_true]
        exact ⟨trivial,neverIdle moved⟩
      · rename_i other
        rw [if_neg fun same => other (assigned.apart j k same)]
        exact assigned.handles j p now busy

theorem simulatesTasks (reach : Transition.Reachable (system l) w) :
    ∃ v, Transition.Reachable (SessionManager.system l.proxyTimeout) v ∧
      ∃ task fresh, Assigned task fresh w v := by
  refine Transition.simulates (fun w v => ∃ task fresh, Assigned task fresh w v) ?_ ?_ reach
  · intro s begins
    have same : s = start l := begins
    exact ⟨_,rfl,_,_,same ▸ startAssigned⟩
  · intro s label u v ⟨task,fresh,assigned⟩ moved
    cases label with
    | deliver k client payload =>
      cases Option.some.inj moved
      exact .inl ⟨task,fresh,keepsAssigned assigned fun _ _ busy => busy⟩
    | around event =>
      obtain ⟨m,happened,moved⟩ := Option.bind_eq_some_iff.mp moved
      cases Option.some.inj moved
      refine .inr ⟨.around event,⟨numbered m,v.tasks⟩,?_,task,fresh,?_⟩
      · have same : around l.proxyTimeout v.shared event = some m := assigned.shared ▸ happened
        have steps : SessionManager.step l.proxyTimeout v (.around event) =
            some ⟨numbered m,v.tasks⟩ := by
          simp only [SessionManager.step,same,bind,Option.bind]
        exact steps
      · exact {assigned with shared := rfl}
    | worker k a =>
      obtain ⟨m,after,did,rfl⟩ := workerStepped moved
      cases did with
      | @received client payload rest selects queue filled =>
        obtain ⟨u,steps,follows⟩ :=
          receiveAssigned assigned (k := k) ⟨client,l.address,payload⟩ filled
        exact .inr ⟨_,u,steps,_,_,follows⟩
      | moved handles advanced =>
        obtain ⟨u,steps,follows⟩ := moveAssigned assigned handles advanced
        exact .inr ⟨_,u,steps,_,_,follows⟩
      | logged selects => exact .inl ⟨task,fresh,keepsAssigned assigned fun _ _ busy => busy⟩
      | _ => exact .inl ⟨task,fresh,keepsAssigned assigned fun _ _ busy => by contradiction⟩

def Advances : Act → Prop
  | .receive => True
  | .move .recv => False
  | .move .expire => False
  | .move _ => True
  | .finish => True
  | .mirror => True
  | _ => False

def Phase.awaits : Phase → Bool
  | .handling _ (.awaiting _ _ _ _) => true
  | _ => false

def Enabled (w : World l) (k : Fin l.workers) (a : Act) : Prop :=
  ∃ out, act l w.shared (w.workers k) a = some out

theorem pcAdvances {m : Shared} {packet : Packet} {pc : Pc}
    (sound : SessionIsolation.PcSound m.sockets pc)
    (busy : pc ≠ .idle ∧ pc ≠ .done) (ready : (Phase.handling packet pc).awaits = false) :
    ∃ move out, advance m pc move = some out ∧ Advances (.move move) := by
  cases pc with
  | idle => exact absurd rfl busy.1
  | done => exact absurd rfl busy.2
  | awaiting packet b id requestAt => exact nomatch ready
  | forwarding packet => exact ⟨.choose none,_,rfl,trivial⟩
  | looking packet b =>
    cases stored : m.sessions ⟨packet.srcAddr,b⟩ with
    | none => exact ⟨.lookup,_,by simp only [advance,stored]; exact rfl,trivial⟩
    | some session => exact ⟨.lookup,_,by simp only [advance,stored]; exact rfl,trivial⟩
  | binding packet b => exact ⟨.bind true,_,rfl,trivial⟩
  | connecting packet b id =>
    obtain ⟨socket,held,_⟩ := sound
    exact ⟨.connect true,_,by simp only [advance,held]; exact rfl,trivial⟩
  | stamping packet b id => exact ⟨.stamp,_,rfl,trivial⟩
  | entering packet b new => exact ⟨.enter,_,rfl,trivial⟩
  | sending packet b id =>
    obtain ⟨socket,held,_⟩ := sound
    exact ⟨.send (some packet.payload.length),_,by simp only [advance,held]; exact rfl,trivial⟩
  | responding packet b reply => exact ⟨.respond true,_,rfl,trivial⟩

theorem workerAdvances (reach : Transition.Reachable (system l) w) {k : Fin l.workers}
    (queued : (w.workers k).queue ≠ []) (running : (w.workers k).phase ≠ .stopped)
    (ready : (w.workers k).phase.awaits = false) : ∃ a, Advances a ∧ Enabled w k a := by
  obtain ⟨v,reached,task,fresh,assigned⟩ := simulatesTasks reach
  have inv := SessionIsolation.reachableInv reached
  cases phase : (w.workers k).phase with
  | stopped => exact absurd phase running
  | selecting =>
    obtain ⟨⟨client,payload⟩,rest,queue⟩ := List.exists_cons_of_ne_nil queued
    refine ⟨.receive,trivial,?_⟩
    unfold Enabled
    simp only [act,phase,queue]
    split
    · exact ⟨_,rfl⟩
    · rename_i filled
      simp only [arrives w.shared ⟨client,l.address,payload⟩ filled,bind,Option.bind,
        Option.some.injEq,exists_eq']
  | mirroring packet left =>
    refine ⟨.mirror,trivial,?_⟩
    unfold Enabled
    cases left with
    | zero => exact ⟨_,by simp only [act,phase]; exact rfl⟩
    | succ left => exact ⟨_,by simp only [act,phase]; exact rfl⟩
  | handling packet pc =>
    obtain ⟨same,busy⟩ := assigned.handles k packet pc phase
    rcases Decidable.em (pc = .done) with ends | more
    · exact ⟨.finish,trivial,_,by simp only [act,phase,ends]; exact rfl⟩
    · have sound := inv.tasks (task k)
      rw [same,assigned.shared] at sound
      obtain ⟨move,out,moved,advances⟩ := pcAdvances sound ⟨busy,more⟩
        (phase ▸ ready)
      refine ⟨.move move,advances,?_⟩
      unfold Enabled
      simp only [act,phase,moved,bind,Option.bind,Option.some.injEq,exists_eq']

end UdpBalancer.ListenerWorker
