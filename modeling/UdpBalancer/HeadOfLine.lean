import UdpBalancer.ListenerWorker

/-! A worker awaits the backend's response inside `handle_packet`, so a datagram of
another client waits behind it. This happens in exactly the runs that send a
request past a queued datagram, or queue one behind a request. -/
namespace UdpBalancer.ListenerWorker
open Backends (Bytes SocketAddr)
open SessionManager (Packet Pc Move Shared Around advance around numbered Took advanceTook client
  server)

def Waits (a : Act) : Prop := a = .move .recv ∨ a = .move .expire

variable {l : Listener}

structure Blocked (w : World l) (k : Fin l.workers) : Prop where
  queued : (w.workers k).queue ≠ []
  steps : ∃ a, Enabled w k a
  waits : ∀ a, Enabled w k a → Waits a

theorem awaitsPhase {phase : Phase} (awaits : phase.awaits = true) :
    ∃ packet sent b id requestAt, phase = .handling packet (.awaiting sent b id requestAt) := by
  unfold Phase.awaits at awaits
  split at awaits
  · exact ⟨_,_,_,_,_,rfl⟩
  · contradiction

theorem awaitingWaits {m n : Shared} {packet : Packet} {b : SocketAddr} {id requestAt : Nat}
    {move : Move} {after : Pc} (moved : advance m (.awaiting packet b id requestAt) move =
      some (n,after)) : move = .recv ∨ move = .expire := by
  cases advanceTook moved with
  | answered _ _ => exact .inl rfl
  | emptied _ _ => exact .inl rfl
  | expired => exact .inr rfl

theorem waitsAwait {m n : Shared} {pc after : Pc} {move : Move} (packet : Packet)
    (waits : move = .recv ∨ move = .expire) (moved : advance m pc move = some (n,after)) :
    (Phase.handling packet pc).awaits = true := by
  rcases waits with rfl | rfl
  · cases advanceTook moved with
    | answered _ _ => rfl
    | emptied _ _ => rfl
  · cases advanceTook moved with
    | expired => rfl

theorem blockedIff (w : World l) (k : Fin l.workers) :
    Blocked w k ↔ (w.workers k).queue ≠ [] ∧ (w.workers k).phase.awaits = true := by
  constructor
  · intro blocked
    refine ⟨blocked.queued,?_⟩
    obtain ⟨a,⟨⟨m,after⟩,done⟩⟩ := blocked.steps
    cases actDid done with
    | moved handles moved =>
      rw [handles]
      rcases blocked.waits _ ⟨_,done⟩ with recv | expire
      · exact waitsAwait _ (.inl (Act.move.inj recv)) moved
      · exact waitsAwait _ (.inr (Act.move.inj expire)) moved
    | _ => rcases blocked.waits _ ⟨_,done⟩ with recv | expire <;> contradiction
  · intro ⟨queued,awaits⟩
    obtain ⟨packet,sent,b,id,requestAt,phase⟩ := awaitsPhase awaits
    refine ⟨queued,⟨.move .expire,_,by simp only [act,phase]; exact rfl⟩,fun a enabled => ?_⟩
    obtain ⟨⟨m,after⟩,done⟩ := enabled
    cases actDid done with
    | moved handles moved =>
      cases phase.symm.trans handles
      rcases awaitingWaits moved with recv | expire
      · exact .inl (congrArg Act.move recv)
      · exact .inr (congrArg Act.move expire)
    | skipped selects _ => cases phase.symm.trans selects
    | received selects _ _ => cases phase.symm.trans selects
    | logged selects => cases phase.symm.trans selects
    | finished handles => cases phase.symm.trans handles
    | mirrored mirrors => cases phase.symm.trans mirrors
    | returned mirrors => cases phase.symm.trans mirrors
    | stopped selects => cases phase.symm.trans selects

/- Nothing is queued behind a request, neither when it is sent nor while the worker
awaits its answer. -/
def Alone (w : World l) : Label l → Prop
  | .deliver k _ _ => (w.workers k).phase.awaits = false
  | .worker k (.move (.send (some sent))) => 0 < sent → (w.workers k).queue = []
  | _ => True

theorem sentAwaits {m n : Shared} {packet : Packet} {pc after : Pc} {move : Move}
    (moved : advance m pc move = some (n,after)) : (Phase.handling packet after).awaits = true ↔
      ∃ sent, move = .send (some sent) ∧ 0 < sent := by
  cases advanceTook moved with
  | @sent packet b id sent socket held =>
    constructor
    · intro awaits
      refine ⟨sent,rfl,?_⟩
      split at awaits
      · assumption
      · contradiction
    · intro ⟨n,same,positive⟩
      cases same
      rw [if_pos positive]
      exact rfl
  | _ =>
    constructor
    · intro awaits
      contradiction
    · intro ⟨_,same,_⟩
      cases same

theorem updateBlocked {w : World l} (free : ∀ j, ¬ Blocked w j) (m : Shared) (k : Fin l.workers)
    (after : Worker) : (∀ j, ¬ Blocked (⟨m,Function.update w.workers k after⟩ : World l) j) ↔
      (after.phase.awaits = true → after.queue = []) := by
  constructor
  · intro none awaits
    by_contra queued
    refine none k ((blockedIff _ k).mpr ?_)
    simp only [Function.update_self]
    exact ⟨queued,awaits⟩
  · intro alone j blocked
    obtain ⟨queued,awaits⟩ := (blockedIff _ j).mp blocked
    simp only [Function.update_apply] at queued awaits
    split at queued
    · rename_i same
      rw [if_pos same] at awaits
      exact queued (alone awaits)
    · rename_i other
      rw [if_neg other] at awaits
      exact free j ((blockedIff w j).mpr ⟨queued,awaits⟩)

theorem stepBlocked (w : World l) (label : Label l) (u : World l) (free : ∀ j, ¬ Blocked w j)
    (moved : step l w label = some u) : (∀ j, ¬ Blocked u j) ↔ Alone w label := by
  cases label with
  | deliver k client payload =>
    cases Option.some.inj moved
    rw [updateBlocked free w.shared k]
    simp [Alone]
  | around event =>
    obtain ⟨m,happened,moved⟩ := Option.bind_eq_some_iff.mp moved
    cases Option.some.inj moved
    refine ⟨fun _ => trivial,fun _ j blocked => ?_⟩
    exact free j ((blockedIff w j).mpr
      ((blockedIff (⟨numbered m,w.workers⟩ : World l) j).mp blocked))
  | worker k a =>
    obtain ⟨m,after,did,rfl⟩ := workerStepped moved
    rw [updateBlocked free m k after]
    cases did with
    | @moved packet pc move n next handles advanced =>
      rw [sentAwaits advanced]
      constructor
      · intro alone
        unfold Alone
        split
        · contradiction
        · rename_i same
          cases same
          exact fun positive => alone ⟨_,rfl,positive⟩
        · trivial
      · intro alone ⟨sent,same,positive⟩
        subst same
        exact alone positive
    | logged selects =>
      refine ⟨fun _ => trivial,fun _ awaits => ?_⟩
      rw [selects] at awaits
      contradiction
    | _ => exact ⟨fun _ => trivial,fun _ awaits => by contradiction⟩

theorem startBlocked (l : Listener) (k : Fin l.workers) : ¬ Blocked (start l) k :=
  fun blocked => blocked.queued rfl

/- In the runs all of whose steps are alone, and in no others, every state leaves
every worker free; it then has a step of its own for the datagrams in its queue. -/
theorem unblockedExactly (l : Listener) :
    (∀ labels, Transition.Along (step l) (fun w => ∀ k, ¬ Blocked w k) (start l) labels ↔
      Transition.Meets (step l) Alone (start l) labels) ∧
    ∀ w, Transition.Reachable (Transition.restrict (system l) Alone) w →
      ∀ k, ¬ Blocked w k ∧ ((w.workers k).queue ≠ [] → (w.workers k).phase ≠ .stopped →
        ∃ a, Advances a ∧ Enabled w k a) := by
  refine ⟨fun labels => Transition.exactRuns stepBlocked (startBlocked l) labels,
    fun w reach k => ?_⟩
  have free : ∀ k, ¬ Blocked w k := by
    refine Transition.invariant (fun w => ∀ k, ¬ Blocked w k) ?_ ?_ reach
    · intro s begins
      have same : s = start l := begins
      exact same ▸ startBlocked l
    · exact fun s label t free moved => (stepBlocked s label t free moved.2).mpr moved.1
  refine ⟨free k,fun queued running => ?_⟩
  have ready : (w.workers k).phase.awaits = false := by
    cases awaits : (w.workers k).phase.awaits with
    | false => rfl
    | true => exact absurd ((blockedIff w k).mpr ⟨queued,awaits⟩) (free k)
  exact workerAdvances (Transition.restrictReachable reach) queued running ready

def single : Listener := ⟨Backends.localhost 5353,1,0,30⟩

def only : Fin single.workers := ⟨0,by decide⟩

def syslog : List (Label single) :=
  [.deliver only (client 5000) [1],.worker only .receive] ++
  [Move.choose (some server),.lookup,.bind true,.connect true,.stamp,.enter,.send (some 1)].map
    (fun move => .worker only (.move move)) ++
  [.deliver only (client 6000) [1]]

theorem syslogWorker : (syslog.foldlM (step single) (start single)).map
    (fun w => (w.workers only,w.shared.flight)) =
      some (⟨[(client 6000,[1])],.handling ⟨client 5000,Backends.localhost 5353,[1]⟩
        (.awaiting ⟨client 5000,Backends.localhost 5353,[1]⟩ server 0 8)⟩,[]) := by
  decide +kernel

theorem syslogBlocked : ∃ w, Transition.Reachable (system single) w ∧ Blocked w only ∧
    (∃ payload, (client 6000,payload) ∈ (w.workers only).queue) ∧
    ∃ packet pc, (w.workers only).phase = .handling packet pc ∧ packet.srcAddr = client 5000 ∧
      client 5000 ≠ client 6000 ∧ w.shared.flight = [] := by
  obtain ⟨w,ran,same⟩ := Option.map_eq_some_iff.mp syslogWorker
  have reach := Transition.runReachable (.init (S := system single) (s := start single) rfl) ran
  obtain ⟨worker,flight⟩ := Prod.mk.inj same
  refine ⟨w,reach,(blockedIff w only).mpr ?_,?_,?_⟩
  · rw [worker]
    exact ⟨List.cons_ne_nil _ _,rfl⟩
  · rw [worker]
    exact ⟨_,List.mem_cons_self⟩
  · rw [worker]
    exact ⟨_,_,rfl,rfl,by decide,flight⟩

end UdpBalancer.ListenerWorker
